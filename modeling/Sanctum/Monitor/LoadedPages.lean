import Sanctum.Monitor.Api
import Sanctum.Monitor.BootInit

/-!
# Loading pages in order

`load_page_table` and `load_page` refuse an address that is not above the enclave's
`last_load_addr`, so that the pages loaded come in increasing order and none is loaded twice. But
what they do once the checks have passed is commented out, and with it the stores to
`last_load_addr`: a call changes nothing, and what has succeeded once succeeds again.

What is proved is that the pages come in order only where no page can be loaded at all
(`increasing_iff`).
-/

namespace Sanctum

namespace LoadedPages

variable (g : Globals)

/-- The `phys_addr` of a call that loads into the enclave. -/
def loadAddr (id : EnclaveId) : Call → Option Word
  | .loadPageTable e physAddr _ _ _ | .loadPage e physAddr _ _ _ => if e = id then some physAddr else none
  | _ => none

/-- The addresses that calls which have returned `monitor_ok` have loaded, oldest first. -/
def loaded (id : EnclaveId) (tr : List (Step Machine Event)) : List Word :=
  tr.filterMap fun st => if st.label.result = ApiResult.ok.code then loadAddr id st.label.call else none

/-- Whatever calls load into the enclave, the addresses increase. -/
def Increasing (s : Machine) (id : EnclaveId) : Prop :=
  ∀ tr s', Run (step g) s tr s' → (∀ st ∈ tr, (loadAddr id st.label.call).isSome = true) →
    (loaded id tr).Pairwise (· < ·)

/-- There is an enclave that is being loaded, and `a` passes the checks that both calls make. -/
structure Loadable (s : Machine) (id : EnclaveId) (a : Word) : Prop where
  /-- It is not the OS. -/
  notNull : id ≠ nullEnclaveId
  /-- `is_valid_enclave_id`. -/
  valid : g.validEnclaveId s id = true
  /-- It is not initialized. -/
  loading : s.mem.load64 (enclaveField .isInitialized id) = 0
  /-- The lock flag of its region is clear. -/
  unlocked : g.regionLocked s (clampedDramRegionFor g id) = false
  /-- `is_dram_address`. -/
  inDram : isDramAddress g a = true
  /-- `is_page_aligned`. -/
  aligned : isPageAligned a = true
  /-- The address is above the mark. -/
  above : s.mem.load64 (enclaveField .lastLoadAddr id) < a

variable {g} {s s' : Machine} {id : EnclaveId} {a : Word}

/-! ### One call -/

/-- What `validated` has checked when it returns `monitor_ok`. -/
theorem post_validated {body : Monitor ApiResult} {P : Prop}
    (hbody : id ≠ nullEnclaveId → g.validEnclaveId s id = true →
      g.regionLocked s (clampedDramRegionFor g id) = false → Prog.Post (exec .code) body s fun e _ => e = .ok → P) :
    Prog.Post (exec .code) (validated g id body) s fun e _ => e = .ok → P := by
  intro e s' hrun he
  by_cases hid : id = nullEnclaveId ∨ g.validEnclaveId s id = false
  · rcases (validated_fails g s body hid).cases hrun with ⟨-, h, -⟩ | ⟨hne, -⟩
    · exact h.elim
    · exact absurd he hne
  push Not at hid
  have hvalid : g.validEnclaveId s id = true := by simpa using hid.2
  rw [validated] at hrun
  rw [Prog.run_bind, run_testAndSetDramRegionLock_code, Option.bind_some, Prog.run_ite] at hrun
  cases hlock : g.regionLocked s (clampedDramRegionFor g id) with
  | true =>
    rw [if_pos hlock, Prog.run_pure, Option.some.injEq, Prod.mk.injEq] at hrun
    rw [he] at hrun
    cases hrun.1
  | false =>
    rw [if_neg (by simp [hlock]), Prog.run_bind, if_neg hid.1, Prog.run_bind, run_isValidEnclaveId, Option.bind_some,
      hvalid, Prog.run_pure, Option.bind_some, Prog.run_ite, if_neg (by simp), Prog.run_bind] at hrun
    obtain ⟨⟨e', t⟩, hrunBody, hrest⟩ := Option.bind_eq_some_iff.mp hrun
    have he' : e' = e := (Prod.mk.inj (Option.some.inj hrest)).1
    exact hbody hid.1 hvalid hlock e' t hrunBody (he'.trans he)

/-- What the bodies of both calls check. -/
theorem post_body {rest : Monitor ApiResult} {P : Prop}
    (hP : s.mem.load64 (enclaveField .isInitialized id) = 0 → s.mem.load64 (enclaveField .lastLoadAddr id) < a → P) :
    Prog.Post (exec .code) (do
      if (← load64 (enclaveField .isInitialized id)) ≠ 0 then return .invalidState
      if a ≤ (← load64 (enclaveField .lastLoadAddr id)) then return .invalidValue
      rest) s fun e _ => e = .ok → P := by
  intro e s' hrun he
  rw [Prog.run_bind, run_load64, Option.bind_some, Prog.run_ite] at hrun
  by_cases hinit : s.mem.load64 (enclaveField .isInitialized id) ≠ 0
  · rw [if_pos hinit, Prog.run_pure, Option.some.injEq, Prod.mk.injEq, he] at hrun
    cases hrun.1
  · rw [if_neg hinit, Prog.run_bind, run_load64, Option.bind_some, Prog.run_ite] at hrun
    by_cases hmark : a ≤ s.mem.load64 (enclaveField .lastLoadAddr id)
    · rw [if_pos hmark, Prog.run_pure, Option.some.injEq, Prod.mk.injEq, he] at hrun
      cases hrun.1
    · exact hP (not_not.mp hinit) (BitVec.not_le.mp hmark)

/-- **A call that loads** leaves the machine as it was, and if it succeeds, the address has passed the
checks. -/
theorem step_load {e : Event} (h : step g s e s') (he : loadAddr id e.call = some a) :
    s' = s ∧ (e.result = ApiResult.ok.code → Loadable g s id a) := by
  obtain ⟨c, v⟩ := e
  cases c with
  | loadPageTable id' physAddr virtualAddr level acl =>
    obtain ⟨hid, hphys⟩ := Option.ite_none_right_eq_some.mp he
    obtain rfl : physAddr = a := Option.some.inj hphys
    subst hid
    refine ⟨(onlyLooks_loadPageTable _ _ _ _ _).resultOf.unchanged h, fun hv => ?_⟩
    obtain ⟨e, hrun, hcode⟩ := run_resultOf h
    have hok : e = .ok := code_eq_zero.mp (hcode.symm.trans hv)
    refine (Prog.Post.ite (fun _ => .pure nofun) fun hdram => .ite (fun _ => .pure nofun) fun haligned =>
      .ite (fun _ => .pure nofun) fun _ => post_validated fun hnull hvalid hlock => post_body fun hinit hmark => ?_ :
      Prog.Post (exec .code) (loadPageTable g id' physAddr virtualAddr level acl) s
        fun e _ => e = .ok → Loadable g s id' physAddr) e s' hrun hok
    exact ⟨hnull, hvalid, hinit, hlock, by simpa using hdram, by simpa using haligned, hmark⟩
  | loadPage id' physAddr virtualAddr osAddr acl =>
    obtain ⟨hid, hphys⟩ := Option.ite_none_right_eq_some.mp he
    obtain rfl : physAddr = a := Option.some.inj hphys
    subst hid
    refine ⟨(onlyLooks_loadPage _ _ _ _ _).resultOf.unchanged h, fun hv => ?_⟩
    obtain ⟨e, hrun, hcode⟩ := run_resultOf h
    have hok : e = .ok := code_eq_zero.mp (hcode.symm.trans hv)
    refine (Prog.Post.ite (fun _ => .pure nofun) fun hdram => .ite (fun _ => .pure nofun) fun haligned =>
      post_validated fun hnull hvalid hlock => post_body fun hinit hmark => ?_ :
      Prog.Post (exec .code) (loadPage g id' physAddr virtualAddr osAddr acl) s
        fun e _ => e = .ok → Loadable g s id' physAddr) e s' hrun hok
    simp only [Bool.or_eq_true, Bool.not_eq_true', not_or, Bool.not_eq_false] at hdram haligned
    exact ⟨hnull, hvalid, hinit, hlock, hdram.1, haligned.1, hmark⟩
  | _ => cases he

/-- The topmost page table can be loaded at any such address. -/
theorem step_of_loadable (h : Loadable g s id a) :
    step g s ⟨.loadPageTable id a 0 (pageTableLevels - 1) 0, ApiResult.ok.code⟩ s := by
  have hrun : (loadPageTable g id a 0 (pageTableLevels - 1) 0).run (exec .code) s = some (.ok, s) := by
    rw [loadPageTable, if_neg (by simp [h.inDram]), if_neg (by simp [h.aligned]), if_neg (by decide), validated]
    rw [Prog.run_bind, run_testAndSetDramRegionLock_code, Option.bind_some, h.unlocked, Prog.run_ite,
      if_neg Bool.false_ne_true, Prog.run_bind, if_neg h.notNull, Prog.run_bind, run_isValidEnclaveId,
      Option.bind_some, h.valid, Prog.run_pure, Option.bind_some, Prog.run_ite, if_neg (by simp), Prog.run_bind,
      Prog.run_bind, run_load64, Option.bind_some, if_neg (fun hne => hne h.loading), Prog.run_bind, run_load64,
      Option.bind_some, if_neg (BitVec.not_le.mpr h.above)]
    rfl
  change (resultOf (loadPageTable g id a 0 (pageTableLevels - 1) 0)).run (exec .code) s = _
  rw [resultOf, Prog.run_bind, hrun]
  rfl

/-! ### Calls one after the other -/

/-- Calls that load leave the machine as it was. -/
theorem run_loads {tr : List (Step Machine Event)} (h : Run (step g) s tr s')
    (hloads : ∀ st ∈ tr, (loadAddr id st.label.call).isSome = true) :
    s' = s ∧ ∀ a ∈ loaded id tr, Loadable g s id a := by
  induction h with
  | nil => exact ⟨rfl, nofun⟩
  | @snoc tr t t' e _ hstep ih =>
    obtain ⟨rfl, hall⟩ := ih fun st hst => hloads st (List.mem_append_left _ hst)
    obtain ⟨b, hb⟩ := Option.isSome_iff_exists.mp (hloads ⟨t, e, t'⟩ (by simp))
    obtain ⟨rfl, hok⟩ := step_load hstep hb
    refine ⟨rfl, fun c hc => ?_⟩
    rw [loaded, List.filterMap_append, List.mem_append] at hc
    rcases hc with hc | hc
    · exact hall c hc
    · obtain ⟨hresult, hc⟩ : e.result = ApiResult.ok.code ∧ loadAddr id e.call = some c := by simpa using hc
      rw [hb, Option.some.injEq] at hc
      exact hc ▸ hok hresult

variable (g s id) in
/-- **When the pages come in order**, whatever calls are made: exactly if no page can be loaded. -/
theorem increasing_iff : Increasing g s id ↔ ¬ ∃ a, Loadable g s id a := by
  constructor
  · rintro h ⟨a, ha⟩
    -- the same page is loaded twice
    have hstep := step_of_loadable ha
    have hrun := Run.snoc (Run.snoc Run.nil hstep) hstep
    have hpair := h _ _ hrun (by simp [loadAddr])
    have htwice : loaded id ([] ++ [⟨s, ⟨.loadPageTable id a 0 (pageTableLevels - 1) 0, ApiResult.ok.code⟩, s⟩] ++
        [⟨s, ⟨.loadPageTable id a 0 (pageTableLevels - 1) 0, ApiResult.ok.code⟩, s⟩]) = [a, a] := by
      simp [loaded, loadAddr]
    rw [htwice] at hpair
    exact BitVec.lt_irrefl a (List.rel_of_pairwise_cons hpair List.mem_cons_self)
  · intro h tr s' hrun hloads
    have hnone : loaded id tr = [] :=
      List.eq_nil_iff_forall_not_mem.mpr fun a ha => h ⟨a, (run_loads hrun hloads).2 a ha⟩
    rw [hnone]
    exact List.Pairwise.nil

/-- An enclave in a region of its own, nothing of which has been loaded. -/
def loadingMachine : Machine :=
  { blankMachine with mem := blankMachine.mem.store64 (twoRegions.globals.regionField .owner 1) 0x81000 }

/-- The page at `0x82000` is loaded twice. -/
theorem not_increasing : ¬ Increasing twoRegions.globals loadingMachine 0x81000 := by
  intro h
  let c : Call := .loadPage 0x81000 0x82000 0 0x1000 0
  have hrun : Run (step twoRegions.globals) loadingMachine _ _ :=
    run_script _ (show allReturn twoRegions.globals loadingMachine [c, c] = true by decide +kernel)
  have hpair := h _ _ hrun (by simp [script, c, loadAddr])
  have htwice : loaded 0x81000 (script twoRegions.globals loadingMachine [c, c]) = [0x82000, 0x82000] := by
    decide +kernel
  rw [htwice] at hpair
  exact BitVec.lt_irrefl _ (List.rel_of_pairwise_cons hpair List.mem_cons_self)

end LoadedPages

end Sanctum
