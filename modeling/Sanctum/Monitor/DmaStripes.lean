import Sanctum.Monitor.LockBalance

/-!
# The stripes of a DMA range

`set_dma_range` goes over the range in steps of one stripe, from the range's base on, and
looks at the owner of one region in each step. The base is aligned to the size of the range,
which is a power of two, and so is the size of a stripe. Hence either the range lies within
one stripe, or it consists of whole stripes: the regions that are looked at are those that
the range touches (`inspected_iff`), and the loop comes to an end if DRAM ends a stripe before
the address space does.

This is so whatever the loads return and whatever the locks do, as long as none of them is
found taken: it is proved for every `Handler` that answers the questions of the loop.
-/

namespace Sanctum

namespace DmaStripes

open LockBalance

/-! ### Arithmetic -/

/-- The stripes a range touches are those met when going from its base in steps of one stripe. -/
theorem exists_step_iff {base n k : ℕ} {P : ℕ → Prop} (hn : base % 2 ^ n = 0) :
    (∃ j, base + j * 2 ^ k < base + 2 ^ n ∧ P ((base + j * 2 ^ k) / 2 ^ k)) ↔
      ∃ a, base ≤ a ∧ a < base + 2 ^ n ∧ P (a / 2 ^ k) := by
  have hpos : 0 < 2 ^ k := Nat.two_pow_pos k
  constructor
  · rintro ⟨j, hj, hP⟩
    exact ⟨_, Nat.le_add_right _ _, hj, hP⟩
  · rintro ⟨a, hlow, hhigh, hP⟩
    have hstep := Nat.div_mul_le_self (a - base) (2 ^ k)
    refine ⟨(a - base) / 2 ^ k, by omega, ?_⟩
    suffices h : (base + (a - base) / 2 ^ k * 2 ^ k) / 2 ^ k = a / 2 ^ k by rwa [h]
    rw [Nat.add_mul_div_right _ _ hpos]
    obtain ⟨b, hb⟩ := Nat.dvd_of_mod_eq_zero hn
    rcases Nat.le_total n k with hle | hle
    · -- the range lies within one stripe
      obtain ⟨c, hc⟩ : 2 ^ n ∣ 2 ^ k := Nat.pow_dvd_pow 2 hle
      have hone : 2 ^ n ≤ 2 ^ k := Nat.pow_le_pow_right (by omega) hle
      have ha : a / 2 ^ n = b := by
        rw [Nat.div_eq_iff (Nat.two_pow_pos n), Nat.mul_comm b]
        omega
      rw [Nat.div_eq_of_lt (show a - base < 2 ^ k by omega), Nat.add_zero, hc, ← Nat.div_div_eq_div_mul,
        ← Nat.div_div_eq_div_mul, ha, hb, Nat.mul_div_cancel_left _ (Nat.two_pow_pos n)]
    · -- it consists of whole stripes
      obtain ⟨c, hc⟩ : 2 ^ k ∣ base := (Nat.pow_dvd_pow 2 hle).trans ⟨b, hb⟩
      have ha : a = 2 ^ k * c + (a - base) := by omega
      rw [hc, Nat.mul_div_cancel_left _ hpos, ← hc]
      conv_rhs => rw [ha, Nat.mul_add_div hpos]

/-! ### Handlers that answer -/

section Handlers

variable {σ : Type}

/-- Every question is answered, but `while (true) {}`. -/
def Answers (h : Handler hardware σ) : Prop := ∀ o s, o ≠ .spin → ∃ x, h o s = some x

/-- The machine does, however its locks are read. -/
theorem answers_exec (l : LockReading) : Answers (exec l) := fun o s ho => by
  cases o with
  | spin => exact absurd rfl ho
  | _ => exact ⟨_, rfl⟩

end Handlers

/-! ### What the loop inspects -/

section Inspected

variable {σ : Type} {h : Handler hardware σ} {g : Globals} {k n : ℕ} {s : σ}

/-- What the calls ask of the machine, with the answers they get. -/
abbrev Exchanges := List ((o : HwOp) × o.Answer)

/-- No lock is found taken. -/
def NoneTaken (tr : Exchanges) : Prop := ∀ a, ⟨.testAndSet a, true⟩ ∉ tr

instance (tr : Exchanges) : Decidable (NoneTaken tr) :=
  decidable_of_iff (∀ x ∈ tr, (match x with | ⟨.testAndSet _, b⟩ => b | _ => false) = false) <| by
    constructor
    · exact fun hall a ha => Bool.noConfusion (hall _ ha)
    · rintro hnone ⟨o, x⟩ hx
      cases o with
      | testAndSet a => exact Bool.eq_false_iff.mpr fun hb => hnone a (hb ▸ hx)
      | _ => rfl

/-- The owner of the region is read. -/
def Inspects (g : Globals) (tr : Exchanges) (r : Word) : Prop :=
  ∃ owner : EnclaveId, ⟨.load64 (g.regionField .owner r), owner⟩ ∈ tr

/-- The regions whose owners are read. -/
def inspected (g : Globals) (tr : Exchanges) : Set Word := {r | isValidDramRegion g r = true ∧ Inspects g tr r}

theorem inspects_append {tr tr' : Exchanges} {r : Word} :
    Inspects g (tr ++ tr') r ↔ Inspects g tr r ∨ Inspects g tr' r := by
  simp only [Inspects, List.mem_append, exists_or]

/-- No loads, no regions. -/
theorem not_inspects {tr : Exchanges} {r : Word} (htr : ∀ o ∈ tr, ∀ a, o.1 ≠ .load64 a) : ¬ Inspects g tr r :=
  fun ⟨_, ho⟩ => htr _ ho _ rfl

theorem NoneTaken.right {tr tr' : Exchanges} (hn : NoneTaken (tr ++ tr')) : NoneTaken tr' :=
  fun a ha => hn a (List.mem_append_right _ ha)

/-- A single question. -/
theorem exists_request (hh : Answers h) (o : HwOp) (ho : o ≠ .spin) (s : σ) :
    ∃ x s', (Prog.request (I := hardware) o).run h s = some (x, s') ∧
      (Prog.request (I := hardware) o).trace h s = [⟨o, x⟩] := by
  obtain ⟨⟨x, s'⟩, hx⟩ := hh o s ho
  exact ⟨x, s', (Prog.run_request h o s).trans hx, Prog.trace_request hx⟩

theorem exists_testAndSet (hh : Answers h) (a : Word) (s : σ) :
    ∃ b s', (testAndSet a).run h s = some (b, s') ∧ (testAndSet a).trace h s = [⟨.testAndSet a, b⟩] :=
  exists_request hh (.testAndSet a) nofun s

theorem exists_clear (hh : Answers h) (a : Word) (s : σ) :
    ∃ s', (clear a).run h s = some ((), s') ∧ (clear a).trace h s = [⟨.clear a, ()⟩] :=
  let ⟨(), s', hx⟩ := exists_request hh (.clear a) nofun s
  ⟨s', hx⟩

theorem exists_load64 (hh : Answers h) (a : Word) (s : σ) :
    ∃ w s', (load64 a).run h s = some (w, s') ∧ (load64 a).trace h s = [⟨.load64 a, w⟩] :=
  exists_request hh (.load64 a) nofun s

theorem exists_writeDmaRange (hh : Answers h) (first last : Word) (s : σ) :
    ∃ s', (writeDmaRange first last).run h s = some ((), s') ∧
      (writeDmaRange first last).trace h s = [⟨.writeDmaRange first last, ()⟩] :=
  let ⟨(), s', hx⟩ := exists_request hh (.writeDmaRange first last) nofun s
  ⟨s', hx⟩

/-- A round of the stripe loop, for a stripe of region `r`: what comes next depends on the owner. -/
def stripeRound {α : Type} (g : Globals) (r : Word) (stop : Monitor α) (next : EnclaveId → Monitor α) : Monitor α :=
  if r = 0 then readDramRegionOwner g r >>= next
  else testAndSetDramRegionLock g r >>= fun b =>
    if b = true then stop
    else readDramRegionOwner g r >>= fun owner => clearDramRegionLock g r >>= fun _ => next owner

/-- It reads the owner of that region. -/
theorem exists_stripeRound {α : Type} {r : Word} {stop : Monitor α} {next : EnclaveId → Monitor α} (hh : Answers h)
    (hg : Striped g k n) (hr : r.toNat < 2 ^ n) (hnone : NoneTaken ((stripeRound g r stop next).trace h s)) :
    ∃ owner s' tr, (stripeRound g r stop next).run h s = (next owner).run h s' ∧
      (stripeRound g r stop next).trace h s = tr ++ (next owner).trace h s' ∧
      ∀ r', r'.toNat < 2 ^ n → (Inspects g tr r' ↔ r' = r) := by
  have hread : ∀ (tr tr' : Exchanges) (w : Word), (∀ o ∈ tr ++ tr', ∀ a, o.1 ≠ .load64 a) →
      ∀ r', r'.toNat < 2 ^ n → (Inspects g (tr ++ ⟨.load64 (g.regionField .owner r), w⟩ :: tr') r' ↔ r' = r) := by
    intro tr tr' w hother r' hr'
    constructor
    · rintro ⟨owner, howner⟩
      rw [List.mem_append, List.mem_cons, or_left_comm, ← List.mem_append] at howner
      rcases howner with howner | howner
      · exact hg.regionField_inj hr' hr (HwOp.load64.inj (congrArg Sigma.fst howner))
      · exact absurd rfl (hother _ howner _)
    · rintro rfl
      exact ⟨w, List.mem_append_right _ List.mem_cons_self⟩
  unfold stripeRound at hnone ⊢
  split
  · next h0 =>
    obtain ⟨w, s₁, hw, htr⟩ := exists_load64 hh (g.regionField .owner r) s
    refine ⟨w, s₁, _, ?_, (Prog.trace_bind hw).trans (by rw [htr]; rfl), hread [] [] w (by simp)⟩
    rw [Prog.run_bind, readDramRegionOwner, hw, Option.bind_some]
  · next h0 =>
    rw [if_neg h0] at hnone
    obtain ⟨b, s₁, hb, htrb⟩ := exists_testAndSet hh (g.regionLock r) s
    obtain ⟨w, s₂, hw, htrw⟩ := exists_load64 hh (g.regionField .owner r) s₁
    obtain ⟨s₃, hc, htrc⟩ := exists_clear hh (g.regionLock r) s₂
    rw [testAndSetDramRegionLock, Prog.trace_bind hb, htrb] at hnone
    rw [testAndSetDramRegionLock, Prog.trace_bind hb, htrb, Prog.run_bind, hb, Option.bind_some]
    cases b with
    | true => exact absurd List.mem_cons_self (hnone (g.regionLock r))
    | false =>
      refine ⟨w, s₃, [⟨.testAndSet (g.regionLock r), false⟩] ++
        ⟨.load64 (g.regionField .owner r), w⟩ :: [⟨.clear (g.regionLock r), ()⟩], ?_, ?_, hread _ _ w (by simp)⟩
      · rw [if_neg Bool.false_ne_true, Prog.run_bind, readDramRegionOwner, hw, Option.bind_some, Prog.run_bind,
          clearDramRegionLock, hc, Option.bind_some]
      · rw [if_neg Bool.false_ne_true, readDramRegionOwner, Prog.trace_bind hw, htrw, clearDramRegionLock,
          Prog.trace_bind hc, htrc]
        rfl

/-- Going on from `addr` in steps of one stripe one comes to a stripe of region `r` before the end. -/
def Meets (k n addr rangeEnd : ℕ) (r : Word) : Prop :=
  ∃ j, addr + j * 2 ^ k < rangeEnd ∧ (addr + j * 2 ^ k) / 2 ^ k % 2 ^ n = r.toNat

theorem meets_iff {addr rangeEnd : ℕ} {r : Word} (hlt : addr < rangeEnd) :
    Meets k n addr rangeEnd r ↔ addr / 2 ^ k % 2 ^ n = r.toNat ∨ Meets k n (addr + 2 ^ k) rangeEnd r := by
  constructor
  · rintro ⟨j, hj, hr⟩
    cases j with
    | zero => exact .inl (by simpa using hr)
    | succ j =>
      rw [Nat.succ_mul, Nat.add_comm (j * 2 ^ k), ← Nat.add_assoc] at hj hr
      exact .inr ⟨j, hj, hr⟩
  · rintro (hr | ⟨j, hj, hr⟩)
    · exact ⟨0, by simpa using hlt, by simpa using hr⟩
    · refine ⟨j + 1, ?_, ?_⟩ <;> rw [Nat.succ_mul, Nat.add_comm (j * 2 ^ k), ← Nat.add_assoc]
      · exact hj
      · exact hr

/-- One time round the stripe loop. -/
def stripeBody (g : Globals) (rangeEnd : Word) (b : Word × Bool) : Monitor (Word × Bool ⊕ Option Bool) :=
  if b.1 < rangeEnd then
    stripeRound g (dramRegionFor g b.1) (pure (.inr none)) fun owner =>
      pure (.inl (b.1 + g.dramStripeSize, b.2 && owner == 0))
  else pure (.inr (some b.2))

theorem setDmaRangeStripes_eq (base rangeEnd : Word) :
    setDmaRangeStripes g base rangeEnd = Prog.whileSome (stripeBody g rangeEnd) (2 ^ 64) (base, true) := by
  unfold setDmaRangeStripes
  congr 1
  funext b
  unfold stripeBody
  dsimp only
  rw [LockBalance.stripeRound_eq]
  rfl

/-- **The stripe loop** comes to the end of the range, having looked at the regions that it meets. -/
theorem exists_stripes {rangeEnd addr : Word} {v : Bool} {rounds : ℕ} (hh : Answers h) (hg : Striped g k n)
    (hend : rangeEnd.toNat + 2 ^ k ≤ 2 ^ 64) (hrounds : rangeEnd.toNat - addr.toNat < rounds)
    (hnone : NoneTaken ((Prog.whileSome (stripeBody g rangeEnd) rounds (addr, v)).trace h s)) :
    ∃ v' s', (Prog.whileSome (stripeBody g rangeEnd) rounds (addr, v)).run h s = some (some (some v'), s') ∧
      ∀ r, r.toNat < 2 ^ n →
        (Inspects g ((Prog.whileSome (stripeBody g rangeEnd) rounds (addr, v)).trace h s) r ↔
          Meets k n addr.toNat rangeEnd.toNat r) := by
  have hpos : 0 < 2 ^ k := Nat.two_pow_pos k
  -- each round leaves less of the range
  induction rounds generalizing addr v s with
  | zero => omega
  | succ rounds ih =>
    rw [Prog.whileSome] at hnone ⊢
    by_cases hlt : addr < rangeEnd
    · have hlt' : addr.toNat < rangeEnd.toNat := hlt
      have hnext : (addr + g.dramStripeSize).toNat = addr.toNat + 2 ^ k := by
        rw [BitVec.toNat_add, hg.stripeSize, Nat.mod_eq_of_lt (by omega)]
      have hbody : stripeBody g rangeEnd (addr, v) = stripeRound g (dramRegionFor g addr) (pure (.inr none)) fun owner =>
          pure (.inl (addr + g.dramStripeSize, v && owner == 0)) := if_pos hlt
      rw [hbody] at hnone ⊢
      obtain ⟨owner, s₁, tr, hrun, htr, hinspects⟩ := exists_stripeRound hh hg (hg.toNat_dramRegionFor_lt addr)
        fun a ha => hnone a ((Prog.trace_prefix _ _ _).subset ha)
      rw [Prog.run_pure] at hrun
      rw [Prog.trace_pure, List.append_nil] at htr
      rw [Prog.trace_bind hrun, htr] at hnone ⊢
      rw [Prog.run_bind, hrun, Option.bind_some]
      obtain ⟨v', s', hrest, hmeets⟩ := ih (by omega) hnone.right
      refine ⟨v', s', hrest, fun r hr => ?_⟩
      rw [inspects_append, hinspects r hr, meets_iff hlt', ← hnext, ← hg.toNat_dramRegionFor, BitVec.toNat_inj, eq_comm]
      exact or_congr_right (hmeets r hr)
    · have hbody : stripeBody g rangeEnd (addr, v) = pure (.inr (some v)) := if_neg hlt
      refine ⟨v, s, by rw [hbody]; rfl, fun r hr => ?_⟩
      rw [hbody]
      refine iff_of_false ?_ ?_
      · rintro ⟨w, hw⟩
        cases hw
      · rintro ⟨j, hj, -⟩
        rw [BitVec.lt_def] at hlt
        omega

/-! ### The call -/

/-- Going over a range one comes to all regions that it touches. -/
theorem meets_range_iff {base mask r : Word} (hg : Striped g k n) (hrange : isValidRange base mask = true) :
    Meets k n base.toNat (base.toNat + mask.toNat + 1) r ↔
      ∃ a : Word, base.toNat ≤ a.toNat ∧ a.toNat ≤ base.toNat + mask.toNat ∧ dramRegionFor g a = r := by
  obtain ⟨m, hm, haligned⟩ := exists_of_isValidRange hrange
  have hlt : base.toNat + mask.toNat < 2 ^ 64 := toNat_or_of_isValidRange hrange ▸ (base ||| mask).isLt
  rw [Meets, Nat.add_assoc, hm, exists_step_iff (P := fun q => q % 2 ^ n = r.toNat) haligned]
  constructor
  · rintro ⟨a, h1, h2, hr⟩
    have ha : (BitVec.ofNat 64 a).toNat = a := Nat.mod_eq_of_lt (by omega)
    refine ⟨BitVec.ofNat 64 a, by omega, by omega, BitVec.eq_of_toNat_eq ?_⟩
    rw [hg.toNat_dramRegionFor, ha, hr]
  · rintro ⟨a, h1, h2, rfl⟩
    exact ⟨a.toNat, h1, by omega, (hg.toNat_dramRegionFor a).symm⟩

/-- **`set_dma_range` looks at the regions that its range touches.** If no lock is found taken,
and DRAM ends a stripe before the address space does, it returns, and the regions whose owners
it has read are those of the addresses from `base` to `base + mask`. -/
theorem inspected_iff {base mask : Word} (hh : Answers h) (hg : Striped g k n)
    (hsize : g.dramSize.toNat + g.dramStripeSize.toNat ≤ 2 ^ 64) (hrange : isValidRange base mask = true)
    (hdram : isDramAddress g (base ||| mask) = true) (hnone : NoneTaken ((setDmaRange g base mask).trace h s)) :
    Prog.Returns h (setDmaRange g base mask) s ∧
      inspected g ((setDmaRange g base mask).trace h s) =
        {r | ∃ a : Word, base.toNat ≤ a.toNat ∧ a.toNat ≤ base.toNat + mask.toNat ∧ dramRegionFor g a = r} := by
  have hlast := toNat_or_of_isValidRange hrange
  have hend : ((base ||| mask) + 1).toNat = base.toNat + mask.toNat + 1 ∧
      base.toNat + mask.toNat < g.dramSize.toNat := by
    rw [isDramAddress, Bool.and_eq_true, decide_eq_true_iff, decide_eq_true_iff, BitVec.lt_def, hlast] at hdram
    have e1 : (1 : Word).toNat = 1 := rfl
    have hlt := g.dramSize.isLt
    rw [BitVec.toNat_add, hlast, e1, Nat.mod_eq_of_lt (by omega)]
    exact ⟨rfl, hdram.1⟩
  rw [hg.stripeSize] at hsize
  unfold setDmaRange at hnone ⊢
  rw [if_neg (by simp [hrange]), if_neg (by simp [hdram])] at hnone ⊢
  obtain ⟨b, s₁, hb, htrb⟩ := exists_testAndSet hh (g.regionLock 0) s
  unfold Prog.Returns
  rw [testAndSetDramRegionLock, Prog.trace_bind hb, htrb] at hnone ⊢
  rw [Prog.run_bind, hb, Option.bind_some]
  cases b with
  | true => exact absurd List.mem_cons_self (hnone (g.regionLock 0))
  | false =>
    rw [if_neg Bool.false_ne_true] at hnone ⊢
    dsimp only at hnone ⊢
    rw [setDmaRangeStripes_eq] at hnone ⊢
    obtain ⟨v, s₂, hloop, hmeets⟩ := exists_stripes hh hg (by omega) (by omega)
      fun a ha => hnone.right a ((Prog.trace_prefix _ _ _).subset ha)
    obtain ⟨s₃, hw, htrw⟩ := exists_writeDmaRange hh base ((base ||| mask) + 1) s₂
    obtain ⟨s₄, hc, htrc⟩ := exists_clear hh (g.regionLock 0) s₃
    refine ⟨⟨(.ok, s₄), ?_⟩, ?_⟩
    · rw [Prog.run_bind, hloop, Option.bind_some, Prog.run_bind, hw, Option.bind_some, clearDramRegionLock,
        Prog.run_bind, hc]
      rfl
    · have htr := Prog.trace_bind (f := fun _ : Unit => clearDramRegionLock g 0 >>= fun _ => pure ApiResult.ok) hw
      rw [clearDramRegionLock, Prog.trace_bind hc, htrw, htrc] at htr
      ext r
      change _ ∧ Inspects g _ r ↔ ∃ a, _
      rw [hg.isValidDramRegion_iff, Prog.trace_bind hloop, inspects_append, inspects_append,
        ← meets_range_iff hg hrange, ← hend.1]
      have hlock : ¬ Inspects g [⟨.testAndSet (g.regionLock 0), false⟩] r := not_inspects (by simp)
      have hrest : ¬ Inspects g
          ([⟨.writeDmaRange base ((base ||| mask) + 1), ()⟩] ++ [⟨.clear (g.regionLock 0), ()⟩]) r :=
        not_inspects (by simp)
      dsimp only
      rw [clearDramRegionLock, htr]
      constructor
      · rintro ⟨hr, hin⟩
        exact (hmeets r hr).mp ((hin.resolve_left hlock).resolve_right hrest)
      · rintro hm
        have hr : r.toNat < 2 ^ n := by
          obtain ⟨j, -, hj⟩ := hm
          exact hj ▸ Nat.mod_lt _ (Nat.two_pow_pos n)
        exact ⟨hr, .inr (.inl ((hmeets r hr).mpr hm))⟩

end Inspected

/-- On a machine just booted, the OS points DMA at a page of region `1`. -/
theorem inspected_fresh :
    inspected twoRegions.globals
        ((setDmaRange twoRegions.globals 0x81000 0xfff).trace (exec .code) (freshMachine twoRegions)) =
      {r | ∃ a : Word, 0x81000 ≤ a.toNat ∧ a.toNat ≤ 0x81000 + 0xfff ∧ dramRegionFor twoRegions.globals a = r} :=
  (inspected_iff (answers_exec .code) (.of_config twoRegions) (by decide +kernel) (by decide) (by decide)
    (by decide +kernel)).2

end DmaStripes

end Sanctum
