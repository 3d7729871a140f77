import Sanctum.Monitor.LockBalance
import Sanctum.Monitor.MetadataRuns

/-!
# Deleting an enclave

`delete_enclave` is to free the regions in the enclave's bitmap and to wipe them, and to leave
everything else alone (`Deleted`). It goes over the bitmap four times. The loops that lock
and unlock test the bit of the region they are at, but the one that frees the regions tests the
bit of `region_iterator`, with which the locking loop has ended: bit `g_dram_region_count`, past the
last region.

As a rule this bit is clear, and then nothing is freed (`deletes_of_clear`): the call is right only
about enclaves whose regions are free already. If it is set, all regions are freed and wiped, from
region `0` on, in which the monitor itself lies (`wiped_of_set`).
-/

namespace Sanctum

namespace DeleteEnclave

open LockBalance

variable (C : Config)

/-! ### What the call is to do -/

/-- The byte belongs to the contents of region `r`: it is in DRAM, and past the monitor's arrays. -/
structure InRegion (r b : Word) : Prop where
  /-- The region of the address. -/
  region : dramRegionFor C.globals b = r
  /-- There is such a byte. -/
  inDram : b.toNat < C.dramSize.toNat
  /-- It does not belong to the monitor's arrays. -/
  pastArrays : C.arraysEnd ≤ b.toNat

/-- Region `r` is free, without pinned pages, and all its contents are zero. -/
structure Freed (m : Memory) (r : Word) : Prop where
  /-- Its owner is `free_enclave_id`. -/
  owner : Slot.read C m (.region .owner r) = freeEnclaveId
  /-- It has no pinned pages. -/
  pinned : Slot.read C m (.region .pinnedPages r) = 0
  /-- Its contents. -/
  contents : ∀ b, InRegion C r b → m b = 0

/-- Nothing has become of region `r`. -/
structure Kept (m m' : Memory) (r : Word) : Prop where
  /-- Its owner. -/
  owner : Slot.read C m' (.region .owner r) = Slot.read C m (.region .owner r)
  /-- Its pinned pages. -/
  pinned : Slot.read C m' (.region .pinnedPages r) = Slot.read C m (.region .pinnedPages r)
  /-- Its contents. -/
  contents : ∀ b, InRegion C r b → m' b = m b

/-- The regions of the bitmap are freed, and the others are what they were. -/
def Deleted (m m' : Memory) (bitmap : Word) : Prop :=
  ∀ r : Word, r.toNat < C.regionCount → if m.bit bitmap r = true then Freed C m' r else Kept C m m' r

/-- `delete_enclave` returns `monitor_ok` and has deleted the enclave, and the same locks are held as
when it was entered, none of them by the call. -/
def Deletes (m : Machine) (others : Word → Bool) (id : EnclaveId) : Prop :=
  ∃ s', (deleteEnclave C.globals id).run lockExec (entered m others) = some (.ok, s') ∧
    Deleted C m.mem s'.machine.mem (enclaveRegionBitmap id) ∧ s'.mine = ∅ ∧ s'.others = others

/-! ### What it does -/

/-- The bit that the freeing loop tests, of region `g_dram_region_count`, is set. -/
def testedBit (m : Memory) (bitmap : Word) : Bool := m.getBit bitmap C.globals.dramRegionCount

/-- No region whose bit is seen by `read_bitmap_bit` is locked. -/
def Unlocked (m : Machine) (others : Word → Bool) (bitmap : Word) : Prop :=
  ∀ r : Word, r.toNat < C.regionCount → m.mem.getBit bitmap r = true → others (C.globals.regionLock r) = false

/-- The regions in the bitmap are free already. -/
def AlreadyFreed (m : Memory) (bitmap : Word) : Prop :=
  ∀ r : Word, r.toNat < C.regionCount → m.bit bitmap r = true → Freed C m r

variable {C} {m : Machine} {others : Word → Bool} {id bitmap main : Word} {s s' : LockedMachine}

/-- `is_valid_enclave_id` reads an owner. -/
theorem run_isValidEnclaveId_lock {g : Globals} :
    (isValidEnclaveId g id).run lockExec s = some (g.validEnclaveId s.machine id, s) := rfl

/-- A call on an enclave that is accepted. -/
theorem run_validated {g : Globals} {body : Monitor ApiResult} (hid : id ≠ nullEnclaveId)
    (hvalid : g.validEnclaveId s.machine id = true)
    (hfree : s.held (g.regionLock (clampedDramRegionFor g id)) = false) :
    (validated g id body).run lockExec s = (body.run lockExec (s.acquire _ hfree)).map fun x =>
      (x.1, x.2.release (g.regionLock (clampedDramRegionFor g id))) := by
  unfold validated
  rw [Prog.run_bind, testAndSetDramRegionLock, run_testAndSet_free hfree, Option.bind_some, if_neg (by simp),
    Prog.run_bind, if_neg hid, Prog.run_bind, run_isValidEnclaveId_lock, Option.bind_some,
    LockedMachine.acquire_machine, hvalid, Prog.run_pure, Option.bind_some, if_neg (by simp), Prog.run_bind]
  cases body.run lockExec (s.acquire _ hfree) with
  | none => rfl
  | some x => rfl

/-! ### The loops that lock and unlock -/

/-- If no region to be locked is locked, the locking loop acquires all the locks. -/
theorem run_lockAll (hlocks : Unlocked C s.machine s.others bitmap) (hmain : main.toNat < C.regionCount)
    (hmine : s.mine = {C.globals.regionLock main}) :
    ∃ s', (deleteEnclaveLock C.globals bitmap main).run lockExec s = some (none, s') ∧
      Acquired C.globals s s' bitmap main C.regionCount 0 := by
  have hcount : C.globals.dramRegionCount.toNat = C.regionCount := by simp
  obtain ⟨k, s', hrun, hk, hacq, hstuck⟩ :=
    run_deleteEnclaveLock C.globals bitmap main s C.regionCount 0
  rw [Nat.zero_add] at hrun hstuck
  have hend : k = C.regionCount := by
    by_contra hne
    have hlt : k < C.regionCount := by omega
    obtain ⟨⟨hkmain, hbit⟩, hheld⟩ := hstuck hlt
    have hnat := C.toNat_ofNat_lt hlt
    rw [hacq.machine] at hbit
    -- the lock is none of those acquired before
    have hother : s'.others (C.globals.regionLock (BitVec.ofNat 64 k)) = false := by
      rw [hacq.others]
      exact hlocks _ (by rw [hnat]; exact hlt) hbit
    rw [LockedMachine.held, hother, Bool.false_or, decide_eq_true_iff, hacq.mine, hmine, Finset.mem_union,
      Finset.mem_singleton, List.mem_toFinset, enclaveLocks, List.mem_map] at hheld
    rcases hheld with heq | ⟨j, hj, heq⟩
    · exact hkmain (C.regionLock_inj (by rw [hnat]; exact hlt) hmain heq)
    · have hjk : j < k := by simpa using (List.mem_filter.mp hj).1
      have hjnat := C.toNat_ofNat_lt (show j < C.regionCount by omega)
      have hjeq := congrArg BitVec.toNat (C.regionLock_inj (by rw [hjnat]; omega) (by rw [hnat]; exact hlt) heq)
      omega
  subst hend
  rw [if_neg (Nat.lt_irrefl _)] at hrun
  refine ⟨s', ?_, hacq⟩
  rw [← hrun, ← hcount]
  rfl

/-- If the locking loop comes to the end, no region to be locked was locked. -/
theorem unlocked_of_lockAll (hmain : s.others (C.globals.regionLock main) = false)
    (hrun : (deleteEnclaveLock C.globals bitmap main).run lockExec s = some (none, s')) :
    Unlocked C s.machine s.others bitmap ∧ Acquired C.globals s s' bitmap main C.regionCount 0 := by
  have hcount : C.globals.dramRegionCount.toNat = C.regionCount := by simp
  obtain ⟨k, t, hloop, hk, hacq, -⟩ :=
    run_deleteEnclaveLock C.globals bitmap main s C.regionCount 0
  change (Prog.findUp (lockRound C.globals bitmap main) C.globals.dramRegionCount.toNat 0).run lockExec s = _ at hrun
  rw [hcount, hloop, Option.some.injEq, Prod.mk.injEq] at hrun
  obtain ⟨hnone, rfl⟩ := hrun
  have hend : k = C.regionCount := by
    by_contra hne
    rw [if_pos (by omega)] at hnone
    cases hnone
  subst hend
  refine ⟨fun r hr hbit => ?_, hacq⟩
  by_cases hr' : r = main
  · rwa [hr']
  · rw [← hacq.others]
    refine t.others_eq_false _ ?_
    rw [hacq.mine, Finset.mem_union, List.mem_toFinset, enclaveLocks, List.mem_map]
    refine .inr ⟨r.toNat, List.mem_filter.mpr ⟨by simpa using hr, ?_⟩, by rw [BitVec.ofNat_toNat, BitVec.setWidth_eq]⟩
    rw [BitVec.ofNat_toNat, BitVec.setWidth_eq, decide_eq_true_iff]
    exact ⟨hr', hbit⟩

/-- The unlocking loop gives back the locks, if the bitmap is what it was. -/
theorem run_unlockAll {A : Finset Word} {k : ℕ} (hacq : Acquired C.globals s s' bitmap main k 0) (hA : s.mine = A) :
    ∃ t, (deleteEnclaveUnlock C.globals bitmap main k).run lockExec s' = some ((), t) ∧ t.mine = A ∧
      t.machine = s'.machine ∧ t.others = s'.others := by
  subst hA
  have hasks := ends_deleteEnclaveUnlock (g := C.globals) (s := s') (A := s.mine) (k := k) (i := 0)
    (by rw [hacq.machine]; exact hacq.nodup) (by rw [hacq.machine]; exact hacq.fresh)
    (by rw [hacq.machine]; exact hacq.mine)
  change Ends (Holding OwnClear) (deleteEnclaveUnlock C.globals bitmap main k) s' _ at hasks
  have hlooks : (deleteEnclaveUnlock C.globals bitmap main k).Only
      fun o : HwOp => o.looks = true ∧ ∀ t, ∃ x, lockExec o t = some x := by
    refine .forUp fun _ _ _ => .ite (fun _ => .pure _) fun _ => .bind ?_ fun _ => .ite (fun _ => .pure _) fun _ => ?_
    · exact .bind (.request ⟨rfl, fun _ => ⟨_, rfl⟩⟩) fun _ => .pure _
    · exact .request ⟨rfl, fun _ => ⟨_, rfl⟩⟩
  obtain ⟨⟨⟨⟩, t⟩, hrun⟩ := hlooks.returns (s := s') fun o t ho => ho.2 t
  refine ⟨t, hrun, hasks.2 _ _ hrun, Looks.post (hlooks.mono fun _ ho => ho.1) _ _ hrun, ?_⟩
  exact others_of_sparesOthers (hasks.1.mono fun _ _ ho => OwnClear.sparesOthers ho) hrun

/-! ### The loop that frees -/

/-- If the tested bit is clear, nothing is freed. -/
theorem run_freeNothing (hbit : testedBit C s.machine.mem bitmap = false) :
    (deleteEnclaveFree C.globals bitmap C.globals.dramRegionCount).run lockExec s = some ((), s) := by
  refine Prog.run_forUp_nothing fun i => ?_
  rw [Prog.run_bind, run_readBitmapBit_lock, Option.bind_some]
  change ((if (!testedBit C s.machine.mem bitmap) = true then _ else _ : Monitor Unit)).run lockExec s = _
  rw [hbit]
  rfl

variable (C) in
/-- Region `0` has been wiped, with the monitor's arrays: it looks like a region of the OS. -/
structure Wiped (m : Memory) : Prop where
  /-- Its owner is `null_enclave_id`. -/
  owner : Slot.read C m (.region .owner 0) = nullEnclaveId
  /-- It has no pinned pages. -/
  pinned : Slot.read C m (.region .pinnedPages 0) = 0
  /-- Its contents are zero. -/
  contents : ∀ b, InRegion C 0 b → m b = 0

/-- A byte of a memory that shrinks. -/
theorem eq_zero_of_shrinks {m m' : Memory} {b : Word} (h : m.Shrinks m') (hb : m b = 0) : m' b = 0 :=
  BitVec.eq_of_toNat_eq (Nat.le_zero.mp ((h b).trans (by rw [hb]; exact le_rfl)))

/-- It stays wiped when something is zeroed. -/
theorem Wiped.shrinks {m m' : Memory} (hw : Wiped C m) (h : m.Shrinks m') : Wiped C m' where
  owner := BitVec.eq_of_toNat_eq <|
    Nat.le_zero.mp ((Slot.read_le_of_shrinks C h _).trans (by rw [hw.owner]; exact le_rfl))
  pinned := BitVec.eq_of_toNat_eq <|
    Nat.le_zero.mp ((Slot.read_le_of_shrinks C h _).trans (by rw [hw.pinned]; exact le_rfl))
  contents b hb := eq_zero_of_shrinks h (hw.contents b hb)

/-- It stays wiped when another region's structure is written to. -/
theorem Wiped.store {m : Memory} {f : RegionField} {r v : Word} (hw : Wiped C m) (hr : r.toNat < C.regionCount)
    (hne : r ≠ 0) : Wiped C (m.store64 (C.globals.regionField f r) v) where
  owner := by
    rw [Slot.read_store_region C (show Slot.Valid C (.region .owner 0) from C.regionCount_pos) hr, if_neg, hw.owner]
    exact fun h => hne (Slot.region.inj h).2.symm
  pinned := by
    have hzero : Slot.Valid C (.region .pinnedPages 0) := C.regionCount_pos
    rw [Slot.read_store_region C hzero hr, if_neg, hw.pinned]
    exact fun h => hne (Slot.region.inj h).2.symm
  contents b hb := by
    exact (Memory.store64_of_not_within (Slot.not_within_of_le C (a := .region f r) hr hb.pastArrays)).trans
      (hw.contents b hb)

variable (C) in
/-- How far apart the stripes of a region are. -/
def stripeStep : ℕ := C.regionCount * C.stripeSize

theorem toNat_stripeStep :
    (sll C.globals.dramRegionCount C.globals.dramRegionShift).toNat = stripeStep C ∧ stripeStep C ∣ 2 ^ 64 := by
  have hshift := C.regionShift_add_lt
  have hle := C.regionCount_mul_stripeSize_le
  constructor
  · rw [toNat_sll (by simp; omega), stripeStep]
    simp only [Config.toDramGlobals_globals, Geometry.toNat_dramRegionCount, Geometry.toNat_dramRegionShift]
    exact Nat.mod_eq_of_lt (lt_of_le_of_lt hle (by omega))
  · rw [stripeStep, C.regionCount_mul_stripeSize]
    exact Nat.pow_dvd_pow 2 (by omega)

/-- Where the stripe of region `0` at or before an address starts. -/
def stripeBefore (C : Config) (b : Word) : ℕ := b.toNat / stripeStep C * stripeStep C

/-- An address of region `0` is in the stripe that starts at or before it. -/
theorem within_stripeBefore {b stripe : Word} (hb : dramRegionFor C.globals b = 0)
    (hstripe : stripeBefore C b = stripe.toNat) :
    Memory.Within stripe C.stripeSize b := by
  have hpos : 0 < C.stripeSize := Nat.two_pow_pos _
  have hregion : b.toNat / C.stripeSize % C.regionCount = 0 := by
    rw [← C.toNat_dramRegionFor, hb]
    rfl
  have hsplit := Nat.div_add_mod' b.toNat (stripeStep C)
  have hlt : b.toNat % stripeStep C < C.stripeSize := by
    rw [stripeStep, Nat.mul_comm, Nat.mod_mul, hregion, Nat.mul_zero, Nat.add_zero]
    exact Nat.mod_lt _ hpos
  unfold stripeBefore at hstripe
  unfold Memory.Within
  have hb := b.isLt
  rw [BitVec.toNat_sub]
  omega

/-- A stripe after which the loop does not start again at address 0 ends before memory does. -/
theorem stripe_fits {stripe : Word} (hmult : stripeStep C ∣ stripe.toNat)
    (hnext : 0 < (stripe.toNat + stripeStep C) % 2 ^ 64) : stripe.toNat + C.stripeSize < 2 ^ 64 := by
  have hshort : C.stripeSize ≤ stripeStep C := Nat.le_mul_of_pos_left _ C.regionCount_pos
  by_contra hpast
  have hlt : stripe.toNat < 2 ^ 64 := stripe.isLt
  -- it is the last multiple of the step
  have hlast : 2 ^ 64 ∣ stripe.toNat + stripeStep C := by
    obtain ⟨c, hc⟩ := hmult
    obtain ⟨d, hd⟩ := (toNat_stripeStep (C := C)).2
    have hcd : c < d := Nat.lt_of_mul_lt_mul_left (hc ▸ hd ▸ hlt)
    have hdc : d ≤ c + 1 := by
      refine Nat.le_of_mul_le_mul_left (c := stripeStep C) ?_ (Nat.mul_pos C.regionCount_pos (Nat.two_pow_pos _))
      rw [← hd, Nat.mul_succ, ← hc]
      omega
    rw [hc, ← Nat.mul_succ, hd, show d = c + 1 by omega]
  rw [Nat.mod_eq_zero_of_dvd hlast] at hnext
  exact Nat.lt_irrefl 0 hnext

/-- The stripes of region `0` are wiped from the first on, as far as DRAM goes. -/
theorem post_bzeroStripes_zero :
    Prog.Post lockExec (bzeroStripes C.globals 0) s fun c s' => c = some () →
      ∀ b, dramRegionFor C.globals b = 0 → stripeBefore C b < C.dramSize.toNat → s'.machine.mem b = 0 := by
  obtain ⟨hstep, hdvd⟩ := toNat_stripeStep (C := C)
  have hpos : 0 < stripeStep C := Nat.mul_pos C.regionCount_pos (Nat.two_pow_pos _)
  refine (Prog.Post.whileSome_inv (P := fun (stripe : Word) (t : LockedMachine) => stripeStep C ∣ stripe.toNat ∧
      ∀ b, dramRegionFor C.globals b = 0 → stripeBefore C b < stripe.toNat → t.machine.mem b = 0)
    (Q := fun _ t => ∀ b, dramRegionFor C.globals b = 0 → stripeBefore C b < C.dramSize.toNat → t.machine.mem b = 0)
    ⟨⟨0, rfl⟩, fun b _ hlt => absurd hlt (Nat.not_lt_zero _)⟩ fun stripe t ⟨hmult, hzero⟩ => ?_).mono
      fun c s' h hc => h () hc
  have hsize : C.globals.dramSize = C.dramSize := by rw [C.toDramGlobals_globals]; rfl
  refine .ite (fun _ => ?_) fun hge => .pure fun b hb hlt => hzero b hb (lt_of_lt_of_le hlt ?_)
  swap
  · rw [hsize, BitVec.lt_def] at hge
    omega
  have hadd : (stripe + sll C.globals.dramRegionCount C.globals.dramRegionShift).toNat =
      (stripe.toNat + stripeStep C) % 2 ^ 64 := by rw [BitVec.toNat_add, hstep]
  have hstart : stripe ||| sll 0 C.globals.dramRegionShift = stripe := by
    simp [sll]
  refine Prog.Post.bind (Q := fun _ (t' : LockedMachine) => t'.machine.mem = t.machine.mem.zeroed stripe C.stripeSize) ?_
    fun _ t' ht' => .pure ⟨?_, fun b hb hlt => ?_⟩
  · rintro _ t' hrun
    rw [hstart, C.toNat_dramStripeSize] at hrun
    rw [← (Prod.mk.inj (Option.some.inj hrun)).2]
    rfl
  · rw [hadd]
    exact (Nat.dvd_mod_iff hdvd).mpr (Nat.dvd_add hmult (dvd_refl _))
  · rw [ht']
    by_cases hdone : stripeBefore C b < stripe.toNat
    · exact eq_zero_of_shrinks (Memory.shrinks_zeroed _ _ _) (hzero b hb hdone)
    · -- the stripe that is wiped in this round
      rw [hadd] at hlt
      refine Memory.zeroed_of_within (stripe_fits hmult (Nat.zero_lt_of_lt hlt)) (within_stripeBefore hb ?_)
      obtain ⟨c, hc⟩ := hmult
      have hlt' := lt_of_lt_of_le hlt (Nat.mod_le _ _)
      unfold stripeBefore at hdone hlt' ⊢
      rw [hc, Nat.mul_comm _ c] at hdone hlt' ⊢
      rw [← Nat.succ_mul] at hlt'
      have h1 := Nat.lt_of_mul_lt_mul_right hlt'
      have h2 := Nat.le_of_mul_le_mul_right (Nat.le_of_not_lt hdone) hpos
      rw [show b.toNat / stripeStep C = c by omega]

/-- Wiping another region, or anything else, leaves region `0` wiped. -/
theorem post_bzeroDramRegion (r : Word) (hw : Wiped C s.machine.mem) :
    Prog.Post lockExec (bzeroDramRegion C.globals r) s fun _ s' => Wiped C s'.machine.mem := by
  refine Prog.Post.bind (Prog.Post.whileSome (P := fun s' : LockedMachine => Wiped C s'.machine.mem) hw
    fun stripe t ht => .ite (fun _ => ?_) fun _ => .pure ht) fun c s' hs' => ?_
  · refine Prog.Post.bind (Q := fun _ (s' : LockedMachine) => Wiped C s'.machine.mem) ?_ fun _ s' hs' => .pure hs'
    rintro _ t' hrun
    rw [← (Prod.mk.inj (Option.some.inj hrun)).2]
    exact ht.shrinks (Memory.shrinks_zeroed _ _ _)
  · match c with
    | some () => exact .pure hs'
    | none => exact fun _ _ hrun => nomatch hrun

/-- Wiping region `0` wipes the monitor's arrays. -/
theorem post_bzeroDramRegion_zero (hfits : MonitorFits C) (hsize : 0 < C.dramSize.toNat) :
    Prog.Post lockExec (bzeroDramRegion C.globals 0) s fun _ s' => Wiped C s'.machine.mem := by
  refine Prog.Post.bind post_bzeroStripes_zero fun c s' hs' => ?_
  match c with
  | none => exact fun _ _ hrun => nomatch hrun
  | some () =>
    have hzero := hs' rfl
    have hslot : ∀ f : RegionField, Slot.read C s'.machine.mem (.region f 0) = 0 := fun f => by
      have hvalid : Slot.Valid C (.region f 0) := C.regionCount_pos
      refine (Slot.read_congr_of_below C (m := fun _ => 0) hvalid fun b hb => ?_).trans ?_
      · have hfirst : b.toNat < C.stripeSize := lt_of_lt_of_le hb hfits
        have hstep : b.toNat / stripeStep C = 0 :=
          Nat.div_eq_of_lt (lt_of_lt_of_le hfirst (Nat.le_mul_of_pos_left _ C.regionCount_pos))
        exact hzero b (C.dramRegionFor_eq_zero hfirst) (by rw [stripeBefore, hstep, Nat.zero_mul]; exact hsize)
      · exact BitVec.eq_of_toNat_eq ((Memory.toNat_load64 _ _).trans (Memory.load_zero _ _))
    refine .pure ⟨hslot _, hslot _, fun b hb => hzero b hb.region ?_⟩
    exact lt_of_le_of_lt (Nat.div_mul_le_self _ _) hb.inDram

/-- A store, whatever comes of it. -/
theorem post_store64 {P : Memory → Prop} {a v : Word} (h : P (s.machine.mem.store64 a v)) :
    Prog.Post lockExec (store64 a v) s fun _ s' => P s'.machine.mem := by
  rintro _ s' hrun
  rw [← (Prod.mk.inj (Option.some.inj hrun)).2]
  exact h

/-- If the tested bit is set, the freeing loop wipes region `0` in its first round. -/
theorem post_deleteEnclaveFree (hfits : MonitorFits C) (hsize : 0 < C.dramSize.toNat)
    (hbit : testedBit C s.machine.mem bitmap = true) :
    Prog.Post lockExec (deleteEnclaveFree C.globals bitmap C.globals.dramRegionCount) s
      fun _ s' => Wiped C s'.machine.mem := by
  have hcount : C.globals.dramRegionCount.toNat = C.regionCount := by simp
  unfold deleteEnclaveFree
  obtain ⟨n, hn⟩ := Nat.exists_eq_succ_of_ne_zero C.regionCount_pos.ne'
  rw [hcount, hn, Prog.forUp]
  refine Prog.Post.bind (Q := fun _ (s' : LockedMachine) => Wiped C s'.machine.mem) ?_ fun _ s₁ hs₁ => ?_
  · -- the first round
    intro _ s' hrun
    rw [Prog.run_bind, run_readBitmapBit_lock, Option.bind_some] at hrun
    change ((if (!testedBit C s.machine.mem bitmap) = true then _ else _ : Monitor Unit)).run lockExec s = _ at hrun
    rw [hbit] at hrun
    exact (Prog.Post.after fun _ _ => .after fun _ _ => post_bzeroDramRegion_zero hfits hsize) _ s' hrun
  · refine Prog.Post.forUp hs₁ fun j t h1 h2 ht => ?_
    have hj := C.toNat_ofNat_lt (show j < C.regionCount by omega)
    have hvalid : (BitVec.ofNat 64 j).toNat < C.regionCount := by omega
    have hne : BitVec.ofNat 64 j ≠ 0 := fun h => by
      rw [h] at hj
      exact absurd hj.symm (by simp; omega)
    refine Prog.Post.bind (Q := fun _ t' => t' = t) (fun _ t' hrun => (Prod.mk.inj (Option.some.inj hrun)).2.symm)
      fun b t' ht' => ?_
    subst ht'
    refine .ite (fun _ => .pure ht) fun _ => ?_
    refine (post_store64 (ht.store (f := .owner) (v := freeEnclaveId) hvalid hne)).bind fun _ t₁ ht₁ => ?_
    refine (post_store64 (ht₁.store (f := .pinnedPages) (v := 0) hvalid hne)).bind fun _ t₂ ht₂ => ?_
    exact post_bzeroDramRegion _ ht₂

/-! ### The call -/

section Call

variable (hid : id ≠ nullEnclaveId) (hvalid : C.globals.validEnclaveId m id = true)
  (hthreads : m.mem.load64 (enclaveField .threadCount id) = 0)

/-- The call has the lock of the enclave's region in hand. -/
def lockedMain (C : Config) (m : Machine) (others : Word → Bool) (id : EnclaveId)
    (hmain : others (C.globals.regionLock (clampedDramRegionFor C.globals id)) = false) : LockedMachine :=
  (entered m others).acquire (C.globals.regionLock (clampedDramRegionFor C.globals id))
    ((congrFun (held_entered m others) _).trans hmain)

variable (hmain : others (C.globals.regionLock (clampedDramRegionFor C.globals id)) = false)

include hid hvalid hthreads hmain

/-- An enclave without threads is deleted. -/
theorem run_deleteEnclave :
    (deleteEnclave C.globals id).run lockExec (entered m others) =
      ((deleteRegions C.globals (enclaveRegionBitmap id) (clampedDramRegionFor C.globals id)).run lockExec
        (lockedMain C m others id hmain)).map fun x =>
          (x.1, x.2.release (C.globals.regionLock (clampedDramRegionFor C.globals id))) := by
  unfold deleteEnclave
  rw [run_validated hid hvalid ((congrFun (held_entered m others) _).trans hmain), Prog.run_bind, run_load64_lock,
    Option.bind_some, if_neg (by simpa [entered] using hthreads)]
  rfl

/-- If the tested bit is clear, the call takes and releases locks and does nothing else. -/
theorem run_deleteEnclave_of_clear (hlocks : Unlocked C m others (enclaveRegionBitmap id))
    (hbit : testedBit C m.mem (enclaveRegionBitmap id) = false) :
    (deleteEnclave C.globals id).run lockExec (entered m others) = some (.ok, entered m others) := by
  obtain ⟨s₁, hlock, hacq⟩ := run_lockAll (s := lockedMain C m others id hmain) hlocks
    (C.toNat_clampedDramRegionFor_lt id) rfl
  have hcount : C.globals.dramRegionCount.toNat = C.regionCount := by simp
  have hbit₁ : testedBit C s₁.machine.mem (enclaveRegionBitmap id) = false := by rw [hacq.machine]; exact hbit
  obtain ⟨s₂, hunlock, hmine, hmachine, hothers⟩ := run_unlockAll hacq rfl
  rw [run_deleteEnclave hid hvalid hthreads hmain, deleteRegions, Prog.run_bind, hlock, Option.bind_some, Prog.run_bind,
    run_freeNothing hbit₁, Option.bind_some, hcount, Prog.run_bind, hunlock, Option.bind_some, Prog.run_pure,
    Option.map_some]
  have hback : s₂ = lockedMain C m others id hmain :=
    LockedMachine.ext (hmachine.trans hacq.machine) (hothers.trans hacq.others) hmine
  rw [hback, lockedMain, LockedMachine.release_acquire]

/-- The call is right about an enclave whose regions are free already, if the tested bit is clear. -/
theorem deletes_of_clear (hlocks : Unlocked C m others (enclaveRegionBitmap id))
    (hbit : testedBit C m.mem (enclaveRegionBitmap id) = false)
    (hfreed : AlreadyFreed C m.mem (enclaveRegionBitmap id)) :
    Deletes C m others id := by
  refine ⟨_, run_deleteEnclave_of_clear hid hvalid hthreads hmain hlocks hbit, fun r hr => ?_, rfl, rfl⟩
  split
  · next hr' => exact hfreed r hr hr'
  · exact ⟨rfl, rfl, fun _ _ => rfl⟩

/-- If it returns `monitor_ok`, it has gone through the last three loops after acquiring all the locks. -/
theorem exists_of_run_deleteEnclave {s' : LockedMachine}
    (hrun : (deleteEnclave C.globals id).run lockExec (entered m others) = some (.ok, s')) :
    ∃ s₁ s₂ s₃, (deleteEnclaveLock C.globals (enclaveRegionBitmap id) (clampedDramRegionFor C.globals id)).run lockExec
        (lockedMain C m others id hmain) = some (none, s₁) ∧
      (deleteEnclaveFree C.globals (enclaveRegionBitmap id) C.globals.dramRegionCount).run lockExec s₁ = some ((), s₂) ∧
      (deleteEnclaveUnlock C.globals (enclaveRegionBitmap id) (clampedDramRegionFor C.globals id)
        C.globals.dramRegionCount.toNat).run lockExec s₂ = some ((), s₃) ∧
      s'.machine = s₃.machine := by
  rw [run_deleteEnclave hid hvalid hthreads hmain, deleteRegions, Prog.run_bind] at hrun
  obtain ⟨⟨e, t⟩, hbody, hrest⟩ := Option.map_eq_some_iff.mp hrun
  obtain ⟨⟨x, s₁⟩, hlock, hbody⟩ := Option.bind_eq_some_iff.mp hbody
  obtain ⟨rfl, rfl⟩ := Prod.mk.inj hrest
  cases x with
  | some i =>
    rw [Prog.run_bind] at hbody
    obtain ⟨⟨_, t'⟩, _, hpure⟩ := Option.bind_eq_some_iff.mp hbody
    cases (Prod.mk.inj (Option.some.inj hpure)).1
  | none =>
    rw [Prog.run_bind] at hbody
    obtain ⟨⟨⟨⟩, s₂⟩, hfree, hbody⟩ := Option.bind_eq_some_iff.mp hbody
    rw [Prog.run_bind] at hbody
    obtain ⟨⟨⟨⟩, s₃⟩, hunlock, hpure⟩ := Option.bind_eq_some_iff.mp hbody
    obtain ⟨-, rfl⟩ := Prod.mk.inj (Option.some.inj hpure)
    exact ⟨s₁, s₂, s₃, hlock, hfree, hunlock, rfl⟩

/-- If it has deleted the enclave, and the tested bit is clear, there was nothing to do. -/
theorem alreadyFreed_of_deletes (hdel : Deletes C m others id) :
    Unlocked C m others (enclaveRegionBitmap id) ∧
      (testedBit C m.mem (enclaveRegionBitmap id) = false → AlreadyFreed C m.mem (enclaveRegionBitmap id)) := by
  obtain ⟨s', hrun, hdeleted, -⟩ := hdel
  obtain ⟨s₁, s₂, s₃, hlock, -⟩ := exists_of_run_deleteEnclave hid hvalid hthreads hmain hrun
  have hlocks : Unlocked C m others (enclaveRegionBitmap id) := (unlocked_of_lockAll hmain hlock).1
  refine ⟨hlocks, fun hbit r hr hr' => ?_⟩
  rw [run_deleteEnclave_of_clear hid hvalid hthreads hmain hlocks hbit] at hrun
  obtain ⟨-, rfl⟩ := Prod.mk.inj (Option.some.inj hrun)
  have hfreed := hdeleted r hr
  rw [if_pos hr'] at hfreed
  exact hfreed

/-- If it has deleted the enclave, and the tested bit is set, region `0` was wiped before. -/
theorem wiped_of_deletes (hfits : MonitorFits C) (hsize : 0 < C.dramSize.toNat) (hdel : Deletes C m others id)
    (hbit : testedBit C m.mem (enclaveRegionBitmap id) = true) : Wiped C m.mem := by
  obtain ⟨s', hrun, hdeleted, -⟩ := hdel
  obtain ⟨s₁, s₂, s₃, hlock, hfree, hunlock, hmachine⟩ := exists_of_run_deleteEnclave hid hvalid hthreads hmain hrun
  have hacq := (unlocked_of_lockAll hmain hlock).2
  have hwiped : Wiped C s'.machine.mem := by
    rw [hmachine]
    have hlooks : Looks (deleteEnclaveUnlock C.globals (enclaveRegionBitmap id) (clampedDramRegionFor C.globals id)
        C.globals.dramRegionCount.toNat) :=
      .forUp fun _ _ _ => .ite (fun _ => .pure _) fun _ => .bind (.bind (looks_load64 _) fun _ => .pure _) fun _ =>
        .ite (fun _ => .pure _) fun _ => looks_clear _
    rw [hlooks.post _ _ hunlock]
    exact post_deleteEnclaveFree hfits hsize (by rw [hacq.machine]; exact hbit) _ _ hfree
  have hzero := hdeleted 0 C.regionCount_pos
  split at hzero
  · exact absurd (hwiped.owner.symm.trans hzero.owner) (by decide)
  · exact ⟨hzero.owner.symm.trans hwiped.owner, hzero.pinned.symm.trans hwiped.pinned,
      fun b hb => (hzero.contents b hb).symm.trans (hwiped.contents b hb)⟩

/-- **When `delete_enclave` does what it is to do**: the regions that it locks are unlocked, the bit
past the last region is clear, and the regions in the bitmap are free already. There is no
other way, unless region `0`, with the monitor in it, has been wiped before. -/
theorem deletes_iff :
    (Unlocked C m others (enclaveRegionBitmap id) ∧ testedBit C m.mem (enclaveRegionBitmap id) = false ∧
      AlreadyFreed C m.mem (enclaveRegionBitmap id) → Deletes C m others id) ∧
    (MonitorFits C → 0 < C.dramSize.toNat → ¬ Wiped C m.mem → Deletes C m others id →
      Unlocked C m others (enclaveRegionBitmap id) ∧ testedBit C m.mem (enclaveRegionBitmap id) = false ∧
        AlreadyFreed C m.mem (enclaveRegionBitmap id)) := by
  refine ⟨fun ⟨hlocks, hbit, hfreed⟩ => deletes_of_clear hid hvalid hthreads hmain hlocks hbit hfreed,
    fun hfits hsize hnot hdel => ?_⟩
  obtain ⟨hlocks, hfreed⟩ := alreadyFreed_of_deletes hid hvalid hthreads hmain hdel
  have hbit : testedBit C m.mem (enclaveRegionBitmap id) = false := by
    by_contra hset
    exact hnot (wiped_of_deletes hid hvalid hthreads hmain hfits hsize hdel (by simpa using hset))
  exact ⟨hlocks, hbit, hfreed hbit⟩

end Call

/-- Four regions of a quarter of a megabyte. -/
def fourRegions : Config := megabyte 2 (by omega)

/-- An enclave at `0x81000` owns region `2`. Its bitmap has region `3`, which is free. -/
def freeRegion : Machine :=
  { blankMachine with
    mem := blankMachine.mem.storeAll [(fourRegions.globals.regionField .owner 2, 0x81000),
      (fourRegions.globals.regionField .owner 3, freeEnclaveId), (enclaveRegionBitmap 0x81000, 8)] }

theorem freed_freeRegion (howner : Slot.read fourRegions freeRegion.mem (.region .owner 3) = freeEnclaveId)
    (hpinned : Slot.read fourRegions freeRegion.mem (.region .pinnedPages 3) = 0) :
    Freed fourRegions freeRegion.mem 3 := by
  refine ⟨howner, hpinned, fun b hb => ?_⟩
  have hslot {r : Word} (hr : r.toNat < 4) : ¬ Memory.Within (fourRegions.globals.regionField .owner r) 8 b :=
    Slot.not_within_of_le fourRegions (a := .region .owner r) hr hb.pastArrays
  have hbitmap : ¬ Memory.Within (enclaveRegionBitmap 0x81000) 8 b := by
    -- the bitmap is in region 2
    have haddr : (enclaveRegionBitmap 0x81000).toNat = 0x81130 := by decide
    have hregion := fourRegions.toNat_dramRegionFor b
    rw [hb.region, show fourRegions.stripeSize = 0x40000 from rfl, show fourRegions.regionCount = 4 from rfl,
      show (3 : Word).toNat = 3 from rfl] at hregion
    rw [Memory.within_iff (by rw [haddr]; omega), haddr]
    omega
  refine (Memory.storeAll_of_not_within fun p hp => ?_).trans rfl
  rcases List.mem_cons.mp hp with rfl | hp
  · exact hslot (r := 2) (by decide)
  rcases List.mem_cons.mp hp with rfl | hp
  · exact hslot (r := 3) (by decide)
  rw [List.mem_singleton.mp hp]
  exact hbitmap

theorem deletes_freeRegion : Deletes fourRegions freeRegion (fun _ => false) 0x81000 := by
  obtain ⟨hvalid, hthreads, hclear, hbits, howner, hpinned⟩ :
      fourRegions.globals.validEnclaveId freeRegion 0x81000 = true ∧
      freeRegion.mem.load64 (enclaveField .threadCount 0x81000) = 0 ∧
      testedBit fourRegions freeRegion.mem (enclaveRegionBitmap 0x81000) = false ∧
      (∀ i < 3, freeRegion.mem.bit (enclaveRegionBitmap 0x81000) (BitVec.ofNat 64 i) = false) ∧
      Slot.read fourRegions freeRegion.mem (.region .owner 3) = freeEnclaveId ∧
      Slot.read fourRegions freeRegion.mem (.region .pinnedPages 3) = 0 := by
    decide +kernel
  refine (deletes_iff (by decide) hvalid hthreads rfl).1 ⟨fun _ _ _ => rfl, hclear, fun r hr hbit => ?_⟩
  have hr' : r = BitVec.ofNat 64 r.toNat := by rw [BitVec.ofNat_toNat, BitVec.setWidth_eq]
  rcases Nat.lt_or_ge r.toNat 3 with hlt | hge
  · rw [hr', hbits _ hlt] at hbit
    exact absurd hbit (by decide)
  · have hlt : r.toNat < 4 := hr
    rw [hr', show r.toNat = 3 by omega]
    exact freed_freeRegion howner hpinned

/-- An enclave at `0x81000` has region `1`. -/
def oneRegion : Machine :=
  { blankMachine with
    mem := blankMachine.mem.storeAll [(twoRegions.globals.regionField .owner 1, 0x81000),
      (enclaveRegionBitmap 0x81000, 2)] }

/-- Nobody holds a lock, and the enclave's region stays what it was. -/
theorem not_deletes :
    (0x81000 : Word) ≠ nullEnclaveId ∧ twoRegions.globals.validEnclaveId oneRegion 0x81000 = true ∧
      oneRegion.mem.load64 (enclaveField .threadCount 0x81000) = 0 ∧
      ¬ Deletes twoRegions oneRegion (fun _ => false) 0x81000 := by
  have hid : (0x81000 : Word) ≠ nullEnclaveId := by decide
  have hvalid : twoRegions.globals.validEnclaveId oneRegion 0x81000 = true := by decide +kernel
  have hthreads : oneRegion.mem.load64 (enclaveField .threadCount 0x81000) = 0 := by decide +kernel
  refine ⟨hid, hvalid, hthreads, fun h => ?_⟩
  have hfreed := (alreadyFreed_of_deletes hid hvalid hthreads rfl h).2 (by decide +kernel) 1 (by decide)
    (by decide +kernel)
  exact absurd hfreed.owner (by decide +kernel)

end DeleteEnclave

end Sanctum
