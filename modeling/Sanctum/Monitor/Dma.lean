import Sanctum.Monitor.Owners

/-!
# The DMA range

DMA transfers are allowed to the addresses from `g_dma_range_start` to
`g_dma_range_end`, which are to lie in DRAM that the OS owns, above the monitor
(`Confined`). Two calls guard that from opposite sides: `set_dma_range` looks at the
owners of the regions in the new range, and `block_dram_region` at the range.

`set_dma_range` does not act on what it finds out, and does not look at the monitor's
top; `block_dram_region` looks at the first stripe of the region only. What is proved
is that nothing else goes wrong: the range stays confined as long as every new range would
pass the missing checks, and no region is blocked that has an address of the range in
another stripe than its first (`run_confined`). For `block_dram_region` alone, from any state,
that is exactly what it takes (`respected_iff`).
-/

namespace Sanctum

namespace Dma

variable (C : Config) (top : Word)

/-- `boot_init_protection` has just returned, with `top` as the top of the monitor. -/
def AfterProtection (s : Machine) : Prop :=
  ∃ s₀ s₁ monitorTop, (bootInitDynamicArrays C.globals).run (exec .code) s₀ = some (monitorTop, s₁) ∧
    (bootInitProtection C.globals monitorTop).run (exec .code) s₁ = some (top, s)

/-- The address lies in a DRAM region that the OS owns, and not below the top of the monitor. -/
structure OsDram (s : Machine) (a : Word) : Prop where
  /-- `is_dram_address`. -/
  inDram : isDramAddress C.globals a = true
  /-- The OS owns its region. -/
  osOwned : C.globals.region s .owner (dramRegionFor C.globals a) = nullEnclaveId
  /-- It does not belong to the monitor. -/
  notMonitor : top.toNat ≤ a.toNat

/-- The address is in the DMA range. -/
def InRange (s : Machine) (a : Word) : Prop := s.dmaRangeStart.toNat ≤ a.toNat ∧ a.toNat < s.dmaRangeEnd.toNat

/-- The DMA range lies in DRAM that the OS owns, above the monitor. -/
def Confined (s : Machine) : Prop := ∀ a, InRange s a → OsDram C top s a

/-- What `set_dma_range(base, mask)` does not check: that the range starts in DRAM, not below
the top of the monitor, and that the OS owns the regions of the addresses in it. -/
structure OsRange (s : Machine) (base mask : Word) : Prop where
  /-- `is_dram_address(base)`. -/
  firstInDram : isDramAddress C.globals base = true
  /-- It starts above the monitor. -/
  notMonitor : top.toNat ≤ base.toNat
  /-- The OS owns what it goes over. -/
  osOwned : ∀ a : Word, base.toNat ≤ a.toNat → a.toNat ≤ (base ||| mask).toNat →
    C.globals.region s .owner (dramRegionFor C.globals a) = nullEnclaveId

/-- A new DMA range passes the checks that `set_dma_range` does not make, and a region that
the OS gives up has no address of the DMA range in another stripe than its first. -/
def Harmless (st : Step Machine Event) : Prop :=
  match st.label.call with
  | .setDmaRange base mask => DmaChecks C.globals st.pre base mask → OsRange C top st.pre base mask
  | .blockDramRegion core r => BlockPasses C.globals st.pre core r →
    C.globals.region st.pre .owner r = nullEnclaveId →
      ∀ a, InRange st.pre a → dramRegionFor C.globals a = r → a.toNat / C.stripeSize = r.toNat
  | _ => True

variable {C top} {s s' : Machine}

/-- The range stays confined if it stays the same and the OS keeps its regions. -/
theorem Confined.mono (h : Confined C top s) (hstart : s'.dmaRangeStart = s.dmaRangeStart)
    (hend : s'.dmaRangeEnd = s.dmaRangeEnd)
    (howners : ∀ a, InRange s a → C.globals.region s .owner (dramRegionFor C.globals a) = nullEnclaveId →
      C.globals.region s' .owner (dramRegionFor C.globals a) = nullEnclaveId) :
    Confined C top s' := by
  intro a ha
  rw [InRange, hstart, hend] at ha
  obtain ⟨h1, h2, h3⟩ := h a ha
  exact ⟨h1, howners a ha h2, h3⟩

/-- The last address of a range that `set_dma_range` accepts is not the last of all. -/
theorem DmaChecks.toNat_end {base mask : Word} (h : DmaChecks C.globals s base mask) :
    ((base ||| mask) + 1).toNat = (base ||| mask).toNat + 1 := by
  have hdram := h.lastInDram
  rw [isDramAddress, Bool.and_eq_true, decide_eq_true_iff, decide_eq_true_iff, BitVec.lt_def] at hdram
  have hlt := C.globals.dramSize.isLt
  have e1 : (1 : Word).toNat = 1 := rfl
  rw [BitVec.toNat_add, e1, Nat.mod_eq_of_lt (by omega)]

/-- An address between two addresses in DRAM is in DRAM. -/
theorem isDramAddress_of_between {a b x : Word} (ha : isDramAddress C.globals a = true)
    (hb : isDramAddress C.globals b = true) (h1 : a.toNat ≤ x.toNat) (h2 : x.toNat ≤ b.toNat) :
    isDramAddress C.globals x = true := by
  rw [isDramAddress, Bool.and_eq_true, decide_eq_true_iff, decide_eq_true_iff, gt_iff_lt, BitVec.lt_def,
    BitVec.lt_def] at *
  omega

/-- The check that the range crosses a region is right about the region's first stripe. -/
theorem not_mem_of_not_dmaRangeCrossed {r a : Word} (hr : r.toNat < C.regionCount) (ha : InRange s a)
    (h : dmaRangeCrossed C.globals s.dmaRangeStart s.dmaRangeEnd r = false) :
    a.toNat / C.stripeSize ≠ r.toNat := by
  intro hdiv
  have hpos : 0 < C.stripeSize := Nat.two_pow_pos _
  have hlow : r.toNat * C.stripeSize ≤ a.toNat := by
    rw [← hdiv]
    exact Nat.div_mul_le_self _ _
  have hhigh : a.toNat < (r.toNat + 1) * C.stripeSize := by
    rw [← hdiv]
    exact Nat.lt_mul_of_div_lt (Nat.lt_succ_self _) hpos
  obtain ⟨h1, h2⟩ := ha
  simp only [dmaRangeCrossed, Bool.or_eq_false_iff, Bool.and_eq_false_iff, decide_eq_false_iff_not, ge_iff_le,
    BitVec.le_def, C.toNat_dramRegionStart hr, C.toNat_dramRegionStart_succ hr] at h
  omega

/-- Assigning a region to the OS takes no region from it. -/
theorem osOwned_assignedState {r q : Word} (hr : r.toNat < C.regionCount) (hq : q.toNat < C.regionCount)
    (h : C.globals.region s .owner q = nullEnclaveId) :
    C.globals.region (assignedState C.globals s r nullEnclaveId) .owner q = nullEnclaveId := by
  have hread := Slot.read_assignedState (C := C) (s := s) (a := .region .owner q) hq hr (by simp)
  refine Eq.trans hread ?_
  split
  · rfl
  · exact h

/-- Freeing a region that the OS does not own takes none from it. -/
theorem osOwned_freedState {r q : Word} (hr : r.toNat < C.regionCount) (hq : q.toNat < C.regionCount)
    (hother : r ≠ q) (h : C.globals.region s .owner q = nullEnclaveId) :
    C.globals.region (freedState C.globals s r) .owner q = nullEnclaveId := by
  have hread := Slot.read_freedState (C := C) (s := s) (a := .region .owner q) hq hr
  rw [if_neg (by simpa using hother.symm)] at hread
  exact Eq.trans hread h

/-- Nor does making a metadata region of one. -/
theorem osOwned_metadataState {r q : Word} (hr : r.toNat < C.regionCount) (hq : q.toNat < C.regionCount)
    (hother : r ≠ q) (h : C.globals.region s .owner q = nullEnclaveId) :
    C.globals.region (metadataState C.globals s r) .owner q = nullEnclaveId := by
  have hle := Slot.read_metadataState_le (C := C) s r (.region .owner q)
  rw [Slot.read_metadataStores (a := .region .owner q) hq hr, if_neg (by simp),
    if_neg (by simpa using hother.symm)] at hle
  have hzero : (Slot.read C s.mem (.region .owner q)).toNat = 0 := congrArg BitVec.toNat h
  exact BitVec.eq_of_toNat_eq (Nat.le_zero.mp (hle.trans hzero.le))

/-- Blocking a region takes only that one from the OS. -/
theorem osOwned_blockedState {r q : Word} (hr : r.toNat < C.regionCount) (hq : q.toNat < C.regionCount)
    (hother : r ≠ q) (h : C.globals.region s .owner q = nullEnclaveId) :
    C.globals.region (blockedState C.globals s r) .owner q = nullEnclaveId := by
  have hle := Slot.read_blockedMem_le (C := C) (m := s.mem) r (C.globals.region s .owner r) (.region .owner q)
  rw [Slot.read_blockStores (a := .region .owner q) hq hr, if_neg (by simp), if_neg (by simp),
    if_neg (by simpa using hother.symm), if_neg (by simp)] at hle
  have hzero : (Slot.read C s.mem (.region .owner q)).toNat = 0 := congrArg BitVec.toNat h
  exact BitVec.eq_of_toNat_eq (Nat.le_zero.mp (hle.trans hzero.le))

/-- What a call keeps, if it is harmless. -/
theorem step_invariant {st : Step Machine Event} (h : SpecialOwners C st.pre.mem ∧ Confined C top st.pre)
    (hstep : step C.globals st.pre st.label st.post)
    (hst : SpecialOwners.regionCall st.label.call = true ∧ Harmless C top st) :
    SpecialOwners C st.post.mem ∧ Confined C top st.post := by
  refine ⟨h.1.step hstep hst.1, ?_⟩
  obtain ⟨s, ⟨c, v⟩, s'⟩ := st
  obtain ⟨howners, hconfined⟩ := h
  obtain ⟨hcall, hharmless⟩ := hst
  dsimp only at *
  rcases step_cases hstep with rfl | heffect
  · exact hconfined
  have hregion : ∀ a, (dramRegionFor C.globals a).toNat < C.regionCount := C.toNat_dramRegionFor_lt
  cases heffect with
  | setDmaRange hpass =>
    intro a ha
    obtain ⟨ha1, ha2⟩ := ha
    rw [dmaState, DmaChecks.toNat_end hpass] at ha2
    have hlast : a.toNat ≤ (BitVec.toNat _) := Nat.lt_succ_iff.mp ha2
    obtain ⟨hfirst, habove, howned⟩ := hharmless hpass
    exact ⟨isDramAddress_of_between hfirst hpass.lastInDram ha1 hlast, howned a ha1 hlast, habove.trans ha1⟩
  | assignDramRegion hpass =>
    obtain rfl := howners.validEnclaveId_iff.mp hpass.ownerValid
    exact hconfined.mono rfl rfl fun a _ ha =>
      osOwned_assignedState (C.isValidDramRegion_iff.mp hpass.valid) (hregion a) ha
  | freeDramRegion hpass =>
    refine hconfined.mono rfl rfl fun a _ ha =>
      osOwned_freedState (C.isValidDramRegion_iff.mp hpass.valid) (hregion a) ?_ ha
    rintro rfl
    rcases hpass.releasable with ⟨howner, -⟩ | ⟨howner, -⟩
    · exact absurd (howner.symm.trans ha) (by decide)
    · exact absurd (howner.symm.trans ha) (by decide)
  | createMetadataRegion hpass =>
    refine hconfined.mono rfl rfl fun a _ ha =>
      osOwned_metadataState (C.isValidDramRegion_iff.mp hpass.valid) (hregion a) ?_ ha
    rintro rfl
    exact absurd (hpass.free.symm.trans ha) (by decide)
  | blockDramRegion hpass =>
    rename_i core r
    have hr := (C.isDynamicDramRegion_iff.mp hpass.dynamic).2
    refine hconfined.mono rfl rfl fun a hrange ha => osOwned_blockedState hr (hregion a) ?_ ha
    rintro rfl
    -- the OS gives up the region of an address in the range: the check has seen its first stripe
    have hdma := hpass.noDma (by rw [ha]; exact C.dramRegionFor_eq_zero (Nat.two_pow_pos _))
    exact not_mem_of_not_dmaRangeCrossed hr hrange hdma (hharmless hpass ha a hrange rfl)
  | deleteEnclave hid hvalid => exact absurd (howners.validEnclaveId_iff.mp hvalid) hid
  | flushCachedDramRegions => simp [SpecialOwners.regionCall] at hcall
  | createEnclave _ => simp [SpecialOwners.regionCall] at hcall
  | initEnclave _ _ => simp [SpecialOwners.regionCall] at hcall
  | copyDebugEnclavePage _ => simp [SpecialOwners.regionCall] at hcall
  | acceptThread _ => simp [SpecialOwners.regionCall] at hcall

/-- After `boot_init_protection` the range is the byte at the top of the monitor. -/
theorem AfterProtection.invariant (h : AfterProtection C top s) (htop : isDramAddress C.globals top = true) :
    SpecialOwners C s.mem ∧ Confined C top s := by
  obtain ⟨s₀, s₁, monitorTop, hboot, hprotect⟩ := h
  obtain ⟨hmem, hstart, hend⟩ := C.bootInitProtection_cases hprotect
  have hbooted : Booted C s.mem := by
    rw [hmem]
    exact AfterBoot.booted ⟨s₀, monitorTop, hboot⟩
  refine ⟨.of_booted hbooted, fun a ha => ?_⟩
  have e1 : (1 : Word).toNat = 1 := rfl
  obtain ⟨ha1, ha2⟩ := ha
  rw [hstart] at ha1
  rw [hend, BitVec.toNat_add, e1] at ha2
  have hlt := top.isLt
  obtain rfl : a = top := BitVec.eq_of_toNat_eq (by omega)
  exact ⟨htop, hbooted.region .owner _ (C.toNat_dramRegionFor_lt a), le_rfl⟩

/-- **DMA confinement.** From the end of `boot_init_protection`, with the top of the monitor
in DRAM, harmless calls keep the DMA range in DRAM that the OS owns, above the monitor. -/
theorem run_confined {tr : List (Step Machine Event)} (hboot : AfterProtection C top s)
    (htop : isDramAddress C.globals top = true) (hrun : Run (step C.globals) s tr s')
    (hcalls : ∀ st ∈ tr, SpecialOwners.regionCall st.label.call = true)
    (hharmless : ∀ st ∈ tr, Harmless C top st) :
    Confined C top s' :=
  (hrun.invariant_of (I := fun s => SpecialOwners C s.mem ∧ Confined C top s)
    (fun st hst => ⟨hcalls st hst, hharmless st hst⟩) (hboot.invariant htop)
    fun _ h hstep hst => step_invariant h hstep hst).2

/-! ### Blocking a region -/

variable (C) in
/-- If `block_dram_region(r)`, called on core `core`, returns `monitor_ok`, then the DMA range has no
address of region `r`. -/
def Respected (s : Machine) (core r : Word) : Prop :=
  ∀ s', (blockDramRegion C.globals core r).run (exec .code) s = some (.ok, s') →
    ∀ a, InRange s' a → dramRegionFor C.globals a ≠ r

variable (C) in
/-- The DMA range is empty, or it ends before stripe `n` of memory begins, or begins after it has
ended. -/
def MissesStripe (s : Machine) (n : ℕ) : Prop :=
  s.dmaRangeEnd.toNat ≤ s.dmaRangeStart.toNat ∨ s.dmaRangeEnd.toNat ≤ n * C.stripeSize ∨
    (n + 1) * C.stripeSize ≤ s.dmaRangeStart.toNat

theorem missesStripe_iff {n : ℕ} :
    MissesStripe C s n ↔ ∀ a, InRange s a → a.toNat / C.stripeSize ≠ n := by
  have hpos : 0 < C.stripeSize := Nat.two_pow_pos _
  have hend := s.dmaRangeEnd.isLt
  constructor
  · rintro h a ⟨h1, h2⟩ rfl
    have hlow := Nat.div_mul_le_self a.toNat C.stripeSize
    have hhigh : a.toNat < (a.toNat / C.stripeSize + 1) * C.stripeSize :=
      Nat.lt_mul_of_div_lt (Nat.lt_succ_self (a.toNat / C.stripeSize)) hpos
    unfold MissesStripe at h
    omega
  · intro h
    by_contra hmeets
    simp only [MissesStripe, not_or, not_le] at hmeets
    obtain ⟨hne, hbefore, hafter⟩ := hmeets
    -- the first address that is both in the range and in the stripe
    obtain ⟨x, hx⟩ : ∃ x, x = max s.dmaRangeStart.toNat (n * C.stripeSize) := ⟨_, rfl⟩
    have hsucc : (n + 1) * C.stripeSize = n * C.stripeSize + C.stripeSize := Nat.succ_mul _ _
    have hnat : (BitVec.ofNat 64 x).toNat = x := Nat.mod_eq_of_lt (by omega)
    refine h (BitVec.ofNat 64 x) ⟨by omega, by omega⟩ ?_
    rw [hnat, Nat.div_eq_iff hpos]
    omega

/-- **What blocking a region respects.** The check of `block_dram_region` is right about the first
stripe of region `r`, and about no other: the stripes of the region are the stripes
`k * regionCount + r` of memory. -/
theorem respected_iff {core r : Word} (hos : C.globals.coreInfo s .enclaveId core = nullEnclaveId) :
    Respected C s core r ↔
      (BlockPasses C.globals s core r → ∀ k, 0 < k → MissesStripe C s (k * C.regionCount + r.toNat)) := by
  have hspec := blockDramRegion_spec C.globals s core r
  have hvalid : BlockPasses C.globals s core r → r.toNat < C.regionCount := fun h =>
    (C.isDynamicDramRegion_iff.mp h.dynamic).2
  constructor
  · intro h hpass k _
    rw [missesStripe_iff]
    intro a ha hstripe
    refine h _ (hspec.1 hpass) a ha (BitVec.eq_of_toNat_eq ?_)
    rw [C.toNat_dramRegionFor, hstripe, Nat.mul_add_mod_self_right, Nat.mod_eq_of_lt (hvalid hpass)]
  · rintro h s' hrun a ha rfl
    obtain ⟨-, hpass, rfl⟩ | ⟨hne, -⟩ := hspec.cases hrun
    · have howner : C.globals.region s .owner (dramRegionFor C.globals a) = nullEnclaveId := hpass.owned.trans hos
      have hdma := hpass.noDma (by rw [howner]; exact C.dramRegionFor_eq_zero (Nat.two_pow_pos _))
      have hfirst := not_mem_of_not_dmaRangeCrossed (hvalid hpass) ha hdma
      rw [C.toNat_dramRegionFor] at hfirst
      have hsplit := Nat.div_add_mod' (a.toNat / C.stripeSize) C.regionCount
      refine missesStripe_iff.mp (h hpass (a.toNat / C.stripeSize / C.regionCount) ?_) a ha ?_
      · refine Nat.pos_of_ne_zero fun hzero => hfirst ?_
        rw [hzero] at hsplit
        omega
      · rw [C.toNat_dramRegionFor, hsplit]
    · exact absurd rfl hne

/-! ### Machines -/

/-- `freshMachine twoRegions` after `boot_init_protection`. The monitor's arrays take 128 bytes. -/
def protectedMachine : Machine :=
  { freshMachine twoRegions with
    dmaRangeStart := 0x80
    dmaRangeEnd := 0x81
    csr := Function.update (Function.update (Function.update (freshMachine twoRegions).csr .parBase 0) .parMask
      (~~~(0x80 - 1))) .drbMap ((freshMachine twoRegions).mem.load64 twoRegions.globals.osRegionBitmap) }

theorem afterProtection_protectedMachine : AfterProtection twoRegions 0x80 protectedMachine :=
  ⟨blankMachine, freshMachine twoRegions, 0x80, twoRegions.run_bootInitDynamicArrays blankMachine, rfl⟩

/-- The OS points DMA at a page of region `0`, and then gives up region `1`. -/
theorem confined_setDmaBlock :
    Confined twoRegions 0x80
      (afterAll twoRegions.globals protectedMachine [.setDmaRange 0x1000 0xfff, .blockDramRegion 0 1]) := by
  refine run_confined afterProtection_protectedMachine (by decide) (run_script _ (by decide +kernel))
    (by decide +kernel) fun st hst => ?_
  simp only [script, List.mem_cons, List.not_mem_nil, or_false] at hst
  rcases hst with rfl | rfl
  · refine fun _ => ⟨by decide, by decide, fun a _ hlast => ?_⟩
    have hfirst : a.toNat < twoRegions.stripeSize := lt_of_le_of_lt hlast (by decide)
    rw [twoRegions.dramRegionFor_eq_zero hfirst]
    decide +kernel
  · intro _ _ a hin hregion
    obtain ⟨-, h2⟩ := hin
    have hhigh : a.toNat < 0x2000 := lt_of_lt_of_eq h2 (by decide +kernel)
    rw [twoRegions.dramRegionFor_eq_zero (lt_trans hhigh (by decide : 0x2000 < twoRegions.stripeSize))] at hregion
    exact absurd hregion (by decide)

/-- After the OS has given up region `1`, it points DMA at the region. -/
theorem not_confined : ∃ (C : Config) (top : Word) (s s' : Machine) (tr : List (Step Machine Event)),
    AfterProtection C top s ∧ isDramAddress C.globals top = true ∧ Run (step C.globals) s tr s' ∧
      (∀ st ∈ tr, SpecialOwners.regionCall st.label.call = true) ∧ ¬ Confined C top s' := by
  refine ⟨twoRegions, 0x80, protectedMachine, _,
    script _ _ [.blockDramRegion 0 1, .setDmaRange 0x80000 0xfff], afterProtection_protectedMachine, by decide,
    run_script _ (by decide +kernel), by decide +kernel, fun h => ?_⟩
  exact absurd (h 0x80000 ⟨by decide +kernel, by decide +kernel⟩).osOwned (by decide +kernel)

/-- Two regions, whose stripes are the even and the odd pages of one megabyte of DRAM. -/
def alternatingPages : Config where
  dramBase := 0
  dramSize := 0x100000
  stripePageBits := 0
  regionBits := 1
  bits_lt := by omega
  coreCount := 1
  arrays_fit := by decide

/-- A machine just booted, whose DMA range has been set to the second page of region `1`. -/
def secondStripe : Machine := dmaState (freshMachine alternatingPages) 0x3000 0xfff

theorem blockPasses_secondStripe : BlockPasses alternatingPages.globals secondStripe 0 1 where
  dynamic := by decide
  unlocked := by decide +kernel
  owned := by decide +kernel
  unpinned := .inl (by decide +kernel)
  ownerUnlocked := by decide +kernel
  noDma _ := by decide +kernel

theorem respected_iff_secondStripe :
    Respected alternatingPages secondStripe 0 1 ↔
      (BlockPasses alternatingPages.globals secondStripe 0 1 →
        ∀ k, 0 < k → MissesStripe alternatingPages secondStripe (k * 2 + 1)) :=
  respected_iff (by decide +kernel)

/-- The OS gives up region `1`, and DMA still goes to its second page. -/
theorem not_respected : ¬ Respected alternatingPages secondStripe 0 1 := fun h =>
  h _ ((blockDramRegion_spec _ _ _ _).1 blockPasses_secondStripe) 0x3000 ⟨by decide +kernel, by decide +kernel⟩
    (by decide)

end Dma

end Sanctum
