import Sanctum.Monitor.Owners

/-!
# The bitmap of the OS

The hardware lets the OS access the regions whose bits are set in
`g_os_region_bitmap`; the monitor decides on the owners in `g_dram_region`. The two
are to say the same (`Agrees`).

`set_bitmap_bit` shifts an `int`: asked for bit 31 of a word it changes bits 31 to 63,
and asked for a bit above it changes the one 32 below. So the bitmap agrees with the
owners as long as only regions below bit 31 of their word change hands (`LowBit`), or
there are at most 32 regions, and no metadata region is made of a region whose map
would lie in the monitor's arrays (`run_agrees`). A region above bit 31 keeps its bit
when it is blocked, and another loses its own (`not_agrees`).
-/

namespace Sanctum

namespace OsBitmap

variable (C : Config)

/-- The bit of a region is set if and only if the OS owns the region. -/
def Agrees (m : Memory) : Prop :=
  ∀ r : Word, r.toNat < C.regionCount →
    (C.osBit m r = true ↔ Slot.read C m (.region .owner r) = nullEnclaveId)

/-- The region's bit is one that `set_bitmap_bit` gets right. -/
def LowBit (r : Word) : Prop := r.toNat % 64 < 31 ∨ C.regionCount ≤ 32

/-- A call of the OS that changes who owns what. -/
def OsCall (st : Step Machine Event) : Prop :=
  match st.label.call with
  | .blockDramRegion core _ => C.globals.coreInfo st.pre .enclaveId core = nullEnclaveId
  | .assignDramRegion _ _ | .freeDramRegion _ | .createMetadataRegion _ => True
  | _ => False

/-- A call that passes its checks gives or takes a region with a low bit, and makes a
metadata region only past the arrays. -/
def Harmless (st : Step Machine Event) : Prop :=
  match st.label.call with
  | .blockDramRegion core r => BlockPasses C.globals st.pre core r → LowBit C r
  | .assignDramRegion r newOwner => AssignPasses C.globals st.pre r newOwner → LowBit C r
  | .createMetadataRegion r => FreeRegion C.globals st.pre r → C.arraysEnd ≤ r.toNat * C.stripeSize
  | _ => True

variable {C} {s s' : Machine} {m : Memory}

/-! ### Setting one bit -/

/-- Setting a low bit sets that bit. -/
theorem osBit_setBit_low {r r' : Word} {v : Bool} (hr : r.toNat < C.regionCount) (hr' : r'.toNat < C.regionCount)
    (hlow : LowBit C r) :
    C.osBit (m.setBit C.globals.osRegionBitmap r v) r' = if r' = r then v else C.osBit m r' := by
  have e : (r % 64).toNat = r.toNat % 64 := by rw [BitVec.toNat_umod]; rfl
  have eq_iff : r' = r ↔ r'.toNat / 64 = r.toNat / 64 ∧ r'.toNat % 64 = r.toNat % 64 :=
    ⟨by rintro rfl; exact ⟨rfl, rfl⟩, fun h => BitVec.eq_of_toNat_eq (by omega)⟩
  have word_iff : r' / 64 = r / 64 ↔ r'.toNat / 64 = r.toNat / 64 := by
    rw [← BitVec.toNat_inj, BitVec.toNat_udiv, BitVec.toNat_udiv]
    exact Iff.rfl
  rw [C.osBit_setBit m v hr hr']
  by_cases hw : r' / 64 = r / 64
  · have hmask : (bitmapMask r).getLsbD (r'.toNat % 64) = decide (r' = r) := by
      rw [bitmapMask, getLsbD_oneShl _ (Nat.mod_lt _ (by omega)), e, decide_eq_decide, eq_iff]
      rw [word_iff] at hw
      rcases hlow with hlow | hlow <;> omega
    rw [if_pos hw, Config.osBit, hw]
    by_cases heq : r' = r
    · subst heq
      cases v <;> simp [hmask, getLsbD_maskedWord_false _ _ (Nat.mod_lt r'.toNat (by omega : 0 < 64))]
    · cases v <;> simp [hmask, heq, getLsbD_maskedWord_false _ _ (Nat.mod_lt r'.toNat (by omega : 0 < 64))]
  · rw [if_neg hw, if_neg fun h => hw (by rw [h])]

/-! ### Steps -/

/-- The OS gives up a region. -/
theorem Agrees.block {core r : Word} (h : Agrees C s.mem)
    (hos : C.globals.coreInfo s .enclaveId core = nullEnclaveId)
    (hpass : BlockPasses C.globals s core r) (hlow : LowBit C r) : Agrees C (blockedState C.globals s r).mem := by
  have hr := (C.isDynamicDramRegion_iff.mp hpass.dynamic).2
  have howner : C.globals.region s .owner r = nullEnclaveId := hpass.owned.trans hos
  have hmem : (blockedState C.globals s r).mem =
      (blockStores C.globals s.mem r nullEnclaveId).setBit C.globals.osRegionBitmap r false := by
    rw [blockedState, howner, blockedMem, Globals.bitmapOf, if_pos rfl]
  intro r' hr'
  have hbit : C.osBit (blockStores C.globals s.mem r nullEnclaveId) r' = C.osBit s.mem r' := by
    rw [Config.osBit, Slot.read_blockStores (C.valid_osBitmap hr') hr]
    simp [Config.osBit]
  rw [hmem, osBit_setBit_low hr hr' hlow, hbit,
    C.read_setBit_osRegionBitmap hr (show (Slot.region .owner r').Valid C from hr') (by simp),
    Slot.read_blockStores (show (Slot.region .owner r').Valid C from hr') hr]
  by_cases heq : r' = r
  · simp [heq, blockedEnclaveId, nullEnclaveId]
  · simpa [heq] using h r' hr'

/-- The OS gets a region. -/
theorem Agrees.assign {r : Word} (h : Agrees C s.mem) (hpass : AssignPasses C.globals s r nullEnclaveId)
    (hlow : LowBit C r) : Agrees C (assignedState C.globals s r nullEnclaveId).mem := by
  have hr := C.isValidDramRegion_iff.mp hpass.valid
  intro r' hr'
  have hbit : C.osBit (assignedState C.globals s r nullEnclaveId).mem r' = if r' = r then true else C.osBit s.mem r' := by
    rw [assignedState, Globals.bitmapOf, if_pos rfl]
    refine (osBit_setBit_low hr hr' hlow).trans ?_
    congr 1
    rw [Config.osBit, Config.osBit, Slot.read_store_region C (C.valid_osBitmap hr') hr, if_neg (by simp)]
  rw [hbit, Slot.read_assignedState (show (Slot.region .owner r').Valid C from hr') hr (by simp)]
  by_cases heq : r' = r
  · simp [heq]
  · simpa [heq] using h r' hr'

/-- A region that is not the OS's stays so. -/
theorem Agrees.free {r : Word} (h : Agrees C s.mem) (hpass : FreePasses C.globals s r) :
    Agrees C (freedState C.globals s r).mem := by
  have hr := C.isValidDramRegion_iff.mp hpass.valid
  have hother : Slot.read C s.mem (.region .owner r) ≠ nullEnclaveId := by
    rcases hpass.releasable with ⟨howner, -⟩ | ⟨howner, -⟩
    · exact fun e => absurd (howner.symm.trans e) (by decide)
    · exact fun e => absurd (howner.symm.trans e) (by decide)
  intro r' hr'
  have hbit : C.osBit (freedState C.globals s r).mem r' = C.osBit s.mem r' := by
    rw [Config.osBit, Slot.read_freedState (C.valid_osBitmap hr') hr, if_neg (by simp), Config.osBit]
  rw [hbit, Slot.read_freedState (show (Slot.region .owner r').Valid C from hr') hr]
  by_cases heq : r' = r
  · subst heq
    rw [if_pos rfl, h r' hr']
    exact ⟨fun e => absurd e hother, fun e => absurd e (by decide)⟩
  · simpa [heq] using h r' hr'

/-- A region that is not the OS's stays so, and the map of the new metadata region does
not reach the arrays. -/
theorem Agrees.createMetadata {r : Word} (h : Agrees C s.mem) (hpass : FreeRegion C.globals s r)
    (hpast : C.arraysEnd ≤ r.toNat * C.stripeSize) : Agrees C (metadataState C.globals s r).mem := by
  have hr := C.isValidDramRegion_iff.mp hpass.valid
  intro r' hr'
  have hbit : C.osBit (metadataState C.globals s r).mem r' = C.osBit s.mem r' := by
    rw [Config.osBit, Slot.read_metadataState (C.valid_osBitmap hr') hr hpast,
      Slot.read_metadataStores (C.valid_osBitmap hr') hr, if_neg (by simp), if_neg (by simp), Config.osBit]
  rw [hbit, Slot.read_metadataState (show (Slot.region .owner r').Valid C from hr') hr hpast,
    Slot.read_metadataStores (show (Slot.region .owner r').Valid C from hr') hr, if_neg (by simp)]
  by_cases heq : r' = r
  · subst heq
    have hother : Slot.read C s.mem (.region .owner r') ≠ nullEnclaveId :=
      fun e => absurd (hpass.free.symm.trans e) (by decide)
    rw [if_pos rfl, h r' hr']
    exact ⟨fun e => absurd e hother, fun e => absurd e (by decide)⟩
  · simpa [heq] using h r' hr'

/-- What a call of the OS keeps, if it is harmless. -/
theorem step_invariant {st : Step Machine Event} (h : SpecialOwners C st.pre.mem ∧ Agrees C st.pre.mem)
    (hstep : step C.globals st.pre st.label st.post) (hst : OsCall C st ∧ Harmless C st) :
    SpecialOwners C st.post.mem ∧ Agrees C st.post.mem := by
  obtain ⟨s, ⟨c, v⟩, s'⟩ := st
  obtain ⟨howners, hagrees⟩ := h
  obtain ⟨hos, hharmless⟩ := hst
  dsimp only at *
  rcases step_cases hstep with rfl | heffect
  · exact ⟨howners, hagrees⟩
  cases heffect with
  | assignDramRegion hpass =>
    obtain rfl := howners.validEnclaveId_iff.mp hpass.ownerValid
    exact ⟨howners.assign hpass, hagrees.assign hpass (hharmless hpass)⟩
  | freeDramRegion hpass => exact ⟨howners.free hpass, hagrees.free hpass⟩
  | createMetadataRegion hpass =>
    exact ⟨howners.createMetadata hpass, hagrees.createMetadata hpass (hharmless hpass)⟩
  | blockDramRegion hpass => exact ⟨howners.block hpass, hagrees.block hos hpass (hharmless hpass)⟩
  | setDmaRange _ => exact hos.elim
  | flushCachedDramRegions => exact hos.elim
  | createEnclave _ => exact hos.elim
  | initEnclave _ _ => exact hos.elim
  | deleteEnclave _ _ => exact hos.elim
  | copyDebugEnclavePage _ => exact hos.elim
  | acceptThread _ => exact hos.elim

/-- **The bitmap of the OS agrees with the owners** in every state that harmless calls of
the OS lead to after boot, for any number of regions. -/
theorem run_agrees {tr : List (Step Machine Event)} (hboot : AfterBoot C s) (hrun : Run (step C.globals) s tr s')
    (hos : ∀ st ∈ tr, OsCall C st) (hharmless : ∀ st ∈ tr, Harmless C st) : Agrees C s'.mem := by
  have hbooted : Agrees C s.mem := fun r hr =>
    ⟨fun _ => hboot.booted.region .owner r hr, fun _ => hboot.booted.osBit r hr⟩
  exact (hrun.invariant_of (I := fun s => SpecialOwners C s.mem ∧ Agrees C s.mem)
    (fun st hst => ⟨hos st hst, hharmless st hst⟩) ⟨.of_booted hboot.booted, hbooted⟩
    fun _ h hstep hst => step_invariant h hstep hst).2

/-- The OS gives up region `1` and gets it back. -/
theorem agrees_blockFreeAssign :
    Agrees twoRegions (afterAll twoRegions.globals (freshMachine twoRegions)
      [.blockDramRegion 0 1, .freeDramRegion 1, .assignDramRegion 1 0]).mem := by
  refine run_agrees (afterBoot_freshMachine _) (run_script _ (by decide +kernel)) (fun st hst => ?_) fun st hst => ?_
  · simp only [script, List.mem_cons, List.not_mem_nil, or_false] at hst
    rcases hst with rfl | rfl | rfl
    · exact (by decide +kernel : twoRegions.globals.coreInfo (freshMachine twoRegions) .enclaveId 0 = nullEnclaveId)
    · exact trivial
    · exact trivial
  · simp only [script, List.mem_cons, List.not_mem_nil, or_false] at hst
    rcases hst with rfl | rfl | rfl
    · exact fun _ => .inr (by decide)
    · exact trivial
    · exact fun _ => .inr (by decide)

/-- Of 64 regions the OS gives up region `32`. It keeps that bit, and loses the bit of
region `0`. -/
theorem not_agrees : ∃ (C : Config) (s s' : Machine) (tr : List (Step Machine Event)),
    AfterBoot C s ∧ Run (step C.globals) s tr s' ∧ (∀ st ∈ tr, OsCall C st) ∧ ¬ Agrees C s'.mem := by
  refine ⟨sixtyFourRegions, freshMachine _, _, script _ _ [.blockDramRegion 0 32], afterBoot_freshMachine _,
    run_script _ (by decide +kernel), fun st hst => ?_, fun h => ?_⟩
  · simp only [script, List.mem_cons, List.not_mem_nil, or_false] at hst
    subst hst
    exact (by decide +kernel :
      sixtyFourRegions.globals.coreInfo (freshMachine sixtyFourRegions) .enclaveId 0 = nullEnclaveId)
  · exact absurd ((h 0 (by decide)).mpr (by decide +kernel)) (by decide +kernel)

end OsBitmap

end Sanctum
