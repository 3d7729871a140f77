import Sanctum.Monitor.Api
import Sanctum.Monitor.BootInit

/-!
# Who can own a region

The owner of a DRAM region is an enclave ID, or one of three numbers that say that
nobody owns it. `assign_dram_region` is the only call that makes an ID an owner, and
accepts only IDs that own a region already: as long as no store goes astray, no
enclave ever owns a region, and region `0` stays with the OS (`SpecialOwners`).

The condition bounds the owners from above, so that it survives stores that make no
byte larger. It thereby survives what `block_dram_region` does to the "bitmap" of a
caller whose ID is `1`, `2` or `3`, which lies in the monitor's own arrays.
-/

namespace Sanctum

variable (C : Config)

/-! ### The calls on the slots -/

namespace Slot

variable {C} {m : Memory} {a : Slot}

/-- The stores of `block_dram_region`, slot by slot. -/
theorem read_blockStores {r owner : Word} (ha : a.Valid C) (hr : r.toNat < C.regionCount) :
    read C (blockStores C.globals m r owner) a =
      if a = .region .blockedAt r then read C m .clock
      else if a = .clock then read C m .clock + 1
      else if a = .region .owner r then blockedEnclaveId
      else if a = .region .previousOwner r then owner
      else read C m a := by
  have hstore := fun f m v => read_store_region C (m := m) (f := f) (v := v) ha hr
  have hclock := fun m v => read_store_clock C (m := m) (v := v) ha
  have hread : ((m.store64 (C.globals.regionField .previousOwner r) owner).store64
      (C.globals.regionField .owner r) blockedEnclaveId).load64 C.globals.dramRegions = read C m .clock := by
    have h := fun f m v => read_store_region C (m := m) (f := f) (v := v) (show Slot.clock.Valid C from trivial) hr
    change read C _ .clock = _
    rw [h, h, if_neg (by simp), if_neg (by simp)]
  simp only [blockStores, hstore, hclock, hread]

/-- Wherever the bitmap of the owner is, clearing its bit makes no slot larger. -/
theorem read_blockedMem_le (r owner : Word) (a : Slot) :
    (read C (blockedMem C.globals m r owner) a).toNat ≤ (read C (blockStores C.globals m r owner) a).toNat :=
  read_le_of_shrinks C (Memory.shrinks_setBit_false _ _ _) a

/-- A region's owner is all that `free_dram_region` changes. -/
theorem read_freedState {s : Machine} {r : Word} (ha : a.Valid C) (hr : r.toNat < C.regionCount) :
    read C (freedState C.globals s r).mem a = if a = .region .owner r then freeEnclaveId else read C s.mem a :=
  read_store_region C ha hr

/-- A region's owner and a bit of the bitmap of the OS is all that assigning it to the OS changes. -/
theorem read_assignedState {s : Machine} {r : Word} (ha : a.Valid C) (hr : r.toNat < C.regionCount)
    (h : ∀ k, a ≠ .osBitmap k) :
    read C (assignedState C.globals s r nullEnclaveId).mem a =
      if a = .region .owner r then nullEnclaveId else read C s.mem a := by
  rw [assignedState, Globals.bitmapOf, if_pos rfl]
  exact (C.read_setBit_osRegionBitmap hr ha h).trans (read_store_region C ha hr)

/-- The stores of `init_metadata_region`, slot by slot. -/
theorem read_metadataStores {r : Word} (ha : a.Valid C) (hr : r.toNat < C.regionCount) :
    read C (metadataStores C.globals m r) a =
      if a = .region .pinnedPages r then 0 else if a = .region .owner r then metadataEnclaveId else read C m a := by
  rw [metadataStores, read_store_region C ha hr, read_store_region C ha hr]

/-- Making a metadata region makes no other slot larger: the zeros it writes to the
region's first pages may reach the arrays. -/
theorem read_metadataState_le (s : Machine) (r : Word) (a : Slot) :
    (read C (metadataState C.globals s r).mem a).toNat ≤ (read C (metadataStores C.globals s.mem r) a).toNat :=
  read_le_of_shrinks C (Memory.shrinks_zeroed _ _ _) a

/-- They do not, if the region starts past the arrays. -/
theorem read_metadataState {s : Machine} {r : Word} (ha : a.Valid C) (hr : r.toNat < C.regionCount)
    (hpast : C.arraysEnd ≤ r.toNat * C.stripeSize) :
    read C (metadataState C.globals s r).mem a = read C (metadataStores C.globals s.mem r) a :=
  read_congr_of_below C ha fun _ hb => Memory.zeroed_of_not_within fun h => by
    have hmap := (C.within_map_iff hr).mp h
    omega

end Slot

/-! ### Special owners -/

/-- Every owner is one of `null_enclave_id`, `blocked_enclave_id`, `metadata_enclave_id` and
`free_enclave_id`, and the OS owns region `0`. -/
structure SpecialOwners (m : Memory) : Prop where
  /-- The owners are special. -/
  le : ∀ r : Word, r.toNat < C.regionCount → (Slot.read C m (.region .owner r)).toNat ≤ 3
  /-- Region `0` is the OS's. -/
  zero : Slot.read C m (.region .owner 0) = nullEnclaveId

namespace SpecialOwners

variable {C} {m m' : Memory} {s s' : Machine}

theorem of_booted (h : Booted C m) : SpecialOwners C m where
  le r hr := by rw [h.region .owner r hr]; decide
  zero := h.region .owner 0 C.regionCount_pos

/-- What bounds the owners: no owner grows, but for that of one region other than `0`
that becomes special. -/
theorem of_le {r v : Word} (h : SpecialOwners C m) (hr : r ≠ 0) (hv : v.toNat ≤ 3)
    (hle : ∀ r' : Word, r'.toNat < C.regionCount → (Slot.read C m' (.region .owner r')).toNat ≤
      (if Slot.region .owner r' = .region .owner r then v else Slot.read C m (.region .owner r')).toNat) :
    SpecialOwners C m' where
  le r' hr' := by
    have h1 := hle r' hr'
    split at h1
    · omega
    · exact le_trans h1 (h.le r' hr')
  zero := by
    have h1 := hle 0 C.regionCount_pos
    rw [if_neg (fun e => hr (Slot.region.inj e).2.symm), h.zero] at h1
    exact BitVec.eq_of_toNat_eq (Nat.le_zero.mp h1)

/-- Stores that change no owner. -/
theorem congr (h : SpecialOwners C m)
    (heq : ∀ r : Word, r.toNat < C.regionCount → Slot.read C m' (.region .owner r) = Slot.read C m (.region .owner r)) :
    SpecialOwners C m' where
  le r hr := by rw [heq r hr]; exact h.le r hr
  zero := by rw [heq 0 C.regionCount_pos]; exact h.zero

/-- A region that the OS does not own is not region `0`. -/
theorem ne_zero (h : SpecialOwners C s.mem) {r v : Word} (hr : C.globals.region s .owner r = v)
    (hv : v ≠ nullEnclaveId) :
    r ≠ 0 := by
  rintro rfl
  exact hv (hr.symm.trans h.zero)

/-- **The only valid enclave ID is that of the OS.** An ID that owns a region is at most
`3`, and so an address in region `0`, which the OS owns. -/
theorem validEnclaveId_iff (h : SpecialOwners C s.mem) {id : EnclaveId} :
    C.globals.validEnclaveId s id = true ↔ id = nullEnclaveId := by
  have hsmall : ∀ id : EnclaveId, id.toNat ≤ 3 → clampedDramRegionFor C.globals id = 0 := by
    intro id hid
    have hstripe : 3 < C.stripeSize :=
      lt_of_lt_of_le (by decide : 3 < 2 ^ 12) (Nat.pow_le_pow_right (by omega) (Nat.le_add_right 12 _))
    unfold clampedDramRegionFor
    split
    · exact C.dramRegionFor_eq_zero (by omega)
    · rfl
  rw [Globals.validEnclaveId, beq_iff_eq]
  constructor
  · intro howner
    have hle := h.le _ (C.toNat_clampedDramRegionFor_lt id)
    change C.globals.region s .owner _ = id at howner
    change (C.globals.region s .owner _).toNat ≤ 3 at hle
    rw [howner] at hle
    rw [hsmall id hle] at howner
    exact howner.symm.trans h.zero
  · rintro rfl
    rw [hsmall _ (by decide)]
    exact h.zero

/-- The owners stay special. -/
theorem block {core r : Word} (h : SpecialOwners C s.mem) (hpass : BlockPasses C.globals s core r) :
    SpecialOwners C (blockedState C.globals s r).mem := by
  obtain ⟨hr0, hr⟩ := C.isDynamicDramRegion_iff.mp hpass.dynamic
  refine h.of_le hr0 (v := blockedEnclaveId) (by decide) fun r' hr' => ?_
  refine le_trans (Slot.read_blockedMem_le _ _ _) ?_
  rw [Slot.read_blockStores (show (Slot.region .owner r').Valid C from hr') hr]
  simp

/-- The owners stay special. -/
theorem free {r : Word} (h : SpecialOwners C s.mem) (hpass : FreePasses C.globals s r) :
    SpecialOwners C (freedState C.globals s r).mem := by
  have hr := C.isValidDramRegion_iff.mp hpass.valid
  have hr0 : r ≠ 0 := by
    rcases hpass.releasable with ⟨howner, -⟩ | ⟨howner, -⟩
    · exact h.ne_zero howner (by decide)
    · exact h.ne_zero howner (by decide)
  refine h.of_le hr0 (v := freeEnclaveId) (by decide) fun r' hr' => le_of_eq ?_
  rw [Slot.read_freedState (show (Slot.region .owner r').Valid C from hr') hr]

/-- The owners stay special: the new owner is the OS. -/
theorem assign {r : Word} {newOwner : EnclaveId} (h : SpecialOwners C s.mem)
    (hpass : AssignPasses C.globals s r newOwner) : SpecialOwners C (assignedState C.globals s r newOwner).mem := by
  have hr := C.isValidDramRegion_iff.mp hpass.valid
  obtain rfl := h.validEnclaveId_iff.mp hpass.ownerValid
  refine h.of_le (h.ne_zero hpass.free (by decide)) (v := nullEnclaveId) (by decide) fun r' hr' => le_of_eq ?_
  rw [Slot.read_assignedState (show (Slot.region .owner r').Valid C from hr') hr (by simp)]

/-- The owners stay special. -/
theorem createMetadata {r : Word} (h : SpecialOwners C s.mem) (hpass : FreeRegion C.globals s r) :
    SpecialOwners C (metadataState C.globals s r).mem := by
  have hr := C.isValidDramRegion_iff.mp hpass.valid
  refine h.of_le (h.ne_zero hpass.free (by decide)) (v := metadataEnclaveId) (by decide) fun r' hr' => ?_
  refine le_trans (Slot.read_metadataState_le _ _ _) ?_
  rw [Slot.read_metadataStores (show (Slot.region .owner r').Valid C from hr') hr]
  simp

/-- No call on a valid enclave succeeds. -/
theorem not_validEnclaveId (h : SpecialOwners C s.mem) {id : EnclaveId} (hid : id ≠ nullEnclaveId) :
    C.globals.validEnclaveId s id = false := by
  rw [Bool.eq_false_iff]
  exact fun hv => hid (h.validEnclaveId_iff.mp hv)

/-- The calls that change who owns what, and `set_dma_range`. -/
def regionCall : Call → Bool
  | .blockDramRegion _ _ | .assignDramRegion _ _ | .createMetadataRegion _ | .freeDramRegion _
  | .setDmaRange _ _ | .deleteEnclave _ => true
  | _ => false

/-- One step. -/
theorem step {e : Event} (h : SpecialOwners C s.mem) (hstep : Sanctum.step C.globals s e s')
    (hcall : regionCall e.call = true) : SpecialOwners C s'.mem := by
  rcases step_cases hstep with rfl | heffect
  · exact h
  obtain ⟨c, v⟩ := e
  cases heffect with
  | setDmaRange _ => exact h
  | assignDramRegion hpass => exact h.assign hpass
  | freeDramRegion hpass => exact h.free hpass
  | createMetadataRegion hpass => exact h.createMetadata hpass
  | blockDramRegion hpass => exact h.block hpass
  | deleteEnclave hid hvalid => exact absurd (h.validEnclaveId_iff.mp hvalid) hid
  | flushCachedDramRegions => simp [regionCall] at hcall
  | createEnclave _ => simp [regionCall] at hcall
  | initEnclave _ _ => simp [regionCall] at hcall
  | copyDebugEnclavePage _ => simp [regionCall] at hcall
  | acceptThread _ => simp [regionCall] at hcall

/-- Every run from boot. -/
theorem run {tr : List (Step Machine Event)} (hboot : AfterBoot C s) (hrun : Run (Sanctum.step C.globals) s tr s')
    (hcalls : ∀ st ∈ tr, regionCall st.label.call = true) : SpecialOwners C s'.mem :=
  hrun.invariant_of (I := fun s => SpecialOwners C s.mem) hcalls (.of_booted hboot.booted)
    fun _ h hstep hcall => h.step hstep hcall

end SpecialOwners

/-- **Region 0 always belongs to the OS and special IDs are never valid.** In every state
reached after boot by blocking, assigning, freeing and making metadata regions, setting
the DMA range and deleting enclaves, on any core and with any arguments, the OS owns
region `0`, and `is_valid_enclave_id` refuses the special owners and every ID, but for
`null_enclave_id`, that is not a DRAM address. -/
theorem region_zero_and_special_ids {s s' : Machine} {tr : List (Step Machine Event)} (hboot : AfterBoot C s)
    (hrun : Run (step C.globals) s tr s') (hcalls : ∀ st ∈ tr, SpecialOwners.regionCall st.label.call = true) :
    C.globals.region s' .owner 0 = nullEnclaveId ∧
      ∀ x : EnclaveId, x = blockedEnclaveId ∨ x = metadataEnclaveId ∨ x = freeEnclaveId ∨
          x ≠ nullEnclaveId ∧ isDramAddress C.globals x = false →
        (isValidEnclaveId C.globals x).run (exec .code) s' = some (false, s') := by
  have h := SpecialOwners.run hboot hrun hcalls
  refine ⟨h.zero, fun x hx => ?_⟩
  have hx0 : x ≠ nullEnclaveId := by
    rcases hx with rfl | rfl | rfl | ⟨hx, -⟩
    · decide
    · decide
    · decide
    · exact hx
  rw [run_isValidEnclaveId, h.not_validEnclaveId hx0]

/-- Region `1` blocked, freed, and made a metadata region. -/
theorem region_zero_after_three_calls :
    twoRegions.globals.region
      (afterAll twoRegions.globals (freshMachine twoRegions)
        [.blockDramRegion 0 1, .freeDramRegion 1, .createMetadataRegion 1])
      .owner 0 = nullEnclaveId :=
  (region_zero_and_special_ids twoRegions (afterBoot_freshMachine _) (run_script _ (by decide +kernel))
    (by decide +kernel)).1

end Sanctum
