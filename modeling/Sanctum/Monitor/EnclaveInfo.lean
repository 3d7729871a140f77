import Sanctum.Monitor.Enclave
import Sanctum.Monitor.MetadataPages

/-!
# The structure of an enclave

What `create_enclave` reserves for an enclave: an `enclave_info_t`, a bitmap of regions and an array of
mailboxes, in consecutive pages; and the range of virtual addresses that it stores there.

The size of all this is computed modulo `2 ^ 64`, from a number of mailboxes that the OS may choose.
The range is a base and a mask of the low bits, and the test of an address compares the bits *in* the
mask with the base, where it should be those outside.

## What is proved

* `infoFits_iff` — the structure fits in the pages reserved for it exactly if its size, rounded up to
  pages, is below `2 ^ 64`.
* `testsRange_iff` — the test of an address is right exactly if address and base are 0, or if the
  address is outside the range and either the base is not 0 or the address is not aligned to the
  range's size.
-/

namespace Sanctum

namespace EnclaveInfo

/-! ### Pages -/

section Size

variable (g : Globals)

/-- The size of the structure for `mailboxCount` mailboxes. -/
def infoSize (mailboxCount : Word) : ℕ :=
  enclaveInfoStructSize.toNat + 8 * g.dramRegionBitmapWords.toNat + mailboxCount.toNat * mailboxSize.toNat

/-- The structure fits in the pages that are reserved for it. -/
structure InfoFits (id : EnclaveId) (mailboxCount : Word) : Prop where
  /-- The pages have room for it. -/
  size : infoSize g mailboxCount ≤ (enclaveInfoPages g mailboxCount).toNat * pageSize.toNat
  /-- There is one at least. -/
  reserved : 1 ≤ (enclaveInfoPages g mailboxCount).toNat
  /-- They are in one stripe. -/
  inStripe : (dramStripePageFor g id).toNat + (enclaveInfoPages g mailboxCount).toNat ≤ g.dramStripePages.toNat
  /-- The mailboxes are in them. -/
  mailboxes : ∀ i : Word, i.toNat < mailboxCount.toNat → ∀ b, Memory.Within (enclaveMailbox g id i) mailboxSize.toNat b →
    Memory.Within id ((enclaveInfoPages g mailboxCount).toNat * pageSize.toNat) b

theorem toNat_enclaveInfoSize (mailboxCount : Word) :
    (enclaveInfoSize g mailboxCount).toNat = infoSize g mailboxCount % 2 ^ 64 := by
  have h8 : (8 : Word).toNat = 8 := rfl
  have h0 : (0 : Word) + enclaveInfoStructSize = enclaveInfoStructSize := rfl
  rw [infoSize, enclaveInfoSize, enclaveMailbox, enclaveRegionBitmap, h0, BitVec.toNat_add,
    BitVec.toNat_add, BitVec.toNat_mul, BitVec.toNat_mul, h8, Nat.mul_comm mailboxCount.toNat]
  omega

/-- The number of pages, with both roundings. -/
theorem toNat_enclaveInfoPages (mailboxCount : Word) :
    (enclaveInfoPages g mailboxCount).toNat = (infoSize g mailboxCount + 4095) % 2 ^ 64 / 4096 := by
  have h1 : (1 : Word).toNat = 1 := rfl
  have h12 : pageShift.toNat = 12 := rfl
  have h4096 : (4096 : Word).toNat = 4096 := rfl
  rw [enclaveInfoPages, pagesNeededFor, toNat_srl (by decide), h12, pageSize_eq, BitVec.toNat_sub, BitVec.toNat_add,
    toNat_enclaveInfoSize, h1, h4096]
  omega

/-- A mailbox is so many bytes from the start. -/
theorem enclaveMailbox_eq (id : EnclaveId) (i : Word) :
    enclaveMailbox g id i = id + BitVec.ofNat 64 (infoSize g i) := by
  have hsize : BitVec.ofNat 64 (infoSize g i) = enclaveInfoSize g i := by
    apply BitVec.eq_of_toNat_eq
    rw [BitVec.toNat_ofNat, toNat_enclaveInfoSize]
  have h0 : (0 : Word) + enclaveInfoStructSize = enclaveInfoStructSize := rfl
  rw [hsize, enclaveInfoSize, enclaveMailbox, enclaveMailbox, enclaveRegionBitmap, enclaveRegionBitmap, h0,
    BitVec.add_assoc id, BitVec.add_assoc id]

/-- The check of `assign_metadata_pages` does not wrap around. -/
theorem le_stripePages {s : Machine} {id mailboxCount : Word} (h : PagesPass g s id (enclaveInfoPages g mailboxCount)) :
    (dramStripePageFor g id).toNat + (enclaveInfoPages g mailboxCount).toNat ≤ g.dramStripePages.toNat := by
  have hpages := toNat_enclaveInfoPages_lt g mailboxCount
  have hpage : (dramStripePageFor g id).toNat < 2 ^ 52 := by
    have h12 : pageShift.toNat = 12 := rfl
    rw [dramStripePageFor, toNat_srl (by decide), h12]
    omega
  have hfits := h.fits
  rw [gt_iff_lt, BitVec.not_lt, BitVec.le_def, BitVec.toNat_add] at hfits
  omega

/-- Without wrap-around the pages are enough. -/
theorem infoFits_of_lt {s : Machine} {id mailboxCount : Word} (h : PagesPass g s id (enclaveInfoPages g mailboxCount))
    (hlt : infoSize g mailboxCount + 4095 < 2 ^ 64) : InfoFits g id mailboxCount := by
  have hpages := toNat_enclaveInfoPages g mailboxCount
  have h4096 : pageSize.toNat = 4096 := rfl
  have h304 : enclaveInfoStructSize.toNat = 304 := rfl
  have hsize : infoSize g mailboxCount ≤ (enclaveInfoPages g mailboxCount).toNat * pageSize.toNat := by
    rw [h4096]
    omega
  refine ⟨hsize, ?_, le_stripePages g h, fun i hi b hb => ?_⟩
  · rw [infoSize] at *
    omega
  · rw [enclaveMailbox_eq] at hb
    refine hb.of_add (le_trans ?_ hsize) (by rw [h4096]; omega)
    rw [infoSize, infoSize, Nat.add_assoc _ _ mailboxSize.toNat, ← Nat.succ_mul]
    exact Nat.add_le_add_left (Nat.mul_le_mul_right _ hi) _

/-- **When the structure of an enclave fits in its pages.** -/
theorem infoFits_iff (s : Machine) (unset : Word) (id : EnclaveId) (evBase evMask mailboxCount : Word) (debug : Bool) :
    (∀ s', (createEnclave g unset id evBase evMask mailboxCount debug).run (exec .code) s = some (.ok, s') →
        InfoFits g id mailboxCount) ↔
      (CreatePasses g s unset id evBase evMask mailboxCount → infoSize g mailboxCount + 4095 < 2 ^ 64) := by
  have hspec := createEnclave_spec g s unset id evBase evMask mailboxCount debug
  constructor
  · intro h hpass
    by_contra hge
    have hfits := h _ (hspec.1 hpass)
    have hsize := hfits.size
    have hreserved := hfits.reserved
    have hpages := toNat_enclaveInfoPages g mailboxCount
    have h4096 : pageSize.toNat = 4096 := rfl
    rw [h4096] at hsize
    omega
  · intro h s' hok
    by_cases hpass : CreatePasses g s unset id evBase evMask mailboxCount
    · exact infoFits_of_lt g hpass.toPagesPass (h hpass)
    · obtain ⟨e, he, herror⟩ := hspec.2 hpass
      rw [herror] at hok
      exact absurd (congrArg Prod.fst (Option.some.inj hok)) he

end Size

/-- The machine after the OS has made region `1` a metadata region. -/
def metadataMachine : Machine := afterAll twoRegions.globals MetadataPages.freedMachine [.createMetadataRegion 1]

/-- `2 ^ 60` mailboxes have a size of 0 modulo `2 ^ 64`, and one page is reserved. -/
theorem not_infoFits :
    ∃ s', (createEnclave twoRegions.globals 1 0x81000 0 0xfff 0x1000000000000000 false).run (exec .code) metadataMachine =
        some (.ok, s') ∧
      enclaveInfoPages twoRegions.globals 0x1000000000000000 = 1 ∧
      ¬ InfoFits twoRegions.globals 0x81000 0x1000000000000000 := by
  have hpages : enclaveInfoPages twoRegions.globals 0x1000000000000000 = 1 := by decide +kernel
  have hok : ((createEnclave twoRegions.globals 1 0x81000 0 0xfff 0x1000000000000000 false).run (exec .code)
      metadataMachine).map Prod.fst = some .ok := by
    decide +kernel
  obtain ⟨⟨-, s'⟩, hrun, rfl⟩ := Option.map_eq_some_iff.mp hok
  refine ⟨s', hrun, hpages, fun h => ?_⟩
  have hsize := h.size
  rw [hpages] at hsize
  exact absurd hsize (by decide)

/-! ### The range -/

/-- Fields do not overlap. -/
theorem apart_enclaveField {f f' : EnclaveField} (h : f ≠ f') (e : Word) :
    Memory.Apart (enclaveField f e) 8 (enclaveField f' e) 8 := by
  have hoffset (f : EnclaveField) : enclaveField f e = e + BitVec.ofNat 64 f.offset.toNat := by cases f <;> rfl
  rw [hoffset, hoffset]
  have hle : f.offset.toNat + 8 ≤ f'.offset.toNat ∨ f'.offset.toNat + 8 ≤ f.offset.toNat := by
    revert h
    cases f <;> cases f' <;> decide
  have hlt (f : EnclaveField) : f.offset.toNat + 8 ≤ 2 ^ 64 := by cases f <;> decide
  rcases hle with hle | hle
  · exact Memory.apart_add hle (hlt f')
  · exact (Memory.apart_add hle (hlt f)).symm

/-- The hash block is behind the fields. -/
theorem apart_hashBlock (f : EnclaveField) (e : Word) {b : Word} (h : Memory.Within (enclaveField f e) 8 b) :
    ¬ Memory.Within (enclaveHashBlock e) hashBlockSize b := by
  have hoffset : enclaveField f e = e + BitVec.ofNat 64 f.offset.toNat := by cases f <;> rfl
  have hle : f.offset.toNat + 8 ≤ 240 := by cases f <;> decide
  have hblock : hashBlockSize = 64 := rfl
  rw [hoffset] at h
  exact Memory.apart_add hle (by omega) b h

theorem within_of_blockField {f : BlockField} {e b : Word} (h : Memory.Within (blockField f e) 8 b) :
    Memory.Within (enclaveHashBlock e) hashBlockSize b := by
  have hindex : f.index ≤ 6 := by cases f <;> decide
  have hblock : hashBlockSize = 64 := rfl
  exact h.of_add (by omega) (by omega)

/-- `init_enclave_hash` leaves the fields as they are. -/
theorem load64_initHashState (s : Machine) (e evBase evMask mailboxCount : Word) (debug : Bool) (f : EnclaveField) :
    (initHashState s e evBase evMask mailboxCount debug).mem.load64 (enclaveField f e) =
      s.mem.load64 (enclaveField f e) := by
  refine Memory.load64_congr fun b hb => ?_
  have hblock := apart_hashBlock f e hb
  have hzero : ∀ p ∈ zeroBlockStores e [.ptr1, .ptr2, .size1, .size2], ¬ Memory.Within p.1 8 b := by
    intro p hp h
    obtain ⟨f, -, rfl⟩ := List.mem_map.mp hp
    exact hblock (within_of_blockField h)
  have hinit : ∀ p ∈ initBlockStores e evBase evMask mailboxCount debug, ¬ Memory.Within p.1 8 b := by
    intro p hp h
    simp only [initBlockStores, List.mem_cons, List.not_mem_nil, or_false] at hp
    rcases hp with rfl | rfl | rfl | rfl | rfl <;> exact hblock (within_of_blockField h)
  unfold initHashState
  dsimp only
  rw [Memory.storeAll_of_not_within hzero, Memory.storeAll_of_not_within hinit, Memory.zeroed_of_not_within hblock]

/-- The base that is stored. -/
theorem load64_evBase (s : Machine) (e evBase evMask mailboxCount : Word) (debug : Bool) :
    (initInfoState s e evBase evMask mailboxCount debug).mem.load64 (enclaveField .evBase e) = evBase := by
  rw [initInfoState, load64_initHashState]
  show ((s.mem.storeAll (_ :: _ :: _ :: [] ++ (enclaveField .evBase e, evBase) :: _)).load64 _) = _
  refine Memory.load64_storeAll_append fun p hp => ?_
  simp only [List.mem_cons, List.not_mem_nil, or_false] at hp
  rcases hp with rfl | rfl | rfl | rfl | rfl <;> exact apart_enclaveField (by decide) e

/-- The mask that is stored. -/
theorem load64_evMask (s : Machine) (e evBase evMask mailboxCount : Word) (debug : Bool) :
    (initInfoState s e evBase evMask mailboxCount debug).mem.load64 (enclaveField .evMask e) = evMask := by
  rw [initInfoState, load64_initHashState]
  show ((s.mem.storeAll (_ :: _ :: _ :: _ :: [] ++ (enclaveField .evMask e, evMask) :: _)).load64 _) = _
  refine Memory.load64_storeAll_append fun p hp => ?_
  simp only [List.mem_cons, List.not_mem_nil, or_false] at hp
  rcases hp with rfl | rfl | rfl | rfl <;> exact apart_enclaveField (by decide) e

/-- The test, on what has been stored. -/
theorem run_isEnclaveVirtualAddress (s : Machine) (e evBase evMask mailboxCount va : Word) (debug : Bool) :
    (initEnclaveInfo e evBase evMask mailboxCount debug >>= fun _ => isEnclaveVirtualAddress va e).run (exec .code) s =
      some (va &&& evMask == evBase, initInfoState s e evBase evMask mailboxCount debug) := by
  rw [Prog.run_bind, run_initEnclaveInfo, Option.bind_some, isEnclaveVirtualAddress, Prog.run_bind, run_load64,
    Option.bind_some, Prog.run_bind, run_load64, Option.bind_some, load64_evMask, load64_evBase]
  rfl

/-- Once `init_enclave_info` has stored the range, the test says whether an address is in it. -/
def TestsRange (s : Machine) (e evBase evMask mailboxCount va : Word) (debug : Bool) : Prop :=
  ∀ b s', (initEnclaveInfo e evBase evMask mailboxCount debug >>= fun _ =>
      isEnclaveVirtualAddress va e).run (exec .code) s = some (b, s') →
    (b = true ↔ evBase.toNat ≤ va.toNat ∧ va.toNat ≤ evBase.toNat + evMask.toNat)

/-- The base is aligned, so what the mask selects is the base only if both are 0. -/
theorem and_mask_eq_base_iff {base mask va : Word} (h : isValidRange base mask = true) :
    va &&& mask = base ↔ base.toNat = 0 ∧ va.toNat % (mask.toNat + 1) = 0 := by
  obtain ⟨n, hn, haligned⟩ := exists_of_isValidRange h
  have hand : (va &&& mask).toNat = va.toNat % 2 ^ n := by
    rw [BitVec.toNat_and, show mask.toNat = 2 ^ n - 1 by omega, Nat.and_two_pow_sub_one_eq_mod]
  have hlt : va.toNat % 2 ^ n < 2 ^ n := Nat.mod_lt _ (Nat.two_pow_pos n)
  rw [← BitVec.toNat_inj, hand, hn]
  constructor
  · intro heq
    have hbase : base.toNat = 0 := by rw [← haligned, ← heq, Nat.mod_mod]
    exact ⟨hbase, heq.trans hbase⟩
  · rintro ⟨hbase, hva⟩
    rw [hbase, hva]

/-- **When the range test is right.** -/
theorem testsRange_iff (s : Machine) (e mailboxCount va : Word) (debug : Bool) {evBase evMask : Word}
    (hvalid : isValidRange evBase evMask = true) :
    TestsRange s e evBase evMask mailboxCount va debug ↔
      evBase.toNat = 0 ∧ va.toNat = 0 ∨
        ¬ (evBase.toNat ≤ va.toNat ∧ va.toNat ≤ evBase.toNat + evMask.toNat) ∧
          ¬ (evBase.toNat = 0 ∧ va.toNat % (evMask.toNat + 1) = 0) := by
  have hiff : va &&& evMask = evBase ↔ evBase.toNat = 0 ∧ va.toNat % (evMask.toNat + 1) = 0 :=
    and_mask_eq_base_iff hvalid
  have htests : TestsRange s e evBase evMask mailboxCount va debug ↔
      (va &&& evMask = evBase ↔ evBase.toNat ≤ va.toNat ∧ va.toNat ≤ evBase.toNat + evMask.toNat) := by
    rw [TestsRange, run_isEnclaveVirtualAddress]
    constructor
    · intro h
      rw [← h _ _ rfl, beq_iff_eq]
    · rintro h b s' hrun
      obtain ⟨rfl, -⟩ := Prod.mk.inj (Option.some.inj hrun)
      rw [beq_iff_eq, h]
  rw [htests, hiff]
  by_cases hrange : evBase.toNat ≤ va.toNat ∧ va.toNat ≤ evBase.toNat + evMask.toNat
  · -- in a range from 0 on only 0 is a multiple of the size
    have hmod : evBase.toNat = 0 → va.toNat % (evMask.toNat + 1) = va.toNat := fun h =>
      Nat.mod_eq_of_lt (by omega)
    constructor
    · intro h
      obtain ⟨hbase, hva⟩ := h.mpr hrange
      exact .inl ⟨hbase, (hmod hbase).symm.trans hva⟩
    · rintro (⟨hbase, hva⟩ | ⟨hout, -⟩)
      · exact ⟨fun _ => hrange, fun _ => ⟨hbase, (hmod hbase).trans hva⟩⟩
      · exact absurd hrange hout
  · constructor
    · exact fun h => .inr ⟨hrange, fun htest => hrange (h.mp htest)⟩
    · rintro (⟨hbase, hva⟩ | ⟨-, htest⟩)
      · omega
      · exact ⟨fun h => absurd h htest, fun h => absurd h hrange⟩

/-- An address past the range of an enclave that does not begin at 0. -/
theorem testsRange_iff_outside : TestsRange metadataMachine 0x81000 0x1000 0xfff 0 0x2345 false :=
  (testsRange_iff metadataMachine 0x81000 0 0x2345 false (by decide)).mpr (by decide)

/-- The second page is in its range, and the test says that it is not. -/
theorem not_testsRange :
    isValidRange 0x1000 0xfff = true ∧ ¬ (0xfff : Word) + 1 < pageSize ∧
      ¬ TestsRange metadataMachine 0x81000 0x1000 0xfff 0 0x1000 false := by
  refine ⟨by decide, by decide, fun h => ?_⟩
  have htest := (h _ _ (run_isEnclaveVirtualAddress _ _ _ _ _ _ _)).mpr (by decide)
  exact absurd htest (by decide)

end EnclaveInfo

end Sanctum
