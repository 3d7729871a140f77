import Sanctum.Monitor.MetadataSpec
import Sanctum.Monitor.BootInit

/-!
# Copying pages of debug enclaves

`copy_debug_enclave_page` is to move a page between a debug enclave and memory of the OS
(`DebugCopy`). It does copy the page, and touches nothing else, and none of its four checks undoes
the answer of one before. But it does not look at the top of the monitor, the null enclave
ID passes for an enclave whose bitmap is the OS's, and the bit that `read_bitmap_bit` tests is
the right one only below bit 31 of a word. What is proved is that nothing else goes wrong
(`movesDebugOnly_iff`).
-/

namespace Sanctum

namespace DebugCopies

/-! ### Copying a page -/

/-- The page at `target` has what was in the page at `source`, and the rest of memory is as it was. -/
structure PageCopied (m m' : Memory) (source target : Word) : Prop where
  /-- The page. -/
  page : ∀ i < 4096, m' (target + BitVec.ofNat 64 i) = m (source + BitVec.ofNat 64 i)
  /-- The rest. -/
  frame : ∀ b, ¬ Memory.Within target 4096 b → m' b = m b

/-- After `j` words: those have been copied, and the rest of the source is as it was. -/
structure WordsCopied (m m' : Memory) (source target : Word) (j : ℕ) : Prop where
  /-- What has been copied. -/
  copied : ∀ i < 8 * j, m' (target + BitVec.ofNat 64 i) = m (source + BitVec.ofNat 64 i)
  /-- What is to be copied. -/
  left : ∀ i, 8 * j ≤ i → i < 4096 → m' (source + BitVec.ofNat 64 i) = m (source + BitVec.ofNat 64 i)

variable {m m' : Memory} {source target : Word}

/-- A word is copied over nothing that is still to be copied. -/
theorem WordsCopied.step {j : ℕ} (h : WordsCopied m m' source target j) (hj : 8 * j < 4096)
    (hpages : source = target ∨ Memory.Apart source 4096 target 4096) :
    WordsCopied m (m'.store64 (target + BitVec.ofNat 64 (8 * j)) (m'.load64 (source + BitVec.ofNat 64 (8 * j))))
      source target (j + 1) where
  copied i hi := by
    by_cases hlt : i < 8 * j
    · rw [Memory.store64_of_not_within (Memory.not_within_add (.inl hlt) (by omega) (by omega)), h.copied i hlt]
    · obtain ⟨k, rfl⟩ := Nat.exists_eq_add_of_le (Nat.le_of_not_lt hlt)
      rw [BitVec.ofNat_add, ← BitVec.add_assoc, ← BitVec.add_assoc, Memory.store64_load64 _ _ _ _ (by omega),
        BitVec.add_assoc, ← BitVec.ofNat_add, h.left _ (by omega) (by omega)]
  left i h1 h2 := by
    rw [← h.left i (by omega) h2]
    refine Memory.store64_of_not_within ?_
    rcases hpages with rfl | hapart
    · exact Memory.not_within_add (.inr (by omega)) (by omega) (by omega)
    · exact fun hw => hapart _ (Memory.within_add h2 (by omega)) (hw.of_add (by omega) (by omega))

/-- **The copying loop** copies the page, whether the two pages are the same or not. -/
theorem pageCopied_copiedMem (hsource : isPageAligned source = true) (htarget : isPageAligned target = true) :
    PageCopied m (copiedMem m source target) source target where
  page := by
    have hsize : pageSize.toNat / 8 = 512 := by rw [pageSize_eq]; rfl
    have hpages : source = target ∨ Memory.Apart source 4096 target 4096 := by
      by_cases heq : source = target
      · exact .inl heq
      · exact .inr (Memory.apart_of_ne (by decide) (isPageAligned_iff.mp hsource) (isPageAligned_iff.mp htarget) heq)
    have hloop := Prog.iterUp_induction (P := fun j m' => WordsCopied m m' source target j) (n := pageSize.toNat / 8)
      (i := 0) (s := m) ⟨fun i hi => absurd hi (by omega), fun _ _ _ => rfl⟩
      fun j m' _ hj h => h.step (by omega) hpages
    exact fun i hi => hloop.copied i (by omega)
  frame b hb := copiedMem_of_not_within (by rwa [pageSize_eq])

/-! ### The call -/

/-- `copy_debug_enclave_page` has copied a page between an enclave that is open to the OS and
memory of the OS, and done nothing else. -/
structure DebugCopy (g : Globals) (top : Word) (s s' : Machine) (id : EnclaveId) (enclaveAddr osAddr : Word)
    (readFromEnclave : Bool) : Prop where
  /-- The enclave is not the OS. -/
  notNull : id ≠ nullEnclaveId
  /-- It is an enclave. -/
  valid : g.validEnclaveId s id = true
  /-- It is a debug enclave. -/
  debug : s.mem.load64 (enclaveField .isDebug id) ≠ 0
  /-- Its bitmap has the region of the page. -/
  hasRegion : s.mem.bit (enclaveRegionBitmap id) (dramRegionFor g enclaveAddr) = true
  /-- The OS owns the region of the other page. -/
  osOwned : g.region s .owner (dramRegionFor g osAddr) = nullEnclaveId
  /-- That page does not belong to the monitor. -/
  notMonitor : top.toNat ≤ osAddr.toNat
  /-- One page has been copied to the other. -/
  copied : if readFromEnclave then PageCopied s.mem s'.mem enclaveAddr osAddr
    else PageCopied s.mem s'.mem osAddr enclaveAddr
  /-- Memory is all that has changed. -/
  others : s' = { s with mem := s'.mem }

/-- If `copy_debug_enclave_page` returns `monitor_ok`, this is what it has done. -/
def MovesDebugOnly (g : Globals) (top : Word) (s : Machine) (id : EnclaveId) (enclaveAddr osAddr : Word)
    (readFromEnclave : Bool) : Prop :=
  ∀ s', (copyDebugEnclavePage g id enclaveAddr osAddr readFromEnclave).run (exec .code) s = some (.ok, s') →
    DebugCopy g top s s' id enclaveAddr osAddr readFromEnclave

/-- **What `copy_debug_enclave_page` does not check**: that the enclave is not the OS, that the page of
the OS does not belong to the monitor, and, of a region whose bit is not the one that is tested,
whether the enclave has it. -/
theorem movesDebugOnly_iff {g : Globals} {top : Word} {s : Machine} {id : EnclaveId} {enclaveAddr osAddr : Word}
    {readFromEnclave : Bool} :
    MovesDebugOnly g top s id enclaveAddr osAddr readFromEnclave ↔
      (CopyPasses g s id enclaveAddr osAddr → id ≠ nullEnclaveId ∧ top.toNat ≤ osAddr.toNat ∧
        s.mem.bit (enclaveRegionBitmap id) (dramRegionFor g enclaveAddr) = true) := by
  have hspec := copyDebugEnclavePage_spec g s id enclaveAddr osAddr readFromEnclave
  constructor
  · intro h hpass
    have hcopy := h _ (hspec.1 hpass)
    exact ⟨hcopy.notNull, hcopy.notMonitor, hcopy.hasRegion⟩
  · intro h s' hrun
    obtain ⟨-, hpass, rfl⟩ | ⟨hne, -⟩ := hspec.cases hrun
    · obtain ⟨hnull, htop, hbit⟩ := h hpass
      refine ⟨hnull, hpass.valid, hpass.debug, hbit, hpass.osOwned, htop, ?_, rfl⟩
      unfold copiedState
      cases readFromEnclave with
      | false =>
        simp only [Bool.false_eq_true, if_false]
        exact pageCopied_copiedMem hpass.aligned.2 hpass.aligned.1
      | true =>
        simp only [if_true]
        exact pageCopied_copiedMem hpass.aligned.1 hpass.aligned.2
    · exact absurd rfl hne

/-- Two regions of half a megabyte, and 256 cores: the monitor's arrays end at `0x2060`. -/
def manyCores : Config where
  dramBase := 0
  dramSize := 0x100000
  stripePageBits := 7
  regionBits := 1
  bits_lt := by omega
  coreCount := 256
  arrays_fit := by decide

/-- A debug enclave at `0x81000` has region `1`, and the OS has region `0`. -/
def debugMachine : Machine :=
  { blankMachine with
    mem := blankMachine.mem.storeAll [(manyCores.globals.regionField .owner 1, 0x81000),
      (enclaveField .isDebug 0x81000, 1), (enclaveRegionBitmap 0x81000, 2)] }

theorem copyPasses_debugMachine : CopyPasses manyCores.globals debugMachine 0x81000 0x90000 0x1000 where
  aligned := by decide
  inDram := by decide
  unlocked := by decide +kernel
  osUnlocked := by decide +kernel
  valid := by decide +kernel
  osOwned := by decide +kernel
  hasRegion := by decide +kernel
  debug := by decide +kernel

/-- A page of the enclave is copied over the monitor's array of cores. -/
theorem not_movesDebugOnly :
    ¬ MovesDebugOnly manyCores.globals 0x2060 debugMachine 0x81000 0x90000 0x1000 true := fun h =>
  absurd (h _ ((copyDebugEnclavePage_spec _ _ _ _ _ _).1 copyPasses_debugMachine)).notMonitor (by decide)

end DebugCopies

end Sanctum
