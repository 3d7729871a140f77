import Sanctum.Machine.Memory
import Sanctum.Machine.Prog
import Mathlib.Logic.Function.Basic

/-!
# The machine the monitor runs on

The monitor's view of the hardware, and of the hashing library it is linked with:
physical memory, the Sanctum control registers, the TLBs, and the hash states it
has the library keep. The monitor's code is a program (`Monitor`) over the
interface `hardware`; `exec` gives the questions their meaning.

Physical memory is one byte array. Everything the monitor keeps in memory (its
own arrays, the metadata structures of enclaves and threads, the page maps) lies
in it at the addresses the code computes, so a store through a wrong address does
what it would do on the machine.

## The two readings of a lock

`atomic_flag_test_and_set(atomic_flag f)` and `atomic_flag_clear(atomic_flag f)`
take the flag *by value*: what they set and clear is the callee's copy. This is
`LockReading.code`. `LockReading.documented` is what their comments say, an
operation on the flag in memory.

## The hashing library

`init_hash`, `extend_hash` and `finalize_hash` are not part of the source. A hash
state is known by its address, and what is kept of it is the list of the 64-byte
blocks it has been extended by.
-/

namespace Sanctum

/-- The Sanctum control registers the monitor writes. -/
inductive Csr where
  /-- `0x7c3`, the DRAM region bitmap. -/
  | drbMap
  /-- `0x7c4`, the enclave DRAM region bitmap. -/
  | edrbMap
  /-- `0x7c5`, the protected address range's base. -/
  | parBase
  /-- `0x7c6`, the protected address range's mask. -/
  | parMask
  deriving DecidableEq

/-- The bytes of a hash block, `hash_block_size` of them. -/
abbrev HashBlock := Fin 64 → Byte

/-- A hash state of the hashing library: what it has been extended by, and whether
it is finalized. -/
structure HashState where
  /-- The blocks, oldest first. -/
  blocks : List HashBlock
  /-- Nothing is added any more. -/
  finalized : Bool

/-- The state of the machine. -/
@[ext]
structure Machine where
  /-- Physical memory. -/
  mem : Memory
  /-- `g_dma_range_start`. -/
  dmaRangeStart : Word
  /-- `g_dma_range_end`. -/
  dmaRangeEnd : Word
  /-- The control registers. -/
  csr : Csr → Word
  /-- The hash states, by address. -/
  hash : Word → HashState
  /-- How often each core has flushed its TLBs. -/
  tlbFlushes : Word → ℕ

/-! ### The interface -/

/-- What the monitor's code asks of the machine. -/
inductive HwOp where
  /-- Load a 64-bit word. -/
  | load64 (a : Word)
  /-- Load a 32-bit word. -/
  | load32 (a : Word)
  /-- Store a 64-bit word. -/
  | store64 (a v : Word)
  /-- `memset` of `n` bytes to zero. -/
  | bzero (a : Word) (n : ℕ)
  /-- `__sync_fetch_and_add`. -/
  | fetchAdd (a v : Word)
  /-- `atomic_flag_test_and_set` of the flag at `a`. -/
  | testAndSet (a : Word)
  /-- `atomic_flag_clear` of the flag at `a`. -/
  | clear (a : Word)
  /-- Read `g_dma_range_start` and `g_dma_range_end`. -/
  | readDmaRange
  /-- Write `g_dma_range_start` and `g_dma_range_end`. -/
  | writeDmaRange (first last : Word)
  /-- Write a control register. -/
  | writeCsr (c : Csr) (v : Word)
  /-- `sfence.vma` on a core. -/
  | sfenceVma (core : Word)
  /-- `init_hash`. -/
  | initHash (h : Word)
  /-- `extend_hash` by the block at `block`. -/
  | extendHash (h block : Word)
  /-- `finalize_hash`. -/
  | finalizeHash (h : Word)
  /-- `while (true) {}`. -/
  | spin

/-- The kind of answer each operation gets. -/
def HwOp.Answer : HwOp → Type
  | load64 _ | fetchAdd _ _ => Word
  | load32 _ => BitVec 32
  | testAndSet _ => Bool
  | readDmaRange => Word × Word
  | spin => Empty
  | _ => Unit

/-- The interface between the monitor and the machine. -/
@[reducible] def hardware : Interface := ⟨HwOp, HwOp.Answer⟩

/-- A piece of the monitor's code. -/
abbrev Monitor := Prog hardware

/-! ### Atomic flags -/

/-- `atomic_flag_test_and_set`: the value of the flag passed in, and what becomes of
the callee's parameter. -/
def atomicFlagTestAndSet (f : BitVec 32) : Bool × BitVec 32 := (f != 0, 1)

/-- `atomic_flag_clear`: what becomes of the callee's parameter. -/
def atomicFlagClear (_ : BitVec 32) : BitVec 32 := 0

/-- How a flag reaches `atomic_flag_test_and_set` and `atomic_flag_clear`. -/
inductive LockReading where
  /-- By value, as the code has it: the callee's parameter is a copy. -/
  | code
  /-- As the comments have it: the callee's parameter is the flag in memory. -/
  | documented

/-- Memory after a call that changes its parameter, a copy of or the flag at `a`, to `f`. -/
def LockReading.writeBack (r : LockReading) (m : Memory) (a : Word) (f : BitVec 32) : Memory :=
  match r with
  | .code => m
  | .documented => m.store32 a f

/-! ### The meaning of the operations -/

/-- The block in memory at `a`. -/
def Memory.hashBlock (m : Memory) (a : Word) : HashBlock := fun i => m (a + BitVec.ofNat 64 i)

/-- What each operation does. -/
def exec (r : LockReading) : Handler hardware Machine
  | .load64 a, s => some (s.mem.load64 a, s)
  | .load32 a, s => some (s.mem.load32 a, s)
  | .store64 a v, s => some ((), { s with mem := s.mem.store64 a v })
  | .bzero a n, s => some ((), { s with mem := s.mem.zeroed a n })
  | .fetchAdd a v, s => some (s.mem.load64 a, { s with mem := s.mem.store64 a (s.mem.load64 a + v) })
  | .testAndSet a, s =>
    let (old, f) := atomicFlagTestAndSet (s.mem.load32 a)
    some (old, { s with mem := r.writeBack s.mem a f })
  | .clear a, s => some ((), { s with mem := r.writeBack s.mem a (atomicFlagClear (s.mem.load32 a)) })
  | .readDmaRange, s => some ((s.dmaRangeStart, s.dmaRangeEnd), s)
  | .writeDmaRange first last, s => some ((), { s with dmaRangeStart := first, dmaRangeEnd := last })
  | .writeCsr c v, s => some ((), { s with csr := Function.update s.csr c v })
  | .sfenceVma core, s =>
    some ((), { s with tlbFlushes := Function.update s.tlbFlushes core (s.tlbFlushes core + 1) })
  | .initHash h, s => some ((), { s with hash := Function.update s.hash h ⟨[], false⟩ })
  | .extendHash h block, s =>
    let st := s.hash h
    some ((), { s with hash := Function.update s.hash h ⟨st.blocks ++ [s.mem.hashBlock block], st.finalized⟩ })
  | .finalizeHash h, s => some ((), { s with hash := Function.update s.hash h ⟨(s.hash h).blocks, true⟩ })
  | .spin, _ => none

/-! ### The operations as code -/

section Operations

/-- A 64-bit load. -/
def load64 (a : Word) : Monitor Word := Prog.request (I := hardware) (.load64 a)

/-- A 32-bit load. -/
def load32 (a : Word) : Monitor (BitVec 32) := Prog.request (I := hardware) (.load32 a)

/-- A 64-bit store. -/
def store64 (a v : Word) : Monitor Unit := Prog.request (I := hardware) (.store64 a v)

/-- `bzero`. -/
def bzero (a : Word) (n : ℕ) : Monitor Unit := Prog.request (I := hardware) (.bzero a n)

/-- `atomic_load`. -/
def atomicLoad (object : Word) : Monitor Word := load64 object

/-- `atomic_store`. -/
def atomicStore (object value : Word) : Monitor Unit := store64 object value

/-- `atomic_init`. -/
def atomicInit (object value : Word) : Monitor Unit := store64 object value

/-- `atomic_fetch_add`. -/
def atomicFetchAdd (object value : Word) : Monitor Word := Prog.request (I := hardware) (.fetchAdd object value)

/-- `atomic_flag_test_and_set`, of the flag at `flag`. -/
def testAndSet (flag : Word) : Monitor Bool := Prog.request (I := hardware) (.testAndSet flag)

/-- `atomic_flag_clear`, of the flag at `flag`. -/
def clear (flag : Word) : Monitor Unit := Prog.request (I := hardware) (.clear flag)

/-- Read `g_dma_range_start` and `g_dma_range_end`. -/
def readDmaRange : Monitor (Word × Word) := Prog.request (I := hardware) .readDmaRange

/-- Write `g_dma_range_start` and `g_dma_range_end`. -/
def writeDmaRange (first last : Word) : Monitor Unit :=
  Prog.request (I := hardware) (.writeDmaRange first last)

/-- Write a control register. -/
def writeCsr (c : Csr) (v : Word) : Monitor Unit := Prog.request (I := hardware) (.writeCsr c v)

/-- `flush_tlbs`, on core `core`. -/
def flushTlbs (core : Word) : Monitor Unit := Prog.request (I := hardware) (.sfenceVma core)

/-- `init_hash`. -/
def initHash (h : Word) : Monitor Unit := Prog.request (I := hardware) (.initHash h)

/-- `extend_hash`. -/
def extendHash (h block : Word) : Monitor Unit := Prog.request (I := hardware) (.extendHash h block)

/-- `finalize_hash`. -/
def finalizeHash (h : Word) : Monitor Unit := Prog.request (I := hardware) (.finalizeHash h)

/-- A loop that never ends. -/
def spin {α : Type} : Monitor α := .ask (I := hardware) .spin nofun

/-- `set_drb_map`: load the register from memory. -/
def setDrbMap (physAddr : Word) : Monitor Unit := do writeCsr .drbMap (← load64 physAddr)

/-- `set_edrb_map`: load the register from memory. -/
def setEdrbMap (physAddr : Word) : Monitor Unit := do writeCsr .edrbMap (← load64 physAddr)

end Operations

/-! ### Running the operations -/

section Run

variable (r : LockReading) (s : Machine)

@[simp] theorem run_load64 (a : Word) : (load64 a).run (exec r) s = some (s.mem.load64 a, s) := rfl

@[simp] theorem run_load32 (a : Word) : (load32 a).run (exec r) s = some (s.mem.load32 a, s) := rfl

@[simp] theorem run_store64 (a v : Word) :
    (store64 a v).run (exec r) s = some ((), { s with mem := s.mem.store64 a v }) := rfl

@[simp] theorem run_bzero (a : Word) (n : ℕ) :
    (bzero a n).run (exec r) s = some ((), { s with mem := s.mem.zeroed a n }) := rfl

@[simp] theorem run_atomicLoad (a : Word) :
    (atomicLoad a).run (exec r) s = some (s.mem.load64 a, s) := rfl

@[simp] theorem run_atomicStore (a v : Word) :
    (atomicStore a v).run (exec r) s = some ((), { s with mem := s.mem.store64 a v }) := rfl

@[simp] theorem run_atomicInit (a v : Word) :
    (atomicInit a v).run (exec r) s = some ((), { s with mem := s.mem.store64 a v }) := rfl

@[simp] theorem run_atomicFetchAdd (a v : Word) :
    (atomicFetchAdd a v).run (exec r) s =
      some (s.mem.load64 a, { s with mem := s.mem.store64 a (s.mem.load64 a + v) }) := rfl

@[simp] theorem run_readDmaRange :
    readDmaRange.run (exec r) s = some ((s.dmaRangeStart, s.dmaRangeEnd), s) := rfl

@[simp] theorem run_writeDmaRange (first last : Word) :
    (writeDmaRange first last).run (exec r) s =
      some ((), { s with dmaRangeStart := first, dmaRangeEnd := last }) := rfl

@[simp] theorem run_writeCsr (c : Csr) (v : Word) :
    (writeCsr c v).run (exec r) s = some ((), { s with csr := Function.update s.csr c v }) := rfl

@[simp] theorem run_flushTlbs (core : Word) :
    (flushTlbs core).run (exec r) s =
      some ((), { s with tlbFlushes := Function.update s.tlbFlushes core (s.tlbFlushes core + 1) }) := rfl

@[simp] theorem run_initHash (h : Word) :
    (initHash h).run (exec r) s = some ((), { s with hash := Function.update s.hash h ⟨[], false⟩ }) := rfl

@[simp] theorem run_extendHash (h block : Word) :
    (extendHash h block).run (exec r) s =
      some ((), { s with
        hash := Function.update s.hash h
          ⟨(s.hash h).blocks ++ [s.mem.hashBlock block], (s.hash h).finalized⟩ }) := rfl

@[simp] theorem run_finalizeHash (h : Word) :
    (finalizeHash h).run (exec r) s =
      some ((), { s with hash := Function.update s.hash h ⟨(s.hash h).blocks, true⟩ }) := rfl

@[simp] theorem run_spin {α : Type} : (spin : Monitor α).run (exec r) s = none := rfl

@[simp] theorem run_setDrbMap (a : Word) :
    (setDrbMap a).run (exec r) s =
      some ((), { s with csr := Function.update s.csr .drbMap (s.mem.load64 a) }) := rfl

@[simp] theorem run_setEdrbMap (a : Word) :
    (setEdrbMap a).run (exec r) s =
      some ((), { s with csr := Function.update s.csr .edrbMap (s.mem.load64 a) }) := rfl

/-- A counting loop whose rounds change memory only. -/
theorem run_forUp_mem {body : ℕ → Monitor Unit} {f : ℕ → Memory → Memory}
    (hb : ∀ i s, (body i).run (exec r) s = some ((), { s with mem := f i s.mem })) (n i : ℕ) :
    (Prog.forUp body n i).run (exec r) s = some ((), { s with mem := Prog.iterUp f n i s.mem }) := by
  induction n generalizing i s with
  | zero => rfl
  | succ n ih => rw [Prog.forUp, Prog.run_bind, hb, Option.bind_some, ih, Prog.iterUp]

/-- A flag passed by value is read, and that is all. -/
@[simp] theorem run_testAndSet_code (a : Word) :
    (testAndSet a).run (exec .code) s = some (s.mem.load32 a != 0, s) := rfl

/-- Nothing happens to a flag passed by value. -/
@[simp] theorem run_clear_code (a : Word) : (clear a).run (exec .code) s = some ((), s) := rfl

end Run

end Sanctum
