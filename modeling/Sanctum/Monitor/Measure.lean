import Sanctum.Monitor.State

/-!
# Measuring an enclave

The code of `measure_inl.h`. An enclave's measurement is a hash that every loading
operation extends by a block put together in `enclave_info->hash_block`, and page
loading by the page too. A function here is given the address of the
`enclave_info_t`.
-/

namespace Sanctum

/-- The fields of `measurement_block_t`. -/
inductive BlockField where
  /-- `opcode`. -/
  | opcode
  /-- `ptr1`. -/
  | ptr1
  /-- `ptr2`. -/
  | ptr2
  /-- `ptr3`. -/
  | ptr3
  /-- `ptr4`. -/
  | ptr4
  /-- `size1`. -/
  | size1
  /-- `size2`. -/
  | size2
  deriving DecidableEq

/-- Where the field is in the block, in words. -/
def BlockField.index : BlockField → ℕ
  | opcode => 0 | ptr1 => 1 | ptr2 => 2 | ptr3 => 3 | ptr4 => 4 | size1 => 5 | size2 => 6

/-- `enclave_measurement_block(enclave_info)->field`. -/
def blockField (f : BlockField) (enclaveInfo : Word) : Word :=
  enclaveHashBlock enclaveInfo + BitVec.ofNat 64 (8 * f.index)

/-- `hash_block_size`. -/
def hashBlockSize : ℕ := 64

/-! ### Opcodes -/

/-- `enclave_init_opcode`. -/
def enclaveInitOpcode : Word := 0xAAAAAAAA

/-- `load_page_table_opcode`. -/
def loadPageTableOpcode : Word := 0xBBBBBBBB

/-- `load_page_opcode`. -/
def loadPageOpcode : Word := 0xCCCCCCCC

/-- `load_thread_opcode`. -/
def loadThreadOpcode : Word := 0xDDDDDDDD

/-- `finalize_enclave_opcode`. -/
def finalizeEnclaveOpcode : Word := 0xEEEEEEEE

/-! ### Operations -/

/-- A `bool` as a `size_t`. -/
def boolWord (b : Bool) : Word := if b then 1 else 0

/-- `init_enclave_hash`. -/
def initEnclaveHash (enclaveInfo evBase evMask mailboxCount : Word) (debug : Bool) : Monitor Unit := do
  bzero (enclaveHashBlock enclaveInfo) hashBlockSize
  initHash (enclaveHash enclaveInfo)
  store64 (blockField .opcode enclaveInfo) enclaveInitOpcode
  store64 (blockField .ptr1 enclaveInfo) evBase
  store64 (blockField .ptr2 enclaveInfo) evMask
  store64 (blockField .size1 enclaveInfo) mailboxCount
  store64 (blockField .size2 enclaveInfo) (boolWord debug)
  extendHash (enclaveHash enclaveInfo) (enclaveHashBlock enclaveInfo)
  store64 (blockField .ptr1 enclaveInfo) 0
  store64 (blockField .ptr2 enclaveInfo) 0
  store64 (blockField .size1 enclaveInfo) 0
  store64 (blockField .size2 enclaveInfo) 0

/-- `extend_enclave_hash_with_page_table`. -/
def extendEnclaveHashWithPageTable (enclaveInfo virtualAddr level acl : Word) : Monitor Unit := do
  store64 (blockField .opcode enclaveInfo) loadPageTableOpcode
  store64 (blockField .ptr1 enclaveInfo) virtualAddr
  store64 (blockField .ptr2 enclaveInfo) acl
  store64 (blockField .size1 enclaveInfo) level
  extendHash (enclaveHash enclaveInfo) (enclaveHashBlock enclaveInfo)
  store64 (blockField .ptr1 enclaveInfo) 0
  store64 (blockField .ptr2 enclaveInfo) 0
  store64 (blockField .size1 enclaveInfo) 0

/-- `extend_enclave_hash_with_page`. The page is hashed block by block until the pointer
has gone from `physAddr` to `physAddr + page_size()`. -/
def extendEnclaveHashWithPage (enclaveInfo virtualAddr acl physAddr : Word) : Monitor Unit := do
  store64 (blockField .opcode enclaveInfo) loadPageOpcode
  store64 (blockField .ptr1 enclaveInfo) virtualAddr
  store64 (blockField .ptr2 enclaveInfo) acl
  extendHash (enclaveHash enclaveInfo) (enclaveHashBlock enclaveInfo)
  store64 (blockField .ptr1 enclaveInfo) 0
  store64 (blockField .ptr2 enclaveInfo) 0
  Prog.forUp (fun i => extendHash (enclaveHash enclaveInfo) (physAddr + BitVec.ofNat 64 (hashBlockSize * i)))
    (pageSize.toNat / hashBlockSize) 0

/-- `extend_enclave_hash_with_thread`. -/
def extendEnclaveHashWithThread (enclaveInfo entryPc entryStack faultPc faultStack : Word) : Monitor Unit := do
  store64 (blockField .opcode enclaveInfo) loadThreadOpcode
  store64 (blockField .ptr1 enclaveInfo) entryPc
  store64 (blockField .ptr2 enclaveInfo) entryStack
  store64 (blockField .ptr3 enclaveInfo) faultPc
  store64 (blockField .ptr4 enclaveInfo) faultStack
  extendHash (enclaveHash enclaveInfo) (enclaveHashBlock enclaveInfo)
  store64 (blockField .ptr1 enclaveInfo) 0
  store64 (blockField .ptr2 enclaveInfo) 0
  store64 (blockField .ptr3 enclaveInfo) 0
  store64 (blockField .ptr4 enclaveInfo) 0

/-- `finalize_enclave_hash`. -/
def finalizeEnclaveHash (enclaveInfo : Word) : Monitor Unit := do
  store64 (blockField .opcode enclaveInfo) finalizeEnclaveOpcode
  extendHash (enclaveHash enclaveInfo) (enclaveHashBlock enclaveInfo)
  finalizeHash (enclaveHash enclaveInfo)

end Sanctum
