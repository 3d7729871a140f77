import Sanctum.Monitor.Metadata
import Sanctum.Arch.PageTables

/-!
# Enclaves

The code of `enclave.c` and `enclave_init.c`, without what is commented out there.

Each of these calls but `copy_debug_enclave_page` begins by locking the region of the
enclave ID it is given and checking the ID with `is_valid_enclave_id`: `validated` is
that beginning.
-/

namespace Sanctum

section Code

variable (g : Globals)

/-- Lock the region of an enclave ID, check the ID, and go on; the region's lock is
cleared in the end. -/
def validated (enclaveId : EnclaveId) (body : Monitor ApiResult) : Monitor ApiResult := do
  let dramRegion := clampedDramRegionFor g enclaveId
  if ← testAndSetDramRegionLock g dramRegion then return .concurrentCall
  if ← (if enclaveId = nullEnclaveId then pure true else do return !(← isValidEnclaveId g enclaveId)) then
    clearDramRegionLock g dramRegion
    return .invalidValue
  let result ← body
  clearDramRegionLock g dramRegion
  return result

/-! ### `enclave_init.c` -/

/-- `is_enclave_virtual_address`. -/
def isEnclaveVirtualAddress (virtualAddr : Word) (enclaveId : EnclaveId) : Monitor Bool := do
  let evMask ← load64 (enclaveField .evMask enclaveId)
  let evBase ← load64 (enclaveField .evBase enclaveId)
  return virtualAddr &&& evMask == evBase

/-- `load_page_table`. -/
def loadPageTable (enclaveId : EnclaveId) (physAddr virtualAddr level _acl : Word) : Monitor ApiResult := do
  if !isDramAddress g physAddr then return .invalidValue
  if !isPageAligned physAddr then return .invalidValue
  if level ≥ pageTableLevels then return .invalidValue
  validated g enclaveId do
    if (← load64 (enclaveField .isInitialized enclaveId)) ≠ 0 then return .invalidState
    if physAddr ≤ (← load64 (enclaveField .lastLoadAddr enclaveId)) then return .invalidValue
    if ← andThen (level != pageTableLevels - 1) (do
        return !(← isEnclaveVirtualAddress virtualAddr enclaveId)) then return .invalidValue
    return .ok

/-- `load_page`. -/
def loadPage (enclaveId : EnclaveId) (physAddr virtualAddr osAddr _acl : Word) : Monitor ApiResult := do
  if !isDramAddress g physAddr || !isDramAddress g osAddr then return .invalidValue
  if !isPageAligned physAddr || !isPageAligned osAddr then return .invalidValue
  validated g enclaveId do
    if (← load64 (enclaveField .isInitialized enclaveId)) ≠ 0 then return .invalidState
    if physAddr ≤ (← load64 (enclaveField .lastLoadAddr enclaveId)) then return .invalidValue
    if !(← isEnclaveVirtualAddress virtualAddr enclaveId) then return .invalidValue
    return .ok

/-- `init_enclave`. -/
def initEnclave (enclaveId : EnclaveId) : Monitor ApiResult :=
  validated g enclaveId do
    if (← load64 (enclaveField .isInitialized enclaveId)) ≠ 0 then return .invalidState
    finalizeEnclaveHash enclaveId
    store64 (enclaveField .isInitialized enclaveId) 1
    return .ok

/-! ### `enclave.c` -/

/-- The first loop of `delete_enclave`: the first region of the enclave, its main region
apart, that is locked. -/
def deleteEnclaveLock (regionBitmap dramRegion : Word) : Monitor (Option ℕ) :=
  Prog.findUp (fun i => do
    let r := BitVec.ofNat 64 i
    if r = dramRegion then return none
    if !(← readBitmapBit regionBitmap r) then return none
    if ← testAndSetDramRegionLock g r then return some i
    return none) g.dramRegionCount.toNat 0

/-- The unlocking loops of `delete_enclave`. -/
def deleteEnclaveUnlock (regionBitmap dramRegion : Word) (n : ℕ) : Monitor Unit :=
  Prog.forUp (fun i => do
    let r := BitVec.ofNat 64 i
    if r = dramRegion then return ()
    if !(← readBitmapBit regionBitmap r) then return ()
    clearDramRegionLock g r) n 0

/-- The freeing loop of `delete_enclave`. The bit it tests is that of `regionIterator`,
where the first loop has ended. -/
def deleteEnclaveFree (regionBitmap regionIterator : Word) : Monitor Unit :=
  Prog.forUp (fun i => do
    let r := BitVec.ofNat 64 i
    if !(← readBitmapBit regionBitmap regionIterator) then return ()
    store64 (g.regionField .owner r) freeEnclaveId
    store64 (g.regionField .pinnedPages r) 0
    bzeroDramRegion g r) g.dramRegionCount.toNat 0

/-- `delete_enclave`. -/
def deleteEnclave (enclaveId : EnclaveId) : Monitor ApiResult :=
  validated g enclaveId do
    let dramRegion := clampedDramRegionFor g enclaveId
    if (← load64 (enclaveField .threadCount enclaveId)) ≠ 0 then return .invalidState
    let regionBitmap := enclaveRegionBitmap enclaveId
    match ← deleteEnclaveLock g regionBitmap dramRegion with
    | some regionIterator =>
      deleteEnclaveUnlock g regionBitmap dramRegion regionIterator
      return .concurrentCall
    | none =>
      deleteEnclaveFree g regionBitmap g.dramRegionCount
      deleteEnclaveUnlock g regionBitmap dramRegion g.dramRegionCount.toNat
      return .ok

/-- `enter_enclave`. -/
def enterEnclave (enclaveId : EnclaveId) (_threadId : Word) : Monitor ApiResult :=
  validated g enclaveId do
    if (← load64 (enclaveField .isInitialized enclaveId)) = 0 then return .invalidState
    return .ok

/-- `read_enclave_region_bitmap_bit`. -/
def readEnclaveRegionBitmapBit (enclaveId : EnclaveId) (dramRegion : Word) : Monitor Bool :=
  if enclaveId = nullEnclaveId then readBitmapBit g.osRegionBitmap dramRegion
  else readBitmapBit (enclaveRegionBitmap enclaveId) dramRegion

/-- The copying loop of `copy_debug_enclave_page`, word by word. -/
def copyPage (source target : Word) : Monitor Unit :=
  Prog.forUp (fun i => do
    let w ← load64 (source + BitVec.ofNat 64 (8 * i))
    store64 (target + BitVec.ofNat 64 (8 * i)) w) (pageSize.toNat / 8) 0

/-- The result `copy_debug_enclave_page` decides on: every check is made, and the last
one that fails counts. -/
def copyDebugResult (enclaveId enclaveOwner osOwner : EnclaveId) (hasRegion : Bool) (isDebug : Word) : ApiResult :=
  if isDebug = 0 then .invalidState
  else if enclaveOwner ≠ enclaveId ∨ osOwner ≠ nullEnclaveId ∨ hasRegion = false then .invalidValue
  else .ok

/-- `copy_debug_enclave_page`. -/
def copyDebugEnclavePage (enclaveId : EnclaveId) (enclaveAddr osAddr : Word) (readFromEnclave : Bool) :
    Monitor ApiResult := do
  if !isPageAligned enclaveAddr || !isPageAligned osAddr then return .invalidValue
  if !isDramAddress g enclaveAddr || !isDramAddress g osAddr then return .invalidValue
  let enclaveDramRegion := clampedDramRegionFor g enclaveId
  let enclaveAddrDramRegion := dramRegionFor g enclaveAddr
  let osAddrDramRegion := dramRegionFor g osAddr
  if ← testAndSetDramRegionLock g enclaveDramRegion then return .concurrentCall
  if ← testAndSetDramRegionLock g osAddrDramRegion then
    clearDramRegionLock g enclaveDramRegion
    return .concurrentCall
  let enclaveOwner ← readDramRegionOwner g enclaveDramRegion
  let osOwner ← readDramRegionOwner g osAddrDramRegion
  let hasRegion ← readEnclaveRegionBitmapBit g enclaveId enclaveAddrDramRegion
  let isDebug ← load64 (enclaveField .isDebug enclaveId)
  let result := copyDebugResult enclaveId enclaveOwner osOwner hasRegion isDebug
  if result = .ok then
    if readFromEnclave then copyPage enclaveAddr osAddr else copyPage osAddr enclaveAddr
  clearDramRegionLock g osAddrDramRegion
  clearDramRegionLock g enclaveDramRegion
  return result

/-- `delete_thread`, called on core `core`. -/
def deleteThread (core _threadId : Word) : Monitor ApiResult := do
  let enclaveId ← currentEnclave g core
  let dramRegion := dramRegionFor g enclaveId
  if ← testAndSetDramRegionLock g dramRegion then return .concurrentCall
  clearDramRegionLock g dramRegion
  return .ok

/-- `exit_enclave`, called on core `core`. -/
def exitEnclave (core : Word) : Monitor ApiResult := do
  let _enclaveId ← load64 (g.coreField .enclaveId core)
  let _threadId ← load64 (g.coreField .threadId core)
  let _privateThread ← load64 (g.coreField .thread core)
  return .ok

end Code

end Sanctum
