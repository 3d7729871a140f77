import Sanctum.Monitor.DramRegions
import Sanctum.Monitor.Measure

/-!
# Metadata regions

The code of `metadata_inl.h` and `metadata.c`, with `init_enclave_info` of
`enclave_inl.h`. A metadata region starts with a map that has an entry for each of
its pages; an enclave's `enclave_info_t` and a thread's `thread_info_t` lie in pages
whose entries say so.

`lock_metadata_region_for` has its parameter `dram_region` by value, so what it
writes there does not reach the caller, whose variable of that name is never set.
Where a caller goes on to use that variable, its content is an argument here
(`unset`, and `lockUnset` for that of `lock_enclave` where the caller has one too).
-/

namespace Sanctum

/-! ### Page map entries -/

/-- `empty_metadata_page_type`. -/
def emptyMetadataPageType : Word := 0

/-- `inner_metadata_page_type`. -/
def innerMetadataPageType : Word := 1

/-- `enclave_metadata_page_type`. -/
def enclaveMetadataPageType : Word := 2

/-- `thread_metadata_page_type`. -/
def threadMetadataPageType : Word := 3

/-- `metadata_page_info`. -/
def metadataPageInfo (owner pageType : Word) : Word := owner ||| pageType

/-- The address of `enclave_info->lock`. -/
def enclaveLock (id : EnclaveId) : Word := id

/-- The address of `thread_metadata->lock`. -/
def threadLock (threadId : Word) : Word := threadId

/-- `thread_metadata->field`. -/
def threadField (f : ThreadField) (threadId : Word) : Word := threadId + f.offset

/-- `thread_info->field` of a `thread_init_info_t`. -/
def threadInitField (f : ThreadField) (threadInfo : Word) : Word := threadInfo + f.initOffset

section Code

variable (g : Globals)

/-! ### `metadata_inl.h` -/

/-- `lock_metadata_region_for`. -/
def lockMetadataRegionFor (physAddr : Word) : Monitor ApiResult := do
  if !isPageAligned physAddr || !isDramAddress g physAddr then return .invalidValue
  let dramRegion := dramRegionFor g physAddr
  if ← testAndSetDramRegionLock g dramRegion then return .concurrentCall
  if (← load64 (g.regionField .owner dramRegion)) != metadataEnclaveId then
    clearDramRegionLock g dramRegion
    return .invalidState
  return .ok

/-- `metadata_page_info_for`. -/
def metadataPageInfoFor (physAddr : Word) : Word :=
  (physAddr &&& g.dramRegionMask) + dramRegionPageFor g physAddr

/-- The first loop of `assign_metadata_pages`: some entry is not empty. -/
def someEntryTaken (pageInfo pageCount : Word) : Monitor (Option Unit) :=
  Prog.findUp (fun i => do
    let info ← load64 (pageInfo + BitVec.ofNat 64 (8 * i))
    return if info ≠ 0 then some () else none) pageCount.toNat 0

/-- The second loop of `assign_metadata_pages`. Its first round writes the entry of the
first page once more. -/
def markInnerEntries (pageInfo pageCount : Word) : Monitor Unit :=
  Prog.forUp (fun i => store64 (pageInfo + BitVec.ofNat 64 (8 * (i - 1))) innerMetadataPageType)
    (pageCount.toNat - 1) 1

/-- `assign_metadata_pages`. The parameter `free_info` is not used. -/
def assignMetadataPages (physAddr pageCount owner type _freeInfo : Word) : Monitor ApiResult := do
  if dramStripePageFor g physAddr + pageCount > g.dramStripePages then return .invalidValue
  let pageInfo := metadataPageInfoFor g physAddr
  if (← someEntryTaken pageInfo pageCount).isSome then return .invalidState
  store64 pageInfo (metadataPageInfo owner type)
  markInnerEntries pageInfo pageCount
  return .ok

/-- `reserve_metadata_pages`. -/
def reserveMetadataPages (physAddr pageCount owner type : Word) : Monitor ApiResult :=
  assignMetadataPages g physAddr pageCount owner type emptyMetadataPageType

/-- `accept_metadata_pages`. -/
def acceptMetadataPages (physAddr pageCount owner type : Word) : Monitor ApiResult :=
  assignMetadataPages g physAddr pageCount owner type (metadataPageInfo owner emptyMetadataPageType)

/-- `lock_enclave`. -/
def lockEnclave (unset : Word) (enclaveId : EnclaveId) : Monitor ApiResult := do
  if !isDramAddress g enclaveId || !isPageAligned enclaveId then return .invalidValue
  let result ← lockMetadataRegionFor g enclaveId
  if result ≠ .ok then return result
  let info ← load64 (metadataPageInfoFor g enclaveId)
  if info ≠ metadataPageInfo enclaveId enclaveMetadataPageType then
    clearDramRegionLock g unset
    return .invalidValue
  if ← testAndSet (enclaveLock enclaveId) then
    clearDramRegionLock g unset
    return .concurrentCall
  clearDramRegionLock g unset
  return .ok

/-- `unlock_enclave`. -/
def unlockEnclave (enclaveId : EnclaveId) : Monitor Unit := clear (enclaveLock enclaveId)

/-- `enclave_mailbox`. -/
def enclaveMailbox (enclaveId : EnclaveId) (mailboxId : Word) : Word :=
  enclaveRegionBitmap enclaveId + 8 * g.dramRegionBitmapWords + mailboxSize * mailboxId

/-- `enclave_info_size`. -/
def enclaveInfoSize (mailboxCount : Word) : Word := enclaveMailbox g 0 mailboxCount

/-- `enclave_info_pages`. -/
def enclaveInfoPages (mailboxCount : Word) : Word := pagesNeededFor (enclaveInfoSize g mailboxCount)

/-- `thread_metadata_pages`. -/
def threadMetadataPages : Word := pagesNeededFor threadMetadataSize

/-! ### `enclave_inl.h` -/

/-- `init_enclave_info`. -/
def initEnclaveInfo (enclaveInfo evBase evMask mailboxCount : Word) (debug : Bool) : Monitor Unit := do
  clear (enclaveLock enclaveInfo)
  store64 (enclaveField .mailboxCount enclaveInfo) mailboxCount
  store64 (enclaveField .isInitialized enclaveInfo) 0
  store64 (enclaveField .isDebug enclaveInfo) (boolWord debug)
  store64 (enclaveField .evBase enclaveInfo) evBase
  store64 (enclaveField .evMask enclaveInfo) evMask
  store64 (enclaveField .loadEptbr enclaveInfo) 0
  store64 (enclaveField .lastLoadAddr enclaveInfo) 0
  store64 (enclaveField .threadCount enclaveInfo) 0
  store64 (enclaveField .dramRegionCount enclaveInfo) 0
  initEnclaveHash enclaveInfo evBase evMask mailboxCount debug

/-! ### `metadata.c` -/

/-- `create_enclave`. -/
def createEnclave (unset : Word) (enclaveId : EnclaveId) (evBase evMask mailboxCount : Word) (debug : Bool) :
    Monitor ApiResult := do
  if !isValidRange evBase evMask then return .invalidValue
  if evMask + 1 < pageSize then return .invalidValue
  let result ← lockMetadataRegionFor g enclaveId
  if result ≠ .ok then return result
  if (← load64 (g.regionField .owner unset)) != metadataEnclaveId then
    clearDramRegionLock g unset
    return .invalidValue
  let result ← reserveMetadataPages g enclaveId (enclaveInfoPages g mailboxCount) enclaveId enclaveMetadataPageType
  if result ≠ .ok then
    clearDramRegionLock g unset
    return result
  initEnclaveInfo enclaveId evBase evMask mailboxCount debug
  clearDramRegionLock g unset
  return .ok

/-- `assign_thread`. The pages it reserves are those of the enclave. -/
def assignThread (lockUnset unset : Word) (enclaveId : EnclaveId) (threadId : Word) : Monitor ApiResult := do
  let result ← lockEnclave g lockUnset enclaveId
  if result ≠ .ok then return result
  let result ← lockMetadataRegionFor g threadId
  if result ≠ .ok then
    unlockEnclave enclaveId
    return result
  let result ←
    if (← load64 (enclaveField .isInitialized enclaveId)) ≠ 0 then
      reserveMetadataPages g enclaveId threadMetadataPages enclaveId threadMetadataPageType
    else pure .invalidState
  if result ≠ .ok then
    clearDramRegionLock g unset
    unlockEnclave enclaveId
    return result
  let threadCount ← load64 (enclaveField .threadCount enclaveId)
  store64 (enclaveField .threadCount enclaveId) (threadCount + 1)
  clearDramRegionLock g unset
  unlockEnclave enclaveId
  return .ok

/-- What `load_thread` does once the pages are reserved. -/
def initThread (enclaveId : EnclaveId) (threadId entryPc entryStack faultPc faultStack : Word) : Monitor Unit := do
  let threadCount ← load64 (enclaveField .threadCount enclaveId)
  store64 (enclaveField .threadCount enclaveId) (threadCount + 1)
  clear (threadLock threadId)
  store64 (threadField .entryPc threadId) entryPc
  store64 (threadField .entryStack threadId) entryStack
  store64 (threadField .faultPc threadId) faultPc
  store64 (threadField .faultStack threadId) faultStack
  let loadEptbr ← load64 (enclaveField .loadEptbr enclaveId)
  store64 (threadField .eptbr threadId) loadEptbr
  extendEnclaveHashWithThread enclaveId entryPc entryStack faultPc faultStack

/-- `load_thread`. The pages it reserves are those of the enclave. -/
def loadThread (lockUnset unset : Word) (enclaveId : EnclaveId)
    (threadId entryPc entryStack faultPc faultStack : Word) :
    Monitor ApiResult := do
  let result ← lockEnclave g lockUnset enclaveId
  if result ≠ .ok then return result
  let result ← lockMetadataRegionFor g threadId
  if result ≠ .ok then
    unlockEnclave enclaveId
    return result
  let isInitialized ← load64 (enclaveField .isInitialized enclaveId)
  let unloaded ← andThen (isInitialized == 0) (do
    return (← load64 (enclaveField .loadEptbr enclaveId)) != 0)
  let result ←
    if unloaded then reserveMetadataPages g enclaveId threadMetadataPages enclaveId threadMetadataPageType
    else pure .invalidState
  if result ≠ .ok then
    clearDramRegionLock g unset
    unlockEnclave enclaveId
    return result
  initThread enclaveId threadId entryPc entryStack faultPc faultStack
  clearDramRegionLock g unset
  unlockEnclave enclaveId
  return .ok

/-- `accept_thread`, called on core `core`. The lock it takes first is that of the region
with the number `threadInfoAddr`. -/
def acceptThread (core threadId threadInfoAddr : Word) : Monitor ApiResult := do
  if !isDramAddress g threadInfoAddr || !isPageAligned threadInfoAddr then return .invalidValue
  let enclaveId ← currentEnclave g core
  let threadDramRegion := dramRegionFor g threadInfoAddr
  if ← testAndSetDramRegionLock g threadInfoAddr then return .concurrentCall
  if (← readDramRegionOwner g threadDramRegion) != enclaveId then
    clearDramRegionLock g threadDramRegion
    return .invalidValue
  let enclaveDramRegion := dramRegionFor g enclaveId
  if ← testAndSetDramRegionLock g enclaveDramRegion then
    clearDramRegionLock g threadDramRegion
    return .concurrentCall
  let result ← acceptMetadataPages g threadId threadMetadataPages enclaveId threadMetadataPageType
  if result ≠ .ok then
    clearDramRegionLock g enclaveDramRegion
    clearDramRegionLock g threadDramRegion
    return result
  clear (threadLock threadId)
  let entryPc ← load64 (threadInitField .entryPc threadInfoAddr)
  let entryStack ← load64 (threadInitField .entryStack threadInfoAddr)
  let faultPc ← load64 (threadInitField .faultPc threadInfoAddr)
  let faultStack ← load64 (threadInitField .faultStack threadInfoAddr)
  let eptbr ← load64 (threadInitField .eptbr threadInfoAddr)
  store64 (threadField .entryPc threadId) entryPc
  store64 (threadField .entryStack threadId) entryStack
  store64 (threadField .faultPc threadId) faultPc
  store64 (threadField .faultStack threadId) faultStack
  store64 (threadField .eptbr threadId) eptbr
  clearDramRegionLock g enclaveDramRegion
  clearDramRegionLock g threadDramRegion
  return .ok

end Code

end Sanctum
