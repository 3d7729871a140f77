import Sanctum.Monitor.State

/-!
# DRAM regions

The code of `dram_regions_inl.h` and `dram_regions.c`, with the helpers of
`metadata_inl.h` and `cpu_core_inl.h` it calls. What a call does as a whole is
proved in `Sanctum.Monitor.DramRegionsSpec`.

A function that asks `current_core()` has the core as an argument. `set_dmar_base`
and `set_dmar_mask` have empty bodies ("this implementation does not assume DMA"),
so `set_dma_range` writes its two variables and no register.

Two loops count in machine words and need not end: over the stripes of a region, and
over the stripes of a DMA range. They are run for at most `2 ^ 64` rounds, after
which the words have come back to a value they had before, and the call never
returns.
-/

namespace Sanctum

/-! ### Results -/

/-- `api_result_t`. `monitor_async_exit` and `monitor_access_denied` are the same number. -/
inductive ApiResult where
  /-- `monitor_ok`. -/
  | ok
  /-- `monitor_invalid_value`. -/
  | invalidValue
  /-- `monitor_invalid_state`. -/
  | invalidState
  /-- `monitor_concurrent_call`. -/
  | concurrentCall
  /-- `monitor_access_denied`. -/
  | accessDenied
  /-- `monitor_unsupported`. -/
  | unsupported
  deriving DecidableEq

/-- The number the caller gets. -/
def ApiResult.code : ApiResult → Word
  | ok => 0 | invalidValue => 1 | invalidState => 2 | concurrentCall => 3 | accessDenied => 4
  | unsupported => 5

/-- `dram_region_state_t`. -/
inductive DramRegionState where
  /-- `dram_region_invalid`. -/
  | invalid
  /-- `dram_region_free`. -/
  | free
  /-- `dram_region_blocked`. -/
  | blocked
  /-- `dram_region_locked`. -/
  | locked
  /-- `dram_region_owned`. -/
  | owned
  deriving DecidableEq

/-- The number the caller gets. -/
def DramRegionState.code : DramRegionState → Word
  | invalid => 0 | free => 1 | blocked => 2 | locked => 3 | owned => 4

/-- `c && p`: `p` is run only if `c`. -/
def andThen (c : Bool) (p : Monitor Bool) : Monitor Bool := if c then p else pure false

section Code

variable (g : Globals)

/-! ### `dram_regions_inl.h` -/

/-- `is_dram_address`. -/
def isDramAddress (address : Word) : Bool := address < g.dramSize && address > g.dramBase

/-- `is_valid_dram_region`. -/
def isValidDramRegion (dramRegion : Word) : Bool := dramRegion < g.dramRegionCount

/-- `is_dynamic_dram_region`. -/
def isDynamicDramRegion (dramRegion : Word) : Bool := dramRegion != 0 && isValidDramRegion g dramRegion

/-- `dram_region_start`. -/
def dramRegionStart (dramRegion : Word) : Word := sll dramRegion g.dramRegionShift

/-- `dram_region_for`. -/
def dramRegionFor (address : Word) : Word := srl (address &&& g.dramRegionMask) g.dramRegionShift

/-- `clamped_dram_region_for`. -/
def clampedDramRegionFor (address : Word) : Word :=
  if isDramAddress g address then dramRegionFor g address else 0

/-- `dram_stripe_page_for`. -/
def dramStripePageFor (address : Word) : Word := srl (address &&& g.dramStripePageMask) pageShift

/-- `dram_stripe_for`. -/
def dramStripeFor (address : Word) : Word := srl address g.dramStripeShift

/-- `dram_region_page_for`. -/
def dramRegionPageFor (address : Word) : Word :=
  dramStripePageFor g address ||| sll (dramStripeFor g address) (g.dramRegionShift - g.dramStripeShift)

/-- `test_and_set_dram_region_lock`. -/
def testAndSetDramRegionLock (dramRegion : Word) : Monitor Bool := testAndSet (g.regionLock dramRegion)

/-- `clear_dram_region_lock`. -/
def clearDramRegionLock (dramRegion : Word) : Monitor Unit := clear (g.regionLock dramRegion)

/-- `read_dram_region_owner`. -/
def readDramRegionOwner (dramRegion : Word) : Monitor EnclaveId := load64 (g.regionField .owner dramRegion)

/-- The loop of `bzero_dram_region`: the stripes are enumerated until one lies past
the end of DRAM, or for ever. -/
def bzeroStripes (dramRegion : Word) : Monitor (Option Unit) :=
  let stripeStep := sll g.dramRegionCount g.dramRegionShift
  let regionStart := sll dramRegion g.dramRegionShift
  Prog.whileSome (fun stripe : Word =>
    if stripe < g.dramSize then do
      bzero (stripe ||| regionStart) g.dramStripeSize.toNat
      return .inl (stripe + stripeStep)
    else return .inr ()) (2 ^ 64) 0

/-- `bzero_dram_region`. -/
def bzeroDramRegion (dramRegion : Word) : Monitor Unit := do
  match ← bzeroStripes g dramRegion with
  | some () => return ()
  | none => spin

/-- `dram_region_tlb_flush`, on core `core`. The store goes to the address that
`flushed_at` *holds*. -/
def dramRegionTlbFlush (core : Word) : Monitor Unit := do
  flushTlbs core
  let blockClock ← atomicLoad g.dramRegions
  let flushedAt ← load64 (g.coreField .flushedAt core)
  atomicStore flushedAt blockClock

/-! ### Helpers of other headers -/

/-- `current_enclave`, on core `core`. -/
def currentEnclave (core : Word) : Monitor EnclaveId := load64 (g.coreField .enclaveId core)

/-- `enclave_region_bitmap`. -/
def enclaveRegionBitmap (enclaveId : EnclaveId) : Word := enclaveId + enclaveInfoStructSize

/-- `set_enclave_region_bitmap_bit`. -/
def setEnclaveRegionBitmapBit (enclaveId : EnclaveId) (dramRegion : Word) (trueForSet : Bool) :
    Monitor Unit :=
  if enclaveId = nullEnclaveId then setBitmapBit g.osRegionBitmap dramRegion trueForSet
  else setBitmapBit (enclaveRegionBitmap enclaveId) dramRegion trueForSet

/-- `is_valid_enclave_id`. -/
def isValidEnclaveId (enclaveId : EnclaveId) : Monitor Bool := do
  return (← load64 (g.regionField .owner (clampedDramRegionFor g enclaveId))) == enclaveId

/-! ### `dram_regions.c` -/

/-- The check of `block_dram_region` that the DMA range crosses a region. -/
def dmaRangeCrossed (first last : Word) (dramRegion : Word) : Bool :=
  let regionStart := dramRegionStart g dramRegion
  let regionEnd := dramRegionStart g (dramRegion + 1)
  first ≥ regionStart && last ≤ regionEnd ||
  last ≥ regionStart && last ≤ regionEnd ||
  regionStart ≥ first && regionStart ≤ last ||
  regionEnd ≥ first && regionEnd ≤ last

/-- What `block_dram_region` does once its checks have passed. -/
def blockRegion (owner dramRegion : Word) : Monitor Unit := do
  store64 (g.regionField .previousOwner dramRegion) owner
  store64 (g.regionField .owner dramRegion) blockedEnclaveId
  let blockClock ← atomicFetchAdd g.dramRegions 1
  store64 (g.regionField .blockedAt dramRegion) blockClock
  setEnclaveRegionBitmapBit g owner dramRegion false
  if owner = nullEnclaveId then setDrbMap g.osRegionBitmap
  else setEdrbMap (enclaveRegionBitmap owner)

/-- `block_dram_region`, called on core `core`. -/
def blockDramRegion (core dramRegion : Word) : Monitor ApiResult := do
  if !isDynamicDramRegion g dramRegion then return .invalidValue
  if ← testAndSetDramRegionLock g dramRegion then return .concurrentCall
  let owner ← readDramRegionOwner g dramRegion
  if owner != (← currentEnclave g core) then
    clearDramRegionLock g dramRegion
    return .accessDenied
  if ← andThen (owner != nullEnclaveId) (do
      return (← load64 (g.regionField .pinnedPages dramRegion)) != 0) then
    clearDramRegionLock g dramRegion
    return .invalidState
  let ownerDramRegion := dramRegionFor g owner
  if ← testAndSetDramRegionLock g ownerDramRegion then
    clearDramRegionLock g dramRegion
    return .concurrentCall
  if ← andThen (ownerDramRegion == 0) (do
      let (first, last) ← readDmaRange
      return dmaRangeCrossed g first last dramRegion) then
    clearDramRegionLock g ownerDramRegion
    clearDramRegionLock g dramRegion
    return .invalidState
  blockRegion g owner dramRegion
  clearDramRegionLock g ownerDramRegion
  clearDramRegionLock g dramRegion
  return .ok

/-- `dram_region_check_ownership`, called on core `core`. -/
def dramRegionCheckOwnership (core dramRegion : Word) : Monitor ApiResult := do
  if !isDynamicDramRegion g dramRegion then return .invalidValue
  if ← testAndSetDramRegionLock g dramRegion then return .concurrentCall
  let owner ← readDramRegionOwner g dramRegion
  let result := if owner = (← currentEnclave g core) then .ok else .invalidState
  clearDramRegionLock g dramRegion
  return result

/-- `dram_region_state`. -/
def dramRegionState (dramRegion : Word) : Monitor DramRegionState := do
  if !isValidDramRegion g dramRegion then return .invalid
  if ← testAndSetDramRegionLock g dramRegion then return .locked
  let owner ← readDramRegionOwner g dramRegion
  let state :=
    if owner = nullEnclaveId then .owned
    else if owner = blockedEnclaveId then .blocked
    else if owner = freeEnclaveId then .free
    else .owned
  clearDramRegionLock g dramRegion
  return state

/-- `dram_region_owner`. -/
def dramRegionOwner (dramRegion : Word) : Monitor EnclaveId := do
  if !isValidDramRegion g dramRegion then return nullEnclaveId
  if ← testAndSetDramRegionLock g dramRegion then return nullEnclaveId
  let owner ← readDramRegionOwner g dramRegion
  clearDramRegionLock g dramRegion
  return if owner = blockedEnclaveId ∨ owner = freeEnclaveId then nullEnclaveId else owner

/-- The stripe loop of `set_dma_range`: whether the regions of the stripes from
`base` to `rangeEnd` are the OS's, or nothing if one of their locks is taken. -/
def setDmaRangeStripes (base rangeEnd : Word) : Monitor (Option (Option Bool)) :=
  Prog.whileSome (fun (stripeAddr, osOwnsRegions) =>
    if stripeAddr < rangeEnd then do
      let dramRegion := dramRegionFor g stripeAddr
      if ← andThen (dramRegion != 0) (testAndSetDramRegionLock g dramRegion) then return .inr none
      let owner ← readDramRegionOwner g dramRegion
      if dramRegion ≠ 0 then clearDramRegionLock g dramRegion
      return .inl (stripeAddr + g.dramStripeSize, osOwnsRegions && owner == 0)
    else return .inr (some osOwnsRegions)) (2 ^ 64) (base, true)

/-- `set_dma_range`. What the stripe loop finds out about the owners is not used. -/
def setDmaRange (base mask : Word) : Monitor ApiResult := do
  if !isValidRange base mask then return .invalidValue
  if !isDramAddress g (base ||| mask) then return .invalidValue
  if ← testAndSetDramRegionLock g 0 then return .concurrentCall
  let rangeEnd := (base ||| mask) + 1
  match ← setDmaRangeStripes g base rangeEnd with
  | none => spin
  | some none =>
    clearDramRegionLock g 0
    return .concurrentCall
  | some (some _osOwnsRegions) =>
    writeDmaRange base rangeEnd
    clearDramRegionLock g 0
    return .ok

/-- `init_metadata_region`. -/
def initMetadataRegion (dramRegion : Word) : Monitor Unit := do
  store64 (g.regionField .owner dramRegion) metadataEnclaveId
  store64 (g.regionField .pinnedPages dramRegion) 0
  bzero (dramRegionStart g dramRegion) (sll g.metadataRegionStart pageShift).toNat

/-- `create_metadata_region`. -/
def createMetadataRegion (dramRegion : Word) : Monitor ApiResult := do
  if !isValidDramRegion g dramRegion then return .invalidValue
  if ← testAndSetDramRegionLock g dramRegion then return .concurrentCall
  if (← readDramRegionOwner g dramRegion) != freeEnclaveId then
    clearDramRegionLock g dramRegion
    return .invalidState
  initMetadataRegion g dramRegion
  clearDramRegionLock g dramRegion
  return .ok

/-- What `assign_dram_region` does once its checks have passed. -/
def assignRegion (dramRegion : Word) (newOwner : EnclaveId) : Monitor Unit := do
  store64 (g.regionField .owner dramRegion) newOwner
  setEnclaveRegionBitmapBit g newOwner dramRegion true
  if newOwner = 0 then setDrbMap g.osRegionBitmap

/-- `assign_dram_region`. -/
def assignDramRegion (dramRegion : Word) (newOwner : EnclaveId) : Monitor ApiResult := do
  if !isValidDramRegion g dramRegion then return .invalidValue
  if ← testAndSetDramRegionLock g dramRegion then return .concurrentCall
  if (← readDramRegionOwner g dramRegion) != freeEnclaveId then
    clearDramRegionLock g dramRegion
    return .invalidState
  let newOwnerDramRegion := dramRegionFor g newOwner
  if ← testAndSetDramRegionLock g newOwnerDramRegion then
    clearDramRegionLock g dramRegion
    return .concurrentCall
  if ← isValidEnclaveId g newOwner then
    assignRegion g dramRegion newOwner
    clearDramRegionLock g newOwnerDramRegion
    clearDramRegionLock g dramRegion
    return .ok
  else
    clearDramRegionLock g newOwnerDramRegion
    clearDramRegionLock g dramRegion
    return .invalidValue

/-- The core loop of `free_dram_region`: some core has not flushed its TLBs since `blockedAt`. -/
def someCoreNotFlushed (blockedAt : Word) : Monitor (Option Unit) :=
  Prog.findUp (fun i => do
    let flushedAt ← atomicLoad (g.coreField .flushedAt (BitVec.ofNat 64 i))
    return if flushedAt < blockedAt then some () else none) g.coreCount.toNat 0

/-- `free_dram_region`. -/
def freeDramRegion (dramRegion : Word) : Monitor ApiResult := do
  if !isValidDramRegion g dramRegion then return .invalidValue
  if ← testAndSetDramRegionLock g dramRegion then return .concurrentCall
  let regionOwner ← readDramRegionOwner g dramRegion
  if regionOwner = blockedEnclaveId then
    let blockedAt ← load64 (g.regionField .blockedAt dramRegion)
    if (← someCoreNotFlushed g blockedAt).isNone then
      store64 (g.regionField .owner dramRegion) freeEnclaveId
      clearDramRegionLock g dramRegion
      return .ok
    else
      clearDramRegionLock g dramRegion
      return .invalidState
  else if regionOwner = metadataEnclaveId then
    if (← load64 (g.regionField .pinnedPages dramRegion)) = 0 then
      store64 (g.regionField .owner dramRegion) freeEnclaveId
      clearDramRegionLock g dramRegion
      return .ok
    else
      clearDramRegionLock g dramRegion
      return .invalidState
  else
    clearDramRegionLock g dramRegion
    return .invalidState

/-- `flush_cached_dram_regions`, called on core `core`. -/
def flushCachedDramRegions (core : Word) : Monitor ApiResult := do
  dramRegionTlbFlush g core
  return .ok

end Code

end Sanctum
