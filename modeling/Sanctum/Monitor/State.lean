import Sanctum.Arch.BitMasking

/-!
# The monitor's state

The constants that the monitor computes at boot (`Globals`), where the fields of
its structures lie (the offsets are RV64's), and the values the documentation of
`dram_regions.h` allows for the constants (`Geometry`, `Config`).

What changes after boot lies in memory, but for `g_dma_range_start` and
`g_dma_range_end`, which `Machine` has.

## Geometry

"A DRAM address can be broken down into the following components":

    | unused |         bits used to address installed DRAM memory            |
    |  zero  | stripe index | region index | stripe page index | page offset |

A `Geometry` is such a break-down: the page offset has `12` bits, the stripe page
index `stripePageBits`, the region index `regionBits`. The base and the size of
the installed DRAM are arbitrary words.

## Layout

`boot_init_dynamic_arrays` lays out four arrays from the top of the monitor on,
and `boot_init_monitor_top` says that this is address `0`. A `Config` is a
geometry and a number of cores for which the arrays fit in the address space.
-/

namespace Sanctum

/-! ### Constants -/

/-- The constants `boot_init_dram_regions` computes. -/
structure DramGlobals where
  /-- `g_dram_base`. -/
  dramBase : Word
  /-- `g_dram_size`. -/
  dramSize : Word
  /-- `g_dram_region_shift`. -/
  dramRegionShift : Word
  /-- `g_dram_stripe_shift`. -/
  dramStripeShift : Word
  /-- `g_dram_stripe_page_mask`. -/
  dramStripePageMask : Word
  /-- `g_dram_region_mask`. -/
  dramRegionMask : Word
  /-- `g_dram_stripe_mask`. -/
  dramStripeMask : Word
  /-- `g_dram_region_count`. -/
  dramRegionCount : Word
  /-- `g_dram_stripe_size`. -/
  dramStripeSize : Word
  /-- `g_dram_stripe_pages`. -/
  dramStripePages : Word
  /-- `g_dram_region_bitmap_words`. -/
  dramRegionBitmapWords : Word
  deriving DecidableEq

/-- These, and the constants `boot_init_metadata` computes. -/
structure MetadataGlobals extends DramGlobals where
  /-- `g_metadata_region_pages`. -/
  metadataRegionPages : Word
  /-- `g_metadata_region_start`. -/
  metadataRegionStart : Word
  deriving DecidableEq

/-- These, and the arrays `boot_init_dynamic_arrays` lays out. -/
structure Globals extends MetadataGlobals where
  /-- `g_core_count`. -/
  coreCount : Word
  /-- `g_core`. -/
  core : Word
  /-- `g_dram_region`. -/
  dramRegion : Word
  /-- `g_dram_regions`. -/
  dramRegions : Word
  /-- `g_os_region_bitmap`. -/
  osRegionBitmap : Word
  deriving DecidableEq

/-! ### Special enclave IDs -/

/-- An enclave ID is the physical address of the enclave's info structure. -/
abbrev EnclaveId := Word

/-- `null_enclave_id`: the OS. -/
def nullEnclaveId : EnclaveId := 0

/-- `blocked_enclave_id`: the owner of a blocked DRAM region. -/
def blockedEnclaveId : EnclaveId := 1

/-- `metadata_enclave_id`: the owner of a metadata DRAM region. -/
def metadataEnclaveId : EnclaveId := 2

/-- `free_enclave_id`: the owner of a free DRAM region. -/
def freeEnclaveId : EnclaveId := 3

/-! ### Structures in memory -/

/-- The 64-bit fields of `dram_region_info_t`; its lock is at offset `0`. -/
inductive RegionField where
  /-- `owner`. -/
  | owner
  /-- `previous_owner`. -/
  | previousOwner
  /-- `pinned_pages`. -/
  | pinnedPages
  /-- `blocked_at`. -/
  | blockedAt
  deriving DecidableEq

/-- Where the field is in the structure. -/
def RegionField.offset : RegionField → Word
  | owner => 8 | previousOwner => 16 | pinnedPages => 24 | blockedAt => 32

/-- `sizeof(dram_region_info_t)`. -/
def regionInfoSize : Word := 40

/-- The fields of `core_info_t`. -/
inductive CoreField where
  /-- `enclave_id`. -/
  | enclaveId
  /-- `thread_id`. -/
  | threadId
  /-- `thread`. -/
  | thread
  /-- `flushed_at`. -/
  | flushedAt
  deriving DecidableEq

/-- Where the field is in the structure. -/
def CoreField.offset : CoreField → Word
  | enclaveId => 0 | threadId => 8 | thread => 16 | flushedAt => 24

/-- `sizeof(core_info_t)`. -/
def coreInfoSize : Word := 32

/-- The 64-bit fields of `enclave_info_t`; its lock is at offset `0`. -/
inductive EnclaveField where
  /-- `mailbox_count`. -/
  | mailboxCount
  /-- `is_initialized`. -/
  | isInitialized
  /-- `is_debug`. -/
  | isDebug
  /-- `thread_count`. -/
  | threadCount
  /-- `dram_region_count`. -/
  | dramRegionCount
  /-- `ev_base`. -/
  | evBase
  /-- `ev_mask`. -/
  | evMask
  /-- `load_eptbr`. -/
  | loadEptbr
  /-- `last_load_addr`. -/
  | lastLoadAddr
  deriving DecidableEq

/-- Where the field is in the structure. -/
def EnclaveField.offset : EnclaveField → Word
  | mailboxCount => 8 | isInitialized => 16 | isDebug => 24 | threadCount => 32
  | dramRegionCount => 40 | evBase => 48 | evMask => 56 | loadEptbr => 64 | lastLoadAddr => 72

/-- `enclave_info->field`. -/
def enclaveField (f : EnclaveField) (id : EnclaveId) : Word := id + f.offset

/-- `&enclave_info->hash`. -/
def enclaveHash (id : EnclaveId) : Word := id + 80

/-- `enclave_info->hash_block`. -/
def enclaveHashBlock (id : EnclaveId) : Word := id + 240

/-- `sizeof(enclave_info_t)`. -/
def enclaveInfoStructSize : Word := 304

/-- `sizeof(mailbox_t)`. -/
def mailboxSize : Word := 304

/-- The 64-bit fields of `thread_info_t` that get written; its lock is at offset `0`. -/
inductive ThreadField where
  /-- `entry_pc`. -/
  | entryPc
  /-- `entry_stack`. -/
  | entryStack
  /-- `fault_pc`. -/
  | faultPc
  /-- `fault_stack`. -/
  | faultStack
  /-- `eptbr`. -/
  | eptbr
  deriving DecidableEq

/-- Where the field is in `thread_info_t`. -/
def ThreadField.offset : ThreadField → Word
  | entryPc => 8 | entryStack => 16 | faultPc => 24 | faultStack => 32 | eptbr => 40

/-- Where the field of the same name is in `thread_init_info_t`. -/
def ThreadField.initOffset : ThreadField → Word
  | entryPc => 0 | entryStack => 8 | faultPc => 16 | faultStack => 24 | eptbr => 32

/-- `thread_metadata_size`, `sizeof(thread_info_t)`. -/
def threadMetadataSize : Word := 552

namespace Globals

variable (g : Globals)

/-- `&g_dram_region[r].lock`. -/
def regionLock (r : Word) : Word := g.dramRegion + regionInfoSize * r

/-- `&g_dram_region[r].field`. -/
def regionField (f : RegionField) (r : Word) : Word := g.dramRegion + regionInfoSize * r + f.offset

/-- `&g_core[i].field`. -/
def coreField (f : CoreField) (i : Word) : Word := g.core + coreInfoSize * i + f.offset

/-- `g_dram_region[r].field`. -/
def region (s : Machine) (f : RegionField) (r : Word) : Word := s.mem.load64 (g.regionField f r)

/-- `g_core[i].field`. -/
def coreInfo (s : Machine) (f : CoreField) (i : Word) : Word := s.mem.load64 (g.coreField f i)

/-- Region `r`'s lock flag is set. -/
def regionLocked (s : Machine) (r : Word) : Bool := s.mem.load32 (g.regionLock r) != 0

/-- `g_dram_regions->block_clock`. -/
def blockClock (s : Machine) : Word := s.mem.load64 g.dramRegions

end Globals

/-! ### Geometry and layout -/

/-- A break-down of the bits of a DRAM address. -/
structure Geometry where
  /-- Where DRAM starts. -/
  dramBase : Word
  /-- How much of it there is. -/
  dramSize : Word
  /-- How many bits the stripe page index has. -/
  stripePageBits : ℕ
  /-- How many bits the region index has. -/
  regionBits : ℕ
  /-- The parts do not exceed an address. -/
  bits_lt : 12 + stripePageBits + regionBits < 64

/-- Where the region index starts. -/
def Geometry.regionShift (G : Geometry) : ℕ := 12 + G.stripePageBits

/-- How many regions there are. -/
def Geometry.regionCount (G : Geometry) : ℕ := 2 ^ G.regionBits

/-- How long a stripe is. -/
def Geometry.stripeSize (G : Geometry) : ℕ := 2 ^ G.regionShift

/-- The constants as `dram_regions.h` describes them. -/
def Geometry.globals (G : Geometry) : DramGlobals where
  dramBase := G.dramBase
  dramSize := G.dramSize
  dramRegionShift := BitVec.ofNat 64 G.regionShift
  dramStripeShift := BitVec.ofNat 64 (G.regionShift + G.regionBits)
  dramStripePageMask := BitVec.ofNat 64 ((2 ^ G.stripePageBits - 1) * 2 ^ 12)
  dramRegionMask := BitVec.ofNat 64 ((G.regionCount - 1) * 2 ^ G.regionShift)
  dramStripeMask :=
    BitVec.ofNat 64 ((G.dramSize - 1).toNat / 2 ^ (G.regionShift + G.regionBits) *
      2 ^ (G.regionShift + G.regionBits))
  dramRegionCount := BitVec.ofNat 64 G.regionCount
  dramStripeSize := BitVec.ofNat 64 G.stripeSize
  dramStripePages := BitVec.ofNat 64 (2 ^ G.stripePageBits)
  dramRegionBitmapWords := BitVec.ofNat 64 ((G.regionCount + 63) / 64)

/-- `boot_init_metadata`. -/
def bootInitMetadata (d : DramGlobals) : MetadataGlobals :=
  let pages := srl d.dramSize (d.dramStripeShift - d.dramRegionShift + pageShift)
  let mapSize := pages * 8
  if mapSize > d.dramStripeSize then
    { d with
      metadataRegionPages := d.dramStripeSize / 8
      metadataRegionStart := pagesNeededFor d.dramStripeSize }
  else
    { d with
      metadataRegionPages := pages
      metadataRegionStart := pagesNeededFor mapSize }

/-- The top of the monitor before the arrays are laid out, as `boot_init_monitor_top`
has it. -/
def bootInitMonitorTop : Word := 0

/-- A geometry and a number of cores whose arrays fit in the address space. -/
structure Config extends Geometry where
  /-- How many cores there are. -/
  coreCount : Word
  /-- The arrays end before the address space does. -/
  arrays_fit : 32 * coreCount.toNat + 40 * 2 ^ regionBits + 8 + 8 * ((2 ^ regionBits + 63) / 64) < 2 ^ 64

namespace Config

variable (C : Config)

/-- Where the arrays end. -/
def arraysEnd : ℕ :=
  32 * C.coreCount.toNat + 40 * C.regionCount + 8 + 8 * ((C.regionCount + 63) / 64)

/-- The monitor's constants. -/
def globals : Globals where
  toMetadataGlobals := bootInitMetadata C.toGeometry.globals
  coreCount := C.coreCount
  core := bootInitMonitorTop
  dramRegion := BitVec.ofNat 64 (32 * C.coreCount.toNat)
  dramRegions := BitVec.ofNat 64 (32 * C.coreCount.toNat + 40 * C.regionCount)
  osRegionBitmap := BitVec.ofNat 64 (32 * C.coreCount.toNat + 40 * C.regionCount + 8)

end Config

end Sanctum
