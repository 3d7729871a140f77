import Sanctum.Boot.Bootloader
import Sanctum.Machine.Run

/-!
# The root of trust

`root_of_trust.S` and `root_of_trust.c`, the code in the boot ROM. All harts begin there. Hart 0 has the host load
memory, runs the boot loader if its hash is the expected one, erases the stacks, and wakes the other harts; these
wait for an interrupt until then. Every hart cleans its registers before it enters the security monitor.

The harts run interleaved, one instruction at a time. Compiled functions are steps: they change the registers and the
stacks as they like, and compute what their source computes. The host may change memory while it loads it, and its
own registers at any time. A hart that is in the monitor may do anything.
-/

namespace Sanctum

namespace Boot

open Ed25519 Memory

namespace Rot

/-- A register, by number. -/
abbrev Reg := Fin 32

/-- There is a register, so that each may be written as a number. -/
scoped instance neZeroReg : NeZero 32 := ⟨by decide⟩

/-! ### The text -/

/-- The labels. -/
inductive Label where
  | resetVector
  | waitOnElf
  | mStackEraseLoop
  | wakeOtherHartsLoop
  | doneWakingOtherHarts
  | rotBadHash
  | hartNonZero
  | waitOnIpi
  | rotWakeOnIpi
  | cleanCore
  deriving DecidableEq

/-- What the text refers to by name. -/
inductive Symbol where
  | mStackBase
  | mStackPtr
  | bootloaderPtr
  | smPtr
  | dtbPtr
  | label (l : Label)
  deriving DecidableEq

/-- The control registers the text uses. -/
inductive Csr where
  | mhartid
  | mtvec
  | mie
  | mstatus
  | mscratch
  deriving DecidableEq

/-- The instructions of the text. -/
inductive Instr where
  /-- `li rd, imm`. -/
  | li (rd : Reg) (imm : Word)
  /-- `la rd, symbol`. -/
  | la (rd : Reg) (symbol : Symbol)
  /-- `csrr rd, csr`. -/
  | csrr (rd : Reg) (csr : Csr)
  /-- `csrw csr, rs`. -/
  | csrw (csr : Csr) (rs : Reg)
  /-- `csrsi csr, imm`. -/
  | csrsi (csr : Csr) (imm : Word)
  /-- `addi rd, rs, imm`. -/
  | addi (rd rs : Reg) (imm : Word)
  /-- `slli rd, rs, shamt`. -/
  | slli (rd rs : Reg) (shamt : ℕ)
  /-- `add rd, rs1, rs2`. -/
  | add (rd rs1 rs2 : Reg)
  /-- `sub rd, rs1, rs2`. -/
  | sub (rd rs1 rs2 : Reg)
  /-- `mul rd, rs1, rs2`. -/
  | mul (rd rs1 rs2 : Reg)
  /-- `ld rd, offset(rs)`. -/
  | ld (rd : Reg) (offset : Word) (rs : Reg)
  /-- `sd rs2, offset(rs1)`. -/
  | sd (rs2 : Reg) (offset : Word) (rs1 : Reg)
  /-- `sw rs2, offset(rs1)`. -/
  | sw (rs2 : Reg) (offset : Word) (rs1 : Reg)
  /-- `fence`. -/
  | fence
  /-- `wfi`. -/
  | wfi
  /-- `bne rs1, rs2, label`. -/
  | bne (rs1 rs2 : Reg) (label : Label)
  /-- `beq rs1, rs2, label`. -/
  | beq (rs1 rs2 : Reg) (label : Label)
  /-- `blt rs1, rs2, label`. -/
  | blt (rs1 rs2 : Reg) (label : Label)
  /-- `j label`, or the text goes on at `label`. -/
  | j (label : Label)
  /-- `jr rs`. -/
  | jr (rs : Reg)
  /-- `jalr rs`. -/
  | jalr (rs : Reg)
  /-- `call label`. -/
  | call (label : Label)
  /-- `call rot_hash_and_verify`. -/
  | callHash
  deriving DecidableEq

open Instr

/-- `MEM_LOADER_BASE`. -/
def memLoaderBase : Word := 0x1000000

/-- `MSIP_BASE`. -/
def msipBase : Word := 0x2000000

/-- `DRAM_BASE`, which is also `FROMHOST`. -/
def dramBase : Word := 0x80000000

/-- `M_STACK_SIZE`, which is also `RISCV_PGSIZE`. -/
def mStackSize : ℕ := 0x1000

/-- `root_of_trust.S`, for `n` harts. -/
def source (n : ℕ) : Label → List Instr
  | .resetVector => [la 2 .mStackPtr, csrr 10 .mhartid, bne 10 0 .hartNonZero, li 5 memLoaderBase, li 6 dramBase,
      sw 6 0 5, fence, j .waitOnElf]
  | .waitOnElf => [ld 6 8 5, bne 6 0 .waitOnElf, callHash, beq 10 0 .rotBadHash, la 1 .bootloaderPtr, jalr 1,
      la 5 .mStackBase, la 6 .mStackPtr, j .mStackEraseLoop]
  | .mStackEraseLoop => [sd 0 (-8) 6, sd 0 (-16) 6, sd 0 (-24) 6, sd 0 (-32) 6, sd 0 (-40) 6, sd 0 (-48) 6,
      sd 0 (-56) 6, sd 0 (-64) 6, addi 6 6 (-64), blt 5 6 .mStackEraseLoop, li 5 1, li 6 msipBase,
      li 7 (BitVec.ofNat 64 ((n - 1) * 4)), j .wakeOtherHartsLoop]
  | .wakeOtherHartsLoop => [beq 7 0 .doneWakingOtherHarts, add 28 6 7, sw 5 0 28, addi 7 7 (-4),
      j .wakeOtherHartsLoop]
  | .doneWakingOtherHarts => [call .cleanCore, la 1 .smPtr, jr 1]
  | .rotBadHash => [j .rotBadHash]
  | .hartNonZero => [li 5 (BitVec.ofNat 64 mStackSize), mul 5 5 10, sub 2 2 5, la 5 (.label .rotWakeOnIpi),
      csrw .mtvec 5, csrsi .mie 8, csrsi .mstatus 8, j .waitOnIpi]
  | .waitOnIpi => [wfi, j .waitOnIpi]
  | .rotWakeOnIpi => [li 5 msipBase, csrr 6 .mhartid, slli 6 6 2, add 5 5 6, sw 0 0 5, fence,
      csrw .mtvec 0, csrw .mie 0, csrw .mstatus 0, call .cleanCore, la 1 .smPtr, jr 1]
  | .cleanCore => [la 2 .mStackPtr, li 3 0, li 4 0, li 5 0, li 6 0, li 7 0, li 8 0, li 9 0, csrr 10 .mhartid,
      la 11 .dtbPtr, li 12 0, li 13 0, li 14 0, li 15 0, li 16 0, li 17 0, li 18 0, li 19 0, li 20 0, li 21 0,
      li 22 0, li 23 0, li 24 0, li 25 0, li 26 0, li 27 0, li 28 0, li 29 0, li 30 0, li 31 0, csrw .mscratch 0,
      jr 1]

/-! ### Harts -/

/-- Where a hart is. -/
inductive Pc where
  /-- In the boot ROM, before the `k`-th instruction after a label. -/
  | rom (l : Label) (k : ℕ)
  /-- At the first instruction of the boot loader. -/
  | bootloader
  /-- In the security monitor. -/
  | sm
  deriving DecidableEq

/-- A hart. -/
structure Hart where
  /-- Where it is. -/
  pc : Pc
  /-- Its registers. What is said of register `0` counts for nothing. -/
  reg : Reg → Word
  /-- Its control registers. -/
  csr : Csr → Word

namespace Hart

/-- The value of a register. -/
def get (h : Hart) (r : Reg) : Word := if r = 0 then 0 else h.reg r

/-- Set a register. -/
def set (h : Hart) (r : Reg) (v : Word) : Hart := { h with reg := Function.update h.reg r v }

/-- Set a control register. -/
def setCsr (h : Hart) (c : Csr) (v : Word) : Hart := { h with csr := Function.update h.csr c v }

/-- Go somewhere. -/
def goto (h : Hart) (pc : Pc) : Hart := { h with pc }

end Hart

/-- Where the linker has put the text, and what it refers to. -/
structure Places where
  /-- `NUM_HARTS`. -/
  numHarts : ℕ
  /-- `m_stack_base`. -/
  mStackBase : Word
  /-- `bootloader_ptr`. -/
  bootloaderPtr : Word
  /-- `bootloader_size`. -/
  bootloaderSize : ℕ
  /-- The header and the monitor. -/
  symbols : Symbols
  /-- `dtb_ptr`. -/
  dtbPtr : Word
  /-- `bootloader_expected_hash`. -/
  expectedHash : List Byte
  /-- The address of the `k`-th instruction after a label. -/
  address : Label → ℕ → Word
  /-- What is at an address. -/
  locate : Word → Pc

/-- What the linker sees to. -/
structure Places.Fits (P : Places) : Prop where
  length_expectedHash : P.expectedHash.length = 64
  /-- Instructions are where they have been put. -/
  locate_address : ∀ l k, k < (source P.numHarts l).length → P.locate (P.address l k) = .rom l k
  locate_bootloader : P.locate P.bootloaderPtr = .bootloader
  locate_sm : P.locate P.symbols.smPtr = .sm
  numHarts_pos : 0 < P.numHarts
  numHarts_lt : P.numHarts < 2 ^ 20
  /-- The host's registers come first, on a page of their own, -/
  fromhost : P.symbols.fromhost = dramBase
  tohost : P.symbols.tohost = dramBase + 8
  htif : dramBase.toNat + 0x1000 ≤ P.mStackBase.toNat
  /-- then the stacks, -/
  mStacks : P.mStackBase.toNat + mStackSize * P.numHarts ≤ P.bootloaderPtr.toNat
  /-- the boot loader, -/
  bootloader : P.bootloaderPtr.toNat + P.bootloaderSize ≤ P.symbols.header.toNat
  /-- and the header. -/
  header : P.symbols.header.toNat + 264 < 2 ^ 63

/-- A text that has been linked. -/
structure Layout extends Places where
  fits : toPlaces.Fits

variable (L : Layout)

/-- `m_stack_ptr`. -/
def Layout.mStackPtr : Word := L.mStackBase + BitVec.ofNat 64 (mStackSize * L.numHarts)

/-- The address of what has a name. -/
def Layout.value : Symbol → Word
  | .mStackBase => L.mStackBase
  | .mStackPtr => L.mStackPtr
  | .bootloaderPtr => L.bootloaderPtr
  | .smPtr => L.symbols.smPtr
  | .dtbPtr => L.dtbPtr
  | .label l => L.address l 0

/-- What the harts share. -/
structure Shared where
  /-- Memory. -/
  mem : Memory
  /-- The software interrupt of each hart. -/
  msip : ℕ → Bool
  /-- The host has been asked to load memory, and has not finished. -/
  loading : Bool

/-- Whose software interrupt is at an address. -/
def msipIndex (a : Word) : Option ℕ :=
  let d := (a - msipBase).toNat
  if d % 4 = 0 ∧ d / 4 < L.numHarts then some (d / 4) else none

/-- A store of 32 bits, to a device or to memory. -/
def Shared.store32 (sh : Shared) (a v : Word) : Shared :=
  match msipIndex L a with
  | some i => { sh with msip := Function.update sh.msip i (v.getLsbD 0) }
  | none =>
    if a = memLoaderBase then { sh with loading := true } else { sh with mem := sh.mem.store32 a (v.setWidth 32) }

/-- A load of 64 bits, from the host's loader or from memory. -/
def Shared.load64 (sh : Shared) (a : Word) : Word :=
  if a = memLoaderBase + 8 then (if sh.loading then 1 else 0) else sh.mem.load64 a

/-- What an instruction does. A call of a compiled function is a step of its own. -/
def Instr.exec (l : Label) (k : ℕ) (h : Hart) (sh : Shared) : Instr → Option (Hart × Shared)
  | li rd imm => some ((h.set rd imm).goto (.rom l (k + 1)), sh)
  | la rd s => some ((h.set rd (L.value s)).goto (.rom l (k + 1)), sh)
  | csrr rd c => some ((h.set rd (h.csr c)).goto (.rom l (k + 1)), sh)
  | csrw c rs => some ((h.setCsr c (h.get rs)).goto (.rom l (k + 1)), sh)
  | csrsi c imm => some ((h.setCsr c (h.csr c ||| imm)).goto (.rom l (k + 1)), sh)
  | addi rd rs imm => some ((h.set rd (h.get rs + imm)).goto (.rom l (k + 1)), sh)
  | slli rd rs n => some ((h.set rd (h.get rs <<< n)).goto (.rom l (k + 1)), sh)
  | add rd rs1 rs2 => some ((h.set rd (h.get rs1 + h.get rs2)).goto (.rom l (k + 1)), sh)
  | sub rd rs1 rs2 => some ((h.set rd (h.get rs1 - h.get rs2)).goto (.rom l (k + 1)), sh)
  | mul rd rs1 rs2 => some ((h.set rd (h.get rs1 * h.get rs2)).goto (.rom l (k + 1)), sh)
  | ld rd offset rs => some ((h.set rd (sh.load64 (h.get rs + offset))).goto (.rom l (k + 1)), sh)
  | sd rs2 offset rs1 =>
    some (h.goto (.rom l (k + 1)), { sh with mem := sh.mem.store64 (h.get rs1 + offset) (h.get rs2) })
  | sw rs2 offset rs1 => some (h.goto (.rom l (k + 1)), sh.store32 L (h.get rs1 + offset) (h.get rs2))
  | fence | wfi => some (h.goto (.rom l (k + 1)), sh)
  | bne rs1 rs2 l' => some (h.goto (if h.get rs1 ≠ h.get rs2 then .rom l' 0 else .rom l (k + 1)), sh)
  | beq rs1 rs2 l' => some (h.goto (if h.get rs1 = h.get rs2 then .rom l' 0 else .rom l (k + 1)), sh)
  | blt rs1 rs2 l' => some (h.goto (if (h.get rs1).slt (h.get rs2) then .rom l' 0 else .rom l (k + 1)), sh)
  | j l' => some (h.goto (.rom l' 0), sh)
  | jr rs => some (h.goto (L.locate (h.get rs)), sh)
  | jalr rs => some ((h.set 1 (L.address l (k + 1))).goto (L.locate (h.get rs)), sh)
  | call l' => some ((h.set 1 (L.address l (k + 1))).goto (.rom l' 0), sh)
  | callHash => none

/-- `rot_hash_and_verify`: the words of the hash are compared one by one. -/
def rotHashAndVerify (m : Memory) : Option Bool := do
  let hash ← Sha3.sha3 (m.slice L.bootloaderPtr L.bootloaderSize) 64
  return (List.range 8).all fun i => (hash.drop (8 * i)).take 8 == (L.expectedHash.drop (8 * i)).take 8

/-- The harts, and what they share. -/
structure System where
  /-- The harts. -/
  hart : ℕ → Hart
  /-- What they share. -/
  shared : Shared

/-- What happens in a step, and to which hart. -/
inductive Act where
  /-- An instruction of the boot ROM. -/
  | instr (i : ℕ)
  /-- A software interrupt is taken. -/
  | interrupt (i : ℕ)
  /-- `rot_hash_and_verify` is called, and returns. -/
  | hash (i : ℕ)
  /-- The boot loader runs, and returns. -/
  | boot (i : ℕ)
  /-- A hart in the monitor does something. -/
  | monitor (i : ℕ)
  /-- The host loads memory. -/
  | load
  /-- The host changes its own registers. -/
  | host

/-- The byte is one of the stacks. -/
def Layout.InStacks (b : Word) : Prop := Within L.mStackBase (mStackSize * L.numHarts) b

/-- The byte is one of the host's registers, or is on the same page. -/
def InHtif (b : Word) : Prop := Within dramBase 0x1000 b

/-- `MIP_MSIP`, and `MSTATUS_MIE`. -/
def bit3 : Word := 8

/-- Compiled code has returned: it has changed the registers, and no control register. -/
structure Returned (h h' : Hart) (pc : Pc) : Prop where
  pc : h'.pc = pc
  csr : h'.csr = h.csr

/-- What may happen. `runs bytes m m'` says that running `bytes` as a boot loader may lead from `m` to `m'`. -/
inductive SysStep (runs : List Byte → Memory → Memory → Prop) (s : System) : Act → System → Prop where
  | instr {i : ℕ} {l : Label} {k : ℕ} {ins : Instr} {h : Hart} {sh : Shared} (hi : i < L.numHarts)
      (hpc : (s.hart i).pc = .rom l k) (hins : (source L.numHarts l)[k]? = some ins)
      (hexec : ins.exec L l k (s.hart i) s.shared = some (h, sh)) :
      SysStep runs s (.instr i) ⟨Function.update s.hart i h, sh⟩
  | hash {i : ℕ} {l : Label} {k : ℕ} {h : Hart} {m : Memory} {verified : Bool} (hi : i < L.numHarts)
      (hpc : (s.hart i).pc = .rom l k) (hins : (source L.numHarts l)[k]? = some .callHash)
      (hverify : rotHashAndVerify L s.shared.mem = some verified) (hret : Returned (s.hart i) h (.rom l (k + 1)))
      (ha0 : h.get 10 = if verified then 1 else 0) (hm : ∀ b, ¬ L.InStacks b → m b = s.shared.mem b) :
      SysStep runs s (.hash i) ⟨Function.update s.hart i h, { s.shared with mem := m }⟩
  | boot {i : ℕ} {h : Hart} {m : Memory} (hi : i < L.numHarts) (hpc : (s.hart i).pc = .bootloader)
      (hruns : runs (s.shared.mem.slice L.bootloaderPtr L.bootloaderSize) s.shared.mem m)
      (hret : Returned (s.hart i) h (L.locate ((s.hart i).get 1))) :
      SysStep runs s (.boot i) ⟨Function.update s.hart i h, { s.shared with mem := m }⟩
  | interrupt {i : ℕ} {l : Label} {k : ℕ} (hi : i < L.numHarts) (hpc : (s.hart i).pc = .rom l k)
      (hmie : (s.hart i).csr .mie &&& bit3 ≠ 0) (hmstatus : (s.hart i).csr .mstatus &&& bit3 ≠ 0)
      (hmsip : s.shared.msip i = true) :
      SysStep runs s (.interrupt i) ⟨Function.update s.hart i
        (((s.hart i).setCsr .mstatus ((s.hart i).csr .mstatus &&& ~~~bit3)).goto
          (L.locate ((s.hart i).csr .mtvec))), s.shared⟩
  | monitor {i : ℕ} {h : Hart} {sh : Shared} (hi : i < L.numHarts) (hpc : (s.hart i).pc = .sm) (hpc' : h.pc = .sm) :
      SysStep runs s (.monitor i) ⟨Function.update s.hart i h, sh⟩
  | load {m : Memory} {loading : Bool} (hloading : s.shared.loading = true) :
      SysStep runs s .load ⟨s.hart, { s.shared with mem := m, loading := loading }⟩
  | host {m : Memory} (hm : ∀ b, ¬ InHtif b → m b = s.shared.mem b) :
      SysStep runs s .host ⟨s.hart, { s.shared with mem := m }⟩

/-- All harts have just been reset. -/
structure Reset (s : System) : Prop where
  pc : ∀ i < L.numHarts, (s.hart i).pc = .rom .resetVector 0
  mhartid : ∀ i < L.numHarts, (s.hart i).csr .mhartid = BitVec.ofNat 64 i
  /-- No interrupt is enabled, so there are no others than those of the text. -/
  mie : ∀ i < L.numHarts, (s.hart i).csr .mie = 0
  mstatus : ∀ i < L.numHarts, (s.hart i).csr .mstatus = 0
  msip : ∀ i, s.shared.msip i = false

/-! ### What is to be shown -/

/-- The boot loader in memory has the expected hash. -/
def Layout.Verified (m : Memory) : Prop := Sha3.hash 64 (m.slice L.bootloaderPtr L.bootloaderSize) = L.expectedHash

/-- The value that a register has been given before the monitor is entered. -/
def Layout.cleanReg (i : ℕ) (r : Reg) : Word :=
  if r = 2 then L.mStackPtr else if r = 10 then BitVec.ofNat 64 i else if r = 11 then L.dtbPtr else 0

/-- The registers from `x2` up to the `n`-th have been cleaned. -/
def Layout.CleanUpTo (i n : ℕ) (h : Hart) : Prop := ∀ r : Reg, 2 ≤ r.val → r.val < n → h.reg r = L.cleanReg i r

/-- A hart that enters the monitor. -/
structure Layout.Clean (i : ℕ) (h : Hart) : Prop where
  regs : L.CleanUpTo i 32 h
  mscratch : h.csr .mscratch = 0

/-- The stacks are zero from an address on. -/
def Layout.ErasedFrom (m : Memory) (a : ℕ) : Prop := ∀ b, L.InStacks b → a ≤ b.toNat → m b = 0

/-- The stacks have been erased. -/
def Layout.Erased (m : Memory) : Prop := ∀ b, L.InStacks b → m b = 0

section Attestation

variable {G : Type} [AddCommGroup G] (c : Curve G)

/-- The header attests the monitor that is in memory. -/
def Layout.Booted (m : Memory) : Prop :=
  L.symbols.Placed m → ∃ seed, Attested c L.symbols m (deviceKey seed) (monitor L.symbols m)

/-- What has the expected hash runs as `rot_bootloader` does with some host that keeps to the page of its registers:
but for the stacks and that page it leaves memory as that does. -/
def Genuine (g : Ge) (runs : List Byte → Memory → Memory → Prop) : Prop :=
  ∀ bytes m m', Sha3.hash 64 bytes = L.expectedHash → runs bytes m m' →
    ∃ (H : Host) (beyond : ℕ → Byte) (trng : Fin 4 → Word) (n turn : ℕ) (taken : List Word) (s : State),
      (∀ t m b, ¬ InHtif b → H t m b = m b) ∧
      rotBootloader H g L.symbols beyond trng n ⟨m, turn, taken⟩ = some s ∧
      ∀ b, ¬ L.InStacks b → ¬ InHtif b → m' b = s.mem b

end Attestation

end Rot

end Boot

end Sanctum
