import Sanctum.Arch.PageTables
import Sanctum.Machine.LoadStore
import Sanctum.Trap.Preservation

/-!
# Emulating misaligned accesses

A misaligned load or store traps, and `misaligned_load_trap` or `misaligned_store_trap` does byte by byte
what the hart has not done. They find the registers in the frame, which `.save_regs_and_set_args` and
`trap_vector` have filled and `.restore_regs` and `.perform_mret` will drain, all but the slot of `sp`:
nobody fills it, and nobody drains it.

The addresses of the interrupted program are translated as its mode has them (`MSTATUS_MPRV`). What it can
access does not include the frame. What C puts on the M-mode stack, below the frame, is left out.

## What is proved

* `executed_iff` — afterwards the hart is as the instruction would have left it, exactly if this is no
  load to `sp` and no store of `sp`, or one that makes no difference.
* `not_executed` — a load to `sp`.
-/

namespace Sanctum

namespace Trap

namespace Misaligned

open Assembly LoadStore
open Memory (Within Apart)

/-! ### Constants -/

/-- `MASK_LH`. -/
def maskLh : Word := 0x707f
/-- `MATCH_LH`. -/
def matchLh : Word := 0x1003
/-- `MASK_LW`. -/
def maskLw : Word := 0x707f
/-- `MATCH_LW`. -/
def matchLw : Word := 0x2003
/-- `MASK_LD`. -/
def maskLd : Word := 0x707f
/-- `MATCH_LD`. -/
def matchLd : Word := 0x3003
/-- `MASK_LHU`. -/
def maskLhu : Word := 0x707f
/-- `MATCH_LHU`. -/
def matchLhu : Word := 0x5003
/-- `MASK_LWU`. -/
def maskLwu : Word := 0x707f
/-- `MATCH_LWU`. -/
def matchLwu : Word := 0x6003
/-- `MASK_SH`. -/
def maskSh : Word := 0x707f
/-- `MATCH_SH`. -/
def matchSh : Word := 0x1023
/-- `MASK_SW`. -/
def maskSw : Word := 0x707f
/-- `MATCH_SW`. -/
def matchSw : Word := 0x2023
/-- `MASK_SD`. -/
def maskSd : Word := 0x707f
/-- `MATCH_SD`. -/
def matchSd : Word := 0x3023

/-- `SH_RD`. -/
def shRd : ℕ := 7

/-- `SH_RS2`. -/
def shRs2 : ℕ := 20

/-- `LOG_REGBYTES`. -/
def logRegbytes : ℕ := 3

/-! ### The functions in C -/

/-- What the addresses of the interrupted program stand for. -/
structure AddressMap where
  /-- When it loads: `MSTATUS_MPRV` is set. -/
  read : Translation
  /-- When it stores. -/
  write : Translation
  /-- When its instructions are read: `MSTATUS_MXR` is set, too. -/
  fetch : Translation
  /-- Pages are translated as a whole. -/
  write_offset : KeepsOffset write

variable (map : AddressMap)

/-- `get_insn`. -/
def getInsn (m : Memory) (mepc : Word) : Option Word := (loadBytes map.fetch m mepc 4).map (BitVec.ofNat 64)

/-- `insn_len`. -/
def insnLen (insn : Word) : Word := if insn &&& 0x3 < 0x3 then 2 else 4

/-- `GET_REG`: the slot of the register whose number is at `pos` of an instruction. -/
def getReg (insn : Word) (pos : ℕ) (regs : Word) : Word :=
  let mask : Word := (1 : Word) <<< (5 + logRegbytes) - (1 : Word) <<< logRegbytes
  regs + (insn >>> (pos - logRegbytes) &&& mask)

/-- How many bytes a load has, and by how many bits the number is shifted to extend its sign. -/
structure LoadKind where
  /-- `len`. -/
  len : ℕ
  /-- `shift`. -/
  shift : ℕ

/-- What load an instruction is, if any. -/
def loadKind (insn : Word) : Option LoadKind :=
  if insn &&& maskLw = matchLw then some ⟨4, 8 * (8 - 4)⟩
  else if insn &&& maskLd = matchLd then some ⟨8, 8 * (8 - 8)⟩
  else if insn &&& maskLwu = matchLwu then some ⟨4, 0⟩
  else if insn &&& maskLh = matchLh then some ⟨2, 8 * (8 - 2)⟩
  else if insn &&& maskLhu = matchLhu then some ⟨2, 0⟩
  else none

/-- How many bytes a store has. -/
def storeLen (insn : Word) : Option ℕ :=
  if insn &&& maskSw = matchSw then some 4
  else if insn &&& maskSd = matchSd then some 8
  else if insn &&& maskSh = matchSh then some 2
  else none

/-- `misaligned_load_trap`: memory, and what is written to `mepc`. Nothing if the instruction is another
one or an access faults. -/
def misalignedLoadTrap (regs mepc mbadaddr : Word) (m : Memory) : Option (Memory × Word) := do
  let insn ← getInsn map m mepc
  let npc := mepc + insnLen insn
  let addr := mbadaddr
  let kind ← loadKind insn
  let val ← loadBytes map.read m addr kind.len
  let rd := (BitVec.ofNat 64 val <<< kind.shift).sshiftRight kind.shift
  return (m.store64 (getReg insn shRd regs) rd, npc)

/-- `misaligned_store_trap`, likewise. -/
def misalignedStoreTrap (regs mepc mbadaddr : Word) (m : Memory) : Option (Memory × Word) := do
  let insn ← getInsn map m mepc
  let npc := mepc + insnLen insn
  let val := m.load64 (getReg insn shRs2 regs)
  let len ← storeLen insn
  let addr := mbadaddr
  let m ← storeBytes map.write m addr len val.toNat
  return (m, npc)

/-- A call returns with memory and `mepc` as given, and the stack pointer as it was. -/
def Returns (h : Hart source) (o : Outcome source) (m : Memory) (npc : Word) : Prop :=
  ∃ h', o = .returned h' ∧ h'.get sp = h.get sp ∧ h'.mem = m ∧ h'.csr = Function.update h.csr .mepc npc

/-- The handlers of misaligned accesses are linked. -/
structure Links (outside : Outside source) : Prop where
  /-- `misaligned_load_trap`. -/
  load : ∀ h m npc, misalignedLoadTrap map (h.get a0) (h.get a2) (h.csr .mbadaddr) h.mem = some (m, npc) →
    Returns h (outside .misalignedLoadTrap h) m npc
  /-- `misaligned_store_trap`. -/
  store : ∀ h m npc, misalignedStoreTrap map (h.get a0) (h.get a2) (h.csr .mbadaddr) h.mem = some (m, npc) →
    Returns h (outside .misalignedStoreTrap h) m npc

/-! ### What is expected -/

/-- The value a load has from the address `a` on. -/
def loaded (op : LoadOp) (m : Memory) (a : Word) : Word :=
  extend op.signed op.bytes ((through m map.read).load a op.bytes)

/-- Byte number `j` of a word. -/
def byteOf (v : Word) (j : ℕ) : Byte := BitVec.ofNat 8 (v.toNat / 256 ^ j)

/-- The registers after an instruction. -/
def regsAfter (h₀ : Hart source) : Insn → Reg → Word
  | .load op rd _ _, r => if r = rd ∧ r ≠ x0 then loaded map op h₀.mem (h₀.csr .mbadaddr) else h₀.get r
  | .store _ _ _ _, r => h₀.get r

/-- An instruction stores the byte `b` at `p`. -/
def Stores (h₀ : Hart source) : Insn → Word → Byte → Prop
  | .load _ _ _ _, _, _ => False
  | .store op _ rs2 _, p, b =>
    ∃ j < op.bytes, map.write (h₀.csr .mbadaddr + BitVec.ofNat 64 j) = some p ∧ b = byteOf (h₀.get rs2) j

/-- The hart `h` is as `h₀` would be after the instruction, the frame aside. -/
structure Executed (i : Insn) (h₀ h : Hart source) : Prop where
  /-- The registers. -/
  regs : ∀ r, h.get r = regsAfter map h₀ i r
  /-- The program goes on with the next instruction; the other control registers are as they were. -/
  csr : ∀ c, h.csr c = if c = .mepc then h₀.csr .mepc + 4 else h₀.csr c
  /-- The bytes that are stored. -/
  stored : ∀ p b, Stores map h₀ i p b → h.mem p = b
  /-- The other bytes. -/
  mem : ∀ a, ¬ Within (h₀.csr .mscratch) 256 a → (∀ b, ¬ Stores map h₀ i a b) → h.mem a = h₀.mem a

/-- The cause of the trap. -/
def cause : Insn → Word
  | .load _ _ _ _ => 4
  | .store _ _ _ _ => 6

/-- The handler. -/
def handler : Insn → Label
  | .load _ _ _ _ => .misalignedLoadTrap
  | .store _ _ _ _ => .misalignedStoreTrap

/-- How its addresses are translated. -/
def AddressMap.translation : Insn → Translation
  | .load _ _ _ _ => map.read
  | .store _ _ _ _ => map.write

variable {flen : Bool}

/-- A program of the OS has trapped at the instruction `i`, which accesses memory from the address in
`mbadaddr` on. -/
structure Trapped (img : Image (S := source) (text flen)) (i : Insn) (h₀ : Hart source) : Prop where
  /-- The access is misaligned. -/
  cause : h₀.csr .mcause = cause i
  /-- No enclave is running. -/
  os : h₀.csr .memrbm = 0
  /-- `mscratch` holds the M-mode stack pointer. -/
  stack : h₀.csr .mscratch ≠ 0
  /-- The tables are in memory. -/
  tables_loaded : Loaded img h₀.mem
  /-- They are not in the frame. -/
  tables : ∀ t k l, t.entries[k]? = some l → ∀ r, r = ra ∨ r = t0 →
    Apart (img.table t + BitVec.ofNat 64 (4 * k)) 4 (slot (h₀.csr .mscratch) r) 8
  /-- The instruction can be read. -/
  fetchable : Accessible map.fetch (h₀.csr .mepc) 4
  /-- This is it. -/
  insn : (through h₀.mem map.fetch).load (h₀.csr .mepc) 4 = i.code
  /-- It is not in the frame. -/
  fetch_apart : ∀ j < 4, ∀ p, map.fetch (h₀.csr .mepc + BitVec.ofNat 64 j) = some p → ¬ Within (h₀.csr .mscratch) 256 p
  /-- The bytes can be accessed. -/
  accessible : Accessible (map.translation i) (h₀.csr .mbadaddr) i.bytes
  /-- They are not in the frame. -/
  apart : ∀ j < i.bytes, ∀ p, map.translation i (h₀.csr .mbadaddr + BitVec.ofNat 64 j) = some p →
    ¬ Within (h₀.csr .mscratch) 256 p

/-- The instruction does not need the slot of `sp`, or it makes no difference. -/
def SparesSp (h₀ : Hart source) : Insn → Prop
  | .load op rd _ _ => rd = sp → loaded map op h₀.mem (h₀.csr .mbadaddr) = h₀.get sp
  | .store op _ rs2 _ => rs2 = sp →
    ∀ j < op.bytes, byteOf (h₀.mem.load64 (slot (h₀.csr .mscratch) sp)) j = byteOf (h₀.get sp) j

/-! ### Decoding -/

/-- The opcode and what tells the instructions of an opcode apart. -/
theorem toNat_and_mask (w : Word) : (w &&& 0x707f).toNat = w.toNat % 128 + w.toNat / 4096 % 8 * 4096 := by
  have hsplit : w &&& 0x707f = w &&& 0x7f ||| w &&& 0x7000 := by
    rw [← BitVec.and_or_distrib_left]
    rfl
  have hlow : (w &&& 0x7f).toNat = _ := toNat_and_field (show (0x7f : Word).toNat = (2 ^ 7 - 1) * 2 ^ 0 by decide)
  have hhigh : (w &&& 0x7000).toNat = _ := toNat_and_field (show (0x7000 : Word).toNat = (2 ^ 3 - 1) * 2 ^ 12 by decide)
  have hdisjoint : (w &&& 0x7f) &&& (w &&& 0x7000) = 0 := by
    have hmasks : (0x7f : Word) &&& 0x7000 = 0 := by decide
    rw [BitVec.and_assoc, BitVec.and_comm w 0x7000, ← BitVec.and_assoc 0x7f, hmasks]
    simp
  rw [hsplit, ← BitVec.add_eq_or_of_and_eq_zero _ _ hdisjoint, BitVec.toNat_add_of_and_eq_zero hdisjoint, hlow, hhigh]
  omega

/-- An instruction by these. -/
theorem and_mask_eq {n opcode funct3 : ℕ} (hn : n < 2 ^ 32) (hopcode : n % 128 = opcode) (hfunct3 : n / 4096 % 8 = funct3) :
    (BitVec.ofNat 64 n : Word) &&& 0x707f = BitVec.ofNat 64 (opcode + funct3 * 4096) := by
  apply BitVec.eq_of_toNat_eq
  have hsum : opcode + funct3 * 4096 < 2 ^ 64 := by omega
  rw [toNat_and_mask, BitVec.toNat_ofNat, BitVec.toNat_ofNat, Nat.mod_eq_of_lt (show n < 2 ^ 64 by omega), hopcode,
    hfunct3, Nat.mod_eq_of_lt hsum]

theorem loadKind_code (op : LoadOp) (rd rs1 : Reg) (imm : BitVec 12) :
    loadKind (BitVec.ofNat 64 (Insn.load op rd rs1 imm).code) =
      some ⟨op.bytes, if op.signed then 8 * (8 - op.bytes) else 0⟩ := by
  obtain ⟨hlt, hopcode, hfunct3, -⟩ := Insn.code_load op rd rs1 imm
  have hand := and_mask_eq hlt hopcode hfunct3
  simp only [loadKind, maskLw, maskLd, maskLwu, maskLh, maskLhu, hand]
  cases op <;> rfl

theorem storeLen_code (op : StoreOp) (rs1 rs2 : Reg) (imm : BitVec 12) :
    storeLen (BitVec.ofNat 64 (Insn.store op rs1 rs2 imm).code) = some op.bytes := by
  obtain ⟨hlt, hopcode, hfunct3, -⟩ := Insn.code_store op rs1 rs2 imm
  have hand := and_mask_eq hlt hopcode hfunct3
  simp only [storeLen, maskSw, maskSd, maskSh, hand]
  cases op <;> rfl

/-- None of these is compressed. -/
theorem insnLen_code (i : Insn) : insnLen (BitVec.ofNat 64 i.code) = 4 := by
  have hcode : i.code < 2 ^ 32 ∧ i.code % 4 = 3 := by
    cases i with
    | load op rd rs1 imm =>
      obtain ⟨hlt, hopcode, -⟩ := Insn.code_load op rd rs1 imm
      exact ⟨hlt, by omega⟩
    | store op rs1 rs2 imm =>
      obtain ⟨hlt, hopcode, -⟩ := Insn.code_store op rs1 rs2 imm
      exact ⟨hlt, by omega⟩
  have hlow : (BitVec.ofNat 64 i.code &&& 0x3 : Word).toNat = _ :=
    toNat_and_field (show (0x3 : Word).toNat = (2 ^ 2 - 1) * 2 ^ 0 by decide)
  have h3 : (0x3 : Word).toNat = 3 := rfl
  rw [insnLen, if_neg]
  rw [BitVec.lt_def, hlow, BitVec.toNat_ofNat, h3]
  omega

/-- The slot of the register whose number is in a field. -/
theorem getReg_eq {n pos : ℕ} {r : Reg} (hn : n < 2 ^ 32) (hpos : 3 ≤ pos) (hr : n / 2 ^ pos % 32 = r) (regs : Word) :
    getReg (BitVec.ofNat 64 n) pos regs = slot regs r := by
  have hmask : ((1 : Word) <<< (5 + logRegbytes) - (1 : Word) <<< logRegbytes).toNat = (2 ^ 5 - 1) * 2 ^ 3 := by
    decide
  rw [getReg, slot]
  congr 1
  apply BitVec.eq_of_toNat_eq
  have hlt := r.isLt
  rw [toNat_and_field hmask, BitVec.toNat_ushiftRight, Nat.shiftRight_eq_div_pow, BitVec.toNat_ofNat, BitVec.toNat_ofNat,
    Nat.mod_eq_of_lt (show n < 2 ^ 64 by omega), Nat.div_div_eq_div_mul, ← pow_add, logRegbytes,
    Nat.sub_add_cancel hpos]
  show n / 2 ^ pos % 32 * 8 = _
  rw [hr, Nat.mod_eq_of_lt (by omega), Nat.mul_comm]

/-! ### What the functions do -/

variable {map}

theorem getInsn_eq {m : Memory} {mepc : Word} {i : Insn} (hfetch : Accessible map.fetch mepc 4)
    (hinsn : (through m map.fetch).load mepc 4 = i.code) : getInsn map m mepc = some (BitVec.ofNat 64 i.code) := by
  rw [getInsn, loadBytes_eq hfetch, hinsn]
  rfl

/-- A load puts its value in the slot of its register. -/
theorem misalignedLoadTrap_eq {op : LoadOp} {rd rs1 : Reg} {imm : BitVec 12} {regs mepc addr : Word} {m : Memory}
    (hfetch : Accessible map.fetch mepc 4)
    (hinsn : (through m map.fetch).load mepc 4 = (Insn.load op rd rs1 imm).code)
    (hread : Accessible map.read addr op.bytes) :
    misalignedLoadTrap map regs mepc addr m = some (m.store64 (slot regs rd) (loaded map op m addr), mepc + 4) := by
  obtain ⟨hlt, -, -, hrd⟩ := Insn.code_load op rd rs1 imm
  obtain ⟨hpos, hle⟩ := op.bytes_bounds
  have hslot : getReg (BitVec.ofNat 64 (Insn.load op rd rs1 imm).code) shRd regs = slot regs rd :=
    getReg_eq hlt (by decide) (by rw [shRd]; omega) regs
  have hvalue (v : ℕ) : (BitVec.ofNat 64 v <<< (if op.signed then 8 * (8 - op.bytes) else 0)).sshiftRight
      (if op.signed then 8 * (8 - op.bytes) else 0) = extend op.signed op.bytes v := by
    by_cases hsigned : op.signed = true
    · rw [if_pos hsigned, hsigned]
      exact shiftLeft_sshiftRight hpos hle
    · rw [if_neg hsigned, extend, if_neg hsigned, BitVec.shiftLeft_zero, BitVec.sshiftRight_zero]
  rw [misalignedLoadTrap, getInsn_eq hfetch hinsn, Option.bind_eq_bind, Option.bind_some, loadKind_code]
  show (loadBytes map.read m addr op.bytes).bind _ = _
  rw [loadBytes_eq hread, Option.bind_some, insnLen_code, hslot, hvalue]
  rfl

/-- A store takes its value from the slot of its register. -/
theorem misalignedStoreTrap_spec {op : StoreOp} {rs1 rs2 : Reg} {imm : BitVec 12} {regs mepc addr : Word} {m : Memory}
    (hfetch : Accessible map.fetch mepc 4)
    (hinsn : (through m map.fetch).load mepc 4 = (Insn.store op rs1 rs2 imm).code)
    (hwrite : Accessible map.write addr op.bytes) :
    ∃ m', misalignedStoreTrap map regs mepc addr m = some (m', mepc + 4) ∧
      (∀ j < op.bytes, ∀ p, map.write (addr + BitVec.ofNat 64 j) = some p →
        m' p = byteOf (m.load64 (slot regs rs2)) j) ∧
      ∀ b, (∀ j < op.bytes, map.write (addr + BitVec.ofNat 64 j) ≠ some b) → m' b = m b := by
  obtain ⟨hlt, -, -, hrs2⟩ := Insn.code_store op rs1 rs2 imm
  have hslot : getReg (BitVec.ofNat 64 (Insn.store op rs1 rs2 imm).code) shRs2 regs = slot regs rs2 :=
    getReg_eq hlt (by decide) (by rw [shRs2]; omega) regs
  obtain ⟨m', hstore, hin, hout⟩ := storeBytes_spec map.write_offset (m := m)
    (v := (m.load64 (slot regs rs2)).toNat) (le_trans op.bytes_le (by omega)) hwrite
  refine ⟨m', ?_, hin, hout⟩
  rw [misalignedStoreTrap, getInsn_eq hfetch hinsn, Option.bind_eq_bind, Option.bind_some, storeLen_code,
    Option.bind_eq_bind, Option.bind_some, hslot]
  show (storeBytes map.write m addr op.bytes _).bind _ = _
  rw [hstore, Option.bind_some, insnLen_code]
  rfl

/-! ### The trap -/

/-- A handler's function is called: the frame has every register but `sp`, and its arguments are there. -/
structure Called (h₀ g : Hart source) : Prop where
  /-- It is on the M-mode stack. -/
  stack : g.get sp = h₀.csr .mscratch
  /-- `regs`. -/
  regs : g.get a0 = h₀.csr .mscratch
  /-- `mepc`. -/
  mepc : g.get a2 = h₀.csr .mepc
  /-- `mscratch` has the stack pointer of the OS. -/
  scratch : g.csr .mscratch = h₀.get sp
  /-- The other control registers are as they were. -/
  csr : ∀ c, c ≠ .mscratch → g.csr c = h₀.csr c
  /-- The slots that are filled. -/
  slots : ∀ r, r ≠ sp → g.mem.load64 (slot (h₀.csr .mscratch) r) = h₀.get r
  /-- The one that is not. -/
  slot_sp : g.mem.load64 (slot (h₀.csr .mscratch) sp) = h₀.mem.load64 (slot (h₀.csr .mscratch) sp)
  /-- The rest of memory is as it was. -/
  mem : ∀ a, ¬ Within (h₀.csr .mscratch) 256 a → g.mem a = h₀.mem a

theorem enteredMem_of_not_within {h₀ : Hart source} {a : Word} (ha : ¬ Within (h₀.csr .mscratch) 256 a) :
    enteredMem h₀ a = h₀.mem a := by
  rw [enteredMem, Memory.store64_of_not_within fun hw => ha (within_frame hw),
    Memory.store64_of_not_within fun hw => ha (within_frame hw)]

/-- `.save_regs_and_set_args` fills the frame. -/
theorem called_savedHart {h₀ h : Hart source} (he : Entered h₀ h) (ret ret' : Word) :
    Called h₀ ((savedHart h ret).set ra ret') := by
  have hstack := he.stack
  have hsaved : ∀ r, ((savedHart h ret).set ra ret').mem.load64 (slot (h₀.csr .mscratch) r) =
      if r ∈ x0 :: savedRegs then h.get r else h.mem.load64 (slot (h₀.csr .mscratch) r) := by
    intro r
    rw [← hstack]
    exact load_savedHart h ret r
  refine ⟨hstack, hstack, he.csr .mepc (by decide), he.scratch, he.csr, fun r hr => ?_, ?_, fun a ha => ?_⟩
  · rw [hsaved]
    split
    · next hmem =>
      by_cases h0 : r = x0
      · rw [h0, Hart.get_zero, Hart.get_zero]
      · obtain ⟨-, hra, -, ht0⟩ := mem_savedRegs.mp ((List.mem_cons.mp hmem).resolve_left h0)
        exact he.others r hra hr ht0
    · next hmem =>
      refine he.load_slot (by_contra fun hne => hmem ?_)
      by_cases h0 : r = x0
      · exact List.mem_cons.mpr (.inl h0)
      · exact List.mem_cons_of_mem _ (mem_savedRegs.mpr ⟨h0, fun e => hne (.inl e), hr, fun e => hne (.inr e)⟩)
  · rw [hsaved, if_neg (by decide), he.mem, enteredMem, load_store_slot, if_neg (by decide), load_store_slot,
      if_neg (by decide)]
  · have hrest : (savedHart h ret).mem a = h.mem a := storedMem_of_not_within (h.set ra ret) (by rwa [← hstack] at ha) _ _
    exact hrest.trans (by rw [he.mem, enteredMem_of_not_within ha])

/-- The function of a handler, given what it reads. -/
def emulate (map : AddressMap) (i : Insn) (regs mepc mbadaddr : Word) (m : Memory) : Option (Memory × Word) :=
  match i with
  | .load _ _ _ _ => misalignedLoadTrap map regs mepc mbadaddr m
  | .store _ _ _ _ => misalignedStoreTrap map regs mepc mbadaddr m

/-- The hart is back, and the function has left memory as `m`. -/
structure Finished (h₀ h : Hart source) (m : Memory) : Prop where
  /-- The stack pointer comes from `mscratch`. -/
  stack : h.get sp = h₀.get sp
  /-- The other registers come from the frame. -/
  regs : ∀ r, r ≠ x0 → r ≠ sp → h.get r = m.load64 (slot (h₀.csr .mscratch) r)
  /-- The program goes on with the next instruction. -/
  csr : ∀ c, h.csr c = if c = .mepc then h₀.csr .mepc + 4 else h₀.csr c
  /-- Memory is as it was left. -/
  mem : h.mem = m

variable {img : Image (S := source) (text flen)} {outside : Outside source} {h₀ : Hart source} {i : Insn}

theorem osHandler_cause (i : Insn) : osHandler (cause i) = some (handler i) := by
  have hload : osHandler 4 = some .misalignedLoadTrap := by decide
  have hstore : osHandler 6 = some .misalignedStoreTrap := by decide
  cases i with
  | load _ _ _ _ => exact hload
  | store _ _ _ _ => exact hstore

/-- From `trap_vector` to the function, and back. -/
theorem Trapped.steps (htrapped : Trapped map img i h₀) (hlinks : Links map outside) :
    ∃ g, Called h₀ g ∧
      ∀ m, emulate map i (h₀.csr .mscratch) (h₀.csr .mepc) (h₀.csr .mbadaddr) g.mem = some (m, h₀.csr .mepc + 4) →
        ∃ h, Steps img outside (.running .trapVector 0 h₀) (.resumed h) ∧ Finished h₀ h m := by
  obtain ⟨h₁, htrap, he₁, ht0⟩ := steps_trapVector img outside htrapped.stack htrapped.os
  have hloaded : Loaded img h₁.mem := by
    rw [he₁.mem]
    exact htrapped.tables_loaded.entered htrapped.tables
  have hhandler : osHandler (h₁.get t0) = some (handler i) := by
    rw [ht0, htrapped.cause]
    exact osHandler_cause i
  obtain ⟨h₂, hroute, he₂, -⟩ := steps_routeOsTrapOrInterrupt img outside he₁ hloaded hhandler
  obtain ⟨f, hf⟩ : ∃ f, handlerFunction (handler i) = some f := by cases i <;> exact ⟨_, rfl⟩
  have hat : ∀ k : ℕ, (text flen (handler i))[k]? = (wrapper f)[k]? := fun k => by rw [text_of_handlerFunction hf]
  have hsave := run_save img outside (hat 0) (List.getElem?_eq_some_iff.mp (hat 1)).1 h₂
  let g := (savedHart h₂ (img.address (handler i) 1)).set ra (img.address (handler i) 2)
  have hcalled : Called h₀ g := called_savedHart he₂ _ _
  refine ⟨g, hcalled, fun m hm => ?_⟩
  have hreturns : Returns g (outside f g) m (h₀.csr .mepc + 4) := by
    rw [← hcalled.regs, ← hcalled.mepc, ← hcalled.csr .mbadaddr (by decide)] at hm
    rw [← hcalled.mepc]
    cases i with
    | load op rd rs1 imm =>
      cases hf
      exact hlinks.load g m _ hm
    | store op rs1 rs2 imm =>
      cases hf
      exact hlinks.store g m _ hm
  obtain ⟨h₃, hout, hsp, hmem, hcsr⟩ := hreturns
  have hreturn : Steps img outside (.running (handler i) 1 (savedHart h₂ (img.address (handler i) 1)))
      (.running (handler i) 2 h₃) := .callOutside_returned (hat 1) hout
  obtain ⟨h, hrestore, hsp', hscratch', hregs, hcsr', hmem'⟩ := steps_restore_mret img outside (hat 2) (hat 3) h₃
  refine ⟨h, htrap.trans (hroute.trans (hsave.trans (hreturn.trans hrestore))), ?_, fun r h0 hrsp => ?_, fun c => ?_,
    hmem'.trans hmem⟩
  · rw [hsp', hcsr, Function.update_of_ne (by decide), hcalled.scratch]
  · rw [hregs r h0 hrsp, hsp, hcalled.stack, hmem]
  · by_cases hscratch : c = .mscratch
    · rw [hscratch, hscratch', hsp, hcalled.stack, if_neg (by decide)]
    · rw [hcsr' c hscratch, hcsr, Function.update_apply, hcalled.csr c hscratch]

/-! ### Loads and stores -/

/-- What the function reads is as it was at the trap. -/
theorem Called.load_through {g : Hart source} (hcalled : Called h₀ g) {t : Translation} {a : Word} {n : ℕ}
    (hapart : ∀ j < n, ∀ p, t (a + BitVec.ofNat 64 j) = some p → ¬ Within (h₀.csr .mscratch) 256 p) :
    (through g.mem t).load a n = (through h₀.mem t).load a n :=
  load_through_congr fun j hj p hp => hcalled.mem p (hapart j hj p hp)

/-- After a load, every register but `sp` is what it should be. -/
theorem Finished.executed_load_iff {g h : Hart source} {op : LoadOp} {rd rs1 : Reg} {imm : BitVec 12}
    (hcalled : Called h₀ g)
    (hfinished : Finished h₀ h
      (g.mem.store64 (slot (h₀.csr .mscratch) rd) (loaded map op h₀.mem (h₀.csr .mbadaddr)))) :
    Executed map (.load op rd rs1 imm) h₀ h ↔ SparesSp map h₀ (.load op rd rs1 imm) := by
  constructor
  · rintro hexecuted rfl
    have hsp := hexecuted.regs sp
    rw [regsAfter, if_pos ⟨rfl, by decide⟩, hfinished.stack] at hsp
    exact hsp.symm
  · intro hspares
    refine ⟨fun r => ?_, hfinished.csr, nofun, fun a ha _ => ?_⟩
    · rw [regsAfter]
      by_cases h0 : r = x0
      · rw [if_neg fun h => h.2 h0, h0, Hart.get_zero, Hart.get_zero]
      by_cases hsp : r = sp
      · rw [hsp, hfinished.stack]
        split
        · next hrd => exact (hspares hrd.1.symm).symm
        · rfl
      · rw [hfinished.regs r h0 hsp, load_store_slot, hcalled.slots r hsp]
        exact if_congr (and_iff_left h0).symm rfl rfl
    · rw [hfinished.mem, Memory.store64_of_not_within fun hw => ha (within_frame hw), hcalled.mem a ha]

/-- After a store of another register than `sp`, everything is. -/
theorem Finished.executed_store_iff {g h : Hart source} {op : StoreOp} {rs1 rs2 : Reg} {imm : BitVec 12} {m : Memory}
    (htrapped : Trapped map img (.store op rs1 rs2 imm) h₀) (hcalled : Called h₀ g) (hfinished : Finished h₀ h m)
    (hin : ∀ j < op.bytes, ∀ p, map.write (h₀.csr .mbadaddr + BitVec.ofNat 64 j) = some p →
      m p = byteOf (g.mem.load64 (slot (h₀.csr .mscratch) rs2)) j)
    (hout : ∀ b, (∀ j < op.bytes, map.write (h₀.csr .mbadaddr + BitVec.ofNat 64 j) ≠ some b) → m b = g.mem b) :
    Executed map (.store op rs1 rs2 imm) h₀ h ↔ SparesSp map h₀ (.store op rs1 rs2 imm) := by
  constructor
  · rintro hexecuted rfl j hj
    obtain ⟨p, hp⟩ := htrapped.accessible j hj
    rw [← hcalled.slot_sp, ← hin j hj p hp, ← hfinished.mem]
    exact hexecuted.stored p _ ⟨j, hj, hp, rfl⟩
  · intro hspares
    -- the frame is not stored over
    have hslots : ∀ r, m.load64 (slot (h₀.csr .mscratch) r) = g.mem.load64 (slot (h₀.csr .mscratch) r) := by
      intro r
      refine Memory.load64_congr fun x hx => hout x fun j hj hp => ?_
      exact htrapped.apart j hj x hp (within_frame hx)
    refine ⟨fun r => ?_, hfinished.csr, ?_, fun a ha hstored => ?_⟩
    · show h.get r = h₀.get r
      by_cases h0 : r = x0
      · rw [h0, Hart.get_zero, Hart.get_zero]
      by_cases hsp : r = sp
      · rw [hsp, hfinished.stack]
      · rw [hfinished.regs r h0 hsp, hslots, hcalled.slots r hsp]
    · rintro p b ⟨j, hj, hp, rfl⟩
      rw [hfinished.mem, hin j hj p hp]
      by_cases hsp : rs2 = sp
      · rw [hsp, hcalled.slot_sp]
        exact hspares hsp j hj
      · rw [hcalled.slots rs2 hsp]
    · rw [hfinished.mem, hout a fun j hj hp => hstored _ ⟨j, hj, hp, rfl⟩, hcalled.mem a ha]

/-- There is one end only. -/
theorem exists_executed_iff {h : Hart source} (hh : Steps img outside (.running .trapVector 0 h₀) (.resumed h)) :
    (∃ h, Steps img outside (.running .trapVector 0 h₀) (.resumed h) ∧ Executed map i h₀ h) ↔ Executed map i h₀ h := by
  refine ⟨?_, fun hexecuted => ⟨h, hh, hexecuted⟩⟩
  rintro ⟨h', hh', hexecuted⟩
  rwa [hh.resumed_unique hh']

theorem Trapped.load_iff {op : LoadOp} {rd rs1 : Reg} {imm : BitVec 12}
    (htrapped : Trapped map img (.load op rd rs1 imm) h₀) (hlinks : Links map outside) :
    (∃ h, Steps img outside (.running .trapVector 0 h₀) (.resumed h) ∧ Executed map (.load op rd rs1 imm) h₀ h) ↔
      SparesSp map h₀ (.load op rd rs1 imm) := by
  obtain ⟨g, hcalled, hsteps⟩ := htrapped.steps hlinks
  have hinsn := (hcalled.load_through htrapped.fetch_apart).trans htrapped.insn
  have hloaded : loaded map op g.mem (h₀.csr .mbadaddr) = loaded map op h₀.mem (h₀.csr .mbadaddr) :=
    congrArg (extend op.signed op.bytes) (hcalled.load_through htrapped.apart)
  have hemulate : misalignedLoadTrap map (h₀.csr .mscratch) (h₀.csr .mepc) (h₀.csr .mbadaddr) g.mem = _ :=
    misalignedLoadTrap_eq htrapped.fetchable hinsn htrapped.accessible
  rw [hloaded] at hemulate
  obtain ⟨h, hh, hfinished⟩ := hsteps _ hemulate
  rw [exists_executed_iff hh, hfinished.executed_load_iff hcalled]

theorem Trapped.store_iff {op : StoreOp} {rs1 rs2 : Reg} {imm : BitVec 12}
    (htrapped : Trapped map img (.store op rs1 rs2 imm) h₀) (hlinks : Links map outside) :
    (∃ h, Steps img outside (.running .trapVector 0 h₀) (.resumed h) ∧ Executed map (.store op rs1 rs2 imm) h₀ h) ↔
      SparesSp map h₀ (.store op rs1 rs2 imm) := by
  obtain ⟨g, hcalled, hsteps⟩ := htrapped.steps hlinks
  have hinsn := (hcalled.load_through htrapped.fetch_apart).trans htrapped.insn
  obtain ⟨m, hemulate, hin, hout⟩ :=
    misalignedStoreTrap_spec htrapped.fetchable hinsn htrapped.accessible
  obtain ⟨h, hh, hfinished⟩ := hsteps m hemulate
  rw [exists_executed_iff hh, hfinished.executed_store_iff htrapped hcalled hin hout]

/-- **When the emulated instruction does what the instruction does**: if it does not load `sp` or store it, or
if that makes no difference. -/
theorem executed_iff (hlinks : Links map outside) (htrapped : Trapped map img i h₀) :
    (∃ h, Steps img outside (.running .trapVector 0 h₀) (.resumed h) ∧ Executed map i h₀ h) ↔ SparesSp map h₀ i := by
  cases i with
  | load op rd rs1 imm => exact htrapped.load_iff hlinks
  | store op rs1 rs2 imm => exact htrapped.store_iff hlinks

/-! ### A load to `sp` -/

/-- Addresses of memory. -/
def AddressMap.physical : AddressMap := ⟨some, some, some, fun _ _ h => by rw [Option.some.inj h]⟩

/-- A call that returns what a function has computed. -/
def returnsTo (h : Hart source) : Option (Memory × Word) → Outcome source
  | some (m, npc) => .returned { h with csr := Function.update h.csr .mepc npc, mem := m }
  | none => .never

/-- The handlers of misaligned accesses, linked. -/
def emulating (map : AddressMap) : Outside source
  | .misalignedLoadTrap, h => returnsTo h (misalignedLoadTrap map (h.get a0) (h.get a2) (h.csr .mbadaddr) h.mem)
  | .misalignedStoreTrap, h => returnsTo h (misalignedStoreTrap map (h.get a0) (h.get a2) (h.csr .mbadaddr) h.mem)
  | _, _ => .never

theorem links_emulating (map : AddressMap) : Links map (emulating map) where
  load h m npc hm := by
    rw [emulating, hm]
    exact ⟨_, rfl, rfl, rfl, rfl⟩
  store h m npc hm := by
    rw [emulating, hm]
    exact ⟨_, rfl, rfl, rfl, rfl⟩

/-- A hart that has executed `i`, which is at `0x80060000`, with the address `0x80070001`. -/
def misalignedHart (i : Insn) : Hart source where
  reg r := if r = sp then 0x80050000 else 0
  csr c := match c with
    | .mscratch => machineSp
    | .mcause => cause i
    | .mepc => 0x80060000
    | .mbadaddr => 0x80070001
    | _ => 0
  mem := tablesMem.store32 0x80060000 (BitVec.ofNat 32 i.code)

/-- Bytes above the M-mode stack are not in the frame. -/
theorem not_within_frame {a : Word} (ha : 0x80021000 ≤ a.toNat) : ¬ Within machineSp 256 a := by
  have hsp : machineSp.toNat = 0x80020EC0 := rfl
  rw [Memory.within_iff (by omega)]
  omega

theorem trapped_misalignedHart (i : Insn) : Trapped .physical (linked true) i (misalignedHart i) := by
  have hbytes : i.bytes ≤ 8 := by
    cases i with
    | load op _ _ _ => exact op.bytes_bounds.2
    | store op _ _ _ => exact op.bytes_le
  have hcode : i.code < 2 ^ 32 := by
    cases i with
    | load op rd rs1 imm => exact (Insn.code_load op rd rs1 imm).1
    | store op rs1 rs2 imm => exact (Insn.code_store op rs1 rs2 imm).1
  -- neither the instruction nor what it accesses is in the frame
  have hapart (a : Word) (j : ℕ) (ha : 0x80060000 ≤ a.toNat ∧ a.toNat ≤ 0x80070001) (hj : j < 8) :
      ¬ Within machineSp 256 (a + BitVec.ofNat 64 j) := by
    refine not_within_frame ?_
    rw [BitVec.toNat_add, BitVec.toNat_ofNat]
    omega
  refine ⟨rfl, rfl, (by decide : machineSp ≠ 0), fun t k l hl => ?_, fun t k l hl r _ => apart_table_slot hl r,
    fun j _ => ⟨0x80060000 + BitVec.ofNat 64 j, rfl⟩, ?_, ?_, ?_, ?_⟩
  · have ha := toNat_table_le hl
    have hinsn : (0x80060000 : Word).toNat = 0x80060000 := rfl
    have hkeep : (misalignedHart i).mem.load32 ((linked true).table t + BitVec.ofNat 64 (4 * k)) =
        tablesMem.load32 ((linked true).table t + BitVec.ofNat 64 (4 * k)) :=
      Memory.load32_store32_of_apart (Memory.apart_of_le (by omega) (by omega))
    rw [hkeep]
    exact loaded_tablesMem t k l hl
  · have hload := Memory.load32_store32_self tablesMem 0x80060000 (BitVec.ofNat 32 i.code)
    have hnat := congrArg BitVec.toNat hload
    rw [Memory.toNat_load32, BitVec.toNat_ofNat, Nat.mod_eq_of_lt hcode] at hnat
    exact hnat
  · rintro j hj p hp
    obtain rfl := Option.some.inj hp
    exact hapart 0x80060000 j (by decide) (by omega)
  · exact fun j _ => by cases i <;> exact ⟨_, rfl⟩
  · rintro j hj p hp
    obtain rfl : 0x80070001 + BitVec.ofNat 64 j = p := by cases i <;> exact Option.some.inj hp
    exact hapart 0x80070001 j (by decide) (by omega)

/-- A load to `a0`. -/
theorem executed_iff_load_a0 :
    (∃ h, Steps (linked true) (emulating .physical) (.running .trapVector 0 (misalignedHart (.load .lw a0 a1 0)))
      (.resumed h) ∧ Executed .physical (.load .lw a0 a1 0) (misalignedHart (.load .lw a0 a1 0)) h) ↔
      SparesSp .physical (misalignedHart (.load .lw a0 a1 0)) (.load .lw a0 a1 0) :=
  executed_iff (links_emulating .physical) (trapped_misalignedHart _)

/-- A load to `sp` does nothing. -/
theorem not_executed :
    Links .physical (emulating .physical) ∧
      Trapped .physical (linked true) (.load .lw sp a1 0) (misalignedHart (.load .lw sp a1 0)) ∧
      ¬ ∃ h, Steps (linked true) (emulating .physical) (.running .trapVector 0 (misalignedHart (.load .lw sp a1 0)))
        (.resumed h) ∧ Executed .physical (.load .lw sp a1 0) (misalignedHart (.load .lw sp a1 0)) h := by
  have htrapped := trapped_misalignedHart (.load .lw sp a1 0)
  refine ⟨links_emulating _, htrapped, fun hexecuted => ?_⟩
  have hspares := (htrapped.load_iff (links_emulating _)).mp hexecuted rfl
  exact absurd hspares (by decide +kernel)

end Misaligned

end Trap

end Sanctum
