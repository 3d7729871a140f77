import Mathlib.Tactic.IntervalCases
import Sanctum.Util.Strings

/-!
# The scan of a device tree

The part of `fdt.c` that goes through a flattened device tree: `fdt_scan` and `fdt_scan_helper`, and
the functions that its callbacks take a property's value apart with.

`fdt_scan_helper` calls itself for the children of a node, and each of the calls has a record for
the children it comes across. The record of a node is thus in the frame of its parent's call; a list
of records stands for a pointer to the first of them, whose `parent` is the second, and the empty list
for a null pointer.

A failed assertion ends the run, and so does the access to a null pointer: then there is no result.
-/

namespace Sanctum

namespace Fdt

/-! ### Words of the blob -/

/-- The characters of a string constant. -/
def ascii (s : String) : List Byte := s.toList.map fun c => BitVec.ofNat 8 c.toNat

/-- `bswap`. -/
def bswap (x : BitVec 32) : BitVec 32 :=
  let y := (x &&& 0x00FF00FF) <<< 8 ||| (x &&& 0xFF00FF00) >>> 8
  (y &&& 0x0000FFFF) <<< 16 ||| (y &&& 0xFFFF0000) >>> 16

/-- `bswap(*p)`. -/
def cell (m : Memory) (p : Word) : BitVec 32 := bswap (m.load32 p)

/-- `FDT_MAGIC`. -/
def fdtMagic : BitVec 32 := 0xd00dfeed

/-- `FDT_VERSION`. -/
def fdtVersion : BitVec 32 := 17

/-- `FDT_BEGIN_NODE`. -/
def fdtBeginNode : BitVec 32 := 1

/-- `FDT_END_NODE`. -/
def fdtEndNode : BitVec 32 := 2

/-- `FDT_PROP`. -/
def fdtProp : BitVec 32 := 3

/-- `FDT_NOP`. -/
def fdtNop : BitVec 32 := 4

/-- `FDT_END`. -/
def fdtEnd : BitVec 32 := 9

/-- A field of `struct fdt_header`, by its place in the structure. -/
def header (m : Memory) (fdt : Word) (i : ℕ) : BitVec 32 := cell m (fdt + BitVec.ofNat 64 (4 * i))

/-! ### Records -/

/-- `struct fdt_scan_node`, but for the pointer to the parent. -/
structure ScanNode where
  /-- `name`. -/
  name : Word
  /-- `address_cells`. -/
  addressCells : BitVec 32
  /-- `size_cells`. -/
  sizeCells : BitVec 32
  deriving DecidableEq

/-- `child` when a call of `fdt_scan_helper` begins. Its name has not been set, and is not read before
it is. -/
def ScanNode.fresh : ScanNode := ⟨0, 2, 1⟩

/-- `struct fdt_scan_prop`, but for the pointer to the node. -/
structure ScanProp where
  /-- `name`. -/
  name : Word
  /-- `value`. -/
  value : Word
  /-- `len`. -/
  len : BitVec 32
  deriving DecidableEq

/-- Memory, and what `extra` points to. -/
structure ScanState (ε : Type) where
  /-- Memory. -/
  mem : Memory
  /-- `*extra`. -/
  extra : ε

/-- `struct fdt_cb`. A null pointer is a callback that does nothing, or returns `0`. -/
structure FdtCb (ε : Type) where
  /-- `open`. -/
  onOpen : List ScanNode → ScanState ε → Option (ScanState ε)
  /-- `prop`. -/
  onProp : List ScanNode → ScanProp → ScanState ε → Option (ScanState ε)
  /-- `done`. -/
  onDone : List ScanNode → ScanState ε → Option (ScanState ε)
  /-- `close`. -/
  onClose : List ScanNode → ScanState ε → Option (ℤ × ScanState ε)

variable {ε : Type}

/-! ### `fdt_scan` -/

/-- The property whose token is at `lex`. -/
def scanProp (m : Memory) (strings lex : Word) : ScanProp where
  name := strings + (cell m (lex + 8)).setWidth 64
  value := lex + 12
  len := cell m (lex + 4)

/-- What the property says of the cells of its node. -/
def setCells (m : Memory) (prop : ScanProp) (node : ScanNode) : ScanNode :=
  let node := if m.strcmp prop.name (ascii "#address-cells") = 0
    then { node with addressCells := cell m prop.value } else node
  if m.strcmp prop.name (ascii "#size-cells") = 0 then { node with sizeCells := cell m prop.value } else node

/-- Where the scan goes on after a property. `len` is an `int`. -/
def afterProp (lex : Word) (len : BitVec 32) : Word := lex + 4 * (3 + (len + 3).sdiv 4).signExtend 64

/-- `if (!last && node && cb->done) cb->done(node, cb->extra)`. -/
def FdtCb.doneUnless (cb : FdtCb ε) (last : Bool) (node : List ScanNode) (s : ScanState ε) : Option (ScanState ε) :=
  if last = false ∧ node ≠ [] then cb.onDone node s else some s

/-- `while (lex != lex_next) *lex++ = bswap(FDT_NOP)`, for `n` words. -/
def writeNops : ℕ → Word → Memory → Memory
  | 0, _, m => m
  | n + 1, lex, m => writeNops n (lex + 4) (m.store32 lex (bswap fdtNop))

/-- What happens after `close`. The words from `lex` to `lexNext` are overwritten if it returned `-1`. -/
def eraseIf (result : ℤ) (lex lexNext : Word) (s : ScanState ε) : ScanState ε :=
  if result = -1 then { s with mem := writeNops ((lexNext - lex).toNat / 4) lex s.mem } else s

/-- The loop of `fdt_scan_helper`: it returns where it has stopped, and `node` as it is then. -/
def fdtScanHelper (cb : FdtCb ε) (strings : Word) :
    ℕ → Word → List ScanNode → ScanNode → Bool → ScanState ε → Option (Word × List ScanNode × ScanState ε)
  | 0, _, _, _, _, _ => none
  | fuel + 1, lex, node, child, last, s =>
    if cell s.mem lex = fdtNop then fdtScanHelper cb strings fuel (lex + 4) node child last s
    else if cell s.mem lex = fdtProp then
      if last then none
      else do
        let prop := scanProp s.mem strings lex
        let node := node.modifyHead (setCells s.mem prop)
        let s ← cb.onProp node prop s
        fdtScanHelper cb strings fuel (afterProp lex prop.len) node child last s
    else if cell s.mem lex = fdtBeginNode then do
      let s ← cb.doneUnless last node s
      let child := { child with name := lex + 4 }
      let s ← cb.onOpen (child :: node) s
      let length ← s.mem.strlen child.name
      let (lexNext, childNode, s) ←
        fdtScanHelper cb strings fuel (lex + BitVec.ofNat 64 (4 * (2 + length / 4))) (child :: node) .fresh false s
      let child := childNode.headD child
      let (result, s) ← cb.onClose (child :: node) s
      fdtScanHelper cb strings fuel lexNext node child true (eraseIf result lex lexNext s)
    else if cell s.mem lex = fdtEndNode then do
      let s ← cb.doneUnless last node s
      return (lex + 4, node, s)
    else do
      let s ← cb.doneUnless last node s
      return (lex, node, s)

/-- `fdt_scan`. The address at which `fdt_scan_helper` stops is dropped there. -/
def fdtScan (cb : FdtCb ε) (fuel : ℕ) (fdt : Word) (s : ScanState ε) : Option (ScanState ε) :=
  if header s.mem fdt 0 ≠ fdtMagic ∨ header s.mem fdt 6 > fdtVersion then some s
  else
    let strings := fdt + (header s.mem fdt 3).setWidth 64
    let lex := fdt + (header s.mem fdt 2).setWidth 64
    (fdtScanHelper cb strings fuel lex [] .fresh false s).map fun r => r.2.2

/-! ### Values -/

/-- The loop of `fdt_get_address` and `fdt_get_size`. -/
def getCells (m : Memory) : ℕ → Word → Word → Word × Word
  | 0, value, result => (value, result)
  | cells + 1, value, result => getCells m cells (value + 4) (result <<< 32 + (cell m value).setWidth 64)

/-- `fdt_get_address`, if `node` is not null. Returns the address after the cells, and the number. -/
def fdtGetAddress (m : Memory) (node : ScanNode) (value : Word) : Word × Word :=
  getCells m node.addressCells.toInt.toNat value 0

/-- `fdt_get_size`. -/
def fdtGetSize (m : Memory) (node : ScanNode) (value : Word) : Word × Word :=
  getCells m node.sizeCells.toInt.toNat value 0

/-- The loop of `fdt_string_list_index`. `left` is `end - list`. -/
def stringListLoop (m : Memory) (str : List Byte) : ℕ → Word → ℤ → ℤ → Option ℤ
  | 0, _, _, _ => none
  | fuel + 1, list, left, index =>
    if left > 0 then
      if m.strcmp list str = 0 then some index
      else (m.strlen list).bind fun length =>
        stringListLoop m str fuel (list + BitVec.ofNat 64 (length + 1)) (left - (length + 1)) (index + 1)
    else some (-1)

/-- `fdt_string_list_index`. A list has at most as many strings as bytes. -/
def fdtStringListIndex (m : Memory) (prop : ScanProp) (str : List Byte) : Option ℤ :=
  stringListLoop m str (prop.len.toInt.toNat + 1) prop.value prop.len.toInt 0

/-! ### Words -/

/-- Byte by byte, a word is turned round. -/
theorem be32_bswap (x : BitVec 32) : be32 (bswap x) = (be32 x).reverse := by
  have hbyte : ∀ k < 4, (bswap x).extractLsb' (8 * k) 8 = x.extractLsb' (8 * (3 - k)) 8 := by
    intro k hk
    apply BitVec.eq_of_getLsbD_eq
    intro i hi
    interval_cases k <;> interval_cases i <;> simp [bswap]
  have h0 := hbyte 0 (by omega)
  have h1 := hbyte 1 (by omega)
  have h2 := hbyte 2 (by omega)
  have h3 := hbyte 3 (by omega)
  exact congrArg₂ (· :: ·) h3 (congrArg₂ (· :: ·) h2 (congrArg₂ (· :: ·) h1 (congrArg₂ (· :: ·) h0 rfl)))

theorem be32_cell (m : Memory) (a : Word) : be32 (cell m a) = [m a, m (a + 1), m (a + 2), m (a + 3)] := by
  rw [cell, be32_bswap, be32_load32]
  rfl

/-- **What a word of the blob says.** -/
theorem cell_eq_iff {m : Memory} {a : Word} {x : BitVec 32} : cell m a = x ↔ m.Holds a (be32 x) := by
  have h1 : a + 1 + 1 = a + 2 := BitVec.add_assoc a 1 1
  have h2 : a + 2 + 1 = a + 3 := BitVec.add_assoc a 2 1
  have hholds (y : BitVec 32) : m.Holds a (be32 y) ↔ be32 y = [m a, m (a + 1), m (a + 2), m (a + 3)] := by
    simp only [be32, Memory.Holds, h1, h2, List.cons.injEq, and_true]
    constructor <;> rintro ⟨e0, e1, e2, e3⟩ <;> exact ⟨e0.symm, e1.symm, e2.symm, e3.symm⟩
  rw [hholds, ← be32_cell]
  exact ⟨fun h => h ▸ rfl, fun h => (be32_injective h).symm⟩

theorem holds_store32_bswap (m : Memory) (a : Word) (x : BitVec 32) : (m.store32 a (bswap x)).Holds a (be32 x) := by
  rw [← cell_eq_iff, cell, Memory.load32_store32_self]
  apply be32_injective
  rw [be32_bswap, be32_bswap, List.reverse_reverse]

end Fdt

end Sanctum
