import Sanctum.Fdt.Scan

/-!
# Device trees

What a blob means: a tree of nodes that have properties, with any number of `FDT_NOP` words before
each token. The nodes at one level are a list, of which each has a list of children; `Forest` is such
a list, and the blob's own is that of the root alone.

`Forest.encode` is the structure block, without the `FDT_END` at the end of it. A blob (`Blob`) has
it in memory where the header says, and the names of the properties in the strings block.
-/

namespace Sanctum

namespace Fdt

open Memory

/-! ### Trees -/

/-- A string without its null byte. -/
abbrev CString := { s : List Byte // NoNull s }

/-- The strings that `fdt_scan_helper` looks for. -/
def addressCellsName : CString := ⟨ascii "#address-cells", by decide⟩

/-- The other one. -/
def sizeCellsName : CString := ⟨ascii "#size-cells", by decide⟩

/-- `compatible`. -/
def compatibleName : CString := ⟨ascii "compatible", by decide⟩

/-- A property. -/
structure Property where
  /-- How many `FDT_NOP` words precede it. -/
  nops : ℕ
  /-- Its name. -/
  name : CString
  /-- Where the name is in the strings block. -/
  nameOff : BitVec 32
  /-- Its value. -/
  value : List Byte
  /-- The length is an `int`, and so is the length rounded up. -/
  length_lt : value.length + 3 < 2 ^ 31
  /-- A number of cells is one word. -/
  cells_length : name = addressCellsName ∨ name = sizeCellsName → value.length = 4

/-- The nodes at one level. -/
inductive Forest where
  /-- No more nodes. The `FDT_NOP` words precede the `FDT_END_NODE` of the parent, or the `FDT_END`. -/
  | nil (nops : ℕ)
  /-- A node, with `FDT_NOP` words before it, and those after it. -/
  | cons (nops : ℕ) (name : CString) (props : List Property) (children rest : Forest)

/-! ### Bytes -/

/-- `FDT_NOP` words. -/
def nopBytes (n : ℕ) : List Byte := (List.replicate n (be32 fdtNop)).flatten

/-- Bytes are padded to words. -/
def padding (n : ℕ) : ℕ := (4 - n % 4) % 4

/-- The bytes, padded. -/
def padded (bs : List Byte) : List Byte := bs ++ List.replicate (padding bs.length) 0

/-- The length of the value, as in the blob. -/
def Property.len (p : Property) : BitVec 32 := BitVec.ofNat 32 p.value.length

/-- What the blob has for a property. -/
def Property.encode (p : Property) : List Byte :=
  nopBytes p.nops ++ (be32 fdtProp ++ (be32 p.len ++ (be32 p.nameOff ++ padded p.value)))

/-- What it has for properties. -/
def encodeProps : List Property → List Byte
  | [] => []
  | p :: ps => p.encode ++ encodeProps ps

/-- What it has for nodes. -/
def Forest.encode : Forest → List Byte
  | nil nops => nopBytes nops
  | cons nops name props children rest =>
    nopBytes nops ++ (be32 fdtBeginNode ++ (padded (name.1 ++ [0]) ++ (encodeProps props ++
      (children.encode ++ (be32 fdtEndNode ++ rest.encode)))))

/-- The structure block. -/
def Forest.block (f : Forest) : List Byte := f.encode ++ be32 fdtEnd

/-- All properties. -/
def Forest.allProps : Forest → List Property
  | nil _ => []
  | cons _ _ props children rest => props ++ (children.allProps ++ rest.allProps)

/-! ### Blobs -/

/-- The structure block starts here. -/
def structBlock (m : Memory) (fdt : Word) : Word := fdt + (header m fdt 2).setWidth 64

/-- The strings block starts here. -/
def stringsBlock (m : Memory) (fdt : Word) : Word := fdt + (header m fdt 3).setWidth 64

/-- The name of a property is in the strings block. -/
def Named (m : Memory) (strings : Word) (p : Property) : Prop :=
  m.Holds (strings + p.nameOff.setWidth 64) (p.name.1 ++ [0])

/-- **A well-formed flattened device tree** is in memory. -/
structure Blob (m : Memory) (fdt : Word) (f : Forest) : Prop where
  /-- The first word of the header. -/
  magic : header m fdt 0 = fdtMagic
  /-- `last_comp_version`. -/
  version : header m fdt 6 ≤ fdtVersion
  /-- The structure block. -/
  struct : m.Holds (structBlock m fdt) f.block
  /-- The strings block. -/
  strings : ∀ p ∈ f.allProps, Named m (stringsBlock m fdt) p
  /-- Its length is in a word of the header. -/
  length_lt : f.block.length < 2 ^ 32
  /-- The header is not in the structure block. -/
  apart_header : Apart fdt 40 (structBlock m fdt) f.block.length
  /-- Nor are the strings. -/
  apart_strings : ∀ p ∈ f.allProps,
    Apart (stringsBlock m fdt + p.nameOff.setWidth 64) (p.name.1.length + 1) (structBlock m fdt) f.block.length

/-! ### Sizes -/

@[simp] theorem length_nopBytes (n : ℕ) : (nopBytes n).length = 4 * n := by
  simp [nopBytes, Nat.mul_comm]

@[simp] theorem length_padded (bs : List Byte) : (padded bs).length = bs.length + padding bs.length := by
  simp [padded]

/-- Words. -/
theorem padding_add (n : ℕ) : n + padding n = 4 * ((n + 3) / 4) := by
  unfold padding
  omega

/-- How many bytes a property has. -/
def Property.size (p : Property) : ℕ := 4 * (p.nops + 3 + (p.value.length + 3) / 4)

@[simp] theorem Property.length_encode (p : Property) : p.encode.length = p.size := by
  simp only [encode, size, List.length_append, length_nopBytes, length_be32, length_padded, padding_add]
  omega

/-! ### Every tree has a blob -/

/-- Words one after the other. -/
theorem cell_of_holds {m : Memory} {a : Word} {xs : List (BitVec 32)} (h : m.Holds a (xs.map be32).flatten) {i : ℕ}
    (hi : i < xs.length) : cell m (a + BitVec.ofNat 64 (4 * i)) = xs[i] := by
  induction xs generalizing a i with
  | nil => exact absurd hi (Nat.not_lt_zero _)
  | cons x xs ih =>
    rw [List.map_cons, List.flatten_cons, holds_append, length_be32] at h
    cases i with
    | zero => exact (congrArg (cell m) (BitVec.add_zero a)).trans (cell_eq_iff.mpr h.1)
    | succ i =>
      have hcell := ih h.2 (Nat.lt_of_succ_lt_succ hi)
      rw [BitVec.add_assoc, ← BitVec.ofNat_add] at hcell
      rw [Nat.mul_succ, Nat.add_comm]
      exact hcell

/-- The header of a blob that has the strings right after the structure block. -/
def headerWords (f : Forest) (strings : List Byte) : List (BitVec 32) :=
  [fdtMagic, BitVec.ofNat 32 (40 + f.block.length + strings.length), 40, BitVec.ofNat 32 (40 + f.block.length), 0,
    fdtVersion, 16, 0, BitVec.ofNat 32 strings.length, BitVec.ofNat 32 f.block.length]

/-- Such a blob. -/
def assemble (f : Forest) (strings : List Byte) : List Byte :=
  ((headerWords f strings).map be32).flatten ++ (f.block ++ strings)

/-- **Every tree has a blob**, if its strings block has the names where the properties say. -/
theorem blob_assemble (f : Forest) (strings : List Byte) (hsize : 40 + f.block.length + strings.length < 2 ^ 32)
    (hnames : ∀ p ∈ f.allProps, p.name.1 ++ [0] <+: strings.drop p.nameOff.toNat) (m : Memory) (fdt : Word) :
    Blob (m.put fdt (assemble f strings)) fdt f := by
  have hheaderLength : ((headerWords f strings).map be32).flatten.length = 40 := rfl
  have hlength : (assemble f strings).length = 40 + f.block.length + strings.length := by
    rw [assemble, List.length_append, List.length_append, hheaderLength]
    omega
  have hall : (m.put fdt (assemble f strings)).Holds fdt (assemble f strings) := holds_put (by omega)
  generalize m.put fdt (assemble f strings) = m' at hall
  obtain ⟨hheader, hrest⟩ := holds_append.mp hall
  rw [hheaderLength] at hrest
  obtain ⟨hblock, hstrings⟩ := holds_append.mp hrest
  have hstruct : structBlock m' fdt = fdt + BitVec.ofNat 64 40 := by
    rw [structBlock, header, cell_of_holds hheader (show 2 < (headerWords f strings).length by simp [headerWords])]
    rfl
  have hoffset : stringsBlock m' fdt = fdt + BitVec.ofNat 64 (40 + f.block.length) := by
    rw [stringsBlock, header, cell_of_holds hheader (show 3 < (headerWords f strings).length by simp [headerWords])]
    refine congrArg (fdt + ·) (BitVec.eq_of_toNat_eq ?_)
    change ((BitVec.ofNat 32 (40 + f.block.length)).setWidth 64).toNat = _
    rw [BitVec.toNat_setWidth, BitVec.toNat_ofNat, BitVec.toNat_ofNat]
    omega
  -- the names are in the strings, which come last
  have hname (p : Property) (hp : p ∈ f.allProps) : stringsBlock m' fdt + p.nameOff.setWidth 64 =
      fdt + BitVec.ofNat 64 (40 + f.block.length + p.nameOff.toNat) := by
    rw [hoffset, BitVec.add_assoc, BitVec.ofNat_add (40 + f.block.length)]
    refine congrArg (fun x => fdt + (BitVec.ofNat 64 (40 + f.block.length) + x)) (BitVec.eq_of_toNat_eq ?_)
    rw [BitVec.toNat_setWidth, BitVec.toNat_ofNat]
  have hfits (p : Property) (hp : p ∈ f.allProps) : p.nameOff.toNat + (p.name.1.length + 1) ≤ strings.length := by
    have hle := (hnames p hp).length_le
    rw [List.length_append, List.length_drop] at hle
    simp only [List.length_cons, List.length_nil] at hle
    omega
  refine ⟨?_, ?_, ?_, fun p hp => ?_, by omega, ?_, fun p hp => ?_⟩
  · exact cell_of_holds hheader (show 0 < (headerWords f strings).length by simp [headerWords])
  · rw [header, cell_of_holds hheader (show 6 < (headerWords f strings).length by simp [headerWords])]
    change (16 : BitVec 32) ≤ fdtVersion
    decide
  · rw [hstruct]
    exact hblock
  · obtain ⟨t, ht⟩ := hnames p hp
    have hdrop := hstrings.drop p.nameOff.toNat
    rw [← ht, BitVec.add_assoc, ← BitVec.ofNat_add, BitVec.add_assoc, ← BitVec.ofNat_add, ← Nat.add_assoc] at hdrop
    rw [Named, hname p hp]
    exact (holds_append.mp hdrop).1
  · have hapart := Memory.apart_add (a := fdt) (i := 0) (n := 40) (j := 40) (k := f.block.length) le_rfl (by omega)
    rw [show fdt + BitVec.ofNat 64 0 = fdt from BitVec.add_zero fdt] at hapart
    rw [hstruct]
    exact hapart
  · have hle := hfits p hp
    rw [hname p hp, hstruct]
    exact (Memory.apart_add (by omega) (by omega)).symm

/-! ### A tree -/

/-- The name of the root. -/
def rootName : CString := ⟨[], by decide⟩

/-- A root, and a node with one property. -/
def clintTree : Forest :=
  .cons 1 rootName []
    (.cons 0 ⟨ascii "clint", by decide⟩
      [⟨1, compatibleName, 0, ascii "riscv,clint0" ++ [0], by decide, by decide⟩] (.nil 0) (.nil 1))
    (.nil 0)

/-- Its blob. -/
def clintMemory : Memory := Memory.put (fun _ => 0) 0x82200000 (assemble clintTree (ascii "compatible" ++ [0]))

theorem blob_clint : Blob clintMemory 0x82200000 clintTree :=
  blob_assemble _ _ (by decide) (by decide) _ _

end Fdt

end Sanctum
