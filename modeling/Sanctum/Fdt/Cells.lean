import Sanctum.Fdt.Preorder

/-!
# The cells of the parent

`#address-cells` and `#size-cells` of a node say how long the numbers in `reg` of its children are;
without these properties they are `2` and `1`. `fdt_scan_helper` sets this default when it is
called, in the record for the children of a node; but the record is one for all of them. So a
child without these properties has the cells of the last sibling before it that has them, and
`reg` of its own children is taken apart with these.

## What is proved

* `rightCells_iff` — the cells are right exactly if a node that has children, and not both properties, comes
  after no sibling that sets the other one to something else than the default (`Forest.Inherits`).
* `not_cellsRight` — they are not in a tree that has `cpus` before `soc`.
-/

namespace Sanctum

namespace Fdt

open Memory

variable {ε : Type}

/-! ### What is expected -/

/-- The value of the last property of this name, or the default. -/
def own (name : CString) (props : List Property) (default : BitVec 32) : BitVec 32 :=
  props.foldl (fun value p => if p.name = name then p.word else value) default

/-- There is a property of this name. -/
def HasOwn (name : CString) (props : List Property) : Prop := ∃ p ∈ props, p.name = name

instance (name : CString) (props : List Property) : Decidable (HasOwn name props) :=
  inferInstanceAs (Decidable (∃ p ∈ props, p.name = name))

/-- Two numbers of cells. -/
abbrev CellCounts := BitVec 32 × BitVec 32

/-- What the node itself says, or else the default. -/
def ownCells (props : List Property) : CellCounts := (own addressCellsName props 2, own sizeCellsName props 1)

/-- The cells of the parent, for each call of `prop`, `done` and `close`. -/
def Forest.parentCells : Forest → Option CellCounts → List (Option CellCounts)
  | nil _, _ => []
  | cons _ _ props children rest, parent =>
    props.map (fun _ => parent) ++
      (parent :: (children.parentCells (some (ownCells props)) ++ (parent :: rest.parentCells parent)))

/-- `node->parent`, in a call of `prop`, `done` or `close`. -/
def Visit.parent : Visit → Option ScanNode
  | .opened _ => none
  | .prop node _ => node.tail.head?
  | .done node => node.tail.head?
  | .close node => node.tail.head?

/-- The call is not one of `open`. -/
def Visit.notOpened : Visit → Bool
  | .opened _ => false
  | _ => true

/-- The cells of a record. -/
def ScanNode.cells (node : ScanNode) : CellCounts := (node.addressCells, node.sizeCells)

/-- In the call, the parent's record has these cells. -/
structure RightCells (m : Memory) (v : Visit) (cells : Option CellCounts) : Prop where
  /-- The cells. -/
  parent : v.parent.map ScanNode.cells = cells
  /-- A value is decoded with them. -/
  getAddress : ∀ p ∈ v.parent, ∀ c ∈ cells, ∀ value, fdtGetAddress m p value = getCells m c.1.toInt.toNat value 0
  /-- So is a size. -/
  getSize : ∀ p ∈ v.parent, ∀ c ∈ cells, ∀ value, fdtGetSize m p value = getCells m c.2.toInt.toNat value 0

/-- **The cells are those of the parent** in all calls that the scan makes. -/
def CellsRight (m : Memory) (fdt : Word) (f : Forest) (cb : FdtCb ε) (e : ε) : Prop :=
  ∀ k ≥ f.need, ∃ (visits : List Visit) (s' : ScanState ε), fdtScan cb.recording k fdt ⟨m, ([], e)⟩ =
    some ⟨s'.mem, (visits, s'.extra)⟩ ∧
    List.Forall₂ (RightCells m) (visits.filter Visit.notOpened) (f.parentCells none)

/-- A node that has children has both properties itself, or has the default from the sibling before it that has
the property. `address` and `size` are what the last siblings say. -/
def Forest.Inherits : Forest → BitVec 32 → BitVec 32 → Prop
  | nil _, _, _ => True
  | cons _ _ props children rest, address, size =>
    ((∃ nops name ps c r, children = cons nops name ps c r) →
      (HasOwn addressCellsName props ∨ address = 2) ∧ (HasOwn sizeCellsName props ∨ size = 1)) ∧
    children.Inherits 2 1 ∧ rest.Inherits (own addressCellsName props address) (own sizeCellsName props size)

/-! ### What the records have -/

/-- The cells of the parent's record. `stale` is what the record for the children has from the sibling before. -/
def Forest.recordCells : Forest → Option CellCounts → CellCounts → List (Option CellCounts)
  | nil _, _, _ => []
  | cons _ _ props children rest, parent, stale =>
    let full := (own addressCellsName props stale.1, own sizeCellsName props stale.2)
    props.map (fun _ => parent) ++
      (parent :: (children.recordCells (some full) (2, 1) ++ (parent :: rest.recordCells parent full)))

theorem cells_setCellsAll (ps : List Property) (n : ScanNode) :
    (setCellsAll ps n).cells = (own addressCellsName ps n.addressCells, own sizeCellsName ps n.sizeCells) := by
  induction ps generalizing n with
  | nil => rfl
  | cons p ps ih =>
    refine (ih (p.setCells n)).trans ?_
    have hcells : (p.setCells n).addressCells = (if p.name = addressCellsName then p.word else n.addressCells) ∧
        (p.setCells n).sizeCells = if p.name = sizeCellsName then p.word else n.sizeCells := by
      rw [Property.setCells]
      constructor <;> split <;> split <;> rfl
    rw [hcells.1, hcells.2]
    rfl

theorem recorded_traceProps (strings base : Word) (ps : List Property) (n : ScanNode) (node : List ScanNode)
    (x : ℕ) :
    (((traceProps strings base ps (n :: node) x).map fun e => e.1.visit).filter Visit.notOpened).map
        (fun v => v.parent.map ScanNode.cells) =
      ps.map fun _ => node.head?.map ScanNode.cells := by
  induction ps generalizing n x with
  | nil => rfl
  | cons p ps ih => exact congrArg (node.head?.map ScanNode.cells :: ·) (ih (p.setCells n) (x + p.size))

/-- **The records** have these cells. -/
theorem recorded_trace (strings base : Word) (f : Forest) (node : List ScanNode) (child : ScanNode) (x : ℕ) :
    (((f.trace strings base node child x).map fun e => e.1.visit).filter Visit.notOpened).map
        (fun v => v.parent.map ScanNode.cells) =
      f.recordCells (node.head?.map ScanNode.cells) child.cells := by
  induction f generalizing node child x with
  | nil nops => rfl
  | cons nops name ps children rest ihc ihr =>
    have hfull := cells_setCellsAll ps { child with name := place base (x + 4 * nops + 4) }
    rw [Forest.trace, Forest.recordCells, List.map_cons,
      List.filter_cons_of_neg (by simp [Event.visit, Visit.notOpened]),
      List.map_append, List.filter_append, List.map_append, recorded_traceProps, List.map_cons,
      List.filter_cons_of_pos rfl, List.map_cons, List.map_append, List.filter_append, List.map_append, ihc,
      List.map_cons,
      List.filter_cons_of_pos rfl, List.map_cons, ihr]
    rw [List.head?_cons, Option.map_some, hfull]
    rfl

/-! ### When they are right -/

theorem own_eq_iff (name : CString) (props : List Property) (a b : BitVec 32) :
    own name props a = own name props b ↔ HasOwn name props ∨ a = b := by
  induction props generalizing a b with
  | nil =>
    have hnone : ¬ HasOwn name [] := by rintro ⟨p, hp, -⟩; cases hp
    exact (or_iff_right hnone).symm
  | cons p ps ih =>
    rw [own, own, List.foldl_cons, List.foldl_cons]
    refine (ih _ _).trans ?_
    by_cases hp : p.name = name
    · rw [if_pos hp, if_pos hp]
      exact iff_of_true (.inr rfl) (.inl ⟨p, List.mem_cons_self, hp⟩)
    · have hown : HasOwn name (p :: ps) ↔ HasOwn name ps := by
        constructor
        · rintro ⟨q, hq, hname⟩
          rcases List.mem_cons.mp hq with rfl | hq
          · exact absurd hname hp
          · exact ⟨q, hq, hname⟩
        · rintro ⟨q, hq, hname⟩
          exact ⟨q, List.mem_cons_of_mem _ hq, hname⟩
      rw [if_neg hp, if_neg hp, hown]

theorem append_eq_iff {α : Type} {l₁ l₂ l₃ l₄ : List α} (h : l₁.length = l₃.length) :
    l₁ ++ l₂ = l₃ ++ l₄ ↔ l₁ = l₃ ∧ l₂ = l₄ :=
  ⟨fun heq => List.append_inj heq h, fun heq => heq.1 ▸ heq.2 ▸ rfl⟩

theorem length_recordCells (f : Forest) (p p' : Option CellCounts) (stale : CellCounts) :
    (f.recordCells p stale).length = (f.parentCells p').length := by
  induction f generalizing p p' stale with
  | nil nops => rfl
  | cons nops name ps children rest ihc ihr =>
    simp only [Forest.recordCells, Forest.parentCells, List.length_append, List.length_map, List.length_cons]
    rw [ihc _ (some (ownCells ps)), ihr _ p']

/-- **The records are right** where nothing else is inherited than the default. -/
theorem recordCells_eq_iff (f : Forest) (p p' : Option CellCounts) (stale : CellCounts) :
    f.recordCells p stale = f.parentCells p' ↔
      ((∃ nops name ps c r, f = .cons nops name ps c r) → p = p') ∧ f.Inherits stale.1 stale.2 := by
  induction f generalizing p p' stale with
  | nil nops => exact iff_of_true rfl ⟨fun ⟨_, _, _, _, _, h⟩ => (nomatch h), trivial⟩
  | cons nops name ps children rest ihc ihr =>
    have hfull : some (own addressCellsName ps stale.1, own sizeCellsName ps stale.2) = some (ownCells ps) ↔
        (HasOwn addressCellsName ps ∨ stale.1 = 2) ∧ (HasOwn sizeCellsName ps ∨ stale.2 = 1) := by
      rw [Option.some.injEq, ownCells, Prod.mk.injEq, own_eq_iff, own_eq_iff]
    rw [Forest.recordCells, Forest.parentCells, Forest.Inherits, append_eq_iff (by simp), List.cons.injEq,
      append_eq_iff (length_recordCells _ _ _ _), List.cons.injEq, ihc, ihr, hfull]
    constructor
    · rintro ⟨-, hp, ⟨hchildren, hinner⟩, -, -, hrest⟩
      exact ⟨fun _ => hp, hchildren, hinner, hrest⟩
    · rintro ⟨hp, hchildren, hinner, hrest⟩
      have hp := hp ⟨_, _, _, _, _, rfl⟩
      exact ⟨by rw [hp], hp, ⟨hchildren, hinner⟩, hp, fun _ => hp, hrest⟩

theorem rightCells_parent_iff {m : Memory} {v : Visit} {cells : Option CellCounts} :
    RightCells m v cells ↔ v.parent.map ScanNode.cells = cells := by
  refine ⟨RightCells.parent, ?_⟩
  rintro rfl
  have hcells (p : ScanNode) (hp : p ∈ v.parent) (c : CellCounts) (hc : c ∈ v.parent.map ScanNode.cells) :
      c = p.cells := by
    rw [Option.mem_def] at hp hc
    rw [hp] at hc
    exact (Option.some.inj hc).symm
  exact ⟨rfl, fun p hp c hc _ => hcells p hp c hc ▸ rfl, fun p hp c hc _ => hcells p hp c hc ▸ rfl⟩

section Blob

variable {m : Memory} {fdt : Word} {f : Forest} {cb : FdtCb ε} {e : ε}

/-- What the scan records. -/
theorem cellsRight_iff_recordCells (h : Blob m fdt f) (hsafe : Blob.Safe m fdt f cb (fun _ => False) e)
    (hreturns : (cb.run (Blob.trace m fdt f) ⟨m, e⟩).isSome = true) :
    CellsRight m fdt f cb e ↔ f.recordCells none (2, 1) = f.parentCells none := by
  obtain ⟨s', hs'⟩ := Option.isSome_iff_exists.mp hreturns
  have hscan : ∀ k ≥ f.need, fdtScan cb.recording k fdt ⟨m, ([], e)⟩ =
      some ⟨s'.mem, ((Blob.trace m fdt f).map fun e => e.1.visit, s'.extra)⟩ := by
    intro k hk
    rw [h.scan_eq (safe_recording hsafe) hk, run_recording, hs']
    rfl
  have hrecorded := recorded_trace (stringsBlock m fdt) (structBlock m fdt) f [] .fresh 0
  have hcells (visits : List Visit) (cells : List (Option CellCounts)) :
      List.Forall₂ (RightCells m) visits cells ↔ visits.map (fun v => v.parent.map ScanNode.cells) = cells := by
    rw [← List.forall₂_eq_eq_eq, List.forall₂_map_left_iff]
    exact ⟨fun h => h.imp fun _ _ => rightCells_parent_iff.mp, fun h => h.imp fun _ _ => rightCells_parent_iff.mpr⟩
  constructor
  · intro hright
    obtain ⟨visits, s'', hrun, hcalls⟩ := hright f.need le_rfl
    rw [hscan _ le_rfl, Option.some.injEq, ScanState.mk.injEq, Prod.mk.injEq] at hrun
    rw [← hrun.2.1, hcells] at hcalls
    exact hrecorded.symm.trans hcalls
  · intro heq k hk
    exact ⟨_, s', hscan k hk, (hcells _ _).mpr (hrecorded.trans heq)⟩

/-- **The cells are those of the parent** exactly where nothing else is inherited than the default. -/
theorem rightCells_iff (h : Blob m fdt f) (hsafe : Blob.Safe m fdt f cb (fun _ => False) e)
    (hreturns : (cb.run (Blob.trace m fdt f) ⟨m, e⟩).isSome = true) : CellsRight m fdt f cb e ↔ f.Inherits 2 1 := by
  rw [cellsRight_iff_recordCells h hsafe hreturns, recordCells_eq_iff]
  exact and_iff_right fun _ => rfl

end Blob

/-! ### A root that has two children -/

theorem rightCells_iff_clint : CellsRight clintMemory 0x82200000 clintTree FdtCb.idle () ↔ clintTree.Inherits 2 1 :=
  rightCells_iff blob_clint (blob_clint.safe_of_leaves (leaves_idle _)) (by rw [run_idle]; rfl)

/-- A property of one word. -/
def cellsProp (name : CString) (nameOff value : BitVec 32) : Property :=
  ⟨0, name, nameOff, be32 value, by simp, by simp⟩

/-- `cpus`. -/
def cpusName : CString := ⟨ascii "cpus", by decide⟩

/-- `cpus` has `#address-cells` and `#size-cells`, and `soc` does not. -/
def cpusSocTree : Forest :=
  .cons 0 rootName []
    (.cons 0 cpusName [cellsProp addressCellsName 0 1, cellsProp sizeCellsName 15 0]
      (.cons 0 ⟨ascii "cpu@0", by decide⟩ [] (.nil 0) (.nil 0))
      (.cons 0 ⟨ascii "soc", by decide⟩ [] (.cons 0 ⟨ascii "uart", by decide⟩ [] (.nil 0) (.nil 0)) (.nil 0)))
    (.nil 0)

/-- Its blob. -/
def cpusSocMemory : Memory :=
  Memory.put (fun _ => 0) 0x82200000
    (assemble cpusSocTree (ascii "#address-cells" ++ 0 :: (ascii "#size-cells" ++ [0])))

theorem blob_cpusSoc : Blob cpusSocMemory 0x82200000 cpusSocTree :=
  blob_assemble _ _ (by decide) (by decide) _ _

/-- `uart` has one address cell and no size cell, and not two and one. -/
theorem not_cellsRight : ¬ CellsRight cpusSocMemory 0x82200000 cpusSocTree FdtCb.idle () := by
  rw [cellsRight_iff_recordCells blob_cpusSoc (blob_cpusSoc.safe_of_leaves (leaves_idle _)) (by rw [run_idle]; rfl)]
  decide

end Fdt

end Sanctum
