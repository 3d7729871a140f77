import Mathlib.Data.List.Forall2
import Sanctum.Fdt.Frame

/-!
# The order of the callbacks

`fdt_scan` calls `open` for a node, `prop` for each of its properties, `done` once, then goes through
the children, and calls `close` in the end. Whether `done` has been called is kept in one bit, and
`done` may be due at a `FDT_BEGIN_NODE`, a `FDT_END_NODE` or a `FDT_END`; the trace of the tree
(`Forest.trace`) says that it is due once, and where.

Here this trace is compared with the tree itself. The calls are recorded, with the pointers that the
callbacks get; `Forest.preorder` has the names, the properties and the order, and nothing of memory.

## What is proved

* `scan_preorder` — the scan makes the calls of the preorder, and stops at the `FDT_END`.
-/

namespace Sanctum

namespace Fdt

open Memory

variable {ε : Type}

/-! ### Recording -/

/-- A call of a callback, with the pointers it gets. -/
inductive Visit where
  /-- `open`. -/
  | opened (node : List ScanNode)
  /-- `prop`. -/
  | prop (node : List ScanNode) (prop : ScanProp)
  /-- `done`. -/
  | done (node : List ScanNode)
  /-- `close`. -/
  | close (node : List ScanNode)

/-- Without the words that are overwritten. -/
def Event.visit : Event → Visit
  | .opened node => .opened node
  | .prop node p => .prop node p
  | .done node => .done node
  | .close node _ _ => .close node

/-- The state that the callbacks themselves see. -/
def ScanState.inner (s : ScanState (List Visit × ε)) : ScanState ε := ⟨s.mem, s.extra.2⟩

/-- A call is recorded. -/
def ScanState.record (s : ScanState ε) (visits : List Visit) (v : Visit) : ScanState (List Visit × ε) :=
  ⟨s.mem, (visits ++ [v], s.extra)⟩

/-- The callbacks, with a record of the calls. -/
def FdtCb.recording (cb : FdtCb ε) : FdtCb (List Visit × ε) where
  onOpen node s := (cb.onOpen node s.inner).map fun s' => s'.record s.extra.1 (.opened node)
  onProp node prop s := (cb.onProp node prop s.inner).map fun s' => s'.record s.extra.1 (.prop node prop)
  onDone node s := (cb.onDone node s.inner).map fun s' => s'.record s.extra.1 (.done node)
  onClose node s := (cb.onClose node s.inner).map fun r => (r.1, r.2.record s.extra.1 (.close node))

/-! ### The preorder -/

/-- A call for a node of the tree, which is given by its name and those of the nodes above it. -/
inductive Call where
  /-- `open`. -/
  | opened (path : List CString)
  /-- `prop`. -/
  | prop (path : List CString) (prop : Property)
  /-- `done`. -/
  | done (path : List CString)
  /-- `close`. -/
  | close (path : List CString)

/-- **The nodes in order**: `open`, the properties, `done`, the children, `close`. -/
def Forest.preorder : Forest → List CString → List Call
  | nil _, _ => []
  | cons _ name props children rest, path =>
    .opened (name :: path) :: (props.map (.prop (name :: path)) ++
      (.done (name :: path) :: (children.preorder (name :: path) ++ (.close (name :: path) :: rest.preorder path))))

/-- The records have these names. -/
def SamePath (m : Memory) (node : List ScanNode) (path : List CString) : Prop :=
  List.Forall₂ (fun n (name : CString) => m.Holds n.name (name.1 ++ [0])) node path

/-- What the callback gets is what the tree has. -/
def Means (m : Memory) : Visit → Call → Prop
  | .opened node, .opened path => SamePath m node path
  | .prop node prop, .prop path p =>
    SamePath m node path ∧ m.Holds prop.name (p.name.1 ++ [0]) ∧
      prop.len.toInt = p.value.length ∧ m.Holds prop.value p.value
  | .done node, .done path => SamePath m node path
  | .close node, .close path => SamePath m node path
  | _, _ => False

/-! ### Traces and preorders -/

section Means

variable {strings base : Word} {block : List Byte} {props : List Property} {m : Memory}

theorem name_setCellsAll (ps : List Property) (n : ScanNode) : (setCellsAll ps n).name = n.name := by
  induction ps generalizing n with
  | nil => rfl
  | cons p ps ih =>
    refine (ih (p.setCells n)).trans ?_
    rw [Property.setCells]
    split <;> split <;> rfl

theorem SamePath.setCells {n : ScanNode} {node : List ScanNode} {path : List CString} (ps : List Property)
    (h : SamePath m (n :: node) path) : SamePath m (setCellsAll ps n :: node) path := by
  cases h with
  | cons hn hnode => exact .cons (name_setCellsAll ps n ▸ hn) hnode

/-- The properties. -/
theorem means_traceProps (ps : List Property) (hps : ∀ p ∈ ps, p ∈ props) {x : ℕ} {t : List Byte}
    (hblock : block.drop x = encodeProps ps ++ t) (hahead : Ahead strings base block props x m) {n : ScanNode}
    {node : List ScanNode} {path : List CString} (hpath : SamePath m (n :: node) path) :
    List.Forall₂ (Means m) ((traceProps strings base ps (n :: node) x).map fun e => e.1.visit)
    (ps.map (.prop path)) := by
  induction ps generalizing x n with
  | nil => exact .nil
  | cons p ps ih =>
    rw [encodeProps, List.append_assoc] at hblock
    have hrest := drop_add_of_drop hblock
    rw [Property.length_encode] at hrest
    have hvalue := hahead.value hblock
    rw [padded, List.append_assoc, holds_append] at hvalue
    refine .cons ⟨hpath.setCells [p], hahead.names p (hps p List.mem_cons_self), p.toInt_len, hvalue.1⟩ ?_
    exact ih (fun q hq => hps q (List.mem_cons_of_mem _ hq)) hrest (hahead.mono (Nat.le_add_right _ _))
      (hpath.setCells [p])

/-- **The trace is the preorder.** -/
theorem means_trace (f : Forest) (hprops : ∀ p ∈ f.allProps, p ∈ props) {x : ℕ} {t : List Byte}
    (hblock : block.drop x = f.encode ++ t) (hahead : Ahead strings base block props x m) {child : ScanNode}
    {node : List ScanNode} {path : List CString} (hpath : SamePath m node path) :
    List.Forall₂ (Means m) ((f.trace strings base node child x).map fun e => e.1.visit) (f.preorder path) := by
  induction f generalizing x node child path t with
  | nil nops => exact .nil
  | cons nops name ps children rest ihc ihr =>
    simp only [Forest.allProps, List.mem_append] at hprops
    simp only [Forest.encode, List.append_assoc] at hblock
    obtain ⟨-, hname, hps, hchildren, -, hrest⟩ := drop_parts hblock
    have hnode : SamePath m ({ child with name := place base (x + 4 * nops + 4) } :: node) (name :: path) := by
      have hbytes := (hahead.mono (show x ≤ x + 4 * nops + 4 by omega)).bytes
      rw [hname, padded, List.append_assoc, holds_append] at hbytes
      exact .cons hbytes.1 hpath
    have hfull := hnode.setCells ps
    simp only [Forest.trace, Forest.preorder, List.map_cons, List.map_append]
    refine .cons hnode (List.rel_append
      (means_traceProps ps (fun p hp => hprops p (.inl hp)) hps (hahead.mono (by omega)) hnode)
      (.cons hfull (List.rel_append ?_ (.cons hfull ?_))))
    · exact ihc (fun p hp => hprops p (.inr (.inl hp))) hchildren (hahead.mono (by omega)) hfull
    · exact ihr (fun p hp => hprops p (.inr (.inr hp))) hrest (hahead.mono (by omega)) hpath

end Means

/-! ### What is recorded -/

section Recording

variable {cb : FdtCb ε}

theorem call_recording (e : Event) (s : ScanState (List Visit × ε)) :
    cb.recording.call e s = (cb.call e s.inner).map fun s' => s'.record s.extra.1 e.visit := by
  cases e with
  | close node lex lexNext =>
    simp only [FdtCb.call, FdtCb.recording, Option.map_map]
    refine congrArg (fun g => Option.map g (cb.onClose node s.inner)) (funext fun r => ?_)
    simp only [Function.comp, eraseIf]
    split <;> rfl
  | _ => rfl

theorem run_recording (es : List (Event × ℕ)) (m : Memory) (visits : List Visit) (e : ε) :
    cb.recording.run es ⟨m, (visits, e)⟩ =
      (cb.run es ⟨m, e⟩).map fun s' => ⟨s'.mem, (visits ++ es.map (fun e => e.1.visit), s'.extra)⟩ := by
  induction es generalizing m visits e with
  | nil => simp [FdtCb.run]
  | cons ev es ih =>
    rw [FdtCb.run, FdtCb.run, call_recording, Option.bind_map, Option.map_bind]
    refine congrArg _ (funext fun s' => ?_)
    rw [Function.comp, ScanState.record, ih]
    simp

theorem safe_recording {strings base : Word} {block : List Byte} {props : List Property} {es : List (Event × ℕ)}
    {s : ScanState (List Visit × ε)} (h : Fdt.Safe strings base block props cb (fun _ => False) es s.inner) :
    Fdt.Safe strings base block props cb.recording (fun _ => False) es s := by
  induction es generalizing s with
  | nil => trivial
  | cons e es ih =>
    intro s' hcall
    rw [call_recording] at hcall
    obtain ⟨s'', hs'', rfl⟩ := Option.map_eq_some_iff.mp hcall
    rcases h s'' hs'' with hfalse | ⟨hahead, hrest⟩
    · exact hfalse.elim
    · exact .inr ⟨hahead, ih hrest⟩

end Recording

/-! ### The scan of a blob -/

/-- The scan makes the calls of the preorder, with what the tree has, and stops at the `FDT_END` after the
nodes. -/
def ScansInOrder (m : Memory) (fdt : Word) (f : Forest) (cb : FdtCb ε) (e : ε) : Prop :=
  ∀ k ≥ f.need, ∃ visits s',
    fdtScanHelper cb (stringsBlock m fdt) k (structBlock m fdt) [] .fresh false ⟨m, e⟩ =
      some (place (structBlock m fdt) f.size, [], s') ∧
    cell m (place (structBlock m fdt) f.size) = fdtEnd ∧
    fdtScan cb k fdt ⟨m, e⟩ = some s' ∧
    fdtScan cb.recording k fdt ⟨m, ([], e)⟩ = some ⟨s'.mem, (visits, s'.extra)⟩ ∧
    List.Forall₂ (Means m) visits (f.preorder [])

/-- **`fdt_scan` goes through the nodes in order**, if the callbacks return and leave what is ahead alone. -/
theorem scan_preorder {m : Memory} {fdt : Word} {f : Forest} (h : Blob m fdt f) {cb : FdtCb ε} {e : ε}
    (hsafe : Blob.Safe m fdt f cb (fun _ => False) e)
    (hreturns : (cb.run (Blob.trace m fdt f) ⟨m, e⟩).isSome = true) :
    ScansInOrder m fdt f cb e := by
  intro k hk
  obtain ⟨s', hs'⟩ := Option.isSome_iff_exists.mp hreturns
  have hblock : f.block.drop 0 = f.encode ++ be32 fdtEnd := List.drop_zero
  have hend : f.block.drop f.size = be32 fdtEnd ++ [] := by
    have hdrop := drop_add_of_drop hblock
    rwa [Nat.zero_add, f.length_encode, ← List.append_nil (be32 fdtEnd)] at hdrop
  refine ⟨(Blob.trace m fdt f).map fun e => e.1.visit, s', ?_, (h.ahead.mono (Nat.zero_le _)).cell_eq hend, ?_, ?_,
    means_trace f (fun p hp => hp) hblock h.ahead .nil⟩
  · rw [h.helper_eq hsafe hk, hs']
    rfl
  · rw [h.scan_eq hsafe hk, hs']
  · rw [h.scan_eq (safe_recording hsafe) hk, run_recording, hs']
    rfl

/-! ### Callbacks that do nothing -/

/-- Callbacks that do nothing. -/
def FdtCb.idle : FdtCb ε where
  onOpen _ s := some s
  onProp _ _ s := some s
  onDone _ s := some s
  onClose _ s := some (0, s)

theorem run_idle (es : List (Event × ℕ)) (s : ScanState ε) : FdtCb.idle.run es s = some s := by
  induction es with
  | nil => rfl
  | cons e es ih =>
    have hcall : FdtCb.idle.call e.1 s = some s := by cases e.1 <;> rfl
    rw [FdtCb.run, hcall, Option.bind_some, ih]

theorem leaves_idle (kept : Word → Prop) : (FdtCb.idle : FdtCb ε).Leaves kept := by
  constructor
  · rintro node s s' hs b -
    rw [← Option.some.inj hs]
  · rintro node prop s s' hs b -
    rw [← Option.some.inj hs]
  · rintro node s s' hs b -
    rw [← Option.some.inj hs]
  · rintro node s r hr b -
    rw [← Option.some.inj hr]

theorem scan_preorder_clint : ScansInOrder clintMemory 0x82200000 clintTree .idle () :=
  scan_preorder blob_clint (blob_clint.safe_of_leaves (leaves_idle _)) (by rw [run_idle]; rfl)

/-- What a scan that changes nothing sees. -/
def Sees (m : Memory) (fdt : Word) (f : Forest) : Prop :=
  ∀ k ≥ f.need, ∃ visits, fdtScan FdtCb.idle.recording k fdt ⟨m, ([], ())⟩ = some ⟨m, (visits, ())⟩ ∧
    List.Forall₂ (Means m) visits (f.preorder [])

/-- **A scan of a blob** sees its tree. -/
theorem Blob.sees {m : Memory} {fdt : Word} {f : Forest} (h : Blob m fdt f) : Sees m fdt f := by
  intro k hk
  have hblock : f.block.drop 0 = f.encode ++ be32 fdtEnd := List.drop_zero
  refine ⟨(Blob.trace m fdt f).map fun e => e.1.visit, ?_, means_trace f (fun p hp => hp) hblock h.ahead .nil⟩
  rw [h.scan_eq (safe_recording (h.safe_of_leaves (leaves_idle _))) hk, run_recording, run_idle]
  rfl

end Fdt

end Sanctum
