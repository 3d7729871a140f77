import Sanctum.Fdt.Tree

/-!
# The scan of a tree

`fdt_scan_helper` finds its way by the tokens, and the callbacks may write where it has yet to go. As
long as they leave what is ahead as it is, it goes through the nodes in order, and calls the callbacks
as `Forest.trace` says. The trace has for each call how far the scan has got; the bytes from there on
have to be left alone.

A callback that does not leave them alone may lead the scan anywhere. Then what can be known is what
no callback ever undoes: a predicate of states that is kept by every call (`Absorbing`) holds in the
end if it holds after such a call.

## What is proved

* `helper_forest` — the scan of a forest calls the callbacks as its trace says, unless one of them leads to
  a state that is bad for good.
-/

namespace Sanctum

namespace Fdt

open Memory

/-! ### Calls -/

/-- A call of a callback. -/
inductive Event where
  /-- `open`. -/
  | opened (node : List ScanNode)
  /-- `prop`. -/
  | prop (node : List ScanNode) (prop : ScanProp)
  /-- `done`. -/
  | done (node : List ScanNode)
  /-- `close`, and the words of the node that are overwritten if it returns `-1`. -/
  | close (node : List ScanNode) (lex lexNext : Word)

variable {ε : Type}

/-- The effect of a call. -/
def FdtCb.call (cb : FdtCb ε) : Event → ScanState ε → Option (ScanState ε)
  | .opened node, s => cb.onOpen node s
  | .prop node prop, s => cb.onProp node prop s
  | .done node, s => cb.onDone node s
  | .close node lex lexNext, s => (cb.onClose node s).map fun r => eraseIf r.1 lex lexNext r.2

/-- The effect of calls one after the other. -/
def FdtCb.run (cb : FdtCb ε) : List (Event × ℕ) → ScanState ε → Option (ScanState ε)
  | [], s => some s
  | e :: es, s => (cb.call e.1 s).bind (cb.run es)

theorem FdtCb.run_append (cb : FdtCb ε) (es es' : List (Event × ℕ)) (s : ScanState ε) :
    cb.run (es ++ es') s = (cb.run es s).bind (cb.run es') := by
  induction es generalizing s with
  | nil => rfl
  | cons e es ih =>
    rw [List.cons_append, run, run, Option.bind_assoc]
    exact congrArg _ (funext ih)

theorem FdtCb.run_cons_append (cb : FdtCb ε) {α : Type} (e : Event × ℕ) (es es' : List (Event × ℕ)) (s : ScanState ε)
    (G : ScanState ε → Option α) :
    (cb.run (e :: (es ++ es')) s).bind G =
      (cb.run [e] s).bind fun s => (cb.run es s).bind fun s => (cb.run es' s).bind G := by
  rw [← List.singleton_append, run_append, Option.bind_assoc]
  refine congrArg _ (funext fun s => ?_)
  rw [run_append, Option.bind_assoc]

/-! ### The trace of a tree -/

/-- The value of a property that is one word. -/
def Property.word (p : Property) : BitVec 32 :=
  match p.value with
  | [a, b, c, d] => a ++ b ++ c ++ d
  | _ => 0

/-- What the property says of the cells of its node. -/
def Property.setCells (p : Property) (node : ScanNode) : ScanNode :=
  let node := if p.name = addressCellsName then { node with addressCells := p.word } else node
  if p.name = sizeCellsName then { node with sizeCells := p.word } else node

/-- What all the properties of a node say. -/
def setCellsAll (props : List Property) (node : ScanNode) : ScanNode :=
  props.foldl (fun node p => p.setCells node) node

section Trace

variable (strings base : Word)

/-- The address of byte `x` of the structure block. -/
def place (x : ℕ) : Word := base + BitVec.ofNat 64 x

/-- The length as an `int`. -/
theorem Property.toInt_len (p : Property) : p.len.toInt = p.value.length := by
  have hlt := p.length_lt
  have hnat : p.len.toNat = p.value.length := by
    rw [len, BitVec.toNat_ofNat]
    exact Nat.mod_eq_of_lt (by omega)
  rw [BitVec.toInt_eq_toNat_of_lt (by omega), hnat]

/-- The property as it is passed to the callback. `x` is where its words begin. -/
def Property.record (p : Property) (x : ℕ) : ScanProp where
  name := strings + p.nameOff.setWidth 64
  value := place base (x + 4 * p.nops + 12)
  len := p.len

/-- The calls for properties. -/
def traceProps : List Property → List ScanNode → ℕ → List (Event × ℕ)
  | [], _, _ => []
  | p :: ps, node, x =>
    (.prop (node.modifyHead p.setCells) (p.record strings base x), x + p.size) ::
      traceProps ps (node.modifyHead p.setCells) (x + p.size)

/-- How many bytes properties have. -/
def sizeProps : List Property → ℕ
  | [] => 0
  | p :: ps => p.size + sizeProps ps

/-- How many bytes a name has. -/
def nameSize (name : CString) : ℕ := 4 * (name.1.length / 4 + 1)

/-- How many bytes nodes have. -/
def Forest.size : Forest → ℕ
  | nil nops => 4 * nops
  | cons nops name props children rest =>
    4 * nops + 4 + nameSize name + sizeProps props + children.size + 4 + rest.size

/-- **The calls for nodes.** `node` is their parent, and `child` is the record for them, which still has the
cells of the node before. -/
def Forest.trace : Forest → List ScanNode → ScanNode → ℕ → List (Event × ℕ)
  | nil _, _, _, _ => []
  | cons nops name props children rest, node, child, x =>
    let start := x + 4 * nops
    let inner := start + 4 + nameSize name
    let afterProps := inner + sizeProps props
    let next := afterProps + children.size + 4
    let child := { child with name := place base (start + 4) }
    let full := setCellsAll props child
    (.opened (child :: node), start + 4) :: (traceProps strings base props (child :: node) inner ++
      ((.done (full :: node), afterProps) :: (children.trace (full :: node) .fresh afterProps ++
        ((.close (full :: node) (place base start) (place base next), next) :: rest.trace node full next))))

end Trace

/-- **The calls for a node**: those before its children, and the rest. -/
theorem FdtCb.run_node (cb : FdtCb ε) (strings base : Word) (nops : ℕ) (name : CString) (props : List Property)
    (children rest : Forest) (node : List ScanNode) (child : ScanNode) (x : ℕ) (s : ScanState ε) :
    let start := x + 4 * nops
    let inner := start + 4 + nameSize name
    let afterProps := inner + sizeProps props
    let next := afterProps + children.size + 4
    let named : ScanNode := { child with name := place base (start + 4) }
    let full := setCellsAll props named
    cb.run ((Forest.cons nops name props children rest).trace strings base node child x) s =
      ((cb.call (.opened (named :: node)) s).bind fun s =>
        (cb.run (traceProps strings base props (named :: node) inner) s).bind fun s =>
          cb.call (.done (full :: node)) s).bind
      (cb.run (children.trace strings base (full :: node) .fresh afterProps ++
        ((.close (full :: node) (place base start) (place base next), next) ::
          rest.trace strings base node full next))) := by
  have hcons (e : Event) (y : ℕ) (es : List (Event × ℕ)) : cb.run ((e, y) :: es) = fun s =>
    (cb.call e s).bind (cb.run es) := rfl
  have happend (es es' : List (Event × ℕ)) : cb.run (es ++ es') = fun s => (cb.run es s).bind (cb.run es') :=
    funext (cb.run_append es es')
  simp only [Forest.trace, hcons, happend, Option.bind_assoc]

/-! ### Sizes -/

theorem length_encodeProps (props : List Property) : (encodeProps props).length = sizeProps props := by
  induction props with
  | nil => rfl
  | cons p ps ih => rw [encodeProps, List.length_append, Property.length_encode, ih, sizeProps]

theorem length_padded_name (name : CString) : (padded (name.1 ++ [0])).length = nameSize name := by
  rw [length_padded, padding_add, List.length_append, nameSize]
  simp only [List.length_cons, List.length_nil]
  omega

theorem Forest.length_encode (f : Forest) : f.encode.length = f.size := by
  induction f with
  | nil nops => rw [encode, length_nopBytes, size]
  | cons nops name props children rest ihc ihr =>
    simp only [encode, size, List.length_append, length_nopBytes, length_be32, length_padded_name,
      length_encodeProps,
      ihc, ihr]
    omega

/-! ### One token -/

section Tokens

variable {cb : FdtCb ε} {strings lex : Word} {k : ℕ} {node : List ScanNode} {child : ScanNode} {last : Bool}
  {s : ScanState ε}

theorem helper_nop (h : cell s.mem lex = fdtNop) :
    fdtScanHelper cb strings (k + 1) lex node child last s =
      fdtScanHelper cb strings k (lex + 4) node child last s := by
  rw [fdtScanHelper, if_pos h]

theorem helper_prop (h : cell s.mem lex = fdtProp) :
    fdtScanHelper cb strings (k + 1) lex node child false s =
      (cb.call (.prop (node.modifyHead (setCells s.mem (scanProp s.mem strings lex)))
        (scanProp s.mem strings lex)) s).bind
        fun s' => fdtScanHelper cb strings k (afterProp lex (scanProp s.mem strings lex).len)
          (node.modifyHead (setCells s.mem (scanProp s.mem strings lex))) child false s' := by
  rw [fdtScanHelper, if_neg (by rw [h]; decide), if_pos h, if_neg Bool.false_ne_true]
  rfl

theorem helper_begin (h : cell s.mem lex = fdtBeginNode) :
    fdtScanHelper cb strings (k + 1) lex node child last s =
      (cb.doneUnless last node s).bind fun s =>
        (cb.call (.opened ({ child with name := lex + 4 } :: node)) s).bind fun s =>
          (s.mem.strlen (lex + 4)).bind fun length =>
            (fdtScanHelper cb strings k (lex + BitVec.ofNat 64 (4 * (2 + length / 4)))
              ({ child with name := lex + 4 } :: node) .fresh false s).bind fun r =>
                (cb.call (.close (r.2.1.headD { child with name := lex + 4 } :: node) lex r.1) r.2.2).bind fun s =>
                  fdtScanHelper cb strings k r.1 node (r.2.1.headD { child with name := lex + 4 }) true s := by
  rw [fdtScanHelper, if_neg (by rw [h]; decide), if_neg (by rw [h]; decide), if_pos h]
  simp only [Option.bind_eq_bind, FdtCb.call, Option.bind_map]
  rfl

/-- Where the loop stops. -/
def stop (token : BitVec 32) (x : ℕ) : ℕ := if token = fdtEndNode then x + 4 else x

theorem helper_end {base : Word} {x : ℕ} {token : BitVec 32} (htoken : token = fdtEndNode ∨ token = fdtEnd)
    (h : cell s.mem (place base x) = token) :
    fdtScanHelper cb strings (k + 1) (place base x) node child last s =
      (cb.doneUnless last node s).bind fun s => some (place base (stop token x), node, s) := by
  have hplace : place base x + 4 = place base (x + 4) := by
    rw [place, place, BitVec.ofNat_add, ← BitVec.add_assoc]
    rfl
  rcases htoken with rfl | rfl
  · rw [fdtScanHelper, if_neg (by rw [h]; decide), if_neg (by rw [h]; decide), if_neg (by rw [h]; decide), if_pos h,
      stop, if_pos rfl, hplace]
    rfl
  · rw [fdtScanHelper, if_neg (by rw [h]; decide), if_neg (by rw [h]; decide), if_neg (by rw [h]; decide),
      if_neg (by rw [h]; decide), stop, if_neg (by decide)]
    rfl

end Tokens

/-! ### What is never undone -/

/-- No call of a callback leads out of the bad states. -/
def FdtCb.Absorbing (cb : FdtCb ε) (bad : ScanState ε → Prop) : Prop :=
  ∀ e s s', bad s → cb.call e s = some s' → bad s'

/-- What a call of `fdt_scan_helper` returns. -/
abbrev Result (ε : Type) := Word × List ScanNode × ScanState ε

section Bad

variable {cb : FdtCb ε} {bad : ScanState ε → Prop} {strings : Word}

theorem FdtCb.Absorbing.doneUnless (h : cb.Absorbing bad) {last : Bool} {node : List ScanNode} {s s' : ScanState ε}
    (hs : bad s) (hrun : cb.doneUnless last node s = some s') : bad s' := by
  rw [FdtCb.doneUnless] at hrun
  split at hrun
  · exact h (.done node) s s' hs hrun
  · rwa [← Option.some.inj hrun]

/-- **A bad state** stays bad, wherever the scan goes. -/
theorem helper_bad (h : cb.Absorbing bad) {k : ℕ} {lex : Word} {node : List ScanNode} {child : ScanNode}
    {last : Bool} {s : ScanState ε} {r : Result ε} (hs : bad s)
    (hrun : fdtScanHelper cb strings k lex node child last s = some r) :
    bad r.2.2 := by
  induction k generalizing lex node child last s r with
  | zero => cases hrun
  | succ k ih =>
    by_cases hnop : cell s.mem lex = fdtNop
    · rw [helper_nop hnop] at hrun
      exact ih hs hrun
    by_cases hprop : cell s.mem lex = fdtProp
    · cases last with
      | true =>
        rw [fdtScanHelper, if_neg hnop, if_pos hprop, if_pos rfl] at hrun
        cases hrun
      | false =>
        rw [helper_prop hprop] at hrun
        obtain ⟨s', hcall, hrest⟩ := Option.bind_eq_some_iff.mp hrun
        exact ih (h _ _ _ hs hcall) hrest
    by_cases hbegin : cell s.mem lex = fdtBeginNode
    · rw [helper_begin hbegin] at hrun
      obtain ⟨s₁, hdone, hrun⟩ := Option.bind_eq_some_iff.mp hrun
      obtain ⟨s₂, hopen, hrun⟩ := Option.bind_eq_some_iff.mp hrun
      obtain ⟨length, -, hrun⟩ := Option.bind_eq_some_iff.mp hrun
      obtain ⟨r', hchild, hrun⟩ := Option.bind_eq_some_iff.mp hrun
      obtain ⟨s₃, hclose, hrun⟩ := Option.bind_eq_some_iff.mp hrun
      exact ih (h _ _ _ (ih (h _ _ _ (h.doneUnless hs hdone) hopen) hchild) hclose) hrun
    · rw [fdtScanHelper, if_neg hnop, if_neg hprop, if_neg hbegin] at hrun
      split at hrun
      all_goals
        obtain ⟨s', hdone, hrun⟩ := Option.bind_eq_some_iff.mp hrun
        rw [← Option.some.inj hrun]
        exact h.doneUnless hs hdone

variable (bad)

/-- The two are the same, unless there are bad states and the first is one. -/
def Agrees (x y : Option (Result ε)) : Prop := x = y ∨ (∃ s, bad s) ∧ ∀ r, x = some r → bad r.2.2

variable {bad}

theorem Agrees.bind {α : Type} {x : Option α} {F G : α → Option (Result ε)}
    (h : ∀ a, x = some a → Agrees bad (F a) (G a)) : Agrees bad (x.bind F) (x.bind G) := by
  cases x with
  | none => exact .inl rfl
  | some a => exact h a rfl

end Bad

/-! ### What is ahead -/

section Ahead

variable (strings base : Word) (block : List Byte) (props : List Property)

/-- From byte `x` on the structure block is as it was, and so are the names of the properties. -/
structure Ahead (x : ℕ) (m : Memory) : Prop where
  /-- The structure block. -/
  bytes : m.Holds (place base x) (block.drop x)
  /-- The names. -/
  names : ∀ p ∈ props, Named m strings p

/-- Each of the calls leaves what is ahead as it is, or leads to a bad state. -/
def Safe (cb : FdtCb ε) (bad : ScanState ε → Prop) : List (Event × ℕ) → ScanState ε → Prop
  | [], _ => True
  | e :: es, s => ∀ s', cb.call e.1 s = some s' →
    bad s' ∨ (Ahead strings base block props e.2 s'.mem ∧ Safe cb bad es s')

variable {strings base block props} {x : ℕ} {m : Memory}

theorem place_add (x n : ℕ) : place base x + BitVec.ofNat 64 n = place base (x + n) := by
  rw [place, place, BitVec.add_assoc, ← BitVec.ofNat_add]

theorem Ahead.mono (h : Ahead strings base block props x m) {y : ℕ} (hy : x ≤ y) :
    Ahead strings base block props y m := by
  refine ⟨?_, h.names⟩
  have hdrop := h.bytes.drop (y - x)
  rwa [place_add, List.drop_drop, Nat.add_sub_cancel' hy] at hdrop

theorem drop_add_of_drop {u v : List Byte} (h : block.drop x = u ++ v) : block.drop (x + u.length) = v := by
  rw [← List.drop_drop, h, List.drop_left]

/-- Where the parts of a node are. -/
theorem drop_parts {nops : ℕ} {name : CString} {ps : List Property} {children : Forest} {t u : List Byte}
    (h : block.drop x = nopBytes nops ++ (be32 fdtBeginNode ++ (padded (name.1 ++ [0]) ++ (encodeProps ps ++
      (children.encode ++ (be32 fdtEndNode ++ (t ++ u))))))) :
    block.drop (x + 4 * nops) = be32 fdtBeginNode ++ (padded (name.1 ++ [0]) ++ (encodeProps ps ++
        (children.encode ++ (be32 fdtEndNode ++ (t ++ u))))) ∧
      block.drop (x + 4 * nops + 4) =
        padded (name.1 ++ [0]) ++ (encodeProps ps ++ (children.encode ++ (be32 fdtEndNode ++ (t ++ u)))) ∧
      block.drop (x + 4 * nops + 4 + nameSize name) =
        encodeProps ps ++ (children.encode ++ (be32 fdtEndNode ++ (t ++ u))) ∧
      block.drop (x + 4 * nops + 4 + nameSize name + sizeProps ps) =
        children.encode ++ (be32 fdtEndNode ++ (t ++ u)) ∧
      block.drop (x + 4 * nops + 4 + nameSize name + sizeProps ps + children.size) = be32 fdtEndNode ++ (t ++ u) ∧
      block.drop (x + 4 * nops + 4 + nameSize name + sizeProps ps + children.size + 4) = t ++ u := by
  have hbegin := drop_add_of_drop h
  have hname := drop_add_of_drop hbegin
  have hps := drop_add_of_drop hname
  have hchildren := drop_add_of_drop hps
  have hend := drop_add_of_drop hchildren
  have hrest := drop_add_of_drop hend
  rw [length_nopBytes] at hbegin hname hps hchildren hend hrest
  rw [length_be32] at hname hps hchildren hend hrest
  rw [length_padded_name] at hps hchildren hend hrest
  rw [length_encodeProps] at hchildren hend hrest
  rw [Forest.length_encode] at hend hrest
  rw [length_be32] at hrest
  exact ⟨hbegin, hname, hps, hchildren, hend, hrest⟩

/-- The token ahead. -/
theorem Ahead.cell_eq (h : Ahead strings base block props x m) {token : BitVec 32} {t : List Byte}
    (hblock : block.drop x = be32 token ++ t) : cell m (place base x) = token := by
  have hbytes := h.bytes
  rw [hblock, holds_append] at hbytes
  exact cell_eq_iff.mpr hbytes.1

/-- The scan skips `FDT_NOP` words. -/
theorem helper_nops {cb : FdtCb ε} {k n : ℕ} {node : List ScanNode} {child : ScanNode} {last : Bool}
    {s : ScanState ε}
    {t : List Byte} (hblock : block.drop x = nopBytes n ++ t) (h : Ahead strings base block props x s.mem) :
    fdtScanHelper cb strings (k + n) (place base x) node child last s =
      fdtScanHelper cb strings k (place base (x + 4 * n)) node child last s := by
  induction n generalizing x with
  | zero => rfl
  | succ n ih =>
    have hnops : nopBytes (n + 1) = be32 fdtNop ++ nopBytes n := by
      rw [nopBytes, List.replicate_succ, List.flatten_cons]
      rfl
    rw [hnops, List.append_assoc] at hblock
    have hnext := drop_add_of_drop hblock
    rw [length_be32] at hnext
    rw [← Nat.add_assoc, helper_nop (h.cell_eq hblock),
      show place base x + 4 = place base (x + 4) from place_add x 4,
      ih hnext (h.mono (by omega)), show x + 4 + 4 * n = x + 4 * (n + 1) by omega]

/-! ### Properties -/

/-- The `int` that the scan advances by. -/
theorem afterProp_eq {n : ℕ} (hn : n + 3 < 2 ^ 31) (lex : Word) :
    afterProp lex (BitVec.ofNat 32 n) = lex + BitVec.ofNat 64 (4 * (3 + (n + 3) / 4)) := by
  have hadd : (BitVec.ofNat 32 n + 3).toNat = n + 3 := by
    rw [BitVec.toNat_add, BitVec.toNat_ofNat]
    have h3 : (3 : BitVec 32).toNat = 3 := rfl
    omega
  have hmsb : (BitVec.ofNat 32 n + 3).msb = false := by
    rw [BitVec.msb_eq_false_iff_two_mul_lt, hadd]
    omega
  have hdiv : ((BitVec.ofNat 32 n + 3).sdiv 4).toNat = (n + 3) / 4 := by
    rw [BitVec.sdiv_eq, hmsb, show (4 : BitVec 32).msb = false by decide]
    exact (BitVec.toNat_udiv).trans (by rw [hadd]; rfl)
  have hwords : (3 + (BitVec.ofNat 32 n + 3).sdiv 4).toNat = 3 + (n + 3) / 4 := by
    rw [BitVec.toNat_add, hdiv]
    have h3 : (3 : BitVec 32).toNat = 3 := rfl
    omega
  have hmsb' : (3 + (BitVec.ofNat 32 n + 3).sdiv 4).msb = false := by
    rw [BitVec.msb_eq_false_iff_two_mul_lt, hwords]
    omega
  rw [afterProp, BitVec.signExtend_eq_setWidth_of_msb_false hmsb', BitVec.add_right_inj]
  apply BitVec.eq_of_toNat_eq
  have h4 : (4 : Word).toNat = 4 := rfl
  rw [BitVec.toNat_mul, BitVec.toNat_setWidth, hwords, BitVec.toNat_ofNat, h4]
  omega

/-- The name of a property is compared. -/
theorem Ahead.strcmp_name (h : Ahead strings base block props x m) {p : Property} (hp : p ∈ props) (y : ℕ)
    (s : CString) :
    m.strcmp (p.record strings base y).name s.1 = 0 ↔ p.name = s :=
  (strcmp_eq_zero_iff_eq p.name.2 s.2 (h.names p hp)).trans Subtype.ext_iff.symm

/-- A property with one word as its value. -/
theorem Property.be32_word {p : Property} (h : p.value.length = 4) : be32 p.word = p.value := by
  obtain ⟨a, b, c, d, hvalue⟩ : ∃ a b c d, p.value = [a, b, c, d] := List.length_eq_four.mp h
  rw [word, hvalue]
  exact be32_append a b c d

theorem Ahead.value {p : Property} {t : List Byte} (h : Ahead strings base block props x m)
    (hblock : block.drop x = p.encode ++ t) : m.Holds (place base (x + 4 * p.nops + 12)) (padded p.value ++ t) := by
  have hdrop : block.drop (x + 4 * p.nops + 12) = padded p.value ++ t := by
    simp only [Property.encode, List.append_assoc] at hblock
    have h1 := drop_add_of_drop hblock
    have h2 := drop_add_of_drop h1
    have h3 := drop_add_of_drop h2
    have h4 := drop_add_of_drop h3
    simpa only [length_nopBytes, length_be32, Nat.add_assoc] using h4
  rw [← hdrop]
  exact (h.mono (by omega)).bytes

/-- **A property ahead** is passed to the callback as it is. -/
theorem Ahead.scanProp_eq {p : Property} {t : List Byte} (h : Ahead strings base block props x m)
    (hblock : block.drop x = p.encode ++ t) :
    scanProp m strings (place base (x + 4 * p.nops)) = p.record strings base x := by
  simp only [Property.encode, List.append_assoc] at hblock
  have h1 := drop_add_of_drop hblock
  have h2 := drop_add_of_drop h1
  have h3 := drop_add_of_drop h2
  rw [length_nopBytes] at h1 h2 h3
  rw [length_be32] at h2 h3
  rw [length_be32] at h3
  have hlen := (h.mono (by omega)).cell_eq h2
  have hname := (h.mono (by omega)).cell_eq h3
  have e4 : place base (x + 4 * p.nops) + 4 = place base (x + 4 * p.nops + 4) := place_add _ 4
  have e8 : place base (x + 4 * p.nops) + 8 = place base (x + 4 * p.nops + 4 + 4) := place_add _ 8
  have e12 : place base (x + 4 * p.nops) + 12 = place base (x + 4 * p.nops + 12) := place_add _ 12
  rw [scanProp, Property.record, e4, e8, e12, hlen, hname]

/-- And the cells of the node are set. -/
theorem Ahead.setCells_eq {p : Property} {t : List Byte} (h : Ahead strings base block props x m)
    (hblock : block.drop x = p.encode ++ t) (hp : p ∈ props) (node : ScanNode) :
    setCells m (p.record strings base x) node = p.setCells node := by
  have hword (hcells : p.name = addressCellsName ∨ p.name = sizeCellsName) :
      cell m (p.record strings base x).value = p.word := by
    have hvalue := h.value hblock
    rw [padded, List.append_assoc, holds_append, ← p.be32_word (p.cells_length hcells)] at hvalue
    exact cell_eq_iff.mpr hvalue.1
  have haddress := h.strcmp_name hp x addressCellsName
  have hsize := h.strcmp_name hp x sizeCellsName
  simp only [addressCellsName, sizeCellsName] at haddress hsize
  rw [setCells, Property.setCells]
  by_cases h1 : p.name = addressCellsName
  · have h2 : p.name ≠ sizeCellsName := by rw [h1]; decide
    rw [if_pos (haddress.mpr h1), if_pos h1, if_neg (fun h => h2 (hsize.mp h)), if_neg h2, hword (.inl h1)]
  · rw [if_neg (fun h => h1 (haddress.mp h)), if_neg h1]
    by_cases h2 : p.name = sizeCellsName
    · rw [if_pos (hsize.mpr h2), if_pos h2, hword (.inr h2)]
    · rw [if_neg (fun h => h2 (hsize.mp h)), if_neg h2]

end Ahead

/-! ### Nodes -/

section Nodes

variable {cb : FdtCb ε} {bad : ScanState ε → Prop} {strings base : Word} {block : List Byte} {props : List Property}

/-- What remains to be done after a bad state is bad. -/
def Keeps (bad : ScanState ε → Prop) (F : Result ε → Option (Result ε)) : Prop :=
  ∀ r r', bad r.2.2 → F r = some r' → bad r'.2.2

/-- One call. -/
theorem agrees_call {e : Event} {x : ℕ} {es : List (Event × ℕ)} {s : ScanState ε}
    {F G : ScanState ε → Option (Result ε)} (hsafe : Safe strings base block props cb bad ((e, x) :: es) s)
    (hF : ∀ s' r, bad s' → F s' = some r → bad r.2.2)
    (hnext : ∀ s', Ahead strings base block props x s'.mem → Safe strings base block props cb bad es s' →
      Agrees bad (F s') (G s')) : Agrees bad ((cb.call e s).bind F) ((cb.call e s).bind G) := by
  refine Agrees.bind fun s' hcall => ?_
  rcases hsafe s' hcall with hbad | ⟨hahead, hrest⟩
  · exact .inr ⟨⟨s', hbad⟩, fun r hr => hF s' r hbad hr⟩
  · exact hnext s' hahead hrest

/-- `done`, if it has not been called. -/
def doneEvents (last : Bool) (node : List ScanNode) (x : ℕ) : List (Event × ℕ) :=
  if last = false ∧ node ≠ [] then [(.done node, x)] else []

theorem doneEvents_cons (n : ScanNode) (node : List ScanNode) (x : ℕ) :
    doneEvents false (n :: node) x = [(.done (n :: node), x)] := if_pos ⟨rfl, List.cons_ne_nil _ _⟩

theorem agrees_done {last : Bool} {node : List ScanNode} {x : ℕ} {es : List (Event × ℕ)} {s : ScanState ε}
    {F G : ScanState ε → Option (Result ε)}
    (hsafe : Safe strings base block props cb bad (doneEvents last node x ++ es) s)
    (hahead : Ahead strings base block props x s.mem) (hF : ∀ s' r, bad s' → F s' = some r → bad r.2.2)
    (hnext : ∀ s', Ahead strings base block props x s'.mem → Safe strings base block props cb bad es s' →
      Agrees bad (F s') (G s')) :
    Agrees bad ((cb.doneUnless last node s).bind F) ((cb.run (doneEvents last node x) s).bind G) := by
  rw [FdtCb.doneUnless, doneEvents] at *
  split at hsafe
  · next h =>
    rw [if_pos h, if_pos h, FdtCb.run, Option.bind_assoc]
    exact agrees_call hsafe hF hnext
  · next h =>
    rw [if_neg h, if_neg h]
    exact hnext s hahead hsafe

/-- How much fuel the properties need. -/
def needProps : List Property → ℕ
  | [] => 0
  | p :: ps => p.nops + 1 + needProps ps

/-- **Properties.** What is done after them is done with what they say of the cells. -/
theorem helper_props (habs : cb.Absorbing bad) {F : Result ε → Option (Result ε)} (hF : Keeps bad F)
    {G : ScanState ε → Option (Result ε)} {k : ℕ} {child : ScanNode} {es : List (Event × ℕ)} {t : List Byte}
    (ps : List Property) (hps : ∀ p ∈ ps, p ∈ props) {x : ℕ} {node : List ScanNode} {s : ScanState ε}
    (hblock : block.drop x = encodeProps ps ++ t) (hahead : Ahead strings base block props x s.mem)
    (hsafe : Safe strings base block props cb bad (traceProps strings base ps node x ++ es) s)
    (hnext : ∀ s', Ahead strings base block props (x + sizeProps ps) s'.mem →
      Safe strings base block props cb bad es s' →
      Agrees bad ((fdtScanHelper cb strings k (place base (x + sizeProps ps))
        (node.modifyHead (setCellsAll ps)) child
        false s').bind F) (G s')) :
    Agrees bad ((fdtScanHelper cb strings (k + needProps ps) (place base x) node child false s).bind F)
      ((cb.run (traceProps strings base ps node x) s).bind G) := by
  induction ps generalizing x node s with
  | nil =>
    have hnode : node.modifyHead (setCellsAll []) = node := by cases node <;> rfl
    have h := hnext s hahead hsafe
    rwa [hnode] at h
  | cons p ps ih =>
    rw [encodeProps, List.append_assoc] at hblock
    have hp := hps p List.mem_cons_self
    -- the words before the property
    have hnops : block.drop x = nopBytes p.nops ++ (be32 fdtProp ++ (be32 p.len ++ (be32 p.nameOff ++
        (padded p.value ++ (encodeProps ps ++ t))))) := by
      rw [hblock, Property.encode]
      simp only [List.append_assoc]
    have htoken := drop_add_of_drop hnops
    rw [length_nopBytes] at htoken
    have hcell := (hahead.mono (by omega)).cell_eq htoken
    have hrest := drop_add_of_drop hblock
    rw [Property.length_encode] at hrest
    have hnode : node.modifyHead (setCells s.mem (p.record strings base x)) = node.modifyHead p.setCells := by
      cases node with
      | nil => rfl
      | cons n node => exact congrArg (· :: node) (hahead.setCells_eq hblock hp n)
    have hafter : afterProp (place base (x + 4 * p.nops)) p.len = place base (x + p.size) := by
      rw [Property.len, afterProp_eq p.length_lt, place_add, Property.size]
      congr 1
      omega
    rw [show k + needProps (p :: ps) = k + needProps ps + 1 + p.nops by rw [needProps]; omega,
      helper_nops hnops hahead,
      helper_prop hcell, hahead.scanProp_eq hblock, hnode, traceProps, FdtCb.run, Option.bind_assoc,
      Option.bind_assoc]
    refine agrees_call hsafe (fun s' r hbad hr => ?_) fun s' hahead' hsafe' => ?_
    · obtain ⟨r', hhelper, hr⟩ := Option.bind_eq_some_iff.mp hr
      exact hF r' r (helper_bad habs hbad hhelper) hr
    · have hmodify : (node.modifyHead p.setCells).modifyHead (setCellsAll ps) =
        node.modifyHead (setCellsAll (p :: ps)) := by
        cases node <;> rfl
      rw [show (p.record strings base x).len = p.len from rfl, hafter]
      refine ih (fun q hq => hps q (List.mem_cons_of_mem _ hq)) hrest hahead' hsafe' fun s'' h1 h2 => ?_
      rw [Nat.add_assoc] at h1 ⊢
      rw [hmodify]
      exact hnext s'' h1 h2

/-- How much fuel nodes need. -/
def Forest.need : Forest → ℕ
  | nil nops => nops + 1
  | cons nops _ props children rest => nops + 1 + (needProps props + children.need + rest.need)

/-- A string in the block. -/
theorem Ahead.strlen_eq {x : ℕ} {m : Memory} {name : CString} {t : List Byte}
    (h : Ahead strings base block props x m) (hblock : block.drop x = padded (name.1 ++ [0]) ++ t)
    (hlength : name.1.length < 2 ^ 64) : m.strlen (place base x) = some name.1.length := by
  have hbytes := h.bytes
  rw [hblock, padded, List.append_assoc, holds_append] at hbytes
  exact Memory.strlen_eq name.2 hbytes.1 hlength

/-- What is done after the children of a node. -/
theorem keeps_close (habs : cb.Absorbing bad) {F : Result ε → Option (Result ε)} (hF : Keeps bad F) {k : ℕ}
    {lex : Word} {node : List ScanNode} {child : ScanNode} :
    Keeps bad fun r => (cb.call (.close (r.2.1.headD child :: node) lex r.1) r.2.2).bind fun s =>
      (fdtScanHelper cb strings k r.1 node (r.2.1.headD child) true s).bind F := by
  intro r r' hbad hr
  obtain ⟨s, hcall, hr⟩ := Option.bind_eq_some_iff.mp hr
  obtain ⟨r'', hhelper, hr⟩ := Option.bind_eq_some_iff.mp hr
  exact hF r'' r' (helper_bad habs (habs _ _ _ hbad hcall) hhelper) hr

/-- What is done after `open`. -/
theorem keeps_opened (habs : cb.Absorbing bad) {F : Result ε → Option (Result ε)} (hF : Keeps bad F) {k : ℕ}
    {lex : ℕ → Word} {name : Word} {node : List ScanNode} {s : ScanState ε} {r : Result ε} (hbad : bad s)
    (hr : ((s.mem.strlen name).bind fun length =>
      (fdtScanHelper cb strings k (lex length) node .fresh false s).bind F) = some r) : bad r.2.2 := by
  obtain ⟨length, -, hr⟩ := Option.bind_eq_some_iff.mp hr
  obtain ⟨r', hhelper, hr⟩ := Option.bind_eq_some_iff.mp hr
  exact hF r' r (helper_bad habs hbad hhelper) hr

/-- **The scan of a forest** calls the callbacks as its trace says. What is done after it is done with the
address where it has stopped. -/
theorem helper_forest (habs : cb.Absorbing bad) (hsize : block.length < 2 ^ 64) (f : Forest) {k x : ℕ}
    {node : List ScanNode} {child : ScanNode}
    {last : Bool} {s : ScanState ε} {token : BitVec 32} {t : List Byte} {es : List (Event × ℕ)}
    {F : Result ε → Option (Result ε)} (hF : Keeps bad F) {G : ScanState ε → Option (Result ε)}
    (htoken : token = fdtEndNode ∨ token = fdtEnd) (hprops : ∀ p ∈ f.allProps, p ∈ props) (hk : f.need ≤ k)
    (hblock : block.drop x = f.encode ++ (be32 token ++ t)) (hahead : Ahead strings base block props x s.mem)
    (hsafe : Safe strings base block props cb bad
      (doneEvents last node x ++ (f.trace strings base node child x ++ es)) s)
    (hnext : ∀ s', Ahead strings base block props (x + f.size) s'.mem → Safe strings base block props cb bad es s' →
      Agrees bad (F (place base (stop token (x + f.size)), node, s')) (G s')) :
    Agrees bad ((fdtScanHelper cb strings k (place base x) node child last s).bind F)
      ((cb.run (doneEvents last node x) s).bind fun s => (cb.run (f.trace strings base node child x) s).bind G) := by
  induction f generalizing k x node child last s token t es F G with
  | nil nops =>
    rw [Forest.need] at hk
    obtain ⟨k, rfl⟩ := Nat.exists_eq_add_of_le' hk
    rw [Forest.encode] at hblock
    have hend := drop_add_of_drop hblock
    rw [length_nopBytes] at hend
    rw [show k + (nops + 1) = k + 1 + nops by omega, helper_nops hblock hahead,
      helper_end htoken ((hahead.mono (by omega)).cell_eq hend), Option.bind_assoc]
    refine agrees_done hsafe hahead (fun s' r hbad hr => hF _ r hbad hr) fun s' hahead' hsafe' => ?_
    exact hnext s' (hahead'.mono (by omega)) hsafe'
  | cons nops name ps children rest ihc ihr =>
    rw [Forest.need] at hk
    obtain ⟨k, rfl⟩ := Nat.exists_eq_add_of_le' (show nops + 1 + needProps ps ≤ k by omega)
    simp only [Forest.allProps, List.mem_append] at hprops
    simp only [Forest.encode, List.append_assoc] at hblock
    obtain ⟨hbegin, hname, hps, hchildren, hend, hrest⟩ := drop_parts hblock
    have hlength : name.1.length < 2 ^ 64 := by
      have hle := congrArg List.length hname
      rw [List.length_append, length_padded_name, List.length_drop, nameSize] at hle
      omega
    have hfour : place base (x + 4 * nops) + 4 = place base (x + 4 * nops + 4) := place_add _ 4
    have hinner : place base (x + 4 * nops) + BitVec.ofNat 64 (4 * (2 + name.1.length / 4)) =
        place base (x + 4 * nops + 4 + nameSize name) := by
      rw [place_add, nameSize]
      congr 1
      omega
    rw [show k + (nops + 1 + needProps ps) = k + needProps ps + 1 + nops by omega, helper_nops hblock hahead,
      helper_begin ((hahead.mono (by omega)).cell_eq hbegin), hfour]
    simp only [Option.bind_assoc]
    refine agrees_done hsafe hahead (fun s' r hbad hr => ?_) fun s₁ hahead₁ hsafe₁ => ?_
    · obtain ⟨s'', hopen, hr⟩ := Option.bind_eq_some_iff.mp hr
      exact keeps_opened habs (keeps_close habs hF) (habs _ _ _ hbad hopen) hr
    simp only [Forest.trace, List.cons_append, List.append_assoc] at hsafe₁
    rw [Forest.trace, FdtCb.run, Option.bind_assoc]
    refine agrees_call hsafe₁ (fun s' r hbad hr => keeps_opened habs (keeps_close habs hF) hbad hr)
      fun s₂ hahead₂ hsafe₂ => ?_
    rw [hahead₂.strlen_eq hname hlength, Option.bind_some, hinner, FdtCb.run_append, Option.bind_assoc]
    refine helper_props habs (keeps_close habs hF) ps (fun p hp => hprops p (.inl hp)) hps
      (hahead₂.mono (by omega)) hsafe₂
      fun s₃ hahead₃ hsafe₃ => ?_
    -- the children, with `done` before them
    rw [FdtCb.run_cons_append, ← doneEvents_cons]
    refine ihc (keeps_close habs hF) (.inl rfl) (fun p hp => hprops p (.inr (.inl hp))) (by omega) hchildren hahead₃
      hsafe₃ fun s₄ hahead₄ hsafe₄ => ?_
    rw [FdtCb.run, Option.bind_assoc]
    refine agrees_call hsafe₄ (fun s' r hbad hr => ?_) fun s₅ hahead₅ hsafe₅ => ?_
    · obtain ⟨r', hhelper, hr⟩ := Option.bind_eq_some_iff.mp hr
      exact hF r' r (helper_bad habs hbad hhelper) hr
    -- the nodes after it
    have hnextSize : x + (Forest.cons nops name ps children rest).size =
        x + 4 * nops + 4 + nameSize name + sizeProps ps + children.size + 4 + rest.size := by
      rw [Forest.size]
      omega
    rw [hnextSize] at hnext
    exact ihr hF htoken (fun p hp => hprops p (.inr (.inr hp))) (by omega) hrest hahead₅ hsafe₅ hnext

end Nodes

/-! ### A blob -/

section Blob

variable {cb : FdtCb ε} {bad : ScanState ε → Prop} {m : Memory} {fdt : Word} {f : Forest} {k : ℕ} {e : ε}

theorem place_zero (base : Word) : place base 0 = base := BitVec.add_zero base

theorem Blob.ahead (h : Blob m fdt f) : Ahead (stringsBlock m fdt) (structBlock m fdt) f.block f.allProps 0 m := by
  refine ⟨?_, h.strings⟩
  rw [place_zero]
  exact h.struct

/-- The calls that `fdt_scan` makes. -/
def Blob.trace (m : Memory) (fdt : Word) (f : Forest) : List (Event × ℕ) :=
  f.trace (stringsBlock m fdt) (structBlock m fdt) [] .fresh 0

/-- All that is said of the calls of `fdt_scan`. -/
abbrev Blob.Safe (m : Memory) (fdt : Word) (f : Forest) (cb : FdtCb ε) (bad : ScanState ε → Prop) (e : ε) : Prop :=
  Fdt.Safe (stringsBlock m fdt) (structBlock m fdt) f.block f.allProps cb bad (Blob.trace m fdt f) ⟨m, e⟩

/-- **`fdt_scan_helper`** stops at the `FDT_END`. -/
theorem Blob.helper_agrees (h : Blob m fdt f) (habs : cb.Absorbing bad) (hk : f.need ≤ k)
    (hsafe : Blob.Safe m fdt f cb bad e) :
    Agrees bad (fdtScanHelper cb (stringsBlock m fdt) k (structBlock m fdt) [] .fresh false ⟨m, e⟩)
      ((cb.run (Blob.trace m fdt f) ⟨m, e⟩).map fun s => (place (structBlock m fdt) f.size, [], s)) := by
  have hlength := h.length_lt
  have hblock : f.block.drop 0 = f.encode ++ (be32 fdtEnd ++ []) := by
    rw [List.drop_zero, Forest.block, List.append_nil]
  have hsafe' : Fdt.Safe (stringsBlock m fdt) (structBlock m fdt) f.block f.allProps cb bad
      (doneEvents false [] 0 ++ (f.trace (stringsBlock m fdt) (structBlock m fdt) [] .fresh 0 ++ [])) ⟨m, e⟩ := by
    rw [List.append_nil]
    exact hsafe
  have hforest : Agrees bad
      ((fdtScanHelper cb (stringsBlock m fdt) k (place (structBlock m fdt) 0) [] .fresh false ⟨m, e⟩).bind some)
      ((cb.run (doneEvents false [] 0) ⟨m, e⟩).bind fun s =>
        (cb.run (f.trace (stringsBlock m fdt) (structBlock m fdt) [] .fresh 0) s).bind fun s =>
          some (place (structBlock m fdt) f.size, [], s)) := by
    refine helper_forest habs (by omega) f
      (fun r r' hr heq => Option.some.inj heq ▸ hr) (.inr rfl) (fun p hp => hp) hk
      hblock h.ahead hsafe' fun s' _ _ => .inl ?_
    rw [Nat.zero_add, stop, if_neg (by decide)]
  rw [place_zero, Option.bind_fun_some] at hforest
  rw [Option.map_eq_bind]
  exact hforest

/-- **`fdt_scan`** makes the calls of the trace. -/
theorem Blob.scan_agrees (h : Blob m fdt f) (habs : cb.Absorbing bad) (hk : f.need ≤ k)
    (hsafe : Blob.Safe m fdt f cb bad e) :
    fdtScan cb k fdt ⟨m, e⟩ = cb.run (Blob.trace m fdt f) ⟨m, e⟩ ∨
      (∃ s, bad s) ∧ ∀ s', fdtScan cb k fdt ⟨m, e⟩ = some s' → bad s' := by
  have hheader : ¬ (header m fdt 0 ≠ fdtMagic ∨ header m fdt 6 > fdtVersion) := by
    rw [not_or, not_not, gt_iff_lt, BitVec.not_lt]
    exact ⟨h.magic, h.version⟩
  have hscan : fdtScan cb k fdt ⟨m, e⟩ =
      (fdtScanHelper cb (stringsBlock m fdt) k (structBlock m fdt) [] .fresh false ⟨m, e⟩).map fun r => r.2.2 := by
    rw [fdtScan, if_neg hheader]
    rfl
  rw [hscan]
  rcases h.helper_agrees habs hk hsafe with heq | ⟨hexists, hbad⟩
  · left
    rw [heq, Option.map_map]
    exact congrFun Option.map_id _
  · refine .inr ⟨hexists, fun s' hs' => ?_⟩
    obtain ⟨r, hr, rfl⟩ := Option.map_eq_some_iff.mp hs'
    exact hbad r hr

end Blob

end Fdt

end Sanctum
