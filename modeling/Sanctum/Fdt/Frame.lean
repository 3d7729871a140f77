import Sanctum.Fdt.Walk

/-!
# What the scan leaves alone

The scan goes forward (`Ordered`), and what `fdt_scan_helper` overwrites itself is behind it. So
callbacks that do not write into the blob make a scan that calls them as the trace says
(`Blob.safe_of_leaves`), whatever `close` returns.
-/

namespace Sanctum

namespace Fdt

open Memory

variable {ε : Type}

/-! ### The scan goes forward -/

section Ordered

variable (base : Word)

/-- The words that are overwritten after a call end where the scan has got. -/
def InPlace (y : ℕ) : Event → Prop
  | .close _ lex lexNext => lexNext = place base y ∧ ∃ start ≤ y, lex = place base start
  | _ => True

/-- From byte `x` to byte `z` the scan makes these calls. -/
inductive Ordered : ℕ → List (Event × ℕ) → ℕ → Prop where
  /-- No call. -/
  | nil {x z : ℕ} (hx : x ≤ z) : Ordered x [] z
  /-- A call, and those after it. -/
  | cons {x y z : ℕ} {e : Event} {es : List (Event × ℕ)} (hx : x ≤ y) (he : InPlace base y e)
    (hes : Ordered y es z) :
      Ordered x ((e, y) :: es) z

variable {base}

theorem Ordered.le {x z : ℕ} {es : List (Event × ℕ)} (h : Ordered base x es z) : x ≤ z := by
  induction h with
  | nil hx => exact hx
  | cons hx _ _ ih => exact hx.trans ih

theorem Ordered.append {x y z : ℕ} {es es' : List (Event × ℕ)} (h : Ordered base x es y)
    (h' : Ordered base y es' z) :
    Ordered base x (es ++ es') z := by
  induction h with
  | nil hx =>
    cases h' with
    | nil hy => exact .nil (hx.trans hy)
    | cons hy he hes => exact .cons (hx.trans hy) he hes
  | cons hx he _ ih => exact .cons hx he (ih h')

theorem ordered_traceProps (strings : Word) (props : List Property) (node : List ScanNode) (x : ℕ) :
    Ordered base x (traceProps strings base props node x) (x + sizeProps props) := by
  induction props generalizing node x with
  | nil => exact .nil le_rfl
  | cons p ps ih =>
    have h := ih (node.modifyHead p.setCells) (x + p.size)
    rw [Nat.add_assoc] at h
    exact .cons (Nat.le_add_right _ _) trivial h

/-- **The scan goes forward.** -/
theorem Forest.ordered_trace (strings : Word) (f : Forest) (node : List ScanNode) (child : ScanNode) (x : ℕ) :
    Ordered base x (f.trace strings base node child x) (x + f.size) := by
  induction f generalizing node child x with
  | nil nops => exact .nil (Nat.le_add_right _ _)
  | cons nops name props children rest ihc ihr =>
    have hrest := ihr node (setCellsAll props { child with name := place base (x + 4 * nops + 4) })
      (x + 4 * nops + 4 + nameSize name + sizeProps props + children.size + 4)
    have hsize : x + (cons nops name props children rest).size =
        x + 4 * nops + 4 + nameSize name + sizeProps props + children.size + 4 + rest.size := by
      rw [size]
      omega
    rw [hsize]
    refine .cons (by omega) trivial (Ordered.append (y := x + 4 * nops + 4 + nameSize name + sizeProps props) ?_ ?_)
    · have hprops : Ordered base _ (traceProps strings base props _ _) _ := ordered_traceProps strings props
        ({ child with name := place base (x + 4 * nops + 4) } :: node) (x + 4 * nops + 4 + nameSize name)
      exact Ordered.append (.nil (Nat.le_add_right _ _)) hprops
    · refine .cons le_rfl trivial ((ihc _ _ _).append (.cons (by omega) ⟨rfl, _, ?_, rfl⟩ hrest))
      omega

end Ordered

/-! ### What is kept -/

section Kept

variable {strings base : Word} {block : List Byte} {props : List Property} {m m' : Memory} {x y : ℕ}

variable (strings base block props) in
/-- The bytes of the structure block from byte `y` on, and the names. -/
def Kept (y : ℕ) (b : Word) : Prop :=
  (∃ i, y ≤ i ∧ i < block.length ∧ b = place base i) ∨
    ∃ p ∈ props, Within (strings + p.nameOff.setWidth 64) (p.name.1.length + 1) b

theorem Kept.mono {b : Word} (h : Kept strings base block props y b) (hx : x ≤ y) :
    Kept strings base block props x b := by
  rcases h with ⟨i, hi, hlt, rfl⟩ | h
  · exact .inl ⟨i, hx.trans hi, hlt, rfl⟩
  · exact .inr h

theorem Ahead.congr (h : Ahead strings base block props y m) (hnames : ∀ p ∈ props, p.name.1.length < 2 ^ 64)
    (hm : ∀ b, Kept strings base block props y b → m' b = m b) : Ahead strings base block props y m' := by
  constructor
  · have hbytes := h.bytes
    rw [holds_iff] at hbytes ⊢
    intro i hi
    rw [← hbytes i hi]
    rw [List.length_drop] at hi
    exact hm _ (.inl ⟨y + i, Nat.le_add_right _ _, by omega, place_add y i⟩)
  · intro p hp
    have hlength : (p.name.1 ++ [0]).length = p.name.1.length + 1 := by rw [List.length_append]; rfl
    refine (h.names p hp).congr (by rw [hlength]; exact hnames p hp) fun b hb => hm b (.inr ⟨p, hp, ?_⟩)
    rwa [hlength] at hb

theorem writeNops_of_not_within {n : ℕ} {lex b : Word} (h : ¬ Within lex (4 * n) b) (hn : 4 * n ≤ 2 ^ 64) :
    writeNops n lex m b = m b := by
  induction n generalizing lex m with
  | zero => rfl
  | succ n ih =>
    rw [writeNops, ih (fun hw => h ?_) (by omega), store32_of_not_within fun hw => h (hw.mono (by omega))]
    exact Within.of_add (i := 4) hw (by omega) hn

/-- What is overwritten after `close`. -/
theorem eraseIf_of_ne {s : ScanState ε} {result : ℤ} {start : ℕ} {b : Word} (hstart : start ≤ y) (hy : y < 2 ^ 64)
    (h : ∀ i, start ≤ i → i < y → b ≠ place base i) :
    (eraseIf result (place base start) (place base y) s).mem b = s.mem b := by
  rw [eraseIf]
  split
  · have hwords : (place base y - place base start).toNat = y - start := by
      have hsum : place base y = place base start + BitVec.ofNat 64 (y - start) := by
        rw [place_add, Nat.add_sub_cancel' hstart]
      rw [hsum, Memory.toNat_add_sub (by omega)]
    rw [hwords]
    refine writeNops_of_not_within (fun hw => ?_) (by omega)
    obtain ⟨k, hk, rfl⟩ := exists_of_within hw
    exact h (start + k) (by omega) (by omega) (place_add start k)
  · rfl

theorem place_inj {i j : ℕ} (hi : i < 2 ^ 64) (hj : j < 2 ^ 64) (h : place base i = place base j) : i = j := by
  have hnat := congrArg BitVec.toNat ((BitVec.add_right_inj _).mp h)
  rwa [BitVec.toNat_ofNat, BitVec.toNat_ofNat, Nat.mod_eq_of_lt hi, Nat.mod_eq_of_lt hj] at hnat

end Kept

/-! ### Callbacks that leave the blob alone -/

/-- The callbacks do not write these bytes. -/
structure FdtCb.Leaves (cb : FdtCb ε) (kept : Word → Prop) : Prop where
  /-- `open`. -/
  opened : ∀ node s s', cb.onOpen node s = some s' → ∀ b, kept b → s'.mem b = s.mem b
  /-- `prop`. -/
  prop : ∀ node prop s s', cb.onProp node prop s = some s' → ∀ b, kept b → s'.mem b = s.mem b
  /-- `done`. -/
  done : ∀ node s s', cb.onDone node s = some s' → ∀ b, kept b → s'.mem b = s.mem b
  /-- `close`. -/
  close : ∀ node s r, cb.onClose node s = some r → ∀ b, kept b → r.2.mem b = s.mem b

variable {cb : FdtCb ε} {m : Memory} {fdt : Word} {f : Forest} {k : ℕ} {e : ε}

/-- The bytes of the structure block, and the names of the properties. -/
abbrev Blob.Kept (m : Memory) (fdt : Word) (f : Forest) : ℕ → Word → Prop :=
  Fdt.Kept (stringsBlock m fdt) (structBlock m fdt) f.block f.allProps

theorem Forest.length_block (f : Forest) : f.block.length = f.size + 4 := by
  rw [block, List.length_append, length_encode, length_be32]

theorem Blob.names_length (h : Blob m fdt f) : ∀ p ∈ f.allProps, p.name.1.length < 2 ^ 64 := by
  intro p hp
  by_contra hlong
  -- the name would fill memory, and so meet the structure block
  refine h.apart_strings p hp (structBlock m fdt) ?_ ?_
  · rw [Within]
    have hlt := (structBlock m fdt - (stringsBlock m fdt + p.nameOff.setWidth 64)).isLt
    omega
  · rw [Within, BitVec.sub_self, f.length_block]
    exact Nat.succ_pos _

/-- **A call** leaves what is ahead as it is. -/
theorem Blob.call_kept (h : Blob m fdt f) (hleaves : cb.Leaves (Blob.Kept m fdt f 0)) {ev : Event} {y : ℕ}
    (hplace : InPlace (structBlock m fdt) y ev) (hy : y ≤ f.block.length) {s s' : ScanState ε}
    (hcall : cb.call ev s = some s') {b : Word} (hb : Blob.Kept m fdt f y b) : s'.mem b = s.mem b := by
  have hlength := h.length_lt
  have hb0 : Blob.Kept m fdt f 0 b := hb.mono (Nat.zero_le y)
  cases ev with
  | opened node => exact hleaves.opened node s s' hcall b hb0
  | prop node prop => exact hleaves.prop node prop s s' hcall b hb0
  | done node => exact hleaves.done node s s' hcall b hb0
  | close node lex lexNext =>
    obtain ⟨rfl, start, hstart, rfl⟩ := hplace
    obtain ⟨r, hclose, rfl⟩ := Option.map_eq_some_iff.mp hcall
    rw [← hleaves.close node s r hclose b hb0]
    refine eraseIf_of_ne hstart (by omega) fun i _ hi heq => ?_
    rcases hb with ⟨j, hj, hlt, rfl⟩ | ⟨p, hp, hb⟩
    · have hij := place_inj (by omega) (by omega) heq
      omega
    · -- the names are not in the structure block
      exact h.apart_strings p hp b hb (heq ▸ within_add (by omega) (by omega))

theorem Blob.safe_of_ordered (h : Blob m fdt f) (hleaves : cb.Leaves (Blob.Kept m fdt f 0)) {x z : ℕ}
    {es : List (Event × ℕ)} (hes : Ordered (structBlock m fdt) x es z) (hz : z ≤ f.block.length) {s : ScanState ε}
    (hahead : Ahead (stringsBlock m fdt) (structBlock m fdt) f.block f.allProps x s.mem) :
    Fdt.Safe (stringsBlock m fdt) (structBlock m fdt) f.block f.allProps cb (fun _ => False) es s := by
  induction hes generalizing s with
  | nil hx => trivial
  | cons hx he hes ih =>
    intro s' hcall
    have hahead' := (hahead.mono hx).congr h.names_length fun b hb =>
      h.call_kept hleaves he (hes.le.trans hz) hcall hb
    exact .inr ⟨hahead', ih hz hahead'⟩

/-- **Callbacks that leave the blob alone** are safe. -/
theorem Blob.safe_of_leaves (h : Blob m fdt f) (hleaves : cb.Leaves (Blob.Kept m fdt f 0)) :
    Blob.Safe m fdt f cb (fun _ => False) e := by
  have hsize := f.length_block
  exact h.safe_of_ordered hleaves (f.ordered_trace _ _ _ 0) (by omega) h.ahead

theorem absorbing_false (cb : FdtCb ε) : cb.Absorbing fun _ => False := fun _ _ _ h _ => h

/-- **Safe callbacks** are called as the trace says. -/
theorem Blob.helper_eq (h : Blob m fdt f) (hsafe : Blob.Safe m fdt f cb (fun _ => False) e) (hk : f.need ≤ k) :
    fdtScanHelper cb (stringsBlock m fdt) k (structBlock m fdt) [] .fresh false ⟨m, e⟩ =
      (cb.run (Blob.trace m fdt f) ⟨m, e⟩).map fun s => (place (structBlock m fdt) f.size, [], s) := by
  rcases h.helper_agrees (absorbing_false cb) hk hsafe with heq | ⟨⟨-, hfalse⟩, -⟩
  · exact heq
  · exact hfalse.elim

theorem Blob.scan_eq (h : Blob m fdt f) (hsafe : Blob.Safe m fdt f cb (fun _ => False) e) (hk : f.need ≤ k) :
    fdtScan cb k fdt ⟨m, e⟩ = cb.run (Blob.trace m fdt f) ⟨m, e⟩ := by
  rcases h.scan_agrees (absorbing_false cb) hk hsafe with heq | ⟨⟨-, hfalse⟩, -⟩
  · exact heq
  · exact hfalse.elim

/-- **What the scan has behind it** may be overwritten. -/
theorem Blob.ahead_of_ne (h : Blob m fdt f) {m₁ m₂ : Memory} {x y : ℕ} (hxy : x ≤ y) (hy : y ≤ f.block.length)
    (hahead : Ahead (stringsBlock m fdt) (structBlock m fdt) f.block f.allProps x m₁)
    (hm : ∀ b, (∀ i < y, b ≠ place (structBlock m fdt) i) → m₂ b = m₁ b) :
    Ahead (stringsBlock m fdt) (structBlock m fdt) f.block f.allProps y m₂ := by
  have hlength := h.length_lt
  refine (hahead.mono hxy).congr h.names_length fun b hb => hm b fun i hi heq => ?_
  rcases hb with ⟨j, hj, hlt, rfl⟩ | ⟨p, hp, hb⟩
  · have hij := place_inj (by omega) (by omega) heq
    omega
  · exact h.apart_strings p hp b hb (heq ▸ within_add (by omega) (by omega))

/-! ### Calls one after the other -/

section Append

variable {strings base : Word} {block : List Byte} {props : List Property} {bad : ScanState ε → Prop}

theorem run_bad (habs : cb.Absorbing bad) {es : List (Event × ℕ)} {s s' : ScanState ε} (hs : bad s)
    (hrun : cb.run es s = some s') : bad s' := by
  induction es generalizing s with
  | nil => exact Option.some.inj hrun ▸ hs
  | cons e es ih =>
    obtain ⟨s₁, hcall, hrun⟩ := Option.bind_eq_some_iff.mp hrun
    exact ih (habs _ _ _ hs hcall) hrun

theorem safe_of_bad (habs : cb.Absorbing bad) {es : List (Event × ℕ)} {s : ScanState ε} (hs : bad s) :
    Fdt.Safe strings base block props cb bad es s := by
  cases es with
  | nil => trivial
  | cons e es => exact fun s' hcall => .inl (habs _ _ _ hs hcall)

theorem safe_append {es es' : List (Event × ℕ)} {s : ScanState ε}
    (h : Fdt.Safe strings base block props cb bad es s)
    (h' : ∀ s', cb.run es s = some s' → Fdt.Safe strings base block props cb bad es' s') :
    Fdt.Safe strings base block props cb bad (es ++ es') s := by
  induction es generalizing s with
  | nil => exact h' s rfl
  | cons e es ih =>
    intro s₁ hcall
    refine (h s₁ hcall).imp_right fun hs => ⟨hs.1, ih hs.2 fun s' hrun => h' s' ?_⟩
    rw [FdtCb.run, hcall]
    exact hrun

/-- Properties, if their callback does not write. -/
theorem safe_traceProps (hmem : ∀ node prop s s', cb.onProp node prop s = some s' → s'.mem = s.mem)
    (ps : List Property) {x : ℕ} {node : List ScanNode} {s : ScanState ε}
    (h : Ahead strings base block props x s.mem) :
    Fdt.Safe strings base block props cb bad (traceProps strings base ps node x) s := by
  induction ps generalizing x node s with
  | nil => trivial
  | cons p ps ih =>
    intro s' hcall
    have hahead : Ahead strings base block props (x + p.size) s'.mem := by
      rw [hmem _ _ _ _ hcall]
      exact h.mono (Nat.le_add_right _ _)
    exact .inr ⟨hahead, ih hahead⟩

end Append

/-! ### Another tree in its place -/

/-- The words of the header are read from its bytes. -/
theorem header_congr {m m' : Memory} {fdt : Word} {i : ℕ} (hi : i < 10) (hm : ∀ b, Within fdt 40 b → m' b = m b) :
    header m' fdt i = header m fdt i := by
  have hold : m.Holds (fdt + BitVec.ofNat 64 (4 * i)) (be32 (header m fdt i)) := cell_eq_iff.mp rfl
  refine cell_eq_iff.mpr (hold.congr (by rw [length_be32]; omega) fun b hb => hm b ?_)
  exact Within.of_add hb (by rw [length_be32]; omega) (by omega)

/-- **Another tree** that has as many bytes and the same names may be put in its place. -/
theorem Blob.replace {m m' : Memory} {fdt : Word} {f f' : Forest} (h : Blob m fdt f) (hsize : f'.size = f.size)
    (hnames : ∀ p' ∈ f'.allProps, ∃ p ∈ f.allProps, p'.name = p.name ∧ p'.nameOff = p.nameOff)
    (hbytes : m'.Holds (structBlock m fdt) f'.block)
    (hframe : ∀ b, ¬ Within (structBlock m fdt) f.block.length b → m' b = m b) : Blob m' fdt f' := by
  have hheader {i : ℕ} (hi : i < 10) : header m' fdt i = header m fdt i :=
    header_congr hi fun b hb => hframe b (h.apart_header b hb)
  have hlength : f'.block.length = f.block.length := by rw [Forest.length_block, Forest.length_block, hsize]
  have hstruct : structBlock m' fdt = structBlock m fdt := by rw [structBlock, structBlock, hheader (by omega)]
  have hstrings : stringsBlock m' fdt = stringsBlock m fdt := by rw [stringsBlock, stringsBlock, hheader (by omega)]
  have happart (p' : Property) (hp' : p' ∈ f'.allProps) :
      Apart (stringsBlock m fdt + p'.nameOff.setWidth 64) (p'.name.1.length + 1)
        (structBlock m fdt) f.block.length := by
    obtain ⟨p, hp, hname, hoff⟩ := hnames p' hp'
    rw [hname, hoff]
    exact h.apart_strings p hp
  constructor
  · rw [hheader (by omega)]
    exact h.magic
  · rw [hheader (by omega)]
    exact h.version
  · rw [hstruct]
    exact hbytes
  · intro p' hp'
    obtain ⟨p, hp, hname, hoff⟩ := hnames p' hp'
    have hlen : (p.name.1 ++ [0]).length = p.name.1.length + 1 := by rw [List.length_append]; rfl
    rw [hstrings, Named, hname, hoff]
    refine (h.strings p hp).congr (by rw [hlen]; exact h.names_length p hp) fun b hb => hframe b ?_
    rw [hlen] at hb
    exact h.apart_strings p hp b hb
  · rw [hlength]
    exact h.length_lt
  · rw [hstruct, hlength]
    exact h.apart_header
  · intro p' hp'
    rw [hstruct, hstrings, hlength]
    exact happart p' hp'

end Fdt

end Sanctum
