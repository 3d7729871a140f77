import Sanctum.Fdt.Cells
import Sanctum.Fdt.FilterCompat

/-!
# Harts that are hidden

`filter_harts` writes `masked` over the status of each hart that is in a mask, if the status is `okay`. The word
with the length of the property is right before the value, and is overwritten too. Both strings take
two words, so that the scan finds the next token where it was.

But the status is compared as a string in memory, and a value that is longer than `okay` with its null
byte, or shorter by this null byte, may be the same string; and the number of the hart is taken from `reg` as an
`int`, with the cells in the parent's record, and used as a shift count of six bits.

What the harts of a mask are is said in terms of the tree (`Forest.maskHarts`), and what the callbacks
do at a node in terms of what they find in memory (`NodeAt.hide`).

## What is proved

* `hart_head` — `open`, the properties and `done` of one node hide the status of a hart whose bit is set.
-/

namespace Sanctum

namespace Fdt

open Memory

/-! ### The callbacks -/

/-- `struct hart_filter`. A null pointer is `none`. -/
structure HartFilter where
  /-- `compat`. -/
  compat : Bool
  /-- `hart`. -/
  hart : ℤ
  /-- `status`. -/
  status : Option Word
  /-- `mask`. -/
  mask : Word

/-- `hart_filter_open`. -/
def hartFilterOpen (_ : List ScanNode) (s : ScanState HartFilter) : Option (ScanState HartFilter) :=
  some { s with extra := { s.extra with status := none, compat := false, hart := -1 } }

/-- `hart_filter_prop`. The second record is that of the node's parent. -/
def hartFilterProp (node : List ScanNode) (prop : ScanProp) (s : ScanState HartFilter) :
    Option (ScanState HartFilter) :=
  if s.mem.strcmp prop.name (ascii "device_type") = 0 ∧ s.mem.strcmp prop.value (ascii "cpu") = 0 then
    some { s with extra.compat := true }
  else if s.mem.strcmp prop.name (ascii "reg") = 0 then do
    let parent ← node.tail.head?
    return { s with extra.hart := ((fdtGetAddress s.mem parent prop.value).2.setWidth 32).toInt }
  else if s.mem.strcmp prop.name (ascii "status") = 0 then some { s with extra.status := some prop.value }
  else some s

/-- What is written over the status. -/
def maskStatus (status : Word) (m : Memory) : Memory :=
  (m.strcpy status (ascii "masked")).store32 (status - 8) (bswap 7)

/-- `hart_filter_done`. A shift count has six bits. -/
def hartFilterDone (_ : List ScanNode) (s : ScanState HartFilter) : Option (ScanState HartFilter) :=
  if s.extra.compat = false then some s
  else do
    let status ← s.extra.status
    if s.extra.hart < 0 then none
    else if (s.extra.mask >>> (s.extra.hart.toNat % 64)) &&& 1 ≠ 0 ∧ s.mem.strcmp status (ascii "okay") = 0 then
      return { s with mem := maskStatus status s.mem }
    else return s

/-- The callbacks of `filter_harts`. `close` is null. -/
def hartCb : FdtCb HartFilter where
  onOpen := hartFilterOpen
  onProp := hartFilterProp
  onDone := hartFilterDone
  onClose _ s := some (0, s)

/-- `filter_harts`. But for the mask, the record is not set before `open`. -/
def filterHarts (fuel : ℕ) (fdt mask : Word) (m : Memory) : Option Memory :=
  (fdtScan hartCb fuel fdt ⟨m, ⟨false, 0, none, mask⟩⟩).map ScanState.mem

/-! ### What is expected -/

/-- The names of the properties that are looked at. -/
def deviceTypeName : CString := ⟨ascii "device_type", by decide⟩

/-- The second one. -/
def regName : CString := ⟨ascii "reg", by decide⟩

/-- The third one. -/
def statusName : CString := ⟨ascii "status", by decide⟩

/-- `device_type` is `cpu`. -/
def IsCpu (props : List Property) : Prop := ∃ p ∈ props, p.name = deviceTypeName ∧ cstring p.value = ascii "cpu"

instance (props : List Property) : Decidable (IsCpu props) :=
  inferInstanceAs (Decidable (∃ p ∈ props, p.name = deviceTypeName ∧ cstring p.value = ascii "cpu"))

/-- The last property of this name. -/
def lastNamed (name : CString) : List Property → Option Property
  | [] => none
  | p :: ps => (lastNamed name ps).or (if p.name = name then some p else none)

/-- The number in these bytes. -/
def number (bs : List Byte) : ℕ := bs.foldl (fun n b => 256 * n + b.toNat) 0

/-- What `reg` says, with so many address cells. -/
def regValue (cells : CellCounts) (p : Property) : ℕ := number (p.value.take (4 * cells.1.toInt.toNat))

/-- `okay`, with its null byte. -/
def okayBytes : List Byte := ascii "okay" ++ [0]

/-- `masked`, with its null byte. -/
def maskedBytes : List Byte := ascii "masked" ++ [0]

/-- A status that is hidden. -/
def Property.masked (p : Property) : Property :=
  if h : p.name = statusName then
    { p with
      value := maskedBytes
      length_lt := by decide
      cells_length := by rw [h]; decide }
  else p

/-- The last status is hidden. -/
def maskLast : List Property → List Property
  | [] => []
  | p :: ps => if HasOwn statusName ps then p :: maskLast ps else p.masked :: ps

/-- The node is a hart of the mask, and its status is `okay`. -/
def ToMask (mask : Word) (cells : Option CellCounts) (props : List Property) : Prop :=
  IsCpu props ∧ (∃ c ∈ cells, ∃ r ∈ lastNamed regName props, regValue c r < 64 ∧
    mask.getLsbD (regValue c r) = true) ∧
    ∃ s ∈ lastNamed statusName props, s.value = okayBytes

instance (mask : Word) (cells : Option CellCounts) (props : List Property) : Decidable (ToMask mask cells props) :=
  inferInstanceAs (Decidable (_ ∧ _ ∧ _))

/-- **The tree in which the harts of the mask are hidden.** `cells` are those of the parent. -/
def Forest.maskHarts (mask : Word) : Forest → Option CellCounts → Forest
  | nil nops, _ => nil nops
  | cons nops name props children rest, cells =>
    cons nops name (if ToMask mask cells props then maskLast props else props)
      (children.maskHarts mask (some (ownCells props))) (rest.maskHarts mask cells)

/-! ### Where the harts are -/

/-- Where the value is of the last property of this name. The first property begins at byte `x`. -/
def lastAt (name : CString) : List Property → ℕ → Option ℕ
  | [], _ => none
  | p :: ps, x => (lastAt name ps (x + p.size)).or (if p.name = name then some (x + 4 * p.nops + 12) else none)

/-- A node, with what `hart_filter_prop` and `hart_filter_done` find there. -/
structure NodeAt where
  /-- Its properties. -/
  props : List Property
  /-- Where they begin. -/
  inner : ℕ
  /-- The record of the parent. -/
  parent : Option ScanNode
  /-- The cells of the parent. -/
  cells : Option CellCounts

/-- **The nodes**, with the records that the scan has for them. -/
def Forest.nodes (base : Word) : Forest → List ScanNode → ScanNode → Option CellCounts → ℕ → List NodeAt
  | nil _, _, _, _, _ => []
  | cons nops name props children rest, node, child, cells, x =>
    let start := x + 4 * nops
    let inner := start + 4 + nameSize name
    let afterProps := inner + sizeProps props
    let full := setCellsAll props { child with name := place base (start + 4) }
    ⟨props, inner, node.head?, cells⟩ ::
      (children.nodes base (full :: node) .fresh (some (ownCells props)) afterProps ++
      rest.nodes base node full cells (afterProps + children.size + 4))

section Hart

variable (m₀ : Memory) (base mask : Word)

/-- The number of the hart, as `hart_filter_prop` reads it. -/
def NodeAt.hart (v : NodeAt) : Option ℤ :=
  v.parent.bind fun parent => (lastAt regName v.props v.inner).map fun y =>
    ((fdtGetAddress m₀ parent (place base y)).2.setWidth 32).toInt

/-- The last status, and where its value is. -/
def NodeAt.status (v : NodeAt) : Option (Property × ℕ) :=
  (lastNamed statusName v.props).bind fun p => (lastAt statusName v.props v.inner).map fun y => (p, y)

/-- **A hart is what it seems.** Its number is an `int`; if its status is `okay`, then the bit of the mask that is
tested is set exactly if the hart is one of the mask; and if its status is the string `okay`, but not
with these bytes, then the bit that is tested is not set. -/
structure HartRight (v : NodeAt) (hart : ℤ) (p : Property) : Prop where
  /-- The number is not negative. -/
  nonneg : 0 ≤ hart
  /-- The status is `okay`. -/
  okay : p.value = okayBytes → (mask.getLsbD (hart.toNat % 64) = true ↔
    ∃ c ∈ v.cells, ∃ r ∈ lastNamed regName v.props, regValue c r < 64 ∧ mask.getLsbD (regValue c r) = true)
  /-- The status is the same string. -/
  other : cstring p.value = ascii "okay" → p.value ≠ okayBytes → mask.getLsbD (hart.toNat % 64) = false

/-- Nodes without a parent have no `reg`, and harts are what they seem. -/
structure NodeAt.Right (v : NodeAt) : Prop where
  /-- `reg` is read with the parent's cells. -/
  parent : HasOwn regName v.props → v.parent ≠ none
  /-- The harts. -/
  hart : IsCpu v.props → ∀ hart ∈ v.hart m₀ base, ∀ s ∈ v.status, HartRight mask v hart s.1

end Hart

/-- All nodes of the tree. -/
abbrev Blob.nodes (m : Memory) (fdt : Word) (f : Forest) : List NodeAt :=
  f.nodes (structBlock m fdt) [] .fresh none 0

/-- **All harts are what they seem.** -/
def HartsRight (m : Memory) (fdt mask : Word) (f : Forest) : Prop :=
  ∀ v ∈ Blob.nodes m fdt f, v.Right m (structBlock m fdt) mask

/-- Every hart has a number and a status. -/
def Forest.HartsComplete : Forest → Prop
  | nil _ => True
  | cons _ _ props children rest =>
    (IsCpu props → HasOwn regName props ∧ HasOwn statusName props) ∧ children.HartsComplete ∧ rest.HartsComplete

/-- **The harts of the mask are hidden**, the blob is well-formed, and nothing else is changed. The tokens are
where they were. -/
structure HidesHarts (m m' : Memory) (fdt mask : Word) (f : Forest) : Prop where
  /-- A blob. -/
  blob : Blob m' fdt (f.maskHarts mask none)
  /-- A scan sees its nodes. -/
  sees : Sees m' fdt (f.maskHarts mask none)
  /-- The calls are at the same tokens. -/
  tokens : (Blob.trace m' fdt (f.maskHarts mask none)).map Prod.snd = (Blob.trace m fdt f).map Prod.snd
  /-- Nothing else is changed. -/
  frame : ∀ b, ¬ Within (structBlock m fdt) f.block.length b → m' b = m b

/-- **`filter_harts` hides the harts of the mask**, and returns. -/
def FiltersHarts (m : Memory) (fdt mask : Word) (f : Forest) : Prop :=
  ∀ k ≥ f.need, ∃ m', filterHarts k fdt mask m = some m' ∧ HidesHarts m m' fdt mask f

/-! ### The last property of a name -/

section Last

variable {name : CString}

theorem exists_last {ps : List Property} (h : HasOwn name ps) :
    ∃ us p vs, ps = us ++ p :: vs ∧ p.name = name ∧ ¬ HasOwn name vs := by
  induction ps with
  | nil =>
    obtain ⟨p, hp, -⟩ := h
    cases hp
  | cons p ps ih =>
    by_cases hps : HasOwn name ps
    · obtain ⟨us, q, vs, rfl, hq, hvs⟩ := ih hps
      exact ⟨p :: us, q, vs, rfl, hq, hvs⟩
    · obtain ⟨q, hq, hname⟩ := h
      rcases List.mem_cons.mp hq with rfl | hq
      · exact ⟨[], q, ps, rfl, hname, hps⟩
      · exact absurd ⟨q, hq, hname⟩ hps

theorem hasOwn_cons {p : Property} {ps : List Property} : HasOwn name (p :: ps) ↔ p.name = name ∨ HasOwn name ps :=
  List.exists_mem_cons_iff _ _ _

theorem lastNamed_of_not {ps : List Property} (h : ¬ HasOwn name ps) : lastNamed name ps = none := by
  induction ps with
  | nil => rfl
  | cons p ps ih =>
    rw [hasOwn_cons, not_or] at h
    rw [lastNamed, ih h.2, if_neg h.1]
    rfl

theorem lastAt_of_not {ps : List Property} (h : ¬ HasOwn name ps) (x : ℕ) : lastAt name ps x = none := by
  induction ps generalizing x with
  | nil => rfl
  | cons p ps ih =>
    rw [hasOwn_cons, not_or] at h
    rw [lastAt, ih h.2, if_neg h.1]
    rfl

variable {us vs : List Property} {p : Property}

theorem lastNamed_split (hp : p.name = name) (hvs : ¬ HasOwn name vs) : lastNamed name (us ++ p :: vs) = some p := by
  induction us with
  | nil => rw [List.nil_append, lastNamed, lastNamed_of_not hvs, if_pos hp]; rfl
  | cons u us ih => rw [List.cons_append, lastNamed, ih]; rfl

theorem lastAt_split (hp : p.name = name) (hvs : ¬ HasOwn name vs) (x : ℕ) :
    lastAt name (us ++ p :: vs) x = some (x + sizeProps us + 4 * p.nops + 12) := by
  induction us generalizing x with
  | nil => rw [List.nil_append, lastAt, lastAt_of_not hvs, if_pos hp]; rfl
  | cons u us ih => rw [List.cons_append, lastAt, ih, sizeProps, ← Nat.add_assoc]; rfl

theorem maskLast_split (hp : p.name = statusName) (hvs : ¬ HasOwn statusName vs) :
    maskLast (us ++ p :: vs) = us ++ p.masked :: vs := by
  induction us with
  | nil => rw [List.nil_append, maskLast, if_neg hvs]; rfl
  | cons u us ih =>
    have hown : HasOwn statusName (us ++ p :: vs) := ⟨p, List.mem_append_right _ List.mem_cons_self, hp⟩
    rw [List.cons_append, maskLast, if_pos hown, ih]
    rfl

end Last

theorem encodeProps_append (us vs : List Property) : encodeProps (us ++ vs) = encodeProps us ++ encodeProps vs := by
  induction us with
  | nil => rfl
  | cons u us ih => rw [List.cons_append, encodeProps, ih, encodeProps, List.append_assoc]

theorem sizeProps_append (us vs : List Property) : sizeProps (us ++ vs) = sizeProps us + sizeProps vs := by
  rw [← length_encodeProps, encodeProps_append, List.length_append, length_encodeProps, length_encodeProps]

/-! ### What is written over the status -/

section MaskStatus

variable {m : Memory} {base b : Word}

/-- Each byte is as it was, or is one of these, of which none is the first one of `okay`. -/
theorem maskStatus_ne {a : Word} (h : m b ≠ 0x6f) : maskStatus a m b ≠ 0x6f := by
  have hput : m.strcpy a (ascii "masked") b ≠ 0x6f := by
    rcases put_or_mem m a (ascii "masked" ++ [0]) b with heq | hmem
    · rw [strcpy, heq]
      exact h
    · intro heq
      rw [strcpy] at heq
      rw [heq] at hmem
      revert hmem
      decide
  rw [maskStatus]
  by_cases hw : Within (a - 8) 4 b
  · obtain ⟨k, hk, rfl⟩ := exists_of_within hw
    have hword := holds_iff.mp (holds_store32_bswap (m.strcpy a (ascii "masked")) (a - 8) 7) k (by rwa [length_be32])
    rw [hword]
    intro heq
    have hmem := List.getElem_mem (l := be32 7) (n := k) (by rwa [length_be32])
    rw [heq] at hmem
    revert hmem
    decide
  · rwa [store32_of_not_within hw]

theorem place_sub {y : ℕ} (hy : 8 ≤ y) : place base y - 8 = place base (y - 8) := by
  rw [← Nat.sub_add_cancel hy, ← place_add, Nat.sub_add_cancel hy]
  exact BitVec.add_sub_cancel _ _

/-- The word with the length, and the seven bytes of the string, are all that is changed. -/
theorem maskStatus_of_ne {y : ℕ} (hy : 8 ≤ y)
    (h : ∀ i, y - 8 ≤ i ∧ i < y - 4 ∨ y ≤ i ∧ i < y + 7 → b ≠ place base i) :
    maskStatus (place base y) m b = m b := by
  rw [maskStatus, place_sub hy, store32_of_not_within fun hw => ?_, strcpy]
  · refine put_of_not_within (fun hw => ?_) (by decide)
    obtain ⟨k, hk, rfl⟩ := exists_of_within hw
    change k < 7 at hk
    exact h (y + k) (by omega) (place_add y k)
  · obtain ⟨k, hk, rfl⟩ := exists_of_within hw
    exact h (y - 8 + k) (by omega) (place_add _ k)

theorem holds_maskStatus_of_ne {y z : ℕ} {bs : List Byte} (h : m.Holds (place base z) bs) (hy : 8 ≤ y)
    (hapart : z + bs.length ≤ y - 8 ∨ y - 4 ≤ z ∧ z + bs.length ≤ y ∨ y + 7 ≤ z) (hylt : y + 7 < 2 ^ 64)
    (hz : z + bs.length < 2 ^ 64) : (maskStatus (place base y) m).Holds (place base z) bs := by
  refine h.congr (by omega) fun b hb => maskStatus_of_ne hy fun i hi heq => ?_
  obtain ⟨k, hk, rfl⟩ := exists_of_within hb
  rw [place_add] at heq
  have hik := place_inj (by omega) (by omega) heq
  omega

/-- The value is `masked`. -/
theorem holds_maskStatus (a : Word) : (maskStatus a m).Holds a maskedBytes := by
  have hput : (m.strcpy a (ascii "masked")).Holds a maskedBytes := holds_put (by decide)
  refine hput.congr (by decide) fun b hb => store32_of_not_within fun hw => ?_
  obtain ⟨k, hk, rfl⟩ := exists_of_within hb
  obtain ⟨j, hj, heq⟩ := exists_of_within hw
  change k < 7 at hk
  have hplace : place a (8 + k) = place a j := by
    calc place a (8 + k) = a + BitVec.ofNat 64 k + 8 := by
          rw [place, Nat.add_comm, BitVec.ofNat_add, ← BitVec.add_assoc]
          rfl
      _ = a - 8 + BitVec.ofNat 64 j + 8 := by rw [heq]
      _ = place a j := by
          rw [BitVec.add_assoc, BitVec.add_comm (BitVec.ofNat 64 j), ← BitVec.add_assoc, BitVec.sub_add_cancel]
          rfl
  have hkj := place_inj (by omega) (by omega) hplace
  omega

end MaskStatus

/-! ### What the callbacks do -/

section Calls

variable {strings base : Word} {block : List Byte} {allProps : List Property} {m : Memory} {x : ℕ} {p : Property}
  {t : List Byte}

/-- The value of a property ahead is compared. -/
theorem Ahead.strcmp_value (h : Ahead strings base block allProps x m) (hblock : block.drop x = p.encode ++ 0 :: t)
    {s : List Byte} (hs : NoNull s) : m.strcmp (p.record strings base x).value s = 0 ↔ cstring p.value = s := by
  have hvalue := h.value hblock
  rw [padded, List.append_assoc] at hvalue
  have hzero : ∃ w, List.replicate (padding p.value.length) 0 ++ 0 :: t = 0 :: w := by
    cases padding p.value.length with
    | zero => exact ⟨t, rfl⟩
    | succ n => exact ⟨_, rfl⟩
  obtain ⟨w, hw⟩ := hzero
  rw [hw] at hvalue
  exact strcmp_eq_zero_iff_cstring hs hvalue

/-- The number in the last `reg`, or else what was there. -/
def lastHart (m : Memory) (base : Word) (parent : Option ScanNode) (ps : List Property) (x : ℕ) (hart : ℤ) : ℤ :=
  (parent.bind fun parent => (lastAt regName ps x).map fun y =>
    ((fdtGetAddress m parent (place base y)).2.setWidth 32).toInt).getD hart

/-- **One property.** -/
theorem hartFilterProp_eq (h : Ahead strings base block allProps x m) (hp : p ∈ allProps)
    (hblock : block.drop x = p.encode ++ 0 :: t) (node : List ScanNode) (e : HartFilter) :
    hartFilterProp node (p.record strings base x) ⟨m, e⟩ =
      if p.name = deviceTypeName
        then some ⟨m, { e with compat := e.compat || decide (cstring p.value = ascii "cpu") }⟩
      else if p.name = regName then node.tail.head?.map fun parent =>
        ⟨m, { e with hart := ((fdtGetAddress m parent (place base (x + 4 * p.nops + 12))).2.setWidth 32).toInt }⟩
      else if p.name = statusName then some ⟨m, { e with status := some (place base (x + 4 * p.nops + 12)) }⟩
      else some ⟨m, e⟩ := by
  have hdevice : m.strcmp (p.record strings base x).name (ascii "device_type") = 0 ↔ p.name = deviceTypeName :=
    h.strcmp_name hp x deviceTypeName
  have hreg : m.strcmp (p.record strings base x).name (ascii "reg") = 0 ↔ p.name = regName :=
    h.strcmp_name hp x regName
  have hstatus : m.strcmp (p.record strings base x).name (ascii "status") = 0 ↔ p.name = statusName :=
    h.strcmp_name hp x statusName
  have hcpu : m.strcmp (p.record strings base x).value (ascii "cpu") = 0 ↔ cstring p.value = ascii "cpu" :=
    h.strcmp_value hblock (by decide)
  rw [hartFilterProp]
  simp only [hdevice, hreg, hstatus, hcpu]
  by_cases h1 : p.name = deviceTypeName
  · have h2 : ¬ p.name = regName := by rw [h1]; decide
    have h3 : ¬ p.name = statusName := by rw [h1]; decide
    rw [if_pos h1, if_neg h2, if_neg h3]
    split
    · next hc => rw [decide_eq_true hc.2, Bool.or_true]
    · next hc => rw [decide_eq_false fun heq => hc ⟨h1, heq⟩, Bool.or_false]
  · rw [if_neg h1, if_neg fun hc => h1 hc.1]
    cases node.tail.head? with
    | none => rfl
    | some parent => rfl

/-- **Properties**, if `reg` can be read. -/
theorem hart_run_props (ps : List Property) (hps : ∀ p ∈ ps, p ∈ allProps)
    (hblock : block.drop x = encodeProps ps ++ 0 :: t) (hahead : Ahead strings base block allProps x m)
    (n : ScanNode)
    (node : List ScanNode) (hparent : HasOwn regName ps → node ≠ []) (e : HartFilter) :
    hartCb.run (traceProps strings base ps (n :: node) x) ⟨m, e⟩ =
      some ⟨m, ⟨e.compat || decide (IsCpu ps), lastHart m base node.head? ps x e.hart,
        ((lastAt statusName ps x).map (place base)).or e.status, e.mask⟩⟩ := by
  induction ps generalizing x n e with
  | nil =>
    have hnone : ¬ IsCpu [] := by rintro ⟨p, hp, -⟩; cases hp
    rw [decide_eq_false hnone, Bool.or_false, lastHart]
    cases node <;> rfl
  | cons p ps ih =>
    rw [encodeProps, List.append_assoc] at hblock
    obtain ⟨w, hw⟩ := zero_encodeProps ps t
    have hrest := drop_add_of_drop hblock
    rw [Property.length_encode] at hrest
    rw [hw] at hblock
    have hcall := hartFilterProp_eq hahead (hps p List.mem_cons_self) hblock (p.setCells n :: node) e
    have hnext (e' : HartFilter) := ih (fun q hq => hps q (List.mem_cons_of_mem _ hq)) hrest
      (hahead.mono (Nat.le_add_right _ _)) (p.setCells n) (fun hown => hparent (hasOwn_cons.mpr (.inr hown))) e'
    have hcpu : IsCpu (p :: ps) ↔ (p.name = deviceTypeName ∧ cstring p.value = ascii "cpu") ∨ IsCpu ps :=
      List.exists_mem_cons_iff _ _ _
    change (hartFilterProp (p.setCells n :: node) (p.record strings base x) ⟨m, e⟩).bind
      (hartCb.run (traceProps strings base ps (p.setCells n :: node) (x + p.size))) = _
    rw [hcall, lastAt, lastHart, lastAt]
    by_cases h1 : p.name = deviceTypeName
    · have h2 : ¬ p.name = regName := by rw [h1]; decide
      have h3 : ¬ p.name = statusName := by rw [h1]; decide
      have hbool : (e.compat || decide (cstring p.value = ascii "cpu") || decide (IsCpu ps)) =
          (e.compat || decide (IsCpu (p :: ps))) := by
        rw [Bool.or_assoc, ← Bool.decide_or]
        simp only [hcpu, h1, true_and]
      rw [if_pos h1, if_neg h2, if_neg h3, Option.bind_some, hnext, hbool, lastHart, Option.or_none, Option.or_none]
    have hbool : decide (IsCpu ps) = decide (IsCpu (p :: ps)) := by
      simp only [hcpu, h1, false_and, false_or]
    rw [if_neg h1]
    by_cases h2 : p.name = regName
    · have h3 : ¬ p.name = statusName := by rw [h2]; decide
      obtain ⟨parent, node, rfl⟩ := List.exists_cons_of_ne_nil (hparent ⟨p, List.mem_cons_self, h2⟩)
      rw [if_pos h2, if_pos h2, if_neg h3, List.tail_cons, List.head?_cons, Option.map_some,
        Option.bind_some, hnext, hbool,
        lastHart, List.head?_cons, Option.bind_some, Option.bind_some, Option.or_none]
      cases lastAt regName ps (x + p.size) <;> rfl
    rw [if_neg h2, if_neg h2, Option.or_none]
    by_cases h3 : p.name = statusName
    · rw [if_pos h3, if_pos h3, Option.bind_some, hnext, hbool, lastHart]
      cases lastAt statusName ps (x + p.size) <;> rfl
    · rw [if_neg h3, if_neg h3, Option.bind_some, hnext, hbool, lastHart, Option.or_none]

/-- `reg` of a node without a parent. -/
theorem hart_run_props_none (ps : List Property) (hps : ∀ p ∈ ps, p ∈ allProps)
    (hblock : block.drop x = encodeProps ps ++ 0 :: t) (hahead : Ahead strings base block allProps x m)
    (n : ScanNode)
    (hreg : HasOwn regName ps) (e : HartFilter) : hartCb.run (traceProps strings base ps [n] x) ⟨m, e⟩ = none := by
  induction ps generalizing x n e with
  | nil =>
    obtain ⟨p, hp, -⟩ := hreg
    cases hp
  | cons p ps ih =>
    rw [encodeProps, List.append_assoc] at hblock
    obtain ⟨w, hw⟩ := zero_encodeProps ps t
    have hrest := drop_add_of_drop hblock
    rw [Property.length_encode] at hrest
    rw [hw] at hblock
    have hcall := hartFilterProp_eq hahead (hps p List.mem_cons_self) hblock [p.setCells n] e
    change (hartFilterProp [p.setCells n] (p.record strings base x) ⟨m, e⟩).bind
      (hartCb.run (traceProps strings base ps [p.setCells n] (x + p.size))) = _
    by_cases h2 : p.name = regName
    · have h1 : ¬ p.name = deviceTypeName := by rw [h2]; decide
      rw [hcall, if_neg h1, if_pos h2]
      rfl
    · have hnext (e' : HartFilter) := ih (fun q hq => hps q (List.mem_cons_of_mem _ hq)) hrest
        (hahead.mono (Nat.le_add_right _ _)) (p.setCells n) ((hasOwn_cons.mp hreg).resolve_left h2) e'
      rw [hcall, if_neg h2]
      split
      · exact hnext _
      split
      · exact hnext _
      · exact hnext _

end Calls

/-! ### One node -/

section Node

variable (m₀ : Memory) (base mask : Word)

/-- `hart_filter_done` hides the status. -/
def NodeAt.Masks (v : NodeAt) : Prop :=
  IsCpu v.props ∧ (∃ hart ∈ v.hart m₀ base, mask.getLsbD (hart.toNat % 64) = true) ∧
    ∃ s ∈ v.status, cstring s.1.value = ascii "okay"

instance (v : NodeAt) : Decidable (v.Masks m₀ base mask) := inferInstanceAs (Decidable (_ ∧ _ ∧ _))

/-- A null pointer is followed, or an assertion fails. -/
def NodeAt.Fails (v : NodeAt) : Prop :=
  (HasOwn regName v.props ∧ v.parent = none) ∨ (IsCpu v.props ∧ ∃ hart ∈ v.hart m₀ base, hart < 0)

instance (v : NodeAt) : Decidable (v.Fails m₀ base) := inferInstanceAs (Decidable ((_ ∧ _) ∨ (_ ∧ _)))

/-- What `hart_filter_done` does. -/
def NodeAt.hide (v : NodeAt) (m : Memory) : Memory :=
  if v.Masks m₀ base mask then v.status.elim m fun s => maskStatus (place base s.2) m else m

variable {m₀ base mask}

theorem shift_and_one (mask : Word) (k : ℕ) : (mask >>> k) &&& 1 ≠ 0 ↔ mask.getLsbD k = true := by
  have hbit : ∀ i < 64, ((mask >>> k) &&& 1).getLsbD i = (decide (i = 0) && mask.getLsbD k) := by
    intro i hi
    rw [BitVec.getLsbD_and, BitVec.getLsbD_ushiftRight, show (1 : Word) = 1#64 from rfl, BitVec.getLsbD_one]
    by_cases h : i = 0
    · simp [h]
    · simp [h]
  constructor
  · intro hne
    by_contra hk
    refine hne (BitVec.eq_of_getLsbD_eq fun i hi => ?_)
    rw [hbit i hi, Bool.eq_false_iff.mpr hk, Bool.and_false]
    exact (BitVec.getLsbD_zero).symm
  · intro hk heq
    have h0 := hbit 0 (by omega)
    rw [heq, hk] at h0
    exact absurd h0 (by decide)

section Head

variable {strings : Word} {block : List Byte} {allProps ps : List Property} {m : Memory} {inner : ℕ} {t : List Byte}

/-- The last property of a name is ahead. -/
theorem drop_split {us vs : List Property} {p : Property}
    (hblock : block.drop inner = encodeProps (us ++ p :: vs) ++ 0 :: t) :
    ∃ w, block.drop (inner + sizeProps us) = p.encode ++ 0 :: w := by
  rw [encodeProps_append, encodeProps, List.append_assoc, List.append_assoc] at hblock
  obtain ⟨w, hw⟩ := zero_encodeProps vs t
  have hdrop := drop_add_of_drop hblock
  rw [length_encodeProps, hw] at hdrop
  exact ⟨w, hdrop⟩

/-- The status is where `lastAt` says. -/
theorem NodeAt.status_split {v : NodeAt} (h : HasOwn statusName v.props) :
    ∃ us p vs, v.props = us ++ p :: vs ∧ p.name = statusName ∧ ¬ HasOwn statusName vs ∧
      lastAt statusName v.props v.inner = some (v.inner + sizeProps us + 4 * p.nops + 12) ∧
      v.status = some (p, v.inner + sizeProps us + 4 * p.nops + 12) := by
  obtain ⟨us, p, vs, hprops, hp, hvs⟩ := exists_last h
  refine ⟨us, p, vs, hprops, hp, hvs, hprops ▸ lastAt_split hp hvs _, ?_⟩
  rw [NodeAt.status, hprops, lastNamed_split hp hvs, lastAt_split hp hvs]
  rfl

/-- A hart that has a parent has a number. -/
theorem NodeAt.hart_of_hasOwn {v : NodeAt} {parent : ScanNode} (h : HasOwn regName v.props)
    (hparent : v.parent = some parent)
    (m : Memory) (base : Word) (hart : ℤ) :
    v.hart m base = some (lastHart m base v.parent v.props v.inner hart) := by
  obtain ⟨us, p, vs, hprops, hp, hvs⟩ := exists_last h
  rw [NodeAt.hart, lastHart, hparent, Option.bind_some, hprops, lastAt_split hp hvs]
  rfl

theorem hartFilterDone_eq (node : List ScanNode) (hart : ℤ) (status mask : Word) :
    hartFilterDone node ⟨m, ⟨true, hart, some status, mask⟩⟩ =
      if hart < 0 then none
      else some ⟨if mask.getLsbD (hart.toNat % 64) = true ∧ m.strcmp status (ascii "okay") = 0
        then maskStatus status m
        else m, ⟨true, hart, some status, mask⟩⟩ := by
  rw [hartFilterDone]
  simp only [Bool.true_eq_false, if_false, Option.bind_eq_bind, Option.bind_some, shift_and_one]
  split
  · rfl
  · split <;> rfl

/-- **`open`, the properties, and `done`.** -/
theorem hart_head (v : NodeAt) (hps : ∀ p ∈ v.props, p ∈ allProps)
    (hblock : block.drop v.inner = encodeProps v.props ++ 0 :: t)
    (hahead : Ahead strings base block allProps v.inner m)
    (hcomplete : IsCpu v.props → HasOwn regName v.props ∧ HasOwn statusName v.props) (n full : ScanNode)
    {node : List ScanNode} (hnode : v.parent = node.head?) (e : HartFilter)
    (hhart : v.hart m base = v.hart m₀ base) :
    ∃ e' : HartFilter, e'.mask = e.mask ∧
      ((hartCb.call (.opened (n :: node)) ⟨m, e⟩).bind fun s =>
        (hartCb.run (traceProps strings base v.props (n :: node) v.inner) s).bind fun s =>
          hartCb.call (.done (full :: node)) s) =
      if v.Fails m₀ base then none else some ⟨v.hide m₀ base e.mask m, e'⟩ := by
  rw [show hartCb.call (.opened (n :: node)) ⟨m, e⟩ = some ⟨m, ⟨false, -1, none, e.mask⟩⟩ from rfl, Option.bind_some]
  by_cases hnull : HasOwn regName v.props ∧ node = []
  · obtain ⟨hreg, rfl⟩ := hnull
    refine ⟨e, rfl, ?_⟩
    rw [hart_run_props_none v.props hps hblock hahead n hreg, if_pos (.inl ⟨hreg, hnode⟩)]
    rfl
  rw [hart_run_props v.props hps hblock hahead n node (fun hreg hnil => hnull ⟨hreg, hnil⟩), Option.bind_some]
  change ∃ e' : HartFilter, _ ∧ hartFilterDone (full :: node) _ = _
  rw [Bool.false_or, Option.or_none, ← hnode]
  by_cases hcpu : IsCpu v.props
  · obtain ⟨hreg, hstatus⟩ := hcomplete hcpu
    obtain ⟨us, p, vs, hprops, hp, hvs, hat, hsome⟩ := v.status_split hstatus
    obtain ⟨parent, node, rfl⟩ := List.exists_cons_of_ne_nil fun hnil => hnull ⟨hreg, hnil⟩
    have hnumber := hhart ▸ NodeAt.hart_of_hasOwn hreg hnode m base (-1)
    generalize lastHart m base v.parent v.props v.inner (-1) = hart at hnumber
    have hfails : v.Fails m₀ base ↔ hart < 0 := by
      rw [NodeAt.Fails, hnumber, hnode]
      simp [hcpu]
    have hokay : m.strcmp (place base (v.inner + sizeProps us + 4 * p.nops + 12)) (ascii "okay") = 0 ↔
        cstring p.value = ascii "okay" := by
      rw [hprops] at hblock
      obtain ⟨w, hw⟩ := drop_split hblock
      exact (hahead.mono (Nat.le_add_right _ _)).strcmp_value hw (by decide)
    have hmasks : v.Masks m₀ base e.mask ↔
        e.mask.getLsbD (hart.toNat % 64) = true ∧ cstring p.value = ascii "okay" := by
      rw [NodeAt.Masks, hnumber, hsome]
      simp [hcpu]
    rw [hat, Option.map_some, decide_eq_true hcpu, hartFilterDone_eq, NodeAt.hide, hsome]
    refine ⟨⟨true, hart, some (place base (v.inner + sizeProps us + 4 * p.nops + 12)), e.mask⟩, rfl, ?_⟩
    simp only [hfails, hmasks, hokay, Option.elim_some]
  · have hfails : ¬ v.Fails m₀ base := by
      rintro (⟨hreg, hnone⟩ | ⟨hcpu', -⟩)
      · exact hnull ⟨hreg, List.head?_eq_none_iff.mp (hnode ▸ hnone)⟩
      · exact hcpu hcpu'
    have hmasks : ¬ v.Masks m₀ base e.mask := fun h => hcpu h.1
    refine ⟨⟨false, lastHart m base v.parent v.props v.inner (-1),
      (lastAt statusName v.props v.inner).map (place base),
      e.mask⟩, rfl, ?_⟩
    rw [if_neg hfails, NodeAt.hide, if_neg hmasks, hartFilterDone, decide_eq_false hcpu]
    rfl

end Head

end Node

end Fdt

end Sanctum
