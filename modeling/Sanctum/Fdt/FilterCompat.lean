import Sanctum.Fdt.Preorder

/-!
# Devices that are hidden

`filter_compat` overwrites each node whose `compatible` property has a given string, with all that
is in it. Its callbacks count the depth, and `kill` is the depth of the outermost such node around the place
where the scan is, or `999` if there is none. `close` returns `-1` for that node, and `fdt_scan_helper`
then overwrites the words from its `FDT_BEGIN_NODE` to its `FDT_END_NODE`, which the scan has behind it.

## What is proved

* `filterCompat_prunes` — what is left is the tree without these nodes (`Forest.prune`), their words are
  `FDT_NOP`, and no other byte has changed.
-/

namespace Sanctum

namespace Fdt

open Memory

/-! ### The callbacks -/

/-- `struct compat_scan`. -/
structure CompatScan where
  /-- `compat`. -/
  compat : List Byte
  /-- `depth`. -/
  depth : ℤ
  /-- `kill`. -/
  kill : ℤ

/-- `compat_open`. -/
def compatOpen (_ : List ScanNode) (s : ScanState CompatScan) : Option (ScanState CompatScan) :=
  some { s with extra.depth := s.extra.depth + 1 }

/-- `compat_prop`. -/
def compatProp (_ : List ScanNode) (prop : ScanProp) (s : ScanState CompatScan) : Option (ScanState CompatScan) :=
  if s.mem.strcmp prop.name (ascii "compatible") = 0 then do
    let index ← fdtStringListIndex s.mem prop s.extra.compat
    if index ≥ 0 ∧ s.extra.depth < s.extra.kill then return { s with extra.kill := s.extra.depth }
    else return s
  else some s

/-- `compat_close`. -/
def compatClose (_ : List ScanNode) (s : ScanState CompatScan) : Option (ℤ × ScanState CompatScan) :=
  if s.extra.kill = s.extra.depth then
    some (-1, { s with extra := { s.extra with depth := s.extra.depth - 1, kill := 999 } })
  else some (0, { s with extra.depth := s.extra.depth - 1 })

/-- The callbacks of `filter_compat`. `done` is null. -/
def compatCb : FdtCb CompatScan where
  onOpen := compatOpen
  onProp := compatProp
  onDone _ s := some s
  onClose := compatClose

/-- `filter_compat`. -/
def filterCompat (fuel : ℕ) (fdt : Word) (compat : List Byte) (m : Memory) : Option Memory :=
  (fdtScan compatCb fuel fdt ⟨m, ⟨compat, 0, 999⟩⟩).map ScanState.mem

/-! ### Lists of strings -/

/-- The strings of a list, of which each is ended by a null byte. The last one need not be. -/
def stringList : List Byte → List (List Byte)
  | [] => []
  | b :: bs =>
    if b = 0 then [] :: stringList bs
    else match stringList bs with
      | [] => [[b]]
      | s :: ss => (b :: s) :: ss

theorem stringList_string {s : List Byte} (hs : NoNull s) (rest : List Byte) :
    stringList (s ++ 0 :: rest) = s :: stringList rest := by
  induction s with
  | nil => exact if_pos rfl
  | cons b s ih => rw [List.cons_append, stringList, if_neg (hs b List.mem_cons_self), ih hs.tail]

theorem stringList_last {s : List Byte} (hs : NoNull s) (hne : s ≠ []) : stringList s = [s] := by
  induction s with
  | nil => exact absurd rfl hne
  | cons b s ih =>
    rw [stringList, if_neg (hs b List.mem_cons_self)]
    by_cases h : s = []
    · rw [h]
      rfl
    · rw [ih hs.tail h]

section StringList

variable {m : Memory} {c : CString}

/-- **The loop of `fdt_string_list_index`** finds the strings of the list. A null byte comes after the list. -/
theorem stringListLoop_spec {n : ℕ} {list : Word} {value t : List Byte} {index : ℤ}
    (h : m.Holds list (value ++ 0 :: t)) (hn : value.length < n) (hvalue : value.length < 2 ^ 64)
    (hindex : 0 ≤ index) :
    ∃ i, stringListLoop m c.1 n list value.length index = some i ∧ (0 ≤ i ↔ c.1 ∈ stringList value) := by
  induction n generalizing list value index with
  | zero => exact absurd hn (Nat.not_lt_zero _)
  | succ n ih =>
    rw [stringListLoop]
    rcases exists_string value with hs | ⟨s, rest, hs, rfl⟩
    · by_cases hne : value = []
      · rw [hne]
        exact ⟨-1, rfl, by simp [stringList]⟩
      · -- the last string, without a null byte of its own
        have hpos := List.length_pos_iff.mpr hne
        have hold : m.Holds list (value ++ [0]) := by
          rw [← List.singleton_append, ← List.append_assoc, holds_append] at h
          exact h.1
        rw [if_pos (by omega), stringList_last hs hne, List.mem_singleton]
        have hcmp := strcmp_eq_zero_iff_eq hs c.2 hold
        split
        · next heq => exact ⟨index, rfl, iff_of_true hindex (hcmp.mp heq).symm⟩
        · next heq =>
          rw [strlen_eq hs hold hvalue, Option.bind_some]
          obtain ⟨n, rfl⟩ := Nat.exists_eq_add_of_le' (show 1 ≤ n by omega)
          rw [stringListLoop, if_neg (by omega)]
          exact ⟨-1, rfl, iff_of_false (by omega) fun hc => heq (hcmp.mpr hc.symm)⟩
    · rw [List.length_append, List.length_cons] at hn hvalue ⊢
      rw [List.append_assoc, List.cons_append] at h
      have hold : m.Holds list (s ++ [0]) := by
        rw [← List.singleton_append, ← List.append_assoc, holds_append] at h
        exact h.1
      have hrest : m.Holds (list + BitVec.ofNat 64 (s.length + 1)) (rest ++ 0 :: t) := by
        rw [← List.singleton_append, ← List.append_assoc, holds_append] at h
        simpa using h.2
      rw [if_pos (by omega), stringList_string hs, List.mem_cons]
      have hcmp := strcmp_eq_zero_iff_eq hs c.2 hold
      split
      · next heq => exact ⟨index, rfl, iff_of_true hindex (.inl (hcmp.mp heq).symm)⟩
      · next heq =>
        rw [strlen_eq hs hold (by omega), Option.bind_some]
        have hleft : ((s.length + (rest.length + 1) : ℕ) : ℤ) - ((s.length : ℕ) + 1) = (rest.length : ℕ) := by omega
        rw [hleft]
        obtain ⟨i, hi, hiff⟩ := ih hrest (by omega) (by omega) (show 0 ≤ index + 1 by omega)
        exact ⟨i, hi, hiff.trans (or_iff_right fun hc => heq (hcmp.mpr hc.symm)).symm⟩

end StringList

/-! ### What is left -/

/-- The string is in the node's list. -/
def Matches (c : CString) (props : List Property) : Prop :=
  ∃ p ∈ props, p.name = compatibleName ∧ c.1 ∈ stringList p.value

instance (c : CString) (props : List Property) : Decidable (Matches c props) :=
  inferInstanceAs (Decidable (∃ p ∈ props, p.name = compatibleName ∧ c.1 ∈ stringList p.value))

/-- `FDT_NOP` words before the first token. -/
def Forest.addNops (n : ℕ) : Forest → Forest
  | nil nops => nil (n + nops)
  | cons nops name props children rest => cons (n + nops) name props children rest

/-- How many words a node has, from its `FDT_BEGIN_NODE` to its `FDT_END_NODE`. -/
def nodeWords (name : CString) (props : List Property) (children : Forest) : ℕ :=
  (4 + nameSize name + sizeProps props + children.size + 4) / 4

/-- **The tree without the nodes that have the string in their list**, and all that is in them. -/
def Forest.prune (c : CString) : Forest → Forest
  | nil nops => nil nops
  | cons nops name props children rest =>
    if Matches c props then (rest.prune c).addNops (nops + nodeWords name props children)
    else cons nops name props (children.prune c) (rest.prune c)

/-- Where the nodes are that are taken out, and how many words each of them has. The first node begins at
byte `x`. -/
def Forest.removed (c : CString) : Forest → ℕ → List (ℕ × ℕ)
  | nil _, _ => []
  | cons nops name props children rest, x =>
    let start := x + 4 * nops
    let inner := start + 4 + nameSize name + sizeProps props
    (if Matches c props then [(start, nodeWords name props children)] else children.removed c inner) ++
      rest.removed c (inner + children.size + 4)

/-- How deep the nodes are. -/
def Forest.height : Forest → ℕ
  | nil _ => 0
  | cons _ _ _ children rest => max (children.height + 1) rest.height

/-- **Exactly the nodes that have the string in their list are taken out**, with all that is in them. -/
structure Prunes (m m' : Memory) (fdt : Word) (f : Forest) (c : CString) : Prop where
  /-- What is left is a blob. -/
  blob : Blob m' fdt (f.prune c)
  /-- A scan sees its nodes. -/
  sees : Sees m' fdt (f.prune c)
  /-- What is taken out is `FDT_NOP` words. -/
  nops : ∀ r ∈ f.removed c 0, ∀ i < r.2, cell m' (place (structBlock m fdt) (r.1 + 4 * i)) = fdtNop
  /-- Nothing else is changed. -/
  frame : ∀ b, (∀ r ∈ f.removed c 0, ¬ Within (place (structBlock m fdt) r.1) (4 * r.2) b) → m' b = m b

/-- The words are overwritten. -/
def eraseAll (base : Word) (rs : List (ℕ × ℕ)) (m : Memory) : Memory :=
  rs.foldl (fun m r => writeNops r.2 (place base r.1) m) m

/-! ### The size of what is left -/

theorem sizeProps_dvd (props : List Property) : 4 ∣ sizeProps props := by
  induction props with
  | nil => exact Nat.dvd_zero 4
  | cons p ps ih => exact Nat.dvd_add (Nat.dvd_mul_right 4 _) ih

theorem Forest.size_dvd (f : Forest) : 4 ∣ f.size := by
  induction f with
  | nil nops => exact Nat.dvd_mul_right 4 nops
  | cons nops name props children rest ihc ihr =>
    have hprops := sizeProps_dvd props
    rw [size, nameSize]
    omega

theorem nodeWords_eq (name : CString) (props : List Property) (children : Forest) :
    4 * nodeWords name props children = 4 + nameSize name + sizeProps props + children.size + 4 := by
  have hprops := sizeProps_dvd props
  have hchildren := children.size_dvd
  rw [nodeWords, nameSize]
  omega

theorem Forest.size_addNops (n : ℕ) (f : Forest) : (f.addNops n).size = 4 * n + f.size := by
  cases f with
  | nil nops =>
    simp only [addNops, size]
    omega
  | cons nops name props children rest =>
    simp only [addNops, size]
    omega

theorem Forest.size_prune (c : CString) (f : Forest) : (f.prune c).size = f.size := by
  induction f with
  | nil nops => rfl
  | cons nops name props children rest ihc ihr =>
    have hwords := nodeWords_eq name props children
    rw [prune]
    split
    · rw [size_addNops, ihr, size]
      omega
    · rw [size, size, ihc, ihr]

theorem Forest.encode_addNops (n : ℕ) (f : Forest) : (f.addNops n).encode = nopBytes n ++ f.encode := by
  have hnops (nops : ℕ) : nopBytes (n + nops) = nopBytes n ++ nopBytes nops := by
    rw [nopBytes, List.replicate_add, List.flatten_append]
    rfl
  cases f with
  | nil nops => exact hnops nops
  | cons nops name props children rest => rw [addNops, encode, encode, hnops, List.append_assoc]

theorem Forest.allProps_addNops (n : ℕ) (f : Forest) : (f.addNops n).allProps = f.allProps := by
  cases f <;> rfl

theorem Forest.allProps_prune (c : CString) (f : Forest) : ∀ p ∈ (f.prune c).allProps, p ∈ f.allProps := by
  induction f with
  | nil nops => exact fun p hp => hp
  | cons nops name props children rest ihc ihr =>
    intro p hp
    rw [prune] at hp
    split at hp
    · rw [allProps_addNops] at hp
      exact List.mem_append_right _ (List.mem_append_right _ (ihr p hp))
    · rw [allProps, List.mem_append, List.mem_append] at hp ⊢
      exact hp.imp_right fun hp => hp.imp (ihc p) (ihr p)

/-! ### Overwriting -/

section Erase

variable {base : Word} {m : Memory} {b : Word} {rs : List (ℕ × ℕ)}

theorem eraseAll_append (rs rs' : List (ℕ × ℕ)) :
    eraseAll base (rs ++ rs') m = eraseAll base rs' (eraseAll base rs m) :=
  List.foldl_append

theorem eraseAll_of_not_within
    (h : ∀ r ∈ rs, ¬ Within (place base r.1) (4 * r.2) b) (hrs : ∀ r ∈ rs, 4 * r.2 ≤ 2 ^ 64) :
    eraseAll base rs m b = m b := by
  induction rs generalizing m with
  | nil => rfl
  | cons r rs ih =>
    refine (ih (fun r' hr => h r' (List.mem_cons_of_mem _ hr)) fun r' hr =>
      hrs r' (List.mem_cons_of_mem _ hr)).trans ?_
    exact writeNops_of_not_within (h r List.mem_cons_self) (hrs r List.mem_cons_self)

/-- The words that are taken out are between these bytes. -/
theorem Forest.removed_bounds (c : CString) (f : Forest) (x : ℕ) :
    ∀ r ∈ f.removed c x, x ≤ r.1 ∧ r.1 + 4 * r.2 ≤ x + f.size := by
  induction f generalizing x with
  | nil nops => exact fun r hr => nomatch hr
  | cons nops name props children rest ihc ihr =>
    intro r hr
    have hwords := nodeWords_eq name props children
    rw [size]
    rcases List.mem_append.mp hr with hr | hr
    · split at hr
      · rw [List.mem_singleton.mp hr]
        constructor
        · exact Nat.le_add_right _ _
        · change x + 4 * nops + 4 * nodeWords name props children ≤ _
          omega
      · have hbounds := ihc _ r hr
        omega
    · have hbounds := ihr _ r hr
      omega

/-- What is not between them is left alone. -/
theorem eraseAll_of_ne {c : CString} {f : Forest} {x : ℕ} (hsize : x + f.size ≤ 2 ^ 64)
    (h : ∀ i, x ≤ i → i < x + f.size → b ≠ place base i) : eraseAll base (f.removed c x) m b = m b := by
  refine eraseAll_of_not_within (fun r hr hw => ?_) fun r hr => ?_
  · obtain ⟨hle, hbound⟩ := f.removed_bounds c x r hr
    obtain ⟨k, hk, rfl⟩ := exists_of_within hw
    exact h (r.1 + k) (by omega) (by omega) (place_add r.1 k)
  · have hbounds := f.removed_bounds c x r hr
    omega

theorem holds_eraseAll {c : CString} {f : Forest} {x y : ℕ} {bs : List Byte} (h : m.Holds (place base y) bs)
    (hapart : y + bs.length ≤ x ∨ x + f.size ≤ y) (hx : x + f.size ≤ 2 ^ 64) (hy : y + bs.length ≤ 2 ^ 64) :
    (eraseAll base (f.removed c x) m).Holds (place base y) bs := by
  refine h.congr (by omega) fun b hb => eraseAll_of_ne hx fun i hi hlt heq => ?_
  obtain ⟨k, hk, rfl⟩ := exists_of_within hb
  rw [place_add] at heq
  have hik := place_inj (by omega) (by omega) heq
  omega

/-- Bytes before the words, or after them. -/
theorem holds_writeNops_of_ne {n start y : ℕ} {bs : List Byte} (h : m.Holds (place base y) bs)
    (hapart : y + bs.length ≤ start ∨ start + 4 * n ≤ y) (hn : start + 4 * n ≤ 2 ^ 64)
    (hy : y + bs.length ≤ 2 ^ 64) :
    (writeNops n (place base start) m).Holds (place base y) bs := by
  refine h.congr (by omega) fun b hb => writeNops_of_not_within (fun hw => ?_) (by omega)
  obtain ⟨k, hk, rfl⟩ := exists_of_within hb
  obtain ⟨j, hj, heq⟩ := exists_of_within hw
  rw [place_add, place_add] at heq
  have hkj := place_inj (by omega) (by omega) heq
  omega

theorem holds_writeNops {n : ℕ} {lex : Word} (hn : 4 * n ≤ 2 ^ 64) : (writeNops n lex m).Holds lex (nopBytes n) := by
  induction n generalizing lex m with
  | zero => trivial
  | succ n ih =>
    have hnops : nopBytes (n + 1) = be32 fdtNop ++ nopBytes n := by
      rw [nopBytes, List.replicate_succ, List.flatten_cons]
      rfl
    rw [hnops, holds_append, length_be32, writeNops]
    have hfirst : (m.store32 lex (bswap fdtNop)).Holds (place lex 0) (be32 fdtNop) := by
      rw [place_zero]
      exact holds_store32_bswap m lex fdtNop
    have hkept : (writeNops n (place lex 4) (m.store32 lex (bswap fdtNop))).Holds (place lex 0) (be32 fdtNop) :=
      holds_writeNops_of_ne hfirst (.inl le_rfl) (by omega) (by rw [length_be32]; omega)
    rw [place_zero] at hkept
    exact ⟨hkept, ih (by omega)⟩

/-- **What is left** is the tree without the nodes that are taken out. -/
theorem holds_prune (c : CString) (f : Forest) {x : ℕ}
    (h : m.Holds (place base x) f.encode) (hx : x + f.size ≤ 2 ^ 64) :
    (eraseAll base (f.removed c x) m).Holds (place base x) (f.prune c).encode := by
  induction f generalizing x m with
  | nil nops => exact h
  | cons nops name props children rest ihc ihr =>
    have hwords := nodeWords_eq name props children
    rw [Forest.size] at hx
    simp only [Forest.encode, holds_append, place_add, length_nopBytes, length_be32, length_padded_name,
      length_encodeProps, Forest.length_encode] at h
    obtain ⟨hnops, hbegin, hname, hprops, hchildren, hend, hrest⟩ := h
    rw [Forest.removed, Forest.prune, eraseAll_append]
    split
    · have hafter : (writeNops (nodeWords name props children) (place base (x + 4 * nops)) m).Holds
          (place base (x + 4 * nops + 4 + nameSize name + sizeProps props + children.size + 4)) rest.encode := by
        refine holds_writeNops_of_ne hrest (.inr (by omega)) (by omega) ?_
        rw [rest.length_encode]
        omega
      have hkept : (writeNops (nodeWords name props children) (place base (x + 4 * nops)) m).Holds (place base x)
          (nopBytes nops) := by
        refine holds_writeNops_of_ne hnops (.inl ?_) (by omega) ?_
        · rw [length_nopBytes]
        · rw [length_nopBytes]
          omega
      have hnode : (writeNops (nodeWords name props children) (place base (x + 4 * nops)) m).Holds
          (place base (x + 4 * nops)) (nopBytes (nodeWords name props children)) := holds_writeNops (by omega)
      have hsum : nopBytes (nops + nodeWords name props children) =
          nopBytes nops ++ nopBytes (nodeWords name props children) := by
        rw [nopBytes, List.replicate_add, List.flatten_append]
        rfl
      rw [Forest.encode_addNops, hsum, List.append_assoc, holds_append, holds_append, length_nopBytes,
        length_nopBytes,
        place_add, place_add]
      refine ⟨holds_eraseAll hkept (.inl ?_) (by omega) ?_, holds_eraseAll hnode (.inl ?_) (by omega) ?_, ?_⟩
      all_goals try rw [length_nopBytes]; omega
      rw [show x + 4 * nops + 4 * nodeWords name props children =
        x + 4 * nops + 4 + nameSize name + sizeProps props + children.size + 4 by omega]
      exact ihr hafter (by omega)
    · simp only [Forest.encode, holds_append, place_add, length_nopBytes, length_be32, length_padded_name,
        length_encodeProps, Forest.length_encode, Forest.size_prune]
      -- bytes before the children, or after them
      have hkeep {y : ℕ} {bs : List Byte} (hold : m.Holds (place base y) bs)
          (hin : y + bs.length ≤ x + 4 * nops + 4 + nameSize name + sizeProps props ∨
            x + 4 * nops + 4 + nameSize name + sizeProps props + children.size ≤ y)
          (hout : y + bs.length ≤ x + 4 * nops + 4 + nameSize name + sizeProps props + children.size + 4) :
          (eraseAll base (rest.removed c (x + 4 * nops + 4 + nameSize name + sizeProps props + children.size + 4))
            (eraseAll base (children.removed c (x + 4 * nops + 4 + nameSize name + sizeProps props)) m)).Holds
              (place base y) bs :=
        holds_eraseAll (holds_eraseAll hold hin (by omega) (by omega)) (.inl hout) (by omega) (by omega)
      refine ⟨hkeep hnops ?_ ?_, hkeep hbegin ?_ ?_, hkeep hname ?_ ?_, hkeep hprops ?_ ?_, ?_, hkeep hend ?_ ?_, ?_⟩
      all_goals try simp only [length_nopBytes, length_be32, length_padded_name, length_encodeProps]; omega
      · refine holds_eraseAll (ihc hchildren (by omega)) (.inl ?_) (by omega) ?_
        all_goals rw [Forest.length_encode, Forest.size_prune]; omega
      · refine ihr (holds_eraseAll hrest (.inr (by omega)) (by omega) ?_) (by omega)
        rw [Forest.length_encode]
        omega

/-- What is taken out is overwritten. -/
theorem holds_removed (c : CString) (f : Forest) {x : ℕ} (hx : x + f.size ≤ 2 ^ 64) :
    ∀ r ∈ f.removed c x, (eraseAll base (f.removed c x) m).Holds (place base r.1) (nopBytes r.2) := by
  induction f generalizing x m with
  | nil nops => exact fun r hr => nomatch hr
  | cons nops name props children rest ihc ihr =>
    intro r hr
    have hwords := nodeWords_eq name props children
    rw [Forest.size] at hx
    have hrest := ihr (m := eraseAll base (if Matches c props then [(x + 4 * nops, nodeWords name props children)]
      else children.removed c (x + 4 * nops + 4 + nameSize name + sizeProps props)) m)
      (x := x + 4 * nops + 4 + nameSize name + sizeProps props + children.size + 4) (by omega)
    rw [Forest.removed, eraseAll_append]
    rcases List.mem_append.mp hr with hr | hr
    · split at hr
      · next hmatch =>
        rw [List.mem_singleton.mp hr, if_pos hmatch]
        have hnode : (eraseAll base [(x + 4 * nops, nodeWords name props children)] m).Holds
          (place base (x + 4 * nops))
          (nopBytes (nodeWords name props children)) := holds_writeNops (by omega)
        exact holds_eraseAll hnode
          (.inl (by rw [length_nopBytes]; omega)) (by omega) (by rw [length_nopBytes]; omega)
      · next hmatch =>
        have hbounds := children.removed_bounds c _ r hr
        rw [if_neg hmatch]
        refine holds_eraseAll (ihc (by omega) r hr) (.inl ?_) (by omega) ?_
        all_goals rw [length_nopBytes]; omega
    · exact hrest r hr

end Erase

/-! ### What the callbacks do -/

section Calls

variable {strings base : Word} {block : List Byte} {allProps : List Property} {m : Memory} {c : CString}

theorem zero_nopBytes (n : ℕ) (t : List Byte) : ∃ w, nopBytes n ++ 0 :: t = 0 :: w := by
  cases n with
  | zero => exact ⟨t, rfl⟩
  | succ n =>
    rw [nopBytes, List.replicate_succ, List.flatten_cons, List.append_assoc]
    exact ⟨_, rfl⟩

/-- Every token begins with a null byte. -/
theorem zero_encodeProps (ps : List Property) (t : List Byte) : ∃ w, encodeProps ps ++ 0 :: t = 0 :: w := by
  cases ps with
  | nil => exact ⟨t, rfl⟩
  | cons p ps =>
    obtain ⟨w, hw⟩ := zero_nopBytes p.nops
      ([0, 0, 3] ++ (be32 p.len ++ (be32 p.nameOff ++ padded p.value)) ++ (encodeProps ps ++ 0 :: t))
    refine ⟨w, Eq.trans ?_ hw⟩
    rw [encodeProps, Property.encode, List.append_assoc, List.append_assoc]
    rfl

theorem zero_encode (f : Forest) (t : List Byte) : ∃ w, f.encode ++ 0 :: t = 0 :: w := by
  cases f with
  | nil nops => exact zero_nopBytes nops t
  | cons nops name props children rest =>
    rw [Forest.encode, List.append_assoc]
    exact zero_nopBytes nops _

/-- The list of strings of a property ahead. -/
theorem Ahead.stringListIndex {p : Property} {x : ℕ} {t : List Byte} (h : Ahead strings base block allProps x m)
    (hblock : block.drop x = p.encode ++ 0 :: t) :
    ∃ i, fdtStringListIndex m (p.record strings base x) c.1 = some i ∧ (0 ≤ i ↔ c.1 ∈ stringList p.value) := by
  have hlt := p.length_lt
  have hlist : ∃ w, padded p.value ++ 0 :: t = p.value ++ 0 :: w := by
    rw [padded, List.append_assoc]
    cases padding p.value.length with
    | zero => exact ⟨t, rfl⟩
    | succ n => exact ⟨_, rfl⟩
  obtain ⟨w, hw⟩ := hlist
  have hvalue := h.value hblock
  rw [hw] at hvalue
  have hspec := stringListLoop_spec (c := c) (n := p.value.length + 1) hvalue (by omega) (by omega) (le_refl 0)
  rw [fdtStringListIndex,
    show (p.record strings base x).len.toInt = p.value.length from p.toInt_len, Int.toNat_natCast]
  exact hspec

/-- **Properties.** -/
theorem compat_run_props (ps : List Property) (hps : ∀ p ∈ ps, p ∈ allProps) {x : ℕ} {t : List Byte}
    (hblock : block.drop x = encodeProps ps ++ 0 :: t) (hahead : Ahead strings base block allProps x m)
    (node : List ScanNode) (depth kill : ℤ) :
    compatCb.run (traceProps strings base ps node x) ⟨m, ⟨c.1, depth, kill⟩⟩ =
      some ⟨m, ⟨c.1, depth, if Matches c ps ∧ depth < kill then depth else kill⟩⟩ := by
  induction ps generalizing x node kill with
  | nil =>
    have hnone : ¬ Matches c [] := by rintro ⟨p, hp, -⟩; cases hp
    rw [if_neg fun h => hnone h.1]
    rfl
  | cons p ps ih =>
    rw [encodeProps, List.append_assoc] at hblock
    obtain ⟨w, hw⟩ := zero_encodeProps ps t
    have hrest := drop_add_of_drop hblock
    rw [Property.length_encode] at hrest
    rw [hw] at hblock
    have hname : m.strcmp (p.record strings base x).name (ascii "compatible") = 0 ↔ p.name = compatibleName :=
      hahead.strcmp_name (hps p List.mem_cons_self) x compatibleName
    obtain ⟨i, hi, hiff⟩ := hahead.stringListIndex (c := c) hblock
    have hcall :
        compatCb.call (.prop (node.modifyHead p.setCells) (p.record strings base x)) ⟨m, ⟨c.1, depth, kill⟩⟩ =
          some ⟨m, ⟨c.1, depth,
            if (p.name = compatibleName ∧ c.1 ∈ stringList p.value) ∧ depth < kill then depth else kill⟩⟩ := by
      change compatProp (node.modifyHead p.setCells) (p.record strings base x) ⟨m, ⟨c.1, depth, kill⟩⟩ = _
      rw [compatProp]
      dsimp only
      by_cases h : p.name = compatibleName
      · rw [if_pos (hname.mpr h), hi]
        simp only [Option.bind_eq_bind, Option.bind_some, ge_iff_le, hiff, h, true_and]
        split <;> rfl
      · rw [if_neg (fun heq => h (hname.mp heq)), if_neg fun heq => h heq.1.1]
    rw [traceProps, FdtCb.run, hcall, Option.bind_some,
      ih (fun q hq => hps q (List.mem_cons_of_mem _ hq)) hrest (hahead.mono (Nat.le_add_right _ _))]
    have hmatches : Matches c (p :: ps) ↔ (p.name = compatibleName ∧ c.1 ∈ stringList p.value) ∨ Matches c ps :=
      List.exists_mem_cons_iff _ _ _
    have hkill : (if Matches c ps ∧ depth < (if (p.name = compatibleName ∧ c.1 ∈ stringList p.value) ∧ depth < kill
        then depth else kill) then depth
          else if (p.name = compatibleName ∧ c.1 ∈ stringList p.value) ∧ depth < kill then depth else kill) =
        if Matches c (p :: ps) ∧ depth < kill then depth else kill := by
      simp only [hmatches]
      grind
    rw [hkill]

theorem compat_close_eq (node : List ScanNode) (lex lexNext : Word) (depth kill : ℤ) :
    compatCb.call (.close node lex lexNext) ⟨m, ⟨c.1, depth + 1, kill⟩⟩ =
      if kill = depth + 1 then some ⟨writeNops ((lexNext - lex).toNat / 4) lex m, ⟨c.1, depth, 999⟩⟩
      else some ⟨m, ⟨c.1, depth, kill⟩⟩ := by
  have hdepth : depth + 1 - 1 = depth := by omega
  change (compatClose node ⟨m, ⟨c.1, depth + 1, kill⟩⟩).map _ = _
  rw [compatClose]
  dsimp only
  split
  · rw [hdepth]
    rfl
  · rw [hdepth]
    rfl

/-- **Inside of a node that is taken out** nothing is done. -/
theorem compat_run_doomed (f : Forest) (hprops : ∀ p ∈ f.allProps, p ∈ allProps) {x : ℕ} {t : List Byte}
    (hblock : block.drop x = f.encode ++ 0 :: t) (hahead : Ahead strings base block allProps x m)
    (node : List ScanNode)
    (child : ScanNode) {depth kill : ℤ} (hkill : kill ≤ depth) :
    compatCb.run (f.trace strings base node child x) ⟨m, ⟨c.1, depth, kill⟩⟩ = some ⟨m, ⟨c.1, depth, kill⟩⟩ := by
  induction f generalizing x t node child depth with
  | nil nops => rfl
  | cons nops name ps children rest ihc ihr =>
    simp only [Forest.allProps, List.mem_append] at hprops
    simp only [Forest.encode, List.append_assoc] at hblock
    obtain ⟨-, -, hps, hchildren, hend, hrest⟩ := drop_parts hblock
    obtain ⟨w, hw⟩ := zero_encode children ([0, 0, 2] ++ (rest.encode ++ 0 :: t))
    rw [show be32 fdtEndNode = 0 :: [0, 0, 2] from rfl, List.cons_append] at hps hchildren
    rw [hw] at hps
    rw [FdtCb.run_node,
      show compatCb.call (.opened _) _ = some ⟨m, ⟨c.1, depth + 1, kill⟩⟩ from rfl,
      Option.bind_some,
      compat_run_props ps (fun p hp => hprops p (.inl hp)) hps (hahead.mono (by omega)), Option.bind_some,
      if_neg (by omega), show compatCb.call (.done _) _ = some ⟨m, ⟨c.1, depth + 1, kill⟩⟩ from rfl,
      Option.bind_some,
      FdtCb.run_append, ihc (fun p hp => hprops p (.inr (.inl hp))) hchildren
        (hahead.mono (by omega)) _ _ (by omega), Option.bind_some,
      FdtCb.run, compat_close_eq, if_neg (by omega), Option.bind_some]
    exact ihr (fun p hp => hprops p (.inr (.inr hp))) hrest (hahead.mono (by omega)) _ _ hkill

end Calls

/-! ### The scan of a blob -/

section Blob

variable {m₀ : Memory} {fdt : Word} {f₀ : Forest} {c : CString}

/-- **The nodes that are not in one that is taken out.** -/
theorem Blob.compat_run (h : Blob m₀ fdt f₀) (f : Forest) (hprops : ∀ p ∈ f.allProps, p ∈ f₀.allProps) {x : ℕ}
    {t : List Byte} (hblock : f₀.block.drop x = f.encode ++ 0 :: t) {m : Memory}
    (hahead : Ahead (stringsBlock m₀ fdt) (structBlock m₀ fdt) f₀.block f₀.allProps x m) (node : List ScanNode)
    (child : ScanNode) {depth : ℤ} (hheight : depth + f.height < 999) :
    compatCb.run (f.trace (stringsBlock m₀ fdt) (structBlock m₀ fdt) node child x) ⟨m, ⟨c.1, depth, 999⟩⟩ =
      some ⟨eraseAll (structBlock m₀ fdt) (f.removed c x) m, ⟨c.1, depth, 999⟩⟩ := by
  induction f generalizing x t m node child depth with
  | nil nops => rfl
  | cons nops name ps children rest ihc ihr =>
    have hlt := h.length_lt
    have hlength := congrArg List.length hblock
    have hwords := nodeWords_eq name ps children
    rw [List.length_drop, List.length_append, Forest.length_encode, List.length_cons, Forest.size] at hlength
    rw [Forest.height] at hheight
    simp only [Forest.allProps, List.mem_append] at hprops
    simp only [Forest.encode, List.append_assoc] at hblock
    obtain ⟨-, -, hps, hchildren, hend, hrest⟩ := drop_parts hblock
    obtain ⟨w, hw⟩ := zero_encode children ([0, 0, 2] ++ (rest.encode ++ 0 :: t))
    rw [show be32 fdtEndNode = 0 :: [0, 0, 2] from rfl, List.cons_append] at hps hchildren
    rw [hw] at hps
    have hafter {m' : Memory} (hm' : ∀ b, (∀ i < x + 4 * nops + 4 + nameSize name + sizeProps ps + children.size + 4,
        b ≠ place (structBlock m₀ fdt) i) → m' b = m b) :=
      h.ahead_of_ne
        (show x ≤ x + 4 * nops + 4 + nameSize name + sizeProps ps + children.size + 4 by omega) (by omega)
        hahead hm'
    rw [FdtCb.run_node, Forest.removed, eraseAll_append,
      show compatCb.call (.opened _) _ = some ⟨m, ⟨c.1, depth + 1, 999⟩⟩ from rfl,
      Option.bind_some,
      compat_run_props ps (fun p hp => hprops p (.inl hp)) hps (hahead.mono (by omega)), Option.bind_some]
    by_cases hmatch : Matches c ps
    · -- the node is taken out
      have hnode :
          (place (structBlock m₀ fdt) (x + 4 * nops + 4 + nameSize name + sizeProps ps + children.size + 4) -
          place (structBlock m₀ fdt) (x + 4 * nops)).toNat / 4 = nodeWords name ps children := by
        rw [show x + 4 * nops + 4 + nameSize name + sizeProps ps + children.size + 4 =
          x + 4 * nops + 4 * nodeWords name ps children by omega, ← place_add, Memory.toNat_add_sub (by omega)]
        omega
      have herased : eraseAll (structBlock m₀ fdt) [(x + 4 * nops, nodeWords name ps children)] m =
          writeNops (nodeWords name ps children) (place (structBlock m₀ fdt) (x + 4 * nops)) m := rfl
      rw [if_pos ⟨hmatch, by omega⟩, if_pos hmatch, herased,
        show compatCb.call (.done _) _ = some ⟨m, ⟨c.1, depth + 1, depth + 1⟩⟩ from rfl,
      Option.bind_some,
        FdtCb.run_append, compat_run_doomed children (fun p hp => hprops p (.inr (.inl hp))) hchildren
          (hahead.mono (by omega)) _ _ le_rfl,
        Option.bind_some, FdtCb.run, compat_close_eq, if_pos rfl, Option.bind_some, hnode]
      refine ihr (fun p hp => hprops p (.inr (.inr hp))) hrest (hafter fun b hb => ?_) _ _ (by omega)
      refine writeNops_of_not_within (fun hw => ?_) (by omega)
      obtain ⟨k, hk, rfl⟩ := exists_of_within hw
      exact hb _ (by omega) (place_add _ k)
    · rw [if_neg fun hkill => hmatch hkill.1, if_neg hmatch,
        show compatCb.call (.done _) _ = some ⟨m, ⟨c.1, depth + 1, 999⟩⟩ from rfl,
      Option.bind_some,
        FdtCb.run_append, ihc (fun p hp => hprops p (.inr (.inl hp))) hchildren
          (hahead.mono (by omega)) _ _ (by omega),
        Option.bind_some, FdtCb.run, compat_close_eq, if_neg (by omega), Option.bind_some]
      refine ihr (fun p hp => hprops p (.inr (.inr hp))) hrest (hafter fun b hb => ?_) _ _ (by omega)
      exact eraseAll_of_ne (by omega) fun i _ hi => hb i (by omega)

theorem compat_leaves (kept : Word → Prop) : compatCb.Leaves kept := by
  constructor
  · rintro node s s' hs b -
    rw [← Option.some.inj hs]
  · rintro node prop s s' hs b -
    change compatProp node prop s = some s' at hs
    rw [compatProp] at hs
    split at hs
    · obtain ⟨i, -, hs⟩ := Option.bind_eq_some_iff.mp hs
      split at hs
      all_goals rw [← Option.some.inj hs]
    · rw [← Option.some.inj hs]
  · rintro node s s' hs b -
    rw [← Option.some.inj hs]
  · rintro node s r hs b -
    change compatClose node s = some r at hs
    rw [compatClose] at hs
    split at hs
    all_goals rw [← Option.some.inj hs]

/-- **`filter_compat`** takes out exactly the nodes that have the string in their list. -/
theorem filterCompat_prunes {m : Memory} {f : Forest} (h : Blob m fdt f) (hheight : f.height < 999) (c : CString)
    {k : ℕ}
    (hk : f.need ≤ k) : ∃ m', filterCompat k fdt c.1 m = some m' ∧ Prunes m m' fdt f c := by
  have hlt := h.length_lt
  have hsize := f.length_block
  have hblock : f.block.drop 0 = f.encode ++ 0 :: [0, 0, 9] := List.drop_zero
  have hrun : compatCb.run (f.trace (stringsBlock m fdt) (structBlock m fdt) [] .fresh 0) ⟨m, ⟨c.1, 0, 999⟩⟩ = _ :=
    h.compat_run f (fun p hp => hp) hblock h.ahead [] .fresh (by omega)
  have hscan := h.scan_eq (h.safe_of_leaves (e := ⟨c.1, 0, 999⟩) (compat_leaves _)) hk
  rw [Blob.trace, hrun] at hscan
  have hblob : Blob (eraseAll (structBlock m fdt) (f.removed c 0) m) fdt (f.prune c) := by
    have hstruct := h.struct
    rw [Forest.block, holds_append, f.length_encode, ← place_zero (structBlock m fdt), place_add,
      Nat.zero_add] at hstruct
    refine h.replace (f.size_prune c) (fun p hp => ⟨p, f.allProps_prune c p hp, rfl, rfl⟩) ?_ fun b hb => ?_
    · have hprune := holds_prune c f hstruct.1 (by omega)
      have hend := holds_eraseAll (c := c) (f := f) (x := 0) hstruct.2 (.inr (by omega)) (by omega)
        (by rw [length_be32]; omega)
      rw [place_zero] at hprune
      rw [Forest.block, holds_append, Forest.length_encode, f.size_prune]
      exact ⟨hprune, hend⟩
    · exact eraseAll_of_ne (by omega) fun i _ hi heq => hb (heq ▸ within_add (by omega) (by omega))
  refine ⟨eraseAll (structBlock m fdt) (f.removed c 0) m, by rw [filterCompat, hscan]; rfl, hblob, hblob.sees,
    fun r hr i hi => ?_, fun b hb => eraseAll_of_not_within hb fun r hr => ?_⟩
  · have hnops : Holds (eraseAll (structBlock m fdt) (f.removed c 0) m) (place (structBlock m fdt) r.1)
      (nopBytes r.2) :=
      holds_removed c f (by omega) r hr
    rw [nopBytes, ← List.map_replicate] at hnops
    rw [← place_add]
    exact (cell_of_holds hnops (by rwa [List.length_replicate])).trans (List.getElem_replicate _)
  · have hbounds := f.removed_bounds c 0 r hr
    omega

theorem filterCompat_prunes_clint :
    ∃ m', filterCompat clintTree.need 0x82200000 (ascii "riscv,clint0") clintMemory = some m' ∧
      Prunes clintMemory m' 0x82200000 clintTree ⟨ascii "riscv,clint0", by decide⟩ :=
  filterCompat_prunes blob_clint (by decide) ⟨ascii "riscv,clint0", by decide⟩ le_rfl

end Blob

end Fdt

end Sanctum
