import Sanctum.Fdt.FilterHarts

/-!
# The harts of a mask

What `filter_harts` does to a whole tree. As long as it hides only what it should, each status that it hides
has the same words before and after, and the scan goes on as if nothing had happened. If it hides
something else, then the first byte of that status is no longer that of `okay`; nothing that it
writes later is this byte, so in the end the status cannot be what it was, wherever the scan may have gone.

## What is proved

* `filtersHarts_iff` — the harts of the mask are hidden, and nothing else happens to the tree, exactly if all
  harts are what they seem.
* `not_filtersHarts` — hart 64 is hidden for hart 0.
-/

namespace Sanctum

namespace Fdt

open Memory

/-! ### What is behind -/

section Behind

variable {m m' m₀ : Memory} {base mask : Word} {x y : ℕ}

/-- Memory has been changed only before byte `x`. -/
def Behind (m₀ : Memory) (base : Word) (x : ℕ) (m : Memory) : Prop := ∀ b, (∀ i < x, b ≠ place base i) → m b = m₀ b

theorem Behind.mono (h : Behind m₀ base x m) (hy : x ≤ y) : Behind m₀ base y m :=
  fun b hb => h b fun i hi => hb i (hi.trans_le hy)

theorem Blob.ahead_of_behind {fdt : Word} {f : Forest} (h : Blob m₀ fdt f) (hy : y ≤ f.block.length)
    (hm : Behind m₀ (structBlock m₀ fdt) y m) :
    Ahead (stringsBlock m₀ fdt) (structBlock m₀ fdt) f.block f.allProps y m :=
  h.ahead_of_ne (Nat.zero_le y) hy h.ahead hm

/-- The cells of a number are read from their bytes. -/
theorem getCells_congr {n : ℕ} (hn : 4 * n ≤ 2 ^ 64) {value result : Word}
    (hm : ∀ b, Within value (4 * n) b → m' b = m b) : getCells m' n value result = getCells m n value result := by
  induction n generalizing value result with
  | zero => rfl
  | succ n ih =>
    have hcell : cell m' value = cell m value := by
      have hold : m.Holds value (be32 (cell m value)) := cell_eq_iff.mp rfl
      refine cell_eq_iff.mpr (hold.congr (by rw [length_be32]; omega) fun b hb => hm b (hb.mono ?_))
      rw [length_be32]
      omega
    rw [getCells, getCells, hcell]
    exact ih (by omega) fun b hb => hm b (Within.of_add (i := 4) hb (by omega) hn)

theorem lastAt_bounds {name : CString} {ps : List Property} (h : lastAt name ps x = some y) :
    x + 12 ≤ y ∧ y ≤ x + sizeProps ps := by
  by_cases hown : HasOwn name ps
  · obtain ⟨us, p, vs, rfl, hp, hvs⟩ := exists_last hown
    rw [lastAt_split hp hvs] at h
    have hy := Option.some.inj h
    rw [sizeProps_append, sizeProps, Property.size]
    omega
  · rw [lastAt_of_not hown] at h
    cases h

theorem toNat_toInt_lt (cells : BitVec 32) : cells.toInt.toNat < 2 ^ 31 := by
  have hlt := BitVec.two_mul_toInt_lt (x := cells)
  omega

/-- So many cells do not reach round to what is behind. -/
theorem getCells_ahead (h : Behind m₀ base x m) (hx : x ≤ y) {n : ℕ} (hn : y + 4 * n < 2 ^ 64) (result : Word) :
    getCells m n (place base y) result = getCells m₀ n (place base y) result := by
  refine getCells_congr (by omega) fun b hb => h b fun i hi heq => ?_
  obtain ⟨k, hk, rfl⟩ := exists_of_within hb
  rw [place_add] at heq
  have hik := place_inj (by omega) (by omega) heq
  omega

/-- A number of cells is an `int`. -/
theorem fdtGetAddress_congr (h : Behind m₀ base x m) (hx : x ≤ y) (hy : y < 2 ^ 32) (parent : ScanNode) :
    fdtGetAddress m parent (place base y) = fdtGetAddress m₀ parent (place base y) := by
  have hcells := toNat_toInt_lt parent.addressCells
  exact getCells_ahead h hx (by omega) 0

/-- `reg` is ahead. -/
theorem NodeAt.hart_congr {v : NodeAt} (h : Behind m₀ base x m) (hx : x ≤ v.inner)
    (hv : v.inner + sizeProps v.props < 2 ^ 32) : v.hart m base = v.hart m₀ base := by
  rw [NodeAt.hart, NodeAt.hart]
  refine congrArg _ (funext fun parent => ?_)
  cases hat : lastAt regName v.props v.inner with
  | none => rw [Option.map_none, Option.map_none]
  | some y =>
    obtain ⟨hle, hlt⟩ := lastAt_bounds hat
    rw [Option.map_some, Option.map_some, fdtGetAddress_congr h (by omega) (by omega)]

/-! ### Nodes one after the other -/

/-- Nothing fails, and what is hidden is to be hidden. -/
def NodeAt.Sound (m₀ : Memory) (base mask : Word) (v : NodeAt) : Prop :=
  ¬ v.Fails m₀ base ∧ (v.Masks m₀ base mask → ToMask mask v.cells v.props)

/-- All statuses are hidden that are. -/
def hideAll (m₀ : Memory) (base mask : Word) (vs : List NodeAt) (m : Memory) : Memory :=
  vs.foldl (fun m v => v.hide m₀ base mask m) m

theorem hideAll_cons_append (v : NodeAt) (vs vs' : List NodeAt) :
    hideAll m₀ base mask (v :: (vs ++ vs')) m =
      hideAll m₀ base mask vs' (hideAll m₀ base mask vs (v.hide m₀ base mask m)) := List.foldl_append

/-- A status that is to be hidden is `okay`. -/
theorem NodeAt.status_of_toMask {v : NodeAt} (h : ToMask mask v.cells v.props) :
    ∃ us p vs, v.props = us ++ p :: vs ∧ p.name = statusName ∧ ¬ HasOwn statusName vs ∧ p.value = okayBytes ∧
      v.status = some (p, v.inner + sizeProps us + 4 * p.nops + 12) := by
  obtain ⟨-, -, q, hq, hvalue⟩ := h
  by_cases hown : HasOwn statusName v.props
  · obtain ⟨us, p, vs, hprops, hp, hvs, -, hstatus⟩ := v.status_split hown
    rw [hprops, lastNamed_split hp hvs, Option.mem_some_iff] at hq
    exact ⟨us, p, vs, hprops, hp, hvs, hq ▸ hvalue, hstatus⟩
  · rw [lastNamed_of_not hown] at hq
    cases hq

/-- **What is hidden** is among the properties of the node. -/
theorem NodeAt.hide_of_ne {v : NodeAt} (hsound : v.Masks m₀ base mask → ToMask mask v.cells v.props) {b : Word}
    (hb : ∀ i, v.inner ≤ i → i < v.inner + sizeProps v.props → b ≠ place base i) :
    v.hide m₀ base mask m b = m b := by
  rw [NodeAt.hide]
  split
  · next hmasks =>
    obtain ⟨us, p, vs, hprops, -, -, hvalue, hstatus⟩ := NodeAt.status_of_toMask (hsound hmasks)
    have hsize : sizeProps v.props = sizeProps us + (4 * (p.nops + 5) + sizeProps vs) := by
      rw [hprops, sizeProps_append, sizeProps, Property.size, hvalue]
      rfl
    rw [hstatus, Option.elim_some]
    exact maskStatus_of_ne (by omega) fun i hi => hb i (by omega) (by omega)
  · rfl

theorem NodeAt.behind_hide {v : NodeAt} (h : Behind m₀ base v.inner m)
    (hsound : v.Masks m₀ base mask → ToMask mask v.cells v.props) :
    Behind m₀ base (v.inner + sizeProps v.props) (v.hide m₀ base mask m) := by
  intro b hb
  rw [NodeAt.hide_of_ne hsound fun i _ hi => hb i hi]
  exact h b fun i hi => hb i (by omega)

theorem hideAll_of_ne {vs : List NodeAt} (hsound : ∀ v ∈ vs, v.Sound m₀ base mask)
    (hvs : ∀ v ∈ vs, x ≤ v.inner ∧ v.inner + sizeProps v.props ≤ y) {b : Word}
    (hb : ∀ i, x ≤ i → i < y → b ≠ place base i) : hideAll m₀ base mask vs m b = m b := by
  induction vs generalizing m with
  | nil => rfl
  | cons v vs ih =>
    have hv := hvs v List.mem_cons_self
    refine (ih (fun v' hv' => hsound v' (List.mem_cons_of_mem _ hv')) fun v' hv' =>
      hvs v' (List.mem_cons_of_mem _ hv')).trans ?_
    exact NodeAt.hide_of_ne (hsound v List.mem_cons_self).2 fun i hle hlt => hb i (by omega) (by omega)

end Behind

theorem Forest.nodes_bounds (base : Word) (f : Forest) (node : List ScanNode) (child : ScanNode)
    (cells : Option CellCounts)
    (x : ℕ) : ∀ v ∈ f.nodes base node child cells x, x ≤ v.inner ∧ v.inner + sizeProps v.props ≤ x + f.size := by
  induction f generalizing node child cells x with
  | nil nops => exact fun v hv => nomatch hv
  | cons nops name props children rest ihc ihr =>
    intro v hv
    rw [size]
    rcases List.mem_cons.mp hv with rfl | hv
    · change _ ≤ x + 4 * nops + 4 + nameSize name ∧ x + 4 * nops + 4 + nameSize name + sizeProps props ≤ _
      omega
    · rcases List.mem_append.mp hv with hv | hv
      · have hbounds := ihc _ _ _ _ v hv
        omega
      · have hbounds := ihr _ _ _ _ v hv
        omega

/-! ### What is never undone -/

section Spoilt

variable (m₀ : Memory) (fdt mask : Word) (f₀ : Forest)

/-- A status has been hidden that should not have been: its first byte is not that of `okay`. -/
def Spoilt (m : Memory) : Prop :=
  ∃ v ∈ Blob.nodes m₀ fdt f₀, v.Masks m₀ (structBlock m₀ fdt) mask ∧ ¬ ToMask mask v.cells v.props ∧
    ∃ s ∈ v.status, m (place (structBlock m₀ fdt) s.2) ≠ 0x6f

variable {m₀ fdt mask f₀}

theorem hart_call_mem {e : Event} {s s' : ScanState HartFilter} (h : hartCb.call e s = some s') {b : Word}
    (hb : s.mem b ≠ 0x6f) : s'.mem b ≠ 0x6f := by
  cases e with
  | opened node => rwa [← Option.some.inj h]
  | prop node prop =>
    change hartFilterProp node prop s = some s' at h
    rw [hartFilterProp] at h
    split at h
    · rwa [← Option.some.inj h]
    split at h
    · obtain ⟨parent, -, h⟩ := Option.bind_eq_some_iff.mp h
      rwa [← Option.some.inj h]
    split at h
    all_goals rwa [← Option.some.inj h]
  | done node =>
    change hartFilterDone node s = some s' at h
    rw [hartFilterDone] at h
    split at h
    · rwa [← Option.some.inj h]
    obtain ⟨status, -, h⟩ := Option.bind_eq_some_iff.mp h
    split at h
    · cases h
    split at h
    · rw [← Option.some.inj h]
      exact maskStatus_ne hb
    · rwa [← Option.some.inj h]
  | close node lex lexNext =>
    rwa [← Option.some.inj h]

theorem absorbing_spoilt : hartCb.Absorbing fun s => Spoilt m₀ fdt mask f₀ s.mem := by
  rintro e s s' ⟨v, hv, hmasks, hnot, st, hst, hne⟩ hcall
  exact ⟨v, hv, hmasks, hnot, st, hst, hart_call_mem hcall hne⟩

/-- **What is hidden, but should not be**, is spoilt. -/
theorem spoilt_hide {v : NodeAt} (hv : v ∈ Blob.nodes m₀ fdt f₀) (hmasks : v.Masks m₀ (structBlock m₀ fdt) mask)
    (hnot : ¬ ToMask mask v.cells v.props) (m : Memory) :
    Spoilt m₀ fdt mask f₀ (v.hide m₀ (structBlock m₀ fdt) mask m) := by
  obtain ⟨s, hs, -⟩ := hmasks.2.2
  refine ⟨v, hv, hmasks, hnot, s, hs, ?_⟩
  rw [Option.mem_def] at hs
  rw [NodeAt.hide, if_pos hmasks, hs, Option.elim_some, (holds_maskStatus (place (structBlock m₀ fdt) s.2)).1]
  decide

end Spoilt

/-! ### A tree -/

section Tree

variable {m₀ : Memory} {fdt mask : Word} {f₀ : Forest}

/-- The calls before the children of a node, as in `hart_head`. -/
theorem Blob.hart_head (h : Blob m₀ fdt f₀) (v : NodeAt) (hps : ∀ p ∈ v.props, p ∈ f₀.allProps) {t : List Byte}
    (hblock : f₀.block.drop v.inner = encodeProps v.props ++ 0 :: t) {m : Memory}
    (hm : Behind m₀ (structBlock m₀ fdt) v.inner m)
    (hcomplete : IsCpu v.props → HasOwn regName v.props ∧ HasOwn statusName v.props) (n full : ScanNode)
    {node : List ScanNode} (hnode : v.parent = node.head?) (e : HartFilter) :
    ∃ e' : HartFilter, e'.mask = e.mask ∧
      ((hartCb.call (.opened (n :: node)) ⟨m, e⟩).bind fun s =>
        (hartCb.run (traceProps (stringsBlock m₀ fdt) (structBlock m₀ fdt) v.props
          (n :: node) v.inner) s).bind fun s =>
          hartCb.call (.done (full :: node)) s) =
      if v.Fails m₀ (structBlock m₀ fdt) then none else some ⟨v.hide m₀ (structBlock m₀ fdt) e.mask m, e'⟩ := by
  have hlength := h.length_lt
  have hsum := congrArg List.length hblock
  rw [List.length_drop, List.length_append, length_encodeProps, List.length_cons] at hsum
  exact Fdt.hart_head v hps hblock (h.ahead_of_behind (by omega) hm) hcomplete n full hnode e
    (NodeAt.hart_congr hm le_rfl (by omega))

theorem Forest.behind_hideAll {f : Forest} {node : List ScanNode} {child : ScanNode} {cells : Option CellCounts}
    {x : ℕ}
    {base : Word} {m : Memory} (hm : Behind m₀ base x m)
    (hsound : ∀ v ∈ f.nodes base node child cells x, v.Sound m₀ base mask) :
    Behind m₀ base (x + f.size) (hideAll m₀ base mask (f.nodes base node child cells x) m) := by
  intro b hb
  rw [hideAll_of_ne hsound (f.nodes_bounds base node child cells x) fun i _ hi => hb i hi]
  exact hm b fun i hi => hb i (by omega)

variable (m₀ fdt mask f₀) in
/-- What is to be hidden at these nodes is hidden, or something is spoilt. -/
structure Outcome (vs : List NodeAt) (m : Memory) (r : Option (ScanState HartFilter)) : Prop where
  /-- All is well. -/
  sound : (∀ v ∈ vs, v.Sound m₀ (structBlock m₀ fdt) mask) →
    ∃ e' : HartFilter, e'.mask = mask ∧ r = some ⟨hideAll m₀ (structBlock m₀ fdt) mask vs m, e'⟩
  /-- All is not well. -/
  spoilt : (∃ v ∈ vs, ¬ v.Sound m₀ (structBlock m₀ fdt) mask) → ∀ s', r = some s' → Spoilt m₀ fdt mask f₀ s'.mem

/-- **The calls for nodes** hide what is to be hidden, or something is spoilt. -/
theorem Blob.hart_run (h : Blob m₀ fdt f₀) (f : Forest) (hcomplete : f.HartsComplete)
    (hprops : ∀ p ∈ f.allProps, p ∈ f₀.allProps) {x : ℕ} {t : List Byte}
    (hblock : f₀.block.drop x = f.encode ++ 0 :: t) {m : Memory} (hm : Behind m₀ (structBlock m₀ fdt) x m)
    {node : List ScanNode} {child : ScanNode} {cells : Option CellCounts}
    (hnodes : ∀ v ∈ f.nodes (structBlock m₀ fdt) node child cells x, v ∈ Blob.nodes m₀ fdt f₀) (e : HartFilter)
    (hmask : e.mask = mask) :
    Outcome m₀ fdt mask f₀ (f.nodes (structBlock m₀ fdt) node child cells x) m
      (hartCb.run (f.trace (stringsBlock m₀ fdt) (structBlock m₀ fdt) node child x) ⟨m, e⟩) := by
  induction f generalizing x t m node child cells e with
  | nil nops => exact ⟨fun _ => ⟨e, hmask, rfl⟩, fun ⟨v, hv, _⟩ => nomatch hv⟩
  | cons nops name ps children rest ihc ihr =>
    simp only [Forest.allProps, List.mem_append] at hprops
    simp only [Forest.encode, List.append_assoc] at hblock
    obtain ⟨-, -, hps, hchildren, hend, hrest⟩ := drop_parts hblock
    obtain ⟨w, hw⟩ := zero_encode children ([0, 0, 2] ++ (rest.encode ++ 0 :: t))
    rw [show be32 fdtEndNode = 0 :: [0, 0, 2] from rfl, List.cons_append] at hps hchildren
    rw [hw] at hps
    rw [Forest.nodes] at hnodes ⊢
    rw [FdtCb.run_node]
    have hclose (node' : List ScanNode) (lex lexNext : Word) (s : ScanState HartFilter) :
        hartCb.call (.close node' lex lexNext) s = some s := rfl
    obtain ⟨e₁, hmask₁, hhead⟩ := h.hart_head ⟨ps, x + 4 * nops + 4 + nameSize name, node.head?, cells⟩
      (fun p hp => hprops p (.inl hp)) hps (hm.mono (show x ≤ x + 4 * nops + 4 + nameSize name by omega)) hcomplete.1
      { child with name := place (structBlock m₀ fdt) (x + 4 * nops + 4) }
      (setCellsAll ps { child with name := place (structBlock m₀ fdt) (x + 4 * nops + 4) }) rfl e
    have hlater (hsound : NodeAt.Masks m₀ (structBlock m₀ fdt) mask
      ⟨ps, x + 4 * nops + 4 + nameSize name, node.head?, cells⟩ →
        ToMask mask cells ps) : Behind m₀ (structBlock m₀ fdt) (x + 4 * nops + 4 + nameSize name + sizeProps ps)
          (NodeAt.hide m₀ (structBlock m₀ fdt) mask ⟨ps, x + 4 * nops + 4 + nameSize name, node.head?, cells⟩ m) :=
      NodeAt.behind_hide (hm.mono (show x ≤ x + 4 * nops + 4 + nameSize name by omega)) hsound
    rw [hmask] at hhead hmask₁
    rw [hhead]
    constructor
    · intro hsound
      have hv := hsound _ List.mem_cons_self
      have hc := fun u hu => hsound u (List.mem_cons_of_mem _ (List.mem_append_left _ hu))
      have hbehind := Forest.behind_hideAll (hlater hv.2) hc
      obtain ⟨e₂, hmask₂, hrun₂⟩ :=
        (ihc hcomplete.2.1 (fun p hp => hprops p (.inr (.inl hp))) hchildren (hlater hv.2)
        (fun u hu => hnodes u (List.mem_cons_of_mem _ (List.mem_append_left _ hu))) e₁ hmask₁).sound hc
      obtain ⟨e₃, hmask₃, hrun₃⟩ := (ihr hcomplete.2.2 (fun p hp => hprops p (.inr (.inr hp))) hrest
        (hbehind.mono (by omega)) (fun u hu => hnodes u (List.mem_cons_of_mem _ (List.mem_append_right _ hu)))
        e₂ hmask₂).sound
        fun u hu => hsound u (List.mem_cons_of_mem _ (List.mem_append_right _ hu))
      refine ⟨e₃, hmask₃, ?_⟩
      rw [if_neg hv.1, Option.bind_some, FdtCb.run_append, hrun₂, Option.bind_some, FdtCb.run, hclose,
        Option.bind_some,
        hrun₃, hideAll_cons_append]
    · rintro ⟨u, hu, hnot⟩ s' hrun
      split at hrun
      · cases hrun
      next hfails =>
      rw [Option.bind_some] at hrun
      by_cases hv : NodeAt.Masks m₀ (structBlock m₀ fdt) mask
        ⟨ps, x + 4 * nops + 4 + nameSize name, node.head?, cells⟩ →
          ToMask mask cells ps
      · rw [FdtCb.run_append] at hrun
        obtain ⟨s₂, hs₂, hrun⟩ := Option.bind_eq_some_iff.mp hrun
        have hchildrenRun := ihc hcomplete.2.1 (fun p hp => hprops p (.inr (.inl hp))) hchildren (hlater hv)
          (fun u hu => hnodes u (List.mem_cons_of_mem _ (List.mem_append_left _ hu))) e₁ hmask₁
        by_cases hc : ∃ u ∈ children.nodes (structBlock m₀ fdt)
            (setCellsAll ps { child with name := place (structBlock m₀ fdt) (x + 4 * nops + 4) } :: node) .fresh
            (some (ownCells ps)) (x + 4 * nops + 4 + nameSize name + sizeProps ps),
              ¬ u.Sound m₀ (structBlock m₀ fdt) mask
        · exact run_bad absorbing_spoilt (hchildrenRun.spoilt hc s₂ hs₂) hrun
        · -- it is among the nodes after this one
          simp only [not_exists, not_and, not_not] at hc
          have hbehind := Forest.behind_hideAll (hlater hv) hc
          obtain ⟨e₂, hmask₂, hrun₂⟩ := hchildrenRun.sound hc
          rw [hrun₂] at hs₂
          rw [← Option.some.inj hs₂, FdtCb.run, hclose, Option.bind_some] at hrun
          refine (ihr hcomplete.2.2 (fun p hp => hprops p (.inr (.inr hp))) hrest (hbehind.mono (by omega))
            (fun u hu => hnodes u (List.mem_cons_of_mem _ (List.mem_append_right _ hu))) e₂ hmask₂).spoilt
              ⟨u, ?_, hnot⟩ s' hrun
          rcases List.mem_cons.mp hu with rfl | hu
          · exact absurd ⟨hfails, hv⟩ hnot
          · exact (List.mem_append.mp hu).resolve_left fun hu => hnot (hc u hu)
      · obtain ⟨hmasks, htoMask⟩ := Classical.not_imp.mp hv
        exact run_bad absorbing_spoilt (spoilt_hide (hnodes _ List.mem_cons_self) hmasks htoMask m) hrun

theorem hartFilterProp_mem (node : List ScanNode) (prop : ScanProp) (s s' : ScanState HartFilter)
    (h : hartCb.onProp node prop s = some s') : s'.mem = s.mem := by
  change hartFilterProp node prop s = some s' at h
  rw [hartFilterProp] at h
  split at h
  · rw [← Option.some.inj h]
  split at h
  · obtain ⟨parent, -, h⟩ := Option.bind_eq_some_iff.mp h
    rw [← Option.some.inj h]
  split at h
  all_goals rw [← Option.some.inj h]

/-- **Each of the calls** leaves what is ahead as it is, or spoils something. -/
theorem Blob.hart_safe (h : Blob m₀ fdt f₀) (f : Forest) (hcomplete : f.HartsComplete)
    (hprops : ∀ p ∈ f.allProps, p ∈ f₀.allProps) {x : ℕ} {t : List Byte}
    (hblock : f₀.block.drop x = f.encode ++ 0 :: t) {m : Memory} (hm : Behind m₀ (structBlock m₀ fdt) x m)
    {node : List ScanNode} {child : ScanNode} {cells : Option CellCounts}
    (hnodes : ∀ v ∈ f.nodes (structBlock m₀ fdt) node child cells x, v ∈ Blob.nodes m₀ fdt f₀) (e : HartFilter)
    (hmask : e.mask = mask) :
    Fdt.Safe (stringsBlock m₀ fdt) (structBlock m₀ fdt) f₀.block f₀.allProps hartCb
      (fun s => Spoilt m₀ fdt mask f₀ s.mem)
        (f.trace (stringsBlock m₀ fdt) (structBlock m₀ fdt) node child x) ⟨m, e⟩ := by
  induction f generalizing x t m node child cells e with
  | nil nops => trivial
  | cons nops name ps children rest ihc ihr =>
    have hlength := congrArg List.length hblock
    rw [List.length_drop, List.length_append, Forest.length_encode, List.length_cons, Forest.size] at hlength
    simp only [Forest.allProps, List.mem_append] at hprops
    simp only [Forest.encode, List.append_assoc] at hblock
    obtain ⟨-, -, hps, hchildren, hend, hrest⟩ := drop_parts hblock
    obtain ⟨w, hw⟩ := zero_encode children ([0, 0, 2] ++ (rest.encode ++ 0 :: t))
    rw [show be32 fdtEndNode = 0 :: [0, 0, 2] from rfl, List.cons_append] at hps hchildren
    rw [hw] at hps
    rw [Forest.nodes] at hnodes
    obtain ⟨e₁, hmask₁, hhead⟩ := h.hart_head ⟨ps, x + 4 * nops + 4 + nameSize name, node.head?, cells⟩
      (fun p hp => hprops p (.inl hp)) hps (hm.mono (show x ≤ x + 4 * nops + 4 + nameSize name by omega)) hcomplete.1
      { child with name := place (structBlock m₀ fdt) (x + 4 * nops + 4) }
      (setCellsAll ps { child with name := place (structBlock m₀ fdt) (x + 4 * nops + 4) }) rfl e
    rw [hmask] at hhead hmask₁
    -- what is known after `done`
    have hdone (s' : ScanState HartFilter) (hs' : (if NodeAt.Fails m₀ (structBlock m₀ fdt)
        ⟨ps, x + 4 * nops + 4 + nameSize name, node.head?, cells⟩ then none
        else some ⟨NodeAt.hide m₀ (structBlock m₀ fdt)
          mask ⟨ps, x + 4 * nops + 4 + nameSize name, node.head?, cells⟩ m, e₁⟩) = some s') :
        s'.extra = e₁ ∧ (Spoilt m₀ fdt mask f₀ s'.mem ∨
          Behind m₀ (structBlock m₀ fdt) (x + 4 * nops + 4 + nameSize name + sizeProps ps) s'.mem) := by
      split at hs'
      · cases hs'
      rw [← Option.some.inj hs']
      refine ⟨rfl, ?_⟩
      by_cases hv : NodeAt.Masks m₀ (structBlock m₀ fdt) mask
        ⟨ps, x + 4 * nops + 4 + nameSize name, node.head?, cells⟩ →
          ToMask mask cells ps
      · exact .inr (NodeAt.behind_hide (hm.mono (show x ≤ x + 4 * nops + 4 + nameSize name by omega)) hv)
      · obtain ⟨hmasks, htoMask⟩ := Classical.not_imp.mp hv
        exact .inl (spoilt_hide (hnodes _ List.mem_cons_self) hmasks htoMask m)
    rw [Forest.trace]
    have hahead := h.ahead_of_behind (y := x) (by omega) hm
    refine fun s₀ hopened => .inr
      ⟨?_, safe_append (safe_traceProps hartFilterProp_mem ps ?_) fun s₁ hrun₁ s₂ hcall₂ => ?_⟩
    · rw [← Option.some.inj hopened]
      exact hahead.mono (by omega)
    · rw [← Option.some.inj hopened]
      exact hahead.mono (by omega)
    have hs₂ := hdone s₂ (hhead.symm.trans
      (by rw [hopened, Option.bind_some, hrun₁, Option.bind_some]; exact hcall₂))
    obtain ⟨hextra, hspoilt | hbehind⟩ := hs₂
    · exact .inl hspoilt
    have hchildrenNodes := fun u hu => hnodes u (List.mem_cons_of_mem _ (List.mem_append_left _ hu))
    have hmask₂ : s₂.extra.mask = mask := hextra ▸ hmask₁
    refine .inr ⟨h.ahead_of_behind (by omega) hbehind,
      safe_append (ihc hcomplete.2.1 (fun p hp => hprops p (.inr (.inl hp)))
      hchildren hbehind hchildrenNodes s₂.extra hmask₂) fun s₃ hrun₃ => ?_⟩
    have houtcome := h.hart_run children hcomplete.2.1 (fun p hp => hprops p (.inr (.inl hp))) hchildren hbehind
      hchildrenNodes s₂.extra hmask₂
    by_cases hc : ∃ u ∈ children.nodes (structBlock m₀ fdt)
        (setCellsAll ps { child with name := place (structBlock m₀ fdt) (x + 4 * nops + 4) } :: node) .fresh
        (some (ownCells ps)) (x + 4 * nops + 4 + nameSize name + sizeProps ps),
          ¬ u.Sound m₀ (structBlock m₀ fdt) mask
    · exact safe_of_bad absorbing_spoilt (houtcome.spoilt hc s₃ hrun₃)
    · simp only [not_exists, not_and, not_not] at hc
      obtain ⟨e₃, hmask₃, hrun₃'⟩ := houtcome.sound hc
      rw [hrun₃'] at hrun₃
      have hbehind₃ := (Forest.behind_hideAll hbehind hc).mono
        (show x + 4 * nops + 4 + nameSize name + sizeProps ps +
        children.size ≤ x + 4 * nops + 4 + nameSize name + sizeProps ps + children.size + 4 by omega)
      rw [← Option.some.inj hrun₃]
      intro s₄ hclose
      rw [← Option.some.inj hclose]
      exact .inr ⟨h.ahead_of_behind (by omega) hbehind₃,
        ihr hcomplete.2.2 (fun p hp => hprops p (.inr (.inr hp))) hrest
        hbehind₃ (fun u hu => hnodes u (List.mem_cons_of_mem _ (List.mem_append_right _ hu))) e₃ hmask₃⟩

end Tree

/-! ### What is left in memory -/

section Left

variable {m m₀ : Memory} {base mask : Word} {inner : ℕ} {us vs : List Property} {p : Property}

@[simp] theorem Property.masked_name (p : Property) : p.masked.name = p.name := by
  rw [masked]
  split <;> rfl

@[simp] theorem Property.masked_nops (p : Property) : p.masked.nops = p.nops := by
  rw [masked]
  split <;> rfl

@[simp] theorem Property.masked_nameOff (p : Property) : p.masked.nameOff = p.nameOff := by
  rw [masked]
  split <;> rfl

theorem Property.masked_value (hp : p.name = statusName) : p.masked.value = maskedBytes := by
  rw [masked, dif_pos hp]

/-- Where the value of a property is. -/
theorem holds_value (h : m.Holds (place base inner) (encodeProps (us ++ p :: vs))) :
    m.Holds (place base (inner + sizeProps us + 4 * p.nops + 12)) (padded p.value) := by
  simp only [encodeProps_append, encodeProps, Property.encode, holds_append, place_add, length_encodeProps,
    length_nopBytes,
    length_be32] at h
  exact h.2.1.2.2.2.2

/-- **The properties** with a status that is hidden. -/
theorem holds_encodeProps_masked (hp : p.name = statusName) (hvalue : p.value = okayBytes)
    (h : m.Holds (place base inner) (encodeProps (us ++ p :: vs)))
    (hsize : inner + sizeProps (us ++ p :: vs) < 2 ^ 64) :
    (maskStatus (place base (inner + sizeProps us + 4 * p.nops + 12)) m).Holds (place base inner)
      (encodeProps (us ++ p.masked :: vs)) := by
  have hlen : p.size = 4 * (p.nops + 5) := by rw [Property.size, hvalue]; rfl
  rw [sizeProps_append, sizeProps, hlen] at hsize
  have hpadded : padded p.value = okayBytes ++ [0, 0] ++ [0] := by rw [hvalue]; rfl
  have hmasked : padded maskedBytes = maskedBytes ++ [0] := rfl
  have hseven : (okayBytes ++ [0, 0]).length = 7 := rfl
  have hseven' : maskedBytes.length = 7 := rfl
  simp only [encodeProps_append, encodeProps, Property.encode, Property.len, Property.masked_nops,
    Property.masked_nameOff,
    Property.masked_value hp, hpadded, hmasked, holds_append, place_add, length_encodeProps, List.length_append,
    length_nopBytes, length_be32, hseven, hseven', List.length_singleton] at h ⊢
  obtain ⟨hus, ⟨hnops, hprop, -, hoff, -, hzero⟩, hvs⟩ := h
  -- all but the length and the string is elsewhere
  have hkeep {z : ℕ} {bs : List Byte} (hold : m.Holds (place base z) bs) (hz : z + bs.length < 2 ^ 64)
      (hapart : z + bs.length ≤ inner + sizeProps us + 4 * p.nops + 4 ∨
        inner + sizeProps us + 4 * p.nops + 8 ≤ z ∧ z + bs.length ≤ inner + sizeProps us + 4 * p.nops + 12 ∨
          inner + sizeProps us + 4 * p.nops + 19 ≤ z) :
      (maskStatus (place base (inner + sizeProps us + 4 * p.nops + 12)) m).Holds (place base z) bs :=
    holds_maskStatus_of_ne hold (by omega) (by omega) (by omega) hz
  have hword : (maskStatus (place base (inner + sizeProps us + 4 * p.nops + 12)) m).Holds
      (place base (inner + sizeProps us + 4 * p.nops + 4)) (be32 7) := by
    rw [maskStatus, place_sub (by omega)]
    exact holds_store32_bswap _ _ _
  refine ⟨hkeep hus ?_ ?_, ⟨hkeep hnops ?_ ?_, hkeep hprop ?_ ?_, hword, hkeep hoff ?_ ?_, holds_maskStatus _,
    hkeep hzero ?_ ?_⟩, hkeep hvs ?_ ?_⟩
  all_goals
    simp only [length_encodeProps, length_nopBytes, length_be32, List.length_singleton]
    omega

theorem sizeProps_eq_sum (ps : List Property) : sizeProps ps = (ps.map Property.size).sum := by
  induction ps with
  | nil => rfl
  | cons p ps ih => rw [sizeProps, ih, List.map_cons, List.sum_cons]

/-- The properties have as many bytes. -/
theorem map_size_hidden (mask : Word) (cells : Option CellCounts) (ps : List Property) :
    (if ToMask mask cells ps then maskLast ps else ps).map Property.size = ps.map Property.size := by
  split
  · next h =>
    obtain ⟨us, p, vs, rfl, hp, hvs, hvalue, -⟩ := NodeAt.status_of_toMask (v := ⟨ps, 0, none, cells⟩) h
    have hsize : p.masked.size = p.size := by
      rw [Property.size, Property.size, Property.masked_value hp, Property.masked_nops, hvalue]
      rfl
    rw [maskLast_split hp hvs, List.map_append, List.map_append, List.map_cons, List.map_cons, hsize]
  · rfl

theorem sizeProps_hidden (mask : Word) (cells : Option CellCounts) (ps : List Property) :
    sizeProps (if ToMask mask cells ps then maskLast ps else ps) = sizeProps ps := by
  rw [sizeProps_eq_sum, map_size_hidden, sizeProps_eq_sum]

/-- **The properties of a node** are as they should be exactly if its status is hidden where it is to be. -/
theorem NodeAt.holds_hide_iff {v : NodeAt} (hsound : v.Masks m₀ base mask → ToMask mask v.cells v.props)
    (h : m.Holds (place base v.inner) (encodeProps v.props)) (hsize : v.inner + sizeProps v.props < 2 ^ 64) :
    (v.hide m₀ base mask m).Holds (place base v.inner)
        (encodeProps (if ToMask mask v.cells v.props then maskLast v.props else v.props)) ↔
      (ToMask mask v.cells v.props → v.Masks m₀ base mask) := by
  by_cases htoMask : ToMask mask v.cells v.props
  · obtain ⟨us, p, vs, hprops, hp, hvs, hvalue, hstatus⟩ := NodeAt.status_of_toMask htoMask
    rw [if_pos htoMask, hprops, maskLast_split hp hvs]
    rw [hprops] at h hsize
    by_cases hmasks : v.Masks m₀ base mask
    · rw [NodeAt.hide, if_pos hmasks, hstatus, Option.elim_some]
      exact iff_of_true (holds_encodeProps_masked hp hvalue h hsize) fun _ => hmasks
    · -- the status is still `okay`
      rw [NodeAt.hide, if_neg hmasks]
      refine iff_of_false (fun hhidden => ?_) fun himp => hmasks (himp (hprops ▸ htoMask))
      have hokay := holds_value h
      have hmasked := holds_value hhidden
      rw [Property.masked_value hp, Property.masked_nops] at hmasked
      rw [hvalue] at hokay
      exact absurd (hokay.1.symm.trans hmasked.1) (by decide)
  · have hmasks : ¬ v.Masks m₀ base mask := fun hmasks => htoMask (hsound hmasks)
    rw [if_neg htoMask, NodeAt.hide, if_neg hmasks]
    exact iff_of_true h fun h => absurd h htoMask

theorem holds_hideAll_iff {vs : List NodeAt} {x y z : ℕ} {l : List Byte} (hsound : ∀ v ∈ vs, v.Sound m₀ base mask)
    (hvs : ∀ v ∈ vs, x ≤ v.inner ∧ v.inner + sizeProps v.props ≤ y) (hapart : z + l.length ≤ x ∨ y ≤ z)
    (hy : y < 2 ^ 64) (hz : z + l.length < 2 ^ 64) :
    (hideAll m₀ base mask vs m).Holds (place base z) l ↔ m.Holds (place base z) l := by
  refine holds_congr (by omega) fun b hb => hideAll_of_ne hsound hvs fun i hi hlt heq => ?_
  obtain ⟨k, hk, rfl⟩ := exists_of_within hb
  rw [place_add] at heq
  have hik := place_inj (by omega) (by omega) heq
  omega

theorem Forest.size_maskHarts (f : Forest) (cells : Option CellCounts) : (f.maskHarts mask cells).size = f.size := by
  induction f generalizing cells with
  | nil nops => rfl
  | cons nops name ps children rest ihc ihr =>
    rw [maskHarts, size, size, ihc, ihr, sizeProps_hidden]

/-- **What is left** is the tree with the harts hidden exactly if all are hidden that are to be. -/
theorem holds_maskHarts_iff (f : Forest) {node : List ScanNode} {child : ScanNode} {cells : Option CellCounts}
    {x : ℕ}
    (hsound : ∀ v ∈ f.nodes base node child cells x, v.Sound m₀ base mask) (h : m.Holds (place base x) f.encode)
    (hx : x + f.size < 2 ^ 64) :
    (hideAll m₀ base mask (f.nodes base node child cells x) m).Holds (place base x) (f.maskHarts mask cells).encode ↔
      ∀ v ∈ f.nodes base node child cells x, ToMask mask v.cells v.props → v.Masks m₀ base mask := by
  induction f generalizing m node child cells x with
  | nil nops => exact iff_of_true h fun v hv => nomatch hv
  | cons nops name ps children rest ihc ihr =>
    rw [Forest.size] at hx
    rw [Forest.nodes] at hsound ⊢
    rw [List.forall_mem_cons, List.forall_mem_append] at hsound ⊢
    obtain ⟨hv, hc, hr⟩ := hsound
    rw [hideAll_cons_append, Forest.maskHarts]
    simp only [Forest.encode, holds_append, place_add, length_nopBytes, length_be32, length_padded_name,
      length_encodeProps,
      Forest.length_encode, Forest.size_maskHarts, sizeProps_hidden] at h ⊢
    obtain ⟨hnops, hbegin, hname, hprops, hchildren, hend, hrest⟩ := h
    have hcbounds := children.nodes_bounds base
      (setCellsAll ps { child with name := place base (x + 4 * nops + 4) } :: node) .fresh (some (ownCells ps))
      (x + 4 * nops + 4 + nameSize name + sizeProps ps)
    have hrbounds := rest.nodes_bounds base node
      (setCellsAll ps { child with name := place base (x + 4 * nops + 4) }) cells
      (x + 4 * nops + 4 + nameSize name + sizeProps ps + children.size + 4)
    -- three changes, each to bytes of its own
    have hvIff {m' : Memory} {z : ℕ} {bs : List Byte} (hz : z + bs.length < 2 ^ 64)
        (hapart : z + bs.length ≤ x + 4 * nops + 4 + nameSize name ∨
          x + 4 * nops + 4 + nameSize name + sizeProps ps ≤ z) :
        (NodeAt.hide m₀ base mask ⟨ps, x + 4 * nops + 4 + nameSize name, node.head?, cells⟩ m').Holds
          (place base z) bs ↔
          m'.Holds (place base z) bs :=
      holds_hideAll_iff (List.forall_mem_singleton.mpr hv) (List.forall_mem_singleton.mpr ⟨le_rfl, le_rfl⟩) hapart
        (show x + 4 * nops + 4 + nameSize name + sizeProps ps < 2 ^ 64 by omega) hz
    have hcIff {m' : Memory} {z : ℕ} {bs : List Byte} (hz : z + bs.length < 2 ^ 64)
        (hapart : z + bs.length ≤ x + 4 * nops + 4 + nameSize name + sizeProps ps ∨
          x + 4 * nops + 4 + nameSize name + sizeProps ps + children.size ≤ z) :=
      holds_hideAll_iff (m := m') (z := z) (l := bs) hc hcbounds hapart (by omega) hz
    have hrIff {m' : Memory} {z : ℕ} {bs : List Byte} (hz : z + bs.length < 2 ^ 64)
        (hapart : z + bs.length ≤ x + 4 * nops + 4 + nameSize name + sizeProps ps + children.size + 4 ∨
          x + 4 * nops + 4 + nameSize name + sizeProps ps + children.size + 4 + rest.size ≤ z) :=
      holds_hideAll_iff (m := m') (z := z) (l := bs) hr hrbounds hapart (by omega) hz
    have hlength : (encodeProps (if ToMask mask cells ps then maskLast ps else ps)).length = sizeProps ps := by
      rw [length_encodeProps, sizeProps_hidden]
    have hlength' : (children.maskHarts mask (some (ownCells ps))).encode.length = children.size := by
      rw [Forest.length_encode, Forest.size_maskHarts]
    have hbefore {z : ℕ} {bs : List Byte} (hold : m.Holds (place base z) bs)
      (hz : z + bs.length ≤ x + 4 * nops + 4 + nameSize name) :=
      (hrIff (by omega) (.inl (by omega))).mpr ((hcIff (by omega) (.inl (by omega))).mpr
        ((hvIff (by omega) (.inl hz)).mpr hold))
    have hnodeIff : (NodeAt.hide m₀ base mask ⟨ps, x + 4 * nops + 4 + nameSize name, node.head?, cells⟩ m).Holds
        (place base (x + 4 * nops + 4 + nameSize name))
          (encodeProps (if ToMask mask cells ps then maskLast ps else ps)) ↔
          (ToMask mask cells ps → NodeAt.Masks m₀ base mask
            ⟨ps, x + 4 * nops + 4 + nameSize name, node.head?, cells⟩) :=
      NodeAt.holds_hide_iff hv.2 hprops (show x + 4 * nops + 4 + nameSize name + sizeProps ps < 2 ^ 64 by omega)
    have hpropsIff :=
      (hrIff (by omega) (.inl (by omega))).trans ((hcIff (by omega) (.inl (by omega))).trans hnodeIff)
    have hchildrenIff := (hrIff (by omega) (.inl (by omega))).trans
      (ihc hc ((hvIff (by rw [Forest.length_encode]; omega) (.inr le_rfl)).mpr hchildren) (by omega))
    have hafter := (hrIff (by rw [length_be32]; omega) (.inl (by rw [length_be32]))).mpr
      ((hcIff (by rw [length_be32]; omega) (.inr le_rfl)).mpr
        ((hvIff (by rw [length_be32]; omega) (.inr (by omega))).mpr hend))
    have hrestIff := ihr hr ((hcIff (by rw [Forest.length_encode]; omega) (.inr (by omega))).mpr
      ((hvIff (by rw [Forest.length_encode]; omega) (.inr (by omega))).mpr hrest)) (by omega)
    constructor
    · rintro ⟨-, -, -, hp, hcs, -, hrs⟩
      exact ⟨hpropsIff.mp hp, hchildrenIff.mp hcs, hrestIff.mp hrs⟩
    · rintro ⟨hp, hcs, hrs⟩
      exact ⟨hbefore hnops (by rw [length_nopBytes]; omega), hbefore hbegin (by rw [length_be32]; omega),
        hbefore hname (by rw [length_padded_name]), hpropsIff.mpr hp, hchildrenIff.mpr hcs, hafter, hrestIff.mpr hrs⟩

/-- A string that is `okay` begins with its first byte. -/
theorem head_of_okay {bs : List Byte} (h : cstring bs = ascii "okay") : ∃ cs, bs = 0x6f :: cs := by
  cases bs with
  | nil => cases h
  | cons b cs =>
    rw [cstring, List.takeWhile_cons] at h
    split at h
    · exact ⟨cs, by rw [(List.cons.inj h).1]; rfl⟩
    · cases h

/-- **A status that is not to be hidden** is `okay` in the tree that is expected. -/
theorem status_of_maskHarts (f : Forest) {node : List ScanNode} {child : ScanNode} {cells : Option CellCounts}
    {x : ℕ}
    (h : m.Holds (place base x) (f.maskHarts mask cells).encode) :
    ∀ v ∈ f.nodes base node child cells x, v.Masks m₀ base mask → ¬ ToMask mask v.cells v.props →
      ∀ s ∈ v.status, m (place base s.2) = 0x6f := by
  induction f generalizing node child cells x with
  | nil nops => exact fun v hv => nomatch hv
  | cons nops name ps children rest ihc ihr =>
    rw [Forest.maskHarts] at h
    simp only [Forest.encode, holds_append, place_add, length_nopBytes, length_be32, length_padded_name,
      length_encodeProps,
      Forest.length_encode, Forest.size_maskHarts, sizeProps_hidden] at h
    obtain ⟨-, -, -, hprops, hchildren, -, hrest⟩ := h
    rw [Forest.nodes, List.forall_mem_cons, List.forall_mem_append]
    refine ⟨fun hmasks hnot s hs => ?_, ihc hchildren, ihr hrest⟩
    obtain ⟨-, -, s', hs', hokay⟩ := hmasks
    rw [Option.mem_def] at hs hs'
    by_cases hown : HasOwn statusName ps
    · obtain ⟨us, p, vs, hsplit, -, -, -, hstatus⟩ :=
        NodeAt.status_split (v := ⟨ps, x + 4 * nops + 4 + nameSize name, node.head?, cells⟩) hown
      rw [hstatus, Option.some.injEq] at hs hs'
      rw [← hs'] at hokay
      obtain ⟨cs, hcs⟩ := head_of_okay hokay
      rw [if_neg hnot, show ps = us ++ p :: vs from hsplit] at hprops
      have hvalue := holds_value hprops
      rw [padded, hcs] at hvalue
      rw [← hs]
      exact hvalue.1
    · rw [NodeAt.status, lastNamed_of_not hown] at hs
      cases hs

/-! ### The tokens -/

theorem snd_traceProps {strings strings' base' : Word} {ps ps' : List Property} {n n' : List ScanNode} {x : ℕ}
    (h : ps'.map Property.size = ps.map Property.size) :
    (traceProps strings' base' ps' n' x).map Prod.snd = (traceProps strings base ps n x).map Prod.snd := by
  induction ps generalizing ps' n n' x with
  | nil =>
    rw [List.map_nil, List.map_eq_nil_iff] at h
    rw [h]
    rfl
  | cons p ps ih =>
    cases ps' with
    | nil => cases h
    | cons p' ps' =>
      obtain ⟨hsize, hrest⟩ := List.cons.inj h
      rw [traceProps, traceProps, List.map_cons, List.map_cons, hsize, ih hrest]

/-- **The calls** are at the same tokens. -/
theorem Forest.snd_trace (f : Forest) {strings strings' base' : Word} {node node' : List ScanNode}
    {child child' : ScanNode}
    (cells : Option CellCounts) (x : ℕ) :
    ((f.maskHarts mask cells).trace strings' base' node' child' x).map Prod.snd =
      (f.trace strings base node child x).map Prod.snd := by
  induction f generalizing node node' child child' cells x with
  | nil nops => rfl
  | cons nops name ps children rest ihc ihr =>
    rw [maskHarts, trace, trace]
    simp only [List.map_cons, List.map_append, sizeProps_hidden, size_maskHarts]
    exact congrArg (_ :: ·) (congrArg₂ (· ++ ·) (snd_traceProps (map_size_hidden mask cells ps)) (congrArg (_ :: ·)
      (congrArg₂ (· ++ ·) (ihc _ _) (congrArg (_ :: ·) (ihr _ _)))))

end Left

/-! ### When harts are what they seem -/

theorem Forest.nodes_complete {base : Word} {f : Forest} (h : f.HartsComplete) {node : List ScanNode}
    {child : ScanNode}
    {cells : Option CellCounts} {x : ℕ} :
    ∀ v ∈ f.nodes base node child cells x, IsCpu v.props → HasOwn regName v.props ∧ HasOwn statusName v.props := by
  induction f generalizing node child cells x with
  | nil nops => exact fun v hv => nomatch hv
  | cons nops name ps children rest ihc ihr =>
    rw [nodes, List.forall_mem_cons, List.forall_mem_append]
    exact ⟨h.1, ihc h.2.1, ihr h.2.2⟩

theorem cstring_okayBytes : cstring okayBytes = ascii "okay" := by decide

/-- **A node is right** if nothing fails, and what is hidden is what is to be hidden. -/
theorem NodeAt.right_iff {v : NodeAt} {m₀ : Memory} {base mask : Word}
    (hcomplete : IsCpu v.props → HasOwn regName v.props ∧ HasOwn statusName v.props) :
    v.Right m₀ base mask ↔ v.Sound m₀ base mask ∧ (ToMask mask v.cells v.props → v.Masks m₀ base mask) := by
  have hparent : (HasOwn regName v.props → v.parent ≠ none) ↔
    ¬ (HasOwn regName v.props ∧ v.parent = none) := not_and.symm
  by_cases hcpu : IsCpu v.props
  · obtain ⟨hreg, hstatus⟩ := hcomplete hcpu
    obtain ⟨us, p, vs, hprops, hp, hvs, -, hsome⟩ := v.status_split hstatus
    cases hpar : v.parent with
    | none =>
      refine iff_of_false (fun h => h.parent hreg hpar) fun h => h.1.1 (.inl ⟨hreg, hpar⟩)
    | some parent =>
      have hlast : lastNamed statusName v.props = some p := by rw [hprops, lastNamed_split hp hvs]
      have hnumber := NodeAt.hart_of_hasOwn hreg hpar m₀ base (-1)
      generalize lastHart m₀ base v.parent v.props v.inner (-1) = hart at hnumber
      have hfails : v.Fails m₀ base ↔ hart < 0 := by
        rw [NodeAt.Fails, hnumber, hpar]
        simp [hcpu]
      have hmasks : v.Masks m₀ base mask ↔ mask.getLsbD (hart.toNat % 64) = true ∧
        cstring p.value = ascii "okay" := by
        rw [NodeAt.Masks, hnumber, hsome]
        simp [hcpu]
      have htoMask : ToMask mask v.cells v.props ↔
          (∃ c ∈ v.cells, ∃ r ∈ lastNamed regName v.props, regValue c r < 64 ∧ mask.getLsbD (regValue c r) = true) ∧
            p.value = okayBytes := by
        rw [ToMask, hlast]
        simp [hcpu]
      have hright : v.Right m₀ base mask ↔ HartRight mask v hart p := by
        constructor
        · intro h
          exact h.hart hcpu hart hnumber _ hsome
        · intro h
          refine ⟨fun _ => hpar ▸ Option.some_ne_none parent, fun _ hart' hhart' s hs => ?_⟩
          rw [Option.mem_def, hnumber] at hhart'
          rw [Option.mem_def, hsome] at hs
          rw [← Option.some.inj hhart', ← Option.some.inj hs]
          exact h
      rw [hright, NodeAt.Sound, hfails, hmasks, htoMask, Int.not_lt]
      constructor
      · rintro ⟨hnonneg, hokay, hother⟩
        refine ⟨⟨hnonneg, fun h => ?_⟩, fun h => ?_⟩
        · obtain ⟨hbit, hstring⟩ := h
          have hvalue : p.value = okayBytes := by
            by_contra hne
            rw [hother hstring hne] at hbit
            cases hbit
          exact ⟨(hokay hvalue).mp hbit, hvalue⟩
        · obtain ⟨hexpected, hvalue⟩ := h
          exact ⟨(hokay hvalue).mpr hexpected, hvalue ▸ cstring_okayBytes⟩
      · rintro ⟨⟨hnonneg, hsound⟩, hhidden⟩
        refine ⟨hnonneg, fun hvalue => ⟨fun hbit => ?_, fun hexpected => ?_⟩, fun hstring hne => ?_⟩
        · exact (hsound ⟨hbit, hvalue ▸ cstring_okayBytes⟩).1
        · exact (hhidden ⟨hexpected, hvalue⟩).1
        · by_contra hbit
          exact hne (hsound ⟨Bool.eq_true_of_not_eq_false hbit, hstring⟩).2
  · have hmasks : ¬ v.Masks m₀ base mask := fun h => hcpu h.1
    have htoMask : ¬ ToMask mask v.cells v.props := fun h => hcpu h.1
    constructor
    · intro h
      exact ⟨⟨fun hfails => hfails.elim (hparent.mp h.parent) fun hf => hcpu hf.1, fun h => absurd h hmasks⟩,
        fun h => absurd h htoMask⟩
    · intro h
      exact ⟨hparent.mpr fun hnone => h.1.1 (.inl hnone), fun h => absurd h hcpu⟩

/-! ### The scan of a blob -/

theorem Forest.names_maskHarts {mask : Word} (f : Forest) (cells : Option CellCounts) :
    ∀ p' ∈ (f.maskHarts mask cells).allProps, ∃ p ∈ f.allProps, p'.name = p.name ∧ p'.nameOff = p.nameOff := by
  induction f generalizing cells with
  | nil nops => exact fun p hp => nomatch hp
  | cons nops name ps children rest ihc ihr =>
    intro p' hp'
    rw [maskHarts, allProps, List.mem_append, List.mem_append] at hp'
    simp only [allProps, List.mem_append]
    rcases hp' with hp' | hp' | hp'
    · split at hp'
      · next h =>
        obtain ⟨us, p, vs, rfl, hp, hvs, -⟩ := NodeAt.status_of_toMask (v := ⟨ps, 0, none, cells⟩) h
        rw [maskLast_split hp hvs] at hp'
        rcases List.mem_append.mp hp' with hp' | hp'
        · exact ⟨p', .inl (List.mem_append_left _ hp'), rfl, rfl⟩
        · rcases List.mem_cons.mp hp' with rfl | hp'
          · exact ⟨p, .inl (List.mem_append_right _ List.mem_cons_self), p.masked_name, p.masked_nameOff⟩
          · exact ⟨p', .inl (List.mem_append_right _ (List.mem_cons_of_mem _ hp')), rfl, rfl⟩
      · exact ⟨p', .inl hp', rfl, rfl⟩
    · obtain ⟨p, hp, heq⟩ := ihc _ p' hp'
      exact ⟨p, .inr (.inl hp), heq⟩
    · obtain ⟨p, hp, heq⟩ := ihr _ p' hp'
      exact ⟨p, .inr (.inr hp), heq⟩

section Blob

variable {m : Memory} {fdt mask : Word} {f : Forest}

theorem Blob.structBlock_eq {m' : Memory} (h : Blob m fdt f)
    (hframe : ∀ b, ¬ Within (structBlock m fdt) f.block.length b → m' b = m b) :
    structBlock m' fdt = structBlock m fdt := by
  rw [structBlock, structBlock, header_congr (by omega) fun b hb => hframe b (h.apart_header b hb)]

/-- A tree in which the harts of the mask are hidden is not spoilt. -/
theorem HidesHarts.not_spoilt {m' : Memory} (h : Blob m fdt f) (hhides : HidesHarts m m' fdt mask f) :
    ¬ Spoilt m fdt mask f m' := by
  rintro ⟨v, hv, hmasks, hnot, s, hs, hne⟩
  have hstruct := hhides.blob.struct
  rw [h.structBlock_eq hhides.frame, Forest.block, holds_append, ← place_zero (structBlock m fdt)] at hstruct
  exact hne (status_of_maskHarts f hstruct.1 v hv hmasks hnot s hs)

/-- **What `filter_harts` leaves** if nothing fails and nothing is spoilt. -/
theorem Blob.hidesHarts (h : Blob m fdt f) (hsound : ∀ v ∈ Blob.nodes m fdt f, v.Sound m (structBlock m fdt) mask)
    (hhidden : ∀ v ∈ Blob.nodes m fdt f, ToMask mask v.cells v.props → v.Masks m (structBlock m fdt) mask) :
    HidesHarts m (hideAll m (structBlock m fdt) mask (Blob.nodes m fdt f) m) fdt mask f := by
  have hlength := h.length_lt
  have hsize := f.length_block
  have hbounds := f.nodes_bounds (structBlock m fdt) [] .fresh none 0
  have hframe : ∀ b, ¬ Within (structBlock m fdt) f.block.length b →
      hideAll m (structBlock m fdt) mask (Blob.nodes m fdt f) m b = m b := fun b hb =>
    hideAll_of_ne hsound hbounds fun i _ hi heq => hb (heq ▸ within_add (by omega) (by omega))
  have hstruct := h.struct
  rw [Forest.block, holds_append, f.length_encode, ← place_zero (structBlock m fdt), place_add,
    Nat.zero_add] at hstruct
  have hencode := (holds_maskHarts_iff f hsound hstruct.1 (by omega)).mpr hhidden
  have hend := (holds_hideAll_iff hsound hbounds
    (.inr (by omega)) (by omega) (by rw [length_be32]; omega)).mpr hstruct.2
  have hblob : Blob (hideAll m (structBlock m fdt) mask (Blob.nodes m fdt f) m) fdt (f.maskHarts mask none) := by
    refine h.replace (f.size_maskHarts none) (f.names_maskHarts none) ?_ hframe
    rw [Forest.block, holds_append, Forest.length_encode, f.size_maskHarts]
    rw [place_zero] at hencode
    exact ⟨hencode, hend⟩
  exact ⟨hblob, hblob.sees, f.snd_trace none 0, hframe⟩

/-- `filter_harts` hides the harts of the mask exactly if nothing fails, and what it hides is what is to be
hidden. -/
theorem filtersHarts_iff_sound (h : Blob m fdt f) (hcomplete : f.HartsComplete) :
    FiltersHarts m fdt mask f ↔ ∀ v ∈ Blob.nodes m fdt f, v.Sound m (structBlock m fdt) mask ∧
      (ToMask mask v.cells v.props → v.Masks m (structBlock m fdt) mask) := by
  have hblock : f.block.drop 0 = f.encode ++ 0 :: [0, 0, 9] := List.drop_zero
  have hbehind : Behind m (structBlock m fdt) 0 m := fun b _ => rfl
  have hnodes : ∀ v ∈ f.nodes (structBlock m fdt) [] .fresh none 0, v ∈ Blob.nodes m fdt f := fun v hv => hv
  have houtcome := h.hart_run f hcomplete (fun p hp => hp) hblock hbehind hnodes
    ⟨false, 0, none, mask⟩ rfl
  have hsafe := h.hart_safe f hcomplete (fun p hp => hp) hblock hbehind hnodes
    ⟨false, 0, none, mask⟩ rfl
  constructor
  · intro hfilters
    obtain ⟨m', hm', hhides⟩ := hfilters f.need le_rfl
    obtain ⟨s', hscan, rfl⟩ := Option.map_eq_some_iff.mp hm'
    have hnot := hhides.not_spoilt h
    have hrun := (h.scan_agrees absorbing_spoilt le_rfl hsafe).resolve_right fun hbad => hnot (hbad.2 s' hscan)
    have hsound : ∀ v ∈ Blob.nodes m fdt f, v.Sound m (structBlock m fdt) mask := by
      by_contra hbad
      simp only [not_forall] at hbad
      obtain ⟨v, hv, hbad⟩ := hbad
      exact hnot (houtcome.spoilt ⟨v, hv, hbad⟩ s' (hrun.symm.trans hscan))
    obtain ⟨e', -, hrun'⟩ := houtcome.sound hsound
    have hs' := Option.some.inj (hrun'.symm.trans (hrun.symm.trans hscan))
    have hstruct := hhides.blob.struct
    have hbefore := h.struct
    have hlength := h.length_lt
    have hsize := f.length_block
    rw [h.structBlock_eq hhides.frame, Forest.block, holds_append, ← place_zero (structBlock m fdt),
      ← hs'] at hstruct
    rw [Forest.block, holds_append, ← place_zero (structBlock m fdt)] at hbefore
    exact fun v hv => ⟨hsound v hv, (holds_maskHarts_iff f hsound hbefore.1 (by omega)).mp hstruct.1 v hv⟩
  · intro hall k hk
    have hsound := fun v hv => (hall v hv).1
    obtain ⟨e', -, hrun⟩ := houtcome.sound hsound
    have hscan := (h.scan_agrees absorbing_spoilt hk hsafe).resolve_right ?_
    · refine ⟨_, ?_, h.hidesHarts hsound fun v hv => (hall v hv).2⟩
      rw [filterHarts, hscan, Blob.trace, hrun]
      rfl
    · rintro ⟨⟨s, v, hv, hmasks, hnot, -⟩, -⟩
      exact hnot ((hsound v hv).2 hmasks)

/-- **`filter_harts` hides the harts of the mask** exactly if all harts are what they seem. -/
theorem filtersHarts_iff (h : Blob m fdt f) (hcomplete : f.HartsComplete) :
    FiltersHarts m fdt mask f ↔ HartsRight m fdt mask f :=
  (filtersHarts_iff_sound h hcomplete).trans
    (forall₂_congr fun v hv => (NodeAt.right_iff (Forest.nodes_complete hcomplete v hv)).symm)

end Blob

/-! ### Hart 64 -/

/-- A tree that has one hart. -/
def hartTree : Forest :=
  .cons 0 rootName []
    (.cons 0 cpusName [cellsProp addressCellsName 0 1, cellsProp sizeCellsName 15 0]
      (.cons 0 ⟨ascii "cpu", by decide⟩
        [⟨0, deviceTypeName, 27, ascii "cpu" ++ [0], by decide, by decide⟩, cellsProp regName 39 64,
          ⟨0, statusName, 43, okayBytes, by decide, by decide⟩] (.nil 0) (.nil 0))
      (.nil 0))
    (.nil 0)

/-- Its strings block. -/
def hartStrings : List Byte :=
  addressCellsName.1 ++ 0 ::
    (sizeCellsName.1 ++ 0 :: (deviceTypeName.1 ++ 0 :: (regName.1 ++ 0 :: (statusName.1 ++ [0]))))

/-- Its blob. -/
def hartMemory : Memory := Memory.put (fun _ => 0) 0x82200000 (assemble hartTree hartStrings)

theorem blob_hart : Blob hartMemory 0x82200000 hartTree :=
  blob_assemble _ _ (by decide +kernel) (by decide +kernel) _ _

theorem complete_hart : hartTree.HartsComplete := by
  have hnone : ¬ IsCpu [] := by decide
  have hcpus : ¬ IsCpu [cellsProp addressCellsName 0 1, cellsProp sizeCellsName 15 0] := by decide
  exact ⟨fun h => absurd h hnone,
    ⟨fun h => absurd h hcpus, ⟨fun _ => by decide, trivial, trivial⟩, trivial⟩, trivial⟩

theorem filtersHarts_iff_hart :
    FiltersHarts hartMemory 0x82200000 1 hartTree ↔ HartsRight hartMemory 0x82200000 1 hartTree :=
  filtersHarts_iff blob_hart complete_hart

/-- It is hidden with a mask that has hart 0. -/
theorem not_filtersHarts : ¬ FiltersHarts hartMemory 0x82200000 1 hartTree := by
  rw [filtersHarts_iff_sound blob_hart complete_hart]
  have hmasks : ∃ v ∈ Blob.nodes hartMemory 0x82200000 hartTree,
      v.Masks hartMemory (structBlock hartMemory 0x82200000) 1 ∧ ¬ ToMask 1 v.cells v.props := by
    decide +kernel
  obtain ⟨v, hv, hmasks, hnot⟩ := hmasks
  exact fun h => hnot ((h v hv).1.2 hmasks)

end Fdt

end Sanctum
