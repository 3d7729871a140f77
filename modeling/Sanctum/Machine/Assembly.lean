import Sanctum.Machine.Memory
import Mathlib.Logic.Function.Basic
import Mathlib.Logic.Relation

/-!
# RV64 assembly text

A hart executing assembly text: labels, the instructions after each, and calls to functions
that are linked in from elsewhere. A `Source` says what labels, tables, control registers and
outside functions a text has; an `Image` says where the linker has put it. Nothing here
depends on any particular text.

An outside function is whatever it does to the hart: it returns to the instruction after the
call, or jumps to a label of the text, or does neither (`Outside`).

## What is proved

* `steps_line` — a stretch of instructions that only compute is run as `execs` says.
* `Steps.resumed_unique` — a hart resumes in one way only.
* `StepsUntil.unique` — it gets to the first place of a kind in one way only.
* `execs_stores`, `execs_loads` — storing registers into a frame, and loading them from it.
-/

namespace Sanctum

namespace Assembly

/-- A register, by number. -/
abbrev Reg := Fin 32

/-- There is a register, so that each may be written as a number. -/
instance neZero_regs : NeZero 32 := ⟨by decide⟩

/-! ### Instructions -/

/-- What a text refers to. -/
structure Source where
  /-- Its labels. -/
  Label : Type
  /-- Its tables of addresses. -/
  Table : Type
  /-- The control registers it uses. -/
  Csr : Type
  /-- The functions it calls that are not in it. -/
  Function : Type

/-- An instruction or pseudo-instruction. -/
inductive Instr (S : Source) where
  /-- `li rd, imm`. -/
  | li (rd : Reg) (imm : Word)
  /-- `la rd, table`. -/
  | la (rd : Reg) (table : S.Table)
  /-- `mv rd, rs`. -/
  | mv (rd rs : Reg)
  /-- `neg rd, rs`. -/
  | neg (rd rs : Reg)
  /-- `addi rd, rs, imm`. -/
  | addi (rd rs : Reg) (imm : Word)
  /-- `andi rd, rs, imm`. -/
  | andi (rd rs : Reg) (imm : Word)
  /-- `slli rd, rs, shamt`. -/
  | slli (rd rs : Reg) (shamt : ℕ)
  /-- `srli rd, rs, shamt`. -/
  | srli (rd rs : Reg) (shamt : ℕ)
  /-- `add rd, rs1, rs2`. -/
  | add (rd rs1 rs2 : Reg)
  /-- `and rd, rs1, rs2`. -/
  | and (rd rs1 rs2 : Reg)
  /-- `or rd, rs1, rs2`. -/
  | or (rd rs1 rs2 : Reg)
  /-- `ld rd, offset(rs)`. -/
  | ld (rd : Reg) (offset : Word) (rs : Reg)
  /-- `lwu rd, offset(rs)`. -/
  | lwu (rd : Reg) (offset : Word) (rs : Reg)
  /-- `sd rs2, offset(rs1)`. -/
  | sd (rs2 : Reg) (offset : Word) (rs1 : Reg)
  /-- `sw rs2, offset(rs1)`. -/
  | sw (rs2 : Reg) (offset : Word) (rs1 : Reg)
  /-- `amoswap.w rd, rs2, (rs1)`. -/
  | amoswapW (rd rs2 rs1 : Reg)
  /-- `csrr rd, csr`. -/
  | csrr (rd : Reg) (csr : S.Csr)
  /-- `csrw csr, rs`. -/
  | csrw (csr : S.Csr) (rs : Reg)
  /-- `csrrw rd, csr, rs`. -/
  | csrrw (rd : Reg) (csr : S.Csr) (rs : Reg)
  /-- `csrs csr, rs`. -/
  | csrs (csr : S.Csr) (rs : Reg)
  /-- `csrsi csr, imm`. -/
  | csrsi (csr : S.Csr) (imm : Word)
  /-- `csrc csr, rs`. -/
  | csrc (csr : S.Csr) (rs : Reg)
  /-- `fence`. -/
  | fence
  /-- `fence.i`. -/
  | fenceI
  /-- `sfence.vma`. -/
  | sfenceVma
  /-- `beqz rs, label`. -/
  | beqz (rs : Reg) (label : S.Label)
  /-- `bgez rs, label`. -/
  | bgez (rs : Reg) (label : S.Label)
  /-- `j label`, or the text goes on at `label`. -/
  | j (label : S.Label)
  /-- `jr rs`. -/
  | jr (rs : Reg)
  /-- `call label`. -/
  | call (label : S.Label)
  /-- `call` of a function that is not in the text. -/
  | callOutside (f : S.Function)
  /-- `ret`. -/
  | ret
  /-- `mret`. -/
  | mret

variable {S : Source}

/-- A hart: its registers, its control registers, and memory. -/
@[ext]
structure Hart (S : Source) where
  /-- The registers. What is said of register `0` counts for nothing. -/
  reg : Reg → Word
  /-- The control registers. -/
  csr : S.Csr → Word
  /-- Memory. -/
  mem : Memory

namespace Hart

/-- The value of a register. -/
def get (h : Hart S) (r : Reg) : Word := if r = 0 then 0 else h.reg r

/-- Set a register. -/
def set (h : Hart S) (r : Reg) (v : Word) : Hart S := { h with reg := Function.update h.reg r v }

@[simp] theorem get_zero (h : Hart S) : h.get 0 = 0 := rfl

/-- Setting a register leaves the others alone. -/
theorem get_set_of_ne {h : Hart S} {r r' : Reg} {v : Word} (hr : r' ≠ r) : (h.set r v).get r' = h.get r' := by
  rw [get, get, set]
  dsimp only
  rw [Function.update_of_ne hr]

theorem get_set_self {h : Hart S} {r : Reg} {v : Word} (hr : r ≠ 0) : (h.set r v).get r = v := by
  rw [get, set, if_neg hr]
  exact Function.update_self ..

@[simp] theorem csr_set (h : Hart S) (r : Reg) (v : Word) : (h.set r v).csr = h.csr := rfl

@[simp] theorem mem_set (h : Hart S) (r : Reg) (v : Word) : (h.set r v).mem = h.mem := rfl

end Hart

/-! ### An image -/

/-- Where the linker has put a text and its tables. -/
structure Image (text : S.Label → List (Instr S)) where
  /-- The address of the `k`-th instruction after a label. -/
  address : S.Label → ℕ → Word
  /-- Which instruction is at an address. -/
  locate : Word → S.Label × ℕ
  /-- Instructions are where they have been put. -/
  locate_address : ∀ l k, k < (text l).length → locate (address l k) = (l, k)
  /-- The address of a table. -/
  table : S.Table → Word

/-- What a function outside the text comes to. -/
inductive Outcome (S : Source) where
  /-- It returns. -/
  | returned (h : Hart S)
  /-- It jumps to a label of the text. -/
  | jumped (label : S.Label) (h : Hart S)
  /-- Neither. -/
  | never

/-- What the functions outside the text do. -/
abbrev Outside (S : Source) := S.Function → Hart S → Outcome S

variable [DecidableEq S.Csr] {text : S.Label → List (Instr S)} (img : Image text) (outside : Outside S)

/-- What an instruction that only computes does. An atomic operation needs an aligned address. -/
def Instr.exec : Instr S → Hart S → Option (Hart S)
  | li rd imm, h => some (h.set rd imm)
  | la rd t, h => some (h.set rd (img.table t))
  | mv rd rs, h => some (h.set rd (h.get rs))
  | neg rd rs, h => some (h.set rd (-h.get rs))
  | addi rd rs imm, h => some (h.set rd (h.get rs + imm))
  | andi rd rs imm, h => some (h.set rd (h.get rs &&& imm))
  | slli rd rs n, h => some (h.set rd (h.get rs <<< n))
  | srli rd rs n, h => some (h.set rd (h.get rs >>> n))
  | add rd rs1 rs2, h => some (h.set rd (h.get rs1 + h.get rs2))
  | and rd rs1 rs2, h => some (h.set rd (h.get rs1 &&& h.get rs2))
  | or rd rs1 rs2, h => some (h.set rd (h.get rs1 ||| h.get rs2))
  | ld rd offset rs, h => some (h.set rd (h.mem.load64 (h.get rs + offset)))
  | lwu rd offset rs, h => some (h.set rd ((h.mem.load32 (h.get rs + offset)).setWidth 64))
  | sd rs2 offset rs1, h => some { h with mem := h.mem.store64 (h.get rs1 + offset) (h.get rs2) }
  | sw rs2 offset rs1, h =>
    some { h with mem := h.mem.store32 (h.get rs1 + offset) ((h.get rs2).setWidth 32) }
  | amoswapW rd rs2 rs1, h =>
    let a := h.get rs1
    if a.toNat % 4 = 0 then
      some (Hart.set { h with mem := h.mem.store32 a ((h.get rs2).setWidth 32) } rd ((h.mem.load32 a).signExtend 64))
    else none
  | csrr rd c, h => some (h.set rd (h.csr c))
  | csrw c rs, h => some { h with csr := Function.update h.csr c (h.get rs) }
  | csrrw rd c rs, h => some (Hart.set { h with csr := Function.update h.csr c (h.get rs) } rd (h.csr c))
  | csrs c rs, h => some { h with csr := Function.update h.csr c (h.csr c ||| h.get rs) }
  | csrsi c imm, h => some { h with csr := Function.update h.csr c (h.csr c ||| imm) }
  | csrc c rs, h => some { h with csr := Function.update h.csr c (h.csr c &&& ~~~h.get rs) }
  | fence, h | fenceI, h | sfenceVma, h => some h
  | _, _ => none

/-- Instructions that only compute, one after the other. -/
def execs : List (Instr S) → Hart S → Option (Hart S)
  | [], h => some h
  | i :: is, h => (i.exec img h).bind (execs is)

/-! ### What instructions leave alone -/

/-- The register an instruction that only computes sets. -/
def Instr.dest : Instr S → Option Reg
  | li rd _ | la rd _ | mv rd _ | neg rd _ | addi rd _ _ | andi rd _ _ | slli rd _ _ | srli rd _ _ | add rd _ _
  | and rd _ _ | or rd _ _ | ld rd _ _ | lwu rd _ _ | amoswapW rd _ _ | csrr rd _ | csrrw rd _ _ => some rd
  | _ => none

/-- The control register it sets. -/
def Instr.destCsr : Instr S → Option S.Csr
  | csrw c _ | csrrw _ c _ | csrs c _ | csrsi c _ | csrc c _ => some c
  | _ => none

/-- Whether it stores. -/
def Instr.stores : Instr S → Bool
  | sd _ _ _ | sw _ _ _ | amoswapW _ _ _ => true
  | _ => false

variable {img}

theorem Instr.get_of_exec {i : Instr S} {h h' : Hart S} {r : Reg} (hi : i.exec img h = some h')
    (hr : i.dest ≠ some r) : h'.get r = h.get r := by
  cases i with
  | li rd _ | la rd _ | mv rd _ | neg rd _ | addi rd _ _ | andi rd _ _ | slli rd _ _ | srli rd _ _ | add rd _ _
  | and rd _ _ | or rd _ _ | ld rd _ _ | lwu rd _ _ | csrr rd _ | csrrw rd _ _ =>
    obtain rfl := Option.some.inj hi
    exact Hart.get_set_of_ne fun e => hr (congrArg some e.symm)
  | amoswapW rd rs2 rs1 =>
    dsimp only [exec] at hi
    split at hi
    · obtain rfl := Option.some.inj hi
      exact Hart.get_set_of_ne fun e => hr (congrArg some e.symm)
    · nomatch hi
  | sd _ _ _ | sw _ _ _ | csrw _ _ | csrs _ _ | csrsi _ _ | csrc _ _ | fence | fenceI | sfenceVma =>
    obtain rfl := Option.some.inj hi
    rfl
  | beqz _ _ | bgez _ _ | j _ | jr _ | call _ | callOutside _ | ret | mret => exact absurd hi (by simp [exec])

theorem Instr.csr_of_exec {i : Instr S} {h h' : Hart S} {c : S.Csr} (hi : i.exec img h = some h')
    (hc : i.destCsr ≠ some c) : h'.csr c = h.csr c := by
  cases i with
  | csrw _ _ | csrrw _ _ _ | csrs _ _ | csrsi _ _ | csrc _ _ =>
    obtain rfl := Option.some.inj hi
    exact Function.update_of_ne (fun e => hc (congrArg some e.symm)) ..
  | amoswapW rd rs2 rs1 =>
    dsimp only [exec] at hi
    split at hi
    · obtain rfl := Option.some.inj hi
      rfl
    · nomatch hi
  | li _ _ | la _ _ | mv _ _ | neg _ _ | addi _ _ _ | andi _ _ _ | slli _ _ _ | srli _ _ _ | add _ _ _ | and _ _ _
  | or _ _ _ | ld _ _ _ | lwu _ _ _ | csrr _ _ | sd _ _ _ | sw _ _ _ | fence | fenceI | sfenceVma =>
    obtain rfl := Option.some.inj hi
    rfl
  | beqz _ _ | bgez _ _ | j _ | jr _ | call _ | callOutside _ | ret | mret => exact absurd hi (by simp [exec])

theorem Instr.mem_of_exec {i : Instr S} {h h' : Hart S} (hi : i.exec img h = some h') (hs : i.stores = false) :
    h'.mem = h.mem := by
  cases i with
  | sd _ _ _ | sw _ _ _ | amoswapW _ _ _ => nomatch hs
  | li _ _ | la _ _ | mv _ _ | neg _ _ | addi _ _ _ | andi _ _ _ | slli _ _ _ | srli _ _ _ | add _ _ _ | and _ _ _
  | or _ _ _ | ld _ _ _ | lwu _ _ _ | csrr _ _ | csrw _ _ | csrrw _ _ _ | csrs _ _ | csrsi _ _ | csrc _ _ | fence
  | fenceI | sfenceVma =>
    obtain rfl := Option.some.inj hi
    rfl
  | beqz _ _ | bgez _ _ | j _ | jr _ | call _ | callOutside _ | ret | mret => exact absurd hi (by simp [exec])

/-- What each instruction of a stretch keeps, the stretch keeps. -/
theorem execs_keeps {α : Type} {f : Hart S → α} {is : List (Instr S)} {h h' : Hart S}
    (hrun : execs img is h = some h')
    (hkeep : ∀ i ∈ is, ∀ h h', i.exec img h = some h' → f h' = f h) : f h' = f h := by
  induction is generalizing h with
  | nil =>
    obtain rfl : h = h' := Option.some.inj hrun
    rfl
  | cons i is ih =>
    obtain ⟨g, hi, hrun⟩ := Option.bind_eq_some_iff.mp hrun
    have hrest := ih hrun fun j hj => hkeep j (List.mem_cons_of_mem _ hj)
    exact hrest.trans (hkeep i List.mem_cons_self _ _ hi)

theorem get_of_execs {is : List (Instr S)} {h h' : Hart S} {r : Reg} (hrun : execs img is h = some h')
    (hr : r ∉ is.filterMap Instr.dest) : h'.get r = h.get r :=
  execs_keeps (f := fun h => h.get r) hrun fun i hi _ _ hexec =>
    Instr.get_of_exec hexec fun e => hr (List.mem_filterMap.mpr ⟨i, hi, e⟩)

theorem csr_of_execs {is : List (Instr S)} {h h' : Hart S} {c : S.Csr} (hrun : execs img is h = some h')
    (hc : c ∉ is.filterMap Instr.destCsr) : h'.csr c = h.csr c :=
  execs_keeps (f := fun h => h.csr c) hrun fun i hi _ _ hexec =>
    Instr.csr_of_exec hexec fun e => hc (List.mem_filterMap.mpr ⟨i, hi, e⟩)

theorem mem_of_execs {is : List (Instr S)} {h h' : Hart S} (hrun : execs img is h = some h')
    (hs : is.any Instr.stores = false) : h'.mem = h.mem :=
  execs_keeps (f := Hart.mem) hrun fun i hi _ _ hexec =>
    Instr.mem_of_exec hexec (by simpa using List.any_eq_false.mp hs i hi)

/-! ### Running -/

/-- Where a hart is. -/
inductive Config (S : Source) where
  /-- Before the `k`-th instruction after a label. -/
  | running (label : S.Label) (k : ℕ) (h : Hart S)
  /-- Back from the trap. -/
  | resumed (h : Hart S)

variable (img)

/-- Where an instruction leads. -/
def stepAt (l : S.Label) (k : ℕ) (h : Hart S) : Instr S → Option (Config S)
  | .beqz rs l' => some (if h.get rs = 0 then .running l' 0 h else .running l (k + 1) h)
  | .bgez rs l' => some (if (h.get rs).msb = false then .running l' 0 h else .running l (k + 1) h)
  | .j l' => some (.running l' 0 h)
  | .jr rs => some (.running (img.locate (h.get rs)).1 (img.locate (h.get rs)).2 h)
  | .call l' => some (.running l' 0 (h.set 1 (img.address l (k + 1))))
  | .callOutside f =>
    match outside f (h.set 1 (img.address l (k + 1))) with
    | .returned h' => some (.running l (k + 1) h')
    | .jumped l' h' => some (.running l' 0 h')
    | .never => none
  | .ret => some (.running (img.locate (h.get 1)).1 (img.locate (h.get 1)).2 h)
  | .mret => some (.resumed h)
  | i => (i.exec img h).map (.running l (k + 1))

/-- One instruction. -/
def step : Config S → Option (Config S)
  | .running l k h => ((text l)[k]?).bind (stepAt img outside l k h)
  | .resumed _ => none

/-- From one configuration to another. -/
def Steps : Config S → Config S → Prop := Relation.ReflTransGen fun c c' => step img outside c = some c'

variable {img outside}

theorem stepAt_of_exec {l : S.Label} {k : ℕ} {h h' : Hart S} {i : Instr S} (hi : i.exec img h = some h') :
    stepAt img outside l k h i = some (.running l (k + 1) h') := by
  cases i <;> first
    | exact congrArg (Option.map (Config.running l (k + 1))) hi
    | exact absurd hi (by simp [Instr.exec])

namespace Steps

variable {c c' c'' : Config S} {l : S.Label} {k : ℕ} {h h' : Hart S}

theorem refl (c : Config S) : Steps img outside c c := Relation.ReflTransGen.refl

theorem trans (h : Steps img outside c c') (h' : Steps img outside c' c'') : Steps img outside c c'' :=
  Relation.ReflTransGen.trans h h'

/-- One step, known what instruction is there. -/
theorem one {i : Instr S} (hi : (text l)[k]? = some i) (hc : stepAt img outside l k h i = some c) :
    Steps img outside (.running l k h) c :=
  .single (by rw [step, hi, Option.bind_some, hc])

section Jumps

variable {rs : Reg} {l' : S.Label}

theorem beqz_taken (hi : (text l)[k]? = some (.beqz rs l')) (hrs : h.get rs = 0) :
    Steps img outside (.running l k h) (.running l' 0 h) :=
  one hi (congrArg some (if_pos hrs))

theorem beqz_passed (hi : (text l)[k]? = some (.beqz rs l')) (hrs : h.get rs ≠ 0) :
    Steps img outside (.running l k h) (.running l (k + 1) h) :=
  one hi (congrArg some (if_neg hrs))

theorem bgez_taken (hi : (text l)[k]? = some (.bgez rs l')) (hrs : (h.get rs).msb = false) :
    Steps img outside (.running l k h) (.running l' 0 h) :=
  one hi (congrArg some (if_pos hrs))

theorem bgez_passed (hi : (text l)[k]? = some (.bgez rs l')) (hrs : (h.get rs).msb = true) :
    Steps img outside (.running l k h) (.running l (k + 1) h) :=
  one hi (congrArg some (if_neg (by simp [hrs])))

theorem j (hi : (text l)[k]? = some (.j l')) : Steps img outside (.running l k h) (.running l' 0 h) := one hi rfl

/-- A jump to where the linker has put an instruction. -/
theorem jr {k' : ℕ} (hi : (text l)[k]? = some (.jr rs)) (hk : k' < (text l').length)
    (hrs : h.get rs = img.address l' k') : Steps img outside (.running l k h) (.running l' k' h) := by
  refine one hi ?_
  rw [stepAt, hrs, img.locate_address l' k' hk]

theorem call (hi : (text l)[k]? = some (.call l')) :
    Steps img outside (.running l k h) (.running l' 0 (h.set 1 (img.address l (k + 1)))) :=
  one hi rfl

/-- A return to where the linker has put an instruction. -/
theorem ret {k' : ℕ} (hi : (text l)[k]? = some .ret) (hk : k' < (text l').length)
    (hra : h.get 1 = img.address l' k') : Steps img outside (.running l k h) (.running l' k' h) := by
  refine one hi ?_
  rw [stepAt, hra, img.locate_address l' k' hk]

theorem callOutside_returned {f : S.Function} (hi : (text l)[k]? = some (.callOutside f))
    (hf : outside f (h.set 1 (img.address l (k + 1))) = .returned h') :
    Steps img outside (.running l k h) (.running l (k + 1) h') :=
  one hi (by rw [stepAt, hf])

theorem mret (hi : (text l)[k]? = some .mret) : Steps img outside (.running l k h) (.resumed h) := one hi rfl

end Jumps

/-- **A stretch of instructions that only compute** is run as `execs` says. -/
theorem line (is : List (Instr S)) {rest : List (Instr S)} (hline : (text l).drop k = is ++ rest)
    (hrun : execs img is h = some h') : Steps img outside (.running l k h) (.running l (k + is.length) h') := by
  induction is generalizing k h with
  | nil =>
    obtain rfl : h = h' := Option.some.inj hrun
    exact refl _
  | cons i is ih =>
    obtain ⟨g, hi, hrun⟩ := Option.bind_eq_some_iff.mp hrun
    have hhere : (text l)[k]? = some i := by
      rw [← List.head?_drop, hline]
      rfl
    have hrest : (text l).drop (k + 1) = is ++ rest := by
      rw [← List.tail_drop, hline]
      rfl
    have hgo := (one hhere (stepAt_of_exec hi)).trans (ih hrest hrun)
    rwa [show k + 1 + is.length = k + (i :: is).length by rw [List.length_cons]; omega] at hgo

/-- What a hart comes through does not change how it resumes. -/
theorem resumed_iff {c c' : Config S} {h : Hart S} (hc : Steps img outside c c') :
    Steps img outside c (.resumed h) ↔ Steps img outside c' (.resumed h) := by
  have hdet : Relator.RightUnique fun c c' : Config S => step img outside c = some c' :=
    fun _ _ _ e e' => Option.some.inj (e.symm.trans e')
  refine ⟨fun h1 => ?_, hc.trans⟩
  rcases Relation.ReflTransGen.total_of_right_unique hdet h1 hc with h12 | h21
  · rcases Relation.ReflTransGen.cases_head h12 with rfl | ⟨d, hd, -⟩
    · exact refl _
    · nomatch hd
  · exact h21

/-- **A hart resumes in one way only.** -/
theorem resumed_unique (h1 : Steps img outside c (.resumed h)) (h2 : Steps img outside c (.resumed h')) :
    h = h' := by
  rcases Relation.ReflTransGen.cases_head ((resumed_iff h1).mp h2) with e | ⟨d, hd, -⟩
  · exact Config.resumed.inj e
  · nomatch hd

end Steps

/-! ### Up to the first place of a kind -/

variable (img outside)

/-- From one configuration to another, without going on from one where `stop` holds. -/
def StepsUntil (stop : Config S → Prop) : Config S → Config S → Prop :=
  Relation.ReflTransGen fun c c' => ¬ stop c ∧ step img outside c = some c'

variable {img outside}

namespace StepsUntil

variable {stop : Config S → Prop} {c c' c'' : Config S} {l l' : S.Label} {k : ℕ} {h h' : Hart S}

theorem trans (h : StepsUntil img outside stop c c') (h' : StepsUntil img outside stop c' c'') :
    StepsUntil img outside stop c c'' :=
  Relation.ReflTransGen.trans h h'

/-- One step, known what instruction is there. -/
theorem one {i : Instr S} (hstop : ¬ stop (.running l k h)) (hi : (text l)[k]? = some i)
    (hc : stepAt img outside l k h i = some c) : StepsUntil img outside stop (.running l k h) c :=
  .single ⟨hstop, by rw [step, hi, Option.bind_some, hc]⟩

/-- A stretch of instructions that only compute. -/
theorem line (is : List (Instr S)) {rest : List (Instr S)}
    (hstop : ∀ n < is.length, ∀ g, ¬ stop (.running l (k + n) g))
    (hline : (text l).drop k = is ++ rest) (hrun : execs img is h = some h') :
    StepsUntil img outside stop (.running l k h) (.running l (k + is.length) h') := by
  induction is generalizing k h with
  | nil =>
    obtain rfl : h = h' := Option.some.inj hrun
    exact Relation.ReflTransGen.refl
  | cons i is ih =>
    obtain ⟨g, hi, hrun⟩ := Option.bind_eq_some_iff.mp hrun
    have hhere : (text l)[k]? = some i := by
      rw [← List.head?_drop, hline]
      rfl
    have hrest : (text l).drop (k + 1) = is ++ rest := by
      rw [← List.tail_drop, hline]
      rfl
    have hlater : ∀ n < is.length, ∀ g, ¬ stop (.running l (k + 1 + n) g) := by
      intro n hn g
      rw [Nat.add_assoc, Nat.add_comm 1 n]
      exact hstop (n + 1) (Nat.succ_lt_succ hn) g
    have hfirst : StepsUntil img outside stop (.running l k h) (.running l (k + 1) g) :=
      one (hstop 0 (Nat.succ_pos _) h) hhere (stepAt_of_exec hi)
    have hgo := hfirst.trans (ih hlater hrest hrun)
    rwa [show k + 1 + is.length = k + (i :: is).length by rw [List.length_cons]; omega] at hgo

/-- The first such place is one. -/
theorem unique (h1 : StepsUntil img outside stop c c') (h2 : StepsUntil img outside stop c c'')
    (hc' : stop c') (hc'' : stop c'') : c' = c'' := by
  have hdet : Relator.RightUnique fun c c' : Config S => ¬ stop c ∧ step img outside c = some c' :=
    fun _ _ _ e e' => Option.some.inj (e.2.symm.trans e'.2)
  rcases Relation.ReflTransGen.total_of_right_unique hdet h1 h2 with h12 | h21
  · rcases Relation.ReflTransGen.cases_head h12 with e | ⟨d, hd, -⟩
    · exact e
    · exact absurd hc' hd.1
  · rcases Relation.ReflTransGen.cases_head h21 with e | ⟨d, hd, -⟩
    · exact e.symm
    · exact absurd hc'' hd.1

end StepsUntil

/-! ### Frames -/

/-- Where a frame at `f` has register `r`. -/
def slot (f : Word) (r : Reg) : Word := f + BitVec.ofNat 64 (8 * r.val)

/-- Slots do not overlap. -/
theorem apart_slot {f : Word} {r r' : Reg} (h : r ≠ r') : Memory.Apart (slot f r) 8 (slot f r') 8 := by
  rcases Nat.lt_or_gt_of_ne fun e => h (Fin.ext e) with hlt | hlt
  · exact Memory.apart_add (by omega) (by omega)
  · exact (Memory.apart_add (by omega) (by omega)).symm

theorem load_store_slot (m : Memory) (f v : Word) (r r' : Reg) :
    (m.store64 (slot f r) v).load64 (slot f r') = if r' = r then v else m.load64 (slot f r') := by
  split
  · next h => rw [h, Memory.load64_store64_self]
  · next h => exact Memory.load64_store64_of_apart (apart_slot h)

/-- Store registers into the frame at `rs`. -/
def stores (rs : Reg) (regs : List Reg) : List (Instr S) :=
  regs.map fun r => .sd r (BitVec.ofNat 64 (8 * r.val)) rs

/-- Load registers from the frame at `rs`. -/
def loads (rs : Reg) (regs : List Reg) : List (Instr S) :=
  regs.map fun r => .ld r (BitVec.ofNat 64 (8 * r.val)) rs

/-- Memory after registers have been stored. -/
def storedMem (h : Hart S) (f : Word) (regs : List Reg) (m : Memory) : Memory :=
  regs.foldl (fun m r => m.store64 (slot f r) (h.get r)) m

omit [DecidableEq S.Csr] in
/-- The slots after that. -/
theorem load_storedMem (h : Hart S) (f : Word) (regs : List Reg) (m : Memory) (r : Reg) :
    (storedMem h f regs m).load64 (slot f r) = if r ∈ regs then h.get r else m.load64 (slot f r) := by
  induction regs generalizing m with
  | nil => rfl
  | cons q regs ih =>
    rw [storedMem, List.foldl_cons, ← storedMem, ih, load_store_slot]
    by_cases hr : r ∈ regs
    · rw [if_pos hr, if_pos (List.mem_cons_of_mem _ hr)]
    · rw [if_neg hr]
      by_cases hq : r = q
      · rw [if_pos hq, if_pos (by rw [hq]; exact List.mem_cons_self), hq]
      · rw [if_neg hq, if_neg (by rw [List.mem_cons]; exact not_or.mpr ⟨hq, hr⟩)]

/-- A slot is in its frame. -/
theorem within_frame {f x : Word} {r : Reg} (h : Memory.Within (slot f r) 8 x) : Memory.Within f 256 x :=
  h.of_add (by omega) (by omega)

omit [DecidableEq S.Csr] in
/-- Memory outside of the frame. -/
theorem storedMem_of_not_within (h : Hart S) {f a : Word} (ha : ¬ Memory.Within f 256 a) (regs : List Reg)
    (m : Memory) : storedMem h f regs m a = m a := by
  induction regs generalizing m with
  | nil => rfl
  | cons q regs ih =>
    rw [storedMem, List.foldl_cons, ← storedMem, ih]
    exact Memory.store64_of_not_within fun hw => ha (within_frame hw)

theorem execs_stores (rs : Reg) (regs : List Reg) (h : Hart S) :
    execs img (stores rs regs) h = some { h with mem := storedMem h (h.get rs) regs h.mem } := by
  have key : ∀ (regs : List Reg) (m : Memory), execs img (stores rs regs) { h with mem := m } =
      some { h with mem := storedMem h (h.get rs) regs m } := by
    intro regs
    induction regs with
    | nil => exact fun _ => rfl
    | cons q regs ih => exact fun m => ih _
  exact key regs h.mem

/-- A hart after registers have been loaded. -/
def loadedHart (h : Hart S) (f : Word) (regs : List Reg) : Hart S :=
  { h with reg := fun r => if r ∈ regs then h.mem.load64 (slot f r) else h.reg r }

theorem execs_loads {rs : Reg} {regs : List Reg} (hrs : rs ∉ regs) (h : Hart S) :
    execs img (loads rs regs) h = some (loadedHart h (h.get rs) regs) := by
  induction regs generalizing h with
  | nil => rfl
  | cons q regs ih =>
    rw [List.mem_cons, not_or] at hrs
    have hfirst : execs img (loads rs (q :: regs)) h =
        execs img (loads rs regs) (h.set q (h.mem.load64 (slot (h.get rs) q))) := rfl
    rw [hfirst, ih hrs.2, Hart.get_set_of_ne hrs.1]
    congr 1
    ext1
    · funext r
      dsimp only [loadedHart, Hart.set]
      by_cases hr : r ∈ regs
      · rw [if_pos hr, if_pos (List.mem_cons_of_mem _ hr)]
      · rw [if_neg hr]
        by_cases hq : r = q
        · rw [if_pos (by rw [hq]; exact List.mem_cons_self), hq, Function.update_self]
        · rw [if_neg (by rw [List.mem_cons]; exact not_or.mpr ⟨hq, hr⟩), Function.update_of_ne hq]
    · rfl
    · rfl

end Assembly

end Sanctum
