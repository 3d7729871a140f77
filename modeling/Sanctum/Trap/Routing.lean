import Sanctum.Trap.Preservation

/-!
# Routing

Where the jump of `trap_vector` goes. An event that M-mode has not caused itself goes to the entry of one
of the four tables, which is chosen by `0x7c4` and `mcause`. `.Ltrap_from_machine_mode` is to go to the
handler of such events in C; it sets `a1`, which was the index once, and joins the way of the traps of the
OS, whose index is `t0`, a register of what has been interrupted.

## What is proved

* `routesTo_iff` — where an event goes.
* `routing_iff` — two events that differ in their registers go to the same handler, the right one, exactly
  if they are not M-mode's, or if the words that `t0` has them find happen to hold its address.
* `not_routing` — two events of M-mode.
-/

namespace Sanctum

namespace Trap

open Assembly
open Memory (Apart)

variable {flen : Bool} (img : Image (S := source) (text flen)) (outside : Outside source)

/-! ### The jump -/

/-- Before the jump to the handler. -/
def AtJump (c : Assembly.Config source) : Prop := ∃ h, c = .running .routeAllEvents 3 h

theorem not_atJump {l : Label} {k : ℕ} (h : l ≠ .routeAllEvents ∨ k ≠ 3) (g : Hart source) :
    ¬ AtJump (.running l k g) := by
  rintro ⟨g', heq⟩
  injection heq with hl hk
  exact h.elim (fun hne => hne hl) fun hne => hne hk

/-- `trap_vector` jumps to the address `a`. -/
def RoutesTo (h₀ : Hart source) (a : Word) : Prop :=
  ∃ h, StepsUntil img outside AtJump (.running .trapVector 0 h₀) (.running .routeAllEvents 3 h) ∧ h.get ra = a

/-- The table for an event. -/
def eventTable (memrbm mcause : Word) : Table :=
  if memrbm = 0 then if mcause.msb then .osInterrupt else .osTrap
  else if mcause.msb then .enclaveInterrupt else .enclaveTrap

/-- The entry for it. -/
def eventHandler (memrbm mcause : Word) : Option Label :=
  (eventTable memrbm mcause).entries[mcause.toNat % 2 ^ 63]?

/-- Memory when `.Ltrap_from_machine_mode` has stored two registers below the stack pointer. -/
def machineMem (h₀ : Hart source) : Memory :=
  (h₀.mem.store64 (slot (h₀.get sp + -integerContextSize) a0) (h₀.get a0)).store64
    (slot (h₀.get sp + -integerContextSize) a1) (h₀.get a1)

/-- The word in memory that `t0` has an event of M-mode find. -/
def machineEntry (h₀ : Hart source) : Word :=
  ((machineMem h₀).load32 (img.table .osTrap + h₀.get t0 <<< 2)).setWidth 64

/-- Where an event goes. -/
def routed (h₀ : Hart source) : Word :=
  if h₀.csr .mscratch = 0 then machineEntry img h₀
  else ((enteredMem h₀).load32 (img.table (eventTable (h₀.csr .memrbm) (h₀.csr .mcause)) +
    h₀.csr .mcause <<< 2)).setWidth 64

/-! ### The way there -/

variable {outside}

/-- A stretch of instructions before the jump. -/
theorem until_line {l : Label} {k : ℕ} {h h' : Hart source} (is : List (Instr source)) {rest : List (Instr source)}
    (hline : (text flen l).drop k = is ++ rest) (hrun : execs img is h = some h')
    (hl : l ≠ .routeAllEvents ∨ k + is.length ≤ 3) :
    StepsUntil img outside AtJump (.running l k h) (.running l (k + is.length) h') :=
  .line is (fun n hn g => not_atJump (hl.imp id fun hle => by omega) g) hline hrun

/-- An instruction of another label. -/
theorem until_one {l : Label} {k : ℕ} {h : Hart source} {c : Assembly.Config source} {i : Instr source}
    (hl : l ≠ .routeAllEvents) (hi : (text flen l)[k]? = some i) (hc : stepAt img outside l k h i = some c) :
    StepsUntil img outside AtJump (.running l k h) c :=
  .one (not_atJump (.inl hl) h) hi hc

/-- The last instructions. -/
theorem until_jump (h : Hart source) :
    ∃ h', StepsUntil img outside AtJump (.running .routeAllEvents 0 h) (.running .routeAllEvents 3 h') ∧
      h'.get ra = (h.mem.load32 (h.get ra + h.get t0 <<< 2)).setWidth 64 := by
  let is : List (Instr source) := [.slli t0 t0 2, .add t0 ra t0, .lwu ra 0 t0]
  obtain ⟨h', hrun⟩ : ∃ h', execs img is h = some h' := ⟨_, rfl⟩
  refine ⟨h', until_line img is rfl hrun (.inr le_rfl), ?_⟩
  obtain rfl := Option.some.inj hrun
  show (h.mem.load32 (h.get ra + h.get t0 <<< 2 + 0)).setWidth 64 = _
  simp only [BitVec.ofNat_eq_ofNat, BitVec.add_zero]

variable (outside) in
/-- With the table in `ra`. -/
theorem until_table {l : Label} {k : ℕ} {t : Table} (hl : l ≠ .routeAllEvents)
    (htext : (text flen l).drop k = [.la ra t, .j .routeAllEvents]) (h : Hart source) :
    ∃ h', StepsUntil img outside AtJump (.running l k h) (.running .routeAllEvents 3 h') ∧
      h'.get ra = (h.mem.load32 (img.table t + h.get t0 <<< 2)).setWidth 64 := by
  have hla : StepsUntil img outside AtJump (.running l k h) (.running l (k + 1) (h.set ra (img.table t))) :=
    until_line img [.la ra t] htext rfl (.inl hl)
  have hj : (text flen l)[k + 1]? = some (.j .routeAllEvents) := by
    rw [← List.getElem?_drop, htext]
    rfl
  obtain ⟨h', hjump, hra⟩ := until_jump img (h.set ra (img.table t))
  exact ⟨h', hla.trans ((until_one img hl hj rfl).trans hjump), hra⟩

variable (outside) in
/-- With the table for interrupts or that for traps, as the sign of `t0` says. -/
theorem until_tables (interrupts traps : Table) {l l' : Label} {k : ℕ} (hl : l ≠ .routeAllEvents)
    (hl' : l' ≠ .routeAllEvents)
    (htext : (text flen l).drop k = [.bgez t0 l', .la ra interrupts, .j .routeAllEvents])
    (htext' : text flen l' = [.la ra traps, .j .routeAllEvents]) (h : Hart source) :
    ∃ h', StepsUntil img outside AtJump (.running l k h) (.running .routeAllEvents 3 h') ∧
      h'.get ra = (h.mem.load32 (img.table (if (h.get t0).msb then interrupts else traps) + h.get t0 <<< 2)).setWidth 64 := by
  have hbgez : (text flen l)[k]? = some (.bgez t0 l') := by
    rw [← List.head?_drop, htext]
    rfl
  cases hmsb : (h.get t0).msb with
  | true =>
    have hpass : StepsUntil img outside AtJump (.running l k h) (.running l (k + 1) h) :=
      until_one img hl hbgez (congrArg some (if_neg (by rw [hmsb]; decide)))
    have hrest : (text flen l).drop (k + 1) = [.la ra interrupts, .j .routeAllEvents] := by
      rw [← List.tail_drop, htext]
      rfl
    obtain ⟨h', hjump, hra⟩ := until_table img outside hl hrest h
    exact ⟨h', hpass.trans hjump, hra⟩
  | false =>
    have htaken : StepsUntil img outside AtJump (.running l k h) (.running l' 0 h) :=
      until_one img hl hbgez (congrArg some (if_pos hmsb))
    obtain ⟨h', hjump, hra⟩ := until_table (k := 0) img outside hl' htext' h
    exact ⟨h', htaken.trans hjump, hra⟩

/-- An event that is not M-mode's own. -/
theorem until_routed {h₀ : Hart source} (hstack : h₀.csr .mscratch ≠ 0) :
    ∃ h, StepsUntil img outside AtJump (.running .trapVector 0 h₀) (.running .routeAllEvents 3 h) ∧
      h.get ra = ((enteredMem h₀).load32 (img.table (eventTable (h₀.csr .memrbm) (h₀.csr .mcause)) +
        h₀.csr .mcause <<< 2)).setWidth 64 := by
  let h₁ : Hart source :=
    Hart.set { h₀ with csr := Function.update h₀.csr .mscratch (h₀.get sp) } sp (h₀.csr .mscratch)
  let m := (h₁.mem.store64 (h₁.get sp + 1 * regBytes) (h₁.get ra)).store64 (h₁.get sp + 5 * regBytes) (h₁.get t0)
  let h₂ : Hart source := (Hart.set { h₁ with mem := m } t0 (h₁.csr .mcause)).set ra (h₁.csr .memrbm)
  have hswap : StepsUntil img outside AtJump (.running .trapVector 0 h₀) (.running .trapVector 1 h₁) :=
    until_line img [.csrrw sp .mscratch sp] rfl rfl (.inl (by decide))
  have hpass : StepsUntil img outside AtJump (.running .trapVector 1 h₁) (.running .trapVector 2 h₁) :=
    until_one img (by decide) rfl (congrArg some (if_neg hstack))
  have hsave : StepsUntil img outside AtJump (.running .trapVector 2 h₁) (.running .trapVector 6 h₂) :=
    until_line img [.sd ra (1 * regBytes) sp, .sd t0 (5 * regBytes) sp, .csrr t0 .mcause, .csrr ra .memrbm] rfl rfl
      (.inl (by decide))
  have hentered := hswap.trans (hpass.trans hsave)
  by_cases hos : h₀.csr .memrbm = 0
  · have hroute : StepsUntil img outside AtJump (.running .trapVector 6 h₂) (.running .routeOsTrapOrInterrupt 0 h₂) :=
      until_one img (by decide) rfl (congrArg some (if_pos hos))
    obtain ⟨h, hjump, hra⟩ := until_tables (l := .routeOsTrapOrInterrupt) (k := 0) img outside .osInterrupt .osTrap
      (by decide) (by decide) rfl rfl h₂
    refine ⟨h, hentered.trans (hroute.trans hjump), ?_⟩
    rw [eventTable, if_pos hos]
    exact hra
  · have hroute : StepsUntil img outside AtJump (.running .trapVector 6 h₂) (.running .trapVector 7 h₂) :=
      until_one img (by decide) rfl (congrArg some (if_neg hos))
    obtain ⟨h, hjump, hra⟩ := until_tables (l := .trapVector) (k := 7) img outside .enclaveInterrupt .enclaveTrap
      (by decide) (by decide) rfl rfl h₂
    refine ⟨h, hentered.trans (hroute.trans hjump), ?_⟩
    rw [eventTable, if_neg hos]
    exact hra

/-- An event of M-mode. -/
theorem until_routed_machine {h₀ : Hart source} (hstack : h₀.csr .mscratch = 0) :
    ∃ h, StepsUntil img outside AtJump (.running .trapVector 0 h₀) (.running .routeAllEvents 3 h) ∧
      h.get ra = machineEntry img h₀ := by
  let h₁ : Hart source :=
    Hart.set { h₀ with csr := Function.update h₀.csr .mscratch (h₀.get sp) } sp (h₀.csr .mscratch)
  let is : List (Instr source) := [
    .csrr sp .mscratch, .addi sp sp (-integerContextSize), .sd a0 (10 * regBytes) sp, .sd a1 (11 * regBytes) sp,
    .li a1 trapFromMachineModeVector]
  obtain ⟨h₂, hrun⟩ : ∃ h', execs img is h₁ = some h' := ⟨_, rfl⟩
  have hswap : StepsUntil img outside AtJump (.running .trapVector 0 h₀) (.running .trapVector 1 h₁) :=
    until_line img [.csrrw sp .mscratch sp] rfl rfl (.inl (by decide))
  have htaken : StepsUntil img outside AtJump (.running .trapVector 1 h₁) (.running .trapFromMachineMode 0 h₁) :=
    until_one img (by decide) rfl (congrArg some (if_pos hstack))
  have hline : StepsUntil img outside AtJump (.running .trapFromMachineMode 0 h₁) (.running .trapFromMachineMode 5 h₂) :=
    until_line img is rfl hrun (.inl (by decide))
  have hj : StepsUntil img outside AtJump (.running .trapFromMachineMode 5 h₂) (.running .routeOsTrap 0 h₂) :=
    until_one img (by decide) rfl rfl
  obtain ⟨h, hjump, hra⟩ := until_table (k := 0) (t := .osTrap) img outside
    (by decide : Label.routeOsTrap ≠ .routeAllEvents) rfl h₂
  refine ⟨h, hswap.trans (htaken.trans (hline.trans (hj.trans hjump))), ?_⟩
  have ht0 : h₂.get t0 = h₀.get t0 := (get_of_execs hrun (by decide)).trans (Hart.get_set_of_ne (by decide))
  have hmem : h₂.mem = machineMem h₀ := by
    obtain rfl := Option.some.inj hrun
    rfl
  rw [hra, ht0, hmem]
  rfl

variable (outside)

/-- **Where an event goes.** -/
theorem routesTo_iff (h₀ : Hart source) (a : Word) : RoutesTo img outside h₀ a ↔ a = routed img h₀ := by
  obtain ⟨h, hsteps, hra⟩ : ∃ h, StepsUntil img outside AtJump (.running .trapVector 0 h₀)
      (.running .routeAllEvents 3 h) ∧ h.get ra = routed img h₀ := by
    rw [routed]
    split
    · next hstack => exact until_routed_machine img hstack
    · next hstack => exact until_routed img hstack
  constructor
  · rintro ⟨h', hsteps', rfl⟩
    obtain rfl := (Config.running.inj (hsteps'.unique hsteps ⟨h', rfl⟩ ⟨h, rfl⟩)).2.2
    exact hra
  · rintro rfl
    exact ⟨h, hsteps, hra⟩

/-! ### Events -/

/-- The tables are in memory, and have an entry `l` for the event. -/
structure RoutedEvent (img : Image (S := source) (text flen)) (h₀ : Hart source) (l : Label) : Prop where
  /-- The cause is one of the table's. -/
  handler : eventHandler (h₀.csr .memrbm) (h₀.csr .mcause) = some l
  /-- The tables are in memory. -/
  loaded : Loaded img h₀.mem
  /-- They are not in the frame. -/
  tables : h₀.csr .mscratch ≠ 0 → ∀ t i l, t.entries[i]? = some l → ∀ r, r = ra ∨ r = t0 →
    Apart (img.table t + BitVec.ofNat 64 (4 * i)) 4 (slot (h₀.csr .mscratch) r) 8

/-- An event that is not M-mode's goes to the entry for it. -/
theorem RoutedEvent.routed_eq {h₀ : Hart source} {l : Label} (hevent : RoutedEvent img h₀ l)
    (hstack : h₀.csr .mscratch ≠ 0) : routed img h₀ = img.address l 0 := by
  have hl := hevent.handler
  rw [eventHandler] at hl
  have hapart := hevent.tables hstack _ _ l hl
  rw [routed, if_neg hstack, shift_mcause rfl, enteredMem, Memory.load32_store64_of_apart (hapart t0 (.inr rfl)),
    Memory.load32_store64_of_apart (hapart ra (.inl rfl))]
  exact hevent.loaded _ _ l hl

/-- **When routing does not depend on the registers**, the handler of M-mode's events being at
`trapFromMachineMode`. -/
theorem routing_iff {h₁ h₂ : Hart source} {l : Label} (hevent₁ : RoutedEvent img h₁ l)
    (hevent₂ : RoutedEvent img h₂ l)
    (hagree : ∀ c ∈ [Csr.mscratch, .memrbm, .mcause], h₁.csr c = h₂.csr c) (trapFromMachineMode : Word) :
    (∃ a, RoutesTo img outside h₁ a ∧ RoutesTo img outside h₂ a ∧
      a = if h₁.csr .mscratch = 0 then trapFromMachineMode else img.address l 0) ↔
      h₁.csr .mscratch ≠ 0 ∨ machineEntry img h₁ = trapFromMachineMode ∧ machineEntry img h₂ = trapFromMachineMode := by
  have hscratch := hagree .mscratch (by decide)
  simp only [routesTo_iff]
  by_cases hstack : h₁.csr .mscratch = 0
  · have hstack₂ : h₂.csr .mscratch = 0 := hscratch ▸ hstack
    rw [if_pos hstack, routed, if_pos hstack, routed, if_pos hstack₂]
    constructor
    · rintro ⟨a, ha₁, ha₂, ha⟩
      exact .inr ⟨ha₁.symm.trans ha, ha₂.symm.trans ha⟩
    · rintro (hne | ⟨h₁, h₂⟩)
      · exact absurd hstack hne
      · exact ⟨_, h₁.symm, h₂.symm, rfl⟩
  · rw [if_neg hstack, hevent₁.routed_eq img hstack, hevent₂.routed_eq img (hscratch ▸ hstack)]
    exact iff_of_true ⟨_, rfl, rfl, rfl⟩ (.inl hstack)

theorem OsEvent.routedEvent {h₀ : Hart source} {l : Label} (hevent : OsEvent img h₀ l) : RoutedEvent img h₀ l := by
  refine ⟨?_, hevent.loaded, fun _ => hevent.tables⟩
  rw [eventHandler, eventTable, if_pos hevent.os]
  exact hevent.handler

/-- Two ecalls with different arguments. -/
theorem routing_iff_ecall :
    (∃ a, RoutesTo (linked true) returning (eventHart 9 0) a ∧ RoutesTo (linked true) returning (eventHart 9 1) a ∧
      a = if (eventHart 9 0).csr .mscratch = 0 then 0 else (linked true).address .ecallFromSTrap 0) ↔
      (eventHart 9 0).csr .mscratch ≠ 0 ∨
        machineEntry (linked true) (eventHart 9 0) = 0 ∧ machineEntry (linked true) (eventHart 9 1) = 0 :=
  routing_iff (linked true) returning (eventHart_event rfl 0).routedEvent (eventHart_event rfl 1).routedEvent
    (fun _ _ => rfl) 0

/-- A page fault in M-mode, where `t0` is `v`. -/
def machineHart (v : Word) : Hart source where
  reg r := if r = t0 then v else if r = sp then 0x80050000 else 0
  csr c := if c = .mcause then 13 else 0
  mem := tablesMem

/-- Whether `t0` is 0 or 1 decides where a page fault in M-mode goes. -/
theorem not_routing :
    RoutedEvent (linked true) (machineHart 0) .delegateToS ∧ RoutedEvent (linked true) (machineHart 1) .delegateToS ∧
      (∀ c ∈ [Csr.mscratch, .memrbm, .mcause], (machineHart 0).csr c = (machineHart 1).csr c) ∧
      ¬ ∃ a, RoutesTo (linked true) returning (machineHart 0) a ∧ RoutesTo (linked true) returning (machineHart 1) a := by
  have hevent (v : Word) : RoutedEvent (linked true) (machineHart v) .delegateToS := by
    have hhandler : eventHandler 0 13 = some .delegateToS := by decide
    exact ⟨hhandler, loaded_tablesMem, fun hne => absurd rfl hne⟩
  refine ⟨hevent 0, hevent 1, fun _ _ => rfl, ?_⟩
  rintro ⟨a, ha₀, ha₁⟩
  have hsame := ((routesTo_iff _ _ _ _).mp ha₀).symm.trans ((routesTo_iff _ _ _ _).mp ha₁)
  exact absurd hsame (by decide +kernel)

end Trap

end Sanctum
