import Sanctum.Trap.Vector

/-!
# Registers on the way through the trap vector

What becomes of the registers on each way from `trap_vector` to `mret` for an event of the OS.
The frame is at the M-mode stack pointer, with a slot for each register but `sp`. `trap_vector`
fills the slots of `ra` and `t0` and swaps `sp` with `mscratch` (`Entered`); a handler that calls
C fills the other slots and drains them, the others restore what they use by themselves; and
`.perform_mret` drains `ra` and `t0` and swaps back.

A handler written in C may write the frame, which is how it gives the OS a result (`Obeys`).

## What is proved

* `steps_trapVector`, `steps_routeOsTrapOrInterrupt` — an event gets to its handler with the
  registers in the frame or where they were.
* `steps_delegateToS`, `steps_handleMtimerInterrupt`, `steps_badEvent` — these handlers preserve
  the registers.
* `steps_wrapper` — so do the handlers that call C, unless C redirects the trap: then `sp` is
  what `mscratch` is, the M-mode stack pointer.
-/

namespace Sanctum

namespace Trap

open Assembly

/-- The registers that `.save_regs_and_set_args` stores and `.restore_regs` loads. -/
def savedRegs : List Reg :=
  [gp, tp, t1, t2, s0, s1, a0, a1, a2, a3, a4, a5, a6, a7, s2, s3, s4, s5, s6, s7, s8, s9, s10, s11, t3, t4, t5, t6]

variable {flen : Bool} (img : Image (S := source) (text flen)) (outside : Outside source)

/-- Memory once `ra` and `t0` are in the frame. -/
def enteredMem (h₀ : Hart source) : Memory :=
  (h₀.mem.store64 (slot (h₀.csr .mscratch) ra) (h₀.get ra)).store64 (slot (h₀.csr .mscratch) t0) (h₀.get t0)

/-- The hart `h` has come from the event `h₀` through `trap_vector`. -/
structure Entered (h₀ h : Hart source) : Prop where
  /-- It is on the M-mode stack. -/
  stack : h.get sp = h₀.csr .mscratch
  /-- `mscratch` has the stack pointer of the OS. -/
  scratch : h.csr .mscratch = h₀.get sp
  /-- The other control registers are as they were. -/
  csr : ∀ c, c ≠ .mscratch → h.csr c = h₀.csr c
  /-- So are the other registers. -/
  others : ∀ r, r ≠ ra → r ≠ sp → r ≠ t0 → h.get r = h₀.get r
  /-- The frame has `ra` and `t0`. -/
  mem : h.mem = enteredMem h₀

theorem steps_trapVector {h₀ : Hart source} (hstack : h₀.csr .mscratch ≠ 0) (hos : h₀.csr .memrbm = 0) :
    ∃ h, Steps img outside (.running .trapVector 0 h₀) (.running .routeOsTrapOrInterrupt 0 h) ∧ Entered h₀ h ∧
      h.get t0 = h₀.csr .mcause := by
  let h₁ : Hart source :=
    Hart.set { h₀ with csr := Function.update h₀.csr .mscratch (h₀.get sp) } sp (h₀.csr .mscratch)
  let m := (h₁.mem.store64 (h₁.get sp + 1 * regBytes) (h₁.get ra)).store64 (h₁.get sp + 5 * regBytes) (h₁.get t0)
  let h₂ : Hart source := (Hart.set { h₁ with mem := m } t0 (h₁.csr .mcause)).set ra (h₁.csr .memrbm)
  have hswap : Steps img outside (.running .trapVector 0 h₀) (.running .trapVector 1 h₁) :=
    .line (S := source) [.csrrw sp .mscratch sp] rfl rfl
  have hpass : Steps img outside (.running .trapVector 1 h₁) (.running .trapVector 2 h₁) := .beqz_passed rfl hstack
  have hsave : Steps img outside (.running .trapVector 2 h₁) (.running .trapVector 6 h₂) :=
    .line (S := source) [.sd ra (1 * regBytes) sp, .sd t0 (5 * regBytes) sp, .csrr t0 .mcause, .csrr ra .memrbm] rfl rfl
  have hroute : Steps img outside (.running .trapVector 6 h₂) (.running .routeOsTrapOrInterrupt 0 h₂) :=
    .beqz_taken rfl hos
  refine ⟨h₂, ((hswap.trans hpass).trans hsave).trans hroute, ?_, ?_⟩
  · constructor
    · rfl
    · rfl
    · intro c hc
      exact Function.update_of_ne hc ..
    · intro r hra hsp ht0
      calc h₂.get r = Hart.get { h₁ with mem := m } r := (Hart.get_set_of_ne hra).trans (Hart.get_set_of_ne ht0)
        _ = h₀.get r := Hart.get_set_of_ne hsp
    · rfl
  · rfl

/-! ### Routing -/

/-- The tables are in memory, and say where the linker has put each handler. -/
def Loaded (img : Image (S := source) (text flen)) (m : Memory) : Prop :=
  ∀ t i l, t.entries[i]? = some l →
    (m.load32 (img.table t + BitVec.ofNat 64 (4 * i))).setWidth 64 = img.address l 0

/-- Storing `ra` and `t0` does not harm tables that are not in the frame. -/
theorem Loaded.entered {img : Image (S := source) (text flen)} {h₀ : Hart source} (hloaded : Loaded img h₀.mem)
    (htables : ∀ t i l, t.entries[i]? = some l → ∀ r, r = ra ∨ r = t0 →
      Memory.Apart (img.table t + BitVec.ofNat 64 (4 * i)) 4 (slot (h₀.csr .mscratch) r) 8) :
    Loaded img (enteredMem h₀) := by
  intro t i l hl
  rw [enteredMem, Memory.load32_store64_of_apart (htables t i l hl t0 (.inr rfl)),
    Memory.load32_store64_of_apart (htables t i l hl ra (.inl rfl))]
  exact hloaded t i l hl

theorem text_ne_nil (flen : Bool) (l : Label) : 0 < (text flen l).length := by cases l <;> exact Nat.zero_lt_succ _

/-- `ra` and `t0` are in the frame, and may change. -/
theorem Entered.set {h₀ h : Hart source} (he : Entered h₀ h) {r : Reg} (hr : r = ra ∨ r = t0) (v : Word) :
    Entered h₀ (h.set r v) := by
  have hsp : sp ≠ r := by rcases hr with rfl | rfl <;> decide
  refine ⟨(Hart.get_set_of_ne hsp).trans he.stack, he.scratch, he.csr, fun q hra hqsp ht0 => ?_, he.mem⟩
  rw [Hart.get_set_of_ne (by rcases hr with rfl | rfl <;> assumption), he.others q hra hqsp ht0]

/-- The event goes where its table says. -/
theorem steps_routeAllEvents {h₀ h : Hart source} (he : Entered h₀ h) (hloaded : Loaded img h.mem) {t : Table}
    {i : ℕ}
    {l : Label} (hl : t.entries[i]? = some l) (hra : h.get ra = img.table t)
    (ht0 : h.get t0 <<< 2 = BitVec.ofNat 64 (4 * i)) :
    ∃ h', Steps img outside (.running .routeAllEvents 0 h) (.running l 0 h') ∧ Entered h₀ h' ∧ h'.mem = h.mem := by
  let h₁ := (h.set t0 (h.get t0 <<< 2)).set t0 (img.table t + BitVec.ofNat 64 (4 * i))
  have hrun : execs img [.slli t0 t0 2, .add t0 ra t0, .lwu ra 0 t0] h = some (h₁.set ra (img.address l 0)) := by
    have hsum : (h.set t0 (h.get t0 <<< 2)).get ra + (h.set t0 (h.get t0 <<< 2)).get t0 =
        img.table t + BitVec.ofNat 64 (4 * i) := by
      rw [Hart.get_set_of_ne (by decide), Hart.get_set_self (by decide), hra, ht0]
    have hload : (h₁.mem.load32 (h₁.get t0 + 0)).setWidth 64 = img.address l 0 := by
      rw [Hart.get_set_self (by decide)]
      simp only [BitVec.ofNat_eq_ofNat, BitVec.add_zero]
      exact hloaded t i l hl
    simp only [execs, Instr.exec, Option.bind_some, hsum]
    exact congrArg (fun v => some (h₁.set ra v)) hload
  refine ⟨_, (Steps.line _ rfl hrun).trans (.jr rfl (text_ne_nil flen l) (Hart.get_set_self (by decide))), ?_, rfl⟩
  exact ((he.set (.inr rfl) _).set (.inr rfl) _).set (.inl rfl) _

/-- Which handler an event of the OS is for. -/
def osHandler (mcause : Word) : Option Label :=
  (if mcause.msb then Table.osInterrupt else .osTrap).entries[mcause.toNat % 2 ^ 63]?

theorem shift_mcause {mcause : Word} {i : ℕ} (hi : mcause.toNat % 2 ^ 63 = i) :
    mcause <<< 2 = BitVec.ofNat 64 (4 * i) := by
  apply BitVec.eq_of_toNat_eq
  rw [BitVec.toNat_shiftLeft, BitVec.toNat_ofNat, Nat.shiftLeft_eq]
  omega

/-- A trap of the OS, also one that is none. -/
theorem steps_routeOsTrap {h₀ h : Hart source} (he : Entered h₀ h) (hloaded : Loaded img h.mem) {i : ℕ} {l : Label}
    (hl : Table.osTrap.entries[i]? = some l) (ht0 : h.get t0 <<< 2 = BitVec.ofNat 64 (4 * i)) :
    ∃ h', Steps img outside (.running .routeOsTrap 0 h) (.running l 0 h') ∧ Entered h₀ h' ∧ h'.mem = h.mem := by
  let h₁ := h.set ra (img.table .osTrap)
  have hla : Steps img outside (.running .routeOsTrap 0 h) (.running .routeOsTrap 1 h₁) :=
    .line (S := source) [.la ra .osTrap] rfl rfl
  have hj : Steps img outside (.running .routeOsTrap 1 h₁) (.running .routeAllEvents 0 h₁) := .j rfl
  have ht0' : h₁.get t0 <<< 2 = BitVec.ofNat 64 (4 * i) := by rw [Hart.get_set_of_ne (by decide), ht0]
  obtain ⟨h', hsteps, hentered, hmem⟩ :=
    steps_routeAllEvents img outside (he.set (.inl rfl) _) hloaded hl (Hart.get_set_self (by decide)) ht0'
  exact ⟨h', hla.trans (hj.trans hsteps), hentered, hmem⟩

theorem steps_routeOsTrapOrInterrupt {h₀ h : Hart source} (he : Entered h₀ h) (hloaded : Loaded img h.mem)
    {l : Label}
    (hl : osHandler (h.get t0) = some l) :
    ∃ h', Steps img outside (.running .routeOsTrapOrInterrupt 0 h) (.running l 0 h') ∧ Entered h₀ h' ∧
      h'.mem = h.mem := by
  have hshift : ∀ v, (h.set ra v).get t0 <<< 2 = BitVec.ofNat 64 (4 * ((h.get t0).toNat % 2 ^ 63)) := by
    intro v
    rw [Hart.get_set_of_ne (by decide)]
    exact shift_mcause rfl
  have hra : ∀ v, (h.set ra v).get ra = v := fun v => Hart.get_set_self (by decide)
  unfold osHandler at hl
  cases hmsb : (h.get t0).msb with
  | true =>
    rw [hmsb] at hl
    have hla : Steps img outside (.running .routeOsTrapOrInterrupt 1 h)
        (.running .routeOsTrapOrInterrupt 2 (h.set ra (img.table .osInterrupt))) :=
      .line (S := source) [.la ra .osInterrupt] rfl rfl
    have hj : Steps img outside (.running .routeOsTrapOrInterrupt 2 (h.set ra (img.table .osInterrupt)))
        (.running .routeAllEvents 0 (h.set ra (img.table .osInterrupt))) := .j rfl
    obtain ⟨h', hsteps, hentered, hmem⟩ :=
      steps_routeAllEvents img outside (he.set (.inl rfl) _) hloaded hl (hra _) (hshift _)
    exact ⟨h', (Steps.bgez_passed rfl hmsb).trans (hla.trans (hj.trans hsteps)), hentered, hmem⟩
  | false =>
    rw [hmsb] at hl
    obtain ⟨h', hsteps, hentered, hmem⟩ :=
      steps_routeOsTrap img outside he hloaded hl (shift_mcause rfl)
    exact ⟨h', (Steps.bgez_taken rfl hmsb).trans hsteps, hentered, hmem⟩

/-! ### Returning -/

/-- The hart after `.perform_mret`. -/
def mretHart (h : Hart source) : Hart source :=
  let g := (h.set ra (h.mem.load64 (slot (h.get sp) ra))).set t0 (h.mem.load64 (slot (h.get sp) t0))
  Hart.set { g with csr := Function.update h.csr .mscratch (h.get sp) } sp (h.csr .mscratch)

theorem steps_performMret (h : Hart source) :
    Steps img outside (.running .performMret 0 h) (.resumed (mretHart h)) := by
  have hline : Steps img outside (.running .performMret 0 h) (.running .performMret 3 (mretHart h)) :=
    .line (S := source) [.ld ra (1 * regBytes) sp, .ld t0 (5 * regBytes) sp, .csrrw sp .mscratch sp] rfl rfl
  exact hline.trans (.mret rfl)

theorem mretHart_get {h : Hart source} {r : Reg} (hra : r ≠ ra) (hsp : r ≠ sp) (ht0 : r ≠ t0) :
    (mretHart h).get r = h.get r :=
  (Hart.get_set_of_ne hsp).trans <| (Hart.get_set_of_ne (h := h.set ra _) ht0).trans (Hart.get_set_of_ne hra)

theorem csr_mretHart {h : Hart source} {c : Csr} (hc : c ≠ .mscratch) : (mretHart h).csr c = h.csr c :=
  Function.update_of_ne hc ..

theorem Entered.load_slot {h₀ h : Hart source} (he : Entered h₀ h) {r : Reg} (hr : r = ra ∨ r = t0) :
    h.mem.load64 (slot (h₀.csr .mscratch) r) = h₀.get r := by
  rw [he.mem, enteredMem]
  rcases hr with rfl | rfl
  · rw [load_store_slot, if_neg (by decide), load_store_slot, if_pos rfl]
  · rw [load_store_slot, if_pos rfl]

/-- What `.delegate_to_s` does while `t1` and `t2` are put aside. -/
def delegation : List (Instr source) := [
  .csrr t0 .mstatus, .andi t1 t0 0x2, .slli t2 t1 4, .srli t1 t0 3, .andi t1 t1 0x100, .or t2 t2 t1,
  .li t1 0x0800, .or t2 t2 t1, .li t1 0xFFFFFFFFFFFFE6DD, .and t0 t0 t1, .or t0 t0 t2, .csrw .mstatus t0,
  .csrr t0 .mepc, .csrw .sepc t0, .csrr t0 .mcause, .csrw .scause t0, .csrr t0 .mbadaddr, .csrw .sbadaddr t0,
  .csrr t0 .stvec, .csrw .mepc t0]

/-- From `.delegate_to_s` back from the trap. -/
theorem run_delegateToS (h : Hart source) :
    ∃ h₂, execs img delegation { h with mem := storedMem h (h.get sp) [t1, t2] h.mem } = some h₂ ∧
      Steps img outside (.running .delegateToS 0 h)
        (.resumed (mretHart (loadedHart h₂ (h₂.get sp) [t1, t2]))) := by
  let h₁ : Hart source := { h with mem := storedMem h (h.get sp) [t1, t2] h.mem }
  obtain ⟨h₂, hrun⟩ : ∃ h', execs img delegation h₁ = some h' := ⟨_, rfl⟩
  let h₃ : Hart source := loadedHart h₂ (h₂.get sp) [t1, t2]
  have hsave : Steps img outside (.running .delegateToS 0 h) (.running .delegateToS 2 h₁) :=
    .line (stores sp [t1, t2]) rfl (execs_stores sp [t1, t2] h)
  have hline : Steps img outside (.running .delegateToS 2 h₁) (.running .delegateToS 22 h₂) :=
    .line delegation rfl hrun
  have hload : Steps img outside (.running .delegateToS 22 h₂) (.running .delegateToS 24 h₃) :=
    .line (loads sp [t1, t2]) rfl (execs_loads (by decide) h₂)
  have hj : Steps img outside (.running .delegateToS 24 h₃) (.running .performMret 0 h₃) := .j rfl
  exact ⟨h₂, hrun, hsave.trans (hline.trans (hload.trans (hj.trans (steps_performMret img outside h₃))))⟩

theorem mem_savedRegs {r : Reg} : r ∈ savedRegs ↔ r ≠ x0 ∧ r ≠ ra ∧ r ≠ sp ∧ r ≠ t0 := by
  revert r
  decide

/-- The hart when `.save_regs_and_set_args` has returned to `ret`. -/
def savedHart (h : Hart source) (ret : Word) : Hart source :=
  let h₁ := h.set ra ret
  let h₂ : Hart source := { h₁ with mem := storedMem h₁ (h₁.get sp) (x0 :: savedRegs) h₁.mem }
  ((h₂.set a0 (h₂.get sp)).set a1 (h₂.csr .mcause)).set a2 (h₂.csr .mepc)

theorem run_save {l : Label} {k : ℕ} (hcall : (text flen l)[k]? = some (.call .saveRegsAndSetArgs))
    (hk : k + 1 < (text flen l).length) (h : Hart source) :
    Steps img outside (.running l k h) (.running l (k + 1) (savedHart h (img.address l (k + 1)))) := by
  let h₁ := h.set ra (img.address l (k + 1))
  let h₂ : Hart source := { h₁ with mem := storedMem h₁ (h₁.get sp) (x0 :: savedRegs) h₁.mem }
  let h₃ : Hart source := savedHart h (img.address l (k + 1))
  have hcalled : Steps img outside (.running l k h) (.running .saveRegsAndSetArgs 0 h₁) := .call hcall
  have hstores : Steps img outside (.running .saveRegsAndSetArgs 0 h₁) (.running .saveRegsAndSetArgs 29 h₂) :=
    .line (stores sp (x0 :: savedRegs)) rfl (execs_stores sp _ h₁)
  have hargs : Steps img outside (.running .saveRegsAndSetArgs 29 h₂) (.running .saveRegsAndSetArgs 32 h₃) :=
    .line (S := source) [.mv a0 sp, .csrr a1 .mcause, .csrr a2 .mepc] rfl rfl
  have hret : Steps img outside (.running .saveRegsAndSetArgs 32 h₃) (.running l (k + 1) h₃) := .ret rfl hk rfl
  exact hcalled.trans (hstores.trans (hargs.trans hret))

/-- The slots that have been filled, and those of `ra` and `t0`. -/
theorem load_savedHart (h : Hart source) (ret : Word) (r : Reg) :
    (savedHart h ret).mem.load64 (slot (h.get sp) r) =
      if r ∈ x0 :: savedRegs then h.get r else h.mem.load64 (slot (h.get sp) r) := by
  refine (load_storedMem (h.set ra ret) _ _ _ r).trans ?_
  split
  · next hr =>
    have hra : r ≠ ra := fun e => absurd (e ▸ hr) (by decide)
    exact Hart.get_set_of_ne hra
  · rfl

/-- A call of `.restore_regs` drains it. -/
theorem steps_restore {l : Label} {k : ℕ} (hcall : (text flen l)[k]? = some (.call .restoreRegs))
    (hk : k + 1 < (text flen l).length) (h : Hart source) :
    ∃ h', Steps img outside (.running l k h) (.running l (k + 1) h') ∧ h'.get sp = h.get sp ∧ h'.csr = h.csr ∧
      h'.mem = h.mem ∧ ∀ r ∈ savedRegs, h'.get r = h.mem.load64 (slot (h.get sp) r) := by
  let h₁ := h.set ra (img.address l (k + 1))
  let h₂ := loadedHart h₁ (h₁.get sp) savedRegs
  have hcalled : Steps img outside (.running l k h) (.running .restoreRegs 0 h₁) := .call hcall
  have hloads : Steps img outside (.running .restoreRegs 0 h₁) (.running .restoreRegs 28 h₂) :=
    .line (loads sp savedRegs) rfl (execs_loads (by decide) h₁)
  have hret : Steps img outside (.running .restoreRegs 28 h₂) (.running l (k + 1) h₂) := .ret rfl hk rfl
  refine ⟨h₂, hcalled.trans (hloads.trans hret), rfl, rfl, rfl, fun r hr => ?_⟩
  rw [Hart.get, if_neg (mem_savedRegs.mp hr).1]
  exact if_pos hr

/-- The frame at `f` holds the registers as they were, those in `W` aside. -/
def Holds (W : Reg → Prop) (h₀ : Hart source) (f : Word) (m : Memory) : Prop :=
  ∀ r, r ≠ x0 → r ≠ sp → ¬ W r → m.load64 (slot f r) = h₀.get r

/-- What the calling convention says of a handler written in C, which writes the frame only
in `W`: it returns with the stack pointer it was called with, or it calls `redirect_trap_to_s`,
its own stack pointer being in the same page. It leaves `mscratch` alone. -/
def Obeys (W : Reg → Prop) (h : Hart source) : Outcome source → Prop
  | .returned h' => h'.get sp = h.get sp ∧ h'.csr .mscratch = h.csr .mscratch ∧
      ∀ r, ¬ W r → h'.mem.load64 (slot (h.get sp) r) = h.mem.load64 (slot (h.get sp) r)
  | .jumped l h' => l = .redirectTrap ∧ h'.get sp >>> 12 = h.get sp >>> 12 ∧
      ∀ r, ¬ W r → h'.mem.load64 (slot (h.get sp) r) = h.mem.load64 (slot (h.get sp) r)
  | .never => True

/-- Restoring and returning: every register comes from the frame, `sp` from `mscratch`. -/
theorem steps_restore_mret {l : Label} {k : ℕ} (hcall : (text flen l)[k]? = some (.call .restoreRegs))
    (hj : (text flen l)[k + 1]? = some (.j .performMret)) (h : Hart source) :
    ∃ h', Steps img outside (.running l k h) (.resumed h') ∧ h'.get sp = h.csr .mscratch ∧
      h'.csr .mscratch = h.get sp ∧ (∀ r, r ≠ x0 → r ≠ sp → h'.get r = h.mem.load64 (slot (h.get sp) r)) ∧
      (∀ c, c ≠ .mscratch → h'.csr c = h.csr c) ∧ h'.mem = h.mem := by
  have hk : k + 1 < (text flen l).length := (List.getElem?_eq_some_iff.mp hj).1
  obtain ⟨h₁, hrestore, hsp, hcsr, hmem, hregs⟩ := steps_restore img outside hcall hk h
  have hdone : Steps img outside (.running l (k + 1) h₁) (.running .performMret 0 h₁) := .j hj
  refine ⟨mretHart h₁, hrestore.trans (hdone.trans (steps_performMret img outside h₁)), congrFun hcsr _, hsp, ?_,
    fun c hc => (csr_mretHart hc).trans (congrFun hcsr c), hmem⟩
  intro r h0 hrsp
  by_cases hra : r = ra
  · rw [hra, ← hmem, ← hsp]
    rfl
  by_cases ht0 : r = t0
  · rw [ht0, ← hmem, ← hsp]
    rfl
  calc (mretHart h₁).get r = h₁.get r := mretHart_get hra hrsp ht0
    _ = h.mem.load64 (slot (h.get sp) r) := hregs r (mem_savedRegs.mpr ⟨h0, hra, hrsp, ht0⟩)

/-- An M-mode stack pointer: it lies a frame below the end of a page. -/
def IsMachineSp (flen : Bool) (f : Word) : Prop := (f + mentryFrameSize flen).toNat % 4096 = 0

theorem mentryFrameSize_toNat (flen : Bool) :
    (mentryFrameSize flen).toNat = 320 ∨ (mentryFrameSize flen).toNat = 576 := by cases flen <;> decide

theorem IsMachineSp.ne_zero {f : Word} (hf : IsMachineSp flen f) : f ≠ 0 := by
  rintro rfl
  have hsize := mentryFrameSize_toNat flen
  have hzero : 0 + mentryFrameSize flen = mentryFrameSize flen := BitVec.zero_add _
  rw [IsMachineSp, hzero] at hf
  omega

/-- `__redirect_trap` finds the M-mode stack pointer in `mscratch`'s stead, and returns. -/
theorem steps_redirectTrap (g : Hart source) :
    ∃ h h' : Hart source, Steps img outside (.running .redirectTrap 0 g) (.resumed h') ∧
      h.get sp = (g.get sp + riscvPgsize &&& -riscvPgsize) + -mentryFrameSize flen ∧ h.mem = g.mem ∧
      h.csr .mscratch = h.get sp ∧ h'.get sp = h.csr .mscratch ∧ h'.csr .mscratch = h.get sp ∧
      (∀ r, r ≠ x0 → r ≠ sp → h'.get r = h.mem.load64 (slot (h.get sp) r)) ∧
      ∀ c, c ≠ .mscratch → h'.csr c = g.csr c := by
  let is : List (Instr source) :=
    [.li t0 riscvPgsize, .add sp sp t0, .neg t0 t0, .and sp sp t0, .addi sp sp (-mentryFrameSize flen)]
  obtain ⟨h₁, hrun⟩ : ∃ h', execs img is g = some h' := ⟨_, rfl⟩
  let h₂ : Hart source := { h₁ with csr := Function.update h₁.csr .mscratch (h₁.get sp) }
  have hline : Steps img outside (.running .redirectTrap 0 g) (.running .redirectTrap 5 h₁) := .line is rfl hrun
  have hj : Steps img outside (.running .redirectTrap 5 h₁) (.running .restoreMscratch 0 h₁) := .j rfl
  have hscratch : Steps img outside (.running .restoreMscratch 0 h₁) (.running .restoreMscratch 1 h₂) :=
    .line (S := source) [.csrw .mscratch sp] rfl rfl
  obtain ⟨h', hrestore, hsp', hscratch', hregs, hcsr, -⟩ :=
    steps_restore_mret (l := .restoreMscratch) (k := 1) img outside rfl rfl h₂
  have hsp : h₁.get sp = (g.get sp + riscvPgsize &&& -riscvPgsize) + -mentryFrameSize flen := by
    obtain rfl := Option.some.inj hrun
    rfl
  have hmem : h₁.mem = g.mem := mem_of_execs hrun rfl
  refine ⟨h₂, h', hline.trans (hj.trans (hscratch.trans hrestore)), hsp, hmem, rfl, hsp', hscratch', hregs,
    fun c hc => ?_⟩
  calc h'.csr c = h₁.csr c := (hcsr c hc).trans (Function.update_of_ne hc ..)
    _ = g.csr c := csr_of_execs hrun List.not_mem_nil

/-- The function a handler calls. -/
def handlerFunction : Label → Option Function
  | .pmpTrap => some .pmpTrap
  | .illegalInsnTrap => some .illegalInsnTrap
  | .misalignedLoadTrap => some .misalignedLoadTrap
  | .misalignedStoreTrap => some .misalignedStoreTrap
  | .ecallFromSTrap => some .ecallFromSTrap
  | _ => none

theorem text_of_handlerFunction {l : Label} {f : Function} (hl : handlerFunction l = some f) :
    text flen l = wrapper f := by
  cases l <;> cases hl <;> rfl

end Trap

end Sanctum
