import Sanctum.Trap.Preservation

/-!
# The two ways of delegating a trap

`.delegate_to_s` and `redirect_trap_to_s` both make an event one of S-mode: they move the M-mode
registers that describe it to those of S-mode, have M-mode return to `stvec`, and update the stack of
privileges and interrupt enables in `mstatus`. `.delegate_to_s` also sets the mode that `mret` goes
back to; `redirect_trap_to_s` leaves it as it is.

## What is proved

* `delegations_agree_iff` — they leave the same in these registers, as it should be, exactly if the trap
  came from S-mode.
* `not_delegations_agree` — a trap from U-mode.
-/

namespace Sanctum

namespace Trap

open Assembly

/-! ### The function in C -/

/-- `MSTATUS_SIE`. -/
def mstatusSie : Word := 0x00000002

/-- `MSTATUS_SPIE`. -/
def mstatusSpie : Word := 0x00000020

/-- `MSTATUS_SPP`. -/
def mstatusSpp : Word := 0x00000100

/-- `MSTATUS_MPP`. -/
def mstatusMpp : Word := 0x00001800

/-- The value that `redirect_trap_to_s` writes to `mstatus`. -/
def redirectedMstatus (mstatus : Word) : Word :=
  let newMstatus := mstatus &&& ~~~(mstatusSpp ||| mstatusSpie ||| mstatusSie)
  let mppS := mstatusMpp &&& mstatusMpp >>> 1
  let newMstatus := newMstatus ||| (mstatus * (mstatusSpie / mstatusSie) &&& mstatusSpie)
  newMstatus ||| (mstatus / (mppS / mstatusSpp) &&& mstatusSpp)

/-- `redirect_trap_to_s`, up to its call of `__redirect_trap`: the control registers. -/
def redirectTrapToS (csr : Csr → Word) (epc mstatus mbadaddr : Word) : Csr → Word :=
  let csr := Function.update csr .sbadaddr mbadaddr
  let csr := Function.update csr .sepc epc
  let csr := Function.update csr .scause (csr .mcause)
  let csr := Function.update csr .mepc (csr .stvec)
  Function.update csr .mstatus (redirectedMstatus mstatus)

/-! ### What is expected -/

/-- The stack of privileges and interrupt enables, for a trap that is taken in S-mode. -/
structure DelegatedMstatus (old new : Word) : Prop where
  /-- S-mode's interrupts are off. -/
  sie : new.getLsbD 1 = false
  /-- They were as they were. -/
  spie : new.getLsbD 5 = old.getLsbD 1
  /-- S-mode's previous mode is the one that trapped. -/
  spp : new.getLsbD 8 = old.getLsbD 11
  /-- M-mode's previous mode is supervisor. -/
  mpp : new.getLsbD 11 = true ∧ new.getLsbD 12 = false
  /-- Everything else is kept. -/
  others : ∀ i, i ∉ [1, 5, 8, 11, 12] → new.getLsbD i = old.getLsbD i

/-- S-mode gets what M-mode had, and M-mode returns to S-mode's handler. -/
structure Delegated (h h' : Hart source) : Prop where
  /-- Privileges and interrupt enables. -/
  mstatus : DelegatedMstatus (h.csr .mstatus) (h'.csr .mstatus)
  /-- M-mode returns to S-mode's handler. -/
  mepc : h'.csr .mepc = h.csr .stvec
  /-- S-mode returns to where M-mode would have. -/
  sepc : h'.csr .sepc = h.csr .mepc
  /-- The cause. -/
  scause : h'.csr .scause = h.csr .mcause
  /-- The address. -/
  sbadaddr : h'.csr .sbadaddr = h.csr .mbadaddr

/-! ### The bits of `mstatus` -/

/-- The value that `.delegate_to_s` writes to `mstatus`. -/
def delegatedMstatus (mstatus : Word) : Word :=
  (mstatus &&& (0xFFFFFFFFFFFFE6DD : Word)) ||| ((mstatus &&& 0x2) <<< 4 ||| (mstatus >>> 3 &&& 0x100) ||| 0x0800)

theorem getLsbD_delegatedMstatus (m : Word) {i : ℕ} (hi : i < 64) :
    (delegatedMstatus m).getLsbD i =
      if i = 5 then m.getLsbD 1 else if i = 8 then m.getLsbD 11 else if i = 11 then true
      else if i = 1 ∨ i = 12 then false else m.getLsbD i := by
  have hmask : ∀ i < 64, (0xFFFFFFFFFFFFE6DD : Word).getLsbD i = decide (i ∉ [1, 5, 8, 11, 12]) := by decide
  have h2 : ∀ i < 64, (0x2 : Word).getLsbD i = decide (i = 1) := by decide
  have h100 : ∀ i < 64, (0x100 : Word).getLsbD i = decide (i = 8) := by decide
  have h800 : ∀ i < 64, (0x0800 : Word).getLsbD i = decide (i = 11) := by decide
  rw [delegatedMstatus, BitVec.getLsbD_or, BitVec.getLsbD_and, hmask i hi, BitVec.getLsbD_or, BitVec.getLsbD_or,
    BitVec.getLsbD_shiftLeft, BitVec.getLsbD_and, h2 (i - 4) (by omega), BitVec.getLsbD_and,
    BitVec.getLsbD_ushiftRight, h100 i hi, h800 i hi]
  by_cases h5 : i = 5
  · subst h5
    simp
  by_cases h8 : i = 8
  · subst h8
    simp
  by_cases h11 : i = 11
  · simp [h11]
  have hfour : ¬ i - 4 = 1 := by omega
  by_cases hzero : i = 1 ∨ i = 12
  · rcases hzero with rfl | rfl
    · simp
    · simp
  · rw [not_or] at hzero
    simp [hzero, h5, h8, h11, hfour]

theorem delegatedMstatus_spec (m : Word) : DelegatedMstatus m (delegatedMstatus m) := by
  have hbit {i : ℕ} (hi : i < 64) := getLsbD_delegatedMstatus m hi
  refine ⟨hbit (by decide), hbit (by decide), hbit (by decide), ⟨hbit (by decide), hbit (by decide)⟩, fun i hi => ?_⟩
  simp only [List.mem_cons, List.not_mem_nil, or_false, not_or] at hi
  by_cases h64 : i < 64
  · rw [hbit h64, if_neg hi.2.1, if_neg hi.2.2.1, if_neg hi.2.2.2.1, if_neg (not_or.mpr ⟨hi.1, hi.2.2.2.2⟩)]
  · rw [BitVec.getLsbD_of_ge _ _ (not_lt.mp h64), BitVec.getLsbD_of_ge _ _ (not_lt.mp h64)]

/-- The two values differ in the mode that M-mode returns to. -/
theorem redirectedMstatus_eq (m : Word) :
    redirectedMstatus m = (delegatedMstatus m &&& ~~~mstatusMpp) ||| (m &&& mstatusMpp) := by
  have hmul : m * (mstatusSpie / mstatusSie) = m <<< 4 := by
    have h16 : mstatusSpie / mstatusSie = BitVec.twoPow 64 4 := by decide
    rw [h16, BitVec.mul_twoPow_eq_shiftLeft]
  have hdiv : m / ((mstatusMpp &&& mstatusMpp >>> 1) / mstatusSpp) = m >>> 3 := by
    have h8 : (mstatusMpp &&& mstatusMpp >>> 1) / mstatusSpp = 8 := by decide
    apply BitVec.eq_of_toNat_eq
    rw [h8, BitVec.toNat_udiv, BitVec.toNat_ushiftRight, Nat.shiftRight_eq_div_pow]
    rfl
  have hmask : ∀ i < 64, (~~~(mstatusSpp ||| mstatusSpie ||| mstatusSie)).getLsbD i = decide (i ∉ [1, 5, 8]) := by decide
  have hspie : ∀ i < 64, mstatusSpie.getLsbD i = decide (i = 5) := by decide
  have hspp : ∀ i < 64, mstatusSpp.getLsbD i = decide (i = 8) := by decide
  have hmpp : ∀ i < 64, mstatusMpp.getLsbD i = decide (i = 11 ∨ i = 12) := by decide
  apply BitVec.eq_of_getLsbD_eq
  intro i hi
  rw [redirectedMstatus, hmul, hdiv, BitVec.getLsbD_or, BitVec.getLsbD_or, BitVec.getLsbD_and, hmask i hi, BitVec.getLsbD_and,
    BitVec.getLsbD_shiftLeft, hspie i hi, BitVec.getLsbD_and, BitVec.getLsbD_ushiftRight, hspp i hi,
    BitVec.getLsbD_or, BitVec.getLsbD_and, getLsbD_delegatedMstatus m hi, BitVec.getLsbD_not, hmpp i hi,
    BitVec.getLsbD_and, hmpp i hi]
  by_cases h5 : i = 5
  · subst h5
    simp
  by_cases h8 : i = 8
  · subst h8
    simp
  by_cases h1 : i = 1
  · subst h1
    simp
  by_cases hmode : i = 11 ∨ i = 12
  · rcases hmode with rfl | rfl
    · simp
    · simp
  · rw [not_or] at hmode
    simp [h1, h5, h8, hmode, hi]

/-- What is expected leaves no choice. -/
theorem DelegatedMstatus.eq {m x : Word} (h : DelegatedMstatus m x) : x = delegatedMstatus m := by
  have h' := delegatedMstatus_spec m
  apply BitVec.eq_of_getLsbD_eq
  intro i _
  by_cases hi : i ∈ [1, 5, 8, 11, 12]
  · simp only [List.mem_cons, List.not_mem_nil, or_false] at hi
    rcases hi with rfl | rfl | rfl | rfl | rfl
    · rw [h.sie, h'.sie]
    · rw [h.spie, h'.spie]
    · rw [h.spp, h'.spp]
    · rw [h.mpp.1, h'.mpp.1]
    · rw [h.mpp.2, h'.mpp.2]
  · rw [h.others i hi, h'.others i hi]

/-- The value in C is as expected for a trap from S-mode. -/
theorem redirectedMstatus_spec_iff (m : Word) :
    DelegatedMstatus m (redirectedMstatus m) ↔ m &&& mstatusMpp = 0x00000800 := by
  have hmpp : ∀ i < 64, mstatusMpp.getLsbD i = decide (i = 11 ∨ i = 12) := by decide
  have h800 : ∀ i < 64, (0x00000800 : Word).getLsbD i = decide (i = 11) := by decide
  constructor
  · intro h
    -- the field is as it was
    have hkept {i : ℕ} (hi : i < 64) (hmode : i = 11 ∨ i = 12) :
        (redirectedMstatus m).getLsbD i = m.getLsbD i := by
      rw [redirectedMstatus_eq, BitVec.getLsbD_or, BitVec.getLsbD_and, BitVec.getLsbD_not, BitVec.getLsbD_and,
        hmpp i hi, decide_eq_true hmode]
      simp
    obtain ⟨h11, h12⟩ := h.mpp
    rw [hkept (by decide) (.inl rfl)] at h11
    rw [hkept (by decide) (.inr rfl)] at h12
    apply BitVec.eq_of_getLsbD_eq
    intro i hi
    rw [BitVec.getLsbD_and, hmpp i hi, h800 i hi]
    by_cases hmode : i = 11 ∨ i = 12
    · rcases hmode with rfl | rfl
      · rw [h11]
        rfl
      · rw [h12]
        rfl
    · rw [not_or] at hmode
      simp [hmode]
  · intro h
    have heq : redirectedMstatus m = delegatedMstatus m := by
      rw [redirectedMstatus_eq, h]
      apply BitVec.eq_of_getLsbD_eq
      intro i hi
      rw [BitVec.getLsbD_or, BitVec.getLsbD_and, BitVec.getLsbD_not, hmpp i hi, h800 i hi,
        getLsbD_delegatedMstatus m hi]
      by_cases hmode : i = 11 ∨ i = 12
      · rcases hmode with rfl | rfl
        · simp
        · simp
      · rw [not_or] at hmode
        simp [hmode, hi]
    rw [heq]
    exact delegatedMstatus_spec m

/-! ### The two ways -/

variable {flen : Bool} (img : Image (S := source) (text flen)) (outside : Outside source)

/-- `.delegate_to_s` is right. -/
theorem delegateToS_delegates (h : Hart source) :
    ∃ h', Steps img outside (.running .delegateToS 0 h) (.resumed h') ∧ Delegated h h' ∧
      h'.csr .mstatus = delegatedMstatus (h.csr .mstatus) := by
  obtain ⟨h₂, hrun, hsteps⟩ := run_delegateToS img outside h
  have hcsr {c : Csr} (hc : c ≠ .mscratch) :
      (mretHart (loadedHart h₂ (h₂.get sp) [t1, t2])).csr c = h₂.csr c := csr_mretHart hc
  obtain rfl := Option.some.inj hrun
  have hmstatus := hcsr (c := .mstatus) (by decide)
  refine ⟨_, hsteps, ⟨?_, hcsr (by decide), hcsr (by decide), hcsr (by decide), hcsr (by decide)⟩, hmstatus⟩
  rw [hmstatus]
  exact delegatedMstatus_spec _

/-- **When the two ways agree.** The function in C leaves `reg` and `mem` to `__redirect_trap`. -/
theorem delegations_agree_iff (h : Hart source) (reg : Reg → Word) (mem : Memory) :
    (∃ h' g' : Hart source, Steps img outside (.running .delegateToS 0 h) (.resumed h') ∧
      Steps img outside (.running .redirectTrap 0
        ⟨reg, redirectTrapToS h.csr (h.csr .mepc) (h.csr .mstatus) (h.csr .mbadaddr), mem⟩) (.resumed g') ∧
      (∀ c ∈ [Csr.mstatus, .mepc, .sepc, .scause, .sbadaddr], h'.csr c = g'.csr c) ∧
      Delegated h h' ∧ Delegated h g') ↔
      h.csr .mstatus &&& mstatusMpp = 0x00000800 := by
  obtain ⟨h', hsteps, hdelegated, hmstatus⟩ := delegateToS_delegates img outside h
  obtain ⟨-, g', gsteps, -, -, -, -, -, -, gcsr⟩ := steps_redirectTrap img outside
    ⟨reg, redirectTrapToS h.csr (h.csr .mepc) (h.csr .mstatus) (h.csr .mbadaddr), mem⟩
  have gmstatus : g'.csr .mstatus = redirectedMstatus (h.csr .mstatus) := gcsr .mstatus (by decide)
  have gmepc : g'.csr .mepc = h.csr .stvec := gcsr .mepc (by decide)
  have gsepc : g'.csr .sepc = h.csr .mepc := gcsr .sepc (by decide)
  have gscause : g'.csr .scause = h.csr .mcause := gcsr .scause (by decide)
  have gsbadaddr : g'.csr .sbadaddr = h.csr .mbadaddr := gcsr .sbadaddr (by decide)
  rw [← redirectedMstatus_spec_iff]
  constructor
  · rintro ⟨h₁, g₁, -, gsteps₁, -, -, hspec⟩
    obtain rfl := Steps.resumed_unique gsteps gsteps₁
    have hspec := hspec.mstatus
    rwa [gmstatus] at hspec
  · intro hspec
    have heq := hspec.eq
    refine ⟨h', g', hsteps, gsteps, ?_, hdelegated, ?_⟩
    · intro c hc
      simp only [List.mem_cons, List.not_mem_nil, or_false] at hc
      rcases hc with rfl | rfl | rfl | rfl | rfl
      · rw [hmstatus, gmstatus, heq]
      · rw [hdelegated.mepc, gmepc]
      · rw [hdelegated.sepc, gsepc]
      · rw [hdelegated.scause, gscause]
      · rw [hdelegated.sbadaddr, gsbadaddr]
    · refine ⟨?_, gmepc, gsepc, gscause, gsbadaddr⟩
      rwa [gmstatus]

/-- For a page fault in U-mode, `redirect_trap_to_s` has `mret` go back to U-mode. -/
theorem not_delegations_agree :
    (eventHart 12 0).csr .mstatus &&& mstatusMpp = 0 ∧
      ¬ ∃ h' g' : Hart source, Steps (linked true) returning (.running .delegateToS 0 (eventHart 12 0)) (.resumed h') ∧
        Steps (linked true) returning (.running .redirectTrap 0
          ⟨(eventHart 12 0).reg, redirectTrapToS (eventHart 12 0).csr ((eventHart 12 0).csr .mepc)
            ((eventHart 12 0).csr .mstatus) ((eventHart 12 0).csr .mbadaddr), (eventHart 12 0).mem⟩) (.resumed g') ∧
        (∀ c ∈ [Csr.mstatus, .mepc, .sepc, .scause, .sbadaddr], h'.csr c = g'.csr c) ∧
        Delegated (eventHart 12 0) h' ∧ Delegated (eventHart 12 0) g' := by
  refine ⟨rfl, ?_⟩
  rintro ⟨-, g', -, gsteps, -, -, hspec⟩
  obtain ⟨-, g₁, gsteps₁, -, -, -, -, -, -, gcsr⟩ := steps_redirectTrap (linked true) returning
    ⟨(eventHart 12 0).reg, redirectTrapToS (eventHart 12 0).csr 0 0 0, (eventHart 12 0).mem⟩
  obtain rfl := Steps.resumed_unique gsteps gsteps₁
  have hmode := hspec.mstatus.mpp.1
  rw [gcsr .mstatus (by decide)] at hmode
  exact absurd hmode (by decide)

end Trap

end Sanctum
