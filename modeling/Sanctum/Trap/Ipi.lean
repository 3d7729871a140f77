import Sanctum.Trap.Preservation
import Sanctum.Machine.Run

/-!
# Inter-processor interrupts

`send_ipi` sets bits in the recipient's `mipi_pending` and then its flag `ipi`, each in one step;
`.handle_mipi` clears the flag, takes the pending bits, and acts on those it took. Any number of
harts send and handle, their steps in any order (`IpiStep`). Bits that have been sent are to be
acted on, or to be pending with the flag set, once everything that has begun has finished
(`NoneLost`).

The handler does not take the bits: it swaps the word at `a0`, a register of the OS, and then
decodes `t0`, which is the address of the pending word. The address is a multiple of eight, so it
acts on nothing, and clearing the flag is all it does.

## What is proved

* `run_noneLost` — no interrupt is lost as long as a flag is cleared only before anything has been
  sent or while something is being sent, and the swap is elsewhere.
* `not_noneLost` — one send and one run of the handler lose it.
-/

namespace Sanctum

namespace Trap

namespace Ipi

open Assembly
open Memory (Within Apart)

/-! ### The harts -/

/-- The harts, their stacks one page after the other, and their interrupt flags. -/
structure Harts where
  /-- The number of harts. -/
  count : ℕ
  /-- The first stack. -/
  base : Word
  /-- The flag of each hart. -/
  ipi : Fin count → Word
  /-- Stacks are pages. -/
  base_aligned : base.toNat % 4096 = 0
  /-- The stacks fit in memory. -/
  fits : base.toNat + 4096 * count ≤ 2 ^ 64
  /-- Flags are aligned words. -/
  ipi_aligned : ∀ h, (ipi h).toNat % 4 = 0
  /-- Each hart has its own. -/
  ipi_injective : Function.Injective ipi
  /-- They are not in the stacks. -/
  ipi_outside : ∀ h, (ipi h).toNat + 4 ≤ base.toNat ∨ base.toNat + 4096 * count ≤ (ipi h).toNat

namespace Harts

variable (M : Harts) (flen : Bool)

/-- `MACHINE_STACK_TOP()`, on hart `h`. -/
def machineStackTop (h : Fin M.count) : Word := M.base + BitVec.ofNat 64 (4096 * h) + riscvPgsize

/-- `HLS()`, on hart `h`. Its first field is `ipi`. -/
def hls (h : Fin M.count) : Word := M.machineStackTop h - hlsSize

/-- `OTHER_HLS(recipient)`, on hart `sender`. -/
def otherHls (sender recipient : Fin M.count) : Word :=
  M.hls sender + riscvPgsize * (BitVec.ofNat 64 recipient - BitVec.ofNat 64 sender)

/-- The hart's `mipi_pending`. -/
def pending (h : Fin M.count) : Word := M.hls h + 8

/-- What `mscratch` holds on hart `h` while the OS runs. -/
def frame (h : Fin M.count) : Word := M.machineStackTop h - mentryFrameSize flen

theorem otherHls_eq (sender recipient : Fin M.count) : M.otherHls sender recipient = M.hls recipient := by
  have hs := sender.isLt
  have hr := recipient.isLt
  have hlt := M.base.isLt
  have hfits := M.fits
  apply BitVec.eq_of_toNat_eq
  have hpage : riscvPgsize.toNat = 4096 := rfl
  have hsize : hlsSize.toNat = 64 := rfl
  simp only [otherHls, hls, machineStackTop, BitVec.toNat_add, BitVec.toNat_sub, BitVec.toNat_mul, BitVec.toNat_ofNat,
    hpage, hsize]
  omega

theorem hls_toNat (h : Fin M.count) : (M.hls h).toNat = M.base.toNat + 4096 * h + 4032 := by
  have hh := h.isLt
  have hfits := M.fits
  have hpage : riscvPgsize.toNat = 4096 := rfl
  have hsize : hlsSize.toNat = 64 := rfl
  simp only [hls, machineStackTop, BitVec.toNat_add, BitVec.toNat_sub, BitVec.toNat_ofNat, hpage, hsize]
  omega

theorem pending_toNat (h : Fin M.count) : (M.pending h).toNat = M.base.toNat + 4096 * h + 4040 := by
  have hh := h.isLt
  have hfits := M.fits
  have h8 : (8 : Word).toNat = 8 := rfl
  rw [pending, BitVec.toNat_add, hls_toNat, h8]
  omega

theorem frame_toNat (h : Fin M.count) :
    (M.frame flen h).toNat + (mentryFrameSize flen).toNat = M.base.toNat + 4096 * h + 4096 := by
  have hh := h.isLt
  have hfits := M.fits
  have hpage : riscvPgsize.toNat = 4096 := rfl
  have hsize := mentryFrameSize_toNat flen
  simp only [frame, machineStackTop, BitVec.toNat_add, BitVec.toNat_sub, BitVec.toNat_ofNat, hpage]
  omega

/-- The handler finds the pointer to its flag where the sender does. -/
theorem frame_add_ipiOffset (h : Fin M.count) : M.frame flen h + mentryIpiOffset flen = M.hls h := by
  apply BitVec.eq_of_toNat_eq
  have hframe := M.frame_toNat flen h
  have hh := h.isLt
  have hfits := M.fits
  have hoffset : (mentryIpiOffset flen).toNat + 64 = (mentryFrameSize flen).toNat := by cases flen <;> rfl
  rw [BitVec.toNat_add, hls_toNat]
  omega

theorem frame_add_ipiPendingOffset (h : Fin M.count) :
    M.frame flen h + mentryIpiPendingOffset flen = M.pending h := by
  rw [pending, ← frame_add_ipiOffset M flen h, BitVec.add_assoc]
  rfl

/-! ### Cells that do not overlap -/

variable {M flen} {h h' : Fin M.count}

theorem hls_apart_pending : Apart (M.hls h) 8 (M.pending h') 4 := by
  have hfits := M.fits
  have hh := h.isLt
  have hh' := h'.isLt
  have h1 := M.hls_toNat h
  have h2 := M.pending_toNat h'
  exact Memory.apart_of_disjoint (by omega) (by omega) (by omega)

theorem pending_apart (hne : h ≠ h') : Apart (M.pending h) 4 (M.pending h') 4 := by
  have hval : h.val ≠ h'.val := fun e => hne (Fin.ext e)
  have hfits := M.fits
  have hh := h.isLt
  have hh' := h'.isLt
  have h1 := M.pending_toNat h
  have h2 := M.pending_toNat h'
  exact Memory.apart_of_disjoint (by omega) (by omega) (by omega)

theorem ipi_apart (hne : h ≠ h') : Apart (M.ipi h) 4 (M.ipi h') 4 :=
  Memory.apart_of_ne ⟨2 ^ 62, rfl⟩ (M.ipi_aligned h) (M.ipi_aligned h') fun e => hne (M.ipi_injective e)

/-- A flag and what is in a stack. -/
theorem ipi_apart_of_mem {a : Word} {n : ℕ} (hlo : M.base.toNat ≤ a.toNat)
    (hhi : a.toNat + n ≤ M.base.toNat + 4096 * M.count) : Apart (M.ipi h) 4 a n := by
  have hfits := M.fits
  have haligned := M.ipi_aligned h
  have houtside := M.ipi_outside h
  have hlt := (M.ipi h).isLt
  exact Memory.apart_of_disjoint (by omega) (by omega) (by omega)

theorem ipi_apart_hls : Apart (M.ipi h) 4 (M.hls h') 8 := by
  have hh' := h'.isLt
  have h2 := M.hls_toNat h'
  exact ipi_apart_of_mem (by omega) (by omega)

theorem ipi_apart_pending : Apart (M.ipi h) 4 (M.pending h') 4 := by
  have hh' := h'.isLt
  have h2 := M.pending_toNat h'
  exact ipi_apart_of_mem (by omega) (by omega)

/-- The slots of a frame are not in the hart-local storage. -/
theorem slot_toNat (M : Harts) (flen : Bool) (h : Fin M.count) (r : Reg) : M.base.toNat + 4096 * h ≤
    (slot (M.frame flen h) r).toNat ∧
    (slot (M.frame flen h) r).toNat + 8 ≤ M.base.toNat + 4096 * h + 4032 := by
  have hr := r.isLt
  have hfits := M.fits
  have hh := h.isLt
  have hframe := M.frame_toNat flen h
  have hsize := mentryFrameSize_toNat flen
  rw [slot, BitVec.toNat_add, BitVec.toNat_ofNat]
  omega

theorem hls_apart_slot (r : Reg) : Apart (M.hls h) 8 (slot (M.frame flen h') r) 8 := by
  have hfits := M.fits
  have hh := h.isLt
  have hh' := h'.isLt
  have h1 := M.hls_toNat h
  have h2 := slot_toNat M flen h' r
  exact Memory.apart_of_disjoint (by omega) (by omega) (by omega)

theorem pending_apart_slot (r : Reg) : Apart (M.pending h) 4 (slot (M.frame flen h') r) 8 := by
  have hfits := M.fits
  have hh := h.isLt
  have hh' := h'.isLt
  have h1 := M.pending_toNat h
  have h2 := slot_toNat M flen h' r
  exact Memory.apart_of_disjoint (by omega) (by omega) (by omega)

theorem ipi_apart_slot (r : Reg) : Apart (M.ipi h) 4 (slot (M.frame flen h') r) 8 := by
  have hh' := h'.isLt
  have h2 := slot_toNat M flen h' r
  exact ipi_apart_of_mem (by omega) (by omega)

end Harts

/-! ### The steps -/

/-- The first step of `.handle_mipi`: it clears the flag. -/
def clearIpi (flen : Bool) : List (Instr source) := [.ld t0 (mentryIpiOffset flen) sp, .sw x0 0 t0, .fence]

/-- The second: it swaps. -/
def takePending (flen : Bool) : List (Instr source) :=
  [.sd t1 (6 * regBytes) sp, .addi t0 sp (mentryIpiPendingOffset flen), .amoswapW a0 x0 a0]

/-- The third: it tests `t0` bit by bit. -/
theorem text_handleMipi (flen : Bool) : text flen .handleMipi = clearIpi flen ++ takePending flen ++
    ([.andi t1 t0 ipiSoft, .beqz t1 .handleMipi1, .csrsi .mip mipSsip, .j .handleMipi1] : List (Instr source)) := rfl

/-- The bits it then acts on. -/
def actsOn (v : Word) : BitVec 32 := (v &&& (ipiSoft ||| ipiFenceI ||| ipiSfenceVma)).setWidth 32

/-- What a hart is doing. -/
inductive Activity (n : ℕ) where
  /-- It runs the OS. -/
  | os
  /-- It has set the recipient's pending bits, and not yet its flag. -/
  | sending (recipient : Fin n)
  /-- It runs `.handle_mipi`, and has cleared its flag. -/
  | cleared (g : Hart source)
  /-- It has also swapped. -/
  | taken (g : Hart source)

/-- The harts and their memory. -/
structure Machine (M : Harts) where
  /-- Memory. -/
  mem : Memory
  /-- What each hart is doing. -/
  doing : Fin M.count → Activity M.count

/-- What happens. -/
inductive Event (n : ℕ) where
  /-- `send_ipi(recipient, event)` sets the pending bits. -/
  | sendOr (sender recipient : Fin n) (event : BitVec 32)
  /-- It sets the flag. -/
  | sendFlag (sender recipient : Fin n)
  /-- `.handle_mipi` clears the flag. -/
  | clear (h : Fin n)
  /-- It takes `bits` from `mipi_pending`. -/
  | take (h : Fin n) (bits : BitVec 32)
  /-- It acts on `bits`. -/
  | act (h : Fin n) (bits : BitVec 32)

variable {flen : Bool} (img : Image (S := source) (text flen)) (M : Harts) (disabled : Word)

/-- One step of one hart, `disabled` being `platform__disabled_hart_mask`. A run of the handler
begins with whatever the OS has in its registers, but for `sp`. -/
inductive IpiStep : Machine M → Event M.count → Machine M → Prop where
  /-- `atomic_or(&OTHER_HLS(recipient)->mipi_pending, event)`. -/
  | sendOr {s : Machine M} {sender recipient : Fin M.count} {event : BitVec 32} (hos : s.doing sender = .os)
      (henabled : (disabled >>> recipient.val) &&& 1 = 0) :
      IpiStep s (.sendOr sender recipient event)
        { mem := s.mem.store32 (M.otherHls sender recipient + 8)
            (s.mem.load32 (M.otherHls sender recipient + 8) ||| event)
          doing := Function.update s.doing sender (.sending recipient) }
  /-- `*OTHER_HLS(recipient)->ipi = 1`. -/
  | sendFlag {s : Machine M} {sender recipient : Fin M.count} (hsending : s.doing sender = .sending recipient) :
      IpiStep s (.sendFlag sender recipient)
        { mem := s.mem.store32 (s.mem.load64 (M.otherHls sender recipient)) 1
          doing := Function.update s.doing sender .os }
  /-- The first step of the handler. -/
  | clear {s : Machine M} {h : Fin M.count} {g g' : Hart source} (hos : s.doing h = .os)
      (hsp : g.get sp = M.frame flen h) (hmem : g.mem = s.mem) (hrun : execs img (clearIpi flen) g = some g') :
      IpiStep s (.clear h) { mem := g'.mem, doing := Function.update s.doing h (.cleared g') }
  /-- The second. -/
  | take {s : Machine M} {h : Fin M.count} {g g' : Hart source} (hcleared : s.doing h = .cleared g)
      (hrun : execs img (takePending flen) { g with mem := s.mem } = some g') :
      IpiStep s (.take h (if g.get a0 = M.pending h then s.mem.load32 (M.pending h) else 0))
        { mem := g'.mem, doing := Function.update s.doing h (.taken g') }
  /-- The third. -/
  | act {s : Machine M} {h : Fin M.count} {g : Hart source} (htaken : s.doing h = .taken g) :
      IpiStep s (.act h (actsOn (g.get t0))) { s with doing := Function.update s.doing h .os }

variable {img M disabled} {h : Fin M.count}

theorem execs_clearIpi {g g' : Hart source} (hsp : g.get sp = M.frame flen h)
    (hpointer : g.mem.load64 (M.hls h) = M.ipi h) (hrun : execs img (clearIpi flen) g = some g') :
    g'.mem = g.mem.store32 (M.ipi h) 0 ∧ g'.get sp = M.frame flen h := by
  refine ⟨?_, (get_of_execs hrun (show sp ∉ [t0] by decide)).trans hsp⟩
  calc g'.mem = g.mem.store32 (g.mem.load64 (g.get sp + mentryIpiOffset flen) + 0) 0 := by
        obtain rfl := Option.some.inj hrun
        rfl
    _ = g.mem.store32 (M.ipi h) 0 := by
        rw [hsp, M.frame_add_ipiOffset flen, hpointer]
        simp only [BitVec.ofNat_eq_ofNat, BitVec.add_zero]

/-- The swap is at `a0`, whereas the address of the pending word is in `t0`. -/
theorem execs_takePending {g g' : Hart source} (hsp : g.get sp = M.frame flen h)
    (hrun : execs img (takePending flen) g = some g') :
    g'.mem = (g.mem.store64 (slot (M.frame flen h) t1) (g.get t1)).store32 (g.get a0) 0 ∧ g'.get t0 = M.pending h := by
  let g₁ : Hart source := Hart.set { g with mem := g.mem.store64 (g.get sp + 6 * regBytes) (g.get t1) } t0
    (g.get sp + mentryIpiPendingOffset flen)
  have hrest : ((Instr.amoswapW a0 x0 a0 : Instr source).exec img g₁).bind some = some g' := hrun
  rw [Option.bind_fun_some] at hrest
  have hmem : g₁.mem = g.mem.store64 (slot (M.frame flen h) t1) (g.get t1) := by
    rw [← hsp]
    rfl
  have ha0 : g₁.get a0 = g.get a0 := Hart.get_set_of_ne (by decide)
  dsimp only [Instr.exec] at hrest
  split at hrest
  · obtain rfl := Option.some.inj hrest
    rw [ha0, hmem]
    refine ⟨rfl, (Hart.get_set_of_ne (by decide)).trans ?_⟩
    rw [← M.frame_add_ipiPendingOffset flen, ← hsp]
    rfl
  · nomatch hrest

/-- The swap needs an aligned address. -/
theorem exists_takePending (img : Image (S := source) (text flen)) {g : Hart source}
    (ha0 : (g.get a0).toNat % 4 = 0) :
    ∃ g', execs img (takePending flen) g = some g' := by
  let g₁ : Hart source := Hart.set { g with mem := g.mem.store64 (g.get sp + 6 * regBytes) (g.get t1) } t0
    (g.get sp + mentryIpiPendingOffset flen)
  have hswap : ∃ g', (Instr.amoswapW a0 x0 a0 : Instr source).exec img g₁ = some g' := by
    have ha₁ : g₁.get a0 = g.get a0 := Hart.get_set_of_ne (by decide)
    exact ⟨_, if_pos (by rw [ha₁]; exact ha0)⟩
  obtain ⟨g', hg'⟩ := hswap
  exact ⟨g', congrArg (Option.bind · (execs img [])) hg'⟩

/-! ### No interrupt is lost -/

/-- No send and no run of a handler is under way. -/
def Finished (s : Machine M) : Prop := ∀ h, s.doing h = .os

/-- Something is sent to `h`. -/
def SendsTo (h : Fin M.count) (e : Event M.count) : Prop := ∃ sender event, e = .sendOr sender h event

/-- Bit `b` is sent to `h`. -/
def Sends (h : Fin M.count) (b : ℕ) (e : Event M.count) : Prop :=
  ∃ sender event, e = .sendOr sender h event ∧ event.getLsbD b = true

/-- The handler on `h` takes bit `b`. -/
def Takes (h : Fin M.count) (b : ℕ) (e : Event M.count) : Prop := ∃ bits, e = .take h bits ∧ bits.getLsbD b = true

/-- It acts on bit `b`. -/
def Acts (h : Fin M.count) (b : ℕ) (e : Event M.count) : Prop := ∃ bits, e = .act h bits ∧ bits.getLsbD b = true

/-- A run of machine `M`. -/
abbrev Trace (M : Harts) := List (Step (Machine M) (Event M.count))

/-- In these steps one run of the handler on `h` takes bit `b` and acts on it. -/
def Handles (h : Fin M.count) (b : ℕ) (tr : Trace M) : Prop :=
  ∃ p t q a r, tr = p ++ t :: q ++ a :: r ∧ Takes h b t.label ∧ Acts h b a.label ∧ ∀ st ∈ q, st.label ≠ .clear h

/-- No interrupt is lost. -/
structure NoneLost (tr : Trace M) (s : Machine M) : Prop where
  /-- What has been sent has been acted on since, or is pending and will be. -/
  kept : Finished s → ∀ p st q h b, tr = p ++ st :: q → Sends h b st.label →
    Handles h b q ∨ (s.mem.load32 (M.pending h)).getLsbD b = true ∧ s.mem.load32 (M.ipi h) = 1
  /-- A run of a handler acts on bits that it took. -/
  own : ∀ p t q a r h b, tr = p ++ t :: q ++ a :: r → (∃ bits, t.label = .take h bits) → Acts h b a.label →
    (∀ st ∈ q, st.label ≠ .clear h) → Takes h b t.label

/-- Something has been sent to `h`. -/
def SentTo (h : Fin M.count) (tr : Trace M) : Prop := ∃ st ∈ tr, SendsTo h st.label

/-- A hart is between the two steps of a send to `h`. -/
def Underway (h : Fin M.count) (s : Machine M) : Prop := ∃ sender, s.doing sender = .sending h

/-- Zeroing the word at `a` spares what is needed after `tr`. -/
structure Spares (tr : Trace M) (s : Machine M) (a : Word) : Prop where
  /-- The pointers to the flags. -/
  pointer : ∀ h, Apart (M.hls h) 8 a 4
  /-- The pending bits. -/
  pending : ∀ h, SentTo h tr → Apart (M.pending h) 4 a 4
  /-- The flags, but for those about to be set. -/
  flag : ∀ h, SentTo h tr → Underway h s ∨ Apart (M.ipi h) 4 a 4

/-- A step that does no harm after `tr`. -/
def StepSpares (tr : Trace M) (st : Step (Machine M) (Event M.count)) : Prop :=
  match st.label with
  | .clear h => SentTo h tr → Underway h st.pre
  | .take h _ => ∀ g, st.pre.doing h = .cleared g → Spares tr st.pre (g.get a0)
  | _ => True

/-- All harts run the OS, and each has the pointer to its flag. -/
structure Initial (s : Machine M) : Prop where
  /-- All harts run the OS. -/
  finished : Finished s
  /-- The pointers are there. -/
  pointer : ∀ h, s.mem.load64 (M.hls h) = M.ipi h

/-- What a hart has in its registers in the handler. -/
def Handler (flen : Bool) (h : Fin M.count) : Activity M.count → Prop
  | .cleared g => g.get sp = M.frame flen h
  | .taken g => g.get t0 = M.pending h
  | _ => True

/-- What holds as long as the steps do no harm. -/
structure Inv (flen : Bool) (tr : Trace M) (s : Machine M) : Prop where
  /-- The pointers are there. -/
  pointer : ∀ h, s.mem.load64 (M.hls h) = M.ipi h
  /-- What has been sent is pending. -/
  pending : ∀ st ∈ tr, ∀ h b, Sends h b st.label → (s.mem.load32 (M.pending h)).getLsbD b = true
  /-- Flags are set, or about to be. -/
  flag : ∀ h, SentTo h tr → Underway h s ∨ s.mem.load32 (M.ipi h) = 1
  /-- A handler runs on its stack, and has the address of the pending word where it should have
  the bits. -/
  handler : ∀ h, Handler flen h (s.doing h)
  /-- It has acted on nothing. -/
  act : ∀ st ∈ tr, ∀ h b, ¬ Acts h b st.label

variable {tr : Trace M} {s s' : Machine M}

theorem sentTo_snoc {st : Step (Machine M) (Event M.count)} :
    SentTo h (tr ++ [st]) ↔ SentTo h tr ∨ SendsTo h st.label := by
  simp only [SentTo, List.mem_append, List.mem_singleton, or_and_right, exists_or, exists_eq_left]

/-- A send is still under way after a hart has turned to something else that was not sending. -/
theorem Underway.update {m : Memory} {x : Fin M.count} {a : Activity M.count} (hu : Underway h s)
    (hx : s.doing x ≠ .sending h) : Underway h (⟨m, Function.update s.doing x a⟩ : Machine M) := by
  obtain ⟨sender, hsender⟩ := hu
  have hne : sender ≠ x := by
    rintro rfl
    exact hx hsender
  exact ⟨sender, (Function.update_of_ne hne ..).trans hsender⟩

/-- What holds of what the harts are doing, if it holds of what one of them turns to. -/
theorem forall_update {P : Fin M.count → Activity M.count → Prop} {x : Fin M.count} {a : Activity M.count}
    (hall : ∀ h, P h (s.doing h)) (ha : P x a) (h : Fin M.count) : P h (Function.update s.doing x a h) := by
  by_cases hx : h = x
  · subst hx
    rwa [Function.update_self]
  · rw [Function.update_of_ne hx]
    exact hall h

/-- No handler acts on anything. -/
theorem actsOn_pending (h : Fin M.count) : actsOn (M.pending h) = 0 := by
  have hmod : (M.pending h).toNat % 8 = 0 := by
    have h1 := M.pending_toNat h
    have h2 := M.base_aligned
    omega
  apply BitVec.eq_of_toNat_eq
  have hmask : (ipiSoft ||| ipiFenceI ||| ipiSfenceVma).toNat = 2 ^ 3 - 1 := by decide
  rw [actsOn, BitVec.toNat_setWidth, BitVec.toNat_and, hmask, Nat.and_two_pow_sub_one_eq_mod, hmod]
  rfl

theorem Sends.sendsTo {b : ℕ} {e : Event M.count} (hs : Sends h b e) : SendsTo h e := by
  obtain ⟨sender, event, rfl, -⟩ := hs
  exact ⟨sender, event, rfl⟩

/-- A step that sends nothing keeps the invariant if what it stores spares what is needed. -/
theorem Inv.snoc {e : Event M.count} {m : Memory} {x : Fin M.count} {a : Activity M.count} (hinv : Inv flen tr s)
    (hsend : ∀ h, ¬ SendsTo h e) (hact : ∀ h b, ¬ Acts h b e)
    (hpointer : ∀ h, m.load64 (M.hls h) = s.mem.load64 (M.hls h))
    (hpending : ∀ h, SentTo h tr → m.load32 (M.pending h) = s.mem.load32 (M.pending h))
    (hflag : ∀ h, SentTo h tr → Underway h (⟨m, Function.update s.doing x a⟩ : Machine M) ∨ m.load32 (M.ipi h) = 1)
    (hhandler : Handler flen x a) :
    Inv flen (tr ++ [⟨s, e, ⟨m, Function.update s.doing x a⟩⟩]) ⟨m, Function.update s.doing x a⟩ := by
  refine ⟨fun h => (hpointer h).trans (hinv.pointer h), fun st hst h b hs => ?_, fun h hsent => ?_,
    forall_update hinv.handler hhandler, fun st hst h b => ?_⟩
  · rcases List.mem_append.mp hst with htr | hlast
    · rw [hpending h ⟨st, htr, hs.sendsTo⟩, hinv.pending st htr h b hs]
    · obtain rfl := List.mem_singleton.mp hlast
      exact absurd hs.sendsTo (hsend h)
  · exact hflag h ((sentTo_snoc.mp hsent).resolve_right (hsend h))
  · rcases List.mem_append.mp hst with htr | hlast
    · exact hinv.act st htr h b
    · obtain rfl := List.mem_singleton.mp hlast
      exact hact h b

/-- Setting the pending bits. -/
theorem Inv.sendOr {sender recipient : Fin M.count} {event : BitVec 32} (hinv : Inv flen tr s)
    (hos : s.doing sender = .os) {m : Memory} {doing : Fin M.count → Activity M.count}
    (hm : m = s.mem.store32 (M.pending recipient) (s.mem.load32 (M.pending recipient) ||| event))
    (hdoing : doing = Function.update s.doing sender (.sending recipient)) :
    Inv flen (tr ++ [⟨s, .sendOr sender recipient event, ⟨m, doing⟩⟩]) ⟨m, doing⟩ := by
  have hself : m.load32 (M.pending recipient) = s.mem.load32 (M.pending recipient) ||| event := by
    rw [hm, Memory.load32_store32_self]
  -- bits are set, and none is cleared
  have hgrow : ∀ h b, (s.mem.load32 (M.pending h)).getLsbD b = true → (m.load32 (M.pending h)).getLsbD b = true := by
    intro h b hb
    by_cases hh : h = recipient
    · rw [hh] at hb ⊢
      rw [hself, BitVec.getLsbD_or, hb, Bool.true_or]
    · rw [hm, Memory.load32_store32_of_apart (Harts.pending_apart hh), hb]
  have hunderway : Underway recipient (⟨m, doing⟩ : Machine M) := ⟨sender, by rw [hdoing]; exact Function.update_self ..⟩
  refine ⟨fun h => ?_, fun st hst h b hs => ?_, fun h hsent => ?_, ?_, fun st hst h b => ?_⟩
  · rw [hm, Memory.load64_store32_of_apart Harts.hls_apart_pending, hinv.pointer h]
  · rcases List.mem_append.mp hst with htr | hlast
    · exact hgrow h b (hinv.pending st htr h b hs)
    · obtain rfl := List.mem_singleton.mp hlast
      obtain ⟨_, _, hlabel, hb⟩ := hs
      obtain ⟨-, rfl, rfl⟩ := Event.sendOr.inj hlabel
      rw [hself, BitVec.getLsbD_or, hb, Bool.or_true]
  · rcases sentTo_snoc.mp hsent with htr | ⟨_, _, hlabel⟩
    · rcases hinv.flag h htr with hu | hone
      · rw [hdoing]
        exact .inl (hu.update (by rw [hos]; nofun))
      · right
        rw [hm, Memory.load32_store32_of_apart Harts.ipi_apart_pending, hone]
    · obtain ⟨-, rfl, -⟩ := Event.sendOr.inj hlabel
      exact .inl hunderway
  · rw [hdoing]
    exact forall_update hinv.handler trivial
  · rcases List.mem_append.mp hst with htr | hlast
    · exact hinv.act st htr h b
    · obtain rfl := List.mem_singleton.mp hlast
      rintro ⟨_, hlabel, -⟩
      nomatch hlabel

/-- **Every step keeps the invariant**, if it does no harm. -/
theorem Inv.step (hinv : Inv flen tr s) {e : Event M.count} (hstep : IpiStep img M disabled s e s')
    (hspares : StepSpares tr ⟨s, e, s'⟩) : Inv flen (tr ++ [⟨s, e, s'⟩]) s' := by
  cases hstep with
  | @sendOr sender recipient event hos henabled =>
    refine hinv.sendOr hos ?_ rfl
    rw [M.otherHls_eq]
    rfl
  | @sendFlag sender recipient hsending =>
    rw [M.otherHls_eq, hinv.pointer]
    refine hinv.snoc (fun h => ?_) (fun h b => ?_) (fun h => ?_) (fun h _ => ?_) (fun h hsent => ?_) trivial
    · rintro ⟨_, _, hlabel⟩
      nomatch hlabel
    · rintro ⟨_, hlabel, -⟩
      nomatch hlabel
    · exact Memory.load64_store32_of_apart Harts.ipi_apart_hls.symm
    · exact Memory.load32_store32_of_apart Harts.ipi_apart_pending.symm
    · by_cases hh : h = recipient
      · rw [hh]
        exact .inr (Memory.load32_store32_self ..)
      rcases hinv.flag h hsent with hu | hone
      · left
        refine hu.update ?_
        rw [hsending]
        exact fun e => hh (Activity.sending.inj e).symm
      · exact .inr ((Memory.load32_store32_of_apart (Harts.ipi_apart hh)).trans hone)
  | @clear x g g' hos hsp hmem hrun =>
    obtain ⟨hmem', hsp'⟩ := execs_clearIpi hsp (by rw [hmem]; exact hinv.pointer x) hrun
    rw [hmem] at hmem'
    refine hinv.snoc (fun h => ?_) (fun h b => ?_) (fun h => ?_) (fun h _ => ?_) (fun h hsent => ?_) hsp'
    · rintro ⟨_, _, hlabel⟩
      nomatch hlabel
    · rintro ⟨_, hlabel, -⟩
      nomatch hlabel
    · rw [hmem', Memory.load64_store32_of_apart Harts.ipi_apart_hls.symm]
    · rw [hmem', Memory.load32_store32_of_apart Harts.ipi_apart_pending.symm]
    · have hupdate : Underway h s → Underway h (⟨g'.mem, Function.update s.doing x (.cleared g')⟩ : Machine M) :=
        fun hu => hu.update (by rw [hos]; nofun)
      by_cases hh : h = x
      · rw [hh] at hsent hupdate ⊢
        exact .inl (hupdate (hspares hsent))
      · rw [hmem', Memory.load32_store32_of_apart (Harts.ipi_apart hh)]
        exact (hinv.flag h hsent).imp_left hupdate
  | @take x g g' hcleared hrun =>
    have hsp : g.get sp = M.frame flen x := by
      have hhandler := hinv.handler x
      rwa [hcleared] at hhandler
    obtain ⟨hmem', ht0⟩ := execs_takePending (g := { g with mem := s.mem }) hsp hrun
    have hword : Spares tr s (g.get a0) := hspares g hcleared
    have ha0 : ({ g with mem := s.mem } : Hart source).get a0 = g.get a0 := rfl
    rw [ha0] at hmem'
    refine hinv.snoc (fun h => ?_) (fun h b => ?_) (fun h => ?_) (fun h hsent => ?_) (fun h hsent => ?_) ht0
    · rintro ⟨_, _, hlabel⟩
      nomatch hlabel
    · rintro ⟨_, hlabel, -⟩
      nomatch hlabel
    · rw [hmem', Memory.load64_store32_of_apart (hword.pointer h), Memory.load64_store64_of_apart (Harts.hls_apart_slot t1)]
    · rw [hmem', Memory.load32_store32_of_apart (hword.pending h hsent),
        Memory.load32_store64_of_apart (Harts.pending_apart_slot t1)]
    · have hupdate : Underway h s → Underway h (⟨g'.mem, Function.update s.doing x (.taken g')⟩ : Machine M) :=
        fun hu => hu.update (by rw [hcleared]; nofun)
      rcases hinv.flag h hsent with hu | hone
      · exact .inl (hupdate hu)
      · refine (hword.flag h hsent).imp hupdate fun hapart => ?_
        rw [hmem', Memory.load32_store32_of_apart hapart, Memory.load32_store64_of_apart (Harts.ipi_apart_slot t1), hone]
  | @act x g htaken =>
    have ht0 : g.get t0 = M.pending x := by
      have hhandler := hinv.handler x
      rwa [htaken] at hhandler
    refine hinv.snoc (fun h => ?_) (fun h b => ?_) (fun h => rfl) (fun h _ => rfl) (fun h hsent => ?_) trivial
    · rintro ⟨_, _, hlabel⟩
      nomatch hlabel
    · rintro ⟨bits, hlabel, hb⟩
      obtain ⟨-, rfl⟩ := Event.act.inj hlabel
      rw [ht0, actsOn_pending] at hb
      simp at hb
    · exact (hinv.flag h hsent).imp_left fun hu => hu.update (by rw [htaken]; nofun)

/-- **Every run keeps the invariant**, if its steps do no harm. -/
theorem run_inv {s₀ : Machine M} (hrun : Run (IpiStep img M disabled) s₀ tr s) (hinit : Initial s₀)
    (hspares : ∀ p st q, tr = p ++ st :: q → StepSpares p st) : Inv flen tr s := by
  refine hrun.history (P := fun tr s => (∀ p st q, tr = p ++ st :: q → StepSpares p st) → Inv flen tr s)
    (fun _ => ?_) (fun tr s e s' _ ih hstep hall => ?_) hspares
  · refine ⟨hinit.pointer, by simp, ?_, fun h => ?_, by simp⟩
    · rintro h ⟨st, hst, -⟩
      exact absurd hst List.not_mem_nil
    · rw [hinit.finished h]
      trivial
  · have hbefore := ih fun p st q htr => hall p st (q ++ [⟨s, e, s'⟩]) (by rw [htr, List.append_assoc]; rfl)
    exact hbefore.step hstep (hall tr _ [] rfl)

/-- **No interrupt is lost** in a run whose steps do no harm. -/
theorem run_noneLost {s₀ : Machine M} (hrun : Run (IpiStep img M disabled) s₀ tr s) (hinit : Initial s₀)
    (hspares : ∀ p st q, tr = p ++ st :: q → StepSpares p st) : NoneLost tr s := by
  have hinv : Inv flen tr s := run_inv hrun hinit hspares
  constructor
  · rintro hfinished p st q h b rfl hs
    have hmem : st ∈ p ++ st :: q := by simp
    refine .inr ⟨hinv.pending st hmem h b hs, (hinv.flag h ⟨st, hmem, hs.sendsTo⟩).resolve_left ?_⟩
    rintro ⟨sender, hsender⟩
    rw [hfinished sender] at hsender
    nomatch hsender
  · rintro p t q a r h b rfl - hacts -
    exact absurd hacts (hinv.act a (by simp) h b)

/-! ### Two harts -/

/-- A machine with two harts. -/
def twoHarts : Harts where
  count := 2
  base := 0x80020000
  ipi h := 0x2000000 + BitVec.ofNat 64 (4 * h)
  base_aligned := by decide
  fits := by decide
  ipi_aligned := by decide
  ipi_injective := by decide
  ipi_outside := by decide

/-- One hart. -/
abbrev first : Fin twoHarts.count := ⟨0, Nat.zero_lt_two⟩

/-- The other. -/
abbrev second : Fin twoHarts.count := ⟨1, Nat.one_lt_two⟩

/-- Both run the OS. -/
def booted : Machine twoHarts where
  mem := (Memory.store64 (fun _ => 0) (twoHarts.hls first) (twoHarts.ipi first)).store64 (twoHarts.hls second)
    (twoHarts.ipi second)
  doing _ := .os

theorem initial_booted : Initial booted := by
  have hapart : Apart (twoHarts.hls first) 8 (twoHarts.hls second) 8 := by
    have h1 : (twoHarts.hls first).toNat = 0x80020000 + 4096 * 0 + 4032 := twoHarts.hls_toNat first
    have h2 : (twoHarts.hls second).toNat = 0x80020000 + 4096 * 1 + 4032 := twoHarts.hls_toNat second
    exact Memory.apart_of_le (by omega) (by omega)
  refine ⟨fun _ => rfl, fun h => ?_⟩
  match h with
  | ⟨0, _⟩ => exact (Memory.load64_store64_of_apart hapart).trans (Memory.load64_store64_self ..)
  | ⟨1, _⟩ => exact Memory.load64_store64_self ..

/-- The second hart's pending bits have been set. -/
def halfSent : Machine twoHarts where
  mem := booted.mem.store32 (twoHarts.otherHls first second + 8)
    (booted.mem.load32 (twoHarts.otherHls first second + 8) ||| 4)
  doing := Function.update booted.doing first (.sending second)

/-- So has its flag. -/
def sent : Machine twoHarts where
  mem := halfSent.mem.store32 (halfSent.mem.load64 (twoHarts.otherHls first second)) 1
  doing := Function.update halfSent.doing first .os

/-- The steps so far. -/
def sending :
    Trace twoHarts := [⟨booted, .sendOr first second 4, halfSent⟩, ⟨halfSent, .sendFlag first second, sent⟩]

theorem run_sending : Run (IpiStep (linked true) twoHarts 0) booted sending sent := by
  have hor : Run (IpiStep (linked true) twoHarts 0) booted [⟨booted, .sendOr first second 4, halfSent⟩] halfSent :=
    .snoc .nil (.sendOr rfl rfl)
  exact hor.snoc (.sendFlag rfl)

/-- Steps one after the other that do no harm. -/
theorem spares_snoc (tr : Trace M) {st' : Step (Machine M) (Event M.count)}
    (htr : ∀ p st q, tr = p ++ st :: q → StepSpares p st) (hst' : StepSpares tr st')
    (p : Trace M) (st : Step (Machine M) (Event M.count)) (q : Trace M) (heq : tr ++ [st'] = p ++ st :: q) :
    StepSpares p st := by
  rcases List.eq_nil_or_concat q with rfl | ⟨q', x, rfl⟩
  · obtain ⟨rfl, hst⟩ := List.append_inj' heq rfl
    rwa [← (List.cons.inj hst).1]
  · rw [List.concat_eq_append, ← List.cons_append, ← List.append_assoc] at heq
    exact htr p st q' (List.append_inj' heq rfl).1

theorem spares_nil (p : Trace M) (st : Step (Machine M) (Event M.count)) (q : Trace M) (heq : [] = p ++ st :: q) :
    StepSpares p st := by
  simp at heq

theorem inv_sent : Inv true sending sent :=
  run_inv run_sending initial_booted
    (spares_snoc [⟨booted, .sendOr first second 4, halfSent⟩] (spares_snoc [] spares_nil trivial) trivial)

/-- The second hart comes into the handler. -/
def interrupted (m : Memory) : Hart source where
  reg r := if r = sp then twoHarts.frame true second else if r = a0 then 0x80050000 else 0
  csr _ := 0
  mem := m

/-- It runs it once, and nothing comes in between. -/
theorem exists_handled {s : Machine twoHarts} (hos : s.doing second = .os)
    (hpointer : s.mem.load64 (twoHarts.hls second) = twoHarts.ipi second) :
    ∃ s₁ s₂ s₃ g, IpiStep (linked true) twoHarts 0 s (.clear second) s₁ ∧
      IpiStep (linked true) twoHarts 0 s₁ (.take second 0) s₂ ∧
      IpiStep (linked true) twoHarts 0 s₂ (.act second 0) s₃ ∧
      s₁.doing second = .cleared g ∧ g.get a0 = 0x80050000 ∧ s₃.doing = s.doing ∧
      s₃.mem.load32 (twoHarts.ipi second) = 0 := by
  obtain ⟨g₁, hclear⟩ : ∃ g, execs (linked true) (clearIpi true) (interrupted s.mem) = some g := ⟨_, rfl⟩
  have hsp : (interrupted s.mem).get sp = twoHarts.frame true second := rfl
  obtain ⟨hmem₁, hsp₁⟩ := execs_clearIpi hsp hpointer hclear
  have ha₁ : g₁.get a0 = 0x80050000 := get_of_execs (r := a0) hclear (by decide)
  let s₁ : Machine twoHarts := ⟨g₁.mem, Function.update s.doing second (.cleared g₁)⟩
  have hdoing₁ : s₁.doing second = .cleared g₁ := Function.update_self second _ s.doing
  obtain ⟨g₂, htake⟩ := exists_takePending (linked true) (g := { g₁ with mem := s₁.mem }) (by
    show (g₁.get a0).toNat % 4 = 0
    rw [ha₁]
    rfl)
  obtain ⟨hmem₂, ht0⟩ := execs_takePending (g := { g₁ with mem := s₁.mem }) hsp₁ htake
  let s₂ : Machine twoHarts := ⟨g₂.mem, Function.update s₁.doing second (.taken g₂)⟩
  have hdoing₂ : s₂.doing second = .taken g₂ := Function.update_self second _ s₁.doing
  have hnothing : (if g₁.get a0 = twoHarts.pending second then s₁.mem.load32 (twoHarts.pending second) else 0) = 0 :=
    if_neg (by rw [ha₁]; decide)
  have hstep₂ : IpiStep _ _ 0 s₁ _ s₂ := .take hdoing₁ htake
  have hstep₃ : IpiStep (linked true) _ 0 s₂ _ _ := .act hdoing₂
  rw [hnothing] at hstep₂
  rw [ht0, actsOn_pending] at hstep₃
  refine ⟨s₁, s₂, _, g₁, .clear hos hsp rfl hclear, hstep₂, hstep₃, hdoing₁, ha₁, ?_, ?_⟩
  · rw [Function.update_idem, Function.update_idem, ← hos, Function.update_eq_self]
  · have hapart : Apart (twoHarts.ipi second) 4 (g₁.get a0) 4 := by
      rw [ha₁]
      exact Memory.apart_of_le (by decide) (by decide)
    calc g₂.mem.load32 (twoHarts.ipi second) = g₁.mem.load32 (twoHarts.ipi second) := by
          rw [hmem₂]
          exact (Memory.load32_store32_of_apart hapart).trans
            (Memory.load32_store64_of_apart (Harts.ipi_apart_slot t1))
      _ = 0 := by rw [hmem₁, Memory.load32_store32_self]

/-- A run of the handler before a send does no harm. -/
theorem noneLost_handled : ∃ tr s, Run (IpiStep (linked true) twoHarts 0) booted tr s ∧
    tr.map Step.label = [.clear second, .take second 0, .act second 0, .sendOr first second 4,
      .sendFlag first second] ∧
    NoneLost tr s := by
  obtain ⟨s₁, s₂, s₃, g, hclear, htake, hact, hcleared, ha0, hdoing, -⟩ :=
    exists_handled (s := booted) rfl (initial_booted.pointer second)
  have hidle : s₃.doing first = .os := by rw [hdoing]; rfl
  obtain ⟨s₄, hor, hsending⟩ : ∃ s₄, IpiStep (linked true) twoHarts 0 s₃ (.sendOr first second 4) s₄ ∧
      s₄.doing first = .sending second :=
    ⟨_, .sendOr hidle rfl, Function.update_self first (.sending second) s₃.doing⟩
  have hrun := ((((Run.nil.snoc hclear).snoc htake).snoc hact).snoc hor).snoc (.sendFlag hsending)
  have hquiet : ∀ h, ¬ SentTo h ([] ++ [⟨booted, .clear second, s₁⟩] : Trace twoHarts) := by
    rintro h ⟨st, hst, sender, event, hsend⟩
    obtain rfl := List.mem_singleton.mp hst
    nomatch hsend
  have hswap : Spares ([] ++ [⟨booted, .clear second, s₁⟩]) s₁ (g.get a0) := by
    refine ⟨fun h => ?_, fun h hsent => absurd hsent (hquiet h), fun h hsent => absurd hsent (hquiet h)⟩
    have hh := h.isLt
    have hcount : twoHarts.count = 2 := rfl
    have hbase : twoHarts.base.toNat = 0x80020000 := rfl
    have hhls := twoHarts.hls_toNat h
    have hword : (0x80050000 : Word).toNat = 0x80050000 := rfl
    rw [ha0]
    exact Memory.apart_of_le (by omega) (by omega)
  refine ⟨_, _, hrun, rfl, run_noneLost hrun initial_booted ?_⟩
  refine spares_snoc _ (spares_snoc _ (spares_snoc _ (spares_snoc _ (spares_snoc [] spares_nil ?_) ?_) trivial)
    trivial) trivial
  · rintro ⟨st, hst, -⟩
    exact absurd hst List.not_mem_nil
  · intro g' hg'
    obtain rfl := Activity.cleared.inj (hcleared.symm.trans hg')
    exact hswap

/-- **An interrupt is lost**: the second hart has cleared its flag and acted on nothing, and the
bit sent to it stays pending. -/
theorem not_noneLost : ∃ tr s, Initial booted ∧ Run
    (IpiStep (linked true) twoHarts 0) booted tr s ∧ ¬ NoneLost tr s := by
  obtain ⟨s₁, s₂, s₃, g, hclear, htake, hact, -, -, hdoing, hzero⟩ :=
    exists_handled (s := sent) rfl (inv_sent.pointer second)
  refine ⟨_, s₃, initial_booted, ((run_sending.snoc hclear).snoc htake).snoc hact, fun hnone => ?_⟩
  have hfinished : Finished s₃ := by
    intro h
    rw [hdoing]
    match h with
    | ⟨0, _⟩ => rfl
    | ⟨1, _⟩ => rfl
  let rest : Trace twoHarts := [⟨halfSent, .sendFlag first second, sent⟩, ⟨sent, .clear second, s₁⟩,
    ⟨s₁, .take second 0, s₂⟩, ⟨s₂, .act second 0, s₃⟩]
  rcases hnone.kept hfinished [] ⟨booted, .sendOr first second 4, halfSent⟩ rest second 2 rfl
    ⟨first, 4, rfl, by decide⟩ with hhandles | ⟨-, hone⟩
  · obtain ⟨p, t, q, a, r, htr, -, ⟨bits, hlabel, hbit⟩, -⟩ := hhandles
    have ha : a ∈ p ++ t :: q ++ a :: r := by simp
    rw [← htr] at ha
    simp only [rest, List.mem_cons, List.not_mem_nil, or_false] at ha
    rcases ha with rfl | rfl | rfl | rfl
    · nomatch hlabel
    · nomatch hlabel
    · nomatch hlabel
    · obtain ⟨-, rfl⟩ := Event.act.inj hlabel
      simp at hbit
  · rw [hzero] at hone
    exact absurd hone (by decide)

end Ipi

end Trap

end Sanctum
