import Sanctum.Boot.RootOfTrust

/-!
# Harts in the boot ROM

What the instructions of the boot ROM do, one label after the other.

There is an assertion about each point of the text, one for hart 0 (`Main`) and one for the others (`Other`). Hart 0
alone writes memory before the monitor is entered, so what it has established holds until then: the hash was the
expected one when the boot loader was entered, the header has been filled in since, and the stacks have been erased.
No other hart can get past its wait before that, because its software interrupt is not set before.

## What is proved

* `main_exec`, `other_exec` — an instruction leads from an assertion to the next one; what else it does is said by
  `MainStep` and `OtherStep`.
* `other_interrupt` — an interrupt leads to `.rot_wake_on_ipi`, wherever the hart has been.
-/

namespace Sanctum

namespace Boot

open Ed25519 Memory

namespace Rot

open Instr

/-! ### Registers -/

section Registers

variable {h : Hart} {r r' : Reg} {c c' : Csr} {v : Word} {pc : Pc}

@[simp] theorem pc_goto : (h.goto pc).pc = pc := rfl

@[simp] theorem get_goto : (h.goto pc).get r = h.get r := rfl

@[simp] theorem reg_goto : (h.goto pc).reg r = h.reg r := rfl

@[simp] theorem csr_goto : (h.goto pc).csr c = h.csr c := rfl

@[simp] theorem csr_set : (h.set r v).csr c = h.csr c := rfl

@[simp] theorem get_setCsr : (h.setCsr c v).get r = h.get r := rfl

@[simp] theorem reg_setCsr : (h.setCsr c v).reg r = h.reg r := rfl

@[simp] theorem get_zero : h.get 0 = 0 := rfl

theorem reg_set : (h.set r v).reg r' = if r' = r then v else h.reg r' := by
  rw [Hart.set]
  exact Function.update_apply ..

theorem get_set (hr : r' ≠ 0) : (h.set r v).get r' = if r' = r then v else h.get r' := by
  rw [Hart.get, Hart.get, if_neg hr, if_neg hr, reg_set]

theorem csr_setCsr : (h.setCsr c v).csr c' = if c' = c then v else h.csr c' := by
  rw [Hart.setCsr]
  exact Function.update_apply ..

end Registers

section Lemmas

variable {G : Type} [AddCommGroup G] {c : Curve G} {L : Layout}

/-! ### Devices -/

theorem msipIndex_add {i : ℕ} (hi : i < L.numHarts) : msipIndex L (msipBase + BitVec.ofNat 64 (i * 4)) = some i := by
  have hN := L.fits.numHarts_lt
  have hd : (msipBase + BitVec.ofNat 64 (i * 4) - msipBase).toNat = i * 4 := toNat_add_sub (by omega)
  have hmod : i * 4 % 4 = 0 ∧ i * 4 / 4 < L.numHarts := by omega
  simp only [msipIndex, hd, if_pos hmod]
  exact congrArg some (by omega)

theorem msipIndex_memLoaderBase : msipIndex L memLoaderBase = none := by
  have hN := L.fits.numHarts_lt
  have hd : (memLoaderBase - msipBase).toNat = 2 ^ 64 - 0x1000000 := by decide
  rw [msipIndex, hd]
  exact if_neg (by omega)

variable {sh : Shared} {v : Word}

theorem store32_msip {i : ℕ} (hi : i < L.numHarts) : sh.store32 L (msipBase + BitVec.ofNat 64 (i * 4)) v =
    { sh with msip := Function.update sh.msip i (v.getLsbD 0) } := by
  rw [Shared.store32, msipIndex_add hi]

theorem store32_memLoaderBase : sh.store32 L memLoaderBase v = { sh with loading := true } := by
  rw [Shared.store32, msipIndex_memLoaderBase]
  exact if_pos rfl

theorem load64_status : sh.load64 (memLoaderBase + 8) = 0 ↔ sh.loading = false := by
  rw [Shared.load64, if_pos rfl]
  cases sh.loading <;> decide

/-! ### Where things are -/

variable {m m' : Memory} {b : Word}

theorem toNat_mStackPtr : L.mStackPtr.toNat = L.mStackBase.toNat + mStackSize * L.numHarts :=
  toNat_add_ofNat (by have := L.fits.mStacks; have := L.fits.bootloader; have := L.fits.header; omega)

theorem inStacks_iff : L.InStacks b ↔ L.mStackBase.toNat ≤ b.toNat ∧ b.toNat < L.mStackPtr.toNat := by
  rw [toNat_mStackPtr]
  exact within_iff (by have := L.fits.mStacks; have := L.fits.bootloader; have := L.fits.header; omega)

theorem inHtif_iff : InHtif b ↔ dramBase.toNat ≤ b.toNat ∧ b.toNat < dramBase.toNat + 0x1000 :=
  within_iff (by decide)

/-- The boot loader is neither in the stacks nor in the host's registers. -/
theorem not_within_bootloader (hb : L.InStacks b ∨ InHtif b) : ¬ Within L.bootloaderPtr L.bootloaderSize b := by
  have h₁ := L.fits.htif
  have h₂ := L.fits.mStacks
  have h₃ := L.fits.bootloader
  have h₄ := L.fits.header
  rw [inStacks_iff, inHtif_iff, toNat_mStackPtr] at hb
  rw [within_iff (by omega)]
  omega

theorem not_within_header (hb : L.InStacks b ∨ InHtif b) : b.toNat < L.symbols.header.toNat := by
  have h₁ := L.fits.htif
  have h₂ := L.fits.mStacks
  have h₃ := L.fits.bootloader
  rw [inStacks_iff, inHtif_iff, toNat_mStackPtr] at hb
  omega

theorem verified_congr (h : ∀ b, ¬ L.InStacks b → ¬ InHtif b → m' b = m b) : L.Verified m' ↔ L.Verified m := by
  have hsize : L.bootloaderSize ≤ 2 ^ 64 := by have := L.fits.bootloader; have := L.fits.header; omega
  rw [Layout.Verified, Layout.Verified, slice_congr hsize fun b hb => ?_]
  exact h b (fun hin => not_within_bootloader (.inl hin) hb) fun hin => not_within_bootloader (.inr hin) hb

/-- What the header says of the monitor does not depend on the stacks and the host's registers. -/
theorem Layout.Booted.congr (h : L.Booted c m) (hm : ∀ b, ¬ L.InStacks b → ¬ InHtif b → m' b = m b) :
    L.Booted c m' := by
  have hge : ∀ b, L.symbols.header.toNat ≤ b.toNat → m' b = m b := fun b hb =>
    hm b (fun hin => absurd (not_within_header (.inl hin)) (not_lt.mpr hb))
      fun hin => absurd (not_within_header (.inr hin)) (not_lt.mpr hb)
  have hafter : ∀ b, L.symbols.header.toNat + 256 ≤ b.toNat → m' b = m b := fun b hb => hge b (by omega)
  intro hplaced
  have hplaced' : L.symbols.Placed m := by
    rw [Symbols.Placed, ← smSize_congr hafter]
    exact hplaced
  obtain ⟨seed, hattested⟩ := h hplaced'
  refine ⟨seed, ?_⟩
  rw [monitor_congr hplaced' hafter]
  exact hattested.congr fun b hb => hge b (within_header_iff.mp hb).1

/-- A host that keeps to the page of its registers. -/
theorem confined_inHtif {H : Host} (hH : ∀ t m b, ¬ InHtif b → H t m b = m b) : H.Confined L.symbols InHtif where
  frame := hH
  registers b hb := by
    have hfrom := L.fits.fromhost
    have hto := L.fits.tohost
    have hto' : (dramBase + 8).toNat = dramBase.toNat + 8 := by decide
    have hlt : dramBase.toNat + 0x1000 < 2 ^ 64 := by decide
    rw [Symbols.InRegisters, hfrom, hto, within_iff (by omega), within_iff (by omega)] at hb
    rw [inHtif_iff]
    omega
  below b hb := not_within_header (.inr hb)

/-! ### Stacks -/

/-- A double word of the stacks is erased. -/
theorem Layout.ErasedFrom.extend {a : ℕ} (h : L.ErasedFrom m a) (ha : L.mStackBase.toNat + 8 ≤ a)
    (hle : a ≤ L.mStackPtr.toNat)
    {p : Word} (hp : p.toNat = a - 8) :
    L.ErasedFrom (m.store64 p 0) (a - 8) ∧ ∀ b, ¬ L.InStacks b → m.store64 p 0 b = m b := by
  have hlt := L.mStackPtr.isLt
  have hin : ∀ b, Within p 8 b ↔ a - 8 ≤ b.toNat ∧ b.toNat < a := fun b => by
    rw [within_iff (by omega), hp]
    omega
  constructor
  · intro b hb hle'
    by_cases hw : Within p 8 b
    · rw [Memory.store64, store_of_within hw]
      simp
    · rw [store64_of_not_within hw]
      refine h b hb ?_
      rw [hin] at hw
      omega
  · intro b hb
    refine store64_of_not_within fun hw => hb ?_
    rw [hin] at hw
    rw [inStacks_iff]
    omega

theorem erased_of_from (h : L.ErasedFrom m L.mStackBase.toNat) :
    L.Erased m := fun b hb => h b hb (inStacks_iff.mp hb).1

/-! ### The text -/

variable {h h' : Hart} {sh sh' : Shared} {k k' : ℕ} {l l' : Label} {ins : Instr}

theorem source_mhartid {n : ℕ} (h : ins ∈ source n l) :
    (∀ rs, ins ≠ csrw .mhartid rs) ∧ ∀ imm, ins ≠ csrsi .mhartid imm := by
  constructor <;> rintro _ rfl <;> cases l <;> simp [source] at h

/-- An instruction changes no other control register than the one that it is about. -/
theorem exec_csr {cr : Csr} (hexec : ins.exec L l k h sh = some (h', sh')) (hw : ∀ rs, ins ≠ csrw cr rs)
    (hs : ∀ imm, ins ≠ csrsi cr imm) : h'.csr cr = h.csr cr := by
  cases ins with
  | csrw cr' rs =>
    obtain ⟨rfl, -⟩ := Prod.mk.inj (Option.some.inj hexec)
    rw [csr_goto, csr_setCsr, if_neg]
    rintro rfl
    exact hw rs rfl
  | csrsi cr' imm =>
    obtain ⟨rfl, -⟩ := Prod.mk.inj (Option.some.inj hexec)
    rw [csr_goto, csr_setCsr, if_neg]
    rintro rfl
    exact hs imm rfl
  | callHash => nomatch hexec
  | _ =>
    obtain ⟨rfl, -⟩ := Prod.mk.inj (Option.some.inj hexec)
    rfl

theorem exec_mhartid (hins : (source L.numHarts l)[k]? = some ins)
    (hexec : ins.exec L l k h sh = some (h', sh')) : h'.csr .mhartid = h.csr .mhartid := by
  obtain ⟨hw, hs⟩ := source_mhartid (List.mem_of_getElem? hins)
  exact exec_csr hexec hw hs

/-! ### Cleaning -/

section Clean

variable {i : ℕ}

/-- An instruction of `clean_core` sets the next register. -/
theorem cleanCore_exec (hk : k < 30) (hins : (source L.numHarts .cleanCore)[k]? = some ins)
    (hexec : ins.exec L .cleanCore k h sh = some (h', sh')) (hid : h.csr .mhartid = BitVec.ofNat 64 i) :
    ∃ r : Reg, r.val = k + 2 ∧ h' = (h.set r (L.cleanReg i r)).goto (.rom .cleanCore (k + 1)) ∧ sh' = sh := by
  refine ⟨⟨k + 2, by omega⟩, rfl, ?_⟩
  interval_cases k <;> obtain rfl := Option.some.inj hins <;>
    obtain ⟨rfl, rfl⟩ := Prod.mk.inj (Option.some.inj hexec) <;> refine ⟨?_, rfl⟩
  case «8» => rw [hid]; rfl
  all_goals rfl

end Clean

end Lemmas

/-! ### Assertions -/

/-- Hart 0 is past the boot loader, and has begun to wake the others. -/
def Pc.awake : Pc → Prop
  | .rom .wakeOtherHartsLoop _ | .rom .doneWakingOtherHarts _ | .rom .cleanCore _ | .sm => True
  | _ => False

/-- Hart 0 has run the boot loader. -/
def Pc.booted : Pc → Prop
  | .rom .waitOnElf k => 6 ≤ k
  | .rom .mStackEraseLoop _ => True
  | pc => pc.awake

variable {G : Type} [AddCommGroup G] (c : Curve G) (L : Layout)

/-- Hart 0. -/
def Main (pc : Pc) (h : Hart) (sh : Shared) : Prop :=
  match pc with
  | .rom .resetVector k => (k = 2 → h.get 10 = 0) ∧ (4 ≤ k → h.get 5 = memLoaderBase)
  | .rom .waitOnElf k =>
    (k ≤ 1 → h.get 5 = memLoaderBase) ∧ (k = 1 → h.get 6 = 0 → sh.loading = false) ∧ (2 ≤ k → sh.loading = false) ∧
      (k = 3 → h.get 10 ≠ 0 → L.Verified sh.mem) ∧ (k = 4 ∨ k = 5 → L.Verified sh.mem) ∧
      (k = 5 → h.get 1 = L.bootloaderPtr) ∧ (6 ≤ k → L.Booted c sh.mem) ∧ (7 ≤ k → h.get 5 = L.mStackBase) ∧
      (8 ≤ k → h.get 6 = L.mStackPtr)
  | .bootloader => sh.loading = false ∧ L.Verified sh.mem ∧ h.get 1 = L.address .waitOnElf 6
  | .rom .mStackEraseLoop k =>
    sh.loading = false ∧ L.Booted c sh.mem ∧ (k ≤ 9 → h.get 5 = L.mStackBase) ∧
      (k ≤ 8 → ∃ n, n < 64 * L.numHarts ∧ h.get 6 = L.mStackBase + BitVec.ofNat 64 (64 * (n + 1)) ∧
        L.ErasedFrom sh.mem (L.mStackBase.toNat + 64 * (n + 1) - 8 * k)) ∧
      (k = 9 → ∃ n, n < 64 * L.numHarts ∧ h.get 6 = L.mStackBase + BitVec.ofNat 64 (64 * n) ∧
        L.ErasedFrom sh.mem (L.mStackBase.toNat + 64 * n)) ∧
      (10 ≤ k → L.Erased sh.mem) ∧ (11 ≤ k → h.get 5 = 1) ∧ (12 ≤ k → h.get 6 = msipBase) ∧
      (13 ≤ k → h.get 7 = BitVec.ofNat 64 ((L.numHarts - 1) * 4))
  | .rom .wakeOtherHartsLoop k =>
    h.get 5 = 1 ∧ h.get 6 = msipBase ∧ ∃ n, n < L.numHarts ∧ h.get 7 = BitVec.ofNat 64 (n * 4) ∧
      (k = 1 ∨ k = 2 ∨ k = 3 → 0 < n) ∧ (k = 2 → h.get 28 = msipBase + BitVec.ofNat 64 (n * 4))
  | .rom .doneWakingOtherHarts k => (1 ≤ k → L.Clean 0 h) ∧ (2 ≤ k → h.get 1 = L.symbols.smPtr)
  | .rom .cleanCore k =>
    h.get 1 = L.address .doneWakingOtherHarts 1 ∧ L.CleanUpTo 0 (k + 2) h ∧ (31 ≤ k → h.csr .mscratch = 0)
  | .rom .rotBadHash _ => True
  | .sm => True
  | _ => False

/-- Hart `i`, which is not hart 0; `woken` says that hart 0 has begun to wake the others. -/
def Other (i : ℕ) (woken : Prop) (pc : Pc) (h : Hart) : Prop :=
  match pc with
  | .rom .resetVector k => k ≤ 2 ∧ (k = 2 → h.get 10 = BitVec.ofNat 64 i) ∧ h.csr .mstatus &&& bit3 = 0
  | .rom .hartNonZero k =>
    (k ≤ 6 → h.csr .mstatus &&& bit3 = 0) ∧ (k = 4 → h.get 5 = L.address .rotWakeOnIpi 0) ∧
      (5 ≤ k → h.csr .mtvec = L.address .rotWakeOnIpi 0)
  | .rom .waitOnIpi _ => h.csr .mtvec = L.address .rotWakeOnIpi 0
  | .rom .rotWakeOnIpi k =>
    woken ∧ h.csr .mstatus &&& bit3 = 0 ∧ (1 ≤ k ∧ k ≤ 3 → h.get 5 = msipBase) ∧
      (k = 2 → h.get 6 = BitVec.ofNat 64 i) ∧ (k = 3 → h.get 6 = BitVec.ofNat 64 (i * 4)) ∧
      (k = 4 → h.get 5 = msipBase + BitVec.ofNat 64 (i * 4)) ∧
      (10 ≤ k → L.Clean i h) ∧ (11 ≤ k → h.get 1 = L.symbols.smPtr)
  | .rom .cleanCore k =>
    woken ∧ h.csr .mstatus &&& bit3 = 0 ∧ h.get 1 = L.address .rotWakeOnIpi 10 ∧ L.CleanUpTo i (k + 2) h ∧
      (31 ≤ k → h.csr .mscratch = 0)
  | .sm => woken
  | _ => False

/-! ### Hart 0 -/

section CleanUpTo

variable {L} {h : Hart} {i n : ℕ} {v : Word} {pc : Pc}

theorem Layout.CleanUpTo.set_one (hclean : L.CleanUpTo i n h) : L.CleanUpTo i n ((h.set 1 v).goto pc) := by
  intro r h2 hn
  rw [reg_goto, reg_set, if_neg, hclean r h2 hn]
  rintro rfl
  exact absurd h2 (by decide)

theorem Layout.CleanUpTo.set_next {r : Reg} (hclean : L.CleanUpTo i (n + 2) h) (hr : r.val = n + 2) :
    L.CleanUpTo i (n + 1 + 2) ((h.set r (L.cleanReg i r)).goto pc) := by
  intro r' h2 hn
  rw [reg_goto, reg_set]
  split
  · next he => rw [he]
  · next hne => exact hclean r' h2 (by have := Fin.val_ne_of_ne hne; omega)

theorem Layout.Clean.set_one (hclean : L.Clean i h) : L.Clean i ((h.set 1 v).goto pc) :=
  ⟨hclean.regs.set_one, hclean.mscratch⟩

theorem Layout.Clean.goto (hclean : L.Clean i h) : L.Clean i (h.goto pc) :=
  ⟨hclean.regs, hclean.mscratch⟩

end CleanUpTo

theorem booted_of_awake {pc : Pc} (h : pc.awake) : pc.booted := by
  cases pc with
  | rom l k => cases l <;> first | exact h | exact trivial | exact h.elim
  | bootloader | sm => exact h

/-- What a step of hart 0 does. -/
structure MainStep (h : Hart) (sh : Shared) (h' : Hart) (sh' : Shared) : Prop where
  main : Main c L h'.pc h' sh'
  /-- Once it is awake it changes no memory. -/
  awake : h.pc.awake → h'.pc.awake ∧ sh'.mem = sh.mem ∧ sh'.loading = sh.loading
  /-- It gets past the boot loader by running it. -/
  booted : h'.pc.booted → h.pc.booted ∨ h.pc = .bootloader
  /-- It is not awake before all is done. -/
  ready : h'.pc.awake → ¬ h.pc.awake → L.Erased sh'.mem ∧ L.Booted c sh'.mem ∧ sh'.loading = false
  msip : ¬ h'.pc.awake → sh'.msip = sh.msip
  /-- It enters the monitor and the boot loader in a known state. -/
  sm : h'.pc = .sm → h.pc.awake ∧ L.Clean 0 h' ∧ h'.get 1 = L.symbols.smPtr
  bootloader : h'.pc = .bootloader → L.Verified sh'.mem

section MainStep

variable {c L} {h h' : Hart} {sh sh' : Shared} {k k' : ℕ} {l l' : Label} {ins : Instr}

/-- What hart 0 does before it is awake. -/
theorem MainStep.of_asleep (hpc : h.pc = .rom l k) (hpc' : h'.pc = .rom l' k') (hl : ¬ (Pc.rom l k).awake)
    (hl' : ¬ (Pc.rom l' k').awake) (hb : (Pc.rom l' k').booted → (Pc.rom l k).booted) (hmsip : sh'.msip = sh.msip)
    (hmain : Main c L (.rom l' k') h' sh') :
    MainStep c L h sh h' sh' where
  main := hpc' ▸ hmain
  awake ha := absurd (hpc ▸ ha) hl
  booted hbooted := .inl (hpc ▸ hb (hpc' ▸ hbooted))
  ready ha := absurd (hpc' ▸ ha) hl'
  msip _ := hmsip
  sm he := nomatch hpc'.symm.trans he
  bootloader he := nomatch hpc'.symm.trans he

/-- What hart 0 does when it is awake, until it enters the monitor. -/
theorem MainStep.of_awake (hpc : h.pc = .rom l k) (hpc' : h'.pc = .rom l' k') (hl : (Pc.rom l k).awake)
    (hl' : (Pc.rom l' k').awake) (hmem : sh'.mem = sh.mem) (hloading : sh'.loading = sh.loading)
    (hmain : Main c L (.rom l' k') h' sh') : MainStep c L h sh h' sh' where
  main := hpc' ▸ hmain
  awake _ := ⟨hpc' ▸ hl', hmem, hloading⟩
  booted _ := .inl (hpc ▸ booted_of_awake hl)
  ready _ ha := absurd (hpc ▸ hl) ha
  msip ha := absurd (hpc' ▸ hl') ha
  sm he := nomatch hpc'.symm.trans he
  bootloader he := nomatch hpc'.symm.trans he

theorem main_resetVector (hpc : h.pc = .rom .resetVector k) (hins : (source L.numHarts .resetVector)[k]? = some ins)
    (hexec : ins.exec L .resetVector k h sh = some (h', sh')) (hid : h.csr .mhartid = BitVec.ofNat 64 0)
    (hmain : Main c L (.rom .resetVector k) h sh) : MainStep c L h sh h' sh' := by
  have hk : k < 8 := (List.getElem?_eq_some_iff.mp hins).1
  rw [Main] at hmain
  interval_cases k <;> obtain rfl := Option.some.inj hins <;> obtain ⟨rfl, rfl⟩ :=
    Prod.mk.inj (Option.some.inj hexec)
  · exact .of_asleep hpc rfl nofun nofun nofun rfl (by simp [Main])
  · exact .of_asleep hpc rfl nofun nofun nofun rfl (by simp [Main, get_set, hid])
  · rw [get_zero, if_neg (not_not.mpr (hmain.1 rfl))]
    exact .of_asleep hpc rfl nofun nofun nofun rfl (by simp [Main])
  · exact .of_asleep hpc rfl nofun nofun nofun rfl (by simp [Main, get_set])
  · exact .of_asleep hpc rfl nofun nofun nofun rfl (by simp [Main, get_set, hmain])
  · have h5 : h.get 5 + 0 = memLoaderBase := (BitVec.add_zero _).trans (hmain.2 (by decide))
    rw [h5, store32_memLoaderBase]
    exact .of_asleep hpc rfl nofun nofun nofun rfl (by simp [Main, hmain])
  · exact .of_asleep hpc rfl nofun nofun nofun rfl (by simp [Main, hmain])
  · exact .of_asleep hpc rfl nofun nofun nofun rfl (by simp [Main, hmain])

theorem main_waitOnElf (hpc : h.pc = .rom .waitOnElf k) (hins : (source L.numHarts .waitOnElf)[k]? = some ins)
    (hexec : ins.exec L .waitOnElf k h sh = some (h', sh')) (hmain : Main c L (.rom .waitOnElf k) h sh) :
    MainStep c L h sh h' sh' := by
  have hk : k < 9 := (List.getElem?_eq_some_iff.mp hins).1
  obtain ⟨h5, hloaded, hdone, hhash, hverified, h1, hbooted, h5', h6⟩ := hmain
  interval_cases k <;> obtain rfl := Option.some.inj hins
  case «2» => nomatch hexec
  all_goals obtain ⟨rfl, rfl⟩ := Prod.mk.inj (Option.some.inj hexec)
  · have hload : sh.load64 (h.get 5 + 8) = 0 → sh.loading = false := by
      rw [h5 (by decide)]
      exact load64_status.mp
    exact .of_asleep hpc rfl nofun nofun (by simp [Pc.booted]) rfl (by simpa [Main, get_set, h5] using hload)
  · by_cases h6 : h.get 6 = 0
    · rw [get_zero, if_neg (not_not.mpr h6)]
      exact .of_asleep hpc rfl nofun nofun (by simp [Pc.booted]) rfl (by simp [Main, hloaded rfl h6])
    · rw [get_zero, if_pos h6]
      exact .of_asleep hpc rfl nofun nofun (by simp [Pc.booted]) rfl (by simp [Main, h5])
  · by_cases h10 : h.get 10 = 0
    · rw [get_zero, if_pos h10]
      exact .of_asleep hpc rfl nofun nofun nofun rfl trivial
    · rw [get_zero, if_neg h10]
      exact .of_asleep hpc rfl nofun nofun (by simp [Pc.booted]) rfl (by simp [Main, hdone, hhash rfl h10])
  · exact .of_asleep hpc rfl nofun nofun
      (by simp [Pc.booted]) rfl (by simp [Main, hdone, hverified, get_set, Layout.value])
  · have hloc : L.locate (h.get 1) = .bootloader := by rw [h1 rfl, L.fits.locate_bootloader]
    rw [hloc]
    exact {
      main := ⟨hdone (by decide), hverified (.inr rfl), by rw [get_goto, get_set (by decide), if_pos rfl]⟩
      awake := fun ha => nomatch (hpc ▸ ha : (Pc.rom .waitOnElf 5).awake)
      booted := nofun
      ready := nofun
      msip := fun _ => rfl
      sm := nofun
      bootloader := fun _ => hverified (.inr rfl) }
  · exact .of_asleep hpc rfl nofun nofun
      (by simp [Pc.booted]) rfl (by simp [Main, hdone, hbooted, get_set, Layout.value])
  · exact .of_asleep hpc rfl nofun nofun
      (by simp [Pc.booted]) rfl (by simp [Main, hdone, hbooted, h5', get_set, Layout.value])
  · have hle : L.mStackBase.toNat + 64 * (64 * L.numHarts - 1 + 1) - 8 * 0 = L.mStackPtr.toNat := by
      have := L.fits.numHarts_pos
      rw [toNat_mStackPtr, mStackSize]
      omega
    refine .of_asleep hpc rfl nofun nofun
      (by simp [Pc.booted]) rfl ⟨hdone (by decide), hbooted (by decide), fun _ => h5' (by decide), fun _ =>
      ⟨64 * L.numHarts - 1, ?_, ?_, ?_⟩, ?_⟩
    · have := L.fits.numHarts_pos
      omega
    · rw [get_goto, h6 (by decide), Layout.mStackPtr, mStackSize]
      have := L.fits.numHarts_pos
      rw [show 64 * (64 * L.numHarts - 1 + 1) = 0x1000 * L.numHarts by omega]
    · intro b hb hle'
      rw [inStacks_iff] at hb
      omega
    · simp

/-- The stores of the loop. -/
theorem mStackErase_sd (hk : k < 8) (hins : (source L.numHarts .mStackEraseLoop)[k]? = some ins) :
    ins = sd 0 (-BitVec.ofNat 64 (8 * (k + 1))) 6 := by
  interval_cases k <;> exact (Option.some.inj hins).symm

theorem toNat_mStackBase_add {n : ℕ} (hn : n ≤ 64 * L.numHarts) :
    (L.mStackBase + BitVec.ofNat 64 (64 * n)).toNat = L.mStackBase.toNat + 64 * n ∧
      L.mStackBase.toNat + 64 * n ≤ L.mStackPtr.toNat := by
  have hptr := L.mStackPtr.isLt
  rw [toNat_mStackPtr, mStackSize] at *
  exact ⟨toNat_add_ofNat (by omega), by omega⟩

theorem Layout.mStackPtr_lt (L : Layout) : L.mStackPtr.toNat < 2 ^ 63 := by
  have := L.fits.mStacks
  have := L.fits.bootloader
  have := L.fits.header
  rw [toNat_mStackPtr]
  omega

/-- A store of the loop erases eight more bytes. -/
theorem main_mStackErase_sd (hpc : h.pc = .rom .mStackEraseLoop k)
    (hins : (source L.numHarts .mStackEraseLoop)[k]? = some ins)
    (hexec : ins.exec L .mStackEraseLoop k h sh = some (h', sh')) (hmain : Main c L (.rom .mStackEraseLoop k) h sh)
    (h8 : k < 8) : MainStep c L h sh h' sh' := by
  obtain ⟨hloading, hbooted, h5, hloop, -⟩ := hmain
  obtain rfl := mStackErase_sd h8 hins
  obtain ⟨rfl, rfl⟩ := Prod.mk.inj (Option.some.inj hexec)
  obtain ⟨n, hn, hreg, hfrom⟩ := hloop h8.le
  obtain ⟨hnat, hle⟩ := toNat_mStackBase_add (L := L) (Nat.succ_le_of_lt hn)
  have hp : (h.get 6 + -BitVec.ofNat 64 (8 * (k + 1))).toNat = L.mStackBase.toNat + 64 * (n + 1) - 8 * k - 8 := by
    have hk8 : (BitVec.ofNat 64 (8 * (k + 1))).toNat = 8 * (k + 1) := by
      rw [BitVec.toNat_ofNat]
      omega
    rw [hreg, ← BitVec.sub_eq_add_neg, BitVec.toNat_sub_of_le (by rw [BitVec.le_def, hnat, hk8]; omega), hnat, hk8]
    omega
  obtain ⟨hfrom', hframe⟩ := hfrom.extend (by omega) (by omega) hp
  refine .of_asleep hpc rfl nofun nofun (fun _ => trivial) rfl
    ⟨hloading, hbooted.congr fun b hb _ => hframe b hb, fun _ => h5 (by omega),
    fun _ => ⟨n, hn, hreg, hfrom'⟩, ?_⟩
  refine ⟨?_, ?_, ?_, ?_, ?_⟩ <;> exact fun hk' => absurd hk' (by omega)

/-- The loop goes on while there is something left below. -/
theorem mStackBase_slt {n : ℕ} (hn : n < 64 * L.numHarts) (h5 : h.get 5 = L.mStackBase)
    (h6 : h.get 6 = L.mStackBase + BitVec.ofNat 64 (64 * n)) : (h.get 5).slt (h.get 6) = decide (0 < n) := by
  obtain ⟨hnat, hle⟩ := toNat_mStackBase_add (L := L) hn.le
  have hlt := L.mStackPtr_lt
  rw [h5, h6, BitVec.slt_eq_decide, BitVec.toInt_eq_toNat_of_lt (by omega), BitVec.toInt_eq_toNat_of_lt (by omega),
    hnat]
  exact decide_eq_decide.mpr (by omega)

theorem main_mStackEraseLoop (hpc : h.pc = .rom .mStackEraseLoop k)
    (hins : (source L.numHarts .mStackEraseLoop)[k]? = some ins)
    (hexec : ins.exec L .mStackEraseLoop k h sh = some (h', sh')) (hmain : Main c L (.rom .mStackEraseLoop k) h sh) :
    MainStep c L h sh h' sh' := by
  have hk : k < 14 := (List.getElem?_eq_some_iff.mp hins).1
  by_cases h8 : k < 8
  · exact main_mStackErase_sd hpc hins hexec hmain h8
  · obtain ⟨hloading, hbooted, h5, hloop, hnext, herased, h5', h6, h7⟩ := hmain
    interval_cases k <;> obtain rfl := Option.some.inj hins <;> obtain ⟨rfl, rfl⟩ :=
      Prod.mk.inj (Option.some.inj hexec)
    · obtain ⟨n, hn, hreg, hfrom⟩ := hloop le_rfl
      refine .of_asleep hpc rfl nofun nofun (fun _ => trivial) rfl
        ⟨hloading, hbooted, fun _ => h5 (by decide), fun h9 => absurd h9 (by decide),
        fun _ => ⟨n, hn, ?_, ?_⟩, ?_⟩
      · rw [get_goto, get_set (by decide), if_pos rfl, hreg, Nat.mul_succ, BitVec.ofNat_add, BitVec.add_assoc,
          BitVec.add_assoc]
        exact congrArg _ (BitVec.add_zero _)
      · exact hfrom
      · simp
    · obtain ⟨n, hn, hreg, hfrom⟩ := hnext rfl
      have hslt := mStackBase_slt hn (h5 (by decide)) hreg
      cases n with
      | zero =>
        rw [hslt, if_neg (by decide)]
        refine .of_asleep hpc rfl nofun nofun (fun _ => trivial) rfl ?_
        have hall : L.Erased sh.mem := erased_of_from hfrom
        simp [Main, hloading, hbooted, hall]
      | succ n =>
        rw [hslt, if_pos (by simp)]
        exact .of_asleep hpc rfl nofun nofun (fun _ => trivial) rfl ⟨hloading, hbooted, fun _ => h5 (by decide),
          fun _ => ⟨n, by omega, hreg, hfrom⟩, by simp⟩
    · exact .of_asleep hpc rfl nofun nofun (fun _ => trivial) rfl
        (by simp [Main, hloading, hbooted, herased, get_set])
    · exact .of_asleep hpc rfl nofun nofun (fun _ => trivial) rfl
        (by simp [Main, hloading, hbooted, herased, h5', get_set])
    · exact .of_asleep hpc rfl nofun nofun (fun _ => trivial) rfl
        (by simp [Main, hloading, hbooted, herased, h5', h6, get_set])
    · have hN := L.fits.numHarts_pos
      exact {
        main := ⟨h5' (by decide), h6 (by decide), L.numHarts - 1, by omega, h7 (by decide), by simp⟩
        awake := fun ha => nomatch (hpc ▸ ha : (Pc.rom .mStackEraseLoop 13).awake)
        booted := fun _ => .inl (hpc ▸ trivial)
        ready := fun _ _ => ⟨herased (by decide), hbooted, hloading⟩
        msip := fun _ => rfl
        sm := nofun
        bootloader := nofun }

theorem main_wakeOtherHartsLoop (hpc : h.pc = .rom .wakeOtherHartsLoop k)
    (hins : (source L.numHarts .wakeOtherHartsLoop)[k]? = some ins)
    (hexec : ins.exec L .wakeOtherHartsLoop k h sh = some (h', sh'))
    (hmain : Main c L (.rom .wakeOtherHartsLoop k) h sh) :
    MainStep c L h sh h' sh' := by
  have hk : k < 5 := (List.getElem?_eq_some_iff.mp hins).1
  obtain ⟨h5, h6, n, hn, h7, hpos, h28⟩ := hmain
  interval_cases k <;> obtain rfl := Option.some.inj hins <;> obtain ⟨rfl, rfl⟩ :=
    Prod.mk.inj (Option.some.inj hexec)
  · by_cases h0 : n = 0
    · rw [get_zero, if_pos (by rw [h7, h0]; rfl)]
      exact .of_awake hpc rfl trivial trivial rfl rfl (by simp [Main])
    · have hN := L.fits.numHarts_lt
      have h7' : h.get 7 ≠ 0 := fun he => by
        have hnat := congrArg BitVec.toNat (h7.symm.trans he)
        rw [BitVec.toNat_ofNat, Nat.mod_eq_of_lt (by omega)] at hnat
        exact h0 (by simpa using hnat)
      rw [get_zero, if_neg h7']
      exact .of_awake hpc rfl trivial trivial rfl rfl
        ⟨h5, h6, n, hn, h7, fun _ => Nat.pos_of_ne_zero h0, fun h2 => absurd h2 (by decide)⟩
  · refine .of_awake hpc rfl trivial trivial rfl rfl ⟨?_, ?_, n, hn, ?_, fun _ => hpos (.inl rfl), fun _ => ?_⟩
    · simpa [get_set] using h5
    · simpa [get_set] using h6
    · simpa [get_set] using h7
    · rw [get_goto, get_set (by decide), if_pos rfl, h6, h7]
  · have haddr : h.get 28 + 0 = msipBase + BitVec.ofNat 64 (n * 4) := (BitVec.add_zero _).trans (h28 rfl)
    rw [haddr, store32_msip hn]
    exact .of_awake hpc rfl trivial trivial rfl rfl
      ⟨h5, h6, n, hn, h7, fun _ => hpos (.inr (.inl rfl)), fun h2 => absurd h2 (by decide)⟩
  · have h0 := hpos (.inr (.inr rfl))
    refine .of_awake hpc rfl trivial trivial rfl rfl ⟨?_, ?_, n - 1, by omega, ?_, by simp, by simp⟩
    · simpa [get_set] using h5
    · simpa [get_set] using h6
    · rw [get_goto, get_set (by decide), if_pos rfl, h7]
      obtain ⟨n, rfl⟩ := Nat.exists_eq_add_one.mpr h0
      rw [Nat.succ_mul, BitVec.ofNat_add, BitVec.add_assoc]
      exact BitVec.add_zero _
  · exact .of_awake hpc rfl trivial trivial rfl rfl ⟨h5, h6, n, hn, h7, by simp, by simp⟩

theorem main_doneWakingOtherHarts (hpc : h.pc = .rom .doneWakingOtherHarts k)
    (hins : (source L.numHarts .doneWakingOtherHarts)[k]? = some ins)
    (hexec : ins.exec L .doneWakingOtherHarts k h sh = some (h', sh'))
    (hmain : Main c L (.rom .doneWakingOtherHarts k) h sh) :
    MainStep c L h sh h' sh' := by
  have hk : k < 3 := (List.getElem?_eq_some_iff.mp hins).1
  obtain ⟨hclean, h1⟩ := hmain
  interval_cases k <;> obtain rfl := Option.some.inj hins <;> obtain ⟨rfl, rfl⟩ :=
    Prod.mk.inj (Option.some.inj hexec)
  · refine .of_awake hpc rfl trivial trivial rfl rfl ⟨?_, fun r h2 hr => by omega, by simp⟩
    rw [get_goto, get_set (by decide), if_pos rfl]
  · refine .of_awake hpc rfl trivial trivial rfl rfl ⟨fun _ => (hclean le_rfl).set_one, fun _ => ?_⟩
    rw [get_goto, get_set (by decide), if_pos rfl]
    rfl
  · have hloc : L.locate (h.get 1) = .sm := by rw [h1 le_rfl, L.fits.locate_sm]
    rw [hloc]
    exact {
      main := trivial
      awake := fun _ => ⟨trivial, rfl, rfl⟩
      booted := fun _ => .inl (hpc ▸ trivial)
      ready := fun _ ha => absurd (hpc ▸ trivial) ha
      msip := fun ha => absurd trivial ha
      sm := fun _ => ⟨hpc ▸ trivial, (hclean (by decide)).goto, h1 le_rfl⟩
      bootloader := nofun }

theorem main_cleanCore (hpc : h.pc = .rom .cleanCore k) (hins : (source L.numHarts .cleanCore)[k]? = some ins)
    (hexec : ins.exec L .cleanCore k h sh = some (h', sh')) (hid : h.csr .mhartid = BitVec.ofNat 64 0)
    (hmain : Main c L (.rom .cleanCore k) h sh) : MainStep c L h sh h' sh' := by
  have hk : k < 32 := (List.getElem?_eq_some_iff.mp hins).1
  obtain ⟨h1, hclean, hmscratch⟩ := hmain
  by_cases h30 : k < 30
  · obtain ⟨r, hr, rfl, rfl⟩ := cleanCore_exec h30 hins hexec hid
    refine .of_awake hpc rfl trivial trivial rfl rfl ⟨?_, hclean.set_next hr, fun hk' => absurd hk' (by omega)⟩
    rwa [get_goto, get_set (by decide), if_neg (by rintro rfl; exact absurd hr (by simp))]
  · interval_cases k <;> obtain rfl := Option.some.inj hins <;> obtain ⟨rfl, rfl⟩ :=
      Prod.mk.inj (Option.some.inj hexec)
    · refine .of_awake hpc rfl trivial trivial rfl rfl ⟨h1, fun r h2 _ => hclean r h2 r.isLt, fun _ => ?_⟩
      rw [csr_goto, csr_setCsr, if_pos rfl, get_zero]
    · rw [h1, L.fits.locate_address .doneWakingOtherHarts 1 (by simp [source])]
      refine .of_awake hpc rfl trivial trivial rfl rfl
        ⟨fun _ => ⟨fun r h2 hr => hclean r h2 (by omega), hmscratch le_rfl⟩, ?_⟩
      exact fun h2 => absurd h2 (by decide)

theorem main_rotBadHash (hpc : h.pc = .rom .rotBadHash k) (hins : (source L.numHarts .rotBadHash)[k]? = some ins)
    (hexec : ins.exec L .rotBadHash k h sh = some (h', sh')) : MainStep c L h sh h' sh' := by
  have hk : k < 1 := (List.getElem?_eq_some_iff.mp hins).1
  interval_cases k
  obtain rfl := Option.some.inj hins
  obtain ⟨rfl, rfl⟩ := Prod.mk.inj (Option.some.inj hexec)
  exact .of_asleep hpc rfl nofun nofun nofun rfl trivial

/-- **An instruction of hart 0.** -/
theorem main_exec (hpc : h.pc = .rom l k) (hins : (source L.numHarts l)[k]? = some ins)
    (hexec : ins.exec L l k h sh = some (h', sh')) (hid : h.csr .mhartid = BitVec.ofNat 64 0)
    (hmain : Main c L h.pc h sh) : MainStep c L h sh h' sh' := by
  rw [hpc] at hmain
  cases l with
  | resetVector => exact main_resetVector hpc hins hexec hid hmain
  | waitOnElf => exact main_waitOnElf hpc hins hexec hmain
  | mStackEraseLoop => exact main_mStackEraseLoop hpc hins hexec hmain
  | wakeOtherHartsLoop => exact main_wakeOtherHartsLoop hpc hins hexec hmain
  | doneWakingOtherHarts => exact main_doneWakingOtherHarts hpc hins hexec hmain
  | rotBadHash => exact main_rotBadHash hpc hins hexec
  | cleanCore => exact main_cleanCore hpc hins hexec hid hmain
  | hartNonZero | waitOnIpi | rotWakeOnIpi => exact hmain.elim

end MainStep

/-! ### The other harts -/

/-- What a step of another hart does. -/
structure OtherStep (i : ℕ) (woken : Prop) (sh : Shared) (h' : Hart) (sh' : Shared) : Prop where
  other : Other L i woken h'.pc h'
  /-- It changes no memory. -/
  mem : sh'.mem = sh.mem
  loading : sh'.loading = sh.loading
  /-- It interrupts nobody. -/
  msip : ∀ j, sh'.msip j = true → sh.msip j = true
  /-- It enters the monitor in a known state. -/
  sm : h'.pc = .sm → woken ∧ L.Clean i h' ∧ h'.get 1 = L.symbols.smPtr
  bootloader : h'.pc ≠ .bootloader

section OtherStep

variable {L} {h h' : Hart} {sh sh' : Shared} {i k k' : ℕ} {l l' : Label} {ins : Instr} {woken : Prop}

/-- What another hart does on its own. -/
theorem OtherStep.of_rom (hpc' : h'.pc = .rom l' k') (hother : Other L i woken (.rom l' k') h') :
    OtherStep L i woken sh h' sh where
  other := hpc' ▸ hother
  mem := rfl
  loading := rfl
  msip _ hj := hj
  sm he := nomatch hpc'.symm.trans he
  bootloader he := nomatch hpc'.symm.trans he

theorem other_resetVector (hins : (source L.numHarts .resetVector)[k]? = some ins)
    (hexec : ins.exec L .resetVector k h sh = some (h', sh')) (hid : h.csr .mhartid = BitVec.ofNat 64 i) (hi : 0 < i)
    (hN : i < L.numHarts) (hother : Other L i woken (.rom .resetVector k) h) : OtherStep L i woken sh h' sh' := by
  obtain ⟨hk, h10, hmask⟩ := hother
  interval_cases k <;> obtain rfl := Option.some.inj hins <;> obtain ⟨rfl, rfl⟩ :=
    Prod.mk.inj (Option.some.inj hexec)
  · exact .of_rom rfl ⟨by decide, by simp, hmask⟩
  · refine .of_rom rfl ⟨by decide, fun _ => ?_, hmask⟩
    rw [get_goto, get_set (by decide), if_pos rfl, hid]
  · have hne : h.get 10 ≠ h.get 0 := fun he => by
      have hnat := congrArg BitVec.toNat ((h10 rfl).symm.trans he)
      have hlt := L.fits.numHarts_lt
      rw [get_zero, BitVec.toNat_ofNat, Nat.mod_eq_of_lt (by omega)] at hnat
      exact hi.ne' hnat
    rw [if_pos hne]
    exact .of_rom rfl ⟨fun _ => hmask, by simp, by simp⟩

theorem other_hartNonZero (hins : (source L.numHarts .hartNonZero)[k]? = some ins)
    (hexec : ins.exec L .hartNonZero k h sh = some (h', sh')) (hother : Other L i woken (.rom .hartNonZero k) h) :
    OtherStep L i woken sh h' sh' := by
  have hk : k < 8 := (List.getElem?_eq_some_iff.mp hins).1
  obtain ⟨hmask, h5, hmtvec⟩ := hother
  interval_cases k <;> obtain rfl := Option.some.inj hins <;> obtain ⟨rfl, rfl⟩ :=
    Prod.mk.inj (Option.some.inj hexec)
  · exact .of_rom rfl ⟨fun _ => hmask (by decide), by simp, by simp⟩
  · exact .of_rom rfl ⟨fun _ => hmask (by decide), by simp, by simp⟩
  · exact .of_rom rfl ⟨fun _ => hmask (by decide), by simp, by simp⟩
  · refine .of_rom rfl ⟨fun _ => hmask (by decide), fun _ => ?_, by simp⟩
    rw [get_goto, get_set (by decide), if_pos rfl]
    rfl
  · refine .of_rom rfl ⟨fun _ => ?_, by simp, fun _ => ?_⟩
    · rw [csr_goto, csr_setCsr, if_neg (by decide)]
      exact hmask (by decide)
    · rw [csr_goto, csr_setCsr, if_pos rfl, h5 rfl]
  · refine .of_rom rfl ⟨fun _ => ?_, by simp, fun _ => ?_⟩
    · rw [csr_goto, csr_setCsr, if_neg (by decide)]
      exact hmask (by decide)
    · rw [csr_goto, csr_setCsr, if_neg (by decide)]
      exact hmtvec (by decide)
  · refine .of_rom rfl ⟨fun h7 => absurd h7 (by decide), by simp, fun _ => ?_⟩
    rw [csr_goto, csr_setCsr, if_neg (by decide)]
    exact hmtvec (by decide)
  · exact .of_rom rfl (hmtvec (by decide))

theorem other_waitOnIpi (hins : (source L.numHarts .waitOnIpi)[k]? = some ins)
    (hexec : ins.exec L .waitOnIpi k h sh = some (h', sh')) (hother : Other L i woken (.rom .waitOnIpi k) h) :
    OtherStep L i woken sh h' sh' := by
  have hk : k < 2 := (List.getElem?_eq_some_iff.mp hins).1
  interval_cases k <;> obtain rfl := Option.some.inj hins <;> obtain ⟨rfl, rfl⟩ :=
    Prod.mk.inj (Option.some.inj hexec) <;>
    exact .of_rom rfl hother

theorem other_rotWakeOnIpi (hins : (source L.numHarts .rotWakeOnIpi)[k]? = some ins)
    (hexec : ins.exec L .rotWakeOnIpi k h sh = some (h', sh')) (hid : h.csr .mhartid = BitVec.ofNat 64 i)
    (hN : i < L.numHarts) (hother : Other L i woken (.rom .rotWakeOnIpi k) h) : OtherStep L i woken sh h' sh' := by
  have hk : k < 12 := (List.getElem?_eq_some_iff.mp hins).1
  obtain ⟨hwoken, hmask, h5, h6, h6', h5', hclean, h1⟩ := hother
  interval_cases k <;> obtain rfl := Option.some.inj hins <;> obtain ⟨rfl, rfl⟩ :=
    Prod.mk.inj (Option.some.inj hexec)
  · refine .of_rom rfl ⟨hwoken, hmask, fun _ => ?_, by simp⟩
    rw [get_goto, get_set (by decide), if_pos rfl]
  · refine .of_rom rfl ⟨hwoken, hmask, fun _ => ?_, fun _ => ?_, by simp⟩
    · rw [get_goto, get_set (by decide), if_neg (by decide), h5 (by decide)]
    · rw [get_goto, get_set (by decide), if_pos rfl, hid]
  · refine .of_rom rfl ⟨hwoken, hmask, fun _ => ?_, by simp, fun _ => ?_, by simp⟩
    · rw [get_goto, get_set (by decide), if_neg (by decide), h5 (by decide)]
    · rw [get_goto, get_set (by decide), if_pos rfl, h6 rfl]
      refine BitVec.eq_of_toNat_eq ?_
      simp [Nat.shiftLeft_eq]
  · refine .of_rom rfl ⟨hwoken, hmask, by simp, by simp, by simp, fun _ => ?_, by simp⟩
    rw [get_goto, get_set (by decide), if_pos rfl, h5 (by decide), h6' rfl]
  · have haddr : h.get 5 + 0 = msipBase + BitVec.ofNat 64 (i * 4) := (BitVec.add_zero _).trans (h5' rfl)
    rw [haddr, store32_msip hN]
    exact {
      other := ⟨hwoken, hmask, by simp⟩
      mem := rfl
      loading := rfl
      msip := fun j hj => by
        simp only [Function.update_apply] at hj
        split at hj
        · rw [get_zero] at hj
          exact absurd hj (by decide)
        · exact hj
      sm := nofun
      bootloader := nofun }
  · exact .of_rom rfl ⟨hwoken, hmask, by simp⟩
  · exact .of_rom rfl ⟨hwoken, hmask, by simp⟩
  · exact .of_rom rfl ⟨hwoken, hmask, by simp⟩
  · refine .of_rom rfl ⟨hwoken, ?_, by simp⟩
    rw [csr_goto, csr_setCsr, if_pos rfl, get_zero]
    rfl
  · refine .of_rom rfl ⟨hwoken, hmask, ?_, fun r h2 hr => by omega, by simp⟩
    rw [get_goto, get_set (by decide), if_pos rfl]
  · refine .of_rom rfl ⟨hwoken, hmask,
      by simp, by simp, by simp, by simp, fun _ => (hclean le_rfl).set_one, fun _ => ?_⟩
    rw [get_goto, get_set (by decide), if_pos rfl]
    rfl
  · have hloc : L.locate (h.get 1) = .sm := by rw [h1 le_rfl, L.fits.locate_sm]
    rw [hloc]
    exact {
      other := hwoken
      mem := rfl
      loading := rfl
      msip := fun _ hj => hj
      sm := fun _ => ⟨hwoken, (hclean (by decide)).goto, h1 le_rfl⟩
      bootloader := nofun }

theorem other_cleanCore (hins : (source L.numHarts .cleanCore)[k]? = some ins)
    (hexec : ins.exec L .cleanCore k h sh = some (h', sh')) (hid : h.csr .mhartid = BitVec.ofNat 64 i)
    (hother : Other L i woken (.rom .cleanCore k) h) : OtherStep L i woken sh h' sh' := by
  have hk : k < 32 := (List.getElem?_eq_some_iff.mp hins).1
  obtain ⟨hwoken, hmask, h1, hclean, hmscratch⟩ := hother
  by_cases h30 : k < 30
  · obtain ⟨r, hr, rfl, rfl⟩ := cleanCore_exec h30 hins hexec hid
    refine .of_rom rfl ⟨hwoken, hmask, ?_, hclean.set_next hr, fun hk' => absurd hk' (by omega)⟩
    rwa [get_goto, get_set (by decide), if_neg (by rintro rfl; exact absurd hr (by simp))]
  · interval_cases k <;> obtain rfl := Option.some.inj hins <;> obtain ⟨rfl, rfl⟩ :=
      Prod.mk.inj (Option.some.inj hexec)
    · refine .of_rom rfl ⟨hwoken, hmask, h1, fun r h2 _ => hclean r h2 r.isLt, fun _ => ?_⟩
      rw [csr_goto, csr_setCsr, if_pos rfl, get_zero]
    · rw [h1, L.fits.locate_address .rotWakeOnIpi 10 (by simp [source])]
      refine .of_rom rfl ⟨hwoken, hmask, by simp, by simp, by simp, by simp, fun _ =>
        ⟨fun r h2 hr => hclean r h2 (by omega), hmscratch le_rfl⟩, by simp⟩

/-- **An instruction of another hart.** -/
theorem other_exec (hins : (source L.numHarts l)[k]? = some ins) (hexec : ins.exec L l k h sh = some (h', sh'))
    (hid : h.csr .mhartid = BitVec.ofNat 64 i) (hi : 0 < i) (hN : i < L.numHarts)
    (hother : Other L i woken (.rom l k) h) : OtherStep L i woken sh h' sh' := by
  cases l with
  | resetVector => exact other_resetVector hins hexec hid hi hN hother
  | hartNonZero => exact other_hartNonZero hins hexec hother
  | waitOnIpi => exact other_waitOnIpi hins hexec hother
  | rotWakeOnIpi => exact other_rotWakeOnIpi hins hexec hid hN hother
  | cleanCore => exact other_cleanCore hins hexec hid hother
  | waitOnElf | mStackEraseLoop | wakeOtherHartsLoop | doneWakingOtherHarts | rotBadHash => exact hother.elim

/-- An interrupt of another hart leads to `.rot_wake_on_ipi`. -/
theorem other_interrupt (hmstatus : h.csr .mstatus &&& bit3 ≠ 0) (hwoken : woken)
    (hother : Other L i woken (.rom l k) h) :
    OtherStep L i woken sh ((h.setCsr .mstatus (h.csr .mstatus &&& ~~~bit3)).goto (L.locate (h.csr .mtvec))) sh := by
  have hmtvec : h.csr .mtvec = L.address .rotWakeOnIpi 0 := by
    cases l with
    | resetVector => exact absurd hother.2.2 hmstatus
    | hartNonZero =>
      by_cases h6 : k ≤ 6
      · exact absurd (hother.1 h6) hmstatus
      · exact hother.2.2 (by omega)
    | waitOnIpi => exact hother
    | rotWakeOnIpi => exact absurd hother.2.1 hmstatus
    | cleanCore => exact absurd hother.2.1 hmstatus
    | waitOnElf | mStackEraseLoop | wakeOtherHartsLoop | doneWakingOtherHarts | rotBadHash => exact hother.elim
  rw [hmtvec, L.fits.locate_address .rotWakeOnIpi 0 (by simp [source])]
  refine .of_rom rfl ⟨hwoken, ?_, by simp⟩
  rw [csr_goto, csr_setCsr, if_pos rfl, BitVec.and_assoc]
  exact BitVec.and_zero

end OtherStep

end Rot

end Boot

end Sanctum
