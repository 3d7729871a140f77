import Sanctum.Boot.RomHarts

/-!
# Measured boot

What holds in every run of the root of trust, whatever the order in which the harts take their steps.

## What is proved

* `step_cases` — what may happen in a step, given the assertions; `Inv.step`, `run_inv` — these hold in every state
  of every run.
* `measured_boot` — whatever hart enters the monitor, its registers are clean, and the boot loader has been run
  before from an image with the expected hash; if it is the first hart, the stacks are erased and the header attests
  the monitor that is in memory.
-/

namespace Sanctum

namespace Boot

open Ed25519 Memory

namespace Rot

open Instr

/-! ### The hash -/

/-- Lists that agree on each of their parts. -/
theorem eq_of_parts {xs ys : List Byte} {n : ℕ} (hx : xs.length = 8 * n) (hy : ys.length = 8 * n)
    (h : ∀ i < n, (xs.drop (8 * i)).take 8 = (ys.drop (8 * i)).take 8) : xs = ys := by
  induction n generalizing xs ys with
  | zero => rw [List.length_eq_zero_iff.mp hx, List.length_eq_zero_iff.mp hy]
  | succ n ih =>
    have htail : xs.drop 8 = ys.drop 8 := by
      refine ih (by rw [List.length_drop]; omega) (by rw [List.length_drop]; omega) fun i hi => ?_
      rw [List.drop_drop, List.drop_drop, Nat.add_comm, ← Nat.mul_succ]
      exact h (i + 1) (by omega)
    have hhead : xs.take 8 = ys.take 8 := h 0 (by omega)
    rw [← List.take_append_drop 8 xs, ← List.take_append_drop 8 ys, hhead, htail]

variable {G : Type} [AddCommGroup G] (c : Curve G) (L : Layout)

section System

variable {c L} {g : Ge} {point : g.P3 → G} {runs : List Byte → Memory → Memory → Prop} {m m' : Memory}

theorem rotHashAndVerify_spec (L : Layout) (m : Memory) :
    ∃ verified, rotHashAndVerify L m = some verified ∧ (verified = true ↔ L.Verified m) := by
  have hsha : Sha3.sha3 (m.slice L.bootloaderPtr L.bootloaderSize) 64 =
      some (Sha3.hash 64 (m.slice L.bootloaderPtr L.bootloaderSize)) := Sha3.sha3_eq_hash (by decide) _
  refine ⟨_, by rw [rotHashAndVerify, hsha]; rfl, ?_⟩
  simp only [List.all_eq_true, List.mem_range, beq_iff_eq, Layout.Verified]
  constructor
  · exact eq_of_parts (n := 8) (Sha3.length_hash (by decide) _) L.fits.length_expectedHash
  · intro h i _
    rw [h]

/-- The hash is computed in one place. -/
theorem source_callHash {n : ℕ} {l : Label} {k : ℕ} (h : (source n l)[k]? = some .callHash) :
    l = .waitOnElf ∧ k = 2 := by
  have hmem := List.mem_of_getElem? h
  have hl : l = .waitOnElf := by cases l <;> first | rfl | simp [source] at hmem
  subst hl
  have hk : k < 9 := (List.getElem?_eq_some_iff.mp h).1
  interval_cases k <;> simp [source] at h ⊢

/-- **The boot loader**, if it has the expected hash. -/
theorem booted_of_runs (hg : g.Computes c point) (hruns : Genuine L g runs) (hverified : L.Verified m)
    (hrun : runs (m.slice L.bootloaderPtr L.bootloaderSize) m m') : L.Booted c m' := by
  obtain ⟨H, beyond, trng, n, turn, taken, s, hH, hs, hframe⟩ := hruns _ _ _ hverified hrun
  have hconfined : H.Confined L.symbols InHtif := confined_inHtif hH
  obtain ⟨hother, hattested⟩ := rotBootloader_attests hg hconfined hs
  have hafter : ∀ b, L.symbols.header.toNat + 256 ≤ b.toNat → s.mem b = m b := fun b hb =>
    hother b (by rw [within_header_iff]; omega) (hconfined.not_header (by omega))
  have hbooted : L.Booted c s.mem := fun hplaced => by
    have hplaced' : L.symbols.Placed m := by
      rw [Symbols.Placed, ← smSize_congr hafter]
      exact hplaced
    exact ⟨seed trng, by rw [monitor_congr hplaced' hafter]; exact hattested hplaced'⟩
  exact hbooted.congr hframe

/-! ### Frames -/

theorem not_inHtif_of_inStacks {b : Word} (hb : L.InStacks b) : ¬ InHtif b := by
  have := L.fits.htif
  rw [inStacks_iff] at hb
  rw [inHtif_iff]
  omega

/-- What holds of hart 0 is not affected by the host's registers. -/
theorem Main.congr {pc : Pc} {h : Hart} {sh sh' : Shared} (hmain : Main c L pc h sh)
    (hloading : sh'.loading = sh.loading)
    (hm : ∀ b, ¬ InHtif b → sh'.mem b = sh.mem b) : Main c L pc h sh' := by
  have hverified : L.Verified sh'.mem ↔ L.Verified sh.mem := verified_congr fun b _ hb => hm b hb
  have hbooted : L.Booted c sh.mem → L.Booted c sh'.mem := fun h => h.congr fun b _ hb => hm b hb
  have hfrom : ∀ {a}, L.ErasedFrom sh.mem a → L.ErasedFrom sh'.mem a := fun h b hb ha =>
    (hm b (not_inHtif_of_inStacks hb)).trans (h b hb ha)
  cases pc with
  | bootloader =>
    obtain ⟨h₁, h₂, h₃⟩ := hmain
    exact ⟨hloading.trans h₁, hverified.mpr h₂, h₃⟩
  | sm => trivial
  | rom l k =>
    cases l with
    | waitOnElf =>
      obtain ⟨h₁, h₂, h₃, h₄, h₅, h₆, h₇, h₈⟩ := hmain
      exact ⟨h₁, fun hk h0 => hloading.trans (h₂ hk h0), fun hk => hloading.trans (h₃ hk),
        fun hk h0 => hverified.mpr (h₄ hk h0), fun hk => hverified.mpr (h₅ hk), h₆, fun hk => hbooted (h₇ hk), h₈⟩
    | mStackEraseLoop =>
      obtain ⟨h₁, h₂, h₃, h₄, h₅, h₆, h₇⟩ := hmain
      refine ⟨hloading.trans h₁, hbooted h₂, h₃, fun hk => ?_, fun hk => ?_, fun hk b hb => ?_, h₇⟩
      · obtain ⟨n, hn, hreg, he⟩ := h₄ hk
        exact ⟨n, hn, hreg, hfrom he⟩
      · obtain ⟨n, hn, hreg, he⟩ := h₅ hk
        exact ⟨n, hn, hreg, hfrom he⟩
      · exact (hm b (not_inHtif_of_inStacks hb)).trans (h₆ hk b hb)
    | _ => exact hmain

theorem Layout.Erased.congr (h : L.Erased m) (hm : ∀ b, ¬ InHtif b → m' b = m b) : L.Erased m' := fun b hb =>
  (hm b (not_inHtif_of_inStacks hb)).trans (h b hb)

theorem Other.mono {i : ℕ} {woken woken' : Prop} {pc : Pc} {h : Hart} (hother : Other L i woken pc h)
    (hw : woken → woken') : Other L i woken' pc h := by
  cases pc with
  | bootloader => exact hother
  | sm => exact hw hother
  | rom l k =>
    cases l with
    | rotWakeOnIpi | cleanCore => exact ⟨hw hother.1, hother.2⟩
    | _ => exact hother

end System

/-! ### All harts -/

/-- What holds of all harts. -/
structure Inv (s : System) : Prop where
  main : Main c L (s.hart 0).pc (s.hart 0) s.shared
  /-- Hart 0 takes no interrupts. -/
  masked : (s.hart 0).pc ≠ .sm → (s.hart 0).csr .mstatus &&& bit3 = 0
  /-- Until a hart enters the monitor, nothing has been changed since the stacks were erased. -/
  memory : (s.hart 0).pc.awake → (∀ i < L.numHarts, (s.hart i).pc ≠ .sm) →
    L.Erased s.shared.mem ∧ L.Booted c s.shared.mem ∧ s.shared.loading = false
  other : ∀ i, 0 < i → i < L.numHarts → Other L i (s.hart 0).pc.awake (s.hart i).pc (s.hart i)
  mhartid : ∀ i < L.numHarts, (s.hart i).pc ≠ .sm → (s.hart i).csr .mhartid = BitVec.ofNat 64 i
  /-- No interrupt comes before hart 0 wakes the others. -/
  msip : ∀ i, s.shared.msip i = true → (s.hart 0).pc.awake

/-- What a step does, and whose it is. -/
inductive StepCase (s : System) (act : Act) : System → Prop where
  | main {h : Hart} {sh : Shared} (hstep : MainStep c L (s.hart 0) s.shared h sh) (hsm : (s.hart 0).pc ≠ .sm)
      (hmstatus : h.csr .mstatus = (s.hart 0).csr .mstatus) (hmhartid : h.csr .mhartid = (s.hart 0).csr .mhartid)
      (hboot : (s.hart 0).pc = .bootloader → act = .boot 0) : StepCase s act ⟨Function.update s.hart 0 h, sh⟩
  | other {i : ℕ} {h : Hart} {sh : Shared} (hi : 0 < i) (hstep : OtherStep L i (s.hart 0).pc.awake s.shared h sh)
      (hsm : (s.hart i).pc ≠ .sm) (hmhartid : h.csr .mhartid = (s.hart i).csr .mhartid) :
      StepCase s act ⟨Function.update s.hart i h, sh⟩
  | monitor {i : ℕ} {h : Hart} {sh : Shared} (hi : i < L.numHarts) (hpc : (s.hart i).pc = .sm) (hpc' : h.pc = .sm) :
      StepCase s act ⟨Function.update s.hart i h, sh⟩
  | host {sh : Shared} (hmsip : sh.msip = s.shared.msip) (hsh : s.shared.loading = true ∨
      sh.loading = s.shared.loading ∧ ∀ b, ¬ InHtif b → sh.mem b = s.shared.mem b) : StepCase s act ⟨s.hart, sh⟩

section Steps

variable {c L} {g : Ge} {point : g.P3 → G} {runs : List Byte → Memory → Memory → Prop} {s s' : System} {act : Act}

/-- Only the harts that wait for an interrupt write `mstatus`. -/
theorem source_mstatus {n : ℕ} {l : Label} {ins : Instr} (h : ins ∈ source n l)
    (hl : l ≠ .hartNonZero ∧ l ≠ .rotWakeOnIpi) :
    (∀ rs, ins ≠ csrw .mstatus rs) ∧ ∀ imm, ins ≠ csrsi .mstatus imm := by
  constructor <;> rintro _ rfl <;> cases l <;> simp [source] at h hl

/-- In the states in which the host may load memory, hart 0 relies on none. -/
theorem Main.of_loading {pc : Pc} {h : Hart} {sh sh' : Shared} (hmain : Main c L pc h sh) (hl : sh.loading = true) :
    Main c L pc h sh' := by
  have hfalse : ¬ sh.loading = false := by simp [hl]
  cases pc with
  | bootloader => exact absurd hmain.1 hfalse
  | sm => trivial
  | rom l k =>
    cases l with
    | mStackEraseLoop => exact absurd hmain.1 hfalse
    | waitOnElf =>
      obtain ⟨h₁, h₂, h₃, -⟩ := hmain
      have hk : k ≤ 1 := not_lt.mp fun hk => hfalse (h₃ hk)
      refine ⟨h₁, fun hk h0 => absurd (h₂ hk h0) hfalse, ?_, ?_, ?_, ?_, ?_, ?_, ?_⟩ <;>
        exact fun hk' => absurd hk' (by omega)
    | _ => exact hmain

theorem Main.of_awake {pc : Pc} {h : Hart} {sh sh' : Shared} (hmain : Main c L pc h sh) (ha : pc.awake) :
    Main c L pc h sh' := by
  cases pc with
  | bootloader => exact ha.elim
  | sm => trivial
  | rom l k =>
    cases l with
    | mStackEraseLoop | waitOnElf => exact ha.elim
    | _ => exact hmain

/-- A step of hart 0. -/
theorem Inv.of_main {h : Hart} {sh : Shared} (hinv : Inv c L s) (hstep : MainStep c L (s.hart 0) s.shared h sh)
    (hsm : (s.hart 0).pc ≠ .sm) (hmstatus : h.csr .mstatus = (s.hart 0).csr .mstatus)
    (hmhartid : h.csr .mhartid = (s.hart 0).csr .mhartid) : Inv c L ⟨Function.update s.hart 0 h, sh⟩ := by
  have hother : ∀ j, j ≠ 0 → Function.update s.hart 0 h j = s.hart j := fun j hj => Function.update_of_ne hj ..
  constructor
  · simpa using hstep.main
  · simpa [hmstatus] using fun _ => hinv.masked hsm
  · intro ha hnone
    simp only [Function.update_self] at ha
    by_cases ha' : (s.hart 0).pc.awake
    · obtain ⟨-, hmem, hloading⟩ := hstep.awake ha'
      have hnone' : ∀ j < L.numHarts, (s.hart j).pc ≠ .sm := fun j hj => by
        by_cases h0 : j = 0
        · exact h0 ▸ hsm
        · simpa only [hother j h0] using hnone j hj
      obtain ⟨h₁, h₂, h₃⟩ := hinv.memory ha' hnone'
      exact ⟨by rwa [hmem], by rwa [hmem], by rwa [hloading]⟩
    · exact hstep.ready ha ha'
  · intro j hj hN
    simp only [hother j hj.ne', Function.update_self]
    exact (hinv.other j hj hN).mono fun ha => (hstep.awake ha).1
  · intro j hj hpc
    by_cases h0 : j = 0
    · subst h0
      simp only [Function.update_self, hmhartid]
      exact hinv.mhartid 0 hj hsm
    · simp only [hother j h0] at hpc ⊢
      exact hinv.mhartid j hj hpc
  · intro j hj
    simp only [Function.update_self]
    by_contra ha
    have hmsip := hstep.msip ha
    exact ha (hstep.awake (hinv.msip j (by rwa [← hmsip]))).1

/-- A step of another hart. -/
theorem Inv.of_other {i : ℕ} {h : Hart} {sh : Shared} (hinv : Inv c L s) (hi : 0 < i)
    (hstep : OtherStep L i (s.hart 0).pc.awake s.shared h sh) (hsm : (s.hart i).pc ≠ .sm)
    (hmhartid : h.csr .mhartid = (s.hart i).csr .mhartid) : Inv c L ⟨Function.update s.hart i h, sh⟩ := by
  have hother : ∀ j, j ≠ i → Function.update s.hart i h j = s.hart j := fun j hj => Function.update_of_ne hj ..
  have h0 := hother 0 hi.ne
  constructor
  · simp only [h0]
    exact hinv.main.congr hstep.loading fun b _ => congrFun hstep.mem b
  · simpa only [h0] using hinv.masked
  · intro ha hnone
    simp only [h0] at ha
    have hnone' : ∀ j < L.numHarts, (s.hart j).pc ≠ .sm := fun j hj => by
      by_cases hji : j = i
      · exact hji ▸ hsm
      · simpa only [hother j hji] using hnone j hj
    obtain ⟨h₁, h₂, h₃⟩ := hinv.memory ha hnone'
    exact ⟨by rwa [hstep.mem], by rwa [hstep.mem], by rwa [hstep.loading]⟩
  · intro j hj hN
    simp only [h0]
    by_cases hji : j = i
    · subst hji
      simpa only [Function.update_self] using hstep.other
    · simpa only [hother j hji] using hinv.other j hj hN
  · intro j hj hpc
    by_cases hji : j = i
    · subst hji
      simp only [Function.update_self, hmhartid]
      exact hinv.mhartid j hj hsm
    · simp only [hother j hji] at hpc ⊢
      exact hinv.mhartid j hj hpc
  · intro j hj
    simp only [h0]
    exact hinv.msip j (hstep.msip j hj)

/-- A hart in the monitor may do what it likes: all that is left to say is that hart 0 is awake. -/
theorem Inv.of_monitor {i : ℕ} {h : Hart} {sh : Shared} (hinv : Inv c L s) (hi : i < L.numHarts)
    (hpc : (s.hart i).pc = .sm) (hpc' : h.pc = .sm) : Inv c L ⟨Function.update s.hart i h, sh⟩ := by
  have hother : ∀ j, j ≠ i → Function.update s.hart i h j = s.hart j := fun j hj => Function.update_of_ne hj ..
  have hsame : ∀ j, (Function.update s.hart i h j).pc = (s.hart j).pc := fun j => by
    by_cases hji : j = i
    · subst hji
      rw [Function.update_self, hpc, hpc']
    · rw [hother j hji]
  have hawake : (s.hart 0).pc.awake := by
    rcases Nat.eq_zero_or_pos i with rfl | hpos
    · rw [hpc]
      trivial
    · have hwoken := hinv.other i hpos hi
      rw [hpc] at hwoken
      exact hwoken
  constructor
  · simp only [hsame]
    by_cases h0 : 0 = i
    · subst h0
      rw [hpc]
      trivial
    · rw [hother 0 h0]
      exact hinv.main.of_awake hawake
  · intro hne
    by_cases h0 : 0 = i
    · subst h0
      exact absurd (by simpa using hpc') hne
    · simp only [hother 0 h0] at hne ⊢
      exact hinv.masked hne
  · exact fun _ hnone => absurd (by simpa using hpc') (hnone i hi)
  · intro j hj hN
    simp only [hsame]
    by_cases hji : j = i
    · subst hji
      rw [hpc]
      exact hawake
    · rw [hother j hji]
      exact hinv.other j hj hN
  · intro j hj hne
    by_cases hji : j = i
    · subst hji
      exact absurd (by simpa using hpc') hne
    · simp only [hother j hji] at hne ⊢
      exact hinv.mhartid j hj hne
  · intro _ _
    simp only [hsame]
    exact hawake

/-- Hart 0 has its hash computed. -/
theorem main_hash {h h' : Hart} {sh : Shared} {m : Memory} {verified : Bool} (hpc : h.pc = .rom .waitOnElf 2)
    (hverify : rotHashAndVerify L sh.mem = some verified) (hpc' : h'.pc = .rom .waitOnElf 3)
    (ha0 : h'.get 10 = if verified then 1 else 0) (hm : ∀ b, ¬ L.InStacks b → m b = sh.mem b)
    (hmain : Main c L h.pc h sh) : MainStep c L h sh h' { sh with mem := m } := by
  rw [hpc] at hmain
  obtain ⟨verified', hspec, hiff⟩ := rotHashAndVerify_spec L sh.mem
  obtain rfl := Option.some.inj (hspec.symm.trans hverify)
  have hverified : h'.get 10 ≠ 0 → L.Verified m := fun h0 => by
    refine (verified_congr fun b hb _ => hm b hb).mpr (hiff.mp ?_)
    by_contra hv
    exact h0 (by rw [ha0, if_neg hv])
  have hloading : sh.loading = false := hmain.2.2.1 le_rfl
  exact .of_asleep hpc hpc' nofun nofun (by simp [Pc.booted]) rfl (by simpa [Main, hloading] using hverified)

/-- Hart 0 comes back from the boot loader. -/
theorem main_boot {h h' : Hart} {sh : Shared} {m : Memory} (hg : g.Computes c point) (hruns : Genuine L g runs)
    (hpc : h.pc = .bootloader) (hrun : runs (sh.mem.slice L.bootloaderPtr L.bootloaderSize) sh.mem m)
    (hpc' : h'.pc = L.locate (h.get 1)) (hmain : Main c L h.pc h sh) : MainStep c L h sh h' { sh with mem := m } :=
    by
  rw [hpc] at hmain
  obtain ⟨hloading, hverified, h1⟩ := hmain
  have hbooted : L.Booted c m := booted_of_runs hg hruns hverified hrun
  rw [h1, L.fits.locate_address .waitOnElf 6 (by simp [source])] at hpc'
  exact {
    main := by rw [hpc']; simp [Main, hloading, hbooted]
    awake := fun ha => (hpc ▸ ha : Pc.bootloader.awake).elim
    booted := fun _ => .inr hpc
    ready := fun ha => (hpc' ▸ ha : (Pc.rom .waitOnElf 6).awake).elim
    msip := fun _ => rfl
    sm := fun he => Pc.noConfusion (hpc'.symm.trans he)
    bootloader := fun he => Pc.noConfusion (hpc'.symm.trans he) }

/-- **What may happen in a step**, given the assertions. -/
theorem step_cases (hg : g.Computes c point) (hruns : Genuine L g runs) (hinv : Inv c L s)
    (hstep : SysStep L runs s act s') : StepCase c L s act s' := by
  cases hstep with
  | @instr i l k ins h sh hi hpc hins hexec =>
    have hsm : (s.hart i).pc ≠ .sm := by rw [hpc]; nofun
    have hid := hinv.mhartid i hi hsm
    have hmhartid := exec_mhartid hins hexec
    rcases Nat.eq_zero_or_pos i with rfl | hpos
    · have hmain := hinv.main
      have hl : l ≠ .hartNonZero ∧ l ≠ .rotWakeOnIpi := by
        constructor <;> rintro rfl <;> exact (hpc ▸ hmain).elim
      obtain ⟨hw, hs⟩ := source_mstatus (List.mem_of_getElem? hins) hl
      exact .main (main_exec hpc hins hexec hid hmain) hsm (exec_csr hexec hw hs) hmhartid
        fun he => nomatch hpc.symm.trans he
    · exact .other hpos (other_exec hins hexec hid hpos hi (hpc ▸ hinv.other i hpos hi)) hsm hmhartid
  | @hash i l k h m verified hi hpc hins hverify hret ha0 hm =>
    obtain ⟨rfl, rfl⟩ := source_callHash hins
    rcases Nat.eq_zero_or_pos i with rfl | hpos
    · exact .main (main_hash hpc hverify hret.pc ha0 hm hinv.main) (by rw [hpc]; nofun) (by rw [hret.csr])
        (by rw [hret.csr]) fun he => nomatch hpc.symm.trans he
    · exact (hpc ▸ hinv.other i hpos hi : Other L i _ (.rom .waitOnElf 2) _).elim
  | @boot i h m hi hpc hrun hret =>
    rcases Nat.eq_zero_or_pos i with rfl | hpos
    · exact .main (main_boot hg hruns hpc hrun hret.pc hinv.main) (by rw [hpc]; nofun) (by rw [hret.csr])
        (by rw [hret.csr]) fun _ => rfl
    · exact (hpc ▸ hinv.other i hpos hi : Other L i _ .bootloader _).elim
  | @interrupt i l k hi hpc hmie hmstatus hmsip =>
    have hsm : (s.hart i).pc ≠ .sm := by rw [hpc]; nofun
    rcases Nat.eq_zero_or_pos i with rfl | hpos
    · exact absurd (hinv.masked hsm) hmstatus
    · exact .other hpos (other_interrupt hmstatus (hinv.msip i hmsip) (hpc ▸ hinv.other i hpos hi)) hsm
        (by rw [csr_goto, csr_setCsr, if_neg (by decide)])
  | monitor hi hpc hpc' => exact .monitor hi hpc hpc'
  | load hloading => exact .host rfl (.inl hloading)
  | host hm => exact .host rfl (.inr ⟨rfl, hm⟩)

/-- **A step** keeps the assertions. -/
theorem Inv.step (hinv : Inv c L s) (hcase : StepCase c L s act s') : Inv c L s' := by
  cases hcase with
  | main hstep hsm hmstatus hmhartid _ => exact hinv.of_main hstep hsm hmstatus hmhartid
  | other hi hstep hsm hmhartid => exact hinv.of_other hi hstep hsm hmhartid
  | monitor hi hpc hpc' => exact hinv.of_monitor hi hpc hpc'
  | @host sh hmsip hsh =>
    refine ⟨?_, hinv.masked, fun ha hnone => ?_, hinv.other, hinv.mhartid, fun i hi =>
      hinv.msip i (by rwa [← hmsip])⟩
    · rcases hsh with hl | ⟨hloading, hm⟩
      · exact hinv.main.of_loading hl
      · exact hinv.main.congr hloading hm
    · obtain ⟨herased, hbooted, hloaded⟩ := hinv.memory ha hnone
      rcases hsh with hl | ⟨hloading, hm⟩
      · exact absurd hl (by simp [hloaded])
      · exact ⟨herased.congr hm, hbooted.congr fun b _ hb => hm b hb, hloading.trans hloaded⟩

/-- A hart that enters the monitor. -/
theorem StepCase.enters {i : ℕ} (hcase : StepCase c L s act s')
    (hpc : (s.hart i).pc ≠ .sm) (hpc' : (s'.hart i).pc = .sm) :
    (s.hart 0).pc.awake ∧ L.Clean i (s'.hart i) ∧ (s'.hart i).get 1 = L.symbols.smPtr := by
  cases hcase with
  | main hstep _ _ _ _ =>
    by_cases h0 : i = 0
    · subst h0
      simp only [Function.update_self] at hpc' ⊢
      exact hstep.sm hpc'
    · simp only [Function.update_of_ne h0] at hpc'
      exact absurd hpc' hpc
  | @other i' _ _ _ hstep _ _ =>
    by_cases h0 : i = i'
    · subst h0
      simp only [Function.update_self] at hpc' ⊢
      exact hstep.sm hpc'
    · simp only [Function.update_of_ne h0] at hpc'
      exact absurd hpc' hpc
  | @monitor i' _ _ _ hsm _ =>
    by_cases h0 : i = i'
    · exact absurd (h0 ▸ hsm) hpc
    · simp only [Function.update_of_ne h0] at hpc'
      exact absurd hpc' hpc
  | host _ _ => exact absurd hpc' hpc

/-- Hart 0 gets past the boot loader by running it. -/
theorem StepCase.boots (hcase : StepCase c L s act s') (hinv : Inv c L s) (hbooted : (s'.hart 0).pc.booted) :
    (s.hart 0).pc.booted ∨ act = .boot 0 ∧ L.Verified s.shared.mem := by
  cases hcase with
  | main hstep _ _ _ hboot =>
    simp only [Function.update_self] at hbooted
    rcases hstep.booted hbooted with h | h
    · exact .inl h
    · have hmain := hinv.main
      rw [h] at hmain
      exact .inr ⟨hboot h, hmain.2.1⟩
  | other hi _ _ _ =>
    simp only [Function.update_of_ne hi.ne] at hbooted
    exact .inl hbooted
  | @monitor i _ _ _ hsm hsm' =>
    by_cases h0 : 0 = i
    · subst h0
      rw [hsm]
      exact .inl trivial
    · simp only [Function.update_of_ne h0] at hbooted
      exact .inl hbooted
  | host _ _ => exact .inl hbooted

theorem Inv.of_reset (hreset : Reset L s) : Inv c L s := by
  have hpc := hreset.pc
  refine ⟨?_, fun _ => ?_, fun ha => ?_, fun i _ hN => ?_, fun i hN _ => hreset.mhartid i hN, fun i hi => ?_⟩
  · rw [hpc 0 L.fits.numHarts_pos]
    simp [Main]
  · rw [hreset.mstatus 0 L.fits.numHarts_pos]
    rfl
  · rw [hpc 0 L.fits.numHarts_pos] at ha
    exact ha.elim
  · rw [hpc i hN]
    exact ⟨by decide, by simp, by rw [hreset.mstatus i hN]; rfl⟩
  · exact absurd hi (by simp [hreset.msip i])

/-- **A run**: the assertions hold, and the boot loader that has been run had the expected hash. -/
theorem run_inv (hg : g.Computes c point) (hruns : Genuine L g runs) (hreset : Reset L s)
    {tr : List (Step System Act)}
    (hrun : Run (SysStep L runs) s tr s') :
    Inv c L s' ∧ ((s'.hart 0).pc.booted → ∃ st ∈ tr, st.label = .boot 0 ∧ L.Verified st.pre.shared.mem) := by
  refine hrun.history (P := fun tr s' => Inv c L s' ∧ ((s'.hart 0).pc.booted → ∃ st ∈ tr, st.label = .boot 0 ∧
    L.Verified st.pre.shared.mem)) ⟨.of_reset hreset, fun hb => ?_⟩ fun tr s' act s'' _ ih hstep => ?_
  · rw [hreset.pc 0 L.fits.numHarts_pos] at hb
    exact hb.elim
  · obtain ⟨hinv, hboot⟩ := ih
    have hcase := step_cases hg hruns hinv hstep
    refine ⟨hinv.step hcase, fun hb => ?_⟩
    rcases hcase.boots hinv hb with hb' | ⟨hact, hverified⟩
    · obtain ⟨st, hst, h⟩ := hboot hb'
      exact ⟨st, List.mem_append_left _ hst, h⟩
    · exact ⟨_, List.mem_append_right _ (List.mem_singleton_self _), hact, hverified⟩

/-- **Measured boot.** Whenever a hart enters the monitor, it has nothing in its registers but what the monitor is to
be given, and the boot loader has been run before, from an image with the expected hash. As long as no other hart has
entered the monitor, the stacks are erased, and the header attests the monitor that is in memory. -/
theorem measured_boot (hg : g.Computes c point) (hruns : Genuine L g runs) (hreset : Reset L s)
    {p q : List (Step System Act)} {st : Step System Act} (hrun : Run (SysStep L runs) s (p ++ st :: q) s') {i : ℕ}
    (hpc : (st.pre.hart i).pc ≠ .sm) (hpc' : (st.post.hart i).pc = .sm) :
    L.Clean i (st.post.hart i) ∧ (st.post.hart i).get 1 = L.symbols.smPtr ∧
      (∃ st' ∈ p, st'.label = .boot 0 ∧ L.Verified st'.pre.shared.mem) ∧
      ((∀ j < L.numHarts, (st.pre.hart j).pc ≠ .sm) →
        L.Erased st.pre.shared.mem ∧ L.Booted c st.pre.shared.mem) := by
  obtain ⟨hbefore, hstep, -⟩ := hrun.split
  obtain ⟨hinv, hboot⟩ := run_inv hg hruns hreset hbefore
  obtain ⟨hawake, hclean, h1⟩ := (step_cases hg hruns hinv hstep).enters hpc hpc'
  refine ⟨hclean, h1, hboot (booted_of_awake hawake), fun hnone => ?_⟩
  obtain ⟨herased, hbooted, -⟩ := hinv.memory hawake hnone
  exact ⟨herased, hbooted⟩

end Steps

/-! ### A boot -/

section TwoHarts

variable {L : Layout} {runs : List Byte → Memory → Memory → Prop}

/-- One instruction of the boot ROM. -/
def Layout.next (L : Layout) (h : Hart) (sh : Shared) : Option (Hart × Shared) :=
  match h.pc with
  | .rom l k => (source L.numHarts l)[k]?.bind (·.exec L l k h sh)
  | _ => none

/-- Up to `n` of them. -/
def Layout.steps (L : Layout) : ℕ → Hart → Shared → Hart × Shared
  | 0, h, sh => (h, sh)
  | n + 1, h, sh =>
    match L.next h sh with
    | some x => L.steps n x.1 x.2
    | none => (h, sh)

/-- Some run leads from one state to another. -/
def Leads (L : Layout) (runs : List Byte → Memory → Memory → Prop) (s s' : System) : Prop :=
  ∃ tr, Run (SysStep L runs) s tr s'

theorem Leads.trans {s s' s'' : System} (h : Leads L runs s s') (h' : Leads L runs s' s'') : Leads L runs s s'' := by
  obtain ⟨tr, htr⟩ := h
  obtain ⟨tr', htr'⟩ := h'
  exact ⟨_, htr.append htr'⟩

theorem leads_of_step {s s' : System} {act : Act} (h : SysStep L runs s act s') : Leads L runs s s' :=
  ⟨_, Run.nil.snoc h⟩

theorem step_next {i : ℕ} (hi : i < L.numHarts) {s : System} {x : Hart × Shared}
    (hx : L.next (s.hart i) s.shared = some x) :
    SysStep L runs s (.instr i) ⟨Function.update s.hart i x.1, x.2⟩ := by
  rw [Layout.next] at hx
  split at hx
  · next l k hpc =>
    obtain ⟨ins, hins, hexec⟩ := Option.bind_eq_some_iff.mp hx
    exact .instr hi hpc hins hexec
  · nomatch hx

/-- A hart goes on for a while. -/
theorem leads_steps {i : ℕ} (hi : i < L.numHarts) (n : ℕ) (s : System) :
    Leads L runs s ⟨Function.update s.hart i (L.steps n (s.hart i) s.shared).1, (L.steps n (s.hart i) s.shared).2⟩ := by
  induction n generalizing s with
  | zero =>
    rw [Layout.steps, Function.update_eq_self]
    exact ⟨[], .nil⟩
  | succ n ih =>
    rw [Layout.steps]
    split
    · next x hx =>
      have hrest := ih ⟨Function.update s.hart i x.1, x.2⟩
      simp only [Function.update_self, Function.update_idem] at hrest
      exact (leads_of_step (step_next hi hx)).trans hrest
    · rw [Function.update_eq_self]
      exact ⟨[], .nil⟩

/-- Two harts, and others that do not count. -/
def pair (h₀ h₁ : Hart) (sh : Shared) : System where
  hart
    | 0 => h₀
    | 1 => h₁
    | _ => ⟨.sm, fun _ => 0, fun _ => 0⟩
  shared := sh

theorem update_pair_zero {h h₀ h₁ : Hart} {sh sh' : Shared} :
    (⟨Function.update (pair h₀ h₁ sh).hart 0 h, sh'⟩ : System) = pair h h₁ sh' := by
  rw [pair, pair, System.mk.injEq]
  exact ⟨funext fun i => match i with | 0 => rfl | 1 => rfl | _ + 2 => rfl, rfl⟩

theorem update_pair_one {h h₀ h₁ : Hart} {sh sh' : Shared} :
    (⟨Function.update (pair h₀ h₁ sh).hart 1 h, sh'⟩ : System) = pair h₀ h sh' := by
  rw [pair, pair, System.mk.injEq]
  exact ⟨funext fun i => match i with | 0 => rfl | 1 => rfl | _ + 2 => rfl, rfl⟩

theorem leads_main {h₀ h₁ : Hart} {sh : Shared} (n : ℕ) :
    Leads L runs (pair h₀ h₁ sh) (pair (L.steps n h₀ sh).1 h₁ (L.steps n h₀ sh).2) := by
  have h : Leads L runs (pair h₀ h₁ sh) _ := leads_steps L.fits.numHarts_pos n _
  rwa [update_pair_zero] at h

theorem leads_other {h₀ h₁ : Hart} {sh : Shared} (hN : 1 < L.numHarts) (n : ℕ) :
    Leads L runs (pair h₀ h₁ sh) (pair h₀ (L.steps n h₁ sh).1 (L.steps n h₁ sh).2) := by
  have h : Leads L runs (pair h₀ h₁ sh) _ := leads_steps hN n _
  rwa [update_pair_one] at h

/-- The labels, by number. -/
def Label.number : Label → ℕ
  | .resetVector => 0
  | .waitOnElf => 1
  | .mStackEraseLoop => 2
  | .wakeOtherHartsLoop => 3
  | .doneWakingOtherHarts => 4
  | .rotBadHash => 5
  | .hartNonZero => 6
  | .waitOnIpi => 7
  | .rotWakeOnIpi => 8
  | .cleanCore => 9

/-- Which label has a number. -/
def Label.ofNumber : ℕ → Label
  | 0 => .resetVector
  | 1 => .waitOnElf
  | 2 => .mStackEraseLoop
  | 3 => .wakeOtherHartsLoop
  | 4 => .doneWakingOtherHarts
  | 5 => .rotBadHash
  | 6 => .hartNonZero
  | 7 => .waitOnIpi
  | 8 => .rotWakeOnIpi
  | _ => .cleanCore

/-- Two harts, and the hash of what is to be loaded. -/
def twoPlaces : Places where
  numHarts := 2
  mStackBase := 0x80001000
  bootloaderPtr := 0x80003000
  bootloaderSize := 0x1F000
  symbols := pagedSymbols
  dtbPtr := 0x2000
  expectedHash := Sha3.hash 64 (imageMemory.slice 0x80003000 0x1F000)
  address l k := BitVec.ofNat 64 (0x1000 + 0x100 * l.number + 4 * k)
  locate a :=
    if a = 0x80003000 then .bootloader else if a = pagedSymbols.smPtr then .sm else
      .rom (.ofNumber ((a.toNat - 0x1000) / 0x100)) (a.toNat % 0x100 / 4)

theorem twoPlaces_fits : twoPlaces.Fits where
  length_expectedHash := by
    simp only [twoPlaces, Sha3.length_hash (by decide : 3 * 64 ≤ 200)]
  locate_address l k hk := by
    have hlt : k < 32 := hk.trans_le (by cases l <;> simp [source])
    clear hk
    revert k
    cases l <;> decide +kernel
  locate_bootloader := rfl
  locate_sm := rfl
  numHarts_pos := by decide
  numHarts_lt := by decide
  fromhost := rfl
  tohost := by decide
  htif := by decide
  mStacks := by decide
  bootloader := by decide
  header := by decide

/-- A layout for two harts. -/
def twoHarts : Layout := ⟨twoPlaces, twoPlaces_fits⟩

/-- The boot loader runs as its source says, with a slow host and some randomness. -/
def bootRuns (_ : List Byte) (m m' : Memory) : Prop :=
  ∃ trng n s, rotBootloader slowHost ge25519 pagedSymbols (fun _ => 0) trng n ⟨m, 1, []⟩ = some s ∧ m' = s.mem

theorem genuine_bootRuns : Genuine twoHarts ge25519 bootRuns := fun _ _ _ _ ⟨trng, n, s, hs, hm⟩ =>
  ⟨slowHost, _, trng, n, 1, [], s, fun t m b hb => slowHost_serves.frame t m b fun hin =>
    hb ((confined_inHtif (L := twoHarts) (H := fun _ m => m) fun _ _ _ _ => rfl).registers b hin), hs,
    fun b _ _ => congrFun hm b⟩

theorem exists_bootRuns :
    ∃ m, bootRuns (imageMemory.slice twoHarts.bootloaderPtr twoHarts.bootloaderSize) imageMemory m := by
  obtain ⟨s, -, hs, -⟩ := rotBootloader_spec slowHost_serves ge25519_computes (fun _ => 0) (fun _ => 7)
    ⟨imageMemory, 1, []⟩ imageMemory_placed
  obtain ⟨n, hn⟩ := hs.exists
  exact ⟨s.mem, _, n, s, hn, rfl⟩

/-- A hart that has just been reset: there may be anything in its registers, -/
def resetHart (i : Word) : Hart where
  pc := .rom .resetVector 0
  reg _ := 7
  csr
    | .mhartid => i
    | .mscratch => 7
    | _ => 0

/-- and in memory. -/
def resetShared : Shared := ⟨fun _ => 7, fun _ => false, false⟩

/-- The second hart waits, -/
def waiting : Hart × Shared := twoHarts.steps 12 (resetHart 1) resetShared

/-- the first one has asked the host to load memory, -/
def asked : Hart × Shared := twoHarts.steps 8 (resetHart 0) waiting.2

/-- which has been done, -/
def loaded : Hart × Shared := twoHarts.steps 2 asked.1 { asked.2 with mem := imageMemory, loading := false }

/-- and is about to run the boot loader, -/
def verified : Hart × Shared := twoHarts.steps 3 ((loaded.1.set 10 1).goto (.rom .waitOnElf 3)) loaded.2

/-- which has left this memory; it has erased the stacks, and sent an interrupt. -/
def woken (m : Memory) : Hart × Shared :=
  twoHarts.steps 1290 (verified.1.goto (.rom .waitOnElf 6)) { verified.2 with mem := m }

/-- The second hart has been interrupted, -/
def interrupted : Hart := (waiting.1.setCsr .mstatus (waiting.1.csr .mstatus &&& ~~~bit3)).goto
  (twoHarts.locate (waiting.1.csr .mtvec))

/-- and is to enter the monitor. -/
def entering (m : Memory) : Hart × Shared := twoHarts.steps 43 interrupted (woken m).2

theorem reset_pair : Reset twoHarts (pair (resetHart 0) (resetHart 1) resetShared) := by
  constructor <;> intro i <;> first | rfl | (intro (hi : i < 2); interval_cases i <;> rfl)

theorem leads_asked : Leads twoHarts bootRuns (pair (resetHart 0) (resetHart 1) resetShared)
    (pair asked.1 waiting.1 asked.2) :=
  (leads_other (by decide) 12).trans (leads_main 8)

theorem leads_loaded : Leads twoHarts bootRuns (pair asked.1 waiting.1 asked.2)
    (pair loaded.1 waiting.1 loaded.2) := by
  have hloading : asked.2.loading = true := by decide
  exact (leads_of_step (.load hloading)).trans (leads_main 2)

theorem rotHashAndVerify_image : rotHashAndVerify twoHarts imageMemory = some true := by
  obtain ⟨verified, hspec, hiff⟩ := rotHashAndVerify_spec twoHarts imageMemory
  rw [hspec, hiff.mpr (by simp only [Layout.Verified, twoHarts, twoPlaces])]

theorem leads_verified : Leads twoHarts bootRuns (pair loaded.1 waiting.1 loaded.2)
    (pair verified.1 waiting.1 verified.2) := by
  have hpc : loaded.1.pc = .rom .waitOnElf 2 := by decide
  have hmem : loaded.2.mem = imageMemory := rfl
  have hverify : rotHashAndVerify twoHarts loaded.2.mem = some true := hmem ▸ rotHashAndVerify_image
  have ha0 : ((loaded.1.set 10 1).goto (.rom .waitOnElf 3)).get 10 = if true then 1 else 0 := by
    rw [get_goto, get_set (by decide), if_pos rfl, if_pos rfl]
  have hhash : SysStep twoHarts bootRuns (pair loaded.1 waiting.1 loaded.2) (.hash 0)
      ⟨Function.update (pair loaded.1 waiting.1 loaded.2).hart 0 ((loaded.1.set 10 1).goto (.rom .waitOnElf 3)),
        { loaded.2 with mem := loaded.2.mem }⟩ :=
    .hash (by decide) hpc rfl hverify ⟨rfl, rfl⟩ ha0 fun _ _ => rfl
  rw [update_pair_zero] at hhash
  exact (leads_of_step hhash).trans (leads_main 3)

theorem leads_woken {m : Memory} (hm : bootRuns (imageMemory.slice twoHarts.bootloaderPtr twoHarts.bootloaderSize)
    imageMemory m) : Leads twoHarts bootRuns (pair verified.1 waiting.1 verified.2)
      (pair (woken m).1 waiting.1 (woken m).2) := by
  have hpc : verified.1.pc = .bootloader := by decide
  have hra : verified.1.get 1 = twoHarts.address .waitOnElf 6 := by decide
  have hloc : (verified.1.goto (.rom .waitOnElf 6)).pc = twoHarts.locate (verified.1.get 1) := by
    rw [hra, twoHarts.fits.locate_address .waitOnElf 6 (by decide), pc_goto]
  have hboot : SysStep twoHarts bootRuns (pair verified.1 waiting.1 verified.2) (.boot 0)
      ⟨Function.update (pair verified.1 waiting.1 verified.2).hart 0 (verified.1.goto (.rom .waitOnElf 6)),
        { verified.2 with mem := m }⟩ := .boot (by decide) hpc hm ⟨hloc, rfl⟩
  rw [update_pair_zero] at hboot
  rw [woken]
  exact (leads_of_step hboot).trans (leads_main 1290)

theorem leads_interrupted {h₀ : Hart} {sh : Shared} (hmsip : sh.msip 1 = true) :
    Leads twoHarts bootRuns (pair h₀ waiting.1 sh) (pair h₀ interrupted sh) := by
  have hpc : waiting.1.pc = .rom .waitOnIpi 1 := by decide
  have hmie : waiting.1.csr .mie &&& bit3 ≠ 0 := by decide
  have hmstatus : waiting.1.csr .mstatus &&& bit3 ≠ 0 := by decide
  have hint : SysStep twoHarts bootRuns (pair h₀ waiting.1 sh) (.interrupt 1)
      ⟨Function.update (pair h₀ waiting.1 sh).hart 1 interrupted, sh⟩ :=
    .interrupt (by decide) hpc hmie hmstatus hmsip
  rw [update_pair_one] at hint
  exact leads_of_step hint

theorem leads_entering {m : Memory} (hmsip : (woken m).2.msip 1 = true) :
    Leads twoHarts bootRuns (pair (woken m).1 waiting.1 (woken m).2)
      (pair (woken m).1 (entering m).1 (entering m).2) := by
  rw [entering]
  exact (leads_interrupted hmsip).trans (leads_other (by decide) 43)

/-- The second hart comes to the monitor first. -/
theorem exists_entering : ∃ (h₀ h₁ : Hart) (sh : Shared),
    Leads twoHarts bootRuns (pair (resetHart 0) (resetHart 1) resetShared) (pair h₀ h₁ sh) ∧
      h₀.pc = .rom .wakeOtherHartsLoop 3 ∧ h₁.pc = .rom .rotWakeOnIpi 11 ∧ h₁.get 1 = pagedSymbols.smPtr := by
  obtain ⟨hmsip, hpc₀, hpc₁, hra⟩ : (woken exists_bootRuns.choose).2.msip 1 = true ∧
      (woken exists_bootRuns.choose).1.pc = .rom .wakeOtherHartsLoop 3 ∧
      (entering exists_bootRuns.choose).1.pc = .rom .rotWakeOnIpi 11 ∧
      (entering exists_bootRuns.choose).1.get 1 = pagedSymbols.smPtr := by
    decide +kernel
  have hleads := (((leads_asked.trans leads_loaded).trans leads_verified).trans
    (leads_woken exists_bootRuns.choose_spec)).trans (leads_entering hmsip)
  exact ⟨_, _, _, hleads, hpc₀, hpc₁, hra⟩

/-- Two harts, an interrupt, and a monitor that is not empty. -/
theorem measured_boot_twoHarts : ∃ (s s' : System) (p : List (Step System Act)) (st : Step System Act),
    Reset twoHarts s ∧ Run (SysStep twoHarts bootRuns) s (p ++ [st]) s' ∧ twoHarts.Clean 1 (st.post.hart 1) ∧
      (st.post.hart 1).get 1 = pagedSymbols.smPtr ∧
      (∃ st' ∈ p, st'.label = .boot 0 ∧ twoHarts.Verified st'.pre.shared.mem) ∧
      twoHarts.Erased st.pre.shared.mem ∧ twoHarts.Booted edwards25519 st.pre.shared.mem := by
  obtain ⟨h₀, h₁, sh, ⟨p, hp⟩, hpc₀, hpc₁, hra⟩ := exists_entering
  have hnext : twoHarts.next h₁ sh = some (h₁.goto .sm, sh) := by
    have hloc : twoHarts.locate (h₁.get 1) = .sm := hra ▸ rfl
    rw [Layout.next, hpc₁, ← hloc]
    rfl
  have hrun := hp.snoc (step_next (i := 1) (by decide) hnext)
  have hpre : ∀ j < twoHarts.numHarts, ((pair h₀ h₁ sh).hart j).pc ≠ .sm := by
    intro j (hj : j < 2)
    interval_cases j
    · exact fun h => nomatch hpc₀.symm.trans h
    · exact fun h => nomatch hpc₁.symm.trans h
  obtain ⟨hclean, h1, hbooted, hfirst⟩ :=
    measured_boot ge25519_computes genuine_bootRuns reset_pair hrun (i := 1) (hpre 1 (by decide)) rfl
  exact ⟨_, _, _, _, reset_pair, hrun, hclean, h1, hbooted, hfirst hpre⟩

end TwoHarts

end Rot

end Boot

end Sanctum
