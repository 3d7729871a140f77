import Sanctum.Boot.Printing
import Sanctum.Boot.Randomart
import Sanctum.Crypto.Ed25519
import Sanctum.Util.Strings

/-!
# The boot loader

`rot_bootloader` of `bootloader.c`, the part of the root of trust that is measured itself. It derives the device's
keys from a seed that the random number generator gives, prints the public one, measures the security monitor,
derives the monitor's keys from the device's secret key and the measurement, and signs the measurement and the
monitor's public key with the device's secret key. All but that key is left in the header before the monitor.

## What is proved

* `rotBootloader_attests` — if it comes to an end, the header is `Attested`: the measurement is the hash of all of
  the monitor's bytes, and the signature verifies; and nothing else is changed but what the host may change.
* `rotBootloader_spec` — it does come to an end if the host takes what is printed, and the host is given all of it.
* `hexText_injective` — no two keys are printed alike.
-/

namespace Sanctum

/-! ### Bytes in memory -/

namespace Memory

/-- The `n` bytes from `a` on. -/
def slice (m : Memory) (a : Word) (n : ℕ) : List Byte := (List.range n).map fun i => m (a + BitVec.ofNat 64 i)

variable {m m' : Memory} {a b : Word} {bs : List Byte}

theorem length_slice (m : Memory) (a : Word) (n : ℕ) : (m.slice a n).length = n := by
  simp [slice]

theorem slice_of_holds (h : Holds m a bs) {n : ℕ} (hn : bs.length = n) : m.slice a n = bs := by
  subst hn
  refine List.ext_getElem (length_slice ..) fun i hi hi' => ?_
  rw [List.getElem_eq_iff, slice, List.getElem?_map, List.getElem?_range hi', Option.map_some]
  exact congrArg some (holds_iff.mp h i hi')

theorem slice_congr {n : ℕ} (hn : n ≤ 2 ^ 64) (h : ∀ b, Within a n b → m' b = m b) : m'.slice a n = m.slice a n :=
  List.map_congr_left fun _ hi => h _ (within_add (List.mem_range.mp hi) hn)

/-- Bytes that are put elsewhere. -/
theorem Holds.put (h : Holds m b bs) {cs : List Byte} {n k : ℕ} (hbs : bs.length = n) (hcs : cs.length = k)
    (hn : n ≤ 2 ^ 64) (hk : k ≤ 2 ^ 64) (hapart : Apart b n a k) : Holds (m.put a cs) b bs := by
  subst hbs hcs
  exact h.congr hn fun x hx => put_of_not_within (hapart x hx) hk

end Memory

namespace Boot

open Ed25519 Memory Filter

/-! ### The code -/

namespace Symbols

variable (L : Symbols)

/-- `PK_D`. -/
def pkD : Word := L.header + BitVec.ofNat 64 0

/-- `SM_H`. -/
def smH : Word := L.header + BitVec.ofNat 64 32

/-- `PK_SM`. -/
def pkSm : Word := L.header + BitVec.ofNat 64 96

/-- `SK_SM`. -/
def skSm : Word := L.header + BitVec.ofNat 64 128

/-- `SM_SIG`. -/
def smSig : Word := L.header + BitVec.ofNat 64 192

/-- `sm_size`. -/
def smSize : Word := L.header + BitVec.ofNat 64 256

end Symbols

/-- Bytes are written. -/
def State.put (s : State) (a : Word) (bytes : List Byte) : State := { s with mem := s.mem.put a bytes }

/-- A string literal. -/
def text (s : String) : List Byte := s.toList.map fun c => BitVec.ofNat 8 c.toNat

/-- `print_nibble`. -/
def printNibble (n : Byte) : Byte := if n < 0xA then n + 0x30 else n + (0x41 - 0xA)

/-- `print_hex_byte`. -/
def printHexByte (b : Byte) : List Byte := [0x5C, 0x78, printNibble ((b >>> 4) &&& 0xF), printNibble (b &&& 0xF)]

/-- The bytes of a word in memory. -/
def wordBytes (w : Word) : List Byte := (List.range 8).map fun i => (w >>> (8 * i)).setWidth 8

/-- The seed: four words of the random number generator. -/
def seed (trng : Fin 4 → Word) : List Byte := (List.finRange 4).flatMap fun i => wordBytes (trng i)

/-- "Committing to PK_D", where it begins, -/
def committing : List Byte := text "Committing to PK_D: (ed25519) "

/-- before the picture, -/
def pictureHead : List Byte := text "\n\n+--[ED25519 256]--+\n"

/-- and after it. -/
def endorse : List Byte := text
  "\nTrusted manufacturer (host) should endorse this key in order to root the device's attestations.\n\n"

/-- `rot_bootloader` commits to `PK_D`: it prints it, and the picture of it. -/
def commit (H : Host) (L : Symbols) (beyond : ℕ → Byte) (n : ℕ) (s : State) : Option State := do
  let s ← printChars H L n s committing
  let s ← (List.range 32).foldlM
    (fun s i => printChars H L n s (printHexByte (s.mem (L.pkD + BitVec.ofNat 64 i)))) s
  let art ← Randomart.randomart beyond (s.mem.slice L.pkD 32)
  let s ← printChars H L n s pictureHead
  let s ← printChars H L n s (cstring art)
  printChars H L n s endorse

/-- It measures the monitor, derives its keys, and endorses it. -/
def attest (g : Ge) (L : Symbols) (skD : List Byte) (s : State) : Option State := do
  let s := s.put L.smH (← Sha3.sha3 (s.mem.slice L.smPtr (s.mem.load64 L.smSize).toNat) 64)
  let scratchpad ← Sha3.digest [skD, s.mem.slice L.smH 64] 32
  let k ← ed25519CreateKeypair g scratchpad
  let s := (s.put L.skSm k.2).put L.pkSm k.1
  let scratchpad ← Sha3.digest [s.mem.slice L.smH 64, s.mem.slice L.pkSm 32] 64
  let sig ← ed25519Sign g scratchpad (s.mem.slice L.pkD 32) skD
  return s.put L.smSig sig

/-- `rot_bootloader`, with `n` looks at `tohost` at most for every character. -/
def rotBootloader (H : Host) (g : Ge) (L : Symbols) (beyond : ℕ → Byte) (trng : Fin 4 → Word) (n : ℕ) (s : State) :
    Option State := do
  let d ← ed25519CreateKeypair g (seed trng)
  let s ← commit H L beyond n (s.put L.pkD d.1)
  attest g L d.2 s

/-! ### The chain of keys -/

section Chain

variable {G : Type} [AddCommGroup G] (c : Curve G)

/-- The public key of a secret one. -/
def publicKey (sk : List Byte) : List Byte := c.encode (number (sk.take 32) • c.base)

/-- The device's secret key. -/
def deviceKey (seed : List Byte) : List Byte := clamp (Sha3.hash 64 seed)

/-- The hash of a monitor. -/
def measurement (monitor : List Byte) : List Byte := Sha3.hash 64 monitor

/-- The secret key of a measured monitor. -/
def monitorKey (sk measured : List Byte) : List Byte := clamp (Sha3.hash 64 (Sha3.hash 32 (sk ++ measured)))

/-- What is in the header for a monitor that has been measured on a device. -/
structure Attested (L : Symbols) (m : Memory) (skD monitor : List Byte) : Prop where
  pkD : Holds m L.pkD (publicKey c skD)
  smH : Holds m L.smH (measurement monitor)
  pkSm : Holds m L.pkSm (publicKey c (monitorKey skD (measurement monitor)))
  skSm : Holds m L.skSm (monitorKey skD (measurement monitor))
  /-- A verifier that knows the device's public key need not trust the rest of the header. -/
  smSig : ∃ sig, Holds m L.smSig sig ∧ sig.length = 64 ∧ Verifies c (publicKey c skD)
    (Sha3.hash 64 (measurement monitor ++ publicKey c (monitorKey skD (measurement monitor)))) sig

end Chain

/-! ### What is printed -/

/-- A key as it is printed. -/
def hexText (bytes : List Byte) : List Byte := bytes.flatMap printHexByte

/-- What is printed. -/
def commitment (pk art : List Byte) : List Byte := committing ++ hexText pk ++ pictureHead ++ cstring art ++ endorse

/-- What a digit stands for. -/
def readNibble (x : Byte) : Byte := if x < 0x3A then x - 0x30 else x - (0x41 - 0xA)

theorem readNibble_print : ∀ b : Byte,
    readNibble (printNibble ((b >>> 4) &&& 0xF)) <<< 4 ||| readNibble (printNibble (b &&& 0xF)) = b := by
  decide

theorem printHexByte_injective : Function.Injective printHexByte := by
  intro b b' h
  simp only [printHexByte, List.cons.injEq, and_true, true_and] at h
  rw [← readNibble_print b, h.1, h.2, readNibble_print b']

/-- **No two keys are printed alike.** -/
theorem hexText_injective : Function.Injective hexText := by
  intro bs cs h
  induction bs generalizing cs with
  | nil =>
    cases cs with
    | nil => rfl
    | cons c cs => nomatch h
  | cons b bs ih =>
    cases cs with
    | nil => nomatch h
    | cons c cs =>
      rw [hexText, hexText, List.flatMap_cons, List.flatMap_cons] at h
      obtain ⟨hb, hbs⟩ := List.append_inj h rfl
      rw [printHexByte_injective hb, ih hbs]

/-! ### The boot -/

/-- The monitor does not reach beyond the end of memory. -/
def Symbols.Placed (L : Symbols) (m : Memory) : Prop := L.smPtr.toNat + (m.load64 L.smSize).toNat ≤ 2 ^ 64

/-- The monitor in memory. -/
def monitor (L : Symbols) (m : Memory) : List Byte := m.slice L.smPtr (m.load64 L.smSize).toNat

section Spec

variable {G : Type} [AddCommGroup G] {c : Curve G} {g : Ge} {point : g.P3 → G} {L : Symbols} {m m' : Memory}

theorem within_header_iff {b : Word} :
    Within L.header 256 b ↔ L.header.toNat ≤ b.toNat ∧ b.toNat < L.header.toNat + 256 :=
  within_iff (by have := L.header_le; have := L.smPtr.isLt; omega)

/-- The size of the monitor is after the five other fields of the header, -/
theorem smSize_congr (h : ∀ b, L.header.toNat + 256 ≤ b.toNat → m' b = m b) :
    m'.load64 L.smSize = m.load64 L.smSize := by
  have hle := L.header_le
  have hlt := L.smPtr.isLt
  have hsize : L.smSize.toNat = L.header.toNat + 256 := toNat_add_ofNat (by omega)
  refine load64_congr fun b hb => h b ?_
  rw [within_iff (by omega)] at hb
  omega

/-- and so is the monitor. -/
theorem monitor_congr (hL : L.Placed m) (h : ∀ b, L.header.toNat + 256 ≤ b.toNat → m' b = m b) :
    monitor L m' = monitor L m := by
  have hle := L.header_le
  rw [monitor, smSize_congr h]
  refine slice_congr (by rw [Symbols.Placed] at hL; omega) fun b hb => h b ?_
  rw [within_iff hL] at hb
  omega

/-- Bytes are put into the header. -/
theorem put_header {i : ℕ} {bs : List Byte} (h : i + bs.length ≤ 256) (b : Word) (hb : ¬ Within L.header 256 b) :
    m.put (L.header + BitVec.ofNat 64 i) bs b = m b :=
  put_of_not_within (fun hin => hb (hin.of_add h (by decide))) (by omega)

theorem length_publicKey (c : Curve G) (sk : List Byte) : (publicKey c sk).length = 32 := c.length_encode _

theorem length_measurement (monitor : List Byte) : (measurement monitor).length = 64 :=
  Sha3.length_hash (by decide) _

theorem length_monitorKey (sk measured : List Byte) : (monitorKey sk measured).length = 64 :=
  (length_clamp _).trans (Sha3.length_hash (by decide) _)

/-- The header says the same as long as it is not changed. -/
theorem Attested.congr {skD monitor : List Byte} (h : Attested c L m skD monitor)
    (hm : ∀ b, Within L.header 256 b → m' b = m b) : Attested c L m' skD monitor := by
  have hfield : ∀ {i : ℕ} {bs : List Byte}, Holds m (L.header + BitVec.ofNat 64 i) bs → i + bs.length ≤ 256 →
      Holds m' (L.header + BitVec.ofNat 64 i) bs := fun h hi =>
    h.congr (by omega) fun b hb => hm b (hb.of_add hi (by decide))
  obtain ⟨sig, hsmSig, hsig, hverifies⟩ := h.smSig
  exact {
    pkD := hfield h.pkD (by rw [length_publicKey]; decide)
    smH := hfield h.smH (by rw [length_measurement]; decide)
    pkSm := hfield h.pkSm (by rw [length_publicKey]; decide)
    skSm := hfield h.skSm (by rw [length_monitorKey]; decide)
    smSig := ⟨sig, hfield hsmSig (by rw [hsig]), hsig, hverifies⟩ }

/-- The keys of a seed. -/
theorem createKeypair_eq (hg : g.Computes c point) (seed : List Byte) :
    ed25519CreateKeypair g seed = some (publicKey c (clamp (Sha3.hash 64 seed)), clamp (Sha3.hash 64 seed)) ∧
      Keypair c (publicKey c (clamp (Sha3.hash 64 seed))) (clamp (Sha3.hash 64 seed)) := by
  obtain ⟨pk, hcreate, hkeys⟩ := ed25519CreateKeypair_spec hg seed
  obtain rfl := hkeys.encoded
  exact ⟨hcreate, hkeys⟩

/-- The memory after the measurement and the monitor's keys have been written. -/
def withKeys (L : Symbols) (m : Memory) (smH pkSm skSm : List Byte) : Memory :=
  ((m.put L.smH smH).put L.skSm skSm).put L.pkSm pkSm

section Fields

variable {pkD smH pkSm skSm : List Byte}

theorem withKeys_pkD (hpkD : Holds m L.pkD pkD) (hlen : pkD.length = 32) (hsmH : smH.length = 64)
    (hpkSm : pkSm.length = 32) (hskSm : skSm.length = 64) : Holds (withKeys L m smH pkSm skSm) L.pkD pkD := by
  have h := hpkD.put hlen hsmH (by decide) (by decide)
    (apart_add (a := L.header) (i := 0) (j := 32) (by decide) (by decide))
  have h := h.put hlen hskSm (by decide) (by decide)
    (apart_add (a := L.header) (i := 0) (j := 128) (by decide) (by decide))
  exact h.put hlen hpkSm (by decide) (by decide)
    (apart_add (a := L.header) (i := 0) (j := 96) (by decide) (by decide))

theorem withKeys_smH (hsmH : smH.length = 64) (hpkSm : pkSm.length = 32) (hskSm : skSm.length = 64) :
    Holds (withKeys L m smH pkSm skSm) L.smH smH := by
  have h : Holds (m.put L.smH smH) L.smH smH := holds_put (by omega)
  have h := h.put hsmH hskSm (by decide) (by decide)
    (apart_add (a := L.header) (i := 32) (j := 128) (by decide) (by decide))
  exact h.put hsmH hpkSm (by decide) (by decide)
    (apart_add (a := L.header) (i := 32) (j := 96) (by decide) (by decide))

theorem withKeys_skSm (hpkSm : pkSm.length = 32) (hskSm : skSm.length = 64) :
    Holds (withKeys L m smH pkSm skSm) L.skSm skSm := by
  have h : Holds ((m.put L.smH smH).put L.skSm skSm) L.skSm skSm := holds_put (by omega)
  exact h.put hskSm hpkSm (by decide) (by decide)
    (apart_add (a := L.header) (i := 96) (j := 128) (by decide) (by decide)).symm

theorem withKeys_pkSm (hpkSm : pkSm.length = 32) : Holds (withKeys L m smH pkSm skSm) L.pkSm pkSm :=
  holds_put (by omega)

/-- A field before the signature. -/
theorem holds_put_smSig {i n : ℕ} {bs sig : List Byte} (h : Holds m (L.header + BitVec.ofNat 64 i) bs)
    (hbs : bs.length = n) (hn : i + n ≤ 192) (hsig : sig.length = 64) :
    Holds (m.put L.smSig sig) (L.header + BitVec.ofNat 64 i) bs :=
  h.put hbs hsig (by omega) (by decide) (apart_add hn (by decide))

theorem withKeys_frame (hsmH : smH.length = 64) (hpkSm : pkSm.length = 32) (hskSm : skSm.length = 64) {b : Word}
    (hb : ¬ Within L.header 256 b) : withKeys L m smH pkSm skSm b = m b := by
  calc withKeys L m smH pkSm skSm b = (m.put L.smH smH).put L.skSm skSm b := put_header (by omega) b hb
    _ = m.put L.smH smH b := put_header (by omega) b hb
    _ = m b := put_header (by omega) b hb

end Fields

/-- What is computed from the device's keys, given the monitor's and the signature. -/
theorem attest_run {s : State} {skD pkD smH pkSm skSm sig : List Byte} (hheader : Holds s.mem L.pkD pkD)
    (hpkD : pkD.length = 32) (hmeasure : Sha3.sha3 (monitor L s.mem) 64 = some smH) (hsmH : smH.length = 64)
    (hcreate : ed25519CreateKeypair g (Sha3.hash 32 (skD ++ smH)) = some (pkSm, skSm)) (hpkSm : pkSm.length = 32)
    (hskSm : skSm.length = 64) (hsign : ed25519Sign g (Sha3.hash 64 (smH ++ pkSm)) pkD skD = some sig) :
    attest g L skD s = some { s with mem := (withKeys L s.mem smH pkSm skSm).put L.smSig sig } := by
  have hslice : (s.mem.put L.smH smH).slice L.smH 64 = smH := slice_of_holds (holds_put (by omega)) hsmH
  have hkeySeed : Sha3.digest [skD, smH] 32 = some (Sha3.hash 32 (skD ++ smH)) := by
    simpa using Sha3.digest_eq_hash (m := 32) (by decide) [skD, smH]
  have hmessage : Sha3.digest [smH, pkSm] 64 = some (Sha3.hash 64 (smH ++ pkSm)) := by
    simpa using Sha3.digest_eq_hash (m := 64) (by decide) [smH, pkSm]
  simp only [attest, State.put, Option.bind_eq_bind]
  rw [← monitor, hmeasure]
  simp only [Option.bind_some]
  rw [hslice, hkeySeed]
  simp only [Option.bind_some, hcreate]
  rw [← withKeys, slice_of_holds (withKeys_smH hsmH hpkSm hskSm) hsmH, slice_of_holds (withKeys_pkSm hpkSm) hpkSm,
    hmessage]
  simp only [Option.bind_some]
  rw [slice_of_holds (withKeys_pkD hheader hpkD hsmH hpkSm hskSm) hpkD, hsign]
  rfl

/-- **The monitor is attested**, and nothing but the header is changed. -/
theorem attest_spec (hg : g.Computes c point) {s : State} {skD : List Byte} (hkeys : Keypair c (publicKey c skD) skD)
    (hheader : Holds s.mem L.pkD (publicKey c skD)) :
    ∃ s', attest g L skD s = some s' ∧ s'.taken = s.taken ∧
      (∀ b, ¬ Within L.header 256 b → s'.mem b = s.mem b) ∧ Attested c L s'.mem skD (monitor L s.mem) := by
  have hpkD := length_publicKey c skD
  set smH := measurement (monitor L s.mem)
  have hsmH : smH.length = 64 := length_measurement _
  set skSm := monitorKey skD smH with hskSm'
  obtain ⟨hcreate, hkeys'⟩ : ed25519CreateKeypair g (Sha3.hash 32 (skD ++ smH)) = some (publicKey c skSm, skSm) ∧
      Keypair c (publicKey c skSm) skSm := createKeypair_eq hg (Sha3.hash 32 (skD ++ smH))
  have hpkSm := length_publicKey c skSm
  have hskSm := hkeys'.length
  obtain ⟨sig, hsign, hsig, hverifies⟩ := ed25519Sign_spec hg hkeys (Sha3.hash 64 (smH ++ publicKey c skSm))
  have hrun := attest_run hheader hpkD (Sha3.sha3_eq_hash (by decide) _) hsmH hcreate hpkSm hskSm hsign
  refine ⟨_, hrun, rfl, fun b hb => ?_, ?_, ?_, ?_, ?_, sig, holds_put (by omega), hsig, hverifies⟩
  · exact (put_header (by omega) b hb).trans (withKeys_frame hsmH hpkSm hskSm hb)
  · exact holds_put_smSig (withKeys_pkD hheader hpkD hsmH hpkSm hskSm) hpkD (by decide) hsig
  · exact holds_put_smSig (withKeys_smH hsmH hpkSm hskSm) hsmH (by decide) hsig
  · exact holds_put_smSig (withKeys_pkSm hpkSm) hpkSm (by decide) hsig
  · exact holds_put_smSig (withKeys_skSm hpkSm hskSm) hskSm (by decide) hsig

/-! ### With a host -/

variable {H : Host} {P : Word → Prop} {beyond : ℕ → Byte} {trng : Fin 4 → Word} {n : ℕ} {s s' : State}

/-- The host changes nothing from the header on. -/
theorem Host.Confined.not_header (hH : H.Confined L P) {b : Word} (hb : L.header.toNat ≤ b.toNat) :
    ¬ P b := fun hP =>
  absurd (hH.below b hP) (by omega)

/-- What the host may not change is the same when the key has been printed. -/
theorem commit_frame (hH : H.Confined L P) {b : Word} (hb : ¬ P b) (h : commit H L beyond n s = some s') :
    s'.mem b = s.mem b := by
  obtain ⟨s₁, h₁, h⟩ := Option.bind_eq_some_iff.mp h
  obtain ⟨s₂, h₂, h⟩ := Option.bind_eq_some_iff.mp h
  obtain ⟨art, -, h⟩ := Option.bind_eq_some_iff.mp h
  obtain ⟨s₃, h₃, h⟩ := Option.bind_eq_some_iff.mp h
  obtain ⟨s₄, h₄, h₅⟩ := Option.bind_eq_some_iff.mp h
  calc s'.mem b = s₄.mem b := printChars_frame hH hb h₅
    _ = s₃.mem b := printChars_frame hH hb h₄
    _ = s₂.mem b := printChars_frame hH hb h₃
    _ = s₁.mem b := foldlM_frame (fun h => printChars_frame hH hb h) h₂
    _ = s.mem b := printChars_frame hH hb h₁

theorem commit_header (hH : H.Confined L P) {pk : List Byte} (hpk : pk.length = 32) (hheader : Holds s.mem L.pkD pk)
    (h : commit H L beyond n s = some s') : Holds s'.mem L.pkD pk := by
  refine hheader.congr (by omega) fun b hb => commit_frame hH (hH.not_header ?_) h
  exact (within_header_iff.mp (hb.of_add (by omega) (by decide))).1

theorem rotBootloader_eq {pk sk : List Byte} (hcreate : ed25519CreateKeypair g (seed trng) = some (pk, sk)) :
    rotBootloader H g L beyond trng n s = (commit H L beyond n (s.put L.pkD pk)).bind (attest g L sk) := by
  simp only [rotBootloader, hcreate, Option.bind_eq_bind, Option.bind_some]

/-- **The boot loader attests the monitor**, whatever the host does, and changes nothing but the header and what the
host may change. -/
theorem rotBootloader_attests (hg : g.Computes c point) (hH : H.Confined L P)
    (hrun : rotBootloader H g L beyond trng n s = some s') :
    (∀ b, ¬ Within L.header 256 b → ¬ P b → s'.mem b = s.mem b) ∧
      (L.Placed s.mem → Attested c L s'.mem (deviceKey (seed trng)) (monitor L s.mem)) := by
  set skD := deviceKey (seed trng)
  obtain ⟨hcreate, hkeys⟩ : ed25519CreateKeypair g (seed trng) = some (publicKey c skD, skD) ∧
      Keypair c (publicKey c skD) skD := createKeypair_eq hg (seed trng)
  have hpkD := length_publicKey c skD
  rw [rotBootloader_eq hcreate] at hrun
  obtain ⟨s₁, hcommit, hattest⟩ := Option.bind_eq_some_iff.mp hrun
  have hheader := commit_header hH hpkD (holds_put (by omega)) hcommit
  obtain ⟨s₂, hs₂, -, hframe, hattested⟩ := attest_spec (L := L) hg hkeys hheader
  obtain rfl := Option.some.inj (hs₂.symm.trans hattest)
  have hbefore : ∀ b, ¬ Within L.header 256 b → ¬ P b → s₁.mem b = s.mem b := fun b hb hP =>
    (commit_frame hH hP hcommit).trans (put_header (by omega) b hb)
  refine ⟨fun b hb hP => (hframe b hb).trans (hbefore b hb hP), fun hL => ?_⟩
  have hmonitor : monitor L s₁.mem = monitor L s.mem := monitor_congr hL fun b hb =>
    hbefore b (by rw [within_header_iff]; omega) (hH.not_header (by omega))
  rwa [← hmonitor]

/-! ### With a host that serves -/

section Serves

variable (hH : H.Serves L)

include hH

/-- The key is printed: it does not change meanwhile. -/
theorem printKey_spec {is : List ℕ} (his : ∀ i ∈ is, ¬ L.InRegisters (L.pkD + BitVec.ofNat 64 i)) (s : State) :
    ∃ s', (∀ᶠ n in atTop, is.foldlM
      (fun s i => printChars H L n s (printHexByte (s.mem (L.pkD + BitVec.ofNat 64 i)))) s = some s') ∧
      s'.given L = s.given L ++
        (is.flatMap fun i => printHexByte (s.mem (L.pkD + BitVec.ofNat 64 i))).map Htif.writeCmd := by
  induction is generalizing s with
  | nil => exact ⟨s, .of_forall fun _ => rfl, (List.append_nil _).symm⟩
  | cons i is ih =>
    obtain ⟨s₁, hs₁, hgiven₁⟩ := printChars_spec hH s (printHexByte (s.mem (L.pkD + BitVec.ofNat 64 i)))
    obtain ⟨s₂, hs₂, hgiven₂⟩ := ih (fun j hj => his j (List.mem_cons_of_mem i hj)) s₁
    have hsame : ∀ j ∈ is, s₁.mem (L.pkD + BitVec.ofNat 64 j) = s.mem (L.pkD + BitVec.ofNat 64 j) := fun j hj => by
      obtain ⟨n, hn⟩ := hs₁.exists
      exact printChars_frame hH.confined (his j (List.mem_cons_of_mem i hj)) hn
    refine ⟨s₂, ?_, ?_⟩
    · filter_upwards [hs₁, hs₂] with n h₁ h₂
      rw [List.foldlM_cons, h₁]
      exact h₂
    · rw [hgiven₂, hgiven₁, List.append_assoc, ← List.map_append, List.flatMap_cons,
        List.flatMap_congr fun j hj => congrArg printHexByte (hsame j hj)]

/-- **The commitment** comes to an end, and the host is given all of it. -/
theorem commit_spec (beyond : ℕ → Byte) {pk : List Byte} (hpk : pk.length = 32) (s : State)
    (hheader : Holds s.mem L.pkD pk) :
    ∃ s' art, (∀ᶠ n in atTop, commit H L beyond n s = some s') ∧ Randomart.randomart beyond pk = some art ∧
      s'.given L = s.given L ++ (commitment pk art).map Htif.writeCmd := by
  have hkey : ∀ i ∈ List.range 32, ¬ L.InRegisters (L.pkD + BitVec.ofNat 64 i) := fun i hi => by
    have hi' := List.mem_range.mp hi
    have hin : Within L.pkD 32 (L.pkD + BitVec.ofNat 64 i) := within_add hi' (by decide)
    exact hH.confined.not_header (within_header_iff.mp (hin.of_add (by decide) (by decide))).1
  have hlen : pk.length < 2 ^ 32 := by omega
  obtain ⟨art, hart, -⟩ := Randomart.randomart_spec beyond hlen
  obtain ⟨s₁, hs₁, hgiven₁⟩ := printChars_spec hH s committing
  obtain ⟨s₂, hs₂, hgiven₂⟩ := printKey_spec hH hkey s₁
  obtain ⟨s₃, hs₃, hgiven₃⟩ := printChars_spec hH s₂ pictureHead
  obtain ⟨s₄, hs₄, hgiven₄⟩ := printChars_spec hH s₃ (cstring art)
  obtain ⟨s₅, hs₅, hgiven₅⟩ := printChars_spec hH s₄ endorse
  have hsame : ∀ b, ¬ L.InRegisters b → s₁.mem b = s.mem b ∧ s₂.mem b = s.mem b := fun b hb => by
    obtain ⟨n, hn₁, hn₂⟩ := (hs₁.and hs₂).exists
    have h₁ := printChars_frame hH.confined hb hn₁
    exact ⟨h₁, (foldlM_frame (fun h => printChars_frame hH.confined hb h) hn₂).trans h₁⟩
  have hslice : ∀ {m : Memory}, (∀ b, ¬ L.InRegisters b → m b = s.mem b) → m.slice L.pkD 32 = pk := fun hm =>
    slice_of_holds (hheader.congr (by omega) fun b hb => hm b (hH.confined.not_header
      (within_header_iff.mp (hb.of_add (by omega) (by decide))).1)) hpk
  have hslice₁ : s₁.mem.slice L.pkD 32 = pk := hslice fun b hb => (hsame b hb).1
  have hslice₂ : s₂.mem.slice L.pkD 32 = pk := hslice fun b hb => (hsame b hb).2
  refine ⟨s₅, art, ?_, hart, ?_⟩
  · filter_upwards [hs₁, hs₂, hs₃, hs₄, hs₅] with n h₁ h₂ h₃ h₄ h₅
    rw [← hslice₂] at hart
    exact Option.bind_eq_some_iff.mpr ⟨s₁, h₁, Option.bind_eq_some_iff.mpr ⟨s₂, h₂, Option.bind_eq_some_iff.mpr
      ⟨art, hart, Option.bind_eq_some_iff.mpr ⟨s₃, h₃, Option.bind_eq_some_iff.mpr ⟨s₄, h₄, h₅⟩⟩⟩⟩⟩
  · have hhex : (List.range 32).flatMap (fun i => printHexByte (s₁.mem (L.pkD + BitVec.ofNat 64 i))) = hexText pk := by
      rw [hexText, ← hslice₁, slice, List.flatMap_map]
    simp only [hgiven₅, hgiven₄, hgiven₃, hgiven₂, hgiven₁, hhex, commitment, List.map_append, List.append_assoc]

/-- **A measured boot**: with a host that serves, the boot loader comes to an end, and what the header says is true
of the monitor that is in memory afterwards. Nothing else has been changed but the host's registers; and the host has
been given the device's public key. -/
theorem rotBootloader_spec (hg : g.Computes c point) (beyond : ℕ → Byte) (trng : Fin 4 → Word) (s : State)
    (hL : L.Placed s.mem) :
    ∃ s' art, (∀ᶠ n in atTop, rotBootloader H g L beyond trng n s = some s') ∧
      monitor L s'.mem = monitor L s.mem ∧
      Attested c L s'.mem (deviceKey (seed trng)) (monitor L s'.mem) ∧
      (∀ b, ¬ Within L.header 256 b → ¬ L.InRegisters b → s'.mem b = s.mem b) ∧
      Randomart.randomart beyond (publicKey c (deviceKey (seed trng))) = some art ∧
      s'.given L = s.given L ++ (commitment (publicKey c (deviceKey (seed trng))) art).map Htif.writeCmd := by
  set skD := deviceKey (seed trng)
  obtain ⟨hcreate, hkeys⟩ : ed25519CreateKeypair g (seed trng) = some (publicKey c skD, skD) ∧
      Keypair c (publicKey c skD) skD := createKeypair_eq hg (seed trng)
  have hpkD := length_publicKey c skD
  have hheader : Holds (s.put L.pkD (publicKey c skD)).mem L.pkD (publicKey c skD) := holds_put (by omega)
  obtain ⟨s₁, art, hs₁, hart, hgiven₁⟩ := commit_spec hH beyond hpkD _ hheader
  obtain ⟨n₁, hn₁⟩ := hs₁.exists
  obtain ⟨s₂, hs₂, htaken, hframe, -⟩ := attest_spec (L := L) hg hkeys (commit_header hH.confined hpkD hheader hn₁)
  have hrun : ∀ᶠ n in atTop, rotBootloader H g L beyond trng n s = some s₂ := by
    filter_upwards [hs₁] with n hn
    rw [rotBootloader_eq hcreate, hn]
    exact hs₂
  obtain ⟨n₂, hn₂⟩ := hrun.exists
  obtain ⟨hother, hattested⟩ := rotBootloader_attests hg hH.confined hn₂
  have hmonitor : monitor L s₂.mem = monitor L s.mem := monitor_congr hL fun b hb =>
    hother b (by rw [within_header_iff]; omega) (hH.confined.not_header (by omega))
  refine ⟨s₂, art, hrun, hmonitor, by rw [hmonitor]; exact hattested hL, hother, hart, ?_⟩
  have htohost : ∀ b, Within L.tohost 8 b → ¬ Within L.header 256 b := fun b hb hin =>
    hH.confined.not_header (within_header_iff.mp hin).1 (.inr hb)
  have hput : (s.put L.pkD (publicKey c skD)).given L = s.given L :=
    given_congr rfl fun b hb => put_header (by omega) b (htohost b hb)
  calc s₂.given L = s₁.given L := given_congr htaken fun b hb => hframe b (htohost b hb)
    _ = (s.put L.pkD (publicKey c skD)).given L ++ (commitment (publicKey c skD) art).map Htif.writeCmd := hgiven₁
    _ = s.given L ++ (commitment (publicKey c skD) art).map Htif.writeCmd := by rw [hput]

end Serves

end Spec

/-! ### A boot -/

/-- The host's registers at the beginning of memory, a header on a page of its own, and a monitor on the next one. -/
def pagedSymbols : Symbols where
  fromhost := 0x80000000
  tohost := 0x80000008
  header := 0x80022000
  smPtr := 0x80023000
  fromhost_le := by decide
  tohost_le := by decide
  header_le := by decide

/-- A host that takes a command every third turn, and has something to say then. -/
def slowHost : Host := fun t m =>
  if t % 3 = 0 then (m.store64 pagedSymbols.tohost 0).store64 pagedSymbols.fromhost 7 else m

theorem slowHost_serves : slowHost.Serves pagedSymbols := by
  have htakes : ∀ m : Memory,
      ((m.store64 pagedSymbols.tohost 0).store64 pagedSymbols.fromhost 7).load64 pagedSymbols.tohost = 0 := fun m => by
    rw [load64_store64_of_apart apart_registers, load64_store64_self]
  refine ⟨fun t m b hb => ?_, fun t m => ?_, fun t => ⟨3 * t, by omega, fun m => ?_⟩⟩
  · rw [slowHost]
    split
    · exact (store64_of_not_within fun hin => hb (.inl hin)).trans (store64_of_not_within fun hin => hb (.inr hin))
    · rfl
  · rw [slowHost]
    split
    · exact .inr (htakes m)
    · exact .inl rfl
  · rw [slowHost, if_pos (Nat.mul_mod_right 3 t)]
    exact htakes m

/-- A memory in which every byte has something in it, and a monitor of 64 bytes. -/
def imageMemory : Memory := Memory.store64 (fun a => a.setWidth 8 ^^^ 0xA5) pagedSymbols.smSize 0x40

theorem imageMemory_size : imageMemory.load64 pagedSymbols.smSize = 0x40 := load64_store64_self ..

theorem imageMemory_placed : pagedSymbols.Placed imageMemory := by
  rw [Symbols.Placed, imageMemory_size]
  decide

/-- The boot loader runs on it, and the host is slow. -/
theorem rotBootloader_spec_image :
    ∃ s' art, (∀ᶠ n in atTop, rotBootloader slowHost ge25519 pagedSymbols (fun _ => 0) (fun _ => 7) n
      ⟨imageMemory, 1, []⟩ = some s') ∧
      monitor pagedSymbols s'.mem = monitor pagedSymbols imageMemory ∧
      Attested edwards25519 pagedSymbols s'.mem (deviceKey (seed fun _ => 7)) (monitor pagedSymbols s'.mem) ∧
      (∀ b, ¬ Within pagedSymbols.header 256 b → ¬ pagedSymbols.InRegisters b → s'.mem b = imageMemory b) ∧
      Randomart.randomart (fun _ => 0) (publicKey edwards25519 (deviceKey (seed fun _ => 7))) = some art ∧
      s'.given pagedSymbols = (⟨imageMemory, 1, []⟩ : State).given pagedSymbols ++
        (commitment (publicKey edwards25519 (deviceKey (seed fun _ => 7))) art).map Htif.writeCmd :=
  rotBootloader_spec slowHost_serves ge25519_computes _ _ ⟨imageMemory, 1, []⟩ imageMemory_placed

end Boot

end Sanctum
