import Sanctum.Devices.Htif

/-!
# What becomes of the characters

Whatever the harts and the host do, and in whatever order: what has been printed is what has been given to
`htif_console_putchar`, in the order in which the calls have returned, and what has been typed comes out of
`htif_console_getchar` in the order in which it went in. Nothing is lost on the way, and nothing comes twice.

The lock sees to it that one hart at a time has to do with the registers. `Flow` says what there is in them, and in
the hands of that hart. A character is read only when one has been asked for, and there is never more than one such
request: so there is room for it whenever it comes.

## What is proved

* `Flow.step` — a step of the hart that has the lock; `Flow.take`, `Flow.answer`, `Flow.acknowledge` — of the host.
* `Inv.step` — one hart has the lock, or none.
* `console_inOrder` — the above, of every state of every run; and no assertion fails.
-/

namespace Sanctum

namespace Htif

/-! ### Bits -/

theorem writeCmd_fields : ∀ ch : Byte, fromhostDev (writeCmd ch) = 1 ∧ fromhostCmd (writeCmd ch) = 1 ∧
    (fromhostData (writeCmd ch)).setWidth 8 = ch := by
  decide

theorem readCmd_ne_zero : ¬ 0 = readCmd := by
  decide

theorem writeCmd_ne_readCmd : ∀ ch : Byte, writeCmd ch ≠ readCmd := by
  decide

theorem answer_fields : ∀ ch : Byte, fromhostDev (answer ch) = 1 ∧ fromhostCmd (answer ch) = 0 ∧
    (fromhostData (answer ch)).setWidth 8 = ch := by
  decide

/-! ### What is where -/

/-- The character that a call has returned. -/
def charOf : Returned → List Byte
  | .char r => if 0 ≤ r then [BitVec.ofInt 8 r] else []
  | .put _ => []

/-- The character that a call has written. -/
def putOf : Returned → List Byte
  | .char _ => []
  | .put ch => [ch]

/-- The character that is to be printed for a command. -/
def written (cmd : Word) : List Byte :=
  if fromhostDev cmd = 1 ∧ fromhostCmd cmd = 1 then [(fromhostData cmd).setWidth 8] else []

/-- The character in an answer. -/
def answered (fh : Word) : List Byte :=
  if fromhostDev fh = 1 ∧ fromhostCmd fh = 0 then [(fromhostData fh).setWidth 8] else []

/-- The character in `htif_console_buf`. -/
def kept (buf : ℤ) : List Byte := if 1 ≤ buf then [BitVec.ofInt 8 (buf - 1)] else []

/-- What a hart has in its hands. -/
structure Hands where
  /-- The call that is about to return. -/
  returns : List Returned
  /-- The command that is to be given before the call returns, and what it will return. -/
  pending : Option (Word × Returned)
  /-- The character that has been taken from `fromhost`, and is to be kept. -/
  flight : List Byte

/-- The command that is to be given. -/
def After.pending : After → Option (Word × Returned)
  | .getchar => none
  | .tohost cmd r => some (cmd, r)

/-- What a hart has in its hands before its next step. -/
def Point.hands : Point → Hands
  | .fromhostRead k | .fromhostClear _ k => ⟨[], k.pending, []⟩
  | .bufStore v k => ⟨[], k.pending, kept v⟩
  | .tohostRead cmd r | .tohostWrite cmd r => ⟨[], some (cmd, r), []⟩
  | .unlock r => ⟨[r], none, []⟩
  | _ => ⟨[], none, []⟩

/-- What the call will return, if that is certain. -/
def Hands.result (x : Hands) : List Returned := x.returns ++ (x.pending.map Prod.snd).toList

/-- The requests in the hands of a hart: one to be made, or one that has been answered. -/
def Hands.requests (x : Hands) : ℕ := (if x.pending.map Prod.fst = some readCmd then 1 else 0) + x.flight.length

/-- The command goes with the call. -/
def Fits (cmd : Word) (r : Returned) : Prop :=
  (cmd = readCmd ∧ ∃ ch, r = .char ch) ∨ ∃ ch, cmd = writeCmd ch ∧ r = .put ch

/-- What there is in the registers, and in the hands of the hart that has the lock. -/
structure Flow (x : Hands) (d : Device) (h : Host) (returned : List Returned) : Prop where
  printed : h.printed ++ written d.tohost = (returned ++ x.returns).flatMap putOf
  sent : h.sent = (returned ++ x.result).flatMap charOf ++ kept d.buf ++ x.flight ++ answered d.fromhost
  /-- There is one request, or there is none. -/
  requests : (if d.tohost = readCmd then 1 else 0) + h.reads + (answered d.fromhost).length + x.requests =
    if d.buf = -1 then 1 else 0
  tohost : d.tohost = 0 ∨ d.tohost = readCmd ∨ ∃ ch, d.tohost = writeCmd ch
  fromhost : d.fromhost = 0 ∨ (∃ ch, d.fromhost = answer ch) ∨ fromhostDev d.fromhost = 1 ∧ fromhostCmd d.fromhost = 1
  buf : -1 ≤ d.buf
  fits : ∀ y ∈ x.pending, Fits y.1 y.2

/-- What the hart that has the lock relies on. -/
def Point.Ok (d : Device) : Point → Prop
  | .fromhostClear fh _ => d.fromhost = fh ∧ fh ≠ 0
  | .bufStore v _ => ∃ ch : Byte, v = 1 + ch.toNat
  | .bufTake ch => d.buf = ch ∧ 0 ≤ ch
  | .tohostWrite _ _ => d.tohost = 0
  | .failed => False
  | _ => True

/-- The hart has the lock. -/
def Point.Holds : Point → Prop
  | .idle | .lockRead _ | .lockSwap _ => False
  | _ => True

theorem written_writeCmd (ch : Byte) : written (writeCmd ch) = [ch] := by
  obtain ⟨hdev, hcmd, hdata⟩ := writeCmd_fields ch
  rw [written, if_pos ⟨hdev, hcmd⟩, hdata]

theorem written_readCmd : written readCmd = [] := by
  decide

theorem written_zero : written 0 = [] := by
  decide

theorem answered_answer (ch : Byte) : answered (answer ch) = [ch] := by
  obtain ⟨hdev, hcmd, hdata⟩ := answer_fields ch
  rw [answered, if_pos ⟨hdev, hcmd⟩, hdata]

theorem answered_zero : answered 0 = [] := by
  decide

theorem answered_acknowledged {fh : Word} (hcmd : fromhostCmd fh = 1) : answered fh = [] :=
  if_neg fun h => absurd (hcmd.symm.trans h.2) (by decide)

theorem kept_byte (ch : Byte) : kept (1 + ch.toNat) = [ch] := by
  rw [kept, if_pos (by omega), show (1 + ch.toNat : ℤ) - 1 = ch.toNat by omega]
  simp

theorem kept_of_lt {buf : ℤ} (h : buf < 1) : kept buf = [] := if_neg (by omega)

theorem charOf_sub_one (ch : ℤ) : charOf (.char (ch - 1)) = kept ch := by
  rw [charOf, kept]
  exact if_congr (by omega) rfl rfl

/-- An answer of the host is one that the code expects, -/
theorem checked_answer (ch : Byte) (k : After) : checked (answer ch) k = .bufStore (1 + ch.toNat) k := by
  obtain ⟨hdev, hcmd, hdata⟩ := answer_fields ch
  rw [checked, if_pos hdev, if_pos hcmd, hdata]

/-- and so is what it says of a write. -/
theorem checked_acknowledged {fh : Word} (hdev : fromhostDev fh = 1) (hcmd : fromhostCmd fh = 1) (k : After) :
    checked fh k = k.point := by
  rw [checked, if_pos hdev, hcmd, if_neg (by decide), if_pos rfl]

theorem hands_point (k : After) : k.point.hands = ⟨[], k.pending, []⟩ := by
  cases k <;> rfl

theorem holds_point (k : After) : k.point.Holds := by
  cases k <;> trivial

/-! ### What happens to the characters -/

section Flow

variable {x : Hands} {d : Device} {h : Host} {returned : List Returned} {q : Option (Word × Returned)} {ch : Byte}

theorem ok_point {k : After} : k.point.Ok d := by
  cases k <;> trivial

/-- The lock has nothing to do with the characters. -/
theorem Flow.lock (hflow : Flow x d h returned) (lock : ℤ) : Flow x { d with lock := lock } h returned :=
  ⟨hflow.printed, hflow.sent, hflow.requests, hflow.tohost, hflow.fromhost, hflow.buf, hflow.fits⟩

/-- `fromhost = 0`: the hart has the character now. -/
theorem Flow.fromhostClear (hflow : Flow ⟨[], q, []⟩ d h returned) (hch : d.fromhost = answer ch) :
    Flow ⟨[], q, [ch]⟩ { d with fromhost := 0 } h returned := by
  have hsent := hflow.sent
  have hrequests := hflow.requests
  rw [hch, answered_answer] at hsent hrequests
  refine ⟨hflow.printed, ?_, ?_, hflow.tohost, .inl rfl, hflow.buf, hflow.fits⟩
  · rw [answered_zero, List.append_nil, hsent, List.append_nil]
    rfl
  · rw [answered_zero, ← hrequests]
    simp only [Hands.requests, List.length_nil, List.length_singleton]
    omega

/-- `fromhost = 0`, when there was no character in it. -/
theorem Flow.clearAcknowledged (hflow : Flow x d h returned) (hnone : answered d.fromhost = []) :
    Flow x { d with fromhost := 0 } h returned := by
  have hsent := hflow.sent
  have hrequests := hflow.requests
  rw [hnone, ← answered_zero] at hsent hrequests
  exact ⟨hflow.printed, hsent, hrequests, hflow.tohost, .inl rfl, hflow.buf, hflow.fits⟩

/-- `htif_console_buf = v`: there was no character, because this is the one that has been asked for. -/
theorem Flow.bufStore (hflow : Flow ⟨[], q, [ch]⟩ d h returned) :
    Flow ⟨[], q, []⟩ { d with buf := 1 + ch.toNat } h returned := by
  have hrequests := hflow.requests
  simp only [Hands.requests, List.length_singleton] at hrequests
  have hbuf : d.buf = -1 := by
    by_contra hne
    rw [if_neg hne] at hrequests
    omega
  rw [if_pos hbuf] at hrequests
  have hanswered : answered d.fromhost = [] := List.length_eq_zero_iff.mp (by omega)
  have hsent := hflow.sent
  rw [kept_of_lt (by omega), hanswered, List.append_nil, List.append_nil] at hsent
  refine ⟨hflow.printed, ?_, ?_, hflow.tohost, hflow.fromhost, ?_, hflow.fits⟩
  · rw [kept_byte, hanswered, List.append_nil, List.append_nil]
    exact hsent
  · have hne : ¬ (1 + ch.toNat : ℤ) = -1 := by omega
    rw [hanswered, if_neg hne]
    simp only [Hands.requests, List.length_nil]
    rw [hanswered, List.length_nil] at hrequests
    omega
  · dsimp only
    omega

/-- `htif_console_buf = -1`: the character is to be returned, and another one to be asked for. -/
theorem Flow.bufTake (hflow : Flow ⟨[], none, []⟩ d h returned) (hbuf : 0 ≤ d.buf) :
    Flow ⟨[], some (readCmd, .char (d.buf - 1)), []⟩ { d with buf := -1 } h returned := by
  have hne : ¬ d.buf = -1 := by omega
  have hrequests := hflow.requests
  rw [if_neg hne] at hrequests
  refine ⟨hflow.printed, ?_, ?_, hflow.tohost, hflow.fromhost, le_rfl, fun y hy => ?_⟩
  · rw [hflow.sent, kept_of_lt (by decide : (-1 : ℤ) < 1)]
    simp only [Hands.result, Option.map_some, Option.map_none, Option.toList_some, Option.toList_none,
      List.append_nil,
      List.nil_append, List.flatMap_append, List.flatMap_singleton, charOf_sub_one]
  · have hnone : ((none : Option (Word × Returned)).map Prod.fst = some readCmd) = False := by simp
    simp only [Hands.requests, List.length_nil, Option.map_some, if_true, hnone, if_false] at hrequests ⊢
    omega
  · obtain rfl := Option.some.inj hy
    exact .inl ⟨rfl, _, rfl⟩

/-- There is no character to be returned. -/
theorem Flow.bufRead (hflow : Flow ⟨[], none, []⟩ d h returned) (hbuf : d.buf < 0) :
    Flow ⟨[.char (d.buf - 1)], none, []⟩ d h returned := by
  have hchar : charOf (.char (d.buf - 1)) = [] := by rw [charOf_sub_one, kept_of_lt (by omega)]
  refine ⟨?_, ?_, hflow.requests, hflow.tohost, hflow.fromhost, hflow.buf, nofun⟩
  · rw [hflow.printed, List.flatMap_append, List.flatMap_append]
    rfl
  · rw [hflow.sent]
    simp [Hands.result, hchar]

/-- A call has begun: the command has not been given yet. -/
theorem Flow.begin (hflow : Flow ⟨[], none, []⟩ d h returned) (c : Call) : Flow c.begin.hands d h returned := by
  cases c with
  | getchar => exact hflow
  | putchar ch =>
    have hfits : ∀ y ∈ some (writeCmd ch, Returned.put ch), Fits y.1 y.2 := fun y hy => by
      obtain rfl := Option.some.inj hy
      exact .inr ⟨ch, rfl, rfl⟩
    refine ⟨hflow.printed, ?_, ?_, hflow.tohost, hflow.fromhost, hflow.buf, hfits⟩
    · rw [hflow.sent]
      simp [Hands.result, Call.begin, Point.hands, charOf]
    · rw [← hflow.requests]
      simp [Hands.requests, Call.begin, Point.hands, writeCmd_ne_readCmd]

/-- `tohost = cmd`: the command is given. -/
theorem Flow.tohostWrite {cmd : Word} {r : Returned} (hflow : Flow ⟨[], some (cmd, r), []⟩ d h returned)
    (hfree : d.tohost = 0) : Flow ⟨[r], none, []⟩ { d with tohost := cmd } h returned := by
  have hprinted := hflow.printed
  have hrequests := hflow.requests
  rw [hfree, written_zero, List.append_nil, List.append_nil] at hprinted
  rw [hfree, if_neg readCmd_ne_zero] at hrequests
  have hfits : Fits cmd r := hflow.fits (cmd, r) rfl
  refine ⟨?_, hflow.sent, ?_, ?_, hflow.fromhost, hflow.buf, nofun⟩
  · rw [hprinted, List.flatMap_append, List.flatMap_singleton]
    rcases hfits with ⟨rfl, ch, rfl⟩ | ⟨ch, rfl, rfl⟩
    · rw [written_readCmd, putOf]
    · rw [written_writeCmd, putOf]
  · rw [← hrequests]
    simp only [Hands.requests, Option.map_some, Option.map_none, Option.some.injEq, reduceCtorEq, if_false]
    omega
  · rcases hfits with ⟨rfl, -⟩ | ⟨ch, rfl, -⟩
    · exact .inr (.inl rfl)
    · exact .inr (.inr ⟨ch, rfl⟩)

/-- The call returns. -/
theorem Flow.unlock {r : Returned} (hflow : Flow ⟨[r], none, []⟩ d h returned) :
    Flow ⟨[], none, []⟩ d h (returned ++ [r]) := by
  refine ⟨?_, ?_, hflow.requests, hflow.tohost, hflow.fromhost, hflow.buf, nofun⟩
  · rw [hflow.printed, List.append_nil]
  · rw [hflow.sent]
    simp [Hands.result]

/-- **The hart that has the lock** takes a step. -/
theorem Flow.step {p : Point} (hflow : Flow p.hands d h returned) (hp : p.Holds) (hok : p.Ok d) :
    Flow (p.step d).1.hands (p.step d).2 h (returned ++ p.returns) ∧ (p.step d).1.Ok (p.step d).2 ∧
      ((p.step d).1.Holds ∧ (p.step d).2.lock = d.lock ∨ (p.step d).1 = .idle ∧ (p.step d).2.lock = 0) := by
  cases p with
  | idle | lockRead c | lockSwap c => exact hp.elim
  | fromhostRead k =>
    simp only [Point.step, Point.returns, List.append_nil]
    by_cases h0 : d.fromhost = 0
    · rw [if_pos h0, hands_point]
      exact ⟨hflow, ok_point, .inl ⟨holds_point k, trivial⟩⟩
    · rw [if_neg h0]
      exact ⟨hflow, ⟨rfl, h0⟩, .inl ⟨trivial, trivial⟩⟩
  | fromhostClear fh k =>
    obtain ⟨rfl, hne⟩ := hok
    rcases hflow.fromhost.resolve_left hne with ⟨ch, hch⟩ | ⟨hdev, hcmd⟩
    · simp only [Point.step, Point.returns, List.append_nil, hch, checked_answer, Point.hands, kept_byte]
      exact ⟨Flow.fromhostClear hflow hch, ⟨ch, rfl⟩, .inl ⟨trivial, trivial⟩⟩
    · simp only [Point.step, Point.returns, List.append_nil, checked_acknowledged hdev hcmd, hands_point]
      exact ⟨hflow.clearAcknowledged (answered_acknowledged hcmd), ok_point, .inl ⟨holds_point k, trivial⟩⟩
  | bufStore v k =>
    obtain ⟨ch, rfl⟩ := hok
    rw [Point.hands, kept_byte] at hflow
    simp only [Point.step, Point.returns, List.append_nil, hands_point]
    exact ⟨hflow.bufStore, ok_point, .inl ⟨holds_point k, trivial⟩⟩
  | bufRead =>
    simp only [Point.step, Point.returns, List.append_nil]
    by_cases hbuf : 0 ≤ d.buf
    · rw [if_pos hbuf]
      exact ⟨hflow, ⟨rfl, hbuf⟩, .inl ⟨trivial, trivial⟩⟩
    · rw [if_neg hbuf]
      exact ⟨Flow.bufRead hflow (not_le.mp hbuf), trivial, .inl ⟨trivial, trivial⟩⟩
  | bufTake ch =>
    obtain ⟨rfl, hbuf⟩ := hok
    simp only [Point.step, Point.returns, List.append_nil]
    exact ⟨Flow.bufTake hflow hbuf, trivial, .inl ⟨trivial, trivial⟩⟩
  | tohostRead cmd r =>
    simp only [Point.step, Point.returns, List.append_nil]
    by_cases h0 : d.tohost = 0
    · rw [if_neg (not_not.mpr h0)]
      exact ⟨hflow, h0, .inl ⟨trivial, trivial⟩⟩
    · rw [if_pos h0]
      exact ⟨hflow, trivial, .inl ⟨trivial, trivial⟩⟩
  | tohostWrite cmd r =>
    simp only [Point.step, Point.returns, List.append_nil]
    exact ⟨Flow.tohostWrite hflow hok, trivial, .inl ⟨trivial, trivial⟩⟩
  | unlock r => exact ⟨(Flow.unlock hflow).lock 0, trivial, .inr ⟨rfl, rfl⟩⟩
  | failed => exact hok.elim

/-- The host takes a command. -/
theorem Flow.take (hflow : Flow x d h returned) (hne : d.tohost ≠ 0) :
    Flow x { d with tohost := 0 } (h.command d.tohost) returned := by
  have hprinted := hflow.printed
  have hrequests := hflow.requests
  rcases hflow.tohost.resolve_left hne with hread | ⟨ch, hwrite⟩
  · have hcommand : h.command readCmd = { h with reads := h.reads + 1 } := by rw [Host.command]; rfl
    rw [hread, hcommand]
    rw [hread, written_readCmd] at hprinted
    rw [hread, if_pos rfl] at hrequests
    refine ⟨?_, hflow.sent, ?_, .inl rfl, hflow.fromhost, hflow.buf, hflow.fits⟩
    · rw [written_zero]
      exact hprinted
    · dsimp only
      rw [if_neg readCmd_ne_zero, ← hrequests]
      omega
  · obtain ⟨hdev, hcmd, hdata⟩ := writeCmd_fields ch
    have hcommand : h.command (writeCmd ch) = { h with printed := h.printed ++ [ch] } := by
      rw [Host.command, if_pos hdev, hcmd, if_neg (by decide), if_pos rfl, hdata]
    rw [hwrite, hcommand]
    rw [hwrite, written_writeCmd] at hprinted
    rw [hwrite, if_neg (writeCmd_ne_readCmd ch)] at hrequests
    refine ⟨?_, hflow.sent, ?_, .inl rfl, hflow.fromhost, hflow.buf, hflow.fits⟩
    · rw [written_zero, List.append_nil]
      exact hprinted
    · dsimp only
      rw [if_neg readCmd_ne_zero]
      exact hrequests

/-- The host answers. -/
theorem Flow.answer {rest : List Byte} (hflow : Flow x d h returned) (hfree : d.fromhost = 0)
    (hreads : 0 < h.reads) :
    Flow x { d with fromhost := answer ch } { h with typed := rest, reads := h.reads - 1, sent := h.sent ++ [ch] }
      returned := by
  have hsent := hflow.sent
  have hrequests := hflow.requests
  rw [hfree, answered_zero] at hsent hrequests
  refine ⟨hflow.printed, ?_, ?_, hflow.tohost, .inr (.inl ⟨ch, rfl⟩), hflow.buf, hflow.fits⟩
  · rw [answered_answer, hsent, List.append_nil]
  · rw [answered_answer, ← hrequests, List.length_nil, List.length_singleton]
    dsimp only
    omega

/-- The host says that it has carried out a write. -/
theorem Flow.acknowledge {fh : Word} (hflow : Flow x d h returned) (hfree : d.fromhost = 0)
    (hdev : fromhostDev fh = 1) (hcmd : fromhostCmd fh = 1) : Flow x { d with fromhost := fh } h returned := by
  have hsent := hflow.sent
  have hrequests := hflow.requests
  rw [hfree, answered_zero, ← answered_acknowledged hcmd] at hsent hrequests
  exact ⟨hflow.printed, hsent, hrequests, hflow.tohost, .inr (.inr ⟨hdev, hcmd⟩), hflow.buf, hflow.fits⟩

end Flow

/-! ### Who has the lock -/

variable {ι : Type} [DecidableEq ι] {o : Option ι} {s s' : System ι}

/-- What the hart with the lock has in its hands. -/
def System.hands (s : System ι) (o : Option ι) : Hands := o.elim ⟨[], none, []⟩ fun i => (s.hart i).hands

/-- One hart has the lock, or none. -/
structure Inv (o : Option ι) (s : System ι) : Prop where
  lock : s.dev.lock = 0 ↔ o = none
  holds : ∀ j, (s.hart j).Holds ↔ o = some j
  ok : ∀ j, o = some j → (s.hart j).Ok s.dev
  flow : Flow (s.hands o) s.dev s.host s.returned

theorem Point.Ok.lock {p : Point} {d : Device} (h : p.Ok d) (lock : ℤ) : p.Ok { d with lock := lock } := by
  cases p <;> exact h

theorem Point.Ok.take {p : Point} {d : Device} (h : p.Ok d) : p.Ok { d with tohost := 0 } := by
  cases p <;> first | exact h | rfl

theorem Point.Ok.fromhost {p : Point} {d : Device} (h : p.Ok d) (hfree : d.fromhost = 0) (fh : Word) :
    p.Ok { d with fromhost := fh } := by
  cases p with
  | fromhostClear fh k => exact absurd (h.1.symm.trans hfree) h.2
  | _ => exact h

/-- The hart with the lock has its hands full as before. -/
theorem hands_update {i : ι} (hi : o ≠ some i) (p : Point) {d : Device} {h : Host} {returned : List Returned} :
    System.hands ⟨Function.update s.hart i p, d, h, returned⟩ o = s.hands o := by
  cases o with
  | none => rfl
  | some j => simp only [System.hands, Option.elim_some, Function.update_of_ne fun hji => hi (congrArg some hji)]

/-- A hart that has not got the lock does something else. -/
theorem Inv.outside (hinv : Inv o s) {i : ι} (hi : ¬ (s.hart i).Holds) {p : Point} (hp : ¬ p.Holds) {lock : ℤ}
    (hlock : lock = 0 ↔ s.dev.lock = 0) :
    Inv o ⟨Function.update s.hart i p, { s.dev with lock := lock }, s.host, s.returned⟩ := by
  have hoi : o ≠ some i := fun hoi => hi ((hinv.holds i).mpr hoi)
  have hother : ∀ j, j ≠ i → Function.update s.hart i p j = s.hart j := fun j hj => Function.update_of_ne hj ..
  refine ⟨hlock.trans hinv.lock, fun j => ?_, fun j hj => ?_, ?_⟩
  · by_cases hji : j = i
    · subst hji
      exact iff_of_false (by simpa using hp) hoi
    · simpa only [hother j hji] using hinv.holds j
  · have hji : j ≠ i := fun hji => hoi (hji ▸ hj)
    simpa only [hother j hji] using (hinv.ok j hj).lock lock
  · rw [hands_update hoi]
    exact hinv.flow.lock lock

/-- A hart takes the lock. -/
theorem Inv.acquire (hinv : Inv none s) {i : ι} (c : Call) :
    Inv (some i) ⟨Function.update s.hart i c.begin, { s.dev with lock := -1 }, s.host, s.returned⟩ := by
  have hother : ∀ j, j ≠ i → Function.update s.hart i c.begin j = s.hart j := fun j hj => Function.update_of_ne hj ..
  have hbegin : c.begin.Holds ∧ ∀ d, c.begin.Ok d := by cases c <;> exact ⟨trivial, fun _ => trivial⟩
  refine ⟨by simp, fun j => ?_, fun j hj => ?_, ?_⟩
  · by_cases hji : j = i
    · subst hji
      simpa using hbegin.1
    · simp only [hother j hji, Option.some.injEq]
      exact iff_of_false (fun hj => nomatch (hinv.holds j).mp hj) (Ne.symm hji)
  · obtain rfl := Option.some.inj hj
    simpa using hbegin.2 _
  · simp only [System.hands, Option.elim_some, Function.update_self]
    exact (hinv.flow.begin c).lock (-1)

/-- A hart that has not got the lock goes on: it waits for it, or takes it. -/
theorem Inv.waits (hinv : Inv o s) {i : ι} (hi : ¬ (s.hart i).Holds) :
    ∃ o', Inv o' ⟨Function.update s.hart i ((s.hart i).step s.dev).1, ((s.hart i).step s.dev).2, s.host,
      s.returned ++ (s.hart i).returns⟩ := by
  cases hp : s.hart i with
  | idle =>
    simp only [Point.step, Point.returns, List.append_nil]
    exact ⟨o, hinv.outside hi (p := .idle) id Iff.rfl⟩
  | lockRead c =>
    have hwaits : ¬ (if s.dev.lock ≠ 0 then Point.lockRead c else .lockSwap c).Holds := by
      split <;> exact id
    simp only [Point.step, Point.returns, List.append_nil]
    exact ⟨o, hinv.outside hi hwaits Iff.rfl⟩
  | lockSwap c =>
    simp only [Point.step, Point.returns, List.append_nil]
    by_cases h0 : s.dev.lock = 0
    · obtain rfl := hinv.lock.mp h0
      rw [if_neg (not_not.mpr h0)]
      exact ⟨_, hinv.acquire c⟩
    · rw [if_pos h0]
      exact ⟨o, hinv.outside hi (p := .lockRead c) id (iff_of_false (by decide) h0)⟩
  | _ => exact absurd (hp ▸ trivial) hi

/-- The hart with the lock goes on. -/
theorem Inv.inside {i : ι} (hinv : Inv (some i) s) :
    ∃ o', Inv o' ⟨Function.update s.hart i ((s.hart i).step s.dev).1, ((s.hart i).step s.dev).2, s.host,
      s.returned ++ (s.hart i).returns⟩ := by
  obtain ⟨hflow, hok, hnext⟩ := Flow.step hinv.flow ((hinv.holds i).mpr rfl) (hinv.ok i rfl)
  set p := ((s.hart i).step s.dev).1
  have hother : ∀ j, j ≠ i → Function.update s.hart i p j = s.hart j := fun j hj => Function.update_of_ne hj ..
  have hnone : ∀ j, j ≠ i → ¬ (s.hart j).Holds := fun j hj hholds =>
    hj (Option.some.inj ((hinv.holds j).mp hholds)).symm
  have hlocked : s.dev.lock ≠ 0 := fun h0 => nomatch hinv.lock.mp h0
  rcases hnext with ⟨hp, hlock⟩ | ⟨hp, hlock⟩
  · refine ⟨some i, ?_, fun j => ?_, fun j hj => ?_, ?_⟩
    · exact iff_of_false (hlock ▸ hlocked) nofun
    · by_cases hji : j = i
      · subst hji
        simpa using hp
      · simp only [hother j hji, Option.some.injEq]
        exact iff_of_false (hnone j hji) (Ne.symm hji)
    · obtain rfl := Option.some.inj hj
      simpa using hok
    · simpa only [System.hands, Option.elim_some, Function.update_self] using hflow
  · refine ⟨none, iff_of_true hlock rfl, fun j => ?_, nofun, ?_⟩
    · by_cases hji : j = i
      · subst hji
        simp [hp, Point.Holds]
      · simp only [hother j hji]
        exact iff_of_false (hnone j hji) nofun
    · rw [hp] at hflow
      exact hflow

/-- **A step**: one hart has the lock, or none. -/
theorem Inv.step {a : Act ι} (hinv : Inv o s) (hstep : SysStep s a s') : ∃ o', Inv o' s' := by
  cases hstep with
  | @call i c hidle => exact ⟨o, hinv.outside (by rw [hidle]; exact id) (p := .lockRead c) id Iff.rfl⟩
  | hart i =>
    by_cases hholds : (s.hart i).Holds
    · obtain rfl := (hinv.holds i).mp hholds
      exact hinv.inside
    · exact hinv.waits hholds
  | type ch => exact ⟨o, hinv.lock, hinv.holds, hinv.ok, hinv.flow.printed, hinv.flow.sent, hinv.flow.requests,
      hinv.flow.tohost, hinv.flow.fromhost, hinv.flow.buf, hinv.flow.fits⟩
  | take hcmd => exact ⟨o, hinv.lock, hinv.holds, fun j hj => (hinv.ok j hj).take, hinv.flow.take hcmd⟩
  | answer hfree hreads _ =>
    exact ⟨o, hinv.lock, hinv.holds, fun j hj => (hinv.ok j hj).fromhost hfree _, hinv.flow.answer hfree hreads⟩
  | acknowledge hfree hdev hcmd =>
    exact ⟨o, hinv.lock, hinv.holds, fun j hj => (hinv.ok j hj).fromhost hfree _,
      hinv.flow.acknowledge hfree hdev hcmd⟩

/-! ### Runs -/

/-- What has been typed in a run. -/
def typedIn (tr : List (Step (System ι) (Act ι))) : List Byte := tr.flatMap fun st =>
  match st.label with
  | .type ch => [ch]
  | _ => []

theorem flow_initial : Flow ⟨[], none, []⟩ ⟨0, 0, 0, 0⟩ ⟨[], 0, [], []⟩ [] := by
  refine ⟨?_, ?_, ?_, .inl rfl, .inl rfl, ?_, nofun⟩ <;> decide

omit [DecidableEq ι] in
theorem Inv.initial : Inv none (initial ι) where
  lock := iff_of_true rfl rfl
  holds _ := iff_of_false id nofun
  ok := nofun
  flow := flow_initial

theorem command_typed (h : Host) (cmd : Word) : (h.command cmd).sent = h.sent ∧ (h.command cmd).typed = h.typed := by
  unfold Host.command
  split_ifs <;> exact ⟨rfl, rfl⟩

/-- What is typed is sent in order. -/
theorem typed_step {a : Act ι} {tr : List (Step (System ι) (Act ι))} (h : typedIn tr = s.host.sent ++ s.host.typed)
    (hstep : SysStep s a s') : typedIn (tr ++ [⟨s, a, s'⟩]) = s'.host.sent ++ s'.host.typed := by
  rw [typedIn, List.flatMap_append, ← typedIn, h, List.flatMap_singleton]
  cases hstep with
  | type ch => rw [List.append_assoc]
  | answer hfree hreads htyped => simp [htyped]
  | take hcmd =>
    rw [List.append_nil, (command_typed _ _).1, (command_typed _ _).2]
  | _ => exact List.append_nil _

/-- **A run**: one hart has the lock, or none, in every state of it. -/
theorem run_inv {tr : List (Step (System ι) (Act ι))} (hrun : Run SysStep (initial ι) tr s) :
    (∃ o, Inv o s) ∧ typedIn tr = s.host.sent ++ s.host.typed := by
  refine hrun.history (P := fun tr s => (∃ o, Inv o s) ∧ typedIn tr = s.host.sent ++ s.host.typed)
    ⟨⟨none, .initial⟩, rfl⟩ fun tr s a s' _ ih hstep => ?_
  obtain ⟨⟨o, hinv⟩, htyped⟩ := ih
  exact ⟨hinv.step hstep, typed_step htyped hstep⟩

/-- A hart is about to return from one call at most. -/
theorem length_result_le (p : Point) : p.hands.returns.length ≤ 1 ∧ p.hands.result.length ≤ 1 := by
  have hpending : ∀ k : After, (k.pending.map Prod.snd).toList.length ≤ 1 :=
    fun k => by cases k <;> simp [After.pending]
  cases p with
  | fromhostRead k | fromhostClear _ k | bufStore _ k => exact ⟨by simp [Point.hands], hpending k⟩
  | _ => simp [Point.hands, Hands.result]

theorem length_flatMap_le {α : Type} {f : α → List Byte} (hf : ∀ x, (f x).length ≤ 1) (xs : List α) :
    (xs.flatMap f).length ≤ xs.length := by
  induction xs with
  | nil => exact le_rfl
  | cons x xs ih =>
    have hx := hf x
    rw [List.flatMap_cons, List.length_append, List.length_cons]
    omega

/-- There is one character on its way to a hart at most. -/
theorem Flow.length_le {x : Hands} {d : Device} {h : Host} {returned : List Returned} (hflow : Flow x d h returned) :
    (kept d.buf ++ x.flight ++ answered d.fromhost).length ≤ 1 := by
  have hrequests := hflow.requests
  simp only [Hands.requests] at hrequests
  rw [List.length_append, List.length_append]
  by_cases hbuf : d.buf = -1
  · rw [if_pos hbuf] at hrequests
    rw [kept_of_lt (by omega), List.length_nil]
    omega
  · rw [if_neg hbuf] at hrequests
    have hkept : (kept d.buf).length ≤ 1 := by
      rw [kept]
      split <;> simp
    omega

/-- **The console.** Whatever happens, and in whatever order, no assertion fails. What has been printed is, with the
command that the host has yet to take, what has been written by the calls that have returned, and at most one
character more, for a call that is about to return. What has been typed is what has been read by the calls that have
returned, at most two characters that are on their way, and what has not been sent. While no hart is in a call the
former are the same, and the latter differ by what is in the registers. -/
theorem console_inOrder {tr : List (Step (System ι) (Act ι))} (hrun : Run SysStep (initial ι) tr s) :
    (∀ i, s.hart i ≠ .failed) ∧
      (∃ p, p.length ≤ 1 ∧ s.host.printed ++ written s.dev.tohost = s.returned.flatMap putOf ++ p) ∧
      (∃ q, q.length ≤ 2 ∧ typedIn tr = s.returned.flatMap charOf ++ q ++ s.host.typed) ∧
      ((∀ i, s.hart i = .idle) → s.host.printed ++ written s.dev.tohost = s.returned.flatMap putOf ∧
        typedIn tr = s.returned.flatMap charOf ++ kept s.dev.buf ++ answered s.dev.fromhost ++ s.host.typed) := by
  obtain ⟨⟨o, hinv⟩, htyped⟩ := run_inv hrun
  have hflow := hinv.flow
  have hlen : (s.hands o).returns.length ≤ 1 ∧ (s.hands o).result.length ≤ 1 := by
    cases o with
    | none => exact ⟨Nat.zero_le 1, Nat.zero_le 1⟩
    | some i => exact length_result_le (s.hart i)
  have hputOf : ∀ r, (putOf r).length ≤ 1 := fun r => by cases r <;> simp [putOf]
  have hcharOf : ∀ r, (charOf r).length ≤ 1 := fun r => by
    cases r with
    | char r => rw [charOf]; split <;> simp
    | put _ => exact Nat.zero_le 1
  refine ⟨fun i hfailed => ?_, ⟨(s.hands o).returns.flatMap putOf, ?_, ?_⟩,
    ⟨(s.hands o).result.flatMap charOf ++ (kept s.dev.buf ++ (s.hands o).flight ++ answered s.dev.fromhost), ?_, ?_⟩,
    fun hidle => ?_⟩
  · have hok := hinv.ok i ((hinv.holds i).mp (hfailed ▸ trivial))
    rw [hfailed] at hok
    exact hok
  · exact (length_flatMap_le hputOf _).trans hlen.1
  · rw [hflow.printed, List.flatMap_append]
  · have hresult := length_flatMap_le hcharOf (s.hands o).result
    have hway := hflow.length_le
    rw [List.length_append]
    omega
  · rw [htyped, hflow.sent, List.flatMap_append]
    simp only [List.append_assoc]
  · have hnone : s.hands o = ⟨[], none, []⟩ := by
      cases o with
      | none => rfl
      | some i => simp only [System.hands, Option.elim_some, hidle i, Point.hands]
    rw [htyped, hflow.printed, hflow.sent, hnone]
    simp [Hands.result]

/-! ### A run -/

/-- What may be tried. -/
inductive Move (ι : Type) where
  /-- A hart begins a call. -/
  | call (i : ι) (c : Call)
  /-- A hart goes on, some steps. -/
  | go (i : ι) (n : ℕ)
  /-- A character is typed. -/
  | type (ch : Byte)
  /-- The host takes a command. -/
  | take
  /-- The host answers. -/
  | answer
  /-- It says that it has carried out a write. -/
  | acknowledge

/-- A hart goes on. -/
def System.go (s : System ι) (i : ι) : System ι :=
  ⟨Function.update s.hart i ((s.hart i).step s.dev).1, ((s.hart i).step s.dev).2, s.host,
    s.returned ++ (s.hart i).returns⟩

/-- A move, if it is possible. -/
def System.play (s : System ι) : Move ι → Option (System ι)
  | .call i c => if s.hart i = .idle then some { s with hart := Function.update s.hart i (.lockRead c) } else none
  | .go i n => some ((·.go i)^[n] s)
  | .type ch => some { s with host := { s.host with typed := s.host.typed ++ [ch] } }
  | .take =>
    if s.dev.tohost ≠ 0 then
      some { s with dev := { s.dev with tohost := 0 }, host := s.host.command s.dev.tohost }
    else none
  | .answer =>
    match s.host.typed with
    | ch :: rest =>
      if s.dev.fromhost = 0 ∧ 0 < s.host.reads then
        some { s with
          dev := { s.dev with fromhost := answer ch }
          host := { s.host with typed := rest, reads := s.host.reads - 1, sent := s.host.sent ++ [ch] } }
      else none
    | [] => none
  | .acknowledge =>
    if s.dev.fromhost = 0 then some { s with dev := { s.dev with fromhost := tohostCmd 1 1 0 } } else none

theorem run_go (i : ι) (n : ℕ) (s : System ι) : ∃ tr, Run SysStep s tr ((·.go i)^[n] s) := by
  induction n generalizing s with
  | zero => exact ⟨[], .nil⟩
  | succ n ih =>
    obtain ⟨tr, htr⟩ := ih (s.go i)
    exact ⟨_, (Run.nil.snoc (.hart i)).append htr⟩

theorem run_play {m : Move ι} (h : s.play m = some s') : ∃ tr, Run SysStep s tr s' := by
  cases m with
  | call i c =>
    obtain ⟨hidle, hs'⟩ := Option.ite_none_right_eq_some.mp h
    obtain rfl := Option.some.inj hs'
    exact ⟨_, Run.nil.snoc (.call c hidle)⟩
  | go i n =>
    obtain rfl := Option.some.inj h
    exact run_go i n s
  | type ch =>
    obtain rfl := Option.some.inj h
    exact ⟨_, Run.nil.snoc (.type ch)⟩
  | take =>
    obtain ⟨hcmd, hs'⟩ := Option.ite_none_right_eq_some.mp h
    obtain rfl := Option.some.inj hs'
    exact ⟨_, Run.nil.snoc (.take hcmd)⟩
  | answer =>
    rw [System.play] at h
    split at h
    · next ch rest htyped =>
      obtain ⟨⟨hfree, hreads⟩, hs'⟩ := Option.ite_none_right_eq_some.mp h
      obtain rfl := Option.some.inj hs'
      exact ⟨_, Run.nil.snoc (.answer hfree hreads htyped)⟩
    · nomatch h
  | acknowledge =>
    obtain ⟨hfree, hs'⟩ := Option.ite_none_right_eq_some.mp h
    obtain rfl := Option.some.inj hs'
    exact ⟨_, Run.nil.snoc (.acknowledge hfree (by decide) (by decide))⟩

theorem run_plays {ms : List (Move ι)} (h : ms.foldlM System.play s = some s') : ∃ tr, Run SysStep s tr s' := by
  induction ms generalizing s with
  | nil =>
    obtain rfl := Option.some.inj h
    exact ⟨[], .nil⟩
  | cons m ms ih =>
    rw [List.foldlM_cons] at h
    obtain ⟨s₁, h₁, hrest⟩ := Option.bind_eq_some_iff.mp h
    obtain ⟨tr₁, htr₁⟩ := run_play h₁
    obtain ⟨tr₂, htr₂⟩ := ih hrest
    exact ⟨_, htr₁.append htr₂⟩

/-- One hart asks for a character before there is one, and has to wait for the lock; another one writes one, and the
host says that it has printed it. Then a character is typed, and the first hart asks again. -/
def dialogue : List (Move (Fin 2)) :=
  [.call 1 (.putchar 0x41), .go 1 3, .call 0 .getchar, .go 0 2, .go 1 2, .go 0 6, .take, .acknowledge, .go 0 5,
    .type 0x42, .take, .answer, .call 0 .getchar, .go 0 10, .type 0x43]

/-- What has been returned, printed and typed is as the theorem says. -/
theorem console_inOrder_dialogue : ∃ (tr : List (Step (System (Fin 2)) (Act (Fin 2)))) (s : System (Fin 2)),
    Run SysStep (initial (Fin 2)) tr s ∧ s.returned = [.put 0x41, .char (-1), .char 0x42] ∧
      (∀ i, s.hart i ≠ .failed) ∧ s.host.printed ++ written s.dev.tohost = [0x41] ∧
      typedIn tr = [0x42] ++ kept s.dev.buf ++ answered s.dev.fromhost ++ s.host.typed := by
  obtain ⟨s, hs⟩ : ∃ s, dialogue.foldlM System.play (initial (Fin 2)) = some s := ⟨_, rfl⟩
  obtain ⟨hreturned, h0, h1⟩ : s.returned = [.put 0x41, .char (-1), .char 0x42] ∧ s.hart 0 = .idle ∧
      s.hart 1 = .idle := by
    obtain rfl := Option.some.inj hs
    decide
  obtain ⟨tr, hrun⟩ := run_plays hs
  obtain ⟨hfailed, -, -, hidle⟩ := console_inOrder hrun
  obtain ⟨hprinted, htyped⟩ := hidle fun i => match i with | 0 => h0 | 1 => h1
  rw [hreturned] at hprinted htyped
  exact ⟨tr, s, hrun, hreturned, hfailed, hprinted, htyped⟩

end Htif

end Sanctum
