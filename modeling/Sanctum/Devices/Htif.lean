import Sanctum.Machine.Memory
import Sanctum.Machine.Run

/-!
# The console

`htif.c`: harts read from and write to a console that the host keeps, by two registers. A hart gives the host a
command in `tohost` when the host has taken the last one; the host answers in `fromhost` when the harts have taken
the last answer. The harts share a spinlock, and a place for a character that has come while a hart was busy with
something else.

Every access to something that is shared is a step of its own, and `Point` says which one is the next. There may be
any number of harts, and the host takes its steps when it likes.
-/

namespace Sanctum

namespace Htif

/-! ### Commands and answers -/

/-- `TOHOST_CMD`. -/
def tohostCmd (dev cmd payload : Word) : Word := dev <<< 56 ||| cmd <<< 48 ||| payload

/-- `FROMHOST_DEV`. -/
def fromhostDev (fh : Word) : Word := fh >>> 56

/-- `FROMHOST_CMD`. -/
def fromhostCmd (fh : Word) : Word := fh <<< 8 >>> 56

/-- `FROMHOST_DATA`. -/
def fromhostData (fh : Word) : Word := fh <<< 16 >>> 16

/-- The command that a character be read. -/
def readCmd : Word := tohostCmd 1 0 0

/-- The command that a character be written. -/
def writeCmd (ch : Byte) : Word := tohostCmd 1 1 (ch.setWidth 64)

theorem writeCmd_ne_zero : ∀ ch : Byte, writeCmd ch ≠ 0 := by
  decide

/-! ### Harts -/

/-- What the harts share. -/
structure Device where
  /-- `htif_lock.lock`. -/
  lock : ℤ
  /-- `tohost`. -/
  tohost : Word
  /-- `fromhost`. -/
  fromhost : Word
  /-- `htif_console_buf`. -/
  buf : ℤ

/-- A call. -/
inductive Call where
  /-- `htif_console_getchar()`. -/
  | getchar
  /-- `htif_console_putchar(ch)`. -/
  | putchar (ch : Byte)
  deriving DecidableEq

/-- A call that returns. -/
inductive Returned where
  /-- `htif_console_getchar()` returns a number. -/
  | char (r : ℤ)
  /-- `htif_console_putchar(ch)` returns. -/
  | put (ch : Byte)
  deriving DecidableEq

/-- From where `__check_fromhost` has been called. -/
inductive After where
  /-- From `htif_console_getchar`. -/
  | getchar
  /-- From the loop of `__set_tohost`, with a command that is to be given before a call returns. -/
  | tohost (cmd : Word) (r : Returned)
  deriving DecidableEq

/-- What a hart is to do next. -/
inductive Point where
  /-- Nothing: it is not in a call. -/
  | idle
  /-- `while (atomic_read(&lock->lock))`. -/
  | lockRead (c : Call)
  /-- `atomic_swap(&lock->lock, -1)`. -/
  | lockSwap (c : Call)
  /-- `uint64_t fh = fromhost`. -/
  | fromhostRead (k : After)
  /-- `fromhost = 0`, when `fh` has been read. -/
  | fromhostClear (fh : Word) (k : After)
  /-- `htif_console_buf = v`. -/
  | bufStore (v : ℤ) (k : After)
  /-- `int ch = htif_console_buf`. -/
  | bufRead
  /-- `htif_console_buf = -1`. -/
  | bufTake (ch : ℤ)
  /-- `while (tohost)`. -/
  | tohostRead (cmd : Word) (r : Returned)
  /-- `tohost = cmd`. -/
  | tohostWrite (cmd : Word) (r : Returned)
  /-- `atomic_set(&lock->lock, 0)`. -/
  | unlock (r : Returned)
  /-- Nothing: an assertion has failed. -/
  | failed
  deriving DecidableEq

/-- Where a call goes on when it has the lock. -/
def Call.begin : Call → Point
  | .getchar => .fromhostRead .getchar
  | .putchar ch => .tohostRead (writeCmd ch) (.put ch)

/-- Where `__check_fromhost` returns to. -/
def After.point : After → Point
  | .getchar => .bufRead
  | .tohost cmd r => .tohostRead cmd r

/-- What follows `fromhost = 0` in `__check_fromhost`. -/
def checked (fh : Word) (k : After) : Point :=
  if fromhostDev fh = 1 then
    if fromhostCmd fh = 0 then .bufStore (1 + ((fromhostData fh).setWidth 8).toNat) k
    else if fromhostCmd fh = 1 then k.point
    else .failed
  else .failed

/-- A hart takes its next step. -/
def Point.step (d : Device) : Point → Point × Device
  | .idle => (.idle, d)
  | .lockRead c => (if d.lock ≠ 0 then .lockRead c else .lockSwap c, d)
  | .lockSwap c => (if d.lock ≠ 0 then .lockRead c else c.begin, { d with lock := -1 })
  | .fromhostRead k => (if d.fromhost = 0 then k.point else .fromhostClear d.fromhost k, d)
  | .fromhostClear fh k => (checked fh k, { d with fromhost := 0 })
  | .bufStore v k => (k.point, { d with buf := v })
  | .bufRead => (if 0 ≤ d.buf then .bufTake d.buf else .unlock (.char (d.buf - 1)), d)
  | .bufTake ch => (.tohostRead readCmd (.char (ch - 1)), { d with buf := -1 })
  | .tohostRead cmd r => (if d.tohost ≠ 0 then .fromhostRead (.tohost cmd r) else .tohostWrite cmd r, d)
  | .tohostWrite cmd r => (.unlock r, { d with tohost := cmd })
  | .unlock _ => (.idle, { d with lock := 0 })
  | .failed => (.failed, d)

/-- The call that returns with this step. -/
def Point.returns : Point → List Returned
  | .unlock r => [r]
  | _ => []

/-! ### The host -/

/-- The host. -/
structure Host where
  /-- What has been typed, and not yet sent. -/
  typed : List Byte
  /-- How many characters the harts are waiting for. -/
  reads : ℕ
  /-- What has been sent, oldest first. -/
  sent : List Byte
  /-- What has been printed, oldest first. -/
  printed : List Byte

/-- The host carries out a command. Device 1 is the console; other devices are none of ours. -/
def Host.command (h : Host) (cmd : Word) : Host :=
  if fromhostDev cmd = 1 then
    if fromhostCmd cmd = 0 then { h with reads := h.reads + 1 }
    else if fromhostCmd cmd = 1 then { h with printed := h.printed ++ [(fromhostData cmd).setWidth 8] }
    else h
  else h

/-- The answer to a read: bit 8 says that there is a character. -/
def answer (ch : Byte) : Word := tohostCmd 1 0 (0x100 ||| ch.setWidth 64)

/-! ### The system -/

/-- Harts and host. -/
structure System (ι : Type) where
  /-- The harts. -/
  hart : ι → Point
  /-- What they share. -/
  dev : Device
  /-- The host. -/
  host : Host
  /-- The calls that have returned, oldest first. -/
  returned : List Returned

/-- Who takes a step. -/
inductive Act (ι : Type) where
  /-- A hart. -/
  | hart (i : ι)
  /-- A user, who types a character. -/
  | type (ch : Byte)
  /-- The host, which takes a command. -/
  | take
  /-- The host, which answers a read. -/
  | answer
  /-- The host, which says that it has carried out a write. -/
  | acknowledge

variable {ι : Type} [DecidableEq ι]

/-- What may happen. -/
inductive SysStep (s : System ι) : Act ι → System ι → Prop where
  /-- A hart begins a call. -/
  | call {i : ι} (c : Call) (hidle : s.hart i = .idle) :
    SysStep s (.hart i) { s with hart := Function.update s.hart i (.lockRead c) }
  /-- A hart goes on. -/
  | hart (i : ι) : SysStep s (.hart i)
      { s with
        hart := Function.update s.hart i ((s.hart i).step s.dev).1
        dev := ((s.hart i).step s.dev).2
        returned := s.returned ++ (s.hart i).returns }
  | type (ch : Byte) : SysStep s (.type ch) { s with host := { s.host with typed := s.host.typed ++ [ch] } }
  | take (hcmd : s.dev.tohost ≠ 0) :
    SysStep s .take { s with dev := { s.dev with tohost := 0 }, host := s.host.command s.dev.tohost }
  | answer {ch : Byte} {rest : List Byte} (hfree : s.dev.fromhost = 0) (hreads : 0 < s.host.reads)
      (htyped : s.host.typed = ch :: rest) : SysStep s .answer
      { s with
        dev := { s.dev with fromhost := answer ch }
        host := { s.host with typed := rest, reads := s.host.reads - 1, sent := s.host.sent ++ [ch] } }
  /-- The code does not count on it, nor on how often it happens. -/
  | acknowledge {fh : Word} (hfree : s.dev.fromhost = 0) (hdev : fromhostDev fh = 1) (hcmd : fromhostCmd fh = 1) :
    SysStep s .acknowledge { s with dev := { s.dev with fromhost := fh } }

/-- Nothing has happened yet. -/
def initial (ι : Type) : System ι where
  hart _ := .idle
  dev := ⟨0, 0, 0, 0⟩
  host := ⟨[], 0, [], []⟩
  returned := []

end Htif

end Sanctum
