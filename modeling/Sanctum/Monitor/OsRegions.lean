import Sanctum.Machine.Interleaving
import Sanctum.Monitor.LiveEnclaves
import Sanctum.Monitor.LockBalance

/-!
# The regions of the OS under the lock of region 0

`set_dma_range` looks at the owners of one region after the other, with the lock of region
`0` in hand, and gives the lock of each region back before it goes on. That is right if
nobody makes a region the OS's, or takes one from it, without the lock of region `0`.

Here calls run side by side (`sharedExec`): each operation is a step, and the locks of the
regions are locks as their comments have it. `block_dram_region` and `assign_dram_region` lock
the region of an owner, and a region of the OS changes hands only if that is region `0`: the
owners being special, the owner that a region is taken from or given to is
`null_enclave_id`. The calls that only free a region, or make it a metadata region, keep it
from the OS as it was.

This takes callers that are no special owners themselves. `flush_cached_dram_regions` stores
the clock at the address that `flushed_at` holds, which is `0` and so the address of the
first core's `enclave_id`: that core is then the "owner" of the regions that are blocked, and
the bit that `block_dram_region` clears in its "bitmap" is one of the monitor's own arrays
(`not_frozen`).
-/

namespace Sanctum

/-! ### A machine that threads share -/

/-- A machine whose locks are objects, and which thread holds which. -/
structure SharedMachine (ι : Type) where
  /-- The machine. -/
  machine : Machine
  /-- Who holds the lock whose flag is at an address. -/
  holder : Word → Option ι

variable {ι : Type}

/-- What each operation does when thread `i` asks for it. -/
def sharedExec (i : ι) : Handler hardware (SharedMachine ι)
  | .testAndSet a, s =>
    match s.holder a with
    | some _ => some (true, s)
    | none => some (false, { s with holder := Function.update s.holder a (some i) })
  | .clear a, s => some ((), { s with holder := Function.update s.holder a none })
  | o, s => (exec .code o s.machine).map fun x => (x.1, { s with machine := x.2 })

namespace OsRegions

variable (C : Config)

/-! ### What the calls agree on -/

/-- No core runs under one of the IDs that say that nobody owns a region. -/
def NoSpecialCaller (m : Memory) : Prop :=
  ∀ core : Word, core.toNat < C.coreCount.toNat →
    Slot.read C m (.core .enclaveId core) = nullEnclaveId ∨ 3 < (Slot.read C m (.core .enclaveId core)).toNat

/-- The OS has the same regions. -/
def SameOsRegions (m m' : Memory) : Prop :=
  ∀ r : Word, r.toNat < C.regionCount →
    (Slot.read C m (.region .owner r) = nullEnclaveId ↔ Slot.read C m' (.region .owner r) = nullEnclaveId)

/-- What the holder `i` of locks relies on. -/
structure Respects (i : ι) (s s' : SharedMachine ι) : Prop where
  /-- It keeps them. -/
  locks : ∀ a, s.holder a = some i → s'.holder a = some i
  /-- The regions it has locked stay with their owners. -/
  owners : ∀ r : Word, r.toNat < C.regionCount → s.holder (C.globals.regionLock r) = some i →
    Slot.read C s'.machine.mem (.region .owner r) = Slot.read C s.machine.mem (.region .owner r)
  /-- With the lock of region `0` in hand, the OS keeps its regions and gets no other. -/
  osRegions : s.holder (C.globals.regionLock 0) = some i → SameOsRegions C s.machine.mem s'.machine.mem

/-- The owners are special, and no caller is. -/
structure Settled (m : Memory) : Prop where
  /-- The owners. -/
  owners : SpecialOwners C m
  /-- The callers. -/
  callers : NoSpecialCaller C m

/-- The protocol that the calls follow. -/
def protocol (ι : Type) : Protocol hardware ι (SharedMachine ι) where
  exec := sharedExec
  Inv s := Settled C s.machine.mem
  rely := Respects C
  refl _ _ := ⟨fun _ h => h, fun _ _ _ => rfl, fun _ _ _ => Iff.rfl⟩
  trans {_ _ _ _} h h' :=
    { locks := fun a ha => h'.locks a (h.locks a ha)
      owners := fun r hr hlock => (h'.owners r hr (h.locks _ hlock)).trans (h.owners r hr hlock)
      osRegions := fun hlock r hr => (h.osRegions hlock r hr).trans (h'.osRegions (h.locks _ hlock) r hr) }

variable {C} {i : ι} {m m' : Memory} {α β : Type}

/-- The owners and the callers are the same. -/
structure Keeps (C : Config) (m m' : Memory) : Prop where
  /-- The owners. -/
  owners : ∀ r : Word, r.toNat < C.regionCount →
    Slot.read C m' (.region .owner r) = Slot.read C m (.region .owner r)
  /-- The callers. -/
  callers : ∀ core : Word, core.toNat < C.coreCount.toNat →
    Slot.read C m' (.core .enclaveId core) = Slot.read C m (.core .enclaveId core)

theorem Keeps.refl (m : Memory) : Keeps C m m := ⟨fun _ _ => rfl, fun _ _ => rfl⟩

theorem Keeps.settled (h : Keeps C m m') (hm : Settled C m) : Settled C m' where
  owners := hm.owners.congr h.owners
  callers core hcore := by rw [h.callers core hcore]; exact hm.callers core hcore

/-- A store to another slot. -/
theorem keeps_store {a : Slot} {v : Word} (ha : a.Valid C) (howner : ∀ r, a ≠ .region .owner r)
    (hcaller : ∀ core, a ≠ .core .enclaveId core) : Keeps C m (m.store64 (a.addr C) v) where
  owners r hr := by
    rw [Slot.read_store64 C (show (Slot.region .owner r).Valid C from hr) ha, if_neg (howner r).symm]
  callers core hcore := by
    rw [Slot.read_store64 C (show (Slot.core .enclaveId core).Valid C from hcore) ha, if_neg (hcaller core).symm]

/-- Zeros past the arrays. -/
theorem keeps_fill {a : Word} {n : ℕ} (h : ∀ b, Memory.Within a n b → C.arraysEnd ≤ b.toNat) :
    Keeps C m (m.zeroed a n) := by
  have hbelow : ∀ b : Word, b.toNat < C.arraysEnd → m.zeroed a n b = m b := fun b hb =>
    Memory.zeroed_of_not_within fun hw => absurd (h b hw) (by omega)
  exact ⟨fun r hr => Slot.read_congr_of_below C hr hbelow, fun core hcore => Slot.read_congr_of_below C hcore hbelow⟩

/-! ### Operations nobody minds -/

/-- The operation is not about a lock, and keeps the owners and the callers. -/
def Quiet (C : Config) (o : HwOp) : Prop :=
  o.plain = true ∧ ∀ s x s', exec .code o s = some (x, s') → Keeps C s.mem s'.mem

theorem sharedExec_plain {o : HwOp} {x : o.Answer} {s s' : SharedMachine ι} (ho : o.plain = true)
    (h : sharedExec i o s = some (x, s')) :
    exec .code o s.machine = some (x, s'.machine) ∧ s'.holder = s.holder := by
  have heq : sharedExec i o s = (exec .code o s.machine).map fun x => (x.1, { s with machine := x.2 }) := by
    cases o with
    | testAndSet a => cases ho
    | clear a => cases ho
    | _ => rfl
  rw [heq] at h
  obtain ⟨y, hy, hx⟩ := Option.map_eq_some_iff.mp h
  obtain ⟨rfl, rfl⟩ := Prod.mk.inj hx
  exact ⟨hy, rfl⟩

theorem Keeps.respects {s s' : SharedMachine ι} (h : Keeps C s.machine.mem s'.machine.mem)
    (hlocks : ∀ a, s.holder a = some i → s'.holder a = some i) : Respects C i s s' where
  locks := hlocks
  owners r hr _ := h.owners r hr
  osRegions _ r hr := by rw [h.owners r hr]

/-- A quiet program. -/
theorem triple_quiet {P : SharedMachine ι → Prop} {p : Monitor α} (hp : p.Only (Quiet C))
    (hP : (protocol C ι).Stable i P) : (protocol C ι).Triple i P p fun _ => P := by
  refine Protocol.Triple.only hp hP fun o s x s' ho hinv hx => ?_
  obtain ⟨hexec, hholder⟩ := sharedExec_plain ho.1 hx
  have hkeeps := ho.2 _ _ _ hexec
  exact ⟨fun j => hkeeps.respects fun a ha => by rw [hholder]; exact ha, hkeeps.settled hinv⟩

theorem quiet_load64 (a : Word) : (load64 a).Only (Quiet C) :=
  .request ⟨rfl, fun s x s' h => by rw [← (Prod.mk.inj (Option.some.inj h)).2]; exact .refl _⟩

theorem quiet_readDmaRange : readDmaRange.Only (Quiet C) :=
  .request ⟨rfl, fun s x s' h => by rw [← (Prod.mk.inj (Option.some.inj h)).2]; exact .refl _⟩

theorem quiet_writeDmaRange (first last : Word) : (writeDmaRange first last).Only (Quiet C) :=
  .request ⟨rfl, fun s x s' h => by rw [← (Prod.mk.inj (Option.some.inj h)).2]; exact .refl _⟩

theorem quiet_setDrbMap (a : Word) : (setDrbMap a).Only (Quiet C) :=
  (quiet_load64 a).bind fun _ => .request ⟨rfl, fun s x s' h => by
    rw [← (Prod.mk.inj (Option.some.inj h)).2]; exact .refl _⟩

theorem quiet_store {a : Slot} {v : Word} (ha : a.Valid C) (howner : ∀ r, a ≠ .region .owner r)
    (hcaller : ∀ core, a ≠ .core .enclaveId core) : (store64 (a.addr C) v).Only (Quiet C) :=
  .request ⟨rfl, fun s x s' h => by
    rw [← (Prod.mk.inj (Option.some.inj h)).2]; exact keeps_store ha howner hcaller⟩

theorem quiet_clock (v : Word) : (atomicFetchAdd C.globals.dramRegions v).Only (Quiet C) :=
  .request ⟨rfl, fun s x s' h => by
    rw [← (Prod.mk.inj (Option.some.inj h)).2]
    exact keeps_store (a := .clock) trivial (by simp) (by simp)⟩

/-- The map of a metadata region lies past the arrays. -/
theorem quiet_bzero (hfits : MonitorFits C) {r : Word} (hr : r.toNat < C.regionCount) (hr0 : r ≠ 0) :
    (bzero (dramRegionStart C.globals r) (sll C.globals.metadataRegionStart pageShift).toNat).Only (Quiet C) := by
  have hpos : 0 < r.toNat := Nat.pos_of_ne_zero fun h => hr0 (BitVec.eq_of_toNat_eq h)
  have hle : C.arraysEnd ≤ r.toNat * C.stripeSize := le_trans hfits (Nat.le_mul_of_pos_left _ hpos)
  refine .request ⟨rfl, fun s x s' h => ?_⟩
  rw [← (Prod.mk.inj (Option.some.inj h)).2]
  exact keeps_fill fun b hb => hle.trans ((C.within_map_iff hr).mp hb).1

theorem quiet_osBitmap {r : Word} (v : Bool) (hr : r.toNat < C.regionCount) :
    (setEnclaveRegionBitmapBit C.globals nullEnclaveId r v).Only (Quiet C) := by
  rw [setEnclaveRegionBitmapBit, if_pos rfl]
  exact (quiet_load64 _).bind fun w => quiet_store (a := .osBitmap (r / 64)) (C.valid_osBitmap hr) (by simp) (by simp)

/-! ### Locks -/

/-- Thread `i` holds the locks in `A`. -/
def Holds (i : ι) (A : Finset Word) (s : SharedMachine ι) : Prop := ∀ a ∈ A, s.holder a = some i

/-- Besides, region `r`, whose lock is one of them, is `v`'s. -/
def Knows (C : Config) (i : ι) (A : Finset Word) (r v : Word) (s : SharedMachine ι) : Prop :=
  Holds i A s ∧ Slot.read C s.machine.mem (.region .owner r) = v

variable {A : Finset Word} {r v : Word}

theorem stable_holds : (protocol C ι).Stable i (Holds i A) := fun _ _ h hA a ha => h.locks a (hA a ha)

theorem stable_knows (hr : r.toNat < C.regionCount) (hlock : C.globals.regionLock r ∈ A) :
    (protocol C ι).Stable i (Knows C i A r v) :=
  fun s t h hs => ⟨stable_holds s t h hs.1, (h.owners r hr (hs.1 _ hlock)).trans hs.2⟩

/-- Only the locks have changed. -/
theorem respects_of_locks {s s' : SharedMachine ι} (h : s'.machine = s.machine)
    (hlocks : ∀ a, s.holder a = some i → s'.holder a = some i) : Respects C i s s' :=
  Keeps.respects (by rw [h]; exact .refl _) hlocks

/-- Try to take a lock; `c` is what follows from its being free. -/
theorem triple_tryLock {c : Prop} {P : SharedMachine ι → Prop} {Q : α → SharedMachine ι → Prop} {p q : Monitor α}
    {a : Word} (hP : (protocol C ι).Stable i P) (hc : ∀ s, P s → s.holder a = none → c)
    (hheld : (protocol C ι).Triple i P p Q)
    (hfree : c → (protocol C ι).Triple i (fun s => s.holder a = some i ∧ P s) q Q) :
    (protocol C ι).Triple i P (testAndSet a >>= fun held => if held = true then p else q) Q := by
  refine .bind (Q := fun held s => if held then P s else c ∧ s.holder a = some i ∧ P s) ?_ fun held => ?_
  · refine .request hP fun s x s' hinv hs hx => ?_
    change (match s.holder a with
      | some _ => some (true, s)
      | none => some (false, { s with holder := Function.update s.holder a (some i) })) = some (x, s') at hx
    cases ha : s.holder a with
    | some j =>
      rw [ha] at hx
      obtain ⟨rfl, rfl⟩ := Prod.mk.inj (Option.some.inj hx)
      exact ⟨fun j _ => (protocol C ι).refl j s, hinv, hs⟩
    | none =>
      rw [ha] at hx
      obtain ⟨rfl, rfl⟩ := Prod.mk.inj (Option.some.inj hx)
      have hrespects : ∀ j, Respects C j s { s with holder := Function.update s.holder a (some i) } := fun j =>
        respects_of_locks rfl fun b hb => (Function.update_of_ne (fun h => by rw [h, ha] at hb; cases hb) _ _).trans hb
      exact ⟨fun j _ => hrespects j, hinv, hc s hs ha, Function.update_self .., hP _ _ (hrespects i) hs⟩
  · cases held with
    | true => exact hheld
    | false => exact .of_fact hfree

theorem holds_insert {s : SharedMachine ι} {a : Word} (h : s.holder a = some i) (hA : Holds i A s) :
    Holds i (insert a A) s := by
  intro b hb
  rcases Finset.mem_insert.mp hb with rfl | hb
  · exact h
  · exact hA b hb

theorem Holds.not_mem {s : SharedMachine ι} {a : Word} (hA : Holds i A s) (h : s.holder a = none) : a ∉ A :=
  fun ha => by cases h.symm.trans (hA a ha)

/-- A lock more. -/
theorem triple_lock {Q : α → SharedMachine ι → Prop} {p q : Monitor α} {a : Word}
    (hheld : (protocol C ι).Triple i (Holds i A) p Q)
    (hfree : a ∉ A → (protocol C ι).Triple i (Holds i (insert a A)) q Q) :
    (protocol C ι).Triple i (Holds i A) (testAndSet a >>= fun held => if held = true then p else q) Q :=
  triple_tryLock stable_holds (fun _ hA => hA.not_mem) hheld fun ha => (hfree ha).pre fun _ h => holds_insert h.1 h.2

/-- A lock more, with an owner in mind. -/
theorem triple_lock_knows {Q : α → SharedMachine ι → Prop} {p q : Monitor α} {a : Word}
    (hr : r.toNat < C.regionCount) (hlock : C.globals.regionLock r ∈ A)
    (hheld : (protocol C ι).Triple i (Knows C i A r v) p Q)
    (hfree : a ∉ A → (protocol C ι).Triple i (Knows C i (insert a A) r v) q Q) :
    (protocol C ι).Triple i (Knows C i A r v) (testAndSet a >>= fun held => if held = true then p else q) Q :=
  triple_tryLock (stable_knows hr hlock) (fun _ hs => hs.1.not_mem) hheld fun ha =>
    (hfree ha).pre fun _ h => ⟨holds_insert h.1 h.2.1, h.2.2⟩

/-- First give back a lock that the thread holds. -/
theorem triple_unlock {Q : α → SharedMachine ι → Prop} {f : Unit → Monitor α} {a : Word} (ha : a ∈ A)
    (hf : (protocol C ι).Triple i (Holds i (A.erase a)) (f ()) Q) :
    (protocol C ι).Triple i (Holds i A) (clear a >>= f) Q := by
  refine Protocol.Triple.bind (Q := fun _ => Holds i (A.erase a)) ?_ fun _ => hf
  refine Protocol.Triple.request stable_holds fun s x s' hinv hs hx => ?_
  obtain rfl : _ = s' := (Prod.mk.inj (Option.some.inj hx)).2
  refine ⟨fun j hj => respects_of_locks rfl fun b hb => ?_, hinv, fun b hb => ?_⟩
  · have hne : b ≠ a := by
      rintro rfl
      exact hj (Option.some.inj (hb.symm.trans (hs _ ha)))
    exact (Function.update_of_ne hne _ _).trans hb
  · exact (Function.update_of_ne (Finset.ne_of_mem_erase hb) _ _).trans (hs b (Finset.mem_of_mem_erase hb))

/-! ### Owners -/

/-- Read an owner with the region's lock in hand. -/
theorem triple_owner (hr : r.toNat < C.regionCount) (hlock : C.globals.regionLock r ∈ A) :
    (protocol C ι).Triple i (Holds i A) (readDramRegionOwner C.globals r) fun v s =>
      (v.toNat ≤ 3 ∧ (v ≠ nullEnclaveId → r ≠ 0)) ∧ Knows C i A r v s := by
  refine Protocol.Triple.request stable_holds fun s x s' hinv hs hx => ?_
  obtain ⟨rfl, rfl⟩ := Prod.mk.inj (Option.some.inj hx)
  refine ⟨fun j _ => (protocol C ι).refl j _, hinv, ⟨hinv.owners.le r hr, fun hne h0 => hne ?_⟩, hs, rfl⟩
  subst h0
  exact hinv.owners.zero

/-- Give a locked region another owner: either the lock of region `0` is in hand too, or the region is
the OS's neither before nor after. -/
theorem triple_setOwner {v' : Word} (hr : r.toNat < C.regionCount) (hr0 : r ≠ 0)
    (hlock : C.globals.regionLock r ∈ A) (hv' : v'.toNat ≤ 3)
    (hos : C.globals.regionLock 0 ∈ A ∨ v ≠ nullEnclaveId ∧ v' ≠ nullEnclaveId) :
    (protocol C ι).Triple i (Knows C i A r v) (store64 (C.globals.regionField .owner r) v') fun _ => Holds i A := by
  refine Protocol.Triple.request (stable_knows hr hlock) fun s x s' hinv hs hx => ?_
  obtain rfl : _ = s' := (Prod.mk.inj (Option.some.inj hx)).2
  have hread : ∀ a : Slot, a.Valid C → Slot.read C (s.machine.mem.store64 (C.globals.regionField .owner r) v') a =
      if a = .region .owner r then v' else Slot.read C s.machine.mem a :=
    fun a ha => Slot.read_store_region C ha hr
  have hother : ∀ j, j ≠ i → ∀ a ∈ A, s.holder a ≠ some j := fun j hj a ha h =>
    hj (Option.some.inj (h.symm.trans (hs.1 a ha)))
  refine ⟨fun j hj => ⟨fun _ h => h, fun r' hr' hlock' => ?_, fun hzero r' hr' => ?_⟩, ⟨?_, fun core hcore => ?_⟩, hs.1⟩
  · have hne : r' ≠ r := by
      rintro rfl
      exact hother j hj _ hlock hlock'
    exact (hread (.region .owner r') hr').trans (if_neg (by simp [hne]))
  · rw [hread (.region .owner r') hr']
    split
    · next heq =>
      rw [heq, hs.2]
      rcases hos with hos | ⟨hv, hv'⟩
      · exact absurd hzero (hother j hj _ hos)
      · exact iff_of_false hv hv'
    · exact Iff.rfl
  · exact hinv.owners.of_le hr0 hv' fun r' hr' => le_of_eq (congrArg _ (hread (.region .owner r') hr'))
  · rw [hread (.core .enclaveId core) hcore, if_neg (by simp)]
    exact hinv.callers core hcore

/-! ### The calls -/

/-- Thread `i` does its part when it runs `p`, begun with the locks in `A`. -/
abbrev Follows (C : Config) (i : ι) (A : Finset Word) (p : Monitor α) : Prop :=
  (protocol C ι).Triple i (Holds i A) p fun _ _ => True

theorem follows_pure (a : α) : Follows C i A (pure a : Monitor α) := .pure fun _ _ => trivial

/-- A check. -/
theorem follows_ite {c : Prop} [Decidable c] {p q : Monitor α} (hp : c → Follows C i A p)
    (hq : ¬ c → Follows C i A q) : Follows C i A (if c then p else q) := .ite hp hq

/-- First something quiet. -/
theorem follows_quiet {p : Monitor α} {f : α → Monitor β} (hp : p.Only (Quiet C)) (hf : ∀ a, Follows C i A (f a)) :
    Follows C i A (p >>= f) := (triple_quiet hp stable_holds).bind hf

theorem follows_resultOf {p : Monitor ApiResult} (hp : Follows C i A p) : Follows C i A (resultOf p) :=
  .bind (hp.post fun _ _ _ => trivial) fun _ => .pure fun _ _ => trivial

/-- Give back a lock and return. -/
theorem follows_unlock {a : Word} {e : ApiResult} (ha : a ∈ A) :
    Follows C i A (clear a >>= fun _ => pure e) := triple_unlock ha (follows_pure e)

/-- What comes after the owner of a locked region has been read. -/
theorem follows_owner {f : Word → Monitor α} (hr : r.toNat < C.regionCount) (hlock : C.globals.regionLock r ∈ A)
    (hf : ∀ v, v.toNat ≤ 3 → (v ≠ nullEnclaveId → r ≠ 0) →
      (protocol C ι).Triple i (Knows C i A r v) (f v) fun _ _ => True) :
    Follows C i A (readDramRegionOwner C.globals r >>= f) :=
  (triple_owner hr hlock).bind fun v => .of_fact fun h => hf v h.1 h.2

/-- Only the locks matter from here on. -/
theorem Follows.forget {p : Monitor α} (hp : Follows C i A p) :
    (protocol C ι).Triple i (Knows C i A r v) p fun _ _ => True := hp.pre fun _ h => h.1

theorem follows_freeDramRegion (r : Word) : Follows C i ∅ (freeDramRegion C.globals r) := by
  unfold freeDramRegion
  refine follows_ite (fun _ => follows_pure _) fun hvalid => ?_
  have hr : r.toNat < C.regionCount := C.isValidDramRegion_iff.mp (by simpa using hvalid)
  have hlock : C.globals.regionLock r ∈ insert (C.globals.regionLock r) (∅ : Finset Word) := by simp
  have hend : ∀ e, Follows C i (insert (C.globals.regionLock r) ∅)
      (clearDramRegionLock C.globals r >>= fun _ => pure e : Monitor ApiResult) := fun e => follows_unlock hlock
  -- the region becomes free, if it is somebody else's than the OS's
  have hfree : ∀ v, v ≠ nullEnclaveId → (v ≠ nullEnclaveId → r ≠ 0) →
      (protocol C ι).Triple i (Knows C i (insert (C.globals.regionLock r) ∅) r v) (do
        store64 (C.globals.regionField .owner r) freeEnclaveId
        clearDramRegionLock C.globals r
        return .ok : Monitor ApiResult) fun _ _ => True := fun v hv hr0 =>
    (triple_setOwner hr (hr0 hv) hlock (by decide) (.inr ⟨hv, by decide⟩)).bind fun _ => hend _
  have hcores : ∀ blockedAt, (someCoreNotFlushed C.globals blockedAt).Only (Quiet C) := fun _ =>
    .findUp fun _ _ _ => .bind (quiet_load64 _) fun _ => .pure _
  refine triple_lock (follows_pure _) fun _ => follows_owner hr hlock fun v hv hr0 => ?_
  have hstable : (protocol C ι).Stable i (Knows C i (insert (C.globals.regionLock r) ∅) r v) := stable_knows hr hlock
  refine .ite (fun hblocked => ?_) fun _ => .ite (fun hmetadata => ?_) fun _ => (hend _).forget
  · refine (triple_quiet (quiet_load64 _) hstable).bind fun _ => (triple_quiet (hcores _) hstable).bind fun _ => ?_
    exact .ite (fun _ => hfree v (by rw [hblocked]; decide) hr0) fun _ => (hend _).forget
  · refine (triple_quiet (quiet_load64 _) hstable).bind fun _ => ?_
    exact .ite (fun _ => hfree v (by rw [hmetadata]; decide) hr0) fun _ => (hend _).forget

theorem follows_createMetadataRegion (hfits : MonitorFits C) (r : Word) :
    Follows C i ∅ (createMetadataRegion C.globals r) := by
  unfold createMetadataRegion
  refine follows_ite (fun _ => follows_pure _) fun hvalid => ?_
  have hr : r.toNat < C.regionCount := C.isValidDramRegion_iff.mp (by simpa using hvalid)
  have hlock : C.globals.regionLock r ∈ insert (C.globals.regionLock r) (∅ : Finset Word) := by simp
  refine triple_lock (follows_pure _) fun _ => follows_owner hr hlock fun v hv hr0 => ?_
  refine .ite (fun _ => (follows_unlock hlock).forget) fun hfree => ?_
  have hv0 : v ≠ nullEnclaveId := by
    rintro rfl
    exact hfree (by decide)
  unfold initMetadataRegion
  rw [Prog.bind_assoc]
  refine (triple_setOwner hr (hr0 hv0) hlock (by decide) (.inr ⟨hv0, by decide⟩)).bind fun _ => ?_
  refine follows_quiet (.bind (quiet_store (a := .region .pinnedPages r) hr (by simp) (by simp)) fun _ =>
    quiet_bzero hfits hr (hr0 hv0)) fun _ => follows_unlock hlock

/-- Two locks given back. -/
theorem follows_unlock₂ {a b : Word} {e : ApiResult} (ha : a ∉ insert b (∅ : Finset Word)) :
    Follows C i (insert a (insert b ∅)) (clear a >>= fun _ => clear b >>= fun _ => pure e) := by
  have hab : b ≠ a := by
    rintro rfl
    simp at ha
  exact triple_unlock (by simp) (follows_unlock (by simp [hab]))

/-- Is a number an enclave ID? -/
theorem triple_isValidEnclaveId {P : SharedMachine ι → Prop} (hP : (protocol C ι).Stable i P) (id : EnclaveId) :
    (protocol C ι).Triple i P (isValidEnclaveId C.globals id) fun b s => (b = true ↔ id = nullEnclaveId) ∧ P s := by
  refine .bind (.request (Q := fun v s => (v = id ↔ id = nullEnclaveId) ∧ P s) hP fun s x s' hinv hs hx => ?_)
    fun v => .pure fun s hs => ⟨by rw [beq_iff_eq]; exact hs.1, hs.2⟩
  obtain ⟨rfl, rfl⟩ := Prod.mk.inj (Option.some.inj hx)
  refine ⟨fun j _ => (protocol C ι).refl j _, hinv, ?_, hs⟩
  rw [← hinv.owners.validEnclaveId_iff, Globals.validEnclaveId, beq_iff_eq]
  rfl

theorem dramRegionFor_null (C : Config) : dramRegionFor C.globals nullEnclaveId = 0 :=
  C.dramRegionFor_eq_zero (Nat.two_pow_pos _)

theorem follows_assignDramRegion (r newOwner : Word) : Follows C i ∅ (assignDramRegion C.globals r newOwner) := by
  unfold assignDramRegion
  refine follows_ite (fun _ => follows_pure _) fun hvalid => ?_
  have hr : r.toNat < C.regionCount := C.isValidDramRegion_iff.mp (by simpa using hvalid)
  have hlock : C.globals.regionLock r ∈ insert (C.globals.regionLock r) (∅ : Finset Word) := by simp
  refine triple_lock (follows_pure _) fun _ => follows_owner hr hlock fun v hv hr0 => ?_
  refine .ite (fun _ => (follows_unlock hlock).forget) fun hfree => ?_
  have hv0 : v ≠ nullEnclaveId := by
    rintro rfl
    exact hfree (by decide)
  refine triple_lock_knows hr hlock (follows_unlock hlock).forget fun hnew => ?_
  have hlock' := Finset.mem_insert_of_mem (b := C.globals.regionLock (dramRegionFor C.globals newOwner)) hlock
  refine (triple_isValidEnclaveId (stable_knows hr hlock') newOwner).bind fun valid => .of_fact fun hvalid => ?_
  refine .ite (fun htrue => ?_) fun _ => (follows_unlock₂ hnew).forget
  -- the new owner is the OS, and the lock that has been taken for it is that of region `0`
  obtain rfl := hvalid.mp htrue
  rw [dramRegionFor_null] at hnew ⊢
  unfold assignRegion
  rw [Prog.bind_assoc]
  refine (triple_setOwner hr (hr0 hv0) (by simp) (by decide) (.inl (by simp))).bind fun _ => ?_
  refine follows_quiet (.bind (quiet_osBitmap true hr) fun _ => ?_) fun _ => follows_unlock₂ hnew
  exact .ite (fun _ => quiet_setDrbMap _) fun _ => .pure _

/-- The caller of `block_dram_region`. -/
theorem triple_currentEnclave {P : SharedMachine ι → Prop} {core : Word} (hP : (protocol C ι).Stable i P)
    (hcore : core.toNat < C.coreCount.toNat) :
    (protocol C ι).Triple i P (currentEnclave C.globals core) fun id s => (id = nullEnclaveId ∨ 3 < id.toNat) ∧ P s := by
  refine .request hP fun s x s' hinv hs hx => ?_
  obtain ⟨rfl, rfl⟩ := Prod.mk.inj (Option.some.inj hx)
  exact ⟨fun j _ => (protocol C ι).refl j _, hinv, hinv.callers core hcore, hs⟩

theorem follows_blockDramRegion {core : Word} (r : Word) (hcore : core.toNat < C.coreCount.toNat) :
    Follows C i ∅ (blockDramRegion C.globals core r) := by
  unfold blockDramRegion
  refine follows_ite (fun _ => follows_pure _) fun hdynamic => ?_
  obtain ⟨hr0, hr⟩ := C.isDynamicDramRegion_iff.mp (by simpa using hdynamic)
  have hlock : C.globals.regionLock r ∈ insert (C.globals.regionLock r) (∅ : Finset Word) := by simp
  refine triple_lock (follows_pure _) fun _ => follows_owner hr hlock fun v hv _ => ?_
  refine (triple_currentEnclave (stable_knows hr hlock) hcore).bind fun caller => .of_fact fun hcaller => ?_
  refine .ite (fun _ => (follows_unlock hlock).forget) fun hsame => ?_
  -- the owner is special and the caller is not, so that both are the OS
  obtain rfl : v = nullEnclaveId := by
    have hvc : v = caller := by simpa using hsame
    rcases hcaller with hcaller | hcaller
    · exact hvc.trans hcaller
    · rw [hvc] at hv
      omega
  refine (triple_quiet (.ite (fun _ => .bind (quiet_load64 _) fun _ => .pure _) fun _ => .pure _)
    (stable_knows hr hlock)).bind fun _ => .ite (fun _ => (follows_unlock hlock).forget) fun _ => ?_
  dsimp only
  rw [dramRegionFor_null]
  refine triple_lock_knows hr hlock (follows_unlock hlock).forget fun hnew => ?_
  have hlock' := Finset.mem_insert_of_mem (b := C.globals.regionLock 0) hlock
  refine (triple_quiet (.ite (fun _ => .bind quiet_readDmaRange fun _ => .pure _) fun _ => .pure _)
    (stable_knows hr hlock')).bind fun _ => .ite (fun _ => (follows_unlock₂ hnew).forget) fun _ => ?_
  unfold blockRegion
  rw [Prog.bind_assoc]
  refine (triple_quiet (quiet_store (a := .region .previousOwner r) hr (by simp) (by simp))
    (stable_knows hr hlock')).bind fun _ => ?_
  rw [Prog.bind_assoc]
  refine (triple_setOwner hr hr0 hlock' (by decide) (.inl (by simp))).bind fun _ => ?_
  refine follows_quiet (.bind (quiet_clock _) fun _ => ?_) fun _ => follows_unlock₂ hnew
  refine .bind (quiet_store (a := .region .blockedAt r) hr (by simp) (by simp)) fun _ => ?_
  rw [if_pos rfl]
  exact .bind (quiet_osBitmap false hr) fun _ => quiet_setDrbMap _

/-- The loop ends with the locks it begins with. -/
theorem triple_setDmaRangeStripes (base rangeEnd : Word) :
    (protocol C ι).Triple i (Holds i A) (setDmaRangeStripes C.globals base rangeEnd) fun c s =>
      ∀ c', c = some c' → Holds i A s := by
  refine Protocol.Triple.whileSome (P := fun _ => Holds i A) (Q := fun _ => Holds i A) (fun b => ?_) _ _
  refine .ite (fun _ => ?_) fun _ => .pure fun _ h => h
  dsimp only
  rw [LockBalance.stripeRound_eq]
  refine .ite (fun _ => ?_) fun _ => ?_
  · exact (triple_quiet (quiet_load64 _) stable_holds).bind fun _ => .pure fun _ h => h
  · refine triple_lock (.pure fun _ h => h) fun hfree => ?_
    refine (triple_quiet (quiet_load64 _) stable_holds).bind fun _ => triple_unlock (Finset.mem_insert_self ..) ?_
    rw [Finset.erase_insert hfree]
    exact .pure fun _ h => h

theorem follows_setDmaRange (base mask : Word) : Follows C i ∅ (setDmaRange C.globals base mask) := by
  unfold setDmaRange
  refine follows_ite (fun _ => follows_pure _) fun _ => follows_ite (fun _ => follows_pure _) fun _ => ?_
  refine triple_lock (follows_pure _) fun _ => (triple_setDmaRangeStripes base _).bind fun result => ?_
  have hlock : C.globals.regionLock 0 ∈ insert (C.globals.regionLock 0) (∅ : Finset Word) := by simp
  match result with
  | none => exact fun s _ t _ _ x => nomatch x
  | some none => exact (follows_unlock hlock).pre fun s h => h _ rfl
  | some (some _) =>
    exact (follows_quiet (quiet_writeDmaRange _ _) fun _ => follows_unlock hlock).pre fun s h => h _ rfl

theorem follows_deleteEnclave (id : EnclaveId) : Follows C i ∅ (deleteEnclave C.globals id) := by
  have hlock : C.globals.regionLock (clampedDramRegionFor C.globals id) ∈
    insert (C.globals.regionLock (clampedDramRegionFor C.globals id)) (∅ : Finset Word) := by simp
  refine triple_lock (follows_pure _) fun _ => ?_
  generalize insert (C.globals.regionLock (clampedDramRegionFor C.globals id)) (∅ : Finset Word) = A at hlock ⊢
  -- no ID is valid but that of the OS, and that is refused
  refine Protocol.Triple.bind (Q := fun refused s => refused = true ∧ Holds i A s) ?_ fun refused =>
    .of_fact fun hrefused => ?_
  · refine .ite (fun _ => .pure fun s hs => ⟨rfl, hs⟩) fun hid => ?_
    refine (triple_isValidEnclaveId stable_holds id).bind fun valid => .pure fun s hs => ⟨?_, hs.2⟩
    cases valid with
    | true => exact absurd (hs.1.mp rfl) hid
    | false => rfl
  · rw [if_pos hrefused]
    exact follows_unlock hlock

/-! ### Calls side by side -/

section Pools

/-- The code of a call that changes who owns what, or of `set_dma_range` or `delete_enclave`, on a core
that there is. -/
def Racing (C : Config) (p : Monitor Word) : Prop :=
  ∃ c, SpecialOwners.regionCall c = true ∧ (∀ core r, c = .blockDramRegion core r → core.toNat < C.coreCount.toNat) ∧
    p = c.code C.globals

/-- Every racing call does its part. -/
theorem follows_racing (hfits : MonitorFits C) {p : Monitor Word} (hp : Racing C p) :
    (protocol C ι).Triple i (fun _ => True) p fun _ _ => True := by
  obtain ⟨c, hc, hcore, rfl⟩ := hp
  suffices hholds : (protocol C ι).Triple i (Holds i ∅) (c.code C.globals) fun _ _ => True from
    hholds.pre fun _ _ => nofun
  cases c with
  | setDmaRange base mask => exact follows_resultOf (follows_setDmaRange base mask)
  | assignDramRegion r newOwner => exact follows_resultOf (follows_assignDramRegion r newOwner)
  | freeDramRegion r => exact follows_resultOf (follows_freeDramRegion r)
  | createMetadataRegion r => exact follows_resultOf (follows_createMetadataRegion hfits r)
  | deleteEnclave id => exact follows_resultOf (follows_deleteEnclave id)
  | blockDramRegion core r => exact follows_resultOf (follows_blockDramRegion r (hcore core r rfl))
  | _ => exact absurd hc Bool.false_ne_true

/-- A machine on which no call is under way. Some locks may be held all the same, by calls that did
not give them back. -/
def idle (s : Machine) (holder : Word → Option ι) : Pool hardware ι Word (SharedMachine ι) :=
  ⟨fun _ => .done 0, ⟨s, holder⟩⟩

variable (C) in
/-- While a thread holds the lock of region `0`, no other makes a region the OS's or takes one from
it. -/
def Frozen (tr : List (Step (Pool hardware ι Word (SharedMachine ι)) ι)) : Prop :=
  ∀ st ∈ tr, ∀ i, i ≠ st.label → st.pre.state.holder (C.globals.regionLock 0) = some i →
    SameOsRegions C st.pre.state.machine.mem st.post.state.machine.mem

/-- Turns of threads that begin calls, or go on. -/
def turnsOf (C : Config) (cs : List (ι × Option Call)) : List (ι × Option (Monitor Word)) :=
  cs.map fun t => (t.1, t.2.map (Call.code C.globals))

theorem racing_turnsOf {cs : List (ι × Option Call)}
    (h : ∀ i c, (i, some c) ∈ cs → SpecialOwners.regionCall c = true ∧
      ∀ core r, c = .blockDramRegion core r → core.toNat < C.coreCount.toNat) :
    ∀ t ∈ turnsOf C cs, ∀ p, t.2 = some p → Racing C p := by
  intro t ht p hp
  obtain ⟨⟨i, c⟩, hc, rfl⟩ := List.mem_map.mp ht
  obtain ⟨c, rfl, rfl⟩ := Option.map_eq_some_iff.mp hp
  exact ⟨c, (h i c hc).1, (h i c hc).2, rfl⟩

variable [DecidableEq ι]

/-- **The lock of region 0 freezes the OS's regions.** In every state reached after boot by any
calls, one after the other, that store over no owner, and as long as no core runs under a special
ID: however calls on regions that run side by side are interleaved, while one of them holds the
lock of region `0` no other changes which regions are the OS's. -/
theorem run_frozen {s₀ s : Machine} {calls : List (Step Machine Event)} {holder : Word → Option ι}
    {P : Pool hardware ι Word (SharedMachine ι)} {tr : List (Step (Pool hardware ι Word (SharedMachine ι)) ι)}
    (hfits : MonitorFits C) (hboot : AfterBoot C s₀) (hcalls : Run (step C.globals) s₀ calls s)
    (hspares : ∀ st ∈ calls, LiveEnclaves.SparesOwners C st) (hcallers : NoSpecialCaller C s.mem)
    (hrun : Run (PoolStep sharedExec (Racing C)) (idle s holder) tr P) : Frozen C tr := by
  have hsettled : Settled C s.mem := ⟨LiveEnclaves.run_specialOwners hfits hboot hcalls hspares, hcallers⟩
  have hpool : Protocol.PoolInv (protocol C ι) (idle s holder) := ⟨hsettled, fun _ => trivial⟩
  obtain ⟨-, hguar⟩ := Protocol.run_guarantee hrun (fun _ _ hp => follows_racing hfits hp) hpool
  exact fun st hst j hj hlock => (hguar st hst j hj).osRegions hlock

/-! ### Two schedules -/

/-- One thread begins to set the DMA range. Another one frees region `1`. -/
def freeingCalls : List (Bool × Option Call) :=
  [(false, some (Call.setDmaRange 0 0xfff)), (false, none), (true, some (.freeDramRegion 1))] ++
    List.replicate 5 (true, none)

/-- The one holds the lock of region `0`, and region `1` has become free. -/
def freed (P : Pool hardware Bool Word (SharedMachine Bool)) : Bool :=
  P.state.holder (twoRegions.globals.regionLock 0) = some false &&
    Slot.read twoRegions P.state.machine.mem (.region .owner 1) == freeEnclaveId

/-- Region `1` is freed while another thread sets the DMA range. It was not the OS's. -/
theorem frozen_freeing : ∃ tr P, Run (PoolStep sharedExec (Racing twoRegions))
      (idle (afterAll twoRegions.globals (freshMachine twoRegions) [.blockDramRegion 0 1]) fun _ => none) tr P ∧
    freed P = true ∧ Frozen twoRegions tr := by
  have hturns : ((idle (afterAll twoRegions.globals (freshMachine twoRegions) [.blockDramRegion 0 1])
      fun _ => none).turns sharedExec (turnsOf twoRegions freeingCalls)).any freed = true := by decide +kernel
  obtain ⟨P, hP, hfreed⟩ := (Option.any_eq_true _ _).mp hturns
  obtain ⟨tr, htr⟩ := Pool.run_turns hP (racing_turnsOf fun i c hc => by
    simp only [freeingCalls, List.replicate, List.cons_append, List.nil_append, List.mem_cons, Prod.mk.injEq,
      Option.some.injEq, reduceCtorEq, List.not_mem_nil, and_false, or_false, false_or] at hc
    rcases hc with ⟨-, rfl⟩ | ⟨-, rfl⟩ <;> exact ⟨rfl, nofun⟩)
  refine ⟨tr, P, htr, hfreed, run_frozen (by decide) (afterBoot_freshMachine _) (run_script _ (by decide +kernel))
    (fun st hst => ?_) (fun core hcore => .inl ?_) htr⟩
  · simp only [script, List.mem_cons, List.not_mem_nil, or_false] at hst
    subst hst
    exact fun _ _ _ _ _ => id
  · obtain rfl : core = 0 := BitVec.eq_of_toNat_eq (Nat.lt_one_iff.mp hcore)
    decide +kernel

/-- 64 regions and two cores. -/
def twoCores : Config := { sixtyFourRegions with coreCount := 2, arrays_fit := by decide }

/-- The second core gives up two regions, and the first flushes its TLBs in between. -/
def flushedCalls : List Call := [.blockDramRegion 1 6, .flushCachedDramRegions 0, .blockDramRegion 1 31]

/-- A thread begins to free region `6`. Another one, on the first core, blocks region `31`, which is
blocked already, and then begins to set the DMA range. -/
def racingCalls : List (Bool × Option Call) :=
  (true, some (Call.freeDramRegion 6)) :: List.replicate 5 (true, none) ++
    (false, some (Call.blockDramRegion 0 31)) :: List.replicate 16 (false, none) ++
    [(false, some (Call.setDmaRange 0 0xfff)), (false, none)]

/-- The second thread holds the lock of region `0`. The first one goes on, and the OS does not have
region `6` any more. -/
def takes (P : Pool hardware Bool Word (SharedMachine Bool)) : Bool :=
  P.state.holder (twoCores.globals.regionLock 0) = some false &&
    Slot.read twoCores P.state.machine.mem (.region .owner 6) == nullEnclaveId &&
      (P.turn sharedExec (true, none)).any fun P' =>
        Slot.read twoCores P'.state.machine.mem (.region .owner 6) != nullEnclaveId

/-- A region is taken from the OS by a thread that does not hold the lock of region `0`. -/
theorem not_frozen : ∃ (C : Config) (s₀ s : Machine) (calls : List (Step Machine Event)) (holder : Word → Option Bool)
    (P : Pool hardware Bool Word (SharedMachine Bool))
    (tr : List (Step (Pool hardware Bool Word (SharedMachine Bool)) Bool)),
    MonitorFits C ∧ AfterBoot C s₀ ∧ Run (step C.globals) s₀ calls s ∧
      Run (PoolStep sharedExec (Racing C)) (idle s holder) tr P ∧ ¬ Frozen C tr := by
  have hturns : ((idle (afterAll twoCores.globals (freshMachine twoCores) flushedCalls)
      fun _ => none).turns sharedExec (turnsOf twoCores racingCalls)).any takes = true := by decide +kernel
  obtain ⟨P, hP, htakes⟩ := (Option.any_eq_true _ _).mp hturns
  simp only [takes, Bool.and_eq_true, decide_eq_true_eq, beq_iff_eq] at htakes
  obtain ⟨⟨hlock, hnull⟩, hnext⟩ := htakes
  obtain ⟨P', hP', hother⟩ := (Option.any_eq_true _ _).mp hnext
  obtain ⟨tr, htr⟩ := Pool.run_turns hP (racing_turnsOf fun i c hc => by
    simp only [racingCalls, List.replicate, List.cons_append, List.nil_append, List.mem_cons, Prod.mk.injEq,
      Option.some.injEq, reduceCtorEq, List.not_mem_nil, and_false, or_false, false_or] at hc
    rcases hc with ⟨-, rfl⟩ | ⟨-, rfl⟩ | ⟨-, rfl⟩
    · exact ⟨rfl, nofun⟩
    · exact ⟨rfl, fun core r h => by rw [← (Call.blockDramRegion.inj h).1]; decide⟩
    · exact ⟨rfl, nofun⟩)
  refine ⟨twoCores, freshMachine twoCores, _, script _ _ flushedCalls, fun _ => none, P', tr ++ [⟨P, true, P'⟩],
    by decide, afterBoot_freshMachine _, run_script _ (by decide +kernel),
    .snoc htr (Pool.step_turn hP' (by simp)), fun hfrozen => ?_⟩
  have hsame := hfrozen ⟨P, true, P'⟩ (by simp) false (by simp) hlock 6 (by decide)
  exact absurd (hsame.mp hnull) (by simpa using hother)

end Pools

end OsRegions

end Sanctum
