import Sanctum.Monitor.LockBalance

/-!
# The locks of the metadata calls

`lock_metadata_region_for` is to tell its caller which region it has locked, but the
variable it writes the region to is a parameter passed by value. So `create_enclave`,
`assign_thread`, `load_thread` and `lock_enclave` clear the lock of a region that they
have never set; and `accept_thread` takes the lock of the region with the number
`thread_info_addr`, and clears that of the region of this address.

What is proved is when the right lock is cleared nevertheless (`metadata_calls_even`): when
the variable happens to have the right value. Besides, `create_enclave` and `accept_thread`
clear the lock of the structure that they initialize, which others may hold.

The locks are those of `Sanctum.Arch.LockObjects`, known by the addresses of their
flags. Where the flag of an enclave's lock and that of a region's are the same, one lock
may be released in place of the other, and the calls may come out even with the wrong
region. The conditions say when.
-/

namespace Sanctum

namespace MetadataLocks

variable (g : Globals)

/-! ### What the calls check -/

/-- The lock of the region of an address. -/
def lockOf (a : Word) : Word := g.regionLock (dramRegionFor g a)

/-- `lock_metadata_region_for` succeeds if the locks `held` are held. -/
structure LocksRegion (m : Machine) (held : Word → Bool) (a : Word) : Prop where
  /-- `is_page_aligned`. -/
  aligned : isPageAligned a = true
  /-- `is_dram_address`. -/
  inDram : isDramAddress g a = true
  /-- The lock of its region is free. -/
  free : held (lockOf g a) = false
  /-- Its region is a metadata region. -/
  metadata : g.region m .owner (dramRegionFor g a) = metadataEnclaveId

/-- The entry of a page says that an enclave starts there. -/
def EnclaveEntry (m : Machine) (id : EnclaveId) : Prop :=
  m.mem.load64 (metadataPageInfoFor g id) = metadataPageInfo id enclaveMetadataPageType

/-- A call has acquired one lock, clears that of a structure it initializes if it is a `success`,
and clears one lock in the end. -/
def ClearsRight (others : Word → Bool) (success : Prop) (acquired initialized cleared : Word) : Prop :=
  cleared = acquired ∧ (success → others initialized = false)

/-- `lock_enclave` finds the enclave's lock free, once it has the lock of its region. -/
structure FindsEnclave (m : Machine) (others : Word → Bool) (id : EnclaveId) : Prop
    extends LocksRegion g m others id where
  /-- There is an enclave. -/
  entry : EnclaveEntry g m id
  /-- Its lock is free. -/
  enclaveFree : others (enclaveLock id) = false
  /-- It is not the lock of its region. -/
  enclaveLock_ne : enclaveLock id ≠ lockOf g id

/-- What `assign_thread` and `load_thread` need to come out even: what they have not set are the
regions of the enclave and of the thread; or else each time they clear the lock of a region
they clear one that they hold for another reason. -/
def ThreadRegions (m : Machine) (others : Word → Bool) (lockUnset unset : Word) (id : EnclaveId)
    (threadId : Word) : Prop :=
  LocksRegion g m others id →
    (g.regionLock lockUnset = lockOf g id ∧
      (FindsEnclave g m others id → LocksRegion g m (fun a => others a || a == enclaveLock id) threadId →
        g.regionLock unset = lockOf g threadId)) ∨
    (FindsEnclave g m others id ∧ LocksRegion g m (fun a => others a || a == lockOf g id) threadId ∧
      g.regionLock lockUnset = enclaveLock id ∧ lockOf g threadId = enclaveLock id ∧ g.regionLock unset = lockOf g id)

/-- `accept_thread` gets as far as initializing the thread. -/
structure Accepts (m : Machine) (others : Word → Bool) (core threadId threadInfoAddr : Word) : Prop where
  /-- The caller owns the region of `threadInfoAddr`. -/
  owned : g.region m .owner (dramRegionFor g threadInfoAddr) = g.coreInfo m .enclaveId core
  /-- The lock of the caller's region is free. -/
  free : others (lockOf g (g.coreInfo m .enclaveId core)) = false
  /-- It is not the lock acquired first. -/
  ne : lockOf g (g.coreInfo m .enclaveId core) ≠ g.regionLock threadInfoAddr
  /-- The pages can be accepted. -/
  pages : PagesPass g m threadId threadMetadataPages

/-- What `create_enclave` needs to come out even. -/
def CreateRegion (m : Machine) (others : Word → Bool) (unset : Word) (id : EnclaveId)
    (evBase evMask mailboxCount : Word) :
    Prop :=
  isValidRange evBase evMask = true → ¬ evMask + 1 < pageSize → LocksRegion g m others id →
    ClearsRight others
      (g.region m .owner unset = metadataEnclaveId ∧ PagesPass g m id (enclaveInfoPages g mailboxCount))
      (lockOf g id) (enclaveLock id) (g.regionLock unset)

/-- What `accept_thread` needs to come out even. -/
def AcceptRegion (m : Machine) (others : Word → Bool) (core threadId threadInfoAddr : Word) : Prop :=
  isDramAddress g threadInfoAddr = true → isPageAligned threadInfoAddr = true →
    others (g.regionLock threadInfoAddr) = false →
      ClearsRight others (Accepts g m others core threadId threadInfoAddr) (g.regionLock threadInfoAddr)
        (threadLock threadId) (lockOf g threadInfoAddr)

variable {g} {α β : Type} {s : LockedMachine} {i : Word → Prop}

/-! ### `lock_metadata_region_for` -/

/-- First something plain whose outcome is known. -/
theorem look_iff {p : Monitor α} {f : α → Monitor β} {a : α} {m : Machine} {Q : β → LockedMachine → Prop}
    (hp : Plain p)
    (hrun : p.run (exec .code) s.machine = some (a, m)) :
    Ends (ReleasesOwn i) (p >>= f) s Q ↔ Ends (ReleasesOwn i) (f a) (s.on m) Q :=
  Ends.plain_iff (hp.mono fun _ ho => ⟨ho, fun _ => releasesOwn_of_plain ho⟩) hrun

/-- First something that only reads. -/
theorem read_iff {p : Monitor α} {f : α → Monitor β} {a : α} {Q : β → LockedMachine → Prop} (hp : Plain p)
    (hrun : p.run (exec .code) s.machine = some (a, s.machine)) :
    Ends (ReleasesOwn i) (p >>= f) s Q ↔ Ends (ReleasesOwn i) (f a) s Q := look_iff hp hrun

theorem lock_iff_of_free {f : Bool → Monitor α} {a : Word} {Q : α → LockedMachine → Prop} (h : s.held a = false) :
    Ends (ReleasesOwn i) (testAndSet a >>= f) s Q ↔ Ends (ReleasesOwn i) (f false) (s.acquire a h) Q :=
  (Ends.lock_iff_of_free h).trans (and_iff_right trivial)

theorem lock_iff_of_held {f : Bool → Monitor α} {a : Word} {Q : α → LockedMachine → Prop} (h : s.held a = true) :
    Ends (ReleasesOwn i) (testAndSet a >>= f) s Q ↔ Ends (ReleasesOwn i) (f true) s Q :=
  (Ends.lock_iff_of_held h).trans (and_iff_right trivial)

/-- First clear the lock acquired last. -/
theorem clear_acquired_iff {f : Unit → Monitor α} {a : Word} {Q : α → LockedMachine → Prop} {h : s.held a = false} :
    Ends (ReleasesOwn i) (clear a >>= f) (s.acquire a h) Q ↔ Ends (ReleasesOwn i) (f ()) s Q := by
  refine Ends.clear_iff.trans ((and_iff_right (.inl (Finset.mem_insert_self a s.mine))).trans ?_)
  exact iff_of_eq (congrArg (Ends (ReleasesOwn i) (f ()) · Q) (LockedMachine.release_acquire h))

/-- First clear the lock of a structure that is initialized. -/
theorem clear_initialized_iff {f : Unit → Monitor α} {a : Word} {Q : α → LockedMachine → Prop} (ha : i a) :
    Ends (ReleasesOwn i) (clear a >>= f) s Q ↔ s.others a = false ∧ Ends (ReleasesOwn i) (f ()) (s.release a) Q := by
  refine Ends.clear_iff.trans (and_congr ⟨fun h => ?_, fun h => .inr ⟨ha, h⟩⟩ Iff.rfl)
  exact h.sparesOthers

/-- `lock_metadata_region_for` acquires the lock. -/
theorem lockMetadataRegionFor_iff {f : ApiResult → Monitor α} {a : Word} {Q : α → LockedMachine → Prop}
    (h : LocksRegion g s.machine s.held a) :
    Ends (ReleasesOwn i) (lockMetadataRegionFor g a >>= f) s Q ↔
      Ends (ReleasesOwn i) (f .ok) (s.acquire (lockOf g a) h.free) Q := by
  have howner : s.machine.mem.load64 (g.regionField .owner (dramRegionFor g a)) = metadataEnclaveId := h.metadata
  unfold lockMetadataRegionFor
  simp only [Prog.ite_bind, Prog.bind_assoc, Prog.pure_bind]
  rw [if_neg (by simp [h.aligned, h.inDram])]
  refine (lock_iff_of_free h.free).trans ?_
  rw [if_neg (by simp), read_iff (plain_load64 _) rfl, if_neg (by simp [howner])]

/-- `lock_metadata_region_for` fails. -/
theorem lockMetadataRegionFor_iff_of_not {f : ApiResult → Monitor α} {a : Word} {Q : α → LockedMachine → Prop}
    (h : ¬ LocksRegion g s.machine s.held a) :
    ∃ e, e ≠ .ok ∧ (Ends (ReleasesOwn i) (lockMetadataRegionFor g a >>= f) s Q ↔ Ends (ReleasesOwn i) (f e) s Q) := by
  unfold lockMetadataRegionFor
  simp only [Prog.ite_bind, Prog.bind_assoc, Prog.pure_bind]
  by_cases hcheck : (!isPageAligned a || !isDramAddress g a) = true
  · exact ⟨.invalidValue, by decide, by rw [if_pos hcheck]⟩
  rw [if_neg hcheck]
  cases hheld : s.held (lockOf g a) with
  | true => exact ⟨.concurrentCall, by decide, lock_iff_of_held hheld⟩
  | false =>
    have howner : s.machine.mem.load64 (g.regionField .owner (dramRegionFor g a)) ≠ metadataEnclaveId := fun howner =>
      h ⟨by simp at hcheck; exact hcheck.1, by simp at hcheck; exact hcheck.2, hheld, howner⟩
    refine ⟨.invalidState, by decide, (lock_iff_of_free hheld).trans ?_⟩
    rw [if_neg (by simp), read_iff (plain_load64 _) rfl, if_pos (by simpa using howner)]
    exact clear_acquired_iff

/-! ### What is in hand in the end -/

/-- Nothing is in hand in the end, and only what is in order has been cleared. -/
abbrev EndsEmpty (i : Word → Prop) (p : Monitor ApiResult) (s : LockedMachine) : Prop :=
  Ends (ReleasesOwn i) p s fun _ t => t.mine = ∅

theorem endsEmpty_pure_iff {e : ApiResult} : EndsEmpty i (pure e) s ↔ s.mine = ∅ := Ends.pure_iff

/-- A lock is cleared in the end. -/
theorem endsEmpty_clear_iff {a : Word} {e : ApiResult} :
    EndsEmpty i (clear a >>= fun _ => pure e) s ↔ (a ∈ s.mine ∨ i a ∧ s.others a = false) ∧ s.mine.erase a = ∅ :=
  Ends.clear_iff.trans (and_congr Iff.rfl Ends.pure_iff)

/-! ### `create_enclave` -/

theorem plain_assignMetadataPages (a pageCount owner type freeInfo : Word) :
    Plain (assignMetadataPages g a pageCount owner type freeInfo) := by
  refine .ite (fun _ => .pure _) fun _ => .bind (.findUp fun _ _ _ => .bind (plain_load64 _) fun _ => .pure _) fun _ => ?_
  exact .ite (fun _ => .pure _) fun _ => .bind (plain_store64 _ _) fun _ =>
    .bind (.forUp fun _ _ _ => plain_store64 _ _) fun _ => .pure _

/-- `init_enclave_info` clears the enclave's lock, and then stores. -/
theorem initEnclaveInfo_eq (e evBase evMask mailboxCount : Word) (debug : Bool) : ∃ rest : Monitor Unit,
    Plain rest ∧ (∀ m, rest.run (exec .code) m = some ((), initInfoState m e evBase evMask mailboxCount debug)) ∧
      initEnclaveInfo e evBase evMask mailboxCount debug = clear (enclaveLock e) >>= fun _ => rest := by
  refine ⟨_, ?_, fun _ => rfl, rfl⟩
  refine .bind (plain_store64 _ _) fun _ => .bind (plain_store64 _ _) fun _ => .bind (plain_store64 _ _) fun _ =>
    .bind (plain_store64 _ _) fun _ => .bind (plain_store64 _ _) fun _ => .bind (plain_store64 _ _) fun _ =>
    .bind (plain_store64 _ _) fun _ => .bind (plain_store64 _ _) fun _ => .bind (plain_store64 _ _) fun _ => ?_
  exact .bind (plain_bzero _ _) fun _ => .bind (.request rfl) fun _ => .bind (plain_store64 _ _) fun _ =>
    .bind (plain_store64 _ _) fun _ => .bind (plain_store64 _ _) fun _ => .bind (plain_store64 _ _) fun _ =>
    .bind (plain_store64 _ _) fun _ => .bind (.request rfl) fun _ => .bind (plain_store64 _ _) fun _ =>
    .bind (plain_store64 _ _) fun _ => .bind (plain_store64 _ _) fun _ => plain_store64 _ _

/-- `init_enclave_info` needs the lock to be free. -/
theorem initEnclaveInfo_iff {f : Unit → Monitor α} {e evBase evMask mailboxCount : Word} {debug : Bool}
    {Q : α → LockedMachine → Prop} :
    Ends (ReleasesOwn (· = enclaveLock e)) (initEnclaveInfo e evBase evMask mailboxCount debug >>= f) s Q ↔
      s.others (enclaveLock e) = false ∧ Ends (ReleasesOwn (· = enclaveLock e)) (f ())
        ((s.release (enclaveLock e)).on (initInfoState s.machine e evBase evMask mailboxCount debug)) Q := by
  obtain ⟨rest, hrest, hrun, heq⟩ := initEnclaveInfo_eq e evBase evMask mailboxCount debug
  rw [heq, Prog.bind_assoc]
  exact (clear_initialized_iff (i := (· = enclaveLock e)) rfl).trans (and_congr Iff.rfl (look_iff hrest (hrun _)))

/-- One lock has been acquired, and one is cleared in the end. -/
theorem endsEmpty_end_iff {m : Machine} {others : Word → Bool} {a b : Word} {e : ApiResult}
    {h : (entered m others).held a = false} :
    EndsEmpty i (clear b >>= fun _ => pure e) ((entered m others).acquire a h) ↔ b = a := by
  have hmine : ((entered m others).acquire a h).mine = {a} := rfl
  rw [endsEmpty_clear_iff, hmine, Finset.erase_eq_empty_iff, Finset.singleton_inj,
    or_iff_right (Finset.singleton_ne_empty a), Finset.mem_singleton]
  exact ⟨fun hend => hend.2.symm, fun hab => ⟨.inl hab, hab.symm⟩⟩

/-- One lock has been acquired, one is initialized, and one is cleared in the end. -/
theorem initialized_cleared_iff {others : Word → Bool} {a j b : Word} :
    (others j = false ∧ (b ∈ ({a} : Finset Word).erase j ∨ b = j ∧ Function.update others j false b = false) ∧
        (({a} : Finset Word).erase j).erase b = ∅) ↔ b = a ∧ others j = false := by
  constructor
  · rintro ⟨hj, hb, hempty⟩
    refine ⟨?_, hj⟩
    have ha := Finset.eq_empty_iff_forall_notMem.mp hempty a
    simp only [Finset.mem_erase, Finset.mem_singleton] at ha hb
    rcases hb with hb | hb
    · exact hb.2
    · by_contra hne
      exact ha ⟨fun h => hne h.symm, fun h => hne (hb.1.trans h.symm), trivial⟩
  · rintro ⟨rfl, hj⟩
    refine ⟨hj, ?_, ?_⟩
    · by_cases hbj : b = j
      · subst hbj
        exact .inr ⟨rfl, Function.update_self ..⟩
      · exact .inl (Finset.mem_erase.mpr ⟨hbj, Finset.mem_singleton_self b⟩)
    · rw [Finset.erase_right_comm, Finset.erase_singleton, Finset.erase_empty]

/-- **`create_enclave`** comes out even with the right region only. -/
theorem endsEmpty_createEnclave_iff {m : Machine} {others : Word → Bool} {unset : Word} {id : EnclaveId}
    {evBase evMask mailboxCount : Word} {debug : Bool} :
    EndsEmpty (· = enclaveLock id) (createEnclave g unset id evBase evMask mailboxCount debug) (entered m others) ↔
      CreateRegion g m others unset id evBase evMask mailboxCount := by
  unfold createEnclave CreateRegion
  by_cases hrange : isValidRange evBase evMask = true
  swap
  · rw [if_pos (by simpa using hrange), endsEmpty_pure_iff]
    exact iff_of_true rfl fun h => absurd h hrange
  rw [if_neg (by simpa using hrange)]
  by_cases hpage : evMask + 1 < pageSize
  · rw [if_pos hpage, endsEmpty_pure_iff]
    exact iff_of_true rfl fun _ h => absurd hpage h
  rw [if_neg hpage]
  by_cases hlock : LocksRegion g m others id
  swap
  · obtain ⟨e, he, hiff⟩ := lockMetadataRegionFor_iff_of_not (g := g) (s := entered m others) (a := id)
      (by rw [held_entered]; exact hlock)
    rw [EndsEmpty, hiff, if_pos he]
    exact iff_of_true (endsEmpty_pure_iff.mpr rfl) fun _ _ h => absurd h hlock
  simp only [hrange, hpage, hlock, not_false_eq_true, forall_true_left, ClearsRight]
  refine (lockMetadataRegionFor_iff (by rw [held_entered]; exact hlock)).trans ?_
  refine (Ends.if_neg_iff (by simp)).trans ((read_iff (plain_load64 _) rfl).trans ?_)
  by_cases howner : g.region m .owner unset = metadataEnclaveId
  swap
  · refine (Ends.if_pos_iff (bne_iff_ne.mpr howner)).trans (endsEmpty_end_iff.trans ?_)
    simp [howner]
  refine (Ends.if_neg_iff fun h => bne_iff_ne.mp h howner).trans ?_
  have hspec := assignMetadataPages_spec g m id (enclaveInfoPages g mailboxCount) id enclaveMetadataPageType
    emptyMetadataPageType
  by_cases hpages : PagesPass g m id (enclaveInfoPages g mailboxCount)
  · refine (look_iff (plain_assignMetadataPages _ _ _ _ _) (hspec.1 hpages)).trans ?_
    refine (Ends.if_neg_iff (by simp)).trans (initEnclaveInfo_iff.trans ?_)
    simp only [howner, hpages, and_self, true_implies]
    exact (and_congr Iff.rfl endsEmpty_clear_iff).trans initialized_cleared_iff
  · obtain ⟨e, he, hrun⟩ := hspec.2 hpages
    refine (read_iff (plain_assignMetadataPages _ _ _ _ _) hrun).trans ((Ends.if_pos_iff he).trans ?_)
    refine endsEmpty_end_iff.trans ?_
    simp [hpages]

/-! ### `accept_thread` -/

/-- Two locks have been acquired, one is initialized, and both are to be cleared. -/
theorem initialized_cleared_two_iff {others : Word → Bool} {a e j b : Word} (he : others e = false)
    (hea : e ∉ ({a} : Finset Word)) :
    (others j = false ∧
      (e ∈ (insert e ({a} : Finset Word)).erase j ∨ e = j ∧ Function.update others j false e = false) ∧
        (b ∈ ((insert e ({a} : Finset Word)).erase j).erase e ∨
          b = j ∧ Function.update (Function.update others j false) e false b = false) ∧
        (((insert e ({a} : Finset Word)).erase j).erase e).erase b = ∅) ↔ b = a ∧ others j = false := by
  have hupdate : Function.update others j false e = false := by
    by_cases hej : e = j
    · rw [hej, Function.update_self]
    · rwa [Function.update_of_ne hej]
  have hsame : Function.update (Function.update others j false) e false = Function.update others j false := by
    have h := Function.update_eq_self e (Function.update others j false)
    rwa [hupdate] at h
  have hown : e ∈ (insert e ({a} : Finset Word)).erase j ∨ e = j ∧ Function.update others j false e = false := by
    by_cases hej : e = j
    · exact .inr ⟨hej, hupdate⟩
    · exact .inl (Finset.mem_erase.mpr ⟨hej, Finset.mem_insert_self e _⟩)
  have hmine : ((insert e ({a} : Finset Word)).erase j).erase e = ({a} : Finset Word).erase j := by
    rw [Finset.erase_right_comm, Finset.erase_insert hea]
  rw [hsame, hmine, and_iff_right hown]
  exact initialized_cleared_iff

/-- **`accept_thread`** comes out even with the right region only. -/
theorem endsEmpty_acceptThread_iff {m : Machine} {others : Word → Bool} {core threadId threadInfoAddr : Word} :
    EndsEmpty (· = threadLock threadId) (acceptThread g core threadId threadInfoAddr) (entered m others) ↔
      AcceptRegion g m others core threadId threadInfoAddr := by
  unfold acceptThread AcceptRegion
  by_cases hcheck : isDramAddress g threadInfoAddr = true ∧ isPageAligned threadInfoAddr = true
  swap
  · refine (Ends.if_pos_iff ?_).trans (iff_of_true (endsEmpty_pure_iff.mpr rfl) fun h1 h2 => absurd ⟨h1, h2⟩ hcheck)
    simpa [imp_iff_not_or] using hcheck
  refine (Ends.if_neg_iff (by simp [hcheck])).trans ((read_iff (plain_load64 _) rfl).trans ?_)
  simp only [hcheck.1, hcheck.2, forall_true_left]
  cases hfree : others (g.regionLock threadInfoAddr) with
  | true =>
    refine (lock_iff_of_held (by rw [held_entered]; exact hfree)).trans ?_
    exact iff_of_true (endsEmpty_pure_iff.mpr rfl) nofun
  | false =>
    refine (lock_iff_of_free (by rw [held_entered]; exact hfree)).trans ?_
    refine (Ends.if_neg_iff (by simp)).trans ((read_iff (plain_load64 _) rfl).trans ?_)
    simp only [forall_true_left, ClearsRight]
    by_cases howned : g.region m .owner (dramRegionFor g threadInfoAddr) = g.coreInfo m .enclaveId core
    swap
    · refine (Ends.if_pos_iff (bne_iff_ne.mpr howned)).trans (endsEmpty_end_iff.trans ?_)
      have hnot : ¬ Accepts g m others core threadId threadInfoAddr := fun h => howned h.owned
      simp [hnot, lockOf]
    refine (Ends.if_neg_iff fun h => bne_iff_ne.mp h howned).trans ?_
    generalize hs₁ : (entered m others).acquire (g.regionLock threadInfoAddr) _ = s₁
    cases hfree' : s₁.held (lockOf g (g.coreInfo m .enclaveId core)) with
    | true =>
      refine (lock_iff_of_held hfree').trans ?_
      have hnot : ¬ Accepts g m others core threadId threadInfoAddr := fun h => by
        rw [← hs₁, LockedMachine.held] at hfree'
        simp [entered, h.free, h.ne] at hfree'
      subst hs₁
      refine (Ends.if_pos_iff rfl).trans (endsEmpty_end_iff.trans ?_)
      simp [hnot, lockOf]
    | false =>
      refine (lock_iff_of_free hfree').trans ((Ends.if_neg_iff (by simp)).trans ?_)
      have hspec := assignMetadataPages_spec g m threadId threadMetadataPages (g.coreInfo m .enclaveId core)
        threadMetadataPageType (metadataPageInfo (g.coreInfo m .enclaveId core) emptyMetadataPageType)
      by_cases hpages : PagesPass g m threadId threadMetadataPages
      · subst hs₁
        have hheld := LockedMachine.held_eq_false_iff.mp hfree'
        have haccepts : Accepts g m others core threadId threadInfoAddr :=
          ⟨howned, hheld.1, fun h => hheld.2 (by rw [h]; exact Finset.mem_insert_self _ _), hpages⟩
        refine (look_iff (plain_assignMetadataPages _ _ _ _ _) (hspec.1 hpages)).trans ?_
        refine (Ends.if_neg_iff (by simp)).trans ((clear_initialized_iff (i := (· = threadLock threadId)) rfl).trans ?_)
        simp only [haccepts, forall_true_left]
        refine Iff.trans (and_congr Iff.rfl ?_) (initialized_cleared_two_iff hheld.1 hheld.2)
        refine (read_iff (plain_load64 _) rfl).trans <| (read_iff (plain_load64 _) rfl).trans <|
          (read_iff (plain_load64 _) rfl).trans <| (read_iff (plain_load64 _) rfl).trans <|
          (read_iff (plain_load64 _) rfl).trans <| (look_iff (plain_store64 _ _) rfl).trans <|
          (look_iff (plain_store64 _ _) rfl).trans <| (look_iff (plain_store64 _ _) rfl).trans <|
          (look_iff (plain_store64 _ _) rfl).trans <| (look_iff (plain_store64 _ _) rfl).trans ?_
        exact Ends.clear_iff.trans (and_congr Iff.rfl endsEmpty_clear_iff)
      · obtain ⟨e, he, hrun⟩ := hspec.2 hpages
        subst hs₁
        have hnot : ¬ Accepts g m others core threadId threadInfoAddr := fun h => hpages h.pages
        refine (read_iff (plain_assignMetadataPages _ _ _ _ _) hrun).trans ((Ends.if_pos_iff he).trans ?_)
        refine clear_acquired_iff.trans (endsEmpty_end_iff.trans ?_)
        simp [hnot, lockOf]

/-! ### `lock_enclave` -/

section LockEnclave

variable {m : Machine} {others : Word → Bool} {unset : Word} {id : EnclaveId} {f : ApiResult → Monitor α}
  {Q : α → LockedMachine → Prop}

/-- The machine once the lock of a region is acquired. -/
abbrev regionAcquired (h : LocksRegion g m others id) : LockedMachine :=
  (entered m others).acquire (lockOf g id) (by rw [held_entered]; exact h.free)

/-- Once the region's lock is acquired, the enclave's is free. -/
theorem enclave_free (h : FindsEnclave g m others id) :
    (regionAcquired h.toLocksRegion).held (enclaveLock id) = false := by
  refine LockedMachine.held_eq_false_iff.mpr ⟨h.enclaveFree, ?_⟩
  change enclaveLock id ∉ ({lockOf g id} : Finset Word)
  rw [Finset.mem_singleton]
  exact h.enclaveLock_ne

/-- The machine once the lock of the enclave is acquired as well. -/
abbrev bothAcquired (h : FindsEnclave g m others id) : LockedMachine :=
  (regionAcquired h.toLocksRegion).acquire (enclaveLock id) (enclave_free h)

/-- `lock_enclave` finds no metadata region, or cannot lock it. -/
theorem lockEnclave_iff_of_not_locks (h : ¬ LocksRegion g m others id) :
    ∃ e, e ≠ .ok ∧ (Ends (ReleasesOwn i) (lockEnclave g unset id >>= f) (entered m others) Q ↔
      Ends (ReleasesOwn i) (f e) (entered m others) Q) := by
  unfold lockEnclave
  simp only [Prog.ite_bind, Prog.bind_assoc, Prog.pure_bind]
  by_cases hcheck : (!isDramAddress g id || !isPageAligned id) = true
  · exact ⟨.invalidValue, by decide, Ends.if_pos_iff hcheck⟩
  obtain ⟨e, he, hiff⟩ := lockMetadataRegionFor_iff_of_not (g := g) (s := entered m others) (a := id)
    (by rw [held_entered]; exact h)
  exact ⟨e, he, (Ends.if_neg_iff hcheck).trans (hiff.trans (Ends.if_pos_iff he))⟩

/-- `lock_enclave` has locked the region, and finds no enclave, or cannot lock it. -/
theorem lockEnclave_iff_of_not_finds (unset : Word) (h : LocksRegion g m others id)
    (hnot : ¬ FindsEnclave g m others id) :
    ∃ e, e ≠ .ok ∧ (Ends (ReleasesOwn i) (lockEnclave g unset id >>= f) (entered m others) Q ↔
      ReleasesOwn i (.clear (g.regionLock unset)) (regionAcquired h) ∧
        Ends (ReleasesOwn i) (f e) ((regionAcquired h).release (g.regionLock unset)) Q) := by
  unfold lockEnclave
  simp only [Prog.ite_bind, Prog.bind_assoc, Prog.pure_bind]
  have hcheck : ¬ (!isDramAddress g id || !isPageAligned id) = true := by simp [h.aligned, h.inDram]
  by_cases hentry : EnclaveEntry g m id
  · -- somebody holds the enclave's lock, or it is that of the region
    have hheld : (regionAcquired h).held (enclaveLock id) = true := by
      rw [← Bool.not_eq_false, LockedMachine.held_eq_false_iff]
      rintro ⟨hothers, hmine⟩
      refine hnot ⟨h, hentry, hothers, fun heq => hmine ?_⟩
      rw [heq]
      exact Finset.mem_insert_self _ _
    refine ⟨.concurrentCall, by decide, (Ends.if_neg_iff hcheck).trans ?_⟩
    refine (lockMetadataRegionFor_iff (by rw [held_entered]; exact h)).trans ((Ends.if_neg_iff (by simp)).trans ?_)
    refine (read_iff (plain_load64 _) rfl).trans ((Ends.if_neg_iff fun hne => hne hentry).trans ?_)
    exact (lock_iff_of_held hheld).trans ((Ends.if_pos_iff rfl).trans Ends.clear_iff)
  · refine ⟨.invalidValue, by decide, (Ends.if_neg_iff hcheck).trans ?_⟩
    refine (lockMetadataRegionFor_iff (by rw [held_entered]; exact h)).trans ((Ends.if_neg_iff (by simp)).trans ?_)
    have hne : m.mem.load64 (metadataPageInfoFor g id) ≠ metadataPageInfo id enclaveMetadataPageType := hentry
    exact (read_iff (plain_load64 _) rfl).trans ((Ends.if_pos_iff hne).trans Ends.clear_iff)

/-- `lock_enclave` succeeds. -/
theorem lockEnclave_iff_of_finds (h : FindsEnclave g m others id) :
    Ends (ReleasesOwn i) (lockEnclave g unset id >>= f) (entered m others) Q ↔
      ReleasesOwn i (.clear (g.regionLock unset)) (bothAcquired h) ∧
        Ends (ReleasesOwn i) (f .ok) ((bothAcquired h).release (g.regionLock unset)) Q := by
  unfold lockEnclave
  simp only [Prog.ite_bind, Prog.bind_assoc, Prog.pure_bind]
  have hcheck : ¬ (!isDramAddress g id || !isPageAligned id) = true := by simp [h.aligned, h.inDram]
  refine (Ends.if_neg_iff hcheck).trans ((lockMetadataRegionFor_iff (by rw [held_entered]; exact h.toLocksRegion)).trans ?_)
  refine (Ends.if_neg_iff (by simp)).trans ((read_iff (plain_load64 _) rfl).trans ?_)
  refine (Ends.if_neg_iff fun hne => hne h.entry).trans ((lock_iff_of_free (enclave_free h)).trans ?_)
  exact (Ends.if_neg_iff (by simp)).trans Ends.clear_iff

/-- What `lock_metadata_region_for` returns with, if it succeeds. -/
theorem run_lockMetadataRegionFor {s' : LockedMachine}
    (hrun : (lockMetadataRegionFor g id).run lockExec (entered m others) = some (.ok, s')) :
    ∃ h : LocksRegion g m others id, s' = regionAcquired h := by
  -- whatever may be cleared
  let i : Word → Prop := fun _ => False
  have hpost : ∀ {Q : ApiResult → LockedMachine → Prop},
      Ends (ReleasesOwn i) (lockMetadataRegionFor g id >>= pure) (entered m others) Q → Q .ok s' := fun h =>
    h.2 .ok s' (by rw [Prog.run_bind, hrun, Option.bind_some, Prog.run_pure])
  by_cases h : LocksRegion g m others id
  · refine ⟨h, hpost (Q := fun _ t => t = regionAcquired h) ?_⟩
    exact (lockMetadataRegionFor_iff (by rw [held_entered]; exact h)).mpr (.pure rfl)
  · obtain ⟨e, he, hiff⟩ := lockMetadataRegionFor_iff_of_not (g := g) (s := entered m others) (a := id) (f := pure)
      (Q := fun e _ => e ≠ .ok) (by rw [held_entered]; exact h)
    exact absurd rfl (hpost (hiff.mpr (.pure he)))

/-- What `lock_enclave` returns with, if it succeeds. -/
theorem run_lockEnclave {s' : LockedMachine}
    (hrun : (lockEnclave g unset id).run lockExec (entered m others) = some (.ok, s')) :
    ∃ h : FindsEnclave g m others id, s' = (bothAcquired h).release (g.regionLock unset) := by
  have herr : ∀ {t u : LockedMachine} {e : ApiResult}, e ≠ .ok →
      (clearDramRegionLock g unset >>= fun _ => (pure e : Monitor ApiResult)).run lockExec t ≠ some (.ok, u) := by
    intro t u e he h
    rw [Prog.run_bind, clearDramRegionLock, run_clear_lock, Option.bind_some, Prog.run_pure, Option.some.injEq,
      Prod.mk.injEq] at h
    exact he h.1
  unfold lockEnclave at hrun
  rw [Prog.run_ite] at hrun
  split at hrun
  · simp at hrun
  rw [Prog.run_bind] at hrun
  obtain ⟨⟨e, t⟩, hlock, hrun⟩ := Option.bind_eq_some_iff.mp hrun
  by_cases he : e = .ok
  swap
  · rw [if_pos he, Prog.run_pure, Option.some.injEq, Prod.mk.injEq] at hrun
    exact absurd hrun.1 he
  subst he
  obtain ⟨h, rfl⟩ := run_lockMetadataRegionFor hlock
  rw [if_neg (by simp), Prog.run_bind, run_load64_lock, Option.bind_some, Prog.run_ite] at hrun
  split at hrun
  · exact absurd hrun (herr (by decide))
  next hentry =>
  rw [Prog.run_bind] at hrun
  cases hheld : (regionAcquired h).held (enclaveLock id) with
  | true =>
    rw [run_testAndSet_held hheld] at hrun
    exact absurd hrun (herr (by decide))
  | false =>
    rw [run_testAndSet_free hheld] at hrun
    have hfree := LockedMachine.held_eq_false_iff.mp hheld
    refine ⟨⟨h, not_not.mp hentry, hfree.1, fun heq => hfree.2 ?_⟩, ?_⟩
    · rw [heq]
      exact Finset.mem_insert_self _ _
    · exact (Prod.mk.inj (Option.some.inj hrun)).2.symm

end LockEnclave

/-! ### `assign_thread` and `load_thread` -/

/-- The pages that the two calls reserve begin with the enclave's own, which is taken. -/
theorem not_pagesPass {m : Machine} {id : EnclaveId} (h : EnclaveEntry g m id) :
    ¬ PagesPass g m id threadMetadataPages := by
  intro hpass
  have h0 := hpass.empty 0 (by decide)
  simp only [Nat.mul_zero, BitVec.ofNat_eq_ofNat, BitVec.add_zero] at h0
  exact metadataPageInfo_enclave_ne_zero id (h.symm.trans h0)

section ThreadCalls

variable {m : Machine} {others : Word → Bool} {lockUnset unset : Word} {id : EnclaveId} {threadId : Word} {e : ApiResult}
  {rest : Monitor ApiResult}

/-- The end of both calls, with `A` in hand and the lock of the thread's region to be taken: what it
needs to come out even. -/
structure TailEven (g : Globals) (m : Machine) (others : Word → Bool) (unset : Word) (id : EnclaveId)
    (threadId : Word)
    (A : Finset Word) : Prop where
  /-- Without the thread's region. -/
  of_not : ¬ LocksRegion g m (fun a => others a || decide (a ∈ A)) threadId → A = {enclaveLock id}
  /-- With the thread's region. -/
  of_locks : LocksRegion g m (fun a => others a || decide (a ∈ A)) threadId →
    ((insert (lockOf g threadId) A).erase (g.regionLock unset)).erase (enclaveLock id) = ∅

/-- Two locks are in hand at least, and clearing two leaves none: these are what is in hand. -/
theorem mem_of_erase_erase {A : Finset Word} {a b c : Word} (hA : A.Nonempty) (ha : a ∉ A)
    (h : ((insert a A).erase b).erase c = ∅) : b ∈ insert a A ∧ c ∈ (insert a A).erase b := by
  have hcard : 1 < (insert a A).card := by
    rw [Finset.card_insert_of_notMem ha]
    exact Nat.succ_lt_succ hA.card_pos
  have hone : ∀ d, (insert a A).erase d ≠ ∅ := fun d hd => by
    have hle := Finset.pred_card_le_card_erase (s := insert a A) (a := d)
    rw [hd, Finset.card_empty] at hle
    omega
  have hc : c ∈ (insert a A).erase b := by
    by_contra hnot
    rw [Finset.erase_eq_of_notMem hnot] at h
    exact hone b h
  refine ⟨?_, hc⟩
  by_contra hnot
  rw [Finset.erase_eq_of_notMem hnot] at h
  exact hone c h

/-- The enclave is locked. -/
theorem endsEmpty_tail_iff {t : LockedMachine} (ht : t.machine = m) (hmine : t.mine.Nonempty)
    (hrest : ∀ t : LockedMachine, t.machine = m → (EndsEmpty i rest t ↔
      EndsEmpty i (clear (g.regionLock unset) >>= fun _ => clear (enclaveLock id) >>= fun _ => pure e) t)) :
    EndsEmpty i (lockMetadataRegionFor g threadId >>= fun result => if result ≠ .ok then
      unlockEnclave id >>= fun _ => pure result else rest) t ↔
      TailEven g m t.others unset id threadId t.mine := by
  subst ht
  by_cases hlocks : LocksRegion g t.machine t.held threadId
  · refine (lockMetadataRegionFor_iff hlocks).trans ((Ends.if_neg_iff (by simp)).trans ?_)
    refine (hrest (t.acquire _ hlocks.free) rfl).trans
      (Ends.clear_iff.trans ((and_congr Iff.rfl endsEmpty_clear_iff).trans ?_))
    refine ⟨fun h => ⟨fun hnot => absurd hlocks hnot, fun _ => h.2.2⟩, fun h => ?_⟩
    have hempty := h.of_locks hlocks
    obtain ⟨hunset, hid⟩ := mem_of_erase_erase hmine (LockedMachine.held_eq_false_iff.mp hlocks.free).2 hempty
    exact ⟨.inl hunset, .inl hid, hempty⟩
  · obtain ⟨e', he', hiff⟩ := lockMetadataRegionFor_iff_of_not (g := g) hlocks
    refine (hiff.trans (Ends.if_pos_iff he')).trans (endsEmpty_clear_iff.trans ?_)
    rw [Finset.erase_eq_empty_iff, or_iff_right hmine.ne_empty]
    refine ⟨fun h => ⟨fun _ => h.2, fun hlocks' => absurd hlocks' hlocks⟩, fun h => ?_⟩
    have hid := h.of_not hlocks
    exact ⟨.inl (hid ▸ Finset.mem_singleton_self _), hid⟩

/-- The locks of others and one more. -/
theorem held_singleton (a : Word) :
    (fun b => others b || decide (b ∈ ({a} : Finset Word))) = fun b => others b || b == a := by
  funext b
  rw [decide_eq_decide.mpr Finset.mem_singleton]
  rfl

/-- Only the lock of the enclave is in hand. -/
theorem tailEven_enclave_iff :
    TailEven g m others unset id threadId {enclaveLock id} ↔
      (LocksRegion g m (fun a => others a || a == enclaveLock id) threadId → g.regionLock unset = lockOf g threadId) := by
  constructor
  · intro h hlocks
    have hempty := h.of_locks (by rwa [held_singleton])
    have hne : lockOf g threadId ≠ enclaveLock id := fun heq => by
      have hfree := hlocks.free
      rw [heq] at hfree
      simp at hfree
    have hthread := Finset.eq_empty_iff_forall_notMem.mp hempty (lockOf g threadId)
    simp only [Finset.mem_erase, Finset.mem_insert, true_or, and_true, not_and, not_not] at hthread
    exact (hthread hne).symm
  · intro h
    refine ⟨fun _ => rfl, fun hlocks => ?_⟩
    rw [h (by rwa [held_singleton] at hlocks), Finset.erase_right_comm]
    ext a
    simp only [Finset.mem_erase, Finset.mem_insert, Finset.mem_singleton, Finset.notMem_empty, iff_false]
    tauto

/-- Only the lock of the enclave's region is in hand. -/
theorem tailEven_region_iff (hne : enclaveLock id ≠ lockOf g id) :
    TailEven g m others unset id threadId {lockOf g id} ↔
      LocksRegion g m (fun a => others a || a == lockOf g id) threadId ∧ lockOf g threadId = enclaveLock id ∧
        g.regionLock unset = lockOf g id := by
  constructor
  · intro h
    have hlocks : LocksRegion g m (fun a => others a || decide (a ∈ ({lockOf g id} : Finset Word))) threadId := by
      by_contra hnot
      exact hne (Finset.singleton_inj.mp (h.of_not hnot)).symm
    have hall := Finset.eq_empty_iff_forall_notMem.mp (h.of_locks hlocks)
    rw [held_singleton] at hlocks
    have hthread := hall (lockOf g threadId)
    have hregion := hall (lockOf g id)
    have hother : lockOf g threadId ≠ lockOf g id := fun heq => by
      have hfree := hlocks.free
      rw [heq] at hfree
      simp at hfree
    simp only [Finset.mem_erase, Finset.mem_insert, Finset.mem_singleton, true_or, or_true, and_true, not_and,
      not_not] at hthread hregion
    have hunset := hregion (Ne.symm hne)
    refine ⟨hlocks, ?_, hunset.symm⟩
    by_contra hnot
    exact hother ((hthread hnot).trans hunset.symm)
  · rintro ⟨hlocks, hthread, hunset⟩
    rw [← held_singleton] at hlocks
    refine ⟨fun hnot => absurd hlocks hnot, fun _ => ?_⟩
    rw [hthread, hunset]
    ext a
    simp only [Finset.mem_erase, Finset.mem_insert, Finset.mem_singleton, Finset.notMem_empty, iff_false]
    tauto

/-- Both locks are in hand: one more is, and two are cleared. -/
theorem not_tailEven_both (hne : enclaveLock id ≠ lockOf g id) :
    ¬ TailEven g m others unset id threadId {enclaveLock id, lockOf g id} := by
  intro h
  have hregion : lockOf g id ∈ ({enclaveLock id, lockOf g id} : Finset Word) := by simp
  have hlocks : LocksRegion g m
      (fun a => others a || decide (a ∈ ({enclaveLock id, lockOf g id} : Finset Word))) threadId := by
    by_contra hnot
    rw [h.of_not hnot, Finset.mem_singleton] at hregion
    exact hne hregion.symm
  have hfree := (Bool.or_eq_false_iff.mp hlocks.free).2
  have hall := Finset.eq_empty_iff_forall_notMem.mp (h.of_locks hlocks)
  have hthread := hall (lockOf g threadId)
  have hregion := hall (lockOf g id)
  simp only [decide_eq_false_iff_not, Finset.mem_insert, Finset.mem_singleton, not_or] at hfree
  simp only [Finset.mem_erase, Finset.mem_insert, Finset.mem_singleton, true_or, or_true, and_true, not_and,
    not_not] at hthread hregion
  exact hfree.2 ((hthread hfree.1).trans (hregion (Ne.symm hne)).symm)

/-- What both calls do until they reserve the pages. -/
theorem endsEmpty_threadCall_iff
    (hrest : EnclaveEntry g m id → ∃ e, ∀ t : LockedMachine, t.machine = m → (EndsEmpty i rest t ↔
      EndsEmpty i (clear (g.regionLock unset) >>= fun _ => clear (enclaveLock id) >>= fun _ => pure e) t)) :
    EndsEmpty i (lockEnclave g lockUnset id >>= fun result => if result ≠ .ok then pure result else
      lockMetadataRegionFor g threadId >>= fun result => if result ≠ .ok then
        unlockEnclave id >>= fun _ => pure result else rest) (entered m others) ↔
      ThreadRegions g m others lockUnset unset id threadId := by
  by_cases hlocks : LocksRegion g m others id
  swap
  · obtain ⟨e', he', hiff⟩ := lockEnclave_iff_of_not_locks (g := g) hlocks
    exact (hiff.trans (Ends.if_pos_iff he')).trans (iff_of_true (endsEmpty_pure_iff.mpr rfl) fun h => absurd h hlocks)
  have hregion : (regionAcquired hlocks).mine = {lockOf g id} := rfl
  simp only [ThreadRegions, hlocks, true_implies]
  by_cases hfinds : FindsEnclave g m others id
  swap
  · obtain ⟨e', he', hiff⟩ := lockEnclave_iff_of_not_finds lockUnset hlocks hfinds
    refine hiff.trans ((and_congr Iff.rfl ((Ends.if_pos_iff he').trans endsEmpty_pure_iff)).trans ?_)
    simp only [hfinds, false_implies, and_true, false_and, or_false]
    rw [LockedMachine.release_mine, hregion, Finset.erase_eq_empty_iff, Finset.singleton_inj,
      or_iff_right (Finset.singleton_ne_empty _)]
    exact ⟨fun h => h.2.symm, fun h => ⟨.inl (by rw [hregion, h]; exact Finset.mem_singleton_self _), h.symm⟩⟩
  simp only [hfinds, true_implies, true_and]
  refine (lockEnclave_iff_of_finds hfinds).trans ((and_congr Iff.rfl (Ends.if_neg_iff (by simp))).trans ?_)
  have hboth : (bothAcquired hfinds).mine = {enclaveLock id, lockOf g id} := rfl
  have hne : enclaveLock id ≠ lockOf g id := hfinds.enclaveLock_ne
  have hmine : ((bothAcquired hfinds).release (g.regionLock lockUnset)).mine.Nonempty := by
    rw [LockedMachine.release_mine, hboth]
    by_cases h : g.regionLock lockUnset = lockOf g id
    · exact ⟨enclaveLock id, by simp [h, hne]⟩
    · exact ⟨lockOf g id, by simp [Ne.symm h]⟩
  obtain ⟨e, hrest⟩ := hrest hfinds.entry
  refine (and_congr Iff.rfl (endsEmpty_tail_iff rfl hmine hrest)).trans ?_
  rw [LockedMachine.release_mine, hboth]
  have hothers : others (g.regionLock lockUnset) = false →
      ((bothAcquired hfinds).release (g.regionLock lockUnset)).others = others := fun h =>
    LockedMachine.release_others (s := bothAcquired hfinds) h
  by_cases hright : g.regionLock lockUnset = lockOf g id
  · -- the region's lock is released, the enclave's is still in hand
    have hown : g.regionLock lockUnset ∈ (bothAcquired hfinds).mine := by simp [hright]
    have hmine' : ({enclaveLock id, lockOf g id} : Finset Word).erase (lockOf g id) = {enclaveLock id} := by
      rw [Finset.pair_comm, Finset.erase_insert (by simpa using Ne.symm hne)]
    refine (and_iff_right (.inl hown)).trans ?_
    rw [hothers ((bothAcquired hfinds).others_eq_false _ hown), hright, hmine', tailEven_enclave_iff,
      and_iff_right rfl]
    exact (or_iff_left fun h => hne h.2.1.symm).symm
  by_cases hid : g.regionLock lockUnset = enclaveLock id
  · -- it is the other way round
    have hown : g.regionLock lockUnset ∈ (bothAcquired hfinds).mine := by simp [hid]
    have hmine' : ({enclaveLock id, lockOf g id} : Finset Word).erase (enclaveLock id) = {lockOf g id} :=
      Finset.erase_insert (by simpa using hne)
    refine (and_iff_right (.inl hown)).trans ?_
    rw [hothers ((bothAcquired hfinds).others_eq_false _ hown), hid, hmine', tailEven_region_iff hne]
    refine ⟨fun h => .inr ⟨h.1, rfl, h.2⟩, fun h => ?_⟩
    rcases h with h | h
    · exact absurd h.1 hne
    · exact ⟨h.1, h.2.2⟩
  · -- neither is
    have hmine' : ({enclaveLock id, lockOf g id} : Finset Word).erase (g.regionLock lockUnset) =
        {enclaveLock id, lockOf g id} := Finset.erase_eq_of_notMem (by simp [hright, hid])
    rw [hmine']
    refine iff_of_false (fun h => not_tailEven_both hne h.2) ?_
    simp [hright, hid]

/-- The pages begin with one that is taken, so the two calls cannot reserve them, and clear both
locks. What they would do with the pages, `q`, does not matter. -/
theorem endsEmpty_reserve_iff {c : Prop} [Decidable c] {q : Monitor ApiResult}
    (hentry : EnclaveEntry g m id)
    (hrest : ∀ t : LockedMachine, t.machine = m → (EndsEmpty i rest t ↔
      EndsEmpty i ((if c then reserveMetadataPages g id threadMetadataPages id threadMetadataPageType
          else pure .invalidState) >>= fun result => if result ≠ .ok then
          clear (g.regionLock unset) >>= fun _ => clear (enclaveLock id) >>= fun _ => pure result else q) t)) :
    ∃ e, ∀ t : LockedMachine, t.machine = m → (EndsEmpty i rest t ↔
      EndsEmpty i (clear (g.regionLock unset) >>= fun _ => clear (enclaveLock id) >>= fun _ => pure e) t) := by
  have hspec := assignMetadataPages_spec g m id threadMetadataPages id threadMetadataPageType emptyMetadataPageType
  obtain ⟨e, he, hrun⟩ := hspec.2 (not_pagesPass hentry)
  by_cases hc : c
  · refine ⟨e, fun t ht => (hrest t ht).trans ?_⟩
    subst ht
    rw [if_pos hc]
    exact (read_iff (plain_assignMetadataPages _ _ _ _ _) hrun).trans (Ends.if_pos_iff he)
  · refine ⟨.invalidState, fun t ht => (hrest t ht).trans ?_⟩
    rw [if_neg hc, Prog.pure_bind]
    exact Ends.if_pos_iff (by decide)

/-- **`assign_thread`** comes out even with the right regions only. -/
theorem endsEmpty_assignThread_iff :
    EndsEmpty i (assignThread g lockUnset unset id threadId) (entered m others) ↔
      ThreadRegions g m others lockUnset unset id threadId := by
  refine endsEmpty_threadCall_iff fun hentry => ?_
  refine endsEmpty_reserve_iff (c := m.mem.load64 (enclaveField .isInitialized id) ≠ 0)
    (q := do
      let threadCount ← load64 (enclaveField .threadCount id)
      store64 (enclaveField .threadCount id) (threadCount + 1)
      clearDramRegionLock g unset
      unlockEnclave id
      return .ok) hentry fun t ht => ?_
  subst ht
  rw [Prog.ite_bind]
  exact read_iff (plain_load64 _) rfl

/-- **`load_thread`** comes out even with the right regions only. -/
theorem endsEmpty_loadThread_iff {entryPc entryStack faultPc faultStack : Word} :
    EndsEmpty i (loadThread g lockUnset unset id threadId entryPc entryStack faultPc faultStack) (entered m others) ↔
      ThreadRegions g m others lockUnset unset id threadId := by
  refine endsEmpty_threadCall_iff fun hentry => ?_
  refine endsEmpty_reserve_iff (c := (if m.mem.load64 (enclaveField .isInitialized id) == 0 then
      m.mem.load64 (enclaveField .loadEptbr id) != 0 else false) = true)
    (q := do
      initThread id threadId entryPc entryStack faultPc faultStack
      clearDramRegionLock g unset
      unlockEnclave id
      return .ok) hentry fun t ht => ?_
  subst ht
  rw [Prog.ite_bind]
  refine (read_iff (plain_load64 _) rfl).trans (read_iff ?_ ?_)
  · exact .and (.bind (plain_load64 _) fun _ => .pure _)
  · rw [run_andThen]
    split <;> rfl

end ThreadCalls

/-! ### The calls return -/

/-- The program has no `while (true) {}`. -/
abbrev Answered (p : Monitor α) : Prop := p.Only fun o : HwOp => o ≠ .spin

theorem Answered.returns {p : Monitor α} (hp : Answered p) (s : LockedMachine) : Prog.Returns lockExec p s := by
  refine Prog.Only.returns hp fun o s ho => ?_
  cases o with
  | testAndSet a =>
    obtain ⟨x, hx⟩ := LockBalance.returns_testAndSet a s
    exact ⟨x, (Prog.run_request lockExec _ s).symm.trans hx⟩
  | clear a => exact ⟨_, rfl⟩
  | spin => exact absurd rfl ho
  | _ => exact LockBalance.exists_lockExec s rfl

theorem answered_of_plain {p : Monitor α} (hp : Plain p) : Answered p :=
  hp.mono fun o ho heq => by rw [heq] at ho; cases ho

theorem answered_load64 (a : Word) : Answered (load64 a) := .request nofun

theorem answered_store64 (a v : Word) : Answered (store64 a v) := .request nofun

theorem answered_clear (a : Word) : Answered (clear a) := .request nofun

theorem answered_testAndSet (a : Word) : Answered (testAndSet a) := .request nofun

theorem answered_assignMetadataPages (a pageCount owner type freeInfo : Word) :
    Answered (assignMetadataPages g a pageCount owner type freeInfo) :=
  answered_of_plain (plain_assignMetadataPages a pageCount owner type freeInfo)

theorem answered_lockMetadataRegionFor (a : Word) : Answered (lockMetadataRegionFor g a) := by
  refine .ite (fun _ => .pure _) fun _ => .bind (answered_testAndSet _) fun _ => .ite (fun _ => .pure _) fun _ => ?_
  exact .bind (answered_load64 _) fun _ => .ite (fun _ => .bind (answered_clear _) fun _ => .pure _) fun _ => .pure _

theorem answered_lockEnclave (unset : Word) (id : EnclaveId) : Answered (lockEnclave g unset id) := by
  refine .ite (fun _ => .pure _) fun _ => .bind (answered_lockMetadataRegionFor _) fun _ =>
    .ite (fun _ => .pure _) fun _ => ?_
  have hclear : ∀ e : ApiResult, Answered (clearDramRegionLock g unset >>= fun _ => (pure e : Monitor ApiResult)) :=
    fun _ => .bind (answered_clear _) fun _ => .pure _
  refine .bind (answered_load64 _) fun _ => .ite (fun _ => hclear _) fun _ => .bind (answered_testAndSet _) fun _ => ?_
  exact .ite (fun _ => hclear _) fun _ => hclear _

theorem answered_createEnclave (unset : Word) (id : EnclaveId) (evBase evMask mailboxCount : Word) (debug : Bool) :
    Answered (createEnclave g unset id evBase evMask mailboxCount debug) := by
  refine .ite (fun _ => .pure _) fun _ => .ite (fun _ => .pure _) fun _ =>
    .bind (answered_lockMetadataRegionFor _) fun _ => ?_
  have hclear : ∀ e : ApiResult, Answered (clearDramRegionLock g unset >>= fun _ => (pure e : Monitor ApiResult)) :=
    fun _ => .bind (answered_clear _) fun _ => .pure _
  refine .ite (fun _ => .pure _) fun _ => .bind (answered_load64 _) fun _ => .ite (fun _ => hclear _) fun _ => ?_
  refine .bind (answered_assignMetadataPages _ _ _ _ _) fun _ => .ite (fun _ => hclear _) fun _ => ?_
  obtain ⟨rest, hrest, -, heq⟩ := initEnclaveInfo_eq id evBase evMask mailboxCount debug
  rw [heq]
  exact .bind (.bind (answered_clear _) fun _ => answered_of_plain hrest) fun _ => hclear _

/-- The end of `assign_thread` and of `load_thread`. -/
theorem answered_threadCall {lockUnset : Word} {id : EnclaveId} {threadId : Word} {rest : Monitor ApiResult}
    (hrest : Answered rest) :
    Answered (lockEnclave g lockUnset id >>= fun result => if result ≠ .ok then pure result else
      lockMetadataRegionFor g threadId >>= fun result => if result ≠ .ok then
        unlockEnclave id >>= fun _ => pure result else rest) :=
  .bind (answered_lockEnclave _ _) fun _ => .ite (fun _ => .pure _) fun _ =>
    .bind (answered_lockMetadataRegionFor _) fun _ =>
      .ite (fun _ => .bind (answered_clear _) fun _ => .pure _) fun _ => hrest

theorem answered_assignThread (lockUnset unset : Word) (id : EnclaveId) (threadId : Word) :
    Answered (assignThread g lockUnset unset id threadId) := by
  have hend : ∀ e : ApiResult, Answered (clearDramRegionLock g unset >>= fun _ => unlockEnclave id >>= fun _ =>
      (pure e : Monitor ApiResult)) :=
    fun _ => .bind (answered_clear _) fun _ => .bind (answered_clear _) fun _ => .pure _
  refine answered_threadCall (.bind (answered_load64 _) fun _ => ?_)
  refine .ite (fun _ => .bind (answered_assignMetadataPages _ _ _ _ _) fun _ => ?_) fun _ => .bind (.pure _) fun _ => ?_
  all_goals
    refine .ite (fun _ => hend _) fun _ => .bind (answered_load64 _) fun _ => .bind (answered_store64 _ _) fun _ => ?_
    exact hend _

theorem answered_initThread (id : EnclaveId) (threadId entryPc entryStack faultPc faultStack : Word) :
    Answered (initThread id threadId entryPc entryStack faultPc faultStack) := by
  refine .bind (answered_load64 _) fun _ => .bind (answered_store64 _ _) fun _ => .bind (answered_clear _) fun _ =>
    .bind (answered_store64 _ _) fun _ => .bind (answered_store64 _ _) fun _ => .bind (answered_store64 _ _) fun _ =>
    .bind (answered_store64 _ _) fun _ => .bind (answered_load64 _) fun _ => .bind (answered_store64 _ _) fun _ => ?_
  exact .bind (answered_store64 _ _) fun _ => .bind (answered_store64 _ _) fun _ => .bind (answered_store64 _ _) fun _ =>
    .bind (answered_store64 _ _) fun _ => .bind (answered_store64 _ _) fun _ => .bind (.request nofun) fun _ =>
    .bind (answered_store64 _ _) fun _ => .bind (answered_store64 _ _) fun _ => .bind (answered_store64 _ _) fun _ =>
    answered_store64 _ _

theorem answered_loadThread (lockUnset unset : Word) (id : EnclaveId)
    (threadId entryPc entryStack faultPc faultStack : Word) :
    Answered (loadThread g lockUnset unset id threadId entryPc entryStack faultPc faultStack) := by
  have hend : ∀ e : ApiResult, Answered (clearDramRegionLock g unset >>= fun _ => unlockEnclave id >>= fun _ =>
      (pure e : Monitor ApiResult)) :=
    fun _ => .bind (answered_clear _) fun _ => .bind (answered_clear _) fun _ => .pure _
  refine answered_threadCall (.bind (answered_load64 _) fun _ => ?_)
  refine .bind (.and (.bind (answered_load64 _) fun _ => .pure _)) fun _ => ?_
  refine .ite (fun _ => .bind (answered_assignMetadataPages _ _ _ _ _) fun _ => ?_) fun _ => .bind (.pure _) fun _ => ?_
  all_goals exact .ite (fun _ => hend _) fun _ => .bind (answered_initThread _ _ _ _ _ _) fun _ => hend _

theorem answered_acceptThread (core threadId threadInfoAddr : Word) :
    Answered (acceptThread g core threadId threadInfoAddr) := by
  refine .ite (fun _ => .pure _) fun _ => .bind (answered_load64 _) fun _ => .bind (answered_testAndSet _) fun _ => ?_
  refine .ite (fun _ => .pure _) fun _ => .bind (answered_load64 _) fun _ => ?_
  refine .ite (fun _ => .bind (answered_clear _) fun _ => .pure _) fun _ => .bind (answered_testAndSet _) fun _ => ?_
  refine .ite (fun _ => .bind (answered_clear _) fun _ => .pure _) fun _ => ?_
  have hend : ∀ (a : Word) (e : ApiResult), Answered (clearDramRegionLock g a >>= fun _ =>
      clearDramRegionLock g (dramRegionFor g threadInfoAddr) >>= fun _ => (pure e : Monitor ApiResult)) :=
    fun _ _ => .bind (answered_clear _) fun _ => .bind (answered_clear _) fun _ => .pure _
  refine .bind (answered_assignMetadataPages _ _ _ _ _) fun _ => .ite (fun _ => hend _ _) fun _ => ?_
  refine .bind (answered_clear _) fun _ => .bind (answered_load64 _) fun _ => .bind (answered_load64 _) fun _ =>
    .bind (answered_load64 _) fun _ => .bind (answered_load64 _) fun _ => .bind (answered_load64 _) fun _ => ?_
  exact .bind (answered_store64 _ _) fun _ => .bind (answered_store64 _ _) fun _ => .bind (answered_store64 _ _) fun _ =>
    .bind (answered_store64 _ _) fun _ => .bind (answered_store64 _ _) fun _ => hend _ _

/-! ### When the calls come out even -/

/-- A call that returns, entered with nothing in hand. -/
theorem even_entered_iff {m : Machine} {others : Word → Bool} {p : Monitor ApiResult} (hp : Answered p) :
    Even i p (entered m others) ↔ EndsEmpty i p (entered m others) := even_iff rfl (hp.returns _)

/-- `lock_metadata_region_for` succeeds. -/
theorem run_lockMetadataRegionFor_of_locks {a : Word} (h : LocksRegion g s.machine s.held a) :
    (lockMetadataRegionFor g a).run lockExec s = some (.ok, s.acquire (lockOf g a) h.free) := by
  have howner : s.machine.mem.load64 (g.regionField .owner (dramRegionFor g a)) = metadataEnclaveId := h.metadata
  have hlock : (testAndSetDramRegionLock g (dramRegionFor g a)).run lockExec s =
      some (false, s.acquire (lockOf g a) h.free) := run_testAndSet_free h.free
  unfold lockMetadataRegionFor
  rw [if_neg (by simp [h.aligned, h.inDram]), Prog.run_bind, hlock, Option.bind_some, if_neg (by simp), Prog.run_bind,
    run_load64_lock, Option.bind_some, if_neg (by simp [howner]), Prog.run_pure]

/-- `lock_enclave` succeeds. -/
theorem run_lockEnclave_of_finds {m : Machine} {others : Word → Bool} {unset : Word} {id : EnclaveId}
    (h : FindsEnclave g m others id) : (lockEnclave g unset id).run lockExec (entered m others) =
      some (.ok, (bothAcquired h).release (g.regionLock unset)) := by
  have hentry : m.mem.load64 (metadataPageInfoFor g id) = metadataPageInfo id enclaveMetadataPageType := h.entry
  have hregion : (lockMetadataRegionFor g id).run lockExec (entered m others) =
      some (.ok, regionAcquired h.toLocksRegion) :=
    run_lockMetadataRegionFor_of_locks (s := entered m others) (by rw [held_entered]; exact h.toLocksRegion)
  unfold lockEnclave
  rw [if_neg (by simp [h.aligned, h.inDram]), Prog.run_bind, hregion, Option.bind_some, if_neg (by simp), Prog.run_bind,
    run_load64_lock, Option.bind_some, if_neg (fun hne => hne hentry), Prog.run_bind,
    run_testAndSet_free (enclave_free h)]
  rfl

/-- **`lock_enclave`**, when it succeeds, leaves the enclave's lock held and nothing else. -/
theorem lockEnclave_held_iff {m : Machine} {others : Word → Bool} {unset : Word} {id : EnclaveId} :
    (∀ s', (lockEnclave g unset id).run lockExec (entered m others) = some (.ok, s') →
      ∀ a, s'.held a = (others a || a == enclaveLock id)) ↔
      (FindsEnclave g m others id → g.regionLock unset = lockOf g id) := by
  constructor
  · intro h hfinds
    by_contra hne
    have hregion := h _ (run_lockEnclave_of_finds hfinds) (lockOf g id)
    have hmine : lockOf g id ∈ ((bothAcquired hfinds).release (g.regionLock unset)).mine := by
      change lockOf g id ∈ ({enclaveLock id, lockOf g id} : Finset Word).erase (g.regionLock unset)
      simp [Ne.symm hne]
    have hfree : others (lockOf g id) = false := hfinds.free
    rw [LockedMachine.held, decide_eq_true hmine, Bool.or_true, hfree, Bool.false_or] at hregion
    exact hfinds.enclaveLock_ne (beq_iff_eq.mp hregion.symm).symm
  · intro h s' hrun a
    obtain ⟨hfinds, rfl⟩ := run_lockEnclave hrun
    have hne : enclaveLock id ≠ lockOf g id := hfinds.enclaveLock_ne
    have hmine : ((bothAcquired hfinds).release (lockOf g id)).mine = {enclaveLock id} := by
      change ({enclaveLock id, lockOf g id} : Finset Word).erase (lockOf g id) = {enclaveLock id}
      rw [Finset.pair_comm, Finset.erase_insert (by simpa using Ne.symm hne)]
    have hothers : ((bothAcquired hfinds).release (lockOf g id)).others = others :=
      LockedMachine.release_others (s := bothAcquired hfinds) hfinds.free
    rw [h hfinds, LockedMachine.held, hmine, hothers]
    exact congrFun (held_singleton (enclaveLock id)) a

variable (g) in
/-- **When the metadata calls come out even**: exactly when the region whose lock they clear is the
one whose lock they have acquired. -/
theorem metadata_calls_even (m : Machine) (others : Word → Bool) :
    (∀ unset id evBase evMask mailboxCount debug,
      Even (· = enclaveLock id) (createEnclave g unset id evBase evMask mailboxCount debug) (entered m others) ↔
        CreateRegion g m others unset id evBase evMask mailboxCount) ∧
    (∀ lockUnset unset id threadId,
      Even (fun _ => False) (assignThread g lockUnset unset id threadId) (entered m others) ↔
        ThreadRegions g m others lockUnset unset id threadId) ∧
    (∀ lockUnset unset id threadId entryPc entryStack faultPc faultStack,
      Even (· = threadLock threadId) (loadThread g lockUnset unset id threadId entryPc entryStack faultPc faultStack)
          (entered m others) ↔
        ThreadRegions g m others lockUnset unset id threadId) ∧
    (∀ core threadId threadInfoAddr,
      Even (· = threadLock threadId) (acceptThread g core threadId threadInfoAddr) (entered m others) ↔
        AcceptRegion g m others core threadId threadInfoAddr) ∧
    ∀ unset id,
      (∀ s', (lockEnclave g unset id).run lockExec (entered m others) = some (.ok, s') →
        ∀ a, s'.held a = (others a || a == enclaveLock id)) ↔
        (FindsEnclave g m others id → g.regionLock unset = lockOf g id) :=
  ⟨fun _ _ _ _ _ _ => (even_entered_iff (answered_createEnclave _ _ _ _ _ _)).trans endsEmpty_createEnclave_iff,
    fun _ _ _ _ => (even_entered_iff (answered_assignThread _ _ _ _)).trans endsEmpty_assignThread_iff,
    fun _ _ _ _ _ _ _ _ => (even_entered_iff (answered_loadThread _ _ _ _ _ _ _ _)).trans endsEmpty_loadThread_iff,
    fun _ _ _ => (even_entered_iff (answered_acceptThread _ _ _)).trans endsEmpty_acceptThread_iff,
    fun _ _ => lockEnclave_held_iff⟩

/-- The machine after the OS has made region `1` a metadata region. -/
def metadataMachine : Machine :=
  afterAll twoRegions.globals (freshMachine twoRegions) [.blockDramRegion 0 1, .freeDramRegion 1, .createMetadataRegion 1]

/-- The variable happens to be `0`: `create_enclave` fails, and region `1` stays locked. -/
theorem not_even_createEnclave :
    Run (Sanctum.step twoRegions.globals) (freshMachine twoRegions)
        (script twoRegions.globals (freshMachine twoRegions)
          [.blockDramRegion 0 1, .freeDramRegion 1, .createMetadataRegion 1]) metadataMachine ∧
      ¬ Even (· = enclaveLock 0x81000) (createEnclave twoRegions.globals 0 0x81000 0 0xfff 0 false)
        (entered metadataMachine fun _ => false) := by
  refine ⟨run_script _ (by decide +kernel), fun heven => ?_⟩
  rw [even_entered_iff (answered_createEnclave _ _ _ _ _ _), endsEmpty_createEnclave_iff] at heven
  have hlocks : LocksRegion twoRegions.globals metadataMachine (fun _ => false) 0x81000 :=
    ⟨by decide, by decide, rfl, by decide +kernel⟩
  have hright := (heven (by decide) (by decide) hlocks).1
  exact absurd hright (by decide)

end MetadataLocks

end Sanctum
