import Mathlib.Tactic.FinCases
import Sanctum.Machine.PrefixCode
import Sanctum.Machine.Run
import Sanctum.Monitor.BootInit
import Sanctum.Monitor.Measure

/-!
# What an enclave's measurement says

An enclave's hash is extended by a block for every operation, and by a page's contents
after the block of the page. All operations put their blocks together in the same 64
bytes, `hash_block`, and each sets only the fields it has arguments for.

`Measured` is what an operation is meant to add to the hash, and `Measured.blocks` is how:
the fields that it does not set are zero. `encodes` shows that the code does just that,
since every operation leaves all fields but the opcode zero. These blocks are a prefix
code (`prefixCode_blocks`): the opcode says how many blocks there are, however much the
contents of a page look like operations. So the hash tells what has been measured
(`measurement_injective`).
-/

namespace Sanctum

namespace Measurement

/-! ### Blocks as words -/

/-- The block of eight words, each least significant byte first. -/
def wordsBlock (w : Fin 8 → Word) : HashBlock :=
  fun i => BitVec.ofNat 8 ((w ⟨i / 8, by omega⟩).toNat / 256 ^ (i.val % 8))

/-- A number is known by its bytes. -/
theorem eq_of_bytes {n x y : ℕ} (hx : x < 256 ^ n) (hy : y < 256 ^ n)
    (h : ∀ j < n, x / 256 ^ j % 256 = y / 256 ^ j % 256) : x = y := by
  induction n generalizing x y with
  | zero => omega
  | succ n ih =>
    rw [pow_succ] at hx hy
    have hlow := h 0 (by omega)
    have hhigh : x / 256 = y / 256 := by
      refine ih (by omega) (by omega) fun j hj => ?_
      have hj' := h (j + 1) (by omega)
      rwa [pow_succ', ← Nat.div_div_eq_div_mul, ← Nat.div_div_eq_div_mul] at hj'
    simp only [pow_zero, Nat.div_one] at hlow
    omega

theorem wordsBlock_injective : Function.Injective wordsBlock := by
  intro w w' heq
  funext k
  refine BitVec.eq_of_toNat_eq (eq_of_bytes (n := 8) (w k).isLt (w' k).isLt fun j hj => ?_)
  have hbyte := congrArg BitVec.toNat (congrFun heq ⟨8 * k + j, by omega⟩)
  simp only [wordsBlock, BitVec.toNat_ofNat, show (8 * k.val + j) / 8 = k by omega,
    show (8 * k.val + j) % 8 = j by omega] at hbyte
  exact hbyte

/-- The words of `hash_block`. -/
def blockWords (m : Memory) (enclaveInfo : Word) (k : Fin 8) : Word :=
  m.load64 (enclaveHashBlock enclaveInfo + BitVec.ofNat 64 (8 * k))

/-- `hash_block` is the block of its words. -/
theorem hashBlock_eq (m : Memory) (enclaveInfo : Word) :
    m.hashBlock (enclaveHashBlock enclaveInfo) = wordsBlock (blockWords m enclaveInfo) := by
  funext i
  apply BitVec.eq_of_toNat_eq
  have haddr : enclaveHashBlock enclaveInfo + BitVec.ofNat 64 (8 * (i.val / 8)) + BitVec.ofNat 64 (i.val % 8) =
      enclaveHashBlock enclaveInfo + BitVec.ofNat 64 i := by
    rw [BitVec.add_assoc, ← BitVec.ofNat_add, Nat.div_add_mod]
  rw [wordsBlock, blockWords, BitVec.toNat_ofNat, Memory.toNat_load64]
  rw [show (2 ^ 8 : ℕ) = 256 from rfl, Memory.load_div_mod m _ (Nat.mod_lt i.val (by decide)), haddr,
    Memory.hashBlock]

/-- Where the field is in the block. -/
def fieldIndex (f : BlockField) : Fin 8 := ⟨f.index, by cases f <;> decide⟩

/-- Setting a field sets its word. -/
theorem blockWords_store (m : Memory) (enclaveInfo : Word) (f : BlockField) (v : Word) :
    blockWords (m.store64 (blockField f enclaveInfo) v) enclaveInfo =
      Function.update (blockWords m enclaveInfo) (fieldIndex f) v := by
  funext k
  by_cases hk : k = fieldIndex f
  · rw [hk, Function.update_self]
    exact Memory.load64_store64_self _ _ _
  · rw [Function.update_of_ne hk]
    refine Memory.load64_store64_of_apart fun x h1 h2 => hk (Fin.ext ?_)
    have hf := (fieldIndex f).isLt
    have e : f.index = (fieldIndex f).val := rfl
    rw [blockField, e] at h2
    unfold Memory.Within at h1 h2
    generalize enclaveHashBlock enclaveInfo = a at h1 h2
    generalize (fieldIndex f).val = j at *
    obtain ⟨k, hk'⟩ := k
    dsimp only at *
    rw [BitVec.toNat_sub, BitVec.toNat_add, BitVec.toNat_ofNat] at h1 h2
    have hx := x.isLt
    have ha := a.isLt
    omega

/-- The words after some fields have been set, in order. -/
def setAll (w : Fin 8 → Word) (fs : List (BlockField × Word)) : Fin 8 → Word :=
  fs.foldl (fun w x => Function.update w (fieldIndex x.1) x.2) w

/-- A field that is not set stays. -/
theorem setAll_of_not_mem {fs : List (BlockField × Word)} {k : Fin 8} (w : Fin 8 → Word)
    (hk : ∀ x ∈ fs, fieldIndex x.1 ≠ k) : setAll w fs k = w k := by
  induction fs generalizing w with
  | nil => rfl
  | cons x fs ih =>
    rw [setAll, List.foldl_cons]
    refine (ih _ fun y hy => hk y (List.mem_cons_of_mem _ hy)).trans ?_
    exact Function.update_of_ne (hk x (by simp)).symm _ _

/-- Fields that are set to zero are zero, and the others stay. -/
theorem setAll_zero (w : Fin 8 → Word) (fs : List (BlockField × Word)) (k : Fin 8) :
    setAll w (fs.map fun x => (x.1, 0)) k = 0 ∨ (∀ x ∈ fs, fieldIndex x.1 ≠ k) ∧
      setAll w (fs.map fun x => (x.1, 0)) k = w k := by
  induction fs generalizing w with
  | nil => exact .inr ⟨by simp, rfl⟩
  | cons x fs ih =>
    rw [List.map_cons, setAll, List.foldl_cons]
    rcases ih (Function.update w (fieldIndex x.1) 0) with h | ⟨hfs, h⟩
    · exact .inl h
    · by_cases hx : fieldIndex x.1 = k
      · exact .inl (h.trans (by rw [hx, Function.update_self]))
      · exact .inr ⟨List.forall_mem_cons.mpr ⟨hx, hfs⟩, h.trans (Function.update_of_ne (Ne.symm hx) _ _)⟩

/-! ### What is measured -/

/-- What an operation adds to the hash. -/
inductive Measured where
  /-- `init_enclave_hash`. -/
  | init (evBase evMask mailboxCount : Word) (debug : Bool)
  /-- `extend_enclave_hash_with_page_table`. -/
  | pageTable (virtualAddr level acl : Word)
  /-- `extend_enclave_hash_with_page`, for a page with these contents. -/
  | page (virtualAddr acl : Word) (contents : Fin 4096 → Byte)
  /-- `extend_enclave_hash_with_thread`. -/
  | thread (entryPc entryStack faultPc faultStack : Word)
  /-- `finalize_enclave_hash`. -/
  | finalize

namespace Measured

/-- The opcode. -/
def opcode : Measured → Word
  | init .. => enclaveInitOpcode
  | pageTable .. => loadPageTableOpcode
  | page .. => loadPageOpcode
  | thread .. => loadThreadOpcode
  | finalize => finalizeEnclaveOpcode

/-- The fields with arguments. -/
def fields : Measured → List (BlockField × Word)
  | init evBase evMask mailboxCount debug =>
    [(.ptr1, evBase), (.ptr2, evMask), (.size1, mailboxCount), (.size2, boolWord debug)]
  | pageTable virtualAddr level acl => [(.ptr1, virtualAddr), (.ptr2, acl), (.size1, level)]
  | page virtualAddr acl _ => [(.ptr1, virtualAddr), (.ptr2, acl)]
  | thread entryPc entryStack faultPc faultStack =>
    [(.ptr1, entryPc), (.ptr2, entryStack), (.ptr3, faultPc), (.ptr4, faultStack)]
  | finalize => []

/-- The words of the operation's block. -/
def words (x : Measured) : Fin 8 → Word := setAll (fun _ => 0) ((.opcode, x.opcode) :: x.fields)

/-- The contents of a page, in blocks. -/
def pageBlocks (contents : Fin 4096 → Byte) : List HashBlock :=
  List.ofFn fun (i : Fin 64) (j : Fin 64) => contents ⟨64 * i + j, by omega⟩

/-- The blocks after the operation's own. -/
def rest : Measured → List HashBlock
  | page _ _ contents => pageBlocks contents
  | _ => []

/-- The blocks the hash is extended by. -/
def blocks (x : Measured) : List HashBlock := wordsBlock x.words :: x.rest

theorem words_zero (x : Measured) : x.words 0 = x.opcode := by
  cases x <;> rfl

theorem length_pageBlocks (contents : Fin 4096 → Byte) : (pageBlocks contents).length = 64 := List.length_ofFn

theorem pageBlocks_injective : Function.Injective pageBlocks := by
  intro c c' heq
  funext k
  have h := congrFun (congrFun (List.ofFn_injective heq) ⟨k / 64, by omega⟩) ⟨k % 64, by omega⟩
  simpa only [Nat.div_add_mod] using h

theorem boolWord_injective : Function.Injective boolWord := by
  intro b b'
  cases b <;> cases b' <;> decide

/-- **The blocks are a prefix code.** An operation's block tells the opcode and the
arguments, and the opcode tells whether a page's contents follow. -/
theorem prefixCode_blocks : PrefixCode blocks := by
  refine ⟨fun a => by simp [blocks], fun a b s t heq => ?_⟩
  rw [blocks, blocks, List.cons_append, List.cons_append] at heq
  obtain ⟨hblock, hrest⟩ := List.cons.inj heq
  have hword : ∀ k, a.words k = b.words k := congrFun (wordsBlock_injective hblock)
  have hop : a.opcode = b.opcode := by rw [← words_zero, hword 0, words_zero]
  cases a with
  | init evBase evMask mailboxCount debug =>
    cases b with
    | init evBase' evMask' mailboxCount' debug' =>
      obtain rfl : evBase = evBase' := hword 1
      obtain rfl : evMask = evMask' := hword 2
      obtain rfl : mailboxCount = mailboxCount' := hword 5
      obtain rfl := boolWord_injective (hword 6 : boolWord debug = boolWord debug')
      rfl
    | _ => exact absurd hop (by dsimp only [opcode]; decide)
  | pageTable virtualAddr level acl =>
    cases b with
    | pageTable virtualAddr' level' acl' =>
      obtain rfl : virtualAddr = virtualAddr' := hword 1
      obtain rfl : acl = acl' := hword 2
      obtain rfl : level = level' := hword 5
      rfl
    | _ => exact absurd hop (by dsimp only [opcode]; decide)
  | page virtualAddr acl contents =>
    cases b with
    | page virtualAddr' acl' contents' =>
      obtain rfl : virtualAddr = virtualAddr' := hword 1
      obtain rfl : acl = acl' := hword 2
      obtain ⟨hcontents, -⟩ := List.append_inj hrest ((length_pageBlocks _).trans (length_pageBlocks _).symm)
      rw [pageBlocks_injective hcontents]
    | _ => exact absurd hop (by dsimp only [opcode]; decide)
  | thread entryPc entryStack faultPc faultStack =>
    cases b with
    | thread entryPc' entryStack' faultPc' faultStack' =>
      obtain rfl : entryPc = entryPc' := hword 1
      obtain rfl : entryStack = entryStack' := hword 2
      obtain rfl : faultPc = faultPc' := hword 3
      obtain rfl : faultStack = faultStack' := hword 4
      rfl
    | _ => exact absurd hop (by dsimp only [opcode]; decide)
  | finalize =>
    cases b with
    | finalize => rfl
    | _ => exact absurd hop (by dsimp only [opcode]; decide)

end Measured

/-! ### What the code does -/

/-- A call of one of the functions of `measure_inl.h`. -/
inductive Op where
  /-- `init_enclave_hash`. -/
  | init (evBase evMask mailboxCount : Word) (debug : Bool)
  /-- `extend_enclave_hash_with_page_table`. -/
  | pageTable (virtualAddr level acl : Word)
  /-- `extend_enclave_hash_with_page`. -/
  | page (virtualAddr acl physAddr : Word)
  /-- `extend_enclave_hash_with_thread`. -/
  | thread (entryPc entryStack faultPc faultStack : Word)
  /-- `finalize_enclave_hash`. -/
  | finalize

namespace Op

/-- The code of the call. -/
def code (enclaveInfo : Word) : Op → Monitor Unit
  | init evBase evMask mailboxCount debug => initEnclaveHash enclaveInfo evBase evMask mailboxCount debug
  | pageTable virtualAddr level acl => extendEnclaveHashWithPageTable enclaveInfo virtualAddr level acl
  | page virtualAddr acl physAddr => extendEnclaveHashWithPage enclaveInfo virtualAddr acl physAddr
  | thread entryPc entryStack faultPc faultStack =>
    extendEnclaveHashWithThread enclaveInfo entryPc entryStack faultPc faultStack
  | finalize => finalizeEnclaveHash enclaveInfo

/-- What it measures, memory being `m`. -/
def measured (m : Memory) : Op → Measured
  | init evBase evMask mailboxCount debug => .init evBase evMask mailboxCount debug
  | pageTable virtualAddr level acl => .pageTable virtualAddr level acl
  | page virtualAddr acl physAddr => .page virtualAddr acl fun i => m (physAddr + BitVec.ofNat 64 i)
  | thread entryPc entryStack faultPc faultStack => .thread entryPc entryStack faultPc faultStack
  | finalize => .finalize

/-- The call is `init_enclave_hash`. -/
def isInit : Op → Bool
  | init .. => true
  | _ => false

end Op

/-- Set fields of the block. -/
def setFields (enclaveInfo : Word) : List (BlockField × Word) → Monitor Unit
  | [] => pure ()
  | x :: fs => do
    store64 (blockField x.1 enclaveInfo) x.2
    setFields enclaveInfo fs

/-- Extend the hash by a block with an opcode and some fields, and clear these. -/
def extendWithBlock (enclaveInfo opcode : Word) (fs : List (BlockField × Word)) : Monitor Unit := do
  setFields enclaveInfo ((.opcode, opcode) :: fs)
  extendHash (enclaveHash enclaveInfo) (enclaveHashBlock enclaveInfo)
  setFields enclaveInfo (fs.map fun x => (x.1, 0))

/-- What a call does first. -/
def Op.before (enclaveInfo : Word) : Op → Monitor Unit
  | init .. => do
    bzero (enclaveHashBlock enclaveInfo) hashBlockSize
    initHash (enclaveHash enclaveInfo)
  | _ => pure ()

/-- What it does last. -/
def Op.after (enclaveInfo : Word) : Op → Monitor Unit
  | page _ _ physAddr =>
    Prog.forUp (fun i => extendHash (enclaveHash enclaveInfo) (physAddr + BitVec.ofNat 64 (hashBlockSize * i)))
      (pageSize.toNat / hashBlockSize) 0
  | finalize => finalizeHash (enclaveHash enclaveInfo)
  | _ => pure ()

/-- `extend_enclave_hash_with_page`, whatever its loop is. -/
theorem page_eq (enclaveInfo virtualAddr acl : Word) (loop : Monitor Unit) :
    (do
      store64 (blockField .opcode enclaveInfo) loadPageOpcode
      store64 (blockField .ptr1 enclaveInfo) virtualAddr
      store64 (blockField .ptr2 enclaveInfo) acl
      extendHash (enclaveHash enclaveInfo) (enclaveHashBlock enclaveInfo)
      store64 (blockField .ptr1 enclaveInfo) 0
      store64 (blockField .ptr2 enclaveInfo) 0
      loop) =
    (do
      extendWithBlock enclaveInfo loadPageOpcode [(.ptr1, virtualAddr), (.ptr2, acl)]
      loop) := rfl

/-- All calls have the same shape. -/
theorem Op.code_eq (enclaveInfo : Word) (m : Memory) (op : Op) :
    op.code enclaveInfo = (do
      op.before enclaveInfo
      extendWithBlock enclaveInfo (op.measured m).opcode (op.measured m).fields
      op.after enclaveInfo) := by
  cases op with
  | page virtualAddr acl physAddr =>
    have hbefore : (page virtualAddr acl physAddr).before enclaveInfo = pure () := rfl
    rw [hbefore, Prog.pure_bind]
    exact page_eq enclaveInfo virtualAddr acl _
  | _ => rfl

section Spec

variable (enclaveInfo : Word)

/-- Memory after fields of the block have been set. -/
def fieldsMem (m : Memory) (fs : List (BlockField × Word)) : Memory :=
  fs.foldl (fun m x => m.store64 (blockField x.1 enclaveInfo) x.2) m

theorem run_setFields (s : Machine) (fs : List (BlockField × Word)) :
    (setFields enclaveInfo fs).run (exec .code) s = some ((), { s with mem := fieldsMem enclaveInfo s.mem fs }) := by
  induction fs generalizing s with
  | nil => rfl
  | cons x fs ih =>
    rw [setFields, Prog.run_bind, run_store64, Option.bind_some, ih]
    rfl

theorem blockWords_fieldsMem (m : Memory) (fs : List (BlockField × Word)) :
    blockWords (fieldsMem enclaveInfo m fs) enclaveInfo = setAll (blockWords m enclaveInfo) fs := by
  induction fs generalizing m with
  | nil => rfl
  | cons x fs ih =>
    rw [fieldsMem, List.foldl_cons, setAll, List.foldl_cons, ← blockWords_store]
    exact ih _

/-- The block ends before memory does, as `bzero` needs it to. -/
def BlockFits : Prop := (enclaveHashBlock enclaveInfo).toNat + hashBlockSize < 2 ^ 64

/-- All of the block but its opcode is zero. -/
def Clean (m : Memory) : Prop := ∀ k : Fin 8, k ≠ 0 → blockWords m enclaveInfo k = 0

variable {enclaveInfo} {m : Memory} {s : Machine}

/-- The callers have checked that an enclave's record begins where a page does. -/
theorem blockFits_of_isPageAligned (h : isPageAligned enclaveInfo = true) : BlockFits enclaveInfo := by
  rw [isPageAligned_iff] at h
  rw [BlockFits, enclaveHashBlock, BitVec.toNat_add, hashBlockSize]
  have hoffset : (240 : Word).toNat = 240 := rfl
  have hlt := enclaveInfo.isLt
  omega

/-- A clean block with an opcode and some fields set is that of nothing but these. -/
theorem Clean.blockWords_eq (h : Clean enclaveInfo m) (x : Measured) :
    blockWords (fieldsMem enclaveInfo m ((.opcode, x.opcode) :: x.fields)) enclaveInfo = x.words := by
  have hopcode : Function.update (blockWords m enclaveInfo) 0 x.opcode =
      Function.update (fun _ => 0) 0 x.opcode := by
    funext k
    by_cases hk : k = 0
    · rw [hk, Function.update_self, Function.update_self]
    · rw [Function.update_of_ne hk, Function.update_of_ne hk, h k hk]
  rw [blockWords_fieldsMem, Measured.words, setAll, setAll, List.foldl_cons, List.foldl_cons]
  exact congrArg (fun w => List.foldl _ w x.fields) hopcode

/-- A clean block is clean again once the fields that were set have been cleared. -/
theorem Clean.cleared (h : Clean enclaveInfo m) (opcode : Word) (fs : List (BlockField × Word)) :
    Clean enclaveInfo (fieldsMem enclaveInfo (fieldsMem enclaveInfo m ((.opcode, opcode) :: fs))
      (fs.map fun x => (x.1, 0))) := by
  intro k hk
  rw [blockWords_fieldsMem]
  rcases setAll_zero (blockWords (fieldsMem enclaveInfo m ((.opcode, opcode) :: fs)) enclaveInfo) fs k with
    hzero | ⟨hfs, hsame⟩
  · exact hzero
  · rw [hsame, blockWords_fieldsMem, setAll_of_not_mem _ (List.forall_mem_cons.mpr ⟨Ne.symm hk, hfs⟩)]
    exact h k hk

/-- Extending a hash by a block that starts clean. -/
theorem run_extendWithBlock (h : Clean enclaveInfo s.mem) (x : Measured) :
    ∃ s', (extendWithBlock enclaveInfo x.opcode x.fields).run (exec .code) s = some ((), s') ∧
      Clean enclaveInfo s'.mem ∧
      (s'.hash (enclaveHash enclaveInfo)).blocks =
        (s.hash (enclaveHash enclaveInfo)).blocks ++ [wordsBlock x.words] := by
  simp only [extendWithBlock, Prog.run_bind, run_setFields, Option.bind_some, run_extendHash]
  refine ⟨_, rfl, h.cleared x.opcode x.fields, ?_⟩
  dsimp only
  rw [Function.update_self, hashBlock_eq, h.blockWords_eq]

/-- Extending a hash by a number of blocks. -/
theorem run_extendHashes (hash physAddr : Word) (s : Machine) (n i : ℕ) :
    (Prog.forUp (fun i => extendHash hash (physAddr + BitVec.ofNat 64 (hashBlockSize * i))) n i).run (exec .code) s =
      some ((), { s with
        hash := Function.update s.hash hash
          ⟨(s.hash hash).blocks ++
            (List.range' i n).map fun i => s.mem.hashBlock (physAddr + BitVec.ofNat 64 (hashBlockSize * i)),
          (s.hash hash).finalized⟩ }) := by
  induction n generalizing i s with
  | zero =>
    rw [Prog.forUp, Prog.run_pure, List.range'_zero, List.map_nil, List.append_nil]
    rw [show (⟨(s.hash hash).blocks, (s.hash hash).finalized⟩ : HashState) = s.hash hash from rfl,
      Function.update_eq_self]
  | succ n ih =>
    rw [Prog.forUp, Prog.run_bind, run_extendHash, Option.bind_some, ih]
    dsimp only
    rw [Function.update_self, Function.update_idem, List.append_assoc, List.range'_succ, List.map_cons]
    rfl

/-- The blocks of a page are its contents. -/
theorem map_hashBlock_eq (m : Memory) (physAddr : Word) :
    ((List.range' 0 64).map fun i => m.hashBlock (physAddr + BitVec.ofNat 64 (hashBlockSize * i))) =
      Measured.pageBlocks fun i => m (physAddr + BitVec.ofNat 64 i) := by
  unfold Measured.pageBlocks
  refine List.ext_getElem (by rw [List.length_ofFn, List.length_map, List.length_range']) fun i _ _ => ?_
  rw [List.getElem_map, List.getElem_range', List.getElem_ofFn]
  funext j
  rw [Memory.hashBlock, BitVec.add_assoc, ← BitVec.ofNat_add, Nat.zero_add, Nat.one_mul]
  rfl

/-- `init_enclave_hash` starts with a clean block and an empty hash; the other calls start
with what they find. -/
theorem Op.run_before {op : Op} (hfits : BlockFits enclaveInfo) (h : op.isInit = false → Clean enclaveInfo s.mem) :
    ∃ s', (op.before enclaveInfo).run (exec .code) s = some ((), s') ∧ Clean enclaveInfo s'.mem ∧
      (s'.hash (enclaveHash enclaveInfo)).blocks =
        if op.isInit then [] else (s.hash (enclaveHash enclaveInfo)).blocks := by
  cases op with
  | init evBase evMask mailboxCount debug =>
    rw [before, Prog.run_bind, run_bzero, Option.bind_some, run_initHash]
    refine ⟨_, rfl, fun k _ => ?_, ?_⟩
    · dsimp only
      rw [Memory.zeroed_eq_fill hfits, blockWords]
      refine Memory.load64_fill_zero fun x hx => ?_
      have hk := k.isLt
      unfold Memory.Within at *
      generalize enclaveHashBlock enclaveInfo = a at *
      rw [BitVec.toNat_sub, BitVec.toNat_add, BitVec.toNat_ofNat] at hx
      rw [BitVec.toNat_sub, hashBlockSize]
      have hlt := x.isLt
      have hlt' := a.isLt
      omega
    · dsimp only
      rw [Function.update_self]
      rfl
  | _ => exact ⟨s, rfl, h rfl, rfl⟩

variable (enclaveInfo) in
/-- What comes after the operation's own block. -/
theorem Op.run_after (op : Op) (s : Machine) :
    ∃ s', (op.after enclaveInfo).run (exec .code) s = some ((), s') ∧ s'.mem = s.mem ∧
      (s'.hash (enclaveHash enclaveInfo)).blocks =
        (s.hash (enclaveHash enclaveInfo)).blocks ++ (op.measured s.mem).rest := by
  cases op with
  | page virtualAddr acl physAddr =>
    have hcount : pageSize.toNat / hashBlockSize = 64 := by decide
    rw [after, hcount, run_extendHashes]
    refine ⟨_, rfl, rfl, ?_⟩
    dsimp only
    rw [Function.update_self, map_hashBlock_eq]
    rfl
  | finalize =>
    rw [after, run_finalizeHash]
    refine ⟨_, rfl, rfl, ?_⟩
    dsimp only
    rw [Function.update_self]
    exact (List.append_nil _).symm
  | _ => exact ⟨s, rfl, rfl, (List.append_nil _).symm⟩

variable (s) in
/-- **What a call does.** It leaves the block clean, and extends the hash by the blocks of
what it measures. -/
theorem Op.exists_run (op : Op) (hfits : BlockFits enclaveInfo) (h : op.isInit = false → Clean enclaveInfo s.mem) :
    ∃ s', (op.code enclaveInfo).run (exec .code) s = some ((), s') ∧ Clean enclaveInfo s'.mem ∧
      (s'.hash (enclaveHash enclaveInfo)).blocks =
        (if op.isInit then [] else (s.hash (enclaveHash enclaveInfo)).blocks) ++ (op.measured s'.mem).blocks := by
  obtain ⟨s₁, hbefore, hclean₁, hhash₁⟩ := Op.run_before hfits h
  -- the block and the arguments do not depend on memory
  obtain ⟨s₂, hrun, hclean, hhash⟩ := run_extendWithBlock hclean₁ (op.measured s₁.mem)
  obtain ⟨s₃, hafter, hmem, hhash'⟩ := op.run_after enclaveInfo s₂
  have hwords : (op.measured s₁.mem).words = (op.measured s₃.mem).words := by cases op <;> rfl
  refine ⟨s₃, ?_, hmem ▸ hclean, ?_⟩
  · rw [op.code_eq enclaveInfo s₁.mem, Prog.run_bind, hbefore, Option.bind_some, Prog.run_bind, hrun,
      Option.bind_some, hafter]
  · rw [hhash', hhash, hhash₁, hwords, Measured.blocks, ← hmem, List.append_assoc]
    rfl

/-! ### The block at every `extend_hash` -/

/-- If the hash is extended, the words of `hash_block` that `op` does not set are zero. -/
def UnsetZero (enclaveInfo : Word) (op : Op) (o : hardware.Op) (s : Machine) : Prop :=
  ∀ hash block, o = .extendHash hash block →
    ∀ k : Fin 8, k ≠ 0 → (∀ x ∈ (op.measured s.mem).fields, fieldIndex x.1 ≠ k) →
      blockWords s.mem enclaveInfo k = 0

theorem asks_setFields {ok : hardware.Op → Machine → Prop} (hok : ∀ a v s, ok (.store64 a v) s) (s : Machine)
    (fs : List (BlockField × Word)) : (setFields enclaveInfo fs).Asks (exec .code) ok s := by
  induction fs generalizing s with
  | nil => exact trivial
  | cons x fs ih => exact ⟨hok _ _ s, fun _ s' _ => ih s'⟩

theorem Op.asks_before (op : Op) (s : Machine) :
    (op.before enclaveInfo).Asks (exec .code) (UnsetZero enclaveInfo op) s := by
  cases op with
  | init evBase evMask mailboxCount debug => exact ⟨nofun, fun _ _ _ => ⟨nofun, fun _ _ _ => trivial⟩⟩
  | _ => exact trivial

theorem Op.asks_after (op : Op) (h : Clean enclaveInfo s.mem) :
    (op.after enclaveInfo).Asks (exec .code) (UnsetZero enclaveInfo op) s := by
  cases op with
  | page virtualAddr acl physAddr =>
    refine Prog.Asks.forUp (P := fun s => Clean enclaveInfo s.mem) h (fun j s hs => ?_) fun j s hs => ?_
    · exact ⟨fun _ _ _ k hk _ => hs k hk, fun _ _ _ => trivial⟩
    · intro _ s' hrun
      obtain ⟨-, rfl⟩ := Prod.mk.inj (Option.some.inj hrun)
      exact hs
  | finalize => exact ⟨nofun, fun _ _ _ => trivial⟩
  | _ => exact trivial

/-- **Whenever a call extends the hash**, the fields that it does not set are zero. -/
theorem Op.asks_code {op : Op} (hfits : BlockFits enclaveInfo) (h : op.isInit = false → Clean enclaveInfo s.mem) :
    (op.code enclaveInfo).Asks (exec .code) (UnsetZero enclaveInfo op) s := by
  rw [op.code_eq enclaveInfo s.mem]
  refine (op.asks_before s).bind fun _ s₁ hbefore => ?_
  obtain ⟨s₁', hbefore', hclean, -⟩ := Op.run_before hfits h
  obtain rfl : s₁' = s₁ := (Prod.mk.inj (Option.some.inj (hbefore'.symm.trans hbefore))).2
  have hfields : ∀ m : Memory, (op.measured m).fields.map (fun x => fieldIndex x.1) =
      (op.measured s.mem).fields.map fun x => fieldIndex x.1 := fun m => by cases op <;> rfl
  refine Prog.Asks.bind ?_ fun _ s₂ hblock => ?_
  · refine (asks_setFields (fun _ _ _ => nofun) _ _).bind fun _ s₂ hset => ?_
    rw [run_setFields] at hset
    obtain ⟨-, rfl⟩ := Prod.mk.inj (Option.some.inj hset)
    refine ⟨fun _ _ _ k hk hunset => ?_, fun _ _ _ => asks_setFields (fun _ _ _ => nofun) _ _⟩
    have hunset' : ∀ x ∈ (op.measured s.mem).fields, fieldIndex x.1 ≠ k := by
      intro x hx heq
      have hmem := List.mem_map_of_mem (f := fun x : BlockField × Word => fieldIndex x.1) hx
      rw [← hfields, List.mem_map] at hmem
      obtain ⟨y, hy, heq'⟩ := hmem
      exact hunset y hy (heq'.trans heq)
    dsimp only
    rw [blockWords_fieldsMem, setAll_of_not_mem _ (List.forall_mem_cons.mpr ⟨Ne.symm hk, hunset'⟩)]
    exact hclean k hk
  · obtain ⟨s₂', hblock', hclean', -⟩ := run_extendWithBlock hclean (op.measured s.mem)
    obtain rfl : s₂' = s₂ := (Prod.mk.inj (Option.some.inj (hblock'.symm.trans hblock))).2
    exact op.asks_after hclean'

/-! ### Sequences of calls -/

/-- What happens to an enclave whose measurement is being taken. -/
inductive Event where
  /-- Something else: pages are filled, say, or other enclaves are measured. -/
  | other
  /-- A call. -/
  | call (op : Op)

/-- The call, if it is one. -/
def Event.op? : Event → Option Op
  | other => none
  | call op => some op

/-- A step. Only the calls touch the enclave's hash and its `hash_block`. -/
def step (enclaveInfo : Word) (s : Machine) (e : Event) (s' : Machine) : Prop :=
  match e with
  | .other => s'.hash (enclaveHash enclaveInfo) = s.hash (enclaveHash enclaveInfo) ∧
    ∀ a, Memory.Within (enclaveHashBlock enclaveInfo) hashBlockSize a → s'.mem a = s.mem a
  | .call op => (op.code enclaveInfo).run (exec .code) s = some ((), s')

/-- The calls of a run. -/
def calls (tr : List (Step Machine Event)) : List Op := tr.filterMap fun st => st.label.op?

/-- What they measure. The contents of a page are those that the call has found. -/
def measured (tr : List (Step Machine Event)) : List Measured :=
  tr.filterMap fun st => st.label.op?.map (Op.measured st.post.mem)

theorem measured_eq_nil {tr : List (Step Machine Event)} (h : calls tr = []) : measured tr = [] := by
  rw [calls, List.filterMap_eq_nil_iff] at h
  rw [measured, List.filterMap_eq_nil_iff]
  intro st hst
  rw [h st hst, Option.map_none]

/-- One `init_enclave_hash`, any number of calls that extend the hash, and perhaps a
`finalize_enclave_hash`. -/
def IsSequence (ops : List Op) : Prop :=
  ∃ evBase evMask mailboxCount debug middle last,
    ops = .init evBase evMask mailboxCount debug :: middle ++ last ∧
    (∀ op ∈ middle, op.isInit = false ∧ op ≠ .finalize) ∧ (last = [] ∨ last = [.finalize])

/-- The first call, and no other, is `init_enclave_hash`. -/
def InitFirst : List Op → Prop
  | [] => True
  | op :: ops => op.isInit = true ∧ ∀ o ∈ ops, o.isInit = false

theorem IsSequence.initFirst {ops : List Op} (h : IsSequence ops) : InitFirst ops := by
  obtain ⟨evBase, evMask, mailboxCount, debug, middle, last, rfl, hmiddle, hlast⟩ := h
  refine ⟨rfl, fun o ho => ?_⟩
  rcases List.mem_append.mp ho with ho | ho
  · exact (hmiddle o ho).1
  · rcases hlast with rfl | rfl
    · exact absurd ho (by simp)
    · rw [List.mem_singleton.mp ho]
      rfl

theorem InitFirst.of_append {ops ops' : List Op} (h : InitFirst (ops ++ ops')) : InitFirst ops := by
  cases ops with
  | nil => exact trivial
  | cons op ops => exact ⟨h.1, fun o ho => h.2 o (List.mem_append_left _ ho)⟩

/-- A call that is not the first is not `init_enclave_hash`, and the first is. -/
theorem InitFirst.isInit_iff {ops : List Op} {op : Op} (h : InitFirst (ops ++ [op])) :
    op.isInit = true ↔ ops = [] := by
  cases ops with
  | nil => exact iff_of_true h.1 rfl
  | cons o ops => exact iff_of_false (by rw [h.2 op (by simp)]; decide) (by simp)

theorem blockWords_congr {m m' : Memory}
    (h : ∀ a, Memory.Within (enclaveHashBlock enclaveInfo) hashBlockSize a → m' a = m a) :
    blockWords m' enclaveInfo = blockWords m enclaveInfo := by
  funext k
  refine Memory.load64_congr fun x hx => h x ?_
  have hk := k.isLt
  unfold Memory.Within at *
  generalize enclaveHashBlock enclaveInfo = a at *
  rw [BitVec.toNat_sub, BitVec.toNat_add, BitVec.toNat_ofNat] at hx
  rw [BitVec.toNat_sub, hashBlockSize]
  have hlt := x.isLt
  have hlt' := a.isLt
  omega

/-- From the first call on, the block is clean, and the hash consists of the blocks of what
has been measured. -/
def Encodes (enclaveInfo : Word) (tr : List (Step Machine Event)) (s : Machine) : Prop :=
  calls tr ≠ [] → Clean enclaveInfo s.mem ∧
    (s.hash (enclaveHash enclaveInfo)).blocks = (measured tr).flatMap Measured.blocks

/-- **The hash consists of the blocks of what has been measured.** -/
theorem encodes {tr : List (Step Machine Event)} {s' : Machine} (hfits : BlockFits enclaveInfo)
    (hrun : Run (step enclaveInfo) s tr s') (hops : InitFirst (calls tr)) : Encodes enclaveInfo tr s' := by
  refine hrun.history (P := fun tr s => InitFirst (calls tr) → Encodes enclaveInfo tr s)
    (fun _ h => absurd rfl h) (fun tr s₁ e s₂ _ ih hstep hops => ?_) hops
  rw [Encodes, calls, measured, List.filterMap_append, List.filterMap_append]
  rw [calls, List.filterMap_append] at hops
  cases e with
  | other =>
    obtain ⟨hhash, hmem⟩ := hstep
    simp only [Event.op?, Option.map_none, List.filterMap_cons_none, List.filterMap_nil, List.append_nil] at hops ⊢
    intro hne
    obtain ⟨hclean, hblocks⟩ := ih hops hne
    exact ⟨fun k hk => by rw [blockWords_congr hmem]; exact hclean k hk, by rw [hhash]; exact hblocks⟩
  | call op =>
    have hinit : op.isInit = true ↔ calls tr = [] := InitFirst.isInit_iff hops
    have hbefore := ih (InitFirst.of_append hops)
    obtain ⟨s₂', hrun', hclean, hblocks⟩ := op.exists_run s₁ hfits
      fun hop => (hbefore fun h => by rw [hinit.mpr h] at hop; simp at hop).1
    obtain rfl : s₂' = s₂ := (Prod.mk.inj (Option.some.inj (hrun'.symm.trans hstep))).2
    refine fun _ => ⟨hclean, hblocks.trans ?_⟩
    rw [List.flatMap_append]
    refine congrArg₂ (· ++ ·) ?_ (List.append_nil _).symm
    by_cases hfirst : calls tr = []
    · rw [if_pos (hinit.mpr hfirst)]
      exact (congrArg (List.flatMap Measured.blocks) (measured_eq_nil hfirst)).symm
    · rw [if_neg (mt hinit.mp hfirst)]
      exact (hbefore hfirst).2

end Spec

/-- **The measurement encoding is injective.** Two sequences of calls, each on an enclave of its own (its record
as a caller hands it over), leave the same hash if and only if they have measured the same; and whenever a call
extends a hash, the fields that it does not set are zero. -/
theorem measurement_injective {enclaveInfo enclaveInfo' : Word} {s s' t t' : Machine}
    {tr tr' : List (Step Machine Event)} (hfits : BlockFits enclaveInfo) (hrun : Run (step enclaveInfo) s tr s')
    (hops : IsSequence (calls tr)) (hfits' : BlockFits enclaveInfo') (hrun' : Run (step enclaveInfo') t tr' t')
    (hops' : IsSequence (calls tr')) :
    ((s'.hash (enclaveHash enclaveInfo)).blocks = (t'.hash (enclaveHash enclaveInfo')).blocks ↔
        measured tr = measured tr') ∧
      ∀ st ∈ tr, ∀ op, st.label = .call op →
        (op.code enclaveInfo).Asks (exec .code) (UnsetZero enclaveInfo op) st.pre := by
  have hne : ∀ {ops}, IsSequence ops → ops ≠ [] := by
    rintro _ ⟨_, _, _, _, middle, last, rfl, -⟩
    simp
  constructor
  · rw [(encodes hfits hrun hops.initFirst (hne hops)).2, (encodes hfits' hrun' hops'.initFirst (hne hops')).2]
    exact Measured.prefixCode_blocks.flatMap_injective.eq_iff
  · intro st hst op hop
    obtain ⟨p, q, rfl⟩ := List.append_of_mem hst
    have hcalls : calls (p ++ st :: q) = calls p ++ [op] ++ calls q := by
      rw [calls, List.filterMap_append, List.filterMap_cons_some (b := op) (by rw [hop]; rfl), List.append_assoc]
      rfl
    have hinit : InitFirst (calls p ++ [op]) := InitFirst.of_append (hcalls ▸ hops.initFirst)
    refine Op.asks_code hfits fun hop' => (encodes hfits hrun.split.1 hinit.of_append fun hp => ?_).1
    rw [hinit.isInit_iff.mpr hp] at hop'
    exact absurd hop' (by decide)

/-- An enclave with a page table is measured differently if the table's entry grants more. -/
theorem measurement_of_acl : ∃ (tr tr' : List (Step Machine Event)) (s' t' : Machine),
    Run (step 0x1000) blankMachine tr s' ∧ calls tr = [.init 0 0 0 false, .pageTable 0 0 1] ∧
      Run (step 0x1000) blankMachine tr' t' ∧ calls tr' = [.init 0 0 0 false, .pageTable 0 0 3] ∧
        (s'.hash (enclaveHash 0x1000)).blocks ≠ (t'.hash (enclaveHash 0x1000)).blocks := by
  have hfits : BlockFits 0x1000 := blockFits_of_isPageAligned (by decide)
  obtain ⟨s₁, hinit, hclean, -⟩ := (Op.init 0 0 0 false).exists_run blankMachine hfits (by simp [Op.isInit])
  obtain ⟨s₂, hread, -⟩ := (Op.pageTable 0 0 1).exists_run s₁ hfits fun _ => hclean
  obtain ⟨t₂, hwrite, -⟩ := (Op.pageTable 0 0 3).exists_run s₁ hfits fun _ => hclean
  have hrun : Run (step 0x1000) blankMachine [⟨_, .call _, _⟩, ⟨_, .call _, _⟩] s₂ :=
    .snoc (.snoc .nil hinit) hread
  have hrun' : Run (step 0x1000) blankMachine [⟨_, .call _, _⟩, ⟨_, .call _, _⟩] t₂ :=
    .snoc (.snoc .nil hinit) hwrite
  refine ⟨_, _, s₂, t₂, hrun, rfl, hrun', rfl, fun heq => ?_⟩
  have hsame := (measurement_injective
    hfits hrun ⟨0, 0, 0, false, [.pageTable 0 0 1], [], rfl, by simp [Op.isInit], .inl rfl⟩
    hfits hrun' ⟨0, 0, 0, false, [.pageTable 0 0 3], [], rfl, by simp [Op.isInit], .inl rfl⟩).1.mp heq
  exact absurd hsame (by simp [measured, Event.op?, Op.measured])

end Measurement

end Sanctum
