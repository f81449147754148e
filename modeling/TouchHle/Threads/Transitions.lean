import TouchHle.Threads.Scheduler

namespace TouchHle.Threads

open Lib Relation

def Mutex.heldBy (mutex : Mutex) (thread : ℕ) : Prop := ∃ lock ∈ mutex.locked, lock.thread = thread

structure Mutex.ActedOn (thread : ℕ) (mutex mutex' : Mutex) : Prop where
  waitingCount : mutex'.waitingCount = mutex.waitingCount
  phantomLocks : ∀ u, u ≠ thread → mutex'.phantomLocks u = mutex.phantomLocks u
  heldBy : ∀ u, u ≠ thread → mutex'.heldBy u → mutex.heldBy u

inductive Change
  | memory
  | semaphores
  | newMutex
  | mutex
  | destroyMutex (mutexId : ℕ)
  | newCond (cond : ℕ)
  | dropCond (cond : ℕ)
  | wake (cond : ℕ)
  | await (cond : ℕ)

namespace Env

inductive Changes : Env → Change → Env → Prop
  | memory {env : Env} (words : ℕ → UInt32) (errno : ℕ → ℤ) :
    Changes env .memory { env with words, errno }
  | semaphores {env : Env} (sems : Semaphores) :
    Changes env .semaphores { env with semaphores := sems }
  | newMutex {env : Env} (type : MutexType) (count_lt : env.mutexCount + 1 < u64Bound) :
    Changes env .newMutex
      { env.setMutex env.mutexCount (.new type) with mutexCount := env.mutexCount + 1 }
  | mutex {env : Env} {mutexId : ℕ} {mutex mutex' : Mutex} (found : env.mutexes mutexId = some mutex)
    (acted : Mutex.ActedOn env.current mutex mutex') :
    Changes env .mutex (env.setMutex mutexId mutex')
  | destroyMutex {env : Env} {mutexId : ℕ} {mutex : Mutex}
    (found : env.mutexes mutexId = some mutex) (unlocked : mutex.locked = none)
    (waitingCount : mutex.waitingCount = 0) :
    Changes env (.destroyMutex mutexId)
      { env with mutexes := Function.update env.mutexes mutexId none }
  | newCond {env : Env} (cond : ℕ) : Changes env (.newCond cond) (env.setCond cond .new)
  | dropCond {env : Env} {cond : ℕ} {object : CondHostObject} (found : env.conds cond = some object)
    (waiting : object.waiting = []) (waking : object.waking = []) :
    Changes env (.dropCond cond) { env with conds := Function.update env.conds cond none }
  | wake {env : Env} {cond : ℕ} {object : CondHostObject} (found : env.conds cond = some object)
    (count : ℕ) : Changes env (.wake cond) (env.setCond cond (object.wake count))

inductive Blocks (env : Env) : Env → Prop
  | onMutex {mutexId : ℕ} {mutex : Mutex} {lock : Lock} (found : env.mutexes mutexId = some mutex)
    (locked : mutex.locked = some lock) (other : lock.thread ≠ env.current) :
    Blocks env
      ((env.setMutex mutexId { mutex with waitingCount := mutex.waitingCount + 1 }).suspend
        (.mutex mutexId) (some .lock))
  | onSemaphore {sem hostSem : ℕ} (isOpen : env.semaphores.openSemaphores sem = some hostSem)
    (sems : Semaphores) :
    Blocks env
      (suspend { env with semaphores := sems } (.semaphore sem) (some (.semWait sem hostSem)))
  | sleeping (due : ℕ) : Blocks env (env.suspend (.sleeping due) (some .other))
  | guestSleeping (due : ℕ) : Blocks env (env.suspend (.guestSleeping due) (some .other))
  | joining {joinee : ℕ} (joinee_lt : joinee < env.threadCount) :
    Blocks env (env.suspend (.joining joinee) (some .other))

inductive Waits (env : Env) (cond : ℕ) : Env → Prop
  | mk {mutexId : ℕ} {object : CondHostObject} (deadline : Option ℕ)
    (found : env.conds cond = some object)
    (same : object.currMutex = some mutexId ∨ object.waking = [] ∧ object.waiting = []) :
    Waits env cond
      ((env.setCond cond
        { object with
          currMutex := some mutexId, waiting := object.waiting ++ [env.current] }).suspend
        (.condition cond deadline) (some (waitCall cond mutexId deadline)))

def Path (allowed : Change → Prop) : Env → Env → Prop :=
  ReflTransGen fun e e' => ∃ c, allowed c ∧ e.Changes c e'

def Effect (allowed : Change → Prop) (env env' : Env) : Prop :=
  ∃ e, Path allowed env e ∧
    (env' = e ∨ e.Blocks env' ∨ ∃ cond, allowed (.await cond) ∧ e.Waits cond env')

variable {allowed allowed' : Change → Prop} {env env' e e' : Env}

lemma Changes.path {c : Change} (h : env.Changes c env') (hc : allowed c) : Path allowed env env' :=
  .single ⟨c, hc, h⟩

lemma Path.effect (h : Path allowed env env') : Effect allowed env env' := ⟨env', h, .inl rfl⟩

lemma Blocks.effect (h : env.Blocks env') : Effect allowed env env' := ⟨env, .refl, .inr (.inl h)⟩

lemma Waits.effect {cond : ℕ} (h : env.Waits cond env') (hc : allowed (.await cond)) :
    Effect allowed env env' := ⟨env, .refl, .inr (.inr ⟨cond, hc, h⟩)⟩

lemma Path.trans (h : Path allowed env e) (h' : Path allowed e env') : Path allowed env env' :=
  ReflTransGen.trans h h'

lemma Path.then (h : Path allowed env e) (h' : Effect allowed e env') : Effect allowed env env' := by
  obtain ⟨e', hpath, hlast⟩ := h'
  exact ⟨e', h.trans hpath, hlast⟩

structure SameThreads (env env' : Env) : Prop where
  threads : env'.threads = env.threads
  threadCount : env'.threadCount = env.threadCount
  current : env'.current = env.current
  scan : env'.scan = env.scan

lemma Changes.sameThreads {c : Change} (h : env.Changes c env') : SameThreads env env' := by
  cases h <;> exact ⟨rfl, rfl, rfl, rfl⟩

lemma SameThreads.trans (h : SameThreads env e) (h' : SameThreads e env') : SameThreads env env' :=
  ⟨h'.threads.trans h.threads, h'.threadCount.trans h.threadCount, h'.current.trans h.current,
    h'.scan.trans h.scan⟩

lemma Path.sameThreads (h : Path allowed env env') : SameThreads env env' := by
  induction h with
  | refl => exact ⟨rfl, rfl, rfl, rfl⟩
  | tail _ h ih =>
    obtain ⟨c, -, h⟩ := h
    exact ih.trans h.sameThreads

theorem Path.preserves {I : Env → Prop}
    (hchange : ∀ e c e', SameThreads env e → allowed c → e.Changes c e' → I e → I e')
    (h : Path allowed env env') (hI : I env) : I env' := by
  induction h with
  | refl => exact hI
  | tail hpath h ih =>
    obtain ⟨c, hc, h⟩ := h
    exact hchange _ c _ (Path.sameThreads hpath) hc h ih

theorem Effect.preserves {I : Env → Prop} (h : Effect allowed env env') (hI : I env)
    (hchange : ∀ e c e', SameThreads env e → allowed c → e.Changes c e' → I e → I e')
    (hblock : ∀ e e', SameThreads env e → e.Blocks e' → I e → I e')
    (hwait : ∀ e cond e', SameThreads env e → allowed (.await cond) → e.Waits cond e' → I e →
      I e') : I env' := by
  obtain ⟨e, hpath, hlast⟩ := h
  have he := hpath.preserves hchange hI
  obtain rfl | hlast | ⟨cond, hcond, hlast⟩ := hlast
  · exact he
  · exact hblock e env' hpath.sameThreads hlast he
  · exact hwait e cond env' hpath.sameThreads hcond hlast he

end Env

namespace Mutex

variable {mutex : Mutex} {thread u : ℕ}

@[simp] lemma heldBy_lockedOnceBy : (mutex.lockedOnceBy thread).heldBy u ↔ u = thread := by
  simp [heldBy, lockedOnceBy, Lock.once, eq_comm]

@[simp] lemma not_heldBy_released : ¬ mutex.released.heldBy u := by simp [heldBy, released]

lemma actedOn_lockedOnceBy : ActedOn thread mutex (mutex.lockedOnceBy thread) :=
  ⟨rfl, fun _ _ => rfl, fun _ hu hheld => absurd (heldBy_lockedOnceBy.mp hheld) hu⟩

lemma actedOn_released : ActedOn thread mutex mutex.released :=
  ⟨rfl, fun _ _ => rfl, fun _ _ hheld => absurd hheld not_heldBy_released⟩

lemma actedOn_lockedAs {lock lock' : Lock} (h : mutex.locked = some lock)
    (hthread : lock'.thread = lock.thread) (htype : mutex.type = .recursive) :
    ActedOn thread mutex (mutex.lockedAs lock' htype) := by
  refine ⟨rfl, fun _ _ => rfl, fun u _ hheld => ?_⟩
  obtain ⟨l, hl, rfl⟩ := hheld
  obtain rfl := Option.some.inj hl
  exact ⟨lock, h, hthread.symm⟩

lemma actedOn_setPhantomLocks (count : ℕ) :
    ActedOn thread mutex (mutex.setPhantomLocks thread count) :=
  ⟨rfl, fun _ hu => Function.update_of_ne hu _ _, fun _ _ hheld => hheld⟩

inductive Locked (thread : ℕ) (mutex : Mutex) : Mutex → Prop
  | first (locked : mutex.locked = none) : Locked thread mutex (mutex.lockedOnceBy thread)
  | phantom {lock : Lock} (locked : mutex.locked = some lock) (owner : lock.thread = thread)
    (type : mutex.type = .normal) :
    Locked thread mutex (mutex.setPhantomLocks thread (mutex.phantomLocks thread + 1))
  | again {lock lock' : Lock} (locked : mutex.locked = some lock) (owner : lock.thread = thread)
    (type : mutex.type = .recursive) (same : lock'.thread = lock.thread)
    (count : lock'.count = lock.count + 1) : Locked thread mutex (mutex.lockedAs lock' type)

/-- A thread unlocks a mutex: it gives back a phantom lock, or the last of its locks or, for a
normal mutex, another thread's, or one of several. -/
inductive Unlocked (thread : ℕ) (mutex : Mutex) : Mutex → Prop
  | phantom (pos : 0 < mutex.phantomLocks thread) :
    Unlocked thread mutex (mutex.setPhantomLocks thread (mutex.phantomLocks thread - 1))
  | released {lock : Lock} (none : mutex.phantomLocks thread = 0) (locked : mutex.locked = some lock)
    (count : lock.count = 1) (owner : lock.thread = thread ∨ mutex.type = .normal) :
    Unlocked thread mutex mutex.released
  | nested {lock lock' : Lock} (none : mutex.phantomLocks thread = 0)
    (locked : mutex.locked = some lock) (owner : lock.thread = thread)
    (type : mutex.type = .recursive) (same : lock'.thread = lock.thread)
    (count : lock'.count + 1 = lock.count) : Unlocked thread mutex (mutex.lockedAs lock' type)

variable {mutex' : Mutex}

lemma Locked.actedOn (h : mutex.Locked thread mutex') : ActedOn thread mutex mutex' := by
  cases h with
  | first => exact actedOn_lockedOnceBy
  | phantom => exact actedOn_setPhantomLocks _
  | again hlocked _ htype hsame => exact actedOn_lockedAs hlocked hsame htype

lemma Unlocked.actedOn (h : mutex.Unlocked thread mutex') : ActedOn thread mutex mutex' := by
  cases h with
  | phantom => exact actedOn_setPhantomLocks _
  | released => exact actedOn_released
  | nested _ hlocked _ htype hsame => exact actedOn_lockedAs hlocked hsame htype

end Mutex

namespace Env

variable {env env' : Env} {allowed : Change → Prop} {ptr mutexId : ℕ} {r : Option ℤ}

section Memory

lemma changes_writeWords (object : List UInt32) :
    env.Changes .memory (env.writeWords ptr object) := by
  unfold writeWords
  split
  · exact .memory env.words env.errno
  · exact .memory _ env.errno

lemma changes_setErrno (val : ℤ) : env.Changes .memory (env.setErrno val) := .memory env.words _

lemma readWord_writeWords {object : List UInt32} {i : ℕ} {word : UInt32}
    (hp : env.nullSegmentSize ≤ ptr) (hi : object[i]? = some word) :
    (env.writeWords ptr object).readWord ptr (4 * i) = word := by
  have hnull : ¬ ptr < env.nullSegmentSize := by omega
  simp [readWord, writeWords, hnull, List.getD_eq_getElem?_getD, hi]

lemma readMutexId_writeMutex {magic : UInt32} (hp : env.nullSegmentSize ≤ ptr)
    (hid : mutexId < u64Bound) : (env.writeMutex ptr magic mutexId).readMutexId ptr = mutexId := by
  unfold readMutexId writeMutex
  rw [readWord_writeWords (i := 1) hp rfl, readWord_writeWords (i := 2) hp rfl]
  simp only [u64Bound] at hid
  simp only [UInt32.toNat_ofNat']
  omega

lemma nullSegmentSize_le_of_readWord {offset : ℕ} (h : env.readWord ptr offset ≠ 0) :
    env.nullSegmentSize ≤ ptr := by
  by_contra hp
  exact h (if_pos (not_le.mp hp))

end Memory

section Mutex

lemma newMutexAt_eq_ok {magic : UInt32} {type : MutexType} :
    env.newMutexAt ptr magic type = .ok env' ↔ env.mutexCount + 1 < u64Bound ∧
      env' = writeMutex
        { env.setMutex env.mutexCount (.new type) with mutexCount := env.mutexCount + 1 }
        ptr magic env.mutexCount := by
  unfold newMutexAt initMutex
  split_ifs with h
  · simp [h, eq_comm]
  · simp [h]

lemma path_newMutexAt {magic : UInt32} {type : MutexType}
    (h : env.newMutexAt ptr magic type = .ok env') (hm : allowed .memory) (hn : allowed .newMutex) :
    Path allowed env env' := by
  obtain ⟨hcount, rfl⟩ := newMutexAt_eq_ok.mp h
  exact ((Changes.newMutex type hcount).path hn).trans ((changes_writeWords _).path hm)

lemma checkOrRegister_eq_ok {magic static : UInt32} {e : Env} :
    env.checkOrRegister ptr magic static = .ok (.ok e) ↔
      env.readWord ptr 0 = static ∧ env.newMutexAt ptr magic pthreadMutexDefault = .ok e ∨
      env.readWord ptr 0 ≠ static ∧ env.readWord ptr 0 = magic ∧ e = env := by
  unfold checkOrRegister
  split_ifs with hs hm
  · simp [hs, map_eq_ok]
  · have hne : magic ≠ static := hm ▸ hs
    simp [hm, hne, eq_comm]
  · simp [hs, hm]

lemma checkOrRegister_error {magic static : UInt32} {e : ℤ}
    (h : env.checkOrRegister ptr magic static = .ok (.error e)) : e = EINVAL := by
  unfold checkOrRegister at h
  split_ifs at h
  · simp [map_eq_ok] at h
  · simp at h
  · simpa [eq_comm] using h

lemma mutexes_writeWords {object : List UInt32} :
    (env.writeWords ptr object).mutexes = env.mutexes ∧
      (env.writeWords ptr object).mutexCount = env.mutexCount := by
  unfold writeWords
  split <;> exact ⟨rfl, rfl⟩

lemma checkOrRegister_cases {magic static : UInt32} {e : Env} (hs : static ≠ 0)
    (h : env.checkOrRegister ptr magic static = .ok (.ok e)) :
    (env.readWord ptr 0 = static ∧ e.readMutexId ptr = env.mutexCount ∧
      e.mutexes =
        Function.update env.mutexes env.mutexCount (some (.new pthreadMutexDefault)) ∧
      e.mutexCount = env.mutexCount + 1) ∨
    env.readWord ptr 0 ≠ static ∧ env.readWord ptr 0 = magic ∧ e = env := by
  obtain ⟨hword, h⟩ | h := checkOrRegister_eq_ok.mp h
  · obtain ⟨hcount, rfl⟩ := newMutexAt_eq_ok.mp h
    have hnull := nullSegmentSize_le_of_readWord (hword ▸ hs)
    exact .inl ⟨hword, readMutexId_writeMutex hnull (by omega), mutexes_writeWords.1,
      mutexes_writeWords.2⟩
  · exact .inr h

lemma readMutexId_of_checkOrRegister {magic static : UInt32} {e : Env} (hs : static ≠ 0)
    (h : env.checkOrRegister ptr magic static = .ok (.ok e)) :
    e.readMutexId ptr = env.mutexCount ∨
      env.readWord ptr 0 = magic ∧ e.readMutexId ptr = env.readMutexId ptr := by
  obtain ⟨-, hid, -⟩ | ⟨-, hword, rfl⟩ := checkOrRegister_cases hs h
  · exact .inl hid
  · exact .inr ⟨hword, rfl⟩

lemma path_checkOrRegister {magic static : UInt32} {e : Env}
    (h : env.checkOrRegister ptr magic static = .ok (.ok e)) (hm : allowed .memory)
    (hn : allowed .newMutex) : Path allowed env e := by
  obtain ⟨-, h⟩ | ⟨-, -, rfl⟩ := checkOrRegister_eq_ok.mp h
  · exact path_newMutexAt h hm hn
  · exact .refl

lemma effect_onMutex {magic static : UInt32} {operation : Env → ℕ → Checked (Option ℤ × Env)}
    (h : env.onMutex ptr magic static operation = .ok (r, env')) (hm : allowed .memory)
    (hn : allowed .newMutex)
    (hop : ∀ e, env.checkOrRegister ptr magic static = .ok (.ok e) →
      operation e (e.readMutexId ptr) = .ok (r, env') → Effect allowed e env') :
    Effect allowed env env' := by
  obtain ⟨checked, hcheck, h⟩ := bind_eq_ok.mp h
  cases checked with
  | error err =>
    obtain ⟨-, rfl⟩ := ok_pair_inj h
    exact Path.effect .refl
  | ok e => exact (path_checkOrRegister hcheck hm hn).then (hop e hcheck h)

lemma yieldThread_eq_ok {threadBlock : ThreadBlock} {hostCall : Option HostCall} :
    env.yieldThread threadBlock hostCall = .ok env' ↔
      ¬ (env.threads env.current).isBlocked ∧ env' = env.suspend threadBlock hostCall := by
  unfold yieldThread
  by_cases hb : (env.threads env.current).isBlocked
  · simp [assert, hb]
  · simp [hb, eq_comm]

lemma lockMutex_cases {result : Option (Except ℤ ℕ)}
    (h : env.lockMutex mutexId = .ok (result, env')) :
    ∃ mutex, env.mutexes mutexId = some mutex ∧
      ((∃ n mutex', result = some (.ok n) ∧ mutex.Locked env.current mutex' ∧
        env' = env.setMutex mutexId mutex') ∨
      (result = some (.error EDEADLK) ∧ env' = env) ∨
      (result = none ∧ ∃ lock, mutex.locked = some lock ∧ lock.thread ≠ env.current ∧
        env' = (env.setMutex mutexId { mutex with waitingCount := mutex.waitingCount + 1 }).suspend
          (.mutex mutexId) (some .lock))) := by
  obtain ⟨mutex, hmutex, h⟩ := bind_eq_ok.mp h
  refine ⟨mutex, unwrap_eq_ok.mp hmutex, ?_⟩
  split at h
  · next hlocked =>
    obtain ⟨rfl, rfl⟩ := ok_pair_inj h
    exact .inl ⟨1, _, rfl, .first hlocked, rfl⟩
  · next lock hlocked =>
    split at h
    · next hthread =>
      split at h
      · next htype =>
        obtain ⟨count, hcount, h⟩ := bind_eq_ok.mp h
        obtain ⟨rfl, rfl⟩ := ok_pair_inj h
        obtain ⟨-, rfl⟩ := addU32_eq_ok.mp hcount
        exact .inl ⟨1, _, rfl, .phantom hlocked hthread htype, rfl⟩
      · obtain ⟨rfl, rfl⟩ := ok_pair_inj h
        exact .inr (.inl ⟨rfl, rfl⟩)
      · next htype =>
        obtain ⟨lock', hagain, h⟩ := bind_eq_ok.mp h
        obtain ⟨rfl, rfl⟩ := ok_pair_inj h
        unfold Lock.again at hagain
        split_ifs at hagain
        obtain rfl := Except.ok.inj hagain
        refine .inl ⟨_, _, rfl, .again hlocked hthread htype ?_ ?_, rfl⟩ <;> rfl
    · next hother =>
      obtain ⟨waitingCount, hcount, h⟩ := bind_eq_ok.mp h
      obtain ⟨e, hyield, h⟩ := bind_eq_ok.mp h
      obtain ⟨rfl, rfl⟩ := ok_pair_inj h
      obtain ⟨-, rfl⟩ := yieldThread_eq_ok.mp hyield
      obtain ⟨-, rfl⟩ := addU32_eq_ok.mp hcount
      exact .inr (.inr ⟨rfl, lock, hlocked, hother, rfl⟩)

lemma unlockMutex_cases {result : Except ℤ ℕ}
    (h : env.unlockMutex mutexId = .ok (result, env')) :
    ∃ mutex, env.mutexes mutexId = some mutex ∧
      ((∃ n mutex', result = .ok n ∧ mutex.Unlocked env.current mutex' ∧
        env' = env.setMutex mutexId mutex') ∨
      (result = .error EPERM ∧ env' = env)) := by
  obtain ⟨mutex, hmutex, h⟩ := bind_eq_ok.mp h
  refine ⟨mutex, unwrap_eq_ok.mp hmutex, ?_⟩
  simp only at h
  split at h
  · next hphantom =>
    obtain ⟨rfl, rfl⟩ := ok_pair_inj h
    exact .inl ⟨0, _, rfl, .phantom hphantom, rfl⟩
  · next hphantom =>
    have hzero : mutex.phantomLocks env.current = 0 := by omega
    split at h
    · obtain ⟨rfl, rfl⟩ := ok_pair_inj h
      exact .inr ⟨rfl, rfl⟩
    · next lock hlocked =>
      split_ifs at h with hown hone htype
      · obtain ⟨rfl, rfl⟩ := ok_pair_inj h
        exact .inr ⟨rfl, rfl⟩
      · obtain ⟨rfl, rfl⟩ := ok_pair_inj h
        have howner : lock.thread = env.current ∨ mutex.type = .normal := by
          by_contra hnot
          exact hown (not_or.mp hnot)
        exact .inl ⟨0, _, rfl, .released hzero hlocked hone howner, rfl⟩
      · obtain ⟨lock', hless, h⟩ := bind_eq_ok.mp h
        obtain ⟨rfl, rfl⟩ := ok_pair_inj h
        unfold Lock.onceLess at hless
        split_ifs at hless with hpos
        obtain rfl := Except.ok.inj hless
        have howner : lock.thread = env.current := by
          by_contra hnot
          exact hown ⟨hnot, by rw [htype]; simp⟩
        refine .inl ⟨_, _, rfl, .nested hzero hlocked howner htype ?_ ?_, rfl⟩
        · rfl
        · have hcount := lock.count_pos
          dsimp only
          omega

lemma effect_lockMutex {result : Option (Except ℤ ℕ)} (hm : allowed .mutex)
    (h : env.lockMutex mutexId = .ok (result, env')) : Effect allowed env env' := by
  obtain ⟨mutex, hfound, ⟨n, mutex', -, hlocked, rfl⟩ | ⟨-, rfl⟩ |
    ⟨-, lock, hlocked, hother, rfl⟩⟩ := lockMutex_cases h
  · exact ((Changes.mutex hfound hlocked.actedOn).path hm).effect
  · exact Path.effect .refl
  · exact (Blocks.onMutex hfound hlocked hother).effect

lemma path_unlockMutex {result : Except ℤ ℕ} (hm : allowed .mutex)
    (h : env.unlockMutex mutexId = .ok (result, env')) : Path allowed env env' := by
  obtain ⟨mutex, hfound, ⟨n, mutex', -, hunlocked, rfl⟩ | ⟨-, rfl⟩⟩ := unlockMutex_cases h
  · exact (Changes.mutex hfound hunlocked.actedOn).path hm
  · exact .refl

lemma path_destroyMutex {result : Except ℤ Unit} (hd : allowed (.destroyMutex mutexId))
    (h : env.destroyMutex mutexId = .ok (result, env')) : Path allowed env env' := by
  obtain ⟨mutex, hmutex, h⟩ := bind_eq_ok.mp h
  have hfound := unwrap_eq_ok.mp hmutex
  split_ifs at h with hlocked hcount
  · obtain ⟨-, rfl⟩ := ok_pair_inj h
    exact .refl
  · obtain ⟨-, rfl⟩ := ok_pair_inj h
    exact .refl
  · obtain ⟨-, rfl⟩ := ok_pair_inj h
    exact (Changes.destroyMutex hfound (not_not.mp hlocked) (not_not.mp hcount)).path hd

lemma effect_lockInner (hm : allowed .mutex) (h : env.lockInner mutexId = .ok (r, env')) :
    Effect allowed env env' := by
  obtain ⟨⟨result, e⟩, hlock, h⟩ := bind_eq_ok.mp h
  obtain ⟨-, rfl⟩ := ok_pair_inj h
  exact effect_lockMutex hm hlock

lemma path_unlockInner (hm : allowed .mutex) (h : env.unlockInner mutexId = .ok (r, env')) :
    Path allowed env env' := by
  obtain ⟨⟨result, e⟩, hunlock, h⟩ := bind_eq_ok.mp h
  obtain ⟨-, rfl⟩ := ok_pair_inj h
  exact path_unlockMutex hm hunlock

lemma path_destroyInner (hd : allowed (.destroyMutex mutexId))
    (h : env.destroyInner mutexId = .ok (r, env')) : Path allowed env env' := by
  obtain ⟨⟨result, e⟩, hdestroy, h⟩ := bind_eq_ok.mp h
  obtain ⟨-, rfl⟩ := ok_pair_inj h
  exact path_destroyMutex hd hdestroy

lemma effect_initMutexAt {magic : UInt32} {type : MutexType} (hm : allowed .memory)
    (hn : allowed .newMutex)
    (h : (env.newMutexAt ptr magic type >>= fun e => (pure (some 0, e) : Checked _)) =
      .ok (r, env')) : Effect allowed env env' := by
  obtain ⟨e, hnew, h⟩ := bind_eq_ok.mp h
  obtain ⟨-, rfl⟩ := ok_pair_inj h
  exact (path_newMutexAt hnew hm hn).effect

lemma effect_pthreadMutexLock (hm : allowed .memory) (hn : allowed .newMutex)
    (hx : allowed .mutex) (h : env.pthreadMutexLock ptr = .ok (r, env')) :
    Effect allowed env env' :=
  effect_onMutex h hm hn fun _ _ => effect_lockInner hx

lemma effect_pthreadMutexTrylock (hm : allowed .memory) (hn : allowed .newMutex)
    (hx : allowed .mutex) (h : env.pthreadMutexTrylock ptr = .ok (r, env')) :
    Effect allowed env env' := by
  refine effect_onMutex h hm hn fun e _ hop => ?_
  split at hop
  · obtain ⟨-, rfl⟩ := ok_pair_inj hop
    exact Path.effect .refl
  · exact effect_pthreadMutexLock hm hn hx hop

lemma path_pthreadMutexUnlock (hm : allowed .memory) (hn : allowed .newMutex)
    (hx : allowed .mutex) (h : env.pthreadMutexUnlock ptr = .ok (r, env')) :
    Path allowed env env' := by
  obtain ⟨checked, hcheck, h⟩ := bind_eq_ok.mp h
  cases checked with
  | error err =>
    obtain ⟨-, rfl⟩ := ok_pair_inj h
    exact .refl
  | ok e => exact (path_checkOrRegister hcheck hm hn).trans (path_unlockInner hx h)

def Names (env : Env) (ptr : ℕ) (magic : UInt32) (mutexId : ℕ) : Prop :=
  mutexId = env.mutexCount ∨ env.readWord ptr 0 = magic ∧ mutexId = env.readMutexId ptr

lemma effect_destroyAt {magic static : UInt32} (hs : static ≠ 0) (hm : allowed .memory)
    (hn : allowed .newMutex) (hd : ∀ id, env.Names ptr magic id → allowed (.destroyMutex id))
    (h : env.onMutex ptr magic static
      (fun env mutexId => (env.writeMutex ptr 0 noMutexId).destroyInner mutexId) = .ok (r, env')) :
    Effect allowed env env' := by
  refine effect_onMutex h hm hn fun e he hop => ?_
  have hpath : Path allowed e (e.writeMutex ptr 0 noMutexId) := (changes_writeWords _).path hm
  exact (hpath.trans (path_destroyInner (hd _ (readMutexId_of_checkOrRegister hs he)) hop)).effect

lemma effect_rwlockTrylockInner (hm : allowed .memory) (hn : allowed .newMutex)
    (hx : allowed .mutex) (h : env.rwlockTrylockInner ptr = .ok (r, env')) :
    Effect allowed env env' := by
  refine effect_onMutex h hm hn fun e _ hop => ?_
  split at hop
  · obtain ⟨-, rfl⟩ := ok_pair_inj hop
    exact Path.effect .refl
  · exact effect_lockInner hx hop

end Mutex

section Cond

variable {cond mutex : ℕ} {deadline : Option ℕ} {e : Env}

lemma path_pthreadCondInit (hm : allowed .memory) (hn : allowed (.newCond cond)) :
    Path allowed env (env.pthreadCondInit cond) :=
  ((changes_writeWords _).path hm).trans ((Changes.newCond cond).path hn)

lemma path_checkOrRegisterCond (h : env.checkOrRegisterCond cond = .ok e) (hm : allowed .memory)
    (hn : env.readWord cond 0 = magicCondStatic → allowed (.newCond cond)) :
    Path allowed env e := by
  unfold checkOrRegisterCond at h
  split_ifs at h with hs
  · obtain rfl := Except.ok.inj h
    exact path_pthreadCondInit hm (hn hs)
  · obtain rfl := Except.ok.inj h
    exact .refl

lemma mutexes_checkOrRegisterCond (h : env.checkOrRegisterCond cond = .ok e) :
    e.mutexes = env.mutexes := by
  unfold checkOrRegisterCond at h
  split_ifs at h with hs
  · obtain rfl := Except.ok.inj h
    exact mutexes_writeWords.1
  · obtain rfl := Except.ok.inj h
    rfl

lemma checkOrRegisterCond_error {err : ℤ} (h : env.checkOrRegisterCond cond = .error err) :
    err = EINVAL := by
  unfold checkOrRegisterCond at h
  split_ifs at h
  exact (Except.error.inj h).symm

lemma waitOnCond_eq_ok :
    env.waitOnCond cond mutexId deadline = .ok (r, env') ↔ ∃ object, env.conds cond = some object ∧
      (object.currMutex = some mutexId ∨ object.waking = [] ∧ object.waiting = []) ∧
      ¬ (env.threads env.current).isBlocked ∧ r = none ∧
      env' = (env.setCond cond
        { object with
          currMutex := some mutexId, waiting := object.waiting ++ [env.current] }).suspend
        (.condition cond deadline) (some (waitCall cond mutexId deadline)) := by
  simp only [waitOnCond, bind_eq_ok, unwrap_eq_ok, assert_eq_ok, yieldThread_eq_ok, pure_eq_ok,
    Except.ok.injEq, Prod.mk.injEq]
  constructor
  · rintro ⟨object, hobject, -, hsame, e, ⟨hblocked, rfl⟩, rfl, rfl⟩
    exact ⟨object, hobject, hsame, hblocked, rfl, rfl⟩
  · rintro ⟨object, hobject, hsame, hblocked, rfl, rfl⟩
    exact ⟨object, hobject, (), hsame, _, ⟨hblocked, rfl⟩, rfl, rfl⟩

lemma releaseAndWait_cases (h : env.releaseAndWait cond mutex deadline = .ok (r, env')) :
    (env.checkOrRegisterCond cond = .error EINVAL ∧ r = some EINVAL ∧ env' = env) ∨
    ∃ e, env.checkOrRegisterCond cond = .ok e ∧
      ((r ≠ some 0 ∧ e.pthreadMutexUnlock mutex = .ok (r, env')) ∨
      ∃ e₁, e.pthreadMutexUnlock mutex = .ok (some 0, e₁) ∧
        e₁.waitOnCond cond (e₁.readMutexId mutex) deadline = .ok (r, env')) := by
  unfold releaseAndWait at h
  split at h
  · next err hcheck =>
    obtain ⟨rfl, rfl⟩ := ok_pair_inj h
    obtain rfl := checkOrRegisterCond_error hcheck
    exact .inl ⟨hcheck, rfl, rfl⟩
  · next e hcheck =>
    obtain ⟨⟨result, e₁⟩, hunlock, h⟩ := bind_eq_ok.mp h
    refine .inr ⟨e, hcheck, ?_⟩
    simp only at h
    split_ifs at h with hresult
    · obtain ⟨rfl, rfl⟩ := ok_pair_inj h
      exact .inl ⟨hresult, hunlock⟩
    · obtain rfl := not_not.mp hresult
      exact .inr ⟨e₁, hunlock, h⟩

lemma effect_releaseAndWait (hm : allowed .memory) (hn : allowed .newMutex) (hx : allowed .mutex)
    (hc : env.readWord cond 0 = magicCondStatic → allowed (.newCond cond))
    (ha : allowed (.await cond))
    (h : env.releaseAndWait cond mutex deadline = .ok (r, env')) : Effect allowed env env' := by
  obtain ⟨-, -, rfl⟩ | ⟨e, hcheck, h⟩ := releaseAndWait_cases h
  · exact Path.effect .refl
  · have hpath := path_checkOrRegisterCond hcheck hm hc
    obtain ⟨-, hunlock⟩ | ⟨e₁, hunlock, hwait⟩ := h
    · exact (hpath.trans (path_pthreadMutexUnlock hm hn hx hunlock)).effect
    · obtain ⟨object, hobject, hsame, -, -, rfl⟩ := waitOnCond_eq_ok.mp hwait
      exact Path.then (hpath.trans (path_pthreadMutexUnlock hm hn hx hunlock))
        ((Waits.mk deadline hobject hsame).effect ha)

lemma wake_eq_ok (count : CondHostObject → ℕ)
    (h : (unwrap (env.conds cond) >>= fun object =>
      (pure (some 0, env.setCond cond (object.wake (count object))) : Checked _)) = .ok (r, env')) :
    ∃ object, env.conds cond = some object ∧ r = some 0 ∧
      env' = env.setCond cond (object.wake (count object)) := by
  obtain ⟨object, hobject, h⟩ := bind_eq_ok.mp h
  obtain ⟨rfl, rfl⟩ := ok_pair_inj h
  exact ⟨object, unwrap_eq_ok.mp hobject, rfl, rfl⟩

lemma pthreadCondSignal_cases (h : env.pthreadCondSignal cond = .ok (r, env')) :
    (r = some EINVAL ∧ env' = env) ∨
    ∃ e object, env.checkOrRegisterCond cond = .ok e ∧ e.conds cond = some object ∧ r = some 0 ∧
      env' = e.setCond cond (object.wake 1) := by
  unfold pthreadCondSignal at h
  split at h
  · next err hcheck =>
    obtain ⟨rfl, rfl⟩ := ok_pair_inj h
    exact .inl ⟨congrArg some (checkOrRegisterCond_error hcheck), rfl⟩
  · next e hcheck =>
    obtain ⟨object, hobject, rfl, rfl⟩ := wake_eq_ok (fun _ => 1) h
    exact .inr ⟨e, object, hcheck, hobject, rfl, rfl⟩

lemma pthreadCondBroadcast_cases (h : env.pthreadCondBroadcast cond = .ok (r, env')) :
    (r = some EINVAL ∧ env' = env) ∨
    ∃ e object, env.checkOrRegisterCond cond = .ok e ∧ e.conds cond = some object ∧ r = some 0 ∧
      env' = e.setCond cond (object.wake object.waiting.length) := by
  unfold pthreadCondBroadcast at h
  split at h
  · next err hcheck =>
    obtain ⟨rfl, rfl⟩ := ok_pair_inj h
    exact .inl ⟨congrArg some (checkOrRegisterCond_error hcheck), rfl⟩
  · next e hcheck =>
    obtain ⟨object, hobject, rfl, rfl⟩ := wake_eq_ok (fun o => o.waiting.length) h
    exact .inr ⟨e, object, hcheck, hobject, rfl, rfl⟩

lemma pthreadCondDestroy_cases (h : env.pthreadCondDestroy cond = .ok (r, env')) :
    (r = some EINVAL ∧ env' = env) ∨
    ∃ e object, env.checkOrRegisterCond cond = .ok e ∧ e.conds cond = some object ∧
      object.waiting = [] ∧ object.waking = [] ∧ r = some 0 ∧
      env' = { e with conds := Function.update e.conds cond none } := by
  unfold pthreadCondDestroy at h
  split at h
  · next err hcheck =>
    obtain ⟨rfl, rfl⟩ := ok_pair_inj h
    exact .inl ⟨congrArg some (checkOrRegisterCond_error hcheck), rfl⟩
  · next e hcheck =>
    obtain ⟨object, hobject, h⟩ := bind_eq_ok.mp h
    obtain ⟨_, hempty, h⟩ := bind_eq_ok.mp h
    obtain ⟨rfl, rfl⟩ := ok_pair_inj h
    obtain ⟨hwaiting, hwaking⟩ := assert_eq_ok.mp hempty
    exact .inr ⟨e, object, hcheck, unwrap_eq_ok.mp hobject, hwaiting, hwaking, rfl, rfl⟩

end Cond

end Env

end TouchHle.Threads
