import TouchHle.Threads.WaitingCount
import TouchHle.Threads.CondRelease

namespace TouchHle.Threads

open Lib Function

namespace Mutex

variable {mutex mutex' : Mutex} {lock : Lock} {t u : ℕ}

structure Reentrant (mutex : Mutex) : Prop where
  type : mutex.type = .recursive
  phantomLocks : ∀ t, mutex.phantomLocks t = 0

lemma countOf_free (h : mutex.locked = none) : mutex.countOf = fun _ => 0 := by
  funext t
  simp only [countOf, h]

lemma countOf_held (h : mutex.locked = some lock) :
    mutex.countOf = update (fun _ => 0) lock.thread lock.count := by
  funext t
  rw [countOf_of_locked h, update_apply]
  exact if_congr eq_comm rfl rfl

lemma exists_of_countOf (h : 0 < mutex.countOf t) :
    ∃ lock, mutex.locked = some lock ∧ lock.thread = t ∧ lock.count = mutex.countOf t := by
  cases hlocked : mutex.locked with
  | none =>
    rw [countOf_free hlocked] at h
    exact absurd h (lt_irrefl 0)
  | some lock =>
    have hcount := countOf_of_locked hlocked (t := t)
    by_cases hthread : lock.thread = t
    · rw [if_pos hthread] at hcount
      exact ⟨lock, rfl, hthread, hcount.symm⟩
    · rw [hcount, if_neg hthread] at h
      exact absurd h (lt_irrefl 0)

lemma eq_of_countOf (ht : 0 < mutex.countOf t) (hu : 0 < mutex.countOf u) : t = u := by
  obtain ⟨lock, hlocked, rfl, -⟩ := exists_of_countOf ht
  obtain ⟨lock', hlocked', rfl, -⟩ := exists_of_countOf hu
  rw [Option.some.inj (hlocked.symm.trans hlocked')]

lemma exists_countOf (h : mutex.locked = some lock) : 0 < mutex.countOf lock.thread := by
  rw [countOf_of_locked h, if_pos rfl]
  exact lock.count_pos

lemma countOf_lockedOnceBy (h : mutex.locked = none) :
    (mutex.lockedOnceBy t).countOf = update mutex.countOf t (mutex.countOf t + 1) := by
  rw [countOf_free h, countOf_held (show (mutex.lockedOnceBy t).locked = some (.once t) from rfl)]
  rfl

lemma countOf_lockedAs {lock' : Lock} (h : mutex.locked = some lock) (htype : mutex.type = .recursive)
    (hsame : lock'.thread = lock.thread) :
    (mutex.lockedAs lock' htype).countOf = update mutex.countOf lock.thread lock'.count := by
  rw [countOf_held h, countOf_held (show (mutex.lockedAs lock' htype).locked = some lock' from rfl), hsame,
    update_idem]

lemma countOf_released (h : mutex.locked = some lock) :
    mutex.released.countOf = update mutex.countOf lock.thread 0 := by
  rw [countOf_held h, countOf_free (show mutex.released.locked = none from rfl), update_idem]
  exact (update_eq_self lock.thread _).symm

lemma Locked.alone (hl : mutex.Locked t mutex') (hu : 0 < mutex.countOf u) : u = t := by
  obtain ⟨lock, hlocked, rfl, -⟩ := exists_of_countOf hu
  cases hl with
  | first hnone => cases hlocked.symm.trans hnone
  | phantom hsome howner | again hsome howner =>
    obtain rfl := Option.some.inj (hlocked.symm.trans hsome)
    exact howner

lemma Reentrant.locked (h : mutex.Reentrant) (hl : mutex.Locked t mutex') :
    mutex'.Reentrant ∧ mutex'.countOf = update mutex.countOf t (mutex.countOf t + 1) ∧
      mutex'.locked ≠ none := by
  cases hl with
  | first hlocked => exact ⟨⟨h.type, h.phantomLocks⟩, countOf_lockedOnceBy hlocked, by simp [lockedOnceBy]⟩
  | phantom _ _ htype => cases htype.symm.trans h.type
  | again hlocked howner htype hsame hcount =>
    refine ⟨⟨h.type, h.phantomLocks⟩, ?_, by simp [lockedAs]⟩
    rw [countOf_lockedAs hlocked htype hsame, ← howner, countOf_of_locked hlocked, if_pos rfl, hcount]

end Mutex

namespace Env

variable {env : Env} {m : ℕ} {mutex : Mutex}

lemma unlockMutex_outside (hfound : env.mutexes m = some mutex) (h : mutex.Reentrant)
    (hcount : mutex.countOf env.current = 0) : env.unlockMutex m = .ok (.error EPERM, env) := by
  simp only [unlockMutex, hfound, unwrap_some, ok_bind, h.phantomLocks, lt_irrefl, if_false]
  split
  · rfl
  · next lock hlocked =>
    have hother : lock.thread ≠ env.current := by
      intro hthread
      rw [Mutex.countOf_of_locked hlocked, if_pos hthread] at hcount
      exact absurd hcount lock.count_pos.ne'
    rw [if_pos ⟨hother, by rw [h.type]; simp⟩]
    rfl

lemma unlockMutex_last (hfound : env.mutexes m = some mutex) (h : mutex.Reentrant)
    (hcount : mutex.countOf env.current = 1) :
    env.unlockMutex m = .ok (.ok 0, env.setMutex m mutex.released) := by
  obtain ⟨lock, hlocked, hthread, hone⟩ := Mutex.exists_of_countOf (hcount.symm ▸ one_pos)
  simp only [unlockMutex, hfound, unwrap_some, ok_bind, h.phantomLocks, lt_irrefl, if_false, hlocked]
  rw [if_neg (by simp [hthread]), if_pos (hone.trans hcount)]
  rfl

lemma exists_onceLess {lock : Lock} (h : 1 < lock.count) :
    ∃ lock', lock.onceLess = .ok lock' ∧ lock'.thread = lock.thread ∧ lock'.count = lock.count - 1 := by
  have hpos : 0 < lock.count - 1 := by omega
  exact ⟨⟨lock.thread, lock.count - 1, hpos⟩, dif_pos hpos, rfl, rfl⟩

lemma unlockMutex_nested (hfound : env.mutexes m = some mutex) (h : mutex.Reentrant)
    (hcount : 1 < mutex.countOf env.current) :
    ∃ mutex', env.unlockMutex m =
        .ok (.ok (mutex.countOf env.current - 1), env.setMutex m mutex') ∧
      mutex.Unlocked env.current mutex' ∧ mutex'.Reentrant ∧ mutex'.locked ≠ none ∧
      mutex'.countOf =
        update mutex.countOf env.current (mutex.countOf env.current - 1) := by
  obtain ⟨lock, hlocked, hthread, hsame⟩ := Mutex.exists_of_countOf (one_pos.trans hcount)
  have hone : 1 < lock.count := by omega
  obtain ⟨lock', hless, hthread', hcount'⟩ := exists_onceLess hone
  refine ⟨mutex.lockedAs lock' h.type, ?_, ?_, ⟨h.type, h.phantomLocks⟩, by simp [Mutex.lockedAs], ?_⟩
  · simp only [unlockMutex, hfound, unwrap_some, ok_bind, h.phantomLocks, lt_irrefl, if_false, hlocked]
    rw [if_neg (by simp [hthread]), if_neg (by omega), dif_pos h.type, hless, ← hsame, ← hcount']
    rfl
  · apply Mutex.Unlocked.nested (h.phantomLocks _) hlocked hthread h.type hthread'
    omega
  · rw [Mutex.countOf_lockedAs hlocked h.type hthread', hthread, hcount', hsame]

lemma lockMutex_free (hfound : env.mutexes m = some mutex) (hlocked : mutex.locked = none) :
    env.lockMutex m = .ok (some (.ok 1), env.setMutex m (mutex.lockedOnceBy env.current)) := by
  simp only [lockMutex, hfound, unwrap_some, ok_bind]
  split
  · rfl
  · next hsome => cases hlocked.symm.trans hsome

lemma lockMutex_own {lock : Lock} (hfound : env.mutexes m = some mutex) (h : mutex.Reentrant)
    (hlocked : mutex.locked = some lock) (hthread : lock.thread = env.current) :
    env.lockMutex m = (fun lock' : Lock =>
      (some (.ok lock'.count), env.setMutex m (mutex.lockedAs lock' h.type))) <$> lock.again := by
  simp only [lockMutex, hfound, unwrap_some, ok_bind]
  split
  · next hnone => cases hlocked.symm.trans hnone
  · next lock' hsome =>
    obtain rfl := Option.some.inj (hlocked.symm.trans hsome)
    rw [if_pos hthread]
    split
    · next htype => cases htype.symm.trans h.type
    · next htype => cases htype.symm.trans h.type
    · cases lock.again <;> rfl

lemma lockMutex_other {lock : Lock} (hfound : env.mutexes m = some mutex)
    (hlocked : mutex.locked = some lock) (hthread : lock.thread ≠ env.current)
    (hroom : mutex.waitingCount + 1 < u32Bound) (hrunning : ¬ (env.threads env.current).isBlocked) :
    env.lockMutex m = .ok (none,
      (env.setMutex m { mutex with waitingCount := mutex.waitingCount + 1 }).suspend
        (.mutex m) (some .lock)) := by
  simp only [lockMutex, hfound, unwrap_some, ok_bind]
  split
  · next hnone => cases hlocked.symm.trans hnone
  · next lock' hsome =>
    obtain rfl := Option.some.inj (hlocked.symm.trans hsome)
    have hyield : (env.setMutex m { mutex with waitingCount := mutex.waitingCount + 1 }).yieldThread
        (.mutex m) (some .lock) = .ok _ := yieldThread_eq_ok.mpr ⟨hrunning, rfl⟩
    rw [if_neg hthread, addU32_of_lt hroom, ok_bind, hyield]
    rfl

lemma Coherent.waitingOn_lt (hc : env.Coherent) (hscan : env.scan = none) (m : ℕ) :
    env.waitingOn m < env.threadCount := by
  have hrunning := hc.notBlocked hscan
  rw [waitingOn, Nat.count_eq_card_filter_range]
  refine (Finset.card_lt_card (Finset.filter_ssubset.mpr
    ⟨env.current, Finset.mem_range.mpr hc.current_lt, ?_⟩)).trans_eq (Finset.card_range _)
  rw [hrunning]
  simp

lemma lockMutex_ne_error (hfound : env.mutexes m = some mutex) (h : mutex.Reentrant) (e : ℤ)
    (env' : Env) : env.lockMutex m ≠ .ok (some (.error e), env') := by
  intro hlock
  cases hlocked : mutex.locked with
  | none => cases (lockMutex_free hfound hlocked).symm.trans hlock
  | some lock =>
    by_cases hthread : lock.thread = env.current
    · rw [lockMutex_own hfound h hlocked hthread] at hlock
      obtain ⟨lock', -, hlock'⟩ := map_eq_ok.mp hlock
      cases (Prod.mk.inj hlock').1
    · obtain ⟨mutex', hmutex', ⟨n, -, hn, -⟩ | ⟨-, -⟩ | ⟨hn, -⟩⟩ := lockMutex_cases hlock
      · cases hn
      · simp only [lockMutex, hfound, unwrap_some, ok_bind] at hlock
        split at hlock
        · next hnone => cases hlocked.symm.trans hnone
        · next lock' hsome =>
          obtain rfl := Option.some.inj (hlocked.symm.trans hsome)
          rw [if_neg hthread] at hlock
          obtain ⟨_, -, hlock⟩ := bind_eq_ok.mp hlock
          obtain ⟨_, -, hlock⟩ := bind_eq_ok.mp hlock
          cases (ok_pair_inj hlock).1
      · cases hn

end Env

structure SyncEnv where
  env : Env
  syncMutexes : ℕ → Option ℕ

def Call.sparesMutexes : Call → Bool
  | .sleep _ | .sleepGuest _ | .join _ => true
  | c => c.isSem

def Action.sparesMutexes : Action → Bool
  | .call c => c.sparesMutexes
  | _ => true

inductive SyncAction
  | enter (obj : ℕ)
  | exit (obj : ℕ)
  | other (a : Action) (spares : a.sparesMutexes = true)

namespace SyncEnv

def boot (words : ℕ → UInt32) (nullSegmentSize : ℕ) : SyncEnv :=
  ⟨.boot words nullSegmentSize, fun _ => none⟩

def unwrapLock : Option (Except ℤ ℕ) → Checked (Option ℤ)
  | none => return none
  | some (.ok _) => return some 0
  | some (.error _) => .error .unwrap

def objcSyncEnter (s : SyncEnv) (obj : ℕ) : Checked (Option ℤ × SyncEnv) :=
  match s.syncMutexes obj with
  | some mutexId => do
    let (result, env) ← s.env.lockMutex mutexId
    let r ← unwrapLock result
    return (r, { s with env })
  | none => do
    let (mutexId, env) ← s.env.initMutex .recursive
    let (result, env) ← env.lockMutex mutexId
    let r ← unwrapLock result
    return (r, ⟨env, Function.update s.syncMutexes obj (some mutexId)⟩)

def objcSyncExit (s : SyncEnv) (obj : ℕ) : Checked (ℤ × SyncEnv) :=
  match s.syncMutexes obj with
  | some mutexId => do
    let (result, env) ← s.env.unlockMutex mutexId
    match result with
    | .ok lockCount =>
      if lockCount = 0 then
        let (destroyed, env) ← env.destroyMutex mutexId
        match destroyed with
        | .ok () => return (0, ⟨env, Function.update s.syncMutexes obj none⟩)
        | .error _ => return (0, { s with env })
      else return (0, { s with env })
    | .error _ => return (-1, { s with env })
  | none => return (-1, s)

def serve (s : SyncEnv) : SyncAction → Checked (Option ℤ × SyncEnv)
  | .enter obj => if s.env.scan = none then s.objcSyncEnter obj else return (none, s)
  | .exit obj =>
    if s.env.scan = none then Prod.map some id <$> s.objcSyncExit obj else return (none, s)
  | .other a _ => Prod.map id (fun env => { s with env }) <$> s.env.serve a

end SyncEnv

namespace Env

variable {env env' : Env} {allowed : Change → Prop} {r : Option ℤ}

inductive Spares (env : Env) : Env → Prop
  | returns (words : ℕ → UInt32) (errno : ℕ → ℤ) (sems : Semaphores) :
    Spares env { env with words, errno, semaphores := sems }
  | blocks (words : ℕ → UInt32) (errno : ℕ → ℤ) (sems : Semaphores) {b : ThreadBlock}
    {hostCall : HostCall} (block : ∀ mutexId, b ≠ .mutex mutexId)
    (plain : ∀ cond mutexId deadline, hostCall ≠ waitCall cond mutexId deadline) :
    Spares env (suspend { env with words, errno, semaphores := sems } b (some hostCall))

lemma waitCall_ne (cond mutexId : ℕ) (deadline : Option ℕ) :
    HostCall.lock ≠ waitCall cond mutexId deadline ∧
      HostCall.other ≠ waitCall cond mutexId deadline ∧
      ∀ sem hostSem, HostCall.semWait sem hostSem ≠ waitCall cond mutexId deadline := by
  cases deadline <;> simp [waitCall]

lemma spares_of_path (h : Path (fun c => c = .memory ∨ c = .semaphores) env env') :
    Spares env env' := by
  have hpath : ∃ words errno sems, env' = { env with words, errno, semaphores := sems } := by
    refine h.preserves (I := fun e => ∃ words errno sems,
      e = { env with words, errno, semaphores := sems }) (fun e c e' _ hc hchange he => ?_)
      ⟨env.words, env.errno, env.semaphores, rfl⟩
    obtain ⟨words, errno, sems, rfl⟩ := he
    obtain rfl | rfl := hc
    · cases hchange with
      | memory words errno => exact ⟨words, errno, sems, rfl⟩
    · cases hchange with
      | semaphores sems => exact ⟨words, errno, sems, rfl⟩
  obtain ⟨words, errno, sems, rfl⟩ := hpath
  exact .returns words errno sems

lemma spares_sleep {threadBlock : ThreadBlock} (hb : ∀ mutexId, threadBlock ≠ .mutex mutexId)
    (h : env.sleep threadBlock = .ok (r, env')) : Spares env env' := by
  obtain ⟨e, hyield, h⟩ := bind_eq_ok.mp h
  obtain ⟨-, rfl⟩ := ok_pair_inj h
  obtain ⟨-, rfl⟩ := yieldThread_eq_ok.mp hyield
  exact .blocks env.words env.errno env.semaphores hb fun c m d => (waitCall_ne c m d).2.1

lemma spares_semWait {sem : ℕ} (h : env.semWait sem = .ok (r, env')) : Spares env env' := by
  obtain ⟨result, e, hdecrement, ⟨-, -, rfl⟩ | ⟨rfl, -, rfl⟩⟩ := semWait_cases h
  · obtain ⟨-, -, rfl⟩ | ⟨hostSem, -, ⟨-, -, rfl⟩ | ⟨-, ⟨-, -, rfl⟩ | ⟨-, -, rfl⟩⟩⟩ :=
      semDecrement_cases hdecrement
    · exact .returns env.words _ env.semaphores
    · exact .returns env.words _ _
    · exact .blocks env.words _ _ (by simp) fun c m d => (waitCall_ne c m d).2.2 _ _
    · exact .returns env.words _ env.semaphores
  · obtain rfl := semDecrement_failed hdecrement
    exact .returns env.words _ env.semaphores

lemma spares_semTrywait {sem : ℕ} (h : env.semTrywait sem = .ok (r, env')) : Spares env env' := by
  obtain ⟨result, e, hdecrement, ⟨-, -, rfl⟩ | ⟨rfl, -, err, rfl⟩⟩ := semTrywait_cases h
  · obtain ⟨-, -, rfl⟩ | ⟨hostSem, -, ⟨-, -, rfl⟩ | ⟨-, ⟨hwait, -, -⟩ | ⟨-, -, rfl⟩⟩⟩ :=
      semDecrement_cases hdecrement
    · exact .returns env.words _ env.semaphores
    · exact .returns env.words _ _
    · cases hwait
    · exact .returns env.words _ env.semaphores
  · obtain rfl := semDecrement_failed hdecrement
    exact .returns env.words _ env.semaphores

theorem spares_call {c : Call} (hc : c.sparesMutexes = true) (h : env.call c = .ok (r, env')) :
    Spares env env' := by
  have hm : Change.memory = .memory ∨ Change.memory = .semaphores := Or.inl rfl
  have hs : Change.semaphores = .memory ∨ Change.semaphores = .semaphores := Or.inr rfl
  cases c with
  | semInit sem pshared value => exact spares_of_path (path_semInit hm hs h)
  | semDestroy sem => exact spares_of_path (path_semDestroy hs h)
  | semOpen name oflag value sem => exact spares_of_path (path_semOpen hm hs h)
  | semPost sem => exact spares_of_path (path_semPost hm hs h)
  | semWait sem => exact spares_semWait h
  | semTrywait sem => exact spares_semTrywait h
  | semGetvalue sem sval => exact spares_of_path (path_semGetvalue hm h)
  | semClose sem => exact spares_of_path (path_semClose hm hs h)
  | semUnlink name => exact spares_of_path (path_semUnlink hm hs h)
  | sleep due => exact spares_sleep (by simp) h
  | sleepGuest due => exact spares_sleep (by simp) h
  | join joinee =>
    have h : env.joinWithThread joinee = .ok (r, env') := h
    rw [joinWithThread] at h
    split_ifs at h
    exact spares_sleep (by simp) h
  | _ => cases hc

end Env

end TouchHle.Threads
