import TouchHle.Threads.Transitions

namespace TouchHle.Threads

open Lib

namespace Env

variable {env env' : Env} {allowed : Change → Prop} {r : Option ℤ}

section

variable {sem : ℕ}

lemma path_aside (hm : allowed .memory) (hs : allowed .semaphores) (words : ℕ → UInt32)
    (errno : ℕ → ℤ) (sems : Semaphores) :
    Path allowed env { env with words, errno, semaphores := sems } :=
  ((Changes.memory words errno).path hm).trans ((Changes.semaphores sems).path hs)

lemma path_setErrno (hm : allowed .memory) (val : ℤ) : Path allowed env (env.setErrno val) :=
  (changes_setErrno val).path hm

lemma semDecrement_cases {waitOnLock : Bool} {result : Option Bool}
    (h : env.semDecrement sem waitOnLock = .ok (result, env')) :
    (env.semaphores.openSemaphores sem = none ∧ result = some false ∧ env' = env) ∨
    ∃ hostSem, env.semaphores.openSemaphores sem = some hostSem ∧
      ((0 < (env.semaphores.hostSems hostSem).value ∧ result = some true ∧
        env' = env.setHostSem hostSem
          { env.semaphores.hostSems hostSem with
            value := (env.semaphores.hostSems hostSem).value - 1 }) ∨
      (¬ 0 < (env.semaphores.hostSems hostSem).value ∧
        ((waitOnLock = true ∧ result = none ∧
          env' = (env.setHostSem hostSem
            { env.semaphores.hostSems hostSem with
              waiting := insert env.current (env.semaphores.hostSems hostSem).waiting }).suspend
            (.semaphore sem) (some (.semWait sem hostSem))) ∨
        (waitOnLock = false ∧ result = some false ∧ env' = env)))) := by
  unfold semDecrement at h
  split at h
  · next hclosed =>
    obtain ⟨rfl, rfl⟩ := ok_pair_inj h
    exact .inl ⟨hclosed, rfl, rfl⟩
  · next hostSem hopen =>
    refine .inr ⟨hostSem, hopen, ?_⟩
    simp only at h
    split_ifs at h with hvalue hwait
    · obtain ⟨rfl, rfl⟩ := ok_pair_inj h
      exact .inl ⟨hvalue, rfl, rfl⟩
    · obtain ⟨e, hyield, h⟩ := bind_eq_ok.mp h
      obtain ⟨rfl, rfl⟩ := ok_pair_inj h
      obtain ⟨-, rfl⟩ := yieldThread_eq_ok.mp hyield
      exact .inr ⟨hvalue, .inl ⟨hwait, rfl, rfl⟩⟩
    · obtain ⟨rfl, rfl⟩ := ok_pair_inj h
      exact .inr ⟨hvalue, .inr ⟨Bool.eq_false_of_not_eq_true hwait, rfl, rfl⟩⟩

lemma effect_semDecrement {waitOnLock : Bool} {result : Option Bool} (hs : allowed .semaphores)
    (h : env.semDecrement sem waitOnLock = .ok (result, env')) : Effect allowed env env' := by
  obtain ⟨-, -, rfl⟩ | ⟨hostSem, hopen, ⟨-, -, rfl⟩ | ⟨-, ⟨-, -, rfl⟩ | ⟨-, -, rfl⟩⟩⟩ :=
    semDecrement_cases h
  · exact Path.effect .refl
  · exact ((Changes.semaphores _).path hs).effect
  · exact (Blocks.onSemaphore hopen _).effect
  · exact Path.effect .refl

lemma semDecrement_failed {waitOnLock : Bool}
    (h : env.semDecrement sem waitOnLock = .ok (some false, env')) : env' = env := by
  obtain ⟨-, -, rfl⟩ | ⟨hostSem, hopen, ⟨-, hr, -⟩ | ⟨-, ⟨-, hr, -⟩ | ⟨-, -, rfl⟩⟩⟩ :=
    semDecrement_cases h
  · rfl
  · simp at hr
  · simp at hr
  · rfl

lemma semWait_cases (h : env.semWait sem = .ok (r, env')) :
    ∃ result e, (env.setErrno 0).semDecrement sem true = .ok (result, e) ∧
      ((result ≠ some false ∧ r = result.map (fun _ => 0) ∧ env' = e) ∨
      (result = some false ∧ r = some (-1) ∧ env' = e.setErrno EINVAL)) := by
  obtain ⟨⟨result, e⟩, hdecrement, h⟩ := bind_eq_ok.mp h
  refine ⟨result, e, hdecrement, ?_⟩
  match result with
  | none =>
    obtain ⟨rfl, rfl⟩ := ok_pair_inj h
    exact .inl ⟨by simp, rfl, rfl⟩
  | some true =>
    obtain ⟨rfl, rfl⟩ := ok_pair_inj h
    exact .inl ⟨by simp, rfl, rfl⟩
  | some false =>
    obtain ⟨rfl, rfl⟩ := ok_pair_inj h
    exact .inr ⟨rfl, rfl, rfl⟩

lemma semTrywait_cases (h : env.semTrywait sem = .ok (r, env')) :
    ∃ result e, (env.setErrno 0).semDecrement sem false = .ok (result, e) ∧
      ((result ≠ some false ∧ r = result.map (fun _ => 0) ∧ env' = e) ∨
      (result = some false ∧ r = some (-1) ∧ ∃ err, env' = e.setErrno err)) := by
  obtain ⟨⟨result, e⟩, hdecrement, h⟩ := bind_eq_ok.mp h
  refine ⟨result, e, hdecrement, ?_⟩
  match result with
  | none =>
    obtain ⟨rfl, rfl⟩ := ok_pair_inj h
    exact .inl ⟨by simp, rfl, rfl⟩
  | some true =>
    obtain ⟨rfl, rfl⟩ := ok_pair_inj h
    exact .inl ⟨by simp, rfl, rfl⟩
  | some false =>
    dsimp only at h
    split_ifs at h <;> obtain ⟨rfl, rfl⟩ := ok_pair_inj h <;>
      exact .inr ⟨rfl, rfl, _, rfl⟩

lemma semPost_cases (h : env.semPost sem = .ok (r, env')) :
    (env.semaphores.openSemaphores sem = none ∧ r = some (-1) ∧
      env' = (env.setErrno 0).setErrno EINVAL) ∨
    ∃ hostSem, env.semaphores.openSemaphores sem = some hostSem ∧ r = some 0 ∧
      env' = (env.setErrno 0).setHostSem hostSem
        { env.semaphores.hostSems hostSem with
          value := (env.semaphores.hostSems hostSem).value + 1 } := by
  obtain ⟨⟨posted, e⟩, hincrement, h⟩ := bind_eq_ok.mp h
  unfold semIncrement at hincrement
  split at hincrement
  · next hclosed =>
    obtain ⟨rfl, rfl⟩ := ok_pair_inj hincrement
    obtain ⟨rfl, rfl⟩ := ok_pair_inj h
    exact .inl ⟨hclosed, rfl, rfl⟩
  · next hostSem hopen =>
    obtain ⟨value, hvalue, hincrement⟩ := bind_eq_ok.mp hincrement
    obtain ⟨rfl, rfl⟩ := ok_pair_inj hincrement
    obtain ⟨rfl, rfl⟩ := ok_pair_inj h
    unfold addI32 at hvalue
    split_ifs at hvalue
    obtain rfl := Except.ok.inj hvalue
    exact .inr ⟨hostSem, hopen, rfl, rfl⟩

lemma path_semInit (hm : allowed .memory) (hs : allowed .semaphores) {pshared : ℤ}
    {value : Fin u32Bound} (h : env.semInit sem pshared value = .ok (r, env')) :
    Path allowed env env' := by
  obtain ⟨_, -, h⟩ := bind_eq_ok.mp h
  split_ifs at h <;> obtain ⟨-, rfl⟩ := ok_pair_inj h
  · exact path_setErrno hm 0
  · exact path_aside hm hs _ _ _

lemma path_semDestroy (hs : allowed .semaphores) (h : env.semDestroy sem = .ok (r, env')) :
    Path allowed env env' := by
  unfold semDestroy at h
  split at h
  · obtain ⟨-, rfl⟩ := ok_pair_inj h
    exact .refl
  · obtain ⟨_, -, h⟩ := bind_eq_ok.mp h
    obtain ⟨-, rfl⟩ := ok_pair_inj h
    exact (Changes.semaphores _).path hs

lemma path_semOpen (hm : allowed .memory) (hs : allowed .semaphores) {name : String}
    {oflag : OpenFlags} {value : Fin u32Bound}
    (h : env.semOpen name oflag value sem = .ok (r, env')) : Path allowed env env' := by
  unfold semOpen at h
  dsimp only at h
  split at h
  · split_ifs at h
    · obtain ⟨-, rfl⟩ := ok_pair_inj h
      exact (path_setErrno hm 0).trans (path_setErrno hm _)
    · split at h <;> obtain ⟨-, rfl⟩ := ok_pair_inj h
      · exact path_setErrno hm 0
      · exact path_aside hm hs _ _ _
  · split_ifs at h <;> obtain ⟨-, rfl⟩ := ok_pair_inj h
    · exact (path_setErrno hm 0).trans (path_setErrno hm _)
    · exact path_aside hm hs _ _ _

lemma path_semPost (hm : allowed .memory) (hs : allowed .semaphores)
    (h : env.semPost sem = .ok (r, env')) : Path allowed env env' := by
  obtain ⟨-, -, rfl⟩ | ⟨hostSem, -, -, rfl⟩ := semPost_cases h
  · exact (path_setErrno hm 0).trans (path_setErrno hm _)
  · exact path_aside hm hs _ _ _

lemma effect_semWait (hm : allowed .memory) (hs : allowed .semaphores)
    (h : env.semWait sem = .ok (r, env')) : Effect allowed env env' := by
  obtain ⟨result, e, hdecrement, ⟨-, -, rfl⟩ | ⟨rfl, -, rfl⟩⟩ := semWait_cases h
  · exact (path_setErrno hm 0).then (effect_semDecrement hs hdecrement)
  · obtain rfl := semDecrement_failed hdecrement
    exact ((path_setErrno hm 0).trans (path_setErrno hm _)).effect

lemma effect_semTrywait (hm : allowed .memory) (hs : allowed .semaphores)
    (h : env.semTrywait sem = .ok (r, env')) : Effect allowed env env' := by
  obtain ⟨result, e, hdecrement, ⟨-, -, rfl⟩ | ⟨rfl, -, err, rfl⟩⟩ := semTrywait_cases h
  · exact (path_setErrno hm 0).then (effect_semDecrement hs hdecrement)
  · obtain rfl := semDecrement_failed hdecrement
    exact ((path_setErrno hm 0).trans (path_setErrno hm _)).effect

lemma path_semGetvalue (hm : allowed .memory) {sval : ℕ}
    (h : env.semGetvalue sem sval = .ok (r, env')) : Path allowed env env' := by
  unfold semGetvalue at h
  dsimp only at h
  split at h
  · obtain ⟨-, rfl⟩ := ok_pair_inj h
    exact (path_setErrno hm 0).trans (path_setErrno hm _)
  · split at h <;> obtain ⟨-, rfl⟩ := ok_pair_inj h
    · exact path_setErrno hm 0
    · exact (path_setErrno hm 0).trans ((changes_writeWords _).path hm)

lemma path_semClose (hm : allowed .memory) (hs : allowed .semaphores)
    (h : env.semClose sem = .ok (r, env')) : Path allowed env env' := by
  unfold semClose at h
  dsimp only at h
  split at h
  · obtain ⟨-, rfl⟩ := ok_pair_inj h
    exact (path_setErrno hm 0).trans (path_setErrno hm _)
  · split_ifs at h <;> obtain ⟨-, rfl⟩ := ok_pair_inj h
    · exact (path_setErrno hm 0).trans (path_setErrno hm _)
    · exact path_aside hm hs _ _ _

lemma path_semUnlink (hm : allowed .memory) (hs : allowed .semaphores) {name : String}
    (h : env.semUnlink name = .ok (r, env')) : Path allowed env env' := by
  obtain ⟨-, rfl⟩ := ok_pair_inj h
  exact path_aside hm hs _ _ _

end

section

lemma effect_sleep {threadBlock : ThreadBlock}
    (hb : env.Blocks (env.suspend threadBlock (some .other)))
    (h : env.sleep threadBlock = .ok (r, env')) : Effect allowed env env' := by
  obtain ⟨e, hyield, h⟩ := bind_eq_ok.mp h
  obtain ⟨-, rfl⟩ := ok_pair_inj h
  obtain ⟨-, rfl⟩ := yieldThread_eq_ok.mp hyield
  exact hb.effect

lemma effect_joinWithThread {joinee : ℕ} (h : env.joinWithThread joinee = .ok (r, env')) :
    Effect allowed env env' := by
  unfold joinWithThread at h
  split_ifs at h with hj
  exact effect_sleep (.joining (not_le.mp hj)) h

end

end Env

def Call.cond : Call → Option ℕ
  | .condInit cond | .condWait cond _ | .condTimedwait cond _ _ | .condSignal cond
  | .condBroadcast cond | .condDestroy cond => some cond
  | _ => none

def Call.isSem : Call → Bool
  | .semInit .. | .semDestroy _ | .semOpen .. | .semPost _ | .semWait _ | .semTrywait _
  | .semGetvalue .. | .semClose _ | .semUnlink _ => true
  | _ => false

def Call.Allows (env : Env) (c : Call) : Change → Prop
  | .memory | .newMutex | .mutex => True
  | .semaphores => c.isSem
  | .destroyMutex mutexId => ∃ ptr,
    c = .mutexDestroy ptr ∧ env.Names ptr magicMutex mutexId ∨
      c = .rwlockDestroy ptr ∧ env.Names ptr magicRwlock mutexId
  | .newCond cond =>
    c = .condInit cond ∨ c.cond = some cond ∧ env.readWord cond 0 = magicCondStatic
  | .dropCond cond => c = .condDestroy cond
  | .wake cond => c = .condSignal cond ∨ c = .condBroadcast cond
  | .await cond => ∃ mutex, c = .condWait cond mutex ∨ ∃ absTime, c = .condTimedwait cond mutex absTime

namespace Env

variable {env env' : Env} {r : Option ℤ}

theorem effect_call {c : Call} (h : env.call c = .ok (r, env')) :
    Effect (c.Allows env) env env' := by
  cases c with
  | mutexInit mutex attr =>
    unfold call pthreadMutexInit at h
    dsimp only at h
    split_ifs at h
    · exact effect_initMutexAt trivial trivial h
    · obtain ⟨-, rfl⟩ := ok_pair_inj h
      exact Path.effect .refl
    · obtain ⟨type, -, h⟩ := bind_eq_ok.mp h
      exact effect_initMutexAt trivial trivial h
  | mutexLock mutex => exact effect_pthreadMutexLock trivial trivial trivial h
  | mutexTrylock mutex => exact effect_pthreadMutexTrylock trivial trivial trivial h
  | mutexUnlock mutex => exact (path_pthreadMutexUnlock trivial trivial trivial h).effect
  | mutexDestroy mutex =>
    exact effect_destroyAt (by decide) trivial trivial (fun id hid => ⟨mutex, .inl ⟨rfl, hid⟩⟩) h
  | rwlockInit rwlock attr =>
    unfold call pthreadRwlockInit at h
    dsimp only at h
    split_ifs at h
    · obtain ⟨-, rfl⟩ := ok_pair_inj h
      exact Path.effect .refl
    · exact effect_initMutexAt trivial trivial h
  | rwlockRdlock rwlock | rwlockWrlock rwlock =>
    exact effect_onMutex h trivial trivial fun _ _ => effect_lockInner trivial
  | rwlockTryrdlock rwlock | rwlockTrywrlock rwlock =>
    exact effect_rwlockTrylockInner trivial trivial trivial h
  | rwlockUnlock rwlock =>
    exact effect_onMutex h trivial trivial fun _ _ hop => (path_unlockInner trivial hop).effect
  | rwlockDestroy rwlock =>
    exact effect_destroyAt (by decide) trivial trivial (fun id hid => ⟨rwlock, .inr ⟨rfl, hid⟩⟩) h
  | condInit cond =>
    obtain ⟨-, rfl⟩ := ok_pair_inj h
    exact (path_pthreadCondInit trivial (.inl rfl)).effect
  | condWait cond mutex =>
    exact effect_releaseAndWait trivial trivial trivial (fun hs => .inr ⟨rfl, hs⟩)
      ⟨mutex, .inl rfl⟩ h
  | condTimedwait cond mutex absTime =>
    exact effect_releaseAndWait trivial trivial trivial (fun hs => .inr ⟨rfl, hs⟩)
      ⟨mutex, .inr ⟨absTime, rfl⟩⟩ h
  | condSignal cond =>
    obtain ⟨-, rfl⟩ | ⟨e, object, hcheck, hobject, -, rfl⟩ := pthreadCondSignal_cases h
    · exact Path.effect .refl
    · refine Path.effect (Path.trans ?_ ((Changes.wake hobject 1).path (.inl rfl)))
      exact path_checkOrRegisterCond hcheck trivial fun hs => .inr ⟨rfl, hs⟩
  | condBroadcast cond =>
    obtain ⟨-, rfl⟩ | ⟨e, object, hcheck, hobject, -, rfl⟩ := pthreadCondBroadcast_cases h
    · exact Path.effect .refl
    · refine Path.effect (Path.trans ?_ ((Changes.wake hobject _).path (.inr rfl)))
      exact path_checkOrRegisterCond hcheck trivial fun hs => .inr ⟨rfl, hs⟩
  | condDestroy cond =>
    obtain ⟨-, rfl⟩ | ⟨e, object, hcheck, hobject, hwaiting, hwaking, -, rfl⟩ :=
      pthreadCondDestroy_cases h
    · exact Path.effect .refl
    · refine Path.effect (Path.trans ?_ ((Changes.dropCond hobject hwaiting hwaking).path rfl))
      exact path_checkOrRegisterCond hcheck trivial fun hs => .inr ⟨rfl, hs⟩
  | semInit sem pshared value => exact Path.effect (path_semInit trivial rfl h)
  | semDestroy sem => exact Path.effect (path_semDestroy rfl h)
  | semOpen name oflag value sem => exact Path.effect (path_semOpen trivial rfl h)
  | semPost sem => exact Path.effect (path_semPost trivial rfl h)
  | semWait sem => exact effect_semWait trivial rfl h
  | semTrywait sem => exact effect_semTrywait trivial rfl h
  | semGetvalue sem sval => exact Path.effect (path_semGetvalue trivial h)
  | semClose sem => exact Path.effect (path_semClose trivial rfl h)
  | semUnlink name => exact Path.effect (path_semUnlink trivial rfl h)
  | sleep due => exact effect_sleep (.sleeping due) h
  | sleepGuest due => exact effect_sleep (.guestSleeping due) h
  | join joinee => exact effect_joinWithThread h

end Env

end TouchHle.Threads
