import TouchHle.Threads.Calls

namespace TouchHle.Threads

open Lib

namespace Env

variable {env env' : Env} {threadId : ℕ} {now : Clock}

def relock (env : Env) (threadId mutexId : ℕ) (mutex : Mutex) : Env :=
  (env.unblock threadId).setMutex mutexId (mutex.relockedBy threadId)

def leave (env : Env) (threadId cond : ℕ) (object : CondHostObject) : Env :=
  env.setCond cond
    { object with
      timedOut := insert threadId object.timedOut
      waking := object.waking.filter (· ≠ threadId)
      waiting := object.waiting.filter (· ≠ threadId) }

def Free (env : Env) (mutexId : ℕ) (mutex : Mutex) : Prop :=
  env.mutexes mutexId = some mutex ∧ mutex.locked = none

inductive Tried (env : Env) (threadId : ℕ) (now : Clock) : Bool → Env → Prop
  | skipped : Tried env threadId now false env
  | running (blockedBy : (env.threads threadId).blockedBy = .notBlocked) :
    Tried env threadId now true env
  | sleeping {due : ℕ} (blockedBy : (env.threads threadId).blockedBy = .sleeping due) :
    Tried env threadId now true (env.unblock threadId)
  | guestSleeping {due : ℕ} (blockedBy : (env.threads threadId).blockedBy = .guestSleeping due) :
    Tried env threadId now true (env.unblock threadId)
  | joining {joinee : ℕ} (blockedBy : (env.threads threadId).blockedBy = .joining joinee) :
    Tried env threadId now true (env.unblock threadId)
  | mutex {mutexId : ℕ} {mutex : Mutex} (blockedBy : (env.threads threadId).blockedBy = .mutex mutexId)
    (free : env.Free mutexId mutex) : Tried env threadId now true (env.relock threadId mutexId mutex)
  | noSemaphore {sem : ℕ} (blockedBy : (env.threads threadId).blockedBy = .semaphore sem)
    (closed : env.semaphores.openSemaphores sem = none) :
    Tried env threadId now true (env.unblock threadId)
  | semaphore {sem hostSem : ℕ} (blockedBy : (env.threads threadId).blockedBy = .semaphore sem)
    (isOpen : env.semaphores.openSemaphores sem = some hostSem)
    (value : 0 < (env.semaphores.hostSems hostSem).value) :
    Tried env threadId now true
      ((env.setHostSem hostSem
        { env.semaphores.hostSems hostSem with
          value := (env.semaphores.hostSems hostSem).value - 1
          waiting := (env.semaphores.hostSems hostSem).waiting.erase threadId }).unblock threadId)
  | woken {cond mutexId : ℕ} {deadline : Option ℕ} {object : CondHostObject} {mutex : Mutex}
    (blockedBy : (env.threads threadId).blockedBy = .condition cond deadline)
    (found : env.conds cond = some object) (currMutex : object.currMutex = some mutexId)
    (head : object.waking.head? = some threadId) (free : env.Free mutexId mutex) :
    Tried env threadId now true
      ((env.setCond cond { object with waking := object.waking.tail }).relock
        threadId mutexId mutex)
  | timedOut {cond mutexId due : ℕ} {object : CondHostObject} {mutex : Mutex}
    (blockedBy : (env.threads threadId).blockedBy = .condition cond (some due))
    (found : env.conds cond = some object) (currMutex : object.currMutex = some mutexId)
    (due_le : due ≤ now.system) (fresh : threadId ∉ object.timedOut)
    (head : object.waking.head? ≠ some threadId) (free : env.Free mutexId mutex) :
    Tried env threadId now true ((env.leave threadId cond object).relock threadId mutexId mutex)
  | timedOutLocked {cond mutexId due : ℕ} {object : CondHostObject}
    (blockedBy : (env.threads threadId).blockedBy = .condition cond (some due))
    (found : env.conds cond = some object) (currMutex : object.currMutex = some mutexId)
    (due_le : due ≤ now.system) (fresh : threadId ∉ object.timedOut)
    (locked : env.mutexIsLocked mutexId = true) :
    Tried env threadId now false
      ((env.leave threadId cond object).setThread threadId
        { env.threads threadId with blockedBy := .mutex mutexId })

lemma mutexIsLocked_eq_false {mutexId : ℕ} {mutex : Mutex} (h : env.mutexes mutexId = some mutex) :
    env.mutexIsLocked mutexId = false ↔ mutex.locked = none := by
  simp [mutexIsLocked, h]

lemma relockUnblocked_eq_ok {mutexId : ℕ} :
    (env.unblock threadId).relockUnblockedMutexForThread threadId mutexId = .ok env' ↔
      ∃ mutex, env.Free mutexId mutex ∧ env' = env.relock threadId mutexId mutex := by
  simp only [relockUnblockedMutexForThread, bind_eq_ok, unwrap_eq_ok, assert_eq_ok, pure_eq_ok,
    Except.ok.injEq]
  constructor
  · rintro ⟨mutex, hmutex, -, hlocked, rfl⟩
    exact ⟨mutex, ⟨hmutex, hlocked⟩, rfl⟩
  · rintro ⟨mutex, ⟨hmutex, hlocked⟩, rfl⟩
    exact ⟨mutex, hmutex, (), hlocked, rfl⟩

lemma tried_unblockedOnMutex {mutexId : ℕ} {picked : Bool}
    (hb : (env.threads threadId).blockedBy = .mutex mutexId)
    (h : env.unblockedOnMutex threadId mutexId = .ok (picked, env')) :
    Tried env threadId now picked env' := by
  unfold unblockedOnMutex at h
  split_ifs at h
  · obtain ⟨rfl, rfl⟩ := ok_pair_inj h
    exact .skipped
  · obtain ⟨e, hrelock, h⟩ := bind_eq_ok.mp h
    obtain ⟨rfl, rfl⟩ := ok_pair_inj h
    obtain ⟨mutex, hfree, rfl⟩ := relockUnblocked_eq_ok.mp hrelock
    exact .mutex hb hfree

lemma tried_unblockedOnSemaphore {sem : ℕ} {picked : Bool}
    (hb : (env.threads threadId).blockedBy = .semaphore sem)
    (h : env.unblockedOnSemaphore threadId sem = .ok (picked, env')) :
    Tried env threadId now picked env' := by
  unfold unblockedOnSemaphore at h
  split at h
  · next hclosed =>
    obtain ⟨rfl, rfl⟩ := ok_pair_inj h
    exact .noSemaphore hb hclosed
  · next hostSem hopen =>
    dsimp only at h
    split_ifs at h with hvalue <;> obtain ⟨rfl, rfl⟩ := ok_pair_inj h
    · exact .semaphore hb hopen hvalue
    · exact .skipped

lemma tried_timeOut {cond mutexId due : ℕ} {object : CondHostObject} {picked : Bool}
    (hb : (env.threads threadId).blockedBy = .condition cond (some due))
    (hobject : env.conds cond = some object) (hcurr : object.currMutex = some mutexId)
    (hdue : due ≤ now.system)
    (hhead : ¬ (object.waking.head? = some threadId ∧ (!env.mutexIsLocked mutexId) = true))
    (h : env.timeOut threadId cond mutexId object = .ok (picked, env')) :
    Tried env threadId now picked env' := by
  obtain ⟨_, hfresh, h⟩ := bind_eq_ok.mp h
  have hfresh := assert_eq_ok.mp hfresh
  dsimp only at h
  split_ifs at h with hlocked
  · obtain ⟨rfl, rfl⟩ := ok_pair_inj h
    exact .timedOutLocked hb hobject hcurr hdue hfresh hlocked
  · obtain ⟨e, hrelock, h⟩ := bind_eq_ok.mp h
    obtain ⟨rfl, rfl⟩ := ok_pair_inj h
    obtain ⟨mutex, hfree, rfl⟩ := relockUnblocked_eq_ok.mp hrelock
    have hunlocked : env.mutexIsLocked mutexId = false := Bool.eq_false_of_not_eq_true hlocked
    exact .timedOut hb hobject hcurr hdue hfresh
      (fun hh => hhead ⟨hh, by rw [hunlocked]; rfl⟩) hfree

lemma tried_unblockedOnCondition {cond : ℕ} {deadline : Option ℕ} {picked : Bool}
    (hb : (env.threads threadId).blockedBy = .condition cond deadline)
    (h : env.unblockedOnCondition threadId cond deadline now = .ok (picked, env')) :
    Tried env threadId now picked env' := by
  obtain ⟨object, hobject, hrest⟩ := bind_eq_ok.mp h
  obtain ⟨mutexId, hcurr, htry⟩ := bind_eq_ok.mp hrest
  have hobject := unwrap_eq_ok.mp hobject
  have hcurr := unwrap_eq_ok.mp hcurr
  split_ifs at htry with hhead hdue
  · obtain ⟨e, hrelock, hpick⟩ := bind_eq_ok.mp htry
    obtain ⟨rfl, rfl⟩ := ok_pair_inj hpick
    obtain ⟨mutex, hfree, rfl⟩ := relockUnblocked_eq_ok.mp hrelock
    exact .woken hb hobject hcurr hhead.1 hfree
  · obtain ⟨due, rfl, hdue⟩ := (Option.any_eq_true _ _).mp hdue
    exact tried_timeOut hb hobject hcurr (of_decide_eq_true hdue) hhead htry
  · obtain ⟨rfl, rfl⟩ := ok_pair_inj htry
    exact .skipped

theorem tried_of_tryCandidate {picked : Bool}
    (h : env.tryCandidate threadId now = .ok (picked, env')) : Tried env threadId now picked env' := by
  unfold tryCandidate at h
  split at h
  · obtain ⟨rfl, rfl⟩ := ok_pair_inj h
    exact .skipped
  split at h
  · obtain ⟨rfl, rfl⟩ := ok_pair_inj h
    exact .skipped
  · split at h
    · next due hb =>
      split_ifs at h <;> obtain ⟨rfl, rfl⟩ := ok_pair_inj h
      · exact .sleeping hb
      · exact .skipped
    · next due hb =>
      split_ifs at h <;> obtain ⟨rfl, rfl⟩ := ok_pair_inj h
      · exact .guestSleeping hb
      · exact .skipped
    · next hb => exact tried_unblockedOnMutex hb h
    · next hb => exact tried_unblockedOnSemaphore hb h
    · next hb => exact tried_unblockedOnCondition hb h
    · next hb =>
      split_ifs at h <;> obtain ⟨rfl, rfl⟩ := ok_pair_inj h
      · exact .joining hb
      · exact .skipped
    · next hb =>
      obtain ⟨rfl, rfl⟩ := ok_pair_inj h
      exact .running hb

def Runnable (env : Env) (threadId : ℕ) : Prop :=
  (env.threads threadId).active = true ∧ (env.threads threadId).suspendCount = 0

lemma runnable_of_tryCandidate (h : env.tryCandidate threadId now = .ok (true, env')) :
    env.Runnable threadId := by
  unfold tryCandidate at h
  split at h
  · cases (ok_pair_inj h).1
  next hactive =>
    split at h
    · cases (ok_pair_inj h).1
    · next hsuspended =>
      exact ⟨by simpa using hactive, by omega⟩

def returned (env : Env) : Env :=
  env.setThread env.current { env.threads env.current with hostCall := none }

inductive Resumed (env : Env) : Option ℤ → Env → Prop
  | fresh (hostCall : (env.threads env.current).hostCall = none) : Resumed env none env.returned
  | plain {hostCall : HostCall} (suspended : (env.threads env.current).hostCall = some hostCall)
    (plain : ∀ cond mutexId, hostCall ≠ .condWait cond mutexId ∧ hostCall ≠ .condTimedwait cond mutexId) :
    Resumed env (some 0) env.returned
  | condWait {cond mutexId : ℕ} {object : CondHostObject}
    (suspended : (env.threads env.current).hostCall = some (.condWait cond mutexId))
    (found : env.conds cond = some object) (inTime : env.current ∉ object.timedOut) :
    Resumed env (some 0) env.returned
  | condInTime {cond mutexId : ℕ} {object : CondHostObject}
    (suspended : (env.threads env.current).hostCall = some (.condTimedwait cond mutexId))
    (found : env.conds cond = some object) (inTime : env.current ∉ object.timedOut) :
    Resumed env (some 0) env.returned
  | condTimedOut {cond mutexId : ℕ} {object : CondHostObject}
    (suspended : (env.threads env.current).hostCall = some (.condTimedwait cond mutexId))
    (found : env.conds cond = some object) (timedOut : env.current ∈ object.timedOut) :
    Resumed env (some ETIMEDOUT)
      (env.returned.setCond cond { object with timedOut := object.timedOut.erase env.current })

lemma resumed_of_resume {r : Option ℤ} (h : env.resume = .ok (r, env')) : env.Resumed r env' := by
  obtain ⟨_, -, h⟩ := bind_eq_ok.mp h
  dsimp only at h
  split at h
  · next hcall =>
    obtain ⟨rfl, rfl⟩ := ok_pair_inj h
    exact .fresh hcall
  · next hostCall hcall =>
    cases hostCall with
    | lock | semWait | other =>
      obtain ⟨rfl, rfl⟩ := ok_pair_inj h
      exact .plain hcall (by simp)
    | condWait cond mutexId =>
      obtain ⟨object, hobject, h⟩ := bind_eq_ok.mp h
      obtain ⟨_, hin, h⟩ := bind_eq_ok.mp h
      obtain ⟨rfl, rfl⟩ := ok_pair_inj h
      exact .condWait hcall (unwrap_eq_ok.mp hobject) (assert_eq_ok.mp hin)
    | condTimedwait cond mutexId =>
      obtain ⟨object, hobject, h⟩ := bind_eq_ok.mp h
      have hobject := unwrap_eq_ok.mp hobject
      dsimp only at h
      split_ifs at h with htimed <;> obtain ⟨rfl, rfl⟩ := ok_pair_inj h
      · exact .condTimedOut hcall hobject htimed
      · exact .condInTime hcall hobject htimed

def candidate (env : Env) (i : ℕ) : ℕ := (env.current + 1 + i) % env.threadCount

def switchTo (env : Env) (threadId : ℕ) : Env := { env with current := threadId, scan := none }

inductive Transition (env : Env) : Action → Option ℤ → Env → Prop
  | none {a : Action} : Transition env a none env
  | call {c : Call} {r : Option ℤ} {env' : Env} (running : env.scan = .none)
    (h : env.call c = .ok (r, env')) : Transition env (.call c) r env'
  | store (ptr : ℕ) (word : UInt32) (running : env.scan = .none) :
    Transition env (.store ptr word) none (env.writeWords ptr [word])
  | newThread (running : env.scan = .none) : Transition env .newThread none env.newThread
  | exitThread (running : env.scan = .none) : Transition env .exitThread none env.exitThread
  | preempt (running : env.scan = .none) :
    Transition env .preempt none (env.suspend .notBlocked .none)
  | suspend {targetAct t : ℕ} (running : env.scan = .none)
    (target : env.targetThread targetAct = some t) :
    Transition env (.threadSuspend targetAct) (some KERN_SUCCESS) (env.suspendThread t)
  | resume {targetAct t : ℕ} (running : env.scan = .none)
    (target : env.targetThread targetAct = some t) :
    Transition env (.threadResume targetAct) (some KERN_SUCCESS) (env.resumeThread t)
  | noTarget {a : Action} {targetAct : ℕ} (h : a = .threadSuspend targetAct ∨ a = .threadResume targetAct) :
    Transition env a (some KERN_INVALID_ARGUMENT) env
  | pass {now : Clock} {i : ℕ} {e : Env} (scan : env.scan = some i)
    (tried : Tried env (env.candidate i) now false e) :
    Transition env (.visit now) none { e with scan := some ((i + 1) % e.threadCount) }
  | pick {now : Clock} {i : ℕ} {e env' : Env} {r : Option ℤ} (scan : env.scan = some i)
    (runnable : env.Runnable (env.candidate i)) (tried : Tried env (env.candidate i) now true e)
    (resumed : (e.switchTo (env.candidate i)).Resumed r env') : Transition env (.visit now) r env'

lemma transition_threadSuspend {targetAct : ℕ} {r : Option ℤ} (hscan : env.scan = none)
    (h : env.threadSuspend targetAct = .ok (r, env')) :
    env.Transition (.threadSuspend targetAct) r env' := by
  unfold threadSuspend at h
  split at h <;> obtain ⟨rfl, rfl⟩ := ok_pair_inj h
  · exact .noTarget (Or.inl rfl)
  · next htarget => exact .suspend hscan htarget

lemma transition_threadResume {targetAct : ℕ} {r : Option ℤ} (hscan : env.scan = none)
    (h : env.threadResume targetAct = .ok (r, env')) :
    env.Transition (.threadResume targetAct) r env' := by
  unfold threadResume at h
  split at h <;> obtain ⟨rfl, rfl⟩ := ok_pair_inj h
  · exact .noTarget (Or.inr rfl)
  · next htarget => exact .resume hscan htarget

theorem transition_of_serve {a : Action} {r : Option ℤ} (h : env.serve a = .ok (r, env')) :
    env.Transition a r env' := by
  have hact : ∀ a, (∀ now, a ≠ .visit now) →
      (if env.scan = none then env.act a else return (none, env)) = .ok (r, env') →
      env.scan = none ∧ env.act a = .ok (r, env') ∨ r = none ∧ env' = env := by
    intro a _ h
    split_ifs at h with hscan
    · exact Or.inl ⟨hscan, h⟩
    · obtain ⟨rfl, rfl⟩ := ok_pair_inj h
      exact Or.inr ⟨rfl, rfl⟩
  cases a with
  | visit now =>
    unfold serve visit at h
    dsimp only at h
    split at h
    · obtain ⟨rfl, rfl⟩ := ok_pair_inj h
      exact .none
    · next i hscan =>
      obtain ⟨⟨picked, e⟩, htry, h⟩ := bind_eq_ok.mp h
      have htried := tried_of_tryCandidate htry
      cases picked with
      | false =>
        obtain ⟨rfl, rfl⟩ := ok_pair_inj h
        exact .pass hscan htried
      | true => exact .pick hscan (runnable_of_tryCandidate htry) htried (resumed_of_resume h)
  | call c =>
    obtain ⟨hscan, h⟩ | ⟨rfl, rfl⟩ := hact _ (by simp) h
    · exact .call hscan h
    · exact .none
  | store ptr word =>
    obtain ⟨hscan, h⟩ | ⟨rfl, rfl⟩ := hact _ (by simp) h
    · obtain ⟨rfl, rfl⟩ := ok_pair_inj h
      exact .store ptr word hscan
    · exact .none
  | newThread =>
    obtain ⟨hscan, h⟩ | ⟨rfl, rfl⟩ := hact _ (by simp) h
    · obtain ⟨rfl, rfl⟩ := ok_pair_inj h
      exact .newThread hscan
    · exact .none
  | exitThread =>
    obtain ⟨hscan, h⟩ | ⟨rfl, rfl⟩ := hact _ (by simp) h
    · obtain ⟨rfl, rfl⟩ := ok_pair_inj h
      exact .exitThread hscan
    · exact .none
  | preempt =>
    obtain ⟨hscan, h⟩ | ⟨rfl, rfl⟩ := hact _ (by simp) h
    · obtain ⟨e, hyield, h⟩ := map_eq_ok.mp h
      obtain ⟨rfl, rfl⟩ := Prod.mk.inj h
      obtain ⟨-, rfl⟩ := yieldThread_eq_ok.mp hyield
      exact .preempt hscan
    · exact .none
  | threadSuspend targetAct =>
    obtain ⟨hscan, h⟩ | ⟨rfl, rfl⟩ := hact _ (by simp) h
    · exact transition_threadSuspend hscan h
    · exact .none
  | threadResume targetAct =>
    obtain ⟨hscan, h⟩ | ⟨rfl, rfl⟩ := hact _ (by simp) h
    · exact transition_threadResume hscan h
    · exact .none

lemma targetThread_lt {targetAct t : ℕ} (h : env.targetThread targetAct = some t) :
    t < env.threadCount := by
  unfold targetThread at h
  split_ifs at h with ht
  obtain rfl := Option.some.inj h
  exact ht.2

lemma step_eq_ok {a : Action} : env.step a = .ok env' ↔ ∃ r, env.serve a = .ok (r, env') := by
  unfold step
  cases env.serve a with
  | error e => simp [Functor.map, Except.map]
  | ok x =>
    obtain ⟨r, e⟩ := x
    simp [Functor.map, Except.map, eq_comm]

end Env

end TouchHle.Threads
