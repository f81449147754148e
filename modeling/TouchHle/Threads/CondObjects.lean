import TouchHle.Threads.CondRelease
import TouchHle.Threads.Signals

namespace TouchHle.Threads

open Lib Function List Option Thread

namespace Thread

def blockedOn (thread : Thread) : Option ℕ :=
  match thread.blockedBy with
  | .condition cond _ => some cond
  | _ => none

def inWait (thread : Thread) : Option ℕ := thread.hostCall.bind HostCall.cond

def wants (thread : Thread) : Option ℕ :=
  match thread.blockedBy with
  | .mutex mutexId => some mutexId
  | .condition _ _ => thread.awaits
  | _ => none

end Thread

namespace Env

def Known (env : Env) (cond : ℕ) : Prop :=
  env.readWord cond 0 = magicCondStatic ∨ env.readWord cond 0 = magicCond

instance (env : Env) (cond : ℕ) : Decidable (env.Known cond) := inferInstanceAs (Decidable (_ ∨ _))

def NobodyBlockedOn (env : Env) (cond : ℕ) : Prop :=
  ∀ t < env.threadCount, (env.threads t).blockedOn ≠ some cond

instance (env : Env) (cond : ℕ) : Decidable (env.NobodyBlockedOn cond) :=
  inferInstanceAs (Decidable (∀ t < env.threadCount, _))

def NobodyInWait (env : Env) (cond : ℕ) : Prop :=
  ∀ t < env.threadCount, (env.threads t).inWait ≠ some cond

instance (env : Env) (cond : ℕ) : Decidable (env.NobodyInWait cond) :=
  inferInstanceAs (Decidable (∀ t < env.threadCount, _))

def CondSafe (env : Env) (cond : ℕ) : Prop :=
  (env.readWord cond 0 = magicCond → (env.conds cond).isSome) ∧
    (env.readWord cond 0 = magicCondStatic → env.NobodyBlockedOn cond)

instance (env : Env) (cond : ℕ) : Decidable (env.CondSafe cond) := inferInstanceAs (Decidable (_ ∧ _))

/-- The mutex of a wait exists on the host or can be registered; if it is unlocked, the threads
blocked on the condition variable have released the same one. -/
def MutexSafe (env : Env) (cond mutex : ℕ) : Prop :=
  (env.readWord mutex 0 = magicMutexStatic → env.mutexCount + 1 < u64Bound) ∧
    (env.readWord mutex 0 = magicMutex → ∃ m ∈ env.mutexes (env.readMutexId mutex),
      m.Unlockable env.current →
        ∀ t < env.threadCount, ∀ id ∈ (env.threads t).awaitsOn cond, id = env.readMutexId mutex)

instance (env : Env) (cond mutex : ℕ) : Decidable (env.MutexSafe cond mutex) :=
  inferInstanceAs (Decidable ((_ → _) ∧ (_ → ∃ m ∈ env.mutexes (env.readMutexId mutex), _)))

def WaitSafe (env : Env) (cond mutex : ℕ) : Prop :=
  env.CondSafe cond ∧ ∀ e ∈ (env.checkOrRegisterCond cond).toOption, e.MutexSafe cond mutex

instance (env : Env) (cond mutex : ℕ) : Decidable (env.WaitSafe cond mutex) :=
  inferInstanceAs (Decidable (_ ∧ ∀ e ∈ (env.checkOrRegisterCond cond).toOption, _))

def DestroySafe (env : Env) (ptr : ℕ) (magic : UInt32) : Prop :=
  env.readWord ptr 0 = magic → ∀ m ∈ env.mutexes (env.readMutexId ptr),
    m.locked = none → m.waitingCount = 0 →
      ∀ t < env.threadCount, (env.threads t).wants ≠ some (env.readMutexId ptr)

instance (env : Env) (ptr : ℕ) (magic : UInt32) : Decidable (env.DestroySafe ptr magic) :=
  inferInstanceAs (Decidable (_ → ∀ m ∈ env.mutexes (env.readMutexId ptr), _))

/-- Condition variables are initialised, registered and destroyed while nobody uses them, and not
used once they are destroyed; so are mutexes that threads will take back; and all threads that wait
on one condition variable have released one mutex. -/
def CallSafe (env : Env) : Call → Prop
  | .condInit cond => env.NobodyBlockedOn cond
  | .condSignal cond | .condBroadcast cond => env.CondSafe cond
  | .condDestroy cond => env.CondSafe cond ∧ (env.Known cond → env.NobodyInWait cond)
  | .condWait cond mutex | .condTimedwait cond mutex _ => env.WaitSafe cond mutex
  | .mutexDestroy mutex => env.DestroySafe mutex magicMutex
  | .rwlockDestroy rwlock => env.DestroySafe rwlock magicRwlock
  | _ => True

instance (env : Env) (c : Call) : Decidable (env.CallSafe c) :=
  match c with
  | .condInit cond => inferInstanceAs (Decidable (env.NobodyBlockedOn cond))
  | .condSignal cond | .condBroadcast cond => inferInstanceAs (Decidable (env.CondSafe cond))
  | .condDestroy cond =>
    inferInstanceAs (Decidable (env.CondSafe cond ∧ (env.Known cond → env.NobodyInWait cond)))
  | .condWait cond mutex | .condTimedwait cond mutex _ =>
    inferInstanceAs (Decidable (env.WaitSafe cond mutex))
  | .mutexDestroy mutex => inferInstanceAs (Decidable (env.DestroySafe mutex magicMutex))
  | .rwlockDestroy rwlock => inferInstanceAs (Decidable (env.DestroySafe rwlock magicRwlock))
  | .mutexInit .. | .mutexLock _ | .mutexTrylock _ | .mutexUnlock _ | .rwlockInit ..
  | .rwlockRdlock _ | .rwlockTryrdlock _ | .rwlockWrlock _ | .rwlockTrywrlock _ | .rwlockUnlock _
  | .semInit .. | .semDestroy _ | .semOpen .. | .semPost _ | .semWait _ | .semTrywait _
  | .semGetvalue .. | .semClose _ | .semUnlink _ | .sleep _ | .sleepGuest _ | .join _ =>
    isTrue trivial

def ActionSafe (env : Env) : Action → Prop
  | .call c => env.scan = none → env.CallSafe c
  | _ => True

instance (env : Env) : (a : Action) → Decidable (env.ActionSafe a)
  | .call c => inferInstanceAs (Decidable (env.scan = none → env.CallSafe c))
  | .visit _ | .store _ _ | .newThread | .exitThread | .preempt | .threadSuspend _
  | .threadResume _ => isTrue trivial

/-- The host knows every condition variable that threads wait on, and every mutex that they want;
a thread that is blocked on a condition variable is listed there with the mutex it has released. -/
structure Listed (env : Env) : Prop where
  queued : ∀ t cond, (env.threads t).blockedOn = some cond → ∃ object,
    env.conds cond = some object ∧ t ∈ object.waiting ++ object.waking ∧
      object.currMutex = (env.threads t).awaits
  waits : ∀ t cond, (env.threads t).inWait = some cond → (env.conds cond).isSome
  mutexes : ∀ t id, (env.threads t).wants = some id → (env.mutexes id).isSome

variable {env env' e : Env} {r : Option ℤ} {now : Clock} {t cond : ℕ}

lemma blockedOn_eq_some {thread : Thread} :
    thread.blockedOn = some cond ↔ ∃ deadline, thread.blockedBy = .condition cond deadline := by
  unfold blockedOn
  split
  · next c deadline hb => simp [hb]
  · next hb => simpa using fun deadline => hb cond deadline

lemma listed_boot (words : ℕ → UInt32) (nullSegmentSize : ℕ) :
    (boot words nullSegmentSize).Listed := by
  have hfree : ∀ t, ((boot words nullSegmentSize).threads t).blockedOn = none ∧
      ((boot words nullSegmentSize).threads t).inWait = none ∧
      ((boot words nullSegmentSize).threads t).wants = none := by
    intro t
    by_cases ht : t = 0
    · subst ht
      exact ⟨rfl, rfl, rfl⟩
    · simp only [boot, update_of_ne ht]
      exact ⟨rfl, rfl, rfl⟩
  refine ⟨fun t c h => ?_, fun t c h => ?_, fun t id h => ?_⟩
  · rw [(hfree t).1] at h
    cases h
  · rw [(hfree t).2.1] at h
    cases h
  · rw [(hfree t).2.2] at h
    cases h

section Changes

lemma Coherent.inWait_of_blockedOn (hc : env.Coherent) (h : (env.threads t).blockedOn = some cond) :
    (env.threads t).inWait = some cond := by
  obtain ⟨deadline, hb⟩ := blockedOn_eq_some.mp h
  obtain ⟨id, hcall⟩ := hc.hostCall_of_condition hb
  simp [inWait, hcall]

lemma isSome_update {β : Type} {f : ℕ → Option β} {i j : ℕ} {b : β} (h : (f j).isSome) :
    (update f i (some b) j).isSome := by
  by_cases hj : j = i
  · subst hj
    simp
  · rwa [update_of_ne hj]

lemma isSome_update_none {β : Type} {f : ℕ → Option β} {i j : ℕ} (h : (f j).isSome) (hj : j ≠ i) :
    (update f i none j).isSome := by
  rwa [update_of_ne hj]

lemma queued_setCond {c : ℕ} {object : CondHostObject} (hfound : env.conds c = some object)
    (object' : CondHostObject)
    (hmem : t ∈ object.waiting ++ object.waking → t ∈ object'.waiting ++ object'.waking)
    (hcurr : object'.currMutex = object.currMutex) {id : Option ℕ}
    (h : ∃ object, env.conds cond = some object ∧ t ∈ object.waiting ++ object.waking ∧
      object.currMutex = id) :
    ∃ o, (env.setCond c object').conds cond = some o ∧ t ∈ o.waiting ++ o.waking ∧
      o.currMutex = id := by
  obtain ⟨o, ho, ht, hid⟩ := h
  by_cases hcond : cond = c
  · subst hcond
    obtain rfl := some.inj (hfound.symm.trans ho)
    exact ⟨object', update_self _ _ _, hmem ht, hcurr.trans hid⟩
  · exact ⟨o, (update_of_ne hcond _ _).trans ho, ht, hid⟩

lemma Listed.changes (hl : env.Listed) (hc : env.Coherent) {c : Change} (h : env.Changes c env')
    (hnew : ∀ cond, c = .newCond cond → ∀ t, (env.threads t).blockedOn ≠ some cond)
    (hdrop : ∀ cond, c = .dropCond cond → ∀ t, (env.threads t).inWait ≠ some cond)
    (hdestroy : ∀ id, c = .destroyMutex id → ∀ t, (env.threads t).wants ≠ some id) :
    env'.Listed := by
  refine ⟨fun t cond ht => ?_, fun t cond ht => ?_, fun t id ht => ?_⟩
  · rw [h.sameThreads.threads] at ht ⊢
    have hold := hl.queued t cond ht
    cases h with
    | newCond c =>
      obtain ⟨object, hobject, hmem⟩ := hold
      have hne : cond ≠ c := fun h => hnew c rfl t (h ▸ ht)
      exact ⟨object, (update_of_ne hne _ _).trans hobject, hmem⟩
    | @dropCond c =>
      obtain ⟨object, hobject, hmem⟩ := hold
      have hne : cond ≠ c := fun h => hdrop c rfl t (h ▸ hc.inWait_of_blockedOn ht)
      exact ⟨object, (update_of_ne hne _ _).trans hobject, hmem⟩
    | wake hfound count =>
      exact queued_setCond hfound (CondHostObject.wake _ count)
        (CondHostObject.waiting_append_waking_wake count).mem_iff.mpr rfl hold
    | _ => exact hold
  · rw [h.sameThreads.threads] at ht
    have hold := hl.waits t cond ht
    cases h with
    | newCond => exact isSome_update hold
    | @dropCond c => exact isSome_update_none hold fun h => hdrop c rfl t (h ▸ ht)
    | wake => exact isSome_update hold
    | _ => exact hold
  · rw [h.sameThreads.threads] at ht
    have hold := hl.mutexes t id ht
    cases h with
    | newMutex => exact isSome_update hold
    | mutex => exact isSome_update hold
    | @destroyMutex id' => exact isSome_update_none hold fun h => hdestroy id' rfl t (h ▸ ht)
    | _ => exact hold

lemma Listed.of_update (hl : env.Listed) {thread : Thread}
    (hthreads : env'.threads = update env.threads t thread)
    (hqueued : ∀ u cond, u ≠ t → (env.threads u).blockedOn = some cond →
      ∃ object, env'.conds cond = some object ∧ u ∈ object.waiting ++ object.waking ∧
        object.currMutex = (env.threads u).awaits)
    (hself : ∀ cond, thread.blockedOn = some cond → ∃ object, env'.conds cond = some object ∧
      t ∈ object.waiting ++ object.waking ∧ object.currMutex = thread.awaits)
    (hconds : ∀ cond, (env.conds cond).isSome → (env'.conds cond).isSome)
    (hwaits : ∀ cond, thread.inWait = some cond → (env'.conds cond).isSome)
    (hmutexes : ∀ id, (env.mutexes id).isSome → (env'.mutexes id).isSome)
    (hwants : ∀ id, thread.wants = some id → (env'.mutexes id).isSome) : env'.Listed := by
  refine ⟨fun u cond hu => ?_, fun u cond hu => ?_, fun u id hu => ?_⟩ <;> rw [hthreads] at *
  all_goals
    by_cases hne : u = t
    · subst hne
      rw [update_self] at *
      first
        | exact hself cond hu
        | exact hwaits cond hu
        | exact hwants id hu
    · rw [update_of_ne hne] at *
      first
        | exact hqueued u cond hne hu
        | exact hconds cond (hl.waits u cond hu)
        | exact hmutexes id (hl.mutexes u id hu)

lemma Listed.blocks (hl : env.Listed) (h : env.Blocks env') : env'.Listed := by
  cases h with
  | @onMutex mutexId mutex =>
    refine hl.of_update rfl (fun u cond _ hu => hl.queued u cond hu) (by simp [blockedOn])
      (fun _ h => h) (by simp [inWait, HostCall.cond]) (fun _ h => isSome_update h) ?_
    rintro id ⟨⟩
    exact congrArg Option.isSome (update_self mutexId _ env.mutexes)
  | onSemaphore | sleeping | guestSleeping | joining =>
    exact hl.of_update rfl (fun u cond _ hu => hl.queued u cond hu) (by simp [blockedOn])
      (fun _ h => h) (by simp [inWait, HostCall.cond]) (fun _ h => h)
      (by simp [wants])

lemma Listed.waits_on (hl : env.Listed) {mutexId : ℕ} {object : CondHostObject}
    (deadline : Option ℕ) (hfound : env.conds cond = some object)
    (hsame : object.currMutex = some mutexId ∨ object.waking = [] ∧ object.waiting = [])
    (hmutex : (env.mutexes mutexId).isSome) :
    ((env.setCond cond
      { object with
        currMutex := some mutexId, waiting := object.waiting ++ [env.current] }).suspend
      (.condition cond deadline) (some (waitCall cond mutexId deadline))).Listed := by
  refine hl.of_update rfl (fun u c _ hu => ?_) (fun c hb => ?_) (fun _ h => isSome_update h)
    (fun c h => ?_) (fun _ h => h) fun id h => ?_
  · obtain ⟨o, ho, hmem, hcurr⟩ := hl.queued u c hu
    by_cases hcond : c = cond
    · subst hcond
      obtain rfl := some.inj (hfound.symm.trans ho)
      refine ⟨_, update_self _ _ _, ?_, ?_⟩
      · simp only [mem_append] at hmem ⊢
        tauto
      · obtain hsame | ⟨hwaking, hwaiting⟩ := hsame
        · exact hsame.symm.trans hcurr
        · simp [hwaking, hwaiting] at hmem
    · exact ⟨o, (update_of_ne hcond _ _).trans ho, hmem, hcurr⟩
  · obtain ⟨_, hb⟩ := blockedOn_eq_some.mp hb
    obtain ⟨rfl, -⟩ := ThreadBlock.condition.inj hb
    have hmem : env.current ∈ object.waiting ++ [env.current] ++ object.waking := by simp
    exact ⟨_, update_self _ _ _, hmem, by simp [awaits]⟩
  · simp only [inWait, bind_some, cond_waitCall, some.injEq] at h
    subst h
    exact congrArg Option.isSome (update_self cond _ env.conds)
  · simp only [wants, awaits, bind_some, released_waitCall,
      some.injEq] at h
    exact h ▸ hmutex

lemma Listed.passes (hl : env.Listed) {scan : Option ℕ} (h : env.Tried t now false e) :
    ({ e with scan } : Env).Listed := by
  cases h with
  | skipped => exact ⟨hl.queued, hl.waits, hl.mutexes⟩
  | @timedOutLocked c mutexId due object hb hfound hcurr hdue hfresh hlocked =>
    refine hl.of_update rfl (fun u cond hu hon => ?_) (by simp [blockedOn])
      (fun _ h => isSome_update h) (fun cond h => isSome_update (hl.waits t cond h))
      (fun _ h => h) ?_
    · refine queued_setCond hfound
        { object with
          timedOut := insert t object.timedOut
          waking := object.waking.filter (· ≠ t)
          waiting := object.waiting.filter (· ≠ t) } (fun hmem => ?_) rfl (hl.queued u cond hon)
      simp only [mem_append, mem_filter] at hmem ⊢
      simpa [hu] using hmem
    · rintro id ⟨⟩
      unfold mutexIsLocked at hlocked
      obtain ⟨mutex, hmutex, -⟩ := (any_eq_true _ _).mp hlocked
      exact congrArg Option.isSome hmutex

lemma Listed.freed (hl : env.Listed)
    (hthreads : env'.threads = update env.threads t (env.threads t).freed)
    (hqueued : ∀ u cond, u ≠ t → (env.threads u).blockedOn = some cond →
      ∃ object, env'.conds cond = some object ∧ u ∈ object.waiting ++ object.waking ∧
        object.currMutex = (env.threads u).awaits)
    (hconds : ∀ cond, (env.conds cond).isSome → (env'.conds cond).isSome)
    (hmutexes : ∀ id, (env.mutexes id).isSome → (env'.mutexes id).isSome) : env'.Listed :=
  hl.of_update hthreads hqueued (by simp [blockedOn]) hconds (by simp [inWait])
    hmutexes (by simp [wants])

lemma Listed.picks (hl : env.Listed) (h : env.Picked t now r env') : env'.Listed := by
  cases h with
  | running | slept | noSemaphore | semaphore =>
    exact hl.freed rfl (fun u cond _ hu => hl.queued u cond hu) (fun _ h => h) fun _ h => h
  | lock | relocked =>
    exact hl.freed rfl (fun u cond _ hu => hl.queued u cond hu) (fun _ h => h)
      fun _ h => isSome_update h
  | @woken c mutexId released deadline object mutex hb hcall hfound hcurr hhead =>
    refine hl.freed rfl (fun u cond hne hu => ?_) (fun _ h => isSome_update h)
      fun _ h => isSome_update h
    obtain ⟨rest, hrest⟩ := head?_eq_some_iff.mp hhead
    refine queued_setCond hfound { object with waking := object.waking.tail } (fun hmem => ?_) rfl
      (hl.queued u cond hu)
    simp only [hrest, mem_append, mem_cons, tail_cons] at hmem ⊢
    tauto
  | @timedOut c mutexId released due object mutex hb hcall hfound =>
    refine hl.freed rfl (fun u cond hne hu => ?_) (fun _ h => isSome_update h)
      fun _ h => isSome_update h
    refine queued_setCond hfound
      { object with
        waking := object.waking.filter (· ≠ t)
        waiting := object.waiting.filter (· ≠ t) } (fun hmem => ?_) rfl (hl.queued u cond hu)
    simp only [mem_append, mem_filter] at hmem ⊢
    simpa [hne] using hmem
  | @relockedLate c mutexId released object mutex hb hcall hfound =>
    refine hl.freed rfl (fun u cond _ hu => ?_) (fun _ h => isSome_update h)
      fun _ h => isSome_update h
    exact queued_setCond hfound { object with timedOut := object.timedOut.erase t }
      (fun hmem => hmem) rfl (hl.queued u cond hu)

end Changes

section Calls

lemma Coherent.lt_of_ne_idle (hc : env.Coherent) (h : env.threads t ≠ .idle) :
    t < env.threadCount := by
  by_contra ht
  exact h (hc.idle t (not_lt.mp ht))

lemma Coherent.nobodyBlockedOn (hc : env.Coherent) (h : env.NobodyBlockedOn cond) (t : ℕ) :
    (env.threads t).blockedOn ≠ some cond := by
  intro ht
  have hne : env.threads t ≠ .idle := by
    intro hidle
    rw [hidle] at ht
    cases ht
  exact h t (hc.lt_of_ne_idle hne) ht

lemma Coherent.nobodyInWait (hc : env.Coherent) (h : env.NobodyInWait cond) (t : ℕ) :
    (env.threads t).inWait ≠ some cond := by
  intro ht
  have hne : env.threads t ≠ .idle := by
    intro hidle
    rw [hidle] at ht
    cases ht
  exact h t (hc.lt_of_ne_idle hne) ht

structure Harmless (env : Env) (allowed : Change → Prop) : Prop where
  newCond : ∀ cond, allowed (.newCond cond) → ∀ t, (env.threads t).blockedOn ≠ some cond
  dropCond : ∀ cond, allowed (.dropCond cond) → ∀ t, (env.threads t).inWait ≠ some cond
  destroyMutex : ∀ id, allowed (.destroyMutex id) → ∀ t, (env.threads t).wants ≠ some id

variable {allowed : Change → Prop}

lemma Harmless.of_sameThreads (h : env.Harmless allowed) (hsame : SameThreads env e) :
    e.Harmless allowed := by
  constructor
  · rw [hsame.threads]
    exact h.newCond
  · rw [hsame.threads]
    exact h.dropCond
  · rw [hsame.threads]
    exact h.destroyMutex

lemma Harmless.changes (h : env.Harmless allowed)
    (hsame : SameThreads env e) (hc' : e.Coherent) (hl' : e.Listed) {c : Change} (hallowed : allowed c)
    (hchange : e.Changes c env') : env'.Listed := by
  have h := h.of_sameThreads hsame
  exact hl'.changes hc' hchange (fun cond hcond => h.newCond cond (hcond ▸ hallowed))
    (fun cond hcond => h.dropCond cond (hcond ▸ hallowed))
    fun id hid => h.destroyMutex id (hid ▸ hallowed)

lemma Listed.path (hl : env.Listed) (hc : env.Coherent) (hharmless : env.Harmless allowed)
    (h : Path allowed env env') : env'.Coherent ∧ env'.Listed :=
  h.preserves (I := fun e => e.Coherent ∧ e.Listed)
    (fun _ _ _ hsame hallowed hchange ⟨hc', hl'⟩ =>
      ⟨hc'.changes hchange, hharmless.changes hsame hc' hl' hallowed hchange⟩) ⟨hc, hl⟩

lemma Listed.effect (hl : env.Listed) (hc : env.Coherent) (hscan : env.scan = none)
    (hharmless : env.Harmless allowed) (hawait : ∀ cond, ¬ allowed (.await cond))
    (h : Effect allowed env env') : env'.Listed := by
  have hboth := h.preserves (I := fun e => e.Coherent ∧ e.Listed) ⟨hc, hl⟩
    (fun _ _ _ hsame hallowed hchange ⟨hc', hl'⟩ =>
      ⟨hc'.changes hchange, hharmless.changes hsame hc' hl' hallowed hchange⟩)
    (fun _ _ hsame hblock ⟨hc', hl'⟩ =>
      ⟨hc'.blocks (hsame.scan.trans hscan) hblock, hl'.blocks hblock⟩)
    (fun _ cond _ _ hallowed => absurd hallowed (hawait cond))
  exact hboth.2

lemma destroyAt_cases {ptr : ℕ} {magic static : UInt32} (hs : static ≠ 0)
    (h : env.onMutex ptr magic static
      (fun env mutexId => (env.writeMutex ptr 0 noMutexId).destroyInner mutexId) = .ok (r, env')) :
    Path (fun c => c = .memory ∨ c = .newMutex) env env' ∨
    ∃ e id m, Path (fun c => c = .memory ∨ c = .newMutex) env e ∧ e.mutexes id = some m ∧
      m.locked = none ∧ m.waitingCount = 0 ∧
      env' = { e with mutexes := update e.mutexes id none } ∧
      (id = env.mutexCount ∨
        env.readWord ptr 0 = magic ∧ id = env.readMutexId ptr ∧ e.mutexes = env.mutexes) := by
  obtain ⟨checked, hcheck, h⟩ := bind_eq_ok.mp h
  cases checked with
  | error err =>
    obtain ⟨-, rfl⟩ := ok_pair_inj h
    exact .inl .refl
  | ok e =>
    have hwritten : Path (fun c => c = .memory ∨ c = .newMutex) env (e.writeMutex ptr 0 noMutexId) :=
      (path_checkOrRegister hcheck (.inl rfl) (.inr rfl)).trans
        ((changes_writeWords _).path (.inl rfl))
    obtain ⟨⟨result, e'⟩, hdestroy, h⟩ := bind_eq_ok.mp h
    obtain ⟨-, rfl⟩ := ok_pair_inj h
    obtain ⟨m, hm, hdestroy⟩ := bind_eq_ok.mp hdestroy
    split_ifs at hdestroy with hlocked hcount <;>
      obtain ⟨-, rfl⟩ := ok_pair_inj hdestroy
    · exact .inl hwritten
    · exact .inl hwritten
    · refine .inr ⟨_, _, m, hwritten, unwrap_eq_ok.mp hm, not_not.mp hlocked, not_not.mp hcount,
        rfl, ?_⟩
      obtain ⟨-, hid, -⟩ | ⟨-, hmagic, rfl⟩ := checkOrRegister_cases hs hcheck
      · exact .inl hid
      · exact .inr ⟨hmagic, rfl, mutexes_writeWords.1⟩

lemma Listed.destroyAt (hl : env.Listed) (hc : env.Coherent) {ptr : ℕ} {magic static : UInt32}
    (hs : static ≠ 0) (hsafe : env.DestroySafe ptr magic)
    (h : env.onMutex ptr magic static
      (fun env mutexId => (env.writeMutex ptr 0 noMutexId).destroyInner mutexId) = .ok (r, env')) :
    env'.Listed := by
  have hharmless : env.Harmless fun c => c = .memory ∨ c = .newMutex :=
    ⟨by simp, by simp, by simp⟩
  obtain hpath | ⟨e, id, m, hpath, hm, hlocked, hcount, rfl, hid⟩ := destroyAt_cases hs h
  · exact (hl.path hc hharmless hpath).2
  · obtain ⟨hc', hl'⟩ := hl.path hc hharmless hpath
    refine hl'.changes hc' (Changes.destroyMutex hm hlocked hcount) (by simp) (by simp) ?_
    rintro _ ⟨⟩ t ht
    rw [hpath.sameThreads.threads] at ht
    obtain rfl | ⟨hmagic, rfl, hmutexes⟩ := hid
    · -- No thread wants a mutex that has only just been created.
      have hfound := hl.mutexes t _ ht
      rw [hc.fresh _ le_rfl] at hfound
      cases hfound
    · have hlt : t < env.threadCount := hc.lt_of_ne_idle fun hidle => by rw [hidle] at ht; cases ht
      exact hsafe hmagic m (hmutexes ▸ hm) hlocked hcount t hlt ht

def Registers (env : Env) (cond : ℕ) (c : Change) : Prop :=
  c = .memory ∨ c = .newMutex ∨ c = .mutex ∨
    c = .newCond cond ∧ env.readWord cond 0 = magicCondStatic

lemma CondSafe.harmless (h : env.CondSafe cond) (hc : env.Coherent) :
    env.Harmless (env.Registers cond) := by
  refine ⟨fun c hallowed => ?_, by simp [Registers], by simp [Registers]⟩
  obtain ⟨rfl, hstatic⟩ : c = cond ∧ env.readWord cond 0 = magicCondStatic := by
    simpa [Registers] using hallowed
  exact hc.nobodyBlockedOn (h.2 hstatic)

lemma Listed.wait (hl : env.Listed) (hc : env.Coherent) {mutex : ℕ} {deadline : Option ℕ}
    (hsafe : env.CondSafe cond) (h : env.releaseAndWait cond mutex deadline = .ok (r, env')) :
    env'.Listed := by
  have hharmless := hsafe.harmless hc
  have hregister : ∀ {e}, env.checkOrRegisterCond cond = .ok e → Path (env.Registers cond) env e :=
    fun hcheck => path_checkOrRegisterCond hcheck (.inl rfl) fun hs =>
      .inr (.inr (.inr ⟨rfl, hs⟩))
  have hunlocks : ∀ {e e₁ : Env} {r}, e.pthreadMutexUnlock mutex = .ok (r, e₁) →
      Path (env.Registers cond) e e₁ :=
    fun h => path_pthreadMutexUnlock (.inl rfl) (.inr (.inl rfl))
      (.inr (.inr (.inl rfl))) h
  obtain ⟨-, -, rfl⟩ | ⟨e, hcheck, ⟨-, hunlock⟩ | ⟨e₁, hunlock, hwait⟩⟩ := releaseAndWait_cases h
  · exact hl
  · exact (hl.path hc hharmless ((hregister hcheck).trans (hunlocks hunlock))).2
  · have hl₁ := (hl.path hc hharmless ((hregister hcheck).trans (hunlocks hunlock))).2
    obtain ⟨-, m, m', -, -, rfl⟩ := pthreadMutexUnlock_succeeds hunlock
    obtain ⟨object, hobject, hsame, -, -, rfl⟩ := waitOnCond_eq_ok.mp hwait
    exact hl₁.waits_on deadline hobject hsame
      (congrArg Option.isSome (update_self (e.readMutexId mutex) _ e.mutexes))

lemma checkOrRegisterCond_of_not_known (h : ¬ env.Known cond) :
    env.checkOrRegisterCond cond = .error EINVAL := by
  obtain ⟨hstatic, hmagic⟩ := not_or.mp h
  simp only [checkOrRegisterCond, if_neg hstatic, if_neg hmagic]

lemma Listed.call (hl : env.Listed) (hc : env.Coherent) (hscan : env.scan = none) {c : Call}
    (hsafe : env.CallSafe c) (h : env.call c = .ok (r, env')) : env'.Listed := by
  have heffect := effect_call h
  cases c with
  | condWait cond mutex => exact hl.wait hc hsafe.1 h
  | condTimedwait cond mutex absTime => exact hl.wait hc hsafe.1 h
  | mutexDestroy mutex => exact hl.destroyAt hc (by decide) hsafe h
  | rwlockDestroy rwlock => exact hl.destroyAt hc (by decide) hsafe h
  | condInit cond =>
    refine hl.effect hc hscan ⟨fun c hallowed => ?_, by simp [Call.Allows], by simp [Call.Allows]⟩
      (by simp [Call.Allows]) heffect
    obtain rfl : cond = c := by
      obtain h | h := hallowed
      · exact Call.condInit.inj h
      · exact some.inj h.1
    exact hc.nobodyBlockedOn hsafe
  | condSignal cond | condBroadcast cond =>
    refine hl.effect hc hscan ⟨fun c hallowed => ?_, by simp [Call.Allows], by simp [Call.Allows]⟩
      (by simp [Call.Allows]) heffect
    obtain h | ⟨hcond, hstatic⟩ := hallowed
    · cases h
    · obtain rfl : cond = c := some.inj hcond
      exact hc.nobodyBlockedOn (hsafe.2 hstatic)
  | condDestroy cond =>
    by_cases hknown : env.Known cond
    · have hnobody := hc.nobodyInWait (hsafe.2 hknown)
      refine hl.effect hc hscan ⟨fun c hallowed => ?_, fun c hallowed => ?_, by simp [Call.Allows]⟩
        (by simp [Call.Allows]) heffect
      · obtain h | ⟨hcond, hstatic⟩ := hallowed
        · cases h
        · obtain rfl : cond = c := some.inj hcond
          exact hc.nobodyBlockedOn (hsafe.1.2 hstatic)
      · obtain rfl : cond = c := Call.condDestroy.inj hallowed
        exact hnobody
    · obtain ⟨-, rfl⟩ | ⟨e, object, hcheck, -⟩ := pthreadCondDestroy_cases h
      · exact hl
      · rw [checkOrRegisterCond_of_not_known hknown] at hcheck
        cases hcheck
  | _ =>
    exact hl.effect hc hscan
      ⟨by simp [Call.Allows, Call.cond], by simp [Call.Allows], by simp [Call.Allows]⟩
      (by simp [Call.Allows]) heffect

lemma Listed.newThread (hl : env.Listed) : env.newThread.Listed :=
  hl.of_update rfl (fun u cond _ hu => hl.queued u cond hu)
    (by simp [blockedOn, started]) (fun _ h => h)
    (by simp [inWait, started]) (fun _ h => h) (by simp [wants, started])

lemma Listed.sameBlocks (hl : env.Listed) (h : SameBlocks env env') : env'.Listed := by
  have hthreads : ∀ t, (env'.threads t).blockedOn = (env.threads t).blockedOn ∧
      (env'.threads t).inWait = (env.threads t).inWait ∧
      (env'.threads t).awaits = (env.threads t).awaits ∧
      (env'.threads t).wants = (env.threads t).wants := fun t => by
    simp only [blockedOn, inWait, awaits, wants, (h.blocks t).1,
      (h.blocks t).2, and_self]
  constructor
  · simp only [(hthreads _).1, (hthreads _).2.2.1, h.conds]
    exact hl.queued
  · simp only [(hthreads _).2.1, h.conds]
    exact hl.waits
  · simp only [(hthreads _).2.2.2, h.mutexes]
    exact hl.mutexes

lemma Listed.moved (hl : env.Listed) (hc : env.Coherent) {a : Action} (ha : env.ActionSafe a)
    (h : env.Moved a r env') : env'.Listed := by
  cases h with
  | aside _ hsame => exact hl.sameBlocks hsame
  | call hscan hcall => exact hl.call hc hscan (ha hscan) hcall
  | newThread => exact hl.newThread
  | pass _ htried => exact hl.passes htried
  | pick _ _ _ hpicked => exact hl.picks hpicked

end Calls

section NoFault

lemma relock_ok {id : ℕ} (hfound : (env.mutexes id).isSome) (hfree : env.mutexIsLocked id = false) :
    ∃ e, (env.unblock t).relockUnblockedMutexForThread t id = .ok e := by
  obtain ⟨mutex, hmutex⟩ := isSome_iff_exists.mp hfound
  exact ⟨_, relockUnblocked_eq_ok.mpr ⟨mutex, ⟨hmutex, (mutexIsLocked_eq_false hmutex).mp hfree⟩, rfl⟩⟩

lemma Listed.timeOut_ok (hl : env.Listed) (hc : env.Coherent) {id due : ℕ}
    {object : CondHostObject} (hb : (env.threads t).blockedBy = .condition cond (some due))
    (hfound : env.conds cond = some object) (hid : (env.threads t).awaits = some id) :
    ∃ x, env.timeOut t cond id object = .ok x := by
  unfold timeOut
  rw [assert_of (hc.not_mem_timedOut hb hfound), ok_bind]
  dsimp only
  split_ifs with hlocked
  · exact ⟨_, rfl⟩
  · have hexists := hl.mutexes t id (by simp [wants, hb, hid])
    have hrelock : ∃ e, ((env.leave t cond object).unblock t).relockUnblockedMutexForThread t id =
        .ok e := relock_ok hexists (Bool.eq_false_of_not_eq_true hlocked)
    obtain ⟨e, he⟩ := hrelock
    exact ⟨_, bind_eq_ok.mpr ⟨e, he, rfl⟩⟩

lemma Listed.tryCandidate_ok (hl : env.Listed) (hc : env.Coherent) (t : ℕ) (now : Clock) :
    ∃ x, env.tryCandidate t now = .ok x := by
  unfold tryCandidate
  split_ifs
  · exact ⟨_, rfl⟩
  · exact ⟨_, rfl⟩
  split
  · exact ⟨_, rfl⟩
  · exact ⟨_, rfl⟩
  · next id hb =>
    unfold unblockedOnMutex
    split_ifs with hlocked
    · exact ⟨_, rfl⟩
    · have hexists := hl.mutexes t id (by simp [wants, hb])
      obtain ⟨e, he⟩ := relock_ok (t := t) hexists (Bool.eq_false_of_not_eq_true hlocked)
      exact ⟨_, bind_eq_ok.mpr ⟨e, he, rfl⟩⟩
  · unfold unblockedOnSemaphore
    split
    · exact ⟨_, rfl⟩
    · dsimp only
      split_ifs <;> exact ⟨_, rfl⟩
  · next cond deadline hb =>
    obtain ⟨object, hobject, -, hcurr⟩ := hl.queued t cond (blockedOn_eq_some.mpr ⟨deadline, hb⟩)
    obtain ⟨id, hcall⟩ := hc.hostCall_of_condition hb
    have hid : (env.threads t).awaits = some id := by simp [awaits, hcall]
    rw [hid] at hcurr
    simp only [unblockedOnCondition, hobject, hcurr, unwrap_some, ok_bind]
    split_ifs with hhead hdue
    · have hexists := hl.mutexes t id (by simp [wants, hb, hid])
      have hfree : env.mutexIsLocked id = false := by simpa using hhead.2
      have hrelock : ∃ e, ((env.setCond cond
          { object with currMutex := some id, waking := object.waking.tail }).unblock
            t).relockUnblockedMutexForThread t id = .ok e := relock_ok hexists hfree
      obtain ⟨e, he⟩ := hrelock
      exact ⟨_, bind_eq_ok.mpr ⟨e, he, rfl⟩⟩
    · obtain ⟨due, rfl, -⟩ := (any_eq_true _ _).mp hdue
      exact hl.timeOut_ok hc hb hobject hid
    · exact ⟨_, rfl⟩
  · next joinee hb =>
    rw [if_neg (not_le.mpr (hc.joinee_lt t joinee hb))]
    split_ifs <;> exact ⟨_, rfl⟩
  · exact ⟨_, rfl⟩

lemma Tried.thread (h : env.Tried t now true e) :
    e.threads t = { env.threads t with blockedBy := .notBlocked } := by
  cases h with
  | running hb => rw [← hb]
  | _ => exact update_self _ _ _

lemma Coherent.not_timedOut (hc : env.Coherent) (h : env.Tried t now true e) {id : ℕ}
    (hcall : (env.threads t).hostCall = some (.condWait cond id)) {object' : CondHostObject}
    (hobject' : e.conds cond = some object') : t ∉ object'.timedOut := by
  have hnot : ∀ {c object}, env.conds c = some object → t ∉ object.timedOut := by
    intro c object hobject ht
    obtain ⟨-, id', hcall'⟩ := (hc.tidy c object hobject).timedOut t ht
    cases hcall.symm.trans hcall'
  cases h with
  | @woken c mutexId deadline object mutex hb hfound =>
    by_cases hcond : cond = c
    · subst hcond
      obtain rfl := some.inj ((update_self cond _ env.conds).symm.trans hobject')
      have hnot := hnot hfound
      exact hnot
    · exact hnot ((update_of_ne hcond _ env.conds).symm.trans hobject')
  | timedOut hb =>
    obtain ⟨id', hcall'⟩ := hc.hostCall_of_condition hb
    cases hcall.symm.trans hcall'
  | _ => exact hnot hobject'

lemma Tried.conds_isSome {picked : Bool} (h : env.Tried t now picked e)
    (hfound : (env.conds cond).isSome) : (e.conds cond).isSome := by
  cases h with
  | woken | timedOut | timedOutLocked => exact isSome_update hfound
  | _ => exact hfound

lemma finish_ok {hostCall : HostCall} (h : ∀ cond, hostCall.cond = some cond → ∃ object,
    env.conds cond = some object ∧
      ((∃ id, hostCall = .condWait cond id) → env.current ∉ object.timedOut)) :
    ∃ x, env.finish hostCall = .ok x := by
  cases hostCall with
  | lock | semWait | other => exact ⟨_, rfl⟩
  | condWait cond id =>
    obtain ⟨object, hobject, hin⟩ := h cond rfl
    simp only [finish, hobject, unwrap_some, ok_bind, assert_of (hin ⟨id, rfl⟩)]
    exact ⟨_, rfl⟩
  | condTimedwait cond id =>
    obtain ⟨object, hobject, -⟩ := h cond rfl
    simp only [finish, hobject, unwrap_some, ok_bind]
    split_ifs <;> exact ⟨_, rfl⟩

lemma Listed.resume_ok (hl : env.Listed) (hc : env.Coherent) (hrun : env.Runnable t)
    (h : env.Tried t now true e) : ∃ x, (e.switchTo t).resume = .ok x := by
  have hthread : (e.switchTo t).threads t = { env.threads t with blockedBy := .notBlocked } :=
    h.thread
  have hnot : ¬ ((e.switchTo t).threads (e.switchTo t).current).isBlocked := by
    rintro (hb | hb)
    · exact hb (congrArg blockedBy hthread)
    · exact hb ((congrArg suspendCount hthread).trans hrun.2)
  have hcall : ((e.switchTo t).threads (e.switchTo t).current).hostCall =
      (env.threads t).hostCall := (congrArg hostCall hthread).trans rfl
  unfold resume
  simp only [assert_of hnot, ok_bind, hcall]
  split
  · exact ⟨_, rfl⟩
  · next hostCall hhost =>
    refine finish_ok fun cond hcond => ?_
    have hwait : (env.threads t).inWait = some cond := by simp [inWait, hhost, hcond]
    obtain ⟨object, hobject⟩ :=
      isSome_iff_exists.mp (h.conds_isSome (hl.waits t cond hwait))
    refine ⟨object, hobject, ?_⟩
    rintro ⟨id, rfl⟩
    exact hc.not_timedOut h hhost hobject

lemma Listed.visit_ok (hl : env.Listed) (hc : env.Coherent) (now : Clock) :
    ∃ x, env.serve (.visit now) = .ok x := by
  unfold serve visit
  dsimp only
  split
  · exact ⟨_, rfl⟩
  · next i hscan =>
    obtain ⟨⟨picked, e⟩, htry⟩ := hl.tryCandidate_ok hc (env.candidate i) now
    cases picked with
    | false => exact ⟨_, bind_eq_ok.mpr ⟨_, htry, rfl⟩⟩
    | true =>
      obtain ⟨x, hresume⟩ := hl.resume_ok hc (runnable_of_tryCandidate htry)
        (tried_of_tryCandidate htry)
      exact ⟨x, bind_eq_ok.mpr ⟨_, htry, hresume⟩⟩

lemma unlockMutex_ok {id : ℕ} (h : (env.mutexes id).isSome) : ∃ x, env.unlockMutex id = .ok x := by
  obtain ⟨mutex, hmutex⟩ := isSome_iff_exists.mp h
  unfold unlockMutex
  rw [hmutex, unwrap_some, ok_bind]
  dsimp only
  split
  · exact ⟨_, rfl⟩
  split
  · exact ⟨_, rfl⟩
  · next lock hlocked =>
    split
    · exact ⟨_, rfl⟩
    split
    · exact ⟨_, rfl⟩
    · next hone =>
      have hpos := lock.count_pos
      have hless : lock.onceLess = .ok ⟨lock.thread, lock.count - 1, by omega⟩ := dif_pos _
      rw [dif_pos (mutex.nested lock hlocked hone), hless]
      exact ⟨_, rfl⟩

lemma MutexSafe.unlock_ok {mutex : ℕ} (h : env.MutexSafe cond mutex) :
    ∃ r e, env.pthreadMutexUnlock mutex = .ok (some r, e) := by
  have hunlock : ∀ {e : Env} {id : ℕ}, (e.mutexes id).isSome →
      ∃ r e', e.unlockInner id = .ok (some r, e') := by
    intro e id hfound
    obtain ⟨x, hx⟩ := unlockMutex_ok hfound
    exact ⟨_, _, bind_eq_ok.mpr ⟨x, hx, rfl⟩⟩
  by_cases hstatic : env.readWord mutex 0 = magicMutexStatic
  · obtain ⟨e₀, hnew⟩ : ∃ e₀, env.newMutexAt mutex magicMutex pthreadMutexDefault = .ok e₀ :=
      ⟨_, newMutexAt_eq_ok.mpr ⟨h.1 hstatic, rfl⟩⟩
    have hcheck := checkOrRegister_eq_ok.mpr (.inl ⟨hstatic, hnew⟩)
    obtain ⟨-, hid, hmutexes, -⟩ | ⟨hnot, -⟩ := checkOrRegister_cases (by decide) hcheck
    · have hfound : (e₀.mutexes (e₀.readMutexId mutex)).isSome := by
        rw [hid, hmutexes, update_self]
        rfl
      obtain ⟨r, e, he⟩ := hunlock hfound
      exact ⟨r, e, bind_eq_ok.mpr ⟨_, hcheck, he⟩⟩
    · exact absurd hstatic hnot
  by_cases hmagic : env.readWord mutex 0 = magicMutex
  · obtain ⟨m, hm, -⟩ := h.2 hmagic
    have hcheck := checkOrRegister_eq_ok.mpr (.inr ⟨hstatic, hmagic, rfl⟩)
    obtain ⟨r, e, he⟩ := hunlock (congrArg Option.isSome hm)
    exact ⟨r, e, bind_eq_ok.mpr ⟨_, hcheck, he⟩⟩
  · have hcheck : env.checkOrRegister mutex magicMutex magicMutexStatic = .ok (.error EINVAL) := by
      simp only [checkOrRegister, if_neg hstatic, if_neg hmagic, pure_eq_ok]
    exact ⟨EINVAL, env, bind_eq_ok.mpr ⟨_, hcheck, rfl⟩⟩

lemma CondSafe.found (h : env.CondSafe cond) (hcheck : env.checkOrRegisterCond cond = .ok e) :
    ∃ object, e.conds cond = some object ∧
      (env.readWord cond 0 = magicCondStatic ∧ object = .new ∨ e = env) := by
  unfold checkOrRegisterCond at hcheck
  split_ifs at hcheck with hstatic hmagic
  · obtain rfl := Except.ok.inj hcheck
    exact ⟨_, update_self _ _ _, .inl ⟨hstatic, rfl⟩⟩
  · obtain rfl := Except.ok.inj hcheck
    obtain ⟨object, hobject⟩ := isSome_iff_exists.mp (h.1 hmagic)
    exact ⟨object, hobject, .inr rfl⟩

lemma Listed.wait_ok (hl : env.Listed) (hc : env.Coherent) (hscan : env.scan = none) {mutex : ℕ}
    (deadline : Option ℕ) (hsafe : env.WaitSafe cond mutex) :
    ∃ x, env.releaseAndWait cond mutex deadline = .ok x := by
  unfold releaseAndWait
  split
  · exact ⟨_, rfl⟩
  · next e hcheck =>
    have hmutex := hsafe.2 e (by rw [hcheck]; rfl)
    obtain ⟨r, e₁, hunlock⟩ := hmutex.unlock_ok
    rw [hunlock, ok_bind]
    dsimp only
    split_ifs with hr
    · exact ⟨_, rfl⟩
    obtain rfl : r = 0 := by simpa using hr
    obtain ⟨hmagic, m, m', hm, hunlocked, rfl⟩ := pthreadMutexUnlock_succeeds hunlock
    have hpath : Path (fun _ => True) env e :=
      path_checkOrRegisterCond hcheck trivial fun _ => trivial
    have hsame := hpath.sameThreads
    obtain ⟨m₀, hm₀, hothers⟩ := hmutex.2 hmagic
    obtain rfl := some.inj (hm.symm.trans hm₀)
    have hothers := hothers hunlocked.unlockable
    obtain ⟨object, hobject, horigin⟩ := hsafe.1.found hcheck
    have hcurr : object.currMutex = some (e.readMutexId mutex) ∨
        object.waking = [] ∧ object.waiting = [] := by
      obtain ⟨-, rfl⟩ | rfl := horigin
      · exact .inr ⟨rfl, rfl⟩
      by_cases hempty : object.waiting ++ object.waking = []
      · exact .inr (append_eq_nil_iff.mp hempty).symm
      · -- Those that wait already have released the same mutex.
        obtain ⟨t, ht⟩ := exists_mem_of_ne_nil _ hempty
        obtain ⟨deadline', hb⟩ := (hc.tidy cond object hobject).queued t ht
        obtain ⟨id, hcall⟩ := hc.hostCall_of_condition hb
        have hid : (e.threads t).awaits = some id := by simp [awaits, hcall]
        obtain ⟨o, ho, -, hcurr⟩ := hl.queued t cond (blockedOn_eq_some.mpr ⟨deadline', hb⟩)
        obtain rfl := some.inj (hobject.symm.trans ho)
        have hlt : t < e.threadCount := hc.lt_of_blockedBy (by rw [hb]; simp)
        refine .inl ((hcurr.trans hid).trans (congrArg some ?_))
        exact hothers t hlt id (awaitsOn_of_awaits hb hid)
    have hrunning : ¬ (e.threads e.current).isBlocked := by
      rw [hsame.threads, hsame.current]
      exact hc.running hscan
    exact ⟨_, waitOnCond_eq_ok.mpr ⟨object, hobject, hcurr, hrunning, rfl, rfl⟩⟩

def CondReply (r : Option ℤ) : Prop := r = none ∨ r = some 0 ∨ r = some EINVAL ∨ r = some EPERM

lemma reply_unlock {ptr : ℕ} (h : env.pthreadMutexUnlock ptr = .ok (r, env')) : CondReply r := by
  obtain ⟨checked, hcheck, h⟩ := bind_eq_ok.mp h
  cases checked with
  | error err =>
    obtain ⟨rfl, -⟩ := ok_pair_inj h
    exact .inr (.inr (.inl (congrArg some (checkOrRegister_error hcheck))))
  | ok e =>
    obtain ⟨⟨result, e'⟩, hunlock, h⟩ := bind_eq_ok.mp h
    obtain ⟨rfl, -⟩ := ok_pair_inj h
    obtain ⟨mutex, -, ⟨n, -, rfl, -⟩ | ⟨rfl, -⟩⟩ := unlockMutex_cases hunlock
    · exact .inr (.inl rfl)
    · exact .inr (.inr (.inr rfl))

lemma reply_wait {mutex : ℕ} {deadline : Option ℕ}
    (h : env.releaseAndWait cond mutex deadline = .ok (r, env')) : CondReply r := by
  obtain ⟨-, rfl, -⟩ | ⟨e, -, ⟨-, hunlock⟩ | ⟨e₁, -, hwait⟩⟩ := releaseAndWait_cases h
  · exact .inr (.inr (.inl rfl))
  · exact reply_unlock hunlock
  · obtain ⟨object, -, -, -, rfl, -⟩ := waitOnCond_eq_ok.mp hwait
    exact .inl rfl

lemma CondSafe.signal_ok (h : env.CondSafe cond) :
    (∃ r e, env.pthreadCondSignal cond = .ok (r, e) ∧ CondReply r) ∧
      ∃ r e, env.pthreadCondBroadcast cond = .ok (r, e) ∧ CondReply r := by
  unfold pthreadCondSignal pthreadCondBroadcast
  split
  · next err hcheck =>
    obtain rfl := checkOrRegisterCond_error hcheck
    exact ⟨⟨_, _, rfl, .inr (.inr (.inl rfl))⟩, _, _, rfl, .inr (.inr (.inl rfl))⟩
  · next e hcheck =>
    obtain ⟨object, hobject, -⟩ := h.found hcheck
    simp only [hobject, unwrap_some, ok_bind]
    exact ⟨⟨_, _, rfl, .inr (.inl rfl)⟩, _, _, rfl, .inr (.inl rfl)⟩

lemma Coherent.condDestroy_ok (hc : env.Coherent) (h : env.CondSafe cond)
    (hnobody : env.Known cond → env.NobodyInWait cond) :
    ∃ r e, env.pthreadCondDestroy cond = .ok (r, e) ∧ CondReply r := by
  unfold pthreadCondDestroy
  split
  · next err hcheck =>
    obtain rfl := checkOrRegisterCond_error hcheck
    exact ⟨_, _, rfl, .inr (.inr (.inl rfl))⟩
  · next e hcheck =>
    obtain ⟨object, hobject, horigin⟩ := h.found hcheck
    have hempty : object.waiting = [] ∧ object.waking = [] := by
      obtain ⟨-, rfl⟩ | rfl := horigin
      · exact ⟨rfl, rfl⟩
      · rw [← append_eq_nil_iff]
        by_contra hne
        obtain ⟨t, ht⟩ := exists_mem_of_ne_nil _ hne
        obtain ⟨deadline, hb⟩ := (hc.tidy cond object hobject).queued t ht
        have hknown : e.Known cond := by
          by_contra hnot
          rw [checkOrRegisterCond_of_not_known hnot] at hcheck
          cases hcheck
        exact hc.nobodyInWait (hnobody hknown) t
          (hc.inWait_of_blockedOn (blockedOn_eq_some.mpr ⟨deadline, hb⟩))
    simp only [hobject, unwrap_some, ok_bind, assert_of hempty]
    exact ⟨_, _, rfl, .inr (.inl rfl)⟩

lemma Listed.cond_call_ok (hl : env.Listed) (hc : env.Coherent) (hscan : env.scan = none) {c : Call}
    (hcond : c.cond ≠ none) (hsafe : env.CallSafe c) :
    ∃ r env', env.call c = .ok (r, env') ∧ CondReply r := by
  cases c with
  | condInit cond => exact ⟨_, _, rfl, .inr (.inl rfl)⟩
  | condWait cond mutex =>
    obtain ⟨⟨r, env'⟩, h⟩ := hl.wait_ok hc hscan none hsafe
    exact ⟨r, env', h, reply_wait h⟩
  | condTimedwait cond mutex absTime =>
    obtain ⟨⟨r, env'⟩, h⟩ := hl.wait_ok hc hscan (some (env.readDeadline absTime)) hsafe
    exact ⟨r, env', h, reply_wait h⟩
  | condSignal cond =>
    have hsafe : env.CondSafe cond := hsafe
    exact hsafe.signal_ok.1
  | condBroadcast cond =>
    have hsafe : env.CondSafe cond := hsafe
    exact hsafe.signal_ok.2
  | condDestroy cond => exact hc.condDestroy_ok hsafe.1 hsafe.2
  | _ => exact absurd rfl hcond

lemma Picked.reply (h : env.Picked t now r env') : r = none ∨ r = some 0 ∨ r = some ETIMEDOUT := by
  cases h <;> simp

end NoFault

/-- If condition variables are used with one mutex at a time, and are neither replaced nor
destroyed under threads that wait, then no call on them and no visit of the scheduler faults, and
every blocked thread is in one queue of its condition variable, with the mutex it has released. -/
theorem exec_cond {words : ℕ → UInt32} {nullSegmentSize : ℕ} {actions : List Action}
    (hsafe : Along step ActionSafe (boot words nullSegmentSize) actions)
    (h : (boot words nullSegmentSize).exec actions = .ok env) :
    (∀ t cond, (env.threads t).blockedOn = some cond → ∃ object id,
      env.conds cond = some object ∧ (object.waiting ++ object.waking).count t = 1 ∧
        (env.threads t).awaits = some id ∧ object.currMutex = some id) ∧
    (∀ now, ∃ r env', env.serve (.visit now) = .ok (r, env') ∧
      (r = none ∨ r = some 0 ∨ r = some ETIMEDOUT)) ∧
    ∀ c : Call, c.cond ≠ none → env.ActionSafe (.call c) →
      ∃ r env', env.serve (.call c) = .ok (r, env') ∧ CondReply r := by
  obtain ⟨hc, hl⟩ := run_preserves (I := fun env => env.Coherent ∧ env.Listed)
    (fun s a s' hI ha hstep => by
      obtain ⟨r, hserve⟩ := step_eq_ok.mp hstep
      obtain ⟨hmoved, hc⟩ := hI.1.serve hserve
      exact ⟨hc, hI.2.moved hI.1 ha hmoved⟩)
    ⟨coherent_boot words nullSegmentSize, listed_boot words nullSegmentSize⟩ hsafe h
  refine ⟨fun t cond ht => ?_, fun now => ?_, fun c hcond hsafe => ?_⟩
  · obtain ⟨object, hobject, hmem, hcurr⟩ := hl.queued t cond ht
    obtain ⟨deadline, hb⟩ := blockedOn_eq_some.mp ht
    obtain ⟨id, hcall⟩ := hc.hostCall_of_condition hb
    have hid : (env.threads t).awaits = some id := by simp [Thread.awaits, hcall]
    exact ⟨object, id, hobject,
      List.count_eq_one_of_mem (hc.tidy cond object hobject).nodup hmem, hid, hcurr.trans hid⟩
  · obtain ⟨⟨r, env'⟩, hserve⟩ := hl.visit_ok hc now
    refine ⟨r, env', hserve, ?_⟩
    cases (hc.serve hserve).1 with
    | aside hquiet => exact Or.inl (hquiet.resolve_right fun hq => hq.2 now rfl)
    | pass => exact Or.inl rfl
    | pick _ _ _ hpicked => exact hpicked.reply
  · unfold serve
    dsimp only
    split_ifs with hscan
    · exact hl.cond_call_ok hc hscan hcond (hsafe hscan)
    · exact ⟨none, env, rfl, Or.inl rfl⟩

section Examples

theorem exec_cond_queued : ∃ env object id,
    (boot staticWords 0).exec [.call (.mutexLock 100), .call (.condWait 200 100)] = .ok env ∧
      env.conds 200 = some object ∧ (object.waiting ++ object.waking).count 0 = 1 ∧
      object.currMutex = some id := by
  have hrun : ((boot staticWords 0).exec [.call (.mutexLock 100), .call (.condWait 200 100)] >>=
      fun env => .ok (env.threads 0).blockedOn) = .ok (some 200) := by decide
  obtain ⟨env, hexec, hblocked⟩ := bind_eq_ok.mp hrun
  obtain ⟨object, id, hobject, hcount, -, hcurr⟩ :=
    (exec_cond (by decide) hexec).1 0 200 (Except.ok.inj hblocked)
  exact ⟨env, object, id, hexec, hobject, hcount, hcurr⟩

theorem exec_cond_faults :
    (boot staticWords 0).exec [.call (.condInit 200), .call (.condDestroy 200),
      .call (.condSignal 200)] = .error .unwrap ∧
    (boot staticWords 0).exec [.call (.mutexLock 100), .newThread, .call (.condWait 200 100),
      .visit epoch, .call (.condDestroy 200)] = .error .assertion ∧
    (boot staticWords 0).exec [.call (.mutexLock 100), .newThread, .call (.condWait 200 100),
      .visit epoch, .call (.condInit 200), .preempt, .visit epoch] = .error .unwrap := by
  refine ⟨fault_eq_some.mp ?_, fault_eq_some.mp ?_, fault_eq_some.mp ?_⟩ <;> decide

end Examples

end Env

end TouchHle.Threads
