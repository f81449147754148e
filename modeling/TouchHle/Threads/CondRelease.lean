import TouchHle.Threads.Picks

namespace TouchHle.Threads

open Lib Function Option Thread

namespace Mutex

def countOf (mutex : Mutex) (thread : ℕ) : ℕ :=
  match mutex.locked with
  | none => 0
  | some lock => if lock.thread = thread then lock.count else 0

def depth (mutex : Mutex) (thread : ℕ) : ℕ := mutex.countOf thread + mutex.phantomLocks thread

def Unlockable (mutex : Mutex) (thread : ℕ) : Prop :=
  0 < mutex.phantomLocks thread ∨ ∃ lock ∈ mutex.locked, lock.thread = thread ∨ mutex.type = .normal

instance (mutex : Mutex) (thread : ℕ) : Decidable (mutex.Unlockable thread) :=
  inferInstanceAs (Decidable (_ ∨ ∃ lock ∈ mutex.locked, _))

def ReleasedByUnlock (mutex : Mutex) (thread : ℕ) : Prop :=
  mutex.countOf thread = 1 ∧ mutex.phantomLocks thread = 0 ∨
    mutex.countOf thread = 0 ∧ 0 < mutex.phantomLocks thread

instance (mutex : Mutex) (thread : ℕ) : Decidable (mutex.ReleasedByUnlock thread) :=
  inferInstanceAs (Decidable (_ ∨ _))

variable {mutex mutex' : Mutex} {t : ℕ}

lemma countOf_of_locked {lock : Lock} (h : mutex.locked = some lock) :
    mutex.countOf t = if lock.thread = t then lock.count else 0 := by
  simp only [countOf, h]

lemma Unlocked.unlockable (h : mutex.Unlocked t mutex') : mutex.Unlockable t := by
  cases h with
  | phantom hpos => exact .inl hpos
  | released _ hlocked _ howner => exact .inr ⟨_, hlocked, howner⟩
  | nested _ hlocked howner => exact .inr ⟨_, hlocked, .inl howner⟩

lemma ReleasedByUnlock.unlocked (h : mutex.ReleasedByUnlock t) (hu : mutex.Unlocked t mutex') :
    ¬ mutex'.heldBy t ∧ mutex.depth t = 1 + mutex'.phantomLocks t := by
  cases hu with
  | phantom hpos =>
    obtain ⟨-, hzero⟩ | ⟨hcount, -⟩ := h
    · omega
    · constructor
      · rintro ⟨lock, hlocked, howner⟩
        have hlocked : mutex.locked = some lock := hlocked
        rw [countOf_of_locked hlocked, if_pos howner] at hcount
        exact absurd hcount lock.count_pos.ne'
      · simp only [depth, hcount, setPhantomLocks, update_self]
        omega
  | released hzero hlocked hone howner =>
    obtain ⟨hcount, -⟩ | ⟨-, hpos⟩ := h
    · refine ⟨not_heldBy_released, ?_⟩
      simp only [depth, hcount, hzero, released]
    · omega
  | @nested lock lock' hzero hlocked howner _ _ hcount =>
    have hpos := lock'.count_pos
    obtain ⟨hone, -⟩ | ⟨-, hpos⟩ := h
    · rw [countOf_of_locked hlocked, if_pos howner] at hone
      omega
    · omega

lemma depth_relockedBy : (mutex.relockedBy t).depth t = 1 + mutex.phantomLocks t := by
  simp [depth, countOf, relockedBy, lockedOnceBy, Lock.once]

lemma heldBy_relockedBy {u : ℕ} : (mutex.relockedBy t).heldBy u ↔ u = t := by
  simp [heldBy, relockedBy, lockedOnceBy, Lock.once, eq_comm]

structure SameFor (thread : ℕ) (mutex mutex' : Mutex) : Prop where
  heldBy : mutex'.heldBy thread → mutex.heldBy thread
  phantomLocks : mutex'.phantomLocks thread = mutex.phantomLocks thread

lemma SameFor.refl : SameFor t mutex mutex := ⟨id, rfl⟩

lemma ActedOn.sameFor {u : ℕ} (h : ActedOn u mutex mutex') (ht : t ≠ u) : SameFor t mutex mutex' :=
  ⟨h.heldBy t ht, h.phantomLocks t ht⟩

lemma sameFor_relockedBy {u : ℕ} (ht : t ≠ u) : SameFor t mutex (mutex.relockedBy u) :=
  ⟨fun hheld => absurd (heldBy_relockedBy.mp hheld) ht, rfl⟩

end Mutex

def HostCall.released : HostCall → Option ℕ
  | .condWait _ mutexId | .condTimedwait _ mutexId => some mutexId
  | _ => none

@[simp] lemma released_waitCall (cond mutexId : ℕ) (deadline : Option ℕ) :
    (waitCall cond mutexId deadline).released = some mutexId := by
  cases deadline <;> rfl

def Call.waitsOn : Call → Option (ℕ × ℕ)
  | .condWait cond mutex | .condTimedwait cond mutex _ => some (cond, mutex)
  | _ => none

namespace Thread

def awaits (thread : Thread) : Option ℕ := thread.hostCall.bind HostCall.released

def awaitsOn (thread : Thread) (cond : ℕ) : Option ℕ :=
  match thread.blockedBy with
  | .condition c _ => if c = cond then thread.awaits else none
  | _ => none

end Thread

namespace Env

def Owns (env : Env) (mutexId thread : ℕ) : Prop :=
  ∃ mutex, env.mutexes mutexId = some mutex ∧ mutex.heldBy thread

def depth (env : Env) (mutexId thread : ℕ) : ℕ :=
  (env.mutexes mutexId).elim 0 fun mutex => mutex.depth thread

lemma mutexIsLockedBy_eq_true {env : Env} {mutexId thread : ℕ} :
    env.mutexIsLockedBy mutexId thread = true ↔ env.Owns mutexId thread := by
  simp [mutexIsLockedBy, Owns, Mutex.heldBy, any_eq_true]

/-- If the mutex of a wait can be unlocked, the calling thread holds it once or only by phantom
locks, and the threads blocked on the condition variable have released the same mutex. -/
def ReleasesOnce (env : Env) (cond mutex : ℕ) : Prop :=
  env.readWord mutex 0 = magicMutex → ∀ m ∈ env.mutexes (env.readMutexId mutex),
    m.Unlockable env.current → m.ReleasedByUnlock env.current ∧
      ∀ t < env.threadCount, ∀ id ∈ (env.threads t).awaitsOn cond, id = env.readMutexId mutex

instance (env : Env) (cond mutex : ℕ) : Decidable (env.ReleasesOnce cond mutex) :=
  inferInstanceAs (Decidable (_ → ∀ m ∈ env.mutexes (env.readMutexId mutex), _))

def WaitReleasesOnce (env : Env) (cond mutex : ℕ) : Prop :=
  ∀ e ∈ (env.checkOrRegisterCond cond).toOption, e.ReleasesOnce cond mutex

instance (env : Env) (cond mutex : ℕ) : Decidable (env.WaitReleasesOnce cond mutex) :=
  inferInstanceAs (Decidable (∀ e ∈ (env.checkOrRegisterCond cond).toOption, _))

def WaitsOnce (env : Env) : Action → Prop
  | .call c => env.scan = none → ∀ w ∈ c.waitsOn, env.WaitReleasesOnce w.1 w.2
  | _ => True

instance (env : Env) : (a : Action) → Decidable (env.WaitsOnce a)
  | .call c =>
    inferInstanceAs (Decidable (env.scan = none → ∀ w ∈ c.waitsOn, env.WaitReleasesOnce w.1 w.2))
  | .store _ _ | .newThread | .exitThread | .preempt | .threadSuspend _ | .threadResume _
  | .visit _ => isTrue trivial

/-- A wait, while it lasts: the thread does not hold the mutex, and will hold it as deeply as before
once it has it back. -/
structure Released (env : Env) (depthBefore : ℕ → ℕ) : Prop where
  currMutex : ∀ t cond id object, (env.threads t).awaitsOn cond = some id →
    env.conds cond = some object → ∀ id' ∈ object.currMutex, id' = id
  relocks : ∀ t id id', (env.threads t).blockedBy = .mutex id' →
    (env.threads t).awaits = some id → id' = id
  lt : ∀ t id, (env.threads t).awaits = some id → id < env.mutexCount
  released : ∀ t id mutex, (env.threads t).awaits = some id → env.mutexes id = some mutex →
    ¬ mutex.heldBy t ∧ depthBefore t = 1 + mutex.phantomLocks t

variable {env env' e : Env} {d : ℕ → ℕ} {r : Option ℤ} {now : Clock} {t : ℕ}

lemma awaits_of_awaitsOn {thread : Thread} {cond id : ℕ} (h : thread.awaitsOn cond = some id) :
    thread.awaits = some id ∧ ∃ deadline, thread.blockedBy = .condition cond deadline := by
  unfold awaitsOn at h
  split at h
  · next c deadline hb =>
    split_ifs at h with hcond
    exact ⟨h, deadline, hcond ▸ hb⟩
  · cases h

lemma awaitsOn_of_awaits {thread : Thread} {cond id : ℕ} {deadline : Option ℕ}
    (hb : thread.blockedBy = .condition cond deadline) (h : thread.awaits = some id) :
    thread.awaitsOn cond = some id := by
  simp only [awaitsOn, hb, if_true, h]

@[simp] lemma awaits_freed (thread : Thread) : thread.freed.awaits = none := rfl

lemma Released.of_change (hr : env.Released d)
    (hthreads : ∀ t id, (env'.threads t).awaits = some id → env'.threads t = env.threads t ∨
      (env.threads t).awaits = some id ∧ (env'.threads t).blockedBy = .mutex id)
    (hcount : env.mutexCount ≤ env'.mutexCount)
    (hconds : ∀ cond object', env'.conds cond = some object' → ∀ id ∈ object'.currMutex,
      ∃ object, env.conds cond = some object ∧ id ∈ object.currMutex)
    (hmutexes : ∀ t id mutex', (env'.threads t).awaits = some id → id < env.mutexCount →
      env'.mutexes id = some mutex' →
      ∃ mutex, env.mutexes id = some mutex ∧ mutex.SameFor t mutex') :
    env'.Released d := by
  have hold : ∀ t id, (env'.threads t).awaits = some id → (env.threads t).awaits = some id := by
    intro t id hid
    obtain hsame | ⟨h, -⟩ := hthreads t id hid
    · rwa [← hsame]
    · exact h
  refine ⟨fun t cond id object' hon hobject' id' hid' => ?_, fun t id id' hb hid => ?_,
    fun t id hid => (hr.lt t id (hold t id hid)).trans_le hcount,
    fun t id mutex' hid hmutex' => ?_⟩
  · obtain ⟨hid, deadline, hb⟩ := awaits_of_awaitsOn hon
    obtain ⟨object, hobject, hcurr⟩ := hconds cond object' hobject' id' hid'
    obtain hsame | ⟨-, hb'⟩ := hthreads t id hid
    · exact hr.currMutex t cond id object (hsame ▸ hon) hobject id' hcurr
    · cases hb.symm.trans hb'
  · obtain hsame | ⟨-, hb'⟩ := hthreads t id hid
    · exact hr.relocks t id id' (hsame ▸ hb) (hsame ▸ hid)
    · exact ThreadBlock.mutex.inj (hb.symm.trans hb')
  · have hid₀ := hold t id hid
    obtain ⟨mutex, hmutex, hsame⟩ := hmutexes t id mutex' hid (hr.lt t id hid₀) hmutex'
    obtain ⟨hheld, hdepth⟩ := hr.released t id mutex hid₀ hmutex
    exact ⟨fun h => hheld (hsame.heldBy h), hdepth.trans (by rw [hsame.phantomLocks])⟩

lemma Released.congr (hr : env.Released d) {d' : ℕ → ℕ}
    (h : ∀ t id, (env.threads t).awaits = some id → d' t = d t) : env.Released d' where
  currMutex := hr.currMutex
  relocks := hr.relocks
  lt := hr.lt
  released t id mutex hid hmutex := h t id hid ▸ hr.released t id mutex hid hmutex

lemma Released.sameBlocks (hr : env.Released d) (h : SameBlocks env env') : env'.Released d := by
  have hawaits : ∀ t, (env'.threads t).awaits = (env.threads t).awaits :=
    fun t => by simp only [awaits, (h.blocks t).2]
  have hawaitsOn : ∀ t cond, (env'.threads t).awaitsOn cond = (env.threads t).awaitsOn cond :=
    fun t cond => by simp only [awaitsOn, hawaits, (h.blocks t).1]
  constructor
  · simp only [hawaitsOn, h.conds]
    exact hr.currMutex
  · simp only [hawaits, fun t => (h.blocks t).1]
    exact hr.relocks
  · simp only [hawaits, h.mutexCount]
    exact hr.lt
  · simp only [hawaits, h.mutexes]
    exact hr.released

lemma Coherent.awaits_current (hc : env.Coherent) (hscan : env.scan = none) :
    (env.threads env.current).awaits = none := by
  rw [awaits, hc.hostCall_eq_none (hc.notBlocked hscan)]
  rfl

lemma Coherent.ne_current (hc : env.Coherent) (hscan : env.scan = none) {id : ℕ}
    (h : (env.threads t).awaits = some id) : t ≠ env.current := by
  rintro rfl
  cases h.symm.trans (hc.awaits_current hscan)

lemma sameFor_of_update {id : ℕ} {mutex mutex₁ : Mutex} (hfound : env.mutexes id = some mutex)
    (hsame : mutex.SameFor t mutex₁) (id' : ℕ) (mutex' : Mutex)
    (h : update env.mutexes id (some mutex₁) id' = some mutex') :
    ∃ mutex, env.mutexes id' = some mutex ∧ mutex.SameFor t mutex' := by
  by_cases hid : id' = id
  · subst hid
    rw [update_self] at h
    exact ⟨mutex, hfound, some.inj h ▸ hsame⟩
  · rw [update_of_ne hid] at h
    exact ⟨mutex', h, .refl⟩

lemma Released.changes (hr : env.Released d) (hc : env.Coherent) (hscan : env.scan = none)
    {c : Change} (h : env.Changes c env') : env'.Released d := by
  refine hr.of_change (fun t _ _ => .inl (by rw [h.sameThreads.threads])) ?_ ?_ ?_
  · cases h with
    | newMutex => exact Nat.le_succ _
    | _ => exact le_rfl
  · cases h with
    | newCond cond =>
      refine forall_update_cond (fun c o _ ho id hid => ⟨o, ho, hid⟩) fun o ho => ?_
      rw [← some.inj ho]
      simp [CondHostObject.new]
    | dropCond => exact forall_update_cond (fun c o _ ho id hid => ⟨o, ho, hid⟩) (by simp)
    | wake hfound count =>
      refine forall_update_cond (fun c o _ ho id hid => ⟨o, ho, hid⟩) fun o ho => ?_
      rw [← some.inj ho]
      exact fun id hid => ⟨_, hfound, hid⟩
    | _ => exact fun _ o ho _ hid => ⟨o, ho, hid⟩
  · intro t id mutex' hid hlt hmutex'
    have ht : t ≠ env.current := hc.ne_current hscan (by rwa [h.sameThreads.threads] at hid)
    cases h with
    | newMutex =>
      exact ⟨mutex', (update_of_ne hlt.ne _ _).symm.trans hmutex', .refl⟩
    | mutex hfound hacted => exact sameFor_of_update hfound (hacted.sameFor ht) id mutex' hmutex'
    | @destroyMutex mutexId =>
      by_cases hne : id = mutexId
      · subst hne
        cases (update_self id none env.mutexes).symm.trans hmutex'
      · exact ⟨mutex', (update_of_ne hne _ _).symm.trans hmutex', .refl⟩
    | _ => exact ⟨mutex', hmutex', .refl⟩

lemma threads_of_update {u : ℕ} {thread : Thread}
    (hthreads : env'.threads = update env.threads u thread) (hnone : thread.awaits = none)
    (t id : ℕ) (h : (env'.threads t).awaits = some id) : t ≠ u ∧ env'.threads t = env.threads t := by
  have ht : t ≠ u := by
    rintro rfl
    rw [hthreads, update_self, hnone] at h
    cases h
  exact ⟨ht, by rw [hthreads, update_of_ne ht]⟩

lemma Blocks.threads (h : env.Blocks env') :
    ∃ thread : Thread, env'.threads = update env.threads env.current thread ∧
      thread.awaits = none := by
  cases h <;> exact ⟨_, rfl, rfl⟩

lemma Released.blocks (hr : env.Released d) (h : env.Blocks env') : env'.Released d := by
  have hconds : env'.conds = env.conds := by cases h <;> rfl
  have hcount : env'.mutexCount = env.mutexCount := by cases h <;> rfl
  obtain ⟨thread, hthreads, hnone⟩ := h.threads
  refine hr.of_change (fun t id h => .inl (threads_of_update hthreads hnone t id h).2)
    hcount.ge ?_ ?_
  · rw [hconds]
    exact fun _ o ho _ hid => ⟨o, ho, hid⟩
  · intro t id mutex' _ _ hmutex'
    cases h with
    | @onMutex mutexId mutex lock hfound =>
      have hsame : mutex.SameFor t { mutex with waitingCount := mutex.waitingCount + 1 } :=
        ⟨fun h => h, rfl⟩
      exact sameFor_of_update hfound hsame id mutex' hmutex'
    | _ => exact ⟨mutex', hmutex', .refl⟩

lemma Released.waits (hr : env.Released d) (hc : env.Coherent)
    {cond mutexId : ℕ} {object : CondHostObject} {deadline : Option ℕ}
    (hfound : env.conds cond = some object) (hlt : mutexId < env.mutexCount)
    (hothers : ∀ t < env.threadCount, ∀ id ∈ (env.threads t).awaitsOn cond, id = mutexId)
    (hmutex : ∀ mutex, env.mutexes mutexId = some mutex →
      ¬ mutex.heldBy env.current ∧ d env.current = 1 + mutex.phantomLocks env.current) :
    ((env.setCond cond
      { object with
        currMutex := some mutexId, waiting := object.waiting ++ [env.current] }).suspend
      (.condition cond deadline) (some (waitCall cond mutexId deadline))).Released d := by
  set env' := (env.setCond cond
    { object with
      currMutex := some mutexId, waiting := object.waiting ++ [env.current] }).suspend
    (.condition cond deadline) (some (waitCall cond mutexId deadline)) with henv'
  have hself : env'.threads env.current = { env.threads env.current with
      blockedBy := .condition cond deadline
      hostCall := some (waitCall cond mutexId deadline) } := update_self _ _ _
  have hother : ∀ t, t ≠ env.current → env'.threads t = env.threads t :=
    fun t ht => update_of_ne ht _ _
  have hwaits : ∀ id, (env'.threads env.current).awaits = some id → id = mutexId := by
    intro id hid
    rw [hself] at hid
    simp only [awaits, bind_some, released_waitCall] at hid
    exact (some.inj hid).symm
  refine ⟨fun t c id o hon ho => ?_, fun t id id' hb hid => ?_, fun t id hid => ?_,
    fun t id mutex hid hfound' => ?_⟩
  · have hid := (awaits_of_awaitsOn hon).1
    by_cases hcond : c = cond
    · subst hcond
      obtain rfl := some.inj ((update_self c _ env.conds).symm.trans ho)
      rintro _ ⟨⟩
      by_cases ht : t = env.current
      · subst ht
        exact (hwaits id hid).symm
      · rw [hother t ht] at hon
        obtain ⟨deadline', hblocked⟩ := (awaits_of_awaitsOn hon).2
        have htlt : t < env.threadCount := hc.lt_of_blockedBy (by rw [hblocked]; simp)
        exact (hothers t htlt id hon).symm
    · have ho : env.conds c = some o := (update_of_ne hcond _ _).symm.trans ho
      have ht : t ≠ env.current := by
        rintro rfl
        rw [hself] at hon
        simp [awaitsOn, Ne.symm hcond] at hon
      rw [hother t ht] at hon
      exact hr.currMutex t c id o hon ho
  · by_cases ht : t = env.current
    · subst ht
      rw [hself] at hb
      cases hb
    · rw [hother t ht] at hb hid
      exact hr.relocks t id id' hb hid
  · by_cases ht : t = env.current
    · subst ht
      rw [hwaits id hid]
      exact hlt
    · rw [hother t ht] at hid
      exact hr.lt t id hid
  · by_cases ht : t = env.current
    · subst ht
      obtain rfl := hwaits id hid
      exact hmutex mutex hfound'
    · rw [hother t ht] at hid
      exact hr.released t id mutex hid hfound'

lemma Released.passes (hr : env.Released d) {scan : Option ℕ}
    (h : env.Tried t now false e) : ({ e with scan } : Env).Released d := by
  cases h with
  | skipped => exact ⟨hr.currMutex, hr.relocks, hr.lt, hr.released⟩
  | @timedOutLocked cond mutexId due object hb hfound hcurr hdue hfresh hlocked =>
    refine hr.of_change (fun u id hid => ?_) le_rfl ?_ fun _ _ m _ _ hm => ⟨m, hm, .refl⟩
    · by_cases hu : u = t
      · subst hu
        have hself := update_self u { env.threads u with blockedBy := .mutex mutexId }
          env.threads
        have hwaits : (env.threads u).awaits = some id := by
          have hid : (update env.threads u _ u).awaits = some id := hid
          rwa [hself] at hid
        have hid := hr.currMutex u cond id object (awaitsOn_of_awaits hb hwaits) hfound mutexId hcurr
        refine .inr ⟨hwaits, ?_⟩
        simp [leave, Env.setThread, hid]
      · exact .inl (update_of_ne hu _ _)
    · refine forall_update_cond (fun c o _ ho id hid => ⟨o, ho, hid⟩) fun o ho => ?_
      rw [← some.inj ho]
      exact fun id hid => ⟨_, hfound, hid⟩

lemma Released.freed (hr : env.Released d)
    (hthreads : env'.threads = update env.threads t (env.threads t).freed)
    (hcount : env'.mutexCount = env.mutexCount)
    (hconds : ∀ cond object', env'.conds cond = some object' → ∀ id ∈ object'.currMutex,
      ∃ object, env.conds cond = some object ∧ id ∈ object.currMutex)
    (hmutexes : env'.mutexes = env.mutexes ∨ ∃ id mutex, env.mutexes id = some mutex ∧
      env'.mutexes = update env.mutexes id (some (mutex.relockedBy t))) :
    env'.Released d := by
  refine hr.of_change (fun u id h => .inl (threads_of_update hthreads rfl u id h).2)
    hcount.ge hconds fun u id mutex' hid _ hmutex' => ?_
  have hu := (threads_of_update hthreads rfl u id hid).1
  obtain hsame | ⟨mutexId, mutex, hfound, hupdate⟩ := hmutexes
  · exact ⟨mutex', hsame ▸ hmutex', .refl⟩
  · exact sameFor_of_update hfound (Mutex.sameFor_relockedBy hu) id mutex' (hupdate ▸ hmutex')

lemma Tried.awaits (h : env.Tried t now false e) {scan : Option ℕ} (u : ℕ) :
    (({ e with scan } : Env).threads u).awaits = (env.threads u).awaits := by
  cases h with
  | skipped => rfl
  | @timedOutLocked cond mutexId =>
    have hself := update_self t { env.threads t with blockedBy := .mutex mutexId }
      env.threads
    by_cases hu : u = t
    · subst hu
      exact (congrArg awaits hself).trans rfl
    · exact congrArg awaits (update_of_ne hu _ _)

lemma released_boot (words : ℕ → UInt32) (nullSegmentSize : ℕ) :
    (boot words nullSegmentSize).Released d := by
  have hnone : ∀ t, ((boot words nullSegmentSize).threads t).awaits = none := by
    intro t
    by_cases ht : t = 0
    · subst ht
      rfl
    · simp only [boot, update_of_ne ht]
      rfl
  have hnever : ∀ {t id}, ((boot words nullSegmentSize).threads t).awaits ≠ some id :=
    fun h => by cases h.symm.trans (hnone _)
  exact ⟨fun _ _ _ _ h => absurd (awaits_of_awaitsOn h).1 hnever, fun _ _ _ _ h => absurd h hnever,
    fun _ _ h => absurd h hnever, fun _ _ _ h => absurd h hnever⟩

lemma Released.picks (hr : env.Released d) (h : env.Picked t now r env') : env'.Released d := by
  have hsame : ∀ cond object, env.conds cond = some object → ∀ id ∈ object.currMutex,
      ∃ object, env.conds cond = some object ∧ id ∈ object.currMutex :=
    fun _ o ho _ hid => ⟨o, ho, hid⟩
  have hset : ∀ {cond object object'}, env.conds cond = some object →
      object'.currMutex = object.currMutex → ∀ c o, (env.setCond cond object').conds c = some o →
        ∀ id ∈ o.currMutex, ∃ object, env.conds c = some object ∧ id ∈ object.currMutex := by
    intro cond object object' hfound hcurr
    refine forall_update_cond (fun c o _ => hsame c o) fun o ho => ?_
    rw [← some.inj ho, hcurr]
    exact fun id hid => ⟨_, hfound, hid⟩
  cases h with
  | running | slept | noSemaphore | semaphore =>
    exact hr.freed rfl rfl hsame (.inl rfl)
  | lock _ _ hfree | relocked _ _ _ hfree =>
    exact hr.freed rfl rfl hsame (.inr ⟨_, _, hfree.1, rfl⟩)
  | woken _ _ hfound _ _ hfree | timedOut _ _ hfound _ _ hfree | relockedLate _ _ hfound hfree =>
    exact hr.freed rfl rfl (hset hfound rfl) (.inr ⟨_, _, hfree.1, rfl⟩)

lemma onMutex_unlock_succeeds {ptr : ℕ} {magic static : UInt32} (hs : static ≠ 0)
    (h : env.onMutex ptr magic static unlockInner = .ok (some 0, env')) :
    env.readWord ptr 0 ≠ static ∧ env.readWord ptr 0 = magic ∧ ∃ mutex mutex',
      env.mutexes (env.readMutexId ptr) = some mutex ∧ mutex.Unlocked env.current mutex' ∧
        env' = env.setMutex (env.readMutexId ptr) mutex' := by
  obtain ⟨checked, hcheck, h⟩ := bind_eq_ok.mp h
  cases checked with
  | error err =>
    obtain ⟨hzero, -⟩ := ok_pair_inj h
    rw [checkOrRegister_error hcheck] at hzero
    cases hzero
  | ok e =>
    obtain ⟨⟨result, e'⟩, hunlock, h⟩ := bind_eq_ok.mp h
    obtain ⟨hzero, rfl⟩ := ok_pair_inj h
    obtain ⟨mutex, hmutex, ⟨n, mutex', -, hunlocked, rfl⟩ | ⟨rfl, -⟩⟩ := unlockMutex_cases hunlock
    · obtain ⟨-, hid, hmutexes, -⟩ | ⟨hne, hmagic, rfl⟩ := checkOrRegister_cases hs hcheck
      · -- A mutex that has just been registered is not locked.
        rw [hid, hmutexes, update_self] at hmutex
        obtain rfl := some.inj hmutex
        cases hunlocked with
        | phantom hpos => exact absurd hpos (lt_irrefl 0)
        | released _ hlocked => cases hlocked
        | nested _ hlocked => cases hlocked
      · exact ⟨hne, hmagic, mutex, mutex', hmutex, hunlocked, rfl⟩
    · simp [errOrZero, EPERM] at hzero

lemma pthreadMutexUnlock_succeeds {ptr : ℕ}
    (h : env.pthreadMutexUnlock ptr = .ok (some 0, env')) :
    env.readWord ptr 0 = magicMutex ∧ ∃ mutex mutex', env.mutexes (env.readMutexId ptr) = some mutex ∧
      mutex.Unlocked env.current mutex' ∧ env' = env.setMutex (env.readMutexId ptr) mutex' :=
  (onMutex_unlock_succeeds (by decide) h).2

lemma Released.resumed (hr : env.Released d) {id : ℕ} (hid : (env.threads t).awaits = some id)
    (h : env.Picked t now r env') :
    (r = some 0 ∨ r = some ETIMEDOUT) ∧ env'.Owns id t ∧ env'.depth id t = d t := by
  have hheld : ∀ {mutex}, env.Free id mutex →
      env'.mutexes = update env.mutexes id (some (mutex.relockedBy t)) →
      env'.Owns id t ∧ env'.depth id t = d t := by
    intro mutex hfree hmutexes
    have hself : env'.mutexes id = some (mutex.relockedBy t) := by
      rw [hmutexes, update_self]
    refine ⟨⟨_, hself, Mutex.heldBy_relockedBy.mpr rfl⟩, ?_⟩
    rw [Env.depth, hself, elim_some, Mutex.depth_relockedBy]
    exact (hr.released t id mutex hid hfree.1).2.symm
  cases h with
  | running _ hcall | slept hcall | lock _ hcall | noSemaphore _ hcall | semaphore _ hcall =>
    rw [awaits, hcall] at hid
    cases hid
  | woken hb _ hfound hcurr _ hfree =>
    have hsame := hr.currMutex t _ id _ (awaitsOn_of_awaits hb hid) hfound _ hcurr
    subst hsame
    exact ⟨.inl rfl, hheld hfree rfl⟩
  | timedOut hb _ hfound hcurr _ hfree =>
    have hsame := hr.currMutex t _ id _ (awaitsOn_of_awaits hb hid) hfound _ hcurr
    subst hsame
    exact ⟨.inr rfl, hheld hfree rfl⟩
  | relocked hb _ _ hfree =>
    obtain rfl := hr.relocks t id _ hb hid
    exact ⟨.inl rfl, hheld hfree rfl⟩
  | relockedLate hb _ _ hfree =>
    obtain rfl := hr.relocks t id _ hb hid
    exact ⟨.inr rfl, hheld hfree rfl⟩

end Env

structure Tracked where
  env : Env
  depthBefore : ℕ → ℕ

namespace Tracked

open Env

def boot (words : ℕ → UInt32) (nullSegmentSize : ℕ) : Tracked :=
  ⟨.boot words nullSegmentSize, fun _ => 0⟩

def noted (s : Tracked) (env' : Env) (t : ℕ) : ℕ :=
  match (s.env.threads t).awaits, (env'.threads t).awaits with
  | none, some mutexId => s.env.depth mutexId t
  | _, _ => s.depthBefore t

def step (s : Tracked) (a : Action) : Checked Tracked := do
  let env ← s.env.step a
  return ⟨env, s.noted env⟩

def exec (s : Tracked) (actions : List Action) : Checked Tracked := run step s actions

variable {s s' : Tracked} {env' e : Env} {r : Option ℤ} {t : ℕ}

lemma noted_eq (h : ∀ t id, (env'.threads t).awaits = some id → (s.env.threads t).awaits ≠ none) :
    s.noted env' = s.depthBefore := by
  funext t
  unfold noted
  split
  · next id hnone hsome => exact absurd hnone (h t id hsome)
  · rfl

lemma noted_of_waiting {id : ℕ} (h : (s.env.threads t).awaits = some id) :
    s.noted env' t = s.depthBefore t := by
  simp only [noted, h]

lemma noted_of_starting {id : ℕ} (h : (s.env.threads t).awaits = none)
    (h' : (env'.threads t).awaits = some id) : s.noted env' t = s.env.depth id t := by
  simp only [noted, h, h']

lemma noted_eq_of_same (h : ∀ t, (env'.threads t).awaits = (s.env.threads t).awaits) :
    s.noted env' = s.depthBefore :=
  noted_eq fun t id hid => by simp [← h t, hid]

lemma of_step {a : Action} (h : s.step a = .ok s') :
    s.env.step a = .ok s'.env ∧ s'.depthBefore = s.noted s'.env := by
  obtain ⟨env, hstep, h⟩ := bind_eq_ok.mp h
  obtain rfl := Except.ok.inj h
  exact ⟨hstep, rfl⟩

lemma released_effect (hc : s.env.Coherent) (hr : s.env.Released s.depthBefore)
    (hscan : s.env.scan = none) {allowed : Change → Prop} (h : Effect allowed s.env env')
    (hnot : ∀ cond, ¬ allowed (.await cond)) : env'.Released (s.noted env') := by
  have hkept : env'.Coherent ∧ env'.Released s.depthBefore ∧
      ∀ t, (env'.threads t).awaits = (s.env.threads t).awaits := by
    refine h.preserves (I := fun e => e.Coherent ∧ e.Released s.depthBefore ∧
        ∀ t, (e.threads t).awaits = (s.env.threads t).awaits) ⟨hc, hr, fun _ => rfl⟩
      (fun e c e' hsame _ hchange ⟨hc, hr, hawaits⟩ => ?_)
      (fun e e' hsame hblock ⟨hc, hr, hawaits⟩ => ?_)
      (fun e cond e' _ hcond => absurd hcond (hnot cond))
    · have hscan := hsame.scan.trans hscan
      refine ⟨hc.changes hchange, hr.changes hc hscan hchange, fun t => ?_⟩
      rw [hchange.sameThreads.threads, hawaits t]
    · have hscan := hsame.scan.trans hscan
      obtain ⟨thread, hthreads, hnone⟩ := hblock.threads
      refine ⟨hc.blocks hscan hblock, hr.blocks hblock, fun t => ?_⟩
      rw [← hawaits t]
      by_cases ht : t = e.current
      · subst ht
        rw [hc.awaits_current hscan, hthreads, update_self, hnone]
      · rw [hthreads, update_of_ne ht]
  rw [noted_eq_of_same hkept.2.2]
  exact hkept.2.1

lemma released_path (hc : s.env.Coherent) (hr : s.env.Released s.depthBefore)
    (hscan : s.env.scan = none) {allowed : Change → Prop} (h : Path allowed s.env e) :
    e.Coherent ∧ e.Released s.depthBefore :=
  h.preserves (I := fun e => e.Coherent ∧ e.Released s.depthBefore)
    (fun _ _ _ hsame _ hchange ⟨hc, hr⟩ =>
      ⟨hc.changes hchange, hr.changes hc (hsame.scan.trans hscan) hchange⟩) ⟨hc, hr⟩

lemma released_wait (hc : s.env.Coherent) (hr : s.env.Released s.depthBefore)
    (hscan : s.env.scan = none) {cond mutex : ℕ} {deadline : Option ℕ}
    (honce : s.env.WaitReleasesOnce cond mutex)
    (h : s.env.releaseAndWait cond mutex deadline = .ok (r, env')) :
    env'.Released (s.noted env') := by
  have hfailed : Path (fun _ => True) s.env env' → env'.Released (s.noted env') := by
    intro hpath
    have hsame := hpath.sameThreads.threads
    rw [noted_eq_of_same fun t => by rw [hsame]]
    exact (released_path hc hr hscan hpath).2
  obtain ⟨-, -, rfl⟩ | ⟨e, hcheck, ⟨-, hunlock⟩ | ⟨e₁, hunlock, hwait⟩⟩ := releaseAndWait_cases h
  · exact hfailed .refl
  · exact hfailed ((path_checkOrRegisterCond hcheck trivial fun _ => trivial).trans
      (path_pthreadMutexUnlock trivial trivial trivial hunlock))
  · have hregister : Path (fun _ => True) s.env e :=
      path_checkOrRegisterCond hcheck trivial fun _ => trivial
    have hpath : Path (fun _ => True) s.env e₁ :=
      hregister.trans (path_pthreadMutexUnlock trivial trivial trivial hunlock)
    obtain ⟨hc₁, hr₁⟩ := released_path hc hr hscan hpath
    have hsame := hpath.sameThreads
    have honce := honce e (by rw [hcheck]; rfl)
    obtain ⟨hmagic, m, m', hm, hunlocked, rfl⟩ := pthreadMutexUnlock_succeeds hunlock
    obtain ⟨object, hobject, -, -, -, henv'⟩ := waitOnCond_eq_ok.mp hwait
    have hcurrent : e.current = s.env.current := hregister.sameThreads.current
    obtain ⟨hreleases, hothers⟩ := honce hmagic m hm hunlocked.unlockable
    obtain ⟨hnot, hdepth⟩ := hreleases.unlocked hunlocked
    have hkept : (e.setMutex (e.readMutexId mutex) m').Released (s.noted env') := by
      refine hr₁.congr fun t id hid => ?_
      have hid : (s.env.threads t).awaits = some id := by rwa [← hsame.threads]
      exact noted_of_waiting hid
    have hnoted : s.noted env' e.current = m.depth e.current := by
      have hself : (env'.threads e.current).awaits = some (e.readMutexId mutex) := by
        rw [henv']
        simp only [suspend, setThread, setCond, setMutex, update_self, awaits,
          bind_some, released_waitCall]
        rfl
      rw [noted_of_starting (hcurrent ▸ hc.awaits_current hscan) hself, Env.depth,
        ← mutexes_checkOrRegisterCond hcheck, hm, elim_some]
    generalize s.noted env' = d at hkept hnoted
    subst henv'
    refine hkept.waits hc₁ hobject ?_ hothers fun mutex' hmutex' => ?_
    · by_contra hlt
      have hfresh := (released_path hc hr hscan hregister).1.fresh _ (not_lt.mp hlt)
      cases hm.symm.trans hfresh
    · obtain rfl := some.inj ((update_self _ _ e.mutexes).symm.trans hmutex')
      exact ⟨hnot, hnoted.trans hdepth⟩

lemma released_step {a : Action} (hc : s.env.Coherent) (hr : s.env.Released s.depthBefore)
    (ha : s.env.WaitsOnce a) (h : s.step a = .ok s') :
    s'.env.Coherent ∧ s'.env.Released s'.depthBefore := by
  obtain ⟨hstep, hnoted⟩ := of_step h
  obtain ⟨r, hserve⟩ := Env.step_eq_ok.mp hstep
  obtain ⟨hmoved, hc'⟩ := hc.serve hserve
  refine ⟨hc', ?_⟩
  rw [hnoted]
  generalize s'.env = env' at hmoved
  cases hmoved with
  | aside _ hsame =>
    have hawaits : ∀ t, (env'.threads t).awaits = (s.env.threads t).awaits :=
      fun t => by simp only [awaits, (hsame.blocks t).2]
    rw [noted_eq_of_same hawaits]
    refine hr.sameBlocks hsame
  | @call c _ _ hscan hcall =>
    cases c with
    | condWait cond mutex => exact released_wait hc hr hscan (ha hscan _ rfl) hcall
    | condTimedwait cond mutex absTime => exact released_wait hc hr hscan (ha hscan _ rfl) hcall
    | _ => exact released_effect hc hr hscan (effect_call hcall) (by simp [Call.Allows])
  | newThread =>
    have hnone : started.awaits = none := rfl
    have hthreads : s.env.newThread.threads =
        update s.env.threads s.env.threadCount .started := rfl
    have hsame := threads_of_update hthreads hnone
    rw [noted_eq fun t id hid => by rw [← (hsame t id hid).2, hid]; simp]
    exact hr.of_change (fun t id hid => .inl (hsame t id hid).2) le_rfl
      (fun _ o ho _ hid => ⟨o, ho, hid⟩) fun _ _ m _ _ hm => ⟨m, hm, .refl⟩
  | pass hscan htried =>
    rw [noted_eq_of_same htried.awaits]
    exact hr.passes htried
  | pick hscan ht _ hpicked =>
    have hsame := threads_of_update hpicked.threads (awaits_freed _)
    rw [noted_eq fun t id hid => by rw [← (hsame t id hid).2, hid]; simp]
    exact hr.picks hpicked

/-- Whatever the waits of a run are, if each can be made by unlocking its mutex once, and with the
mutex of those that wait already, then a waiting thread does not hold its mutex, and holds it as
deeply as before when the wait is over. -/
theorem exec_wait {words : ℕ → UInt32} {nullSegmentSize : ℕ} {actions : List Action}
    (hwaits : Along Env.step WaitsOnce (.boot words nullSegmentSize) actions)
    (h : (boot words nullSegmentSize).exec actions = .ok s) :
    (∀ t cond id, (s.env.threads t).awaitsOn cond = some id → ¬ s.env.Owns id t) ∧
    ∀ now r env' id, s.env.serve (.visit now) = .ok (r, env') →
      (s.env.threads env'.current).awaits = some id → env'.scan = none →
        (r = some 0 ∨ r = some ETIMEDOUT) ∧ env'.Owns id env'.current ∧
          env'.depth id env'.current = s.depthBefore env'.current := by
  obtain ⟨hc, hr⟩ := run_preserves
    (I := fun s : Tracked => s.env.Coherent ∧ s.env.Released s.depthBefore)
    (fun s a s' hI ha hstep => released_step hI.1 hI.2 ha hstep)
    ⟨coherent_boot words nullSegmentSize, released_boot words nullSegmentSize⟩
    (Along.lift (f := Tracked.env) (fun _ _ _ hstep => (of_step hstep).1) hwaits) h
  refine ⟨fun t cond id hon howns => ?_, fun now r env' id hserve hid hscan => ?_⟩
  · obtain ⟨mutex, hmutex, hheld⟩ := howns
    exact (hr.released t id mutex (awaits_of_awaitsOn hon).1 hmutex).1 hheld
  · obtain ⟨hmoved, hc'⟩ := hc.serve hserve
    cases hmoved with
    | aside _ hsame =>
      have hnone := hc'.awaits_current hscan
      rw [Thread.awaits, (hsame.blocks _).2, ← Thread.awaits, hid] at hnone
      cases hnone
    | pass => cases hscan
    | pick hscan' ht hrun hpicked =>
      rw [hpicked.current] at hid ⊢
      exact hr.resumed hid hpicked

theorem exec_wait_releases : ∃ s,
    (boot staticWords 0).exec [.call (.mutexLock 100), .call (.condWait 200 100)] = .ok s ∧
      (s.env.threads 0).awaitsOn 200 = some 0 ∧ ¬ s.env.Owns 0 0 := by
  have hrun : ((boot staticWords 0).exec [.call (.mutexLock 100), .call (.condWait 200 100)] >>=
      fun s => .ok ((s.env.threads 0).awaitsOn 200)) = .ok (some 0) := by decide
  obtain ⟨s, hexec, hwaits⟩ := bind_eq_ok.mp hrun
  have hwaits := Except.ok.inj hwaits
  exact ⟨s, hexec, hwaits, (exec_wait (by decide) hexec).1 0 200 0 hwaits⟩

theorem exec_wait_keeps_mutex : ∃ s,
    (boot staticWords 0).exec
      [.call (.mutexLock 100), .call (.mutexLock 100), .call (.condWait 200 100)] = .ok s ∧
    (s.env.threads 0).awaitsOn 200 = some 0 ∧ s.env.Owns 0 0 := by
  have hrun : ((boot staticWords 0).exec
      [.call (.mutexLock 100), .call (.mutexLock 100), .call (.condWait 200 100)] >>=
        fun s => .ok ((s.env.threads 0).awaitsOn 200, s.env.mutexIsLockedBy 0 0)) =
      .ok (some 0, true) := by decide
  obtain ⟨s, hexec, hstate⟩ := bind_eq_ok.mp hrun
  obtain ⟨hwaits, hlocked⟩ := ok_pair_inj hstate
  exact ⟨s, hexec, hwaits, mutexIsLockedBy_eq_true.mp hlocked⟩

end Tracked

end TouchHle.Threads
