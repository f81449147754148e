import TouchHle.Lib.Tally
import TouchHle.Threads.Picks

namespace TouchHle.Threads

open Lib Function

namespace Env

def waitingOn (env : Env) (mutexId : ℕ) : ℕ :=
  Nat.count (fun t => (env.threads t).blockedBy = .mutex mutexId) env.threadCount

def waitingCount (env : Env) (mutexId : ℕ) : ℕ :=
  (env.mutexes mutexId).elim 0 Mutex.waitingCount

def Leaves (env : Env) (t : ℕ) (deadline : Option ℕ) (object : CondHostObject) (mutexId : ℕ)
    (now : Clock) : Prop :=
  object.waking.head? = some t ∧ env.mutexIsLocked mutexId = false ∨
    ∃ due ∈ deadline, due ≤ now.system

instance (env : Env) (t : ℕ) (deadline : Option ℕ) (object : CondHostObject) (mutexId : ℕ)
    (now : Clock) : Decidable (env.Leaves t deadline object mutexId now) :=
  inferInstanceAs (Decidable (_ ∨ _))

def CandidateLeavesFree (env : Env) (t : ℕ) (now : Clock) : ThreadBlock → Prop
  | .condition cond deadline => ∀ object ∈ env.conds cond, ∀ mutexId ∈ object.currMutex,
    env.Leaves t deadline object mutexId now →
      ∀ mutex ∈ env.mutexes mutexId, mutex.locked = none ∧ mutex.waitingCount = 0
  | _ => True

instance (env : Env) (t : ℕ) (now : Clock) :
    (b : ThreadBlock) → Decidable (env.CandidateLeavesFree t now b)
  | .condition cond deadline =>
    inferInstanceAs (Decidable (∀ object ∈ env.conds cond, ∀ mutexId ∈ object.currMutex,
      env.Leaves t deadline object mutexId now →
        ∀ mutex ∈ env.mutexes mutexId, mutex.locked = none ∧ mutex.waitingCount = 0))
  | .notBlocked | .sleeping _ | .guestSleeping _ | .mutex _ | .semaphore _ | .joining _ =>
    isTrue trivial

def LeavesFree (env : Env) : Action → Prop
  | .visit now => ∀ i ∈ env.scan, env.CandidateLeavesFree (env.candidate i) now
    (env.threads (env.candidate i)).blockedBy
  | _ => True

instance (env : Env) : (a : Action) → Decidable (env.LeavesFree a)
  | .visit now => inferInstanceAs (Decidable (∀ i ∈ env.scan,
    env.CandidateLeavesFree (env.candidate i) now (env.threads (env.candidate i)).blockedBy))
  | .call _ | .store _ _ | .newThread | .exitThread | .preempt | .threadSuspend _
  | .threadResume _ => isTrue trivial

def Counted (env : Env) : Prop := ∀ id, env.waitingCount id = env.waitingOn id

variable {env env' e : Env} {r : Option ℤ} {now : Clock} {t : ℕ}

section WaitingOn

lemma waitingOn_update {thread : Thread} (ht : t < env.threadCount)
    (hthreads : env'.threads = update env.threads t thread)
    (hcount : env'.threadCount = env.threadCount) (id : ℕ) :
    env'.waitingOn id + (if (env.threads t).blockedBy = .mutex id then 1 else 0) =
      env.waitingOn id + (if thread.blockedBy = .mutex id then 1 else 0) := by
  unfold waitingOn
  rw [hthreads, hcount]
  exact count_update (p := fun thread : Thread => thread.blockedBy = .mutex id) ht thread

lemma waitingOn_update_of_ne {thread : Thread} (ht : t < env.threadCount)
    (hthreads : env'.threads = update env.threads t thread)
    (hcount : env'.threadCount = env.threadCount)
    (hold : ∀ id, (env.threads t).blockedBy ≠ .mutex id) (hnew : ∀ id, thread.blockedBy ≠ .mutex id)
    (id : ℕ) : env'.waitingOn id = env.waitingOn id := by
  have h := waitingOn_update ht hthreads hcount id
  simpa [hold id, hnew id] using h

lemma SameThreads.waitingOn (h : SameThreads env env') (id : ℕ) :
    env'.waitingOn id = env.waitingOn id := by
  simp only [Env.waitingOn, h.threads, h.threadCount]

lemma SameBlocks.waitingOn (h : SameBlocks env env') (id : ℕ) :
    env'.waitingOn id = env.waitingOn id := by
  have hblocks : ∀ t, (env'.threads t).blockedBy = (env.threads t).blockedBy :=
    fun t => (h.blocks t).1
  simp only [Env.waitingOn, hblocks, h.threadCount]

lemma waitingOn_newThread (id : ℕ) :
    env.newThread.waitingOn id = env.waitingOn id := by
  have hlt : ∀ t < env.threadCount, env.newThread.threads t = env.threads t :=
    fun t ht => update_of_ne ht.ne _ _
  have hnew : env.newThread.threads env.threadCount = .started := update_self _ _ _
  have hcount : env.newThread.threadCount = env.threadCount + 1 := rfl
  unfold waitingOn
  rw [hcount, Nat.count_succ, if_neg (by rw [hnew]; simp [Thread.started]), add_zero,
    Nat.count_eq_card_filter_range, Nat.count_eq_card_filter_range]
  congr 1
  refine Finset.filter_congr fun t ht => ?_
  rw [hlt t (Finset.mem_range.mp ht)]

lemma Coherent.waitingOn_pos (hc : env.Coherent) {id : ℕ}
    (h : (env.threads t).blockedBy = .mutex id) : 0 < env.waitingOn id :=
  count_pos (p := fun thread : Thread => thread.blockedBy = .mutex id)
    (hc.lt_of_blockedBy (by rw [h]; simp)) h

end WaitingOn

section WaitingCount

lemma waitingCount_update (env : Env) {env' : Env} {id : ℕ} {o : Option Mutex}
    (hmutexes : env'.mutexes = update env.mutexes id o) (id' : ℕ) :
    env'.waitingCount id' = if id' = id then o.elim 0 Mutex.waitingCount else env.waitingCount id' := by
  unfold waitingCount
  rw [hmutexes, update_apply]
  split <;> rfl

lemma waitingCount_of_found {id : ℕ} {mutex : Mutex} (h : env.mutexes id = some mutex) :
    env.waitingCount id = mutex.waitingCount := by
  simp [waitingCount, h]

lemma Coherent.waitingCount_changes (hc : env.Coherent) {c : Change} (h : env.Changes c env')
    (id : ℕ) : env'.waitingCount id = env.waitingCount id := by
  cases h with
  | newMutex type =>
    rw [waitingCount_update env rfl]
    split_ifs with hid
    · subst hid
      simp [waitingCount, hc.fresh _ le_rfl, Mutex.new]
    · rfl
  | mutex hfound hacted =>
    rw [waitingCount_update env rfl]
    split_ifs with hid
    · subst hid
      rw [waitingCount_of_found hfound]
      exact hacted.waitingCount
    · rfl
  | destroyMutex hfound hunlocked hcount =>
    rw [waitingCount_update env rfl]
    split_ifs with hid
    · subst hid
      rw [waitingCount_of_found hfound, hcount]
      rfl
    · rfl
  | _ => rfl

end WaitingCount

lemma waitingCount_of_destroyMutex {id : ℕ} (h : env.destroyMutex id = .ok (.ok (), env')) :
    env.waitingCount id = 0 := by
  obtain ⟨mutex, hmutex, h⟩ := bind_eq_ok.mp h
  rw [waitingCount_of_found (unwrap_eq_ok.mp hmutex)]
  split_ifs at h with hlocked hcount
  · cases (ok_pair_inj h).1
  · cases (ok_pair_inj h).1
  · exact not_not.mp hcount

section Runs

lemma Counted.of_eq (hI : env.Counted) (hcount : ∀ id, env'.waitingCount id = env.waitingCount id)
    (hon : ∀ id, env'.waitingOn id = env.waitingOn id) : env'.Counted :=
  fun id => (hcount id).trans ((hI id).trans (hon id).symm)

lemma Counted.blocks (hI : env.Counted) (hc : env.Coherent) (hscan : env.scan = none)
    (h : env.Blocks env') : env'.Counted := by
  have hrunning := hc.notBlocked hscan
  have hnot : ∀ id, (env.threads env.current).blockedBy ≠ .mutex id := by
    rw [hrunning]
    simp
  cases h with
  | @onMutex mutexId mutex lock hfound =>
    intro id
    rw [waitingCount_update env rfl]
    have hthreads : ((env.setMutex mutexId
        { mutex with waitingCount := mutex.waitingCount + 1 }).suspend
          (.mutex mutexId) (some .lock)).threads = update env.threads env.current
        { env.threads env.current with blockedBy := .mutex mutexId, hostCall := some .lock } := rfl
    have hon := waitingOn_update hc.current_lt hthreads rfl id
    have hold := hI id
    rw [if_neg (hnot id)] at hon
    by_cases hid : id = mutexId
    · subst hid
      rw [waitingCount_of_found hfound] at hold
      simp only [if_true, Option.elim] at hon ⊢
      omega
    · simp only [ThreadBlock.mutex.injEq, if_neg hid, if_neg (Ne.symm hid)] at hon ⊢
      omega
  | onSemaphore | sleeping | guestSleeping | joining =>
    exact hI.of_eq (fun _ => rfl) (waitingOn_update_of_ne hc.current_lt rfl rfl hnot (by simp))

lemma Counted.waits (hI : env.Counted) (hc : env.Coherent) (hscan : env.scan = none) {cond : ℕ}
    (h : env.Waits cond env') : env'.Counted := by
  have hrunning := hc.notBlocked hscan
  cases h with
  | mk =>
    exact hI.of_eq (fun _ => rfl)
      (waitingOn_update_of_ne hc.current_lt rfl rfl (by rw [hrunning]; simp) (by simp))

lemma Counted.freed_relocked (hI : env.Counted) (hc : env.Coherent) {mutexId : ℕ} {mutex : Mutex}
    (hb : (env.threads t).blockedBy = .mutex mutexId) (hfound : env.mutexes mutexId = some mutex)
    (hmutexes : env'.mutexes =
      update env.mutexes mutexId (some (mutex.relockedBy t)))
    (hthreads : env'.threads =
      update env.threads t (env.threads t).freed)
    (hcount : env'.threadCount = env.threadCount) : env'.Counted := by
  intro id
  have ht := hc.lt_of_blockedBy (t := t) (by rw [hb]; simp)
  have hon := waitingOn_update ht hthreads hcount id
  have hold := hI id
  have hpos := hc.waitingOn_pos hb
  rw [waitingCount_update env hmutexes]
  by_cases hid : id = mutexId
  · subst hid
    rw [waitingCount_of_found hfound] at hold
    simp only [hb, if_true, Option.elim, Mutex.relockedBy] at hon ⊢
    simp at hon
    omega
  · simp only [hb, ThreadBlock.mutex.injEq, if_neg hid, if_neg (Ne.symm hid)] at hon ⊢
    simp at hon
    omega

lemma Counted.freed_left (hI : env.Counted) (hc : env.Coherent) {mutexId : ℕ} {mutex : Mutex}
    {cond : ℕ} {deadline : Option ℕ} (hb : (env.threads t).blockedBy = .condition cond deadline)
    (hfound : env.mutexes mutexId = some mutex) (hzero : mutex.waitingCount = 0)
    (hmutexes : env'.mutexes =
      update env.mutexes mutexId (some (mutex.relockedBy t)))
    (hthreads : env'.threads =
      update env.threads t (env.threads t).freed)
    (hcount : env'.threadCount = env.threadCount) : env'.Counted := by
  have ht := hc.lt_of_blockedBy (t := t) (by rw [hb]; simp)
  refine hI.of_eq (fun id => ?_)
    (waitingOn_update_of_ne ht hthreads hcount (by rw [hb]; simp) (by simp))
  rw [waitingCount_update env hmutexes]
  split_ifs with hid
  · subst hid
    rw [waitingCount_of_found hfound]
    simp [Mutex.relockedBy, hzero]
  · rfl

lemma Counted.freed (hI : env.Counted) (ht : t < env.threadCount)
    (hb : ∀ id, (env.threads t).blockedBy ≠ .mutex id)
    (hmutexes : env'.mutexes = env.mutexes)
    (hthreads : env'.threads =
      update env.threads t (env.threads t).freed)
    (hcount : env'.threadCount = env.threadCount) : env'.Counted :=
  hI.of_eq (fun id => by simp only [waitingCount, hmutexes])
    (waitingOn_update_of_ne ht hthreads hcount hb (by simp))

theorem Counted.picks (hI : env.Counted) (hc : env.Coherent) (ht : t < env.threadCount)
    (hleaves : env.CandidateLeavesFree t now (env.threads t).blockedBy)
    (h : env.Picked t now r env') : env'.Counted := by
  cases h with
  | running hb => exact hI.freed ht (by rw [hb]; simp) rfl rfl rfl
  | slept hcall =>
    refine hI.freed ht (fun id hb => ?_) rfl rfl rfl
    have hagrees := hc.agrees t
    rw [hb, hcall] at hagrees
    cases hagrees
  | lock hb hcall hfree => exact hI.freed_relocked hc hb hfree.1 rfl rfl rfl
  | noSemaphore hb => exact hI.freed ht (by rw [hb]; simp) rfl rfl rfl
  | semaphore hb => exact hI.freed ht (by rw [hb]; simp) rfl rfl rfl
  | woken hb hcall hfound hcurr hhead hfree =>
    rw [hb] at hleaves
    have hunlocked := (mutexIsLocked_eq_false hfree.1).mpr hfree.2
    have hzero := (hleaves _ hfound _ hcurr (Or.inl ⟨hhead, hunlocked⟩) _ hfree.1).2
    exact hI.freed_left hc hb hfree.1 hzero rfl rfl rfl
  | timedOut hb hcall hfound hcurr hdue hfree =>
    rw [hb] at hleaves
    have hzero := (hleaves _ hfound _ hcurr (Or.inr ⟨_, rfl, hdue⟩) _ hfree.1).2
    exact hI.freed_left hc hb hfree.1 hzero rfl rfl rfl
  | relocked hb hcall hfound hfree => exact hI.freed_relocked hc hb hfree.1 rfl rfl rfl
  | relockedLate hb hcall hfound hfree => exact hI.freed_relocked hc hb hfree.1 rfl rfl rfl

theorem Counted.passes (hI : env.Counted)
    (hleaves : env.CandidateLeavesFree t now (env.threads t).blockedBy) {scan : Option ℕ}
    (h : env.Tried t now false e) : ({ e with scan } : Env).Counted := by
  cases h with
  | skipped => exact hI
  | @timedOutLocked cond mutexId due object hb hfound hcurr hdue hfresh hlocked =>
    rw [hb] at hleaves
    have hfree := hleaves _ hfound _ hcurr (Or.inr ⟨_, rfl, hdue⟩)
    -- A locked mutex exists, so that the thread does not leave as it should.
    unfold mutexIsLocked at hlocked
    obtain ⟨mutex, hmutex, hlocked⟩ := (Option.any_eq_true _ _).mp hlocked
    simp [(hfree mutex hmutex).1] at hlocked

theorem Counted.moved (hI : env.Counted) (hc : env.Coherent) {a : Action}
    (hleaves : env.LeavesFree a) (h : env.Moved a r env') : env'.Counted := by
  cases h with
  | aside _ hsame =>
    exact hI.of_eq (fun id => by simp only [waitingCount, hsame.mutexes]) hsame.waitingOn
  | @call c _ _ hscan h =>
    have hboth : env'.Coherent ∧ env'.Counted := (effect_call h).preserves
      (I := fun e => e.Coherent ∧ e.Counted) ⟨hc, hI⟩
      (fun e _ e' _ _ hchange he => ⟨he.1.changes hchange, he.2.of_eq
        (he.1.waitingCount_changes hchange) hchange.sameThreads.waitingOn⟩)
      (fun e e' hsame hblock he => ⟨he.1.blocks (hsame.scan.trans hscan) hblock,
        he.2.blocks he.1 (hsame.scan.trans hscan) hblock⟩)
      (fun e _ e' hsame _ hwait he => ⟨he.1.waits (hsame.scan.trans hscan) hwait,
        he.2.waits he.1 (hsame.scan.trans hscan) hwait⟩)
    exact hboth.2
  | newThread => exact hI.of_eq (fun _ => rfl) waitingOn_newThread
  | pass hscan htried => exact hI.passes (hleaves _ hscan) htried
  | pick hscan ht _ hpicked => exact hI.picks hc ht (hleaves _ hscan) hpicked

lemma counted_boot (words : ℕ → UInt32) (nullSegmentSize : ℕ) :
    (boot words nullSegmentSize).Counted := by
  intro id
  have hnone : (boot words nullSegmentSize).waitingOn id = 0 := by
    have hblock : ((boot words nullSegmentSize).threads 0).blockedBy ≠ .mutex id := by
      simp [boot, Thread.started]
    have hcount := Nat.count_succ
      (fun t => ((boot words nullSegmentSize).threads t).blockedBy = .mutex id) 0
    rw [if_neg hblock, Nat.count_zero] at hcount
    exact hcount
  exact hnone.symm

lemma counted_exec {words : ℕ → UInt32} {nullSegmentSize : ℕ} {actions : List Action}
    (hleaves : Along step LeavesFree (boot words nullSegmentSize) actions)
    (h : (boot words nullSegmentSize).exec actions = .ok env) : env.Coherent ∧ env.Counted := by
  refine run_preserves (I := fun env => env.Coherent ∧ env.Counted) (fun s a s' hI ha hstep => ?_)
    ⟨coherent_boot words nullSegmentSize, counted_boot words nullSegmentSize⟩ hleaves h
  obtain ⟨r, hserve⟩ := step_eq_ok.mp hstep
  obtain ⟨hmoved, hc⟩ := hI.1.serve hserve
  exact ⟨hc, hI.2.moved hI.1 ha hmoved⟩

/-- If threads leave condition variables only to take a mutex that nobody holds or waits for, every
waiting count is the number of blocked threads, and the mutex of a blocked thread exists. -/
theorem exec_waitingCount {words : ℕ → UInt32} {nullSegmentSize : ℕ} {actions : List Action}
    (hleaves : Along step LeavesFree (boot words nullSegmentSize) actions)
    (h : (boot words nullSegmentSize).exec actions = .ok env) :
    (∀ id mutex, env.mutexes id = some mutex → mutex.waitingCount = env.waitingOn id) ∧
    (∀ id env', env.destroyMutex id = .ok (.ok (), env') →
      ∀ t, (env.threads t).blockedBy ≠ .mutex id) ∧
    ∀ t id, (env.threads t).blockedBy = .mutex id → ∃ mutex, env.mutexes id = some mutex := by
  obtain ⟨hc, hI⟩ := counted_exec hleaves h
  refine ⟨fun id mutex hmutex => ?_, fun id env' hdestroy t hb => ?_, fun t id hb => ?_⟩
  · rw [← hI id, waitingCount_of_found hmutex]
  · have hpos := hc.waitingOn_pos hb
    rw [← hI id, waitingCount_of_destroyMutex hdestroy] at hpos
    exact absurd hpos (lt_irrefl 0)
  · have hpos := hc.waitingOn_pos hb
    rw [← hI id, waitingCount] at hpos
    cases hmutex : env.mutexes id with
    | none => simp [hmutex] at hpos
    | some mutex => exact ⟨mutex, rfl⟩

end Runs

section Examples

def waitPastDeadline : List Action :=
  [.call (.mutexLock 100), .newThread, .call (.condTimedwait 200 100 300), .visit epoch]

theorem exec_waitingCount_timed_out : ∃ env mutex,
    (boot staticWords 0).exec (waitPastDeadline ++ [.preempt, .visit epoch]) = .ok env ∧
      env.mutexes 0 = some mutex ∧ mutex.waitingCount = env.waitingOn 0 := by
  have hrun : ((boot staticWords 0).exec (waitPastDeadline ++ [.preempt, .visit epoch]) >>= fun env =>
      .ok (env.mutexes 0).isSome) = .ok true := by decide
  obtain ⟨env, hexec, hmutex⟩ := bind_eq_ok.mp hrun
  obtain ⟨mutex, hmutex⟩ := Option.isSome_iff_exists.mp (Except.ok.inj hmutex)
  exact ⟨env, mutex, hexec, hmutex, (exec_waitingCount (by decide) hexec).1 0 mutex hmutex⟩

theorem exec_waitingCount_drifts : ∃ env mutex,
    (boot staticWords 0).exec
      (waitPastDeadline ++ [.call (.mutexLock 100), .preempt, .visit epoch]) = .ok env ∧
    env.mutexes 0 = some mutex ∧ mutex.waitingCount ≠ env.waitingOn 0 ∧
    env.exec [.visit epoch, .call (.mutexUnlock 100), .call (.mutexDestroy 100), .preempt,
      .visit epoch] = .error .unwrap := by
  have hrun : ((boot staticWords 0).exec
      (waitPastDeadline ++ [.call (.mutexLock 100), .preempt, .visit epoch]) >>= fun env =>
        .ok ((env.mutexes 0).map Mutex.waitingCount, env.waitingOn 0)) = .ok (some 0, 1) := by decide
  have hfault : fault ((boot staticWords 0).exec
      (waitPastDeadline ++ [.call (.mutexLock 100), .preempt, .visit epoch] ++ [.visit epoch,
        .call (.mutexUnlock 100), .call (.mutexDestroy 100), .preempt, .visit epoch])) =
      some .unwrap := by decide
  obtain ⟨env, hexec, hstate⟩ := bind_eq_ok.mp hrun
  obtain ⟨hmutex, hwaiting⟩ := ok_pair_inj hstate
  obtain ⟨mutex, hmutex, hcount⟩ := Option.map_eq_some_iff.mp hmutex
  refine ⟨env, mutex, hexec, hmutex, by rw [hcount, hwaiting]; decide, ?_⟩
  rw [fault_eq_some, exec, run_append, ← exec, hexec, ok_bind] at hfault
  exact hfault

end Examples

end Env

end TouchHle.Threads
