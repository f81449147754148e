import TouchHle.Threads.Coherence

namespace TouchHle.Threads

open Lib Function List Option

namespace Env

variable {env env' e : Env} {r : Option ℤ} {now : Clock} {t : ℕ}

def freed (env : Env) (threadId : ℕ) : Env :=
  { env.setThread threadId (env.threads threadId).freed with current := threadId, scan := none }

inductive Picked (env : Env) (t : ℕ) (now : Clock) : Option ℤ → Env → Prop
  | running (blockedBy : (env.threads t).blockedBy = .notBlocked)
    (hostCall : (env.threads t).hostCall = none) : Picked env t now none (env.freed t)
  | slept (hostCall : (env.threads t).hostCall = some .other) :
    Picked env t now (some 0) (env.freed t)
  | lock {mutexId : ℕ} {mutex : Mutex} (blockedBy : (env.threads t).blockedBy = .mutex mutexId)
    (hostCall : (env.threads t).hostCall = some .lock) (free : env.Free mutexId mutex) :
    Picked env t now (some 0) ((env.setMutex mutexId (mutex.relockedBy t)).freed t)
  | noSemaphore {sem hostSem : ℕ} (blockedBy : (env.threads t).blockedBy = .semaphore sem)
    (hostCall : (env.threads t).hostCall = some (.semWait sem hostSem))
    (closed : env.semaphores.openSemaphores sem = none) : Picked env t now (some 0) (env.freed t)
  | semaphore {sem waited hostSem : ℕ} (blockedBy : (env.threads t).blockedBy = .semaphore sem)
    (hostCall : (env.threads t).hostCall = some (.semWait sem waited))
    (isOpen : env.semaphores.openSemaphores sem = some hostSem)
    (value : 0 < (env.semaphores.hostSems hostSem).value) :
    Picked env t now (some 0)
      ((env.setHostSem hostSem
        { env.semaphores.hostSems hostSem with
          value := (env.semaphores.hostSems hostSem).value - 1
          waiting := (env.semaphores.hostSems hostSem).waiting.erase t }).freed t)
  | woken {cond mutexId released : ℕ} {deadline : Option ℕ} {object : CondHostObject}
    {mutex : Mutex} (blockedBy : (env.threads t).blockedBy = .condition cond deadline)
    (hostCall : (env.threads t).hostCall = some (waitCall cond released deadline))
    (found : env.conds cond = some object) (currMutex : object.currMutex = some mutexId)
    (head : object.waking.head? = some t) (free : env.Free mutexId mutex) :
    Picked env t now (some 0)
      (((env.setCond cond { object with waking := object.waking.tail }).setMutex
        mutexId (mutex.relockedBy t)).freed t)
  | timedOut {cond mutexId released due : ℕ} {object : CondHostObject} {mutex : Mutex}
    (blockedBy : (env.threads t).blockedBy = .condition cond (some due))
    (hostCall : (env.threads t).hostCall = some (.condTimedwait cond released))
    (found : env.conds cond = some object) (currMutex : object.currMutex = some mutexId)
    (due_le : due ≤ now.system) (free : env.Free mutexId mutex)
    (head : object.waking.head? ≠ some t) :
    Picked env t now (some ETIMEDOUT)
      (((env.setCond cond
        { object with
          waking := object.waking.filter (· ≠ t)
          waiting := object.waiting.filter (· ≠ t) }).setMutex
        mutexId (mutex.relockedBy t)).freed t)
  | relocked {cond mutexId released : ℕ} {object : CondHostObject} {mutex : Mutex}
    (blockedBy : (env.threads t).blockedBy = .mutex mutexId)
    (hostCall : (env.threads t).hostCall = some (.condTimedwait cond released))
    (found : env.conds cond = some object) (free : env.Free mutexId mutex)
    (inTime : t ∉ object.timedOut) :
    Picked env t now (some 0) ((env.setMutex mutexId (mutex.relockedBy t)).freed t)
  | relockedLate {cond mutexId released : ℕ} {object : CondHostObject} {mutex : Mutex}
    (blockedBy : (env.threads t).blockedBy = .mutex mutexId)
    (hostCall : (env.threads t).hostCall = some (.condTimedwait cond released))
    (found : env.conds cond = some object) (free : env.Free mutexId mutex)
    (late : t ∈ object.timedOut) :
    Picked env t now (some ETIMEDOUT)
      (((env.setCond cond { object with timedOut := object.timedOut.erase t }).setMutex
        mutexId (mutex.relockedBy t)).freed t)

lemma Picked.threads (h : env.Picked t now r env') :
    env'.threads = update env.threads t (env.threads t).freed := by
  cases h <;> rfl

lemma Picked.current (h : env.Picked t now r env') : env'.current = t := by
  cases h <;> rfl

lemma returned_switchTo_unblock : ((e.unblock t).switchTo t).returned = e.freed t := by
  simp [returned, switchTo, unblock, setThread, freed, Thread.freed]

lemma hostCall_switchTo_unblock :
    (((e.unblock t).switchTo t).threads t).hostCall = (e.threads t).hostCall := by
  simp [switchTo, unblock, setThread]

lemma resumed_unblock {hostCall : HostCall} (hcall : (e.threads t).hostCall = some hostCall)
    (hplain : ∀ cond id, hostCall ≠ .condWait cond id ∧ hostCall ≠ .condTimedwait cond id)
    (h : ((e.unblock t).switchTo t).Resumed r env') : r = some 0 ∧ env' = e.freed t := by
  have hsuspended := hostCall_switchTo_unblock.trans hcall
  have hother : ∀ {c : HostCall},
      (((e.unblock t).switchTo t).threads t).hostCall = some c → c = hostCall :=
    fun h => some.inj (h.symm.trans hsuspended)
  cases h with
  | fresh h => cases h.symm.trans hsuspended
  | plain => exact ⟨rfl, returned_switchTo_unblock⟩
  | condWait h => exact absurd (hother h).symm (hplain _ _).1
  | condInTime h => exact absurd (hother h).symm (hplain _ _).2
  | condTimedOut h => exact absurd (hother h).symm (hplain _ _).2

lemma resumed_unblock_wait {cond id : ℕ} {deadline : Option ℕ}
    (hcall : (e.threads t).hostCall = some (waitCall cond id deadline))
    (h : ((e.unblock t).switchTo t).Resumed r env') : ∃ object, e.conds cond = some object ∧
      ((t ∉ object.timedOut ∧ r = some 0 ∧ env' = e.freed t) ∨
      (t ∈ object.timedOut ∧ r = some ETIMEDOUT ∧
        env' = (e.setCond cond { object with timedOut := object.timedOut.erase t }).freed t)) := by
  have hsuspended := hostCall_switchTo_unblock.trans hcall
  have hother : ∀ {c : HostCall}, (((e.unblock t).switchTo t).threads t).hostCall = some c →
      c = waitCall cond id deadline := fun h => some.inj (h.symm.trans hsuspended)
  cases h with
  | fresh h => cases h.symm.trans hsuspended
  | plain h hplain =>
    cases deadline with
    | none => exact absurd (hother h) (hplain _ _).1
    | some due => exact absurd (hother h) (hplain _ _).2
  | condWait h hfound hin =>
    cases deadline with
    | none =>
      obtain ⟨rfl, -⟩ := HostCall.condWait.inj (hother h)
      exact ⟨_, hfound, .inl ⟨hin, rfl, returned_switchTo_unblock⟩⟩
    | some due => cases hother h
  | condInTime h hfound hin =>
    cases deadline with
    | none => cases hother h
    | some due =>
      obtain ⟨rfl, -⟩ := HostCall.condTimedwait.inj (hother h)
      exact ⟨_, hfound, .inl ⟨hin, rfl, returned_switchTo_unblock⟩⟩
  | condTimedOut h hfound hin =>
    cases deadline with
    | none => cases hother h
    | some due =>
      obtain ⟨rfl, -⟩ := HostCall.condTimedwait.inj (hother h)
      refine ⟨_, hfound, .inr ⟨hin, rfl, ?_⟩⟩
      rw [returned_switchTo_unblock]
      rfl

theorem Coherent.picked (hc : env.Coherent) (htried : env.Tried t now true e)
    (hresumed : (e.switchTo t).Resumed r env') : env.Picked t now r env' := by
  have hagrees := hc.agrees t
  cases htried with
  | running hb =>
    have hfree : env.unblock t = env := by
      simp only [unblock, setThread]
      rw [← hb, update_eq_self]
    rw [hb] at hagrees
    generalize hcall : (env.threads t).hostCall = hostCall at hagrees
    cases hagrees
    rw [← hfree] at hresumed
    cases hresumed with
    | fresh =>
      rw [returned_switchTo_unblock]
      exact .running hb hcall
    | plain h => cases h.symm.trans (hostCall_switchTo_unblock.trans hcall)
    | condWait h => cases h.symm.trans (hostCall_switchTo_unblock.trans hcall)
    | condInTime h => cases h.symm.trans (hostCall_switchTo_unblock.trans hcall)
    | condTimedOut h => cases h.symm.trans (hostCall_switchTo_unblock.trans hcall)
  | sleeping hb | guestSleeping hb | joining hb =>
    rw [hb] at hagrees
    generalize hcall : (env.threads t).hostCall = hostCall at hagrees
    cases hagrees
    obtain ⟨rfl, rfl⟩ := resumed_unblock hcall (by simp) hresumed
    exact .slept hcall
  | noSemaphore hb hclosed =>
    rw [hb] at hagrees
    generalize hcall : (env.threads t).hostCall = hostCall at hagrees
    cases hagrees
    obtain ⟨rfl, rfl⟩ := resumed_unblock hcall (by simp) hresumed
    exact .noSemaphore hb hcall hclosed
  | semaphore hb hopen hvalue =>
    rw [hb] at hagrees
    generalize hcall : (env.threads t).hostCall = hostCall at hagrees
    cases hagrees
    obtain ⟨rfl, rfl⟩ := resumed_unblock (e := env.setHostSem _ _) hcall (by simp) hresumed
    exact .semaphore hb hcall hopen hvalue
  | @mutex mutexId mutex hb hfree =>
    rw [hb] at hagrees
    generalize hcall : (env.threads t).hostCall = hostCall at hagrees
    cases hagrees with
    | lock =>
      obtain ⟨rfl, rfl⟩ := resumed_unblock (e := env.setMutex _ _) hcall (by simp) hresumed
      exact .lock hb hcall hfree
    | relock _ cond id =>
      obtain ⟨object, hobject, ⟨hin, rfl, rfl⟩ | ⟨hlate, rfl, rfl⟩⟩ :=
        resumed_unblock_wait (e := env.setMutex _ _)
          (show _ = some (waitCall cond id (some 0)) from hcall) hresumed
      · exact .relocked hb hcall hobject hfree hin
      · exact .relockedLate hb hcall hobject hfree hlate
  | @woken cond mutexId deadline object mutex hb hfound hcurr hhead hfree =>
    have hnot := hc.not_mem_timedOut hb hfound
    rw [hb] at hagrees
    generalize hcall : (env.threads t).hostCall = hostCall at hagrees
    cases hagrees
    obtain ⟨object', hobject', hcases⟩ := resumed_unblock_wait
      (e := (env.setCond cond { object with waking := object.waking.tail }).setMutex _ _)
      hcall hresumed
    obtain rfl := some.inj ((update_self cond _ env.conds).symm.trans hobject')
    obtain ⟨-, rfl, rfl⟩ | ⟨hlate, -, -⟩ := hcases
    · exact .woken hb hcall hfound hcurr hhead hfree
    · exact absurd hlate hnot
  | @timedOut cond mutexId due object mutex hb hfound hcurr hdue hfresh hhead hfree =>
    rw [hb] at hagrees
    generalize hcall : (env.threads t).hostCall = hostCall at hagrees
    cases hagrees
    obtain ⟨object', hobject', hcases⟩ := resumed_unblock_wait
      (e := (env.leave t cond object).setMutex _ _) hcall hresumed
    obtain rfl := some.inj ((update_self cond _ env.conds).symm.trans hobject')
    obtain ⟨hin, -, -⟩ | ⟨-, rfl, rfl⟩ := hcases
    · exact absurd (Finset.mem_insert_self t object.timedOut) hin
    · have h := Picked.timedOut hb hcall hfound hcurr hdue hfree hhead
      simpa [leave, setCond, setMutex, Finset.erase_insert hfresh] using h

lemma Coherent.freed (hc : env.Coherent) (ht : t < env.threadCount) (hrun : env.Runnable t)
    (hthreads : e.threads = env.threads) (hcount : e.threadCount = env.threadCount)
    (hfresh : ∀ id, e.mutexCount ≤ id → e.mutexes id = none)
    (htidy : ∀ cond object, e.conds cond = some object →
      object.Tidy cond (update env.threads t (env.threads t).freed)) :
    (e.freed t).Coherent := by
  have hfreed : (e.freed t).threads =
      update env.threads t (env.threads t).freed := by
    simp only [Env.freed, setThread, hthreads]
  refine hc.of_update ht hfreed hcount ht (fun _ => ?_) .notBlocked (by simp [Thread.freed])
    hfresh ?_
  · have hcurrent : (e.freed t).current = t := rfl
    rw [hfreed, hcurrent, update_self]
    rintro (hb | hb)
    · exact hb rfl
    · exact hb hrun.2
  · rw [hfreed]
    exact htidy

lemma Coherent.freed_plain (hc : env.Coherent) (ht : t < env.threadCount) (hrun : env.Runnable t)
    (hthreads : e.threads = env.threads) (hcount : e.threadCount = env.threadCount)
    (hfresh : ∀ id, e.mutexCount ≤ id → e.mutexes id = none) (hconds : e.conds = env.conds)
    (hplain : ∀ cond id deadline, (env.threads t).hostCall ≠ some (waitCall cond id deadline)) :
    (e.freed t).Coherent := by
  refine hc.freed ht hrun hthreads hcount hfresh fun cond object hobject => ?_
  rw [hconds] at hobject
  exact (hc.tidy cond object hobject).update (hc.not_listed hobject (hplain cond)) _

lemma Coherent.freed_wait (hc : env.Coherent) (ht : t < env.threadCount) (hrun : env.Runnable t)
    {cond released : ℕ}
    {deadline : Option ℕ} (hcall : (env.threads t).hostCall = some (waitCall cond released deadline))
    (hthreads : e.threads = env.threads) (hcount : e.threadCount = env.threadCount)
    (hfresh : ∀ id, e.mutexCount ≤ id → e.mutexes id = none)
    {object : CondHostObject} (hconds : e.conds = update env.conds cond (some object))
    (htidy : object.Tidy cond
      (update env.threads t (env.threads t).freed)) :
    (e.freed t).Coherent := by
  refine hc.freed ht hrun hthreads hcount hfresh ?_
  rw [hconds]
  refine forall_update_cond (fun c o hne ho => (hc.tidy c o ho).update (hc.not_listed ho ?_) _)
    fun o ho => some.inj ho ▸ htidy
  intro id deadline' h
  exact hne (waitCall_cond_inj (some.inj (h.symm.trans hcall)))

theorem Coherent.picks (hc : env.Coherent) (ht : t < env.threadCount) (hrun : env.Runnable t)
    (h : env.Picked t now r env') : env'.Coherent := by
  cases h with
  | running hb hcall =>
    exact hc.freed_plain ht hrun rfl rfl hc.fresh rfl (by rw [hcall]; simp)
  | slept hcall =>
    refine hc.freed_plain ht hrun rfl rfl hc.fresh rfl fun _ _ deadline => ?_
    rw [hcall]
    cases deadline <;> simp [waitCall]
  | lock hb hcall hfree =>
    refine hc.freed_plain ht hrun rfl rfl (hc.fresh_setMutex hfree.1) rfl fun _ _ deadline => ?_
    rw [hcall]
    cases deadline <;> simp [waitCall]
  | noSemaphore hb hcall hclosed =>
    refine hc.freed_plain ht hrun rfl rfl hc.fresh rfl fun _ _ deadline => ?_
    rw [hcall]
    cases deadline <;> simp [waitCall]
  | semaphore hb hcall hopen hvalue =>
    refine hc.freed_plain ht hrun rfl rfl hc.fresh rfl fun _ _ deadline => ?_
    rw [hcall]
    cases deadline <;> simp [waitCall]
  | @woken cond mutexId released deadline object mutex hb hcall hfound hcurr hhead hfree =>
    have htidy := hc.tidy _ _ hfound
    refine hc.freed_wait ht hrun hcall rfl rfl (hc.fresh_setMutex hfree.1) rfl ?_
    refine htidy.dequeue { object with waking := object.waking.tail }
      (Sublist.append_left (tail_sublist _) _) ?_ rfl (hc.not_mem_timedOut hb hfound) _
    obtain ⟨rest, hrest⟩ := head?_eq_some_iff.mp hhead
    have hnodup := htidy.nodup
    rw [hrest, perm_middle.nodup_iff, nodup_cons] at hnodup
    rw [hrest]
    exact hnodup.1
  | @timedOut cond mutexId released due object mutex hb hcall hfound hcurr hdue hfree =>
    refine hc.freed_wait ht hrun (show _ = some (waitCall cond released (some due)) from hcall) rfl rfl (hc.fresh_setMutex hfree.1) rfl ?_
    exact (hc.tidy _ _ hfound).dequeue
      { object with
        waking := object.waking.filter (· ≠ t), waiting := object.waiting.filter (· ≠ t) }
      (List.Sublist.append filter_sublist filter_sublist) (by simp) rfl
      (hc.not_mem_timedOut hb hfound) _
  | @relocked cond mutexId released object mutex hb hcall hfound hfree hin =>
    refine hc.freed_wait ht hrun (show _ = some (waitCall cond released (some 0)) from hcall) rfl rfl (hc.fresh_setMutex hfree.1)
      (update_eq_self_iff.mpr hfound.symm).symm ?_
    have htidy := hc.tidy _ _ hfound
    refine htidy.update ⟨fun hmem => ?_, hin⟩ _
    obtain ⟨deadline, hcond⟩ := htidy.queued t hmem
    cases hb.symm.trans hcond
  | @relockedLate cond mutexId released object mutex hb hcall hfound hfree hlate =>
    refine hc.freed_wait ht hrun (show _ = some (waitCall cond released (some 0)) from hcall) rfl rfl (hc.fresh_setMutex hfree.1) rfl ?_
    have htidy := hc.tidy _ _ hfound
    have herase : ({ object with timedOut := object.timedOut.erase t } : CondHostObject).Tidy
        cond env.threads :=
      ⟨htidy.nodup, htidy.queued, fun u hu => htidy.timedOut u (Finset.mem_of_mem_erase hu)⟩
    refine herase.update ⟨fun hmem => ?_, Finset.notMem_erase t _⟩ _
    obtain ⟨deadline, hcond⟩ := htidy.queued t hmem
    cases hb.symm.trans hcond

lemma Coherent.candidate_lt (hc : env.Coherent) (i : ℕ) : env.candidate i < env.threadCount :=
  Nat.mod_lt _ (by have := hc.current_lt; omega)

theorem Coherent.passes (hc : env.Coherent) (ht : t < env.threadCount) {i : ℕ}
    (htried : env.Tried t now false e) : ({ e with scan := some i } : Env).Coherent := by
  cases htried with
  | skipped =>
    exact ⟨hc.current_lt, hc.idle, by rintro ⟨⟩, hc.agrees, hc.joinee_lt, hc.fresh, hc.tidy⟩
  | @timedOutLocked cond mutexId due object hb hfound hcurr hdue hfresh hlocked =>
    have hagrees := hc.agrees t
    rw [hb] at hagrees
    generalize hcall : (env.threads t).hostCall = hostCall at hagrees
    cases hagrees with
    | condition _ released =>
    refine hc.of_update ht rfl rfl hc.current_lt (by rintro ⟨⟩)
      (by rw [hcall]; exact .relock _ _ _) (by simp) hc.fresh ?_
    refine forall_update_cond (fun c o hne ho => ?_) fun o ho => ?_
    · refine (hc.tidy c o ho).update (hc.not_listed ho fun id deadline h => hne ?_) _
      exact waitCall_cond_inj (some.inj (h.symm.trans hcall))
    · rw [← some.inj ho]
      have htidy := (hc.tidy _ _ hfound).dequeue
        { object with
          waking := object.waking.filter (· ≠ t), waiting := object.waiting.filter (· ≠ t) }
        (List.Sublist.append filter_sublist filter_sublist) (by simp) rfl hfresh
        { env.threads t with blockedBy := .mutex mutexId }
      refine ⟨htidy.nodup, htidy.queued, fun u hu => ?_⟩
      obtain rfl | hu := Finset.mem_insert.mp hu
      · simp only [setThread, update_self]
        exact ⟨⟨_, rfl⟩, released, hcall⟩
      · exact htidy.timedOut u hu

theorem Coherent.newThread (hc : env.Coherent) : env.newThread.Coherent where
  current_lt := hc.current_lt.trans (Nat.lt_succ_self _)
  idle t ht := by
    have ht : env.threadCount + 1 ≤ t := ht
    have hne : t ≠ env.threadCount := by omega
    exact (update_of_ne hne _ _).trans (hc.idle t (by omega))
  running hscan := by
    have hsame : env.newThread.threads env.current = env.threads env.current :=
      update_of_ne hc.current_lt.ne _ _
    exact hsame ▸ hc.running hscan
  agrees t := by
    by_cases ht : t = env.threadCount
    · subst ht
      simp only [Env.newThread, setThread, update_self]
      exact .notBlocked
    · simp only [Env.newThread, setThread, update_of_ne ht]
      exact hc.agrees t
  joinee_lt t joinee hb := by
    by_cases ht : t = env.threadCount
    · subst ht
      simp only [Env.newThread, setThread, update_self] at hb
      cases hb
    · simp only [Env.newThread, setThread, update_of_ne ht] at hb
      exact (hc.joinee_lt t joinee hb).trans (Nat.lt_succ_self _)
  fresh := hc.fresh
  tidy := hc.tidy_update (by rw [hc.idle _ le_rfl]; rfl) _

lemma Coherent.setThread (hc : env.Coherent) {thread : Thread} {scan : Option ℕ}
    (ht : t < env.threadCount) (hb : thread.blockedBy = (env.threads t).blockedBy)
    (hcall : thread.hostCall = (env.threads t).hostCall)
    (hrunning : scan = none → env.scan = none ∧
      (t = env.current → thread.suspendCount = (env.threads t).suspendCount)) :
    ({ env.setThread t thread with scan } : Env).Coherent := by
  refine hc.sameBlocks (sameBlocks_update hb hcall) (fun u hu => ?_) fun hscan => ?_
  · have hne : u ≠ t := by omega
    exact (update_of_ne hne _ _).trans (hc.idle u hu)
  · obtain ⟨hscan, hcount⟩ := hrunning hscan
    have hcurrent := hc.running hscan
    simp only [Env.setThread]
    by_cases hne : env.current = t
    · subst hne
      rw [update_self]
      rintro (h | h)
      · exact hcurrent (.inl (hb ▸ h))
      · exact hcurrent (.inr (hcount rfl ▸ h))
    · rw [update_of_ne hne]
      exact hcurrent

structure Aside (env env' : Env) : Prop where
  sameBlocks : SameBlocks env env'
  coherent : env'.Coherent

lemma Coherent.aside_writeWords (hc : env.Coherent) (ptr : ℕ) (object : List UInt32) :
    Aside env (env.writeWords ptr object) := by
  refine ⟨?_, hc.changes (changes_writeWords object)⟩
  unfold writeWords
  split <;> exact ⟨fun _ => ⟨rfl, rfl⟩, rfl, rfl, rfl, rfl, rfl, rfl⟩

lemma Coherent.aside_exitThread (hc : env.Coherent) : Aside env env.exitThread :=
  ⟨sameBlocks_update rfl rfl, hc.setThread hc.current_lt rfl rfl (by rintro ⟨⟩)⟩

lemma Coherent.hostCall_eq_none (hc : env.Coherent) (hb : (env.threads t).blockedBy = .notBlocked) :
    (env.threads t).hostCall = none := by
  have hagrees := hc.agrees t
  rw [hb] at hagrees
  generalize hcall : (env.threads t).hostCall = hostCall at hagrees
  cases hagrees
  rfl

lemma Coherent.aside_preempt (hc : env.Coherent) (hscan : env.scan = none) :
    Aside env (env.suspend .notBlocked none) := by
  have hb := hc.notBlocked hscan
  have hcall := hc.hostCall_eq_none hb
  exact ⟨sameBlocks_update hb.symm hcall.symm,
    hc.setThread hc.current_lt hb.symm hcall.symm (by rintro ⟨⟩)⟩

lemma Coherent.aside_suspendThread (hc : env.Coherent) (hscan : env.scan = none)
    (ht : t < env.threadCount) : Aside env (env.suspendThread t) := by
  unfold suspendThread
  dsimp only
  split_ifs with hcurrent
  · exact ⟨sameBlocks_update rfl rfl, hc.setThread ht rfl rfl (by rintro ⟨⟩)⟩
  · exact ⟨sameBlocks_update rfl rfl,
      hc.setThread ht rfl rfl fun _ => ⟨hscan, fun h => absurd h hcurrent⟩⟩

lemma Coherent.aside_resumeThread (hc : env.Coherent) (hscan : env.scan = none)
    (ht : t < env.threadCount) : Aside env (env.resumeThread t) := by
  refine ⟨sameBlocks_update rfl rfl,
    hc.setThread ht rfl rfl fun _ => ⟨hscan, ?_⟩⟩
  rintro rfl
  have hzero : (env.threads env.current).suspendCount = 0 := by
    by_contra h
    exact hc.running hscan (.inr h)
  simp [hzero]

inductive Moved (env : Env) : Action → Option ℤ → Env → Prop
  | aside {a : Action} {r : Option ℤ} {env' : Env}
    (quiet : r = none ∨ (∀ c, a ≠ .call c) ∧ ∀ now, a ≠ .visit now) (same : SameBlocks env env') :
    Moved env a r env'
  | call {c : Call} {r : Option ℤ} {env' : Env} (running : env.scan = .none)
    (h : env.call c = .ok (r, env')) : Moved env (.call c) r env'
  | newThread : Moved env .newThread none env.newThread
  | pass {now : Clock} {i : ℕ} {e : Env} (scan : env.scan = some i)
    (tried : Tried env (env.candidate i) now false e) :
    Moved env (.visit now) none { e with scan := some ((i + 1) % e.threadCount) }
  | pick {now : Clock} {i : ℕ} {env' : Env} {r : Option ℤ} (scan : env.scan = some i)
    (candidate_lt : env.candidate i < env.threadCount) (runnable : env.Runnable (env.candidate i))
    (picked : env.Picked (env.candidate i) now r env') : Moved env (.visit now) r env'

theorem Coherent.transition (hc : env.Coherent) {a : Action} (h : env.Transition a r env') :
    env.Moved a r env' ∧ env'.Coherent := by
  have haside : ∀ {a r env'}, (r = none ∨ (∀ c, a ≠ Action.call c) ∧ ∀ now, a ≠ .visit now) →
      Aside env env' → env.Moved a r env' ∧ env'.Coherent :=
    fun hquiet h => ⟨.aside hquiet h.sameBlocks, h.coherent⟩
  cases h with
  | none => exact haside (.inl rfl) ⟨⟨fun _ => ⟨rfl, rfl⟩, rfl, rfl, rfl, rfl, rfl, rfl⟩, hc⟩
  | call hscan h => exact ⟨.call hscan h, hc.effect hscan (effect_call h)⟩
  | store ptr word => exact haside (.inl rfl) (hc.aside_writeWords ptr _)
  | newThread => exact ⟨.newThread, hc.newThread⟩
  | exitThread => exact haside (.inl rfl) hc.aside_exitThread
  | preempt hscan => exact haside (.inl rfl) (hc.aside_preempt hscan)
  | suspend hscan htarget =>
    exact haside (.inr ⟨by simp, by simp⟩) (hc.aside_suspendThread hscan (targetThread_lt htarget))
  | resume hscan htarget =>
    exact haside (.inr ⟨by simp, by simp⟩) (hc.aside_resumeThread hscan (targetThread_lt htarget))
  | noTarget h =>
    refine haside (.inr ?_) ⟨⟨fun _ => ⟨rfl, rfl⟩, rfl, rfl, rfl, rfl, rfl, rfl⟩, hc⟩
    obtain rfl | rfl := h <;> exact ⟨by simp, by simp⟩
  | pass hscan htried => exact ⟨.pass hscan htried, hc.passes (hc.candidate_lt _) htried⟩
  | pick hscan hrun htried hresumed =>
    have hpicked := hc.picked htried hresumed
    exact ⟨.pick hscan (hc.candidate_lt _) hrun hpicked,
      hc.picks (hc.candidate_lt _) hrun hpicked⟩

lemma Coherent.serve (hc : env.Coherent) {a : Action} (h : env.serve a = .ok (r, env')) :
    env.Moved a r env' ∧ env'.Coherent := hc.transition (transition_of_serve h)

lemma Coherent.step (hc : env.Coherent) {a : Action} (h : env.step a = .ok env') :
    env'.Coherent := by
  obtain ⟨r, h⟩ := step_eq_ok.mp h
  exact (hc.serve h).2

theorem coherent_exec {words : ℕ → UInt32} {nullSegmentSize : ℕ} {actions : List Action}
    (h : (boot words nullSegmentSize).exec actions = .ok env) : env.Coherent :=
  run_preserves (fun _ _ _ hc _ hstep => hc.step hstep) (coherent_boot words nullSegmentSize)
    (along_of_forall fun _ _ => trivial) h

end Env

end TouchHle.Threads
