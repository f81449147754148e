import TouchHle.Threads.Steps

namespace TouchHle.Threads

open Lib

inductive ThreadBlock.Agrees : ThreadBlock → Option HostCall → Prop
  | notBlocked : Agrees .notBlocked none
  | sleeping (due : ℕ) : Agrees (.sleeping due) (some .other)
  | guestSleeping (due : ℕ) : Agrees (.guestSleeping due) (some .other)
  | joining (joinee : ℕ) : Agrees (.joining joinee) (some .other)
  | lock (mutexId : ℕ) : Agrees (.mutex mutexId) (some .lock)
  | relock (mutexId cond id : ℕ) : Agrees (.mutex mutexId) (some (.condTimedwait cond id))
  | condition (cond mutexId : ℕ) (deadline : Option ℕ) :
    Agrees (.condition cond deadline) (some (waitCall cond mutexId deadline))
  | semaphore (sem hostSem : ℕ) : Agrees (.semaphore sem) (some (.semWait sem hostSem))

namespace CondHostObject

/-- The threads in the queues of a condition variable are blocked on it, each in one place; those
that have timed out wait for their mutex. -/
structure Tidy (object : CondHostObject) (cond : ℕ) (threads : ℕ → Thread) : Prop where
  nodup : (object.waiting ++ object.waking).Nodup
  queued : ∀ t ∈ object.waiting ++ object.waking,
    ∃ deadline, (threads t).blockedBy = .condition cond deadline
  timedOut : ∀ t ∈ object.timedOut, (∃ id, (threads t).blockedBy = .mutex id) ∧
    ∃ id, (threads t).hostCall = some (.condTimedwait cond id)

variable {object : CondHostObject} {cond t : ℕ} {threads : ℕ → Thread}

lemma tidy_new : new.Tidy cond threads := ⟨by simp [new], by simp [new], by simp [new]⟩

lemma waiting_append_waking_wake (count : ℕ) :
    ((object.wake count).waiting ++ (object.wake count).waking).Perm
      (object.waiting ++ object.waking) := by
  refine List.perm_append_comm.trans ?_
  simp only [wake]
  rw [List.append_assoc, List.take_append_drop]
  exact List.perm_append_comm

lemma Tidy.wake (h : object.Tidy cond threads) (count : ℕ) :
    (object.wake count).Tidy cond threads where
  nodup := (waiting_append_waking_wake count).nodup_iff.mpr h.nodup
  queued t ht := h.queued t ((waiting_append_waking_wake count).mem_iff.mp ht)
  timedOut := h.timedOut

lemma Tidy.not_mem (h : object.Tidy cond threads) (ht : (threads t).blockedBy = .notBlocked) :
    t ∉ object.waiting ++ object.waking ∧ t ∉ object.timedOut := by
  constructor
  · intro hmem
    obtain ⟨deadline, hb⟩ := h.queued t hmem
    rw [ht] at hb
    cases hb
  · intro hmem
    obtain ⟨⟨id, hb⟩, -⟩ := h.timedOut t hmem
    rw [ht] at hb
    cases hb

lemma Tidy.update (h : object.Tidy cond threads)
    (ht : t ∉ object.waiting ++ object.waking ∧ t ∉ object.timedOut) (thread : Thread) :
    object.Tidy cond (Function.update threads t thread) where
  nodup := h.nodup
  queued u hu := by
    have hne : u ≠ t := fun e => ht.1 (e ▸ hu)
    rw [Function.update_of_ne hne]
    exact h.queued u hu
  timedOut u hu := by
    have hne : u ≠ t := fun e => ht.2 (e ▸ hu)
    rw [Function.update_of_ne hne]
    exact h.timedOut u hu

lemma Tidy.congr (h : object.Tidy cond threads) {threads' : ℕ → Thread}
    (hsame : ∀ t, (threads' t).blockedBy = (threads t).blockedBy ∧
      (threads' t).hostCall = (threads t).hostCall) : object.Tidy cond threads' where
  nodup := h.nodup
  queued t ht := (hsame t).1 ▸ h.queued t ht
  timedOut t ht := (hsame t).1 ▸ (hsame t).2 ▸ h.timedOut t ht

lemma Tidy.enqueue (h : object.Tidy cond threads) {deadline : Option ℕ} {mutexId : ℕ}
    (ht : (threads t).blockedBy = .notBlocked) {thread : Thread}
    (hb : thread.blockedBy = .condition cond deadline) :
    ({ object with
      currMutex := some mutexId, waiting := object.waiting ++ [t] } : CondHostObject).Tidy
        cond (Function.update threads t thread) := by
  have hnot := h.not_mem ht
  have hupdate := h.update hnot thread
  have hperm : (object.waiting ++ [t] ++ object.waking).Perm
      (t :: (object.waiting ++ object.waking)) := by
    rw [List.append_assoc]
    exact List.perm_middle
  refine ⟨hperm.nodup_iff.mpr (List.nodup_cons.mpr ⟨hnot.1, h.nodup⟩), fun u hu => ?_,
    hupdate.timedOut⟩
  obtain rfl | hu := List.mem_cons.mp (hperm.mem_iff.mp hu)
  · exact ⟨deadline, by rw [Function.update_self, hb]⟩
  · exact hupdate.queued u hu

lemma Tidy.dequeue (h : object.Tidy cond threads) (object' : CondHostObject)
    (hsub : (object'.waiting ++ object'.waking).Sublist (object.waiting ++ object.waking))
    (ht : t ∉ object'.waiting ++ object'.waking) (hout : object'.timedOut = object.timedOut)
    (hnot : t ∉ object.timedOut) (thread : Thread) :
    object'.Tidy cond (Function.update threads t thread) := by
  have htidy : object'.Tidy cond threads :=
    ⟨h.nodup.sublist hsub, fun u hu => h.queued u (hsub.subset hu), hout ▸ h.timedOut⟩
  exact htidy.update ⟨ht, hout ▸ hnot⟩ thread

end CondHostObject

namespace Env

variable {env env' : Env} {t : ℕ}

structure Coherent (env : Env) : Prop where
  current_lt : env.current < env.threadCount
  idle : ∀ t, env.threadCount ≤ t → env.threads t = .idle
  running : env.scan = none → ¬ (env.threads env.current).isBlocked
  agrees : ∀ t, (env.threads t).blockedBy.Agrees (env.threads t).hostCall
  joinee_lt : ∀ t joinee, (env.threads t).blockedBy = .joining joinee → joinee < env.threadCount
  fresh : ∀ id, env.mutexCount ≤ id → env.mutexes id = none
  tidy : ∀ cond object, env.conds cond = some object → object.Tidy cond env.threads

lemma coherent_boot (words : ℕ → UInt32) (nullSegmentSize : ℕ) :
    (boot words nullSegmentSize).Coherent where
  current_lt := one_pos
  idle t ht := by
    have hne : t ≠ 0 := Nat.one_le_iff_ne_zero.mp ht
    simp only [boot, Function.update_of_ne hne]
  running _ := by simp [boot, Thread.isBlocked, Thread.started]
  agrees t := by
    by_cases h : t = 0
    · subst h
      exact .notBlocked
    · simp only [boot, Function.update_of_ne h]
      exact .notBlocked
  joinee_lt t joinee h := by
    by_cases ht : t = 0
    · subst ht
      cases h
    · simp only [boot, Function.update_of_ne ht] at h
      cases h
  fresh _ _ := rfl
  tidy _ _ h := by cases h

lemma Coherent.notBlocked (hc : env.Coherent) (hscan : env.scan = none) :
    (env.threads env.current).blockedBy = .notBlocked := by
  by_contra hb
  exact hc.running hscan (Or.inl hb)

lemma Coherent.lt_of_blockedBy (hc : env.Coherent) (h : (env.threads t).blockedBy ≠ .notBlocked) :
    t < env.threadCount := by
  by_contra ht
  rw [hc.idle t (not_lt.mp ht)] at h
  exact h rfl

lemma Coherent.hostCall_of_condition (hc : env.Coherent) {cond : ℕ} {deadline : Option ℕ}
    (hb : (env.threads t).blockedBy = .condition cond deadline) :
    ∃ id, (env.threads t).hostCall = some (waitCall cond id deadline) := by
  have hagrees := hc.agrees t
  rw [hb] at hagrees
  generalize (env.threads t).hostCall = hostCall at hagrees
  cases hagrees with
  | condition _ id => exact ⟨id, rfl⟩

lemma Coherent.not_mem_timedOut (hc : env.Coherent) {cond : ℕ} {deadline : Option ℕ}
    {object : CondHostObject} (hb : (env.threads t).blockedBy = .condition cond deadline)
    (hobject : env.conds cond = some object) : t ∉ object.timedOut := by
  intro ht
  obtain ⟨⟨id, hid⟩, -⟩ := (hc.tidy cond object hobject).timedOut t ht
  rw [hb] at hid
  cases hid

lemma Coherent.of_update (hc : env.Coherent) {u : ℕ} {thread : Thread} (hu : u < env.threadCount)
    (hthreads : env'.threads = Function.update env.threads u thread)
    (hcount : env'.threadCount = env.threadCount) (hcurrent : env'.current < env.threadCount)
    (hrunning : env'.scan = none → ¬ (env'.threads env'.current).isBlocked)
    (hagrees : thread.blockedBy.Agrees thread.hostCall)
    (hjoinee : ∀ joinee, thread.blockedBy = .joining joinee → joinee < env.threadCount)
    (hfresh : ∀ id, env'.mutexCount ≤ id → env'.mutexes id = none)
    (htidy : ∀ cond object, env'.conds cond = some object → object.Tidy cond env'.threads) :
    env'.Coherent where
  current_lt := hcount ▸ hcurrent
  idle t ht := by
    have hne : t ≠ u := by omega
    rw [hthreads, Function.update_of_ne hne]
    exact hc.idle t (hcount ▸ ht)
  running := hrunning
  agrees t := by
    by_cases ht : t = u
    · rw [hthreads, ht, Function.update_self]
      exact hagrees
    · rw [hthreads, Function.update_of_ne ht]
      exact hc.agrees t
  joinee_lt t joinee hb := by
    rw [hcount]
    by_cases ht : t = u
    · rw [hthreads, ht, Function.update_self] at hb
      exact hjoinee joinee hb
    · rw [hthreads, Function.update_of_ne ht] at hb
      exact hc.joinee_lt t joinee hb
  fresh := hfresh
  tidy := htidy

lemma Coherent.of_sameThreads (hc : env.Coherent) (hsame : SameThreads env env')
    (hfresh : ∀ id, env'.mutexCount ≤ id → env'.mutexes id = none)
    (htidy : ∀ cond object, env'.conds cond = some object → object.Tidy cond env.threads) :
    env'.Coherent where
  current_lt := by
    rw [hsame.current, hsame.threadCount]
    exact hc.current_lt
  idle := by
    rw [hsame.threads, hsame.threadCount]
    exact hc.idle
  running := by
    rw [hsame.threads, hsame.scan, hsame.current]
    exact hc.running
  agrees := hsame.threads ▸ hc.agrees
  joinee_lt := by
    rw [hsame.threads, hsame.threadCount]
    exact hc.joinee_lt
  fresh := hfresh
  tidy := hsame.threads ▸ htidy

structure SameBlocks (env env' : Env) : Prop where
  blocks : ∀ t, (env'.threads t).blockedBy = (env.threads t).blockedBy ∧
    (env'.threads t).hostCall = (env.threads t).hostCall
  threadCount : env'.threadCount = env.threadCount
  current : env'.current = env.current
  mutexes : env'.mutexes = env.mutexes
  mutexCount : env'.mutexCount = env.mutexCount
  conds : env'.conds = env.conds
  semaphores : env'.semaphores = env.semaphores

lemma sameBlocks_update {thread : Thread} {scan : Option ℕ}
    (hb : thread.blockedBy = (env.threads t).blockedBy)
    (hcall : thread.hostCall = (env.threads t).hostCall) :
    SameBlocks env { env.setThread t thread with scan } := by
  refine ⟨fun u => ?_, rfl, rfl, rfl, rfl, rfl, rfl⟩
  by_cases hu : u = t
  · subst hu
    simp only [setThread, Function.update_self]
    exact ⟨hb, hcall⟩
  · simp only [setThread, Function.update_of_ne hu, and_self]

lemma Coherent.sameBlocks (hc : env.Coherent) (hsame : SameBlocks env env')
    (hidle : ∀ t, env.threadCount ≤ t → env'.threads t = .idle)
    (hrunning : env'.scan = none → ¬ (env'.threads env'.current).isBlocked) : env'.Coherent where
  current_lt := by
    rw [hsame.current, hsame.threadCount]
    exact hc.current_lt
  idle t ht := hidle t (hsame.threadCount ▸ ht)
  running := hrunning
  agrees t := by
    rw [(hsame.blocks t).1, (hsame.blocks t).2]
    exact hc.agrees t
  joinee_lt t joinee hb := by
    rw [(hsame.blocks t).1] at hb
    rw [hsame.threadCount]
    exact hc.joinee_lt t joinee hb
  fresh := by
    rw [hsame.mutexes, hsame.mutexCount]
    exact hc.fresh
  tidy cond object hobject := by
    rw [hsame.conds] at hobject
    exact (hc.tidy cond object hobject).congr hsame.blocks

lemma Coherent.fresh_setMutex (hc : env.Coherent) {mutexId : ℕ} {mutex mutex' : Mutex}
    (hfound : env.mutexes mutexId = some mutex) (id : ℕ) (hid : env.mutexCount ≤ id) :
    (env.setMutex mutexId mutex').mutexes id = none := by
  have hne : id ≠ mutexId := by
    rintro rfl
    cases hfound.symm.trans (hc.fresh id hid)
  exact (Function.update_of_ne hne _ _).trans (hc.fresh id hid)

lemma forall_update_cond {P : ℕ → CondHostObject → Prop} {cond : ℕ} {object : Option CondHostObject}
    (hold : ∀ c o, c ≠ cond → env.conds c = some o → P c o)
    (hnew : ∀ o, object = some o → P cond o) (c : ℕ) (o : CondHostObject)
    (h : Function.update env.conds cond object c = some o) : P c o := by
  by_cases hcond : c = cond
  · subst hcond
    rw [Function.update_self] at h
    exact hnew o h
  · rw [Function.update_of_ne hcond] at h
    exact hold c o hcond h

theorem Coherent.changes (hc : env.Coherent) {c : Change} (h : env.Changes c env') :
    env'.Coherent := by
  refine hc.of_sameThreads h.sameThreads ?_ ?_
  · cases h with
    | newMutex type hcount =>
      intro id hid
      have hid : env.mutexCount + 1 ≤ id := hid
      have hne : id ≠ env.mutexCount := by omega
      exact (Function.update_of_ne hne _ _).trans (hc.fresh id (by omega))
    | mutex hfound => exact hc.fresh_setMutex hfound
    | @destroyMutex mutexId =>
      intro id hid
      by_cases hne : id = mutexId
      · subst hne
        exact Function.update_self _ _ _
      · exact (Function.update_of_ne hne _ _).trans (hc.fresh id hid)
    | _ => exact hc.fresh
  · cases h with
    | newCond cond =>
      refine forall_update_cond (fun c o _ => hc.tidy c o) fun o ho => ?_
      rw [← Option.some.inj ho]
      exact CondHostObject.tidy_new
    | dropCond => exact forall_update_cond (fun c o _ => hc.tidy c o) (by simp)
    | wake hfound count =>
      refine forall_update_cond (fun c o _ => hc.tidy c o) fun o ho => ?_
      rw [← Option.some.inj ho]
      exact (hc.tidy _ _ hfound).wake count
    | _ => exact hc.tidy

lemma Coherent.tidy_update (hc : env.Coherent) (ht : (env.threads t).blockedBy = .notBlocked)
    (thread : Thread) (cond : ℕ) (object : CondHostObject) (h : env.conds cond = some object) :
    object.Tidy cond (Function.update env.threads t thread) :=
  (hc.tidy cond object h).update ((hc.tidy cond object h).not_mem ht) thread

theorem Coherent.suspend (hc : env.Coherent) (hscan : env.scan = none) {b : ThreadBlock}
    {hostCall : Option HostCall} (hagrees : b.Agrees hostCall)
    (hjoinee : ∀ joinee, b = .joining joinee → joinee < env.threadCount) :
    (env.suspend b hostCall).Coherent :=
  hc.of_update hc.current_lt rfl rfl hc.current_lt (by rintro ⟨⟩) hagrees hjoinee hc.fresh
    (hc.tidy_update (hc.notBlocked hscan) _)

theorem Coherent.blocks (hc : env.Coherent) (hscan : env.scan = none) (h : env.Blocks env') :
    env'.Coherent := by
  have hrunning := hc.notBlocked hscan
  cases h with
  | onMutex hfound =>
    exact hc.of_update hc.current_lt rfl rfl hc.current_lt (by rintro ⟨⟩) (.lock _) (by simp)
      (hc.fresh_setMutex hfound) (hc.tidy_update hrunning _)
  | onSemaphore hopen sems =>
    exact hc.of_update hc.current_lt rfl rfl hc.current_lt (by rintro ⟨⟩) (.semaphore _ _) (by simp)
      hc.fresh (hc.tidy_update hrunning _)
  | sleeping due => exact hc.suspend hscan (.sleeping due) (by simp)
  | guestSleeping due => exact hc.suspend hscan (.guestSleeping due) (by simp)
  | joining hj => exact hc.suspend hscan (.joining _) (by rintro _ ⟨⟩; exact hj)

theorem Coherent.waits (hc : env.Coherent) (hscan : env.scan = none) {cond : ℕ}
    (h : env.Waits cond env') : env'.Coherent := by
  have hrunning := hc.notBlocked hscan
  cases h with
  | @mk mutexId object deadline hfound hsame =>
    refine hc.of_update hc.current_lt rfl rfl hc.current_lt (by rintro ⟨⟩)
      (.condition cond mutexId deadline) (by simp) hc.fresh ?_
    refine forall_update_cond (fun c o _ h => hc.tidy_update hrunning _ c o h) fun o ho => ?_
    rw [← Option.some.inj ho]
    exact (hc.tidy cond object hfound).enqueue hrunning rfl

theorem Coherent.effect (hc : env.Coherent) (hscan : env.scan = none) {allowed : Change → Prop}
    (h : Effect allowed env env') : env'.Coherent :=
  h.preserves hc (fun _ _ _ _ _ hchange he => he.changes hchange)
    (fun _ _ hsame hblock he => he.blocks (hsame.scan.trans hscan) hblock)
    (fun _ _ _ hsame _ hwait he => he.waits (hsame.scan.trans hscan) hwait)

lemma Coherent.not_listed (hc : env.Coherent) {cond : ℕ} {object : CondHostObject}
    (hobject : env.conds cond = some object)
    (ht : ∀ id deadline, (env.threads t).hostCall ≠ some (waitCall cond id deadline)) :
    t ∉ object.waiting ++ object.waking ∧ t ∉ object.timedOut := by
  have htidy := hc.tidy cond object hobject
  constructor
  · intro hmem
    obtain ⟨deadline, hb⟩ := htidy.queued t hmem
    have hagrees := hc.agrees t
    rw [hb] at hagrees
    generalize hcall : (env.threads t).hostCall = hostCall at hagrees
    cases hagrees
    exact ht _ _ hcall
  · intro hmem
    obtain ⟨-, id, hcall⟩ := htidy.timedOut t hmem
    exact ht id (some 0) hcall

lemma waitCall_cond_inj {cond cond' id id' : ℕ} {deadline deadline' : Option ℕ}
    (h : waitCall cond id deadline = waitCall cond' id' deadline') : cond = cond' := by
  cases deadline <;> cases deadline' <;> simp_all [waitCall]

end Env

end TouchHle.Threads
