import TouchHle.Lib.Tally
import TouchHle.Threads.Picks

/-! The threads that signals move to the waking ones, and the waits that return because of them. -/

namespace TouchHle.Threads

open Lib Function List Option

def HostCall.cond : HostCall → Option ℕ
  | .condWait cond _ | .condTimedwait cond _ => some cond
  | _ => none

@[simp] lemma cond_waitCall (cond mutexId : ℕ) (deadline : Option ℕ) :
    (waitCall cond mutexId deadline).cond = some cond := by
  cases deadline <;> rfl

def Call.replaces : Call → Bool
  | .condInit _ | .condDestroy _ => true
  | _ => false

def Thread.deadlineOn (thread : Thread) (cond : ℕ) : Option ℕ :=
  match thread.blockedBy with
  | .condition c deadline => if c = cond then deadline else none
  | _ => none

namespace Env

def woken (env : Env) (cond : ℕ) : ℕ := (env.conds cond).elim 0 fun object => object.waking.length

def waiters (env : Env) (cond : ℕ) : ℕ :=
  ((env.checkOrRegisterCond cond).toOption.bind fun e => e.conds cond).elim 0
    fun object => object.waiting.length

def moved (cond : ℕ) (env : Env) (a : Action) (r : Option ℤ) (_ : Env) : ℕ :=
  match a with
  | .call (.condSignal c) => if c = cond ∧ r = some 0 then min 1 (env.waiters cond) else 0
  | .call (.condBroadcast c) => if c = cond ∧ r = some 0 then env.waiters cond else 0
  | _ => 0

def returnedZero (cond : ℕ) (env : Env) (a : Action) (r : Option ℤ) (env' : Env) : ℕ :=
  match a with
  | .visit _ =>
    if r = some 0 ∧ (env.threads env'.current).hostCall.bind HostCall.cond = some cond then 1 else 0
  | _ => 0

def Loses (env : Env) (cond t : ℕ) (now : Clock) : Prop :=
  env.Runnable t ∧ (∃ due ∈ (env.threads t).deadlineOn cond, due ≤ now.system) ∧
    ∃ object ∈ env.conds cond, t ∈ object.waking ∧
      ¬ (object.waking.head? = some t ∧ ∃ id ∈ object.currMutex, env.mutexIsLocked id = false)

instance (env : Env) (cond t : ℕ) (now : Clock) : Decidable (env.Loses cond t now) :=
  inferInstanceAs (Decidable ((_ ∧ _) ∧ (∃ due ∈ (env.threads t).deadlineOn cond, _) ∧
    ∃ object ∈ env.conds cond, _))

def KeepsSignals (cond : ℕ) (env : Env) : Action → Prop
  | .visit now => ∀ i ∈ env.scan, ¬ env.Loses cond (env.candidate i) now
  | _ => True

instance (cond : ℕ) (env : Env) : (a : Action) → Decidable (env.KeepsSignals cond a)
  | .visit now => inferInstanceAs (Decidable (∀ i ∈ env.scan, ¬ env.Loses cond (env.candidate i) now))
  | .call _ | .store _ _ | .newThread | .exitThread | .preempt | .threadSuspend _
  | .threadResume _ => isTrue trivial

def Resets (env : Env) (cond : ℕ) (c : Call) : Prop :=
  c.cond = some cond ∧ (c.replaces = true ∨ env.readWord cond 0 = magicCondStatic)

instance (env : Env) (cond : ℕ) (c : Call) : Decidable (env.Resets cond c) :=
  inferInstanceAs (Decidable (_ ∧ _))

def ResetsUnused (cond : ℕ) (env : Env) : Action → Prop
  | .call c => env.scan = none → env.Resets cond c →
    ∀ object ∈ env.conds cond, object.waking = [] ∧ object.timedOut = ∅
  | _ => True

instance (cond : ℕ) (env : Env) : (a : Action) → Decidable (env.ResetsUnused cond a)
  | .call c => inferInstanceAs (Decidable (env.scan = none → env.Resets cond c →
    ∀ object ∈ env.conds cond, object.waking = [] ∧ object.timedOut = ∅))
  | .visit _ | .store _ _ | .newThread | .exitThread | .preempt | .threadSuspend _
  | .threadResume _ => isTrue trivial

def Late (env : Env) (cond : ℕ) : Prop :=
  ∀ t id id', (env.threads t).blockedBy = .mutex id' →
    (env.threads t).hostCall = some (.condTimedwait cond id) →
      ∃ object, env.conds cond = some object ∧ t ∈ object.timedOut

variable {env env' e : Env} {cond t : ℕ} {now : Clock} {r : Option ℤ}

lemma returnedZero_of_ne {a : Action} (h : r ≠ some 0) : returnedZero cond env a r env' = 0 := by
  unfold returnedZero
  split
  · exact if_neg fun hr => h hr.1
  · rfl

lemma moved_of_quiet {a : Action} (h : r = none ∨ ∀ c, a ≠ .call c) :
    moved cond env a r env' = 0 := by
  unfold moved
  split
  · obtain rfl | h := h
    · exact if_neg (by simp)
    · exact absurd rfl (h _)
  · obtain rfl | h := h
    · exact if_neg (by simp)
    · exact absurd rfl (h _)
  · rfl

section Woken

lemma woken_of_found {object : CondHostObject} (h : env.conds cond = some object) :
    env.woken cond = object.waking.length := by
  simp [woken, h]

lemma woken_of_conds (h : env'.conds cond = env.conds cond) : env'.woken cond = env.woken cond := by
  simp only [woken, h]

lemma woken_setCond {object : CondHostObject} : (env.setCond cond object).woken cond =
    object.waking.length :=
  woken_of_found (update_self _ _ _)

lemma woken_setCond_of_ne {c : ℕ} {object : CondHostObject} (h : cond ≠ c) :
    (env.setCond c object).woken cond = env.woken cond :=
  woken_of_conds (update_of_ne h _ _)

lemma woken_setCond_of_same {c : ℕ} {object object' : CondHostObject}
    (hfound : env.conds c = some object) (h : object'.waking.length = object.waking.length) :
    (env.setCond c object').woken cond = env.woken cond := by
  by_cases hc : cond = c
  · subst hc
    rw [woken_setCond, woken_of_found hfound, h]
  · exact woken_setCond_of_ne hc

end Woken

section Loses

lemma tryCandidate_cases {picked : Bool} (h : env.tryCandidate t now = .ok (picked, e)) :
    picked = false ∧ e = env ∨ env.Runnable t := by
  unfold tryCandidate at h
  split_ifs at h with hactive hsuspended
  · obtain ⟨rfl, rfl⟩ := ok_pair_inj h
    exact .inl ⟨rfl, rfl⟩
  · obtain ⟨rfl, rfl⟩ := ok_pair_inj h
    exact .inl ⟨rfl, rfl⟩
  · exact .inr ⟨by simpa using hactive, by omega⟩

lemma blockedBy_of_deadlineOn {thread : Thread} {due : ℕ} (h : due ∈ thread.deadlineOn cond) :
    thread.blockedBy = .condition cond (some due) := by
  unfold Thread.deadlineOn at h
  split at h
  · next c deadline hb =>
    split_ifs at h with hc
    · rw [hb, hc, h]
    · cases h
  · cases h

lemma Loses.tryCandidate (hl : env.Loses cond t now) {picked : Bool}
    (h : env.tryCandidate t now = .ok (picked, e)) :
    ∃ object, env.conds cond = some object ∧ t ∈ object.waking ∧
      e.conds = (env.leave t cond object).conds := by
  obtain ⟨⟨hactive, hsuspended⟩, ⟨due, hdue, hle⟩, object, hobject, hmem, hnot⟩ := hl
  have hb := blockedBy_of_deadlineOn hdue
  have hobject : env.conds cond = some object := hobject
  refine ⟨object, hobject, hmem, ?_⟩
  unfold Env.tryCandidate at h
  rw [if_neg (by simp [hactive]), if_neg (by omega), hb] at h
  obtain ⟨object', hobject', h⟩ := bind_eq_ok.mp h
  obtain rfl := some.inj (hobject.symm.trans (unwrap_eq_ok.mp hobject'))
  obtain ⟨id, hcurr, h⟩ := bind_eq_ok.mp h
  have hcurr := unwrap_eq_ok.mp hcurr
  rw [if_neg (fun hfree => hnot ⟨hfree.1, id, hcurr, by simpa using hfree.2⟩),
    if_pos (by simpa using hle)] at h
  obtain ⟨_, -, h⟩ := bind_eq_ok.mp h
  dsimp only at h
  split_ifs at h
  · obtain ⟨-, rfl⟩ := ok_pair_inj h
    rfl
  · obtain ⟨e', hrelock, h⟩ := bind_eq_ok.mp h
    obtain ⟨-, rfl⟩ := ok_pair_inj h
    obtain ⟨mutex, -, rfl⟩ := relockUnblocked_eq_ok.mp hrelock
    rfl

end Loses

section Visits

lemma Coherent.woken_leave (hc : env.Coherent) {object : CondHostObject}
    (hfound : env.conds cond = some object) :
    (env.leave t cond object).woken cond + (if t ∈ object.waking then 1 else 0) =
      env.woken cond := by
  have hnodup := (nodup_append.mp (hc.tidy cond object hfound).nodup).2.1
  have herase : object.waking.filter (· ≠ t) = object.waking.erase t := by
    rw [hnodup.erase_eq_filter]
    exact filter_congr fun u _ => by rw [Bool.eq_iff_iff]; simp
  rw [leave, woken_setCond, woken_of_found hfound, herase]
  split_ifs with hmem
  · rw [length_erase_of_mem hmem]
    have := length_pos_of_mem hmem
    omega
  · rw [erase_of_not_mem hmem, add_zero]

lemma not_loses (h : ∀ due, (env.threads t).blockedBy ≠ .condition cond (some due)) :
    ¬ env.Loses cond t now := by
  rintro ⟨-, ⟨due, hdue, -⟩, -⟩
  exact h due (blockedBy_of_deadlineOn hdue)

lemma Coherent.woken_timedOut (hc : env.Coherent) (hrun : env.Runnable t) {c due : ℕ}
    {object : CondHostObject} (hb : (env.threads t).blockedBy = .condition c (some due))
    (hfound : env.conds c = some object) (hdue : due ≤ now.system)
    (hnot : ¬ (object.waking.head? = some t ∧ ∃ id ∈ object.currMutex, env.mutexIsLocked id = false)) :
    env.woken cond =
      (if env.Loses cond t now then 1 else 0) + (env.leave t c object).woken cond := by
  by_cases hcond : c = cond
  · subst hcond
    have hloses : env.Loses c t now ↔ t ∈ object.waking := by
      constructor
      · rintro ⟨-, -, object', hobject', hmem, -⟩
        obtain rfl := some.inj (hfound.symm.trans hobject')
        exact hmem
      · exact fun hmem => ⟨hrun, ⟨due, by simp [Thread.deadlineOn, hb], hdue⟩, object, hfound,
          hmem, hnot⟩
    have hleave := hc.woken_leave (t := t) hfound
    simp only [hloses]
    omega
  · rw [if_neg (not_loses fun due' h => hcond ?_), zero_add, leave,
      woken_setCond_of_ne (Ne.symm hcond)]
    exact (ThreadBlock.condition.inj (hb.symm.trans h)).1

lemma Coherent.woken_passed (hc : env.Coherent) (htry : env.tryCandidate t now = .ok (false, e)) :
    env.woken cond = (if env.Loses cond t now then 1 else 0) + e.woken cond := by
  by_cases hl : env.Loses cond t now
  · obtain ⟨object, hobject, hmem, hconds⟩ := hl.tryCandidate htry
    have hleave := hc.woken_leave (t := t) hobject
    rw [if_pos hmem, ← woken_of_conds (congrFun hconds cond)] at hleave
    rw [if_pos hl]
    omega
  obtain ⟨-, rfl⟩ | hrun := tryCandidate_cases htry
  · rw [if_neg hl, zero_add]
  cases tried_of_tryCandidate htry with
  | skipped => rw [if_neg hl, zero_add]
  | timedOutLocked hb hfound hcurr hdue hfresh hlocked =>
    refine hc.woken_timedOut hrun hb hfound hdue ?_
    rintro ⟨-, id, hid, hfree⟩
    obtain rfl := some.inj (hcurr.symm.trans hid)
    cases hlocked.symm.trans hfree

lemma Coherent.woken_picked (hc : env.Coherent) (hlate : env.Late cond) (hrun : env.Runnable t)
    (h : env.Picked t now r env') :
    env.woken cond = returnedZero cond env (.visit now) r env' +
      (if env.Loses cond t now then 1 else 0) + env'.woken cond := by
  have hcurrent : env'.current = t := h.current
  have hplain : (∀ due, (env.threads t).blockedBy ≠ .condition cond (some due)) →
      (r ≠ some 0 ∨ (env.threads t).hostCall.bind HostCall.cond ≠ some cond) →
      env'.woken cond = env.woken cond → env.woken cond =
        returnedZero cond env (.visit now) r env' + (if env.Loses cond t now then 1 else 0) +
          env'.woken cond := by
    intro hb hreturn hwoken
    have hreturn : ¬ (r = some 0 ∧
        (env.threads env'.current).hostCall.bind HostCall.cond = some cond) := by
      rw [hcurrent]
      tauto
    rw [returnedZero, if_neg hreturn, if_neg (not_loses hb), hwoken]
    omega
  cases h with
  | running hb hcall => exact hplain (by simp [hb]) (.inl (by simp)) rfl
  | slept hcall =>
    refine hplain (fun due hb => ?_) (.inr (by simp [hcall, HostCall.cond])) rfl
    obtain ⟨id, hwait⟩ := hc.hostCall_of_condition hb
    cases hcall.symm.trans hwait
  | lock hb hcall => exact hplain (by simp [hb]) (.inr (by simp [hcall, HostCall.cond])) rfl
  | noSemaphore hb hcall => exact hplain (by simp [hb]) (.inr (by simp [hcall, HostCall.cond])) rfl
  | semaphore hb hcall => exact hplain (by simp [hb]) (.inr (by simp [hcall, HostCall.cond])) rfl
  | @woken c mutexId released deadline object mutex hb hcall hfound hcurr hhead hfree =>
    by_cases hcond : c = cond
    · subst hcond
      have hnot : ¬ env.Loses c t now := by
        rintro ⟨-, -, object', hobject', -, hnot⟩
        obtain rfl := some.inj (hfound.symm.trans hobject')
        exact hnot ⟨hhead, mutexId, hcurr, (mutexIsLocked_eq_false hfree.1).mpr hfree.2⟩
      have hreturn : (env.threads t).hostCall.bind HostCall.cond = some c := by simp [hcall]
      obtain ⟨rest, hrest⟩ := head?_eq_some_iff.mp hhead
      have hafter : Env.woken (((env.setCond c { object with waking := object.waking.tail }).setMutex
          mutexId (mutex.relockedBy t)).freed t) c = object.waking.tail.length := by
        have hset : Env.woken (env.setCond c { object with waking := object.waking.tail }) c =
            object.waking.tail.length := woken_setCond
        exact hset
      have hlength : object.waking.length = object.waking.tail.length + 1 := by
        rw [hrest]
        rfl
      rw [returnedZero, if_neg hnot, hafter, woken_of_found hfound, if_pos ⟨rfl, hreturn⟩, hlength]
      omega
    · refine hplain (fun due h => hcond ?_) (.inr (by simp [hcall, hcond]))
        (woken_of_conds (update_of_ne (Ne.symm hcond) _ _))
      exact (ThreadBlock.condition.inj (hb.symm.trans h)).1
  | @timedOut c mutexId released due object mutex hb hcall hfound hcurr hdue hfree hhead =>
    have hleft : env.woken cond = _ := hc.woken_timedOut hrun hb hfound hdue fun h => hhead h.1
    have hwaking : Env.woken (((env.setCond c
        { object with
          waking := object.waking.filter (· ≠ t)
          waiting := object.waiting.filter (· ≠ t) }).setMutex
        mutexId (mutex.relockedBy t)).freed t) cond = (env.leave t c object).woken cond := by
      have hset : Env.woken (env.setCond c
          { object with
            waking := object.waking.filter (· ≠ t)
            waiting := object.waiting.filter (· ≠ t) }) cond =
          (env.leave t c object).woken cond := by
        by_cases hcond : cond = c
        · subst hcond
          rw [leave, woken_setCond, woken_setCond]
        · rw [leave, woken_setCond_of_ne hcond, woken_setCond_of_ne hcond]
      exact hset
    rw [returnedZero_of_ne (by decide), zero_add, hwaking]
    exact hleft
  | @relocked c mutexId released object mutex hb hcall hfound hfree hin =>
    by_cases hcond : c = cond
    · subst hcond
      obtain ⟨object', hobject', hmem⟩ := hlate t _ _ hb hcall
      obtain rfl := some.inj (hfound.symm.trans hobject')
      exact absurd hmem hin
    · exact hplain (by simp [hb]) (.inr (by simp [hcall, HostCall.cond, hcond])) rfl
  | relockedLate hb hcall hfound hfree hlate =>
    exact hplain (by simp [hb]) (.inl (by decide)) (woken_setCond_of_same hfound rfl)

lemma Coherent.woken_visit (hc : env.Coherent) (hlate : env.Late cond)
    (h : env.visit now = .ok (r, env')) :
    env.woken cond = returnedZero cond env (.visit now) r env' +
      (if env.KeepsSignals cond (.visit now) then 0 else 1) + env'.woken cond := by
  unfold visit at h
  split at h
  · next hscan =>
    obtain ⟨rfl, rfl⟩ := ok_pair_inj h
    rw [returnedZero_of_ne (by simp), if_pos (by simp [KeepsSignals, hscan])]
    omega
  · next i hscan =>
    have hkeeps : env.KeepsSignals cond (.visit now) ↔ ¬ env.Loses cond (env.candidate i) now := by
      simp [KeepsSignals, hscan]
    obtain ⟨⟨picked, e⟩, htry, h⟩ := bind_eq_ok.mp h
    simp only [hkeeps, ite_not]
    cases picked with
    | false =>
      obtain ⟨rfl, rfl⟩ := ok_pair_inj h
      rw [returnedZero_of_ne (by simp), zero_add]
      have hpassed : env.woken cond = _ + e.woken cond := hc.woken_passed htry
      exact hpassed
    | true =>
      exact hc.woken_picked hlate (runnable_of_tryCandidate htry)
        (hc.picked (tried_of_tryCandidate htry) (resumed_of_resume h))

end Visits

section Late

lemma Late.of_sameBlocks (hlate : env.Late cond) (h : SameBlocks env env') : env'.Late cond := by
  intro t id id' hb hcall
  rw [(h.blocks t).1] at hb
  rw [(h.blocks t).2] at hcall
  rw [h.conds]
  exact hlate t id id' hb hcall

lemma Late.of_update (hlate : env.Late cond) {thread : Thread}
    (hthreads : env'.threads = update env.threads t thread)
    (hthread : ∀ id id', thread.blockedBy = .mutex id' →
      thread.hostCall = some (.condTimedwait cond id) → False)
    (hconds : ∀ object, env.conds cond = some object →
      ∃ object', env'.conds cond = some object' ∧
        ∀ u ∈ object.timedOut, u ≠ t → u ∈ object'.timedOut) : env'.Late cond := by
  intro u id id' hb hcall
  rw [hthreads] at hb hcall
  by_cases hu : u = t
  · subst hu
    rw [update_self] at hb hcall
    exact absurd hcall (hthread id id' hb)
  · rw [update_of_ne hu] at hb hcall
    obtain ⟨object, hobject, hmem⟩ := hlate u id id' hb hcall
    obtain ⟨object', hobject', hkept⟩ := hconds object hobject
    exact ⟨object', hobject', hkept u hmem hu⟩

lemma Late.picks (hlate : env.Late cond) (h : env.Picked t now r env') : env'.Late cond := by
  refine hlate.of_update h.threads (fun _ _ hb => by cases hb) fun object hobject => ?_
  have hset : ∀ {c object₁ object₂}, env.conds c = some object₁ →
      (∀ u ∈ object₁.timedOut, u ≠ t → u ∈ object₂.timedOut) →
      ∃ object', (env.setCond c object₂).conds cond = some object' ∧
        ∀ u ∈ object.timedOut, u ≠ t → u ∈ object'.timedOut := by
    intro c object₁ object₂ hfound hkept
    by_cases hcond : cond = c
    · subst hcond
      obtain rfl := some.inj (hobject.symm.trans hfound)
      exact ⟨object₂, update_self _ _ _, hkept⟩
    · exact ⟨object, (update_of_ne hcond _ _).trans hobject, fun u hu _ => hu⟩
  cases h with
  | running | slept | lock | noSemaphore | semaphore | relocked =>
    exact ⟨object, hobject, fun u hu _ => hu⟩
  | woken _ _ hfound | timedOut _ _ hfound => exact hset hfound fun u hu _ => hu
  | relockedLate _ _ hfound =>
    exact hset hfound fun u hu hne => Finset.mem_erase.mpr ⟨hne, hu⟩

lemma Blocks.of_update (h : env.Blocks env') : env'.conds = env.conds ∧
    ∃ thread : Thread, env'.threads = update env.threads env.current thread ∧
      ∀ cond id id', thread.blockedBy = .mutex id' →
        thread.hostCall = some (.condTimedwait cond id) → False := by
  refine ⟨by cases h <;> rfl, ?_⟩
  cases h <;> exact ⟨_, rfl, by simp⟩

lemma Late.blocks (hlate : env.Late cond) (h : env.Blocks env') : env'.Late cond := by
  obtain ⟨hconds, thread, hthreads, hthread⟩ := h.of_update
  exact hlate.of_update hthreads (hthread cond) fun object hobject =>
    ⟨object, hconds ▸ hobject, fun u hu _ => hu⟩

lemma late_setCond {c : ℕ} {object : CondHostObject} (hfound : env.conds c = some object)
    (object' : CondHostObject) (hsame : object'.timedOut = object.timedOut) (o : CondHostObject) (ho : env.conds cond = some o) :
    ∃ o', (env.setCond c object').conds cond = some o' ∧ o'.timedOut = o.timedOut := by
  by_cases hcond : cond = c
  · subst hcond
    obtain rfl := some.inj (ho.symm.trans hfound)
    exact ⟨object', update_self _ _ _, hsame⟩
  · exact ⟨o, (update_of_ne hcond _ _).trans ho, rfl⟩

lemma Late.waits (hlate : env.Late cond) {c : ℕ} (h : env.Waits c env') : env'.Late cond := by
  cases h with
  | @mk mutexId object deadline hfound =>
    refine hlate.of_update rfl (fun _ _ hb => by cases hb) fun o ho => ?_
    obtain ⟨o', ho', hsame⟩ := late_setCond hfound
      { object with
        currMutex := some mutexId, waiting := object.waiting ++ [env.current] } rfl o ho
    exact ⟨o', ho', fun u hu _ => hsame ▸ hu⟩

lemma Late.changes (hlate : env.Late cond) {c : Change} (hnew : c ≠ .newCond cond)
    (hdrop : c ≠ .dropCond cond) (h : env.Changes c env') : env'.Late cond := by
  intro t id id' hb hcall
  rw [h.sameThreads.threads] at hb hcall
  obtain ⟨object, hobject, hmem⟩ := hlate t id id' hb hcall
  cases h with
  | newCond c =>
    have hne : cond ≠ c := fun h => hnew (h ▸ rfl)
    exact ⟨object, (update_of_ne hne _ _).trans hobject, hmem⟩
  | @dropCond c =>
    have hne : cond ≠ c := fun h => hdrop (h ▸ rfl)
    exact ⟨object, (update_of_ne hne _ _).trans hobject, hmem⟩
  | wake hfound count =>
    obtain ⟨o', ho', hsame⟩ := late_setCond hfound (CondHostObject.wake _ count) rfl object hobject
    exact ⟨o', ho', hsame ▸ hmem⟩
  | _ => exact ⟨object, hobject, hmem⟩

def NobodyLate (env : Env) (cond : ℕ) : Prop :=
  ∀ t id id', (env.threads t).blockedBy = .mutex id' →
    (env.threads t).hostCall ≠ some (.condTimedwait cond id)

lemma NobodyLate.late (h : env.NobodyLate cond) : env.Late cond :=
  fun t id id' hb hcall => absurd hcall (h t id id' hb)

lemma Late.nobody (hlate : env.Late cond)
    (hempty : ∀ object ∈ env.conds cond, object.timedOut = ∅) : env.NobodyLate cond := by
  intro t id id' hb hcall
  obtain ⟨object, hobject, hmem⟩ := hlate t id id' hb hcall
  rw [hempty object hobject] at hmem
  exact absurd hmem (Finset.notMem_empty t)

lemma NobodyLate.of_update (h : env.NobodyLate cond) {thread : Thread}
    (hthreads : env'.threads = update env.threads t thread)
    (hthread : ∀ id id', thread.blockedBy = .mutex id' →
      thread.hostCall = some (.condTimedwait cond id) → False) : env'.NobodyLate cond := by
  intro u id id' hb hcall
  rw [hthreads] at hb hcall
  by_cases hu : u = t
  · subst hu
    rw [update_self] at hb hcall
    exact hthread id id' hb hcall
  · rw [update_of_ne hu] at hb hcall
    exact h u id id' hb hcall

lemma NobodyLate.effect (h : env.NobodyLate cond) {allowed : Change → Prop}
    (heffect : Effect allowed env env') : env'.NobodyLate cond := by
  refine heffect.preserves (I := fun e => e.NobodyLate cond) h
    (fun e c e' _ _ hchange he => ?_) (fun e e' _ hblock he => ?_)
    (fun e c e' _ _ hwait he => ?_)
  · intro t
    rw [hchange.sameThreads.threads]
    exact he t
  · obtain ⟨-, thread, hthreads, hthread⟩ := hblock.of_update
    exact he.of_update hthreads (hthread cond)
  · cases hwait with
    | mk => exact he.of_update rfl (fun _ _ hb => by cases hb)

lemma Late.call (hlate : env.Late cond) {c : Call} (hscan : env.scan = none)
    (hreset : env.ResetsUnused cond (.call c)) (h : env.call c = .ok (r, env')) :
    env'.Late cond := by
  have heffect := effect_call h
  by_cases hr : env.Resets cond c
  · exact ((hlate.nobody fun o ho => (hreset hscan hr o ho).2).effect heffect).late
  · refine heffect.preserves (I := fun e => e.Late cond) hlate
      (fun e change e' _ hallowed hchange he => ?_) (fun e e' _ hblock he => he.blocks hblock)
      (fun e c e' _ _ hwait he => he.waits hwait)
    refine he.changes ?_ ?_ hchange
    · rintro rfl
      obtain rfl | hstatic := hallowed
      · exact hr ⟨rfl, .inl rfl⟩
      · exact hr ⟨hstatic.1, .inr hstatic.2⟩
    · rintro rfl
      have hallowed : c = .condDestroy cond := hallowed
      subst hallowed
      exact hr ⟨rfl, .inl rfl⟩

end Late

section Calls

lemma woken_effect {allowed : Change → Prop} (h : Effect allowed env env')
    (hwake : ¬ allowed (.wake cond)) (hnew : allowed (.newCond cond) → env.woken cond = 0) :
    env'.woken cond = env.woken cond := by
  refine h.preserves (I := fun e => e.woken cond = env.woken cond) rfl
    (fun e c e' _ hallowed hchange he => ?_) (fun e e' _ hblock he => ?_)
    (fun e c e' _ _ hwait he => ?_)
  · rw [← he]
    cases hchange with
    | newCond c =>
      by_cases hcond : cond = c
      · subst hcond
        rw [he, hnew hallowed]
        exact woken_setCond
      · exact woken_setCond_of_ne hcond
    | @dropCond c object hfound _ hwaking =>
      by_cases hcond : cond = c
      · subst hcond
        rw [woken_of_found hfound, hwaking]
        simp [woken]
      · exact woken_of_conds (update_of_ne hcond _ _)
    | @wake c object hfound count =>
      have hcond : cond ≠ c := fun h => hwake (h ▸ hallowed)
      exact woken_setCond_of_ne hcond
    | _ => rfl
  · rw [← he]
    exact woken_of_conds (by rw [hblock.of_update.1])
  · rw [← he]
    cases hwait with
    | mk deadline hfound => exact woken_setCond_of_same hfound rfl

lemma woken_wake {object : CondHostObject} (hfound : env.conds cond = some object) (count : ℕ) :
    (env.setCond cond (object.wake count)).woken cond =
      min count object.waiting.length + env.woken cond := by
  rw [woken_setCond, woken_of_found hfound, CondHostObject.wake, length_append,
    length_take, add_comm]

lemma waiters_of_found {object : CondHostObject} (hcheck : env.checkOrRegisterCond cond = .ok e)
    (hfound : e.conds cond = some object) : env.waiters cond = object.waiting.length := by
  simp [waiters, hcheck, Except.toOption, hfound]

lemma woken_call {c : Call} (hscan : env.scan = none) (hreset : env.ResetsUnused cond (.call c))
    (h : env.call c = .ok (r, env')) :
    env'.woken cond = moved cond env (.call c) r env' + env.woken cond := by
  have hunused : env.Resets cond c → env.woken cond = 0 := by
    intro hr
    unfold woken
    cases hobject : env.conds cond with
    | none => rfl
    | some object =>
      simp [(hreset hscan hr object hobject).1]
  have hregister : ∀ {e}, c.cond = some cond → env.checkOrRegisterCond cond = .ok e →
      e.woken cond = env.woken cond := by
    intro e hc hcheck
    have hpath : Path (fun change => change ≠ .wake cond ∧
        (change = .newCond cond → env.readWord cond 0 = magicCondStatic)) env e :=
      path_checkOrRegisterCond hcheck ⟨by simp, by simp⟩ fun hs => ⟨by simp, fun _ => hs⟩
    exact woken_effect hpath.effect (fun h => h.1 rfl) fun h => hunused ⟨hc, .inr (h.2 rfl)⟩
  by_cases hwake : c.Allows env (.wake cond)
  · obtain rfl | rfl := hwake
    · obtain ⟨rfl, rfl⟩ | ⟨e, object, hcheck, hobject, rfl, rfl⟩ := pthreadCondSignal_cases h
      · simp [moved, EINVAL]
      · rw [woken_wake hobject, hregister rfl hcheck, moved, if_pos ⟨rfl, rfl⟩,
          waiters_of_found hcheck hobject]
    · obtain ⟨rfl, rfl⟩ | ⟨e, object, hcheck, hobject, rfl, rfl⟩ := pthreadCondBroadcast_cases h
      · simp [moved, EINVAL]
      · rw [woken_wake hobject, hregister rfl hcheck, moved, if_pos ⟨rfl, rfl⟩,
          waiters_of_found hcheck hobject, min_self]
  · have hmoved : moved cond env (.call c) r env' = 0 := by
      cases c with
      | condSignal c => exact if_neg fun hc => hwake (.inl (by rw [hc.1]))
      | condBroadcast c => exact if_neg fun hc => hwake (.inr (by rw [hc.1]))
      | _ => rfl
    rw [hmoved, zero_add]
    refine woken_effect (effect_call h) hwake fun hnew => hunused ?_
    obtain rfl | hstatic := hnew
    · exact ⟨rfl, .inl rfl⟩
    · exact ⟨hstatic.1, .inr hstatic.2⟩

end Calls

section Runs

lemma Late.passes (hlate : env.Late cond) (hc : env.Coherent) {scan : Option ℕ}
    (h : env.Tried t now false e) : ({ e with scan } : Env).Late cond := by
  cases h with
  | skipped => exact hlate
  | @timedOutLocked c mutexId due object hb hfound hcurr hdue hfresh hlocked =>
    by_cases hcond : cond = c
    · subst hcond
      intro u id id' hb' hcall
      refine ⟨_, update_self _ _ _, ?_⟩
      by_cases hu : u = t
      · exact hu ▸ Finset.mem_insert_self _ _
      · have hold := hlate u id id' (by rwa [← update_of_ne hu _ env.threads])
          (by rwa [← update_of_ne hu _ env.threads])
        obtain ⟨object', hobject', hmem⟩ := hold
        obtain rfl := some.inj (hfound.symm.trans hobject')
        exact Finset.mem_insert_of_mem hmem
    · obtain ⟨id, hcall⟩ := hc.hostCall_of_condition hb
      have hthreads : Env.threads (env.setThread t { env.threads t with blockedBy := .mutex mutexId }) =
          update env.threads t { env.threads t with blockedBy := .mutex mutexId } := rfl
      refine hlate.of_update hthreads (fun id' _ _ h => hcond ?_) fun o ho => ?_
      · exact (HostCall.condTimedwait.inj (some.inj (h.symm.trans hcall))).1
      · exact ⟨o, (update_of_ne hcond _ _).trans ho, fun u hu _ => hu⟩

lemma Coherent.woken_serve (hc : env.Coherent) (hlate : env.Late cond) {a : Action}
    (hreset : env.ResetsUnused cond a) (h : env.serve a = .ok (r, env')) :
    moved cond env a r env' + env.woken cond = returnedZero cond env a r env' +
      (if env.KeepsSignals cond a then 0 else 1) + env'.woken cond := by
  obtain ⟨now, rfl⟩ | hvisit : (∃ now, a = .visit now) ∨ ∀ now, a ≠ .visit now := by
    by_cases hv : ∃ now, a = .visit now
    · exact .inl hv
    · exact .inr (not_exists.mp hv)
  · have hmoved : moved cond env (.visit now) r env' = 0 := rfl
    rw [hmoved, zero_add]
    exact hc.woken_visit hlate h
  · have hreturned : returnedZero cond env a r env' = 0 := by
      cases a with
      | visit now => exact absurd rfl (hvisit now)
      | _ => rfl
    have hkeeps : env.KeepsSignals cond a := by
      cases a with
      | visit now => exact absurd rfl (hvisit now)
      | _ => trivial
    rw [hreturned, if_pos hkeeps, zero_add, zero_add]
    cases (hc.serve h).1 with
    | aside hquiet hsame =>
      rw [woken_of_conds (congrFun hsame.conds cond), moved_of_quiet (hquiet.imp_right And.left),
        zero_add]
    | call hscan hcall => exact (woken_call hscan hreset hcall).symm
    | newThread => exact zero_add _
    | pass => exact absurd rfl (hvisit _)
    | pick => exact absurd rfl (hvisit _)

lemma Coherent.late_serve (hc : env.Coherent) (hlate : env.Late cond) {a : Action}
    (hreset : env.ResetsUnused cond a) (h : env.serve a = .ok (r, env')) : env'.Late cond := by
  cases (hc.serve h).1 with
  | aside _ hsame => exact hlate.of_sameBlocks hsame
  | call hscan hcall => exact hlate.call hscan hreset hcall
  | newThread => exact hlate.of_update rfl (fun _ _ hb => by cases hb) fun o ho => ⟨o, ho, fun u hu _ => hu⟩
  | pass _ htried => exact hlate.passes hc htried
  | pick _ _ _ hpicked => exact hlate.picks hpicked

def signals (cond : ℕ) (env : Env) (a : Action) (r : Option ℤ) (env' : Env) : ℕ × ℕ × ℕ :=
  (moved cond env a r env', returnedZero cond env a r env',
    if env.KeepsSignals cond a then 0 else 1)

lemma tally_signals {actions : List Action} :
    tally serve (signals cond) env actions =
      (tally serve (moved cond) env actions, tally serve (returnedZero cond) env actions,
        tally serve (fun env a _ _ => if env.KeepsSignals cond a then 0 else 1) env actions) := by
  rw [← tally_prodMk, ← tally_prodMk]
  rfl

lemma late_boot (words : ℕ → UInt32) (nullSegmentSize : ℕ) :
    (boot words nullSegmentSize).Late cond := by
  intro t id id' hb
  by_cases ht : t = 0
  · subst ht
    cases hb
  · simp only [boot, update_of_ne ht] at hb
    cases hb

/-- Every thread that was moved to the waking ones has returned 0 from its wait or still is among
them, exactly if no waking thread was timed out. -/
theorem exec_signals {words : ℕ → UInt32} {nullSegmentSize : ℕ} {actions : List Action}
    (hreset : Along step (ResetsUnused cond) (boot words nullSegmentSize) actions)
    (h : (boot words nullSegmentSize).exec actions = .ok env) :
    tally serve (moved cond) (boot words nullSegmentSize) actions =
        tally serve (returnedZero cond) (boot words nullSegmentSize) actions + env.woken cond ↔
      Along step (KeepsSignals cond) (boot words nullSegmentSize) actions := by
  have haccounts := run_tally (f := signals cond) (p := ResetsUnused cond) (n := 0)
    (J := fun env n => env.Coherent ∧ env.Late cond ∧ n.1 = n.2.1 + n.2.2 + env.woken cond)
    (fun s a r t n hJ hp hserve => by
      obtain ⟨hc, hlate, hn⟩ := hJ
      have hserved := hc.woken_serve hlate hp hserve
      refine ⟨(hc.serve hserve).2, hc.late_serve hlate hp hserve, ?_⟩
      simp only [signals, Prod.fst_add, Prod.snd_add]
      omega)
    ⟨coherent_boot words nullSegmentSize, late_boot words nullSegmentSize, rfl⟩ hreset h
  obtain ⟨-, -, hbalance⟩ := haccounts
  rw [zero_add, tally_signals] at hbalance
  have hlost : _ ↔ Along step (KeepsSignals cond) (boot words nullSegmentSize) actions :=
    tally_eq_zero_iff h
  rw [← hlost]
  dsimp only at hbalance
  omega

end Runs

section Examples

def waitAndSignal : List Action :=
  [.call (.mutexLock 100), .newThread, .call (.condTimedwait 200 100 300), .visit epoch]

theorem exec_signals_returned : ∃ env,
    (boot staticWords 0).exec
      (waitAndSignal ++ [.call (.condSignal 200), .preempt, .visit epoch]) = .ok env ∧
    tally serve (moved 200) (boot staticWords 0)
        (waitAndSignal ++ [.call (.condSignal 200), .preempt, .visit epoch]) =
      tally serve (returnedZero 200) (boot staticWords 0)
        (waitAndSignal ++ [.call (.condSignal 200), .preempt, .visit epoch]) + env.woken 200 := by
  have hrun : ((boot staticWords 0).exec
      (waitAndSignal ++ [.call (.condSignal 200), .preempt, .visit epoch]) >>= fun env =>
        .ok env.current) = .ok 0 := by decide
  obtain ⟨env, hexec, -⟩ := bind_eq_ok.mp hrun
  exact ⟨env, hexec, (exec_signals (by decide) hexec).mpr (by decide)⟩

theorem exec_signals_lost : ∃ env,
    (boot staticWords 0).exec (waitAndSignal ++
      [.call (.mutexLock 100), .call (.condSignal 200), .preempt, .visit epoch]) = .ok env ∧
    tally serve (moved 200) (boot staticWords 0) (waitAndSignal ++
      [.call (.mutexLock 100), .call (.condSignal 200), .preempt, .visit epoch]) = 1 ∧
    tally serve (returnedZero 200) (boot staticWords 0) (waitAndSignal ++
      [.call (.mutexLock 100), .call (.condSignal 200), .preempt, .visit epoch]) = 0 ∧
    env.woken 200 = 0 := by
  have hrun : ((boot staticWords 0).exec (waitAndSignal ++
      [.call (.mutexLock 100), .call (.condSignal 200), .preempt, .visit epoch]) >>= fun env =>
        .ok (env.woken 200)) = .ok 0 := by decide
  obtain ⟨env, hexec, hwoken⟩ := bind_eq_ok.mp hrun
  exact ⟨env, hexec, by decide, by decide, Except.ok.inj hwoken⟩

end Examples

end Env

end TouchHle.Threads
