import TouchHle.Threads.Picks

namespace TouchHle.Threads

open Lib List Option Function

/-- How a pass ends: with a thread to run, with nothing to do but wait for one that wakes up by
itself, or with the report that all threads are blocked. -/
inductive PassResult
  | next (threadId : ℕ)
  | asleep
  | allBlocked
  deriving DecidableEq

namespace Env

def awakens (env : Env) (threadId : ℕ) (now : Clock) : Bool :=
  (env.threads threadId).active && (env.threads threadId).suspendCount = 0 &&
    match (env.threads threadId).blockedBy with
    | .sleeping due => now.instant < due
    | .guestSleeping due => now.guest < due
    | .condition _ deadline => deadline.any (now.system < ·)
    | _ => false

def passFrom (now : ℕ → Clock) : ℕ → ℕ → Bool → Env → Checked (PassResult × Env)
  | 0, _, asleep, env => return (if asleep then .asleep else .allBlocked, env)
  | k + 1, i, asleep, env => do
    let threadId := (env.current + 1 + i) % env.threadCount
    let (picked, env') ← env.tryCandidate threadId (now i)
    if picked then return (.next threadId, env')
    else
      passFrom now k (i + 1) (asleep || env.awakens threadId (now i))
        { env' with scan := some ((i + 1) % env'.threadCount) }

def schedulingPass (env : Env) (now : ℕ → Clock) : Checked (PassResult × Env) :=
  passFrom now env.threadCount 0 false env

def Called (object : CondHostObject) (t : ℕ) (deadline : Option ℕ) (now : Clock) : Prop :=
  object.waking.head? = some t ∨ ∃ due ∈ deadline, due ≤ now.system

def Satisfiable (env : Env) (t : ℕ) : Prop :=
  env.Runnable t ∧
    match (env.threads t).blockedBy with
    | .mutex mutexId => ∃ mutex, env.Free mutexId mutex
    | .semaphore sem =>
      ∃ s ∈ env.semaphores.openSemaphores sem, 0 < (env.semaphores.hostSems s).value
    | .condition cond _ => ∃ object ∈ env.conds cond, t ∈ object.waking ∧
      ∃ mutexId ∈ object.currMutex, ∃ mutex, env.Free mutexId mutex
    | .joining joinee => (env.threads joinee).active = false
    | _ => False

def Ready (env : Env) (t : ℕ) (now : Clock) : Prop :=
  env.Runnable t ∧
    match (env.threads t).blockedBy with
    | .notBlocked => True
    | .sleeping due => due ≤ now.instant
    | .guestSleeping due => due ≤ now.guest
    | .mutex mutexId => env.mutexIsLocked mutexId = false
    | .semaphore sem =>
      ∀ s ∈ env.semaphores.openSemaphores sem, 0 < (env.semaphores.hostSems s).value
    | .condition cond deadline => ∃ object ∈ env.conds cond, ∃ mutexId ∈ object.currMutex,
      env.mutexIsLocked mutexId = false ∧ Called object t deadline now
    | .joining joinee => (env.threads joinee).active = false

def Stranded (env : Env) (t : ℕ) (now : Clock) : Prop :=
  env.Runnable t ∧
    match (env.threads t).blockedBy with
    | .mutex mutexId => env.mutexes mutexId = none
    | .condition cond deadline => ∀ object ∈ env.conds cond, ∀ mutexId ∈ object.currMutex,
      env.mutexes mutexId = none ∧ Called object t deadline now
    | _ => False

def FindsReady (env : Env) (now : ℕ → Clock) : Prop :=
  ∃ i < env.threadCount, env.Ready (env.candidate i) (now i) ∧
    ∀ j ≤ i, ¬ env.Stranded (env.candidate j) (now j)

variable {env env' e env₀ : Env} {now : Clock} {t : ℕ}

section Candidates

lemma tryCandidate_of_not_runnable (h : ¬ env.Runnable t) :
    env.tryCandidate t now = .ok (false, env) := by
  unfold tryCandidate
  cases hactive : (env.threads t).active with
  | false => rfl
  | true =>
    have hpos : 0 < (env.threads t).suspendCount :=
      Nat.pos_of_ne_zero fun hzero => h ⟨hactive, hzero⟩
    simp only [Bool.not_true, Bool.false_eq_true, if_false, if_pos hpos]
    rfl

lemma tryCandidate_of_runnable (h : env.Runnable t) :
    env.tryCandidate t now = match (env.threads t).blockedBy with
    | .sleeping due =>
      return if due ≤ now.instant then (true, env.unblock t) else (false, env)
    | .guestSleeping due =>
      return if due ≤ now.guest then (true, env.unblock t) else (false, env)
    | .mutex mutexId => env.unblockedOnMutex t mutexId
    | .semaphore sem => env.unblockedOnSemaphore t sem
    | .condition cond deadline => env.unblockedOnCondition t cond deadline now
    | .joining joinee =>
      if env.threadCount ≤ joinee then .error .index
      else if !(env.threads joinee).active then return (true, env.unblock t)
      else return (false, env)
    | .notBlocked => return (true, env) := by
  unfold tryCandidate
  rw [h.1, h.2]
  rfl

lemma mutexIsLocked_of_none {mutexId : ℕ} (h : env.mutexes mutexId = none) :
    env.mutexIsLocked mutexId = false := by
  simp [mutexIsLocked, h]

lemma relock_of_none {mutexId : ℕ} (h : e.mutexes mutexId = none) :
    e.relockUnblockedMutexForThread t mutexId = .error .unwrap := by
  simp only [relockUnblockedMutexForThread, h]
  rfl

lemma relock_of_unlocked {mutexId : ℕ} (h : e.mutexIsLocked mutexId = false)
    (hsome : e.mutexes mutexId ≠ none) :
    ∃ e', e.relockUnblockedMutexForThread t mutexId = .ok e' := by
  obtain ⟨mutex, hmutex⟩ := ne_none_iff_exists'.mp hsome
  have hlocked := (mutexIsLocked_eq_false hmutex).mp h
  exact ⟨_, by simp only [relockUnblockedMutexForThread, hmutex, unwrap_some, ok_bind,
    assert_of hlocked]; rfl⟩

section Condition

variable {cond mutexId : ℕ} {deadline : Option ℕ} {object : CondHostObject}

lemma unblockedOnCondition_locked (hfound : env.conds cond = some object)
    (hcurr : object.currMutex = some mutexId) (hfresh : t ∉ object.timedOut)
    (hlocked : env.mutexIsLocked mutexId = true) :
    ∃ e, env.unblockedOnCondition t cond deadline now = .ok (false, e) := by
  simp only [unblockedOnCondition, hfound, hcurr, unwrap_some, ok_bind, hlocked, Bool.not_true,
    Bool.false_eq_true, and_false, if_false]
  split_ifs
  · rw [timeOut, assert_of hfresh, ok_bind]
    dsimp only
    rw [if_pos (show mutexIsLocked (env.setCond cond _) mutexId = true from hlocked)]
    exact ⟨_, rfl⟩
  · exact ⟨_, rfl⟩

lemma unblockedOnCondition_called (hfound : env.conds cond = some object)
    (hcurr : object.currMutex = some mutexId) (hfresh : t ∉ object.timedOut)
    (hunlocked : env.mutexIsLocked mutexId = false) (hcalled : Called object t deadline now) :
    ∃ e : Env, e.mutexes = env.mutexes ∧ env.unblockedOnCondition t cond deadline now =
      e.relockUnblockedMutexForThread t mutexId >>= fun e => .ok (true, e) := by
  simp only [unblockedOnCondition, hfound, hcurr, unwrap_some, ok_bind, hunlocked, Bool.not_false,
    and_true]
  by_cases hhead : object.waking.head? = some t
  · rw [if_pos hhead]
    refine ⟨_, ?_, rfl⟩
    rfl
  · have hdue : deadline.any (· ≤ now.system) = true := by
      obtain ⟨due, hmem, hle⟩ := hcalled.resolve_left hhead
      exact (any_eq_true _ _).mpr ⟨due, hmem, decide_eq_true hle⟩
    rw [if_neg hhead, if_pos hdue, timeOut, assert_of hfresh, ok_bind]
    dsimp only
    rw [if_neg (show ¬ mutexIsLocked (env.setCond cond _) mutexId = true from
      Bool.eq_false_iff.mp hunlocked)]
    refine ⟨_, ?_, rfl⟩
    rfl

lemma unblockedOnCondition_not_called (hfound : env.conds cond = some object)
    (hcurr : object.currMutex = some mutexId) (hcalled : ¬ Called object t deadline now) :
    env.unblockedOnCondition t cond deadline now = .ok (false, env) := by
  have hdue : ¬ deadline.any (· ≤ now.system) = true := by
    intro hdue
    obtain ⟨due, hmem, hle⟩ := (any_eq_true _ _).mp hdue
    exact hcalled (.inr ⟨due, hmem, of_decide_eq_true hle⟩)
  simp only [unblockedOnCondition, hfound, hcurr, unwrap_some, ok_bind]
  rw [if_neg (fun h => hcalled (.inl h.1)), if_neg hdue]
  rfl

end Condition

lemma Coherent.tryCandidate_ready (hc : env.Coherent) (hready : env.Ready t now)
    (hnot : ¬ env.Stranded t now) : ∃ e, env.tryCandidate t now = .ok (true, e) := by
  obtain ⟨hrun, hready⟩ := hready
  have hnot := fun h => hnot ⟨hrun, h⟩
  rw [tryCandidate_of_runnable hrun]
  cases hb : (env.threads t).blockedBy with
  | notBlocked => exact ⟨_, rfl⟩
  | sleeping due =>
    rw [hb] at hready
    have hdue : due ≤ now.instant := hready
    exact ⟨env.unblock t, by simp only [hdue, if_true]; rfl⟩
  | guestSleeping due =>
    rw [hb] at hready
    have hdue : due ≤ now.guest := hready
    exact ⟨env.unblock t, by simp only [hdue, if_true]; rfl⟩
  | mutex mutexId =>
    rw [hb] at hready hnot
    obtain ⟨e, he⟩ := relock_of_unlocked (e := env.unblock t) (t := t) hready hnot
    refine ⟨e, ?_⟩
    simp only [unblockedOnMutex, hready, Bool.false_eq_true, if_false, he]
    rfl
  | semaphore sem =>
    rw [hb] at hready
    change ∃ e, env.unblockedOnSemaphore t sem = .ok (true, e)
    unfold unblockedOnSemaphore
    split
    · exact ⟨_, rfl⟩
    · next s hs => exact ⟨_, if_pos (hready s hs)⟩
  | condition cond deadline =>
    rw [hb] at hready hnot
    obtain ⟨object, hfound, mutexId, hcurr, hunlocked, hcalled⟩ := hready
    have hsome : env.mutexes mutexId ≠ none := fun hnone => hnot fun o ho id hid => by
      obtain rfl := some.inj (hfound.symm.trans ho)
      obtain rfl := some.inj (hcurr.symm.trans hid)
      exact ⟨hnone, hcalled⟩
    obtain ⟨e, hmutexes, htry⟩ := unblockedOnCondition_called hfound hcurr
      (hc.not_mem_timedOut hb hfound) hunlocked hcalled
    obtain ⟨e', he'⟩ := relock_of_unlocked (e := e) (t := t)
      (by rw [mutexIsLocked, hmutexes]; exact hunlocked) (by rwa [hmutexes])
    exact ⟨e', htry.trans (by rw [he', ok_bind])⟩
  | joining joinee =>
    rw [hb] at hready
    simp only [if_neg (not_le.mpr (hc.joinee_lt t joinee hb)), hready, Bool.not_false, if_true]
    exact ⟨_, rfl⟩

lemma Coherent.tryCandidate_not_ready (hc : env.Coherent) (hready : ¬ env.Ready t now)
    (hnot : ¬ env.Stranded t now) : ∃ e, env.tryCandidate t now = .ok (false, e) := by
  by_cases hrun : env.Runnable t
  · have hready := fun h => hready ⟨hrun, h⟩
    have hnot := fun h => hnot ⟨hrun, h⟩
    rw [tryCandidate_of_runnable hrun]
    cases hb : (env.threads t).blockedBy with
    | notBlocked =>
      rw [hb] at hready
      exact absurd trivial hready
    | sleeping due =>
      rw [hb] at hready
      have hdue : ¬ due ≤ now.instant := hready
      exact ⟨env, by simp only [hdue, if_false]; rfl⟩
    | guestSleeping due =>
      rw [hb] at hready
      have hdue : ¬ due ≤ now.guest := hready
      exact ⟨env, by simp only [hdue, if_false]; rfl⟩
    | mutex mutexId =>
      rw [hb] at hready
      exact ⟨_, if_pos (Bool.eq_true_of_not_eq_false hready)⟩
    | semaphore sem =>
      rw [hb] at hready
      change ∃ e, env.unblockedOnSemaphore t sem = .ok (false, e)
      unfold unblockedOnSemaphore
      split
      · next hclosed => exact absurd (fun s hs => by cases hclosed.symm.trans hs) hready
      · next s hs =>
        refine ⟨_, if_neg fun hpos => hready fun s' hs' => ?_⟩
        obtain rfl := some.inj (hs.symm.trans hs')
        exact hpos
    | condition cond deadline =>
      rw [hb] at hready hnot
      -- The condition variable and its mutex exist, as the thread is not stranded.
      obtain ⟨object, hfound, mutexId, hcurr, -⟩ : ∃ object, env.conds cond = some object ∧
          ∃ mutexId, object.currMutex = some mutexId ∧ True := by
        by_contra hnone
        exact hnot fun o ho id hid => absurd ⟨o, ho, id, hid, trivial⟩ hnone
      by_cases hlocked : env.mutexIsLocked mutexId = true
      · exact unblockedOnCondition_locked hfound hcurr (hc.not_mem_timedOut hb hfound) hlocked
      · refine ⟨env, unblockedOnCondition_not_called hfound hcurr fun hcalled => ?_⟩
        exact hready ⟨object, hfound, mutexId, hcurr, Bool.eq_false_of_not_eq_true hlocked, hcalled⟩
    | joining joinee =>
      rw [hb] at hready
      have hactive : (env.threads joinee).active = true := Bool.eq_true_of_not_eq_false hready
      simp only [if_neg (not_le.mpr (hc.joinee_lt t joinee hb)), hactive, Bool.not_true,
        Bool.false_eq_true, if_false]
      exact ⟨_, rfl⟩
  · exact ⟨env, tryCandidate_of_not_runnable hrun⟩

lemma Coherent.tryCandidate_stranded (hc : env.Coherent) (h : env.Stranded t now) :
    ∃ f, env.tryCandidate t now = .error f := by
  obtain ⟨hrun, h⟩ := h
  rw [tryCandidate_of_runnable hrun]
  cases hb : (env.threads t).blockedBy with
  | mutex mutexId =>
    rw [hb] at h
    have hfree : env.mutexIsLocked mutexId = false := mutexIsLocked_of_none h
    have hrelock := relock_of_none (e := env.unblock t) (t := t) h
    refine ⟨.unwrap, ?_⟩
    simp only [unblockedOnMutex, hfree, Bool.false_eq_true, if_false, hrelock, error_bind]
  | condition cond deadline =>
    rw [hb] at h
    cases hfound : env.conds cond with
    | none => exact ⟨.unwrap, by simp [unblockedOnCondition, hfound, unwrap]⟩
    | some object =>
      cases hcurr : object.currMutex with
      | none => exact ⟨.unwrap, by simp [unblockedOnCondition, hfound, hcurr, unwrap]⟩
      | some mutexId =>
        obtain ⟨hnone, hcalled⟩ := h object hfound mutexId hcurr
        obtain ⟨e, hmutexes, htry⟩ := unblockedOnCondition_called hfound hcurr
          (hc.not_mem_timedOut hb hfound) (mutexIsLocked_of_none hnone) hcalled
        have hrelock := relock_of_none (e := e) (t := t) (by rw [hmutexes]; exact hnone)
        exact ⟨.unwrap, htry.trans (by rw [hrelock, error_bind])⟩
  | _ =>
    rw [hb] at h
    exact h.elim

end Candidates

section Pass

/-- What the pass has done to a state, up to a candidate: some threads may have left condition
variables whose mutex is locked, but those still to come are as they were. -/
structure Scanned (env₀ env : Env) (i : ℕ) : Prop where
  current : env.current = env₀.current
  threadCount : env.threadCount = env₀.threadCount
  mutexes : env.mutexes = env₀.mutexes
  semaphores : env.semaphores = env₀.semaphores
  active : ∀ t, (env.threads t).active = (env₀.threads t).active
  later : ∀ j, i ≤ j → j < env₀.threadCount →
    env.threads (env₀.candidate j) = env₀.threads (env₀.candidate j)
  conds : ∀ cond, env.conds cond = env₀.conds cond ∨ ∃ object object' mutexId,
    env₀.conds cond = some object ∧ env.conds cond = some object' ∧
      object.currMutex = some mutexId ∧ object'.currMutex = some mutexId ∧
        env₀.mutexIsLocked mutexId = true

lemma Scanned.refl : Scanned env env 0 :=
  ⟨rfl, rfl, rfl, rfl, fun _ => rfl, fun _ _ _ => rfl, fun _ => .inl rfl⟩

lemma Scanned.candidate {i : ℕ} (h : Scanned env₀ env i) (j : ℕ) :
    env.candidate j = env₀.candidate j := by
  rw [Env.candidate, Env.candidate, h.current, h.threadCount]

lemma Scanned.mutexIsLocked {i : ℕ} (h : Scanned env₀ env i) (mutexId : ℕ) :
    env.mutexIsLocked mutexId = env₀.mutexIsLocked mutexId := by
  rw [Env.mutexIsLocked, Env.mutexIsLocked, h.mutexes]

lemma Scanned.ready {i : ℕ} (h : Scanned env₀ env i) (hthread : env.threads t = env₀.threads t) :
    env.Ready t now ↔ env₀.Ready t now := by
  unfold Ready Runnable
  rw [hthread]
  refine and_congr_right fun _ => ?_
  cases (env₀.threads t).blockedBy with
  | mutex mutexId => simp only [h.mutexIsLocked]
  | semaphore sem => simp only [h.semaphores]
  | joining joinee => simp only [h.active]
  | condition cond deadline =>
    simp only [h.mutexIsLocked]
    obtain hsame | ⟨object, object', mutexId, hold, hnew, hcurr, hcurr', hlocked⟩ := h.conds cond
    · rw [hsame]
    · simp [hold, hnew, hcurr, hcurr', hlocked]
  | _ => rfl

lemma Scanned.stranded {i : ℕ} (h : Scanned env₀ env i)
    (hthread : env.threads t = env₀.threads t) :
    env.Stranded t now ↔ env₀.Stranded t now := by
  unfold Stranded Runnable
  rw [hthread]
  refine and_congr_right fun _ => ?_
  cases (env₀.threads t).blockedBy with
  | mutex mutexId => simp only [h.mutexes]
  | condition cond deadline =>
    simp only [h.mutexes]
    obtain hsame | ⟨object, object', mutexId, hold, hnew, hcurr, hcurr', hlocked⟩ := h.conds cond
    · rw [hsame]
    · have hsome : env₀.mutexes mutexId ≠ none := fun hnone =>
        absurd (mutexIsLocked_of_none hnone) (by rw [hlocked]; simp)
      simp [hold, hnew, hcurr, hcurr', hsome]
  | _ => rfl

lemma candidate_inj {i j : ℕ} (hi : i < env.threadCount) (hj : j < env.threadCount)
    (h : env.candidate i = env.candidate j) : i = j := by
  have hmod : env.current + 1 + i ≡ env.current + 1 + j [MOD env.threadCount] := h
  exact Nat.ModEq.eq_of_lt_of_lt (Nat.ModEq.add_left_cancel' _ hmod) hi hj

lemma Scanned.passes {i : ℕ} {scan : Option ℕ} (h : Scanned env₀ env i) (hi : i < env₀.threadCount)
    (htried : env.Tried (env₀.candidate i) now false e) :
    Scanned env₀ { e with scan } (i + 1) := by
  have hne : ∀ j, i + 1 ≤ j → j < env₀.threadCount → env₀.candidate j ≠ env₀.candidate i := by
    intro j hle hlt heq
    have := candidate_inj hlt hi heq
    omega
  cases htried with
  | skipped =>
    exact ⟨h.current, h.threadCount, h.mutexes, h.semaphores, h.active,
      fun j hle hlt => h.later j (by omega) hlt, h.conds⟩
  | @timedOutLocked cond mutexId due object hb hfound hcurr hdue hfresh hlocked =>
    refine ⟨h.current, h.threadCount, h.mutexes, h.semaphores, fun t => ?_, fun j hle hlt => ?_,
      fun c => ?_⟩
    · by_cases ht : t = env₀.candidate i
      · subst ht
        simp [setThread, leave, setCond, h.active]
      · simp only [setThread, update_of_ne ht]
        exact h.active t
    · simp only [setThread, update_of_ne (hne j hle hlt)]
      exact h.later j (by omega) hlt
    · by_cases hc : c = cond
      · subst hc
        refine .inr ?_
        rw [h.mutexIsLocked] at hlocked
        obtain hsame | ⟨object₀, object', mutexId', hold, hnew, hcurr₀, hcurr', -⟩ := h.conds c
        · exact ⟨object, _, mutexId, hsame ▸ hfound, update_self _ _ _, hcurr, hcurr,
            hlocked⟩
        · obtain rfl := some.inj (hnew.symm.trans hfound)
          obtain rfl := some.inj (hcurr'.symm.trans hcurr)
          exact ⟨object₀, _, mutexId', hold, update_self _ _ _, hcurr₀, hcurr, hlocked⟩
      · simp only [setThread, leave, setCond, update_of_ne hc]
        exact h.conds c

lemma Coherent.passFrom_next_iff (hc : env.Coherent) {now : ℕ → Clock} {k i : ℕ} {asleep : Bool}
    (h : Scanned env₀ env i) (hik : i + k = env₀.threadCount) :
    (∃ t e, passFrom now k i asleep env = .ok (.next t, e)) ↔
      ∃ j < env₀.threadCount, i ≤ j ∧ env₀.Ready (env₀.candidate j) (now j) ∧
        ∀ l, i ≤ l → l ≤ j → ¬ env₀.Stranded (env₀.candidate l) (now l) := by
  induction k generalizing i env asleep with
  | zero =>
    constructor
    · rintro ⟨t, e, hpass⟩
      cases asleep <;> cases (ok_pair_inj hpass).1
    · rintro ⟨j, hj, hij, -⟩
      omega
  | succ k ih =>
    have hi : i < env₀.threadCount := by omega
    have hthread := h.later i le_rfl hi
    have hcandidate : (env.current + 1 + i) % env.threadCount = env₀.candidate i := h.candidate i
    simp only [passFrom, hcandidate]
    by_cases hstranded : env₀.Stranded (env₀.candidate i) (now i)
    · obtain ⟨f, hfault⟩ := hc.tryCandidate_stranded ((h.stranded hthread).mpr hstranded)
      rw [hfault]
      constructor
      · rintro ⟨t, e, hpass⟩
        cases hpass
      · rintro ⟨j, hj, hij, -, hnot⟩
        exact absurd hstranded (hnot i le_rfl hij)
    · have hnot : ¬ env.Stranded (env₀.candidate i) (now i) :=
        (h.stranded hthread).not.mpr hstranded
      by_cases hready : env₀.Ready (env₀.candidate i) (now i)
      · obtain ⟨e, htry⟩ := hc.tryCandidate_ready ((h.ready hthread).mpr hready) hnot
        rw [htry]
        refine iff_of_true ⟨_, e, rfl⟩ ⟨i, hi, le_rfl, hready, fun l hil hli => ?_⟩
        obtain rfl := le_antisymm hil hli
        exact hstranded
      · obtain ⟨e, htry⟩ := hc.tryCandidate_not_ready ((h.ready hthread).not.mpr hready) hnot
        have htried := tried_of_tryCandidate htry
        have hlt : env₀.candidate i < env.threadCount := h.candidate i ▸ hc.candidate_lt i
        rw [htry]
        refine (ih (hc.passes hlt htried) (h.passes hi htried) (by omega)).trans ?_
        refine exists_congr fun j => and_congr_right fun hj => ?_
        constructor
        · rintro ⟨hij, hj', hbefore⟩
          refine ⟨by omega, hj', fun l hil hlj => ?_⟩
          by_cases hl : l = i
          · exact hl ▸ hstranded
          · exact hbefore l (by omega) hlj
        · rintro ⟨hij, hj', hbefore⟩
          have hne : j ≠ i := fun heq => hready (heq ▸ hj')
          exact ⟨by omega, hj', fun l hil hlj => hbefore l (by omega) hlj⟩

theorem Coherent.schedulingPass_next_iff (hc : env.Coherent) {now : ℕ → Clock} :
    (∃ t e, env.schedulingPass now = .ok (.next t, e)) ↔ env.FindsReady now := by
  rw [schedulingPass, hc.passFrom_next_iff .refl (zero_add _), FindsReady]
  simp

lemma Coherent.runnable_of_passFrom (hc : env.Coherent) {now : ℕ → Clock} {k i : ℕ} {asleep : Bool}
    (h : Scanned env₀ env i) (hik : i + k = env₀.threadCount)
    (hpass : passFrom now k i asleep env = .ok (.next t, e)) : env₀.Runnable t := by
  induction k generalizing i env asleep with
  | zero => cases asleep <;> cases (ok_pair_inj hpass).1
  | succ k ih =>
    have hi : i < env₀.threadCount := by omega
    have hcandidate : (env.current + 1 + i) % env.threadCount = env₀.candidate i := h.candidate i
    simp only [passFrom, hcandidate] at hpass
    obtain ⟨⟨picked, e'⟩, htry, hpass⟩ := bind_eq_ok.mp hpass
    cases picked with
    | true =>
      obtain ⟨hnext, -⟩ := ok_pair_inj hpass
      obtain rfl := PassResult.next.inj hnext
      have hrun := runnable_of_tryCandidate htry
      rwa [Runnable, h.later i le_rfl hi] at hrun
    | false =>
      have htried := tried_of_tryCandidate htry
      have hlt : env₀.candidate i < env.threadCount := h.candidate i ▸ hc.candidate_lt i
      exact ih (hc.passes hlt htried) (h.passes hi htried) (by omega) hpass

/-- The visits of a run make up a pass: those before the thread that is picked leave the state that
the pass has then, and the next one lets the thread go on; if nobody is picked, the loop starts
over. -/
theorem serve_visits_of_passFrom {now : ℕ → Clock} {k i : ℕ}
    {asleep : Bool} {result : PassResult} (hik : i + k = env.threadCount)
    (hscan : env.scan = some (i % env.threadCount))
    (hpass : passFrom now k i asleep env = .ok (result, e)) :
    (∃ t j e', result = .next t ∧ j < k ∧
      env.exec ((List.range j).map fun l => .visit (now (i + l))) = .ok e' ∧
      e'.serve (.visit (now (i + j))) = resume { e with current := t, scan := none }) ∨
    (∀ t, result ≠ .next t) ∧ e.scan = some 0 ∧
      env.exec ((List.range k).map fun l => .visit (now (i + l))) = .ok e := by
  induction k generalizing i env asleep with
  | zero =>
    obtain ⟨rfl, rfl⟩ := ok_pair_inj hpass
    refine .inr ⟨by cases asleep <;> simp, ?_, rfl⟩
    rw [hscan, ← hik, add_zero, Nat.mod_self]
  | succ k ih =>
    have hi : i % env.threadCount = i := Nat.mod_eq_of_lt (by omega)
    rw [hi] at hscan
    simp only [passFrom] at hpass
    obtain ⟨⟨picked, e'⟩, htry, hpass⟩ := bind_eq_ok.mp hpass
    cases picked with
    | true =>
      obtain ⟨rfl, rfl⟩ := ok_pair_inj hpass
      refine .inl ⟨_, 0, env, rfl, Nat.succ_pos k, rfl, ?_⟩
      simp only [serve, visit, hscan, add_zero, htry, ok_bind, if_true]
    | false =>
      have hvisit : env.step (.visit (now i)) =
          .ok { e' with scan := some ((i + 1) % e'.threadCount) } := by
        simp only [step, serve, visit, hscan, htry, ok_bind]
        rfl
      have hcount : e'.threadCount = env.threadCount := by
        cases tried_of_tryCandidate htry <;> rfl
      have hmap : ∀ m, (List.range (m + 1)).map (fun l => Action.visit (now (i + l))) =
          .visit (now i) :: (List.range m).map fun l => .visit (now (i + 1 + l)) := by
        intro m
        rw [range_succ_eq_map, map_cons, List.map_map, add_zero]
        refine congrArg _ (map_congr_left fun l _ => ?_)
        simp only [comp, Nat.succ_eq_add_one, add_assoc, add_comm 1]
      obtain ⟨t, j, e'', hresult, hj, hexec, hserve⟩ | ⟨hresult, hscan', hexec⟩ :=
        ih (by dsimp only; omega) rfl hpass
      · refine .inl ⟨t, j + 1, e'', hresult, by omega, ?_, ?_⟩
        · rw [hmap]
          exact run_cons_eq_ok.mpr ⟨_, hvisit, hexec⟩
        · rw [← hserve, add_assoc, add_comm 1]
      · refine .inr ⟨hresult, hscan', ?_⟩
        rw [hmap]
        exact run_cons_eq_ok.mpr ⟨_, hvisit, hexec⟩

theorem serve_visits_preempted : ∃ env e t j e',
    (boot staticWords 0).exec [.newThread, .preempt] = .ok env ∧
    passFrom (fun _ => epoch) 2 0 false env = .ok (.next t, e) ∧ j < 2 ∧
    env.exec ((List.range j).map fun _ => .visit epoch) = .ok e' ∧
    e'.serve (.visit epoch) = resume { e with current := t, scan := none } := by
  have hrun : ((boot staticWords 0).exec [.newThread, .preempt] >>= fun env =>
      passFrom (fun _ => epoch) 2 0 false env >>= fun x =>
        .ok (env.threadCount, env.scan, x.1)) = .ok (2, some 0, .next 1) := by decide
  obtain ⟨env, hexec, hrun⟩ := bind_eq_ok.mp hrun
  obtain ⟨⟨result, e⟩, hpass, hstate⟩ := bind_eq_ok.mp hrun
  simp only [Except.ok.injEq, Prod.mk.injEq] at hstate
  obtain ⟨hcount, hscan, rfl⟩ := hstate
  obtain ⟨t, j, e', hnext, hj, hvisits, hserve⟩ | ⟨hnone, -⟩ :=
    serve_visits_of_passFrom (by rw [hcount]) (by rw [hscan, hcount]) hpass
  · exact ⟨env, e, t, j, e', hexec, hnext ▸ hpass, hj, hvisits, hserve⟩
  · exact absurd rfl (hnone 1)

lemma exists_candidate (ht : t < env.threadCount) : ∃ i < env.threadCount, env.candidate i = t := by
  have hdiv := Nat.div_add_mod (env.current + 1) env.threadCount
  have hmod := Nat.mod_lt (env.current + 1) (Nat.zero_lt_of_lt ht)
  generalize (env.current + 1) % env.threadCount = m at hdiv hmod
  by_cases hle : m ≤ t
  · refine ⟨t - m, by omega, ?_⟩
    rw [candidate, ← hdiv, add_assoc, Nat.add_sub_cancel' hle, Nat.mul_add_mod,
      Nat.mod_eq_of_lt ht]
  · refine ⟨t + env.threadCount - m, by omega, ?_⟩
    rw [candidate, ← hdiv, add_assoc, Nat.add_sub_cancel' (by omega), Nat.mul_add_mod,
      Nat.add_mod_right, Nat.mod_eq_of_lt ht]

lemma Coherent.findsReady_of_satisfiable (hc : env.Coherent) {now : ℕ → Clock}
    (hstranded : ∀ t now, ¬ env.Stranded t now)
    (hfront : ∀ cond object, env.conds cond = some object → ∀ t ∈ object.waking.head?,
      env.Runnable t) (h : env.Satisfiable t) : env.FindsReady now := by
  have hfinds : ∀ {t}, (env.threads t).blockedBy ≠ .notBlocked → (∀ now, env.Ready t now) →
      env.FindsReady now := by
    intro t hb hready
    obtain ⟨i, hi, hcandidate⟩ := exists_candidate (hc.lt_of_blockedBy hb)
    exact ⟨i, hi, hcandidate ▸ hready _, fun j _ => hstranded _ _⟩
  obtain ⟨hrun, hwait⟩ := h
  cases hb : (env.threads t).blockedBy with
  | mutex mutexId =>
    rw [hb] at hwait
    obtain ⟨mutex, hmutex, hlocked⟩ := hwait
    refine hfinds (t := t) (by simp [hb]) fun now => ⟨hrun, ?_⟩
    rw [hb]
    exact (mutexIsLocked_eq_false hmutex).mpr hlocked
  | semaphore sem =>
    rw [hb] at hwait
    obtain ⟨s, hopen, hvalue⟩ := hwait
    refine hfinds (t := t) (by simp [hb]) fun now => ⟨hrun, ?_⟩
    rw [hb]
    intro s' hs'
    obtain rfl := some.inj (hopen.symm.trans hs')
    exact hvalue
  | condition cond deadline =>
    rw [hb] at hwait
    obtain ⟨object, hobject, hmem, mutexId, hcurr, mutex, hmutex, hlocked⟩ := hwait
    -- The first thread in the queue takes the mutex, if not this one.
    obtain ⟨u, hhead⟩ : ∃ u, object.waking.head? = some u :=
      isSome_iff_exists.mp (isSome_head?.mpr (ne_nil_of_mem hmem))
    have hqueued : u ∈ object.waiting ++ object.waking :=
      mem_append_right _ (mem_of_mem_head? hhead)
    obtain ⟨due, hu⟩ := (hc.tidy cond object hobject).queued u hqueued
    refine hfinds (t := u) (by simp [hu]) fun now => ⟨hfront cond object hobject u hhead, ?_⟩
    rw [hu]
    exact ⟨object, hobject, mutexId, hcurr, (mutexIsLocked_eq_false hmutex).mpr hlocked,
      .inl hhead⟩
  | joining joinee =>
    rw [hb] at hwait
    refine hfinds (t := t) (by simp [hb]) fun now => ⟨hrun, ?_⟩
    rw [hb]
    exact hwait
  | _ =>
    rw [hb] at hwait
    exact hwait.elim

end Pass

section Runs

/-- In every state of every run in which the wait of a thread can be satisfied, a pass of the
scheduler picks a thread exactly if one is ready and none that it looks at before is stranded; and
whichever thread it picks is not suspended. -/
theorem exec_schedulingPass {words : ℕ → UInt32} {nullSegmentSize : ℕ} {actions : List Action}
    (h : (boot words nullSegmentSize).exec actions = .ok env) (now : ℕ → Clock) :
    (((∃ t, env.Satisfiable t) → ∃ t e, env.schedulingPass now = .ok (.next t, e)) ↔
      ((∃ t, env.Satisfiable t) → env.FindsReady now)) ∧
    ∀ t e, env.schedulingPass now = .ok (.next t, e) → (env.threads t).suspendCount = 0 := by
  have hc := coherent_exec h
  refine ⟨forall_congr' fun _ => hc.schedulingPass_next_iff, fun t e hpass => ?_⟩
  exact (hc.runnable_of_passFrom .refl (zero_add _) hpass).2

def broadcastToTwo : List Action :=
  [.newThread, .newThread, .preempt, .visit epoch, .call (.mutexLock 100),
    .call (.condWait 200 100), .visit epoch, .call (.mutexLock 100), .call (.condWait 200 100),
    .visit epoch, .call (.condBroadcast 200)]

theorem exec_schedulingPass_woken : ∃ env,
    (boot staticWords 0).exec (broadcastToTwo ++ [.call (.join 1)]) = .ok env ∧
    (∃ e, env.schedulingPass (fun _ => epoch) = .ok (.next 1, e)) ∧
    (env.threads 1).suspendCount = 0 ∧
    (((∃ t, env.Satisfiable t) → ∃ t e, env.schedulingPass (fun _ => epoch) = .ok (.next t, e)) ↔
      ((∃ t, env.Satisfiable t) → env.FindsReady fun _ => epoch)) := by
  have hrun : ((boot staticWords 0).exec (broadcastToTwo ++ [.call (.join 1)]) >>= fun env =>
      Prod.fst <$> env.schedulingPass fun _ => epoch) = .ok (.next 1) := by decide
  obtain ⟨env, hexec, hpass⟩ := bind_eq_ok.mp hrun
  obtain ⟨⟨result, e⟩, hpass, rfl⟩ := map_eq_ok.mp hpass
  obtain ⟨hnext, hsuspended⟩ := exec_schedulingPass hexec fun _ => epoch
  exact ⟨env, hexec, ⟨e, hpass⟩, hsuspended 1 e hpass, hnext⟩

theorem exec_schedulingPass_deadlock : ∃ env,
    (boot staticWords 0).exec
      (broadcastToTwo ++ [.threadSuspend 2, .call (.join 1)]) = .ok env ∧
    env.Satisfiable 2 ∧ ∃ e, env.schedulingPass (fun _ => epoch) = .ok (.allBlocked, e) := by
  have hrun : ((boot staticWords 0).exec
      (broadcastToTwo ++ [.threadSuspend 2, .call (.join 1)]) >>= fun env =>
        (env.schedulingPass fun _ => epoch) >>= fun x =>
          .ok (x.1, env.threads 2, env.conds 200, (env.mutexes 0).map Mutex.locked)) =
      .ok (.allBlocked, ⟨true, .condition 200 none, 0, some (.condWait 200 0)⟩,
        some ⟨[], [1, 2], some 0, ∅⟩, some none) := by decide
  obtain ⟨env, hexec, hrun⟩ := bind_eq_ok.mp hrun
  obtain ⟨⟨result, e⟩, hpass, hstate⟩ := bind_eq_ok.mp hrun
  simp only [Except.ok.injEq, Prod.mk.injEq] at hstate
  obtain ⟨rfl, hthread, hcond, hmutex⟩ := hstate
  obtain ⟨mutex, hmutex, hunlocked⟩ := Option.map_eq_some_iff.mp hmutex
  refine ⟨env, hexec, ?_, e, hpass⟩
  unfold Satisfiable Runnable
  rw [hthread]
  exact ⟨⟨rfl, rfl⟩, _, hcond, by decide, 0, rfl, mutex, hmutex, hunlocked⟩

def handover : List Action :=
  [.newThread, .call (.mutexLock 100), .preempt, .visit epoch, .call (.mutexLock 100),
    .visit epoch, .call (.mutexUnlock 100), .call (.join 1)]

end Runs

end Env

end TouchHle.Threads
