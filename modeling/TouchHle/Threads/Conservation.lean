import TouchHle.Lib.Tally
import TouchHle.Threads.Picks

/-! The units of semaphores: what was there at first and was posted is there still or was taken. -/

namespace TouchHle.Threads

open Lib Function

def HostCall.hostSem : HostCall → Option ℕ
  | .semWait _ hostSem => some hostSem
  | _ => none

def Call.takes : Call → Option ℕ
  | .semWait sem | .semTrywait sem => some sem
  | _ => none

def Call.posts : Call → Option ℕ
  | .semPost sem => some sem
  | _ => none

namespace Env

def semValue (env : Env) (hostSem : ℕ) : ℤ := (env.semaphores.hostSems hostSem).value

def creates (env : Env) : Call → Option (Fin u32Bound)
  | .semInit sem _ value => if env.semaphores.openSemaphores sem = none then some value else none
  | .semOpen name oflag value _ =>
    if env.semaphores.namedSemaphores name = none ∧ oflag.create = true then some value else none
  | _ => none

def rebinds (env : Env) : Call → Option ℕ
  | .semDestroy sem => some sem
  | .semClose sem =>
    if (env.semaphores.openSemaphores sem).any fun s => (env.semaphores.hostSems s).named then
      some sem
    else none
  | .semOpen name oflag _ sem =>
    match env.semaphores.namedSemaphores name with
    | some s =>
      if oflag.excl = true ∨ (env.semaphores.hostSems s).guestSem ≠ none then none else some sem
    | none => if oflag.create = true then some sem else none
  | _ => none

def NobodyWaitsAt (env : Env) (sem : ℕ) : Prop :=
  ∀ t < env.threadCount, (env.threads t).blockedBy ≠ .semaphore sem

instance (env : Env) (sem : ℕ) : Decidable (env.NobodyWaitsAt sem) :=
  inferInstanceAs (Decidable (∀ t < env.threadCount, _))

def KeepsUnits (env : Env) : Action → Prop
  | .call c => env.scan = none → (∀ value ∈ env.creates c, (value : ℤ) < i32Bound) ∧
    ∀ sem ∈ env.rebinds c, env.NobodyWaitsAt sem
  | _ => True

instance (env : Env) : (a : Action) → Decidable (env.KeepsUnits a)
  | .call c =>
    -- Instance search would run through all the values of a `u32`.
    have : Decidable (∀ value ∈ env.creates c, (value : ℤ) < i32Bound) :=
      Option.decidableForallMem _
    inferInstanceAs (Decidable (env.scan = none →
      (∀ value ∈ env.creates c, (value : ℤ) < i32Bound) ∧
        ∀ sem ∈ env.rebinds c, env.NobodyWaitsAt sem))
  | .visit _ | .store _ _ | .newThread | .exitThread | .preempt | .threadSuspend _
  | .threadResume _ => isTrue trivial

section Accounts

def initial (s : ℕ) (env : Env) (a : Action) (_ : Option ℤ) (_ : Env) : ℤ :=
  match a with
  | .call c =>
    if env.scan = none ∧ env.semaphores.hostSemCount = s then (env.creates c).elim 0 fun v => (v : ℤ)
    else 0
  | _ => 0

def posted (s : ℕ) (env : Env) (a : Action) (r : Option ℤ) (_ : Env) : ℤ :=
  match a with
  | .call c =>
    if r = some 0 ∧ c.posts.bind env.semaphores.openSemaphores = some s then 1 else 0
  | _ => 0

def taken (s : ℕ) (env : Env) (a : Action) (r : Option ℤ) (env' : Env) : ℤ :=
  match a with
  | .call c =>
    if r = some 0 ∧ c.takes.bind env.semaphores.openSemaphores = some s then 1 else 0
  | .visit _ =>
    if r = some 0 ∧ (env.threads env'.current).hostCall.bind HostCall.hostSem = some s then 1 else 0
  | _ => 0

end Accounts

variable {env env' e : Env} {r : Option ℤ} {now : Clock} {t s : ℕ}

section Others

variable {ptr mutexId cond : ℕ} {allowed : Change → Prop}

lemma Path.semaphores (h : Path allowed env env') (hs : ¬ allowed .semaphores) :
    env'.semaphores = env.semaphores := by
  refine h.preserves (I := fun e => e.semaphores = env.semaphores)
    (fun e c e' _ hallowed hchange he => ?_) rfl
  cases hchange with
  | semaphores => exact absurd hallowed hs
  | _ => exact he

lemma semaphores_lockMutex {result : Option (Except ℤ ℕ)}
    (h : env.lockMutex mutexId = .ok (result, env')) : env'.semaphores = env.semaphores := by
  obtain ⟨mutex, -, ⟨n, mutex', -, -, rfl⟩ | ⟨-, rfl⟩ | ⟨-, lock, -, -, rfl⟩⟩ := lockMutex_cases h
    <;> rfl

lemma semaphores_lockInner (h : env.lockInner mutexId = .ok (r, env')) :
    env'.semaphores = env.semaphores := by
  obtain ⟨⟨result, e⟩, hlock, h⟩ := bind_eq_ok.mp h
  obtain ⟨-, rfl⟩ := ok_pair_inj h
  exact semaphores_lockMutex hlock

lemma semaphores_onMutex {magic static : UInt32}
    {operation : Env → ℕ → Checked (Option ℤ × Env)}
    (h : env.onMutex ptr magic static operation = .ok (r, env'))
    (hop : ∀ e id, operation e id = .ok (r, env') → env'.semaphores = e.semaphores) :
    env'.semaphores = env.semaphores := by
  obtain ⟨checked, hcheck, h⟩ := bind_eq_ok.mp h
  cases checked with
  | error err =>
    obtain ⟨-, rfl⟩ := ok_pair_inj h
    rfl
  | ok e =>
    have hpath : Path (fun c => c ≠ .semaphores) env e :=
      path_checkOrRegister hcheck (by simp) (by simp)
    exact (hop e _ h).trans (hpath.semaphores (by simp))

lemma semaphores_sleep {threadBlock : ThreadBlock} (h : env.sleep threadBlock = .ok (r, env')) :
    env'.semaphores = env.semaphores := by
  obtain ⟨e, hyield, h⟩ := bind_eq_ok.mp h
  obtain ⟨-, rfl⟩ := ok_pair_inj h
  obtain ⟨-, rfl⟩ := yieldThread_eq_ok.mp hyield
  rfl

lemma semaphores_trylock (h : env.pthreadMutexTrylock ptr = .ok (r, env')) :
    env'.semaphores = env.semaphores := by
  refine semaphores_onMutex h fun e id hop => ?_
  split_ifs at hop
  · obtain ⟨-, rfl⟩ := ok_pair_inj hop
    rfl
  · exact semaphores_onMutex hop fun _ _ => semaphores_lockInner

lemma semaphores_rwlockTrylock (h : env.rwlockTrylockInner ptr = .ok (r, env')) :
    env'.semaphores = env.semaphores := by
  refine semaphores_onMutex h fun e id hop => ?_
  split_ifs at hop
  · obtain ⟨-, rfl⟩ := ok_pair_inj hop
    rfl
  · exact semaphores_lockInner hop

lemma semaphores_releaseAndWait {mutex : ℕ} {deadline : Option ℕ}
    (h : env.releaseAndWait cond mutex deadline = .ok (r, env')) :
    env'.semaphores = env.semaphores := by
  have hregister : ∀ {e}, env.checkOrRegisterCond cond = .ok e → e.semaphores = env.semaphores := by
    intro e hcheck
    have hpath : Path (fun c => c ≠ .semaphores) env e :=
      path_checkOrRegisterCond hcheck (by simp) (by simp)
    exact hpath.semaphores (by simp)
  have hunlocks : ∀ {e e₁ : Env} {r}, e.pthreadMutexUnlock mutex = .ok (r, e₁) →
      e₁.semaphores = e.semaphores := by
    intro e e₁ r hunlock
    have hpath : Path (fun c => c ≠ .semaphores) e e₁ :=
      path_pthreadMutexUnlock (by simp) (by simp) (by simp) hunlock
    exact hpath.semaphores (by simp)
  obtain ⟨-, -, rfl⟩ | ⟨e, hcheck, ⟨-, hunlock⟩ | ⟨e₁, hunlock, hwait⟩⟩ := releaseAndWait_cases h
  · rfl
  · exact (hunlocks hunlock).trans (hregister hcheck)
  · obtain ⟨object, -, -, -, -, rfl⟩ := waitOnCond_eq_ok.mp hwait
    exact (hunlocks hunlock).trans (hregister hcheck)

lemma semaphores_of_call {c : Call} (hsem : c.isSem = false) (h : env.call c = .ok (r, env')) :
    env'.semaphores = env.semaphores := by
  have hpath : Path (fun c => c ≠ .semaphores) env env' → env'.semaphores = env.semaphores :=
    fun h => h.semaphores (by simp)
  have hinit : ∀ {ptr magic type}, (env.newMutexAt ptr magic type >>= fun e =>
      (pure (some 0, e) : Checked _)) = .ok (r, env') → env'.semaphores = env.semaphores := by
    intro ptr magic type h
    obtain ⟨e, hnew, h⟩ := bind_eq_ok.mp h
    obtain ⟨-, rfl⟩ := ok_pair_inj h
    exact hpath (path_newMutexAt hnew (by simp) (by simp))
  cases c with
  | mutexInit mutex attr =>
    unfold call pthreadMutexInit at h
    dsimp only at h
    split_ifs at h
    · exact hinit h
    · obtain ⟨-, rfl⟩ := ok_pair_inj h
      rfl
    · obtain ⟨type, -, h⟩ := bind_eq_ok.mp h
      exact hinit h
  | mutexLock mutex => exact semaphores_onMutex h fun _ _ => semaphores_lockInner
  | mutexTrylock mutex => exact semaphores_trylock h
  | mutexUnlock mutex => exact hpath (path_pthreadMutexUnlock (by simp) (by simp) (by simp) h)
  | rwlockInit rwlock attr =>
    unfold call pthreadRwlockInit at h
    dsimp only at h
    split_ifs at h
    · obtain ⟨-, rfl⟩ := ok_pair_inj h
      rfl
    · exact hinit h
  | rwlockRdlock rwlock | rwlockWrlock rwlock =>
    exact semaphores_onMutex h fun _ _ => semaphores_lockInner
  | rwlockTryrdlock rwlock | rwlockTrywrlock rwlock => exact semaphores_rwlockTrylock h
  | rwlockUnlock rwlock =>
    refine semaphores_onMutex h fun e id hop => ?_
    have hpath : Path (fun c => c ≠ .semaphores) e env' := path_unlockInner (by simp) hop
    exact hpath.semaphores (by simp)
  | mutexDestroy ptr | rwlockDestroy ptr =>
    refine semaphores_onMutex h fun e id hop => ?_
    have hpath : Path (fun c => c ≠ .semaphores) (e.writeMutex ptr 0 noMutexId) env' :=
      path_destroyInner (by simp) hop
    have hwrite : Path (fun c => c ≠ .semaphores) e (e.writeMutex ptr 0 noMutexId) :=
      (changes_writeWords _).path (by simp)
    exact (hwrite.trans hpath).semaphores (by simp)
  | condInit cond =>
    obtain ⟨-, rfl⟩ := ok_pair_inj h
    exact hpath (path_pthreadCondInit (by simp) (by simp))
  | condWait cond mutex => exact semaphores_releaseAndWait h
  | condTimedwait cond mutex absTime => exact semaphores_releaseAndWait h
  | condSignal cond =>
    obtain ⟨-, rfl⟩ | ⟨e, object, hcheck, hobject, -, rfl⟩ := pthreadCondSignal_cases h
    · rfl
    · exact hpath ((path_checkOrRegisterCond hcheck (by simp) (by simp)).trans
        ((Changes.wake hobject 1).path (by simp)))
  | condBroadcast cond =>
    obtain ⟨-, rfl⟩ | ⟨e, object, hcheck, hobject, -, rfl⟩ := pthreadCondBroadcast_cases h
    · rfl
    · exact hpath ((path_checkOrRegisterCond hcheck (by simp) (by simp)).trans
        ((Changes.wake hobject _).path (by simp)))
  | condDestroy cond =>
    obtain ⟨-, rfl⟩ | ⟨e, object, hcheck, hobject, hwaiting, hwaking, -, rfl⟩ :=
      pthreadCondDestroy_cases h
    · rfl
    · exact hpath ((path_checkOrRegisterCond hcheck (by simp) (by simp)).trans
        ((Changes.dropCond hobject hwaiting hwaking).path (by simp)))
  | sleep due | sleepGuest due => exact semaphores_sleep h
  | join joinee =>
    unfold call joinWithThread at h
    dsimp only at h
    split_ifs at h
    exact semaphores_sleep h
  | _ => cases hsem

end Others

end Env

namespace Semaphores

structure Sound (sems : Semaphores) : Prop where
  opens : ∀ sem s, sems.openSemaphores sem = some s → s < sems.hostSemCount
  named : ∀ name s, sems.namedSemaphores name = some s → s < sems.hostSemCount
  fresh : ∀ s, sems.hostSemCount ≤ s → (sems.hostSems s).value = 0
  nonneg : ∀ s, 0 ≤ (sems.hostSems s).value

variable {sems : Semaphores} {sem s : ℕ} {object : SemaphoreHostObject}

lemma openSemaphores_setOpen {hostSem : Option ℕ} : (sems.setOpen sem hostSem).openSemaphores =
    update sems.openSemaphores sem hostSem := rfl

lemma namedSemaphores_setNamed {name : String} {hostSem : Option ℕ} :
    (sems.setNamed name hostSem).namedSemaphores =
      update sems.namedSemaphores name hostSem := rfl

lemma value_set (u : ℕ) : ((sems.set s object).hostSems u).value =
    (sems.hostSems u).value + if u = s then object.value - (sems.hostSems s).value else 0 := by
  by_cases hu : u = s
  · subst hu
    simp [set]
  · simp [set, hu]

lemma Sound.set (h : sems.Sound) (hs : s < sems.hostSemCount) (hvalue : 0 ≤ object.value) :
    (sems.set s object).Sound where
  opens := h.opens
  named := h.named
  fresh u hu := by
    have hu : sems.hostSemCount ≤ u := hu
    rw [value_set, if_neg (by omega), add_zero]
    exact h.fresh u hu
  nonneg u := by
    by_cases hu : u = s
    · subst hu
      simpa [Semaphores.set] using hvalue
    · simpa [Semaphores.set, hu] using h.nonneg u

lemma Sound.create (h : sems.Sound) (hvalue : 0 ≤ object.value) : (sems.create object).Sound where
  opens sem u hu := (h.opens sem u hu).trans (Nat.lt_succ_self _)
  named name u hu := (h.named name u hu).trans (Nat.lt_succ_self _)
  fresh u hu := by
    have hu : sems.hostSemCount + 1 ≤ u := hu
    have hne : u ≠ sems.hostSemCount := by omega
    simpa [Semaphores.create, Semaphores.set, hne] using h.fresh u (by omega)
  nonneg u := by
    by_cases hu : u = sems.hostSemCount
    · subst hu
      simpa [Semaphores.create, Semaphores.set] using hvalue
    · simpa [Semaphores.create, Semaphores.set, hu] using h.nonneg u

lemma Sound.setOpen (h : sems.Sound) {hostSem : Option ℕ}
    (hlt : ∀ s ∈ hostSem, s < sems.hostSemCount) : (sems.setOpen sem hostSem).Sound where
  opens u s hs := by
    by_cases hu : u = sem
    · subst hu
      rw [openSemaphores_setOpen, update_self] at hs
      exact hlt s hs
    · rw [openSemaphores_setOpen, update_of_ne hu] at hs
      exact h.opens u s hs
  named := h.named
  fresh := h.fresh
  nonneg := h.nonneg

lemma Sound.setNamed (h : sems.Sound) {name : String} {hostSem : Option ℕ}
    (hlt : ∀ s ∈ hostSem, s < sems.hostSemCount) : (sems.setNamed name hostSem).Sound where
  opens := h.opens
  named other s hs := by
    by_cases ho : other = name
    · subst ho
      rw [namedSemaphores_setNamed, update_self] at hs
      exact hlt s hs
    · rw [namedSemaphores_setNamed, update_of_ne ho] at hs
      exact h.named other s hs
  fresh := h.fresh
  nonneg := h.nonneg

end Semaphores

namespace Env

variable {env env' e : Env} {r : Option ℤ} {now : Clock} {t s : ℕ}

structure Balance (env env' : Env) (rebound : Option ℕ) (delta : ℕ → ℤ) : Prop where
  sound : env'.semaphores.Sound
  kept : ∀ sem s, env.semaphores.openSemaphores sem = some s →
    env'.semaphores.openSemaphores sem = some s ∨ rebound = some sem
  value : ∀ s, env'.semValue s = env.semValue s + delta s

section Calls

variable {sem : ℕ}

lemma Balance.of_semaphores (hsound : env.semaphores.Sound) {rebound : Option ℕ} {delta : ℕ → ℤ}
    (h : env'.semaphores = env.semaphores) (hzero : ∀ s, delta s = 0) :
    Balance env env' rebound delta := by
  refine ⟨h ▸ hsound, fun sem s hs => .inl (h ▸ hs), fun s => ?_⟩
  simp only [semValue, h, hzero, add_zero]

lemma Balance.of_set (hsound : env.semaphores.Sound) {rebound : Option ℕ} {delta : ℕ → ℤ} {u : ℕ}
    {object : SemaphoreHostObject} (hopen : env.semaphores.openSemaphores sem = some u)
    (h : env'.semaphores = env.semaphores.set u object) (hvalue : 0 ≤ object.value)
    (hdelta : ∀ s, delta s = if s = u then object.value - env.semValue u else 0) :
    Balance env env' rebound delta := by
  refine ⟨h ▸ hsound.set (hsound.opens sem u hopen) hvalue, fun sem s hs => .inl (h ▸ hs),
    fun s => ?_⟩
  simp only [semValue, h, hdelta, Semaphores.value_set]

def delta (c : Call) (r : Option ℤ) (env env' : Env) (s : ℕ) : ℤ :=
  initial s env (.call c) r env' + posted s env (.call c) r env' - taken s env (.call c) r env'

lemma delta_eq_zero {c : Call} (hcreates : env.creates c = none) (hposts : c.posts = none ∨ r ≠ some 0)
    (htakes : c.takes = none ∨ r ≠ some 0) : delta c r env env' s = 0 := by
  have hinitial : initial s env (.call c) r env' = 0 := by simp [initial, hcreates]
  have hposted : posted s env (.call c) r env' = 0 := by
    refine if_neg fun h => ?_
    obtain hposts | hr := hposts
    · simp [hposts] at h
    · exact hr h.1
  have htaken : taken s env (.call c) r env' = 0 := by
    refine if_neg fun h => ?_
    obtain htakes | hr := htakes
    · simp [htakes] at h
    · exact hr h.1
  rw [delta, hinitial, hposted, htaken, add_zero, sub_zero]

lemma semValue_create (hsound : env.semaphores.Sound) {object : SemaphoreHostObject}
    (h : ∀ u, env'.semValue u = ((env.semaphores.create object).hostSems u).value) (s : ℕ) :
    env'.semValue s =
      env.semValue s + if env.semaphores.hostSemCount = s then object.value else 0 := by
  rw [h]
  by_cases hs : env.semaphores.hostSemCount = s
  · subst hs
    rw [if_pos rfl, semValue, hsound.fresh _ le_rfl, zero_add]
    simp [Semaphores.create, Semaphores.set]
  · rw [if_neg hs, add_zero]
    simp [Semaphores.create, Semaphores.set, Ne.symm hs, semValue]

lemma asI32_of_lt {value : ℕ} (h : (value : ℤ) < i32Bound) : asI32 value = value := if_pos h

lemma delta_of_creates {c : Call} {value : Fin u32Bound} (hscan : env.scan = none)
    (hcreates : env.creates c = some value) (s : ℕ) :
    delta c r env env' s =
      if env.semaphores.hostSemCount = s then (value : ℤ) else 0 := by
  have hquiet : c.posts = none ∧ c.takes = none := by
    cases c <;> first | exact ⟨rfl, rfl⟩ | cases hcreates
  simp [delta, initial, posted, taken, hcreates, hscan, hquiet]

lemma kept_of_update {rebound hostSem : Option ℕ} {sem : ℕ} {table : ℕ → Option ℕ}
    (htable : table = update env.semaphores.openSemaphores sem hostSem)
    (h : rebound = some sem) (u s : ℕ) (hs : env.semaphores.openSemaphores u = some s) :
    table u = some s ∨ rebound = some u := by
  by_cases hu : u = sem
  · exact .inr (hu ▸ h)
  · exact .inl (by rwa [htable, update_of_ne hu])

lemma balance_semInit (hsound : env.semaphores.Sound) (hscan : env.scan = none) {pshared : ℤ}
    {value : Fin u32Bound}
    (hvalue : ∀ v ∈ env.creates (.semInit sem pshared value), (v : ℤ) < i32Bound)
    (h : env.semInit sem pshared value = .ok (r, env')) :
    Balance env env' none (delta (.semInit sem pshared value) r env env') := by
  obtain ⟨_, -, h⟩ := bind_eq_ok.mp h
  split_ifs at h with hopen <;> obtain ⟨-, rfl⟩ := ok_pair_inj h
  · have hbound : env.semaphores.openSemaphores sem ≠ none := Option.isSome_iff_ne_none.mp hopen
    exact .of_semaphores hsound rfl fun s =>
      delta_eq_zero (if_neg hbound) (.inl rfl) (.inl rfl)
  · have hfree : env.semaphores.openSemaphores sem = none := by
      have hopen : ¬ (env.semaphores.openSemaphores sem).isSome = true := hopen
      simpa using hopen
    have hcreates : env.creates (.semInit sem pshared value) = some value := if_pos hfree
    have hlt := hvalue value hcreates
    refine ⟨?_, fun u s hs => ?_, fun s => ?_⟩
    · refine (hsound.create ?_).setOpen (by rintro _ ⟨⟩; exact Nat.lt_succ_self _)
      rw [asI32_of_lt hlt]
      exact Int.natCast_nonneg _
    · have hne : u ≠ sem := by
        rintro rfl
        cases hfree.symm.trans hs
      exact .inl ((update_of_ne hne _ _).trans hs)
    · refine (semValue_create hsound (fun _ => rfl) s).trans ?_
      rw [delta_of_creates hscan hcreates]
      simp only [asI32_of_lt hlt]

lemma balance_semDestroy (hsound : env.semaphores.Sound) (h : env.semDestroy sem = .ok (r, env')) :
    Balance env env' (some sem) (delta (.semDestroy sem) r env env') := by
  have hzero : ∀ s, delta (.semDestroy sem) r env env' s = 0 :=
    fun s => delta_eq_zero rfl (.inl rfl) (.inl rfl)
  unfold semDestroy at h
  split at h
  · obtain ⟨-, rfl⟩ := ok_pair_inj h
    exact .of_semaphores hsound rfl hzero
  · obtain ⟨_, -, h⟩ := bind_eq_ok.mp h
    obtain ⟨-, rfl⟩ := ok_pair_inj h
    exact ⟨hsound.setOpen (by simp), kept_of_update rfl rfl, fun s => by rw [hzero, add_zero]; rfl⟩

lemma balance_semClose (hsound : env.semaphores.Sound) (h : env.semClose sem = .ok (r, env')) :
    Balance env env' (env.rebinds (.semClose sem)) (delta (.semClose sem) r env env') := by
  have hzero : ∀ s, delta (.semClose sem) r env env' s = 0 :=
    fun s => delta_eq_zero rfl (.inl rfl) (.inl rfl)
  unfold semClose at h
  dsimp only at h
  split at h
  · obtain ⟨-, rfl⟩ := ok_pair_inj h
    exact .of_semaphores hsound rfl hzero
  · next u hopen =>
    split_ifs at h with hnamed <;> obtain ⟨-, rfl⟩ := ok_pair_inj h
    · exact .of_semaphores hsound rfl hzero
    · have hopen : env.semaphores.openSemaphores sem = some u := hopen
      have hrebinds : env.rebinds (.semClose sem) = some sem := by
        have hnamed : ¬ (!(env.semaphores.hostSems u).named) = true := hnamed
        simp only [rebinds, hopen, Option.any_some]
        exact if_pos (by simpa using hnamed)
      have hclosed : (env.semaphores.setOpen sem none).Sound := hsound.setOpen (by simp)
      refine ⟨hclosed.set (hsound.opens sem u hopen) (hsound.nonneg u), kept_of_update rfl hrebinds,
        fun s => ?_⟩
      rw [hzero, add_zero]
      refine (Semaphores.value_set s).trans ?_
      simp [semValue, setErrno, Semaphores.setOpen]

lemma balance_openAt (hsound : e.semaphores.Sound) {u : ℕ} (hu : u < e.semaphores.hostSemCount)
    (sem : ℕ) : (e.openAt sem u).2.semaphores.Sound ∧
      (e.openAt sem u).2.semaphores.openSemaphores =
        update e.semaphores.openSemaphores sem (some u) ∧
      ∀ s, (e.openAt sem u).2.semValue s = e.semValue s := by
  have hset : (e.semaphores.set u { e.semaphores.hostSems u with guestSem := some sem }).Sound :=
    hsound.set hu (hsound.nonneg u)
  refine ⟨hset.setOpen (by rintro _ ⟨⟩; exact hu), rfl, fun s => ?_⟩
  refine (Semaphores.value_set s).trans ?_
  simp [semValue]

lemma balance_semOpen (hsound : env.semaphores.Sound) (hscan : env.scan = none) {name : String}
    {oflag : OpenFlags} {value : Fin u32Bound}
    (hvalue : ∀ v ∈ env.creates (.semOpen name oflag value sem), (v : ℤ) < i32Bound)
    (h : env.semOpen name oflag value sem = .ok (r, env')) :
    Balance env env' (env.rebinds (.semOpen name oflag value sem))
      (delta (.semOpen name oflag value sem) r env env') := by
  unfold semOpen at h
  dsimp only at h
  split at h
  · next u hnamed =>
    have hnamed : env.semaphores.namedSemaphores name = some u := hnamed
    have hzero : ∀ s, delta (.semOpen name oflag value sem) r env env' s = 0 := fun s =>
      delta_eq_zero (if_neg fun hc => by cases hnamed.symm.trans hc.1) (.inl rfl) (.inl rfl)
    split_ifs at h with hexcl
    · obtain ⟨-, rfl⟩ := ok_pair_inj h
      exact .of_semaphores hsound rfl hzero
    split at h
    · obtain ⟨-, rfl⟩ := ok_pair_inj h
      exact .of_semaphores hsound rfl hzero
    · next hguest =>
      have hguest : (env.semaphores.hostSems u).guestSem = none := hguest
      have hrebinds : env.rebinds (.semOpen name oflag value sem) = some sem := by
        simp only [rebinds, hnamed]
        exact if_neg (not_or.mpr ⟨hexcl, not_not.mpr hguest⟩)
      have hopened := balance_openAt (e := env.setErrno 0) hsound (hsound.named name u hnamed) sem
      obtain rfl : ((env.setErrno 0).openAt sem u).2 = env' := congrArg Prod.snd (Except.ok.inj h)
      exact ⟨hopened.1, kept_of_update hopened.2.1 hrebinds,
        fun s => by rw [hzero, add_zero]; exact hopened.2.2 s⟩
  · next hnamed =>
    have hnamed : env.semaphores.namedSemaphores name = none := hnamed
    split_ifs at h with hcreate
    · obtain ⟨-, rfl⟩ := ok_pair_inj h
      refine .of_semaphores hsound rfl fun s => ?_
      exact delta_eq_zero (if_neg fun hc => by simp [hc.2] at hcreate) (.inl rfl) (.inl rfl)
    · have hcreate : oflag.create = true := by simpa using hcreate
      have hcreates : env.creates (.semOpen name oflag value sem) = some value :=
        if_pos ⟨hnamed, hcreate⟩
      have hrebinds : env.rebinds (.semOpen name oflag value sem) = some sem := by
        simp only [rebinds, hnamed]
        exact if_pos hcreate
      have hlt := hvalue value hcreates
      have hcreated : ((env.semaphores.create ⟨asI32 value, ∅, none, true⟩).setNamed name
          (some env.semaphores.hostSemCount)).Sound := by
        refine (hsound.create ?_).setNamed (by rintro _ ⟨⟩; exact Nat.lt_succ_self _)
        rw [asI32_of_lt hlt]
        exact Int.natCast_nonneg _
      have hopened := balance_openAt
        (e := { env.setErrno 0 with
          semaphores := (env.semaphores.create ⟨asI32 value, ∅, none, true⟩).setNamed name
            (some env.semaphores.hostSemCount) }) hcreated (Nat.lt_succ_self _) sem
      obtain rfl := congrArg Prod.snd (Except.ok.inj h)
      refine ⟨hopened.1, kept_of_update hopened.2.1 hrebinds, fun s => ?_⟩
      rw [delta_of_creates hscan hcreates]
      refine (hopened.2.2 s).trans ((semValue_create hsound (fun _ => rfl) s).trans ?_)
      simp only [asI32_of_lt hlt]

lemma balance_semPost (hsound : env.semaphores.Sound) (h : env.semPost sem = .ok (r, env')) :
    Balance env env' none (delta (.semPost sem) r env env') := by
  obtain ⟨-, rfl, rfl⟩ | ⟨u, hopen, rfl, rfl⟩ := semPost_cases h
  · exact .of_semaphores hsound rfl fun s =>
      delta_eq_zero rfl (.inr (by simp)) (.inl rfl)
  · refine .of_set hsound hopen rfl ?_ fun s => ?_
    · have hvalue := hsound.nonneg u
      dsimp only
      omega
    · simp [delta, initial, creates, posted, taken, Call.posts, Call.takes, hopen, semValue, eq_comm]

lemma delta_of_takes {c : Call} {u : ℕ} (hcreates : env.creates c = none) (hposts : c.posts = none)
    (htakes : c.takes = some sem) (hopen : env.semaphores.openSemaphores sem = some u)
    (hr : r = some 0) : delta c r env env' s = if s = u then -1 else 0 := by
  subst hr
  simp only [delta, initial, hcreates, posted, hposts, taken, htakes, Option.bind_some,
    Option.bind_none, hopen, Option.elim_none, Option.some.injEq, true_and, reduceCtorEq, and_false,
    if_false, ite_self, add_zero, zero_sub, eq_comm]
  split_ifs <;> rfl

lemma balance_semDecrement (hsound : env.semaphores.Sound) {c : Call} {waitOnLock : Bool}
    {result : Option Bool} (hcreates : env.creates c = none) (hposts : c.posts = none)
    (htakes : c.takes = some sem)
    (h : (env.setErrno 0).semDecrement sem waitOnLock = .ok (result, e))
    (hr : result = some true → r = some 0) (hfailed : result ≠ some true → r ≠ some 0)
    (hsame : env'.semaphores = e.semaphores) :
    Balance env env' none (delta c r env env') := by
  obtain ⟨-, rfl, rfl⟩ | ⟨u, hopen, ⟨hpos, rfl, rfl⟩ | ⟨hzero, ⟨-, rfl, rfl⟩ | ⟨-, rfl, rfl⟩⟩⟩ :=
    semDecrement_cases h
  · exact .of_semaphores hsound hsame fun s =>
      delta_eq_zero hcreates (.inl hposts) (.inr (hfailed (by simp)))
  · have hopen : env.semaphores.openSemaphores sem = some u := hopen
    have hpos : 0 < env.semValue u := hpos
    refine .of_set hsound hopen hsame ?_ fun s => ?_
    · exact Int.sub_nonneg_of_le hpos
    · rw [delta_of_takes hcreates hposts htakes hopen (hr rfl)]
      have hvalue : ((env.setErrno 0).semaphores.hostSems u).value = env.semValue u := rfl
      rw [hvalue]
      dsimp only
      split_ifs <;> omega
  · have hopen : env.semaphores.openSemaphores sem = some u := hopen
    refine .of_set hsound hopen hsame (hsound.nonneg u) fun s => ?_
    rw [delta_eq_zero hcreates (.inl hposts) (.inr (hfailed (by simp)))]
    simp [semValue, setErrno]
  · exact .of_semaphores hsound hsame fun s =>
      delta_eq_zero hcreates (.inl hposts) (.inr (hfailed (by simp)))

lemma balance_call {c : Call} (hsound : env.semaphores.Sound) (hscan : env.scan = none)
    (hvalue : ∀ v ∈ env.creates c, (v : ℤ) < i32Bound) (h : env.call c = .ok (r, env')) :
    Balance env env' (env.rebinds c) (delta c r env env') := by
  cases c with
  | semInit sem pshared value => exact balance_semInit hsound hscan hvalue h
  | semDestroy sem => exact balance_semDestroy hsound h
  | semOpen name oflag value sem => exact balance_semOpen hsound hscan hvalue h
  | semPost sem => exact balance_semPost hsound h
  | semWait sem =>
    obtain ⟨result, e, hdecrement, ⟨hresult, rfl, rfl⟩ | ⟨rfl, rfl, rfl⟩⟩ := semWait_cases h
    · refine balance_semDecrement hsound rfl rfl rfl hdecrement (by rintro rfl; rfl) ?_ rfl
      match result with
      | none => simp
      | some true => simp
      | some false => simp at hresult
    · exact balance_semDecrement hsound rfl rfl rfl hdecrement (by simp) (by simp) rfl
  | semTrywait sem =>
    obtain ⟨result, e, hdecrement, ⟨hresult, rfl, rfl⟩ | ⟨rfl, rfl, err, rfl⟩⟩ := semTrywait_cases h
    · refine balance_semDecrement hsound rfl rfl rfl hdecrement (by rintro rfl; rfl) ?_ rfl
      match result with
      | none => simp
      | some true => simp
      | some false => simp at hresult
    · exact balance_semDecrement hsound rfl rfl rfl hdecrement (by simp) (by simp) rfl
  | semGetvalue sem sval =>
    have hpath : Path (fun c => c ≠ .semaphores) env env' := path_semGetvalue (by simp) h
    exact .of_semaphores hsound (hpath.semaphores (by simp)) fun s =>
      delta_eq_zero rfl (.inl rfl) (.inl rfl)
  | semClose sem => exact balance_semClose hsound h
  | semUnlink name =>
    obtain ⟨-, rfl⟩ := ok_pair_inj h
    refine ⟨hsound.setNamed (by simp), fun sem s hs => .inl hs, fun s => ?_⟩
    rw [delta_eq_zero rfl (.inl rfl) (.inl rfl), add_zero]
    rfl
  | _ =>
    exact .of_semaphores hsound (semaphores_of_call rfl h) fun s =>
      delta_eq_zero rfl (.inl rfl) (.inl rfl)

end Calls

def Bound (env : Env) : Prop :=
  ∀ t sem, (env.threads t).blockedBy = .semaphore sem → ∃ s,
    (env.threads t).hostCall = some (.semWait sem s) ∧
      env.semaphores.openSemaphores sem = some s

section Bound

lemma Bound.of_update (hb : env.Bound) {thread : Thread}
    (hthreads : env'.threads = update env.threads t thread)
    (hself : ∀ sem, thread.blockedBy = .semaphore sem → ∃ s,
      thread.hostCall = some (.semWait sem s) ∧ env'.semaphores.openSemaphores sem = some s)
    (hkept : ∀ u sem s, (env.threads u).blockedBy = .semaphore sem →
      env.semaphores.openSemaphores sem = some s → env'.semaphores.openSemaphores sem = some s) :
    env'.Bound := by
  intro u sem hu
  rw [hthreads] at hu ⊢
  by_cases hne : u = t
  · subst hne
    rw [update_self] at hu ⊢
    exact hself sem hu
  · rw [update_of_ne hne] at hu ⊢
    obtain ⟨s, hcall, hopen⟩ := hb u sem hu
    exact ⟨s, hcall, hkept u sem s hu hopen⟩

lemma Bound.call (hb : env.Bound) (hc : env.Coherent) {c : Call}
    (hnobody : ∀ sem ∈ env.rebinds c, env.NobodyWaitsAt sem)
    (hbalance : Balance env env' (env.rebinds c) (delta c r env env'))
    (h : env.call c = .ok (r, env')) : env'.Bound := by
  have hkept : ∀ u sem s, (env.threads u).blockedBy = .semaphore sem →
      env.semaphores.openSemaphores sem = some s →
        env'.semaphores.openSemaphores sem = some s := by
    intro u sem s hu hopen
    refine (hbalance.kept sem s hopen).resolve_right fun hrebinds => ?_
    exact hnobody sem hrebinds u (hc.lt_of_blockedBy (by rw [hu]; simp)) hu
  have hsame : env'.threads = env.threads → env'.Bound := by
    intro hthreads u sem hu
    rw [hthreads] at hu ⊢
    obtain ⟨s, hcall, hopen⟩ := hb u sem hu
    exact ⟨s, hcall, hkept u sem s hu hopen⟩
  have hpath : Path (fun _ => True) env env' → env'.Bound := fun h => hsame h.sameThreads.threads
  cases hsem : c.isSem with
  | false =>
    have hsemaphores := semaphores_of_call hsem h
    obtain ⟨e, hbefore, rfl | hblock | ⟨cond, -, hwait⟩⟩ := effect_call h
    · exact hsame hbefore.sameThreads.threads
    · have hthreads := hbefore.sameThreads
      have hold : e.semaphores = env.semaphores := hbefore.semaphores (by simp [Call.Allows, hsem])
      cases hblock with
      | @onSemaphore sem s hopen sems =>
        refine hb.of_update (congrArg (update · _ _) hthreads.threads) ?_ hkept
        rintro _ ⟨⟩
        exact ⟨s, rfl, by rw [hsemaphores, ← hold]; exact hopen⟩
      | _ => exact hb.of_update (congrArg (update · _ _) hthreads.threads) (by simp) hkept
    · cases hwait with
      | mk =>
        exact hb.of_update (congrArg (update · _ _) hbefore.sameThreads.threads) (by simp)
          hkept
  | true =>
    cases c with
    | semInit sem pshared value => exact hpath (path_semInit trivial trivial h)
    | semDestroy sem => exact hpath (path_semDestroy trivial h)
    | semOpen name oflag value sem => exact hpath (path_semOpen trivial trivial h)
    | semPost sem => exact hpath (path_semPost trivial trivial h)
    | semGetvalue sem sval => exact hpath (path_semGetvalue trivial h)
    | semClose sem => exact hpath (path_semClose trivial trivial h)
    | semUnlink name => exact hpath (path_semUnlink trivial trivial h)
    | semTrywait sem =>
      obtain ⟨result, e, hdecrement, hcases⟩ := semTrywait_cases h
      have hthreads : env'.threads = e.threads := by
        obtain ⟨-, -, rfl⟩ | ⟨-, -, err, rfl⟩ := hcases <;> rfl
      refine hsame (hthreads.trans ?_)
      obtain ⟨-, -, rfl⟩ | ⟨u, -, ⟨-, -, rfl⟩ | ⟨-, ⟨hwait, -⟩ | ⟨-, -, rfl⟩⟩⟩ :=
        semDecrement_cases hdecrement
      · rfl
      · rfl
      · cases hwait
      · rfl
    | semWait sem =>
      obtain ⟨result, e, hdecrement, hcases⟩ := semWait_cases h
      have hlast : env'.threads = e.threads ∧ env'.semaphores = e.semaphores := by
        obtain ⟨-, -, rfl⟩ | ⟨-, -, rfl⟩ := hcases <;> exact ⟨rfl, rfl⟩
      obtain ⟨-, -, rfl⟩ | ⟨u, hopen, ⟨-, -, rfl⟩ | ⟨-, ⟨-, -, rfl⟩ | ⟨-, -, rfl⟩⟩⟩ :=
        semDecrement_cases hdecrement
      · exact hsame hlast.1
      · exact hsame hlast.1
      · refine hb.of_update hlast.1 ?_ hkept
        rintro _ ⟨⟩
        exact ⟨u, rfl, by rw [hlast.2]; exact hopen⟩
      · exact hsame hlast.1
    | _ => cases hsem

lemma Bound.of_sameBlocks (hb : env.Bound) (h : SameBlocks env env') : env'.Bound := by
  intro t sem ht
  rw [(h.blocks t).1] at ht
  rw [(h.blocks t).2, h.semaphores]
  exact hb t sem ht

lemma Bound.passes (hb : env.Bound) {scan : Option ℕ} (h : env.Tried t now false e) :
    ({ e with scan } : Env).Bound := by
  cases h with
  | skipped => exact hb
  | timedOutLocked => exact hb.of_update rfl (by simp) fun _ _ _ _ h => h

lemma Bound.picks (hb : env.Bound) (h : env.Picked t now r env') : env'.Bound := by
  refine hb.of_update h.threads (by simp) fun _ _ _ _ hopen => ?_
  cases h <;> exact hopen

lemma Bound.balance_picks (hb : env.Bound) (hsound : env.semaphores.Sound)
    (h : env.Picked t now r env') :
    Balance env env' none fun s => -taken s env (.visit now) r env' := by
  have hother : env'.semaphores = env.semaphores →
      ((env.threads t).hostCall.bind HostCall.hostSem = none) →
      Balance env env' none fun s => -taken s env (.visit now) r env' := by
    intro hsame hcall
    refine .of_semaphores hsound hsame fun s => ?_
    rw [taken, if_neg, neg_zero]
    rintro ⟨-, hs⟩
    rw [h.current, hcall] at hs
    cases hs
  cases h with
  | running hb' hcall | slept hcall | lock hb' hcall | relocked hb' hcall | relockedLate hb' hcall
  | timedOut hb' hcall => exact hother rfl (by simp [hcall, HostCall.hostSem])
  | @woken cond mutexId released deadline object mutex hb' hcall =>
    refine hother rfl ?_
    rw [hcall]
    cases deadline <;> rfl
  | noSemaphore hb' hcall hclosed =>
    obtain ⟨s, -, hopen⟩ := hb t _ hb'
    cases hclosed.symm.trans hopen
  | @semaphore sem waited u hb' hcall hopen hvalue =>
    obtain ⟨s, hcall', hopen'⟩ := hb t sem hb'
    obtain rfl := Option.some.inj (hopen.symm.trans hopen')
    refine .of_set hsound hopen rfl (Int.sub_nonneg_of_le hvalue) fun s => ?_
    have htaken : taken s env (.visit now) (some 0)
        ((env.setHostSem u
          { env.semaphores.hostSems u with
            value := (env.semaphores.hostSems u).value - 1
            waiting := (env.semaphores.hostSems u).waiting.erase t }).freed t) =
        if s = u then 1 else 0 := by
      simp [taken, Env.freed, hcall', HostCall.hostSem, eq_comm]
    rw [htaken]
    dsimp only [semValue]
    split_ifs <;> omega

end Bound

section Runs

lemma Tried.semaphores (h : env.Tried t now false e) : e.semaphores = env.semaphores := by
  cases h <;> rfl

lemma Bound.serve (hb : env.Bound) (hc : env.Coherent) (hsound : env.semaphores.Sound) {a : Action}
    (hkeeps : env.KeepsUnits a) (h : env.serve a = .ok (r, env')) :
    env'.Bound ∧ env'.semaphores.Sound ∧
      ∀ s, env'.semValue s = env.semValue s +
        (initial s env a r env' + posted s env a r env' - taken s env a r env') := by
  have hsame : env'.Bound → env'.semaphores = env.semaphores →
      (∀ s, initial s env a r env' = 0 ∧ posted s env a r env' = 0 ∧ taken s env a r env' = 0) →
      env'.Bound ∧ env'.semaphores.Sound ∧
        ∀ s, env'.semValue s = env.semValue s +
          (initial s env a r env' + posted s env a r env' - taken s env a r env') := by
    intro hbound hsemaphores hzero
    refine ⟨hbound, hsemaphores ▸ hsound, fun s => ?_⟩
    obtain ⟨hinitial, hposted, htaken⟩ := hzero s
    rw [hinitial, hposted, htaken, semValue, hsemaphores]
    simp [semValue]
  cases a with
  | call c =>
    unfold Env.serve at h
    dsimp only at h
    split_ifs at h with hscan
    · have hbalance := balance_call hsound hscan (hkeeps hscan).1 h
      exact ⟨hb.call hc (hkeeps hscan).2 hbalance h, hbalance.sound, hbalance.value⟩
    · obtain ⟨rfl, rfl⟩ := ok_pair_inj h
      exact hsame hb rfl fun s => ⟨by simp [initial, hscan], by simp [posted], by simp [taken]⟩
  | visit now =>
    cases (hc.serve h).1 with
    | aside hquiet hsameBlocks =>
      have hnone := hquiet.resolve_right fun hq => hq.2 now rfl
      exact hsame (hb.of_sameBlocks hsameBlocks) hsameBlocks.semaphores
        fun s => ⟨rfl, rfl, by simp [taken, hnone]⟩
    | pass hscan htried =>
      exact hsame (hb.passes htried) htried.semaphores fun s => ⟨rfl, rfl, by simp [taken]⟩
    | pick hscan ht hrun hpicked =>
      have hbalance := hb.balance_picks hsound hpicked
      refine ⟨hb.picks hpicked, hbalance.sound, fun s => ?_⟩
      rw [hbalance.value]
      simp [initial, posted]
  | newThread =>
    cases (hc.serve h).1 with
    | aside _ hsameBlocks =>
      exact hsame (hb.of_sameBlocks hsameBlocks) hsameBlocks.semaphores fun s => ⟨rfl, rfl, rfl⟩
    | newThread =>
      exact hsame (hb.of_update rfl (by simp [Thread.started]) fun _ _ _ _ h => h) rfl
        fun s => ⟨rfl, rfl, rfl⟩
  | store | exitThread | preempt | threadSuspend | threadResume =>
    cases (hc.serve h).1 with
    | aside _ hsameBlocks =>
      exact hsame (hb.of_sameBlocks hsameBlocks) hsameBlocks.semaphores fun s => ⟨rfl, rfl, rfl⟩

lemma sound_boot (words : ℕ → UInt32) (nullSegmentSize : ℕ) :
    (boot words nullSegmentSize).semaphores.Sound :=
  ⟨by simp [boot], by simp [boot], by simp [boot], by simp [boot]⟩

lemma bound_boot (words : ℕ → UInt32) (nullSegmentSize : ℕ) :
    (boot words nullSegmentSize).Bound := by
  intro t sem hb
  by_cases ht : t = 0
  · subst ht
    cases hb
  · simp only [boot, update_of_ne ht] at hb
    cases hb

def units (s : ℕ) (env : Env) (a : Action) (r : Option ℤ) (env' : Env) : ℤ × ℤ × ℤ :=
  (initial s env a r env', posted s env a r env', taken s env a r env')

lemma tally_units {actions : List Action} :
    tally serve (units s) env actions = (tally serve (initial s) env actions,
      tally serve (posted s) env actions, tally serve (taken s) env actions) := by
  rw [← tally_prodMk, ← tally_prodMk]
  rfl

/-- If semaphores start below 2^31, and no address loses its semaphore while threads wait there,
then no value is ever negative, every unit is accounted for, and a wait on an address without a
semaphore fails. -/
theorem exec_semaphores {words : ℕ → UInt32} {nullSegmentSize : ℕ} {actions : List Action}
    (hkeeps : Along step KeepsUnits (boot words nullSegmentSize) actions)
    (h : (boot words nullSegmentSize).exec actions = .ok env) :
    (∀ s, 0 ≤ env.semValue s ∧
      tally serve (initial s) (boot words nullSegmentSize) actions +
          tally serve (posted s) (boot words nullSegmentSize) actions =
        env.semValue s + tally serve (taken s) (boot words nullSegmentSize) actions) ∧
    (∀ t sem, (env.threads t).blockedBy = .semaphore sem → ∃ s,
      (env.threads t).hostCall = some (.semWait sem s) ∧
        env.semaphores.openSemaphores sem = some s) ∧
    ∀ sem, env.semaphores.openSemaphores sem = none →
      ∃ env', env.semWait sem = .ok (some (-1), env') ∧ env'.errno env.current = EINVAL := by
  have haccounts := fun s => run_tally (f := units s) (p := KeepsUnits) (n := 0)
    (J := fun env n => env.Coherent ∧ env.Bound ∧ env.semaphores.Sound ∧
      n.1 + n.2.1 = env.semValue s + n.2.2)
    (fun s₁ a r t n hJ hp hserve => by
      obtain ⟨hc, hb, hsound, hn⟩ := hJ
      obtain ⟨hb', hsound', hvalue⟩ := hb.serve hc hsound hp hserve
      refine ⟨(hc.serve hserve).2, hb', hsound', ?_⟩
      rw [hvalue s]
      simp only [units, Prod.fst_add, Prod.snd_add]
      linarith)
    ⟨coherent_boot words nullSegmentSize, bound_boot words nullSegmentSize,
      sound_boot words nullSegmentSize, rfl⟩ hkeeps h
  refine ⟨fun s => ?_, (haccounts 0).2.1, fun sem hclosed => ?_⟩
  · obtain ⟨-, -, hsound, hbalance⟩ := haccounts s
    rw [zero_add, tally_units] at hbalance
    exact ⟨hsound.nonneg s, hbalance⟩
  · have hclosed : (env.setErrno 0).semaphores.openSemaphores sem = none := hclosed
    refine ⟨(env.setErrno 0).setErrno EINVAL, ?_, update_self _ _ _⟩
    simp only [semWait, semDecrement, hclosed]
    rfl

end Runs

section Examples

def waitForUnit : List Action :=
  [.call (.semInit 400 0 ⟨0, by decide⟩), .newThread, .call (.semWait 400), .visit epoch]

theorem exec_semaphores_posted : ∃ env,
    (boot staticWords 0).exec
      (waitForUnit ++ [.call (.semPost 400), .preempt, .visit epoch]) = .ok env ∧
    tally serve (initial 0) (boot staticWords 0)
          (waitForUnit ++ [.call (.semPost 400), .preempt, .visit epoch]) +
        tally serve (posted 0) (boot staticWords 0)
          (waitForUnit ++ [.call (.semPost 400), .preempt, .visit epoch]) =
      env.semValue 0 + tally serve (taken 0) (boot staticWords 0)
        (waitForUnit ++ [.call (.semPost 400), .preempt, .visit epoch]) := by
  have hrun : ((boot staticWords 0).exec
      (waitForUnit ++ [.call (.semPost 400), .preempt, .visit epoch]) >>= fun env =>
        .ok env.current) = .ok 0 := by decide
  obtain ⟨env, hexec, -⟩ := bind_eq_ok.mp hrun
  exact ⟨env, hexec, ((exec_semaphores (by decide) hexec).1 0).2⟩

theorem exec_semaphores_destroyed : ∃ env,
    (boot staticWords 0).exec
      (waitForUnit ++ [.call (.semDestroy 400), .preempt, .visit epoch]) = .ok env ∧
    tally serve (initial 0) (boot staticWords 0)
          (waitForUnit ++ [.call (.semDestroy 400), .preempt, .visit epoch]) +
        tally serve (posted 0) (boot staticWords 0)
          (waitForUnit ++ [.call (.semDestroy 400), .preempt, .visit epoch]) ≠
      env.semValue 0 + tally serve (taken 0) (boot staticWords 0)
        (waitForUnit ++ [.call (.semDestroy 400), .preempt, .visit epoch]) := by
  have hrun : ((boot staticWords 0).exec
      (waitForUnit ++ [.call (.semDestroy 400), .preempt, .visit epoch]) >>= fun env =>
        .ok (env.semValue 0)) = .ok 0 := by decide
  obtain ⟨env, hexec, hvalue⟩ := bind_eq_ok.mp hrun
  refine ⟨env, hexec, ?_⟩
  rw [Except.ok.inj hvalue]
  decide

end Examples

end Env

end TouchHle.Threads
