import TouchHle.Lib.Runs
import TouchHle.Joins.Threads

namespace TouchHle.Joins.Env

open Lib Relation Function Except
open Threads (EDEADLK EINVAL)

def Outcome (env : Env) (e : Event) (env' : Env) : Prop :=
  match e.action with
  | .pthreadJoin thread retval =>
    (∃ self env₀ joinee, env.pthreadSelf e.thread e.alloc = .ok (self, env₀) ∧
      env₀.get thread = some joinee ∧
      (env'.threads e.thread).blockedBy = .joining joinee.threadId retval ∧
      (env'.threads e.thread).returned = none) ∨
    ∃ self env₀ code, env.pthreadSelf e.thread e.alloc = .ok (self, env₀) ∧
      code ∈ [ESRCH, EDEADLK, EINVAL] ∧ env' = env₀.returns e.thread code
  | .joined joinee ptr => (env.threads joinee).active = false ∧ ∃ value,
      env.exits joinee = some value ∧ (env'.threads e.thread).returned = some 0 ∧
      env'.words = if ptr = 0 ∨ ptr < env.nullSegmentSize then env.words
        else update env.words ptr value
  | _ => True

/-- The step does not fail, the threads that asked to end have ended with the values they asked to
end with, no threads wait for each other in a circle, and a join is refused, waits for the thread it
names or delivers the value that thread ended with. -/
def Delivers (env : Env) (e : Event) : Prop :=
  ∃ env', env.step e = .ok env' ∧ env'.Exited ∧ Acyclic env'.Waits ∧ env.Outcome e env'

def MayEnd (env : Env) (t : ThreadId) : Prop := t ≠ 0 ∧ (env.threads t).frames = 0

def Handled (env : Env) (e : Event) : Prop :=
  match e.action with
  | .pthreadJoin thread _ => ∀ self env₀ joinee,
    env.pthreadSelf e.thread e.alloc = .ok (self, env₀) → env₀.get thread = some joinee →
      joinee.threadId ≠ 0 ∧ (ReflTransGen env.Waits joinee.threadId e.thread →
        joinee.threadId = e.thread ∨
        (∃ current, env₀.get self = some current ∧ current.joinedBy = some joinee.threadId) ∨
        joinee.detachstate = PTHREAD_CREATE_DETACHED)
  | .pthreadExit _ => env.MayEnd e.thread
  | .pthreadTestcancel => ∀ self env₀ current,
    env.pthreadSelf e.thread e.alloc = .ok (self, env₀) → env₀.get self = some current →
      current.cancelDisabled = false → current.cancelRequested = true → env.MayEnd e.thread
  | .returnFrom _ => (env.threads e.thread).frames = 0 → e.thread ≠ 0
  | _ => True

variable {env env' : Env} {e : Event} {t : ThreadId} {value : UInt32} {alloc : Ptr}

lemma Inv.exits_eq_none (h : env.Inv) (hactive : (env.threads t).active = true) :
    env.exits t = none := by
  cases hexit : env.exits t with
  | none => rfl
  | some value =>
    rw [(h.exited t value hexit).1] at hactive
    cases hactive

lemma pthreadExit_ok (value : UInt32) (h : env.Inv) (ht : t < env.threadCount) (hactive : (env.threads t).active = true)
    (hend : env.MayEnd t) : ∃ env', env.pthreadExit t value = .ok env' ∧ env'.Inv := by
  have hnone := h.exits_eq_none hactive
  refine ⟨{ env with
    exits := update env.exits t (some value)
    threads := update env.threads t { env.threads t with
      returnValue := some value
      active := false } }, ?_, ?_, ?_, ?_, ?_, h.objects, ?_, h.pos⟩
  · simp [pthreadExit, returnToHost, exiting, hend.1, hend.2, hnone, setThread]
  · intro t' value' ht'
    change update env.exits t (some value) t' = some value' at ht'
    change (update env.threads t _ t').active = false ∧
      (update env.threads t _ t').returnValue = some value'
    by_cases heq : t' = t
    · subst heq
      rw [update_self] at ht' ⊢
      exact ⟨rfl, ht'⟩
    · rw [update_of_ne heq] at ht' ⊢
      exact h.exited t' value' ht'
  · intro t' ht' hinactive
    change update env.exits t (some value) t' ≠ none
    change (update env.threads t _ t').active = false at hinactive
    by_cases heq : t' = t
    · subst heq
      simp
    · rw [update_of_ne heq] at hinactive ⊢
      exact h.ended t' ht' hinactive
  · refine h.acyclic.mono fun x y hwaits => ?_
    obtain ⟨hx, ptr, hblock⟩ := hwaits
    change (update env.threads t _ x).active = true at hx
    change (update env.threads t _ x).blockedBy = _ at hblock
    by_cases heq : x = t
    · subst heq
      rw [update_self] at hx
      cases hx
    · rw [update_of_ne heq] at hx hblock
      exact ⟨hx, ptr, hblock⟩
  · intro x joinee ptr hblock
    change (update env.threads t _ x).blockedBy = _ at hblock
    by_cases heq : x = t
    · subst heq
      rw [update_self] at hblock
      exact h.joinees x joinee ptr hblock
    · rw [update_of_ne heq] at hblock
      exact h.joinees x joinee ptr hblock
  · intro t' ht'
    change update env.exits t (some value) t' = none
    rw [update_of_ne]
    · exact h.fresh t' ht'
    · rintro rfl
      exact absurd ht (not_lt.mpr ht')

lemma not_exited_of_pthreadExit (hactive : (env.threads t).active = true) (hend : ¬ env.MayEnd t)
    (hstep : env.pthreadExit t value = .ok env') : ¬ env'.Exited := by
  rw [pthreadExit, returnToHost] at hstep
  change (if (env.threads t).frames = 0 then _ else _) = _ at hstep
  split_ifs at hstep with hframes
  · have hmain : ¬ t ≠ 0 := fun hne => hend ⟨hne, hframes⟩
    simp [assert, hmain] at hstep
  · obtain rfl := ok.inj hstep
    intro hexited
    have := hexited t ((env.exits t).getD value) (by simp [exiting, setThread])
    simp [setThread, exiting, hactive] at this

section

variable {joinee : ThreadId} {retval thread : Ptr} {object : ThreadHostObject}

def accepted (env : Env) (t : ThreadId) (thread : Ptr) (joinee : ThreadHostObject) (retval : Ptr) :
    Env :=
  (env.setObject thread { joinee with joinedBy := some t }).setThread t
    { env.threads t with blockedBy := .joining joinee.threadId retval, returned := none }

lemma accepted_waits (hfree : (env.threads t).blockedBy = .notBlocked) {x y : ThreadId} :
    (env.accepted t thread object retval).Waits x y ↔
      env.Waits x y ∨ (x = t ∧ y = object.threadId ∧ (env.threads t).active = true) := by
  change ((update env.threads t _ x).active = true ∧ ∃ ptr,
    (update env.threads t _ x).blockedBy = .joining y ptr) ↔ _
  by_cases heq : x = t
  · subst heq
    rw [update_self]
    constructor
    · rintro ⟨hactive, ptr, hblock⟩
      obtain ⟨rfl, -⟩ := ThreadBlock.joining.inj hblock
      exact .inr ⟨rfl, rfl, hactive⟩
    · rintro (⟨-, ptr, hblock⟩ | ⟨-, rfl, hactive⟩)
      · rw [hfree] at hblock
        cases hblock
      · exact ⟨hactive, retval, rfl⟩
  · rw [update_of_ne heq]
    exact ⟨.inl, fun h => h.resolve_right fun h => heq h.1⟩

lemma accepted_acyclic_iff (h : Acyclic env.Waits) (hactive : (env.threads t).active = true)
    (hfree : (env.threads t).blockedBy = .notBlocked) :
    Acyclic (env.accepted t thread object retval).Waits ↔
      ¬ ReflTransGen env.Waits object.threadId t := by
  apply acyclic_insert_iff h
  · exact fun x y hxy => (accepted_waits hfree).mpr (.inl hxy)
  · exact (accepted_waits hfree).mpr (.inr ⟨rfl, rfl, hactive⟩)
  · exact fun x y hxy => ((accepted_waits hfree).mp hxy).imp_right fun h => ⟨h.1, h.2.1⟩

lemma Inv.accepted (h : env.Inv) (hactive : (env.threads t).active = true)
    (hfree : (env.threads t).blockedBy = .notBlocked) (hget : env.get thread = some object)
    (hback : ¬ ReflTransGen env.Waits object.threadId t) :
    (env.accepted t thread object retval).Inv := by
  have hkeep : ∀ x, ((env.accepted t thread object retval).threads x).active =
      (env.threads x).active ∧ ((env.accepted t thread object retval).threads x).returnValue =
      (env.threads x).returnValue := by
    intro x
    change (update env.threads t _ x).active = _ ∧
      (update env.threads t _ x).returnValue = _
    by_cases heq : x = t
    · subst heq
      rw [update_self]
      exact ⟨rfl, rfl⟩
    · rw [update_of_ne heq]
      exact ⟨rfl, rfl⟩
  constructor
  · intro x value hx
    rw [(hkeep x).1, (hkeep x).2]
    exact h.exited x value hx
  · intro x hx hinactive
    rw [(hkeep x).1] at hinactive
    exact h.ended x hx hinactive
  · exact (accepted_acyclic_iff h.acyclic hactive hfree).mpr hback
  · intro x joinee ptr hblock
    change (update env.threads t _ x).blockedBy = _ at hblock
    by_cases heq : x = t
    · subst heq
      rw [update_self] at hblock
      obtain ⟨rfl, -⟩ := ThreadBlock.joining.inj hblock
      exact h.objects _ (mem_of_get hget)
    · rw [update_of_ne heq] at hblock
      exact h.joinees x joinee ptr hblock
  · have hid : ({ object with joinedBy := some t } : ThreadHostObject).threadId = object.threadId :=
      rfl
    exact ((quiet_setObject hget hid).inv h).objects
  · exact h.fresh
  · exact h.pos

end

lemma pthreadJoin_cases (thread retval : Ptr) {self : Ptr} {env₀ : Env} {current : ThreadHostObject}
    (hself : env.pthreadSelf t alloc = .ok (self, env₀)) (hcurrent : env₀.get self = some current)
    (hfree : (env₀.threads t).blockedBy = .notBlocked ∧ (env₀.threads t).suspendCount = 0) :
    (env₀.get thread = none ∧ env.pthreadJoin t thread retval alloc = .ok (env₀.returns t ESRCH)) ∨
    ∃ joinee, env₀.get thread = some joinee ∧
      ((joinee.threadId = 0 ∧ env.pthreadJoin t thread retval alloc = .error .assertion) ∨
      (joinee.threadId ≠ 0 ∧ ((joinee.threadId = t ∨ current.joinedBy = some joinee.threadId) ∧
          env.pthreadJoin t thread retval alloc = .ok (env₀.returns t EDEADLK) ∨
        joinee.detachstate = PTHREAD_CREATE_DETACHED ∧
          env.pthreadJoin t thread retval alloc = .ok (env₀.returns t EINVAL) ∨
        ¬ (joinee.threadId = t ∨ current.joinedBy = some joinee.threadId) ∧
          joinee.detachstate ≠ PTHREAD_CREATE_DETACHED ∧
          env.pthreadJoin t thread retval alloc = .ok (env₀.accepted t thread joinee retval)))) := by
  unfold pthreadJoin
  rw [hself]
  simp only [ok_bind]
  cases hget : env₀.get thread with
  | none => exact .inl ⟨rfl, rfl⟩
  | some joinee =>
    refine .inr ⟨joinee, rfl, ?_⟩
    by_cases hmain : joinee.threadId = 0
    · exact .inl ⟨hmain, by simp [assert, hmain]⟩
    refine .inr ⟨hmain, ?_⟩
    simp only [assert_of (show joinee.threadId ≠ 0 from hmain), ok_bind, hcurrent]
    by_cases hsame : joinee.threadId = t
    · exact .inl ⟨.inl hsame, by rw [if_pos hsame]; rfl⟩
    rw [if_neg hsame]
    by_cases hback : current.joinedBy = some joinee.threadId
    · exact .inl ⟨.inr hback, by rw [if_pos hback]; rfl⟩
    rw [if_neg hback]
    by_cases hdetached : joinee.detachstate = PTHREAD_CREATE_DETACHED
    · exact .inr (.inl ⟨hdetached, by rw [if_pos hdetached]; rfl⟩)
    rw [if_neg hdetached]
    refine .inr (.inr ⟨not_or.mpr ⟨hsame, hback⟩, hdetached, ?_⟩)
    unfold yieldThread
    rw [assert_of]
    · rfl
    · exact hfree

lemma waits_congr (hthreads : env'.threads = env.threads) : env'.Waits = env.Waits := by
  funext x y
  rw [Waits, Waits, hthreads]

lemma Inv.newThread (h : env.Inv) : env.newThread.Inv := by
  have hold : ∀ x ≠ env.threadCount, env.newThread.threads x = env.threads x :=
    fun x hx => update_of_ne hx _ _
  have hnew : env.newThread.threads env.threadCount = .started := update_self ..
  constructor
  · intro x value hx
    change env.exits x = some value at hx
    have hne : x ≠ env.threadCount := by
      rintro rfl
      rw [h.fresh env.threadCount le_rfl] at hx
      cases hx
    rw [hold x hne]
    exact h.exited x value hx
  · intro x hx hinactive
    obtain hlt | rfl := Nat.lt_succ_iff_lt_or_eq.mp hx
    · rw [hold x hlt.ne] at hinactive
      exact h.ended x hlt hinactive
    · rw [hnew] at hinactive
      cases hinactive
  · refine h.acyclic.mono fun x y hwaits => ?_
    obtain ⟨hactive, ptr, hblock⟩ := hwaits
    by_cases heq : x = env.threadCount
    · rw [heq, hnew] at hblock
      cases hblock
    · rw [hold x heq] at hactive hblock
      exact ⟨hactive, ptr, hblock⟩
  · intro x joinee ptr hblock
    by_cases heq : x = env.threadCount
    · rw [heq, hnew] at hblock
      cases hblock
    · rw [hold x heq] at hblock
      exact (h.joinees x joinee ptr hblock).trans (Nat.lt_succ_self _)
  · exact fun entry hentry => (h.objects entry hentry).trans (Nat.lt_succ_self _)
  · exact fun x hx => h.fresh x ((Nat.le_succ _).trans hx)
  · exact Nat.succ_pos _

lemma pthreadCreate_ok (t : ThreadId) (thread : Ptr) (detachstate : ℤ) (h : env.Inv)
    (halloc : env.get alloc = none) :
    ∃ env', env.pthreadCreate t thread detachstate alloc = .ok env' ∧ env'.Inv := by
  have hquiet := quiet_write env.newThread thread (.ofNat alloc)
  have hget : (env.newThread.write thread (.ofNat alloc)).get alloc = none := by
    unfold write
    split_ifs
    · exact halloc
    · exact halloc
  have hlt : (ThreadHostObject.new env.threadCount detachstate).threadId <
      (env.newThread.write thread (.ofNat alloc)).threadCount := by
    rw [hquiet.threadCount]
    exact Nat.lt_succ_self _
  unfold pthreadCreate
  dsimp only
  rw [insert_ok hget]
  exact ⟨_, rfl, (quiet_returns _ t 0).inv ((quiet_insert alloc _ hlt).inv (hquiet.inv h.newThread))⟩

lemma quiet_block {block : ThreadBlock} {returned : Option ℤ}
    (hblock : ∀ joinee ptr, block ≠ .joining joinee ptr) :
    env.Quiet (env.setThread t { env.threads t with blockedBy := block, returned := returned }) :=
  quiet_setThread rfl rfl fun joinee ptr h => absurd h (hblock joinee ptr)

lemma joined_ok {joinee : ThreadId} {ptr : Ptr} (h : env.Inv)
    (hblock : (env.threads t).blockedBy = .joining joinee ptr)
    (hended : (env.threads joinee).active = false) :
    (env.joined t joinee ptr).Inv ∧ ∃ value, env.exits joinee = some value ∧
      ((env.joined t joinee ptr).threads t).returned = some 0 ∧
      (env.joined t joinee ptr).words = if ptr = 0 ∨ ptr < env.nullSegmentSize then env.words
        else update env.words ptr value := by
  obtain ⟨value, hvalue⟩ := Option.ne_none_iff_exists'.mp
    (h.ended joinee (h.joinees t joinee ptr hblock) hended)
  have hreturn := (h.exited joinee value hvalue).2
  unfold joined
  dsimp only
  rw [hreturn, Option.getD_some]
  have hstored : env.Quiet (if ptr = 0 then env else env.write ptr value) := by
    split_ifs
    · exact .refl env
    · exact quiet_write env ptr value
  refine ⟨(quiet_block (by simp)).inv (hstored.inv h), value, hvalue, ?_, ?_⟩
  · simp [setThread]
  · change (if ptr = 0 then env else env.write ptr value).words = _
    by_cases hnull : ptr = 0
    · simp [hnull]
    · by_cases hsegment : ptr < env.nullSegmentSize
      · simp [write, hnull, hsegment]
      · simp [write, hnull, hsegment]

lemma handled_ok (h : env.Inv) (hpossible : env.Possible e) (hhandled : env.Handled e) :
    ∃ env', env.step e = .ok env' ∧ env'.Inv ∧ env.Outcome e env' := by
  obtain ⟨t, action, alloc⟩ := e
  obtain ⟨ht, hactive, hsuspend, halloc, hblock⟩ := hpossible
  obtain ⟨self, env₀, current, hself, hquiet, hthreads, -, -, hcurrent⟩ := pthreadSelf_ok halloc ht
  have hinv := hquiet.inv h
  dsimp only at hblock ht hactive hsuspend hself
  cases action with
  | pthreadCreate thread detachstate =>
    obtain ⟨env', hstep, hinv'⟩ := pthreadCreate_ok t thread detachstate h halloc
    exact ⟨env', hstep, hinv', trivial⟩
  | pthreadExit retval =>
    obtain ⟨env', hstep, hinv'⟩ := pthreadExit_ok retval h ht hactive hhandled
    exact ⟨env', hstep, hinv', trivial⟩
  | pthreadJoin thread retval =>
    have hfree : (env₀.threads t).blockedBy = .notBlocked ∧ (env₀.threads t).suspendCount = 0 := by
      rw [hthreads]
      exact ⟨hblock, hsuspend⟩
    have hrefused : ∀ code ∈ [ESRCH, EDEADLK, EINVAL],
        env.pthreadJoin t thread retval alloc = .ok (env₀.returns t code) →
        ∃ env', env.step ⟨t, .pthreadJoin thread retval, alloc⟩ = .ok env' ∧ env'.Inv ∧
          env.Outcome ⟨t, .pthreadJoin thread retval, alloc⟩ env' := fun code hcode hstep =>
      ⟨_, hstep, (quiet_returns env₀ t code).inv hinv, .inr ⟨self, env₀, code, hself, hcode, rfl⟩⟩
    obtain ⟨-, hstep⟩ | ⟨joinee, hget, hcases⟩ := pthreadJoin_cases thread retval hself hcurrent hfree
    · exact hrefused ESRCH (by simp) hstep
    have hjoinee := hhandled self env₀ joinee hself hget
    obtain ⟨hmain, -⟩ | ⟨-, ⟨-, hstep⟩ | ⟨-, hstep⟩ | ⟨hnot, hdetached, hstep⟩⟩ := hcases
    · exact absurd hmain hjoinee.1
    · exact hrefused EDEADLK (by simp) hstep
    · exact hrefused EINVAL (by simp) hstep
    · have hback : ¬ ReflTransGen env₀.Waits joinee.threadId t := by
        rw [waits_congr hthreads]
        intro hback
        obtain hsame | ⟨current', hcurrent', hlast⟩ | hdetached' := hjoinee.2 hback
        · exact hnot (.inl hsame)
        · obtain rfl := Option.some_inj.mp (hcurrent'.symm.trans hcurrent)
          exact hnot (.inr hlast)
        · exact hdetached hdetached'
      refine ⟨_, hstep, hinv.accepted (by rwa [hthreads]) hfree.1 hget hback,
        .inl ⟨self, env₀, joinee, hself, hget, ?_, ?_⟩⟩
      · simp [accepted, setThread]
      · simp [accepted, setThread]
  | pthreadDetach thread =>
    refine ⟨_, rfl, ?_, trivial⟩
    unfold pthreadDetach
    cases hget : env.get thread with
    | none => exact (quiet_returns env t _).inv h
    | some object =>
      dsimp only
      split_ifs
      · exact (quiet_returns env t _).inv h
      · apply (quiet_returns _ t _).inv
        apply Quiet.inv _ h
        exact quiet_setObject hget rfl
  | pthreadCancel thread =>
    refine ⟨_, rfl, ?_, trivial⟩
    unfold pthreadCancel
    cases hget : env.get thread with
    | none => exact (quiet_returns env t _).inv h
    | some object =>
      apply (quiet_returns _ t _).inv
      apply Quiet.inv _ h
      exact quiet_setObject hget rfl
  | pthreadTestcancel =>
    change ∃ env', env.pthreadTestcancel t alloc = .ok env' ∧ _
    unfold pthreadTestcancel
    simp only [hself, ok_bind, hcurrent, unwrap]
    split_ifs with hcancel
    · exact ⟨env₀, rfl, hinv, trivial⟩
    · push Not at hcancel
      obtain ⟨hne, hframes⟩ := hhandled self env₀ current hself hcurrent (by simpa using hcancel.1)
        (by simpa using hcancel.2)
      obtain ⟨env', hstep, hinv'⟩ := pthreadExit_ok PTHREAD_CANCELED hinv
        (by rwa [hquiet.threadCount]) (by rwa [hthreads]) ⟨hne, by rwa [hthreads]⟩
      exact ⟨env', hstep, hinv', trivial⟩
  | pthreadSetcancelstate disabled =>
    change ∃ env', env.pthreadSetcancelstate t disabled alloc = .ok env' ∧ _
    unfold pthreadSetcancelstate
    simp only [hself, ok_bind, hcurrent, unwrap]
    refine ⟨_, rfl, (quiet_returns _ t 0).inv (Quiet.inv ?_ hinv), trivial⟩
    exact quiet_setObject hcurrent rfl
  | callback =>
    refine ⟨_, rfl, Quiet.inv ?_ h, trivial⟩
    exact quiet_setThread rfl rfl fun _ _ => id
  | returnFrom value =>
    change ∃ env', env.returnFrom t value = .ok env' ∧ _
    unfold returnFrom
    split_ifs with hframes
    · obtain ⟨env', hstep, hinv'⟩ := pthreadExit_ok value h ht hactive
        ⟨hhandled hframes, hframes⟩
      exact ⟨env', hstep, hinv', trivial⟩
    · rw [returnToHost, if_neg hframes]
      refine ⟨_, rfl, Quiet.inv ?_ h, trivial⟩
      exact quiet_setThread rfl rfl fun _ _ => id
  | write ptr value => exact ⟨_, rfl, (quiet_write env ptr value).inv h, trivial⟩
  | suspend other =>
    refine ⟨_, rfl, Quiet.inv ?_ h, trivial⟩
    exact quiet_setThread rfl rfl fun _ _ => id
  | resume other =>
    refine ⟨_, rfl, Quiet.inv ?_ h, trivial⟩
    exact quiet_setThread rfl rfl fun _ _ => id
  | block =>
    have hstep : env.step ⟨t, .block, alloc⟩ = .ok (env.setThread t { env.threads t with
        blockedBy := .elsewhere
        returned := none }) := by
      simp [step, yieldThread, hblock, hsuspend]
    exact ⟨_, hstep, (quiet_block (by simp)).inv h, trivial⟩
  | unblock =>
    refine ⟨_, rfl, Quiet.inv ?_ h, trivial⟩
    exact quiet_block (by simp)
  | joined joinee ptr =>
    obtain ⟨hinv', value, hvalue, hreturned, hwords⟩ := joined_ok h hblock.1 hblock.2
    exact ⟨_, rfl, hinv', hblock.2, value, hvalue, hreturned, hwords⟩

lemma handled_of_delivers (hpossible : env.Possible e) (hdelivers : env.Delivers e) :
    env.Handled e := by
  obtain ⟨t, action, alloc⟩ := e
  obtain ⟨ht, hactive, hsuspend, halloc, hblock⟩ := hpossible
  obtain ⟨env', hstep, hexited, hacyclic, -⟩ := hdelivers
  obtain ⟨self, env₀, current, hself, hquiet, hthreads, -, -, hcurrent⟩ := pthreadSelf_ok halloc ht
  have hsame : ∀ {self' env₀'}, env.pthreadSelf t alloc = .ok (self', env₀') →
      self' = self ∧ env₀' = env₀ := fun hself' =>
    ok_pair_inj (hself'.symm.trans hself)
  dsimp only at hblock ht hactive hsuspend hself
  cases action with
  | pthreadExit retval =>
    by_contra hend
    exact not_exited_of_pthreadExit hactive hend hstep hexited
  | pthreadJoin thread retval =>
    rintro self' env₀' joinee hself' hget
    obtain ⟨rfl, rfl⟩ := hsame hself'
    have hfree : (env₀'.threads t).blockedBy = .notBlocked ∧
        (env₀'.threads t).suspendCount = 0 := by
      rw [hthreads]
      exact ⟨hblock, hsuspend⟩
    change env.pthreadJoin t thread retval alloc = .ok env' at hstep
    obtain ⟨hnone, -⟩ | ⟨joinee', hget', hcases⟩ := pthreadJoin_cases thread retval hself hcurrent hfree
    · rw [hget] at hnone
      cases hnone
    obtain rfl := Option.some_inj.mp (hget.symm.trans hget')
    obtain ⟨-, hfail⟩ | ⟨hmain, ⟨hlast | hlast, -⟩ | ⟨hdetached, -⟩ | ⟨-, -, haccept⟩⟩ := hcases
    · rw [hfail] at hstep
      cases hstep
    · exact ⟨hmain, fun _ => .inl hlast⟩
    · exact ⟨hmain, fun _ => .inr (.inl ⟨current, hcurrent, hlast⟩)⟩
    · exact ⟨hmain, fun _ => .inr (.inr hdetached)⟩
    · refine ⟨hmain, fun hback => ?_⟩
      obtain rfl := ok.inj (haccept.symm.trans hstep)
      have hbefore : Acyclic env₀'.Waits :=
        hacyclic.mono fun x y hxy => (accepted_waits hfree.1).mpr (.inl hxy)
      rw [← waits_congr hthreads] at hback
      exact absurd hback ((accepted_acyclic_iff hbefore (by rwa [hthreads]) hfree.1).mp hacyclic)
  | pthreadTestcancel =>
    rintro self' env₀' current' hself' hcurrent' henabled hrequested
    obtain ⟨rfl, rfl⟩ := hsame hself'
    change env.pthreadTestcancel t alloc = .ok env' at hstep
    unfold pthreadTestcancel at hstep
    simp only [hself, ok_bind, hcurrent', unwrap, henabled, hrequested] at hstep
    by_contra hend
    have hend' : ¬ env₀'.MayEnd t := by
      rwa [MayEnd, hthreads]
    exact not_exited_of_pthreadExit (by rwa [hthreads]) hend' hstep hexited
  | returnFrom value =>
    intro hframes hmain
    change env.returnFrom t value = .ok env' at hstep
    rw [returnFrom, if_pos hframes] at hstep
    exact not_exited_of_pthreadExit hactive (fun hend => hend.1 hmain) hstep hexited
  | _ => trivial

/-- In a run in which every step is possible, every step delivers exactly if no thread ends that is
the main thread or is called from the host, no thread joins the main thread, and a thread joins one
that waits for it only where that is the last thread that joined it, or is detached. -/
theorem joins_deliver_iff {words : Ptr → UInt32} {nullSegmentSize : ℕ} {events : List Event}
    (hpossible : Along step Possible (boot words nullSegmentSize) events) :
    Along step Delivers (boot words nullSegmentSize) events ↔
      Along step Handled (boot words nullSegmentSize) events := by
  apply along_iff_along _ _ (inv_boot words nullSegmentSize) hpossible
  · intro env e hinv hstep
    refine ⟨handled_of_delivers hstep, fun hhandled => ?_⟩
    obtain ⟨env', hok, hinv', houtcome⟩ := handled_ok hinv hstep hhandled
    exact ⟨env', hok, hinv'.exited, hinv'.acyclic, houtcome⟩
  · intro env e env' hinv hstep hhandled hok
    obtain ⟨env'', hok', hinv', -⟩ := handled_ok hinv hstep hhandled
    obtain rfl := Except.ok.inj (hok'.symm.trans hok)
    exact hinv'

def circle : List Event := [
  ⟨0, .pthreadCreate 0 PTHREAD_CREATE_JOINABLE, 100⟩,
  ⟨0, .pthreadCreate 0 PTHREAD_CREATE_JOINABLE, 200⟩,
  ⟨0, .pthreadCreate 0 PTHREAD_CREATE_JOINABLE, 300⟩,
  ⟨1, .pthreadJoin 200 0, 400⟩,
  ⟨2, .pthreadJoin 300 0, 400⟩,
  ⟨3, .pthreadJoin 100 0, 400⟩]

lemma circle_possible : Along step Possible (boot (fun _ => 0) 4096) circle := by
  refine ⟨⟨by decide, rfl, rfl, rfl, rfl⟩, fun _ h => ?_⟩
  obtain rfl := ok.inj h
  refine ⟨⟨by decide, rfl, rfl, rfl, rfl⟩, fun _ h => ?_⟩
  obtain rfl := ok.inj h
  refine ⟨⟨by decide, rfl, rfl, rfl, rfl⟩, fun _ h => ?_⟩
  obtain rfl := ok.inj h
  refine ⟨⟨by decide, rfl, rfl, rfl, rfl⟩, fun _ h => ?_⟩
  obtain rfl := ok.inj h
  refine ⟨⟨by decide, rfl, rfl, rfl, rfl⟩, fun _ h => ?_⟩
  obtain rfl := ok.inj h
  exact ⟨⟨by decide, rfl, rfl, rfl, rfl⟩, fun _ _ => trivial⟩

def joinMain : List Event := [
  ⟨0, .pthreadTestcancel, 100⟩,
  ⟨0, .pthreadCreate 0 PTHREAD_CREATE_JOINABLE, 200⟩,
  ⟨1, .pthreadJoin 100 0, 300⟩]

theorem circle_is_accepted :
    Along step Possible (boot (fun _ => 0) 4096) circle ∧
    (∃ env', run step (boot (fun _ => 0) 4096) circle = .ok env' ∧ ¬ Acyclic env'.Waits) ∧
    run step (boot (fun _ => 0) 4096) joinMain = .error .assertion := by
  refine ⟨circle_possible, ⟨_, rfl, fun hacyclic => hacyclic 1 ?_⟩, rfl⟩
  apply TransGen.head
  · exact ⟨rfl, 0, rfl⟩
  apply TransGen.head
  · exact ⟨rfl, 0, rfl⟩
  · exact .single ⟨rfl, 0, rfl⟩

theorem joins_deliver_iff_circle :
    Along step Delivers (boot (fun _ => 0) 4096) circle ↔
      Along step Handled (boot (fun _ => 0) 4096) circle :=
  joins_deliver_iff circle_possible

end TouchHle.Joins.Env
