import TouchHle.Threads.Calls

namespace TouchHle.Threads

open Lib Option

structure LockObject where
  ptr : ℕ
  magic : UInt32
  static : UInt32

namespace Call

def lockObject : Call → Option LockObject
  | .mutexInit mutex _ | .mutexLock mutex | .mutexTrylock mutex | .mutexUnlock mutex
  | .mutexDestroy mutex => some ⟨mutex, magicMutex, magicMutexStatic⟩
  | .rwlockInit rwlock _ | .rwlockRdlock rwlock | .rwlockTryrdlock rwlock | .rwlockWrlock rwlock
  | .rwlockTrywrlock rwlock | .rwlockUnlock rwlock | .rwlockDestroy rwlock =>
    some ⟨rwlock, magicRwlock, magicRwlockStatic⟩
  | _ => none

lemma lockObject_magic {c : Call} {object : LockObject} (h : c.lockObject = some object) :
    object.magic ≠ 0 ∧ object.static ≠ 0 ∧ object.magic ≠ object.static := by
  have hmutex : magicMutex ≠ 0 ∧ magicMutexStatic ≠ 0 ∧ magicMutex ≠ magicMutexStatic := by decide
  have hrwlock : magicRwlock ≠ 0 ∧ magicRwlockStatic ≠ 0 ∧ magicRwlock ≠ magicRwlockStatic := by decide
  cases c <;> first
    | exact some.inj h ▸ hmutex
    | exact some.inj h ▸ hrwlock
    | exact nomatch h

def isUnlock : Call → Bool
  | .mutexUnlock _ | .rwlockUnlock _ => true
  | _ => false

def isDestroy : Call → Bool
  | .mutexDestroy _ | .rwlockDestroy _ => true
  | _ => false

end Call

namespace Env

def isBusy (env : Env) (mutexId : ℕ) : Bool :=
  (env.mutexes mutexId).any fun mutex => mutex.locked.isSome || mutex.waitingCount ≠ 0

def Misuses (env : Env) : Action → Prop
  | .call c => env.scan = none ∧ ∃ object ∈ c.lockObject,
    c.isDestroy = true ∧ env.readWord object.ptr 0 = object.magic ∧
        env.isBusy (env.readMutexId object.ptr) = true ∨
      c.isUnlock = true ∧ env.readWord object.ptr 0 = object.static ∧ env.mutexCount + 1 < u64Bound
  | _ => False

instance (env : Env) : DecidablePred env.Misuses
  | .call _ => inferInstanceAs (Decidable (_ ∧ _))
  | .store .. | .newThread | .exitThread | .preempt | .threadSuspend _ | .threadResume _ | .visit _ =>
    inferInstanceAs (Decidable False)

def KeepsRefused (env : Env) : Action → Prop
  | .call c => ∀ object ∈ c.lockObject, ∀ r env', env.serve (.call c) = .ok (some r, env') →
    (r ≠ 0 → env' = env) ∧
      (c.isDestroy = true → env.readWord object.ptr 0 = object.magic →
        env'.readWord object.ptr 0 ≠ object.magic → env'.mutexes (env.readMutexId object.ptr) = none)
  | _ => True

variable {env env' e : Env} {ptr mutexId : ℕ} {r : ℤ} {magic static : UInt32}
  {operation : Env → ℕ → Checked (Option ℤ × Env)}

section

lemma readWord_newMutexAt {type : MutexType} (hp : env.nullSegmentSize ≤ ptr)
    (h : env.newMutexAt ptr magic type = .ok e) : e.readWord ptr 0 = magic := by
  obtain ⟨-, rfl⟩ := newMutexAt_eq_ok.mp h
  exact readWord_writeWords (i := 0) hp rfl

lemma onMutex_cases (hs : static ≠ 0) (h : env.onMutex ptr magic static operation = .ok (some r, env')) :
    (env.readWord ptr 0 ≠ static ∧ env.readWord ptr 0 ≠ magic ∧ env' = env) ∨
    (env.readWord ptr 0 ≠ static ∧ env.readWord ptr 0 = magic ∧
      operation env (env.readMutexId ptr) = .ok (some r, env')) ∨
    (env.readWord ptr 0 = static ∧ ∃ e, e.readWord ptr 0 = magic ∧
      e.mutexes (e.readMutexId ptr) = some (.new pthreadMutexDefault) ∧
      operation e (e.readMutexId ptr) = .ok (some r, env')) := by
  obtain ⟨checked, hcheck, h⟩ := bind_eq_ok.mp h
  cases checked with
  | error err =>
    obtain ⟨-, rfl⟩ := ok_pair_inj h
    unfold checkOrRegister at hcheck
    split_ifs at hcheck with hstatic hmagic
    · simp [map_eq_ok] at hcheck
    · simp at hcheck
    · exact .inl ⟨hstatic, hmagic, rfl⟩
  | ok e =>
    obtain ⟨hword, hid, hmutexes, -⟩ | ⟨hstatic, hmagic, rfl⟩ := checkOrRegister_cases hs hcheck
    · obtain ⟨-, hnew⟩ | ⟨hne, -⟩ := checkOrRegister_eq_ok.mp hcheck
      · have hnull := nullSegmentSize_le_of_readWord (hword ▸ hs)
        refine .inr (.inr ⟨hword, e, readWord_newMutexAt hnull hnew, ?_, h⟩)
        rw [hid, hmutexes, Function.update_self]
      · exact absurd hword hne
    · exact .inr (.inl ⟨hstatic, hmagic, h⟩)

lemma lockInner_new (hnew : e.mutexes mutexId = some (.new pthreadMutexDefault))
    (h : e.lockInner mutexId = .ok (some r, env')) : r = 0 := by
  obtain ⟨⟨result, f⟩, hlock, h⟩ := bind_eq_ok.mp h
  obtain ⟨hr, -⟩ := ok_pair_inj h
  obtain ⟨mutex, hfound, ⟨n, _, rfl, -⟩ | ⟨rfl, -⟩ | ⟨rfl, -⟩⟩ := lockMutex_cases hlock
  · exact (some.inj hr).symm
  · simp [lockMutex, hnew, Mutex.new] at hlock
  · simp at hr

lemma unlockInner_new (hnew : e.mutexes mutexId = some (.new pthreadMutexDefault))
    (h : e.unlockInner mutexId = .ok (some r, env')) : r = EPERM ∧ env' = e := by
  simp only [unlockInner, unlockMutex, hnew, Mutex.new] at h
  obtain ⟨hr, rfl⟩ := ok_pair_inj h
  exact ⟨(some.inj hr).symm, rfl⟩

lemma lockInner_refused (h : env.lockInner mutexId = .ok (some r, env')) (hr : r ≠ 0) : env' = env := by
  obtain ⟨⟨result, f⟩, hlock, h⟩ := bind_eq_ok.mp h
  obtain ⟨hresult, rfl⟩ := ok_pair_inj h
  obtain ⟨mutex, hfound, ⟨n, _, rfl, -⟩ | ⟨-, rfl⟩ | ⟨rfl, -⟩⟩ := lockMutex_cases hlock
  · exact absurd (some.inj hresult).symm hr
  · rfl
  · simp at hresult

lemma unlockInner_refused (h : env.unlockInner mutexId = .ok (some r, env')) (hr : r ≠ 0) : env' = env := by
  obtain ⟨⟨result, f⟩, hunlock, h⟩ := bind_eq_ok.mp h
  obtain ⟨hresult, rfl⟩ := ok_pair_inj h
  obtain ⟨mutex, hfound, ⟨n, _, rfl, -⟩ | ⟨-, rfl⟩⟩ := unlockMutex_cases hunlock
  · exact absurd (some.inj hresult).symm hr
  · rfl

lemma destroyInner_cases (h : env.destroyInner mutexId = .ok (some r, env')) :
    (env.isBusy mutexId = true ∧ r = EBUSY ∧ env' = env) ∨
      (env.isBusy mutexId = false ∧ r = 0 ∧ env'.mutexes mutexId = none) := by
  obtain ⟨⟨result, f⟩, hdestroy, h⟩ := bind_eq_ok.mp h
  obtain ⟨hresult, rfl⟩ := ok_pair_inj h
  obtain ⟨mutex, hmutex, hdestroy⟩ := bind_eq_ok.mp hdestroy
  have hfound := unwrap_eq_ok.mp hmutex
  split_ifs at hdestroy with hlocked hcount <;>
    obtain ⟨rfl, rfl⟩ := ok_pair_inj hdestroy
  · refine .inl ⟨?_, (some.inj hresult).symm, rfl⟩
    simp [isBusy, hfound, isSome_iff_ne_none, hlocked]
  · refine .inl ⟨?_, (some.inj hresult).symm, rfl⟩
    simp [isBusy, hfound, hcount]
  · refine .inr ⟨?_, (some.inj hresult).symm, Function.update_self ..⟩
    simp_all [isBusy]

lemma isBusy_writeMutex (id : ℕ) : (env.writeMutex ptr magic id).isBusy mutexId = env.isBusy mutexId := by
  unfold isBusy writeMutex
  rw [mutexes_writeWords.1]

end

section

lemma onMutex_refused (hs : static ≠ 0) (h : env.onMutex ptr magic static operation = .ok (some r, env'))
    (hnew : ∀ e, e.readWord ptr 0 = magic → e.mutexes (e.readMutexId ptr) = some (.new pthreadMutexDefault) →
      operation e (e.readMutexId ptr) = .ok (some r, env') → r = 0)
    (hold : env.readWord ptr 0 = magic → operation env (env.readMutexId ptr) = .ok (some r, env') → r ≠ 0 →
      env' = env) (hr : r ≠ 0) : env' = env := by
  obtain ⟨-, -, rfl⟩ | ⟨-, hmagic, hop⟩ | ⟨-, e, hmagic, hfresh, hop⟩ := onMutex_cases hs h
  · rfl
  · exact hold hmagic hop hr
  · exact absurd (hnew e hmagic hfresh hop) hr

lemma pthreadMutexLock_registered (hmagic : e.readWord ptr 0 = magicMutex) :
    e.pthreadMutexLock ptr = e.lockInner (e.readMutexId ptr) := by
  have hcheck : e.checkOrRegister ptr magicMutex magicMutexStatic = .ok (.ok e) :=
    checkOrRegister_eq_ok.mpr (.inr ⟨hmagic ▸ by decide, hmagic, rfl⟩)
  rw [pthreadMutexLock, onMutex, hcheck]
  rfl

lemma pthreadMutexTrylock_refused (h : env.pthreadMutexTrylock ptr = .ok (some r, env')) (hr : r ≠ 0) :
    env' = env := by
  refine onMutex_refused (by decide) h (fun e hmagic hnew hop => ?_) (fun hmagic hop hr => ?_) hr
  · rw [if_neg (by simp [mutexIsLocked, hnew, Mutex.new]), pthreadMutexLock_registered hmagic] at hop
    exact lockInner_new hnew hop
  · split_ifs at hop
    · exact (ok_pair_inj hop).2.symm
    · rw [pthreadMutexLock_registered hmagic] at hop
      exact lockInner_refused hop hr

lemma rwlockTrylockInner_refused (h : env.rwlockTrylockInner ptr = .ok (some r, env')) (hr : r ≠ 0) :
    env' = env := by
  refine onMutex_refused (by decide) h (fun e hmagic hnew hop => ?_) (fun hmagic hop hr => ?_) hr
  · rw [if_neg (by simp [mutexIsLocked, hnew, Mutex.new])] at hop
    exact lockInner_new hnew hop
  · split_ifs at hop
    · exact (ok_pair_inj hop).2.symm
    · exact lockInner_refused hop hr

lemma lock_refused (hs : static ≠ 0) (h : env.onMutex ptr magic static lockInner = .ok (some r, env'))
    (hr : r ≠ 0) : env' = env :=
  onMutex_refused hs h (fun _ _ hnew hop => lockInner_new hnew hop) (fun _ hop hr => lockInner_refused hop hr) hr

lemma init_refused {type : MutexType}
    (h : (env.newMutexAt ptr magic type >>= fun e => (pure (some 0, e) : Checked _)) = .ok (some r, env'))
    (hr : r ≠ 0) : env' = env := by
  obtain ⟨e, -, h⟩ := bind_eq_ok.mp h
  obtain ⟨h0, -⟩ := ok_pair_inj h
  exact absurd (some.inj h0).symm hr

lemma unlock_refused (hs : static ≠ 0) (hne : magic ≠ static)
    (h : env.onMutex ptr magic static unlockInner = .ok (some r, env')) :
    (r ≠ 0 → env' = env) ↔ env.readWord ptr 0 ≠ static := by
  obtain ⟨hstatic, -, rfl⟩ | ⟨hstatic, -, hop⟩ | ⟨hstatic, e, hmagic, hnew, hop⟩ := onMutex_cases hs h
  · exact iff_of_true (fun _ => rfl) hstatic
  · exact iff_of_true (unlockInner_refused hop) hstatic
  · obtain ⟨rfl, rfl⟩ := unlockInner_new hnew hop
    refine iff_of_false (fun hkept => ?_) (not_not.mpr hstatic)
    rw [hkept (by decide), hstatic] at hmagic
    exact hne hmagic.symm

lemma destroy_cases (hs : static ≠ 0) (hm : magic ≠ 0) (hne : magic ≠ static)
    (h : env.onMutex ptr magic static
      (fun env mutexId => (env.writeMutex ptr 0 noMutexId).destroyInner mutexId) = .ok (some r, env')) :
    (env.readWord ptr 0 = magic ∧ env.isBusy (env.readMutexId ptr) = true ∧ r = EBUSY ∧
        env'.readWord ptr 0 = 0) ∨
      (¬ (env.readWord ptr 0 = magic ∧ env.isBusy (env.readMutexId ptr) = true) ∧ (r ≠ 0 → env' = env) ∧
        (env.readWord ptr 0 = magic → env'.mutexes (env.readMutexId ptr) = none)) := by
  obtain ⟨hstatic, hmagic, rfl⟩ | ⟨hstatic, hmagic, hop⟩ | ⟨hstatic, e, hmagic, hnew, hop⟩ := onMutex_cases hs h
  · exact .inr ⟨fun hbusy => hmagic hbusy.1, fun _ => rfl, fun hword => absurd hword hmagic⟩
  · have hnull := nullSegmentSize_le_of_readWord (hmagic ▸ hm)
    obtain ⟨hbusy, rfl, rfl⟩ | ⟨hfree, rfl, hgone⟩ := destroyInner_cases hop <;>
      rw [isBusy_writeMutex] at *
    · exact .inl ⟨hmagic, hbusy, rfl, readWord_writeWords (i := 0) hnull rfl⟩
    · refine .inr ⟨fun hbusy => ?_, fun h0 => absurd rfl h0, fun _ => hgone⟩
      rw [hfree] at hbusy
      exact Bool.false_ne_true hbusy.2
  · have hne' : env.readWord ptr 0 ≠ magic := fun hword => hne (hword.symm.trans hstatic)
    refine .inr ⟨fun hbusy => hne' hbusy.1, fun hr => ?_, fun hword => absurd hword hne'⟩
    obtain ⟨hbusy, -, -⟩ | ⟨-, rfl, -⟩ := destroyInner_cases hop
    · rw [isBusy_writeMutex] at hbusy
      simp [isBusy, hnew, Mutex.new] at hbusy
    · exact absurd rfl hr

lemma unlock_static_returns (hs : static ≠ 0) (hstatic : env.readWord ptr 0 = static)
    (hcount : env.mutexCount + 1 < u64Bound) :
    ∃ e, env.onMutex ptr magic static unlockInner = .ok (some EPERM, e) := by
  obtain ⟨e, he⟩ : ∃ e, env.newMutexAt ptr magic pthreadMutexDefault = .ok e :=
    ⟨_, newMutexAt_eq_ok.mpr ⟨hcount, rfl⟩⟩
  have hcheck : env.checkOrRegister ptr magic static = .ok (.ok e) :=
    checkOrRegister_eq_ok.mpr (.inl ⟨hstatic, he⟩)
  obtain ⟨-, hid, hmutexes, -⟩ | ⟨hnot, -⟩ := checkOrRegister_cases hs hcheck
  · refine ⟨e, ?_⟩
    rw [onMutex, hcheck]
    simp [unlockInner, unlockMutex, hid, hmutexes, Mutex.new, errOrZero]
  · exact absurd hstatic hnot

lemma destroyInner_busy (h : env.isBusy mutexId = true) : env.destroyInner mutexId = .ok (some EBUSY, env) := by
  obtain ⟨mutex, hmutex, hbusy⟩ := (any_eq_true _ _).mp h
  simp only [destroyInner, destroyMutex, hmutex]
  by_cases hlocked : mutex.locked = none
  · simp_all [errOrZero]
  · simp [hlocked, errOrZero]

lemma destroy_busy_returns (hne : magic ≠ static) (hword : env.readWord ptr 0 = magic)
    (hbusy : env.isBusy (env.readMutexId ptr) = true) :
    env.onMutex ptr magic static (fun env mutexId => (env.writeMutex ptr 0 noMutexId).destroyInner mutexId) =
      .ok (some EBUSY, env.writeMutex ptr 0 noMutexId) := by
  have hcheck : env.checkOrRegister ptr magic static = .ok (.ok env) :=
    checkOrRegister_eq_ok.mpr (.inr ⟨hword ▸ hne, hword, rfl⟩)
  rw [onMutex, hcheck]
  exact destroyInner_busy ((isBusy_writeMutex noMutexId).trans hbusy)

lemma serve_call {c : Call} (h : env.serve (.call c) = .ok (some r, env')) :
    env.scan = none ∧ env.call c = .ok (some r, env') := by
  unfold serve at h
  split_ifs at h with hscan
  · exact ⟨hscan, h⟩
  · simp at h

lemma serve_call_of_scan {c : Call} (hscan : env.scan = none) (h : env.call c = .ok (some r, env')) :
    env.serve (.call c) = .ok (some r, env') := (if_pos hscan).trans h

variable {c : Call} {object : LockObject}

lemma misuses_call (hobject : c.lockObject = some object) : env.Misuses (.call c) ↔ env.scan = none ∧
    (c.isDestroy = true ∧ env.readWord object.ptr 0 = object.magic ∧
        env.isBusy (env.readMutexId object.ptr) = true ∨
      c.isUnlock = true ∧ env.readWord object.ptr 0 = object.static ∧ env.mutexCount + 1 < u64Bound) := by
  simp only [Misuses, hobject, mem_def, some.injEq, exists_eq_left']

lemma keepsRefused_call (hobject : c.lockObject = some object) : env.KeepsRefused (.call c) ↔
    ∀ r env', env.serve (.call c) = .ok (some r, env') → (r ≠ 0 → env' = env) ∧
      (c.isDestroy = true → env.readWord object.ptr 0 = object.magic →
        env'.readWord object.ptr 0 ≠ object.magic → env'.mutexes (env.readMutexId object.ptr) = none) := by
  simp only [KeepsRefused, hobject, mem_def, some.injEq, forall_eq']

lemma keepsRefused_other (hobject : c.lockObject = some object) (hunlock : c.isUnlock = false)
    (hdestroy : c.isDestroy = false)
    (h : ∀ r env', env.call c = .ok (some r, env') → r ≠ 0 → env' = env) :
    env.KeepsRefused (.call c) ↔ ¬ env.Misuses (.call c) := by
  rw [keepsRefused_call hobject, misuses_call hobject, hunlock, hdestroy]
  refine iff_of_true (fun r env' hserve => ⟨h r env' (serve_call hserve).2, ?_⟩) ?_
  · exact fun hd => absurd hd Bool.false_ne_true
  · simp

lemma keepsRefused_unlock (hobject : c.lockObject = some object) (hunlock : c.isUnlock = true) (hdestroy : c.isDestroy = false)
    (hcall : env.call c = env.onMutex object.ptr object.magic object.static unlockInner) :
    env.KeepsRefused (.call c) ↔ ¬ env.Misuses (.call c) := by
  rw [keepsRefused_call hobject, misuses_call hobject, hunlock, hdestroy]
  obtain ⟨hm, hs, hne⟩ := Call.lockObject_magic hobject
  constructor
  · rintro hkept ⟨hscan, ⟨hd, -⟩ | ⟨-, hstatic, hcount⟩⟩
    · exact Bool.false_ne_true hd
    · have hreturns := hcall.trans (unlock_static_returns hs hstatic hcount).choose_spec
      have h := (hkept EPERM _ (serve_call_of_scan hscan hreturns)).1
      exact (unlock_refused hs hne (hcall.symm.trans hreturns)).mp h hstatic
  · intro hnot r env' hserve
    obtain ⟨hscan, hreturns⟩ := serve_call hserve
    refine ⟨(unlock_refused hs hne (hcall.symm.trans hreturns)).mpr fun hstatic => ?_, fun hd => absurd hd Bool.false_ne_true⟩
    refine hnot ⟨hscan, .inr ⟨rfl, hstatic, ?_⟩⟩
    rw [hcall] at hreturns
    obtain ⟨checked, hcheck, -⟩ := bind_eq_ok.mp hreturns
    unfold checkOrRegister at hcheck
    rw [if_pos hstatic] at hcheck
    obtain ⟨e, hnew, -⟩ := map_eq_ok.mp hcheck
    exact (newMutexAt_eq_ok.mp hnew).1

lemma keepsRefused_destroy (hobject : c.lockObject = some object) (hunlock : c.isUnlock = false)
    (hdestroy : c.isDestroy = true)
    (hcall : env.call c = env.onMutex object.ptr object.magic object.static
      (fun env mutexId => (env.writeMutex object.ptr 0 noMutexId).destroyInner mutexId)) :
    env.KeepsRefused (.call c) ↔ ¬ env.Misuses (.call c) := by
  rw [keepsRefused_call hobject, misuses_call hobject, hunlock, hdestroy]
  obtain ⟨hm, hs, hne⟩ := Call.lockObject_magic hobject
  constructor
  · rintro hkept ⟨hscan, ⟨-, hword, hbusy⟩ | ⟨hu, -⟩⟩
    · have hreturns := hcall.trans (destroy_busy_returns hne hword hbusy)
      obtain ⟨-, -, -, h0⟩ | ⟨hnot, -⟩ := destroy_cases hs hm hne (hcall.symm.trans hreturns)
      · have h := (hkept EBUSY _ (serve_call_of_scan hscan hreturns)).1 (by decide)
        rw [h, hword] at h0
        exact hm h0
      · exact hnot ⟨hword, hbusy⟩
    · exact Bool.false_ne_true hu
  · intro hnot r env' hserve
    obtain ⟨hscan, hreturns⟩ := serve_call hserve
    obtain ⟨hword, hbusy, -⟩ | ⟨-, hkept, hgone⟩ := destroy_cases hs hm hne (hcall.symm.trans hreturns)
    · exact absurd ⟨hscan, .inl ⟨rfl, hword, hbusy⟩⟩ hnot
    · exact ⟨hkept, fun _ hword _ => hgone hword⟩

theorem keepsRefused_iff (env : Env) (a : Action) : env.KeepsRefused a ↔ ¬ env.Misuses a := by
  cases a with
  | call c =>
    cases c with
    | mutexInit mutex attr =>
      refine keepsRefused_other rfl rfl rfl fun r env' h hr => ?_
      unfold call pthreadMutexInit at h
      dsimp only at h
      split_ifs at h
      · exact init_refused h hr
      · exact (ok_pair_inj h).2.symm
      · obtain ⟨type, -, h⟩ := bind_eq_ok.mp h
        exact init_refused h hr
    | mutexLock => exact keepsRefused_other rfl rfl rfl fun _ _ => lock_refused (by decide)
    | mutexTrylock => exact keepsRefused_other rfl rfl rfl fun _ _ => pthreadMutexTrylock_refused
    | mutexUnlock => exact keepsRefused_unlock rfl rfl rfl rfl
    | mutexDestroy => exact keepsRefused_destroy rfl rfl rfl rfl
    | rwlockInit rwlock attr =>
      refine keepsRefused_other rfl rfl rfl fun r env' h hr => ?_
      unfold call pthreadRwlockInit at h
      dsimp only at h
      split_ifs at h
      · exact (ok_pair_inj h).2.symm
      · exact init_refused h hr
    | rwlockRdlock | rwlockWrlock => exact keepsRefused_other rfl rfl rfl fun _ _ => lock_refused (by decide)
    | rwlockTryrdlock | rwlockTrywrlock =>
      exact keepsRefused_other rfl rfl rfl fun _ _ => rwlockTrylockInner_refused
    | rwlockUnlock => exact keepsRefused_unlock rfl rfl rfl rfl
    | rwlockDestroy => exact keepsRefused_destroy rfl rfl rfl rfl
    | _ => exact iff_of_true (fun _ h => nomatch h) fun h => nomatch h.2.choose_spec.1
  | _ => exact iff_of_true trivial id

/-- Along a run, whatever the threads call and however they are scheduled, the calls on mutexes and read-write
locks that return an error change nothing, and no mutex loses its object before it is destroyed, exactly if no
object is destroyed while its mutex is held or waited for and none is unlocked that has never been used. -/
theorem refused_calls_change_nothing (env : Env) (actions : List Action) :
    Along step KeepsRefused env actions ↔ Along step (fun env a => ¬ env.Misuses a) env actions :=
  ⟨Along.mono fun s a => (keepsRefused_iff s a).mp, Along.mono fun s a => (keepsRefused_iff s a).mpr⟩

theorem refused_destroy_loses_mutex : ∃ env env' : Env,
    (boot staticWords 0).exec [.call (.mutexLock 100)] = .ok env ∧
      env.serve (.call (.mutexDestroy 100)) = .ok (some EBUSY, env') ∧ env.readWord 100 0 = magicMutex ∧
      env'.readWord 100 0 = 0 ∧ env'.serve (.call (.mutexUnlock 100)) = .ok (some EINVAL, env') ∧
      env'.mutexIsLockedBy 0 0 = true := by
  refine ⟨_, _, rfl, rfl, ?_, ?_, rfl, ?_⟩ <;> decide

end

end Env

end TouchHle.Threads
