import TouchHle.Lib.Tally
import TouchHle.Threads.CondRelease

/-! The locks of a mutex that were granted, less those given back: its owner's and the phantom
ones. -/

namespace TouchHle.Threads

open Lib Finset Function Option Mutex

namespace Mutex

def lockCount (mutex : Mutex) : ℕ := mutex.locked.elim 0 Lock.count

def outstanding (mutex : Mutex) (threadCount : ℕ) : ℕ :=
  mutex.lockCount + ∑ t ∈ range threadCount, mutex.phantomLocks t

structure Fair (mutex : Mutex) (threadCount : ℕ) : Prop where
  phantomLocks : ∀ t, threadCount ≤ t → mutex.phantomLocks t = 0
  normal : mutex.type ≠ .normal → ∀ t, mutex.phantomLocks t = 0

variable {mutex mutex' : Mutex} {t n : ℕ}

lemma lockCount_of_locked {lock : Lock} (h : mutex.locked = some lock) :
    mutex.lockCount = lock.count := by simp only [lockCount, h, Option.elim]

lemma lockCount_of_unlocked (h : mutex.locked = none) : mutex.lockCount = 0 := by
  simp only [lockCount, h, Option.elim]

lemma phantomLocks_setPhantomLocks (count : ℕ) :
    (mutex.setPhantomLocks t count).phantomLocks = update mutex.phantomLocks t count := rfl

lemma sum_setPhantomLocks (mutex : Mutex) (ht : t < n) (count : ℕ) :
    ∑ u ∈ range n, (mutex.setPhantomLocks t count).phantomLocks u + mutex.phantomLocks t =
      ∑ u ∈ range n, mutex.phantomLocks u + count := by
  have hmem : t ∈ range n := mem_range.mpr ht
  have hsum := sum_eq_add_sum_sdiff_singleton_of_mem hmem mutex.phantomLocks
  rw [phantomLocks_setPhantomLocks, sum_update_of_mem hmem]
  omega

lemma Locked.outstanding (h : mutex.Locked t mutex') (ht : t < n) :
    mutex'.outstanding n = mutex.outstanding n + 1 := by
  cases h with
  | first hlocked =>
    have hnew : (mutex.lockedOnceBy t).lockCount = 1 := rfl
    rw [outstanding, outstanding, hnew, lockCount_of_unlocked hlocked, zero_add, add_comm]
    rfl
  | phantom =>
    have hsum := sum_setPhantomLocks mutex ht (mutex.phantomLocks t + 1)
    have hsame : (mutex.setPhantomLocks t (mutex.phantomLocks t + 1)).lockCount = mutex.lockCount :=
      rfl
    rw [outstanding, outstanding, hsame]
    omega
  | @again lock lock' hlocked howner htype hsame hcount =>
    have hnew : (mutex.lockedAs lock' htype).lockCount = lock'.count := rfl
    rw [outstanding, outstanding, hnew, lockCount_of_locked hlocked, hcount]
    exact Nat.add_right_comm _ 1 _

lemma outstanding_relockedBy (h : mutex.locked = none) :
    (mutex.relockedBy t).outstanding n = mutex.outstanding n + 1 := by
  have hnew : (mutex.relockedBy t).lockCount = 1 := rfl
  rw [outstanding, outstanding, hnew, lockCount_of_unlocked h, zero_add, add_comm]
  rfl

lemma Unlocked.outstanding (h : mutex.Unlocked t mutex') (ht : t < n) :
    mutex'.outstanding n + 1 = mutex.outstanding n := by
  cases h with
  | phantom hpos =>
    have hsum := sum_setPhantomLocks mutex ht (mutex.phantomLocks t - 1)
    have hsame : (mutex.setPhantomLocks t (mutex.phantomLocks t - 1)).lockCount = mutex.lockCount :=
      rfl
    rw [outstanding, outstanding, hsame]
    omega
  | released _ hlocked hone =>
    have hnew : mutex.released.lockCount = 0 := rfl
    rw [outstanding, outstanding, hnew, lockCount_of_locked hlocked, hone, zero_add,
      add_comm]
    rfl
  | @nested lock lock' _ hlocked howner htype hsame hcount =>
    have hnew : (mutex.lockedAs lock' htype).lockCount = lock'.count := rfl
    rw [outstanding, outstanding, hnew, lockCount_of_locked hlocked, ← hcount]
    exact Nat.add_right_comm _ _ 1

lemma Fair.of_eq (h : mutex.Fair n) (htype : mutex'.type = mutex.type)
    (hphantoms : mutex'.phantomLocks = mutex.phantomLocks) : mutex'.Fair n :=
  ⟨hphantoms ▸ h.phantomLocks, by rw [htype, hphantoms]; exact h.normal⟩

lemma Fair.setPhantomLocks (h : mutex.Fair n) (ht : t < n) {count : ℕ}
    (hnormal : mutex.type ≠ .normal → count = 0) : (mutex.setPhantomLocks t count).Fair n where
  phantomLocks u hu := by
    have hne : u ≠ t := by omega
    rw [phantomLocks_setPhantomLocks, update_of_ne hne]
    exact h.phantomLocks u hu
  normal htype u := by
    have htype : mutex.type ≠ .normal := htype
    by_cases hu : u = t
    · subst hu
      simpa [setPhantomLocks] using hnormal htype
    · rw [phantomLocks_setPhantomLocks, update_of_ne hu]
      exact h.normal htype u

lemma Fair.locked (h : mutex.Fair n) (ht : t < n) (hl : mutex.Locked t mutex') : mutex'.Fair n := by
  cases hl with
  | phantom _ _ htype => exact h.setPhantomLocks ht fun hne => absurd htype hne
  | _ => exact h.of_eq rfl rfl

lemma Fair.unlocked (h : mutex.Fair n) (ht : t < n) (hu : mutex.Unlocked t mutex') :
    mutex'.Fair n := by
  cases hu with
  | phantom hpos =>
    exact h.setPhantomLocks ht fun htype => absurd (h.normal htype t) hpos.ne'
  | _ => exact h.of_eq rfl rfl

lemma Fair.heldBy_of_unlocked (h : mutex.Fair n) (htype : mutex.type ≠ .normal)
    (hu : mutex.Unlocked t mutex') : mutex.heldBy t := by
  cases hu with
  | phantom hpos => exact absurd (h.normal htype t) hpos.ne'
  | released _ hlocked _ howner => exact ⟨_, hlocked, howner.resolve_right htype⟩
  | nested _ hlocked howner => exact ⟨_, hlocked, howner⟩

lemma fair_new (type : MutexType) : (new type).Fair n := ⟨fun _ _ => rfl, fun _ _ => rfl⟩

lemma outstanding_new (type : MutexType) : (new type).outstanding n = 0 := by
  simp [outstanding, lockCount, new]

lemma Fair.newThread (h : mutex.Fair n) :
    mutex.Fair (n + 1) ∧ mutex.outstanding (n + 1) = mutex.outstanding n := by
  refine ⟨⟨fun t ht => h.phantomLocks t (by omega), h.normal⟩, ?_⟩
  simp only [outstanding, sum_range_succ, h.phantomLocks n le_rfl, add_zero]

end Mutex

structure MutexObject where
  ptr : ℕ
  magic : UInt32
  static : UInt32

namespace MutexObject

def mutex (ptr : ℕ) : MutexObject := ⟨ptr, magicMutex, magicMutexStatic⟩

def rwlock (ptr : ℕ) : MutexObject := ⟨ptr, magicRwlock, magicRwlockStatic⟩

lemma static_mutex_ne (ptr : ℕ) : (mutex ptr).static ≠ 0 := by
  have hne : magicMutexStatic ≠ 0 := by decide
  exact hne

lemma static_rwlock_ne (ptr : ℕ) : (rwlock ptr).static ≠ 0 := by
  have hne : magicRwlockStatic ≠ 0 := by decide
  exact hne

lemma magic_mutex_ne (ptr : ℕ) : (mutex ptr).magic ≠ (mutex ptr).static := by
  have hne : magicMutex ≠ magicMutexStatic := by decide
  exact hne

end MutexObject

namespace Call

def locks : Call → Option MutexObject
  | .mutexLock ptr | .mutexTrylock ptr => some (.mutex ptr)
  | .rwlockRdlock ptr | .rwlockTryrdlock ptr | .rwlockWrlock ptr | .rwlockTrywrlock ptr =>
    some (.rwlock ptr)
  | _ => none

def unlocks : Call → Option MutexObject
  | .mutexUnlock ptr => some (.mutex ptr)
  | .rwlockUnlock ptr => some (.rwlock ptr)
  | _ => none

end Call

namespace Env

def mutexOf (env : Env) (object : MutexObject) : Option ℕ :=
  if env.readWord object.ptr 0 = object.static then some env.mutexCount
  else if env.readWord object.ptr 0 = object.magic then some (env.readMutexId object.ptr)
  else none

def waitMutex (env : Env) (cond mutex : ℕ) : Option ℕ :=
  match env.checkOrRegisterCond cond with
  | .error _ => none
  | .ok env => env.mutexOf (.mutex mutex)

def relocks (env : Env) (t : ℕ) : Option ℕ :=
  match (env.threads t).blockedBy with
  | .mutex mutexId => some mutexId
  | .condition cond _ => (env.conds cond).bind CondHostObject.currMutex
  | _ => none

section Accounts

def locked (id : ℕ) (env : Env) (a : Action) (r : Option ℤ) (env' : Env) : ℤ :=
  match a with
  | .call c => if r = some 0 ∧ c.locks.bind env.mutexOf = some id then 1 else 0
  | .visit _ => if r ≠ none ∧ env.relocks env'.current = some id then 1 else 0
  | _ => 0

def unlocked (id : ℕ) (env : Env) (a : Action) (r : Option ℤ) (_ : Env) : ℤ :=
  match a with
  | .call c =>
    if r = some 0 ∧ c.unlocks.bind env.mutexOf = some id ∨ env.scan = none ∧ r = none ∧
      (c.waitsOn.bind fun w => env.waitMutex w.1 w.2) = some id then 1 else 0
  | _ => 0

end Accounts

structure Accounted (env : Env) (id : ℕ) (n : ℤ) : Prop where
  fair : ∀ id mutex, env.mutexes id = some mutex → mutex.Fair env.threadCount
  outstanding : ∀ mutex, env.mutexes id = some mutex → n = mutex.outstanding env.threadCount
  fresh : env.mutexCount ≤ id → env.mutexes id = none ∧ n = 0

variable {env env' e : Env} {r : Option ℤ} {now : Clock} {t id mutexId : ℕ} {n d : ℤ}

lemma Accounted.of_eq (h : env.Accounted id n) (hmutexes : env'.mutexes = env.mutexes)
    (hcount : env'.mutexCount = env.mutexCount) (hthreads : env'.threadCount = env.threadCount) :
    env'.Accounted id n :=
  ⟨by rw [hmutexes, hthreads]; exact h.fair, by rw [hmutexes, hthreads]; exact h.outstanding,
    by rw [hcount, hmutexes]; exact h.fresh⟩

lemma Accounted.set (h : env.Accounted id n) {mutex mutex' : Mutex}
    (hfound : env.mutexes mutexId = some mutex)
    (hmutexes : env'.mutexes = update env.mutexes mutexId (some mutex'))
    (hcount : env'.mutexCount = env.mutexCount) (hthreads : env'.threadCount = env.threadCount)
    (hfair : mutex'.Fair env.threadCount)
    (houtstanding :
      (mutex'.outstanding env.threadCount : ℤ) = mutex.outstanding env.threadCount + d) :
    env'.Accounted id (n + if mutexId = id then d else 0) := by
  refine ⟨fun id' m hm => ?_, fun m hm => ?_, fun hle => ?_⟩
  · rw [hthreads]
    rw [hmutexes] at hm
    by_cases hid : id' = mutexId
    · subst hid
      rw [update_self] at hm
      exact some.inj hm ▸ hfair
    · rw [update_of_ne hid] at hm
      exact h.fair id' m hm
  · rw [hthreads]
    rw [hmutexes] at hm
    by_cases hid : mutexId = id
    · subst hid
      rw [update_self] at hm
      rw [if_pos rfl, ← some.inj hm, houtstanding, h.outstanding mutex hfound]
    · rw [update_of_ne (Ne.symm hid)] at hm
      rw [if_neg hid, add_zero]
      exact h.outstanding m hm
  · rw [hcount] at hle
    obtain ⟨hnone, hzero⟩ := h.fresh hle
    have hne : mutexId ≠ id := by
      rintro rfl
      cases hfound.symm.trans hnone
    rw [hmutexes, update_of_ne hne.symm, if_neg hne, add_zero]
    exact ⟨hnone, hzero⟩

lemma Accounted.changes (h : env.Accounted id n) {c : Change} (hc : c ≠ .mutex)
    (hchange : env.Changes c env') : env'.Accounted id n := by
  cases hchange with
  | newMutex type =>
    refine ⟨fun id' m hm => ?_, fun m hm => ?_, fun hle => ?_⟩
    · by_cases hid : id' = env.mutexCount
      · subst hid
        obtain rfl := some.inj ((update_self _ _ env.mutexes).symm.trans hm)
        exact fair_new type
      · exact h.fair id' m ((update_of_ne hid _ _).symm.trans hm)
    · by_cases hid : id = env.mutexCount
      · subst hid
        obtain rfl := some.inj ((update_self _ _ env.mutexes).symm.trans hm)
        rw [(h.fresh le_rfl).2, outstanding_new, Nat.cast_zero]
      · exact h.outstanding m ((update_of_ne hid _ _).symm.trans hm)
    · have hle : env.mutexCount + 1 ≤ id := hle
      obtain ⟨hnone, hzero⟩ := h.fresh (by omega)
      have hne : id ≠ env.mutexCount := by omega
      exact ⟨(update_of_ne hne _ _).trans hnone, hzero⟩
  | mutex => exact absurd rfl hc
  | @destroyMutex mutexId =>
    have hold : ∀ {id' m}, update env.mutexes mutexId none id' = some m →
        env.mutexes id' = some m := by
      intro id' m hm
      by_cases hid : id' = mutexId
      · subst hid
        cases (update_self _ _ env.mutexes).symm.trans hm
      · exact (update_of_ne hid _ _).symm.trans hm
    refine ⟨fun id' m hm => h.fair id' m (hold hm), fun m hm => h.outstanding m (hold hm),
      fun hle => ⟨?_, (h.fresh hle).2⟩⟩
    cases hmutex : update env.mutexes mutexId none id with
    | none => exact hmutex
    | some m => cases (h.fresh hle).1.symm.trans (hold hmutex)
  | _ => exact h.of_eq rfl rfl rfl

lemma Accounted.path (h : env.Accounted id n) (hpath : Path (· ≠ .mutex) env env') :
    env'.Accounted id n :=
  hpath.preserves (I := fun e => e.Accounted id n)
    (fun _ _ _ _ hc hchange hacc => hacc.changes hc hchange) h

lemma Accounted.blocks (h : env.Accounted id n) (hblock : env.Blocks env') :
    env'.Accounted id n := by
  cases hblock with
  | @onMutex mutexId mutex lock hfound =>
    have hmutexes : ((env.setMutex mutexId
        { mutex with waitingCount := mutex.waitingCount + 1 }).suspend
          (.mutex mutexId) (some .lock)).mutexes = update env.mutexes mutexId
        (some { mutex with waitingCount := mutex.waitingCount + 1 }) := rfl
    have hset := h.set (d := 0) hfound hmutexes rfl rfl ((h.fair _ _ hfound).of_eq rfl rfl)
      (add_zero _).symm
    simpa using hset
  | _ => exact h.of_eq rfl rfl rfl

lemma Accounted.effect (h : env.Accounted id n) (heffect : Effect (· ≠ .mutex) env env') :
    env'.Accounted id n :=
  heffect.preserves (I := fun e => e.Accounted id n) h
    (fun _ _ _ _ hc hchange hacc => hacc.changes hc hchange)
    (fun _ _ _ hblock hacc => hacc.blocks hblock)
    fun _ _ _ _ _ hwait hacc => by cases hwait; exact hacc.of_eq rfl rfl rfl

section Calls

variable {object : MutexObject}

lemma mutexOf_of_checkOrRegister (hs : object.static ≠ 0)
    (h : env.checkOrRegister object.ptr object.magic object.static = .ok (.ok e)) :
    env.mutexOf object = some (e.readMutexId object.ptr) := by
  obtain ⟨hword, hid, -⟩ | ⟨hne, hword, rfl⟩ := checkOrRegister_cases hs h
  · rw [mutexOf, if_pos hword, hid]
  · rw [mutexOf, if_neg hne, if_pos hword]

lemma mutexOf_again (hs : object.static ≠ 0) (hne : object.magic ≠ object.static)
    (h : env.checkOrRegister object.ptr object.magic object.static = .ok (.ok e)) :
    e.mutexOf object = some (e.readMutexId object.ptr) := by
  have hword : e.readWord object.ptr 0 = object.magic := by
    obtain ⟨hword, h⟩ | ⟨-, hword, rfl⟩ := checkOrRegister_eq_ok.mp h
    · obtain ⟨-, rfl⟩ := newMutexAt_eq_ok.mp h
      exact readWord_writeWords (i := 0) (nullSegmentSize_le_of_readWord (hword ▸ hs)) rfl
    · exact hword
  rw [mutexOf, if_neg (hword ▸ hne), if_pos hword]

lemma Accounted.onMutex (h : env.Accounted id n) (hs : object.static ≠ 0)
    {operation : Env → ℕ → Checked (Option ℤ × Env)}
    (hop : ∀ e, env.checkOrRegister object.ptr object.magic object.static = .ok (.ok e) →
      e.Accounted id n → SameThreads env e → operation e (e.readMutexId object.ptr) = .ok (r, env') →
        env'.Accounted id (n + if r = some 0 ∧ e.readMutexId object.ptr = id then d else 0))
    (hcall : env.onMutex object.ptr object.magic object.static operation = .ok (r, env')) :
    env'.Accounted id (n + if r = some 0 ∧ env.mutexOf object = some id then d else 0) := by
  obtain ⟨checked, hcheck, hcall⟩ := bind_eq_ok.mp hcall
  cases checked with
  | error err =>
    obtain ⟨rfl, rfl⟩ := ok_pair_inj hcall
    obtain rfl := checkOrRegister_error hcheck
    simpa [EINVAL] using h
  | ok e =>
    have hpath : Path (· ≠ .mutex) env e := path_checkOrRegister hcheck (by simp) (by simp)
    simpa only [mutexOf_of_checkOrRegister hs hcheck, some.injEq] using
      hop e hcheck (h.path hpath) hpath.sameThreads hcall

lemma Accounted.lockInner (h : env.Accounted id n) (hlt : env.current < env.threadCount)
    (hcall : env.lockInner mutexId = .ok (r, env')) :
    env'.Accounted id (n + if r = some 0 ∧ mutexId = id then 1 else 0) := by
  obtain ⟨⟨result, e⟩, hlock, hcall⟩ := bind_eq_ok.mp hcall
  obtain ⟨rfl, rfl⟩ := ok_pair_inj hcall
  obtain ⟨mutex, hfound, ⟨k, mutex', rfl, hlocked, rfl⟩ | ⟨rfl, rfl⟩ |
    ⟨rfl, lock, hlocked, hother, rfl⟩⟩ := lockMutex_cases hlock
  · have hmutexes : (env.setMutex mutexId mutex').mutexes =
        update env.mutexes mutexId (some mutex') := rfl
    have hset := h.set (d := 1) hfound hmutexes rfl rfl
      ((h.fair _ _ hfound).locked hlt hlocked)
      (by rw [hlocked.outstanding hlt, Nat.cast_add, Nat.cast_one])
    simpa [errOrZero] using hset
  · simpa [errOrZero, EDEADLK] using h
  · simpa using h.blocks (.onMutex hfound hlocked hother)

lemma Accounted.unlockInner (h : env.Accounted id n) (hlt : env.current < env.threadCount)
    (hcall : env.unlockInner mutexId = .ok (r, env')) :
    env'.Accounted id (n + if r = some 0 ∧ mutexId = id then -1 else 0) := by
  obtain ⟨⟨result, e⟩, hunlock, hcall⟩ := bind_eq_ok.mp hcall
  obtain ⟨rfl, rfl⟩ := ok_pair_inj hcall
  obtain ⟨mutex, hfound, ⟨k, mutex', rfl, hunlocked, rfl⟩ | ⟨rfl, rfl⟩⟩ :=
    unlockMutex_cases hunlock
  · have hmutexes : (env.setMutex mutexId mutex').mutexes =
        update env.mutexes mutexId (some mutex') := rfl
    have hset := h.set (d := -1) hfound hmutexes rfl rfl
      ((h.fair _ _ hfound).unlocked hlt hunlocked)
      (by have := hunlocked.outstanding hlt; omega)
    simpa [errOrZero] using hset
  · simpa [errOrZero, EPERM] using h

lemma Accounted.lockAt (h : env.Accounted id n) (hlt : env.current < env.threadCount)
    (hs : object.static ≠ 0)
    (hcall : env.onMutex object.ptr object.magic object.static Env.lockInner = .ok (r, env')) :
    env'.Accounted id (n + if r = some 0 ∧ env.mutexOf object = some id then 1 else 0) :=
  h.onMutex hs (fun _ _ hacc hsame =>
    hacc.lockInner (by rw [hsame.current, hsame.threadCount]; exact hlt)) hcall

lemma Accounted.unlockAt (h : env.Accounted id n) (hlt : env.current < env.threadCount)
    (hs : object.static ≠ 0)
    (hcall : env.onMutex object.ptr object.magic object.static Env.unlockInner = .ok (r, env')) :
    env'.Accounted id (n + if r = some 0 ∧ env.mutexOf object = some id then -1 else 0) :=
  h.onMutex hs (fun _ _ hacc hsame =>
    hacc.unlockInner (by rw [hsame.current, hsame.threadCount]; exact hlt)) hcall

lemma Accounted.trylock {ptr : ℕ} (h : env.Accounted id n) (hlt : env.current < env.threadCount)
    (hcall : env.pthreadMutexTrylock ptr = .ok (r, env')) :
    env'.Accounted id (n + if r = some 0 ∧ env.mutexOf (.mutex ptr) = some id then 1 else 0) := by
  have hs := MutexObject.static_mutex_ne ptr
  refine h.onMutex hs (fun e hcheck hacc hsame hop => ?_) hcall
  split_ifs at hop
  · obtain ⟨rfl, rfl⟩ := ok_pair_inj hop
    simpa [EBUSY] using hacc
  · have hagain := mutexOf_again hs (MutexObject.magic_mutex_ne ptr) hcheck
    have hlt : e.current < e.threadCount := by rwa [hsame.current, hsame.threadCount]
    simpa only [hagain, some.injEq] using hacc.lockAt hlt hs hop

lemma Accounted.rwlockTrylock {ptr : ℕ} (h : env.Accounted id n)
    (hlt : env.current < env.threadCount) (hcall : env.rwlockTrylockInner ptr = .ok (r, env')) :
    env'.Accounted id (n + if r = some 0 ∧ env.mutexOf (.rwlock ptr) = some id then 1 else 0) := by
  refine h.onMutex (MutexObject.static_rwlock_ne ptr)
    (fun e hcheck hacc hsame hop => ?_) hcall
  split_ifs at hop
  · obtain ⟨rfl, rfl⟩ := ok_pair_inj hop
    simpa [EBUSY] using hacc
  · exact hacc.lockInner (by rw [hsame.current, hsame.threadCount]; exact hlt) hop

lemma unlock_ne_none {ptr : ℕ} (h : env.pthreadMutexUnlock ptr = .ok (r, env')) : r ≠ none := by
  obtain ⟨checked, -, h⟩ := bind_eq_ok.mp h
  cases checked with
  | error err =>
    obtain ⟨rfl, -⟩ := ok_pair_inj h
    simp
  | ok e =>
    obtain ⟨⟨result, e'⟩, -, h⟩ := bind_eq_ok.mp h
    obtain ⟨rfl, -⟩ := ok_pair_inj h
    simp

lemma Accounted.wait {cond mutex : ℕ} {deadline : Option ℕ} (h : env.Accounted id n)
    (hlt : env.current < env.threadCount)
    (hcall : env.releaseAndWait cond mutex deadline = .ok (r, env')) :
    env'.Accounted id (n + if r = none ∧ env.waitMutex cond mutex = some id then -1 else 0) := by
  obtain ⟨-, rfl, rfl⟩ | ⟨e, hcheck, hcases⟩ := releaseAndWait_cases hcall
  · simpa using h
  · have hpath : Path (· ≠ .mutex) env e := path_checkOrRegisterCond hcheck (by simp) (by simp)
    have hlt : e.current < e.threadCount := by
      rw [hpath.sameThreads.current, hpath.sameThreads.threadCount]
      exact hlt
    have hmutex : env.waitMutex cond mutex = e.mutexOf (.mutex mutex) := by
      rw [waitMutex, hcheck]
    have hs := MutexObject.static_mutex_ne mutex
    obtain ⟨hr, hunlock⟩ | ⟨e₁, hunlock, hwait⟩ := hcases
    · have hsome := unlock_ne_none hunlock
      simpa [hr, hsome] using (h.path hpath).unlockAt hlt hs hunlock
    · obtain ⟨host, -, -, -, rfl, rfl⟩ := waitOnCond_eq_ok.mp hwait
      have hacc := (h.path hpath).unlockAt hlt hs hunlock
      simp only [true_and] at hacc ⊢
      rw [hmutex]
      exact hacc.of_eq rfl rfl rfl

lemma effect_of_no_lock {c : Call} (hlocks : c.locks = none) (hunlocks : c.unlocks = none)
    (hwaits : c.waitsOn = none) (h : env.call c = .ok (r, env')) :
    Effect (· ≠ .mutex) env env' := by
  cases c with
  | mutexInit mutex attr =>
    unfold call pthreadMutexInit at h
    dsimp only at h
    split_ifs at h
    · exact effect_initMutexAt (by simp) (by simp) h
    · obtain ⟨-, rfl⟩ := ok_pair_inj h
      exact Path.effect .refl
    · obtain ⟨type, -, h⟩ := bind_eq_ok.mp h
      exact effect_initMutexAt (by simp) (by simp) h
  | rwlockInit rwlock attr =>
    unfold call pthreadRwlockInit at h
    dsimp only at h
    split_ifs at h
    · obtain ⟨-, rfl⟩ := ok_pair_inj h
      exact Path.effect .refl
    · exact effect_initMutexAt (by simp) (by simp) h
  | mutexDestroy ptr | rwlockDestroy ptr =>
    exact effect_destroyAt (by decide) (by simp) (by simp) (by simp) h
  | condInit cond =>
    obtain ⟨-, rfl⟩ := ok_pair_inj h
    exact (path_pthreadCondInit (by simp) (by simp)).effect
  | condSignal cond =>
    obtain ⟨-, rfl⟩ | ⟨e, object, hcheck, hobject, -, rfl⟩ := pthreadCondSignal_cases h
    · exact Path.effect .refl
    · exact ((path_checkOrRegisterCond hcheck (by simp) (by simp)).trans
        ((Changes.wake hobject 1).path (by simp))).effect
  | condBroadcast cond =>
    obtain ⟨-, rfl⟩ | ⟨e, object, hcheck, hobject, -, rfl⟩ := pthreadCondBroadcast_cases h
    · exact Path.effect .refl
    · exact ((path_checkOrRegisterCond hcheck (by simp) (by simp)).trans
        ((Changes.wake hobject _).path (by simp))).effect
  | condDestroy cond =>
    obtain ⟨-, rfl⟩ | ⟨e, object, hcheck, hobject, hwaiting, hwaking, -, rfl⟩ :=
      pthreadCondDestroy_cases h
    · exact Path.effect .refl
    · exact ((path_checkOrRegisterCond hcheck (by simp) (by simp)).trans
        ((Changes.dropCond hobject hwaiting hwaking).path (by simp))).effect
  | semInit sem pshared value => exact Path.effect (path_semInit (by simp) (by simp) h)
  | semDestroy sem => exact Path.effect (path_semDestroy (by simp) h)
  | semOpen name oflag value sem => exact Path.effect (path_semOpen (by simp) (by simp) h)
  | semPost sem => exact Path.effect (path_semPost (by simp) (by simp) h)
  | semWait sem => exact effect_semWait (by simp) (by simp) h
  | semTrywait sem => exact effect_semTrywait (by simp) (by simp) h
  | semGetvalue sem sval => exact Path.effect (path_semGetvalue (by simp) h)
  | semClose sem => exact Path.effect (path_semClose (by simp) (by simp) h)
  | semUnlink name => exact Path.effect (path_semUnlink (by simp) (by simp) h)
  | sleep due => exact effect_sleep (.sleeping due) h
  | sleepGuest due => exact effect_sleep (.guestSleeping due) h
  | join joinee => exact effect_joinWithThread h
  | mutexUnlock | rwlockUnlock => cases hunlocks
  | condWait | condTimedwait => cases hwaits
  | _ => cases hlocks

end Calls

section Steps

variable {object : MutexObject} {c : Call}

lemma locked_call (h : c.locks = some object) : locked id env (.call c) r env' =
    if r = some 0 ∧ env.mutexOf object = some id then 1 else 0 := by
  simp [locked, h]

lemma locked_of_none (h : c.locks = none) : locked id env (.call c) r env' = 0 := by
  simp [locked, h]

lemma unlocked_call (h : c.unlocks = some object) (hwaits : c.waitsOn = none) :
    unlocked id env (.call c) r env' =
      if r = some 0 ∧ env.mutexOf object = some id then 1 else 0 := by
  simp [unlocked, h, hwaits]

lemma unlocked_wait {cond mutex : ℕ} (hscan : env.scan = none) (hunlocks : c.unlocks = none)
    (hwaits : c.waitsOn = some (cond, mutex)) : unlocked id env (.call c) r env' =
      if r = none ∧ env.waitMutex cond mutex = some id then 1 else 0 := by
  simp [unlocked, hunlocks, hwaits, hscan]

lemma unlocked_of_none (hunlocks : c.unlocks = none) (hwaits : c.waitsOn = none) :
    unlocked id env (.call c) r env' = 0 := by
  simp [unlocked, hunlocks, hwaits]

lemma Accounted.call (h : env.Accounted id n) (hlt : env.current < env.threadCount)
    (hscan : env.scan = none) (hcall : env.call c = .ok (r, env')) :
    env'.Accounted id
      (n + (locked id env (.call c) r env' - unlocked id env (.call c) r env')) := by
  cases c with
  | mutexLock ptr =>
    rw [locked_call rfl, unlocked_of_none rfl rfl, sub_zero]
    exact h.lockAt hlt (MutexObject.static_mutex_ne ptr) hcall
  | mutexTrylock ptr =>
    rw [locked_call rfl, unlocked_of_none rfl rfl, sub_zero]
    exact h.trylock hlt hcall
  | rwlockRdlock ptr | rwlockWrlock ptr =>
    rw [locked_call rfl, unlocked_of_none rfl rfl, sub_zero]
    exact h.lockAt hlt (MutexObject.static_rwlock_ne ptr) hcall
  | rwlockTryrdlock ptr | rwlockTrywrlock ptr =>
    rw [locked_call rfl, unlocked_of_none rfl rfl, sub_zero]
    exact h.rwlockTrylock hlt hcall
  | mutexUnlock ptr =>
    rw [locked_of_none rfl, unlocked_call rfl rfl, zero_sub, neg_ite, neg_zero]
    exact h.unlockAt hlt (MutexObject.static_mutex_ne ptr) hcall
  | rwlockUnlock ptr =>
    rw [locked_of_none rfl, unlocked_call rfl rfl, zero_sub, neg_ite, neg_zero]
    exact h.unlockAt hlt (MutexObject.static_rwlock_ne ptr) hcall
  | condWait cond mutex | condTimedwait cond mutex absTime =>
    rw [locked_of_none rfl, unlocked_wait hscan rfl rfl, zero_sub, neg_ite, neg_zero]
    exact h.wait hlt hcall
  | _ =>
    rw [locked_of_none rfl, unlocked_of_none rfl rfl, sub_zero, add_zero]
    exact h.effect (effect_of_no_lock rfl rfl rfl hcall)

lemma Accounted.sameBlocks (h : env.Accounted id n) (hsame : SameBlocks env env') :
    env'.Accounted id n := h.of_eq hsame.mutexes hsame.mutexCount hsame.threadCount

lemma Accounted.newThread (h : env.Accounted id n) : env.newThread.Accounted id n := by
  have hcount : env.newThread.threadCount = env.threadCount + 1 := rfl
  refine ⟨fun id m hm => ?_, fun m hm => ?_, h.fresh⟩
  · rw [hcount]
    exact (h.fair id m hm).newThread.1
  · rw [hcount, (h.fair id m hm).newThread.2]
    exact h.outstanding m hm

lemma Accounted.passes (h : env.Accounted id n) {scan : Option ℕ}
    (htried : env.Tried t now false e) : ({ e with scan } : Env).Accounted id n := by
  cases htried <;> exact h.of_eq rfl rfl rfl

lemma Accounted.picks (h : env.Accounted id n) (hc : env.Coherent)
    (hpicked : env.Picked t now r env') :
    env'.Accounted id (n + if r ≠ none ∧ env.relocks t = some id then 1 else 0) := by
  have hkept : ∀ {e : Env}, env.relocks t = none → e.mutexes = env.mutexes →
      e.mutexCount = env.mutexCount → e.threadCount = env.threadCount →
        e.Accounted id (n + if r ≠ none ∧ env.relocks t = some id then 1 else 0) := by
    intro e hnone hmutexes hcount hthreads
    simpa [hnone] using h.of_eq hmutexes hcount hthreads
  have hset : ∀ {e : Env} {mutexId mutex}, r ≠ none → env.relocks t = some mutexId →
      env.Free mutexId mutex →
      e.mutexes = update env.mutexes mutexId (some (mutex.relockedBy t)) →
      e.mutexCount = env.mutexCount → e.threadCount = env.threadCount →
        e.Accounted id (n + if r ≠ none ∧ env.relocks t = some id then 1 else 0) := by
    intro e mutexId mutex hr hrelocks hfree hmutexes hcount hthreads
    simpa [hr, hrelocks] using h.set (d := 1) hfree.1 hmutexes hcount hthreads
      ((h.fair _ _ hfree.1).of_eq rfl rfl)
      (by rw [outstanding_relockedBy hfree.2, Nat.cast_add, Nat.cast_one])
  cases hpicked with
  | running hb => exact hkept (by rw [relocks, hb]) rfl rfl rfl
  | slept hcall =>
    have hnone : env.relocks t = none := by
      unfold relocks
      split
      · next hb =>
        have hagrees := hc.agrees t
        rw [hb, hcall] at hagrees
        cases hagrees
      · next cond deadline hb =>
        obtain ⟨mutexId, hwait⟩ := hc.hostCall_of_condition hb
        rw [hcall] at hwait
        cases deadline <;> cases hwait
      · rfl
    exact hkept hnone rfl rfl rfl
  | noSemaphore hb | semaphore hb => exact hkept (by rw [relocks, hb]) rfl rfl rfl
  | lock hb _ hfree | relocked hb _ _ hfree | relockedLate hb _ _ hfree =>
    exact hset (by simp) (by rw [relocks, hb]) hfree rfl rfl rfl
  | woken hb _ hfound hcurr _ hfree | timedOut hb _ hfound hcurr _ hfree =>
    exact hset (by simp) (by simp [relocks, hb, hfound, hcurr]) hfree rfl rfl rfl

lemma Accounted.serve (h : env.Accounted id n) (hc : env.Coherent) {a : Action}
    (hserve : env.serve a = .ok (r, env')) :
    env'.Accounted id (n + (locked id env a r env' - unlocked id env a r env')) := by
  have hnone : ∀ {a}, (∀ c, a ≠ .call c) → (∀ now, a ≠ .visit now) → env'.Accounted id n →
      env'.Accounted id (n + (locked id env a r env' - unlocked id env a r env')) := by
    intro a hcall hvisit h
    cases a with
    | call c => exact absurd rfl (hcall c)
    | visit now => exact absurd rfl (hvisit now)
    | _ => simpa [locked, unlocked] using h
  cases a with
  | call c =>
    unfold Env.serve at hserve
    dsimp only at hserve
    split_ifs at hserve with hscan
    · exact h.call hc.current_lt hscan hserve
    · obtain ⟨rfl, rfl⟩ := ok_pair_inj hserve
      simpa [locked, unlocked, hscan] using h
  | visit now =>
    have hunlocked : unlocked id env (.visit now) r env' = 0 := rfl
    rw [hunlocked, sub_zero]
    cases (hc.serve hserve).1 with
    | aside hquiet hsame =>
      obtain rfl := hquiet.resolve_right fun hq => hq.2 now rfl
      simpa [locked] using h.sameBlocks hsame
    | pass hscan htried => simpa [locked] using h.passes htried
    | pick hscan ht hrun hpicked =>
      have hpicks := h.picks hc hpicked
      rwa [← hpicked.current] at hpicks
  | newThread =>
    cases (hc.serve hserve).1 with
    | aside _ hsame => exact hnone (by simp) (by simp) (h.sameBlocks hsame)
    | newThread => exact hnone (by simp) (by simp) h.newThread
  | store | exitThread | preempt | threadSuspend | threadResume =>
    cases (hc.serve hserve).1 with
    | aside _ hsame => exact hnone (by simp) (by simp) (h.sameBlocks hsame)

lemma accounted_boot (words : ℕ → UInt32) (nullSegmentSize : ℕ) :
    (boot words nullSegmentSize).Accounted id 0 :=
  ⟨by simp [boot], by simp [boot], fun _ => ⟨rfl, rfl⟩⟩

section Ownership

variable {mutex : Mutex}

lemma Accounted.owns_of_unlockAt (h : env.Accounted id n) (hfound : env.mutexes id = some mutex)
    (htype : mutex.type ≠ .normal) (hs : object.static ≠ 0) (hid : env.mutexOf object = some id)
    (hunlock : env.onMutex object.ptr object.magic object.static Env.unlockInner =
      .ok (some 0, env')) : env.Owns id env.current := by
  obtain ⟨hne, hword, m, m', hm, hu, -⟩ := onMutex_unlock_succeeds hs hunlock
  rw [mutexOf, if_neg hne, if_pos hword] at hid
  rw [some.inj hid, hfound] at hm
  obtain rfl := some.inj hm
  exact ⟨mutex, hfound, (h.fair id mutex hfound).heldBy_of_unlocked htype hu⟩

lemma Accounted.owns_of_wait (h : env.Accounted id n) (hfound : env.mutexes id = some mutex)
    (htype : mutex.type ≠ .normal) {cond ptr : ℕ} {deadline : Option ℕ}
    (hid : env.waitMutex cond ptr = some id)
    (hwait : env.releaseAndWait cond ptr deadline = .ok (none, env')) :
    env.Owns id env.current := by
  obtain ⟨-, hr, -⟩ | ⟨e, hcheck, ⟨-, hunlock⟩ | ⟨e₁, hunlock, -⟩⟩ := releaseAndWait_cases hwait
  · cases hr
  · exact absurd rfl (unlock_ne_none hunlock)
  · rw [waitMutex, hcheck] at hid
    have hpath : Path (· ≠ .mutex) env e := path_checkOrRegisterCond hcheck (by simp) (by simp)
    have hmutexes := mutexes_checkOrRegisterCond hcheck
    have howns := (h.path hpath).owns_of_unlockAt (hmutexes ▸ hfound) htype
      (MutexObject.static_mutex_ne ptr) hid hunlock
    rwa [Owns, hmutexes, hpath.sameThreads.current] at howns

lemma Accounted.owns_of_unlocked (h : env.Accounted id n) {a : Action}
    (hserve : env.serve a = .ok (r, env')) (hfound : env.mutexes id = some mutex)
    (htype : mutex.type ≠ .normal) (hunlocked : unlocked id env a r env' ≠ 0) :
    env.Owns id env.current := by
  cases a with
  | call c =>
    unfold Env.serve at hserve
    dsimp only at hserve
    split_ifs at hserve with hscan
    · cases c with
      | mutexUnlock ptr =>
        rw [unlocked_call rfl rfl] at hunlocked
        obtain ⟨rfl, hid⟩ := (ite_ne_right_iff.mp hunlocked).1
        exact h.owns_of_unlockAt hfound htype (MutexObject.static_mutex_ne ptr) hid hserve
      | rwlockUnlock ptr =>
        rw [unlocked_call rfl rfl] at hunlocked
        obtain ⟨rfl, hid⟩ := (ite_ne_right_iff.mp hunlocked).1
        exact h.owns_of_unlockAt hfound htype (MutexObject.static_rwlock_ne ptr) hid hserve
      | condWait cond ptr | condTimedwait cond ptr absTime =>
        rw [unlocked_wait hscan rfl rfl] at hunlocked
        obtain ⟨rfl, hid⟩ := (ite_ne_right_iff.mp hunlocked).1
        exact h.owns_of_wait hfound htype hid hserve
      | _ => exact absurd (unlocked_of_none rfl rfl) hunlocked
    · obtain ⟨rfl, rfl⟩ := ok_pair_inj hserve
      simp [unlocked, hscan] at hunlocked
  | _ => exact absurd rfl hunlocked

lemma Owns.unique {u : ℕ} (h : env.Owns id t) (h' : env.Owns id u) : t = u := by
  obtain ⟨mutex, hmutex, lock, hlock, rfl⟩ := h
  obtain ⟨mutex', hmutex', lock', hlock', rfl⟩ := h'
  obtain rfl := some.inj (hmutex.symm.trans hmutex')
  rw [some.inj (hlock.symm.trans hlock')]

end Ownership

end Steps

section Runs

def lockings (id : ℕ) (env : Env) (a : Action) (r : Option ℤ) (env' : Env) : ℤ × ℤ :=
  (locked id env a r env', unlocked id env a r env')

/-- In every run, the locks of a mutex that were granted, less those given back, are those of its
owner and the phantom locks; there is one owner at most; and unless the mutex is a normal one,
nobody has phantom locks and only the owner can unlock it. -/
theorem exec_locks {words : ℕ → UInt32} {nullSegmentSize : ℕ} {actions : List Action}
    (h : (boot words nullSegmentSize).exec actions = .ok env) (id : ℕ) :
    (∀ mutex, env.mutexes id = some mutex →
      tally serve (locked id) (boot words nullSegmentSize) actions -
          tally serve (unlocked id) (boot words nullSegmentSize) actions =
        mutex.lockCount + ∑ t ∈ range env.threadCount, (mutex.phantomLocks t : ℤ)) ∧
    (∀ t u, env.Owns id t → env.Owns id u → t = u) ∧
    ∀ mutex, env.mutexes id = some mutex → mutex.type ≠ .normal →
      (∀ t, mutex.phantomLocks t = 0) ∧
      ∀ a r env', env.serve a = .ok (r, env') → unlocked id env a r env' ≠ 0 →
        env.Owns id env.current := by
  obtain ⟨hc, hacc⟩ := run_tally (f := lockings id) (p := fun _ _ => True) (n := 0)
    (J := fun env n => env.Coherent ∧ env.Accounted id (n.1 - n.2))
    (fun s a r t n hJ _ hserve => by
      obtain ⟨hc, hacc⟩ := hJ
      refine ⟨(hc.serve hserve).2, ?_⟩
      have hstep := hacc.serve hc hserve
      rwa [sub_add_sub_comm] at hstep)
    ⟨coherent_boot words nullSegmentSize, accounted_boot words nullSegmentSize⟩
    (along_of_forall fun _ _ => trivial) h
  have htally : tally serve (lockings id) (boot words nullSegmentSize) actions =
      (tally serve (locked id) (boot words nullSegmentSize) actions,
        tally serve (unlocked id) (boot words nullSegmentSize) actions) := tally_prodMk
  rw [zero_add, htally] at hacc
  refine ⟨fun mutex hmutex => ?_, fun t u ht hu => ht.unique hu, fun mutex hmutex htype =>
    ⟨(hacc.fair id mutex hmutex).normal htype, fun a r env' hserve hne =>
      hacc.owns_of_unlocked hserve hmutex htype hne⟩⟩
  rw [hacc.outstanding mutex hmutex, Mutex.outstanding, Nat.cast_add, Nat.cast_sum]

theorem exec_locks_waited : ∃ env mutex,
    (boot staticWords 0).exec [.call (.mutexLock 100), .call (.mutexLock 100),
      .call (.mutexUnlock 100), .call (.condTimedwait 200 100 300), .visit epoch] = .ok env ∧
    env.mutexes 0 = some mutex ∧
    tally serve (locked 0) (boot staticWords 0) [.call (.mutexLock 100), .call (.mutexLock 100),
          .call (.mutexUnlock 100), .call (.condTimedwait 200 100 300), .visit epoch] -
        tally serve (unlocked 0) (boot staticWords 0) [.call (.mutexLock 100),
          .call (.mutexLock 100), .call (.mutexUnlock 100), .call (.condTimedwait 200 100 300),
          .visit epoch] =
      mutex.lockCount + ∑ t ∈ range env.threadCount, (mutex.phantomLocks t : ℤ) := by
  have hrun : ((boot staticWords 0).exec [.call (.mutexLock 100), .call (.mutexLock 100),
      .call (.mutexUnlock 100), .call (.condTimedwait 200 100 300), .visit epoch] >>=
        fun env => .ok ((env.mutexes 0).isSome, env.mutexIsLockedBy 0 0)) = .ok (true, true) := by
    decide
  obtain ⟨env, hexec, hstate⟩ := bind_eq_ok.mp hrun
  obtain ⟨hsome, -⟩ := ok_pair_inj hstate
  obtain ⟨mutex, hmutex⟩ := Option.isSome_iff_exists.mp hsome
  exact ⟨env, mutex, hexec, hmutex, (exec_locks hexec 0).1 mutex hmutex⟩

end Runs

end Env

end TouchHle.Threads
