import TouchHle.Lib.Checked

/-! Guest threads and the host's records of what they share: mutexes, condition variables and
semaphores. -/

namespace TouchHle.Threads

open Lib

def EPERM : ℤ := 1
def ENOENT : ℤ := 2
def EDEADLK : ℤ := 11
def EBUSY : ℤ := 16
def EEXIST : ℤ := 17
def EINVAL : ℤ := 22
def EAGAIN : ℤ := 35
def ETIMEDOUT : ℤ := 60

inductive ThreadBlock
  | notBlocked
  | sleeping (due : ℕ)
  | guestSleeping (due : ℕ)
  | mutex (mutexId : ℕ)
  | semaphore (sem : ℕ)
  | condition (cond : ℕ) (deadline : Option ℕ)
  | joining (joinee : ℕ)
  deriving DecidableEq

inductive HostCall
  | lock
  | condWait (cond mutexId : ℕ)
  | condTimedwait (cond mutexId : ℕ)
  | semWait (sem hostSem : ℕ)
  | other
  deriving DecidableEq

structure Thread where
  active : Bool
  blockedBy : ThreadBlock
  suspendCount : ℕ
  hostCall : Option HostCall
  deriving DecidableEq

namespace Thread

def idle : Thread := ⟨false, .notBlocked, 0, none⟩

def started : Thread := ⟨true, .notBlocked, 0, none⟩

def isBlocked (thread : Thread) : Prop := thread.blockedBy ≠ .notBlocked ∨ thread.suspendCount ≠ 0

instance (thread : Thread) : Decidable thread.isBlocked := inferInstanceAs (Decidable (_ ∨ _))

def freed (thread : Thread) : Thread := { thread with blockedBy := .notBlocked, hostCall := none }

@[simp] lemma freed_blockedBy (thread : Thread) : thread.freed.blockedBy = .notBlocked := rfl

@[simp] lemma freed_hostCall (thread : Thread) : thread.freed.hostCall = none := rfl

end Thread

inductive MutexType
  | normal
  | errorcheck
  | recursive
  deriving DecidableEq

def pthreadMutexDefault : MutexType := .normal

structure Lock where
  thread : ℕ
  count : ℕ
  count_pos : 0 < count

lemma Lock.fields_inj {a b : Lock} : a.thread = b.thread ∧ a.count = b.count ↔ a = b := by
  constructor
  · rintro ⟨hthread, hcount⟩
    cases a
    cases b
    cases hthread
    cases hcount
    rfl
  · rintro rfl
    exact ⟨rfl, rfl⟩

instance : DecidableEq Lock := fun _ _ => decidable_of_iff _ Lock.fields_inj

def Lock.once (thread : ℕ) : Lock := ⟨thread, 1, one_pos⟩

structure Mutex where
  type : MutexType
  waitingCount : ℕ
  locked : Option Lock
  /-- Per thread, the self-locks of a normal mutex that were granted without effect. -/
  phantomLocks : ℕ → ℕ
  nested : ∀ lock ∈ locked, lock.count ≠ 1 → type = .recursive

def Mutex.new (type : MutexType) : Mutex := ⟨type, 0, none, fun _ => 0, by simp⟩

structure CondHostObject where
  waiting : List ℕ
  waking : List ℕ
  currMutex : Option ℕ
  timedOut : Finset ℕ
  deriving DecidableEq

def CondHostObject.new : CondHostObject := ⟨[], [], none, ∅⟩

structure SemaphoreHostObject where
  value : ℤ
  waiting : Finset ℕ
  guestSem : Option ℕ
  named : Bool
  deriving DecidableEq

/-- The semaphores, by name and by guest address; both tables hold shared references to host
objects, numbered in the order of their creation. -/
structure Semaphores where
  hostSems : ℕ → SemaphoreHostObject
  hostSemCount : ℕ
  namedSemaphores : String → Option ℕ
  openSemaphores : ℕ → Option ℕ

structure Env where
  /-- The words of guest memory by their address. -/
  words : ℕ → UInt32
  nullSegmentSize : ℕ
  errno : ℕ → ℤ
  threads : ℕ → Thread
  threadCount : ℕ
  current : ℕ
  /-- The loop index of `schedule_next_thread` while it looks for a thread to run. -/
  scan : Option ℕ
  mutexes : ℕ → Option Mutex
  mutexCount : ℕ
  conds : ℕ → Option CondHostObject
  semaphores : Semaphores

namespace Env

def boot (words : ℕ → UInt32) (nullSegmentSize : ℕ) : Env where
  words := words
  nullSegmentSize := nullSegmentSize
  errno := fun _ => 0
  threads := Function.update (fun _ => .idle) 0 .started
  threadCount := 1
  current := 0
  scan := none
  mutexes := fun _ => none
  mutexCount := 0
  conds := fun _ => none
  semaphores := ⟨fun _ => ⟨0, ∅, none, false⟩, 0, fun _ => none, fun _ => none⟩

def setErrno (env : Env) (val : ℤ) : Env :=
  { env with errno := Function.update env.errno env.current val }

def readWord (env : Env) (ptr offset : ℕ) : UInt32 :=
  if ptr < env.nullSegmentSize then 0 else env.words (ptr + offset)

def writeWords (env : Env) (ptr : ℕ) (object : List UInt32) : Env :=
  if ptr < env.nullSegmentSize then env
  else
    { env with
      words := fun addr =>
        if ptr ≤ addr ∧ (addr - ptr) % 4 = 0 then
          object.getD ((addr - ptr) / 4) (env.words addr)
        else env.words addr }

def setThread (env : Env) (threadId : ℕ) (thread : Thread) : Env :=
  { env with threads := Function.update env.threads threadId thread }

def setMutex (env : Env) (mutexId : ℕ) (mutex : Mutex) : Env :=
  { env with mutexes := Function.update env.mutexes mutexId (some mutex) }

def setCond (env : Env) (cond : ℕ) (object : CondHostObject) : Env :=
  { env with conds := Function.update env.conds cond (some object) }

def unblock (env : Env) (threadId : ℕ) : Env :=
  env.setThread threadId { env.threads threadId with blockedBy := .notBlocked }

def suspend (env : Env) (threadBlock : ThreadBlock) (hostCall : Option HostCall) : Env :=
  let thread := { env.threads env.current with blockedBy := threadBlock, hostCall }
  { env.setThread env.current thread with scan := some 0 }

def yieldThread (env : Env) (threadBlock : ThreadBlock) (hostCall : Option HostCall) :
    Checked Env := do
  assert (¬ (env.threads env.current).isBlocked)
  return env.suspend threadBlock hostCall

end Env

def u64Bound : ℕ := 2 ^ 64

namespace Lock

def again (lock : Lock) : Checked Lock :=
  if lock.count + 1 < u32Bound then return ⟨lock.thread, lock.count + 1, Nat.succ_pos _⟩
  else .error .unwrap

def onceLess (lock : Lock) : Checked Lock :=
  if h : 0 < lock.count - 1 then return ⟨lock.thread, lock.count - 1, h⟩ else .error .unwrap

end Lock

namespace Mutex

def lockedOnceBy (mutex : Mutex) (thread : ℕ) : Mutex :=
  { mutex with locked := some (.once thread), nested := by simp [Lock.once] }

def relockedBy (mutex : Mutex) (thread : ℕ) : Mutex :=
  { mutex.lockedOnceBy thread with waitingCount := mutex.waitingCount - 1 }

def released (mutex : Mutex) : Mutex := { mutex with locked := none, nested := by simp }

def lockedAs (mutex : Mutex) (lock : Lock) (h : mutex.type = .recursive) : Mutex :=
  { mutex with locked := some lock, nested := fun _ _ _ => h }

def setPhantomLocks (mutex : Mutex) (thread count : ℕ) : Mutex :=
  { mutex with phantomLocks := Function.update mutex.phantomLocks thread count }

end Mutex

namespace Env

def initMutex (env : Env) (type : MutexType) : Checked (ℕ × Env) :=
  if env.mutexCount + 1 < u64Bound then
    return (env.mutexCount,
      { env.setMutex env.mutexCount (.new type) with mutexCount := env.mutexCount + 1 })
  else .error .unwrap

def errOrZero {α : Type} : Except ℤ α → ℤ
  | .error e => e
  | .ok _ => 0

def destroyMutex (env : Env) (mutexId : ℕ) : Checked (Except ℤ Unit × Env) := do
  let mutex ← unwrap (env.mutexes mutexId)
  if mutex.locked ≠ none then return (.error EBUSY, env)
  else if mutex.waitingCount ≠ 0 then return (.error EBUSY, env)
  else return (.ok (), { env with mutexes := Function.update env.mutexes mutexId none })

def mutexIsLocked (env : Env) (mutexId : ℕ) : Bool :=
  (env.mutexes mutexId).any fun mutex => mutex.locked.isSome

def mutexIsRecursive (env : Env) (mutexId : ℕ) : Bool :=
  (env.mutexes mutexId).any fun mutex => mutex.type = .recursive

def mutexIsLockedBy (env : Env) (mutexId thread : ℕ) : Bool :=
  (env.mutexes mutexId).any fun mutex => mutex.locked.any fun lock => lock.thread = thread

def relockUnblockedMutexForThread (env : Env) (threadId mutexId : ℕ) : Checked Env := do
  let mutex ← unwrap (env.mutexes mutexId)
  assert (mutex.locked = none)
  return env.setMutex mutexId (mutex.relockedBy threadId)

def lockMutex (env : Env) (mutexId : ℕ) : Checked (Option (Except ℤ ℕ) × Env) := do
  let mutex ← unwrap (env.mutexes mutexId)
  match mutex.locked with
  | none => return (some (.ok 1), env.setMutex mutexId (mutex.lockedOnceBy env.current))
  | some lock =>
    if lock.thread = env.current then
      match h : mutex.type with
      | .normal => do
        let count ← addU32 (mutex.phantomLocks env.current) 1
        return (some (.ok 1), env.setMutex mutexId (mutex.setPhantomLocks env.current count))
      | .errorcheck => return (some (.error EDEADLK), env)
      | .recursive => do
        let lock ← lock.again
        return (some (.ok lock.count), env.setMutex mutexId (mutex.lockedAs lock h))
    else do
      let waitingCount ← addU32 mutex.waitingCount 1
      let env := env.setMutex mutexId { mutex with waitingCount }
      let env ← env.yieldThread (.mutex mutexId) (some .lock)
      return (none, env)

def unlockMutex (env : Env) (mutexId : ℕ) : Checked (Except ℤ ℕ × Env) := do
  let mutex ← unwrap (env.mutexes mutexId)
  let phantomCount := mutex.phantomLocks env.current
  -- A phantom lock is given back first, whoever holds the mutex.
  if 0 < phantomCount then
    return (.ok 0, env.setMutex mutexId (mutex.setPhantomLocks env.current (phantomCount - 1)))
  else
    match mutex.locked with
    | none => return (.error EPERM, env)
    | some lock =>
      if lock.thread ≠ env.current ∧ mutex.type ≠ .normal then return (.error EPERM, env)
      else if lock.count = 1 then return (.ok 0, env.setMutex mutexId mutex.released)
      else if h : mutex.type = .recursive then do
        let lock ← lock.onceLess
        return (.ok lock.count, env.setMutex mutexId (mutex.lockedAs lock h))
      else .error .assertion

end Env

def i32Bound : ℤ := 2 ^ 31

def addI32 (x y : ℤ) : Checked ℤ := if x + y < i32Bound then .ok (x + y) else .error .overflow

def asI32 (value : ℕ) : ℤ := if (value : ℤ) < i32Bound then value else value - 2 ^ 32

structure OpenFlags where
  create : Bool
  excl : Bool

def semFailed : ℤ := 2 ^ 32 - 1

namespace Semaphores

def set (sems : Semaphores) (hostSem : ℕ) (object : SemaphoreHostObject) : Semaphores :=
  { sems with hostSems := Function.update sems.hostSems hostSem object }

def create (sems : Semaphores) (object : SemaphoreHostObject) : Semaphores :=
  { sems.set sems.hostSemCount object with hostSemCount := sems.hostSemCount + 1 }

def setOpen (sems : Semaphores) (sem : ℕ) (hostSem : Option ℕ) : Semaphores :=
  { sems with openSemaphores := Function.update sems.openSemaphores sem hostSem }

def setNamed (sems : Semaphores) (name : String) (hostSem : Option ℕ) : Semaphores :=
  { sems with namedSemaphores := Function.update sems.namedSemaphores name hostSem }

end Semaphores

namespace Env

def setHostSem (env : Env) (hostSem : ℕ) (object : SemaphoreHostObject) : Env :=
  { env with semaphores := env.semaphores.set hostSem object }

def semDecrement (env : Env) (sem : ℕ) (waitOnLock : Bool) : Checked (Option Bool × Env) :=
  match env.semaphores.openSemaphores sem with
  | none => return (some false, env)
  | some hostSem =>
    let object := env.semaphores.hostSems hostSem
    if 0 < object.value then
      return (some true, env.setHostSem hostSem { object with value := object.value - 1 })
    else if waitOnLock then do
      let env := env.setHostSem hostSem
        { object with waiting := insert env.current object.waiting }
      let env ← env.yieldThread (.semaphore sem) (some (.semWait sem hostSem))
      return (none, env)
    else return (some false, env)

def semIncrement (env : Env) (sem : ℕ) : Checked (Bool × Env) :=
  match env.semaphores.openSemaphores sem with
  | none => return (false, env)
  | some hostSem => do
    let object := env.semaphores.hostSems hostSem
    let value ← addI32 object.value 1
    return (true, env.setHostSem hostSem { object with value })

def fail (env : Env) (e : ℤ) : Option ℤ × Env := (some (-1), env.setErrno e)

def semInit (env : Env) (sem : ℕ) (pshared : ℤ) (value : Fin u32Bound) :
    Checked (Option ℤ × Env) := do
  let env := env.setErrno 0
  assert (pshared = 0)
  if (env.semaphores.openSemaphores sem).isSome then return (some 0, env)
  else
    let hostSem := env.semaphores.hostSemCount
    let sems := env.semaphores.create ⟨asI32 value, ∅, some sem, false⟩
    return (some 0, { env with semaphores := sems.setOpen sem (some hostSem) })

def semDestroy (env : Env) (sem : ℕ) : Checked (Option ℤ × Env) :=
  match env.semaphores.openSemaphores sem with
  | none => return (some EINVAL, env)
  | some hostSem => do
    let env := { env with semaphores := env.semaphores.setOpen sem none }
    assert (¬ (env.semaphores.hostSems hostSem).named)
    return (some 0, env)

def openAt (env : Env) (sem hostSem : ℕ) : Option ℤ × Env :=
  let object := env.semaphores.hostSems hostSem
  let sems := env.semaphores.set hostSem { object with guestSem := some sem }
  (some sem, { env with semaphores := sems.setOpen sem (some hostSem) })

def semOpen (env : Env) (name : String) (oflag : OpenFlags) (value : Fin u32Bound) (sem : ℕ) :
    Checked (Option ℤ × Env) :=
  let env := env.setErrno 0
  match env.semaphores.namedSemaphores name with
  | some hostSem =>
    if oflag.excl then return (some semFailed, env.setErrno EEXIST)
    else
      match (env.semaphores.hostSems hostSem).guestSem with
      | some existingSem => return (some existingSem, env)
      | none => return env.openAt sem hostSem
  | none =>
    if !oflag.create then return (some semFailed, env.setErrno ENOENT)
    else
      let hostSem := env.semaphores.hostSemCount
      let sems := env.semaphores.create ⟨asI32 value, ∅, none, true⟩
      return openAt { env with semaphores := sems.setNamed name (some hostSem) } sem hostSem

def semPost (env : Env) (sem : ℕ) : Checked (Option ℤ × Env) := do
  let (posted, env) ← (env.setErrno 0).semIncrement sem
  if posted then return (some 0, env) else return env.fail EINVAL

def semWait (env : Env) (sem : ℕ) : Checked (Option ℤ × Env) := do
  match ← (env.setErrno 0).semDecrement sem true with
  | (none, env) => return (none, env)
  | (some true, env) => return (some 0, env)
  | (some false, env) => return env.fail EINVAL

def semTrywait (env : Env) (sem : ℕ) : Checked (Option ℤ × Env) := do
  match ← (env.setErrno 0).semDecrement sem false with
  | (none, env) => return (none, env)
  | (some true, env) => return (some 0, env)
  | (some false, env) =>
    if (env.semaphores.openSemaphores sem).isSome then return env.fail EAGAIN
    else return env.fail EINVAL

def semGetvalue (env : Env) (sem sval : ℕ) : Checked (Option ℤ × Env) :=
  let env := env.setErrno 0
  match env.semaphores.openSemaphores sem with
  | none => return env.fail EINVAL
  | some hostSem =>
    let object := env.semaphores.hostSems hostSem
    let reported := if 0 < object.value then object.value else -object.waiting.card
    if sval = 0 then return (some 0, env)
    else return (some 0, env.writeWords sval [.ofInt reported])

def semClose (env : Env) (sem : ℕ) : Checked (Option ℤ × Env) :=
  let env := env.setErrno 0
  match env.semaphores.openSemaphores sem with
  | none => return env.fail EINVAL
  | some hostSem =>
    let object := env.semaphores.hostSems hostSem
    if !object.named then return env.fail EINVAL
    else
      let sems := env.semaphores.setOpen sem none
      return (some 0, { env with semaphores := sems.set hostSem { object with guestSem := none } })

def semUnlink (env : Env) (name : String) : Checked (Option ℤ × Env) :=
  let env := env.setErrno 0
  return (some 0, { env with semaphores := env.semaphores.setNamed name none })

end Env

end TouchHle.Threads
