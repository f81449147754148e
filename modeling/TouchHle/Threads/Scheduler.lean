import TouchHle.Threads.Environment
import TouchHle.Lib.Runs

namespace TouchHle.Threads

open Lib

def magicMutexattr : UInt32 := 0x4D754174
def magicMutex : UInt32 := 0x4D555458
def magicMutexStatic : UInt32 := 0x32AAABA7

def magicRwlockattr : UInt32 := 0x52774174
def magicRwlock : UInt32 := 0x52574C4B
def magicRwlockStatic : UInt32 := 0x2DA8B3B4

def magicCond : UInt32 := 0x434F4E44
def magicCondStatic : UInt32 := 0x3CB0B1BB

def MutexType.tryFrom (value : UInt32) : Option MutexType :=
  if value = 0 then some .normal
  else if value = 1 then some .errorcheck
  else if value = 2 then some .recursive
  else none

def CondHostObject.wake (object : CondHostObject) (count : ℕ) : CondHostObject :=
  { object with
    waiting := object.waiting.drop count
    waking := object.waking ++ object.waiting.take count }

def waitCall (cond mutexId : ℕ) : Option ℕ → HostCall
  | none => .condWait cond mutexId
  | some _ => .condTimedwait cond mutexId

namespace Env

section MutexWords

def readMutexId (env : Env) (ptr : ℕ) : ℕ :=
  (env.readWord ptr 4).toNat + 2 ^ 32 * (env.readWord ptr 8).toNat

def writeMutex (env : Env) (ptr : ℕ) (magic : UInt32) (mutexId : ℕ) : Env :=
  env.writeWords ptr [magic, .ofNat mutexId, .ofNat (mutexId / 2 ^ 32)]

def newMutexAt (env : Env) (ptr : ℕ) (magic : UInt32) (type : MutexType) : Checked Env := do
  let (mutexId, env) ← env.initMutex type
  return env.writeMutex ptr magic mutexId

def checkOrRegister (env : Env) (ptr : ℕ) (magic static : UInt32) : Checked (Except ℤ Env) :=
  if env.readWord ptr 0 = static then .ok <$> env.newMutexAt ptr magic pthreadMutexDefault
  else if env.readWord ptr 0 = magic then return .ok env
  else return .error EINVAL

def onMutex (env : Env) (ptr : ℕ) (magic static : UInt32)
    (operation : Env → ℕ → Checked (Option ℤ × Env)) : Checked (Option ℤ × Env) := do
  match ← env.checkOrRegister ptr magic static with
  | .error e => return (some e, env)
  | .ok env => operation env (env.readMutexId ptr)

def lockInner (env : Env) (mutexId : ℕ) : Checked (Option ℤ × Env) := do
  let (result, env) ← env.lockMutex mutexId
  return (result.map errOrZero, env)

def unlockInner (env : Env) (mutexId : ℕ) : Checked (Option ℤ × Env) := do
  let (result, env) ← env.unlockMutex mutexId
  return (some (errOrZero result), env)

def destroyInner (env : Env) (mutexId : ℕ) : Checked (Option ℤ × Env) := do
  let (result, env) ← env.destroyMutex mutexId
  return (some (errOrZero result), env)

def noMutexId : ℕ := 0xFFFFFFFFFFFFFFFF

end MutexWords

section Mutex

def pthreadMutexInit (env : Env) (mutex attr : ℕ) : Checked (Option ℤ × Env) :=
  if attr = 0 then do
    let env ← env.newMutexAt mutex magicMutex pthreadMutexDefault
    return (some 0, env)
  else if env.readWord attr 0 ≠ magicMutexattr then return (some EINVAL, env)
  else do
    let type ← unwrap (MutexType.tryFrom (env.readWord attr 4))
    let env ← env.newMutexAt mutex magicMutex type
    return (some 0, env)

def pthreadMutexLock (env : Env) (mutex : ℕ) : Checked (Option ℤ × Env) :=
  env.onMutex mutex magicMutex magicMutexStatic lockInner

def pthreadMutexTrylock (env : Env) (mutex : ℕ) : Checked (Option ℤ × Env) :=
  env.onMutex mutex magicMutex magicMutexStatic fun env mutexId =>
    if env.mutexIsLocked mutexId
        && !(env.mutexIsRecursive mutexId && env.mutexIsLockedBy mutexId env.current) then
      return (some EBUSY, env)
    else env.pthreadMutexLock mutex

def pthreadMutexUnlock (env : Env) (mutex : ℕ) : Checked (Option ℤ × Env) :=
  env.onMutex mutex magicMutex magicMutexStatic unlockInner

def pthreadMutexDestroy (env : Env) (mutex : ℕ) : Checked (Option ℤ × Env) :=
  env.onMutex mutex magicMutex magicMutexStatic fun env mutexId =>
    (env.writeMutex mutex 0 noMutexId).destroyInner mutexId

end Mutex

section Rwlock

def pthreadRwlockInit (env : Env) (rwlock attr : ℕ) : Checked (Option ℤ × Env) :=
  if attr ≠ 0 ∧ env.readWord attr 0 ≠ magicRwlockattr then return (some EINVAL, env)
  else do
    let env ← env.newMutexAt rwlock magicRwlock pthreadMutexDefault
    return (some 0, env)

def rwlockLockInner (env : Env) (rwlock : ℕ) : Checked (Option ℤ × Env) :=
  env.onMutex rwlock magicRwlock magicRwlockStatic lockInner

def rwlockTrylockInner (env : Env) (rwlock : ℕ) : Checked (Option ℤ × Env) :=
  env.onMutex rwlock magicRwlock magicRwlockStatic fun env mutexId =>
    if env.mutexIsLocked mutexId then return (some EBUSY, env) else env.lockInner mutexId

def pthreadRwlockRdlock (env : Env) (rwlock : ℕ) := env.rwlockLockInner rwlock

def pthreadRwlockTryrdlock (env : Env) (rwlock : ℕ) := env.rwlockTrylockInner rwlock

def pthreadRwlockWrlock (env : Env) (rwlock : ℕ) := env.rwlockLockInner rwlock

def pthreadRwlockTrywrlock (env : Env) (rwlock : ℕ) := env.rwlockTrylockInner rwlock

def pthreadRwlockUnlock (env : Env) (rwlock : ℕ) : Checked (Option ℤ × Env) :=
  env.onMutex rwlock magicRwlock magicRwlockStatic unlockInner

def pthreadRwlockDestroy (env : Env) (rwlock : ℕ) : Checked (Option ℤ × Env) :=
  env.onMutex rwlock magicRwlock magicRwlockStatic fun env mutexId =>
    (env.writeMutex rwlock 0 noMutexId).destroyInner mutexId

end Rwlock

section Cond

def pthreadCondInit (env : Env) (cond : ℕ) : Env :=
  (env.writeWords cond [magicCond, 0, 0, 0, 0, 0, 0]).setCond cond .new

def checkOrRegisterCond (env : Env) (cond : ℕ) : Except ℤ Env :=
  if env.readWord cond 0 = magicCondStatic then .ok (env.pthreadCondInit cond)
  else if env.readWord cond 0 = magicCond then .ok env
  else .error EINVAL

def readDeadline (env : Env) (absTime : ℕ) : ℕ :=
  (env.readWord absTime 0).toInt32.toInt.toNat * 10 ^ 9
    + (env.readWord absTime 4).toInt32.toInt.toNat

def waitOnCond (env : Env) (cond mutexId : ℕ) (deadline : Option ℕ) :
    Checked (Option ℤ × Env) := do
  let hostObject ← unwrap (env.conds cond)
  assert (hostObject.currMutex = some mutexId
    ∨ hostObject.waking = [] ∧ hostObject.waiting = [])
  let env := env.setCond cond
    { hostObject with
      currMutex := some mutexId, waiting := hostObject.waiting ++ [env.current] }
  let env ← env.yieldThread (.condition cond deadline) (some (waitCall cond mutexId deadline))
  return (none, env)

def releaseAndWait (env : Env) (cond mutex : ℕ) (deadline : Option ℕ) : Checked (Option ℤ × Env) :=
  match env.checkOrRegisterCond cond with
  | .error e => return (some e, env)
  | .ok env => do
    let (result, env) ← env.pthreadMutexUnlock mutex
    if result ≠ some 0 then return (result, env)
    else env.waitOnCond cond (env.readMutexId mutex) deadline

def pthreadCondTimedwait (env : Env) (cond mutex absTime : ℕ) : Checked (Option ℤ × Env) :=
  env.releaseAndWait cond mutex (some (env.readDeadline absTime))

def pthreadCondWait (env : Env) (cond mutex : ℕ) : Checked (Option ℤ × Env) :=
  env.releaseAndWait cond mutex none

def pthreadCondSignal (env : Env) (cond : ℕ) : Checked (Option ℤ × Env) :=
  match env.checkOrRegisterCond cond with
  | .error e => return (some e, env)
  | .ok env => do
    let hostObject ← unwrap (env.conds cond)
    return (some 0, env.setCond cond (hostObject.wake 1))

def pthreadCondBroadcast (env : Env) (cond : ℕ) : Checked (Option ℤ × Env) :=
  match env.checkOrRegisterCond cond with
  | .error e => return (some e, env)
  | .ok env => do
    let hostObject ← unwrap (env.conds cond)
    return (some 0, env.setCond cond (hostObject.wake hostObject.waiting.length))

def pthreadCondDestroy (env : Env) (cond : ℕ) : Checked (Option ℤ × Env) :=
  match env.checkOrRegisterCond cond with
  | .error e => return (some e, env)
  | .ok env => do
    let oldObject ← unwrap (env.conds cond)
    assert (oldObject.waiting = [] ∧ oldObject.waking = [])
    return (some 0, { env with conds := Function.update env.conds cond none })

end Cond

end Env

structure Clock where
  instant : ℕ
  guest : ℕ
  system : ℕ

def KERN_SUCCESS : ℤ := 0
def KERN_INVALID_ARGUMENT : ℤ := 4

namespace Env

def unblockedOnMutex (env : Env) (threadId mutexId : ℕ) : Checked (Bool × Env) := do
  if env.mutexIsLocked mutexId then return (false, env)
  else
    let env ← (env.unblock threadId).relockUnblockedMutexForThread threadId mutexId
    return (true, env)

def unblockedOnSemaphore (env : Env) (threadId sem : ℕ) : Checked (Bool × Env) :=
  match env.semaphores.openSemaphores sem with
  | none => return (true, env.unblock threadId)
  | some hostSem =>
    let object := env.semaphores.hostSems hostSem
    if 0 < object.value then
      let env := env.setHostSem hostSem
        { object with value := object.value - 1, waiting := object.waiting.erase threadId }
      return (true, env.unblock threadId)
    else return (false, env)

def timeOut (env : Env) (threadId cond mutexId : ℕ) (hostCond : CondHostObject) :
    Checked (Bool × Env) := do
  assert (threadId ∉ hostCond.timedOut)
  let env := env.setCond cond
    { hostCond with
      timedOut := insert threadId hostCond.timedOut
      waking := hostCond.waking.filter (· ≠ threadId)
      waiting := hostCond.waiting.filter (· ≠ threadId) }
  if env.mutexIsLocked mutexId then
    let thread := { env.threads threadId with blockedBy := .mutex mutexId }
    return (false, env.setThread threadId thread)
  else
    let env ← (env.unblock threadId).relockUnblockedMutexForThread threadId mutexId
    return (true, env)

def unblockedOnCondition (env : Env) (threadId cond : ℕ) (deadline : Option ℕ) (now : Clock) :
    Checked (Bool × Env) := do
  let hostCond ← unwrap (env.conds cond)
  let mutexId ← unwrap hostCond.currMutex
  if hostCond.waking.head? = some threadId ∧ !env.mutexIsLocked mutexId then
    let env := env.setCond cond { hostCond with waking := hostCond.waking.tail }
    let env ← (env.unblock threadId).relockUnblockedMutexForThread threadId mutexId
    return (true, env)
  else if deadline.any (· ≤ now.system) then env.timeOut threadId cond mutexId hostCond
  else return (false, env)

def tryCandidate (env : Env) (threadId : ℕ) (now : Clock) : Checked (Bool × Env) :=
  if !(env.threads threadId).active then return (false, env)
  else if 0 < (env.threads threadId).suspendCount then return (false, env)
  else
    match (env.threads threadId).blockedBy with
    | .sleeping due =>
      return if due ≤ now.instant then (true, env.unblock threadId) else (false, env)
    | .guestSleeping due =>
      return if due ≤ now.guest then (true, env.unblock threadId) else (false, env)
    | .mutex mutexId => env.unblockedOnMutex threadId mutexId
    | .semaphore sem => env.unblockedOnSemaphore threadId sem
    | .condition cond deadline => env.unblockedOnCondition threadId cond deadline now
    | .joining joinee =>
      if env.threadCount ≤ joinee then .error .index
      else if !(env.threads joinee).active then return (true, env.unblock threadId)
      else return (false, env)
    | .notBlocked => return (true, env)

def finish (env : Env) : HostCall → Checked (Option ℤ × Env)
  | .lock | .semWait .. | .other => return (some 0, env)
  | .condWait cond _ => do
    let hostObject ← unwrap (env.conds cond)
    assert (env.current ∉ hostObject.timedOut)
    return (some 0, env)
  | .condTimedwait cond _ => do
    let hostObject ← unwrap (env.conds cond)
    if env.current ∈ hostObject.timedOut then
      let timedOut := hostObject.timedOut.erase env.current
      return (some ETIMEDOUT, env.setCond cond { hostObject with timedOut })
    else return (some 0, env)

def resume (env : Env) : Checked (Option ℤ × Env) := do
  let thread := env.threads env.current
  assert (¬ thread.isBlocked)
  let env := env.setThread env.current { thread with hostCall := none }
  match thread.hostCall with
  | none => return (none, env)
  | some hostCall => env.finish hostCall

def visit (env : Env) (now : Clock) : Checked (Option ℤ × Env) :=
  match env.scan with
  | none => return (none, env)
  | some i => do
    let threadId := (env.current + 1 + i) % env.threadCount
    let (picked, env) ← env.tryCandidate threadId now
    if picked then resume { env with current := threadId, scan := none }
    else return (none, { env with scan := some ((i + 1) % env.threadCount) })

def newThread (env : Env) : Env :=
  { env.setThread env.threadCount .started with threadCount := env.threadCount + 1 }

def exitThread (env : Env) : Env :=
  { env.setThread env.current { env.threads env.current with active := false } with
    scan := some 0 }

def sleep (env : Env) (threadBlock : ThreadBlock) : Checked (Option ℤ × Env) := do
  let env ← env.yieldThread threadBlock (some .other)
  return (none, env)

def joinWithThread (env : Env) (joinee : ℕ) : Checked (Option ℤ × Env) :=
  if env.threadCount ≤ joinee then .error .index else env.sleep (.joining joinee)

def suspendThread (env : Env) (threadId : ℕ) : Env :=
  let thread := env.threads threadId
  let env := env.setThread threadId { thread with suspendCount := thread.suspendCount + 1 }
  if threadId = env.current then { env with scan := some 0 } else env

def resumeThread (env : Env) (threadId : ℕ) : Env :=
  let thread := env.threads threadId
  env.setThread threadId { thread with suspendCount := thread.suspendCount - 1 }

def targetThread (env : Env) (targetAct : ℕ) : Option ℕ :=
  if 0 < targetAct ∧ targetAct - 1 < env.threadCount then some (targetAct - 1) else none

def threadSuspend (env : Env) (targetAct : ℕ) : Checked (Option ℤ × Env) :=
  match env.targetThread targetAct with
  | none => return (some KERN_INVALID_ARGUMENT, env)
  | some threadId => return (some KERN_SUCCESS, env.suspendThread threadId)

def threadResume (env : Env) (targetAct : ℕ) : Checked (Option ℤ × Env) :=
  match env.targetThread targetAct with
  | none => return (some KERN_INVALID_ARGUMENT, env)
  | some threadId => return (some KERN_SUCCESS, env.resumeThread threadId)

end Env

inductive Call
  | mutexInit (mutex attr : ℕ)
  | mutexLock (mutex : ℕ)
  | mutexTrylock (mutex : ℕ)
  | mutexUnlock (mutex : ℕ)
  | mutexDestroy (mutex : ℕ)
  | rwlockInit (rwlock attr : ℕ)
  | rwlockRdlock (rwlock : ℕ)
  | rwlockTryrdlock (rwlock : ℕ)
  | rwlockWrlock (rwlock : ℕ)
  | rwlockTrywrlock (rwlock : ℕ)
  | rwlockUnlock (rwlock : ℕ)
  | rwlockDestroy (rwlock : ℕ)
  | condInit (cond : ℕ)
  | condWait (cond mutex : ℕ)
  | condTimedwait (cond mutex absTime : ℕ)
  | condSignal (cond : ℕ)
  | condBroadcast (cond : ℕ)
  | condDestroy (cond : ℕ)
  | semInit (sem : ℕ) (pshared : ℤ) (value : Fin u32Bound)
  | semDestroy (sem : ℕ)
  | semOpen (name : String) (oflag : OpenFlags) (value : Fin u32Bound) (sem : ℕ)
  | semPost (sem : ℕ)
  | semWait (sem : ℕ)
  | semTrywait (sem : ℕ)
  | semGetvalue (sem sval : ℕ)
  | semClose (sem : ℕ)
  | semUnlink (name : String)
  | sleep (due : ℕ)
  | sleepGuest (due : ℕ)
  | join (joinee : ℕ)

inductive Action
  | call (c : Call)
  | store (ptr : ℕ) (word : UInt32)
  | newThread
  | exitThread
  | preempt
  | threadSuspend (targetAct : ℕ)
  | threadResume (targetAct : ℕ)
  | visit (now : Clock)

namespace Env

def call (env : Env) : Call → Checked (Option ℤ × Env)
  | .mutexInit mutex attr => env.pthreadMutexInit mutex attr
  | .mutexLock mutex => env.pthreadMutexLock mutex
  | .mutexTrylock mutex => env.pthreadMutexTrylock mutex
  | .mutexUnlock mutex => env.pthreadMutexUnlock mutex
  | .mutexDestroy mutex => env.pthreadMutexDestroy mutex
  | .rwlockInit rwlock attr => env.pthreadRwlockInit rwlock attr
  | .rwlockRdlock rwlock => env.pthreadRwlockRdlock rwlock
  | .rwlockTryrdlock rwlock => env.pthreadRwlockTryrdlock rwlock
  | .rwlockWrlock rwlock => env.pthreadRwlockWrlock rwlock
  | .rwlockTrywrlock rwlock => env.pthreadRwlockTrywrlock rwlock
  | .rwlockUnlock rwlock => env.pthreadRwlockUnlock rwlock
  | .rwlockDestroy rwlock => env.pthreadRwlockDestroy rwlock
  | .condInit cond => return (some 0, env.pthreadCondInit cond)
  | .condWait cond mutex => env.pthreadCondWait cond mutex
  | .condTimedwait cond mutex absTime => env.pthreadCondTimedwait cond mutex absTime
  | .condSignal cond => env.pthreadCondSignal cond
  | .condBroadcast cond => env.pthreadCondBroadcast cond
  | .condDestroy cond => env.pthreadCondDestroy cond
  | .semInit sem pshared value => env.semInit sem pshared value
  | .semDestroy sem => env.semDestroy sem
  | .semOpen name oflag value sem => env.semOpen name oflag value sem
  | .semPost sem => env.semPost sem
  | .semWait sem => env.semWait sem
  | .semTrywait sem => env.semTrywait sem
  | .semGetvalue sem sval => env.semGetvalue sem sval
  | .semClose sem => env.semClose sem
  | .semUnlink name => env.semUnlink name
  | .sleep due => env.sleep (.sleeping due)
  | .sleepGuest due => env.sleep (.guestSleeping due)
  | .join joinee => env.joinWithThread joinee

def act (env : Env) : Action → Checked (Option ℤ × Env)
  | .call c => env.call c
  | .store ptr word => return (none, env.writeWords ptr [word])
  | .newThread => return (none, env.newThread)
  | .exitThread => return (none, env.exitThread)
  | .preempt => Prod.mk none <$> env.yieldThread .notBlocked none
  | .threadSuspend targetAct => env.threadSuspend targetAct
  | .threadResume targetAct => env.threadResume targetAct
  | .visit _ => return (none, env)

def serve (env : Env) : Action → Checked (Option ℤ × Env)
  | .visit now => env.visit now
  | a => if env.scan = none then env.act a else return (none, env)

def step (env : Env) (a : Action) : Checked Env := Prod.snd <$> env.serve a

def exec (env : Env) (actions : List Action) : Checked Env := run step env actions

def staticWords (addr : ℕ) : UInt32 :=
  if addr = 100 then magicMutexStatic else if addr = 200 then magicCondStatic else 0

def epoch : Clock := ⟨0, 0, 0⟩

end Env

end TouchHle.Threads
