import TouchHle.Threads.Environment
import TouchHle.Lib.Cycles

namespace TouchHle.Joins

open Lib Function
open Threads (EDEADLK EINVAL)

def ESRCH : ℤ := 3

abbrev ThreadId := ℕ
abbrev Ptr := ℕ

def PTHREAD_CREATE_JOINABLE : ℤ := 1
def PTHREAD_CREATE_DETACHED : ℤ := 2

def PTHREAD_CANCELED : UInt32 := 0xFFFFFFFF

inductive ThreadBlock
  | notBlocked
  | joining (joinee : ThreadId) (ptr : Ptr)
  | elsewhere
  deriving DecidableEq

structure Thread where
  active : Bool
  blockedBy : ThreadBlock
  suspendCount : ℕ
  returnValue : Option UInt32
  /-- The calls from host functions to guest functions on its stack, without the start routine. -/
  frames : ℕ
  /-- What its last thread function returned, if it has returned. -/
  returned : Option ℤ
  deriving DecidableEq

def Thread.idle : Thread := ⟨false, .notBlocked, 0, none, 0, none⟩

def Thread.started : Thread := ⟨true, .notBlocked, 0, none, 0, none⟩

structure ThreadHostObject where
  threadId : ThreadId
  joinedBy : Option ThreadId
  detachstate : ℤ
  cancelRequested : Bool
  cancelDisabled : Bool
  deriving DecidableEq

def ThreadHostObject.new (threadId : ThreadId) (detachstate : ℤ) : ThreadHostObject :=
  ⟨threadId, none, detachstate, false, false⟩

structure Env where
  threads : ThreadId → Thread
  threadCount : ℕ
  objects : List (Ptr × ThreadHostObject)
  mainThreadObjectCreated : Bool
  words : Ptr → UInt32
  nullSegmentSize : ℕ
  /-- The value each thread asked to end with: that of its first `pthread_exit` or cancellation, or
  else that of its start routine. -/
  exits : ThreadId → Option UInt32

namespace Env

def boot (words : Ptr → UInt32) (nullSegmentSize : ℕ) : Env where
  threads := Function.update (fun _ => .idle) 0 .started
  threadCount := 1
  objects := []
  mainThreadObjectCreated := false
  words := words
  nullSegmentSize := nullSegmentSize
  exits := fun _ => none

def setThread (env : Env) (t : ThreadId) (thread : Thread) : Env :=
  { env with threads := Function.update env.threads t thread }

def write (env : Env) (ptr : Ptr) (value : UInt32) : Env :=
  if ptr < env.nullSegmentSize then env
  else { env with words := Function.update env.words ptr value }

def get (env : Env) (ptr : Ptr) : Option ThreadHostObject := env.objects.lookup ptr

def insert (env : Env) (ptr : Ptr) (object : ThreadHostObject) : Checked Env := do
  assert (env.get ptr = none)
  return { env with objects := (ptr, object) :: env.objects }

def setObject (env : Env) (ptr : Ptr) (object : ThreadHostObject) : Env :=
  { env with
    objects := env.objects.map fun entry => if entry.1 = ptr then (ptr, object) else entry }

def returns (env : Env) (t : ThreadId) (code : ℤ) : Env :=
  env.setThread t { env.threads t with returned := some code }

def yieldThread (env : Env) (t : ThreadId) (block : ThreadBlock) : Checked Env := do
  assert ((env.threads t).blockedBy = .notBlocked ∧ (env.threads t).suspendCount = 0)
  return env.setThread t { env.threads t with blockedBy := block, returned := none }

def createMain (env : Env) (t : ThreadId) (alloc : Ptr) : Checked Env :=
  if t = 0 ∧ env.mainThreadObjectCreated = false then
    Env.insert { env with mainThreadObjectCreated := true } alloc (.new 0 PTHREAD_CREATE_JOINABLE)
  else return env

def pthreadSelf (env : Env) (t : ThreadId) (alloc : Ptr) : Checked (Ptr × Env) := do
  let env ← env.createMain t alloc
  match env.objects.find? (·.2.threadId = t) with
  | some entry => return (entry.1, env)
  | none => do
    let env ← env.insert alloc (.new t PTHREAD_CREATE_JOINABLE)
    return (alloc, env)

def newThread (env : Env) : Env :=
  { env.setThread env.threadCount .started with threadCount := env.threadCount + 1 }

def pthreadCreate (env : Env) (t : ThreadId) (thread : Ptr) (detachstate : ℤ) (alloc : Ptr) :
    Checked Env := do
  let threadId := env.threadCount
  let env := env.newThread.write thread (.ofNat alloc)
  let env ← env.insert alloc (.new threadId detachstate)
  return env.returns t 0

/-- The innermost call from the host to the guest returns this value. Of a thread's start routine
that ends the thread, and the main thread must not end. -/
def returnToHost (env : Env) (t : ThreadId) (value : UInt32) : Checked Env :=
  let thread := env.threads t
  if thread.frames = 0 then do
    assert (t ≠ 0)
    return env.setThread t { thread with returnValue := some value, active := false }
  else return env.setThread t { thread with frames := thread.frames - 1 }

def exiting (env : Env) (t : ThreadId) (value : UInt32) : Env :=
  { env with exits := Function.update env.exits t (some ((env.exits t).getD value)) }

def pthreadExit (env : Env) (t : ThreadId) (retval : UInt32) : Checked Env :=
  (env.exiting t retval).returnToHost t retval

def returnFrom (env : Env) (t : ThreadId) (value : UInt32) : Checked Env :=
  if (env.threads t).frames = 0 then (env.exiting t value).returnToHost t value
  else env.returnToHost t value

def pthreadJoin (env : Env) (t : ThreadId) (thread retval alloc : Ptr) : Checked Env := do
  let (self, env) ← env.pthreadSelf t alloc
  match env.get thread with
  | none => return env.returns t ESRCH
  | some joinee => do
    assert (joinee.threadId ≠ 0)
    if joinee.threadId = t then return env.returns t EDEADLK
    else match env.get self with
      | none => return env.returns t ESRCH
      | some current =>
        -- One step back only: the thread that joined this one last.
        if current.joinedBy = some joinee.threadId then return env.returns t EDEADLK
        else if joinee.detachstate = PTHREAD_CREATE_DETACHED then return env.returns t EINVAL
        else
          (env.setObject thread { joinee with joinedBy := some t }).yieldThread t
            (.joining joinee.threadId retval)

def pthreadDetach (env : Env) (t : ThreadId) (thread : Ptr) : Env :=
  match env.get thread with
  | none => env.returns t ESRCH
  | some object =>
    if object.detachstate = PTHREAD_CREATE_DETACHED then env.returns t EINVAL
    else
      (env.setObject thread { object with detachstate := PTHREAD_CREATE_DETACHED }).returns t 0

def pthreadCancel (env : Env) (t : ThreadId) (thread : Ptr) : Env :=
  match env.get thread with
  | none => env.returns t ESRCH
  | some object => (env.setObject thread { object with cancelRequested := true }).returns t 0

def pthreadSetcancelstate (env : Env) (t : ThreadId) (disabled : Bool) (alloc : Ptr) :
    Checked Env := do
  let (self, env) ← env.pthreadSelf t alloc
  let object ← unwrap (env.get self)
  return (env.setObject self { object with cancelDisabled := disabled }).returns t 0

def pthreadTestcancel (env : Env) (t : ThreadId) (alloc : Ptr) : Checked Env := do
  let (self, env) ← env.pthreadSelf t alloc
  let object ← unwrap (env.get self)
  if object.cancelDisabled = true ∨ object.cancelRequested = false then return env
  else env.pthreadExit t PTHREAD_CANCELED

def suspendThread (env : Env) (t : ThreadId) : Env :=
  env.setThread t { env.threads t with suspendCount := (env.threads t).suspendCount + 1 }

def resumeThread (env : Env) (t : ThreadId) : Env :=
  env.setThread t { env.threads t with suspendCount := (env.threads t).suspendCount - 1 }

def joined (env : Env) (t joinee : ThreadId) (ptr : Ptr) : Env :=
  let env := if ptr = 0 then env else env.write ptr ((env.threads joinee).returnValue.getD 0)
  env.setThread t { env.threads t with blockedBy := .notBlocked, returned := some 0 }

end Env

inductive Action
  | pthreadCreate (thread : Ptr) (detachstate : ℤ)
  | pthreadExit (retval : UInt32)
  | pthreadJoin (thread retval : Ptr)
  | pthreadDetach (thread : Ptr)
  | pthreadCancel (thread : Ptr)
  | pthreadTestcancel
  | pthreadSetcancelstate (disabled : Bool)
  | callback
  | returnFrom (value : UInt32)
  | write (ptr : Ptr) (value : UInt32)
  | suspend (other : ThreadId)
  | resume (other : ThreadId)
  | block
  | unblock
  | joined (joinee : ThreadId) (ptr : Ptr)

/-- What a thread does next, or the scheduler with it, and the address the guest's allocator has
for a handle made on the way. -/
structure Event where
  thread : ThreadId
  action : Action
  alloc : Ptr

namespace Env

def step (env : Env) (e : Event) : Checked Env :=
  let t := e.thread
  match e.action with
  | .pthreadCreate thread detachstate => env.pthreadCreate t thread detachstate e.alloc
  | .pthreadExit retval => env.pthreadExit t retval
  | .pthreadJoin thread retval => env.pthreadJoin t thread retval e.alloc
  | .pthreadDetach thread => return env.pthreadDetach t thread
  | .pthreadCancel thread => return env.pthreadCancel t thread
  | .pthreadTestcancel => env.pthreadTestcancel t e.alloc
  | .pthreadSetcancelstate disabled => env.pthreadSetcancelstate t disabled e.alloc
  | .callback => return env.setThread t { env.threads t with frames := (env.threads t).frames + 1 }
  | .returnFrom value => env.returnFrom t value
  | .write ptr value => return env.write ptr value
  | .suspend other => return env.suspendThread other
  | .resume other => return env.resumeThread other
  | .block => env.yieldThread t .elsewhere
  | .unblock => return env.setThread t { env.threads t with blockedBy := .notBlocked }
  | .joined joinee ptr => return env.joined t joinee ptr

/-- What the scheduler lets happen: a thread acts while it is not blocked, and goes on when what it
waits for has happened. Fresh memory is fresh. -/
def Possible (env : Env) (e : Event) : Prop :=
  e.thread < env.threadCount ∧ (env.threads e.thread).active = true ∧
    (env.threads e.thread).suspendCount = 0 ∧ env.get e.alloc = none ∧
    match e.action with
    | .unblock => (env.threads e.thread).blockedBy = .elsewhere
    | .joined joinee ptr => (env.threads e.thread).blockedBy = .joining joinee ptr ∧
        (env.threads joinee).active = false
    | .suspend other => (env.threads e.thread).blockedBy = .notBlocked ∧ other < env.threadCount
    | .resume other => (env.threads e.thread).blockedBy = .notBlocked ∧ other < env.threadCount
    | _ => (env.threads e.thread).blockedBy = .notBlocked

end Env

end TouchHle.Joins

namespace TouchHle.Joins.Env

open Lib Function

def Waits (env : Env) (t joinee : ThreadId) : Prop :=
  (env.threads t).active = true ∧ ∃ ptr, (env.threads t).blockedBy = .joining joinee ptr

def Exited (env : Env) : Prop := ∀ t value, env.exits t = some value →
  (env.threads t).active = false ∧ (env.threads t).returnValue = some value

structure Inv (env : Env) : Prop where
  exited : env.Exited
  ended : ∀ t < env.threadCount, (env.threads t).active = false → env.exits t ≠ none
  acyclic : Acyclic env.Waits
  joinees : ∀ t joinee ptr, (env.threads t).blockedBy = .joining joinee ptr →
    joinee < env.threadCount
  objects : ∀ entry ∈ env.objects, entry.2.threadId < env.threadCount
  fresh : ∀ t, env.threadCount ≤ t → env.exits t = none
  pos : 0 < env.threadCount

structure Quiet (env env' : Env) : Prop where
  exits : env'.exits = env.exits
  threadCount : env'.threadCount = env.threadCount
  thread : ∀ t, (env'.threads t).active = (env.threads t).active ∧
    (env'.threads t).returnValue = (env.threads t).returnValue ∧
    ∀ joinee ptr, (env'.threads t).blockedBy = .joining joinee ptr →
      (env.threads t).blockedBy = .joining joinee ptr
  objects : ∀ entry ∈ env'.objects, (∃ old ∈ env.objects, entry.2.threadId = old.2.threadId) ∨
    entry.2.threadId < env.threadCount

variable {env env' env'' : Env} {t : ThreadId} {ptr alloc : Ptr} {thread : Thread}
  {object : ThreadHostObject}

lemma inv_boot (words : Ptr → UInt32) (nullSegmentSize : ℕ) : (boot words nullSegmentSize).Inv where
  exited := by simp [Exited, boot]
  ended t ht := by
    obtain rfl : t = 0 := Nat.lt_one_iff.mp ht
    simp [boot, Thread.started]
  acyclic := by
    have hnone : ∀ x y, ¬ (boot words nullSegmentSize).Waits x y := by
      rintro x y ⟨-, ptr, h⟩
      dsimp only [boot] at h
      rw [update_apply] at h
      split_ifs at h
      · cases h
      · cases h
    intro x hx
    cases hx with
    | single h => exact hnone _ _ h
    | tail _ h => exact hnone _ _ h
  joinees t joinee ptr h := by
    dsimp only [boot] at h
    rw [update_apply] at h
    split_ifs at h
    · cases h
    · cases h
  objects := by simp [boot]
  fresh := by simp [boot]
  pos := one_pos

lemma Quiet.refl (env : Env) : env.Quiet env :=
  ⟨rfl, rfl, fun _ => ⟨rfl, rfl, fun _ _ => id⟩, fun entry h => .inl ⟨entry, h, rfl⟩⟩

lemma Quiet.waits (h : env.Quiet env') {x y : ThreadId} (hwaits : env'.Waits x y) :
    env.Waits x y := by
  obtain ⟨hactive, ptr, hblock⟩ := hwaits
  exact ⟨(h.thread x).1 ▸ hactive, ptr, (h.thread x).2.2 y ptr hblock⟩

lemma Quiet.inv (h : env.Quiet env') (hinv : env.Inv) : env'.Inv where
  exited t value ht := by
    rw [h.exits] at ht
    rw [(h.thread t).1, (h.thread t).2.1]
    exact hinv.exited t value ht
  ended t ht := by
    rw [h.threadCount] at ht
    rw [h.exits, (h.thread t).1]
    exact hinv.ended t ht
  acyclic := hinv.acyclic.mono fun _ _ => h.waits
  joinees t joinee ptr ht := h.threadCount ▸ hinv.joinees t joinee ptr ((h.thread t).2.2 _ _ ht)
  objects entry hentry := by
    rw [h.threadCount]
    obtain ⟨old, hold, heq⟩ | hlt := h.objects entry hentry
    · exact heq ▸ hinv.objects old hold
    · exact hlt
  fresh t ht := by
    rw [h.threadCount] at ht
    rw [h.exits]
    exact hinv.fresh t ht
  pos := h.threadCount ▸ hinv.pos

lemma quiet_setThread (hactive : thread.active = (env.threads t).active)
    (hvalue : thread.returnValue = (env.threads t).returnValue)
    (hblock : ∀ joinee ptr, thread.blockedBy = .joining joinee ptr →
      (env.threads t).blockedBy = .joining joinee ptr) : env.Quiet (env.setThread t thread) := by
  refine ⟨rfl, rfl, fun t' => ?_, fun entry h => .inl ⟨entry, h, rfl⟩⟩
  change ((update env.threads t thread t').active = _) ∧
    (update env.threads t thread t').returnValue = _ ∧ ∀ joinee ptr,
      (update env.threads t thread t').blockedBy = .joining joinee ptr → _
  by_cases ht : t' = t
  · subst ht
    rw [update_self]
    exact ⟨hactive, hvalue, hblock⟩
  · rw [update_of_ne ht]
    exact ⟨rfl, rfl, fun _ _ => id⟩

lemma quiet_returns (env : Env) (t : ThreadId) (code : ℤ) : env.Quiet (env.returns t code) :=
  quiet_setThread rfl rfl fun _ _ => id

lemma quiet_write (env : Env) (ptr : Ptr) (value : UInt32) : env.Quiet (env.write ptr value) := by
  unfold write
  split_ifs
  · exact .refl env
  · exact ⟨rfl, rfl, fun _ => ⟨rfl, rfl, fun _ _ => id⟩, fun entry h => .inl ⟨entry, h, rfl⟩⟩

lemma mem_of_get (h : env.get ptr = some object) : (ptr, object) ∈ env.objects := by
  rw [get, List.lookup_eq_some_iff] at h
  obtain ⟨before, after, heq, -⟩ := h
  rw [heq]
  exact List.mem_append_right _ List.mem_cons_self

lemma quiet_setObject {old : ThreadHostObject} (hold : env.get ptr = some old)
    (hid : object.threadId = old.threadId) : env.Quiet (env.setObject ptr object) := by
  refine ⟨rfl, rfl, fun _ => ⟨rfl, rfl, fun _ _ => id⟩, fun entry h => .inl ?_⟩
  obtain ⟨entry', hentry', rfl⟩ := List.mem_map.mp h
  split_ifs
  · exact ⟨_, mem_of_get hold, hid⟩
  · exact ⟨entry', hentry', rfl⟩

lemma insert_ok (h : env.get ptr = none) :
    env.insert ptr object = .ok { env with objects := (ptr, object) :: env.objects } := by
  simp [insert, h]

lemma quiet_insert (ptr : Ptr) (main : Bool) (h : object.threadId < env.threadCount) : env.Quiet { env with
    mainThreadObjectCreated := main
    objects := (ptr, object) :: env.objects } := by
  refine ⟨rfl, rfl, fun _ => ⟨rfl, rfl, fun _ _ => id⟩, fun entry hentry => ?_⟩
  obtain rfl | hentry := List.mem_cons.mp hentry
  · exact .inr h
  · exact .inl ⟨entry, hentry, rfl⟩

lemma pthreadSelf_ok (halloc : env.get alloc = none) (ht : t < env.threadCount) :
    ∃ self env₀ object, env.pthreadSelf t alloc = .ok (self, env₀) ∧ env.Quiet env₀ ∧
      env₀.threads = env.threads ∧ env₀.words = env.words ∧
      env₀.nullSegmentSize = env.nullSegmentSize ∧ env₀.get self = some object := by
  have hinsert (main : Bool) := quiet_insert alloc main
    (show (ThreadHostObject.new t PTHREAD_CREATE_JOINABLE).threadId < env.threadCount from ht)
  by_cases hmain : t = 0 ∧ env.mainThreadObjectCreated = false
  · obtain ⟨rfl, hcreated⟩ := hmain
    have hcreate : env.createMain 0 alloc = .ok { env with
        mainThreadObjectCreated := true
        objects := (alloc, .new 0 PTHREAD_CREATE_JOINABLE) :: env.objects } := by
      rw [createMain, if_pos ⟨rfl, hcreated⟩]
      exact insert_ok halloc
    refine ⟨alloc, _, .new 0 PTHREAD_CREATE_JOINABLE, ?_, hinsert true, rfl, rfl, rfl, ?_⟩
    · rw [pthreadSelf, hcreate]
      simp [ThreadHostObject.new]
    · simp [get]
  · have hcreate : env.createMain t alloc = .ok env := by
      rw [createMain, if_neg hmain]
      rfl
    rw [pthreadSelf, hcreate]
    cases hfind : env.objects.find? (·.2.threadId = t) with
    | some entry =>
      obtain ⟨object, hobject⟩ : ∃ object, env.get entry.1 = some object := by
        apply Option.isSome_iff_exists.mp
        rw [get, List.lookup_isSome_iff]
        exact ⟨entry, List.mem_of_find?_eq_some hfind, by simp⟩
      exact ⟨entry.1, env, object, by simp [hfind], .refl env, rfl, rfl, rfl, hobject⟩
    | none =>
      refine ⟨alloc, _, .new t PTHREAD_CREATE_JOINABLE, ?_, hinsert env.mainThreadObjectCreated, rfl, rfl, rfl, ?_⟩
      · simp [hfind, insert_ok halloc]
      · simp [get]

end TouchHle.Joins.Env
