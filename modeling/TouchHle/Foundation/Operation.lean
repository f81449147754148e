import TouchHle.Lib.Runs

/-! Operations and operation queues. The application calls them at its top level and from everything
that they call: the `main` of an operation, its completion block and the observers of its keys. -/

namespace TouchHle.Foundation

open Lib

abbrev OpId := ℕ
abbrev QueueId := ℕ

inductive OperationState
  | ready
  | executing
  | finished
  deriving DecidableEq

structure Operation where
  state : OperationState
  cancelled : Bool
  dependencies : List OpId
  completionBlock : Option ℕ

def Operation.new : Operation := ⟨.ready, false, [], none⟩

structure OperationQueue where
  operations : List OpId
  suspended : Bool

structure OperationHeap where
  objects : List OpId
  ops : OpId → Operation
  queues : QueueId → OperationQueue

namespace OperationHeap

def empty : OperationHeap := ⟨[], fun _ => .new, fun _ => ⟨[], false⟩⟩

variable (h : OperationHeap)

def setOp (op : OpId) (o : Operation) : OperationHeap :=
  { h with ops := Function.update h.ops op o }

def setQueue (q : QueueId) (queue : OperationQueue) : OperationHeap :=
  { h with queues := Function.update h.queues q queue }

def setState (op : OpId) (state : OperationState) : OperationHeap :=
  h.setOp op { h.ops op with state }

def isExecuting (op : OpId) : Bool := (h.ops op).state = .executing
def isFinished (op : OpId) : Bool := (h.ops op).state = .finished

def isReady (op : OpId) : Bool :=
  (h.ops op).state = .ready && (h.ops op).dependencies.all h.isFinished

def addDependency (op : OpId) : Option OpId → OperationHeap
  | none => h
  | some dep =>
    if (h.ops op).state ≠ .ready then h
    else if dep ∈ (h.ops op).dependencies then h
    else h.setOp op { h.ops op with dependencies := (h.ops op).dependencies ++ [dep] }

def removeDependency (op : OpId) : Option OpId → OperationHeap
  | none => h
  | some dep =>
    h.setOp op { h.ops op with dependencies := (h.ops op).dependencies.filter (· ≠ dep) }

def addObject (q : QueueId) (op : OpId) : OperationHeap :=
  h.setQueue q { h.queues q with operations := (h.queues q).operations ++ [op] }

def removeObject (q : QueueId) (op : OpId) : OperationHeap :=
  h.setQueue q { h.queues q with operations := (h.queues q).operations.filter (· ≠ op) }

end OperationHeap

inductive Frame
  /-- `start` has told the observers of `isExecuting` that the operation executes. -/
  | executing (op : OpId)
  | main (op : OpId)
  /-- `start` has told the observers of `isExecuting` that the operation has finished. -/
  | ended (op : OpId)
  /-- `start` has told the observers of `isFinished`. -/
  | finished (op : OpId)
  | completion (op : OpId)
  /-- `start` has told the observers of `isFinished` that the operation was cancelled. -/
  | startCancelled (op : OpId)
  /-- `cancel` has told the observers of `isCancelled`. -/
  | cancel (op : OpId)
  | addOperation (q : QueueId) (op : OpId)
  /-- The loop of `setSuspended:`, with its next index and the rounds left. -/
  | setSuspended (q : QueueId) (i todo : ℕ)

inductive OperationEvent
  | added (q : QueueId) (op : OpId)
  | executes (op : OpId)
  | leaves (q : QueueId) (op : OpId)

structure OperationWorld where
  heap : OperationHeap
  stack : List Frame
  /-- What has happened, latest first, and the objects as they were then. -/
  log : List (OperationEvent × OperationHeap)

inductive OperationCall
  | alloc (op : OpId)
  | addDependency (op : OpId) (dep : Option OpId)
  | removeDependency (op : OpId) (dep : Option OpId)
  | setCompletionBlock (op : OpId) (block : Option ℕ)
  | cancel (op : OpId)
  | start (op : OpId)
  | addOperation (q : QueueId) (op : Option OpId)
  /-- The block operation is allocated at `op`. -/
  | addOperationWithBlock (q : QueueId) (block : Option ℕ) (op : OpId)
  | setSuspended (q : QueueId) (suspended : Bool)
  | waitUntilAllOperationsAreFinished (q : QueueId)
  /-- The code of the application that was called last returns. -/
  | ret

namespace OperationWorld

def empty : OperationWorld := ⟨.empty, [], []⟩

variable (w : OperationWorld)

def withHeap (heap : OperationHeap) : OperationWorld := { w with heap }

def push (f : Frame) : OperationWorld := { w with stack := f :: w.stack }

def note (e : OperationEvent) : OperationWorld := { w with log := (e, w.heap) :: w.log }

def start (op : OpId) : OperationWorld :=
  if (w.heap.ops op).state ≠ .ready then w
  else if (w.heap.ops op).cancelled then
    { w.push (.startCancelled op) with heap := w.heap.setState op .finished }
  else { (w.note (.executes op)).push (.executing op) with heap := w.heap.setState op .executing }

def cancel (op : OpId) : OperationWorld :=
  if (w.heap.ops op).cancelled then w
  else { w.push (.cancel op) with heap := w.heap.setOp op { w.heap.ops op with cancelled := true } }

def leave (q : QueueId) (op : OpId) : OperationWorld :=
  if op ∈ (w.heap.queues q).operations then
    { w.note (.leaves q op) with heap := w.heap.removeObject q op }
  else w

def enqueue (q : QueueId) (op : OpId) : OperationWorld :=
  { w.note (.added q op) with heap := w.heap.addObject q op }

def addOperation (q : QueueId) (op : OpId) : OperationWorld :=
  let w := w.enqueue q op
  if !(w.heap.queues q).suspended && w.heap.isReady op then (w.push (.addOperation q op)).start op
  else w.leave q op

def resumeFrom (q : QueueId) : ℕ → ℕ → OperationWorld
  | _, 0 => w
  | i, todo + 1 =>
    match (w.heap.queues q).operations[i]? with
    | none => resumeFrom q (i + 1) todo
    | some op =>
      if w.heap.isReady op && !w.heap.isExecuting op && !w.heap.isFinished op then
        (w.push (.setSuspended q (i + 1) todo)).start op
      else resumeFrom q (i + 1) todo

def setSuspended (q : QueueId) (suspended : Bool) : OperationWorld :=
  let w := w.withHeap (w.heap.setQueue q ⟨(w.heap.queues q).operations, suspended⟩)
  if suspended then w else w.resumeFrom q 0 (w.heap.queues q).operations.length

def returned (stack : List Frame) : OperationWorld :=
  match stack with
  | .addOperation q op :: stack => { w with stack }.leave q op
  | .setSuspended q i todo :: stack => { w with stack }.resumeFrom q i todo
  | stack => { w with stack }

def doReturn : Checked OperationWorld :=
  match w.stack with
  | .executing op :: stack => .ok { w with stack := .main op :: stack }
  | .main op :: stack =>
    .ok { w with stack := .ended op :: stack, heap := w.heap.setState op .finished }
  | .ended op :: stack => .ok { w with stack := .finished op :: stack }
  | .finished op :: stack =>
    .ok (if (w.heap.ops op).completionBlock.isSome then { w with stack := .completion op :: stack }
      else w.returned stack)
  | .completion _ :: stack => .ok (w.returned stack)
  | .startCancelled _ :: stack => .ok (w.returned stack)
  | .cancel _ :: stack => .ok { w with stack }
  | _ => .error .assertion

def alloc (op : OpId) : Checked OperationWorld := do
  assert (op ∉ w.heap.objects)
  return { w with heap := { w.heap with objects := op :: w.heap.objects } }

def known (op : OpId) : Checked Unit := assert (op ∈ w.heap.objects)

def step (w : OperationWorld) : OperationCall → Checked OperationWorld
  | .alloc op => w.alloc op
  | .addDependency op dep => do
    w.known op
    return w.withHeap (w.heap.addDependency op dep)
  | .removeDependency op dep => do
    w.known op
    return w.withHeap (w.heap.removeDependency op dep)
  | .setCompletionBlock op block => do
    w.known op
    return w.withHeap (w.heap.setOp op { w.heap.ops op with completionBlock := block })
  | .cancel op => do
    w.known op
    return w.cancel op
  | .start op => do
    w.known op
    return w.start op
  | .addOperation _ none => return w
  | .addOperation q (some op) => do
    w.known op
    return w.addOperation q op
  | .addOperationWithBlock _ none _ => return w
  | .addOperationWithBlock q (some _) op => do
    let w ← w.alloc op
    return w.addOperation q op
  | .setSuspended q suspended => return w.setSuspended q suspended
  | .waitUntilAllOperationsAreFinished _ => return w
  | .ret => w.doReturn

end OperationWorld

end TouchHle.Foundation
