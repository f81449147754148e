import TouchHle.Lib.Vec
import TouchHle.Objc.Objects

/-! A notification center, with the calls of the application as the steps. The application calls it at
its top level and from the observers that it is invoking. -/

namespace TouchHle.Foundation

open Lib Objc

export Objc (Id)

structure Notification where
  name : Option String
  object : Id
  deriving DecidableEq

/-- An observer with a selector, or a token with a block. The last two fields are not in the source:
the name as it was given, and which registration this is. -/
structure Observer where
  observer : Id
  /-- The null selector of a block observer is `none`. -/
  selector : Option String
  object : Id
  block : Id
  name : Option String
  registration : ℕ
  deriving DecidableEq

structure CfObserver where
  observer : Id
  callback : ℕ
  name : Option String
  object : Id
  registration : ℕ
  deriving DecidableEq

inductive Registration
  | observer (o : Observer)
  | cfObserver (c : CfObserver)
  deriving DecidableEq

structure NotificationCenter where
  names : List String
  observers : String → List Observer
  cfObservers : List CfObserver

structure Posting where
  notification : Notification
  current : Registration
  observers : List Observer
  cfObservers : List CfObserver

inductive Reference
  | retain (o : Id)
  | release (o : Id)
  deriving DecidableEq

structure NotificationWorld where
  /-- `none` when it has been deallocated. -/
  center : Option NotificationCenter
  postings : List Posting
  /-- What the center has done to the ownership of its objects so far. -/
  references : List Reference
  invoked : List (Registration × Notification)
  registrations : ℕ

inductive NotificationCall
  | addObserver (observer : Id) (selector : String) (name : Option String) (object : Id)
  /-- The block is copied to `copied`, and the token is allocated. -/
  | addObserverForName (name : Option String) (object token copied : Id)
  | removeObserver (observer : Id) (name : Option String) (object : Id)
  | addCfObserver (observer : Id) (callback : ℕ) (name : Option String) (object : Id)
  | removeCfObserver (observer : Id) (name : Option String) (object : Id)
  | removeEveryCfObserver (observer : Id)
  | postNotification (notification : Notification)
  | dealloc
  /-- The observer that was invoked last returns, and is released: what the application does when it is
  deallocated by that comes before. -/
  | ret

/-- What the center asks of the application: whether its bundle identifier and a selector are those
that registrations for any name are ignored for, and whether the invoke pointer of a block is null. -/
structure NotificationClient where
  ignores : String → Bool
  nullInvoke : Id → Bool

def nameKey (name : Option String) : String := name.getD ""

def Notification.passes (n : Notification) (object : Id) : Bool := object = nil || n.object = object

namespace NotificationCenter

def new : NotificationCenter := ⟨[], fun _ => [], []⟩

variable (c : NotificationCenter)

def push (key : String) (o : Observer) : NotificationCenter :=
  { c with
    names := if key ∈ c.names then c.names else c.names ++ [key]
    observers := Function.update c.observers key (c.observers key ++ [o]) }

def removeObserversInternal (p : Observer → Bool) (observers : List Observer) :
    Checked (List Observer × List Observer) :=
  Vec.swapRemoveIf p observers.length 0 observers []

def removeFrom (p : Observer → Bool) :
    List String → NotificationCenter → Checked (NotificationCenter × List Observer)
  | [], c => return (c, [])
  | key :: keys, c => do
    let r ← removeObserversInternal p (c.observers key)
    let rest ← removeFrom p keys { c with observers := Function.update c.observers key r.1 }
    return (rest.1, r.2 ++ rest.2)

def keysFor : Option String → List String
  | some key => if key ∈ c.names then [key] else []
  | none => c.names

def snapshot (name : Option String) : List Observer × List CfObserver :=
  (c.observers (nameKey name) ++ (if nameKey name ≠ "" then c.observers "" else []),
    c.cfObservers.filter fun cf => cf.name = none || cf.name = some (nameKey name))

end NotificationCenter

def Observer.selects (observer object : Id) (o : Observer) : Bool :=
  o.observer = observer && (object = nil || object = o.object)

namespace NotificationWorld

def start : NotificationWorld := ⟨some .new, [], [], [], 0⟩

variable (client : NotificationClient) (w : NotificationWorld)

def refer (r : Id → Reference) (o : Id) : NotificationWorld :=
  if o = nil then w else { w with references := r o :: w.references }

@[simp] lemma center_refer {r o} : (w.refer r o).center = w.center := by unfold refer; split_ifs <;> rfl

@[simp] lemma postings_refer {r o} : (w.refer r o).postings = w.postings := by
  unfold refer; split_ifs <;> rfl

@[simp] lemma invoked_refer {r o} : (w.refer r o).invoked = w.invoked := by
  unfold refer; split_ifs <;> rfl

@[simp] lemma registrations_refer {r o} : (w.refer r o).registrations = w.registrations := by
  unfold refer; split_ifs <;> rfl

def setCenter (c : NotificationCenter) : NotificationWorld := { w with center := some c }

def registered : NotificationWorld := { w with registrations := w.registrations + 1 }

def invoke (n : Notification) (r : Registration) (observers : List Observer)
    (cfObservers : List CfObserver) : NotificationWorld :=
  { w with
    postings := ⟨n, r, observers, cfObservers⟩ :: w.postings
    invoked := (r, n) :: w.invoked }

def deliverCf (n : Notification) : List CfObserver → NotificationWorld
  | [] => w
  | cf :: cfs =>
    if !n.passes cf.object then deliverCf n cfs
    else w.invoke n (.cfObserver cf) [] cfs

def deliver (n : Notification) (cfs : List CfObserver) : List Observer → Checked NotificationWorld
  | [] => return w.deliverCf n cfs
  | o :: os => do
    if !n.passes o.object then deliver n cfs os
    else if o.block ≠ nil then
      if client.nullInvoke o.block then deliver n cfs os
      else return (w.refer .retain o.observer).invoke n (.observer o) os cfs
    else
      let _ ← unwrap o.selector
      return (w.refer .retain o.observer).invoke n (.observer o) os cfs

def releaseObserver (o : Observer) : NotificationWorld :=
  if o.block ≠ nil then
    ((w.refer .release o.object).refer .release o.block).refer .release o.observer
  else w.refer .release o.object

def releaseAll (os : List Observer) : NotificationWorld := os.foldl releaseObserver w

lemma releaseAll_eq (os : List Observer) : (w.releaseAll os).center = w.center ∧
    (w.releaseAll os).postings = w.postings ∧ (w.releaseAll os).invoked = w.invoked ∧
    (w.releaseAll os).registrations = w.registrations := by
  induction os generalizing w with
  | nil => exact ⟨rfl, rfl, rfl, rfl⟩
  | cons o os ih =>
    have hone : (w.releaseObserver o).center = w.center ∧ (w.releaseObserver o).postings = w.postings ∧
        (w.releaseObserver o).invoked = w.invoked ∧
        (w.releaseObserver o).registrations = w.registrations := by
      unfold releaseObserver
      split_ifs <;> simp
    obtain ⟨hcenter, hpostings, hinvoked, hregistrations⟩ := ih (w.releaseObserver o)
    exact ⟨hcenter.trans hone.1, hpostings.trans hone.2.1, hinvoked.trans hone.2.2.1,
      hregistrations.trans hone.2.2.2⟩

def addObserver (observer : Id) (selector : String) (name : Option String) (object : Id) :
    Checked NotificationWorld := do
  if name = none ∧ client.ignores selector then return w
  else
    let w := w.refer .retain object
    let c ← unwrap w.center
    let o : Observer := ⟨observer, some selector, object, nil, name, w.registrations⟩
    return (w.setCenter (c.push (nameKey name) o)).registered

def addObserverForName (name : Option String) (object token copied : Id) :
    Checked NotificationWorld := do
  let w := ((w.refer .retain token).refer .retain copied).refer .retain object
  let c ← unwrap w.center
  let o : Observer := ⟨token, none, object, copied, name, w.registrations⟩
  return (w.setCenter (c.push (nameKey name) o)).registered

def removeObserver (observer : Id) (name : Option String) (object : Id) :
    Checked NotificationWorld := do
  assert (observer ≠ nil)
  let c ← unwrap w.center
  let r ← c.removeFrom (Observer.selects observer object) (c.keysFor name)
  return (w.setCenter r.1).releaseAll r.2

def addCfObserver (observer : Id) (callback : ℕ) (name : Option String) (object : Id) :
    Checked NotificationWorld := do
  let c ← unwrap w.center
  let cf : CfObserver := ⟨observer, callback, name, object, w.registrations⟩
  return (w.setCenter { c with cfObservers := c.cfObservers ++ [cf] }).registered

def removeCf (p : CfObserver → Bool) : Checked NotificationWorld := do
  let c ← unwrap w.center
  return w.setCenter { c with cfObservers := c.cfObservers.filter fun cf => !p cf }

def removeCfObserver (observer : Id) (name : Option String) (object : Id) :
    Checked NotificationWorld :=
  w.removeCf fun cf =>
    cf.observer = observer && cf.name = name && (object = nil || object = cf.object)

def removeEveryCfObserver (observer : Id) : Checked NotificationWorld :=
  w.removeCf fun cf => cf.observer = observer

def postNotification (n : Notification) : Checked NotificationWorld := do
  let c ← unwrap w.center
  w.deliver client n (c.snapshot n.name).2 (c.snapshot n.name).1

def dealloc : Checked NotificationWorld := do
  let c ← unwrap w.center
  return { w with center := none }.releaseAll (c.names.flatMap c.observers)

def releaseInvoked : Registration → NotificationWorld
  | .observer o => w.refer .release o.observer
  | .cfObserver _ => w

def doReturn : Checked NotificationWorld :=
  match w.postings with
  | [] => .error .assertion
  | p :: postings =>
    ({ w with postings }.releaseInvoked p.current).deliver client p.notification p.cfObservers p.observers

def step (w : NotificationWorld) : NotificationCall → Checked NotificationWorld
  | .addObserver observer selector name object => w.addObserver client observer selector name object
  | .addObserverForName name object token copied => w.addObserverForName name object token copied
  | .removeObserver observer name object => w.removeObserver observer name object
  | .addCfObserver observer callback name object => w.addCfObserver observer callback name object
  | .removeCfObserver observer name object => w.removeCfObserver observer name object
  | .removeEveryCfObserver observer => w.removeEveryCfObserver observer
  | .postNotification n => w.postNotification client n
  | .dealloc => w.dealloc
  | .ret => w.doReturn client

end NotificationWorld

end TouchHle.Foundation
