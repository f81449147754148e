import TouchHle.Lib.Forest
import TouchHle.Objc.Classes

/-! The instance variables of classes from binaries, and the reconciliation of their offsets. -/

namespace TouchHle.Objc.Ivars

open Lib

/-- An instance variable as a binary has it: the address of the variable that holds its offset, and
the binary logarithm of its alignment. -/
structure IvarT where
  offset : VoidPtr
  name : String
  alignment : ℕ
  size : ℕ
  deriving DecidableEq

structure ClassHostObject where
  superclass : Class
  instanceStart : ℕ
  instanceSize : ℕ
  ivars : List (String × VoidPtr × ℕ)

inductive HostObject
  | class (c : ClassHostObject)
  | placeholder

structure ObjC where
  objects : Class → Option HostObject
  classes : List (String × Class)

structure BinClass where
  addr : Class
  name : String
  superclass : Class
  instanceStart : ℕ
  instanceSize : ℕ
  ivars : List IvarT
  substituted : Bool

structure HostClass where
  addr : Class
  name : String
  superclass : Option Class

/-- A binary with the classes it links and those it defines, and where `NSObject` is allocated if
it has not been linked before. -/
structure Binary where
  links : List HostClass
  classes : List BinClass
  nsObject : Class

def insertEntry {β : Type} (map : List (String × β)) (name : String) (b : β) : List (String × β) :=
  (name, b) :: map.filter fun e => e.1 ≠ name

def addIvarsFromBin (ivars : List IvarT) : List (String × VoidPtr × ℕ) :=
  ivars.foldl (fun map v => insertEntry map v.name (v.offset, v.alignment)) []

def guestSizeOfObject : ℕ := 4

namespace BinClass

def fromBin (c : BinClass) : HostObject :=
  if c.substituted then .placeholder
  else .class ⟨c.superclass, c.instanceStart, c.instanceSize, addIvarsFromBin c.ivars⟩

end BinClass

def HostClass.fromTemplate (c : HostClass) : HostObject :=
  match c.superclass with
  | some superclass => .class ⟨superclass, guestSizeOfObject, guestSizeOfObject, []⟩
  | none => .placeholder

namespace ObjC

def registerStaticObject (objc : ObjC) (cls : Class) (host : HostObject) : ObjC :=
  if cls = nil then objc
  else { objc with objects := Function.update objc.objects cls (some host) }

def linkClass (objc : ObjC) (c : HostClass) : Checked ObjC := do
  if objc.classes.any fun e => e.1 = c.name then return objc
  else
    assert (c.addr ≠ nil ∧ (objc.objects c.addr).isNone)
    return { objc.registerStaticObject c.addr c.fromTemplate with
      classes := insertEntry objc.classes c.name c.addr }

def registerBinClass (objc : ObjC) (c : BinClass) : ObjC :=
  if c.addr = nil then objc
  else { objc.registerStaticObject c.addr c.fromBin with
    classes := insertEntry objc.classes c.name c.addr }

def superclassOf (objc : ObjC) (cls : Class) : Option Class :=
  match objc.objects cls with
  | some (.class c) => if c.superclass = nil then none else some c.superclass
  | _ => none

def realClasses (objc : ObjC) (order : List Class) : List Class :=
  order.filter fun cls => match objc.objects cls with
    | some (.class _) => true
    | _ => false

def needIvarReconciliation (objc : ObjC) (cls : Class) : Checked (Bool × ℕ) := do
  match ← unwrap (objc.objects cls) with
  | .placeholder => return (false, 0)
  | .class c =>
    if c.superclass = nil then return (false, 0)
    else
      match ← unwrap (objc.objects c.superclass) with
      | .placeholder => return (false, 0)
      | .class superclass =>
        if c.instanceStart < superclass.instanceSize then
          return (true, superclass.instanceSize - c.instanceStart)
        else return (false, 0)

end ObjC

namespace ClassHostObject

def maxAlignment (c : ClassHostObject) : ℕ :=
  c.ivars.foldl (fun alignment v => if v.2.1 ≠ nil then max alignment v.2.2 else alignment) 1

def andNot (x mask : ℕ) : ℕ := x - (x &&& mask)

def roundedDiff (c : ClassHostObject) (diff : ℕ) : Checked ℕ :=
  if c.ivars = [] then return diff
  else do
    let sum ← addU32 diff (c.maxAlignment - 1)
    return andNot sum (c.maxAlignment - 1)

def moveIvar (diff : ℕ) (v : String × VoidPtr × ℕ) : Checked (String × VoidPtr × ℕ) :=
  if v.2.1 ≠ nil then do
    let offset ← addU32 v.2.1 diff
    return (v.1, offset, v.2.2)
  else return v

def grow (c : ClassHostObject) (diff : ℕ) : Checked ClassHostObject := do
  let diff ← c.roundedDiff diff
  let ivars ← c.ivars.mapM (moveIvar diff)
  let instanceStart ← addU32 c.instanceStart diff
  let instanceSize ← addU32 c.instanceSize diff
  return { c with instanceStart, instanceSize, ivars }

end ClassHostObject

namespace ObjC

def reconcileClass (objc : ObjC) (cls : Class) : Checked ObjC := do
  let (need, diff) ← objc.needIvarReconciliation cls
  if need then
    match ← unwrap (objc.objects cls) with
    | .class c => do
      let c ← c.grow diff
      return { objc with objects := Function.update objc.objects cls (some (.class c)) }
    | .placeholder => .error .unwrap
  else return objc

section

variable (iter : List (String × Class) → List (String × Class))

def reconcileGraph (objc : ObjC) : Checked ObjC :=
  let order := (iter objc.classes).map Prod.snd
  if order.all fun cls => (objc.objects cls).isSome then do
    let real := objc.realClasses order
    let queue := Forest.roots real objc.superclassOf
    assert queue.Nodup
    -- A class that is in no cycle is visited once.
    Forest.traverse reconcileClass (Forest.children real objc.superclassOf) real.length objc queue
  else .error .unwrap

def reconcileBinClassIvars (objc : ObjC) (nsObject : Class) : Checked ObjC := do
  let objc ← objc.linkClass ⟨nsObject, "NSObject", some nil⟩
  objc.reconcileGraph iter

def loadBinClasses (objc : ObjC) (bin : Binary) : Checked ObjC := do
  let objc ← bin.links.foldlM linkClass objc
  return bin.classes.foldl registerBinClass objc

def registerBinClasses (objc : ObjC) (bin : Binary) : Checked ObjC := do
  let objc ← objc.loadBinClasses bin
  objc.reconcileBinClassIvars iter bin.nsObject

end

def ivarOffsetPtr (objc : ObjC) (name : String) : ℕ → Class → Option VoidPtr
  | 0, _ => none
  | fuel + 1, cls =>
    match objc.objects cls with
    | some (.class c) =>
      match c.ivars.lookup name with
      | some (ptr, _) => some ptr
      | none => if c.superclass = nil then none else objc.ivarOffsetPtr name fuel c.superclass
    | _ => none

def objectLookupIvar (objc : ObjC) (mem : VoidPtr → ℕ) (name : String) (fuel : ℕ) (isa : Class) :
    Option ℕ := (objc.ivarOffsetPtr name fuel isa).map mem

end ObjC

end TouchHle.Objc.Ivars
