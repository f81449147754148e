import TouchHle.Lib.Vec

namespace TouchHle.Foundation

open Lib

structure OrderedSetHostObject (α : Type) where
  array : List α
  retained : α → ℤ

structure NSSet (α : Type) where
  allObjects : List α
  containsObject : α → Bool

abbrev OrderedSets (α : Type) := ℕ → OrderedSetHostObject α

namespace OrderedSetHostObject

variable {α : Type} [DecidableEq α] (host : OrderedSetHostObject α)

def retain (object : α) : OrderedSetHostObject α :=
  { host with retained := Function.update host.retained object (host.retained object + 1) }

def release (object : α) : OrderedSetHostObject α :=
  { host with retained := Function.update host.retained object (host.retained object - 1) }

section

-- `isEqual:` of the objects
variable (isEqual : α → α → Bool)

def indexOf : Option α → Option ℕ
  | none => none
  | some object =>
    host.array.findIdx? fun candidate => candidate == object || isEqual candidate object

def objectAtIndex (index : ℕ) : Option α := host.array[index]?

def containsObject (object : α) : Bool := (host.indexOf isEqual (some object)).isSome

def appendUnique (object : Option α) : OrderedSetHostObject α :=
  object.elim host fun o =>
    if (host.indexOf isEqual (some o)).isNone then
      { host.retain o with array := host.array ++ [o] }
    else host

def insertObjectAtIndex (object : Option α) (index : ℕ) : Checked (OrderedSetHostObject α) :=
  object.elim (.ok host) fun o =>
    if (host.indexOf isEqual (some o)).isSome then .ok host
    else if host.array.length < index then .ok host
    else do
      let array ← Vec.insert host.array index o
      return { host.retain o with array := array }

def removeAt (index : ℕ) : Checked (OrderedSetHostObject α) := do
  let removed ← Vec.remove host.array index
  return { host.release removed.1 with array := removed.2 }

def removeObject (object : Option α) : Checked (OrderedSetHostObject α) :=
  (host.indexOf isEqual object).elim (.ok host) host.removeAt

def removeObjectAtIndex (index : ℕ) : Checked (OrderedSetHostObject α) :=
  if host.array.length ≤ index then .ok host else host.removeAt index

def removeAllObjects : OrderedSetHostObject α :=
  host.array.foldl release { host with array := [] }

def replaceObjectAtIndex (index : ℕ) (object : Option α) : Checked (OrderedSetHostObject α) :=
  object.elim (.ok host) fun o =>
    if host.array.length ≤ index then .ok host
    else if (host.indexOf isEqual (some o)).any (· ≠ index) then .ok host
    else do
      let old ← Vec.replace host.array index o
      return { (host.retain o).release old.1 with array := old.2 }

def setObjectAtIndex (object : Option α) (index : ℕ) : Checked (OrderedSetHostObject α) :=
  if index = host.array.length then .ok (host.appendUnique isEqual object)
  else host.replaceObjectAtIndex isEqual index object

def exchangeObjectAtIndex (index₁ index₂ : ℕ) : Checked (OrderedSetHostObject α) :=
  if host.array.length ≤ index₁ ∨ host.array.length ≤ index₂ then .ok host
  else do
    let array ← Vec.swap host.array index₁ index₂
    return { host with array := array }

def addObjectsFromArray (objects : Option (List α)) : OrderedSetHostObject α :=
  objects.elim host fun l => l.foldl (fun host o => host.appendUnique isEqual (some o)) host

def minusSet (other : Option (NSSet α)) : Checked (OrderedSetHostObject α) :=
  other.elim (.ok host) fun set =>
    set.allObjects.foldlM (fun host o => host.removeObject isEqual (some o)) host

def intersectSet (other : Option (NSSet α)) : Checked (OrderedSetHostObject α) :=
  host.array.foldlM
    (fun host o =>
      if other.any (·.containsObject o) then .ok host else host.removeObject isEqual (some o))
    host

end

end OrderedSetHostObject

inductive OrderedSetCommand (α : Type)
  | addObject (object : Option α)
  | addObjectsFromArray (objects : Option (List α))
  | insertObjectAtIndex (object : Option α) (index : ℕ)
  | removeObject (object : Option α)
  | removeObjectAtIndex (index : ℕ)
  | removeAllObjects
  | replaceObjectAtIndex (index : ℕ) (object : Option α)
  | setObjectAtIndex (object : Option α) (index : ℕ)
  | exchangeObjectAtIndex (index₁ index₂ : ℕ)
  | unionOrderedSet (other : Option ℕ)
  | unionSet (other : Option (NSSet α))
  | minusOrderedSet (other : Option ℕ)
  | minusSet (other : Option (NSSet α))
  | intersectOrderedSet (other : Option ℕ)
  | intersectSet (other : Option (NSSet α))

namespace OrderedSets

open OrderedSetHostObject

variable {α : Type} [DecidableEq α] (sets : OrderedSets α) (isEqual : α → α → Bool) (this : ℕ)

def update (method : OrderedSetHostObject α → Checked (OrderedSetHostObject α)) :
    Checked (OrderedSets α) := do
  return Function.update sets this (← method (sets this))

def unionOrderedSet (other : Option ℕ) : OrderedSets α :=
  other.elim sets fun other =>
    (List.range (sets other).array.length).foldl
      (fun sets i => Function.update sets this
        ((sets this).appendUnique isEqual ((sets other).objectAtIndex i)))
      sets

def minusOrderedSet (other : Option ℕ) : Checked (OrderedSets α) :=
  other.elim (.ok sets) fun other =>
    (List.range (sets other).array.length).foldlM
      (fun sets i => update sets this (·.removeObject isEqual ((sets other).objectAtIndex i)))
      sets

def intersectOrderedSet (other : Option ℕ) : Checked (OrderedSets α) :=
  (sets this).array.foldlM
    (fun sets o =>
      if other.any fun other => (sets other).containsObject isEqual o then .ok sets
      else update sets this (·.removeObject isEqual (some o)))
    sets

def step : OrderedSetCommand α → Checked (OrderedSets α)
  | .addObject object => update sets this fun host => .ok (host.appendUnique isEqual object)
  | .addObjectsFromArray objects =>
    update sets this fun host => .ok (host.addObjectsFromArray isEqual objects)
  | .insertObjectAtIndex object index =>
    update sets this (·.insertObjectAtIndex isEqual object index)
  | .removeObject object => update sets this (·.removeObject isEqual object)
  | .removeObjectAtIndex index => update sets this (·.removeObjectAtIndex index)
  | .removeAllObjects => update sets this fun host => .ok host.removeAllObjects
  | .replaceObjectAtIndex index object =>
    update sets this (·.replaceObjectAtIndex isEqual index object)
  | .setObjectAtIndex object index => update sets this (·.setObjectAtIndex isEqual object index)
  | .exchangeObjectAtIndex index₁ index₂ =>
    update sets this (·.exchangeObjectAtIndex index₁ index₂)
  | .unionOrderedSet other => .ok (sets.unionOrderedSet isEqual this other)
  | .unionSet other =>
    update sets this fun host => .ok (host.addObjectsFromArray isEqual (other.map (·.allObjects)))
  | .minusOrderedSet other => sets.minusOrderedSet isEqual this other
  | .minusSet other => update sets this (·.minusSet isEqual other)
  | .intersectOrderedSet other => sets.intersectOrderedSet isEqual this other
  | .intersectSet other => update sets this (·.intersectSet isEqual other)

def run (sets : OrderedSets α) : List (ℕ × OrderedSetCommand α) → Checked (List (OrderedSets α))
  | [] => return []
  | (this, command) :: commands => do
    let sets ← sets.step isEqual this command
    return sets :: (← run sets commands)

def empty : OrderedSets α := fun _ => ⟨[], fun _ => 0⟩

end OrderedSets

end TouchHle.Foundation
