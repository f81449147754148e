import TouchHle.Lib.Table
import TouchHle.Objc.Objects

namespace TouchHle.Foundation

open Lib Objc

export Objc (Id)

/-- What a dictionary does to the ownership of its keys and values: a retain, a copy or a callback in
place of one, and what gives it back. -/
inductive Ownership
  | tookKey (o : Id)
  | gaveKey (o : Id)
  | tookValue (o : Id)
  | gaveValue (o : Id)
  deriving DecidableEq

structure DictionaryHostObject where
  map : Buckets Id Id
  count : ℕ

structure Held where
  dict : DictionaryHostObject
  calls : List Ownership

def Held.empty : Held := ⟨⟨∅, 0⟩, []⟩

namespace Held

def call (s : Held) (c : Ownership) : Held := { s with calls := s.calls ++ [c] }

def setMap (s : Held) (h : ℕ) (collisions : List (Id × Id)) : Held :=
  { s with dict := { s.dict with map := s.dict.map.insert h collisions } }

def setCount (s : Held) (n : ℕ) : Held := { s with dict := { s.dict with count := n } }

end Held

def replaceFirst (p : Id → Bool) (value : Id) : List (Id × Id) → Option (Id × List (Id × Id))
  | [] => none
  | (k, v) :: l =>
    if p k then some (v, (k, value) :: l)
    else (replaceFirst p value l).map fun r => (r.1, (k, v) :: r.2)

structure KeyMessages where
  hash : Id → ℕ
  isEqual : Id → Id → Bool
  copy : ℕ → Id → Id

namespace KeyMessages

variable (m : KeyMessages)

def finds (key candidate : Id) : Bool := candidate == key || m.isEqual candidate key

def lookup (s : Held) (key : Id) : Id :=
  match s.dict.map.lookup (m.hash key) with
  | none => nil
  | some collisions =>
    match collisions.find? fun p => m.finds key p.1 with
    | some p => p.2
    | none => nil

def kept (s : Held) (key : Id) (copyKey : Bool) : Id :=
  if copyKey then m.copy s.calls.length key else key

def file (s : Held) (key value : Id) : Held :=
  match s.dict.map.lookup (m.hash key) with
  | none => (s.setMap (m.hash key) [(key, value)]).setCount (s.dict.count + 1)
  | some collisions =>
    match replaceFirst (m.finds key) value collisions with
    | some (existing, collisions) => (s.call (.gaveValue existing)).setMap (m.hash key) collisions
    | none => (s.setMap (m.hash key) (collisions ++ [(key, value)])).setCount (s.dict.count + 1)

def insert (s : Held) (key value : Id) (copyKey : Bool) : Held :=
  let key := m.kept s key copyKey
  m.file ((s.call (.tookKey key)).call (.tookValue value)) key value

def remove (s : Held) (key : Id) : Held :=
  let hash := m.hash key
  match s.dict.map.lookup hash with
  | none => s
  | some collisions =>
    match collisions.find? fun p => m.finds key p.1 with
    | none => s
    | some (existing, value) =>
      (((s.call (.gaveKey existing)).call (.gaveValue value)).setMap hash
        (collisions.eraseP fun p => m.finds key p.1)).setCount (s.dict.count - 1)

end KeyMessages

structure CFDictionaryKeyCallBacks where
  retain : Option (ℕ → Id → Id)
  release : Bool
  equal : Option (Id → Id → Bool)
  hash : Option (Id → ℕ)

structure CFDictionaryValueCallBacks where
  retain : Option (ℕ → Id → Id)
  release : Bool

structure CFCallBacks where
  key : CFDictionaryKeyCallBacks
  value : CFDictionaryValueCallBacks

namespace CFCallBacks

variable (cb : CFCallBacks)

def hash (key : Id) : ℕ := (cb.key.hash.map fun f => f key).getD key

def equalKeys (key1 key2 : Id) : Bool := (cb.key.equal.map fun f => f key1 key2).getD (key1 == key2)

def retainKey (s : Held) (key : Id) : Id × Held :=
  let key := (cb.key.retain.map fun f => f s.calls.length key).getD key
  (key, s.call (.tookKey key))

def retainValue (s : Held) (value : Id) : Id × Held :=
  let value := (cb.value.retain.map fun f => f s.calls.length value).getD value
  (value, s.call (.tookValue value))

def lookup (s : Held) (key : Id) : Id :=
  match s.dict.map.lookup (cb.hash key) with
  | none => nil
  | some collisions =>
    match collisions.find? fun p => cb.equalKeys p.1 key with
    | some p => p.2
    | none => nil

def remove (s : Held) (key : Id) : Bool × Held :=
  match s.dict.map.lookup (cb.hash key) with
  | none => (false, s)
  | some collisions =>
    match collisions.find? fun p => cb.equalKeys p.1 key with
    | none => (false, s)
    | some (existing, value) =>
      let s := s.setMap (cb.hash key) (collisions.eraseP fun p => cb.equalKeys p.1 key)
      (true, ((s.call (.gaveKey existing)).call (.gaveValue value)).setCount (s.dict.count - 1))

def insert (s : Held) (key value : Id) : Checked Held := do
  let hash := cb.hash key
  let (key, s) := cb.retainKey s key
  let (value, s) := cb.retainValue s value
  let s := s.setCount (s.dict.count + 1)
  match s.dict.map.lookup hash with
  | none => return s.setMap hash [(key, value)]
  | some _ =>
    let (_, s) := cb.remove s key
    let collisions ← unwrap (s.dict.map.lookup hash)
    return s.setMap hash (collisions ++ [(key, value)])

end CFCallBacks

end TouchHle.Foundation
