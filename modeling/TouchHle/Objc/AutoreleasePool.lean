import TouchHle.Lib.Table
import TouchHle.Lib.Vec
import TouchHle.Objc.Objects

namespace TouchHle.Objc.AutoreleasePool

open Lib

abbrev ThreadId := ℕ

structure NSAutoreleasePoolHostObject where
  originalThread : ThreadId
  /-- This is allowed to contain duplicates, which get released several times! -/
  objects : List Id
  deriving DecidableEq

/-- `-[NSAutoreleasePool dealloc]` at work: the objects of the pool it has just deallocated that it
has still to release, and the pools that it has still to deallocate. -/
structure Draining where
  currentThread : ThreadId
  this : Id
  objects : List Id
  toDrop : List Id
  deriving DecidableEq

structure Env where
  objects : Objects
  pools : Table Id NSAutoreleasePoolHostObject
  phantoms : Id → NSAutoreleasePoolHostObject
  poolStacks : Table ThreadId (List Id)
  draining : List Draining

namespace Env

def allocObject (env : Env) (ptr : Id) : Checked Env := do
  assert (ptr ≠ nil ∧ env.objects ptr = none)
  return { env with objects := Function.update env.objects ptr (some ⟨some .one, 0⟩) }

def allocWithZone (env : Env) (currentThread : ThreadId) (ptr : Id) : Checked Env := do
  let env ← env.allocObject ptr
  return { env with pools := env.pools.insert ptr ⟨currentThread, []⟩ }

def init (env : Env) (currentThread : ThreadId) (this : Id) : Env :=
  let poolStack := (env.poolStacks.lookup currentThread).getD []
  { env with poolStacks := env.poolStacks.insert currentThread (poolStack ++ [this]) }

def borrow (env : Env) (pool : Id) : NSAutoreleasePoolHostObject :=
  match env.pools.lookup pool with
  | some host => host
  | none => env.phantoms pool

def setObjects (env : Env) (pool : Id) (objects : List Id) : Env :=
  match env.pools.lookup pool with
  | some host => { env with pools := env.pools.insert pool { host with objects } }
  | none =>
    { env with
      phantoms := Function.update env.phantoms pool { env.phantoms pool with objects } }

def addObject (env : Env) (this obj : Id) : Env :=
  env.setObjects this ((env.borrow this).objects ++ [obj])

def addObjectToCurrent (env : Env) (currentThread : ThreadId) (obj : Id) : Env :=
  match (env.poolStacks.lookup currentThread).bind List.getLast? with
  | some currentPool => env.addObject currentPool obj
  | none => env

def takeAndDealloc (env : Env) (pool : Id) : List Id × Env :=
  let objects := (env.borrow pool).objects
  let env := env.setObjects pool []
  (objects, { env with
    objects := if pool = nil then env.objects else Function.update env.objects pool none
    pools := if pool = nil then env.pools else env.pools.erase pool })

def lookupThread (env : Env) (currentThread : ThreadId) (this : Id) : ThreadId :=
  let originalThread := (env.borrow this).originalThread
  if originalThread ∈ env.poolStacks then originalThread else currentThread

def dealloc (env : Env) (currentThread : ThreadId) (this : Id) : Env :=
  let lookupThread := env.lookupThread currentThread this
  match env.poolStacks.lookup lookupThread with
  | none => { env with draining := ⟨currentThread, this, [], [this]⟩ :: env.draining }
  | some poolStack =>
    match Vec.rposition (fun pool => decide (pool = this)) poolStack with
    | none => { env with draining := ⟨currentThread, this, [], [this]⟩ :: env.draining }
    | some index =>
      { env with
        poolStacks := env.poolStacks.insert lookupThread (poolStack.take index)
        draining := ⟨currentThread, this, [], (poolStack.drop index).reverse⟩ :: env.draining }

def retain (env : Env) (object : Id) : Env :=
  if object ∈ env.pools then env
  else { env with objects := env.objects.incrementRefcount object }

def autorelease (env : Env) (currentThread : ThreadId) (object : Id) : Env :=
  if object ∈ env.pools then env else env.addObjectToCurrent currentThread object

def release (env : Env) (currentThread : ThreadId) (object : Id) : Env :=
  let (toDealloc, objects) := env.objects.decrementRefcount object
  let env := { env with objects }
  if toDealloc ∧ object ∈ env.pools then env.dealloc currentThread object else env

def drain (env : Env) : Draining → Env
  | ⟨currentThread, this, object :: objects, toDrop⟩ =>
    { env with draining := ⟨currentThread, this, objects, toDrop⟩ :: env.draining }.release
      currentThread object
  | ⟨currentThread, this, [], pool :: toDrop⟩ =>
    let env := if pool = this then env
      else { env with objects := (env.objects.decrementRefcount pool).2 }
    let (objects, env) := env.takeAndDealloc pool
    { env with draining := ⟨currentThread, this, objects, toDrop⟩ :: env.draining }
  | ⟨_, _, [], []⟩ => env

def resume (env : Env) (i : ℕ) : Checked Env := do
  let draining ← unwrap env.draining[i]?
  return { env with draining := env.draining.eraseIdx i }.drain draining

def deallocObject (env : Env) (object : Id) : Checked Env := do
  assert (object ∉ env.pools)
  if object = nil then return env
  else return { env with objects := Function.update env.objects object none }

end Env

inductive Request
  | allocObject (ptr : Id)
  | allocPool (currentThread : ThreadId) (ptr : Id)
  | init (currentThread : ThreadId) (pool : Id)
  | addObject (pool obj : Id)
  | addObjectToCurrent (currentThread : ThreadId) (obj : Id)
  | retain (object : Id)
  | autorelease (currentThread : ThreadId) (object : Id)
  | release (currentThread : ThreadId) (object : Id)
  | deallocObject (object : Id)
  | resume (i : ℕ)

def Env.step (env : Env) : Request → Checked Env
  | .allocObject ptr => env.allocObject ptr
  | .allocPool currentThread ptr => env.allocWithZone currentThread ptr
  | .init currentThread pool => return env.init currentThread pool
  | .addObject pool obj => return env.addObject pool obj
  | .addObjectToCurrent currentThread obj => return env.addObjectToCurrent currentThread obj
  | .retain object => return env.retain object
  | .autorelease currentThread object => return env.autorelease currentThread object
  | .release currentThread object => return env.release currentThread object
  | .deallocObject object => env.deallocObject object
  | .resume i => env.resume i

end TouchHle.Objc.AutoreleasePool
