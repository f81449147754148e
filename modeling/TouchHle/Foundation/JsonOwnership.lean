import TouchHle.Lib.RefHeap
import TouchHle.Foundation.JsonParser

namespace TouchHle.Foundation.JsonOwnership

open Lib JsonParser

abbrev Id := ℕ

def nil : Id := 0

def null : Id := 1

structure Env where
  heap : RefHeap
  pool : List Id

namespace Env

def alloc (env : Env) : Id × Env := (env.heap.next, { env with heap := env.heap.create })

def autorelease (env : Env) (x : Id) : Env := { env with pool := env.pool ++ [x] }

def release (env : Env) (x : Id) : Env := { env with heap := env.heap.release x }

def allocAutoreleased (env : Env) : Id × Env := (env.alloc.1, env.alloc.2.autorelease env.alloc.1)

end Env

abbrev Entry := List Char × Id × Id

def entryItems (entries : List Entry) : List Id := entries.flatMap fun e => [e.2.1, e.2.2]

def insertEntry : List Entry → List Char → Id → Id → List Entry × Option Id
  | [], k, key, val => ([(k, key, val)], none)
  | (k', key', val') :: es, k, key, val =>
    if k' = k then ((k', key', val) :: es, some val')
    else
      let (es, old) := insertEntry es k key val
      ((k', key', val') :: es, old)

def Env.setObject (env : Env) (dict : Id) (entries : List Entry) (k : List Char) (key val : Id) :
    List Entry × Env :=
  let heap := ((env.heap.setItems dict []).retain key).retain val
  let (entries, old) := insertEntry entries k key val
  let heap := match old with
    | none => heap
    | some old => heap.release old
  (entries, { env with heap := heap.setItems dict (entryItems entries) })

def Env.addObject (env : Env) (array object : Id) : Env :=
  let heap := env.heap.retain object
  { env with heap := heap.setItems array (heap.items array ++ [object]) }

def Env.copyAutoreleased (env : Env) (container : Id) : Id × Env :=
  let (copy, env) := env.alloc
  let items := env.heap.items container
  (copy, { env with heap := (env.heap.retainAll items).setItems copy items }.autorelease copy)

def Env.finish (mutableContainers : Bool) (env : Env) (container : Id) : Id × Env :=
  if mutableContainers then (container, env) else env.copyAutoreleased container

inductive Kind
  | container
  | string
  | number
  | null
  deriving DecidableEq

structure Made where
  id : Id
  kind : Kind

abbrev Outcome (α : Type) := Except Stop (α × List UInt8) × Env

variable {N : Type}

def parseKeyString (bs : List UInt8) : Except Stop (List Char × List UInt8) :=
  match token '"' bs with
  | none => throw .malformed
  | some bs => parseString bs

def makeNumber (env : Env) (bs : List UInt8) : Outcome Made :=
  (.ok (⟨env.allocAutoreleased.1, .number⟩, bs), env.allocAutoreleased.2)

def closeContainer (mutableContainers : Bool) (container : Id) : Outcome Unit → Outcome Made
  | (.error e, env) => (.error e, env)
  | (.ok ((), bs), env) =>
    let (x, env) := env.finish mutableContainers container
    (.ok (⟨x, .container⟩, bs), env)

mutual

def parseValue (mutableContainers : Bool) (read : Numeral → Option N) :
    ℕ → List UInt8 → Env → Outcome Made
  | 0, _, env => (.error .exhausted, env)
  | fuel + 1, bs, env =>
    match skipWs bs with
    | [] => (.error .malformed, env)
    | b :: bs =>
      if b = ascii '{' then
        let (dict, env) := env.allocAutoreleased
        closeContainer mutableContainers dict
          (match token '}' bs with
            | some bs => (.ok ((), bs), env)
            | none => parseMembers mutableContainers read fuel dict [] bs env)
      else if b = ascii '[' then
        let (arr, env) := env.allocAutoreleased
        closeContainer mutableContainers arr
          (match token ']' bs with
            | some bs => (.ok ((), bs), env)
            | none => parseElements mutableContainers read fuel arr bs env)
      else if b = ascii '"' then
        match parseString bs with
        | .error e => (.error e, env)
        | .ok (_, bs) => (.ok (⟨env.alloc.1, .string⟩, bs), env.alloc.2)
      else if b = ascii 't' then
        match expect ['t', 'r', 'u', 'e'] (b :: bs) with
        | .error e => (.error e, env)
        | .ok bs => makeNumber env bs
      else if b = ascii 'f' then
        match expect ['f', 'a', 'l', 's', 'e'] (b :: bs) with
        | .error e => (.error e, env)
        | .ok bs => makeNumber env bs
      else if b = ascii 'n' then
        match expect ['n', 'u', 'l', 'l'] (b :: bs) with
        | .error e => (.error e, env)
        | .ok bs => (.ok (⟨null, .null⟩, bs), env)
      else if b = ascii '-' ∨ (digit b).isSome then
        match parseNumber read (b :: bs) with
        | .error e => (.error e, env)
        | .ok (_, bs) => makeNumber env bs
      else (.error .malformed, env)

def parseMembers (mutableContainers : Bool) (read : Numeral → Option N) :
    ℕ → Id → List Entry → List UInt8 → Env → Outcome Unit
  | 0, _, _, _, env => (.error .exhausted, env)
  | fuel + 1, dict, entries, bs, env =>
    match parseKeyString bs with
    | .error e => (.error e, env)
    | .ok (k, bs) =>
      let (key, env) := env.alloc
      match token ':' bs with
      | none => (.error .malformed, env)
      | some bs =>
        match parseValue mutableContainers read fuel bs env with
        | (.error e, env) => (.error e, env)
        | (.ok (val, bs), env) =>
          let (entries, env) := env.setObject dict entries k key val.id
          let env := env.release key
          match token ',' bs with
          | some bs => parseMembers mutableContainers read fuel dict entries bs env
          | none =>
            match token '}' bs with
            | some bs => (.ok ((), bs), env)
            | none => (.error .malformed, env)

def parseElements (mutableContainers : Bool) (read : Numeral → Option N) :
    ℕ → Id → List UInt8 → Env → Outcome Unit
  | 0, _, _, env => (.error .exhausted, env)
  | fuel + 1, arr, bs, env =>
    match parseValue mutableContainers read fuel bs env with
    | (.error e, env) => (.error e, env)
    | (.ok (val, bs), env) =>
      let env := env.addObject arr val.id
      match token ',' bs with
      | some bs => parseElements mutableContainers read fuel arr bs env
      | none =>
        match token ']' bs with
        | some bs => (.ok ((), bs), env)
        | none => (.error .malformed, env)

end

def jsonObjectWithData (mutableContainers allowFragments : Bool) (read : Numeral → Option N)
    (data : List UInt8) (env : Env) : Id × Env :=
  match fromUtf8 data with
  | none => (nil, env)
  | some _ =>
    match parseValue mutableContainers read (rounds data) data env with
    | (.error _, env) => (nil, env)
    | (.ok (result, rest), env) =>
      if skipWs rest ≠ [] then (nil, env)
      else if allowFragments = false ∧ result.kind ≠ .container then (nil, env)
      else (result.id, env.autorelease result.id)

def Env.settled (retains : ℕ) (result : Id) (env : Env) : RefHeap :=
  ((env.heap.retainAll (List.replicate retains result)).drain env.pool).drain (List.replicate retains result)

def Balances (mutableContainers allowFragments : Bool) (read : Numeral → Option N) (data : List UInt8)
    (retains : ℕ) (env : Env) : Prop :=
  let (result, t) := jsonObjectWithData mutableContainers allowFragments read data env
  (t.settled retains result).faulted = false ∧ ∀ x, env.heap.next ≤ x → (t.settled retains result).count x = 0

def kindOf : Json N → Kind
  | .null => .null
  | .bool _ => .number
  | .number _ => .number
  | .string _ => .string
  | .array _ => .container
  | .dictionary _ => .container

mutual

def losesValue (read : Numeral → Option N) : ℕ → List UInt8 → Bool
  | 0, _ => false
  | fuel + 1, bs =>
    match skipWs bs with
    | [] => false
    | b :: bs =>
      if b = ascii '{' then
        match token '}' bs with
        | some _ => false
        | none => losesMembers read fuel [] bs
      else if b = ascii '[' then
        match token ']' bs with
        | some _ => false
        | none => losesElements read fuel bs
      else false

def losesMembers (read : Numeral → Option N) : ℕ → List (List Char) → List UInt8 → Bool
  | 0, _, _ => false
  | fuel + 1, keys, bs =>
    match parseKeyString bs with
    | .error _ => false
    | .ok (k, bs) =>
      match token ':' bs with
      | none => true
      | some bs =>
        match JsonParser.parseValue read fuel bs with
        | .error _ => true
        | .ok (v, rest) =>
          losesValue read fuel bs || kindOf v = .string || keys.contains k ||
            match token ',' rest with
            | some rest => losesMembers read fuel (k :: keys) rest
            | none => false

def losesElements (read : Numeral → Option N) : ℕ → List UInt8 → Bool
  | 0, _ => false
  | fuel + 1, bs =>
    losesValue read fuel bs ||
      match JsonParser.parseValue read fuel bs with
      | .error _ => false
      | .ok (v, rest) =>
        kindOf v = .string ||
          match token ',' rest with
          | some rest => losesElements read fuel rest
          | none => false

end

def LosesNothing (allowFragments : Bool) (read : Numeral → Option N) (data : List UInt8) : Prop :=
  match fromUtf8 data with
  | none => True
  | some _ => losesValue read (rounds data) data = false ∧
    match JsonParser.parseValue read (rounds data) data with
    | .error _ => True
    | .ok (v, rest) =>
      if skipWs rest ≠ [] ∨ allowFragments = false ∧ kindOf v ≠ .container then kindOf v ≠ .string
      else kindOf v = .string ∨ kindOf v = .null

end TouchHle.Foundation.JsonOwnership
