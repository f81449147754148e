import TouchHle.Strings.Searching

namespace TouchHle.Strings

structure CharacterSetHostObject where
  /-- whether its class is the mutable one -/
  isMutable : Bool
  set : Finset UInt16
  inverted : Bool
  deriving DecidableEq

namespace CharacterSetHostObject

variable (host other : CharacterSetHostObject)

def charactersInRange (range : NSRange) : Finset UInt16 :=
  let last := min (range.location + range.length) (2 ^ 32 - 1)
  (((List.range' range.location (last - range.location)).filter (· < 2 ^ 16)).map
    UInt16.ofNat).toFinset

def characterIsMember (c : UInt16) : Bool := (decide (c ∈ host.set)).xor host.inverted

def addCharacters (chars : Finset UInt16) : CharacterSetHostObject :=
  { host with set := host.set ∪ chars }

def removeCharacters (chars : Finset UInt16) : CharacterSetHostObject :=
  { host with set := host.set \ chars }

def addCharactersInString (string : List UInt16) : CharacterSetHostObject :=
  host.addCharacters string.toFinset

def removeCharactersInString (string : List UInt16) : CharacterSetHostObject :=
  host.removeCharacters string.toFinset

def addCharactersInRange (range : NSRange) : CharacterSetHostObject :=
  host.addCharacters (charactersInRange range)

def removeCharactersInRange (range : NSRange) : CharacterSetHostObject :=
  host.removeCharacters (charactersInRange range)

def unionWithCharacterSet : CharacterSetHostObject := host.addCharacters other.set

def intersectWithCharacterSet : CharacterSetHostObject :=
  { host with set := host.set.filter (· ∈ other.set) }

def formUnionWithCharacterSet : CharacterSetHostObject := host.addCharacters other.set

def formIntersectionWithCharacterSet : CharacterSetHostObject :=
  { host with set := host.set.filter (· ∈ other.set) }

def invert : CharacterSetHostObject := { host with inverted := !host.inverted }

def invertedSet : CharacterSetHostObject := ⟨false, host.set, !host.inverted⟩

def isSupersetOfSet : Bool :=
  if other.inverted then false
  else decide (∀ c ∈ other.set, host.characterIsMember c = true)

end CharacterSetHostObject

structure CharacterSets where
  heap : ℕ → CharacterSetHostObject
  next : ℕ
  references : List ℕ

inductive CharacterSetCommand
  | characterSetWithCharactersInString (isMutable : Bool) (string : List UInt16)
  | characterSetWithRange (isMutable : Bool) (range : NSRange)
  | addCharactersInString (this : ℕ) (string : List UInt16)
  | removeCharactersInString (this : ℕ) (string : List UInt16)
  | addCharactersInRange (this : ℕ) (range : NSRange)
  | removeCharactersInRange (this : ℕ) (range : NSRange)
  | unionWithCharacterSet (this other : ℕ)
  | intersectWithCharacterSet (this other : ℕ)
  | formUnionWithCharacterSet (this other : ℕ)
  | formIntersectionWithCharacterSet (this other : ℕ)
  | invert (this : ℕ)
  | invertedSet (this : ℕ)
  | copyWithZone (this : ℕ)
  | mutableCopyWithZone (this : ℕ)
  | characterIsMember (this : ℕ) (c : UInt16)
  | isSupersetOfSet (this other : ℕ)
  | isEqual (this other : ℕ)

inductive CharacterSetReply
  | done
  | set (reference : ℕ)
  | bool (b : Bool)
  deriving DecidableEq

namespace CharacterSets

open CharacterSetHostObject

variable (s : CharacterSets)

def empty : CharacterSets := ⟨fun _ => ⟨false, ∅, false⟩, 0, []⟩

def alloc (host : CharacterSetHostObject) : CharacterSets × CharacterSetReply :=
  (⟨Function.update s.heap s.next host, s.next + 1, s.references ++ [s.next]⟩,
    .set s.references.length)

def retain (object : ℕ) : CharacterSets × CharacterSetReply :=
  ({ s with references := s.references ++ [object] }, .set s.references.length)

def mutate (this : ℕ) (f : CharacterSetHostObject → CharacterSetHostObject) :
    Option (CharacterSets × CharacterSetReply) :=
  (s.references[this]?).bind fun i =>
    if (s.heap i).isMutable then
      some ({ s with heap := Function.update s.heap i (f (s.heap i)) }, .done)
    else none

def mutateWith (this other : ℕ)
    (f : CharacterSetHostObject → CharacterSetHostObject → CharacterSetHostObject) :
    Option (CharacterSets × CharacterSetReply) :=
  (s.references[other]?).bind fun j => s.mutate this fun host => f host (s.heap j)

def copyWithZone (i : ℕ) : CharacterSets × CharacterSetReply :=
  if (s.heap i).isMutable then s.alloc ⟨false, (s.heap i).set, (s.heap i).inverted⟩
  else s.retain i

def mutableCopyWithZone (i : ℕ) : CharacterSets × CharacterSetReply :=
  if (s.heap i).isMutable then s.retain i
  else s.alloc ⟨true, (s.heap i).set, (s.heap i).inverted⟩

def isEqual (i j : ℕ) : Bool :=
  if (s.heap i).isMutable then i == j
  else i == j ||
    ((s.heap i).set == (s.heap j).set && (s.heap i).inverted == (s.heap j).inverted)

def step : CharacterSetCommand → Option (CharacterSets × CharacterSetReply)
  | .characterSetWithCharactersInString isMutable string =>
    some (s.alloc ⟨isMutable, string.toFinset, false⟩)
  | .characterSetWithRange isMutable range =>
    some (s.alloc ⟨isMutable, charactersInRange range, false⟩)
  | .addCharactersInString this string => s.mutate this (·.addCharactersInString string)
  | .removeCharactersInString this string => s.mutate this (·.removeCharactersInString string)
  | .addCharactersInRange this range => s.mutate this (·.addCharactersInRange range)
  | .removeCharactersInRange this range => s.mutate this (·.removeCharactersInRange range)
  | .unionWithCharacterSet this other => s.mutateWith this other unionWithCharacterSet
  | .intersectWithCharacterSet this other => s.mutateWith this other intersectWithCharacterSet
  | .formUnionWithCharacterSet this other => s.mutateWith this other formUnionWithCharacterSet
  | .formIntersectionWithCharacterSet this other =>
    s.mutateWith this other formIntersectionWithCharacterSet
  | .invert this => s.mutate this invert
  | .invertedSet this => (s.references[this]?).map fun i => s.alloc (s.heap i).invertedSet
  | .copyWithZone this => (s.references[this]?).map s.copyWithZone
  | .mutableCopyWithZone this => (s.references[this]?).map s.mutableCopyWithZone
  | .characterIsMember this c =>
    (s.references[this]?).map fun i => (s, .bool ((s.heap i).characterIsMember c))
  | .isSupersetOfSet this other =>
    (s.references[this]?).bind fun i => (s.references[other]?).bind fun j =>
      if (s.heap i).isMutable then none
      else some (s, .bool ((s.heap i).isSupersetOfSet (s.heap j)))
  | .isEqual this other =>
    (s.references[this]?).bind fun i => (s.references[other]?).map fun j =>
      (s, .bool (s.isEqual i j))

def replies (s : CharacterSets) : List CharacterSetCommand → Option (List CharacterSetReply)
  | [] => some []
  | command :: commands => (s.step command).bind fun p =>
    (replies p.1 commands).map (p.2 :: ·)

end CharacterSets

end TouchHle.Strings
