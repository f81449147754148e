import TouchHle.Lib.Checked
import TouchHle.Lib.Text
import TouchHle.Lib.Words

namespace TouchHle.Strings

open Lib

structure NSRange where
  location : ℕ
  length : ℕ
  deriving DecidableEq

structure NSString where
  units : List UInt16
  length_lt : units.length < 2 ^ 32

def NSString.length (s : NSString) : ℕ := s.units.length

def NSString.characterAtIndex (s : NSString) (i : ℕ) : UInt16 := s.units.getD i 0

def notFound : NSRange := ⟨0x7FFFFFFF, 0⟩

def caseInsensitiveSearch : ℕ := 1
def literalSearch : ℕ := 2
def backwardsSearch : ℕ := 4

def charFromU32 (u : UInt16) : Option Char :=
  if u < 0xD800 ∨ 0xDFFF < u then some (Char.ofNat u.toNat) else none

def isMatchAtPosition (s t : NSString) (start : ℕ) (compare : UInt16 → UInt16 → Bool) : Bool :=
  (List.range t.length).all fun j =>
    if start + j < s.length then compare (s.characterAtIndex (start + j)) (t.characterAtIndex j) else false

def found (t : NSString) : Option ℕ → NSRange
  | some i => ⟨i, t.length⟩
  | none => notFound

section

-- `char::to_lowercase`
variable (toLowercase : Char → List Char)

def sameLowercase (a b : Char) : Bool := toLowercase a = toLowercase b

def compareCharacters (a b : UInt16) : Bool :=
  match charFromU32 a, charFromU32 b with
  | some a, some b => sameLowercase toLowercase a b
  | _, _ => false

def compareCharactersOrUnits (a b : UInt16) : Bool :=
  match charFromU32 a, charFromU32 b with
  | some a, some b => sameLowercase toLowercase a b
  | _, _ => a == b

def compareLiteral (a b : UInt16) : Bool := a == b

def rangeOfStringOptions (s t : NSString) (options : ℕ) : NSRange :=
  if t.length = 0 then notFound
  else if options = literalSearch ∨ options = 0 then
    found t (firstIn (fun i => isMatchAtPosition s t i compareLiteral) 0 s.length)
  else if options = caseInsensitiveSearch then
    found t (firstIn (fun i => isMatchAtPosition s t i (compareCharacters toLowercase)) 0 s.length)
  else if options = backwardsSearch then
    found t (lastIn (fun i => isMatchAtPosition s t i compareLiteral) 0 s.length)
  else
    found t (firstIn (fun i => isMatchAtPosition s t i compareLiteral) 0 s.length)

def rangeOfString (s t : NSString) : NSRange := rangeOfStringOptions toLowercase s t 0

def isCaseInsensitive (options : ℕ) : Bool := options &&& caseInsensitiveSearch ≠ 0

def isBackwards (options : ℕ) : Bool := options &&& backwardsSearch ≠ 0

def comparison (options : ℕ) : UInt16 → UInt16 → Bool :=
  if isCaseInsensitive options then compareCharactersOrUnits toLowercase else compareLiteral

def rangeOfStringOptionsRange (s t : NSString) (options : ℕ) (searchRange : NSRange) :
    Checked NSRange := do
  if t.length = 0 ∨ s.length ≤ searchRange.location ∨ searchRange.length = 0 then return notFound
  else
    let sum ← addU32 searchRange.location searchRange.length
    let endBound := min sum s.length
    let maxStart := endBound - t.length
    if maxStart < searchRange.location then return notFound
    else
      let isMatch i := isMatchAtPosition s t i (comparison toLowercase options)
      if isBackwards options then return found t (lastIn isMatch searchRange.location (maxStart + 1))
      else return found t (firstIn isMatch searchRange.location (maxStart + 1))

end

end TouchHle.Strings
