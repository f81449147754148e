import TouchHle.Lib.Ieee
import TouchHle.Lib.Text
import TouchHle.Trainer.Values

/-! The files of hacks: a line written for a saved hack, the lines read back and applied, and the files read
again when they have changed. -/

namespace TouchHle.Trainer

open Lib Lib.Text

def lowSigned (k bits : ℕ) : ℤ :=
  if bits % 2 ^ k < 2 ^ (k - 1) then (bits % 2 ^ k : ℕ) else (bits % 2 ^ k : ℕ) - 2 ^ k

def formatInt (i : ℤ) : List Char :=
  if i < 0 then '-' :: Nat.toDigits 10 i.natAbs else Nat.toDigits 10 i.natAbs

def divEven (n d : ℕ) : ℕ :=
  if 2 * (n % d) < d ∨ 2 * (n % d) = d ∧ n / d % 2 = 0 then n / d else n / d + 1

def formatF32 (bits : ℕ) : List Char :=
  match binary32.decode bits with
  | .nan _ => ['N', 'a', 'N']
  | .infinite negative => if negative then ['-', 'i', 'n', 'f'] else ['i', 'n', 'f']
  | .finite negative magnitude =>
    let q := divEven (magnitude * 10 ^ 4) floatOne
    (if negative then ['-'] else []) ++ Nat.toDigits 10 (q / 10 ^ 4) ++
      '.' :: [3, 2, 1, 0].map fun i => Nat.digitChar (q / 10 ^ i % 10)

namespace VType

def name : VType → List Char
  | auto => ['A', 'U', 'T', 'O']
  | u8 => ['U', '8']
  | i8 => ['I', '8']
  | u16 => ['U', '1', '6']
  | i16 => ['I', '1', '6']
  | u32 => ['U', '3', '2']
  | i32 => ['I', '3', '2']
  | f32 => ['F', '3', '2']

def format (t : VType) (bits : ℕ) : List Char :=
  match t with
  | auto => formatInt (lowSigned 32 bits)
  | u8 => formatInt (bits % 2 ^ 8 : ℕ)
  | i8 => formatInt (lowSigned 8 bits)
  | u16 => formatInt (bits % 2 ^ 16 : ℕ)
  | i16 => formatInt (lowSigned 16 bits)
  | u32 => formatInt (bits % 2 ^ 32 : ℕ)
  | i32 => formatInt (lowSigned 32 bits)
  | f32 => formatF32 (bits % 2 ^ 32)

end VType

namespace Hacks

structure Patch where
  addr : ℕ
  vtype : VType
  bits : ℕ
  freeze : Bool
  deriving DecidableEq

def Patch.key (p : Patch) : ℕ × VType × ℕ := (p.addr, p.vtype, p.bits)

instance key_lawfulBEq : LawfulBEq (ℕ × VType × ℕ) := inferInstance

def upperHex (n : ℕ) : List Char := (Nat.toDigits 16 n).map Char.toUpper

def freezeWord : List Char := ['f', 'r', 'e', 'e', 'z', 'e']

def hackLine (p : Patch) : List Char :=
  '0' :: 'x' :: upperHex p.addr ++ '=' :: p.vtype.format p.bits ++ ' ' :: '#' :: ' ' :: p.vtype.name ++
    if p.freeze then ' ' :: freezeWord else []

def parseAddrValue (rest : List Char) : Option (List Char × List Char) := do
  let (addr, value) ← splitOnce '=' (trim rest)
  if trim addr = [] ∨ trim value = [] then none else some (trim addr, trim value)

def stripHex : List Char → Option (List Char)
  | '0' :: 'x' :: hex | '0' :: 'X' :: hex => some hex
  | _ => none

def parseHackInteger (text : List Char) : ℕ :=
  match (stripHex text).bind (fromStrRadix 0 (2 ^ 64 - 1) 16) with
  | some bits => bits.toNat % 2 ^ 32
  | none =>
    match fromStrRadix (-2 ^ 63) (2 ^ 63 - 1) 10 text with
    | some v => VType.ofInt v % 2 ^ 32
    | none =>
      match fromStrRadix 0 (2 ^ 64 - 1) 10 text with
      | some v => v.toNat % 2 ^ 32
      | none => 0

def parseHackValue (read : VType.ReadF32) (text : List Char) : VType × ℕ :=
  let text := trim text
  match read text with
  | some f =>
    if '.' ∈ text ∨ 'e' ∈ text ∨ 'E' ∈ text then (.f32, f.toNat) else (.i32, parseHackInteger text)
  | none => (.i32, parseHackInteger text)

def trimStartHex : List Char → List Char
  | '0' :: 'x' :: rest => trimStartHex rest
  | text => text

def startsWithHex : List Char → Bool
  | '0' :: 'x' :: _ => true
  | _ => false

def sectionHeader (line : List Char) : Option (List Char) :=
  if line.head? = some '[' ∧ line.getLast? = some ']' then some (trim line.tail.dropLast) else none

def inlineTag (line : List Char) : Option (List Char) × List Char :=
  match splitOnce ':' line with
  | some (app, rest) =>
    if '.' ∈ app ∧ startsWithHex app = false then (some (trim app), trim rest) else (none, line)
  | none => (none, line)

def patchApp (fileApp sectionApp : Option (List Char)) (line : List Char) : Option (List Char) :=
  ((inlineTag line).1.or sectionApp).or fileApp

def parseLine (read : VType.ReadF32) (fileApp currentApp sectionApp : Option (List Char))
    (freeze : Bool) (line : List Char) : Option Patch :=
  match parseAddrValue (inlineTag line).2 with
  | none => none
  | some (addr, value) =>
    if (patchApp fileApp sectionApp line).all fun app => some app = currentApp then
      let v := parseHackValue read value
      (fromStrRadix 0 (2 ^ 32 - 1) 16 (trimStartHex addr)).map fun addr => ⟨addr.toNat, v.1, v.2, freeze⟩
    else none

def strippedLine (raw : List Char) : List Char := trim (upTo '#' raw)

def freezes (raw : List Char) : Bool := decide (freezeWord <:+: raw.map Char.toLower)

def parseLines (read : VType.ReadF32) (fileApp currentApp : Option (List Char)) :
    Option (List Char) → List (List Char) → List Patch
  | _, [] => []
  | sectionApp, raw :: rest =>
    if strippedLine raw = [] then parseLines read fileApp currentApp sectionApp rest
    else
      match sectionHeader (strippedLine raw) with
      | some app => parseLines read fileApp currentApp (some app) rest
      | none =>
        (parseLine read fileApp currentApp sectionApp (freezes raw) (strippedLine raw)).toList ++
          parseLines read fileApp currentApp sectionApp rest

def parseHackText (read : VType.ReadF32) (text : List Char) (fileApp currentApp : Option (List Char)) :
    List Patch :=
  parseLines read fileApp currentApp none (text.splitOn '\n')

structure TrainerState where
  appId : Option (List Char)
  applied : List (ℕ × VType × ℕ)
  frozen : List Patch

def TrainerState.initial (appId : Option (List Char)) : TrainerState := ⟨appId, [], []⟩

def applyPatch (s : Mem × TrainerState) (p : Patch) : Mem × TrainerState :=
  if p.key ∈ s.2.applied then s
  else
    ((p.vtype.writeAt s.1 p.addr p.bits).2,
      { s.2 with
        applied := s.2.applied ++ [p.key]
        frozen := if p.freeze then s.2.frozen ++ [{ p with freeze := true }] else s.2.frozen })

structure HackFiles where
  global : Option (List Char)
  ofApp : List Char → Option (List Char)

def HackFiles.patches (read : VType.ReadF32) (files : HackFiles) (currentApp : Option (List Char)) :
    List Patch :=
  (files.global.map fun text => parseHackText read text none currentApp).getD [] ++
    (do
      let app ← currentApp
      let text ← files.ofApp app
      some (parseHackText read text (some app) (some app))).getD []

def loadAndApplyHacks (read : VType.ReadF32) (s : Mem × TrainerState) (files : HackFiles) :
    Mem × TrainerState :=
  (files.patches read s.2.appId).foldl applyPatch s

end Hacks

end TouchHle.Trainer
