import TouchHle.Lib.Unicode
import TouchHle.Memory.Malloc

namespace TouchHle.Stdio

open Lib Memory

section

variable {α : Type}

def fillRight (c : α) (width : ℕ) (s : List α) : List α := s ++ List.replicate (width - s.length) c

def fillLeft (c : α) (width : ℕ) (s : List α) : List α := List.replicate (width - s.length) c ++ s

def fill (zero blank : α) (width : ℕ) (zeros left : Bool) (s : List α) : List α :=
  if left then fillRight blank width s else fillLeft (if zeros then zero else blank) width s

end

def blank : UInt8 := 32
def zero : UInt8 := 48
def minus : UInt8 := 45
def plus : UInt8 := 43

def digits (base n : ℕ) : List UInt8 := (Nat.toDigits base n).map ascii

def capital (b : UInt8) : UInt8 := if 97 ≤ b ∧ b ≤ 122 then b - 32 else b

def bytesOf (s : String) : List UInt8 := s.toList.map ascii

def showInt (v : ℤ) : List UInt8 := (if v < 0 then [minus] else []) ++ digits 10 v.natAbs

def showIntZeros (v : ℤ) (width : ℕ) : List UInt8 :=
  if v < 0 then minus :: fillLeft zero (width - 1) (digits 10 v.natAbs)
  else fillLeft zero width (digits 10 v.natAbs)

def countUntil (stops : ℕ → Bool) : ℕ → ℕ → ℕ
  | 0, len => len
  | limit + 1, len => if stops len then len else countUntil stops limit (len + 1)

def maxCstrLen : ℕ := 65536
def maxWcstrLen : ℕ := 16384

def offsetBy (ptr : UInt32) (n : ℕ) : ℕ := (ptr.toNat + n) % 2 ^ 32

def strlen (m : Mem) (s : UInt32) : ℕ := countUntil (fun i => m.read (offsetBy s i) = 0) (2 ^ 32) 0

def cstrAt (m : Mem) (ptr : UInt32) : List UInt8 :=
  m.load (m.bytesAt ptr.toNat (countUntil (fun i => m.read (offsetBy ptr i) = 0) maxCstrLen 0))

def chunks : List UInt8 → List ℕ
  | a :: b :: c :: d :: bs =>
    (a.toNat + 256 * b.toNat + 256 ^ 2 * c.toNat + 256 ^ 3 * d.toNat) :: chunks bs
  | _ => []

def readWchar (m : Mem) (ptr : ℕ) : ℕ :=
  match chunks (m.load (m.bytesAt ptr 4)) with
  | [w] => w
  | _ => 0

def wcstrAt (m : Mem) (ptr : UInt32) : List Char :=
  let len := countUntil (fun i => readWchar m (offsetBy ptr (4 * i)) = 0) maxWcstrLen 0
  (chunks (m.load (m.bytesAt ptr.toNat (4 * len)))).map fun w => (charFromU32 w).getD '\uFFFD'

structure Args where
  word : ℕ → UInt32
  offset : ℕ

namespace Args

def next (a : Args) : UInt32 × Args := (a.word a.offset, { a with offset := a.offset + 1 })

def next64 (a : Args) : UInt64 × Args :=
  ((a.word a.offset).toUInt64 + (a.word (a.offset + 1)).toUInt64 * 0x100000000,
    { a with offset := a.offset + 2 })

end Args

def maxFieldWidth : ℕ := 2 ^ 20
def maxTotalOutput : ℕ := 64 * 1024 * 1024

def allSpecifiers : List Char :=
  ['d', 'i', 'o', 'u', 'x', 'X', 'f', 'F', 'e', 'E', 'g', 'G', 'a', 'A', 'c', 's', 'p', 'n', 'C', 'S',
    '%', '@', 'D', 'U', 'O', '[']

inductive LengthModifier
  | hh | h | l | ll | L
  deriving DecidableEq

structure Directive where
  prependSign : Bool
  alternativeForm : Bool
  zeroPad : Bool
  leftJustified : Bool
  padWidth : ℕ
  precision : Option ℕ
  lengthModifier : Option LengthModifier
  specifier : Char

def formatChar (fmt : List UInt8) : Char := asChar (fmt.headD 0)

def readFlag (c : Char) (fmt : List UInt8) : Bool × List UInt8 :=
  if formatChar fmt = c then (true, fmt.tail) else (false, fmt)

def isDigit (b : UInt8) : Bool := 48 ≤ b && b ≤ 57

def readNumber (limit : ℕ) : List UInt8 → ℕ → ℕ × List UInt8
  | [], n => (n, [])
  | c :: fmt, n =>
    if isDigit c then readNumber limit fmt (min limit (min limit (n * 10) + (c.toNat - 48)))
    else (n, c :: fmt)

def readPadWidth (fmt : List UInt8) (args : Args) : ℤ × List UInt8 × Args :=
  if formatChar fmt = '*' then
    let (w, args) := args.next
    (w.toInt32.toInt, fmt.tail, args)
  else
    let (n, fmt) := readNumber (2 ^ 31 - 1) fmt 0
    (n, fmt, args)

def readPrecision (fmt : List UInt8) (args : Args) : Option ℕ × List UInt8 × Args :=
  if formatChar fmt = '.' then
    if formatChar fmt.tail = '*' then
      let (w, args) := args.next
      (some (min w.toInt32.toInt.toNat maxFieldWidth), fmt.tail.tail, args)
    else
      let (n, fmt) := readNumber (2 ^ 64 - 1) fmt.tail 0
      (some (min n maxFieldWidth), fmt, args)
  else (none, fmt, args)

def readLengthModifier (fmt : List UInt8) : Option LengthModifier × List UInt8 :=
  match formatChar fmt with
  | 'h' => if formatChar fmt.tail = 'h' then (some .hh, fmt.tail.tail) else (some .h, fmt.tail)
  | 'l' => if formatChar fmt.tail = 'l' then (some .ll, fmt.tail.tail) else (some .l, fmt.tail)
  | 'q' => (some .ll, fmt.tail)
  | 'j' => (some .ll, fmt.tail)
  | 'z' | 't' => (some .l, fmt.tail)
  | 'L' => (some .L, fmt.tail)
  | _ => (none, fmt)

def readDirective (fmt : List UInt8) (args : Args) : Directive × List UInt8 × Args :=
  let (prependSign, fmt) := readFlag '+' fmt
  let (alternativeForm, fmt) := readFlag '#' fmt
  let (zeroPad, fmt) := readFlag '0' fmt
  let (leftJustified, fmt) := readFlag '-' fmt
  let (width, fmt, args) := readPadWidth fmt args
  let (precision, fmt, args) := readPrecision fmt args
  let (lengthModifier, fmt) := readLengthModifier fmt
  ({ prependSign, alternativeForm, zeroPad, precision, lengthModifier
     leftJustified := if width < 0 then true else leftJustified
     padWidth := min width.natAbs maxFieldWidth
     specifier := formatChar fmt }, fmt, args)

namespace Directive

def applyPad (d : Directive) (s : List UInt8) : List UInt8 :=
  if d.padWidth = 0 ∨ d.padWidth ≤ s.length then s
  else fill zero blank d.padWidth d.zeroPad d.leftJustified s

def intWithPrec (d : Directive) (v : ℤ) : List UInt8 :=
  match d.precision with
  | some (p + 1) => showIntZeros v (p + 1)
  | some 0 => if v = 0 then [] else showInt v
  | none => showInt v

def applyIntPad (d : Directive) (v : ℤ) : List UInt8 :=
  if d.padWidth = 0 then
    if d.prependSign ∧ 0 ≤ v then plus :: d.intWithPrec v else d.intWithPrec v
  else if d.zeroPad ∧ d.precision = none ∧ ¬ d.leftJustified then
    if d.prependSign then
      (if 0 ≤ v then plus else minus) :: fillLeft zero (d.padWidth - 1) (digits 10 v.natAbs)
    else fillLeft zero d.padWidth (showInt v)
  else if d.leftJustified then fillRight blank d.padWidth (d.intWithPrec v)
  else fillLeft blank d.padWidth (d.intWithPrec v)

def uintWithPrec (d : Directive) (v : ℕ) : List UInt8 :=
  match d.precision with
  | some (p + 1) => fillLeft zero (p + 1) (digits 10 v)
  | some 0 => if v = 0 then [] else digits 10 v
  | none => digits 10 v

def applyUintPad (d : Directive) (v : ℕ) : List UInt8 := d.applyPad (d.uintWithPrec v)

def nextInt (d : Directive) (args : Args) : ℤ × Args :=
  match d.lengthModifier with
  | some .ll => (args.next64.1.toInt64.toInt, args.next64.2)
  | some .hh => (args.next.1.toInt32.toInt8.toInt, args.next.2)
  | some .h => (args.next.1.toInt32.toInt16.toInt, args.next.2)
  | _ => (args.next.1.toInt32.toInt, args.next.2)

def nextUint (d : Directive) (args : Args) : ℕ × Args :=
  match d.lengthModifier with
  | some .ll => (args.next64.1.toNat, args.next64.2)
  | some .hh => (args.next.1.toUInt8.toNat, args.next.2)
  | some .h => (args.next.1.toUInt16.toNat, args.next.2)
  | _ => (args.next.1.toNat, args.next.2)

def formatOctal (d : Directive) (v : ℕ) : List UInt8 :=
  let pre := if d.alternativeForm ∧ v ≠ 0 then [zero] else []
  if 0 < d.padWidth then
    if d.zeroPad ∧ d.precision = none ∧ ¬ d.leftJustified then
      if d.alternativeForm ∧ v ≠ 0 then zero :: fillLeft zero (d.padWidth - 1) (digits 8 v)
      else fillLeft zero d.padWidth (digits 8 v)
    else if d.leftJustified then fillRight blank d.padWidth (pre ++ digits 8 v)
    else fillLeft blank d.padWidth (pre ++ digits 8 v)
  else
    match d.precision with
    | some (p + 1) => pre ++ fillLeft zero (p + 1) (digits 8 v)
    | _ => pre ++ digits 8 v

def hexWithPrec (d : Directive) (hex : List UInt8) : List UInt8 :=
  match d.precision with
  | some p => fillLeft zero p hex
  | none => hex

def formatHex (d : Directive) (letters : UInt8 → UInt8) (v : ℕ) : List UInt8 :=
  let hex := (digits 16 v).map letters
  let mark := [zero, letters 120]
  let pre := if d.alternativeForm ∧ v ≠ 0 then mark else []
  if 0 < d.padWidth then
    if d.zeroPad ∧ d.precision = none ∧ ¬ d.leftJustified then
      if d.alternativeForm ∧ v ≠ 0 then mark ++ fillLeft zero (d.padWidth - 2) hex
      else fillLeft zero d.padWidth hex
    else if d.leftJustified then fillRight blank d.padWidth (pre ++ d.hexWithPrec hex)
    else fillLeft blank d.padWidth (pre ++ d.hexWithPrec hex)
  else
    match d.precision with
    | some p => if p = 0 ∧ v = 0 then [] else pre ++ fillLeft zero p hex
    | none => pre ++ hex

def pad (d : Directive) (s : List UInt8) : List UInt8 :=
  if 0 < d.padWidth then fill zero blank d.padWidth d.zeroPad d.leftJustified s else s

def padChars (d : Directive) (s : List Char) : List UInt8 :=
  utf8 (if 0 < d.padWidth then fill '0' ' ' d.padWidth d.zeroPad d.leftJustified s else s)

def formatByte (d : Directive) (c : UInt8) : List UInt8 :=
  if 0 < d.padWidth then d.pad (digits 10 c.toNat) else [c]

def truncated (d : Directive) (m : Mem) (s : UInt32) : List UInt8 :=
  match d.precision with
  | some p => m.load (m.bytesAt s.toNat (min (strlen m s) p))
  | none => cstrAt m s

def formatString (d : Directive) (m : Mem) (s : UInt32) : List UInt8 :=
  if s = 0 then
    d.pad (match d.precision with
      | some p => (bytesOf "(null)").take p
      | none => bytesOf "(null)")
  else if 0 < d.padWidth then d.padChars (fromUtf8Lossy (d.truncated m s))
  else d.truncated m s

def truncatedWide (d : Directive) (m : Mem) (s : UInt32) : List Char :=
  match d.precision with
  | some p => (wcstrAt m s).take p
  | none => wcstrAt m s

def formatWideString (d : Directive) (m : Mem) (s : UInt32) : List UInt8 :=
  d.padChars (if s = 0 then "(null)".toList else d.truncatedWide m s)

end Directive

structure Formatter where
  float : Directive → UInt64 → List UInt8
  describe : Option (UInt32 → List UInt8)

structure Output where
  mem : Mem
  args : Args
  res : List UInt8

namespace Output

def put (s : Output) (args : Args) (bytes : List UInt8) : Output :=
  { s with args, res := s.res ++ bytes }

def convert (f : Formatter) (d : Directive) (s : Output) : Output :=
  let word := s.args.next.1
  let rest := s.args.next.2
  match d.specifier with
  | 'c' =>
    if d.lengthModifier = some .l then s.put rest (utf8 [(charFromU32 word.toNat).getD '?'])
    else s.put rest (d.formatByte word.toUInt8)
  | 'C' => s.put rest (d.padChars [(charFromU32 word.toUInt16.toNat).getD '?'])
  | 's' =>
    if d.lengthModifier = some .l then s.put rest (d.formatWideString s.mem word)
    else s.put rest (d.formatString s.mem word)
  | 'S' =>
    if word = 0 then s.put rest (bytesOf "(null)") else s.put rest (d.formatWideString s.mem word)
  | 'd' | 'i' => s.put (d.nextInt s.args).2 (d.applyIntPad (d.nextInt s.args).1)
  | 'u' => s.put (d.nextUint s.args).2 (d.applyUintPad (d.nextUint s.args).1)
  | '@' =>
    match f.describe with
    | some describe => s.put rest (describe word)
    | none => s
  | 'o' => s.put (d.nextUint s.args).2 (d.formatOctal (d.nextUint s.args).1)
  | 'x' => s.put (d.nextUint s.args).2 (d.formatHex id (d.nextUint s.args).1)
  | 'X' => s.put (d.nextUint s.args).2 (d.formatHex capital (d.nextUint s.args).1)
  | 'p' => s.put rest (d.pad (bytesOf "0x" ++ digits 16 word.toNat))
  | 'f' | 'e' | 'g' | 'F' | 'E' | 'G' | 'a' | 'A' =>
    s.put s.args.next64.2 (f.float d s.args.next64.1)
  | 'n' =>
    if word = 0 then { s with args := rest }
    else { s with args := rest, mem := s.mem.writeU32 word.toNat s.res.length }
  | 'D' => s.put rest (d.applyIntPad word.toInt32.toInt)
  | 'U' => s.put rest (d.applyUintPad word.toNat)
  | 'O' =>
    s.put rest (d.applyPad ((if d.alternativeForm ∧ word ≠ 0 then [zero] else []) ++
      digits 8 word.toNat))
  | _ => s

def loop (f : Formatter) : ℕ → List UInt8 → Output → Output
  | 0, _, s => s
  | rounds + 1, fmt, s =>
    if maxTotalOutput ≤ s.res.length then s
    else
      match fmt with
      | [] => s
      | c :: fmt =>
        if c = 0 then s
        else if asChar c ≠ '%' then loop f rounds fmt (s.put s.args [c])
        else
          let (d, rest, args) := readDirective fmt s.args
          let s := { s with args }
          if d.specifier ∉ allSpecifiers then loop f rounds rest s
          else if d.specifier = '%' then loop f rounds rest.tail (s.put args [c])
          else loop f rounds rest.tail (convert f d s)

end Output

def printfInner (f : Formatter) (m : Mem) (fmt : List UInt8) (args : Args) : Output :=
  Output.loop f fmt.length fmt ⟨m, args, []⟩

end TouchHle.Stdio
