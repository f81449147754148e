import TouchHle.Lib.Unicode

namespace TouchHle.Foundation

open Lib

inductive Json (N : Type)
  | null
  | bool (b : Bool)
  | number (n : N)
  | string (s : List Char)
  | array (items : List (Json N))
  | dictionary (entries : List (List Char × Json N))

def setObject {α : Type} : List (List Char × α) → List Char → α → List (List Char × α)
  | [], k, v => [(k, v)]
  | (k', v') :: entries, k, v =>
    if k' = k then (k, v) :: entries else (k', v') :: setObject entries k v

def Json.IsContainer {N : Type} : Json N → Prop
  | .array _ => True
  | .dictionary _ => True
  | _ => False

instance {N : Type} : (v : Json N) → Decidable v.IsContainer
  | .array _ => isTrue trivial
  | .dictionary _ => isTrue trivial
  | .null => isFalse id
  | .bool _ => isFalse id
  | .number _ => isFalse id
  | .string _ => isFalse id

abbrev Digit := Fin 10

def Digit.char (d : Digit) : Char := Char.ofNat (48 + d)

structure Exponent where
  upper : Bool
  sign : Option Bool
  digits : List Digit
  deriving DecidableEq

structure Numeral where
  minus : Bool
  int : List Digit
  frac : Option (List Digit)
  exp : Option Exponent
  deriving DecidableEq

def Exponent.text (e : Exponent) : List Char :=
  (if e.upper then 'E' else 'e') ::
    (e.sign.elim [] fun minus => [if minus then '-' else '+']) ++ e.digits.map Digit.char

def Numeral.text (n : Numeral) : List Char :=
  (if n.minus then ['-'] else []) ++ n.int.map Digit.char ++
    (n.frac.elim [] fun ds => '.' :: ds.map Digit.char) ++ n.exp.elim [] Exponent.text

def Numeral.WellFormed (n : Numeral) : Prop :=
  n.int ≠ [] ∧ (n.int.head? = some 0 → n.int = [0]) ∧ n.frac ≠ some [] ∧
    ∀ e ∈ n.exp, e.digits ≠ []

instance (n : Numeral) : Decidable n.WellFormed := inferInstanceAs (Decidable (_ ∧ _ ∧ _ ∧ _))

def whitespace : List Char := [' ', '\t', '\n', '\r']

def Blank (w : List Char) : Prop := ∀ c ∈ w, c ∈ whitespace

def hexDigit (code : ℕ) : Option ℕ :=
  if '0'.toNat ≤ code ∧ code ≤ '9'.toNat then some (code - '0'.toNat)
  else if 'a'.toNat ≤ code ∧ code ≤ 'f'.toNat then some (code - 'a'.toNat + 10)
  else if 'A'.toNat ≤ code ∧ code ≤ 'F'.toNat then some (code - 'A'.toNat + 10)
  else none

inductive Hex4 : List Char → ℕ → Prop
  | mk {a b c d : Char} {i j k l : ℕ} : hexDigit a.toNat = some i → hexDigit b.toNat = some j →
      hexDigit c.toNat = some k → hexDigit d.toNat = some l →
      Hex4 [a, b, c, d] (((i * 16 + j) * 16 + k) * 16 + l)

def escapes : List (Char × Char) :=
  [('"', '"'), ('\\', '\\'), ('/', '/'), ('b', '\x08'), ('f', '\x0c'), ('n', '\n'), ('r', '\r'),
    ('t', '\t')]

inductive Item : Char → List Char → Prop
  | plain {c : Char} : 0x20 ≤ c.toNat → c ≠ '"' → c ≠ '\\' → Item c [c]
  | escape {e c : Char} : (e, c) ∈ escapes → Item c ['\\', e]
  | unicode {h : List Char} {c : Char} : Hex4 h c.toNat → Item c ('\\' :: 'u' :: h)
  | pair {h l : List Char} {hi lo : ℕ} {c : Char} : Hex4 h hi → Hex4 l lo →
      0xD800 ≤ hi → hi ≤ 0xDBFF →
      0xDC00 ≤ lo → lo ≤ 0xDFFF →
      c.toNat = 0x10000 + (hi - 0xD800) * 2 ^ 10 + (lo - 0xDC00) →
      Item c ('\\' :: 'u' :: h ++ '\\' :: 'u' :: l)

inductive Items : List Char → List Char → Prop
  | nil : Items [] []
  | cons {c : Char} {cs t ts : List Char} : Item c t → Items cs ts → Items (c :: cs) (t ++ ts)

lemma Item.ne_nil {c : Char} {t : List Char} (h : Item c t) : t ≠ [] := by
  cases h <;> rintro ⟨⟩

lemma Items.length_le {cs t : List Char} (h : Items cs t) : cs.length ≤ t.length := by
  induction h with
  | nil => exact le_rfl
  | @cons c cs t ts hitem _ ih =>
    have hpos := List.length_pos_of_ne_nil hitem.ne_nil
    rw [List.length_cons, List.length_append]
    omega

/-- What a piece of text stands for: a value, a value with blanks around it, the items of an array
or the entries of a dictionary. -/
inductive Form (N : Type)
  | value (v : Json N)
  | padded (v : Json N)
  | elements (vs : List (Json N))
  | members (es : List (List Char × Json N))

inductive Spells {N : Type} (read : Numeral → Option N) : Form N → List Char → Prop
  | null : Spells read (.value .null) ['n', 'u', 'l', 'l']
  | true : Spells read (.value (.bool true)) ['t', 'r', 'u', 'e']
  | false : Spells read (.value (.bool false)) ['f', 'a', 'l', 's', 'e']
  | number {n : Numeral} {x : N} : n.minus = true ∨ n.int ≠ [] → read n = some x →
      Spells read (.value (.number x)) n.text
  | string {s t : List Char} : Items s t → Spells read (.value (.string s)) ('"' :: t ++ ['"'])
  | emptyArray {w : List Char} : Blank w → Spells read (.value (.array [])) ('[' :: w ++ [']'])
  | array {vs : List (Json N)} {t : List Char} : Spells read (.elements vs) t →
      Spells read (.value (.array vs)) ('[' :: t ++ [']'])
  | emptyDictionary {w : List Char} : Blank w →
      Spells read (.value (.dictionary [])) ('{' :: w ++ ['}'])
  | dictionary {es : List (List Char × Json N)} {t : List Char} : Spells read (.members es) t →
      Spells read (.value (.dictionary (es.foldl (fun d e => setObject d e.1 e.2) [])))
        ('{' :: t ++ ['}'])
  | padded {v : Json N} {w t w' : List Char} : Blank w → Spells read (.value v) t → Blank w' →
      Spells read (.padded v) (w ++ t ++ w')
  | element {v : Json N} {t : List Char} : Spells read (.padded v) t →
      Spells read (.elements [v]) t
  | elements {v : Json N} {vs : List (Json N)} {t ts : List Char} : Spells read (.padded v) t →
      Spells read (.elements vs) ts → Spells read (.elements (v :: vs)) (t ++ ',' :: ts)
  | member {k : List Char} {v : Json N} {w s w' t : List Char} : Blank w → Items k s → Blank w' →
      Spells read (.padded v) t →
      Spells read (.members [(k, v)]) (w ++ '"' :: s ++ '"' :: w' ++ ':' :: t)
  | members {k : List Char} {v : Json N} {es : List (List Char × Json N)}
      {w s w' t ts : List Char} : Blank w → Items k s → Blank w' → Spells read (.padded v) t →
      Spells read (.members es) ts →
      Spells read (.members ((k, v) :: es)) (w ++ '"' :: s ++ '"' :: w' ++ ':' :: t ++ ',' :: ts)

def IsText {N : Type} (read : Numeral → Option N) (fragments : Prop) (bytes : List UInt8) : Prop :=
  ∃ cs v, bytes = utf8 cs ∧ Spells read (.padded v) cs ∧ (fragments ∨ v.IsContainer)

def standard (n : Numeral) : Option Numeral := if n.WellFormed then some n else none

end TouchHle.Foundation

namespace TouchHle.Foundation.JsonParser

open Lib

inductive Stop
  | malformed
  | exhausted
  deriving DecidableEq

def isBlank (b : UInt8) : Bool := b = ascii ' ' || b = ascii '\t' || b = ascii '\n' || b = ascii '\r'

def skipWs (bs : List UInt8) : List UInt8 := bs.dropWhile isBlank

def token (c : Char) (bs : List UInt8) : Option (List UInt8) :=
  match skipWs bs with
  | b :: bs => if b = ascii c then some bs else none
  | [] => none

def expect (literal : List Char) (bs : List UInt8) : Except Stop (List UInt8) :=
  let bytes := literal.map ascii
  if bytes.isPrefixOf bs then return bs.drop bytes.length else throw .malformed

def parseHex : ℕ → ℕ → List UInt8 → Option (ℕ × List UInt8)
  | 0, v, bs => some (v, bs)
  | _ + 1, _, [] => none
  | n + 1, v, b :: bs => do
    let d ← hexDigit b.toNat
    parseHex n (v * 16 + d) bs

def parseHex4 (bs : List UInt8) : Option (ℕ × List UInt8) := parseHex 4 0 bs

def parseUnicode (bs : List UInt8) : Option (Char × List UInt8) := do
  let (code, bs) ← parseHex4 bs
  if 0xD800 ≤ code ∧ code ≤ 0xDBFF then
    match bs with
    | b :: b' :: bs =>
      if b = ascii '\\' ∧ b' = ascii 'u' then do
        let (low, bs) ← parseHex4 bs
        if 0xDC00 ≤ low ∧ low ≤ 0xDFFF then
          let c ← charFromU32 (0x10000 + (code - 0xD800) * 2 ^ 10 + (low - 0xDC00))
          return (c, bs)
        else none
      else none
    | _ => none
  else do
    let c ← charFromU32 code
    return (c, bs)

def escaped (b : UInt8) : Option Char := (escapes.find? fun e => ascii e.1 = b).map Prod.snd

def parseEscape : List UInt8 → Option (Char × List UInt8)
  | [] => none
  | b :: bs =>
    if b = ascii 'u' then parseUnicode bs
    else do
      let c ← escaped b
      return (c, bs)

def parseWide (bs : List UInt8) : Option (Char × List UInt8) := do
  let cs ← fromUtf8 bs
  let c ← cs.head?
  return (c, bs.drop c.utf8Size)

def stringRound : List UInt8 → Option (Option Char × List UInt8)
  | [] => none
  | b :: bs =>
    if b = ascii '"' then some (none, bs)
    else if b = ascii '\\' then (parseEscape bs).map fun x => (some x.1, x.2)
    else if b < 0x20 then none
    else if b < 0x80 then some (some (asChar b), bs)
    else (parseWide (b :: bs)).map fun x => (some x.1, x.2)

def stringLoop : ℕ → List UInt8 → Except Stop (List Char × List UInt8)
  | 0, _ => throw .exhausted
  | fuel + 1, bs =>
    match stringRound bs with
    | none => throw .malformed
    | some (none, bs) => return ([], bs)
    | some (some c, bs) => do
      let (cs, bs) ← stringLoop fuel bs
      return (c :: cs, bs)

def parseString (bs : List UInt8) : Except Stop (List Char × List UInt8) := stringLoop (bs.length + 1) bs

def digit (b : UInt8) : Option Digit :=
  if h : 48 ≤ b.toNat ∧ b.toNat < 58 then some ⟨b.toNat - 48, by omega⟩ else none

def scanDigits : List UInt8 → List Digit × List UInt8
  | [] => ([], [])
  | b :: bs =>
    match digit b with
    | none => ([], b :: bs)
    | some d => (d :: (scanDigits bs).1, (scanDigits bs).2)

def scanMinus : List UInt8 → Bool × List UInt8
  | [] => (false, [])
  | b :: bs => if b = ascii '-' then (true, bs) else (false, b :: bs)

def scanFraction : List UInt8 → Option (List Digit) × List UInt8
  | [] => (none, [])
  | b :: bs =>
    if b = ascii '.' then (some (scanDigits bs).1, (scanDigits bs).2) else (none, b :: bs)

def scanSign : List UInt8 → Option Bool × List UInt8
  | [] => (none, [])
  | b :: bs =>
    if b = ascii '+' then (some false, bs)
    else if b = ascii '-' then (some true, bs)
    else (none, b :: bs)

def scanExponent : List UInt8 → Option Exponent × List UInt8
  | [] => (none, [])
  | b :: bs =>
    if b = ascii 'e' ∨ b = ascii 'E' then
      let (sign, bs) := scanSign bs
      let (digits, bs) := scanDigits bs
      (some ⟨b = ascii 'E', sign, digits⟩, bs)
    else (none, b :: bs)

def scanNumber (bs : List UInt8) : Numeral × List UInt8 :=
  let (minus, bs) := scanMinus bs
  let (int, bs) := scanDigits bs
  let (frac, bs) := scanFraction bs
  let (exp, bs) := scanExponent bs
  (⟨minus, int, frac, exp⟩, bs)

def parseNumber {N : Type} (read : Numeral → Option N) (bs : List UInt8) : Except Stop (N × List UInt8) :=
  match read (scanNumber bs).1 with
  | none => throw .malformed
  | some n => return (n, (scanNumber bs).2)

def parseKey (bs : List UInt8) : Except Stop (List Char × List UInt8) :=
  match token '"' bs with
  | none => throw .malformed
  | some bs => do
    let (k, bs) ← parseString bs
    match token ':' bs with
    | none => throw .malformed
    | some bs => return (k, bs)

mutual

def parseValue {N : Type} (read : Numeral → Option N) : ℕ → List UInt8 → Except Stop (Json N × List UInt8)
  | 0, _ => throw .exhausted
  | fuel + 1, bs =>
    match skipWs bs with
    | [] => throw .malformed
    | b :: bs =>
      if b = ascii '{' then
        match token '}' bs with
        | some bs => return (.dictionary [], bs)
        | none => do
          let (es, bs) ← parseMembers read fuel [] bs
          return (.dictionary es, bs)
      else if b = ascii '[' then
        match token ']' bs with
        | some bs => return (.array [], bs)
        | none => do
          let (vs, bs) ← parseElements read fuel [] bs
          return (.array vs, bs)
      else if b = ascii '"' then do
        let (s, bs) ← parseString bs
        return (.string s, bs)
      else if b = ascii 't' then do
        let bs ← expect ['t', 'r', 'u', 'e'] (b :: bs)
        return (.bool true, bs)
      else if b = ascii 'f' then do
        let bs ← expect ['f', 'a', 'l', 's', 'e'] (b :: bs)
        return (.bool false, bs)
      else if b = ascii 'n' then do
        let bs ← expect ['n', 'u', 'l', 'l'] (b :: bs)
        return (.null, bs)
      else if b = ascii '-' ∨ (digit b).isSome then do
        let (n, bs) ← parseNumber read (b :: bs)
        return (.number n, bs)
      else throw .malformed

def parseMembers {N : Type} (read : Numeral → Option N) : ℕ → List (List Char × Json N) →
    List UInt8 → Except Stop (List (List Char × Json N) × List UInt8)
  | 0, _, _ => throw .exhausted
  | fuel + 1, acc, bs => do
    let (k, bs) ← parseKey bs
    let (v, bs) ← parseValue read fuel bs
    match token ',' bs with
    | some bs => parseMembers read fuel (setObject acc k v) bs
    | none =>
      match token '}' bs with
      | some bs => return (setObject acc k v, bs)
      | none => throw .malformed

def parseElements {N : Type} (read : Numeral → Option N) : ℕ → List (Json N) → List UInt8 →
    Except Stop (List (Json N) × List UInt8)
  | 0, _, _ => throw .exhausted
  | fuel + 1, acc, bs => do
    let (v, bs) ← parseValue read fuel bs
    match token ',' bs with
    | some bs => parseElements read fuel (acc ++ [v]) bs
    | none =>
      match token ']' bs with
      | some bs => return (acc ++ [v], bs)
      | none => throw .malformed

end

def rounds (bs : List UInt8) : ℕ := 2 * bs.length + 2

def parseRoot {N : Type} (read : Numeral → Option N) (bs : List UInt8) : Except Stop (Json N) := do
  let (v, rest) ← parseValue read (rounds bs) bs
  if skipWs rest = [] then return v else throw .malformed

inductive NSNumber (F : Type)
  | longLong (i : {i : ℤ // -2 ^ 63 ≤ i ∧ i < 2 ^ 63})
  | unsignedLongLong (u : Fin (2 ^ 64))
  | double (f : F)

def isFloat (n : Numeral) : Bool := n.frac.isSome || n.exp.isSome

def decimal (ds : List Digit) : ℕ := ds.foldl (fun v (d : Digit) => v * 10 + d.val) 0

def parseI64 (n : Numeral) : Option {i : ℤ // -2 ^ 63 ≤ i ∧ i < 2 ^ 63} :=
  let i : ℤ := if n.minus then -decimal n.int else decimal n.int
  if h : n.int ≠ [] ∧ -2 ^ 63 ≤ i ∧ i < 2 ^ 63 then some ⟨i, h.2⟩ else none

def parseU64 (n : Numeral) : Option (Fin (2 ^ 64)) :=
  if h : n.minus = false ∧ n.int ≠ [] ∧ decimal n.int < 2 ^ 64 then some ⟨decimal n.int, h.2.2⟩
  else none

def parseF64 {F : Type} (value : Numeral → F) (n : Numeral) : Option F :=
  if (n.int ≠ [] ∨ n.frac.getD [] ≠ []) ∧ ∀ e ∈ n.exp, e.digits ≠ [] then some (value n) else none

def readNumber {F : Type} (value : Numeral → F) (n : Numeral) : Option (NSNumber F) :=
  if isFloat n then (parseF64 value n).map .double
  else
    match parseI64 n with
    | some i => some (.longLong i)
    | none =>
      match parseU64 n with
      | some u => some (.unsignedLongLong u)
      | none => (parseF64 value n).map .double

def jsonObjectWithData {F : Type} (value : Numeral → F) (allowFragments : Bool)
    (data : List UInt8) : Option (Json (NSNumber F)) :=
  match fromUtf8 data with
  | none => none
  | some _ =>
    match parseRoot (readNumber value) data with
    | .error _ => none
    | .ok v => if allowFragments ∨ v.IsContainer then some v else none

end TouchHle.Foundation.JsonParser
