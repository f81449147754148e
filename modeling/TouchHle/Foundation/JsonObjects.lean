import TouchHle.Lib.Checked
import TouchHle.Foundation.JsonParser

namespace TouchHle.Foundation.JsonWriter

open Lib List

structure Floats (F : Type) where
  isFinite : F → Bool
  real : F → ℚ
  negative : F → Bool
  display : F → List Char
  parse : Numeral → F

inductive NSNumberHostObject (F : Type)
  | bool (b : Bool)
  | unsignedLongLong (u : UInt64)
  | unsignedInt (u : UInt32)
  | int (i : Int32)
  | longLong (i : Int64)
  | float (f : F)
  | double (f : F)
  | short (i : Int16)
  | unsignedShort (u : UInt16)
  | char (i : Int8)

inductive StringHostObject
  | utf8 (s : List Char)
  | utf16 (units : List UInt16)

def StringHostObject.toUtf8 : StringHostObject → Option (List Char)
  | .utf8 s => some s
  | .utf16 units => fromUtf16 units

abbrev Id := ℕ

inductive HostObject (F : Type)
  | null
  | number (n : NSNumberHostObject F)
  | string (s : StringHostObject)
  | array (items : List Id)
  | dictionary (pairs : List (Id × Id))
  | other

def HostObject.text {F : Type} : HostObject F → Option (List Char)
  | .string s => s.toUtf8
  | _ => none

/-- Objects that refer to each other in any way. The null pointer is of no class, and no two keys of
a dictionary are the same text. -/
structure Objects (F : Type) where
  host : Id → HostObject F
  nil : host 0 = .other
  distinct : ∀ id pairs, host id = .dictionary pairs →
    pairs.Pairwise fun p q => ∀ s, (host p.1).text = some s → (host q.1).text ≠ some s

variable {F : Type}

def allOf (valid : Id → Option Bool) : List Id → Option Bool
  | [] => some true
  | id :: ids =>
    match valid id with
    | some true => allOf valid ids
    | answer => answer

def HostObject.IsString : HostObject F → Prop
  | .string _ => True
  | _ => False

instance : (o : HostObject F) → Decidable o.IsString
  | .string _ => isTrue trivial
  | .null => isFalse id
  | .number _ => isFalse id
  | .array _ => isFalse id
  | .dictionary _ => isFalse id
  | .other => isFalse id

def allPairs (g : Objects F) (valid : Id → Option Bool) : List (Id × Id) → Option Bool
  | [] => some true
  | (k, v) :: pairs =>
    if ¬ (g.host k).IsString then some false
    else
      match valid v with
      | some true => allPairs g valid pairs
      | answer => answer

def isValidJsonSubtree (g : Objects F) : ℕ → Id → Option Bool
  | 0, _ => none
  | depth + 1, id =>
    if id = 0 then some false
    else
      match g.host id with
      | .string _ => some true
      | .number _ => some true
      | .null => some true
      | .array items => allOf (isValidJsonSubtree g depth) items
      | .dictionary pairs => allPairs g (isValidJsonSubtree g depth) pairs
      | .other => some false

def isValidJsonObjectRoot (g : Objects F) (depth : ℕ) (id : Id) : Option Bool :=
  if id = 0 then some false
  else
    match g.host id with
    | .array _ => isValidJsonSubtree g depth id
    | .dictionary _ => isValidJsonSubtree g depth id
    | _ => some false

inductive Trouble
  | unwrap
  | exhausted
  deriving DecidableEq

local instance ten_neZero : NeZero (10 : ℕ) := ⟨Nat.succ_ne_zero 9⟩

def decimalDigits (n : ℕ) : List Digit :=
  if n = 0 then [0] else ((Nat.digits 10 n).map (Fin.ofNat 10)).reverse

def integerText (i : ℤ) : List Char :=
  (if i < 0 then ['-'] else []) ++ (decimalDigits i.natAbs).map Digit.char

def formatFiniteF64 (fl : Floats F) (f : F) : List Char :=
  if (fl.real f).den = 1 ∧ |fl.real f| < 10 ^ 16 then integerText (fl.real f).num
  else
    let s := fl.display f
    if '.' ∈ s ∨ 'e' ∈ s ∨ 'E' ∈ s then s else s ++ ['.', '0']

def encodeFloat (fl : Floats F) (f : F) : List Char :=
  if fl.isFinite f then formatFiniteF64 fl f else ['n', 'u', 'l', 'l']

def encodeNumber (fl : Floats F) : NSNumberHostObject F → List Char
  | .bool b => if b then ['t', 'r', 'u', 'e'] else ['f', 'a', 'l', 's', 'e']
  | .int i => integerText i.toInt
  | .unsignedInt u => integerText u.toNat
  | .longLong i => integerText i.toInt
  | .unsignedLongLong u => integerText u.toNat
  | .float f => encodeFloat fl f
  | .double f => encodeFloat fl f
  | .short i => integerText i.toInt
  | .unsignedShort u => integerText u.toNat
  | .char i => integerText i.toInt

def hexChar (n : ℕ) : Char := if n < 10 then Char.ofNat (48 + n) else Char.ofNat (87 + n)

def encodeChar (c : Char) : List Char :=
  if c = '"' then ['\\', '"']
  else if c = '\\' then ['\\', '\\']
  else if c = '\n' then ['\\', 'n']
  else if c = '\r' then ['\\', 'r']
  else if c = '\t' then ['\\', 't']
  else if c = '\x08' then ['\\', 'b']
  else if c = '\x0c' then ['\\', 'f']
  else if c.toNat < 0x20 then
    ['\\', 'u', '0', '0', hexChar (c.toNat / 16), hexChar (c.toNat % 16)]
  else [c]

def encodeString (s : List Char) : List Char := '"' :: s.flatMap encodeChar ++ ['"']

def toRustString (g : Objects F) (id : Id) : Except Trouble (List Char) :=
  if id = 0 then return []
  else
    match (g.host id).text with
    | some s => return s
    | none => throw .unwrap

def newLine (pretty : Bool) (depth : ℕ) : List Char :=
  if pretty then '\n' :: List.replicate (2 * depth) ' ' else []

def afterColon (pretty : Bool) : List Char := if pretty then [' '] else []

def separated (line : List Char) : List (List Char) → List Char
  | [] => []
  | [t] => line ++ t
  | t :: ts => line ++ t ++ ',' :: separated line ts

def encodeValue (fl : Floats F) (g : Objects F) (pretty : Bool) :
    ℕ → ℕ → Id → Except Trouble (List Char)
  | 0, _, _ => throw .exhausted
  | rounds + 1, depth, id =>
    if id = 0 then return ['n', 'u', 'l', 'l']
    else
      match g.host id with
      | .null => return ['n', 'u', 'l', 'l']
      | .string _ => encodeString <$> toRustString g id
      | .number n => return encodeNumber fl n
      | .array items =>
        if items = [] then return ['[', ']']
        else do
          let ts ← items.mapM (encodeValue fl g pretty rounds (depth + 1))
          return '[' :: separated (newLine pretty (depth + 1)) ts ++ newLine pretty depth ++ [']']
      | .dictionary pairs =>
        if pairs = [] then return ['{', '}']
        else do
          let ts ← pairs.mapM fun p => do
            let k ← toRustString g p.1
            let v ← encodeValue fl g pretty rounds (depth + 1) p.2
            return encodeString k ++ ':' :: afterColon pretty ++ v
          return '{' :: separated (newLine pretty (depth + 1)) ts ++ newLine pretty depth ++ ['}']
      | .other => return ['n', 'u', 'l', 'l']

variable {F : Type} {g : Objects F} {id : Id} {m n : ℕ} {b : Bool}

inductive Fine (g : Objects F) : Id → Prop
  | string {id : Id} {s : StringHostObject} : id ≠ 0 → g.host id = .string s → Fine g id
  | number {id : Id} {x : NSNumberHostObject F} : id ≠ 0 → g.host id = .number x → Fine g id
  | null {id : Id} : id ≠ 0 → g.host id = .null → Fine g id
  | array {id : Id} {items : List Id} : id ≠ 0 → g.host id = .array items →
      (∀ x ∈ items, Fine g x) → Fine g id
  | dictionary {id : Id} {pairs : List (Id × Id)} : id ≠ 0 → g.host id = .dictionary pairs →
      (∀ p ∈ pairs, (g.host p.1).IsString) → (∀ p ∈ pairs, Fine g p.2) → Fine g id

def Explored (g : Objects F) (y x : Id) : Prop :=
  x ≠ 0 ∧
    ((∃ before after, g.host x = .array (before ++ y :: after) ∧ ∀ z ∈ before, Fine g z) ∨
      ∃ before k after, g.host x = .dictionary (before ++ (k, y) :: after) ∧
        (∀ p ∈ before, (g.host p.1).IsString ∧ Fine g p.2) ∧ (g.host k).IsString)

lemma allOf_mono {f f' : Id → Option Bool} (hf : ∀ x b, f x = some b → f' x = some b) {ids : List Id}
    (h : allOf f ids = some b) : allOf f' ids = some b := by
  induction ids with
  | nil => exact h
  | cons id ids ih =>
    rw [allOf] at h ⊢
    cases hx : f id with
    | none =>
      rw [hx] at h
      cases h
    | some c =>
      rw [hx] at h
      rw [hf id c hx]
      cases c with
      | true => exact ih h
      | false => exact h

lemma allPairs_mono {f f' : Id → Option Bool} (hf : ∀ x b, f x = some b → f' x = some b)
    {pairs : List (Id × Id)} (h : allPairs g f pairs = some b) : allPairs g f' pairs = some b := by
  induction pairs with
  | nil => exact h
  | cons p pairs ih =>
    obtain ⟨k, v⟩ := p
    rw [allPairs] at h ⊢
    by_cases hk : (g.host k).IsString
    · rw [if_neg (not_not.mpr hk)] at h ⊢
      cases hx : f v with
      | none =>
        rw [hx] at h
        cases h
      | some c =>
        rw [hx] at h
        rw [hf v c hx]
        cases c with
        | true => exact ih h
        | false => exact h
    · rw [if_pos hk] at h ⊢
      exact h

lemma isValid_succ (h : isValidJsonSubtree g n id = some b) :
    isValidJsonSubtree g (n + 1) id = some b := by
  induction n generalizing id b with
  | zero => cases h
  | succ n ih =>
    rw [isValidJsonSubtree] at h ⊢
    split_ifs at h ⊢ with hzero
    · exact h
    · split at h
      · exact h
      · exact h
      · exact h
      · exact allOf_mono (fun _ _ => ih) h
      · exact allPairs_mono (fun _ _ => ih) h
      · exact h

lemma isValid_mono (hle : n ≤ m) (h : isValidJsonSubtree g n id = some b) :
    isValidJsonSubtree g m id = some b := by
  induction m, hle using Nat.le_induction with
  | base => exact h
  | succ m _ ih => exact isValid_succ ih

lemma allOf_eq_true {f : Id → Option Bool} {ids : List Id} :
    allOf f ids = some true ↔ ∀ x ∈ ids, f x = some true := by
  induction ids with
  | nil => exact ⟨fun _ _ hx => (by cases hx), fun _ => rfl⟩
  | cons id ids ih =>
    rw [allOf, forall_mem_cons, ← ih]
    cases hx : f id with
    | none => simp
    | some c => cases c <;> simp

lemma allPairs_eq_true {f : Id → Option Bool} {pairs : List (Id × Id)} :
    allPairs g f pairs = some true ↔ ∀ p ∈ pairs, (g.host p.1).IsString ∧ f p.2 = some true := by
  induction pairs with
  | nil => exact ⟨fun _ _ hx => (by cases hx), fun _ => rfl⟩
  | cons p pairs ih =>
    obtain ⟨k, v⟩ := p
    rw [allPairs, forall_mem_cons, ← ih]
    by_cases hk : (g.host k).IsString
    · rw [if_neg (not_not.mpr hk)]
      cases hx : f v with
      | none => simp
      | some c => cases c <;> simp [hk]
    · simp [hk]

lemma fine_of_valid (h : isValidJsonSubtree g n id = some true) : Fine g id := by
  induction n generalizing id with
  | zero => cases h
  | succ n ih =>
    rw [isValidJsonSubtree] at h
    split_ifs at h with hzero
    · cases h
    · split at h
      · next s hs => exact .string hzero hs
      · next x hx => exact .number hzero hx
      · next hnull => exact .null hzero hnull
      · next items hitems =>
        exact .array hzero hitems fun x hx => ih (allOf_eq_true.mp h x hx)
      · next pairs hpairs =>
        have hall := allPairs_eq_true.mp h
        exact .dictionary hzero hpairs (fun p hp => (hall p hp).1) fun p hp => ih (hall p hp).2
      · cases h

lemma exists_depth {α : Type} {l : List α} {f : ℕ → α → Prop}
    (hmono : ∀ m n a, m ≤ n → f m a → f n a) (h : ∀ a ∈ l, ∃ n, f n a) : ∃ n, ∀ a ∈ l, f n a := by
  induction l with
  | nil => exact ⟨0, fun _ ha => (by cases ha)⟩
  | cons a l ih =>
    obtain ⟨m, hm⟩ := h a mem_cons_self
    obtain ⟨n, hn⟩ := ih fun a ha => h a (mem_cons_of_mem _ ha)
    refine ⟨max m n, fun c hc => ?_⟩
    obtain rfl | hc := mem_cons.mp hc
    · exact hmono _ _ _ (le_max_left m n) hm
    · exact hmono _ _ _ (le_max_right m n) (hn c hc)

lemma valid_of_fine (h : Fine g id) : ∃ n, isValidJsonSubtree g n id = some true := by
  induction h with
  | string hzero hs => exact ⟨1, by rw [isValidJsonSubtree, if_neg hzero, hs]⟩
  | number hzero hx => exact ⟨1, by rw [isValidJsonSubtree, if_neg hzero, hx]⟩
  | null hzero hnull => exact ⟨1, by rw [isValidJsonSubtree, if_neg hzero, hnull]⟩
  | @array id items hzero hitems _ ih =>
    obtain ⟨n, hn⟩ := exists_depth (f := fun n x => isValidJsonSubtree g n x = some true)
      (fun _ _ _ => isValid_mono) ih
    refine ⟨n + 1, ?_⟩
    rw [isValidJsonSubtree, if_neg hzero, hitems]
    exact allOf_eq_true.mpr hn
  | @dictionary id pairs hzero hpairs hkeys _ ih =>
    obtain ⟨n, hn⟩ := exists_depth
      (f := fun n (p : Id × Id) => isValidJsonSubtree g n p.2 = some true)
      (fun _ _ _ => isValid_mono) ih
    refine ⟨n + 1, ?_⟩
    rw [isValidJsonSubtree, if_neg hzero, hpairs]
    exact allPairs_eq_true.mpr fun p hp => ⟨hkeys p hp, hn p hp⟩

lemma Fine.eq_true {z : Id} {c : Bool} (hfine : Fine g z) (hz : isValidJsonSubtree g n z = some c) : c = true := by
  obtain ⟨m, hm⟩ := valid_of_fine hfine
  have hc := isValid_mono (le_max_left n m) hz
  exact Option.some.inj (hc.symm.trans (isValid_mono (le_max_right n m) hm))

lemma allOf_explored {before after : List Id} {y : Id} (hbefore : ∀ z ∈ before, Fine g z)
    (h : allOf (isValidJsonSubtree g n) (before ++ y :: after) = some b) :
    ∃ b, isValidJsonSubtree g n y = some b := by
  induction before with
  | nil =>
    rw [nil_append, allOf] at h
    cases hy : isValidJsonSubtree g n y with
    | none =>
      rw [hy] at h
      cases h
    | some c => exact ⟨c, rfl⟩
  | cons z before ih =>
    rw [cons_append, allOf] at h
    cases hz : isValidJsonSubtree g n z with
    | none =>
      rw [hz] at h
      cases h
    | some c =>
      obtain rfl := (hbefore z mem_cons_self).eq_true hz
      rw [hz] at h
      exact ih (fun z hz => hbefore z (mem_cons_of_mem _ hz)) h

lemma allPairs_explored {before after : List (Id × Id)} {k y : Id}
    (hbefore : ∀ p ∈ before, (g.host p.1).IsString ∧ Fine g p.2) (hk : (g.host k).IsString)
    (h : allPairs g (isValidJsonSubtree g n) (before ++ (k, y) :: after) = some b) :
    ∃ b, isValidJsonSubtree g n y = some b := by
  induction before with
  | nil =>
    rw [nil_append, allPairs, if_neg (not_not.mpr hk)] at h
    cases hy : isValidJsonSubtree g n y with
    | none =>
      rw [hy] at h
      cases h
    | some c => exact ⟨c, rfl⟩
  | cons p before ih =>
    obtain ⟨k', z⟩ := p
    obtain ⟨hk', hfine⟩ := hbefore _ mem_cons_self
    rw [cons_append, allPairs, if_neg (not_not.mpr hk')] at h
    cases hz : isValidJsonSubtree g n z with
    | none =>
      rw [hz] at h
      cases h
    | some c =>
      obtain rfl := hfine.eq_true hz
      rw [hz] at h
      exact ih (fun p hp => hbefore p (mem_cons_of_mem _ hp)) h

lemma acc_of_valid (h : isValidJsonSubtree g n id = some b) : Acc (Explored g) id := by
  induction n generalizing id b with
  | zero => cases h
  | succ n ih =>
    constructor
    rintro y ⟨hzero, ⟨before, after, hitems, hbefore⟩ | ⟨before, k, after, hpairs, hbefore, hk⟩⟩
    · rw [isValidJsonSubtree, if_neg hzero, hitems] at h
      obtain ⟨c, hc⟩ := allOf_explored hbefore h
      exact ih hc
    · rw [isValidJsonSubtree, if_neg hzero, hpairs] at h
      obtain ⟨c, hc⟩ := allPairs_explored hbefore hk h
      exact ih hc

lemma allOf_answers (before ids : List Id) (hbefore : ∀ z ∈ before, Fine g z)
    (h : ∀ l y after, (∀ z ∈ l, Fine g z) → before ++ ids = l ++ y :: after →
      ∃ n b, isValidJsonSubtree g n y = some b) :
    ∃ n b, allOf (isValidJsonSubtree g n) ids = some b := by
  induction ids generalizing before with
  | nil => exact ⟨0, true, rfl⟩
  | cons y ids ih =>
    obtain ⟨n, b, hy⟩ := h before y ids hbefore rfl
    cases b with
    | false => exact ⟨n, false, by rw [allOf, hy]⟩
    | true =>
      have hbefore' : ∀ z ∈ before ++ [y], Fine g z := by
        intro z hz
        obtain hz | hz := mem_append.mp hz
        · exact hbefore z hz
        · obtain rfl := mem_singleton.mp hz
          exact fine_of_valid hy
      obtain ⟨m, c, hm⟩ := ih _ hbefore' fun l z after hl heq =>
        h l z after hl (by rw [← heq, append_assoc]; rfl)
      refine ⟨max n m, c, ?_⟩
      rw [allOf, isValid_mono (le_max_left n m) hy]
      exact allOf_mono (fun _ _ => isValid_mono (le_max_right n m)) hm

lemma allPairs_answers (before pairs : List (Id × Id))
    (hbefore : ∀ p ∈ before, (g.host p.1).IsString ∧ Fine g p.2)
    (h : ∀ l k y after, (∀ p ∈ l, (g.host p.1).IsString ∧ Fine g p.2) → (g.host k).IsString →
      before ++ pairs = l ++ (k, y) :: after → ∃ n b, isValidJsonSubtree g n y = some b) :
    ∃ n b, allPairs g (isValidJsonSubtree g n) pairs = some b := by
  induction pairs generalizing before with
  | nil => exact ⟨0, true, rfl⟩
  | cons p pairs ih =>
    obtain ⟨k, y⟩ := p
    by_cases hk : (g.host k).IsString
    · obtain ⟨n, b, hy⟩ := h before k y pairs hbefore hk rfl
      cases b with
      | false => exact ⟨n, false, by rw [allPairs, if_neg (not_not.mpr hk), hy]⟩
      | true =>
        have hbefore' : ∀ p ∈ before ++ [(k, y)], (g.host p.1).IsString ∧ Fine g p.2 := by
          intro p hp
          obtain hp | hp := mem_append.mp hp
          · exact hbefore p hp
          · obtain rfl := mem_singleton.mp hp
            exact ⟨hk, fine_of_valid hy⟩
        obtain ⟨m, c, hm⟩ := ih _ hbefore' fun l k z after hl hk heq =>
          h l k z after hl hk (by rw [← heq, append_assoc]; rfl)
        refine ⟨max n m, c, ?_⟩
        rw [allPairs, if_neg (not_not.mpr hk), isValid_mono (le_max_left n m) hy]
        exact allPairs_mono (fun _ _ => isValid_mono (le_max_right n m)) hm
    · exact ⟨0, false, if_pos hk⟩

lemma valid_of_acc (h : Acc (Explored g) id) : ∃ n b, isValidJsonSubtree g n id = some b := by
  induction h with
  | intro id _ ih =>
    by_cases hzero : id = 0
    · exact ⟨1, false, by rw [isValidJsonSubtree, if_pos hzero]⟩
    cases hhost : g.host id with
    | null => exact ⟨1, true, by rw [isValidJsonSubtree, if_neg hzero, hhost]⟩
    | number => exact ⟨1, true, by rw [isValidJsonSubtree, if_neg hzero, hhost]⟩
    | string => exact ⟨1, true, by rw [isValidJsonSubtree, if_neg hzero, hhost]⟩
    | other => exact ⟨1, false, by rw [isValidJsonSubtree, if_neg hzero, hhost]⟩
    | array items =>
      obtain ⟨n, b, hn⟩ := allOf_answers [] items (g := g)
        (fun _ hz => (by cases hz)) fun l y after hl heq =>
          ih y ⟨hzero, .inl ⟨l, after, by rw [hhost, ← heq]; rfl, hl⟩⟩
      exact ⟨n + 1, b, by rw [isValidJsonSubtree, if_neg hzero, hhost]; exact hn⟩
    | dictionary pairs =>
      obtain ⟨n, b, hn⟩ := allPairs_answers [] pairs (g := g)
        (fun _ hz => (by cases hz)) fun l k y after hl hk heq =>
          ih y ⟨hzero, .inr ⟨l, k, after, by rw [hhost, ← heq]; rfl, hl, hk⟩⟩
      exact ⟨n + 1, b, by rw [isValidJsonSubtree, if_neg hzero, hhost]; exact hn⟩

theorem isValid_answers_iff : (∃ n b, isValidJsonSubtree g n id = some b) ↔ Acc (Explored g) id :=
  ⟨fun ⟨_, _, h⟩ => acc_of_valid h, valid_of_acc⟩

end TouchHle.Foundation.JsonWriter
