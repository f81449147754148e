import TouchHle.Foundation.Number
import TouchHle.Foundation.EncodingRoundTrip
import TouchHle.Foundation.DictionaryRuns

/-! Numbers and strings as the keys of dictionaries: which are equal, and whether they are found. -/

namespace TouchHle.Foundation

open Lib Objc
open JsonWriter (StringHostObject)

inductive KeyObject
  | number (num : NSNumberHostObject)
  | string (cls : StringClass) (str : StringHostObject)
  | other

structure HashHelper where
  bits : UInt64 → UInt32
  text : List Char → UInt32

def KeyObject.CopiedBy (object : Id → KeyObject) (k copy : Id) : Prop :=
  match object k with
  | .string .touchHleNSMutableString str => object copy = .string .touchHleNSString (.utf16 (codeUnits str))
  | _ => copy = k

structure KeyHeap where
  object : Id → KeyObject
  copy : ℕ → Id → Id
  copies : ∀ n k, KeyObject.CopiedBy object k (copy n k)

namespace KeyHeap

variable (heap : KeyHeap)

def hash (helper : HashHelper) (this : Id) : Option ℕ :=
  match heap.object this with
  | .number num => some (helper.bits num.bits).toNat
  | .string _ str => str.toUtf8.map fun text => (helper.text text).toNat
  | .other => some this

def isEqual (this other : Id) : Option Bool :=
  if this = other then some true
  else
    match heap.object this, heap.object other with
    | .number num, .number otherNum => some (num.isEqualToNumber otherNum)
    | .string _ str, .string _ otherStr => do
      let text ← str.toUtf8
      let otherText ← otherStr.toUtf8
      return text == otherText
    | _, _ => some false

def Equal (a b : Id) : Prop := heap.isEqual a b = some true

instance (a b : Id) : Decidable (heap.Equal a b) := inferInstanceAs (Decidable (_ = _))

def messages (helper : HashHelper) : KeyMessages where
  hash a := (heap.hash helper a).getD 0
  isEqual a b := decide (heap.Equal a b)
  copy := heap.copy

def Kin (a b : Id) : Prop :=
  match heap.object a, heap.object b with
  | .number num, .number otherNum => num.Kindred otherNum
  | .string _ str, .string _ otherStr => str.toUtf8.isSome ∧ otherStr.toUtf8.isSome
  | _, _ => True

structure Finds (helper : HashHelper) : Prop where
  hashes : ∀ a b, heap.Equal a b → ∃ n, heap.hash helper a = some n ∧ heap.hash helper b = some n
  found : ∀ rs, ∃ t, run (heap.messages helper).step .empty rs = .ok t ∧ ∀ key,
    (heap.messages helper).lookup t key =
      (latest (heap.messages helper).isEqual (fun _ => id) (heap.messages helper).step .empty (fun _ => none) rs
        key).getD nil

variable {heap} {a b c : Id}

lemma equal_iff : heap.Equal a b ↔ a = b ∨ (∃ num otherNum, heap.object a = .number num ∧
      heap.object b = .number otherNum ∧ num.value = otherNum.value) ∨
    ∃ cls str cls' otherStr text, heap.object a = .string cls str ∧ heap.object b = .string cls' otherStr ∧
      str.toUtf8 = some text ∧ otherStr.toUtf8 = some text := by
  rw [Equal, isEqual]
  by_cases hab : a = b
  · rw [if_pos hab]
    exact iff_of_true rfl (.inl hab)
  rw [if_neg hab]
  cases ha : heap.object a with
  | number num =>
    cases hb : heap.object b with
    | number otherNum =>
      dsimp only
      rw [Option.some_inj, NSNumberHostObject.isEqualToNumber_iff]
      constructor
      · exact fun h => .inr (.inl ⟨_, _, rfl, rfl, h⟩)
      · rintro (heq | ⟨_, _, ⟨⟩, ⟨⟩, h⟩ | ⟨_, _, _, _, _, ⟨⟩, -⟩)
        · exact absurd heq hab
        · exact h
    | string cls str => exact iff_of_false (by rintro ⟨⟩) (by rintro (heq | ⟨_, _, -, ⟨⟩, -⟩ | ⟨_, _, _, _, _, ⟨⟩, -⟩); exact hab heq)
    | other => exact iff_of_false (by rintro ⟨⟩) (by rintro (heq | ⟨_, _, -, ⟨⟩, -⟩ | ⟨_, _, _, _, _, ⟨⟩, -⟩); exact hab heq)
  | string cls str =>
    cases hb : heap.object b with
    | number otherNum =>
      exact iff_of_false (by rintro ⟨⟩) (by rintro (heq | ⟨_, _, ⟨⟩, -⟩ | ⟨_, _, _, _, _, -, ⟨⟩, -⟩); exact hab heq)
    | string cls' otherStr =>
      dsimp only
      constructor
      · intro h
        obtain ⟨text, htext, h⟩ := Option.bind_eq_some_iff.mp h
        obtain ⟨otherText, hother, h⟩ := Option.bind_eq_some_iff.mp h
        obtain rfl : text = otherText := beq_iff_eq.mp (Option.some.inj h)
        exact .inr (.inr ⟨_, _, _, _, text, rfl, rfl, htext, hother⟩)
      · rintro (heq | ⟨_, _, ⟨⟩, -⟩ | ⟨_, _, _, _, text, ⟨⟩, ⟨⟩, htext, hother⟩)
        · exact absurd heq hab
        · rw [htext, hother]
          exact congrArg some (beq_self_eq_true text)
    | other =>
      exact iff_of_false (by rintro ⟨⟩) (by rintro (heq | ⟨_, _, ⟨⟩, -⟩ | ⟨_, _, _, _, _, -, ⟨⟩, -⟩); exact hab heq)
  | other =>
    exact iff_of_false (by rintro ⟨⟩) (by rintro (heq | ⟨_, _, ⟨⟩, -⟩ | ⟨_, _, _, _, _, ⟨⟩, -⟩); exact hab heq)

lemma equal_symm (h : heap.Equal a b) : heap.Equal b a := by
  rw [equal_iff] at h ⊢
  obtain rfl | ⟨_, _, ha, hb, h⟩ | ⟨_, _, _, _, text, ha, hb, htext, hother⟩ := h
  · exact .inl rfl
  · exact .inr (.inl ⟨_, _, hb, ha, h.symm⟩)
  · exact .inr (.inr ⟨_, _, _, _, text, hb, ha, hother, htext⟩)

lemma equal_trans (hab : heap.Equal a b) (hbc : heap.Equal b c) : heap.Equal a c := by
  rw [equal_iff] at hab hbc ⊢
  obtain rfl | ⟨_, _, ha, hb, h⟩ | ⟨_, _, _, _, text, ha, hb, htext, hother⟩ := hab
  · exact hbc
  · obtain rfl | ⟨_, _, hb', hc, h'⟩ | ⟨_, _, _, _, text, hb', -⟩ := hbc
    · exact .inr (.inl ⟨_, _, ha, hb, h⟩)
    · rw [hb] at hb'
      obtain rfl := KeyObject.number.inj hb'
      exact .inr (.inl ⟨_, _, ha, hc, h.trans h'⟩)
    · rw [hb] at hb'
      cases hb'
  · obtain rfl | ⟨_, _, hb', -⟩ | ⟨_, _, _, _, text', hb', hc, htext', hother'⟩ := hbc
    · exact .inr (.inr ⟨_, _, _, _, text, ha, hb, htext, hother⟩)
    · rw [hb] at hb'
      cases hb'
    · rw [hb] at hb'
      obtain ⟨rfl, rfl⟩ := KeyObject.string.inj hb'
      rw [hother] at htext'
      obtain rfl := Option.some.inj htext'
      exact .inr (.inr ⟨_, _, _, _, text, ha, hc, htext, hother'⟩)

lemma equal_equivalence (heap : KeyHeap) : Equivalence heap.Equal :=
  ⟨fun _ => if_pos rfl, equal_symm, equal_trans⟩

lemma bits_of_hashes {x y : UInt64} (h : ∀ helper : HashHelper, helper.bits x = helper.bits y) : x = y := by
  by_contra hne
  have hbits := h ⟨fun z => if z = x then 1 else 0, fun _ => 0⟩
  dsimp only at hbits
  rw [if_pos rfl, if_neg (Ne.symm hne)] at hbits
  cases hbits

lemma hashes_iff_kin (h : heap.Equal a b) :
    (∀ helper, ∃ n, heap.hash helper a = some n ∧ heap.hash helper b = some n) ↔ heap.Kin a b := by
  rw [equal_iff] at h
  simp only [hash, Kin]
  obtain rfl | ⟨num, otherNum, ha, hb, h⟩ | ⟨_, _, _, _, text, ha, hb, htext, hother⟩ := h
  · cases ha : heap.object a with
    | number num =>
      exact iff_of_true (fun helper => ⟨_, rfl, rfl⟩) ((NSNumberHostObject.bits_eq_iff rfl).mp rfl)
    | string cls str =>
      dsimp only
      rw [and_self, Option.isSome_iff_exists]
      constructor
      · intro h
        obtain ⟨n, hn, -⟩ := h ⟨fun _ => 0, fun _ => 0⟩
        obtain ⟨text, htext, -⟩ := Option.map_eq_some_iff.mp hn
        exact ⟨text, htext⟩
      · rintro ⟨text, htext⟩ helper
        rw [htext]
        exact ⟨_, rfl, rfl⟩
    | other => exact iff_of_true (fun helper => ⟨a, rfl, rfl⟩) trivial
  · rw [ha, hb]
    dsimp only
    rw [← NSNumberHostObject.bits_eq_iff h]
    constructor
    · intro hall
      apply bits_of_hashes
      intro helper
      obtain ⟨n, hn, hn'⟩ := hall helper
      exact UInt32.toNat_inj.mp (Option.some.inj (hn.trans hn'.symm))
    · intro hbits helper
      rw [hbits]
      exact ⟨_, rfl, rfl⟩
  · rw [ha, hb]
    dsimp only
    rw [htext, hother]
    exact iff_of_true (fun helper => ⟨_, rfl, rfl⟩) ⟨rfl, rfl⟩

lemma messages_lawful (helper : HashHelper) (hkin : ∀ a b, heap.Equal a b → heap.Kin a b) :
    (heap.messages helper).Lawful where
  keys := {
    refl := fun a => decide_eq_true (if_pos rfl)
    symm := fun h => decide_eq_true (equal_symm (of_decide_eq_true h))
    trans := fun h h' => decide_eq_true (equal_trans (of_decide_eq_true h) (of_decide_eq_true h'))
    hash_eq := by
      intro a b h
      have hab : heap.Equal a b := of_decide_eq_true h
      obtain ⟨n, ha, hb⟩ := (hashes_iff_kin hab).mpr (hkin a b hab) helper
      change (heap.hash helper a).getD 0 = (heap.hash helper b).getD 0
      rw [ha, hb] }
  copy := by
    intro n k
    apply decide_eq_true
    have hcopy := heap.copies n k
    rw [KeyObject.CopiedBy] at hcopy
    split at hcopy
    · rename_i str hk
      have hwell := hkin k k (if_pos rfl)
      rw [Kin, hk] at hwell
      obtain ⟨text, htext⟩ := Option.isSome_iff_exists.mp hwell.1
      refine equal_iff.mpr (.inr (.inr ⟨_, _, _, _, text, hcopy, hk, ?_, htext⟩))
      rw [codeUnits_of_toUtf8 htext]
      exact fromUtf16_utf16
    · change heap.Equal (heap.copy n k) k
      rw [hcopy]
      exact if_pos rfl

lemma finds_of_kin (helper : HashHelper) (hkin : ∀ a b, heap.Equal a b → heap.Kin a b) : heap.Finds helper := by
  have hlawful := messages_lawful helper hkin
  constructor
  · intro a b h
    exact (hashes_iff_kin h).mpr (hkin a b h) helper
  · intro rs
    have hstep : ∀ s f r, s.Filed (heap.messages helper).isEqual (heap.messages helper).hash →
        s.Represents (heap.messages helper).isEqual f → ∃ t, (heap.messages helper).step s r = .ok t ∧
          t.Filed (heap.messages helper).isEqual (heap.messages helper).hash ∧
          t.Represents (heap.messages helper).isEqual (assign (heap.messages helper).isEqual id f r) :=
      fun s f r hf hr => KeyMessages.step_represents hlawful hf hr r
    obtain ⟨t, hrun, hf, hr⟩ :=
      run_represents (heap.messages helper).step (fun _ => id) hstep rs .empty .empty
    refine ⟨t, hrun, fun key => ?_⟩
    exact find_of_represents hlawful.keys hf hr _ (KeyMessages.finds_eq hlawful key)

/-- Being equal is an equivalence. Equal objects have equal hashes exactly if they are kin, and values are
found with every key that is equal to theirs exactly if all objects that are equal are kin. -/
theorem equal_keys_are_found (heap : KeyHeap) : Equivalence heap.Equal ∧
    (∀ a b, heap.Equal a b →
      ((∀ helper, ∃ n, heap.hash helper a = some n ∧ heap.hash helper b = some n) ↔ heap.Kin a b)) ∧
    ((∀ helper, heap.Finds helper) ↔ ∀ a b, heap.Equal a b → heap.Kin a b) := by
  refine ⟨equal_equivalence heap, fun a b h => hashes_iff_kin h, ?_, ?_⟩
  · intro h a b hab
    exact (hashes_iff_kin hab).mp fun helper => (h helper).hashes a b hab
  · exact fun hkin helper => finds_of_kin helper hkin

def oneTwice : KeyHeap where
  object a := if a = 1 then .number (.int 1) else if a = 2 then .number (.double 0x3FF0000000000000) else .other
  copy _ k := k
  copies := by
    intro n k
    by_cases h1 : k = 1
    · subst h1
      rfl
    · by_cases h2 : k = 2
      · subst h2
        rfl
      · simp [KeyObject.CopiedBy, h1, h2]

def lowWord : HashHelper := ⟨fun bits => bits.toUInt32, fun _ => 0⟩

theorem one_is_not_found : oneTwice.Equal 1 2 ∧ oneTwice.hash lowWord 1 ≠ oneTwice.hash lowWord 2 ∧
    ∃ t, run (oneTwice.messages lowWord).step .empty [.insert 1 7 true] = .ok t ∧
      (oneTwice.messages lowWord).lookup t 1 = 7 ∧ (oneTwice.messages lowWord).lookup t 2 = nil := by
  refine ⟨by decide +kernel, by decide, _, rfl, by decide, by decide +kernel⟩

end KeyHeap

end TouchHle.Foundation
