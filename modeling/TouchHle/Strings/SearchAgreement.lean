import TouchHle.Strings.Searching

namespace TouchHle.Strings

open Lib List

section

variable {toLowercase : Char → List Char} {s t : NSString} {options lo hi i j : ℕ}
  {compare : UInt16 → UInt16 → Bool} {r range : NSRange}

def Occurs (same : UInt16 → UInt16 → Prop) (s t : NSString) (i : ℕ) : Prop :=
  t.units ≠ [] ∧ List.Forall₂ same ((s.units.drop i).take t.length) t.units

def folded (toLowercase : Char → List Char) (u : UInt16) : List Char ⊕ UInt16 :=
  (charFromU32 u).elim (.inr u) fun c => .inl (toLowercase c)

def Alike (toLowercase : Char → List Char) (options : ℕ) (a b : UInt16) : Prop :=
  if isCaseInsensitive options then folded toLowercase a = folded toLowercase b else a = b

def Wanted (toLowercase : Char → List Char) (options : ℕ) (s t : NSString) (range : NSRange)
    (i : ℕ) : Prop :=
  range.location ≤ i ∧ i + t.length ≤ range.location + range.length ∧
    Occurs (Alike toLowercase options) s t i

def Before (options i j : ℕ) : Prop := if isBackwards options then j ≤ i else i ≤ j

def Finds (toLowercase : Char → List Char) (options : ℕ) (s t : NSString) (range r : NSRange) :
    Prop :=
  (r = notFound ∧ ∀ i, ¬ Wanted toLowercase options s t range i) ∨
    ∃ i, r = ⟨i, t.length⟩ ∧ Wanted toLowercase options s t range i ∧
      ∀ j, Wanted toLowercase options s t range j → Before options i j

def NSString.whole (s : NSString) : NSRange := ⟨0, s.length⟩

structure SearchesAgree (toLowercase : Char → List Char) (s t : NSString) (options : ℕ)
    (range : NSRange) : Prop where
  same : rangeOfStringOptionsRange toLowercase s t options s.whole =
    .ok (rangeOfStringOptions toLowercase s t options)
  finds : Finds toLowercase options s t s.whole (rangeOfStringOptions toLowercase s t options)
  within : ∃ r, rangeOfStringOptionsRange toLowercase s t options range = .ok r ∧
    Finds toLowercase options s t range r ∧ r.location + r.length < 2 ^ 32

/-- The options on which the search of a whole string does not look at single bits and does
what they ask, and the strings on which it makes no difference. -/
def OptionsServed (toLowercase : Char → List Char) (s t : NSString) (options : ℕ) : Prop :=
  options = 0 ∨ options = literalSearch ∨ options = backwardsSearch ∨
    (options = caseInsensitiveSearch ∧
      ((∀ u ∈ t.units, charFromU32 u ≠ none) ∨
        ∀ i, ¬ Occurs (Alike toLowercase options) s t i)) ∨
    (options ≠ caseInsensitiveSearch ∧
      ∀ i, Occurs (Alike toLowercase options) s t i →
        ∃ j, Occurs (· = ·) s t j ∧ (∀ k, Occurs (· = ·) s t k → j ≤ k) ∧ Before options j i)

def RangeServed (toLowercase : Char → List Char) (s t : NSString) (options : ℕ)
    (range : NSRange) : Prop :=
  t.units = [] ∨ s.length ≤ range.location ∨ range.length = 0 ∨
    (range.location + range.length < 2 ^ 32 ∧
      ¬ (range.location = 0 ∧ range.length < t.length ∧
        Occurs (Alike toLowercase options) s t 0))

lemma NSString.characterAtIndex_eq (s : NSString) (h : i < s.units.length) :
    s.characterAtIndex i = s.units[i] :=
  getD_eq_getElem _ _ h

lemma length_pos (ht : t.units ≠ []) : 0 < t.length := length_pos_iff.mpr ht

lemma Occurs.bound {same : UInt16 → UInt16 → Prop} (h : Occurs same s t i) :
    i + t.length ≤ s.length := by
  have hpos := length_pos h.1
  have hlen := h.2.length_eq
  rw [length_take, length_drop] at hlen
  unfold NSString.length at *
  omega

lemma occurs_iff {same : UInt16 → UInt16 → Prop} : Occurs same s t i ↔ t.units ≠ [] ∧
    ∀ j < t.length, i + j < s.length ∧
      same (s.characterAtIndex (i + j)) (t.characterAtIndex j) := by
  unfold Occurs NSString.characterAtIndex
  constructor
  · intro h
    have hbound : i + t.length ≤ s.length := Occurs.bound h
    obtain ⟨ht, h⟩ := h
    rw [List.forall₂_iff_get] at h
    refine ⟨ht, fun j hj => ⟨by omega, ?_⟩⟩
    have hs : i + j < s.units.length := by unfold NSString.length at *; omega
    have hget := h.2 j (by rw [h.1]; exact hj) hj
    rw [getD_eq_getElem _ _ hs, getD_eq_getElem _ _ hj]
    rw [get_eq_getElem, get_eq_getElem, getElem_take, getElem_drop] at hget
    exact hget
  · rintro ⟨ht, h⟩
    have hpos := length_pos ht
    have hlast := (h (t.length - 1) (by omega)).1
    refine ⟨ht, List.forall₂_iff_get.mpr ⟨?_, fun j hj ht => ?_⟩⟩
    · rw [length_take, length_drop]
      unfold NSString.length at *
      omega
    · obtain ⟨hs, hsame⟩ := h j ht
      rw [getD_eq_getElem _ _ hs, getD_eq_getElem _ _ ht] at hsame
      rw [get_eq_getElem, get_eq_getElem, getElem_take, getElem_drop]
      exact hsame

lemma isMatchAtPosition_iff (ht : t.units ≠ []) :
    isMatchAtPosition s t i compare = true ↔ Occurs (fun a b => compare a b = true) s t i := by
  rw [occurs_iff]
  simp only [isMatchAtPosition, all_eq_true, List.mem_range]
  constructor
  · intro h
    refine ⟨ht, fun j hj => ?_⟩
    have hj := h j hj
    split_ifs at hj with hs
    exact ⟨hs, hj⟩
  · intro h j hj
    obtain ⟨hs, hsame⟩ := h.2 j hj
    rw [if_pos hs, hsame]

lemma occurs_congr {same same' : UInt16 → UInt16 → Prop}
    (h : ∀ a, ∀ b ∈ t.units, same a b ↔ same' a b) : Occurs same s t i ↔ Occurs same' s t i := by
  rw [occurs_iff, occurs_iff]
  refine and_congr_right fun _ => forall₂_congr fun j hj => and_congr_right fun _ => h _ _ ?_
  unfold NSString.characterAtIndex
  rw [getD_eq_getElem _ _ hj]
  exact getElem_mem hj

lemma compareCharactersOrUnits_iff (a b : UInt16) :
    compareCharactersOrUnits toLowercase a b = true ↔
      folded toLowercase a = folded toLowercase b := by
  unfold compareCharactersOrUnits folded sameLowercase
  by_cases hab : a = b
  · rw [hab]
    cases charFromU32 b with
    | none => simp
    | some c => simp
  · cases charFromU32 a with
    | none =>
      cases charFromU32 b with
      | none => simp
      | some d => simp [hab]
    | some c =>
      cases charFromU32 b with
      | none => simp [hab]
      | some d => simp

lemma compareCharacters_iff (a b : UInt16) :
    compareCharacters toLowercase a b = true ↔
      charFromU32 b ≠ none ∧ folded toLowercase a = folded toLowercase b := by
  unfold compareCharacters folded sameLowercase
  cases charFromU32 a with
  | none =>
    cases charFromU32 b with
    | none => simp
    | some d => simp
  | some c =>
    cases charFromU32 b with
    | none => simp
    | some d => simp

lemma comparison_iff (a b : UInt16) :
    comparison toLowercase options a b = true ↔ Alike toLowercase options a b := by
  unfold comparison Alike
  split_ifs
  · exact compareCharactersOrUnits_iff a b
  · simp [compareLiteral]

lemma alike_of_eq {a b : UInt16} (h : a = b) : Alike toLowercase options a b := by
  unfold Alike
  split_ifs
  · rw [h]
  · exact h

lemma literal_iff (ht : t.units ≠ []) :
    isMatchAtPosition s t i compareLiteral = true ↔ Occurs (· = ·) s t i := by
  rw [isMatchAtPosition_iff ht]
  exact occurs_congr fun a b _ => by simp [compareLiteral]

lemma Occurs.alike (h : Occurs (· = ·) s t i) : Occurs (Alike toLowercase options) s t i :=
  ⟨h.1, h.2.imp fun _ _ => alike_of_eq⟩

lemma wanted_whole : Wanted toLowercase options s t s.whole i ↔
    Occurs (Alike toLowercase options) s t i := by
  constructor
  · intro h
    exact h.2.2
  · intro h
    have hbound := h.bound
    exact ⟨Nat.zero_le i, by simpa [NSString.whole] using hbound, h⟩

lemma found_eq_notFound (ht : t.units ≠ []) {o : Option ℕ} : found t o = notFound ↔ o = none := by
  have hpos := length_pos ht
  cases o with
  | none => simp [found]
  | some i => simp [found, notFound]; omega

lemma found_eq_some (ht : t.units ≠ []) {o : Option ℕ} :
    found t o = ⟨i, t.length⟩ ↔ o = some i := by
  have hpos := length_pos ht
  cases o with
  | none => simp [found, notFound]; omega
  | some j => simp [found]

lemma finds_notFound (h : ∀ i, ¬ Wanted toLowercase options s t range i) :
    Finds toLowercase options s t range notFound :=
  .inl ⟨rfl, h⟩

lemma finds_found {p : ℕ → Bool}
    (h : ∀ i, (lo ≤ i ∧ i < hi) ∧ p i = true ↔ Wanted toLowercase options s t range i) :
    Finds toLowercase options s t range
      (found t (if isBackwards options then lastIn p lo hi else firstIn p lo hi)) := by
  cases ho : (if isBackwards options then lastIn p lo hi else firstIn p lo hi) with
  | none =>
    refine .inl ⟨rfl, fun i hi => ?_⟩
    obtain ⟨⟨hlo, hhi⟩, hp⟩ := (h i).mpr hi
    split_ifs at ho with hback
    · rw [lastIn_eq_none.mp ho i hlo hhi] at hp
      cases hp
    · rw [firstIn_eq_none.mp ho i hlo hhi] at hp
      cases hp
  | some i =>
    refine .inr ⟨i, rfl, ?_⟩
    split_ifs at ho with hback
    · obtain ⟨hin, hp, hafter⟩ := lastIn_eq_some.mp ho
      refine ⟨(h i).mp ⟨hin, hp⟩, fun j hj => ?_⟩
      obtain ⟨⟨hlo, hhi⟩, hp⟩ := (h j).mpr hj
      rw [Before, if_pos hback]
      by_contra hlt
      rw [hafter j (by omega) hhi] at hp
      cases hp
    · obtain ⟨hin, hp, hbefore⟩ := firstIn_eq_some.mp ho
      refine ⟨(h i).mp ⟨hin, hp⟩, fun j hj => ?_⟩
      obtain ⟨⟨hlo, hhi⟩, hp⟩ := (h j).mpr hj
      rw [Before, if_neg hback]
      by_contra hlt
      rw [hbefore j hlo (by omega)] at hp
      cases hp

lemma Finds.unique {r' : NSRange}
    (h : Finds toLowercase options s t range r) (h' : Finds toLowercase options s t range r') :
    r = r' := by
  obtain ⟨rfl, hnone⟩ | ⟨i, rfl, hi, hfirst⟩ := h
  · obtain ⟨rfl, -⟩ | ⟨j, -, hj, -⟩ := h'
    · rfl
    · exact absurd hj (hnone j)
  · obtain ⟨-, hnone⟩ | ⟨j, rfl, hj, hfirst'⟩ := h'
    · exact absurd hi (hnone i)
    · have hij := hfirst j hj
      have hji := hfirst' i hi
      unfold Before at hij hji
      split_ifs at hij hji
      · rw [le_antisymm hji hij]
      · rw [le_antisymm hij hji]

lemma alike_of_sensitive (h : isCaseInsensitive options = false) (a b : UInt16) :
    Alike toLowercase options a b ↔ a = b := by
  simp [Alike, h]

lemma matches_iff (ht : t.units ≠ []) :
    isMatchAtPosition s t i (comparison toLowercase options) = true ↔
      Occurs (Alike toLowercase options) s t i := by
  rw [isMatchAtPosition_iff ht]
  exact occurs_congr fun a b _ => comparison_iff a b

lemma whole_iff (ht : t.units ≠ [])
    (h : ∀ a, ∀ b ∈ t.units, compare a b = true ↔ Alike toLowercase options a b) (i : ℕ) :
    (0 ≤ i ∧ i < s.length) ∧ isMatchAtPosition s t i compare = true ↔
      Wanted toLowercase options s t s.whole i := by
  rw [wanted_whole, isMatchAtPosition_iff ht, occurs_congr h]
  constructor
  · intro hi
    exact hi.2
  · intro hi
    have hbound := hi.bound
    have hpos := length_pos ht
    exact ⟨⟨Nat.zero_le i, by omega⟩, hi⟩

lemma finds_first (ht : t.units ≠ []) (hforward : isBackwards options = false)
    (h : ∀ a, ∀ b ∈ t.units, compare a b = true ↔ Alike toLowercase options a b) :
    Finds toLowercase options s t s.whole
      (found t (firstIn (fun i => isMatchAtPosition s t i compare) 0 s.length)) := by
  have hfinds := finds_found (whole_iff (s := s) ht h)
  rw [hforward] at hfinds
  exact hfinds

lemma finds_last (ht : t.units ≠ []) (hbackward : isBackwards options = true)
    (h : ∀ a, ∀ b ∈ t.units, compare a b = true ↔ Alike toLowercase options a b) :
    Finds toLowercase options s t s.whole
      (found t (lastIn (fun i => isMatchAtPosition s t i compare) 0 s.length)) := by
  have hfinds := finds_found (whole_iff (s := s) ht h)
  rw [hbackward] at hfinds
  exact hfinds

lemma finds_literalFirst_iff (ht : t.units ≠ []) :
    Finds toLowercase options s t s.whole
        (found t (firstIn (fun i => isMatchAtPosition s t i compareLiteral) 0 s.length)) ↔
      ∀ i, Occurs (Alike toLowercase options) s t i →
        ∃ j, Occurs (· = ·) s t j ∧ (∀ k, Occurs (· = ·) s t k → j ≤ k) ∧ Before options j i := by
  have hpos := length_pos ht
  cases ho : firstIn (fun i => isMatchAtPosition s t i compareLiteral) 0 s.length with
  | none =>
    have hnone : ∀ k, ¬ Occurs (· = ·) s t k := by
      intro k hk
      have hbound := hk.bound
      have hmiss := firstIn_eq_none.mp ho k (Nat.zero_le k) (by omega)
      rw [(literal_iff ht).mpr hk] at hmiss
      cases hmiss
    constructor
    · rintro (⟨-, h⟩ | ⟨j, hj, -⟩) i hi
      · exact absurd (wanted_whole.mpr hi) (h i)
      · cases (found_eq_some ht).mp hj
    · intro h
      refine .inl ⟨rfl, fun i hi => ?_⟩
      obtain ⟨j, hj, -⟩ := h i (wanted_whole.mp hi)
      exact hnone j hj
  | some j =>
    obtain ⟨-, hj, hbefore⟩ := firstIn_eq_some.mp ho
    have hoccurs := (literal_iff ht).mp hj
    have hleast : ∀ k, Occurs (· = ·) s t k → j ≤ k := by
      intro k hk
      by_contra hlt
      have hmiss := hbefore k (Nat.zero_le k) (by omega)
      rw [(literal_iff ht).mpr hk] at hmiss
      cases hmiss
    constructor
    · rintro (⟨h, -⟩ | ⟨i, hi, -, hfirst⟩) k hk
      · cases (found_eq_notFound ht).mp h
      · obtain rfl : j = i := by simpa using (found_eq_some ht).mp hi
        exact ⟨j, hoccurs, hleast, hfirst k (wanted_whole.mpr hk)⟩
    · intro h
      refine .inr ⟨j, rfl, wanted_whole.mpr hoccurs.alike, fun k hk => ?_⟩
      obtain ⟨j', hj', hleast', hbefore⟩ := h k (wanted_whole.mp hk)
      obtain rfl : j = j' := le_antisymm (hleast j' hj') (hleast' j hoccurs)
      exact hbefore

lemma finds_charactersFirst_iff (ht : t.units ≠ []) :
    Finds toLowercase caseInsensitiveSearch s t s.whole
        (found t (firstIn (fun i => isMatchAtPosition s t i (compareCharacters toLowercase)) 0
          s.length)) ↔
      (∀ u ∈ t.units, charFromU32 u ≠ none) ∨
        ∀ i, ¬ Occurs (Alike toLowercase caseInsensitiveSearch) s t i := by
  have halike : ∀ a b, Alike toLowercase caseInsensitiveSearch a b ↔
      folded toLowercase a = folded toLowercase b := fun a b => by
    rw [Alike, if_pos (by decide)]
  by_cases hchars : ∀ u ∈ t.units, charFromU32 u ≠ none
  · refine iff_of_true ?_ (.inl hchars)
    refine finds_first ht (by decide) fun a b hb => ?_
    rw [compareCharacters_iff, halike]
    exact and_iff_right (hchars b hb)
  · have hmiss : firstIn (fun i => isMatchAtPosition s t i (compareCharacters toLowercase)) 0
        s.length = none := by
      refine firstIn_eq_none.mpr fun i _ _ => ?_
      rw [← Bool.not_eq_true, isMatchAtPosition_iff ht]
      intro h
      refine hchars fun u hu => ?_
      obtain ⟨j, hj, rfl⟩ := getElem_of_mem hu
      rw [← t.characterAtIndex_eq hj]
      exact ((compareCharacters_iff _ _).mp ((occurs_iff.mp h).2 j hj).2).1
    rw [hmiss, or_iff_right hchars]
    constructor
    · rintro (⟨-, h⟩ | ⟨j, hj, -⟩) i hi
      · exact h i (wanted_whole.mpr hi)
      · cases (found_eq_some (o := none) ht).mp hj
    · intro h
      exact finds_notFound fun i hi => h i (wanted_whole.mp hi)

lemma optionsServed_of_empty (ht : t.units = []) : OptionsServed toLowercase s t options := by
  by_cases h : options = caseInsensitiveSearch
  · exact .inr (.inr (.inr (.inl ⟨h, .inr fun i hi => hi.1 ht⟩)))
  · exact .inr (.inr (.inr (.inr ⟨h, fun i hi => absurd ht hi.1⟩)))

lemma rangeOfStringOptions_empty (ht : t.units = []) :
    rangeOfStringOptions toLowercase s t options = notFound := by
  rw [rangeOfStringOptions, if_pos]
  rw [NSString.length, ht, length_nil]

lemma finds_rangeOfStringOptions_iff :
    Finds toLowercase options s t s.whole (rangeOfStringOptions toLowercase s t options) ↔
      OptionsServed toLowercase s t options := by
  by_cases ht : t.units = []
  · rw [rangeOfStringOptions_empty ht]
    exact iff_of_true (finds_notFound fun i hi => hi.2.2.1 ht) (optionsServed_of_empty ht)
  have hpos := length_pos ht
  have hliteral : isCaseInsensitive options = false →
      ∀ a, ∀ b ∈ t.units, compareLiteral a b = true ↔ Alike toLowercase options a b := by
    intro hcase a b _
    rw [alike_of_sensitive hcase]
    simp [compareLiteral]
  unfold rangeOfStringOptions
  rw [if_neg (by omega)]
  split_ifs with hforward hcase hback
  · refine iff_of_true (finds_first ht ?_ (hliteral ?_)) (by tauto)
    · obtain rfl | rfl := hforward <;> decide
    · obtain rfl | rfl := hforward <;> decide
  · rw [hcase, finds_charactersFirst_iff ht]
    simp [OptionsServed, caseInsensitiveSearch, literalSearch, backwardsSearch]
  · rw [hback]
    exact iff_of_true (finds_last ht (by decide) (hback ▸ hliteral (hback ▸ by decide)))
      (by tauto)
  · rw [finds_literalFirst_iff ht]
    unfold OptionsServed
    tauto

lemma NSString.length_bound (s : NSString) : s.length < 2 ^ 32 := s.length_lt

lemma Finds.bound (h : Finds toLowercase options s t range r) :
    r.location + r.length < 2 ^ 32 := by
  obtain ⟨rfl, -⟩ | ⟨i, rfl, hi, -⟩ := h
  · decide
  · exact lt_of_le_of_lt hi.2.2.bound s.length_bound

lemma not_wanted_of_served
    (h : t.units = [] ∨ s.length ≤ range.location ∨ range.length = 0) (i : ℕ) :
    ¬ Wanted toLowercase options s t range i := by
  intro hi
  have hpos := length_pos hi.2.2.1
  have hbound := hi.2.2.bound
  have hlo := hi.1
  have hhi := hi.2.1
  obtain ht | hloc | hlen := h
  · exact hi.2.2.1 ht
  · omega
  · omega

lemma rangeSearch_nothing
    (h : t.units = [] ∨ s.length ≤ range.location ∨ range.length = 0) :
    rangeOfStringOptionsRange toLowercase s t options range = .ok notFound := by
  unfold rangeOfStringOptionsRange
  rw [if_pos]
  · rfl
  · rw [NSString.length, length_eq_zero_iff]
    exact h

lemma rangeSearch_unfold
    (h : ¬ (t.units = [] ∨ s.length ≤ range.location ∨ range.length = 0))
    (hsum : range.location + range.length < 2 ^ 32) :
    rangeOfStringOptionsRange toLowercase s t options range =
      .ok (if min (range.location + range.length) s.length - t.length < range.location
        then notFound
        else found t (if isBackwards options
          then lastIn (fun i => isMatchAtPosition s t i (comparison toLowercase options))
            range.location (min (range.location + range.length) s.length - t.length + 1)
          else firstIn (fun i => isMatchAtPosition s t i (comparison toLowercase options))
            range.location (min (range.location + range.length) s.length - t.length + 1))) := by
  unfold rangeOfStringOptionsRange
  rw [if_neg, addU32_eq_ok.mpr ⟨hsum, rfl⟩, ok_bind]
  · dsimp only
    split_ifs
    · rfl
    · rfl
    · rfl
  · rw [NSString.length, length_eq_zero_iff]
    exact h

lemma finds_fitting (ht : t.units ≠ [])
    (hfits : t.length ≤ min (range.location + range.length) s.length) :
    Finds toLowercase options s t range (found t (if isBackwards options
      then lastIn (fun i => isMatchAtPosition s t i (comparison toLowercase options))
        range.location (min (range.location + range.length) s.length - t.length + 1)
      else firstIn (fun i => isMatchAtPosition s t i (comparison toLowercase options))
        range.location (min (range.location + range.length) s.length - t.length + 1))) := by
  refine finds_found fun i => ?_
  rw [matches_iff ht, Wanted]
  constructor
  · rintro ⟨⟨hlo, hhi⟩, hi⟩
    exact ⟨hlo, by omega, hi⟩
  · rintro ⟨hlo, hhi, hi⟩
    have hbound := hi.bound
    exact ⟨⟨hlo, by omega⟩, hi⟩

lemma finds_overlong_iff (ht : t.units ≠ []) (hstart : range.location = 0)
    (hlong : min range.length s.length < t.length) :
    Finds toLowercase options s t range (found t (if isBackwards options
      then lastIn (fun i => isMatchAtPosition s t i (comparison toLowercase options)) 0 1
      else firstIn (fun i => isMatchAtPosition s t i (comparison toLowercase options)) 0 1)) ↔
      ¬ Occurs (Alike toLowercase options) s t 0 := by
  have hnone : ∀ i, ¬ Wanted toLowercase options s t range i := by
    rintro i ⟨hlo, hhi, hi⟩
    have hbound := hi.bound
    omega
  constructor
  · rintro (⟨hr, -⟩ | ⟨i, -, hi, -⟩) hocc
    · have hp := (matches_iff (s := s) ht).mpr hocc
      have hr := (found_eq_notFound ht).mp hr
      split_ifs at hr
      · rw [lastIn_eq_none.mp hr 0 le_rfl one_pos] at hp
        cases hp
      · rw [firstIn_eq_none.mp hr 0 le_rfl one_pos] at hp
        cases hp
    · exact hnone i hi
  · intro hocc
    have hmiss : ∀ i, 0 ≤ i → i < 1 →
        isMatchAtPosition s t i (comparison toLowercase options) = false := by
      intro i _ hi
      obtain rfl : i = 0 := by omega
      rw [← Bool.not_eq_true, matches_iff ht]
      exact hocc
    rw [lastIn_eq_none.mpr hmiss, firstIn_eq_none.mpr hmiss, ite_self]
    exact finds_notFound hnone

lemma finds_rangeOfStringOptionsRange_iff :
    (∃ r, rangeOfStringOptionsRange toLowercase s t options range = .ok r ∧
      Finds toLowercase options s t range r ∧ r.location + r.length < 2 ^ 32) ↔
      RangeServed toLowercase s t options range := by
  by_cases hnothing : t.units = [] ∨ s.length ≤ range.location ∨ range.length = 0
  · refine iff_of_true ⟨notFound, rangeSearch_nothing hnothing,
      finds_notFound (not_wanted_of_served hnothing), by decide⟩ ?_
    unfold RangeServed
    tauto
  have hserved : RangeServed toLowercase s t options range ↔
      range.location + range.length < 2 ^ 32 ∧ ¬ (range.location = 0 ∧
        range.length < t.length ∧ Occurs (Alike toLowercase options) s t 0) := by
    unfold RangeServed
    tauto
  rw [hserved]
  by_cases hsum : range.location + range.length < 2 ^ 32
  swap
  · refine iff_of_false ?_ fun h => hsum h.1
    rintro ⟨r, hr, -⟩
    unfold rangeOfStringOptionsRange at hr
    rw [if_neg, addU32, if_neg (by simpa [u32Bound] using hsum)] at hr
    · cases hr
    · rw [NSString.length, length_eq_zero_iff]
      exact hnothing
  rw [rangeSearch_unfold hnothing hsum, and_iff_right hsum]
  have ht : t.units ≠ [] := fun ht => hnothing (.inl ht)
  have hin : range.location < s.length := by
    by_contra hout
    exact hnothing (.inr (.inl (by omega)))
  by_cases hroom : min (range.location + range.length) s.length - t.length < range.location
  · rw [if_pos hroom]
    have hnone : ∀ i, ¬ Wanted toLowercase options s t range i := by
      rintro i ⟨hlo, hhi, hi⟩
      have hbound := hi.bound
      omega
    exact iff_of_true ⟨notFound, rfl, finds_notFound hnone, by decide⟩ (by omega)
  rw [if_neg hroom]
  by_cases hfits : t.length ≤ min (range.location + range.length) s.length
  · have hfinds : Finds toLowercase options s t range _ := finds_fitting ht hfits
    refine iff_of_true ⟨_, rfl, hfinds, hfinds.bound⟩ ?_
    rintro ⟨hstart, hlong, -⟩
    omega
  · have hstart : range.location = 0 := by omega
    have hend : min (range.location + range.length) s.length - t.length = 0 := by omega
    rw [hend, hstart]
    have hlong : min range.length s.length < t.length := by omega
    have hiff : Finds toLowercase options s t range _ ↔ _ := finds_overlong_iff ht hstart hlong
    constructor
    · rintro ⟨r, hr, hfinds, -⟩ ⟨-, -, hocc⟩
      cases hr
      exact hiff.mp hfinds hocc
    · intro hnot
      have hfinds := hiff.mpr fun hocc => hnot ⟨rfl, by have := hocc.bound; omega, hocc⟩
      exact ⟨_, rfl, hfinds, hfinds.bound⟩

lemma rangeServed_whole : RangeServed toLowercase s t options s.whole := by
  by_cases hs : s.length ≤ 0
  · exact .inr (.inl hs)
  · refine .inr (.inr (.inr ⟨?_, fun h => ?_⟩))
    · simpa [NSString.whole] using s.length_bound
    · have hbound := h.2.2.bound
      have hlong : s.length < t.length := h.2.1
      omega

/-- The two searches agree, and find the first place the options ask for, exactly when the options
and the range are ones they look at. -/
theorem searchesAgree_iff (toLowercase : Char → List Char) (s t : NSString) (options : ℕ)
    (range : NSRange) : SearchesAgree toLowercase s t options range ↔
      OptionsServed toLowercase s t options ∧ RangeServed toLowercase s t options range := by
  rw [← finds_rangeOfStringOptions_iff, ← finds_rangeOfStringOptionsRange_iff]
  constructor
  · intro h
    exact ⟨h.finds, h.within⟩
  · rintro ⟨hfinds, hwithin⟩
    have hwhole : RangeServed toLowercase s t options s.whole := rangeServed_whole
    obtain ⟨r, hr, hfinds', -⟩ := finds_rangeOfStringOptionsRange_iff.mpr hwhole
    exact ⟨by rw [hr, hfinds'.unique hfinds], hfinds, hwithin⟩

end

def asciiLowercase (c : Char) : List Char := [c.toLower]

def twice : NSString := ⟨[97, 97], by decide⟩

def once : NSString := ⟨[97], by decide⟩

theorem searches_disagree :
    ¬ ∀ toLowercase s t options range, SearchesAgree toLowercase s t options range := by
  intro h
  have hsame := (h asciiLowercase twice once (caseInsensitiveSearch ||| backwardsSearch)
    twice.whole).same
  revert hsame
  decide

end TouchHle.Strings
