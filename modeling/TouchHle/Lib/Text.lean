import Mathlib

/-! Strings as lists of characters: splitting at a separator. -/

namespace TouchHle.Lib

open List Option

abbrev Text := List Char

namespace Text

def rsplitOnce (c : Char) (s : Text) : Option (Text × Text) :=
  match s.reverse.span (fun x => x ≠ c) with
  | (_, []) => none
  | (after, _ :: before) => some (before.reverse, after.reverse)

def trimEndMatches (c : Char) (s : Text) : Text :=
  (s.reverse.dropWhile fun x => x = c).reverse

end Text

end TouchHle.Lib

namespace TouchHle.Lib.Text

open List Option

variable {c x : Char} {a b s pattern : Text}

def splitOnce (c : Char) : Text → Option (Text × Text)
  | [] => none
  | x :: s => if x = c then some ([], s) else (splitOnce c s).map fun p => (x :: p.1, p.2)

def upTo (c : Char) (s : Text) : Text := s.takeWhile fun x => x ≠ c

def splitOnceStr (pattern : Text) : Text → Option (Text × Text)
  | [] => if pattern = [] then some ([], []) else none
  | x :: s =>
    if pattern.isPrefixOf (x :: s) then some ([], (x :: s).drop pattern.length)
    else (splitOnceStr pattern s).map fun p => (x :: p.1, p.2)

def removeFirst (pattern s : Text) : Text :=
  match splitOnceStr pattern s with
  | some (before, after) => before ++ after
  | none => s

lemma splitOnce_append (h : c ∉ a) (b : Text) : splitOnce c (a ++ c :: b) = some (a, b) := by
  induction a with
  | nil => simp [splitOnce]
  | cons x a ih =>
    rw [mem_cons, not_or] at h
    simp [splitOnce, Ne.symm h.1, ih h.2]

lemma splitOnce_eq_none : splitOnce c s = none ↔ c ∉ s := by
  induction s with
  | nil => simp [splitOnce]
  | cons x s ih =>
    by_cases h : x = c
    · simp [splitOnce, h]
    · simp [splitOnce, h, Ne.symm h, ih]

lemma splitOnce_some (h : splitOnce c s = some (a, b)) : s = a ++ c :: b ∧ c ∉ a := by
  have hc : c ∈ s := by
    by_contra hc
    rw [splitOnce_eq_none.mpr hc] at h
    cases h
  obtain ⟨a', b', rfl, ha'⟩ := eq_append_cons_of_mem hc
  rw [splitOnce_append ha', some.injEq, Prod.mk.injEq] at h
  obtain ⟨rfl, rfl⟩ := h
  exact ⟨rfl, ha'⟩

lemma upTo_append (h : c ∉ a) (b : Text) : upTo c (a ++ c :: b) = a := by
  induction a with
  | nil => simp [upTo]
  | cons x a ih =>
    rw [mem_cons, not_or] at h
    have ih := ih h.2
    unfold upTo at ih ⊢
    rw [cons_append, takeWhile_cons, if_pos (by simpa using Ne.symm h.1), ih]

lemma upTo_self (h : c ∉ s) : upTo c s = s := by
  unfold upTo
  rw [takeWhile_eq_self_iff]
  intro x hx
  have hne : x ≠ c := fun hxc => h (hxc ▸ hx)
  simpa using hne

lemma rsplitOnce_append (h : c ∉ b) (a : Text) : rsplitOnce c (a ++ c :: b) = some (a, b) := by
  have hrev : c ∉ b.reverse := by simpa using h
  have htake : (b.reverse ++ c :: a.reverse).takeWhile (fun x => decide (x ≠ c)) = b.reverse :=
    upTo_append hrev a.reverse
  have hdrop : (b.reverse ++ c :: a.reverse).dropWhile (fun x => decide (x ≠ c)) = c :: a.reverse := by
    have hsplit := takeWhile_append_dropWhile (p := fun x => decide (x ≠ c))
      (l := b.reverse ++ c :: a.reverse)
    rw [htake] at hsplit
    exact append_cancel_left hsplit
  have hreverse : (a ++ c :: b).reverse = b.reverse ++ c :: a.reverse := by simp
  unfold rsplitOnce
  rw [hreverse, span_eq_takeWhile_dropWhile, htake, hdrop]
  simp

lemma rsplitOnce_none (h : c ∉ s) : rsplitOnce c s = none := by
  have hrev : c ∉ s.reverse := by simpa using h
  have htake : s.reverse.takeWhile (fun x => decide (x ≠ c)) = s.reverse := upTo_self hrev
  have hdrop : s.reverse.dropWhile (fun x => decide (x ≠ c)) = [] := by
    rw [dropWhile_eq_nil_iff]
    intro x hx
    have hne : x ≠ c := fun hxc => hrev (hxc ▸ hx)
    simpa using hne
  unfold rsplitOnce
  rw [span_eq_takeWhile_dropWhile, htake, hdrop]

lemma splitOnceStr_some (hne : pattern ≠ []) (h : splitOnceStr pattern s = some (a, b)) :
    s = a ++ pattern ++ b := by
  induction s generalizing a with
  | nil => simp [splitOnceStr, hne] at h
  | cons x s ih =>
    unfold splitOnceStr at h
    split_ifs at h with hpre
    · obtain ⟨t, ht⟩ := isPrefixOf_iff_prefix.mp hpre
      simp only [some.injEq, Prod.mk.injEq] at h
      obtain ⟨rfl, rfl⟩ := h
      rw [← ht]
      simp
    · obtain ⟨p, hp, hab⟩ := map_eq_some_iff.mp h
      obtain ⟨rfl, rfl⟩ := Prod.mk.inj hab
      rw [ih hp]
      simp

lemma splitOnceStr_append (h : c ∉ a) (p b : Text) :
    splitOnceStr (c :: p) (a ++ (c :: p) ++ b) = some (a, b) := by
  induction a with
  | nil => simp [splitOnceStr]
  | cons x a ih =>
    rw [mem_cons, not_or] at h
    have hpre : List.isPrefixOf (c :: p) (x :: (a ++ (c :: p) ++ b)) = false := by
      simp [List.isPrefixOf, h.1]
    rw [cons_append, cons_append, splitOnceStr, hpre, ih h.2]
    simp

lemma not_mem_of_mem_splitOn (h : a ∈ s.splitOn c) : c ∉ a := by
  induction s generalizing a with
  | nil =>
    obtain rfl : a = [] := by simpa using h
    simp
  | cons x s ih =>
    rw [splitOn_cons_eq_if_modifyHead] at h
    split at h
    · rcases mem_cons.mp h with rfl | h
      · simp
      · exact ih h
    · rename_i hx
      cases hs : s.splitOn c with
      | nil =>
        rw [hs] at h
        simp at h
      | cons d ds =>
        rw [hs, modifyHead_cons] at h
        rcases mem_cons.mp h with rfl | h
        · have hd := ih (hs ▸ mem_cons_self)
          rw [mem_cons, not_or]
          exact ⟨fun he => hx (beq_iff_eq.mpr he.symm), hd⟩
        · exact ih (hs ▸ mem_cons_of_mem _ h)

end TouchHle.Lib.Text

namespace TouchHle.Lib

open List Option

variable {p : ℕ → Bool} {lo hi i j : ℕ}

def firstIn (p : ℕ → Bool) (lo hi : ℕ) : Option ℕ := (List.range' lo (hi - lo)).find? p

def lastIn (p : ℕ → Bool) (lo hi : ℕ) : Option ℕ := (List.range' lo (hi - lo)).reverse.find? p

lemma mem_interval : i ∈ List.range' lo (hi - lo) ↔ lo ≤ i ∧ i < hi := by
  rw [mem_range'_1]
  omega

lemma firstIn_eq_none : firstIn p lo hi = none ↔ ∀ i, lo ≤ i → i < hi → p i = false := by
  unfold firstIn
  rw [find?_eq_none]
  constructor
  · intro h i hlo hhi
    simpa using h i (mem_interval.mpr ⟨hlo, hhi⟩)
  · intro h i hi
    obtain ⟨hlo, hhi⟩ := mem_interval.mp hi
    simp [h i hlo hhi]

lemma lastIn_eq_none : lastIn p lo hi = none ↔ ∀ i, lo ≤ i → i < hi → p i = false := by
  rw [← firstIn_eq_none]
  unfold lastIn firstIn
  rw [find?_eq_none, find?_eq_none]
  simp only [mem_reverse]

lemma firstIn_eq_some : firstIn p lo hi = some i ↔
    (lo ≤ i ∧ i < hi) ∧ p i = true ∧ ∀ j, lo ≤ j → j < i → p j = false := by
  unfold firstIn
  rw [find?_range'_eq_some]
  constructor
  · rintro ⟨hp, hmem, hbefore⟩
    refine ⟨mem_interval.mp hmem, hp, fun j hlo hj => ?_⟩
    simpa using hbefore j hlo hj
  · rintro ⟨hin, hp, hbefore⟩
    refine ⟨hp, mem_interval.mpr hin, fun j hlo hj => ?_⟩
    simp [hbefore j hlo hj]

lemma find?_reverse_some {l : List ℕ} (h : l.Pairwise (· < ·)) :
    l.reverse.find? p = some i ↔ i ∈ l ∧ p i = true ∧ ∀ j ∈ l, i < j → p j = false := by
  rw [find?_eq_some_iff_append]
  constructor
  · rintro ⟨hp, after, before, hsplit, hafter⟩
    have hl : l = before.reverse ++ i :: after.reverse := by
      have hback := congrArg List.reverse hsplit
      simpa using hback
    rw [hl, pairwise_append, pairwise_cons] at h
    refine ⟨by rw [hl]; simp, hp, fun j hj hij => ?_⟩
    rw [hl] at hj
    simp only [mem_append, mem_cons, mem_reverse] at hj
    obtain hj | rfl | hj := hj
    · have hlt := h.2.2 j (mem_reverse.mpr hj) i mem_cons_self
      omega
    · omega
    · simpa using hafter j hj
  · rintro ⟨hmem, hp, hafter⟩
    obtain ⟨before, after, rfl⟩ := append_of_mem hmem
    rw [pairwise_append, pairwise_cons] at h
    refine ⟨hp, after.reverse, before.reverse, by simp, fun j hj => ?_⟩
    have hj' := mem_reverse.mp hj
    simp [hafter j (by simp [hj']) (h.2.1.1 j hj')]

lemma lastIn_eq_some : lastIn p lo hi = some i ↔
    (lo ≤ i ∧ i < hi) ∧ p i = true ∧ ∀ j, i < j → j < hi → p j = false := by
  have hsorted : (List.range' lo (hi - lo)).Pairwise (· < ·) := pairwise_lt_range'
  unfold lastIn
  rw [find?_reverse_some hsorted]
  constructor
  · rintro ⟨hmem, hp, hafter⟩
    have hin := mem_interval.mp hmem
    exact ⟨hin, hp, fun j hij hj => hafter j (mem_interval.mpr ⟨by omega, hj⟩) hij⟩
  · rintro ⟨hin, hp, hafter⟩
    refine ⟨mem_interval.mpr hin, hp, fun j hj hij => ?_⟩
    exact hafter j hij (mem_interval.mp hj).2

end TouchHle.Lib
