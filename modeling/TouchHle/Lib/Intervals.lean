import Mathlib

/-! Families of pairwise disjoint regions, and the replacement of some of them by pieces. -/

namespace TouchHle.Lib

open List

variable {ι α : Type} {f : ι → Set α} {S R T S' : Set ι}

lemma pairwiseDisjoint_replace (hS : S.PairwiseDisjoint f) (hR : R ⊆ S) (hT : T.PairwiseDisjoint f)
    (hcover : ∀ t ∈ T, f t ⊆ ⋃ r ∈ R, f r) (hS' : ∀ x ∈ S', x ∈ T ∨ (x ∈ S ∧ x ∉ R)) :
    S'.PairwiseDisjoint f := by
  have hmixed : ∀ t ∈ T, ∀ x ∈ S, x ∉ R → Disjoint (f t) (f x) := by
    intro t ht x hx hxR
    refine Disjoint.mono_left (hcover t ht) ?_
    simp only [Set.disjoint_iUnion_left]
    intro r hr
    exact hS (hR hr) hx fun he => hxR (he ▸ hr)
  intro x hx y hy hxy
  rcases hS' x hx with hxT | ⟨hxS, hxR⟩ <;> rcases hS' y hy with hyT | ⟨hyS, hyR⟩
  · exact hT hxT hyT hxy
  · exact hmixed x hxT y hyS hyR
  · exact (hmixed y hyT x hxS hxR).symm
  · exact hS hxS hyS hxy

lemma Ico_disjoint_iff {a b s t : ℕ} (hs : 0 < s) (ht : 0 < t) :
    Disjoint (Set.Ico a (a + s)) (Set.Ico b (b + t)) ↔ a + s ≤ b ∨ b + t ≤ a := by
  rw [Set.Ico_disjoint_Ico]
  omega

def partitionPoint {α : Type} (p : α → Bool) (l : List α) : ℕ := (l.takeWhile p).length

def runningMax (m : ℕ) : List ℕ → List ℕ
  | [] => []
  | x :: xs => max m x :: runningMax (max m x) xs

structure UnstableSort (α κ : Type) [LE κ] (key : α → κ) where
  sort : List α → List α
  perm : ∀ l, (sort l).Perm l
  sorted : ∀ l, (sort l).Pairwise fun a b => key a ≤ key b

variable {α : Type} {p : α → Bool} {l : List α} {m n : ℕ}

lemma partitionPoint_le : partitionPoint p l ≤ l.length := ( takeWhile_prefix p).length_le

lemma take_partitionPoint : l.take (partitionPoint p l) = l.takeWhile p :=
  (prefix_iff_eq_take.mp ( takeWhile_prefix p)).symm

lemma mem_takeWhile_iff {a : α} (h : l.Pairwise fun a b => p b → p a) :
    a ∈ l.takeWhile p ↔ a ∈ l ∧ p a := by
  induction l with
  | nil => simp
  | cons b l ih =>
    obtain ⟨hb, hl⟩ := pairwise_cons.mp h
    cases hp : p b with
    | true =>
      rw [takeWhile_cons_of_pos hp, mem_cons, ih hl, mem_cons]
      constructor
      · rintro (rfl | ⟨ha, hpa⟩)
        · exact ⟨.inl rfl, hp⟩
        · exact ⟨.inr ha, hpa⟩
      · rintro ⟨rfl | ha, hpa⟩
        · exact .inl rfl
        · exact .inr ⟨ha, hpa⟩
    | false =>
      rw [takeWhile_cons_of_neg (by rw [hp]; exact Bool.false_ne_true)]
      refine iff_of_false not_mem_nil ?_
      rintro ⟨ha, hpa⟩
      obtain rfl | ha := mem_cons.mp ha
      · rw [hp] at hpa
        cases hpa
      · have hpb := hb a ha hpa
        rw [hp] at hpb
        cases hpb

lemma lt_runningMax {xs : List ℕ} {i b : ℕ} (hi : i < xs.length) :
    b < (runningMax m xs).getD i 0 ↔ b < m ∨ ∃ x ∈ xs.take (i + 1), b < x := by
  induction xs generalizing m i with
  | nil => cases hi
  | cons x xs ih =>
    rw [runningMax, take_succ_cons, exists_mem_cons_iff]
    cases i with
    | zero =>
      rw [getD_cons_zero, take_zero, lt_max_iff]
      simp
    | succ i =>
      rw [getD_cons_succ, ih (Nat.lt_of_succ_lt_succ hi), lt_max_iff, or_assoc]

lemma overlaps_iff (start stop : α → ℕ) (h : l.Pairwise fun a b => start a ≤ start b) :
    (0 < partitionPoint (fun a => start a < n) l ∧
      m < (runningMax 0 (l.map stop)).getD (partitionPoint (fun a => start a < n) l - 1) 0) ↔
    ∃ a ∈ l, start a < n ∧ m < stop a := by
  have hmem : ∀ a, a ∈ l.takeWhile (fun a => decide (start a < n)) ↔ a ∈ l ∧ start a < n := by
    intro a
    rw [mem_takeWhile_iff, decide_eq_true_eq]
    refine h.imp fun {a b} hab hb => ?_
    exact decide_eq_true (hab.trans_lt (of_decide_eq_true hb))
  have hle : partitionPoint (fun a => decide (start a < n)) l ≤ l.length := partitionPoint_le
  have htake : ∀ {k}, 0 < k → k ≤ l.length →
      (m < (runningMax 0 (l.map stop)).getD (k - 1) 0 ↔ ∃ a ∈ l.take k, m < stop a) := by
    intro k hk hkl
    rw [lt_runningMax (by rw [length_map]; omega), Nat.sub_add_cancel hk, ← map_take]
    simp only [Nat.not_lt_zero, false_or, mem_map, exists_exists_and_eq_and]
  constructor
  · rintro ⟨hpos, hlt⟩
    obtain ⟨a, ha, hstop⟩ := (htake hpos hle).mp hlt
    rw [take_partitionPoint, hmem] at ha
    exact ⟨a, ha.1, ha.2, hstop⟩
  · rintro ⟨a, ha, hstart, hstop⟩
    have hin := (hmem a).mpr ⟨ha, hstart⟩
    have hpos : 0 < partitionPoint (fun a => decide (start a < n)) l := length_pos_of_mem hin
    refine ⟨hpos, (htake hpos hle).mpr ⟨a, ?_, hstop⟩⟩
    rw [take_partitionPoint]
    exact hin

end TouchHle.Lib
