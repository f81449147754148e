import TouchHle.Lib.Reversal
import TouchHle.Font.Arabic

namespace TouchHle.Font

open Lib List

def marks (level : ℕ) (levels : List ℕ) : List Bool := levels.map (level ≤ ·)

variable {levels order : List ℕ} {k m n : ℕ}

@[simp] lemma length_marks : (marks k levels).length = levels.length := by simp [marks]

lemma reverseRuns_eq (level : ℕ) (run levels order : List ℕ) :
    reverseRuns level run levels order = reverseMarked run (marks level levels) order := by
  induction order generalizing run levels with
  | nil => cases levels <;> simp [reverseRuns, marks]
  | cons o order ih =>
    cases levels with
    | nil => rfl
    | cons l levels =>
      by_cases h : level ≤ l
      · simp only [reverseRuns, marks, map_cons, h, if_true, decide_true, reverseMarked_true]
        exact ih _ _
      · simp only [reverseRuns, marks, map_cons, h, if_false, decide_false, reverseMarked_false]
        rw [ih]
        rfl

lemma reversePasses_succ : reversePasses levels (k + 1) order =
    reversePasses levels k (reverseMarked [] (marks (k + 1) levels) order) := by
  rw [reversePasses, reverseRuns_eq]

theorem reversePasses_perm (h : levels.length = order.length) :
    (reversePasses levels k order).Perm order := by
  induction k generalizing order with
  | zero => exact .refl _
  | succ k ih =>
    rw [reversePasses_succ]
    have hperm : (reverseMarked [] (marks (k + 1) levels) order).Perm order := by
      have hlen : (marks (k + 1) levels).length = order.length := by simpa using h
      simpa using reverseMarked_perm [] hlen
    exact (ih (h.trans hperm.length_eq.symm)).trans hperm

lemma reversePasses_of_le (hmax : ∀ l ∈ levels, l ≤ m) (hmn : m ≤ n)
    (h : levels.length = order.length) : reversePasses levels n order = reversePasses levels m order := by
  induction n, hmn using Nat.le_induction with
  | base => rfl
  | succ n hmn ih =>
    rw [reversePasses_succ, reverseMarked_falses _ (by simpa using h), ih]
    intro mark hmark
    obtain ⟨l, hl, rfl⟩ := mem_map.mp hmark
    have := hmax l hl
    simp
    omega

lemma reversePasses_even (hodd : ∀ l ∈ levels, l % 2 = 1 → 2 * m < l)
    (h : levels.length = order.length) : reversePasses levels (2 * m) order = order := by
  induction m generalizing order with
  | zero => rfl
  | succ m ih =>
    have hsame : marks (2 * m + 1) levels = marks (2 * m + 2) levels := by
      apply map_congr_left
      intro l hl
      have := hodd l hl
      simp only [decide_eq_decide]
      omega
    have hlen : (marks (2 * m + 2) levels).length = order.length := by simpa using h
    rw [show 2 * (m + 1) = 2 * m + 1 + 1 from rfl, reversePasses_succ, reversePasses_succ, hsame,
      reverseMarked_twice hlen, ih _ h]
    intro l hl hl1
    have := hodd l hl hl1
    omega

lemma resolveOrder_eq (hmax : ∀ l ∈ levels, l ≤ m) :
    resolveOrder levels = reversePasses levels m (List.range levels.length) := by
  unfold resolveOrder
  cases hm : levels.max? with
  | none =>
    obtain rfl := max?_eq_none_iff.mp hm
    have hnil : ∀ k, reversePasses [] k [] = [] := by
      intro k
      induction k with
      | zero => rfl
      | succ k ih => exact ih
    exact (hnil m).symm
  | some max =>
    obtain ⟨hmem, hle⟩ := max?_eq_some_iff.mp hm
    exact (reversePasses_of_le hle (hmax max hmem) (by simp)).symm

theorem resolveOrder_perm (levels : List ℕ) :
    (resolveOrder levels).Perm (List.range levels.length) := by
  unfold resolveOrder
  cases levels.max? with
  | none => exact .refl _
  | some max => exact reversePasses_perm (by simp)

def reverseWhere (p : ℕ × ℕ → Bool) (l : List (ℕ × ℕ)) : List (ℕ × ℕ) := reverseMarked [] (l.map p) l

def reverseLevels (lowest : ℕ) : ℕ → List (ℕ × ℕ) → List (ℕ × ℕ)
  | 0, line => line
  | level + 1, line =>
    if level + 1 < lowest then line
    else reverseLevels lowest level (reverseWhere (fun e => level + 1 ≤ e.1) line)

/-- Rule L2 of UAX #9 on a line of elements with their levels: from the highest level found in the
text to the lowest odd level, reverse any contiguous sequence of elements at that level or higher. -/
def ruleL2 (line : List (ℕ × ℕ)) : List (ℕ × ℕ) :=
  match (line.map Prod.fst).max?, ((line.map Prod.fst).filter (· % 2 = 1)).min? with
  | some highest, some lowest => reverseLevels lowest highest line
  | _, _ => line

lemma map_reverseWhere {line : List (ℕ × ℕ)} {j : ℕ} (hjk : j ≤ k) :
    (reverseWhere (fun e => k ≤ e.1) line).map (fun e => decide (j ≤ e.1)) =
      line.map fun e => decide (j ≤ e.1) := by
  rw [reverseWhere, map_reverseMarked]
  refine reverseMarked_const (x := true) ?_ (by simp) (by simp)
  intro i b hb hmark
  rw [getElem?_map, Option.map_eq_some_iff] at hb hmark
  obtain ⟨e, he, rfl⟩ := hb
  obtain ⟨e', he', hk⟩ := hmark
  obtain rfl := Option.some_inj.mp (he.symm.trans he')
  simp at hk ⊢
  omega

lemma reverseLevels_eq (levels : List ℕ) {line : List (ℕ × ℕ)} {lowest : ℕ} (hlowest : lowest % 2 = 1)
    (hle : lowest ≤ k + 1) (hodd : ∀ l ∈ levels, l % 2 = 1 → lowest ≤ l)
    (hlen : levels.length = line.length)
    (hline : ∀ j ≤ k, line.map (fun e => decide (j ≤ e.1)) = marks j levels) :
    (reverseLevels lowest k line).map Prod.snd = reversePasses levels k (line.map Prod.snd) := by
  induction k generalizing line with
  | zero => rfl
  | succ k ih =>
    rw [reverseLevels]
    split_ifs with h
    · obtain ⟨m, hm⟩ : ∃ m, k + 1 = 2 * m := ⟨(k + 1) / 2, by omega⟩
      rw [hm, reversePasses_even _ (by simpa using hlen)]
      intro l hl hl1
      have := hodd l hl hl1
      omega
    · have hstep : (reverseWhere (fun e => k + 1 ≤ e.1) line).map Prod.snd =
          reverseMarked [] (marks (k + 1) levels) (line.map Prod.snd) := by
        rw [reverseWhere, map_reverseMarked, hline (k + 1) le_rfl]
        rfl
      rw [reversePasses_succ, ← hstep]
      apply ih (by omega)
      · rw [reverseWhere, length_reverseMarked (by simp), hlen]
      · intro j hj
        rw [map_reverseWhere (by omega), hline j (by omega)]

theorem resolveOrder_eq_ruleL2 (levels : List ℕ) :
    resolveOrder levels = (ruleL2 (levels.zip (List.range levels.length))).map Prod.snd := by
  have hfst : (levels.zip (List.range levels.length)).map Prod.fst = levels :=
    map_fst_zip (by simp)
  have hsnd : (levels.zip (List.range levels.length)).map Prod.snd = List.range levels.length :=
    map_snd_zip (by simp)
  unfold ruleL2 resolveOrder
  rw [hfst]
  cases hmax : levels.max? with
  | none => exact hsnd.symm
  | some highest =>
    obtain ⟨hmem, hhighest⟩ := max?_eq_some_iff.mp hmax
    cases hmin : (levels.filter (· % 2 = 1)).min? with
    | none =>
      have hnone := min?_eq_none_iff.mp hmin
      have heven : ∀ l ∈ levels, l % 2 ≠ 1 := by
        intro l hl hl1
        have : l ∈ levels.filter (· % 2 = 1) := mem_filter.mpr ⟨hl, by simpa using hl1⟩
        rw [hnone] at this
        cases this
      obtain ⟨m, hm⟩ : ∃ m, highest = 2 * m := ⟨highest / 2, by have := heven highest hmem; omega⟩
      dsimp only
      rw [hsnd, hm, reversePasses_even (fun l hl hl1 => absurd hl1 (heven l hl)) (by simp)]
    | some lowest =>
      obtain ⟨hlowmem, hlow⟩ := min?_eq_some_iff.mp hmin
      obtain ⟨hlowlevels, hlowodd⟩ := mem_filter.mp hlowmem
      have hle : lowest ≤ highest := hhighest lowest hlowlevels
      dsimp only
      rw [reverseLevels_eq levels (by simpa using hlowodd) (by omega) _ (by simp) _, hsnd]
      · exact fun l hl hl1 => hlow l (mem_filter.mpr ⟨hl, by simpa using hl1⟩)
      · intro j _
        have hcomp : (levels.zip (List.range levels.length)).map (fun e => decide (j ≤ e.1)) =
            ((levels.zip (List.range levels.length)).map Prod.fst).map (fun l => decide (j ≤ l)) := by
          rw [List.map_map]
          rfl
        rw [hcomp, hfst]
        rfl

end TouchHle.Font
