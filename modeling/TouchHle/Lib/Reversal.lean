import Mathlib

/-! Reversing the marked runs of a list. -/

namespace TouchHle.Lib

open List Option

variable {α β : Type}

def reverseMarked (run : List α) : List Bool → List α → List α
  | true :: marks, a :: l => reverseMarked (a :: run) marks l
  | false :: marks, a :: l => run ++ a :: reverseMarked [] marks l
  | _, _ => run

variable {run l l' : List α} {marks : List Bool} {a x y : α} {i j : ℕ}

@[simp] lemma reverseMarked_nil : reverseMarked run marks [] = run := by
  cases marks with
  | nil => rfl
  | cons m marks => cases m <;> rfl

@[simp] lemma reverseMarked_true :
    reverseMarked run (true :: marks) (a :: l) = reverseMarked (a :: run) marks l := rfl

@[simp] lemma reverseMarked_false :
    reverseMarked run (false :: marks) (a :: l) = run ++ a :: reverseMarked [] marks l := rfl

theorem reverseMarked_perm (run : List α) (h : marks.length = l.length) :
    (reverseMarked run marks l).Perm (run ++ l) := by
  induction l generalizing run marks with
  | nil => simp
  | cons a l ih =>
    cases marks with
    | nil => cases h
    | cons m marks =>
      have hlen : marks.length = l.length := Nat.succ_injective h
      cases m with
      | true => exact (ih (a :: run) hlen).trans perm_middle.symm
      | false => simpa using (List.Perm.cons a (by simpa using ih [] hlen)).append_left run

lemma length_reverseMarked (h : marks.length = l.length) :
    (reverseMarked [] marks l).length = l.length := by
  simpa using (reverseMarked_perm [] h).length_eq

lemma run_sublist (run l : List α) (h : marks.length = l.length) :
    run.Sublist (reverseMarked run marks l) := by
  induction l generalizing run marks with
  | nil => simp
  | cons a l ih =>
    cases marks with
    | nil => cases h
    | cons m marks =>
      have hlen : marks.length = l.length := Nat.succ_injective h
      cases m with
      | true => exact (sublist_cons_self a run).trans (ih (a :: run) hlen)
      | false => exact sublist_append_left _ _

lemma map_reverseMarked (f : α → β) (run : List α) (marks : List Bool) (l : List α) :
    (reverseMarked run marks l).map f = reverseMarked (run.map f) marks (l.map f) := by
  induction l generalizing run marks with
  | nil => simp
  | cons a l ih =>
    cases marks with
    | nil => rfl
    | cons m marks =>
      cases m with
      | true => exact ih (a :: run) marks
      | false => simpa using ih [] marks

def Before (l : List α) (x y : α) : Prop := [x, y].Sublist l

lemma Before.of_mem_append (hx : x ∈ l) (hy : y ∈ l') : Before (l ++ l') x y :=
  (singleton_sublist.mpr hx).append (singleton_sublist.mpr hy)

lemma Before.reverse (h : Before l x y) : Before l.reverse y x := by
  simpa [Before] using List.Sublist.reverse h

lemma Before.asymm (hl : l.Nodup) (h : Before l x y) : ¬ Before l y x := by
  intro h'
  induction l with
  | nil => cases h
  | cons a l ih =>
    rw [nodup_cons] at hl
    cases h with
    | cons _ h =>
      cases h' with
      | cons _ h' => exact ih hl.2 h h'
      | cons_cons _ h' => exact hl.1 (h.subset (by simp))
    | cons_cons _ h =>
      cases h' with
      | cons _ h' => exact hl.1 (h'.subset (by simp))
      | cons_cons _ h' => exact hl.1 (h.subset (by simp))

lemma mem_reverseMarked (h : marks.length = l.length) (hx : x ∈ l) :
    x ∈ reverseMarked run marks l :=
  (reverseMarked_perm run h).mem_iff.mpr (mem_append_right _ hx)

lemma before_of_mem_run (run : List α) (h : marks.length = l.length) (hx : x ∈ run) (hj : l[j]? = some y) :
    ((∀ k ≤ j, marks[k]? = some true) → Before (reverseMarked run marks l) y x) ∧
    ((∃ k ≤ j, marks[k]? = some false) → Before (reverseMarked run marks l) x y) := by
  induction l generalizing run marks j with
  | nil => cases hj
  | cons a l ih =>
    cases marks with
    | nil => cases h
    | cons m marks =>
      have hlen : marks.length = l.length := Nat.succ_injective h
      cases m with
      | false =>
        constructor
        · intro hall
          cases hall 0 (Nat.zero_le _)
        · intro
          rw [reverseMarked_false]
          apply Before.of_mem_append hx
          cases j with
          | zero =>
            obtain rfl := some_inj.mp hj
            exact mem_cons_self
          | succ j => exact mem_cons_of_mem _ (mem_reverseMarked hlen (mem_of_getElem? hj))
      | true =>
        rw [reverseMarked_true]
        cases j with
        | zero =>
          obtain rfl := some_inj.mp hj
          constructor
          · intro
            exact (Sublist.cons_cons a (singleton_sublist.mpr hx)).trans
              (run_sublist (a :: run) l hlen)
          · rintro ⟨k, hk, hfalse⟩
            obtain rfl := Nat.le_zero.mp hk
            cases hfalse
        | succ j =>
          obtain ⟨hall, hsome⟩ := ih (a :: run) hlen (mem_cons_of_mem _ hx) hj
          constructor
          · exact fun htrue => hall fun k hk => htrue (k + 1) (Nat.succ_le_succ hk)
          · rintro ⟨k, hk, hfalse⟩
            cases k with
            | zero => cases hfalse
            | succ k => exact hsome ⟨k, Nat.le_of_succ_le_succ hk, hfalse⟩

theorem before_reverseMarked (run : List α) (h : marks.length = l.length) (hij : i < j) (hi : l[i]? = some x)
    (hj : l[j]? = some y) :
    ((∀ k, i ≤ k → k ≤ j → marks[k]? = some true) → Before (reverseMarked run marks l) y x) ∧
    ((∃ k, i ≤ k ∧ k ≤ j ∧ marks[k]? = some false) → Before (reverseMarked run marks l) x y) := by
  induction l generalizing run marks i j with
  | nil => cases hi
  | cons a l ih =>
    cases marks with
    | nil => cases h
    | cons m marks =>
      have hlen : marks.length = l.length := Nat.succ_injective h
      cases j with
      | zero => cases hij
      | succ j =>
        cases i with
        | zero =>
          obtain rfl := some_inj.mp hi
          cases m with
          | false =>
            constructor
            · intro hall
              cases hall 0 le_rfl (Nat.zero_le _)
            · intro
              rw [reverseMarked_false]
              refine List.Sublist.trans ?_ (sublist_append_right _ _)
              exact Sublist.cons_cons a (singleton_sublist.mpr
                (mem_reverseMarked hlen (mem_of_getElem? hj)))
          | true =>
            obtain ⟨hall, hsome⟩ := before_of_mem_run (a :: run) hlen mem_cons_self
              (show l[j]? = some y from hj)
            constructor
            · exact fun htrue => hall fun k hk => htrue (k + 1) (Nat.zero_le _) (Nat.succ_le_succ hk)
            · rintro ⟨k, -, hk, hfalse⟩
              cases k with
              | zero => cases hfalse
              | succ k => exact hsome ⟨k, Nat.le_of_succ_le_succ hk, hfalse⟩
        | succ i =>
          have hij : i < j := Nat.lt_of_succ_lt_succ hij
          cases m with
          | false =>
            obtain ⟨hall, hsome⟩ := ih [] hlen hij hi hj
            rw [reverseMarked_false]
            have hsub : (reverseMarked [] marks l).Sublist (run ++ a :: reverseMarked [] marks l) :=
              (sublist_cons_self _ _).trans (sublist_append_right _ _)
            constructor
            · exact fun htrue => (hall fun k hik hkj =>
                htrue (k + 1) (Nat.succ_le_succ hik) (Nat.succ_le_succ hkj)).trans hsub
            · rintro ⟨k, hik, hkj, hfalse⟩
              cases k with
              | zero => cases hik
              | succ k => exact (hsome ⟨k, Nat.le_of_succ_le_succ hik, Nat.le_of_succ_le_succ hkj,
                  hfalse⟩).trans hsub
          | true =>
            obtain ⟨hall, hsome⟩ := ih (a :: run) hlen hij hi hj
            constructor
            · exact fun htrue => hall fun k hik hkj =>
                htrue (k + 1) (Nat.succ_le_succ hik) (Nat.succ_le_succ hkj)
            · rintro ⟨k, hik, hkj, hfalse⟩
              cases k with
              | zero => cases hik
              | succ k => exact hsome ⟨k, Nat.le_of_succ_le_succ hik, Nat.le_of_succ_le_succ hkj, hfalse⟩

lemma reverseMarked_trues (n : ℕ) (h : l.length = n) :
    reverseMarked run (List.replicate n true) l = l.reverse ++ run := by
  induction l generalizing run n with
  | nil => simp
  | cons a l ih =>
    obtain rfl := h
    rw [length_cons, replicate_succ, reverseMarked_true, ih _ rfl]
    simp

lemma reverseMarked_trues_false (n : ℕ) (h : l.length = n) :
    reverseMarked run (List.replicate n true ++ false :: marks) (l ++ a :: l') =
      l.reverse ++ run ++ a :: reverseMarked [] marks l' := by
  induction l generalizing run n with
  | nil =>
    obtain rfl := h
    simp
  | cons b l ih =>
    obtain rfl := h
    rw [length_cons, replicate_succ, cons_append, cons_append,
      reverseMarked_true, ih _ rfl]
    simp

lemma marks_cases (marks : List Bool) : marks = List.replicate marks.length true ∨
    ∃ n marks', marks = List.replicate n true ++ false :: marks' := by
  induction marks with
  | nil => exact .inl rfl
  | cons m marks ih =>
    cases m with
    | false => exact .inr ⟨0, marks, rfl⟩
    | true =>
      obtain h | ⟨n, marks', h⟩ := ih
      · left
        rw [length_cons, replicate_succ, ← h]
      · right
        exact ⟨n + 1, marks', by rw [h]; rfl⟩

theorem reverseMarked_twice (h : marks.length = l.length) :
    reverseMarked [] marks (reverseMarked [] marks l) = l := by
  induction hn : l.length using Nat.strong_induction_on generalizing l marks with
  | _ n ih =>
    obtain hall | ⟨t, marks', hmarks⟩ := marks_cases marks
    · rw [hall, reverseMarked_trues _ h.symm, append_nil,
        reverseMarked_trues _ (by simpa using h.symm)]
      simp
    · subst hmarks
      have hlen : t < l.length := by
        rw [← h]
        simp
      obtain ⟨l₁, b, l₂, rfl, hl₁⟩ : ∃ l₁ b l₂, l = l₁ ++ b :: l₂ ∧ l₁.length = t :=
        ⟨l.take t, l[t], l.drop (t + 1), by simp, by simp [hlen.le]⟩
      have hl₂ : marks'.length = l₂.length := by
        simp [hl₁] at h
        exact h
      rw [reverseMarked_trues_false t hl₁, append_nil,
        reverseMarked_trues_false t (by simpa using hl₁), append_nil, reverse_reverse,
        ih l₂.length (by rw [← hn, length_append, length_cons]; omega) hl₂ rfl]

lemma reverseMarked_const (h : ∀ (k : ℕ) (a : α), l[k]? = some a → marks[k]? = some true → a = x)
    (hrun : ∀ a ∈ run, a = x) (hlen : marks.length = l.length) :
    reverseMarked run marks l = run ++ l := by
  induction l generalizing run marks with
  | nil => simp
  | cons a l ih =>
    cases marks with
    | nil => cases hlen
    | cons m marks =>
      have hlen' : marks.length = l.length := Nat.succ_injective hlen
      have h' := fun k b hk hm => h (k + 1) b hk hm
      cases m with
      | true =>
        have ha : a = x := h 0 a rfl rfl
        rw [reverseMarked_true, ih h' (by simpa [ha] using hrun) hlen', ha,
          eq_replicate_of_mem hrun]
        rw [← replicate_succ, replicate_succ', append_assoc]
        rfl
      | false =>
        rw [reverseMarked_false, ih h' (by simp) hlen']
        rfl

lemma reverseMarked_falses (h : ∀ m ∈ marks, m = false) (hlen : marks.length = l.length) :
    reverseMarked [] marks l = l := by
  induction l generalizing marks with
  | nil => simp
  | cons a l ih =>
    cases marks with
    | nil => cases hlen
    | cons m marks =>
      obtain rfl := h m mem_cons_self
      rw [reverseMarked_false, ih (fun m hm => h m (mem_cons_of_mem _ hm))
        (Nat.succ_injective hlen)]
      rfl

end TouchHle.Lib
