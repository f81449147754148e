import TouchHle.Lib.Checked

/-! Growable arrays: removal by swapping with the last element, and searches from the end. -/

namespace TouchHle.Lib.Vec

open List

variable {α : Type}

def swapRemove (l : List α) (i : ℕ) : Checked (α × List α) :=
  match l[i]? with
  | none => .error .index
  | some a => .ok (a, (l.set i (l.getLast?.getD a)).dropLast)

def rposition (p : α → Bool) (l : List α) : Option ℕ :=
  (l.zipIdx.reverse.find? fun e => p e.1).map Prod.snd

def swapRemoveIf (p : α → Bool) : ℕ → ℕ → List α → List α → Checked (List α × List α)
  | 0, _, l, removed => return (l, removed)
  | rounds + 1, i, l, removed =>
    match l[i]? with
    | none => return (l, removed)
    | some a =>
      if p a then do
        let r ← swapRemove l i
        swapRemoveIf p rounds i r.2 (removed ++ [r.1])
      else swapRemoveIf p rounds (i + 1) l removed

lemma swap_last_perm (pre post : List α) (a : α) :
    (a :: ((pre ++ a :: post).set pre.length ((pre ++ a :: post).getLast?.getD a)).dropLast).Perm
      (pre ++ a :: post) := by
  rcases post.eq_nil_or_concat with rfl | ⟨mid, z, rfl⟩
  · simpa using (perm_append_singleton a pre).symm
  · have hl : pre ++ a :: mid.concat z = (pre ++ a :: mid) ++ [z] := by simp
    have hset : ((pre ++ a :: mid) ++ [z]).set pre.length z = (pre ++ z :: mid) ++ [z] := by simp
    rw [hl, getLast?_concat, Option.getD_some, hset, dropLast_concat]
    have hz : (z :: mid).Perm (mid ++ [z]) := (perm_append_singleton z mid).symm
    have hp : (a :: (pre ++ z :: mid)).Perm (pre ++ a :: (mid ++ [z])) :=
      (List.Perm.cons a (hz.append_left pre)).trans perm_middle.symm
    simpa using hp

lemma swapRemove_perm {l rest : List α} {i : ℕ} {a : α} (h : swapRemove l i = .ok (a, rest)) :
    (a :: rest).Perm l := by
  unfold swapRemove at h
  split at h
  · simp at h
  · rename_i b hb
    obtain ⟨rfl, rfl⟩ : b = a ∧ _ = rest := by simpa using h
    obtain ⟨hi, rfl⟩ := List.getElem?_eq_some_iff.mp hb
    have hl : l.take i ++ l[i] :: l.drop (i + 1) = l := by simp
    have hp := swap_last_perm (l.take i) (l.drop (i + 1)) l[i]
    rwa [hl, length_take_of_le hi.le] at hp

lemma swapRemove_of_getElem {l : List α} {i : ℕ} {a : α} (h : l[i]? = some a) :
    ∃ rest, swapRemove l i = .ok (a, rest) := by
  simp [swapRemove, h]

lemma swapRemove_cases {l : List α} {i : ℕ} {a : α} (h : l[i]? = some a) :
    ∃ rest, swapRemove l i = .ok (a, rest) ∧ (a :: rest).Perm l ∧ rest.take i = l.take i := by
  obtain ⟨rest, hrest⟩ := swapRemove_of_getElem h
  refine ⟨rest, hrest, swapRemove_perm hrest, ?_⟩
  obtain ⟨hi, -⟩ := List.getElem?_eq_some_iff.mp h
  rw [swapRemove, h] at hrest
  obtain rfl : _ = rest := (ok_pair_inj hrest).2
  rw [dropLast_eq_take, take_take, length_set, min_eq_left (by omega),
    take_set_of_le le_rfl]

lemma swapRemoveIf_ok (p : α → Bool) : ∀ rounds i l removed,
    l.length ≤ i + rounds → (∀ a ∈ l.take i, p a = false) →
    ∃ left gone, swapRemoveIf p rounds i l removed = .ok (left, removed ++ gone) ∧
      (gone ++ left).Perm l ∧ (∀ a ∈ gone, p a) ∧ ∀ a ∈ left, p a = false := by
  intro rounds
  induction rounds with
  | zero =>
    intro i l removed hlength hkept
    rw [take_of_length_le (by omega)] at hkept
    exact ⟨l, [], by rw [append_nil]; rfl, .rfl, by simp, hkept⟩
  | succ rounds ih =>
    intro i l removed hlength hkept
    rw [swapRemoveIf]
    cases hget : l[i]? with
    | none =>
      rw [take_of_length_le (List.getElem?_eq_none_iff.mp hget)] at hkept
      exact ⟨l, [], by rw [append_nil]; rfl, .rfl, by simp, hkept⟩
    | some a =>
      dsimp only
      split_ifs with ha
      · obtain ⟨rest, hrest, hperm, htake⟩ := swapRemove_cases hget
        have hcount := hperm.length_eq
        rw [length_cons] at hcount
        obtain ⟨left, gone, hloop, hall, hgone, hleft⟩ :=
          ih i rest (removed ++ [a]) (by omega) (htake ▸ hkept)
        refine ⟨left, a :: gone, ?_, (hall.cons a).trans hperm, ?_, hleft⟩
        · rw [hrest, ok_bind, hloop, append_assoc, singleton_append]
        · exact forall_mem_cons.mpr ⟨ha, hgone⟩
      · apply ih (i + 1) l removed (by omega)
        rw [take_add_one, hget]
        intro a' ha'
        rcases mem_append.mp ha' with ha' | ha'
        · exact hkept a' ha'
        · obtain rfl : a' = a := by simpa using ha'
          simpa using ha

lemma mem_zipIdx_reverse {l : List α} {e : α × ℕ} :
    e ∈ l.zipIdx.reverse ↔ l[e.2]? = some e.1 := by
  rw [mem_reverse, mem_zipIdx_iff_getElem?]

lemma rposition_some {p : α → Bool} {l : List α} {i : ℕ} (h : rposition p l = some i) :
    ∃ a, l[i]? = some a ∧ p a = true := by
  obtain ⟨e, he, rfl⟩ := Option.map_eq_some_iff.mp h
  exact ⟨e.1, mem_zipIdx_reverse.mp (mem_of_find?_eq_some he), by simpa using find?_some he⟩

lemma exists_rposition {p : α → Bool} {l : List α} {a : α} (ha : a ∈ l) (hp : p a = true) :
    ∃ i, rposition p l = some i := by
  obtain ⟨i, hi⟩ := mem_iff_getElem?.mp ha
  have hf : (l.zipIdx.reverse.find? fun e => p e.1).isSome := by
    rw [find?_isSome]
    exact ⟨(a, i), mem_zipIdx_reverse.mpr hi, hp⟩
  obtain ⟨e, he⟩ := Option.isSome_iff_exists.mp hf
  exact ⟨e.2, by simp [rposition, he]⟩

lemma rposition_append_singleton (p : α → Bool) (l : List α) (a : α) :
    rposition p (l ++ [a]) = if p a then some l.length else rposition p l := by
  rw [rposition, zipIdx_append, reverse_append]
  by_cases ha : p a <;> simp [rposition, ha]

lemma rposition_last {p : α → Bool} {l : List α} {i j : ℕ} {b : α} (h : rposition p l = some i)
    (hb : l[j]? = some b) (hp : p b = true) : j ≤ i := by
  induction l using List.reverseRecOn with
  | nil => simp at hb
  | append_singleton l a ih =>
    have hj := (List.getElem?_eq_some_iff.mp hb).1
    rw [length_append, length_singleton] at hj
    rw [rposition_append_singleton] at h
    split at h
    · obtain rfl := Option.some.inj h
      omega
    · rename_i ha
      apply ih h
      by_cases hl : j < l.length
      · rwa [getElem?_append_left hl] at hb
      · obtain rfl : j = l.length := by omega
        obtain rfl : a = b := by simpa using hb
        exact absurd hp ha

variable {α : Type} {l : List α} {i j : ℕ} {a : α}

def insert (l : List α) (i : ℕ) (a : α) : Checked (List α) :=
  if i ≤ l.length then .ok (l.insertIdx i a) else .error .index

def remove (l : List α) (i : ℕ) : Checked (α × List α) :=
  (l[i]?).elim (.error .index) fun a => .ok (a, l.eraseIdx i)

def replace (l : List α) (i : ℕ) (a : α) : Checked (α × List α) :=
  (l[i]?).elim (.error .index) fun old => .ok (old, l.set i a)

def swap (l : List α) (i j : ℕ) : Checked (List α) :=
  (l[i]?).elim (.error .index) fun a => (l[j]?).elim (.error .index) fun b =>
    .ok ((l.set i b).set j a)

lemma insert_ok (h : i ≤ l.length) : insert l i a = .ok (l.insertIdx i a) := if_pos h

lemma remove_ok (h : i < l.length) : remove l i = .ok (l[i], l.eraseIdx i) := by
  rw [remove, getElem?_eq_getElem h]
  rfl

lemma replace_ok (h : i < l.length) : replace l i a = .ok (l[i], l.set i a) := by
  rw [replace, getElem?_eq_getElem h]
  rfl

lemma swap_ok (hi : i < l.length) (hj : j < l.length) :
    swap l i j = .ok ((l.set i l[j]).set j l[i]) := by
  rw [swap, getElem?_eq_getElem hi, getElem?_eq_getElem hj]
  rfl

lemma set_perm (h : i < l.length) : (l.set i a).Perm (a :: l.eraseIdx i) := by
  have hlen : i < (l.set i a).length := by rw [length_set]; exact h
  have hperm := getElem_cons_eraseIdx_perm hlen
  rw [getElem_set_self, eraseIdx_set_eq] at hperm
  exact hperm.symm

end TouchHle.Lib.Vec

namespace TouchHle.Lib

open List

variable {α : Type} {l c : List α} {n : ℕ}

def chunks (n : ℕ) (l : List α) : List (List α) :=
  (List.range ((l.length + n - 1) / n)).map fun i => (l.drop (i * n)).take n

lemma length_chunks (n : ℕ) (l : List α) : (chunks n l).length = (l.length + n - 1) / n := by
  simp [chunks]

lemma lt_chunks_iff (hn : 0 < n) {i : ℕ} : i < (l.length + n - 1) / n ↔ i * n < l.length := by
  rw [Nat.lt_iff_add_one_le, Nat.le_div_iff_mul_le hn, add_mul]
  omega

lemma mem_chunks (hn : 0 < n) : c ∈ chunks n l ↔
    ∃ i, i * n < l.length ∧ (l.drop (i * n)).take n = c := by
  simp only [chunks, mem_map, List.mem_range, lt_chunks_iff hn]

lemma length_of_mem_chunks (hn : 0 < n) (h : c ∈ chunks n l) :
    c.length = n ∨ (c.length = l.length % n ∧ 0 < l.length % n) := by
  obtain ⟨i, hi, rfl⟩ := (mem_chunks hn).mp h
  rw [length_take, length_drop]
  by_cases hfull : i * n + n ≤ l.length
  · exact .inl (by omega)
  · have hmod : l.length % n = l.length - i * n := by
      have hdiv : l.length / n = i := by
        refine Nat.div_eq_of_lt_le (by omega) ?_
        rw [add_mul]
        omega
      have hsum := Nat.div_add_mod l.length n
      rw [hdiv, mul_comm] at hsum
      omega
    exact .inr (by omega)

lemma exists_full_chunk (hn : 0 < n) (h : n ≤ l.length) : ∃ c ∈ chunks n l, c.length = n :=
  ⟨_, (mem_chunks hn).mpr ⟨0, by omega, rfl⟩, by rw [length_take, length_drop]; omega⟩

lemma exists_last_chunk (hn : 0 < n) (h : 0 < l.length % n) :
    ∃ c ∈ chunks n l, c.length = l.length % n := by
  have hsum := Nat.div_add_mod l.length n
  rw [mul_comm] at hsum
  have hlt := Nat.mod_lt l.length hn
  refine ⟨_, (mem_chunks hn).mpr ⟨l.length / n, by omega, rfl⟩, ?_⟩
  rw [length_take, length_drop]
  omega

lemma length_of_dvd (hn : 0 < n) (hdvd : n ∣ l.length) (h : c ∈ chunks n l) : c.length = n := by
  obtain h | ⟨-, hpos⟩ := length_of_mem_chunks hn h
  · exact h
  · rw [Nat.mod_eq_zero_of_dvd hdvd] at hpos
    omega

lemma length_chunks_of_dvd (hn : 0 < n) (hdvd : n ∣ l.length) :
    (chunks n l).length = l.length / n := by
  obtain ⟨k, hk⟩ := hdvd
  rw [length_chunks, hk, Nat.mul_div_cancel_left k hn, Nat.add_sub_assoc hn,
    Nat.mul_add_div hn, Nat.div_eq_of_lt (by omega), add_zero]

end TouchHle.Lib
