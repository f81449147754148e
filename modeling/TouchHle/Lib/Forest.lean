import TouchHle.Lib.Checked

/-! Forests given by the parent of every node, and breadth-first traversals of them. -/

namespace TouchHle.Lib.Forest

open List Option

variable {α β : Type} [DecidableEq α]

def roots (U : List α) (parent : α → Option α) : List α := U.filter fun c => parent c = none

def children (U : List α) (parent : α → Option α) (p : α) : List α :=
  U.filter fun c => parent c = some p

def fold (U : List α) (parent : α → Option α) (root : α → β) (child : α → β → β) :
    ℕ → α → Option β
  | 0, _ => none
  | n + 1, c =>
    if c ∈ U then
      match parent c with
      | none => some (root c)
      | some p => (fold U parent root child n p).map (child c)
    else none

variable {U V Q : List α} {parent : α → Option α} {root : α → β} {child : α → β → β} {n m : ℕ}
  {c p : α} {b : β}

lemma fold_root (hc : c ∈ U) (hp : parent c = none) :
    fold U parent root child (n + 1) c = some (root c) := by simp [fold, hc, hp]

lemma fold_child (hc : c ∈ U) (hp : parent c = some p) :
    fold U parent root child (n + 1) c = (fold U parent root child n p).map (child c) := by
  simp [fold, hc, hp]

lemma fold_eq_some (h : fold U parent root child (n + 1) c = some b) :
    c ∈ U ∧ (parent c = none ∧ b = root c ∨
      ∃ p b', parent c = some p ∧ fold U parent root child n p = some b' ∧ b = child c b') := by
  by_cases hc : c ∈ U
  · refine ⟨hc, ?_⟩
    cases hp : parent c with
    | none =>
      rw [fold_root hc hp] at h
      exact Or.inl ⟨rfl, (some.inj h).symm⟩
    | some p =>
      rw [fold_child hc hp] at h
      obtain ⟨b', hb', rfl⟩ := map_eq_some_iff.mp h
      exact Or.inr ⟨p, b', rfl, hb', rfl⟩
  · simp [fold, hc] at h

lemma mem_of_fold (h : fold U parent root child n c = some b) : c ∈ U := by
  cases n with
  | zero => cases h
  | succ n => exact (fold_eq_some h).1

lemma fold_succ (h : fold U parent root child n c = some b) :
    fold U parent root child (n + 1) c = some b := by
  induction n generalizing c b with
  | zero => cases h
  | succ n ih =>
    obtain ⟨hc, ⟨hp, rfl⟩ | ⟨p, b', hp, hb', rfl⟩⟩ := fold_eq_some h
    · exact fold_root hc hp
    · rw [fold_child hc hp, ih hb']
      rfl

lemma fold_mono (h : fold U parent root child n c = some b) (hnm : n ≤ m) :
    fold U parent root child m c = some b := by
  induction m, hnm using Nat.le_induction with
  | base => exact h
  | succ m _ ih => exact fold_succ ih

lemma fold_parent (h : fold U parent root child n c = some b) (hp : parent c = some p) :
    ∃ b', fold U parent root child n p = some b' ∧ b = child c b' := by
  cases n with
  | zero => cases h
  | succ n =>
    obtain ⟨-, ⟨hroot, -⟩ | ⟨q, b', hq, hb', rfl⟩⟩ := fold_eq_some h
    · cases hroot.symm.trans hp
    · obtain rfl := some.inj (hq.symm.trans hp)
      exact ⟨b', fold_succ hb', rfl⟩

structure Frontier (U : List α) (parent : α → Option α) (V Q : List α) : Prop where
  nodup : (V ++ Q).Nodup
  within : ∀ c ∈ V ++ Q, c ∈ U
  roots : ∀ c ∈ U, parent c = none → c ∈ V ++ Q
  closed : ∀ p ∈ V, ∀ c ∈ U, parent c = some p → c ∈ V ++ Q
  parents : ∀ c ∈ V ++ Q, ∀ p, parent c = some p → p ∈ V
  depth : ∀ c ∈ V ++ Q, (fold U parent (fun _ => ()) (fun _ _ => ()) (V.length + 1) c).isSome
  settled : ∀ c ∈ V, (fold U parent (fun _ => ()) (fun _ _ => ()) V.length c).isSome

lemma frontier_roots (hU : U.Nodup) : Frontier U parent [] (roots U parent) where
  nodup := hU.sublist filter_sublist
  within _ hc := (mem_filter.mp hc).1
  roots c hc hp := mem_filter.mpr ⟨hc, by simpa using hp⟩
  closed _ hp := by cases hp
  parents c hc p hp := by
    have hroot := (mem_filter.mp hc).2
    simp [hp] at hroot
  depth c hc := by
    obtain ⟨hc, hroot⟩ := mem_filter.mp hc
    have hroot : parent c = none := by simpa using hroot
    rw [length_nil, fold_root hc hroot]
    rfl
  settled _ hc := by cases hc

lemma Frontier.visit (h : Frontier U parent V (c :: Q)) (hU : U.Nodup) :
    Frontier U parent (V ++ [c]) (Q ++ children U parent c) := by
  have happ : V ++ [c] ++ (Q ++ children U parent c) = V ++ c :: Q ++ children U parent c := by simp
  have hnew : ∀ d ∈ children U parent c, d ∉ V ++ c :: Q := by
    intro d hd hmem
    have hp : parent d = some c := by simpa using (mem_filter.mp hd).2
    have hvisited := h.parents d hmem c hp
    exact (nodup_middle.mp h.nodup).notMem (mem_append_left Q hvisited)
  refine ⟨?_, ?_, ?_, ?_, ?_, ?_, ?_⟩
  · rw [happ]
    exact h.nodup.append (hU.sublist filter_sublist) fun d hd hd' => hnew d hd' hd
  · rw [happ]
    intro d hd
    obtain hd | hd := mem_append.mp hd
    · exact h.within d hd
    · exact (mem_filter.mp hd).1
  · rw [happ]
    intro d hd hp
    exact mem_append_left _ (h.roots d hd hp)
  · rw [happ]
    intro p hp d hd hparent
    obtain hp | hp := mem_append.mp hp
    · exact mem_append_left _ (h.closed p hp d hd hparent)
    · obtain rfl := mem_singleton.mp hp
      exact mem_append_right _ (mem_filter.mpr ⟨hd, by simpa using hparent⟩)
  · rw [happ]
    intro d hd p hp
    obtain hd | hd := mem_append.mp hd
    · exact mem_append_left _ (h.parents d hd p hp)
    · have hparent : parent d = some c := by simpa using (mem_filter.mp hd).2
      obtain rfl := some.inj (hparent.symm.trans hp)
      exact mem_append_right _ (mem_singleton_self _)
  · rw [happ]
    intro d hd
    have hlen : (V ++ [c]).length + 1 = V.length + 1 + 1 := by simp
    rw [hlen]
    obtain hd | hd := mem_append.mp hd
    · obtain ⟨u, hu⟩ := isSome_iff_exists.mp (h.depth d hd)
      rw [fold_succ hu]
      rfl
    · obtain ⟨hd, hparent⟩ := mem_filter.mp hd
      have hparent : parent d = some c := by simpa using hparent
      obtain ⟨u, hu⟩ := isSome_iff_exists.mp
        (h.depth c (mem_append_right V mem_cons_self))
      rw [fold_child hd hparent, hu]
      rfl
  · intro d hd
    rw [length_append, length_singleton]
    obtain hd | hd := mem_append.mp hd
    · exact h.depth d (mem_append_left _ hd)
    · obtain rfl := mem_singleton.mp hd
      exact h.depth d (mem_append_right V mem_cons_self)

lemma Frontier.length_le (h : Frontier U parent V Q) : V.length + Q.length ≤ U.length := by
  rw [← length_append]
  exact (h.nodup.subperm fun c hc => h.within c hc).length_le

lemma fold_isSome (root : α → β) (child : α → β → β)
    (h : (fold U parent (fun _ => ()) (fun _ _ => ()) n c).isSome) :
    (fold U parent root child n c).isSome := by
  induction n generalizing c with
  | zero => cases h
  | succ n ih =>
    obtain ⟨u, hu⟩ := isSome_iff_exists.mp h
    obtain ⟨hc, ⟨hp, -⟩ | ⟨p, b', hp, hb', -⟩⟩ := fold_eq_some hu
    · rw [fold_root hc hp]
      rfl
    · rw [fold_child hc hp, isSome_map]
      exact ih (isSome_iff_exists.mpr ⟨b', hb'⟩)

lemma Frontier.exists_fold (h : Frontier U parent V (c :: Q)) (root : α → β)
    (child : α → β → β) :
    ∃ b, fold U parent root child U.length c = some b := by
  have hle := h.length_le
  rw [length_cons] at hle
  obtain ⟨b, hb⟩ := isSome_iff_exists.mp (fold_isSome root child
    (h.depth c (mem_append_right V mem_cons_self)))
  exact ⟨b, fold_mono hb (by omega)⟩

lemma Frontier.mem_of_fold (h : Frontier U parent V [])
    (hb : fold U parent root child n c = some b) : c ∈ V := by
  induction n generalizing c b with
  | zero => cases hb
  | succ n ih =>
    obtain ⟨hc, ⟨hp, -⟩ | ⟨p, b', hp, hb', -⟩⟩ := fold_eq_some hb
    · simpa using h.roots c hc hp
    · simpa using h.closed p (ih hb') c hc hp

lemma fold_congr {U' : List α} (hU : ∀ c, c ∈ U ↔ c ∈ U') (n : ℕ) (c : α) :
    fold U parent root child n c = fold U' parent root child n c := by
  induction n generalizing c with
  | zero => rfl
  | succ n ih => simp only [fold, hU, ih]

section

variable {σ : Type} {s s' : σ}

def traverse (visit : σ → α → Checked σ) (next : α → List α) : ℕ → σ → List α → Checked σ
  | _, s, [] => .ok s
  | 0, _, _ :: _ => .error .assertion
  | n + 1, s, c :: Q => do
    let s ← visit s c
    traverse visit next n s (Q ++ next c)

theorem traverse_cases (visit : σ → α → Checked σ) {I : List α → σ → Prop} (hU : U.Nodup)
    (hvisit : ∀ V c Q s s', Frontier U parent V (c :: Q) → I V s → visit s c = .ok s' →
      I (V ++ [c]) s')
    (hn : U.length ≤ V.length + n) (hF : Frontier U parent V Q) (hI : I V s) :
    (∃ s' V', traverse visit (children U parent) n s Q = .ok s' ∧ Frontier U parent V' [] ∧
      I V' s') ∨
    ∃ V' c Q' s' e, Frontier U parent V' (c :: Q') ∧ I V' s' ∧ visit s' c = .error e ∧
      traverse visit (children U parent) n s Q = .error e := by
  induction n generalizing V Q s with
  | zero =>
    cases Q with
    | nil => exact Or.inl ⟨s, V, rfl, hF, hI⟩
    | cons c Q =>
      have hle := hF.length_le
      rw [length_cons] at hle
      omega
  | succ n ih =>
    cases Q with
    | nil => exact Or.inl ⟨s, V, rfl, hF, hI⟩
    | cons c Q =>
      cases hs : visit s c with
      | error e => exact Or.inr ⟨V, c, Q, s, e, hF, hI, hs, by rw [traverse, hs, error_bind]⟩
      | ok s' =>
        rw [traverse, hs, ok_bind]
        apply ih _ (hF.visit hU) (hvisit V c Q s s' hF hI hs)
        rw [length_append, length_singleton]
        omega

theorem fold_length (hU : U.Nodup) (hb : fold U parent root child n c = some b) :
    fold U parent root child U.length c = some b := by
  obtain ⟨_, V, -, hF, -⟩ | ⟨_, _, _, _, _, -, -, hvisit, -⟩ :=
    traverse_cases (fun (_ : Unit) _ => .ok ()) (I := fun _ _ => True) hU
      (fun _ _ _ _ _ _ _ _ => trivial) (Nat.le_add_left _ _)
      (frontier_roots hU : Frontier U parent [] _) (s := ()) trivial
  · have hlen : V.length ≤ U.length := by simpa using hF.length_le
    obtain ⟨b', hb'⟩ := isSome_iff_exists.mp
      (fold_isSome root child (hF.settled c (hF.mem_of_fold hb)))
    have hb' := fold_mono hb' hlen
    obtain hn | hn := le_total n U.length
    · exact fold_mono hb hn
    · rw [hb', ← fold_mono hb' hn, hb]
  · cases hvisit

end

end TouchHle.Lib.Forest
