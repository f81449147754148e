import Mathlib

/-! Kahn's algorithm: vertices are emitted once nothing they wait for is left. -/

namespace TouchHle.Lib.Kahn

open List

variable {α : Type} [DecidableEq α]

structure State (α : Type) where
  sorted : List α
  queue : List α
  degree : α → ℤ

def dependents (E : List (α × α)) (u : α) : List α :=
  (E.filter fun e => e.1 = u).map Prod.snd

def relax (t : List α × (α → ℤ)) (v : α) : List α × (α → ℤ) :=
  if t.2 v - 1 = 0 then (t.1 ++ [v], Function.update t.2 v (t.2 v - 1))
  else (t.1, Function.update t.2 v (t.2 v - 1))

def visit (E : List (α × α)) (s : State α) (u : α) (rest : List α) : State α where
  sorted := s.sorted ++ [u]
  queue := ((dependents E u).foldl relax (rest, s.degree)).1
  degree := ((dependents E u).foldl relax (rest, s.degree)).2

def loop (E : List (α × α)) : ℕ → State α → State α
  | 0, s => s
  | fuel + 1, s =>
    match s.queue with
    | [] => s
    | u :: rest => loop E fuel (visit E s u rest)

def initial (V : List α) (E : List (α × α)) : State α where
  sorted := []
  queue := V.filter fun v => (E.countP fun e => e.2 = v) = 0
  degree := fun v => E.countP fun e => e.2 = v

def sort (V : List α) (E : List (α × α)) : State α :=
  loop E V.length (initial V E)

structure Sound (V : List α) (E : List (α × α)) (s : State α) : Prop where
  nodup : (s.sorted ++ s.queue).Nodup
  degree : ∀ v, s.degree v = E.countP fun e => e.2 = v ∧ e.1 ∉ s.sorted
  ready : ∀ v, v ∈ s.sorted ++ s.queue ↔ v ∈ V ∧ s.degree v = 0
  closed : ∀ A v B, s.sorted = A ++ v :: B → ∀ e ∈ E, e.2 = v → e.1 ∈ A

variable {V : List α} {E : List (α × α)} {s : State α} {u v : α} {rest : List α}

lemma relax_eq (q : List α) (d : α → ℤ) (w : α) :
    relax (q, d) w = (if d w - 1 = 0 then q ++ [w] else q, Function.update d w (d w - 1)) := by
  by_cases hw : d w - 1 = 0 <;> simp only [relax, hw, if_true, if_false]

lemma foldl_relax (D : List α) (q : List α) (d : α → ℤ) :
    ∃ N : List α, (D.foldl relax (q, d)).1 = q ++ N ∧ N.Nodup ∧
      (∀ v, v ∈ N ↔ 0 < d v ∧ d v ≤ D.count v) ∧
      ∀ v, (D.foldl relax (q, d)).2 v = d v - D.count v := by
  induction D generalizing q d with
  | nil =>
    refine ⟨[], by simp, nodup_nil, fun v => ?_, by simp⟩
    simp only [not_mem_nil, count_nil, Nat.cast_zero, false_iff, not_and, not_le, imp_self]
  | cons w D ih =>
    obtain ⟨N, hq, hnd, hmem, hd⟩ :=
      ih (if d w - 1 = 0 then q ++ [w] else q) (Function.update d w (d w - 1))
    rw [← relax_eq] at hq hd
    have hcount : ∀ v, ((w :: D).count v : ℤ) = D.count v + if v = w then 1 else 0 := by
      intro v
      rw [count_cons]
      by_cases hv : v = w
      · simp [hv]
      · simp [hv, Ne.symm hv]
    have hupd : ∀ v, Function.update d w (d w - 1) v = d v - if v = w then 1 else 0 := by
      intro v
      by_cases hv : v = w
      · subst hv
        simp
      · simp [hv]
    have hdeg : ∀ v, ((w :: D).foldl relax (q, d)).2 v = d v - (w :: D).count v := by
      intro v
      rw [foldl_cons, hd v, hupd v, hcount v]
      omega
    by_cases hw : d w - 1 = 0
    · refine ⟨w :: N, ?_, ?_, fun v => ?_, hdeg⟩
      · rw [foldl_cons, hq, if_pos hw, append_assoc, singleton_append]
      · apply nodup_cons.mpr
        refine ⟨fun h => ?_, hnd⟩
        have := ((hmem w).mp h).1
        simp only [Function.update_self] at this
        omega
      · rw [mem_cons, hmem v, hupd v, hcount v]
        by_cases hv : v = w
        · subst hv
          simp only [if_true, true_or, true_iff]
          omega
        · simp [hv]
    · refine ⟨N, ?_, hnd, fun v => ?_, hdeg⟩
      · rw [foldl_cons, hq, if_neg hw]
      · rw [hmem v, hupd v, hcount v]
        by_cases hv : v = w
        · subst hv
          simp only [if_true]
          omega
        · simp [hv]

lemma count_dependents : (dependents E u).count v = E.countP fun e => e.1 = u ∧ e.2 = v := by
  rw [dependents, count_eq_countP, countP_map, countP_filter]
  apply countP_congr
  intro e _
  simp [and_comm]

lemma countP_open (hu : u ∉ s.sorted) :
    (E.countP fun e => e.2 = v ∧ e.1 ∉ s.sorted) =
      (E.countP fun e => e.2 = v ∧ e.1 ∉ s.sorted ++ [u]) + E.countP fun e => e.1 = u ∧ e.2 = v := by
  induction E with
  | nil => rfl
  | cons e E ih =>
    simp only [countP_cons, ih]
    by_cases hv : e.2 = v
    · by_cases he : e.1 = u
      · subst he
        simp [hv, hu]
        omega
      · by_cases hs : e.1 ∈ s.sorted
        · simp [he, hs]
        · simp [hv, he, hs]
          omega
    · simp [hv]

lemma Sound.visit (hE : ∀ e ∈ E, e.2 ∈ V) (h : Sound V E s) (hq : s.queue = u :: rest) :
    Sound V E (visit E s u rest) := by
  obtain ⟨N, hN, hnd, hmem, hdeg⟩ := foldl_relax (dependents E u) rest s.degree
  have hnodup := h.nodup
  rw [hq] at hnodup
  have hu : u ∉ s.sorted := fun hu =>
    (nodup_append.mp hnodup).2.2 u hu u mem_cons_self rfl
  have hsplit : ∀ v, s.degree v =
      (E.countP fun e => e.2 = v ∧ e.1 ∉ s.sorted ++ [u]) + (dependents E u).count v := by
    intro v
    rw [h.degree v, countP_open hu, count_dependents, Nat.cast_add]
  have hzero : s.degree u = 0 := ((h.ready u).mp (by simp [hq])).2
  have happ : (Kahn.visit E s u rest).sorted ++ (Kahn.visit E s u rest).queue =
      (s.sorted ++ s.queue) ++ N := by
    simp [Kahn.visit, hN, hq]
  have hfresh : ∀ v ∈ N, v ∈ V ∧ v ∉ s.sorted ++ s.queue := by
    intro v hv
    have hpos := (hmem v).mp hv
    constructor
    · have hin : v ∈ dependents E u := count_pos_iff.mp (by omega)
      obtain ⟨e, he, rfl⟩ := mem_map.mp hin
      exact hE e (mem_of_mem_filter he)
    · intro hold
      have := ((h.ready v).mp hold).2
      omega
  refine ⟨?_, fun v => ?_, fun v => ?_, ?_⟩
  · rw [happ]
    apply nodup_append.mpr
    refine ⟨h.nodup, hnd, ?_⟩
    rintro v hv w hw rfl
    exact (hfresh v hw).2 hv
  · change ((dependents E u).foldl relax (rest, s.degree)).2 v = _
    rw [hdeg v, hsplit v]
    change _ = ((E.countP fun e => e.2 = v ∧ e.1 ∉ s.sorted ++ [u] : ℕ) : ℤ)
    omega
  · rw [happ, mem_append, h.ready v]
    change _ ↔ v ∈ V ∧ ((dependents E u).foldl relax (rest, s.degree)).2 v = 0
    rw [hdeg v]
    have := hsplit v
    constructor
    · rintro (⟨hv, h0⟩ | hv)
      · exact ⟨hv, by omega⟩
      · exact ⟨(hfresh v hv).1, by have := (hmem v).mp hv; omega⟩
    · rintro ⟨hv, h0⟩
      by_cases hd : s.degree v = 0
      · exact .inl ⟨hv, hd⟩
      · exact .inr ((hmem v).mpr ⟨by omega, by omega⟩)
  · intro A v B hAB e he hev
    rcases B.eq_nil_or_concat with rfl | ⟨C, z, rfl⟩
    · -- the vertex just emitted: no edge into it is open
      obtain ⟨rfl, hv⟩ := append_inj' hAB rfl
      obtain rfl : u = v := by simpa using hv
      by_contra hout
      have hopen : 0 < E.countP fun e => e.2 = u ∧ e.1 ∉ s.sorted :=
        countP_pos_iff.mpr ⟨e, he, by simp [hev, hout]⟩
      rw [h.degree u] at hzero
      omega
    · have hAB' : s.sorted ++ [u] = (A ++ v :: C) ++ [z] := by
        simpa [Kahn.visit] using hAB
      obtain ⟨hs, -⟩ := append_inj' hAB' rfl
      exact h.closed A v C hs e he hev

lemma Sound.initial (hV : V.Nodup) : Sound V E (initial V E) := by
  refine ⟨?_, fun v => ?_, fun v => ?_, ?_⟩
  · exact hV.filter _
  · simp [Kahn.initial]
  · simp [Kahn.initial]
  · intro A v B hAB
    exact absurd hAB (by simp [Kahn.initial])

lemma Sound.loop (hE : ∀ e ∈ E, e.2 ∈ V) (h : Sound V E s) (fuel : ℕ) :
    Sound V E (loop E fuel s) := by
  induction fuel generalizing s with
  | zero => exact h
  | succ fuel ih =>
    rw [Kahn.loop]
    split
    · exact h
    · rename_i u rest hq
      exact ih (h.visit hE hq)

lemma sorted_length_loop (fuel : ℕ) :
    (loop E fuel s).queue = [] ∨ (loop E fuel s).sorted.length = s.sorted.length + fuel := by
  induction fuel generalizing s with
  | zero => exact .inr rfl
  | succ fuel ih =>
    rw [loop]
    split
    · rename_i hq
      exact .inl hq
    · rename_i u rest hq
      rcases ih (s := visit E s u rest) with h | h
      · exact .inl h
      · right
        rw [h]
        simp [visit]
        omega

lemma sound_sort (hV : V.Nodup) (hE : ∀ e ∈ E, e.2 ∈ V) : Sound V E (sort V E) :=
  (Sound.initial hV).loop hE V.length

lemma queue_sort (hV : V.Nodup) (hE : ∀ e ∈ E, e.2 ∈ V) : (sort V E).queue = [] := by
  have h := sound_sort hV hE
  have hsub : (sort V E).sorted ++ (sort V E).queue ⊆ V := fun v hv => ((h.ready v).mp hv).1
  have hlen := (h.nodup.subperm hsub).length_le
  rw [length_append] at hlen
  rcases sorted_length_loop (E := E) (s := Kahn.initial V E) V.length with hq | hs
  · exact hq
  · apply eq_nil_of_length_eq_zero
    have hs' : (sort V E).sorted.length = V.length := by
      rw [sort, hs]
      simp [Kahn.initial]
    omega

theorem sorted_perm (hV : V.Nodup) (hE : ∀ e ∈ E, e.2 ∈ V)
    (hdone : ∀ v ∈ V, ¬ 0 < (sort V E).degree v) : (sort V E).sorted.Perm V := by
  have h := sound_sort hV hE
  have hq := queue_sort hV hE
  have hnd := h.nodup
  rw [hq, append_nil] at hnd
  apply (perm_ext_iff_of_nodup hnd hV).mpr
  intro v
  have hr := h.ready v
  rw [hq, append_nil] at hr
  rw [hr]
  refine ⟨And.left, fun hv => ⟨hv, ?_⟩⟩
  have := hdone v hv
  have := h.degree v
  omega

theorem sorted_closed (hV : V.Nodup) (hE : ∀ e ∈ E, e.2 ∈ V) {e : α × α} (he : e ∈ E)
    (hin : e.2 ∈ (sort V E).sorted) :
    (sort V E).sorted.idxOf e.1 < (sort V E).sorted.idxOf e.2 := by
  have h := sound_sort hV hE
  obtain ⟨A, B, hAB⟩ := append_of_mem hin
  have hA := h.closed A e.2 B hAB e he rfl
  have hnd := h.nodup
  rw [queue_sort hV hE, append_nil, hAB] at hnd
  have hout : e.2 ∉ A := fun hA' => (nodup_append.mp hnd).2.2 _ hA' _ mem_cons_self rfl
  rw [hAB, idxOf_append_of_mem hA, idxOf_append_of_notMem hout, idxOf_cons_self,
    Nat.add_zero]
  exact idxOf_lt_length_of_mem hA

/-- Every vertex is emitted exactly if no vertex waits for itself. -/
theorem sorted_all_iff (hV : V.Nodup) (hE : ∀ e ∈ E, e.1 ∈ V ∧ e.2 ∈ V) :
    (∀ v ∈ V, ¬ 0 < (sort V E).degree v) ↔
      ∀ v, ¬ Relation.TransGen (fun u v => (u, v) ∈ E) v v := by
  have hheads : ∀ e ∈ E, e.2 ∈ V := fun e he => (hE e he).2
  constructor
  · intro hdone v hcycle
    have hperm := sorted_perm hV hheads hdone
    have hless : ∀ u w, Relation.TransGen (fun u v => (u, v) ∈ E) u w →
        (sort V E).sorted.idxOf u < (sort V E).sorted.idxOf w := by
      intro u w h
      have hedge : ∀ {a b}, (a, b) ∈ E →
          (sort V E).sorted.idxOf a < (sort V E).sorted.idxOf b := fun he =>
        sorted_closed hV hheads he (hperm.mem_iff.mpr (hheads _ he))
      induction h with
      | single he => exact hedge he
      | tail _ he ih => exact ih.trans (hedge he)
    exact lt_irrefl _ (hless v v hcycle)
  · intro hacyclic
    have h := sound_sort hV hheads
    have hq := queue_sort hV hheads
    by_contra hstuck
    push Not at hstuck
    obtain ⟨v, hv, hpos⟩ := hstuck
    -- an open vertex waits for another open one
    have hback : ∀ w : {w // w ∈ V}, 0 < (sort V E).degree w →
        ∃ u : {w // w ∈ V}, 0 < (sort V E).degree u ∧ (u.1, w.1) ∈ E := by
      rintro ⟨w, hw⟩ hpos
      rw [h.degree w] at hpos
      obtain ⟨e, he, hp⟩ := countP_pos_iff.mp (Int.natCast_pos.mp hpos)
      obtain ⟨rfl, hopen⟩ : e.2 = w ∧ e.1 ∉ (sort V E).sorted := by simpa using hp
      have hready := h.ready e.1
      rw [hq, append_nil] at hready
      refine ⟨⟨e.1, (hE e he).1⟩, ?_, he⟩
      have hne : (sort V E).degree e.1 ≠ 0 := fun h0 => hopen (hready.mpr ⟨(hE e he).1, h0⟩)
      have hdeg := h.degree e.1
      dsimp only
      omega
    let R : {w // w ∈ V} → {w // w ∈ V} → Prop := fun u w =>
      Relation.TransGen (fun u v => (u, v) ∈ E) u.1 w.1
    have htrans : IsTrans _ R := ⟨fun _ _ _ => Relation.TransGen.trans⟩
    have hirrefl : Std.Irrefl R := ⟨fun u => hacyclic u.1⟩
    have hwf : WellFounded R := Finite.wellFounded_of_trans_of_irrefl R
    obtain ⟨m, hm, hmin⟩ := hwf.has_min {w | 0 < (sort V E).degree w.1} ⟨⟨v, hv⟩, hpos⟩
    obtain ⟨u, hu, he⟩ := hback m hm
    exact hmin u hu (.single he)

end TouchHle.Lib.Kahn
