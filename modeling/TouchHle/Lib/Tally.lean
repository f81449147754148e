import TouchHle.Lib.Runs

/-! Counting the indices below a bound at which a family has a property, and adding up over the indices
in a list. -/

namespace TouchHle.Lib

variable {β : Type} {p : β → Prop} [DecidablePred p] {f : ℕ → β} {i n : ℕ}

theorem count_update (hi : i < n) (b : β) :
    Nat.count (fun j => p (Function.update f i b j)) n + (if p (f i) then 1 else 0) =
      Nat.count (fun j => p (f j)) n + (if p b then 1 else 0) := by
  have hmem : i ∈ Finset.range n := Finset.mem_range.mpr hi
  have hupdate : (fun j => if p (Function.update f i b j) then 1 else 0) =
      Function.update (fun j => if p (f j) then 1 else 0) i (if p b then 1 else 0) := by
    funext j
    by_cases hj : j = i
    · subst hj
      simp
    · simp [hj]
  simp only [Nat.count_eq_card_filter_range, Finset.card_filter, hupdate,
    Finset.sum_update_of_mem hmem]
  have hsum := Finset.sum_eq_add_sum_sdiff_singleton_of_mem hmem
    (fun j => if p (f j) then 1 else 0)
  omega

lemma count_pos (hi : i < n) (h : p (f i)) : 0 < Nat.count (fun j => p (f j)) n := by
  rw [Nat.count_eq_card_filter_range]
  exact Finset.card_pos.mpr ⟨i, Finset.mem_filter.mpr ⟨Finset.mem_range.mpr hi, h⟩⟩

lemma sum_map_update {κ γ : Type} [DecidableEq κ] {l : List κ} {f : κ → γ} {k : κ} (g : γ → ℕ) (c : γ)
    (hl : l.Nodup) (hk : k ∈ l) :
    (l.map fun j => g (Function.update f k c j)).sum + g (f k) = (l.map fun j => g (f j)).sum + g c := by
  induction l with
  | nil => cases hk
  | cons j l ih =>
    obtain ⟨hj, hl⟩ := List.nodup_cons.mp hl
    rw [List.map_cons, List.sum_cons, List.map_cons, List.sum_cons]
    by_cases heq : j = k
    · have hsame : (l.map fun j => g (Function.update f k c j)) = l.map fun j => g (f j) := by
        apply List.map_congr_left
        intro j' hj'
        have hne : j' ≠ k := fun h => hj (heq.trans h.symm ▸ hj')
        rw [Function.update_of_ne hne]
      rw [hsame, heq, Function.update_self]
      omega
    · have hrest := ih hl ((List.mem_cons.mp hk).resolve_left (Ne.symm heq))
      rw [Function.update_of_ne heq]
      omega

variable {σ α ο M : Type} [AddMonoid M]

def tally (serve : σ → α → Checked (ο × σ)) (f : σ → α → ο → σ → M) (s : σ) : List α → M
  | [] => 0
  | r :: rs =>
    match serve s r with
    | .ok (o, s') => f s r o s' + tally serve f s' rs
    | .error _ => 0

variable {serve : σ → α → Checked (ο × σ)} {f : σ → α → ο → σ → M} {s s' t : σ} {r : α} {o : ο}
  {rs : List α}

@[simp] lemma tally_nil : tally serve f s [] = 0 := rfl

lemma tally_cons (h : serve s r = .ok (o, t)) :
    tally serve f s (r :: rs) = f s r o t + tally serve f t rs := by
  simp only [tally, h]

lemma tally_prodMk {N : Type} [AddMonoid N] {g : σ → α → ο → σ → N} :
    tally serve (fun s r o t => (f s r o t, g s r o t)) s rs =
      (tally serve f s rs, tally serve g s rs) := by
  induction rs generalizing s with
  | nil => rfl
  | cons r rs ih =>
    unfold tally
    split
    · rw [ih]
      rfl
    · rfl

lemma tally_eq_zero_iff {p : σ → α → Prop} [∀ s r, Decidable (p s r)]
    (hrun : run (fun s r => Prod.snd <$> serve s r) s rs = .ok s') :
    tally serve (fun s r _ _ => if p s r then 0 else 1) s rs = 0 ↔
      Along (fun s r => Prod.snd <$> serve s r) p s rs := by
  induction rs generalizing s with
  | nil => simp [Along]
  | cons r rs ih =>
    obtain ⟨t, ht, hrun⟩ := run_cons_eq_ok.mp hrun
    obtain ⟨⟨o, t'⟩, hserve, rfl⟩ := map_eq_ok.mp ht
    rw [tally_cons hserve, Nat.add_eq_zero_iff, ih hrun]
    simp only [Along, ht, Except.ok.injEq, forall_eq']
    by_cases hp : p s r <;> simp [hp]

theorem run_tally {J : σ → M → Prop} {p : σ → α → Prop}
    (hstep : ∀ s r o t n, J s n → p s r → serve s r = .ok (o, t) → J t (n + f s r o t)) {n : M}
    (hs : J s n) (hp : Along (fun s r => Prod.snd <$> serve s r) p s rs)
    (hrun : run (fun s r => Prod.snd <$> serve s r) s rs = .ok s') :
    J s' (n + tally serve f s rs) := by
  induction rs generalizing s n with
  | nil =>
    obtain rfl := Except.ok.inj (run_nil.symm.trans hrun)
    simpa using hs
  | cons r rs ih =>
    obtain ⟨t, ht, hrun⟩ := run_cons_eq_ok.mp hrun
    obtain ⟨⟨o, t'⟩, hserve, rfl⟩ := map_eq_ok.mp ht
    rw [tally_cons hserve, ← add_assoc]
    exact ih (hstep s r o t' n hs hp.1 hserve) (hp.2 t' ht) hrun

end TouchHle.Lib
