import TouchHle.Lib.Checked

/-! Runs of a checked step function over a list of requests, and the rules to reason about them. -/

namespace TouchHle.Lib

open List Except

variable {σ α : Type}

def run (step : σ → α → Checked σ) (s : σ) : List α → Checked σ
  | [] => return s
  | r :: rs => do
    let s ← step s r
    run step s rs

def Along (step : σ → α → Checked σ) (p : σ → α → Prop) (s : σ) : List α → Prop
  | [] => True
  | r :: rs => p s r ∧ ∀ s', step s r = .ok s' → Along step p s' rs

variable {step : σ → α → Checked σ} {I : σ → Prop} {p q : σ → α → Prop} {s s' : σ} {r : α}
  {rs ts : List α}

@[simp] lemma run_nil : run step s [] = .ok s := by simp [run]

lemma run_cons : run step s (r :: rs) = step s r >>= fun s' => run step s' rs := rfl

lemma run_cons_eq_ok :
    run step s (r :: rs) = .ok s' ↔ ∃ t, step s r = .ok t ∧ run step t rs = .ok s' := bind_eq_ok

lemma run_append : run step s (rs ++ ts) = run step s rs >>= fun t => run step t ts := by
  induction rs generalizing s with
  | nil => simp
  | cons r rs ih => simp only [cons_append, run_cons, ih, bind_assoc]

lemma run_append_eq_ok :
    run step s (rs ++ ts) = .ok s' ↔ ∃ t, run step s rs = .ok t ∧ run step t ts = .ok s' := by
  rw [run_append, bind_eq_ok]

instance decidableAlong [∀ s r, Decidable (p s r)] :
    (s : σ) → (rs : List α) → Decidable (Along step p s rs)
  | _, [] => isTrue trivial
  | s, r :: rs =>
    match h : step s r with
    | .error _ =>
      decidable_of_iff (p s r) ⟨fun hp => ⟨hp, fun _ ht => nomatch h.symm.trans ht⟩, And.left⟩
    | .ok t =>
      have : Decidable (Along step p t rs) := decidableAlong t rs
      decidable_of_iff (p s r ∧ Along step p t rs)
        ⟨fun hp => ⟨hp.1, fun _ ht => ok.inj (h.symm.trans ht) ▸ hp.2⟩,
          fun hp => ⟨hp.1, hp.2 t h⟩⟩

lemma along_of_forall {p : α → Prop} (h : ∀ r ∈ rs, p r) : Along step (fun _ => p) s rs := by
  induction rs generalizing s with
  | nil => trivial
  | cons r rs ih =>
    exact ⟨h r mem_cons_self, fun _ _ => ih fun r hr => h r (mem_cons_of_mem _ hr)⟩

lemma Along.mono (hpq : ∀ s r, p s r → q s r) (h : Along step p s rs) : Along step q s rs := by
  induction rs generalizing s with
  | nil => trivial
  | cons r rs ih => exact ⟨hpq s r h.1, fun t ht => ih (h.2 t ht)⟩

lemma Along.lift {τ : Type} {step' : τ → α → Checked τ} {f : τ → σ}
    (hf : ∀ t r t', step' t r = .ok t' → step (f t) r = .ok (f t')) {t : τ}
    (h : Along step p (f t) rs) : Along step' (fun t r => p (f t) r) t rs := by
  induction rs generalizing t with
  | nil => trivial
  | cons r rs ih => exact ⟨h.1, fun t' ht => ih (h.2 _ (hf t r t' ht))⟩

theorem along_iff_along {l : σ → α → Prop} (hiff : ∀ s r, I s → l s r → (p s r ↔ q s r))
    (hkeep : ∀ s r s', I s → l s r → q s r → step s r = .ok s' → I s') (hs : I s)
    (hl : Along step l s rs) : Along step p s rs ↔ Along step q s rs := by
  induction rs generalizing s with
  | nil => exact Iff.rfl
  | cons r rs ih =>
    constructor
    · rintro ⟨hp, hrest⟩
      have hq := (hiff s r hs hl.1).mp hp
      exact ⟨hq, fun t ht => (ih (hkeep s r t hs hl.1 hq ht) (hl.2 t ht)).mp (hrest t ht)⟩
    · rintro ⟨hq, hrest⟩
      exact ⟨(hiff s r hs hl.1).mpr hq,
        fun t ht => (ih (hkeep s r t hs hl.1 hq ht) (hl.2 t ht)).mpr (hrest t ht)⟩

theorem run_preserves (hstep : ∀ s r s', I s → p s r → step s r = .ok s' → I s') (hs : I s)
    (hp : Along step p s rs) (hrun : run step s rs = .ok s') : I s' := by
  induction rs generalizing s with
  | nil =>
    obtain rfl := ok.inj (run_nil.symm.trans hrun)
    exact hs
  | cons r rs ih =>
    obtain ⟨t, ht, hrun⟩ := run_cons_eq_ok.mp hrun
    exact ih (hstep s r t hs hp.1 ht) (hp.2 t ht) hrun

theorem run_ok_iff {good : α → Prop} {Q : σ → Prop}
    (hgood : ∀ s r, I s → good r → ∃ s', step s r = .ok s' ∧ I s')
    (hbad : ∀ s r s', I s → ¬ good r → step s r ≠ .ok s') (hQ : ∀ s, I s → Q s) (hs : I s) :
    (∃ s', run step s rs = .ok s' ∧ Q s') ↔ ∀ r ∈ rs, good r := by
  induction rs generalizing s with
  | nil => simpa using hQ s hs
  | cons r rs ih =>
    rw [forall_mem_cons]
    constructor
    · rintro ⟨s', hrun, hs'⟩
      obtain ⟨t, ht, hrun⟩ := run_cons_eq_ok.mp hrun
      have hr : good r := not_not.mp fun hr => hbad s r t hs hr ht
      obtain ⟨t', ht', hI⟩ := hgood s r hs hr
      obtain rfl := ok.inj (ht'.symm.trans ht)
      exact ⟨hr, (ih hI).mp ⟨s', hrun, hs'⟩⟩
    · rintro ⟨hr, hrs⟩
      obtain ⟨t, ht, hI⟩ := hgood s r hs hr
      obtain ⟨s', hrun, hs'⟩ := (ih hI).mpr hrs
      exact ⟨s', run_cons_eq_ok.mpr ⟨t, ht, hrun⟩, hs'⟩

theorem run_ok_of_along (hgood : ∀ s r, I s → p s r → ∃ s', step s r = .ok s' ∧ I s') (hs : I s)
    (hp : Along step p s rs) : ∃ s', run step s rs = .ok s' ∧ I s' := by
  induction rs generalizing s with
  | nil => exact ⟨s, run_nil, hs⟩
  | cons r rs ih =>
    obtain ⟨t, ht, hI⟩ := hgood s r hs hp.1
    obtain ⟨s', hrun, hs'⟩ := ih hI (hp.2 t ht)
    exact ⟨s', run_cons_eq_ok.mpr ⟨t, ht, hrun⟩, hs'⟩

theorem run_ok_iff_along (hgood : ∀ s r, I s → p s r → ∃ s', step s r = .ok s' ∧ I s')
    (hbad : ∀ s r s', I s → ¬ p s r → step s r ≠ .ok s') (hs : I s) :
    (∃ s', run step s rs = .ok s') ↔ Along step p s rs := by
  constructor
  · rintro ⟨s', hrun⟩
    induction rs generalizing s with
    | nil => trivial
    | cons r rs ih =>
      obtain ⟨t, ht, hrun⟩ := run_cons_eq_ok.mp hrun
      have hr : p s r := not_not.mp fun hr => hbad s r t hs hr ht
      refine ⟨hr, fun t' ht' => ?_⟩
      obtain ⟨t'', ht'', hI⟩ := hgood s r hs hr
      obtain rfl := ok.inj (ht''.symm.trans ht)
      obtain rfl := ok.inj (ht.symm.trans ht')
      exact ih hI hrun
  · intro hp
    obtain ⟨s', hrun, -⟩ := run_ok_of_along hgood hs hp
    exact ⟨s', hrun⟩

theorem run_holds_iff_along {Q : σ → Prop}
    (hgood : ∀ s r s', I s → p s r → step s r = .ok s' → I s')
    (hbad : ∀ s r s', I s → ¬ p s r → step s r = .ok s' → ¬ Q s')
    (hkeep : ∀ s r s', step s r = .ok s' → Q s' → Q s) (hQ : ∀ s, I s → Q s) (hs : I s)
    (hrun : run step s rs = .ok s') : Q s' ↔ Along step p s rs := by
  have hback : ∀ {s rs}, run step s rs = .ok s' → Q s' → Q s := by
    intro s rs hrun hend
    induction rs generalizing s with
    | nil =>
      obtain rfl := ok.inj (run_nil.symm.trans hrun)
      exact hend
    | cons r rs ih =>
      obtain ⟨t, ht, hrun⟩ := run_cons_eq_ok.mp hrun
      exact hkeep s r t ht (ih hrun)
  induction rs generalizing s with
  | nil =>
    obtain rfl := ok.inj (run_nil.symm.trans hrun)
    exact ⟨fun _ => trivial, fun _ => hQ s hs⟩
  | cons r rs ih =>
    obtain ⟨t, ht, hrun⟩ := run_cons_eq_ok.mp hrun
    by_cases hr : p s r
    · apply (ih (hgood s r t hs hr ht) hrun).trans
      constructor
      · intro halong
        refine ⟨hr, fun t' ht' => ?_⟩
        obtain rfl := ok.inj (ht.symm.trans ht')
        exact halong
      · exact fun halong => halong.2 t ht
    · constructor
      · exact fun hend => absurd (hback hrun hend) (hbad s r t hs hr ht)
      · exact fun halong => absurd halong.1 hr

/-- What holds in every state reached by a run, if what a step that is not a good one leads to does
not hold, is that each request is a good one where it is executed. Of the requests it is known that
they are lawful. -/
theorem always_iff_along_of {l : σ → α → Prop} {Q : σ → Prop}
    (hgood : ∀ s r s', I s → l s r → p s r → step s r = .ok s' → I s')
    (hbad : ∀ s r s', I s → l s r → ¬ p s r → step s r = .ok s' → ¬ Q s') (hQ : ∀ s, I s → Q s)
    (hs : I s) (hl : Along step l s rs) (hrun : run step s rs = .ok s') :
    Along step (fun s r => ∀ t, step s r = .ok t → Q t) s rs ↔ Along step p s rs := by
  induction rs generalizing s with
  | nil => exact Iff.rfl
  | cons r rs ih =>
    obtain ⟨t, ht, hrun⟩ := run_cons_eq_ok.mp hrun
    have honly : ∀ {t'}, step s r = .ok t' → t' = t := by
      intro t' ht'
      exact ok.inj (ht'.symm.trans ht)
    constructor
    · rintro ⟨hhere, halong⟩
      have hr : p s r := not_not.mp fun hr => hbad s r t hs hl.1 hr ht (hhere t ht)
      refine ⟨hr, fun t' ht' => ?_⟩
      obtain rfl := honly ht'
      exact (ih (hgood s r t' hs hl.1 hr ht) (hl.2 t' ht) hrun).mp (halong t' ht)
    · rintro ⟨hr, halong⟩
      have ht' : I t := hgood s r t hs hl.1 hr ht
      refine ⟨fun t' h => honly h ▸ hQ t ht', fun t' h => ?_⟩
      obtain rfl := honly h
      exact (ih ht' (hl.2 _ ht) hrun).mpr (halong t' ht)

theorem always_iff_along {Q : σ → Prop}
    (hgood : ∀ s r s', I s → p s r → step s r = .ok s' → I s')
    (hbad : ∀ s r s', I s → ¬ p s r → step s r = .ok s' → ¬ Q s') (hQ : ∀ s, I s → Q s) (hs : I s)
    (hrun : run step s rs = .ok s') :
    Along step (fun s r => ∀ t, step s r = .ok t → Q t) s rs ↔ Along step p s rs :=
  always_iff_along_of (fun s r s' hs _ => hgood s r s' hs) (fun s r s' hs _ => hbad s r s' hs) hQ hs
    (along_of_forall (p := fun _ => True) fun _ _ => trivial) hrun

end TouchHle.Lib
