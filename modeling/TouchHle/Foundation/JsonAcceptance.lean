import TouchHle.Foundation.JsonReading

/-! The parser ends, and accepts the texts of the grammar, with the numbers that the host reads. -/

namespace TouchHle.Foundation.JsonParser

open Lib List

variable {N : Type} {read : Numeral → Option N} {bs rest : List UInt8} {fuel : ℕ}
  {k t : List Char} {v : Json N}

lemma Reads.length_lt (h : Reads read v bs rest) : rest.length + 1 ≤ bs.length := by
  obtain ⟨w, t, -, ht, rfl⟩ := h
  obtain ⟨w', c, t', -, rfl, -⟩ := starts ht
  have hlen : (w ++ (w' ++ c :: t')).length ≤ _ := length_le_utf8
  simp only [length_append, length_cons] at hlen ⊢
  omega

lemma length_token {c : Char} (hc : Structural c) (h : token c bs = some rest) :
    rest.length + 1 ≤ bs.length := by
  obtain ⟨w, -, rfl⟩ := (token_eq_some hc).mp h
  rw [utf8_append, utf8_ascii hc.1, length_append, length_append]
  simp only [utf8_nil, length_singleton]
  omega

lemma parseString_ne_exhausted : parseString bs ≠ .error .exhausted :=
  stringLoop_ne_exhausted (Nat.lt_succ_self _)

lemma length_parseKey (h : parseKey bs = .ok (k, rest)) : rest.length + 1 ≤ bs.length := by
  obtain ⟨w, s, w', -, -, -, rfl⟩ := parseKey_sound h
  have hlen : (w ++ '"' :: s ++ '"' :: w' ++ [':']).length ≤ _ := length_le_utf8
  simp only [length_append, length_cons, length_nil] at hlen ⊢
  omega

lemma bind_ne_exhausted {α β : Type} {x : Except Stop α} {g : α → Except Stop β}
    (hx : x ≠ .error .exhausted) (hg : ∀ a, x = .ok a → g a ≠ .error .exhausted) :
    (x >>= g) ≠ .error .exhausted := by
  cases x with
  | error e =>
    intro h
    rw [error_bind] at h
    obtain rfl := Except.error.inj h
    exact hx rfl
  | ok a => exact hg a rfl

lemma parseKey_ne_exhausted : parseKey bs ≠ .error .exhausted := by
  rw [parseKey]
  split
  · rintro ⟨⟩
  · apply bind_ne_exhausted parseString_ne_exhausted
    intro x _
    dsimp only
    split <;> rintro ⟨⟩

structure Suffices (read : Numeral → Option N) (fuel : ℕ) : Prop where
  value : ∀ bs, rounds bs ≤ fuel → parseValue read fuel bs ≠ .error .exhausted
  members : ∀ acc bs, rounds bs < fuel → parseMembers read fuel acc bs ≠ .error .exhausted
  elements : ∀ acc bs, rounds bs < fuel → parseElements read fuel acc bs ≠ .error .exhausted

lemma expect_ne_exhausted : expect t bs ≠ .error .exhausted := by
  rw [expect]
  split <;> rintro ⟨⟩

lemma Suffices.value_succ (h : Suffices read fuel) (hfuel : rounds bs ≤ fuel + 1) :
    parseValue read (fuel + 1) bs ≠ .error .exhausted := by
  have hliteral : ∀ {l : List Char} {bs : List UInt8} {v : Json N},
      (do
        let bs ← expect l bs
        return (v, bs)) ≠ .error Stop.exhausted :=
    bind_ne_exhausted expect_ne_exhausted fun _ _ => (by rintro ⟨⟩)
  rw [parseValue]
  split
  · rintro ⟨⟩
  next b bs' hskip =>
  have hlen := length_skipWs bs
  rw [hskip, length_cons] at hlen
  have hrounds := rounds_le hlen hfuel
  split_ifs
  · split
    · rintro ⟨⟩
    · exact bind_ne_exhausted (h.members [] bs' hrounds) fun _ _ => (by rintro ⟨⟩)
  · split
    · rintro ⟨⟩
    · exact bind_ne_exhausted (h.elements [] bs' hrounds) fun _ _ => (by rintro ⟨⟩)
  · exact bind_ne_exhausted parseString_ne_exhausted fun _ _ => (by rintro ⟨⟩)
  · exact hliteral
  · exact hliteral
  · exact hliteral
  · apply bind_ne_exhausted
    · rw [parseNumber]
      split <;> rintro ⟨⟩
    · exact fun _ _ => (by rintro ⟨⟩)
  · rintro ⟨⟩

lemma Suffices.members_succ (h : Suffices read fuel) (acc : List (List Char × Json N))
    (hfuel : rounds bs < fuel + 1) : parseMembers read (fuel + 1) acc bs ≠ .error .exhausted := by
  rw [parseMembers]
  apply bind_ne_exhausted parseKey_ne_exhausted
  rintro ⟨k, bs₁⟩ hkey
  have hfuel₁ := rounds_le (length_parseKey hkey) hfuel.le
  apply bind_ne_exhausted (h.value bs₁ hfuel₁.le)
  rintro ⟨v, bs₂⟩ hvalue
  have hlen := ((sound read fuel).value _ _ _ hvalue).length_lt
  dsimp only
  split
  · next bs₃ hcomma =>
    have hlen' := length_token (by decide) hcomma
    apply h.members
    rw [rounds] at hfuel₁ ⊢
    omega
  · split <;> rintro ⟨⟩

lemma Suffices.elements_succ (h : Suffices read fuel) (acc : List (Json N))
    (hfuel : rounds bs < fuel + 1) : parseElements read (fuel + 1) acc bs ≠ .error .exhausted := by
  rw [parseElements]
  apply bind_ne_exhausted (h.value bs (Nat.lt_succ_iff.mp hfuel))
  rintro ⟨v, bs₁⟩ hvalue
  have hlen := ((sound read fuel).value _ _ _ hvalue).length_lt
  dsimp only
  split
  · next bs₂ hcomma =>
    have hlen' := length_token (by decide) hcomma
    apply h.elements
    rw [rounds] at hfuel ⊢
    omega
  · split <;> rintro ⟨⟩

lemma suffices_rounds (read : Numeral → Option N) (fuel : ℕ) : Suffices read fuel := by
  induction fuel with
  | zero =>
    refine ⟨fun bs h => ?_, fun _ _ h => absurd h (Nat.not_lt_zero _),
      fun _ _ h => absurd h (Nat.not_lt_zero _)⟩
    rw [rounds] at h
    omega
  | succ fuel ih =>
    exact ⟨fun _ => ih.value_succ, fun acc _ => ih.members_succ acc,
      fun acc _ => ih.elements_succ acc⟩

theorem parseRoot_ne_exhausted : parseRoot read bs ≠ .error .exhausted := by
  apply bind_ne_exhausted ((suffices_rounds read _).value bs le_rfl)
  rintro ⟨v, rest⟩ -
  dsimp only
  split <;> rintro ⟨⟩

def Readable (n : Numeral) : Prop :=
  (n.int ≠ [] ∨ n.frac.getD [] ≠ []) ∧ ∀ e ∈ n.exp, e.digits ≠ []

instance (n : Numeral) : Decidable (Readable n) := inferInstanceAs (Decidable (_ ∧ _))

def lenient (n : Numeral) : Option Numeral := if Readable n then some n else none

lemma readNumber_isSome {F : Type} (value : Numeral → F) (n : Numeral) :
    (readNumber value n).isSome ↔ Readable n := by
  have hf64 : ((parseF64 value n).map NSNumber.double).isSome ↔ Readable n := by
    rw [Option.isSome_map, parseF64]
    by_cases h : (n.int ≠ [] ∨ n.frac.getD [] ≠ []) ∧ ∀ e ∈ n.exp, e.digits ≠ []
    · rw [if_pos h]
      exact ⟨fun _ => h, fun _ => rfl⟩
    · rw [if_neg h]
      exact ⟨fun hn => (by cases hn), fun hr => absurd hr h⟩
  rw [readNumber]
  split_ifs with hfloat
  · exact hf64
  · rw [isFloat, Bool.or_eq_true, not_or, Option.not_isSome_iff_eq_none,
      Option.not_isSome_iff_eq_none] at hfloat
    have hplain : n.int ≠ [] → Readable n := fun hint =>
      ⟨.inl hint, fun e he => absurd (hfloat.2.symm.trans he) (by rintro ⟨⟩)⟩
    split
    · next i hi =>
      have hint : n.int ≠ [] := by
        intro hnil
        rw [parseI64, dif_neg fun h => h.1 hnil] at hi
        cases hi
      exact ⟨fun _ => hplain hint, fun _ => rfl⟩
    · split
      · next u hu =>
        rw [parseU64] at hu
        split_ifs at hu with hint
        exact ⟨fun _ => hplain hint.2.1, fun _ => rfl⟩
      · exact hf64

def Form.Alike {M : Type} : Form M → Form N → Prop
  | .value v, .value v' => v.IsContainer ↔ v'.IsContainer
  | .padded v, .padded v' => v.IsContainer ↔ v'.IsContainer
  | .elements _, .elements _ => True
  | .members _, .members _ => True
  | _, _ => False

lemma spells_alike {M : Type} {read' : Numeral → Option M} {f : Form M}
    (hread : ∀ n, (read' n).isSome → (read n).isSome) (h : Spells read' f t) :
    ∃ f' : Form N, Form.Alike f f' ∧ Spells read f' t := by
  have hvalue : ∀ {v : Json M} {t : List Char},
      (∃ f' : Form N, Form.Alike (.value v) f' ∧ Spells read f' t) →
      ∃ v', (v.IsContainer ↔ v'.IsContainer) ∧ Spells read (.value v') t := by
    rintro v t ⟨_ | _ | _ | _, halike, ht⟩
    · exact ⟨_, halike, ht⟩
    all_goals exact halike.elim
  have hpadded : ∀ {v : Json M} {t : List Char},
      (∃ f' : Form N, Form.Alike (.padded v) f' ∧ Spells read f' t) →
      ∃ v', (v.IsContainer ↔ v'.IsContainer) ∧ Spells read (.padded v') t := by
    rintro v t ⟨_ | _ | _ | _, halike, ht⟩
    · exact halike.elim
    · exact ⟨_, halike, ht⟩
    all_goals exact halike.elim
  have helements : ∀ {vs : List (Json M)} {t : List Char},
      (∃ f' : Form N, Form.Alike (.elements vs) f' ∧ Spells read f' t) →
      ∃ vs', Spells read (.elements vs') t := by
    rintro vs t ⟨_ | _ | _ | _, halike, ht⟩
    · exact halike.elim
    · exact halike.elim
    · exact ⟨_, ht⟩
    · exact halike.elim
  have hmembers : ∀ {es : List (List Char × Json M)} {t : List Char},
      (∃ f' : Form N, Form.Alike (.members es) f' ∧ Spells read f' t) →
      ∃ es', Spells read (.members es') t := by
    rintro es t ⟨_ | _ | _ | _, halike, ht⟩
    · exact halike.elim
    · exact halike.elim
    · exact halike.elim
    · exact ⟨_, ht⟩
  induction h with
  | null => exact ⟨.value .null, .rfl, .null⟩
  | true => exact ⟨.value (.bool true), .rfl, .true⟩
  | false => exact ⟨.value (.bool false), .rfl, .false⟩
  | @number n x hn hx =>
    obtain ⟨y, hy⟩ := Option.isSome_iff_exists.mp (hread n (by rw [hx]; rfl))
    exact ⟨.value (.number y), .rfl, .number hn hy⟩
  | string hs => exact ⟨.value (.string _), .rfl, .string hs⟩
  | emptyArray hw => exact ⟨.value (.array []), .rfl, .emptyArray hw⟩
  | array _ ih =>
    obtain ⟨vs', ht⟩ := helements ih
    exact ⟨.value (.array vs'), .rfl, .array ht⟩
  | emptyDictionary hw => exact ⟨.value (.dictionary []), .rfl, .emptyDictionary hw⟩
  | dictionary _ ih =>
    obtain ⟨es', ht⟩ := hmembers ih
    exact ⟨.value (.dictionary _), .rfl, .dictionary ht⟩
  | padded hw _ hw' ih =>
    obtain ⟨v', hv, ht⟩ := hvalue ih
    exact ⟨.padded v', hv, .padded hw ht hw'⟩
  | element _ ih =>
    obtain ⟨v', -, ht⟩ := hpadded ih
    exact ⟨.elements [v'], trivial, .element ht⟩
  | elements _ _ ih ihs =>
    obtain ⟨v', -, ht⟩ := hpadded ih
    obtain ⟨vs', hts⟩ := helements ihs
    exact ⟨.elements (v' :: vs'), trivial, .elements ht hts⟩
  | member hw hs hw' _ ih =>
    obtain ⟨v', -, ht⟩ := hpadded ih
    exact ⟨.members [(_, v')], trivial, .member hw hs hw' ht⟩
  | members hw hs hw' _ _ ih ihs =>
    obtain ⟨v', -, ht⟩ := hpadded ih
    obtain ⟨es', hts⟩ := hmembers ihs
    exact ⟨.members ((_, v') :: es'), trivial, .members hw hs hw' ht hts⟩

lemma IsText.mono {M : Type} {read' : Numeral → Option M} {fragments : Prop}
    (hread : ∀ n, (read' n).isSome → (read n).isSome) (h : IsText read' fragments bs) :
    IsText read fragments bs := by
  obtain ⟨cs, v, rfl, ht, hroot⟩ := h
  obtain ⟨_ | _ | _ | _, halike, ht'⟩ := spells_alike hread ht
  · exact halike.elim
  · exact ⟨cs, _, rfl, ht', hroot.imp_right halike.mp⟩
  · exact halike.elim
  · exact halike.elim

lemma lenient_isSome {n : Numeral} : (lenient n).isSome ↔ Readable n := by
  rw [lenient]
  split_ifs with h
  · exact ⟨fun _ => h, fun _ => rfl⟩
  · exact ⟨fun hn => (by cases hn), fun hr => absurd hr h⟩

lemma lenient_of_standard {n : Numeral} (h : (standard n).isSome) : (lenient n).isSome := by
  rw [standard] at h
  split_ifs at h with hwell
  · exact lenient_isSome.mpr ⟨.inl hwell.1, hwell.2.2.2⟩
  · cases h

variable {F : Type} (value : Numeral → F) (allowFragments : Bool) (data : List UInt8)

theorem jsonObjectWithData_isSome :
    (jsonObjectWithData value allowFragments data).isSome ↔ IsText lenient allowFragments data := by
  have hlenient : IsText (readNumber value) allowFragments data ↔
      IsText lenient allowFragments data := by
    constructor
    · exact IsText.mono fun n hn => lenient_isSome.mpr ((readNumber_isSome value n).mp hn)
    · exact IsText.mono fun n hn => (readNumber_isSome value n).mpr (lenient_isSome.mp hn)
  rw [← hlenient, jsonObjectWithData]
  constructor
  · intro h
    split at h
    · cases h
    · split at h
      · cases h
      · next v hroot =>
        obtain ⟨t, ht, rfl⟩ := parseRoot_iff.mp hroot
        split_ifs at h with hkind
        · exact ⟨t, v, rfl, ht, hkind⟩
        · cases h
  · rintro ⟨t, v, rfl, ht, hkind⟩
    rw [fromUtf8_utf8, parseRoot_iff.mpr ⟨t, ht, rfl⟩]
    dsimp only
    rw [if_pos hkind]
    rfl

/-- The texts of the standard and no others are accepted, except for texts that only have numbers of
another form: with leading zeros, or without digits on one side of the point. -/
theorem jsonObjectWithData_standard_iff :
    parseRoot (readNumber value) data ≠ .error .exhausted ∧
      (((jsonObjectWithData value allowFragments data).isSome ↔
          IsText standard allowFragments data) ↔
        (IsText lenient allowFragments data → IsText standard allowFragments data)) := by
  refine ⟨parseRoot_ne_exhausted, ?_⟩
  rw [jsonObjectWithData_isSome]
  have hstandard : IsText standard allowFragments data → IsText lenient allowFragments data :=
    IsText.mono fun _ => lenient_of_standard
  exact ⟨fun h => h.mp, fun h => ⟨h, hstandard⟩⟩

theorem not_standard :
    ¬ ∀ (F : Type) (value : Numeral → F) (allowFragments : Bool) (data : List UInt8),
      ((jsonObjectWithData value allowFragments data).isSome ↔
        IsText standard allowFragments data) := by
  intro h
  have haccepted : (jsonObjectWithData id true (utf8 ['0', '1'])).isSome := by
    rw [jsonObjectWithData, fromUtf8_utf8]
    decide
  obtain ⟨t, v, heq, ht, -⟩ := (h Numeral id true _).mp haccepted
  have hroot := parseRoot_iff.mpr ⟨t, ht, heq⟩
  have hnone : (parseRoot standard (utf8 ['0', '1'])).toOption.isSome = false := by decide
  rw [hroot] at hnone
  cases hnone

end TouchHle.Foundation.JsonParser
