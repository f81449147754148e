import TouchHle.Font.Arabic

namespace TouchHle.Font

open List Option Char

def forms : List Form := [.isolated, .final, .initial, .medial]

lemma mem_forms (form : Form) : form ∈ forms := by cases form <;> decide

def forwardForms : List ℕ :=
  (formTable.map (·.2.ini) ++ formTable.map (·.2.med)).filter (· ≠ 0)

def backwardForms : List ℕ :=
  (formTable.map (·.2.fin) ++ formTable.map (·.2.med) ++ ligatureTable.map (·.2.2)).filter (· ≠ 0)

def JoinsForward (g : Char) : Prop := g.toNat ∈ forwardForms

def JoinsBackward (g : Char) : Prop := g.toNat ∈ backwardForms

def IsFormOf (c g : Char) : Prop := ∃ f, presentationForms c = some f ∧ g.toNat ≠ 0 ∧
  g.toNat ∈ [f.iso, f.fin, f.ini, f.med]

def IsLigatureOf (alef g : Char) : Prop := ∃ f, ligatureTable.lookup alef.toNat = some f ∧
  g.toNat ∈ [f.1, f.2]

inductive ShapedUnit : List Char × Char → Prop
  | ligature {c d g : Char} (hpair : isLamAlef c d = true) (hg : IsLigatureOf d g) :
    ShapedUnit ([c, d], g)
  | letter {c g : Char} (hg : IsFormOf c g) : ShapedUnit ([c], g)
  | other {c : Char} (hc : presentationForms c = none) : ShapedUnit ([c], c)

section

lemma formTable_rows : ∀ e ∈ formTable,
    (∀ form ∈ forms, ((e.2.choose form).isValidChar ∧ 0xFE80 ≤ e.2.choose form ∧
        e.2.choose form ≤ 0xFEFC ∧ e.2.choose form ∈ [e.2.iso, e.2.fin, e.2.ini, e.2.med]) ∧
      (e.2.choose form ∈ forwardForms ↔
        (form = .initial ∨ form = .medial) ∧ joinOf e.1 = .dual ∧ e.1 ≠ 0x0649) ∧
      (e.2.choose form ∈ backwardForms ↔
        (form = .final ∨ form = .medial) ∧ joinOf e.1 ≠ .nonJoining)) ∧
    (∀ v ∈ [e.2.iso, e.2.fin, e.2.ini, e.2.med], v = 0 ∨ (0xFE80 ≤ v ∧ v ≤ 0xFEFC)) ∧
    0x0621 ≤ e.1 ∧ e.1 ≤ 0x064A ∧
    (joinOf e.1 = .nonJoining ∨ joinOf e.1 = .right ∨ joinOf e.1 = .dual) := by
  decide +kernel

lemma ligatureTable_rows : (∀ e ∈ ligatureTable, (0x0621 ≤ e.1 ∧ e.1 ≤ 0x064A) ∧
      joinOf e.1 = .right ∧ (formTable.lookup e.1).isSome = true ∧
      ∀ v ∈ [e.2.1, e.2.2], v.isValidChar ∧ 0xFE80 ≤ v ∧ v ≤ 0xFEFC ∧ v ∉ forwardForms ∧
        (v ∈ backwardForms ↔ v = e.2.2) ∧ e.2.1 ≠ e.2.2) ∧
    ∀ n ∈ List.range' 0x0621 42, joinOf n = .right ∨ joinOf n = .dual →
      (formTable.lookup n).isSome = true := by
  decide +kernel

lemma formTable_choose : ∀ e ∈ formTable, ∀ form ∈ forms,
    (e.2.choose form).isValidChar ∧ 0xFE80 ≤ e.2.choose form ∧ e.2.choose form ≤ 0xFEFC ∧
    e.2.choose form ∈ [e.2.iso, e.2.fin, e.2.ini, e.2.med] :=
  fun e he form hform => ((formTable_rows e he).1 form hform).1

lemma formTable_range : ∀ e ∈ formTable, ∀ v ∈ [e.2.iso, e.2.fin, e.2.ini, e.2.med],
    v = 0 ∨ (0xFE80 ≤ v ∧ v ≤ 0xFEFC) :=
  fun e he => (formTable_rows e he).2.1

lemma formTable_forward : ∀ e ∈ formTable, ∀ form ∈ forms,
    (e.2.choose form ∈ forwardForms ↔
      (form = .initial ∨ form = .medial) ∧ joinOf e.1 = .dual ∧ e.1 ≠ 0x0649) :=
  fun e he form hform => ((formTable_rows e he).1 form hform).2.1

lemma formTable_backward : ∀ e ∈ formTable, ∀ form ∈ forms,
    (e.2.choose form ∈ backwardForms ↔
      (form = .final ∨ form = .medial) ∧ joinOf e.1 ≠ .nonJoining) :=
  fun e he form hform => ((formTable_rows e he).1 form hform).2.2

lemma formTable_letters : ∀ e ∈ formTable, 0x0621 ≤ e.1 ∧ e.1 ≤ 0x064A ∧
    (joinOf e.1 = .nonJoining ∨ joinOf e.1 = .right ∨ joinOf e.1 = .dual) :=
  fun e he => (formTable_rows e he).2.2

lemma ligatureTable_forms : ∀ e ∈ ligatureTable, joinOf e.1 = .right ∧
    (formTable.lookup e.1).isSome = true ∧ ∀ v ∈ [e.2.1, e.2.2], v.isValidChar ∧ 0xFE80 ≤ v ∧
    v ≤ 0xFEFC ∧ v ∉ forwardForms ∧ (v ∈ backwardForms ↔ v = e.2.2) ∧ e.2.1 ≠ e.2.2 :=
  fun e he => (ligatureTable_rows.1 e he).2

lemma joinOf_letters : ∀ n ∈ List.range' 0x0621 42, joinOf n = .right ∨ joinOf n = .dual →
    (formTable.lookup n).isSome = true :=
  ligatureTable_rows.2

lemma joinOf_of_outside {n : ℕ} (h : n < 0x0621 ∨ 0x064B ≤ n) : joinOf n =
    if isTransparent n then .transparent else if n = 0x200D then .causing else .nonJoining := by
  unfold joinOf
  rw [if_neg, if_neg, if_neg, if_neg, if_neg, if_neg, if_neg, if_neg, if_neg, if_neg, if_neg,
    if_neg, if_neg, if_neg]
  all_goals omega

lemma ligatureTable_range : ∀ e ∈ ligatureTable, 0x0621 ≤ e.1 ∧ e.1 ≤ 0x064A :=
  fun e he => (ligatureTable_rows.1 e he).1

end

variable {c d g : Char} {f : Forms} {form : Form} {chars before : List Char}

lemma toNat_ofNat {n : ℕ} (h : n.isValidChar) : (ofNat n).toNat = n := by
  rw [ofNat, dif_pos h]
  rfl

lemma mem_of_lookup {α : Type} {l : List (ℕ × α)} {n : ℕ} {a : α} (h : l.lookup n = some a) :
    (n, a) ∈ l := by
  rw [lookup_eq_some_iff] at h
  obtain ⟨l₁, l₂, rfl, -⟩ := h
  exact mem_append_right _ mem_cons_self

lemma toNat_toPresentationForm (h : presentationForms c = some f) :
    (toPresentationForm c form).toNat = f.choose form := by
  obtain ⟨hvalid, -⟩ := formTable_choose _ (mem_of_lookup h) form (mem_forms form)
  rw [toPresentationForm, h]
  dsimp only
  rw [charFromU32, if_pos hvalid]
  exact toNat_ofNat hvalid

lemma isFormOf_toPresentationForm (h : presentationForms c = some f) :
    IsFormOf c (toPresentationForm c form) := by
  obtain ⟨-, hge, -, hmem⟩ := formTable_choose _ (mem_of_lookup h) form (mem_forms form)
  refine ⟨f, h, ?_, ?_⟩
  · rw [toNat_toPresentationForm h]
    exact Nat.ne_of_gt (lt_of_lt_of_le (by decide) hge)
  · rw [toNat_toPresentationForm h]
    exact hmem

lemma toNat_lamAlefLigature {v : ℕ × ℕ} (h : ligatureTable.lookup d.toNat = some v) (b : Bool) :
    (lamAlefLigature d b).toNat = if b then v.2 else v.1 := by
  obtain ⟨-, -, hvalid⟩ := ligatureTable_forms _ (mem_of_lookup h)
  rw [lamAlefLigature, h]
  cases b with
  | true => exact toNat_ofNat (hvalid v.2 (by simp)).1
  | false => exact toNat_ofNat (hvalid v.1 (by simp)).1

lemma isLamAlef_iff : isLamAlef c d = true ↔
    c.toNat = 0x0644 ∧ ∃ v, ligatureTable.lookup d.toNat = some v := by
  simp [isLamAlef, isLamAlefTarget, isSome_iff_exists]

lemma isLigatureOf_lamAlefLigature (h : isLamAlef c d = true) (b : Bool) :
    IsLigatureOf d (lamAlefLigature d b) := by
  obtain ⟨-, v, hv⟩ := isLamAlef_iff.mp h
  refine ⟨v, hv, ?_⟩
  rw [toNat_lamAlefLigature hv]
  cases b <;> simp

lemma flatMap_shapeUnits (before chars : List Char) :
    (shapeUnits before chars).flatMap Prod.fst = chars := by
  fun_induction shapeUnits before chars with
  | case1 => rfl
  | case2 => rfl
  | case3 before c d rest h ih => simpa using ih
  | case4 before c d rest h ih => simpa using ih

lemma shapeUnits_append {U V : List (List Char × Char)} {u : List Char × Char}
    (h : shapeUnits before chars = U ++ u :: V) :
    (∃ c, u.1 = [c] ∧ u.2 =
      shapeChar ((U.flatMap Prod.fst).reverse ++ before) c (V.flatMap Prod.fst) ∧
        ∀ d ds, V.flatMap Prod.fst = d :: ds → isLamAlef c d = false) ∨
    ∃ c d, u.1 = [c, d] ∧ isLamAlef c d = true ∧
      u.2 = lamAlefLigature d (prevJoins ((U.flatMap Prod.fst).reverse ++ before)) := by
  fun_induction shapeUnits before chars generalizing U with
  | case1 before => simp at h
  | case2 before c =>
    cases U with
    | nil =>
      obtain ⟨rfl, rfl⟩ := List.cons.inj h
      exact .inl ⟨c, rfl, rfl, by simp⟩
    | cons u' U => simp at h
  | case3 before c d rest hpair ih =>
    cases U with
    | nil =>
      obtain ⟨rfl, rfl⟩ := List.cons.inj h
      exact .inr ⟨c, d, rfl, hpair, rfl⟩
    | cons u' U =>
      obtain ⟨rfl, htail⟩ := List.cons.inj h
      simpa using ih htail
  | case4 before c d rest hpair ih =>
    cases U with
    | nil =>
      obtain ⟨rfl, rfl⟩ := List.cons.inj h
      refine .inl ⟨c, rfl, ?_, ?_⟩
      · rw [flatMap_shapeUnits]
        rfl
      · intro d' ds hds
        rw [flatMap_shapeUnits] at hds
        obtain ⟨rfl, -⟩ := List.cons.inj hds
        simpa using hpair
    | cons u' U =>
      obtain ⟨rfl, htail⟩ := List.cons.inj h
      simpa using ih htail

lemma shapedUnit_shapeChar (before after : List Char) (c : Char) :
    ShapedUnit ([c], shapeChar before c after) := by
  unfold shapeChar
  cases h : presentationForms c with
  | none => exact .other h
  | some f => exact .letter (isFormOf_toPresentationForm h)

theorem shapedUnit_of_mem {u : List Char × Char} (h : u ∈ shapeUnits before chars) :
    ShapedUnit u := by
  obtain ⟨U, V, hUV⟩ := append_of_mem h
  obtain ⟨cs, g⟩ := u
  obtain ⟨c, rfl, rfl, -⟩ | ⟨c, d, rfl, hpair, rfl⟩ := shapeUnits_append hUV
  · exact shapedUnit_shapeChar _ _ c
  · exact .ligature hpair (isLigatureOf_lamAlefLigature hpair _)

def IsLetterUnit (u : List Char × Char) : Prop :=
  (∃ c, u.1 = [c] ∧ presentationForms c ≠ none) ∨ ∃ c d, u.1 = [c, d]

def NeighboursAgree (units : List (List Char × Char)) : Prop :=
  ∀ (U : List (List Char × Char)) u (ms : List Char) v V, units = U ++ u :: (ms.map fun m => ([m], m)) ++ v :: V →
    (∀ m ∈ ms, isCombiningMark m = true) → IsLetterUnit u → IsLetterUnit v →
      (JoinsForward u.2 ↔ JoinsBackward v.2)

def MaksuraJoins (line : List Char) : Prop :=
  ∃ pre ms c post, line = pre ++ Char.ofNat 0x0649 :: ms ++ c :: post ∧
    (∀ m ∈ ms, joiningType m = .transparent) ∧ (joiningType c = .right ∨ joiningType c = .dual)

lemma nearestBase_transparent {ms l : List Char} (h : ∀ m ∈ ms, joiningType m = .transparent) :
    nearestBase (ms ++ l) = nearestBase l := by
  induction ms with
  | nil => rfl
  | cons m ms ih =>
    rw [forall_mem_cons] at h
    rw [← ih h.2]
    simp [nearestBase, h.1]

lemma nearestBase_cons (h : joiningType c ≠ .transparent) (l : List Char) :
    nearestBase (c :: l) = some (joiningType c) := by
  simp [nearestBase, h]

lemma joiningType_of_isCombiningMark (h : isCombiningMark c = true) :
    joiningType c = .transparent ∨ joiningType c = .nonJoining := by
  rw [isCombiningMark, Bool.or_eq_true] at h
  obtain h | h := h
  · right
    simp only [Bool.and_eq_true, decide_eq_true_eq] at h
    rw [joiningType, joinOf_of_outside (by omega), if_neg, if_neg]
    · omega
    · simp only [isTransparent, Bool.or_eq_true, Bool.and_eq_true, decide_eq_true_eq, beq_iff_eq]
      omega
  · exact .inl (by simpa using h)

lemma nearestBase_marks {ms : List Char} (hms : ∀ m ∈ ms, isCombiningMark m = true) :
    (∀ m ∈ ms, joiningType m = .transparent) ∨
      ∀ l, nearestBase (ms ++ l) = some .nonJoining := by
  induction ms with
  | nil => exact .inl (by simp)
  | cons m ms ih =>
    rw [forall_mem_cons] at hms
    obtain h | h := joiningType_of_isCombiningMark hms.1
    · obtain hall | hnone := ih hms.2
      · exact .inl (forall_mem_cons.mpr ⟨h, hall⟩)
      · right
        intro l
        rw [← hnone l]
        simp [nearestBase, h]
    · right
      intro l
      rw [cons_append, nearestBase_cons (by rw [h]; decide), h]

lemma joiningType_letter (h : presentationForms c = some f) :
    joiningType c = .nonJoining ∨ joiningType c = .right ∨ joiningType c = .dual :=
  (formTable_letters _ (mem_of_lookup h)).2.2

lemma isSome_of_joining (h : joiningType c = .right ∨ joiningType c = .dual) :
    (presentationForms c).isSome = true := by
  have hrange : ¬ (c.toNat < 0x0621 ∨ 0x064B ≤ c.toNat) := by
    intro houtside
    rw [joiningType, joinOf_of_outside houtside] at h
    split_ifs at h
    all_goals simp at h
  exact joinOf_letters _ (mem_range'_1.mpr (by omega)) h

lemma joinsForward_shapeChar {after : List Char} (h : presentationForms c = some f) :
    JoinsForward (shapeChar before c after) ↔
      joiningType c = .dual ∧ nextJoins after = true ∧ c.toNat ≠ 0x0649 := by
  have hforward := formTable_forward _ (mem_of_lookup h) (contextualForm before c after) (mem_forms _)
  rw [shapeChar, if_pos (by simp [h]), JoinsForward, toNat_toPresentationForm h, hforward]
  change _ ∧ joiningType c = .dual ∧ _ ↔ _
  obtain hc | hc | hc := joiningType_letter h
  · simp [hc]
  · simp [hc]
  · cases hprev : prevJoins before <;> cases hnext : nextJoins after <;>
      simp [contextualForm, hc, hprev, hnext]

lemma joinsBackward_shapeChar {after : List Char} (h : presentationForms c = some f) :
    JoinsBackward (shapeChar before c after) ↔
      (joiningType c = .right ∨ joiningType c = .dual) ∧ prevJoins before = true := by
  have hbackward := formTable_backward _ (mem_of_lookup h) (contextualForm before c after)
    (mem_forms _)
  rw [shapeChar, if_pos (by simp [h]), JoinsBackward, toNat_toPresentationForm h, hbackward]
  change _ ∧ joiningType c ≠ .nonJoining ↔ _
  obtain hc | hc | hc := joiningType_letter h
  · simp [hc]
  · have hright : (Join.right == Join.dual || Join.right == Join.causing) = false := rfl
    cases hprev : prevJoins before <;> simp [contextualForm, hc, hprev, hright]
  · cases hprev : prevJoins before <;> cases hnext : nextJoins after <;>
      simp [contextualForm, hc, hprev, hnext]

lemma not_joinsForward_lamAlefLigature (h : isLamAlef c d = true) (b : Bool) :
    ¬ JoinsForward (lamAlefLigature d b) := by
  obtain ⟨-, v, hv⟩ := isLamAlef_iff.mp h
  obtain ⟨-, -, hforms⟩ := ligatureTable_forms _ (mem_of_lookup hv)
  rw [JoinsForward, toNat_lamAlefLigature hv]
  cases b with
  | true => exact (hforms v.2 (by simp)).2.2.2.1
  | false => exact (hforms v.1 (by simp)).2.2.2.1

lemma joinsBackward_lamAlefLigature (h : isLamAlef c d = true) (b : Bool) :
    JoinsBackward (lamAlefLigature d b) ↔ b = true := by
  obtain ⟨-, v, hv⟩ := isLamAlef_iff.mp h
  obtain ⟨-, -, hforms⟩ := ligatureTable_forms _ (mem_of_lookup hv)
  rw [JoinsBackward, toNat_lamAlefLigature hv]
  cases b with
  | true => simpa using (hforms v.2 (by simp)).2.2.2.2.1.mpr rfl
  | false =>
    obtain ⟨-, -, -, -, hback, hne⟩ := hforms v.1 (by simp)
    simpa using fun h => hne (hback.mp h)

lemma joiningType_lam (h : isLamAlef c d = true) : joiningType c = .dual := by
  rw [joiningType, (isLamAlef_iff.mp h).1]
  rfl

lemma joiningType_alef (h : isLamAlef c d = true) : joiningType d = .right := by
  obtain ⟨-, v, hv⟩ := isLamAlef_iff.mp h
  exact (ligatureTable_forms _ (mem_of_lookup hv)).1

lemma transparent_or_nearestBase_marks {ms : List Char} (hms : ∀ m ∈ ms, isCombiningMark m = true) :
    (∀ m ∈ ms, joiningType m = .transparent) ∨
      (¬ ∀ m ∈ ms, joiningType m = .transparent) ∧ ∀ l, nearestBase (ms ++ l) = some .nonJoining := by
  obtain hall | hnone := nearestBase_marks hms
  · exact .inl hall
  · refine .inr ⟨fun hall => ?_, hnone⟩
    have hbase := hnone (ofNat 0x0628 :: [])
    rw [nearestBase_transparent hall, nearestBase_cons (by decide)] at hbase
    exact absurd hbase (by decide)

lemma nextJoins_marks {ms l : List Char} (hms : ∀ m ∈ ms, isCombiningMark m = true)
    (hd : joiningType d ≠ .transparent) (hcausing : joiningType d ≠ .causing) :
    nextJoins (ms ++ d :: l) = true ↔ (∀ m ∈ ms, joiningType m = .transparent) ∧
      (joiningType d = .right ∨ joiningType d = .dual) := by
  obtain hall | ⟨hnot, hnone⟩ := transparent_or_nearestBase_marks hms
  · rw [nextJoins, nearestBase_transparent hall, nearestBase_cons hd]
    simp [hcausing]
    exact fun _ => hall
  · rw [nextJoins, hnone]
    simp [hnot]

lemma prevJoins_marks {ms l : List Char} (hms : ∀ m ∈ ms, isCombiningMark m = true)
    (hd : joiningType d ≠ .transparent) (hcausing : joiningType d ≠ .causing) :
    prevJoins (ms ++ d :: l) = true ↔ (∀ m ∈ ms, joiningType m = .transparent) ∧
      joiningType d = .dual := by
  obtain hall | ⟨hnot, hnone⟩ := transparent_or_nearestBase_marks hms
  · rw [prevJoins, nearestBase_transparent hall, nearestBase_cons hd]
    simp [hcausing]
    exact fun _ => hall
  · rw [prevJoins, hnone]
    simp [hnot]

def Alone (c : Char) : Prop := c.toNat ≠ 0x0644 ∧ (ligatureTable.lookup c.toNat) = none

lemma ShapedUnit.eq_of_alone {u : List Char × Char} (h : ShapedUnit u) (hc : Alone c)
    (hmem : c ∈ u.1) : u.1 = [c] := by
  cases h with
  | ligature hpair _ =>
    obtain ⟨hlam, v, hv⟩ := isLamAlef_iff.mp hpair
    obtain rfl | rfl := mem_pair.mp hmem
    · exact absurd hlam hc.1
    · rw [hc.2] at hv
      cases hv
  | letter _ =>
    obtain rfl := mem_singleton.mp hmem
    rfl
  | other _ =>
    obtain rfl := mem_singleton.mp hmem
    rfl

lemma exists_unit {units : List (List Char × Char)} (hunits : ∀ u ∈ units, ShapedUnit u)
    (hc : Alone c) (pre : List Char) {post : List Char} (h : units.flatMap Prod.fst = pre ++ c :: post) :
    ∃ U g V, units = U ++ ([c], g) :: V ∧ U.flatMap Prod.fst = pre ∧ V.flatMap Prod.fst = post := by
  induction units generalizing pre with
  | nil => simp at h
  | cons u units ih =>
    rw [forall_mem_cons] at hunits
    rw [flatMap_cons, append_eq_append_iff] at h
    obtain ⟨as, hpre, hrest⟩ | ⟨bs, hu, hrest⟩ := h
    · obtain ⟨U, g, V, hunits', hU, hV⟩ := ih hunits.2 _ hrest
      exact ⟨u :: U, g, V, by rw [hunits']; rfl, by rw [flatMap_cons, hU, hpre], hV⟩
    · cases bs with
      | nil =>
        obtain ⟨U, g, V, hunits', hU, hV⟩ := ih hunits.2 [] hrest.symm
        exact ⟨u :: U, g, V, by rw [hunits']; rfl, by simp [hU, hu], hV⟩
      | cons b bs =>
        obtain ⟨rfl, hpost⟩ := List.cons.inj hrest
        have heq := hunits.1.eq_of_alone hc (by rw [hu]; simp)
        rw [heq] at hu
        obtain rfl : pre = [] := by
          cases pre with
          | nil => rfl
          | cons p pre => simp at hu
        obtain rfl : bs = [] := by simpa using hu
        obtain ⟨cs, g⟩ := u
        obtain rfl := heq
        exact ⟨[], g, units, rfl, rfl, by simpa using hpost.symm⟩

lemma exists_units {units : List (List Char × Char)} (hunits : ∀ u ∈ units, ShapedUnit u)
    {ms : List Char} (hms : ∀ m ∈ ms, Alone m ∧ presentationForms m = none) {post : List Char}
    (h : units.flatMap Prod.fst = ms ++ post) :
    ∃ V, units = (ms.map fun m => ([m], m)) ++ V ∧ V.flatMap Prod.fst = post := by
  induction ms generalizing units with
  | nil => exact ⟨units, rfl, h⟩
  | cons m ms ih =>
    rw [forall_mem_cons] at hms
    obtain ⟨U, g, V, rfl, hU, hV⟩ := exists_unit hunits hms.1.1 [] h
    have hnil : U = [] := by
      cases U with
      | nil => rfl
      | cons u U =>
        cases hunits u (by simp) <;> simp at hU
    subst hnil
    obtain ⟨W, rfl, hW⟩ := ih (fun u hu => hunits u (by simp [hu])) hms.2 hV
    have hg : g = m := by
      cases hunits ([m], g) (by simp) with
      | letter hform =>
        obtain ⟨f, hf, -⟩ := hform
        rw [hms.1.2] at hf
        cases hf
      | other _ => rfl
    exact ⟨W, by rw [hg]; rfl, hW⟩

lemma presentationForms_mark (h : isCombiningMark c = true) : presentationForms c = none := by
  cases hf : presentationForms c with
  | none => rfl
  | some f =>
    exfalso
    obtain ⟨hge, hle, hjoin⟩ := formTable_letters _ (mem_of_lookup hf)
    rw [isCombiningMark, Bool.or_eq_true] at h
    obtain h | h := h
    · simp only [Bool.and_eq_true, decide_eq_true_eq] at h
      omega
    · have h : joiningType c = .transparent := by simpa using h
      rw [joiningType] at h
      dsimp only at hjoin
      rw [h] at hjoin
      simp at hjoin

lemma alone_mark (h : isCombiningMark c = true) : Alone c := by
  have hnone := presentationForms_mark h
  constructor
  · intro hlam
    rw [presentationForms, hlam] at hnone
    cases hnone
  · cases hlookup : ligatureTable.lookup c.toNat with
    | none => rfl
    | some v =>
      have := (ligatureTable_forms _ (mem_of_lookup hlookup)).2.1
      dsimp only at this
      rw [show formTable.lookup c.toNat = none from hnone] at this
      cases this

lemma IsLetterUnit.backward_iff {U V : List (List Char × Char)} {v : List Char × Char}
    (h : shapeUnits before chars = U ++ v :: V) (hv : IsLetterUnit v) :
    ∃ d ds, v.1 = d :: ds ∧ (∃ f, presentationForms d = some f) ∧
      (JoinsBackward v.2 ↔ (joiningType d = .right ∨ joiningType d = .dual) ∧
        prevJoins ((U.flatMap Prod.fst).reverse ++ before) = true) := by
  obtain ⟨d, hd, hg, -⟩ | ⟨d, d', hd, hpair, hg⟩ := shapeUnits_append h
  · obtain ⟨c, hc, hforms⟩ | ⟨c, c', hc⟩ := hv
    · obtain ⟨rfl⟩ := singleton_inj.mp (hd.symm.trans hc)
      obtain ⟨f, hf⟩ := ne_none_iff_exists'.mp hforms
      exact ⟨d, [], hd, ⟨f, hf⟩, hg ▸ joinsBackward_shapeChar hf⟩
    · rw [hd] at hc
      simp at hc
  · have hdual := joiningType_lam hpair
    refine ⟨d, [d'], hd, isSome_iff_exists.mp (isSome_of_joining (.inr hdual)), ?_⟩
    rw [hg, joinsBackward_lamAlefLigature hpair]
    simp [hdual]

lemma joiningType_ne {d : Char} (h : ∃ f, presentationForms d = some f) :
    joiningType d ≠ .transparent ∧ joiningType d ≠ .causing := by
  obtain ⟨f, hf⟩ := h
  obtain h | h | h := joiningType_letter hf <;> simp [h]

lemma flatMap_marks (ms : List Char) :
    (ms.map fun m => (([m], m) : List Char × Char)).flatMap Prod.fst = ms := by
  induction ms with
  | nil => rfl
  | cons m ms ih => simpa using ih

theorem neighboursAgree_iff (line : List Char) :
    NeighboursAgree (shapeUnits [] line) ↔ ¬ MaksuraJoins line := by
  have hline := flatMap_shapeUnits [] line
  constructor
  · rintro hagree ⟨pre, ms, c, post, rfl, hms, hc⟩
    have hmarks : ∀ m ∈ ms, isCombiningMark m = true := by
      intro m hm
      simp [isCombiningMark, hms m hm]
    have hunits : ∀ u ∈ shapeUnits [] (pre ++ ofNat 0x0649 :: ms ++ c :: post), ShapedUnit u :=
      fun u hu => shapedUnit_of_mem hu
    rw [append_assoc, cons_append] at hline hagree hunits
    obtain ⟨U, g, V, hUV, hU, hV⟩ := exists_unit (c := ofNat 0x0649) hunits
      ⟨by decide, by decide⟩ pre hline
    obtain ⟨W, rfl, hW⟩ := exists_units (fun u hu => hunits u (by rw [hUV]; simp [hu]))
      (fun m hm => ⟨alone_mark (hmarks m hm), presentationForms_mark (hmarks m hm)⟩) hV
    obtain ⟨v, W, rfl⟩ : ∃ v W', W = v :: W' := by
      cases W with
      | nil => simp at hW
      | cons v W => exact ⟨v, W, rfl⟩
    have hsplit : shapeUnits [] (pre ++ ofNat 0x0649 :: (ms ++ c :: post)) =
        (U ++ ([ofNat 0x0649], g) :: ms.map fun m => ([m], m)) ++ v :: W := by
      rw [hUV]
      simp
    have hletter : IsLetterUnit v := by
      cases hunits v (by rw [hsplit]; simp) with
      | ligature _ _ => exact .inr ⟨_, _, rfl⟩
      | letter hform =>
        obtain ⟨f, hf, -⟩ := hform
        exact .inl ⟨_, rfl, by simp [hf]⟩
      | other hnone =>
        obtain ⟨rfl, -⟩ := List.cons.inj hW
        rw [isSome_iff_exists.mp (isSome_of_joining hc) |>.choose_spec] at hnone
        cases hnone
    obtain ⟨d, ds, hd, -, hback⟩ := hletter.backward_iff hsplit
    obtain rfl : d = c := by
      rw [flatMap_cons, hd] at hW
      exact (List.cons.inj hW).1
    have hforward : ¬ JoinsForward g := by
      obtain ⟨k, hk, hg, -⟩ | ⟨k, k', hk, -⟩ := shapeUnits_append hUV
      · obtain ⟨rfl⟩ := singleton_inj.mp hk
        dsimp only at hg
        rw [hg, joinsForward_shapeChar (c := ofNat 0x0649) rfl]
        exact fun h => h.2.2 rfl
      · simp at hk
    apply hforward
    rw [hagree U ([ofNat 0x0649], g) ms v W hsplit hmarks (.inl ⟨_, rfl, by decide⟩) hletter, hback]
    refine ⟨hc, ?_⟩
    rw [flatMap_append, flatMap_cons, flatMap_marks]
    simp only [reverse_append, append_assoc, reverse_cons, append_nil,
      singleton_append]
    rw [prevJoins_marks _ (by decide) (by decide)]
    · exact ⟨fun m hm => hms m (mem_reverse.mp hm), rfl⟩
    · exact fun m hm => hmarks m (mem_reverse.mp hm)
  · intro hmaksura U u ms v V hUV hms hu hv
    have hsplit : shapeUnits [] line = (U ++ u :: ms.map fun m => ([m], m)) ++ v :: V := by
      rw [hUV]
    have hsplit' : shapeUnits [] line = U ++ u :: ((ms.map fun m => ([m], m)) ++ v :: V) := by
      rw [hUV]
      simp
    have hreverse : ∀ m ∈ ms.reverse, isCombiningMark m = true :=
      fun m hm => hms m (mem_reverse.mp hm)
    obtain ⟨d, ds, hd, hdforms, hback⟩ := hv.backward_iff hsplit
    obtain ⟨hdt, hdc⟩ := joiningType_ne hdforms
    rw [hback, flatMap_append, flatMap_cons, flatMap_marks]
    obtain ⟨c, hc, hg, -⟩ | ⟨c, c', hc, hpair, hg⟩ := shapeUnits_append hsplit'
    · have hcforms : ∃ f, presentationForms c = some f := by
        obtain ⟨k, hk, hforms⟩ | ⟨k, k', hk⟩ := hu
        · obtain ⟨rfl⟩ := singleton_inj.mp (hc.symm.trans hk)
          exact ne_none_iff_exists'.mp hforms
        · rw [hc] at hk
          simp at hk
      obtain ⟨hct, hcc⟩ := joiningType_ne hcforms
      obtain ⟨f, hf⟩ := hcforms
      rw [hg, joinsForward_shapeChar hf, flatMap_append, flatMap_marks, flatMap_cons, hd, hc,
        cons_append, nextJoins_marks hms hdt hdc]
      simp only [reverse_append, append_assoc, reverse_cons, append_nil,
        singleton_append]
      rw [prevJoins_marks hreverse hct hcc]
      simp only [mem_reverse]
      constructor
      · rintro ⟨hdual, ⟨hall, hjoin⟩, -⟩
        exact ⟨hjoin, hall, hdual⟩
      · rintro ⟨hjoin, hall, hdual⟩
        refine ⟨hdual, ⟨hall, hjoin⟩, fun hne => hmaksura ?_⟩
        refine ⟨U.flatMap Prod.fst, ms, d, ds ++ V.flatMap Prod.fst, ?_, hall, hjoin⟩
        rw [← hline, hsplit', ← hne, ofNat_toNat]
        simp only [flatMap_append, flatMap_cons, hc, hd, flatMap_marks, append_assoc,
          cons_append, nil_append]
    · rw [hg, hc]
      simp only [reverse_append, append_assoc, reverse_cons, append_nil,
        nil_append, cons_append]
      have halef := joiningType_alef hpair
      rw [prevJoins_marks hreverse (by rw [halef]; decide) (by rw [halef]; decide), halef]
      simp [not_joinsForward_lamAlefLigature hpair]

end TouchHle.Font
