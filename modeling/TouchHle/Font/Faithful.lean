import TouchHle.Font.Display

namespace TouchHle.Font

open Lib List Cluster

section

variable (isAlphabetic : Char → Bool)

def displayOrder (line : List Char) : List ℕ :=
  if line.any fun c => isArabic c.toNat then visualOrder isAlphabetic (shape line)
  else List.range (clusters isAlphabetic (shape line)).length

def Cluster.IsNumber (cluster : Cluster) : Prop :=
  ∃ c ms, cluster.chars = c :: ms ∧ isDigit c = true

def clustersAt (line : List Char) (order : List ℕ) : List Char :=
  order.flatMap fun k => (((clusters isAlphabetic line)[k]?).map Cluster.chars).getD []

structure Faithful (line : List Char) : Prop where
  /-- Nothing but letters and ligatures is changed, and these into their own forms. -/
  shaped : (shapeUnits [] line).flatMap Prod.fst = line ∧ ∀ u ∈ shapeUnits [] line, ShapedUnit u
  /-- No pair is left without its ligature. -/
  pairs : ∀ U c g v V, shapeUnits [] line = U ++ ([c], g) :: v :: V →
    ∀ d ds, v.1 = d :: ds → isLamAlef c d = false
  agree : NeighboursAgree (shapeUnits [] line)
  /-- Every mark follows its base, and each base with its marks is displayed once. -/
  clusters : (clusters isAlphabetic (shape line)).flatMap Cluster.chars = shape line ∧
    ∀ cluster ∈ clusters isAlphabetic (shape line), ∃ c ms, cluster.Ok isAlphabetic c ms
  displayed : shapeLineForDisplay isAlphabetic line =
    clustersAt isAlphabetic (shape line) (displayOrder isAlphabetic line)
  once : (displayOrder isAlphabetic line).Perm
    (List.range (Font.clusters isAlphabetic (shape line)).length)
  perm : (shapeLineForDisplay isAlphabetic line).Perm (shape line)
  numbers : ∀ i j, i < j → (∀ k, i ≤ k → k ≤ j → ∃ cluster,
    (Font.clusters isAlphabetic (shape line))[k]? = some cluster ∧ cluster.IsNumber) →
      Before (displayOrder isAlphabetic line) i j
  ltr : ∀ i j, i < j → (∀ k, i ≤ k → k ≤ j →
    (resolvedDirections isAlphabetic (shape line))[k]? = some .ltr) →
      Before (displayOrder isAlphabetic line) i j
  ruleL2 : ∀ levels, resolveOrder levels =
    (Font.ruleL2 (levels.zip (List.range levels.length))).map Prod.snd
  untouched : (∀ c ∈ line, isArabic c.toNat = false) → shapeLineForDisplay isAlphabetic line = line

def Adjacent (line : List Char) (d d' : Char) : Prop :=
  ∃ pre ms post, line = pre ++ d :: ms ++ d' :: post ∧ (∀ m ∈ ms, isCombiningMark m = true) ∧
    isDigit d = true ∧ isDigit d' = true

def NumbersKept (line : List Char) : Prop :=
  ∀ d d', Adjacent line d d' →
    ¬ (isArabicDigit d.toNat = true ∧ isArabicDigit d'.toNat = true) ∧
    (baseOf isAlphabetic line = .rtl →
      ¬ (isArabicDigit d.toNat = true ∨ isArabicDigit d'.toNat = true))

end

variable {isAlphabetic : Char → Bool} {c d : Char} {line : List Char} {i j : ℕ}

lemma length_resolvedDirections (cs : List Char) :
    (resolvedDirections isAlphabetic cs).length = (clusters isAlphabetic cs).length := by
  simp [resolvedDirections, resolveFrom_length]

lemma visualOrder_perm (cs : List Char) : (visualOrder isAlphabetic cs).Perm
    (List.range (clusters isAlphabetic cs).length) := by
  have h := resolveOrder_perm ((resolvedDirections isAlphabetic cs).map
    (level (baseDirection ((clusters isAlphabetic cs).map dir))))
  rwa [length_map, length_resolvedDirections] at h

lemma displayOrder_perm (isAlphabetic : Char → Bool) (line : List Char) : (displayOrder isAlphabetic line).Perm
    (List.range (clusters isAlphabetic (shape line)).length) := by
  unfold displayOrder
  split_ifs
  · exact visualOrder_perm _
  · exact .refl _

lemma clustersAt_range (cs : List Char) :
    clustersAt isAlphabetic cs (List.range (clusters isAlphabetic cs).length) = cs := by
  have h : (List.range (clusters isAlphabetic cs).length).map (fun k =>
      (((clusters isAlphabetic cs)[k]?).map chars).getD []) =
      (clusters isAlphabetic cs).map chars := by
    apply ext_getElem
    · simp
    · intro k hk hk'
      simp at hk ⊢
      simp [hk]
  rw [clustersAt, flatMap_def, h, ← flatMap_def, clusters_chars]

lemma clustersAt_perm (line : List Char) :
    (clustersAt isAlphabetic (shape line) (displayOrder isAlphabetic line)).Perm (shape line) := by
  have h := (displayOrder_perm isAlphabetic line).flatMap_right fun k =>
    (((clusters isAlphabetic (shape line))[k]?).map chars).getD []
  exact h.trans (.of_eq (clustersAt_range (shape line)))

lemma isArabic_of_presentationForms {f : Forms} (h : presentationForms c = some f) :
    isArabic c.toNat = true := by
  obtain ⟨hge, hle, -⟩ := formTable_letters _ (mem_of_lookup h)
  simp only [isArabic, Bool.or_eq_true, Bool.and_eq_true, decide_eq_true_eq]
  omega

lemma shape_eq_self (h : ∀ c ∈ line, isArabic c.toNat = false) : shape line = line := by
  have hunits : ∀ u ∈ shapeUnits [] line, u.1 = [u.2] := by
    intro u hu
    have hmem : ∀ c ∈ u.1, c ∈ line := by
      intro c hc
      rw [← flatMap_shapeUnits [] line]
      exact mem_flatMap.mpr ⟨u, hu, hc⟩
    cases shapedUnit_of_mem hu with
    | ligature hpair _ =>
      obtain ⟨f, hf⟩ := presentationForms_lam hpair
      have := isArabic_of_presentationForms hf
      rw [h _ (hmem _ (by simp))] at this
      cases this
    | letter hg =>
      obtain ⟨f, hf, -⟩ := hg
      have := isArabic_of_presentationForms hf
      rw [h _ (hmem _ (by simp))] at this
      cases this
    | other _ => rfl
  conv_rhs => rw [← flatMap_shapeUnits [] line]
  rw [shape]
  revert hunits
  induction shapeUnits [] line with
  | nil => exact fun _ => rfl
  | cons u units ih =>
    intro hunits
    rw [forall_mem_cons] at hunits
    rw [map_cons, flatMap_cons, hunits.1, ih hunits.2]
    rfl

lemma shapeLineForDisplay_eq (line : List Char) : shapeLineForDisplay isAlphabetic line =
    clustersAt isAlphabetic (shape line) (displayOrder isAlphabetic line) := by
  unfold shapeLineForDisplay displayOrder
  split_ifs with h
  · rfl
  · rw [clustersAt_range, shape_eq_self]
    simpa using h

lemma before_range (hij : i < j) {n : ℕ} (hj : j < n) : Before (List.range n) i j := by
  have hnone : reverseMarked [] (List.replicate n false) (List.range n) = List.range n :=
    reverseMarked_falses (by simp) (by simp)
  rw [← hnone]
  have hi : (List.range n)[i]? = some i := by simp [hij.trans hj]
  refine (before_reverseMarked [] (by simp) hij hi (by simp [hj])).2 ⟨i, le_rfl, hij.le, ?_⟩
  simp [hij.trans hj]

lemma directionClass_digit (h : isDigit c = true) : directionClass isAlphabetic c =
    if isArabicDigit c.toNat = true then .rtl else .ltr := by
  have hrtl : isRtlStrong c.toNat = isArabicDigit c.toNat := by
    rw [Bool.eq_iff_iff]
    simp only [isDigit, isAsciiDigit, isArabicDigit, isRtlStrong, Bool.or_eq_true, Bool.and_eq_true,
      decide_eq_true_eq] at h ⊢
    omega
  rw [directionClass, hrtl]
  split_ifs with harabic hother
  · rfl
  · rfl
  · exfalso
    simp only [isDigit, Bool.or_eq_true] at h
    simp only [Bool.or_eq_true, not_or] at hother
    tauto

lemma digit_ne_mark (h : isDigit c = true) : isCombiningMark c = false := by
  have hrange : (0x30 ≤ c.toNat ∧ c.toNat ≤ 0x39) ∨ (0x0660 ≤ c.toNat ∧ c.toNat ≤ 0x0669) ∨
      (0x06F0 ≤ c.toNat ∧ c.toNat ≤ 0x06F9) := by
    simpa [isDigit, isAsciiDigit, isArabicDigit] using h
  have hjoin : joiningType c = .nonJoining := by
    rw [joiningType, joinOf_of_outside (by omega), if_neg, if_neg]
    · omega
    · simp only [isTransparent, Bool.or_eq_true, Bool.and_eq_true, decide_eq_true_eq, beq_iff_eq]
      omega
  have hnot : ¬ (0x0300 ≤ c.toNat ∧ c.toNat ≤ 0x036F) := by omega
  simp only [isCombiningMark, hjoin]
  simpa using hnot

lemma plain_of_digit (h : isDigit c = true) :
    ¬ IsGlyph c ∧ Alone c ∧ presentationForms c = none := by
  have hrange : (0x30 ≤ c.toNat ∧ c.toNat ≤ 0x39) ∨ (0x0660 ≤ c.toNat ∧ c.toNat ≤ 0x0669) ∨
      (0x06F0 ≤ c.toNat ∧ c.toNat ≤ 0x06F9) := by
    simpa [isDigit, isAsciiDigit, isArabicDigit] using h
  refine ⟨fun hglyph => ?_, ⟨by omega, ?_⟩, ?_⟩
  · obtain ⟨hge, -⟩ := hglyph
    omega
  · cases hlookup : ligatureTable.lookup c.toNat with
    | none => rfl
    | some v =>
      exfalso
      obtain ⟨hlt, hgt⟩ := ligatureTable_range _ (mem_of_lookup hlookup)
      dsimp only at hlt hgt
      omega
  · cases hforms : presentationForms c with
    | none => rfl
    | some f =>
      exfalso
      obtain ⟨hlt, hgt, -⟩ := formTable_letters _ (mem_of_lookup hforms)
      dsimp only at hlt hgt
      omega

lemma plain_of_mark (h : isCombiningMark c = true) :
    ¬ IsGlyph c ∧ Alone c ∧ presentationForms c = none := by
  refine ⟨fun hglyph => ?_, alone_mark h, presentationForms_mark h⟩
  rw [hglyph.not_mark] at h
  cases h

lemma ShapedUnit.eq_of_not_isGlyph {u : List Char × Char} (h : ShapedUnit u) (hg : ¬ IsGlyph u.2) :
    u.1 = [u.2] := by
  cases h with
  | ligature _ hform => exact absurd hform.isGlyph hg
  | letter hform => exact absurd hform.isGlyph hg
  | other _ => rfl

lemma flatMap_eq_of_map_eq {units : List (List Char × Char)} (hunits : ∀ u ∈ units, ShapedUnit u)
    {pre cs post : List Char} (hcs : ∀ c ∈ cs, ¬ IsGlyph c)
    (h : units.map Prod.snd = pre ++ cs ++ post) :
    ∃ pre' post', units.flatMap Prod.fst = pre' ++ cs ++ post' := by
  obtain ⟨UC, V, rfl, hUC, rfl⟩ := map_eq_append_iff.mp h
  obtain ⟨U, C, rfl, rfl, rfl⟩ := map_eq_append_iff.mp hUC
  refine ⟨U.flatMap Prod.fst, V.flatMap Prod.fst, ?_⟩
  have hC : C.flatMap Prod.fst = C.map Prod.snd := by
    have hC : ∀ u ∈ C, u.1 = [u.2] := fun u hu =>
      (hunits u (by simp [hu])).eq_of_not_isGlyph (hcs _ (mem_map_of_mem hu))
    clear hunits hUC h hcs
    induction C with
    | nil => rfl
    | cons u C ih =>
      rw [forall_mem_cons] at hC
      rw [flatMap_cons, map_cons, hC.1, ih hC.2]
      rfl
  rw [flatMap_append, flatMap_append, hC]

theorem adjacent_shape_iff {d' : Char} (line : List Char) :
    Adjacent (shape line) d d' ↔ Adjacent line d d' := by
  have hunits : ∀ u ∈ shapeUnits [] line, ShapedUnit u := fun u hu => shapedUnit_of_mem hu
  have hplain : ∀ {ms : List Char}, (∀ m ∈ ms, isCombiningMark m = true) → isDigit d = true →
      isDigit d' = true → ∀ c ∈ d :: ms ++ [d'], ¬ IsGlyph c ∧ Alone c ∧ presentationForms c = none := by
    intro ms hms hd hd' c hc
    rw [cons_append, mem_cons, mem_append, mem_singleton] at hc
    obtain rfl | hc | rfl := hc
    · exact plain_of_digit hd
    · exact plain_of_mark (hms c hc)
    · exact plain_of_digit hd'
  constructor
  · rintro ⟨pre, ms, post, h, hms, hd, hd'⟩
    have h' : (shapeUnits [] line).map Prod.snd = pre ++ (d :: ms ++ [d']) ++ post := by
      rw [← shape, h]
      simp
    obtain ⟨pre', post', hline⟩ := flatMap_eq_of_map_eq hunits
      (fun c hc => (hplain hms hd hd' c hc).1) h'
    rw [flatMap_shapeUnits] at hline
    exact ⟨pre', ms, post', by rw [hline]; simp, hms, hd, hd'⟩
  · rintro ⟨pre, ms, post, h, hms, hd, hd'⟩
    have hline := (flatMap_shapeUnits [] line).trans h
    have hline' : (shapeUnits [] line).flatMap Prod.fst = pre ++ d :: (ms ++ d' :: post) := by
      rw [hline]
      simp
    obtain ⟨U, g, V, hUV, -, hV⟩ := exists_unit hunits (plain_of_digit hd).2.1 pre hline'
    have hrest : ((([d], g) :: V : List (List Char × Char))).flatMap Prod.fst =
        (d :: ms ++ [d']) ++ post := by
      rw [flatMap_cons, hV]
      simp
    obtain ⟨W, hW, -⟩ := exists_units
      (fun u hu => hunits u (by rw [hUV]; exact mem_append_right _ hu))
      (fun c hc => (hplain hms hd hd' c hc).2) hrest
    refine ⟨U.map Prod.snd, ms, W.map Prod.snd, ?_, hms, hd, hd'⟩
    rw [shape, hUV, hW]
    simp [Function.comp_def]

lemma adjacent_of_clusters {cs ms ms' : List Char} {d' : Char} {k : ℕ} {a b : Cluster}
    (ha : (clusters isAlphabetic cs)[k]? = some a) (hb : (clusters isAlphabetic cs)[k + 1]? = some b)
    (hac : a.Ok isAlphabetic d ms) (hbc : b.Ok isAlphabetic d' ms') (hd : isDigit d = true)
    (hd' : isDigit d' = true) : Adjacent cs d d' := by
  obtain ⟨hk, rfl⟩ := List.getElem?_eq_some_iff.mp ha
  obtain ⟨hk', rfl⟩ := List.getElem?_eq_some_iff.mp hb
  have hsplit : clusters isAlphabetic cs = (clusters isAlphabetic cs).take k ++
      (clusters isAlphabetic cs)[k] :: (clusters isAlphabetic cs)[k + 1] ::
        (clusters isAlphabetic cs).drop (k + 1 + 1) := by
    rw [← drop_eq_getElem_cons hk', ← drop_eq_getElem_cons hk, take_append_drop]
  refine ⟨((clusters isAlphabetic cs).take k).flatMap chars, ms,
    ms' ++ ((clusters isAlphabetic cs).drop (k + 1 + 1)).flatMap chars, ?_, hac.marks, hd, hd'⟩
  have hchars : (clusters isAlphabetic cs).flatMap chars = cs := clusters_chars cs
  conv_lhs => rw [← hchars, hsplit]
  rw [flatMap_append, flatMap_cons, flatMap_cons, hac.chars, hbc.chars]
  simp

lemma clusters_of_adjacent {cs : List Char} {d' : Char} (h : Adjacent cs d d') : ∃ k a b ms ms',
    (clusters isAlphabetic cs)[k]? = some a ∧ (clusters isAlphabetic cs)[k + 1]? = some b ∧
      a.Ok isAlphabetic d ms ∧ b.Ok isAlphabetic d' ms' := by
  obtain ⟨pre, ms, post, rfl, hms, hd, hd'⟩ := h
  obtain ⟨ms', rest, hrest⟩ : ∃ ms' rest,
      clustersFrom isAlphabetic ⟨directionClass isAlphabetic d', [d']⟩ post =
        ⟨directionClass isAlphabetic d', [d'] ++ ms'⟩ :: rest :=
    exists_clustersFrom ⟨directionClass isAlphabetic d', [d']⟩ post
  have hsplit : clusters isAlphabetic (pre ++ d :: ms ++ d' :: post) = clusters isAlphabetic pre ++
      ⟨directionClass isAlphabetic d, d :: ms⟩ :: ⟨directionClass isAlphabetic d', d' :: ms'⟩ :: rest := by
    rw [append_assoc, cons_append, clusters_append _ (digit_ne_mark hd),
      clustersFrom_marks _ hms, clustersFrom, digit_ne_mark hd', hrest]
    simp
  have hmem : ∀ cluster ∈ clusters isAlphabetic (pre ++ d :: ms ++ d' :: post),
      ∃ c ms, cluster.Ok isAlphabetic c ms := fun cluster h => clusters_ok h
  have hms' : ∀ m ∈ ms', isCombiningMark m = true := by
    obtain ⟨c, ms'', hok⟩ := hmem ⟨directionClass isAlphabetic d', d' :: ms'⟩ (by rw [hsplit]; simp)
    obtain ⟨-, rfl⟩ := List.cons.inj hok.chars
    exact hok.marks
  refine ⟨(clusters isAlphabetic pre).length, ⟨directionClass isAlphabetic d, d :: ms⟩,
    ⟨directionClass isAlphabetic d', d' :: ms'⟩, ms, ms', ?_, ?_, ⟨rfl, hms, rfl⟩, ⟨rfl, hms', rfl⟩⟩
  · rw [hsplit, getElem?_append_right le_rfl]
    simp
  · rw [hsplit, getElem?_append_right (Nat.le_succ _)]
    simp

lemma resolved_number {cs ms : List Char} {k : ℕ} {a : Cluster}
    (ha : (clusters isAlphabetic cs)[k]? = some a) (hok : a.Ok isAlphabetic d ms)
    (hd : isDigit d = true) : (resolvedDirections isAlphabetic cs)[k]? =
      some (if isArabicDigit d.toNat = true then .rtl else .ltr) := by
  have hclass : directionClass isAlphabetic d = _ := directionClass_digit hd
  rw [← hclass]
  apply resolveFrom_getElem?
  · rw [getElem?_map, ha, Option.map_some, hok.dir]
  · rw [directionClass_digit hd]
    split_ifs <;> decide

lemma baseOf_ne_neutral (cs : List Char) : baseOf isAlphabetic cs ≠ .neutral :=
  baseDirection_ne_neutral _

lemma visualOrder_eq (cs : List Char) : visualOrder isAlphabetic cs =
    resolveOrder ((resolvedDirections isAlphabetic cs).map (level (baseOf isAlphabetic cs))) := rfl

lemma before_numbers (hkept : NumbersKept isAlphabetic line) (hij : i < j)
    (hnumbers : ∀ k, i ≤ k → k ≤ j → ∃ cluster,
      (clusters isAlphabetic (shape line))[k]? = some cluster ∧ cluster.IsNumber) :
    Before (visualOrder isAlphabetic (shape line)) i j := by
  have hdigit : ∀ k, i ≤ k → k ≤ j → ∃ a d ms, (clusters isAlphabetic (shape line))[k]? = some a ∧
      a.Ok isAlphabetic d ms ∧ isDigit d = true := by
    intro k hik hkj
    obtain ⟨a, ha, c, ms, hchars, hc⟩ := hnumbers k hik hkj
    obtain ⟨d, ms', hok⟩ := clusters_ok (mem_of_getElem? ha)
    obtain ⟨rfl, -⟩ := List.cons.inj (hok.chars.symm.trans hchars)
    exact ⟨a, d, ms', ha, hok, hc⟩
  have hj : j < (resolvedDirections isAlphabetic (shape line)).length := by
    obtain ⟨a, _, _, ha, -⟩ := hdigit j hij.le le_rfl
    rw [length_resolvedDirections]
    exact (List.getElem?_eq_some_iff.mp ha).1
  have hpair : ∀ k, i ≤ k → k < j → ∃ d d',
      (resolvedDirections isAlphabetic (shape line))[k]? =
        some (if isArabicDigit d.toNat = true then .rtl else .ltr) ∧
      (resolvedDirections isAlphabetic (shape line))[k + 1]? =
        some (if isArabicDigit d'.toNat = true then .rtl else .ltr) ∧ Adjacent line d d' := by
    intro k hik hkj
    obtain ⟨a, d, ms, ha, hok, hd⟩ := hdigit k hik hkj.le
    obtain ⟨b, d', ms', hb, hok', hd'⟩ := hdigit (k + 1) (by omega) hkj
    exact ⟨d, d', resolved_number ha hok hd, resolved_number hb hok' hd',
      (adjacent_shape_iff line).mp (adjacent_of_clusters ha hb hok hok' hd hd')⟩
  have hbase : baseOf isAlphabetic (shape line) = baseOf isAlphabetic line := baseOf_shape line
  rw [visualOrder_eq]
  apply (before_resolveOrder (baseOf_ne_neutral _) hij hj).1
  cases hdir : baseOf isAlphabetic (shape line) with
  | neutral => exact absurd hdir (baseOf_ne_neutral _)
  | ltr =>
    obtain ⟨d, d', hd, hd', hadjacent⟩ := hpair i le_rfl hij
    have hnot := (hkept d d' hadjacent).1
    left
    refine ⟨?_, rfl⟩
    by_cases hfirst : isArabicDigit d.toNat = true
    · refine ⟨i + 1, Nat.le_succ _, hij, ?_⟩
      rw [hd', if_neg fun hsecond => hnot ⟨hfirst, hsecond⟩]
    · exact ⟨i, le_rfl, hij.le, by rw [hd, if_neg hfirst]⟩
  | rtl =>
    right
    refine ⟨fun k hik hkj => ?_, rfl⟩
    obtain rfl | hkj := Nat.eq_or_lt_of_le hkj
    · obtain ⟨d, d', -, hd', hadjacent⟩ := hpair (k - 1) (by omega) (by omega)
      have hnot := (hkept d d' hadjacent).2 (hbase.symm.trans hdir)
      rw [show k - 1 + 1 = k by omega] at hd'
      rw [hd', if_neg fun h => hnot (.inr h)]
    · obtain ⟨d, d', hd, -, hadjacent⟩ := hpair k hik hkj
      have hnot := (hkept d d' hadjacent).2 (hbase.symm.trans hdir)
      rw [hd, if_neg fun h => hnot (.inl h)]

lemma numbersKept_of_before (hnumbers : ∀ i j, i < j → (∀ k, i ≤ k → k ≤ j → ∃ cluster,
      (clusters isAlphabetic (shape line))[k]? = some cluster ∧ cluster.IsNumber) →
        Before (displayOrder isAlphabetic line) i j) : NumbersKept isAlphabetic line := by
  intro d d' hadjacent
  by_contra hnot
  have hturned : (isArabicDigit d.toNat = true ∧ isArabicDigit d'.toNat = true) ∨
      (baseOf isAlphabetic line = .rtl ∧
        (isArabicDigit d.toNat = true ∨ isArabicDigit d'.toNat = true)) := by
    tauto
  obtain ⟨pre, ms, post, hline, -, hd, hd'⟩ := id hadjacent
  have harabic : (line.any fun c => isArabic c.toNat) = true := by
    have hdigit : ∀ c : Char, isArabicDigit c.toNat = true → isArabic c.toNat = true := by
      intro c hc
      simp only [isArabicDigit, isArabic, Bool.or_eq_true, Bool.and_eq_true, decide_eq_true_eq] at hc ⊢
      omega
    rw [any_eq_true]
    have hsome : isArabicDigit d.toNat = true ∨ isArabicDigit d'.toNat = true := by
      obtain ⟨h, -⟩ | ⟨-, h⟩ := hturned
      · exact .inl h
      · exact h
    obtain h | h := hsome
    · exact ⟨d, by rw [hline]; simp, hdigit d h⟩
    · exact ⟨d', by rw [hline]; simp, hdigit d' h⟩
  obtain ⟨k, a, b, ms, ms', ha, hb, hok, hok'⟩ :
      ∃ k a b ms ms', (clusters isAlphabetic (shape line))[k]? = some a ∧
        (clusters isAlphabetic (shape line))[k + 1]? = some b ∧ a.Ok isAlphabetic d ms ∧
          b.Ok isAlphabetic d' ms' :=
    clusters_of_adjacent ((adjacent_shape_iff line).mpr hadjacent)
  have hbefore := hnumbers k (k + 1) (Nat.lt_succ_self k) (by
    intro l hkl hlk
    obtain rfl | rfl : l = k ∨ l = k + 1 := by omega
    · exact ⟨a, ha, d, ms, hok.chars, hd⟩
    · exact ⟨b, hb, d', ms', hok'.chars, hd'⟩)
  rw [displayOrder, if_pos harabic, visualOrder_eq] at hbefore
  have hfirst := resolved_number ha hok hd
  have hsecond := resolved_number hb hok' hd'
  have hlt : k + 1 < (resolvedDirections isAlphabetic (shape line)).length :=
    (List.getElem?_eq_some_iff.mp hsecond).1
  have hnodup : (resolveOrder ((resolvedDirections isAlphabetic (shape line)).map
      (level (baseOf isAlphabetic (shape line))))).Nodup :=
    (resolveOrder_perm _).nodup_iff.mpr nodup_range
  refine hbefore.asymm hnodup ((before_resolveOrder (baseOf_ne_neutral _) (Nat.lt_succ_self k) hlt).2 ?_)
  have hbase : baseOf isAlphabetic (shape line) = baseOf isAlphabetic line := baseOf_shape line
  cases hdir : baseOf isAlphabetic (shape line) with
  | neutral => exact absurd hdir (baseOf_ne_neutral _)
  | ltr =>
    obtain ⟨h, h'⟩ : isArabicDigit d.toNat = true ∧ isArabicDigit d'.toNat = true := by
      refine hturned.resolve_right fun h => ?_
      rw [← hbase, hdir] at h
      cases h.1
    left
    refine ⟨fun l hkl hlk => ?_, rfl⟩
    obtain rfl | rfl : l = k ∨ l = k + 1 := by omega
    · rw [hfirst, if_pos h]
    · rw [hsecond, if_pos h']
  | rtl =>
    right
    have hsome : isArabicDigit d.toNat = true ∨ isArabicDigit d'.toNat = true := by
      obtain ⟨h, -⟩ | ⟨-, h⟩ := hturned
      · exact .inl h
      · exact h
    obtain h | h := hsome
    · exact ⟨⟨k, le_rfl, Nat.le_succ k, by rw [hfirst, if_pos h]⟩, rfl⟩
    · exact ⟨⟨k + 1, Nat.le_succ k, le_rfl, by rw [hsecond, if_pos h]⟩, rfl⟩

lemma before_ltr (hij : i < j) (hltr : ∀ k, i ≤ k → k ≤ j →
    (resolvedDirections isAlphabetic (shape line))[k]? = some .ltr) :
    Before (displayOrder isAlphabetic line) i j := by
  have hj : j < (resolvedDirections isAlphabetic (shape line)).length :=
    (List.getElem?_eq_some_iff.mp (hltr j hij.le le_rfl)).1
  unfold displayOrder
  split_ifs
  · rw [visualOrder_eq]
    apply (before_resolveOrder (baseOf_ne_neutral _) hij hj).1
    cases hdir : baseOf isAlphabetic (shape line) with
    | neutral => exact absurd hdir (baseOf_ne_neutral _)
    | ltr => exact .inl ⟨⟨i, le_rfl, hij.le, hltr i le_rfl hij.le⟩, rfl⟩
    | rtl => exact .inr ⟨hltr, rfl⟩
  · rw [length_resolvedDirections] at hj
    exact before_range hij hj

end TouchHle.Font
