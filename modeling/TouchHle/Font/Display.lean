import TouchHle.Font.Levels
import TouchHle.Font.Shaping

namespace TouchHle.Font

open Lib List Option

variable {isAlphabetic : Char → Bool} {c d : Char} {cs ms line : List Char} {cluster : Cluster}

def isDigit (c : Char) : Bool := isAsciiDigit c.toNat || isArabicDigit c.toNat

def nonMarks (cs : List Char) : List Char := cs.filter fun c => !isCombiningMark c

structure Cluster.Ok (isAlphabetic : Char → Bool) (cluster : Cluster) (c : Char) (ms : List Char) :
    Prop where
  chars : cluster.chars = c :: ms
  marks : ∀ m ∈ ms, isCombiningMark m = true
  dir : cluster.dir = directionClass isAlphabetic c

lemma clustersFrom_dir (last : Cluster) (cs : List Char) :
    (clustersFrom isAlphabetic last cs).map Cluster.dir =
      last.dir :: (nonMarks cs).map (directionClass isAlphabetic) := by
  induction cs generalizing last with
  | nil => rfl
  | cons c cs ih =>
    rw [clustersFrom]
    split_ifs with h
    · rw [ih]
      simp [nonMarks, h]
    · rw [map_cons, ih]
      simp [nonMarks, h]

lemma clustersFrom_chars (last : Cluster) (cs : List Char) :
    (clustersFrom isAlphabetic last cs).flatMap Cluster.chars = last.chars ++ cs := by
  induction cs generalizing last with
  | nil => simp [clustersFrom]
  | cons c cs ih =>
    rw [clustersFrom]
    split_ifs with h
    · simp [ih]
    · simp [ih]

lemma clusters_chars (cs : List Char) : (clusters isAlphabetic cs).flatMap Cluster.chars = cs := by
  cases cs with
  | nil => rfl
  | cons c cs => exact clustersFrom_chars _ cs

lemma clustersFrom_ok {last : Cluster} (hlast : last.Ok isAlphabetic c ms) (cs : List Char) :
    ∀ cluster ∈ clustersFrom isAlphabetic last cs, ∃ c ms, cluster.Ok isAlphabetic c ms := by
  induction cs generalizing last c ms with
  | nil => simpa [clustersFrom] using ⟨c, ms, hlast⟩
  | cons d cs ih =>
    rw [clustersFrom]
    split_ifs with h
    · have hnew : Cluster.Ok isAlphabetic { last with chars := last.chars ++ [d] } c (ms ++ [d]) := by
        refine ⟨by simp [hlast.chars], ?_, hlast.dir⟩
        simpa [or_imp, forall_and, h] using hlast.marks
      exact ih hnew
    · rw [forall_mem_cons]
      exact ⟨⟨c, ms, hlast⟩, ih ⟨rfl, by simp, rfl⟩⟩

theorem clusters_ok (h : cluster ∈ clusters isAlphabetic cs) :
    ∃ c ms, cluster.Ok isAlphabetic c ms := by
  cases cs with
  | nil => cases h
  | cons c cs => exact clustersFrom_ok ⟨rfl, by simp, rfl⟩ cs cluster h

lemma clustersFrom_append (last : Cluster) (pre : List Char) (hc : isCombiningMark c = false)
    (post : List Char) : clustersFrom isAlphabetic last (pre ++ c :: post) =
      clustersFrom isAlphabetic last pre ++
        clustersFrom isAlphabetic ⟨directionClass isAlphabetic c, [c]⟩ post := by
  induction pre generalizing last with
  | nil => simp [clustersFrom, hc]
  | cons d pre ih =>
    rw [cons_append, clustersFrom, clustersFrom]
    split_ifs with h
    · exact ih _
    · rw [ih, cons_append]

lemma clustersFrom_marks (last : Cluster) (hms : ∀ m ∈ ms, isCombiningMark m = true)
    (post : List Char) : clustersFrom isAlphabetic last (ms ++ post) =
      clustersFrom isAlphabetic { last with chars := last.chars ++ ms } post := by
  induction ms generalizing last with
  | nil => simp
  | cons m ms ih =>
    rw [forall_mem_cons] at hms
    rw [cons_append, clustersFrom, if_pos hms.1, ih _ hms.2]
    simp

lemma clusters_append (pre : List Char) (hc : isCombiningMark c = false) (post : List Char) :
    clusters isAlphabetic (pre ++ c :: post) = clusters isAlphabetic pre ++
      clustersFrom isAlphabetic ⟨directionClass isAlphabetic c, [c]⟩ post := by
  cases pre with
  | nil => rfl
  | cons d pre => exact clustersFrom_append _ pre hc post

lemma exists_clustersFrom (last : Cluster) (cs : List Char) : ∃ ms rest,
    clustersFrom isAlphabetic last cs = { last with chars := last.chars ++ ms } :: rest := by
  induction cs generalizing last with
  | nil => exact ⟨[], [], by simp [clustersFrom]⟩
  | cons c cs ih =>
    rw [clustersFrom]
    split_ifs with h
    · obtain ⟨ms, rest, hrest⟩ := ih { last with chars := last.chars ++ [c] }
      exact ⟨c :: ms, rest, by rw [hrest]; simp⟩
    · refine ⟨[], clustersFrom isAlphabetic ⟨directionClass isAlphabetic c, [c]⟩ cs, ?_⟩
      simp

lemma baseDirection_ne_neutral (raw : List Dir) : baseDirection raw ≠ .neutral := by
  unfold baseDirection
  cases h : raw.find? (· != .neutral) with
  | none => decide
  | some d => simpa using find?_some h

lemma resolveFrom_length (base before : Dir) (raw : List Dir) :
    (resolveFrom base before raw).length = raw.length := by
  fun_induction resolveFrom base before raw with
  | case1 => rfl
  | case2 before ds after ih => simp [ih]
  | case3 before d ds hd ih => simp [ih]

lemma resolveFrom_getElem? {base before : Dir} {raw : List Dir} {i : ℕ} {d : Dir}
    (h : raw[i]? = some d) (hd : d ≠ .neutral) : (resolveFrom base before raw)[i]? = some d := by
  induction raw generalizing before i with
  | nil => cases h
  | cons e raw ih =>
    cases i with
    | zero =>
      obtain rfl := some_inj.mp h
      cases e with
      | neutral => exact absurd rfl hd
      | _ => rfl
    | succ i => cases e <;> exact ih h

theorem before_resolveOrder {base : Dir} (hbase : base ≠ .neutral) {dirs : List Dir} {i j : ℕ} (hij : i < j) (hj : j < dirs.length) :
    ((∃ k, i ≤ k ∧ k ≤ j ∧ dirs[k]? = some base) ∧ base = .ltr ∨
        (∀ k, i ≤ k → k ≤ j → dirs[k]? = some .ltr) ∧ base = .rtl →
      Before (resolveOrder (dirs.map (level base))) i j) ∧
    ((∀ k, i ≤ k → k ≤ j → dirs[k]? = some .rtl) ∧ base = .ltr ∨
        (∃ k, i ≤ k ∧ k ≤ j ∧ dirs[k]? = some base) ∧ base = .rtl →
      Before (resolveOrder (dirs.map (level base))) j i) := by
  have hlevel : ∀ l ∈ dirs.map (level base), l ≤ 2 := by
    intro l hl
    obtain ⟨d, -, rfl⟩ := mem_map.mp hl
    unfold level
    split_ifs <;> omega
  have hmark : ∀ m k b, (∀ d, dirs[k]? = some d → decide (m ≤ level base d) = b) → k ≤ j →
      (marks m (dirs.map (level base)))[k]? = some b := by
    intro m k b hb hk
    obtain ⟨d, hd⟩ : ∃ d, dirs[k]? = some d := ⟨_, getElem?_eq_getElem (hk.trans_lt hj)⟩
    rw [marks, List.map_map, getElem?_map, hd]
    exact congrArg some (hb d hd)
  have hi : (List.range dirs.length)[i]? = some i := by simp [hij.trans hj]
  have hj' : (List.range dirs.length)[j]? = some j := by simp [hj]
  rw [resolveOrder_eq hlevel, length_map]
  change (_ → Before (reversePasses _ 2 _) i j) ∧ (_ → Before (reversePasses _ 2 _) j i)
  rw [reversePasses_succ, reversePasses_succ]
  change (_ → Before (reverseMarked _ _ (reverseMarked _ _ _)) i j) ∧
    (_ → Before (reverseMarked _ _ (reverseMarked _ _ _)) j i)
  cases base with
  | neutral => exact absurd rfl hbase
  | ltr =>
    have hnone : reverseMarked [] (marks 2 (dirs.map (level .ltr))) (List.range dirs.length) =
        List.range dirs.length := by
      refine reverseMarked_falses (fun m hm => ?_) (by simp)
      obtain ⟨l, hl, rfl⟩ := mem_map.mp hm
      obtain ⟨d, -, rfl⟩ := mem_map.mp hl
      cases d <;> rfl
    rw [hnone]
    have hlen : (marks 1 (dirs.map (level .ltr))).length = (List.range dirs.length).length := by simp
    obtain ⟨hall, hsome⟩ := before_reverseMarked [] hlen hij hi hj'
    constructor
    · rintro (⟨⟨k, hik, hkj, hk⟩, -⟩ | ⟨-, h⟩)
      · refine hsome ⟨k, hik, hkj, hmark 1 k false (fun d hd => ?_) hkj⟩
        obtain rfl := some_inj.mp (hk.symm.trans hd)
        rfl
      · cases h
    · rintro (⟨h, -⟩ | ⟨-, h⟩)
      · refine hall fun k hik hkj => hmark 1 k true (fun d hd => ?_) hkj
        obtain rfl := some_inj.mp ((h k hik hkj).symm.trans hd)
        rfl
      · cases h
  | rtl =>
    have hlen : (marks 2 (dirs.map (level .rtl))).length = (List.range dirs.length).length := by simp
    have hall : ∀ m ∈ marks 1 (dirs.map (level .rtl)), m = true := by
      intro m hm
      obtain ⟨l, hl, rfl⟩ := mem_map.mp hm
      obtain ⟨d, -, rfl⟩ := mem_map.mp hl
      cases d <;> rfl
    rw [eq_replicate_of_mem hall, reverseMarked_trues _ (by
      rw [length_reverseMarked hlen]
      simp), append_nil]
    obtain ⟨hall, hsome⟩ := before_reverseMarked [] hlen hij hi hj'
    constructor
    · rintro (⟨-, h⟩ | ⟨h, -⟩)
      · cases h
      · refine (hall fun k hik hkj => hmark 2 k true (fun d hd => ?_) hkj).reverse
        obtain rfl := some_inj.mp ((h k hik hkj).symm.trans hd)
        rfl
    · rintro (⟨-, h⟩ | ⟨⟨k, hik, hkj, hk⟩, -⟩)
      · cases h
      · refine (hsome ⟨k, hik, hkj, hmark 2 k false (fun d hd => ?_) hkj⟩).reverse
        obtain rfl := some_inj.mp (hk.symm.trans hd)
        rfl

def IsGlyph (g : Char) : Prop := 0xFE80 ≤ g.toNat ∧ g.toNat ≤ 0xFEFC

lemma IsFormOf.isGlyph {g : Char} (h : IsFormOf c g) : IsGlyph g := by
  obtain ⟨f, hf, hne, hmem⟩ := h
  exact (formTable_range _ (mem_of_lookup hf) _ hmem).resolve_left hne

lemma IsLigatureOf.isGlyph {g : Char} (h : IsLigatureOf d g) : IsGlyph g := by
  obtain ⟨v, hv, hmem⟩ := h
  obtain ⟨-, hge, hle, -⟩ := (ligatureTable_forms _ (mem_of_lookup hv)).2.2 _ hmem
  exact ⟨hge, hle⟩

lemma IsGlyph.rtl {g : Char} (h : IsGlyph g) : directionClass isAlphabetic g = .rtl := by
  obtain ⟨hge, hle⟩ := h
  have : isRtlStrong g.toNat = true := by
    simp only [isRtlStrong, Bool.or_eq_true, Bool.and_eq_true, decide_eq_true_eq]
    omega
  rw [directionClass, if_pos this]

lemma IsGlyph.not_mark {g : Char} (h : IsGlyph g) : isCombiningMark g = false := by
  obtain ⟨hge, hle⟩ := h
  have hjoin : joiningType g = .nonJoining := by
    rw [joiningType, joinOf_of_outside (by omega), if_neg, if_neg]
    · omega
    · simp only [isTransparent, Bool.or_eq_true, Bool.and_eq_true, decide_eq_true_eq, beq_iff_eq]
      omega
  have hrange : ¬ (0x0300 ≤ g.toNat ∧ g.toNat ≤ 0x036F) := by omega
  simp only [isCombiningMark, hjoin]
  simpa using hrange

lemma rtl_of_presentationForms {f : Forms} (h : presentationForms c = some f) :
    directionClass isAlphabetic c = .rtl := by
  obtain ⟨hge, hle, -⟩ := formTable_letters _ (mem_of_lookup h)
  have : isRtlStrong c.toNat = true := by
    simp only [isRtlStrong, Bool.or_eq_true, Bool.and_eq_true, decide_eq_true_eq]
    omega
  rw [directionClass, if_pos this]

lemma not_mark_of_presentationForms {f : Forms} (h : presentationForms c = some f) :
    isCombiningMark c = false := by
  cases hmark : isCombiningMark c with
  | false => rfl
  | true =>
    rw [presentationForms_mark hmark] at h
    cases h

lemma presentationForms_lam (h : isLamAlef c d = true) : ∃ f, presentationForms c = some f :=
  isSome_iff_exists.mp (isSome_of_joining (.inr (joiningType_lam h)))

def firstStrong (isAlphabetic : Char → Bool) (cs : List Char) : Option Dir :=
  ((nonMarks cs).map (directionClass isAlphabetic)).find? (· != .neutral)

lemma firstStrong_rtl (isAlphabetic : Char → Bool) (hmark : isCombiningMark c = false)
    (hdir : directionClass isAlphabetic c = .rtl) (cs : List Char) :
    firstStrong isAlphabetic (c :: cs) = some .rtl := by
  simp [firstStrong, nonMarks, hmark, hdir]

lemma firstStrong_congr {cs cs' : List Char}
    (h : firstStrong isAlphabetic cs = firstStrong isAlphabetic cs') :
    firstStrong isAlphabetic (c :: cs) = firstStrong isAlphabetic (c :: cs') := by
  cases hmark : isCombiningMark c with
  | true => simpa [firstStrong, nonMarks, hmark] using h
  | false =>
    unfold firstStrong at h ⊢
    simp only [nonMarks, filter_cons, hmark, Bool.not_false, if_true, map_cons,
      find?_cons]
    split
    · rfl
    · exact h

lemma firstStrong_units (isAlphabetic : Char → Bool) {units : List (List Char × Char)}
    (hunits : ∀ u ∈ units, ShapedUnit u) :
    firstStrong isAlphabetic (units.flatMap Prod.fst) =
      firstStrong isAlphabetic (units.map Prod.snd) := by
  induction units with
  | nil => rfl
  | cons u units ih =>
    rw [forall_mem_cons] at hunits
    cases hunits.1 with
    | ligature hpair hg =>
      obtain ⟨f, hf⟩ := presentationForms_lam hpair
      have hline := firstStrong_rtl isAlphabetic (not_mark_of_presentationForms hf)
        (rtl_of_presentationForms hf)
      exact (hline _).trans (firstStrong_rtl isAlphabetic hg.isGlyph.not_mark hg.isGlyph.rtl _).symm
    | letter hg =>
      obtain ⟨f, hf, -⟩ := id hg
      have hline := firstStrong_rtl isAlphabetic (not_mark_of_presentationForms hf)
        (rtl_of_presentationForms hf)
      exact (hline _).trans (firstStrong_rtl isAlphabetic hg.isGlyph.not_mark hg.isGlyph.rtl _).symm
    | other _ => exact firstStrong_congr (ih hunits.2)

def baseOf (isAlphabetic : Char → Bool) (line : List Char) : Dir :=
  baseDirection ((clusters isAlphabetic line).map Cluster.dir)

lemma baseOf_cons (c : Char) (cs : List Char) : baseOf isAlphabetic (c :: cs) =
    if directionClass isAlphabetic c = .neutral then (firstStrong isAlphabetic cs).getD .ltr
    else directionClass isAlphabetic c := by
  rw [baseOf, clusters, clustersFrom_dir, baseDirection, find?_cons]
  split_ifs with h
  · simp [h, firstStrong]
  · have hne : (directionClass isAlphabetic c != .neutral) = true := by simpa using h
    rw [hne]
    rfl

theorem baseOf_shape (line : List Char) : baseOf isAlphabetic (shape line) = baseOf isAlphabetic line := by
  have hunits : ∀ u ∈ shapeUnits [] line, ShapedUnit u := fun u hu => shapedUnit_of_mem hu
  have hline := flatMap_shapeUnits [] line
  rw [shape]
  conv_rhs => rw [← hline]
  cases hshape : shapeUnits [] line with
  | nil => rfl
  | cons u units =>
    rw [hshape, forall_mem_cons] at hunits
    have hrest := firstStrong_units isAlphabetic hunits.2
    cases hunits.1 with
    | ligature hpair hg =>
      obtain ⟨f, hf⟩ := presentationForms_lam hpair
      simp only [map_cons, flatMap_cons, cons_append]
      rw [baseOf_cons, baseOf_cons, hg.isGlyph.rtl, rtl_of_presentationForms hf]
      rfl
    | letter hg =>
      obtain ⟨f, hf, -⟩ := id hg
      simp only [map_cons, flatMap_cons, cons_append]
      rw [baseOf_cons, baseOf_cons, hg.isGlyph.rtl, rtl_of_presentationForms hf]
      rfl
    | other _ =>
      simp only [map_cons, flatMap_cons, cons_append, nil_append]
      rw [baseOf_cons, baseOf_cons, hrest]

end TouchHle.Font
