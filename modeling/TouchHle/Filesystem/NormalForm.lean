import TouchHle.Filesystem.Operations

namespace TouchHle.Filesystem

open Lib List Option

variable {l components : List Text} {path : Text} {cwd : AbsolutePath} {p q : ℕ}

lemma markerPosition_eq_none : markerPosition l = none ↔ ∀ p, ¬ marker <+: l.drop p := by
  induction l with
  | nil => simp [markerPosition, marker]
  | cons c cs ih =>
    rw [markerPosition]
    by_cases h : marker <+: c :: cs
    · rw [if_pos h]
      exact iff_of_false (by simp) fun hnone => hnone 0 h
    · rw [if_neg h, map_eq_none_iff, ih]
      constructor
      · intro hnone p
        cases p with
        | zero => exact h
        | succ p => exact hnone p
      · exact fun hnone p => hnone (p + 1)

lemma markerPosition_eq_some : markerPosition l = some p ↔
    marker <+: l.drop p ∧ ∀ q < p, ¬ marker <+: l.drop q := by
  induction l generalizing p with
  | nil => simp [markerPosition, marker]
  | cons c cs ih =>
    rw [markerPosition]
    by_cases h : marker <+: c :: cs
    · rw [if_pos h, some.injEq]
      constructor
      · rintro rfl
        exact ⟨h, fun q hq => absurd hq (Nat.not_lt_zero q)⟩
      · rintro ⟨-, hfirst⟩
        by_contra hne
        exact hfirst 0 (by omega) h
    · rw [if_neg h, map_eq_some_iff]
      constructor
      · rintro ⟨r, hr, rfl⟩
        obtain ⟨hat, hfirst⟩ := ih.mp hr
        refine ⟨hat, fun q hq => ?_⟩
        cases q with
        | zero => exact h
        | succ q => exact hfirst q (by omega)
      · rintro ⟨hat, hfirst⟩
        cases p with
        | zero => exact absurd hat h
        | succ p => exact ⟨p, ih.mpr ⟨hat, fun q hq => hfirst (q + 1) (by omega)⟩, rfl⟩

lemma exists_markerPosition (h : marker <+: l.drop p) : ∃ q ≤ p, markerPosition l = some q := by
  cases hpos : markerPosition l with
  | none => exact absurd h (markerPosition_eq_none.mp hpos p)
  | some q =>
    refine ⟨q, ?_, rfl⟩
    by_contra hlt
    exact (markerPosition_eq_some.mp hpos).2 p (by omega) h

lemma marker_apart (hp : marker <+: l.drop p) (hq : marker <+: l.drop q) (hlt : p < q) :
    p + 3 ≤ q := by
  obtain ⟨a, ha⟩ := hp
  obtain ⟨b, hb⟩ := hq
  have hdrop : l.drop q = (l.drop p).drop (q - p) := by
    rw [drop_drop]
    congr 1
    omega
  rw [← ha] at hdrop
  by_contra hnear
  obtain h | h : q - p = 1 ∨ q - p = 2 := by omega
  · rw [h, ← hb] at hdrop
    exact absurd (List.cons.inj hdrop).1 (by decide)
  · rw [h, ← hb] at hdrop
    exact absurd (List.cons.inj hdrop).1 (by decide)

lemma stripDuplicatePrefix_cases (l : List Text) : stripDuplicatePrefix l = l ∨
    ∃ p q, p < q ∧ marker <+: l.drop p ∧ marker <+: l.drop q ∧ stripDuplicatePrefix l = l.drop q := by
  unfold stripDuplicatePrefix
  split
  · cases hfirst : markerPosition l with
    | none => exact Or.inl rfl
    | some dupStart =>
      dsimp only
      cases hsecond : markerPosition (l.drop (dupStart + 1)) with
      | none => exact Or.inl rfl
      | some secondPos =>
        have hat := (markerPosition_eq_some.mp hsecond).1
        rw [drop_drop] at hat
        exact Or.inr ⟨dupStart, dupStart + 1 + secondPos, by omega,
          (markerPosition_eq_some.mp hfirst).1, hat, rfl⟩
  · exact Or.inl rfl

lemma stripDuplicatePrefix_of_markers (hlong : 6 < l.length) (hp : marker <+: l.drop p)
    (hq : marker <+: l.drop q) (hlt : p < q) :
    ∃ r, 0 < r ∧ r ≤ q ∧ stripDuplicatePrefix l = l.drop r ∧ marker <+: l.drop r := by
  obtain ⟨dupStart, hle, hfirst⟩ := exists_markerPosition hp
  have hrest : marker <+: (l.drop (dupStart + 1)).drop (q - (dupStart + 1)) := by
    rw [drop_drop, Nat.add_sub_cancel' (by omega)]
    exact hq
  obtain ⟨secondPos, hle', hsecond⟩ := exists_markerPosition hrest
  have hat := (markerPosition_eq_some.mp hsecond).1
  rw [drop_drop] at hat
  refine ⟨dupStart + 1 + secondPos, by omega, by omega, ?_, hat⟩
  rw [stripDuplicatePrefix, if_pos hlong, hfirst]
  dsimp only
  rw [hsecond]

lemma marker_length_le (h : marker <+: l.drop p) : p + 3 ≤ l.length := by
  have hle := h.length_le
  rw [length_drop] at hle
  have hmarker : marker.length = 3 := rfl
  omega

def ThriceMarked (components : List Text) : Prop :=
  ∃ a b c d, components = a ++ marker ++ b ++ marker ++ c ++ marker ++ d ∧ c ++ d ≠ []

lemma marker_prefix (a d : List Text) : marker <+: (a ++ (marker ++ d)).drop a.length := by
  rw [drop_left]
  exact prefix_append _ _

lemma drop_of_marker (h : marker <+: l.drop p) : l.drop p = marker ++ l.drop (p + 3) := by
  obtain ⟨x, hx⟩ := h
  have hrest : l.drop (p + 3) = x := by
    rw [← drop_drop, ← hx]
    rfl
  rw [hrest, hx]

lemma drop_split (h : p ≤ q) : l.drop p = (l.drop p).take (q - p) ++ l.drop q := by
  conv_lhs => rw [← take_append_drop (q - p) (l.drop p), drop_drop, Nat.add_sub_cancel' h]

lemma thriceMarked_iff : ThriceMarked l ↔ ∃ p q r, p < q ∧ q < r ∧ marker <+: l.drop p ∧
    marker <+: l.drop q ∧ marker <+: l.drop r ∧ 6 < l.length - q := by
  have hmarker : marker.length = 3 := rfl
  constructor
  · rintro ⟨a, b, c, d, rfl, hne⟩
    have hcd : 0 < c.length + d.length := by
      have hpos := length_pos_of_ne_nil hne
      rwa [length_append] at hpos
    refine ⟨a.length, (a ++ marker ++ b).length, (a ++ marker ++ b ++ marker ++ c).length, ?_, ?_,
      ?_, ?_, ?_, ?_⟩
    · simp only [length_append, hmarker]
      omega
    · simp only [length_append, hmarker]
      omega
    · simpa only [append_assoc] using marker_prefix a (b ++ marker ++ c ++ marker ++ d)
    · simpa only [append_assoc] using marker_prefix (a ++ marker ++ b) (c ++ marker ++ d)
    · simpa only [append_assoc] using marker_prefix (a ++ marker ++ b ++ marker ++ c) d
    · simp only [length_append, hmarker]
      omega
  · rintro ⟨p, q, r, hpq, hqr, hp, hq, hr, hlen⟩
    have hpq' := marker_apart hp hq hpq
    have hqr' := marker_apart hq hr hqr
    have hrl := marker_length_le hr
    refine ⟨l.take p, (l.drop (p + 3)).take (q - (p + 3)), (l.drop (q + 3)).take (r - (q + 3)),
      l.drop (r + 3), ?_, ?_⟩
    · have hfirst := drop_of_marker hp
      rw [drop_split hpq'] at hfirst
      have hsecond := drop_of_marker hq
      rw [drop_split hqr'] at hsecond
      have hthird := drop_of_marker hr
      calc l = l.take p ++ l.drop p := (take_append_drop p l).symm
        _ = l.take p ++ (marker ++ ((l.drop (p + 3)).take (q - (p + 3)) ++ (marker ++
              ((l.drop (q + 3)).take (r - (q + 3)) ++ (marker ++ l.drop (r + 3)))))) := by
          rw [← hthird, ← hsecond, ← hfirst]
        _ = _ := by simp only [append_assoc]
    · intro hnil
      have hlength := congrArg List.length hnil
      simp only [length_append, length_take, length_drop, length_nil] at hlength
      omega

lemma stripDuplicatePrefix_idem :
    stripDuplicatePrefix (stripDuplicatePrefix l) = stripDuplicatePrefix l ↔ ¬ ThriceMarked l := by
  rw [thriceMarked_iff]
  constructor
  · rintro hidem ⟨p, q, r, hpq, hqr, hp, hq, hr, hlen⟩
    obtain ⟨s, hs, hsq, hstrip, hat⟩ := stripDuplicatePrefix_of_markers (by omega) hp hq hpq
    rw [hstrip] at hidem
    have hzero : marker <+: (l.drop s).drop 0 := hat
    have hrest : marker <+: (l.drop s).drop (r - s) := by
      rw [drop_drop, Nat.add_sub_cancel' (by omega)]
      exact hr
    have hrl := marker_length_le hr
    obtain ⟨t, ht, -, hstrip', -⟩ := stripDuplicatePrefix_of_markers
      (by rw [length_drop]; omega) hzero hrest (by omega)
    rw [hstrip'] at hidem
    have hlength := congrArg List.length hidem
    rw [length_drop, length_drop] at hlength
    omega
  · intro hnot
    by_contra hidem
    rcases stripDuplicatePrefix_cases l with hsame | ⟨p, q, hpq, hp, hq, hstrip⟩
    · rw [hsame] at hidem
      exact hidem hsame
    · rw [hstrip] at hidem
      rcases stripDuplicatePrefix_cases (l.drop q) with hsame | ⟨p', q', hpq', hp', hq', hstrip'⟩
      · exact hidem hsame
      · rw [drop_drop] at hq'
        have hlong : 6 < (l.drop q).length := by
          by_contra hshort
          exact hidem (if_neg hshort)
        rw [length_drop] at hlong
        exact hnot ⟨p, q, q + q', hpq, by omega, hp, hq, hq', hlong⟩

def normalized (path : Text) (relativeTo : AbsolutePath) : List Text :=
  (path.splitOn '/').foldl applyPathComponent
    (if path.head? = some '/' then []
      else (relativeTo.text.splitOn '/').foldl applyPathComponent [])

lemma resolvePath_eq : resolvePath path cwd = stripDuplicatePrefix (normalized path cwd) := rfl

def concatenated (cwd : AbsolutePath) (path : Text) : Text := cwd.text ++ '/' :: path

lemma normalized_concatenated (h : path.head? ≠ some '/') (other : AbsolutePath) :
    normalized (concatenated cwd path) other = normalized path cwd := by
  have hhead : (concatenated cwd path).head? = some '/' := by
    rw [concatenated, head?_append, cwd.absolute, some_or]
  rw [normalized, normalized, if_pos hhead, if_neg h, concatenated, splitOn_append_cons_self,
    foldl_append]

/-- What is resolved is in normal form: without empty, `.` and `..` components, the same when it is
resolved again, and from a relative path the same as from the path after its directory. -/
structure ResolvesToNormalForm (path : Text) (cwd : AbsolutePath) : Prop where
  proper : ∀ c ∈ resolvePath path cwd, c ≠ [] ∧ c ≠ ".".toList ∧ c ≠ "..".toList
  idempotent : ∀ other,
    resolvePath (absolutePath (resolvePath path cwd)) other = resolvePath path cwd
  relative : path.head? ≠ some '/' → ∀ other,
    resolvePath path cwd = resolvePath (concatenated cwd path) other

/-- Paths resolve to a normal form unless they name the applications directory three times. -/
theorem resolvesToNormalForm_iff (path : Text) (cwd : AbsolutePath) :
    ResolvesToNormalForm path cwd ↔ ¬ ThriceMarked (normalized path cwd) := by
  rw [← stripDuplicatePrefix_idem, ← resolvePath_eq]
  constructor
  · intro h
    rw [← resolvePath_absolutePath resolvePath_proper cwd]
    exact h.idempotent cwd
  · intro h
    refine ⟨fun c hc => ?_, fun other => ?_, fun hrel other => ?_⟩
    · have hproper := resolvePath_proper c hc
      exact ⟨hproper.nonempty, hproper.not_dot, hproper.not_dots⟩
    · rw [resolvePath_absolutePath resolvePath_proper, h]
    · rw [resolvePath_eq, resolvePath_eq, normalized_concatenated hrel]

def thriceMarkedComponents : List Text :=
  marker ++ ["a".toList] ++ marker ++ ["b".toList] ++ marker ++ ["c".toList]

lemma absolute_root : (['/'] : Text).head? = some '/' := rfl

def rootDirectory : AbsolutePath := ⟨['/'], absolute_root⟩

theorem not_resolvesToNormalForm :
    ¬ ∀ path cwd, ResolvesToNormalForm path cwd := by
  intro hall
  have hproper : ∀ c ∈ thriceMarkedComponents, Proper c := by
    intro c hc
    have hlist : c = "var".toList ∨ c = "mobile".toList ∨ c = "Applications".toList ∨
        c = "a".toList ∨ c = "b".toList ∨ c = "c".toList := by
      simp only [thriceMarkedComponents, marker, List.mem_append, List.mem_cons,
        List.not_mem_nil, or_false] at hc
      tauto
    rcases hlist with rfl | rfl | rfl | rfl | rfl | rfl <;> exact ⟨by decide, by decide, by decide, by decide⟩
  have hidem := (hall (absolutePath thriceMarkedComponents) rootDirectory).idempotent rootDirectory
  rw [resolvePath_absolutePath resolvePath_proper, resolvePath_absolutePath hproper] at hidem
  exact absurd hidem (by decide)

end TouchHle.Filesystem
