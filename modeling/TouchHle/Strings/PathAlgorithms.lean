import TouchHle.Lib.Checked
import TouchHle.Lib.Text

namespace TouchHle.Strings

open Lib Lib.Text List

def trimTrailingSlashes (path : Text) : Text :=
  let withoutTrailingSlashes := trimEndMatches '/' path
  if withoutTrailingSlashes = [] ∧ path.head? = some '/' then ['/'] else withoutTrailingSlashes

def splitLastPathComponent (path : Text) : Text × Text :=
  let path := trimTrailingSlashes path
  if path = ['/'] then (['/'], ['/'])
  else
    match rsplitOnce '/' path with
    | some (rest, lastPathComponent) =>
      (if rest = [] ∧ path.head? = some '/' then ['/'] else rest, lastPathComponent)
    | none => ([], path)

def splitPathComponents (path : Text) : List Text :=
  let components := if path.head? = some '/' then [['/']] else []
  let path := if path.head? = some '/' then path.tail else path
  let trailingSlash := path.getLast? = some '/'
  let path := if trailingSlash then path.dropLast else path
  components ++ (path.splitOn '/').filter (· ≠ []) ++ if trailingSlash then [['/']] else []

def sliceFromOne : Text → Checked Text
  | [] => .error .index
  | c :: rest => if c.utf8Size = 1 then .ok rest else .error .index

def hasPathExtension (lastPathComponent : Text) : Checked Bool :=
  if '.' ∈ lastPathComponent then
    if lastPathComponent.head? = some '.' then do
      let rest ← sliceFromOne lastPathComponent
      return decide ('.' ∈ rest)
    else return true
  else return false

def splitPathExtension (path : Text) : Checked (Text × Text) := do
  let path := trimTrailingSlashes path
  let lastPathComponent := (splitLastPathComponent path).2
  if ← hasPathExtension lastPathComponent then unwrap (rsplitOnce '.' path) else return (path, [])

def joinComponents (components : List Text) : Text := List.intercalate ['/'] components

def stringByAppendingPathComponent (base component : Text) : Text :=
  let components := (base.splitOn '/' ++ component.splitOn '/').filter (· ≠ [])
  if base.head? = some '/' ∨ base = [] ∧ component.head? = some '/' then '/' :: joinComponents components
  else joinComponents components

variable {p a b t : Text} {c : Char}

def pathNames (p : Text) : List Text := (p.splitOn '/').filter (· ≠ [])

def slashNormalised (p : Text) : Text :=
  if p.head? = some '/' then '/' :: joinComponents (pathNames p) else joinComponents (pathNames p)

lemma pathNames_append (a b : Text) : pathNames (a ++ '/' :: b) = pathNames a ++ pathNames b := by
  rw [pathNames, splitOn_append_cons_self, filter_append]
  rfl

lemma pathNames_nil : pathNames [] = [] := rfl

lemma pathNames_replicate (a : Text) (k : ℕ) : pathNames (a ++ List.replicate k '/') = pathNames a := by
  have hslashes : ∀ k, pathNames (List.replicate k '/') = [] := by
    intro k
    induction k with
    | zero => rfl
    | succ k ih =>
      have h := pathNames_append [] (List.replicate k '/')
      rw [nil_append, ih] at h
      exact h
  cases k with
  | zero => rw [replicate_zero, append_nil]
  | succ k => rw [replicate_succ, pathNames_append, hslashes, append_nil]

lemma stringByAppendingPathComponent_eq (a b : Text) :
    stringByAppendingPathComponent a b =
      if a.head? = some '/' ∨ a = [] ∧ b.head? = some '/' then '/' :: joinComponents (pathNames a ++ pathNames b)
      else joinComponents (pathNames a ++ pathNames b) := by
  rw [stringByAppendingPathComponent, filter_append]
  rfl

lemma trimEndMatches_spec (c : Char) (s : Text) :
    (∃ k, s = trimEndMatches c s ++ List.replicate k c) ∧ (trimEndMatches c s).getLast? ≠ some c := by
  have hsplit := takeWhile_append_dropWhile (p := fun x => decide (x = c)) (l := s.reverse)
  refine ⟨⟨(s.reverse.takeWhile fun x => decide (x = c)).length, ?_⟩, ?_⟩
  · have hall : s.reverse.takeWhile (fun x => decide (x = c)) =
        List.replicate (s.reverse.takeWhile fun x => decide (x = c)).length c := by
      rw [eq_replicate_iff]
      exact ⟨rfl, fun x hx => of_decide_eq_true (mem_takeWhile_imp (p := fun x => decide (x = c)) hx)⟩
    have hreverse := congrArg List.reverse hsplit
    rw [reverse_append, reverse_reverse, hall, reverse_replicate] at hreverse
    exact hreverse.symm
  · rw [trimEndMatches, getLast?_reverse]
    intro h
    have hhead := head?_dropWhile_not (fun x => decide (x = c)) s.reverse
    rw [h] at hhead
    simp at hhead

lemma trimTrailingSlashes_cases (p : Text) :
    (∃ k, p = trimTrailingSlashes p ++ List.replicate k '/') ∧
      (p = [] ∨ trimTrailingSlashes p = ['/'] ∨
        trimTrailingSlashes p ≠ [] ∧ (trimTrailingSlashes p).getLast? ≠ some '/') := by
  obtain ⟨⟨k, hk⟩, hlast⟩ := trimEndMatches_spec '/' p
  by_cases hnil : trimEndMatches '/' p = []
  · rw [hnil, nil_append] at hk
    cases k with
    | zero =>
      obtain rfl : p = [] := hk
      exact ⟨⟨0, rfl⟩, .inl rfl⟩
    | succ k =>
      have htrim : trimTrailingSlashes p = ['/'] := by
        rw [trimTrailingSlashes, if_pos ⟨hnil, by rw [hk]; rfl⟩]
      refine ⟨⟨k, ?_⟩, .inr (.inl htrim)⟩
      rw [htrim, hk]
      rfl
  · have htrim : trimTrailingSlashes p = trimEndMatches '/' p := by
      rw [trimTrailingSlashes, if_neg fun h => hnil h.1]
    rw [htrim]
    exact ⟨⟨k, hk⟩, .inr (.inr ⟨hnil, hlast⟩)⟩

lemma pathNames_trim (p : Text) : pathNames (trimTrailingSlashes p) = pathNames p := by
  obtain ⟨k, hk⟩ := (trimTrailingSlashes_cases p).1
  conv_rhs => rw [hk]
  rw [pathNames_replicate]

lemma head?_trim (p : Text) : (trimTrailingSlashes p).head? = some '/' ↔ p.head? = some '/' := by
  obtain ⟨⟨k, hk⟩, rfl | htrim | ⟨hne, -⟩⟩ := trimTrailingSlashes_cases p
  · exact Iff.rfl
  · rw [htrim] at hk
    rw [htrim, hk]
    exact iff_of_true rfl rfl
  · conv_rhs => rw [hk]
    rw [head?_append_of_ne_nil _ hne]

lemma length_trim_le (p : Text) : (trimTrailingSlashes p).length ≤ p.length := by
  obtain ⟨k, hk⟩ := (trimTrailingSlashes_cases p).1
  have hlength := congrArg List.length hk
  rw [length_append] at hlength
  omega

lemma trimTrailingSlashes_trim (p : Text) :
    trimTrailingSlashes (trimTrailingSlashes p) = trimTrailingSlashes p := by
  obtain ⟨-, rfl | htrim | ⟨hne, hlast⟩⟩ := trimTrailingSlashes_cases p
  · rfl
  · rw [htrim]
    rfl
  · obtain ⟨⟨k, hk⟩, -⟩ := trimTrailingSlashes_cases (trimTrailingSlashes p)
    cases k with
    | zero =>
      rw [replicate_zero, append_nil] at hk
      exact hk.symm
    | succ k =>
      rw [hk, replicate_succ', ← append_assoc, getLast?_concat] at hlast
      exact absurd rfl hlast

lemma slashNormalised_trim (p : Text) : slashNormalised (trimTrailingSlashes p) = slashNormalised p := by
  simp only [slashNormalised, pathNames_trim, head?_trim]

inductive LastComponent (p : Text) : Text × Text → Prop
  | empty : p = [] → LastComponent p ([], [])
  | root : trimTrailingSlashes p = ['/'] → LastComponent p (['/'], ['/'])
  | inRoot {last : Text} : trimTrailingSlashes p = '/' :: last → '/' ∉ last → last ≠ [] →
      LastComponent p (['/'], last)
  | inside {rest last : Text} : trimTrailingSlashes p = rest ++ '/' :: last → rest ≠ [] → '/' ∉ last →
      last ≠ [] → LastComponent p (rest, last)
  | alone : '/' ∉ trimTrailingSlashes p → trimTrailingSlashes p ≠ [] →
      LastComponent p ([], trimTrailingSlashes p)

lemma exists_last (h : c ∈ t) : ∃ a b, t = a ++ c :: b ∧ c ∉ b := by
  obtain ⟨b, a, hrev, hb⟩ := eq_append_cons_of_mem (mem_reverse.mpr h)
  refine ⟨a.reverse, b.reverse, ?_, by simpa using hb⟩
  have hreverse := congrArg List.reverse hrev
  simpa using hreverse

lemma splitLastPathComponent_cases (p : Text) : LastComponent p (splitLastPathComponent p) := by
  obtain ⟨-, rfl | htrim | ⟨hne, hlast⟩⟩ := trimTrailingSlashes_cases p
  · exact .empty rfl
  · rw [splitLastPathComponent, if_pos htrim]
    exact .root htrim
  · have hroot : trimTrailingSlashes p ≠ ['/'] := by
      intro h
      rw [h] at hlast
      exact hlast rfl
    rw [splitLastPathComponent, if_neg hroot]
    by_cases hslash : '/' ∈ trimTrailingSlashes p
    · obtain ⟨rest, last, hsplit, hnot⟩ := exists_last hslash
      have hname : last ≠ [] := by
        rintro rfl
        rw [hsplit, getLast?_concat] at hlast
        exact hlast rfl
      rw [hsplit, rsplitOnce_append hnot]
      by_cases hrest : rest = []
      · subst hrest
        exact .inRoot hsplit hnot hname
      · have hdir : (if rest = [] ∧ (rest ++ '/' :: last).head? = some '/' then ['/'] else rest) = rest :=
          if_neg fun h => hrest h.1
        dsimp only
        rw [hdir]
        exact .inside hsplit hrest hnot hname
    · rw [rsplitOnce_none hslash]
      exact .alone hslash hne

lemma append_splitLastPathComponent (p : Text) :
    stringByAppendingPathComponent (splitLastPathComponent p).1 (splitLastPathComponent p).2 =
      slashNormalised p := by
  have hnotHead : ∀ {last : Text}, '/' ∉ last → last.head? ≠ some '/' := fun hnot h =>
    hnot (mem_of_head? h)
  rw [stringByAppendingPathComponent_eq, ← slashNormalised_trim, slashNormalised]
  have hcases := splitLastPathComponent_cases p
  generalize splitLastPathComponent p = parts at hcases ⊢
  cases hcases with
  | empty hp =>
    subst hp
    rfl
  | root htrim =>
    rw [htrim]
    rfl
  | @inRoot last htrim hnot hne =>
    have hnames := pathNames_append [] last
    rw [nil_append] at hnames
    rw [htrim, hnames]
    rfl
  | inside htrim hrest hnot hne =>
    rw [htrim, pathNames_append, head?_append_of_ne_nil _ hrest]
    simp only [hrest, false_and, or_false]
  | alone hnot hne => simp [hnotHead hnot, pathNames_nil]

lemma hasPathExtension_ok (s : Text) : ∃ b, hasPathExtension s = .ok b ∧ (b = true → '.' ∈ s) := by
  unfold hasPathExtension
  by_cases hpoint : '.' ∈ s
  · rw [if_pos hpoint]
    by_cases hhead : s.head? = some '.'
    · obtain ⟨rest, rfl⟩ := head?_eq_some_iff.mp hhead
      have hone : '.'.utf8Size = 1 := by decide
      have hslice : sliceFromOne ('.' :: rest) = .ok rest := by rw [sliceFromOne, if_pos hone]
      rw [if_pos hhead, hslice]
      exact ⟨_, rfl, fun _ => hpoint⟩
    · rw [if_neg hhead]
      exact ⟨true, rfl, fun _ => hpoint⟩
  · rw [if_neg hpoint]
    exact ⟨false, rfl, fun h => nomatch h⟩

lemma lastPathComponent_suffix (hpoint : '.' ∈ (splitLastPathComponent p).2) :
    '/' ∉ (splitLastPathComponent p).2 ∧ (splitLastPathComponent p).2 <:+ trimTrailingSlashes p := by
  have hcases := splitLastPathComponent_cases p
  generalize splitLastPathComponent p = parts at hcases hpoint ⊢
  cases hcases with
  | empty => cases hpoint
  | root => exact absurd hpoint (by decide)
  | inRoot htrim hnot => exact ⟨hnot, htrim ▸ suffix_cons _ _⟩
  | inside htrim _ hnot => exact ⟨hnot, htrim ▸ (suffix_cons _ _).trans (suffix_append _ _)⟩
  | alone hnot => exact ⟨hnot, suffix_rfl⟩

lemma splitPathExtension_spec (p : Text) :
    ∃ name extension, splitPathExtension p = .ok (name, extension) ∧
      (extension ≠ [] → name ++ '.' :: extension = trimTrailingSlashes p ∧
        '.' ∉ extension ∧ '/' ∉ extension) := by
  -- The path is trimmed once more before its last component is taken, which changes nothing.
  obtain ⟨b, hb, hpoint⟩ := hasPathExtension_ok (splitLastPathComponent (trimTrailingSlashes p)).2
  rw [splitPathExtension, hb]
  cases b with
  | false => exact ⟨_, [], rfl, fun h => absurd rfl h⟩
  | true =>
    have hmem := hpoint rfl
    obtain ⟨hslash, before, hbefore⟩ := lastPathComponent_suffix hmem
    obtain ⟨name, extension, hsplit, hnot⟩ := exists_last hmem
    rw [hsplit, trimTrailingSlashes_trim, ← append_assoc] at hbefore
    rw [hsplit, mem_append, not_or, mem_cons, not_or] at hslash
    have hcut : rsplitOnce '.' (trimTrailingSlashes p) = some (before ++ name, extension) := by
      rw [← hbefore, rsplitOnce_append hnot]
    refine ⟨before ++ name, extension, ?_, fun _ => ⟨hbefore, hnot, hslash.2.2⟩⟩
    rw [hcut]
    rfl

lemma length_splitLastPathComponent (hne : p ≠ []) (hroot : p ≠ ['/']) :
    (splitLastPathComponent p).1.length < p.length := by
  have hle := length_trim_le p
  have hpos := length_pos_iff.mpr hne
  have hcases := splitLastPathComponent_cases p
  generalize splitLastPathComponent p = parts at hcases ⊢
  cases hcases with
  | empty => exact hpos
  | root htrim =>
    obtain ⟨k, hk⟩ := (trimTrailingSlashes_cases p).1
    rw [htrim] at hk
    cases k with
    | zero => exact absurd hk hroot
    | succ k =>
      rw [hk]
      simp
  | inRoot htrim _ hname =>
    have hname := length_pos_iff.mpr hname
    rw [htrim, length_cons] at hle
    rw [length_singleton]
    omega
  | @inside rest last htrim =>
    rw [htrim, length_append, length_cons] at hle
    change rest.length < p.length
    omega
  | alone => exact hpos

def stringByDeletingLastPathComponent (p : Text) : Text := (splitLastPathComponent p).1

lemma exists_iterate_deleted (p : Text) :
    ∃ n, stringByDeletingLastPathComponent^[n] p = ['/'] ∨ stringByDeletingLastPathComponent^[n] p = [] := by
  induction hlength : p.length using Nat.strong_induction_on generalizing p with
  | _ length ih =>
    by_cases hne : p = []
    · exact ⟨0, .inr hne⟩
    · by_cases hroot : p = ['/']
      · exact ⟨0, .inl hroot⟩
      · have hshorter := length_splitLastPathComponent hne hroot
        obtain ⟨n, hn⟩ := ih _ (hlength ▸ hshorter) (stringByDeletingLastPathComponent p) rfl
        exact ⟨n + 1, hn⟩

/-- Taking a path apart and putting it together. -/
theorem path_laws (p : Text) :
    stringByAppendingPathComponent (splitLastPathComponent p).1 (splitLastPathComponent p).2 =
        slashNormalised p ∧
      (∃ name extension, splitPathExtension p = .ok (name, extension) ∧
        (extension ≠ [] → name ++ '.' :: extension = trimTrailingSlashes p ∧
          '.' ∉ extension ∧ '/' ∉ extension)) ∧
      ∃ n, stringByDeletingLastPathComponent^[n] p = ['/'] ∨ stringByDeletingLastPathComponent^[n] p = [] :=
  ⟨append_splitLastPathComponent p, splitPathExtension_spec p, exists_iterate_deleted p⟩

section

variable {names : List Text} {absolute : Bool}

/-- A path of names, each behind a slash but perhaps the first. -/
def pathOf (absolute : Bool) (names : List Text) : Text :=
  if absolute then '/' :: joinComponents names else joinComponents names

def Names (names : List Text) : Prop := ∀ n ∈ names, n ≠ [] ∧ '/' ∉ n

lemma names_pathNames (p : Text) : Names (pathNames p) := by
  intro n hn
  obtain ⟨hmem, hne⟩ := mem_filter.mp hn
  exact ⟨of_decide_eq_true hne, not_mem_of_mem_splitOn hmem⟩

lemma pathNames_join (h : Names names) : pathNames (joinComponents names) = names := by
  by_cases hnil : names = []
  · subst hnil
    rfl
  · rw [pathNames, joinComponents, splitOn_intercalate '/' (fun n hn => (h n hn).2) hnil,
      filter_eq_self]
    exact fun n hn => decide_eq_true (h n hn).1

lemma pathNames_pathOf (h : Names names) : pathNames (pathOf absolute names) = names := by
  cases absolute with
  | false => exact pathNames_join h
  | true => exact (pathNames_append [] _).trans (pathNames_join h)

lemma head?_pathOf (h : Names names) : (pathOf absolute names).head? = some '/' ↔ absolute = true := by
  cases absolute with
  | true => simp [pathOf]
  | false =>
    cases names with
    | nil => simp [pathOf, joinComponents]
    | cons n names =>
      obtain ⟨hne, hslash⟩ := h n mem_cons_self
      obtain ⟨c, n, rfl⟩ := exists_cons_of_ne_nil hne
      have hc : c ≠ '/' := fun hc => hslash (hc ▸ mem_cons_self)
      cases names <;> simp [pathOf, joinComponents, intercalate, intersperse, hc]

lemma pathOf_eq_nil (h : Names names) : pathOf absolute names = [] ↔ absolute = false ∧ names = [] := by
  constructor
  · intro hnil
    have hnames := @pathNames_pathOf _ absolute h
    rw [hnil, pathNames_nil] at hnames
    subst hnames
    cases absolute with
    | false => exact ⟨rfl, rfl⟩
    | true => cases hnil
  · rintro ⟨rfl, rfl⟩
    rfl

lemma append_pathOf (h : Names names) (component : Text) :
    stringByAppendingPathComponent (pathOf absolute names) component =
      pathOf (absolute || decide (names = [] ∧ component.head? = some '/'))
        (names ++ pathNames component) := by
  rw [stringByAppendingPathComponent_eq, pathNames_pathOf h, pathOf.eq_def (_ || _)]
  refine if_congr ?_ rfl rfl
  rw [head?_pathOf h, pathOf_eq_nil h]
  cases absolute <;> simp

lemma foldl_append_names {more : List Text} (h : Names names) (hmore : Names more) :
    more.foldl stringByAppendingPathComponent (pathOf absolute names) =
      pathOf absolute (names ++ more) := by
  induction more generalizing names with
  | nil => rw [append_nil, foldl_nil]
  | cons n more ih =>
    obtain ⟨hne, hslash⟩ := hmore n mem_cons_self
    have hn : pathNames n = [n] := by
      rw [pathNames, splitOn_eq_singleton hslash]
      simp [hne]
    have hhead : n.head? ≠ some '/' := fun hhead => hslash (mem_of_head? hhead)
    have hnames : Names (names ++ [n]) := by
      intro m hm
      rcases mem_append.mp hm with hm | hm
      · exact h m hm
      · exact mem_singleton.mp hm ▸ ⟨hne, hslash⟩
    rw [foldl_cons, append_pathOf h, hn, decide_eq_false fun hroot => hhead hroot.2,
      Bool.or_false, ih hnames fun m hm => hmore m (mem_cons_of_mem _ hm), append_assoc]
    rfl

lemma pathNames_ne_nil {p : Text} (hne : p ≠ []) (hhead : p.head? ≠ some '/') : pathNames p ≠ [] := by
  obtain ⟨c, t, rfl⟩ := exists_cons_of_ne_nil hne
  have hc : c ≠ '/' := fun hc => hhead (hc ▸ rfl)
  rw [pathNames, splitOn_cons_eq_if_modifyHead, if_neg (by simpa using hc)]
  cases hs : t.splitOn '/' with
  | nil => exact absurd hs (splitOn_ne_nil _ _)
  | cons d ds => simp

lemma slashNormalised_eq (p : Text) :
    slashNormalised p = pathOf (decide (p.head? = some '/')) (pathNames p) := by
  simp [slashNormalised, pathOf]

lemma pathNames_tail (p : Text) : pathNames (if p.head? = some '/' then p.tail else p) = pathNames p := by
  split
  · rename_i hhead
    obtain ⟨t, rfl⟩ := head?_eq_some_iff.mp hhead
    exact (pathNames_append [] t).symm
  · rfl

lemma pathNames_dropLast (p : Text) :
    pathNames (if p.getLast? = some '/' then p.dropLast else p) = pathNames p := by
  split
  · rename_i hlast
    obtain ⟨t, rfl⟩ := getLast?_eq_some_iff.mp hlast
    rw [dropLast_concat]
    exact (pathNames_replicate t 1).symm
  · rfl

/-- The components of a path, joined again, are the path without its needless slashes. -/
theorem foldl_splitPathComponents (p : Text) :
    (splitPathComponents p).foldl stringByAppendingPathComponent [] = slashNormalised p := by
  have hnone : Names [] := fun _ hn => nomatch hn
  have hfront : (if p.head? = some '/' then [['/']] else []).foldl stringByAppendingPathComponent [] =
      pathOf (decide (p.head? = some '/')) [] := by
    split
    · rename_i hhead
      rw [decide_eq_true hhead]
      decide
    · rename_i hhead
      rw [decide_eq_false hhead]
      rfl
  have hmiddle := @foldl_append_names [] (decide (p.head? = some '/')) _ hnone
    (names_pathNames p)
  rw [splitPathComponents, foldl_append, foldl_append, hfront]
  change foldl _ (foldl _ _ (pathNames _)) _ = _
  rw [pathNames_dropLast, pathNames_tail, hmiddle, nil_append, slashNormalised_eq]
  generalize hlast : (if p.head? = some '/' then p.tail else p).getLast? = last
  by_cases hslash : last = some '/'
  · have hroot : (decide (p.head? = some '/') || decide (pathNames p = [] ∧ ['/'].head? = some '/')) =
        decide (p.head? = some '/') := by
      by_cases hhead : p.head? = some '/'
      · rw [decide_eq_true hhead, Bool.true_or]
      · rw [if_neg hhead] at hlast
        have hne : p ≠ [] := by
          rintro rfl
          cases hlast.trans hslash
        rw [decide_eq_false hhead, Bool.false_or,
          decide_eq_false fun h => pathNames_ne_nil hne hhead h.1]
    have hnames : pathNames p ++ pathNames ['/'] = pathNames p := append_nil _
    rw [if_pos hslash, foldl_cons, foldl_nil, append_pathOf (names_pathNames p), hroot, hnames]
  · rw [if_neg hslash, foldl_nil]

end

end TouchHle.Strings
