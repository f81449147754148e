import TouchHle.Url.Reference

namespace TouchHle.Url

open Lib NSURLHostObject List Option Parts

section

variable (expandTilde : Text → Text) (base : AbsoluteUri) (r : Reference)

def Resolves : Prop :=
  URLWithStringRelativeToURL expandTilde (some r.text)
    (some (initWithString expandTilde base.text)) = some (otherURL (target base r))

structure Alone (s : Text) : Prop where
  scheme : r.scheme = some s
  notFile : s ≠ "file".toList
  delimiter : (Text.splitOnceStr "://".toList r.text).isSome
  dots : removeDotSegments r.parts.path = r.parts.path

structure Continues : Prop where
  scheme : r.scheme = none
  notFile : base.scheme ≠ "file".toList
  delimiter : ¬ (Text.splitOnceStr "://".toList r.text).isSome
  relative : r.text.head? ≠ some '/'
  fragment : base.parts.fragment = none
  query : base.parts.query = none ∨ r.parts.path = [] ∧ r.parts.query = none
  samePath : r.parts.path = [] → base.text.getLast? = some '/'
  newPath : r.parts.path ≠ [] → base.parts.path.getLast? = some '/' ∨
    base.parts.path = [] ∧ ∃ a, base.parts.authority = some a ∧ a ≠ []
  dots : r.parts.path ≠ [] →
    removeDotSegments (merge base r.parts.path) = merge base r.parts.path

end

variable {expandTilde : Text → Text} {base : AbsoluteUri} {r : Reference}

lemma initWithString_eq {s t : Text} : initWithString expandTilde s = otherURL t ↔
    s = t ∧ ¬ "file:".toList.isPrefixOf t = true := by
  unfold initWithString initFileURLWithPath
  split_ifs with h
  · refine iff_of_false (fun hsame => by cases hsame) ?_
    rintro ⟨rfl, hno⟩
    exact hno h
  · constructor
    · intro hsame
      obtain rfl := otherURL.inj hsame
      exact ⟨rfl, h⟩
    · rintro ⟨rfl, -⟩
      rfl

lemma text_of_scheme {s : Text} (h : r.scheme = some s) : r.text = s ++ ':' :: r.parts.text := by
  unfold Reference.text
  rw [h]

lemma text_of_none (h : r.scheme = none) : r.text = r.parts.text := by
  unfold Reference.text
  rw [h]

lemma led_cases (query fragment : Option Text) : led '?' query ++ led '#' fragment = [] ∨
    ∃ c t, led '?' query ++ led '#' fragment = c :: t ∧ (c = '?' ∨ c = '#') := by
  cases query with
  | some q => exact .inr ⟨'?', _, rfl, .inl rfl⟩
  | none =>
    cases fragment with
    | some f => exact .inr ⟨'#', _, rfl, .inr rfl⟩
    | none => exact .inl rfl

lemma text_ne_of_none (h : r.scheme = none) {s : Text} (hne : s ≠ [])
    (hs : ∀ c ∈ s, c ≠ ':' ∧ c ≠ '/' ∧ c ≠ '?' ∧ c ≠ '#') (x : Text) : r.text ≠ s ++ ':' :: x := by
  intro heq
  rw [text_of_none h] at heq
  unfold text partsText at heq
  cases hauthority : r.parts.authority with
  | some a =>
    rw [hauthority] at heq
    cases s with
    | nil => exact hne rfl
    | cons c s =>
      obtain ⟨rfl, -⟩ := List.cons.inj heq
      exact (hs '/' mem_cons_self).2.1 rfl
  | none =>
    rw [hauthority, authorityText, nil_append] at heq
    have hstart := led_cases r.parts.query r.parts.fragment
    obtain ⟨m, hm, hrest⟩ | ⟨m, hm, hrest⟩ := append_eq_append_iff.mp heq
    · obtain hnil | ⟨c, t, hct, hc⟩ := hstart
      · rw [hnil] at hrest
        exact absurd hrest.symm (by simp)
      · rw [hct] at hrest
        cases m with
        | nil =>
          obtain ⟨rfl, -⟩ := List.cons.inj hrest
          simp at hc
        | cons d m =>
          obtain ⟨rfl, -⟩ := List.cons.inj hrest
          have hbad := (hs c (by rw [hm]; simp)).2.2
          obtain rfl | rfl := hc
          · exact hbad.1 rfl
          · exact hbad.2 rfl
    · cases m with
      | nil =>
        rw [nil_append] at hrest
        obtain hnil | ⟨c, t, hct, hc⟩ := hstart
        · rw [hnil] at hrest
          cases hrest
        · rw [hct] at hrest
          obtain ⟨rfl, -⟩ := List.cons.inj hrest
          simp at hc
      | cons d m =>
        obtain ⟨rfl, -⟩ := List.cons.inj hrest
        exact (hs '/' (r.noscheme h s m hm)).2.1 rfl

lemma target_of_none (base : AbsoluteUri) (h : r.scheme = none) : ∃ x, target base r = base.scheme ++ ':' :: x := by
  unfold target
  rw [h]
  cases r.parts.authority with
  | some a => exact ⟨_, rfl⟩
  | none =>
    dsimp only
    split_ifs <;> exact ⟨_, rfl⟩

lemma target_of_scheme (base : AbsoluteUri) {s : Text} (h : r.scheme = some s) : target base r = s ++ ':' ::
    partsText r.parts.authority (removeDotSegments r.parts.path) r.parts.query r.parts.fragment := by
  unfold target
  rw [h]
  rfl

lemma partsText_path {authority query fragment : Option Text} {p q : Text} :
    partsText authority p query fragment = partsText authority q query fragment ↔ p = q := by
  unfold partsText
  rw [append_cancel_left_eq, append_cancel_right_eq]

lemma length_partsText (authority query fragment : Option Text) (p : Text) :
    (partsText authority p query fragment).length =
      (authorityText authority).length + p.length + (led '?' query).length +
        (led '#' fragment).length := by
  unfold partsText
  simp only [length_append]
  omega

def withSlash (s : Text) : Text := if s.getLast? = some '/' then s else s ++ ['/']

lemma resolves_iff_of_alone
    (h : (Text.splitOnceStr "://".toList r.text).isSome ∨ r.text.head? = some '/') :
    Resolves expandTilde base r ↔
      r.text = target base r ∧ ¬ "file:".toList.isPrefixOf (target base r) = true := by
  unfold Resolves URLWithStringRelativeToURL
  simp only [if_pos h, URLWithString, map_some, some.injEq]
  exact initWithString_eq

lemma resolves_iff_of_combined
    (h : ¬ ((Text.splitOnceStr "://".toList r.text).isSome ∨ r.text.head? = some '/')) :
    Resolves expandTilde base r ↔
      withSlash (initWithString expandTilde base.text).absoluteString ++ r.text = target base r ∧
        ¬ "file:".toList.isPrefixOf (target base r) = true := by
  unfold Resolves URLWithStringRelativeToURL
  simp only [if_neg h, some.injEq]
  rw [initWithString_eq]
  have hcombined : ∀ s : Text, (if s.getLast? = some '/' then s ++ r.text else s ++ '/' :: r.text) =
      withSlash s ++ r.text := by
    intro s
    unfold withSlash
    split_ifs
    · rfl
    · simp
  rw [hcombined]

lemma withSlash_ne (s : Text) : withSlash s ≠ [] := by
  unfold withSlash
  split_ifs with h
  · rintro rfl
    cases h
  · simp

lemma resolves_iff_of_scheme {s : Text} (h : r.scheme = some s) :
    Resolves expandTilde base r ↔ Alone r s := by
  have hcolon : ':' ∉ s := notMem_of_forall (r.scheme_ok s h) (by simp)
  have htext := text_of_scheme h
  have htarget := target_of_scheme base h
  have hhead : r.text.head? ≠ some '/' := by
    rw [htext]
    cases s with
    | nil => exact absurd rfl (r.scheme_ne [] h)
    | cons c s =>
      intro hc
      exact (r.scheme_ok _ h c mem_cons_self).2.1 (some.inj hc)
  by_cases hdelimiter : (Text.splitOnceStr "://".toList r.text).isSome
  · rw [resolves_iff_of_alone (.inl hdelimiter)]
    constructor
    · rintro ⟨heq, hfile⟩
      rw [htarget, isPrefixOf_scheme _ hcolon] at hfile
      rw [htext, htarget] at heq
      obtain ⟨-, hparts⟩ := List.cons.inj (append_cancel_left heq)
      exact ⟨h, hfile, hdelimiter, (partsText_path.mp hparts).symm⟩
    · intro halone
      constructor
      · rw [htext, htarget, halone.dots]
        rfl
      · rw [htarget, isPrefixOf_scheme _ hcolon]
        exact halone.notFile
  · rw [resolves_iff_of_combined (not_or.mpr ⟨hdelimiter, hhead⟩)]
    refine iff_of_false ?_ fun halone => hdelimiter halone.delimiter
    rintro ⟨heq, -⟩
    have hlength := congrArg List.length heq
    have hpos := length_pos_iff.mpr (withSlash_ne (initWithString expandTilde base.text).absoluteString)
    have hdots := length_removeDotSegments r.parts.path
    rw [htext, htarget] at hlength
    unfold text at hlength
    simp only [length_append, length_cons, length_partsText] at hlength
    omega

lemma getLast_base_path {c : Char} (h : base.parts.path.getLast? = some c)
    (hquery : base.parts.query = none) (hfragment : base.parts.fragment = none) :
    base.text.getLast? = some c := by
  obtain ⟨front, hfront⟩ := getLast?_eq_some_iff.mp h
  have htext : base.text = (base.scheme ++ ':' :: (authorityText base.parts.authority ++ front)) ++ [c] := by
    unfold AbsoluteUri.text text partsText
    rw [hquery, hfragment, hfront]
    simp [led]
  rw [htext, getLast?_concat]

lemma combined_eq_iff (h : r.scheme = none) (hrelative : r.text.head? ≠ some '/')
    (slash : Text) : base.text ++ slash ++ r.text = target base r ↔
      if r.parts.path = [] then
        led '?' base.parts.query ++ led '#' base.parts.fragment ++ slash ++ led '?' r.parts.query =
          led '?' (r.parts.query.or base.parts.query)
      else
        base.parts.path ++ led '?' base.parts.query ++ led '#' base.parts.fragment ++ slash ++
          r.parts.path = removeDotSegments (merge base r.parts.path) := by
  rw [text_of_none h] at hrelative ⊢
  have hauthority : r.parts.authority = none := by
    cases hauthority : r.parts.authority with
    | none => rfl
    | some a =>
      refine absurd ?_ hrelative
      unfold text partsText
      rw [hauthority]
      rfl
  have hhead : r.parts.path.head? ≠ some '/' := by
    intro hhead
    refine hrelative ?_
    unfold text partsText
    rw [hauthority, authorityText, nil_append]
    cases hpath : r.parts.path with
    | nil =>
      rw [hpath] at hhead
      cases hhead
    | cons c p =>
      rw [hpath] at hhead
      exact hhead
  unfold AbsoluteUri.text target
  rw [h, hauthority]
  simp only [if_neg hhead]
  unfold recompose text partsText
  rw [hauthority, authorityText, nil_append]
  split_ifs with hnil
  · rw [hnil, nil_append]
    simp only [append_assoc, cons_append, append_cancel_left_eq, List.cons.injEq,
      true_and]
    rw [← append_assoc, ← append_assoc, ← append_assoc, append_cancel_right_eq]
    simp only [append_assoc]
  · simp only [append_assoc, cons_append, append_cancel_left_eq, List.cons.injEq,
      true_and]
    constructor
    · intro heq
      have hall : (base.parts.path ++ (led '?' base.parts.query ++ (led '#' base.parts.fragment ++
          (slash ++ r.parts.path)))) ++ (led '?' r.parts.query ++ led '#' r.parts.fragment) =
          removeDotSegments (merge base r.parts.path) ++
            (led '?' r.parts.query ++ led '#' r.parts.fragment) := by
        simpa only [append_assoc] using heq
      exact append_cancel_right hall
    · intro heq
      have hall := congrArg (· ++ (led '?' r.parts.query ++ led '#' r.parts.fragment)) heq
      simpa only [append_assoc] using hall

lemma base_text_bare (hpath : base.parts.path = []) (hquery : base.parts.query = none)
    (hfragment : base.parts.fragment = none) :
    base.text = base.scheme ++ ':' :: authorityText base.parts.authority := by
  unfold AbsoluteUri.text text partsText
  rw [hpath, hquery, hfragment]
  simp [led]

lemma getLast_led (front : Text) {d : Char} (hd : d ≠ '/') : (front ++ [d]).getLast? ≠ some '/' := by
  rw [getLast?_concat]
  exact fun h => hd (some.inj h)

lemma withSlash_eq (s : Text) : ∃ slash, withSlash s = s ++ slash ∧
    (s.getLast? = some '/' ∧ slash = [] ∨ s.getLast? ≠ some '/' ∧ slash = ['/']) := by
  unfold withSlash
  split_ifs with h
  · exact ⟨[], (append_nil s).symm, .inl ⟨h, rfl⟩⟩
  · exact ⟨['/'], rfl, .inr ⟨h, rfl⟩⟩

lemma led_eq_nil {d : Char} {o : Option Text} : led d o = [] ↔ o = none := by
  cases o <;> simp [led]

lemma samePath_iff {slash : Text} (hslash : base.text.getLast? = some '/' ∧ slash = [] ∨
      base.text.getLast? ≠ some '/' ∧ slash = ['/']) :
    led '?' base.parts.query ++ led '#' base.parts.fragment ++ slash ++ led '?' r.parts.query =
        led '?' (r.parts.query.or base.parts.query) ↔
      base.parts.fragment = none ∧ (base.parts.query = none ∨ r.parts.query = none) ∧
        base.text.getLast? = some '/' := by
  have hnil : slash = [] ↔ base.text.getLast? = some '/' := by
    obtain ⟨h, rfl⟩ | ⟨h, rfl⟩ := hslash
    · exact iff_of_true rfl h
    · exact iff_of_false (by simp) h
  rw [← hnil]
  cases hquery : r.parts.query with
  | none =>
    rw [none_or]
    constructor
    · intro heq
      have hempty : led '?' none = [] := rfl
      rw [hempty, append_nil] at heq
      have hlength := congrArg List.length heq
      simp only [length_append] at hlength
      have hfragment : (led '#' base.parts.fragment).length = 0 := by omega
      exact ⟨led_eq_nil.mp (length_eq_zero_iff.mp hfragment), .inr rfl,
        length_eq_zero_iff.mp (by omega)⟩
    · rintro ⟨hfragment, -, rfl⟩
      rw [hfragment]
      simp [led]
  | some q =>
    rw [some_or]
    constructor
    · intro heq
      have hlength := congrArg List.length heq
      simp only [length_append] at hlength
      have hfragment : (led '#' base.parts.fragment).length = 0 := by omega
      have hbase : (led '?' base.parts.query).length = 0 := by omega
      exact ⟨led_eq_nil.mp (length_eq_zero_iff.mp hfragment),
        .inl (led_eq_nil.mp (length_eq_zero_iff.mp hbase)),
        length_eq_zero_iff.mp (by omega)⟩
    · rintro ⟨hfragment, hbase | hnone, rfl⟩
      · rw [hfragment, hbase]
        simp [led]
      · cases hnone

lemma newPath_iff {slash : Text} (hslash : base.text.getLast? = some '/' ∧ slash = [] ∨
      base.text.getLast? ≠ some '/' ∧ slash = ['/']) {path : Text} (hpath : path.head? ≠ some '/') :
    base.parts.path ++ led '?' base.parts.query ++ led '#' base.parts.fragment ++ slash ++ path =
        removeDotSegments (merge base path) ↔
      base.parts.fragment = none ∧ base.parts.query = none ∧
        (base.parts.path.getLast? = some '/' ∨
          base.parts.path = [] ∧ ∃ a, base.parts.authority = some a ∧ a ≠ []) ∧
        removeDotSegments (merge base path) = merge base path := by
  have hdots := length_removeDotSegments (merge base path)
  constructor
  · intro heq
    have hlength := congrArg List.length heq
    simp only [length_append] at hlength
    by_cases hbare : base.parts.authority.isSome ∧ base.parts.path = []
    · have hmerge : merge base path = '/' :: path := if_pos hbare
      rw [hmerge, length_cons] at hdots
      rw [hmerge] at heq hlength ⊢
      obtain ⟨hsome, hbasePath⟩ := hbare
      obtain ⟨hquery, hfragment⟩ : base.parts.query = none ∧ base.parts.fragment = none := by
        cases hquery : base.parts.query with
        | some q =>
          exfalso
          rw [hquery] at hlength
          simp only [led, length_cons] at hlength
          have hq : q = [] := length_eq_zero_iff.mp (by omega)
          have hfragment : (led '#' base.parts.fragment).length = 0 := by unfold led; omega
          have hslashLength : slash.length = 0 := by omega
          obtain ⟨hlast, -⟩ := hslash.resolve_right fun h => by
            rw [h.2] at hslashLength
            cases hslashLength
          have hnil := led_eq_nil.mp (length_eq_zero_iff.mp hfragment)
          refine getLast_led (base.scheme ++ ':' :: authorityText base.parts.authority)
            (show '?' ≠ '/' by decide) ?_
          rw [← hlast]
          unfold AbsoluteUri.text text partsText
          rw [hquery, hnil, hbasePath, hq]
          simp [led]
        | none =>
          refine ⟨rfl, ?_⟩
          cases hfragment : base.parts.fragment with
          | none => rfl
          | some f =>
            exfalso
            rw [hquery, hfragment] at hlength
            simp only [led, length_cons, length_nil] at hlength
            have hf : f = [] := length_eq_zero_iff.mp (by omega)
            have hslashLength : slash.length = 0 := by omega
            obtain ⟨hlast, -⟩ := hslash.resolve_right fun h => by
              rw [h.2] at hslashLength
              cases hslashLength
            refine getLast_led (base.scheme ++ ':' :: authorityText base.parts.authority)
              (show '#' ≠ '/' by decide) ?_
            rw [← hlast]
            unfold AbsoluteUri.text text partsText
            rw [hquery, hfragment, hbasePath, hf]
            simp [led]
      obtain ⟨a, ha⟩ := isSome_iff_exists.mp hsome
      rw [hbasePath, hquery, hfragment] at heq
      simp only [led, append_nil, nil_append] at heq
      obtain ⟨hlast, rfl⟩ | ⟨hlast, rfl⟩ := hslash
      · -- the target's path starts with a slash, the reference does not
        exfalso
        obtain ⟨t, ht⟩ := slashed_removeDotSegments path
        rw [nil_append, ht] at heq
        rw [heq] at hpath
        exact hpath rfl
      · refine ⟨hfragment, hquery, .inr ⟨hbasePath, a, ha, ?_⟩, heq.symm⟩
        rintro rfl
        refine hlast ?_
        rw [base_text_bare hbasePath hquery hfragment, ha]
        simp [authorityText]
    · have hmerge : merge base path = directory base.parts.path ++ path := if_neg hbare
      rw [hmerge, length_append] at hdots
      have hdirectory := length_directory base.parts.path
      rw [hmerge] at heq hlength
      have hquery := led_eq_nil.mp (length_eq_zero_iff.mp
        (show (led '?' base.parts.query).length = 0 by omega))
      have hfragment := led_eq_nil.mp (length_eq_zero_iff.mp
        (show (led '#' base.parts.fragment).length = 0 by omega))
      obtain ⟨hlast, rfl⟩ : base.text.getLast? = some '/' ∧ slash = [] := hslash.resolve_right
        fun h => by
          rw [h.2, length_singleton] at hlength
          omega
      have hpathLast : base.parts.path.getLast? = some '/' := by
        refine (getLast_of_directory base.parts.path (by omega)).resolve_left fun hnil => ?_
        have hnone : base.parts.authority = none := by
          cases hauthority : base.parts.authority with
          | none => rfl
          | some a => exact absurd ⟨by rw [hauthority]; rfl, hnil⟩ hbare
        rw [base_text_bare hnil hquery hfragment, hnone] at hlast
        simp [authorityText] at hlast
      refine ⟨hfragment, hquery, .inl hpathLast, ?_⟩
      rw [hmerge, ← heq, hquery, hfragment, directory_eq hpathLast]
      simp [led]
  · rintro ⟨hfragment, hquery, hlast | ⟨hbasePath, a, ha, hne⟩, hdots⟩
    · have htext := getLast_base_path hlast hquery hfragment
      obtain ⟨-, rfl⟩ := hslash.resolve_right fun h => h.1 htext
      have hmerge : merge base path = base.parts.path ++ path := by
        unfold merge
        rw [if_neg (fun h => by rw [h.2] at hlast; cases hlast), directory_eq hlast]
      rw [hdots, hmerge, hquery, hfragment]
      simp [led]
    · have htext : base.text.getLast? ≠ some '/' := by
        intro hlast
        rw [base_text_bare hbasePath hquery hfragment, ha] at hlast
        obtain rfl | ⟨front, c, rfl⟩ := eq_nil_or_concat a
        · exact hne rfl
        · have hsame : base.scheme ++ ':' :: authorityText (some (front.concat c)) =
              (base.scheme ++ ':' :: '/' :: '/' :: front) ++ [c] := by
            simp [authorityText]
          rw [hsame, getLast?_concat] at hlast
          exact (base.parts.authority_ok _ ha c (by simp)).1 (some.inj hlast)
      obtain ⟨-, rfl⟩ := hslash.resolve_left fun h => htext h.1
      have hmerge : merge base path = '/' :: path := if_pos ⟨by rw [ha]; rfl, hbasePath⟩
      rw [hdots, hmerge, hbasePath, hquery, hfragment]
      simp [led]

lemma resolves_iff_of_none (h : r.scheme = none) :
    Resolves expandTilde base r ↔ Continues base r := by
  obtain ⟨x, hx⟩ := target_of_none base h
  have hcolon : ':' ∉ base.scheme := notMem_of_forall base.scheme_ok (by simp)
  by_cases halone : (Text.splitOnceStr "://".toList r.text).isSome ∨ r.text.head? = some '/'
  · rw [resolves_iff_of_alone halone]
    refine iff_of_false ?_ fun hcontinues => ?_
    · rintro ⟨heq, -⟩
      exact text_ne_of_none h base.scheme_ne base.scheme_ok x (heq.trans hx)
    · obtain hdelimiter | hhead := halone
      · exact hcontinues.delimiter hdelimiter
      · exact hcontinues.relative hhead
  rw [resolves_iff_of_combined halone, hx, isPrefixOf_scheme _ hcolon, ← hx]
  obtain ⟨hdelimiter, hrelative⟩ := not_or.mp halone
  by_cases hfile : base.scheme = "file".toList
  · exact iff_of_false (fun hboth => hboth.2 hfile) fun hcontinues => hcontinues.notFile hfile
  have hbase : initWithString expandTilde base.text = otherURL base.text :=
    if_neg ((isPrefixOf_scheme _ hcolon).not.mpr hfile)
  rw [hbase]
  obtain ⟨slash, hwith, hslash⟩ := withSlash_eq base.text
  change withSlash base.text ++ r.text = _ ∧ _ ↔ _
  rw [hwith, combined_eq_iff h hrelative slash]
  by_cases hnil : r.parts.path = []
  · rw [if_pos hnil, samePath_iff hslash]
    constructor
    · rintro ⟨⟨hfragment, hquery, hlast⟩, hnot⟩
      exact ⟨h, hfile, hdelimiter, hrelative, hfragment, hquery.imp_right fun hq => ⟨hnil, hq⟩,
        fun _ => hlast, fun hne => absurd hnil hne, fun hne => absurd hnil hne⟩
    · intro hcontinues
      exact ⟨⟨hcontinues.fragment, hcontinues.query.imp_right And.right, hcontinues.samePath hnil⟩,
        hfile⟩
  · have hhead : r.parts.path.head? ≠ some '/' := by
      intro hhead
      refine hrelative ?_
      rw [text_of_none h]
      unfold text partsText
      cases r.parts.authority with
      | some a => rfl
      | none =>
        rw [authorityText, nil_append]
        cases hpath : r.parts.path with
        | nil => exact absurd hpath hnil
        | cons c p =>
          rw [hpath] at hhead
          exact hhead
    rw [if_neg hnil, newPath_iff hslash hhead]
    constructor
    · rintro ⟨⟨hfragment, hquery, hlast, hdots⟩, hnot⟩
      exact ⟨h, hfile, hdelimiter, hrelative, hfragment, .inl hquery, fun hsame => absurd hsame hnil,
        fun _ => hlast, fun _ => hdots⟩
    · intro hcontinues
      exact ⟨⟨hcontinues.fragment, hcontinues.query.resolve_right fun hboth => hnil hboth.1,
        hcontinues.newPath hnil, hcontinues.dots hnil⟩, hfile⟩

theorem resolves_iff (expandTilde : Text → Text) (base : AbsoluteUri) (r : Reference) :
    Resolves expandTilde base r ↔ (∃ s, Alone r s) ∨ Continues base r := by
  cases h : r.scheme with
  | some s =>
    rw [resolves_iff_of_scheme h]
    constructor
    · exact fun halone => .inl ⟨s, halone⟩
    · rintro (⟨s', halone⟩ | hcontinues)
      · obtain rfl := some.inj (h.symm.trans halone.scheme)
        exact halone
      · rw [hcontinues.scheme] at h
        cases h
  | none =>
    rw [resolves_iff_of_none h]
    constructor
    · exact .inr
    · rintro (⟨s, halone⟩ | hcontinues)
      · rw [halone.scheme] at h
        cases h
      · exact hcontinues

/-- Components and references are as the standard says exactly for plain URLs and for references
that stand alone or continue their base. -/
theorem components_and_references_iff (expandTilde : Text → Text) :
    (∀ u : HierarchicalUrl, ComponentsRight (initWithString expandTilde u.text) u ↔
      ∃ a, u.authority = some a ∧ Plain u a) ∧
    (∀ (base : AbsoluteUri) (r : Reference), Resolves expandTilde base r ↔
      (∃ s, Alone r s) ∨ Continues base r) :=
  ⟨componentsRight_iff expandTilde, resolves_iff expandTilde⟩

lemma colon_of_singleton (a b : Text) (h : ['b'] = a ++ ':' :: b) : '/' ∈ a := by
  cases a <;> simp at h

theorem path_is_taken_for_user :
    (∃ u : HierarchicalUrl, u.text = "http://h/a@b".toList ∧ u.user = none ∧
      (initWithString (fun s => s) u.text).user = some "h/a".toList ∧
      ¬ ComponentsRight (initWithString (fun s => s) u.text) u) ∧
    (∃ (base : AbsoluteUri) (r : Reference), base.text = "http://h/a".toList ∧
      r.text = "b".toList ∧ target base r = "http://h/b".toList ∧
      URLWithStringRelativeToURL (fun s => s) (some r.text)
        (some (initWithString (fun s => s) base.text)) = some (otherURL "http://h/a/b".toList) ∧
      ¬ Resolves (fun s => s) base r) := by
  constructor
  · let authority : Authority := ⟨none, ['h'], none, by simp, by simp, by simp, by simp⟩
    let u : HierarchicalUrl :=
      ⟨['h', 't', 't', 'p'], some authority, ['/', 'a', '@', 'b'], none, none, by simp, by simp,
        by simp, by simp, .inr ⟨['a', '@', 'b'], rfl⟩, by simp⟩
    have htext : u.text = "http://h/a@b".toList := by decide +kernel
    have huser : (initWithString (fun s => s) u.text).user = some "h/a".toList := by decide +kernel
    refine ⟨u, htext, rfl, huser, fun hright => ?_⟩
    have hsame : some "h/a".toList = u.user := huser.symm.trans hright.user
    cases hsame
  · let base : AbsoluteUri :=
      ⟨['h', 't', 't', 'p'], ⟨some ['h'], ['/', 'a'], none, none, by simp, by simp, by simp, by simp,
        fun _ => .inr ⟨['a'], rfl⟩, by simp⟩, by simp, by simp⟩
    let r : Reference :=
      ⟨none, ⟨none, ['b'], none, none, by simp, by simp, by simp, by simp, by simp, by simp⟩,
        by simp, by simp, fun _ => colon_of_singleton⟩
    have hbase : base.text = "http://h/a".toList := by decide +kernel
    have hr : r.text = "b".toList := by decide +kernel
    have hresult : URLWithStringRelativeToURL (fun s => s) (some r.text)
        (some (initWithString (fun s => s) base.text)) = some (otherURL "http://h/a/b".toList) := by
      decide +kernel
    have htarget : target base r = "http://h/b".toList := by decide +kernel
    refine ⟨base, r, hbase, hr, htarget, hresult, fun hresolves => ?_⟩
    have hsame := hresult.symm.trans hresolves
    rw [htarget] at hsame
    revert hsame
    decide +kernel

end TouchHle.Url
