import TouchHle.Url.Getters

namespace TouchHle.Url

open Lib List

structure Parts where
  authority : Option Text
  path : Text
  query : Option Text
  fragment : Option Text
  authority_ok : ∀ a ∈ authority, ∀ c ∈ a, c ≠ '/' ∧ c ≠ '?' ∧ c ≠ '#'
  path_ok : ∀ c ∈ path, c ≠ '?' ∧ c ≠ '#'
  query_ok : ∀ q ∈ query, '#' ∉ q
  fragment_ok : ∀ f ∈ fragment, '#' ∉ f
  path_abempty : authority.isSome → path = [] ∨ ∃ p, path = '/' :: p
  path_noAuthority : authority = none → ∀ p, path ≠ '/' :: '/' :: p

structure AbsoluteUri where
  scheme : Text
  parts : Parts
  scheme_ne : scheme ≠ []
  scheme_ok : ∀ c ∈ scheme, c ≠ ':' ∧ c ≠ '/' ∧ c ≠ '?' ∧ c ≠ '#'

structure Reference where
  scheme : Option Text
  parts : Parts
  scheme_ne : ∀ s ∈ scheme, s ≠ []
  scheme_ok : ∀ s ∈ scheme, ∀ c ∈ s, c ≠ ':' ∧ c ≠ '/' ∧ c ≠ '?' ∧ c ≠ '#'
  /-- Without a scheme the first segment has no colon. -/
  noscheme : scheme = none → ∀ a b, parts.path = a ++ ':' :: b → '/' ∈ a

def authorityText : Option Text → Text
  | none => []
  | some a => '/' :: '/' :: a

def partsText (authority : Option Text) (path : Text) (query fragment : Option Text) : Text :=
  authorityText authority ++ (path ++ (led '?' query ++ led '#' fragment))

def Parts.text (p : Parts) : Text := partsText p.authority p.path p.query p.fragment

def recompose (scheme : Text) (authority : Option Text) (path : Text)
    (query fragment : Option Text) : Text :=
  scheme ++ ':' :: partsText authority path query fragment

def AbsoluteUri.text (base : AbsoluteUri) : Text := base.scheme ++ ':' :: base.parts.text

def Reference.text (r : Reference) : Text :=
  match r.scheme with
  | none => r.parts.text
  | some s => s ++ ':' :: r.parts.text

def firstSegment : Text → Text × Text
  | [] => ([], [])
  | c :: s => (c :: Text.upTo '/' s, s.drop (Text.upTo '/' s).length)

def removeDots : ℕ → List Text → Text → List Text
  | 0, output, _ => output
  | n + 1, output, input =>
    if input = [] then output
    else if "../".toList.isPrefixOf input then removeDots n output (input.drop 3)
    else if "./".toList.isPrefixOf input then removeDots n output (input.drop 2)
    else if "/./".toList.isPrefixOf input then removeDots n output (input.drop 2)
    else if input = "/.".toList then removeDots n output ['/']
    else if "/../".toList.isPrefixOf input then removeDots n output.tail (input.drop 3)
    else if input = "/..".toList then removeDots n output.tail ['/']
    else if input = ".".toList ∨ input = "..".toList then output
    else removeDots n ((firstSegment input).1 :: output) (firstSegment input).2

def removeDotSegments (path : Text) : Text := (removeDots path.length [] path).reverse.flatten

def directory (path : Text) : Text := (path.reverse.dropWhile fun c => c ≠ '/').reverse

def merge (base : AbsoluteUri) (path : Text) : Text :=
  if base.parts.authority.isSome ∧ base.parts.path = [] then '/' :: path
  else directory base.parts.path ++ path

def target (base : AbsoluteUri) (r : Reference) : Text :=
  match r.scheme with
  | some s =>
    recompose s r.parts.authority (removeDotSegments r.parts.path) r.parts.query r.parts.fragment
  | none =>
    match r.parts.authority with
    | some a =>
      recompose base.scheme (some a) (removeDotSegments r.parts.path) r.parts.query r.parts.fragment
    | none =>
      if r.parts.path = [] then
        recompose base.scheme base.parts.authority base.parts.path
          (r.parts.query.or base.parts.query) r.parts.fragment
      else if r.parts.path.head? = some '/' then
        recompose base.scheme base.parts.authority (removeDotSegments r.parts.path) r.parts.query
          r.parts.fragment
      else
        recompose base.scheme base.parts.authority (removeDotSegments (merge base r.parts.path))
          r.parts.query r.parts.fragment

lemma firstSegment_length (s : Text) :
    (firstSegment s).1.length + (firstSegment s).2.length = s.length := by
  cases s with
  | nil => rfl
  | cons c s =>
    have hle : (Text.upTo '/' s).length ≤ s.length := ( takeWhile_prefix _).length_le
    simp only [firstSegment, length_cons, length_drop]
    omega

lemma length_removeDots (n : ℕ) (output : List Text) (input : Text) :
    (removeDots n output input).flatten.length ≤ output.flatten.length + input.length := by
  have htail : ∀ output : List Text, output.tail.flatten.length ≤ output.flatten.length := by
    intro output
    cases output with
    | nil => exact le_rfl
    | cons s output => simp
  induction n generalizing output input with
  | zero => exact Nat.le_add_right _ _
  | succ n ih =>
    unfold removeDots
    split_ifs with h1 h2 h3 h4 h5 h6 h7 h8
    · omega
    · exact (ih _ _).trans (by rw [length_drop]; omega)
    · exact (ih _ _).trans (by rw [length_drop]; omega)
    · exact (ih _ _).trans (by rw [length_drop]; omega)
    · exact (ih _ _).trans (by rw [h5]; simp)
    · exact (ih _ _).trans (by rw [length_drop]; have := htail output; omega)
    · exact (ih _ _).trans (by
        have hinput : input.length = 3 := by rw [h7]; rfl
        have houtput := htail output
        rw [hinput, length_singleton]
        omega)
    · omega
    · refine (ih _ _).trans ?_
      rw [flatten_cons, length_append]
      have := firstSegment_length input
      omega

lemma length_removeDotSegments (path : Text) : (removeDotSegments path).length ≤ path.length := by
  have hlength := length_removeDots path.length [] path
  unfold removeDotSegments
  rw [length_flatten, map_reverse, sum_reverse, ← length_flatten]
  simpa using hlength

def Slashed (s : Text) : Prop := ∃ t, s = '/' :: t

lemma drop_upTo (s : Text) :
    s.drop (Text.upTo '/' s).length = [] ∨ Slashed (s.drop (Text.upTo '/' s).length) := by
  induction s with
  | nil => exact .inl rfl
  | cons c s ih =>
    by_cases hc : c = '/'
    · right
      exact ⟨s, by simp [Text.upTo, hc]⟩
    · have hcut : (Text.upTo '/' (c :: s)).length = (Text.upTo '/' s).length + 1 := by
        simp [Text.upTo, hc]
      rw [hcut, drop_succ_cons]
      exact ih

lemma slashed_of_prefix {p s : Text} (hp : p.isPrefixOf s = true) (k : ℕ)
    (hk : ∀ r, (p ++ r).drop k = '/' :: r) : Slashed (s.drop k) := by
  obtain ⟨r, rfl⟩ := isPrefixOf_iff_prefix.mp hp
  exact ⟨r, hk r⟩

lemma slashed_removeDots (n : ℕ) {output : List Text} {input : Text}
    (hn : input.length ≤ n) (houtput : ∀ s ∈ output, Slashed s) (hinput : input = [] ∨ Slashed input)
    (hsome : output ≠ [] ∨ input ≠ []) :
    (∀ s ∈ removeDots n output input, Slashed s) ∧ removeDots n output input ≠ [] := by
  induction n generalizing output input with
  | zero =>
    have hnil : input = [] := length_eq_zero_iff.mp (Nat.le_zero.mp hn)
    exact ⟨houtput, hsome.resolve_right fun h => h hnil⟩
  | succ n ih =>
    unfold removeDots
    have htail : ∀ s ∈ output.tail, Slashed s := fun s hs => houtput s (mem_of_mem_tail hs)
    by_cases hnil : input = []
    · rw [if_pos hnil]
      exact ⟨houtput, hsome.resolve_right fun h => h hnil⟩
    obtain ⟨t, rfl⟩ := hinput.resolve_left hnil
    have hlength : t.length ≤ n := by simpa using hn
    have hne : ∀ {s : Text}, Slashed s → s ≠ [] := by
      rintro s ⟨t, rfl⟩
      exact cons_ne_nil _ _
    have hdots : "../".toList.isPrefixOf ('/' :: t) = false := rfl
    have hdot : "./".toList.isPrefixOf ('/' :: t) = false := rfl
    rw [if_neg hnil, hdots, hdot, if_neg Bool.false_ne_true, if_neg Bool.false_ne_true]
    split_ifs with h3 h4 h5 h6 h7
    · have hdrop := slashed_of_prefix h3 2 fun r => rfl
      exact ih (by simp; omega) houtput (.inr hdrop) (.inr (hne hdrop))
    · have hlen : (('/' :: t).length) = 2 := by rw [h4]; rfl
      exact ih (by rw [length_singleton]; rw [length_cons] at hlen; omega) houtput
        (.inr ⟨[], rfl⟩) (.inr (cons_ne_nil _ _))
    · have hdrop := slashed_of_prefix h5 3 fun r => rfl
      exact ih (by simp; omega) htail (.inr hdrop) (.inr (hne hdrop))
    · have hlen : (('/' :: t).length) = 3 := by rw [h6]; rfl
      exact ih (by rw [length_singleton]; rw [length_cons] at hlen; omega) htail
        (.inr ⟨[], rfl⟩) (.inr (cons_ne_nil _ _))
    · obtain h | h := h7 <;> cases h
    · refine ih ?_ ?_ (drop_upTo t) (.inl (cons_ne_nil _ _))
      · simp only [firstSegment, length_drop]
        omega
      · intro s hs
        obtain rfl | hs := mem_cons.mp hs
        · exact ⟨_, rfl⟩
        · exact houtput s hs

lemma slashed_removeDotSegments (path : Text) : Slashed (removeDotSegments ('/' :: path)) := by
  obtain ⟨hall, hne⟩ :
      (∀ s ∈ removeDots ('/' :: path).length [] ('/' :: path), Slashed s) ∧
        removeDots ('/' :: path).length [] ('/' :: path) ≠ [] :=
    slashed_removeDots _ le_rfl (by simp) (.inr ⟨path, rfl⟩) (.inr (cons_ne_nil _ _))
  unfold removeDotSegments
  cases hrev : (removeDots ('/' :: path).length [] ('/' :: path)).reverse with
  | nil => exact absurd (reverse_eq_nil_iff.mp hrev) hne
  | cons s segments =>
    obtain ⟨t, rfl⟩ := hall s (by rw [← mem_reverse, hrev]; exact mem_cons_self)
    exact ⟨t ++ segments.flatten, rfl⟩

lemma directory_eq {path : Text} (h : path.getLast? = some '/') : directory path = path := by
  obtain ⟨front, rfl⟩ := getLast?_eq_some_iff.mp h
  simp [directory]

lemma length_directory (path : Text) : (directory path).length ≤ path.length := by
  unfold directory
  rw [length_reverse]
  exact (dropWhile_suffix _).length_le.trans length_reverse.le

lemma getLast_of_directory (path : Text) (h : path.length ≤ (directory path).length) :
    path = [] ∨ path.getLast? = some '/' := by
  rcases eq_nil_or_concat path with rfl | ⟨front, c, rfl⟩
  · exact .inl rfl
  · right
    rw [concat_eq_append] at h ⊢
    by_cases hc : c = '/'
    · simp [hc]
    · have hdrop : (directory (front ++ [c])).length ≤ front.length := by
        have hle := length_directory front
        have heq : directory (front ++ [c]) = directory front := by simp [directory, hc]
        rw [heq]
        exact hle
      rw [length_append] at h
      simp at h
      omega

end TouchHle.Url
