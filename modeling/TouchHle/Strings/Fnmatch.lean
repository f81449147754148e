import TouchHle.Lib.Unicode

namespace TouchHle.Fnmatch

open Lib List Option Prod.Lex

def fnmCasefold : UInt32 := 0x10

def toAsciiLowercase (b : UInt8) : UInt8 :=
  if ascii 'A' ≤ b ∧ b ≤ ascii 'Z' then b + 32 else b

def norm (flags : UInt32) (b : UInt8) : UInt8 :=
  if flags &&& fnmCasefold ≠ 0 then toAsciiLowercase b else b

/-- The rest of the pattern, the rest of the string, and both from the last star on. -/
structure State where
  pattern : List UInt8
  string : List UInt8
  star : Option (List UInt8 × List UInt8)

def skipStars (p : List UInt8) : List UInt8 := p.dropWhile (· = ascii '*')

section Step

variable (norm : UInt8 → UInt8)

/-- The loop over a set, up to its bracket or the end of the pattern. -/
def readSet (sc : UInt8) (isMatched : Bool) : List UInt8 → Bool × List UInt8
  | [] => (isMatched, [])
  | [c] => if c = ascii ']' then (isMatched, []) else (isMatched || norm c == sc, [])
  | [c, d] =>
    if c = ascii ']' then (isMatched, [d])
    else readSet sc (isMatched || norm c == sc) [d]
  | c :: d :: e :: l =>
    if c = ascii ']' then (isMatched, d :: e :: l)
    else if d = ascii '-' ∧ e ≠ ascii ']' then
      readSet sc (isMatched || (norm c ≤ sc && sc ≤ norm e)) l
    else readSet sc (isMatched || norm c == sc) (d :: e :: l)

def backtrack (s : State) : Bool ⊕ State :=
  match s.star with
  | none => .inl false
  | some (_, []) => .inl false
  | some (pattern, _ :: string) => .inr ⟨pattern, string, some (pattern, string)⟩

def step (s : State) : Bool ⊕ State :=
  match s.pattern with
  | [] => if s.string = [] then .inl true else backtrack s
  | c :: p =>
    if c = ascii '*' then
      let p := skipStars p
      if p = [] then .inl true else .inr ⟨p, s.string, some (p, s.string)⟩
    else if c = ascii '?' then
      match s.string with
      | [] => .inl false
      | _ :: t => .inr ⟨p, t, s.star⟩
    else if c = ascii '[' then
      match s.string with
      | [] => .inl false
      | b :: t =>
        let negate : Bool := p.head? = some (ascii '!')
        let (isMatched, rest) := readSet norm (norm b) false (if negate then p.tail else p)
        if isMatched = negate then .inl false else .inr ⟨rest, t, s.star⟩
    else
      match s.string with
      | [] => backtrack s
      | b :: t => if norm c ≠ norm b then backtrack s else .inr ⟨p, t, s.star⟩

def run : ℕ → State → Option Bool
  | 0, _ => none
  | rounds + 1, s =>
    match step norm s with
    | .inl isMatched => some isMatched
    | .inr s => run rounds s

def initial (pattern string : List UInt8) : State := ⟨pattern, string, none⟩

end Step

def fnmatchImpl (rounds : ℕ) (pattern string : List UInt8) (flags : UInt32) : Option Bool :=
  run (norm flags) rounds (initial pattern string)

section Meaning

variable (norm : UInt8 → UInt8)

/-- The ranges of a set, a byte being the range from it to itself, and what follows the set. -/
def items : List UInt8 → List (UInt8 × UInt8) × List UInt8
  | [] => ([], [])
  | [c] => if c = ascii ']' then ([], []) else ([(c, c)], [])
  | [c, d] =>
    if c = ascii ']' then ([], [d]) else ((c, c) :: (items [d]).1, (items [d]).2)
  | c :: d :: e :: l =>
    if c = ascii ']' then ([], d :: e :: l)
    else if d = ascii '-' ∧ e ≠ ascii ']' then ((c, e) :: (items l).1, (items l).2)
    else ((c, c) :: (items (d :: e :: l)).1, (items (d :: e :: l)).2)

def negated (p : List UInt8) : Bool := p.head? = some (ascii '!')

def body (p : List UInt8) : List UInt8 := if negated p then p.tail else p

def inRanges (ranges : List (UInt8 × UInt8)) (b : UInt8) : Bool :=
  ranges.any fun r => norm r.1 ≤ norm b && norm b ≤ norm r.2

/-- A byte matches what stands for one byte: any, a set or a byte itself. -/
def accepts (c : UInt8) (p : List UInt8) (b : UInt8) : Bool :=
  if c = ascii '?' then true
  else if c = ascii '[' then inRanges norm (items (body p)).1 b != negated p
  else norm c = norm b

def after (c : UInt8) (p : List UInt8) : List UInt8 :=
  if c = ascii '[' then (items (body p)).2 else p

/-- What a pattern means. -/
inductive Matches : List UInt8 → List UInt8 → Prop
  | nil : Matches [] []
  | star {p s : List UInt8} (t : List UInt8) : Matches p s → Matches (ascii '*' :: p) (t ++ s)
  | one {c b : UInt8} {p s : List UInt8} : c ≠ ascii '*' → accepts norm c p b = true →
      Matches (after c p) s → Matches (c :: p) (b :: s)

end Meaning

section Rounds

variable {norm : UInt8 → UInt8} {s s' : State} {c b : UInt8} {p t u : List UInt8}

lemma readSet_eq (b : UInt8) (l : List UInt8) (isMatched : Bool) :
    readSet norm (norm b) isMatched l
      = (isMatched || inRanges norm (items l).1 b, (items l).2) := by
  have hself : ∀ c : UInt8, (norm c == norm b) = (norm c ≤ norm b && norm b ≤ norm c) := by
    intro c
    rw [Bool.eq_iff_iff, beq_iff_eq, Bool.and_eq_true, decide_eq_true_eq, decide_eq_true_eq]
    exact ⟨fun h => h ▸ ⟨UInt8.le_refl _, UInt8.le_refl _⟩,
      fun h => UInt8.le_antisymm h.1 h.2⟩
  fun_induction items l generalizing isMatched with
  | case1 => simp [readSet, inRanges]
  | case2 => simp [readSet, inRanges]
  | case3 c hc => simp [readSet, inRanges, hc, hself]
  | case4 d => simp [readSet, inRanges]
  | case5 c d hc ih =>
    rw [readSet, if_neg hc, ih, hself, Bool.or_assoc]
    rfl
  | case6 d e l => simp [readSet, inRanges]
  | case7 c d e l hc hrange ih =>
    rw [readSet, if_neg hc, if_pos hrange, ih, Bool.or_assoc]
    rfl
  | case8 c d e l hc hrange ih =>
    rw [readSet, if_neg hc, if_neg hrange, ih, hself, Bool.or_assoc]
    rfl

lemma length_items (l : List UInt8) : (items l).2.length ≤ l.length := by
  fun_induction items l with
  | case1 => exact le_rfl
  | case2 => simp
  | case3 c hc => simp
  | case4 d => simp
  | case5 c d hc ih => exact ih.trans (Nat.le_succ _)
  | case6 d e l => simp
  | case7 c d e l hc hrange ih =>
    simp only [length_cons]
    omega
  | case8 c d e l hc hrange ih => exact ih.trans (Nat.le_succ _)

lemma length_after (c : UInt8) (p : List UInt8) : (after c p).length ≤ p.length := by
  have hbody : (body p).length ≤ p.length := by
    rw [body]
    split
    · rw [length_tail]
      omega
    · exact le_rfl
  rw [after]
  split
  · exact (length_items _).trans hbody
  · exact le_rfl

/-- The loop comes to a byte that stands for one: it is refused, or both go on. -/
lemma step_one (hs : s.pattern = c :: p) (ht : s.string = b :: t) (hc : c ≠ ascii '*') :
    step norm s = if accepts norm c p b = true then .inr ⟨after c p, t, s.star⟩
      else if c = ascii '[' then .inl false else backtrack s := by
  rw [step, hs]
  dsimp only
  rw [if_neg hc, ht]
  by_cases hany : c = ascii '?'
  · subst hany
    rw [if_pos rfl, accepts, if_pos rfl, if_pos rfl, after, if_neg (by decide)]
  rw [if_neg hany, accepts, if_neg hany, after]
  by_cases hset : c = ascii '['
  · simp only [if_pos hset, readSet_eq, Bool.false_or]
    have hbne : (inRanges norm (items (body p)).1 b != negated p) = true
        ↔ inRanges norm (items (body p)).1 b ≠ negated p := bne_iff_ne
    by_cases heq : inRanges norm (items (body p)).1 b = negated p
    · rw [if_neg (fun h => hbne.mp h heq)]
      exact if_pos heq
    · rw [if_pos (hbne.mpr heq)]
      exact if_neg heq
  · simp only [if_neg hset, decide_eq_true_eq, ne_eq, ite_not]

lemma step_star (hs : s.pattern = ascii '*' :: p) :
    step norm s = if skipStars p = [] then .inl true
      else .inr ⟨skipStars p, s.string,
        some (skipStars p, s.string)⟩ := by
  rw [step, hs]
  rfl

lemma matches_nil : Matches norm [] t ↔ t = [] := by
  constructor
  · rintro ⟨⟩
    rfl
  · rintro rfl
    exact .nil

lemma matches_one (hc : c ≠ ascii '*') : Matches norm (c :: p) u ↔
    ∃ b t, u = b :: t ∧ accepts norm c p b = true ∧ Matches norm (after c p) t := by
  constructor
  · intro h
    cases h with
    | star => exact absurd rfl hc
    | one _ haccepts hrest => exact ⟨_, _, rfl, haccepts, hrest⟩
  · rintro ⟨b, t, rfl, haccepts, hrest⟩
    exact .one hc haccepts hrest

lemma matches_star : Matches norm (ascii '*' :: p) u ↔
    ∃ k ≤ u.length, Matches norm p (u.drop k) := by
  constructor
  · intro h
    cases h with
    | @star _ s t h =>
      refine ⟨t.length, by simp, ?_⟩
      rwa [drop_left]
    | one hne => exact absurd rfl hne
  · rintro ⟨k, -, h⟩
    have := Matches.star (u.take k) h
    rwa [take_append_drop] at this

/-- Stars one after the other mean one. -/
lemma matches_stars : Matches norm (ascii '*' :: p) u ↔
    ∃ k ≤ u.length, Matches norm (skipStars p) (u.drop k) := by
  induction p generalizing u with
  | nil => exact matches_star
  | cons c p ih =>
    by_cases hc : c = ascii '*'
    swap
    · rw [skipStars, dropWhile_cons_of_neg (by simpa using hc)]
      exact matches_star
    subst hc
    rw [matches_star, skipStars, dropWhile_cons_of_pos (by simp)]
    constructor
    · rintro ⟨k, hk, h⟩
      obtain ⟨j, hj, h⟩ := ih.mp h
      rw [length_drop] at hj
      rw [drop_drop] at h
      exact ⟨k + j, by omega, h⟩
    · rintro ⟨k, hk, h⟩
      exact ⟨0, Nat.zero_le _, ih.mpr ⟨k, hk, h⟩⟩

/-- What the loop is still looking for: a match from here, or from a later place for the star. -/
def Open (norm : UInt8 → UInt8) (s : State) : Prop :=
  Matches norm s.pattern s.string ∨ ∃ pattern string, s.star = some (pattern, string) ∧
    ∃ k, 0 < k ∧ k ≤ string.length ∧ Matches norm pattern (string.drop k)

/-- What has been passed since the star is as long in every match. -/
def Passed (norm : UInt8 → UInt8) (s : State) : Prop :=
  ∀ pattern string, s.star = some (pattern, string) → s.pattern.length ≤ pattern.length ∧
    ∃ n ≤ string.length, s.string = string.drop n ∧
      ∀ u, Matches norm pattern u → n ≤ u.length ∧ Matches norm s.pattern (u.drop n)

def Steps (norm : UInt8 → UInt8) (s s' : State) : Prop := step norm s = .inr s'

lemma open_of_star (h : Passed norm s) {pattern string : List UInt8}
    (hstar : s.star = some (pattern, string)) {k : ℕ} (hk : k ≤ string.length)
    (hmatch : Matches norm pattern (string.drop k)) :
    ∃ j, k + j ≤ string.length ∧ s.string = string.drop j ∧
      Matches norm s.pattern (s.string.drop k) := by
  obtain ⟨-, n, hn, hstring, hpass⟩ := h pattern string hstar
  obtain ⟨hlen, hrest⟩ := hpass _ hmatch
  rw [length_drop] at hlen
  refine ⟨n, by omega, hstring, ?_⟩
  rwa [hstring, drop_drop, add_comm n k, ← drop_drop]

/-- A place that cannot be matched is left for the next one, if there is one. -/
lemma backtrack_open (hno : ¬ Matches norm s.pattern s.string) :
    (∃ s', backtrack s = .inr s' ∧ Passed norm s' ∧ (Open norm s' ↔ Open norm s)) ∨
      (backtrack s = .inl false ∧ ¬ Open norm s) := by
  rw [backtrack]
  cases hstar : s.star with
  | none =>
    refine .inr ⟨rfl, ?_⟩
    rintro (h | ⟨_, _, h, -⟩)
    · exact hno h
    · cases hstar.symm.trans h
  | some at' =>
    obtain ⟨pattern, string⟩ := at'
    cases string with
    | nil =>
      refine .inr ⟨rfl, ?_⟩
      rintro (h | ⟨_, _, h, k, hpos, hk, -⟩)
      · exact hno h
      · obtain ⟨rfl, rfl⟩ := Prod.mk.inj (some.inj (hstar.symm.trans h))
        exact absurd hk (not_le.mpr hpos)
    | cons b string =>
      refine .inl ⟨_, rfl, ?_, ?_⟩
      · intro pattern' string' h
        obtain ⟨rfl, rfl⟩ := Prod.mk.inj (some.inj h)
        exact ⟨le_rfl, 0, Nat.zero_le _, rfl, fun u hu => ⟨Nat.zero_le _, hu⟩⟩
      · constructor
        · rintro (h | ⟨_, _, h, k, hpos, hk, hmatch⟩)
          · exact .inr ⟨pattern, b :: string, hstar, 1, by decide, by simp, h⟩
          · obtain ⟨rfl, rfl⟩ := Prod.mk.inj (some.inj h)
            exact .inr ⟨pattern, b :: string, hstar, k + 1, by omega, by simpa using hk,
              hmatch⟩
        · rintro (h | ⟨_, _, h, k, hpos, hk, hmatch⟩)
          · exact absurd h hno
          · obtain ⟨rfl, rfl⟩ := Prod.mk.inj (some.inj (hstar.symm.trans h))
            obtain ⟨k, rfl⟩ := Nat.exists_eq_succ_of_ne_zero hpos.ne'
            rcases Nat.eq_zero_or_pos k with rfl | hk'
            · exact .inl hmatch
            · exact .inr ⟨pattern, string, rfl, k, hk', by simpa using hk, hmatch⟩

/-- A byte of the pattern that stands for one byte cannot be matched at the end of the string, nor
can it be from a later place for the star. -/
lemma not_open_of_end (h : Passed norm s) (hs : s.pattern = c :: p) (hc : c ≠ ascii '*')
    (ht : s.string = []) : ¬ Open norm s := by
  have hno : ¬ Matches norm s.pattern [] := by
    rw [hs, matches_one hc]
    rintro ⟨_, _, h, -⟩
    cases h
  rintro (hmatch | ⟨pattern, string, hstar, k, -, hk, hmatch⟩)
  · exact hno (ht ▸ hmatch)
  · obtain ⟨j, -, -, hrest⟩ := open_of_star h hstar hk hmatch
    rw [ht, drop_nil] at hrest
    exact hno hrest

lemma accepted_open (h : Passed norm s) (hs : s.pattern = c :: p) (hc : c ≠ ascii '*')
    (ht : s.string = b :: t) (haccepts : accepts norm c p b = true) :
    Passed norm ⟨after c p, t, s.star⟩ ∧
      (Open norm ⟨after c p, t, s.star⟩ ↔ Open norm s) := by
  constructor
  · intro pattern string hstar
    obtain ⟨hlen, n, hn, hstring, hpass⟩ := h pattern string hstar
    have hshort := length_after c p
    have hcons : (string.drop n).length = t.length + 1 := by
      rw [← hstring, ht]
      rfl
    rw [length_drop] at hcons
    rw [hs, length_cons] at hlen
    refine ⟨by dsimp only; omega, n + 1, by omega, ?_, fun u hu => ?_⟩
    · rw [← drop_drop, ← hstring, ht]
      rfl
    · obtain ⟨hu', hrest⟩ := hpass u hu
      rw [hs, matches_one hc] at hrest
      obtain ⟨b', t', hdrop, -, hrest⟩ := hrest
      have hlen' := congrArg List.length hdrop
      rw [length_drop, length_cons] at hlen'
      refine ⟨by omega, ?_⟩
      rw [← drop_drop, hdrop]
      exact hrest
  · refine or_congr ?_ .rfl
    rw [hs, ht, matches_one hc]
    constructor
    · exact fun hrest => ⟨b, t, rfl, haccepts, hrest⟩
    · rintro ⟨b', t', heq, -, hrest⟩
      obtain ⟨-, rfl⟩ := List.cons.inj heq
      exact hrest

/-- From the next star on nothing before it has to be looked at again. -/
lemma star_open (h : Passed norm s) (hs : s.pattern = ascii '*' :: p) :
    Passed norm ⟨skipStars p, s.string,
        some (skipStars p, s.string)⟩ ∧
      (Open norm ⟨skipStars p, s.string,
        some (skipStars p, s.string)⟩ ↔ Open norm s) := by
  constructor
  · intro pattern string hstar
    obtain ⟨rfl, rfl⟩ := Prod.mk.inj (some.inj hstar)
    exact ⟨le_rfl, 0, Nat.zero_le _, rfl, fun u hu => ⟨Nat.zero_le _, hu⟩⟩
  have hhere : Open norm ⟨skipStars p, s.string,
      some (skipStars p, s.string)⟩ ↔ Matches norm s.pattern s.string := by
    rw [hs, matches_stars]
    constructor
    · rintro (hmatch | ⟨_, _, hstar, k, -, hk, hmatch⟩)
      · exact ⟨0, Nat.zero_le _, hmatch⟩
      · obtain ⟨rfl, rfl⟩ := Prod.mk.inj (some.inj hstar)
        exact ⟨k, hk, hmatch⟩
    · rintro ⟨k, hk, hmatch⟩
      rcases Nat.eq_zero_or_pos k with rfl | hpos
      · exact .inl hmatch
      · exact .inr ⟨_, _, rfl, k, hpos, hk, hmatch⟩
  rw [hhere]
  constructor
  · exact .inl
  · rintro (hmatch | ⟨pattern, string, hstar, k, -, hk, hmatch⟩)
    · exact hmatch
    · obtain ⟨j, hj, hstring, hrest⟩ := open_of_star h hstar hk hmatch
      rw [hs, matches_star] at hrest ⊢
      obtain ⟨i, hi, hrest⟩ := hrest
      rw [length_drop] at hi
      rw [drop_drop] at hrest
      have hlen := congrArg List.length hstring
      rw [length_drop] at hlen
      exact ⟨k + i, by omega, hrest⟩

/-- The loop is at a set that does not hold the byte, and has passed a star. -/
structure Refuses (norm : UInt8 → UInt8) (s : State) : Prop where
  set : ∃ p b t, s.pattern = ascii '[' :: p ∧ s.string = b :: t ∧
    accepts norm (ascii '[') p b = false
  passed : s.star ≠ none

/-- What a round does: it goes on and keeps what is open, or answers, which is right unless a set
refuses the byte after a star. -/
lemma step_cases (h : Passed norm s) :
    (∃ s', step norm s = .inr s' ∧ Passed norm s' ∧ (Open norm s' ↔ Open norm s)) ∨
      (step norm s = .inl false ∧ (¬ Open norm s ∨ Refuses norm s)) ∨
      (step norm s = .inl true ∧ Open norm s) := by
  cases hs : s.pattern with
  | nil =>
    by_cases ht : s.string = []
    · refine .inr (.inr ⟨by rw [step, hs]; exact if_pos ht, .inl ?_⟩)
      rw [hs, ht]
      exact .nil
    · have hno : ¬ Matches norm s.pattern s.string := by
        rw [hs, matches_nil]
        exact ht
      have hstep : step norm s = backtrack s := by
        rw [step, hs]
        exact if_neg ht
      rw [hstep]
      exact (backtrack_open hno).imp_right fun ⟨he, hopen⟩ => .inl ⟨he, .inl hopen⟩
  | cons c p =>
    by_cases hc : c = ascii '*'
    · subst hc
      rw [step_star hs]
      by_cases hend : skipStars p = []
      · refine .inr (.inr ⟨if_pos hend, .inl ?_⟩)
        rw [hs, matches_stars, hend]
        refine ⟨s.string.length, le_rfl, ?_⟩
        rw [drop_length]
        exact .nil
      · exact .inl ⟨_, if_neg hend, star_open h hs⟩
    cases ht : s.string with
    | nil =>
      have hopen := not_open_of_end h hs hc ht
      by_cases hliteral : c = ascii '?' ∨ c = ascii '['
      · refine .inr (.inl ⟨?_, .inl hopen⟩)
        rw [step, hs, ht]
        dsimp only
        rw [if_neg hc]
        rcases hliteral with rfl | rfl
        · rfl
        · rfl
      · obtain ⟨hany, hset⟩ := not_or.mp hliteral
        have hstep : step norm s = backtrack s := by
          rw [step, hs, ht]
          dsimp only
          rw [if_neg hc, if_neg hany, if_neg hset]
        rw [hstep]
        exact (backtrack_open fun hmatch => hopen (.inl hmatch)).imp_right
          fun ⟨he, hopen⟩ => .inl ⟨he, .inl hopen⟩
    | cons b t =>
      rw [step_one hs ht hc]
      by_cases haccepts : accepts norm c p b = true
      · exact .inl ⟨_, if_pos haccepts, accepted_open h hs hc ht haccepts⟩
      have hno : ¬ Matches norm s.pattern s.string := by
        rw [hs, ht, matches_one hc]
        rintro ⟨b', t', heq, hyes, -⟩
        obtain ⟨rfl, -⟩ := List.cons.inj heq
        exact haccepts hyes
      rw [if_neg haccepts]
      by_cases hset : c = ascii '['
      · subst hset
        refine .inr (.inl ⟨if_pos rfl, ?_⟩)
        by_cases hstar : s.star = none
        · left
          rintro (hmatch | ⟨_, _, hsome, -⟩)
          · exact hno hmatch
          · cases hstar.symm.trans hsome
        · exact .inr ⟨⟨p, b, t, hs, ht, Bool.not_eq_true _ ▸ haccepts⟩, hstar⟩
      · rw [if_neg hset]
        exact (backtrack_open hno).imp_right fun ⟨he, hopen⟩ => .inl ⟨he, .inl hopen⟩

lemma steps_open (h : Passed norm s) (hs : Relation.ReflTransGen (Steps norm) s s') :
    Passed norm s' ∧ (Open norm s' ↔ Open norm s) := by
  induction hs with
  | refl => exact ⟨h, .rfl⟩
  | @tail t u _ hstep ih =>
    obtain ⟨hpassed, hopen⟩ := ih
    rcases step_cases hpassed with ⟨u', hu, hpassed', hopen'⟩ | ⟨hu, -⟩ | ⟨hu, -⟩
    · obtain rfl := Sum.inr.inj (hstep.symm.trans hu)
      exact ⟨hpassed', hopen'.trans hopen⟩
    · cases hstep.symm.trans hu
    · cases hstep.symm.trans hu

/-- The pattern and the string from the star on, or all of both. -/
def pending (s : State) : ℕ ×ₗ ℕ ×ₗ ℕ :=
  match s.star with
  | none => toLex (s.pattern.length + 1, toLex (0, s.pattern.length))
  | some (pattern, string) => toLex (pattern.length, toLex (string.length, s.pattern.length))

lemma backtrack_pending (hstep : backtrack s = .inr s') : pending s' < pending s := by
  rw [backtrack] at hstep
  cases hstar : s.star with
  | none =>
    rw [hstar] at hstep
    cases hstep
  | some at' =>
    obtain ⟨pattern, string⟩ := at'
    rw [hstar] at hstep
    cases string with
    | nil => cases hstep
    | cons b string =>
      obtain rfl := Sum.inr.inj hstep
      rw [pending, pending, hstar]
      exact right _ (left _ _ (Nat.lt_succ_self _))

lemma accepted_pending (hs : s.pattern = c :: p) :
    pending ⟨after c p, t, s.star⟩ < pending s := by
  have hlen : (after c p).length < s.pattern.length := by
    rw [hs]
    exact Nat.lt_succ_of_le (length_after c p)
  rw [pending, pending]
  cases s.star with
  | none => exact left _ _ (Nat.succ_lt_succ hlen)
  | some at' => exact right _ (right _ hlen)

lemma star_pending (h : Passed norm s) (hs : s.pattern = ascii '*' :: p) :
    pending ⟨skipStars p, s.string,
      some (skipStars p, s.string)⟩ < pending s := by
  have hlen : (skipStars p).length < s.pattern.length := by
    rw [hs]
    exact Nat.lt_succ_of_le (dropWhile_suffix _).length_le
  rw [pending, pending]
  cases hstar : s.star with
  | none => exact left _ _ (hlen.trans (Nat.lt_succ_self _))
  | some at' => exact left _ _ (hlen.trans_le (h at'.1 at'.2 hstar).1)

lemma steps_pending (h : Passed norm s) (hstep : Steps norm s s') : pending s' < pending s := by
  cases hs : s.pattern with
  | nil =>
    rw [Steps, step, hs] at hstep
    dsimp only at hstep
    split at hstep
    · cases hstep
    · exact backtrack_pending hstep
  | cons c p =>
    by_cases hc : c = ascii '*'
    · subst hc
      rw [Steps, step_star hs] at hstep
      split at hstep
      · cases hstep
      · obtain rfl := Sum.inr.inj hstep
        exact star_pending h hs
    cases ht : s.string with
    | nil =>
      rw [Steps, step, hs, ht] at hstep
      dsimp only at hstep
      rw [if_neg hc] at hstep
      split at hstep
      · cases hstep
      · split at hstep
        · cases hstep
        · exact backtrack_pending hstep
    | cons b t =>
      rw [Steps, step_one hs ht hc] at hstep
      split at hstep
      · obtain rfl := Sum.inr.inj hstep
        exact accepted_pending hs
      · split at hstep
        · cases hstep
        · exact backtrack_pending hstep

/-- The loop ends, with an answer given in a state that it comes to. -/
lemma run_ends (h : Passed norm s) : ∃ rounds isMatched s', run norm rounds s = some isMatched ∧
    Relation.ReflTransGen (Steps norm) s s' ∧ step norm s' = .inl isMatched := by
  induction hp : pending s using WellFoundedLT.induction generalizing s with
  | ind n ih =>
    subst hp
    cases hstep : step norm s with
    | inl isMatched => exact ⟨1, isMatched, s, by rw [run, hstep], .refl, hstep⟩
    | inr t =>
      obtain ⟨rounds, isMatched, s', hrun, hs, hlast⟩ :=
        ih _ (steps_pending h hstep) (steps_open h (.single hstep)).1 rfl
      exact ⟨rounds + 1, isMatched, s', by rw [run, hstep]; exact hrun, .head hstep hs, hlast⟩

lemma passed_initial (pattern string : List UInt8) : Passed norm (initial pattern string) := by
  intro _ _ h
  cases h

lemma open_initial (pattern string : List UInt8) :
    Open norm (initial pattern string) ↔ Matches norm pattern string := by
  constructor
  · rintro (h | ⟨_, _, h, -⟩)
    · exact h
    · cases h
  · exact .inl

lemma Refuses.step (h : Refuses norm s) : step norm s = .inl false := by
  obtain ⟨p, b, t, hs, ht, hno⟩ := h.set
  rw [step_one hs ht (by decide), hno]
  rfl

/-- A set that does not hold the byte is met after a star. -/
def RefusedAfterStar (norm : UInt8 → UInt8) (pattern string : List UInt8) : Prop :=
  ∃ s, Relation.ReflTransGen (Steps norm) (initial pattern string) s ∧ Refuses norm s

end Rounds

/-- The matcher ends on every pattern and string, and answers whether they match, unless it meets a
set that refuses the byte after a star: it says no then, where another place for the star may do. -/
theorem fnmatchImpl_iff (pattern string : List UInt8) (flags : UInt32) :
    ∃ rounds isMatched, fnmatchImpl rounds pattern string flags = some isMatched ∧
      ((isMatched = true ↔ Matches (norm flags) pattern string) ↔
        ¬ RefusedAfterStar (norm flags) pattern string ∨
          ¬ Matches (norm flags) pattern string) := by
  have hpassed : Passed (norm flags) _ := passed_initial pattern string
  obtain ⟨rounds, isMatched, s, hrun, hs, hlast⟩ := run_ends hpassed
  refine ⟨rounds, isMatched, hrun, ?_⟩
  obtain ⟨hpassed', hopen⟩ := steps_open hpassed hs
  rw [open_initial] at hopen
  have hlast_of : ∀ {u}, Relation.ReflTransGen (Steps (norm flags)) (initial pattern string) u →
      Refuses (norm flags) u → u = s := by
    intro u hu hrefuses
    have hunique : Relator.RightUnique (Steps (norm flags)) := by
      intro x y z hy hz
      exact Sum.inr.inj (hy.symm.trans hz)
    rcases Relation.ReflTransGen.total_of_right_unique hunique hu hs with h | h
    · rcases h.cases_head with rfl | ⟨v, hv, -⟩
      · rfl
      · cases hrefuses.step.symm.trans hv
    · rcases h.cases_head with rfl | ⟨v, hv, -⟩
      · rfl
      · cases hlast.symm.trans hv
  rcases step_cases hpassed' with ⟨_, hgo, -⟩ | ⟨hfalse, hwhy⟩ | ⟨htrue, hyes⟩
  · cases hlast.symm.trans hgo
  · obtain rfl := Sum.inl.inj (hlast.symm.trans hfalse)
    rcases hwhy with hno | hrefuses
    · have hno' : ¬ Matches (norm flags) pattern string := fun h => hno (hopen.mpr h)
      exact iff_of_true (iff_of_false Bool.false_ne_true hno') (Or.inr hno')
    · constructor
      · exact fun h => Or.inr fun hmatch => Bool.false_ne_true (h.mpr hmatch)
      · rintro (hnever | hno)
        · exact absurd ⟨s, hs, hrefuses⟩ hnever
        · exact iff_of_false Bool.false_ne_true hno
  · obtain rfl := Sum.inl.inj (hlast.symm.trans htrue)
    have hyes' := hopen.mp hyes
    refine iff_of_true (iff_of_true rfl hyes') (Or.inl ?_)
    rintro ⟨u, hu, hrefuses⟩
    obtain rfl := hlast_of hu hrefuses
    cases htrue.symm.trans hrefuses.step

/-- `*[b]` does not match `ab` for the matcher. -/
theorem fnmatchImpl_setAfterStar :
    (∀ rounds, fnmatchImpl rounds [ascii '*', ascii '[', ascii 'b', ascii ']']
        [ascii 'a', ascii 'b'] 0 ≠ some true) ∧
      Matches (norm 0) [ascii '*', ascii '[', ascii 'b', ascii ']'] [ascii 'a', ascii 'b'] := by
  constructor
  · rintro (_ | _ | rounds) h
    · cases h
    · exact absurd h (by decide)
    · have hfalse : fnmatchImpl (rounds + 2) [ascii '*', ascii '[', ascii 'b', ascii ']']
          [ascii 'a', ascii 'b'] 0 = some false := rfl
      cases hfalse.symm.trans h
  · exact .star [ascii 'a'] (.one (by decide) (by decide) .nil)

end TouchHle.Fnmatch
