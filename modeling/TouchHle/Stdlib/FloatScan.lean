import TouchHle.Lib.Unicode

/-! `strtod` and `wcstod`: the scan for a number, against the longest number in front. -/

namespace TouchHle.FloatScan

open List

def isSpace (c : ℕ) : Bool := 9 ≤ c ∧ c ≤ 13 ∨ c = 32

def isSign (c : ℕ) : Bool := c = 43 ∨ c = 45

def isDigit (c : ℕ) : Bool := 48 ≤ c ∧ c ≤ 57

def isPoint (c : ℕ) : Bool := c = 46

def isE (c : ℕ) : Bool := c = 69 ∨ c = 101

/-- How far the reading of a number has come. -/
inductive Phase
  | space
  | start
  | sign
  | int
  | point
  | frac
  | exp
  | expSign
  | expDigits
  deriving DecidableEq

namespace Phase

def afterStart (c : ℕ) : Option Phase :=
  if isSign c then some sign
  else if isDigit c then some int
  else if isPoint c then some point
  else none

def next : Phase → ℕ → Option Phase
  | space, c => if isSpace c then some space else afterStart c
  | start, c => afterStart c
  | sign, c => if isDigit c then some int else if isPoint c then some point else none
  | int, c =>
    if isDigit c then some int
    else if isPoint c then some frac
    else if isE c then some exp
    else none
  | point, c => if isDigit c then some frac else none
  | frac, c => if isDigit c then some frac else if isE c then some exp else none
  | exp, c => if isSign c then some expSign else if isDigit c then some expDigits else none
  | expSign, c => if isDigit c then some expDigits else none
  | expDigits, c => if isDigit c then some expDigits else none

/-- Between its digits a number may end. -/
def final : Phase → Bool
  | int | frac | expDigits => true
  | _ => false

def run : Phase → List ℕ → Option Phase
  | q, [] => some q
  | q, c :: l =>
    match q.next c with
    | some q => run q l
    | none => none

def endsFinal (q : Phase) (l : List ℕ) : Bool := (run q l).any final

end Phase

/-- A decimal number with an optional sign and exponent. -/
def isNumber (text : List ℕ) : Bool := Phase.start.endsFinal text

structure Phase.LongestFrom (q : Phase) (l : List ℕ) (n : ℕ) : Prop where
  le : n ≤ l.length
  ends : q.endsFinal (l.take n)
  longest : ∀ m ≤ l.length, q.endsFinal (l.take m) → m ≤ n

/-- The longest of all prefixes that are white space, if any, and a number. -/
def IsLongest (l : List ℕ) (n : ℕ) : Prop := Phase.space.LongestFrom l n

section Scans

variable {F : Type} (value : List ℕ → F) (zero : F)

/-- The parser of the standard library: it takes the numbers, and an `E` for an `e`. -/
def parse (text : List ℕ) : Option F :=
  if isNumber text then some (value (text.map fun c => if c = 69 then 101 else c)) else none

/-- What a scan has collected, and what is left of the string. -/
structure Scan where
  chars : List ℕ
  rest : List ℕ

namespace Scan

def pushWhile (p : ℕ → Bool) (s : Scan) : Scan :=
  ⟨s.chars ++ s.rest.takeWhile p, s.rest.dropWhile p⟩

def pushIf (p : ℕ → Bool) (s : Scan) : Scan :=
  match s.rest with
  | [] => s
  | c :: l => if p c then ⟨s.chars ++ [c], l⟩ else s

/-- Past the end of the string its terminator is read, which is nothing of what is looked for. -/
def starts (p : ℕ → Bool) (s : Scan) : Bool := s.rest.head?.any p

end Scan

def countWhitespace (l : List ℕ) : ℕ := (l.takeWhile isSpace).length

def scanFloat (l : List ℕ) : Scan :=
  let s : Scan := ⟨[], l.dropWhile isSpace⟩
  let s := s.pushIf fun c => isSign c || isDigit c
  let s := s.pushWhile isDigit
  let s := if s.starts isPoint then (s.pushIf isPoint).pushWhile isDigit else s
  if s.starts isE then
    ((s.pushIf isE).pushIf fun c => isSign c || isDigit c).pushWhile isDigit
  else s

def atofInner (l : List ℕ) : Option (F × ℕ) :=
  let s := scanFloat l
  (parse value s.chars).map fun result => (result, countWhitespace l + s.chars.length)

def strtod (s : List UInt8) : F × ℕ := (atofInner value (s.map UInt8.toNat)).getD (zero, 0)

def wcsScanDouble (l : List ℕ) : F × ℕ :=
  let s : Scan := ⟨[], l.dropWhile isSpace⟩
  let s := s.pushIf isSign
  let ints := s.pushWhile isDigit
  let point := ints.pushIf isPoint
  let fracs := if ints.starts isPoint then point.pushWhile isDigit else ints
  let anyDigits := s.starts isDigit || (ints.starts isPoint && point.starts isDigit)
  if !anyDigits then (zero, 0)
  else
    let s :=
      if fracs.starts isE then
        let exp : Scan := Scan.pushIf isSign ⟨fracs.chars ++ [101], fracs.rest.tail⟩
        if exp.starts isDigit then exp.pushWhile isDigit else fracs
      else fracs
    ((parse value s.chars).getD zero, l.length - s.rest.length)

def wcstod (s : List UInt32) : F × ℕ := wcsScanDouble value zero (s.map UInt32.toNat)

def widen (s : List UInt8) : List UInt32 := s.map UInt8.toUInt32

def text (l : List ℕ) (n : ℕ) : List ℕ := (l.take n).dropWhile isSpace

/-- The longest number in front is taken and parsed, or nothing is taken. -/
structure TakesLongest (l : List ℕ) (r : F × ℕ) : Prop where
  number : ∀ n, IsLongest l n → parse value (text l n) = some r.1 ∧ r.2 = n
  none : (∀ n, ¬ IsLongest l n) → r.2 = 0

/-- The longest number in front has no exponent and an `e` comes after it. -/
def CutExponent (l : List ℕ) : Prop :=
  ∃ n q, IsLongest l n ∧ Phase.space.run (l.take n) = some q ∧
    (q = .int ∨ q = .frac) ∧ (l.drop n).head?.any isE

end Scans

namespace Phase

def longest (q : Phase) : List ℕ → Option ℕ
  | [] => if q.final then some 0 else none
  | c :: l =>
    ((q.next c).bind fun q' => (longest q' l).map (· + 1)).or (if q.final then some 0 else none)

variable {q q' : Phase} {c n : ℕ} {l t : List ℕ}

lemma run_append (t l : List ℕ) : q.run (t ++ l) = (q.run t).bind fun q' => q'.run l := by
  induction t generalizing q with
  | nil => rfl
  | cons c t ih =>
    rw [cons_append, run, run]
    cases q.next c with
    | none => rfl
    | some q' => exact ih

lemma endsFinal_cons : q.endsFinal (c :: l) = (q.next c).any fun q' => q'.endsFinal l := by
  rw [endsFinal, run]
  cases q.next c with
  | none => rfl
  | some q' => rfl

lemma longest_spec : (∀ n, q.longest l = some n → q.LongestFrom l n) ∧
    (q.longest l = none → ∀ n, q.endsFinal (l.take n) = false) := by
  induction l generalizing q with
  | nil =>
    rw [longest]
    cases hq : q.final with
    | false =>
      refine ⟨fun n h => (by cases h), fun _ n => ?_⟩
      rw [take_nil]
      exact hq
    | true =>
      refine ⟨fun n h => ?_, fun h => by cases h⟩
      obtain rfl := Option.some.inj h
      exact ⟨le_rfl, hq, fun m hm _ => hm⟩
  | cons c l ih =>
    have hends : ∀ n, q.endsFinal ((c :: l).take (n + 1))
        = (q.next c).any fun q' => q'.endsFinal (l.take n) := by
      intro n
      rw [take_succ_cons, endsFinal_cons]
    have hstop : ((q.next c).bind fun q' => (longest q' l).map (· + 1)) = none →
        ∀ n, q.endsFinal ((c :: l).take (n + 1)) = false := by
      intro hnone n
      rw [hends]
      cases hnext : q.next c with
      | none => rfl
      | some q' =>
        rw [hnext] at hnone
        exact ih.2 (Option.map_eq_none_iff.mp hnone) n
    rw [longest]
    cases hlong : (q.next c).bind fun q' => (longest q' l).map (· + 1) with
    | some k =>
      refine ⟨fun n h => ?_, fun h => by cases h⟩
      obtain rfl := Option.some.inj h
      obtain ⟨q', hnext, hmap⟩ := Option.bind_eq_some_iff.mp hlong
      obtain ⟨k, hk, rfl⟩ := Option.map_eq_some_iff.mp hmap
      obtain ⟨hle, hfinal, hmax⟩ := ih.1 k hk
      refine ⟨Nat.succ_le_succ hle, ?_, fun m hm h => ?_⟩
      · rw [hends, hnext]
        exact hfinal
      · cases m with
        | zero => exact Nat.zero_le _
        | succ m =>
          rw [hends, hnext] at h
          exact Nat.succ_le_succ (hmax m (Nat.le_of_succ_le_succ hm) h)
    | none =>
      cases hq : q.final with
      | false =>
        refine ⟨fun n h => (by cases h), fun _ n => ?_⟩
        cases n with
        | zero => exact hq
        | succ n => exact hstop hlong n
      | true =>
        refine ⟨fun n h => ?_, fun h => by cases h⟩
        obtain rfl := Option.some.inj h
        refine ⟨Nat.zero_le _, hq, fun m hm h => ?_⟩
        cases m with
        | zero => exact le_rfl
        | succ m => exact absurd ((hstop hlong m).symm.trans h) Bool.false_ne_true

lemma final_of_longest_none (h : q.longest l = none) : q.final = false := longest_spec.2 h 0

lemma longest_of_stuck (h : ∀ c, l.head? = some c → q.next c = none) :
    q.longest l = if q.final then some 0 else none := by
  cases l with
  | nil => rfl
  | cons c l => rw [longest, h c rfl, Option.bind_none, Option.none_or]

lemma longest_cons (hnext : q.next c = some q') (hfinal : q.final = false ∨ q'.final) :
    q.longest (c :: l) = (q'.longest l).map (· + 1) := by
  rw [longest, hnext, Option.bind_some]
  cases hlong : q'.longest l with
  | some n => rfl
  | none =>
    rcases hfinal with hq | hq'
    · rw [hq]
      rfl
    · exact absurd ((final_of_longest_none hlong).symm.trans hq') Bool.false_ne_true

end Phase

lemma isLongest_iff {l : List ℕ} {n : ℕ} : IsLongest l n ↔ Phase.space.longest l = some n := by
  constructor
  · intro h
    cases hlong : Phase.space.longest l with
    | none => exact absurd ((Phase.longest_spec.2 hlong n).symm.trans h.ends) Bool.false_ne_true
    | some m =>
      have hm := Phase.longest_spec.1 m hlong
      rw [le_antisymm (h.longest m hm.le hm.ends) (hm.longest n h.le h.ends)]
  · exact Phase.longest_spec.1 n

open Phase

section Reading

variable {c : ℕ} {l r t : List ℕ} {p : ℕ → Bool} {q q' q'' : Phase} {s s' s'' : Scan}

lemma classes (c : ℕ) :
    (isDigit c → isSpace c = false ∧ isSign c = false ∧ isPoint c = false ∧ isE c = false) ∧
    (isSign c → isSpace c = false) ∧
    (isPoint c → isSpace c = false ∧ isSign c = false ∧ isDigit c = false) ∧
    (isE c → isSign c = false ∧ isDigit c = false ∧ isPoint c = false) := by
  simp only [isDigit, isSpace, isSign, isPoint, isE, decide_eq_true_eq, decide_eq_false_iff_not]
  omega

lemma starts_iff : s.starts p ↔ ∃ c r, s.rest = c :: r ∧ p c := by
  rw [Scan.starts]
  cases s.rest with
  | nil => simp
  | cons c r => simp

lemma not_of_head (h : s.starts p = false) (hc : s.rest.head? = some c) : p c = false := by
  rwa [Scan.starts, hc] at h

lemma pushIf_of_pos (hrest : s.rest = c :: r) (hc : p c) :
    s.pushIf p = ⟨s.chars ++ [c], r⟩ := by
  rw [Scan.pushIf, hrest]
  exact if_pos hc

lemma pushIf_of_not (h : s.starts p = false) : s.pushIf p = s := by
  rw [Scan.pushIf]
  cases hrest : s.rest with
  | nil => rfl
  | cons c r => exact if_neg (Bool.not_eq_true _ ▸ not_of_head h (hrest ▸ rfl))

lemma pushWhile_of_pos (hrest : s.rest = c :: r) (hc : p c) :
    s.pushWhile p = Scan.pushWhile p ⟨s.chars ++ [c], r⟩ := by
  rw [Scan.pushWhile, hrest, takeWhile_cons_of_pos hc, dropWhile_cons_of_pos hc,
    Scan.pushWhile, append_assoc]
  rfl

lemma pushWhile_of_not (h : s.starts p = false) : s.pushWhile p = s := by
  rw [Scan.pushWhile]
  cases hrest : s.rest with
  | nil =>
    rw [takeWhile_nil, dropWhile_nil, append_nil, ← hrest]
  | cons c r =>
    have hc : ¬ p c := Bool.not_eq_true _ ▸ not_of_head h (hrest ▸ rfl)
    rw [takeWhile_cons_of_neg hc, dropWhile_cons_of_neg hc, append_nil, ← hrest]

lemma not_starts_pushWhile : (s.pushWhile p).starts p = false := by
  rw [Scan.starts, Scan.pushWhile]
  cases h : (s.rest.dropWhile p).head? with
  | none => rfl
  | some c =>
    have hnot := head?_dropWhile_not p s.rest
    rw [h] at hnot
    simpa using hnot

/-- A scan that goes on from one state to another takes one phase to another. -/
def Reads (q : Phase) (s : Scan) (q' : Phase) (s' : Scan) : Prop :=
  ∃ taken, s'.chars = s.chars ++ taken ∧ s.rest = taken ++ s'.rest ∧ q.run taken = some q' ∧
    q.longest s.rest = (q'.longest s'.rest).map (· + taken.length)

lemma Reads.refl (q : Phase) (s : Scan) : Reads q s q s :=
  ⟨[], (append_nil _).symm, rfl, rfl, by simp⟩

lemma Reads.trans (h : Reads q s q' s') (h' : Reads q' s' q'' s'') : Reads q s q'' s'' := by
  obtain ⟨taken, hchars, hrest, hrun, hlongest⟩ := h
  obtain ⟨taken', hchars', hrest', hrun', hlongest'⟩ := h'
  refine ⟨taken ++ taken', ?_, ?_, ?_, ?_⟩
  · rw [hchars', hchars, append_assoc]
  · rw [hrest, hrest', append_assoc]
  · rw [run_append, hrun]
    exact hrun'
  · rw [hlongest, hlongest', Option.map_map, length_append]
    congr 1
    funext n
    exact (add_assoc _ _ _).trans (congrArg (n + ·) (add_comm _ _))

lemma Reads.push (hrest : s.rest = c :: r) (hnext : q.next c = some q')
    (hfinal : q.final = false ∨ q'.final) : Reads q s q' ⟨s.chars ++ [c], r⟩ := by
  refine ⟨[c], rfl, hrest, ?_, ?_⟩
  · rw [run, hnext]
    rfl
  · rw [hrest, longest_cons hnext hfinal]
    rfl

lemma Reads.loop (hloop : ∀ c, p c → q.next c = some q) (hq : q.final) (s : Scan) :
    Reads q s q (s.pushWhile p) := by
  obtain ⟨chars, rest⟩ := s
  induction rest generalizing chars with
  | nil =>
    rw [pushWhile_of_not rfl]
    exact .refl _ _
  | cons c r ih =>
    by_cases hc : p c
    · rw [pushWhile_of_pos rfl hc]
      exact (Reads.push rfl (hloop c hc) (.inr hq)).trans (ih _)
    · rw [pushWhile_of_not (by simpa [Scan.starts] using hc)]
      exact .refl _ _

lemma Reads.digits (h : s.starts isDigit) (hfirst : ∀ c, isDigit c → q.next c = some q')
    (hloop : ∀ c, isDigit c → q'.next c = some q') (hq' : q'.final) :
    Reads q s q' (s.pushWhile isDigit) := by
  obtain ⟨c, r, hrest, hc⟩ := starts_iff.mp h
  rw [pushWhile_of_pos hrest hc]
  exact (Reads.push hrest (hfirst c hc) (.inr hq')).trans (.loop hloop hq' _)

lemma pushSignOrDigit (s : Scan) : (s.pushIf fun c => isSign c || isDigit c).pushWhile isDigit
    = (s.pushIf isSign).pushWhile isDigit := by
  cases hrest : s.rest with
  | nil => rw [Scan.pushIf, Scan.pushIf, hrest]
  | cons c r =>
    by_cases hsign : isSign c
    · rw [pushIf_of_pos hrest hsign, pushIf_of_pos hrest (by rw [hsign]; rfl)]
    · have hnot : s.pushIf isSign = s := pushIf_of_not (by simpa [Scan.starts, hrest] using hsign)
      by_cases hdigit : isDigit c
      · rw [hnot, pushIf_of_pos hrest (by rw [hdigit, Bool.or_true]), ← pushWhile_of_pos hrest hdigit]
      · rw [hnot, pushIf_of_not (by simp [Scan.starts, hrest, hsign, hdigit])]

lemma sign_reads (s : Scan) : ∃ q, Reads .start s q (s.pushIf isSign) ∧ q.final = false ∧
    (∀ c, isDigit c → q.next c = some .int) ∧
    (∀ c, isPoint c → q.next c = some .point) ∧ (∀ c, isE c → q.next c = none) ∧
    ∀ c, (s.pushIf isSign).rest.head? = some c → isDigit c = false → isPoint c = false →
      q.next c = none := by
  by_cases h : s.starts isSign
  · obtain ⟨c, r, hrest, hc⟩ := starts_iff.mp h
    rw [pushIf_of_pos hrest hc]
    refine ⟨.sign, .push hrest (if_pos hc) (.inl rfl), rfl, fun c hd => if_pos hd, ?_, ?_, ?_⟩
    · intro c hp
      simp [Phase.next, (classes c).2.2.1 hp, hp]
    · intro c he
      simp [Phase.next, (classes c).2.2.2 he]
    · intro c _ hd hp
      simp [Phase.next, hd, hp]
  · rw [pushIf_of_not (Bool.eq_false_of_not_eq_true h)]
    refine ⟨.start, .refl _ _, rfl, ?_, ?_, ?_, ?_⟩
    · intro c hd
      simp [Phase.next, afterStart, (classes c).1 hd, hd]
    · intro c hp
      simp [Phase.next, afterStart, (classes c).2.2.1 hp, hp]
    · intro c he
      simp [Phase.next, afterStart, (classes c).2.2.2 he]
    · intro c hhead hd hp
      have hs : isSign c = false := not_of_head (Bool.eq_false_of_not_eq_true h) hhead
      simp [Phase.next, afterStart, hs, hd, hp]

def Scan.mantissa (s : Scan) : Scan :=
  let ints := (s.pushIf isSign).pushWhile isDigit
  if ints.starts isPoint then (ints.pushIf isPoint).pushWhile isDigit else ints

def Scan.anyDigits (s : Scan) : Bool :=
  let s := s.pushIf isSign
  let ints := s.pushWhile isDigit
  s.starts isDigit || (ints.starts isPoint && (ints.pushIf isPoint).starts isDigit)

/-- With a digit the number may end after the mantissa, without one there is no number. -/
lemma mantissa_reads (s : Scan) : ∃ q, Reads .start s q s.mantissa ∧
    (s.anyDigits ∧ (q = .int ∨ q = .frac) ∧ q.final ∧
        (∀ c, s.mantissa.rest.head? = some c → isE c = false → q.next c = none) ∧
        (∀ c, isE c → q.next c = some .exp) ∨
      s.anyDigits = false ∧ q.longest s.mantissa.rest = none ∧
        ∀ c, isE c → q.next c = none) := by
  obtain ⟨q, hsign, hfinal, hdigit, hpoint, hexp, hstuck⟩ := sign_reads s
  rw [Scan.mantissa, Scan.anyDigits]
  set signed := s.pushIf isSign
  have hfracExp : ∀ c, isE c → frac.next c = some .exp := by
    intro c he
    simp [Phase.next, (classes c).2.2.2 he, he]
  have hfracStuck : ∀ {s : Scan}, s.starts isDigit = false → ∀ c, s.rest.head? = some c →
      isE c = false → frac.next c = none := by
    intro s hs c hhead he
    simp [Phase.next, not_of_head hs hhead, he]
  by_cases hints : signed.starts isDigit
  · have hreads := hsign.trans (.digits hints hdigit (fun c hd => if_pos hd) rfl)
    have hnot : (signed.pushWhile isDigit).starts isDigit = false := not_starts_pushWhile
    by_cases hp : (signed.pushWhile isDigit).starts isPoint
    · obtain ⟨c, r, hrest, hc⟩ := starts_iff.mp hp
      rw [if_pos hp, pushIf_of_pos hrest hc]
      have hnext : int.next c = some .frac := by simp [Phase.next, (classes c).2.2.1 hc, hc]
      refine ⟨.frac, (hreads.trans (.push hrest hnext (.inr rfl))).trans
        (Reads.loop (q := .frac) (fun c hd => if_pos hd) rfl _),
        .inl ⟨by rw [hints]; rfl, .inr rfl, rfl, ?_, hfracExp⟩⟩
      exact hfracStuck not_starts_pushWhile
    · rw [if_neg hp]
      refine ⟨.int, hreads, .inl ⟨by rw [hints]; rfl, .inl rfl, rfl, ?_, ?_⟩⟩
      · intro c hhead he
        have hpoint' := not_of_head (Bool.eq_false_of_not_eq_true hp) hhead
        simp [Phase.next, not_of_head hnot hhead, hpoint', he]
      · intro c he
        simp [Phase.next, (classes c).2.2.2 he, he]
  · have hints' := Bool.eq_false_of_not_eq_true hints
    rw [pushWhile_of_not hints', hints', Bool.false_or]
    by_cases hp : signed.starts isPoint
    · obtain ⟨c, r, hrest, hc⟩ := starts_iff.mp hp
      rw [if_pos hp, hp, Bool.true_and, pushIf_of_pos hrest hc]
      have hreads := hsign.trans (.push hrest (hpoint c hc) (.inl hfinal))
      by_cases hfrac : Scan.starts isDigit ⟨signed.chars ++ [c], r⟩
      · refine ⟨.frac, hreads.trans (.digits hfrac (fun c hd => if_pos hd) (fun c hd => if_pos hd) rfl),
          .inl ⟨hfrac, .inr rfl, rfl, hfracStuck not_starts_pushWhile, hfracExp⟩⟩
      · have hfrac' := Bool.eq_false_of_not_eq_true hfrac
        rw [pushWhile_of_not hfrac']
        refine ⟨.point, hreads, .inr ⟨hfrac', longest_of_stuck fun c hhead => ?_, fun c he => ?_⟩⟩
        · simp [Phase.next, not_of_head hfrac' hhead]
        · simp [Phase.next, (classes c).2.2.2 he]
    · have hp' := Bool.eq_false_of_not_eq_true hp
      rw [if_neg hp, hp', Bool.false_and]
      refine ⟨q, hsign, .inr ⟨rfl, ?_, hexp⟩⟩
      rw [longest_of_stuck fun c hhead => hstuck c hhead (not_of_head hints' hhead)
        (not_of_head hp' hhead), hfinal]
      rfl

/-- An exponent with a digit is read to its end, and without one it is none. -/
lemma exponent_reads (s : Scan) : ∃ q, Reads .exp s q ((s.pushIf isSign).pushWhile isDigit) ∧
    ((s.pushIf isSign).starts isDigit ∧ q = .expDigits ∧
        q.longest ((s.pushIf isSign).pushWhile isDigit).rest = some 0 ∨
      (s.pushIf isSign).starts isDigit = false ∧ q.final = false ∧
        q.longest ((s.pushIf isSign).pushWhile isDigit).rest = none) := by
  have hsigned : ∃ q, Reads .exp s q (s.pushIf isSign) ∧ q.final = false ∧
      (∀ c, isDigit c → q.next c = some .expDigits) ∧
      ∀ c, (s.pushIf isSign).rest.head? = some c → isDigit c = false → q.next c = none := by
    by_cases h : s.starts isSign
    · obtain ⟨c, r, hrest, hc⟩ := starts_iff.mp h
      rw [pushIf_of_pos hrest hc]
      exact ⟨.expSign, .push hrest (if_pos hc) (.inl rfl), rfl, fun c hd => if_pos hd,
        fun c _ hd => by simp [Phase.next, hd]⟩
    · have h' := Bool.eq_false_of_not_eq_true h
      rw [pushIf_of_not h']
      exact ⟨.exp, .refl _ _, rfl, fun c hd => by simp [Phase.next, (classes c).1 hd, hd],
        fun c hhead hd => by simp [Phase.next, not_of_head h' hhead, hd]⟩
  obtain ⟨q, hreads, hfinal, hdigit, hstuck⟩ := hsigned
  by_cases h : (s.pushIf isSign).starts isDigit
  · refine ⟨.expDigits, hreads.trans (.digits h hdigit (fun c hd => if_pos hd) rfl),
      .inl ⟨h, rfl, longest_of_stuck fun c hhead => ?_⟩⟩
    simp [Phase.next, not_of_head not_starts_pushWhile hhead]
  · have h' := Bool.eq_false_of_not_eq_true h
    rw [pushWhile_of_not h']
    refine ⟨q, hreads, .inr ⟨h', hfinal, ?_⟩⟩
    rw [longest_of_stuck fun c hhead => hstuck c hhead (not_of_head h' hhead), hfinal]
    rfl

lemma space_longest (l : List ℕ) : space.longest l
    = (start.longest (l.dropWhile isSpace)).map (· + countWhitespace l) := by
  rw [countWhitespace]
  induction l with
  | nil => rfl
  | cons c l ih =>
    by_cases hc : isSpace c
    · have hnext : space.next c = some .space := if_pos hc
      rw [longest_cons hnext (.inl rfl), ih, dropWhile_cons_of_pos hc,
        takeWhile_cons_of_pos hc, Option.map_map]
      rfl
    · have hnext : space.next c = start.next c := if_neg hc
      rw [dropWhile_cons_of_neg hc, takeWhile_cons_of_neg hc, longest,
        longest, hnext]
      exact (congrFun Option.map_id _).symm

lemma not_isSpace_of_run (h : start.run (c :: t) = some q) : isSpace c = false := by
  by_contra hspace
  rw [Bool.not_eq_false] at hspace
  obtain ⟨hdigit, hsign, hpoint, -⟩ := classes c
  have hnone : start.next c = none := by
    simp only [hspace, Bool.true_eq_false, false_and, imp_false, Bool.not_eq_true] at *
    simp [Phase.next, afterStart, hdigit, hsign, hpoint]
  rw [run, hnone] at h
  cases h

lemma space_run (h : start.run t = some q) (hne : t ≠ []) (l : List ℕ) :
    space.run (l.takeWhile isSpace ++ t) = some q := by
  induction l with
  | nil =>
    obtain ⟨c, t, rfl⟩ := exists_cons_of_ne_nil hne
    have hnext : space.next c = start.next c :=
      if_neg (Bool.not_eq_true _ ▸ not_isSpace_of_run h)
    rw [← h, takeWhile_nil, nil_append, run, run, hnext]
  | cons c l ih =>
    by_cases hc : isSpace c
    · rw [takeWhile_cons_of_pos hc, cons_append, run,
        show space.next c = some .space from if_pos hc]
      exact ih
    · rw [takeWhile_cons_of_neg hc]
      obtain ⟨c, t, rfl⟩ := exists_cons_of_ne_nil hne
      have hnext : space.next c = start.next c :=
        if_neg (Bool.not_eq_true _ ▸ not_isSpace_of_run h)
      rw [← h, nil_append, run, run, hnext]

lemma text_eq (h : start.run t = some q) (hl : l.dropWhile isSpace = t ++ r) :
    text l (countWhitespace l + t.length) = t ∧
      l.take (countWhitespace l + t.length) = l.takeWhile isSpace ++ t ∧
      l.drop (countWhitespace l + t.length) = r := by
  have hsplit : l = l.takeWhile isSpace ++ t ++ r := by
    rw [append_assoc, ← hl, takeWhile_append_dropWhile]
  have hlength : (l.takeWhile isSpace ++ t).length = countWhitespace l + t.length :=
    length_append
  have htake : l.take (countWhitespace l + t.length) = l.takeWhile isSpace ++ t :=
    (congrArg (List.take _) hsplit).trans (take_left' hlength)
  refine ⟨?_, htake, (congrArg (List.drop _) hsplit).trans (drop_left' hlength)⟩
  rw [text, htake, dropWhile_append_of_pos fun c hc => mem_takeWhile_imp hc]
  cases t with
  | nil => rfl
  | cons c t => exact dropWhile_cons_of_neg (Bool.not_eq_true _ ▸ not_isSpace_of_run h)

end Reading

section Longest

variable {F : Type} {value : List ℕ → F} {zero : F} {l t r : List ℕ} {q : Phase}

/-- The longest number in front of a string. -/
structure Found (l t r : List ℕ) (q : Phase) : Prop where
  split : l.dropWhile isSpace = t ++ r
  run : start.run t = some q
  final : q.final
  longest : space.longest l = some (countWhitespace l + t.length)

lemma Found.isLongest (h : Found l t r q) {n : ℕ} :
    IsLongest l n ↔ n = countWhitespace l + t.length := by
  rw [isLongest_iff, h.longest, Option.some.injEq, eq_comm]

lemma Found.isNumber (h : Found l t r q) : isNumber t := by
  rw [FloatScan.isNumber, endsFinal, h.run]
  exact h.final

lemma Found.ne_nil (h : Found l t r q) : t ≠ [] := by
  rintro rfl
  obtain rfl := Option.some.inj h.run
  exact Bool.false_ne_true h.final

lemma Found.takesLongest (h : Found l t r q) {v : F} (hv : parse value t = some v) :
    TakesLongest value l (v, countWhitespace l + t.length) := by
  refine ⟨fun n hn => ?_, fun hnone => absurd (h.isLongest.mpr rfl) (hnone _)⟩
  obtain rfl := h.isLongest.mp hn
  rw [(text_eq h.run h.split).1]
  exact ⟨hv, rfl⟩

lemma Found.cut_iff (h : Found l t r q) :
    CutExponent l ↔ (q = .int ∨ q = .frac) ∧ r.head?.any isE := by
  obtain ⟨-, htake, hdrop⟩ := text_eq h.run h.split
  have hrun := space_run h.run h.ne_nil l
  constructor
  · rintro ⟨n, q', hn, hq', hphase, hnext⟩
    obtain rfl := h.isLongest.mp hn
    rw [htake, hrun] at hq'
    obtain rfl := Option.some.inj hq'
    exact ⟨hphase, hdrop ▸ hnext⟩
  · rintro ⟨hphase, hnext⟩
    exact ⟨_, q, h.isLongest.mpr rfl, by rw [htake, hrun], hphase, by rw [hdrop]; exact hnext⟩

lemma takesLongest_none (h : space.longest l = none) : TakesLongest value l (zero, 0) := by
  refine ⟨fun n hn => ?_, fun _ => rfl⟩
  cases h.symm.trans (isLongest_iff.mp hn)

lemma not_cut_of_none (h : space.longest l = none) : ¬ CutExponent l := by
  rintro ⟨n, q, hn, -⟩
  cases h.symm.trans (isLongest_iff.mp hn)

lemma parse_eq_none (h : start.endsFinal t = false) : parse value t = none :=
  if_neg (Bool.not_eq_true _ ▸ h)

lemma endsFinal_append (h : start.run t = some q) (r : List ℕ) :
    start.endsFinal (t ++ r) = q.endsFinal r := by
  rw [endsFinal, run_append, h]
  rfl

/-- The parser takes either letter for the exponent. -/
lemma parse_exponent {e : ℕ} (he : isE e) :
    parse value (t ++ e :: r) = parse value (t ++ 101 :: r) := by
  obtain rfl | rfl : e = 69 ∨ e = 101 := by simpa [isE] using he
  · have hnext : ∀ q : Phase, q.next 69 = q.next 101 := by
      intro q
      cases q <;> rfl
    have hrun : start.run (t ++ 69 :: r) = start.run (t ++ 101 :: r) := by
      rw [run_append, run_append]
      congr 1
      funext q
      rw [run, run, hnext]
    rw [parse, parse, FloatScan.isNumber, FloatScan.isNumber, endsFinal, endsFinal, hrun,
      map_append, map_append]
    rfl
  · rfl

lemma rest_exponent {s s' : Scan} (h : s.rest = s'.rest) :
    (s.pushIf isSign).rest = (s'.pushIf isSign).rest := by
  rw [Scan.pushIf, Scan.pushIf, h]
  cases hrest : s'.rest with
  | nil => exact h
  | cons c r =>
    dsimp only
    split
    · rfl
    · exact h

variable (value zero) in
lemma wcsScanDouble_eq (l : List ℕ) : wcsScanDouble value zero l =
    (let s : Scan := ⟨[], l.dropWhile isSpace⟩
    let exp : Scan := ⟨s.mantissa.chars ++ [101], s.mantissa.rest.tail⟩
    let last :=
      if s.mantissa.starts isE then
        if (exp.pushIf isSign).starts isDigit then (exp.pushIf isSign).pushWhile isDigit
        else s.mantissa
      else s.mantissa
    if !s.anyDigits then (zero, 0)
    else ((parse value last.chars).getD zero, l.length - last.rest.length)) := rfl

lemma scanFloat_eq (l : List ℕ) : scanFloat l =
    (let s : Scan := ⟨[], l.dropWhile isSpace⟩
    if s.mantissa.starts isE then
      ((s.mantissa.pushIf isE).pushIf isSign).pushWhile isDigit
    else s.mantissa) := by
  rw [scanFloat]
  simp only [pushSignOrDigit]
  rfl

lemma length_sub_rest (h : l.dropWhile isSpace = t ++ r) :
    l.length - r.length = countWhitespace l + t.length := by
  have hsplit := congrArg List.length (takeWhile_append_dropWhile (p := isSpace) (l := l))
  rw [h, length_append, length_append] at hsplit
  rw [countWhitespace]
  omega

lemma scans (l : List ℕ) : TakesLongest value l (wcsScanDouble value zero l) ∧
    (TakesLongest value l ((atofInner value l).getD (zero, 0)) ↔ ¬ CutExponent l) := by
  rw [wcsScanDouble_eq, atofInner, scanFloat_eq]
  dsimp only
  obtain ⟨q, ⟨t, hchars, hrest, hrun, hlongest⟩, hcases⟩ := mantissa_reads ⟨[], l.dropWhile isSpace⟩
  rw [nil_append] at hchars
  set m := Scan.mantissa ⟨[], l.dropWhile isSpace⟩
  dsimp only at hrest hlongest
  have hspace : space.longest l = (q.longest m.rest).map (countWhitespace l + t.length + ·) := by
    rw [space_longest, hlongest, Option.map_map]
    congr 1
    funext n
    exact (add_comm _ _).trans ((congrArg _ (add_comm _ _)).trans (add_assoc _ _ _).symm)
  rcases hcases with ⟨hdigits, hphase, hfinal, hstuck, hexp⟩ | ⟨hdigits, hnone, hexp⟩
  swap
  · have hno : space.longest l = none := by rw [hspace, hnone]; rfl
    have hparse : parse value (if m.starts isE then ((m.pushIf isE).pushIf isSign).pushWhile isDigit
        else m).chars = none := by
      by_cases hE : m.starts isE
      · obtain ⟨e, r, hm, he⟩ := starts_iff.mp hE
        obtain ⟨q', ⟨taken, htaken, -⟩, -⟩ := exponent_reads ⟨m.chars ++ [e], r⟩
        rw [if_pos hE, pushIf_of_pos hm he, htaken, hchars, append_assoc]
        refine parse_eq_none ?_
        rw [endsFinal_append hrun, singleton_append, endsFinal_cons, hexp e he]
        rfl
      · rw [if_neg hE, hchars]
        refine parse_eq_none ?_
        rw [endsFinal, hrun]
        exact final_of_longest_none hnone
    rw [hdigits, hparse]
    exact ⟨takesLongest_none hno, iff_of_true (takesLongest_none hno) (not_cut_of_none hno)⟩
  rw [hdigits]
  by_cases hE : m.starts isE
  swap
  · have hE' := Bool.eq_false_of_not_eq_true hE
    have hfound : Found l t m.rest q := by
      refine ⟨hrest, hrun, hfinal, ?_⟩
      rw [hspace, longest_of_stuck fun c hc => hstuck c hc (not_of_head hE' hc), hfinal]
      rfl
    obtain ⟨v, hv⟩ : ∃ v, parse value t = some v := ⟨_, if_pos hfound.isNumber⟩
    have htakes := hfound.takesLongest hv
    rw [if_neg hE, if_neg hE, hchars, hv, length_sub_rest hrest, hfound.cut_iff]
    refine ⟨htakes, iff_of_true htakes fun h => ?_⟩
    exact Bool.false_ne_true (hE'.symm.trans h.2)
  obtain ⟨e, r, hm, he⟩ := starts_iff.mp hE
  obtain ⟨q', ⟨taken, htaken, hr, hrun', hlongest'⟩, hend⟩ := exponent_reads ⟨m.chars ++ [e], r⟩
  obtain ⟨-, ⟨taken', htaken', hr', -⟩, -⟩ := exponent_reads ⟨m.chars ++ [101], r⟩
  set x := Scan.pushIf isSign ⟨m.chars ++ [e], r⟩
  set x' := Scan.pushIf isSign ⟨m.chars ++ [101], r⟩
  have hsame : x'.rest = x.rest := rest_exponent rfl
  have hstarts : x'.starts isDigit = x.starts isDigit := by
    rw [Scan.starts, Scan.starts, hsame]
  rw [if_pos hE, if_pos hE, pushIf_of_pos hm he, hm, tail_cons, hstarts, htaken]
  dsimp only at hr hr' hlongest'
  have hnext : q.longest (e :: r) = ((q'.longest (x.pushWhile isDigit).rest).map
      (· + taken.length + 1)).or (some 0) := by
    rw [longest, hexp e he, Option.bind_some, hlongest', Option.map_map, hfinal]
    rfl
  rw [hm] at hspace hrest
  rw [hnext] at hspace
  rcases hend with ⟨hdigit, rfl, hstop⟩ | ⟨hdigit, hq', hstop⟩
  · have hrest' : (x'.pushWhile isDigit).rest = (x.pushWhile isDigit).rest :=
      congrArg (List.dropWhile isDigit) hsame
    rw [hrest'] at hr'
    obtain rfl := append_cancel_right (hr'.symm.trans hr)
    set rest := (x.pushWhile isDigit).rest
    have hfound : Found l (t ++ e :: taken') rest .expDigits := by
      refine ⟨by rw [hrest, hr, append_assoc]; rfl, ?_, rfl, ?_⟩
      · rw [run_append, hrun, Option.bind_some, run, hexp e he]
        exact hrun'
      · rw [hspace, hstop, length_append, length_cons, ← add_assoc]
        simp
    obtain ⟨v, hv⟩ : ∃ v, parse value (t ++ e :: taken') = some v := ⟨_, if_pos hfound.isNumber⟩
    have htakes := hfound.takesLongest hv
    rw [if_pos hdigit, hrest', htaken']
    dsimp only
    rw [hchars, append_assoc, append_assoc, singleton_append, singleton_append,
      ← parse_exponent he, hv, length_sub_rest hfound.split, hfound.cut_iff]
    exact ⟨htakes, iff_of_true htakes fun h => by rcases h.1 with h | h <;> cases h⟩
  · -- it has none: only the narrow scan takes the letter, and has no number then
    rw [hstop] at hspace
    have hfound : Found l t (e :: r) q := ⟨hrest, hrun, hfinal, hspace⟩
    obtain ⟨v, hv⟩ : ∃ v, parse value t = some v := ⟨_, if_pos hfound.isNumber⟩
    have hnone : parse value (t ++ [e] ++ taken) = none := by
      refine parse_eq_none ?_
      rw [append_assoc, endsFinal_append hrun, singleton_append, endsFinal_cons,
        hexp e he]
      change exp.endsFinal taken = false
      rw [endsFinal, hrun']
      exact hq'
    have hno : ¬ x.starts isDigit := by
      rw [hdigit]
      exact Bool.false_ne_true
    rw [if_neg hno]
    dsimp only
    rw [hchars, hv, hm, length_sub_rest hrest, hnone]
    refine ⟨hfound.takesLongest hv, iff_of_false (fun h => ?_) (not_not.mpr ?_)⟩
    · have hzero := (h.number _ (hfound.isLongest.mpr rfl)).2
      have hpos := length_pos_of_ne_nil hfound.ne_nil
      dsimp only [Option.map_none, Option.getD_none] at hzero
      omega
    · exact hfound.cut_iff.mpr ⟨hphase, he⟩

end Longest

/-- Both functions take the longest number in front, or nothing if there is none, exactly if the
longest number is not one without an exponent that an `e` comes after. -/
theorem takesLongest_iff {F : Type} (value : List ℕ → F) (zero : F) (s : List UInt8) :
    TakesLongest value (s.map UInt8.toNat) (strtod value zero s) ∧
        TakesLongest value (s.map UInt8.toNat) (wcstod value zero (widen s)) ↔
      ¬ CutExponent (s.map UInt8.toNat) := by
  have hwide : (widen s).map UInt32.toNat = s.map UInt8.toNat := by
    rw [widen, List.map_map]
    exact List.map_congr_left fun b _ => UInt8.toNat_toUInt32 b
  obtain ⟨hlong, hnarrow⟩ : TakesLongest value (s.map UInt8.toNat) _ ∧ _ := scans (s.map UInt8.toNat)
  rw [wcstod, hwide, strtod]
  exact ⟨fun h => hnarrow.mp h.1, fun h => ⟨hnarrow.mpr h, hlong⟩⟩

theorem not_takesLongest_cut : ¬ TakesLongest (fun text => text) ([55, 101].map UInt8.toNat)
    (strtod (fun text => text) [] [55, 101]) := by
  intro h
  have hlongest : IsLongest ([55, 101].map UInt8.toNat) 1 := isLongest_iff.mpr rfl
  have hone : (0 : ℕ) = 1 := (h.number 1 hlongest).2
  cases hone

end TouchHle.FloatScan
