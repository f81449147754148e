import TouchHle.Stdio.Printf

namespace TouchHle.Stdio

open Lib Memory List Option Stdio Output

/-- Where in a format the reading is, with what has been done so far: the indices that were read, the
numbers that were made of digits, each with its limit, the arguments that were taken, each with its
place and its words, and the directives, each from its start to its specifier. -/
structure Scan where
  idx : ℕ
  out : Output
  reads : List ℕ
  sums : List (ℕ × ℕ)
  takes : List (ℕ × ℕ)
  directives : List (ℕ × ℕ × Directive)

namespace Scan

def skip (s : Scan) : Scan := { s with idx := s.idx + 1 }

def take (s : Scan) : UInt32 × Scan :=
  (s.out.args.next.1, { s with
    out := { s.out with args := s.out.args.next.2 }
    takes := s.takes ++ [(s.out.args.offset, 1)] })

def converted (s : Scan) (f : Formatter) (d : Directive) : Scan :=
  let out := s.out.convert f d
  { s with
    out := out
    takes := s.takes ++ (if out.args.offset = s.out.args.offset then []
      else [(s.out.args.offset, out.args.offset - s.out.args.offset)]) }

end Scan

section

variable (get : ℕ → UInt8)

def peek (s : Scan) : Char × Scan := (asChar (get s.idx), { s with reads := s.reads ++ [s.idx] })

def readFlagAt (c : Char) (s : Scan) : Bool × Scan :=
  if (peek get s).1 = c then (true, (peek get s).2.skip) else (false, (peek get s).2)

def addDigit (limit n digit : ℕ) : ℕ := min limit (min limit (n * 10) + digit)

def readNumberAt (limit : ℕ) : ℕ → ℕ → Scan → Option (ℕ × Scan)
  | 0, _, _ => none
  | rounds + 1, n, s =>
    let b := (peek get s).1
    let s := (peek get s).2
    if '0' ≤ b ∧ b ≤ '9' then
      let n := addDigit limit n (b.toNat - 48)
      readNumberAt limit rounds n { s.skip with sums := s.sums ++ [(limit, n)] }
    else some (n, s)

def readPadWidthAt (rounds : ℕ) (s : Scan) : Option (ℤ × Scan) :=
  let b := (peek get s).1
  let s := (peek get s).2
  if b = '*' then some (s.take.1.toInt32.toInt, s.take.2.skip)
  else (readNumberAt get (2 ^ 31 - 1) rounds 0 s).map fun r => (r.1, r.2)

def readPrecisionAt (rounds : ℕ) (s : Scan) : Option (Option ℕ × Scan) :=
  let b := (peek get s).1
  let s := (peek get s).2
  if b = '.' then
    let b := (peek get s.skip).1
    let s := (peek get s.skip).2
    if b = '*' then
      some (some (min s.take.1.toInt32.toInt.toNat maxFieldWidth), s.take.2.skip)
    else
      (readNumberAt get (2 ^ 64 - 1) rounds 0 s).map fun r => (some (min r.1 maxFieldWidth), r.2)
  else some (none, s)

def readDoubled (c : Char) (once twice : LengthModifier) (s : Scan) : Option LengthModifier × Scan :=
  let b := (peek get s.skip).1
  let s := (peek get s.skip).2
  if b = c then (some twice, s.skip) else (some once, s)

def readLengthModifierAt (s : Scan) : Option LengthModifier × Scan :=
  let b := (peek get s).1
  let s := (peek get s).2
  if b = 'h' then readDoubled get 'h' .h .hh s
  else if b = 'l' then readDoubled get 'l' .l .ll s
  else if b = 'q' ∨ b = 'j' then (some .ll, s.skip)
  else if b = 'z' ∨ b = 't' then (some .l, s.skip)
  else if b = 'L' then (some .L, s.skip)
  else (none, s)

def readDirectiveAt (rounds : ℕ) (s : Scan) : Option (Directive × Scan) := do
  let prependSign := readFlagAt get '+' s
  let alternativeForm := readFlagAt get '#' prependSign.2
  let zeroPad := readFlagAt get '0' alternativeForm.2
  let leftJustified := readFlagAt get '-' zeroPad.2
  let width ← readPadWidthAt get rounds leftJustified.2
  let precision ← readPrecisionAt get rounds width.2
  let lengthModifier := readLengthModifierAt get precision.2
  let specifier := peek get lengthModifier.2
  let d : Directive :=
    { prependSign := prependSign.1
      alternativeForm := alternativeForm.1
      zeroPad := zeroPad.1
      leftJustified := if width.1 < 0 then true else leftJustified.1
      padWidth := min width.1.natAbs maxFieldWidth
      precision := precision.1
      lengthModifier := lengthModifier.1
      specifier := specifier.1 }
  return (d, { specifier.2 with
    directives := specifier.2.directives ++ [(s.idx, specifier.2.idx, d)] })

end

/-- The specifier that is not known is read again as text. Between two directives the format may have
changed, for a conversion can write to the memory that holds it. -/
def loopAt (getFormatChar : Mem → ℕ → UInt8) (f : Formatter) (fuel : ℕ) : ℕ → Scan → Option Scan
  | 0, _ => none
  | rounds + 1, s =>
    let get := getFormatChar s.out.mem
    let c := (peek get s).1
    let s := (peek get s).2.skip
    if maxTotalOutput ≤ s.out.res.length ∨ c.toNat = 0 then some s
    else if c ≠ '%' then
      loopAt getFormatChar f fuel rounds { s with out := s.out.put s.out.args [ascii c] }
    else
      match readDirectiveAt get fuel s with
      | none => none
      | some (d, s) =>
        if d.specifier ∉ allSpecifiers then loopAt getFormatChar f fuel rounds s
        else if d.specifier = '%' then
          loopAt getFormatChar f fuel rounds { s.skip with out := s.out.put s.out.args [ascii c] }
        else loopAt getFormatChar f fuel rounds (s.skip.converted f d)

def printfInnerAt (getFormatChar : Mem → ℕ → UInt8) (f : Formatter) (m : Mem) (args : Args)
    (fuel : ℕ) : Option Scan :=
  loopAt getFormatChar f fuel fuel ⟨0, ⟨m, args, []⟩, [], [], [], []⟩

structure IsFormat (get : ℕ → UInt8) (fmt : List UInt8) : Prop where
  chars : ∀ i (h : i < fmt.length), get i = fmt[i]
  ne_zero : ∀ c ∈ fmt, c ≠ 0
  stop : get fmt.length = 0

def starsIn (fmt : List UInt8) (i j : ℕ) : ℕ := ((fmt.drop i).take (j - i)).count (ascii '*')

def oneWordEach (offset n : ℕ) : List (ℕ × ℕ) := (List.range n).map fun k => (offset + k, 1)

structure Passes (fmt : List UInt8) (s s' : Scan) : Prop where
  mono : s.idx ≤ s'.idx
  within : s'.idx ≤ fmt.length
  reads : ∀ i ∈ s'.reads, i ∈ s.reads ∨ i ≤ fmt.length
  sums : ∀ p ∈ s'.sums, p ∈ s.sums ∨ p.2 ≤ p.1
  offset : s'.out.args.offset = s.out.args.offset + starsIn fmt s.idx s'.idx
  takes : s'.takes = s.takes ++ oneWordEach s.out.args.offset (starsIn fmt s.idx s'.idx)
  directives : s'.directives = s.directives

variable {get : ℕ → UInt8} {fmt : List UInt8} {s s' s'' : Scan} {c : Char} {i j k n : ℕ}

lemma starsIn_self : starsIn fmt i i = 0 := by simp [starsIn]

lemma starsIn_add (hij : i ≤ j) (hjk : j ≤ k) :
    starsIn fmt i k = starsIn fmt i j + starsIn fmt j k := by
  have hsplit : (fmt.drop i).take (k - i)
      = (fmt.drop i).take (j - i) ++ (fmt.drop j).take (k - j) := by
    have hk : k - i = (j - i) + (k - j) := by omega
    have hj : i + (j - i) = j := by omega
    rw [hk, take_add, drop_drop, hj]
  rw [starsIn, hsplit, count_append]
  rfl

lemma starsIn_succ (h : i < fmt.length) :
    starsIn fmt i (i + 1) = if fmt[i] = ascii '*' then 1 else 0 := by
  have hone : (fmt.drop i).take (i + 1 - i) = [fmt[i]] := by
    rw [Nat.add_sub_cancel_left, take_one_drop_eq_of_lt_length h]
    rfl
  rw [starsIn, hone, count_singleton]
  by_cases heq : fmt[i] = ascii '*' <;> simp [heq]

lemma oneWordEach_add (offset m n : ℕ) :
    oneWordEach offset (m + n) = oneWordEach offset m ++ oneWordEach (offset + m) n := by
  rw [oneWordEach, range_add, map_append, List.map_map]
  refine congrArg (oneWordEach offset m ++ ·) (map_congr_left fun k _ => ?_)
  simp [add_assoc]

namespace Passes

lemma trans (h : Passes fmt s s') (h' : Passes fmt s' s'') : Passes fmt s s'' where
  mono := h.mono.trans h'.mono
  within := h'.within
  reads i hi := (h'.reads i hi).elim (h.reads i) .inr
  sums p hp := (h'.sums p hp).elim (h.sums p) .inr
  offset := by rw [h'.offset, h.offset, starsIn_add h.mono h'.mono, add_assoc]
  takes := by
    rw [h'.takes, h.takes, h.offset, starsIn_add h.mono h'.mono, oneWordEach_add, append_assoc]
  directives := h'.directives.trans h.directives

lemma noted (hidx : s.idx ≤ fmt.length) {reads : List ℕ} {sums : List (ℕ × ℕ)}
    (hreads : ∀ i ∈ reads, i ∈ s.reads ∨ i ≤ fmt.length)
    (hsums : ∀ p ∈ sums, p ∈ s.sums ∨ p.2 ≤ p.1) :
    Passes fmt s { s with reads := reads, sums := sums } where
  mono := le_rfl
  within := hidx
  reads := hreads
  sums := hsums
  offset := by simp [starsIn_self]
  takes := by simp [starsIn_self, oneWordEach]
  directives := rfl

lemma peek (get : ℕ → UInt8) (hidx : s.idx ≤ fmt.length) : Passes fmt s (peek get s).2 := by
  refine noted hidx (fun i hi => ?_) fun p hp => .inl hp
  rcases mem_append.mp hi with hi | hi
  · exact .inl hi
  · obtain rfl := mem_singleton.mp hi
    exact .inr hidx

lemma skip (hlt : s.idx < fmt.length) (hne : fmt[s.idx] ≠ ascii '*') : Passes fmt s s.skip where
  mono := Nat.le_succ _
  within := hlt
  reads i hi := .inl hi
  sums p hp := .inl hp
  offset := by
    change s.out.args.offset = s.out.args.offset + starsIn fmt s.idx (s.idx + 1)
    rw [starsIn_succ hlt, if_neg hne, add_zero]
  takes := by
    change s.takes = s.takes ++ oneWordEach s.out.args.offset (starsIn fmt s.idx (s.idx + 1))
    rw [starsIn_succ hlt, if_neg hne]
    simp [oneWordEach]
  directives := rfl

lemma star (hlt : s.idx < fmt.length) (heq : fmt[s.idx] = ascii '*') :
    Passes fmt s s.take.2.skip where
  mono := Nat.le_succ _
  within := hlt
  reads i hi := .inl hi
  sums p hp := .inl hp
  offset := by
    change s.out.args.offset + 1 = s.out.args.offset + starsIn fmt s.idx (s.idx + 1)
    rw [starsIn_succ hlt, if_pos heq]
  takes := by
    change s.takes ++ [(s.out.args.offset, 1)]
      = s.takes ++ oneWordEach s.out.args.offset (starsIn fmt s.idx (s.idx + 1))
    rw [starsIn_succ hlt, if_pos heq]
    rfl
  directives := rfl

end Passes

namespace IsFormat

variable (h : IsFormat get fmt)

include h

lemma lt_of_ne (hidx : i ≤ fmt.length) (hne : get i ≠ 0) :
    ∃ hlt : i < fmt.length, get i = fmt[i] := by
  rcases Nat.lt_or_eq_of_le hidx with hlt | rfl
  · exact ⟨hlt, h.chars i hlt⟩
  · exact absurd h.stop hne

lemma lt_of_char (hidx : i ≤ fmt.length) (hc : asChar (get i) = c) (hne : c.toNat ≠ 0) :
    ∃ hlt : i < fmt.length, fmt[i] = ascii c := by
  have hzero : get i ≠ 0 := by
    intro hzero
    rw [← hc, hzero] at hne
    exact hne rfl
  obtain ⟨hlt, hget⟩ := h.lt_of_ne hidx hzero
  refine ⟨hlt, ?_⟩
  rw [← hget, ← hc, ascii_asChar]

lemma getD_eq (hidx : i ≤ fmt.length) : fmt.getD i 0 = get i := by
  rcases Nat.lt_or_eq_of_le hidx with hlt | rfl
  · rw [getD_eq_getElem _ _ hlt, h.chars i hlt]
  · rw [getD_eq_default _ _ le_rfl, h.stop]

lemma le_of_null (hnull : (asChar (get i)).toNat = 0) : fmt.length ≤ i := by
  refine not_lt.mp fun hlt => h.ne_zero _ (getElem_mem hlt) ?_
  rw [toNat_asChar, h.chars i hlt] at hnull
  exact UInt8.toNat_inj.mp hnull

lemma passes_char (hidx : s.idx ≤ fmt.length) (hc : asChar (get s.idx) = c) (hne : c.toNat ≠ 0)
    (hstar : ascii c ≠ ascii '*') : Passes fmt s (peek get s).2.skip := by
  obtain ⟨hlt, heq⟩ := h.lt_of_char hidx hc hne
  refine (Passes.peek get hidx).trans (Passes.skip (s := (peek get s).2) hlt ?_)
  change fmt[s.idx] ≠ ascii '*'
  rw [heq]
  exact hstar

lemma passes_star (hidx : s.idx ≤ fmt.length) (hc : asChar (get s.idx) = '*') :
    Passes fmt s (peek get s).2.take.2.skip := by
  obtain ⟨hlt, heq⟩ := h.lt_of_char hidx hc (by decide)
  exact (Passes.peek get hidx).trans (Passes.star (s := (peek get s).2) hlt heq)

lemma passes_flag (hidx : s.idx ≤ fmt.length) (hne : c.toNat ≠ 0) (hstar : ascii c ≠ ascii '*') :
    Passes fmt s (readFlagAt get c s).2 := by
  rw [readFlagAt]
  by_cases hc : asChar (get s.idx) = c
  · rw [if_pos (show (peek get s).1 = c from hc)]
    exact h.passes_char hidx hc hne hstar
  · rw [if_neg (show ¬ (peek get s).1 = c from hc)]
    exact Passes.peek get hidx

lemma passes_number (limit : ℕ) {rounds : ℕ} (hidx : s.idx ≤ fmt.length)
    (hrounds : fmt.length - s.idx < rounds) :
    ∃ r, readNumberAt get limit rounds n s = some r ∧ Passes fmt s r.2 := by
  induction rounds generalizing n s with
  | zero => omega
  | succ rounds ih =>
    rw [readNumberAt]
    by_cases hdigit : '0' ≤ (peek get s).1 ∧ (peek get s).1 ≤ '9'
    · rw [if_pos hdigit]
      have hne : (peek get s).1.toNat ≠ 0 := by
        have hle : '0'.toNat ≤ (peek get s).1.toNat := hdigit.1
        have hpos : 0 < '0'.toNat := by decide
        omega
      have hstar : ascii (peek get s).1 ≠ ascii '*' := by
        intro heq
        have hle : '0'.toNat ≤ (asChar (get s.idx)).toNat := hdigit.1
        have hbyte : get s.idx = ascii '*' := (ascii_asChar _).symm.trans heq
        rw [hbyte] at hle
        exact absurd hle (by decide)
      have hpass := h.passes_char hidx rfl hne hstar
      have hlt : s.idx < fmt.length := (h.lt_of_char hidx rfl hne).1
      have hsum : Passes fmt (peek get s).2.skip { (peek get s).2.skip with
          sums := (peek get s).2.sums ++
            [(limit, addDigit limit n ((peek get s).1.toNat - 48))] } := by
        refine Passes.noted hpass.within (fun i hi => .inl hi) fun p hp => ?_
        rcases mem_append.mp hp with hp | hp
        · exact .inl hp
        · obtain rfl := mem_singleton.mp hp
          exact .inr (min_le_left _ _)
      obtain ⟨r, hr, hrest⟩ := ih (n := addDigit limit n ((peek get s).1.toNat - 48))
        (s := { (peek get s).2.skip with sums := (peek get s).2.sums ++
          [(limit, addDigit limit n ((peek get s).1.toNat - 48))] }) hpass.within
        (by change fmt.length - (s.idx + 1) < rounds; omega)
      exact ⟨r, hr, (hpass.trans hsum).trans hrest⟩
    · rw [if_neg hdigit]
      exact ⟨_, rfl, Passes.peek get hidx⟩

lemma passes_width {rounds : ℕ} (hidx : s.idx ≤ fmt.length) (hrounds : fmt.length < rounds) :
    ∃ r, readPadWidthAt get rounds s = some r ∧ Passes fmt s r.2 := by
  rw [readPadWidthAt]
  by_cases hstar : (peek get s).1 = '*'
  · exact ⟨_, if_pos hstar, h.passes_star hidx hstar⟩
  · obtain ⟨r, hr, hpass⟩ := h.passes_number (n := 0) (s := (peek get s).2) (2 ^ 31 - 1) hidx
      (by omega : _ < rounds)
    exact ⟨_, (if_neg hstar).trans (congrArg _ hr), (Passes.peek get hidx).trans hpass⟩

lemma passes_precision {rounds : ℕ} (hidx : s.idx ≤ fmt.length) (hrounds : fmt.length < rounds) :
    ∃ r, readPrecisionAt get rounds s = some r ∧ Passes fmt s r.2 := by
  rw [readPrecisionAt]
  by_cases hpoint : (peek get s).1 = '.'
  · have hpass := h.passes_char hidx hpoint (by decide) (by decide)
    by_cases hstar : (peek get (peek get s).2.skip).1 = '*'
    · exact ⟨_, (if_pos hpoint).trans (if_pos hstar),
        hpass.trans (h.passes_star hpass.within hstar)⟩
    · obtain ⟨r, hr, hnumber⟩ := h.passes_number (n := 0)
        (s := (peek get (peek get s).2.skip).2) (2 ^ 64 - 1) hpass.within
        (by omega : _ < rounds)
      exact ⟨_, ((if_pos hpoint).trans (if_neg hstar)).trans (congrArg _ hr),
        hpass.trans ((Passes.peek get hpass.within).trans hnumber)⟩
  · exact ⟨_, if_neg hpoint, Passes.peek get hidx⟩

lemma passes_doubled (hidx : s.idx ≤ fmt.length) (hc : asChar (get s.idx) = c)
    (hne : c.toNat ≠ 0) (hstar : ascii c ≠ ascii '*') (once twice : LengthModifier) :
    Passes fmt s (readDoubled get c once twice (peek get s).2).2 := by
  have hpass := h.passes_char hidx hc hne hstar
  rw [readDoubled]
  by_cases htwice : (peek get (peek get s).2.skip).1 = c
  · rw [if_pos htwice]
    exact hpass.trans (h.passes_char hpass.within htwice hne hstar)
  · rw [if_neg htwice]
    exact hpass.trans (Passes.peek get hpass.within)

lemma passes_modifier (hidx : s.idx ≤ fmt.length) :
    Passes fmt s (readLengthModifierAt get s).2 := by
  rw [readLengthModifierAt]
  split
  · rename_i hc
    exact h.passes_doubled hidx hc (by decide) (by decide) _ _
  split
  · rename_i hc
    exact h.passes_doubled hidx hc (by decide) (by decide) _ _
  split
  · rename_i hc
    rcases hc with hc | hc <;> exact h.passes_char hidx hc (by decide) (by decide)
  split
  · rename_i hc
    rcases hc with hc | hc <;> exact h.passes_char hidx hc (by decide) (by decide)
  split
  · rename_i hc
    exact h.passes_char hidx hc (by decide) (by decide)
  · exact Passes.peek get hidx

lemma passes_directive {rounds : ℕ} (hidx : s.idx ≤ fmt.length) (hrounds : fmt.length < rounds) :
    ∃ d t, readDirectiveAt get rounds s = some (d, { t with
        directives := t.directives ++ [(s.idx, t.idx, d)] }) ∧
      Passes fmt s t ∧ d.specifier = asChar (get t.idx) := by
  have hplus := h.passes_flag (c := '+') hidx (by decide) (by decide)
  have hform := hplus.trans (h.passes_flag (c := '#') hplus.within (by decide) (by decide))
  have hzero := hform.trans (h.passes_flag (c := '0') hform.within (by decide) (by decide))
  have hleft := hzero.trans (h.passes_flag (c := '-') hzero.within (by decide) (by decide))
  obtain ⟨w, hw, hwidth⟩ := h.passes_width hleft.within hrounds
  have hwidth := hleft.trans hwidth
  obtain ⟨p, hp, hprecision⟩ := h.passes_precision hwidth.within hrounds
  have hprecision := hwidth.trans hprecision
  have hmodifier := hprecision.trans (h.passes_modifier hprecision.within)
  rw [readDirectiveAt, hw]
  simp only [bind_eq_bind, bind_some, hp]
  exact ⟨_, (peek get (readLengthModifierAt get p.2).2).2, rfl,
    hmodifier.trans (Passes.peek get hmodifier.within), rfl⟩

variable (h : IsFormat get fmt)

include h

lemma formatChar_drop (hidx : i ≤ fmt.length) : formatChar (fmt.drop i) = asChar (get i) := by
  rw [formatChar, headD_eq_head?_getD, head?_drop]
  rcases Nat.lt_or_eq_of_le hidx with hlt | rfl
  · rw [getElem?_eq_getElem hlt, h.chars i hlt]
    rfl
  · rw [getElem?_eq_none le_rfl, h.stop]
    rfl

lemma readFlag_drop (hidx : s.idx ≤ fmt.length) (c : Char) : readFlag c (fmt.drop s.idx)
    = ((readFlagAt get c s).1, fmt.drop (readFlagAt get c s).2.idx) := by
  rw [readFlag, readFlagAt, h.formatChar_drop hidx]
  by_cases hc : asChar (get s.idx) = c
  · rw [if_pos hc, if_pos (show (peek get s).1 = c from hc), tail_drop]
    rfl
  · rw [if_neg hc, if_neg (show ¬ (peek get s).1 = c from hc)]
    rfl

omit h in
lemma isDigit_iff (b : UInt8) : isDigit b = true ↔ '0' ≤ asChar b ∧ asChar b ≤ '9' := by
  have hlow : '0' ≤ asChar b ↔ 48 ≤ b.toNat := by
    rw [← toNat_asChar b]
    exact UInt32.le_iff_toNat_le
  have hhigh : asChar b ≤ '9' ↔ b.toNat ≤ 57 := by
    rw [← toNat_asChar b]
    exact UInt32.le_iff_toNat_le
  rw [hlow, hhigh, isDigit, Bool.and_eq_true, decide_eq_true_eq, decide_eq_true_eq,
    UInt8.le_iff_toNat_le, UInt8.le_iff_toNat_le]
  rfl

lemma readNumber_drop {limit rounds : ℕ} {r : ℕ × Scan} (hidx : s.idx ≤ fmt.length)
    (hr : readNumberAt get limit rounds n s = some r) :
    readNumber limit (fmt.drop s.idx) n = (r.1, fmt.drop r.2.idx) ∧ r.2.out = s.out := by
  induction rounds generalizing n s with
  | zero => cases hr
  | succ rounds ih =>
    rw [readNumberAt] at hr
    by_cases hdigit : '0' ≤ (peek get s).1 ∧ (peek get s).1 ≤ '9'
    · have hbyte : isDigit (get s.idx) = true := (isDigit_iff _).mpr hdigit
      have hne : get s.idx ≠ 0 := by
        intro hzero
        rw [hzero] at hbyte
        exact absurd hbyte (by decide)
      obtain ⟨hlt, hget⟩ := h.lt_of_ne hidx hne
      have hnext := (if_pos hdigit).symm.trans hr
      obtain ⟨hnumber, hout⟩ := ih (s := { (peek get s).2.skip with sums := (peek get s).2.sums ++
        [(limit, addDigit limit n ((peek get s).1.toNat - 48))] }) hlt hnext
      refine ⟨?_, hout⟩
      rw [drop_eq_getElem_cons hlt, ← hget, readNumber, if_pos hbyte]
      have hcode : (peek get s).1.toNat = (get s.idx).toNat := toNat_asChar _
      rw [addDigit, hcode] at hnumber
      exact hnumber
    · obtain rfl := some.inj ((if_neg hdigit).symm.trans hr)
      refine ⟨?_, rfl⟩
      change _ = (n, fmt.drop s.idx)
      rcases Nat.lt_or_eq_of_le hidx with hlt | heq
      · have hbyte : ¬ isDigit (get s.idx) = true := fun hb => hdigit ((isDigit_iff _).mp hb)
        rw [drop_eq_getElem_cons hlt, ← h.chars _ hlt, readNumber, if_neg hbyte]
      · rw [heq, drop_length]
        rfl

lemma readPadWidth_drop {rounds : ℕ} {r : ℤ × Scan} (hidx : s.idx ≤ fmt.length)
    (hr : readPadWidthAt get rounds s = some r) :
    readPadWidth (fmt.drop s.idx) s.out.args = (r.1, fmt.drop r.2.idx, r.2.out.args) ∧
      r.2.out = { s.out with args := r.2.out.args } := by
  rw [readPadWidthAt] at hr
  rw [readPadWidth, h.formatChar_drop hidx]
  by_cases hstar : (peek get s).1 = '*'
  · obtain rfl := some.inj ((if_pos hstar).symm.trans hr)
    refine ⟨?_, rfl⟩
    rw [if_pos (show asChar (get s.idx) = '*' from hstar), tail_drop]
    rfl
  · obtain ⟨r', hr', rfl⟩ := map_eq_some_iff.mp ((if_neg hstar).symm.trans hr)
    obtain ⟨hnumber, hout⟩ := h.readNumber_drop (s := (peek get s).2) hidx hr'
    rw [if_neg (show ¬ asChar (get s.idx) = '*' from hstar)]
    change readNumber _ (fmt.drop s.idx) 0 = _ at hnumber
    simp only [hnumber, hout]
    exact ⟨rfl, rfl⟩

lemma readPrecision_drop {rounds : ℕ} {r : Option ℕ × Scan} (hidx : s.idx ≤ fmt.length)
    (hr : readPrecisionAt get rounds s = some r) :
    readPrecision (fmt.drop s.idx) s.out.args = (r.1, fmt.drop r.2.idx, r.2.out.args) ∧
      r.2.out = { s.out with args := r.2.out.args } := by
  rw [readPrecisionAt] at hr
  rw [readPrecision, h.formatChar_drop hidx]
  by_cases hpoint : (peek get s).1 = '.'
  · have hlt : s.idx + 1 ≤ fmt.length := (h.lt_of_char hidx hpoint (by decide)).1
    replace hr := (if_pos hpoint).symm.trans hr
    rw [if_pos (show asChar (get s.idx) = '.' from hpoint), tail_drop, h.formatChar_drop hlt]
    by_cases hstar : (peek get (peek get s).2.skip).1 = '*'
    · obtain rfl := some.inj ((if_pos hstar).symm.trans hr)
      refine ⟨?_, rfl⟩
      rw [if_pos (show asChar (get (s.idx + 1)) = '*' from hstar), tail_drop]
      rfl
    · obtain ⟨r', hr', rfl⟩ := map_eq_some_iff.mp ((if_neg hstar).symm.trans hr)
      obtain ⟨hnumber, hout⟩ := h.readNumber_drop
        (s := (peek get (peek get s).2.skip).2) hlt hr'
      rw [if_neg (show ¬ asChar (get (s.idx + 1)) = '*' from hstar)]
      change readNumber _ (fmt.drop (s.idx + 1)) 0 = _ at hnumber
      simp only [hnumber, hout]
      exact ⟨rfl, rfl⟩
  · obtain rfl := some.inj ((if_neg hpoint).symm.trans hr)
    rw [if_neg (show ¬ asChar (get s.idx) = '.' from hpoint)]
    exact ⟨rfl, rfl⟩

lemma readDoubled_drop (hidx : s.idx ≤ fmt.length) (hc : asChar (get s.idx) = c)
    (hne : c.toNat ≠ 0) (once twice : LengthModifier) :
    (if formatChar (fmt.drop s.idx).tail = c then (some twice, (fmt.drop s.idx).tail.tail)
      else (some once, (fmt.drop s.idx).tail))
      = ((readDoubled get c once twice (peek get s).2).1,
        fmt.drop (readDoubled get c once twice (peek get s).2).2.idx) := by
  have hlt : s.idx + 1 ≤ fmt.length := (h.lt_of_char hidx hc hne).1
  rw [tail_drop, tail_drop, h.formatChar_drop hlt, readDoubled]
  by_cases htwice : (peek get (peek get s).2.skip).1 = c
  · rw [if_pos (show asChar (get (s.idx + 1)) = c from htwice), if_pos htwice]
    rfl
  · rw [if_neg (show ¬ asChar (get (s.idx + 1)) = c from htwice), if_neg htwice]
    rfl

omit h in
lemma readDoubled_out (c : Char) (once twice : LengthModifier) (s : Scan) :
    (readDoubled get c once twice s).2.out = s.out := by
  rw [readDoubled]
  split <;> rfl

lemma readLengthModifier_drop (hidx : s.idx ≤ fmt.length) : readLengthModifier (fmt.drop s.idx)
    = ((readLengthModifierAt get s).1, fmt.drop (readLengthModifierAt get s).2.idx) := by
  have hchar := h.formatChar_drop hidx
  rw [readLengthModifier, readLengthModifierAt, hchar]
  split
  case h_1 hc =>
    rw [if_pos (show (peek get s).1 = 'h' from hc)]
    exact h.readDoubled_drop hidx hc (by decide) _ _
  case h_2 hc =>
    have hpeek : (peek get s).1 = 'l' := hc
    have hne : ¬ 'l' = 'h' := by decide
    rw [hpeek, if_neg hne, if_pos rfl]
    exact h.readDoubled_drop hidx hc (by decide) _ _
  all_goals simp_all [peek, Scan.skip, tail_drop]

omit h in
lemma readFlag_out (c : Char) (s : Scan) : (readFlagAt get c s).2.out = s.out := by
  rw [readFlagAt]
  split <;> rfl

omit h in
lemma readLengthModifier_out (s : Scan) : (readLengthModifierAt get s).2.out = s.out := by
  rw [readLengthModifierAt]
  split
  · exact readDoubled_out _ _ _ _
  split
  · exact readDoubled_out _ _ _ _
  split <;> [rfl; split <;> [rfl; split <;> rfl]]

lemma readDirective_drop {rounds : ℕ} {d : Directive} {u : Scan} (hidx : s.idx ≤ fmt.length)
    (hrounds : fmt.length < rounds) (hread : readDirectiveAt get rounds s = some (d, u)) :
    readDirective (fmt.drop s.idx) s.out.args = (d, fmt.drop u.idx, u.out.args) ∧
      u.out = { s.out with args := u.out.args } := by
  have hplus := h.passes_flag (c := '+') hidx (by decide) (by decide)
  have hform := h.passes_flag (c := '#') hplus.within (by decide) (by decide)
  have hzero := h.passes_flag (c := '0') hform.within (by decide) (by decide)
  have hleft := h.passes_flag (c := '-') hzero.within (by decide) (by decide)
  obtain ⟨w, hw, hwidth⟩ := h.passes_width hleft.within hrounds
  obtain ⟨p, hp, hprecision⟩ := h.passes_precision hwidth.within hrounds
  have hmodifier := h.passes_modifier hprecision.within
  obtain ⟨hwidthDrop, hwidthOut⟩ := h.readPadWidth_drop hleft.within hw
  obtain ⟨hprecisionDrop, hprecisionOut⟩ := h.readPrecision_drop hwidth.within hp
  simp only [readFlag_out] at hwidthDrop hwidthOut
  rw [readDirectiveAt, hw] at hread
  simp only [bind_eq_bind, bind_some, hp] at hread
  obtain ⟨rfl, rfl⟩ := Prod.mk.inj (some.inj hread)
  have hout : (readLengthModifierAt get p.2).2.out = p.2.out := readLengthModifier_out p.2
  have hspecifier := h.formatChar_drop hmodifier.within
  constructor
  · rw [readDirective]
    simp only [h.readFlag_drop hidx, h.readFlag_drop hplus.within, h.readFlag_drop hform.within,
      h.readFlag_drop hzero.within, hwidthDrop, hprecisionDrop,
      h.readLengthModifier_drop hprecision.within, hspecifier]
    exact congrArg (fun out => (_, _, args out)) hout.symm
  · change (readLengthModifierAt get p.2).2.out = { s.out with
      args := (readLengthModifierAt get p.2).2.out.args }
    rw [hout, hprecisionOut, hwidthOut]

end IsFormat

def argumentWords (f : Formatter) (d : Directive) : List ℕ :=
  match d.specifier with
  | 'd' | 'i' | 'u' | 'o' | 'x' | 'X' => [if d.lengthModifier = some .ll then 2 else 1]
  | 'f' | 'e' | 'g' | 'F' | 'E' | 'G' | 'a' | 'A' => [2]
  | 'c' | 'C' | 's' | 'S' | 'p' | 'n' | 'D' | 'U' | 'O' => [1]
  | '@' => if f.describe.isSome then [1] else []
  | _ => []

def planned (f : Formatter) (fmt : List UInt8) (ds : List (ℕ × ℕ × Directive)) : List ℕ :=
  ds.flatMap fun e => List.replicate (starsIn fmt e.1 e.2.1) 1 ++ argumentWords f e.2.2

def inOrder (offset : ℕ) : List ℕ → List (ℕ × ℕ)
  | [] => []
  | w :: ws => (offset, w) :: inOrder (offset + w) ws

def IsDirective (fmt : List UInt8) (e : ℕ × ℕ × Directive) : Prop :=
  0 < e.1 ∧ asChar (fmt.getD (e.1 - 1) 0) = '%' ∧ e.1 ≤ e.2.1 ∧ e.2.1 ≤ fmt.length ∧
    e.2.2.specifier = asChar (fmt.getD e.2.1 0)

/-- No index past the null is read, no number goes over its limit, and the arguments are taken as
they are planned. -/
structure SafeReading (fmt : List UInt8) (f : Formatter) (args : Args) (s : Scan) : Prop where
  reads : ∀ i ∈ s.reads, i ≤ fmt.length
  sums : ∀ p ∈ s.sums, p.2 ≤ p.1
  directives : ∀ e ∈ s.directives, IsDirective fmt e
  offset : s.out.args.offset = args.offset + (planned f fmt s.directives).sum
  takes : s.takes = inOrder args.offset (planned f fmt s.directives)

variable {f : Formatter} {args : Args} {d : Directive} {o : ℕ}

lemma inOrder_append (l l' : List ℕ) :
    inOrder o (l ++ l') = inOrder o l ++ inOrder (o + l.sum) l' := by
  induction l generalizing o with
  | nil => rfl
  | cons w l ih => rw [cons_append, inOrder, ih, inOrder, sum_cons, add_assoc]; rfl

lemma inOrder_replicate (n : ℕ) : inOrder o (List.replicate n 1) = oneWordEach o n := by
  induction n with
  | zero => rfl
  | succ n ih =>
    rw [replicate_succ', inOrder_append, ih, oneWordEach_add, sum_replicate]
    simp [inOrder, oneWordEach]

lemma argumentWords_cases (f : Formatter) (d : Directive) :
    argumentWords f d = [] ∨ ∃ w, 0 < w ∧ argumentWords f d = [w] := by
  rw [argumentWords]
  split
  all_goals first
    | exact .inl rfl
    | exact .inr ⟨_, by split <;> decide, rfl⟩
    | exact .inr ⟨_, by decide, rfl⟩
    | (split <;> [exact .inr ⟨1, by decide, rfl⟩; exact .inl rfl])

lemma offset_nextInt (d : Directive) (args : Args) :
    (d.nextInt args).2.offset = args.offset + if d.lengthModifier = some .ll then 2 else 1 := by
  rw [Directive.nextInt]
  split <;> simp_all [Args.next, Args.next64]

lemma offset_nextUint (d : Directive) (args : Args) :
    (d.nextUint args).2.offset = args.offset + if d.lengthModifier = some .ll then 2 else 1 := by
  rw [Directive.nextUint]
  split <;> simp_all [Args.next, Args.next64]

lemma offset_convert (f : Formatter) (d : Directive) (out : Output) :
    (out.convert f d).args.offset = out.args.offset + (argumentWords f d).sum := by
  have hput : ∀ args bytes, (out.put args bytes).args = args := fun _ _ => rfl
  have hnext : out.args.next.2.offset = out.args.offset + 1 := rfl
  have hnext64 : out.args.next64.2.offset = out.args.offset + 2 := rfl
  rw [convert, argumentWords]
  split
  all_goals simp_all only [sum_singleton, sum_nil, add_zero]
  all_goals first
    | exact offset_nextInt d out.args
    | exact offset_nextUint d out.args
    | (split <;> simp_all)

lemma inOrder_argumentWords (f : Formatter) (d : Directive) :
    inOrder o (argumentWords f d) = (argumentWords f d).map (o, ·) := by
  rcases argumentWords_cases f d with hnone | ⟨w, -, hone⟩
  · rw [hnone]
    rfl
  · rw [hone]
    rfl

lemma takes_converted (s : Scan) (f : Formatter) (d : Directive) : (s.converted f d).takes
    = s.takes ++ (argumentWords f d).map (s.out.args.offset, ·) := by
  have hoffset := offset_convert f d s.out
  rw [Scan.converted]
  refine congrArg (s.takes ++ ·) ?_
  rcases argumentWords_cases f d with hnone | ⟨w, hpos, hone⟩
  · rw [hnone] at hoffset ⊢
    exact if_pos hoffset
  · rw [hone, sum_singleton] at hoffset
    rw [hone, if_neg (by omega), hoffset, Nat.add_sub_cancel_left]
    rfl

namespace SafeReading

variable (h : SafeReading fmt f args s)

include h

lemma peek (get : ℕ → UInt8) (hidx : s.idx ≤ fmt.length) :
    SafeReading fmt f args (peek get s).2.skip where
  reads i hi := by
    rcases mem_append.mp hi with hi | hi
    · exact h.reads i hi
    · obtain rfl := mem_singleton.mp hi
      exact hidx
  sums := h.sums
  directives := h.directives
  offset := h.offset
  takes := h.takes

lemma directive {t u : Scan} (hpass : Passes fmt s t) (hplace : IsDirective fmt (s.idx, t.idx, d))
    (hreads : u.reads = t.reads) (hsums : u.sums = t.sums)
    (hdirectives : u.directives = t.directives ++ [(s.idx, t.idx, d)])
    (hoffset : u.out.args.offset = t.out.args.offset + (argumentWords f d).sum)
    (htakes : u.takes = t.takes ++ (argumentWords f d).map (t.out.args.offset, ·)) :
    SafeReading fmt f args u where
  reads i hi := by
    rw [hreads] at hi
    exact (hpass.reads i hi).elim (h.reads i) id
  sums p hp := by
    rw [hsums] at hp
    exact (hpass.sums p hp).elim (h.sums p) id
  directives e he := by
    rw [hdirectives, hpass.directives] at he
    rcases mem_append.mp he with he | he
    · exact h.directives e he
    · obtain rfl := mem_singleton.mp he
      exact hplace
  offset := by
    rw [hoffset, hpass.offset, h.offset, hdirectives, hpass.directives, planned, planned,
      flatMap_append, sum_append]
    simp [add_assoc]
  takes := by
    rw [htakes, hpass.takes, h.takes, hdirectives, hpass.directives, ← inOrder_argumentWords,
      hpass.offset, h.offset, planned, planned, flatMap_append, inOrder_append,
      flatMap_singleton, inOrder_append, inOrder_replicate, append_assoc]
    simp

end SafeReading

lemma argumentWords_unknown (hd : d.specifier ∉ allSpecifiers ∨ d.specifier = '%') :
    argumentWords f d = [] := by
  rw [argumentWords]
  split
  case h_25 => rfl
  all_goals simp_all [allSpecifiers]

section

variable {rounds fuel : ℕ} {b : UInt8} {l rest : List UInt8} {out : Output}

lemma loop_stop (hstop : maxTotalOutput ≤ out.res.length ∨ l = []) :
    loop f (rounds + 1) l out = out := by
  rw [loop.eq_def]
  rcases hstop with hfull | rfl
  · exact if_pos hfull
  · exact ite_self _

lemma loop_text (hroom : ¬ maxTotalOutput ≤ out.res.length) (hb : b ≠ 0) (htext : asChar b ≠ '%') :
    loop f (rounds + 1) (b :: l) out = loop f rounds l (out.put out.args [b]) := by
  simp only [loop, if_neg hroom, if_neg hb, if_pos htext]

lemma loop_directive (hroom : ¬ maxTotalOutput ≤ out.res.length) (hb : b ≠ 0)
    (hpercent : ¬ asChar b ≠ '%') (hread : readDirective l out.args = (d, rest, args)) :
    loop f (rounds + 1) (b :: l) out =
      if d.specifier ∉ allSpecifiers then loop f rounds rest { out with args }
      else if d.specifier = '%' then
        loop f rounds rest.tail (put { out with args } args [b])
      else loop f rounds rest.tail (convert f d { out with args }) := by
  simp only [loop, if_neg hroom, if_neg hb, if_neg hpercent, hread]

variable {getFormatChar : Mem → ℕ → UInt8}

lemma loopAt_stop (hget : getFormatChar s.out.mem = get)
    (hstop : maxTotalOutput ≤ s.out.res.length ∨ (peek get s).1.toNat = 0) :
    loopAt getFormatChar f fuel (rounds + 1) s = some (peek get s).2.skip := by
  rw [loopAt, hget]
  exact if_pos hstop

lemma loopAt_text (hget : getFormatChar s.out.mem = get)
    (hgo : ¬ (maxTotalOutput ≤ s.out.res.length ∨ (peek get s).1.toNat = 0))
    (htext : (peek get s).1 ≠ '%') :
    loopAt getFormatChar f fuel (rounds + 1) s =
      loopAt getFormatChar f fuel rounds { (peek get s).2.skip with
        out := s.out.put s.out.args [ascii (peek get s).1] } := by
  rw [loopAt, hget]
  exact (if_neg hgo).trans (if_pos htext)

lemma loopAt_directive {t : Scan} (hget : getFormatChar s.out.mem = get)
    (hgo : ¬ (maxTotalOutput ≤ s.out.res.length ∨ (peek get s).1.toNat = 0))
    (hpercent : ¬ (peek get s).1 ≠ '%')
    (hread : readDirectiveAt get fuel (peek get s).2.skip = some (d, t)) :
    loopAt getFormatChar f fuel (rounds + 1) s =
      if d.specifier ∉ allSpecifiers then loopAt getFormatChar f fuel rounds t
      else if d.specifier = '%' then loopAt getFormatChar f fuel rounds { t.skip with
        out := t.out.put t.out.args [ascii (peek get s).1] }
      else loopAt getFormatChar f fuel rounds (t.skip.converted f d) := by
  rw [loopAt, hget]
  refine (if_neg hgo).trans ((if_neg hpercent).trans ?_)
  rw [hread]

end

def StaysInPlace (getFormatChar : Mem → ℕ → UInt8) (f : Formatter) (fmt : List UInt8) (rounds : ℕ)
    (l : List UInt8) (out : Output) : Prop :=
  ∀ r ≤ rounds, IsFormat (getFormatChar (Output.loop f r l out).mem) fmt

lemma loopAt_safe {getFormatChar : Mem → ℕ → UInt8} {fuel rounds : ℕ} (hfuel : fmt.length < fuel)
    (hkept : StaysInPlace getFormatChar f fmt rounds (fmt.drop s.idx) s.out)
    (hsafe : SafeReading fmt f args s) (hidx : s.idx ≤ fmt.length)
    (hrounds : fmt.length - s.idx ≤ rounds) :
    ∃ t, loopAt getFormatChar f fuel (rounds + 1) s = some t ∧ SafeReading fmt f args t ∧
      t.out = loop f rounds (fmt.drop s.idx) s.out := by
  induction rounds generalizing s with
  | zero =>
    have hend : s.idx = fmt.length := by omega
    have hstop : getFormatChar s.out.mem fmt.length = 0 := (hkept 0 le_rfl).stop
    have hnull : (peek (getFormatChar s.out.mem) s).1.toNat = 0 := by
      change (asChar (getFormatChar s.out.mem s.idx)).toNat = 0
      rw [hend, hstop]
      rfl
    exact ⟨_, loopAt_stop rfl (.inr hnull), hsafe.peek _ hidx, rfl⟩
  | succ rounds ih =>
    have hformat : IsFormat (getFormatChar s.out.mem) fmt := hkept 0 (Nat.zero_le _)
    obtain ⟨get, hget⟩ : ∃ get, getFormatChar s.out.mem = get := ⟨_, rfl⟩
    rw [hget] at hformat
    have hread := hsafe.peek get hidx
    by_cases hstop : maxTotalOutput ≤ s.out.res.length ∨ (peek get s).1.toNat = 0
    · refine ⟨_, loopAt_stop hget hstop, hread, (loop_stop (hstop.imp_right fun hnull => ?_)).symm⟩
      exact drop_eq_nil_of_le (hformat.le_of_null hnull)
    obtain ⟨hroom, hchar⟩ := not_or.mp hstop
    obtain ⟨hlt, hbyte⟩ := hformat.lt_of_char hidx rfl hchar
    have hnonzero : fmt[s.idx] ≠ 0 := hformat.ne_zero _ (getElem_mem hlt)
    have hsame : asChar fmt[s.idx] = (peek get s).1 :=
      congrArg asChar (hformat.chars _ hlt).symm
    have hnext : ∀ r ≤ rounds,
        IsFormat (getFormatChar (loop f (r + 1) (fmt.drop s.idx) s.out).mem) fmt :=
      fun r hr => hkept (r + 1) (Nat.succ_le_succ hr)
    rw [drop_eq_getElem_cons hlt] at hnext ⊢
    by_cases htext : (peek get s).1 ≠ '%'
    · simp only [loop_text hroom hnonzero (hsame ▸ htext)] at hnext ⊢
      rw [hbyte] at hnext ⊢
      rw [loopAt_text hget hstop htext]
      exact ih (s := { (peek get s).2.skip with
          out := s.out.put s.out.args [ascii (peek get s).1] }) hnext
        ⟨hread.reads, hread.sums, hread.directives, hread.offset, hread.takes⟩ hlt
        (by change fmt.length - (s.idx + 1) ≤ rounds; omega)
    obtain ⟨d, t, hdirective, hpass, hspecifier⟩ :=
      hformat.passes_directive (s := (peek get s).2.skip) hlt hfuel
    have hmono : s.idx + 1 ≤ t.idx := hpass.mono
    have hplace : IsDirective fmt ((peek get s).2.skip.idx, t.idx, d) := by
      refine ⟨Nat.succ_pos _, ?_, hmono, hpass.within, ?_⟩
      · exact (congrArg asChar (hformat.getD_eq hidx)).trans (not_not.mp htext)
      · exact hspecifier.trans (congrArg asChar (hformat.getD_eq hpass.within)).symm
    obtain ⟨hdrop, hout⟩ :=
      hformat.readDirective_drop (s := (peek get s).2.skip) hlt hfuel hdirective
    change readDirective (fmt.drop (s.idx + 1)) s.out.args = (d, fmt.drop t.idx, t.out.args) at hdrop
    change t.out = { s.out with args := t.out.args } at hout
    simp only [loop_directive hroom hnonzero (hsame ▸ htext) hdrop, ← hout] at hnext ⊢
    rw [loopAt_directive hget hstop htext hdirective]
    by_cases hknown : d.specifier ∉ allSpecifiers
    · have hnone := argumentWords_unknown (f := f) (.inl hknown)
      simp only [if_pos hknown] at hnext ⊢
      refine ih hnext (hread.directive hpass hplace rfl rfl rfl (by rw [hnone]; rfl) ?_) hpass.within
        (by change fmt.length - t.idx ≤ rounds; omega)
      rw [hnone, map_nil, append_nil]
    have hspecified : d.specifier.toNat ≠ 0 := by
      intro hzero
      have hnull : d.specifier = Char.ofNat 0 := Char.toNat_inj.mp hzero
      rw [hnull] at hknown
      exact hknown (by decide)
    have hinside : t.idx < fmt.length :=
      (hformat.lt_of_char hpass.within hspecifier.symm hspecified).1
    simp only [if_neg hknown, tail_drop] at hnext ⊢
    by_cases hliteral : d.specifier = '%'
    · have hnone := argumentWords_unknown (f := f) (.inr hliteral)
      simp only [if_pos hliteral] at hnext ⊢
      rw [hbyte] at hnext ⊢
      refine ih hnext (hread.directive hpass hplace rfl rfl rfl (by rw [hnone]; rfl) ?_) hinside
        (by change fmt.length - (t.idx + 1) ≤ rounds; omega)
      rw [hnone, map_nil, append_nil]
      rfl
    · simp only [if_neg hliteral] at hnext ⊢
      exact ih hnext (hread.directive hpass hplace rfl rfl rfl (offset_convert f d t.out)
        (takes_converted _ f d)) hinside (by change fmt.length - (t.idx + 1) ≤ rounds; omega)

def formatAt (ptr : ℕ) (m : Mem) (i : ℕ) : UInt8 := m.read (ptr + i)

def noFloats : Formatter := ⟨fun _ _ => [], none⟩

def countFormat : List UInt8 := [97, 37, 110]

def countMem : Mem :=
  ⟨fun p => countFormat.getD (p - 0x2000) 0, 0x1000, ⟨.empty, .empty⟩, false, fun _ => 0⟩

def pointerTo (ptr : UInt32) : Args := ⟨fun _ => ptr, 0⟩

lemma isFormat_countMem : IsFormat (formatAt 0x2000 countMem) countFormat :=
  ⟨by decide +kernel, by decide +kernel, by decide +kernel⟩

end TouchHle.Stdio
