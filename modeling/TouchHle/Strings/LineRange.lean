import TouchHle.Strings.Searching

namespace TouchHle.Strings

open Lib List Option

def lineFeed : UInt16 := 0x000A
def carriageReturn : UInt16 := 0x000D

def otherSeparators : List UInt16 := [0x0085, 0x2028, 0x2029]

namespace NSString

variable (s : NSString)

def unitAt (i : ℕ) : Checked UInt16 :=
  match s.units[i]? with
  | some u => .ok u
  | none => .error .index

def scanStart (rangeStart : ℕ) : ℕ → Checked ℕ
  | 0 => return 0
  | k + 1 => do
    let c ← s.unitAt k
    if c = lineFeed ∨ c ∈ otherSeparators then return k + 1
    else if c = carriageReturn then
      -- Only a range can begin between a carriage return and a line feed.
      if k + 1 = rangeStart ∧ k + 1 < s.length then do
        let afterCr ← s.unitAt (k + 1)
        if afterCr = lineFeed then scanStart rangeStart k else return k + 1
      else return k + 1
    else scanStart rangeStart k

def scanEnd (k : ℕ) : Checked (ℕ × ℕ) :=
  if h : k < s.length then do
    let c ← s.unitAt k
    if c ∈ otherSeparators then return (k + 1, k)
    else if c = lineFeed then
      if 0 < k then do
        let beforeLf ← s.unitAt (k - 1)
        if beforeLf = carriageReturn then return (k - 1 + 2, k - 1) else return (k + 1, k)
      else return (k + 1, k)
    else if c = carriageReturn then
      if k < s.length - 1 then do
        let afterCr ← s.unitAt (k + 1)
        if afterCr = lineFeed then return (k + 2, k) else return (k + 1, k)
      else return (k + 1, k)
    else scanEnd (k + 1)
  else return (if k = s.length then k else 0, k)
termination_by s.length - k

end NSString

def toNSUInteger (n : ℕ) : Checked ℕ := if n < u32Bound then .ok n else .error .unwrap

def lineRangeHelper (s : NSString) (range : NSRange) (getStart getEnd : Bool) : Checked (ℕ × ℕ × ℕ) := do
  let rangeEnd ← addU32 range.location range.length
  assert (rangeEnd ≤ s.length)
  let start ← if getStart then s.scanStart range.location range.location else pure 0
  let ends ←
    if getEnd then s.scanEnd (if 0 < range.length then rangeEnd - 1 else range.location) else pure (0, 0)
  return (← toNSUInteger start, ← toNSUInteger ends.1, ← toNSUInteger ends.2)

variable {s : NSString} {i k r : ℕ} {u : UInt16}

def endsLine (u : UInt16) : Bool := u = lineFeed ∨ u = carriageReturn ∨ u ∈ otherSeparators

def LineEnd (s : NSString) (i : ℕ) : Prop :=
  ∃ u, 0 < i ∧ s.units[i - 1]? = some u ∧ endsLine u = true ∧
    ¬ (u = carriageReturn ∧ s.units[i]? = some lineFeed)

def LineStart (s : NSString) (i : ℕ) : Prop := i = 0 ∨ LineEnd s i

def WholeEnd (s : NSString) (i : ℕ) : Prop := LineEnd s i ∨ i = s.length

def terminatorStart (s : NSString) (i : ℕ) : ℕ :=
  if 2 ≤ i ∧ s.units[i - 2]? = some carriageReturn ∧ s.units[i - 1]? = some lineFeed then i - 2 else i - 1

def Covers (s : NSString) (range : NSRange) (stop : ℕ) : Prop :=
  WholeEnd s stop ∧ range.location + range.length ≤ stop ∧
    (range.length = 0 → range.location < s.length → range.location < stop)

structure CoveredBy (s : NSString) (range : NSRange) (start stop contentsEnd : ℕ) : Prop where
  greatest : IsGreatest {i | LineStart s i ∧ i ≤ range.location} start
  least : IsLeast {i | Covers s range i} stop
  terminated : start < stop → LineEnd s stop → contentsEnd = terminatorStart s stop
  unterminated : ¬ (start < stop ∧ LineEnd s stop) → contentsEnd = stop

lemma lineEnd_succ : LineEnd s (k + 1) ↔ ∃ u, s.units[k]? = some u ∧ endsLine u = true ∧
    ¬ (u = carriageReturn ∧ s.units[k + 1]? = some lineFeed) := by
  simp [LineEnd]

lemma unitAt_of_getElem (h : s.units[k]? = some u) : s.unitAt k = .ok u := by
  rw [NSString.unitAt, h]

lemma exists_unit (h : k < s.length) : ∃ u, s.units[k]? = some u :=
  ⟨s.units[k], getElem?_eq_getElem h⟩

lemma lt_of_unit (h : s.units[k]? = some u) : k < s.length := (List.getElem?_eq_some_iff.mp h).1

lemma scanStart_spec : ∀ k, k ≤ r → r ≤ s.length → (k < r → s.units[k]? ≠ some lineFeed) →
    ∃ i, s.scanStart r k = .ok i ∧ IsGreatest {i | LineStart s i ∧ i ≤ k} i := by
  intro k
  induction k with
  | zero =>
    intro _ _ _
    refine ⟨0, rfl, ⟨.inl rfl, le_refl 0⟩, fun i hi => hi.2⟩
  | succ k ih =>
    intro hk hr hfeed
    obtain ⟨u, hu⟩ := exists_unit (s := s) (show k < s.length by omega)
    have hstays : LineEnd s (k + 1) → IsGreatest {i | LineStart s i ∧ i ≤ k + 1} (k + 1) :=
      fun h => ⟨⟨.inr h, le_refl _⟩, fun i hi => hi.2⟩
    have hgoes : ¬ LineEnd s (k + 1) → s.units[k]? ≠ some lineFeed →
        ∃ i, s.scanStart r k = .ok i ∧ IsGreatest {i | LineStart s i ∧ i ≤ k + 1} i := by
      intro hnot hnext
      obtain ⟨i, hi, hgreatest⟩ := ih (by omega) hr fun _ => hnext
      refine ⟨i, hi, ⟨hgreatest.1.1, Nat.le_succ_of_le hgreatest.1.2⟩, ?_⟩
      rintro j ⟨hj, hle⟩
      obtain rfl | hlt := Nat.eq_or_lt_of_le hle
      · exact absurd (hj.resolve_left (Nat.succ_ne_zero k)) hnot
      · exact hgreatest.2 ⟨hj, Nat.le_of_lt_succ hlt⟩
    rw [NSString.scanStart, unitAt_of_getElem hu, ok_bind]
    by_cases hbreak : u = lineFeed ∨ u ∈ otherSeparators
    · rw [if_pos hbreak]
      refine ⟨k + 1, rfl, hstays (lineEnd_succ.mpr ⟨u, hu, ?_, ?_⟩)⟩
      · simp only [endsLine, decide_eq_true_eq]
        tauto
      · rintro ⟨rfl, -⟩
        exact absurd hbreak (by decide)
    · rw [if_neg hbreak]
      have hnext : s.units[k]? ≠ some lineFeed := by
        rw [hu]
        exact fun h => hbreak (.inl (some.inj h))
      by_cases hcr : u = carriageReturn
      · rw [if_pos hcr]
        by_cases hedge : k + 1 = r ∧ k + 1 < s.length
        · obtain ⟨v, hv⟩ := exists_unit hedge.2
          rw [if_pos hedge, unitAt_of_getElem hv, ok_bind]
          by_cases hlf : v = lineFeed
          · rw [if_pos hlf]
            refine hgoes (fun h => ?_) hnext
            obtain ⟨w, hw, -, hsplit⟩ := lineEnd_succ.mp h
            obtain rfl : u = w := some.inj (hu.symm.trans hw)
            exact hsplit ⟨hcr, hlf ▸ hv⟩
          · rw [if_neg hlf]
            refine ⟨k + 1, rfl, hstays (lineEnd_succ.mpr ⟨u, hu, hcr ▸ by decide, ?_⟩)⟩
            rintro ⟨-, h⟩
            exact hlf (some.inj (hv.symm.trans h))
        · rw [if_neg hedge]
          refine ⟨k + 1, rfl, hstays (lineEnd_succ.mpr ⟨u, hu, hcr ▸ by decide, ?_⟩)⟩
          rintro ⟨-, h⟩
          have hlt := lt_of_unit h
          exact hfeed (by omega) h
      · rw [if_neg hcr]
        refine hgoes (fun h => ?_) hnext
        obtain ⟨w, hw, hends, -⟩ := lineEnd_succ.mp h
        obtain rfl : u = w := some.inj (hu.symm.trans hw)
        simp only [endsLine, decide_eq_true_eq] at hends
        tauto

structure EndsBehind (s : NSString) (k stop contentsEnd : ℕ) : Prop where
  least : IsLeast {i | WholeEnd s i ∧ k < i} stop
  terminated : LineEnd s stop → contentsEnd = terminatorStart s stop
  unterminated : ¬ LineEnd s stop → contentsEnd = stop

lemma EndsBehind.next {contentsEnd : ℕ} (h : LineEnd s (k + 1)) (hc : contentsEnd = terminatorStart s (k + 1)) :
    EndsBehind s k (k + 1) contentsEnd where
  least := ⟨⟨.inl h, Nat.lt_succ_self k⟩, fun _ hi => hi.2⟩
  terminated _ := hc
  unterminated hnot := absurd h hnot

lemma terminatorStart_succ (h : ¬ (s.units[k]? = some lineFeed ∧ 0 < k ∧ s.units[k - 1]? = some carriageReturn)) :
    terminatorStart s (k + 1) = k := by
  rw [terminatorStart, if_neg]
  · rfl
  · rintro ⟨hle, hcr, hlf⟩
    refine h ⟨hlf, by omega, ?_⟩
    have hindex : k + 1 - 2 = k - 1 := by omega
    rwa [hindex] at hcr

lemma scanEnd_spec : ∀ n k, s.length - k = n → k < s.length →
    ∃ e c, s.scanEnd k = .ok (e, c) ∧ EndsBehind s k e c := by
  intro n
  induction n with
  | zero =>
    intro k hn hk
    omega
  | succ n ih =>
    intro k hn hk
    obtain ⟨u, hu⟩ := exists_unit hk
    have hsame : ∀ {v}, s.units[k]? = some v → v = u := fun hv => some.inj (hv.symm.trans hu)
    rw [NSString.scanEnd, dif_pos hk, unitAt_of_getElem hu, ok_bind]
    by_cases hother : u ∈ otherSeparators
    · rw [if_pos hother]
      refine ⟨k + 1, k, rfl, .next (lineEnd_succ.mpr ⟨u, hu, ?_, ?_⟩) (terminatorStart_succ ?_).symm⟩
      · simp [endsLine, hother]
      · rintro ⟨rfl, -⟩
        exact absurd hother (by decide)
      · rintro ⟨hlf, -⟩
        rw [← hsame hlf] at hother
        exact absurd hother (by decide)
    · rw [if_neg hother]
      by_cases hlf : u = lineFeed
      · have hend : LineEnd s (k + 1) := by
          refine lineEnd_succ.mpr ⟨u, hu, hlf ▸ by decide, ?_⟩
          rintro ⟨hcr, -⟩
          exact absurd (hlf.symm.trans hcr) (by decide)
        rw [if_pos hlf]
        by_cases hpos : 0 < k
        · obtain ⟨v, hv⟩ := exists_unit (s := s) (show k - 1 < s.length by omega)
          rw [if_pos hpos, unitAt_of_getElem hv, ok_bind]
          by_cases hcr : v = carriageReturn
          · rw [if_pos hcr]
            have hstop : k - 1 + 2 = k + 1 := by omega
            have hstart : terminatorStart s (k + 1) = k - 1 := by
              have hindex : k + 1 - 2 = k - 1 := by omega
              rw [terminatorStart, hindex, if_pos ⟨by omega, hcr ▸ hv, hlf ▸ hu⟩]
            exact ⟨k + 1, k - 1, by rw [hstop]; rfl, .next hend hstart.symm⟩
          · rw [if_neg hcr]
            refine ⟨k + 1, k, rfl, .next hend (terminatorStart_succ ?_).symm⟩
            rintro ⟨-, -, h⟩
            exact hcr (some.inj (hv.symm.trans h))
        · rw [if_neg hpos]
          exact ⟨k + 1, k, rfl, .next hend (terminatorStart_succ fun h => hpos h.2.1).symm⟩
      · rw [if_neg hlf]
        have hnotFeed : s.units[k]? ≠ some lineFeed := fun h => hlf (hsame h).symm
        have halone : terminatorStart s (k + 1) = k := terminatorStart_succ fun h => hnotFeed h.1
        by_cases hcr : u = carriageReturn
        · rw [if_pos hcr]
          have hends : ¬ s.units[k + 1]? = some lineFeed → LineEnd s (k + 1) := fun h =>
            lineEnd_succ.mpr ⟨u, hu, hcr ▸ by decide, fun hsplit => h hsplit.2⟩
          by_cases hmore : k < s.length - 1
          · obtain ⟨v, hv⟩ := exists_unit (s := s) (show k + 1 < s.length by omega)
            rw [if_pos hmore, unitAt_of_getElem hv, ok_bind]
            by_cases hfeed : v = lineFeed
            · -- The carriage return and the line feed behind it are not split.
              rw [if_pos hfeed]
              have hsplit : ¬ LineEnd s (k + 1) := by
                intro h
                obtain ⟨w, hw, -, hnot⟩ := lineEnd_succ.mp h
                exact hnot ⟨(hsame hw).trans hcr, hfeed ▸ hv⟩
              have hend : LineEnd s (k + 2) := by
                refine lineEnd_succ.mpr ⟨v, hv, hfeed ▸ by decide, ?_⟩
                rintro ⟨h, -⟩
                exact absurd (hfeed.symm.trans h) (by decide)
              have hstart : terminatorStart s (k + 2) = k := by
                rw [terminatorStart, if_pos ⟨by omega, hcr ▸ hu, hfeed ▸ hv⟩]
                rfl
              refine ⟨k + 2, k, rfl, ⟨⟨.inl hend, by simp⟩, ?_⟩, fun _ => hstart.symm, fun h => absurd hend h⟩
              rintro j ⟨hj, hlt⟩
              by_contra hle
              obtain rfl : j = k + 1 := by
                have hlt : k < j := hlt
                omega
              exact hj.elim hsplit (by omega)
            · rw [if_neg hfeed]
              refine ⟨k + 1, k, rfl, .next (hends fun h => ?_) halone.symm⟩
              exact hfeed (some.inj (hv.symm.trans h))
          · rw [if_neg hmore]
            refine ⟨k + 1, k, rfl, .next (hends fun h => ?_) halone.symm⟩
            have hlt := lt_of_unit h
            omega
        · rw [if_neg hcr]
          have hnot : ¬ LineEnd s (k + 1) := by
            intro h
            obtain ⟨w, hw, hends, -⟩ := lineEnd_succ.mp h
            obtain rfl := hsame hw
            simp only [endsLine, decide_eq_true_eq] at hends
            tauto
          by_cases hmore : k + 1 < s.length
          · obtain ⟨e, c, hscan, hbehind⟩ := ih (k + 1) (by omega) hmore
            refine ⟨e, c, hscan, ⟨⟨hbehind.least.1.1, Nat.lt_of_succ_lt hbehind.least.1.2⟩, ?_⟩,
              hbehind.terminated, hbehind.unterminated⟩
            rintro j ⟨hj, hlt⟩
            obtain rfl | hlt := Nat.eq_or_lt_of_le (Nat.succ_le_of_lt hlt)
            · exact absurd hj fun h => h.elim hnot (by omega)
            · exact hbehind.least.2 ⟨hj, hlt⟩
          · have hlast : k + 1 = s.length := by omega
            have hscan : s.scanEnd (k + 1) = .ok (k + 1, k + 1) := by
              rw [NSString.scanEnd, dif_neg hmore, if_pos hlast]
              rfl
            refine ⟨k + 1, k + 1, hscan, ⟨⟨.inr hlast, Nat.lt_succ_self k⟩, fun _ hj => hj.2⟩,
              fun h => absurd h hnot, fun _ => rfl⟩

lemma toNSUInteger_of_le (h : i ≤ s.length) : toNSUInteger i = .ok i :=
  if_pos (h.trans_lt s.length_lt)

lemma EndsBehind.le {e c : ℕ} (h : EndsBehind s k e c) (hk : k < s.length) : e ≤ s.length ∧ c ≤ e := by
  have hle : e ≤ s.length := h.least.2 ⟨.inr rfl, hk⟩
  refine ⟨hle, ?_⟩
  by_cases hend : LineEnd s e
  · rw [h.terminated hend, terminatorStart]
    split <;> omega
  · rw [h.unterminated hend]

lemma exists_ends {range : NSRange} (hinside : range.location + range.length ≤ s.length) :
    ∃ stop contentsEnd,
      s.scanEnd (if 0 < range.length then range.location + range.length - 1 else range.location) =
        .ok (stop, contentsEnd) ∧
      stop ≤ s.length ∧ contentsEnd ≤ s.length ∧
      ∀ start, IsGreatest {i | LineStart s i ∧ i ≤ range.location} start →
        CoveredBy s range start stop contentsEnd := by
  obtain ⟨k, hk⟩ : ∃ k, (if 0 < range.length then range.location + range.length - 1 else range.location) = k :=
    ⟨_, rfl⟩
  rw [hk]
  by_cases hlt : k < s.length
  · obtain ⟨stop, contentsEnd, hscan, hends⟩ := scanEnd_spec _ k rfl hlt
    obtain ⟨hstop, hcontents⟩ := hends.le hlt
    refine ⟨stop, contentsEnd, hscan, hstop, hcontents.trans hstop, fun start hstart => ?_⟩
    have hcovers : {i | Covers s range i} = {i | WholeEnd s i ∧ k < i} := by
      ext i
      simp only [Covers, Set.mem_ofPred_eq]
      split_ifs at hk <;> refine and_congr_right fun _ => ⟨fun h => ?_, fun h => ⟨?_, fun _ _ => ?_⟩⟩ <;> omega
    have hbefore : start < stop := by
      have hle : start ≤ range.location := hstart.1.2
      have hmem : k < stop := hends.least.1.2
      split_ifs at hk <;> omega
    exact ⟨hstart, hcovers ▸ hends.least, fun _ => hends.terminated,
      fun h => hends.unterminated fun hend => h ⟨hbefore, hend⟩⟩
  · -- An empty range at the end of the string.
    have hend : k = s.length ∧ range.length = 0 ∧ range.location = k := by split_ifs at hk <;> omega
    obtain ⟨rfl, hlength, hlocation⟩ := hend
    have hscan : s.scanEnd s.length = .ok (s.length, s.length) := by
      rw [NSString.scanEnd, dif_neg hlt, if_pos rfl]
      rfl
    refine ⟨s.length, s.length, hscan, le_refl _, le_refl _, fun start hstart => ⟨hstart, ?_, ?_, ?_⟩⟩
    · refine ⟨⟨.inr rfl, by omega, fun _ h => by omega⟩, ?_⟩
      rintro i ⟨-, hle, -⟩
      omega
    · intro hbefore hline
      have hle := hstart.2 ⟨.inr hline, hlocation.ge⟩
      omega
    · exact fun _ => rfl

lemma lineRangeHelper_spec {range : NSRange} (hinside : range.location + range.length ≤ s.length) :
    ∃ start stop contentsEnd, CoveredBy s range start stop contentsEnd ∧
      ∀ getStart getEnd, lineRangeHelper s range getStart getEnd =
        .ok (if getStart then start else 0, if getEnd then stop else 0, if getEnd then contentsEnd else 0) := by
  have hbound := s.length_lt
  obtain ⟨start, hstart, hgreatest⟩ := scanStart_spec (s := s) range.location (le_refl _) (by omega)
    fun h => absurd h (lt_irrefl _)
  obtain ⟨stop, contentsEnd, hends, hstop, hcontents, hcovered⟩ := exists_ends hinside
  have hle : start ≤ s.length := hgreatest.1.2.trans (by omega)
  have hsum : addU32 range.location range.length = .ok (range.location + range.length) :=
    addU32_of_lt (hinside.trans_lt hbound)
  have hzero : toNSUInteger 0 = .ok 0 := toNSUInteger_of_le (Nat.zero_le s.length)
  refine ⟨start, stop, contentsEnd, hcovered start hgreatest, fun getStart getEnd => ?_⟩
  rw [lineRangeHelper, hsum, ok_bind, assert_of hinside, ok_bind, hstart, hends]
  cases getStart <;> cases getEnd <;>
    simp [toNSUInteger_of_le hle, toNSUInteger_of_le hstop, toNSUInteger_of_le hcontents, hzero]

def walkLines (s : NSString) : ℕ → ℕ → Checked (List (List UInt16))
  | 0, _ => return []
  | n + 1, i =>
    if i < s.length then do
      let (start, stop, _) ← lineRangeHelper s ⟨i, 0⟩ true true
      return (s.units.drop start).take (stop - start) :: (← walkLines s n stop)
    else return []

lemma walkLines_spec : ∀ n i, WholeEnd s i ∨ i = 0 → i ≤ s.length → s.length - i ≤ n →
    ∃ lines, walkLines s n i = .ok lines ∧ lines.flatten = s.units.drop i ∧ [] ∉ lines := by
  intro n
  induction n with
  | zero =>
    intro i _ hi hn
    have hnone : s.units.drop i = [] := drop_eq_nil_of_le (by change s.length ≤ i; omega)
    exact ⟨[], rfl, hnone.symm, not_mem_nil⟩
  | succ n ih =>
    intro i hat hi hn
    rw [walkLines]
    by_cases hlt : i < s.length
    · obtain ⟨start, stop, contentsEnd, hcovered, hlines⟩ :=
        @lineRangeHelper_spec s ⟨i, 0⟩ (by simpa using hi)
      have hstart : start = i := by
        have hline : LineStart s i := by
          obtain (h | h) | h := hat
          · exact .inr h
          · omega
          · exact .inl h
        exact le_antisymm hcovered.greatest.1.2 (hcovered.greatest.2 ⟨hline, le_refl i⟩)
      have hstop : i < stop := hcovered.least.1.2.2 rfl hlt
      have hend : stop ≤ s.length := hcovered.least.2 ⟨.inr rfl, by simpa using hi, fun _ h => h⟩
      obtain ⟨rest, hrest, hflatten, hnonempty⟩ := ih stop (.inl hcovered.least.1.1) hend (by omega)
      refine ⟨(s.units.drop i).take (stop - i) :: rest, ?_, ?_, ?_⟩
      · rw [if_pos hlt, hlines true true, hstart]
        simp only [if_true, ok_bind, hrest, pure_eq_ok]
      · have hdrop : s.units.drop stop = (s.units.drop i).drop (stop - i) := by
          rw [drop_drop, Nat.add_sub_cancel' hstop.le]
        rw [flatten_cons, hflatten, hdrop, take_append_drop]
      · rw [mem_cons, not_or]
        refine ⟨fun h => ?_, hnonempty⟩
        have hlength := congrArg List.length h
        rw [length_take, length_drop, length_nil] at hlength
        change 0 = min (stop - i) (s.length - i) at hlength
        omega
    · rw [if_neg hlt]
      have hnone : s.units.drop i = [] := drop_eq_nil_of_le (Nat.le_of_not_lt hlt)
      exact ⟨[], rfl, hnone.symm, not_mem_nil⟩

/-- The lines that a range lies in are found, and they make up the string. -/
theorem lineRanges_are_lines (s : NSString) :
    (∀ range : NSRange, range.location + range.length ≤ s.length →
      ∃ start stop contentsEnd, CoveredBy s range start stop contentsEnd ∧
        ∀ getStart getEnd, lineRangeHelper s range getStart getEnd =
          .ok (if getStart then start else 0, if getEnd then stop else 0, if getEnd then contentsEnd else 0)) ∧
      ∃ lines, walkLines s s.length 0 = .ok lines ∧ lines.flatten = s.units ∧ [] ∉ lines :=
  ⟨fun _ => lineRangeHelper_spec, walkLines_spec s.length 0 (.inr rfl) (Nat.zero_le _) (Nat.le_refl _)⟩

def twoLines : NSString := ⟨[0x61, 0x0D, 0x0A, 0x62], by decide⟩

theorem twoLines_found : ∃ start stop contentsEnd, CoveredBy twoLines ⟨2, 0⟩ start stop contentsEnd ∧
    ∀ getStart getEnd, lineRangeHelper twoLines ⟨2, 0⟩ getStart getEnd =
      .ok (if getStart then start else 0, if getEnd then stop else 0, if getEnd then contentsEnd else 0) :=
  (lineRanges_are_lines twoLines).1 ⟨2, 0⟩ (by decide)

end TouchHle.Strings
