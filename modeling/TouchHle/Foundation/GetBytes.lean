import TouchHle.Foundation.EncodingLengths

namespace TouchHle.Foundation

open Lib JsonWriter List Option

namespace Codecs

variable (codecs : Codecs)

def byteStepFor (encoding : NSStringEncoding) (ch : Char) : ℕ :=
  match encoding with
  | .utf16LittleEndian | .utf16BigEndian | .utf16 => (utf16Char ch).length * 2
  | .utf32LittleEndian | .utf32BigEndian | .utf32 => 4
  | .shiftJis => ((codecs.codec .shiftJis).encode [ch]).1.length
  | _ => (String.utf8EncodeChar ch).length

end Codecs

structure NSRange where
  location : ℕ
  length : ℕ
  deriving DecidableEq

structure GetBytes where
  buffer : List UInt8
  usedLength : ℕ
  remainingRange : NSRange
  result : Bool
  deriving DecidableEq

section

variable (step : Char → ℕ)

def byteOffsets (first last : ℕ) : ℕ → ℕ → Option ℕ → List Char → Option ℕ × Option ℕ × ℕ
  | _, offset, start, [] => (start, none, offset)
  | units, offset, start, ch :: chars =>
    let start := if start.isNone && first ≤ units then some offset else start
    if start.isSome && last ≤ units then (start, some offset, offset)
    else byteOffsets first last (units + (utf16Char ch).length) (offset + step ch) start chars

def consumedUnits (first copyLen : ℕ) : ℕ → ℕ → ℕ → List Char → ℕ
  | _, _, units, [] => units
  | skipped, bytes, units, ch :: chars =>
    if skipped < first then consumedUnits first copyLen (skipped + (utf16Char ch).length) bytes units chars
    else if copyLen < bytes + step ch then units
    else consumedUnits first copyLen skipped (bytes + step ch) (units + (utf16Char ch).length) chars

end

def Codecs.getBytes (codecs : Codecs) (string : List Char) (maxLength : ℕ)
    (encoding : NSStringEncoding) (range : NSRange) : GetBytes :=
  let fullBytes := codecs.bytesForEncoding string encoding
  let step := codecs.byteStepFor encoding
  let offsets := byteOffsets step range.location (range.location + range.length) 0 0 none string
  let sliceEnd := min (offsets.2.1.getD fullBytes.length) fullBytes.length
  let sliceStart := min (offsets.1.getD offsets.2.2) sliceEnd
  let buffer := ((fullBytes.take sliceEnd).drop sliceStart).take maxLength
  let consumed := consumedUnits step range.location buffer.length 0 0 0 string
  ⟨buffer, buffer.length, ⟨range.location + consumed, range.length - consumed⟩,
    decide (range.length = 0 ∨ 0 < buffer.length)⟩

variable {codecs : Codecs} {e : NSStringEncoding} {s before middle after p q : List Char} {step : Char → ℕ}

def units (cs : List Char) : ℕ := (Lib.utf16 cs).length

lemma units_cons (c : Char) (cs : List Char) : units (c :: cs) = (utf16Char c).length + units cs := by
  rw [units, utf16_cons, length_append, units]

lemma units_append (a b : List Char) : units (a ++ b) = units a + units b := by
  rw [units, utf16_append, length_append, units, units]

lemma units_pos (c : Char) : 0 < (utf16Char c).length := by
  unfold utf16Char
  split <;> simp

def steps (step : Char → ℕ) (cs : List Char) : ℕ := (cs.map step).sum

lemma steps_append (a b : List Char) : steps step (a ++ b) = steps step a + steps step b := by
  rw [steps, map_append, sum_append, steps, steps]

lemma byteOffsets_before {first last : ℕ} (before rest : List Char) (n offset : ℕ)
    (h : n + units before = first) :
    byteOffsets step first last n offset none (before ++ rest) =
      byteOffsets step first last first (offset + steps step before) none rest := by
  induction before generalizing n offset with
  | nil =>
    obtain rfl : n = first := h
    rfl
  | cons c before ih =>
    have hc := units_pos c
    rw [units_cons] at h
    have hlt : ¬ first ≤ n := by omega
    rw [cons_append, byteOffsets]
    simp only [isNone_none, Bool.true_and, decide_eq_true_eq, if_neg hlt, isSome_none,
      Bool.false_and, Bool.false_eq_true, if_false]
    rw [ih (n + (utf16Char c).length) (offset + step c) (by omega), add_assoc]
    rfl

lemma byteOffsets_middle {first last : ℕ} (middle after : List Char) (n offset start : ℕ)
    (h : n + units middle = last) :
    byteOffsets step first last n offset (some start) (middle ++ after) =
      (some start, if after = [] then none else some (offset + steps step middle), offset + steps step middle) := by
  induction middle generalizing n offset with
  | nil =>
    obtain rfl : n = last := h
    cases after with
    | nil => rfl
    | cons c after =>
      rw [nil_append, byteOffsets]
      simp [steps]
  | cons c middle ih =>
    have hc := units_pos c
    rw [units_cons] at h
    have hlt : ¬ last ≤ n := by omega
    rw [cons_append, byteOffsets]
    simp only [isNone_some, Bool.false_and, Bool.false_eq_true, if_false, isSome_some, Bool.true_and,
      decide_eq_true_eq, if_neg hlt]
    rw [ih (n + (utf16Char c).length) (offset + step c) (by omega), add_assoc]
    rfl

lemma byteOffsets_range (before middle after : List Char) :
    byteOffsets step (units before) (units before + units middle) 0 0 none (before ++ (middle ++ after)) =
      (if middle ++ after = [] then none else some (steps step before),
        if after = [] then none else some (steps step (before ++ middle)), steps step (before ++ middle)) := by
  rw [byteOffsets_before before _ 0 0 (zero_add _), zero_add]
  cases hrest : middle ++ after with
  | nil =>
    obtain ⟨rfl, rfl⟩ := append_eq_nil_iff.mp hrest
    simp [byteOffsets]
  | cons c rest =>
    -- the first boundary is found at a character, and then the walk goes on from it
    have hfound : byteOffsets step (units before) (units before + units middle) (units before)
        (steps step before) none (c :: rest) =
        byteOffsets step (units before) (units before + units middle) (units before) (steps step before)
          (some (steps step before)) (c :: rest) := by
      rw [byteOffsets, byteOffsets]
      simp
    have hne : middle ++ after ≠ [] := hrest ▸ cons_ne_nil c rest
    rw [hfound, ← hrest, byteOffsets_middle middle after _ _ _ rfl, steps_append, if_neg hne]

lemma consumedUnits_before {first copyLen : ℕ} (before rest : List Char) (n : ℕ)
    (h : n + units before = first) :
    consumedUnits step first copyLen n 0 0 (before ++ rest) = consumedUnits step first copyLen first 0 0 rest := by
  induction before generalizing n with
  | nil =>
    obtain rfl : n = first := h
    rfl
  | cons c before ih =>
    have hc := units_pos c
    rw [units_cons] at h
    rw [cons_append, consumedUnits, if_pos (by omega), ih (n + (utf16Char c).length) (by omega)]

lemma consumedUnits_written {first copyLen : ℕ} (p rest : List Char) (bytes n : ℕ)
    (h : bytes + steps step p = copyLen) (hrest : ∀ c ∈ rest, 0 < step c) :
    consumedUnits step first copyLen first bytes n (p ++ rest) = n + units p := by
  induction p generalizing bytes n with
  | nil =>
    obtain rfl : bytes = copyLen := h
    cases rest with
    | nil => rfl
    | cons c rest =>
      have hpos := hrest c mem_cons_self
      rw [nil_append, consumedUnits, if_neg (lt_irrefl _), if_pos (by omega)]
      rfl
  | cons c p ih =>
    have hstep : steps step (c :: p) = step c + steps step p := by simp [steps]
    rw [hstep] at h
    rw [cons_append, consumedUnits, if_neg (lt_irrefl _), if_neg (by omega),
      ih (bytes + step c) (n + (utf16Char c).length) (by omega), units_cons, add_assoc]

namespace Codecs

/-- In the string up to the end of a range, characters are encoded one by one and are as wide as they
are taken to be. -/
structure Regular (codecs : Codecs) (e : NSStringEncoding) (s upTo : List Char) : Prop where
  step : ∀ c ∈ upTo, codecs.byteStepFor e c = (codecs.bytesForEncoding [c] e).length
  pos : ∀ c ∈ s, 0 < codecs.byteStepFor e c
  pieces : ∀ t, t <:+: upTo → codecs.bytesForEncoding t e = t.flatMap fun c => codecs.bytesForEncoding [c] e
  isPrefix : codecs.bytesForEncoding upTo e <+: codecs.bytesForEncoding s e

def EndsBetween (codecs : Codecs) (e : NSStringEncoding) (maxLength : ℕ) (middle : List Char) : Prop :=
  ∃ p q, middle = p ++ q ∧
    min maxLength (codecs.bytesForEncoding middle e).length = (codecs.bytesForEncoding p e).length

def WritesWhole (codecs : Codecs) (e : NSStringEncoding) (location : ℕ) (middle : List Char)
    (r : GetBytes) : Prop :=
  ∃ p q, middle = p ++ q ∧ r.buffer = codecs.bytesForEncoding p e ∧
    r.usedLength = (codecs.bytesForEncoding p e).length ∧ r.remainingRange = ⟨location + units p, units q⟩

lemma Regular.append (h : codecs.Regular e s (before ++ middle)) (hp : p ++ q <:+: before ++ middle) :
    codecs.bytesForEncoding (p ++ q) e = codecs.bytesForEncoding p e ++ codecs.bytesForEncoding q e := by
  have hleft : p <:+: before ++ middle := (prefix_append p q).isInfix.trans hp
  have hright : q <:+: before ++ middle := (suffix_append p q).isInfix.trans hp
  rw [h.pieces _ hp, h.pieces _ hleft, h.pieces _ hright, flatMap_append]

lemma Regular.length (h : codecs.Regular e s (before ++ middle)) (hp : p <:+: before ++ middle) :
    (codecs.bytesForEncoding p e).length = steps (codecs.byteStepFor e) p := by
  rw [h.pieces p hp, length_flatMap, steps]
  congr 1
  refine map_congr_left fun c hc => ?_
  exact (h.step c (hp.subset hc)).symm

lemma getBytes_buffer (hs : s = before ++ (middle ++ after)) (h : codecs.Regular e s (before ++ middle))
    (maxLength : ℕ) : (codecs.getBytes s maxLength e ⟨units before, units middle⟩).buffer =
      (codecs.bytesForEncoding middle e).take maxLength := by
  obtain ⟨full, hdef⟩ : ∃ full, codecs.bytesForEncoding s e = full := ⟨_, rfl⟩
  have hboth := h.length infix_rfl
  have hsplit := h.append (p := before) (q := middle) infix_rfl
  have hbefore := h.length (prefix_append before middle).isInfix
  obtain ⟨rest, hfull⟩ := h.isPrefix
  rw [hdef] at hfull
  have hle : steps (codecs.byteStepFor e) (before ++ middle) ≤ full.length := by
    rw [← hboth, ← hfull, length_append]
    exact Nat.le_add_right _ _
  have hoffsets := @byteOffsets_range (codecs.byteStepFor e) before middle after
  have hend : min ((byteOffsets (codecs.byteStepFor e) (units before) (units before + units middle) 0 0 none
      s).2.1.getD full.length) full.length = steps (codecs.byteStepFor e) (before ++ middle) := by
    rw [hs, hoffsets]
    by_cases hafter : after = []
    · subst hafter
      have hwhole : full.length = steps (codecs.byteStepFor e) (before ++ middle) := by
        have hall : s = before ++ middle := by simpa using hs
        rw [← hboth, ← hdef, hall]
      simp [hwhole]
    · simp [hafter, hle]
  have hstart : (byteOffsets (codecs.byteStepFor e) (units before) (units before + units middle) 0 0 none
      s).1.getD (byteOffsets (codecs.byteStepFor e) (units before) (units before + units middle) 0 0 none
        s).2.2 = steps (codecs.byteStepFor e) before := by
    rw [hs, hoffsets]
    by_cases hrest : middle ++ after = []
    · obtain ⟨rfl, rfl⟩ := append_eq_nil_iff.mp hrest
      simp
    · rw [if_neg hrest, getD_some]
  have hslice : (full.take (steps (codecs.byteStepFor e) (before ++ middle))).drop
      (steps (codecs.byteStepFor e) before) = codecs.bytesForEncoding middle e := by
    rw [← hfull, ← hboth, take_left, hsplit, ← hbefore, drop_left]
  have hmin : min (steps (codecs.byteStepFor e) before) (steps (codecs.byteStepFor e) (before ++ middle)) =
      steps (codecs.byteStepFor e) before := by
    rw [steps_append]
    omega
  unfold getBytes
  simp only [hdef, hend, hstart, hmin]
  rw [hslice]

lemma remainingRange_eq (maxLength location length : ℕ) :
    (codecs.getBytes s maxLength e ⟨location, length⟩).remainingRange =
      ⟨location + consumedUnits (codecs.byteStepFor e) location
          (codecs.getBytes s maxLength e ⟨location, length⟩).buffer.length 0 0 0 s,
        length - consumedUnits (codecs.byteStepFor e) location
          (codecs.getBytes s maxLength e ⟨location, length⟩).buffer.length 0 0 0 s⟩ := rfl

lemma getBytes_remaining (hs : s = before ++ (p ++ q ++ after)) (h : codecs.Regular e s (before ++ (p ++ q)))
    {maxLength : ℕ} (hlength : (codecs.getBytes s maxLength e ⟨units before, units (p ++ q)⟩).buffer.length =
      (codecs.bytesForEncoding p e).length) :
    (codecs.getBytes s maxLength e ⟨units before, units (p ++ q)⟩).remainingRange =
      ⟨units before + units p, units q⟩ := by
  have hinfix : p <:+: before ++ (p ++ q) := ⟨before, q, by simp⟩
  have hpos : ∀ c ∈ q ++ after, 0 < codecs.byteStepFor e c := by
    intro c hc
    refine h.pos c ?_
    rw [hs]
    simp only [mem_append] at hc ⊢
    tauto
  have hconsumed : consumedUnits (codecs.byteStepFor e) (units before)
      (codecs.getBytes s maxLength e ⟨units before, units (p ++ q)⟩).buffer.length 0 0 0 s = units p := by
    rw [hs, consumedUnits_before before _ 0 (zero_add _), ← hs, append_assoc,
      consumedUnits_written p (q ++ after) 0 0 ?_ hpos, zero_add]
    rw [zero_add, hlength, h.length hinfix]
  have hleft : units (p ++ q) - units p = units q := by
    rw [units_append]
    omega
  rw [remainingRange_eq, hconsumed, hleft]

lemma writesWhole_iff (hs : s = before ++ (middle ++ after)) (h : codecs.Regular e s (before ++ middle))
    (maxLength : ℕ) :
    codecs.WritesWhole e (units before) middle (codecs.getBytes s maxLength e ⟨units before, units middle⟩) ↔
      codecs.EndsBetween e maxLength middle := by
  have hbuffer := getBytes_buffer hs h maxLength
  constructor
  · rintro ⟨p, q, hmiddle, hp, -⟩
    refine ⟨p, q, hmiddle, ?_⟩
    rw [← hp, hbuffer, length_take]
  · rintro ⟨p, q, rfl, hmin⟩
    have hinfix : p ++ q <:+: before ++ (p ++ q) := (suffix_append before (p ++ q)).isInfix
    have hwritten : (codecs.bytesForEncoding (p ++ q) e).take maxLength = codecs.bytesForEncoding p e := by
      rw [take_eq_take_min, hmin, h.append hinfix, take_left]
    refine ⟨p, q, rfl, hbuffer.trans hwritten, ?_, ?_⟩
    · change (getBytes codecs s maxLength e _).buffer.length = _
      rw [hbuffer, hwritten]
    · refine getBytes_remaining hs h ?_
      rw [hbuffer, hwritten]

def getAll (codecs : Codecs) (s : List Char) (e : NSStringEncoding) : List ℕ → NSRange → List UInt8 × NSRange
  | [], range => ([], range)
  | maxLength :: maxLengths, range =>
    let r := codecs.getBytes s maxLength e range
    let rest := getAll codecs s e maxLengths r.remainingRange
    (r.buffer ++ rest.1, rest.2)

def EndBetween (codecs : Codecs) (e : NSStringEncoding) : List ℕ → List Char → Prop
  | [], _ => True
  | maxLength :: maxLengths, middle =>
    ∃ p q, middle = p ++ q ∧
      min maxLength (codecs.bytesForEncoding middle e).length = (codecs.bytesForEncoding p e).length ∧
      EndBetween codecs e maxLengths q

lemma Regular.nil (h : codecs.Regular e s (before ++ middle)) : codecs.bytesForEncoding [] e = [] :=
  h.pieces [] nil_prefix.isInfix

lemma shorter_of_fits (h : codecs.Regular e s (before ++ (p ++ q))) (hs : ∀ c ∈ p ++ q, c ∈ s) {maxLength : ℕ}
    (hmin : min maxLength (codecs.bytesForEncoding (p ++ q) e).length = (codecs.bytesForEncoding p e).length)
    (hfits : ∀ c ∈ p ++ q, (codecs.bytesForEncoding [c] e).length ≤ maxLength) (hne : p ++ q ≠ []) :
    q.length < (p ++ q).length := by
  obtain ⟨c, cs, hcs⟩ := exists_cons_of_ne_nil hne
  have hc : c ∈ p ++ q := hcs ▸ mem_cons_self
  have hinfix : [c] ++ cs <:+: before ++ (p ++ q) := by
    rw [singleton_append, ← hcs]
    exact (suffix_append before (p ++ q)).isInfix
  have hfirst := h.append hinfix
  rw [singleton_append, ← hcs] at hfirst
  have hpos : 0 < (codecs.bytesForEncoding [c] e).length := by
    rw [← h.step c (mem_append_right before hc)]
    exact h.pos c (hs c hc)
  have hfit := hfits c hc
  have hp : p ≠ [] := by
    rintro rfl
    rw [h.nil, hfirst, length_append, length_nil] at hmin
    omega
  have := length_pos_iff.mpr hp
  rw [length_append]
  omega

lemma getAll_eq (maxLengths : List ℕ) {before middle : List Char} (hs : s = before ++ (middle ++ after))
    (h : codecs.Regular e s (before ++ middle)) (hends : codecs.EndBetween e maxLengths middle) :
    ∃ p q, middle = p ++ q ∧ codecs.getAll s e maxLengths ⟨units before, units middle⟩ =
        (codecs.bytesForEncoding p e, ⟨units before + units p, units q⟩) ∧
      ((∀ n ∈ maxLengths, ∀ c ∈ middle, (codecs.bytesForEncoding [c] e).length ≤ n) →
        middle.length ≤ maxLengths.length → q = []) := by
  induction maxLengths generalizing before middle with
  | nil =>
    refine ⟨[], middle, rfl, ?_, fun _ hlength => length_eq_zero_iff.mp (Nat.le_zero.mp hlength)⟩
    rw [h.nil]
    rfl
  | cons maxLength maxLengths ih =>
    obtain ⟨p, q, rfl, hmin, hends⟩ := hends
    have hbuffer := getBytes_buffer hs h maxLength
    have hinfix : p ++ q <:+: before ++ (p ++ q) := (suffix_append before (p ++ q)).isInfix
    have hwritten : (codecs.getBytes s maxLength e ⟨units before, units (p ++ q)⟩).buffer =
        codecs.bytesForEncoding p e := by
      rw [hbuffer, take_eq_take_min, hmin, h.append hinfix, take_left]
    have hremaining := getBytes_remaining hs h (congrArg List.length hwritten)
    have hs' : s = (before ++ p) ++ (q ++ after) := by rw [hs]; simp
    have h' : codecs.Regular e s ((before ++ p) ++ q) := by rwa [append_assoc]
    obtain ⟨p', q', rfl, hrest, hall⟩ := ih hs' h' hends
    refine ⟨p ++ p', q', by simp, ?_, fun hfits hlength => hall (fun n hn c hc => ?_) ?_⟩
    · have hpieces : p ++ p' <:+: before ++ (p ++ (p' ++ q')) := ⟨before, q', by simp⟩
      rw [units_append before p] at hrest
      rw [getAll, hremaining, hwritten, hrest, h.append hpieces, units_append p p', add_assoc]
    · exact hfits n (mem_cons_of_mem _ hn) c (mem_append_right p hc)
    · by_cases hne : p ++ (p' ++ q') = []
      · rw [(append_eq_nil_iff.mp hne).2]
        exact Nat.zero_le _
      · have hin : ∀ c ∈ p ++ (p' ++ q'), c ∈ s := by
          intro c hc
          rw [hs]
          exact mem_append_right _ (mem_append_left _ hc)
        have hless := shorter_of_fits h hin hmin (hfits maxLength mem_cons_self) hne
        rw [length_cons] at hlength
        omega

lemma regular_of_flatMap {f : Char → List UInt8} (hf : ∀ t, codecs.bytesForEncoding t e = t.flatMap f)
    (hstep : ∀ c, codecs.byteStepFor e c = (f c).length) (hpos : ∀ c, 0 < (f c).length)
    (upTo rest : List Char) : codecs.Regular e (upTo ++ rest) upTo := by
  have hone : ∀ c, codecs.bytesForEncoding [c] e = f c := by
    intro c
    rw [hf, flatMap_singleton]
  refine ⟨fun c _ => ?_, fun c _ => ?_, fun t _ => ?_, ?_⟩
  · rw [hone, hstep]
  · rw [hstep]
    exact hpos c
  · simp only [hone]
    exact hf t
  · rw [hf, hf, flatMap_append]
    exact prefix_append _ _

lemma regular_utf16 {f : UInt16 → List UInt8} (hf : ∀ u, (f u).length = 2)
    (henc : ∀ t, codecs.bytesForEncoding t e = (Lib.utf16 t).flatMap f)
    (hstep : ∀ c, codecs.byteStepFor e c = (utf16Char c).length * 2) (upTo rest : List Char) :
    codecs.Regular e (upTo ++ rest) upTo := by
  have hchars : ∀ t, codecs.bytesForEncoding t e = t.flatMap fun c => (utf16Char c).flatMap f :=
    fun t => (henc t).trans flatMap_assoc
  refine regular_of_flatMap hchars (fun c => ?_) (fun c => ?_) upTo rest
  · rw [hstep, length_flatMap_const hf]
  · rw [length_flatMap_const hf]
    exact Nat.mul_pos (units_pos c) two_pos

def isUnicode : NSStringEncoding → Bool
  | .utf8 | .utf16 | .utf16LittleEndian | .utf16BigEndian | .utf32 | .utf32LittleEndian | .utf32BigEndian => true
  | _ => false

lemma regular_unicode (codecs : Codecs) (he : isUnicode e = true) (upTo rest : List Char) :
    codecs.Regular e (upTo ++ rest) upTo := by
  cases e with
  | utf8 =>
    refine regular_of_flatMap (fun _ => rfl) (fun _ => rfl) (fun c => ?_) upTo rest
    rw [String.length_utf8EncodeChar]
    exact c.utf8Size_pos
  | utf16 => exact regular_utf16 (fun _ => length_leBytes) (fun _ => rfl) (fun _ => rfl) upTo rest
  | utf16LittleEndian => exact regular_utf16 (fun _ => length_leBytes) (fun _ => rfl) (fun _ => rfl) upTo rest
  | utf16BigEndian => exact regular_utf16 (fun _ => length_beBytes) (fun _ => rfl) (fun _ => rfl) upTo rest
  | utf32 | utf32BigEndian =>
    exact regular_of_flatMap (fun _ => rfl) (fun _ => length_beBytes.symm)
      (fun _ => length_beBytes.symm ▸ four_pos) upTo rest
  | utf32LittleEndian =>
    exact regular_of_flatMap (fun _ => rfl) (fun _ => length_leBytes.symm)
      (fun _ => length_leBytes.symm ▸ four_pos) upTo rest
  | _ => cases he

end Codecs

end TouchHle.Foundation
