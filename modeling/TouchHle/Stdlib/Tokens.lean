import TouchHle.Memory.MallocRuns
import TouchHle.Stdio.Conformance

namespace TouchHle.Stdlib

open List

section

variable {α : Type}

def nextToken (sep : α → Bool) (l : List α) : Option (List α) × Option (List α) :=
  match l.dropWhile sep with
  | [] => (none, none)
  | c :: rest =>
    (some ((c :: rest).takeWhile fun c => !sep c),
      match (c :: rest).dropWhile fun c => !sep c with
      | [] => none
      | _ :: after => some after)

def takeToken (sep : α → Bool) : Option (List α) → Option (List α) × Option (List α)
  | none => (none, none)
  | some l => nextToken sep l

def remaining : List (α → Bool) → Option (List α) → Option (List α)
  | [], left => left
  | sep :: seps, left => remaining seps (takeToken sep left).2

def tokens : List (α → Bool) → Option (List α) → List (Option (List α))
  | [], _ => []
  | sep :: seps, left => (takeToken sep left).1 :: tokens seps (takeToken sep left).2

variable {sep : α → Bool} {l : List α} {seps : List (α → Bool)} {left : Option (List α)}

lemma remaining_concat : remaining (seps ++ [sep]) left = (takeToken sep (remaining seps left)).2 := by
  induction seps generalizing left with
  | nil => rfl
  | cons s seps ih => exact ih

lemma tokens_concat :
    tokens (seps ++ [sep]) left = tokens seps left ++ [(takeToken sep (remaining seps left)).1] := by
  induction seps generalizing left with
  | nil => rfl
  | cons s seps ih =>
    rw [cons_append, tokens, ih, tokens, cons_append]
    rfl

lemma nextToken_cases (sep : α → Bool) (l : List α) :
    (nextToken sep l = (none, none) ∧ ∀ c ∈ l, sep c = true) ∨
    ∃ skipped token, token ≠ [] ∧ (∀ c ∈ skipped, sep c = true) ∧ (∀ c ∈ token, sep c = false) ∧
      ((l = skipped ++ token ∧ nextToken sep l = (some token, none)) ∨
        ∃ c rest, l = skipped ++ token ++ c :: rest ∧ sep c = true ∧
          nextToken sep l = (some token, some rest)) := by
  have hskip : ∀ c ∈ l.takeWhile sep, sep c = true := fun c hc => mem_takeWhile_imp hc
  have hsplit := takeWhile_append_dropWhile (p := sep) (l := l)
  rw [nextToken]
  cases hrest : l.dropWhile sep with
  | nil =>
    rw [hrest, append_nil] at hsplit
    exact .inl ⟨rfl, hsplit ▸ hskip⟩
  | cons d rest =>
    have hd : sep d = false := by
      have hhead := head_dropWhile_not sep (l := l) (by rw [hrest]; simp)
      simpa only [hrest, head_cons, Bool.not_eq_true] using hhead
    have htoken : ∀ c ∈ (d :: rest).takeWhile (fun c => !sep c), sep c = false := by
      intro c hc
      simpa using mem_takeWhile_imp hc
    have hsplit' := takeWhile_append_dropWhile (p := fun c => !sep c) (l := d :: rest)
    have hne : (d :: rest).takeWhile (fun c => !sep c) ≠ [] := by simp [hd]
    refine .inr ⟨l.takeWhile sep, (d :: rest).takeWhile fun c => !sep c, hne, hskip, htoken, ?_⟩
    dsimp only
    cases hafter : (d :: rest).dropWhile fun c => !sep c with
    | nil =>
      rw [hafter, append_nil] at hsplit'
      refine .inl ⟨?_, rfl⟩
      rw [hsplit', ← hrest, hsplit]
    | cons c after =>
      have hc : sep c = true := by
        have hhead := head_dropWhile_not (fun c => !sep c) (l := d :: rest)
          (by rw [hafter]; simp)
        simpa [hafter] using hhead
      rw [hafter] at hsplit'
      refine .inr ⟨c, after, ?_, hc, rfl⟩
      rw [append_assoc, hsplit', ← hrest, hsplit]

def runs (sep : α → Bool) (l : List α) : List (List α) := (l.splitOnP sep).filter fun run => !run.isEmpty

lemma runs_skip {a : List α} (h : ∀ c ∈ a, sep c = true) (l : List α) : runs sep (a ++ l) = runs sep l := by
  induction a with
  | nil => rfl
  | cons c a ih =>
    rw [cons_append, runs, splitOnP_cons_eq_if_modifyHead, if_pos (h c mem_cons_self)]
    exact ih fun c hc => h c (mem_cons_of_mem _ hc)

lemma runs_token {a : List α} (hne : a ≠ []) (h : ∀ c ∈ a, sep c = false) : runs sep a = [a] := by
  rw [runs, splitOnP_eq_singleton h]
  exact filter_cons_of_pos (by simp [hne])

lemma runs_token_cons {a : List α} (hne : a ≠ []) (h : ∀ c ∈ a, sep c = false) {c : α}
    (hc : sep c = true) (l : List α) : runs sep (a ++ c :: l) = a :: runs sep l := by
  rw [runs, splitOnP_append_cons_of_forall_mem h c hc, filter_cons_of_pos (by simp [hne])]
  rfl

lemma tokens_replicate (n : ℕ) : tokens (List.replicate n sep) left =
    (((left.map (runs sep)).getD []).map some ++ List.replicate n none).take n := by
  induction n generalizing left with
  | zero => rfl
  | succ n ih =>
    rw [replicate_succ, tokens, ih]
    cases left with
    | none => simp [takeToken, replicate_succ]
    | some l =>
      change (nextToken sep l).1 :: (((nextToken sep l).2.map (runs sep)).getD [] |>.map some |>.append
        (List.replicate n none)).take n = _
      rcases nextToken_cases sep l with ⟨hnext, hall⟩ | ⟨skipped, token, hne, hskip, htoken, hl⟩
      · have hruns : runs sep l = [] := by
          rw [← append_nil l, runs_skip hall]
          rfl
        rw [hnext]
        simp [hruns, replicate_succ]
      · rcases hl with ⟨rfl, hnext⟩ | ⟨c, rest, rfl, hc, hnext⟩
        · rw [hnext]
          simp [runs_skip hskip, runs_token hne htoken, replicate_succ']
        · have htake : ∀ r : List (Option (List α)), (r ++ List.replicate (n + 1) none).take n =
              (r ++ List.replicate n none).take n := by
            intro r
            rw [replicate_succ', ← append_assoc, take_append_of_le_length (by simp)]
          rw [hnext]
          simp [runs_skip hskip, runs_token_cons hne htoken hc, append_assoc, htake]

end

end TouchHle.Stdlib

namespace TouchHle.Stdlib

open Lib Memory Stdio List

def unitSize (wide : Bool) : ℕ := if wide then 4 else 1

def unitAt (wide : Bool) (m : Mem) (a : ℕ) : ℕ := if wide then m.readU32 a else (m.read a).toNat

def clearUnit (wide : Bool) (m : Mem) (a : ℕ) : Mem := if wide then m.writeU32 a 0 else m.write a 0

def unitFrom (wide : Bool) (m : Mem) (s : UInt32) (i : ℕ) : ℕ :=
  unitAt wide m (offsetBy s (unitSize wide * i))

def advanced (wide : Bool) (s : UInt32) (i : ℕ) : UInt32 :=
  UInt32.ofNat (offsetBy s (unitSize wide * i))

def tokenise (wide : Bool) (isSep : ℕ → Bool) (m : Mem) (start : UInt32) : UInt32 × Mem × UInt32 :=
  let c := unitFrom wide m start
  let i := countUntil (fun i => c i = 0 || !isSep (c i)) (2 ^ 32) 0
  if c i = 0 then (0, m, 0)
  else
    let j := countUntil (fun j => c j = 0 || isSep (c j)) (2 ^ 32) i
    if isSep (c j) then
      (advanced wide start i, clearUnit wide m (offsetBy start (unitSize wide * j)),
        advanced wide start (j + 1))
    else (advanced wide start i, m, 0)

def inCstr (m : Mem) (sep : UInt32) (c : ℕ) : Bool := (cstrAt m sep).any fun b => b.toNat = c

def isDelim (m : Mem) (delimiters : UInt32) (c : ℕ) : ℕ → ℕ → Bool
  | 0, _ => false
  | limit + 1, j =>
    let d := unitFrom true m delimiters j
    if d = 0 then false else if d = c then true else isDelim m delimiters c limit (j + 1)

structure TokenState where
  mem : Mem
  strtok : Option UInt32

def strtok (w : TokenState) (s sep : UInt32) : UInt32 × TokenState :=
  match (if s = 0 then w.strtok.filter fun state => state ≠ 0 else some s) with
  | none => (0, { w with strtok := none })
  | some s =>
    let (tokenStart, m, nextToken) := tokenise false (inCstr w.mem sep) w.mem s
    (tokenStart, ⟨m, if tokenStart = 0 then none else some nextToken⟩)

def readPtr (m : Mem) (saveptr : UInt32) : UInt32 := UInt32.ofNat (m.readU32 saveptr.toNat)

def strtokR (m : Mem) (s sep saveptr : UInt32) : UInt32 × Mem :=
  let start := if s ≠ 0 then s else readPtr m saveptr
  if start = 0 then (0, m)
  else
    let (tokenStart, m', next) := tokenise false (inCstr m sep) m start
    (tokenStart, m'.writeU32 saveptr.toNat next.toNat)

def wcstok (m : Mem) (s delimiters saveptr : UInt32) : UInt32 × Mem :=
  let start := if s ≠ 0 then s else readPtr m saveptr
  if start = 0 then (0, m)
  else
    let (tokenStart, m', next) := tokenise true (fun c => isDelim m delimiters c (2 ^ 32) 0) m start
    (tokenStart, m'.writeU32 saveptr.toNat next.toNat)

structure HoldsUnits (wide : Bool) (m : Mem) (base : ℕ) (l : List ℕ) : Prop where
  notNull : 0 < base
  mapped : m.nullSegmentSize ≤ base
  within : base + unitSize wide * (l.length + 1) ≤ 2 ^ 32
  units : ∀ i (h : i < l.length), unitAt wide m (base + unitSize wide * i) = l[i]
  terminated : unitAt wide m (base + unitSize wide * l.length) = 0
  nonzero : 0 ∉ l

variable {wide : Bool} {m m' : Mem} {base i j : ℕ} {l : List ℕ} {s : UInt32}

lemma unitSize_pos (wide : Bool) : 0 < unitSize wide := by cases wide <;> decide

lemma unitSize_mul_lt (wide : Bool) (h : i < j) : unitSize wide * i + unitSize wide ≤ unitSize wide * j := by
  rw [← Nat.mul_succ]
  exact Nat.mul_le_mul_left _ h

lemma unitAt_congr {a : ℕ} (hnull : m.nullSegmentSize ≤ a) (hin : a + unitSize wide ≤ 2 ^ 32)
    (hsize : m'.nullSegmentSize = m.nullSegmentSize)
    (hbytes : ∀ x, a ≤ x → x < a + unitSize wide → m'.bytes x = m.bytes x) :
    unitAt wide m' a = unitAt wide m a := by
  cases wide with
  | false =>
    change (m'.read a).toNat = (m.read a).toNat
    change a + 1 ≤ 2 ^ 32 at hin
    rw [read_guest (by omega) (by omega), read_guest (by omega) (by omega),
      hbytes a le_rfl (Nat.lt_succ_self a)]
  | true =>
    change m'.readU32 a = m.readU32 a
    change a + 4 ≤ 2 ^ 32 at hin
    have hread : ∀ k < 4, m'.read (a + k) = m.read (a + k) := by
      intro k hk
      rw [read_guest (by omega) (by omega), read_guest (by omega) (by omega),
        hbytes (a + k) (by omega) (by change a + k < a + 4; omega)]
    have h0 := hread 0 (by omega)
    have h1 := hread 1 (by omega)
    have h2 := hread 2 (by omega)
    have h3 := hread 3 (by omega)
    rw [add_zero] at h0
    rw [Mem.readU32, Mem.readU32, h0, h1, h2, h3]

@[simp] lemma write_nullSegmentSize (a : ℕ) (v : UInt8) :
    (m.write a v).nullSegmentSize = m.nullSegmentSize := Mem.fill_nullSegmentSize _ _

@[simp] lemma writeU32_nullSegmentSize (a v : ℕ) :
    (m.writeU32 a v).nullSegmentSize = m.nullSegmentSize := (Libc.sameHeap_writeU32 m a v).nullSegmentSize

@[simp] lemma clearUnit_nullSegmentSize (a : ℕ) :
    (clearUnit wide m a).nullSegmentSize = m.nullSegmentSize := by
  cases wide
  · exact write_nullSegmentSize a 0
  · exact writeU32_nullSegmentSize a 0

lemma write_bytes_outside {a x : ℕ} {v : UInt8} (h : x ≠ a) : (m.write a v).bytes x = m.bytes x :=
  Mem.fill_bytes_outside (by omega) v

lemma writeU32_bytes_outside {a v x : ℕ} (h : x < a ∨ a + 4 ≤ x) :
    (m.writeU32 a v).bytes x = m.bytes x := by
  rw [Mem.writeU32, write_bytes_outside (by omega), write_bytes_outside (by omega),
    write_bytes_outside (by omega), write_bytes_outside (by omega)]

lemma clearUnit_bytes_outside {a x : ℕ} (h : x < a ∨ a + unitSize wide ≤ x) :
    (clearUnit wide m a).bytes x = m.bytes x := by
  cases wide with
  | false => exact write_bytes_outside (by change x < a ∨ a + 1 ≤ x at h; omega)
  | true => exact writeU32_bytes_outside h

lemma unitAt_clearUnit {a : ℕ} (hnull : m.nullSegmentSize ≤ a) (hin : a + unitSize wide ≤ 2 ^ 32) :
    unitAt wide (clearUnit wide m a) a = 0 := by
  cases wide with
  | false =>
    change a + 1 ≤ 2 ^ 32 at hin
    change ((m.write a 0).read a).toNat = 0
    rw [read_guest (by rwa [write_nullSegmentSize]) (by omega),
      Libc.write_bytes hnull (by rw [bytesLen]; omega), if_pos rfl]
    rfl
  | true =>
    change a + 4 ≤ 2 ^ 32 at hin
    exact Libc.readU32_writeU32 hnull (by rw [bytesLen]; omega) (by decide)

namespace HoldsUnits

lemma congr (h : HoldsUnits wide m base l) (hsize : m'.nullSegmentSize = m.nullSegmentSize)
    (hbytes : ∀ x, base ≤ x → x < base + unitSize wide * (l.length + 1) → m'.bytes x = m.bytes x) :
    HoldsUnits wide m' base l := by
  have hmapped := h.mapped
  have hwithin := h.within
  have hunit : ∀ i, i ≤ l.length →
      unitAt wide m' (base + unitSize wide * i) = unitAt wide m (base + unitSize wide * i) := by
    intro i hi
    have hlt := unitSize_mul_lt wide (Nat.lt_add_one_of_le hi)
    exact unitAt_congr (by omega) (by omega) hsize fun x hx hx' => hbytes x (by omega) (by omega)
  exact ⟨h.notNull, by rw [hsize]; exact hmapped, hwithin,
    fun i hi => (hunit i hi.le).trans (h.units i hi), (hunit _ le_rfl).trans h.terminated, h.nonzero⟩

lemma suffix {a b : List ℕ} (h : HoldsUnits wide m base (a ++ b)) :
    HoldsUnits wide m (base + unitSize wide * a.length) b := by
  have hsum : ∀ i, base + unitSize wide * a.length + unitSize wide * i =
      base + unitSize wide * (a.length + i) := by
    intro i
    rw [mul_add, add_assoc]
  have hwithin := h.within
  rw [length_append, add_assoc] at hwithin
  refine ⟨Nat.add_pos_left h.notNull _, h.mapped.trans (Nat.le_add_right _ _), ?_, fun i hi => ?_, ?_,
    fun hmem => h.nonzero (mem_append_right _ hmem)⟩
  · rwa [hsum]
  · rw [hsum, h.units _ (by rw [length_append]; omega),
      getElem_append_right (Nat.le_add_right _ _)]
    simp only [Nat.add_sub_cancel_left]
  · rw [hsum, ← length_append]
    exact h.terminated

lemma cut {a b : List ℕ} {c : ℕ} (h : HoldsUnits wide m base (a ++ c :: b)) :
    HoldsUnits wide (clearUnit wide m (base + unitSize wide * a.length)) base a := by
  have hwithin := h.within
  have hmapped := h.mapped
  have hlength : a.length < (a ++ c :: b).length := by simp
  have hlt := unitSize_mul_lt wide (Nat.lt_add_right 1 hlength)
  refine ⟨h.notNull, by rwa [clearUnit_nullSegmentSize], ?_, fun i hi => ?_, ?_,
    fun hmem => h.nonzero (mem_append_left _ hmem)⟩
  · rw [Nat.mul_succ]
    omega
  · have hi' := unitSize_mul_lt wide hi
    rw [unitAt_congr (m := m) (by omega) (by omega) (clearUnit_nullSegmentSize _) fun x _ hx =>
      clearUnit_bytes_outside (.inl (by omega)), h.units i (by omega),
      getElem_append_left hi]
  · exact unitAt_clearUnit (by omega) (by omega)

variable (h : HoldsUnits wide m s.toNat l)

include h

lemma offsetBy_eq (hi : i ≤ l.length) :
    offsetBy s (unitSize wide * i) = s.toNat + unitSize wide * i := by
  have hwithin := h.within
  have hpos := unitSize_pos wide
  have hlt := unitSize_mul_lt wide (Nat.lt_add_one_of_le hi)
  exact offsetBy_of_lt (by omega)

lemma unitFrom_eq (hi : i < l.length) : unitFrom wide m s i = l[i] := by
  rw [unitFrom, h.offsetBy_eq hi.le, h.units i hi]

lemma unitFrom_end : unitFrom wide m s l.length = 0 := by
  rw [unitFrom, h.offsetBy_eq le_rfl, h.terminated]

lemma length_lt : l.length < 2 ^ 32 := by
  have hwithin := h.within
  have hle : l.length + 1 ≤ unitSize wide * (l.length + 1) :=
    Nat.le_mul_of_pos_left _ (unitSize_pos wide)
  have hpos := h.notNull
  omega

lemma advanced_toNat (hi : i ≤ l.length) :
    (advanced wide s i).toNat = s.toNat + unitSize wide * i := by
  rw [advanced, UInt32.toNat_ofNat', h.offsetBy_eq hi]
  have hwithin := h.within
  have hpos := unitSize_pos wide
  have hlt := unitSize_mul_lt wide (Nat.lt_add_one_of_le hi)
  exact Nat.mod_eq_of_lt (by omega)

lemma advanced_ne (hi : i ≤ l.length) : advanced wide s i ≠ 0 := by
  intro hzero
  have htoNat := h.advanced_toNat hi
  have hpos := h.notNull
  rw [hzero] at htoNat
  change 0 = _ at htoNat
  omega

end HoldsUnits

lemma countUntil_eq {stops : ℕ → Bool} {limit k n : ℕ} (hk : k ≤ n) (hn : n < k + limit)
    (hgo : ∀ j, k ≤ j → j < n → stops j = false) (hstop : stops n = true) :
    countUntil stops limit k = n := by
  obtain ⟨d, rfl⟩ := Nat.exists_eq_add_of_le hk
  obtain ⟨limit, rfl⟩ := Nat.exists_eq_add_of_le (show d + 1 ≤ limit by omega)
  rw [add_assoc, countUntil_skip fun j hj => hgo (k + j) (by omega) (by omega), add_comm 1,
    countUntil, hstop, if_pos rfl]

lemma tokenise_spec {isSep : ℕ → Bool} (h : HoldsUnits wide m s.toNat l) (hzero : isSep 0 = false) :
    (nextToken isSep l = (none, none) ∧ tokenise wide isSep m s = (0, m, 0)) ∨
    ∃ skipped token, token ≠ [] ∧ (∀ c ∈ skipped, isSep c = true) ∧
      ((l = skipped ++ token ∧ nextToken isSep l = (some token, none) ∧
          tokenise wide isSep m s = (advanced wide s skipped.length, m, 0)) ∨
        ∃ c rest, l = skipped ++ token ++ c :: rest ∧ isSep c = true ∧
          nextToken isSep l = (some token, some rest) ∧
          tokenise wide isSep m s = (advanced wide s skipped.length,
            clearUnit wide m (s.toNat + unitSize wide * (skipped ++ token).length),
            advanced wide s ((skipped ++ token).length + 1))) := by
  have hlength := h.length_lt
  have hstops : ∀ (p : ℕ → Bool) (i : ℕ) (hi : i < l.length),
      (decide (unitFrom wide m s i = 0) || p (unitFrom wide m s i)) = p l[i] := by
    intro p i hi
    have hne : l[i] ≠ 0 := fun heq => h.nonzero (heq ▸ getElem_mem hi)
    rw [h.unitFrom_eq hi, decide_eq_false hne, Bool.false_or]
  have hend : ∀ p : ℕ → Bool,
      (decide (unitFrom wide m s l.length = 0) || p (unitFrom wide m s l.length)) = true := by
    intro p
    rw [h.unitFrom_end, decide_eq_true rfl, Bool.true_or]
  rcases nextToken_cases isSep l with ⟨hnext, hall⟩ | ⟨skipped, token, hne, hskip, htoken, hl⟩
  · have hi : countUntil (fun i => decide (unitFrom wide m s i = 0) || !isSep (unitFrom wide m s i))
        (2 ^ 32) 0 = l.length := by
      refine countUntil_eq (Nat.zero_le _) (by omega) (fun j _ hj => ?_) (hend fun c => !isSep c)
      rw [hstops (fun c => !isSep c) j hj, hall _ (getElem_mem hj)]
      rfl
    refine .inl ⟨hnext, ?_⟩
    rw [tokenise]
    dsimp only
    rw [hi, if_pos h.unitFrom_end]
  · refine .inr ⟨skipped, token, hne, hskip, ?_⟩
    have hpos := length_pos_of_ne_nil hne
    -- Both loops stop at the ends of the token, whatever follows it.
    have hstart : ∀ tail, l = skipped ++ token ++ tail →
        countUntil (fun i => decide (unitFrom wide m s i = 0) || !isSep (unitFrom wide m s i))
          (2 ^ 32) 0 = skipped.length ∧ unitFrom wide m s skipped.length ≠ 0 := by
      intro tail hl
      have hat : skipped.length < l.length := by
        rw [hl, length_append, length_append]
        omega
      have hmem : l[skipped.length] ∈ token := by
        simp only [hl, append_assoc]
        rw [getElem_append_right le_rfl]
        simp only [Nat.sub_self]
        rw [getElem_append_left hpos]
        exact getElem_mem hpos
      refine ⟨countUntil_eq (Nat.zero_le _) (by omega) (fun j _ hj => ?_) ?_, ?_⟩
      · have hj' : l[j] = skipped[j] := by
          simp only [hl, append_assoc]
          exact getElem_append_left hj
        rw [hstops (fun c => !isSep c) j (by omega), hj', hskip _ (getElem_mem hj)]
        rfl
      · rw [hstops (fun c => !isSep c) _ hat, htoken _ hmem]
        rfl
      · rw [h.unitFrom_eq hat]
        exact fun heq => h.nonzero (heq ▸ getElem_mem hat)
    have hinside : ∀ tail, l = skipped ++ token ++ tail → ∀ j, skipped.length ≤ j →
        j < (skipped ++ token).length →
        (decide (unitFrom wide m s j = 0) || isSep (unitFrom wide m s j)) = false := by
      intro tail hl j hj hj'
      have hlt : j < l.length := by
        rw [hl, length_append]
        omega
      have hmem : l[j] ∈ token := by
        simp only [hl]
        rw [getElem_append_left hj', getElem_append_right hj]
        exact getElem_mem _
      rw [hstops isSep j hlt, htoken _ hmem]
    rcases hl with ⟨hl, hnext⟩ | ⟨c, rest, hl, hc, hnext⟩
    · obtain ⟨hi, hne⟩ := hstart [] (by rw [hl, append_nil])
      have hj : countUntil (fun j => decide (unitFrom wide m s j = 0) || isSep (unitFrom wide m s j))
          (2 ^ 32) skipped.length = l.length := by
        refine countUntil_eq (by rw [hl, length_append]; omega) (by omega) (fun j hj hj' => ?_)
          (hend isSep)
        exact hinside [] (by rw [hl, append_nil]) j hj (hl ▸ hj')
      refine .inl ⟨hl, hnext, ?_⟩
      rw [tokenise]
      dsimp only
      rw [hi, if_neg hne, hj, h.unitFrom_end, if_neg (by rw [hzero]; decide)]
    · obtain ⟨hi, hne⟩ := hstart (c :: rest) hl
      have hat : (skipped ++ token).length < l.length := by
        rw [hl, @length_append _ (skipped ++ token), length_cons]
        omega
      have hunit : l[(skipped ++ token).length] = c := by
        simp only [hl]
        rw [getElem_append_right le_rfl]
        simp
      have hj : countUntil (fun j => decide (unitFrom wide m s j = 0) || isSep (unitFrom wide m s j))
          (2 ^ 32) skipped.length = (skipped ++ token).length := by
        refine countUntil_eq (by rw [length_append]; omega) (by omega) (hinside _ hl) ?_
        rw [hstops isSep _ hat, hunit, hc]
      refine .inr ⟨c, rest, hl, hc, hnext, ?_⟩
      rw [tokenise]
      dsimp only
      rw [hi, if_neg hne, hj, h.unitFrom_eq hat, hunit, if_pos hc, h.offsetBy_eq hat.le]

def separatorsOf (wide : Bool) (l : List ℕ) : List ℕ := if wide then l else l.take maxCstrLen

lemma inCstr_eq (h : HoldsUnits false m s.toNat l) (c : ℕ) :
    inCstr m s c = decide (c ∈ separatorsOf false l) := by
  have hwithin := h.within
  change s.toNat + 1 * (l.length + 1) ≤ 2 ^ 32 at hwithin
  have hmapped := h.mapped
  have hread : ∀ i, i ≤ l.length → m.read (offsetBy s i) = m.bytes (s.toNat + i) := by
    intro i hi
    rw [offsetBy_of_lt (by omega), read_guest (by omega) (by omega)]
  have hunit : ∀ i (hi : i < l.length), (m.bytes (s.toNat + i)).toNat = l[i] := by
    intro i hi
    have hat := h.unitFrom_eq hi
    rw [unitFrom, unitSize, if_neg (by decide), one_mul] at hat
    change (m.read (offsetBy s i)).toNat = l[i] at hat
    rw [← hat, hread i hi.le]
  have hgo : ∀ i, i < l.length → decide (m.read (offsetBy s i) = 0) = false := by
    intro i hi
    rw [decide_eq_false_iff_not, hread i hi.le]
    intro heq
    have hzero := hunit i hi
    have hmem := getElem_mem hi
    rw [heq] at hzero
    rw [← hzero] at hmem
    exact h.nonzero hmem
  have hend : decide (m.read (offsetBy s l.length) = 0) = true := by
    have hat := h.unitFrom_end
    rw [unitFrom, unitSize, if_neg (by decide), one_mul] at hat
    change (m.read (offsetBy s l.length)).toNat = 0 at hat
    rw [decide_eq_true_iff]
    exact UInt8.toNat_inj.mp hat
  have hcount : countUntil (fun i => decide (m.read (offsetBy s i) = 0)) maxCstrLen 0 =
      min maxCstrLen l.length := by
    by_cases hle : l.length ≤ maxCstrLen
    · rw [min_eq_right hle]
      exact countUntil_stop hle (fun j hj => hgo j hj) hend
    · rw [min_eq_left (by omega)]
      refine le_antisymm ?_ (le_countUntil_of le_rfl fun j hj => hgo j (by omega))
      simpa using countUntil_le (fun i => decide (m.read (offsetBy s i) = 0)) maxCstrLen 0
  have hload : (cstrAt m s).map UInt8.toNat = separatorsOf false l := by
    rw [cstrAt, hcount, load_guest hmapped (by omega), List.map_map, separatorsOf,
      if_neg (by decide)]
    apply ext_getElem
    · rw [length_map, length_range, length_take]
    · intro i hi hi'
      rw [length_map, length_range] at hi
      rw [getElem_map, getElem_range, getElem_take]
      exact hunit i (by omega)
  rw [inCstr, ← hload, Bool.eq_iff_iff, any_eq_true, decide_eq_true_iff, mem_map]
  simp only [decide_eq_true_eq]

lemma isDelim_eq (h : HoldsUnits true m s.toNat l) (c : ℕ) :
    isDelim m s c (2 ^ 32) 0 = decide (c ∈ separatorsOf true l) := by
  have hloop : ∀ limit j, j ≤ l.length → l.length < limit + j →
      isDelim m s c limit j = decide (c ∈ l.drop j) := by
    intro limit
    induction limit with
    | zero => intro j hj hlt; omega
    | succ limit ih =>
      intro j hj hlt
      rw [isDelim]
      rcases hj.lt_or_eq with hj | rfl
      · have hunit := h.unitFrom_eq hj
        have hne : l[j] ≠ 0 := fun heq => h.nonzero (heq ▸ getElem_mem hj)
        rw [hunit, if_neg hne, drop_eq_getElem_cons hj, ih (j + 1) hj (by omega)]
        by_cases hc : l[j] = c
        · rw [if_pos hc, hc, decide_eq_true mem_cons_self]
        · rw [if_neg hc, Bool.eq_iff_iff, decide_eq_true_iff, decide_eq_true_iff, mem_cons]
          exact ⟨.inr, fun hor => hor.resolve_left fun heq => hc heq.symm⟩
      · rw [h.unitFrom_end, if_pos rfl, drop_length]
        rfl
  exact hloop _ 0 (Nat.zero_le _) (by have := h.length_lt; omega)

end TouchHle.Stdlib

namespace TouchHle.Stdlib

open Lib Memory Stdio List

inductive Tokeniser
  | strtok
  | strtokR (saveptr : UInt32)
  | wcstok (saveptr : UInt32)
  deriving DecidableEq

namespace Tokeniser

def wide : Tokeniser → Bool
  | wcstok _ => true
  | _ => false

def call (api : Tokeniser) (w : TokenState) (s sep : UInt32) : UInt32 × TokenState :=
  match api with
  | .strtok => Stdlib.strtok w s sep
  | .strtokR saveptr => ((Stdlib.strtokR w.mem s sep saveptr).1,
      { w with mem := (Stdlib.strtokR w.mem s sep saveptr).2 })
  | .wcstok saveptr => ((Stdlib.wcstok w.mem s sep saveptr).1,
      { w with mem := (Stdlib.wcstok w.mem s sep saveptr).2 })

def saved (api : Tokeniser) (w : TokenState) : UInt32 :=
  match api with
  | .strtok => w.strtok.getD 0
  | .strtokR saveptr => readPtr w.mem saveptr
  | .wcstok saveptr => readPtr w.mem saveptr

def saveCell : Tokeniser → Set ℕ
  | .strtok => ∅
  | .strtokR saveptr => {a | saveptr.toNat ≤ a ∧ a < saveptr.toNat + 4}
  | .wcstok saveptr => {a | saveptr.toNat ≤ a ∧ a < saveptr.toNat + 4}

def SaveCellMapped (api : Tokeniser) (m : Mem) : Prop :=
  match api with
  | .strtok => True
  | .strtokR saveptr => m.nullSegmentSize ≤ saveptr.toNat ∧ saveptr.toNat + 4 ≤ 2 ^ 32
  | .wcstok saveptr => m.nullSegmentSize ≤ saveptr.toNat ∧ saveptr.toNat + 4 ≤ 2 ^ 32

end Tokeniser

structure Source where
  api : Tokeniser
  base : UInt32
  text : List ℕ

def Source.buffer (src : Source) : Set ℕ :=
  {a | src.base.toNat ≤ a ∧ a < src.base.toNat + unitSize src.api.wide * (src.text.length + 1)}

def tokenAt (wide : Bool) (m : Mem) (ptr : UInt32) : Option (List ℕ) :=
  if ptr = 0 then none
  else some ((List.range (countUntil (fun i => unitFrom wide m ptr i = 0) (2 ^ 32) 0)).map
    (unitFrom wide m ptr))

lemma tokenAt_eq {wide : Bool} {m : Mem} {ptr : UInt32} {l : List ℕ}
    (h : HoldsUnits wide m ptr.toNat l) : tokenAt wide m ptr = some l := by
  have hne : ptr ≠ 0 := by
    rintro rfl
    exact absurd h.notNull (by decide)
  have hcount : countUntil (fun i => decide (unitFrom wide m ptr i = 0)) (2 ^ 32) 0 = l.length := by
    refine countUntil_stop h.length_lt.le (fun j hj => ?_) (decide_eq_true h.unitFrom_end)
    rw [h.unitFrom_eq hj, decide_eq_false_iff_not]
    exact fun heq => h.nonzero (heq ▸ getElem_mem hj)
  rw [tokenAt, if_neg hne, hcount]
  congr 1
  apply ext_getElem
  · rw [length_map, length_range]
  · intro i hi hi'
    rw [getElem_map, getElem_range, h.unitFrom_eq hi']

variable {api : Tokeniser} {w : TokenState} {s sep start : UInt32} {l : List ℕ}

def isSeparator (wide : Bool) (l : List ℕ) (c : ℕ) : Bool := decide (c ∈ separatorsOf wide l)

lemma isSeparator_zero (wide : Bool) (h : 0 ∉ l) : isSeparator wide l 0 = false := by
  rw [isSeparator, decide_eq_false_iff_not, separatorsOf]
  split
  · exact h
  · exact fun hmem => h (mem_of_mem_take hmem)

lemma readPtr_writeU32 {m : Mem} {saveptr next : UInt32} (hnull : m.nullSegmentSize ≤ saveptr.toNat)
    (hin : saveptr.toNat + 4 ≤ 2 ^ 32) : readPtr (m.writeU32 saveptr.toNat next.toNat) saveptr = next := by
  rw [readPtr, Libc.readU32_writeU32 hnull (by rw [bytesLen]; omega) next.toNat_lt]
  exact UInt32.ofNat_toNat

lemma call_tokenise (hsep : HoldsUnits api.wide w.mem sep.toNat l)
    (hcell : api.SaveCellMapped w.mem) (hne : start ≠ 0)
    (hstart : s = start ∨ s = 0 ∧ api.saved w = start) {r next : UInt32} {m : Mem}
    (ht : tokenise api.wide (isSeparator api.wide l) w.mem start = (r, m, next))
    (hnull : m.nullSegmentSize = w.mem.nullSegmentSize) (hnext : r = 0 → next = 0) :
    (api.call w s sep).1 = r ∧
      (api.call w s sep).2.mem.nullSegmentSize = w.mem.nullSegmentSize ∧
      (∀ a ∉ api.saveCell, (api.call w s sep).2.mem.bytes a = m.bytes a) ∧
      api.saved (api.call w s sep).2 = next ∧
      (api ≠ .strtok → (api.call w s sep).2.strtok = w.strtok) := by
  cases api with
  | strtok =>
    have hfun : inCstr w.mem sep = isSeparator false l := funext fun c => inCstr_eq hsep c
    have hmatch : (if s = 0 then w.strtok.filter fun state => state ≠ 0 else some s) = some start := by
      rcases hstart with rfl | ⟨rfl, hsaved⟩
      · exact if_neg hne
      · rw [if_pos rfl]
        change w.strtok.getD 0 = start at hsaved
        cases hstate : w.strtok with
        | none =>
          rw [hstate] at hsaved
          exact absurd hsaved.symm hne
        | some state =>
          rw [hstate] at hsaved
          obtain rfl : state = start := hsaved
          rw [Option.filter_some, if_pos (decide_eq_true hne)]
    change tokenise false (isSeparator false l) w.mem start = _ at ht
    have hcall : strtok w s sep = (r, ⟨m, if r = 0 then none else some next⟩) := by
      rw [strtok, hmatch]
      dsimp only
      rw [hfun, ht]
    refine ⟨?_, ?_, fun a _ => ?_, ?_, fun h => absurd rfl h⟩
    · exact congrArg Prod.fst hcall
    · rw [Tokeniser.call, hcall]
      exact hnull
    · rw [Tokeniser.call, hcall]
    · rw [Tokeniser.call, hcall, Tokeniser.saved]
      dsimp only
      split
      next hr => exact (hnext hr).symm
      next => rfl
  | strtokR saveptr =>
    have hfun : inCstr w.mem sep = isSeparator false l := funext fun c => inCstr_eq hsep c
    have hread : (if s ≠ 0 then s else readPtr w.mem saveptr) = start := by
      rcases hstart with rfl | ⟨rfl, hsaved⟩
      · exact if_pos hne
      · exact (if_neg (by simp)).trans hsaved
    change tokenise false (isSeparator false l) w.mem start = _ at ht
    have hcall : strtokR w.mem s sep saveptr = (r, m.writeU32 saveptr.toNat next.toNat) := by
      rw [strtokR]
      dsimp only
      rw [hread, if_neg hne, hfun, ht]
    rw [Tokeniser.call, hcall]
    refine ⟨rfl, ?_, fun a ha => ?_, ?_, fun _ => rfl⟩
    · rw [← hnull]
      exact writeU32_nullSegmentSize _ _
    · exact writeU32_bytes_outside (by by_contra hin; exact ha ⟨by omega, by omega⟩)
    · exact readPtr_writeU32 (hnull ▸ hcell.1) hcell.2
  | wcstok saveptr =>
    have hfun : (fun c => isDelim w.mem sep c (2 ^ 32) 0) = isSeparator true l :=
      funext fun c => isDelim_eq hsep c
    have hread : (if s ≠ 0 then s else readPtr w.mem saveptr) = start := by
      rcases hstart with rfl | ⟨rfl, hsaved⟩
      · exact if_pos hne
      · exact (if_neg (by simp)).trans hsaved
    change tokenise true (isSeparator true l) w.mem start = _ at ht
    have hcall : wcstok w.mem s sep saveptr = (r, m.writeU32 saveptr.toNat next.toNat) := by
      rw [wcstok]
      dsimp only
      rw [hread, if_neg hne, hfun, ht]
    rw [Tokeniser.call, hcall]
    refine ⟨rfl, ?_, fun a ha => ?_, ?_, fun _ => rfl⟩
    · rw [← hnull]
      exact writeU32_nullSegmentSize _ _
    · exact writeU32_bytes_outside (by by_contra hin; exact ha ⟨by omega, by omega⟩)
    · exact readPtr_writeU32 (hnull ▸ hcell.1) hcell.2

lemma call_done (sep : UInt32) (hsaved : api.saved w = 0) : (api.call w 0 sep).1 = 0 ∧
    (api.call w 0 sep).2.mem = w.mem ∧ api.saved (api.call w 0 sep).2 = 0 ∧
    (api ≠ .strtok → (api.call w 0 sep).2.strtok = w.strtok) := by
  cases api with
  | strtok =>
    have hmatch : (w.strtok.filter fun state => state ≠ 0) = none := by
      change w.strtok.getD 0 = 0 at hsaved
      cases hstate : w.strtok with
      | none => rfl
      | some state =>
        rw [hstate] at hsaved
        obtain rfl : state = 0 := hsaved
        rfl
    have hcall : strtok w 0 sep = (0, { w with strtok := none }) := by
      rw [strtok, if_pos rfl, hmatch]
    rw [Tokeniser.call, hcall]
    exact ⟨rfl, rfl, rfl, fun h => absurd rfl h⟩
  | strtokR saveptr =>
    have hcall : strtokR w.mem 0 sep saveptr = (0, w.mem) :=
      if_pos ((if_neg (show ¬ (0 : UInt32) ≠ 0 by simp)).trans hsaved)
    rw [Tokeniser.call, hcall]
    exact ⟨rfl, rfl, hsaved, fun _ => rfl⟩
  | wcstok saveptr =>
    have hcall : wcstok w.mem 0 sep saveptr = (0, w.mem) :=
      if_pos ((if_neg (show ¬ (0 : UInt32) ≠ 0 by simp)).trans hsaved)
    rw [Tokeniser.call, hcall]
    exact ⟨rfl, rfl, hsaved, fun _ => rfl⟩

def StreamAt (src : Source) (w : TokenState) (started : Bool) : Option (List ℕ) → Prop
  | none => started = true ∧ src.api.saved w = 0
  | some rest => ∃ before, src.text = before ++ rest ∧
      HoldsUnits src.api.wide w.mem (src.base.toNat + unitSize src.api.wide * before.length) rest ∧
      if started then
        (src.api.saved w).toNat = src.base.toNat + unitSize src.api.wide * before.length
      else before = []

def EndsToken (wide : Bool) (separators : List ℕ) (before : Mem) (ptr : UInt32)
    (token : Option (List ℕ)) (a : ℕ) : Prop :=
  ∃ t, token = some t ∧ ptr.toNat + unitSize wide * t.length ≤ a ∧
    a < ptr.toNat + unitSize wide * t.length + unitSize wide ∧
    isSeparator wide separators (unitAt wide before (ptr.toNat + unitSize wide * t.length)) = true

structure CallFrame (src : Source) (separators : List ℕ) (w w' : TokenState) (ptr : UInt32) : Prop where
  nullSegmentSize : w'.mem.nullSegmentSize = w.mem.nullSegmentSize
  strtok : src.api ≠ .strtok → w'.strtok = w.strtok
  bytes : ∀ a, w'.mem.bytes a ≠ w.mem.bytes a → a ∈ src.api.saveCell ∨ a ∈ src.buffer ∧
    EndsToken src.api.wide separators w.mem ptr (tokenAt src.api.wide w'.mem ptr) a

variable {src : Source} {started : Bool} {left : Option (List ℕ)}

lemma StreamAt.start_eq {rest : List ℕ} (h : StreamAt src w started (some rest)) :
    ∃ before start, src.text = before ++ rest ∧
      start.toNat = src.base.toNat + unitSize src.api.wide * before.length ∧
      HoldsUnits src.api.wide w.mem start.toNat rest ∧ start ≠ 0 ∧
      ((if started then 0 else src.base) = start ∨
        (if started then 0 else src.base) = 0 ∧ src.api.saved w = start) := by
  obtain ⟨before, htext, hholds, hstart⟩ := h
  have hne : ∀ p : UInt32, 0 < p.toNat → p ≠ 0 := by
    rintro p hp rfl
    exact absurd hp (by decide)
  cases started with
  | true =>
    rw [if_pos rfl] at hstart
    refine ⟨before, src.api.saved w, htext, hstart, hstart ▸ hholds, hne _ ?_, .inr ⟨rfl, rfl⟩⟩
    rw [hstart]
    exact hholds.notNull
  | false =>
    rw [if_neg (by decide)] at hstart
    subst hstart
    exact ⟨[], src.base, htext, rfl, hholds, hne _ hholds.notNull, .inl rfl⟩

lemma StreamAt.step (h : StreamAt src w started left) (hcell : src.api.SaveCellMapped w.mem)
    (hapart : Disjoint src.api.saveCell src.buffer)
    (hsep : HoldsUnits src.api.wide w.mem sep.toNat l) :
    let c := src.api.call w (if started then 0 else src.base) sep
    tokenAt src.api.wide c.2.mem c.1 = (takeToken (isSeparator src.api.wide l) left).1 ∧
      StreamAt src c.2 true (takeToken (isSeparator src.api.wide l) left).2 ∧
      CallFrame src l w c.2 c.1 := by
  cases left with
  | none =>
    obtain ⟨rfl, hsaved⟩ := h
    obtain ⟨hptr, hmem, hsaved', hstrtok⟩ := call_done sep hsaved
    dsimp only
    rw [if_pos rfl]
    refine ⟨?_, ⟨rfl, hsaved'⟩, by rw [hmem], hstrtok, fun a ha => absurd (by rw [hmem]) ha⟩
    rw [tokenAt, if_pos hptr]
    rfl
  | some rest =>
    obtain ⟨before, start, htext, hbase, hholds, hne, hcall⟩ := h.start_eq
    have hin : ∀ x, start.toNat ≤ x → x < start.toNat + unitSize src.api.wide * (rest.length + 1) →
        x ∈ src.buffer := by
      intro x hx hx'
      refine ⟨by omega, ?_⟩
      rw [htext, length_append, add_assoc, mul_add]
      omega
    have hout : ∀ x, start.toNat ≤ x → x < start.toNat + unitSize src.api.wide * (rest.length + 1) →
        x ∉ src.api.saveCell := fun x hx hx' hmem => Set.disjoint_left.mp hapart hmem (hin x hx hx')
    have hzero := isSeparator_zero src.api.wide hsep.nonzero
    change _ ∧ StreamAt src _ true (nextToken _ rest).2 ∧ _
    rcases tokenise_spec hholds hzero with ⟨hnext, ht⟩ | ⟨skipped, token, -, -, hcases⟩
    · obtain ⟨hptr, hnull, hbytes, hsaved, hstrtok⟩ :=
        call_tokenise hsep hcell hne hcall ht rfl fun _ => rfl
      refine ⟨?_, ?_, hnull, hstrtok, fun a ha => .inl ?_⟩
      · rw [tokenAt, if_pos hptr]
        exact (congrArg Prod.fst hnext).symm
      · rw [hnext]
        exact ⟨rfl, hsaved⟩
      · by_contra hmem
        exact ha (hbytes a hmem)
    · have hskipped : skipped.length ≤ rest.length := by
        rcases hcases with ⟨hrest, -⟩ | ⟨c, after, hrest, -⟩
        · rw [hrest, length_append]
          omega
        · rw [hrest, length_append, length_append]
          omega
      have hptr_toNat := hholds.advanced_toNat hskipped
      have hmul : ∀ i j : ℕ, start.toNat + unitSize src.api.wide * i + unitSize src.api.wide * j =
          start.toNat + unitSize src.api.wide * (i + j) := by
        intro i j
        rw [mul_add, add_assoc]
      rcases hcases with ⟨hrest, hnext, ht⟩ | ⟨c, after, hrest, hc, hnext, ht⟩
      · obtain ⟨hptr, hnull, hbytes, hsaved, hstrtok⟩ :=
          call_tokenise hsep hcell hne hcall ht rfl fun _ => rfl
        refine ⟨?_, ?_, hnull, hstrtok, fun a ha => .inl ?_⟩
        · rw [hrest] at hholds
          have htoken := hholds.suffix
          rw [← hptr_toNat] at htoken
          rw [hptr, tokenAt_eq (htoken.congr hnull fun x hx hx' => hbytes x (hout x ?_ ?_))]
          · exact (congrArg Prod.fst hnext).symm
          · rw [hptr_toNat] at hx
            omega
          · rw [hptr_toNat, hmul] at hx'
            rw [hrest, length_append, add_assoc]
            exact hx'
        · rw [hnext]
          exact ⟨rfl, hsaved⟩
        · by_contra hmem
          exact ha (hbytes a hmem)
      · have hlen : (skipped ++ token).length + 1 ≤ rest.length := by
          rw [hrest, @length_append _ (skipped ++ token), length_cons]
          omega
        have hnext_toNat := hholds.advanced_toNat hlen
        obtain ⟨hptr, hnull, hbytes, hsaved, hstrtok⟩ := call_tokenise hsep hcell hne hcall ht
          (clearUnit_nullSegmentSize _) fun hzero => absurd hzero (hholds.advanced_ne hskipped)
        have hend : start.toNat + unitSize src.api.wide * skipped.length +
            unitSize src.api.wide * token.length =
            start.toNat + unitSize src.api.wide * (skipped ++ token).length := by
          rw [hmul, length_append]
        have hunit : unitAt src.api.wide w.mem
            (start.toNat + unitSize src.api.wide * (skipped ++ token).length) = c := by
          rw [hholds.units _ hlen]
          simp only [hrest]
          rw [getElem_append_right le_rfl]
          simp
        have hlt := unitSize_mul_lt src.api.wide (Nat.lt_add_one_of_le hlen)
        have hstep : unitSize src.api.wide * ((skipped ++ token).length + 1) =
            unitSize src.api.wide * (skipped ++ token).length + unitSize src.api.wide :=
          Nat.mul_succ _ _
        have hpos := unitSize_pos src.api.wide
        have htotal : rest.length + 1 = (skipped ++ token).length + 1 + (after.length + 1) := by
          rw [hrest, @length_append _ (skipped ++ token), length_cons]
          omega
        have htokenAt : tokenAt src.api.wide
            (src.api.call w (if started = true then 0 else src.base) sep).2.mem
            (src.api.call w (if started = true then 0 else src.base) sep).1 = some token := by
          have hholds' := hholds
          rw [hrest, append_assoc] at hholds'
          have htoken := hholds'.suffix.cut
          rw [hend, ← hptr_toNat] at htoken
          rw [hptr, tokenAt_eq (htoken.congr (hnull.trans (clearUnit_nullSegmentSize _).symm)
            fun x hx hx' => hbytes x (hout x ?_ ?_))]
          · rw [hptr_toNat] at hx
            omega
          · rw [hptr_toNat, hmul, ← add_assoc, ← length_append] at hx'
            omega
        refine ⟨?_, ?_, hnull, hstrtok, fun a ha => ?_⟩
        · rw [htokenAt]
          exact (congrArg Prod.fst hnext).symm
        · rw [hnext]
          have hbefore : src.base.toNat +
              unitSize src.api.wide * (before ++ (skipped ++ token ++ [c])).length =
              start.toNat + unitSize src.api.wide * ((skipped ++ token).length + 1) := by
            rw [length_append, hbase, mul_add, add_assoc,
              @length_append _ (skipped ++ token), length_singleton]
          refine ⟨before ++ (skipped ++ token ++ [c]), ?_, ?_, ?_⟩
          · rw [htext, hrest]
            simp
          · have hholds' := hholds
            rw [hrest, append_cons (skipped ++ token)] at hholds'
            have hafter := hholds'.suffix
            rw [@length_append _ (skipped ++ token), length_singleton] at hafter
            rw [hbefore]
            refine hafter.congr hnull fun x hx hx' => ?_
            rw [hmul, ← htotal] at hx'
            rw [hbytes x (hout x (by omega) hx'), clearUnit_bytes_outside (.inr (by omega))]
          · rw [if_pos rfl, hsaved, hnext_toNat, hbefore]
        · by_cases hmem : a ∈ src.api.saveCell
          · exact .inl hmem
          · have hrange : ¬ (a < start.toNat + unitSize src.api.wide * (skipped ++ token).length ∨
                start.toNat + unitSize src.api.wide * (skipped ++ token).length +
                  unitSize src.api.wide ≤ a) := by
              intro hrange
              exact ha ((hbytes a hmem).trans (clearUnit_bytes_outside hrange))
            refine .inr ⟨hin a (by omega) ?_, token, htokenAt, ?_, ?_, ?_⟩
            · omega
            · rw [hptr, hptr_toNat, hend]
              omega
            · rw [hptr, hptr_toNat, hend]
              omega
            · rw [hptr, hptr_toNat, hend, hunit]
              exact hc

lemma Tokeniser.SaveCellMapped.congr {m m' : Mem} (h : api.SaveCellMapped m)
    (hsize : m'.nullSegmentSize = m.nullSegmentSize) : api.SaveCellMapped m' := by
  cases api with
  | strtok => trivial
  | strtokR saveptr => exact ⟨hsize ▸ h.1, h.2⟩
  | wcstok saveptr => exact ⟨hsize ▸ h.1, h.2⟩

lemma StreamAt.congr {w' : TokenState} (h : StreamAt src w started left)
    (hcell : src.api.SaveCellMapped w.mem) (hsize : w'.mem.nullSegmentSize = w.mem.nullSegmentSize)
    (hstrtok : src.api = .strtok → w'.strtok = w.strtok)
    (hbytes : ∀ a, a ∈ src.api.saveCell ∨ a ∈ src.buffer → w'.mem.bytes a = w.mem.bytes a) :
    StreamAt src w' started left := by
  have hsaved : src.api.saved w' = src.api.saved w := by
    have hread : ∀ saveptr : UInt32, src.api.saveCell =
        {a | saveptr.toNat ≤ a ∧ a < saveptr.toNat + 4} → w.mem.nullSegmentSize ≤ saveptr.toNat →
        saveptr.toNat + 4 ≤ 2 ^ 32 → readPtr w'.mem saveptr = readPtr w.mem saveptr := by
      intro saveptr hset hnull hin
      refine congrArg UInt32.ofNat (@unitAt_congr true _ _ _ hnull hin hsize fun x hx hx' =>
        hbytes x (.inl ?_))
      rw [hset]
      exact ⟨hx, hx'⟩
    cases hapi : src.api with
    | strtok => exact congrArg (fun o => Option.getD o 0) (hstrtok hapi)
    | strtokR saveptr =>
      rw [hapi] at hcell hread
      exact hread saveptr rfl hcell.1 hcell.2
    | wcstok saveptr =>
      rw [hapi] at hcell hread
      exact hread saveptr rfl hcell.1 hcell.2
  cases left with
  | none => exact ⟨h.1, hsaved.trans h.2⟩
  | some rest =>
    obtain ⟨before, htext, hholds, hstart⟩ := h
    refine ⟨before, htext, hholds.congr hsize fun x hx hx' => hbytes x (.inr ⟨by omega, ?_⟩), ?_⟩
    · rw [htext, length_append, add_assoc, mul_add]
      omega
    · rwa [hsaved]

variable {ι : Type} {streams : ι → Source}

/-- Strings that do not overlap, each apart from where the others and itself keep what is left. Only
one can be given to `strtok`, which keeps what is left in one place. -/
structure Separate (streams : ι → Source) : Prop where
  cells : ∀ j k, Disjoint (streams j).api.saveCell (streams k).buffer
  buffers : ∀ j k, j ≠ k → Disjoint (streams j).buffer (streams k).buffer
  saveCells : ∀ j k, j ≠ k → Disjoint (streams j).api.saveCell (streams k).api.saveCell
  strtok : ∀ j k, (streams j).api = .strtok → (streams k).api = .strtok → j = k

structure Call (ι : Type) where
  stream : ι
  separators : List ℕ
  before : TokenState
  after : TokenState
  ptr : UInt32

variable [DecidableEq ι]

def callsOf (k : ι) (calls : List (Call ι)) : List (Call ι) := calls.filter fun c => c.stream = k

/-- Calls one after the other. The first of a stream is given the string, the others none. Between the
calls the program may change any memory that is not a stream's. -/
inductive Calls (streams : ι → Source) (w₀ : TokenState) : List (Call ι) → TokenState → Prop
  | start : Calls streams w₀ [] w₀
  | program {calls w w'} : Calls streams w₀ calls w →
      w'.mem.nullSegmentSize = w.mem.nullSegmentSize → w'.strtok = w.strtok →
      (∀ k a, a ∈ (streams k).api.saveCell ∨ a ∈ (streams k).buffer →
        w'.mem.bytes a = w.mem.bytes a) → Calls streams w₀ calls w'
  | call {calls w} (k : ι) (sep : UInt32) (separators : List ℕ) : Calls streams w₀ calls w →
      HoldsUnits (streams k).api.wide w.mem sep.toNat separators →
      Calls streams w₀
        (calls ++ [⟨k, separators, w,
          ((streams k).api.call w (if (callsOf k calls).isEmpty then (streams k).base else 0) sep).2,
          ((streams k).api.call w (if (callsOf k calls).isEmpty then (streams k).base else 0) sep).1⟩])
        ((streams k).api.call w (if (callsOf k calls).isEmpty then (streams k).base else 0) sep).2

def setsOf (streams : ι → Source) (k : ι) (calls : List (Call ι)) : List (ℕ → Bool) :=
  (callsOf k calls).map fun c => isSeparator (streams k).api.wide c.separators

def tokensOf (streams : ι → Source) (k : ι) (calls : List (Call ι)) : List (Option (List ℕ)) :=
  (callsOf k calls).map fun c => tokenAt (streams k).api.wide c.after.mem c.ptr

structure Between (streams : ι → Source) (calls : List (Call ι)) (w : TokenState) : Prop where
  cells : ∀ k, (streams k).api.SaveCellMapped w.mem
  stream : ∀ k, StreamAt (streams k) w (!(callsOf k calls).isEmpty)
    (remaining (setsOf streams k calls) (some (streams k).text))
  given : ∀ k, tokensOf streams k calls = tokens (setsOf streams k calls) (some (streams k).text)
  frames : ∀ c ∈ calls, CallFrame (streams c.stream) c.separators c.before c.after c.ptr

lemma callsOf_concat (k : ι) (calls : List (Call ι)) (c : Call ι) :
    callsOf k (calls ++ [c]) = if c.stream = k then callsOf k calls ++ [c] else callsOf k calls := by
  rw [callsOf, filter_append, filter_singleton]
  by_cases h : c.stream = k
  · rw [if_pos h, decide_eq_true h]
    rfl
  · rw [if_neg h, decide_eq_false h]
    exact append_nil _

lemma Calls.between (hsep : Separate streams) {w₀ w : TokenState} {calls : List (Call ι)}
    (hcells : ∀ k, (streams k).api.SaveCellMapped w₀.mem)
    (hholds : ∀ k, HoldsUnits (streams k).api.wide w₀.mem (streams k).base.toNat (streams k).text)
    (hrun : Calls streams w₀ calls w) : Between streams calls w := by
  induction hrun with
  | start => exact ⟨hcells, fun k => ⟨[], rfl, hholds k, rfl⟩, fun _ => rfl, by simp⟩
  | program _ hsize hstrtok hbytes ih =>
    exact ⟨fun k => (ih.cells k).congr hsize,
      fun k => (ih.stream k).congr (ih.cells k) hsize (fun _ => hstrtok) (hbytes k), ih.given,
      ih.frames⟩
  | @call calls w k sep separators _ hseparators ih =>
    have hfirst : (if (callsOf k calls).isEmpty then (streams k).base else 0) =
        if (!(callsOf k calls).isEmpty) = true then 0 else (streams k).base := by
      cases (callsOf k calls).isEmpty <;> rfl
    rw [hfirst]
    obtain ⟨htoken, hstream, hframe⟩ :=
      (ih.stream k).step (ih.cells k) (hsep.cells k k) hseparators
    refine ⟨fun j => (ih.cells j).congr hframe.nullSegmentSize, fun j => ?_, fun j => ?_, fun c hc => ?_⟩
    · rw [setsOf, callsOf_concat]
      by_cases hj : k = j
      · subst hj
        have hstarted : ∀ c : Call ι, (!(callsOf k calls ++ [c]).isEmpty) = true := by
          intro c
          simp
        rw [if_pos rfl, map_append, map_singleton, remaining_concat, hstarted]
        exact hstream
      · rw [if_neg hj]
        refine (ih.stream j).congr (ih.cells j) hframe.nullSegmentSize (fun hapi => ?_) fun a ha => ?_
        · exact hframe.strtok fun hapi' => hj (hsep.strtok k j hapi' hapi)
        · by_contra hne
          have hown := hframe.bytes a hne
          rcases hown with hcell | ⟨hbuffer, -⟩ <;> rcases ha with ha | ha
          · exact Set.disjoint_left.mp (hsep.saveCells k j hj) hcell ha
          · exact Set.disjoint_left.mp (hsep.cells k j) hcell ha
          · exact Set.disjoint_left.mp (hsep.cells j k) ha hbuffer
          · exact Set.disjoint_left.mp (hsep.buffers k j hj) hbuffer ha
    · rw [setsOf, tokensOf, callsOf_concat]
      by_cases hj : k = j
      · subst hj
        rw [if_pos rfl, map_append, map_append, map_singleton, map_singleton,
          tokens_concat]
        exact congrArg₂ (· ++ ·) (ih.given k) (congrArg (fun t => [t]) htoken)
      · rw [if_neg hj]
        exact ih.given j
    · rcases mem_append.mp hc with hc | hc
      · exact ih.frames c hc
      · rw [mem_singleton.mp hc]
        exact hframe

/-- Every stream gets its own tokens, each a maximal run between the separators of its call, whichever
of the tokenisers cuts it and whatever the calls for the other streams are in between; no call changes
more than where it keeps what is left and the separator that ends its token. With the same separators
in each call these are all the maximal runs, and then none. -/
theorem tokens_exact (hsep : Separate streams) {w₀ w : TokenState} {calls : List (Call ι)}
    (hcells : ∀ k, (streams k).api.SaveCellMapped w₀.mem)
    (hholds : ∀ k, HoldsUnits (streams k).api.wide w₀.mem (streams k).base.toNat (streams k).text)
    (hrun : Calls streams w₀ calls w) :
    (∀ k, tokensOf streams k calls = tokens (setsOf streams k calls) (some (streams k).text)) ∧
      (∀ k set n, setsOf streams k calls = List.replicate n set → tokensOf streams k calls =
        ((runs set (streams k).text).map some ++ List.replicate n none).take n) ∧
      ∀ c ∈ calls, CallFrame (streams c.stream) c.separators c.before c.after c.ptr := by
  have hbetween := hrun.between hsep hcells hholds
  refine ⟨hbetween.given, fun k set n hset => ?_, hbetween.frames⟩
  rw [hbetween.given, hset, tokens_replicate]
  rfl

def manySeparators : List ℕ := List.replicate maxCstrLen 97 ++ [44]

def tokenMem : Mem where
  bytes a := if a = 0x1000 then 98 else if a = 0x1001 then 44
    else if 0x10000 ≤ a ∧ a < 0x20000 then 97 else if a = 0x20000 then 44 else 0
  nullSegmentSize := 0x1000
  allocator := ⟨ChunkMap.empty, SizeBucketedChunkMap.empty⟩
  zeroMemoryOnFree := true
  nullWriteSink := fun _ => 0

def tokenStart : TokenState := ⟨tokenMem, none⟩

def letterAndComma : Unit → Source := fun _ => ⟨.strtok, 0x1000, [98, 44]⟩

lemma letterAndComma_separate : Separate letterAndComma where
  cells _ _ := Set.disjoint_left.mpr fun _ h => absurd h (Set.notMem_empty _)
  buffers j k h := absurd (Subsingleton.elim j k) h
  saveCells j k h := absurd (Subsingleton.elim j k) h
  strtok _ _ _ _ := Subsingleton.elim _ _

lemma holds_letterAndComma : HoldsUnits false tokenMem (0x1000 : UInt32).toNat [98, 44] :=
  ⟨by decide, by decide, by decide, by decide, by decide, by decide⟩

lemma holds_comma : HoldsUnits false tokenMem (0x20000 : UInt32).toNat [44] :=
  ⟨by decide, by decide, by decide, by decide, by decide, by decide⟩

lemma manySeparators_getElem {i : ℕ} (h : i < manySeparators.length) :
    manySeparators[i] = if i < maxCstrLen then 97 else 44 := by
  have hlength : (List.replicate maxCstrLen 97).length = maxCstrLen := length_replicate
  simp only [manySeparators, getElem_append, hlength]
  split
  · exact getElem_replicate _
  · exact getElem_singleton _

lemma holds_manySeparators : HoldsUnits false tokenMem (0x10000 : UInt32).toNat manySeparators := by
  have hmax : maxCstrLen = 65536 := rfl
  have hlength : manySeparators.length = maxCstrLen + 1 := by
    rw [manySeparators, length_append, length_replicate, length_singleton]
  have hstart : (0x10000 : UInt32).toNat = 0x10000 := rfl
  have hnull : tokenMem.nullSegmentSize ≤ 0x10000 := by decide
  have hunit : ∀ i ≤ maxCstrLen + 1,
      unitAt false tokenMem ((0x10000 : UInt32).toNat + unitSize false * i) =
        (tokenMem.bytes (0x10000 + i)).toNat := by
    intro i hi
    rw [unitAt, if_neg (by decide), unitSize, if_neg (by decide), one_mul, hstart,
      read_guest (hnull.trans (Nat.le_add_right _ _)) (by omega)]
  have hbytes : ∀ i ≤ maxCstrLen + 1, tokenMem.bytes (0x10000 + i) =
      if i < maxCstrLen then 97 else if i = maxCstrLen then 44 else 0 := by
    intro i hi
    rw [tokenMem]
    dsimp only
    rw [if_neg (by omega), if_neg (by omega)]
    split_ifs <;> first | rfl | omega
  refine ⟨by decide, by decide, ?_, fun i hi => ?_, ?_, ?_⟩
  · rw [hlength]
    decide
  · rw [hunit i (by omega), hbytes i (by omega), manySeparators_getElem]
    split_ifs <;> first | rfl | omega
  · rw [hlength, hunit _ le_rfl, hbytes _ le_rfl, if_neg (by omega), if_neg (by omega)]
    rfl
  · rw [manySeparators, mem_append, mem_replicate]
    simp

lemma holds_streams (k : Unit) : HoldsUnits (letterAndComma k).api.wide tokenStart.mem
    (letterAndComma k).base.toNat (letterAndComma k).text := holds_letterAndComma

lemma one_call {sep : UInt32} {separators : List ℕ}
    (h : HoldsUnits false tokenMem sep.toNat separators) :
    Calls letterAndComma tokenStart
      [⟨(), separators, tokenStart, (Tokeniser.strtok.call tokenStart 0x1000 sep).2,
        (Tokeniser.strtok.call tokenStart 0x1000 sep).1⟩]
      (Tokeniser.strtok.call tokenStart 0x1000 sep).2 :=
  Calls.call () sep separators Calls.start h

theorem tokens_exact_letter : ∃ calls w, Calls letterAndComma tokenStart calls w ∧
    tokensOf letterAndComma () calls = [some [98]] := by
  refine ⟨_, _, one_call holds_comma, ?_⟩
  rw [(tokens_exact letterAndComma_separate (fun _ => trivial)
    holds_streams
    (one_call holds_comma)).1 ()]
  decide

theorem not_tokens_exact : ¬ ∀ (calls : List (Call Unit)) (w : TokenState),
    Calls letterAndComma tokenStart calls w → tokensOf letterAndComma () calls =
      tokens ((callsOf () calls).map fun c x => decide (x ∈ c.separators))
        (some (letterAndComma ()).text) := by
  intro h
  have hall := h _ _ (one_call holds_manySeparators)
  rw [((one_call holds_manySeparators).between letterAndComma_separate (fun _ => trivial)
    holds_streams).given ()] at hall
  have hnarrow : ∀ c, isSeparator false manySeparators c = decide (c = 97) := by
    intro c
    have htake : separatorsOf false manySeparators = List.replicate maxCstrLen 97 := by
      rw [separatorsOf, if_neg (by decide), manySeparators]
      exact List.take_left' (List.length_replicate ..)
    rw [isSeparator, htake, Bool.eq_iff_iff, decide_eq_true_iff, decide_eq_true_iff, List.mem_replicate]
    exact and_iff_right (by decide)
  have hwide : ∀ c, decide (c ∈ manySeparators) = decide (c = 97 ∨ c = 44) := by
    intro c
    rw [Bool.eq_iff_iff, decide_eq_true_iff, decide_eq_true_iff, manySeparators, List.mem_append,
      List.mem_replicate, List.mem_singleton]
    simp [maxCstrLen]
  have hsets : setsOf letterAndComma () [(⟨(), manySeparators, tokenStart,
      (Tokeniser.strtok.call tokenStart 0x1000 0x10000).2,
      (Tokeniser.strtok.call tokenStart 0x1000 0x10000).1⟩ : Call Unit)] =
      [fun c => decide (c = 97)] := congrArg (fun f => [f]) (funext hnarrow)
  rw [hsets] at hall
  change tokens [fun c => decide (c = 97)] (some [98, 44]) =
    tokens [fun c => decide (c ∈ manySeparators)] (some [98, 44]) at hall
  rw [funext hwide] at hall
  exact absurd hall (by decide)

end TouchHle.Stdlib
