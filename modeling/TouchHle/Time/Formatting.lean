import TouchHle.Lib.Unicode
import TouchHle.Memory.HostAccess
import TouchHle.Time.Calendar

/-! `strftime`: the loop over a format, and the bound on what is written. -/

namespace TouchHle.Calendar

open Lib Memory List Except

def asciiText (s : String) : List UInt8 := s.toList.map ascii

/-- A decimal of at least a width, filled up with zeros after the sign. -/
def padded (width : ℕ) (n : ℤ) : List UInt8 :=
  let sign := if n < 0 then [ascii '-'] else []
  let digits := (Nat.toDigits 10 n.natAbs).map ascii
  sign ++ List.replicate (width - (sign ++ digits).length) (ascii '0') ++ digits

def clampTo (n low high : ℤ) : ℤ := max low (min n high)

def monthAbbrs : List String :=
  ["Jan", "Feb", "Mar", "Apr", "May", "Jun", "Jul", "Aug", "Sep", "Oct", "Nov", "Dec"]

def wdayAbbrs : List String := ["Sun", "Mon", "Tue", "Wed", "Thu", "Fri", "Sat"]

def abbr (table : List String) (i : ℤ) : Checked (List UInt8) :=
  match table[i.toNat]? with
  | some s => .ok (asciiText s)
  | none => .error .index

section

variable (cstrAtUtf8 : UInt32 → Option (List UInt8)) (tm : Tm)

def convert (specifier : UInt8) : Checked (List UInt8) :=
  if specifier = ascii 'm' then do
    let month ← i32 (tm.tmMon.toInt + 1)
    return padded 2 (clampTo month 1 12)
  else if specifier = ascii 'W' then do
    let wdayFromMonday ← i32 (tm.tmWday.toInt + 6)
    let days ← i32 (tm.tmYday.toInt - wdayFromMonday.tmod 7)
    let days ← i32 (days + 7)
    return padded 2 (days.tdiv 7)
  else if specifier = ascii 'U' then do
    let days ← i32 (tm.tmYday.toInt - tm.tmWday.toInt)
    let days ← i32 (days + 7)
    return padded 2 (days.tdiv 7)
  else if specifier = ascii 'w' then return padded 0 tm.tmWday.toInt
  else if specifier = ascii 'z' then do
    let gmtoff := tm.tmGmtoff.toInt
    let abs ← if gmtoff < 0 then i32 (-gmtoff) else pure gmtoff
    let sign := if gmtoff < 0 then ascii '-' else ascii '+'
    return sign :: (padded 2 (abs.tdiv 3600) ++ padded 2 ((abs.tmod 3600).tdiv 60))
  else if specifier = ascii 'd' then return padded 2 (clampTo tm.tmMday.toInt 1 31)
  else if specifier = ascii 'H' then return padded 2 (clampTo tm.tmHour.toInt 0 23)
  else if specifier = ascii 'M' then return padded 2 (clampTo tm.tmMin.toInt 0 59)
  else if specifier = ascii 'b' ∨ specifier = ascii 'h' then
    abbr monthAbbrs (clampTo tm.tmMon.toInt 0 11)
  else if specifier = ascii 'a' then abbr wdayAbbrs (clampTo tm.tmWday.toInt 0 6)
  else if specifier = ascii 'Y' then do
    let year ← i32 (tm.tmYear.toInt + 1900)
    return padded 4 year
  else if specifier = ascii 'y' then do
    let year ← i32 (tm.tmYear.toInt + 1900)
    return padded 2 (year.tmod 100)
  else if specifier = ascii 'Z' then
    if tm.tmZone = 0 then return asciiText "GMT"
    else
      match cstrAtUtf8 tm.tmZone with
      | some zone => return zone
      | none => return asciiText "GMT"
  else if specifier = ascii 'S' then return padded 2 (clampTo tm.tmSec.toInt 0 60)
  else return [ascii '%', specifier]

/-- The loop over the format, which is all of the memory from its address on; past its end the bytes
read are 0. Gives the text and how many bytes have been read. -/
def formatLoop : List UInt8 → Checked (List UInt8 × ℕ)
  | [] => .ok ([], 1)
  | [c] =>
    if c = 0 then .ok ([], 1)
    else if c ≠ ascii '%' then .ok ([c], 2)
    else convert cstrAtUtf8 tm 0 >>= fun text => .ok (text, 3)
  | c :: d :: l =>
    if c = 0 then .ok ([], 1)
    else if c ≠ ascii '%' then formatLoop (d :: l) >>= fun r => .ok (c :: r.1, r.2 + 1)
    else convert cstrAtUtf8 tm d >>= fun text =>
      formatLoop l >>= fun r => .ok (text ++ r.1, r.2 + 2)

/-- The memory after a call, how much of the format it read, what it wrote, and its result. -/
structure Outcome where
  mem : Mem
  read : ℕ
  written : List UInt8
  returned : ℕ

def strftime (m : Mem) (s maxSize : GuestUSize) (format : List UInt8) : Checked Outcome := do
  let r ← formatLoop cstrAtUtf8 tm format
  let res := r.1
  if maxSize.val = 0 then return ⟨m, r.2, [], 0⟩
  else
    let middle := if maxSize.val - 1 < res.length then res.take (maxSize.val - 1) else res
    let destSlice := m.bytesAtMut s maxSize
    let written := middle ++ [0]
    if destSlice.len < written.length then .error .index
    else return ⟨m.store destSlice written, r.2, written,
      if res.length < u32Bound then res.length else u32Bound - 1⟩

/-! ### What a call is to do -/

/-- The fields that a directive calculates with stay within their type. -/
def InRange (specifier : UInt8) : Prop :=
  if specifier = ascii 'm' then tm.tmMon.toInt + 1 < 2 ^ 31
  else if specifier = ascii 'W' then tm.tmWday.toInt + 6 < 2 ^ 31 ∧
    -2 ^ 31 ≤ tm.tmYday.toInt - (tm.tmWday.toInt + 6).tmod 7 ∧
    tm.tmYday.toInt - (tm.tmWday.toInt + 6).tmod 7 + 7 < 2 ^ 31
  else if specifier = ascii 'U' then -2 ^ 31 ≤ tm.tmYday.toInt - tm.tmWday.toInt ∧
    tm.tmYday.toInt - tm.tmWday.toInt + 7 < 2 ^ 31
  else if specifier = ascii 'z' then -2 ^ 31 < tm.tmGmtoff.toInt
  else if specifier = ascii 'Y' ∨ specifier = ascii 'y' then tm.tmYear.toInt + 1900 < 2 ^ 31
  else True

/-- The bytes of a format, up to its terminator. -/
def string (format : List UInt8) : List UInt8 := format.takeWhile (· ≠ 0)

/-- Every percent sign has a directive after it, whose fields are in range. -/
def WellFormed : List UInt8 → Prop
  | [] => True
  | [c] => c ≠ ascii '%'
  | c :: d :: l => if c = ascii '%' then InRange tm d ∧ WellFormed l else WellFormed (d :: l)

def conversion (specifier : UInt8) : List UInt8 :=
  match convert cstrAtUtf8 tm specifier with
  | .ok text => text
  | .error _ => []

def expansion : List UInt8 → List UInt8
  | [] => []
  | [c] => [c]
  | c :: d :: l =>
    if c = ascii '%' then conversion cstrAtUtf8 tm d ++ expansion l else c :: expansion (d :: l)

/-- Nothing past the terminator is read and nothing past the size is written, and the text is
reported if it has come through with its terminator. -/
structure Outcome.Obeys (o : Outcome) (m : Mem) (s maxSize : GuestUSize)
    (string text : List UInt8) : Prop where
  read : o.read ≤ string.length + 1
  length : o.written.length ≤ maxSize
  outside : ∀ a, a < s.val ∨ s.val + maxSize ≤ a → o.mem.bytes a = m.bytes a
  fits : text.length < maxSize → o.written = text ++ [0] ∧ o.returned = text.length
  cut : maxSize.val ≤ text.length → o.returned = 0

def ObeysBound (m : Mem) (s maxSize : GuestUSize) (format : List UInt8) : Prop :=
  ∃ o, strftime cstrAtUtf8 tm m s maxSize format = .ok o ∧
    o.Obeys m s maxSize (string format) (expansion cstrAtUtf8 tm (string format))

end

variable {cstrAtUtf8 : UInt32 → Option (List UInt8)} {tm : Tm} {specifier : UInt8}

lemma i32_bind_ok {β : Type} {x : ℤ} {f : ℤ → Checked β} :
    (∃ b, (i32 x >>= f) = .ok b) ↔ (-2 ^ 31 ≤ x ∧ x < 2 ^ 31) ∧ ∃ b, f x = .ok b := by
  rw [i32]
  split
  · rename_i h
    rw [ok_bind]
    exact (and_iff_right h).symm
  · rename_i h
    rw [error_bind]
    exact iff_of_false (fun ⟨_, hb⟩ => by cases hb) (fun hb => h hb.1)

lemma abbr_ok {table : List String} {n high : ℤ} (hhigh : 0 ≤ high)
    (h : high.toNat < table.length) : ∃ text, abbr table (clampTo n 0 high) = .ok text := by
  have hlt : (clampTo n 0 high).toNat < table.length := by
    rw [clampTo]
    omega
  rw [abbr, getElem?_eq_getElem hlt]
  exact ⟨_, rfl⟩

/-- A directive calculates without overflow exactly if its fields are in range. -/
lemma convert_ok_iff :
    (∃ text, convert cstrAtUtf8 tm specifier = .ok text) ↔ InRange tm specifier := by
  have hmon := toInt_bounds tm.tmMon
  have hyear := toInt_bounds tm.tmYear
  have hwday := toInt_bounds tm.tmWday
  have hyday := toInt_bounds tm.tmYday
  have hoff := toInt_bounds tm.tmGmtoff
  rw [convert, InRange]
  by_cases hm : specifier = ascii 'm'
  · rw [if_pos hm, if_pos hm, i32_bind_ok]
    exact ⟨fun h => h.1.2, fun h => ⟨⟨by omega, h⟩, _, rfl⟩⟩
  rw [if_neg hm, if_neg hm]
  by_cases hW : specifier = ascii 'W'
  · rw [if_pos hW, if_pos hW, i32_bind_ok, i32_bind_ok, i32_bind_ok]
    constructor
    · rintro ⟨⟨-, hsum⟩, ⟨hlow, -⟩, ⟨-, hhigh⟩, -⟩
      exact ⟨hsum, hlow, hhigh⟩
    · rintro ⟨hsum, hlow, hhigh⟩
      exact ⟨⟨by omega, hsum⟩, ⟨hlow, by omega⟩, ⟨by omega, hhigh⟩, _, rfl⟩
  rw [if_neg hW, if_neg hW]
  by_cases hU : specifier = ascii 'U'
  · rw [if_pos hU, if_pos hU, i32_bind_ok, i32_bind_ok]
    constructor
    · rintro ⟨⟨hlow, -⟩, ⟨-, hhigh⟩, -⟩
      exact ⟨hlow, hhigh⟩
    · rintro ⟨hlow, hhigh⟩
      exact ⟨⟨hlow, by omega⟩, ⟨by omega, hhigh⟩, _, rfl⟩
  rw [if_neg hU, if_neg hU]
  by_cases hw : specifier = ascii 'w'
  · subst hw
    exact iff_of_true ⟨_, if_pos rfl⟩ trivial
  rw [if_neg hw]
  by_cases hz : specifier = ascii 'z'
  · rw [if_pos hz, if_pos hz]
    dsimp only
    split
    · rw [i32_bind_ok]
      exact ⟨fun h => by omega, fun h => ⟨by omega, _, rfl⟩⟩
    · exact iff_of_true ⟨_, rfl⟩ (by omega)
  rw [if_neg hz, if_neg hz]
  by_cases hY : specifier = ascii 'Y' ∨ specifier = ascii 'y'
  · rw [if_pos hY]
    have hsteps : ∀ f : ℤ → List UInt8, (∃ text,
        (i32 (tm.tmYear.toInt + 1900) >>= fun year =>
          (Except.ok (f year) : Checked (List UInt8))) = .ok text) ↔
          tm.tmYear.toInt + 1900 < 2 ^ 31 := by
      intro f
      rw [i32_bind_ok]
      exact ⟨fun h => h.1.2, fun h => ⟨⟨by omega, h⟩, _, rfl⟩⟩
    rcases hY with rfl | rfl
    · exact hsteps (padded 4)
    · exact hsteps fun year => padded 2 (year.tmod 100)
  rw [if_neg hY]
  obtain ⟨hY, hy⟩ := not_or.mp hY
  refine iff_of_true ?_ trivial
  rw [if_neg hY, if_neg hy]
  repeat' split
  all_goals first | exact ⟨_, rfl⟩ | exact abbr_ok (by decide) (by decide)

lemma convert_of_inRange (h : InRange tm specifier) :
    convert cstrAtUtf8 tm specifier = .ok (conversion cstrAtUtf8 tm specifier) := by
  obtain ⟨text, htext⟩ := convert_ok_iff.mpr h
  rw [conversion, htext]

section

variable {c d : UInt8} {l format : List UInt8} {r : List UInt8 × ℕ}

lemma string_cons_of_ne (hc : c ≠ 0) : string (c :: l) = c :: string l :=
  takeWhile_cons_of_pos (by simpa using hc)

lemma string_cons_zero : string (0 :: l) = [] := takeWhile_cons_of_neg (by decide)

lemma wellFormed_cons (hc : c ≠ ascii '%') : WellFormed tm (c :: l) ↔ WellFormed tm l := by
  cases l with
  | nil => exact iff_of_true hc trivial
  | cons d l => rw [WellFormed, if_neg hc]

lemma expansion_cons (hc : c ≠ ascii '%') :
    expansion cstrAtUtf8 tm (c :: l) = c :: expansion cstrAtUtf8 tm l := by
  cases l with
  | nil => rfl
  | cons d l => rw [expansion, if_neg hc]

lemma not_wellFormed_percent : ¬ WellFormed tm [ascii '%'] := fun h => h rfl

lemma wellFormed_directive :
    WellFormed tm (ascii '%' :: d :: l) ↔ InRange tm d ∧ WellFormed tm l := by
  rw [WellFormed, if_pos rfl]

/-- A format whose directives are complete and in range is read up to its terminator. -/
lemma formatLoop_wellFormed (h : WellFormed tm (string format)) :
    formatLoop cstrAtUtf8 tm format
      = .ok (expansion cstrAtUtf8 tm (string format), (string format).length + 1) := by
  fun_induction formatLoop cstrAtUtf8 tm format with
  | case1 => rfl
  | case2 => rfl
  | case3 c hzero hc =>
    rw [string_cons_of_ne hzero]
    rfl
  | case4 c hzero hc =>
    obtain rfl := not_not.mp hc
    exact absurd h not_wellFormed_percent
  | case5 d l => rfl
  | case6 c d l hzero hc ih =>
    rw [string_cons_of_ne hzero, wellFormed_cons hc] at h
    rw [ih h, ok_bind, string_cons_of_ne hzero, expansion_cons hc]
    rfl
  | case7 c d l hzero hc ih =>
    obtain rfl := not_not.mp hc
    rw [string_cons_of_ne hzero] at h ⊢
    by_cases hd : d = 0
    · subst hd
      rw [string_cons_zero] at h
      exact absurd h not_wellFormed_percent
    · rw [string_cons_of_ne hd, wellFormed_directive] at h
      rw [convert_of_inRange h.1, ok_bind, ih h.2, ok_bind, string_cons_of_ne hd, expansion,
        if_pos rfl]
      rfl

lemma formatLoop_pos (h : formatLoop cstrAtUtf8 tm format = .ok r) : 0 < r.2 := by
  fun_induction formatLoop cstrAtUtf8 tm format with
  | case1 => exact ok.inj h ▸ one_pos
  | case2 => exact ok.inj h ▸ one_pos
  | case3 => exact ok.inj h ▸ Nat.two_pos
  | case4 =>
    obtain ⟨text, -, h⟩ := bind_eq_ok.mp h
    exact ok.inj h ▸ Nat.succ_pos 2
  | case5 => exact ok.inj h ▸ one_pos
  | case6 c d l hzero hc ih =>
    obtain ⟨r', -, h⟩ := bind_eq_ok.mp h
    exact ok.inj h ▸ Nat.succ_pos _
  | case7 c d l hzero hc ih =>
    obtain ⟨text, -, h⟩ := bind_eq_ok.mp h
    obtain ⟨r', -, h⟩ := bind_eq_ok.mp h
    exact ok.inj h ▸ Nat.succ_pos _

/-- Any other format is read past its terminator, if the loop comes to an end at all. -/
lemma formatLoop_illFormed (hill : ¬ WellFormed tm (string format))
    (h : formatLoop cstrAtUtf8 tm format = .ok r) : (string format).length + 1 < r.2 := by
  fun_induction formatLoop cstrAtUtf8 tm format generalizing r with
  | case1 => exact absurd trivial hill
  | case2 => exact absurd trivial hill
  | case3 c hzero hc =>
    rw [string_cons_of_ne hzero] at hill
    exact absurd hc hill
  | case4 c hzero hc =>
    obtain ⟨text, -, h⟩ := bind_eq_ok.mp h
    rw [string_cons_of_ne hzero, ← ok.inj h]
    exact Nat.lt_succ_self 2
  | case5 d l =>
    rw [string_cons_zero] at hill
    exact absurd trivial hill
  | case6 c d l hzero hc ih =>
    obtain ⟨r', hrest, h⟩ := bind_eq_ok.mp h
    rw [string_cons_of_ne hzero, wellFormed_cons hc] at hill
    rw [string_cons_of_ne hzero, ← ok.inj h]
    exact Nat.succ_lt_succ (ih hill hrest)
  | case7 c d l hzero hc ih =>
    obtain ⟨text, htext, h⟩ := bind_eq_ok.mp h
    obtain ⟨r', hrest, h⟩ := bind_eq_ok.mp h
    obtain rfl := not_not.mp hc
    rw [string_cons_of_ne hzero, ← ok.inj h] at *
    by_cases hd : d = 0
    · subst hd
      rw [string_cons_zero]
      have hpos := formatLoop_pos hrest
      simp only [length_singleton]
      omega
    · rw [string_cons_of_ne hd] at hill ⊢
      rw [wellFormed_directive] at hill
      have hrange : InRange tm d := convert_ok_iff.mp ⟨text, htext⟩
      have hlonger := ih (fun hwell => hill ⟨hrange, hwell⟩) hrest
      simp only [length_cons]
      omega

end

variable {m : Mem} {s maxSize : GuestUSize} {format : List UInt8}

lemma store_outside (m : Mem) (s count : ℕ) {data : List UInt8} (hdata : data.length ≤ count)
    {a : ℕ} (ha : a < s ∨ s + count ≤ a) :
    (m.store (m.bytesAtMut s count) data).bytes a = m.bytes a := by
  rw [Mem.bytesAtMut, Mem.view]
  split
  · rfl
  split
  · rfl
  · exact Bytes.store_outside (by dsimp only; omega)

/-- What a call does after a format that has been read as it should be. -/
lemma strftime_of_loop {r : List UInt8 × ℕ} (hloop : formatLoop cstrAtUtf8 tm format = .ok r)
    (hpos : maxSize.val ≠ 0) : strftime cstrAtUtf8 tm m s maxSize format
      = if (m.bytesAtMut s maxSize).len < min (maxSize.val - 1) r.1.length + 1 then .error .index
        else .ok ⟨m.store (m.bytesAtMut s maxSize) (r.1.take (maxSize.val - 1) ++ [0]), r.2,
          r.1.take (maxSize.val - 1) ++ [0],
          if r.1.length < u32Bound then r.1.length else u32Bound - 1⟩ := by
  have hmiddle : (if maxSize.val - 1 < r.1.length then r.1.take (maxSize.val - 1) else r.1)
      = r.1.take (maxSize.val - 1) := by
    split
    · rfl
    · exact (take_of_length_le (by omega)).symm
  rw [strftime, hloop, ok_bind]
  dsimp only
  rw [if_neg hpos, hmiddle, length_append, length_take, length_singleton]
  rfl

/-- A call keeps its bound exactly if every percent sign of the format has a directive after it,
whose fields do not overflow, and the text fits with its terminator, there being as much room in
the memory, or no size is given. -/
theorem obeysBound_iff (cstrAtUtf8 : UInt32 → Option (List UInt8)) (tm : Tm) (m : Mem)
    (s maxSize : GuestUSize) (format : List UInt8) :
    ObeysBound cstrAtUtf8 tm m s maxSize format ↔ WellFormed tm (string format) ∧
      (maxSize.val = 0 ∨ (expansion cstrAtUtf8 tm (string format)).length < maxSize ∧
        (expansion cstrAtUtf8 tm (string format)).length < (m.bytesAtMut s maxSize).len) := by
  constructor
  · rintro ⟨o, ho, hobeys⟩
    obtain ⟨r, hloop, -⟩ := bind_eq_ok.mp ho
    have hwell : WellFormed tm (string format) := by
      by_contra hill
      have hread := formatLoop_illFormed hill hloop
      have hlast := hobeys.read
      rcases eq_or_ne maxSize.val 0 with hzero | hpos
      · rw [strftime, hloop, ok_bind, if_pos hzero] at ho
        obtain rfl := Except.ok.inj ho
        exact absurd hlast (not_le.mpr hread)
      · rw [strftime_of_loop hloop hpos] at ho
        split at ho
        · cases ho
        · obtain rfl := Except.ok.inj ho
          exact absurd hlast (not_le.mpr hread)
    refine ⟨hwell, or_iff_not_imp_left.mpr fun hpos => ?_⟩
    obtain rfl := Except.ok.inj ((formatLoop_wellFormed hwell).symm.trans hloop)
    rw [strftime_of_loop hloop hpos] at ho
    split at ho
    · cases ho
    rename_i hroom
    obtain rfl := Except.ok.inj ho
    have hfits : (expansion cstrAtUtf8 tm (string format)).length < maxSize := by
      by_contra hlong
      have hzero := hobeys.cut (not_lt.mp hlong)
      dsimp only at hzero
      split at hzero
      · omega
      · exact absurd hzero (by decide)
    exact ⟨hfits, by dsimp only at hroom; omega⟩
  · rintro ⟨hwell, hsize⟩
    have hloop : formatLoop cstrAtUtf8 tm format = .ok (expansion cstrAtUtf8 tm (string format),
        (string format).length + 1) := formatLoop_wellFormed hwell
    rcases eq_or_ne maxSize.val 0 with hzero | hpos
    · refine ⟨_, by rw [strftime, hloop, ok_bind, if_pos hzero]; rfl, le_rfl, Nat.zero_le _,
        fun _ _ => rfl, fun h => ?_, fun _ => rfl⟩
      rw [hzero] at h
      exact absurd h (Nat.not_lt_zero _)
    · obtain ⟨hfits, hroom⟩ := hsize.resolve_left hpos
      have hrun : strftime cstrAtUtf8 tm m s maxSize format = _ := strftime_of_loop hloop hpos
      dsimp only at hrun
      rw [if_neg (by omega), List.take_of_length_le (by omega),
        if_pos (hfits.trans maxSize.isLt)] at hrun
      have hlength : (expansion cstrAtUtf8 tm (string format) ++ [0]).length ≤ maxSize.val := by
        rw [List.length_append, List.length_singleton]
        exact hfits
      exact ⟨_, hrun, le_rfl, hlength, fun a ha => store_outside m s maxSize hlength ha,
        fun _ => ⟨rfl, rfl⟩, fun hlong => absurd hfits (not_lt.mpr hlong)⟩

/-- The year is cut off and reported all the same, a percent sign at the end takes the terminator
with it, and the last month overflows. -/
theorem not_obeysBound : ∃ m, Mem.boot true .onePage = .ok m ∧
    ¬ ObeysBound (fun _ => none) ⟨0, 0, 0, 1, 0, 124, 1, 0, 0, 0, 0⟩ m 0x10000 4
      (asciiText "%Y" ++ [0]) ∧
    ¬ ObeysBound (fun _ => none) ⟨0, 0, 0, 1, 0, 124, 1, 0, 0, 0, 0⟩ m 0x10000 0
      (asciiText "%" ++ 0 :: asciiText "A" ++ [0]) ∧
    ¬ ObeysBound (fun _ => none) ⟨0, 0, 0, 1, Int32.maxValue, 124, 1, 0, 0, 0, 0⟩ m 0x10000 16
      (asciiText "%m" ++ [0]) := by
  obtain ⟨m, hboot, -⟩ := Mem.boot_ok true .onePage
  refine ⟨m, hboot, ?_, ?_, ?_⟩
  · rintro ⟨o, ho, hobeys⟩
    have hloop : formatLoop (fun _ => none) ⟨0, 0, 0, 1, 0, 124, 1, 0, 0, 0, 0⟩
        (asciiText "%Y" ++ [0]) = .ok (asciiText "2024", 3) := by decide
    rw [strftime_of_loop hloop (by decide)] at ho
    split at ho
    · cases ho
    · obtain rfl := Except.ok.inj ho
      have hreturned : (4 : ℕ) = 0 := hobeys.cut (by decide)
      exact absurd hreturned (by decide)
  · rintro ⟨o, ho, hobeys⟩
    obtain rfl : (⟨m, 4, [], 0⟩ : Outcome) = o := Except.ok.inj ho
    have hread : 4 ≤ 2 := hobeys.read
    exact absurd hread (by decide)
  · rintro ⟨o, ho, -⟩
    cases ho

end TouchHle.Calendar
