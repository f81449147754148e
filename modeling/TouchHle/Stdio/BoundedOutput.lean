import TouchHle.Stdlib.BoundedStrings

namespace TouchHle.Stdio

open Lib Memory Stdlib List Option Nat

structure Formatted where
  formatter : Formatter
  mem : Mem
  format : List UInt8
  args : Args

def Formatted.res (x : Formatted) : List UInt8 :=
  (printfInner x.formatter x.mem x.format x.args).res

/-- The characters from a destination on, and how many bytes of them are in the guest's memory (from a
destination in the null page, none). -/
structure Buffer where
  reach : ℕ
  dest : Dest ℕ

def Buffer.writeAll (b : Buffer) (l : List ℕ) : Buffer := { b with dest := b.dest.writeAll 0 l }

def toI32 (n : ℕ) : Checked ℤ := if n < 2 ^ 31 then .ok n else .error .overflow

def units (res : List UInt8) : List ℕ := res.map UInt8.toNat

def vsnprintf (x : Formatted) (n : ℕ) (b : Buffer) : Checked (ℤ × Buffer) :=
  if n = 0 then do return (← toI32 x.res.length, b)
  else
    let middle := if n - 1 < x.res.length then x.res.take (n - 1) else x.res
    if b.reach < middle.length + 1 then do return (← toI32 x.res.length, b)
    else do return (← toI32 x.res.length, b.writeAll (units middle ++ [0]))

def snprintf (x : Formatted) (n : ℕ) (b : Buffer) : Checked (ℤ × Buffer) := vsnprintf x n b

def vsnprintfChk (x : Formatted) (maxlen _os : ℕ) (b : Buffer) : Checked (ℤ × Buffer) :=
  vsnprintf x maxlen b

def snprintfChk (x : Formatted) (maxlen strlen : ℕ) (b : Buffer) : Checked (ℤ × Buffer) :=
  vsnprintf x (if strlen ≠ 0 ∧ strlen < maxlen then strlen else maxlen) b

def vsprintfChk (x : Formatted) (maxlen _os : ℕ) (b : Buffer) : Checked (ℤ × Buffer) :=
  vsnprintf x maxlen b

def vsprintf (x : Formatted) (b : Buffer) : Checked (ℤ × Buffer) := do
  return (← toI32 x.res.length, b.writeAll (units x.res ++ [0]))

def sprintfChk (x : Formatted) (strlen : ℕ) (b : Buffer) : Checked (ℤ × Buffer) :=
  if strlen = 0 then return (0, b) else vsnprintf x strlen b

def vswprintf (x : Formatted) (n : ℕ) (b : Buffer) : Checked (ℤ × Buffer) :=
  let toWrite := min n x.res.length
  let written := b.writeAll (units (x.res.take toWrite))
  if n ≤ toWrite then return (-1, written)
  else return (toWrite, { written with dest := written.dest.write toWrite 0 })

def swprintf (x : Formatted) (n : ℕ) (b : Buffer) : Checked (ℤ × Buffer) := vswprintf x n b

def wideUnits (res : List UInt8) : List ℕ :=
  match fromUtf8 res with
  | some text => text.map Char.toNat
  | none => units res

inductive BoundedCall
  | snprintf (n : ℕ)
  | vsnprintf (n : ℕ)
  | vsnprintfChk (maxlen os : ℕ)
  | snprintfChk (maxlen strlen : ℕ)
  | vsprintfChk (maxlen os : ℕ)
  | sprintfChk (strlen : ℕ)
  | swprintf (n : ℕ)
  | vswprintf (n : ℕ)

namespace BoundedCall

def exec (x : Formatted) : BoundedCall → Buffer → Checked (ℤ × Buffer)
  | snprintf n => Stdio.snprintf x n
  | vsnprintf n => Stdio.vsnprintf x n
  | vsnprintfChk maxlen os => Stdio.vsnprintfChk x maxlen os
  | snprintfChk maxlen strlen => Stdio.snprintfChk x maxlen strlen
  | vsprintfChk maxlen os => Stdio.vsprintfChk x maxlen os
  | sprintfChk strlen => Stdio.sprintfChk x strlen
  | swprintf n => Stdio.swprintf x n
  | vswprintf n => Stdio.vswprintf x n

def size : BoundedCall → ℕ
  | snprintf n | vsnprintf n | swprintf n | vswprintf n => n
  | vsnprintfChk maxlen os | vsprintfChk maxlen os => min maxlen os
  | snprintfChk maxlen strlen => min maxlen strlen
  | sprintfChk strlen => strlen

def wide : BoundedCall → Bool
  | swprintf _ | vswprintf _ => true
  | _ => false

def full (x : Formatted) (call : BoundedCall) : List ℕ :=
  if call.wide then wideUnits x.res else units x.res

def length (x : Formatted) (call : BoundedCall) : ℤ :=
  if call.wide ∧ call.size ≤ (call.full x).length then -1 else (call.full x).length

end BoundedCall

def fitting (full : List ℕ) (n : ℕ) : List ℕ := if n = 0 then [] else full.take (n - 1) ++ [0]

def KeepsSize (x : Formatted) (call : BoundedCall) (b : Buffer) : Prop :=
  call.exec x b = .ok (call.length x, b.writeAll (fitting (call.full x) call.size))

def InMemory (x : Formatted) (n : ℕ) (b : Buffer) : Prop :=
  n = 0 ∨ min (n - 1) x.res.length + 1 ≤ b.reach

def SameSize (x : Formatted) (n size : ℕ) : Prop :=
  n = size ∨ x.res.length < n ∧ x.res.length < size

def NarrowFits (x : Formatted) (n size : ℕ) (b : Buffer) : Prop :=
  InMemory x n b ∧ SameSize x n size ∨ ¬ InMemory x n b ∧ size = 0

def PlainText (res : List UInt8) (n : ℕ) : Prop :=
  ∀ text, fromUtf8 res = some text → ∀ c ∈ text.take n, c.toNat < 0x80

def WideFits (x : Formatted) (n : ℕ) : Prop :=
  n = 0 ∨ PlainText x.res n ∧ (x.res.length < n ∨ x.res[n - 1]? = some 0)

def Short (x : Formatted) : Prop := x.res.length < 2 ^ 31

def BoundedCall.Fits (x : Formatted) (call : BoundedCall) (b : Buffer) : Prop :=
  match call with
  | snprintf n | vsnprintf n => Short x ∧ InMemory x n b
  | vsnprintfChk maxlen os | vsprintfChk maxlen os =>
    Short x ∧ NarrowFits x maxlen (min maxlen os) b
  | snprintfChk maxlen strlen =>
    Short x ∧ if strlen = 0 then NarrowFits x maxlen 0 b else InMemory x (min maxlen strlen) b
  | sprintfChk strlen => if strlen = 0 then x.res = [] else Short x ∧ InMemory x strlen b
  | swprintf n | vswprintf n => WideFits x n

section

variable {res : List UInt8} {text : List Char} {c : Char} {n m : ℕ}

lemma length_units : (units res).length = res.length := length_map _

lemma units_take : units (res.take n) = (units res).take n := map_take

lemma units_utf8 (h : ∀ c ∈ text, c.toNat < 0x80) : units (utf8 text) = text.map Char.toNat := by
  induction text with
  | nil => rfl
  | cons c text ih =>
    obtain ⟨hc, htext⟩ := forall_mem_cons.mp h
    rw [utf8_ascii hc, map_cons, ← ih htext, ← toNat_ascii hc]
    rfl

lemma one_lt_length_encode (h : 0x80 ≤ c.toNat) : 1 < (String.utf8EncodeChar c).length := by
  rw [String.length_utf8EncodeChar]
  have hpos := c.utf8Size_pos
  have hne : c.utf8Size ≠ 1 := by
    rw [Ne, Char.utf8Size_eq_one_iff, UInt32.le_iff_toNat_le]
    exact not_le.mpr (lt_of_lt_of_le (by decide) h)
  omega

lemma ascii_of_length (h : (utf8 text).length = text.length) : ∀ c ∈ text, c.toNat < 0x80 := by
  induction text with
  | nil => simp
  | cons c text ih =>
    have hle : text.length ≤ (utf8 text).length := length_le_utf8
    rw [utf8_cons, length_append, length_cons] at h
    have hc : c.toNat < 0x80 := by
      by_contra hhigh
      have hlong := one_lt_length_encode (not_lt.mp hhigh)
      omega
    rw [encode_ascii hc, length_singleton] at h
    exact forall_mem_cons.mpr ⟨hc, ih (by omega)⟩

lemma high_bytes (hle : n ≤ text.length) (h : ∀ c ∈ text.take n, 0x80 ≤ c.toNat) :
    ∀ i, i < 2 * n → ∃ b, (utf8 text)[i]? = some b ∧ 0x80 ≤ b.toNat := by
  induction n generalizing text with
  | zero => intro i hi; omega
  | succ n ih =>
    cases text with
    | nil => exact absurd hle (not_succ_le_zero n)
    | cons c text =>
      rw [take_succ_cons, forall_mem_cons] at h
      have hlong := one_lt_length_encode h.1
      intro i hi
      rw [utf8_cons, getElem?_append]
      split
      · rename_i hlt
        refine ⟨_, getElem?_eq_getElem hlt, ?_⟩
        exact not_lt.mp (utf8EncodeChar_high h.1 _ (getElem_mem hlt))
      · exact ih (le_of_succ_le_succ hle) h.2 _ (by omega)

lemma ascii_take (hle : m ≤ text.length) (h : ∀ c ∈ text.take m, c.toNat < 0x80) :
    (units (utf8 text)).take m = (text.map Char.toNat).take m ∧
      (utf8 text)[m]? = (utf8 (text.drop m))[0]? := by
  have hunits := units_utf8 h
  have hlength : (utf8 (text.take m)).length = m := by
    rw [← length_units, hunits, length_map, length_take]
    omega
  have hsplit : utf8 text = utf8 (text.take m) ++ utf8 (text.drop m) := by
    rw [utf8, utf8, utf8, ← flatMap_append, take_append_drop]
  constructor
  · rw [hsplit, ← units_take, take_append_of_le_length hlength.ge,
      take_of_length_le hlength.le, hunits, map_take]
  · rw [hsplit, getElem?_append_right hlength.le, hlength, Nat.sub_self]

lemma ascii_of_prefix
    (htake : (units (utf8 text)).take m = (text.map Char.toNat).take m)
    (hzero : (utf8 text)[m]? = some 0) : ∀ c ∈ text.take m, c.toNat < 0x80 := by
  induction m generalizing text with
  | zero => simp
  | succ m ih =>
    cases text with
    | nil => simp
    | cons c text =>
      by_cases hc : c.toNat < 0x80
      · rw [utf8_ascii hc] at htake hzero
        rw [take_succ_cons, forall_mem_cons]
        exact ⟨hc, ih (List.cons.inj htake).2 hzero⟩
      · -- characters and bytes that are not ASCII go on up to the null
        have hall : ∀ k, k ≤ m → k < (c :: text).length ∧
            ∀ x ∈ (c :: text).take (k + 1), 0x80 ≤ x.toNat := by
          intro k
          induction k with
          | zero =>
            intro _
            refine ⟨succ_pos _, fun x hx => ?_⟩
            rw [take_succ_cons, take_zero, mem_singleton] at hx
            exact hx ▸ not_lt.mp hc
          | succ k ihk =>
            intro hk
            obtain ⟨hlt, hhigh⟩ := ihk (by omega)
            obtain ⟨b, hb, hbyte⟩ := high_bytes hlt hhigh (k + 1) (by omega)
            have hsame := congrArg (·[k + 1]?) htake
            simp only [getElem?_take_of_lt (lt_succ_of_le hk)] at hsame
            rw [units, getElem?_map, hb, getElem?_map] at hsame
            obtain ⟨x, hx, hcode⟩ := map_eq_some_iff.mp hsame.symm
            obtain ⟨hlt', hget⟩ := List.getElem?_eq_some_iff.mp hx
            refine ⟨hlt', fun y hy => ?_⟩
            rw [take_succ_eq_append_getElem hlt', mem_append, mem_singleton] at hy
            rcases hy with hy | rfl
            · exact hhigh y hy
            · rw [hget, hcode]
              exact hbyte
        obtain ⟨hlt, hhigh⟩ := hall m le_rfl
        obtain ⟨b, hb, hbyte⟩ := high_bytes hlt hhigh (m + 1) (by omega)
        obtain rfl := some.inj (hb.symm.trans hzero)
        exact absurd hbyte (by decide)

lemma units_cut (hlt : m < res.length) {l : List ℕ} (hl : l.length = m) :
    units (res.take (m + 1)) = l ++ [0] ↔ (units res).take m = l ∧ res[m]? = some 0 := by
  have hcut : units (res.take (m + 1)) = (units res).take m ++ [res[m].toNat] := by
    rw [take_succ_eq_append_getElem hlt, units, map_append, map_take]
    rfl
  have hlength : ((units res).take m).length = l.length := by
    rw [length_take, length_units, hl]
    omega
  rw [hcut, getElem?_eq_getElem hlt]
  constructor
  · intro h
    obtain ⟨htake, hlast⟩ := append_inj h hlength
    exact ⟨htake, congrArg some (UInt8.toNat_inj.mp (singleton_inj.mp hlast))⟩
  · rintro ⟨htake, hlast⟩
    rw [htake, some.inj hlast]
    rfl

end

section

variable {b : Buffer} {l l' : List ℕ} {x : Formatted} {n size : ℕ}

lemma length_written {τ : Type} {d : Dest τ} {i : ℕ} {l : List τ} :
    (d.writeAll i l).written.length = d.written.length + l.length := by
  induction l generalizing d i with
  | nil => rfl
  | cons c l ih =>
    rw [Dest.writeAll, ih, Dest.write, length_append, length_singleton, length_cons]
    omega

lemma writeAll_inj : b.writeAll l = b.writeAll l' ↔ l = l' := by
  constructor
  · intro h
    have hdest : b.dest.writeAll 0 l = b.dest.writeAll 0 l' := congrArg Buffer.dest h
    have hlength := congrArg (fun d => d.written.length) hdest
    simp only [length_written, add_left_cancel_iff] at hlength
    refine ext_getElem hlength fun j hj hj' => ?_
    have hcell := congrArg (fun d => d.cell (0 + j)) hdest
    simp only [Dest.cell_inside hj, Dest.cell_inside hj'] at hcell
    exact hcell
  · exact fun h => congrArg b.writeAll h

lemma ok_writeAll {r r' : ℤ} : (.ok (r, b.writeAll l) : Checked (ℤ × Buffer))
    = .ok (r', b.writeAll l') ↔ r = r' ∧ l = l' := by
  rw [Except.ok.injEq, Prod.mk.injEq, writeAll_inj]

lemma length_fitting (hn : n ≠ 0) : (fitting l n).length = min (n - 1) l.length + 1 := by
  rw [fitting, if_neg hn, length_append, length_take]
  rfl

lemma fitting_eq_nil : fitting l n = [] ↔ n = 0 := by
  rw [fitting]
  split <;> simp_all

lemma fitting_eq_iff : fitting (units x.res) n = fitting (units x.res) size ↔ SameSize x n size := by
  have hlength : (units x.res).length = x.res.length := length_units
  constructor
  · intro h
    rcases eq_or_ne n 0 with rfl | hn
    · exact .inl (fitting_eq_nil.mp h.symm).symm
    · have hsize : size ≠ 0 := by
        rintro rfl
        exact hn (fitting_eq_nil.mp h)
      have hlengths := congrArg List.length h
      rw [length_fitting hn, length_fitting hsize] at hlengths
      rw [SameSize]
      omega
  · rintro (rfl | ⟨hn, hsize⟩)
    · rfl
    · rw [fitting, fitting, if_neg (by omega), if_neg (by omega), take_of_length_le (by omega),
        take_of_length_le (by omega)]

lemma toI32_of_lt {m : ℕ} (h : m < 2 ^ 31) : toI32 m = .ok m := if_pos h

lemma vsnprintf_eq (hshort : Short x) :
    (InMemory x n b → vsnprintf x n b
      = .ok (x.res.length, b.writeAll (fitting (units x.res) n))) ∧
    (¬ InMemory x n b → vsnprintf x n b = .ok (x.res.length, b.writeAll [])) := by
  rw [vsnprintf, toI32_of_lt hshort, InMemory, fitting]
  rcases eq_or_ne n 0 with rfl | hn
  · exact ⟨fun _ => rfl, fun h => absurd (.inl rfl) h⟩
  · have hmiddle : (if n - 1 < x.res.length then x.res.take (n - 1) else x.res)
        = x.res.take (n - 1) := by
      split
      · rfl
      · exact (take_of_length_le (by omega)).symm
    simp only [if_neg hn, hmiddle, length_take, units_take]
    constructor
    · intro h
      exact if_neg (not_lt.mpr (h.resolve_left hn))
    · intro h
      have hover : b.reach < min (n - 1) x.res.length + 1 := not_le.mp fun hle => h (.inr hle)
      exact if_pos hover

lemma short_of_vsnprintf {r : ℤ} {b' : Buffer} (h : vsnprintf x n b = .ok (r, b')) : Short x := by
  by_contra hlong
  have hfault : toI32 x.res.length = .error .overflow := if_neg hlong
  rw [vsnprintf, hfault] at h
  simp only [error_bind, ite_self] at h
  cases h

lemma narrow_iff : vsnprintf x n b = .ok (x.res.length, b.writeAll (fitting (units x.res) size)) ↔
    Short x ∧ NarrowFits x n size b := by
  constructor
  · intro hcall
    have hshort := short_of_vsnprintf hcall
    obtain ⟨hin, hout⟩ := vsnprintf_eq (b := b) (n := n) hshort
    refine ⟨hshort, ?_⟩
    by_cases h : InMemory x n b
    · rw [hin h, ok_writeAll, fitting_eq_iff] at hcall
      exact .inl ⟨h, hcall.2⟩
    · rw [hout h, ok_writeAll] at hcall
      exact .inr ⟨h, fitting_eq_nil.mp hcall.2.symm⟩
  · rintro ⟨hshort, ⟨h, hsame⟩ | ⟨h, rfl⟩⟩
    · rw [(vsnprintf_eq hshort).1 h, fitting_eq_iff.mpr hsame]
    · exact (vsnprintf_eq hshort).2 h

lemma narrowFits_self : NarrowFits x n n b ↔ InMemory x n b := by
  constructor
  · rintro (⟨h, -⟩ | ⟨-, h⟩)
    · exact h
    · exact .inl h
  · exact fun h => .inl ⟨h, .inl rfl⟩

lemma vsprintf_eq (hshort : Short x) :
    vsprintf x b = .ok (x.res.length, b.writeAll (units x.res ++ [0])) := by
  rw [vsprintf, toI32_of_lt hshort]
  rfl

lemma vswprintf_eq (n : ℕ) : vswprintf x n b =
    if n ≤ x.res.length then .ok (-1, b.writeAll (units (x.res.take n)))
    else .ok (x.res.length, b.writeAll (units x.res ++ [0])) := by
  rw [vswprintf]
  by_cases h : n ≤ x.res.length
  · have hmin : min n x.res.length = n := min_eq_left h
    simp only [hmin, if_pos h, le_refl]
    rfl
  · have hmin : min n x.res.length = x.res.length := min_eq_right (by omega)
    simp only [hmin, if_neg h, take_length]
    refine congrArg (fun d => Except.ok ((x.res.length : ℤ), Buffer.mk b.reach d)) ?_
    rw [Dest.writeAll_append, length_units, zero_add]
    rfl

lemma wideUnits_eq_iff (hlt : x.res.length < n) :
    wideUnits x.res = units x.res ↔ PlainText x.res n := by
  rw [wideUnits, PlainText]
  cases htext : fromUtf8 x.res with
  | none => exact iff_of_true rfl (by simp)
  | some text =>
    have hres := fromUtf8_eq_some.mp htext
    have hle : text.length ≤ x.res.length := hres ▸ length_le_utf8
    simp only [some.injEq, forall_eq', take_of_length_le (hle.trans hlt.le)]
    constructor
    · intro h
      have hlength := congrArg List.length h
      rw [length_map, length_units, hres] at hlength
      exact ascii_of_length hlength.symm
    · intro h
      rw [hres]
      exact (units_utf8 h).symm

lemma wide_cut_iff {m : ℕ} (hlt : m < x.res.length) :
    m + 1 ≤ (wideUnits x.res).length ∧
      units (x.res.take (m + 1)) = (wideUnits x.res).take m ++ [0] ↔
    PlainText x.res (m + 1) ∧ x.res[m]? = some 0 := by
  rw [PlainText, wideUnits]
  cases htext : fromUtf8 x.res with
  | none =>
    have hlength : ((units x.res).take m).length = m := by
      rw [length_take, length_units]
      omega
    simp only [length_units, units_cut hlt hlength]
    simpa using fun _ => succ_le_of_lt hlt
  | some text =>
    have hres := fromUtf8_eq_some.mp htext
    simp only [some.injEq, forall_eq', length_map]
    constructor
    · rintro ⟨hle, hunits⟩
      have hlength : ((text.map Char.toNat).take m).length = m := by
        rw [length_take, length_map]
        omega
      obtain ⟨htake, hzero⟩ := (units_cut hlt hlength).mp hunits
      rw [hres] at htake hzero
      have hprefix := ascii_of_prefix htake hzero
      refine ⟨fun c hc => ?_, hres ▸ hzero⟩
      rw [take_succ_eq_append_getElem hle, mem_append, mem_singleton] at hc
      rcases hc with hc | rfl
      · exact hprefix c hc
      · by_contra hhigh
        have hfirst := (ascii_take (le_of_succ_le hle) hprefix).2
        have hone : 1 ≤ (text.drop m).length := by
          rw [length_drop]
          omega
        have htakeOne : (text.drop m).take 1 = [text[m]] := by
          rw [take_one_drop_eq_of_lt_length hle]
          rfl
        obtain ⟨b, hb, hbyte⟩ := high_bytes hone
          (by rw [htakeOne]; exact forall_mem_singleton.mpr (not_lt.mp hhigh)) 0 (by omega)
        rw [hfirst, hb] at hzero
        obtain rfl := some.inj hzero
        exact absurd hbyte (by decide)
    · rintro ⟨hplain, hzero⟩
      have hle : m + 1 ≤ text.length := by
        by_contra hshort
        rw [take_of_length_le (by omega)] at hplain
        have hlength := congrArg List.length (units_utf8 hplain)
        rw [length_units, ← hres, length_map] at hlength
        omega
      have hlength : ((text.map Char.toNat).take m).length = m := by
        rw [length_take, length_map]
        omega
      refine ⟨hle, (units_cut hlt hlength).mpr ⟨?_, hzero⟩⟩
      rw [hres]
      refine (ascii_take (le_of_succ_le hle) fun c hc => hplain c ?_).1
      exact take_subset_take_left text (le_succ m) hc

lemma wide_iff (n : ℕ) : vswprintf x n b =
    .ok (if n ≤ (wideUnits x.res).length then -1 else (wideUnits x.res).length,
      b.writeAll (fitting (wideUnits x.res) n)) ↔ WideFits x n := by
  rw [vswprintf_eq, WideFits]
  rcases eq_zero_or_eq_succ_pred n with rfl | hn
  · exact iff_of_true rfl (.inl rfl)
  obtain ⟨m, rfl⟩ : ∃ m, n = m + 1 := ⟨_, hn⟩
  have hfitting : fitting (wideUnits x.res) (m + 1) = (wideUnits x.res).take m ++ [0] := rfl
  rw [hfitting, Nat.add_sub_cancel]
  by_cases hlt : m + 1 ≤ x.res.length
  · rw [if_pos hlt, ok_writeAll]
    have hcut := wide_cut_iff (x := x) (m := m) hlt
    constructor
    · rintro ⟨hreturn, hunits⟩
      have hle : m + 1 ≤ (wideUnits x.res).length := by
        by_contra hnot
        rw [if_neg hnot] at hreturn
        omega
      obtain ⟨hplain, hzero⟩ := hcut.mp ⟨hle, hunits⟩
      exact .inr ⟨hplain, .inr hzero⟩
    · rintro (hzero | ⟨hplain, hshort | hzero⟩)
      · cases hzero
      · omega
      · obtain ⟨hle, hunits⟩ := hcut.mpr ⟨hplain, hzero⟩
        exact ⟨(if_pos hle).symm, hunits⟩
  · have hshort : x.res.length < m + 1 := not_le.mp hlt
    have hwide := wideUnits_eq_iff hshort
    have hlength : (units x.res).length = x.res.length := length_units
    have hnone : x.res[m]? = none := getElem?_eq_none (by omega)
    rw [if_neg hlt, ok_writeAll, hnone]
    constructor
    · rintro ⟨hreturn, hunits⟩
      refine .inr ⟨hwide.mp ?_, .inl hshort⟩
      have hnot : ¬ m + 1 ≤ (wideUnits x.res).length := by
        intro hle
        rw [if_pos hle] at hreturn
        omega
      rw [take_of_length_le (by omega)] at hunits
      exact (append_cancel_right hunits).symm
    · rintro (hzero | ⟨hplain, -⟩)
      · cases hzero
      · rw [hwide.mpr hplain, hlength, if_neg hlt, take_of_length_le (by omega)]
        exact ⟨rfl, rfl⟩

lemma keepsSize_vswprintf : KeepsSize x (.vswprintf n) b ↔ WideFits x n := by
  have hreturn : BoundedCall.length x (.vswprintf n)
      = if n ≤ (wideUnits x.res).length then -1 else ((wideUnits x.res).length : ℤ) := by
    simp [BoundedCall.length, BoundedCall.wide, BoundedCall.size, BoundedCall.full]
  have hiff := wide_iff (x := x) (b := b) n
  rw [← hreturn] at hiff
  exact hiff

end

def twoLetters : Formatted where
  formatter := ⟨fun _ _ => [], none⟩
  mem := ⟨fun _ => 0, 0x1000, ⟨.empty, .empty⟩, false, fun _ => 0⟩
  format := [97, 98]
  args := ⟨fun _ => 0, 0⟩

end TouchHle.Stdio
