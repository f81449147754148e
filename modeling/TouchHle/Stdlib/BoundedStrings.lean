import TouchHle.Stdlib.Tokens

namespace TouchHle.Stdlib

open Lib Stdio List Stdlib

structure Dest (τ : Type) where
  cell : ℕ → τ
  written : List ℕ

namespace Dest

variable {τ : Type}

def write (d : Dest τ) (i : ℕ) (c : τ) : Dest τ := ⟨Function.update d.cell i c, d.written ++ [i]⟩

def writeAll (d : Dest τ) : ℕ → List τ → Dest τ
  | _, [] => d
  | i, c :: l => writeAll (d.write i c) (i + 1) l

variable {d : Dest τ} {i j : ℕ} {l : List τ}

lemma mem_written : j ∈ (d.writeAll i l).written ↔ j ∈ d.written ∨ i ≤ j ∧ j < i + l.length := by
  induction l generalizing d i with
  | nil => simp [writeAll]
  | cons c l ih =>
    rw [writeAll, ih, write, mem_append, mem_singleton, length_cons, or_assoc]
    exact or_congr_right (by omega)

lemma writeAll_append (l' : List τ) :
    d.writeAll i (l ++ l') = (d.writeAll i l).writeAll (i + l.length) l' := by
  induction l generalizing d i with
  | nil => rfl
  | cons c l ih =>
    rw [cons_append, writeAll, ih, length_cons, add_right_comm]
    rfl

lemma cell_outside (h : j < i ∨ i + l.length ≤ j) : (d.writeAll i l).cell j = d.cell j := by
  induction l generalizing d i with
  | nil => rfl
  | cons c l ih =>
    rw [length_cons] at h
    have hne : j ≠ i := by omega
    have hrest : j < i + 1 ∨ i + 1 + l.length ≤ j := by omega
    rw [writeAll, ih hrest, write]
    exact Function.update_of_ne hne c d.cell

lemma cell_inside (h : j < l.length) : (d.writeAll i l).cell (i + j) = l[j] := by
  induction l generalizing d i j with
  | nil => exact absurd h (Nat.not_lt_zero j)
  | cons c l ih =>
    rw [writeAll]
    cases j with
    | zero =>
      rw [add_zero, cell_outside (by omega), write]
      exact Function.update_self i c d.cell
    | succ j =>
      have hstep : i + (j + 1) = i + 1 + j := by omega
      rw [hstep, ih (Nat.lt_of_succ_lt_succ h)]
      rfl

def map {σ : Type} (φ : τ → σ) (d : Dest τ) : Dest σ := ⟨φ ∘ d.cell, d.written⟩

lemma map_write {σ : Type} (φ : τ → σ) (d : Dest τ) (i : ℕ) (c : τ) :
    (d.map φ).write i (φ c) = (d.write i c).map φ := by
  refine congrArg (Dest.mk · (d.written ++ [i])) ?_
  exact (Function.comp_update φ d.cell i c).symm

lemma map_writeAll {σ : Type} (φ : τ → σ) :
    (d.map φ).writeAll i (l.map φ) = (d.writeAll i l).map φ := by
  induction l generalizing d i with
  | nil => rfl
  | cons c l ih => rw [map_cons, writeAll, map_write, ih, writeAll]

end Dest

section

variable {τ : Type} [Zero τ] [DecidableEq τ]

def charLen (s : ℕ → τ) : ℕ := countUntil (fun i => s i = 0) (2 ^ 32) 0

def strcpyLoop (src : ℕ → τ) : ℕ → ℕ → ℕ → Dest τ → Dest τ
  | 0, _, p, d => d.write p 0
  | bufsz + 1, i, p, d =>
    let d := d.write p (src i)
    if src i = 0 then d else strcpyLoop src bufsz (i + 1) (p + 1) d

def strcpyChk (src : ℕ → τ) (d : Dest τ) (size : ℕ) : Dest τ := strcpyLoop src size 0 0 d

def strcatChk (src : ℕ → τ) (d : Dest τ) (size : ℕ) : Dest τ :=
  let destLen := charLen d.cell
  if size < destLen then d else strcpyLoop src (size - destLen) 0 destLen d

def strncpyLoop (src : ℕ → τ) : ℕ → ℕ → Bool → Dest τ → Dest τ
  | 0, _, _, d => d
  | count + 1, i, ended, d =>
    if ended then strncpyLoop src count (i + 1) ended (d.write i 0)
    else strncpyLoop src count (i + 1) (src i = 0) (d.write i (src i))

def strncpyChk (src : ℕ → τ) (d : Dest τ) (size destSize : ℕ) : Dest τ :=
  strncpyLoop src (if destSize < size then destSize else size) 0 false d

def strncatLoop (src : ℕ → τ) : ℕ → ℕ → ℕ → Dest τ → Dest τ
  | 0, _, p, d => d.write p 0
  | n + 1, i, p, d =>
    let d := d.write p (src i)
    if src i = 0 then d else strncatLoop src n (i + 1) (p + 1) d

def strncatChk (src : ℕ → τ) (d : Dest τ) (n _destSize : ℕ) : Dest τ :=
  strncatLoop src n 0 (charLen d.cell) d

def strlcpyLoop (src : ℕ → τ) (last : ℕ) : ℕ → ℕ → Dest τ → ℕ × Dest τ
  | 0, i, d => (i, d)
  | rounds + 1, i, d =>
    let d := if i < last then d.write i (src i) else if i = last then d.write i 0 else d
    if src i = 0 then (i, d) else strlcpyLoop src last rounds (i + 1) d

def strlcpy (src : ℕ → τ) (d : Dest τ) (size : ℕ) : Checked (ℕ × Dest τ) := do
  return strlcpyLoop src (← subU32 size 1) (2 ^ 32) 0 d

def copyLoop (src : ℕ → τ) : ℕ → ℕ → ℕ → Dest τ → Dest τ
  | 0, _, _, d => d
  | count + 1, i, p, d => copyLoop src count (i + 1) (p + 1) (d.write p (src i))

def strlcat (src : ℕ → τ) (d : Dest τ) (size : ℕ) : Checked (ℕ × Dest τ) :=
  let dstLen := charLen d.cell
  let srcLen := charLen src
  if size ≤ dstLen then do return (← addU32 size srcLen, d)
  else do
    let copyLen := min (size - dstLen - 1) srcLen
    let d := (copyLoop src copyLen 0 dstLen d).write (dstLen + copyLen) 0
    return (← addU32 dstLen srcLen, d)

def wcslcat (src : ℕ → τ) (d : Dest τ) (size : ℕ) : Checked (ℕ × Dest τ) :=
  if size = 0 then return (charLen src, d)
  else do
    let dstLen := charLen d.cell
    let srcLen := charLen src
    let total ← addU32 dstLen srcLen
    if size - 1 ≤ dstLen then return (total, d)
    else do
      let copyLen := min (size - dstLen - 1) srcLen
      return (total, (copyLoop src copyLen 0 dstLen d).write (dstLen + copyLen) 0)

end

variable {τ : Type} [Zero τ]

def IsString (f : ℕ → τ) : ℕ → List τ → Prop
  | i, [] => f i = 0
  | i, c :: l => f i = c ∧ c ≠ 0 ∧ IsString f (i + 1) l

variable {f src : ℕ → τ} {i j p : ℕ} {l : List τ} {d : Dest τ}

lemma IsString.getElem (h : IsString f i l) (hj : j < l.length) : f (i + j) = l[j] ∧ l[j] ≠ 0 := by
  induction l generalizing i j with
  | nil => exact absurd hj (Nat.not_lt_zero j)
  | cons c l ih =>
    cases j with
    | zero => exact ⟨h.1, h.2.1⟩
    | succ j =>
      have hstep : i + (j + 1) = i + 1 + j := by omega
      rw [hstep]
      exact ih h.2.2 (Nat.lt_of_succ_lt_succ hj)

lemma IsString.stop (h : IsString f i l) : f (i + l.length) = 0 := by
  induction l generalizing i with
  | nil => exact h
  | cons c l ih =>
    have hstep : i + (c :: l).length = i + 1 + l.length := by
      rw [length_cons]
      omega
    rw [hstep]
    exact ih h.2.2

lemma isString_of (hget : ∀ j (hj : j < l.length), f (i + j) = l[j]) (hne : ∀ c ∈ l, c ≠ 0)
    (hstop : f (i + l.length) = 0) : IsString f i l := by
  induction l generalizing i with
  | nil => exact hstop
  | cons c l ih =>
    refine ⟨hget 0 (Nat.succ_pos _), hne c mem_cons_self, ih (fun j hj => ?_)
      (fun c hc => hne c (mem_cons_of_mem _ hc)) ?_⟩
    · have hstep : i + 1 + j = i + (j + 1) := by omega
      rw [hstep]
      exact hget (j + 1) (Nat.succ_lt_succ hj)
    · have hstep : i + 1 + l.length = i + (c :: l).length := by
        rw [length_cons]
        omega
      rw [hstep]
      exact hstop

lemma IsString.ne_zero (h : IsString f i l) : ∀ c ∈ l, c ≠ 0 := by
  induction l generalizing i with
  | nil => simp
  | cons c l ih =>
    intro x hx
    rcases mem_cons.mp hx with rfl | hx
    · exact h.2.1
    · exact ih h.2.2 x hx

lemma copyLoop_eq (h : IsString src i l) {n : ℕ} (hn : n ≤ l.length) :
    copyLoop src n i p d = d.writeAll p (l.take n) := by
  induction n generalizing i p l d with
  | zero => rfl
  | succ n ih =>
    cases l with
    | nil => exact absurd hn (Nat.not_succ_le_zero n)
    | cons c l =>
      rw [copyLoop, h.1, ih h.2.2 (Nat.le_of_succ_le_succ hn)]
      rfl

variable [DecidableEq τ]

lemma charLen_eq (h : IsString f 0 l) (hlt : l.length < 2 ^ 32) : charLen f = l.length := by
  have hstop := h.stop
  rw [zero_add] at hstop
  refine countUntil_stop hlt.le (fun j hj => ?_) (decide_eq_true hstop)
  have hget := h.getElem hj
  rw [zero_add] at hget
  rw [hget.1]
  exact decide_eq_false hget.2

lemma strcpyLoop_eq (h : IsString src i l) (b : ℕ) :
    strcpyLoop src b i p d = d.writeAll p (l.take b ++ [0]) := by
  induction b generalizing i p l d with
  | zero => rfl
  | succ b ih =>
    rw [strcpyLoop]
    cases l with
    | nil =>
      have hzero : src i = 0 := h
      rw [if_pos hzero, hzero, take_nil]
      rfl
    | cons c l =>
      obtain ⟨hc, hne, hrest⟩ := h
      rw [hc, if_neg hne, ih hrest]
      rfl

lemma strncatLoop_eq (h : IsString src i l) (n : ℕ) :
    strncatLoop src n i p d = d.writeAll p (l.take n ++ [0]) := by
  induction n generalizing i p l d with
  | zero => rfl
  | succ n ih =>
    rw [strncatLoop]
    cases l with
    | nil =>
      have hzero : src i = 0 := h
      rw [if_pos hzero, hzero, take_nil]
      rfl
    | cons c l =>
      obtain ⟨hc, hne, hrest⟩ := h
      rw [hc, if_neg hne, ih hrest]
      rfl

lemma strncpyLoop_ended (src : ℕ → τ) (n : ℕ) :
    strncpyLoop src n i true d = d.writeAll i (List.replicate n 0) := by
  induction n generalizing i d with
  | zero => rfl
  | succ n ih =>
    rw [strncpyLoop, if_pos rfl, ih]
    rfl

lemma strncpyLoop_eq (h : IsString src i l) (n : ℕ) : strncpyLoop src n i false d =
    d.writeAll i (l.take n ++ List.replicate (n - l.length) 0) := by
  induction n generalizing i l d with
  | zero => simp [strncpyLoop, Dest.writeAll]
  | succ n ih =>
    rw [strncpyLoop, if_neg (by decide)]
    cases l with
    | nil =>
      have hzero : src i = 0 := h
      rw [hzero, decide_eq_true rfl, strncpyLoop_ended]
      rfl
    | cons c l =>
      obtain ⟨hc, hne, hrest⟩ := h
      rw [hc, decide_eq_false hne, ih hrest, length_cons, Nat.add_sub_add_right]
      rfl

lemma strlcpyLoop_eq (h : IsString src i l) {last rounds : ℕ}
    (hrounds : l.length < rounds) : strlcpyLoop src last rounds i d = (i + l.length,
      if i ≤ last then d.writeAll i (l.take (last - i) ++ [0]) else d) := by
  induction l generalizing i d rounds with
  | nil =>
    obtain ⟨rounds, rfl⟩ := Nat.exists_eq_add_one.mpr (Nat.zero_lt_of_lt hrounds)
    have hzero : src i = 0 := h
    rw [strlcpyLoop]
    rw [if_pos hzero, hzero]
    rcases Nat.lt_trichotomy i last with hlt | rfl | hlt
    · rw [if_pos hlt, if_pos hlt.le, take_nil]
      rfl
    · rw [if_neg (lt_irrefl i), if_pos rfl, if_pos le_rfl, take_nil]
      rfl
    · rw [if_neg (by omega), if_neg (by omega), if_neg (by omega)]
      rfl
  | cons c l ih =>
    obtain ⟨rounds, rfl⟩ := Nat.exists_eq_add_one.mpr (Nat.zero_lt_of_lt hrounds)
    obtain ⟨hc, hne, hrest⟩ := h
    have hlength : i + 1 + l.length = i + (c :: l).length := by
      rw [length_cons]
      omega
    rw [length_cons] at hrounds
    rw [strlcpyLoop]
    rw [hc, if_neg hne]
    rcases Nat.lt_trichotomy i last with hlt | rfl | hlt
    · have hsub : last - i = last - (i + 1) + 1 := by omega
      rw [if_pos hlt, ih hrest (by omega), hlength, if_pos (by omega), if_pos hlt.le, hsub]
      rfl
    · rw [if_neg (lt_irrefl i), if_pos rfl, ih hrest (by omega), hlength,
        if_neg (by omega), if_pos le_rfl, Nat.sub_self]
      rfl
    · rw [if_neg (by omega), if_neg (by omega), ih hrest (by omega), hlength, if_neg (by omega),
        if_neg (by omega)]

inductive Operation
  | strcpyChk (size : ℕ)
  | strcatChk (size : ℕ)
  | strncpyChk (size destSize : ℕ)
  | strncatChk (n destSize : ℕ)
  | strlcpy (size : ℕ)
  | strlcat (size : ℕ)
  | wcslcat (size : ℕ)

namespace Operation

def bound : Operation → ℕ
  | strcpyChk size | strcatChk size | strlcpy size | strlcat size | wcslcat size => size
  | strncpyChk _ destSize | strncatChk _ destSize => destSize

def wide : Operation → Operation
  | strlcat size => wcslcat size
  | op => op

def exec (op : Operation) (src : ℕ → τ) (d : Dest τ) : Checked (ℕ × Dest τ) :=
  match op with
  | strcpyChk size => return (0, Stdlib.strcpyChk src d size)
  | strcatChk size => return (0, Stdlib.strcatChk src d size)
  | strncpyChk size destSize => return (0, Stdlib.strncpyChk src d size destSize)
  | strncatChk n destSize => return (0, Stdlib.strncatChk src d n destSize)
  | strlcpy size => Stdlib.strlcpy src d size
  | strlcat size => Stdlib.strlcat src d size
  | wcslcat size => Stdlib.wcslcat src d size

def promised (op : Operation) (dest src : List τ) : Option (List τ) :=
  match op with
  | strcpyChk size => if src.length < size then some src else none
  | strcatChk size => if dest.length + src.length < size then some (dest ++ src) else none
  | strncpyChk size destSize => if src.length < size ∧ size ≤ destSize then some src else none
  | strncatChk n destSize =>
    if dest.length + (src.take n).length < destSize then some (dest ++ src.take n) else none
  | strlcpy size => if 0 < size then some (src.take (size - 1)) else none
  | strlcat size | wcslcat size =>
    if dest.length < size then some (dest ++ src.take (size - dest.length - 1)) else none

def tried (op : Operation) (dest src : List τ) : ℕ :=
  match op with
  | strlcpy _ => src.length
  | strlcat size | wcslcat size => min dest.length size + src.length
  | _ => 0

def Fits (op : Operation) (dest src : List τ) : Prop :=
  match op with
  | strcpyChk size => src.length < size
  | strcatChk size => size < dest.length ∨ dest.length + src.length < size
  | strncpyChk _ _ => True
  | strncatChk n destSize => dest.length + (src.take n).length < destSize
  | strlcpy size => size ≠ 0
  | strlcat size | wcslcat size => size = 0 ∨ dest.length ≤ size

end Operation

structure StringPair (src : ℕ → τ) (d : Dest τ) (destText srcText : List τ) : Prop where
  src : IsString src 0 srcText
  dest : IsString d.cell 0 destText
  written : d.written = []
  room : destText.length + srcText.length + 2 ≤ 2 ^ 32

def KeepsBound (op : Operation) (src : ℕ → τ) (d : Dest τ) (destText srcText : List τ) : Prop :=
  ∃ r d', op.exec src d = .ok (r, d') ∧ (∀ i ∈ d'.written, i < op.bound) ∧
    (∀ l, op.promised destText srcText = some l → IsString d'.cell 0 l) ∧ r = op.tried destText srcText

def WideAgrees {σ : Type} [Zero σ] [DecidableEq σ] (φ : τ → σ) (op : Operation) (src : ℕ → τ)
    (d : Dest τ) : Prop :=
  (op.wide.exec (φ ∘ src) (d.map φ)).map (fun r => (r.1, r.2.cell))
    = (op.exec src d).map (fun r => (r.1, φ ∘ r.2.cell))

variable {destText srcText : List τ}

lemma keepsBound_iff_of_ok {op : Operation} {r : ℕ} {d' : Dest τ} (hexec : op.exec src d = .ok (r, d')) :
    KeepsBound op src d destText srcText ↔ (∀ i ∈ d'.written, i < op.bound) ∧
      (∀ l, op.promised destText srcText = some l → IsString d'.cell 0 l) ∧
      r = op.tried destText srcText := by
  constructor
  · rintro ⟨r', d'', hok, hkept⟩
    obtain ⟨rfl, rfl⟩ := ok_pair_inj (hexec.symm.trans hok)
    exact hkept
  · exact fun hkept => ⟨r, d', hexec, hkept⟩

namespace StringPair

variable (h : StringPair src d destText srcText)

include h

lemma charLen_dest : charLen d.cell = destText.length := by
  have hroom := h.room
  exact charLen_eq h.dest (by omega)

lemma charLen_src : charLen src = srcText.length := by
  have hroom := h.room
  exact charLen_eq h.src (by omega)

omit [DecidableEq τ] in
lemma mem_written_iff (p : ℕ) (l : List τ) :
    (∀ i ∈ (d.writeAll p (l ++ [0])).written, i < j) ↔ p + l.length < j := by
  constructor
  · intro hall
    refine hall _ (Dest.mem_written.mpr (.inr ⟨Nat.le_add_right _ _, ?_⟩))
    rw [length_append, length_singleton]
    omega
  · intro hlt i hi
    rcases Dest.mem_written.mp hi with hi | ⟨-, hi⟩
    · rw [h.written] at hi
      exact absurd hi not_mem_nil
    · rw [length_append, length_singleton] at hi
      omega

omit [DecidableEq τ] in
lemma isString_start (l rest : List τ) (hl : l <+: srcText) :
    IsString (d.writeAll 0 (l ++ 0 :: rest)).cell 0 l := by
  refine isString_of (fun j hj => ?_) (fun c hc => h.src.ne_zero c (hl.subset hc)) ?_
  · rw [Dest.cell_inside (by rw [length_append]; omega), getElem_append_left hj]
  · rw [Dest.cell_inside (by rw [length_append]; simp), getElem_append_right le_rfl]
    simp

omit [DecidableEq τ] in
lemma isString_end (l : List τ) (hl : l <+: srcText) :
    IsString (d.writeAll destText.length (l ++ [0])).cell 0 (destText ++ l) := by
  refine isString_of (fun j hj => ?_) (fun c hc => ?_) ?_
  · rw [zero_add]
    by_cases hlt : j < destText.length
    · have hget := (h.dest.getElem hlt).1
      rw [zero_add] at hget
      rw [Dest.cell_outside (.inl hlt), hget, getElem_append_left hlt]
    · obtain ⟨k, rfl⟩ := Nat.exists_eq_add_of_le (not_lt.mp hlt)
      rw [length_append] at hj
      rw [Dest.cell_inside (by rw [length_append]; omega), getElem_append_left (by omega),
        getElem_append_right (Nat.le_add_right _ _)]
      simp only [Nat.add_sub_cancel_left]
  · rcases mem_append.mp hc with hc | hc
    · exact h.dest.ne_zero c hc
    · exact h.src.ne_zero c (hl.subset hc)
  · rw [zero_add, length_append,
      Dest.cell_inside (by rw [length_append]; simp), getElem_append_right le_rfl]
    simp

omit [DecidableEq τ] in
lemma written_untouched : ∀ i ∈ d.written, i < j := by
  intro i hi
  rw [h.written] at hi
  exact absurd hi not_mem_nil

lemma exec_strcpyChk (size : ℕ) : (Operation.strcpyChk size).exec src d
    = .ok (0, d.writeAll 0 (srcText.take size ++ [0])) :=
  congrArg (fun d' => Except.ok (0, d')) (strcpyLoop_eq h.src size)

lemma keepsBound_strcpyChk (size : ℕ) :
    KeepsBound (.strcpyChk size) src d destText srcText ↔ srcText.length < size := by
  rw [keepsBound_iff_of_ok (h.exec_strcpyChk size), h.mem_written_iff, zero_add, length_take]
  constructor
  · rintro ⟨hlt, -⟩
    exact (min_lt_iff.mp hlt).resolve_left (lt_irrefl size)
  · intro hlt
    refine ⟨min_lt_of_right_lt hlt, fun l hl => ?_, rfl⟩
    obtain rfl : srcText = l := Option.some.inj ((if_pos hlt).symm.trans hl)
    rw [take_of_length_le hlt.le]
    exact h.isString_start _ [] prefix_rfl

lemma exec_strcatChk_over {size : ℕ} (hover : size < destText.length) :
    (Operation.strcatChk size).exec src d = .ok (0, d) := by
  refine congrArg (fun d' => Except.ok (0, d')) ?_
  rw [strcatChk, h.charLen_dest]
  exact if_pos hover

lemma exec_strcatChk_room {size : ℕ} (hroom : destText.length ≤ size) :
    (Operation.strcatChk size).exec src d = .ok (0,
      d.writeAll destText.length (srcText.take (size - destText.length) ++ [0])) := by
  refine congrArg (fun d' => Except.ok (0, d')) ?_
  rw [strcatChk, h.charLen_dest]
  exact (if_neg hroom.not_gt).trans (strcpyLoop_eq h.src _)

lemma keepsBound_strcatChk (size : ℕ) :
    KeepsBound (.strcatChk size) src d destText srcText ↔
      size < destText.length ∨ destText.length + srcText.length < size := by
  rcases lt_or_ge size destText.length with hover | hfits
  · have hpromised : (Operation.strcatChk size).promised destText srcText = none :=
      if_neg (by omega)
    rw [keepsBound_iff_of_ok (h.exec_strcatChk_over hover), hpromised]
    exact iff_of_true ⟨h.written_untouched, fun l hl => absurd hl (by simp), rfl⟩ (.inl hover)
  · rw [keepsBound_iff_of_ok (h.exec_strcatChk_room hfits), h.mem_written_iff, length_take]
    constructor
    · rintro ⟨hlt, -⟩
      change _ < size at hlt
      omega
    · intro hlt
      have hroom : destText.length + srcText.length < size := by omega
      refine ⟨?_, fun l hl => ?_, rfl⟩
      · change _ < size
        omega
      · obtain rfl : destText ++ srcText = l := Option.some.inj ((if_pos hroom).symm.trans hl)
        rw [take_of_length_le (by omega)]
        exact h.isString_end _ prefix_rfl

lemma exec_strncpyChk {size destSize count : ℕ}
    (hcount : count = if destSize < size then destSize else size) :
    (Operation.strncpyChk size destSize).exec src d = .ok (0,
      d.writeAll 0 (srcText.take count ++ List.replicate (count - srcText.length) 0)) := by
  refine congrArg (fun d' => Except.ok (0, d')) ?_
  rw [strncpyChk, ← hcount]
  exact strncpyLoop_eq h.src count

lemma keepsBound_strncpyChk (size destSize : ℕ) :
    KeepsBound (.strncpyChk size destSize) src d destText srcText := by
  obtain ⟨count, hcount⟩ : ∃ count, count = if destSize < size then destSize else size := ⟨_, rfl⟩
  rw [keepsBound_iff_of_ok (h.exec_strncpyChk hcount)]
  refine ⟨fun i hi => ?_, fun l hl => ?_, rfl⟩
  · change i < destSize
    rcases Dest.mem_written.mp hi with hi | ⟨-, hi⟩
    · exact h.written_untouched i hi
    · rw [length_append, length_take, length_replicate] at hi
      split at hcount <;> omega
  · by_cases hroom : srcText.length < size ∧ size ≤ destSize
    · obtain rfl : srcText = l := Option.some.inj ((if_pos hroom).symm.trans hl)
      rw [if_neg (by omega)] at hcount
      subst hcount
      obtain ⟨k, hk⟩ : ∃ k, count - srcText.length = k + 1 :=
        Nat.exists_eq_add_one.mpr (by omega)
      rw [take_of_length_le hroom.1.le, hk, replicate_succ]
      exact h.isString_start _ _ prefix_rfl
    · exact absurd (((if_neg hroom).symm.trans hl : none = some l)) (by simp)

lemma exec_strncatChk (n destSize : ℕ) : (Operation.strncatChk n destSize).exec src d
    = .ok (0, d.writeAll destText.length (srcText.take n ++ [0])) := by
  refine congrArg (fun d' => Except.ok (0, d')) ?_
  rw [strncatChk, h.charLen_dest]
  exact strncatLoop_eq h.src n

lemma keepsBound_strncatChk (n destSize : ℕ) :
    KeepsBound (.strncatChk n destSize) src d destText srcText ↔
      destText.length + (srcText.take n).length < destSize := by
  rw [keepsBound_iff_of_ok (h.exec_strncatChk n destSize), h.mem_written_iff]
  constructor
  · rintro ⟨hlt, -⟩
    exact hlt
  · intro hlt
    refine ⟨hlt, fun l hl => ?_, rfl⟩
    obtain rfl : destText ++ srcText.take n = l := Option.some.inj ((if_pos hlt).symm.trans hl)
    exact h.isString_end _ ( take_prefix n srcText)

omit h in
lemma exec_strlcpy_zero : (Operation.strlcpy 0).exec src d = .error .overflow := rfl

lemma exec_strlcpy {size : ℕ} (hpos : 0 < size) : (Operation.strlcpy size).exec src d
    = .ok (srcText.length, d.writeAll 0 (srcText.take (size - 1) ++ [0])) := by
  have hroom := h.room
  change strlcpy src d size = _
  rw [strlcpy, subU32_of_le hpos, ok_bind, strlcpyLoop_eq h.src (by omega),
    if_pos (Nat.zero_le _), Nat.zero_add, Nat.sub_zero]
  rfl

lemma keepsBound_strlcpy (size : ℕ) :
    KeepsBound (.strlcpy size) src d destText srcText ↔ size ≠ 0 := by
  rcases Nat.eq_zero_or_pos size with rfl | hpos
  · refine iff_of_false ?_ (fun hne => hne rfl)
    rintro ⟨r, d', hexec, -⟩
    exact absurd (exec_strlcpy_zero.symm.trans hexec) (by simp)
  · rw [keepsBound_iff_of_ok (h.exec_strlcpy hpos), h.mem_written_iff, length_take]
    refine iff_of_true ⟨?_, fun l hl => ?_, rfl⟩ hpos.ne'
    · change _ < size
      omega
    · obtain rfl : srcText.take (size - 1) = l := Option.some.inj ((if_pos hpos).symm.trans hl)
      exact h.isString_start _ [] ( take_prefix _ srcText)

omit [DecidableEq τ] in
lemma copied_eq (n : ℕ) : (copyLoop src (min n srcText.length) 0 destText.length d).write
      (destText.length + min n srcText.length) 0
    = d.writeAll destText.length (srcText.take n ++ [0]) := by
  have htake : srcText.take (min n srcText.length) = srcText.take n := by
    rw [← take_eq_take_min]
  rw [copyLoop_eq h.src (min_le_right _ _), Dest.writeAll_append, length_take, htake]
  rfl

lemma exec_strlcat_full {size : ℕ} (hfull : size ≤ destText.length) :
    (Operation.strlcat size).exec src d = .ok (size + srcText.length, d) := by
  have hroom := h.room
  have hlt : size + srcText.length < u32Bound := by
    change _ < 2 ^ 32
    omega
  change strlcat src d size = _
  rw [strlcat, h.charLen_dest, h.charLen_src]
  refine (if_pos hfull).trans ?_
  rw [addU32_of_lt hlt]
  rfl

lemma exec_strlcat_room {size : ℕ} (hfull : destText.length < size) :
    (Operation.strlcat size).exec src d = .ok (destText.length + srcText.length,
      d.writeAll destText.length (srcText.take (size - destText.length - 1) ++ [0])) := by
  have hroom := h.room
  have hlt : destText.length + srcText.length < u32Bound := by
    change _ < 2 ^ 32
    omega
  change strlcat src d size = _
  rw [strlcat, h.charLen_dest, h.charLen_src]
  refine (if_neg hfull.not_ge).trans ?_
  rw [addU32_of_lt hlt, ok_bind, h.copied_eq]
  rfl

lemma keepsBound_strlcat (size : ℕ) : KeepsBound (.strlcat size) src d destText srcText := by
  rcases lt_or_ge destText.length size with hlt | hfull
  · rw [keepsBound_iff_of_ok (h.exec_strlcat_room hlt), h.mem_written_iff, length_take]
    refine ⟨?_, fun l hl => ?_, ?_⟩
    · change _ < size
      omega
    · obtain rfl : destText ++ srcText.take (size - destText.length - 1) = l :=
        Option.some.inj ((if_pos hlt).symm.trans hl)
      exact h.isString_end _ ( take_prefix _ srcText)
    · exact congrArg (· + srcText.length) (min_eq_left hlt.le).symm
  · have hpromised : (Operation.strlcat size).promised destText srcText = none :=
      if_neg hfull.not_gt
    rw [keepsBound_iff_of_ok (h.exec_strlcat_full hfull), hpromised]
    exact ⟨h.written_untouched, fun l hl => absurd hl (by simp),
      congrArg (· + srcText.length) (min_eq_right hfull).symm⟩

lemma exec_wcslcat_zero :
    (Operation.wcslcat 0).exec src d = .ok (srcText.length, d) := by
  change wcslcat src d 0 = _
  rw [wcslcat, h.charLen_src]
  rfl

lemma exec_wcslcat_full {size : ℕ} (hpos : size ≠ 0) (hfull : size - 1 ≤ destText.length) :
    (Operation.wcslcat size).exec src d = .ok (destText.length + srcText.length, d) := by
  have hroom := h.room
  have hlt : destText.length + srcText.length < u32Bound := by
    change _ < 2 ^ 32
    omega
  change wcslcat src d size = _
  rw [wcslcat, h.charLen_dest, h.charLen_src]
  refine (if_neg hpos).trans ?_
  simp only [addU32_of_lt hlt, ok_bind]
  exact if_pos hfull

lemma exec_wcslcat_room {size : ℕ} (hfull : destText.length < size - 1) :
    (Operation.wcslcat size).exec src d = .ok (destText.length + srcText.length,
      d.writeAll destText.length (srcText.take (size - destText.length - 1) ++ [0])) := by
  have hroom := h.room
  have hpos : size ≠ 0 := by omega
  have hlt : destText.length + srcText.length < u32Bound := by
    change _ < 2 ^ 32
    omega
  change wcslcat src d size = _
  rw [wcslcat, h.charLen_dest, h.charLen_src]
  refine (if_neg hpos).trans ?_
  simp only [addU32_of_lt hlt, ok_bind]
  refine (if_neg hfull.not_ge).trans ?_
  rw [h.copied_eq]
  rfl

lemma keepsBound_wcslcat (size : ℕ) : KeepsBound (.wcslcat size) src d destText srcText ↔
    size = 0 ∨ destText.length ≤ size := by
  rcases eq_or_ne size 0 with rfl | hpos
  · have hpromised : (Operation.wcslcat 0).promised destText srcText = none := by
      simp [Operation.promised]
    rw [keepsBound_iff_of_ok h.exec_wcslcat_zero, hpromised]
    refine iff_of_true ⟨h.written_untouched, fun l hl => absurd hl (by simp), ?_⟩ (.inl rfl)
    · change srcText.length = min destText.length 0 + srcText.length
      omega
  · rcases lt_or_ge destText.length (size - 1) with hlt | hfull
    · rw [keepsBound_iff_of_ok (h.exec_wcslcat_room hlt), h.mem_written_iff, length_take]
      refine iff_of_true ⟨?_, fun l hl => ?_, ?_⟩ (.inr (by omega))
      · change _ < size
        omega
      · have hroom : destText.length < size := by omega
        obtain rfl : destText ++ srcText.take (size - destText.length - 1) = l :=
          Option.some.inj ((if_pos hroom).symm.trans hl)
        exact h.isString_end _ ( take_prefix _ srcText)
      · change destText.length + srcText.length = min destText.length size + srcText.length
        omega
    · rw [keepsBound_iff_of_ok (h.exec_wcslcat_full hpos hfull)]
      constructor
      · rintro ⟨-, -, htried⟩
        change destText.length + srcText.length = min destText.length size + srcText.length at htried
        omega
      · intro hle
        refine ⟨h.written_untouched, fun l hl => ?_, ?_⟩
        · by_cases hroom : destText.length < size
          · obtain rfl : destText ++ srcText.take (size - destText.length - 1) = l :=
              Option.some.inj ((if_pos hroom).symm.trans hl)
            have hnothing : size - destText.length - 1 = 0 := by omega
            rw [hnothing, take_zero, append_nil]
            exact h.dest
          · exact absurd ((if_neg hroom).symm.trans hl : none = some l) (by simp)
        · change destText.length + srcText.length = min destText.length size + srcText.length
          omega

variable {σ : Type} [Zero σ] {φ : τ → σ} (hφ : ∀ c, φ c = 0 ↔ c = 0)

include hφ

omit h [DecidableEq τ] in
lemma isString_map (hs : IsString f i l) : IsString (φ ∘ f) i (l.map φ) := by
  induction l generalizing i with
  | nil => exact (hφ (f i)).mpr hs
  | cons c l ih =>
    obtain ⟨hc, hne, hrest⟩ := hs
    exact ⟨congrArg φ hc, fun hzero => hne ((hφ c).mp hzero), ih hrest⟩

omit [DecidableEq τ] in
lemma map : StringPair (φ ∘ src) (d.map φ) (destText.map φ) (srcText.map φ) where
  src := isString_map hφ h.src
  dest := isString_map hφ h.dest
  written := h.written
  room := by
    rw [length_map, length_map]
    exact h.room

omit h [DecidableEq τ] in
lemma map_text (n : ℕ) : ((l.take n ++ [0]).map φ) = (l.map φ).take n ++ [0] := by
  rw [map_append, map_take, map_singleton, (hφ 0).mpr rfl]

variable [DecidableEq σ]

omit h hφ in
lemma wideAgrees_of_ok {op : Operation} {r p : ℕ} {l : List τ}
    (hexec : op.exec src d = .ok (r, d.writeAll p l))
    (hwide : op.wide.exec (φ ∘ src) (d.map φ) = .ok (r, (d.map φ).writeAll p (l.map φ))) :
    WideAgrees φ op src d := by
  rw [WideAgrees, hexec, hwide, Dest.map_writeAll]
  rfl

lemma wideAgrees_strlcpy (size : ℕ) : WideAgrees φ (.strlcpy size) src d := by
  have hlength : (srcText.map φ).length = srcText.length := length_map φ
  rcases Nat.eq_zero_or_pos size with rfl | hpos
  · have hwide : (Operation.strlcpy 0).exec (φ ∘ src) (d.map φ) = .error .overflow := exec_strlcpy_zero
    rw [WideAgrees, exec_strlcpy_zero]
    exact congrArg (Except.map _) hwide
  · refine wideAgrees_of_ok (h.exec_strlcpy hpos) ?_
    rw [map_text hφ, ← hlength]
    exact (h.map hφ).exec_strlcpy hpos

lemma wideAgrees_strcatChk (size : ℕ) : WideAgrees φ (.strcatChk size) src d := by
  have hlength : (destText.map φ).length = destText.length := length_map φ
  rcases lt_or_ge size destText.length with hover | hroom
  · have hwide : size < (destText.map φ).length := by omega
    exact wideAgrees_of_ok (l := []) (p := 0) (h.exec_strcatChk_over hover)
      ((h.map hφ).exec_strcatChk_over hwide)
  · have hwide : (destText.map φ).length ≤ size := by omega
    refine wideAgrees_of_ok (h.exec_strcatChk_room hroom) ?_
    rw [map_text hφ, ← hlength]
    exact (h.map hφ).exec_strcatChk_room hwide

lemma wideAgrees_strncpyChk (size destSize : ℕ) : WideAgrees φ (.strncpyChk size destSize) src d := by
  obtain ⟨count, hcount⟩ : ∃ count, count = if destSize < size then destSize else size := ⟨_, rfl⟩
  refine wideAgrees_of_ok (h.exec_strncpyChk hcount) ?_
  have hlength : (srcText.map φ).length = srcText.length := length_map φ
  rw [map_append, map_take, map_replicate, (hφ 0).mpr rfl, ← hlength]
  exact (h.map hφ).exec_strncpyChk hcount

lemma wideAgrees_wcslcat (size : ℕ) : WideAgrees φ (.wcslcat size) src d := by
  have hlength : (destText.map φ).length = destText.length := length_map φ
  have hsource : (srcText.map φ).length = srcText.length := length_map φ
  rcases eq_or_ne size 0 with rfl | hpos
  · refine wideAgrees_of_ok (l := []) (p := 0) h.exec_wcslcat_zero ?_
    rw [← hsource]
    exact (h.map hφ).exec_wcslcat_zero
  · rcases lt_or_ge destText.length (size - 1) with hlt | hfull
    · have hwide : (destText.map φ).length < size - 1 := by omega
      refine wideAgrees_of_ok (h.exec_wcslcat_room hlt) ?_
      rw [map_text hφ, ← hlength, ← hsource]
      exact (h.map hφ).exec_wcslcat_room hwide
    · have hwide : size - 1 ≤ (destText.map φ).length := by omega
      refine wideAgrees_of_ok (l := []) (p := 0) (h.exec_wcslcat_full hpos hfull) ?_
      rw [← hlength, ← hsource]
      exact (h.map hφ).exec_wcslcat_full hpos hwide

lemma wideAgrees_strlcat_iff (size : ℕ) :
    WideAgrees φ (.strlcat size) src d ↔ size = 0 ∨ destText.length ≤ size := by
  have hlength : (destText.map φ).length = destText.length := length_map φ
  have hsource : (srcText.map φ).length = srcText.length := length_map φ
  rcases eq_or_ne size 0 with rfl | hpos
  · have hwide := (h.map hφ).exec_wcslcat_zero
    have hnarrow := h.exec_strlcat_full (Nat.zero_le destText.length)
    rw [hsource] at hwide
    rw [zero_add] at hnarrow
    exact iff_of_true (wideAgrees_of_ok (l := []) (p := 0) hnarrow hwide) (.inl rfl)
  · rcases lt_or_ge destText.length (size - 1) with hlt | hfull
    · have hlt' : (destText.map φ).length < size - 1 := by omega
      refine iff_of_true (wideAgrees_of_ok (h.exec_strlcat_room (by omega)) ?_) (.inr (by omega))
      rw [map_text hφ, ← hlength, ← hsource]
      exact (h.map hφ).exec_wcslcat_room hlt'
    · have hwide := (h.map hφ).exec_wcslcat_full hpos (hfull.trans_eq hlength.symm)
      rw [hlength, hsource] at hwide
      rcases lt_or_ge destText.length size with hlt | hover
      · have hnothing : size - destText.length - 1 = 0 := by omega
        have hnarrow := h.exec_strlcat_room hlt
        rw [hnothing, take_zero, nil_append] at hnarrow
        have hstop := h.dest.stop
        rw [zero_add] at hstop
        have hsame : (d.writeAll destText.length [0]).cell = d.cell := by
          change Function.update d.cell destText.length 0 = d.cell
          rw [← hstop]
          exact Function.update_eq_self _ _
        refine iff_of_true ?_ (Or.inr hlt.le)
        rw [WideAgrees, hnarrow]
        refine (congrArg (Except.map _) hwide).trans ?_
        exact congrArg (fun f => Except.ok (destText.length + srcText.length, φ ∘ f)) hsame.symm
      · have hnarrow := h.exec_strlcat_full hover
        rw [WideAgrees, hnarrow]
        constructor
        · intro hagrees
          have hresult := (congrArg (Except.map _) hwide).symm.trans hagrees
          have hreturn := congrArg Prod.fst (Except.ok.inj hresult)
          change destText.length + srcText.length = size + srcText.length at hreturn
          omega
        · rintro (hzero | hle)
          · exact absurd hzero hpos
          · obtain rfl : destText.length = size := le_antisymm hle hover
            exact congrArg (Except.map _) hwide

end StringPair

/-- An operation keeps to its bound, leaves and returns what it should, and does the same for narrow and
wide characters, just where it `Fits`. -/
theorem bounded_operations_iff {σ : Type} [Zero σ] [DecidableEq σ] {φ : τ → σ}
    (hφ : ∀ c, φ c = 0 ↔ c = 0) (h : StringPair src d destText srcText) (op : Operation) :
    KeepsBound op src d destText srcText ∧ WideAgrees φ op src d ↔ op.Fits destText srcText := by
  cases op with
  | strcpyChk size =>
    have hagrees : WideAgrees φ (.strcpyChk size) src d := by
      refine StringPair.wideAgrees_of_ok (h.exec_strcpyChk size) ?_
      rw [StringPair.map_text hφ]
      exact (h.map hφ).exec_strcpyChk size
    exact (and_iff_left hagrees).trans (h.keepsBound_strcpyChk size)
  | strcatChk size =>
    exact (and_iff_left (h.wideAgrees_strcatChk hφ size)).trans (h.keepsBound_strcatChk size)
  | strncpyChk size destSize =>
    exact iff_of_true ⟨h.keepsBound_strncpyChk size destSize,
      h.wideAgrees_strncpyChk hφ size destSize⟩ trivial
  | strncatChk n destSize =>
    have hlength : (destText.map φ).length = destText.length := List.length_map φ
    have hagrees : WideAgrees φ (.strncatChk n destSize) src d := by
      refine StringPair.wideAgrees_of_ok (h.exec_strncatChk n destSize) ?_
      rw [StringPair.map_text hφ, ← hlength]
      exact (h.map hφ).exec_strncatChk n destSize
    exact (and_iff_left hagrees).trans (h.keepsBound_strncatChk n destSize)
  | strlcpy size =>
    exact (and_iff_left (h.wideAgrees_strlcpy hφ size)).trans (h.keepsBound_strlcpy size)
  | strlcat size =>
    rw [h.wideAgrees_strlcat_iff hφ]
    exact and_iff_right (h.keepsBound_strlcat size)
  | wcslcat size =>
    exact (and_iff_left (h.wideAgrees_wcslcat hφ size)).trans (h.keepsBound_wcslcat size)

def charsOf (l : List ℕ) (i : ℕ) : ℕ := l.getD i 0

lemma strings_example : StringPair (charsOf [97, 98]) ⟨charsOf [99], []⟩ [99] [97, 98] :=
  ⟨⟨rfl, by decide, rfl, by decide, rfl⟩, ⟨rfl, by decide, rfl⟩, rfl, by decide⟩

theorem bounded_operations_example :
    KeepsBound (.strlcpy 2) (charsOf [97, 98]) ⟨charsOf [99], []⟩ [99] [97, 98] ∧
      WideAgrees Int.ofNat (.strlcpy 2) (charsOf [97, 98]) ⟨charsOf [99], []⟩ :=
  (bounded_operations_iff (fun _ => Int.ofNat_eq_zero) strings_example (.strlcpy 2)).mpr
    (show (2 : ℕ) ≠ 0 by decide)

theorem bound_is_not_kept : ¬ ∀ (op : Operation) (src : ℕ → ℕ) (d : Dest ℕ)
    (destText srcText : List ℕ), StringPair src d destText srcText → KeepsBound op src d destText srcText := by
  intro hall
  have hkeeps := hall (.strcpyChk 0) _ _ _ _ strings_example
  exact Nat.not_lt_zero _ ((strings_example.keepsBound_strcpyChk 0).mp hkeeps)

end TouchHle.Stdlib
