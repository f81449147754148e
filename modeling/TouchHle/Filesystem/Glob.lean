import Mathlib.Tactic
import TouchHle.Lib.Runs
import TouchHle.Lib.Text

namespace TouchHle.Glob

open Lib List Option Nat Function

def globNoMatch : ℤ := -3
def globNoSpace : ℤ := -1

def maxGlobResults : ℕ := 0x100000

namespace Flags

def append (flags : BitVec 32) : Bool := flags.getLsbD 0

def doOffs (flags : BitVec 32) : Bool := flags.getLsbD 1

def noCheck (flags : BitVec 32) : Bool := flags.getLsbD 4

def magChar : BitVec 32 := 0x100

end Flags

structure GlobT where
  pathc : ℕ
  matchc : ℕ
  offs : ℕ
  flags : BitVec 32
  pathv : ℕ
  deriving DecidableEq

/-- A `glob_t` with the memory that was allocated for it: arrays of pointers, and strings. Addresses are given out in
ascending order; those that were given back are listed. -/
structure State where
  glob : GlobT
  arrays : ℕ → Option (List ℕ)
  strings : ℕ → Option Text
  next : ℕ
  freed : List ℕ

structure Call where
  pattern : Text
  flags : BitVec 32
  opendir : Text → Option (List Text)

namespace Call

variable (fnmatch : Text → Text → Bool) (c : Call)

def parts : Text × Text := (Text.rsplitOnce '/' c.pattern).getD ([], c.pattern)

def matched (names : List Text) : List Text :=
  (names.filter fun name => name ≠ ['.'] ∧ name ≠ ['.', '.'] ∧ fnmatch c.parts.2 name = true).map
    fun name => c.parts.1 ++ '/' :: name

def storedFlags : BitVec 32 :=
  if c.parts.2.contains '*' then c.flags ||| Flags.magChar else c.flags &&& ~~~Flags.magChar

end Call

namespace State

variable (s : State)

def allocString (text : Text) : ℕ × State :=
  (s.next, { s with strings := Function.update s.strings s.next (some text), next := s.next + 1 })

def allocStrings (s : State) : List Text → List ℕ × State
  | [] => ([], s)
  | text :: texts =>
    let (entry, s) := s.allocString text
    let (entries, s) := s.allocStrings texts
    (entry :: entries, s)

def allocArray (array : List ℕ) : ℕ × State :=
  (s.next, { s with arrays := Function.update s.arrays s.next (some array), next := s.next + 1 })

def free (ptr : ℕ) : State :=
  if ptr = 0 ∨ (s.arrays ptr = none ∧ s.strings ptr = none) then s
  else
    { s with
      arrays := Function.update s.arrays ptr none
      strings := Function.update s.strings ptr none
      freed := s.freed ++ [ptr] }

def readSlot (array i : ℕ) : Checked ℕ :=
  match (s.arrays array).bind fun slots => slots[i]? with
  | some ptr => return ptr
  | none => .error .index

def writeGlobResults (flags : BitVec 32) (entries : List ℕ) : Checked (ℤ × State) := do
  let offs := if Flags.doOffs flags then s.glob.offs else 0
  let (oldPathv, oldPathc) :=
    if Flags.append flags ∧ s.glob.pathv ≠ 0 ∧ 0 < s.glob.pathc then (s.glob.pathv, s.glob.pathc) else (0, 0)
  let keptCount := if 0 < oldPathc then offs + oldPathc else 0
  if maxGlobResults < keptCount + entries.length then return (globNoSpace, s)
  else
    let kept ← (List.range keptCount).mapM fun i => s.readSlot oldPathv i
    let (list, s) := s.allocArray (kept ++ entries ++ [0])
    let s := s.free oldPathv
    return (0, { s with glob := { s.glob with pathc := oldPathc + entries.length, pathv := list } })

def globNoCheck (flags : BitVec 32) (pattern : Text) : Checked (ℤ × State) := do
  let (buf, s) := s.allocString pattern
  let (res, s) ← s.writeGlobResults flags [buf]
  if res ≠ 0 then return (res, s.free buf)
  else return (0, { s with glob := { s.glob with matchc := 1, flags := flags ||| Flags.magChar } })

def globCall (fnmatch : Text → Text → Bool) (c : Call) : Checked (ℤ × State) :=
  match c.opendir c.parts.1 with
  | none => if Flags.noCheck c.flags then s.globNoCheck c.flags c.pattern else return (globNoMatch, s)
  | some names =>
    if c.matched fnmatch names = [] ∧ Flags.noCheck c.flags then s.globNoCheck c.flags c.pattern
    else do
      let (entries, s) := s.allocStrings (c.matched fnmatch names)
      let s := { s with glob := { s.glob with matchc := entries.length, flags := c.storedFlags } }
      let (res, s) ← s.writeGlobResults c.flags entries
      if res ≠ 0 then return (res, entries.foldl free s)
      else return (if entries = [] then globNoMatch else 0, s)

def globfree : Checked State := do
  let offs := if Flags.doOffs s.glob.flags then s.glob.offs else 0
  let entries ← (List.range s.glob.pathc).mapM fun i => s.readSlot s.glob.pathv (offs + i)
  return (entries.foldl free s).free s.glob.pathv

def step (fnmatch : Text → Text → Bool) (s : State) (c : Call) : Checked State := Prod.snd <$> s.globCall fnmatch c

def initial (offs : ℕ) : State := ⟨⟨0, 0, offs, 0, 0⟩, fun _ => none, fun _ => none, 1, []⟩

end State

variable {fnmatch : Text → Text → Bool} {c : Call}

namespace Call

def NamesEntry (fnmatch : Text → Text → Bool) (c : Call) (path : Text) : Prop :=
  ∃ directory name names, path = directory ++ '/' :: name ∧
    c.opendir (if directory = [] then ['/'] else directory) = some names ∧ name ∈ names ∧
    fnmatch c.parts.2 name = true

def IsPattern (fnmatch : Text → Text → Bool) (c : Call) (path : Text) : Prop :=
  path = c.pattern ∧ Flags.noCheck c.flags = true ∧ ∀ names, c.opendir c.parts.1 = some names → c.matched fnmatch names = []

end Call

namespace State

variable {s s' : State} {ptrs entries : List ℕ} {texts new : List Text} {flags : BitVec 32}

def reserved (s : State) : ℕ := if Flags.doOffs s.glob.flags then s.glob.offs else 0

structure Holds (s : State) (ptrs : List ℕ) (texts : List Text) : Prop where
  array : s.glob.pathv = 0 ∧ ptrs = [] ∨
    s.glob.pathv ≠ 0 ∧ s.arrays s.glob.pathv = some (List.replicate s.reserved 0 ++ ptrs ++ [0])
  pathc : s.glob.pathc = ptrs.length
  texts : ptrs.map s.strings = texts.map some
  nonnull : ∀ p ∈ ptrs, p ≠ 0
  nodup : (s.glob.pathv :: ptrs).Nodup
  fresh : ∀ p ∈ s.glob.pathv :: ptrs, p < s.next

def FreesAll (s : State) (ptrs : List ℕ) : Prop := ∃ s', s.globfree = .ok s' ∧
  s'.freed = s.freed ++ (ptrs ++ if s.glob.pathv = 0 then [] else [s.glob.pathv]) ∧
  ∀ p ∈ s.glob.pathv :: ptrs, p ≠ 0 → s'.arrays p = none ∧ s'.strings p = none

def Right (fnmatch : Text → Text → Bool) (s : State) (c : Call) : Prop := ∀ ptrs texts, s.Holds ptrs texts →
  ∃ ret s', s.globCall fnmatch c = .ok (ret, s') ∧
    (ret ≠ 0 → s'.glob = s.glob ∧ s'.Holds ptrs texts) ∧
    (ret = 0 → ∃ ptrs' new, s'.Holds ptrs' ((if Flags.append c.flags then texts else []) ++ new) ∧
      ∀ path ∈ new, c.NamesEntry fnmatch path ∨ c.IsPattern fnmatch path)

/-- No slots are reserved, some name matches unless the pattern itself is asked for, the list does not become too
long, and only where the working directory is the root a pattern without a directory is used. -/
def Fits (fnmatch : Text → Text → Bool) (s : State) (c : Call) : Prop :=
  match c.opendir c.parts.1 with
  | none => Flags.noCheck c.flags = true → Flags.doOffs c.flags = true → s.glob.offs = 0
  | some names =>
    (Flags.doOffs c.flags = true → s.glob.offs = 0) ∧
      (c.matched fnmatch names = [] → Flags.noCheck c.flags = true) ∧
      (c.matched fnmatch names ≠ [] →
        (if Flags.append c.flags then s.glob.pathc else 0) + (c.matched fnmatch names).length ≤ maxGlobResults) ∧
      (c.parts.1 = [] → c.opendir [] = c.opendir ['/'])

section Reading

lemma readSlots {array base : ℕ} {slots : List ℕ} (h : s.arrays array = some slots) {n : ℕ}
    (hn : base + n ≤ slots.length) :
    (List.range n).mapM (fun i => s.readSlot array (base + i)) = .ok ((slots.drop base).take n) := by
  induction n with
  | zero => rfl
  | succ n ih =>
    have hslot : s.readSlot array (base + n) = .ok slots[base + n] := by
      rw [readSlot, h, bind_some, getElem?_eq_getElem (by omega)]
      rfl
    rw [range_succ, mapM_append, ih (by omega), ok_bind]
    simp only [mapM_cons, mapM_nil, hslot]
    rw [take_succ_eq_append_getElem (by rw [length_drop]; omega), getElem_drop]
    rfl

lemma free_zero (s : State) : s.free 0 = s := if_pos (.inl rfl)

lemma glob_free (s : State) (p : ℕ) : (s.free p).glob = s.glob ∧ (s.free p).next = s.next := by
  unfold free
  split <;> exact ⟨rfl, rfl⟩

lemma arrays_free (s : State) (p q : ℕ) (h : q ≠ p ∨ p = 0) :
    (s.free p).arrays q = s.arrays q ∧ (s.free p).strings q = s.strings q := by
  unfold free
  split
  next => exact ⟨rfl, rfl⟩
  next hp =>
    have hne : q ≠ p := h.resolve_right fun h0 => hp (.inl h0)
    exact ⟨update_of_ne hne _ _, update_of_ne hne _ _⟩

lemma arrays_free_self (s : State) {p : ℕ} (h : p ≠ 0) : (s.free p).arrays p = none ∧ (s.free p).strings p = none := by
  unfold free
  split
  next hp => exact hp.resolve_left h
  next => exact ⟨update_self .., update_self ..⟩

lemma freed_free (s : State) {p : ℕ} (h : p ≠ 0) (hlive : s.arrays p ≠ none ∨ s.strings p ≠ none) :
    (s.free p).freed = s.freed ++ [p] := by
  unfold free
  rw [if_neg]
  rintro (h0 | ⟨harray, hstring⟩)
  · exact h h0
  · exact hlive.elim (fun h => h harray) fun h => h hstring

lemma foldl_free (h : ptrs.Nodup) : ∀ s : State, (∀ p ∈ ptrs, p ≠ 0 ∧ s.strings p ≠ none) →
    (ptrs.foldl free s).glob = s.glob ∧ (ptrs.foldl free s).next = s.next ∧
      (ptrs.foldl free s).freed = s.freed ++ ptrs ∧
      (∀ q ∉ ptrs, (ptrs.foldl free s).arrays q = s.arrays q ∧ (ptrs.foldl free s).strings q = s.strings q) ∧
      ∀ p ∈ ptrs, (ptrs.foldl free s).arrays p = none ∧ (ptrs.foldl free s).strings p = none := by
  induction ptrs with
  | nil => exact fun s _ => ⟨rfl, rfl, (append_nil _).symm, fun _ _ => ⟨rfl, rfl⟩, fun _ hp => nomatch hp⟩
  | cons p ptrs ih =>
    intro s hlive
    obtain ⟨hp, hnodup⟩ := nodup_cons.mp h
    obtain ⟨hp0, hplive⟩ := hlive p mem_cons_self
    have hothers : ∀ q ∈ ptrs, q ≠ 0 ∧ (s.free p).strings q ≠ none := by
      intro q hq
      have hne : q ≠ p := fun heq => hp (heq ▸ hq)
      rw [(arrays_free s p q (.inl hne)).2]
      exact hlive q (mem_cons_of_mem _ hq)
    obtain ⟨hglob, hnext, hfreed, hrest, hgone⟩ := ih hnodup (s.free p) hothers
    rw [foldl_cons]
    refine ⟨hglob.trans (glob_free s p).1, hnext.trans (glob_free s p).2, ?_, fun q hq => ?_, fun q hq => ?_⟩
    · rw [hfreed, freed_free s hp0 (.inr hplive), append_assoc]
      rfl
    · obtain ⟨hne, hq⟩ := not_or.mp fun h => hq (mem_cons.mpr h)
      rw [(hrest q hq).1, (hrest q hq).2]
      exact arrays_free s p q (.inl hne)
    · obtain rfl | hq := mem_cons.mp hq
      · rw [(hrest q hp).1, (hrest q hp).2]
        exact arrays_free_self s hp0
      · exact hgone q hq

lemma Holds.live (h : s.Holds ptrs texts) : ∀ p ∈ ptrs, p ≠ 0 ∧ s.strings p ≠ none := by
  intro p hp
  have hmem : s.strings p ∈ texts.map some := h.texts ▸ mem_map_of_mem hp
  obtain ⟨text, -, htext⟩ := mem_map.mp hmem
  exact ⟨h.nonnull p hp, by rw [← htext]; exact some_ne_none text⟩

lemma Holds.freesAll (h : s.Holds ptrs texts) : s.FreesAll ptrs := by
  obtain ⟨hapart, hnodup⟩ := nodup_cons.mp h.nodup
  obtain ⟨hglob, -, hfreed, hrest, hgone⟩ := foldl_free hnodup s h.live
  obtain ⟨hpathv, rfl⟩ | ⟨hpathv, harray⟩ := h.array
  · refine ⟨s, ?_, by simp [hpathv], fun p hp hp0 => ?_⟩
    · rw [globfree, h.pathc, hpathv]
      exact congrArg _ (free_zero s)
    · exact absurd ((mem_singleton.mp hp).trans hpathv) hp0
  · have hslots : (List.range s.glob.pathc).mapM (fun i => s.readSlot s.glob.pathv (s.reserved + i)) = .ok ptrs := by
      rw [readSlots harray (by simp [h.pathc])]
      simp [h.pathc]
    have hfree : s.globfree = .ok ((ptrs.foldl free s).free s.glob.pathv) := by
      have hbind : s.globfree =
          ((List.range s.glob.pathc).mapM (fun i => s.readSlot s.glob.pathv (s.reserved + i)) >>=
            fun entries => .ok ((entries.foldl free s).free s.glob.pathv)) := rfl
      rw [hbind, hslots]
      rfl
    refine ⟨_, hfree, ?_, fun p hp _ => ?_⟩
    · rw [freed_free _ hpathv (.inl _), hfreed, if_neg hpathv, append_assoc]
      rw [(hrest _ hapart).1, harray]
      exact some_ne_none _
    · obtain rfl | hp := mem_cons.mp hp
      · exact arrays_free_self _ hpathv
      · have hne : p ≠ s.glob.pathv := fun heq => hapart (heq ▸ hp)
        rw [(arrays_free _ _ p (.inl hne)).1, (arrays_free _ _ p (.inl hne)).2]
        exact hgone p hp

end Reading

section Writing

structure Allocated (s s' : State) (entries : List ℕ) (new : List Text) : Prop where
  glob : s'.glob.pathv = s.glob.pathv ∧ s'.glob.pathc = s.glob.pathc ∧ s'.glob.offs = s.glob.offs
  arrays : s'.arrays = s.arrays
  others : ∀ p < s.next, s'.strings p = s.strings p
  texts : entries.map s'.strings = new.map some
  nodup : entries.Nodup
  within : ∀ p ∈ entries, s.next ≤ p ∧ p < s'.next
  next_le : s.next ≤ s'.next

lemma allocated (new : List Text) : ∀ s : State, Allocated s (s.allocStrings new).2 (s.allocStrings new).1 new := by
  induction new with
  | nil => exact fun s => ⟨⟨rfl, rfl, rfl⟩, rfl, fun _ _ => rfl, rfl, nodup_nil, fun _ hp => (nomatch hp), le_rfl⟩
  | cons text new ih =>
    intro s
    have h := ih (s.allocString text).2
    have hnext : (s.allocString text).2.next = s.next + 1 := rfl
    refine ⟨h.glob, h.arrays, fun p hp => ?_, ?_, ?_, fun p hp => ?_, ?_⟩
    · refine (h.others p (by omega)).trans ?_
      exact update_of_ne (by omega) _ _
    · refine cons_eq_cons.mpr ⟨?_, h.texts⟩
      refine (h.others s.next (by omega)).trans ?_
      exact update_self ..
    · refine nodup_cons.mpr ⟨fun hmem => ?_, h.nodup⟩
      have hle := (h.within _ hmem).1
      exact absurd hle (by rw [hnext]; exact not_succ_le_self _)
    · have hle := h.next_le
      obtain rfl | hp := mem_cons.mp hp
      · exact ⟨le_rfl, lt_of_succ_le hle⟩
      · obtain ⟨hge, hlt⟩ := h.within p hp
        exact ⟨(le_succ _).trans hge, hlt⟩
    · have hle := h.next_le
      exact (le_succ _).trans hle

lemma Holds.pos (h : s.Holds ptrs texts) : 0 < s.next :=
  zero_lt_of_lt (h.fresh _ mem_cons_self)

lemma Holds.keep (h : s.Holds ptrs texts) (hglob : s'.glob = s.glob) (hnext : s.next ≤ s'.next)
    (harrays : s'.arrays s.glob.pathv = s.arrays s.glob.pathv) (hstrings : ∀ p ∈ ptrs, s'.strings p = s.strings p) :
    s'.Holds ptrs texts where
  array := by
    rw [reserved, hglob, harrays]
    exact h.array
  pathc := hglob ▸ h.pathc
  texts := (map_congr_left hstrings).trans h.texts
  nonnull := h.nonnull
  nodup := hglob ▸ h.nodup
  fresh p hp := (h.fresh p (hglob ▸ hp)).trans_le hnext

lemma writeGlobResults_noSpace (hoffs : Flags.doOffs flags = true → s.glob.offs = 0)
    (hpathv : s.glob.pathv = 0 → s.glob.pathc = 0)
    (hsize : maxGlobResults < (if Flags.append flags then s.glob.pathc else 0) + entries.length) :
    s.writeGlobResults flags entries = .ok (globNoSpace, s) := by
  have hzero : (if Flags.doOffs flags = true then s.glob.offs else 0) = 0 := by
    split
    next h => exact hoffs h
    next => rfl
  unfold writeGlobResults
  rw [hzero]
  by_cases hold : Flags.append flags = true ∧ s.glob.pathv ≠ 0 ∧ 0 < s.glob.pathc
  · rw [if_pos hold.1] at hsize
    simp only [if_pos hold, if_pos hold.2.2, zero_add]
    rw [if_pos hsize]
    rfl
  · have hkept : (if Flags.append flags = true then s.glob.pathc else 0) = 0 := by
      by_contra hne
      split at hne
      next happend => exact hold ⟨happend, fun h0 => hne (hpathv h0), pos_of_ne_zero hne⟩
      next => exact hne rfl
    rw [hkept, zero_add] at hsize
    simp only [if_neg hold, lt_irrefl, if_false, zero_add]
    rw [if_pos hsize]
    rfl

def keptBy (flags : BitVec 32) {α : Type} (entries : List α) : List α := if Flags.append flags then entries else []

lemma writeGlobResults_ok (harray : s.glob.pathv = 0 ∧ ptrs = [] ∨
      s.glob.pathv ≠ 0 ∧ s.arrays s.glob.pathv = some (ptrs ++ [0])) (hpathc : s.glob.pathc = ptrs.length)
    (hoffs : Flags.doOffs flags = true → s.glob.offs = 0)
    (hsize : (keptBy flags ptrs).length + entries.length ≤ maxGlobResults) :
    ∃ old, (old = 0 ∨ old = s.glob.pathv) ∧ s.writeGlobResults flags entries = .ok (0,
      { (s.allocArray (keptBy flags ptrs ++ entries ++ [0])).2.free old with
        glob := { s.glob with pathc := (keptBy flags ptrs).length + entries.length, pathv := s.next } }) := by
  have hzero : (if Flags.doOffs flags = true then s.glob.offs else 0) = 0 := by
    split
    next h => exact hoffs h
    next => rfl
  unfold writeGlobResults
  rw [hzero]
  by_cases hold : Flags.append flags = true ∧ s.glob.pathv ≠ 0 ∧ 0 < s.glob.pathc
  · have hkept : keptBy flags ptrs = ptrs := if_pos hold.1
    rw [hkept] at hsize ⊢
    have hslots : s.arrays s.glob.pathv = some (ptrs ++ [0]) := (harray.resolve_left fun h => hold.2.1 h.1).2
    have hlength : 0 + ptrs.length ≤ (ptrs ++ [0]).length := by simp
    have hread := readSlots hslots hlength
    simp only [zero_add, drop_zero, take_left] at hread
    refine ⟨s.glob.pathv, .inr rfl, ?_⟩
    simp only [if_pos hold, if_pos hold.2.2, zero_add]
    rw [hpathc, if_neg (not_lt.mpr hsize), hread]
    simp only [ok_bind, allocArray, (glob_free _ _).1]
    rfl
  · have hkept : keptBy flags ptrs = [] := by
      unfold keptBy
      split
      next happend =>
        by_contra hne
        have hpathv : s.glob.pathv ≠ 0 := fun h0 => hne (harray.resolve_right fun h => h.1 h0).2
        exact hold ⟨happend, hpathv, hpathc ▸ length_pos_iff.mpr hne⟩
      next => rfl
    rw [hkept, length_nil, zero_add] at hsize
    refine ⟨0, .inl rfl, ?_⟩
    simp only [if_neg hold, lt_irrefl, if_false, zero_add]
    rw [if_neg (not_lt.mpr hsize), hkept]
    simp only [range_zero, mapM_nil, pure_bind, allocArray, nil_append, length_nil, zero_add,
      (glob_free _ _).1]
    rfl

lemma keptBy_map {α β : Type} (flags : BitVec 32) (f : α → β) (l : List α) :
    (keptBy flags l).map f = keptBy flags (l.map f) := by
  unfold keptBy
  split <;> rfl

lemma mem_of_keptBy {flags : BitVec 32} {p : ℕ} (h : p ∈ keptBy flags ptrs) : p ∈ ptrs := by
  unfold keptBy at h
  split at h
  · exact h
  · nomatch h

lemma nodup_keptBy {flags : BitVec 32} (h : ptrs.Nodup) : (keptBy flags ptrs).Nodup := by
  unfold keptBy
  split
  · exact h
  · exact nodup_nil

lemma Holds.written {t u : State} {old : ℕ} (h : s.Holds ptrs texts) (ha : Allocated s t entries new)
    (hold : old = 0 ∨ old = s.glob.pathv)
    (hu : u.arrays = ((t.allocArray (keptBy flags ptrs ++ entries ++ [0])).2.free old).arrays ∧
      u.strings = ((t.allocArray (keptBy flags ptrs ++ entries ++ [0])).2.free old).strings ∧ u.next = t.next + 1)
    (hglob : u.glob.pathv = t.next ∧ u.glob.pathc = (keptBy flags ptrs).length + entries.length)
    (hreserved : u.reserved = 0) : u.Holds (keptBy flags ptrs ++ entries) (keptBy flags texts ++ new) := by
  obtain ⟨harrays, hstrings, hnext⟩ := hu
  obtain ⟨hpathv, hpathc⟩ := hglob
  have hpathvlt : s.glob.pathv < s.next := h.fresh _ mem_cons_self
  have hnextle := ha.next_le
  have holdlt : old < s.next := by
    obtain rfl | rfl := hold
    · exact h.pos
    · exact hpathvlt
  have hkept : ∀ p ∈ keptBy flags ptrs, p < s.next ∧ p ≠ s.glob.pathv ∧ p ≠ 0 := by
    intro p hp
    have hmem := mem_of_keptBy hp
    exact ⟨h.fresh p (mem_cons_of_mem _ hmem),
      fun heq => (nodup_cons.mp h.nodup).1 (heq ▸ hmem), h.nonnull p hmem⟩
  have hall : ∀ p ∈ keptBy flags ptrs ++ entries, p < t.next ∧ p ≠ 0 ∧ (p ≠ old ∨ old = 0) := by
    intro p hp
    obtain hp | hp := mem_append.mp hp
    · obtain ⟨hlt, hne, h0⟩ := hkept p hp
      refine ⟨by omega, h0, hold.elim .inr fun heq => .inl fun hpold => hne (hpold.trans heq)⟩
    · have hwithin := ha.within p hp
      have hpos := h.pos
      exact ⟨hwithin.2, by omega, .inl (by omega)⟩
  have hstring : ∀ p ∈ keptBy flags ptrs ++ entries, u.strings p = t.strings p := by
    intro p hp
    rw [hstrings, (arrays_free _ old p (hall p hp).2.2).2]
    rfl
  have hdisjoint : ∀ p ∈ keptBy flags ptrs, ∀ q ∈ entries, p ≠ q := by
    intro p hp q hq heq
    have hlt := (hkept p hp).1
    have hge := (ha.within q hq).1
    omega
  refine ⟨.inr ⟨by rw [hpathv]; have := h.pos; omega, ?_⟩, ?_, ?_, fun p hp => (hall p hp).2.1, ?_, ?_⟩
  · rw [hpathv, harrays, (arrays_free _ old _ (.inl (by omega))).1, hreserved, replicate_zero, nil_append]
    exact update_self ..
  · rw [hpathc, length_append]
  · rw [map_congr_left hstring, map_append, map_append, ha.texts, keptBy_map, keptBy_map, ← h.texts,
      ← keptBy_map, ← keptBy_map]
    congr 1
    exact map_congr_left fun p hp => ha.others p (hkept p hp).1
  · rw [hpathv]
    refine nodup_cons.mpr ⟨fun hp => absurd (hall _ hp).1 (lt_irrefl _), ?_⟩
    exact nodup_append.mpr ⟨nodup_keptBy (nodup_cons.mp h.nodup).2, ha.nodup, hdisjoint⟩
  · rw [hpathv, hnext]
    intro p hp
    obtain rfl | hp := mem_cons.mp hp
    · exact lt_succ_self _
    · exact (hall p hp).1.trans (lt_succ_self _)

end Writing

section Calls

lemma doOffs_magChar (flags : BitVec 32) : Flags.doOffs (flags ||| Flags.magChar) = Flags.doOffs flags ∧
    Flags.doOffs (flags &&& ~~~Flags.magChar) = Flags.doOffs flags := by
  simp [Flags.doOffs, Flags.magChar]

lemma reserved_eq_zero (h : Flags.doOffs s.glob.flags = true → s.glob.offs = 0) : s.reserved = 0 := by
  unfold reserved
  split
  next hdo => exact h hdo
  next => rfl

lemma Holds.plain (h : s.Holds ptrs texts) (hreserved : s.reserved = 0) :
    s.glob.pathv = 0 ∧ ptrs = [] ∨ s.glob.pathv ≠ 0 ∧ s.arrays s.glob.pathv = some (ptrs ++ [0]) := by
  have harray := h.array
  rwa [hreserved, replicate_zero, nil_append] at harray

lemma length_keptBy (flags : BitVec 32) (ptrs : List ℕ) :
    (keptBy flags ptrs).length = if Flags.append flags then ptrs.length else 0 := by
  unfold keptBy
  split <;> rfl

lemma Holds.pathc_eq_zero (h : s.Holds ptrs texts) (hpathv : s.glob.pathv = 0) : s.glob.pathc = 0 := by
  obtain ⟨-, rfl⟩ | ⟨hne, -⟩ := h.array
  · exact h.pathc
  · exact absurd hpathv hne

lemma Holds.givenBack {t u : State} (h : s.Holds ptrs texts) (ha : Allocated s t entries new)
    (hglob : u.glob = s.glob) (hnext : t.next ≤ u.next)
    (hrest : ∀ p ∉ entries, u.arrays p = t.arrays p ∧ u.strings p = t.strings p) : u.Holds ptrs texts := by
  have hold : ∀ p, p < s.next → p ∉ entries := fun p hp hmem => absurd (ha.within p hmem).1 (by omega)
  refine h.keep hglob (ha.next_le.trans hnext) ?_ fun p hp => ?_
  · rw [(hrest _ (hold _ (h.fresh _ mem_cons_self))).1, ha.arrays]
  · have hlt := h.fresh p (mem_cons_of_mem _ hp)
    rw [(hrest p (hold p hlt)).2, ha.others p hlt]

lemma globNoCheck_cases (h : s.Holds ptrs texts) (hreserved : s.reserved = 0) (pattern : Text)
    (hoffs : Flags.doOffs flags = true → s.glob.offs = 0) :
    ∃ ret s', s.globNoCheck flags pattern = .ok (ret, s') ∧
      (ret ≠ 0 → s'.glob = s.glob ∧ s'.Holds ptrs texts) ∧
      (ret = 0 → s'.reserved = 0 ∧ ∃ ptrs', s'.Holds ptrs' (keptBy flags texts ++ [pattern])) := by
  have ha : Allocated s (s.allocString pattern).2 [s.next] [pattern] := allocated [pattern] s
  by_cases hsize : (keptBy flags ptrs).length + 1 ≤ maxGlobResults
  · have hentries : (keptBy flags ptrs).length + [s.next].length ≤ maxGlobResults := hsize
    obtain ⟨old, hold, hwrite⟩ := @writeGlobResults_ok (s.allocString pattern).2 ptrs [s.next] flags
      (h.plain hreserved) h.pathc hoffs hentries
    have hcall : s.globNoCheck flags pattern = .ok (0,
        { ((s.allocString pattern).2.allocArray (keptBy flags ptrs ++ [s.next] ++ [0])).2.free old with
          glob := ⟨(keptBy flags ptrs).length + 1, 1, s.glob.offs, flags ||| Flags.magChar, s.next + 1⟩ }) := by
      change ((s.allocString pattern).2.writeGlobResults flags [s.next] >>= _) = _
      rw [hwrite, ok_bind]
      rfl
    have hplain : ∀ u : State, u.glob = ⟨(keptBy flags ptrs).length + 1, 1, s.glob.offs, flags ||| Flags.magChar,
        s.next + 1⟩ → u.reserved = 0 := fun u hu => reserved_eq_zero fun hdo => by
      rw [hu] at hdo ⊢
      exact hoffs ((doOffs_magChar flags).1 ▸ hdo)
    exact ⟨0, _, hcall, fun h0 => absurd rfl h0, fun _ => ⟨hplain _ rfl, _,
      h.written ha hold ⟨rfl, rfl, (glob_free _ old).2⟩ ⟨rfl, rfl⟩ (hplain _ rfl)⟩⟩
  · have hlong : maxGlobResults < (if Flags.append flags = true then s.glob.pathc else 0) + [s.next].length := by
      rw [length_keptBy, ← h.pathc] at hsize
      exact not_le.mp hsize
    have hwrite := writeGlobResults_noSpace (s := (s.allocString pattern).2) hoffs h.pathc_eq_zero hlong
    refine ⟨globNoSpace, (s.allocString pattern).2.free s.next, ?_, fun _ => ⟨?_, ?_⟩, fun h0 => absurd h0 (by decide)⟩
    · change ((s.allocString pattern).2.writeGlobResults flags [s.next] >>= _) = _
      rw [hwrite, ok_bind]
      rfl
    · exact (glob_free _ _).1
    · refine h.givenBack ha (glob_free _ _).1 (glob_free _ s.next).2.ge fun p hp => ?_
      exact arrays_free _ _ p (.inl fun heq => hp (heq ▸ mem_cons_self))

lemma globCall_cases (h : s.Holds ptrs texts) (hreserved : s.reserved = 0) (hfits : s.Fits fnmatch c) :
    ∃ ret s', s.globCall fnmatch c = .ok (ret, s') ∧ (ret ≠ 0 → s'.glob = s.glob ∧ s'.Holds ptrs texts) ∧
      (ret = 0 → s'.reserved = 0 ∧ ∃ ptrs' new, s'.Holds ptrs' (keptBy c.flags texts ++ new) ∧
        ∀ path ∈ new, c.NamesEntry fnmatch path ∨ c.IsPattern fnmatch path) := by
  have hnoCheck : (Flags.doOffs c.flags = true → s.glob.offs = 0) → c.IsPattern fnmatch c.pattern →
      ∃ ret s', s.globNoCheck c.flags c.pattern = .ok (ret, s') ∧
        (ret ≠ 0 → s'.glob = s.glob ∧ s'.Holds ptrs texts) ∧
        (ret = 0 → s'.reserved = 0 ∧ ∃ ptrs' new, s'.Holds ptrs' (keptBy c.flags texts ++ new) ∧
          ∀ path ∈ new, c.NamesEntry fnmatch path ∨ c.IsPattern fnmatch path) := by
    intro hoffs hpattern
    obtain ⟨ret, s', hcall, herror, hok⟩ := globNoCheck_cases h hreserved c.pattern hoffs
    refine ⟨ret, s', hcall, herror, fun h0 => ?_⟩
    obtain ⟨hreserved', ptrs', hholds⟩ := hok h0
    exact ⟨hreserved', ptrs', [c.pattern], hholds, fun path hpath =>
      .inr (mem_singleton.mp hpath ▸ hpattern)⟩
  unfold Fits at hfits
  unfold globCall
  cases hdir : c.opendir c.parts.1 with
  | none =>
    rw [hdir] at hfits
    dsimp only at hfits ⊢
    split
    next hno => exact hnoCheck (hfits hno) ⟨rfl, hno, fun names hnames => by rw [hdir] at hnames; nomatch hnames⟩
    next => exact ⟨globNoMatch, s, rfl, fun _ => ⟨rfl, h⟩, fun h0 => absurd h0 (by decide)⟩
  | some names =>
    rw [hdir] at hfits
    obtain ⟨hoffs, hsome, hsize, hroot⟩ := hfits
    dsimp only
    split
    next hno =>
      refine hnoCheck hoffs ⟨rfl, hno.2, fun names' hnames => ?_⟩
      rw [hdir] at hnames
      exact some.inj hnames ▸ hno.1
    next hno =>
      have hne : c.matched fnmatch names ≠ [] := fun hnil => hno ⟨hnil, hsome hnil⟩
      have ha := allocated (c.matched fnmatch names) s
      obtain ⟨t, ht⟩ : ∃ t, t = (s.allocStrings (c.matched fnmatch names)).2 := ⟨_, rfl⟩
      obtain ⟨entries, hentries⟩ : ∃ entries, entries = (s.allocStrings (c.matched fnmatch names)).1 := ⟨_, rfl⟩
      rw [← ht, ← hentries] at ha
      have hlength : entries.length = (c.matched fnmatch names).length := by
        have hmap := congrArg List.length ha.texts
        rwa [length_map, length_map] at hmap
      have hfit : (keptBy c.flags ptrs).length + entries.length ≤ maxGlobResults := by
        rw [length_keptBy, ← h.pathc, hlength]
        exact hsize hne
      obtain ⟨t', ht'⟩ : ∃ t' : State,
          t' = { t with glob := { t.glob with matchc := entries.length, flags := c.storedFlags } } := ⟨_, rfl⟩
      have ha' : Allocated s t' entries (c.matched fnmatch names) := by
        rw [ht']
        exact ⟨ha.glob, ha.arrays, ha.others, ha.texts, ha.nodup, ha.within, ha.next_le⟩
      obtain ⟨hpathv, hpathc, hoffs'⟩ := ha'.glob
      obtain ⟨old, hold, hwrite⟩ := writeGlobResults_ok (hpathv ▸ ha'.arrays ▸ h.plain hreserved)
        (hpathc.trans h.pathc) (fun hdo => hoffs'.trans (hoffs hdo)) hfit
      have hentriesne : entries ≠ [] := by
        intro hnil
        rw [hnil] at hlength
        exact hne (length_eq_zero_iff.mp hlength.symm)
      have hplain : ∀ u : State, u.glob = ⟨(keptBy c.flags ptrs).length + entries.length, t'.glob.matchc, t'.glob.offs,
          t'.glob.flags, t'.next⟩ → u.reserved = 0 := fun u hu => reserved_eq_zero fun hdo => by
        rw [hu] at hdo ⊢
        refine hoffs'.trans (hoffs ?_)
        rw [ht'] at hdo
        change Flags.doOffs c.storedFlags = true at hdo
        unfold Call.storedFlags at hdo
        split at hdo
        · exact (doOffs_magChar c.flags).1 ▸ hdo
        · exact (doOffs_magChar c.flags).2 ▸ hdo
      refine ⟨0, { (t'.allocArray (keptBy c.flags ptrs ++ entries ++ [0])).2.free old with
          glob := ⟨(keptBy c.flags ptrs).length + entries.length, t'.glob.matchc, t'.glob.offs, t'.glob.flags, t'.next⟩ },
        ?_, fun h0 => absurd rfl h0, fun _ => ⟨hplain _ rfl, _, c.matched fnmatch names,
        h.written ha' (hpathv ▸ hold) ⟨rfl, rfl, (glob_free _ old).2⟩ ⟨rfl, rfl⟩ (hplain _ rfl), fun path hpath =>
          .inl ?_⟩⟩
      · change (State.writeGlobResults { (s.allocStrings (c.matched fnmatch names)).2 with
          glob := { (s.allocStrings (c.matched fnmatch names)).2.glob with
            matchc := (s.allocStrings (c.matched fnmatch names)).1.length, flags := c.storedFlags } } c.flags
          (s.allocStrings (c.matched fnmatch names)).1 >>= _) = _
        rw [← ht, ← hentries, ← ht', hwrite, ok_bind]
        simp [hentriesne]
      · obtain ⟨name, hname, rfl⟩ := mem_map.mp hpath
        obtain ⟨hmem, hmatch⟩ := mem_filter.mp hname
        simp only [ne_eq, decide_eq_true_eq] at hmatch
        refine ⟨_, name, names, rfl, ?_, hmem, hmatch.2.2⟩
        split
        next hempty => rw [← hroot hempty, ← hempty, hdir]
        next => exact hdir

end Calls

section Runs

lemma right_of_fits (hreserved : s.reserved = 0) (hfits : s.Fits fnmatch c) : s.Right fnmatch c := by
  intro ptrs texts h
  obtain ⟨ret, s', hcall, herror, hok⟩ := globCall_cases h hreserved hfits
  exact ⟨ret, s', hcall, herror, fun h0 => (hok h0).2⟩

lemma step_holds (h : s.Holds ptrs texts) (hreserved : s.reserved = 0) (hfits : s.Fits fnmatch c) :
    ∃ s', s.step fnmatch c = .ok s' ∧ s'.reserved = 0 ∧ ∃ ptrs' texts', s'.Holds ptrs' texts' := by
  obtain ⟨ret, s', hcall, herror, hok⟩ := globCall_cases h hreserved hfits
  refine ⟨s', by rw [step, hcall]; rfl, ?_⟩
  by_cases hret : ret = 0
  · obtain ⟨hreserved', ptrs', new, hholds, -⟩ := hok hret
    exact ⟨hreserved', ptrs', _, hholds⟩
  · obtain ⟨hglob, hholds⟩ := herror hret
    refine ⟨?_, ptrs, texts, hholds⟩
    rw [reserved, hglob]
    exact hreserved

lemma run_holds (h : s.Holds ptrs texts) (hreserved : s.reserved = 0) (calls : List Call)
    (hfits : Along (step fnmatch) (Fits fnmatch) s calls) :
    Along (step fnmatch) (Right fnmatch) s calls ∧
      ∃ s' ptrs' texts', run (step fnmatch) s calls = .ok s' ∧ s'.Holds ptrs' texts' ∧ s'.FreesAll ptrs' := by
  induction calls generalizing s ptrs texts with
  | nil => exact ⟨trivial, s, ptrs, texts, rfl, h, h.freesAll⟩
  | cons c calls ih =>
    obtain ⟨s', hstep, hreserved', ptrs', texts', hholds⟩ := step_holds h hreserved hfits.1
    obtain ⟨hright, t, ptrs'', texts'', hrun, hend⟩ := ih hholds hreserved' (hfits.2 s' hstep)
    refine ⟨⟨right_of_fits hreserved hfits.1, fun u hu => ?_⟩, t, ptrs'', texts'', ?_, hend⟩
    · obtain rfl := Except.ok.inj (hstep.symm.trans hu)
      exact hright
    · exact run_cons_eq_ok.mpr ⟨s', hstep, hrun⟩

def matchesStar (pattern name : Text) : Bool := pattern = ['*'] ∨ pattern = name

def listOf (flags : BitVec 32) (pattern : Text) : Call :=
  ⟨pattern, flags, fun directory => if directory = ['d'] then some ["..".toList, ['a']] else none⟩

end Runs

end State

end TouchHle.Glob
