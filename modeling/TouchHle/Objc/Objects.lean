import TouchHle.Lib.Runs

namespace TouchHle.Objc

open Lib

abbrev Id := ℕ

def nil : Id := 0

abbrev Slot := ℕ

structure NonZeroU32 where
  get : ℕ
  pos : 0 < get
  lt : get < u32Bound

namespace NonZeroU32

lemma get_inj {a b : NonZeroU32} : a.get = b.get ↔ a = b := by
  constructor
  · intro h
    cases a
    cases b
    cases h
    rfl
  · rintro rfl
    rfl

instance : DecidableEq NonZeroU32 := fun _ _ => decidable_of_iff _ get_inj

def one : NonZeroU32 := ⟨1, by decide, by decide⟩

def checkedAddOne (n : NonZeroU32) : Option NonZeroU32 :=
  if h : n.get + 1 < u32Bound then some ⟨n.get + 1, by omega, h⟩ else none

def sub (n : NonZeroU32) (h : n.get ≠ 1) : NonZeroU32 :=
  ⟨n.get - 1, by have := n.pos; omega, by have := n.lt; omega⟩

end NonZeroU32

/-- An object without a count is static, or its count has dropped to zero. Beside the count stands
how many words the block of the object has in the heap (none for an object that is not there). -/
structure HostObjectEntry where
  refcount : Option NonZeroU32
  block : ℕ
  deriving DecidableEq

abbrev Objects := Id → Option HostObjectEntry

namespace Objects

def setRefcount (objects : Objects) (object : Id) (refcount : Option NonZeroU32) : Objects :=
  Function.update objects object ((objects object).map fun entry => { entry with refcount })

def count (objects : Objects) (object : Id) : Option NonZeroU32 :=
  (objects object).bind HostObjectEntry.refcount

def incrementRefcount (objects : Objects) (object : Id) : Objects :=
  if object = nil then objects
  else match objects.count object with
    | none => objects
    | some refcount =>
      match refcount.checkedAddOne with
      | none => objects
      | some newRc => objects.setRefcount object (some newRc)

def decrementRefcount (objects : Objects) (object : Id) : Bool × Objects :=
  if object = nil then (false, objects)
  else match objects.count object with
    | none => (false, objects)
    | some refcount =>
      if h : refcount.get = 1 then (true, objects.setRefcount object none)
      else (false, objects.setRefcount object (some (refcount.sub h)))

variable {objects : Objects} {object o : Id}

lemma setRefcount_eq_none {refcount : Option NonZeroU32} :
    objects.setRefcount object refcount o = none ↔ objects o = none := by
  rw [setRefcount]
  by_cases ho : o = object
  · subst ho
    simp
  · rw [Function.update_of_ne ho]

lemma incrementRefcount_eq_none : objects.incrementRefcount object o = none ↔ objects o = none := by
  rw [incrementRefcount]
  by_cases hnil : object = nil
  · rw [if_pos hnil]
  rw [if_neg hnil]
  cases objects.count object with
  | none => rfl
  | some refcount =>
    dsimp only
    cases refcount.checkedAddOne with
    | none => rfl
    | some newRc => exact setRefcount_eq_none

lemma count_setRefcount (h : objects object ≠ none) (refcount : Option NonZeroU32) :
    (objects.setRefcount object refcount).count o =
      if o = object then refcount else objects.count o := by
  obtain ⟨entry, hentry⟩ := Option.ne_none_iff_exists'.mp h
  rw [count, setRefcount, hentry]
  by_cases ho : o = object
  · subst ho
    simp
  · rw [Function.update_of_ne ho, if_neg ho]
    rfl

lemma ne_none_of_count {refcount : NonZeroU32} (h : objects.count object = some refcount) :
    objects object ≠ none := by
  intro hnone
  rw [count, hnone] at h
  cases h

lemma count_incrementRefcount : (objects.incrementRefcount object).count o =
    if o = object ∧ object ≠ nil then
      (objects.count o).map fun n => n.checkedAddOne.getD n
    else objects.count o := by
  rw [incrementRefcount]
  by_cases hnil : object = nil
  · rw [if_pos hnil, if_neg (fun h => h.2 hnil)]
  rw [if_neg hnil]
  by_cases ho : o = object
  · subst ho
    rw [if_pos ⟨rfl, hnil⟩]
    cases hc : objects.count o with
    | none => exact hc
    | some refcount =>
      dsimp only [Option.map_some]
      cases hadd : refcount.checkedAddOne with
      | none => exact hc
      | some newRc =>
        rw [count_setRefcount (ne_none_of_count hc), if_pos rfl]
        rfl
  · rw [if_neg (fun h => ho h.1)]
    cases hc : objects.count object with
    | none => rfl
    | some refcount =>
      dsimp only
      cases hadd : refcount.checkedAddOne with
      | none => rfl
      | some newRc => rw [count_setRefcount (ne_none_of_count hc), if_neg ho]

lemma decrementRefcount_cases (objects : Objects) (object : Id) :
    (objects.decrementRefcount object = (false, objects) ∧
        (object = nil ∨ objects.count object = none)) ∨
      ∃ n, object ≠ nil ∧ objects.count object = some n ∧
        ((n.get = 1 ∧ objects.decrementRefcount object = (true, objects.setRefcount object none)) ∨
          ∃ h : n.get ≠ 1, objects.decrementRefcount object =
            (false, objects.setRefcount object (some (n.sub h)))) := by
  rw [decrementRefcount]
  by_cases hnil : object = nil
  · exact .inl ⟨if_pos hnil, .inl hnil⟩
  rw [if_neg hnil]
  cases hc : objects.count object with
  | none => exact .inl ⟨rfl, .inr rfl⟩
  | some n =>
    refine .inr ⟨n, hnil, rfl, ?_⟩
    by_cases hn : n.get = 1
    · exact .inl ⟨hn, dif_pos hn⟩
    · exact .inr ⟨hn, dif_neg hn⟩

lemma decrementRefcount_eq_none :
    (objects.decrementRefcount object).2 o = none ↔ objects o = none := by
  obtain ⟨h, -⟩ | ⟨n, -, -, ⟨-, h⟩ | ⟨hn, h⟩⟩ := decrementRefcount_cases objects object
  · rw [h]
  · rw [h]
    exact setRefcount_eq_none
  · rw [h]
    exact setRefcount_eq_none

lemma count_decrementRefcount_of_ne (h : o ≠ object) :
    (objects.decrementRefcount object).2.count o = objects.count o := by
  obtain ⟨hd, -⟩ | ⟨n, -, hn, ⟨-, hd⟩ | ⟨_, hd⟩⟩ := decrementRefcount_cases objects object
  · rw [hd]
  · rw [hd, count_setRefcount (ne_none_of_count hn), if_neg h]
  · rw [hd, count_setRefcount (ne_none_of_count hn), if_neg h]

lemma count_decrementRefcount_of_none (h : objects.count object = none) :
    (objects.decrementRefcount object).2.count object = none := by
  obtain ⟨hd, -⟩ | ⟨n, -, hn, -⟩ := decrementRefcount_cases objects object
  · rw [hd, h]
  · cases hn.symm.trans h

lemma count_decrementRefcount_self {n : NonZeroU32} (hnil : object ≠ nil)
    (h : objects.count object = some n) :
    (∃ m, (objects.decrementRefcount object).2.count object = some m ∧ m.get + 1 = n.get) ∨
      (objects.decrementRefcount object).2.count object = none ∧ n.get = 1 := by
  obtain ⟨-, h'⟩ | ⟨k, -, hk, hd⟩ := decrementRefcount_cases objects object
  · obtain h' | h' := h'
    · exact absurd h' hnil
    · cases h'.symm.trans h
  · obtain rfl := Option.some.inj (hk.symm.trans h)
    obtain ⟨hone, hd⟩ | ⟨hone, hd⟩ := hd
    · rw [hd, count_setRefcount (ne_none_of_count hk), if_pos rfl]
      exact .inr ⟨rfl, hone⟩
    · rw [hd, count_setRefcount (ne_none_of_count hk), if_pos rfl]
      have := k.pos
      exact .inl ⟨_, rfl, Nat.sub_add_cancel this⟩

lemma count_incrementRefcount_self {n : NonZeroU32} (hnil : object ≠ nil)
    (h : objects.count object = some n) (hn : n.get + 1 < u32Bound) :
    ∃ m, (objects.incrementRefcount object).count object = some m ∧ m.get = n.get + 1 := by
  have hadd : n.checkedAddOne = some ⟨n.get + 1, Nat.succ_pos _, hn⟩ := dif_pos hn
  rw [count_incrementRefcount, if_pos ⟨rfl, hnil⟩, h, Option.map_some, hadd]
  exact ⟨_, rfl, rfl⟩

lemma count_incrementRefcount_of_ne (h : o ≠ object) :
    (objects.incrementRefcount object).count o = objects.count o := by
  rw [count_incrementRefcount, if_neg fun h' => h h'.1]

lemma count_incrementRefcount_eq_none :
    (objects.incrementRefcount object).count o = none ↔ objects.count o = none := by
  rw [count_incrementRefcount]
  split
  · exact Option.map_eq_none_iff
  · rfl

end Objects

end TouchHle.Objc
