import Mathlib

namespace TouchHle.Foundation

open List Option

namespace Archives

abbrev Id := ℕ

def nil : Id := 0

/-- What `initWithCoder:` does with its coder: it looks up values, it asks for objects and for lists
of them, each time with the guest in some state, and it returns an object. -/
inductive Coding (W V L : Type)
  | done (object : Id) (w : W)
  | value (key : String) (next : Option V → Coding W V L)
  | object (key : String) (w : W) (next : Id → W → Coding W V L)
  | list (name : L) (w : W) (next : List Id → W → Coding W V L)

/-- A decoder at work. The code has no use for what stands from `active` on: the entries whose
`initWithCoder:` is running, those that objects were made for, the answers that were given, and the
scopes before and after each request. -/
structure Session (W : Type) where
  scope : Option ℕ
  alreadyUnarchived : List (Option Id)
  world : W
  active : List ℕ
  built : List ℕ
  answers : List (ℕ × Id)
  scopes : List (Option ℕ × Option ℕ)

/-- What a decoder makes of a request, up to where it sends `initWithCoder:`: it knows the answer, or
it has the object that it will note, or it sends the message to a new object of a class that it may
just have found in an entry. -/
inductive Opening (W V L : Type)
  | answer (object : Id)
  | record (made : Bool) (object : Id) (w : W)
  | build (resolved : Option (ℕ × Id)) (coding : Coding W V L)

/-- A decoder with its archive. `rescopes` holds if the items of a list are asked for with the scope
set to each of them. -/
structure Coder (W V L : Type) where
  lookup : Option ℕ → String → Option V
  reference : V → Option ℕ
  listed : Option ℕ → L → List ℕ
  rescopes : Bool
  opening : Session W → ℕ → Opening W V L
  finish : W → Id → Id × W

variable {W V L : Type}

namespace Session

def returned (s : Session W) (before : Option ℕ) : Session W :=
  { s with scopes := (before, s.scope) :: s.scopes }

def answer (s : Session W) (i : ℕ) (object : Id) : Session W :=
  { s with answers := (i, object) :: s.answers }

def make (s : Session W) (i : ℕ) : Session W := { s with built := i :: s.built }

def fill (s : Session W) (i : ℕ) (object : Id) : Session W :=
  { s with alreadyUnarchived := s.alreadyUnarchived.set i (some object) }

def resolve (s : Session W) : Option (ℕ × Id) → Session W
  | none => s
  | some (i, object) => s.fill i object

end Session

namespace Coder

variable (c : Coder W V L)

def entering (s : Session W) (i : ℕ) : Session W := if c.rescopes then { s with scope := some i } else s

def leaving (s t : Session W) : Session W := if c.rescopes then { t with scope := s.scope } else t

def decodeList (ask : Session W → ℕ → Option (Id × Session W)) :
    List ℕ → Session W → Option (List Id × Session W)
  | [], s => some ([], s)
  | i :: is, s => do
    let (x, t) ← ask (c.entering s i) i
    let (xs, u) ← decodeList ask is (c.leaving s t)
    some (x :: xs, u)

def exec (ask : Session W → ℕ → Option (Id × Session W)) :
    Coding W V L → Session W → Option (Id × Session W)
  | .done object w, s => some (object, { s with world := w })
  | .value key next, s => exec ask (next (c.lookup s.scope key)) s
  | .object key w next, s =>
    match (c.lookup s.scope key).bind c.reference with
    | none => exec ask (next nil w) s
    | some i => do
      let (x, t) ← ask { s with world := w } i
      exec ask (next x t.world) (t.returned s.scope)
  | .list name w next, s => do
    let (xs, t) ← c.decodeList ask (c.listed s.scope name) { s with world := w }
    exec ask (next xs t.world) (t.returned s.scope)

def conclude (i : ℕ) (object : Id) (s : Session W) : Id × Session W :=
  let (x, w) := c.finish s.world object
  (x, ({ s with world := w }.fill i x).answer i x)

def starting (s : Session W) (i : ℕ) (resolved : Option (ℕ × Id)) : Session W :=
  { (s.resolve resolved).make i with scope := some i, active := i :: s.active }

def ending (s t : Session W) : Session W := { t with scope := s.scope, active := s.active }

def unarchive : ℕ → Session W → ℕ → Option (Id × Session W)
  | 0, _, _ => none
  | fuel + 1, s, i =>
    match c.opening s i with
    | .answer x => some (x, s.answer i x)
    | .record made x w => some (c.conclude i x { if made then s.make i else s with world := w })
    | .build resolved coding => do
      let (x, t) ← c.exec (unarchive fuel) coding (starting s i resolved)
      some (c.conclude i x (ending s t))

def ListMeets (ask : Session W → ℕ → Option (Id × Session W)) (meets : Session W → ℕ → Prop) :
    List ℕ → Session W → Prop
  | [], _ => True
  | i :: is, s => meets (c.entering s i) i ∧
    ∀ x t, ask (c.entering s i) i = some (x, t) → ListMeets ask meets is (c.leaving s t)

def CodingMeets (ask : Session W → ℕ → Option (Id × Session W)) (meets : Session W → ℕ → Prop) :
    Coding W V L → Session W → Prop
  | .done _ _, _ => True
  | .value key next, s => CodingMeets ask meets (next (c.lookup s.scope key)) s
  | .object key w next, s =>
    match (c.lookup s.scope key).bind c.reference with
    | none => CodingMeets ask meets (next nil w) s
    | some i => meets { s with world := w } i ∧ ∀ x t, ask { s with world := w } i = some (x, t) →
      CodingMeets ask meets (next x t.world) (t.returned s.scope)
  | .list name w next, s =>
    c.ListMeets ask meets (c.listed s.scope name) { s with world := w } ∧
      ∀ xs t, c.decodeList ask (c.listed s.scope name) { s with world := w } = some (xs, t) →
        CodingMeets ask meets (next xs t.world) (t.returned s.scope)

def Meets (use : Session W → ℕ → Prop) : ℕ → Session W → ℕ → Prop
  | 0, _, _ => True
  | fuel + 1, s, i => use s i ∧
    match c.opening s i with
    | .answer _ => True
    | .record _ _ _ => True
    | .build resolved coding =>
      c.CodingMeets (c.unarchive fuel) (Meets use fuel) coding (starting s i resolved)

def Uses (use : Session W → ℕ → Prop) (top : Coding W V L) (s : Session W) : Prop :=
  ∀ fuel, c.CodingMeets (c.unarchive fuel) (c.Meets use fuel) top s

/-- Decoding ends, with one object at most made for each entry, one answer for each entry, and the
scope of the caller as it was after every request. -/
def Rebuilds (top : Coding W V L) (s : Session W) : Prop :=
  ∃ fuel x t, c.exec (c.unarchive fuel) top s = some (x, t) ∧ t.built.Nodup ∧
    (∀ i x y, (i, x) ∈ t.answers → (i, y) ∈ t.answers → x = y) ∧ ∀ p ∈ t.scopes, p.2 = p.1

end Coder

def initForReading (entries : ℕ) (scope : Option ℕ) (w : W) : Session W where
  scope := scope
  alreadyUnarchived := List.replicate entries none
  world := w
  active := []
  built := []
  answers := []
  scopes := []

end Archives

end TouchHle.Foundation

namespace TouchHle.Foundation.Archives

open List Option

variable {W V L : Type} {c : Coder W V L} {n fuel : ℕ} {s t : Session W} {i : ℕ} {x : Id}
  {scope : Option ℕ} {miss : Prop}

def Opening.fills (i : ℕ) : Opening W V L → List ℕ
  | .answer _ => []
  | .record _ _ _ => [i]
  | .build resolved _ => i :: resolved.toList.map Prod.fst

namespace Session

def Answered (s : Session W) (i : ℕ) : Prop := ∃ x, (i, x) ∈ s.answers

def Gives (miss : Prop) (s : Session W) (i : ℕ) (x : Id) : Prop :=
  s.alreadyUnarchived[i]? = some (some x) ∨
    x = nil ∧ (s.alreadyUnarchived[i]? = none ∨ miss ∧ s.alreadyUnarchived[i]? = some none)

lemma Gives.unique {y : Id} (hx : s.Gives miss i x) (hy : s.Gives miss i y) : x = y := by
  obtain hx | ⟨rfl, hx⟩ := hx
  · obtain hy | ⟨-, hy | ⟨-, hy⟩⟩ := hy
    · rw [hx] at hy
      exact some.inj (some.inj hy)
    · exact absurd (hx.symm.trans hy) (by rintro ⟨⟩)
    · exact absurd (hx.symm.trans hy) (by rintro ⟨⟩)
  · obtain hy | ⟨rfl, -⟩ := hy
    · obtain hx | ⟨-, hx⟩ := hx
      · exact absurd (hx.symm.trans hy) (by rintro ⟨⟩)
      · exact absurd (hx.symm.trans hy) (by rintro ⟨⟩)
    · rfl

structure Kept (n : ℕ) (miss : Prop) (s : Session W) : Prop where
  length : s.alreadyUnarchived.length = n
  built : s.built.Nodup
  settled : ∀ i ∈ s.built, i ∈ s.active ∨ ∃ x, s.alreadyUnarchived[i]? = some (some x)
  active : s.active.Nodup
  pending : ∀ i ∈ s.active, s.alreadyUnarchived[i]? = some none ∧ ¬ s.Answered i
  answered : ∀ i x, (i, x) ∈ s.answers → s.Gives miss i x
  restored : ∀ p ∈ s.scopes, p.2 = p.1

lemma kept_initForReading (n : ℕ) (miss : Prop) (scope : Option ℕ) (w : W) :
    Kept n miss (initForReading n scope w) where
  length := length_replicate
  built := nodup_nil
  settled := fun _ h => (by cases h)
  active := nodup_nil
  pending := fun _ h => (by cases h)
  answered := fun _ _ h => (by cases h)
  restored := fun _ h => (by cases h)

lemma Kept.scoped (h : Kept n miss s) (scope : Option ℕ) : Kept n miss { s with scope } :=
  ⟨h.length, h.built, h.settled, h.active, h.pending, h.answered, h.restored⟩

lemma Kept.within (h : Kept n miss s) (world : W) : Kept n miss { s with world } :=
  ⟨h.length, h.built, h.settled, h.active, h.pending, h.answered, h.restored⟩

lemma Kept.returned (h : Kept n miss s) : Kept n miss (s.returned s.scope) where
  __ := h
  restored := by
    rintro p (- | ⟨-, hp⟩)
    · rfl
    · exact h.restored p hp

lemma Kept.answer (h : Kept n miss s) (hi : i ∉ s.active) (hx : s.Gives miss i x) : Kept n miss (s.answer i x) where
  __ := h
  pending := by
    intro j hj
    refine ⟨(h.pending j hj).1, ?_⟩
    rintro ⟨y, - | ⟨-, hy⟩⟩
    · exact hi hj
    · exact (h.pending j hj).2 ⟨y, hy⟩
  answered := by
    rintro j y (- | ⟨-, hy⟩)
    · exact hx
    · exact h.answered j y hy

lemma getElem?_fill (s : Session W) (i j : ℕ) (x : Id) (hi : i < s.alreadyUnarchived.length) :
    (s.fill i x).alreadyUnarchived[j]? = if i = j then some (some x) else s.alreadyUnarchived[j]? := by
  rw [fill, getElem?_set]
  split_ifs <;> rfl

lemma Kept.fill (h : Kept n miss s) (hi : s.alreadyUnarchived[i]? = some none) (hactive : i ∉ s.active)
    (hanswered : ¬ s.Answered i) : Kept n miss (s.fill i x) := by
  have hlt : i < s.alreadyUnarchived.length := (List.getElem?_eq_some_iff.mp hi).1
  refine ⟨?_, h.built, fun j hj => ?_, h.active, fun j hj => ?_, fun j y hy => ?_, h.restored⟩
  · rw [Session.fill, length_set]
    exact h.length
  · obtain hj | ⟨y, hy⟩ := h.settled j hj
    · exact .inl hj
    · right
      rw [getElem?_fill s i j x hlt]
      split_ifs
      · exact ⟨x, rfl⟩
      · exact ⟨y, hy⟩
  · have hne : i ≠ j := fun hij => hactive (hij ▸ hj)
    rw [getElem?_fill s i j x hlt, if_neg hne]
    exact h.pending j hj
  · have hne : i ≠ j := fun hij => hanswered ⟨y, hij ▸ hy⟩
    simp only [Gives, getElem?_fill s i j x hlt, if_neg hne]
    exact h.answered j y hy

lemma Kept.not_built (h : Kept n miss s) (hi : s.alreadyUnarchived[i]? = some none)
    (hactive : i ∉ s.active) : i ∉ s.built := by
  intro hbuilt
  obtain hi' | ⟨x, hx⟩ := h.settled i hbuilt
  · exact hactive hi'
  · rw [hi] at hx
    cases some.inj hx

lemma Kept.conclude (h : Kept n miss t) (hi : t.alreadyUnarchived[i]? = some none)
    (hactive : i ∉ t.active) (hanswered : ¬ t.Answered i) :
    Kept n miss (c.conclude i x t).2 := by
  have hfill := (h.within (c.finish t.world x).2).fill (x := (c.finish t.world x).1) hi hactive hanswered
  have hlt : i < t.alreadyUnarchived.length := (List.getElem?_eq_some_iff.mp hi).1
  exact hfill.answer hactive (.inl ((getElem?_fill t i i _ hlt).trans (if_pos rfl)))

lemma Kept.close (h : Kept n miss t) {a : List ℕ} (ha : t.active = i :: a) :
    Kept n miss (c.conclude i x { t with scope := scope, active := a }).2 := by
  have hi := h.pending i (ha ▸ mem_cons_self)
  have hlt : i < t.alreadyUnarchived.length := (List.getElem?_eq_some_iff.mp hi.1).1
  have hnodup := nodup_cons.mp (ha ▸ h.active)
  have hget := fun j => getElem?_fill t i j (c.finish t.world x).1 hlt
  refine ⟨?_, h.built, fun j hj => ?_, hnodup.2, fun j hj => ?_, ?_, h.restored⟩
  · exact length_set.trans h.length
  · by_cases hij : i = j
    · exact .inr ⟨_, (hget j).trans (if_pos hij)⟩
    · obtain hj | ⟨y, hy⟩ := h.settled j hj
      · obtain rfl | hj := mem_cons.mp (ha ▸ hj)
        · exact absurd rfl hij
        · exact .inl hj
      · exact .inr ⟨y, (hget j).trans ((if_neg hij).trans hy)⟩
  · have hij : i ≠ j := fun hij => hnodup.1 (hij ▸ hj)
    have hold := h.pending j (ha ▸ mem_cons_of_mem i hj)
    refine ⟨(hget j).trans ((if_neg hij).trans hold.1), ?_⟩
    rintro ⟨y, - | ⟨-, hy⟩⟩
    · exact hij rfl
    · exact hold.2 ⟨y, hy⟩
  · rintro j y (- | ⟨-, hy⟩)
    · exact .inl ((hget i).trans (if_pos rfl))
    · have hij : i ≠ j := fun hij => hi.2 ⟨y, hij ▸ hy⟩
      have hsame := (hget j).trans (if_neg hij)
      obtain hold | ⟨hold, hnone⟩ := h.answered j y hy
      · exact .inl (hsame.trans hold)
      · exact .inr ⟨hold, hnone.imp hsame.trans (And.imp_right hsame.trans)⟩

lemma Kept.starting (h : Kept n miss s) {resolved : Option (ℕ × Id)} {coding : Coding W V L}
    (hnone : ∀ k ∈ (Opening.build resolved coding).fills i, s.alreadyUnarchived[k]? = some none)
    (hnodup : ((Opening.build resolved coding).fills i).Nodup)
    (hfresh : ∀ k ∈ (Opening.build resolved coding).fills i, k ∉ s.active ∧ ¬ s.Answered k) :
    Kept n miss (Coder.starting s i resolved) := by
  have hi : i ∈ (Opening.build resolved coding).fills i := mem_cons_self
  have hresolved : Kept n miss (s.resolve resolved) ∧
      (s.resolve resolved).alreadyUnarchived[i]? = some none := by
    cases resolved with
    | none => exact ⟨h, hnone i hi⟩
    | some p =>
      have hp : p.1 ∈ (Opening.build (some p) coding).fills i := by simp [Opening.fills]
      have hne : p.1 ≠ i := by
        intro hpi
        rw [Opening.fills, toList_some, map_singleton, hpi] at hnodup
        exact (nodup_cons.mp hnodup).1 mem_cons_self
      have hlt : p.1 < s.alreadyUnarchived.length := (List.getElem?_eq_some_iff.mp (hnone _ hp)).1
      refine ⟨h.fill (hnone _ hp) (hfresh _ hp).1 (hfresh _ hp).2, ?_⟩
      exact (getElem?_fill s p.1 i p.2 hlt).trans ((if_neg hne).trans (hnone i hi))
  have hsame : (s.resolve resolved).active = s.active ∧ (s.resolve resolved).answers = s.answers := by
    cases resolved <;> exact ⟨rfl, rfl⟩
  obtain ⟨hkept, hnone'⟩ := hresolved
  have hactive : i ∉ (s.resolve resolved).active := by
    rw [hsame.1]
    exact (hfresh i hi).1
  refine ⟨hkept.length, ?_, fun j hj => ?_, ?_, fun j hj => ?_, hkept.answered, hkept.restored⟩
  · exact nodup_cons.mpr ⟨hkept.not_built hnone' hactive, hkept.built⟩
  · obtain rfl | hj := mem_cons.mp hj
    · exact .inl mem_cons_self
    · exact (hkept.settled j hj).imp_left fun hj => mem_cons_of_mem i (hsame.1 ▸ hj)
  · exact nodup_cons.mpr ⟨(hfresh i hi).1, h.active⟩
  · obtain rfl | hj := mem_cons.mp hj
    · refine ⟨hnone', ?_⟩
      rintro ⟨y, hy⟩
      exact (hfresh j hi).2 ⟨y, hsame.2 ▸ hy⟩
    · exact hkept.pending j (hsame.1.symm ▸ hj)

lemma Kept.make (h : Kept n miss s) (hi : i ∉ s.built) (hx : s.alreadyUnarchived[i]? = some (some x)) :
    Kept n miss (s.make i) where
  __ := h
  built := nodup_cons.mpr ⟨hi, h.built⟩
  settled := by
    intro j hj
    obtain rfl | hj := mem_cons.mp hj
    · exact .inr ⟨x, hx⟩
    · exact h.settled j hj

lemma Kept.active_lt (h : Kept n miss s) (hi : s.alreadyUnarchived[i]? = some none)
    (hactive : i ∉ s.active) : s.active.length < n := by
  have hlt : ∀ j ∈ i :: s.active, j ∈ List.range n := by
    intro j hj
    have hnone : s.alreadyUnarchived[j]? = some none := by
      obtain rfl | hj := mem_cons.mp hj
      · exact hi
      · exact (h.pending j hj).1
    exact List.mem_range.mpr (h.length ▸ (List.getElem?_eq_some_iff.mp hnone).1)
  have hnodup : (i :: s.active).Nodup := nodup_cons.mpr ⟨hactive, h.active⟩
  have hle := (hnodup.subperm fun j hj => hlt j hj).length_le
  rw [length_range] at hle
  exact hle

end Session

namespace Coder

open Session

structure Lawful (c : Coder W V L) (n : ℕ) (miss : Prop) : Prop where
  answer : ∀ s i x, s.alreadyUnarchived.length = n → c.opening s i = .answer x → s.Gives miss i x
  fills : ∀ s i, s.alreadyUnarchived.length = n →
    ∀ k ∈ (c.opening s i).fills i, s.alreadyUnarchived[k]? = some none

def Fresh (c : Coder W V L) (s : Session W) (i : ℕ) : Prop :=
  i ∉ s.active ∧ ((c.opening s i).fills i).Nodup ∧
    ∀ k ∈ (c.opening s i).fills i, k ∉ s.active ∧ ¬ s.Answered k

def Serves (n : ℕ) (miss : Prop) (ask : Session W → ℕ → Option (Id × Session W)) (s : Session W) (i : ℕ) : Prop :=
  ∃ x t, ask s i = some (x, t) ∧ Kept n miss t ∧ t.active = s.active ∧ t.scope = s.scope

variable {ask : Session W → ℕ → Option (Id × Session W)} {meets : Session W → ℕ → Prop} {a : List ℕ}

lemma serves_list (hask : ∀ s i, Kept n miss s → s.active = a → meets s i → Serves n miss ask s i)
    {is : List ℕ} (h : Kept n miss s) (ha : s.active = a) (hmeets : c.ListMeets ask meets is s) :
    ∃ xs t, c.decodeList ask is s = some (xs, t) ∧ Kept n miss t ∧ t.active = a ∧ t.scope = s.scope := by
  induction is generalizing s with
  | nil => exact ⟨[], s, rfl, h, ha, rfl⟩
  | cons i is ih =>
    obtain ⟨hfirst, hrest⟩ := hmeets
    have hentering : Kept n miss (c.entering s i) ∧ (c.entering s i).active = a := by
      rw [entering]
      split_ifs
      · exact ⟨h.scoped _, ha⟩
      · exact ⟨h, ha⟩
    obtain ⟨x, t, ht, hkept, hactive, hscope⟩ := hask _ i hentering.1 hentering.2 hfirst
    have hleaving : Kept n miss (c.leaving s t) ∧ (c.leaving s t).active = a ∧
        (c.leaving s t).scope = s.scope := by
      rw [leaving]
      rw [entering] at hscope
      split_ifs with hr
      · exact ⟨hkept.scoped _, hactive.trans hentering.2, rfl⟩
      · rw [if_neg hr] at hscope
        exact ⟨hkept, hactive.trans hentering.2, hscope⟩
    obtain ⟨xs, u, hu, hkept', hactive', hscope'⟩ := ih hleaving.1 hleaving.2.1 (hrest x t ht)
    refine ⟨x :: xs, u, ?_, hkept', hactive', hscope'.trans hleaving.2.2⟩
    rw [decodeList, ht]
    exact congrArg (·.bind fun p => some (x :: p.1, p.2)) hu

lemma serves_coding (hask : ∀ s i, Kept n miss s → s.active = a → meets s i → Serves n miss ask s i)
    {coding : Coding W V L} (h : Kept n miss s) (ha : s.active = a)
    (hmeets : c.CodingMeets ask meets coding s) :
    ∃ x t, c.exec ask coding s = some (x, t) ∧ Kept n miss t ∧ t.active = a ∧ t.scope = s.scope := by
  induction coding generalizing s with
  | done object w => exact ⟨object, _, rfl, h.within w, ha, rfl⟩
  | value key next ih =>
    rw [exec]
    exact ih _ h ha hmeets
  | object key w next ih =>
    rw [exec]
    rw [CodingMeets] at hmeets
    cases hi : (c.lookup s.scope key).bind c.reference with
    | none =>
      rw [hi] at hmeets
      exact ih _ _ h ha hmeets
    | some i =>
      rw [hi] at hmeets
      obtain ⟨x, t, ht, hkept, hactive, hscope⟩ := hask _ i (h.within w) ha hmeets.1
      have hreturned : Kept n miss (t.returned s.scope) := by
        rw [show s.scope = t.scope from hscope.symm]
        exact hkept.returned
      obtain ⟨y, u, hu, hkept', hactive', hscope'⟩ :=
        ih _ _ hreturned (hactive.trans ha) (hmeets.2 x t ht)
      refine ⟨y, u, ?_, hkept', hactive', hscope'.trans hscope⟩
      dsimp only
      rw [ht]
      exact hu
  | list name w next ih =>
    rw [exec]
    obtain ⟨hlist, hrest⟩ := hmeets
    obtain ⟨xs, t, ht, hkept, hactive, hscope⟩ := serves_list hask (h.within w) ha hlist
    have hreturned : Kept n miss (t.returned s.scope) := by
      rw [show s.scope = t.scope from hscope.symm]
      exact hkept.returned
    obtain ⟨y, u, hu, hkept', hactive', hscope'⟩ := ih _ _ hreturned hactive (hrest xs t ht)
    refine ⟨y, u, ?_, hkept', hactive', hscope'.trans hscope⟩
    rw [ht]
    exact hu

lemma serves_unarchive {use : Session W → ℕ → Prop} (hc : c.Lawful n miss)
    (huse : ∀ s i, Kept n miss s → use s i → c.Fresh s i) (h : Kept n miss s)
    (hfuel : n < fuel + s.active.length) (hmeets : c.Meets use fuel s i) :
    Serves n miss (c.unarchive fuel) s i := by
  induction fuel generalizing s i with
  | zero =>
    have hle : s.active.length ≤ n := by
      have hsub : ∀ j ∈ s.active, j ∈ List.range n := fun j hj =>
        List.mem_range.mpr (h.length ▸ (List.getElem?_eq_some_iff.mp (h.pending j hj).1).1)
      have hlength := (h.active.subperm fun j hj => hsub j hj).length_le
      rwa [length_range] at hlength
    omega
  | succ fuel ih =>
    obtain ⟨hfirst, hnested⟩ := hmeets
    obtain ⟨hactive, hnodup, hfresh⟩ := huse s i h hfirst
    have hnone := hc.fills s i h.length
    rw [Serves, unarchive]
    cases hopen : c.opening s i with
    | answer x =>
      exact ⟨x, _, rfl, h.answer hactive (hc.answer s i x h.length hopen), rfl, rfl⟩
    | record made x w =>
      rw [hopen] at hnone hfresh
      have hi : s.alreadyUnarchived[i]? = some none := hnone i mem_cons_self
      have hkept := (h.within w).conclude (c := c) (x := x) hi hactive (hfresh i mem_cons_self).2
      cases made with
      | false => exact ⟨_, _, rfl, hkept, rfl, rfl⟩
      | true =>
        have hlt : i < s.alreadyUnarchived.length := (List.getElem?_eq_some_iff.mp hi).1
        have hmade := hkept.make (h.not_built hi hactive)
          ((getElem?_fill s i i _ hlt).trans (if_pos rfl))
        exact ⟨_, _, rfl, hmade, rfl, rfl⟩
    | build resolved coding =>
      rw [hopen] at hnone hfresh hnodup hnested
      have hstart := h.starting hnone hnodup hfresh
      have hlt := h.active_lt (hnone i mem_cons_self) hactive
      have hlength : (starting s i resolved).active.length = s.active.length + 1 := rfl
      obtain ⟨x, t, ht, hkept, hactive', -⟩ := serves_coding
        (fun s' j hs' ha hj => ih hs' (by rw [ha, hlength]; omega) hj) hstart rfl hnested
      refine ⟨(c.conclude i x (ending s t)).1, (c.conclude i x (ending s t)).2, ?_,
        hkept.close hactive', rfl, rfl⟩
      dsimp only
      rw [ht]
      rfl

lemma exec_object {key : String} {w : W} {next : Id → W → Coding W V L}
    (hi : (c.lookup s.scope key).bind c.reference = some i)
    (hask : ask { s with world := w } i = none) : c.exec ask (.object key w next) s = none := by
  rw [exec, hi]
  dsimp only
  rw [hask]
  rfl

lemma unarchive_build {resolved : Option (ℕ × Id)} {coding : Coding W V L}
    (hopen : c.opening s i = .build resolved coding)
    (hexec : c.exec (c.unarchive fuel) coding (starting s i resolved) = none) :
    c.unarchive (fuel + 1) s i = none := by
  rw [unarchive, hopen]
  dsimp only
  rw [hexec]
  rfl

theorem rebuilds_of_uses {use : Session W → ℕ → Prop} (hc : c.Lawful n miss)
    (huse : ∀ s i, Kept n miss s → use s i → c.Fresh s i) (h : Kept n miss s) (hactive : s.active = [])
    {top : Coding W V L} (hmeets : c.Uses use top s) : c.Rebuilds top s := by
  obtain ⟨x, t, ht, hkept, -⟩ := serves_coding
    (fun s' i hs' ha hi => serves_unarchive hc huse hs'
      (by rw [ha, hactive, length_nil]; omega) hi) h rfl (hmeets (n + 1))
  exact ⟨n + 1, x, t, ht, hkept.built,
    fun i x y hx hy => (hkept.answered i x hx).unique (hkept.answered i y hy), hkept.restored⟩

end Coder

end TouchHle.Foundation.Archives
