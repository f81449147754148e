import TouchHle.Lib.RefHeap
import TouchHle.Foundation.Decoders

namespace TouchHle.Foundation.Archives

open Lib

structure World (G : Type) where
  guest : G
  heap : RefHeap
  pool : List Id
  kept : Multiset Id

variable {G V L : Type}

namespace World

structure Owned (statics : ℕ) (w : World G) (owners : Multiset Id) : Prop where
  statics : w.heap.statics = statics
  owned : w.heap.Owned (owners + w.pool + w.kept)

def lend (w : World G) (x : Id) : World G :=
  if x = nil then w else { w with heap := w.heap.retain x, pool := w.pool ++ [x] }

end World

def onBehalf : Coding (World G) V L → Coding (World G) V L
  | .done x w => .done x w
  | .value key next => .value key fun v => onBehalf (next v)
  | .object key w next => .object key w fun x w => onBehalf (next x (w.lend x))
  | .list name w next => .list name w fun xs w => onBehalf (next xs w)

def Sound (statics : ℕ) (result : Id → Multiset Id) : Coding (World G) V L → Multiset Id → Prop
  | .done x w, others => w.Owned statics (result x + others)
  | .value _ next, others => ∀ v, Sound statics result (next v) others
  | .object _ w next, others => ∃ own, w.Owned statics (own + others) ∧
      ∀ others' x w', w'.Owned statics (own + others') → (statics ≤ x → w'.heap.count x ≠ 0) →
        Sound statics result (next x w') others'
  | .list _ w next, others => ∃ own, w.Owned statics (own + others) ∧
      ∀ others' xs w', w'.Owned statics (own + others') → (∀ x ∈ xs, statics ≤ x → w'.heap.count x ≠ 0) →
        Sound statics result (next xs w') others'

def noted (s : Session (World G)) : List Id := s.alreadyUnarchived.filterMap id

def settled (s : Session (World G)) : RefHeap := (s.world.heap.drain s.world.pool).drain (noted s)

def Settled (statics : ℕ) (s : Session (World G)) (others : Multiset Id) : Prop :=
  (settled s).faulted = false ∧ ∀ x, statics ≤ x → (settled s).count x ≠ 0 →
    x ∈ others + s.world.kept ∨ ∃ y, (settled s).count y ≠ 0 ∧ x ∈ (settled s).items y

end Archives

namespace KeyedUnarchiver

open Archives

variable {G : Type}

def Guest.lending (g : Guest (World G)) : Guest (World G) :=
  { g with initWithCoder := fun w x => onBehalf (g.initWithCoder w x) }

/-- Classes are static, a new object is its maker's, and `initWithCoder:` takes its object and gives
one. A delegate keeps what it returns. -/
structure Guest.Balanced (statics : ℕ) (g : Guest (World G)) : Prop where
  getKnownClass : ∀ w name others, w.Owned statics others →
    (g.getKnownClass w name).2.Owned statics others ∧ (g.getKnownClass w name).1 < statics
  alloc : ∀ w cls others, w.Owned statics others →
    (g.alloc w cls).2.Owned statics ((g.alloc w cls).1 ::ₘ others)
  initWithCoder : ∀ w x others, w.Owned statics (x ::ₘ others) →
    Sound statics (fun y => {y}) (g.initWithCoder w x) others
  makeLeaf : ∀ w leaf others, w.Owned statics others →
    (g.makeLeaf w leaf).2.Owned statics ((g.makeLeaf w leaf).1 ::ₘ others)
  didDecodeObject : ∀ f ∈ g.didDecodeObject, ∀ w x others, w.Owned statics others →
    (f w x).2.Owned statics others

def Guest.ReplacesNothing (g : Guest (World G)) : Prop :=
  ∀ f ∈ g.didDecodeObject, ∀ w x, (f w x).1 = nil ∨ (f w x).1 = x

end KeyedUnarchiver

namespace NibArchiveDecoder

open Archives

variable {G : Type}

def Guest.lending (g : Guest (World G)) : Guest (World G) :=
  { g with initWithCoder := fun w x => onBehalf (g.initWithCoder w x) }

structure Guest.Balanced (statics : ℕ) (g : Guest (World G)) : Prop where
  tryGetKnownClass : ∀ w name others, w.Owned statics others → (g.tryGetKnownClass w name).2.Owned statics others
  getKnownClass : ∀ w name others, w.Owned statics others → (g.getKnownClass w name).2.Owned statics others
  alloc : ∀ w cls others, w.Owned statics others →
    (g.alloc w cls).2.Owned statics ((g.alloc w cls).1 ::ₘ others)
  initWithCoder : ∀ w x others, w.Owned statics (x ::ₘ others) →
    Sound statics (fun y => {y}) (g.initWithCoder w x) others

end NibArchiveDecoder

end TouchHle.Foundation

namespace TouchHle.Foundation.Archives

open Lib

variable {G V L : Type} {statics : ℕ} {w : World G} {s t u : Session (World G)} {others owners : Multiset Id}
  {x : Id} {i : ℕ}

namespace World.Owned

lemma of_eq (ho : w.Owned statics owners) (he : owners = others) : w.Owned statics others := he ▸ ho

lemma congr (ho : w.Owned statics owners) (hsame : ∀ x, statics ≤ x → owners.count x = others.count x) :
    w.Owned statics others where
  statics := ho.statics
  owned := ho.owned.congr fun x hx => by
    rw [Multiset.count_add, Multiset.count_add, Multiset.count_add, Multiset.count_add, hsame x (ho.statics ▸ hx)]

lemma alive (ho : w.Owned statics owners) (hx : x ∈ owners) (hs : statics ≤ x) : w.heap.count x ≠ 0 :=
  ho.owned.alive (by simp [hx]) (ho.statics.symm ▸ hs)

lemma lend (ho : w.Owned statics owners) (hx : statics ≤ x → w.heap.count x ≠ 0) :
    (w.lend x).Owned statics owners := by
  rw [World.lend]
  split_ifs
  · exact ho
  · refine ⟨(RefHeap.statics_retain _ _).trans ho.statics, ?_⟩
    refine (ho.owned.retain fun hs => hx (ho.statics ▸ hs)).of_eq ?_
    rw [← Multiset.coe_add, Multiset.coe_singleton, ← Multiset.singleton_add]
    abel

end World.Owned

lemma lend_alive (w : World G) {y : Id} (hy : w.heap.count y ≠ 0) : (w.lend x).heap.count y ≠ 0 := by
  rw [World.lend]
  split_ifs
  · exact hy
  · exact RefHeap.count_retain_ne_zero hy

lemma filterMap_set (l : List (Option Id)) (x : Id) : ∀ (i : ℕ) (old : Option Id), l[i]? = some old →
    (((l.set i (some x)).filterMap id : List Id) : Multiset Id) + (old.toList : Multiset Id) =
      x ::ₘ ((l.filterMap id : List Id) : Multiset Id) := by
  induction l with
  | nil => exact fun i old h => by cases h
  | cons a l ih =>
    intro i old h
    cases i with
    | zero =>
      obtain rfl := Option.some.inj h
      cases a with
      | none => simp
      | some y =>
        simp only [List.set_cons_zero, List.filterMap_cons, id_eq, Option.toList_some, Multiset.coe_add,
          Multiset.cons_coe, Multiset.coe_eq_coe]
        exact (List.perm_append_singleton y _).cons x |>.trans (.refl _)
    | succ i =>
      have hrest := ih i old h
      cases a with
      | none => simpa using hrest
      | some y =>
        change ((y :: (l.set i (some x)).filterMap id : List Id) : Multiset Id) + _ =
          x ::ₘ ((y :: l.filterMap id : List Id) : Multiset Id)
        rw [← Multiset.cons_coe, ← Multiset.cons_coe, Multiset.cons_add, hrest, Multiset.cons_swap]

lemma noted_fill {old : Option Id} (h : s.alreadyUnarchived[i]? = some old) :
    (noted (s.fill i x) : Multiset Id) + (old.toList : Multiset Id) = x ::ₘ (noted s : Multiset Id) :=
  filterMap_set _ x i old h

def Quiet (statics : ℕ) (s : Session (World G)) : Prop :=
  ∀ i ∈ s.active, ∀ x, s.alreadyUnarchived[i]? = some (some x) → x < statics

structure Ledger (statics : ℕ) (s : Session (World G)) (others : Multiset Id) : Prop where
  owned : s.world.Owned statics (noted s + others)
  active : Quiet statics s

structure Extends (statics : ℕ) (s t : Session (World G)) : Prop where
  active : t.active = s.active
  length : t.alreadyUnarchived.length = s.alreadyUnarchived.length
  noted : ∀ x, statics ≤ x → x ∈ noted s → x ∈ noted t

lemma Extends.refl (s : Session (World G)) : Extends statics s s := ⟨rfl, rfl, fun _ _ h => h⟩

lemma Extends.trans (hst : Extends statics s t) (htu : Extends statics t u) : Extends statics s u :=
  ⟨htu.active.trans hst.active, htu.length.trans hst.length, fun x hs hx => htu.noted x hs (hst.noted x hs hx)⟩

structure Serves (statics : ℕ) (s t : Session (World G)) (others : Multiset Id) (x : Id) : Prop where
  ledger : Ledger statics t others
  kept : Extends statics s t
  answer : statics ≤ x → x ∈ noted t

lemma Serves.alive (hs : Serves statics s t others x) : statics ≤ x → t.world.heap.count x ≠ 0 := fun hx =>
  hs.ledger.owned.alive (Multiset.mem_add.mpr (.inl (Multiset.mem_coe.mpr (hs.answer hx)))) hx

def AskServes (statics : ℕ) (ask : Session (World G) → ℕ → Option (Id × Session (World G)))
    (meets : Session (World G) → ℕ → Prop) : Prop :=
  ∀ s i x t others, Ledger statics s others → meets s i → ask s i = some (x, t) → Serves statics s t others x

variable {c : Coder (World G) V L} {ask : Session (World G) → ℕ → Option (Id × Session (World G))}
  {meets : Session (World G) → ℕ → Prop}

lemma Ledger.scoped (h : Ledger statics s others) (scope : Option ℕ) : Ledger statics { s with scope } others :=
  ⟨h.owned, h.active⟩

lemma Ledger.entering (h : Ledger statics s others) (i : ℕ) : Ledger statics (c.entering s i) others := by
  rw [Coder.entering]
  split_ifs
  · exact h.scoped _
  · exact h

lemma Serves.leaving (h : Serves statics (c.entering s i) t others x) :
    Serves statics s (c.leaving s t) others x := by
  obtain ⟨hledger, hkept, hanswer⟩ := h
  rw [Coder.entering] at hkept
  rw [Coder.leaving]
  split_ifs at hkept ⊢
  · exact ⟨hledger.scoped _, ⟨hkept.active, hkept.length, hkept.noted⟩, hanswer⟩
  · exact ⟨hledger, hkept, hanswer⟩

lemma serves_list (hask : AskServes statics ask meets) (is : List ℕ) :
    ∀ (s : Session (World G)) (xs : List Id) (t : Session (World G)), Ledger statics s others →
      c.ListMeets ask meets is s → c.decodeList ask is s = some (xs, t) →
      Ledger statics t others ∧ Extends statics s t ∧ ∀ x ∈ xs, statics ≤ x → x ∈ noted t := by
  induction is with
  | nil =>
    rintro s xs t h - ⟨⟩
    exact ⟨h, .refl s, fun x hx => absurd hx List.not_mem_nil⟩
  | cons i is ih =>
    intro s xs t h hmeets hrun
    rw [Coder.decodeList] at hrun
    obtain ⟨⟨x, u⟩, hfirst, hrun⟩ := Option.bind_eq_some_iff.mp hrun
    obtain ⟨⟨ys, v⟩, hrest, hrun⟩ := Option.bind_eq_some_iff.mp hrun
    obtain ⟨rfl, rfl⟩ := Prod.mk.inj (Option.some.inj hrun)
    have hserved := (hask _ i x u others (h.entering i) hmeets.1 hfirst).leaving
    obtain ⟨hledger, hkept, hitems⟩ := ih _ ys v hserved.ledger (hmeets.2 x u hfirst) hrest
    refine ⟨hledger, hserved.kept.trans hkept, fun y hy hs => ?_⟩
    obtain rfl | hy := List.mem_cons.mp hy
    · exact hkept.noted y hs (hserved.answer hs)
    · exact hitems y hy hs

lemma serves_coding (hask : AskServes statics ask meets) (hnil : nil < statics) (result : Id → Multiset Id)
    (raw : Coding (World G) V L) : ∀ (s : Session (World G)) (x : Id) (t : Session (World G)),
      Quiet statics s → Sound statics result raw (noted s + others) →
      c.CodingMeets ask meets (onBehalf raw) s → c.exec ask (onBehalf raw) s = some (x, t) →
      Ledger statics t (result x + others) ∧ Extends statics s t := by
  induction raw with
  | done y w =>
    rintro s x t h hsound - ⟨⟩
    refine ⟨⟨hsound.of_eq ?_, h⟩, ⟨rfl, rfl, fun _ _ h => h⟩⟩
    change _ = (noted s : Multiset Id) + _
    abel
  | value key next ih =>
    intro s x t h hsound hmeets hrun
    exact ih _ s x t h (hsound _) hmeets hrun
  | object key w next ih =>
    intro s x t h hsound hmeets hrun
    obtain ⟨own, howned, hnext⟩ := hsound
    rw [onBehalf, Coder.exec] at hrun
    rw [onBehalf, Coder.CodingMeets] at hmeets
    cases hfound : (c.lookup s.scope key).bind c.reference with
    | none =>
      rw [hfound] at hrun hmeets
      have hlend : w.lend nil = w := if_pos rfl
      dsimp only at hrun hmeets
      rw [hlend] at hrun hmeets
      exact ih nil w s x t h (hnext _ nil w howned fun hle => absurd hnil (not_lt.mpr hle)) hmeets hrun
    | some i =>
      rw [hfound] at hrun hmeets
      obtain ⟨⟨y, u⟩, hasked, hrun⟩ := Option.bind_eq_some_iff.mp hrun
      have hstart : Ledger statics { s with world := w } (own + others) :=
        ⟨howned.of_eq (show own + (noted s + others) = noted s + (own + others) by abel), h⟩
      have hserved := hask _ i y u _ hstart hmeets.1 hasked
      have hlent := (hserved.ledger.owned.lend hserved.alive).of_eq
        (by abel : _ = own + (noted u + others))
      have hsound' := hnext _ y _ hlent fun hs => lend_alive _ (hserved.alive hs)
      obtain ⟨hledger, hkept⟩ := ih y _ (u.returned s.scope) x t hserved.ledger.active hsound'
        (hmeets.2 y u hasked) hrun
      exact ⟨hledger, ⟨hkept.active.trans hserved.kept.active, hkept.length.trans hserved.kept.length,
        fun z hs hz => hkept.noted z hs (hserved.kept.noted z hs hz)⟩⟩
  | list name w next ih =>
    intro s x t h hsound hmeets hrun
    obtain ⟨own, howned, hnext⟩ := hsound
    rw [onBehalf, Coder.exec] at hrun
    rw [onBehalf, Coder.CodingMeets] at hmeets
    obtain ⟨⟨ys, u⟩, hasked, hrun⟩ := Option.bind_eq_some_iff.mp hrun
    have hstart : Ledger statics { s with world := w } (own + others) :=
      ⟨howned.of_eq (show own + (noted s + others) = noted s + (own + others) by abel), h⟩
    obtain ⟨hledger, hkept, hitems⟩ := serves_list hask _ _ ys u hstart hmeets.1 hasked
    have hsound' := hnext _ ys _ (hledger.owned.of_eq (by abel : _ = own + (noted u + others)))
      fun y hy hs => hledger.owned.alive (Multiset.mem_add.mpr (.inl (Multiset.mem_coe.mpr (hitems y hy hs)))) hs
    obtain ⟨hledger', hkept'⟩ := ih ys _ (u.returned s.scope) x t hledger.active hsound'
      (hmeets.2 ys u hasked) hrun
    exact ⟨hledger', ⟨hkept'.active.trans hkept.active, hkept'.length.trans hkept.length,
      fun z hs hz => hkept'.noted z hs (hkept.noted z hs hz)⟩⟩

structure Owning (statics : ℕ) (c : Coder (World G) V L) : Prop where
  answer : ∀ s i x, c.opening s i = .answer x → x = nil ∨ s.alreadyUnarchived[i]? = some (some x)
  record : ∀ s i made x w, c.opening s i = .record made x w → s.alreadyUnarchived[i]? = some none ∧
    ∀ others, s.world.Owned statics others → w.Owned statics (x ::ₘ others)
  build : ∀ s i resolved coding, c.opening s i = .build resolved coding → s.alreadyUnarchived[i]? = some none ∧
    (∀ p ∈ resolved, s.alreadyUnarchived[p.1]? = some none) ∧
    ∃ raw, coding = onBehalf raw ∧ ∀ others, s.world.Owned statics others →
      (∀ p ∈ resolved, p.2 < statics) ∧ Sound statics (fun y => {y}) raw others
  finish : ∀ w x, (c.finish w x).1 = x ∧ ∀ others, w.Owned statics others → (c.finish w x).2.Owned statics others

lemma mem_noted : x ∈ noted s ↔ ∃ i : ℕ, s.alreadyUnarchived[i]? = some (some x) := by
  rw [noted, List.mem_filterMap]
  constructor
  · rintro ⟨y, hy, rfl⟩
    exact List.mem_iff_getElem?.mp hy
  · rintro ⟨i, hi⟩
    exact ⟨some x, List.mem_iff_getElem?.mpr ⟨i, hi⟩, rfl⟩

lemma noted_fill_mem {old : Option Id} (h : s.alreadyUnarchived[i]? = some old) (hold : ∀ y ∈ old, y < statics) {y : Id}
    (hs : statics ≤ y) (hy : y ∈ noted s) : y ∈ noted (s.fill i x) := by
  obtain ⟨j, hj⟩ := mem_noted.mp hy
  refine mem_noted.mpr ⟨j, (List.getElem?_set_ne ?_).trans hj⟩
  rintro rfl
  obtain rfl := Option.some.inj (h.symm.trans hj)
  exact absurd (hold y rfl) (not_lt.mpr hs)

lemma serves_conclude (hc : Owning statics c) {old : Option Id} (h : s.alreadyUnarchived[i]? = some old)
    (hold : ∀ y ∈ old, y < statics) (howned : s.world.Owned statics (x ::ₘ (noted s + others)))
    (hquiet : Quiet statics s) (hi : i ∉ s.active) :
    (c.conclude i x s).1 = x ∧ Serves statics s (c.conclude i x s).2 others x := by
  obtain ⟨hx, hfinish⟩ := hc.finish s.world x
  have hlt : i < s.alreadyUnarchived.length := (List.getElem?_eq_some_iff.mp h).1
  rw [Coder.conclude]
  dsimp only
  rw [hx]
  refine ⟨rfl, ⟨⟨?_, fun j hj y hy => ?_⟩, ⟨rfl, List.length_set .., fun y hs hy => noted_fill_mem h hold hs hy⟩,
    fun _ => mem_noted.mpr ⟨i, List.getElem?_set_self hlt⟩⟩⟩
  · refine (hfinish _ howned).congr fun y hs => ?_
    have hfill := congrArg (Multiset.count y) (noted_fill (x := x) h)
    have hnot : y ∉ (old.toList : Multiset Id) := fun hmem =>
      absurd (hold y (Option.mem_toList.mp (Multiset.mem_coe.mp hmem))) (not_lt.mpr hs)
    rw [Multiset.count_add, Multiset.count_eq_zero_of_notMem hnot, add_zero] at hfill
    rw [← Multiset.cons_add, Multiset.count_add, Multiset.count_add, ← hfill]
    rfl
  · have hne : i ≠ j := by
      rintro rfl
      exact hi hj
    exact hquiet j hj y ((List.getElem?_set_ne hne).symm.trans hy)

structure Resolves (statics : ℕ) (s t : Session (World G)) : Prop where
  count : ∀ x, statics ≤ x → (noted s : Multiset Id).count x = (noted t : Multiset Id).count x
  entry : ∀ (i : ℕ) x, t.alreadyUnarchived[i]? = some (some x) → x < statics ∨ s.alreadyUnarchived[i]? = some (some x)
  length : t.alreadyUnarchived.length = s.alreadyUnarchived.length
  noted : ∀ x, statics ≤ x → x ∈ noted s → x ∈ noted t

lemma starting_resolves {resolved : Option (ℕ × Id)} (hclass : ∀ p ∈ resolved, p.2 < statics)
    (hnone : ∀ p ∈ resolved, s.alreadyUnarchived[p.1]? = some none) :
    Resolves statics s (Coder.starting s i resolved) := by
  cases resolved with
  | none => exact ⟨fun _ _ => rfl, fun _ _ h => .inr h, rfl, fun _ _ h => h⟩
  | some p =>
    have hp := hnone p rfl
    have hstatic := hclass p rfl
    refine ⟨fun y hs => ?_, fun j y hy => ?_, List.length_set .., fun y hs hy => ?_⟩
    · have hfill := congrArg (Multiset.count y) (noted_fill (x := p.2) hp)
      rw [Option.toList_none, Multiset.coe_nil, add_zero,
        Multiset.count_cons_of_ne (hstatic.trans_le hs).ne'] at hfill
      exact hfill.symm
    · change (s.alreadyUnarchived.set p.1 (some p.2))[j]? = some (some y) at hy
      by_cases hj : p.1 = j
      · subst hj
        rw [List.getElem?_set_self (List.getElem?_eq_some_iff.mp hp).1] at hy
        obtain rfl := Option.some.inj (Option.some.inj hy)
        exact .inl hstatic
      · rw [List.getElem?_set_ne hj] at hy
        exact .inr hy
    · exact noted_fill_mem hp (fun z hz => by cases hz) hs hy

def Fresh (s : Session (World G)) (i : ℕ) : Prop := i ∉ s.active

lemma serves_unarchive (hc : Owning statics c) (hnil : nil < statics) (fuel : ℕ) :
    AskServes statics (c.unarchive fuel) (c.Meets Fresh fuel) := by
  induction fuel with
  | zero => exact fun s i x t others _ _ h => by cases h
  | succ fuel ih =>
    intro s i x t others h hmeets hrun
    rw [Coder.Meets] at hmeets
    obtain ⟨hfresh, hmeets⟩ := hmeets
    rw [Coder.unarchive] at hrun
    cases hopening : c.opening s i with
    | answer y =>
      rw [hopening] at hrun
      obtain ⟨rfl, rfl⟩ := Prod.mk.inj (Option.some.inj hrun)
      refine ⟨⟨h.owned, h.active⟩, ⟨rfl, rfl, fun _ _ h => h⟩, fun hs => ?_⟩
      obtain rfl | hnoted := hc.answer s i y hopening
      · exact absurd hnil (not_lt.mpr hs)
      · exact mem_noted.mpr ⟨i, hnoted⟩
    | record made y w =>
      rw [hopening] at hrun
      obtain ⟨hnone, howned⟩ := hc.record s i made y w hopening
      have hshape : ∀ v : Session (World G), v.alreadyUnarchived = s.alreadyUnarchived → v.active = s.active →
          v.world = w → c.conclude i y v = (x, t) → Serves statics s t others x := by
        rintro v hv hactive rfl hconclude
        have hv' : v.world.Owned statics (y ::ₘ (noted v + others)) :=
          (howned _ h.owned).of_eq (by rw [noted, noted, hv])
        obtain ⟨hx, hserved⟩ := serves_conclude hc (hv ▸ hnone) (fun z hz => by cases hz) hv'
          (fun j hj z hz => h.active j (hactive ▸ hj) z (hv ▸ hz)) (hactive ▸ hfresh)
        rw [hconclude] at hx hserved
        obtain rfl : x = y := hx
        exact ⟨hserved.ledger, ⟨hserved.kept.active.trans hactive, hserved.kept.length.trans (congrArg _ hv),
          fun z hs hz => hserved.kept.noted z hs (by rwa [noted, hv])⟩, hserved.answer⟩
      exact hshape { (if made then s.make i else s) with world := w } (by cases made <;> rfl)
        (by cases made <;> rfl) rfl (Option.some.inj hrun)
    | build resolved coding =>
      rw [hopening] at hrun hmeets
      obtain ⟨⟨y, u⟩, hexec, hconclude⟩ := Option.bind_eq_some_iff.mp hrun
      obtain ⟨hnone, hresolved, raw, rfl, hsound⟩ := hc.build s i resolved coding hopening
      have hclass := (hsound _ h.owned).1
      have hstart := starting_resolves hclass hresolved (i := i)
      have hsound' := (hsound (noted (Coder.starting s i resolved) + others) (h.owned.congr fun z hs => by
        rw [Multiset.count_add, Multiset.count_add, hstart.count z hs])).2
      have hquiet : Quiet statics (Coder.starting s i resolved) := by
        intro j hj z hz
        obtain hstatic | hbefore := hstart.entry j z hz
        · exact hstatic
        · obtain rfl | hactive := List.mem_cons.mp hj
          · cases hnone.symm.trans hbefore
          · exact h.active j hactive z hbefore
      obtain ⟨hledger, hkept⟩ := serves_coding ih hnil _ raw _ y u hquiet hsound' hmeets hexec
      have hactive : u.active = i :: s.active := hkept.active
      have hlength : u.alreadyUnarchived.length = s.alreadyUnarchived.length := hkept.length.trans hstart.length
      obtain ⟨old, hold⟩ : ∃ old, (Coder.ending s u).alreadyUnarchived[i]? = some old :=
        ⟨_, List.getElem?_eq_getElem (hlength ▸ (List.getElem?_eq_some_iff.mp hnone).1)⟩
      have hended : (Coder.ending s u).world.Owned statics (y ::ₘ (noted (Coder.ending s u) + others)) :=
        hledger.owned.of_eq (by
          change (noted u : Multiset Id) + ({y} + others) = y ::ₘ ((noted u : Multiset Id) + others)
          rw [← Multiset.singleton_add]
          abel)
      obtain ⟨hx, hserved⟩ := serves_conclude hc hold
        (fun z hz => hledger.active i (hactive ▸ List.mem_cons_self) z (hold.trans (congrArg some hz))) hended
        (fun j hj z hz => hledger.active j (hactive ▸ List.mem_cons_of_mem i hj) z hz) hfresh
      rw [Option.some.inj hconclude] at hx hserved
      obtain rfl : x = y := hx
      exact ⟨hserved.ledger, ⟨hserved.kept.active, hserved.kept.length.trans hlength,
        fun z hs hz => hserved.kept.noted z hs (hkept.noted z hs (hstart.noted z hs hz))⟩, hserved.answer⟩

lemma settled_of_uses (hc : Owning statics c) (hnil : nil < statics) {entries : ℕ} {scope : Option ℕ}
    {top : Coding (World G) V L} (htop : Sound statics (fun _ => 0) top others)
    (huses : c.Uses Fresh (onBehalf top) (initForReading entries scope w)) {fuel : ℕ}
    (hrun : c.exec (c.unarchive fuel) (onBehalf top) (initForReading entries scope w) = some (x, t)) :
    Settled statics t others := by
  have hnone : noted (initForReading entries scope w) = [] := by
    rw [noted, initForReading]
    simp
  obtain ⟨hledger, -⟩ := serves_coding (serves_unarchive hc hnil fuel) hnil (fun _ => 0) top _ x t
    (fun i hi => absurd hi List.not_mem_nil) (by rw [hnone]; simpa using htop) (huses fuel) hrun
  have hdrained : (settled t).Owned (others + t.world.kept) := by
    refine RefHeap.Owned.drain _ (RefHeap.Owned.drain _ (hledger.owned.owned.of_eq ?_))
    abel
  have hstatics : (settled t).statics = statics :=
    ((RefHeap.shrinks_drain _ _).statics.trans (RefHeap.shrinks_drain _ _).statics).trans hledger.owned.statics
  exact ⟨hdrained.sound, fun y hs hy => hdrained.retainer hy (hstatics.symm ▸ hs)⟩

end TouchHle.Foundation.Archives
