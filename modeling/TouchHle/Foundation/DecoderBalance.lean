import TouchHle.Foundation.Unarchiving
import TouchHle.Foundation.JsonBalance
import TouchHle.Foundation.ArchiveOwnership

namespace TouchHle.Foundation

open Lib Archives Multiset

variable {G : Type} {statics : ℕ} {s : Session (World G)} {w : World G} {i : ℕ} {others : Multiset Archives.Id}

namespace KeyedUnarchiver

variable {g : Guest (World G)} {plist : Dictionary}

lemma classOf_balanced (hg : g.Balanced statics) {objects : List Plist} {classKey : ℕ}
    {resolved : Option (ℕ × Archives.Id)} {cls : Archives.Id} (h : classOf g objects s classKey = some (resolved, cls, w))
    (ho : s.world.Owned statics others) : (∀ p ∈ resolved, p.2 < statics) ∧ w.Owned statics others := by
  rw [classOf] at h
  replace h := Option.bind_eq_some_iff.mp h
  obtain ⟨known, -, h⟩ := h
  cases known with
  | some existing =>
    obtain ⟨rfl, hrest⟩ := Prod.mk.inj (Option.some.inj h)
    obtain ⟨rfl, rfl⟩ := Prod.mk.inj hrest
    exact ⟨fun p hp => (by cases hp), ho⟩
  | none =>
    simp only [Option.bind_eq_bind, Option.bind_eq_some_iff] at h
    obtain ⟨_, _, _, _, className, _, hfound⟩ := h
    obtain ⟨rfl, hrest⟩ := Prod.mk.inj (Option.some.inj hfound)
    obtain ⟨rfl, rfl⟩ := Prod.mk.inj hrest
    obtain ⟨howned, hlt⟩ := hg.getKnownClass s.world className others ho
    refine ⟨fun p hp => ?_, howned⟩
    obtain rfl := Option.some.inj hp
    exact hlt

inductive Opened (g : Guest (World G)) (s : Session (World G)) (i : ℕ) :
    Opening (World G) Plist ListKey → Prop
  | answer (x : Archives.Id) (hx : x = nil ∨ s.alreadyUnarchived[i]? = some (some x)) : Opened g s i (.answer x)
  | leaf (leaf : Leaf) (hnone : s.alreadyUnarchived[i]? = some none) :
    Opened g s i (.record true (g.makeLeaf s.world leaf).1 (g.makeLeaf s.world leaf).2)
  | nothing (hnone : s.alreadyUnarchived[i]? = some none) : Opened g s i (.record false nil s.world)
  | build (objects : List Plist) (classKey : ℕ) (resolved : Option (ℕ × Archives.Id)) (cls : Archives.Id) (w : World G)
    (hclass : classOf g objects s classKey = some (resolved, cls, w)) (hnone : s.alreadyUnarchived[i]? = some none) :
    Opened g s i (.build resolved (g.initWithCoder (g.alloc w cls).2 (g.alloc w cls).1))

lemma opened (g : Guest (World G)) (plist : Dictionary) (s : Session (World G)) (i : ℕ) :
    Opened g s i (unarchiveKey g plist s i) := by
  rw [unarchiveKey]
  cases hnoted : s.alreadyUnarchived[i]? with
  | none => exact .answer nil (.inl rfl)
  | some noted =>
    cases noted with
    | some existing => exact .answer existing (.inr hnoted)
    | none =>
      cases objects plist with
      | none => exact .answer nil (.inl rfl)
      | some objects =>
        dsimp only
        cases objects[i]? with
        | none => exact .answer nil (.inl rfl)
        | some item =>
          cases item with
          | dictionary dict =>
            dsimp only [unarchiveItem]
            cases hclass : ((dict.lookup "$class").bind Plist.asUid).bind (classOf g objects s) with
            | none => exact .answer nil (.inl rfl)
            | some found =>
              obtain ⟨classKey, -, hclass⟩ := Option.bind_eq_some_iff.mp hclass
              exact .build objects classKey found.1 found.2.1 found.2.2 hclass hnoted
          | data bytes =>
            dsimp only [unarchiveItem]
            split_ifs
            · exact .leaf _ hnoted
            · exact .answer nil (.inl rfl)
          | string | integer | real | boolean => exact .leaf _ hnoted
          | date | array | uid => exact .nothing hnoted

lemma owning (hg : g.Balanced statics) (hreplaces : g.ReplacesNothing) (hnil : nil < statics) (plist : Dictionary) :
    Owning statics (decoder g.lending plist) where
  answer := by
    intro s i x h
    have hopened := opened g.lending plist s i
    rw [show unarchiveKey g.lending plist s i = _ from h] at hopened
    cases hopened with
    | answer x hx => exact hx
  record := by
    intro s i made x w h
    have hopened := opened g.lending plist s i
    rw [show unarchiveKey g.lending plist s i = _ from h] at hopened
    cases hopened with
    | leaf leaf hnone => exact ⟨hnone, fun others => hg.makeLeaf s.world leaf others⟩
    | nothing hnone =>
      exact ⟨hnone, fun others ho => ho.congr fun x hx => (count_cons_of_ne (hnil.trans_le hx).ne' _).symm⟩
  build := by
    intro s i resolved coding h
    have hopened := opened g.lending plist s i
    rw [show unarchiveKey g.lending plist s i = _ from h] at hopened
    cases hopened with
    | build objects classKey resolved cls w hclass hnone =>
      refine ⟨hnone, classOf_eq_some hclass, _, rfl, fun others ho => ?_⟩
      obtain ⟨hlt, howned⟩ := classOf_balanced (g := g) hg hclass ho
      exact ⟨hlt, hg.initWithCoder _ _ _ (hg.alloc w cls others howned)⟩
  finish := by
    intro w x
    change (notifyDidDecodeObject g w x).1 = x ∧ ∀ others, _ → (notifyDidDecodeObject g w x).2.Owned statics others
    rw [notifyDidDecodeObject]
    cases hdelegate : g.didDecodeObject with
    | none => exact ⟨rfl, fun _ h => h⟩
    | some f =>
      refine ⟨?_, fun others h => hg.didDecodeObject f hdelegate w x others h⟩
      obtain hnil | hsame := hreplaces f hdelegate w x
      · exact if_pos hnil
      · dsimp only
        split_ifs
        · rfl
        · exact hsame

end KeyedUnarchiver

namespace NibArchiveDecoder

variable {g : Guest (World G)}

lemma firstKnown_owned (htry : ∀ w name, w.Owned statics others →
      (g.tryGetKnownClass w name).2.Owned statics others) (names : List String) :
    ∀ w : World G, w.Owned statics others → (firstKnown g w names).2.Owned statics others := by
  induction names with
  | nil => exact fun w h => h
  | cons name names ih =>
    intro w h
    have htried := htry w name h
    rw [firstKnown]
    dsimp only
    split_ifs
    · exact htried
    · exact ih _ htried

lemma owning (hg : g.Balanced statics) (archive : NibArchive) : Owning statics (decoder g.lending archive) := by
  have hopened : ∀ (s : Session (World G)) (i : ℕ),
      (∃ x, unarchiveObj g.lending archive s i = .answer x ∧ (x = nil ∨ s.alreadyUnarchived[i]? = some (some x))) ∨
        s.alreadyUnarchived[i]? = some none ∧ ∃ w x, (∀ others, s.world.Owned statics others →
          w.Owned statics (x ::ₘ others)) ∧
          unarchiveObj g.lending archive s i = .build none (onBehalf (g.initWithCoder w x)) := by
    intro s i
    rw [unarchiveObj]
    cases hnoted : s.alreadyUnarchived[i]? with
    | none => exact .inl ⟨nil, rfl, .inl rfl⟩
    | some noted =>
      cases noted with
      | some existing => exact .inl ⟨existing, rfl, .inr rfl⟩
      | none =>
        dsimp only
        cases archive[i]? with
        | none => exact .inl ⟨nil, rfl, .inl rfl⟩
        | some object =>
          refine .inr ⟨rfl, _, _, fun others ho => ?_, rfl⟩
          have hchosen : (chosenClassName g.lending s.world object).2.Owned statics others :=
            firstKnown_owned (g := g.lending) (fun w name => hg.tryGetKnownClass w name others) _ _ ho
          exact hg.alloc _ _ others (hg.getKnownClass _ _ others hchosen)
  refine ⟨fun s i x h => ?_, fun s i made x w h => ?_, fun s i resolved coding h => ?_, fun w x => ⟨rfl, fun _ h => h⟩⟩
  · obtain ⟨y, hy, hgives⟩ | ⟨-, w, y, -, hbuild⟩ := hopened s i
    · obtain rfl := Opening.answer.inj (hy.symm.trans h)
      exact hgives
    · cases hbuild.symm.trans h
  · obtain ⟨y, hy, -⟩ | ⟨-, w, y, -, hbuild⟩ := hopened s i
    · cases hy.symm.trans h
    · cases hbuild.symm.trans h
  · obtain ⟨y, hy, -⟩ | ⟨hnone, w, y, howned, hbuild⟩ := hopened s i
    · cases hy.symm.trans h
    · obtain ⟨rfl, rfl⟩ := Opening.build.inj (hbuild.symm.trans h)
      exact ⟨hnone, fun p hp => (by cases hp), _, rfl, fun others ho =>
        ⟨fun p hp => (by cases hp), hg.initWithCoder w y others (howned others ho)⟩⟩

end NibArchiveDecoder

/-- JSON objects are balanced exactly if the text leaves no string behind and its root is returned as a string
or as null. Archives are, if no object is asked for while it is decoding itself and the delegate replaces
none. -/
theorem decoders_balance_ownership (N : Type) (read : Numeral → Option N)
    (mutableContainers allowFragments : Bool) (data : List UInt8) (retains : ℕ) (G : Type) (statics : ℕ) (w : World G)
    (others : Multiset Archives.Id) :
    (∀ env, JsonOwnership.Ready env others →
      (JsonOwnership.Balances mutableContainers allowFragments read data retains env ↔
        JsonOwnership.LosesNothing allowFragments read data)) ∧
      (nil < statics →
        (∀ (g : KeyedUnarchiver.Guest (World G)) (plist : KeyedUnarchiver.Dictionary)
          (top : KeyedUnarchiver.KeyedCoding (World G)), g.Balanced statics → g.ReplacesNothing →
            Sound statics (fun _ => 0) top others →
            (KeyedUnarchiver.decoder g.lending plist).Uses Fresh (onBehalf top) (KeyedUnarchiver.reading plist w) →
            ∀ fuel x t, (KeyedUnarchiver.decoder g.lending plist).exec
              ((KeyedUnarchiver.decoder g.lending plist).unarchive fuel) (onBehalf top)
                (KeyedUnarchiver.reading plist w) = some (x, t) → Settled statics t others) ∧
          ∀ (g : NibArchiveDecoder.Guest (World G)) (archive : NibArchiveDecoder.NibArchive)
            (top : NibArchiveDecoder.NibCoding (World G)), g.Balanced statics →
              Sound statics (fun _ => 0) top others →
              (NibArchiveDecoder.decoder g.lending archive).Uses Fresh (onBehalf top)
                (NibArchiveDecoder.reading archive w) →
              ∀ fuel x t, (NibArchiveDecoder.decoder g.lending archive).exec
                ((NibArchiveDecoder.decoder g.lending archive).unarchive fuel) (onBehalf top)
                  (NibArchiveDecoder.reading archive w) = some (x, t) → Settled statics t others) := by
  refine ⟨fun env hready => JsonOwnership.balances_iff hready, fun hnil => ⟨?_, ?_⟩⟩
  · intro g plist top hg hreplaces htop huses fuel x t hrun
    exact settled_of_uses (KeyedUnarchiver.owning hg hreplaces hnil plist) hnil htop huses hrun
  · intro g archive top hg htop huses fuel x t hrun
    exact settled_of_uses (NibArchiveDecoder.owning hg archive) hnil htop huses hrun

def noObjects : RefHeap := ⟨2, 2, fun _ => 0, fun _ => [], false⟩

lemma noObjects_owned : noObjects.Owned 0 where
  accounted x _ := by
    rw [count_zero, add_zero]
    exact (Finset.sum_eq_zero fun y _ => rfl).symm
  dead _ _ := rfl
  fresh _ _ := rfl
  statics := le_rfl
  sound := rfl

def arrayWithCoder (w : World Unit) (this : Archives.Id) : KeyedUnarchiver.KeyedCoding (World Unit) :=
  if this < 2 then .done this w
  else .list .objects w fun xs w => .done this
    { w with heap := ((w.heap.retainAll xs).setItems this xs).drain (w.heap.items this) }

def makeObject (w : World Unit) : Archives.Id × World Unit := (w.heap.next, { w with heap := w.heap.create })

lemma makeObject_owned {w : World Unit} (ho : w.Owned 2 others) :
    (makeObject w).2.Owned 2 ((makeObject w).1 ::ₘ others) :=
  ⟨ho.statics, ho.owned.create.of_eq (by
    change _ = w.heap.next ::ₘ others + (w.pool : Multiset Archives.Id) + w.kept
    rw [cons_add, cons_add])⟩

def arrayGuest (delegate : Option (World Unit → Archives.Id → Archives.Id × World Unit)) :
    KeyedUnarchiver.Guest (World Unit) where
  getKnownClass w _ := (1, w)
  alloc w _ := makeObject w
  initWithCoder := arrayWithCoder
  makeLeaf w _ := makeObject w
  didDecodeObject := delegate

lemma arrayWithCoder_sound {w : World Unit} {this : Archives.Id} (ho : w.Owned 2 (this ::ₘ others)) :
    Sound 2 (fun y => {y}) (arrayWithCoder w this) others := by
  rw [arrayWithCoder]
  split_ifs with hstatic
  · exact ho
  · refine ⟨{this}, ho, fun others' xs w' ho' halive => ?_⟩
    have hretained := ho'.owned.retainAll xs fun x hx hs => halive x hx (ho'.statics ▸ hs)
    obtain ⟨hstatics, -, hitems⟩ := RefHeap.retainAll_frame xs w'.heap
    have hthis : (w'.heap.retainAll xs).count this ≠ 0 :=
      hretained.alive (by simp) ((hstatics.trans ho'.statics).trans_le (le_of_not_gt hstatic))
    have hgiven : ((w'.heap.retainAll xs).setItems this xs).Owned
        (w'.heap.items this + ({this} + others' + w'.pool + w'.kept)) :=
      hretained.setItems hthis fun x _ => by
        simp only [hitems, count_add, coe_count]
        omega
    have hshrinks := RefHeap.shrinks_drain (w'.heap.items this) ((w'.heap.retainAll xs).setItems this xs)
    exact ⟨(hshrinks.statics.trans hstatics).trans ho'.statics, RefHeap.Owned.drain _ hgiven⟩

lemma arrayGuest_balanced : (arrayGuest none).Balanced 2 where
  getKnownClass _ _ _ h := ⟨h, Nat.one_lt_two⟩
  alloc _ _ _ h := makeObject_owned h
  initWithCoder _ _ _ h := arrayWithCoder_sound h
  makeLeaf _ _ _ h := makeObject_owned h
  didDecodeObject _ hf := by cases hf

def arrayOfString : KeyedUnarchiver.Dictionary :=
  [("$top", .dictionary [("root", .uid 1)]),
    ("$objects", .array [.string "$null", .dictionary [("$class", .uid 3), ("NS.objects", .array [.uid 2])],
      .string "text", .dictionary [("$classname", .string "NSArray")]])]

def emptyWorld : World Unit := ⟨(), noObjects, [], 0⟩

lemma emptyWorld_owned : emptyWorld.Owned 2 0 := ⟨rfl, noObjects_owned⟩

def askForRoot : KeyedUnarchiver.KeyedCoding (World Unit) := .object "root" emptyWorld fun x w => .done x w

lemma askForRoot_sound : Sound 2 (fun _ => 0) askForRoot 0 :=
  ⟨0, emptyWorld_owned, fun _ _ _ h _ => h⟩

def replaceEach (w : World Unit) (_ : Archives.Id) : Archives.Id × World Unit :=
  (w.heap.next, { w with heap := w.heap.create, pool := w.pool ++ [w.heap.next] })

lemma noObjects_ready : JsonOwnership.Ready ⟨noObjects, []⟩ 0 := ⟨noObjects_owned, rfl, Nat.one_lt_two⟩

theorem root_is_released_twice :
    ¬ JsonOwnership.Balances false false (fun _ => (none : Option ℕ)) [0x5B, 0x5D] 0 ⟨noObjects, []⟩ ∧
      ∃ x t, (KeyedUnarchiver.decoder (arrayGuest (some replaceEach)).lending arrayOfString).exec
        ((KeyedUnarchiver.decoder (arrayGuest (some replaceEach)).lending arrayOfString).unarchive 3)
          (onBehalf askForRoot) (KeyedUnarchiver.reading arrayOfString emptyWorld) = some (x, t) ∧
        ¬ Settled 2 t 0 := by
  constructor
  · intro h
    exact absurd h.1 (by decide)
  · refine ⟨_, _, rfl, fun h => ?_⟩
    exact absurd h.1 (by decide)

lemma arrayOfString_uses : (KeyedUnarchiver.decoder (arrayGuest none).lending arrayOfString).Uses Fresh
    (onBehalf askForRoot) (KeyedUnarchiver.reading arrayOfString emptyWorld) := by
  intro fuel
  cases fuel with
  | zero => exact ⟨trivial, fun _ _ h => (by cases h)⟩
  | succ fuel =>
    refine ⟨⟨List.not_mem_nil, ⟨⟨?_, fun _ _ _ => trivial⟩, fun _ _ _ => trivial⟩⟩, fun _ _ _ => trivial⟩
    cases fuel with
    | zero => exact trivial
    | succ fuel => exact ⟨(by decide : 2 ∉ [1]), trivial⟩

def responderGuest : NibArchiveDecoder.Guest (World Unit) where
  tryGetKnownClass w _ := (true, w)
  getKnownClass w _ := (1, w)
  alloc w _ := makeObject w
  initWithCoder w this := .object "UINextResponder" w fun _ w => .done this w

lemma responderGuest_balanced : responderGuest.Balanced 2 where
  tryGetKnownClass _ _ _ h := h
  getKnownClass _ _ _ h := h
  alloc _ _ _ h := makeObject_owned h
  initWithCoder _ x _ h := ⟨{x}, h, fun _ _ _ h' _ => h'⟩

def askForView : NibArchiveDecoder.NibCoding (World Unit) :=
  .object "UINibObjectsKey" emptyWorld fun x w => .done x w

theorem decoders_balance_ownership_text :
    JsonOwnership.Balances false true (fun _ => (none : Option ℕ)) [0x22, 0x61, 0x22] 1 ⟨noObjects, []⟩ ∧
      (∀ fuel x t, (KeyedUnarchiver.decoder (arrayGuest none).lending arrayOfString).exec
        ((KeyedUnarchiver.decoder (arrayGuest none).lending arrayOfString).unarchive fuel) (onBehalf askForRoot)
          (KeyedUnarchiver.reading arrayOfString emptyWorld) = some (x, t) → Settled 2 t 0) ∧
      ∀ fuel x t, (NibArchiveDecoder.decoder responderGuest.lending sharedView).exec
        ((NibArchiveDecoder.decoder responderGuest.lending sharedView).unarchive fuel) (onBehalf askForView)
          (NibArchiveDecoder.reading sharedView emptyWorld) = some (x, t) → Settled 2 t 0 := by
  have hall := decoders_balance_ownership ℕ (fun _ => none) false true [0x22, 0x61, 0x22] 1 Unit 2 emptyWorld 0
  refine ⟨(hall.1 _ noObjects_ready).mpr ⟨by decide, .inl rfl⟩, ?_, ?_⟩
  · exact (hall.2 Nat.two_pos).1 (arrayGuest none) arrayOfString askForRoot
      arrayGuest_balanced (fun f hf => (by cases hf)) askForRoot_sound arrayOfString_uses
  · refine (hall.2 Nat.two_pos).2 responderGuest sharedView askForView
      responderGuest_balanced ⟨0, emptyWorld_owned, fun _ _ _ h _ => h⟩ fun fuel => ?_
    cases fuel with
    | zero => exact ⟨trivial, fun _ _ h => (by cases h)⟩
    | succ fuel => exact ⟨⟨List.not_mem_nil, trivial⟩, fun _ _ _ => trivial⟩

end TouchHle.Foundation
