import TouchHle.Foundation.Decoders

namespace TouchHle.Foundation

open Archives Archives.Session Archives.Coder List Option

variable {W : Type} {s : Session W} {i : ℕ}

namespace NibArchiveDecoder

variable {g : Guest W} {archive : NibArchive}

lemma opening_cases (hlength : s.alreadyUnarchived.length = archive.length) (i : ℕ) :
    (∃ x, unarchiveObj g archive s i = .answer x ∧ s.Gives False i x) ∨
      s.alreadyUnarchived[i]? = some none ∧
        ∃ coding, unarchiveObj g archive s i = .build none coding := by
  rw [unarchiveObj]
  cases hnoted : s.alreadyUnarchived[i]? with
  | none => exact .inl ⟨_, rfl, .inr ⟨rfl, .inl hnoted⟩⟩
  | some noted =>
    cases noted with
    | some existing => exact .inl ⟨existing, rfl, .inl hnoted⟩
    | none =>
      have hlt : i < archive.length := hlength ▸ (List.getElem?_eq_some_iff.mp hnoted).1
      rw [getElem?_eq_getElem hlt]
      exact .inr ⟨rfl, _, rfl⟩

lemma lawful (g : Guest W) (archive : NibArchive) : (decoder g archive).Lawful archive.length False where
  answer := by
    intro s i x hlength h
    obtain ⟨y, hy, hgives⟩ | ⟨-, coding, hbuild⟩ := opening_cases (g := g) hlength i
    · obtain rfl := Opening.answer.inj (hy.symm.trans h)
      exact hgives
    · cases hbuild.symm.trans h
  fills := by
    intro s i hlength k hk
    obtain ⟨y, hy, -⟩ | ⟨hnone, coding, hbuild⟩ := opening_cases (g := g) hlength i
    · rw [show (decoder g archive).opening s i = _ from hy] at hk
      cases hk
    · rw [show (decoder g archive).opening s i = _ from hbuild] at hk
      obtain rfl : k = i := by simpa [Opening.fills] using hk
      exact hnone

def Use (s : Session W) (i : ℕ) : Prop := i ∉ s.active

lemma fresh_of_use (h : Kept archive.length False s) (huse : Use s i) :
    (decoder g archive).Fresh s i := by
  refine ⟨huse, ?_⟩
  have hlength := h.length
  obtain ⟨y, hy, -⟩ | ⟨hnone, coding, hbuild⟩ := opening_cases (g := g) hlength i
  · rw [show (decoder g archive).opening s i = _ from hy]
    exact ⟨nodup_nil, fun _ hk => (by cases hk)⟩
  · rw [show (decoder g archive).opening s i = _ from hbuild]
    refine ⟨nodup_singleton i, fun k hk => ?_⟩
    obtain rfl : k = i := by simpa [Opening.fills] using hk
    refine ⟨huse, ?_⟩
    rintro ⟨x, hx⟩
    obtain hnoted | ⟨-, hnoted | ⟨hmiss, -⟩⟩ := h.answered k x hx
    · exact absurd (hnone.symm.trans hnoted) (by rintro ⟨⟩)
    · exact absurd (hnone.symm.trans hnoted) (by rintro ⟨⟩)
    · exact hmiss

end NibArchiveDecoder

namespace KeyedUnarchiver

variable {g : Guest W} {plist : Dictionary}

lemma classOf_eq_some {objects : List Plist} {classKey : ℕ} {resolved : Option (ℕ × Archives.Id)} {cls : Archives.Id}
    {w : W} (h : classOf g objects s classKey = some (resolved, cls, w)) :
    ∀ p ∈ resolved, s.alreadyUnarchived[p.1]? = some none := by
  rw [classOf] at h
  replace h := bind_eq_some_iff.mp h
  obtain ⟨noted, hnoted, h⟩ := h
  cases noted with
  | some existing =>
    obtain rfl : none = resolved := congrArg Prod.fst (some.inj h)
    exact fun p hp => (by cases hp)
  | none =>
    simp only [bind_eq_bind, bind_eq_some_iff] at h
    obtain ⟨_, _, _, _, _, _, h⟩ := h
    obtain rfl := congrArg Prod.fst (some.inj h)
    rintro p hp
    obtain rfl := some.inj hp
    exact hnoted

lemma opening_cases (g : Guest W) (plist : Dictionary) (s : Session W) (i : ℕ) :
    (∃ x, unarchiveKey g plist s i = .answer x ∧ s.Gives True i x) ∨
      s.alreadyUnarchived[i]? = some none ∧
        ((∃ made x w, unarchiveKey g plist s i = .record made x w) ∨
          ∃ resolved coding, unarchiveKey g plist s i = .build resolved coding ∧
            ∀ p ∈ resolved, s.alreadyUnarchived[p.1]? = some none) := by
  rw [unarchiveKey]
  cases hnoted : s.alreadyUnarchived[i]? with
  | none => exact .inl ⟨_, rfl, .inr ⟨rfl, .inl hnoted⟩⟩
  | some noted =>
    cases noted with
    | some existing => exact .inl ⟨existing, rfl, .inl hnoted⟩
    | none =>
      have hnil : s.Gives True i nil := .inr ⟨rfl, .inr ⟨trivial, hnoted⟩⟩
      cases objects plist with
      | none => exact .inl ⟨_, rfl, hnil⟩
      | some objects =>
        dsimp only
        cases objects[i]? with
        | none => exact .inl ⟨_, rfl, hnil⟩
        | some item =>
          cases item with
          | dictionary dict =>
            dsimp only [unarchiveItem]
            cases hclass : ((dict.lookup "$class").bind Plist.asUid).bind (classOf g objects s) with
            | none => exact .inl ⟨_, rfl, hnil⟩
            | some found =>
              obtain ⟨classKey, -, hclass⟩ := bind_eq_some_iff.mp hclass
              exact .inr ⟨rfl, .inr ⟨_, _, rfl, classOf_eq_some hclass⟩⟩
          | data bytes =>
            dsimp only [unarchiveItem]
            split_ifs
            · exact .inr ⟨rfl, .inl ⟨_, _, _, rfl⟩⟩
            · exact .inl ⟨_, rfl, hnil⟩
          | string | integer | real | boolean => exact .inr ⟨rfl, .inl ⟨_, _, _, rfl⟩⟩
          | date | array | uid => exact .inr ⟨rfl, .inl ⟨_, _, _, rfl⟩⟩

lemma lawful (g : Guest W) (plist : Dictionary) :
    (decoder g plist).Lawful (keyCount plist) True where
  answer := by
    intro s i x _ h
    obtain ⟨y, hy, hgives⟩ | ⟨-, ⟨_, _, _, h'⟩ | ⟨_, _, h', -⟩⟩ :=
      opening_cases g plist s i
    · obtain rfl := Opening.answer.inj (hy.symm.trans h)
      exact hgives
    · cases h'.symm.trans h
    · cases h'.symm.trans h
  fills := by
    intro s i _ k hk
    obtain ⟨_, h, -⟩ | ⟨hnone, ⟨_, _, _, h⟩ | ⟨resolved, _, h, hresolved⟩⟩ :=
      opening_cases g plist s i
    · rw [show (decoder g plist).opening s i = _ from h] at hk
      cases hk
    · rw [show (decoder g plist).opening s i = _ from h] at hk
      obtain rfl := mem_singleton.mp hk
      exact hnone
    · rw [show (decoder g plist).opening s i = _ from h] at hk
      obtain rfl | hk := mem_cons.mp hk
      · exact hnone
      · obtain ⟨p, hp, rfl⟩ := mem_map.mp hk
        exact hresolved p (mem_toList.mp hp)

/-- The request is not for an object that is still decoding itself. Neither it nor the entry of its
class, if it is looked at for the first time, was being built or was answered with nil before. -/
def Use (g : Guest W) (plist : Dictionary) (s : Session W) (i : ℕ) : Prop :=
  (decoder g plist).Fresh s i

end KeyedUnarchiver

def nibGuest (key : String) : NibArchiveDecoder.Guest Unit where
  tryGetKnownClass _ _ := (true, ())
  getKnownClass _ _ := (1, ())
  alloc _ _ := (2, ())
  initWithCoder _ object := .object key () fun _ _ => .done object ()

def keyedGuest (key : String) : KeyedUnarchiver.Guest Unit where
  getKnownClass _ _ := (1, ())
  alloc _ _ := (2, ())
  initWithCoder _ object := .object key () fun _ _ => .done object ()
  makeLeaf _ _ := (3, ())
  didDecodeObject := none

def sharedView : NibArchiveDecoder.NibArchive :=
  [⟨"NSObject", [], [("UINibObjectsKey", .objectRef 1), ("UINibTopLevelObjectsKey", .objectRef 1)]⟩,
    ⟨"UIView", [], [("UIHidden", .bool true)]⟩]

def rootedObject : KeyedUnarchiver.Dictionary :=
  [("$top", .dictionary [("root", .uid 1)]),
    ("$objects", .array [.string "$null", .dictionary [("$class", .uid 2)],
      .dictionary [("$classname", .string "NSObject")]])]

def superviews : NibArchiveDecoder.NibArchive :=
  [⟨"NSObject", [], [("UIRoot", .objectRef 1)]⟩, ⟨"UIView", [], [("UISuperview", .objectRef 2)]⟩,
    ⟨"UIView", [], [("UISuperview", .objectRef 1)]⟩]

lemma superviews_endless (fuel : ℕ) {i j : ℕ} (hij : i = 1 ∧ j = 2 ∨ i = 2 ∧ j = 1) {s : Session Unit}
    (hnone : s.alreadyUnarchived = [none, none, none]) :
    (NibArchiveDecoder.decoder (nibGuest "UISuperview") superviews).unarchive fuel s i = none := by
  induction fuel generalizing s i j with
  | zero => rfl
  | succ fuel ih =>
    obtain ⟨scope, memo, world, active, built, answers, scopes⟩ := s
    subst hnone
    obtain ⟨rfl, rfl⟩ | ⟨rfl, rfl⟩ := hij
    · have hnested := ih (.inr ⟨rfl, rfl⟩)
        (s := ⟨some 1, [none, none, none], (), 1 :: active, 1 :: built, answers, scopes⟩) rfl
      exact unarchive_build rfl (exec_object rfl hnested)
    · have hnested := ih (.inl ⟨rfl, rfl⟩)
        (s := ⟨some 2, [none, none, none], (), 2 :: active, 2 :: built, answers, scopes⟩) rfl
      exact unarchive_build rfl (exec_object rfl hnested)

end TouchHle.Foundation
