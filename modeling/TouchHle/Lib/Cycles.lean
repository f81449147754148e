import Mathlib.Logic.Relation

/-! Relations without cycles, and what adding an edge does to them. -/

namespace TouchHle.Lib

open Relation

variable {α : Type} {r r' : α → α → Prop} {a b x y : α}

def Acyclic (r : α → α → Prop) : Prop := ∀ x, ¬ TransGen r x x

lemma Acyclic.mono (h : Acyclic r) (hsub : ∀ x y, r' x y → r x y) : Acyclic r' :=
  fun x hx => h x (TransGen.mono hsub x x hx)

lemma transGen_insert (hr : ∀ x y, r' x y → r x y ∨ (x = a ∧ y = b)) (h : TransGen r' x y) :
    TransGen r x y ∨ (ReflTransGen r x a ∧ ReflTransGen r b y) := by
  induction h with
  | single h =>
    obtain h | ⟨rfl, rfl⟩ := hr _ _ h
    · exact .inl (.single h)
    · exact .inr ⟨.refl, .refl⟩
  | tail _ h ih =>
    obtain h | ⟨rfl, rfl⟩ := hr _ _ h
    · exact ih.imp (fun hxy => hxy.tail h) fun hxy => ⟨hxy.1, hxy.2.tail h⟩
    · exact .inr ⟨ih.elim TransGen.to_reflTransGen And.left, .refl⟩

theorem acyclic_insert_iff (hacyclic : Acyclic r) (hsub : ∀ x y, r x y → r' x y) (hedge : r' a b)
    (hr : ∀ x y, r' x y → r x y ∨ (x = a ∧ y = b)) : Acyclic r' ↔ ¬ ReflTransGen r b a := by
  constructor
  · intro h hback
    exact h a (.head' hedge (ReflTransGen.mono hsub b a hback))
  · intro h x hx
    obtain hx | ⟨hxa, hbx⟩ := transGen_insert hr hx
    · exact hacyclic x hx
    · exact h (hbx.trans hxa)

end TouchHle.Lib
