import Mathlib

/-! Trees of named children, and what is found at the end of a path after a change. -/

namespace TouchHle.Lib

open List

inductive Tree (κ α β : Type)
  | leaf (a : α)
  | node (b : β) (children : List (κ × Tree κ α β))

namespace Tree

variable {κ α β : Type} [DecidableEq κ]

def label : Tree κ α β → α ⊕ β
  | leaf a => .inl a
  | node b _ => .inr b

def children : Tree κ α β → List (κ × Tree κ α β)
  | leaf _ => []
  | node _ cs => cs

def child? (cs : List (κ × Tree κ α β)) (k : κ) : Option (Tree κ α β) :=
  cs.lookup k

def subtree : Tree κ α β → List κ → Option (Tree κ α β)
  | t, [] => some t
  | t, k :: p => (child? t.children k).bind fun c => c.subtree p

def label? (t : Tree κ α β) (p : List κ) : Option (α ⊕ β) :=
  (t.subtree p).map label

def insertChild (k : κ) (c : Tree κ α β) (cs : List (κ × Tree κ α β)) : List (κ × Tree κ α β) :=
  (k, c) :: cs.filter fun e => e.1 ≠ k

def eraseChild (k : κ) (cs : List (κ × Tree κ α β)) : List (κ × Tree κ α β) :=
  cs.filter fun e => e.1 ≠ k

def modify (f : List (κ × Tree κ α β) → List (κ × Tree κ α β)) :
    List κ → Tree κ α β → Tree κ α β
  | _, leaf a => leaf a
  | [], node b cs => node b (f cs)
  | k :: p, node b cs => node b (cs.map fun e => (e.1, if e.1 = k then modify f p e.2 else e.2))

def insertAt (t : Tree κ α β) (p : List κ) (k : κ) (c : Tree κ α β) : Tree κ α β :=
  modify (insertChild k c) p t

def eraseAt (t : Tree κ α β) (p : List κ) (k : κ) : Tree κ α β :=
  modify (eraseChild k) p t

def put (t : Tree κ α β) (p : List κ) (c : Tree κ α β) : Tree κ α β :=
  match p.getLast? with
  | none => c
  | some k => t.insertAt p.dropLast k c

def remove (t : Tree κ α β) (p : List κ) : Tree κ α β :=
  match p.getLast? with
  | none => t
  | some k => t.eraseAt p.dropLast k

section Lookup

variable {cs : List (κ × Tree κ α β)} {k k' : κ} {c t n : Tree κ α β} {p q : List κ} {b : β}

lemma child?_cons_eq (e : κ × Tree κ α β) : child? (e :: cs) e.1 = some e.2 := by
  rw [child?, lookup_cons, beq_self_eq_true]

lemma child?_cons_ne {e : κ × Tree κ α β} (h : k ≠ e.1) : child? (e :: cs) k = child? cs k := by
  rw [child?, lookup_cons, beq_false_of_ne h, child?]

lemma child?_eraseChild : child? (eraseChild k cs) k' = if k' = k then none else child? cs k' := by
  induction cs with
  | nil => simp [eraseChild, child?]
  | cons e cs ih =>
    rw [eraseChild] at ih ⊢
    by_cases he : e.1 = k
    · rw [filter_cons_of_neg (by simpa using he), ih]
      by_cases hk : k' = k
      · rw [if_pos hk, if_pos hk]
      · rw [if_neg hk, if_neg hk, child?_cons_ne (he ▸ hk)]
    · rw [filter_cons_of_pos (by simpa using he)]
      by_cases hk : k' = e.1
      · subst hk
        rw [if_neg he, child?_cons_eq, child?_cons_eq]
      · rw [child?_cons_ne hk, child?_cons_ne hk, ih]

lemma child?_insertChild :
    child? (insertChild k c cs) k' = if k' = k then some c else child? cs k' := by
  change child? ((k, c) :: eraseChild k cs) k' = _
  by_cases hk : k' = k
  · subst hk
    rw [child?_cons_eq (k', c), if_pos rfl]
  · rw [child?_cons_ne hk, if_neg hk, child?_eraseChild, if_neg hk]

lemma child?_map (f : κ → Tree κ α β → Tree κ α β) :
    child? (cs.map fun e => (e.1, f e.1 e.2)) k = (child? cs k).map (f k) := by
  induction cs with
  | nil => rfl
  | cons e cs ih =>
    rw [map_cons]
    by_cases he : k = e.1
    · subst he
      rw [child?_cons_eq (e.1, f e.1 e.2), child?_cons_eq, Option.map_some]
    · rw [child?_cons_ne (e := (e.1, f e.1 e.2)) he, child?_cons_ne he, ih]

@[simp] lemma subtree_nil : t.subtree [] = some t := by
  cases t <;> rfl

lemma subtree_cons : t.subtree (k :: p) = (child? t.children k).bind fun c => c.subtree p := by
  cases t <;> rfl

lemma subtree_append : t.subtree (p ++ q) = (t.subtree p).bind fun c => c.subtree q := by
  induction p generalizing t with
  | nil => simp
  | cons k p ih =>
    rw [cons_append, subtree_cons, subtree_cons]
    cases child? t.children k with
    | none => rfl
    | some c => exact ih

lemma label?_nil : t.label? [] = some t.label := by
  rw [label?, subtree_nil, Option.map_some]

lemma label?_cons : t.label? (k :: p) = (child? t.children k).bind fun c => c.label? p := by
  rw [label?, subtree_cons]
  cases child? t.children k <;> rfl

lemma label?_append (h : t.subtree p = some c) : t.label? (p ++ q) = c.label? q := by
  rw [label?, subtree_append, h]
  rfl

lemma label?_eq_some {l : α ⊕ β} : t.label? p = some l ↔ ∃ c, t.subtree p = some c ∧ c.label = l :=
  Option.map_eq_some_iff

lemma label?_of_subtree (h : t.subtree p = some c) : t.label? p = some c.label := by
  rw [label?, h, Option.map_some]

lemma subtree_of_leaf {a : α} (h : t.label? p = some (.inl a)) : t.subtree p = some (leaf a) := by
  obtain ⟨c, hc, hl⟩ := label?_eq_some.mp h
  cases c with
  | leaf a' =>
    obtain rfl := Sum.inl.inj hl
    exact hc
  | node b cs => cases hl

lemma label?_above (h : t.label? (p ++ k :: q) ≠ none) : ∃ b, t.label? p = some (.inr b) := by
  cases hs : t.subtree p with
  | none =>
    rw [label?, subtree_append, hs] at h
    exact absurd rfl h
  | some c =>
    rw [label?_append hs, label?_cons] at h
    cases c with
    | leaf a => exact absurd rfl h
    | node b cs => exact ⟨b, label?_of_subtree hs⟩

end Lookup

section Change

variable {t c : Tree κ α β} {p q : List κ} {k : κ} {b : β} {cs : List (κ × Tree κ α β)}
  {f : List (κ × Tree κ α β) → List (κ × Tree κ α β)}

lemma label?_modify (h : t.subtree p = some (node b cs)) :
    (modify f p t).label? q =
      if p <+: q then (node b (f cs)).label? (q.drop p.length) else t.label? q := by
  induction p generalizing t q with
  | nil =>
    obtain rfl : t = node b cs := by simpa using h
    rw [if_pos nil_prefix, modify, length_nil, drop_zero]
  | cons k p ih =>
    cases t with
    | leaf a => cases h
    | node b' ds =>
      rw [subtree_cons] at h
      obtain ⟨d, hd, hsub⟩ := Option.bind_eq_some_iff.mp h
      rw [modify]
      cases q with
      | nil => rw [if_neg (by simp), label?_nil, label?_nil, label, label]
      | cons k' q =>
        rw [label?_cons, label?_cons]
        change (child? (ds.map fun e => (e.1, if e.1 = k then modify f p e.2 else e.2)) k').bind _ =
          _
        rw [child?_map fun k'' e => if k'' = k then modify f p e else e]
        by_cases hk : k' = k
        · subst hk
          change child? ds k' = some d at hd
          simp only [children, hd, Option.map_some, Option.bind_some, if_true, ih hsub,
            cons_prefix_cons, true_and, length_cons, drop_succ_cons]
        · have hpre : ¬ k :: p <+: k' :: q := by
            rw [cons_prefix_cons]
            exact fun h => hk h.1.symm
          rw [if_neg hpre]
          simp only [children, hk, if_false, Option.map_id']

omit [DecidableEq κ] in
lemma append_singleton_longer (p : List κ) (k : κ) : ¬ p ++ [k] <+: p := by
  intro h
  have := h.length_le
  simp at this

lemma label?_modify_child {x : Option (Tree κ α β)} (h : t.subtree p = some (node b cs))
    (hchild : ∀ k', child? (f cs) k' = if k' = k then x else child? cs k') :
    (modify f p t).label? q =
      if p ++ [k] <+: q then x.bind fun c => c.label? (q.drop (p.length + 1)) else t.label? q := by
  rw [label?_modify h]
  by_cases hp : p <+: q
  · obtain ⟨r, rfl⟩ := hp
    rw [if_pos (prefix_append p r), drop_left]
    cases r with
    | nil =>
      rw [append_nil, if_neg (append_singleton_longer p k), label?_nil,
        label?_of_subtree h, label, label]
    | cons k' r =>
      rw [label?_cons, label?_append h, label?_cons]
      change (child? (f cs) k').bind _ = _
      rw [hchild]
      by_cases hk : k' = k
      · subst hk
        have hpre : p ++ [k'] <+: p ++ k' :: r := by simp
        have hdrop : (p ++ k' :: r).drop (p.length + 1) = r := by simp
        rw [if_pos rfl, if_pos hpre, hdrop]
      · have hpre : ¬ p ++ [k] <+: p ++ k' :: r := by simp [Ne.symm hk]
        rw [if_neg hk, if_neg hpre]
        rfl
  · have hpre : ¬ p ++ [k] <+: q := fun h => hp ((prefix_append p [k]).trans h)
    rw [if_neg hp, if_neg hpre]

lemma label?_insertAt (h : t.subtree p = some (node b cs)) :
    (t.insertAt p k c).label? q =
      if p ++ [k] <+: q then c.label? (q.drop (p.length + 1)) else t.label? q := by
  rw [insertAt]
  exact label?_modify_child h fun k' => child?_insertChild

lemma label?_eraseAt (h : t.subtree p = some (node b cs)) :
    (t.eraseAt p k).label? q = if p ++ [k] <+: q then none else t.label? q := by
  rw [eraseAt]
  exact label?_modify_child h fun k' => child?_eraseChild

end Change

section Everywhere

variable {P Q : α ⊕ β → Prop} {t c : Tree κ α β} {cs : List (κ × Tree κ α β)} {k : κ} {a : α} {b : β}

def Everywhere (P : α ⊕ β → Prop) (t : Tree κ α β) : Prop :=
  ∀ p l, t.label? p = some l → P l

lemma Everywhere.mono (hPQ : ∀ l, P l → Q l) (h : Everywhere P t) : Everywhere Q t :=
  fun p l hl => hPQ l (h p l hl)

lemma everywhere_leaf : Everywhere P (leaf a : Tree κ α β) ↔ P (.inl a) := by
  constructor
  · exact fun h => h [] _ label?_nil
  · intro h p l hl
    cases p with
    | nil =>
      rw [label?_nil] at hl
      obtain rfl := Option.some.inj hl
      exact h
    | cons k p =>
      rw [label?_cons] at hl
      cases hl

lemma everywhere_node : Everywhere P (node b cs) ↔
    P (.inr b) ∧ ∀ k c, child? cs k = some c → Everywhere P c := by
  constructor
  · intro h
    refine ⟨h [] _ label?_nil, fun k c hc p l hl => h (k :: p) l ?_⟩
    rw [label?_cons]
    change (child? cs k).bind _ = _
    rw [hc]
    exact hl
  · rintro ⟨hb, hcs⟩ p l hl
    cases p with
    | nil =>
      rw [label?_nil] at hl
      obtain rfl := Option.some.inj hl
      exact hb
    | cons k p =>
      rw [label?_cons] at hl
      obtain ⟨c, hc, hl⟩ := Option.bind_eq_some_iff.mp hl
      exact hcs k c hc p l hl

lemma everywhere_insertChild (hb : P (.inr b)) (hc : Everywhere P c)
    (hcs : ∀ k c, child? cs k = some c → Everywhere P c) :
    Everywhere P (node b (insertChild k c cs)) := by
  refine everywhere_node.mpr ⟨hb, fun k' c' hc' => ?_⟩
  rw [child?_insertChild] at hc'
  split at hc'
  · obtain rfl := Option.some.inj hc'
    exact hc
  · exact hcs k' c' hc'

end Everywhere

end Tree

end TouchHle.Lib
