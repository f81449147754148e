import Mathlib

/-! Adding up over the values of a finite table. -/

namespace TouchHle.Lib

open List Option

abbrev Table (α β : Type) := AList (fun _ : α => β)

namespace Table

variable {α β : Type} [DecidableEq α] {f : β → ℕ} {p : β → Bool} {t : Table α β} {k : α} {b : β}

def sumValues (f : β → ℕ) (t : Table α β) : ℕ := (t.entries.map fun e => f e.2).sum

def countValues (p : β → Bool) (t : Table α β) : ℕ := sumValues (fun b => if p b = true then 1 else 0) t

lemma sum_kerase (l : List (Sigma fun _ : α => β)) (h : l.dlookup k = some b) :
    (l.map fun e => f e.2).sum = ((l.kerase k).map fun e => f e.2).sum + f b := by
  induction l with
  | nil => cases h
  | cons e l ih =>
    by_cases hk : k = e.1
    · obtain ⟨k', b'⟩ := e
      obtain rfl : k = k' := hk
      rw [dlookup_cons_eq] at h
      obtain rfl := some.inj h
      have hkerase : List.kerase k (⟨k, b'⟩ :: l) = l := kerase_cons_eq rfl
      rw [hkerase, map_cons, sum_cons, Nat.add_comm]
    · rw [dlookup_cons_ne _ _ hk] at h
      rw [kerase_cons_ne hk, map_cons, map_cons, sum_cons, sum_cons, ih h]
      omega

lemma sumValues_erase (h : t.lookup k = some b) : sumValues f (t.erase k) + f b = sumValues f t :=
  (sum_kerase t.entries h).symm

lemma sumValues_insert : sumValues f (t.insert k b) = sumValues f (t.erase k) + f b := by
  rw [sumValues, AList.entries_insert, map_cons, sum_cons, Nat.add_comm]
  rfl

lemma erase_of_lookup (h : t.lookup k = none) : t.erase k = t := by
  apply AList.ext
  exact kerase_of_notMem_keys (AList.lookup_eq_none.mp h)

lemma countValues_erase (h : t.lookup k = some b) :
    countValues p (t.erase k) + (if p b = true then 1 else 0) = countValues p t :=
  sumValues_erase h

lemma countValues_insert (h : t.lookup k = none) :
    countValues p (t.insert k b) = countValues p t + if p b = true then 1 else 0 := by
  rw [countValues, sumValues_insert, erase_of_lookup h, countValues]

lemma countValues_pos (h : t.lookup k = some b) (hp : p b = true) : 0 < countValues p t := by
  rw [← countValues_erase h, if_pos hp]
  exact Nat.succ_pos _

lemma mem_entries_iff : (⟨k, b⟩ : Sigma fun _ : α => β) ∈ t.entries ↔ t.lookup k = some b :=
  AList.mem_lookup_iff.symm

end Table

open scoped List

abbrev Buckets (κ ν : Type) := Table ℕ (List (κ × ν))

structure LawfulKeys {κ : Type} (same : κ → κ → Bool) (hash : κ → ℕ) : Prop where
  refl : ∀ k, same k k
  symm : ∀ {k l}, same k l → same l k
  trans : ∀ {k l m}, same k l → same l m → same k m
  hash_eq : ∀ {k l}, same k l → hash k = hash l

namespace Buckets

variable {κ ν : Type} {same : κ → κ → Bool} {hash : κ → ℕ} {t : Buckets κ ν} {h : ℕ}
  {b b' : List (κ × ν)} {p : κ × ν} {k : κ} {v : ν} {rest : List (κ × ν)}

def pairs (t : Buckets κ ν) : List (κ × ν) := t.entries.flatMap fun e => e.2

structure Sound (same : κ → κ → Bool) (hash : κ → ℕ) (t : Buckets κ ν) : Prop where
  filed : ∀ h b, t.lookup h = some b → ∀ p ∈ b, hash p.1 = h
  distinct : t.pairs.Pairwise fun p q => ¬ same p.1 q.1

lemma perm_kerase (l : List (Sigma fun _ : ℕ => List (κ × ν))) (hb : l.dlookup h = some b) :
    (l.flatMap fun e => e.2).Perm (b ++ (l.kerase h).flatMap fun e => e.2) := by
  induction l with
  | nil => cases hb
  | cons e l ih =>
    obtain ⟨h', c⟩ := e
    by_cases hk : h = h'
    · subst hk
      rw [dlookup_cons_eq] at hb
      obtain rfl := some.inj hb
      have hkerase : List.kerase h (⟨h, c⟩ :: l) = l := kerase_cons_eq rfl
      rw [hkerase, flatMap_cons]
    · rw [dlookup_cons_ne _ _ hk] at hb
      rw [kerase_cons_ne hk, flatMap_cons, flatMap_cons]
      calc
        c ++ l.flatMap (fun e => e.2)
        _ ~ c ++ (b ++ (l.kerase h).flatMap fun e => e.2) := (ih hb).append_left c
        _ ~ b ++ (c ++ (l.kerase h).flatMap fun e => e.2) := by
          rw [← append_assoc, ← append_assoc]
          exact perm_append_comm.append_right _

lemma pairs_lookup (hb : t.lookup h = some b) : t.pairs.Perm (b ++ pairs (t.erase h)) :=
  perm_kerase t.entries hb

lemma lookup_put {h' : ℕ} (hc : (t.insert h b).lookup h' = some b') :
    h' = h ∧ b' = b ∨ h' ≠ h ∧ t.lookup h' = some b' := by
  by_cases heq : h' = h
  · subst heq
    rw [AList.lookup_insert] at hc
    exact .inl ⟨rfl, (some.inj hc).symm⟩
  · rw [AList.lookup_insert_ne heq] at hc
    exact .inr ⟨heq, hc⟩

lemma mem_pairs : p ∈ t.pairs ↔ ∃ h b, t.lookup h = some b ∧ p ∈ b := by
  rw [pairs, mem_flatMap]
  constructor
  · rintro ⟨⟨h, b⟩, he, hp⟩
    exact ⟨h, b, Table.mem_entries_iff.mp he, hp⟩
  · rintro ⟨h, b, hb, hp⟩
    exact ⟨⟨h, b⟩, Table.mem_entries_iff.mpr hb, hp⟩

namespace Sound

lemma empty : Sound same hash (∅ : Buckets κ ν) where
  filed h b hb := by
    rw [AList.lookup_empty] at hb
    cases hb
  distinct := .nil

variable (hs : Sound same hash t) (hl : LawfulKeys same hash)

include hs

lemma mem_bucket : p ∈ t.pairs ↔ ∃ b, t.lookup (hash p.1) = some b ∧ p ∈ b := by
  rw [mem_pairs]
  constructor
  · rintro ⟨h, b, hb, hp⟩
    obtain rfl := hs.filed h b hb p hp
    exact ⟨b, hb, hp⟩
  · rintro ⟨b, hb, hp⟩
    exact ⟨hash p.1, b, hb, hp⟩

lemma put (hfiled : ∀ p ∈ b, hash p.1 = h)
    (hdistinct : (pairs (t.insert h b)).Pairwise fun p q => ¬ same p.1 q.1) :
    Sound same hash (t.insert h b) where
  filed h' b' hb' p hp := by
    obtain ⟨rfl, rfl⟩ | ⟨_, hb'⟩ := lookup_put hb'
    · exact hfiled p hp
    · exact hs.filed h' b' hb' p hp
  distinct := hdistinct

include hl

omit hs in
lemma pairwise_perm {l l' : List (κ × ν)} (hperm : l.Perm l') :
    (l.Pairwise fun p q => ¬ same p.1 q.1) ↔ l'.Pairwise fun p q => ¬ same p.1 q.1 :=
  hperm.pairwise_iff fun hne hsame => hne (hl.symm hsame)

lemma unique {p q : κ × ν} (hp : p ∈ t.pairs) (hq : q ∈ t.pairs) (hsame : same p.1 q.1) : p = q := by
  obtain ⟨i, hi, rfl⟩ := getElem_of_mem hp
  obtain ⟨j, hj, rfl⟩ := getElem_of_mem hq
  have hdistinct := pairwise_iff_getElem.mp hs.distinct
  obtain hlt | heq | hlt := lt_trichotomy i j
  · exact absurd hsame (hdistinct i j hi hj hlt)
  · subst heq
    rfl
  · exact absurd (hl.symm hsame) (hdistinct j i hj hi hlt)

lemma stored_in_bucket {q : κ × ν} (hq : q ∈ t.pairs) (hsame : same q.1 k) :
    ∃ b, t.lookup (hash k) = some b ∧ q ∈ b := by
  rw [← hl.hash_eq hsame]
  exact hs.mem_bucket.mp hq

end Sound

end Buckets

structure OrderedMap (κ ν : Type) [LinearOrder κ] where
  entries : List (κ × ν)
  sorted : entries.Pairwise fun a b => a.1 < b.1

namespace OrderedMap

variable {κ ν : Type} [LinearOrder κ]

def empty : OrderedMap κ ν := ⟨[], .nil⟩

def get? (m : OrderedMap κ ν) (k : κ) : Option ν :=
  (m.entries.find? fun e => e.1 = k).map Prod.snd

def erase (m : OrderedMap κ ν) (k : κ) : OrderedMap κ ν where
  entries := m.entries.filter fun e => e.1 ≠ k
  sorted := m.sorted.filter _

def insert (m : OrderedMap κ ν) (k : κ) (v : ν) : OrderedMap κ ν where
  entries := (m.entries.filter fun e => e.1 < k) ++ (k, v) :: m.entries.filter fun e => k < e.1
  sorted := by
    rw [pairwise_append, pairwise_cons]
    refine ⟨m.sorted.filter _, ⟨?_, m.sorted.filter _⟩, ?_⟩
    · intro e he
      simpa using (mem_filter.mp he).2
    · intro a ha b hb
      have ha' : a.1 < k := by simpa using (mem_filter.mp ha).2
      rcases mem_cons.mp hb with rfl | hb
      · exact ha'
      · have hb' : k < b.1 := by simpa using (mem_filter.mp hb).2
        exact ha'.trans hb'

def lastBelow (m : OrderedMap κ ν) (k : κ) : Option (κ × ν) :=
  (m.entries.filter fun e => e.1 < k).getLast?

instance : Membership (κ × ν) (OrderedMap κ ν) := ⟨fun m e => e ∈ m.entries⟩

lemma mem_def {m : OrderedMap κ ν} {e : κ × ν} : e ∈ m ↔ e ∈ m.entries := .rfl

@[simp] lemma not_mem_empty (e : κ × ν) : e ∉ (empty : OrderedMap κ ν) := by
  simp [mem_def, empty]

lemma value_unique {m : OrderedMap κ ν} {k : κ} {v w : ν} (hv : (k, v) ∈ m) (hw : (k, w) ∈ m) :
    v = w := by
  by_contra hne
  have hp : m.entries.Pairwise fun a b => a.1 ≠ b.1 := m.sorted.imp fun h => h.ne
  have hs : Std.Symm fun a b : κ × ν => a.1 ≠ b.1 := ⟨fun _ _ h => h.symm⟩
  exact hp.forall hv hw (by simpa using hne) rfl

lemma get?_eq_some {m : OrderedMap κ ν} {k : κ} {v : ν} : m.get? k = some v ↔ (k, v) ∈ m := by
  constructor
  · intro h
    obtain ⟨e, he, rfl⟩ := map_eq_some_iff.mp h
    have hk : e.1 = k := by simpa using find?_some he
    rw [← hk]
    exact mem_of_find?_eq_some he
  · intro h
    cases he : m.get? k with
    | none =>
      have := find?_eq_none.mp (map_eq_none_iff.mp he) _ h
      simp at this
    | some w =>
      obtain ⟨e, hf, rfl⟩ := map_eq_some_iff.mp he
      have hk : e.1 = k := by simpa using find?_some hf
      have hm : (k, e.2) ∈ m := by
        rw [← hk]
        exact mem_of_find?_eq_some hf
      rw [value_unique h hm]

lemma get?_eq_none {m : OrderedMap κ ν} {k : κ} : m.get? k = none ↔ ∀ v, (k, v) ∉ m := by
  rw [eq_none_iff_forall_ne_some]
  exact forall_congr' fun v => not_congr get?_eq_some

@[simp] lemma mem_erase {m : OrderedMap κ ν} {k : κ} {e : κ × ν} :
    e ∈ m.erase k ↔ e ∈ m ∧ e.1 ≠ k := by
  simp [mem_def, erase]

@[simp] lemma mem_insert {m : OrderedMap κ ν} {k : κ} {v : ν} {e : κ × ν} :
    e ∈ m.insert k v ↔ e = (k, v) ∨ (e ∈ m ∧ e.1 ≠ k) := by
  simp only [mem_def, insert, mem_append, mem_filter, mem_cons, decide_eq_true_eq]
  constructor
  · rintro (⟨h, hlt⟩ | rfl | ⟨h, hlt⟩)
    · exact .inr ⟨h, hlt.ne⟩
    · exact .inl rfl
    · exact .inr ⟨h, hlt.ne'⟩
  · rintro (rfl | ⟨h, hne⟩)
    · exact .inr (.inl rfl)
    · rcases lt_or_gt_of_ne hne with hlt | hlt
      · exact .inl ⟨h, hlt⟩
      · exact .inr (.inr ⟨h, hlt⟩)

lemma lastBelow_mem {m : OrderedMap κ ν} {k : κ} {e : κ × ν} (h : m.lastBelow k = some e) :
    e ∈ m ∧ e.1 < k := by
  have hm := mem_filter.mp (mem_of_getLast? h)
  exact ⟨hm.1, by simpa using hm.2⟩

end OrderedMap

end TouchHle.Lib
