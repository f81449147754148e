import TouchHle.Foundation.Dictionary

namespace TouchHle.Foundation

open Lib Objc List Except Option Held
open scoped List

inductive DictionaryRequest
  | insert (key value : Id) (copyKey : Bool)
  | remove (key : Id)
  | lookup (key : Id)

namespace Held

variable {s t : Held} {same : Id → Id → Bool} {hash : Id → ℕ} {h o k v : Id} {b : List (Id × Id)}

def pairs (s : Held) : List (Id × Id) := Buckets.pairs s.dict.map

structure Filed (same : Id → Id → Bool) (hash : Id → ℕ) (s : Held) : Prop where
  sound : Buckets.Sound same hash s.dict.map
  count : s.dict.count = s.pairs.length

def keysTaken (s : Held) (o : Id) : ℕ := s.calls.count (.tookKey o)
def keysGiven (s : Held) (o : Id) : ℕ := s.calls.count (.gaveKey o)
def valuesTaken (s : Held) (o : Id) : ℕ := s.calls.count (.tookValue o)
def valuesGiven (s : Held) (o : Id) : ℕ := s.calls.count (.gaveValue o)
def keysStored (s : Held) (o : Id) : ℕ := (s.pairs.map Prod.fst).count o
def valuesStored (s : Held) (o : Id) : ℕ := (s.pairs.map Prod.snd).count o

def Owned (s : Held) : Prop :=
  ∀ o, s.keysTaken o = s.keysGiven o + s.keysStored o ∧
    s.valuesTaken o = s.valuesGiven o + s.valuesStored o

def Represents (same : Id → Id → Bool) (s : Held) (f : Id → Option Id) : Prop :=
  ∀ k v, f k = some v ↔ ∃ p ∈ s.pairs, same p.1 k ∧ p.2 = v

structure Stores (s t : Held) (k v : Id) : Prop where
  pairs : t.pairs ~ (k, v) :: s.pairs
  calls : t.calls = s.calls ++ [.tookKey k, .tookValue v]
  count : t.dict.count = s.dict.count + 1

structure Replaces (s t : Held) (k v : Id) (k' v' : Id) : Prop where
  pairs : ∃ rest, s.pairs ~ (k', v') :: rest ∧ t.pairs ~ (k', v) :: rest
  calls : t.calls = s.calls ++ [.tookKey k, .tookValue v, .gaveValue v']
  count : t.dict.count = s.dict.count

structure Drops (s t : Held) (k v : Id) : Prop where
  pairs : s.pairs ~ (k, v) :: t.pairs
  calls : t.calls = s.calls ++ [.gaveKey k, .gaveValue v]
  count : t.dict.count = s.dict.count - 1

end Held

lemma replaceFirst_eq_some {p : Id → Bool} {value e : Id} : ∀ {l l' : List (Id × Id)},
    replaceFirst p value l = some (e, l') →
      ∃ pre k post, l = pre ++ (k, e) :: post ∧ l' = pre ++ (k, value) :: post ∧ p k := by
  intro l
  induction l with
  | nil =>
    intro l' h
    cases h
  | cons q l ih =>
    intro l' h
    obtain ⟨k, v⟩ := q
    rw [replaceFirst] at h
    by_cases hp : p k
    · rw [if_pos hp] at h
      obtain ⟨rfl, rfl⟩ := Prod.mk.inj (some.inj h)
      exact ⟨[], k, l, rfl, rfl, hp⟩
    · rw [if_neg hp] at h
      obtain ⟨⟨e', l''⟩, hr, heq⟩ := map_eq_some_iff.mp h
      obtain ⟨rfl, rfl⟩ := Prod.mk.inj heq
      obtain ⟨pre, k', post, rfl, rfl, hk'⟩ := ih hr
      exact ⟨(k, v) :: pre, k', post, rfl, rfl, hk'⟩

lemma replaceFirst_eq_none {p : Id → Bool} {value : Id} : ∀ {l : List (Id × Id)},
    replaceFirst p value l = none → ∀ q ∈ l, p q.1 = false := by
  intro l
  induction l with
  | nil => exact fun _ q hq => by cases hq
  | cons q l ih =>
    intro h
    obtain ⟨k, v⟩ := q
    rw [replaceFirst] at h
    by_cases hp : p k
    · rw [if_pos hp] at h
      cases h
    · rw [if_neg hp, map_eq_none_iff] at h
      intro q hq
      obtain rfl | hq := mem_cons.mp hq
      · exact Bool.eq_false_iff.mpr hp
      · exact ih h q hq

lemma eraseP_of_find {p : Id × Id → Bool} {q : Id × Id} {l : List (Id × Id)} (h : l.find? p = some q) :
    ∃ pre post, l = pre ++ q :: post ∧ l.eraseP p = pre ++ post ∧ p q := by
  obtain ⟨hq, pre, post, rfl, hpre⟩ := find?_eq_some_iff_append.mp h
  refine ⟨pre, post, rfl, ?_, hq⟩
  rw [eraseP_append_right _ (by simpa using hpre), eraseP_cons_of_pos hq]

section Tables

variable {s : Held} {same : Id → Id → Bool} {hash : Id → ℕ} {h : ℕ} {b pre post : List (Id × Id)}
  {q q' : Id × Id}

lemma pairs_setMap_none (hb : s.dict.map.lookup h = none) : (s.setMap h [q]).pairs = q :: s.pairs := by
  change [q] ++ Buckets.pairs (s.dict.map.erase h) = _
  rw [Table.erase_of_lookup hb]
  rfl

lemma pairs_setMap_append (hb : s.dict.map.lookup h = some b) :
    (s.setMap h (b ++ [q])).pairs ~ q :: s.pairs := by
  have hold := Buckets.pairs_lookup hb
  change (b ++ [q]) ++ Buckets.pairs (s.dict.map.erase h) ~ _
  rw [append_assoc, singleton_append]
  exact perm_middle.trans (hold.symm.cons q)

lemma pairs_setMap_middle (q' : Id × Id) (hb : s.dict.map.lookup h = some (pre ++ q :: post)) :
    ∃ rest, s.pairs ~ q :: rest ∧ (s.setMap h (pre ++ q' :: post)).pairs ~ q' :: rest ∧
      (s.setMap h (pre ++ post)).pairs ~ rest := by
  have hold := Buckets.pairs_lookup hb
  refine ⟨pre ++ post ++ Buckets.pairs (s.dict.map.erase h), ?_, ?_, List.Perm.refl _⟩
  · refine hold.trans ?_
    rw [append_assoc, append_assoc, cons_append]
    exact perm_middle
  · change (pre ++ q' :: post) ++ Buckets.pairs (s.dict.map.erase h) ~ _
    rw [append_assoc, append_assoc, cons_append]
    exact perm_middle

end Tables

section Maps

variable {s t : Held} {same : Id → Id → Bool} {hash : Id → ℕ} {f : Id → Option Id} {k key v : Id}
  {rest : List (Id × Id)}

def assign (same : Id → Id → Bool) (keep : Id → Id) (f : Id → Option Id) : DictionaryRequest → Id → Option Id
  | .insert key value _ => fun k => if same key k then some (keep value) else f k
  | .remove key => fun k => if same key k then none else f k
  | .lookup _ => f

lemma Held.Represents.empty : empty.Represents same fun _ => none := by
  intro k v
  constructor
  · rintro ⟨⟩
  · rintro ⟨p, hp, _⟩
    exact absurd hp not_mem_nil

section Lawful

variable (hl : LawfulKeys same hash)

include hl

lemma same_congr {a b x : Id} (hab : same a b) : same a x = same b x := by
  apply Bool.eq_iff_iff.mpr
  exact ⟨fun h => hl.trans (hl.symm hab) h, fun h => hl.trans hab h⟩

lemma not_same_rest (hf : t.Filed same hash) (hpairs : t.pairs ~ (k, v) :: rest) :
    ∀ q ∈ rest, ¬ same q.1 k := by
  intro q hq hsame
  have hdistinct := (Buckets.Sound.pairwise_perm hl hpairs).mp hf.sound.distinct
  exact (pairwise_cons.mp hdistinct).1 q hq (hl.symm hsame)

lemma represents_put (hr : s.Represents same f) (hpairs : t.pairs ~ (k, v) :: rest)
    (hrest : ∀ q ∈ rest, ¬ same q.1 k) (hkey : same k key)
    (hold : ∀ q, q ∈ rest ↔ q ∈ s.pairs ∧ ¬ same q.1 k) :
    t.Represents same fun x => if same key x then some v else f x := by
  intro x w
  have hcongr : same key x = same k x := same_congr hl (hl.symm hkey)
  simp only [hcongr]
  by_cases hx : same k x
  · rw [if_pos hx]
    constructor
    · rintro ⟨⟩
      exact ⟨(k, v), hpairs.mem_iff.mpr mem_cons_self, hx, rfl⟩
    · rintro ⟨q, hq, hsame, rfl⟩
      obtain rfl | hq := mem_cons.mp (hpairs.mem_iff.mp hq)
      · rfl
      · exact absurd (hl.trans hsame (hl.symm hx)) (hrest q hq)
  · rw [if_neg hx]
    refine (hr x w).trans ⟨?_, ?_⟩
    · rintro ⟨q, hq, hsame, rfl⟩
      have hne : ¬ same q.1 k := fun hqk => hx (hl.trans (hl.symm hqk) hsame)
      exact ⟨q, hpairs.mem_iff.mpr (mem_cons_of_mem _ ((hold q).mpr ⟨hq, hne⟩)), hsame, rfl⟩
    · rintro ⟨q, hq, hsame, rfl⟩
      obtain rfl | hq := mem_cons.mp (hpairs.mem_iff.mp hq)
      · exact absurd hsame hx
      · exact ⟨q, ((hold q).mp hq).1, hsame, rfl⟩

lemma represents_drop (hr : s.Represents same f) (hkey : same k key)
    (hold : ∀ q, q ∈ t.pairs ↔ q ∈ s.pairs ∧ ¬ same q.1 k) :
    t.Represents same fun x => if same key x then none else f x := by
  intro x w
  have hcongr : same key x = same k x := same_congr hl (hl.symm hkey)
  simp only [hcongr]
  by_cases hx : same k x
  · rw [if_pos hx]
    constructor
    · rintro ⟨⟩
    · rintro ⟨q, hq, hsame, rfl⟩
      exact absurd (hl.trans hsame (hl.symm hx)) ((hold q).mp hq).2
  · rw [if_neg hx]
    refine (hr x w).trans ⟨?_, ?_⟩
    · rintro ⟨q, hq, hsame, rfl⟩
      have hne : ¬ same q.1 k := fun hqk => hx (hl.trans (hl.symm hqk) hsame)
      exact ⟨q, (hold q).mpr ⟨hq, hne⟩, hsame, rfl⟩
    · rintro ⟨q, hq, hsame, rfl⟩
      exact ⟨q, ((hold q).mp hq).1, hsame, rfl⟩

lemma mem_rest (hf : s.Filed same hash) (hpairs : s.pairs ~ (k, v) :: rest) (q : Id × Id) :
    q ∈ rest ↔ q ∈ s.pairs ∧ ¬ same q.1 k := by
  have hnot := not_same_rest hl hf hpairs
  constructor
  · intro hq
    exact ⟨hpairs.mem_iff.mpr (mem_cons_of_mem _ hq), hnot q hq⟩
  · rintro ⟨hq, hne⟩
    obtain rfl | hq := mem_cons.mp (hpairs.mem_iff.mp hq)
    · exact absurd (hl.refl _) hne
    · exact hq

lemma find_of_represents (hf : s.Filed same hash) (hr : s.Represents same f) (found : Id → Bool)
    (hfound : ∀ c, found c = same c key) :
    (match s.dict.map.lookup (hash key) with
      | none => nil
      | some collisions =>
        match collisions.find? fun p => found p.1 with
        | some p => p.2
        | none => nil) = (f key).getD nil := by
  have hmem : ∀ {v}, f key = some v → ∃ b, s.dict.map.lookup (hash key) = some b ∧
      ∃ q ∈ b, same q.1 key := by
    intro v hv
    obtain ⟨q, hq, hsame, _⟩ := (hr key v).mp hv
    obtain ⟨b, hb, hqb⟩ := hf.sound.stored_in_bucket hl hq hsame
    exact ⟨b, hb, q, hqb, hsame⟩
  cases hb : s.dict.map.lookup (hash key) with
  | none =>
    cases hv : f key with
    | none => rfl
    | some v =>
      obtain ⟨b, hb', _⟩ := hmem hv
      cases hb.symm.trans hb'
  | some b =>
    cases hfind : b.find? fun p => found p.1 with
    | none =>
      cases hv : f key with
      | none => simp [hfind]
      | some v =>
        obtain ⟨b', hb', q, hq, hsame⟩ := hmem hv
        obtain rfl := some.inj (hb.symm.trans hb')
        have hnone := find?_eq_none.mp hfind q hq
        rw [hfound] at hnone
        exact absurd hsame hnone
    | some q =>
      have hq : found q.1 := by simpa using find?_some hfind
      rw [hfound] at hq
      have hstored : q ∈ s.pairs := Buckets.mem_pairs.mpr ⟨_, b, hb, mem_of_find?_eq_some hfind⟩
      have hv := (hr key q.2).mpr ⟨q, hstored, hq, rfl⟩
      simp [hfind, hv]

end Lawful

end Maps

namespace Held

variable {s t : Held} {k v k' v' o : Id}

def keyExcess (s : Held) (o : Id) : ℤ := s.keysTaken o - s.keysGiven o - s.keysStored o
def valueExcess (s : Held) (o : Id) : ℤ := s.valuesTaken o - s.valuesGiven o - s.valuesStored o

lemma owned_iff : s.Owned ↔ ∀ o, s.keyExcess o = 0 ∧ s.valueExcess o = 0 := by
  refine forall_congr' fun o => ?_
  rw [keyExcess, valueExcess]
  omega

lemma keysStored_of_perm {l : List (Id × Id)} (h : s.pairs ~ l) : s.keysStored o = (l.map Prod.fst).count o :=
  (h.map Prod.fst).count_eq o

lemma valuesStored_of_perm {l : List (Id × Id)} (h : s.pairs ~ l) :
    s.valuesStored o = (l.map Prod.snd).count o :=
  (h.map Prod.snd).count_eq o

lemma stored_cons (h : t.pairs ~ (k, v) :: s.pairs) (o : Id) :
    t.keysStored o = s.keysStored o + (if k = o then 1 else 0) ∧
      t.valuesStored o = s.valuesStored o + if v = o then 1 else 0 := by
  rw [keysStored_of_perm h, valuesStored_of_perm h, map_cons, map_cons, count_cons, count_cons]
  simp [keysStored, valuesStored]

lemma stored_swap {rest : List (Id × Id)} (hs : s.pairs ~ (k', v') :: rest) (ht : t.pairs ~ (k, v) :: rest)
    (o : Id) : t.keysStored o + (if k' = o then 1 else 0) = s.keysStored o + (if k = o then 1 else 0) ∧
      t.valuesStored o + (if v' = o then 1 else 0) = s.valuesStored o + if v = o then 1 else 0 := by
  rw [keysStored_of_perm ht, keysStored_of_perm hs, valuesStored_of_perm ht, valuesStored_of_perm hs]
  simp only [map_cons, count_cons, beq_iff_eq]
  constructor <;> omega

lemma Stores.excess (h : Stores s t k v) (o : Id) :
    t.keyExcess o = s.keyExcess o ∧ t.valueExcess o = s.valueExcess o := by
  obtain ⟨hkeys, hvalues⟩ := stored_cons h.pairs o
  simp only [keyExcess, valueExcess, keysTaken, keysGiven, valuesTaken, valuesGiven, h.calls,
    count_append, count_cons, count_nil, hkeys, hvalues]
  by_cases hk : k = o <;> by_cases hv : v = o <;> simp [hk, hv] <;> omega

lemma Replaces.excess (h : Replaces s t k v k' v') (o : Id) :
    t.keyExcess o = s.keyExcess o + (if k = o then 1 else 0) ∧ t.valueExcess o = s.valueExcess o := by
  obtain ⟨rest, hs, ht⟩ := h.pairs
  have hkeys : t.keysStored o = s.keysStored o := by
    rw [keysStored_of_perm ht, keysStored_of_perm hs, map_cons, map_cons]
  obtain ⟨-, hvalues⟩ := stored_swap hs ht o
  simp only [keyExcess, valueExcess, keysTaken, keysGiven, valuesTaken, valuesGiven, h.calls,
    count_append, count_cons, count_nil, hkeys]
  by_cases hk : k = o <;> by_cases hv : v = o <;> by_cases hv' : v' = o <;>
    simp [hk, hv, hv'] at hvalues ⊢ <;> omega

lemma Drops.excess (h : Drops s t k v) (o : Id) :
    t.keyExcess o = s.keyExcess o ∧ t.valueExcess o = s.valueExcess o := by
  obtain ⟨hkeys, hvalues⟩ := stored_cons h.pairs o
  simp only [keyExcess, valueExcess, keysTaken, keysGiven, valuesTaken, valuesGiven, h.calls,
    count_append, count_cons, count_nil, hkeys, hvalues]
  by_cases hk : k = o <;> by_cases hv : v = o <;> simp [hk, hv] <;> omega

variable {s t : Held} {same : Id → Id → Bool} {hash : Id → ℕ} {k v k' v' : Id} {h : ℕ}
  {b : List (Id × Id)} {f : Id → Option Id} {key : Id}

structure Puts (s t : Held) (hash : Id → ℕ) (h : ℕ) (b : List (Id × Id)) : Prop where
  map : t.dict.map = s.dict.map.insert h b
  filed : ∀ p ∈ b, hash p.1 = h

lemma drops_of_search {finds : Id × Id → Bool} (hl : LawfulKeys same hash)
    (hfinds : ∀ p, finds p = same p.1 key)
    (hmissing : ((s.dict.map.lookup (hash key)).bind fun b => b.find? finds) = none → t = s)
    (hfound : ∀ b k v, s.dict.map.lookup (hash key) = some b → b.find? finds = some (k, v) →
      t.dict.map = s.dict.map.insert (hash key) (b.eraseP finds) ∧
        t.calls = s.calls ++ [.gaveKey k, .gaveValue v] ∧ t.dict.count = s.dict.count - 1) :
    (t = s ∧ (s.Filed same hash → ∀ p ∈ s.pairs, ¬ same p.1 key)) ∨
      ∃ k v, same k key ∧ s.Drops t k v ∧ (s.Filed same hash → ∃ b, s.Puts t hash (hash key) b) := by
  have hstored : ∀ p ∈ s.pairs, s.Filed same hash → same p.1 key →
      ∃ b, s.dict.map.lookup (hash key) = some b ∧ p ∈ b :=
    fun p hp hf hsame => hf.sound.stored_in_bucket hl hp hsame
  cases hb : s.dict.map.lookup (hash key) with
  | none =>
    refine .inl ⟨hmissing (by rw [hb]; rfl), ?_⟩
    intro hf p hp hsame
    obtain ⟨b, hb', _⟩ := hstored p hp hf hsame
    cases hb.symm.trans hb'
  | some b =>
    cases hfind : b.find? finds with
    | none =>
      refine .inl ⟨hmissing (by rw [hb]; exact hfind), ?_⟩
      intro hf p hp hsame
      obtain ⟨b', hb', hpb⟩ := hstored p hp hf hsame
      obtain rfl := some.inj (hb.symm.trans hb')
      have hnot := find?_eq_none.mp hfind p hpb
      rw [hfinds] at hnot
      exact hnot hsame
    | some q =>
      obtain ⟨k, v⟩ := q
      obtain ⟨hmap, hcalls, hcount⟩ := hfound b k v hb hfind
      obtain ⟨pre, post, hsplit, herase, hk⟩ := eraseP_of_find hfind
      rw [hfinds] at hk
      rw [herase] at hmap
      have hb' := hb
      rw [hsplit] at hb'
      obtain ⟨rest, hold, _, hnew⟩ := pairs_setMap_middle (k, v) hb'
      have hpairs : t.pairs = (s.setMap (hash key) (pre ++ post)).pairs := congrArg Buckets.pairs hmap
      refine .inr ⟨k, v, hk, ⟨?_, hcalls, hcount⟩, fun hf => ⟨pre ++ post, hmap, ?_⟩⟩
      · rw [hpairs]
        exact hold.trans (hnew.symm.cons _)
      · intro p hp
        apply hf.sound.filed _ _ hb
        rw [hsplit]
        obtain hp | hp := mem_append.mp hp
        · exact mem_append_left _ hp
        · exact mem_append_right _ (mem_cons_of_mem _ hp)
variable (hl : LawfulKeys same hash) (hf : s.Filed same hash) (hput : s.Puts t hash h b)

include hl hf hput

lemma Filed.put {l : List (Id × Id)} (hpairs : t.pairs ~ l)
    (hdistinct : l.Pairwise fun p q => ¬ same p.1 q.1) (hcount : t.dict.count = l.length) :
    t.Filed same hash where
  sound := by
    have hsound := (Buckets.Sound.pairwise_perm hl hpairs).mpr hdistinct
    rw [pairs, hput.map] at hsound
    rw [hput.map]
    exact hf.sound.put hput.filed hsound
  count := by rw [hcount, hpairs.length_eq]

lemma Filed.stores (hs : s.Stores t k v) (hfresh : ∀ p ∈ s.pairs, ¬ same p.1 k) : t.Filed same hash := by
  refine hf.put hl hput hs.pairs ?_ ?_
  · exact .cons (fun q hq hsame => hfresh q hq (hl.symm hsame)) hf.sound.distinct
  · rw [hs.count, hf.count, length_cons]

lemma Filed.replaces (hr : s.Replaces t k v k' v') : t.Filed same hash := by
  obtain ⟨rest, hold, hnew⟩ := hr.pairs
  have hdistinct := pairwise_cons.mp
    ((Buckets.Sound.pairwise_perm hl hold).mp hf.sound.distinct)
  refine hf.put hl hput hnew (.cons hdistinct.1 hdistinct.2) ?_
  rw [hr.count, hf.count, hold.length_eq]
  rfl

lemma Filed.drops (hd : s.Drops t k v) : t.Filed same hash := by
  have hdistinct := pairwise_cons.mp
    ((Buckets.Sound.pairwise_perm hl hd.pairs).mp hf.sound.distinct)
  refine hf.put hl hput (List.Perm.refl _) hdistinct.2 ?_
  rw [hd.count, hf.count, hd.pairs.length_eq, length_cons, Nat.add_sub_cancel]

omit hput

omit hf in
lemma Represents.stores (hr : s.Represents same f) (hs : s.Stores t k v)
    (hfresh : ∀ p ∈ s.pairs, ¬ same p.1 k) (hkey : same k key) :
    t.Represents same fun x => if same key x then some v else f x :=
  represents_put hl hr hs.pairs hfresh hkey fun q => ⟨fun hq => ⟨hq, hfresh q hq⟩, And.left⟩

lemma Represents.replaces (hr : s.Represents same f) (hs : s.Replaces t k v k' v') (hkey : same k' key) :
    t.Represents same fun x => if same key x then some v else f x := by
  obtain ⟨rest, hold, hnew⟩ := hs.pairs
  exact represents_put hl hr hnew (not_same_rest hl hf hold) hkey (mem_rest hl hf hold)

lemma Represents.drops (hr : s.Represents same f) (hd : s.Drops t k v) (hkey : same k key) :
    t.Represents same fun x => if same key x then none else f x :=
  represents_drop hl hr hkey (mem_rest hl hf hd.pairs)

omit hf in
lemma Represents.absent (hr : s.Represents same f) (hfresh : ∀ p ∈ s.pairs, ¬ same p.1 key) :
    s.Represents same fun x => if same key x then none else f x := by
  intro x w
  by_cases hx : same key x
  · simp only [hx, if_true]
    constructor
    · rintro ⟨⟩
    · rintro ⟨q, hq, hsame, _⟩
      exact absurd (hl.trans hsame (hl.symm hx)) (hfresh q hq)
  · simp only [hx]
    exact hr x w

end Held

namespace KeyMessages

variable {m : KeyMessages} {s t : Held} {key value : Id} {copyKey : Bool} {f : Id → Option Id}
  {r : DictionaryRequest} {rs : List DictionaryRequest}

structure Lawful (m : KeyMessages) : Prop where
  keys : LawfulKeys m.isEqual m.hash
  copy : ∀ n k, m.isEqual (m.copy n k) k

def step (m : KeyMessages) (s : Held) : DictionaryRequest → Checked Held
  | .insert key value copyKey => return m.insert s key value copyKey
  | .remove key => return m.remove s key
  | .lookup _ => return s

lemma finds_eq (hm : m.Lawful) (key c : Id) : m.finds key c = m.isEqual c key := by
  rw [finds]
  by_cases heq : c = key
  · subst heq
    rw [hm.keys.refl, Bool.or_true]
  · have hne : (c == key) = false := beq_eq_false_iff_ne.mpr heq
    rw [hne, Bool.false_or]

lemma same_kept (hm : m.Lawful) (s : Held) : m.isEqual (m.kept s key copyKey) key := by
  rw [kept]
  split_ifs
  · exact hm.copy _ _
  · exact hm.keys.refl _

lemma insert_effect (hm : m.Lawful) (s : Held) (key value : Id) (copyKey : Bool) :
    let t := m.insert s key value copyKey
    let k := m.kept s key copyKey
    (s.Stores t k value ∧ (s.Filed m.isEqual m.hash → ∀ p ∈ s.pairs, ¬ m.isEqual p.1 key) ∧
      (s.Filed m.isEqual m.hash → ∃ b, s.Puts t m.hash (m.hash k) b)) ∨
    ∃ k' v', (k', v') ∈ s.pairs ∧ m.isEqual k' key ∧ s.Replaces t k value k' v' ∧
      (s.Filed m.isEqual m.hash → ∃ b, s.Puts t m.hash (m.hash k) b) := by
  intro t k
  have hk : m.isEqual k key := same_kept hm s
  have hstored : ∀ p ∈ s.pairs, s.Filed m.isEqual m.hash → m.isEqual p.1 key →
      ∃ b, s.dict.map.lookup (m.hash k) = some b ∧ p ∈ b := by
    intro p hp hf hsame
    rw [hm.keys.hash_eq hk]
    exact hf.sound.stored_in_bucket hm.keys hp hsame
  cases hb : s.dict.map.lookup (m.hash k) with
  | none =>
    have ht : t = ((((s.call (.tookKey k)).call (.tookValue value)).setMap (m.hash k)
        [(k, value)]).setCount (s.dict.count + 1)) := by
      simp only [t, insert, file, call, k, hb]
    refine .inl ⟨⟨?_, ?_, ?_⟩, ?_, fun _ => ⟨[(k, value)], ?_, ?_⟩⟩
    · rw [ht]
      exact Perm.of_eq (pairs_setMap_none (s := s) (q := (k, value)) hb)
    · rw [ht]
      simp [call, setMap, setCount]
    · rw [ht]
      rfl
    · intro hf p hp hsame
      obtain ⟨b, hb', _⟩ := hstored p hp hf hsame
      cases hb.symm.trans hb'
    · rw [ht]
      rfl
    · intro p hp
      rw [mem_singleton.mp hp]
  | some b =>
    cases hr : replaceFirst (m.finds k) value b with
    | none =>
      have ht : t = ((((s.call (.tookKey k)).call (.tookValue value)).setMap (m.hash k)
          (b ++ [(k, value)])).setCount (s.dict.count + 1)) := by
        simp only [t, insert, file, call, k, hb, hr]
      refine .inl ⟨⟨?_, ?_, ?_⟩, ?_, fun hf => ⟨b ++ [(k, value)], ?_, ?_⟩⟩
      · rw [ht]
        exact pairs_setMap_append (s := s) hb
      · rw [ht]
        simp [call, setMap, setCount]
      · rw [ht]
        rfl
      · intro hf p hp hsame
        obtain ⟨b', hb', hpb⟩ := hstored p hp hf hsame
        obtain rfl := some.inj (hb.symm.trans hb')
        have hnot := replaceFirst_eq_none hr p hpb
        rw [finds_eq hm] at hnot
        exact absurd (hm.keys.trans hsame (hm.keys.symm hk)) (by simp [hnot])
      · rw [ht]
        rfl
      · intro p hp
        obtain hp | hp := mem_append.mp hp
        · exact hf.sound.filed _ _ hb p hp
        · rw [mem_singleton.mp hp]
    | some r =>
      obtain ⟨e, b'⟩ := r
      obtain ⟨pre, k', post, rfl, rfl, hk'⟩ := replaceFirst_eq_some hr
      rw [finds_eq hm] at hk'
      have ht : t = (((s.call (.tookKey k)).call (.tookValue value)).call (.gaveValue e)).setMap
          (m.hash k) (pre ++ (k', value) :: post) := by
        simp only [t, insert, file, call, k, hb, hr]
      obtain ⟨rest, hold, hnew, _⟩ := pairs_setMap_middle (k', value) hb
      refine .inr ⟨k', e, hold.mem_iff.mpr mem_cons_self, hm.keys.trans hk' hk, ⟨⟨rest, hold, ?_⟩, ?_, ?_⟩,
        fun hf => ⟨pre ++ (k', value) :: post, ?_, ?_⟩⟩
      · rw [ht]
        exact hnew
      · rw [ht]
        simp [call, setMap]
      · rw [ht]
        rfl
      · rw [ht]
        rfl
      · intro p hp
        have hall := hf.sound.filed _ _ hb
        obtain hp | hp := mem_append.mp hp
        · exact hall p (mem_append_left _ hp)
        · obtain rfl | hp := mem_cons.mp hp
          · exact hall (k', e) (mem_append_right _ mem_cons_self)
          · exact hall p (mem_append_right _ (mem_cons_of_mem _ hp))

lemma remove_effect (hm : m.Lawful) (s : Held) (key : Id) :
    (m.remove s key = s ∧ (s.Filed m.isEqual m.hash → ∀ p ∈ s.pairs, ¬ m.isEqual p.1 key)) ∨
    ∃ k v, m.isEqual k key ∧ s.Drops (m.remove s key) k v ∧
      (s.Filed m.isEqual m.hash → ∃ b, s.Puts (m.remove s key) m.hash (m.hash key) b) := by
  refine drops_of_search hm.keys (fun p => finds_eq hm key p.1) ?_ ?_
  · intro hnone
    rw [remove]
    cases hb : s.dict.map.lookup (m.hash key) with
    | none => rfl
    | some b =>
      rw [hb, bind_some] at hnone
      dsimp only
      rw [hnone]
  · intro b k v hb hfind
    have ht : m.remove s key = (((s.call (.gaveKey k)).call (.gaveValue v)).setMap (m.hash key)
        (b.eraseP fun p => m.finds key p.1)).setCount (s.dict.count - 1) := by
      simp only [remove, hb, hfind]
    rw [ht]
    refine ⟨rfl, ?_, rfl⟩
    simp [call, setMap, setCount]

def Fresh (m : KeyMessages) (s : Held) : DictionaryRequest → Prop
  | .insert key _ _ => ∀ p ∈ s.pairs, ¬ m.isEqual p.1 key
  | _ => True

lemma step_represents (hm : m.Lawful) (hf : s.Filed m.isEqual m.hash) (hr : s.Represents m.isEqual f)
    (r : DictionaryRequest) : ∃ t, m.step s r = .ok t ∧ t.Filed m.isEqual m.hash ∧
      t.Represents m.isEqual (assign m.isEqual id f r) := by
  cases r with
  | insert key value copyKey =>
    refine ⟨_, rfl, ?_⟩
    have hkept : m.isEqual (m.kept s key copyKey) key := same_kept hm s
    obtain ⟨hs, hfresh, hput⟩ | ⟨k', v', hmem, hk', hs, hput⟩ := insert_effect hm s key value copyKey
    · obtain ⟨b, hput⟩ := hput hf
      have hnot : ∀ p ∈ s.pairs, ¬ m.isEqual p.1 (m.kept s key copyKey) := by
        intro p hp hsame
        exact hfresh hf p hp (hm.keys.trans hsame hkept)
      exact ⟨hf.stores hm.keys hput hs hnot, hr.stores hm.keys hs hnot hkept⟩
    · obtain ⟨b, hput⟩ := hput hf
      exact ⟨hf.replaces hm.keys hput hs, hr.replaces hm.keys hf hs hk'⟩
  | remove key =>
    refine ⟨_, rfl, ?_⟩
    obtain ⟨heq, hfresh⟩ | ⟨k, v, hk, hd, hput⟩ := remove_effect hm s key
    · rw [heq]
      exact ⟨hf, hr.absent hm.keys (hfresh hf)⟩
    · obtain ⟨b, hput⟩ := hput hf
      exact ⟨hf.drops hm.keys hput hd, hr.drops hm.keys hf hd hk⟩
  | lookup key => exact ⟨s, rfl, hf, hr⟩

lemma step_excess (hm : m.Lawful) (ht : m.step s r = .ok t) (o : Id) :
    s.keyExcess o ≤ t.keyExcess o ∧ t.valueExcess o = s.valueExcess o := by
  cases r with
  | insert key value copyKey =>
    obtain rfl := ok.inj ht
    obtain ⟨hs, _, _⟩ | ⟨k', v', _, _, hs, _⟩ := insert_effect hm s key value copyKey
    · obtain ⟨hkeys, hvalues⟩ := hs.excess o
      exact ⟨hkeys.ge, hvalues⟩
    · obtain ⟨hkeys, hvalues⟩ := hs.excess o
      refine ⟨?_, hvalues⟩
      rw [hkeys]
      split_ifs <;> omega
  | remove key =>
    obtain rfl := ok.inj ht
    obtain ⟨heq, _⟩ | ⟨k, v, _, hd, _⟩ := remove_effect hm s key
    · rw [heq]
      exact ⟨le_rfl, rfl⟩
    · obtain ⟨hkeys, hvalues⟩ := hd.excess o
      exact ⟨hkeys.ge, hvalues⟩
  | lookup key =>
    obtain rfl := ok.inj ht
    exact ⟨le_rfl, rfl⟩

lemma step_owned (hm : m.Lawful) (ho : s.Owned) (hfresh : m.Fresh s r) (ht : m.step s r = .ok t) :
    t.Owned := by
  rw [owned_iff] at ho ⊢
  intro o
  cases r with
  | insert key value copyKey =>
    obtain rfl := ok.inj ht
    obtain ⟨hs, _, _⟩ | ⟨k', v', hmem, hk', _, _⟩ := insert_effect hm s key value copyKey
    · rw [(hs.excess o).1, (hs.excess o).2]
      exact ho o
    · exact absurd hk' (hfresh (k', v') hmem)
  | remove key =>
    obtain rfl := ok.inj ht
    obtain ⟨heq, _⟩ | ⟨k, v, _, hd, _⟩ := remove_effect hm s key
    · rw [heq]
      exact ho o
    · rw [(hd.excess o).1, (hd.excess o).2]
      exact ho o
  | lookup key =>
    obtain rfl := ok.inj ht
    exact ho o

lemma step_leaks (hm : m.Lawful) (hf : s.Filed m.isEqual m.hash) (ho : s.Owned) (hfresh : ¬ m.Fresh s r)
    (ht : m.step s r = .ok t) : ∃ o, 0 < t.keyExcess o := by
  rw [owned_iff] at ho
  cases r with
  | insert key value copyKey =>
    obtain rfl := ok.inj ht
    obtain ⟨_, hnone, _⟩ | ⟨k', v', _, _, hs, _⟩ := insert_effect hm s key value copyKey
    · exact absurd (hnone hf) hfresh
    · refine ⟨m.kept s key copyKey, ?_⟩
      rw [(hs.excess _).1, (ho _).1, if_pos rfl]
      decide
  | remove key => exact absurd trivial hfresh
  | lookup key => exact absurd trivial hfresh

end KeyMessages

def latest (same : Id → Id → Bool) (keep : Held → Id → Id) (step : Held → DictionaryRequest → Checked Held) :
    Held → (Id → Option Id) → List DictionaryRequest → Id → Option Id
  | _, f, [] => f
  | s, f, r :: rs =>
    match step s r with
    | .ok t => latest same keep step t (assign same (keep s) f r) rs
    | .error _ => f

lemma run_represents (step : Held → DictionaryRequest → Checked Held) {same : Id → Id → Bool}
    {hash : Id → ℕ} (keep : Held → Id → Id)
    (hstep : ∀ s f r, s.Filed same hash → s.Represents same f → ∃ t, step s r = .ok t ∧
      t.Filed same hash ∧ t.Represents same (assign same (keep s) f r)) :
    ∀ (rs) {s f}, s.Filed same hash → s.Represents same f → ∃ t, run step s rs = .ok t ∧
      t.Filed same hash ∧ t.Represents same (latest same keep step s f rs) := by
  intro rs
  induction rs with
  | nil =>
    intro s f hf hr
    exact ⟨s, run_nil, hf, hr⟩
  | cons r rs ih =>
    intro s f hf hr
    obtain ⟨t, ht, hf', hr'⟩ := hstep s f r hf hr
    obtain ⟨u, hu, hf'', hr''⟩ := ih hf' hr'
    refine ⟨u, run_cons_eq_ok.mpr ⟨t, ht, hu⟩, hf'', ?_⟩
    rw [latest, ht]
    exact hr''

lemma Held.Filed.empty {same : Id → Id → Bool} {hash : Id → ℕ} : empty.Filed same hash :=
  ⟨Buckets.Sound.empty, rfl⟩

lemma Held.Owned.empty : empty.Owned := fun _ => ⟨rfl, rfl⟩

end TouchHle.Foundation
