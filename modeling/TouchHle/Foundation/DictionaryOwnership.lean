import TouchHle.Foundation.DictionaryRuns

namespace TouchHle.Foundation

open Lib Objc List Option Held
open scoped List

namespace Held

variable {s t : Held} {k v k' v' o : Id} {same : Id → Id → Bool} {hash : Id → ℕ} {h : ℕ}
  {b : List (Id × Id)} {f : Id → Option Id} {key : Id}

structure Exchanges (s t : Held) (k v k' v' : Id) : Prop where
  pairs : ∃ rest, s.pairs ~ (k', v') :: rest ∧ t.pairs ~ (k, v) :: rest
  calls : t.calls = s.calls ++ [.tookKey k, .tookValue v, .gaveKey k', .gaveValue v']
  count : t.dict.count = s.dict.count

lemma Exchanges.excess (h : Exchanges s t k v k' v') (o : Id) :
    t.keyExcess o = s.keyExcess o ∧ t.valueExcess o = s.valueExcess o := by
  obtain ⟨rest, hs, ht⟩ := h.pairs
  obtain ⟨hkeys, hvalues⟩ := stored_swap hs ht o
  simp only [keyExcess, valueExcess, keysTaken, keysGiven, valuesTaken, valuesGiven, h.calls,
    count_append, count_cons, count_nil]
  constructor
  · by_cases hk : k = o <;> by_cases hk' : k' = o <;> simp [hk, hk'] at hkeys ⊢ <;> omega
  · by_cases hv : v = o <;> by_cases hv' : v' = o <;> simp [hv, hv'] at hvalues ⊢ <;> omega

section

variable (hl : LawfulKeys same hash) (hf : s.Filed same hash)

include hl hf

lemma Filed.exists_represents : ∃ f, s.Represents same f := by
  refine ⟨fun k => (s.pairs.find? fun p => same p.1 k).map Prod.snd, fun k v => ?_⟩
  rw [map_eq_some_iff]
  constructor
  · rintro ⟨p, hp, rfl⟩
    exact ⟨p, mem_of_find?_eq_some hp, by simpa using find?_some hp, rfl⟩
  · rintro ⟨q, hq, hsame, rfl⟩
    have hsome : (s.pairs.find? fun p => same p.1 k).isSome :=
      find?_isSome.mpr ⟨q, hq, hsame⟩
    obtain ⟨p, hp⟩ := isSome_iff_exists.mp hsome
    have hpk : same p.1 k := by simpa using find?_some hp
    obtain rfl := hf.sound.unique hl (mem_of_find?_eq_some hp) hq (hl.trans hpk (hl.symm hsame))
    exact ⟨p, hp, rfl⟩

lemma Filed.exchanges (hput : s.Puts t hash h b) (hs : s.Exchanges t k v k' v') (hsame : same k k') :
    t.Filed same hash := by
  obtain ⟨rest, hold, hnew⟩ := hs.pairs
  have hdistinct := pairwise_cons.mp
    ((Buckets.Sound.pairwise_perm hl hold).mp hf.sound.distinct)
  refine hf.put hl hput hnew (.cons ?_ hdistinct.2) ?_
  · intro q hq hkq
    exact hdistinct.1 q hq (hl.trans (hl.symm hsame) hkq)
  · rw [hs.count, hf.count, hold.length_eq]
    rfl

lemma Represents.exchanges (hr : s.Represents same f) (hs : s.Exchanges t k v k' v') (hsame : same k k')
    (hkey : same k key) : t.Represents same fun x => if same key x then some v else f x := by
  obtain ⟨rest, hold, hnew⟩ := hs.pairs
  have hother : ∀ q : Id × Id, same q.1 k ↔ same q.1 k' :=
    fun q => ⟨fun h => hl.trans h hsame, fun h => hl.trans h (hl.symm hsame)⟩
  refine represents_put hl hr hnew (fun q hq => ?_) hkey fun q => ?_
  · rw [hother]
    exact not_same_rest hl hf hold q hq
  · rw [hother]
    exact mem_rest hl hf hold q

end

end Held

namespace CFCallBacks

variable {cb : CFCallBacks} {s t : Held} {key value : Id} {f : Id → Option Id} {r : DictionaryRequest}
  {rs : List DictionaryRequest}

structure Lawful (cb : CFCallBacks) : Prop where
  keys : LawfulKeys cb.equalKeys cb.hash
  retain : ∀ f ∈ cb.key.retain, ∀ n k, cb.equalKeys (f n k) k

def step (cb : CFCallBacks) (s : Held) : DictionaryRequest → Checked Held
  | .insert key value _ => cb.insert s key value
  | .remove key => return (cb.remove s key).2
  | .lookup _ => return s

def keptKey (cb : CFCallBacks) (s : Held) (key : Id) : Id := (cb.retainKey s key).1

def keptValue (cb : CFCallBacks) (s : Held) (value : Id) : Id :=
  (cb.value.retain.map fun f => f (s.calls.length + 1) value).getD value

lemma same_keptKey (hc : cb.Lawful) (s : Held) (key : Id) : cb.equalKeys (cb.keptKey s key) key := by
  rw [keptKey, retainKey]
  cases hf : cb.key.retain with
  | none => exact hc.keys.refl _
  | some f => exact hc.retain f hf _ _

lemma remove_effect (hc : cb.Lawful) (s : Held) (key : Id) :
    ((cb.remove s key).2 = s ∧ (s.Filed cb.equalKeys cb.hash → ∀ p ∈ s.pairs, ¬ cb.equalKeys p.1 key)) ∨
    ∃ k v, cb.equalKeys k key ∧ s.Drops (cb.remove s key).2 k v ∧
      (s.Filed cb.equalKeys cb.hash → ∃ b, s.Puts (cb.remove s key).2 cb.hash (cb.hash key) b) := by
  refine drops_of_search hc.keys (fun _ => rfl) ?_ ?_
  · intro hnone
    rw [remove]
    cases hb : s.dict.map.lookup (cb.hash key) with
    | none => rfl
    | some b =>
      rw [hb, bind_some] at hnone
      dsimp only
      rw [hnone]
  · intro b k v hb hfind
    have ht : (cb.remove s key).2 = (((s.setMap (cb.hash key) (b.eraseP fun p => cb.equalKeys p.1 key)).call
        (.gaveKey k)).call (.gaveValue v)).setCount (s.dict.count - 1) := by
      simp only [remove, hb, hfind]
      rfl
    rw [ht]
    refine ⟨rfl, ?_, rfl⟩
    simp [call, setMap, setCount]

lemma insert_effect (hc : cb.Lawful) (s : Held) (key value : Id) :
    ∃ t, cb.insert s key value = .ok t ∧
      ((s.Stores t (cb.keptKey s key) (cb.keptValue s value) ∧
        (s.Filed cb.equalKeys cb.hash → (∀ p ∈ s.pairs, ¬ cb.equalKeys p.1 key) ∧
          ∃ b, s.Puts t cb.hash (cb.hash key) b)) ∨
      ∃ k' v', cb.equalKeys k' key ∧
        s.Exchanges t (cb.keptKey s key) (cb.keptValue s value) k' v' ∧
        (s.Filed cb.equalKeys cb.hash → ∃ b, s.Puts t cb.hash (cb.hash key) b)) := by
  obtain ⟨k, hk⟩ : ∃ k, k = cb.keptKey s key := ⟨_, rfl⟩
  obtain ⟨v, hv⟩ : ∃ v, v = cb.keptValue s value := ⟨_, rfl⟩
  have hsame : cb.equalKeys k key := hk ▸ same_keptKey hc s key
  have hhash : cb.hash k = cb.hash key := hc.keys.hash_eq hsame
  obtain ⟨u, hu⟩ : ∃ u, u = ((s.call (.tookKey k)).call (.tookValue v)).setCount (s.dict.count + 1) :=
    ⟨_, rfl⟩
  have hvalue : cb.retainValue (s.call (.tookKey k)) value =
      (v, (s.call (.tookKey k)).call (.tookValue v)) := by
    have hlength : (s.call (.tookKey k)).calls.length = s.calls.length + 1 := length_append
    simp only [retainValue, hlength, hv, keptValue]
  have hkey : cb.retainKey s key = (k, s.call (.tookKey k)) := by
    rw [hk]
    rfl
  have hempty : s.dict.map.lookup (cb.hash key) = none →
      cb.insert s key value = .ok (u.setMap (cb.hash key) [(k, v)]) := by
    intro hb
    have hlookup : (((s.call (.tookKey k)).call (.tookValue v)).setCount
        (((s.call (.tookKey k)).call (.tookValue v)).dict.count + 1)).dict.map.lookup
          (cb.hash key) = none := hb
    simp only [insert, hkey, hvalue, hlookup, hu]
    rfl
  have hbucket : ∀ b, s.dict.map.lookup (cb.hash key) = some b → cb.insert s key value = do
      let collisions ← unwrap ((cb.remove u k).2.dict.map.lookup (cb.hash key))
      return (cb.remove u k).2.setMap (cb.hash key) (collisions ++ [(k, v)]) := by
    intro b hb
    have hlookup : (((s.call (.tookKey k)).call (.tookValue v)).setCount
        (((s.call (.tookKey k)).call (.tookValue v)).dict.count + 1)).dict.map.lookup
          (cb.hash key) = some b := hb
    simp only [insert, hkey, hvalue, hlookup, hu]
    rfl
  rw [← hk, ← hv]
  have hstored : ∀ p ∈ s.pairs, s.Filed cb.equalKeys cb.hash → cb.equalKeys p.1 key →
      ∃ b, s.dict.map.lookup (cb.hash key) = some b ∧ p ∈ b :=
    fun p hp hf hsame => hf.sound.stored_in_bucket hc.keys hp hsame
  cases hb : s.dict.map.lookup (cb.hash key) with
  | none =>
    rw [hempty hb]
    refine ⟨_, rfl, .inl ⟨⟨?_, ?_, ?_⟩, fun hf => ⟨?_, [(k, v)], ?_, ?_⟩⟩⟩
    · rw [hu]
      exact Perm.of_eq (pairs_setMap_none (s := s) hb)
    · rw [hu]
      simp [call, setMap, setCount]
    · rw [hu]
      rfl
    · intro p hp hsame
      obtain ⟨b, hb', _⟩ := hstored p hp hf hsame
      cases hb.symm.trans hb'
    · rw [hu]
      rfl
    · intro p hp
      rw [mem_singleton.mp hp, hhash]
  | some b =>
    rw [hbucket b hb]
    have hub : u.dict.map.lookup (cb.hash k) = some b := by
      rw [hu, hhash]
      exact hb
    cases hfind : b.find? fun p => cb.equalKeys p.1 k with
    | none =>
      have hremove : (cb.remove u k).2 = u := by simp only [remove, hub, hfind]
      have hubkey : u.dict.map.lookup (cb.hash key) = some b := by
        rw [← hhash]
        exact hub
      simp only [hremove, hubkey, unwrap_some, ok_bind]
      refine ⟨_, rfl, .inl ⟨⟨?_, ?_, ?_⟩, fun hf => ⟨?_, b ++ [(k, v)], ?_, ?_⟩⟩⟩
      · rw [hu]
        exact pairs_setMap_append (s := s) hb
      · rw [hu]
        simp [call, setMap, setCount]
      · rw [hu]
        rfl
      · intro p hp hpkey
        obtain ⟨b', hb', hpb⟩ := hstored p hp hf hpkey
        obtain rfl := some.inj (hb.symm.trans hb')
        exact find?_eq_none.mp hfind p hpb (hc.keys.trans hpkey (hc.keys.symm hsame))
      · rw [hu]
        rfl
      · intro p hp
        obtain hp | hp := mem_append.mp hp
        · exact hf.sound.filed _ _ hb p hp
        · rw [mem_singleton.mp hp, hhash]
    | some q =>
      obtain ⟨k', v'⟩ := q
      obtain ⟨pre, post, hsplit, herase, hk'⟩ := eraseP_of_find hfind
      have hremove : (cb.remove u k).2 = (((u.setMap (cb.hash key) (pre ++ post)).call (.gaveKey k')).call
          (.gaveValue v')).setCount s.dict.count := by
        have hcount : u.dict.count - 1 = s.dict.count := by
          rw [hu]
          rfl
        simp only [remove, hub, hfind, herase, hhash]
        exact congrArg (setCount _) hcount
      have hlookup : (cb.remove u k).2.dict.map.lookup (cb.hash key) = some (pre ++ post) := by
        rw [hremove]
        exact AList.lookup_insert _
      have hmap : ((cb.remove u k).2.setMap (cb.hash key) (pre ++ post ++ [(k, v)])).dict.map =
          s.dict.map.insert (cb.hash key) (pre ++ post ++ [(k, v)]) := by
        rw [hremove, hu]
        exact AList.insert_insert _
      rw [hsplit] at hb
      obtain ⟨rest, hold, _, hnew⟩ := pairs_setMap_middle (k, v) hb
      simp only [hlookup, unwrap_some, ok_bind]
      refine ⟨_, rfl, .inr ⟨k', v', hc.keys.trans hk' hsame, ⟨⟨rest, hold, ?_⟩, ?_, ?_⟩,
        fun hf => ⟨pre ++ post ++ [(k, v)], hmap, ?_⟩⟩⟩
      · have hpairs : ((cb.remove u k).2.setMap (cb.hash key) (pre ++ post ++ [(k, v)])).pairs =
            (pre ++ post ++ [(k, v)]) ++ Buckets.pairs (s.dict.map.erase (cb.hash key)) := by
          rw [pairs, hmap]
          rfl
        rw [hpairs, append_assoc, singleton_append]
        exact perm_middle.trans (hnew.cons _)
      · rw [hremove, hu]
        simp [call, setMap, setCount]
      · rw [hremove]
        rfl
      · intro p hp
        have hall := hf.sound.filed _ _ hb
        obtain hp | hp := mem_append.mp hp
        · obtain hp | hp := mem_append.mp hp
          · exact hall p (mem_append_left _ hp)
          · exact hall p (mem_append_right _ (mem_cons_of_mem _ hp))
        · rw [mem_singleton.mp hp, hhash]

lemma step_cases (hc : cb.Lawful) (s : Held) (r : DictionaryRequest) : ∃ t, cb.step s r = .ok t ∧
    ((∀ o, t.keyExcess o = s.keyExcess o ∧ t.valueExcess o = s.valueExcess o) ∧
      ∀ f, s.Filed cb.equalKeys cb.hash → s.Represents cb.equalKeys f → t.Filed cb.equalKeys cb.hash ∧
        t.Represents cb.equalKeys (assign cb.equalKeys (cb.keptValue s) f r)) := by
  cases r with
  | insert key value copyKey =>
    have hkept := same_keptKey hc s key
    obtain ⟨t, ht, ⟨hs, hfiled⟩ | ⟨k', v', hk', hs, hfiled⟩⟩ := insert_effect hc s key value
    · refine ⟨t, ht, hs.excess, fun f hf hr => ?_⟩
      obtain ⟨hfresh, b, hput⟩ := hfiled hf
      have hnot : ∀ p ∈ s.pairs, ¬ cb.equalKeys p.1 (cb.keptKey s key) :=
        fun p hp hsame => hfresh p hp (hc.keys.trans hsame hkept)
      exact ⟨hf.stores hc.keys hput hs hnot, hr.stores hc.keys hs hnot hkept⟩
    · refine ⟨t, ht, hs.excess, fun f hf hr => ?_⟩
      obtain ⟨b, hput⟩ := hfiled hf
      have hsame := hc.keys.trans hkept (hc.keys.symm hk')
      exact ⟨hf.exchanges hc.keys hput hs hsame, hr.exchanges hc.keys hf hs hsame hkept⟩
  | remove key =>
    refine ⟨_, rfl, ?_⟩
    obtain ⟨heq, hfresh⟩ | ⟨k, v, hk, hd, hput⟩ := remove_effect hc s key
    · rw [heq]
      exact ⟨fun o => ⟨rfl, rfl⟩, fun f hf hr => ⟨hf, hr.absent hc.keys (hfresh hf)⟩⟩
    · refine ⟨hd.excess, fun f hf hr => ?_⟩
      obtain ⟨b, hput⟩ := hput hf
      exact ⟨hf.drops hc.keys hput hd, hr.drops hc.keys hf hd hk⟩
  | lookup key => exact ⟨s, rfl, fun o => ⟨rfl, rfl⟩, fun f hf hr => ⟨hf, hr⟩⟩

lemma run_owned (hc : cb.Lawful) (hs : s.Owned) (hrun : run cb.step s rs = .ok t) : t.Owned := by
  refine run_preserves (p := fun _ _ => True) (I := Held.Owned) ?_ hs ?_ hrun
  · intro s r t ho _ ht
    obtain ⟨t', ht', hexcess, _⟩ := step_cases hc s r
    obtain rfl := Except.ok.inj (ht'.symm.trans ht)
    rw [owned_iff] at ho ⊢
    intro o
    rw [(hexcess o).1, (hexcess o).2]
    exact ho o
  · exact Along.mono (fun _ _ _ => trivial) (along_of_forall (p := fun _ => True) fun _ _ => trivial)

end CFCallBacks

namespace KeyMessages

variable {m : KeyMessages} {s t : Held} {rs : List DictionaryRequest}

lemma run_owned_iff (hm : m.Lawful) (hrun : run m.step .empty rs = .ok t) :
    t.Owned ↔ Along m.step m.Fresh .empty rs := by
  have hstep : ∀ s r t, (∀ o, 0 ≤ s.keyExcess o ∧ s.valueExcess o = 0) → True → m.step s r = .ok t →
      ∀ o, 0 ≤ t.keyExcess o ∧ t.valueExcess o = 0 := by
    intro s r t hs _ ht o
    obtain ⟨hkeys, hvalues⟩ := step_excess hm ht o
    exact ⟨(hs o).1.trans hkeys, hvalues.trans (hs o).2⟩
  have hnever := run_preserves hstep (fun o => ⟨le_rfl, rfl⟩)
    (Along.mono (fun _ _ _ => trivial) (along_of_forall (p := fun _ => True) fun _ _ => trivial)) hrun
  have hleast : t.Owned ↔ ∀ o, t.keyExcess o ≤ 0 := by
    rw [owned_iff]
    constructor
    · exact fun h o => (h o).1.le
    · exact fun h o => ⟨le_antisymm (h o) (hnever o).1, (hnever o).2⟩
  rw [hleast]
  refine run_holds_iff_along (Q := fun t => ∀ o, t.keyExcess o ≤ 0)
    (I := fun s => s.Filed m.isEqual m.hash ∧ s.Owned) ?_ ?_ ?_ ?_ ⟨.empty, .empty⟩ hrun
  · rintro s r t ⟨hf, ho⟩ hfresh ht
    obtain ⟨f, hr⟩ := hf.exists_represents hm.keys
    obtain ⟨t', ht', hf', _⟩ := step_represents hm hf hr r
    obtain rfl := Except.ok.inj (ht'.symm.trans ht)
    exact ⟨hf', step_owned hm ho hfresh ht⟩
  · rintro s r t ⟨hf, ho⟩ hfresh ht hall
    obtain ⟨o, ho'⟩ := step_leaks hm hf ho hfresh ht
    exact absurd (hall o) (not_le.mpr ho')
  · intro s r t ht hall o
    exact (step_excess hm ht o).1.trans (hall o)
  · rintro s ⟨_, ho⟩ o
    exact ((owned_iff.mp ho) o).1.le

end KeyMessages

/-- A dictionary after some requests: each pair filed, and every key looked up to the value last inserted
for an equal key. -/
structure FiniteMap (same : Id → Id → Bool) (hash : Id → ℕ) (lookup : Held → Id → Id)
    (f : Id → Option Id) (s : Held) : Prop where
  filed : s.Filed same hash
  lookup : ∀ key, lookup s key = (f key).getD nil

/-- Dictionaries are finite maps in every run. Those with callbacks own what they store and nothing else,
and those with messages do so exactly if no key is inserted that is stored. -/
theorem dictionaries_own_iff (m : KeyMessages) (hm : m.Lawful) (cb : CFCallBacks) (hc : cb.Lawful)
    (rs : List DictionaryRequest) :
    (∃ s, run m.step .empty rs = .ok s ∧
      FiniteMap m.isEqual m.hash m.lookup (latest m.isEqual (fun _ => id) m.step .empty (fun _ => none) rs) s ∧
      (s.Owned ↔ Along m.step m.Fresh .empty rs)) ∧
    ∃ s, run cb.step .empty rs = .ok s ∧
      FiniteMap cb.equalKeys cb.hash cb.lookup
        (latest cb.equalKeys cb.keptValue cb.step .empty (fun _ => none) rs) s ∧ s.Owned := by
  constructor
  · obtain ⟨s, hrun, hf, hr⟩ := run_represents m.step (fun _ => id)
      (fun s f r hf hr => m.step_represents hm hf hr r) rs Held.Filed.empty Held.Represents.empty
    have hlookup : ∀ key, m.lookup s key = _ := fun key =>
      find_of_represents hm.keys hf hr _ (m.finds_eq hm key)
    exact ⟨s, hrun, ⟨hf, hlookup⟩, m.run_owned_iff hm hrun⟩
  · obtain ⟨s, hrun, hf, hr⟩ := run_represents cb.step cb.keptValue
      (fun s f r hf hr => by
        obtain ⟨t, ht, _, hall⟩ := CFCallBacks.step_cases hc s r
        exact ⟨t, ht, hall f hf hr⟩) rs Held.Filed.empty Held.Represents.empty
    have hlookup : ∀ key, cb.lookup s key = _ := fun key =>
      find_of_represents hc.keys hf hr (fun c => cb.equalKeys c key) fun _ => rfl
    exact ⟨s, hrun, ⟨hf, hlookup⟩, CFCallBacks.run_owned hc Held.Owned.empty hrun⟩

def identity : KeyMessages where
  hash k := k % 2
  isEqual k l := k == l
  copy _ k := k

lemma lawful_identity : identity.Lawful where
  keys := {
    refl := fun k => beq_self_eq_true k
    symm := fun h => by simp_all [identity]
    trans := fun h h' => by simp_all [identity]
    hash_eq := fun h => by simp_all [identity] }
  copy _ k := beq_self_eq_true k

def noCallBacks : CFCallBacks := ⟨⟨none, false, none, none⟩, ⟨none, false⟩⟩

lemma lawful_noCallBacks : noCallBacks.Lawful where
  keys := {
    refl := fun k => beq_self_eq_true k
    symm := fun h => by simp_all [noCallBacks, CFCallBacks.equalKeys]
    trans := fun h h' => by simp_all [noCallBacks, CFCallBacks.equalKeys]
    hash_eq := fun h => by simp_all [noCallBacks, CFCallBacks.equalKeys, CFCallBacks.hash] }
  retain := by rintro _ ⟨⟩

theorem dictionaries_own_iff_removed :
    (∃ s, run identity.step .empty [.insert 1 10 true, .insert 3 30 false, .remove 1] = .ok s ∧
      FiniteMap identity.isEqual identity.hash identity.lookup (latest identity.isEqual (fun _ => id)
        identity.step .empty (fun _ => none) [.insert 1 10 true, .insert 3 30 false, .remove 1]) s ∧
      (s.Owned ↔ Along identity.step identity.Fresh .empty
        [.insert 1 10 true, .insert 3 30 false, .remove 1])) ∧
    ∃ s, run noCallBacks.step .empty [.insert 1 10 true, .insert 3 30 false, .remove 1] = .ok s ∧
      FiniteMap noCallBacks.equalKeys noCallBacks.hash noCallBacks.lookup (latest noCallBacks.equalKeys
        noCallBacks.keptValue noCallBacks.step .empty (fun _ => none)
        [.insert 1 10 true, .insert 3 30 false, .remove 1]) s ∧ s.Owned :=
  dictionaries_own_iff identity lawful_identity noCallBacks lawful_noCallBacks
    [.insert 1 10 true, .insert 3 30 false, .remove 1]

theorem not_owned : ∃ s, run identity.step .empty [.insert 1 10 true, .insert 1 11 true] = .ok s ∧
    ¬ s.Owned := by
  refine ⟨_, rfl, fun howned => ?_⟩
  exact absurd (howned 1).1 (by decide)

end TouchHle.Foundation
