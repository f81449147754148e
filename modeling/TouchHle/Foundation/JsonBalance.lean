import TouchHle.Lib.Checked
import TouchHle.Foundation.JsonOwnership

namespace TouchHle.Foundation.JsonOwnership

open Lib JsonParser Function List RefHeap

variable {N : Type} {read : Numeral → Option N} {mutableContainers : Bool} {building : ℕ → Prop}
  {others own own' lost lost' : Multiset ℕ} {s env t u : Env} {x dict : Id}

structure Effect (building : ℕ → Prop) (others : Multiset ℕ) (env t : Env) (own lost : Multiset ℕ) : Prop where
  owned : t.heap.Owned (own + lost + t.pool + others)
  grows : RefHeap.Grows building env.heap t.heap
  pool : env.pool ⊆ t.pool
  ranked : ∀ n, env.heap.Ranked n → t.heap.Ranked n
  lost_new : ∀ x ∈ lost, env.heap.next ≤ x

namespace Effect

lemma refl (ho : env.heap.Owned (own + env.pool + others)) : Effect building others env env own 0 where
  owned := by rwa [add_zero]
  grows := .refl _
  pool := List.Subset.refl _
  ranked _ h := h
  lost_new x hx := absurd hx (Multiset.notMem_zero x)

lemma trans (hs : Effect building others env t own lost)
    (ht : Effect building (own + lost + others) t u own' lost') :
    Effect building others env u (own + own') (lost + lost') where
  owned := by
    refine ht.owned.of_eq ?_
    abel
  grows := hs.grows.trans ht.grows
  pool := List.Subset.trans hs.pool ht.pool
  ranked n h := ht.ranked n (hs.ranked n h)
  lost_new x hx := (Multiset.mem_add.mp hx).elim (hs.lost_new x) fun hx => hs.grows.next_le.trans (ht.lost_new x hx)

lemma mono {built : ℕ → Prop} (he : Effect building others env t own lost)
    (hmono : ∀ y, building y → env.heap.next ≤ y ∨ built y) : Effect built others env t own lost :=
  { he with grows := he.grows.mono hmono }

lemma start (he : Effect building others env t own lost) : t.heap.Owned (t.pool + (own + lost + others)) := by
  refine he.owned.of_eq ?_
  abel

lemma lose (he : Effect building others env t own lost) (hnew : ∀ x ∈ own, env.heap.next ≤ x) :
    Effect building others env t 0 (own + lost) where
  owned := by
    refine he.owned.of_eq ?_
    abel
  grows := he.grows
  pool := he.pool
  ranked := he.ranked
  lost_new x hx := (Multiset.mem_add.mp hx).elim (hnew x) (he.lost_new x)

lemma own_static (he : Effect building others env t own lost) (hx : x < t.heap.statics) :
    Effect building others env t (x ::ₘ own) lost where
  owned := he.owned.congr fun y hy => by
    rw [Multiset.cons_add, Multiset.cons_add, Multiset.cons_add, Multiset.count_cons_of_ne (hx.trans_le hy).ne']
  grows := he.grows
  pool := he.pool
  ranked := he.ranked
  lost_new := he.lost_new

lemma autorelease (he : Effect building others env t (x ::ₘ own) lost) :
    Effect building others env (t.autorelease x) own lost where
  owned := by
    refine he.owned.of_eq ?_
    rw [Env.autorelease, ← Multiset.coe_add, ← Multiset.singleton_add, Multiset.coe_singleton]
    abel
  grows := he.grows
  pool := List.Subset.trans he.pool (subset_append_left ..)
  ranked := he.ranked
  lost_new := he.lost_new

lemma release (he : Effect building others env t (x ::ₘ own) lost) :
    Effect building others env (t.release x) own lost where
  owned := by
    refine RefHeap.Owned.release (he.owned.of_eq ?_)
    rw [Env.release, ← Multiset.singleton_add, ← Multiset.singleton_add]
    abel
  grows := he.grows.trans (shrinks_release _ _).grows
  pool := he.pool
  ranked n h := (he.ranked n h).of_items (shrinks_release _ _).items
  lost_new := he.lost_new

lemma alloc (ho : env.heap.Owned (env.pool + others)) :
    Effect building others env env.alloc.2 {env.alloc.1} 0 where
  owned := by
    refine ho.create.of_eq ?_
    rw [← Multiset.singleton_add]
    change _ = {env.heap.next} + 0 + (env.pool : Multiset ℕ) + others
    abel
  grows := grows_create _
  pool := List.Subset.refl _
  ranked _ h := h.of_items (items_create _)
  lost_new x hx := absurd hx (Multiset.notMem_zero x)

lemma allocAutoreleased (ho : env.heap.Owned (env.pool + others)) :
    Effect building others env env.allocAutoreleased.2 0 0 :=
  (show Effect building others env env.alloc.2 (env.alloc.1 ::ₘ 0) 0 from alloc ho).autorelease

end Effect

lemma unheld_alloc (ho : env.heap.Owned own) : env.alloc.2.heap.Unheld env.alloc.1 :=
  fun y hmem => ho.unheld (ho.fresh _ le_rfl) ho.statics y (items_create _ y hmem)

structure Building (env : Env) (x : Id) : Prop where
  statics : env.heap.statics ≤ x
  lt_next : x < env.heap.next
  unheld : env.heap.Unheld x
  pool : x ∈ env.pool

lemma Building.keep (hb : Building env x) (he : Effect building others env t own lost) : Building t x where
  statics := he.grows.statics ▸ hb.statics
  lt_next := hb.lt_next.trans_le he.grows.next_le
  unheld := hb.unheld.grows he.grows hb.lt_next hb.statics
  pool := he.pool hb.pool

lemma Building.alive (hb : Building env x) (ho : env.heap.Owned (own + env.pool + others)) :
    env.heap.count x ≠ 0 :=
  ho.alive (Multiset.mem_add.mpr (.inl (Multiset.mem_add.mpr (.inr (Multiset.mem_coe.mpr hb.pool))))) hb.statics

lemma building_allocAutoreleased (ho : env.heap.Owned (env.pool + others)) :
    Building env.allocAutoreleased.2 env.allocAutoreleased.1 where
  statics := ho.statics
  lt_next := Nat.lt_succ_self _
  unheld := unheld_alloc ho
  pool := mem_append_right _ mem_cons_self

lemma items_alloc (env : Env) : env.alloc.2.heap.items env.alloc.1 = [] := by
  change update env.heap.items env.heap.next [] env.heap.next = []
  exact update_self ..

lemma Effect.items_new (hs : s.heap.Owned own') (he : Effect building others s env own lost)
    (hx : s.heap.next ≤ x) {y : Id} (hy : y ∈ env.heap.items x) : s.heap.next ≤ y ∨ y < s.heap.statics := by
  obtain hy | hy := he.grows.items x y hy
  · rw [hs.dead x (hs.fresh x hx)] at hy
    exact absurd hy not_mem_nil
  · exact hy.2

lemma Effect.copyAutoreleased (hs : s.heap.Owned own') (he : Effect building others s env 0 lost)
    (hx : s.heap.next ≤ x) :
    Effect building others s (env.copyAutoreleased x).2 0 lost ∧
      Building (env.copyAutoreleased x).2 (env.copyAutoreleased x).1 := by
  have ho : env.heap.Owned (env.pool + (0 + lost + others)) := he.start
  have ha : Effect building others s env.alloc.2 (0 + {env.alloc.1}) (lost + 0) := he.trans (Effect.alloc ho)
  have hunheld : env.alloc.2.heap.Unheld env.alloc.1 := unheld_alloc ho
  set items := env.alloc.2.heap.items x with hitems
  have hretained := RefHeap.Owned.retainAll items ha.owned fun y hy hs => ha.owned.item_alive hy hs
  obtain ⟨hstatics, hnext, hsame⟩ := retainAll_frame items env.alloc.2.heap
  have hfresh : (env.alloc.2.heap.retainAll items).items env.alloc.1 = [] := by rw [hsame, items_alloc]
  have hle : (env.alloc.2.heap.retainAll items).statics ≤ env.alloc.1 := by
    rw [hstatics]
    exact ho.statics
  have halive : (env.alloc.2.heap.retainAll items).count env.alloc.1 ≠ 0 := hretained.alive (by simp) hle
  have hgrows : RefHeap.Grows building s.heap (env.alloc.2.heap.retainAll items) :=
    ha.grows.trans (grows_retainAll _ _)
  have hunheld' : (env.alloc.2.heap.retainAll items).Unheld env.alloc.1 := fun y => by
    rw [hsame]
    exact hunheld y
  have hranked : ∀ n, s.heap.Ranked n → (env.alloc.2.heap.retainAll items).Ranked n := fun n h =>
    (ha.ranked n h).of_items fun y => by
      rw [hsame]
      exact List.Subset.refl _
  refine ⟨⟨?_, hgrows.setItems (.inl he.grows.next_le) fun y hy => .inr (ha.items_new hs hx hy),
    List.Subset.trans he.pool (subset_append_left ..),
    fun n h => (hranked n h).setItems hunheld' (hunheld x), he.lost_new⟩,
    hle, ?_, fun y hy => ?_, mem_append_right _ mem_cons_self⟩
  · refine (hretained.setItems halive fun y _ => ?_ :
      ((env.alloc.2.heap.retainAll items).setItems env.alloc.1 items).Owned _)
    rw [hfresh]
    change _ = (Multiset.count y (0 + lost + ((env.pool ++ [env.alloc.1] : List ℕ) : Multiset ℕ) + others)) + _
    simp only [← Multiset.coe_add, Multiset.count_add, Multiset.coe_count, Multiset.coe_singleton,
      count_nil, Multiset.count_zero]
    change _ + (_ + _ + List.count y env.pool + _) + 0 = _
    omega
  · exact (Nat.lt_succ_self _).trans_eq hnext.symm
  · change env.alloc.1 ∈ update (env.alloc.2.heap.retainAll items).items env.alloc.1 items y at hy
    by_cases hyF : y = env.alloc.1
    · subst hyF
      rw [update_self] at hy
      exact hunheld x hy
    · rw [update_of_ne hyF] at hy
      exact hunheld' y hy

lemma insertEntry_spec (entries : List Entry) (k : List Char) (key val : Id) :
    (∀ k', k' ∈ (insertEntry entries k key val).1.map Prod.fst ↔ k' = k ∨ k' ∈ entries.map Prod.fst) ∧
      ((insertEntry entries k key val).2 = none ∧ k ∉ entries.map Prod.fst ∧
        entryItems (insertEntry entries k key val).1 = entryItems entries ++ [key, val] ∨
      ∃ old, (insertEntry entries k key val).2 = some old ∧ k ∈ entries.map Prod.fst ∧
        List.Perm (old :: entryItems (insertEntry entries k key val).1) (val :: entryItems entries)) := by
  induction entries with
  | nil => exact ⟨fun k' => by simp [insertEntry], .inl ⟨rfl, not_mem_nil, rfl⟩⟩
  | cons e es ih =>
    obtain ⟨k₀, key₀, val₀⟩ := e
    rw [insertEntry]
    split_ifs with hk
    · subst hk
      refine ⟨fun k' => by simp, .inr ⟨val₀, rfl, mem_cons_self, ?_⟩⟩
      change List.Perm (val₀ :: key₀ :: val :: entryItems es) (val :: key₀ :: val₀ :: entryItems es)
      calc List.Perm (val₀ :: key₀ :: val :: entryItems es) (val₀ :: val :: key₀ :: entryItems es) :=
            (List.Perm.swap ..).cons _
        List.Perm _ (val :: val₀ :: key₀ :: entryItems es) := .swap ..
        List.Perm _ (val :: key₀ :: val₀ :: entryItems es) := (List.Perm.swap ..).cons _
    · obtain ⟨hkeys, hitems⟩ := ih
      refine ⟨fun k' => ?_, ?_⟩
      · have := hkeys k'
        simp only [map_cons, mem_cons] at this ⊢
        rw [this]
        tauto
      · have hnot : k ∈ ((k₀, key₀, val₀) :: es).map Prod.fst ↔ k ∈ es.map Prod.fst := by
          rw [map_cons, mem_cons]
          exact or_iff_right (Ne.symm hk)
        rw [hnot]
        obtain ⟨hnone, hk', hnew⟩ | ⟨old, hold, hk', hperm⟩ := hitems
        · exact .inl ⟨hnone, hk', congrArg (fun l => key₀ :: val₀ :: l) hnew⟩
        · refine .inr ⟨old, hold, hk', ?_⟩
          change List.Perm (old :: key₀ :: val₀ :: _) (val :: key₀ :: val₀ :: _)
          exact (@perm_middle _ _ [key₀, val₀] _).symm.trans
            ((hperm.append_left [key₀, val₀]).trans (@perm_middle _ _ [key₀, val₀] _))

lemma Effect.setObject {entries : List Entry} {k : List Char} {key val : Id}
    (he : Effect (· = dict) others s env (key ::ₘ own) lost) (hb : Building env dict)
    (hitems : env.heap.items dict = entryItems entries) (hkey : s.heap.next ≤ key) (hkeydict : key ≠ dict)
    (hval : s.heap.next ≤ val ∨ val < s.heap.statics) (hvaldict : val ≠ dict)
    (halive : env.heap.statics ≤ val → env.heap.count val ≠ 0) :
    ∃ again : Multiset ℕ, (again ≠ 0 ↔ k ∈ entries.map Prod.fst) ∧
      Effect (· = dict) others s (env.setObject dict entries k key val).2 (key ::ₘ own) (lost + again) ∧
      (env.setObject dict entries k key val).2.heap.items dict =
        entryItems (env.setObject dict entries k key val).1 := by
  have hdict : env.heap.count dict ≠ 0 := hb.alive he.owned
  have hkeyalive : env.heap.statics ≤ key → env.heap.count key ≠ 0 := he.owned.alive (by simp)
  -- the dictionary gives its items away, and the key and the value are retained
  have htaken : (env.heap.setItems dict []).Owned
      (entryItems entries + (key ::ₘ own + lost + env.pool + others)) :=
    he.owned.setItems hdict fun y _ => by
      simp only [hitems, Multiset.count_add, Multiset.coe_count, count_nil]
      omega
  have hvalalive : ((env.heap.setItems dict []).retain key).statics ≤ val →
      ((env.heap.setItems dict []).retain key).count val ≠ 0 := fun hs => by
    rw [statics_retain] at hs
    exact count_retain_ne_zero (halive hs)
  have hretained := (htaken.retain hkeyalive).retain hvalalive
  set heap := ((env.heap.setItems dict []).retain key).retain val with hheap
  have hempty : heap.items dict = [] := by
    rw [hheap, items_retain, items_retain]
    exact update_self ..
  have hsub : ∀ y, heap.items y ⊆ env.heap.items y := by
    intro y
    rw [hheap, items_retain, items_retain]
    change update env.heap.items dict [] y ⊆ _
    by_cases hy : y = dict
    · subst hy
      rw [update_self]
      exact nil_subset _
    · rw [update_of_ne hy]
      exact List.Subset.refl _
  have hgiven : RefHeap.Grows (· = dict) s.heap (env.heap.setItems dict []) :=
    he.grows.setItems (.inr rfl) fun y hy => absurd hy not_mem_nil
  have hgrows : RefHeap.Grows (· = dict) s.heap heap :=
    (hgiven.trans (grows_retain _ _)).trans (grows_retain _ _)
  have hranked : ∀ n, s.heap.Ranked n → heap.Ranked n := fun n h => (he.ranked n h).of_items hsub
  have hunheld : heap.Unheld dict := fun y hy => hb.unheld y (hsub y hy)
  have hentry : ∀ y ∈ entryItems entries,
      y ≠ dict ∧ (y ∈ s.heap.items dict ∨ s.heap.next ≤ y ∨ y < s.heap.statics) := by
    intro y hy
    rw [← hitems] at hy
    refine ⟨?_, (he.grows.items dict y hy).imp_right And.right⟩
    rintro rfl
    exact hb.unheld _ hy
  obtain ⟨-, hnew⟩ := insertEntry_spec entries k key val
  obtain ⟨hnone, hk, hnew⟩ | ⟨old, hold, hk, hperm⟩ := hnew
  · refine ⟨0, by simpa using hk, ?_⟩
    have heq : env.setObject dict entries k key val = ((insertEntry entries k key val).1,
        { env with heap := heap.setItems dict (entryItems entries ++ [key, val]) }) := by
      rw [Env.setObject]
      simp only [hnone, hnew, hheap]
    rw [heq]
    have halive' : heap.count dict ≠ 0 := count_retain_ne_zero (count_retain_ne_zero hdict)
    have hmem : ∀ y ∈ entryItems entries ++ [key, val],
        y ≠ dict ∧ (y ∈ s.heap.items dict ∨ s.heap.next ≤ y ∨ y < s.heap.statics) := by
      intro y hy
      obtain hy | hy := mem_append.mp hy
      · exact hentry y hy
      · obtain rfl | rfl : y = key ∨ y = val := by simpa using hy
        · exact ⟨hkeydict, .inr (.inl hkey)⟩
        · exact ⟨hvaldict, .inr hval⟩
    refine ⟨⟨?_, hgrows.setItems (.inr rfl) fun y hy => (hmem y hy).2, he.pool,
      fun n h => (hranked n h).setItems hunheld fun hy => (hmem dict hy).1 rfl, ?_⟩, ?_⟩
    · refine hretained.setItems halive' fun y _ => ?_
      rw [hempty]
      simp only [Multiset.count_cons, Multiset.count_add, Multiset.coe_count, count_append,
        count_cons, count_nil, Multiset.count_zero, beq_iff_eq]
      simp only [eq_comm (a := y)]
      omega
    · rw [add_zero]
      exact he.lost_new
    · rw [hnew]
      exact update_self ..
  · refine ⟨{key}, by simpa using hk, ?_⟩
    have heq : env.setObject dict entries k key val = ((insertEntry entries k key val).1,
        { env with heap := (heap.release old).setItems dict (entryItems (insertEntry entries k key val).1) }) := by
      rw [Env.setObject]
      simp only [hold, hheap]
    rw [heq]
    have hreleased : (heap.release old).Owned
        (entryItems (insertEntry entries k key val).1 + (key ::ₘ (key ::ₘ own + lost + env.pool + others))) := by
      refine RefHeap.Owned.release (hretained.congr fun y _ => ?_)
      have hcount := hperm.count_eq y
      simp only [count_cons, Multiset.count_cons, Multiset.count_add, Multiset.coe_count,
        beq_iff_eq, eq_comm (a := y)] at hcount ⊢
      omega
    have hshrinks := shrinks_release heap old
    have hmem : ∀ y ∈ entryItems (insertEntry entries k key val).1,
        y ≠ dict ∧ (y ∈ s.heap.items dict ∨ s.heap.next ≤ y ∨ y < s.heap.statics) := by
      intro y hy
      obtain rfl | hy := mem_cons.mp (hperm.subset (mem_cons_of_mem _ hy))
      · exact ⟨hvaldict, .inr hval⟩
      · exact hentry y hy
    have hempty' : (heap.release old).items dict = [] :=
      eq_nil_iff_forall_not_mem.mpr fun y hy => by
        have := hshrinks.items dict hy
        rw [hempty] at this
        exact absurd this not_mem_nil
    have hstatics : (heap.release old).statics ≤ dict := by
      rw [hshrinks.statics, hgrows.statics, ← he.grows.statics]
      exact hb.statics
    have halive' : (heap.release old).count dict ≠ 0 :=
      hreleased.alive (by simp [hb.pool]) hstatics
    refine ⟨⟨?_, (hgrows.trans hshrinks.grows).setItems (.inr rfl) fun y hy => (hmem y hy).2, he.pool,
      fun n h => ((hranked n h).of_items hshrinks.items).setItems
        (fun y hy => hunheld y (hshrinks.items y hy)) fun hy => (hmem dict hy).1 rfl, ?_⟩, ?_⟩
    · refine hreleased.setItems halive' fun y _ => ?_
      rw [hempty']
      simp only [Multiset.count_cons, Multiset.count_add, Multiset.coe_count, Multiset.count_singleton,
        count_nil]
      omega
    · intro y hy
      obtain hy | hy := Multiset.mem_add.mp hy
      · exact he.lost_new y hy
      · exact (Multiset.mem_singleton.mp hy) ▸ hkey
    · exact update_self ..

lemma Effect.addObject {arr val : Id} (he : Effect (· = arr) others s env own lost) (hb : Building env arr)
    (hval : s.heap.next ≤ val ∨ val < s.heap.statics) (hvalarr : val ≠ arr)
    (halive : env.heap.statics ≤ val → env.heap.count val ≠ 0) :
    Effect (· = arr) others s (env.addObject arr val) own lost := by
  have hretained := he.owned.retain halive
  have hsame : ∀ y, (env.heap.retain val).items y = env.heap.items y := fun y => by rw [items_retain]
  have hsub : ∀ y, (env.heap.retain val).items y ⊆ env.heap.items y := fun y => by
    rw [hsame]
    exact List.Subset.refl _
  have hmem : ∀ y ∈ (env.heap.retain val).items arr ++ [val],
      y ≠ arr ∧ (y ∈ s.heap.items arr ∨ s.heap.next ≤ y ∨ y < s.heap.statics) := by
    intro y hy
    rw [hsame] at hy
    obtain hy | hy := mem_append.mp hy
    · refine ⟨?_, (he.grows.items arr y hy).imp_right And.right⟩
      rintro rfl
      exact hb.unheld _ hy
    · obtain rfl := mem_singleton.mp hy
      exact ⟨hvalarr, .inr hval⟩
  refine ⟨hretained.setItems (count_retain_ne_zero (hb.alive he.owned)) fun y _ => ?_,
    (he.grows.trans (grows_retain _ _)).setItems (.inr rfl) fun y hy => (hmem y hy).2, he.pool,
    fun n h => ((he.ranked n h).of_items hsub).setItems
      (fun y hy => hb.unheld y (hsub y hy)) fun hy => (hmem arr hy).1 rfl, he.lost_new⟩
  change _ = Multiset.count y (own + lost + (env.pool : Multiset ℕ) + others) + _
  simp only [Multiset.count_cons, count_append, count_cons, count_nil, beq_iff_eq,
    eq_comm (a := y)]
  omega

def owning (m : Made) : Multiset ℕ := if m.kind = .string then {m.id} else 0

def IsMade (s t : Env) (lost : Multiset ℕ) (m : Made) : Prop :=
  m.kind = .null ∧ m.id = null ∨ s.heap.next ≤ m.id ∧ t.heap.Unheld m.id ∧
    (m.kind ≠ .string → m.id ∈ t.pool ∧ m.id ∉ lost) ∧ m.kind ≠ .null

inductive ValueRead (others : Multiset ℕ) (env : Env) (lost : Multiset ℕ) :
    Except Stop (Json N × List UInt8) → Outcome Made → Prop
  | error (e : Stop) (t : Env) (he : Effect (fun _ => False) others env t 0 lost) :
    ValueRead others env lost (.error e) (.error e, t)
  | ok (v : Json N) (m : Made) (rest : List UInt8) (t : Env) (hkind : m.kind = kindOf v)
      (he : Effect (fun _ => False) others env t (owning m) lost) (hm : IsMade env t lost m) :
    ValueRead others env lost (.ok (v, rest)) (.ok (m, rest), t)

inductive LoopRead {α : Type} (x : Id) (others : Multiset ℕ) (env : Env) (lost : Multiset ℕ) :
    Except Stop (α × List UInt8) → Outcome Unit → Prop
  | error (e : Stop) (t : Env) (he : Effect (· = x) others env t 0 lost) :
    LoopRead x others env lost (.error e) (.error e, t)
  | ok (a : α) (rest : List UInt8) (t : Env) (he : Effect (· = x) others env t 0 lost) :
    LoopRead x others env lost (.ok (a, rest)) (.ok ((), rest), t)

lemma Effect.lose_new {m : Made} (he : Effect building others s t (owning m) lost) (hm : IsMade s u lost' m) :
    Effect building others s t 0 (owning m + lost) := by
  refine he.lose fun y hy => ?_
  rw [owning] at hy
  split_ifs at hy with hstring
  · obtain rfl := Multiset.mem_singleton.mp hy
    obtain ⟨hnull, -⟩ | ⟨hnew, -⟩ := hm
    · cases hnull.symm.trans hstring
    · exact hnew
  · exact absurd hy (Multiset.notMem_zero y)

lemma owning_ne_zero (m : Made) : owning m ≠ 0 ↔ m.kind = .string := by
  rw [owning]
  split_ifs with h <;> simp [h]

lemma IsMade.alive {m : Made} (hm : IsMade s t lost' m) (hnull : null < t.heap.statics)
    (ho : t.heap.Owned (owning m + own)) (hpool : ∀ x ∈ t.pool, x ∈ own) :
    t.heap.statics ≤ m.id → t.heap.count m.id ≠ 0 := by
  intro hs
  refine ho.alive ?_ hs
  obtain ⟨-, hid⟩ | ⟨-, -, hpooled, -⟩ := hm
  · exact absurd hnull (not_lt.mpr (hid ▸ hs))
  · by_cases hstring : m.kind = .string
    · exact Multiset.mem_add.mpr (.inl (by rw [owning, if_pos hstring]; exact Multiset.mem_singleton_self _))
    · exact Multiset.mem_add.mpr (.inr (hpool _ (hpooled hstring).1))

lemma valueRead_number (ho : env.heap.Owned (env.pool + others)) {v : Json N} (hv : kindOf v = .number)
    (rest : List UInt8) : ValueRead others env 0 (.ok (v, rest)) (makeNumber env rest) :=
  .ok v ⟨env.allocAutoreleased.1, .number⟩ rest _ hv.symm (Effect.allocAutoreleased ho)
    (.inr ⟨le_rfl, (building_allocAutoreleased ho).unheld, fun _ =>
      ⟨(building_allocAutoreleased ho).pool, Multiset.notMem_zero _⟩, nofun⟩)

lemma valueRead_finish (hs : s.heap.Owned own') (he : Effect (fun _ => False) others s env 0 lost)
    (hb : Building env x) (hx : s.heap.next ≤ x) (hlost : x ∉ lost) {v : Json N} (hv : kindOf v = .container)
    (rest : List UInt8) :
    ValueRead others s lost (.ok (v, rest)) (.ok (⟨(env.finish mutableContainers x).1, .container⟩, rest),
      (env.finish mutableContainers x).2) := by
  cases mutableContainers with
  | true => exact .ok v ⟨x, .container⟩ rest env hv.symm he (.inr ⟨hx, hb.unheld, fun _ => ⟨hb.pool, hlost⟩, nofun⟩)
  | false =>
    obtain ⟨hcopied, hcopy⟩ := he.copyAutoreleased hs hx
    refine .ok v ⟨(env.copyAutoreleased x).1, .container⟩ rest _ hv.symm hcopied
      (.inr ⟨he.grows.next_le, hcopy.unheld, fun _ => ⟨hcopy.pool, fun hmem => ?_⟩, nofun⟩)
    change env.heap.next ∈ lost at hmem
    exact he.owned.alive (by simp [hmem]) he.owned.statics (he.owned.fresh _ le_rfl)

section

variable (mutableContainers read)

def ValueSpec (fuel : ℕ) : Prop :=
  ∀ bs env others, env.heap.Owned (env.pool + others) → null < env.heap.statics →
    ∃ lost : Multiset ℕ, (lost ≠ 0 ↔ losesValue read fuel bs) ∧
      ValueRead others env lost (JsonParser.parseValue read fuel bs) (parseValue mutableContainers read fuel bs env)

def MembersSpec (fuel : ℕ) : Prop :=
  ∀ dict entries keys acc bs env others, env.heap.Owned (env.pool + others) → null < env.heap.statics →
    Building env dict → env.heap.items dict = entryItems entries →
    (∀ k, k ∈ entries.map Prod.fst ↔ k ∈ keys) →
    ∃ lost : Multiset ℕ, (lost ≠ 0 ↔ losesMembers read fuel keys bs) ∧
      LoopRead dict others env lost (JsonParser.parseMembers read fuel acc bs)
        (parseMembers mutableContainers read fuel dict entries bs env)

def ElementsSpec (fuel : ℕ) : Prop :=
  ∀ arr acc bs env others, env.heap.Owned (env.pool + others) → null < env.heap.statics → Building env arr →
    ∃ lost : Multiset ℕ, (lost ≠ 0 ↔ losesElements read fuel bs) ∧
      LoopRead arr others env lost (JsonParser.parseElements read fuel acc bs)
        (parseElements mutableContainers read fuel arr bs env)

end

lemma LoopRead.after {α : Type} {q : Except Stop (α × List UInt8)} {o : Outcome Unit}
    (he : Effect (· = x) others env t 0 lost) (hr : LoopRead x (0 + lost + others) t lost' q o) :
    LoopRead x others env (lost + lost') q o := by
  cases hr with
  | error e u hu => exact .error e u (he.trans hu)
  | ok a rest u hu => exact .ok a rest u (he.trans hu)

lemma LoopRead.malformed {α : Type} (he : Effect (· = x) others env t 0 lost) :
    LoopRead (α := α) x others env lost (throw .malformed) (.error .malformed, t) := .error _ t he

structure Addable (s t : Env) (x val : Id) : Prop where
  new : s.heap.next ≤ val ∨ val < s.heap.statics
  ne : val ≠ x
  alive : t.heap.statics ≤ val → t.heap.count val ≠ 0

lemma IsMade.addable {m : Made} (hm : IsMade s t lost' m) (hb : Building s x) (hnull : null < s.heap.statics)
    (he : Effect building others s t (owning m) lost) : Addable s t x m.id where
  new := hm.elim (fun h => .inr (h.2 ▸ hnull)) fun h => .inl h.1
  ne := by
    obtain ⟨-, hid⟩ | ⟨hnew, -⟩ := hm
    · rw [hid]
      exact (hnull.trans_le hb.statics).ne
    · exact (hb.lt_next.trans_le hnew).ne'
  alive := hm.alive (he.grows.statics ▸ hnull) (he.owned.of_eq (by abel :
    _ = owning m + (lost + t.pool + others))) fun y hy => by simp [hy]

lemma elementsSpec_succ {fuel : ℕ} (hvalue : ValueSpec read mutableContainers fuel)
    (helements : ElementsSpec read mutableContainers fuel) : ElementsSpec read mutableContainers (fuel + 1) := by
  intro arr acc bs env others ho hnull hb
  obtain ⟨lost, hlost, hread⟩ := hvalue bs env others ho hnull
  rw [JsonParser.parseElements, parseElements, losesElements]
  generalize JsonParser.parseValue read fuel bs = pure at hread ⊢
  generalize parseValue mutableContainers read fuel bs env = outcome at hread ⊢
  cases hread with
  | error e t he =>
    exact ⟨lost, by simpa using hlost, .error e t (he.mono fun y hy => hy.elim)⟩
  | ok v m rest t hkind he hm =>
    have hadd := hm.addable hb hnull he
    have hround : Effect (· = arr) others env (t.addObject arr m.id) 0 (owning m + lost) :=
      ((he.mono fun y hy => hy.elim).addObject (hb.keep he) hadd.new hadd.ne hadd.alive).lose_new hm
    have hstring : owning m + lost ≠ 0 ↔ losesValue read fuel bs ∨ kindOf v = .string := by
      rw [← hlost, ← hkind, ← owning_ne_zero, ne_eq, add_eq_zero_iff_of_nonneg zero_le zero_le]
      tauto
    rw [ok_bind]
    dsimp only
    cases htoken : token ',' rest with
    | some next =>
      obtain ⟨lost', hlost', hrest⟩ := helements arr (acc ++ [v]) next _ _ hround.start
        (hround.grows.statics ▸ hnull) (hb.keep hround)
      refine ⟨owning m + lost + lost', ?_, hrest.after hround⟩
      rw [ne_eq, add_eq_zero_iff_of_nonneg zero_le zero_le]
      simp only [Bool.or_eq_true, decide_eq_true_eq]
      rw [← hlost', ← or_assoc, ← hstring]
      exact not_and_or
    | none =>
      refine ⟨owning m + lost, by simpa [hlost] using hstring, ?_⟩
      cases token ']' rest with
      | some next => exact .ok _ next _ hround
      | none => exact .malformed hround

lemma parseKey_eq (bs : List UInt8) : parseKey bs =
    match parseKeyString bs with
    | .error e => .error e
    | .ok (k, bs) =>
      match token ':' bs with
      | none => .error .malformed
      | some bs => .ok (k, bs) := by
  rw [parseKey, parseKeyString]
  cases token '"' bs with
  | none => rfl
  | some bs =>
    dsimp only
    cases parseString bs with
    | error e => rfl
    | ok p =>
      rw [ok_bind]
      dsimp only
      cases token ':' p.2 <;> rfl

lemma IsMade.weaken {m : Made} (hm : IsMade t u lost m) (hle : s.heap.next ≤ t.heap.next) :
    IsMade s u lost m := hm.imp_right fun h => ⟨hle.trans h.1, h.2⟩

lemma membersSpec_succ {fuel : ℕ} (hvalue : ValueSpec read mutableContainers fuel)
    (hmembers : MembersSpec read mutableContainers fuel) : MembersSpec read mutableContainers (fuel + 1) := by
  intro dict entries keys acc bs env others ho hnull hb hitems hkeys
  rw [JsonParser.parseMembers, parseMembers, losesMembers, parseKey_eq]
  generalize parseKeyString bs = keyString
  cases keyString with
  | error e => exact ⟨0, by simp, .error e env (Effect.refl (by rwa [zero_add]))⟩
  | ok p =>
    obtain ⟨k, bs⟩ := p
    have halloc : Effect (· = dict) others env env.alloc.2 {env.alloc.1} 0 := Effect.alloc ho
    have hnew : ∀ x ∈ ({env.alloc.1} : Multiset ℕ), env.heap.next ≤ x := fun x hx =>
      (Multiset.mem_singleton.mp hx).ge
    dsimp only
    cases token ':' bs with
    | none => exact ⟨{env.alloc.1} + 0, by simp, .error _ _ (halloc.lose hnew)⟩
    | some bs =>
      obtain ⟨lost, hlost, hread⟩ := hvalue bs env.alloc.2 _ halloc.start hnull
      dsimp only
      rw [ok_bind]
      generalize JsonParser.parseValue read fuel bs = pure at hread ⊢
      generalize parseValue mutableContainers read fuel bs env.alloc.2 = outcome at hread ⊢
      cases hread with
      | error e t he =>
        refine ⟨{env.alloc.1} + 0 + (0 + lost), by simp, .error e t ?_⟩
        refine (halloc.trans (he.mono fun y hy => hy.elim)).lose fun x hx => hnew x ?_
        rwa [add_zero] at hx
      | ok v m rest t hkind he hm =>
        have hbt := (hb.keep halloc).keep he
        have hadd := hm.addable (hb.keep halloc) hnull he
        have hheld : Effect (· = dict) others env t (env.alloc.1 ::ₘ owning m) (0 + lost) := by
          rw [← Multiset.singleton_add]
          exact halloc.trans (he.mono fun y hy => hy.elim)
        have hitemst : t.heap.items dict = entryItems entries := by
          have halive : t.heap.count dict ≠ 0 := hbt.alive he.owned
          rw [he.grows.kept dict (hb.keep halloc).lt_next id halive, ← hitems]
          exact update_of_ne hb.lt_next.ne ..
        have hnext : env.heap.next ≤ env.alloc.2.heap.next := Nat.le_succ _
        obtain ⟨again, hagain, hset, hitemsset⟩ := hheld.setObject (k := k) hbt hitemst le_rfl hb.lt_next.ne'
          (hadd.new.imp_left hnext.trans) hadd.ne hadd.alive
        have hround := hset.release.lose_new (hm.weaken hnext)
        have hbround := hb.keep hround
        have hitemsround : ((t.setObject dict entries k env.alloc.1 m.id).2.release env.alloc.1).heap.items dict =
            entryItems (t.setObject dict entries k env.alloc.1 m.id).1 := by
          rw [← hitemsset]
          exact (shrinks_release _ _).kept dict (hbround.alive hround.owned)
        have hkeysround : ∀ k', k' ∈ (t.setObject dict entries k env.alloc.1 m.id).1.map Prod.fst ↔ k' ∈ k :: keys :=
          fun k' => ((insertEntry_spec entries k env.alloc.1 m.id).1 k').trans (by rw [mem_cons, hkeys])
        have hlosses : owning m + (0 + lost + again) ≠ 0 ↔
            (losesValue read fuel bs ∨ kindOf v = .string) ∨ k ∈ keys := by
          rw [← hlost, ← hkind, ← owning_ne_zero, ← hkeys, ← hagain, ne_eq, zero_add,
            add_eq_zero_iff_of_nonneg zero_le zero_le, add_eq_zero_iff_of_nonneg zero_le zero_le]
          tauto
        rw [ok_bind]
        dsimp only
        cases htoken : token ',' rest with
        | some next =>
          obtain ⟨lost', hlost', hrest⟩ := hmembers dict _ (k :: keys) (setObject acc k v) next _ _ hround.start
            (hround.grows.statics ▸ hnull) hbround hitemsround hkeysround
          refine ⟨owning m + (0 + lost + again) + lost', ?_, hrest.after hround⟩
          rw [ne_eq, add_eq_zero_iff_of_nonneg zero_le zero_le]
          simp only [Bool.or_eq_true, decide_eq_true_eq, contains_iff_mem]
          rw [← hlost', ← hlosses]
          exact not_and_or
        | none =>
          refine ⟨owning m + (0 + lost + again), by simpa only [Bool.or_eq_true, decide_eq_true_eq,
            contains_iff_mem, Bool.false_eq_true, or_false] using hlosses, ?_⟩
          cases token '}' rest with
          | some next => exact .ok _ next _ hround
          | none => exact .malformed hround

lemma Effect.close (ha : Effect (fun _ => False) others env t 0 0)
    (he : Effect (· = x) (0 + 0 + others) t u 0 lost) (hx : env.heap.next ≤ x) :
    Effect (fun _ => False) others env u 0 lost := by
  have hboth := (ha.mono fun y hy => hy.elim).trans he
  rw [add_zero, zero_add] at hboth
  exact hboth.mono fun y hy => .inl (hy ▸ hx)

lemma valueRead_container {α : Type} {q : Except Stop (α × List UInt8)} {o : Outcome Unit}
    (ho : env.heap.Owned (env.pool + others)) (make : α → Json N) (hmake : ∀ a, kindOf (make a) = .container)
    (hr : LoopRead env.allocAutoreleased.1 (0 + 0 + others) env.allocAutoreleased.2 lost q o) :
    ValueRead others env lost (q >>= fun p => .ok (make p.1, p.2))
      (closeContainer mutableContainers env.allocAutoreleased.1 o) := by
  have halloc : Effect (fun _ => False) others env env.allocAutoreleased.2 0 0 := Effect.allocAutoreleased ho
  cases hr with
  | error e t he => exact .error e t (halloc.close he le_rfl)
  | ok a rest t he =>
    refine valueRead_finish ho (halloc.close he le_rfl) ((building_allocAutoreleased ho).keep he) le_rfl
      (fun hmem => ?_) (hmake a) rest
    exact absurd (he.lost_new _ hmem) (not_le.mpr (building_allocAutoreleased ho).lt_next)

lemma valueSpec_succ {fuel : ℕ} (hmembers : MembersSpec read mutableContainers fuel)
    (helements : ElementsSpec read mutableContainers fuel) : ValueSpec read mutableContainers (fuel + 1) := by
  intro bs env others ho hnull
  have hrefl : Effect (fun _ => False) others env env 0 0 := Effect.refl (by rwa [zero_add])
  rw [JsonParser.parseValue, parseValue, losesValue]
  generalize skipWs bs = bs
  cases bs with
  | nil => exact ⟨0, by simp, .error _ env hrefl⟩
  | cons b bs =>
    have halloc : Effect (fun _ => False) others env env.allocAutoreleased.2 0 0 := Effect.allocAutoreleased ho
    have hb := building_allocAutoreleased ho
    dsimp only
    by_cases hbrace : b = ascii '{'
    · simp only [if_pos hbrace]
      cases token '}' bs with
      | some rest =>
        exact ⟨0, by simp, valueRead_finish ho halloc hb le_rfl (Multiset.notMem_zero _) rfl rest⟩
      | none =>
        obtain ⟨lost, hlost, hread⟩ := hmembers env.allocAutoreleased.1 [] [] [] bs _ _ halloc.start hnull hb
          (items_alloc env) fun k => Iff.rfl
        exact ⟨lost, hlost, valueRead_container ho .dictionary (fun _ => rfl) hread⟩
    simp only [if_neg hbrace]
    by_cases hbracket : b = ascii '['
    · simp only [if_pos hbracket]
      cases token ']' bs with
      | some rest =>
        exact ⟨0, by simp, valueRead_finish ho halloc hb le_rfl (Multiset.notMem_zero _) rfl rest⟩
      | none =>
        obtain ⟨lost, hlost, hread⟩ := helements env.allocAutoreleased.1 [] bs _ _ halloc.start hnull hb
        exact ⟨lost, hlost, valueRead_container ho .array (fun _ => rfl) hread⟩
    simp only [if_neg hbracket]
    refine ⟨0, by simp, ?_⟩
    split_ifs
    · cases parseString bs with
      | error e => exact .error e env hrefl
      | ok p =>
        exact .ok (.string p.1) ⟨env.alloc.1, .string⟩ p.2 _ rfl (Effect.alloc ho)
          (.inr ⟨le_rfl, unheld_alloc ho, fun h => absurd rfl h, nofun⟩)
    · cases expect ['t', 'r', 'u', 'e'] (b :: bs) with
      | error e => exact .error e env hrefl
      | ok rest => exact valueRead_number ho (v := .bool true) rfl rest
    · cases expect ['f', 'a', 'l', 's', 'e'] (b :: bs) with
      | error e => exact .error e env hrefl
      | ok rest => exact valueRead_number ho (v := .bool false) rfl rest
    · cases expect ['n', 'u', 'l', 'l'] (b :: bs) with
      | error e => exact .error e env hrefl
      | ok rest => exact .ok .null ⟨null, .null⟩ rest env rfl hrefl (.inl ⟨rfl, rfl⟩)
    · cases parseNumber read (b :: bs) with
      | error e => exact .error e env hrefl
      | ok p => exact valueRead_number ho (v := .number p.1) rfl p.2
    · exact .error _ env hrefl

lemma specs (read : Numeral → Option N) (mutableContainers : Bool) (fuel : ℕ) :
    ValueSpec read mutableContainers fuel ∧ MembersSpec read mutableContainers fuel ∧
      ElementsSpec read mutableContainers fuel := by
  induction fuel with
  | zero =>
    have hrefl : ∀ {building : ℕ → Prop} {env : Env} {others : Multiset ℕ}, env.heap.Owned (env.pool + others) →
        Effect building others env env 0 0 := fun ho => Effect.refl (by rwa [zero_add])
    refine ⟨fun bs env others ho _ => ?_, fun dict entries keys acc bs env others ho _ _ _ _ => ?_,
      fun arr acc bs env others ho _ _ => ?_⟩
    · rw [JsonParser.parseValue, parseValue, losesValue]
      exact ⟨0, by simp, .error _ env (hrefl ho)⟩
    · rw [JsonParser.parseMembers, parseMembers, losesMembers]
      exact ⟨0, by simp, .error _ env (hrefl ho)⟩
    · rw [JsonParser.parseElements, parseElements, losesElements]
      exact ⟨0, by simp, .error _ env (hrefl ho)⟩
  | succ fuel ih =>
    obtain ⟨hvalue, hmembers, helements⟩ := ih
    exact ⟨valueSpec_succ hmembers helements, membersSpec_succ hvalue hmembers, elementsSpec_succ hvalue helements⟩

structure Ready (env : Env) (others : Multiset ℕ) : Prop where
  owned : env.heap.Owned others
  pool : env.pool = []
  null : null < env.heap.statics

lemma Effect.settled (he : Effect (fun _ => False) others env t 0 lost) (retains : ℕ)
    (hx : t.heap.statics ≤ x → t.heap.count x ≠ 0) :
    (t.settled retains x).Owned (lost + others) ∧
      RefHeap.Grows (fun _ => False) env.heap (t.settled retains x) ∧
      ∀ n, env.heap.Ranked n → (t.settled retains x).Ranked n := by
  have hretained := he.owned.retainAll (List.replicate retains x) fun y hy hs => by
    obtain rfl := eq_of_mem_replicate hy
    exact hx hs
  have hdrained : ((t.heap.retainAll (List.replicate retains x)).drain t.pool).Owned
      (List.replicate retains x + (lost + others)) := by
    refine RefHeap.Owned.drain _ (hretained.of_eq ?_)
    abel
  have hshrinks := (shrinks_drain t.pool (t.heap.retainAll (List.replicate retains x))).trans
    (shrinks_drain (List.replicate retains x) _)
  refine ⟨RefHeap.Owned.drain _ hdrained, he.grows.trans ((grows_retainAll _ _).trans hshrinks.grows),
    fun n h => RefHeap.Ranked.of_items ((he.ranked n h).of_items fun y => ?_) hshrinks.items⟩
  rw [(retainAll_frame _ _).2.2]
  exact List.Subset.refl _

lemma Effect.settled_iff (he : Effect (fun _ => False) others env t 0 lost) (ho : env.heap.Owned others) (retains : ℕ)
    (hx : t.heap.statics ≤ x → t.heap.count x ≠ 0) :
    ((t.settled retains x).faulted = false ∧ ∀ y, env.heap.next ≤ y → (t.settled retains x).count y = 0) ↔
      lost = 0 := by
  obtain ⟨howned, hgrows, hranked⟩ := he.settled retains hx
  exact ho.settled_iff howned hgrows (hranked _ ho.ranked) he.lost_new

lemma Effect.over_released (he : Effect (fun _ => False) others env t 0 lost) (ho : env.heap.Owned others)
    (hnew : env.heap.next ≤ x) (hu : t.heap.Unheld x) (hpool : x ∈ t.pool) (hlost : x ∉ lost) (retains : ℕ) :
    ((t.autorelease x).settled retains x).faulted := by
  have hs : t.heap.statics ≤ x := he.grows.statics ▸ ho.statics.trans hnew
  have halive : t.heap.count x ≠ 0 := he.owned.alive (by simp [hpool]) hs
  have hothers : x ∉ others := ho.not_owned (ho.fresh x hnew) (ho.statics.trans hnew)
  have hretained := he.owned.retainAll (List.replicate retains x) fun y hy _ => by
    obtain rfl := eq_of_mem_replicate hy
    exact halive
  have hdrained : ((t.heap.retainAll (List.replicate retains x)).drain t.pool).Owned
      (List.replicate retains x + (lost + others)) := by
    refine RefHeap.Owned.drain _ (hretained.of_eq ?_)
    abel
  have hshrinks := shrinks_drain t.pool (t.heap.retainAll (List.replicate retains x))
  obtain ⟨hstatics, -, hitems⟩ := retainAll_frame (List.replicate retains x) t.heap
  have hover := hdrained.over_released (by rw [hshrinks.statics, hstatics]; exact hs)
    (fun y hy => hu y (by have := hshrinks.items y hy; rwa [hitems] at this))
    (fun hmem => (Multiset.mem_add.mp hmem).elim hlost hothers)
  rw [replicate_succ] at hover
  rw [Env.settled, Env.autorelease, drain, drain, foldl_append]
  exact hover

lemma nil_static (hnull : null < t.heap.statics) : t.heap.statics ≤ nil → t.heap.count nil ≠ 0 := fun h =>
  absurd (Nat.zero_lt_one.trans hnull) (not_lt.mpr h)

lemma balances_iff {allowFragments : Bool} {data : List UInt8} {retains : ℕ} (hready : Ready env others) :
    Balances mutableContainers allowFragments read data retains env ↔ LosesNothing allowFragments read data := by
  have ho : env.heap.Owned (env.pool + others) := hready.owned.of_eq (by rw [hready.pool, Multiset.coe_nil, zero_add])
  have hnilenv : env.heap.statics ≤ nil → env.heap.count nil ≠ 0 := nil_static hready.null
  rw [Balances, jsonObjectWithData, LosesNothing]
  cases fromUtf8 data with
  | none =>
    have hrefl : Effect (fun _ => False) others env env 0 0 := Effect.refl (by rwa [zero_add])
    exact iff_of_true ((hrefl.settled_iff hready.owned retains hnilenv).mpr rfl) trivial
  | some _ =>
    dsimp only
    obtain ⟨lost, hlost, hread⟩ := (specs read mutableContainers (rounds data)).1 data env others ho hready.null
    have hloses : lost = 0 ↔ losesValue read (rounds data) data = false := by
      rw [← Bool.not_eq_true, ← hlost, ne_eq, not_not]
    rw [← hloses]
    generalize JsonParser.parseValue read (rounds data) data = pure at hread ⊢
    generalize parseValue mutableContainers read (rounds data) data env = outcome at hread ⊢
    cases hread with
    | error e t he =>
      exact (he.settled_iff hready.owned retains (nil_static (he.grows.statics ▸ hready.null))).trans
        (and_iff_left trivial).symm
    | ok v m rest t hkind he hm =>
      have hnil := nil_static (t := t) (he.grows.statics ▸ hready.null)
      have hnone : owning m = 0 ↔ kindOf v ≠ .string := by
        rw [← hkind, ne_eq, ← owning_ne_zero, not_not]
      have hleft : ((t.settled retains nil).faulted = false ∧
          ∀ y, env.heap.next ≤ y → (t.settled retains nil).count y = 0) ↔ lost = 0 ∧ kindOf v ≠ .string := by
        rw [(he.lose_new hm).settled_iff hready.owned retains hnil, add_eq_zero_iff_of_nonneg zero_le zero_le, hnone,
          and_comm]
      dsimp only
      rw [hkind]
      by_cases hrest : skipWs rest ≠ []
      · rw [if_pos hrest, if_pos (.inl hrest)]
        exact hleft
      by_cases hroot : allowFragments = false ∧ kindOf v ≠ .container
      · rw [if_neg hrest, if_pos hroot, if_pos (.inr hroot)]
        exact hleft
      rw [if_neg hrest, if_neg hroot, if_neg (not_or_intro hrest hroot), ← hkind]
      by_cases hstring : m.kind = .string
      · -- the pool takes over what the parser owned
        have howning : owning m = m.id ::ₘ 0 := if_pos hstring
        rw [howning] at he
        have halive : t.heap.statics ≤ m.id → t.heap.count m.id ≠ 0 := he.owned.alive (by simp)
        exact (he.autorelease.settled_iff hready.owned retains halive).trans (and_iff_left (.inl hstring)).symm
      have howning : owning m = 0 := if_neg hstring
      rw [howning] at he
      obtain ⟨hnull, hid⟩ | ⟨hnew, hu, hpooled, hnull⟩ := hm
      · have hstatic : m.id < t.heap.statics := hid ▸ he.grows.statics ▸ hready.null
        exact ((he.own_static hstatic).autorelease.settled_iff hready.owned retains fun h =>
          absurd hstatic (not_lt.mpr h)).trans (and_iff_left (.inr hnull)).symm
      · obtain ⟨hpool, hnotlost⟩ := hpooled hstring
        refine iff_of_false (fun h => ?_) fun h => ?_
        · rw [he.over_released hready.owned hnew hu hpool hnotlost retains] at h
          exact absurd h.1 (by decide)
        · exact h.2.elim hstring hnull

end TouchHle.Foundation.JsonOwnership
