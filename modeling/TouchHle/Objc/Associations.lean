import TouchHle.Lib.Table
import TouchHle.Objc.Objects

/-! Associated objects: the table of values set on objects, and the calls that fill and clear it. -/

namespace TouchHle.Objc.Associations

open Lib List Option Function

abbrev AssocKey := Id × ℕ

abbrev AssocValue := Id × Bool

abbrev Association := Sigma fun _ : AssocKey => AssocValue

inductive Policy
  | assign
  | retainNonatomic
  | copyNonatomic
  | retain
  | copy
  | unknown (policy : ℕ)
  deriving DecidableEq

namespace Policy

def ofRaw (policy : ℕ) : Policy :=
  if policy = 0 then assign
  else if policy = 1 then retainNonatomic
  else if policy = 3 then copyNonatomic
  else if policy = 0o1401 then retain
  else if policy = 0o1403 then copy
  else unknown policy

end Policy

inductive Frame
  /-- `objc_setAssociatedObject`, having released the old value. -/
  | setting (key : AssocKey) (value : Id) (policy : ℕ)
  /-- `objc_setAssociatedObject`, having sent `copy` to the value. -/
  | copying (key : AssocKey)
  /-- `objc_removeAssociatedObjects`, having released a value, with what it has still to remove. -/
  | removing (toRemove : List Association)
  deriving DecidableEq

structure Env where
  objects : Objects
  associatedObjects : Table AssocKey AssocValue
  pending : List Frame

def releases (value : AssocValue) : Bool := value.2 && value.1 ≠ nil

namespace Env

def release (env : Env) (object : Id) : Env :=
  { env with objects := (env.objects.decrementRefcount object).2 }

def insert (env : Env) (key : AssocKey) (value : AssocValue) : Env :=
  { env with associatedObjects := env.associatedObjects.insert key value }

def erase (env : Env) (key : AssocKey) : Env :=
  { env with associatedObjects := env.associatedObjects.erase key }

def suspend (env : Env) (frame : Frame) : Env := { env with pending := frame :: env.pending }

def storeAssociated (env : Env) (key : AssocKey) (value : Id) (policy : ℕ) : Env :=
  if value = nil then env
  else match Policy.ofRaw policy with
    | .retainNonatomic | .retain =>
      { env with objects := env.objects.incrementRefcount value }.insert key (value, true)
    | .copyNonatomic | .copy => env.suspend (.copying key)
    | .assign | .unknown _ => env.insert key (value, false)

def objcSetAssociatedObject (env : Env) (object : Id) (key : ℕ) (value : Id) (policy : ℕ) : Env :=
  if object = nil then env
  else match env.associatedObjects.lookup (object, key) with
    | none => env.storeAssociated (object, key) value policy
    | some old =>
      let env := env.erase (object, key)
      if releases old then
        (env.release old.1).suspend (.setting (object, key) value policy)
      else env.storeAssociated (object, key) value policy

def objcGetAssociatedObject (env : Env) (object : Id) (key : ℕ) : Id :=
  if object = nil then nil
  else match env.associatedObjects.lookup (object, key) with
    | none => nil
    | some value => value.1

def removeLoop (env : Env) : List Association → Env
  | [] => env
  | ⟨key, value⟩ :: toRemove =>
    let env := env.erase key
    if releases value then (env.release value.1).suspend (.removing toRemove)
    else env.removeLoop toRemove

def objcRemoveAssociatedObjects (env : Env) (object : Id) (toRemove : List Association) :
    Checked Env :=
  if object = nil then return env
  else do
    assert (toRemove.Perm (env.associatedObjects.entries.filter fun e => e.1.1 = object))
    return env.removeLoop toRemove

def resumeFrame (env : Env) (copied : Id) : Frame → Env
  | .setting key value policy => env.storeAssociated key value policy
  | .copying key => env.insert key (copied, true)
  | .removing toRemove => env.removeLoop toRemove

def resume (env : Env) (i : ℕ) (copied : Id) : Checked Env := do
  let frame ← unwrap env.pending[i]?
  return { env with pending := env.pending.eraseIdx i }.resumeFrame copied frame

def allocObject (env : Env) (ptr : Id) (refcount : Option NonZeroU32) : Checked Env := do
  assert (ptr ≠ nil ∧ env.objects ptr = none)
  return { env with objects := Function.update env.objects ptr (some ⟨refcount, 0⟩) }

def deallocObject (env : Env) (object : Id) : Env :=
  if object = nil then env
  else { env with objects := Function.update env.objects object none }

end Env

inductive Request
  | alloc (ptr : Id) (refcount : Option NonZeroU32)
  | retain (object : Id)
  | release (object : Id)
  | deallocObject (object : Id)
  | setAssociatedObject (object : Id) (key : ℕ) (value : Id) (policy : ℕ)
  | removeAssociatedObjects (object : Id) (toRemove : List Association)
  | resume (i : ℕ) (copied : Id)

def Env.step (env : Env) : Request → Checked Env
  | .alloc ptr refcount => env.allocObject ptr refcount
  | .retain object => return { env with objects := env.objects.incrementRefcount object }
  | .release object => return env.release object
  | .deallocObject object => return env.deallocObject object
  | .setAssociatedObject object key value policy =>
    return env.objcSetAssociatedObject object key value policy
  | .removeAssociatedObjects object toRemove => env.objcRemoveAssociatedObjects object toRemove
  | .resume i copied => env.resume i copied

def Frame.keys : Frame → List AssocKey
  | .setting key _ _ => [key]
  | .copying key => [key]
  | .removing toRemove => toRemove.map Sigma.fst

def heldIn (table : Table AssocKey AssocValue) (v : Id) : ℕ :=
  Table.countValues (fun value => value = (v, true)) table

structure References (objects : Objects) (static : Id → Bool) (guest : Id → ℕ)
    (table : Table AssocKey AssocValue) : Prop where
  alive : ∀ v, v ≠ nil → 0 < heldIn table v →
    (objects v).isSome = true ∧ ((objects.count v).isSome = true ∨ static v = true)
  account : ∀ v n, v ≠ nil → objects.count v = some n → n.get = guest v + heldIn table v

section

variable {objects : Objects} {static : Id → Bool} {guest : Id → ℕ}
  {table : Table AssocKey AssocValue} {key : AssocKey} {old value : AssocValue} {o v : Id}

lemma heldIn_erase (h : table.lookup key = some old) (v : Id) :
    heldIn (table.erase key) v + (if old = (v, true) then 1 else 0) = heldIn table v := by
  have hcount := Table.countValues_erase (p := fun value => value = (v, true)) h
  simpa [heldIn] using hcount

lemma heldIn_insert (h : table.lookup key = none) (v : Id) :
    heldIn (table.insert key value) v = heldIn table v + if value = (v, true) then 1 else 0 := by
  have hcount := Table.countValues_insert (b := value) (p := fun value => value = (v, true)) h
  simpa [heldIn] using hcount

lemma releases_iff : releases value = true ↔ value = (value.1, true) ∧ value.1 ≠ nil := by
  obtain ⟨u, b⟩ := value
  cases b <;> simp [releases]

lemma isSome_decrementRefcount :
    ((objects.decrementRefcount o).2 v).isSome = true ↔ (objects v).isSome = true := by
  rw [isSome_iff_ne_none, isSome_iff_ne_none, Ne, Ne,
    Objects.decrementRefcount_eq_none]

lemma isSome_incrementRefcount :
    ((objects.incrementRefcount o) v).isSome = true ↔ (objects v).isSome = true := by
  rw [isSome_iff_ne_none, isSome_iff_ne_none, Ne, Ne,
    Objects.incrementRefcount_eq_none]

lemma References.of_heldIn {table' : Table AssocKey AssocValue} (h : References objects static guest table)
    (hheld : ∀ v, v ≠ nil → heldIn table' v = heldIn table v) : References objects static guest table' := by
  constructor
  · intro v hv hpos
    rw [hheld v hv] at hpos
    exact h.alive v hv hpos
  · intro v n hv hn
    rw [hheld v hv]
    exact h.account v n hv hn

lemma References.release {guest' : Id → ℕ} {table' : Table AssocKey AssocValue}
    (h : References objects static guest table)
    (hother : ∀ v, v ≠ o → guest' v = guest v ∧ heldIn table' v = heldIn table v)
    (hheld : heldIn table' o ≤ heldIn table o)
    (hless : objects.count o ≠ none → guest' o + heldIn table' o + 1 = guest o + heldIn table o) :
    References (objects.decrementRefcount o).2 static guest' table' := by
  constructor
  · intro v hv hpos
    rw [isSome_decrementRefcount]
    by_cases hvo : v = o
    · subst hvo
      obtain ⟨hthere, hlive⟩ := h.alive v hv (hpos.trans_le hheld)
      refine ⟨hthere, ?_⟩
      cases hc : objects.count v with
      | none =>
        rw [hc] at hlive
        exact .inr (hlive.resolve_left fun h => by cases h)
      | some n =>
        have hn := h.account v n hv hc
        have hless := hless (by simp [hc])
        obtain ⟨m, hm, -⟩ | ⟨-, hone⟩ := Objects.count_decrementRefcount_self hv hc
        · exact .inl (by rw [hm]; rfl)
        · omega
    · rw [(hother v hvo).2] at hpos
      rw [Objects.count_decrementRefcount_of_ne hvo]
      exact h.alive v hv hpos
  · intro v n hv hn
    by_cases hvo : v = o
    · subst hvo
      cases hc : objects.count v with
      | none => cases hn.symm.trans (Objects.count_decrementRefcount_of_none hc)
      | some k =>
        have hk := h.account v k hv hc
        have hless := hless (by simp [hc])
        obtain ⟨m, hm, hmk⟩ | ⟨hnone, -⟩ := Objects.count_decrementRefcount_self hv hc
        · obtain rfl := some.inj (hm.symm.trans hn)
          omega
        · cases hn.symm.trans hnone
    · rw [Objects.count_decrementRefcount_of_ne hvo] at hn
      rw [(hother v hvo).1, (hother v hvo).2]
      exact h.account v n hv hn

lemma References.retain {guest' : Id → ℕ} {table' : Table AssocKey AssocValue}
    (h : References objects static guest table)
    (hother : ∀ v, v ≠ o → guest' v = guest v ∧ heldIn table' v = heldIn table v)
    (halive : o ≠ nil → 0 < heldIn table' o →
      (objects o).isSome = true ∧ ((objects.count o).isSome = true ∨ static o = true))
    (hmore : guest' o + heldIn table' o = guest o + heldIn table o + 1)
    (hmax : ∀ n, objects.count o = some n → n.get + 1 < u32Bound) :
    References (objects.incrementRefcount o) static guest' table' := by
  constructor
  · intro v hv hpos
    rw [isSome_incrementRefcount]
    by_cases hvo : v = o
    · subst hvo
      obtain ⟨hthere, hlive⟩ := halive hv hpos
      refine ⟨hthere, hlive.imp (fun hsome => ?_) id⟩
      rw [isSome_iff_ne_none] at hsome ⊢
      exact mt Objects.count_incrementRefcount_eq_none.mp hsome
    · rw [(hother v hvo).2] at hpos
      rw [Objects.count_incrementRefcount_of_ne hvo]
      exact h.alive v hv hpos
  · intro v n hv hn
    by_cases hvo : v = o
    · subst hvo
      cases hc : objects.count v with
      | none => cases hn.symm.trans (Objects.count_incrementRefcount_eq_none.mpr hc)
      | some k =>
        obtain ⟨m, hm, hmk⟩ := Objects.count_incrementRefcount_self hv hc (hmax k hc)
        obtain rfl := some.inj (hm.symm.trans hn)
        have hk := h.account v k hv hc
        omega
    · rw [Objects.count_incrementRefcount_of_ne hvo] at hn
      rw [(hother v hvo).1, (hother v hvo).2]
      exact h.account v n hv hn

lemma References.erase (h : References objects static guest table)
    (hold : table.lookup key = some old) (hno : releases old = false) :
    References objects static guest (table.erase key) := by
  have hheld : ∀ v, v ≠ nil → heldIn (table.erase key) v = heldIn table v := by
    intro v hv
    have hne : old ≠ (v, true) := by
      rintro rfl
      rw [releases_iff.mpr ⟨rfl, hv⟩] at hno
      cases hno
    rw [← heldIn_erase hold v, if_neg hne, add_zero]
  exact h.of_heldIn hheld

lemma References.eraseRelease (h : References objects static guest table)
    (hold : table.lookup key = some old) (hrel : releases old = true) :
    References (objects.decrementRefcount old.1).2 static guest (table.erase key) := by
  obtain ⟨u, b⟩ := old
  obtain ⟨hb, hu⟩ := releases_iff.mp hrel
  obtain rfl : b = true := congrArg Prod.snd hb
  have hheld : heldIn (table.erase key) u + 1 = heldIn table u := by
    have herase := heldIn_erase hold u
    rwa [if_pos rfl] at herase
  have hother : ∀ v, v ≠ u → heldIn (table.erase key) v = heldIn table v := by
    intro v hv
    have hne : ¬ (u, true) = (v, true) := fun h => hv (congrArg Prod.fst h).symm
    rw [← heldIn_erase hold v, if_neg hne, add_zero]
  change References (objects.decrementRefcount u).2 static guest _
  exact h.release (fun v hv => ⟨rfl, hother v hv⟩) (by omega) fun _ => by omega

lemma References.insert (h : References objects static guest table)
    (hfree : table.lookup key = none) (hno : releases value = false) :
    References objects static guest (table.insert key value) := by
  have hheld : ∀ v, v ≠ nil → heldIn (table.insert key value) v = heldIn table v := by
    intro v hv
    have hne : value ≠ (v, true) := by
      rintro rfl
      rw [releases_iff.mpr ⟨rfl, hv⟩] at hno
      cases hno
    rw [heldIn_insert hfree, if_neg hne, add_zero]
  exact h.of_heldIn hheld

lemma References.insertRetained (h : References objects static guest table)
    (hfree : table.lookup key = none) (hthere : (objects o).isSome = true)
    (hlive : (objects.count o).isSome = true ∨ static o = true)
    (hmax : ∀ n, objects.count o = some n → n.get + 1 < u32Bound) :
    References (objects.incrementRefcount o) static guest (table.insert key (o, true)) := by
  have hself : heldIn (table.insert key (o, true)) o = heldIn table o + 1 := by
    rw [heldIn_insert hfree, if_pos rfl]
  have hother : ∀ v, v ≠ o → heldIn (table.insert key (o, true)) v = heldIn table v := by
    intro v hvo
    have hne : ¬ (o, true) = (v, true) := fun h => hvo (congrArg Prod.fst h).symm
    rw [heldIn_insert hfree, if_neg hne, add_zero]
  exact h.retain (fun v hv => ⟨rfl, hother v hv⟩) (fun _ _ => ⟨hthere, hlive⟩) (by omega) hmax

lemma References.insertCopied (h : References objects static guest table)
    (hfree : table.lookup key = none) (hthere : (objects o).isSome = true)
    (hlive : (objects.count o).isSome = true ∨ static o = true)
    (hown : objects.count o = none ∨ 0 < guest o) :
    References objects static (update guest o (guest o - 1))
      (table.insert key (o, true)) := by
  constructor
  · intro v hv hpos
    by_cases hvo : v = o
    · subst hvo
      exact ⟨hthere, hlive⟩
    · have hne : ¬ (o, true) = (v, true) := fun h => hvo (congrArg Prod.fst h).symm
      rw [heldIn_insert hfree, if_neg hne] at hpos
      exact h.alive v hv hpos
  · intro v n hv hn
    rw [heldIn_insert hfree]
    by_cases hvo : v = o
    · subst hvo
      have hpos : 0 < guest v := hown.resolve_left fun hnone => by cases hn.symm.trans hnone
      have hk := h.account v n hv hn
      rw [update_self, if_pos rfl]
      omega
    · have hne : ¬ (o, true) = (v, true) := fun h => hvo (congrArg Prod.fst h).symm
      rw [update_of_ne hvo, if_neg hne]
      exact h.account v n hv hn

lemma References.guestRetain (h : References objects static guest table)
    (hmax : ∀ n, objects.count o = some n → n.get + 1 < u32Bound) :
    References (objects.incrementRefcount o) static (update guest o (guest o + 1))
      table := by
  refine h.retain (fun v hv => ⟨update_of_ne hv _ _, rfl⟩) (h.alive o) ?_ hmax
  rw [update_self]
  omega

lemma References.guestRelease (h : References objects static guest table)
    (hown : objects.count o = none ∨ 0 < guest o) :
    References (objects.decrementRefcount o).2 static (update guest o (guest o - 1))
      table := by
  refine h.release (fun v hv => ⟨update_of_ne hv _ _, rfl⟩) le_rfl fun hsome => ?_
  have hpos : 0 < guest o := hown.resolve_left hsome
  rw [update_self]
  omega

lemma count_update_self {entry : Option HostObjectEntry} :
    Objects.count (update objects o entry) o = entry.bind HostObjectEntry.refcount := by
  rw [Objects.count, update_self]

lemma count_update_of_ne {entry : Option HostObjectEntry} (h : v ≠ o) :
    Objects.count (update objects o entry) v = objects.count v := by
  rw [Objects.count, update_of_ne h, Objects.count]

lemma References.alloc (h : References objects static guest table) (ho : o ≠ nil)
    (hfree : objects o = none) (refcount : Option NonZeroU32) (block : ℕ) :
    References (update objects o (some ⟨refcount, block⟩))
      (update static o refcount.isNone)
      (update guest o (match refcount with | none => 0 | some n => n.get)) table := by
  have hheld : heldIn table o = 0 := by
    by_contra hpos
    have hthere := (h.alive o ho (Nat.pos_of_ne_zero hpos)).1
    rw [hfree] at hthere
    cases hthere
  constructor
  · intro v hv hpos
    have hvo : v ≠ o := by
      rintro rfl
      omega
    rw [update_of_ne hvo, count_update_of_ne hvo, update_of_ne hvo]
    exact h.alive v hv hpos
  · intro v n hv hn
    by_cases hvo : v = o
    · subst hvo
      rw [count_update_self] at hn
      obtain rfl : refcount = some n := hn
      rw [update_self, hheld, add_zero]
    · rw [count_update_of_ne hvo] at hn
      rw [update_of_ne hvo]
      exact h.account v n hv hn

lemma References.dealloc (h : References objects static guest table) (ho : o ≠ nil)
    (hdead : ¬ ((objects o).isSome = true ∧
      ((objects.count o).isSome = true ∨ static o = true))) :
    References (update objects o none) static guest table := by
  constructor
  · intro v hv hpos
    have hvo : v ≠ o := by
      rintro rfl
      exact hdead (h.alive v hv hpos)
    rw [update_of_ne hvo, count_update_of_ne hvo]
    exact h.alive v hv hpos
  · intro v n hv hn
    have hvo : v ≠ o := by
      rintro rfl
      rw [count_update_self] at hn
      cases hn
    rw [count_update_of_ne hvo] at hn
    exact h.account v n hv hn

end

def shown (table : Table AssocKey AssocValue) (key : AssocKey) : Id :=
  match table.lookup key with
  | none => nil
  | some value => value.1

def Frame.Waits (table : Table AssocKey AssocValue) (last : AssocKey → Id) : Frame → Prop
  | .setting key _ _ | .copying key => table.lookup key = none
  | .removing toRemove => ∀ e ∈ toRemove, table.lookup e.1 = some e.2 ∧ last e.1 = nil

structure Placed (objects : Objects) (table : Table AssocKey AssocValue) (pending : List Frame)
    (last : AssocKey → Id) : Prop where
  owner : ∀ key value, table.lookup key = some value →
    key.1 ≠ nil ∧ (objects key.1).isSome = true
  busyOwner : ∀ key ∈ pending.flatMap Frame.keys, key.1 ≠ nil ∧ (objects key.1).isSome = true
  nodup : (pending.flatMap Frame.keys).Nodup
  waits : ∀ f ∈ pending, f.Waits table last
  gets : ∀ key ∉ pending.flatMap Frame.keys, shown table key = last key

section

variable {objects objects' : Objects} {table : Table AssocKey AssocValue} {pending : List Frame}
  {last last' : AssocKey → Id} {key : AssocKey} {value : AssocValue} {f : Frame} {v : Id}
  {policy : ℕ}

lemma shown_of_none (h : table.lookup key = none) : shown table key = nil := by rw [shown, h]

lemma shown_insert : shown (table.insert key value) key = value.1 := by
  rw [shown, AList.lookup_insert]

lemma Placed.there (h : Placed objects table pending last)
    (hthere : ∀ o, (objects o).isSome = true → (objects' o).isSome = true) :
    Placed objects' table pending last :=
  ⟨fun key value hl => (h.owner key value hl).imp id (hthere _),
    fun key hk => (h.busyOwner key hk).imp id (hthere _), h.nodup, h.waits, h.gets⟩

lemma Placed.perm {pending' : List Frame} (h : Placed objects table pending last)
    (hperm : pending.Perm pending') : Placed objects table pending' last := by
  have hkeys : (pending.flatMap Frame.keys).Perm (pending'.flatMap Frame.keys) :=
    hperm.flatMap_right _
  exact ⟨h.owner, fun key hk => h.busyOwner key (hkeys.mem_iff.mpr hk), hkeys.nodup_iff.mp h.nodup,
    fun f hf => h.waits f (hperm.mem_iff.mpr hf),
    fun key hk => h.gets key (mt hkeys.mem_iff.mp hk)⟩

lemma Frame.Waits.congr {table' : Table AssocKey AssocValue} (h : f.Waits table last)
    (hkeys : ∀ key ∈ f.keys, table'.lookup key = table.lookup key ∧ last' key = last key) :
    f.Waits table' last' := by
  cases f with
  | setting key _ _ | copying key =>
    have hkey := (hkeys key mem_cons_self).1
    exact hkey.trans h
  | removing toRemove =>
    intro e he
    obtain ⟨hlook, hlast⟩ := hkeys e.1 (mem_map_of_mem he)
    exact ⟨hlook.trans (h e he).1, hlast.trans (h e he).2⟩

lemma mem_busy (hf : f ∈ pending) (hkey : key ∈ f.keys) : key ∈ pending.flatMap Frame.keys :=
  mem_flatMap.mpr ⟨f, hf, hkey⟩

lemma Placed.finish (h : Placed objects table (f :: pending) last) (hkeys : f.keys = [key])
    {table' : Table AssocKey AssocValue}
    (howner : ∀ k v, table'.lookup k = some v → k = key ∨ table.lookup k = some v)
    (hother : ∀ k, k ≠ key → table'.lookup k = table.lookup k) :
    Placed objects table' pending (update last key (shown table' key)) := by
  have hbusy : (f :: pending).flatMap Frame.keys = key :: pending.flatMap Frame.keys := by
    rw [flatMap_cons, hkeys]
    rfl
  obtain ⟨hnot, hnodup⟩ := nodup_cons.mp (hbusy ▸ h.nodup)
  constructor
  · intro k v hk
    obtain rfl | hk := howner k v hk
    · exact h.busyOwner k (hbusy ▸ mem_cons_self)
    · exact h.owner k v hk
  · exact fun k hk => h.busyOwner k (hbusy ▸ mem_cons_of_mem _ hk)
  · exact hnodup
  · intro g hg
    apply (h.waits g (mem_cons_of_mem _ hg)).congr
    intro k hk
    have hne : k ≠ key := by
      rintro rfl
      exact hnot (mem_busy hg hk)
    exact ⟨hother k hne, update_of_ne hne _ _⟩
  · intro k hk
    by_cases hne : k = key
    · rw [hne, update_self]
    · rw [update_of_ne hne, shown, hother k hne]
      apply h.gets k
      rw [hbusy, mem_cons, not_or]
      exact ⟨hne, hk⟩

lemma Placed.insert (h : Placed objects table (f :: pending) last) (hkeys : f.keys = [key])
    (value : AssocValue) :
    Placed objects (table.insert key value) pending (update last key value.1) := by
  have hshown : shown (table.insert key value) key = value.1 := shown_insert
  rw [← hshown]
  apply h.finish hkeys
  · intro k v hk
    by_cases hne : k = key
    · exact .inl hne
    · rw [AList.lookup_insert_ne hne] at hk
      exact .inr hk
  · exact fun k hne => AList.lookup_insert_ne hne

lemma Placed.giveUp (h : Placed objects table (f :: pending) last) (hkeys : f.keys = [key])
    (hnone : table.lookup key = none) :
    Placed objects table pending (update last key nil) := by
  rw [← shown_of_none hnone]
  exact h.finish hkeys (fun k v hk => .inr hk) fun _ _ => rfl

lemma Placed.begin (h : Placed objects table pending last) (hkey : key ∉ pending.flatMap Frame.keys)
    (hnil : key.1 ≠ nil) (hthere : (objects key.1).isSome = true) (v : Id) (policy : ℕ) :
    Placed objects (table.erase key) (.setting key v policy :: pending) last := by
  have hbusy : (Frame.setting key v policy :: pending).flatMap Frame.keys =
      key :: pending.flatMap Frame.keys := rfl
  have hother : ∀ k, k ≠ key → (table.erase key).lookup k = table.lookup k :=
    fun k hne => AList.lookup_erase_ne hne
  constructor
  · intro k w hk
    by_cases hne : k = key
    · subst hne
      exact ⟨hnil, hthere⟩
    · rw [hother k hne] at hk
      exact h.owner k w hk
  · rw [hbusy]
    intro k hk
    obtain rfl | hk := mem_cons.mp hk
    · exact ⟨hnil, hthere⟩
    · exact h.busyOwner k hk
  · rw [hbusy]
    exact nodup_cons.mpr ⟨hkey, h.nodup⟩
  · intro g hg
    obtain rfl | hg' := mem_cons.mp hg
    · exact AList.lookup_erase key table
    · apply (h.waits g hg').congr
      intro k hk
      have hne : k ≠ key := by
        rintro rfl
        exact hkey (mem_busy hg' hk)
      exact ⟨hother k hne, rfl⟩
  · rw [hbusy]
    intro k hk
    obtain ⟨hne, hk⟩ := ne_and_not_mem_of_not_mem_cons hk
    rw [shown, hother k hne]
    exact h.gets k hk

lemma Placed.copying (h : Placed objects table (.setting key v policy :: pending) last) :
    Placed objects table (.copying key :: pending) last := by
  refine ⟨h.owner, h.busyOwner, h.nodup, ?_, h.gets⟩
  intro g hg
  obtain rfl | hg := mem_cons.mp hg
  · exact h.waits (.setting key v policy) mem_cons_self
  · exact h.waits g (mem_cons_of_mem _ hg)

lemma Placed.removeOne {toRemove : List Association}
    (h : Placed objects table (.removing (⟨key, value⟩ :: toRemove) :: pending) last) :
    Placed objects (table.erase key) (.removing toRemove :: pending) last := by
  have hbusy : (Frame.removing (⟨key, value⟩ :: toRemove) :: pending).flatMap Frame.keys =
      key :: (Frame.removing toRemove :: pending).flatMap Frame.keys := rfl
  obtain ⟨hnot, hnodup⟩ := nodup_cons.mp (hbusy ▸ h.nodup)
  have hother : ∀ k, k ≠ key → (table.erase key).lookup k = table.lookup k :=
    fun k hne => AList.lookup_erase_ne hne
  have hlast : last key = nil := (h.waits _ mem_cons_self _ mem_cons_self).2
  have hne : ∀ g ∈ Frame.removing toRemove :: pending, ∀ k ∈ g.keys, k ≠ key := by
    rintro g hg k hk rfl
    exact hnot (mem_busy hg hk)
  constructor
  · intro k w hk
    by_cases hne : k = key
    · subst hne
      rw [AList.lookup_erase] at hk
      cases hk
    · rw [hother k hne] at hk
      exact h.owner k w hk
  · exact fun k hk => h.busyOwner k (hbusy ▸ mem_cons_of_mem _ hk)
  · exact hnodup
  · intro g hg
    have hwaits : g.Waits table last := by
      obtain rfl | hg := mem_cons.mp hg
      · exact fun e he => h.waits _ mem_cons_self e (mem_cons_of_mem _ he)
      · exact h.waits g (mem_cons_of_mem _ hg)
    exact hwaits.congr fun k hk => ⟨hother k (hne g hg k hk), rfl⟩
  · intro k hk
    by_cases hkey : k = key
    · rw [hkey, shown_of_none (AList.lookup_erase key table), hlast]
    · rw [shown, hother k hkey]
      apply h.gets k
      rw [hbusy, mem_cons, not_or]
      exact ⟨hkey, hk⟩

lemma Placed.removed (h : Placed objects table (.removing [] :: pending) last) :
    Placed objects table pending last :=
  ⟨h.owner, h.busyOwner, h.nodup, fun g hg => h.waits g (mem_cons_of_mem _ hg), h.gets⟩

lemma Placed.beginRemove (h : Placed objects table pending last) {object : Id}
    (hidle : ∀ k ∈ pending.flatMap Frame.keys, k.1 ≠ object) {toRemove : List Association}
    (hperm : toRemove.Perm (table.entries.filter fun e => e.1.1 = object)) :
    Placed objects table (.removing toRemove :: pending)
      (fun k => if k.1 = object then nil else last k) := by
  have hbusy : (Frame.removing toRemove :: pending).flatMap Frame.keys =
      toRemove.map Sigma.fst ++ pending.flatMap Frame.keys := rfl
  have hmem : ∀ e, e ∈ toRemove ↔ table.lookup e.1 = some e.2 ∧ e.1.1 = object := by
    intro e
    rw [hperm.mem_iff, mem_filter, decide_eq_true_eq, ← Table.mem_entries_iff]
  have hkeys : ∀ k ∈ toRemove.map Sigma.fst, k.1 = object ∧ ∃ w, table.lookup k = some w := by
    intro k hk
    obtain ⟨e, he, rfl⟩ := mem_map.mp hk
    exact ⟨((hmem e).mp he).2, _, ((hmem e).mp he).1⟩
  constructor
  · exact h.owner
  · rw [hbusy]
    intro k hk
    obtain hk | hk := mem_append.mp hk
    · obtain ⟨-, w, hw⟩ := hkeys k hk
      exact h.owner k w hw
    · exact h.busyOwner k hk
  · rw [hbusy]
    apply List.Nodup.append _ h.nodup
    · intro k hk hk'
      exact hidle k hk' (hkeys k hk).1
    · apply (hperm.map Sigma.fst).nodup_iff.mpr
      exact table.keys_nodup.sublist (filter_sublist.map Sigma.fst)
  · intro g hg
    obtain rfl | hg := mem_cons.mp hg
    · intro e he
      obtain ⟨hlook, howner⟩ := (hmem e).mp he
      exact ⟨hlook, if_pos howner⟩
    · apply (h.waits g hg).congr
      exact fun k hk => ⟨rfl, if_neg (hidle k (mem_busy hg hk))⟩
  · rw [hbusy]
    intro k hk
    rw [mem_append, not_or] at hk
    by_cases hobj : k.1 = object
    · rw [if_pos hobj]
      apply shown_of_none
      cases hlook : table.lookup k with
      | none => rfl
      | some w =>
        have hin : (⟨k, w⟩ : Association) ∈ toRemove := (hmem ⟨k, w⟩).mpr ⟨hlook, hobj⟩
        exact absurd (mem_map_of_mem hin) hk.1
    · rw [if_neg hobj]
      exact h.gets k hk.2

end

end TouchHle.Objc.Associations
