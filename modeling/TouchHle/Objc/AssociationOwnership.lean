import TouchHle.Objc.Associations

/-! The table of associated objects owns one reference to each value it retains, and answers what
was last set, over every run of the calls. -/

namespace TouchHle.Objc.Associations

open Lib Function List Except

/-- The runtime with an account of who owns what: which objects have had no count from the start,
how many references to an object guest code owns, and what was last set on an object since it was
allocated. -/
structure Audited where
  env : Env
  static : Id → Bool
  guest : Id → ℕ
  last : AssocKey → Id

namespace Env

def busy (env : Env) : List AssocKey := env.pending.flatMap Frame.keys

def storesNow (env : Env) (key : AssocKey) : Bool :=
  match env.associatedObjects.lookup key with
  | none => true
  | some old => !releases old

end Env

def Policy.retains : Policy → Bool
  | .retainNonatomic | .retain => true
  | _ => false

def Policy.copies : Policy → Bool
  | .copyNonatomic | .copy => true
  | _ => false

def completion (key : AssocKey) (value : Id) (policy : ℕ) : Option (AssocKey × Id) :=
  if value = nil then some (key, nil)
  else if (Policy.ofRaw policy).copies then none
  else some (key, value)

def completes (env : Env) : Request → Option (AssocKey × Id)
  | .setAssociatedObject object key value policy =>
    if object = nil then none
    else if env.storesNow (object, key) then completion (object, key) value policy
    else none
  | .resume i copied =>
    match env.pending[i]? with
    | some (.setting key value policy) => completion key value policy
    | some (.copying key) => some (key, copied)
    | _ => none
  | _ => none

def record (last : AssocKey → Id) : Option (AssocKey × Id) → AssocKey → Id
  | none => last
  | some (key, value) => update last key value

namespace Audited

def lastAfter (w : Audited) (r : Request) : AssocKey → Id :=
  match r with
  | .alloc object _ | .removeAssociatedObjects object _ =>
    fun key => if key.1 = object ∧ object ≠ nil then nil else w.last key
  | r => record w.last (completes w.env r)

def guestAfter (w : Audited) : Request → Id → ℕ
  | .alloc ptr refcount =>
    update w.guest ptr (match refcount with | none => 0 | some n => n.get)
  | .retain object => update w.guest object (w.guest object + 1)
  | .release object => update w.guest object (w.guest object - 1)
  | .resume i copied =>
    match w.env.pending[i]? with
    | some (.copying _) => update w.guest copied (w.guest copied - 1)
    | _ => w.guest
  | _ => w.guest

def staticAfter (w : Audited) : Request → Id → Bool
  | .alloc ptr refcount => update w.static ptr refcount.isNone
  | _ => w.static

def step (w : Audited) (r : Request) : Checked Audited :=
  (fun env => ⟨env, w.staticAfter r, w.guestAfter r, w.lastAfter r⟩) <$> w.env.step r

def start : Audited := ⟨⟨fun _ => none, ∅, []⟩, fun _ => false, fun _ => 0, fun _ => nil⟩

def live (w : Audited) (o : Id) : Bool :=
  (w.env.objects o).isSome && ((w.env.objects.count o).isSome || w.static o)

def countable (w : Audited) (o : Id) : Bool :=
  match w.env.objects.count o with
  | none => true
  | some n => decide (n.get + 1 < u32Bound)

def owned (w : Audited) (o : Id) : Bool :=
  (w.env.objects.count o).isNone || decide (0 < w.guest o)

def canStore (w : Audited) (value : Id) (policy : ℕ) : Bool :=
  value = nil || !(Policy.ofRaw policy).retains || w.live value && w.countable value

end Audited

/-- How the calls are to be used: guest code releases only what it owns and deallocates only what
no reference is left to; a value is still live when it is retained; what is set on an object is
removed before the object is deallocated; and code run by a call that is at work at a key leaves
the key alone. -/
def Use (w : Audited) : Request → Bool
  | .alloc _ _ => true
  | .retain object => w.countable object
  | .release object => w.owned object
  | .deallocObject object =>
    object = nil || !w.live object &&
      w.env.associatedObjects.entries.all (fun e => e.1.1 ≠ object) &&
      w.env.busy.all fun key => key.1 ≠ object
  | .setAssociatedObject object key value policy =>
    object = nil || (w.env.objects object).isSome && (object, key) ∉ w.env.busy &&
      (!w.env.storesNow (object, key) || w.canStore value policy)
  | .removeAssociatedObjects object _ => object = nil || w.env.busy.all fun key => key.1 ≠ object
  | .resume i copied =>
    match w.env.pending[i]? with
    | some (.setting _ value policy) => w.canStore value policy
    | some (.copying _) => copied = nil || w.live copied && w.owned copied
    | _ => true

def Env.held (env : Env) (v : Id) : ℕ := heldIn env.associatedObjects v

structure Owning (w : Audited) : Prop where
  /-- What was last set is answered, where no call is at work. -/
  gets : ∀ object key, object ≠ nil → (object, key) ∉ w.env.busy →
    w.env.objcGetAssociatedObject object key = w.last (object, key)
  /-- A value retained or copied is never one that is gone. -/
  alive : ∀ key v, w.env.associatedObjects.lookup key = some (v, true) → v ≠ nil →
    w.live v = true
  /-- Beside the references of guest code there is one for each retained association. -/
  account : ∀ v n, v ≠ nil → w.env.objects.count v = some n → n.get = w.guest v + w.env.held v
  /-- An object just allocated has no associations. -/
  fresh : ∀ ptr refcount w', w.step (.alloc ptr refcount) = .ok w' → ∀ key,
    w'.env.objcGetAssociatedObject ptr key = nil

structure Kept (env : Env) (static : Id → Bool) (guest : Id → ℕ) (last : AssocKey → Id) :
    Prop where
  refs : References env.objects static guest env.associatedObjects
  placed : Placed env.objects env.associatedObjects env.pending last

section

variable {env : Env} {static : Id → Bool} {guest : Id → ℕ} {last : AssocKey → Id}
  {key : AssocKey} {value : Id} {policy : ℕ} {w w' : Audited} {r : Request}

lemma live_iff {o : Id} : w.live o = true ↔ (w.env.objects o).isSome = true ∧
    ((w.env.objects.count o).isSome = true ∨ w.static o = true) := by
  rw [Audited.live, Bool.and_eq_true, Bool.or_eq_true]

lemma lt_of_countable {o : Id} (h : w.countable o = true) :
    ∀ n, w.env.objects.count o = some n → n.get + 1 < u32Bound := by
  intro n hn
  rw [Audited.countable, hn] at h
  exact of_decide_eq_true h

lemma owned_iff {o : Id} :
    w.owned o = true ↔ w.env.objects.count o = none ∨ 0 < w.guest o := by
  rw [Audited.owned, Bool.or_eq_true, Option.isNone_iff_eq_none, decide_eq_true_eq]

lemma Kept.store (hrefs : References env.objects static guest env.associatedObjects)
    (hplaced : Placed env.objects env.associatedObjects (.setting key value policy :: env.pending)
      last)
    (hcan : value ≠ nil → (Policy.ofRaw policy).retains = true →
      ((env.objects value).isSome = true ∧
        ((env.objects.count value).isSome = true ∨ static value = true)) ∧
      ∀ n, env.objects.count value = some n → n.get + 1 < u32Bound) :
    Kept (env.storeAssociated key value policy) static guest
      (record last (completion key value policy)) := by
  have hfree : env.associatedObjects.lookup key = none :=
    hplaced.waits (.setting key value policy) mem_cons_self
  rw [Env.storeAssociated, completion]
  by_cases hnil : value = nil
  · rw [if_pos hnil, if_pos hnil]
    exact ⟨hrefs, hplaced.giveUp rfl hfree⟩
  rw [if_neg hnil, if_neg hnil]
  have hretain : (Policy.ofRaw policy).retains = true →
      Kept (({ env with objects := env.objects.incrementRefcount value } : Env).insert key
        (value, true)) static guest (update last key value) := by
    intro hpolicy
    obtain ⟨⟨hthere, hlive⟩, hmax⟩ := hcan hnil hpolicy
    refine ⟨hrefs.insertRetained hfree hthere hlive hmax, ?_⟩
    have hinsert := hplaced.insert rfl (value, true)
    exact hinsert.there fun o ho => isSome_incrementRefcount.mpr ho
  have hassign : Kept (env.insert key (value, false)) static guest
      (update last key value) :=
    ⟨hrefs.insert hfree rfl, hplaced.insert rfl (value, false)⟩
  cases hpolicy : Policy.ofRaw policy with
  | assign => exact hassign
  | unknown _ => exact hassign
  | retainNonatomic => exact hretain (by rw [hpolicy]; rfl)
  | retain => exact hretain (by rw [hpolicy]; rfl)
  | copyNonatomic => exact ⟨hrefs, hplaced.copying⟩
  | copy => exact ⟨hrefs, hplaced.copying⟩

lemma Kept.removeLoop (toRemove : List Association)
    (hrefs : References env.objects static guest env.associatedObjects)
    (hplaced : Placed env.objects env.associatedObjects (.removing toRemove :: env.pending)
      last) : Kept (env.removeLoop toRemove) static guest last := by
  induction toRemove generalizing env with
  | nil => exact ⟨hrefs, hplaced.removed⟩
  | cons e toRemove ih =>
    obtain ⟨key, value⟩ := e
    have hlook : env.associatedObjects.lookup key = some value :=
      (hplaced.waits _ mem_cons_self _ mem_cons_self).1
    rw [Env.removeLoop]
    split
    · rename_i hrel
      refine ⟨hrefs.eraseRelease hlook hrel, ?_⟩
      exact hplaced.removeOne.there fun o ho => isSome_decrementRefcount.mpr ho
    · rename_i hrel
      exact ih (hrefs.erase hlook (by simpa using hrel)) hplaced.removeOne

lemma Kept.set (h : Kept env static guest last) {object : Id} {key : ℕ} (hobject : object ≠ nil)
    (hthere : (env.objects object).isSome = true) (hkey : (object, key) ∉ env.busy)
    (value : Id) (policy : ℕ) (hcan : env.storesNow (object, key) = true → value ≠ nil →
      (Policy.ofRaw policy).retains = true → ((env.objects value).isSome = true ∧
        ((env.objects.count value).isSome = true ∨ static value = true)) ∧
      ∀ n, env.objects.count value = some n → n.get + 1 < u32Bound) :
    Kept (env.objcSetAssociatedObject object key value policy) static guest
      (record last (if env.storesNow (object, key) then completion (object, key) value policy
        else none)) := by
  have hbegin := h.placed.begin hkey hobject hthere value policy
  rw [Env.objcSetAssociatedObject, if_neg hobject]
  cases hlook : env.associatedObjects.lookup (object, key) with
  | none =>
    have hnow : env.storesNow (object, key) = true := by rw [Env.storesNow, hlook]
    rw [if_pos hnow]
    rw [Table.erase_of_lookup hlook] at hbegin
    exact Kept.store h.refs hbegin (hcan hnow)
  | some old =>
    have hnow : env.storesNow (object, key) = !releases old := by rw [Env.storesNow, hlook]
    dsimp only
    by_cases hrel : releases old = true
    · rw [if_pos hrel, if_neg (by rw [hnow, hrel]; exact Bool.false_ne_true)]
      refine ⟨h.refs.eraseRelease hlook hrel, ?_⟩
      exact hbegin.there fun o ho => isSome_decrementRefcount.mpr ho
    · rw [Bool.not_eq_true] at hrel
      rw [hrel, Bool.not_false] at hnow
      rw [if_neg (by rw [hrel]; exact Bool.false_ne_true), if_pos hnow]
      exact Kept.store (h.refs.erase hlook hrel) hbegin (hcan hnow)

lemma canStore_spec (h : w.canStore value policy = true) : value ≠ nil →
    (Policy.ofRaw policy).retains = true → ((w.env.objects value).isSome = true ∧
      ((w.env.objects.count value).isSome = true ∨ w.static value = true)) ∧
    ∀ n, w.env.objects.count value = some n → n.get + 1 < u32Bound := by
  intro hnil hretains
  rw [Audited.canStore, decide_eq_false hnil, hretains] at h
  have h : w.live value = true ∧ w.countable value = true := by simpa using h
  exact ⟨live_iff.mp h.1, lt_of_countable h.2⟩

lemma Kept.resume (h : Kept w.env w.static w.guest w.last) {i : ℕ} {copied : Id} {env' : Env}
    (huse : Use w (.resume i copied) = true) (hstep : w.env.resume i copied = .ok env') :
    Kept env' w.static (w.guestAfter (.resume i copied)) (w.lastAfter (.resume i copied)) := by
  obtain ⟨frame, hframe, hstep⟩ := bind_eq_ok.mp hstep
  rw [unwrap_eq_ok] at hframe
  obtain rfl := ok.inj hstep
  have hperm : w.env.pending.Perm (frame :: w.env.pending.eraseIdx i) := by
    obtain ⟨hi, rfl⟩ := List.getElem?_eq_some_iff.mp hframe
    exact (getElem_cons_eraseIdx_perm hi).symm
  have hplaced := h.placed.perm hperm
  simp only [Use, hframe] at huse
  cases frame with
  | setting key value policy =>
    have hguest : w.guestAfter (.resume i copied) = w.guest := by
      simp only [Audited.guestAfter, hframe]
    have hlast : w.lastAfter (.resume i copied) = record w.last (completion key value policy) := by
      simp only [Audited.lastAfter, completes, hframe]
    rw [hguest, hlast]
    change Kept (Env.storeAssociated { w.env with pending := w.env.pending.eraseIdx i } key value
      policy) _ _ _
    exact Kept.store h.refs hplaced (canStore_spec huse)
  | copying key =>
    have hguest : w.guestAfter (.resume i copied) =
        update w.guest copied (w.guest copied - 1) := by
      simp only [Audited.guestAfter, hframe]
    have hlast : w.lastAfter (.resume i copied) = update w.last key copied := by
      simp only [Audited.lastAfter, completes, hframe, record]
    have hfree : w.env.associatedObjects.lookup key = none :=
      hplaced.waits (.copying key) mem_cons_self
    rw [hguest, hlast]
    refine ⟨?_, hplaced.insert rfl (copied, true)⟩
    by_cases hnil : copied = nil
    · subst hnil
      have hinsert : References w.env.objects w.static w.guest
          (w.env.associatedObjects.insert key (nil, true)) := h.refs.insert hfree rfl
      refine ⟨hinsert.alive, fun v n hv hn => ?_⟩
      rw [update_of_ne hv]
      exact hinsert.account v n hv hn
    · have huse : w.live copied = true ∧ w.owned copied = true := by simpa [hnil] using huse
      obtain ⟨hthere, hlive⟩ := live_iff.mp huse.1
      exact h.refs.insertCopied hfree hthere hlive (owned_iff.mp huse.2)
  | removing toRemove =>
    have hguest : w.guestAfter (.resume i copied) = w.guest := by
      simp only [Audited.guestAfter, hframe]
    have hlast : w.lastAfter (.resume i copied) = w.last := by
      simp only [Audited.lastAfter, completes, hframe, record]
    rw [hguest, hlast]
    change Kept (Env.removeLoop { w.env with pending := w.env.pending.eraseIdx i } toRemove) _ _ _
    exact Kept.removeLoop toRemove h.refs hplaced

lemma Kept.dealloc (h : Kept w.env w.static w.guest w.last) {object : Id} (hnil : object ≠ nil)
    (huse : Use w (.deallocObject object) = true) :
    Kept (w.env.deallocObject object) w.static w.guest w.last := by
  obtain ⟨⟨hdead, hunset⟩, hidle⟩ : (w.live object = false ∧
      ∀ e ∈ w.env.associatedObjects.entries, e.1.1 ≠ object) ∧
      ∀ key ∈ w.env.busy, key.1 ≠ object := by
    simpa [Use, hnil, and_assoc] using huse
  rw [Env.deallocObject, if_neg hnil]
  refine ⟨h.refs.dealloc hnil fun hlive => ?_, ?_⟩
  · rw [live_iff.mpr hlive] at hdead
    cases hdead
  · refine ⟨fun key value hk => ?_, fun key hk => ?_, h.placed.nodup, h.placed.waits, h.placed.gets⟩
    · have hne : key.1 ≠ object := hunset ⟨key, value⟩ (Table.mem_entries_iff.mpr hk)
      obtain ⟨hkey, hthere⟩ := h.placed.owner key value hk
      refine ⟨hkey, ?_⟩
      dsimp only
      rwa [update_of_ne hne]
    · obtain ⟨hkey, hthere⟩ := h.placed.busyOwner key hk
      refine ⟨hkey, ?_⟩
      dsimp only
      rwa [update_of_ne (hidle key hk)]

lemma shown_of_absent (h : Kept env static guest last) {ptr : Id} (hfree : env.objects ptr = none)
    (key : ℕ) : env.associatedObjects.lookup (ptr, key) = none := by
  cases hlook : env.associatedObjects.lookup (ptr, key) with
  | none => rfl
  | some value =>
    have hthere := (h.placed.owner _ _ hlook).2
    rw [hfree] at hthere
    cases hthere

lemma Kept.alloc (h : Kept w.env w.static w.guest w.last) {ptr : Id}
    {refcount : Option NonZeroU32} {env' : Env}
    (hstep : w.env.allocObject ptr refcount = .ok env') :
    Kept env' (w.staticAfter (.alloc ptr refcount)) (w.guestAfter (.alloc ptr refcount))
      (w.lastAfter (.alloc ptr refcount)) := by
  obtain ⟨_, hassert, hstep⟩ := bind_eq_ok.mp hstep
  obtain ⟨hnil, hfree⟩ := assert_eq_ok.mp hassert
  obtain rfl := ok.inj hstep
  have hthere : ∀ o, (w.env.objects o).isSome = true →
      (update w.env.objects ptr (some ⟨refcount, 0⟩) o).isSome = true := by
    intro o ho
    by_cases hne : o = ptr
    · subst hne
      rw [hfree] at ho
      cases ho
    · rwa [update_of_ne hne]
  have hplaced := h.placed.there hthere
  refine ⟨h.refs.alloc hnil hfree refcount 0, hplaced.owner, hplaced.busyOwner, hplaced.nodup,
    fun f hf => ?_, fun key hk => ?_⟩
  · apply (hplaced.waits f hf).congr
    intro key hk
    have hne : key.1 ≠ ptr := by
      intro hkey
      have hsome := (h.placed.busyOwner key (mem_busy hf hk)).2
      rw [hkey, hfree] at hsome
      cases hsome
    exact ⟨rfl, if_neg fun h => hne h.1⟩
  · by_cases hkey : key.1 = ptr
    · obtain ⟨o, k⟩ := key
      obtain rfl : o = ptr := hkey
      have hlast : w.lastAfter (.alloc o refcount) (o, k) = nil := if_pos ⟨rfl, hnil⟩
      rw [hlast]
      exact shown_of_none (shown_of_absent h hfree k)
    · have hlast : w.lastAfter (.alloc ptr refcount) key = w.last key := if_neg fun h => hkey h.1
      rw [hlast]
      exact h.placed.gets key hk

lemma Kept.step (h : Kept w.env w.static w.guest w.last) (huse : Use w r = true)
    (hstep : w.step r = .ok w') : Kept w'.env w'.static w'.guest w'.last := by
  obtain ⟨env', henv, rfl⟩ := map_eq_ok.mp hstep
  cases r with
  | alloc ptr refcount => exact h.alloc henv
  | retain object =>
    obtain rfl := ok.inj henv
    refine ⟨h.refs.guestRetain (lt_of_countable huse), ?_⟩
    exact h.placed.there fun o ho => isSome_incrementRefcount.mpr ho
  | release object =>
    obtain rfl := ok.inj henv
    refine ⟨h.refs.guestRelease (owned_iff.mp huse), ?_⟩
    exact h.placed.there fun o ho => isSome_decrementRefcount.mpr ho
  | deallocObject object =>
    obtain rfl := ok.inj henv
    by_cases hnil : object = nil
    · subst hnil
      exact h
    · exact h.dealloc hnil huse
  | setAssociatedObject object key value policy =>
    obtain rfl := ok.inj henv
    by_cases hnil : object = nil
    · subst hnil
      exact h
    · obtain ⟨⟨hthere, hkey⟩, hcan⟩ : ((w.env.objects object).isSome = true ∧
          (object, key) ∉ w.env.busy) ∧
          (w.env.storesNow (object, key) = false ∨ w.canStore value policy = true) := by
        simpa [Use, hnil, and_assoc] using huse
      have hset := h.set hnil hthere hkey value policy fun hnow =>
        canStore_spec (hcan.resolve_left fun hno => by cases hno.symm.trans hnow)
      have hlast : w.lastAfter (.setAssociatedObject object key value policy) =
          record w.last (if w.env.storesNow (object, key) then
            completion (object, key) value policy else none) := by
        simp only [Audited.lastAfter, completes, if_neg hnil]
      rw [hlast]
      exact hset
  | removeAssociatedObjects object toRemove =>
    change w.env.objcRemoveAssociatedObjects object toRemove = _ at henv
    rw [Env.objcRemoveAssociatedObjects] at henv
    by_cases hnil : object = nil
    · rw [if_pos hnil] at henv
      obtain rfl := ok.inj henv
      have hlast : w.lastAfter (.removeAssociatedObjects object toRemove) = w.last := by
        funext key
        exact if_neg fun h => h.2 hnil
      rw [hlast]
      exact h
    · rw [if_neg hnil] at henv
      obtain ⟨_, hassert, henv⟩ := bind_eq_ok.mp henv
      obtain rfl := ok.inj henv
      have hidle : ∀ key ∈ w.env.busy, key.1 ≠ object := by simpa [Use, hnil] using huse
      have hbegin := h.placed.beginRemove hidle (assert_eq_ok.mp hassert)
      have hlast : w.lastAfter (.removeAssociatedObjects object toRemove) =
          fun key => if key.1 = object then nil else w.last key := by
        funext key
        simp only [Audited.lastAfter, hnil, ne_eq, not_false_eq_true, and_true]
      rw [hlast]
      exact Kept.removeLoop toRemove h.refs hbegin
  | resume i copied => exact h.resume huse henv

lemma kept_start : Kept Audited.start.env Audited.start.static Audited.start.guest
    Audited.start.last := by
  refine ⟨⟨?_, ?_⟩, ?_, ?_, nodup_nil, ?_, fun _ _ => rfl⟩
  · exact fun _ _ h => by cases h
  · exact fun _ _ _ h => by cases h
  · exact fun _ _ h => by cases h
  · exact fun _ h => by cases h
  · exact fun _ h => by cases h

lemma Kept.owning (h : Kept w.env w.static w.guest w.last) : Owning w := by
  constructor
  · intro object key hobject hbusy
    rw [Env.objcGetAssociatedObject, if_neg hobject]
    exact h.placed.gets _ hbusy
  · intro key v hlook hv
    rw [live_iff]
    apply h.refs.alive v hv
    exact Table.countValues_pos hlook (by simp)
  · exact h.refs.account
  · intro ptr refcount w' hstep key
    obtain ⟨env', henv, rfl⟩ := map_eq_ok.mp hstep
    obtain ⟨_, hassert, henv⟩ := bind_eq_ok.mp henv
    obtain ⟨hnil, hfree⟩ := assert_eq_ok.mp hassert
    obtain rfl := ok.inj henv
    rw [Env.objcGetAssociatedObject, if_neg hnil, shown_of_absent h hfree]

/-- Over every run of calls that are used as they are meant to be, the code that they run from
inside included. -/
theorem owning_of_use (rs : List Request) (w : Audited)
    (huse : Along Audited.step (fun w r => Use w r = true) Audited.start rs)
    (hrun : run Audited.step Audited.start rs = .ok w) : Owning w := by
  have hkept : Kept w.env w.static w.guest w.last :=
    run_preserves (I := fun w => Kept w.env w.static w.guest w.last)
      (fun _ _ _ h huse hstep => h.step huse hstep) kept_start huse hrun
  exact hkept.owning

theorem owning_of_use_reused :
    ∃ w, run Audited.step Audited.start
      [.alloc 100 (some .one), .alloc 200 (some .one), .setAssociatedObject 100 1 200 1,
        .release 200, .alloc 300 (some .one), .setAssociatedObject 100 1 300 3, .resume 0 0,
        .deallocObject 200, .resume 0 300, .removeAssociatedObjects 100 [⟨(100, 1), (300, true)⟩],
        .resume 0 0, .release 100, .deallocObject 100, .alloc 100 (some .one)] = .ok w ∧
      Owning w := by
  have hcheck : succeedsWith (fun _ => true) (run Audited.step Audited.start
      [.alloc 100 (some .one), .alloc 200 (some .one), .setAssociatedObject 100 1 200 1,
        .release 200, .alloc 300 (some .one), .setAssociatedObject 100 1 300 3, .resume 0 0,
        .deallocObject 200, .resume 0 300, .removeAssociatedObjects 100 [⟨(100, 1), (300, true)⟩],
        .resume 0 0, .release 100, .deallocObject 100, .alloc 100 (some .one)]) = true := by
    decide
  obtain ⟨w, hrun, -⟩ := exists_of_succeedsWith hcheck
  exact ⟨w, hrun, owning_of_use _ w (by decide) hrun⟩

theorem not_owning : ¬ ∀ (rs : List Request) (w : Audited),
    run Audited.step Audited.start rs = .ok w → ∀ object key, object ≠ nil →
      (object, key) ∉ w.env.busy →
      w.env.objcGetAssociatedObject object key = w.last (object, key) := by
  intro h
  have hcheck : succeedsWith (fun w => decide ((100, 1) ∉ w.env.busy ∧
      w.env.objcGetAssociatedObject 100 1 = 200 ∧ w.last (100, 1) = nil))
      (run Audited.step Audited.start
        [.alloc 100 (some .one), .alloc 200 (some .one), .setAssociatedObject 100 1 200 1,
          .release 100, .deallocObject 100, .alloc 100 (some .one)]) = true := by
    decide
  obtain ⟨w, hrun, hw⟩ := exists_of_succeedsWith hcheck
  obtain ⟨hidle, hget, hlast⟩ := of_decide_eq_true hw
  have hsame := h _ w hrun 100 1 (by decide) hidle
  rw [hget, hlast] at hsame
  exact absurd hsame (by decide)

end

end TouchHle.Objc.Associations
