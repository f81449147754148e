import Mathlib.Data.List.Count
import Mathlib.Tactic

namespace TouchHle.Foundation

open List

structure KvoRegistration where
  object : ℕ
  observer : ℕ
  key : String
  options : ℕ
  context : ℕ
  deriving DecidableEq

def KvoRegistration.wantsOld (r : KvoRegistration) : Bool := r.options.testBit 1

structure PendingOldValue where
  object : ℕ
  key : String
  value : ℕ
  deriving DecidableEq

structure KvoNotification where
  registration : KvoRegistration
  old : Option ℕ
  deriving DecidableEq

/-- A change that has ended: who was registered when it began, what was kept of the value then, who was
registered when it ended, and who was told what. -/
structure ObservedChange where
  object : ℕ
  key : String
  atWill : List KvoRegistration
  snapshot : Option ℕ
  atDid : List KvoRegistration
  delivered : List KvoNotification

structure KeyValueObserving where
  observers : List KvoRegistration
  pending : List PendingOldValue
  retained : List ℕ
  released : List ℕ
  changes : List ObservedChange

/-- Guest code that changes values in properly nested pairs. What an observer does when it is told at once of the
initial value is part of the code after its registration. Reading the value before a change, the code
between `willChangeValueForKey:` and `didChangeValueForKey:`, and telling the observers can all do the same. -/
inductive KvoScript
  | done
  | addObserver (registration : KvoRegistration) (next : KvoScript)
  | removeObserver (object observer : ℕ) (key : String) (next : KvoScript)
  | change (object : ℕ) (key : String) (reading : KvoScript) (value : ℕ) (body told next : KvoScript)

namespace KeyValueObserving

variable (s : KeyValueObserving) (object : ℕ) (key : String)

def matching : List KvoRegistration := s.observers.filter fun r => r.object = object ∧ r.key = key

def someWantsOld : Bool := (s.matching object key).any KvoRegistration.wantsOld

def pushOldValue (value : ℕ) : KeyValueObserving :=
  { s with
    pending := s.pending ++ [⟨object, key, value⟩]
    retained := s.retained ++ if value = 0 then [] else [value] }

def isPending (p : PendingOldValue) : Bool := p.object = object ∧ p.key = key

def popped : ℕ := ((s.pending.reverse.find? (isPending object key)).map PendingOldValue.value).getD 0

def popOldValue : KeyValueObserving :=
  { s with pending := (s.pending.reverse.eraseP (isPending object key)).reverse }

def releaseOldValue (value : ℕ) : KeyValueObserving :=
  { s with released := s.released ++ if value = 0 then [] else [value] }

def deliver (old : ℕ) (r : KvoRegistration) : KvoNotification := ⟨r, if r.wantsOld then some old else none⟩

def didChange (atWill : List KvoRegistration) (snapshot : Option ℕ) : KeyValueObserving :=
  { s.popOldValue object key with
    changes := s.changes ++
      [⟨object, key, atWill, snapshot, s.observers, (s.matching object key).map (deliver (s.popped object key))⟩] }

def addObserver (r : KvoRegistration) : KeyValueObserving :=
  if r.observer = 0 then s else { s with observers := s.observers ++ [r] }

def removeObserver (object observer : ℕ) (key : String) : KeyValueObserving :=
  { s with
    observers := s.observers.filter fun r => ¬ (r.object = object ∧ r.observer = observer ∧ r.key = key) }

def ownSnapshot (value : ℕ) : Option ℕ := if s.someWantsOld object key then some value else none

def run (s : KeyValueObserving) : KvoScript → KeyValueObserving
  | .done => s
  | .addObserver r next => (s.addObserver r).run next
  | .removeObserver object observer key next => (s.removeObserver object observer key).run next
  | .change object key reading value body told next =>
    let began := if s.someWantsOld object key then (s.run reading).pushOldValue object key value else s
    let changed := began.run body
    let ended := changed.didChange object key s.observers (s.ownSnapshot object key value)
    let telling := if changed.matching object key = [] then ended else ended.run told
    (telling.releaseOldValue (changed.popped object key)).run next

def Fits (s : KeyValueObserving) : KvoScript → Prop
  | .done => True
  | .addObserver r next => (s.addObserver r).Fits next
  | .removeObserver object observer key next => (s.removeObserver object observer key).Fits next
  | .change object key reading value body told next =>
    let began := if s.someWantsOld object key then (s.run reading).pushOldValue object key value else s
    let changed := began.run body
    let ended := changed.didChange object key s.observers (s.ownSnapshot object key value)
    let telling := if changed.matching object key = [] then ended else ended.run told
    (s.someWantsOld object key = false → ∀ p ∈ s.pending, isPending object key p = false) ∧
      (s.someWantsOld object key = true → s.Fits reading) ∧ began.Fits body ∧
      (changed.matching object key ≠ [] → ended.Fits told) ∧
      (telling.releaseOldValue (changed.popped object key)).Fits next

def initial : KeyValueObserving := ⟨[], [], [], [], []⟩

end KeyValueObserving

/-- The observers that are registered are told, and those that wanted the old value when the change began
get the value that it began with. -/
structure ObservedChange.Right (c : ObservedChange) : Prop where
  told : (c.delivered.map KvoNotification.registration).Perm
    (c.atDid.filter fun r => r.object = c.object ∧ r.key = c.key)
  old : ∀ n ∈ c.delivered, n.registration.wantsOld = true →
    (∃ w ∈ c.atWill, w.object = c.object ∧ w.key = c.key ∧ w.observer = n.registration.observer ∧
      w.wantsOld = true) → c.snapshot.isSome = true ∧ n.old = c.snapshot

namespace KeyValueObserving

variable {s : KeyValueObserving} {object value : ℕ} {key : String}

structure Leaves (s s' : KeyValueObserving) : Prop where
  pending : s'.pending = s.pending
  changes : ∃ added, s'.changes = s.changes ++ added ∧ ∀ c ∈ added, c.Right
  balance : ∀ v, s'.retained.count v + s.released.count v = s'.released.count v + s.retained.count v

lemma Leaves.refl (s : KeyValueObserving) : Leaves s s where
  pending := rfl
  changes := ⟨[], (append_nil _).symm, fun _ h => nomatch h⟩
  balance _ := Nat.add_comm _ _

lemma Leaves.trans {s s' s'' : KeyValueObserving} (h : Leaves s s') (h' : Leaves s' s'') : Leaves s s'' := by
  obtain ⟨added, hadded, hright⟩ := h.changes
  obtain ⟨added', hadded', hright'⟩ := h'.changes
  refine ⟨h'.pending.trans h.pending, ⟨added ++ added', ?_, ?_⟩, fun v => ?_⟩
  · rw [hadded', hadded, append_assoc]
  · intro c hc
    exact (mem_append.mp hc).elim (hright c) (hright' c)
  · have hbalance := h.balance v
    have hbalance' := h'.balance v
    omega

lemma popped_push {pending : List PendingOldValue} (h : s.pending = pending ++ [⟨object, key, value⟩]) :
    s.popped object key = value ∧ (s.popOldValue object key).pending = pending := by
  have hlast : isPending object key ⟨object, key, value⟩ = true := by simp [isPending]
  simp [popped, popOldValue, h, hlast]

lemma popped_none (h : ∀ p ∈ s.pending, isPending object key p = false) :
    s.popped object key = 0 ∧ (s.popOldValue object key).pending = s.pending := by
  have hfind : s.pending.reverse.find? (isPending object key) = none := by
    rw [find?_eq_none]
    intro p hp
    simp [h p (mem_reverse.mp hp)]
  have herase : s.pending.reverse.eraseP (isPending object key) = s.pending.reverse := by
    apply eraseP_of_forall_not
    intro p hp
    simp [h p (mem_reverse.mp hp)]
  simp [popped, popOldValue, hfind, herase]

lemma right_change {s s' : KeyValueObserving}
    (hpopped : s.someWantsOld object key = true → s'.popped object key = value) :
    ObservedChange.Right ⟨object, key, s.observers, s.ownSnapshot object key value, s'.observers,
      (s'.matching object key).map (deliver (s'.popped object key))⟩ where
  told := by
    rw [List.map_map]
    have hid : KvoNotification.registration ∘ deliver (s'.popped object key) = id := rfl
    rw [hid, map_id]
    exact List.Perm.refl _
  old n hn hwants := by
    rintro ⟨w, hw, hobject, hkey, -, hold⟩
    obtain ⟨r, -, rfl⟩ := mem_map.mp hn
    have hsome : s.someWantsOld object key = true := by
      rw [someWantsOld, any_eq_true]
      exact ⟨w, mem_filter.mpr ⟨hw, by simp_all⟩, hold⟩
    have hr : r.wantsOld = true := hwants
    simp [ownSnapshot, hsome, deliver, hr, hpopped hsome]

lemma Leaves.pushed {s' : KeyValueObserving} (h : Leaves (s.pushOldValue object key value) s') :
    s'.popped object key = value ∧ (s'.popOldValue object key).pending = s.pending :=
  popped_push h.pending

lemma leaves_ended {changed telling : KeyValueObserving} {atWill : List KvoRegistration} {snapshot : Option ℕ}
    (hpending : (changed.popOldValue object key).pending = s.pending)
    (hchanges : ∃ added, changed.changes = s.changes ++ added ∧ ∀ c ∈ added, c.Right)
    (hright : ObservedChange.Right ⟨object, key, atWill, snapshot, changed.observers,
      (changed.matching object key).map (deliver (changed.popped object key))⟩)
    (hbalance : ∀ v, changed.retained.count v + s.released.count v =
      changed.released.count v + s.retained.count v + (if changed.popped object key = 0 then [] else
        [changed.popped object key]).count v)
    (htelling : Leaves (changed.didChange object key atWill snapshot) telling) :
    Leaves s (telling.releaseOldValue (changed.popped object key)) := by
  obtain ⟨added, hadded, haddedRight⟩ := hchanges
  obtain ⟨told, htold, htoldRight⟩ := htelling.changes
  let ended : ObservedChange := ⟨object, key, atWill, snapshot, changed.observers,
    (changed.matching object key).map (deliver (changed.popped object key))⟩
  refine ⟨htelling.pending.trans hpending, ⟨added ++ [ended] ++ told, ?_, ?_⟩, fun v => ?_⟩
  · change telling.changes = _
    rw [htold]
    simp only [didChange, hadded, append_assoc, ended]
  · intro c hc
    rcases mem_append.mp hc with hc | hc
    · rcases mem_append.mp hc with hc | hc
      · exact haddedRight c hc
      · exact mem_singleton.mp hc ▸ hright
    · exact htoldRight c hc
  · have hended := htelling.balance v
    have hchanged := hbalance v
    simp only [didChange, popOldValue] at hended
    simp only [releaseOldValue, count_append]
    omega

lemma leaves_change {read began changed telling : KeyValueObserving} (object value : ℕ) (key : String)
    (hread : s.someWantsOld object key = true → Leaves s read)
    (hbegan : began = if s.someWantsOld object key then read.pushOldValue object key value else s)
    (hchanged : Leaves began changed)
    (hpending : s.someWantsOld object key = false → ∀ p ∈ s.pending, isPending object key p = false)
    (htelling : Leaves (changed.didChange object key s.observers (s.ownSnapshot object key value)) telling) :
    Leaves s (telling.releaseOldValue (changed.popped object key)) := by
  cases hwants : s.someWantsOld object key with
  | false =>
    rw [hwants, if_neg Bool.false_ne_true] at hbegan
    subst hbegan
    have hnone := popped_none fun p hp => hpending hwants p (hchanged.pending ▸ hp)
    have hnobody : began.someWantsOld object key = true → changed.popped object key = value := fun h =>
      absurd h (by simp [hwants])
    refine leaves_ended (hnone.2.trans hchanged.pending) hchanged.changes (right_change hnobody) (fun v => ?_)
      htelling
    rw [hnone.1, if_pos rfl, count_nil]
    exact hchanged.balance v
  | true =>
    rw [hwants, if_pos rfl] at hbegan
    subst hbegan
    obtain ⟨hpopped, hrest⟩ := hchanged.pushed
    have hread := hread hwants
    obtain ⟨added, hadded, haddedRight⟩ := hread.changes
    obtain ⟨inside, hinside, hinsideRight⟩ := hchanged.changes
    refine leaves_ended (hrest.trans hread.pending) ⟨added ++ inside, ?_, ?_⟩
      (right_change fun _ => hpopped) (fun v => ?_) htelling
    · rw [hinside, pushOldValue, hadded, append_assoc]
    · exact fun c hc => (mem_append.mp hc).elim (haddedRight c) (hinsideRight c)
    · have hinner := hchanged.balance v
      have houter := hread.balance v
      simp only [pushOldValue, count_append] at hinner
      rw [hpopped]
      omega

lemma leaves_told {ended : KeyValueObserving} {told : KvoScript} {registered : List KvoRegistration}
    (h : registered ≠ [] → Leaves ended (ended.run told)) :
    Leaves ended (if registered = [] then ended else ended.run told) := by
  split
  next => exact .refl ended
  next hsome => exact h hsome

lemma leaves_run (script : KvoScript) : ∀ s : KeyValueObserving, s.Fits script → Leaves s (s.run script) := by
  induction script with
  | done => exact fun s _ => .refl s
  | addObserver r next ih =>
    intro s h
    have hadd : Leaves s (s.addObserver r) := by
      unfold addObserver
      split
      · exact .refl s
      · exact ⟨rfl, (Leaves.refl s).changes, (Leaves.refl s).balance⟩
    exact hadd.trans (ih _ h)
  | removeObserver object observer key next ih =>
    intro s h
    have hremove : Leaves s (s.removeObserver object observer key) :=
      ⟨rfl, (Leaves.refl s).changes, (Leaves.refl s).balance⟩
    exact hremove.trans (ih _ h)
  | change object key reading value body told next ihReading ihBody ihTold ihNext =>
    intro s h
    obtain ⟨hpending, hreading, hbody, htold, hnext⟩ := h
    have hread : s.someWantsOld object key = true → Leaves s (s.run reading) :=
      fun hwants => ihReading s (hreading hwants)
    have htelling := leaves_told fun h => ihTold _ (htold h)
    exact (leaves_change object value key hread rfl (ihBody _ hbody) hpending htelling).trans (ihNext _ hnext)

/-- In code with properly nested changes, where no change begins without an observer that wants the old value
while an outer change of the same key has kept its own, every observer that wanted the old value gets the one
that its change began with, and every value is released as often as it was retained. -/
theorem changes_are_paired (script : KvoScript) (hfits : initial.Fits script) :
    (initial.run script).pending = [] ∧ (∀ c ∈ (initial.run script).changes, c.Right) ∧
      ∀ v, (initial.run script).released.count v = (initial.run script).retained.count v := by
  obtain ⟨hpending, ⟨added, hadded, hright⟩, hbalance⟩ := leaves_run script initial hfits
  refine ⟨hpending, fun c hc => hright c ?_, fun v => ?_⟩
  · rwa [hadded] at hc
  · have hv := hbalance v
    simp only [initial, List.count_nil, Nat.add_zero] at hv
    exact hv.symm

def nestedChanges : KvoScript :=
  .addObserver ⟨1, 2, "k", 2, 0⟩ (.change 1 "k" .done 10 (.change 1 "k" .done 11 .done .done .done) .done .done)

theorem nestedChanges_paired : initial.Fits nestedChanges ∧ (initial.run nestedChanges).pending = [] ∧
    (∀ c ∈ (initial.run nestedChanges).changes, c.Right) ∧
      ∀ v, (initial.run nestedChanges).released.count v = (initial.run nestedChanges).retained.count v := by
  have hfits : initial.Fits nestedChanges := by
    have hold : Nat.testBit 2 1 = true := rfl
    simp [hold, nestedChanges, Fits, run, pushOldValue, initial, addObserver, someWantsOld, matching, KvoRegistration.wantsOld]
  exact ⟨hfits, changes_are_paired nestedChanges hfits⟩

/-- The observer is removed while a change is under way, another change of the same key begins and ends, and the
observer is added again: the outer change has lost the value that it began with. -/
def reorderedObserver : KvoScript :=
  .addObserver ⟨1, 2, "k", 2, 0⟩ (.change 1 "k" .done 10
    (.removeObserver 1 2 "k" (.change 1 "k" .done 11 .done .done (.addObserver ⟨1, 2, "k", 2, 0⟩ .done)))
    .done .done)

theorem outer_value_is_lost : ¬ ∀ c ∈ (initial.run reorderedObserver).changes, c.Right := by
  intro h
  have hwants : Nat.testBit 2 1 = true := rfl
  have hright := h ⟨1, "k", [⟨1, 2, "k", 2, 0⟩], some 10, [⟨1, 2, "k", 2, 0⟩], [⟨⟨1, 2, "k", 2, 0⟩, some 0⟩]⟩
    (by simp [hwants, reorderedObserver, run, initial, addObserver, removeObserver, someWantsOld, matching,
      KvoRegistration.wantsOld, pushOldValue, ownSnapshot, didChange, popped, popOldValue, isPending, deliver,
      releaseOldValue])
  have hold := hright.old ⟨⟨1, 2, "k", 2, 0⟩, some 0⟩ (by simp) (by decide)
    ⟨⟨1, 2, "k", 2, 0⟩, by simp, rfl, rfl, rfl, by decide⟩
  exact absurd hold.2 (by decide)

end KeyValueObserving

end TouchHle.Foundation
