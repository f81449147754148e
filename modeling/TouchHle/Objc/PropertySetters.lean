import Mathlib.Data.List.Count
import Mathlib.Tactic
import TouchHle.Lib.Runs

namespace TouchHle.Objc

open List Option

structure SetPropertyCall where
  this : ℕ
  offset : ℤ
  value : ℕ
  atomic : Bool
  shouldCopy : ℤ

namespace SetPropertyCall

def nonatomic (this value : ℕ) (offset : ℤ) : SetPropertyCall := ⟨this, offset, value, false, 0⟩

def atomicRetain (this value : ℕ) (offset : ℤ) : SetPropertyCall := ⟨this, offset, value, true, 0⟩

def nonatomicCopy (this value : ℕ) (offset : ℤ) : SetPropertyCall := ⟨this, offset, value, false, 1⟩

def atomicCopy (this value : ℕ) (offset : ℤ) : SetPropertyCall := ⟨this, offset, value, true, 1⟩

end SetPropertyCall

inductive OwningMessage
  | retain
  | copyWithZone
  | mutableCopyWithZone
  deriving DecidableEq

def SetPropertyCall.message (c : SetPropertyCall) : OwningMessage :=
  if c.shouldCopy = 0 then .retain else if c.shouldCopy = 2 then .mutableCopyWithZone else .copyWithZone

inductive Awaits
  | owned (message : OwningMessage)
  | released
  deriving DecidableEq

structure Activation where
  thread : ℕ
  this : ℕ
  addr : ℕ
  locked : Bool
  old : ℕ
  awaits : Awaits
  deriving DecidableEq

structure Owned where
  addr : ℕ
  value : ℕ
  deriving DecidableEq

/-- The instance variables by their addresses, the thread that holds the lock of an object and how often, and the
calls under way, those that went on last before the others. -/
structure PropertySetters where
  ivars : ℕ → ℕ
  locks : ℕ → Option (ℕ × ℕ)
  active : List Activation
  owned : List Owned
  released : List Owned

namespace PropertySetters

variable (s : PropertySetters)

def lockPropertyAtomic (thread this : ℕ) : Option PropertySetters :=
  match s.locks this with
  | none => some { s with locks := Function.update s.locks this (some (thread, 1)) }
  | some (holder, count) =>
    if holder = thread then
      some { s with locks := Function.update s.locks this (some (thread, count + 1)) }
    else none

def unlockPropertyAtomic (thread this : ℕ) : PropertySetters :=
  match s.locks this with
  | none => s
  | some (holder, count) =>
    if holder ≠ thread then s
    else if count = 1 then { s with locks := Function.update s.locks this none }
    else { s with locks := Function.update s.locks this (some (thread, count - 1)) }

def returns (a : Activation) : PropertySetters :=
  if a.locked then s.unlockPropertyAtomic a.thread a.this else s

def unlessNil (addr value : ℕ) : List Owned := if value = 0 then [] else [⟨addr, value⟩]

def write (a : Activation) (value : ℕ) : PropertySetters :=
  let s := { s with
    ivars := Function.update s.ivars a.addr value
    owned := s.owned ++ unlessNil a.addr value
    released := s.released ++ unlessNil a.addr a.old }
  if a.old = 0 then s.returns a else { s with active := { a with awaits := .released } :: s.active }

def setProperty (thread : ℕ) (c : SetPropertyCall) : PropertySetters :=
  if c.offset < 4 then s
  else
    let locks : Bool := c.atomic ∧ c.this ≠ 0
    match if locks then s.lockPropertyAtomic thread c.this else some s with
    -- another thread holds the lock: the call has not begun
    | none => s
    | some s =>
      let addr := (c.this + c.offset).toNat
      let a : Activation := ⟨thread, c.this, addr, locks, s.ivars addr, .owned c.message⟩
      if 2 ^ 32 ≤ addr then s.returns a
      else if c.value = 0 then s.write a 0
      else { s with active := a :: s.active }

def getProperty (thread this : ℕ) (offset : ℤ) (atomic : Bool) : ℕ × PropertySetters :=
  if offset < 4 then (0, s)
  else
    let locks : Bool := atomic ∧ this ≠ 0
    match if locks then s.lockPropertyAtomic thread this else some s with
    | none => (0, s)
    | some s =>
      let addr := (this + offset).toNat
      let s := if locks then s.unlockPropertyAtomic thread this else s
      (if 2 ^ 32 ≤ addr then 0 else s.ivars addr, s)

def innermost (thread : ℕ) : Option Activation := s.active.find? fun a => a.thread = thread

def leave (thread : ℕ) : PropertySetters := { s with active := s.active.eraseP fun a => a.thread = thread }

def guestReturns (thread result : ℕ) : PropertySetters :=
  match s.innermost thread with
  | none => s
  | some a =>
    match a.awaits with
    | .owned _ => (s.leave thread).write a result
    | .released => (s.leave thread).returns a

end PropertySetters

inductive SetterEvent
  | setProperty (thread : ℕ) (c : SetPropertyCall)
  | getProperty (thread this : ℕ) (offset : ℤ) (atomic : Bool)
  | guestReturns (thread result : ℕ)

namespace PropertySetters

def step (s : PropertySetters) : SetterEvent → PropertySetters
  | .setProperty thread c => s.setProperty thread c
  | .getProperty thread this offset atomic => (s.getProperty thread this offset atomic).2
  | .guestReturns thread result => s.guestReturns thread result

def initial : PropertySetters := ⟨fun _ => 0, fun _ => none, [], [], []⟩

variable {s s' : PropertySetters} {thread this : ℕ} {a : Activation}

section Locks

def depth (s : PropertySetters) (this thread : ℕ) : ℕ :=
  match s.locks this with
  | none => 0
  | some (holder, count) => if holder = thread then count else 0

def holds (this thread : ℕ) (a : Activation) : Bool := a.locked ∧ a.this = this ∧ a.thread = thread

def Locked (s : PropertySetters) : Prop := ∀ this thread, s.depth this thread = s.active.countP (holds this thread)

lemma depth_lockPropertyAtomic (h : s.lockPropertyAtomic thread this = some s') (this' thread' : ℕ) :
    s'.depth this' thread' = s.depth this' thread' + if this = this' ∧ thread = thread' then 1 else 0 := by
  unfold lockPropertyAtomic at h
  split at h
  next hnone =>
    obtain rfl := some.inj h
    by_cases hthis : this = this'
    · subst hthis
      by_cases hthread : thread = thread' <;> simp [depth, hnone, hthread]
    · simp [depth, hthis, Ne.symm hthis]
  next holder count hsome =>
    split_ifs at h with hholder
    obtain rfl := some.inj h
    by_cases hthis : this = this'
    · subst hthis
      by_cases hthread : thread = thread' <;> simp_all [depth]
    · simp [depth, hthis, Ne.symm hthis]

lemma active_lockPropertyAtomic (h : s.lockPropertyAtomic thread this = some s') :
    s' = { s with locks := s'.locks } := by
  unfold lockPropertyAtomic at h
  split at h
  · obtain rfl := some.inj h
    rfl
  · split_ifs at h
    obtain rfl := some.inj h
    rfl

lemma depth_unlockPropertyAtomic (h : 0 < s.depth this thread) (this' thread' : ℕ) :
    (s.unlockPropertyAtomic thread this).depth this' thread' =
      s.depth this' thread' - if this = this' ∧ thread = thread' then 1 else 0 := by
  unfold unlockPropertyAtomic
  cases hlock : s.locks this with
  | none => simp [depth, hlock] at h
  | some lock =>
    obtain ⟨holder, count⟩ := lock
    simp only [depth, hlock] at h
    split_ifs at h with hholder
    · subst hholder
      by_cases hthis : this = this'
      · subst hthis
        by_cases hthread : holder = thread' <;> by_cases hone : count = 1 <;> simp [depth, hlock, hthread, hone]
      · by_cases hone : count = 1 <;> simp [depth, hone, hthis, Ne.symm hthis]
    · exact absurd h (lt_irrefl 0)

lemma eq_unlockPropertyAtomic (s : PropertySetters) (thread this : ℕ) :
    s.unlockPropertyAtomic thread this = { s with locks := (s.unlockPropertyAtomic thread this).locks } := by
  unfold unlockPropertyAtomic
  split
  · rfl
  · split_ifs <;> rfl

lemma eq_returns (s : PropertySetters) (a : Activation) : s.returns a = { s with locks := (s.returns a).locks } := by
  unfold returns
  split
  · exact eq_unlockPropertyAtomic s _ _
  · rfl

def LockedWith (s : PropertySetters) (a : Activation) : Prop :=
  ∀ this thread, s.depth this thread = (a :: s.active).countP (holds this thread)

lemma LockedWith.returns (h : s.LockedWith a) : (s.returns a).Locked := by
  intro this thread
  have hactive : (s.returns a).active = s.active := by rw [eq_returns]
  rw [hactive]
  have hdepth := h this thread
  rw [countP_cons] at hdepth
  unfold PropertySetters.returns
  split
  next hlocked =>
    have hown := h a.this a.thread
    rw [countP_cons_of_pos (by simp [holds, hlocked])] at hown
    rw [depth_unlockPropertyAtomic (by omega), hdepth]
    by_cases hsame : a.this = this ∧ a.thread = thread
    · simp [holds, hlocked, hsame]
    · simp [holds, hlocked, hsame]
  next hlocked => simpa [holds, hlocked] using hdepth

lemma LockedWith.write (h : s.LockedWith a) (value : ℕ) : (s.write a value).Locked := by
  unfold PropertySetters.write
  dsimp only
  split
  · exact LockedWith.returns (s := { s with ivars := _, owned := _, released := _ }) h
  · exact h

lemma Locked.leave (h : s.Locked) (ha : s.innermost thread = some a) : (s.leave thread).LockedWith a := by
  intro this thread'
  obtain ⟨hthread, later, rest, hactive, hlater⟩ := find?_eq_some_iff_append.mp ha
  have herase : (s.leave thread).active = later ++ rest := by
    simp only [PropertySetters.leave, hactive]
    rw [eraseP_append_right _ fun l hl => by simpa using hlater l hl]
    simp_all
  have hdepth := h this thread'
  rw [hactive, countP_append, countP_cons] at hdepth
  rw [herase, countP_cons, countP_append]
  change s.depth this thread' = _
  omega

lemma Locked.guestReturns (h : s.Locked) (thread result : ℕ) : (s.guestReturns thread result).Locked := by
  unfold PropertySetters.guestReturns
  cases ha : s.innermost thread with
  | none => exact h
  | some a =>
    dsimp only
    split
    · exact (h.leave ha).write result
    · exact (h.leave ha).returns

lemma Locked.taken (h : s.Locked) {locks : Bool}
    (hlock : (if locks = true then s.lockPropertyAtomic thread this else some s) = some s')
    (ha : a.thread = thread ∧ a.this = this ∧ a.locked = locks) : s'.LockedWith a := by
  obtain ⟨rfl, rfl, rfl⟩ := ha
  intro this' thread'
  cases hlocked : a.locked with
  | false =>
    rw [hlocked, if_neg Bool.false_ne_true] at hlock
    obtain rfl := some.inj hlock
    rw [countP_cons_of_neg (by simp [holds, hlocked]), h]
  | true =>
    rw [hlocked, if_pos rfl] at hlock
    have hactive : s'.active = s.active := by rw [active_lockPropertyAtomic hlock]
    rw [depth_lockPropertyAtomic hlock, h, hactive, countP_cons]
    simp [holds, hlocked]

lemma Locked.setProperty (h : s.Locked) (thread : ℕ) (c : SetPropertyCall) : (s.setProperty thread c).Locked := by
  unfold PropertySetters.setProperty
  dsimp only
  split
  · exact h
  · split
    next => exact h
    next s' hlock =>
      split
      · exact (h.taken hlock ⟨rfl, rfl, rfl⟩).returns
      · split
        · exact (h.taken hlock ⟨rfl, rfl, rfl⟩).write 0
        · exact h.taken hlock ⟨rfl, rfl, rfl⟩

lemma Locked.getProperty (h : s.Locked) (thread this : ℕ) (offset : ℤ) (atomic : Bool) :
    (s.getProperty thread this offset atomic).2.Locked := by
  unfold PropertySetters.getProperty
  dsimp only
  split
  · exact h
  · split
    next => exact h
    next s' hlock =>
      exact (h.taken (a := ⟨thread, this, 0, _, 0, .released⟩) hlock ⟨rfl, rfl, rfl⟩).returns

lemma Locked.step (h : s.Locked) (e : SetterEvent) : (s.step e).Locked := by
  cases e with
  | setProperty thread c => exact h.setProperty thread c
  | getProperty thread this offset atomic => exact h.getProperty thread this offset atomic
  | guestReturns thread result => exact h.guestReturns thread result

end Locks

section Ownership

def Balanced (s : PropertySetters) : Prop := ∀ addr value, value ≠ 0 →
  s.released.count ⟨addr, value⟩ + (if s.ivars addr = value then 1 else 0) = s.owned.count ⟨addr, value⟩

def Undisturbed (s : PropertySetters) : SetterEvent → Prop
  | .guestReturns thread _ => ∀ a ∈ s.innermost thread, a.awaits ≠ .released → s.ivars a.addr = a.old
  | _ => True

lemma count_unlessNil {addr addr' value value' : ℕ} (h : value' ≠ 0) :
    (unlessNil addr value).count ⟨addr', value'⟩ = if addr = addr' ∧ value = value' then 1 else 0 := by
  unfold unlessNil
  by_cases hvalue : value = 0
  · simp [hvalue, h.symm]
  · simp [hvalue, count_singleton]

lemma write_fields (s : PropertySetters) (a : Activation) (value : ℕ) :
    (s.write a value).ivars = Function.update s.ivars a.addr value ∧
      (s.write a value).owned = s.owned ++ unlessNil a.addr value ∧
      (s.write a value).released = s.released ++ unlessNil a.addr a.old := by
  unfold write
  dsimp only
  split
  · rw [eq_returns]
    exact ⟨rfl, rfl, rfl⟩
  · exact ⟨rfl, rfl, rfl⟩

lemma Balanced.write_iff (h : s.Balanced) (a : Activation) (value : ℕ) :
    (s.write a value).Balanced ↔ s.ivars a.addr = a.old := by
  obtain ⟨hivars, howned, hreleased⟩ := write_fields s a value
  have hsame : ∀ v, v ≠ 0 → ((s.write a value).released.count ⟨a.addr, v⟩ +
        (if (s.write a value).ivars a.addr = v then 1 else 0) = (s.write a value).owned.count ⟨a.addr, v⟩ ↔
      (s.ivars a.addr = v ↔ a.old = v)) := by
    intro v hv
    have hbefore := h a.addr v hv
    rw [hivars, howned, hreleased, count_append, count_append, count_unlessNil hv, count_unlessNil hv,
      Function.update_self]
    split_ifs at hbefore ⊢ <;> (simp_all; try omega)
  constructor
  · intro hbalanced
    by_contra hne
    by_cases hzero : a.old = 0
    · have hivar : s.ivars a.addr ≠ 0 := fun h0 => hne (h0.trans hzero.symm)
      exact hne ((hsame _ hivar).mp (hbalanced a.addr _ hivar) |>.mp rfl).symm
    · exact hne ((hsame _ hzero).mp (hbalanced a.addr _ hzero) |>.mpr rfl)
  · intro hold addr v hv
    by_cases haddr : a.addr = addr
    · subst haddr
      exact (hsame v hv).mpr (hold ▸ Iff.rfl)
    · have hbefore := h addr v hv
      rw [hivars, howned, hreleased, count_append, count_append, count_unlessNil hv, count_unlessNil hv,
        Function.update_of_ne (Ne.symm haddr)]
      simpa [haddr] using hbefore

lemma Balanced.returns (h : s.Balanced) (a : Activation) : (s.returns a).Balanced := by
  rw [eq_returns]
  exact h

lemma Balanced.setProperty (h : s.Balanced) (thread : ℕ) (c : SetPropertyCall) :
    (s.setProperty thread c).Balanced := by
  unfold PropertySetters.setProperty
  dsimp only
  split
  · exact h
  · split
    next => exact h
    next s' hlock =>
      have h' : s'.Balanced := by
        split_ifs at hlock
        · rw [active_lockPropertyAtomic hlock]
          exact h
        · exact some.inj hlock ▸ h
      split
      · exact h'.returns _
      · split
        -- nothing runs between reading the old value and writing `nil`
        · exact (h'.write_iff _ 0).mpr rfl
        · exact h'

lemma Balanced.getProperty (h : s.Balanced) (thread this : ℕ) (offset : ℤ) (atomic : Bool) :
    (s.getProperty thread this offset atomic).2.Balanced := by
  unfold PropertySetters.getProperty
  dsimp only
  split
  · exact h
  · split
    next => exact h
    next s' hlock =>
      dsimp only
      split_ifs at hlock ⊢
      · rw [eq_unlockPropertyAtomic, active_lockPropertyAtomic hlock]
        exact h
      · exact some.inj hlock ▸ h

lemma Balanced.guestReturns_iff (h : s.Balanced) (thread result : ℕ) :
    (s.guestReturns thread result).Balanced ↔ s.Undisturbed (.guestReturns thread result) := by
  unfold PropertySetters.guestReturns Undisturbed
  cases hinnermost : s.innermost thread with
  | none =>
    simp only [hinnermost, mem_def, reduceCtorEq, false_implies, implies_true, iff_true]
    exact h
  | some a =>
    simp only [hinnermost, mem_def, some.injEq, forall_eq']
    cases hawaits : a.awaits with
    | owned message =>
      have hleave : (s.leave thread).Balanced := h
      rw [hleave.write_iff]
      exact ⟨fun hold _ => hold, fun hold => hold nofun⟩
    | released => exact iff_of_true (Balanced.returns (s := s.leave thread) h a) fun hne => absurd rfl hne

lemma Balanced.step_iff (h : s.Balanced) (e : SetterEvent) : (s.step e).Balanced ↔ s.Undisturbed e := by
  cases e with
  | setProperty thread c => exact iff_of_true (h.setProperty thread c) trivial
  | getProperty thread this offset atomic => exact iff_of_true (h.getProperty thread this offset atomic) trivial
  | guestReturns thread result => exact h.guestReturns_iff thread result

end Ownership

section Runs

open Lib

def next (s : PropertySetters) (e : SetterEvent) : Checked PropertySetters := .ok (s.step e)

lemma Locked.along (h : s.Locked) (events : List SetterEvent) :
    Along next (fun s e => (s.step e).Locked) s events := by
  induction events generalizing s with
  | nil => trivial
  | cons e events ih => exact ⟨h.step e, fun s' hs' => Except.ok.inj hs' ▸ ih (h.step e)⟩

/-- Whatever the threads call and however the calls are nested and interleaved, every lock is held once for each
call under way that took it; and all values are released once when they leave their instance variables, and not
before, exactly if every call finds the value in the variable that it read before the new value was owned. -/
theorem setters_balance (events : List SetterEvent) :
    Along next (fun s e => (s.step e).Locked) initial events ∧
      (Along next (fun s e => (s.step e).Balanced) initial events ↔ Along next Undisturbed initial events) := by
  have hlocked : initial.Locked := fun _ _ => rfl
  have hbalanced : initial.Balanced := fun addr value hvalue => by simp [initial, hvalue.symm]
  have hlaw : Along next (fun _ _ => True) initial events := along_of_forall fun _ _ => trivial
  refine ⟨hlocked.along events, along_iff_along (fun s e h _ => h.step_iff e) ?_ hbalanced hlaw⟩
  intro s e s' h _ hundisturbed hs'
  exact Except.ok.inj hs' ▸ (h.step_iff e).mpr hundisturbed

/-- A setter that is called while the value of another is copied sets the same instance variable: its value is lost,
and the one before is released twice. -/
def setterWithinCopy : List SetterEvent :=
  [.setProperty 0 (.nonatomic 16 100 4), .guestReturns 0 100, .setProperty 0 (.atomicCopy 16 200 4),
    .setProperty 0 (.nonatomic 16 300 4), .guestReturns 0 300, .guestReturns 0 0, .guestReturns 0 201]

theorem setterWithinCopy_unbalanced :
    (setterWithinCopy.foldl step initial).owned = [⟨20, 100⟩, ⟨20, 300⟩, ⟨20, 201⟩] ∧
      (setterWithinCopy.foldl step initial).released = [⟨20, 100⟩, ⟨20, 100⟩] ∧
      (setterWithinCopy.foldl step initial).ivars 20 = 201 ∧
      ¬ Along next (fun s e => (s.step e).Balanced) initial setterWithinCopy := by
  refine ⟨by decide, by decide, by decide, fun h => ?_⟩
  have hlast : (setterWithinCopy.foldl step initial).Balanced :=
    (((((((h.2 _ rfl).2 _ rfl).2 _ rfl).2 _ rfl).2 _ rfl).2 _ rfl).1)
  exact absurd (hlast 20 300 (by decide)) (by decide)

end Runs

end PropertySetters

end TouchHle.Objc
