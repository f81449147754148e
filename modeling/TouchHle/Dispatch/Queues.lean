import Mathlib.Data.List.Basic
import Mathlib.Tactic

namespace TouchHle.Dispatch

open List

def mainQueuePtr : ℕ := 1

inductive Submitter
  | async
  | sync
  | asyncF
  | syncF
  | barrierAsync
  | barrierSync
  | barrierAsyncF
  | barrierSyncF
  deriving DecidableEq

namespace Submitter

def plain : Submitter → Submitter
  | barrierAsync => async
  | barrierSync => sync
  | barrierAsyncF => asyncF
  | barrierSyncF => syncF
  | f => f

def keepsQueue (f : Submitter) : Bool := f.plain = async ∨ f.plain = sync

end Submitter

structure Work where
  thread : ℕ
  queue : ℕ
  keepsQueue : Bool
  before : List ℕ
  deriving DecidableEq

/-- The stack of queues is shared by all threads; its last element is listed first. So is the work that was begun
last. -/
structure State where
  queueSpecifics : ℕ → ℕ → Option ℕ
  currentQueueStack : List ℕ
  begun : List Work

inductive Event
  | submit (thread : ℕ) (f : Submitter) (queue work : ℕ)
  | finish (thread : ℕ)
  | setSpecific (queue key context : ℕ)
  | getSpecific (thread key : ℕ)

namespace State

variable (s : State)

def current (thread : ℕ) : Option Work := s.begun.find? fun w => w.thread = thread

def later (thread : ℕ) : List Work := s.begun.takeWhile fun w => w.thread ≠ thread

def submit (thread : ℕ) (f : Submitter) (queue work : ℕ) : State :=
  if work = 0 then s
  else
    { s with
      currentQueueStack := if f.keepsQueue then queue :: s.currentQueueStack else s.currentQueueStack
      begun := ⟨thread, queue, f.keepsQueue, s.currentQueueStack⟩ :: s.begun }

def finish (thread : ℕ) : State :=
  match s.current thread with
  | none => s
  | some w =>
    { s with
      currentQueueStack := if w.keepsQueue then s.currentQueueStack.tail else s.currentQueueStack
      begun := s.begun.eraseP fun w => w.thread = thread }

def dispatchQueueSetSpecific (queue key context : ℕ) : State :=
  { s with
    queueSpecifics := Function.update s.queueSpecifics queue
      (Function.update (s.queueSpecifics queue) key (if context = 0 then none else some context)) }

def dispatchQueueGetSpecific (queue key : ℕ) : ℕ := (s.queueSpecifics queue key).getD 0

def currentQueue (stack : List ℕ) : ℕ := stack.head?.getD mainQueuePtr

def dispatchGetSpecific (key : ℕ) : ℕ := s.dispatchQueueGetSpecific (currentQueue s.currentQueueStack) key

def step (s : State) : Event → State
  | .submit thread f queue work => s.submit thread f queue work
  | .finish thread => s.finish thread
  | .setSpecific queue key context => s.dispatchQueueSetSpecific queue key context
  | .getSpecific .. => s

def initial : State := ⟨fun _ _ => none, [], []⟩

def run (events : List Event) : State := events.foldl step initial

end State

def lastSet (events : List Event) (queue key : ℕ) : ℕ :=
  events.foldl (fun value e =>
    match e with
    | .setSpecific q k context => if q = queue ∧ k = key then context else value
    | _ => value) 0

namespace State

variable {s : State} {thread queue key : ℕ}

/-- A thread asks and ends its work while no other thread has begun work later that keeps its queue, and ends
work that keeps its own queue as the one that began last; functions for function pointers are only used with
the queue that runs already. -/
def Orderly (s : State) : Event → Prop
  | .submit _ f queue work => work = 0 ∨ f.keepsQueue = true ∨ queue = currentQueue s.currentQueueStack
  | .finish thread => ∀ w ∈ s.current thread, ∀ l ∈ s.later thread, w.keepsQueue = false ∧ l.keepsQueue = false
  | .setSpecific .. => True
  | .getSpecific thread _ => ∀ l ∈ s.later thread, l.keepsQueue = false

instance : DecidablePred s.Orderly
  | .submit .. => inferInstanceAs (Decidable (_ ∨ _))
  | .finish _ => inferInstanceAs (Decidable (∀ w ∈ _, _))
  | .setSpecific .. => inferInstanceAs (Decidable True)
  | .getSpecific .. => inferInstanceAs (Decidable (∀ l ∈ _, _))

def OrderlyRun (s : State) : List Event → Prop
  | [] => True
  | e :: events => s.Orderly e ∧ (s.step e).OrderlyRun events

instance decidableOrderlyRun : (s : State) → DecidablePred s.OrderlyRun
  | _, [] => inferInstanceAs (Decidable True)
  | s, e :: events => @instDecidableAnd _ _ _ (decidableOrderlyRun (s.step e) events)

def kept (begun : List Work) : List ℕ := (begun.filter Work.keepsQueue).map Work.queue

def Stacked : List Work → Prop
  | [] => True
  | w :: begun => w.before = kept begun ∧ (w.keepsQueue = false → w.queue = currentQueue (kept begun)) ∧ Stacked begun

structure Nested (s : State) : Prop where
  stack : s.currentQueueStack = kept s.begun
  stacked : Stacked s.begun

lemma kept_append {later rest : List Work} (h : ∀ l ∈ later, l.keepsQueue = false) :
    kept (later ++ rest) = kept rest := by
  unfold kept
  rw [filter_append, filter_eq_nil_iff.mpr fun l hl => by simp [h l hl], nil_append]

lemma kept_cons (w : Work) (rest : List Work) :
    kept (w :: rest) = if w.keepsQueue then w.queue :: kept rest else kept rest := by
  unfold kept
  rw [filter_cons]
  split <;> rfl

lemma Stacked.remove {later rest : List Work} {w : Work} (hw : w.keepsQueue = false)
    (h : Stacked (later ++ w :: rest)) : Stacked (later ++ rest) := by
  have hkept : ∀ later : List Work, kept (later ++ w :: rest) = kept (later ++ rest) := by
    intro later
    simp [kept, hw]
  induction later with
  | nil => exact h.2.2
  | cons l later ih =>
    obtain ⟨hbefore, hqueue, hrest⟩ := h
    exact ⟨hbefore.trans (hkept later), fun hl => (hqueue hl).trans (congrArg _ (hkept later)), ih hrest⟩

lemma Stacked.of_append {later rest : List Work} (h : Stacked (later ++ rest)) : Stacked rest := by
  induction later with
  | nil => exact h
  | cons l later ih => exact ih h.2.2

lemma current_eq_some {w : Work} (h : s.current thread = some w) :
    ∃ rest, s.begun = s.later thread ++ w :: rest ∧ w.thread = thread ∧
      s.begun.eraseP (fun w => w.thread = thread) = s.later thread ++ rest := by
  obtain ⟨hw, later, rest, hbegun, hlater⟩ := find?_eq_some_iff_append.mp h
  have hthread : w.thread = thread := of_decide_eq_true hw
  have hlater' : s.later thread = later := by
    unfold State.later
    rw [hbegun, takeWhile_append_of_pos fun l hl => by simpa using hlater l hl,
      takeWhile_cons_of_neg (by simp [hthread]), append_nil]
  refine ⟨rest, hlater' ▸ hbegun, hthread, ?_⟩
  rw [hbegun, hlater', eraseP_append_right _ fun l hl => by simpa using hlater l hl]
  simp [hthread]

lemma Nested.stack_eq (h : s.Nested) {w : Work} (hw : s.current thread = some w)
    (hlater : ∀ l ∈ s.later thread, l.keepsQueue = false) :
    s.currentQueueStack = (if w.keepsQueue then w.queue :: w.before else w.before) ∧
      currentQueue s.currentQueueStack = w.queue := by
  obtain ⟨rest, hbegun, -, -⟩ := current_eq_some hw
  obtain ⟨hbefore, hqueue, -⟩ := (hbegun ▸ h.stacked).of_append
  have hstack : s.currentQueueStack = if w.keepsQueue then w.queue :: w.before else w.before := by
    rw [h.stack, hbegun, kept_append hlater, kept_cons, hbefore]
  refine ⟨hstack, ?_⟩
  rw [hstack]
  split
  next => rfl
  next hkeeps => rw [hbefore, ← hqueue (Bool.eq_false_of_not_eq_true hkeeps)]

lemma Nested.finish_stack (h : s.Nested) (ho : s.Orderly (.finish thread)) {w : Work}
    (hw : s.current thread = some w) : (s.finish thread).currentQueueStack = w.before := by
  have hstack := (h.stack_eq hw fun l hl => (ho w hw l hl).2).1
  simp only [finish, hw, hstack]
  split <;> simp_all

lemma Nested.finish (h : s.Nested) (ho : s.Orderly (.finish thread)) : (s.finish thread).Nested := by
  cases hw : s.current thread with
  | none => simpa only [State.finish, hw] using h
  | some w =>
    obtain ⟨rest, hbegun, -, herase⟩ := current_eq_some hw
    have hbefore := (hbegun ▸ h.stacked).of_append.1
    have hstack := h.finish_stack ho hw
    have hleft : (s.finish thread).begun = s.later thread ++ rest := by simp only [State.finish, hw, herase]
    refine ⟨?_, ?_⟩
    · rw [hstack, hbefore, hleft, kept_append fun l hl => (ho w hw l hl).2]
    · rw [hleft]
      cases hlater : s.later thread with
      | nil =>
        rw [hlater, nil_append] at hbegun
        exact (hbegun ▸ h.stacked).2.2
      | cons l later =>
        have hkeeps := (ho w hw l (hlater ▸ mem_cons_self)).1
        rw [← hlater]
        exact (hbegun ▸ h.stacked).remove hkeeps

lemma Nested.step (h : s.Nested) {e : Event} (ho : s.Orderly e) : (s.step e).Nested := by
  cases e with
  | submit thread f queue work =>
    change (s.submit thread f queue work).Nested
    unfold submit
    split
    next => exact h
    next hwork =>
      refine ⟨?_, h.stack, fun hkeeps => ?_, h.stacked⟩
      · rw [kept_cons, h.stack]
      · obtain h0 | hf | hqueue := ho
        · exact absurd h0 hwork
        · exact absurd hf (by simpa using hkeeps)
        · rw [← h.stack]
          exact hqueue
  | finish thread => exact h.finish ho
  | setSpecific queue key context => exact ⟨h.stack, h.stacked⟩
  | getSpecific => exact h

lemma run_append (events : List Event) (e : Event) : run (events ++ [e]) = (run events).step e := by
  simp [run]

lemma nested_before {prior events : List Event} {e : Event} (h : s.Nested) (ho : s.OrderlyRun (prior ++ e :: events)) :
    (prior.foldl step s).Nested ∧ (prior.foldl step s).Orderly e := by
  induction prior generalizing s with
  | nil => exact ⟨h, ho.1⟩
  | cons e' prior ih => exact ih (h.step ho.1) ho.2

lemma queueGetSpecific_run (events : List Event) (queue key : ℕ) :
    (run events).dispatchQueueGetSpecific queue key = lastSet events queue key := by
  induction events using List.reverseRecOn with
  | nil => rfl
  | append_singleton events e ih =>
    rw [run_append, lastSet, foldl_append, ← lastSet]
    rw [dispatchQueueGetSpecific] at ih ⊢
    cases e with
    | submit thread f q work =>
      simp only [State.step, submit, foldl_cons, foldl_nil]
      split <;> exact ih
    | finish thread =>
      simp only [State.step, State.finish, foldl_cons, foldl_nil]
      split <;> exact ih
    | setSpecific q k context =>
      simp only [State.step, dispatchQueueSetSpecific, foldl_cons, foldl_nil]
      by_cases hq : q = queue
      · by_cases hk : k = key
        · subst hq hk
          by_cases hcontext : context = 0 <;> simp [hcontext]
        · subst hq
          simp [hk, Ne.symm hk, ih]
      · simp [hq, Ne.symm hq, ih]
    | getSpecific => exact ih

/-- In an orderly run, whatever the threads do and however they take turns, work that asks for a value gets the one
last set for the queue that it was submitted to, and ending work leaves the queues that were kept before it. -/
theorem running_queue_is_followed (prior events : List Event) (thread : ℕ) (w : Work)
    (hw : (run prior).current thread = some w) :
    (∀ key, initial.OrderlyRun (prior ++ .getSpecific thread key :: events) →
      (run prior).dispatchGetSpecific key = lastSet prior w.queue key) ∧
    (initial.OrderlyRun (prior ++ .finish thread :: events) →
      (run (prior ++ [.finish thread])).currentQueueStack = w.before) := by
  have hinitial : initial.Nested := ⟨rfl, trivial⟩
  constructor
  · intro key ho
    obtain ⟨hnested, horderly⟩ := nested_before hinitial ho
    have hqueue := (hnested.stack_eq hw horderly).2
    rw [dispatchGetSpecific, run, hqueue, ← run, queueGetSpecific_run]
  · intro ho
    obtain ⟨hnested, horderly⟩ := nested_before hinitial ho
    rw [run_append]
    exact hnested.finish_stack horderly hw

def blockWithinBlock : List Event :=
  [.setSpecific 5 1 9, .submit 0 .sync 5 1, .submit 1 .barrierAsync 6 1, .finish 1]

theorem blockWithinBlock_followed : (run blockWithinBlock).dispatchGetSpecific 1 = 9 ∧
    (run (blockWithinBlock ++ [.finish 0])).currentQueueStack = [] := by
  have h := running_queue_is_followed blockWithinBlock [] 0 ⟨0, 5, true, []⟩ (by decide)
  exact ⟨(h.1 1 (by decide)).trans (by decide), h.2 (by decide)⟩

theorem function_pointer_loses_queue :
    ((run [.setSpecific 5 1 9, .submit 0 .syncF 5 1]).current 0 = some ⟨0, 5, false, []⟩ ∧
      (run [.setSpecific 5 1 9, .submit 0 .syncF 5 1]).dispatchGetSpecific 1 = 0 ∧
      lastSet [.setSpecific 5 1 9, .submit 0 .syncF 5 1] 5 1 = 9) ∧
    (run [.setSpecific 5 1 9, .submit 0 .sync 5 1, .submit 1 .sync 6 1]).dispatchGetSpecific 1 = 0 ∧
    (run [.submit 0 .sync 5 1, .submit 1 .sync 6 1, .finish 0]).currentQueueStack = [5] := by
  decide

end State

end TouchHle.Dispatch
