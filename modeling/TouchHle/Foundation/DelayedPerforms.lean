import Mathlib.Data.List.Count
import Mathlib.Tactic

namespace TouchHle.Foundation

open List

abbrev Target := ℕ

structure Perform where
  timer : ℕ
  target : Target
  selector : String
  arg : ℕ
  deriving DecidableEq

def Perform.key (p : Perform) : Target × String := (p.target, p.selector)

def takeTimer {α : Type} (timer : α → ℕ) (n : ℕ) : List α → Option (α × List α)
  | [] => none
  | x :: l => if timer x = n then some (x, l) else (takeTimer timer n l).map fun r => (r.1, x :: r.2)

inductive PerformEvent
  /-- `performSelector:withObject:afterDelay:` -/
  | perform (target : Target) (selector : String) (arg : ℕ)
  /-- `cancelPreviousPerformRequestsWithTarget:selector:object:` -/
  | cancelSelector (target : Target) (selector : String)
  /-- `cancelPreviousPerformRequestsWithTarget:` -/
  | cancelTarget (target : Target)
  /-- A timer of the run loop fires. -/
  | fire (timer : ℕ)

structure DelayedPerforms where
  timers : List Perform
  nextTimer : ℕ
  cancelledPerforms : List (Target × Option String)

namespace DelayedPerforms

def consume (cancelledPerforms : List (Target × Option String)) (target : Target) (selector : String) :
    Bool × List (Target × Option String) :=
  if (target, some selector) ∈ cancelledPerforms then (true, cancelledPerforms.erase (target, some selector))
  else if (target, none) ∈ cancelledPerforms then (true, cancelledPerforms)
  else (false, cancelledPerforms)

def timerFireMethod (s : DelayedPerforms) (p : Perform) : DelayedPerforms × Bool :=
  if p.selector = "" then (s, false)
  else
    let r := consume s.cancelledPerforms p.target p.selector
    ({ s with cancelledPerforms := r.2 }, !r.1)

def step (s : DelayedPerforms) : PerformEvent → DelayedPerforms × Option (Perform × Bool)
  | .perform target selector arg =>
    ({ s with timers := s.timers ++ [⟨s.nextTimer, target, selector, arg⟩], nextTimer := s.nextTimer + 1 }, none)
  | .cancelSelector target selector =>
    ({ s with cancelledPerforms := s.cancelledPerforms ++ [(target, some selector)] }, none)
  | .cancelTarget target => ({ s with cancelledPerforms := s.cancelledPerforms ++ [(target, none)] }, none)
  | .fire timer =>
    match takeTimer Perform.timer timer s.timers with
    | none => (s, none)
    | some (p, timers) =>
      let r := { s with timers }.timerFireMethod p
      (r.1, some (p, r.2))

def outcomes (s : DelayedPerforms) : List PerformEvent → List (Perform × Bool)
  | [] => []
  | e :: events => (s.step e).2.toList ++ (s.step e).1.outcomes events

def initial : DelayedPerforms := ⟨[], 0, []⟩

end DelayedPerforms

structure Requests where
  waiting : List (Perform × Bool)
  nextTimer : ℕ

namespace Requests

def cancel (r : Requests) (matching : Perform → Bool) : Requests :=
  { r with waiting := r.waiting.map fun x => (x.1, x.2 || matching x.1) }

def step (r : Requests) : PerformEvent → Requests × Option (Perform × Bool)
  | .perform target selector arg =>
    ({ waiting := r.waiting ++ [(⟨r.nextTimer, target, selector, arg⟩, false)], nextTimer := r.nextTimer + 1 }, none)
  | .cancelSelector target selector => (r.cancel fun p => p.key = (target, selector), none)
  | .cancelTarget target => (r.cancel fun p => p.target = target, none)
  | .fire timer =>
    match takeTimer (fun x => x.1.timer) timer r.waiting with
    | none => (r, none)
    | some (x, waiting) => ({ r with waiting }, some (x.1, !x.2))

def outcomes (r : Requests) : List PerformEvent → List (Perform × Bool)
  | [] => []
  | e :: events => (r.step e).2.toList ++ (r.step e).1.outcomes events

def initial : Requests := ⟨[], 0⟩

end Requests

namespace DelayedPerforms

def Cancels (s : DelayedPerforms) (target : Target) (selector : String) : Prop :=
  (target, some selector) ∈ s.cancelledPerforms ∨ (target, none) ∈ s.cancelledPerforms

def Fits (s : DelayedPerforms) : PerformEvent → Prop
  | .perform target selector _ => selector ≠ "" ∧ ¬ s.Cancels target selector
  | .cancelSelector target selector =>
    (target, none) ∈ s.cancelledPerforms ∨
      (s.timers.countP fun p => p.key = (target, selector)) ≤
        s.cancelledPerforms.count (target, some selector) + 1
  | .cancelTarget _ | .fire _ => True

def FitsAll (s : DelayedPerforms) : List PerformEvent → Prop
  | [] => True
  | e :: events => s.Fits e ∧ (s.step e).1.FitsAll events

end DelayedPerforms

variable {s : DelayedPerforms} {r : Requests} {p : Perform} {target : Target} {selector : String} {n : ℕ}
  {e : PerformEvent}

lemma takeTimer_map {α β : Type} (timer : β → ℕ) (g : α → β) (n : ℕ) (l : List α) :
    takeTimer timer n (l.map g) = (takeTimer (timer ∘ g) n l).map fun x => (g x.1, x.2.map g) := by
  induction l with
  | nil => rfl
  | cons x l ih =>
    rw [map_cons, takeTimer, takeTimer, ih]
    by_cases h : timer (g x) = n
    · rw [if_pos h, if_pos (show (timer ∘ g) x = n from h)]
      rfl
    · rw [if_neg h, if_neg (show ¬ (timer ∘ g) x = n from h), Option.map_map, Option.map_map]
      rfl

lemma takeTimer_some {α : Type} {timer : α → ℕ} {l rest : List α} {x : α} (h : takeTimer timer n l = some (x, rest)) :
    ∃ before after, l = before ++ x :: after ∧ rest = before ++ after := by
  induction l generalizing rest with
  | nil => cases h
  | cons y l ih =>
    rw [takeTimer] at h
    split at h
    · cases h
      exact ⟨[], l, rfl, rfl⟩
    · obtain ⟨⟨x', rest'⟩, hrest, heq⟩ := Option.map_eq_some_iff.mp h
      cases heq
      obtain ⟨before, after, rfl, rfl⟩ := ih hrest
      exact ⟨y :: before, after, rfl, rfl⟩

namespace DelayedPerforms

structure Follows (s : DelayedPerforms) (r : Requests) : Prop where
  timers : s.timers = r.waiting.map Prod.fst
  nextTimer : s.nextTimer = r.nextTimer
  named : ∀ x ∈ r.waiting, x.1.selector ≠ ""
  cancelled : ∀ x ∈ r.waiting, x.2 = true ↔ s.Cancels x.1.target x.1.selector
  enough : ∀ target selector, (target, none) ∈ s.cancelledPerforms ∨
    (target, some selector) ∉ s.cancelledPerforms ∨
      (r.waiting.countP fun x => x.1.key = (target, selector)) ≤
        s.cancelledPerforms.count (target, some selector)

lemma follows_initial : initial.Follows Requests.initial where
  timers := rfl
  nextTimer := rfl
  named _ h := nomatch h
  cancelled _ h := nomatch h
  enough _ _ := .inr (.inl not_mem_nil)

lemma Follows.perform (h : s.Follows r) (hfits : s.Fits (.perform target selector n)) :
    (s.step (.perform target selector n)).1.Follows (r.step (.perform target selector n)).1 where
  timers := by
    simp only [step, Requests.step, h.timers, h.nextTimer, map_append, map_cons, map_nil]
  nextTimer := congrArg (· + 1) h.nextTimer
  named x hx := by
    obtain hx | hx := mem_append.mp hx
    · exact h.named x hx
    · obtain rfl := mem_singleton.mp hx
      exact hfits.1
  cancelled x hx := by
    obtain hx | hx := mem_append.mp hx
    · exact h.cancelled x hx
    · obtain rfl := mem_singleton.mp hx
      exact iff_of_false (fun heq => nomatch heq) hfits.2
  enough t sel := by
    obtain ht | hsel | hle := h.enough t sel
    · exact .inl ht
    · exact .inr (.inl hsel)
    · by_cases hkey : (target, selector) = (t, sel)
      · cases hkey
        exact .inr (.inl fun hmem => hfits.2 (.inl hmem))
      · have hnot : ¬ (Perform.key ⟨r.nextTimer, target, selector, n⟩ = (t, sel)) := hkey
        refine .inr (.inr ?_)
        simpa [step, Requests.step, countP_append, hnot] using hle

lemma Requests.map_cancel (matching : Perform → Bool) :
    (r.cancel matching).waiting.map Prod.fst = r.waiting.map Prod.fst := by
  rw [Requests.cancel, List.map_map]
  rfl

lemma Requests.countP_cancel (matching : Perform → Bool) (t : Target) (sel : String) :
    ((r.cancel matching).waiting.countP fun x => x.1.key = (t, sel)) =
      r.waiting.countP fun x => x.1.key = (t, sel) := by
  rw [Requests.cancel, countP_map]
  rfl

lemma Follows.cancelSelector (h : s.Follows r) (hfits : s.Fits (.cancelSelector target selector)) :
    (s.step (.cancelSelector target selector)).1.Follows (r.step (.cancelSelector target selector)).1 where
  timers := by
    simp only [step, Requests.step, Requests.map_cancel, h.timers]
  nextTimer := h.nextTimer
  named x hx := by
    obtain ⟨y, hy, rfl⟩ := mem_map.mp hx
    exact h.named y hy
  cancelled x hx := by
    obtain ⟨y, hy, rfl⟩ := mem_map.mp hx
    simp only [Bool.or_eq_true, decide_eq_true_eq, h.cancelled y hy, Cancels, step, mem_append,
      mem_singleton, Prod.mk.injEq, Option.some.injEq, Perform.key]
    tauto
  enough t sel := by
    simp only [step, Requests.step, Requests.countP_cancel, mem_append, mem_singleton, count_append]
    by_cases hkey : (target, selector) = (t, sel)
    · cases hkey
      obtain ht | hle := hfits
      · exact .inl (.inl ht)
      · refine .inr (.inr ?_)
        rw [h.timers, countP_map] at hle
        rw [count_singleton_self]
        exact hle
    · obtain ht | hsel | hle := h.enough t sel
      · exact .inl (.inl ht)
      · refine .inr (.inl ?_)
        rintro (hmem | heq)
        · exact hsel hmem
        · cases heq
          exact hkey rfl
      · exact .inr (.inr (hle.trans (Nat.le_add_right _ _)))

lemma Follows.cancelTarget (h : s.Follows r) :
    (s.step (.cancelTarget target)).1.Follows (r.step (.cancelTarget target)).1 where
  timers := by
    simp only [step, Requests.step, Requests.map_cancel, h.timers]
  nextTimer := h.nextTimer
  named x hx := by
    obtain ⟨y, hy, rfl⟩ := mem_map.mp hx
    exact h.named y hy
  cancelled x hx := by
    obtain ⟨y, hy, rfl⟩ := mem_map.mp hx
    simp only [Bool.or_eq_true, decide_eq_true_eq, h.cancelled y hy, Cancels, step, mem_append,
      mem_singleton, Prod.mk.injEq, reduceCtorEq, and_false, or_false, and_true]
    tauto
  enough t sel := by
    simp only [step, Requests.step, Requests.countP_cancel, mem_append, mem_singleton, count_append]
    obtain ht | hsel | hle := h.enough t sel
    · exact .inl (.inl ht)
    · refine .inr (.inl ?_)
      rintro (hmem | heq)
      · exact hsel hmem
      · cases heq
    · exact .inr (.inr (hle.trans (Nat.le_add_right _ _)))

lemma taken_spec {x : Perform × Bool} {waiting : List (Perform × Bool)}
    (htake : takeTimer (fun x => x.1.timer) n r.waiting = some (x, waiting)) :
    x ∈ r.waiting ∧ waiting ⊆ r.waiting ∧ ∀ k : Target × String,
      (r.waiting.countP fun y => y.1.key = k) =
        (waiting.countP fun y => y.1.key = k) + if x.1.key = k then 1 else 0 := by
  obtain ⟨before, after, hwaiting, rfl⟩ := takeTimer_some htake
  rw [hwaiting]
  refine ⟨by simp, ?_, fun k => ?_⟩
  · intro y hy
    obtain hy | hy := mem_append.mp hy
    · exact mem_append_left _ hy
    · exact mem_append_right _ (mem_cons_of_mem _ hy)
  · rw [countP_append, countP_append, countP_cons]
    simp only [decide_eq_true_eq]
    omega

lemma Follows.fire (h : s.Follows r) (n : ℕ) :
    (s.step (.fire n)).2 = (r.step (.fire n)).2 ∧ (s.step (.fire n)).1.Follows (r.step (.fire n)).1 := by
  have htimers : takeTimer Perform.timer n s.timers =
      (takeTimer (fun x => x.1.timer) n r.waiting).map fun x => (x.1.1, x.2.map Prod.fst) := by
    rw [h.timers, takeTimer_map]
    rfl
  cases htake : takeTimer (fun x : Perform × Bool => x.1.timer) n r.waiting with
  | none =>
    rw [htake] at htimers
    simp only [step, Requests.step, htimers, htake, Option.map_none]
    exact ⟨trivial, h⟩
  | some taken =>
    obtain ⟨x, waiting⟩ := taken
    rw [htake] at htimers
    obtain ⟨hx, hsub, hcount⟩ := taken_spec htake
    have hcancelled := h.cancelled x hx
    have hnamed := h.named x hx
    simp only [step, Requests.step, htimers, htake, Option.map_some, timerFireMethod, if_neg hnamed, consume]
    by_cases hsel : (x.1.target, some x.1.selector) ∈ s.cancelledPerforms
    · -- One cancel is used up, and there is one for every perform that still waits.
      have hmarked : x.2 = true := hcancelled.mpr (.inl hsel)
      have hspare : ∀ k : Target × String, x.1.key = k → (k.1, none) ∉ s.cancelledPerforms →
          (waiting.countP fun y => y.1.key = k) ≤
            (s.cancelledPerforms.erase (x.1.target, some x.1.selector)).count (k.1, some k.2) := by
        rintro _ rfl hall
        have hle := (h.enough x.1.target x.1.selector).resolve_left hall |>.resolve_left fun hnot => hnot hsel
        have hone := hcount x.1.key
        rw [if_pos rfl] at hone
        change _ ≤ (s.cancelledPerforms.erase (x.1.target, some x.1.selector)).count (x.1.target, some x.1.selector)
        rw [count_erase_self]
        change (r.waiting.countP fun y => y.1.key = x.1.key) ≤ _ at hle
        omega
      have hkeep : ∀ c, c ≠ (x.1.target, some x.1.selector) →
          (c ∈ s.cancelledPerforms.erase (x.1.target, some x.1.selector) ↔ c ∈ s.cancelledPerforms) :=
        fun c hc => mem_erase_of_ne hc
      have hall : ∀ t, (t, none) ∈ s.cancelledPerforms.erase (x.1.target, some x.1.selector) ↔
          (t, none) ∈ s.cancelledPerforms := fun t => hkeep _ fun heq => nomatch heq
      simp only [if_pos hsel, hmarked, Bool.not_true]
      refine ⟨trivial, rfl, h.nextTimer, fun y hy => h.named y (hsub hy), fun y hy => ?_, fun t sel => ?_⟩
      · rw [h.cancelled y (hsub hy)]
        simp only [Cancels, hall]
        by_cases hkey : x.1.key = y.1.key
        · by_cases hwhole : (y.1.target, none) ∈ s.cancelledPerforms
          · simp [hwhole]
          · have hpos : 0 < waiting.countP fun z => z.1.key = y.1.key :=
              countP_pos_iff.mpr ⟨y, hy, by simp⟩
            have hleft : (y.1.target, some y.1.selector) ∈
                s.cancelledPerforms.erase (x.1.target, some x.1.selector) :=
              count_pos_iff.mp (hpos.trans_le (hspare y.1.key hkey hwhole))
            exact iff_of_true (.inl (mem_of_mem_erase hleft)) (.inl hleft)
        · rw [hkeep]
          intro heq
          obtain ⟨htarget, hselector⟩ := Prod.mk.inj heq
          exact hkey (Prod.ext htarget.symm (Option.some.inj hselector).symm)
      · simp only [hall]
        by_cases hkey : x.1.key = (t, sel)
        · by_cases hwhole : (t, none) ∈ s.cancelledPerforms
          · exact .inl hwhole
          · exact .inr (.inr (hspare (t, sel) hkey hwhole))
        · have hne : (t, some sel) ≠ (x.1.target, some x.1.selector) := by
            intro heq
            cases heq
            exact hkey rfl
          rw [hkeep _ hne, count_erase_of_ne hne]
          refine (h.enough t sel).imp_right fun h => h.imp_right fun hle => ?_
          rw [hcount, if_neg hkey] at hle
          exact hle
    · have hmark : x.2 = decide ((x.1.target, none) ∈ s.cancelledPerforms) := by
        rw [Bool.eq_iff_iff, hcancelled, Cancels, or_iff_right hsel, decide_eq_true_eq]
      have hfollows : Follows { s with timers := waiting.map Prod.fst } { r with waiting } := by
        refine ⟨rfl, h.nextTimer, fun y hy => h.named y (hsub hy), fun y hy => h.cancelled y (hsub hy),
          fun t sel => ?_⟩
        refine (h.enough t sel).imp_right fun h => h.imp_right fun hle => ?_
        exact (Nat.le_add_right _ _).trans (hcount (t, sel) ▸ hle)
      by_cases hwhole : (x.1.target, none) ∈ s.cancelledPerforms
      · rw [if_neg hsel, if_pos hwhole, hmark, decide_eq_true hwhole]
        exact ⟨rfl, hfollows⟩
      · rw [if_neg hsel, if_neg hwhole, hmark, decide_eq_false hwhole]
        exact ⟨rfl, hfollows⟩

lemma Follows.step (h : s.Follows r) (hfits : s.Fits e) :
    (s.step e).2 = (r.step e).2 ∧ (s.step e).1.Follows (r.step e).1 := by
  cases e with
  | perform => exact ⟨rfl, h.perform hfits⟩
  | cancelSelector => exact ⟨rfl, h.cancelSelector hfits⟩
  | cancelTarget => exact ⟨rfl, h.cancelTarget⟩
  | fire n => exact h.fire n

lemma Follows.outcomes {events : List PerformEvent} (h : s.Follows r) (hfits : s.FitsAll events) :
    s.outcomes events = r.outcomes events := by
  induction events generalizing s r with
  | nil => rfl
  | cons e events ih =>
    obtain ⟨hout, hnext⟩ := h.step hfits.1
    rw [DelayedPerforms.outcomes, Requests.outcomes, hout, ih hnext hfits.2]

/-- A selector is sent when its timer fires unless it has been cancelled since it was requested. -/
theorem performs_are_sent_unless_cancelled (events : List PerformEvent) (h : initial.FitsAll events) :
    initial.outcomes events = Requests.initial.outcomes events :=
  follows_initial.outcomes h

def cancelledAndAgain : List PerformEvent :=
  [.perform 0x1000 "hide" 0, .cancelSelector 0x1000 "hide", .fire 0, .perform 0x1000 "hide" 0, .fire 1]

theorem cancelledAndAgain_sent : initial.outcomes cancelledAndAgain = Requests.initial.outcomes cancelledAndAgain := by
  refine performs_are_sent_unless_cancelled cancelledAndAgain ⟨⟨by decide, ?_⟩, .inr ?_, trivial, ⟨by decide, ?_⟩,
    trivial, trivial⟩
  · rintro (h | h) <;> cases h
  · decide
  · unfold Cancels
    decide

theorem cancels_are_kept_and_used_up :
    initial.outcomes [.cancelTarget 0x1000, .perform 0x1000 "hide" 0, .fire 0] =
        [(⟨0, 0x1000, "hide", 0⟩, false)] ∧
      Requests.initial.outcomes [.cancelTarget 0x1000, .perform 0x1000 "hide" 0, .fire 0] =
        [(⟨0, 0x1000, "hide", 0⟩, true)] ∧
      initial.outcomes [.perform 0x1000 "hide" 0, .perform 0x1000 "hide" 0, .cancelSelector 0x1000 "hide", .fire 0,
        .fire 1] = [(⟨0, 0x1000, "hide", 0⟩, false), (⟨1, 0x1000, "hide", 0⟩, true)] ∧
      Requests.initial.outcomes [.perform 0x1000 "hide" 0, .perform 0x1000 "hide" 0, .cancelSelector 0x1000 "hide",
        .fire 0, .fire 1] = [(⟨0, 0x1000, "hide", 0⟩, false), (⟨1, 0x1000, "hide", 0⟩, false)] := by
  decide

end DelayedPerforms

end TouchHle.Foundation
