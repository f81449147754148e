import TouchHle.Foundation.TimerFiring

namespace TouchHle.Foundation

open Lib Objc Function
open scoped List

namespace TimerWorld

variable {w w' : TimerWorld} {c : ThreadId × TimerCall} {t u : Id} {n m : ℕ} {timer timer' : NSTimer}
  {thread : ThreadId}

structure Placed (w : TimerWorld) : Prop where
  unscheduled : w.scheduled nil = []
  valid : ∀ rl, ∀ t ∈ w.scheduled rl, ∃ timer, w.timers t = some timer ∧ timer.runLoop = rl ∧ timer.dueBy ≠ none

def Tidy (w : TimerWorld) (c : ThreadId × TimerCall) : Prop :=
  match c.2 with
  | .addTimer runLoop t => ∀ timer, w.timers t = some timer →
    timer.dueBy ≠ none ∧ (timer.runLoop = nil ∨ timer.runLoop = runLoop)
  | _ => True

lemma Placed.transfer (hp : Placed w) (hscheduled : w'.scheduled = w.scheduled)
    (htimers : ∀ t x, w.timers t = some x → ∃ y, w'.timers t = some y ∧ y.runLoop = x.runLoop ∧
      (x.dueBy ≠ none → y.dueBy ≠ none)) : Placed w' where
  unscheduled := hscheduled ▸ hp.unscheduled
  valid rl t ht := by
    obtain ⟨x, hx, hrl, hvalid⟩ := hp.valid rl t (hscheduled ▸ ht)
    obtain ⟨y, hy, hsame, hstill⟩ := htimers t x hx
    exact ⟨y, hy, hsame.trans hrl, hstill hvalid⟩

lemma Placed.setTimer (timer' : NSTimer) (hp : Placed w) (htimer : w.timers t = some timer) (hrl : timer'.runLoop = timer.runLoop)
    (hvalid : timer.dueBy ≠ none → timer'.dueBy ≠ none) : Placed (w.setTimer t (some timer')) := by
  refine hp.transfer rfl fun v x hx => ?_
  by_cases hv : v = t
  · subst hv
    obtain rfl := Option.some.inj (htimer.symm.trans hx)
    exact ⟨timer', timers_setTimer_self w, hrl, hvalid⟩
  · exact ⟨x, (timers_setTimer_of_ne w hv).trans hx, rfl, id⟩

lemma Placed.setTimer_of_not_mem {x : Option NSTimer} (hp : Placed w) (ht : ∀ rl, t ∉ w.scheduled rl) :
    Placed (w.setTimer t x) where
  unscheduled := hp.unscheduled
  valid rl v hv := by
    have hne : v ≠ t := fun heq => ht rl (heq ▸ hv)
    rw [timers_setTimer_of_ne w hne]
    exact hp.valid rl v hv

lemma Placed.detach {r : TimerWorld × ℕ} (hp : Placed w) (h : w.detach t = .ok r) :
    Placed r.1 ∧ ∀ rl, t ∉ r.1.scheduled rl := by
  obtain ⟨timer, htimer, h⟩ := bind_eq_ok.mp h
  have htimer := unwrap_eq_ok.mp htimer
  have hmine : ∀ rl, t ∈ w.scheduled rl → rl = timer.runLoop := by
    intro rl hin
    obtain ⟨x, hx, hrl, -⟩ := hp.valid rl t hin
    obtain rfl := Option.some.inj (htimer.symm.trans hx)
    exact hrl.symm
  have hvalid : ∀ rl, ∀ u ∈ w.scheduled rl, u ≠ t → ∃ x, (w.setTimer t
      (some { timer with dueBy := none, runLoop := nil })).timers u = some x ∧ x.runLoop = rl ∧ x.dueBy ≠ none := by
    intro rl u hu hne
    rw [timers_setTimer_of_ne w hne]
    exact hp.valid rl u hu
  rcases removeTimer_cases h with ⟨hnil, rfl⟩ | ⟨-, -, left, gone, rfl, hall, -, hleft⟩
  · have hno : ∀ rl, t ∉ w.scheduled rl := by
      intro rl hin
      rw [hmine rl hin, hnil, hp.unscheduled] at hin
      cases hin
    exact ⟨hp.setTimer_of_not_mem hno, hno⟩
  · have hsub : ∀ rl, ∀ u ∈ update w.scheduled timer.runLoop left rl, u ∈ w.scheduled rl ∧ u ≠ t := by
      intro rl u hu
      by_cases hrl : rl = timer.runLoop
      · rw [hrl, update_self] at hu
        exact ⟨hrl ▸ hall.mem_iff.mp (List.mem_append_right _ hu), fun heq => hleft (heq ▸ hu)⟩
      · rw [update_of_ne hrl] at hu
        exact ⟨hu, fun heq => hrl (hmine rl (heq ▸ hu))⟩
    refine ⟨⟨?_, ?_⟩, fun rl hin => (hsub rl t hin).2 rfl⟩
    · apply List.eq_nil_iff_forall_not_mem.mpr
      intro u hu
      have hin := (hsub nil u hu).1
      rw [hp.unscheduled] at hin
      cases hin
    · intro rl u hu
      exact hvalid rl u (hsub rl u hu).1 (hsub rl u hu).2

lemma Placed.release (hp : Placed w) (h : w.release t = .ok w') : Placed w' := by
  obtain ⟨timer, htimer, h⟩ := bind_eq_ok.mp h
  split_ifs at h
  · obtain ⟨r, hr, h⟩ := bind_eq_ok.mp h
    obtain ⟨x, -, h⟩ := bind_eq_ok.mp h
    obtain rfl := Except.ok.inj h
    obtain ⟨hplaced, hno⟩ := hp.detach hr
    have hgone := hplaced.setTimer_of_not_mem (x := none) hno
    exact ⟨hgone.unscheduled, hgone.valid⟩
  · obtain rfl := Except.ok.inj h
    exact hp.setTimer _ (unwrap_eq_ok.mp htimer) rfl id

lemma Placed.releaseTimes (hp : Placed w) (h : releaseTimes t n w = .ok w') : Placed w' := by
  induction n generalizing w with
  | zero => exact Except.ok.inj h ▸ hp
  | succ n ih =>
    obtain ⟨v, hv, h⟩ := bind_eq_ok.mp h
    exact ih (hp.release hv) h

lemma Placed.invalidate (hp : Placed w) (h : w.invalidate t = .ok w') : Placed w' := by
  obtain ⟨r, hr, h⟩ := bind_eq_ok.mp h
  exact (hp.detach hr).1.releaseTimes h

lemma Placed.invalidateUnless {r : Bool} (hp : Placed w) (h : w.invalidateUnless r t = .ok w') : Placed w' := by
  unfold TimerWorld.invalidateUnless at h
  split_ifs at h
  · exact Except.ok.inj h ▸ hp
  · exact hp.invalidate h

lemma Placed.alloc (hp : Placed w) (h : w.alloc t timer = .ok w') : Placed w' := by
  obtain ⟨_, hnone, h⟩ := bind_eq_ok.mp h
  have hnone := assert_eq_ok.mp hnone
  obtain rfl := Except.ok.inj h
  have hno : ∀ rl, t ∉ w.scheduled rl := by
    intro rl hin
    obtain ⟨x, hx, -⟩ := hp.valid rl t hin
    rw [hnone] at hx
    cases hx
  have hset := hp.setTimer_of_not_mem (x := some timer) hno
  exact ⟨hset.unscheduled, hset.valid⟩

lemma Placed.addTimer {runLoop : Id} (hs : Sound u m w) (hp : Placed w) (hc : Tidy w (thread, .addTimer runLoop t))
    (h : w.addTimer runLoop t = .ok w') : Placed w' := by
  obtain ⟨_, hmem, h⟩ := bind_eq_ok.mp h
  have hmem := assert_eq_ok.mp hmem
  split_ifs at h with hin
  · exact Except.ok.inj h ▸ hp
  · obtain ⟨timer, htimer, h⟩ := bind_eq_ok.mp h
    have htimer := unwrap_eq_ok.mp htimer
    obtain rfl := Except.ok.inj h
    obtain ⟨hvalid, hloop⟩ := hc timer htimer
    have hne : nil ≠ runLoop := fun heq => hs.loops.2 (heq ▸ hmem)
    have hno : ∀ rl, t ∉ w.scheduled rl := by
      intro rl hrl
      obtain ⟨x, hx, rfl, -⟩ := hp.valid rl t hrl
      obtain rfl := Option.some.inj (htimer.symm.trans hx)
      rcases hloop with hloop | hloop
      · rw [hloop, hp.unscheduled] at hrl
        cases hrl
      · exact hin (hloop ▸ hrl)
    refine ⟨(update_of_ne hne ..).trans hp.unscheduled, ?_⟩
    intro rl v hv
    by_cases hvt : v = t
    · subst hvt
      have hrl : rl = runLoop := by
        by_contra hrl
        have hv : v ∈ update w.scheduled runLoop (w.scheduled runLoop ++ [v]) rl := hv
        rw [update_of_ne hrl] at hv
        exact hno rl hv
      exact ⟨_, timers_setTimer_self w, hrl.symm, hvalid⟩
    · have hold : v ∈ w.scheduled rl := by
        have hv : v ∈ update w.scheduled runLoop (w.scheduled runLoop ++ [t]) rl := hv
        by_cases hrl : rl = runLoop
        · rw [hrl, update_self] at hv
          rw [hrl]
          exact (List.mem_append.mp hv).resolve_right fun hin => hvt (List.mem_singleton.mp hin)
        · rwa [update_of_ne hrl] at hv
      obtain ⟨x, hx, hrest⟩ := hp.valid rl v hold
      exact ⟨x, (timers_setTimer_of_ne w hvt).trans hx, hrest⟩

lemma Placed.handleTimer (hp : Placed w) (h : w.handleTimer thread t = .ok w') : Placed w' := by
  obtain ⟨timer, htimer, h⟩ := bind_eq_ok.mp h
  have htimer := unwrap_eq_ok.mp htimer
  by_cases hrunning : timer.isRunningCallback = true
  · rw [if_pos hrunning] at h
    exact hp.release h
  · rw [if_neg hrunning] at h
    cases hdue : timer.dueBy with
    | none =>
      rw [hdue] at h
      exact hp.release h
    | some due =>
      rw [hdue] at h
      dsimp only at h
      split_ifs at h with hearly
      · exact hp.release h
      · obtain ⟨next, -, h⟩ := bind_eq_ok.mp h
        obtain rfl := Except.ok.inj h
        have hset := hp.setTimer { timer with
          refcount := timer.refcount + 1, dueBy := some next, isRunningCallback := true }
          htimer rfl fun _ => Option.some_ne_none _
        exact ⟨hset.unscheduled, hset.valid⟩

lemma Placed.step (hs : Sound nil 0 w) (hp : Placed w) (hc : Tidy w c) (h : w.step c = .ok w') : Placed w' := by
  obtain ⟨thread, call⟩ := c
  have hframes : ∀ frames, Placed { w with frames } := fun _ => ⟨hp.unscheduled, hp.valid⟩
  cases call with
  | sleep duration =>
    obtain ⟨now, -, h⟩ := bind_eq_ok.mp h
    obtain rfl := Except.ok.inj h
    exact ⟨hp.unscheduled, hp.valid⟩
  | allocRunLoop runLoop =>
    obtain ⟨_, -, h⟩ := bind_eq_ok.mp h
    obtain rfl := Except.ok.inj h
    exact ⟨hp.unscheduled, hp.valid⟩
  | timerWithTimeInterval t interval target selector userInfo repeats => exact hp.alloc h
  | timerWithInvocation t interval invocation repeats => exact hp.alloc h
  | initWithFireDate t date interval target selector userInfo repeats => exact hp.alloc h
  | retain t =>
    obtain ⟨timer, htimer, h⟩ := bind_eq_ok.mp h
    obtain rfl := Except.ok.inj h
    exact hp.setTimer _ (unwrap_eq_ok.mp htimer) rfl id
  | release t => exact hp.release h
  | addTimer runLoop t => exact hp.addTimer hs hc h
  | invalidate t => exact hp.invalidate h
  | fire t =>
    obtain ⟨timer, -, h⟩ := bind_eq_ok.mp h
    split_ifs at h
    · exact Except.ok.inj h ▸ hp
    · obtain rfl := Except.ok.inj h
      exact ⟨hp.unscheduled, hp.valid⟩
  | setFireDate t interval =>
    obtain ⟨timer, htimer, h⟩ := bind_eq_ok.mp h
    split_ifs at h
    · obtain rfl := Except.ok.inj h
      exact hp.setTimer _ (unwrap_eq_ok.mp htimer) rfl fun _ => Option.some_ne_none _
    · exact Except.ok.inj h ▸ hp
  | setTimeInterval t interval =>
    obtain ⟨timer, htimer, h⟩ := bind_eq_ok.mp h
    obtain rfl := Except.ok.inj h
    exact hp.setTimer _ (unwrap_eq_ok.mp htimer) rfl id
  | runLoop runLoop =>
    obtain ⟨_, -, h⟩ := bind_eq_ok.mp h
    obtain ⟨v, hv, h⟩ := bind_eq_ok.mp h
    obtain rfl := Except.ok.inj h
    obtain ⟨heq, -, hcount⟩ := retainAll_eq hv
    have hplaced : Placed v := by
      refine hp.transfer (by rw [heq]) fun t x hx => ?_
      have hy := hcount t
      rw [hx] at hy
      exact ⟨_, hy, rfl, id⟩
    exact ⟨hplaced.unscheduled, hplaced.valid⟩
  | advance =>
    change w.advance thread = .ok w' at h
    unfold TimerWorld.advance at h
    split at h
    · exact Except.ok.inj h ▸ hframes _
    · exact (hframes _).handleTimer h
    · cases h
  | ret =>
    change w.doReturn thread = .ok w' at h
    unfold TimerWorld.doReturn at h
    split at h
    · next t r frames hpop =>
      obtain ⟨timer, htimer, h⟩ := bind_eq_ok.mp h
      obtain ⟨mid, hmid, h⟩ := bind_eq_ok.mp h
      obtain ⟨last, hlast, h⟩ := bind_eq_ok.mp h
      have hset := (hframes frames).setTimer { timer with isRunningCallback := false }
        (unwrap_eq_ok.mp htimer) rfl id
      exact ((hset.invalidateUnless hmid).release hlast).release h
    · exact (hframes _).invalidateUnless h
    · cases h

/-- What the timers have done so far: a run loop has called one that does not repeat at most once, and
what a timer has retained it has released once when it is gone, and not before. -/
structure Settled (w : TimerWorld) : Prop where
  once : ∀ k, w.singles k ≤ 1
  alive : ∀ t timer, w.timers t = some timer → w.releasedBy timer.serial = [] ∧
    w.retainedBy timer.serial = timer.owned.map (timer.serial, ·)
  gone : ∀ k, (∀ t timer, w.timers t = some timer → timer.serial ≠ k) → w.releasedBy k = w.retainedBy k

lemma sound_start : Sound nil 0 start where
  loops := ⟨List.nodup_nil, by rintro ⟨⟩⟩
  unscheduled _ _ := rfl
  shared u := by
    split_ifs <;> exact le_rfl
  running _ := rfl
  repeats := by rintro _ _ _ ⟨⟩
  serials := by rintro _ _ ⟨⟩
  distinct := by rintro _ _ _ _ ⟨⟩
  once _ := Nat.zero_le _
  idle := by rintro _ _ ⟨⟩
  alive := by rintro _ _ ⟨⟩
  gone _ _ := rfl
  unborn _ _ := ⟨rfl, rfl⟩

/-- Every step of a run is punctual, and at its end the timers are settled; timers that are not valid
are in no run loop, if timers are added while they are valid and to one run loop each. -/
theorem timers_fire_on_time {calls : List (ThreadId × TimerCall)} (hlive : Along step Live .start calls) :
    Along step (fun w c => ∀ w', w.step c = .ok w' → Punctual w c w') .start calls ∧
      ∀ w, run step .start calls = .ok w → Settled w ∧ (Along step Tidy .start calls →
        ∀ t timer, w.timers t = some timer → timer.dueBy = none → ∀ runLoop, t ∉ w.scheduled runLoop) := by
  have hsteps : ∀ calls w, Sound nil 0 w → Along step Live w calls →
      Along step (fun w c => ∀ w', w.step c = .ok w' → Punctual w c w') w calls ∧
        ∀ v, run step w calls = .ok v → Sound nil 0 v ∧
          (Placed w → Along step Tidy w calls → Placed v) := by
    intro calls
    induction calls with
    | nil =>
      intro w hs _
      refine ⟨trivial, fun v hv => ?_⟩
      obtain rfl := Except.ok.inj hv
      exact ⟨hs, fun hp _ => hp⟩
    | cons c calls ih =>
      intro w hs hlive
      refine ⟨⟨fun w' h => (hs.step hlive.1 h).2, fun w' h => ?_⟩, fun v hv => ?_⟩
      · exact (ih w' (hs.step hlive.1 h).1 (hlive.2 w' h)).1
      · obtain ⟨w', h, hv⟩ := run_cons_eq_ok.mp hv
        obtain ⟨hend, hplaced⟩ := (ih w' (hs.step hlive.1 h).1 (hlive.2 w' h)).2 v hv
        exact ⟨hend, fun hp htidy => hplaced (hp.step hs htidy.1 h) (htidy.2 w' h)⟩
  obtain ⟨hpunctual, hend⟩ := hsteps calls .start sound_start hlive
  refine ⟨hpunctual, fun w hw => ?_⟩
  obtain ⟨hs, hplaced⟩ := hend w hw
  refine ⟨⟨hs.once, hs.alive, hs.gone⟩, fun htidy t timer htimer hinvalid rl hin => ?_⟩
  have hstart : Placed start := ⟨rfl, by rintro _ _ ⟨⟩⟩
  obtain ⟨x, hx, -, hvalid⟩ := (hplaced hstart htidy).valid rl t hin
  obtain rfl := Option.some.inj (htimer.symm.trans hx)
  exact hvalid hinvalid

instance decidableLive (w : TimerWorld) : ∀ c, Decidable (w.Live c)
  | (_, .release t) => inferInstanceAs (Decidable (w.shares t < w.refcount t))
  | (_, .sleep _) | (_, .allocRunLoop _) | (_, .timerWithTimeInterval ..) | (_, .timerWithInvocation ..)
  | (_, .initWithFireDate ..) | (_, .retain _) | (_, .addTimer ..) | (_, .invalidate _) | (_, .fire _)
  | (_, .setFireDate ..) | (_, .setTimeInterval ..) | (_, .runLoop _) | (_, .advance) | (_, .ret) =>
    .isTrue trivial

def lateCalls : List (ThreadId × TimerCall) :=
  [.allocRunLoop 1, .timerWithTimeInterval 2 (10 ^ 9) 9 5 nil true, .addTimer 1 2, .sleep (25 * 10 ^ 8),
    .runLoop 1, .advance, .runLoop 1, .advance, .advance, .ret, .advance, .fire 2, .invalidate 2, .ret,
    .release 2].map (0, ·)

theorem timers_fire_on_time_late :
    Along step (fun w c => ∀ w', w.step c = .ok w' → Punctual w c w') .start lateCalls ∧
      ∀ w, run step .start lateCalls = .ok w → Settled w ∧ (Along step Tidy .start lateCalls →
        ∀ t timer, w.timers t = some timer → timer.dueBy = none → ∀ runLoop, t ∉ w.scheduled runLoop) :=
  timers_fire_on_time (by decide +kernel)

theorem invalidated_timer_retains :
    ∃ w timer, run step .start ([.allocRunLoop 1, .timerWithTimeInterval 2 (10 ^ 9) 9 5 nil true,
        .addTimer 1 2, .invalidate 2].map (0, ·)) = .ok w ∧
      w.timers 2 = some timer ∧ timer.target = 9 ∧ timer.dueBy = none ∧ w.released = [] :=
  ⟨_, _, rfl, rfl, rfl, rfl, rfl⟩

end TimerWorld

end TouchHle.Foundation
