import TouchHle.Foundation.TimerRuns

namespace TouchHle.Foundation

open Lib Objc List Except Option TimerFrame
open scoped List

def NSTimer.InRange (timer : NSTimer) (due now : ℕ) : Prop :=
  now - due ≤ timer.interval.nsInterval.toNat * (u32Bound - 1) ∧
    now + timer.interval.nsInterval.toNat < instantBound

def NSTimer.Coincides (timer : NSTimer) (due now : ℕ) : Prop :=
  due < now ∧ timer.interval.nsInterval.toNat ∣ now - due

lemma nextTime_eq {timer : NSTimer} {due now next : ℕ} (hdue : due ≤ now)
    (hrange : timer.InRange due now) (h : timer.nextTime due now = .ok next) :
    (∃ k, 1 ≤ k ∧ next = due + k * timer.interval.nsInterval.toNat) ∧ now ≤ next ∧
      (¬ timer.Coincides due now → now < next) := by
  obtain ⟨n, hn⟩ : ∃ n, n = timer.interval.nsInterval.toNat := ⟨_, rfl⟩
  have hle := timer.interval.le
  have hpos : 0 < n := by omega
  rw [NSTimer.InRange, ← hn] at hrange
  obtain ⟨hfew, hbound⟩ := hrange
  have hrust : timer.interval.rustInterval = n := by
    rw [timer.interval.sync, timeIntervalToDurationOrZero, ← hn, if_pos]
    refine ⟨by omega, ?_⟩
    unfold instantBound at hbound
    unfold durationBound
    omega
  obtain ⟨k, hk⟩ : ∃ k, k = max 1 ((now - due + n - 1) / n) := ⟨_, rfl⟩
  have hk1 : 1 ≤ k := hk ▸ le_max_left _ _
  -- the quotient is rounded up
  have hup : now - due ≤ k * n := by
    have hlt : now - due + n - 1 < n * ((now - due + n - 1) / n + 1) := Nat.lt_mul_div_succ _ hpos
    have hmono : (now - due + n - 1) / n * n ≤ k * n := Nat.mul_le_mul_right n (hk ▸ le_max_right _ _)
    rw [Nat.mul_add, Nat.mul_comm n] at hlt
    omega
  have hdown : k * n < now - due + n ∨ k = 1 := by
    rcases max_choice 1 ((now - due + n - 1) / n) with hmax | hmax
    · exact .inr (hk.trans hmax)
    · left
      have hdiv := Nat.div_mul_le_self (now - due + n - 1) n
      rw [hk, hmax]
      omega
  have hkn : k * n ≤ now - due + n := by
    rcases hdown with hdown | hdown
    · exact hdown.le
    · rw [hdown]
      omega
  have hsmall : k < u32Bound := by
    by_contra hlarge
    have hmul : u32Bound * n ≤ k * n := Nat.mul_le_mul_right n (not_lt.mp hlarge)
    rcases hdown with hdown | hdown
    · have hsub : n * (u32Bound - 1) = u32Bound * n - n := by
        rw [Nat.mul_sub, mul_one, mul_comm]
      have hone : n ≤ u32Bound * n := Nat.le_mul_of_pos_left n (by decide)
      omega
    · rw [hdown] at hlarge
      exact hlarge (by decide)
  have hadvance : timer.advanceBy (now - due) = k := by
    unfold NSTimer.advanceBy
    dsimp only
    rw [← hn, if_pos hpos, ← hk, if_pos hsmall]
  have hmul : (durationCheckedMul timer.interval.rustInterval (timer.advanceBy (now - due))).getD
      timer.interval.rustInterval = k * n := by
    rw [hrust, hadvance, durationCheckedMul, mul_comm, if_pos]
    · rfl
    · unfold instantBound at hbound
      unfold durationBound
      omega
  have hnext : next = due + k * n := by
    unfold NSTimer.nextTime at h
    dsimp only at h
    rw [hmul, checkedAdd, if_pos (by omega)] at h
    exact (ok.inj h).symm
  rw [← hn]
  refine ⟨⟨k, hk1, hnext⟩, by omega, fun hlate => ?_⟩
  have hne : now - due ≠ k * n := by
    intro heq
    apply hlate
    rw [NSTimer.Coincides, ← hn, heq]
    refine ⟨?_, Dvd.intro_left k rfl⟩
    have := Nat.le_mul_of_pos_left n hk1
    omega
  omega

namespace TimerWorld

variable {w w' : TimerWorld} {c : ThreadId × TimerCall} {t u : Id} {n m : ℕ} {timer timer' : NSTimer}
  {thread : ThreadId} {frames : List (ThreadId × TimerFrame)}

/-- A callback is started of a timer that is valid, by a run loop only when it is due and while no
callback of it runs that a run loop has started, and otherwise by `fire`. -/
def MayStart (w : TimerWorld) (c : ThreadId × TimerCall) (s : Start) : Prop :=
  ∃ timer due, w.timers s.timer = some timer ∧ s.serial = timer.serial ∧ s.repeats = timer.repeats ∧
    s.message = timer.message ∧ timer.dueBy = some due ∧
    if s.fired then c.2 = .fire s.timer
    else due ≤ w.now ∧ ∀ f ∈ w.frames, f.2.handles s.timer = false

/-- A due time changes when the timer is invalidated, to another date, or in the firing of a timer that
repeats: by a whole number of intervals, and into the future if it was not late by a whole number. -/
inductive Reschedules (w : TimerWorld) (c : ThreadId × TimerCall) (w' : TimerWorld) (t : Id)
    (timer timer' : NSTimer) : Prop
  | kept (h : timer'.dueBy = timer.dueBy)
  | invalidated (h : timer'.dueBy = none)
  | dated (interval : ℤ) (hc : c.2 = .setFireDate t interval) (h : timer.dueBy ≠ none)
  | fired (due next : ℕ) (s : Start) (hs : w'.started = s :: w.started) (hst : s.timer = t)
    (hsf : s.fired = false) (hr : timer.repeats) (hd : timer.dueBy = some due)
    (hn : timer'.dueBy = some next)
    (h : timer.InRange due w.now → (∃ k, 1 ≤ k ∧ next = due + k * timer.interval.nsInterval.toNat) ∧
      w.now ≤ next ∧ (¬ timer.Coincides due w.now → w.now < next))

structure Punctual (w : TimerWorld) (c : ThreadId × TimerCall) (w' : TimerWorld) : Prop where
  now : w.now ≤ w'.now
  started : w'.started = w.started ∨ ∃ s, w'.started = s :: w.started ∧ w.MayStart c s
  due : ∀ u timer', w'.timers u = some timer' → timer'.serial = w.created ∨
    ∃ timer, w.timers u = some timer ∧ timer'.serial = timer.serial ∧ w.Reschedules c w' u timer timer'
  ended : c.2 = .ret → ∀ f frames, popFrame c.1 w.frames = some (f, frames) → ∀ t,
    f = .handled t false ∨ f = .fired t false → ∀ timer, w'.timers t = some timer → timer.dueBy = none

lemma Punctual.of_fades {v : TimerWorld} (hnow : v.now = w.now) (hstarted : v.started = w.started)
    (htimers : ∀ u x, v.timers u = some x → ∃ y, w.timers u = some y ∧ x.serial = y.serial ∧
      (x.dueBy = y.dueBy ∨ x.dueBy = none)) (h : Fades v w')
    (hended : c.2 = .ret → ∀ f frames, popFrame c.1 w.frames = some (f, frames) → ∀ t,
      f = .handled t false ∨ f = .fired t false → ∀ timer, w'.timers t = some timer → timer.dueBy = none) :
    Punctual w c w' where
  now := (h.now.trans hnow).ge
  started := .inl (h.started.trans hstarted)
  due u x hx := by
    obtain ⟨y, hy, hbecomes, hdue⟩ := h.timers u x hx
    obtain ⟨z, hz, hserial, hdue'⟩ := htimers u y hy
    refine .inr ⟨z, hz, hbecomes.serial.trans hserial, ?_⟩
    rcases hdue with hdue | hdue
    · exact hdue'.elim (fun h => .kept (hdue.trans h)) fun h => .invalidated (hdue.trans h)
    · exact .invalidated hdue
  ended := hended

lemma Punctual.of_fades_frames (h : Fades { w with frames } w')
    (hended : c.2 = .ret → ∀ f frames, popFrame c.1 w.frames = some (f, frames) → ∀ t,
      f = .handled t false ∨ f = .fired t false → ∀ timer, w'.timers t = some timer → timer.dueBy = none) :
    Punctual w c w' :=
  .of_fades (v := { w with frames }) rfl rfl (fun _ x hx => ⟨x, hx, rfl, .inl rfl⟩) h hended

lemma fades_refl (w : TimerWorld) : Fades w w :=
  ⟨rfl, rfl, rfl, fun _ v hv => ⟨v, hv, ⟨rfl, rfl, rfl, rfl, id⟩, .inl rfl⟩⟩

lemma Sound.reframe (hs : Sound t n w)
    (hhandles : ∀ u, frames.countP (fun f => f.2.handles u) = w.frames.countP fun f => f.2.handles u)
    (hhandled : ∀ thread u r, (thread, .handled u r) ∈ frames → (thread, .handled u r) ∈ w.frames)
    (hshare : ∀ v, (frames.map fun f => f.2.share v).sum + (if v = u then m else 0) ≤
      (w.frames.map fun f => f.2.share v).sum + if v = t then n else 0) :
    Sound u m { w with frames } := by
  refine hs.transfer w.timers frames (fun v x hx => ⟨x, hx, ⟨rfl, rfl, rfl, rfl, id⟩⟩) (fun _ => id)
    hhandles hhandled fun v => ?_
  have hshared := hs.shared v
  have hmore := hshare v
  change (w.runLoops.map fun rl => (w.scheduled rl).count v).sum + (frames.map fun f => f.2.share v).sum + _ ≤
    w.refcount v
  unfold shares at hshared
  omega

lemma Sound.alloc (hs : Sound t 0 w) (hcount : 0 < timer.refcount) (hserial : timer.serial = w.created)
    (hrunning : timer.isRunningCallback = false) (h : w.alloc u timer = .ok w') :
    Sound t 0 w' ∧ w'.started = w.started ∧ w'.now = w.now ∧
      ∀ v x, w'.timers v = some x → x.serial = w.created ∨ w.timers v = some x := by
  obtain ⟨_, hnone, h⟩ := bind_eq_ok.mp h
  have hnone := assert_eq_ok.mp hnone
  obtain rfl := ok.inj h
  have hold : ∀ v x, (w.setTimer u (some timer)).timers v = some x →
      v = u ∧ x = timer ∨ v ≠ u ∧ w.timers v = some x := fun _ _ => timers_setTimer_cases
  have hretained : ∀ k, (w.retained ++ timer.owned.map (timer.serial, ·)).filter (·.1 = k) =
      w.retainedBy k ++ if timer.serial = k then timer.owned.map (timer.serial, ·) else [] := by
    intro k
    rw [filter_append, retainedBy]
    split_ifs with hk
    · have hall : (timer.owned.map (timer.serial, ·)).filter (·.1 = k) = timer.owned.map (timer.serial, ·) :=
        filter_eq_self.mpr (by simp [hk])
      rw [hall]
    · have hno : (timer.owned.map (timer.serial, ·)).filter (·.1 = k) = [] :=
        filter_eq_nil_iff.mpr (by simp [hk])
      rw [hno]
  have hfresh : w.releasedBy w.created = [] := by
    rw [hs.gone w.created, (hs.unborn w.created le_rfl).2]
    exact fun v x hx => (hs.serials v x hx).ne
  refine ⟨?_, rfl, rfl, fun v x hx => ?_⟩
  · exact {
      loops := hs.loops
      unscheduled := hs.unscheduled
      shared := fun v => by
        have hshared := hs.shared v
        have hmore : w.refcount v ≤ (w.setTimer u (some timer)).refcount v := by
          rw [refcount_setTimer]
          split_ifs with hv
          · rw [hv, refcount, hnone]
            exact Nat.zero_le _
          · exact le_rfl
        exact hshared.trans hmore
      running := fun v => by
        refine (hs.running v).trans ?_
        have hsame : (w.setTimer u (some timer)).isRunning v = w.isRunning v := by
          unfold isRunning
          by_cases hv : v = u
          · subst hv
            rw [timers_setTimer_self, hnone]
            exact hrunning
          · rw [timers_setTimer_of_ne w hv]
        rw [← hsame]
        rfl
      repeats := fun thread v r hin x hx => by
        rcases hold v x hx with ⟨rfl, rfl⟩ | ⟨-, hx⟩
        · have hzero := hs.running v
          have hpos : 0 < w.frames.countP fun f => f.2.handles v :=
            countP_pos_iff.mpr ⟨_, hin, by simp [handles]⟩
          rw [isRunning, hnone] at hzero
          exact absurd hzero hpos.ne'
        · exact hs.repeats thread v r hin x hx
      serials := fun v x hx => by
        rcases hold v x hx with ⟨-, rfl⟩ | ⟨-, hx⟩
        · rw [hserial]
          exact Nat.lt_succ_self _
        · exact (hs.serials v x hx).trans (Nat.lt_succ_self _)
      distinct := fun v v' x x' hx hx' heq => by
        rcases hold v x hx with ⟨hv, hxt⟩ | ⟨-, hw⟩ <;> rcases hold v' x' hx' with ⟨hv', hxt'⟩ | ⟨-, hw'⟩
        · exact hv.trans hv'.symm
        · exact absurd (heq.symm.trans (hxt ▸ hserial)) (hs.serials v' x' hw').ne
        · exact absurd (heq.trans (hxt' ▸ hserial)) (hs.serials v x hw).ne
        · exact hs.distinct v v' x x' hw hw' heq
      once := hs.once
      idle := fun v x hx h => by
        rcases hold v x hx with ⟨-, rfl⟩ | ⟨-, hx⟩
        · rw [hserial]
          exact (hs.unborn w.created le_rfl).1
        · exact hs.idle v x hx h
      alive := fun v x hx => by
        have hmine := hretained x.serial
        rcases hold v x hx with ⟨-, rfl⟩ | ⟨-, hx⟩
        · refine ⟨(congrArg _ hserial).trans hfresh, hmine.trans ?_⟩
          rw [if_pos rfl, hserial, (hs.unborn w.created le_rfl).2]
          rfl
        · obtain ⟨hreleases, hretains⟩ := hs.alive v x hx
          refine ⟨hreleases, hmine.trans ?_⟩
          rw [if_neg (hserial.trans_ne (hs.serials v x hx).ne'), append_nil]
          exact hretains
      gone := fun k hk => by
        have hne : timer.serial ≠ k := hk u timer (timers_setTimer_self w)
        refine (hs.gone k fun v x hx => hk v x ?_).trans ((hretained k).trans ?_).symm
        · refine (timers_setTimer_of_ne w fun hv => ?_).trans hx
          rw [hv, hnone] at hx
          cases hx
        · rw [if_neg hne, append_nil]
      unborn := fun k hk => by
        have hk : w.created + 1 ≤ k := hk
        refine ⟨(hs.unborn k (by omega)).1, (hretained k).trans ?_⟩
        rw [if_neg (by omega), append_nil]
        exact (hs.unborn k (by omega)).2 }
  · rcases hold v x hx with ⟨-, rfl⟩ | ⟨-, hx⟩
    · exact .inl hserial
    · exact .inr hx

lemma Punctual.of_setTimer (htimer : w.timers t = some timer) (hserial : timer'.serial = timer.serial)
    (hdue : w.Reschedules c (w.setTimer t (some timer')) t timer timer') (hc : c.2 ≠ .ret) :
    Punctual w c (w.setTimer t (some timer')) where
  now := le_rfl
  started := .inl rfl
  due v x hx := by
    obtain ⟨rfl, rfl⟩ | ⟨-, hx⟩ := timers_setTimer_cases hx
    · exact .inr ⟨timer, htimer, hserial, hdue⟩
    · exact .inr ⟨x, hx, rfl, .kept rfl⟩
  ended hret := absurd hret hc

lemma Sound.setFireDate {interval : ℤ} (hs : Sound u 0 w) (h : w.setFireDate t interval = .ok w') :
    Sound u 0 w' ∧ Punctual w (thread, .setFireDate t interval) w' := by
  obtain ⟨timer, htimer, h⟩ := bind_eq_ok.mp h
  have htimer := unwrap_eq_ok.mp htimer
  split_ifs at h with hvalid
  · obtain rfl := ok.inj h
    have hbecomes : timer.Becomes { timer with dueBy := some (w.fireTime interval) } :=
      ⟨rfl, rfl, rfl, rfl, fun _ => hvalid⟩
    refine ⟨((hs.weaken t).setTimer (m := 0) htimer hbecomes le_rfl).weaken u, ?_⟩
    apply Punctual.of_setTimer htimer hbecomes.serial (.dated interval rfl hvalid)
    rintro ⟨⟩
  · obtain rfl := ok.inj h
    refine ⟨hs, .of_fades_frames (fades_refl w) ?_⟩
    rintro ⟨⟩

lemma Sound.setTimeInterval {interval : ℤ} (hs : Sound u 0 w) (h : w.setTimeInterval t interval = .ok w') :
    Sound u 0 w' ∧ Punctual w (thread, .setTimeInterval t interval) w' := by
  obtain ⟨timer, htimer, h⟩ := bind_eq_ok.mp h
  have htimer := unwrap_eq_ok.mp htimer
  obtain rfl := ok.inj h
  have hbecomes : timer.Becomes { timer with interval := .sanitized interval } := ⟨rfl, rfl, rfl, rfl, id⟩
  refine ⟨((hs.weaken t).setTimer (m := 0) htimer hbecomes le_rfl).weaken u, ?_⟩
  apply Punctual.of_setTimer htimer hbecomes.serial (.kept rfl)
  rintro ⟨⟩

lemma Sound.addTimer {runLoop : Id} (hs : Sound u 0 w) (h : w.addTimer runLoop t = .ok w') :
    Sound u 0 w' ∧ Punctual w (thread, .addTimer runLoop t) w' := by
  obtain ⟨_, hmem, h⟩ := bind_eq_ok.mp h
  have hmem := assert_eq_ok.mp hmem
  split_ifs at h with hin
  · obtain rfl := ok.inj h
    refine ⟨hs, .of_fades_frames (fades_refl w) ?_⟩
    rintro ⟨⟩
  · obtain ⟨timer, htimer, h⟩ := bind_eq_ok.mp h
    have htimer := unwrap_eq_ok.mp htimer
    obtain rfl := ok.inj h
    have hbecomes : timer.Becomes { timer with refcount := timer.refcount + 1, runLoop } :=
      ⟨rfl, rfl, rfl, rfl, id⟩
    have hset := (hs.weaken t).setTimer (m := 1) htimer hbecomes le_rfl
    refine ⟨{ hset with unscheduled := ?_, shared := ?_ }, le_rfl, .inl rfl, ?_, ?_⟩
    · intro rl hrl
      have hne : rl ≠ runLoop := fun heq => hrl (heq ▸ hmem)
      exact (Function.update_of_ne hne ..).trans (hs.unscheduled rl hrl)
    · intro v
      have hsum := sum_map_update (f := w.scheduled) (fun l : List Id => l.count v) (w.scheduled runLoop ++ [t])
        hs.loops.1 hmem
      have hshared := hset.shared v
      rw [count_append, count_singleton] at hsum
      change (w.runLoops.map fun rl => (Function.update w.scheduled runLoop (w.scheduled runLoop ++ [t]) rl).count v).sum +
        (w.frames.map fun f => f.2.share v).sum + _ ≤ (w.setTimer t _).refcount v
      change (w.runLoops.map fun rl => (w.scheduled rl).count v).sum +
        (w.frames.map fun f => f.2.share v).sum + _ ≤ _ at hshared
      by_cases hv : v = t
      · subst hv
        simp only [beq_self_eq_true, if_true] at hsum hshared
        split_ifs <;> omega
      · have hv' : (t == v) = false := beq_false_of_ne (Ne.symm hv)
        simp only [hv', hv, if_false] at hsum hshared
        split_ifs at hsum ⊢ <;> first | contradiction | omega
    · have hpunctual := Punctual.of_setTimer (c := (thread, .addTimer runLoop t)) htimer hbecomes.serial (.kept rfl)
        (by rintro ⟨⟩)
      intro v x hx
      rcases hpunctual.due v x hx with hnew | ⟨old, hold, hserial, hre⟩
      · exact .inl hnew
      · refine .inr ⟨old, hold, hserial, ?_⟩
        cases hre with
        | kept h => exact .kept h
        | invalidated h => exact .invalidated h
        | dated interval hc h => cases hc
        | fired due next s hs => exact absurd (congrArg List.length hs) (by simp [TimerWorld.setTimer])
    · rintro ⟨⟩

lemma retainAll_eq {ts : List Id} (h : retainAll ts w = .ok w') :
    w' = { w with timers := w'.timers } ∧ (∀ v ∈ ts, w.timers v ≠ none) ∧
      ∀ v, w'.timers v = (w.timers v).map fun x => { x with refcount := x.refcount + ts.count v } := by
  induction ts generalizing w with
  | nil =>
    obtain rfl := ok.inj h
    refine ⟨rfl, forall_mem_nil _, fun v => ?_⟩
    cases w.timers v <;> rfl
  | cons t ts ih =>
    obtain ⟨mid, hmid, h⟩ := bind_eq_ok.mp h
    obtain ⟨timer, htimer, hmid⟩ := bind_eq_ok.mp hmid
    have htimer := unwrap_eq_ok.mp htimer
    obtain rfl := ok.inj hmid
    obtain ⟨hrest, hall, hcount⟩ := ih h
    refine ⟨hrest, ?_, fun v => ?_⟩
    · intro v hv
      by_cases hvt : v = t
      · rw [hvt, htimer]
        exact some_ne_none _
      · rw [← timers_setTimer_of_ne w hvt]
        exact hall v ((mem_cons.mp hv).resolve_left hvt)
    · rw [hcount v]
      by_cases hv : v = t
      · subst hv
        rw [timers_setTimer_self, htimer, count_cons_self]
        simp only [map_some, some.injEq, NSTimer.mk.injEq, true_and, and_true]
        omega
      · rw [timers_setTimer_of_ne w hv, count_cons_of_ne (Ne.symm hv)]

lemma Sound.runRunLoop {runLoop : Id} (hs : Sound u 0 w) (h : w.runRunLoop thread runLoop = .ok w') :
    Sound u 0 w' ∧ Punctual w (thread, .runLoop runLoop) w' := by
  obtain ⟨_, -, h⟩ := bind_eq_ok.mp h
  obtain ⟨v, hv, h⟩ := bind_eq_ok.mp h
  obtain rfl := ok.inj h
  obtain ⟨heq, hall, hcount⟩ := retainAll_eq hv
  have hold : ∀ x timer', v.timers x = some timer' → ∃ timer, w.timers x = some timer ∧
      timer.Becomes timer' ∧ timer'.dueBy = timer.dueBy := by
    intro x timer' htimer'
    rw [hcount x] at htimer'
    obtain ⟨timer, htimer, rfl⟩ := map_eq_some_iff.mp htimer'
    exact ⟨timer, htimer, ⟨rfl, rfl, rfl, rfl, id⟩, rfl⟩
  rw [heq]
  constructor
  · apply hs.transfer _ ((thread, .pass (w.scheduled runLoop)) :: w.frames)
    · intro x timer' htimer'
      obtain ⟨timer, htimer, hbecomes, -⟩ := hold x timer' htimer'
      exact ⟨timer, htimer, hbecomes⟩
    · intro x hx
      rw [hcount x] at hx
      exact map_eq_none_iff.mp hx
    · intro x
      exact countP_cons_of_neg (by simp [handles])
    · intro thread' x r hin
      exact (mem_cons.mp hin).resolve_left (by rintro ⟨⟩)
    · intro x
      have hshared := hs.shared x
      have hmore : w.refcount x + (w.scheduled runLoop).count x ≤ v.refcount x := by
        rw [TimerWorld.refcount, TimerWorld.refcount, hcount x]
        cases hx : w.timers x with
        | none =>
          have hno : x ∉ w.scheduled runLoop := fun hin => hall x hin hx
          rw [count_eq_zero_of_not_mem hno]
          exact le_rfl
        | some timer => exact le_rfl
      change _ + _ ≤ v.refcount x
      rw [shares, map_cons, sum_cons]
      rw [shares] at hshared
      change _ + ((w.scheduled runLoop).count x + _) + _ ≤ _
      dsimp only at hshared ⊢
      omega
  · exact {
      now := le_rfl
      started := .inl rfl
      due := fun x timer' htimer' => by
        obtain ⟨timer, htimer, hbecomes, hdue⟩ := hold x timer' htimer'
        exact .inr ⟨timer, htimer, hbecomes.serial, .kept hdue⟩
      ended := by rintro ⟨⟩ }

lemma Sound.fire (hs : Sound u 0 w) (h : w.fire thread t = .ok w') :
    Sound u 0 w' ∧ Punctual w (thread, .fire t) w' := by
  obtain ⟨timer, htimer, h⟩ := bind_eq_ok.mp h
  have htimer := unwrap_eq_ok.mp htimer
  split_ifs at h with hvalid
  · obtain rfl := ok.inj h
    refine ⟨hs, .of_fades_frames (fades_refl w) ?_⟩
    rintro ⟨⟩
  · obtain rfl := ok.inj h
    obtain ⟨due, hdue⟩ := ne_none_iff_exists'.mp hvalid
    have hframe : Sound u 0 { w with frames := (thread, .fired t timer.repeats) :: w.frames } := by
      apply hs.reframe
      · intro v
        exact countP_cons_of_neg (by simp [handles])
      · intro thread' v r hin
        exact (mem_cons.mp hin).resolve_left (by rintro ⟨⟩)
      · intro v
        rw [map_cons, sum_cons]
        simp [share]
    have hsame : ∀ k, (w.call thread t timer true).singles k = w.singles k := fun k =>
      countP_cons_of_neg (by simp)
    refine ⟨{ hframe with once := ?_, idle := ?_, unborn := ?_ }, le_rfl, .inr ⟨_, rfl, ?_⟩, ?_, ?_⟩
    · intro k
      rw [hsame]
      exact hs.once k
    · intro v x hx h
      rw [hsame]
      exact hs.idle v x hx h
    · intro k hk
      rw [hsame]
      exact hs.unborn k hk
    · exact ⟨timer, due, htimer, rfl, rfl, rfl, hdue, rfl⟩
    · exact fun v x hx => .inr ⟨x, hx, rfl, .kept rfl⟩
    · rintro ⟨⟩

lemma Sound.call {next : ℕ} (hs : Sound t 1 w) (htimer : w.timers t = some timer)
    (hidle : timer.isRunningCallback = false) (hvalid : timer.dueBy ≠ none) (hcalled : timer' =
      { timer with refcount := timer.refcount + 1, dueBy := some next, isRunningCallback := true }) :
    Sound u 0 ((w.setTimer t (some timer')).call thread t timer false) := by
  have hold : ∀ v x, (w.setTimer t (some timer')).timers v = some x → v = t ∧ x = timer' ∨
      v ≠ t ∧ w.timers v = some x := fun _ _ => timers_setTimer_cases
  have hsingles : ∀ k, ((w.setTimer t (some timer')).call thread t timer false).singles k =
      w.singles k + if timer.serial = k ∧ timer.repeats = false then 1 else 0 := by
    intro k
    rw [singles, TimerWorld.call, countP_cons]
    congr 1
    simp
  have hzero := hs.idle t timer htimer (.inr ⟨hvalid, hidle⟩)
  obtain ⟨hcount, hrunning, hrepeats, hserial, howned⟩ : timer'.refcount = timer.refcount + 1 ∧
      timer'.isRunningCallback = true ∧ timer'.repeats = timer.repeats ∧ timer'.serial = timer.serial ∧
      timer'.owned = timer.owned := by
    rw [hcalled]
    exact ⟨rfl, rfl, rfl, rfl, rfl⟩
  clear hcalled
  exact {
    loops := hs.loops
    unscheduled := hs.unscheduled
    shared := fun v => by
      have hshared := hs.shared v
      have hmore : ((w.setTimer t (some timer')).call thread t timer false).refcount v =
          (w.setTimer t (some timer')).refcount v := rfl
      rw [hmore, refcount_setTimer, shares, TimerWorld.call, push, map_cons, sum_cons]
      change (w.runLoops.map fun rl => (w.scheduled rl).count v).sum + ((if t = v then 2 else 0) +
        (w.frames.map fun f => f.2.share v).sum) + _ ≤ _
      rw [shares] at hshared
      by_cases hv : v = t
      · subst hv
        rw [if_pos rfl, refcount_eq htimer] at hshared
        rw [if_pos rfl, if_pos rfl]
        split_ifs <;> omega
      · rw [if_neg hv] at hshared
        rw [if_neg (Ne.symm hv), if_neg hv]
        split_ifs <;> omega
    running := fun v => by
      rw [TimerWorld.call, push, countP_cons]
      change w.frames.countP (fun f => f.2.handles v) + (if (decide (t = v)) = true then 1 else 0) =
        if (w.setTimer t (some timer')).isRunning v then 1 else 0
      rw [hs.running v, isRunning, isRunning]
      by_cases hv : v = t
      · subst hv
        rw [timers_setTimer_self, htimer]
        simp [hidle, hrunning]
      · rw [timers_setTimer_of_ne w hv]
        simp [Ne.symm hv]
    repeats := fun thread' v r hin x hx => by
      rcases mem_cons.mp hin with heq | hin
      · obtain ⟨-, hframe⟩ := Prod.mk.inj heq
        obtain ⟨hv, hr⟩ := handled.inj hframe
        rcases hold v x hx with ⟨-, rfl⟩ | ⟨hne, -⟩
        · exact hrepeats.trans hr.symm
        · exact absurd hv hne
      · rcases hold v x hx with ⟨rfl, rfl⟩ | ⟨-, hx⟩
        · exact hrepeats.trans (hs.repeats thread' v r hin timer htimer)
        · exact hs.repeats thread' v r hin x hx
    serials := hs.serials_setTimer htimer hserial
    distinct := hs.distinct_setTimer htimer hserial
    once := fun k => by
      rw [hsingles]
      split_ifs with hk
      · rw [← hk.1, hzero]
      · exact hs.once k
    idle := fun v x hx h => by
      rw [hsingles]
      rcases hold v x hx with ⟨-, rfl⟩ | ⟨hv, hw⟩
      · have hr : timer.repeats = true := hrepeats ▸ h.resolve_right fun h => by
          rw [hrunning] at h
          cases h.2
        rw [if_neg (by simp [hr]), hserial]
        exact hzero
      · rw [if_neg fun hk => hs.serial_ne htimer v x hw hv hk.1.symm]
        exact hs.idle v x hw h
    alive := hs.alive_setTimer htimer hserial howned
    gone := hs.gone_setTimer htimer hserial
    unborn := fun k hk => by
      rw [hsingles, if_neg fun heq => ((hs.serials t timer htimer).trans_le hk).ne heq.1]
      exact hs.unborn k hk }

lemma Sound.handleTimer (hs : Sound t 1 { w with frames })
    (hhandles : ∀ v, frames.countP (fun f => f.2.handles v) = w.frames.countP fun f => f.2.handles v)
    (h : { w with frames }.handleTimer thread t = .ok w') :
    Sound u 0 w' ∧ Punctual w (thread, .advance) w' := by
  have hreleased : { w with frames }.release t = .ok w' → Sound u 0 w' ∧ Punctual w (thread, .advance) w' := by
    intro h
    obtain ⟨hsound, hfades⟩ := Sound.release (n := 0) hs h
    refine ⟨hsound.weaken u, .of_fades_frames hfades ?_⟩
    rintro ⟨⟩
  obtain ⟨timer, htimer, h⟩ := bind_eq_ok.mp h
  have htimer := unwrap_eq_ok.mp htimer
  by_cases hrunning : timer.isRunningCallback = true
  · rw [if_pos hrunning] at h
    exact hreleased h
  · rw [if_neg hrunning] at h
    rw [Bool.not_eq_true] at hrunning
    cases hdue : timer.dueBy with
    | none =>
      rw [hdue] at h
      exact hreleased h
    | some due =>
      rw [hdue] at h
      dsimp only at h
      by_cases hearly : w.now < due
      · rw [if_pos hearly] at h
        exact hreleased h
      · rw [if_neg hearly] at h
        obtain ⟨next, hnext, h⟩ := bind_eq_ok.mp h
        obtain rfl := ok.inj h
        have hvalid : timer.dueBy ≠ none := by rw [hdue]; exact some_ne_none _
        refine ⟨hs.call htimer hrunning hvalid rfl, le_rfl, .inr ⟨_, rfl, ?_⟩, ?_, ?_⟩
        · refine ⟨timer, due, htimer, rfl, rfl, rfl, hdue, not_lt.mp hearly, fun f hf => ?_⟩
          have hnone := hs.running t
          rw [isRunning, htimer] at hnone
          have hzero : w.frames.countP (fun f => f.2.handles t) = 0 := by
            rw [← hhandles]
            exact hnone.trans (by rw [elim_some, hrunning]; rfl)
          exact Bool.not_eq_true _ ▸ List.countP_eq_zero.mp hzero f hf
        · intro v x hx
          by_cases hv : v = t
          · subst hv
            have hx : some _ = some x := (timers_setTimer_self _).symm.trans hx
            obtain rfl := some.inj hx
            refine .inr ⟨timer, htimer, rfl, ?_⟩
            by_cases hrepeats : timer.repeats
            · rw [NSTimer.dueAfter, if_pos hrepeats] at hnext
              refine .fired due next _ rfl rfl rfl hrepeats hdue rfl fun hrange => ?_
              exact nextTime_eq (not_lt.mp hearly) hrange hnext
            · rw [NSTimer.dueAfter, if_neg hrepeats] at hnext
              obtain rfl := ok.inj hnext
              exact .kept hdue.symm
          · exact .inr ⟨x, (timers_setTimer_of_ne _ hv).symm.trans hx, rfl, .kept rfl⟩
        · rintro ⟨⟩

lemma share_popFrame {f : TimerFrame} (hpop : popFrame thread w.frames = some (f, frames)) (v : Id) :
    (w.frames.map fun f => f.2.share v).sum = f.share v + (frames.map fun f => f.2.share v).sum := by
  have hperm := ((popFrame_perm hpop).map fun f => f.2.share v).sum_eq
  rw [map_cons, sum_cons] at hperm
  exact hperm.symm

lemma handles_popFrame {f : TimerFrame} (hpop : popFrame thread w.frames = some (f, frames)) (v : Id) :
    w.frames.countP (fun f => f.2.handles v) =
      frames.countP (fun f => f.2.handles v) + if f.handles v then 1 else 0 := by
  rw [← (popFrame_perm hpop).countP_eq, countP_cons]

lemma mem_popFrame {f : TimerFrame} (hpop : popFrame thread w.frames = some (f, frames))
    {g : ThreadId × TimerFrame} (h : g ∈ frames) : g ∈ w.frames :=
  (popFrame_perm hpop).mem_iff.mp (mem_cons_of_mem _ h)

lemma Sound.advance (hs : Sound u 0 w) (h : w.advance thread = .ok w') :
    Sound u 0 w' ∧ Punctual w (thread, .advance) w' := by
  unfold TimerWorld.advance at h
  split at h
  · next frames hpop =>
    obtain rfl := ok.inj h
    have hhandles : ∀ v, frames.countP (fun f => f.2.handles v) = w.frames.countP fun f => f.2.handles v :=
      fun v => (handles_popFrame hpop v).symm
    refine ⟨hs.reframe hhandles (fun _ _ _ => mem_popFrame hpop) fun v => ?_, .of_fades_frames (fades_refl _) ?_⟩
    · rw [share_popFrame hpop v]
      split_ifs <;> omega
    · rintro ⟨⟩
  · next t ts frames hpop =>
    have hhandles : ∀ v, ((thread, pass ts) :: frames).countP (fun f => f.2.handles v) =
        w.frames.countP fun f => f.2.handles v := by
      intro v
      rw [handles_popFrame hpop v, countP_cons]
      rfl
    refine Sound.handleTimer ?_ hhandles h
    apply hs.reframe hhandles
    · intro thread' v r hin
      exact mem_popFrame hpop ((mem_cons.mp hin).resolve_left (by rintro ⟨⟩))
    · intro v
      rw [share_popFrame hpop v, map_cons, sum_cons, share, share, count_cons]
      by_cases hv : v = t
      · subst hv
        simp only [beq_self_eq_true, if_true]
        omega
      · rw [if_neg hv]
        omega
  · cases h

lemma Sound.finish {r : Bool} (hs : Sound u 0 w) (hpop : popFrame thread w.frames = some (.handled t r, frames))
    (htimer : w.timers t = some timer) (hcalled : ∃ dueBy runLoop, (r = true ∧ dueBy = timer.dueBy ∨ dueBy = none) ∧
      timer' = { timer with isRunningCallback := false, dueBy, runLoop }) :
    Sound t 2 ({ w with frames }.setTimer t (some timer')) := by
  have hr : timer.repeats = r :=
    hs.repeats thread t r ((popFrame_perm hpop).mem_iff.mp mem_cons_self) timer htimer
  have hold : ∀ v x, ({ w with frames }.setTimer t (some timer')).timers v = some x → v = t ∧ x = timer' ∨
      v ≠ t ∧ w.timers v = some x := fun _ _ => timers_setTimer_cases
  obtain ⟨hcount, hrunning, hrepeats, hserial, howned, hvalid⟩ : timer'.refcount = timer.refcount ∧
      timer'.isRunningCallback = false ∧ timer'.repeats = timer.repeats ∧ timer'.serial = timer.serial ∧
      timer'.owned = timer.owned ∧ (timer'.dueBy ≠ none → timer.repeats = true) := by
    obtain ⟨dueBy, runLoop, hdue, rfl⟩ := hcalled
    refine ⟨rfl, rfl, rfl, rfl, rfl, fun hne => ?_⟩
    rcases hdue with ⟨htrue, -⟩ | hnone
    · exact hr.trans htrue
    · exact absurd hnone hne
  clear hcalled
  exact {
    loops := hs.loops
    unscheduled := hs.unscheduled
    shared := fun v => by
      have hshared := hs.shared v
      rw [shares, share_popFrame hpop v, share] at hshared
      rw [refcount_setTimer]
      change (w.runLoops.map fun rl => (w.scheduled rl).count v).sum +
        (frames.map fun f => f.2.share v).sum + _ ≤ if v = t then _ else w.refcount v
      by_cases hv : v = t
      · subst hv
        rw [if_pos rfl, refcount_eq htimer] at hshared
        rw [if_pos rfl, if_pos rfl]
        split_ifs at hshared <;> omega
      · rw [if_neg (Ne.symm hv)] at hshared
        rw [if_neg hv, if_neg hv]
        split_ifs at hshared <;> omega
    running := fun v => by
      have hall := hs.running v
      rw [handles_popFrame hpop v, isRunning] at hall
      change frames.countP (fun f => f.2.handles v) = _
      rw [isRunning]
      by_cases hv : v = t
      · subst hv
        rw [timers_setTimer_self, elim_some, hrunning]
        have hyes : (handled v r).handles v = true := decide_eq_true rfl
        rw [hyes, if_pos rfl] at hall
        rw [if_neg (by decide)]
        split_ifs at hall
        all_goals omega
      · rw [timers_setTimer_of_ne _ hv]
        have hno : (handled t r).handles v = false := decide_eq_false (Ne.symm hv)
        rw [hno] at hall
        exact hall
    repeats := fun thread' v r' hin x hx => by
      rcases hold v x hx with ⟨rfl, rfl⟩ | ⟨-, hx⟩
      · exact hrepeats.trans (hs.repeats thread' v r' (mem_popFrame hpop hin) timer htimer)
      · exact hs.repeats thread' v r' (mem_popFrame hpop hin) x hx
    serials := hs.serials_setTimer htimer hserial
    distinct := hs.distinct_setTimer htimer hserial
    once := hs.once
    idle := fun v x hx h => by
      rcases hold v x hx with ⟨-, rfl⟩ | ⟨-, hw⟩
      · rw [hserial]
        apply hs.idle t timer htimer
        left
        rcases h with h | h
        · exact hrepeats ▸ h
        · exact hvalid h.1
      · exact hs.idle v x hw h
    alive := hs.alive_setTimer htimer hserial howned
    gone := hs.gone_setTimer htimer hserial
    unborn := hs.unborn }

lemma Sound.invalidateUnless {r : Bool} (hs : Sound t n w) (h : w.invalidateUnless r t = .ok w') :
    Sound t n w' ∧ Fades w w' ∧ (r = false → ∀ x, w'.timers t = some x → x.dueBy = none) := by
  unfold TimerWorld.invalidateUnless at h
  split_ifs at h with hr
  · obtain rfl := ok.inj h
    exact ⟨hs, fades_refl w, fun hfalse => by rw [hr] at hfalse; cases hfalse⟩
  · obtain ⟨hsound, hfades, hinvalid⟩ := hs.invalidate h
    exact ⟨hsound, hfades, fun _ => hinvalid⟩

lemma Sound.doReturn (hs : Sound u 0 w) (h : w.doReturn thread = .ok w') :
    Sound u 0 w' ∧ Punctual w (thread, .ret) w' := by
  unfold TimerWorld.doReturn at h
  split at h
  · next t r frames hpop =>
    obtain ⟨timer, htimer, h⟩ := bind_eq_ok.mp h
    have htimer : w.timers t = some timer := unwrap_eq_ok.mp htimer
    dsimp only at h
    obtain ⟨mid, hmid, h⟩ := bind_eq_ok.mp h
    obtain ⟨last, hlast, h⟩ := bind_eq_ok.mp h
    -- what the timer is after the callback
    obtain ⟨timer', hfades, hsound, hsame, hdue⟩ : ∃ timer',
        Fades ({ w with frames }.setTimer t (some timer')) mid ∧ Sound t 2 mid ∧
          timer'.serial = timer.serial ∧
          ((timer'.dueBy = timer.dueBy ∧ r = true) ∨ timer'.dueBy = none) := by
      unfold TimerWorld.invalidateUnless at hmid
      split_ifs at hmid with hr
      · obtain rfl := ok.inj hmid
        refine ⟨_, fades_refl _, hs.finish hpop htimer ⟨timer.dueBy, timer.runLoop, .inl ⟨hr, rfl⟩, rfl⟩, rfl,
          .inl ⟨rfl, hr⟩⟩
      · obtain ⟨d, hd, hmid⟩ := bind_eq_ok.mp hmid
        rw [TimerWorld.detach, timers_setTimer_self, unwrap_some, ok_bind, setTimer_setTimer] at hd
        have hfinish := hs.finish hpop htimer ⟨none, nil, .inr rfl, rfl⟩
        obtain ⟨hremoved, hfades, -⟩ := hfinish.removeTimer hd
        obtain ⟨hsound, hfades'⟩ := hremoved.releaseTimes hmid
        exact ⟨_, hfades.trans hfades', hsound, rfl, .inr rfl⟩
    obtain ⟨hsound', hfades'⟩ := Sound.release (n := 1) hsound hlast
    obtain ⟨hsound'', hfades''⟩ := Sound.release (n := 0) hsound' h
    have hall := hfades.trans (hfades'.trans hfades'')
    refine ⟨hsound''.weaken u, .of_fades (v := { w with frames }.setTimer t (some timer')) rfl rfl ?_ hall ?_⟩
    · intro v x hx
      obtain ⟨rfl, rfl⟩ | ⟨-, hx⟩ := timers_setTimer_cases hx
      · exact ⟨timer, htimer, hsame, hdue.imp_left And.left⟩
      · exact ⟨x, hx, rfl, .inl rfl⟩
    · rintro - f frames' hpop' v hf x hx
      rw [hpop] at hpop'
      obtain ⟨rfl, rfl⟩ := Prod.mk.inj (some.inj hpop')
      rcases hf with hf | hf
      · obtain ⟨rfl, rfl⟩ := handled.inj hf
        obtain ⟨y, hy, -, hdue'⟩ := hall.timers t x hx
        rw [timers_setTimer_self] at hy
        obtain rfl := some.inj hy
        have hnone : timer'.dueBy = none := hdue.resolve_left fun h => by cases h.2
        exact hdue'.elim (fun h => h.trans hnone) id
      · cases hf
  · next t r frames hpop =>
    have hreframe : Sound t 0 { w with frames } := by
      apply (hs.weaken t).reframe (fun v => (handles_popFrame hpop v).symm) (fun _ _ _ => mem_popFrame hpop)
      intro v
      rw [share_popFrame hpop v, share]
      omega
    obtain ⟨hsound, hfades, hinvalid⟩ := hreframe.invalidateUnless h
    refine ⟨hsound.weaken u, .of_fades_frames hfades ?_⟩
    rintro - f frames' hpop' v hf x hx
    rw [hpop] at hpop'
    obtain ⟨rfl, rfl⟩ := Prod.mk.inj (some.inj hpop')
    rcases hf with hf | hf
    · cases hf
    · obtain ⟨rfl, rfl⟩ := fired.inj hf
      exact hinvalid rfl x hx
  · cases h

lemma Sound.allocRunLoop {runLoop : Id} (hs : Sound u 0 w) (h : w.allocRunLoop runLoop = .ok w') :
    Sound u 0 w' ∧ Punctual w (thread, .allocRunLoop runLoop) w' := by
  obtain ⟨_, hfresh, h⟩ := bind_eq_ok.mp h
  obtain ⟨hnil, hfresh⟩ := assert_eq_ok.mp hfresh
  obtain rfl := ok.inj h
  refine ⟨{ hs with loops := ?_, unscheduled := ?_, shared := ?_ }, le_rfl, .inl rfl, ?_, ?_⟩
  · exact ⟨nodup_cons.mpr ⟨hfresh, hs.loops.1⟩, fun hin => hs.loops.2 ((mem_cons.mp hin).resolve_left (Ne.symm hnil))⟩
  · exact fun rl hrl => hs.unscheduled rl fun hin => hrl (mem_cons_of_mem _ hin)
  · intro v
    have hempty := hs.unscheduled runLoop hfresh
    have hshared := hs.shared v
    unfold shares at hshared ⊢
    rw [map_cons, sum_cons, hempty, count_nil, zero_add]
    exact hshared
  · exact fun v x hx => .inr ⟨x, hx, rfl, .kept rfl⟩
  · rintro ⟨⟩

lemma Sound.created (hs : Sound u 0 w) (hcount : timer.refcount = 1) (hserial : timer.serial = w.created)
    (hrunning : timer.isRunningCallback = false) (hc : c.2 ≠ .ret) (h : w.alloc t timer = .ok w') :
    Sound u 0 w' ∧ Punctual w c w' := by
  obtain ⟨hsound, hstarted, hnow, hold⟩ := hs.alloc (hcount ▸ one_pos) hserial hrunning h
  refine ⟨hsound, hnow.ge, .inl hstarted, fun v x hx => ?_, fun hret => absurd hret hc⟩
  exact (hold v x hx).imp_right fun hx => ⟨x, hx, rfl, .kept rfl⟩

def Live (w : TimerWorld) (c : ThreadId × TimerCall) : Prop :=
  match c.2 with
  | .release t => w.shares t < w.refcount t
  | _ => True

lemma Sound.step (hs : Sound nil 0 w) (hlive : Live w c) (h : w.step c = .ok w') :
    Sound nil 0 w' ∧ Punctual w c w' := by
  obtain ⟨thread, call⟩ := c
  cases call with
  | sleep duration =>
    obtain ⟨now, hnow, h⟩ := bind_eq_ok.mp h
    obtain rfl := ok.inj h
    have hle : w.now ≤ now := by
      have hnow := unwrap_eq_ok.mp hnow
      unfold checkedAdd at hnow
      split_ifs at hnow
      have := some.inj hnow
      omega
    refine ⟨⟨hs.loops, hs.unscheduled, hs.shared, hs.running, hs.repeats, hs.serials, hs.distinct, hs.once,
      hs.idle, hs.alive, hs.gone, hs.unborn⟩, hle, .inl rfl, ?_, ?_⟩
    · exact fun v x hx => .inr ⟨x, hx, rfl, .kept rfl⟩
    · rintro ⟨⟩
  | allocRunLoop runLoop => exact hs.allocRunLoop h
  | timerWithTimeInterval t interval target selector userInfo repeats =>
    exact hs.created rfl rfl rfl (by rintro ⟨⟩) h
  | timerWithInvocation t interval invocation repeats => exact hs.created rfl rfl rfl (by rintro ⟨⟩) h
  | initWithFireDate t date interval target selector userInfo repeats =>
    exact hs.created rfl rfl rfl (by rintro ⟨⟩) h
  | retain t =>
    obtain ⟨timer, htimer, h'⟩ := bind_eq_ok.mp h
    obtain rfl := ok.inj h'
    refine ⟨((hs.weaken t).retain h).weaken nil, ?_⟩
    have hbecomes : timer.Becomes { timer with refcount := timer.refcount + 1 } := ⟨rfl, rfl, rfl, rfl, id⟩
    apply Punctual.of_setTimer (unwrap_eq_ok.mp htimer) hbecomes.serial (.kept rfl)
    rintro ⟨⟩
  | release t =>
    have hspare : Sound t 1 w := by
      refine { hs.weaken t with shared := fun v => ?_ }
      have hshared := (hs.weaken t).shared v
      have hlt : w.shares t < w.refcount t := hlive
      by_cases hv : v = t
      · subst hv
        rw [if_pos rfl]
        omega
      · rwa [if_neg hv] at hshared ⊢
    obtain ⟨hsound, hfades⟩ := Sound.release (n := 0) hspare h
    refine ⟨hsound.weaken nil, .of_fades_frames hfades ?_⟩
    rintro ⟨⟩
  | addTimer runLoop t => exact hs.addTimer h
  | invalidate t =>
    obtain ⟨hsound, hfades, -⟩ := (hs.weaken t).invalidate h
    refine ⟨hsound.weaken nil, .of_fades_frames hfades ?_⟩
    rintro ⟨⟩
  | fire t => exact hs.fire h
  | setFireDate t interval => exact hs.setFireDate h
  | setTimeInterval t interval => exact hs.setTimeInterval h
  | runLoop runLoop => exact hs.runRunLoop h
  | advance => exact hs.advance h
  | ret => exact hs.doReturn h

end TimerWorld

end TouchHle.Foundation
