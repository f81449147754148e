import TouchHle.Lib.Tally
import TouchHle.Foundation.Timer

/-! What the calls do to timers: who retains them, which callbacks run, and what is recorded. -/

namespace TouchHle.Foundation

open Lib Objc
open scoped List

lemma popFrame_perm {thread : ThreadId} {l frames : List (ThreadId × TimerFrame)} {f : TimerFrame}
    (h : popFrame thread l = some (f, frames)) : (thread, f) :: frames ~ l := by
  induction l generalizing frames with
  | nil => cases h
  | cons g l ih =>
    rw [popFrame] at h
    split_ifs at h with hthread
    · obtain ⟨rfl, rfl⟩ := Prod.mk.inj (Option.some.inj h)
      rw [← hthread]
    · obtain ⟨r, hr, heq⟩ := Option.map_eq_some_iff.mp h
      obtain ⟨rfl, rfl⟩ := Prod.mk.inj heq
      exact (List.Perm.swap g (thread, r.1) r.2).trans ((ih hr).cons g)

namespace TimerFrame

def share (t : Id) : TimerFrame → ℕ
  | .pass ts => ts.count t
  | .handled t' _ => if t' = t then 2 else 0
  | .fired .. => 0

def handles (t : Id) : TimerFrame → Bool
  | .handled t' _ => t' = t
  | _ => false

lemma two_mul_handles_le (t : Id) (frames : List (ThreadId × TimerFrame)) :
    2 * frames.countP (fun f => f.2.handles t) ≤ (frames.map fun f => f.2.share t).sum := by
  induction frames with
  | nil => exact le_rfl
  | cons f frames ih =>
    rw [List.countP_cons, List.map_cons, List.sum_cons]
    have hone : 2 * (if f.2.handles t then 1 else 0) ≤ f.2.share t := by
      cases f.2 with
      | pass ts => exact Nat.zero_le _
      | handled t' r => by_cases ht : t' = t <;> simp [handles, share, ht]
      | fired t' r => exact le_rfl
    omega

end TimerFrame

structure NSTimer.Becomes (timer timer' : NSTimer) : Prop where
  serial : timer'.serial = timer.serial
  owned : timer'.owned = timer.owned
  repeats : timer'.repeats = timer.repeats
  running : timer'.isRunningCallback = timer.isRunningCallback
  valid : timer'.dueBy ≠ none → timer.dueBy ≠ none

namespace TimerWorld

variable {w w' : TimerWorld} {t u : Id} {n m : ℕ} {timer timer' : NSTimer} {thread : ThreadId}

def shares (w : TimerWorld) (t : Id) : ℕ :=
  (w.runLoops.map fun runLoop => (w.scheduled runLoop).count t).sum +
    (w.frames.map fun f => f.2.share t).sum

def refcount (w : TimerWorld) (t : Id) : ℕ := (w.timers t).elim 0 NSTimer.refcount

def isRunning (w : TimerWorld) (t : Id) : Bool := (w.timers t).elim false NSTimer.isRunningCallback

def singles (w : TimerWorld) (serial : ℕ) : ℕ :=
  w.started.countP fun s => s.serial = serial && !s.fired && !s.repeats

def retainedBy (w : TimerWorld) (serial : ℕ) : List (ℕ × Id) := w.retained.filter (·.1 = serial)
def releasedBy (w : TimerWorld) (serial : ℕ) : List (ℕ × Id) := w.released.filter (·.1 = serial)

/-- Every retain is covered by the count, of one timer with some to spare that are still to be
released; and the records agree with the timers. -/
structure Sound (t : Id) (n : ℕ) (w : TimerWorld) : Prop where
  loops : w.runLoops.Nodup ∧ nil ∉ w.runLoops
  unscheduled : ∀ runLoop ∉ w.runLoops, w.scheduled runLoop = []
  shared : ∀ u, w.shares u + (if u = t then n else 0) ≤ w.refcount u
  running : ∀ u, w.frames.countP (fun f => f.2.handles u) = if w.isRunning u then 1 else 0
  repeats : ∀ thread u r, (thread, .handled u r) ∈ w.frames → ∀ timer, w.timers u = some timer → timer.repeats = r
  serials : ∀ u timer, w.timers u = some timer → timer.serial < w.created
  distinct : ∀ u v timer timer', w.timers u = some timer → w.timers v = some timer' →
    timer.serial = timer'.serial → u = v
  once : ∀ k, w.singles k ≤ 1
  idle : ∀ u timer, w.timers u = some timer →
    (timer.repeats ∨ (timer.dueBy ≠ none ∧ timer.isRunningCallback = false)) → w.singles timer.serial = 0
  alive : ∀ u timer, w.timers u = some timer → w.releasedBy timer.serial = [] ∧
    w.retainedBy timer.serial = timer.owned.map (timer.serial, ·)
  gone : ∀ k, (∀ u timer, w.timers u = some timer → timer.serial ≠ k) → w.releasedBy k = w.retainedBy k
  unborn : ∀ k, w.created ≤ k → w.singles k = 0 ∧ w.retainedBy k = []

structure Fades (w w' : TimerWorld) : Prop where
  now : w'.now = w.now
  started : w'.started = w.started
  frames : w'.frames = w.frames
  timers : ∀ u timer', w'.timers u = some timer' → ∃ timer, w.timers u = some timer ∧
    timer.Becomes timer' ∧ (timer'.dueBy = timer.dueBy ∨ timer'.dueBy = none)

lemma Fades.trans {v : TimerWorld} (h : Fades w w') (h' : Fades w' v) : Fades w v where
  now := h'.now.trans h.now
  started := h'.started.trans h.started
  frames := h'.frames.trans h.frames
  timers u timer' htimer' := by
    obtain ⟨mid, hmid, hbecomes', hdue'⟩ := h'.timers u timer' htimer'
    obtain ⟨timer, htimer, hbecomes, hdue⟩ := h.timers u mid hmid
    refine ⟨timer, htimer, ⟨hbecomes'.serial.trans hbecomes.serial, hbecomes'.owned.trans hbecomes.owned,
      hbecomes'.repeats.trans hbecomes.repeats, hbecomes'.running.trans hbecomes.running,
      fun hvalid => hbecomes.valid (hbecomes'.valid hvalid)⟩, ?_⟩
    rcases hdue' with hdue' | hdue'
    · rwa [hdue']
    · exact .inr hdue'

lemma Sound.weaken (hs : Sound t n w) (u : Id) : Sound u 0 w where
  loops := hs.loops
  unscheduled := hs.unscheduled
  shared u := by
    have := hs.shared u
    split_ifs at this ⊢ <;> omega
  running := hs.running
  repeats := hs.repeats
  serials := hs.serials
  distinct := hs.distinct
  once := hs.once
  idle := hs.idle
  alive := hs.alive
  gone := hs.gone
  unborn := hs.unborn

lemma Sound.transfer (hs : Sound t n w) (timers : Id → Option NSTimer)
    (frames : List (ThreadId × TimerFrame))
    (hold : ∀ u timer', timers u = some timer' → ∃ timer, w.timers u = some timer ∧ timer.Becomes timer')
    (hgone : ∀ u, timers u = none → w.timers u = none)
    (hhandles : ∀ u, frames.countP (fun f => f.2.handles u) = w.frames.countP fun f => f.2.handles u)
    (hhandled : ∀ thread u r, (thread, .handled u r) ∈ frames → (thread, .handled u r) ∈ w.frames)
    (hcount : ∀ v, { w with timers, frames }.shares v + (if v = u then m else 0) ≤
      { w with timers, frames }.refcount v) : Sound u m { w with timers, frames } where
  loops := hs.loops
  unscheduled := hs.unscheduled
  shared := hcount
  running u := by
    rw [hhandles u, hs.running u]
    have hsame : { w with timers, frames }.isRunning u = w.isRunning u := by
      unfold isRunning
      dsimp only
      cases htimer' : timers u with
      | none => rw [hgone u htimer']
      | some timer' =>
        obtain ⟨timer, htimer, hbecomes⟩ := hold u timer' htimer'
        rw [htimer]
        exact hbecomes.running
    rw [hsame]
  repeats thread u r hin timer' htimer' := by
    obtain ⟨timer, htimer, hbecomes⟩ := hold u timer' htimer'
    rw [hbecomes.repeats]
    exact hs.repeats thread u r (hhandled thread u r hin) timer htimer
  serials u timer' htimer' := by
    obtain ⟨timer, htimer, hbecomes⟩ := hold u timer' htimer'
    rw [hbecomes.serial]
    exact hs.serials u timer htimer
  distinct u v timer' timer'' htimer' htimer'' hserial := by
    obtain ⟨timer, htimer, hbecomes⟩ := hold u timer' htimer'
    obtain ⟨other, hother, hbecomes'⟩ := hold v timer'' htimer''
    rw [hbecomes.serial, hbecomes'.serial] at hserial
    exact hs.distinct u v timer other htimer hother hserial
  once := hs.once
  idle u timer' htimer' h := by
    obtain ⟨timer, htimer, hbecomes⟩ := hold u timer' htimer'
    rw [hbecomes.repeats, hbecomes.running] at h
    rw [hbecomes.serial]
    exact hs.idle u timer htimer (h.imp_right fun h => ⟨hbecomes.valid h.1, h.2⟩)
  alive u timer' htimer' := by
    obtain ⟨timer, htimer, hbecomes⟩ := hold u timer' htimer'
    rw [hbecomes.serial, hbecomes.owned]
    exact hs.alive u timer htimer
  gone k hk := by
    apply hs.gone k
    intro u timer htimer
    cases htimer' : timers u with
    | none =>
      rw [hgone u htimer'] at htimer
      cases htimer
    | some timer' =>
      obtain ⟨other, hother, hbecomes⟩ := hold u timer' htimer'
      obtain rfl := Option.some.inj (htimer.symm.trans hother)
      rw [← hbecomes.serial]
      exact hk u timer' htimer'
  unborn := hs.unborn

lemma timers_setTimer_cases (h : (w.setTimer t (some timer')).timers u = some timer) :
    u = t ∧ timer = timer' ∨ u ≠ t ∧ w.timers u = some timer := by
  by_cases hu : u = t
  · subst hu
    rw [timers_setTimer_self] at h
    exact .inl ⟨rfl, (Option.some.inj h).symm⟩
  · rw [timers_setTimer_of_ne w hu] at h
    exact .inr ⟨hu, h⟩

lemma Sound.serials_setTimer (hs : Sound u n w) (htimer : w.timers t = some timer)
    (hserial : timer'.serial = timer.serial) (v : Id) (x : NSTimer)
    (hx : (w.setTimer t (some timer')).timers v = some x) : x.serial < w.created := by
  obtain ⟨-, rfl⟩ | ⟨-, hx⟩ := timers_setTimer_cases hx
  · exact hserial ▸ hs.serials t timer htimer
  · exact hs.serials v x hx

lemma Sound.serial_ne (hs : Sound u n w) (htimer : w.timers t = some timer) (v : Id) (x : NSTimer)
    (hx : w.timers v = some x) (hv : v ≠ t) : x.serial ≠ timer.serial :=
  fun heq => hv (hs.distinct v t x timer hx htimer heq)

lemma Sound.distinct_setTimer (hs : Sound u n w) (htimer : w.timers t = some timer)
    (hserial : timer'.serial = timer.serial) (v v' : Id) (x x' : NSTimer)
    (hx : (w.setTimer t (some timer')).timers v = some x)
    (hx' : (w.setTimer t (some timer')).timers v' = some x') (heq : x.serial = x'.serial) : v = v' := by
  obtain ⟨hv, hxt⟩ | ⟨hv, hw⟩ := timers_setTimer_cases hx <;>
    obtain ⟨hv', hxt'⟩ | ⟨hv', hw'⟩ := timers_setTimer_cases hx'
  · exact hv.trans hv'.symm
  · exact absurd (heq.symm.trans (hxt ▸ hserial)) (hs.serial_ne htimer v' x' hw' hv')
  · exact absurd (heq.trans (hxt' ▸ hserial)) (hs.serial_ne htimer v x hw hv)
  · exact hs.distinct v v' x x' hw hw' heq

lemma Sound.alive_setTimer (hs : Sound u n w) (htimer : w.timers t = some timer)
    (hserial : timer'.serial = timer.serial) (howned : timer'.owned = timer.owned) (v : Id) (x : NSTimer)
    (hx : (w.setTimer t (some timer')).timers v = some x) : w.releasedBy x.serial = [] ∧
      w.retainedBy x.serial = x.owned.map (x.serial, ·) := by
  obtain ⟨-, rfl⟩ | ⟨-, hx⟩ := timers_setTimer_cases hx
  · rw [hserial, howned]
    exact hs.alive t timer htimer
  · exact hs.alive v x hx

lemma Sound.gone_setTimer (hs : Sound u n w) (htimer : w.timers t = some timer)
    (hserial : timer'.serial = timer.serial) (k : ℕ)
    (hk : ∀ v x, (w.setTimer t (some timer')).timers v = some x → x.serial ≠ k) :
    w.releasedBy k = w.retainedBy k := by
  apply hs.gone k
  intro v x hx
  by_cases hv : v = t
  · subst hv
    obtain rfl := Option.some.inj (htimer.symm.trans hx)
    exact hserial ▸ hk v timer' (timers_setTimer_self w)
  · exact hk v x ((timers_setTimer_of_ne w hv).trans hx)

lemma becomes_setTimer (htimer : w.timers t = some timer) (h : timer.Becomes timer') :
    (∀ u v, (w.setTimer t (some timer')).timers u = some v →
      ∃ timer, w.timers u = some timer ∧ timer.Becomes v) ∧
      ∀ u, (w.setTimer t (some timer')).timers u = none → w.timers u = none := by
  constructor
  · intro u v hv
    obtain ⟨rfl, rfl⟩ | ⟨-, hv⟩ := timers_setTimer_cases hv
    · exact ⟨timer, htimer, h⟩
    · exact ⟨v, hv, ⟨rfl, rfl, rfl, rfl, id⟩⟩
  · intro u hu
    by_cases hut : u = t
    · subst hut
      rw [timers_setTimer_self] at hu
      cases hu
    · rwa [timers_setTimer_of_ne w hut] at hu

lemma refcount_setTimer : (w.setTimer t (some timer)).refcount u =
    if u = t then timer.refcount else w.refcount u := by
  unfold refcount
  by_cases hu : u = t
  · subst hu
    rw [timers_setTimer_self, if_pos rfl]
    rfl
  · rw [timers_setTimer_of_ne w hu, if_neg hu]

lemma refcount_eq (htimer : w.timers t = some timer) : w.refcount t = timer.refcount := by
  rw [refcount, htimer]
  rfl

lemma Sound.setTimer (hs : Sound t n w) (htimer : w.timers t = some timer) (h : timer.Becomes timer')
    (hcount : timer.refcount + m ≤ timer'.refcount + n) : Sound t m (w.setTimer t (some timer')) := by
  obtain ⟨hold, hgone⟩ := becomes_setTimer htimer h
  apply hs.transfer _ w.frames hold hgone (fun _ => rfl) (fun _ _ _ => id)
  intro u
  have hshared := hs.shared u
  change w.shares u + _ ≤ (w.setTimer t (some timer')).refcount u
  rw [refcount_setTimer]
  by_cases hu : u = t
  · subst hu
    rw [if_pos rfl, refcount_eq htimer] at hshared
    rw [if_pos rfl, if_pos rfl]
    omega
  · rw [if_neg hu] at hshared ⊢
    rwa [if_neg hu]

lemma fades_setTimer (htimer : w.timers t = some timer) (h : timer.Becomes timer')
    (hdue : timer'.dueBy = timer.dueBy ∨ timer'.dueBy = none) : Fades w (w.setTimer t (some timer')) where
  now := rfl
  started := rfl
  frames := rfl
  timers u v hv := by
    by_cases hu : u = t
    · subst hu
      rw [timers_setTimer_self] at hv
      obtain rfl := Option.some.inj hv
      exact ⟨timer, htimer, h, hdue⟩
    · rw [timers_setTimer_of_ne w hu] at hv
      exact ⟨v, hv, ⟨rfl, rfl, rfl, rfl, id⟩, .inl rfl⟩

lemma Sound.retain (hs : Sound t n w) (h : w.retain t = .ok w') : Sound t (n + 1) w' := by
  obtain ⟨timer, htimer, h⟩ := bind_eq_ok.mp h
  obtain rfl := Except.ok.inj h
  refine hs.setTimer (unwrap_eq_ok.mp htimer) ⟨rfl, rfl, rfl, rfl, id⟩ ?_
  dsimp only
  omega

lemma removeTimer_cases {runLoop : Id} {r : TimerWorld × ℕ} (h : w.removeTimer runLoop t = .ok r) :
    (runLoop = nil ∧ r = (w, 0)) ∨ (runLoop ≠ nil ∧ runLoop ∈ w.runLoops ∧ ∃ left gone,
      r = ({ w with scheduled := Function.update w.scheduled runLoop left }, gone.length) ∧
        gone ++ left ~ w.scheduled runLoop ∧ (∀ u ∈ gone, u = t) ∧ t ∉ left) := by
  unfold TimerWorld.removeTimer at h
  split_ifs at h with hnil
  · obtain rfl := Except.ok.inj h
    exact .inl ⟨hnil, rfl⟩
  · right
    obtain ⟨_, hmem, h⟩ := bind_eq_ok.mp h
    obtain ⟨left, gone, hloop, hall, hgone, hleft⟩ := Vec.swapRemoveIf_ok (fun u => u = t)
      (w.scheduled runLoop).length 0 (w.scheduled runLoop) [] (by omega) (by simp)
    dsimp only at h
    rw [hloop, ok_bind] at h
    refine ⟨hnil, assert_eq_ok.mp hmem, left, gone, (Except.ok.inj h).symm, hall, ?_, ?_⟩
    · exact fun u hu => of_decide_eq_true (hgone u hu)
    · exact fun hin => of_decide_eq_false (hleft t hin) rfl

lemma Sound.removeTimer {runLoop : Id} {r : TimerWorld × ℕ} (hs : Sound t n w)
    (h : w.removeTimer runLoop t = .ok r) : Sound t (n + r.2) r.1 ∧ Fades w r.1 ∧ r.1.timers = w.timers := by
  have htimers : ∀ u v, w.timers u = some v → ∃ timer, w.timers u = some timer ∧ timer.Becomes v ∧
      (v.dueBy = timer.dueBy ∨ v.dueBy = none) :=
    fun u v hv => ⟨v, hv, ⟨rfl, rfl, rfl, rfl, id⟩, .inl rfl⟩
  rcases removeTimer_cases h with ⟨-, rfl⟩ | ⟨-, hmem, left, gone, rfl, hall, hgone, hleft⟩
  · exact ⟨hs, ⟨rfl, rfl, rfl, htimers⟩, rfl⟩
  · have hcount : ∀ u, left.count u + (if u = t then gone.length else 0) = (w.scheduled runLoop).count u := by
      intro u
      rw [← hall.count_eq u, List.count_append]
      split_ifs with hu
      · have heq : gone.count u = gone.length :=
          List.count_eq_length.mpr fun v hv => hu.trans (hgone v hv).symm
        omega
      · have heq : gone.count u = 0 := List.count_eq_zero.mpr fun hin => hu (hgone u hin)
        omega
    refine ⟨{ hs with unscheduled := ?_, shared := ?_ }, ⟨rfl, rfl, rfl, htimers⟩, rfl⟩
    · intro rl hrl
      have hne : rl ≠ runLoop := fun heq => hrl (heq ▸ hmem)
      exact (Function.update_of_ne hne ..).trans (hs.unscheduled rl hrl)
    · intro u
      have hsum := sum_map_update (f := w.scheduled) (fun l : List Id => l.count u) left hs.loops.1 hmem
      have hshared := hs.shared u
      have hone := hcount u
      change (w.runLoops.map fun rl => (Function.update w.scheduled runLoop left rl).count u).sum +
        (w.frames.map fun f => f.2.share u).sum + (if u = t then n + gone.length else 0) ≤ w.refcount u
      unfold shares at hshared
      split_ifs at hone hshared ⊢ <;> omega

lemma Sound.detach {r : TimerWorld × ℕ} (hs : Sound t n w) (h : w.detach t = .ok r) :
    Sound t (n + r.2) r.1 ∧ Fades w r.1 ∧
      ∃ timer, r.1.timers t = some timer ∧ timer.dueBy = none ∧ timer.refcount = w.refcount t := by
  obtain ⟨timer, htimer, h⟩ := bind_eq_ok.mp h
  have htimer := unwrap_eq_ok.mp htimer
  have hbecomes : timer.Becomes { timer with dueBy := none, runLoop := nil } :=
    ⟨rfl, rfl, rfl, rfl, fun h => absurd rfl h⟩
  have hset := hs.setTimer (m := n) htimer hbecomes le_rfl
  obtain ⟨hsound, hfades, htimers⟩ := hset.removeTimer h
  refine ⟨hsound, (fades_setTimer htimer hbecomes (.inr rfl)).trans hfades,
    { timer with dueBy := none, runLoop := nil }, ?_, rfl, (refcount_eq htimer).symm⟩
  rw [htimers, timers_setTimer_self]

lemma Sound.dealloc (hs : Sound t 1 w) (hlast : w.refcount t = 1) (h : w.dealloc t = .ok w') :
    Sound t 0 w' ∧ Fades w w' ∧ w'.timers t = none := by
  obtain ⟨r, hr, h⟩ := bind_eq_ok.mp h
  obtain ⟨hsound, hfades, timer, hgone, -, hcount⟩ := hs.detach hr
  rw [hgone] at h
  obtain rfl := Except.ok.inj h
  have hnone : r.1.shares t = 0 := by
    have hshared := hsound.shared t
    rw [if_pos rfl, refcount_eq hgone] at hshared
    omega
  have hserial : ∀ u v, r.1.timers u = some v → u ≠ t → v.serial ≠ timer.serial := fun u v hv hu heq =>
    hu (hsound.distinct u t v _ hv hgone heq)
  refine ⟨?_, ⟨hfades.now, hfades.started, hfades.frames, ?_⟩, timers_setTimer_self _⟩
  · have hold : ∀ u v, (r.1.setTimer t none).timers u = some v → u ≠ t ∧ r.1.timers u = some v := by
      intro u v hv
      by_cases hu : u = t
      · subst hu
        rw [timers_setTimer_self] at hv
        cases hv
      · rw [timers_setTimer_of_ne r.1 hu] at hv
        exact ⟨hu, hv⟩
    have hreleased : ∀ k, (r.1.released ++ timer.owned.map (timer.serial, ·)).filter (·.1 = k) =
        r.1.releasedBy k ++ if timer.serial = k then timer.owned.map (timer.serial, ·) else [] := by
      intro k
      rw [List.filter_append, releasedBy]
      split_ifs with hk
      · have hall : (timer.owned.map (timer.serial, ·)).filter (·.1 = k) = timer.owned.map (timer.serial, ·) :=
          List.filter_eq_self.mpr (by simp [hk])
        rw [hall]
      · have hnone : (timer.owned.map (timer.serial, ·)).filter (·.1 = k) = [] :=
          List.filter_eq_nil_iff.mpr (by simp [hk])
        rw [hnone]
    exact {
      loops := hsound.loops
      unscheduled := hsound.unscheduled
      shared := fun u => by
        have hshared := hsound.shared u
        by_cases hu : u = t
        · subst hu
          change r.1.shares u + _ ≤ _
          rw [hnone, if_pos rfl]
          exact Nat.zero_le _
        · rw [if_neg hu] at hshared ⊢
          have hsame : (r.1.setTimer t none).refcount u = r.1.refcount u := by
            rw [refcount, timers_setTimer_of_ne r.1 hu]
            rfl
          exact hshared.trans hsame.ge
      running := fun u => by
        refine (hsound.running u).trans ?_
        by_cases hu : u = t
        · subst hu
          have hle := TimerFrame.two_mul_handles_le u r.1.frames
          have hrunning := hsound.running u
          rw [shares] at hnone
          have hfalse : (r.1.setTimer u none).isRunning u = false := by
            rw [isRunning, timers_setTimer_self]
            rfl
          have hzero : (if r.1.isRunning u then 1 else 0) = 0 := by omega
          rw [hzero]
          change 0 = if (r.1.setTimer u none).isRunning u then 1 else 0
          rw [hfalse]
          rfl
        · have hsame : (r.1.setTimer t none).isRunning u = r.1.isRunning u := by
            rw [isRunning, timers_setTimer_of_ne r.1 hu]
            rfl
          rw [← hsame]
          rfl
      repeats := fun thread u r' hin v hv => hsound.repeats thread u r' hin v (hold u v hv).2
      serials := fun u v hv => hsound.serials u v (hold u v hv).2
      distinct := fun u v x y hx hy heq => hsound.distinct u v x y (hold u x hx).2 (hold v y hy).2 heq
      once := hsound.once
      idle := fun u v hv => hsound.idle u v (hold u v hv).2
      alive := fun u v hv => by
        obtain ⟨hu, hv⟩ := hold u v hv
        obtain ⟨hreleases, hretains⟩ := hsound.alive u v hv
        refine ⟨?_, hretains⟩
        refine (hreleased v.serial).trans ?_
        rw [hreleases, if_neg (hserial u v hv hu).symm]
        rfl
      gone := fun k hk => by
        refine (hreleased k).trans ?_
        split_ifs with heq
        · obtain ⟨hreleases, hretains⟩ := hsound.alive t _ hgone
          subst heq
          exact (congrArg (· ++ _) hreleases).trans hretains.symm
        · rw [List.append_nil]
          apply hsound.gone k
          intro u v hv
          by_cases hu : u = t
          · subst hu
            obtain rfl := Option.some.inj (hgone.symm.trans hv)
            exact heq
          · apply hk u v
            exact (timers_setTimer_of_ne r.1 hu).trans hv
      unborn := hsound.unborn }
  · intro u v hv
    by_cases hu : u = t
    · subst hu
      rw [show _ = none from timers_setTimer_self r.1] at hv
      cases hv
    · exact hfades.timers u v ((timers_setTimer_of_ne r.1 hu).symm.trans hv)

lemma Sound.release (hs : Sound t (n + 1) w) (h : w.release t = .ok w') :
    Sound t n w' ∧ Fades w w' := by
  obtain ⟨timer, htimer, h⟩ := bind_eq_ok.mp h
  have htimer := unwrap_eq_ok.mp htimer
  have hcount := refcount_eq htimer
  split_ifs at h with hlast
  · have hn : n = 0 := by
      have hshared := hs.shared t
      rw [if_pos rfl] at hshared
      omega
    subst hn
    obtain ⟨hsound, hfades, -⟩ := Sound.dealloc hs (hcount.trans hlast) h
    exact ⟨hsound, hfades⟩
  · obtain rfl := Except.ok.inj h
    have hbecomes : timer.Becomes { timer with refcount := timer.refcount - 1 } := ⟨rfl, rfl, rfl, rfl, id⟩
    refine ⟨hs.setTimer htimer hbecomes ?_, fades_setTimer htimer hbecomes (.inl rfl)⟩
    have hshared := hs.shared t
    rw [if_pos rfl] at hshared
    dsimp only
    omega

lemma Sound.releaseTimes {k : ℕ} (hs : Sound t (n + k) w) (h : releaseTimes t k w = .ok w') :
    Sound t n w' ∧ Fades w w' := by
  induction k generalizing w with
  | zero =>
    obtain rfl := Except.ok.inj h
    exact ⟨hs, rfl, rfl, rfl, fun u v hv => ⟨v, hv, ⟨rfl, rfl, rfl, rfl, id⟩, .inl rfl⟩⟩
  | succ k ih =>
    obtain ⟨v, hv, h⟩ := bind_eq_ok.mp h
    obtain ⟨hsound, hfades⟩ := Sound.release (n := n + k) hs hv
    obtain ⟨hsound', hfades'⟩ := ih hsound h
    exact ⟨hsound', hfades.trans hfades'⟩

lemma Sound.invalidate (hs : Sound t n w) (h : w.invalidate t = .ok w') :
    Sound t n w' ∧ Fades w w' ∧ ∀ timer, w'.timers t = some timer → timer.dueBy = none := by
  obtain ⟨r, hr, h⟩ := bind_eq_ok.mp h
  obtain ⟨hsound, hfades, timer, hgone, hinvalid, -⟩ := hs.detach hr
  obtain ⟨hsound', hfades'⟩ := hsound.releaseTimes h
  refine ⟨hsound', hfades.trans hfades', fun v hv => ?_⟩
  obtain ⟨mid, hmid, -, hdue⟩ := hfades'.timers t v hv
  obtain rfl := Option.some.inj (hgone.symm.trans hmid)
  exact hdue.elim (fun h => h.trans hinvalid) id

end TimerWorld

end TouchHle.Foundation
