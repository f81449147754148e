import TouchHle.Lib.Vec
import TouchHle.Objc.Objects

namespace TouchHle.Foundation

open Lib Objc

export Objc (Id)

def durationBound : ℕ := 2 ^ 64 * 10 ^ 9
def instantBound : ℕ := 2 ^ 63 * 10 ^ 9

def checkedAdd (i duration : ℕ) : Option ℕ :=
  if i + duration < instantBound then some (i + duration) else none

def durationCheckedMul (duration n : ℕ) : Option ℕ :=
  if duration * n < durationBound then some (duration * n) else none

def timeIntervalToDurationOrZero (interval : ℤ) : ℕ :=
  if 0 ≤ interval ∧ interval.toNat < durationBound then interval.toNat else 0

def sanitizeInterval (interval : ℤ) : ℤ := if 100000 < interval then interval else 100000

lemma le_sanitizeInterval (interval : ℤ) : 100000 ≤ sanitizeInterval interval := by
  unfold sanitizeInterval
  split_ifs <;> omega

structure TimerInterval where
  nsInterval : ℤ
  rustInterval : ℕ
  le : 100000 ≤ nsInterval
  sync : rustInterval = timeIntervalToDurationOrZero nsInterval

def TimerInterval.sanitized (interval : ℤ) : TimerInterval :=
  ⟨sanitizeInterval interval, timeIntervalToDurationOrZero (sanitizeInterval interval),
    le_sanitizeInterval interval, rfl⟩

structure NSTimer where
  interval : TimerInterval
  target : Id
  selector : ℕ
  userInfo : Id
  /-- Invoked in place of the target, when it is not nil. -/
  invocation : Id
  repeats : Bool
  dueBy : Option ℕ
  isRunningCallback : Bool
  runLoop : Id
  refcount : ℕ
  serial : ℕ

inductive Message
  | invoke (invocation : Id)
  | send (target : Id) (selector : ℕ)
  deriving DecidableEq

structure Start where
  timer : Id
  serial : ℕ
  repeats : Bool
  fired : Bool
  message : Message
  deriving DecidableEq

inductive TimerFrame
  /-- A pass of a run loop, and the timers that it has still to handle. -/
  | pass (timers : List Id)
  /-- `handle_timer` and `fire`, while the callback runs. -/
  | handled (timer : Id) (repeats : Bool)
  | fired (timer : Id) (repeats : Bool)
  deriving DecidableEq

abbrev ThreadId := ℕ

structure TimerWorld where
  now : ℕ
  timers : Id → Option NSTimer
  runLoops : List Id
  /-- The timers of each run loop. -/
  scheduled : Id → List Id
  /-- The stacks of all threads, the latest call first. -/
  frames : List (ThreadId × TimerFrame)
  started : List Start
  /-- What each timer has retained and released. -/
  retained : List (ℕ × Id)
  released : List (ℕ × Id)
  created : ℕ

inductive TimerCall
  | sleep (duration : ℕ)
  | allocRunLoop (runLoop : Id)
  | timerWithTimeInterval (timer : Id) (interval : ℤ) (target : Id) (selector : ℕ) (userInfo : Id)
    (repeats : Bool)
  | timerWithInvocation (timer : Id) (interval : ℤ) (invocation : Id) (repeats : Bool)
  /-- The date is nil or an interval from now. -/
  | initWithFireDate (timer : Id) (date : Option ℤ) (interval : ℤ) (target : Id) (selector : ℕ)
    (userInfo : Id) (repeats : Bool)
  | retain (timer : Id)
  | release (timer : Id)
  | addTimer (runLoop timer : Id)
  | invalidate (timer : Id)
  | fire (timer : Id)
  | setFireDate (timer : Id) (interval : ℤ)
  | setTimeInterval (timer : Id) (interval : ℤ)
  /-- A pass of a run loop begins, or goes on to the next timer. -/
  | runLoop (runLoop : Id)
  | advance
  /-- The callback that was started last returns. -/
  | ret

namespace NSTimer

def owned (t : NSTimer) : List Id := [t.target, t.userInfo, t.invocation].filter (· ≠ nil)

def message (t : NSTimer) : Message :=
  if t.invocation ≠ nil then .invoke t.invocation else .send t.target t.selector

def advanceBy (t : NSTimer) (overdueBy : ℕ) : ℕ :=
  let interval := t.interval.nsInterval.toNat
  let ratio := if 0 < interval then max 1 ((overdueBy + interval - 1) / interval) else 1
  if ratio < u32Bound then ratio else 1

def nextTime (t : NSTimer) (due now : ℕ) : Checked ℕ :=
  let rustInterval := t.interval.rustInterval
  let advanceByDur := (durationCheckedMul rustInterval (t.advanceBy (now - due))).getD rustInterval
  match checkedAdd due advanceByDur with
  | some next => return next
  | none => unwrap (checkedAdd now rustInterval)

def dueAfter (t : NSTimer) (due now : ℕ) : Checked ℕ :=
  if t.repeats then t.nextTime due now else return due

end NSTimer

def popFrame (thread : ThreadId) : List (ThreadId × TimerFrame) → Option (TimerFrame × List (ThreadId × TimerFrame))
  | [] => none
  | frame :: frames =>
    if frame.1 = thread then some (frame.2, frames)
    else (popFrame thread frames).map fun r => (r.1, frame :: r.2)

namespace TimerWorld

def start : TimerWorld := ⟨0, fun _ => none, [], fun _ => [], [], [], [], [], 0⟩

variable (w : TimerWorld)

def setTimer (t : Id) (timer : Option NSTimer) : TimerWorld :=
  { w with timers := Function.update w.timers t timer }

@[simp] lemma timers_setTimer_self {t : Id} {timer : Option NSTimer} :
    (w.setTimer t timer).timers t = timer := Function.update_self ..

lemma timers_setTimer_of_ne {t u : Id} {timer : Option NSTimer} (h : u ≠ t) :
    (w.setTimer t timer).timers u = w.timers u := Function.update_of_ne h ..

lemma setTimer_setTimer {t : Id} {timer timer' : Option NSTimer} :
    (w.setTimer t timer).setTimer t timer' = w.setTimer t timer' := by
  simp only [setTimer, Function.update_idem]

def push (thread : ThreadId) (f : TimerFrame) : TimerWorld := { w with frames := (thread, f) :: w.frames }

def retain (t : Id) : Checked TimerWorld := do
  let timer ← unwrap (w.timers t)
  return w.setTimer t (some { timer with refcount := timer.refcount + 1 })

def removeTimer (runLoop t : Id) : Checked (TimerWorld × ℕ) :=
  if runLoop = nil then return (w, 0)
  else do
    assert (runLoop ∈ w.runLoops)
    let timers := w.scheduled runLoop
    let r ← Vec.swapRemoveIf (· = t) timers.length 0 timers []
    return ({ w with scheduled := Function.update w.scheduled runLoop r.1 }, r.2.length)

def detach (t : Id) : Checked (TimerWorld × ℕ) := do
  let timer ← unwrap (w.timers t)
  (w.setTimer t (some { timer with dueBy := none, runLoop := nil })).removeTimer timer.runLoop t

def dealloc (t : Id) : Checked TimerWorld := do
  let r ← w.detach t
  let timer ← unwrap (r.1.timers t)
  return { r.1.setTimer t none with released := r.1.released ++ timer.owned.map (timer.serial, ·) }

def release (t : Id) : Checked TimerWorld := do
  let timer ← unwrap (w.timers t)
  if timer.refcount = 1 then w.dealloc t
  else return w.setTimer t (some { timer with refcount := timer.refcount - 1 })

def releaseTimes (t : Id) : ℕ → TimerWorld → Checked TimerWorld
  | 0, w => return w
  | n + 1, w => do
    let w ← w.release t
    releaseTimes t n w

def invalidate (t : Id) : Checked TimerWorld := do
  let r ← w.detach t
  releaseTimes t r.2 r.1

def alloc (t : Id) (timer : NSTimer) : Checked TimerWorld := do
  assert (w.timers t = none)
  return { w.setTimer t (some timer) with
    retained := w.retained ++ timer.owned.map (timer.serial, ·)
    created := w.created + 1 }

def timerWithTimeInterval (t : Id) (interval : ℤ) (target : Id) (selector : ℕ) (userInfo : Id)
    (repeats : Bool) : Checked TimerWorld :=
  let interval := TimerInterval.sanitized interval
  let dueBy := (checkedAdd w.now interval.rustInterval).getD w.now
  w.alloc t ⟨interval, target, selector, userInfo, nil, repeats, some dueBy, false, nil, 1,
    w.created⟩

def timerWithInvocation (t : Id) (interval : ℤ) (invocation : Id) (repeats : Bool) :
    Checked TimerWorld :=
  let interval := TimerInterval.sanitized interval
  let dueBy := (checkedAdd w.now interval.rustInterval).getD w.now
  w.alloc t ⟨interval, nil, 0, nil, invocation, repeats, some dueBy, false, nil, 1, w.created⟩

def fireTime (interval : ℤ) : ℕ :=
  if interval ≤ 0 then w.now
  else
    let safeInterval := min interval (100 * 365 * 24 * 3600 * 10 ^ 9)
    (checkedAdd w.now (timeIntervalToDurationOrZero safeInterval)).getD w.now

def initWithFireDate (t : Id) (date : Option ℤ) (interval : ℤ) (target : Id) (selector : ℕ) (userInfo : Id)
    (repeats : Bool) : Checked TimerWorld :=
  let interval := TimerInterval.sanitized interval
  let dueBy := match date with
    | some timeInterval => w.fireTime timeInterval
    | none => (checkedAdd w.now interval.rustInterval).getD w.now
  w.alloc t ⟨interval, target, selector, userInfo, nil, repeats, some dueBy, false, nil, 1,
    w.created⟩

def addTimer (runLoop t : Id) : Checked TimerWorld := do
  assert (runLoop ∈ w.runLoops)
  if t ∈ w.scheduled runLoop then return w
  else do
    let timer ← unwrap (w.timers t)
    return { w.setTimer t (some { timer with refcount := timer.refcount + 1, runLoop }) with
      scheduled := Function.update w.scheduled runLoop (w.scheduled runLoop ++ [t]) }

def setFireDate (t : Id) (interval : ℤ) : Checked TimerWorld := do
  let timer ← unwrap (w.timers t)
  if timer.dueBy ≠ none then return w.setTimer t (some { timer with dueBy := some (w.fireTime interval) })
  else return w

def setTimeInterval (t : Id) (interval : ℤ) : Checked TimerWorld := do
  let timer ← unwrap (w.timers t)
  return w.setTimer t (some { timer with interval := .sanitized interval })

def call (thread : ThreadId) (t : Id) (timer : NSTimer) (fired : Bool) : TimerWorld :=
  { w.push thread (if fired then .fired t timer.repeats else .handled t timer.repeats) with
    started := ⟨t, timer.serial, timer.repeats, fired, timer.message⟩ :: w.started }

def fire (thread : ThreadId) (t : Id) : Checked TimerWorld := do
  let timer ← unwrap (w.timers t)
  if timer.dueBy = none then return w
  else return w.call thread t timer true

def handleTimer (thread : ThreadId) (t : Id) : Checked TimerWorld := do
  let timer ← unwrap (w.timers t)
  if timer.isRunningCallback then w.release t
  else
    match timer.dueBy with
    | none => w.release t
    | some due =>
      if w.now < due then w.release t
      else do
        let next ← timer.dueAfter due w.now
        let called := { timer with refcount := timer.refcount + 1, dueBy := some next, isRunningCallback := true }
        return (w.setTimer t (some called)).call thread t timer false

def retainAll : List Id → TimerWorld → Checked TimerWorld
  | [], w => return w
  | t :: ts, w => do
    let w ← w.retain t
    retainAll ts w

def runRunLoop (thread : ThreadId) (runLoop : Id) : Checked TimerWorld := do
  assert (runLoop ∈ w.runLoops)
  let w' ← retainAll (w.scheduled runLoop) w
  return w'.push thread (.pass (w.scheduled runLoop))

def advance (thread : ThreadId) : Checked TimerWorld :=
  match popFrame thread w.frames with
  | some (.pass [], frames) => return { w with frames }
  | some (.pass (t :: ts), frames) =>
    { w with frames := (thread, .pass ts) :: frames }.handleTimer thread t
  | _ => .error .assertion

def invalidateUnless (repeats : Bool) (t : Id) : Checked TimerWorld :=
  if repeats then return w else w.invalidate t

def finishHandled (t : Id) (repeats : Bool) : Checked TimerWorld := do
  let timer ← unwrap (w.timers t)
  let w := w.setTimer t (some { timer with isRunningCallback := false })
  let w ← w.invalidateUnless repeats t
  let w ← w.release t
  w.release t

def doReturn (thread : ThreadId) : Checked TimerWorld :=
  match popFrame thread w.frames with
  | some (.handled t repeats, frames) => { w with frames }.finishHandled t repeats
  | some (.fired t repeats, frames) => { w with frames }.invalidateUnless repeats t
  | _ => .error .assertion

def allocRunLoop (runLoop : Id) : Checked TimerWorld := do
  assert (runLoop ≠ nil ∧ runLoop ∉ w.runLoops)
  return { w with runLoops := runLoop :: w.runLoops }

def step (w : TimerWorld) (c : ThreadId × TimerCall) : Checked TimerWorld :=
  match c.2 with
  | .sleep duration => do
    let now ← unwrap (checkedAdd w.now duration)
    return { w with now }
  | .allocRunLoop runLoop => w.allocRunLoop runLoop
  | .timerWithTimeInterval t interval target selector userInfo repeats =>
    w.timerWithTimeInterval t interval target selector userInfo repeats
  | .timerWithInvocation t interval invocation repeats => w.timerWithInvocation t interval invocation repeats
  | .initWithFireDate t date interval target selector userInfo repeats =>
    w.initWithFireDate t date interval target selector userInfo repeats
  | .retain t => w.retain t
  | .release t => w.release t
  | .addTimer runLoop t => w.addTimer runLoop t
  | .invalidate t => w.invalidate t
  | .fire t => w.fire c.1 t
  | .setFireDate t interval => w.setFireDate t interval
  | .setTimeInterval t interval => w.setTimeInterval t interval
  | .runLoop runLoop => w.runRunLoop c.1 runLoop
  | .advance => w.advance c.1
  | .ret => w.doReturn c.1

end TimerWorld

end TouchHle.Foundation
