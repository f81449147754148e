import TouchHle.Lib.Runs

/-! Initialisation that is to happen once: `pthread_once`, `dispatch_once` with its variants, and the
guards of function-local statics. -/

namespace TouchHle.Threads.Once

open Lib List Except Function

inductive Predicate
  | pthread (onceControl : ℕ)
  | dispatch (predicate : ℕ)
  | guard (guard : ℕ)
  deriving DecidableEq

structure PthreadOnce where
  magic : ℕ
  init : ℕ
  deriving DecidableEq

def magicOnce : ℕ := 0x30B1BCBA

structure Call where
  routine : ℕ
  args : List ℕ
  deriving DecidableEq

inductive Answer
  | calls (c : Call)
  | nothing
  | returns
  deriving DecidableEq

/-- An initialisation that a thread is in: a routine, or the code between `__cxa_guard_acquire` and
`__cxa_guard_release`. -/
structure Frame where
  predicate : Predicate
  call : Option Call
  deriving DecidableEq

inductive Event
  | started (p : Predicate)
  | completed (p : Predicate)
  | done (p : Predicate)
  deriving DecidableEq

structure World where
  onceControls : ℕ → PthreadOnce
  onceTokens : Finset ℕ
  predicates : ℕ → ℤ
  guards : ℕ → ℕ
  frames : ℕ → List Frame
  trace : List Event

namespace World

def pthreadOnce (w : World) (onceControl initRoutine : ℕ) : Answer × World :=
  let ⟨magic, init⟩ := w.onceControls onceControl
  let marked := { w with
    onceControls := Function.update w.onceControls onceControl ⟨magicOnce, 0xFFFFFFFF⟩ }
  -- anything else than a `pthread_once_t` is taken for a fresh one
  if magic ≠ magicOnce then (.calls ⟨initRoutine, []⟩, marked)
  else if init = 0 then (.calls ⟨initRoutine, []⟩, marked)
  else (.returns, w)

def dispatchOnceMark (w : World) (predicate : ℕ) : World :=
  { w with
    onceTokens := insert predicate w.onceTokens
    predicates := Function.update w.predicates predicate (-1) }

def dispatchOnce (w : World) (predicate block : ℕ) : Answer × World :=
  if predicate ∈ w.onceTokens then (.returns, w)
  else (if block ≠ 0 then .calls ⟨block, []⟩ else .nothing, w.dispatchOnceMark predicate)

def dispatchOnceF (w : World) (predicate context work : ℕ) : Answer × World :=
  if predicate ∈ w.onceTokens then (.returns, w)
  else (if work ≠ 0 then .calls ⟨work, [context]⟩ else .nothing, w.dispatchOnceMark predicate)

def swiftOnce (w : World) (predicate function context : ℕ) : Answer × World :=
  w.dispatchOnceF predicate context function

def cxaGuardAcquire (w : World) (guard : ℕ) : ℕ × World :=
  if w.guards guard ≠ 0 then (0, w)
  else (1, { w with guards := Function.update w.guards guard 1 })

def cxaGuardRelease (w : World) (guard : ℕ) : World :=
  { w with guards := Function.update w.guards guard 1 }

def start (w : World) (t : ℕ) (p : Predicate) (call : Option Call) : World :=
  { w with
    frames := Function.update w.frames t (⟨p, call⟩ :: w.frames t)
    trace := .started p :: w.trace }

def proceed (w : World) (t : ℕ) (p : Predicate) : Answer → World
  | .calls c => w.start t p (some c)
  | .nothing => { w with trace := .done p :: .completed p :: w.trace }
  | .returns => { w with trace := .done p :: w.trace }

end World

inductive Request
  | pthreadOnce (t onceControl initRoutine : ℕ)
  | dispatchOnce (t predicate block : ℕ)
  | dispatchOnceF (t predicate context work : ℕ)
  | swiftOnce (t predicate function context : ℕ)
  | cxaGuardAcquire (t guard : ℕ)
  | cxaGuardRelease (t guard : ℕ)
  | ret (t : ℕ)

def Request.asks : Request → Option Predicate
  | .pthreadOnce _ onceControl _ => some (.pthread onceControl)
  | .dispatchOnce _ predicate _ => some (.dispatch predicate)
  | .dispatchOnceF _ predicate _ _ => some (.dispatch predicate)
  | .swiftOnce _ predicate _ _ => some (.dispatch predicate)
  | .cxaGuardAcquire _ guard => some (.guard guard)
  | .cxaGuardRelease _ _ => none
  | .ret _ => none

def World.step (w : World) : Request → Checked World
  | .pthreadOnce t onceControl initRoutine =>
    let (answer, w) := w.pthreadOnce onceControl initRoutine
    return w.proceed t (.pthread onceControl) answer
  | .dispatchOnce t predicate block =>
    let (answer, w) := w.dispatchOnce predicate block
    return w.proceed t (.dispatch predicate) answer
  | .dispatchOnceF t predicate context work =>
    let (answer, w) := w.dispatchOnceF predicate context work
    return w.proceed t (.dispatch predicate) answer
  | .swiftOnce t predicate function context =>
    let (answer, w) := w.swiftOnce predicate function context
    return w.proceed t (.dispatch predicate) answer
  | .cxaGuardAcquire t guard =>
    let (needed, w) := w.cxaGuardAcquire guard
    if needed = 1 then return w.start t (.guard guard) none
    else return { w with trace := .done (.guard guard) :: w.trace }
  | .cxaGuardRelease t guard =>
    match w.frames t with
    | f :: rest => do
      assert (f = ⟨.guard guard, none⟩)
      return { w.cxaGuardRelease guard with
        frames := Function.update w.frames t rest
        trace := .completed (.guard guard) :: w.trace }
    | [] => .error .index
  | .ret t =>
    match w.frames t with
    | ⟨p, some _⟩ :: rest =>
      return { w with
        frames := Function.update w.frames t rest
        trace := .done p :: .completed p :: w.trace }
    | _ => .error .index

end TouchHle.Threads.Once

/-! An initialisation is started once, and its callers are told that it is done when it has
completed: in the runs in which nobody asks for it while it goes on, and in no others. -/

namespace TouchHle.Threads.Once

open Lib List Except Function

def OnceDone : List Event → Prop
  | [] => True
  | .started p :: earlier => .started p ∉ earlier ∧ OnceDone earlier
  | .completed _ :: earlier => OnceDone earlier
  | .done p :: earlier => .completed p ∈ earlier ∧ OnceDone earlier

structure Fresh (w : World) : Prop where
  onceControls : ∀ a, (w.onceControls a).magic = magicOnce → (w.onceControls a).init = 0
  onceTokens : w.onceTokens = ∅
  guards : ∀ a, w.guards a = 0
  frames : ∀ t, w.frames t = []
  trace : w.trace = []

def Use (w : World) (r : Request) : Prop :=
  ∀ p ∈ r.asks, .started p ∈ w.trace → .completed p ∈ w.trace

instance (w : World) (r : Request) : Decidable (Use w r) := by
  unfold Use
  infer_instance

def World.Marked (w : World) : Predicate → Prop
  | .pthread a => (w.onceControls a).magic = magicOnce ∧ (w.onceControls a).init ≠ 0
  | .dispatch a => a ∈ w.onceTokens
  | .guard a => w.guards a ≠ 0

structure Kept (w : World) : Prop where
  once : OnceDone w.trace
  marked : ∀ p, w.Marked p ↔ .started p ∈ w.trace ∨ .completed p ∈ w.trace
  entered : ∀ t, ∀ f ∈ w.frames t, .started f.predicate ∈ w.trace

/-- What a request does: the caller is told that it is done, it begins with the initialisation,
there is nothing to initialise, or an initialisation ends. -/
inductive Moves (w w' : World) (r : Request) : Prop
  | told (p : Predicate) (hasks : r.asks = some p) (hmarked : w.Marked p)
      (hnew : w' = { w with trace := .done p :: w.trace })
  | begun (t : ℕ) (f : Frame) (hasks : r.asks = some f.predicate) (hfree : ¬ w.Marked f.predicate)
      (hmarks : ∀ q, w'.Marked q ↔ q = f.predicate ∨ w.Marked q)
      (hframes : w'.frames = Function.update w.frames t (f :: w.frames t))
      (htrace : w'.trace = .started f.predicate :: w.trace)
  | skipped (p : Predicate) (hasks : r.asks = some p) (hfree : ¬ w.Marked p)
      (hmarks : ∀ q, w'.Marked q ↔ q = p ∨ w.Marked q) (hframes : w'.frames = w.frames)
      (htrace : w'.trace = .done p :: .completed p :: w.trace)
  | ended (t : ℕ) (f : Frame) (rest : List Frame) (hasks : r.asks = none)
      (hin : w.frames t = f :: rest) (hkept : ∀ q, w.Marked q → w'.Marked q)
      (hmarks : ∀ q, w'.Marked q → q = f.predicate ∨ w.Marked q)
      (hframes : w'.frames = Function.update w.frames t rest)
      (htrace : w'.trace = .completed f.predicate :: w.trace ∨
        w'.trace = .done f.predicate :: .completed f.predicate :: w.trace)

section

variable {w w' : World} {r : Request} {t a context routine : ℕ} {p q : Predicate}

lemma marked_congr (hcontrols : w'.onceControls = w.onceControls)
    (htokens : w'.onceTokens = w.onceTokens) (hguards : w'.guards = w.guards) :
    w'.Marked q ↔ w.Marked q := by
  cases q with
  | pthread b => simp only [World.Marked, hcontrols]
  | dispatch b => simp only [World.Marked, htokens]
  | guard b => simp only [World.Marked, hguards]

lemma marked_control : { w with
    onceControls := update w.onceControls a ⟨magicOnce, 0xFFFFFFFF⟩ }.Marked q ↔
      q = .pthread a ∨ w.Marked q := by
  cases q with
  | pthread b =>
    by_cases hb : b = a
    · subst hb
      simp [World.Marked]
    · simp [World.Marked, hb]
  | dispatch b => simp [World.Marked]
  | guard b => simp [World.Marked]

lemma marked_token : (w.dispatchOnceMark a).Marked q ↔ q = .dispatch a ∨ w.Marked q := by
  cases q with
  | pthread b => simp [World.Marked, World.dispatchOnceMark]
  | dispatch b => simp [World.Marked, World.dispatchOnceMark]
  | guard b => simp [World.Marked, World.dispatchOnceMark]

lemma marked_guard : { w with guards := update w.guards a 1 }.Marked q ↔
    q = .guard a ∨ w.Marked q := by
  cases q with
  | pthread b => simp [World.Marked]
  | dispatch b => simp [World.Marked]
  | guard b =>
    by_cases hb : b = a
    · subst hb
      simp [World.Marked]
    · simp [World.Marked, hb]

lemma moves_pthreadOnce (hasks : r.asks = some (.pthread a))
    (h : (w.pthreadOnce a routine).2.proceed t (.pthread a) (w.pthreadOnce a routine).1 = w') :
    Moves w w' r := by
  subst h
  by_cases hm : w.Marked (.pthread a)
  · have hret : w.pthreadOnce a routine = (.returns, w) :=
      (if_neg (not_not.mpr hm.1)).trans (if_neg hm.2)
    rw [hret]
    exact .told _ hasks hm rfl
  · have hcall : w.pthreadOnce a routine = (.calls ⟨routine, []⟩, { w with
        onceControls := update w.onceControls a ⟨magicOnce, 0xFFFFFFFF⟩ }) := by
      by_cases hmagic : (w.onceControls a).magic = magicOnce
      · have hinit : (w.onceControls a).init = 0 := not_not.mp fun hinit => hm ⟨hmagic, hinit⟩
        exact (if_neg (not_not.mpr hmagic)).trans (if_pos hinit)
      · exact if_pos hmagic
    rw [hcall]
    refine .begun t ⟨.pthread a, some ⟨routine, []⟩⟩ hasks hm (fun q => ?_) rfl rfl
    exact (marked_congr rfl rfl rfl).trans marked_control

lemma moves_dispatch {answer : Answer} (hasks : r.asks = some (.dispatch a))
    (hanswer : answer ≠ .returns) (hfree : ¬ w.Marked (.dispatch a))
    (h : (w.dispatchOnceMark a).proceed t (.dispatch a) answer = w') : Moves w w' r := by
  subst h
  cases answer with
  | calls c =>
    refine .begun t ⟨.dispatch a, some c⟩ hasks hfree (fun q => ?_) rfl rfl
    exact (marked_congr (w := w.dispatchOnceMark a) rfl rfl rfl).trans marked_token
  | nothing =>
    refine .skipped _ hasks hfree (fun q => ?_) rfl rfl
    exact (marked_congr (w := w.dispatchOnceMark a) rfl rfl rfl).trans marked_token
  | returns => exact absurd rfl hanswer

lemma moves_dispatchOnce (hasks : r.asks = some (.dispatch a))
    (h : (w.dispatchOnce a routine).2.proceed t (.dispatch a) (w.dispatchOnce a routine).1 = w') :
    Moves w w' r := by
  rw [World.dispatchOnce] at h
  split at h
  · rename_i hm
    exact .told _ hasks hm h.symm
  · rename_i hm
    exact moves_dispatch hasks (by split <;> exact (by rintro ⟨⟩)) hm h

lemma moves_dispatchOnceF (hasks : r.asks = some (.dispatch a))
    (h : (w.dispatchOnceF a context routine).2.proceed t (.dispatch a)
      (w.dispatchOnceF a context routine).1 = w') : Moves w w' r := by
  rw [World.dispatchOnceF] at h
  split at h
  · rename_i hm
    exact .told _ hasks hm h.symm
  · rename_i hm
    exact moves_dispatch hasks (by split <;> exact (by rintro ⟨⟩)) hm h

lemma step_moves (h : w.step r = .ok w') : Moves w w' r := by
  cases r with
  | pthreadOnce t a routine => exact moves_pthreadOnce rfl (ok.inj h)
  | dispatchOnce t a block => exact moves_dispatchOnce rfl (ok.inj h)
  | dispatchOnceF t a context work => exact moves_dispatchOnceF rfl (ok.inj h)
  | swiftOnce t a function context => exact moves_dispatchOnceF rfl (ok.inj h)
  | cxaGuardAcquire t a =>
    by_cases hm : w.guards a = 0
    · have hneeded : w.cxaGuardAcquire a =
          (1, { w with guards := update w.guards a 1 }) := if_neg (not_not.mpr hm)
      rw [World.step, hneeded] at h
      obtain rfl := ok.inj h
      refine .begun t ⟨.guard a, none⟩ rfl (not_not.mpr hm) (fun q => ?_) rfl rfl
      exact (marked_congr (w := { w with guards := update w.guards a 1 }) rfl rfl rfl).trans
        marked_guard
    · have hdone : w.cxaGuardAcquire a = (0, w) := if_pos hm
      rw [World.step, hdone] at h
      exact .told (.guard a) rfl hm (ok.inj h).symm
  | cxaGuardRelease t a =>
    rw [World.step] at h
    split at h
    · rename_i f rest hin
      obtain ⟨_, hf, hend⟩ := bind_eq_ok.mp h
      obtain rfl := assert_eq_ok.mp hf
      obtain rfl := ok.inj hend
      refine .ended t ⟨.guard a, none⟩ rest rfl hin (fun q hq => ?_) (fun q hq => ?_) rfl (.inl rfl)
      · exact (marked_congr (w := { w with guards := update w.guards a 1 }) rfl rfl rfl).mpr
          (marked_guard.mpr (.inr hq))
      · exact marked_guard.mp ((marked_congr rfl rfl rfl).mp hq)
    · cases h
  | ret t =>
    rw [World.step] at h
    split at h
    · rename_i p call rest hin
      obtain rfl := ok.inj h
      refine .ended t ⟨p, some call⟩ rest rfl hin (fun q hq => ?_) (fun q hq => .inr ?_) rfl (.inr rfl)
      · exact (marked_congr rfl rfl rfl).mpr hq
      · exact (marked_congr rfl rfl rfl).mp hq
    · cases h

lemma kept_start (h : Fresh w) : Kept w := by
  refine ⟨?_, fun p => ?_, fun t f hf => ?_⟩
  · rw [h.trace]
    trivial
  · rw [h.trace]
    constructor
    · intro hm
      cases p with
      | pthread a => exact absurd (h.onceControls a hm.1) hm.2
      | dispatch a =>
        have ha : a ∈ w.onceTokens := hm
        rw [h.onceTokens] at ha
        exact absurd ha (Finset.notMem_empty a)
      | guard a => exact absurd (h.guards a) hm
    · rintro (hp | hp) <;> exact absurd hp not_mem_nil
  · rw [h.frames t] at hf
    exact absurd hf not_mem_nil

lemma Kept.step (h : Kept w) (huse : Use w r) (hstep : w.step r = .ok w') : Kept w' := by
  cases step_moves hstep with
  | told p hasks hmarked hnew =>
    subst hnew
    have hdone : .completed p ∈ w.trace := ((h.marked p).mp hmarked).elim (huse p hasks) id
    refine ⟨⟨hdone, h.once⟩, fun q => ?_, fun t f hf => ?_⟩
    · apply ((marked_congr rfl rfl rfl).trans (h.marked q)).trans
      simp
    · exact mem_cons_of_mem _ (h.entered t f hf)
  | begun t f hasks hfree hmarks hframes htrace =>
    have hnew : .started f.predicate ∉ w.trace := fun hp => hfree ((h.marked _).mpr (.inl hp))
    refine ⟨?_, fun q => ?_, fun t' f' hf' => ?_⟩
    · rw [htrace]
      exact ⟨hnew, h.once⟩
    · rw [hmarks q, h.marked q, htrace]
      simp [or_assoc]
    · rw [htrace]
      rw [hframes] at hf'
      by_cases ht : t' = t
      · subst ht
        rw [update_self] at hf'
        obtain rfl | hf' := mem_cons.mp hf'
        · exact mem_cons_self
        · exact mem_cons_of_mem _ (h.entered _ f' hf')
      · rw [update_of_ne ht] at hf'
        exact mem_cons_of_mem _ (h.entered t' f' hf')
  | skipped p hasks hfree hmarks hframes htrace =>
    refine ⟨?_, fun q => ?_, fun t f hf => ?_⟩
    · rw [htrace]
      exact ⟨mem_cons_self, h.once⟩
    · rw [hmarks q, h.marked q, htrace]
      simp only [mem_cons, Event.completed.injEq, reduceCtorEq, false_or]
      tauto
    · rw [htrace]
      rw [hframes] at hf
      exact mem_cons_of_mem _ (mem_cons_of_mem _ (h.entered t f hf))
  | ended t f rest hasks hin hkept hmarks hframes htrace =>
    have hf : .started f.predicate ∈ w.trace :=
      h.entered t f (by rw [hin]; exact mem_cons_self)
    have hmem : ∀ q, (.started q ∈ w'.trace ∨ .completed q ∈ w'.trace) ↔
        q = f.predicate ∨ .started q ∈ w.trace ∨ .completed q ∈ w.trace := by
      intro q
      obtain htrace | htrace := htrace <;> rw [htrace] <;>
        simp only [mem_cons, Event.completed.injEq, reduceCtorEq, false_or] <;> tauto
    refine ⟨?_, fun q => ?_, fun t' f' hf' => ?_⟩
    · obtain htrace | htrace := htrace <;> rw [htrace]
      · exact h.once
      · exact ⟨mem_cons_self, h.once⟩
    · rw [hmem q, ← h.marked q]
      constructor
      · exact hmarks q
      · rintro (rfl | hq)
        · exact hkept _ ((h.marked _).mpr (.inl hf))
        · exact hkept q hq
    · have hin' : f' ∈ w.frames t' := by
        rw [hframes] at hf'
        by_cases ht : t' = t
        · subst ht
          rw [update_self] at hf'
          rw [hin]
          exact mem_cons_of_mem _ hf'
        · rwa [update_of_ne ht] at hf'
      have hold := h.entered t' f' hin'
      obtain htrace | htrace := htrace <;> rw [htrace]
      · exact mem_cons_of_mem _ hold
      · exact mem_cons_of_mem _ (mem_cons_of_mem _ hold)

lemma Kept.told_early (h : Kept w) (huse : ¬ Use w r) (hstep : w.step r = .ok w') :
    ¬ OnceDone w'.trace := by
  obtain ⟨p, hp, hstarted, hopen⟩ : ∃ p ∈ r.asks, .started p ∈ w.trace ∧ .completed p ∉ w.trace := by
    simpa only [Use, not_forall, exists_prop] using huse
  have hmarked : w.Marked p := (h.marked p).mpr (.inl hstarted)
  have hsame : ∀ {q}, r.asks = some q → q = p := fun hq => Option.some.inj (hq.symm.trans hp)
  cases step_moves hstep with
  | told q hasks _ hnew =>
    subst hnew
    obtain rfl := hsame hasks
    exact fun hdone => hopen hdone.1
  | begun _ f hasks hfree => exact absurd (hsame hasks ▸ hmarked) hfree
  | skipped q hasks hfree => exact absurd (hsame hasks ▸ hmarked) hfree
  | ended _ _ _ hasks => cases hasks.symm.trans hp

lemma onceDone_back (hstep : w.step r = .ok w') (h : OnceDone w'.trace) : OnceDone w.trace := by
  cases step_moves hstep with
  | told p _ _ hnew =>
    subst hnew
    exact h.2
  | begun _ f _ _ _ _ htrace =>
    rw [htrace] at h
    exact h.2
  | skipped p _ _ _ _ htrace =>
    rw [htrace] at h
    exact h.2
  | ended _ f _ _ _ _ _ _ htrace =>
    obtain htrace | htrace := htrace <;> rw [htrace] at h
    · exact h
    · exact h.2

/-- For every interleaving of the threads. -/
theorem onceDone_iff (start w : World) (rs : List Request) (hfresh : Fresh start)
    (hrun : run World.step start rs = .ok w) :
    OnceDone w.trace ↔ Along World.step Use start rs :=
  run_holds_iff_along (I := Kept) (Q := fun w => OnceDone w.trace)
    (fun _ _ _ h huse hstep => h.step huse hstep) (fun _ _ _ h huse hstep => h.told_early huse hstep)
    (fun _ _ _ hstep h => onceDone_back hstep h) (fun _ h => h.once) (kept_start hfresh) hrun

end

def freshWorld : World where
  onceControls _ := ⟨magicOnce, 0⟩
  onceTokens := ∅
  predicates _ := 0
  guards _ := 0
  frames _ := []
  trace := []

lemma fresh_freshWorld : Fresh freshWorld :=
  ⟨fun _ _ => rfl, rfl, fun _ => rfl, fun _ => rfl, rfl⟩

def nestedCalls : List Request :=
  [.pthreadOnce 0 0x1000 0x8000, .dispatchOnce 0 0x1010 0x9000, .cxaGuardAcquire 1 0x1020,
    .ret 0, .ret 0, .cxaGuardRelease 1 0x1020, .pthreadOnce 1 0x1000 0x8000,
    .swiftOnce 1 0x1010 0x9000 0, .cxaGuardAcquire 0 0x1020]

theorem onceDone_iff_nested : ∃ w, run World.step freshWorld nestedCalls = .ok w ∧
    (OnceDone w.trace ↔ Along World.step Use freshWorld nestedCalls) := by
  obtain ⟨w, hw, -⟩ := exists_of_succeedsWith (p := fun _ => true)
    (x := run World.step freshWorld nestedCalls) (by decide)
  exact ⟨w, hw, onceDone_iff freshWorld w nestedCalls fresh_freshWorld hw⟩

theorem not_onceDone : ¬ ∀ (start w : World) (rs : List Request), Fresh start →
    run World.step start rs = .ok w → OnceDone w.trace := by
  intro hall
  have hrun : run World.step freshWorld [.pthreadOnce 0 0x1000 0x8000, .pthreadOnce 1 0x1000 0x8000] =
      .ok ((freshWorld.pthreadOnce 0x1000 0x8000).2.proceed 0 (.pthread 0x1000)
        (.calls ⟨0x8000, []⟩) |>.proceed 1 (.pthread 0x1000) .returns) := rfl
  exact absurd (hall freshWorld _ _ fresh_freshWorld hrun).1 (by decide)

end TouchHle.Threads.Once
