import TouchHle.Threads.Synchronization

namespace TouchHle.Threads

open Lib Function Except Option Mutex

/-- A program, with how often each thread is inside the blocks of an object, and the object whose
block a thread waits to enter. -/
structure Synchronized where
  state : SyncEnv
  inside : ℕ → ℕ → ℕ
  entering : ℕ → Option ℕ

namespace Synchronized

def boot (words : ℕ → UInt32) (nullSegmentSize : ℕ) : Synchronized :=
  ⟨.boot words nullSegmentSize, fun _ _ => 0, fun _ => none⟩

def current (w : Synchronized) : ℕ := w.state.env.current

def Running (w : Synchronized) : Prop := w.state.env.scan = none

instance (w : Synchronized) : Decidable w.Running := inferInstanceAs (Decidable (_ = _))

def enters (w : Synchronized) (obj t : ℕ) (state : SyncEnv) : Synchronized where
  state := state
  inside := update w.inside obj
    (update (w.inside obj) t (w.inside obj t + 1))
  entering := update w.entering t none

def waits (w : Synchronized) (obj : ℕ) (state : SyncEnv) : Synchronized :=
  { w with state, entering := update w.entering w.current (some obj) }

def leaves (w : Synchronized) (obj : ℕ) (state : SyncEnv) : Synchronized :=
  { w with
    state
    inside := update w.inside obj
      (update (w.inside obj) w.current (w.inside obj w.current - 1)) }

def noted (w : Synchronized) (r : Option ℤ) (state : SyncEnv) : SyncAction → Synchronized
  | .enter obj =>
    if ¬ w.Running then { w with state }
    else if r = none then w.waits obj state
    else w.enters obj w.current state
  | .exit obj => if r = some 0 then w.leaves obj state else { w with state }
  | .other _ _ =>
    match r, w.entering state.env.current with
    | some _, some obj => w.enters obj state.env.current state
    | _, _ => { w with state }

def step (w : Synchronized) (a : SyncAction) : Checked Synchronized :=
  (fun x => w.noted x.1 x.2 a) <$> w.state.serve a

structure Backs (w : Synchronized) (obj m : ℕ) (mutex : Mutex) : Prop where
  found : w.state.env.mutexes m = some mutex
  reentrant : mutex.Reentrant
  inside : w.inside obj = mutex.countOf
  used : mutex.locked ≠ none ∨ 0 < mutex.waitingCount

structure Guarded (w : Synchronized) : Prop where
  coherent : w.state.env.Coherent
  counted : w.state.env.Counted
  plain : ∀ t cond id deadline,
    (w.state.env.threads t).hostCall ≠ some (waitCall cond id deadline)
  distinct : ∀ obj obj' m, w.state.syncMutexes obj = some m → w.state.syncMutexes obj' = some m →
    obj = obj'
  backs : ∀ obj m, w.state.syncMutexes obj = some m → ∃ mutex, w.Backs obj m mutex
  absent : ∀ obj, w.state.syncMutexes obj = none → w.inside obj = fun _ => 0
  known : ∀ t obj, w.entering t = some obj → w.state.syncMutexes obj ≠ none
  blocked : ∀ t m, (w.state.env.threads t).blockedBy = .mutex m ↔
    (w.entering t).bind w.state.syncMutexes = some m

variable {w w' : Synchronized} {env' : Env} {state : SyncEnv} {obj m t : ℕ} {mutex mutex' : Mutex}
  {r : Option ℤ}

lemma guarded_boot (words : ℕ → UInt32) (nullSegmentSize : ℕ) :
    (boot words nullSegmentSize).Guarded where
  coherent := Env.coherent_boot words nullSegmentSize
  counted := Env.counted_boot words nullSegmentSize
  plain t cond id deadline := by
    by_cases ht : t = 0
    · subst ht
      simp [boot, SyncEnv.boot, Env.boot, Thread.started]
    · simp [boot, SyncEnv.boot, Env.boot, update_of_ne ht, Thread.idle]
  distinct _ _ _ h := by cases h
  backs _ _ h := by cases h
  absent _ _ := rfl
  known _ _ h := by cases h
  blocked t m := by
    have hblock : ((Env.boot words nullSegmentSize).threads t).blockedBy = .notBlocked := by
      by_cases ht : t = 0
      · subst ht
        rfl
      · simp [Env.boot, update_of_ne ht, Thread.idle]
    simp [boot, SyncEnv.boot, hblock]

lemma Guarded.entering_mutex (h : w.Guarded) (he : w.entering t = some obj) :
    ∃ m, w.state.syncMutexes obj = some m ∧ (w.state.env.threads t).blockedBy = .mutex m := by
  obtain ⟨m, hm⟩ := ne_none_iff_exists'.mp (h.known t obj he)
  exact ⟨m, hm, (h.blocked t m).mpr (by rw [he]; exact hm)⟩

lemma Guarded.not_entering (h : w.Guarded)
    (hb : ∀ m, (w.state.env.threads t).blockedBy ≠ .mutex m) : w.entering t = none := by
  cases he : w.entering t with
  | none => rfl
  | some obj =>
    obtain ⟨m, -, hm⟩ := h.entering_mutex he
    exact absurd hm (hb m)

lemma Guarded.running_not_entering (h : w.Guarded) (hrun : w.Running) :
    w.entering w.current = none := by
  apply h.not_entering
  intro m hm
  rw [current, h.coherent.notBlocked hrun] at hm
  cases hm

lemma Backs.of_ne (hb : w.Backs obj m mutex) (hmutexes : w'.state.env.mutexes m = some mutex)
    (hinside : w'.inside obj = w.inside obj) : w'.Backs obj m mutex :=
  ⟨hmutexes, hb.reentrant, hinside.trans hb.inside, hb.used⟩

lemma Guarded.exchange (h : w.Guarded) (mutex' : Mutex) (hobj : w.state.syncMutexes obj = some m)
    (hsync : w'.state.syncMutexes = w.state.syncMutexes)
    (hmutexes : w'.state.env.mutexes = update w.state.env.mutexes m (some mutex'))
    (hre : mutex'.Reentrant) (hused : mutex'.locked ≠ none ∨ 0 < mutex'.waitingCount)
    (hinside : w'.inside = update w.inside obj mutex'.countOf)
    (hcoherent : w'.state.env.Coherent) (hcounted : w'.state.env.Counted)
    (hplain : ∀ t cond id deadline,
      (w'.state.env.threads t).hostCall ≠ some (waitCall cond id deadline))
    (hknown : ∀ t obj, w'.entering t = some obj → w.state.syncMutexes obj ≠ none)
    (hblocked : ∀ t m, (w'.state.env.threads t).blockedBy = .mutex m ↔
      (w'.entering t).bind w.state.syncMutexes = some m) : w'.Guarded where
  coherent := hcoherent
  counted := hcounted
  plain := hplain
  distinct := hsync ▸ h.distinct
  backs obj' m' hobj' := by
    rw [hsync] at hobj'
    by_cases hsame : obj' = obj
    · subst hsame
      obtain rfl := some.inj (hobj'.symm.trans hobj)
      exact ⟨mutex', by rw [hmutexes, update_self], hre,
        by rw [hinside, update_self], hused⟩
    · have hne : m' ≠ m := by
        rintro rfl
        exact hsame (h.distinct _ _ _ hobj' hobj)
      obtain ⟨other, hother⟩ := h.backs obj' m' hobj'
      refine ⟨other, hother.of_ne ?_ ?_⟩
      · rw [hmutexes, update_of_ne hne]
        exact hother.found
      · rw [hinside, update_of_ne hsame]
  absent obj' hobj' := by
    rw [hsync] at hobj'
    have hne : obj' ≠ obj := by
      rintro rfl
      cases hobj'.symm.trans hobj
    rw [hinside, update_of_ne hne]
    exact h.absent obj' hobj'
  known := hsync ▸ hknown
  blocked := hsync ▸ hblocked

lemma Guarded.aside (h : w.Guarded) (hmutexes : env'.mutexes = w.state.env.mutexes)
    (hcoherent : env'.Coherent) (hcounted : env'.Counted)
    (hplain : ∀ t cond id deadline, (env'.threads t).hostCall ≠ some (waitCall cond id deadline))
    (hblocks : ∀ t m, (env'.threads t).blockedBy = .mutex m ↔
      (w.state.env.threads t).blockedBy = .mutex m) :
    ({ w with state := { w.state with env := env' } } : Synchronized).Guarded where
  coherent := hcoherent
  counted := hcounted
  plain := hplain
  distinct := h.distinct
  backs obj m hobj := by
    obtain ⟨mutex, hbacks⟩ := h.backs obj m hobj
    exact ⟨mutex, hbacks.of_ne (hmutexes ▸ hbacks.found) rfl⟩
  absent := h.absent
  known := h.known
  blocked t m := (hblocks t m).trans (h.blocked t m)

lemma Guarded.lock (h : w.Guarded) (hrun : w.Running) (hobj : w.state.syncMutexes obj = some m)
    (hbacks : w.Backs obj m mutex) (hl : mutex.Locked w.current mutex') :
    (w.enters obj w.current { w.state with env := w.state.env.setMutex m mutex' }).Guarded := by
  have hchange : w.state.env.Changes .mutex (w.state.env.setMutex m mutex') :=
    .mutex hbacks.found hl.actedOn
  have hentering : update w.entering w.current none = w.entering :=
    (congrArg _ (h.running_not_entering hrun).symm).trans (update_eq_self _ _)
  obtain ⟨hre, hcount, hlocked⟩ := hbacks.reentrant.locked hl
  refine h.exchange mutex' hobj rfl rfl hre (.inl hlocked) ?_
    (h.coherent.changes hchange)
    (h.counted.of_eq (h.coherent.waitingCount_changes hchange) hchange.sameThreads.waitingOn)
    h.plain ?_ ?_
  · rw [enters, hcount, hbacks.inside]
  · rw [enters, hentering]
    exact h.known
  · rw [enters, hentering]
    exact h.blocked

lemma Guarded.wait (h : w.Guarded) (hrun : w.Running) (hobj : w.state.syncMutexes obj = some m)
    (hbacks : w.Backs obj m mutex) {lock : Lock} (hlocked : mutex.locked = some lock)
    (hother : lock.thread ≠ w.current) :
    (w.waits obj
      ⟨(w.state.env.setMutex m { mutex with waitingCount := mutex.waitingCount + 1 }).suspend
        (.mutex m) (some .lock), w.state.syncMutexes⟩).Guarded := by
  have hblocks := Env.Blocks.onMutex hbacks.found hlocked hother
  have hinside : w.inside = update w.inside obj mutex.countOf := by
    rw [← hbacks.inside, update_eq_self]
  refine h.exchange { mutex with waitingCount := mutex.waitingCount + 1 } hobj rfl rfl
    ⟨hbacks.reentrant.type, hbacks.reentrant.phantomLocks⟩ (.inr (Nat.succ_pos _)) hinside
    (h.coherent.blocks hrun hblocks) (h.counted.blocks h.coherent hrun hblocks) ?_ ?_ ?_
  · intro t cond id deadline
    by_cases ht : t = w.state.env.current
    · subst ht
      simp only [waits, Env.suspend, Env.setThread, Env.setMutex, update_self]
      exact fun hcall => (Env.waitCall_ne cond id deadline).1 (some.inj hcall)
    · simp only [waits, Env.suspend, Env.setThread, Env.setMutex, update_of_ne ht]
      exact h.plain t cond id deadline
  · intro t obj' he
    simp only [waits, update_apply] at he
    split_ifs at he with ht
    · obtain rfl := some.inj he
      rw [hobj]
      exact some_ne_none m
    · exact h.known t obj' he
  · intro t m'
    by_cases ht : t = w.state.env.current
    · subst ht
      simp only [waits, current, Env.suspend, Env.setThread, Env.setMutex, update_self,
        bind_some, hobj, ThreadBlock.mutex.injEq, some.injEq]
    · simp only [waits, current, Env.suspend, Env.setThread, Env.setMutex, update_of_ne ht]
      exact h.blocked t m'

lemma Guarded.create (h : w.Guarded) (hrun : w.Running) (hobj : w.state.syncMutexes obj = none)
    (hcount : w.state.env.mutexCount + 1 < u64Bound)
    (hl : (new .recursive).Locked w.current mutex') :
    (w.enters obj w.current
      ⟨({ w.state.env.setMutex w.state.env.mutexCount (.new .recursive) with
          mutexCount := w.state.env.mutexCount + 1 } : Env).setMutex w.state.env.mutexCount mutex',
        update w.state.syncMutexes obj (some w.state.env.mutexCount)⟩).Guarded := by
  have hnew := Env.Changes.newMutex .recursive hcount
  have hfound : ({ w.state.env.setMutex w.state.env.mutexCount (.new .recursive) with
      mutexCount := w.state.env.mutexCount + 1 } : Env).mutexes w.state.env.mutexCount =
        some (.new .recursive) := update_self _ _ _
  have hchange := Env.Changes.mutex hfound hl.actedOn
  have hc := h.coherent.changes hnew
  have hI := h.counted.of_eq (h.coherent.waitingCount_changes hnew) hnew.sameThreads.waitingOn
  have hentering : update w.entering w.current none = w.entering :=
    (congrArg _ (h.running_not_entering hrun).symm).trans (update_eq_self _ _)
  have hfresh : ∀ obj', w.state.syncMutexes obj' ≠ some w.state.env.mutexCount := by
    intro obj' hobj'
    obtain ⟨other, hother⟩ := h.backs obj' _ hobj'
    cases hother.found.symm.trans (h.coherent.fresh _ le_rfl)
  have hre : (new .recursive).Reentrant := ⟨rfl, fun _ => rfl⟩
  obtain ⟨hre, hcountOf, hlocked⟩ := hre.locked hl
  have hinside : (new .recursive).countOf = w.inside obj :=
    (countOf_free rfl).trans (h.absent obj hobj).symm
  refine ⟨hc.changes hchange, hI.of_eq (hc.waitingCount_changes hchange)
    hchange.sameThreads.waitingOn, h.plain, ?_, ?_, ?_, ?_, ?_⟩
  · intro obj₁ obj₂ m h₁ h₂
    simp only [enters, update_apply] at h₁ h₂
    split_ifs at h₁ h₂ with hobj₁ hobj₂ hobj₂
    · rw [hobj₁, hobj₂]
    · exact absurd (h₂.trans h₁.symm) (hfresh obj₂)
    · exact absurd (h₁.trans h₂.symm) (hfresh obj₁)
    · exact h.distinct _ _ m h₁ h₂
  · intro obj' m hobj'
    simp only [enters, update_apply] at hobj'
    split_ifs at hobj' with hsame
    · subst hsame
      obtain rfl := some.inj hobj'
      refine ⟨mutex', update_self _ _ _, hre, ?_, .inl hlocked⟩
      rw [hcountOf, hinside]
      exact update_self _ _ _
    · have hne : m ≠ w.state.env.mutexCount := by
        rintro rfl
        exact hfresh obj' hobj'
      obtain ⟨other, hother⟩ := h.backs obj' m hobj'
      refine ⟨other, hother.of_ne ?_ (update_of_ne hsame _ _)⟩
      exact ((update_of_ne hne _ _).trans (update_of_ne hne _ _)).trans hother.found
  · intro obj' hobj'
    simp only [enters, update_apply] at hobj' ⊢
    split_ifs at hobj' with hsame
    rw [if_neg hsame]
    exact h.absent obj' hobj'
  · intro t obj' he
    simp only [enters, hentering] at he
    have hne : obj' ≠ obj := by
      rintro rfl
      exact h.known t obj' he hobj
    simp only [enters, update_of_ne hne]
    exact h.known t obj' he
  · intro t m
    refine (h.blocked t m).trans ?_
    simp only [enters, hentering]
    cases he : w.entering t with
    | none => rfl
    | some obj' =>
      have hne : obj' ≠ obj := by
        rintro rfl
        exact h.known t obj' he hobj
      rw [bind_some, bind_some, update_of_ne hne]

lemma Guarded.unlock (h : w.Guarded) (hobj : w.state.syncMutexes obj = some m)
    (hbacks : w.Backs obj m mutex) (hu : mutex.Unlocked w.current mutex') (hre : mutex'.Reentrant)
    (hused : mutex'.locked ≠ none ∨ 0 < mutex'.waitingCount)
    (hcount : mutex'.countOf =
      update mutex.countOf w.current (mutex.countOf w.current - 1)) :
    (w.leaves obj ⟨w.state.env.setMutex m mutex', w.state.syncMutexes⟩).Guarded := by
  have hchange : w.state.env.Changes .mutex (w.state.env.setMutex m mutex') :=
    .mutex hbacks.found hu.actedOn
  refine h.exchange mutex' hobj rfl rfl hre hused ?_ (h.coherent.changes hchange)
    (h.counted.of_eq (h.coherent.waitingCount_changes hchange) hchange.sameThreads.waitingOn)
    h.plain h.known h.blocked
  rw [leaves, hcount, hbacks.inside]

lemma Guarded.nobody_entering (h : w.Guarded) (hobj : w.state.syncMutexes obj = some m)
    (hfound : w.state.env.mutexes m = some mutex) (hzero : mutex.waitingCount = 0) (t : ℕ) :
    w.entering t ≠ some obj := by
  intro he
  obtain ⟨m', hm', hblocked⟩ := h.entering_mutex he
  obtain rfl := some.inj (hm'.symm.trans hobj)
  have hpos := h.coherent.waitingOn_pos hblocked
  rw [← h.counted m', Env.waitingCount_of_found hfound, hzero] at hpos
  exact lt_irrefl 0 hpos

lemma Guarded.remove (h : w.Guarded) (hobj : w.state.syncMutexes obj = some m)
    (hbacks : w.Backs obj m mutex) (hu : mutex.Unlocked w.current mutex.released)
    (hcount : mutex.released.countOf = fun _ => 0)
    (hlast : mutex.released.countOf =
      update mutex.countOf w.current (mutex.countOf w.current - 1))
    (hzero : mutex.waitingCount = 0) :
    (w.leaves obj
      ⟨{ w.state.env.setMutex m mutex.released with
          mutexes := update (w.state.env.setMutex m mutex.released).mutexes m none },
        update w.state.syncMutexes obj none⟩).Guarded := by
  have hchange : w.state.env.Changes .mutex (w.state.env.setMutex m mutex.released) :=
    .mutex hbacks.found hu.actedOn
  have hfound : (w.state.env.setMutex m mutex.released).mutexes m = some mutex.released :=
    update_self _ _ _
  have hdestroy := Env.Changes.destroyMutex hfound rfl hzero
  have hc := h.coherent.changes hchange
  have hI := h.counted.of_eq (h.coherent.waitingCount_changes hchange) hchange.sameThreads.waitingOn
  have hnobody := h.nobody_entering hobj hbacks.found hzero
  refine ⟨hc.changes hdestroy, hI.of_eq (hc.waitingCount_changes hdestroy)
    hdestroy.sameThreads.waitingOn, h.plain, ?_, ?_, ?_, ?_, ?_⟩
  · intro obj₁ obj₂ m h₁ h₂
    simp only [leaves, update_apply] at h₁ h₂
    split_ifs at h₁ h₂
    exact h.distinct _ _ m h₁ h₂
  · intro obj' m' hobj'
    simp only [leaves, update_apply] at hobj'
    split_ifs at hobj' with hsame
    have hne : m' ≠ m := by
      rintro rfl
      exact hsame (h.distinct _ _ _ hobj' hobj)
    obtain ⟨other, hother⟩ := h.backs obj' m' hobj'
    refine ⟨other, hother.of_ne ?_ (update_of_ne hsame _ _)⟩
    exact ((update_of_ne hne _ _).trans (update_of_ne hne _ _)).trans hother.found
  · intro obj' hobj'
    simp only [leaves, update_apply] at hobj' ⊢
    split_ifs at hobj' ⊢ with hsame
    · rw [hbacks.inside, ← hlast, hcount]
    · exact h.absent obj' hobj'
  · intro t obj' he
    have hne : obj' ≠ obj := by
      rintro rfl
      exact hnobody t he
    simp only [leaves, update_of_ne hne]
    exact h.known t obj' he
  · intro t m'
    refine (h.blocked t m').trans ?_
    simp only [leaves]
    cases he : w.entering t with
    | none => rfl
    | some obj' =>
      have hne : obj' ≠ obj := by
        rintro rfl
        exact hnobody t he
      rw [bind_some, bind_some, update_of_ne hne]

lemma exit_outside (hobj : w.state.syncMutexes obj = some m) (hbacks : w.Backs obj m mutex)
    (hcount : mutex.countOf w.current = 0) :
    w.state.objcSyncExit obj = .ok (-1, w.state) := by
  simp only [SyncEnv.objcSyncExit, hobj]
  rw [Env.unlockMutex_outside hbacks.found hbacks.reentrant hcount]
  rfl

lemma exit_last (hobj : w.state.syncMutexes obj = some m) (hbacks : w.Backs obj m mutex)
    (hcount : mutex.countOf w.current = 1) :
    w.state.objcSyncExit obj = .ok (0,
      if mutex.waitingCount = 0 then
        ⟨{ w.state.env.setMutex m mutex.released with
            mutexes := update (w.state.env.setMutex m mutex.released).mutexes m none },
          update w.state.syncMutexes obj none⟩
      else ⟨w.state.env.setMutex m mutex.released, w.state.syncMutexes⟩) := by
  have hfound : (w.state.env.setMutex m mutex.released).mutexes m = some mutex.released :=
    update_self _ _ _
  have hlocked : mutex.released.locked = none := rfl
  have hwaiting : mutex.released.waitingCount = mutex.waitingCount := rfl
  simp only [SyncEnv.objcSyncExit, hobj]
  rw [Env.unlockMutex_last hbacks.found hbacks.reentrant hcount]
  simp only [ok_bind, if_true, Env.destroyMutex, hfound, unwrap_some, hlocked, ne_eq, not_true,
    if_false, hwaiting]
  split_ifs <;> rfl

lemma exit_nested (hobj : w.state.syncMutexes obj = some m) (hbacks : w.Backs obj m mutex)
    (hcount : 1 < mutex.countOf w.current) :
    ∃ mutex', w.state.objcSyncExit obj =
        .ok (0, ⟨w.state.env.setMutex m mutex', w.state.syncMutexes⟩) ∧
      mutex.Unlocked w.current mutex' ∧ mutex'.Reentrant ∧ mutex'.locked ≠ none ∧
      mutex'.countOf = update mutex.countOf w.current (mutex.countOf w.current - 1) := by
  obtain ⟨mutex', hunlock, hrest⟩ := Env.unlockMutex_nested hbacks.found hbacks.reentrant hcount
  refine ⟨mutex', ?_, hrest⟩
  have hpos : w.state.env.current = w.current := rfl
  simp only [SyncEnv.objcSyncExit, hobj]
  rw [hunlock]
  simp only [ok_bind]
  rw [if_neg (by rw [hpos]; omega)]
  rfl

lemma Guarded.exit (h : w.Guarded) (obj : ℕ) :
    (w.inside obj w.current = 0 ∧ w.state.objcSyncExit obj = .ok (-1, w.state)) ∨
    (0 < w.inside obj w.current ∧
      ∃ s', w.state.objcSyncExit obj = .ok (0, s') ∧ (w.leaves obj s').Guarded) := by
  cases hobj : w.state.syncMutexes obj with
  | none =>
    refine .inl ⟨by rw [h.absent obj hobj], ?_⟩
    simp only [SyncEnv.objcSyncExit, hobj]
    rfl
  | some m =>
    obtain ⟨mutex, hbacks⟩ := h.backs obj m hobj
    rw [hbacks.inside]
    obtain hcount | hcount | hcount :
        mutex.countOf w.current = 0 ∨ mutex.countOf w.current = 1 ∨ 1 < mutex.countOf w.current := by
      omega
    · exact .inl ⟨hcount, exit_outside hobj hbacks hcount⟩
    · refine .inr ⟨by omega, _, exit_last hobj hbacks hcount, ?_⟩
      obtain ⟨lock, hlocked, hthread, hone⟩ := exists_of_countOf (hcount.symm ▸ one_pos)
      have hu : mutex.Unlocked w.current mutex.released :=
        .released (hbacks.reentrant.phantomLocks _) hlocked (hone.trans hcount) (.inl hthread)
      have hlast : mutex.released.countOf =
          update mutex.countOf w.current (mutex.countOf w.current - 1) := by
        rw [countOf_released hlocked, hthread, hcount]
      split_ifs with hzero
      · exact h.remove hobj hbacks hu (countOf_free rfl) hlast hzero
      · exact h.unlock hobj hbacks hu ⟨hbacks.reentrant.type, hbacks.reentrant.phantomLocks⟩
          (.inr (Nat.pos_of_ne_zero hzero)) hlast
    · obtain ⟨mutex', hexit, hu, hre, hlocked, hless⟩ := exit_nested hobj hbacks hcount
      exact .inr ⟨by omega, _, hexit, h.unlock hobj hbacks hu hre (.inl hlocked) hless⟩

lemma Guarded.enter (h : w.Guarded) (hrun : w.Running) {s' : SyncEnv}
    (henter : w.state.objcSyncEnter obj = .ok (r, s')) :
    (r = some 0 ∧ (∀ u, 0 < w.inside obj u → u = w.current) ∧
      (w.enters obj w.current s').Guarded) ∨
    (r = none ∧ (∃ u, u ≠ w.current ∧ 0 < w.inside obj u) ∧ (w.waits obj s').Guarded) := by
  rw [SyncEnv.objcSyncEnter] at henter
  cases hobj : w.state.syncMutexes obj with
  | some m =>
    rw [hobj] at henter
    obtain ⟨⟨result, env⟩, hlock, henter⟩ := bind_eq_ok.mp henter
    obtain ⟨_, hunwrap, henter⟩ := bind_eq_ok.mp henter
    obtain ⟨rfl, rfl⟩ := ok_pair_inj henter
    obtain ⟨mutex, hbacks⟩ := h.backs obj m hobj
    obtain ⟨found, hfound, hcases⟩ := Env.lockMutex_cases hlock
    obtain rfl := some.inj (hbacks.found.symm.trans hfound)
    obtain ⟨n, mutex', rfl, hl, rfl⟩ | ⟨rfl, -⟩ | ⟨rfl, lock, hlocked, hother, rfl⟩ := hcases
    · obtain rfl := ok.inj hunwrap
      refine .inl ⟨rfl, fun u hu => ?_, h.lock hrun hobj hbacks hl⟩
      rw [hbacks.inside] at hu
      exact hl.alone hu
    · exact absurd hlock (Env.lockMutex_ne_error hbacks.found hbacks.reentrant _ _)
    · obtain rfl := ok.inj hunwrap
      refine .inr ⟨rfl, ⟨lock.thread, hother, ?_⟩, h.wait hrun hobj hbacks hlocked hother⟩
      rw [hbacks.inside]
      exact exists_countOf hlocked
  | none =>
    rw [hobj] at henter
    obtain ⟨⟨m, env⟩, hinit, henter⟩ := bind_eq_ok.mp henter
    obtain ⟨⟨result, env₂⟩, hlock, henter⟩ := bind_eq_ok.mp henter
    obtain ⟨_, hunwrap, henter⟩ := bind_eq_ok.mp henter
    obtain ⟨rfl, rfl⟩ := ok_pair_inj henter
    rw [Env.initMutex] at hinit
    split_ifs at hinit with hcount
    obtain ⟨rfl, rfl⟩ := ok_pair_inj hinit
    have hfound : ({ w.state.env.setMutex w.state.env.mutexCount (.new .recursive) with
        mutexCount := w.state.env.mutexCount + 1 } : Env).mutexes w.state.env.mutexCount =
          some (.new .recursive) := update_self _ _ _
    rw [Env.lockMutex_free hfound rfl] at hlock
    obtain ⟨rfl, rfl⟩ := ok_pair_inj hlock
    obtain rfl := ok.inj hunwrap
    refine .inl ⟨rfl, fun u hu => ?_, h.create hrun hobj hcount (.first rfl)⟩
    rw [h.absent obj hobj] at hu
    exact absurd hu (lt_irrefl 0)

structure Room (w : Synchronized) (obj : ℕ) : Prop where
  inside : w.inside obj w.current + 1 < u32Bound
  threads : w.state.env.threadCount < u32Bound
  mutexes : w.state.env.mutexCount + 1 < u64Bound

lemma Guarded.exists_enter (h : w.Guarded) (hrun : w.Running) (hroom : w.Room obj) :
    ∃ r s', w.state.objcSyncEnter obj = .ok (r, s') := by
  cases hobj : w.state.syncMutexes obj with
  | some m =>
    obtain ⟨mutex, hbacks⟩ := h.backs obj m hobj
    simp only [SyncEnv.objcSyncEnter, hobj]
    cases hlocked : mutex.locked with
    | none =>
      rw [Env.lockMutex_free hbacks.found hlocked]
      exact ⟨_, _, rfl⟩
    | some lock =>
      by_cases hthread : lock.thread = w.state.env.current
      · have hthread : lock.thread = w.current := hthread
        have hcount : lock.count + 1 < u32Bound := by
          have hinside := hroom.inside
          rw [hbacks.inside, countOf_of_locked hlocked, if_pos hthread] at hinside
          exact hinside
        rw [Env.lockMutex_own hbacks.found hbacks.reentrant hlocked hthread, Lock.again,
          if_pos hcount]
        exact ⟨_, _, rfl⟩
      · have hlt : mutex.waitingCount + 1 < u32Bound := by
          have hcounted := h.counted m
          rw [Env.waitingCount_of_found hbacks.found] at hcounted
          have hle := h.coherent.waitingOn_lt hrun m
          have hthreads := hroom.threads
          omega
        rw [Env.lockMutex_other hbacks.found hlocked hthread hlt (h.coherent.running hrun)]
        exact ⟨_, _, rfl⟩
  | none =>
    simp only [SyncEnv.objcSyncEnter, hobj, Env.initMutex, if_pos hroom.mutexes]
    have hfound : ({ w.state.env.setMutex w.state.env.mutexCount (.new .recursive) with
        mutexCount := w.state.env.mutexCount + 1 } : Env).mutexes w.state.env.mutexCount =
          some (.new .recursive) := update_self _ _ _
    simp only [pure_eq_ok, ok_bind]
    rw [Env.lockMutex_free hfound rfl]
    exact ⟨_, _, rfl⟩

section

variable {a : Action} {hspares : a.sparesMutexes = true}

lemma Guarded.not_condition (h : w.Guarded) (t cond : ℕ) (deadline : Option ℕ) :
    (w.state.env.threads t).blockedBy ≠ .condition cond deadline := by
  intro hb
  obtain ⟨id, hcall⟩ := h.coherent.hostCall_of_condition hb
  exact h.plain t cond id deadline hcall

lemma Guarded.leavesFree (h : w.Guarded) (a : Action) : w.state.env.LeavesFree a := by
  cases a with
  | visit now =>
    intro i hi
    cases hb : (w.state.env.threads (w.state.env.candidate i)).blockedBy with
    | condition cond deadline => exact absurd hb (h.not_condition _ cond deadline)
    | _ => trivial
  | _ => trivial

lemma noted_other (hr : r = none ∨ w.entering state.env.current = none) :
    w.noted r state (.other a hspares) = { w with state } := by
  obtain rfl | he := hr
  · rfl
  · cases r with
    | none => rfl
    | some v => simp only [noted, he]

lemma noted_entered {v : ℤ} (he : w.entering state.env.current = some obj) :
    w.noted (some v) state (.other a hspares) = w.enters obj state.env.current state := by
  simp only [noted, he]

lemma running_of_serve {v : ℤ} (h : w.state.env.serve a = .ok (some v, env'))
    (hvisit : ∀ now, a ≠ .visit now) : w.Running := by
  have hact : (if w.state.env.scan = none then w.state.env.act a else return (none, w.state.env)) =
      .ok (some v, env') := by
    cases a with
    | visit now => exact absurd rfl (hvisit now)
    | _ => exact h
  by_contra hrun
  have hscan : w.state.env.scan ≠ none := hrun
  rw [if_neg hscan] at hact
  cases (ok_pair_inj hact).1

lemma Guarded.plain_update (h : w.Guarded) {thread : Thread}
    (hplain : ∀ cond id deadline, thread.hostCall ≠ some (waitCall cond id deadline))
    (hthreads : env'.threads = update w.state.env.threads t thread) (u cond id : ℕ)
    (deadline : Option ℕ) : (env'.threads u).hostCall ≠ some (waitCall cond id deadline) := by
  rw [hthreads, update_apply]
  split_ifs
  · exact hplain cond id deadline
  · exact h.plain u cond id deadline

lemma blocks_update {thread : Thread} (hold : ∀ m, (w.state.env.threads t).blockedBy ≠ .mutex m)
    (hnew : ∀ m, thread.blockedBy ≠ .mutex m)
    (hthreads : env'.threads = update w.state.env.threads t thread) (u m : ℕ) :
    (env'.threads u).blockedBy = .mutex m ↔ (w.state.env.threads u).blockedBy = .mutex m := by
  rw [hthreads, update_apply]
  split_ifs with hu
  · subst hu
    exact iff_of_false (hnew m) (hold m)
  · rfl

lemma Guarded.relock (h : w.Guarded) (hcoherent : env'.Coherent) (hcounted : env'.Counted)
    (hb : (w.state.env.threads t).blockedBy = .mutex m) (hfree : w.state.env.Free m mutex)
    (hmutexes : env'.mutexes = update w.state.env.mutexes m (some (mutex.relockedBy t)))
    (hthreads : env'.threads =
      update w.state.env.threads t (w.state.env.threads t).freed) :
    ∃ obj, w.entering t = some obj ∧
      (w.enters obj t { w.state with env := env' }).Guarded := by
  obtain ⟨obj, he, hobj⟩ := bind_eq_some_iff.mp ((h.blocked t m).mp hb)
  obtain ⟨found, hbacks⟩ := h.backs obj m hobj
  obtain rfl := some.inj (hfree.1.symm.trans hbacks.found)
  refine ⟨obj, he, h.exchange (mutex.relockedBy t) hobj rfl hmutexes
    ⟨hbacks.reentrant.type, hbacks.reentrant.phantomLocks⟩ (.inl (some_ne_none _)) ?_
    hcoherent hcounted (h.plain_update (by simp) hthreads) ?_ ?_⟩
  · have hcount : (mutex.relockedBy t).countOf = (mutex.lockedOnceBy t).countOf := rfl
    rw [enters, hcount, countOf_lockedOnceBy hfree.2, hbacks.inside]
  · intro u obj' hu
    simp only [enters, update_apply] at hu
    split_ifs at hu
    exact h.known u obj' hu
  · intro u m'
    simp only [enters, hthreads, update_apply]
    split_ifs with hu
    · simp
    · exact h.blocked u m'

lemma Guarded.moves (h : w.Guarded) (hcoherent : env'.Coherent) (hcounted : env'.Counted)
    {thread : Thread} (hmutexes : env'.mutexes = w.state.env.mutexes)
    (hthreads : env'.threads = update w.state.env.threads t thread)
    (hold : ∀ m, (w.state.env.threads t).blockedBy ≠ .mutex m)
    (hnew : ∀ m, thread.blockedBy ≠ .mutex m)
    (hplain : ∀ cond id deadline, thread.hostCall ≠ some (waitCall cond id deadline))
    (hcurrent : env'.current = t) :
    (w.noted r { w.state with env := env' } (.other a hspares)).Guarded := by
  rw [noted_other (.inr (by rw [hcurrent]; exact h.not_entering hold))]
  exact h.aside hmutexes hcoherent hcounted (h.plain_update hplain hthreads)
    (blocks_update hold hnew hthreads)

lemma Guarded.pick (h : w.Guarded) {now : Clock} (hcoherent : env'.Coherent)
    (hcounted : env'.Counted) (hpicked : w.state.env.Picked t now r env') :
    (w.noted r { w.state with env := env' } (.other a hspares)).Guarded := by
  have hthreads := hpicked.threads
  have hcurrent := hpicked.current
  cases hpicked with
  | running hb =>
    exact h.moves hcoherent hcounted rfl hthreads (by simp [hb]) (by simp) (by simp) hcurrent
  | slept hcall =>
    refine h.moves hcoherent hcounted rfl hthreads (fun m hb => ?_) (by simp) (by simp) hcurrent
    have hagrees := h.coherent.agrees t
    rw [hb, hcall] at hagrees
    cases hagrees
  | lock hb hcall hfree =>
    obtain ⟨obj, he, hguarded⟩ := h.relock hcoherent hcounted hb hfree rfl hthreads
    exact Eq.subst (motive := Guarded) (noted_entered (by exact he)).symm hguarded
  | noSemaphore hb | semaphore hb =>
    exact h.moves hcoherent hcounted rfl hthreads (by simp [hb]) (by simp) (by simp) hcurrent
  | woken hb | timedOut hb => exact absurd hb (h.not_condition _ _ _)
  | @relocked cond m released object mutex _ hcall
  | @relockedLate cond m released object mutex _ hcall =>
    exact absurd hcall (h.plain t cond released (some 0))

lemma Guarded.spares (h : w.Guarded) (hrun : w.Running) (hcoherent : env'.Coherent)
    (hcounted : env'.Counted) (hs : w.state.env.Spares env') :
    (w.noted r { w.state with env := env' } (.other a hspares)).Guarded := by
  have hidle : ∀ m, (w.state.env.threads w.current).blockedBy ≠ .mutex m := by
    rw [current, h.coherent.notBlocked hrun]
    simp
  cases hs with
  | returns =>
    rw [noted_other (.inr (by exact h.not_entering hidle))]
    exact h.aside rfl hcoherent hcounted h.plain fun _ _ => .rfl
  | blocks words errno sems hblock hplain =>
    exact h.moves hcoherent hcounted rfl rfl hidle hblock
      (fun cond id deadline hcall => hplain cond id deadline (some.inj hcall)) rfl

lemma Guarded.other (h : w.Guarded) (hserve : w.state.env.serve a = .ok (r, env')) :
    (w.noted r { w.state with env := env' } (.other a hspares)).Guarded := by
  obtain ⟨hmoved, hcoherent⟩ := h.coherent.serve hserve
  have hcounted := h.counted.moved h.coherent (h.leavesFree a) hmoved
  cases hmoved with
  | aside hquiet hsame =>
    have hnone : r = none ∨ w.entering env'.current = none := by
      cases r with
      | none => exact .inl rfl
      | some v =>
        obtain ⟨-, hvisit⟩ := hquiet.resolve_left (some_ne_none v)
        rw [hsame.current]
        exact .inr (h.running_not_entering (running_of_serve hserve hvisit))
    rw [noted_other hnone]
    refine h.aside hsame.mutexes hcoherent hcounted (fun t cond id deadline => ?_) fun t m => ?_
    · rw [(hsame.blocks t).2]
      exact h.plain t cond id deadline
    · rw [(hsame.blocks t).1]
  | call hrun hcall => exact h.spares hrun hcoherent hcounted (Env.spares_call hspares hcall)
  | newThread =>
    rw [noted_other (.inl rfl)]
    have hidle := h.coherent.idle _ le_rfl
    exact h.aside rfl hcoherent hcounted (h.plain_update (by simp [Thread.started]) rfl)
      (blocks_update (by simp [hidle, Thread.idle]) (by simp [Thread.started]) rfl)
  | pass _ htried =>
    rw [noted_other (.inl rfl)]
    cases htried with
    | skipped => exact h.aside rfl hcoherent hcounted h.plain fun _ _ => .rfl
    | timedOutLocked hb => exact absurd hb (h.not_condition _ _ _)
  | pick _ _ _ hpicked => exact h.pick hcoherent hcounted hpicked

end

theorem Guarded.step (h : w.Guarded) {a : SyncAction} (hstep : w.step a = .ok w') : w'.Guarded := by
  obtain ⟨⟨r, s'⟩, hserve, rfl⟩ := map_eq_ok.mp hstep
  cases a with
  | enter obj =>
    rw [SyncEnv.serve] at hserve
    split_ifs at hserve with hrun
    · obtain ⟨rfl, -, hguarded⟩ | ⟨rfl, -, hguarded⟩ := h.enter hrun hserve
      · have hnoted : w.noted (some 0) s' (.enter obj) = w.enters obj w.current s' := by
          simp only [noted, Running, hrun, not_true, if_false, some_ne_none]
        exact hnoted ▸ hguarded
      · have hnoted : w.noted none s' (.enter obj) = w.waits obj s' := by
          simp only [noted, Running, hrun, not_true, if_false, if_true]
        exact hnoted ▸ hguarded
    · obtain ⟨rfl, rfl⟩ := ok_pair_inj hserve
      exact Eq.subst (motive := Guarded) (if_pos hrun).symm h
  | exit obj =>
    rw [SyncEnv.serve] at hserve
    split_ifs at hserve with hrun
    · obtain ⟨x, hexit, hx⟩ := map_eq_ok.mp hserve
      obtain ⟨-, houtside⟩ | ⟨-, s'', hinside, hguarded⟩ := h.exit obj
      · obtain rfl := ok.inj (houtside.symm.trans hexit)
        obtain ⟨rfl, rfl⟩ := Prod.mk.inj hx
        exact h
      · obtain rfl := ok.inj (hinside.symm.trans hexit)
        obtain ⟨rfl, rfl⟩ := Prod.mk.inj hx
        exact hguarded
    · obtain ⟨rfl, rfl⟩ := ok_pair_inj hserve
      exact h
  | other a hspares =>
    obtain ⟨x, hother, hx⟩ := map_eq_ok.mp hserve
    obtain ⟨rfl, rfl⟩ := Prod.mk.inj hx
    exact h.other hother

structure Excludes (w : Synchronized) : Prop where
  exclusive : ∀ obj t u, 0 < w.inside obj t → 0 < w.inside obj u → t = u
  enter : ∀ obj, w.Running → w.Room obj → ∃ r s', w.state.objcSyncEnter obj = .ok (r, s') ∧
    (r = some 0 ∧ (∀ u, 0 < w.inside obj u → u = w.current) ∨
      r = none ∧ ∃ u, u ≠ w.current ∧ 0 < w.inside obj u)
  unrefused : ∀ obj m, w.state.syncMutexes obj = some m → ∀ e env',
    w.state.env.lockMutex m ≠ .ok (some (.error e), env')
  exit : ∀ obj, w.Running → 0 < w.inside obj w.current →
    ∃ s', w.state.objcSyncExit obj = .ok (0, s')
  exitOutside : ∀ obj, w.Running → w.inside obj w.current = 0 →
    w.state.objcSyncExit obj = .ok (-1, w.state)
  entry : ∀ obj, w.state.syncMutexes obj ≠ none ↔
    ∃ t, 0 < w.inside obj t ∨ w.entering t = some obj
  waiting : ∀ obj t, w.entering t = some obj → ∃ m mutex, w.state.syncMutexes obj = some m ∧
    w.state.env.mutexes m = some mutex ∧ (w.state.env.threads t).blockedBy = .mutex m

lemma Guarded.entry (h : w.Guarded) (obj : ℕ) : w.state.syncMutexes obj ≠ none ↔
    ∃ t, 0 < w.inside obj t ∨ w.entering t = some obj := by
  constructor
  · intro hobj
    obtain ⟨m, hm⟩ := ne_none_iff_exists'.mp hobj
    obtain ⟨mutex, hbacks⟩ := h.backs obj m hm
    obtain hlocked | hpos := hbacks.used
    · obtain ⟨lock, hlock⟩ := ne_none_iff_exists'.mp hlocked
      refine ⟨lock.thread, .inl ?_⟩
      rw [hbacks.inside]
      exact exists_countOf hlock
    · rw [← Env.waitingCount_of_found hbacks.found, h.counted m, Env.waitingOn,
        Nat.count_eq_card_filter_range] at hpos
      obtain ⟨t, ht⟩ := Finset.card_pos.mp hpos
      obtain ⟨obj', he, hobj'⟩ :=
        bind_eq_some_iff.mp ((h.blocked t m).mp (Finset.mem_filter.mp ht).2)
      obtain rfl := h.distinct _ _ _ hobj' hm
      exact ⟨t, .inr he⟩
  · rintro ⟨t, hinside | he⟩ hobj
    · rw [h.absent obj hobj] at hinside
      exact lt_irrefl 0 hinside
    · exact h.known t obj he hobj

lemma Guarded.excludes (h : w.Guarded) : w.Excludes where
  exclusive obj t u ht hu := by
    cases hobj : w.state.syncMutexes obj with
    | none =>
      rw [h.absent obj hobj] at ht
      exact absurd ht (lt_irrefl 0)
    | some m =>
      obtain ⟨mutex, hbacks⟩ := h.backs obj m hobj
      rw [hbacks.inside] at ht hu
      exact eq_of_countOf ht hu
  enter obj hrun hroom := by
    obtain ⟨r, s', henter⟩ := h.exists_enter hrun hroom
    obtain ⟨hr, halone, -⟩ | ⟨hr, hother, -⟩ := h.enter hrun henter
    · exact ⟨r, s', henter, .inl ⟨hr, halone⟩⟩
    · exact ⟨r, s', henter, .inr ⟨hr, hother⟩⟩
  unrefused obj m hobj e env' := by
    obtain ⟨mutex, hbacks⟩ := h.backs obj m hobj
    exact Env.lockMutex_ne_error hbacks.found hbacks.reentrant e env'
  exit obj _ hinside := by
    obtain ⟨hzero, -⟩ | ⟨-, s', hexit, -⟩ := h.exit obj
    · exact absurd hzero hinside.ne'
    · exact ⟨s', hexit⟩
  exitOutside obj _ hzero := by
    obtain ⟨-, hexit⟩ | ⟨hpos, -⟩ := h.exit obj
    · exact hexit
    · exact absurd hzero hpos.ne'
  entry := h.entry
  waiting obj t he := by
    obtain ⟨m, hm, hb⟩ := h.entering_mutex he
    obtain ⟨mutex, hbacks⟩ := h.backs obj m hm
    exact ⟨m, mutex, hm, hbacks.found, hb⟩

/-- The blocks of an object exclude each other in every run. -/
theorem excludes_of_run {words : ℕ → UInt32} {nullSegmentSize : ℕ} {actions : List SyncAction}
    (hrun : run step (boot words nullSegmentSize) actions = .ok w) : w.Excludes := by
  have hguarded : w.Guarded := run_preserves (fun _ _ _ h _ hstep => h.step hstep)
    (guarded_boot words nullSegmentSize) (along_of_forall fun _ _ => trivial) hrun
  exact hguarded.excludes

theorem excludes_of_run_waiting : ∃ w, run step (boot (fun _ => 0) 0)
    [.other .newThread rfl, .enter 7, .enter 7, .other .preempt rfl, .other (.visit Env.epoch) rfl,
      .enter 7, .other (.visit Env.epoch) rfl, .exit 7] = .ok w ∧
    w.inside 7 0 = 1 ∧ w.entering 1 = some 7 ∧ w.Excludes := by
  have hrun : succeedsWith (fun w => w.inside 7 0 = 1 ∧ w.entering 1 = some 7)
      (run step (boot (fun _ => 0) 0)
        [.other .newThread rfl, .enter 7, .enter 7, .other .preempt rfl,
          .other (.visit Env.epoch) rfl, .enter 7, .other (.visit Env.epoch) rfl, .exit 7]) =
      true := by decide
  obtain ⟨w, hw, hp⟩ := exists_of_succeedsWith hrun
  obtain ⟨hinside, hentering⟩ := of_decide_eq_true hp
  exact ⟨w, hw, hinside, hentering, excludes_of_run hw⟩

section

structure Nested (w : Synchronized) (obj n : ℕ) : Prop where
  running : w.Running
  threadCount : w.state.env.threadCount = 1
  mutexCount : w.state.env.mutexCount = 1
  inside : w.inside obj w.current = n

lemma Guarded.exists_own (h : w.Guarded) (hinside : 0 < w.inside obj w.current) :
    ∃ m mutex lock, w.state.syncMutexes obj = some m ∧ w.Backs obj m mutex ∧ mutex.locked = some lock ∧
      lock.thread = w.current ∧ lock.count = w.inside obj w.current := by
  obtain ⟨m, hm⟩ := ne_none_iff_exists'.mp ((h.entry obj).mpr ⟨_, .inl hinside⟩)
  obtain ⟨mutex, hbacks⟩ := h.backs obj m hm
  rw [hbacks.inside] at hinside
  obtain ⟨lock, hlocked, hthread, hcount⟩ := exists_of_countOf hinside
  exact ⟨m, mutex, lock, hm, hbacks, hlocked, hthread, by rw [hcount, hbacks.inside]⟩

lemma Guarded.enter_nested (h : w.Guarded) {n : ℕ} (hn : w.Nested obj n) (hpos : 0 < n)
    (hlt : n + 1 < u32Bound) : ∃ w', w.step (.enter obj) = .ok w' ∧ w'.Nested obj (n + 1) := by
  have hroom : w.Room obj :=
    ⟨by rw [hn.inside]; exact hlt, by rw [hn.threadCount]; decide, by rw [hn.mutexCount]; decide⟩
  obtain ⟨m, mutex, lock, hm, hbacks, hlocked, hthread, hcount⟩ := h.exists_own (hn.inside ▸ hpos)
  rw [hn.inside] at hcount
  have henter : w.state.objcSyncEnter obj = .ok (some 0,
      ⟨w.state.env.setMutex m (mutex.lockedAs ⟨lock.thread, lock.count + 1, Nat.succ_pos _⟩
        hbacks.reentrant.type), w.state.syncMutexes⟩) := by
    simp only [SyncEnv.objcSyncEnter, hm]
    rw [Env.lockMutex_own hbacks.found hbacks.reentrant hlocked hthread, Lock.again,
      if_pos (by rw [hcount]; exact hlt)]
    rfl
  refine ⟨w.enters obj w.current
    ⟨w.state.env.setMutex m (mutex.lockedAs ⟨lock.thread, lock.count + 1, Nat.succ_pos _⟩
      hbacks.reentrant.type), w.state.syncMutexes⟩,
    ?_, hn.running, hn.threadCount, hn.mutexCount, ?_⟩
  · have hscan : w.state.env.scan = none := hn.running
    rw [Synchronized.step, SyncEnv.serve, if_pos hscan, henter]
    exact congrArg Except.ok
      ((if_neg (not_not.mpr hn.running)).trans (if_neg (some_ne_none _)))
  · simp only [enters, current, update_self]
    exact (update_self _ _ _).trans (congrArg (· + 1) hn.inside)

lemma Guarded.enter_overflow (h : w.Guarded) {n : ℕ} (hn : w.Nested obj n) (hpos : 0 < n)
    (hfull : n + 1 = u32Bound) : w.state.objcSyncEnter obj = .error .unwrap := by
  obtain ⟨m, mutex, lock, hm, hbacks, hlocked, hthread, hcount⟩ := h.exists_own (hn.inside ▸ hpos)
  rw [hn.inside] at hcount
  simp only [SyncEnv.objcSyncEnter, hm]
  rw [Env.lockMutex_own hbacks.found hbacks.reentrant hlocked hthread, Lock.again,
    if_neg (by rw [hcount, hfull]; exact lt_irrefl _)]
  rfl

lemma exists_nested {n : ℕ} (hpos : 0 < n) (hlt : n < u32Bound) :
    ∃ w, run step (boot (fun _ => 0) 0) (List.replicate n (.enter 0)) = .ok w ∧ w.Guarded ∧
      w.Nested 0 n := by
  induction n, hpos using Nat.le_induction with
  | base =>
    refine ⟨_, rfl, ?_, rfl, rfl, rfl, rfl⟩
    exact (guarded_boot (fun _ => 0) 0).step (a := .enter 0) rfl
  | succ n hn ih =>
    obtain ⟨w, hw, hguarded, hnested⟩ := ih (by omega)
    obtain ⟨w', hw', hnested'⟩ := hguarded.enter_nested hnested hn hlt
    refine ⟨w', ?_, hguarded.step hw', hnested'⟩
    rw [List.replicate_succ']
    exact run_append_eq_ok.mpr ⟨w, hw, run_cons_eq_ok.mpr ⟨w', hw', run_nil⟩⟩

end

theorem enter_overflows : ∃ w,
    run step (boot (fun _ => 0) 0) (List.replicate (u32Bound - 1) (.enter 0)) = .ok w ∧
    w.Running ∧ w.state.objcSyncEnter 0 = .error .unwrap := by
  have hlt : u32Bound - 1 < u32Bound := by decide
  have hpos : 0 < u32Bound - 1 := by decide
  obtain ⟨w, hw, hguarded, hnested⟩ := exists_nested hpos hlt
  exact ⟨w, hw, hnested.running, hguarded.enter_overflow hnested hpos (by decide)⟩

end Synchronized

end TouchHle.Threads
