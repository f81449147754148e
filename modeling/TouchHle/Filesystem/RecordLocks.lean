import TouchHle.Lib.Runs

namespace TouchHle.Filesystem

open Lib List Option

namespace RecordLocks

def i64Max : ℤ := 2 ^ 63 - 1

def InI64 (v : ℤ) : Prop := -2 ^ 63 ≤ v ∧ v ≤ i64Max

instance (v : ℤ) : Decidable (InI64 v) := inferInstanceAs (Decidable (_ ∧ _))

def addI64 (x y : ℤ) : Checked ℤ := if InI64 (x + y) then .ok (x + y) else .error .overflow

def checkedAdd (x y : ℤ) : Option ℤ := if InI64 (x + y) then some (x + y) else none

def rdlck : ℤ := 1
def unlck : ℤ := 2
def wrlck : ℤ := 3

def seekSet : ℤ := 0
def seekCur : ℤ := 1
def seekEnd : ℤ := 2

inductive Errno
  | einval
  | eoverflow
  deriving DecidableEq

structure Flock where
  start : ℤ
  len : ℤ
  lockType : ℤ
  whence : ℤ
  start_in : InI64 start
  len_in : InI64 len

structure Request where
  lock : Flock
  streamPosition : ℕ
  streamLen : ℕ

structure LockRange where
  start : ℤ
  stop : ℤ
  lockType : ℤ
  deriving DecidableEq

def LockRange.overlaps (l other : LockRange) : Bool := l.start < other.stop && other.start < l.stop

def asI64 (n : ℕ) : ℤ := if n % 2 ^ 64 < 2 ^ 63 then n % 2 ^ 64 else (n % 2 ^ 64 : ℤ) - 2 ^ 64

def fileSize (n : ℕ) : ℤ := if n < 2 ^ 63 then n else 0

def validType (t : ℤ) : Bool := t = rdlck || t = unlck || t = wrlck

def lockStart (r : Request) : Checked (Except Errno ℤ) :=
  if r.lock.whence = seekSet then return .ok r.lock.start
  else if r.lock.whence = seekCur then do
    return .ok (← addI64 (asI64 r.streamPosition) r.lock.start)
  else if r.lock.whence = seekEnd then do
    return .ok (← addI64 (fileSize r.streamLen) r.lock.start)
  else return .error .einval

def lockBounds (start len : ℤ) : Except Errno (ℤ × ℤ) :=
  if start < 0 then .error .einval
  else if len = 0 then .ok (start, i64Max)
  else if 0 < len then
    match checkedAdd start len with
    | some stop => .ok (start, stop)
    | none => .error .eoverflow
  else
    match checkedAdd start len with
    | some newStart => if newStart < 0 then .error .einval else .ok (newStart, start)
    | none => .error .einval

def resolveLockRange (r : Request) : Checked (Except Errno LockRange) :=
  if validType r.lock.lockType then do
    match ← lockStart r with
    | .error e => return .error e
    | .ok start =>
      match lockBounds start r.lock.len with
      | .error e => return .error e
      | .ok (start, stop) => return .ok ⟨start, stop, r.lock.lockType⟩
  else return .error .einval

def LockRange.without (existing release : LockRange) : List LockRange :=
  if existing.overlaps release then
    (if existing.start < release.start then [{ existing with stop := release.start }] else []) ++
      if release.stop < existing.stop then [{ existing with start := release.stop }] else []
  else [existing]

def releaseRangeFromLocks (locks : List LockRange) (release : LockRange) : List LockRange :=
  locks.flatMap fun existing => existing.without release

def setLk (locks : List LockRange) (r : Request) : Checked (Option Errno × List LockRange) := do
  match ← resolveLockRange r with
  | .error e => return (some e, locks)
  | .ok requested =>
    if requested.lockType = unlck then return (none, releaseRangeFromLocks locks requested)
    else return (none, releaseRangeFromLocks locks requested ++ [requested])

end RecordLocks

end TouchHle.Filesystem

namespace TouchHle.Filesystem.RecordLocks

open Lib List Option

def lockStep (locks : List LockRange) (r : Request) : Checked (List LockRange) := do
  return (← setLk locks r).2

def origin (r : Request) : Option ℤ :=
  if r.lock.whence = seekSet then some 0
  else if r.lock.whence = seekCur then some (asI64 r.streamPosition)
  else if r.lock.whence = seekEnd then some (fileSize r.streamLen)
  else none

def inRange (start len x : ℤ) : Bool :=
  0 ≤ start &&
    if len = 0 then start ≤ x
    else if 0 < len then start + len ≤ i64Max && start ≤ x && x < start + len
    else 0 ≤ start + len && start + len ≤ x && x < start

def covers (r : Request) (x : ℤ) : Bool :=
  match origin r with
  | none => false
  | some o => validType r.lock.lockType && inRange (o + r.lock.start) r.lock.len x

def held (rs : List Request) (x : ℤ) : Option ℤ :=
  (rs.reverse.find? fun r => covers r x).bind fun r =>
    if r.lock.lockType = unlck then none else some r.lock.lockType

def LockRange.Holds (l : LockRange) (x : ℤ) : Prop := l.start ≤ x ∧ x < l.stop

def Apart (l other : LockRange) : Prop := l.stop ≤ other.start ∨ other.stop ≤ l.start

structure Faithful (rs : List Request) (locks : List LockRange) : Prop where
  nonempty : ∀ l ∈ locks, l.start < l.stop
  apart : locks.Pairwise Apart
  held : ∀ x, 0 ≤ x → x < i64Max → ∀ t,
    (∃ l ∈ locks, l.Holds x ∧ l.lockType = t) ↔ held rs x = some t

def Regular (r : Request) : Prop :=
  validType r.lock.lockType = true → ∀ o, origin r = some o → InI64 (o + r.lock.start) ∧
    ¬ (r.lock.lockType ≠ unlck ∧ r.lock.len = 0 ∧ o + r.lock.start = i64Max)

section

variable {existing release l other : LockRange} {x : ℤ}

lemma overlaps_iff : existing.overlaps release = true ↔
    existing.start < release.stop ∧ release.start < existing.stop := by
  simp [LockRange.overlaps]

lemma without_subset (h : l ∈ existing.without release) : existing.start ≤ l.start ∧
    l.stop ≤ existing.stop ∧ l.lockType = existing.lockType := by
  rw [LockRange.without] at h
  split_ifs at h with hov hleft hright hright
  all_goals
    rw [overlaps_iff] at *
    simp only [nil_append, cons_append, mem_cons, not_mem_nil, or_false] at h
  · rcases h with rfl | rfl
    · exact ⟨le_rfl, hov.2.le, rfl⟩
    · exact ⟨hov.1.le, le_rfl, rfl⟩
  · subst h
    exact ⟨le_rfl, hov.2.le, rfl⟩
  · subst h
    exact ⟨hov.1.le, le_rfl, rfl⟩
  · subst h
    exact ⟨le_rfl, le_rfl, rfl⟩

lemma without_nonempty (he : existing.start < existing.stop) (h : l ∈ existing.without release) :
    l.start < l.stop := by
  rw [LockRange.without] at h
  split_ifs at h with hov hleft hright hright
  all_goals
    simp only [nil_append, cons_append, mem_cons, not_mem_nil, or_false] at h
  · rcases h with rfl | rfl
    · exact hleft
    · exact hright
  · exact h ▸ hleft
  · exact h ▸ hright
  · exact h ▸ he

lemma without_apart (he : existing.start < existing.stop)
    (h : l ∈ existing.without release) : Apart l release := by
  rw [LockRange.without] at h
  unfold Apart
  split_ifs at h with hov hleft hright hright
  all_goals
    rw [overlaps_iff] at *
    simp only [nil_append, cons_append, mem_cons, not_mem_nil, or_false] at h
  · rcases h with rfl | rfl
    · exact .inl le_rfl
    · exact .inr le_rfl
  · subst h
    exact .inl le_rfl
  · subst h
    exact .inr le_rfl
  · subst h
    omega

lemma without_pairwise (hr : release.start ≤ release.stop) :
    (existing.without release).Pairwise Apart := by
  rw [LockRange.without]
  split_ifs
  · exact pairwise_pair.mpr (.inl hr)
  all_goals simp

lemma exists_without :
    (∃ l ∈ existing.without release, l.Holds x) ↔ existing.Holds x ∧ ¬ release.Holds x := by
  unfold LockRange.Holds
  rw [LockRange.without]
  split_ifs with hov hleft hright hright
  all_goals
    rw [overlaps_iff] at *
    simp only [nil_append, cons_append, mem_cons, not_mem_nil, or_false,
      exists_eq_or_imp, exists_eq_left, false_and, exists_false, false_iff]
    omega

end

variable {locks : List LockRange} {release : LockRange} {rs : List Request} {r : Request} {x : ℤ}

lemma mem_release {l : LockRange} : l ∈ releaseRangeFromLocks locks release ↔
    ∃ existing ∈ locks, l ∈ existing.without release := mem_flatMap

lemma release_pairwise (hr : release.start ≤ release.stop) (hp : locks.Pairwise Apart) :
    (releaseRangeFromLocks locks release).Pairwise Apart := by
  rw [releaseRangeFromLocks, pairwise_flatMap]
  refine ⟨fun _ _ => without_pairwise hr, hp.imp fun {a b} hab l hl l' hl' => ?_⟩
  have hsub := without_subset hl
  have hsub' := without_subset hl'
  unfold Apart at *
  omega

lemma release_held {t : ℤ} :
    (∃ l ∈ releaseRangeFromLocks locks release, l.Holds x ∧ l.lockType = t) ↔
      (∃ l ∈ locks, l.Holds x ∧ l.lockType = t) ∧ ¬ release.Holds x := by
  constructor
  · rintro ⟨l, hl, hx, ht⟩
    obtain ⟨existing, hmem, hl⟩ := mem_release.mp hl
    obtain ⟨hin, hout⟩ := exists_without.mp ⟨l, hl, hx⟩
    exact ⟨⟨existing, hmem, hin, (without_subset hl).2.2.symm.trans ht⟩, hout⟩
  · rintro ⟨⟨existing, hmem, hin, ht⟩, hout⟩
    obtain ⟨l, hl, hx⟩ := exists_without.mpr ⟨hin, hout⟩
    exact ⟨l, mem_release.mpr ⟨existing, hmem, hl⟩, hx, (without_subset hl).2.2.trans ht⟩

lemma held_concat : held (rs ++ [r]) x =
    if covers r x = true then (if r.lock.lockType = unlck then none else some r.lock.lockType)
    else held rs x := by
  rw [held, reverse_append, reverse_singleton, singleton_append, find?_cons]
  split
  next h => rw [if_pos h, bind_some]
  next h => rw [if_neg (by rw [h]; decide), held]

lemma lockStart_none (h : origin r = none) : lockStart r = .ok (.error .einval) := by
  rw [origin] at h
  split_ifs at h with h1 h2 h3
  rw [lockStart, if_neg h1, if_neg h2, if_neg h3]
  rfl

lemma lockStart_some {o : ℤ} (h : origin r = some o) : lockStart r =
    if InI64 (o + r.lock.start) then .ok (.ok (o + r.lock.start)) else .error .overflow := by
  have hstart := r.lock.start_in
  rw [origin] at h
  rw [lockStart]
  split_ifs at h with h1 h2 h3
  · obtain rfl := some.inj h
    rw [if_pos h1, zero_add, if_pos hstart]
    rfl
  · obtain rfl := some.inj h
    rw [if_neg h1, if_pos h2, addI64]
    split <;> rfl
  · obtain rfl := some.inj h
    rw [if_neg h1, if_neg h2, if_pos h3, addI64]
    split <;> rfl

lemma lockBounds_spec {start len : ℤ} (hstart : InI64 start) (hlen : InI64 len) :
    (∃ first stop, lockBounds start len = .ok (first, stop) ∧ first ≤ stop ∧
      (first = stop ↔ len = 0 ∧ start = i64Max) ∧
      ∀ x, x < i64Max → (inRange start len x = true ↔ first ≤ x ∧ x < stop)) ∨
    ∃ e, lockBounds start len = .error e ∧ ∀ x, inRange start len x = false := by
  unfold InI64 at hstart hlen
  rw [lockBounds]
  unfold inRange
  by_cases hneg : start < 0
  · refine .inr ⟨.einval, if_pos hneg, fun x => ?_⟩
    rw [decide_eq_false (by omega), Bool.false_and]
  · rw [if_neg hneg]
    simp only [decide_eq_true (not_lt.mp hneg), Bool.true_and]
    by_cases hzero : len = 0
    · refine .inl ⟨start, i64Max, if_pos hzero, hstart.2, by tauto, fun x hx => ?_⟩
      rw [if_pos hzero, decide_eq_true_eq]
      tauto
    · rw [if_neg hzero]
      by_cases hpos : 0 < len
      · rw [if_pos hpos, checkedAdd]
        by_cases hfits : InI64 (start + len)
        · rw [if_pos hfits]
          unfold InI64 at hfits
          refine .inl ⟨start, start + len, rfl, by omega, by omega, fun x hx => ?_⟩
          simp only [if_neg hzero, if_pos hpos, Bool.and_eq_true, decide_eq_true_eq]
          omega
        · rw [if_neg hfits]
          unfold InI64 at hfits
          refine .inr ⟨.eoverflow, rfl, fun x => ?_⟩
          rw [if_neg hzero, if_pos hpos, decide_eq_false (by omega), Bool.false_and, Bool.false_and]
      · rw [if_neg hpos, checkedAdd, if_pos (show InI64 (start + len) by unfold InI64; omega)]
        dsimp only
        by_cases hbefore : start + len < 0
        · refine .inr ⟨.einval, if_pos hbefore, fun x => ?_⟩
          rw [if_neg hzero, if_neg hpos, decide_eq_false (by omega), Bool.false_and, Bool.false_and]
        · refine .inl ⟨start + len, start, if_neg hbefore, by omega, by omega, fun x hx => ?_⟩
          simp only [if_neg hzero, if_neg hpos, Bool.and_eq_true, decide_eq_true_eq]
          omega

lemma resolveLockRange_spec {o : ℤ} (hvalid : validType r.lock.lockType = true)
    (ho : origin r = some o) (hin : InI64 (o + r.lock.start)) :
    (∃ range, resolveLockRange r = .ok (.ok range) ∧ range.lockType = r.lock.lockType ∧
      range.start ≤ range.stop ∧
      (range.start = range.stop ↔ r.lock.len = 0 ∧ o + r.lock.start = i64Max) ∧
      ∀ x, x < i64Max → (covers r x = true ↔ range.Holds x)) ∨
    ∃ e, resolveLockRange r = .ok (.error e) ∧ ∀ x, covers r x = false := by
  have hcovers : ∀ x, covers r x = inRange (o + r.lock.start) r.lock.len x := by
    intro x
    rw [covers, ho]
    dsimp only
    rw [hvalid, Bool.true_and]
  rw [resolveLockRange, if_pos hvalid, lockStart_some ho, if_pos hin, ok_bind]
  dsimp only
  rcases lockBounds_spec hin r.lock.len_in with ⟨first, stop, heq, hle, hiff, hx⟩ | ⟨e, heq, hx⟩
  · rw [heq]
    refine .inl ⟨⟨first, stop, r.lock.lockType⟩, rfl, rfl, hle, hiff, fun x hlt => ?_⟩
    rw [hcovers]
    exact hx x hlt
  · rw [heq]
    exact .inr ⟨e, rfl, fun x => (hcovers x).trans (hx x)⟩

lemma Faithful.skip (h : Faithful rs locks) (hr : ∀ x, covers r x = false) :
    Faithful (rs ++ [r]) locks := by
  refine ⟨h.nonempty, h.apart, fun x hx hx' t => ?_⟩
  rw [held_concat, if_neg (by rw [hr]; decide)]
  exact h.held x hx hx' t

lemma Faithful.released {range : LockRange} (h : Faithful rs locks)
    (hle : range.start ≤ range.stop) (hunlck : r.lock.lockType = unlck)
    (hcovers : ∀ x, x < i64Max → (covers r x = true ↔ range.Holds x)) :
    Faithful (rs ++ [r]) (releaseRangeFromLocks locks range) where
  nonempty l hl := by
    obtain ⟨existing, hmem, hl⟩ := mem_release.mp hl
    exact without_nonempty (h.nonempty existing hmem) hl
  apart := release_pairwise hle h.apart
  held x hx hx' t := by
    rw [held_concat, if_pos hunlck, release_held, h.held x hx hx' t, ← hcovers x hx']
    by_cases hc : covers r x = true
    · simp [hc]
    · simp [hc]

lemma Faithful.replaced {range : LockRange} (h : Faithful rs locks)
    (hlt : range.start < range.stop) (hunlck : r.lock.lockType ≠ unlck)
    (htype : range.lockType = r.lock.lockType)
    (hcovers : ∀ x, x < i64Max → (covers r x = true ↔ range.Holds x)) :
    Faithful (rs ++ [r]) (releaseRangeFromLocks locks range ++ [range]) where
  nonempty l hl := by
    rcases mem_append.mp hl with hl | hl
    · obtain ⟨existing, hmem, hl⟩ := mem_release.mp hl
      exact without_nonempty (h.nonempty existing hmem) hl
    · exact mem_singleton.mp hl ▸ hlt
  apart := by
    refine pairwise_append.mpr ⟨release_pairwise hlt.le h.apart, pairwise_singleton _ _,
      fun l hl l' hl' => ?_⟩
    obtain ⟨existing, hmem, hl⟩ := mem_release.mp hl
    exact mem_singleton.mp hl' ▸ without_apart (h.nonempty existing hmem) hl
  held x hx hx' t := by
    have hsplit : (∃ l ∈ releaseRangeFromLocks locks range ++ [range], l.Holds x ∧ l.lockType = t) ↔
        (∃ l ∈ releaseRangeFromLocks locks range, l.Holds x ∧ l.lockType = t) ∨
          range.Holds x ∧ range.lockType = t := by
      simp only [mem_append, mem_singleton, or_and_right, exists_or, exists_eq_left]
    rw [held_concat, if_neg hunlck, hsplit, release_held, h.held x hx hx' t, ← hcovers x hx', htype]
    by_cases hc : covers r x = true
    · simp [hc]
    · simp [hc]

lemma setLk_resolved {range : LockRange} (h : resolveLockRange r = .ok (.ok range)) :
    lockStep locks r = .ok (if range.lockType = unlck then releaseRangeFromLocks locks range
      else releaseRangeFromLocks locks range ++ [range]) := by
  rw [lockStep, setLk, h, ok_bind]
  dsimp only
  split <;> rfl

lemma setLk_refused {e : Errno} (h : resolveLockRange r = .ok (.error e)) :
    lockStep locks r = .ok locks := by
  rw [lockStep, setLk, h, ok_bind]
  rfl

lemma Faithful.step (h : Faithful rs locks) (hr : Regular r) :
    ∃ locks', lockStep locks r = .ok locks' ∧ Faithful (rs ++ [r]) locks' := by
  by_cases hvalid : validType r.lock.lockType = true
  · cases ho : origin r with
    | none =>
      have hrefused : resolveLockRange r = .ok (.error .einval) := by
        rw [resolveLockRange, if_pos hvalid, lockStart_none ho]
        rfl
      exact ⟨locks, setLk_refused hrefused, h.skip fun x => by rw [covers, ho]⟩
    | some o =>
      obtain ⟨hin, hend⟩ := hr hvalid o ho
      rcases resolveLockRange_spec hvalid ho hin with
        ⟨range, heq, htype, hle, hempty, hcovers⟩ | ⟨e, heq, hcovers⟩
      · refine ⟨_, setLk_resolved heq, ?_⟩
        by_cases hunlck : r.lock.lockType = unlck
        · rw [if_pos (htype.trans hunlck)]
          exact h.released hle hunlck hcovers
        · rw [if_neg (htype ▸ hunlck)]
          have hne : range.start ≠ range.stop := fun heq => hend ⟨hunlck, hempty.mp heq⟩
          exact h.replaced (lt_of_le_of_ne hle hne) hunlck htype hcovers
      · exact ⟨locks, setLk_refused heq, h.skip hcovers⟩
  · have hrefused : resolveLockRange r = .ok (.error .einval) := if_neg hvalid
    refine ⟨locks, setLk_refused hrefused, h.skip fun x => ?_⟩
    rw [covers]
    split
    · rfl
    · rw [eq_false_of_ne_true hvalid, Bool.false_and]

lemma regular_of_step {locks' : List LockRange} (hstep : lockStep locks r = .ok locks')
    (hnonempty : ∀ l ∈ locks', l.start < l.stop) : Regular r := by
  intro hvalid o ho
  have hin : InI64 (o + r.lock.start) := by
    by_contra hout
    have hfault : resolveLockRange r = .error .overflow := by
      rw [resolveLockRange, if_pos hvalid, lockStart_some ho, if_neg hout]
      rfl
    rw [lockStep, setLk, hfault] at hstep
    cases hstep
  refine ⟨hin, fun ⟨hunlck, hlen, hmax⟩ => ?_⟩
  rcases resolveLockRange_spec hvalid ho hin with
    ⟨range, heq, htype, -, hempty, -⟩ | ⟨e, -, hcovers⟩
  · rw [setLk_resolved heq, if_neg (htype ▸ hunlck)] at hstep
    have hmem : range ∈ locks' := Except.ok.inj hstep ▸ mem_append_right _ (mem_singleton.mpr rfl)
    exact absurd (hempty.mpr ⟨hlen, hmax⟩) (hnonempty range hmem).ne
  · have hlast := hcovers i64Max
    rw [covers, ho] at hlast
    dsimp only at hlast
    rw [hvalid, hmax, hlen] at hlast
    exact absurd hlast (by decide)

lemma run_faithful (h : ∀ r ∈ rs, Regular r) :
    ∃ locks, run lockStep [] rs = .ok locks ∧ Faithful rs locks := by
  induction rs using List.reverseRecOn with
  | nil => exact ⟨[], run_nil, by simp, List.Pairwise.nil, fun x _ _ t => by simp [held]⟩
  | append_singleton rs r ih =>
    obtain ⟨locks, hrun, hlocks⟩ := ih fun r hr => h r (mem_append_left _ hr)
    obtain ⟨locks', hstep, hlocks'⟩ := hlocks.step (h r (by simp))
    refine ⟨locks', run_append_eq_ok.mpr ⟨locks, hrun, ?_⟩, hlocks'⟩
    rw [run_cons, hstep, ok_bind, run_nil]

/-- After each request of a sequence the locks are as they were asked for, if and only if no start is
outside the file offsets and no lock to the end of the file starts there. -/
theorem locks_faithful_iff (rs : List Request) :
    (∀ ps, ps <+: rs → ∃ locks, run lockStep [] ps = .ok locks ∧ Faithful ps locks) ↔
      ∀ r ∈ rs, Regular r := by
  constructor
  · intro h r hr
    obtain ⟨a, b, rfl⟩ := List.append_of_mem hr
    obtain ⟨locks', hrun, hlocks'⟩ := h (a ++ [r]) ⟨b, by simp⟩
    obtain ⟨locks, -, hlast⟩ := run_append_eq_ok.mp hrun
    obtain ⟨locks'', hstep, hend⟩ := run_cons_eq_ok.mp hlast
    obtain rfl : locks'' = locks' := Except.ok.inj (run_nil.symm.trans hend)
    exact regular_of_step hstep hlocks'.nonempty
  · intro h ps hps
    exact run_faithful fun r hr => h r (hps.subset hr)

def farRequest : Request where
  lock := ⟨i64Max, 1, rdlck, seekCur, by decide, by decide⟩
  streamPosition := 1
  streamLen := 1

theorem not_locks_faithful :
    ¬ ∀ rs : List Request, ∀ ps, ps <+: rs →
      ∃ locks, run lockStep [] ps = .ok locks ∧ Faithful ps locks := by
  intro h
  obtain ⟨locks, hrun, -⟩ := h [farRequest] [farRequest] List.prefix_rfl
  have hfault : fault (run lockStep [] [farRequest]) = some .overflow := by decide
  rw [hrun] at hfault
  cases hfault

end TouchHle.Filesystem.RecordLocks
