import TouchHle.Trainer.Bulk

namespace TouchHle.Trainer

open Lib List

variable {ws writes : List BulkWrite} {w : BulkWrite} {mem mem' : Mem} {results : List SearchResult}
  {result : SearchResult} {text : List Char}

def SearchResult.Overlaps (r : SearchResult) (w : BulkWrite) : Prop :=
  w.addr < r.addr + r.vtype.size ∧ r.addr < w.stop

lemma writeAll_ok : ∀ {ws : List BulkWrite} {mem : Mem}, (∀ w ∈ ws, ∃ n, w.vtype.readAt mem w.addr = some n) →
    ∃ mem', writeAll mem ws = (true, mem') ∧ mem'.nullSegmentSize = mem.nullSegmentSize ∧
      mem'.liveAllocations = mem.liveAllocations ∧
      ∀ a, (∀ w ∈ ws, a < w.addr ∨ w.stop ≤ a) → mem'.bytes a = mem.bytes a := by
  intro ws
  induction ws with
  | nil => exact fun {mem} _ => ⟨mem, rfl, rfl, rfl, fun _ _ => rfl⟩
  | cons w ws ih =>
    intro mem h
    obtain ⟨n, hn⟩ := h w mem_cons_self
    have hwrite := VType.writeAt_of_readAt w.after hn
    obtain ⟨hnull, hlive, hframe⟩ := VType.writeAt_frame hwrite
    have hreadable : ∀ v ∈ ws, ∃ n, v.vtype.readAt
        { mem with bytes := mem.bytes.store w.addr (leBytes w.vtype.size w.after) } v.addr = some n := by
      intro v hv
      obtain ⟨k, hk⟩ := h v (mem_cons_of_mem _ hv)
      rw [VType.readAt] at hk ⊢
      split_ifs at hk with hnull' hend
      rw [if_neg hnull', if_pos hend]
      exact ⟨_, rfl⟩
    obtain ⟨mem', hall, hnull', hlive', hframe'⟩ := ih hreadable
    refine ⟨mem', ?_, hnull'.trans hnull, hlive'.trans hlive, fun a ha => ?_⟩
    · rw [writeAll, hwrite]
      exact hall
    · rw [hframe' a fun v hv => ha v (mem_cons_of_mem _ hv)]
      exact hframe a (ha w mem_cons_self)

lemma readAt_writeAll : ∀ {ws : List BulkWrite} {mem mem' : Mem}, writeAll mem ws = (true, mem') →
    (∀ w ∈ ws, ∃ n, w.vtype.readAt mem w.addr = some n) → (∀ w ∈ ws, w.after < 256 ^ w.vtype.size) →
    (ws.Pairwise fun a b => a.stop ≤ b.addr) → ∀ w ∈ ws, w.vtype.readAt mem' w.addr = some w.after := by
  intro ws
  induction ws with
  | nil => exact fun _ _ _ _ => forall_mem_nil _
  | cons v ws ih =>
    intro mem mem' h hreadable hfits hdisjoint
    obtain ⟨hv, hws⟩ := pairwise_cons.mp hdisjoint
    obtain ⟨n, hn⟩ := hreadable v mem_cons_self
    have hwrite := VType.writeAt_of_readAt v.after hn
    have hreadable' : ∀ w ∈ ws, ∃ n, w.vtype.readAt
        { mem with bytes := mem.bytes.store v.addr (leBytes v.vtype.size v.after) } w.addr = some n := by
      intro w hw
      obtain ⟨k, hk⟩ := hreadable w (mem_cons_of_mem _ hw)
      rw [VType.readAt] at hk ⊢
      split_ifs at hk with hnull' hend
      rw [if_neg hnull', if_pos hend]
      exact ⟨_, rfl⟩
    rw [writeAll, hwrite] at h
    dsimp only at h
    intro w hw
    obtain rfl | hw := mem_cons.mp hw
    · obtain ⟨mem'', hall, hnull, -, hframe⟩ := writeAll_ok hreadable'
      obtain rfl : mem'' = mem' := (Prod.mk.inj (hall.symm.trans h)).2
      have hafter := VType.readAt_writeAt hwrite (hfits w mem_cons_self)
      rw [← hafter]
      refine VType.readAt_congr hnull fun a ha ha' => hframe a fun u hu => .inl ?_
      exact ha'.trans_le (hv u hu)
    · exact ih h hreadable' (fun u hu => hfits u (mem_cons_of_mem _ hu)) hws w hw

lemma refresh_eq (mem : Mem) (result : SearchResult)
    (hsorted : writes.Pairwise fun a b => a.addr ≤ b.addr) :
    ((∃ w ∈ writes, result.Overlaps w) ∧ refresh mem writes result = { result with
      bits := (result.vtype.readAt mem result.addr).getD result.bits
      changed := false
      analysis := result.analysis.resetHistory }) ∨
    (∀ w ∈ writes, ¬ result.Overlaps w) ∧ refresh mem writes result = result := by
  have hiff := overlaps_iff (m := result.addr) (n := result.addr + result.vtype.size) BulkWrite.addr BulkWrite.stop
    hsorted
  unfold refresh
  dsimp only
  by_cases hfound : ∃ w ∈ writes, result.Overlaps w
  · left
    rw [if_pos (hiff.mpr hfound)]
    exact ⟨hfound, rfl⟩
  · right
    rw [if_neg fun h => hfound (hiff.mp h)]
    exact ⟨fun w hw h => hfound ⟨w, hw, h⟩, rfl⟩

lemma containingAllocation_eq_some {allocations : List (ℕ × ℕ)} {addr size : ℕ} {a : ℕ × ℕ}
    (h : containingAllocation allocations addr size = some a) :
    a ∈ allocations ∧ a.1 ≤ addr ∧ addr + size ≤ a.1 + a.2 := by
  rw [containingAllocation] at h
  cases hpoint : partitionPoint (fun a : ℕ × ℕ => decide (a.1 ≤ addr)) allocations with
  | zero =>
    rw [hpoint] at h
    cases h
  | succ i =>
    rw [hpoint] at h
    obtain ⟨hget, hend⟩ := Option.filter_eq_some_iff.mp h
    have hbefore : a ∈ allocations.take (i + 1) := by
      rw [mem_take_iff_getElem]
      obtain ⟨hi, rfl⟩ := List.getElem?_eq_some_iff.mp hget
      exact ⟨i, by omega, rfl⟩
    rw [← hpoint, take_partitionPoint] at hbefore
    have hstart := mem_takeWhile_imp hbefore
    exact ⟨(takeWhile_sublist _).subset hbefore, of_decide_eq_true hstart, of_decide_eq_true hend⟩

structure Refreshed (mem : Mem) (writes : List BulkWrite) (r r' : SearchResult) : Prop where
  place : r'.addr = r.addr ∧ r'.vtype = r.vtype
  read : (∃ w ∈ writes, r.Overlaps w) → ∀ n, r.vtype.readAt mem r.addr = some n → r'.bits = n
  unread : (∃ w ∈ writes, r.Overlaps w) → r.vtype.readAt mem r.addr = none → r'.bits = r.bits
  other : (∀ w ∈ writes, ¬ r.Overlaps w) → r' = r

structure Applied (host : Host) (text : List Char) (safeMode : Bool) (plan : BulkPlan) (mem : Mem)
    (results : List SearchResult) (mem' : Mem) (results' : List SearchResult) : Prop where
  allocated : ∀ w ∈ plan.writes, w.allocation ∈ mem.liveAllocations ∧ w.allocation.1 ≤ w.addr ∧
    w.stop ≤ w.allocation.1 + w.allocation.2
  held : ∀ w ∈ plan.writes, w.vtype.readAt mem w.addr = some w.before
  others : mem'.nullSegmentSize = mem.nullSegmentSize ∧ mem'.liveAllocations = mem.liveAllocations ∧
    ∀ a, (∀ w ∈ plan.writes, a < w.addr ∨ w.stop ≤ a) → mem'.bytes a = mem.bytes a
  results : List.Forall₂ (Refreshed mem' plan.writes) results results'
  aligned : safeMode = true → ∀ w ∈ plan.writes, w.addr % w.vtype.size = 0
  disjoint : safeMode = true → plan.writes.Pairwise fun a b => a.stop ≤ b.addr
  written : safeMode = true → ∀ w ∈ plan.writes, ∃ n, w.vtype.parse host.readF32 text = some n ∧
    w.vtype.readAt mem' w.addr = some n

def AllOrNothing (host : Host) (text : List Char) (safeMode : Bool) (plan : BulkPlan) (mem : Mem)
    (results : List SearchResult) : Except String ℕ × Mem × List SearchResult → Prop
  | (.error _, mem', results') => mem' = mem ∧ results' = results
  | (.ok n, mem', results') => n = plan.writes.length ∧
    Applied host text safeMode plan mem results mem' results'

lemma obstacle_eq_none {allocations : List (ℕ × ℕ)} {plan : BulkPlan}
    (h : obstacle mem allocations results plan w = none) :
    containingAllocation allocations w.addr w.vtype.size = some w.allocation ∧
      w.vtype.readAt mem w.addr = some w.before := by
  rw [obstacle] at h
  cases hresult : results[w.index]? with
  | none =>
    rw [hresult] at h
    cases h
  | some result =>
    rw [hresult] at h
    dsimp only at h
    split_ifs at h with hbad
    push Not at hbad
    obtain ⟨-, -, -, -, hallocation, hread⟩ := hbad
    exact ⟨hallocation, hread⟩

lemma refreshed (hsorted : writes.Pairwise fun a b => a.addr ≤ b.addr) :
    Refreshed mem writes result (refresh mem writes result) := by
  obtain ⟨hover, heq⟩ | ⟨hnot, heq⟩ := refresh_eq mem result hsorted
  · rw [heq]
    refine ⟨⟨rfl, rfl⟩, fun _ n hn => ?_, fun _ hnone => ?_, fun hnot => ?_⟩
    · change (result.vtype.readAt mem result.addr).getD result.bits = n
      rw [hn]
      rfl
    · change (result.vtype.readAt mem result.addr).getD result.bits = result.bits
      rw [hnone]
      rfl
    · obtain ⟨w, hw, h⟩ := hover
      exact absurd h (hnot w hw)
  · rw [heq]
    refine ⟨⟨rfl, rfl⟩, fun hover => ?_, fun _ _ => rfl, fun _ => rfl⟩
    obtain ⟨w, hw, h⟩ := hover
    exact absurd h (hnot w hw)

lemma applyBulk_allOrNothing {host : Host} {mem₀ : Mem} {results₀ : List SearchResult} {requestedType : VType}
    {safeMode : Bool} {filter : ResultFilter} {plan : BulkPlan}
    (hplan : host.planBulk mem₀ results₀ requestedType text safeMode filter = .ok plan) (mem : Mem)
    (results : List SearchResult) :
    AllOrNothing host text safeMode plan mem results (host.applyBulk mem results plan) := by
  obtain ⟨hplanned, hsorted, hdisjoint⟩ := Host.planBulk_eq_ok hplan
  unfold Host.applyBulk
  dsimp only
  cases hobstacle : plan.writes.findSome? (obstacle mem (host.allocations.sort mem.liveAllocations) results plan) with
  | some reason => exact ⟨rfl, rfl⟩
  | none =>
    have hclear : ∀ w ∈ plan.writes, _ := fun w hw =>
      obstacle_eq_none (findSome?_eq_none_iff.mp hobstacle w hw)
    have hreadable : ∀ w ∈ plan.writes, ∃ n, w.vtype.readAt mem w.addr = some n :=
      fun w hw => ⟨_, (hclear w hw).2⟩
    obtain ⟨mem', hwrite, hnull, hlive, hframe⟩ := writeAll_ok hreadable
    rw [hwrite]
    refine ⟨rfl, ?_⟩
    constructor
    · intro w hw
      obtain ⟨hmem, hbounds⟩ := containingAllocation_eq_some (hclear w hw).1
      exact ⟨(host.allocations.perm _).subset hmem, hbounds⟩
    · exact fun w hw => (hclear w hw).2
    · exact ⟨hnull, hlive, hframe⟩
    · rw [List.forall₂_map_right_iff, List.forall₂_same]
      exact fun result _ => refreshed hsorted
    · exact fun hsafe w hw => (hplanned w hw).aligned hsafe
    · exact hdisjoint
    · intro hsafe w hw
      have hfits : ∀ w ∈ plan.writes, w.after < 256 ^ w.vtype.size :=
        fun w hw => VType.parse_lt (hplanned w hw).concrete (hplanned w hw).value
      exact ⟨w.after, (hplanned w hw).value, readAt_writeAll hwrite hreadable hfits (hdisjoint hsafe) w hw⟩

def bulkConfirmTimeout : ℕ := 15 * 10 ^ 9

inductive TrainerCmd
  | setAll (vtype : VType) (text : List Char) (confirm safeMode : Bool) (filter : ResultFilter)
  | other (mem : Mem) (results : List SearchResult)

structure TrainerState where
  mem : Mem
  results : List SearchResult
  pendingBulk : Option (BulkPlan × ℕ)

/-- What happens to a trainer: commands, at some time, a preview that has expired or belongs to an app that
is left, and anything that the guest or the refreshing of values does in between. -/
inductive TrainerEvent
  | command (cmd : TrainerCmd) (now : ℕ)
  | expired
  | world (mem : Mem) (results : List SearchResult)

inductive Outcome
  | nothing
  | refused (reason : String)
  | previewed (plan : BulkPlan)
  | applied (plan : BulkPlan) (written : Except String ℕ)

namespace Host

variable (host : Host)

def setAll (s : TrainerState) (vtype : VType) (text : List Char) (confirm safeMode : Bool)
    (filter : ResultFilter) (now : ℕ) : TrainerState × Outcome :=
  match host.planBulk s.mem s.results vtype text safeMode filter with
  | .error reason => ({ s with pendingBulk := none }, .refused reason)
  | .ok plan =>
    -- it is planned again for the confirmation, so that a changed plan is only previewed
    if confirm ∧ s.pendingBulk.any fun pending => now - pending.2 < bulkConfirmTimeout ∧ pending.1 = plan then
      let applied := host.applyBulk s.mem s.results plan
      (⟨applied.2.1, applied.2.2, none⟩, .applied plan applied.1)
    else ({ s with pendingBulk := some (plan, now) }, .previewed plan)

def step (s : TrainerState) : TrainerEvent → TrainerState × Outcome
  | .command (.setAll vtype text confirm safeMode filter) now =>
    host.setAll s vtype text confirm safeMode filter now
  | .command (.other mem results) _ => (⟨mem, results, none⟩, .nothing)
  | .expired => ({ s with pendingBulk := none }, .nothing)
  | .world mem results => ({ s with mem, results }, .nothing)

def history (s : TrainerState) (before : List (TrainerEvent × Outcome)) :
    List TrainerEvent → TrainerState × List (TrainerEvent × Outcome)
  | [] => (s, before)
  | e :: es => history (host.step s e).1 (before ++ [(e, (host.step s e).2)]) es

end Host

def TrainerEvent.IsCommand : TrainerEvent → Prop
  | .command _ _ => True
  | _ => False

def TrainerEvent.IsConfirmation : TrainerEvent → Prop
  | .command (.setAll _ _ confirm _ _) _ => confirm = true
  | _ => False

def PreviewedLast (plan : BulkPlan) (h : List (TrainerEvent × Outcome)) : Prop :=
  ∃ before e after, h = before ++ (e, .previewed plan) :: after ∧ ∀ x ∈ after, ¬ x.1.IsCommand

variable {host : Host} {s : TrainerState} {e : TrainerEvent} {plan : BulkPlan} {written : Except String ℕ}
  {before : List (TrainerEvent × Outcome)}

namespace Host

lemma setAll_cases (host : Host) (s : TrainerState) (vtype : VType) (text : List Char) (confirm safeMode : Bool)
    (filter : ResultFilter) (now : ℕ) :
    (∃ reason, host.setAll s vtype text confirm safeMode filter now =
        ({ s with pendingBulk := none }, .refused reason)) ∨
      (∃ plan, host.setAll s vtype text confirm safeMode filter now =
        ({ s with pendingBulk := some (plan, now) }, .previewed plan)) ∨
      ∃ plan t, confirm = true ∧ s.pendingBulk = some (plan, t) ∧ now - t < bulkConfirmTimeout ∧
        host.planBulk s.mem s.results vtype text safeMode filter = .ok plan ∧
        host.setAll s vtype text confirm safeMode filter now =
          (⟨(host.applyBulk s.mem s.results plan).2.1, (host.applyBulk s.mem s.results plan).2.2, none⟩,
            .applied plan (host.applyBulk s.mem s.results plan).1) := by
  rw [setAll]
  cases hplan : host.planBulk s.mem s.results vtype text safeMode filter with
  | error reason => exact .inl ⟨reason, rfl⟩
  | ok plan =>
    right
    dsimp only
    split_ifs with hconfirm
    · right
      obtain ⟨hyes, hany⟩ := hconfirm
      cases hpending : s.pendingBulk with
      | none =>
        rw [hpending] at hany
        cases hany
      | some pending =>
        obtain ⟨p, t⟩ := pending
        rw [hpending] at hany
        obtain ⟨htime, heq⟩ := of_decide_eq_true hany
        obtain rfl : p = plan := heq
        exact ⟨p, t, hyes, rfl, htime, rfl, rfl⟩
    · exact .inl ⟨plan, rfl⟩

lemma step_pending (hs : ∀ plan t, s.pendingBulk = some (plan, t) → PreviewedLast plan before)
    (e : TrainerEvent) (plan : BulkPlan) (t : ℕ) (h : (host.step s e).1.pendingBulk = some (plan, t)) :
    PreviewedLast plan (before ++ [(e, (host.step s e).2)]) := by
  have hkeep : ∀ o, ¬ e.IsCommand → s.pendingBulk = some (plan, t) → PreviewedLast plan (before ++ [(e, o)]) := by
    intro o he hpending
    obtain ⟨before', e', after, rfl, hafter⟩ := hs plan t hpending
    refine ⟨before', e', after ++ [(e, o)], by rw [append_assoc, cons_append], ?_⟩
    intro x hx
    obtain hx | hx := mem_append.mp hx
    · exact hafter x hx
    · rw [mem_singleton.mp hx]
      exact he
  cases e with
  | command cmd now =>
    cases cmd with
    | setAll vtype text confirm safeMode filter =>
      rw [step] at h ⊢
      obtain ⟨reason, heq⟩ | ⟨p, heq⟩ | ⟨p, t', -, -, -, -, heq⟩ :=
        setAll_cases host s vtype text confirm safeMode filter now
      · rw [heq] at h
        cases h
      · rw [heq] at h ⊢
        obtain ⟨rfl, -⟩ := Prod.mk.inj (Option.some.inj h)
        exact ⟨before, _, [], rfl, forall_mem_nil _⟩
      · rw [heq] at h
        cases h
    | other mem results => cases h
  | expired => cases h
  | world mem results => exact hkeep _ (fun h => h) h

lemma history_pending : ∀ (events : List TrainerEvent) {s : TrainerState} {before : List (TrainerEvent × Outcome)},
    (∀ plan t, s.pendingBulk = some (plan, t) → PreviewedLast plan before) →
    ∀ plan t, (host.history s before events).1.pendingBulk = some (plan, t) →
      PreviewedLast plan (host.history s before events).2 := by
  intro events
  induction events with
  | nil => exact fun h => h
  | cons e es ih => exact fun h => ih (step_pending h e)

lemma step_applied (hs : ∀ plan t, s.pendingBulk = some (plan, t) → PreviewedLast plan before)
    (h : (host.step s e).2 = .applied plan written) : e.IsConfirmation ∧ PreviewedLast plan before := by
  cases e with
  | command cmd now =>
    cases cmd with
    | setAll vtype text confirm safeMode filter =>
      rw [step] at h
      obtain ⟨reason, heq⟩ | ⟨p, heq⟩ | ⟨p, t, hconfirm, hpending, -, -, heq⟩ :=
        setAll_cases host s vtype text confirm safeMode filter now
      · rw [heq] at h
        cases h
      · rw [heq] at h
        cases h
      · rw [heq] at h
        obtain ⟨rfl, -⟩ := Outcome.applied.inj h
        exact ⟨hconfirm, hs p t hpending⟩
    | other mem results => cases h
  | expired => cases h
  | world mem results => cases h

/-- A plan that is applied is applied as a whole or not at all, and the command applies no plan but the one
that the command before it has previewed. -/
theorem bulk_edits_are_exact (host : Host) :
    (∀ mem₀ results₀ requestedType text safeMode filter plan,
      host.planBulk mem₀ results₀ requestedType text safeMode filter = .ok plan →
      ∀ mem results, AllOrNothing host text safeMode plan mem results (host.applyBulk mem results plan)) ∧
    (∀ s vtype text confirm safeMode filter now,
      (host.setAll s vtype text confirm safeMode filter now).1.mem = s.mem ∧
        (host.setAll s vtype text confirm safeMode filter now).1.results = s.results ∨
      ∃ plan, (host.setAll s vtype text confirm safeMode filter now).2 =
        .applied plan (host.applyBulk s.mem s.results plan).1) ∧
    ∀ mem results events e plan written,
      (host.step (host.history ⟨mem, results, none⟩ [] events).1 e).2 = .applied plan written →
      e.IsConfirmation ∧ PreviewedLast plan (host.history ⟨mem, results, none⟩ [] events).2 := by
  refine ⟨fun mem₀ results₀ requestedType text safeMode filter plan h => applyBulk_allOrNothing h, ?_, ?_⟩
  · intro s vtype text confirm safeMode filter now
    obtain ⟨reason, heq⟩ | ⟨p, heq⟩ | ⟨p, t, -, -, -, -, heq⟩ :=
      setAll_cases host s vtype text confirm safeMode filter now
    · rw [heq]
      exact .inl ⟨rfl, rfl⟩
    · rw [heq]
      exact .inl ⟨rfl, rfl⟩
    · rw [heq]
      exact .inr ⟨p, rfl⟩
  · intro mem results events e plan written h
    refine step_applied (history_pending events ?_) h
    rintro plan t ⟨⟩

def plainHost : Host where
  allocations := {
    sort := List.insertionSort fun a b => a.1 ≤ b.1
    perm := perm_insertionSort _
    sorted := pairwise_insertionSort _ }
  writes := {
    sort := List.insertionSort fun a b => a.key ≤ b.key
    perm := perm_insertionSort _
    sorted := pairwise_insertionSort _ }
  readF32 _ := none

def unknown : Analysis := ⟨.unknown, .pending, ∅, false, 0, 0, ∅, 0, 0, 0, 0⟩

def smallMem : Mem := ⟨fun _ => 0, 16, [(16, 16)]⟩

def twoResults : List SearchResult := [⟨16, .u8, 0, false, unknown⟩, ⟨14, .i32, 5, false, unknown⟩]

def onePlan : BulkPlan := ⟨.auto, ['7'], true, .all, [⟨0, 16, .u8, 0, 7, (16, 16)⟩], 1⟩

theorem overlapping_result_is_not_read :
    plainHost.planBulk smallMem twoResults .auto ['7'] true .all = .ok onePlan ∧
      (plainHost.applyBulk smallMem twoResults onePlan).1 = .ok 1 ∧
      (plainHost.applyBulk smallMem twoResults onePlan).2.2.map (fun r => (r.addr, r.bits)) = [(16, 7), (14, 5)] ∧
      fromLeBytes ((List.range 4).map fun i =>
        (plainHost.applyBulk smallMem twoResults onePlan).2.1.bytes (14 + i)) ≠ 5 := by
  refine ⟨by decide +kernel, by decide +kernel, by decide +kernel, by decide +kernel⟩

end Host

end TouchHle.Trainer
