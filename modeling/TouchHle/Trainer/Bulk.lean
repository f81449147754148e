import TouchHle.Lib.Intervals
import TouchHle.Trainer.Values

/-! Bulk editing: a filtered batch of writes is planned, and checked again before it is applied. -/

namespace TouchHle.Trainer

open Lib List Except

inductive Category
  | money
  | ammo
  | health
  | score
  | timer
  | unknown
  deriving DecidableEq

inductive ResultFilter
  | all
  | category (c : Category)
  deriving DecidableEq

def ResultFilter.matchesCategory (f : ResultFilter) (c : Category) : Bool := f = .all ∨ f = .category c

inductive Evidence
  | pending
  | none
  | nearbyText
  | unitDrops
  | smoothDrops
  | textAndChanges
  | conflictingText
  | scalarField
  | reloadCycles
  deriving DecidableEq

structure Analysis where
  category : Category
  evidence : Evidence
  textMask : Finset Category
  inspected : Bool
  unitDrops : ℕ
  smoothDrops : ℕ
  fieldMask : Finset Category
  reloads : ℕ
  peak : ℕ
  lastRate : UInt32
  quietSeconds : UInt32

namespace Analysis

def categories : List Category := [.money, .ammo, .health, .score, .timer, .unknown]

def updateHint (a : Analysis) : Analysis :=
  let a := { a with category := .unknown, evidence := if a.inspected then .none else .pending }
  if a.fieldMask.card = 1 then
    { a with category := (categories.find? (· ∈ a.fieldMask)).getD .unknown, evidence := .scalarField }
  else if 1 < a.fieldMask.card ∨ 1 < a.textMask.card then { a with evidence := .conflictingText }
  else
    match (categories.take 5).find? (· ∈ a.textMask) with
    | some category =>
      { a with
        category
        evidence := if (category = .ammo ∧ 2 ≤ a.reloads) ∨ (category = .timer ∧ 6 ≤ a.smoothDrops)
          then .textAndChanges else .nearbyText }
    | none =>
      if 2 ≤ a.reloads then { a with category := .ammo, evidence := .reloadCycles }
      else if 6 ≤ a.smoothDrops then { a with category := .timer, evidence := .smoothDrops }
      else if 3 ≤ a.unitDrops then { a with evidence := .unitDrops }
      else a

def resetHistory (a : Analysis) : Analysis :=
  updateHint { a with
    unitDrops := 0, smoothDrops := 0, reloads := 0, peak := 0, lastRate := 0, quietSeconds := 0 }

end Analysis

structure SearchResult where
  addr : ℕ
  vtype : VType
  bits : ℕ
  changed : Bool
  analysis : Analysis

structure BulkWrite where
  index : ℕ
  addr : ℕ
  vtype : VType
  before : ℕ
  after : ℕ
  allocation : ℕ × ℕ
  deriving DecidableEq

def BulkWrite.stop (w : BulkWrite) : ℕ := w.addr + w.vtype.size

def BulkWrite.key (w : BulkWrite) : ℕ ×ₗ ℕ := toLex (w.addr, w.stop)

structure BulkPlan where
  requestedType : VType
  text : List Char
  safeMode : Bool
  filter : ResultFilter
  writes : List BulkWrite
  skipped : ℕ
  deriving DecidableEq

structure Host where
  allocations : UnstableSort (ℕ × ℕ) ℕ Prod.fst
  writes : UnstableSort BulkWrite (ℕ ×ₗ ℕ) BulkWrite.key
  readF32 : VType.ReadF32

def containingAllocation (allocations : List (ℕ × ℕ)) (addr size : ℕ) : Option (ℕ × ℕ) :=
  match partitionPoint (fun a : ℕ × ℕ => a.1 ≤ addr) allocations with
  | 0 => none
  | i + 1 => (allocations[i]?).filter fun a => addr + size ≤ a.1 + a.2

def refuse (safeMode : Bool) (reason : String) : Except String (Option BulkWrite) :=
  if safeMode then .ok none else .error reason

namespace Host

variable (host : Host)

def candidate (mem : Mem) (allocations : List (ℕ × ℕ)) (requestedType : VType) (text : List Char)
    (safeMode : Bool) (filter : ResultFilter) (index : ℕ) (result : SearchResult) :
    Except String (Option BulkWrite) :=
  let t := result.vtype
  if !filter.matchesCategory result.analysis.category then .ok none
  else if t = .auto ∨ (requestedType ≠ .auto ∧ requestedType ≠ t) then
    refuse safeMode "TYPE CHANGED: SEARCH AGAIN"
  else
    match t.parse host.readF32 text with
    | none => refuse safeMode "VALUE OUT OF RANGE: CHECK TYPE"
    | some after =>
      if (safeMode ∧ result.addr % t.size ≠ 0) ∨ after = result.bits then .ok none
      else
        match containingAllocation allocations result.addr t.size with
        | none => refuse safeMode "EXPIRED ADDRESS: SEARCH AGAIN"
        | some allocation =>
          if t.readAt mem result.addr ≠ some result.bits then refuse safeMode "VALUES CHANGED: REFINE FIRST"
          else .ok (some ⟨index, result.addr, t, result.bits, after, allocation⟩)

def candidates (find : ℕ → SearchResult → Except String (Option BulkWrite)) :
    ℕ → List SearchResult → Except String (List BulkWrite)
  | _, [] => .ok []
  | index, result :: results =>
    match find index result with
    | .error reason => .error reason
    | .ok found =>
      match candidates find (index + 1) results with
      | .error reason => .error reason
      | .ok writes => .ok (found.toList ++ writes)

end Host

def overlapping : ℕ → List BulkWrite → List BulkWrite × List BulkWrite
  | _, [] => ([], [])
  | stop, w :: ws =>
    if w.addr < stop then
      let group := overlapping (max stop w.stop) ws
      (w :: group.1, group.2)
    else ([], w :: ws)

def withoutConflicts (safeMode : Bool) (ws : List BulkWrite) : List BulkWrite := go ws.length ws
where
  go : ℕ → List BulkWrite → List BulkWrite
    | _, [] => []
    | 0, ws => ws
    | rounds + 1, w :: ws =>
      let group := overlapping w.stop ws
      if safeMode ∧ group.1 ≠ [] then go rounds group.2 else w :: group.1 ++ go rounds group.2

namespace Host

variable (host : Host)

def planBulk (mem : Mem) (results : List SearchResult) (requestedType : VType) (text : List Char)
    (safeMode : Bool) (filter : ResultFilter) : Except String BulkPlan :=
  if results = [] then .error "NO RESULTS TO SET"
  else if requestedType.parse host.readF32 text = none then .error "BAD VALUE: CHECK TYPE"
  else
    let allocations := host.allocations.sort mem.liveAllocations
    match candidates (host.candidate mem allocations requestedType text safeMode filter) 0 results with
    | .error reason => .error reason
    | .ok found =>
      let writes := withoutConflicts safeMode (host.writes.sort found)
      if writes = [] then .error "NO ELIGIBLE HITS: REFINE / CHECK TYPE"
      else
        .ok {
          requestedType
          text := trim text
          safeMode
          filter
          writes
          skipped := results.countP (fun r => filter.matchesCategory r.analysis.category) - writes.length }

end Host

def obstacle (mem : Mem) (allocations : List (ℕ × ℕ)) (results : List SearchResult) (plan : BulkPlan)
    (w : BulkWrite) : Option String :=
  match results[w.index]? with
  | none => some "RESULTS CHANGED: PREVIEW AGAIN"
  | some result =>
    if plan.filter.matchesCategory result.analysis.category = false ∨ result.addr ≠ w.addr ∨
        result.vtype ≠ w.vtype ∨ result.bits ≠ w.before ∨
        containingAllocation allocations w.addr w.vtype.size ≠ some w.allocation ∨
        w.vtype.readAt mem w.addr ≠ some w.before then
      some "MEMORY CHANGED: PREVIEW AGAIN"
    else none

def writeAll (mem : Mem) : List BulkWrite → Bool × Mem
  | [] => (true, mem)
  | w :: ws =>
    match w.vtype.writeAt mem w.addr w.after with
    | (true, mem) => writeAll mem ws
    | (false, mem) => (false, mem)

def refresh (mem : Mem) (writes : List BulkWrite) (result : SearchResult) : SearchResult :=
  let ends := runningMax 0 (writes.map BulkWrite.stop)
  let stop := result.addr + result.vtype.size
  let i := partitionPoint (fun w : BulkWrite => w.addr < stop) writes
  if 0 < i ∧ result.addr < ends.getD (i - 1) 0 then
    { result with
      bits := (result.vtype.readAt mem result.addr).getD result.bits
      changed := false
      analysis := result.analysis.resetHistory }
  else result

def Host.applyBulk (host : Host) (mem : Mem) (results : List SearchResult) (plan : BulkPlan) :
    Except String ℕ × Mem × List SearchResult :=
  let allocations := host.allocations.sort mem.liveAllocations
  match plan.writes.findSome? (obstacle mem allocations results plan) with
  | some reason => (.error reason, mem, results)
  | none =>
    match writeAll mem plan.writes with
    | (false, mem) => (.error "WRITE FAILED (BAD ADDR?)", mem, results)
    | (true, mem) => (.ok plan.writes.length, mem, results.map (refresh mem plan.writes))

variable {ws found : List BulkWrite} {w : BulkWrite} {stop : ℕ} {safeMode : Bool} {rounds : ℕ}

lemma overlapping_append : ∀ (stop : ℕ) (ws : List BulkWrite),
    (overlapping stop ws).1 ++ (overlapping stop ws).2 = ws := by
  intro stop ws
  induction ws generalizing stop with
  | nil => rfl
  | cons w ws ih =>
    rw [overlapping]
    split_ifs with h
    · exact congrArg (w :: ·) (ih (max stop w.stop))
    · rfl

lemma le_of_overlapping_nil (hsorted : ws.Pairwise fun a b => a.addr ≤ b.addr)
    (h : (overlapping stop ws).1 = []) : ∀ w ∈ ws, stop ≤ w.addr := by
  cases ws with
  | nil => exact forall_mem_nil _
  | cons v ws =>
    rw [overlapping] at h
    split_ifs at h with hlt
    have hv : stop ≤ v.addr := Nat.le_of_not_lt hlt
    intro w hw
    obtain rfl | hw := mem_cons.mp hw
    · exact hv
    · exact hv.trans ((pairwise_cons.mp hsorted).1 w hw)

lemma go_sublist : ∀ (rounds : ℕ) (ws : List BulkWrite),
    (withoutConflicts.go safeMode rounds ws).Sublist ws := by
  intro rounds
  induction rounds with
  | zero =>
    intro ws
    cases ws <;> exact List.Sublist.refl _
  | succ rounds ih =>
    intro ws
    cases ws with
    | nil => exact List.Sublist.refl _
    | cons w ws =>
      have hsplit := overlapping_append w.stop ws
      rw [withoutConflicts.go]
      split_ifs
      · have hrest : (overlapping w.stop ws).2.Sublist ws := by
          conv_rhs => rw [← hsplit]
          exact sublist_append_right _ _
        exact ((ih _).trans hrest).cons w
      · have hall : ((overlapping w.stop ws).1 ++
            withoutConflicts.go safeMode rounds (overlapping w.stop ws).2).Sublist ws := by
          conv_rhs => rw [← hsplit]
          exact Sublist.append_left (ih _) _
        exact hall.cons_cons w

lemma go_disjoint : ∀ (rounds : ℕ) (ws : List BulkWrite), ws.length ≤ rounds →
    (ws.Pairwise fun a b => a.addr ≤ b.addr) →
    (withoutConflicts.go true rounds ws).Pairwise fun a b => a.stop ≤ b.addr := by
  intro rounds
  induction rounds with
  | zero =>
    intro ws hlen _
    rw [length_eq_zero_iff.mp (Nat.le_zero.mp hlen)]
    exact List.Pairwise.nil
  | succ rounds ih =>
    intro ws hlen hsorted
    cases ws with
    | nil => exact List.Pairwise.nil
    | cons w ws =>
      obtain ⟨-, hws⟩ := pairwise_cons.mp hsorted
      have hsplit := overlapping_append w.stop ws
      have hrest : (overlapping w.stop ws).2.Sublist ws := by
        conv_rhs => rw [← hsplit]
        exact sublist_append_right _ _
      have hlen' : (overlapping w.stop ws).2.length ≤ rounds :=
        hrest.length_le.trans (Nat.le_of_succ_le_succ hlen)
      have hdisjoint := ih _ hlen' (hws.sublist hrest)
      rw [withoutConflicts.go]
      split_ifs with hgroup
      · exact hdisjoint
      · have hnil : (overlapping w.stop ws).1 = [] := by
          by_contra hne
          exact hgroup ⟨rfl, hne⟩
        rw [hnil, singleton_append]
        refine pairwise_cons.mpr ⟨fun v hv => ?_, hdisjoint⟩
        exact le_of_overlapping_nil hws hnil v (hrest.subset ((go_sublist _ _).subset hv))

lemma withoutConflicts_sublist : (withoutConflicts safeMode ws).Sublist ws := go_sublist _ _

namespace Host

variable {host : Host} {mem : Mem} {results : List SearchResult} {requestedType : VType} {text : List Char}
  {filter : ResultFilter} {plan : BulkPlan}

structure Planned (host : Host) (mem : Mem) (text : List Char) (safeMode : Bool) (w : BulkWrite) : Prop where
  concrete : w.vtype ≠ .auto
  value : w.vtype.parse host.readF32 text = some w.after
  aligned : safeMode = true → w.addr % w.vtype.size = 0
  read : w.vtype.readAt mem w.addr = some w.before

lemma refuse_ne {reason : String} : refuse safeMode reason ≠ .ok (some w) := by
  rw [refuse]
  cases safeMode
  · rintro ⟨⟩
  · rintro ⟨⟩

lemma candidate_eq_some {allocations : List (ℕ × ℕ)} {index : ℕ} {result : SearchResult}
    (h : host.candidate mem allocations requestedType text safeMode filter index result = .ok (some w)) :
    Planned host mem text safeMode w := by
  unfold candidate at h
  dsimp only at h
  by_cases hfilter : (!filter.matchesCategory result.analysis.category) = true
  · rw [if_pos hfilter] at h
    cases h
  rw [if_neg hfilter] at h
  by_cases htype : result.vtype = .auto ∨ (requestedType ≠ .auto ∧ requestedType ≠ result.vtype)
  · rw [if_pos htype] at h
    exact absurd h refuse_ne
  rw [if_neg htype] at h
  cases hafter : result.vtype.parse host.readF32 text with
  | none =>
    rw [hafter] at h
    exact absurd h refuse_ne
  | some after =>
    rw [hafter] at h
    dsimp only at h
    by_cases hskip : (safeMode ∧ result.addr % result.vtype.size ≠ 0) ∨ after = result.bits
    · rw [if_pos hskip] at h
      cases h
    rw [if_neg hskip] at h
    cases hallocation : containingAllocation allocations result.addr result.vtype.size with
    | none =>
      rw [hallocation] at h
      exact absurd h refuse_ne
    | some allocation =>
      rw [hallocation] at h
      dsimp only at h
      by_cases hread : result.vtype.readAt mem result.addr ≠ some result.bits
      · rw [if_pos hread] at h
        exact absurd h refuse_ne
      rw [if_neg hread] at h
      obtain rfl := Option.some.inj (ok.inj h)
      refine ⟨fun hauto => htype (.inl hauto), hafter, fun hsafe => ?_, not_not.mp hread⟩
      by_contra hmod
      exact hskip (.inl ⟨hsafe, hmod⟩)

lemma candidates_planned {find : ℕ → SearchResult → Except String (Option BulkWrite)} {P : BulkWrite → Prop}
    (hfind : ∀ index result w, find index result = .ok (some w) → P w) : ∀ (results : List SearchResult) (index : ℕ)
    {found}, candidates find index results = .ok found → ∀ w ∈ found, P w := by
  intro results
  induction results with
  | nil =>
    intro index found h
    obtain rfl := ok.inj h
    exact forall_mem_nil _
  | cons result results ih =>
    intro index found h
    rw [candidates] at h
    cases hresult : find index result with
    | error reason =>
      rw [hresult] at h
      cases h
    | ok o =>
      rw [hresult] at h
      dsimp only at h
      cases hrest : candidates find (index + 1) results with
      | error reason =>
        rw [hrest] at h
        cases h
      | ok writes =>
        rw [hrest] at h
        obtain rfl := ok.inj h
        intro w hw
        obtain hw | hw := mem_append.mp hw
        · have hsome : o = some w := Option.mem_toList.mp hw
          exact hfind index result w (hresult.trans (congrArg Except.ok hsome))
        · exact ih _ hrest w hw

lemma planBulk_eq_ok (h : host.planBulk mem results requestedType text safeMode filter = .ok plan) :
    (∀ w ∈ plan.writes, Planned host mem text safeMode w) ∧
      (plan.writes.Pairwise fun a b => a.addr ≤ b.addr) ∧
      (safeMode = true → plan.writes.Pairwise fun a b => a.stop ≤ b.addr) := by
  unfold planBulk at h
  dsimp only at h
  split_ifs at h with hresults hparse
  cases hfound : candidates (host.candidate mem (host.allocations.sort mem.liveAllocations) requestedType text
      safeMode filter) 0 results with
  | error reason =>
    rw [hfound] at h
    cases h
  | ok found =>
    rw [hfound] at h
    dsimp only at h
    split_ifs at h with hempty
    obtain rfl := ok.inj h
    have hsorted : (host.writes.sort found).Pairwise fun a b => a.addr ≤ b.addr :=
      (host.writes.sorted found).imp fun {a b} hab => Prod.Lex.monotone_fst _ _ hab
    refine ⟨fun w hw => ?_, hsorted.sublist withoutConflicts_sublist, ?_⟩
    · have hfound' : w ∈ found := (host.writes.perm found).subset (withoutConflicts_sublist.subset hw)
      exact candidates_planned (fun _ _ _ => candidate_eq_some) results 0 hfound w hfound'
    · rintro rfl
      exact go_disjoint _ _ (Nat.le_refl _) hsorted

end Host

end TouchHle.Trainer
