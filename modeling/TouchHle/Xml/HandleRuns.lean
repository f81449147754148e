import TouchHle.Lib.Runs
import TouchHle.Xml.Library

namespace TouchHle.Xml

open Lib List Except Option HandleTable Function

/-- The table and libxml2's objects, with the handles that were ever returned to the guest and the
objects they were returned for. -/
structure World where
  table : HandleTable
  host : Host
  issued : List (Id × Obj)

structure Event where
  call : Call Id
  answer : Answer

namespace World

def initial (host : Host) : World where
  table := .empty
  host := host
  issued := []

def step (s : World) (e : Event) : Checked World :=
  match e.call.request s.table with
  | none => return { s with table := e.call.released s.table }
  | some _ =>
    match e.call.wrapper with
    | .issuing => do
      let (id, table) ← s.table.idFor e.answer.result
      return {
        table := table
        host := e.answer.host
        issued := ((e.answer.host.object e.answer.result).map (id, ·)).toList ++ s.issued }
    | _ => return { s with table := e.call.released s.table, host := e.answer.host }

def Documented (s : World) (e : Event) : Prop :=
  ∀ c, e.call.request s.table = some c → (c.effect s.host).Allows s.host e.answer

def FreesNoOther (s : World) (e : Event) : Prop :=
  e.call.request s.table ≠ none →
    ∀ p ∈ e.answer.freed, ∀ id, s.table.byId id = some p → e.call.wrapper = .releasing id

structure Sound (s : World) : Prop where
  live : ∀ id p, s.table.byId id = some p → ∃ o, s.host.object p = some o ∧ (id, o) ∈ s.issued
  null : ∀ id o, (id, o) ∈ s.issued → ¬ s.host.Live o → s.table.ptrFor id = 0
  resolves : ∀ id o p, (id, o) ∈ s.issued → s.host.object p = some o → s.table.byId id = some p
  one : ∀ id id' o, (id, o) ∈ s.issued → (id', o) ∈ s.issued → s.host.Live o → id = id'
  distinct : ∀ id o o', (id, o) ∈ s.issued → (id, o') ∈ s.issued → o = o'

structure Inv (s : World) : Prop where
  paired : s.table.Paired
  live : ∀ id p, s.table.byId id = some p → ∃ o, s.host.object p = some o ∧ (id, o) ∈ s.issued
  resolves : ∀ id o p, (id, o) ∈ s.issued → s.host.object p = some o → s.table.byId id = some p
  distinct : ∀ id o o', (id, o) ∈ s.issued → (id, o') ∈ s.issued → o = o'
  old : ∀ id o, (id, o) ∈ s.issued → id < s.table.nextId ∧ o.serial < s.host.made

variable {s s' : World} {e : Event} {id : Id} {o : Obj} {p : Addr}

lemma inv_initial (host : Host) : (initial host).Inv where
  paired := paired_empty
  live := by simp [initial, empty]
  resolves := by simp [initial]
  distinct := by simp [initial]
  old := by simp [initial]

lemma Inv.object_of_byId (h : s.Inv) (hid : s.table.byId id = some p) (ho : (id, o) ∈ s.issued) :
    s.host.object p = some o := by
  obtain ⟨o', hp, ho'⟩ := h.live id p hid
  rwa [h.distinct id o o' ho ho']

lemma Inv.sound (h : s.Inv) : s.Sound where
  live := h.live
  null id o ho hdead := by
    apply ptrFor_eq_zero
    cases hid : s.table.byId id with
    | none => rfl
    | some p => exact absurd ⟨p, h.object_of_byId hid ho⟩ hdead
  resolves := h.resolves
  one id id' o ho ho' := by
    rintro ⟨p, hp⟩
    exact h.paired.inj (h.resolves id o p ho hp) (h.resolves id' o p ho' hp)
  distinct := h.distinct

lemma step_cases (h : s.step e = .ok s') :
    (e.call.request s.table = none ∧ s' = { s with table := e.call.released s.table }) ∨
    (e.call.request s.table ≠ none ∧ e.call.wrapper ≠ .issuing ∧
      s' = { s with table := e.call.released s.table, host := e.answer.host }) ∨
    (e.call.request s.table ≠ none ∧ e.call.wrapper = .issuing ∧
      ∃ id, s.table.idFor e.answer.result = .ok (id, s'.table) ∧ s'.host = e.answer.host ∧
        s'.issued = ((e.answer.host.object e.answer.result).map (id, ·)).toList ++ s.issued) := by
  unfold step at h
  cases hrequest : e.call.request s.table with
  | none =>
    rw [hrequest] at h
    exact .inl ⟨rfl, (ok.inj h).symm⟩
  | some c =>
    right
    rw [hrequest] at h
    dsimp only at h
    cases hwrapper : e.call.wrapper with
    | issuing =>
      right
      rw [hwrapper] at h
      obtain ⟨⟨id, table⟩, hid, h⟩ := bind_eq_ok.mp h
      obtain rfl := ok.inj h
      exact ⟨by simp, rfl, id, hid, rfl, rfl⟩
    | silent =>
      left
      rw [hwrapper] at h
      exact ⟨by simp, by simp, (ok.inj h).symm⟩
    | guarded cur =>
      left
      rw [hwrapper] at h
      exact ⟨by simp, by simp, (ok.inj h).symm⟩
    | releasing handle =>
      left
      rw [hwrapper] at h
      exact ⟨by simp, by simp, (ok.inj h).symm⟩

lemma released_cases (c : Call Id) (t : HandleTable) :
    (c.released t = t ∧ ∀ id, c.wrapper = .releasing id → (t.releaseHandle id).1 = 0) ∨
      ∃ id p, c.wrapper = .releasing id ∧ t.byId id = some p ∧
      (t.releaseHandle id).1 = p ∧ (c.released t).nextId = t.nextId ∧
      (c.released t).byId = update t.byId id none := by
  unfold Call.released
  cases hwrapper : c.wrapper with
  | releasing id =>
    obtain h | ⟨p, hp, hfst, hnext, hid, -⟩ := t.releaseHandle_cases id
    · left
      change (t.releaseHandle id).2 = t ∧ _
      refine ⟨by rw [h], fun id' heq => ?_⟩
      rw [← Wrapper.releasing.inj heq, h]
    · exact .inr ⟨id, p, rfl, hp, hfst, hnext, hid⟩
  | _ => exact .inl ⟨rfl, by simp⟩

lemma paired_released (h : s.table.Paired) (c : Call Id) : (c.released s.table).Paired := by
  unfold Call.released
  cases c.wrapper with
  | releasing id => exact h.releaseHandle id
  | _ => exact h

lemma mem_freed_of_releasing (hs : s.Documented e) (hrequest : e.call.request s.table ≠ none)
    (hwrapper : e.call.wrapper = .releasing id) (hid : (s.table.releaseHandle id).1 = p) :
    p ∈ e.answer.freed := by
  have hself : ∀ q, q ∈ s.host.tree q := fun q => .refl
  obtain ⟨c, hc⟩ := ne_none_iff_exists'.mp hrequest
  have hallows := hs c hc
  have hmap : e.call.map (fun _ => p) = c := by
    unfold Call.request at hc
    rw [hwrapper] at hc
    dsimp only at hc
    rw [hid] at hc
    split_ifs at hc
    exact some_inj.mp hc
  rw [← hmap] at hallows
  cases hcall : e.call <;> rw [hcall] at hwrapper hallows <;>
    simp only [Call.wrapper, reduceCtorEq, Wrapper.releasing.injEq] at hwrapper
  case xmlFreeDoc doc =>
    rw [hallows.2.2.2.2.1]
    exact hself p
  case xmlFreeNode cur =>
    rw [hallows.2.2.2.2.1]
    exact hself p
  case xmlFreeNs ns =>
    rw [hallows.2.2.2.2.1]
    exact hself p
  case xmlFreeNodeList cur =>
    rw [hallows.2.2.2.2.1]
    exact ⟨p, .refl, hself p⟩

lemma Inv.evolve {a : Answer} {table : HandleTable} (h : s.Inv) (he : Evolves s.host a)
    (htable : table.Paired) (hnext : table.nextId = s.table.nextId)
    (hbyId : ∀ id p, table.byId id = some p ↔ s.table.byId id = some p ∧ p ∉ a.freed) :
    Inv { s with table := table, host := a.host } where
  paired := htable
  live id p hid := by
    obtain ⟨hid, hfreed⟩ := (hbyId id p).mp hid
    obtain ⟨o, hp, ho⟩ := h.live id p hid
    exact ⟨o, he.kept p o hp hfreed, ho⟩
  resolves id o p ho hp := by
    obtain ⟨q, hq, hq'⟩ := he.live_of_live (h.old id o ho).2 ⟨p, hp⟩
    obtain rfl := Host.eq_of_object hq' hp
    exact (hbyId id q).mpr ⟨h.resolves id o q ho hq, fun hfreed => he.not_live hq hfreed ⟨q, hp⟩⟩
  distinct := h.distinct
  old id o ho := ⟨hnext ▸ (h.old id o ho).1, (h.old id o ho).2.trans_le he.made⟩

lemma Inv.issue {table : HandleTable} (h : s.Inv) (hid : s.table.idFor p = .ok (id, table))
    (hp : s.host.object p = some o) :
    Inv { s with table := table, issued := (id, o) :: s.issued } := by
  have hnull : p ≠ 0 := by
    rintro rfl
    rw [s.host.null_free] at hp
    cases hp
  obtain ⟨hptr, rfl⟩ | ⟨hptr, rfl, hnext, hbyId, -⟩ := idFor_cases hnull hid
  · have ho : (id, o) ∈ s.issued := by
      obtain ⟨o', hp', ho'⟩ := h.live id p ((h.paired.iff id p).mpr hptr)
      rwa [← some_inj.mp (hp'.symm.trans hp)]
    have hmem : ∀ x, x ∈ (id, o) :: s.issued ↔ x ∈ s.issued := by
      intro x
      rw [mem_cons, or_iff_right_of_imp]
      rintro rfl
      exact ho
    constructor
    · exact h.paired
    · simpa only [hmem] using h.live
    · simpa only [hmem] using h.resolves
    · simpa only [hmem] using h.distinct
    · simpa only [hmem] using h.old
  · have hfresh : ∀ id o', (id, o') ∈ s.issued → id ≠ s.table.nextId :=
      fun id o' ho' => (h.old id o' ho').1.ne
    constructor
    · exact h.paired.idFor hnull hid
    · intro id' q hid'
      rw [hbyId, update_apply] at hid'
      split_ifs at hid' with heq
      · obtain rfl := some_inj.mp hid'
        exact ⟨o, hp, by rw [heq]; exact mem_cons_self⟩
      · obtain ⟨o', hq, ho'⟩ := h.live id' q hid'
        exact ⟨o', hq, mem_cons_of_mem _ ho'⟩
    · intro id' o' q ho' hq
      rw [hbyId]
      obtain heq | ho' := mem_cons.mp ho'
      · obtain ⟨rfl, rfl⟩ := Prod.mk.inj heq
        rw [update_self, Host.eq_of_object hq hp]
      · rw [update_of_ne (hfresh id' o' ho')]
        exact h.resolves id' o' q ho' hq
    · intro id' o₁ o₂ ho₁ ho₂
      obtain heq₁ | ho₁ := mem_cons.mp ho₁ <;> obtain heq₂ | ho₂ := mem_cons.mp ho₂
      · exact (Prod.mk.inj heq₁).2.trans (Prod.mk.inj heq₂).2.symm
      · exact absurd (Prod.mk.inj heq₁).1 (hfresh id' o₂ ho₂)
      · exact absurd (Prod.mk.inj heq₂).1 (hfresh id' o₁ ho₁)
      · exact h.distinct id' o₁ o₂ ho₁ ho₂
    · intro id' o' ho'
      rw [hnext]
      obtain heq | ho' := mem_cons.mp ho'
      · obtain ⟨rfl, rfl⟩ := Prod.mk.inj heq
        exact ⟨Nat.lt_succ_self _, s.host.serial_lt p o' hp⟩
      · exact ⟨Nat.lt_succ_of_lt (h.old id' o' ho').1, (h.old id' o' ho').2⟩

lemma Documented.evolves (hs : s.Documented e) (hrequest : e.call.request s.table ≠ none) :
    Evolves s.host e.answer := by
  obtain ⟨c, hc⟩ := ne_none_iff_exists'.mp hrequest
  exact (hs c hc).evolves

lemma Inv.released_eq (h : s.Inv) (hrequest : e.call.request s.table = none) :
    e.call.released s.table = s.table := by
  obtain ⟨heq, -⟩ | ⟨id, p, hwrapper, hid, hfst, -⟩ := released_cases e.call s.table
  · exact heq
  · obtain ⟨o, hp, -⟩ := h.live id p hid
    unfold Call.request at hrequest
    rw [hwrapper] at hrequest
    dsimp only at hrequest
    rw [hfst] at hrequest
    split_ifs at hrequest with hnull
    rw [hnull, s.host.null_free] at hp
    cases hp

lemma byId_released (hs : s.Documented e) (hno : s.FreesNoOther e)
    (hrequest : e.call.request s.table ≠ none) (id : Id) (p : Addr) :
    (e.call.released s.table).byId id = some p ↔
      s.table.byId id = some p ∧ p ∉ e.answer.freed := by
  obtain ⟨heq, hzero⟩ | ⟨id', p', hwrapper, hid', hfst, -, hbyId⟩ := released_cases e.call s.table
  · rw [heq]
    refine ⟨fun hid => ⟨hid, fun hfreed => hrequest ?_⟩, And.left⟩
    have hwrapper := hno hrequest p hfreed id hid
    unfold Call.request
    rw [hwrapper]
    exact if_pos (hzero id hwrapper)
  · have hfreed := mem_freed_of_releasing hs hrequest hwrapper hfst
    rw [hbyId, update_apply]
    split_ifs with heq
    · refine ⟨fun h => (by cases h), fun h => ?_⟩
      rw [heq, hid'] at h
      exact absurd (some_inj.mp h.1 ▸ hfreed) h.2
    · refine ⟨fun hid => ⟨hid, fun hmem => ?_⟩, And.left⟩
      have := hwrapper.symm.trans (hno hrequest p hmem id hid)
      exact heq (Wrapper.releasing.inj this).symm

lemma step_good (h : s.Inv) (hs : s.Documented e) (hno : s.FreesNoOther e)
    (hstep : s.step e = .ok s') : s'.Inv := by
  obtain ⟨hrequest, rfl⟩ | ⟨hrequest, -, rfl⟩ | ⟨hrequest, hwrapper, id, hid, hhost, hissued⟩ :=
    step_cases hstep
  · rw [h.released_eq hrequest]
    exact h
  · have hnext : (e.call.released s.table).nextId = s.table.nextId := by
      obtain ⟨heq, -⟩ | ⟨_, _, -, -, -, hnext, -⟩ := released_cases e.call s.table
      · rw [heq]
      · exact hnext
    exact h.evolve (hs.evolves hrequest) (paired_released h.paired _) hnext
      (byId_released hs hno hrequest)
  · have he := hs.evolves hrequest
    have hkept := h.evolve he h.paired rfl fun id p =>
      ⟨fun hid => ⟨hid, fun hmem => by
        have := hwrapper.symm.trans (hno hrequest p hmem id hid)
        cases this⟩, And.left⟩
    obtain hzero | ⟨o, ho⟩ := he.result
    · rw [hzero, idFor_zero] at hid
      rw [hzero, e.answer.host.null_free] at hissued
      obtain ⟨table, host, issued⟩ := s'
      obtain ⟨-, rfl⟩ := ok_pair_inj hid
      obtain rfl := hhost
      obtain rfl := hissued
      exact hkept
    · rw [ho] at hissued
      obtain ⟨table, host, issued⟩ := s'
      obtain rfl := hhost
      obtain rfl := hissued
      exact hkept.issue hid ho

lemma byId_step (h : s.Inv) (hid : s.table.byId id = some p)
    (hwrapper : e.call.wrapper ≠ .releasing id) (hstep : s.step e = .ok s') :
    s'.table.byId id = some p := by
  have hreleased : (e.call.released s.table).byId id = some p := by
    obtain ⟨heq, -⟩ | ⟨id', _, hwrapper', -, -, -, hbyId⟩ := released_cases e.call s.table
    · rwa [heq]
    · rw [hbyId, update_of_ne, hid]
      rintro rfl
      exact hwrapper hwrapper'
  obtain ⟨-, rfl⟩ | ⟨-, -, rfl⟩ | ⟨-, -, id', hid', -⟩ := step_cases hstep
  · exact hreleased
  · exact hreleased
  · by_cases hzero : e.answer.result = 0
    · rw [hzero, idFor_zero] at hid'
      rwa [← (ok_pair_inj hid').2]
    · obtain ⟨-, heq⟩ | ⟨-, rfl, -, hbyId, -⟩ := idFor_cases hzero hid'
      · rwa [heq]
      · rw [hbyId, update_of_ne (h.paired.lt id p hid).ne, hid]

lemma issued_step (hstep : s.step e = .ok s') (ho : (id, o) ∈ s.issued) : (id, o) ∈ s'.issued := by
  obtain ⟨-, rfl⟩ | ⟨-, -, rfl⟩ | ⟨-, -, _, -, -, hissued⟩ := step_cases hstep
  · exact ho
  · exact ho
  · rw [hissued]
    exact mem_append_right _ ho

lemma host_step (hrequest : e.call.request s.table ≠ none) (hstep : s.step e = .ok s') :
    s'.host = e.answer.host := by
  obtain ⟨hnone, -⟩ | ⟨-, -, rfl⟩ | ⟨-, -, _, -, hhost, -⟩ := step_cases hstep
  · exact absurd hnone hrequest
  · rfl
  · exact hhost

lemma step_bad (h : s.Inv) (hs : s.Documented e) (hno : ¬ s.FreesNoOther e)
    (hstep : s.step e = .ok s') : ¬ s'.Sound := by
  intro hsound
  unfold FreesNoOther at hno
  push Not at hno
  obtain ⟨hrequest, p, hfreed, id, hid, hwrapper⟩ := hno
  obtain ⟨o, hp, ho⟩ := h.live id p hid
  obtain ⟨o', hp', ho'⟩ := hsound.live id p (byId_step h hid hwrapper hstep)
  rw [host_step hrequest hstep] at hp'
  apply (hs.evolves hrequest).not_live hp hfreed
  obtain rfl := hsound.distinct id o o' (issued_step hstep ho) ho'
  exact ⟨p, hp'⟩

/-- In a run of documented calls the handles are sound after every call exactly if no call frees an
object that has a handle, apart from the handle the call releases. -/
theorem handles_never_dangle {host : Host} {events : List Event}
    (hdocumented : Along step Documented (initial host) events)
    (hrun : run step (initial host) events = .ok s) :
    Along step (fun s e => ∀ t, step s e = .ok t → t.Sound) (initial host) events ↔
      Along step FreesNoOther (initial host) events :=
  always_iff_along_of (fun _ _ _ => step_good) (fun _ _ _ => step_bad) (fun _ => Inv.sound)
    (inv_initial host) hdocumented hrun

def noObject : Host where
  object := fun _ => none
  owner := fun _ => none
  next := fun _ => none
  made := 0
  null_free := rfl
  serial_lt := by simp
  serial_inj := by simp

def oneObject (p : Addr) (hp : p ≠ 0) (o : Obj) : Host where
  object := fun q => if q = p then some o else none
  owner := fun _ => none
  next := fun _ => none
  made := o.serial + 1
  null_free := if_neg hp.symm
  serial_lt := by grind
  serial_inj := by grind

def parentAndChild : Host where
  object := fun q => if q = 16 then some ⟨0, .element⟩ else if q = 32 then some ⟨1, .element⟩ else none
  owner := fun q => if q = 32 then some 16 else none
  next := fun _ => none
  made := 2
  null_free := rfl
  serial_lt := by grind
  serial_inj := by grind

def onlyParent : Host := oneObject 16 (by decide) ⟨0, .element⟩

def newcomer : Host := oneObject 32 (by decide) ⟨2, .text⟩

lemma noObject_serial_lt (made : ℕ) (p : Addr) (o : Obj) (h : noObject.object p = some o) :
    o.serial < made := by
  have hnone : (none : Option Obj) = some o := h
  cases hnone

def bothFreed : Host := { noObject with
  made := 2
  serial_lt := noObject_serial_lt 2 }

def freedWithParent : List Event := [
  ⟨.xmlNewNode 0, onlyParent, 16, ∅⟩,
  ⟨.xmlNewChild HANDLE_BASE 0, parentAndChild, 32, ∅⟩,
  ⟨.xmlFreeNode HANDLE_BASE, bothFreed, 0, parentAndChild.tree 16⟩,
  ⟨.xmlNewText, newcomer, 32, ∅⟩]

lemma tree_parentAndChild (p : Addr) : p ∈ parentAndChild.tree 16 ↔ p = 16 ∨ p = 32 := by
  constructor
  · intro hp
    induction hp with
    | refl => exact .inl rfl
    | @tail a b _ hb _ =>
      dsimp only [parentAndChild] at hb
      split_ifs at hb with h
      exact .inr h
  · rintro (rfl | rfl)
    · exact .refl
    · exact .single rfl

lemma freedWithParent_documented : Along step Documented (initial noObject) freedWithParent := by
  refine ⟨?_, fun s₁ h₁ => ⟨?_, fun s₂ h₂ => ⟨?_, fun s₃ h₃ => ⟨?_, fun _ _ => trivial⟩⟩⟩⟩
  · intro c hc
    obtain rfl := some_inj.mp hc
    refine .inr ⟨⟨by decide, by simp [initial, noObject], ?_, by simp, .inr ⟨_, rfl⟩⟩, rfl, rfl,
      by decide, rfl, fun p hp => absurd rfl hp, ?_⟩
    · exact fun p o _ => .inr (Nat.zero_le _)
    · intro p _ hp
      dsimp only [onlyParent, oneObject] at hp
      split_ifs at hp with heq
      · rw [heq]
        exact .refl
      · exact absurd rfl hp
  all_goals obtain rfl := ok.inj h₁
  · intro c hc
    obtain rfl := some_inj.mp hc
    refine .inr ⟨⟨by decide, ?_, ?_, by simp, .inr ⟨_, rfl⟩⟩, rfl, rfl, by decide, rfl, ?_, ?_⟩
    · intro p o hp _
      change (if p = 16 then some _ else none) = some o at hp
      split_ifs at hp with heq
      rw [← hp]
      exact if_pos heq
    · intro p o hp
      change (if p = 16 then some _ else if p = 32 then some _ else none) = some o at hp
      split_ifs at hp with h₁ h₂
      · rw [← hp]
        exact .inl ⟨if_pos h₁, by simp⟩
      · rw [← some_inj.mp hp]
        exact .inr le_rfl
    · intro p hp
      change (if p = 16 then some _ else none) ≠ none at hp
      split_ifs at hp with heq
      · rw [heq]
        rfl
      · exact absurd rfl hp
    · intro p hp hnew
      change (if p = 16 then some _ else none) = none at hp
      change (if p = 16 then some _ else if p = 32 then some _ else none) ≠ none at hnew
      split_ifs at hp hnew with h₁ h₂
      · rw [h₂]
        exact .refl
      · exact absurd rfl hnew
  all_goals obtain rfl := ok.inj h₂
  · intro c hc
    obtain rfl := some_inj.mp hc
    refine ⟨rfl, ⟨_, rfl, rfl⟩, rfl, ⟨le_rfl, ?_, ?_, ?_, .inl rfl⟩, rfl, ?_, ?_⟩
    · intro p o hp hnot
      change (if p = 16 then some _ else if p = 32 then some _ else none) = some o at hp
      rw [tree_parentAndChild] at hnot
      push Not at hnot
      rw [if_neg hnot.1, if_neg hnot.2] at hp
      cases hp
    · intro p o hp
      cases hp
    · intro p hp
      obtain rfl | rfl := (tree_parentAndChild p).mp hp
      · exact ⟨_, rfl⟩
      · exact ⟨_, rfl⟩
    · exact fun p hp => absurd rfl hp
    · exact fun p hp => absurd rfl hp
  all_goals obtain rfl := ok.inj h₃
  · intro c hc
    obtain rfl := some_inj.mp hc
    refine .inr ⟨⟨by decide, ?_, ?_, by simp, .inr ⟨_, rfl⟩⟩, rfl, rfl, by decide, rfl, ?_, ?_⟩
    · intro p o hp
      cases hp
    · intro p o hp
      change (if p = 32 then some _ else none) = some o at hp
      split_ifs at hp
      rw [← some_inj.mp hp]
      exact .inr le_rfl
    · exact fun p hp => absurd rfl hp
    · intro p _ hp
      change (if p = 32 then some _ else none) ≠ none at hp
      split_ifs at hp with heq
      · rw [heq]
        exact .refl
      · exact absurd rfl hp

theorem freed_child_shares_its_handle :
    Along step Documented (initial noObject) freedWithParent ∧
    ∃ s, run step (initial noObject) freedWithParent = .ok s ∧
      (HANDLE_BASE + 1, ⟨1, .element⟩) ∈ s.issued ∧ (HANDLE_BASE + 1, ⟨2, .text⟩) ∈ s.issued ∧
      ¬ s.Sound := by
  have hold : (HANDLE_BASE + 1, (⟨1, .element⟩ : Obj)) ∈ [(HANDLE_BASE + 1, (⟨2, .text⟩ : Obj)),
      (HANDLE_BASE + 1, ⟨1, .element⟩), (HANDLE_BASE, ⟨0, .element⟩)] := by decide
  have hnew : (HANDLE_BASE + 1, (⟨2, .text⟩ : Obj)) ∈ [(HANDLE_BASE + 1, (⟨2, .text⟩ : Obj)),
      (HANDLE_BASE + 1, ⟨1, .element⟩), (HANDLE_BASE, ⟨0, .element⟩)] := by decide
  refine ⟨freedWithParent_documented, _, rfl, hold, hnew, fun hsound => ?_⟩
  exact absurd (hsound.distinct _ _ _ hold hnew) (by decide)

theorem handles_never_dangle_freedWithParent :
    Along step (fun s e => ∀ t, step s e = .ok t → t.Sound) (initial noObject) freedWithParent ↔
      Along step FreesNoOther (initial noObject) freedWithParent :=
  handles_never_dangle freedWithParent_documented rfl

end World

end TouchHle.Xml
