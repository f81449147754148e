import TouchHle.Lib.Checked

namespace TouchHle.Xml

open Lib Function

abbrev Id := ℕ

abbrev Addr := ℕ

def HANDLE_BASE : Id := 0x10000000

structure HandleTable where
  nextId : Id
  byId : Id → Option Addr
  byPtr : Addr → Option Id

namespace HandleTable

def empty : HandleTable where
  nextId := HANDLE_BASE
  byId := fun _ => none
  byPtr := fun _ => none

def idFor (ptr : Addr) (s : HandleTable) : Checked (Id × HandleTable) :=
  if ptr = 0 then return (0, s)
  else match s.byPtr ptr with
    | some id => return (id, s)
    | none =>
      -- The next identifier is computed before the handle is entered.
      if s.nextId + 1 < 2 ^ 32 then
        return (s.nextId, {
          nextId := s.nextId + 1
          byId := Function.update s.byId s.nextId (some ptr)
          byPtr := Function.update s.byPtr ptr (some s.nextId) })
      else throw .overflow

def ptrFor (s : HandleTable) (id : Id) : Addr :=
  if id = 0 then 0 else (s.byId id).getD 0

def releaseHandle (s : HandleTable) (id : Id) : Addr × HandleTable :=
  if id = 0 then (0, s)
  else match s.byId id with
    | some p => (p, { s with
        byId := Function.update s.byId id none
        byPtr := Function.update s.byPtr p none })
    | none => (0, s)

structure Paired (s : HandleTable) : Prop where
  iff : ∀ id p, s.byId id = some p ↔ s.byPtr p = some id
  lt : ∀ id p, s.byId id = some p → id < s.nextId
  base : HANDLE_BASE ≤ s.nextId

variable {s t : HandleTable} {id : Id} {p : Addr}

lemma paired_empty : empty.Paired where
  iff := by simp [empty]
  lt := by simp [empty]
  base := le_rfl

lemma Paired.inj (h : s.Paired) {id' : Id} (hid : s.byId id = some p) (hid' : s.byId id' = some p) :
    id = id' :=
  Option.some_inj.mp (((h.iff id p).mp hid).symm.trans ((h.iff id' p).mp hid'))

lemma idFor_cases (hp : p ≠ 0) (h : idFor p s = .ok (id, t)) :
    (s.byPtr p = some id ∧ t = s) ∨
    (s.byPtr p = none ∧ id = s.nextId ∧ t.nextId = s.nextId + 1 ∧
      t.byId = update s.byId id (some p) ∧ t.byPtr = update s.byPtr p (some id)) := by
  rw [idFor, if_neg hp] at h
  cases hptr : s.byPtr p with
  | some id' =>
    rw [hptr] at h
    simp only [pure_eq_ok, Except.ok.injEq, Prod.mk.injEq] at h
    obtain ⟨rfl, rfl⟩ := h
    exact .inl ⟨rfl, rfl⟩
  | none =>
    rw [hptr] at h
    dsimp only at h
    split_ifs at h with hnext
    · simp only [pure_eq_ok, Except.ok.injEq, Prod.mk.injEq] at h
      obtain ⟨rfl, rfl⟩ := h
      exact .inr ⟨rfl, rfl, rfl, rfl, rfl⟩

@[simp] lemma idFor_zero : idFor 0 s = .ok (0, s) := by simp [idFor]

lemma Paired.idFor (hs : s.Paired) (hp : p ≠ 0) (h : s.idFor p = .ok (id, t)) : t.Paired := by
  obtain ⟨-, rfl⟩ | ⟨hptr, rfl, hnext, hid, hptr'⟩ := idFor_cases hp h
  · exact hs
  · have hnew : s.byId s.nextId = none := by
      cases hold : s.byId s.nextId with
      | none => rfl
      | some q => exact absurd (hs.lt _ _ hold) (lt_irrefl _)
    constructor
    · intro id q
      rw [hid, hptr', update_apply, update_apply]
      split_ifs with h₁ h₂ h₂
      · simp [h₁, h₂]
      · rw [h₁, ← hs.iff, hnew]
        simpa using Ne.symm h₂
      · rw [h₂, hs.iff, hptr]
        simpa using Ne.symm h₁
      · exact hs.iff id q
    · intro id q
      rw [hid, hnext, update_apply]
      split_ifs with h₁
      · intro
        exact h₁ ▸ Nat.lt_succ_self _
      · exact fun hq => Nat.lt_succ_of_lt (hs.lt id q hq)
    · rw [hnext]
      exact hs.base.trans (Nat.le_succ _)

lemma ptrFor_eq_zero (h : s.byId id = none) : s.ptrFor id = 0 := by
  rw [ptrFor, h]
  split_ifs <;> rfl

lemma releaseHandle_cases (s : HandleTable) (id : Id) :
    (s.releaseHandle id = (0, s)) ∨
    ∃ p, s.byId id = some p ∧ (s.releaseHandle id).1 = p ∧ (s.releaseHandle id).2.nextId = s.nextId ∧
      (s.releaseHandle id).2.byId = update s.byId id none ∧
      (s.releaseHandle id).2.byPtr = update s.byPtr p none := by
  rw [releaseHandle]
  split_ifs with hid
  · exact .inl rfl
  · cases hp : s.byId id with
    | none => exact .inl rfl
    | some p => exact .inr ⟨p, rfl, rfl, rfl, rfl, rfl⟩

lemma Paired.releaseHandle (hs : s.Paired) (id : Id) : (s.releaseHandle id).2.Paired := by
  obtain h | ⟨p, hp, -, hnext, hid, hptr⟩ := releaseHandle_cases s id
  · rw [h]
    exact hs
  · constructor
    · intro id' q
      rw [hid, hptr, update_apply, update_apply]
      split_ifs with h₁ h₂ h₂
      · simp
      · rw [← hs.iff, h₁, hp]
        simpa using Ne.symm h₂
      · rw [h₂, hs.iff, (hs.iff id p).mp hp]
        simpa using Ne.symm h₁
      · exact hs.iff id' q
    · intro id' q
      rw [hid, hnext, update_apply]
      split_ifs
      · intro h
        cases h
      · exact hs.lt id' q
    · exact hnext ▸ hs.base

end HandleTable

inductive Kind
  | document
  | element
  | text
  | comment
  | cdata
  | attribute
  | ns
  deriving DecidableEq

structure Obj where
  serial : ℕ
  kind : Kind
  deriving DecidableEq

structure Host where
  object : Addr → Option Obj
  owner : Addr → Option Addr
  next : Addr → Option Addr
  made : ℕ
  null_free : object 0 = none
  serial_lt : ∀ p o, object p = some o → o.serial < made
  serial_inj : ∀ p q o o', object p = some o → object q = some o' → o.serial = o'.serial → p = q

namespace Host

variable (h : Host)

def Live (o : Obj) : Prop := ∃ p, h.object p = some o

def tree (p : Addr) : Set Addr := {x | Relation.ReflTransGen (fun a b => h.owner b = some a) p x}

def list (p : Addr) : Set Addr :=
  {x | ∃ s, Relation.ReflTransGen (fun a b => h.next a = some b) p s ∧ x ∈ h.tree s}

variable {h}

lemma eq_of_object {p q : Addr} {o : Obj} (hp : h.object p = some o) (hq : h.object q = some o) :
    p = q :=
  h.serial_inj p q o o hp hq rfl

end Host

structure Answer where
  host : Host
  result : Addr
  freed : Set Addr

structure Evolves (h : Host) (a : Answer) : Prop where
  made : h.made ≤ a.host.made
  kept : ∀ p o, h.object p = some o → p ∉ a.freed → a.host.object p = some o
  new : ∀ p o, a.host.object p = some o → (h.object p = some o ∧ p ∉ a.freed) ∨ h.made ≤ o.serial
  freed : ∀ p ∈ a.freed, ∃ o, h.object p = some o
  result : a.result = 0 ∨ ∃ o, a.host.object a.result = some o

def Unchanged (h : Host) (a : Answer) : Prop := a.host = h ∧ a.freed = ∅

def Fails (h : Host) (a : Answer) : Prop := Unchanged h a ∧ a.result = 0

def Adds (h : Host) (a : Answer) (top : Option Addr) : Prop :=
  Evolves h a ∧ a.freed = ∅ ∧ h.object a.result = none ∧ a.result ≠ 0 ∧ a.host.owner a.result = top ∧
    (∀ p, h.object p ≠ none → a.host.owner p = h.owner p) ∧
    ∀ p, h.object p = none → a.host.object p ≠ none → p ∈ a.host.tree a.result

def Relinks (h : Host) (a : Answer) (owner : Addr → Option Addr) : Prop :=
  Evolves h a ∧ a.freed = ∅ ∧ a.host.object = h.object ∧ a.host.owner = owner

def Removes (h : Host) (a : Answer) (freed : Set Addr) : Prop :=
  Evolves h a ∧ a.freed = freed ∧ (∀ p, a.host.object p ≠ none → h.object p ≠ none ∧ p ∉ freed) ∧
    ∀ p, a.host.object p ≠ none → a.host.owner p = h.owner p

inductive Effect
  | creates
  | createsUnder (parent : Addr)
  | moves (cur : Addr) (parent : Option Addr)
  | replaces (old cur : Addr)
  | setsRoot (doc root : Addr)
  | unlinks (cur : Addr)
  | looksUp
  | frees (kind : Kind → Bool) (p : Addr)
  | freesList (p : Addr)
  | edits (p : Addr)

def Effect.Allows (h : Host) (a : Answer) : Effect → Prop
  | .creates => Fails h a ∨ Adds h a none
  | .createsUnder parent => Fails h a ∨ Adds h a (some parent)
  | .moves cur parent => Fails h a ∨ Relinks h a (Function.update h.owner cur parent) ∨
      -- Adjacent text nodes are merged, and the one that was to be added is freed.
      ((∃ o, h.object cur = some o ∧ o.kind = .text) ∧ a.result ≠ 0 ∧ Removes h a (h.tree cur)) ∨
      -- An attribute with the same name is destroyed first.
      (∃ old o, h.object old = some o ∧ o.kind = .attribute ∧ old ≠ cur ∧ h.owner old = parent ∧
        a.freed = h.tree old ∧ Evolves h a ∧
        ∀ p, a.host.object p ≠ none → a.host.owner p = Function.update h.owner cur parent p)
  | .replaces old cur => Fails h a ∨ a.result = old ∧ Relinks h a (if cur = 0 then
      Function.update h.owner old none
      else Function.update (Function.update h.owner cur (h.owner old)) old none)
  | .setsRoot doc root => Fails h a ∨
      (a.result = 0 ∧ Relinks h a (Function.update h.owner root (some doc))) ∨
      (h.owner a.result = some doc ∧
        Relinks h a (Function.update (Function.update h.owner root (some doc)) a.result none))
  | .unlinks cur => a.result = 0 ∧ Relinks h a (Function.update h.owner cur none)
  | .looksUp => Unchanged h a ∧ (a.result = 0 ∨ ∃ o, h.object a.result = some o)
  | .frees kind p => h.owner p = none ∧ (∃ o, h.object p = some o ∧ kind o.kind) ∧ a.result = 0 ∧
      Removes h a (h.tree p)
  | .freesList p => h.owner p = none ∧ (∃ o, h.object p = some o ∧ o.kind ≠ .document) ∧
      a.result = 0 ∧ Removes h a (h.list p)
  | .edits p => Evolves h a ∧ (∀ x ∈ a.freed, x ≠ p ∧ x ∈ h.tree p) ∧
      (∀ x, x ∉ a.freed → h.object x ≠ none → a.host.owner x = h.owner x) ∧
      ∀ x, h.object x = none → a.host.object x ≠ none → x ∈ a.host.tree p

variable {h : Host} {a : Answer}

lemma Unchanged.evolves (hu : Unchanged h a)
    (hresult : a.result = 0 ∨ ∃ o, h.object a.result = some o) : Evolves h a := by
  obtain ⟨hhost, hfreed⟩ := hu
  constructor
  · rw [hhost]
  · intro p o hp _
    rwa [hhost]
  · intro p o hp
    rw [hhost] at hp
    exact .inl ⟨hp, by simp [hfreed]⟩
  · simp [hfreed]
  · rwa [hhost]

lemma Fails.evolves (hf : Fails h a) : Evolves h a := hf.1.evolves (.inl hf.2)

lemma Effect.Allows.evolves {e : Effect} (ha : e.Allows h a) : Evolves h a := by
  cases e with
  | creates => exact ha.elim Fails.evolves And.left
  | createsUnder parent => exact ha.elim Fails.evolves And.left
  | moves cur parent =>
    obtain hfail | hlink | ⟨-, -, hmerge⟩ | ⟨_, _, -, -, -, -, -, hreplace, -⟩ := ha
    · exact hfail.evolves
    · exact hlink.1
    · exact hmerge.1
    · exact hreplace
  | replaces old cur => exact ha.elim Fails.evolves fun ha => ha.2.1
  | setsRoot doc root =>
    obtain hfail | ⟨-, hlink⟩ | ⟨-, hlink⟩ := ha
    · exact hfail.evolves
    · exact hlink.1
    · exact hlink.1
  | unlinks cur => exact ha.2.1
  | looksUp => exact ha.1.evolves ha.2
  | frees kind p => exact ha.2.2.2.1
  | freesList p => exact ha.2.2.2.1
  | edits p => exact ha.1

lemma Evolves.not_live {p : Addr} {o : Obj} (he : Evolves h a) (hp : h.object p = some o)
    (hfreed : p ∈ a.freed) : ¬ a.host.Live o := by
  rintro ⟨q, hq⟩
  obtain ⟨hold, hnot⟩ | hnew := he.new q o hq
  · exact hnot (Host.eq_of_object hp hold ▸ hfreed)
  · exact absurd (h.serial_lt p o hp) (not_lt.mpr hnew)

lemma Evolves.live_of_live {o : Obj} (he : Evolves h a) (hmade : o.serial < h.made)
    (hlive : a.host.Live o) : ∃ p, h.object p = some o ∧ a.host.object p = some o := by
  obtain ⟨p, hp⟩ := hlive
  obtain ⟨hold, -⟩ | hnew := he.new p o hp
  · exact ⟨p, hold, hp⟩
  · exact absurd hmade (not_lt.mpr hnew)

inductive Call (α : Type)
  -- Documents
  | xmlReadMemory
  | xmlParseMemory
  | xmlParseDoc
  | xmlReadDoc
  | xmlReadFile
  | xmlParseFile
  | xmlNewDoc
  | xmlFreeDoc (doc : α)
  | xmlDocGetRootElement (doc : α)
  | xmlDocSetRootElement (doc root : α)
  -- Nodes
  | xmlNewNode (ns : α)
  | xmlNewDocNode (doc ns : α)
  | xmlNewText
  | xmlNewDocText (doc : α)
  | xmlNewComment
  | xmlNewCDataBlock (doc : α)
  | xmlNewChild (parent ns : α)
  | xmlNewTextChild (parent ns : α)
  | xmlAddChild (parent cur : α)
  | xmlAddPrevSibling (cur elem : α)
  | xmlAddNextSibling (cur elem : α)
  | xmlAddSibling (cur elem : α)
  | xmlUnlinkNode (cur : α)
  | xmlFreeNode (cur : α)
  | xmlFreeNodeList (cur : α)
  | xmlCopyNode (node : α)
  | xmlDocCopyNode (node doc : α)
  | xmlReplaceNode (old cur : α)
  | xmlNodeSetContent (node : α)
  | xmlNodeAddContent (node : α)
  -- Accessors
  | xmlGetLastChild (node : α)
  | xmlFirstElementChild (parent : α)
  | xmlLastElementChild (parent : α)
  | xmlNextElementSibling (node : α)
  | xmlPreviousElementSibling (node : α)
  | xmlChildrenNode (node : α)
  | xmlNodeGetDoc (node : α)
  | xmlNodeGetParent (node : α)
  | xmlNodeGetNext (node : α)
  | xmlNodeGetPrev (node : α)
  | xmlNodeGetProperties (node : α)
  -- Attributes and namespaces
  | xmlNewProp (node : α)
  | xmlNewNsProp (node ns : α)
  | xmlSetProp (node : α)
  | xmlSetNsProp (node ns : α)
  | xmlUnsetProp (node : α)
  | xmlUnsetNsProp (node ns : α)
  | xmlHasProp (node : α)
  | xmlHasNsProp (node : α)
  | xmlNewNs (node : α)
  | xmlSearchNs (doc node : α)
  | xmlSearchNsByHref (doc node : α)
  | xmlFreeNs (ns : α)
  | xmlAttrNext (attr : α)

inductive Wrapper (α : Type)
  | issuing
  | silent
  | guarded (cur : α)
  | releasing (handle : α)

namespace Call

variable {α β : Type}

def wrapper : Call α → Wrapper α
  | xmlFreeDoc doc => .releasing doc
  | xmlFreeNode cur => .releasing cur
  | xmlFreeNodeList cur => .releasing cur
  | xmlFreeNs ns => .releasing ns
  | xmlUnlinkNode cur => .guarded cur
  | xmlNodeSetContent _ | xmlNodeAddContent _ | xmlUnsetProp _ | xmlUnsetNsProp _ _ => .silent
  | _ => .issuing

def map (f : α → β) : Call α → Call β
  | xmlReadMemory => .xmlReadMemory
  | xmlParseMemory => .xmlParseMemory
  | xmlParseDoc => .xmlParseDoc
  | xmlReadDoc => .xmlReadDoc
  | xmlReadFile => .xmlReadFile
  | xmlParseFile => .xmlParseFile
  | xmlNewDoc => .xmlNewDoc
  | xmlFreeDoc doc => .xmlFreeDoc (f doc)
  | xmlDocGetRootElement doc => .xmlDocGetRootElement (f doc)
  | xmlDocSetRootElement doc root => .xmlDocSetRootElement (f doc) (f root)
  | xmlNewNode ns => .xmlNewNode (f ns)
  | xmlNewDocNode doc ns => .xmlNewDocNode (f doc) (f ns)
  | xmlNewText => .xmlNewText
  | xmlNewDocText doc => .xmlNewDocText (f doc)
  | xmlNewComment => .xmlNewComment
  | xmlNewCDataBlock doc => .xmlNewCDataBlock (f doc)
  | xmlNewChild parent ns => .xmlNewChild (f parent) (f ns)
  | xmlNewTextChild parent ns => .xmlNewTextChild (f parent) (f ns)
  | xmlAddChild parent cur => .xmlAddChild (f parent) (f cur)
  | xmlAddPrevSibling cur elem => .xmlAddPrevSibling (f cur) (f elem)
  | xmlAddNextSibling cur elem => .xmlAddNextSibling (f cur) (f elem)
  | xmlAddSibling cur elem => .xmlAddSibling (f cur) (f elem)
  | xmlUnlinkNode cur => .xmlUnlinkNode (f cur)
  | xmlFreeNode cur => .xmlFreeNode (f cur)
  | xmlFreeNodeList cur => .xmlFreeNodeList (f cur)
  | xmlCopyNode node => .xmlCopyNode (f node)
  | xmlDocCopyNode node doc => .xmlDocCopyNode (f node) (f doc)
  | xmlReplaceNode old cur => .xmlReplaceNode (f old) (f cur)
  | xmlNodeSetContent node => .xmlNodeSetContent (f node)
  | xmlNodeAddContent node => .xmlNodeAddContent (f node)
  | xmlGetLastChild node => .xmlGetLastChild (f node)
  | xmlFirstElementChild parent => .xmlFirstElementChild (f parent)
  | xmlLastElementChild parent => .xmlLastElementChild (f parent)
  | xmlNextElementSibling node => .xmlNextElementSibling (f node)
  | xmlPreviousElementSibling node => .xmlPreviousElementSibling (f node)
  | xmlChildrenNode node => .xmlChildrenNode (f node)
  | xmlNodeGetDoc node => .xmlNodeGetDoc (f node)
  | xmlNodeGetParent node => .xmlNodeGetParent (f node)
  | xmlNodeGetNext node => .xmlNodeGetNext (f node)
  | xmlNodeGetPrev node => .xmlNodeGetPrev (f node)
  | xmlNodeGetProperties node => .xmlNodeGetProperties (f node)
  | xmlNewProp node => .xmlNewProp (f node)
  | xmlNewNsProp node ns => .xmlNewNsProp (f node) (f ns)
  | xmlSetProp node => .xmlSetProp (f node)
  | xmlSetNsProp node ns => .xmlSetNsProp (f node) (f ns)
  | xmlUnsetProp node => .xmlUnsetProp (f node)
  | xmlUnsetNsProp node ns => .xmlUnsetNsProp (f node) (f ns)
  | xmlHasProp node => .xmlHasProp (f node)
  | xmlHasNsProp node => .xmlHasNsProp (f node)
  | xmlNewNs node => .xmlNewNs (f node)
  | xmlSearchNs doc node => .xmlSearchNs (f doc) (f node)
  | xmlSearchNsByHref doc node => .xmlSearchNsByHref (f doc) (f node)
  | xmlFreeNs ns => .xmlFreeNs (f ns)
  | xmlAttrNext attr => .xmlAttrNext (f attr)

def made (parent : Addr) : Effect := if parent = 0 then .creates else .createsUnder parent

def effect (h : Host) : Call Addr → Effect
  | xmlReadMemory | xmlParseMemory | xmlParseDoc | xmlReadDoc | xmlReadFile | xmlParseFile
  | xmlNewDoc | xmlNewNode _ | xmlNewDocNode _ _ | xmlNewText | xmlNewDocText _ | xmlNewComment
  | xmlNewCDataBlock _ | xmlCopyNode _ | xmlDocCopyNode _ _ => .creates
  | xmlNewChild parent _ | xmlNewTextChild parent _ => .createsUnder parent
  | xmlNewProp node | xmlNewNsProp node _ | xmlNewNs node => made node
  | xmlAddChild parent cur => .moves cur (some parent)
  | xmlAddPrevSibling cur elem | xmlAddNextSibling cur elem | xmlAddSibling cur elem =>
    .moves elem (h.owner cur)
  | xmlReplaceNode old cur => .replaces old cur
  | xmlDocSetRootElement doc root => .setsRoot doc root
  | xmlUnlinkNode cur => .unlinks cur
  | xmlFreeDoc doc => .frees (· == .document) doc
  | xmlFreeNode cur => .frees (· != .document) cur
  | xmlFreeNs ns => .frees (· == .ns) ns
  | xmlFreeNodeList cur => .freesList cur
  | xmlNodeSetContent node | xmlNodeAddContent node | xmlSetProp node | xmlSetNsProp node _
  | xmlUnsetProp node | xmlUnsetNsProp node _ => .edits node
  | xmlDocGetRootElement _ | xmlGetLastChild _ | xmlFirstElementChild _ | xmlLastElementChild _
  | xmlNextElementSibling _ | xmlPreviousElementSibling _ | xmlChildrenNode _ | xmlNodeGetDoc _
  | xmlNodeGetParent _ | xmlNodeGetNext _ | xmlNodeGetPrev _ | xmlNodeGetProperties _
  | xmlHasProp _ | xmlHasNsProp _ | xmlAttrNext _ => .looksUp
  -- A search can make the predefined namespace.
  | xmlSearchNs doc node | xmlSearchNsByHref doc node => .edits (if doc = 0 then node else doc)

def request (s : HandleTable) (c : Call Id) : Option (Call Addr) :=
  match c.wrapper with
  | .issuing | .silent => some (c.map s.ptrFor)
  | .guarded cur => if s.ptrFor cur = 0 then none else some (c.map s.ptrFor)
  | .releasing handle =>
    let p := (s.releaseHandle handle).1
    if p = 0 then none else some (c.map fun _ => p)

def released (s : HandleTable) (c : Call Id) : HandleTable :=
  match c.wrapper with
  | .releasing handle => (s.releaseHandle handle).2
  | _ => s

end Call

end TouchHle.Xml
