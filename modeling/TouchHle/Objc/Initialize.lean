import TouchHle.Objc.Classes

namespace TouchHle.Objc.Initialize

open Lib List Except Option

structure Regs where
  r0 : ℕ
  r1 : ℕ
  r2 : ℕ
  r3 : ℕ
  deriving DecidableEq

inductive SuperDispatch
  | skipClass (c : Class)
  | startAtClass (c : Class)
  deriving DecidableEq

structure Message where
  receiver : Id
  selector : SEL
  super2 : Option SuperDispatch
  skipInitialize : Bool

def Message.ordinary (m : Message) : Bool := m.super2 = none && !m.skipInitialize

/-- What happens in an app that counts here: `+initialize` is sent by the runtime, an ordinary
message to a class or to an instance of it reaches its method. -/
inductive Event
  | sent (cls : Class)
  | reached (cls : Class)
  deriving DecidableEq

/-- What is left to do, innermost first: code of the app, the steps of `ensure_class_initialized`
and of `swift_getInitializedObjCClass`, and the superclass walk of a message that was sent with the
registers `entry`. -/
inductive Frame
  | method
  | ensure (cls : Class)
  | recheck (cls : Class)
  | restore (saved : Regs)
  | answer (cls : Class)
  | walk (m : Message) (entry : Regs) (cls : Class)

structure Runtime where
  initializedClasses : Finset Class
  regs : Regs
  stack : List Frame
  trace : List Event

inductive Request
  | setRegs (regs : Regs)
  | send (m : Message) (deep : Bool)
  | getInitializedClass (cls : Class) (fuel : ℕ) (deep : Bool)
  | ret
  | resume (fuel : ℕ) (deep : Bool)

variable (env : ClassEnv) (selInitialize : SEL)

def Message.origClass (m : Message) : Class :=
  match m.super2 with
  | some (.skipClass c) => c
  | some (.startAtClass c) => c
  | none => env.isa m.receiver

def Message.addressed (m : Message) : Class :=
  match env.hostObjects (env.isa m.receiver) with
  | some (.class c) => if c.isMetaclass then m.receiver else env.isa m.receiver
  | _ => env.isa m.receiver

def Message.classToInit (m : Message) : Class :=
  if m.ordinary then
    match env.hostObjects (m.origClass env) with
    | some (.class c) => if c.isMetaclass then m.receiver else m.origClass env
    | _ => nil
  else nil

def classHasMethod (sel : SEL) : ℕ → Class → Option Bool
  | 0, _ => none
  | fuel + 1, cls =>
    let c := env.borrow cls
    if (c.methods sel).isSome then some true
    else if c.superclass = nil then some false
    else classHasMethod sel fuel c.superclass

namespace Runtime

def answerNil (w : Runtime) : Runtime := { w with regs := { w.regs with r0 := 0, r1 := 0 } }

def msgSend (w : Runtime) (m : Message) (deep : Bool) : Runtime :=
  if deep then w.answerNil
  else if m.receiver = nil then w.answerNil
  else if m.origClass env = nil then w.answerNil
  else
    let walk := Frame.walk m w.regs (m.origClass env)
    if m.classToInit env ≠ nil then
      { w with stack := .ensure (m.classToInit env) :: walk :: w.stack }
    else { w with stack := walk :: w.stack }

def sendInitialize (w : Runtime) (cls : Class) (skipInitialize deep : Bool) (after : Frame) :
    Runtime :=
  { w with
    regs := { w.regs with r0 := cls, r1 := selInitialize }
    stack := after :: w.stack
    trace := .sent cls :: w.trace }.msgSend env ⟨cls, selInitialize, none, skipInitialize⟩ deep

def resume (w : Runtime) (fuel : ℕ) (deep : Bool) : Checked Runtime :=
  match w.stack with
  | .ensure cls :: rest =>
    if cls = nil then return { w with stack := rest }
    else if cls ∈ w.initializedClasses then return { w with stack := rest }
    else match env.hostObjects cls with
      | some (.class c) => return { w with stack := .ensure c.superclass :: .recheck cls :: rest }
      | _ => return { w with
          initializedClasses := insert cls w.initializedClasses
          stack := rest }
  | .recheck cls :: rest =>
    if cls ∈ w.initializedClasses then return { w with stack := rest }
    else do
      let w := { w with
        initializedClasses := insert cls w.initializedClasses
        stack := rest }
      let has ← unwrap (classHasMethod env selInitialize fuel (env.isa cls))
      if has then return w.sendInitialize env selInitialize cls false deep (.restore w.regs)
      else return w
  | .restore saved :: rest => return { w with regs := saved, stack := rest }
  | .answer cls :: rest => return { w with regs := { w.regs with r0 := cls }, stack := rest }
  | .walk m entry cls :: rest =>
    if cls = nil then return { w with stack := rest }.answerNil
    else match env.hostObjects cls with
      | some (.class c) =>
        if m.super2 = some (.skipClass cls) then
          return { w with stack := .walk m entry c.superclass :: rest }
        else match c.methods m.selector with
          | some _ =>
            return { w with
              stack := .method :: rest
              trace := if m.ordinary then .reached (m.addressed env) :: w.trace else w.trace }
          | none => return { w with stack := .walk m entry c.superclass :: rest }
      | _ => return { w with stack := rest }.answerNil
  | _ => throw .assertion

def getInitializedClass (w : Runtime) (cls : Class) (fuel : ℕ) (deep : Bool) : Checked Runtime :=
  if cls = nil then return { w with regs := { w.regs with r0 := nil } }
  else do
    let has ← unwrap (classHasMethod env selInitialize fuel (env.isa cls))
    if has then return w.sendInitialize env selInitialize cls true deep (.answer cls)
    else return { w with regs := { w.regs with r0 := cls } }

def step (w : Runtime) : Request → Checked Runtime
  | .resume fuel deep => w.resume env selInitialize fuel deep
  | r =>
    match w.stack with
    | .method :: rest =>
      match r with
      | .setRegs regs => return { w with regs := regs }
      | .send m deep => return w.msgSend env m deep
      | .getInitializedClass cls fuel deep => w.getInitializedClass env selInitialize cls fuel deep
      | _ => return { w with stack := rest }
    | _ => throw .assertion

def start : Runtime := ⟨∅, ⟨0, 0, 0, 0⟩, [.method], []⟩

end Runtime

section

variable (env : ClassEnv) (selInitialize : SEL)

def Responds (cls : Class) : Prop :=
  env.classHostObject cls ≠ none ∧
    ∃ fuel, classHasMethod env selInitialize fuel (env.isa cls) = some true

def InOrder : List Event → Prop
  | [] => True
  | .sent cls :: earlier =>
    .sent cls ∉ earlier ∧
      (∀ c, env.hostObjects cls = some (.class c) → Responds env selInitialize c.superclass →
        .sent c.superclass ∈ earlier) ∧ InOrder earlier
  | .reached cls :: earlier =>
    (Responds env selInitialize cls → .sent cls ∈ earlier) ∧ InOrder earlier

structure InitializesOnce (w : Runtime) : Prop where
  inOrder : InOrder env selInitialize w.trace
  registers : ∀ m entry cls rest, w.stack = .walk m entry cls :: rest → w.regs = entry

def SwiftUse : Request → Bool
  | .getInitializedClass cls fuel _ =>
    cls = nil || classHasMethod env selInitialize fuel (env.isa cls) = some false
  | _ => true

def Needs : Frame → Class → Prop
  | .recheck cls, S => ∃ c, env.hostObjects cls = some (.class c) ∧ S = c.superclass
  | .walk m _ _, S => S = m.classToInit env
  | _, _ => False

def Supported (marked : Finset Class) : Option Frame → List Frame → Prop
  | _, [] => True
  | above, f :: rest =>
    (∀ S, Needs env f S → S ≠ nil →
      S ∈ marked ∨ above = some (.ensure S) ∨ above = some (.recheck S)) ∧
      Supported marked (some f) rest

def expected : List Frame → Option Regs
  | .ensure _ :: rest => expected rest
  | .recheck _ :: rest => expected rest
  | .walk _ entry _ :: _ => some entry
  | _ => none

def Saved : List Frame → Prop
  | [] => True
  | .ensure _ :: rest => Saved rest
  | .recheck _ :: rest => Saved rest
  | .restore saved :: rest => (∀ entry, expected rest = some entry → saved = entry) ∧ Saved rest
  | _ :: rest => expected rest = none ∧ Saved rest

def Walks (stack : List Frame) : Prop :=
  ∀ m entry cls, .walk m entry cls ∈ stack → m.receiver ≠ nil ∧ m.origClass env ≠ nil ∧
    (cls = m.origClass env ∨ ∃ c, env.hostObjects (m.origClass env) = some (.class c))

structure Marked (w : Runtime) : Prop where
  inOrder : InOrder env selInitialize w.trace
  marked : ∀ cls, .sent cls ∈ w.trace → cls ∈ w.initializedClasses
  sent : ∀ cls ∈ w.initializedClasses, Responds env selInitialize cls → .sent cls ∈ w.trace
  supported : Supported env w.initializedClasses none w.stack
  saved : Saved w.stack
  regs : ∀ entry, expected w.stack = some entry → w.regs = entry
  walks : Walks env w.stack

end

variable {env : ClassEnv} {selInitialize : SEL} {w w' : Runtime} {rest : List Frame} {cls : Class}
  {m : Message} {fuel fuel' : ℕ} {deep : Bool}

lemma classHasMethod_succ {b : Bool} (h : classHasMethod env selInitialize fuel cls = some b) :
    classHasMethod env selInitialize (fuel + 1) cls = some b := by
  induction fuel generalizing cls with
  | zero => cases h
  | succ fuel ih =>
    rw [classHasMethod] at h ⊢
    split at h
    · rename_i hown
      rw [if_pos hown]
      exact h
    · rename_i hown
      rw [if_neg hown]
      split at h
      · rename_i hroot
        rw [if_pos hroot]
        exact h
      · rename_i hroot
        rw [if_neg hroot]
        exact ih h

lemma classHasMethod_mono {b : Bool} (hle : fuel ≤ fuel')
    (h : classHasMethod env selInitialize fuel cls = some b) :
    classHasMethod env selInitialize fuel' cls = some b := by
  induction hle with
  | refl => exact h
  | step _ ih => exact classHasMethod_succ ih

lemma not_responds (h : classHasMethod env selInitialize fuel (env.isa cls) = some false) :
    ¬ Responds env selInitialize cls := by
  rintro ⟨-, fuel', h'⟩
  have hmax := classHasMethod_mono (le_max_left fuel fuel') h
  have hmax' := classHasMethod_mono (le_max_right fuel fuel') h'
  cases hmax.symm.trans hmax'

lemma class_of_responds (h : Responds env selInitialize cls) :
    cls ≠ nil ∧ ∃ c, env.hostObjects cls = some (.class c) := by
  have hobj := h.1
  rw [ClassEnv.classHostObject] at hobj
  split at hobj
  · exact absurd rfl hobj
  · rename_i hnil
    refine ⟨hnil, ?_⟩
    split at hobj
    · rename_i c hc
      exact ⟨c, hc⟩
    · exact absurd rfl hobj

lemma Supported.above {marked marked' : Finset Class} {above above' : Option Frame}
    (h : Supported env marked above rest) (hsub : marked ⊆ marked')
    (habove : ∀ S, S ≠ nil → above = some (.ensure S) ∨ above = some (.recheck S) →
      S ∈ marked' ∨ above' = some (.ensure S) ∨ above' = some (.recheck S)) :
    Supported env marked' above' rest := by
  induction rest generalizing above above' with
  | nil => trivial
  | cons f rest ih =>
    refine ⟨fun S hneeds hnil => ?_, ih h.2 fun S _ hS => .inr hS⟩
    obtain hmem | hS := h.1 S hneeds hnil
    · exact .inl (hsub hmem)
    · exact habove S hnil hS

lemma Supported.pop {marked : Finset Class} {f : Frame} (h : Supported env marked none (f :: rest))
    (hf : ∀ S, S ≠ nil → f = .ensure S ∨ f = .recheck S → S ∈ marked) :
    Supported env marked none rest := by
  apply h.2.above (Finset.Subset.refl marked)
  intro S hnil hS
  obtain hS | hS := hS
  · exact .inl (hf S hnil (.inl (some.inj hS)))
  · exact .inl (hf S hnil (.inr (some.inj hS)))

lemma Walks.pop {f : Frame} (h : Walks env (f :: rest)) : Walks env rest :=
  fun m entry cls hmem => h m entry cls (mem_cons_of_mem f hmem)

lemma Walks.push {f : Frame} (h : Walks env rest) (hf : ∀ m entry cls, f ≠ .walk m entry cls) :
    Walks env (f :: rest) := by
  intro m entry cls hmem
  obtain heq | hmem := mem_cons.mp hmem
  · exact absurd heq.symm (hf m entry cls)
  · exact h m entry cls hmem

lemma Marked.setRegs {regs : Regs} (h : Marked env selInitialize w)
    (hexp : expected w.stack = none) : Marked env selInitialize { w with regs := regs } :=
  ⟨h.inOrder, h.marked, h.sent, h.supported, h.saved,
    fun _ hentry => (by cases hexp.symm.trans hentry), h.walks⟩

lemma Marked.msgSend (h : Marked env selInitialize w) (hexp : expected w.stack = none) :
    Marked env selInitialize (w.msgSend env m deep) := by
  rw [Runtime.msgSend]
  split
  · exact h.setRegs hexp
  · split
    · exact h.setRegs hexp
    · rename_i hreceiver
      split
      · exact h.setRegs hexp
      · rename_i hclass
        have hwalks : Walks env (.walk m w.regs (m.origClass env) :: w.stack) := by
          intro m' entry cls hmem
          obtain heq | hmem := mem_cons.mp hmem
          · obtain ⟨rfl, -, rfl⟩ := Frame.walk.inj heq
            exact ⟨hreceiver, hclass, .inl rfl⟩
          · exact h.walks m' entry cls hmem
        have hrest : Supported env w.initializedClasses
            (some (.walk m w.regs (m.origClass env))) w.stack :=
          h.supported.above (Finset.Subset.refl _) fun S _ hS => by
            obtain hS | hS := hS <;> cases hS
        have hregs : ∀ entry, some w.regs = some entry → w.regs = entry := fun entry hentry =>
          some.inj hentry
        dsimp only
        split
        · refine ⟨h.inOrder, h.marked, h.sent, ⟨(by rintro _ ⟨⟩), ⟨fun S hS _ => ?_, hrest⟩⟩, ⟨hexp, h.saved⟩,
            hregs,
            hwalks.push (by rintro _ _ _ ⟨⟩)⟩
          obtain rfl : S = m.classToInit env := hS
          exact .inr (.inl rfl)
        · rename_i hnil
          refine ⟨h.inOrder, h.marked, h.sent, ⟨fun S hS hne => ?_, hrest⟩, ⟨hexp, h.saved⟩,
            hregs, hwalks⟩
          obtain rfl : S = m.classToInit env := hS
          exact absurd (not_not.mp hnil) hne

lemma classToInit_eq (hord : m.ordinary = true)
    (hreal : ∃ c, env.hostObjects (m.origClass env) = some (.class c)) :
    m.classToInit env = m.addressed env := by
  obtain ⟨c, hc⟩ := hreal
  have horig : m.origClass env = env.isa m.receiver := by
    rw [Message.ordinary, Bool.and_eq_true, decide_eq_true_eq] at hord
    rw [Message.origClass, hord.1]
  rw [Message.classToInit, if_pos hord, Message.addressed, ← horig, hc]

lemma addressed_ne_nil (hord : m.ordinary = true) (hreceiver : m.receiver ≠ nil)
    (hclass : m.origClass env ≠ nil)
    (hreal : ∃ c, env.hostObjects (m.origClass env) = some (.class c)) :
    m.addressed env ≠ nil := by
  rw [← classToInit_eq hord hreal, Message.classToInit, if_pos hord]
  obtain ⟨c, hc⟩ := hreal
  rw [hc]
  dsimp only
  split
  · exact hreceiver
  · exact hclass

lemma Marked.ensure (h : Marked env selInitialize w) (hstack : w.stack = .ensure cls :: rest)
    (hstep : w.resume env selInitialize fuel deep = .ok w') : Marked env selInitialize w' := by
  have hsupp := h.supported
  have hsaved := h.saved
  have hregs := h.regs
  have hwalks := h.walks
  rw [hstack] at hsupp hsaved hregs hwalks
  have hpop : (cls = nil ∨ cls ∈ w.initializedClasses) →
      Marked env selInitialize { w with stack := rest } := by
    intro hdone
    refine ⟨h.inOrder, h.marked, h.sent, hsupp.pop fun S hnil hS => ?_, hsaved, hregs, hwalks.pop⟩
    obtain hS | hS := hS
    · obtain rfl := Frame.ensure.inj hS
      exact hdone.resolve_left hnil
    · cases hS
  rw [Runtime.resume, hstack] at hstep
  dsimp only at hstep
  split at hstep
  · rename_i hnil
    obtain rfl := ok.inj hstep
    exact hpop (.inl hnil)
  · rename_i hnil
    split at hstep
    · rename_i hmem
      obtain rfl := ok.inj hstep
      exact hpop (.inr hmem)
    · split at hstep
      · rename_i c hc
        obtain rfl := ok.inj hstep
        have hrecheck : Walks env (.recheck cls :: rest) := hwalks.pop.push (by rintro _ _ _ ⟨⟩)
        refine ⟨h.inOrder, h.marked, h.sent, ⟨(by rintro _ ⟨⟩), fun S hS _ => ?_, ?_⟩, hsaved, hregs,
          hrecheck.push (by rintro _ _ _ ⟨⟩)⟩
        · obtain ⟨c', hc', rfl⟩ := hS
          obtain rfl := HostObject.class.inj (some.inj (hc.symm.trans hc'))
          exact .inr (.inl rfl)
        · apply hsupp.2.above (Finset.Subset.refl _)
          intro S _ hS
          obtain hS | hS := hS
          · obtain rfl := Frame.ensure.inj (some.inj hS)
            exact .inr (.inr rfl)
          · cases hS
      · rename_i hno
        obtain rfl := ok.inj hstep
        refine ⟨h.inOrder, fun c hc => Finset.mem_insert_of_mem (h.marked c hc),
          fun c hc hr => ?_, ?_, hsaved, hregs, hwalks.pop⟩
        · obtain rfl | hc := Finset.mem_insert.mp hc
          · obtain ⟨-, o, ho⟩ := class_of_responds hr
            exact absurd ho (hno o)
          · exact h.sent c hc hr
        · apply hsupp.2.above (Finset.subset_insert cls _)
          intro S _ hS
          obtain hS | hS := hS
          · obtain rfl := Frame.ensure.inj (some.inj hS)
            exact .inl (Finset.mem_insert_self _ _)
          · cases hS

lemma Marked.recheck (h : Marked env selInitialize w) (hstack : w.stack = .recheck cls :: rest)
    (hstep : w.resume env selInitialize fuel deep = .ok w') : Marked env selInitialize w' := by
  have hsupp := h.supported
  have hsaved := h.saved
  have hregs := h.regs
  have hwalks := h.walks
  rw [hstack] at hsupp hsaved hregs hwalks
  rw [Runtime.resume, hstack] at hstep
  dsimp only at hstep
  split at hstep
  · rename_i hmem
    obtain rfl := ok.inj hstep
    refine ⟨h.inOrder, h.marked, h.sent, hsupp.pop fun S _ hS => ?_, hsaved, hregs, hwalks.pop⟩
    obtain hS | hS := hS
    · cases hS
    · obtain rfl := Frame.recheck.inj hS
      exact hmem
  · rename_i hmem
    obtain ⟨has, hhas, hstep⟩ := bind_eq_ok.mp hstep
    rw [unwrap_eq_ok] at hhas
    have hrest : ∀ above', Supported env (insert cls w.initializedClasses) above' rest := by
      intro above'
      apply hsupp.2.above (Finset.subset_insert cls _)
      intro S _ hS
      obtain hS | hS := hS
      · cases hS
      · obtain rfl := Frame.recheck.inj (some.inj hS)
        exact .inl (Finset.mem_insert_self _ _)
    cases has with
    | false =>
      obtain rfl := ok.inj hstep
      refine ⟨h.inOrder, fun c hc => Finset.mem_insert_of_mem (h.marked c hc),
        fun c hc hr => ?_, hrest none, hsaved, hregs, hwalks.pop⟩
      obtain rfl | hc := Finset.mem_insert.mp hc
      · exact absurd hr (not_responds hhas)
      · exact h.sent c hc hr
    | true =>
      obtain rfl := ok.inj hstep
      have hsuper : ∀ c, env.hostObjects cls = some (.class c) →
          Responds env selInitialize c.superclass → .sent c.superclass ∈ w.trace := by
        intro c hc hr
        obtain ⟨hnil, -⟩ := class_of_responds hr
        have hmarked := (hsupp.1 c.superclass ⟨c, hc, rfl⟩ hnil).resolve_right (by
          rintro (hS | hS)
          · cases hS
          · cases hS)
        exact h.sent _ hmarked hr
      apply Marked.msgSend
      · refine ⟨⟨fun hsent => hmem (h.marked cls hsent), hsuper, h.inOrder⟩, fun c hc => ?_,
          fun c hc hr => ?_, ⟨(by rintro _ ⟨⟩), hrest _⟩, ⟨hregs, hsaved⟩, (by rintro _ ⟨⟩), hwalks.pop.push (by rintro _ _ _ ⟨⟩)⟩
        · obtain heq | hc := mem_cons.mp hc
          · obtain rfl := Event.sent.inj heq
            exact Finset.mem_insert_self _ _
          · exact Finset.mem_insert_of_mem (h.marked c hc)
        · obtain rfl | hc := Finset.mem_insert.mp hc
          · exact mem_cons_self
          · exact mem_cons_of_mem _ (h.sent c hc hr)
      · rfl

lemma Marked.walk {entry : Regs} (h : Marked env selInitialize w)
    (hstack : w.stack = .walk m entry cls :: rest)
    (hstep : w.resume env selInitialize fuel deep = .ok w') : Marked env selInitialize w' := by
  have hsupp := h.supported
  have hsaved := h.saved
  have hregs := h.regs
  have hwalks := h.walks
  rw [hstack] at hsupp hsaved hregs hwalks
  obtain ⟨hreceiver, horig, hplace⟩ := hwalks m entry cls mem_cons_self
  have hrest : Supported env w.initializedClasses none rest := by
    apply hsupp.pop
    rintro S - (hS | hS) <;> cases hS
  obtain ⟨hexp, hsaved⟩ := hsaved
  have hnil : Marked env selInitialize { w with stack := rest }.answerNil :=
    Marked.setRegs (w := { w with stack := rest }) ⟨h.inOrder, h.marked, h.sent, hrest, hsaved,
      fun _ hentry => (by cases hexp.symm.trans hentry), hwalks.pop⟩ hexp
  -- the walk goes on from a class to its superclass
  have hup : ∀ c, env.hostObjects cls = some (.class c) →
      Marked env selInitialize { w with stack := .walk m entry c.superclass :: rest } := by
    intro c hc
    have hreal : ∃ c, env.hostObjects (m.origClass env) = some (.class c) := by
      obtain rfl | hreal := hplace
      · exact ⟨c, hc⟩
      · exact hreal
    refine ⟨h.inOrder, h.marked, h.sent, ⟨hsupp.1, ?_⟩, ⟨hexp, hsaved⟩, hregs, ?_⟩
    · apply hrest.above (Finset.Subset.refl _)
      rintro S - (hS | hS) <;> cases hS
    · intro m' entry' cls' hmem
      obtain heq | hmem := mem_cons.mp hmem
      · obtain ⟨rfl, -, -⟩ := Frame.walk.inj heq
        exact ⟨hreceiver, horig, .inr hreal⟩
      · exact hwalks m' entry' cls' (mem_cons_of_mem _ hmem)
  rw [Runtime.resume, hstack] at hstep
  dsimp only at hstep
  split at hstep
  · obtain rfl := ok.inj hstep
    exact hnil
  · split at hstep
    · rename_i c hc
      split at hstep
      · obtain rfl := ok.inj hstep
        exact hup c hc
      · split at hstep
        · obtain rfl := ok.inj hstep
          have hreal : ∃ c, env.hostObjects (m.origClass env) = some (.class c) := by
            obtain rfl | hreal := hplace
            · exact ⟨c, hc⟩
            · exact hreal
          have hmethod : Supported env w.initializedClasses none (.method :: rest) := by
            refine ⟨(by rintro _ ⟨⟩), hrest.above (Finset.Subset.refl _) ?_⟩
            rintro S - (hS | hS) <;> cases hS
          by_cases hord : m.ordinary = true
          · rw [if_pos hord]
            have hreach : Responds env selInitialize (m.addressed env) →
                .sent (m.addressed env) ∈ w.trace := by
              intro hr
              have hmarked := hsupp.1 (m.addressed env) (classToInit_eq hord hreal).symm
                (addressed_ne_nil hord hreceiver horig hreal)
              apply h.sent _ (hmarked.resolve_right _) hr
              rintro (hS | hS) <;> cases hS
            refine ⟨⟨hreach, h.inOrder⟩, fun c hc => ?_, fun c hc hr => ?_, hmethod,
              ⟨hexp, hsaved⟩, (by rintro _ ⟨⟩), hwalks.pop.push (by rintro _ _ _ ⟨⟩)⟩
            · exact h.marked c ((mem_cons.mp hc).resolve_left (by rintro ⟨⟩))
            · exact mem_cons_of_mem _ (h.sent c hc hr)
          · rw [if_neg hord]
            exact ⟨h.inOrder, h.marked, h.sent, hmethod, ⟨hexp, hsaved⟩, (by rintro _ ⟨⟩),
              hwalks.pop.push (by rintro _ _ _ ⟨⟩)⟩
        · obtain rfl := ok.inj hstep
          exact hup c hc
    · obtain rfl := ok.inj hstep
      exact hnil

lemma Marked.resume (h : Marked env selInitialize w)
    (hstep : w.resume env selInitialize fuel deep = .ok w') : Marked env selInitialize w' := by
  obtain ⟨marked, regs, stack, trace⟩ := w
  cases stack with
  | nil => cases hstep
  | cons f rest =>
    cases f with
    | method => cases hstep
    | ensure cls => exact h.ensure rfl hstep
    | recheck cls => exact h.recheck rfl hstep
    | restore saved =>
      obtain rfl := ok.inj hstep
      refine ⟨h.inOrder, h.marked, h.sent, h.supported.pop ?_, h.saved.2, h.saved.1, h.walks.pop⟩
      rintro S - (hS | hS) <;> cases hS
    | answer cls =>
      obtain rfl := ok.inj hstep
      refine ⟨h.inOrder, h.marked, h.sent, h.supported.pop ?_, h.saved.2,
        fun _ hentry => (by cases h.saved.1.symm.trans hentry), h.walks.pop⟩
      rintro S - (hS | hS) <;> cases hS
    | walk m entry cls => exact h.walk rfl hstep

lemma method_of_step {r : Request} (hr : ∀ fuel deep, r ≠ .resume fuel deep)
    (hstep : w.step env selInitialize r = .ok w') : ∃ rest, w.stack = .method :: rest := by
  rw [Runtime.step] at hstep
  · split at hstep
    · rename_i rest hstack
      exact ⟨rest, hstack⟩
    · cases hstep
  · exact hr

lemma Marked.step {r : Request} (h : Marked env selInitialize w)
    (huse : SwiftUse env selInitialize r = true)
    (hstep : w.step env selInitialize r = .ok w') : Marked env selInitialize w' := by
  by_cases hr : ∀ fuel deep, r ≠ .resume fuel deep
  · obtain ⟨rest, hstack⟩ := method_of_step hr hstep
    obtain ⟨marked, regs, stack, trace⟩ := w
    obtain rfl : stack = .method :: rest := hstack
    cases r with
    | setRegs regs =>
      obtain rfl := ok.inj hstep
      exact h.setRegs rfl
    | send m deep =>
      obtain rfl := ok.inj hstep
      exact h.msgSend rfl
    | getInitializedClass cls fuel deep =>
      change Runtime.getInitializedClass env selInitialize _ cls fuel deep = _ at hstep
      rw [Runtime.getInitializedClass] at hstep
      split at hstep
      · obtain rfl := ok.inj hstep
        exact h.setRegs rfl
      · rename_i hnil
        obtain ⟨has, hhas, hstep⟩ := bind_eq_ok.mp hstep
        rw [unwrap_eq_ok] at hhas
        rw [SwiftUse, Bool.or_eq_true, decide_eq_true_eq, decide_eq_true_eq] at huse
        obtain rfl := some.inj (hhas.symm.trans (huse.resolve_left hnil))
        obtain rfl := ok.inj hstep
        exact h.setRegs rfl
    | ret =>
      obtain rfl := ok.inj hstep
      refine ⟨h.inOrder, h.marked, h.sent, h.supported.pop ?_, h.saved.2,
        fun _ hentry => (by cases h.saved.1.symm.trans hentry), h.walks.pop⟩
      rintro S - (hS | hS) <;> cases hS
    | resume fuel deep => exact absurd rfl (hr fuel deep)
  · push Not at hr
    obtain ⟨fuel, deep, rfl⟩ := hr
    exact h.resume hstep

lemma marked_start : Marked env selInitialize .start := by
  refine ⟨trivial, ?_, ?_, ⟨(by rintro _ ⟨⟩), trivial⟩, ⟨rfl, trivial⟩, (by rintro _ ⟨⟩), ?_⟩
  · exact fun cls hsent => absurd hsent not_mem_nil
  · exact fun cls hmem => absurd hmem (Finset.notMem_empty cls)
  · intro m entry cls hmem
    cases mem_singleton.mp hmem

/-- Over every run of messages and of the code they reach. -/
theorem initializesOnce_of_use (env : ClassEnv) (selInitialize : SEL) (rs : List Request)
    (w : Runtime) (huse : ∀ r ∈ rs, SwiftUse env selInitialize r = true)
    (hrun : run (Runtime.step env selInitialize) .start rs = .ok w) :
    InitializesOnce env selInitialize w := by
  have h : Marked env selInitialize w :=
    run_preserves (I := Marked env selInitialize) (fun _ _ _ h huse hstep => h.step huse hstep)
      marked_start (along_of_forall huse) hrun
  refine ⟨h.inOrder, fun m entry cls rest hstack => ?_⟩
  apply h.regs entry
  rw [hstack]
  rfl

def twoClasses : ClassEnv where
  hostObjects cls :=
    if cls = 100 then some (.class ⟨false, nil, fun _ => none, fun _ => none⟩)
    else if cls = 101 then
      some (.class ⟨true, 100, fun sel => if sel = 1 ∨ sel = 2 then some (.host sel) else none,
        fun _ => none⟩)
    else if cls = 200 then some (.class ⟨false, 100, fun _ => none, fun _ => none⟩)
    else if cls = 201 then some (.class ⟨true, 101, fun _ => none, fun _ => none⟩)
    else none
  phantoms := fun _ => .default
  isa cls := if cls = 200 then 201 else 101
  methodHandles := ∅
  handleWords := fun _ => (nil, 0)
  impTokens := ∅
  hostImpTokens := fun _ => none
  code := fun _ => false
  heap := fun _ => false

theorem initializesOnce_of_use_nested : ∃ w, run (Runtime.step twoClasses 1) .start
      [.setRegs ⟨200, 2, 30, 40⟩, .send ⟨200, 2, none, false⟩ false, .resume 3 false,
        .resume 3 false, .resume 3 false, .resume 3 false, .resume 3 false, .resume 3 false,
        .send ⟨200, 2, none, false⟩ false] = .ok w ∧ InitializesOnce twoClasses 1 w := by
  have hcheck : succeedsWith (fun _ => true) (run (Runtime.step twoClasses 1) .start
      [.setRegs ⟨200, 2, 30, 40⟩, .send ⟨200, 2, none, false⟩ false, .resume 3 false,
        .resume 3 false, .resume 3 false, .resume 3 false, .resume 3 false, .resume 3 false,
        .send ⟨200, 2, none, false⟩ false]) = true := by
    decide
  obtain ⟨w, hrun, -⟩ := exists_of_succeedsWith hcheck
  exact ⟨w, hrun, initializesOnce_of_use twoClasses 1 _ w (by decide) hrun⟩

theorem not_initializesOnce : ¬ ∀ (env : ClassEnv) (selInitialize : SEL) (rs : List Request)
    (w : Runtime), run (Runtime.step env selInitialize) .start rs = .ok w →
      InitializesOnce env selInitialize w := by
  intro h
  have hcheck : succeedsWith (fun w => decide (w.trace = [.sent 200, .sent 200]))
      (run (Runtime.step twoClasses 1) .start
        [.getInitializedClass 200 3 false, .resume 3 false, .resume 3 false, .ret,
          .resume 3 false, .getInitializedClass 200 3 false]) = true := by
    decide
  obtain ⟨w, hrun, hw⟩ := exists_of_succeedsWith hcheck
  have hgood := (h twoClasses 1 _ w hrun).inOrder
  rw [of_decide_eq_true hw] at hgood
  exact hgood.1 List.mem_cons_self

end TouchHle.Objc.Initialize
