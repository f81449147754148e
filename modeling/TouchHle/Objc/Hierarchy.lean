import TouchHle.Objc.Pointers

/-! Linking and dispatch: what holds of the superclass chains in every class table that linking and
swizzling lead to. -/

namespace TouchHle.Objc

open Lib Function Except Option AList

namespace ClassEnv

def dispatch (env : ClassEnv) (selector : SEL) : ℕ → Class → Option (Option IMP)
  | 0, _ => none
  | fuel + 1, cls =>
    if cls = nil then some none
    else match env.hostObjects cls with
      | none => some none
      | some (.class c) =>
        match c.methods selector with
        | some imp => some (some imp)
        | none => env.dispatch selector fuel c.superclass
      | some (.unimplementedClass _) => some none
      | some (.fakeClass _) => some none
      | some .other => some none

def msgSend (env : ClassEnv) (receiver : Id) (selector : SEL) (fuel : ℕ) : Option (Option IMP) :=
  if receiver = nil then some none else env.dispatch selector fuel (env.isa receiver)

def allocStaticObject (env : ClassEnv) (isa : Class) (hostObject : HostObject) (fresh : Class) :
    Checked ClassEnv := do
  let env ← env.alloc fresh
  return { env with
    hostObjects := update env.hostObjects fresh (some hostObject)
    isa := update env.isa fresh isa }

end ClassEnv

inductive ClassTemplate
  | template (isMetaclass : Bool) (superclass : Class) (methods : SEL → Option ℕ)
  | unimplementedClass (isMetaclass : Bool)
  | fakeClass (isMetaclass : Bool)

def ClassTemplate.hostObject : ClassTemplate → HostObject
  | .template isMetaclass superclass methods =>
    .class ⟨isMetaclass, superclass, fun sel => (methods sel).map .host, fun _ => none⟩
  | .unimplementedClass isMetaclass => .unimplementedClass isMetaclass
  | .fakeClass isMetaclass => .fakeClass isMetaclass

namespace ClassEnv

def linkable (env : ClassEnv) : ClassTemplate → Bool
  | .template _ superclass methods =>
    (superclass = nil || (env.hostObjects superclass).isSome) && (methods 0).isNone
  | _ => true

def linkClass (env : ClassEnv) (isa : Class) (metaclassTemplate classTemplate : ClassTemplate)
    (metaclass cls : Class) : Checked ClassEnv := do
  assert (env.linkable metaclassTemplate ∧ env.linkable classTemplate)
  let env ← env.allocStaticObject isa metaclassTemplate.hostObject metaclass
  env.allocStaticObject metaclass classTemplate.hostObject cls

end ClassEnv

def MethodRequest.isSwizzle : MethodRequest → Bool
  | .setSuperclass _ _ => false
  | _ => true

inductive TableRequest
  | linkClass (isa : Class) (metaclassTemplate classTemplate : ClassTemplate)
      (metaclass cls : Class)
  | swizzle (r : {r : MethodRequest // r.isSwizzle = true})

def ClassEnv.advance (env : ClassEnv) : TableRequest → Checked ClassEnv
  | .linkClass isa metaclassTemplate classTemplate metaclass cls =>
    env.linkClass isa metaclassTemplate classTemplate metaclass cls
  | .swizzle r => Prod.snd <$> env.serve r.1

/-- The class table of an app as it is loaded: superclasses are followed to an end, a class that is
borrowed without being one has none, and no block is in use twice. -/
structure Loaded (env : ClassEnv) : Prop where
  noHandle : env.methodHandles = ∅
  noToken : env.impTokens = ∅ ∧ ∀ k, env.hostImpTokens k = none
  acyclic : ∃ rank : Class → ℕ, ∀ cls c, env.hostObjects cls = some (.class c) →
    c.superclass ≠ nil → rank c.superclass < rank cls
  phantom : ∀ cls, (env.phantoms cls).superclass = nil
  used : ∀ cls, env.hostObjects cls ≠ none → env.code cls = true ∨ env.heap cls = true
  superclass : ∀ cls c, env.hostObjects cls = some (.class c) → c.superclass ≠ nil →
    env.code c.superclass = true ∨ env.heap c.superclass = true
  method : ∀ cls c sel imp, env.hostObjects cls = some (.class c) → c.methods sel = some imp →
    sel ≠ 0 ∧ imp ≠ .guest 0

def Points (env : ClassEnv) (p : VoidPtr) : Option IMP → Prop
  | none => p = 0
  | some (.guest addr) => p ≠ 0 ∧ p = addr
  | some (.host imp) => p ≠ 0 ∧ env.impTokens.lookup p = some (.host imp)

inductive Inherits (env : ClassEnv) : Class → Class → Prop
  | refl (cls : Class) : Inherits env cls cls
  | step {cls d : Class} {c : ClassHostObject} : env.classHostObject cls = some c →
      Inherits env c.superclass d → Inherits env cls d

structure Hierarchy (env : ClassEnv) : Prop where
  acyclic : ∃ rank : Class → ℕ, ∀ cls c, env.hostObjects cls = some (.class c) →
    c.superclass ≠ nil → rank c.superclass < rank cls
  phantom : ∀ cls, (env.phantoms cls).superclass = nil
  used : ∀ cls, env.hostObjects cls ≠ none → env.code cls = true ∨ env.heap cls = true
  superclass : ∀ cls c, env.hostObjects cls = some (.class c) → c.superclass ≠ nil →
    env.code c.superclass = true ∨ env.heap c.superclass = true
  method : ∀ cls c sel imp, env.hostObjects cls = some (.class c) → c.methods sel = some imp →
    sel ≠ 0 ∧ imp ≠ .guest 0
  token : ∀ t imp, env.impTokens.lookup t = some imp → t ≠ 0 ∧ ∃ h, imp = .host h
  tokenOf : ∀ k t, env.hostImpTokens k = some t → t ≠ 0
  handle : ∀ k m, env.methodHandles.lookup k = some m →
    k.2 ≠ 0 ∧ env.handleWords m = k ∧ m ≠ 0 ∧ env.heap m = true ∧ env.hostObjects m = none

section

variable {env env' : ClassEnv} {cls d : Class} {sel : SEL} {imp : IMP} {p m fresh : VoidPtr}
  {fuel fuel' : ℕ} {found : Option IMP}

lemma hierarchy_start (h : Loaded env) : Hierarchy env := by
  refine ⟨h.acyclic, h.phantom, h.used, h.superclass, h.method, fun t imp ht => ?_,
    fun k t ht => ?_, fun k m hl => ?_⟩
  · rw [h.noToken.1, lookup_empty] at ht
    cases ht
  · cases (h.noToken.2 k).symm.trans ht
  · rw [h.noHandle, lookup_empty] at hl
    cases hl

lemma findDefiningClass_succ (h : env.findDefiningClass sel fuel cls = some d) :
    env.findDefiningClass sel (fuel + 1) cls = some d := by
  induction fuel generalizing cls with
  | zero => cases h
  | succ fuel ih =>
    rw [ClassEnv.findDefiningClass] at h ⊢
    split at h
    · rename_i hnil
      rw [if_pos hnil]
      exact h
    · rename_i hnil
      rw [if_neg hnil]
      split at h
      · rename_i hsome
        rw [if_pos hsome]
        exact h
      · rename_i hsome
        rw [if_neg hsome]
        dsimp only at h ⊢
        split at h
        · rename_i hself
          rw [if_pos hself]
          exact h
        · rename_i hself
          rw [if_neg hself]
          exact ih h

lemma dispatch_succ (h : env.dispatch sel fuel cls = some found) :
    env.dispatch sel (fuel + 1) cls = some found := by
  induction fuel generalizing cls with
  | zero => cases h
  | succ fuel ih =>
    rw [ClassEnv.dispatch] at h ⊢
    split at h
    · rename_i hnil
      rw [if_pos hnil]
      exact h
    · rename_i hnil
      rw [if_neg hnil]
      cases hobj : env.hostObjects cls with
      | none =>
        rw [hobj] at h
        exact h
      | some o =>
        rw [hobj] at h
        cases o with
        | «class» c =>
          dsimp only at h ⊢
          cases hmeth : c.methods sel with
          | none =>
            rw [hmeth] at h
            exact ih h
          | some imp =>
            rw [hmeth] at h
            exact h
        | unimplementedClass isMetaclass => exact h
        | fakeClass isMetaclass => exact h
        | other => exact h

lemma findDefiningClass_mono (hle : fuel ≤ fuel')
    (h : env.findDefiningClass sel fuel cls = some d) :
    env.findDefiningClass sel fuel' cls = some d := by
  induction hle with
  | refl => exact h
  | step _ ih => exact findDefiningClass_succ ih

lemma dispatch_mono (hle : fuel ≤ fuel') (h : env.dispatch sel fuel cls = some found) :
    env.dispatch sel fuel' cls = some found := by
  induction hle with
  | refl => exact h
  | step _ ih => exact dispatch_succ ih

lemma impAt_nil : env.impAt nil sel = none := by
  rw [ClassEnv.impAt, ClassEnv.classHostObject, if_pos rfl]
  rfl

lemma findDefiningClass_nil : env.findDefiningClass sel (fuel + 1) nil = some nil := by
  rw [ClassEnv.findDefiningClass, if_pos rfl]

lemma dispatch_nil : env.dispatch sel (fuel + 1) nil = some none := by
  rw [ClassEnv.dispatch, if_pos rfl]

lemma Hierarchy.walk (h : Hierarchy env) (sel : SEL) (cls : Class) : ∃ n d,
    env.findDefiningClass sel (n + 1) cls = some d ∧
      env.dispatch sel (n + 1) cls = some (env.impAt d sel) ∧
      (d ≠ nil → env.impAt d sel ≠ none) ∧ (d = nil ∨ Inherits env cls d) := by
  obtain ⟨rank, hrank⟩ := h.acyclic
  induction hr : rank cls using Nat.strong_induction_on generalizing cls with
  | _ r ih =>
    by_cases hnil : cls = nil
    · subst hnil
      refine ⟨0, nil, findDefiningClass_nil, ?_, fun h => absurd rfl h, .inl rfl⟩
      rw [dispatch_nil, impAt_nil]
    · by_cases hreal : ∃ c, env.hostObjects cls = some (.class c)
      · obtain ⟨c, hc⟩ := hreal
        have hobj : env.classHostObject cls = some c := by
          rw [ClassEnv.classHostObject, if_neg hnil, hc]
        have himp : env.impAt cls sel = c.methods sel := by
          rw [ClassEnv.impAt, hobj]
          rfl
        cases hmeth : c.methods sel with
        | some imp =>
          have hsome : env.impAt cls sel = some imp := himp.trans hmeth
          refine ⟨0, cls, ?_, ?_, fun _ => ?_, .inr (.refl cls)⟩
          · rw [ClassEnv.findDefiningClass, if_neg hnil, hsome, if_pos isSome_some]
          · rw [ClassEnv.dispatch, if_neg hnil, hc, hsome]
            dsimp only
            rw [hmeth]
          · rw [hsome]
            exact some_ne_none imp
        | none =>
          have hnone : env.impAt cls sel = none := himp.trans hmeth
          have hsuper : env.getSuperclass cls = c.superclass := by
            rw [ClassEnv.getSuperclass, ClassEnv.borrow, hc]
          have hne : c.superclass ≠ cls := by
            intro heq
            have hlt := hrank cls c hc (by rwa [heq])
            rw [heq] at hlt
            exact lt_irrefl _ hlt
          obtain ⟨n, d, hfind, hdisp, hdef, hin⟩ : ∃ n d,
              env.findDefiningClass sel (n + 1) c.superclass = some d ∧
                env.dispatch sel (n + 1) c.superclass = some (env.impAt d sel) ∧
                (d ≠ nil → env.impAt d sel ≠ none) ∧ (d = nil ∨ Inherits env c.superclass d) := by
            by_cases hroot : c.superclass = nil
            · rw [hroot]
              refine ⟨0, nil, findDefiningClass_nil, ?_, fun h => absurd rfl h, .inl rfl⟩
              rw [dispatch_nil, impAt_nil]
            · have hlt := hrank cls c hc hroot
              rw [hr] at hlt
              exact ih (rank c.superclass) hlt c.superclass rfl
          refine ⟨n + 1, d, ?_, ?_, hdef, hin.imp_right (.step hobj)⟩
          · rw [ClassEnv.findDefiningClass, if_neg hnil, hnone, if_neg (by exact Bool.false_ne_true)]
            dsimp only
            rw [hsuper, if_neg hne]
            exact hfind
          · rw [ClassEnv.dispatch, if_neg hnil, hc]
            dsimp only
            rw [hmeth]
            exact hdisp
      · have hobj : env.classHostObject cls = none := by
          rw [ClassEnv.classHostObject, if_neg hnil]
          split
          · rename_i c hc
            exact absurd ⟨c, hc⟩ hreal
          · rfl
        have hnone : env.impAt cls sel = none := by
          rw [ClassEnv.impAt, hobj]
          rfl
        have hsuper : env.getSuperclass cls = nil := by
          rw [ClassEnv.getSuperclass, ClassEnv.borrow]
          split
          · rename_i c hc
            exact absurd ⟨c, hc⟩ hreal
          · exact h.phantom cls
        refine ⟨1, nil, ?_, ?_, fun h => absurd rfl h, .inl rfl⟩
        · rw [ClassEnv.findDefiningClass, if_neg hnil, hnone, if_neg (by exact Bool.false_ne_true)]
          dsimp only
          rw [hsuper, if_neg (Ne.symm hnil)]
          exact findDefiningClass_nil
        · rw [impAt_nil, ClassEnv.dispatch, if_neg hnil]
          split
          · rfl
          · rename_i c hc
            exact absurd ⟨c, hc⟩ hreal
          · rfl
          · rfl
          · rfl

structure Defining (env : ClassEnv) (cls : Class) (sel : SEL) (d : Class) : Prop where
  ends : ∃ n, ∀ fuel ≥ n, env.findDefiningClass sel fuel cls = some d ∧
    env.dispatch sel fuel cls = some (env.impAt d sel)
  find : ∀ fuel d', env.findDefiningClass sel fuel cls = some d' → d' = d
  dispatch : ∀ fuel found, env.dispatch sel fuel cls = some found → found = env.impAt d sel
  defines : env.impAt d sel = none ↔ d = nil
  inherits : d = nil ∨ Inherits env cls d

lemma Hierarchy.defining (h : Hierarchy env) (cls : Class) (sel : SEL) :
    ∃ d, Defining env cls sel d := by
  obtain ⟨n, d, hfind, hdisp, hdef, hin⟩ := h.walk sel cls
  refine ⟨d, ⟨n + 1, fun fuel hle => ?_⟩, fun fuel d' hd' => ?_, fun fuel found hf => ?_, ?_, hin⟩
  · exact ⟨findDefiningClass_mono hle hfind, dispatch_mono hle hdisp⟩
  · have hmax := findDefiningClass_mono (le_max_left (n + 1) fuel) hfind
    have hmax' := findDefiningClass_mono (le_max_right (n + 1) fuel) hd'
    exact some.inj (hmax'.symm.trans hmax)
  · have hmax := dispatch_mono (le_max_left (n + 1) fuel) hdisp
    have hmax' := dispatch_mono (le_max_right (n + 1) fuel) hf
    exact some.inj (hmax'.symm.trans hmax)
  · constructor
    · intro hnone
      by_contra hne
      exact hdef hne hnone
    · rintro rfl
      exact impAt_nil

lemma dispatch_zero (h : Hierarchy env) (hd : Defining env cls 0 d) : d = nil := by
  apply hd.defines.mp
  rw [ClassEnv.impAt, ClassEnv.classHostObject]
  split
  · rfl
  · split
    · rename_i c hc
      change c.methods 0 = none
      cases hmeth : c.methods 0 with
      | none => rfl
      | some imp => exact absurd rfl (h.method d c 0 imp hc hmeth).1
    · rfl

lemma Hierarchy.impAt_ne (h : Hierarchy env) (himp : env.impAt cls sel = some imp) :
    imp ≠ .guest 0 := by
  rw [ClassEnv.impAt, ClassEnv.classHostObject] at himp
  split at himp
  · cases himp
  · split at himp
    · rename_i c hc
      exact (h.method cls c sel imp hc himp).2
    · cases himp

lemma Hierarchy.points {o : Option IMP} (h : Hierarchy env) (himp : o ≠ some (.guest 0))
    (hstep : env.optImpToGuestPtr cls sel o fresh = .ok (p, env')) : Points env' p o := by
  cases o with
  | none =>
    obtain ⟨rfl, rfl⟩ := ok_pair_inj hstep
    rfl
  | some imp =>
    cases imp with
    | guest a =>
      obtain ⟨rfl, rfl⟩ := ok_pair_inj hstep
      refine ⟨fun hnil => ?_, rfl⟩
      exact himp (by rw [hnil])
    | host n =>
      rw [ClassEnv.optImpToGuestPtr, ClassEnv.impToGuestPtr] at hstep
      split at hstep
      · rename_i token htok
        obtain ⟨rfl, rfl⟩ := ok_pair_inj hstep
        exact ⟨h.tokenOf _ _ htok, lookup_insert env.impTokens⟩
      · obtain ⟨env₁, halloc, hstep⟩ := bind_eq_ok.mp hstep
        obtain ⟨⟨hnil, -, -⟩, rfl⟩ := ClassEnv.alloc_eq_ok halloc
        obtain ⟨rfl, rfl⟩ := ok_pair_inj hstep
        exact ⟨hnil, lookup_insert env.impTokens⟩

lemma Hierarchy.decode_iff {k : Class × SEL} (h : Hierarchy env) :
    env.methodHandleDecode m = some k ↔ env.methodHandles.lookup k = some m := by
  apply decode_iff_of_words
  intro k m hl
  exact ⟨(h.handle k m hl).2.1, (h.handle k m hl).2.2.1⟩

lemma Hierarchy.alloc (h : Hierarchy env) (hstep : env.alloc fresh = .ok env') :
    Hierarchy env' := by
  obtain ⟨-, rfl⟩ := ClassEnv.alloc_eq_ok hstep
  have hmono : ∀ a, env.heap a = true → update env.heap fresh true a = true := by
    intro a ha
    by_cases hne : a = fresh
    · rw [hne, update_self]
    · rwa [update_of_ne hne]
  refine ⟨h.acyclic, h.phantom, fun c hc => ?_, fun c o hc hs => ?_, h.method, h.token, h.tokenOf,
    fun k m hl => ?_⟩
  · exact (h.used c hc).imp_right (hmono c)
  · exact (h.superclass c o hc hs).imp_right (hmono o.superclass)
  · obtain ⟨hsel, hwords, hnil, hheap, hobj⟩ := h.handle k m hl
    exact ⟨hsel, hwords, hnil, hmono m hheap, hobj⟩

lemma Hierarchy.unregistered (h : Hierarchy env) (hstep : env.alloc fresh = .ok env') :
    env.hostObjects fresh = none := by
  obtain ⟨⟨-, hcode, hheap⟩, -⟩ := ClassEnv.alloc_eq_ok hstep
  by_contra hobj
  obtain hused | hused := h.used fresh hobj
  · cases hused.symm.trans hcode
  · cases hused.symm.trans hheap

lemma Hierarchy.methodHandleFor (h : Hierarchy env) (hsel : sel ≠ 0)
    (hstep : env.methodHandleFor cls sel fresh = .ok (m, env')) :
    Hierarchy env' ∧ env'.methodHandles.lookup (cls, sel) = some m ∧
      env'.hostObjects = env.hostObjects := by
  rw [ClassEnv.methodHandleFor] at hstep
  cases hl : env.methodHandles.lookup (cls, sel) with
  | some existing =>
    rw [hl] at hstep
    obtain ⟨rfl, rfl⟩ := ok_pair_inj hstep
    exact ⟨h, hl, rfl⟩
  | none =>
    rw [hl] at hstep
    obtain ⟨env₁, halloc, hstep⟩ := bind_eq_ok.mp hstep
    obtain ⟨rfl, rfl⟩ := ok_pair_inj hstep
    have h₁ := h.alloc halloc
    have hfree := h.unregistered halloc
    obtain ⟨⟨hnil, -, hheap⟩, rfl⟩ := ClassEnv.alloc_eq_ok halloc
    refine ⟨⟨h₁.acyclic, h₁.phantom, h₁.used, h₁.superclass, h₁.method, h₁.token, h₁.tokenOf,
      fun k m hk => ?_⟩, lookup_insert env.methodHandles, rfl⟩
    by_cases hkey : k = (cls, sel)
    · subst hkey
      rw [lookup_insert] at hk
      obtain rfl := some.inj hk
      exact ⟨hsel, update_self _ _ _, hnil, update_self _ _ _, hfree⟩
    · rw [lookup_insert_ne hkey] at hk
      obtain ⟨hsel, hwords, hm, hmheap, hobj⟩ := h₁.handle k m hk
      have hne : m ≠ fresh := by
        rintro rfl
        cases (h.handle k m hk).2.2.2.1.symm.trans hheap
      exact ⟨hsel, (update_of_ne hne _ _).trans hwords, hm, hmheap, hobj⟩

lemma Hierarchy.toPtr {o : Option IMP} (h : Hierarchy env)
    (hstep : env.optImpToGuestPtr cls sel o fresh = .ok (p, env')) : Hierarchy env' := by
  cases o with
  | none =>
    obtain ⟨rfl, rfl⟩ := ok_pair_inj hstep
    exact h
  | some imp =>
    cases imp with
    | guest a =>
      obtain ⟨rfl, rfl⟩ := ok_pair_inj hstep
      exact h
    | host n =>
      rw [ClassEnv.optImpToGuestPtr, ClassEnv.impToGuestPtr] at hstep
      have hinsert : ∀ (env₁ : ClassEnv) (t' : VoidPtr), Hierarchy env₁ → t' ≠ 0 →
          ∀ t imp, (env₁.impTokens.insert t' (.host n)).lookup t = some imp →
            t ≠ 0 ∧ ∃ h, imp = .host h := by
        intro env₁ t' h₁ ht' t imp hl
        by_cases ht : t = t'
        · subst ht
          rw [lookup_insert] at hl
          exact ⟨ht', n, (some.inj hl).symm⟩
        · rw [lookup_insert_ne ht] at hl
          exact h₁.token t imp hl
      split at hstep
      · rename_i token htok
        obtain ⟨rfl, rfl⟩ := ok_pair_inj hstep
        exact ⟨h.acyclic, h.phantom, h.used, h.superclass, h.method,
          hinsert env token h (h.tokenOf _ _ htok), h.tokenOf, h.handle⟩
      · obtain ⟨env₁, halloc, hstep⟩ := bind_eq_ok.mp hstep
        have h₁ := h.alloc halloc
        obtain ⟨⟨hnil, -, -⟩, rfl⟩ := ClassEnv.alloc_eq_ok halloc
        obtain ⟨rfl, rfl⟩ := ok_pair_inj hstep
        refine ⟨h₁.acyclic, h₁.phantom, h₁.used, h₁.superclass, h₁.method,
          hinsert _ fresh h₁ hnil, fun k t ht => ?_, h₁.handle⟩
        dsimp only at ht
        by_cases hk : k = (cls, sel)
        · subst hk
          rw [update_self] at ht
          exact some.inj ht ▸ hnil
        · rw [update_of_ne hk] at ht
          exact h.tokenOf k t ht

lemma hostObjects_modify_eq_none (f : ClassHostObject → ClassHostObject) {c : Class} :
    (env.modify cls f).hostObjects c = none ↔ env.hostObjects c = none := by
  rw [ClassEnv.modify]
  split
  · rename_i o ho
    by_cases hc : c = cls
    · subst hc
      simp [ho]
    · dsimp only
      rw [update_of_ne hc]
  · rfl

lemma class_of_modify {f : ClassHostObject → ClassHostObject} {c : Class} {o : ClassHostObject}
    (h : (env.modify cls f).hostObjects c = some (.class o)) :
    ∃ old, env.hostObjects c = some (.class old) ∧ (o = old ∨ c = cls ∧ o = f old) := by
  rw [ClassEnv.modify] at h
  split at h
  · rename_i old hold
    by_cases hc : c = cls
    · subst hc
      dsimp only at h
      rw [update_self] at h
      obtain rfl := HostObject.class.inj (some.inj h)
      exact ⟨old, hold, .inr ⟨rfl, rfl⟩⟩
    · dsimp only at h
      rw [update_of_ne hc] at h
      exact ⟨o, h, .inl rfl⟩
  · exact ⟨o, h, .inl rfl⟩

lemma Hierarchy.modify {f : ClassHostObject → ClassHostObject} (h : Hierarchy env)
    (hsuper : ∀ c, (f c).superclass = c.superclass)
    (hmethod : ∀ c sel imp, (f c).methods sel = some imp →
      c.methods sel = some imp ∨ sel ≠ 0 ∧ imp ≠ .guest 0) : Hierarchy (env.modify cls f) := by
  have hs : ClassEnv.SameHandles env (env.modify cls f) := ClassEnv.sameHandles_modify f
  have hold : ∀ c o, (env.modify cls f).hostObjects c = some (.class o) →
      ∃ old, env.hostObjects c = some (.class old) ∧ o.superclass = old.superclass := by
    intro c o hc
    obtain ⟨old, hobj, rfl | ⟨rfl, rfl⟩⟩ := class_of_modify hc
    · exact ⟨o, hobj, rfl⟩
    · exact ⟨old, hobj, hsuper old⟩
  refine ⟨?_, ?_, ?_, ?_, ?_, ?_, ?_, ?_⟩
  · obtain ⟨rank, hrank⟩ := h.acyclic
    refine ⟨rank, fun c o hc hnil => ?_⟩
    obtain ⟨old, hobj, heq⟩ := hold c o hc
    rw [heq] at hnil ⊢
    exact hrank c old hobj hnil
  · intro c
    rw [ClassEnv.modify]
    split
    · exact h.phantom c
    · by_cases hc : c = cls
      · subst hc
        dsimp only
        rw [update_self, hsuper]
        exact h.phantom c
      · dsimp only
        rw [update_of_ne hc]
        exact h.phantom c
  · intro c hc
    rw [hs.code, hs.heap]
    apply h.used c
    exact fun hnone => hc ((hostObjects_modify_eq_none f).mpr hnone)
  · intro c o hc hnil
    obtain ⟨old, hobj, heq⟩ := hold c o hc
    rw [hs.code, hs.heap]
    rw [heq] at hnil ⊢
    exact h.superclass c old hobj hnil
  · intro c o sel imp hc hmeth
    obtain ⟨old, hobj, rfl | ⟨rfl, rfl⟩⟩ := class_of_modify hc
    · exact h.method c o sel imp hobj hmeth
    · obtain hmeth | hgood := hmethod old sel imp hmeth
      · exact h.method c old sel imp hobj hmeth
      · exact hgood
  · rw [hs.impTokens]
    exact h.token
  · rw [hs.hostImpTokens]
    exact h.tokenOf
  · intro k m hl
    rw [hs.methodHandles] at hl
    rw [hs.handleWords, hs.heap]
    obtain ⟨hsel, hwords, hnil, hheap, hobj⟩ := h.handle k m hl
    exact ⟨hsel, hwords, hnil, hheap, (hostObjects_modify_eq_none f).mpr hobj⟩

lemma Hierarchy.setImpAt (h : Hierarchy env) (hsel : sel ≠ 0) (himp : imp ≠ .guest 0) :
    Hierarchy (env.setImpAt cls sel imp) := by
  apply h.modify
  · exact fun _ => rfl
  · intro c sel' imp' hmeth
    by_cases heq : sel' = sel
    · subst heq
      dsimp only at hmeth
      rw [update_self] at hmeth
      obtain rfl := some.inj hmeth
      exact .inr ⟨hsel, himp⟩
    · dsimp only at hmeth
      rw [update_of_ne heq] at hmeth
      exact .inl hmeth

lemma Hierarchy.setSignatureAt (h : Hierarchy env) (types : Option VoidPtr) :
    Hierarchy (env.setSignatureAt cls sel types) := by
  apply h.modify
  · exact fun _ => rfl
  · exact fun _ _ _ hmeth => .inl hmeth

lemma Hierarchy.toImp_ne (h : Hierarchy env) (himp : env.guestPtrToImp p = some imp) :
    imp ≠ .guest 0 := by
  rw [ClassEnv.guestPtrToImp] at himp
  split at himp
  · cases himp
  · rename_i hnil
    split at himp
    · rename_i hostImp hl
      obtain rfl := some.inj himp
      obtain ⟨-, n, rfl⟩ := h.token p hostImp hl
      rintro ⟨⟩
    · obtain rfl := some.inj himp
      exact fun heq => hnil (IMP.guest.inj heq)

lemma Hierarchy.install (h : Hierarchy env) (hsel : sel ≠ 0) :
    Hierarchy (env.install cls sel p) := by
  rw [ClassEnv.install]
  split
  · rename_i newImp himp
    exact h.setImpAt hsel (h.toImp_ne himp)
  · exact h

lemma Hierarchy.setOptImpAt {o : Option IMP} (h : Hierarchy env) (hsel : sel ≠ 0)
    (himp : ∀ imp, o = some imp → imp ≠ .guest 0) : Hierarchy (env.setOptImpAt cls sel o) := by
  cases o with
  | none => exact h
  | some imp => exact h.setImpAt hsel (himp imp rfl)

lemma Hierarchy.sel_ne {k : Class × SEL} (h : Hierarchy env)
    (hm : env.methodHandleDecode m = some k) : k.2 ≠ 0 :=
  (h.handle k m (h.decode_iff.mp hm)).1

lemma Hierarchy.exchange (h : Hierarchy env) (m1 m2 : VoidPtr) :
    Hierarchy (env.methodExchangeImplementations m1 m2) := by
  rw [ClassEnv.methodExchangeImplementations]
  split
  · rename_i cls1 sel1 cls2 sel2 hm1 hm2
    have h1 : Hierarchy (env.setOptImpAt cls1 sel1 (env.impAt cls2 sel2)) :=
      h.setOptImpAt (h.sel_ne hm1) fun imp himp => h.impAt_ne himp
    have h2 : Hierarchy ((env.setOptImpAt cls1 sel1 (env.impAt cls2 sel2)).setOptImpAt cls2 sel2
        (env.impAt cls1 sel1)) :=
      h1.setOptImpAt (h.sel_ne hm2) fun imp himp => h.impAt_ne himp
    exact (h2.setSignatureAt _).setSignatureAt _
  · exact h

lemma Hierarchy.addMethod (h : Hierarchy env) (types : VoidPtr) :
    Hierarchy (env.classAddMethod cls sel p types).2 := by
  rw [ClassEnv.classAddMethod]
  split
  · exact h
  · rename_i hnull
    obtain ⟨-, hsel⟩ := not_or.mp hnull
    split
    · exact h
    · rename_i hnil
      split
      · exact h
      · have hset : Hierarchy (env.setImpAt cls sel (.guest p)) :=
          h.setImpAt hsel fun heq => hnil (IMP.guest.inj heq)
        dsimp only
        split
        · exact hset.setSignatureAt _
        · exact hset

lemma Hierarchy.replaceMethod {types : VoidPtr} {out : VoidPtr × ClassEnv} (h : Hierarchy env)
    (hstep : env.classReplaceMethod cls sel p types fresh = .ok out) : Hierarchy out.2 := by
  rw [ClassEnv.classReplaceMethod] at hstep
  split at hstep
  · obtain rfl := ok.inj hstep
    exact h
  · rename_i hnull
    obtain ⟨-, hsel⟩ := not_or.mp hnull
    dsimp only at hstep
    cases himp : env.guestPtrToImp p with
    | none =>
      rw [himp] at hstep
      exact h.toPtr hstep
    | some newImp =>
      rw [himp] at hstep
      have hset : Hierarchy (env.setImpAt cls sel newImp) := h.setImpAt hsel (h.toImp_ne himp)
      dsimp only at hstep
      split at hstep
      · exact (hset.setSignatureAt _).toPtr hstep
      · exact hset.toPtr hstep

lemma Hierarchy.serve {r : MethodRequest} {out : VoidPtr × ClassEnv} (h : Hierarchy env)
    (hr : r.isSwizzle = true) (hstep : env.serve r = .ok out) : Hierarchy out.2 := by
  cases r with
  | getInstanceMethod fuel cls name fresh =>
    change env.classGetInstanceMethod fuel cls name fresh = _ at hstep
    rw [ClassEnv.classGetInstanceMethod] at hstep
    split at hstep
    · obtain rfl := ok.inj hstep
      exact h
    · rename_i hnull
      obtain ⟨-, hsel⟩ := not_or.mp hnull
      obtain ⟨defining, -, hstep⟩ := bind_eq_ok.mp hstep
      split at hstep
      · obtain rfl := ok.inj hstep
        exact h
      · exact (h.methodHandleFor hsel hstep).1
  | getImplementation m fresh =>
    change env.methodGetImplementation m fresh = _ at hstep
    rw [ClassEnv.methodGetImplementation] at hstep
    split at hstep
    · obtain rfl := ok.inj hstep
      exact h
    · exact h.toPtr hstep
  | getMethodImplementation fuel cls name fresh =>
    change env.classGetMethodImplementation fuel cls name fresh = _ at hstep
    rw [ClassEnv.classGetMethodImplementation] at hstep
    split at hstep
    · obtain rfl := ok.inj hstep
      exact h
    · obtain ⟨defining, -, hstep⟩ := bind_eq_ok.mp hstep
      split at hstep
      · obtain rfl := ok.inj hstep
        exact h
      · exact h.toPtr hstep
  | setImplementation m imp fresh =>
    change env.methodSetImplementation m imp fresh = _ at hstep
    rw [ClassEnv.methodSetImplementation] at hstep
    split at hstep
    · obtain rfl := ok.inj hstep
      exact h
    · rename_i cls sel hm
      have hsel : sel ≠ 0 := h.sel_ne hm
      exact (h.install hsel).toPtr hstep
  | replaceMethod cls name imp types fresh => exact h.replaceMethod hstep
  | addMethod cls name imp types =>
    obtain rfl := ok.inj hstep
    exact h.addMethod types
  | exchangeImplementations m1 m2 =>
    obtain rfl := ok.inj hstep
    exact h.exchange m1 m2
  | setSuperclass cls newSuper => cases hr

lemma Hierarchy.allocStaticObject {isa : Class} {t : ClassTemplate} (h : Hierarchy env)
    (hlink : env.linkable t = true)
    (hstep : env.allocStaticObject isa t.hostObject cls = .ok env') :
    Hierarchy env' ∧ ∀ t', env.linkable t' = true → env'.linkable t' = true := by
  rw [ClassEnv.allocStaticObject] at hstep
  obtain ⟨env₁, halloc, hstep⟩ := bind_eq_ok.mp hstep
  obtain rfl := ok.inj hstep
  have h₁ := h.alloc halloc
  have hfree := h.unregistered halloc
  obtain ⟨⟨hnil, hcode, hheap⟩, rfl⟩ := ClassEnv.alloc_eq_ok halloc
  have hne : ∀ s, env.code s = true ∨ env.heap s = true → s ≠ cls := by
    rintro s (hs | hs) rfl
    · cases hs.symm.trans hcode
    · cases hs.symm.trans hheap
  -- a class of the template has a superclass that was there before, and methods of the host
  have htemplate : ∀ c, t.hostObject = .class c → (c.superclass ≠ nil →
      env.hostObjects c.superclass ≠ none) ∧ ∀ sel imp, c.methods sel = some imp →
        sel ≠ 0 ∧ imp ≠ .guest 0 := by
    intro c hc
    cases t with
    | template isMetaclass superclass methods =>
      obtain rfl := HostObject.class.inj hc
      rw [ClassEnv.linkable, Bool.and_eq_true, Bool.or_eq_true, decide_eq_true_eq] at hlink
      refine ⟨fun hs => isSome_iff_ne_none.mp (hlink.1.resolve_left hs),
        fun sel imp hmeth => ?_⟩
      obtain ⟨n, hn, rfl⟩ := map_eq_some_iff.mp hmeth
      refine ⟨?_, (by rintro ⟨⟩)⟩
      rintro rfl
      rw [isNone_iff_eq_none.mp hlink.2] at hn
      cases hn
    | unimplementedClass isMetaclass => cases hc
    | fakeClass isMetaclass => cases hc
  have hclass : ∀ c o, update env.hostObjects cls (some t.hostObject) c =
      some (.class o) → c = cls ∧ t.hostObject = .class o ∨
        c ≠ cls ∧ env.hostObjects c = some (.class o) := by
    intro c o hc
    by_cases heq : c = cls
    · rw [heq, update_self] at hc
      exact .inl ⟨heq, some.inj hc⟩
    · rw [update_of_ne heq] at hc
      exact .inr ⟨heq, hc⟩
  have hused : ∀ o, t.hostObject = .class o → o.superclass ≠ nil →
      env.code o.superclass = true ∨ env.heap o.superclass = true := fun o ho hs =>
    h.used o.superclass ((htemplate o ho).1 hs)
  refine ⟨⟨?_, h₁.phantom, fun c hc => ?_, fun c o hc hs => ?_, fun c o sel imp hc hmeth => ?_,
    h₁.token, h₁.tokenOf, fun k m hl => ?_⟩, fun t' ht' => ?_⟩
  · obtain ⟨rank, hrank⟩ := h.acyclic
    obtain ⟨above, habove⟩ : ∃ above, ∀ o, t.hostObject = .class o →
        rank o.superclass < above := by
      cases hhost : t.hostObject with
      | «class» o =>
        refine ⟨rank o.superclass + 1, fun o' ho' => ?_⟩
        obtain rfl := HostObject.class.inj ho'
        exact Nat.lt_succ_self _
      | unimplementedClass => exact ⟨0, fun o ho => by cases ho⟩
      | fakeClass => exact ⟨0, fun o ho => by cases ho⟩
      | other => exact ⟨0, fun o ho => by cases ho⟩
    refine ⟨update rank cls above, fun c o hc hs => ?_⟩
    obtain ⟨rfl, ho⟩ | ⟨hneq, hc⟩ := hclass c o hc
    · rw [update_self, update_of_ne (hne _ (hused o ho hs))]
      exact habove o ho
    · rw [update_of_ne hneq, update_of_ne (hne _ (h.superclass c o hc hs))]
      exact hrank c o hc hs
  · by_cases heq : c = cls
    · rw [heq]
      exact .inr (update_self _ _ _)
    · dsimp only at hc
      rw [update_of_ne heq] at hc
      exact h₁.used c hc
  · obtain ⟨rfl, ho⟩ | ⟨-, hc⟩ := hclass c o hc
    · apply (hused o ho hs).imp_right
      intro hold
      exact (update_of_ne (hne _ (.inr hold)) _ _).trans hold
    · exact h₁.superclass c o hc hs
  · obtain ⟨rfl, ho⟩ | ⟨-, hc⟩ := hclass c o hc
    · exact (htemplate o ho).2 sel imp hmeth
    · exact h.method c o sel imp hc hmeth
  · obtain ⟨hsel, hwords, hm, hmheap, hobj⟩ := h₁.handle k m hl
    refine ⟨hsel, hwords, hm, hmheap, ?_⟩
    have hmne : m ≠ cls := hne m (.inr (h.handle k m hl).2.2.2.1)
    exact (update_of_ne hmne _ _).trans hobj
  · cases t' with
    | template isMetaclass superclass methods =>
      rw [ClassEnv.linkable, Bool.and_eq_true, Bool.or_eq_true] at ht' ⊢
      refine ⟨ht'.1.imp_right fun hs => ?_, ht'.2⟩
      by_cases heq : superclass = cls
      · rw [heq]
        dsimp only
        rw [update_self]
        rfl
      · dsimp only
        rwa [update_of_ne heq]
    | unimplementedClass isMetaclass => rfl
    | fakeClass isMetaclass => rfl

lemma Hierarchy.advance {r : TableRequest} (h : Hierarchy env)
    (hstep : env.advance r = .ok env') : Hierarchy env' := by
  cases r with
  | linkClass isa metaclassTemplate classTemplate metaclass cls =>
    obtain ⟨_, hlink, hstep⟩ := bind_eq_ok.mp hstep
    obtain ⟨hmeta, hclass⟩ := assert_eq_ok.mp hlink
    obtain ⟨env₁, hmetaclass, hstep⟩ := bind_eq_ok.mp hstep
    obtain ⟨h₁, hmono⟩ := h.allocStaticObject hmeta hmetaclass
    exact (h₁.allocStaticObject (hmono classTemplate hclass) hstep).1
  | swizzle r =>
    obtain ⟨out, hserve, rfl⟩ := map_eq_ok.mp hstep
    exact h.serve r.2 hserve

end

end TouchHle.Objc
