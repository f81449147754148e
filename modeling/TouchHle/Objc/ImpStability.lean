import TouchHle.Objc.Pointers

/-! An `IMP` pointer answered to the app goes on to denote the implementation it was answered for,
over every run of the calls that read and exchange implementations. -/

namespace TouchHle.Objc

open Lib ClassEnv

structure ImpStable (w : Handed) : Prop where
  /-- A pointer denotes what it was answered for. -/
  denotes : ∀ p imp, (p, imp) ∈ w.handed → w.env.guestPtrToImp p = some imp
  /-- Two pointers are equal if and only if they were answered for one implementation. -/
  equal : ∀ p imp q imp', (p, imp) ∈ w.handed → (q, imp') ∈ w.handed → (p = q ↔ imp = imp')
  /-- The calls that install a pointer install what it denotes. -/
  set : ∀ p imp m k fresh out, (p, imp) ∈ w.handed → w.env.methodHandleDecode m = some k →
    w.env.methodSetImplementation m p fresh = .ok out → out.2.impAt k.1 k.2 = some imp
  replace : ∀ p imp cls name types fresh out, (p, imp) ∈ w.handed → name ≠ 0 →
    w.env.classHostObject cls ≠ none →
    w.env.classReplaceMethod cls name p types fresh = .ok out → out.2.impAt cls name = some imp
  add : ∀ p imp cls name types, (p, imp) ∈ w.handed → name ≠ 0 →
    w.env.classHostObject cls ≠ none → w.env.impAt cls name = none →
    StableUse w.env (.addMethod cls name p types) = true →
    (w.env.classAddMethod cls name p types).2.impAt cls name = some imp
  /-- To set what was read changes no implementation. -/
  noop : ∀ m fresh fresh' p env₁ out, StableUse w.env (.getImplementation m fresh) = true →
    w.env.methodGetImplementation m fresh = .ok (p, env₁) →
    env₁.methodSetImplementation m p fresh' = .ok out →
    ∀ cls sel, out.2.impAt cls sel = w.env.impAt cls sel
  /-- Two methods exchanged twice are as they were. -/
  exchange : ∀ m1 m2 cls sel,
    let twice := (w.env.methodExchangeImplementations m1 m2).methodExchangeImplementations m1 m2
    twice.impAt cls sel = w.env.impAt cls sel ∧ twice.signatureAt cls sel = w.env.signatureAt cls sel

section

variable {env env' : ClassEnv} {handed : List (VoidPtr × IMP)} {cls : Class} {sel : SEL} {imp : IMP}
  {p q m m1 m2 fresh : VoidPtr} {k k1 k2 : Class × SEL}

lemma pointers_start (h : Registered env) : Pointers env [] := by
  have hempty : ∀ t, env.impTokens.lookup t = none := by
    intro t
    rw [h.noToken.1, AList.lookup_empty]
  refine ⟨h.code, fun t imp ht => ?_, fun k t ht => ?_, fun t t' imp ht _ => ?_, h.guest,
    fun p imp hp => ?_, fun k m hl => ?_⟩
  · cases (hempty t).symm.trans ht
  · cases (h.noToken.2 k).symm.trans ht
  · cases (hempty t).symm.trans ht
  · exact absurd hp List.not_mem_nil
  · rw [h.noHandle, AList.lookup_empty] at hl
    cases hl

lemma Pointers.eq_iff {imp' : IMP} (h : Pointers env handed) (hp : Denotes env p imp)
    (hq : Denotes env q imp') : p = q ↔ imp = imp' := by
  constructor
  · rintro rfl
    exact Option.some.inj ((h.toImp hp).symm.trans (h.toImp hq))
  · rintro rfl
    cases imp with
    | guest a => exact hp.1.trans hq.1.symm
    | host n => exact h.single p q _ hp hq

lemma install_of_toImp (h : env.guestPtrToImp p = some imp) :
    env.install cls sel p = env.setImpAt cls sel imp := by
  rw [install, h]

lemma class_of_decode (h : Pointers env handed) (hm : env.methodHandleDecode m = some k) :
    env.impAt k.1 k.2 ≠ none :=
  (h.handle k m (h.decode_iff.mp hm)).2.2.2

lemma Pointers.set {k : Class × SEL} {out : VoidPtr × ClassEnv} (h : Pointers env handed)
    (hp : Denotes env p imp) (hm : env.methodHandleDecode m = some k)
    (hset : env.methodSetImplementation m p fresh = .ok out) (cls : Class) (sel : SEL) :
    out.2.impAt cls sel = if (cls, sel) = k then some imp else env.impAt cls sel := by
  rw [methodSetImplementation, hm] at hset
  have hclasses := classes_optImpToGuestPtr hset
  rw [impAt_congr hclasses, install_of_toImp (h.toImp hp), impAt_setImpAt]
  have hreal := class_of_impAt (class_of_decode h hm)
  by_cases hk : (cls, sel) = k
  · subst hk
    rw [if_pos ⟨rfl, rfl, hreal⟩, if_pos rfl]
  · rw [if_neg hk, if_neg fun hand => hk (Prod.ext hand.1 hand.2.1)]

lemma ne_nil_of_class (h : env.classHostObject cls ≠ none) : cls ≠ nil := by
  rintro rfl
  rw [classHostObject, if_pos rfl] at h
  exact h rfl

lemma Pointers.replace {types : VoidPtr} {out : VoidPtr × ClassEnv} (h : Pointers env handed)
    (hp : Denotes env p imp) (hsel : sel ≠ 0) (hreal : env.classHostObject cls ≠ none)
    (hset : env.classReplaceMethod cls sel p types fresh = .ok out) :
    out.2.impAt cls sel = some imp := by
  rw [classReplaceMethod, if_neg (not_or.mpr ⟨ne_nil_of_class hreal, hsel⟩),
    h.toImp hp] at hset
  dsimp only at hset
  have himp : (env.setImpAt cls sel imp).impAt cls sel = some imp := by
    rw [impAt_setImpAt, if_pos ⟨rfl, rfl, hreal⟩]
  split at hset
  · rw [impAt_congr (classes_optImpToGuestPtr hset), impAt_setSignatureAt, himp]
  · rw [impAt_congr (classes_optImpToGuestPtr hset), himp]

lemma Pointers.add {types : VoidPtr} (h : Pointers env handed) (hp : Denotes env p imp)
    (hsel : sel ≠ 0) (hreal : env.classHostObject cls ≠ none) (hfree : env.impAt cls sel = none)
    (hgiven : p = 0 ∨ env.code p = true) :
    (env.classAddMethod cls sel p types).2.impAt cls sel = some imp := by
  have hnil : p ≠ 0 := by
    rintro rfl
    cases h.toImp hp
  have hcode : env.code p = true := hgiven.resolve_left hnil
  obtain rfl : imp = .guest p := by
    cases imp with
    | guest a => rw [hp.1]
    | host n => cases (h.token p _ hp).1.symm.trans (h.code.2 p hcode)
  have himp : (env.setImpAt cls sel (.guest p)).impAt cls sel = some (.guest p) := by
    rw [impAt_setImpAt, if_pos ⟨rfl, rfl, hreal⟩]
  rw [classAddMethod, if_neg (not_or.mpr ⟨ne_nil_of_class hreal, hsel⟩), if_neg hnil,
    hfree, if_neg (by exact Bool.false_ne_true)]
  dsimp only
  split
  · rw [impAt_setSignatureAt, himp]
  · exact himp

lemma Pointers.noop {out : VoidPtr × ClassEnv} {fresh' : VoidPtr} (h : Pointers env handed)
    (huse : StableUse env (.getImplementation m fresh) = true)
    (hget : env.methodGetImplementation m fresh = .ok (p, env'))
    (hset : env'.methodSetImplementation m p fresh' = .ok out) (cls : Class) (sel : SEL) :
    out.2.impAt cls sel = env.impAt cls sel := by
  rw [methodGetImplementation] at hget
  cases hm : env.methodHandleDecode m with
  | none =>
    rw [hm] at hget
    obtain ⟨-, rfl⟩ := ok_pair_inj hget
    rw [methodSetImplementation, hm] at hset
    obtain rfl := Except.ok.inj hset
    rfl
  | some k =>
    rw [hm] at hget
    obtain ⟨imp, himp⟩ := Option.ne_none_iff_exists'.mp (class_of_decode h hm)
    have hread : env.readable k imp = true := by
      have hwell := (Bool.and_eq_true_iff.mp huse).1
      rw [readsWell, answers, answersAt, hm] at hwell
      simpa [himp] using hwell
    dsimp only at hget
    rw [himp] at hget
    obtain ⟨h', hsame, hdecode⟩ :=
      h.toPtr hread (fun a ha => h.guest k.1 k.2 a (ha ▸ himp)) hget
    rw [h'.set (h'.handed p imp List.mem_cons_self) ((hdecode m).trans hm) hset]
    split
    · rename_i hk
      subst hk
      exact himp.symm
    · exact hsame cls sel

lemma setOptImpAt_some {o : Option IMP} (h : o = some imp) :
    env.setOptImpAt cls sel o = env.setImpAt cls sel imp := by
  rw [h]
  rfl

lemma impAt_setImpAt_key {k' : Class × SEL} (hreal : env.classHostObject k'.1 ≠ none) :
    (env.setImpAt k'.1 k'.2 imp).impAt k.1 k.2 = if k = k' then some imp else env.impAt k.1 k.2 := by
  rw [impAt_setImpAt]
  by_cases hk : k = k'
  · subst hk
    rw [if_pos ⟨rfl, rfl, hreal⟩, if_pos rfl]
  · rw [if_neg hk, if_neg fun hand => hk (Prod.ext hand.1 hand.2.1)]

lemma signatureAt_setSignatureAt_key {k' : Class × SEL} {types : Option VoidPtr}
    (hreal : env.classHostObject k'.1 ≠ none) :
    (env.setSignatureAt k'.1 k'.2 types).signatureAt k.1 k.2 =
      if k = k' then types else env.signatureAt k.1 k.2 := by
  rw [signatureAt_setSignatureAt]
  by_cases hk : k = k'
  · subst hk
    rw [if_pos ⟨rfl, rfl, hreal⟩, if_pos rfl]
  · rw [if_neg hk, if_neg fun hand => hk (Prod.ext hand.1 hand.2.1)]

lemma crosswise {β : Type} (f : Class × SEL → β) :
    (if k = k2 then f k1 else if k = k1 then f k2 else f k) = f (Equiv.swap k1 k2 k) := by
  by_cases h2 : k = k2
  · rw [if_pos h2, h2, Equiv.swap_apply_right]
  · rw [if_neg h2]
    by_cases h1 : k = k1
    · rw [if_pos h1, h1, Equiv.swap_apply_left]
    · rw [if_neg h1, Equiv.swap_apply_of_ne_of_ne h1 h2]

lemma Pointers.swap (h : Pointers env handed) (h1 : env.methodHandleDecode m1 = some k1)
    (h2 : env.methodHandleDecode m2 = some k2) (k : Class × SEL) :
    let k' := Equiv.swap k1 k2 k
    (env.methodExchangeImplementations m1 m2).impAt k.1 k.2 = env.impAt k'.1 k'.2 ∧
      (env.methodExchangeImplementations m1 m2).signatureAt k.1 k.2 =
        env.signatureAt k'.1 k'.2 := by
  obtain ⟨imp1, himp1⟩ := Option.ne_none_iff_exists'.mp (class_of_decode h h1)
  obtain ⟨imp2, himp2⟩ := Option.ne_none_iff_exists'.mp (class_of_decode h h2)
  have hreal1 := class_of_impAt (class_of_decode h h1)
  have hreal2 := class_of_impAt (class_of_decode h h2)
  rw [methodExchangeImplementations, h1, h2]
  dsimp only
  rw [setOptImpAt_some himp2, setOptImpAt_some himp1]
  -- a class that is one stays one through the four writes
  have hset2 : (env.setImpAt k1.1 k1.2 imp2).classHostObject k2.1 ≠ none :=
    (classHostObject_modify_ne_none _).mpr hreal2
  have hreal : ∀ c, env.classHostObject c ≠ none →
      ((env.setImpAt k1.1 k1.2 imp2).setImpAt k2.1 k2.2 imp1).classHostObject c ≠ none := by
    intro c hc
    apply (classHostObject_modify_ne_none _).mpr
    exact (classHostObject_modify_ne_none _).mpr hc
  have hsig2 : (((env.setImpAt k1.1 k1.2 imp2).setImpAt k2.1 k2.2 imp1).setSignatureAt k1.1 k1.2
      (env.signatureAt k2.1 k2.2)).classHostObject k2.1 ≠ none :=
    (classHostObject_modify_ne_none _).mpr (hreal k2.1 hreal2)
  constructor
  · rw [impAt_setSignatureAt, impAt_setSignatureAt, impAt_setImpAt_key hset2,
      impAt_setImpAt_key hreal1, ← himp1, ← himp2]
    exact crosswise fun k => env.impAt k.1 k.2
  · rw [signatureAt_setSignatureAt_key hsig2, signatureAt_setSignatureAt_key (hreal k1.1 hreal1),
      signatureAt_setImpAt, signatureAt_setImpAt]
    exact crosswise fun k => env.signatureAt k.1 k.2

lemma sameHandles_exchange :
    ClassEnv.SameHandles env (env.methodExchangeImplementations m1 m2) := by
  rw [methodExchangeImplementations]
  split
  · apply ClassEnv.SameHandles.trans sameHandles_setOptImpAt
    apply ClassEnv.SameHandles.trans sameHandles_setOptImpAt
    apply ClassEnv.SameHandles.trans (sameHandles_modify _)
    exact sameHandles_modify _
  · exact .refl env

lemma exchange_of_none (h : env.methodHandleDecode m1 = none ∨ env.methodHandleDecode m2 = none) :
    env.methodExchangeImplementations m1 m2 = env := by
  rw [methodExchangeImplementations]
  split
  · rename_i h1 h2
    obtain h | h := h
    · cases h.symm.trans h1
    · cases h.symm.trans h2
  · rfl

lemma Pointers.twice (h : Pointers env handed) (m1 m2 : VoidPtr) (cls : Class) (sel : SEL) :
    let twice := (env.methodExchangeImplementations m1 m2).methodExchangeImplementations m1 m2
    twice.impAt cls sel = env.impAt cls sel ∧ twice.signatureAt cls sel = env.signatureAt cls sel := by
  cases h1 : env.methodHandleDecode m1 with
  | none =>
    dsimp only
    rw [exchange_of_none (.inl h1), exchange_of_none (.inl h1)]
    exact ⟨rfl, rfl⟩
  | some k1 =>
    cases h2 : env.methodHandleDecode m2 with
    | none =>
      dsimp only
      rw [exchange_of_none (.inr h2), exchange_of_none (.inr h2)]
      exact ⟨rfl, rfl⟩
    | some k2 =>
      have hs : ClassEnv.SameHandles env (env.methodExchangeImplementations m1 m2) :=
        sameHandles_exchange
      have hagain := (h.exchange m1 m2).swap ((hs.decode m1).trans h1) ((hs.decode m2).trans h2)
        (cls, sel)
      have honce := h.swap h1 h2 (Equiv.swap k1 k2 (cls, sel))
      dsimp only at hagain honce ⊢
      rw [Equiv.swap_apply_self] at honce
      exact ⟨hagain.1.trans honce.1, hagain.2.trans honce.2⟩

lemma Pointers.impStable {w : Handed} (h : Pointers w.env w.handed) : ImpStable w := by
  refine ⟨fun p imp hp => h.toImp (h.handed p imp hp), fun p imp q imp' hp hq => ?_, ?_, ?_, ?_, ?_,
    h.twice⟩
  · exact h.eq_iff (h.handed p imp hp) (h.handed q imp' hq)
  · intro p imp m k fresh out hp hm hset
    rw [h.set (h.handed p imp hp) hm hset, if_pos rfl]
  · intro p imp cls name types fresh out hp hname hreal hset
    exact h.replace (h.handed p imp hp) hname hreal hset
  · intro p imp cls name types hp hname hreal hfree huse
    have hgiven := (Bool.and_eq_true_iff.mp huse).2
    rw [givenWell, Bool.or_eq_true, decide_eq_true_eq] at hgiven
    exact h.add (h.handed p imp hp) hname hreal hfree hgiven
  · intro m fresh fresh' p env₁ out huse hget hset cls sel
    exact h.noop huse hget hset cls sel

/-- Over every run of the calls in which tokens are read and installed as they are meant to be. -/
theorem impStable_of_use (env : ClassEnv) (hreg : Registered env) (rs : List MethodRequest)
    (w : Handed) (huse : Along Handed.step (fun w r => StableUse w.env r = true) ⟨env, []⟩ rs)
    (hrun : run Handed.step ⟨env, []⟩ rs = .ok w) : ImpStable w := by
  have hkept : Pointers w.env w.handed :=
    run_preserves (I := fun w => Pointers w.env w.handed)
      (fun _ _ _ h huse hstep => by
        obtain ⟨out, hserve, rfl⟩ := map_eq_ok.mp hstep
        exact h.serve huse hserve) (pointers_start hreg) huse hrun
  exact hkept.impStable

def threeMethods : ClassEnv where
  hostObjects cls :=
    if cls = 100 then
      some (.class ⟨false, nil, fun sel =>
        if sel = 1 then some (.host 1)
        else if sel = 2 then some (.host 2)
        else if sel = 3 then some (.guest 500)
        else none, fun _ => none⟩)
    else none
  phantoms := fun _ => .default
  isa := fun _ => nil
  methodHandles := ∅
  handleWords := fun _ => (nil, 0)
  impTokens := ∅
  hostImpTokens := fun _ => none
  code a := a = 500
  heap := fun _ => false

lemma registered_threeMethods : Registered threeMethods := by
  refine ⟨rfl, ⟨rfl, fun _ => rfl⟩, ⟨rfl, fun _ _ => rfl⟩, fun cls sel a ha => ?_⟩
  rw [impAt, classHostObject] at ha
  by_cases hcls : cls = 100
  · subst hcls
    change (if sel = 1 then some (IMP.host 1) else if sel = 2 then some (.host 2)
      else if sel = 3 then some (.guest 500) else none) = _ at ha
    split_ifs at ha
    · cases ha
    · cases ha
    · obtain rfl := IMP.guest.inj (Option.some.inj ha)
      rfl
  · simp [threeMethods, hcls] at ha

theorem impStable_of_use_replaced : ∃ w, run Handed.step ⟨threeMethods, []⟩
      [.getInstanceMethod 2 100 1 200, .getImplementation 200 300, .getInstanceMethod 2 100 3 210,
        .setImplementation 210 300 310, .addMethod 100 4 500 0,
        .exchangeImplementations 200 210] = .ok w ∧ ImpStable w := by
  have hcheck : succeedsWith (fun _ => true) (run Handed.step ⟨threeMethods, []⟩
      [.getInstanceMethod 2 100 1 200, .getImplementation 200 300, .getInstanceMethod 2 100 3 210,
        .setImplementation 210 300 310, .addMethod 100 4 500 0,
        .exchangeImplementations 200 210]) = true := by
    decide
  obtain ⟨w, hrun, -⟩ := exists_of_succeedsWith hcheck
  exact ⟨w, hrun, impStable_of_use threeMethods registered_threeMethods _ w (by decide) hrun⟩

theorem not_impStable : ¬ ∀ (env : ClassEnv), Registered env → ∀ (rs : List MethodRequest)
    (w : Handed), run Handed.step ⟨env, []⟩ rs = .ok w →
      ∀ p imp, (p, imp) ∈ w.handed → w.env.guestPtrToImp p = some imp := by
  intro h
  have hcheck : succeedsWith (fun w => decide ((300, IMP.host 1) ∈ w.handed ∧
      w.env.guestPtrToImp 300 = some (.host 2))) (run Handed.step ⟨threeMethods, []⟩
        [.getInstanceMethod 2 100 1 200, .getImplementation 200 300,
          .getInstanceMethod 2 100 2 210, .exchangeImplementations 200 210,
          .getImplementation 200 310]) = true := by
    decide
  obtain ⟨w, hrun, hw⟩ := exists_of_succeedsWith hcheck
  obtain ⟨hmem, hother⟩ := of_decide_eq_true hw
  have hsame := h threeMethods registered_threeMethods _ w hrun 300 _ hmem
  cases hother.symm.trans hsame

end

end TouchHle.Objc
