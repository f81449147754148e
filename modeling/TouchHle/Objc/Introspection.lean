import TouchHle.Objc.Hierarchy

/-! Introspection and dispatch: the lookups of the runtime beside the walk of a message, over every
class table that linking and swizzling lead to. -/

namespace TouchHle.Objc

open Lib Option ClassEnv

def MethodFor (env : ClassEnv) (m : VoidPtr) (found : Option IMP) : Prop :=
  (m = 0 ↔ found = none) ∧
    ∀ fresh p env', env.methodGetImplementation m fresh = .ok (p, env') → Points env' p found

structure Introspects (env : ClassEnv) (cls : Class) (sel : SEL) : Prop where
  ends : ∃ n, ∀ fuel ≥ n,
    env.dispatch sel fuel cls ≠ none ∧ env.msgSend cls sel fuel ≠ none ∧
      env.classRespondsToSelector cls sel fuel ≠ none ∧ env.classGetClassMethod cls sel fuel ≠ none ∧
      ∀ fresh, fresh ≠ 0 → env.code fresh = false → env.heap fresh = false →
        (∃ out, env.classGetInstanceMethod fuel cls sel fresh = .ok out) ∧
          ∃ out, env.classGetMethodImplementation fuel cls sel fresh = .ok out
  responds : ∀ fuel fuel' found b, env.dispatch sel fuel cls = some found →
    env.classRespondsToSelector cls sel fuel' = some b → b = found.isSome
  implementation : ∀ fuel fuel' found fresh p env', env.dispatch sel fuel cls = some found →
    env.classGetMethodImplementation fuel' cls sel fresh = .ok (p, env') → Points env' p found
  instanceMethod : ∀ fuel fuel' found fresh m env', env.dispatch sel fuel cls = some found →
    env.classGetInstanceMethod fuel' cls sel fresh = .ok (m, env') → MethodFor env' m found
  classMethod : ∀ fuel fuel' found m, env.msgSend cls sel fuel = some found →
    env.classGetClassMethod cls sel fuel' = some m → MethodFor env m found

section

variable {env env' : ClassEnv} {cls d : Class} {sel : SEL} {imp : IMP} {p m fresh : VoidPtr}
  {fuel fuel' : ℕ} {found : Option IMP}

lemma methodFor_null : MethodFor env 0 none := by
  refine ⟨⟨fun _ => rfl, fun _ => rfl⟩, fun fresh p env' hstep => ?_⟩
  rw [methodGetImplementation, methodHandleDecode, if_pos rfl] at hstep
  obtain ⟨rfl, -⟩ := ok_pair_inj hstep
  rfl

lemma Defining.null (h : Hierarchy env) (hd : Defining env cls sel d) (hnull : cls = nil ∨ sel = 0) :
    d = nil := by
  obtain rfl | rfl := hnull
  · obtain ⟨n, hn⟩ := hd.ends
    have hfind := (hn (n + 1) (Nat.le_succ n)).1
    rw [findDefiningClass_nil] at hfind
    exact (some.inj hfind).symm
  · exact dispatch_zero h hd

lemma Defining.instanceMethod (h : Hierarchy env) (hd : Defining env cls sel d)
    (hstep : env.classGetInstanceMethod fuel cls sel fresh = .ok (m, env')) :
    MethodFor env' m (env.impAt d sel) := by
  rw [classGetInstanceMethod] at hstep
  split at hstep
  · rename_i hnull
    obtain ⟨rfl, rfl⟩ := ok_pair_inj hstep
    rw [hd.defines.mpr (hd.null h hnull)]
    exact methodFor_null
  · rename_i hnull
    obtain ⟨-, hsel⟩ := not_or.mp hnull
    obtain ⟨d', hfind, hstep⟩ := bind_eq_ok.mp hstep
    rw [unwrap_eq_ok] at hfind
    obtain rfl := hd.find fuel d' hfind
    split at hstep
    · rename_i hnil
      obtain ⟨rfl, rfl⟩ := ok_pair_inj hstep
      rw [hd.defines.mpr hnil]
      exact methodFor_null
    · rename_i hnil
      obtain ⟨h', hlookup, hsame⟩ := h.methodHandleFor hsel hstep
      refine ⟨⟨fun hm => absurd hm (h'.handle _ m hlookup).2.2.1,
        fun hnone => absurd (hd.defines.mp hnone) hnil⟩, fun fresh' p env₂ hget => ?_⟩
      rw [methodGetImplementation, h'.decode_iff.mpr hlookup] at hget
      dsimp only at hget
      rw [← impAt_congr hsame]
      exact h'.points (fun himp => h'.impAt_ne himp rfl) hget

lemma Defining.implementation (h : Hierarchy env) (hd : Defining env cls sel d)
    (hstep : env.classGetMethodImplementation fuel cls sel fresh = .ok (p, env')) :
    Points env' p (env.impAt d sel) := by
  rw [classGetMethodImplementation] at hstep
  split at hstep
  · rename_i hnull
    obtain ⟨rfl, rfl⟩ := ok_pair_inj hstep
    rw [hd.defines.mpr (hd.null h hnull)]
    rfl
  · obtain ⟨d', hfind, hstep⟩ := bind_eq_ok.mp hstep
    rw [unwrap_eq_ok] at hfind
    obtain rfl := hd.find fuel d' hfind
    split at hstep
    · rename_i hnil
      obtain ⟨rfl, rfl⟩ := ok_pair_inj hstep
      rw [hd.defines.mpr hnil]
      rfl
    · exact h.points (fun himp => h.impAt_ne himp rfl) hstep

lemma Defining.responds {b : Bool} (h : Hierarchy env) (hd : Defining env cls sel d)
    (hstep : env.classRespondsToSelector cls sel fuel = some b) : b = (env.impAt d sel).isSome := by
  have hsome : (env.impAt d sel).isSome = decide (d ≠ nil) := by
    rw [Bool.eq_iff_iff, decide_eq_true_eq, isSome_iff_ne_none]
    exact hd.defines.not
  rw [hsome]
  rw [classRespondsToSelector] at hstep
  split at hstep
  · rename_i hnull
    obtain rfl := some.inj hstep
    rw [hd.null h hnull]
    rfl
  · obtain ⟨d', hfind, rfl⟩ := map_eq_some_iff.mp hstep
    rw [hd.find fuel d' hfind]

lemma methodGetImplementation_class (h : Hierarchy env) (hreal : env.hostObjects d ≠ none)
    (fresh : VoidPtr) : env.methodGetImplementation d fresh = .ok (0, env) := by
  have hdecode : env.methodHandleDecode d = none := by
    cases hd : env.methodHandleDecode d with
    | none => rfl
    | some k => exact absurd (h.handle k d (h.decode_iff.mp hd)).2.2.2.2 hreal
  rw [methodGetImplementation, hdecode]
  rfl

lemma registered_of_impAt (h : env.impAt d sel ≠ none) : env.hostObjects d ≠ none := by
  intro hnone
  have hobj := class_of_impAt h
  rw [classHostObject, hnone] at hobj
  split at hobj <;> exact hobj rfl

lemma exists_of_alloc (hnil : fresh ≠ 0) (hcode : env.code fresh = false)
    (hheap : env.heap fresh = false) : ∃ env₁, env.alloc fresh = .ok env₁ := by
  refine ⟨{ env with heap := Function.update env.heap fresh true }, ?_⟩
  rw [alloc]
  apply bind_eq_ok.mpr
  exact ⟨(), assert_eq_ok.mpr ⟨hnil, hcode, hheap⟩, rfl⟩

lemma exists_methodHandleFor (hnil : fresh ≠ 0) (hcode : env.code fresh = false)
    (hheap : env.heap fresh = false) : ∃ out, env.methodHandleFor d sel fresh = .ok out := by
  rw [methodHandleFor]
  split
  · exact ⟨_, rfl⟩
  · obtain ⟨env₁, halloc⟩ := exists_of_alloc hnil hcode hheap
    exact ⟨_, bind_eq_ok.mpr ⟨env₁, halloc, rfl⟩⟩

lemma exists_optImpToGuestPtr {o : Option IMP} (hnil : fresh ≠ 0) (hcode : env.code fresh = false)
    (hheap : env.heap fresh = false) : ∃ out, env.optImpToGuestPtr d sel o fresh = .ok out := by
  cases o with
  | none => exact ⟨_, rfl⟩
  | some imp =>
    cases imp with
    | guest a => exact ⟨_, rfl⟩
    | host n =>
      rw [optImpToGuestPtr, impToGuestPtr]
      split
      · exact ⟨_, rfl⟩
      · obtain ⟨env₁, halloc⟩ := exists_of_alloc hnil hcode hheap
        exact ⟨_, bind_eq_ok.mpr ⟨env₁, halloc, rfl⟩⟩

lemma msgSend_ne_none {n : ℕ} (h : ∀ fuel ≥ n, env.dispatch sel fuel (env.isa cls) ≠ none)
    (hle : n ≤ fuel) : env.msgSend cls sel fuel ≠ none := by
  rw [msgSend]
  split
  · exact some_ne_none _
  · exact h fuel hle

lemma Hierarchy.ends (h : Hierarchy env) (cls : Class) (sel : SEL) : ∃ n, ∀ fuel ≥ n,
    env.dispatch sel fuel cls ≠ none ∧ env.msgSend cls sel fuel ≠ none ∧
      env.classRespondsToSelector cls sel fuel ≠ none ∧ env.classGetClassMethod cls sel fuel ≠ none ∧
      ∀ fresh, fresh ≠ 0 → env.code fresh = false → env.heap fresh = false →
        (∃ out, env.classGetInstanceMethod fuel cls sel fresh = .ok out) ∧
          ∃ out, env.classGetMethodImplementation fuel cls sel fresh = .ok out := by
  obtain ⟨d, hd⟩ := h.defining cls sel
  obtain ⟨d', hd'⟩ := h.defining (env.isa cls) sel
  obtain ⟨n, hn⟩ := hd.ends
  obtain ⟨n', hn'⟩ := hd'.ends
  refine ⟨max n n', fun fuel hle => ?_⟩
  obtain ⟨hfind, hdisp⟩ := hn fuel (le_of_max_le_left hle)
  have hclass := hn' fuel (le_of_max_le_right hle)
  refine ⟨?_, ?_, ?_, ?_, fun fresh hnil hcode hheap => ⟨?_, ?_⟩⟩
  · rw [hdisp]
    exact some_ne_none _
  · apply msgSend_ne_none (n := n') _ (le_of_max_le_right hle)
    intro fuel' hle'
    rw [(hn' fuel' hle').2]
    exact some_ne_none _
  · rw [classRespondsToSelector]
    split
    · exact some_ne_none _
    · rw [hfind]
      exact some_ne_none _
  · rw [classGetClassMethod]
    split
    · exact some_ne_none _
    · rw [hclass.1]
      exact some_ne_none _
  · rw [classGetInstanceMethod]
    split
    · exact ⟨_, rfl⟩
    · obtain ⟨out, hout⟩ : ∃ out, (if d = nil then pure (0, env)
          else env.methodHandleFor d sel fresh) = Except.ok out := by
        split
        · exact ⟨_, rfl⟩
        · exact exists_methodHandleFor hnil hcode hheap
      exact ⟨out, bind_eq_ok.mpr ⟨d, unwrap_eq_ok.mpr hfind, hout⟩⟩
  · rw [classGetMethodImplementation]
    split
    · exact ⟨_, rfl⟩
    · obtain ⟨out, hout⟩ : ∃ out, (if d = nil then pure (0, env)
          else env.optImpToGuestPtr d sel (env.impAt d sel) fresh) = Except.ok out := by
        split
        · exact ⟨_, rfl⟩
        · exact exists_optImpToGuestPtr hnil hcode hheap
      exact ⟨out, bind_eq_ok.mpr ⟨d, unwrap_eq_ok.mpr hfind, hout⟩⟩

lemma Inherits.defining {e : Class} (h : Hierarchy env) (hin : Inherits env cls e)
    (hdef : env.impAt e sel ≠ none) (hd : Defining env cls sel d) : d ≠ nil := by
  induction hin generalizing d with
  | refl cls =>
    rintro rfl
    obtain ⟨n, hn⟩ := hd.ends
    have hfind := (hn (n + 1) (Nat.le_succ n)).1
    have hnil : cls ≠ nil := by
      rintro rfl
      exact hdef impAt_nil
    rw [findDefiningClass, if_neg hnil, if_pos (isSome_iff_ne_none.mpr hdef)] at hfind
    exact hnil (some.inj hfind)
  | step hobj hin ih =>
    rename_i cls e c
    by_cases hown : env.impAt cls sel = none
    · obtain ⟨d', hd'⟩ := h.defining c.superclass sel
      -- the walk from the class goes on to its superclass
      obtain ⟨n, hn⟩ := hd'.ends
      have hnil : cls ≠ nil := by
        rintro rfl
        rw [classHostObject, if_pos rfl] at hobj
        cases hobj
      have hc : env.hostObjects cls = some (.class c) := by
        rw [classHostObject, if_neg hnil] at hobj
        split at hobj
        · rename_i c' hc'
          obtain rfl := some.inj hobj
          exact hc'
        · cases hobj
      have hmeth : c.methods sel = none := by
        rw [impAt, hobj] at hown
        exact hown
      have hdisp : env.dispatch sel (n + 1) cls = some (env.impAt d' sel) := by
        rw [dispatch, if_neg hnil, hc]
        dsimp only
        rw [hmeth]
        exact (hn n le_rfl).2
      have hsame := hd.dispatch (n + 1) _ hdisp
      intro hdnil
      exact ih hdef hd' (hd'.defines.mp (hsame.trans (hd.defines.mpr hdnil)))
    · rintro rfl
      obtain ⟨n, hn⟩ := hd.ends
      have hfind := (hn (n + 1) (Nat.le_succ n)).1
      have hnil : cls ≠ nil := by
        rintro rfl
        exact hown impAt_nil
      rw [findDefiningClass, if_neg hnil,
        if_pos (isSome_iff_ne_none.mpr hown)] at hfind
      exact hnil (some.inj hfind)

lemma Hierarchy.introspects_class_iff (h : Hierarchy env) (cls : Class) (sel : SEL) :
    Introspects env cls sel ↔
      cls = nil ∨ ∀ e, Inherits env (env.isa cls) e → env.impAt e sel = none := by
  obtain ⟨d, hd⟩ := h.defining cls sel
  obtain ⟨d', hd'⟩ := h.defining (env.isa cls) sel
  obtain ⟨n', hn'⟩ := hd'.ends
  constructor
  · intro hgood
    by_contra hno
    obtain ⟨hnil, hno⟩ := not_or.mp hno
    push Not at hno
    obtain ⟨e, hin, hdef⟩ := hno
    have hfound : d' ≠ nil := hin.defining h hdef hd'
    have himp : env.impAt d' sel ≠ none := hd'.defines.not.mpr hfound
    have hsend : env.msgSend cls sel n' = some (env.impAt d' sel) := by
      rw [msgSend, if_neg hnil]
      exact (hn' n' le_rfl).2
    have hmethod : env.classGetClassMethod cls sel n' = some d' := by
      rw [classGetClassMethod, if_neg hnil]
      exact (hn' n' le_rfl).1
    have hpoints := (hgood.classMethod n' n' _ d' hsend hmethod).2 0 0 env
      (methodGetImplementation_class h (registered_of_impAt himp) 0)
    obtain ⟨imp, hsome⟩ := ne_none_iff_exists'.mp himp
    rw [hsome] at hpoints
    cases imp with
    | guest a => exact hpoints.1 rfl
    | host n => exact hpoints.1 rfl
  · intro hnone
    refine ⟨h.ends cls sel, fun fuel fuel' found b hf hr => ?_,
      fun fuel fuel' found fresh p env' hf hi => ?_, fun fuel fuel' found fresh m env' hf hm => ?_,
      fun fuel fuel' found m hf hm => ?_⟩
    · rw [hd.dispatch fuel found hf]
      exact hd.responds h hr
    · rw [hd.dispatch fuel found hf]
      exact hd.implementation h hi
    · rw [hd.dispatch fuel found hf]
      exact hd.instanceMethod h hm
    · rw [msgSend] at hf
      rw [classGetClassMethod] at hm
      split at hm
      · rename_i hnil
        rw [if_pos hnil] at hf
        obtain rfl := some.inj hm
        obtain rfl := some.inj hf
        exact methodFor_null
      · rename_i hnil
        rw [if_neg hnil] at hf
        have hnone := hnone.resolve_left hnil
        have hdnil : d' = nil := by
          obtain hdnil | hin := hd'.inherits
          · exact hdnil
          · exact hd'.defines.mp (hnone d' hin)
        rw [hd'.dispatch fuel found hf, hd'.find fuel' m hm, hd'.defines.mpr hdnil, hdnil]
        exact methodFor_null

/-- For every class table that linking and swizzling lead to. -/
theorem introspects_iff (env : ClassEnv) (hload : Loaded env) (rs : List TableRequest)
    (env' : ClassEnv) (hrun : run ClassEnv.advance env rs = .ok env') (cls : Class) (sel : SEL) :
    Introspects env' cls sel ↔
      cls = nil ∨ ∀ e, Inherits env' (env'.isa cls) e → env'.impAt e sel = none := by
  have h : Hierarchy env' :=
    run_preserves (I := Hierarchy) (p := fun _ _ => True) (fun _ _ _ h _ hstep => h.advance hstep)
      (hierarchy_start hload) (along_of_forall fun _ _ => trivial) hrun
  exact h.introspects_class_iff cls sel

def rootTable : ClassEnv where
  hostObjects cls :=
    if cls = 100 then
      some (.class ⟨false, nil, fun sel => if sel = 1 then some (.host 1) else none, fun _ => none⟩)
    else if cls = 101 then
      some (.class ⟨true, 100, fun sel => if sel = 2 then some (.host 2) else none, fun _ => none⟩)
    else none
  phantoms := fun _ => .default
  isa cls := if cls = 100 ∨ cls = 101 then 101 else nil
  methodHandles := ∅
  handleWords := fun _ => (nil, 0)
  impTokens := ∅
  hostImpTokens := fun _ => none
  code := fun _ => false
  heap a := a = 100 || a = 101

lemma class_rootTable {c : ClassHostObject} (h : rootTable.hostObjects cls = some (.class c)) :
    cls = 100 ∧ c.superclass = nil ∧ (c.methods = fun sel => if sel = 1 then some (.host 1) else none) ∨
      cls = 101 ∧ c.superclass = 100 ∧
        c.methods = fun sel => if sel = 2 then some (.host 2) else none := by
  change (if cls = 100 then some (HostObject.class _) else if cls = 101 then some (.class _)
    else none) = _ at h
  split_ifs at h with hroot hmeta
  · obtain rfl := HostObject.class.inj (some.inj h)
    exact .inl ⟨hroot, rfl, rfl⟩
  · obtain rfl := HostObject.class.inj (some.inj h)
    exact .inr ⟨hmeta, rfl, rfl⟩

lemma loaded_rootTable : Loaded rootTable := by
  refine ⟨rfl, ⟨rfl, fun _ => rfl⟩, ⟨id, fun cls c hc hnil => ?_⟩, fun _ => rfl, fun cls hc => ?_,
    fun cls c hc hnil => ?_, fun cls c sel imp hc hmeth => ?_⟩
  · obtain ⟨-, hs, -⟩ | ⟨rfl, hs, -⟩ := class_rootTable hc
    · exact absurd hs hnil
    · rw [hs]
      decide
  · by_cases hused : cls = 100 ∨ cls = 101
    · obtain rfl | rfl := hused
      · exact .inr rfl
      · exact .inr rfl
    · obtain ⟨hroot, hmeta⟩ := not_or.mp hused
      exact absurd (by simp [rootTable, hroot, hmeta]) hc
  · obtain ⟨-, hs, -⟩ | ⟨-, hs, -⟩ := class_rootTable hc
    · exact absurd hs hnil
    · rw [hs]
      exact .inr rfl
  · obtain ⟨-, -, hm⟩ | ⟨-, -, hm⟩ := class_rootTable hc
    · rw [hm] at hmeth
      dsimp only at hmeth
      split_ifs at hmeth with hsel
      obtain rfl := some.inj hmeth
      exact ⟨by rw [hsel]; exact one_ne_zero, (by rintro ⟨⟩)⟩
    · rw [hm] at hmeth
      dsimp only at hmeth
      split_ifs at hmeth with hsel
      obtain rfl := some.inj hmeth
      exact ⟨by rw [hsel]; exact two_ne_zero, (by rintro ⟨⟩)⟩

theorem introspects_iff_linked : ∃ env', run ClassEnv.advance rootTable
      [.linkClass 101 (.template true 101 fun _ => none)
          (.template false 100 fun sel => if sel = 3 then some 3 else none) 103 102,
        .swizzle ⟨.getInstanceMethod 4 102 3 200, rfl⟩,
        .swizzle ⟨.setImplementation 200 300 400, rfl⟩] = .ok env' ∧
    (Introspects env' 102 3 ↔
      (102 : Class) = nil ∨ ∀ e, Inherits env' (env'.isa 102) e → env'.impAt e 3 = none) := by
  have hcheck : succeedsWith (fun _ => true) (run ClassEnv.advance rootTable
      [.linkClass 101 (.template true 101 fun _ => none)
          (.template false 100 fun sel => if sel = 3 then some 3 else none) 103 102,
        .swizzle ⟨.getInstanceMethod 4 102 3 200, rfl⟩,
        .swizzle ⟨.setImplementation 200 300 400, rfl⟩]) = true := by
    decide
  obtain ⟨env', hrun, -⟩ := exists_of_succeedsWith hcheck
  exact ⟨env', hrun, introspects_iff rootTable loaded_rootTable _ env' hrun 102 3⟩

theorem not_introspects : ¬ ∀ (env : ClassEnv), Loaded env → ∀ (rs : List TableRequest)
    (env' : ClassEnv), run ClassEnv.advance env rs = .ok env' →
      ∀ cls sel, Introspects env' cls sel := by
  intro h
  have hgood := h rootTable loaded_rootTable [] rootTable run_nil 100 2
  have hmethod : MethodFor rootTable 101 (some (.host 2)) := hgood.classMethod 2 2 _ _ rfl rfl
  have hpoints : Points rootTable 0 (some (.host 2)) := hmethod.2 0 0 rootTable rfl
  exact hpoints.1 rfl

end

end TouchHle.Objc
