import TouchHle.Objc.Classes

/-! What holds of `Method` handles, tokens and `IMP` pointers between the calls that read and
exchange implementations. -/

namespace TouchHle.Objc

open Lib List Option Function AList

namespace ClassEnv

def answers (env : ClassEnv) : MethodRequest → Option IMP
  | .getImplementation m _ | .setImplementation m _ _ =>
    (env.methodHandleDecode m).bind fun k => env.impAt k.1 k.2
  | .getMethodImplementation fuel cls name _ =>
    if cls = nil ∨ name = 0 then none
    else (env.findDefiningClass name fuel cls).bind fun defining => env.impAt defining name
  | .replaceMethod cls name _ _ _ => if cls = nil ∨ name = 0 then none else env.impAt cls name
  | _ => none

def answersAt (env : ClassEnv) : MethodRequest → Class × SEL
  | .getImplementation m _ | .setImplementation m _ _ =>
    (env.methodHandleDecode m).getD (nil, 0)
  | .getMethodImplementation fuel cls name _ =>
    ((env.findDefiningClass name fuel cls).getD nil, name)
  | .replaceMethod cls name _ _ _ => (cls, name)
  | _ => (nil, 0)

end ClassEnv

structure Handed where
  env : ClassEnv
  handed : List (VoidPtr × IMP)

namespace Handed

def record (env : ClassEnv) (r : MethodRequest) (p : VoidPtr) : List (VoidPtr × IMP) :=
  match env.answers r with
  | some imp => [(p, imp)]
  | none => []

def step (w : Handed) (r : MethodRequest) : Checked Handed :=
  (fun out => ⟨out.2, record w.env r out.1 ++ w.handed⟩) <$> w.env.serve r

end Handed

namespace ClassEnv

/-- A token is read for a host implementation: the class and selector have the token of that very
implementation, or have none while the implementation has none. -/
def readable (env : ClassEnv) (k : Class × SEL) : IMP → Bool
  | .guest _ => true
  | .host h =>
    match env.hostImpTokens k with
    | some token => env.impTokens.lookup token = some (.host h)
    | none => env.impTokens.entries.all fun e => e.2 ≠ .host h

def installable (env : ClassEnv) (imp : VoidPtr) : Bool :=
  imp = 0 || env.code imp || imp ∈ env.impTokens

def readsWell (env : ClassEnv) (r : MethodRequest) : Bool :=
  match env.answers r with
  | some imp => env.readable (env.answersAt r) imp
  | none => true

def givenWell (env : ClassEnv) : MethodRequest → Bool
  | .setImplementation _ imp _ | .replaceMethod _ _ imp _ _ => env.installable imp
  | .addMethod _ _ imp _ => imp = 0 || env.code imp
  | _ => true

end ClassEnv

/-- How the calls are to be used: no token is given to `class_addMethod`, and where a host
implementation is read it still has the token it was read with before. -/
def StableUse (env : ClassEnv) (r : MethodRequest) : Bool := env.readsWell r && env.givenWell r

/-- A class table as registration leaves it: no handle or token yet, nothing allocated that is code,
and guest implementations are code. -/
structure Registered (env : ClassEnv) : Prop where
  noHandle : env.methodHandles = ∅
  noToken : env.impTokens = ∅ ∧ ∀ k, env.hostImpTokens k = none
  code : env.code 0 = false ∧ ∀ a, env.code a = true → env.heap a = false
  guest : ∀ cls sel a, env.impAt cls sel = some (.guest a) → env.code a = true

namespace ClassEnv

variable {env env' : ClassEnv} {cls cls' : Class} {sel sel' : SEL} {imp : IMP} {p fresh : VoidPtr}

structure SameHandles (env env' : ClassEnv) : Prop where
  methodHandles : env'.methodHandles = env.methodHandles
  handleWords : env'.handleWords = env.handleWords
  impTokens : env'.impTokens = env.impTokens
  hostImpTokens : env'.hostImpTokens = env.hostImpTokens
  code : env'.code = env.code
  heap : env'.heap = env.heap

lemma SameHandles.refl (env : ClassEnv) : SameHandles env env := ⟨rfl, rfl, rfl, rfl, rfl, rfl⟩

lemma SameHandles.trans {env'' : ClassEnv} (h : SameHandles env env') (h' : SameHandles env' env'') :
    SameHandles env env'' :=
  ⟨h'.methodHandles.trans h.methodHandles, h'.handleWords.trans h.handleWords,
    h'.impTokens.trans h.impTokens, h'.hostImpTokens.trans h.hostImpTokens, h'.code.trans h.code,
    h'.heap.trans h.heap⟩

lemma sameHandles_modify (f : ClassHostObject → ClassHostObject) :
    SameHandles env (env.modify cls f) := by
  rw [modify]
  split <;> exact ⟨rfl, rfl, rfl, rfl, rfl, rfl⟩

lemma SameHandles.decode (h : SameHandles env env') (m : VoidPtr) :
    env'.methodHandleDecode m = env.methodHandleDecode m := by
  rw [methodHandleDecode, methodHandleDecode, h.methodHandles, h.handleWords]

lemma hostObjects_modify_of_ne (f : ClassHostObject → ClassHostObject) (h : cls' ≠ cls) :
    (env.modify cls f).hostObjects cls' = env.hostObjects cls' := by
  rw [modify]
  split
  · exact update_of_ne h _ _
  · rfl

lemma classHostObject_modify (f : ClassHostObject → ClassHostObject) :
    (env.modify cls f).classHostObject cls' =
      if cls' = cls then (env.classHostObject cls').map f else env.classHostObject cls' := by
  by_cases hcls : cls' = cls
  · subst hcls
    rw [if_pos rfl, classHostObject, classHostObject]
    by_cases hnil : cls' = nil
    · rw [if_pos hnil, if_pos hnil]
      rfl
    · rw [if_neg hnil, if_neg hnil, modify]
      cases hobj : env.hostObjects cls' with
      | none => simp [hobj]
      | some o => cases o <;> simp [hobj]
  · rw [if_neg hcls, classHostObject, classHostObject, hostObjects_modify_of_ne f hcls]

lemma impAt_setImpAt : (env.setImpAt cls sel imp).impAt cls' sel' =
    if cls' = cls ∧ sel' = sel ∧ env.classHostObject cls ≠ none then some imp
    else env.impAt cls' sel' := by
  rw [setImpAt, impAt, classHostObject_modify, impAt]
  by_cases hcls : cls' = cls
  · subst hcls
    rw [if_pos rfl]
    cases hc : env.classHostObject cls' with
    | none => simp
    | some c =>
      by_cases hsel : sel' = sel
      · subst hsel
        simp
      · simp [hsel]
  · rw [if_neg hcls, if_neg fun h => hcls h.1]

lemma impAt_setSignatureAt {types : Option VoidPtr} :
    (env.setSignatureAt cls sel types).impAt cls' sel' = env.impAt cls' sel' := by
  rw [setSignatureAt, impAt, classHostObject_modify, impAt]
  split
  · cases env.classHostObject cls' <;> rfl
  · rfl

lemma signatureAt_setImpAt :
    (env.setImpAt cls sel imp).signatureAt cls' sel' = env.signatureAt cls' sel' := by
  rw [setImpAt, signatureAt, classHostObject_modify, signatureAt]
  split
  · cases env.classHostObject cls' <;> rfl
  · rfl

lemma signatureAt_setSignatureAt {types : Option VoidPtr} :
    (env.setSignatureAt cls sel types).signatureAt cls' sel' =
      if cls' = cls ∧ sel' = sel ∧ env.classHostObject cls ≠ none then types
      else env.signatureAt cls' sel' := by
  rw [setSignatureAt, signatureAt, classHostObject_modify, signatureAt]
  by_cases hcls : cls' = cls
  · subst hcls
    rw [if_pos rfl]
    cases hc : env.classHostObject cls' with
    | none => simp
    | some c =>
      by_cases hsel : sel' = sel
      · subst hsel
        simp
      · simp [hsel]
  · rw [if_neg hcls, if_neg fun h => hcls h.1]

lemma classHostObject_modify_ne_none (f : ClassHostObject → ClassHostObject) :
    (env.modify cls f).classHostObject cls' ≠ none ↔ env.classHostObject cls' ≠ none := by
  rw [classHostObject_modify]
  split
  · cases env.classHostObject cls' <;> simp
  · rfl

lemma class_of_impAt (h : env.impAt cls sel ≠ none) : env.classHostObject cls ≠ none := by
  intro hnone
  rw [impAt, hnone] at h
  exact h rfl

lemma alloc_eq_ok (h : env.alloc fresh = .ok env') : (fresh ≠ 0 ∧ env.code fresh = false ∧
    env.heap fresh = false) ∧ env' = { env with heap := update env.heap fresh true } := by
  obtain ⟨_, hassert, h⟩ := bind_eq_ok.mp h
  exact ⟨assert_eq_ok.mp hassert, (Except.ok.inj h).symm⟩

end ClassEnv

def Denotes (env : ClassEnv) (p : VoidPtr) : IMP → Prop
  | .guest addr => p = addr ∧ env.code addr = true
  | .host h => env.impTokens.lookup p = some (.host h)

structure Pointers (env : ClassEnv) (handed : List (VoidPtr × IMP)) : Prop where
  code : env.code 0 = false ∧ ∀ a, env.code a = true → env.heap a = false
  token : ∀ t imp, env.impTokens.lookup t = some imp →
    env.heap t = true ∧ t ≠ 0 ∧ ∃ h, imp = .host h
  tokenOf : ∀ k t, env.hostImpTokens k = some t → t ∈ env.impTokens
  single : ∀ t t' imp, env.impTokens.lookup t = some imp → env.impTokens.lookup t' = some imp →
    t = t'
  guest : ∀ cls sel a, env.impAt cls sel = some (.guest a) → env.code a = true
  handed : ∀ p imp, (p, imp) ∈ handed → Denotes env p imp
  handle : ∀ k m, env.methodHandles.lookup k = some m →
    env.handleWords m = k ∧ m ≠ 0 ∧ env.heap m = true ∧ env.impAt k.1 k.2 ≠ none

section

variable {env env' : ClassEnv} {handed : List (VoidPtr × IMP)} {cls : Class} {sel : SEL} {imp : IMP}
  {p m fresh : VoidPtr} {k : Class × SEL}

lemma Pointers.toImp (h : Pointers env handed) (hd : Denotes env p imp) :
    env.guestPtrToImp p = some imp := by
  rw [ClassEnv.guestPtrToImp]
  cases imp with
  | guest a =>
    obtain ⟨rfl, hcode⟩ := hd
    have hp : p ≠ 0 := by
      rintro rfl
      rw [h.code.1] at hcode
      cases hcode
    have hnone : env.impTokens.lookup p = none := by
      cases hl : env.impTokens.lookup p with
      | none => rfl
      | some imp => cases (h.token p imp hl).1.symm.trans (h.code.2 p hcode)
    rw [if_neg hp, hnone]
  | host n =>
    rw [if_neg (h.token p _ hd).2.1, hd]

lemma Pointers.toImp_code (h : Pointers env handed) (hp : env.installable p = true)
    (himp : env.guestPtrToImp p = some imp) : ∀ a, imp = .guest a → env.code a = true := by
  rintro a rfl
  rw [ClassEnv.guestPtrToImp] at himp
  split at himp
  · cases himp
  · rename_i hnil
    cases hl : env.impTokens.lookup p with
    | some tokenImp =>
      rw [hl] at himp
      obtain rfl := some.inj himp
      obtain ⟨-, -, n, hn⟩ := h.token p _ hl
      cases hn
    | none =>
      rw [hl] at himp
      obtain rfl : p = a := IMP.guest.inj (some.inj himp)
      have hnot : p ∉ env.impTokens := lookup_eq_none.mp hl
      simpa [ClassEnv.installable, hnil, hnot] using hp

lemma decode_iff_of_words (h : ∀ k m, env.methodHandles.lookup k = some m →
    env.handleWords m = k ∧ m ≠ 0) :
    env.methodHandleDecode m = some k ↔ env.methodHandles.lookup k = some m := by
  rw [ClassEnv.methodHandleDecode]
  constructor
  · intro hd
    split at hd
    · cases hd
    · split at hd
      · rename_i hany
        obtain ⟨⟨k', m'⟩, hmem, hm⟩ := any_eq_true.mp hany
        obtain rfl : m' = m := of_decide_eq_true hm
        have hl := Table.mem_entries_iff.mp hmem
        rw [(h k' m' hl).1] at hd
        obtain rfl := some.inj hd
        exact hl
      · cases hd
  · intro hl
    obtain ⟨hwords, hnil⟩ := h k m hl
    have hany : env.methodHandles.entries.any (fun e => e.2 = m) = true :=
      any_eq_true.mpr ⟨⟨k, m⟩, Table.mem_entries_iff.mpr hl, decide_eq_true rfl⟩
    rw [if_neg hnil, if_pos hany, hwords]

lemma Pointers.decode_iff (h : Pointers env handed) :
    env.methodHandleDecode m = some k ↔ env.methodHandles.lookup k = some m := by
  apply decode_iff_of_words
  intro k m hl
  exact ⟨(h.handle k m hl).1, (h.handle k m hl).2.1⟩

lemma Pointers.classes (h : Pointers env handed) (hs : ClassEnv.SameHandles env env')
    (hguest : ∀ cls sel a, env'.impAt cls sel = some (.guest a) → env.code a = true)
    (hkeep : ∀ cls sel, env.impAt cls sel ≠ none → env'.impAt cls sel ≠ none) :
    Pointers env' handed := by
  refine ⟨?_, ?_, ?_, ?_, ?_, ?_, ?_⟩
  · rw [hs.code, hs.heap]
    exact h.code
  · rw [hs.impTokens, hs.heap]
    exact h.token
  · rw [hs.hostImpTokens, hs.impTokens]
    exact h.tokenOf
  · rw [hs.impTokens]
    exact h.single
  · rw [hs.code]
    exact hguest
  · intro p imp hp
    have hd := h.handed p imp hp
    cases imp with
    | guest a => exact ⟨hd.1, by rw [hs.code]; exact hd.2⟩
    | host n =>
      rw [Denotes, hs.impTokens]
      exact hd
  · intro k m hl
    rw [hs.methodHandles] at hl
    obtain ⟨hwords, hnil, hheap, himp⟩ := h.handle k m hl
    rw [hs.handleWords, hs.heap]
    exact ⟨hwords, hnil, hheap, hkeep k.1 k.2 himp⟩

lemma Pointers.setImpAt (h : Pointers env handed) (hcode : ∀ a, imp = .guest a → env.code a = true) :
    Pointers (env.setImpAt cls sel imp) handed := by
  have hs : ClassEnv.SameHandles env (env.setImpAt cls sel imp) := ClassEnv.sameHandles_modify _
  apply h.classes hs
  · intro cls' sel' a ha
    rw [ClassEnv.impAt_setImpAt] at ha
    split at ha
    · exact hcode a (some.inj ha)
    · exact h.guest cls' sel' a ha
  · intro cls' sel' hdef
    rw [ClassEnv.impAt_setImpAt]
    split
    · exact some_ne_none imp
    · exact hdef

lemma Pointers.setSignatureAt (h : Pointers env handed) (types : Option VoidPtr) :
    Pointers (env.setSignatureAt cls sel types) handed := by
  have hs : ClassEnv.SameHandles env (env.setSignatureAt cls sel types) :=
    ClassEnv.sameHandles_modify _
  apply h.classes hs
  · intro cls' sel' a ha
    rw [ClassEnv.impAt_setSignatureAt] at ha
    exact h.guest cls' sel' a ha
  · intro cls' sel' hdef
    rwa [ClassEnv.impAt_setSignatureAt]

lemma Pointers.alloc (h : Pointers env handed) (hstep : env.alloc fresh = .ok env') :
    Pointers env' handed ∧ fresh ≠ 0 ∧ env'.heap fresh = true ∧ env.heap fresh = false := by
  obtain ⟨⟨hnil, hcode, hheap⟩, rfl⟩ := ClassEnv.alloc_eq_ok hstep
  have hmono : ∀ a, env.heap a = true → update env.heap fresh true a = true := by
    intro a ha
    by_cases hne : a = fresh
    · rw [hne, update_self]
    · rwa [update_of_ne hne]
  refine ⟨⟨⟨h.code.1, fun a ha => ?_⟩, fun t imp hl => ?_, h.tokenOf, h.single, h.guest, h.handed,
    fun k m hl => ?_⟩, hnil, update_self _ _ _, hheap⟩
  · have hne : a ≠ fresh := by
      rintro rfl
      cases hcode.symm.trans ha
    dsimp only
    rw [update_of_ne hne]
    exact h.code.2 a ha
  · obtain ⟨hheap, hrest⟩ := h.token t imp hl
    exact ⟨hmono t hheap, hrest⟩
  · obtain ⟨hwords, hm, hheap, himp⟩ := h.handle k m hl
    exact ⟨hwords, hm, hmono m hheap, himp⟩

lemma not_mem_of_heap (h : Pointers env handed) (hheap : env.heap fresh = false) :
    env.impTokens.lookup fresh = none := by
  cases hl : env.impTokens.lookup fresh with
  | none => rfl
  | some imp => cases (h.token fresh imp hl).1.symm.trans hheap

lemma Denotes.insert {t : VoidPtr} {imp' : IMP}
    (hl : env.impTokens.lookup t = none ∨ env.impTokens.lookup t = some imp')
    (h : Denotes env p imp) :
    Denotes { env with impTokens := env.impTokens.insert t imp' } p imp := by
  cases imp with
  | guest a => exact h
  | host n =>
    by_cases hp : p = t
    · subst hp
      have h : env.impTokens.lookup p = some (.host n) := h
      rw [h] at hl
      obtain hl | hl := hl
      · cases hl
      · obtain rfl := some.inj hl
        exact lookup_insert env.impTokens
    · exact (lookup_insert_ne hp).trans h

lemma Pointers.toPtr (h : Pointers env handed) (hread : env.readable (cls, sel) imp = true)
    (hcode : ∀ a, imp = .guest a → env.code a = true)
    (hstep : env.impToGuestPtr cls sel imp fresh = .ok (p, env')) :
    Pointers env' ((p, imp) :: handed) ∧ (∀ cls' sel', env'.impAt cls' sel' = env.impAt cls' sel') ∧
      (∀ m, env'.methodHandleDecode m = env.methodHandleDecode m) := by
  cases imp with
  | guest a =>
    obtain ⟨rfl, rfl⟩ : a = p ∧ env = env' := by simpa [ClassEnv.impToGuestPtr] using hstep
    refine ⟨⟨h.code, h.token, h.tokenOf, h.single, h.guest, fun q imp' hq => ?_, h.handle⟩,
      fun _ _ => rfl, fun _ => rfl⟩
    obtain hq | hq := mem_cons.mp hq
    · obtain ⟨rfl, rfl⟩ := Prod.mk.inj hq
      exact ⟨rfl, hcode q rfl⟩
    · exact h.handed q imp' hq
  | host n =>
    rw [ClassEnv.impToGuestPtr] at hstep
    rw [ClassEnv.readable] at hread
    cases htok : env.hostImpTokens (cls, sel) with
    | some token =>
      rw [htok] at hstep hread
      obtain ⟨rfl, rfl⟩ := ok_pair_inj hstep
      have hl : env.impTokens.lookup token = some (.host n) := of_decide_eq_true hread
      have hlook : ∀ t, (env.impTokens.insert token (.host n)).lookup t = env.impTokens.lookup t := by
        intro t
        by_cases ht : t = token
        · rw [ht, lookup_insert, hl]
        · exact lookup_insert_ne ht
      refine ⟨⟨h.code, fun t imp ht => ?_, fun k t ht => ?_, fun t t' imp ht ht' => ?_, h.guest,
        fun q imp hq => ?_, h.handle⟩, fun _ _ => rfl, fun _ => rfl⟩
      · exact h.token t imp ((hlook t).symm.trans ht)
      · exact (mem_insert env.impTokens).mpr (.inr (h.tokenOf k t ht))
      · exact h.single t t' imp ((hlook t).symm.trans ht) ((hlook t').symm.trans ht')
      · obtain hq | hq := mem_cons.mp hq
        · obtain ⟨rfl, rfl⟩ := Prod.mk.inj hq
          exact lookup_insert env.impTokens
        · exact (h.handed q imp hq).insert (.inr hl)
    | none =>
      rw [htok] at hstep hread
      have hnew : ∀ t, env.impTokens.lookup t ≠ some (.host n) := by
        intro t ht
        exact of_decide_eq_true
          (all_eq_true.mp hread ⟨t, .host n⟩ (Table.mem_entries_iff.mpr ht)) rfl
      obtain ⟨env₁, halloc, hstep⟩ := bind_eq_ok.mp hstep
      obtain ⟨rfl, rfl⟩ := ok_pair_inj hstep
      obtain ⟨h₁, hnil, hheap₁, hheap⟩ := h.alloc halloc
      have hfree : env.impTokens.lookup fresh = none := not_mem_of_heap h hheap
      obtain ⟨-, rfl⟩ := ClassEnv.alloc_eq_ok halloc
      have hlook : ∀ t imp, (env.impTokens.insert fresh (.host n)).lookup t = some imp →
          t = fresh ∧ imp = .host n ∨ t ≠ fresh ∧ env.impTokens.lookup t = some imp := by
        intro t imp ht
        by_cases hne : t = fresh
        · rw [hne, lookup_insert] at ht
          exact .inl ⟨hne, (some.inj ht).symm⟩
        · rw [lookup_insert_ne hne] at ht
          exact .inr ⟨hne, ht⟩
      refine ⟨⟨h₁.code, fun t imp ht => ?_, fun k t ht => ?_, fun t t' imp ht ht' => ?_, h₁.guest,
        fun q imp hq => ?_, h₁.handle⟩, fun _ _ => rfl, fun _ => rfl⟩
      · obtain ⟨rfl, rfl⟩ | ⟨-, ht⟩ := hlook t imp ht
        · exact ⟨hheap₁, hnil, n, rfl⟩
        · exact h₁.token t imp ht
      · by_cases hk : k = (cls, sel)
        · subst hk
          dsimp only at ht
          rw [update_self] at ht
          obtain rfl := some.inj ht
          exact (mem_insert env.impTokens).mpr (.inl rfl)
        · dsimp only at ht
          rw [update_of_ne hk] at ht
          exact (mem_insert env.impTokens).mpr (.inr (h.tokenOf k t ht))
      · obtain ⟨rfl, rfl⟩ | ⟨-, hold⟩ := hlook t imp ht
        · obtain ⟨rfl, -⟩ | ⟨-, hold'⟩ := hlook t' _ ht'
          · rfl
          · exact (hnew t' hold').elim
        · obtain ⟨rfl, rfl⟩ | ⟨-, hold'⟩ := hlook t' imp ht'
          · exact (hnew t hold).elim
          · exact h.single t t' imp hold hold'
      · obtain hq | hq := mem_cons.mp hq
        · obtain ⟨rfl, rfl⟩ := Prod.mk.inj hq
          exact lookup_insert env.impTokens
        · exact (h₁.handed q imp hq).insert (.inl hfree)

lemma Pointers.toOptPtr {o : Option IMP} (h : Pointers env handed)
    (hread : ∀ imp, o = some imp → env.readable (cls, sel) imp = true)
    (hcode : ∀ a, o = some (.guest a) → env.code a = true)
    (hstep : env.optImpToGuestPtr cls sel o fresh = .ok (p, env')) :
    Pointers env' ((o.map fun imp => (p, imp)).toList ++ handed) := by
  cases o with
  | none =>
    obtain ⟨rfl, rfl⟩ := ok_pair_inj hstep
    exact h
  | some imp => exact (h.toPtr (hread imp rfl) (fun a ha => hcode a (congrArg some ha)) hstep).1

lemma classes_impToGuestPtr (hstep : env.impToGuestPtr cls sel imp fresh = .ok (p, env')) :
    env'.hostObjects = env.hostObjects := by
  cases imp with
  | guest a =>
    obtain ⟨-, rfl⟩ := ok_pair_inj hstep
    rfl
  | host n =>
    rw [ClassEnv.impToGuestPtr] at hstep
    split at hstep
    · obtain ⟨-, rfl⟩ := ok_pair_inj hstep
      rfl
    · obtain ⟨env₁, halloc, hstep⟩ := bind_eq_ok.mp hstep
      obtain ⟨-, rfl⟩ := ClassEnv.alloc_eq_ok halloc
      obtain ⟨-, rfl⟩ := ok_pair_inj hstep
      rfl

lemma classes_optImpToGuestPtr {o : Option IMP}
    (hstep : env.optImpToGuestPtr cls sel o fresh = .ok (p, env')) :
    env'.hostObjects = env.hostObjects := by
  cases o with
  | none =>
    obtain ⟨-, rfl⟩ := ok_pair_inj hstep
    rfl
  | some imp => exact classes_impToGuestPtr hstep

lemma impAt_congr (h : env'.hostObjects = env.hostObjects) (cls : Class) (sel : SEL) :
    env'.impAt cls sel = env.impAt cls sel := by
  rw [ClassEnv.impAt, ClassEnv.impAt, ClassEnv.classHostObject, ClassEnv.classHostObject, h]

lemma Pointers.methodHandleFor (h : Pointers env handed) (hdef : env.impAt cls sel ≠ none)
    (hstep : env.methodHandleFor cls sel fresh = .ok (p, env')) : Pointers env' handed := by
  rw [ClassEnv.methodHandleFor] at hstep
  cases hl : env.methodHandles.lookup (cls, sel) with
  | some existing =>
    rw [hl] at hstep
    obtain ⟨-, rfl⟩ := ok_pair_inj hstep
    exact h
  | none =>
    rw [hl] at hstep
    obtain ⟨env₁, halloc, hstep⟩ := bind_eq_ok.mp hstep
    obtain ⟨-, rfl⟩ := ok_pair_inj hstep
    obtain ⟨h₁, hnil, hheap₁, hheap⟩ := h.alloc halloc
    obtain ⟨-, rfl⟩ := ClassEnv.alloc_eq_ok halloc
    refine ⟨h₁.code, h₁.token, h₁.tokenOf, h₁.single, h₁.guest, h₁.handed, fun k m hk => ?_⟩
    by_cases hkey : k = (cls, sel)
    · subst hkey
      rw [lookup_insert] at hk
      obtain rfl := some.inj hk
      exact ⟨update_self _ _ _, hnil, hheap₁, hdef⟩
    · rw [lookup_insert_ne hkey] at hk
      obtain ⟨hwords, hm, hmheap, himp⟩ := h₁.handle k m hk
      have hne : m ≠ fresh := by
        rintro rfl
        cases (h.handle k m hk).2.2.1.symm.trans hheap
      exact ⟨(update_of_ne hne _ _).trans hwords, hm, hmheap, himp⟩

lemma impAt_of_findDefiningClass {fuel : ℕ} {defining : Class}
    (h : env.findDefiningClass sel fuel cls = some defining) (hnil : defining ≠ nil) :
    env.impAt defining sel ≠ none := by
  induction fuel generalizing cls with
  | zero => cases h
  | succ fuel ih =>
    rw [ClassEnv.findDefiningClass] at h
    split at h
    · exact absurd (some.inj h).symm hnil
    · split at h
      · rename_i hsome
        obtain rfl := some.inj h
        exact isSome_iff_ne_none.mp hsome
      · dsimp only at h
        split at h
        · exact absurd (some.inj h).symm hnil
        · exact ih h

lemma Pointers.install (h : Pointers env handed) (hp : env.installable p = true) :
    Pointers (env.install cls sel p) handed := by
  rw [ClassEnv.install]
  split
  · rename_i newImp himp
    exact h.setImpAt (h.toImp_code hp himp)
  · exact h

lemma sameHandles_install : ClassEnv.SameHandles env (env.install cls sel p) := by
  rw [ClassEnv.install]
  split
  · exact ClassEnv.sameHandles_modify _
  · exact .refl env

lemma readable_congr (hs : ClassEnv.SameHandles env env') :
    env'.readable k imp = env.readable k imp := by
  cases imp with
  | guest a => rfl
  | host n => rw [ClassEnv.readable, ClassEnv.readable, hs.hostImpTokens, hs.impTokens]

lemma Pointers.setOptImpAt {o : Option IMP} (h : Pointers env handed)
    (hcode : ∀ a, o = some (.guest a) → env.code a = true) :
    Pointers (env.setOptImpAt cls sel o) handed := by
  cases o with
  | none => exact h
  | some imp => exact h.setImpAt fun a ha => hcode a (congrArg some ha)

lemma sameHandles_setOptImpAt {o : Option IMP} :
    ClassEnv.SameHandles env (env.setOptImpAt cls sel o) := by
  cases o with
  | none => exact .refl env
  | some imp => exact ClassEnv.sameHandles_modify _

lemma Pointers.exchange (h : Pointers env handed) (m1 m2 : VoidPtr) :
    Pointers (env.methodExchangeImplementations m1 m2) handed := by
  rw [ClassEnv.methodExchangeImplementations]
  split
  · rename_i cls1 sel1 cls2 sel2 _ _
    have h1 : Pointers (env.setOptImpAt cls1 sel1 (env.impAt cls2 sel2)) handed :=
      h.setOptImpAt fun a => h.guest cls2 sel2 a
    have h2 : Pointers ((env.setOptImpAt cls1 sel1 (env.impAt cls2 sel2)).setOptImpAt cls2 sel2
        (env.impAt cls1 sel1)) handed := by
      apply h1.setOptImpAt
      intro a ha
      have hs : ClassEnv.SameHandles env (env.setOptImpAt cls1 sel1 (env.impAt cls2 sel2)) :=
        sameHandles_setOptImpAt
      rw [hs.code]
      exact h.guest cls1 sel1 a ha
    exact (h2.setSignatureAt _).setSignatureAt _
  · exact h

lemma Pointers.setSuperclass (h : Pointers env handed) (newSuper : Class) :
    Pointers (env.classSetSuperclass cls newSuper) handed := by
  rw [ClassEnv.classSetSuperclass]
  split
  · exact h
  · have himp : ∀ cls' sel', (env.modify cls fun c => { c with superclass := newSuper }).impAt
        cls' sel' = env.impAt cls' sel' := by
      intro cls' sel'
      rw [ClassEnv.impAt, ClassEnv.classHostObject_modify, ClassEnv.impAt]
      split
      · cases env.classHostObject cls' <;> rfl
      · rfl
    apply h.classes (ClassEnv.sameHandles_modify _)
    · intro cls' sel' a ha
      rw [himp] at ha
      exact h.guest cls' sel' a ha
    · intro cls' sel' hdef
      rwa [himp]

lemma record_eq {r : MethodRequest} {o : Option IMP} (h : env.answers r = o) :
    Handed.record env r p = (o.map fun imp => (p, imp)).toList := by
  rw [Handed.record, h]
  cases o <;> rfl

lemma Pointers.serve {r : MethodRequest} (h : Pointers env handed) (huse : StableUse env r = true)
    (hstep : env.serve r = .ok (p, env')) : Pointers env' (Handed.record env r p ++ handed) := by
  rw [StableUse, Bool.and_eq_true] at huse
  obtain ⟨hread, huse⟩ := huse
  have hread : ∀ imp, env.answers r = some imp → env.readable (env.answersAt r) imp = true := by
    intro imp himp
    rwa [ClassEnv.readsWell, himp] at hread
  cases r with
  | getInstanceMethod fuel cls name fresh =>
    change env.classGetInstanceMethod fuel cls name fresh = _ at hstep
    rw [ClassEnv.classGetInstanceMethod] at hstep
    split at hstep
    · obtain ⟨-, rfl⟩ := ok_pair_inj hstep
      exact h
    · obtain ⟨defining, hfind, hstep⟩ := bind_eq_ok.mp hstep
      rw [unwrap_eq_ok] at hfind
      split at hstep
      · obtain ⟨-, rfl⟩ := ok_pair_inj hstep
        exact h
      · rename_i hnil
        exact h.methodHandleFor (impAt_of_findDefiningClass hfind hnil) hstep
  | getImplementation m fresh =>
    change env.methodGetImplementation m fresh = _ at hstep
    rw [ClassEnv.methodGetImplementation] at hstep
    cases hm : env.methodHandleDecode m with
    | none =>
      rw [hm] at hstep
      obtain ⟨-, rfl⟩ := ok_pair_inj hstep
      rw [record_eq (by rw [ClassEnv.answers, hm])]
      exact h
    | some k =>
      rw [hm] at hstep
      have hans : env.answers (.getImplementation m fresh) = env.impAt k.1 k.2 := by
        rw [ClassEnv.answers, hm]
        rfl
      have hat : env.answersAt (.getImplementation m fresh) = k := by
        rw [ClassEnv.answersAt, hm]
        rfl
      rw [record_eq hans]
      rw [hans, hat] at hread
      exact h.toOptPtr hread (fun a ha => h.guest k.1 k.2 a ha) hstep
  | getMethodImplementation fuel cls name fresh =>
    change env.classGetMethodImplementation fuel cls name fresh = _ at hstep
    rw [ClassEnv.classGetMethodImplementation] at hstep
    by_cases hnull : cls = nil ∨ name = 0
    · rw [if_pos hnull] at hstep
      obtain ⟨-, rfl⟩ := ok_pair_inj hstep
      rw [record_eq (by rw [ClassEnv.answers, if_pos hnull])]
      exact h
    · rw [if_neg hnull] at hstep
      obtain ⟨defining, hfind, hstep⟩ := bind_eq_ok.mp hstep
      rw [unwrap_eq_ok] at hfind
      have hans : env.answers (.getMethodImplementation fuel cls name fresh) =
          env.impAt defining name := by
        rw [ClassEnv.answers, if_neg hnull, hfind]
        rfl
      have hat : env.answersAt (.getMethodImplementation fuel cls name fresh) =
          (defining, name) := by
        rw [ClassEnv.answersAt, hfind]
        rfl
      rw [record_eq hans]
      rw [hans, hat] at hread
      by_cases hnil : defining = nil
      · rw [if_pos hnil] at hstep
        obtain ⟨-, rfl⟩ := ok_pair_inj hstep
        have hnone : env.impAt defining name = none := by
          rw [ClassEnv.impAt, ClassEnv.classHostObject, if_pos hnil]
          rfl
        rw [hnone]
        exact h
      · rw [if_neg hnil] at hstep
        exact h.toOptPtr hread (fun a ha => h.guest defining name a ha) hstep
  | setImplementation m imp fresh =>
    change env.methodSetImplementation m imp fresh = _ at hstep
    rw [ClassEnv.methodSetImplementation] at hstep
    cases hm : env.methodHandleDecode m with
    | none =>
      rw [hm] at hstep
      obtain ⟨-, rfl⟩ := ok_pair_inj hstep
      rw [record_eq (by rw [ClassEnv.answers, hm])]
      exact h
    | some k =>
      rw [hm] at hstep
      have hans : env.answers (.setImplementation m imp fresh) = env.impAt k.1 k.2 := by
        rw [ClassEnv.answers, hm]
        rfl
      have hat : env.answersAt (.setImplementation m imp fresh) = k := by
        rw [ClassEnv.answersAt, hm]
        rfl
      rw [record_eq hans]
      rw [hans, hat] at hread
      have hs : ClassEnv.SameHandles env (env.install k.1 k.2 imp) := sameHandles_install
      apply (h.install huse).toOptPtr _ _ hstep
      · intro imp' himp
        rw [readable_congr hs]
        exact hread imp' himp
      · intro a ha
        rw [hs.code]
        exact h.guest k.1 k.2 a ha
  | replaceMethod cls name imp types fresh =>
    change env.classReplaceMethod cls name imp types fresh = _ at hstep
    rw [ClassEnv.classReplaceMethod] at hstep
    by_cases hnull : cls = nil ∨ name = 0
    · rw [if_pos hnull] at hstep
      obtain ⟨-, rfl⟩ := ok_pair_inj hstep
      rw [record_eq (by rw [ClassEnv.answers, if_pos hnull])]
      exact h
    · rw [if_neg hnull] at hstep
      have hans : env.answers (.replaceMethod cls name imp types fresh) = env.impAt cls name := by
        rw [ClassEnv.answers, if_neg hnull]
      rw [record_eq hans]
      rw [hans] at hread
      dsimp only at hstep
      cases himp : env.guestPtrToImp imp with
      | none =>
        rw [himp] at hstep
        exact h.toOptPtr hread (fun a ha => h.guest cls name a ha) hstep
      | some newImp =>
        rw [himp] at hstep
        have hset : Pointers (env.setImpAt cls name newImp) handed :=
          h.setImpAt (h.toImp_code huse himp)
        have hs : ClassEnv.SameHandles env (env.setImpAt cls name newImp) :=
          ClassEnv.sameHandles_modify _
        have hinstalled : ∀ env₁, Pointers env₁ handed → ClassEnv.SameHandles env env₁ →
            env₁.optImpToGuestPtr cls name (env.impAt cls name) fresh = .ok (p, env') →
            Pointers env' (((env.impAt cls name).map fun imp => (p, imp)).toList ++ handed) := by
          intro env₁ h₁ hs₁ hstep₁
          apply h₁.toOptPtr _ _ hstep₁
          · intro imp' himp
            rw [readable_congr hs₁]
            exact hread imp' himp
          · intro a ha
            rw [hs₁.code]
            exact h.guest cls name a ha
        dsimp only at hstep
        split at hstep
        · exact hinstalled _ (hset.setSignatureAt _)
            (hs.trans (ClassEnv.sameHandles_modify _)) hstep
        · exact hinstalled _ hset hs hstep
  | addMethod cls name imp types =>
    obtain ⟨-, rfl⟩ := ok_pair_inj hstep
    change Pointers (env.classAddMethod cls name imp types).2 handed
    rw [ClassEnv.classAddMethod]
    split
    · exact h
    · split
      · exact h
      · rename_i hnil
        split
        · exact h
        · have hcode : env.code imp = true := by simpa [ClassEnv.givenWell, hnil] using huse
          have hset : Pointers (env.setImpAt cls name (.guest imp)) handed := by
            apply h.setImpAt
            rintro a ha
            obtain rfl := IMP.guest.inj ha
            exact hcode
          dsimp only
          split
          · exact hset.setSignatureAt _
          · exact hset
  | exchangeImplementations m1 m2 =>
    obtain ⟨-, rfl⟩ := ok_pair_inj hstep
    exact h.exchange m1 m2
  | setSuperclass cls newSuper =>
    obtain ⟨-, rfl⟩ := ok_pair_inj hstep
    exact h.setSuperclass newSuper

end

end TouchHle.Objc
