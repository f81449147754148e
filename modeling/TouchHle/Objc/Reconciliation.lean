import TouchHle.Objc.Ivars

namespace TouchHle.Objc.Ivars

open Lib List Except Option Forest Function HostObject ClassHostObject

namespace ObjC

def listed (objc : ObjC) : List Class := objc.realClasses (objc.classes.map Prod.snd)

def startOf (objc : ObjC) (cls : Class) : ℕ :=
  match objc.objects cls with
  | some (.class c) => c.instanceStart
  | _ => 0

def sizeOf (objc : ObjC) (cls : Class) : ℕ :=
  match objc.objects cls with
  | some (.class c) => c.instanceSize
  | _ => 0

def endOf (objc : ObjC) (cls : Class) : Option ℕ :=
  Forest.fold objc.listed objc.superclassOf objc.sizeOf
    (fun cls e => objc.sizeOf cls + (e - objc.startOf cls)) objc.listed.length cls

def Chain (objc : ObjC) : Class → Class → Prop :=
  Relation.ReflTransGen fun c d => objc.superclassOf c = some d

def Inherits (objc : ObjC) : Class → Class → Prop :=
  Relation.TransGen fun c d => objc.superclassOf c = some d

end ObjC

structure Laid (mem : VoidPtr → ℕ) (ivars : List IvarT) (start size : ℕ) : Prop where
  start_le : start ≤ size
  start_le_offset : ∀ v ∈ ivars, v.offset ≠ nil → start ≤ mem v.offset
  le_size : ∀ v ∈ ivars, v.offset ≠ nil → mem v.offset + v.size ≤ size
  aligned : ∀ v ∈ ivars, v.offset ≠ nil → 2 ^ v.alignment ∣ mem v.offset

structure Registered where
  objc : ObjC
  declared : Class → List IvarT

namespace Registered

def boot : Registered := ⟨⟨fun _ => none, []⟩, fun _ => []⟩

def declare (declared : Class → List IvarT) (c : BinClass) : Class → List IvarT :=
  if c.addr = nil then declared
  else Function.update declared c.addr (if c.substituted then [] else c.ivars)

def load (w : Registered) (bin : Binary) : Checked Registered := do
  let objc ← w.objc.loadBinClasses bin
  let objc ← objc.linkClass ⟨bin.nsObject, "NSObject", some nil⟩
  return ⟨objc, bin.classes.foldl declare w.declared⟩

section Step

variable (iter : List (String × Class) → List (String × Class))

def step (w : Registered) (bin : Binary) : Checked Registered := do
  let objc ← w.objc.registerBinClasses iter bin
  return ⟨objc, bin.classes.foldl declare w.declared⟩

/-- The ivars that the guest reads through its offset variables, and those that the runtime looks
up, lie in the objects and apart from those of the superclasses. -/
structure Sound (mem : VoidPtr → ℕ) (w : Registered) : Prop where
  starts : ∀ cls c superclass, w.objc.objects cls = some (.class c) → c.superclass ≠ nil →
    w.objc.objects c.superclass = some (.class superclass) →
      superclass.instanceSize ≤ c.instanceStart
  inside : ∀ cls c anc, w.objc.objects cls = some (.class c) → w.objc.Chain cls anc →
    ∀ v ∈ w.declared anc, v.offset ≠ nil → mem v.offset + v.size ≤ c.instanceSize
  aligned : ∀ cls, ∀ v ∈ w.declared cls, v.offset ≠ nil → 2 ^ v.alignment ∣ mem v.offset
  apart : ∀ cls anc, w.objc.Inherits cls anc → ∀ v ∈ w.declared cls, ∀ u ∈ w.declared anc,
    v.offset ≠ nil → u.offset ≠ nil → mem u.offset + u.size ≤ mem v.offset
  lookups : ∀ name fuel cls o, w.objc.objectLookupIvar mem name fuel cls = some o →
    ∃ anc, w.objc.Chain cls anc ∧ ∃ v ∈ w.declared anc, v.name = name ∧ mem v.offset = o
  again : ∀ nsObject, w.objc.reconcileBinClassIvars iter nsObject = .ok w.objc

end Step

def Roomy (w : Registered) : Prop :=
  ∀ cls c superclass, w.objc.objects cls = some (.class c) → c.superclass ≠ nil →
    w.objc.objects c.superclass = some (.class superclass) →
      match w.objc.endOf c.superclass with
      | some e => e ≤ c.instanceStart ∨
        cls ∈ w.objc.listed ∧ ∀ v ∈ w.declared cls, v.offset = nil
      | none => superclass.instanceSize ≤ c.instanceStart

def roomFor (w : Registered) (cls : Class) : Bool :=
  match w.objc.objects cls with
  | some (.class c) =>
    match w.objc.objects c.superclass with
    | some (.class superclass) =>
      match w.objc.endOf c.superclass with
      | some e => e ≤ c.instanceStart ∨
        cls ∈ w.objc.listed ∧ ∀ v ∈ w.declared cls, v.offset = nil
      | none => superclass.instanceSize ≤ c.instanceStart
    | _ => true
  | _ => true

lemma roomy_of_check {w : Registered}
    (h : ∀ cls, (w.objc.objects cls).isSome → w.roomFor cls = true) : w.Roomy := by
  intro cls c superclass hc hnil hsup
  have hroom := h cls (by rw [hc]; rfl)
  simp only [roomFor, hc, hsup] at hroom
  split at hroom <;> exact of_decide_eq_true hroom

structure Use (mem : VoidPtr → ℕ) (w : Registered) (bin : Binary) : Prop where
  laid : ∀ c ∈ bin.classes, c.substituted = false →
    Laid mem c.ivars c.instanceStart c.instanceSize
  distinct : bin.classes.Pairwise fun c d => c.addr = nil ∨ c.addr ≠ d.addr
  fresh : ∀ objc, bin.links.foldlM ObjC.linkClass w.objc = .ok objc →
    ∀ c ∈ bin.classes, objc.objects c.addr = none
  roomy : ∀ w', w.load bin = .ok w' → w'.Roomy

structure Kept (mem : VoidPtr → ℕ) (w : Registered) : Prop where
  nodup : (w.objc.classes.map Prod.snd).Nodup
  registered : ∀ e ∈ w.objc.classes, (w.objc.objects e.2).isSome
  ivars : ∀ cls c, w.objc.objects cls = some (.class c) →
    c.ivars = addIvarsFromBin (w.declared cls)
  undeclared : ∀ cls, (∀ c, w.objc.objects cls ≠ some (.class c)) → w.declared cls = []
  laid : ∀ cls c, w.objc.objects cls = some (.class c) →
    Laid mem (w.declared cls) c.instanceStart c.instanceSize

variable {mem : VoidPtr → ℕ} {w w' : Registered} {objc objc' : ObjC} {cls : Class}
  {declared : Class → List IvarT}

lemma kept_boot (mem : VoidPtr → ℕ) : boot.Kept mem where
  nodup := nodup_nil
  registered _ h := by cases h
  ivars _ _ h := by cases h
  undeclared _ _ := rfl
  laid _ _ h := by cases h

lemma mem_insertEntry {β : Type} {map : List (String × β)} {name : String} {b : β}
    {e : String × β} (h : e ∈ insertEntry map name b) : e = (name, b) ∨ e ∈ map := by
  obtain h | h := mem_cons.mp h
  · exact .inl h
  · exact .inr (mem_filter.mp h).1

lemma exists_of_mem_addIvars {ivars : List IvarT} {name : String} {p : VoidPtr × ℕ}
    (h : (name, p) ∈ addIvarsFromBin ivars) :
    ∃ v ∈ ivars, v.name = name ∧ v.offset = p.1 ∧ v.alignment = p.2 := by
  have hfold : ∀ (l : List IvarT) (map : List (String × VoidPtr × ℕ)),
      (name, p) ∈ l.foldl (fun map v => insertEntry map v.name (v.offset, v.alignment)) map →
      (name, p) ∈ map ∨ ∃ v ∈ l, v.name = name ∧ v.offset = p.1 ∧ v.alignment = p.2 := by
    intro l
    induction l with
    | nil => exact fun _ h => .inl h
    | cons v l ih =>
      intro map h
      obtain h | ⟨u, hu, heq⟩ := ih _ h
      · obtain h | h := mem_insertEntry h
        · obtain ⟨rfl, rfl⟩ := Prod.mk.inj h
          exact .inr ⟨v, mem_cons_self, rfl, rfl, rfl⟩
        · exact .inl h
      · exact .inr ⟨u, mem_cons_of_mem v hu, heq⟩
  exact (hfold ivars [] h).resolve_left not_mem_nil

section Loading

lemma Kept.register (h : Kept mem ⟨objc, declared⟩) (name : String) (host : HostObject)
    (ivars : List IvarT) (hnil : cls ≠ nil) (hfresh : objc.objects cls = none)
    (hivars : ∀ c, host = .class c → c.ivars = addIvarsFromBin ivars ∧
      Laid mem ivars c.instanceStart c.instanceSize)
    (hnone : host = .placeholder → ivars = []) :
    Kept mem ⟨{ objc.registerStaticObject cls host with
      classes := insertEntry objc.classes name cls }, update declared cls ivars⟩ := by
  have hobjects : (objc.registerStaticObject cls host).objects =
      update objc.objects cls (some host) := by
    rw [ObjC.registerStaticObject, if_neg hnil]
  refine ⟨?_, ?_, ?_, ?_, ?_⟩
  · rw [insertEntry, map_cons, nodup_cons]
    refine ⟨fun hmem => ?_, h.nodup.sublist (filter_sublist.map _)⟩
    obtain ⟨e, he, heq⟩ := mem_map.mp hmem
    have hsome := h.registered e (mem_filter.mp he).1
    rw [heq, hfresh] at hsome
    cases hsome
  · intro e he
    simp only [hobjects, update_apply]
    split_ifs with hcls
    · rfl
    · obtain rfl | he := mem_insertEntry he
      · exact absurd rfl hcls
      · exact h.registered e he
  · intro cls' c hc
    simp only [hobjects, update_apply] at hc ⊢
    split_ifs at hc ⊢ with hcls
    · exact (hivars c (some.inj hc)).1
    · exact h.ivars cls' c hc
  · intro cls' hc
    simp only [hobjects, update_apply] at hc ⊢
    split_ifs at hc ⊢ with hcls
    · cases host with
      | «class» c => exact absurd rfl (hc c)
      | placeholder => exact hnone rfl
    · exact h.undeclared cls' hc
  · intro cls' c hc
    simp only [hobjects, update_apply] at hc ⊢
    split_ifs at hc ⊢ with hcls
    · exact (hivars c (some.inj hc)).2
    · exact h.laid cls' c hc

lemma Kept.linkClass (h : Kept mem ⟨objc, declared⟩) {c : HostClass}
    (hlink : objc.linkClass c = .ok objc') : Kept mem ⟨objc', declared⟩ := by
  rw [ObjC.linkClass] at hlink
  split_ifs at hlink
  · obtain rfl := ok.inj hlink
    exact h
  · obtain ⟨_, hassert, hlink⟩ := bind_eq_ok.mp hlink
    obtain ⟨hnil, hfresh⟩ := assert_eq_ok.mp hassert
    have hfresh := isNone_iff_eq_none.mp hfresh
    obtain rfl := ok.inj hlink
    have hsame : update declared c.addr [] = declared := by
      have hnone : declared c.addr = [] := h.undeclared c.addr (by simp [hfresh])
      rw [← hnone, update_eq_self]
    have hkept := h.register c.name c.fromTemplate [] hnil hfresh
      (fun host hhost => ?_) fun _ => rfl
    · rw [hsame] at hkept
      exact hkept
    · rw [HostClass.fromTemplate] at hhost
      split at hhost
      · obtain rfl := class.inj hhost
        exact ⟨rfl, le_rfl, by simp, by simp, by simp⟩
      · cases hhost

lemma Kept.registerBinClass (h : Kept mem ⟨objc, declared⟩) {c : BinClass}
    (hlaid : c.substituted = false → Laid mem c.ivars c.instanceStart c.instanceSize)
    (hfresh : objc.objects c.addr = none) :
    Kept mem ⟨objc.registerBinClass c, declare declared c⟩ := by
  rw [ObjC.registerBinClass, declare]
  split_ifs with hnil hsub
  · exact h
  · exact h.register c.name c.fromBin [] hnil hfresh
      (fun host hhost => by simp [BinClass.fromBin, hsub] at hhost) fun _ => rfl
  · refine h.register c.name c.fromBin c.ivars hnil hfresh (fun host hhost => ?_) fun hhost => ?_
    · rw [BinClass.fromBin, if_neg hsub] at hhost
      obtain rfl := class.inj hhost
      exact ⟨rfl, hlaid (Bool.eq_false_of_not_eq_true hsub)⟩
    · rw [BinClass.fromBin, if_neg hsub] at hhost
      cases hhost

lemma objects_registerBinClass {c : BinClass} (hcls : c.addr = nil ∨ c.addr ≠ cls) :
    (objc.registerBinClass c).objects cls = objc.objects cls := by
  rw [ObjC.registerBinClass]
  split_ifs with hnil
  · rfl
  · rw [ObjC.registerStaticObject, if_neg hnil]
    exact update_of_ne (hcls.resolve_left hnil).symm _ _

lemma Kept.registerBinClasses {classes : List BinClass} (h : Kept mem ⟨objc, declared⟩)
    (hlaid : ∀ c ∈ classes, c.substituted = false →
      Laid mem c.ivars c.instanceStart c.instanceSize)
    (hdistinct : classes.Pairwise fun c d => c.addr = nil ∨ c.addr ≠ d.addr)
    (hfresh : ∀ c ∈ classes, objc.objects c.addr = none) :
    Kept mem ⟨classes.foldl ObjC.registerBinClass objc, classes.foldl declare declared⟩ := by
  induction classes generalizing objc declared with
  | nil => exact h
  | cons c classes ih =>
    obtain ⟨hc, hdistinct⟩ := pairwise_cons.mp hdistinct
    apply ih (h.registerBinClass (hlaid c mem_cons_self) (hfresh c mem_cons_self))
      (fun d hd => hlaid d (mem_cons_of_mem c hd)) hdistinct
    intro d hd
    rw [objects_registerBinClass (hc d hd)]
    exact hfresh d (mem_cons_of_mem c hd)

lemma Kept.load (h : w.Kept mem) {bin : Binary} (huse : w.Use mem bin) (hload : w.load bin = .ok w') :
    w'.Kept mem := by
  obtain ⟨objc, hbin, hload⟩ := bind_eq_ok.mp hload
  obtain ⟨objc', hlink, hload⟩ := bind_eq_ok.mp hload
  obtain rfl := ok.inj hload
  obtain ⟨linked, hlinks, hbin⟩ := bind_eq_ok.mp hbin
  obtain rfl := ok.inj hbin
  have hlinked : Kept mem ⟨linked, w.declared⟩ :=
    foldlM_preserves (I := fun objc => Kept mem ⟨objc, w.declared⟩)
      (fun _ _ _ hk hlink => hk.linkClass hlink) h hlinks
  exact (hlinked.registerBinClasses huse.laid huse.distinct (huse.fresh linked hlinks)).linkClass hlink

end Loading

section Reconciling

def shifted (objc : ObjC) (cls : Class) : Option HostObject :=
  match objc.objects cls, objc.endOf cls with
  | some (.class c), some e => some (.class
      { c with instanceStart := c.instanceStart + (e - c.instanceSize), instanceSize := e })
  | host, _ => host

lemma shifted_of_none (he : objc.endOf cls = none) : shifted objc cls = objc.objects cls := by
  rw [shifted, he]
  split
  · next h => cases h
  · rfl

lemma grow_of_null {c : ClassHostObject} {diff : ℕ} {c' : ClassHostObject}
    (hnull : ∀ v ∈ c.ivars, v.2.1 = nil) (hgrow : c.grow diff = .ok c') :
    c' = { c with
      instanceStart := c.instanceStart + diff, instanceSize := c.instanceSize + diff } := by
  have hmax : c.maxAlignment = 1 := by
    have hfold : ∀ l : List (String × VoidPtr × ℕ), (∀ v ∈ l, v.2.1 = nil) →
        l.foldl (fun alignment v => if v.2.1 ≠ nil then max alignment v.2.2 else alignment) 1 =
          1 := by
      intro l hl
      induction l with
      | nil => rfl
      | cons v l ih =>
        rw [foldl_cons, if_neg (not_not.mpr (hl v mem_cons_self))]
        exact ih fun u hu => hl u (mem_cons_of_mem v hu)
    exact hfold c.ivars hnull
  have hmove : ∀ d, ∀ l : List (String × VoidPtr × ℕ), (∀ v ∈ l, v.2.1 = nil) →
      l.mapM (moveIvar d) = .ok l := by
    intro d l hl
    induction l with
    | nil => rfl
    | cons v l ih =>
      rw [mapM_cons, moveIvar,
        if_neg (not_not.mpr (hl v mem_cons_self)), pure_eq_ok, ok_bind,
        ih fun u hu => hl u (mem_cons_of_mem v hu)]
      rfl
  obtain ⟨d, hrounded, hgrow⟩ := bind_eq_ok.mp hgrow
  obtain ⟨ivars, hivars, hgrow⟩ := bind_eq_ok.mp hgrow
  obtain ⟨start, hstart, hgrow⟩ := bind_eq_ok.mp hgrow
  obtain ⟨size, hsize, hgrow⟩ := bind_eq_ok.mp hgrow
  obtain rfl := ok.inj hgrow
  obtain rfl := ok.inj ((hmove d c.ivars hnull).symm.trans hivars)
  have hd : d = diff := by
    rw [roundedDiff, hmax] at hrounded
    split_ifs at hrounded
    · exact (ok.inj hrounded).symm
    · obtain ⟨sum, hsum, hround⟩ := bind_eq_ok.mp hrounded
      obtain ⟨-, hsum⟩ := addU32_eq_ok.mp hsum
      obtain rfl := ok.inj hround
      rw [hsum]
      simp [andNot]
  obtain ⟨-, rfl⟩ := addU32_eq_ok.mp hstart
  obtain ⟨-, rfl⟩ := addU32_eq_ok.mp hsize
  rw [hd]

variable {iter : List (String × Class) → List (String × Class)} {V Q : List Class}

def real (objc : ObjC) (iter : List (String × Class) → List (String × Class)) : List Class :=
  objc.realClasses ((iter objc.classes).map Prod.snd)

lemma mem_realClasses {order : List Class} : cls ∈ objc.realClasses order ↔
    cls ∈ order ∧ ∃ c, objc.objects cls = some (.class c) := by
  rw [ObjC.realClasses, mem_filter]
  refine and_congr_right fun _ => ?_
  split
  · next c hc => simp [hc]
  · next hnot =>
    refine iff_of_false (by simp) ?_
    rintro ⟨c, hc⟩
    exact hnot c hc

lemma real_perm (hiter : ∀ l, (iter l).Perm l) : (real objc iter).Perm objc.listed :=
  ((hiter objc.classes).map Prod.snd).filter _

lemma endOf_eq (hiter : ∀ l, (iter l).Perm l) (cls : Class) : objc.endOf cls =
    fold (real objc iter) objc.superclassOf objc.sizeOf
      (fun cls e => objc.sizeOf cls + (e - objc.startOf cls)) (real objc iter).length cls := by
  rw [ObjC.endOf, (real_perm hiter).length_eq]
  exact fold_congr (fun c => (real_perm hiter).mem_iff.symm) _ _

lemma superclassOf_class {c : ClassHostObject} (hc : objc.objects cls = some (.class c)) :
    objc.superclassOf cls = if c.superclass = nil then none else some c.superclass := by
  simp only [ObjC.superclassOf, hc]

lemma startOf_class {c : ClassHostObject} (hc : objc.objects cls = some (.class c)) :
    objc.startOf cls = c.instanceStart := by simp only [ObjC.startOf, hc]

lemma sizeOf_class {c : ClassHostObject} (hc : objc.objects cls = some (.class c)) :
    objc.sizeOf cls = c.instanceSize := by simp only [ObjC.sizeOf, hc]

lemma shifted_class {c : ClassHostObject} {e : ℕ} (hc : objc.objects cls = some (.class c))
    (he : objc.endOf cls = some e) : shifted objc cls = some (.class
      { c with instanceStart := c.instanceStart + (e - c.instanceSize), instanceSize := e }) := by
  simp only [shifted, hc, he]

lemma shifted_same {c : ClassHostObject} (hc : objc.objects cls = some (.class c))
    (he : objc.endOf cls = some c.instanceSize) : shifted objc cls = some (.class c) := by
  rw [shifted_class hc he, Nat.sub_self]
  rfl

lemma endOf_root (hc : cls ∈ objc.listed) (hroot : objc.superclassOf cls = none) :
    objc.endOf cls = some (objc.sizeOf cls) := by
  have hlen : objc.listed.length = objc.listed.length - 1 + 1 :=
    (Nat.succ_pred_eq_of_pos (length_pos_of_mem hc)).symm
  rw [ObjC.endOf, hlen]
  exact fold_root hc hroot

lemma endOf_parent {p : Class} {e : ℕ} (he : objc.endOf cls = some e)
    (hp : objc.superclassOf cls = some p) :
    ∃ e', objc.endOf p = some e' ∧ e = objc.sizeOf cls + (e' - objc.startOf cls) :=
  fold_parent he hp

def Progress (objc₀ : ObjC) (V : List Class) (objc : ObjC) : Prop :=
  objc.classes = objc₀.classes ∧
    ∀ cls, objc.objects cls = if cls ∈ V then shifted objc₀ cls else objc₀.objects cls

lemma Progress.same (h : Progress objc V objc') (hsame : shifted objc cls = objc.objects cls) :
    Progress objc (V ++ [cls]) objc' := by
  refine ⟨h.1, fun cls' => ?_⟩
  rw [h.2 cls']
  by_cases hV : cls' ∈ V
  · rw [if_pos hV, if_pos (mem_append_left _ hV)]
  · rw [if_neg hV]
    split_ifs with hmem
    · obtain rfl := mem_singleton.mp ((mem_append.mp hmem).resolve_left hV)
      exact hsame.symm
    · rfl

lemma Kept.visit (h : w.Kept mem) (hroom : w.Roomy) (hiter : ∀ l, (iter l).Perm l)
    (hF : Forest.Frontier (real w.objc iter) w.objc.superclassOf V (cls :: Q))
    (hI : Progress w.objc V objc) (hvisit : objc.reconcileClass cls = .ok objc') :
    Progress w.objc (V ++ [cls]) objc' := by
  have hmem : cls ∈ real w.objc iter := hF.within cls (mem_append_right V mem_cons_self)
  have hlisted : cls ∈ w.objc.listed := (real_perm hiter).mem_iff.mp hmem
  obtain ⟨-, c, hc⟩ := mem_realClasses.mp hmem
  have hnew : cls ∉ V := fun hV =>
    (nodup_middle.mp hF.nodup).notMem (mem_append_left Q hV)
  have hcurrent : objc.objects cls = some (.class c) := by rw [hI.2, if_neg hnew, hc]
  obtain ⟨e, he⟩ : ∃ e, w.objc.endOf cls = some e := by
    obtain ⟨e, he⟩ := hF.exists_fold w.objc.sizeOf
      fun cls e => w.objc.sizeOf cls + (e - w.objc.startOf cls)
    exact ⟨e, (endOf_eq hiter cls).trans he⟩
  have hparent := superclassOf_class hc
  obtain ⟨⟨need, diff⟩, hneed, hvisit⟩ := bind_eq_ok.mp hvisit
  simp only [ObjC.needIvarReconciliation, hcurrent, unwrap_some, ok_bind] at hneed
  split_ifs at hneed hparent with hnil
  · obtain ⟨rfl, rfl⟩ := ok_pair_inj hneed
    obtain rfl := ok.inj hvisit
    apply hI.same
    have hend := endOf_root hlisted hparent
    rw [sizeOf_class hc] at hend
    rw [shifted_same hc hend, hc]
  · have hsuper : c.superclass ∈ V :=
      hF.parents cls (mem_append_right V mem_cons_self) _ hparent
    obtain ⟨-, sup, hsup⟩ := mem_realClasses.mp
      (hF.within c.superclass (mem_append_left _ hsuper))
    obtain ⟨e', he', rfl⟩ := endOf_parent he hparent
    have hgrown : objc.objects c.superclass = some (.class
        { sup with
          instanceStart := sup.instanceStart + (e' - sup.instanceSize), instanceSize := e' }) := by
      rw [hI.2, if_pos hsuper, shifted_class hsup he']
    rw [sizeOf_class hc, startOf_class hc] at he
    simp only [hgrown, unwrap_some, ok_bind] at hneed
    split_ifs at hneed with hlt
    · obtain ⟨rfl, rfl⟩ := ok_pair_inj hneed
      simp only [if_true, hcurrent, unwrap_some, ok_bind] at hvisit
      obtain ⟨c', hgrow, hvisit⟩ := bind_eq_ok.mp hvisit
      obtain rfl := ok.inj hvisit
      -- Only a class without offset variables is moved.
      have hnull : ∀ v ∈ c.ivars, v.2.1 = nil := by
        have hr := hroom cls c sup hc hnil hsup
        rw [he'] at hr
        obtain hle | ⟨-, hdeclared⟩ := hr
        · exact absurd hlt (not_lt.mpr hle)
        · intro v hv
          rw [h.ivars cls c hc] at hv
          obtain ⟨u, hu, -, hoffset, -⟩ := exists_of_mem_addIvars (show (v.1, v.2) ∈ _ from hv)
          rw [← hoffset]
          exact hdeclared u hu
      obtain rfl := grow_of_null hnull hgrow
      refine ⟨hI.1, fun cls' => ?_⟩
      simp only [update_apply]
      split_ifs with hcls hV hV
      · rw [hcls, shifted_class hc he, Nat.add_sub_cancel_left]
      · exact absurd (mem_append_right V (mem_singleton.mpr hcls)) hV
      · have hV' : cls' ∈ V :=
          (mem_append.mp hV).resolve_right fun hmem => hcls (mem_singleton.mp hmem)
        rw [hI.2, if_pos hV']
      · have hV' : cls' ∉ V := fun hmem => hV (mem_append_left _ hmem)
        rw [hI.2, if_neg hV']
    · obtain ⟨rfl, rfl⟩ := ok_pair_inj hneed
      obtain rfl := ok.inj hvisit
      apply hI.same
      rw [Nat.sub_eq_zero_of_le (not_lt.mp hlt), add_zero] at he
      rw [shifted_same hc he, hc]

lemma Kept.reconcileGraph_eq (h : w.Kept mem) (hiter : ∀ l, (iter l).Perm l) :
    w.objc.reconcileGraph iter =
      traverse ObjC.reconcileClass
        (children (real w.objc iter) w.objc.superclassOf) (real w.objc iter).length w.objc
        (roots (real w.objc iter) w.objc.superclassOf) ∧ (real w.objc iter).Nodup := by
  have hnodup : (real w.objc iter).Nodup :=
    ((((hiter w.objc.classes).map Prod.snd).nodup_iff).mpr h.nodup).sublist filter_sublist
  have hall : ((iter w.objc.classes).map Prod.snd).all
      (fun cls => (w.objc.objects cls).isSome) = true := by
    apply all_eq_true.mpr
    intro cls hcls
    obtain ⟨e, he, rfl⟩ := mem_map.mp hcls
    exact h.registered e ((hiter _).mem_iff.mp he)
  have hroots : (roots (real w.objc iter) w.objc.superclassOf).Nodup :=
    hnodup.sublist filter_sublist
  refine ⟨?_, hnodup⟩
  simp only [ObjC.reconcileGraph, hall, if_true]
  exact (congrArg (· >>= _) (assert_of hroots)).trans (ok_bind () _)

theorem Kept.reconcileGraph (h : w.Kept mem) (hroom : w.Roomy) (hiter : ∀ l, (iter l).Perm l)
    (hrec : w.objc.reconcileGraph iter = .ok objc') :
    objc'.classes = w.objc.classes ∧ ∀ cls, objc'.objects cls = shifted w.objc cls := by
  obtain ⟨hgraph, hnodup⟩ := h.reconcileGraph_eq hiter
  rw [hgraph] at hrec
  have hstart : Progress w.objc [] w.objc := ⟨rfl, fun _ => rfl⟩
  obtain ⟨s', V, htraverse, hF, hI⟩ | ⟨V, c, Q, s', e, hF, hI, hvisit, htraverse⟩ :=
    traverse_cases ObjC.reconcileClass hnodup
      (fun V c Q s s' hF hI hvisit => h.visit hroom hiter hF hI hvisit) (Nat.le_add_left _ _)
      (frontier_roots hnodup) hstart
  · obtain rfl := ok.inj (htraverse.symm.trans hrec)
    refine ⟨hI.1, fun cls => ?_⟩
    rw [hI.2]
    split_ifs with hV
    · rfl
    · cases he : w.objc.endOf cls with
      | none => exact (shifted_of_none he).symm
      | some e =>
        rw [endOf_eq hiter] at he
        exact absurd (hF.mem_of_fold he) hV
  · cases htraverse.symm.trans hrec

end Reconciling

section Results

variable {iter : List (String × Class) → List (String × Class)}

lemma class_of_endOf {e : ℕ} (he : objc.endOf cls = some e) :
    cls ∈ objc.listed ∧ ∃ c, objc.objects cls = some (.class c) :=
  ⟨mem_of_fold he, (mem_realClasses.mp (mem_of_fold he)).2⟩

lemma Roomy.end_cases (hroom : w.Roomy) {c : ClassHostObject} {e : ℕ}
    (hc : w.objc.objects cls = some (.class c)) (he : w.objc.endOf cls = some e) :
    e = c.instanceSize ∨ c.instanceSize ≤ e ∧ ∀ v ∈ w.declared cls, v.offset = nil := by
  have hparent := superclassOf_class hc
  split_ifs at hparent with hnil
  · have hroot := endOf_root (class_of_endOf he).1 hparent
    rw [sizeOf_class hc] at hroot
    exact .inl (some.inj (he.symm.trans hroot))
  · obtain ⟨e', he', rfl⟩ := endOf_parent he hparent
    obtain ⟨-, sup, hsup⟩ := class_of_endOf he'
    rw [sizeOf_class hc, startOf_class hc]
    have hr := hroom cls c sup hc hnil hsup
    rw [he'] at hr
    obtain hle | ⟨-, hnull⟩ := hr
    · exact .inl (by omega)
    · exact .inr ⟨by omega, hnull⟩

lemma shifted_cases {c' : ClassHostObject} (h : shifted objc cls = some (.class c')) :
    ∃ c, objc.objects cls = some (.class c) ∧ c'.superclass = c.superclass ∧ c'.ivars = c.ivars ∧
      ((objc.endOf cls = none ∧ c' = c) ∨
        ∃ e, objc.endOf cls = some e ∧ c'.instanceStart = c.instanceStart + (e - c.instanceSize) ∧
          c'.instanceSize = e) := by
  rw [shifted] at h
  split at h
  · next c e hc he =>
    obtain rfl := class.inj (some.inj h)
    exact ⟨c, hc, rfl, rfl, .inr ⟨e, he, rfl, rfl⟩⟩
  · next hnot =>
    refine ⟨c', h, rfl, rfl, .inl ⟨?_, rfl⟩⟩
    cases he : objc.endOf cls with
    | none => rfl
    | some e => exact absurd he (hnot c' e h)

lemma exists_shifted {c : ClassHostObject} (h : objc.objects cls = some (.class c)) :
    ∃ c', shifted objc cls = some (.class c') := by
  cases he : objc.endOf cls with
  | none => exact ⟨c, (shifted_of_none he).trans h⟩
  | some e => exact ⟨_, shifted_class h he⟩

lemma Kept.shift (h : w.Kept mem) (hroom : w.Roomy) (hclasses : objc'.classes = w.objc.classes)
    (hobjects : ∀ cls, objc'.objects cls = shifted w.objc cls) :
    Kept mem ⟨objc', w.declared⟩ where
  nodup := hclasses ▸ h.nodup
  registered e he := by
    rw [hclasses] at he
    obtain ⟨host, hhost⟩ := isSome_iff_exists.mp (h.registered e he)
    rw [hobjects]
    cases host with
    | «class» c =>
      obtain ⟨c', hc'⟩ := exists_shifted hhost
      rw [hc']
      rfl
    | placeholder => simp only [shifted, hhost, isSome_some]
  ivars cls c hc := by
    rw [hobjects] at hc
    obtain ⟨c₀, hc₀, -, hivars, -⟩ := shifted_cases hc
    rw [hivars]
    exact h.ivars cls c₀ hc₀
  undeclared cls hnone := by
    apply h.undeclared cls
    intro c hc
    obtain ⟨c', hc'⟩ := exists_shifted hc
    exact hnone c' ((hobjects cls).trans hc')
  laid cls c hc := by
    rw [hobjects] at hc
    obtain ⟨c₀, hc₀, -, -, ⟨-, rfl⟩ | ⟨e, he, hstart, hsize⟩⟩ := shifted_cases hc
    · exact h.laid cls c hc₀
    · have hlaid := h.laid cls c₀ hc₀
      rw [hstart, hsize]
      obtain rfl | ⟨hle, hnull⟩ := hroom.end_cases hc₀ he
      · rw [Nat.sub_self, add_zero]
        exact hlaid
      · have hstart_le := hlaid.start_le
        exact ⟨by omega, fun v hv hv' => absurd (hnull v hv) hv',
          fun v hv hv' => absurd (hnull v hv) hv', hlaid.aligned⟩

lemma Roomy.starts (hroom : w.Roomy) (hnodup : w.objc.listed.Nodup) (hobjects : ∀ cls, objc'.objects cls = shifted w.objc cls)
    {c sup : ClassHostObject} (hc : objc'.objects cls = some (.class c)) (hnil : c.superclass ≠ nil)
    (hsup : objc'.objects c.superclass = some (.class sup)) :
    sup.instanceSize ≤ c.instanceStart := by
  rw [hobjects] at hc hsup
  obtain ⟨c₀, hc₀, hsame, -, hcases⟩ := shifted_cases hc
  obtain ⟨sup₀, hsup₀, -, -, hcases'⟩ := shifted_cases hsup
  rw [hsame] at hnil hsup₀ hcases'
  have hparent := superclassOf_class hc₀
  rw [if_neg hnil] at hparent
  have hr := hroom cls c₀ sup₀ hc₀ hnil hsup₀
  obtain ⟨he', rfl⟩ | ⟨e', he', -, hsize'⟩ := hcases'
  · rw [he'] at hr
    obtain ⟨-, rfl⟩ | ⟨e, he, -, -⟩ := hcases
    · exact hr
    · obtain ⟨e', he, -⟩ := endOf_parent he hparent
      cases he.symm.trans he'
  · rw [he'] at hr
    rw [hsize']
    obtain ⟨hnone, rfl⟩ | ⟨e, he, hstart, -⟩ := hcases
    · refine hr.resolve_right ?_
      rintro ⟨hlisted, -⟩
      have hfold := (fold_child hlisted hparent).trans (congrArg (Option.map _) he')
      cases hnone.symm.trans (fold_length hnodup hfold)
    · obtain ⟨e'', he'', rfl⟩ := endOf_parent he hparent
      obtain rfl := some.inj (he''.symm.trans he')
      rw [hstart, sizeOf_class hc₀, startOf_class hc₀]
      omega

lemma class_of_superclassOf {d : Class} (h : objc.superclassOf cls = some d) :
    ∃ c, objc.objects cls = some (.class c) ∧ c.superclass ≠ nil ∧ c.superclass = d := by
  rw [ObjC.superclassOf] at h
  split at h
  · next c hc =>
    split_ifs at h with hnil
    exact ⟨c, hc, hnil, some.inj h⟩
  · cases h

def Starts (objc : ObjC) : Prop :=
  ∀ cls c superclass, objc.objects cls = some (.class c) → c.superclass ≠ nil →
    objc.objects c.superclass = some (.class superclass) →
      superclass.instanceSize ≤ c.instanceStart

lemma Kept.inherits_le (h : Kept mem ⟨objc, declared⟩) (hstarts : Starts objc) {anc : Class}
    {a : ClassHostObject} (ha : objc.objects anc = some (.class a))
    (hinherits : objc.Inherits cls anc) {c : ClassHostObject}
    (hc : objc.objects cls = some (.class c)) : a.instanceSize ≤ c.instanceStart := by
  induction hinherits using Relation.TransGen.head_induction_on generalizing c with
  | single hstep =>
    obtain ⟨c', hc', hnil, rfl⟩ := class_of_superclassOf hstep
    obtain rfl := class.inj (some.inj (hc.symm.trans hc'))
    exact hstarts _ c a hc hnil ha
  | head hstep hrest ih =>
    obtain ⟨c', hc', hnil, rfl⟩ := class_of_superclassOf hstep
    obtain rfl := class.inj (some.inj (hc.symm.trans hc'))
    obtain ⟨d, hd, -⟩ := Relation.TransGen.head'_iff.mp hrest
    obtain ⟨s, hs, -⟩ := class_of_superclassOf hd
    have hlaid := (h.laid _ s hs).start_le
    have hle := hstarts _ c s hc hnil hs
    have := ih hs
    omega

lemma Kept.class_of_declared (h : w.Kept mem) {v : IvarT} (hv : v ∈ w.declared cls) :
    ∃ c, w.objc.objects cls = some (.class c) := by
  by_contra hnone
  rw [h.undeclared cls fun c hc => hnone ⟨c, hc⟩] at hv
  exact not_mem_nil hv

lemma Kept.exists_of_ivarOffsetPtr (h : w.Kept mem) {name : String} {fuel : ℕ} {ptr : VoidPtr}
    (hptr : w.objc.ivarOffsetPtr name fuel cls = some ptr) :
    ∃ anc, w.objc.Chain cls anc ∧ ∃ v ∈ w.declared anc, v.name = name ∧ v.offset = ptr := by
  induction fuel generalizing cls with
  | zero => cases hptr
  | succ fuel ih =>
    rw [ObjC.ivarOffsetPtr] at hptr
    split at hptr
    · next c hc =>
      split at hptr
      · next p alignment hlookup =>
        obtain rfl := some.inj hptr
        have hmem : (name, p, alignment) ∈ addIvarsFromBin (w.declared cls) := by
          rw [← h.ivars cls c hc]
          obtain ⟨l₁, l₂, hsplit, -⟩ := lookup_eq_some_iff.mp hlookup
          rw [hsplit]
          exact mem_append_right _ mem_cons_self
        obtain ⟨v, hv, hname, hoffset, -⟩ := exists_of_mem_addIvars hmem
        exact ⟨cls, .refl, v, hv, hname, hoffset⟩
      · next hlookup =>
        split_ifs at hptr with hnil
        obtain ⟨anc, hchain, hv⟩ := ih hptr
        have hparent : w.objc.superclassOf cls = some c.superclass := by
          rw [superclassOf_class hc, if_neg hnil]
        exact ⟨anc, .head hparent hchain, hv⟩
    · cases hptr

lemma Kept.reconcileGraph_of_starts (h : w.Kept mem) (hstarts : Starts w.objc)
    (hiter : ∀ l, (iter l).Perm l) : w.objc.reconcileGraph iter = .ok w.objc := by
  obtain ⟨hgraph, hnodup⟩ := h.reconcileGraph_eq hiter
  rw [hgraph]
  have hvisit : ∀ V c Q, Forest.Frontier (real w.objc iter) w.objc.superclassOf V (c :: Q) →
      w.objc.reconcileClass c = .ok w.objc := by
    intro V cls Q hF
    obtain ⟨-, c, hc⟩ := mem_realClasses.mp
      (hF.within cls (mem_append_right V mem_cons_self))
    have hparent := superclassOf_class hc
    have hneed : w.objc.needIvarReconciliation cls = .ok (false, 0) := by
      simp only [ObjC.needIvarReconciliation, hc, unwrap_some, ok_bind]
      split_ifs at hparent ⊢ with hnil
      · rfl
      · obtain ⟨-, sup, hsup⟩ := mem_realClasses.mp (hF.within c.superclass
          (mem_append_left _ (hF.parents cls (mem_append_right V mem_cons_self) _
            hparent)))
        simp only [hsup, unwrap_some, ok_bind]
        rw [if_neg (not_lt.mpr (hstarts cls c sup hc hnil hsup))]
        rfl
    rw [ObjC.reconcileClass, hneed]
    rfl
  have hsame : ∀ V c Q s s', Forest.Frontier (real w.objc iter) w.objc.superclassOf V (c :: Q) →
      s = w.objc → s.reconcileClass c = .ok s' → s' = w.objc := by
    intro V c Q s s' hF hs hvisited
    rw [hs] at hvisited
    exact ok.inj (hvisited.symm.trans (hvisit V c Q hF))
  obtain ⟨s', V, htraverse, -, hs⟩ | ⟨V, c, Q, s', e, hF, hs, hfail, -⟩ :=
    traverse_cases ObjC.reconcileClass (I := fun _ s => s = w.objc) hnodup hsame
      (Nat.le_add_left _ _) (frontier_roots hnodup) rfl
  · rw [htraverse, hs]
  · rw [hs] at hfail
    cases (hvisit V c Q hF).symm.trans hfail

lemma linkClass_known {c : HostClass} (hlink : objc.linkClass c = .ok objc') :
    objc'.classes.any (fun e => e.1 = c.name) = true := by
  rw [ObjC.linkClass] at hlink
  split_ifs at hlink with hany
  · obtain rfl := ok.inj hlink
    exact hany
  · obtain ⟨_, -, hlink⟩ := bind_eq_ok.mp hlink
    obtain rfl := ok.inj hlink
    simp [insertEntry]

theorem Kept.step (h : w.Kept mem) (hiter : ∀ l, (iter l).Perm l) {bin : Binary}
    (huse : w.Use mem bin) (hstep : w.step iter bin = .ok w') :
    w'.Kept mem ∧ w'.Sound iter mem := by
  obtain ⟨objc', hreg, hstep⟩ := bind_eq_ok.mp hstep
  obtain rfl := ok.inj hstep
  obtain ⟨loaded, hload, hreg⟩ := bind_eq_ok.mp hreg
  obtain ⟨linked, hlink, hgraph⟩ := bind_eq_ok.mp hreg
  have hload' : w.load bin = .ok ⟨linked, bin.classes.foldl declare w.declared⟩ := by
    simp only [Registered.load, hload, hlink, ok_bind, pure_eq_ok]
  have hkept := h.load huse hload'
  have hroom := huse.roomy _ hload'
  obtain ⟨hclasses, hobjects⟩ := hkept.reconcileGraph hroom hiter hgraph
  have hkept' := hkept.shift hroom hclasses hobjects
  have hlisted : linked.listed.Nodup := hkept.nodup.sublist filter_sublist
  have hstarts : Starts objc' := fun cls c sup hc hnil hsup =>
    hroom.starts hlisted hobjects hc hnil hsup
  refine ⟨hkept', hstarts, ?_, ?_, ?_, ?_, ?_⟩
  · intro cls c anc hc hchain v hv hoffset
    obtain ⟨a, ha⟩ := hkept'.class_of_declared hv
    have hle := (hkept'.laid anc a ha).le_size v hv hoffset
    obtain heq | hinherits := Relation.reflTransGen_iff_eq_or_transGen.mp hchain
    · obtain rfl := heq
      obtain rfl := class.inj (some.inj (hc.symm.trans ha))
      exact hle
    · have hbelow := hkept'.inherits_le hstarts ha hinherits hc
      have hlaid := (hkept'.laid cls c hc).start_le
      omega
  · intro cls v hv hoffset
    obtain ⟨c, hc⟩ := hkept'.class_of_declared hv
    exact (hkept'.laid cls c hc).aligned v hv hoffset
  · intro cls anc hinherits v hv u hu hv' hu'
    obtain ⟨c, hc⟩ := hkept'.class_of_declared hv
    obtain ⟨a, ha⟩ := hkept'.class_of_declared hu
    have hle := (hkept'.laid anc a ha).le_size u hu hu'
    have hbelow := hkept'.inherits_le hstarts ha hinherits hc
    have hstart := (hkept'.laid cls c hc).start_le_offset v hv hv'
    omega
  · intro name fuel cls o ho
    obtain ⟨ptr, hptr, rfl⟩ := map_eq_some_iff.mp ho
    obtain ⟨anc, hchain, v, hv, hname, rfl⟩ := hkept'.exists_of_ivarOffsetPtr hptr
    exact ⟨anc, hchain, v, hv, hname, rfl⟩
  · intro nsObject
    have hknown := linkClass_known hlink
    rw [← hclasses] at hknown
    have hsame : objc'.linkClass ⟨nsObject, "NSObject", some nil⟩ = .ok objc' := if_pos hknown
    simp only [ObjC.reconcileBinClassIvars, hsame, ok_bind]
    exact hkept'.reconcileGraph_of_starts hstarts hiter

/-- Instance variables are where they should be after every registration of a run. -/
theorem sound_of_use (hiter : ∀ l, (iter l).Perm l) {bin : Binary} {bins : List Binary}
    (huse : Along (step iter) (Use mem) boot (bin :: bins))
    (hrun : run (step iter) boot (bin :: bins) = .ok w) : w.Sound iter mem := by
  obtain ⟨w₁, hstep, hrun⟩ := run_cons_eq_ok.mp hrun
  have hfirst := (kept_boot mem).step hiter huse.1 hstep
  have hboth := run_preserves (I := fun w => w.Kept mem ∧ w.Sound iter mem)
    (fun _ _ _ h hbin hstep => h.1.step hiter hbin hstep) hfirst (huse.2 w₁ hstep) hrun
  exact hboth.2

end Results

section Examples

def offsets (ptr : VoidPtr) : ℕ := if ptr = 1000 then 4 else if ptr = 1004 then 8 else 0

def threeClasses : Binary where
  links := []
  classes := [
    ⟨100, "A", nil, 4, 8, [⟨1000, "a", 2, 4⟩], false⟩,
    ⟨200, "B", 100, 8, 12, [⟨1004, "b", 2, 4⟩], false⟩,
    ⟨300, "C", 200, 4, 4, [], false⟩]
  nsObject := 400

lemma use_threeClasses : boot.Use offsets threeClasses where
  laid c hc _ := by
    simp only [threeClasses, mem_cons, not_mem_nil, or_false] at hc
    obtain rfl | rfl | rfl := hc <;> constructor <;> simp [offsets, nil]
  distinct := by simp [threeClasses, nil]
  fresh objc hlinks c _ := by
    obtain rfl := ok.inj hlinks
    rfl
  roomy w' hload := by
    obtain rfl := ok.inj ((rfl : boot.load threeClasses = .ok _).symm.trans hload)
    apply roomy_of_check
    intro cls hcls
    obtain rfl | rfl | rfl | rfl : cls = 100 ∨ cls = 200 ∨ cls = 300 ∨ cls = 400 := by
      by_contra hnot
      simp only [not_or] at hnot
      simp [threeClasses, ObjC.registerBinClass, ObjC.registerStaticObject, boot, nil, hnot] at hcls
    all_goals decide

theorem sound_of_use_grown : ∃ w, run (step id) boot [threeClasses] = .ok w ∧
    w.objc.sizeOf 300 = 12 ∧ w.Sound id offsets := by
  have hrun : succeedsWith (fun w => w.objc.sizeOf 300 = 12)
      (run (step id) boot [threeClasses]) = true := by decide
  obtain ⟨w, hw, hsize⟩ := exists_of_succeedsWith hrun
  have huse : Along (step id) (Use offsets) boot [threeClasses] :=
    ⟨use_threeClasses, fun _ _ => trivial⟩
  exact ⟨w, hw, of_decide_eq_true hsize, sound_of_use (fun l => .refl l) huse hw⟩

def grownSuperclass : Binary where
  links := []
  classes := [
    ⟨100, "A", nil, 4, 8, [⟨1000, "a", 2, 4⟩], false⟩,
    ⟨200, "B", 100, 4, 8, [⟨1008, "b", 2, 4⟩], false⟩]
  nsObject := 400

theorem not_sound : ∃ w, run (step id) boot [grownSuperclass] = .ok w ∧
    ¬ w.Sound id fun ptr => if ptr = 1000 ∨ ptr = 1008 then 4 else 0 := by
  have hrun : succeedsWith (fun w => w.objc.superclassOf 200 = some 100 ∧
      w.declared 200 = [⟨1008, "b", 2, 4⟩] ∧ w.declared 100 = [⟨1000, "a", 2, 4⟩])
      (run (step id) boot [grownSuperclass]) = true := by decide
  obtain ⟨w, hw, hp⟩ := exists_of_succeedsWith hrun
  obtain ⟨hsuper, hb, ha⟩ := of_decide_eq_true hp
  refine ⟨w, hw, fun hsound => ?_⟩
  have happart := hsound.apart 200 100 (.single hsuper) ⟨1008, "b", 2, 4⟩ (by simp [hb])
    ⟨1000, "a", 2, 4⟩ (by simp [ha]) (by decide) (by decide)
  simp at happart

end Examples

end Registered

end TouchHle.Objc.Ivars
