import TouchHle.Objc.Weak

/-! Weak slots never show an object that is gone: which slots the side table lists, over every run
of the calls that manage them. -/

namespace TouchHle.Objc.Weak

open Lib Function Except Env

/-- How often a slot is listed under each object, what the slots hold and which of them are
managed: a managed slot is listed once under the object it holds, and the object is there. -/
structure Coherent (there : Id → Prop) (listing : Id → Slot → ℕ) (mem : Slot → Id)
    (managed : Slot → Bool) : Prop where
  listed : ∀ l o, listing o l = if managed l = true ∧ mem l = o ∧ o ≠ nil then 1 else 0
  there : ∀ l, managed l = true → mem l = nil ∨ there (mem l)

namespace Coherent

variable {there there' : Id → Prop} {listing : Id → Slot → ℕ} {mem mem' : Slot → Id}
  {managed : Slot → Bool} {location : Slot} {newObj o : Id}

lemma assign (h : Coherent there listing mem managed) {b : Bool}
    (hnew : newObj = nil ∨ there newObj) (hb : b = true ∨ newObj = nil) :
    Coherent there
      (fun o l => if l = location then (if o = newObj ∧ o ≠ nil then 1 else 0) else listing o l)
      (update mem location newObj) (update managed location b) := by
  constructor
  · intro l o
    by_cases hl : l = location
    · subst hl
      simp only [update_self, if_true]
      obtain rfl | rfl := hb
      · simp [eq_comm]
      · have hno : ¬ (o = nil ∧ o ≠ nil) := fun h => h.2 h.1
        have hno' : ¬ (b = true ∧ nil = o ∧ o ≠ nil) := fun h => h.2.2 h.2.1.symm
        rw [if_neg hno, if_neg hno']
    · simp only [update_of_ne hl, if_neg hl]
      exact h.listed l o
  · intro l hl
    by_cases hloc : l = location
    · subst hloc
      rw [update_self]
      exact hnew
    · rw [update_of_ne hloc] at hl ⊢
      exact h.there l hl

lemma of_mem_eq (h : Coherent there listing mem managed)
    (hmem : ∀ l, managed l = true → mem' l = mem l) : Coherent there listing mem' managed := by
  constructor
  · intro l o
    rw [h.listed l o]
    by_cases hl : managed l = true
    · rw [hmem l hl]
    · rw [if_neg (fun h => hl h.1), if_neg (fun h => hl h.1)]
  · intro l hl
    rw [hmem l hl]
    exact h.there l hl

lemma mono (h : Coherent there listing mem managed) (hthere : ∀ o, there o → there' o) :
    Coherent there' listing mem managed :=
  ⟨h.listed, fun l hl => (h.there l hl).imp id (hthere _)⟩

lemma zero (h : Coherent there listing mem managed) (hnil : o ≠ nil) :
    Coherent (fun p => there p ∧ p ≠ o) (fun p l => if p = o then 0 else listing p l)
      (fun l => if 0 < listing o l ∧ mem l = o then nil else mem l) managed := by
  have hpos : ∀ l, managed l = true → mem l = o → 0 < listing o l := by
    intro l hl hm
    rw [h.listed l o, if_pos ⟨hl, hm, hnil⟩]
    exact Nat.one_pos
  constructor
  · intro l p
    have hlisted := h.listed l p
    by_cases hp : p = o
    · have hmem : ¬ (managed l = true ∧
          (if 0 < listing o l ∧ mem l = o then nil else mem l) = p ∧ p ≠ nil) := by
        rintro ⟨hl, hm, hpn⟩
        by_cases ho : mem l = o
        · rw [if_pos ⟨hpos l hl ho, ho⟩] at hm
          exact hpn hm.symm
        · rw [if_neg (fun h => ho h.2)] at hm
          exact ho (hm.trans hp)
      rw [if_neg hmem, if_pos hp]
    · rw [if_neg hp, hlisted]
      by_cases ho : 0 < listing o l ∧ mem l = o
      · have hm : mem l ≠ p := fun h => hp (h.symm.trans ho.2)
        rw [if_neg (fun h => hm h.2.1), if_pos ho, if_neg (fun h => h.2.2 h.2.1.symm)]
      · rw [if_neg ho]
  · intro l hl
    by_cases hm : mem l = o
    · exact .inl (if_pos ⟨hpos l hl hm, hm⟩)
    · rw [if_neg (fun h => hm h.2)]
      exact (h.there l hl).imp id fun h => ⟨h, hm⟩

end Coherent

/-- The runtime, with the slots that the calls manage and the objects whose count has dropped to
zero since they were allocated. -/
structure Watched where
  env : Env
  managed : Slot → Bool
  dropped : Id → Bool

namespace Watched

def managedAfter (managed : Slot → Bool) : Request → Slot → Bool
  | .storeWeak l _ | .storeWeakOrNil l _ | .initWeak l _ =>
    if l = 0 then managed else update managed l true
  | .destroyWeak l => if l = 0 then managed else update managed l false
  | .copyWeak toSlot fromSlot =>
    if toSlot = 0 ∨ fromSlot = 0 then managed else update managed toSlot true
  | .moveWeak toSlot fromSlot =>
    if toSlot = 0 ∨ fromSlot = 0 then managed
    else update (update managed toSlot true) fromSlot false
  | _ => managed

def droppedAfter (w : Watched) : Request → Id → Bool
  | .alloc ptr _ _ _ => update w.dropped ptr false
  | .release object =>
    if (w.env.objects.decrementRefcount object).1 then update w.dropped object true
    else w.dropped
  | _ => w.dropped

def step (w : Watched) (r : Request) : Checked Watched :=
  (fun env => ⟨env, managedAfter w.managed r, w.droppedAfter r⟩) <$> w.env.step r

def start (mem : Slot → Id) (zeroMemoryOnFree : Bool) : Watched :=
  ⟨⟨fun _ => none, fun _ => none, mem, zeroMemoryOnFree⟩, fun _ => false, fun _ => false⟩

def deallocating (w : Watched) (o : Id) : Bool := w.dropped o && (w.env.objects o).isSome

end Watched

def Env.blockSize (env : Env) (o : Id) : ℕ :=
  match env.objects o with
  | none => 0
  | some entry => entry.block

def Env.CanRefer (env : Env) (o : Id) : Prop := o = nil ∨ (env.objects o).isSome = true

instance (env : Env) (o : Id) : Decidable (env.CanRefer o) := instDecidableOr

/-- How the calls are to be used: a slot is initialised only while it refers to nothing, what it is
made to refer to is there, no slot is loaded while the object it holds is being deallocated, and no
managed slot lies in memory that is allocated or freed. -/
def Use (w : Watched) : Request → Prop
  | .alloc ptr _ size _ => ∀ l < ptr + max size 1, ptr ≤ l → w.managed l = false
  | .deallocObject object =>
    ∀ l < object + w.env.blockSize object, object ≤ l → w.managed l = false
  | .storeWeak l newObj | .storeWeakOrNil l newObj => l = 0 ∨ w.env.CanRefer newObj
  | .initWeak l newObj =>
    l = 0 ∨ w.env.CanRefer newObj ∧ (w.managed l = true → w.env.mem l = nil)
  | .loadWeak l | .loadWeakRetained l =>
    l = 0 ∨ w.managed l = true ∧ w.deallocating (w.env.mem l) = false
  | .copyWeak toSlot fromSlot =>
    toSlot = 0 ∨ fromSlot = 0 ∨
      w.env.CanRefer (w.env.mem fromSlot) ∧ (w.managed toSlot = true → w.env.mem toSlot = nil)
  | .moveWeak toSlot fromSlot =>
    toSlot = 0 ∨ fromSlot = 0 ∨
      w.env.CanRefer (w.env.mem fromSlot) ∧ (w.managed toSlot = true → w.env.mem toSlot = nil) ∧
        (toSlot = fromSlot → w.env.mem fromSlot = nil)
  | .retain _ | .release _ | .destroyWeak _ => True

instance (w : Watched) (r : Request) : Decidable (Use w r) := by
  cases r <;> unfold Use <;> infer_instance

structure Sound (w : Watched) : Prop where
  coherent : Coherent (fun o => (w.env.objects o).isSome = true)
    (fun o l => (w.env.listed o).count l) w.env.mem w.managed
  nilKept : w.dropped nil = false

section

variable {w w' : Watched} {env env' : Env} {managed : Slot → Bool} {location : Slot}
  {newObj o : Id}

abbrev Env.Coherent (env : Env) (managed : Slot → Bool) : Prop :=
  Weak.Coherent (fun o => (env.objects o).isSome = true) (fun o l => (env.listed o).count l)
    env.mem managed

lemma Env.Coherent.assign (h : env.Coherent managed) (location : Slot) (newObj : Id) {b : Bool}
    (hnew : env.CanRefer newObj) (hb : b = true ∨ newObj = nil) (hobjects : env'.objects = env.objects)
    (hmem : env'.mem = update env.mem location newObj)
    (hlisted : ∀ o l, (env'.listed o).count l =
      if l = location then (if o = newObj ∧ o ≠ nil then 1 else 0) else (env.listed o).count l) :
    env'.Coherent (update managed location b) := by
  have h' : Weak.Coherent _ _ (update env.mem location newObj)
      (update managed location b) := Weak.Coherent.assign h hnew hb
  rw [Env.Coherent, hobjects, hmem]
  simp only [hlisted]
  exact h'

lemma Env.Coherent.count_unlist (h : env.Coherent managed) {l : Slot}
    (hold : env.mem location ≠ nil) :
    ((env.unregisterWeak (env.mem location) location).listed o).count l =
      if l = location then 0 else (env.listed o).count l := by
  rw [count_unregisterWeak hold]
  by_cases hl : l = location
  · subst hl
    rw [if_pos rfl]
    split
    · rfl
    · rename_i hno
      have hcount := h.listed l o
      rw [if_neg (fun h => hno ⟨h.2.1.symm, rfl⟩)] at hcount
      exact hcount
  · rw [if_neg (fun h => hl h.2), if_neg hl]

lemma Env.Coherent.count_of_nil (h : env.Coherent managed)
    (hloc : managed location = true → env.mem location = nil) :
    (env.listed o).count location = 0 := by
  have hcount := h.listed location o
  rw [if_neg (fun h => h.2.2 (h.2.1.symm.trans (hloc h.1)))] at hcount
  exact hcount

lemma Env.Coherent.storeWeak (h : env.Coherent managed) (hloc : location ≠ 0)
    (hnew : env.CanRefer newObj) :
    (env.objcStoreWeak location newObj).Coherent (update managed location true) := by
  have hunlist : ∀ l o, ((if env.mem location ≠ nil then
      env.unregisterWeak (env.mem location) location else env).listed o).count l =
      if l = location then 0 else (env.listed o).count l := by
    intro l o
    split
    · rename_i hold
      exact h.count_unlist hold
    · rename_i hold
      by_cases hl : l = location
      · subst hl
        rw [if_pos rfl]
        exact h.count_of_nil fun _ => not_not.mp hold
      · rw [if_neg hl]
  have hkeep : (if env.mem location ≠ nil then
      env.unregisterWeak (env.mem location) location else env).objects = env.objects ∧
      (if env.mem location ≠ nil then
      env.unregisterWeak (env.mem location) location else env).mem = env.mem := by
    split <;> simp
  rw [objcStoreWeak, if_neg hloc]
  dsimp only
  generalize (if env.mem location ≠ nil then
    env.unregisterWeak (env.mem location) location else env) = unlisted at hunlist hkeep ⊢
  apply h.assign location newObj hnew (.inl rfl)
  · split <;> simp [hkeep.1]
  · split <;> simp [hkeep.2]
  · intro o l
    split
    · rename_i hne
      rw [count_registerWeak hne, listed_writeMem, hunlist]
      by_cases hl : l = location
      · by_cases ho : o = newObj
        · subst ho
          simp [hl, hne]
        · simp [hl, ho]
      · simp [hl]
    · rename_i hne
      rw [listed_writeMem, hunlist, not_not.mp hne]
      by_cases hl : l = location
      · rw [if_pos hl, if_pos hl, if_neg fun h => h.2 h.1]
      · rw [if_neg hl, if_neg hl]

lemma Env.Coherent.initWeak (h : env.Coherent managed) (hloc : location ≠ 0)
    (hnew : env.CanRefer newObj) (hempty : managed location = true → env.mem location = nil) :
    (env.objcInitWeak location newObj).Coherent (update managed location true) := by
  rw [objcInitWeak, if_neg hloc]
  apply h.assign location newObj hnew (.inl rfl)
  · dsimp only
    split <;> simp
  · dsimp only
    split <;> simp
  · intro o l
    have hcount : (env.listed o).count location = 0 := h.count_of_nil hempty
    dsimp only
    split
    · rename_i hne
      rw [count_registerWeak hne, listed_writeMem]
      by_cases hl : l = location
      · subst hl
        by_cases ho : o = newObj
        · subst ho
          simp [hcount, hne]
        · simp [hcount, ho]
      · simp [hl]
    · rename_i hne
      rw [listed_writeMem, not_not.mp hne]
      by_cases hl : l = location
      · subst hl
        rw [if_pos rfl, if_neg fun h => h.2 h.1, hcount]
      · rw [if_neg hl]

lemma Env.Coherent.destroyWeak (h : env.Coherent managed) (hloc : location ≠ 0) :
    (env.objcDestroyWeak location).Coherent (update managed location false) := by
  rw [objcDestroyWeak, if_neg hloc]
  dsimp only
  by_cases hold : env.mem location = nil
  · rw [if_neg (not_not.mpr hold)]
    apply h.assign location nil (.inl rfl) (.inr rfl) rfl
    · rw [← hold, update_eq_self]
    · intro o l
      by_cases hl : l = location
      · subst hl
        rw [if_pos rfl, if_neg fun h => h.2 h.1]
        exact h.count_of_nil fun _ => hold
      · rw [if_neg hl]
  · rw [if_pos hold]
    apply h.assign location nil (.inl rfl) (.inr rfl)
    · simp
    · simp
    · intro o l
      rw [listed_writeMem, h.count_unlist hold]
      by_cases hl : l = location
      · rw [if_pos hl, if_pos hl, if_neg fun h => h.2 h.1]
      · rw [if_neg hl, if_neg hl]

lemma Env.Coherent.moveWeak (h : env.Coherent managed) {toSlot fromSlot : Slot}
    (hto : toSlot ≠ 0) (hfrom : fromSlot ≠ 0) (hnew : env.CanRefer (env.mem fromSlot))
    (hempty : managed toSlot = true → env.mem toSlot = nil)
    (hsame : toSlot = fromSlot → env.mem fromSlot = nil) :
    (env.objcMoveWeak toSlot fromSlot).Coherent
      (update (update managed toSlot true) fromSlot false) := by
  rw [objcMoveWeak, if_neg (by simp [hto, hfrom])]
  dsimp only
  by_cases hval : env.mem fromSlot = nil
  · rw [if_neg (not_not.mpr hval), hval]
    have hmoved : (env.writeMem toSlot nil).Coherent (update managed toSlot true) := by
      apply h.assign toSlot nil (.inl rfl) (.inl rfl)
      · rfl
      · rfl
      · intro o l
        by_cases hl : l = toSlot
        · subst hl
          rw [if_pos rfl, if_neg fun h => h.2 h.1]
          exact h.count_of_nil hempty
        · rw [if_neg hl, listed_writeMem]
    apply hmoved.assign fromSlot nil (.inl rfl) (.inr rfl)
    · rfl
    · rfl
    · intro o l
      by_cases hl : l = fromSlot
      · subst hl
        rw [if_pos rfl, if_neg fun h => h.2 h.1]
        exact h.count_of_nil fun _ => hval
      · rw [if_neg hl, listed_writeMem]
  · have hne : toSlot ≠ fromSlot := fun heq => hval (hsame heq)
    rw [if_pos hval]
    generalize hv : env.mem fromSlot = val at hval hnew ⊢
    have hfrom' : ((env.unregisterWeak val fromSlot).writeMem fromSlot nil).Coherent
        (update managed fromSlot false) := by
      apply h.assign fromSlot nil (.inl rfl) (.inr rfl)
      · simp
      · simp
      · intro o l
        rw [listed_writeMem, ← hv, h.count_unlist (by rwa [hv])]
        by_cases hl : l = fromSlot
        · rw [if_pos hl, if_pos hl, if_neg fun h => h.2 h.1]
        · rw [if_neg hl, if_neg hl]
    rw [update_comm hne]
    have hnew' : ((env.unregisterWeak val fromSlot).writeMem fromSlot nil).CanRefer val :=
      hnew.imp id fun hthere => by simpa using hthere
    apply hfrom'.assign toSlot val hnew' (.inl rfl)
    · simp
    · simp [update_comm hne]
    · intro o l
      simp only [listed_writeMem]
      rw [count_registerWeak hval]
      by_cases hl : l = toSlot
      · subst hl
        have hcount : ((env.unregisterWeak val fromSlot).listed o).count l = 0 := by
          rw [← hv, h.count_unlist (by rwa [hv]), if_neg hne]
          exact h.count_of_nil hempty
        by_cases ho : o = val
        · subst ho
          simp [hcount, hval]
        · simp [hcount, ho]
      · simp [hl]

lemma zeroBlock_eq {mem : Slot → Id} {ptr size : ℕ} {l : Slot}
    (h : ∀ l < ptr + size, ptr ≤ l → managed l = false) (hl : managed l = true) :
    zeroBlock mem ptr size l = mem l := by
  apply if_neg
  rintro ⟨hle, hlt⟩
  exact absurd hl (by rw [h l hlt hle]; exact Bool.false_ne_true)

lemma Env.Coherent.dealloc (h : env.Coherent managed) {object : Id}
    (hblock : ∀ l < object + env.blockSize object, object ≤ l → managed l = false) :
    (env.deallocObject object).Coherent managed := by
  rw [deallocObject]
  by_cases hnil : object = nil
  · rw [if_pos hnil]
    exact h
  rw [if_neg hnil, zeroWeakReferencesFor_eq hnil]
  dsimp only
  have hzero := Weak.Coherent.zero h hnil
  have hcount : ∀ o l, ((update env.weakRefs object none o).getD []).count l =
      if o = object then 0 else (env.listed o).count l := by
    intro o l
    by_cases ho : o = object
    · subst ho
      simp
    · rw [update_of_ne ho, if_neg ho]
      rfl
  simp only [← hcount, List.count_pos_iff] at hzero
  cases hentry : env.objects object with
  | none =>
    apply hzero.mono
    exact fun o ho => ho.1
  | some entry =>
    have hsize : env.blockSize object = entry.block := by rw [blockSize, hentry]
    rw [hsize] at hblock
    generalize (fun a => if a ∈ env.listed object ∧ env.mem a = object then nil else env.mem a)
      = zeroed at hzero ⊢
    have hmem : ∀ l, managed l = true →
        (if env.zeroMemoryOnFree then zeroBlock zeroed object entry.block else zeroed) l =
          zeroed l := by
      intro l hl
      split
      · exact zeroBlock_eq hblock hl
      · rfl
    apply (hzero.of_mem_eq hmem).mono
    rintro o ⟨ho, hne⟩
    dsimp only
    rwa [update_of_ne hne]

lemma Env.Coherent.alloc (h : env.Coherent managed) {ptr isa size : ℕ}
    {refcount : Option NonZeroU32} (hstep : env.allocObjectInner ptr isa size refcount = .ok env')
    (hblock : ∀ l < ptr + max size 1, ptr ≤ l → managed l = false) : env'.Coherent managed := by
  obtain ⟨-, -, hstep⟩ := bind_eq_ok.mp hstep
  obtain rfl := ok.inj hstep
  have hmem : ∀ l, managed l = true → update
      (if env.zeroMemoryOnFree then env.mem else zeroBlock env.mem ptr size) ptr isa l =
      env.mem l := by
    intro l hl
    have hne : l ≠ ptr := by
      rintro rfl
      rw [hblock l (by omega) (le_refl l)] at hl
      cases hl
    rw [update_of_ne hne]
    split
    · rfl
    · exact zeroBlock_eq (fun l hlt hle => hblock l (by omega) hle) hl
  apply (Weak.Coherent.of_mem_eq h hmem).mono
  intro o ho
  dsimp only
  by_cases hptr : o = ptr
  · subst hptr
    simp
  · rwa [update_of_ne hptr]

end

section

variable {w w' : Watched} {r : Request} {rs : List Request}

lemma Env.Coherent.of_objects {env env' : Env} {managed : Slot → Bool} (h : env.Coherent managed)
    (hweak : env'.weakRefs = env.weakRefs) (hmem : env'.mem = env.mem)
    (hobjects : ∀ o, env'.objects o = none ↔ env.objects o = none) : env'.Coherent managed := by
  have hlisted : ∀ o, env'.listed o = env.listed o := fun o => by rw [listed, hweak, listed]
  rw [Env.Coherent, hmem]
  simp only [hlisted]
  apply Weak.Coherent.mono h
  intro o ho
  rw [Option.isSome_iff_ne_none] at ho ⊢
  exact mt (hobjects o).mp ho

lemma coherent_load {env : Env} {managed : Slot → Bool} (h : env.Coherent managed) (l : Slot) :
    (env.objcLoadWeakRetained l).2.Coherent managed := by
  rw [objcLoadWeakRetained]
  split
  · exact h
  · dsimp only
    split
    · exact h
    · exact h.of_objects rfl rfl fun o => Objects.incrementRefcount_eq_none

lemma Sound.step (h : Sound w) (huse : Use w r) (hstep : w.step r = .ok w') : Sound w' := by
  obtain ⟨env', henv, rfl⟩ := map_eq_ok.mp hstep
  have hc : w.env.Coherent w.managed := h.coherent
  refine ⟨?_, ?_⟩
  · show env'.Coherent _
    cases r with
    | alloc ptr isa size refcount => exact hc.alloc henv huse
    | retain object =>
      obtain rfl := ok.inj henv
      exact hc.of_objects rfl rfl fun o => Objects.incrementRefcount_eq_none
    | release object =>
      obtain rfl := ok.inj henv
      exact hc.of_objects rfl rfl fun o => Objects.decrementRefcount_eq_none
    | deallocObject object =>
      obtain rfl := ok.inj henv
      exact hc.dealloc huse
    | storeWeak l newObj | storeWeakOrNil l newObj =>
      obtain rfl := ok.inj henv
      rw [Watched.managedAfter]
      by_cases hl : l = 0
      · subst hl
        exact hc
      · rw [if_neg hl]
        exact hc.storeWeak hl (huse.resolve_left hl)
    | initWeak l newObj =>
      obtain rfl := ok.inj henv
      rw [Watched.managedAfter]
      by_cases hl : l = 0
      · subst hl
        exact hc
      · rw [if_neg hl]
        obtain ⟨hnew, hempty⟩ := huse.resolve_left hl
        exact hc.initWeak hl hnew hempty
    | loadWeak l | loadWeakRetained l =>
      obtain rfl := ok.inj henv
      exact coherent_load hc l
    | destroyWeak l =>
      obtain rfl := ok.inj henv
      rw [Watched.managedAfter]
      by_cases hl : l = 0
      · subst hl
        exact hc
      · rw [if_neg hl]
        exact hc.destroyWeak hl
    | copyWeak toSlot fromSlot =>
      obtain rfl := ok.inj henv
      rw [Watched.managedAfter, objcCopyWeak]
      by_cases hl : toSlot = 0 ∨ fromSlot = 0
      · rw [if_pos hl, if_pos hl]
        exact hc
      · rw [if_neg hl, if_neg hl]
        rw [not_or] at hl
        obtain ⟨hnew, hempty⟩ := (huse.resolve_left hl.1).resolve_left hl.2
        exact hc.initWeak hl.1 hnew hempty
    | moveWeak toSlot fromSlot =>
      obtain rfl := ok.inj henv
      rw [Watched.managedAfter]
      by_cases hl : toSlot = 0 ∨ fromSlot = 0
      · rw [if_pos hl, objcMoveWeak, if_pos hl]
        exact hc
      · rw [if_neg hl]
        rw [not_or] at hl
        obtain ⟨hnew, hempty, hsame⟩ := (huse.resolve_left hl.1).resolve_left hl.2
        exact hc.moveWeak hl.1 hl.2 hnew hempty hsame
  · show w.droppedAfter r nil = false
    cases r with
    | alloc ptr isa size refcount =>
      obtain ⟨_, hassert, -⟩ := bind_eq_ok.mp henv
      have hptr := (assert_eq_ok.mp hassert).1
      rw [Watched.droppedAfter, update_of_ne hptr.symm]
      exact h.nilKept
    | release object =>
      rw [Watched.droppedAfter]
      by_cases hnil : object = nil
      · subst hnil
        exact h.nilKept
      · split
        · rw [update_of_ne (Ne.symm hnil)]
          exact h.nilKept
        · exact h.nilKept
    | _ => exact h.nilKept

lemma sound_start (mem : Slot → Id) (zeroMemoryOnFree : Bool) :
    Sound (Watched.start mem zeroMemoryOnFree) :=
  ⟨⟨fun _ _ => (if_neg fun h => by cases h.1).symm, fun _ h => by cases h⟩, rfl⟩

structure ZeroingWeak (w : Watched) : Prop where
  /-- A managed slot is listed exactly once, under the object it holds. -/
  listed : ∀ l o, w.managed l = true →
    (w.env.listed o).count l = if o = w.env.mem l ∧ o ≠ nil then 1 else 0
  /-- No load answers an object whose count has dropped to zero. -/
  loads : ∀ l, Use w (.loadWeak l) → w.dropped (w.env.objcLoadWeak l).1 = false ∧
    w.dropped (w.env.objcLoadWeakRetained l).1 = false
  /-- No managed slot holds an address without an object. -/
  deallocated : ∀ l o, w.managed l = true → o ≠ nil → w.env.objects o = none → w.env.mem l ≠ o
  /-- No managed slot shows an object just allocated. -/
  allocated : ∀ ptr isa size refcount w', Use w (.alloc ptr isa size refcount) →
    w.step (.alloc ptr isa size refcount) = .ok w' → ∀ l, w'.managed l = true → w'.env.mem l ≠ ptr

lemma Sound.loads (h : Sound w) {l : Slot} (huse : Use w (.loadWeak l)) :
    w.dropped (w.env.objcLoadWeakRetained l).1 = false := by
  rw [objcLoadWeakRetained]
  by_cases hl : l = 0
  · rw [if_pos hl]
    exact h.nilKept
  rw [if_neg hl]
  dsimp only
  obtain ⟨hm, hd⟩ := huse.resolve_left hl
  split
  · exact h.nilKept
  · rename_i hnil
    have hthere := (h.coherent.there l hm).resolve_left hnil
    rw [Watched.deallocating, hthere, Bool.and_true] at hd
    exact hd

lemma Sound.zeroingWeak (h : Sound w) : ZeroingWeak w := by
  constructor
  · intro l o hl
    rw [h.coherent.listed l o]
    simp [hl, eq_comm]
  · exact fun l huse => ⟨h.loads huse, h.loads huse⟩
  · intro l o hl hnil hgone hm
    obtain hm' | hthere := h.coherent.there l hl
    · exact hnil (hm.symm.trans hm')
    · rw [hm, hgone] at hthere
      cases hthere
  · intro ptr isa size refcount w' huse hstep l hl hm
    obtain ⟨env', henv, rfl⟩ := map_eq_ok.mp hstep
    obtain ⟨_, hassert, henv⟩ := bind_eq_ok.mp henv
    obtain ⟨hnil, hfree⟩ := assert_eq_ok.mp hassert
    obtain rfl := ok.inj henv
    have hmem : w.env.mem l = ptr := by
      have hlptr : l ≠ ptr := by
        rintro rfl
        have hno := huse l (by omega) (le_refl l)
        cases hno.symm.trans hl
      dsimp only at hm
      rw [update_of_ne hlptr] at hm
      split at hm
      · exact hm
      · rwa [zeroBlock_eq (fun l hlt hle => huse l (by omega) hle) hl] at hm
    obtain hm' | hthere := h.coherent.there l hl
    · exact hnil (hmem.symm.trans hm')
    · rw [hmem, hfree] at hthere
      cases hthere

/-- Over every run of calls that are used as they are meant to be, `-dealloc` methods included. -/
theorem zeroingWeak_of_use (mem : Slot → Id) (zeroMemoryOnFree : Bool) (rs : List Request)
    (w : Watched) (huse : Along Watched.step Use (Watched.start mem zeroMemoryOnFree) rs)
    (hrun : run Watched.step (Watched.start mem zeroMemoryOnFree) rs = .ok w) : ZeroingWeak w := by
  have hsound : Sound w := run_preserves (fun _ _ _ h huse hstep => h.step huse hstep)
    (sound_start mem zeroMemoryOnFree) huse hrun
  exact hsound.zeroingWeak

theorem zeroingWeak_of_use_reused :
    ∃ w, run Watched.step (Watched.start (fun _ => 0) false)
      [.alloc 100 8 4 (some .one), .initWeak 7 100, .storeWeak 9 100, .moveWeak 8 7, .loadWeak 8,
        .release 100, .release 100, .deallocObject 100, .loadWeak 9,
        .alloc 100 8 4 (some .one)] = .ok w ∧ ZeroingWeak w := by
  have hcheck : succeedsWith (fun _ => true) (run Watched.step (Watched.start (fun _ => 0) false)
      [.alloc 100 8 4 (some .one), .initWeak 7 100, .storeWeak 9 100, .moveWeak 8 7, .loadWeak 8,
        .release 100, .release 100, .deallocObject 100, .loadWeak 9,
        .alloc 100 8 4 (some .one)]) = true := by
    decide
  obtain ⟨w, hrun, -⟩ := exists_of_succeedsWith hcheck
  exact ⟨w, hrun, zeroingWeak_of_use _ _ _ w (by decide) hrun⟩

theorem not_zeroingWeak : ¬ ∀ (mem : Slot → Id) (zeroMemoryOnFree : Bool) (rs : List Request)
    (w : Watched), run Watched.step (Watched.start mem zeroMemoryOnFree) rs = .ok w →
      ∀ l, w.managed l = true → w.dropped (w.env.objcLoadWeak l).1 = false := by
  intro h
  have hcheck : succeedsWith (fun w => w.managed 7 && w.dropped (w.env.objcLoadWeak 7).1)
      (run Watched.step (Watched.start (fun _ => 0) false)
        [.alloc 100 8 4 (some .one), .initWeak 7 100, .release 100]) = true := by
    decide
  obtain ⟨w, hrun, hw⟩ := exists_of_succeedsWith hcheck
  rw [Bool.and_eq_true] at hw
  cases hw.2.symm.trans (h _ _ _ w hrun 7 hw.1)

end

end TouchHle.Objc.Weak
