import TouchHle.Objc.Objects

/-! Zeroing weak references: the side table of slots that refer to an object, and the calls that
compiled code makes to manage them. -/

namespace TouchHle.Objc.Weak

open Lib Function

abbrev WeakRefs := Id → Option (List Slot)

structure Env where
  objects : Objects
  weakRefs : WeakRefs
  mem : Slot → Id
  zeroMemoryOnFree : Bool

def zeroBlock (mem : Slot → Id) (ptr size : ℕ) : Slot → Id :=
  fun a => if ptr ≤ a ∧ a < ptr + size then 0 else mem a

namespace Env

def registerWeak (env : Env) (target : Id) (location : Slot) : Env :=
  if target = nil then env
  else { env with
    weakRefs := update env.weakRefs target
      (some ((env.weakRefs target).getD [] ++ [location])) }

def unregisterWeak (env : Env) (target : Id) (location : Slot) : Env :=
  if target = nil then env
  else match env.weakRefs target with
    | none => env
    | some list =>
      let list := list.filter fun l => l ≠ location
      { env with
        weakRefs := update env.weakRefs target (if list = [] then none else some list) }

def writeMem (env : Env) (location : Slot) (value : Id) : Env :=
  { env with mem := update env.mem location value }

def zeroSlot (object : Id) (env : Env) (slot : Slot) : Env :=
  if env.mem slot = object then env.writeMem slot nil else env

def zeroWeakReferencesFor (env : Env) (object : Id) : Env :=
  match env.weakRefs object with
  | none => env
  | some list =>
    list.foldl (zeroSlot object)
      { env with weakRefs := update env.weakRefs object none }

def objcStoreWeak (env : Env) (location : Slot) (newObj : Id) : Env :=
  if location = 0 then env
  else
    let old := env.mem location
    let env := if old ≠ nil then env.unregisterWeak old location else env
    let env := env.writeMem location newObj
    if newObj ≠ nil then env.registerWeak newObj location else env

def objcStoreWeakOrNil (env : Env) (location : Slot) (newObj : Id) : Env :=
  env.objcStoreWeak location newObj

def objcInitWeak (env : Env) (location : Slot) (newObj : Id) : Env :=
  if location = 0 then env
  else
    let env := env.writeMem location newObj
    if newObj ≠ nil then env.registerWeak newObj location else env

def objcLoadWeakRetained (env : Env) (location : Slot) : Id × Env :=
  if location = 0 then (nil, env)
  else
    let val := env.mem location
    if val = nil then (nil, env)
    else (val, { env with objects := env.objects.incrementRefcount val })

def objcLoadWeak (env : Env) (location : Slot) : Id × Env :=
  env.objcLoadWeakRetained location

def objcDestroyWeak (env : Env) (location : Slot) : Env :=
  if location = 0 then env
  else
    let old := env.mem location
    if old ≠ nil then (env.unregisterWeak old location).writeMem location nil else env

def objcCopyWeak (env : Env) (toSlot fromSlot : Slot) : Env :=
  if toSlot = 0 ∨ fromSlot = 0 then env
  else env.objcInitWeak toSlot (env.mem fromSlot)

def objcMoveWeak (env : Env) (toSlot fromSlot : Slot) : Env :=
  if toSlot = 0 ∨ fromSlot = 0 then env
  else
    let val := env.mem fromSlot
    let env := if val ≠ nil then (env.unregisterWeak val fromSlot).registerWeak val toSlot else env
    (env.writeMem toSlot val).writeMem fromSlot nil

def allocObjectInner (env : Env) (ptr isa size : ℕ) (refcount : Option NonZeroU32) :
    Checked Env := do
  assert (ptr ≠ nil ∧ env.objects ptr = none)
  let mem := if env.zeroMemoryOnFree then env.mem else zeroBlock env.mem ptr size
  return { env with
    mem := update mem ptr isa
    objects := update env.objects ptr (some ⟨refcount, size⟩) }

def deallocObject (env : Env) (object : Id) : Env :=
  if object = nil then env
  else
    let env := env.zeroWeakReferencesFor object
    match env.objects object with
    | none => env
    | some entry =>
      { env with
        objects := update env.objects object none
        mem := if env.zeroMemoryOnFree then zeroBlock env.mem object entry.block else env.mem }

end Env

/-- What guest code asks of the runtime, from inside `-dealloc` methods too: a `release` only
drops the count, and the steps of the `-dealloc` it sends follow, up to that of
`dealloc_object`. -/
inductive Request
  | alloc (ptr isa size : ℕ) (refcount : Option NonZeroU32)
  | retain (object : Id)
  | release (object : Id)
  | deallocObject (object : Id)
  | storeWeak (location : Slot) (newObj : Id)
  | storeWeakOrNil (location : Slot) (newObj : Id)
  | initWeak (location : Slot) (newObj : Id)
  | loadWeak (location : Slot)
  | loadWeakRetained (location : Slot)
  | destroyWeak (location : Slot)
  | copyWeak (toSlot fromSlot : Slot)
  | moveWeak (toSlot fromSlot : Slot)

def Env.step (env : Env) : Request → Checked Env
  | .alloc ptr isa size refcount => env.allocObjectInner ptr isa size refcount
  | .retain object => return { env with objects := env.objects.incrementRefcount object }
  | .release object => return { env with objects := (env.objects.decrementRefcount object).2 }
  | .deallocObject object => return env.deallocObject object
  | .storeWeak location newObj => return env.objcStoreWeak location newObj
  | .storeWeakOrNil location newObj => return env.objcStoreWeakOrNil location newObj
  | .initWeak location newObj => return env.objcInitWeak location newObj
  | .loadWeak location => return (env.objcLoadWeak location).2
  | .loadWeakRetained location => return (env.objcLoadWeakRetained location).2
  | .destroyWeak location => return env.objcDestroyWeak location
  | .copyWeak toSlot fromSlot => return env.objcCopyWeak toSlot fromSlot
  | .moveWeak toSlot fromSlot => return env.objcMoveWeak toSlot fromSlot

namespace Env

variable {env : Env} {target object o : Id} {location l : Slot}

def listed (env : Env) (o : Id) : List Slot := (env.weakRefs o).getD []

@[simp] lemma listed_writeMem {value : Id} : (env.writeMem location value).listed o = env.listed o :=
  rfl

@[simp] lemma objects_writeMem {value : Id} : (env.writeMem location value).objects = env.objects :=
  rfl

@[simp] lemma mem_writeMem {value : Id} :
    (env.writeMem location value).mem = update env.mem location value := rfl

@[simp] lemma mem_registerWeak : (env.registerWeak target location).mem = env.mem := by
  rw [registerWeak]
  split <;> rfl

@[simp] lemma objects_registerWeak : (env.registerWeak target location).objects = env.objects := by
  rw [registerWeak]
  split <;> rfl

@[simp] lemma mem_unregisterWeak : (env.unregisterWeak target location).mem = env.mem := by
  rw [unregisterWeak]
  split
  · rfl
  · split <;> rfl

@[simp] lemma objects_unregisterWeak :
    (env.unregisterWeak target location).objects = env.objects := by
  rw [unregisterWeak]
  split
  · rfl
  · split <;> rfl

lemma count_registerWeak (h : target ≠ nil) :
    ((env.registerWeak target location).listed o).count l =
      (env.listed o).count l + if o = target ∧ l = location then 1 else 0 := by
  rw [registerWeak, if_neg h]
  by_cases ho : o = target
  · subst ho
    by_cases hl : l = location
    · subst hl
      simp [listed]
    · have hl' : location ≠ l := Ne.symm hl
      simp [listed, hl, hl']
  · simp [listed, ho]

lemma count_unregisterWeak (h : target ≠ nil) :
    ((env.unregisterWeak target location).listed o).count l =
      if o = target ∧ l = location then 0 else (env.listed o).count l := by
  rw [unregisterWeak, if_neg h]
  cases hlist : env.weakRefs target with
  | none =>
    change (env.listed o).count l = _
    by_cases hol : o = target ∧ l = location
    · obtain ⟨rfl, rfl⟩ := hol
      rw [if_pos ⟨rfl, rfl⟩, listed, hlist]
      rfl
    · rw [if_neg hol]
  | some list =>
    dsimp only
    by_cases ho : o = target
    · subst ho
      have hcount : (list.filter fun l => l ≠ location).count l =
          if l = location then 0 else list.count l := by
        by_cases hl : l = location
        · subst hl
          rw [if_pos rfl, List.count_eq_zero]
          simp
        · rw [if_neg hl, List.count_filter (by simpa using hl)]
      have hlisted : ((if (list.filter fun l => l ≠ location) = [] then none
          else some (list.filter fun l => l ≠ location)).getD []) =
          list.filter fun l => l ≠ location := by
        split
        · rename_i hnil
          exact hnil.symm
        · rfl
      have hself : env.listed o = list := by rw [listed, hlist, Option.getD_some]
      rw [listed, hself]
      dsimp only
      rw [update_self, hlisted, hcount]
      simp
    · simp [listed, ho]

lemma foldl_zeroSlot (hnil : object ≠ nil) (list : List Slot) (env : Env) :
    list.foldl (zeroSlot object) env =
      { env with mem := fun a => if a ∈ list ∧ env.mem a = object then nil else env.mem a } := by
  induction list generalizing env with
  | nil => simp
  | cons slot list ih =>
    rw [List.foldl_cons, ih, zeroSlot]
    by_cases hslot : env.mem slot = object
    · rw [if_pos hslot]
      simp only [writeMem, Env.mk.injEq, true_and, and_true]
      funext a
      by_cases ha : a = slot
      · subst ha
        simp [hslot, hnil.symm]
      · simp [ha]
    · rw [if_neg hslot]
      simp only [Env.mk.injEq, true_and, and_true]
      funext a
      by_cases ha : a = slot
      · subst ha
        simp [hslot]
      · simp [ha]

lemma zeroWeakReferencesFor_eq (hnil : object ≠ nil) : env.zeroWeakReferencesFor object =
    { env with
      weakRefs := update env.weakRefs object none
      mem := fun a => if a ∈ env.listed object ∧ env.mem a = object then nil else env.mem a } := by
  rw [zeroWeakReferencesFor]
  cases hlist : env.weakRefs object with
  | none =>
    dsimp only
    have hsame : update env.weakRefs object none = env.weakRefs := by
      rw [← hlist, update_eq_self]
    simp [hsame, listed, hlist]
  | some list =>
    dsimp only
    rw [foldl_zeroSlot hnil]
    simp [listed, hlist]

end Env

end TouchHle.Objc.Weak
