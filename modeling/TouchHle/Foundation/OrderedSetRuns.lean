import TouchHle.Foundation.OrderedSet

namespace TouchHle.Foundation

open Lib List Except

structure ObjectEquality (α : Type) where
  isEqual : α → α → Bool
  refl : ∀ a, isEqual a a = true
  symm : ∀ a b, isEqual a b = true → isEqual b a = true
  trans : ∀ a b c, isEqual a b = true → isEqual b c = true → isEqual a c = true

variable {α : Type} (E : ObjectEquality α)

namespace Sequences

variable (l : List α)

def member (o : α) : Bool := l.any (E.isEqual · o)

def add (o : α) : List α := if member E l o then l else l ++ [o]

def insert (o : α) (i : ℕ) : List α :=
  if member E l o then l else if i ≤ l.length then l.insertIdx i o else l

def remove (o : α) : List α := l.filter fun x => !E.isEqual x o

def replace (i : ℕ) (o : α) : List α :=
  if i < l.length ∧ member E (l.eraseIdx i) o = false then l.set i o else l

def exchange (i j : ℕ) : List α :=
  if h : i < l.length ∧ j < l.length then
    (l.set i (l.get ⟨j, h.2⟩)).set j (l.get ⟨i, h.1⟩)
  else l

def result (contents : ℕ → List α) (this : ℕ) : OrderedSetCommand α → List α
  | .addObject object => object.elim (contents this) (add E (contents this))
  | .addObjectsFromArray objects => (objects.getD []).foldl (add E) (contents this)
  | .insertObjectAtIndex object index =>
    object.elim (contents this) fun o => insert E (contents this) o index
  | .removeObject object => object.elim (contents this) (remove E (contents this))
  | .removeObjectAtIndex index => (contents this).eraseIdx index
  | .removeAllObjects => []
  | .replaceObjectAtIndex index object =>
    object.elim (contents this) (replace E (contents this) index)
  | .setObjectAtIndex object index =>
    object.elim (contents this) fun o =>
      if index = (contents this).length then add E (contents this) o
      else replace E (contents this) index o
  | .exchangeObjectAtIndex index₁ index₂ => exchange (contents this) index₁ index₂
  | .unionOrderedSet other => (other.elim [] contents).foldl (add E) (contents this)
  | .unionSet other => (other.elim [] (·.allObjects)).foldl (add E) (contents this)
  | .minusOrderedSet other => (contents this).filter fun x => !member E (other.elim [] contents) x
  | .minusSet other =>
    (contents this).filter fun x => !member E (other.elim [] (·.allObjects)) x
  | .intersectOrderedSet other =>
    (contents this).filter fun x => member E (other.elim [] contents) x
  | .intersectSet other => (contents this).filter fun x => other.any (·.containsObject x)

def step (contents : ℕ → List α) (this : ℕ) (command : OrderedSetCommand α) : ℕ → List α :=
  Function.update contents this (result E contents this command)

def run (contents : ℕ → List α) : List (ℕ × OrderedSetCommand α) → List (ℕ → List α)
  | [] => []
  | (this, command) :: commands =>
    step E contents this command :: run (step E contents this command) commands

variable {E} {l} {o a : α} {i : ℕ}

lemma not_member_iff : member E l o = false ↔ ∀ a ∈ l, E.isEqual a o = false := by
  simp [member]

lemma unique_symm : Std.Symm fun a b : α => E.isEqual a b = false := by
  refine ⟨fun a b h => ?_⟩
  by_contra hb
  rw [E.symm b a (Bool.eq_true_of_not_eq_false hb)] at h
  cases h

lemma eraseIdx_eq_remove (h : l.Pairwise fun a b => E.isEqual a b = false) (hi : i < l.length)
    (ho : E.isEqual l[i] o = true) : l.eraseIdx i = remove E l o := by
  have hsplit : l.take i ++ l[i] :: l.drop (i + 1) = l := by simp
  have hothers : ∀ x, E.isEqual x o = true → E.isEqual x l[i] = true :=
    fun x hx => E.trans _ _ _ hx (E.symm _ _ ho)
  have hpair := h
  rw [← hsplit, pairwise_append, pairwise_cons] at hpair
  obtain ⟨-, ⟨hafter, -⟩, hbefore⟩ := hpair
  have hsymm : Std.Symm fun a b : α => E.isEqual a b = false := unique_symm
  have htake : (l.take i).filter (fun x => !E.isEqual x o) = l.take i := by
    refine filter_eq_self.mpr fun x hx => ?_
    by_contra hequal
    have hx' := hbefore x hx l[i] mem_cons_self
    rw [hothers x (by simpa using hequal)] at hx'
    cases hx'
  have hdrop : (l.drop (i + 1)).filter (fun x => !E.isEqual x o) = l.drop (i + 1) := by
    refine filter_eq_self.mpr fun x hx => ?_
    by_contra hequal
    have hx' := hsymm.symm _ _ (hafter x hx)
    rw [hothers x (by simpa using hequal)] at hx'
    cases hx'
  have hfilter := congrArg (List.filter fun x => !E.isEqual x o) hsplit
  rw [filter_append, filter_cons, ho, htake, hdrop] at hfilter
  rw [eraseIdx_eq_take_drop_succ]
  exact hfilter

lemma remove_of_not_member (h : member E l o = false) : remove E l o = l :=
  filter_eq_self.mpr fun x hx => by simp [not_member_iff.mp h x hx]

lemma foldl_remove (objects l : List α) : objects.foldl (remove E) l =
    l.filter fun x => !member E objects x := by
  induction objects generalizing l with
  | nil => simp [member]
  | cons o objects ih =>
    rw [foldl_cons, ih, remove, filter_filter]
    refine filter_congr fun x _ => ?_
    have hsymm : E.isEqual o x = E.isEqual x o := Bool.eq_iff_iff.mpr ⟨E.symm o x, E.symm x o⟩
    simp [member, hsymm, Bool.and_comm]

lemma foldl_add_of_member (objects : List α)
    (h : ∀ o ∈ objects, member E l o = true) : objects.foldl (add E) l = l := by
  induction objects with
  | nil => rfl
  | cons o objects ih =>
    rw [foldl_cons, add, if_pos (h o mem_cons_self)]
    exact ih fun o ho => h o (mem_cons_of_mem _ ho)

lemma foldl_eraseIdx_head (indices : List ℕ) (hpos : ∀ i ∈ indices, 0 < i) (a : α) (l : List α) :
    (indices.foldl List.eraseIdx (a :: l)).head? = some a := by
  induction indices generalizing l with
  | nil => rfl
  | cons i indices ih =>
    obtain ⟨k, rfl⟩ : ∃ k, i = k + 1 :=
      ⟨i - 1, (Nat.succ_pred_eq_of_pos (hpos i mem_cons_self)).symm⟩
    rw [foldl_cons, eraseIdx_cons_succ]
    exact ih (fun i hi => hpos i (mem_cons_of_mem _ hi)) _

lemma foldl_eraseIdx_eq_nil_iff (l : List α) :
    (List.range l.length).foldl List.eraseIdx l = [] ↔ l.length ≤ 1 := by
  cases l with
  | nil => simp
  | cons a l =>
    cases l with
    | nil => simp
    | cons b l =>
      have hhead : ((List.range (a :: b :: l).length).foldl List.eraseIdx (a :: b :: l)).head? =
          some b := by
        rw [length_cons, range_succ_eq_map, foldl_cons, eraseIdx_cons_zero]
        refine foldl_eraseIdx_head _ (fun i hi => ?_) b l
        obtain ⟨k, -, rfl⟩ := mem_map.mp hi
        exact Nat.succ_pos k
      constructor
      · intro h
        rw [h] at hhead
        cases hhead
      · intro h
        simp at h

end Sequences

open Sequences (not_member_iff unique_symm eraseIdx_eq_remove remove_of_not_member foldl_remove
  foldl_add_of_member foldl_eraseIdx_eq_nil_iff)

section

lemma map_range_getElem? {γ : Type} (items : List γ) :
    (List.range items.length).map (items[·]?) = items.map some := by
  refine ext_getElem (by simp) fun i hi _ => ?_
  have hlt : i < items.length := by simpa using hi
  simp [hlt]

lemma range_foldlM_getElem? {β γ : Type} (f : β → Option γ → Checked β) (items : List γ) (b : β) :
    (List.range items.length).foldlM (fun b i => f b items[i]?) b =
      items.foldlM (fun b c => f b (some c)) b := by
  have hleft : (List.range items.length).foldlM (fun b i => f b items[i]?) b =
      ((List.range items.length).map (items[·]?)).foldlM f b := by rw [foldlM_map]
  rw [hleft, map_range_getElem?, foldlM_map]

lemma range_foldl_getElem? {β γ : Type} (f : β → Option γ → β) (items : List γ) (b : β) :
    (List.range items.length).foldl (fun b i => f b items[i]?) b =
      items.foldl (fun b c => f b (some c)) b := by
  have hleft : (List.range items.length).foldl (fun b i => f b items[i]?) b =
      ((List.range items.length).map (items[·]?)).foldl f b := by rw [foldl_map]
  rw [hleft, map_range_getElem?, foldl_map]

end

variable [DecidableEq α]

structure OrderedSetHostObject.Good (host : OrderedSetHostObject α) : Prop where
  unique : host.array.Pairwise fun a b => E.isEqual a b = false
  owned : ∀ a, host.retained a = host.array.count a

namespace OrderedSets

def contents (sets : OrderedSets α) (k : ℕ) : List α := (sets k).array

def Served (sets : OrderedSets α) (this : ℕ) (command : OrderedSetCommand α) : Prop :=
  command = .minusOrderedSet (some this) → (sets this).array.length ≤ 1

def ServedRun (sets : OrderedSets α) : List (ℕ × OrderedSetCommand α) → Prop
  | [] => True
  | (this, command) :: commands => Served sets this command ∧
    ∀ sets', sets.step E.isEqual this command = .ok sets' → ServedRun sets' commands

def RunsRight (sets : OrderedSets α) (commands : List (ℕ × OrderedSetCommand α)) : Prop :=
  ∃ states, sets.run E.isEqual commands = .ok states ∧
    (∀ s ∈ states, ∀ k, (s k).Good E) ∧
    states.map contents = Sequences.run E sets.contents commands

end OrderedSets

namespace OrderedSetHostObject

variable {E} {host : OrderedSetHostObject α} {l l' : List α} {o a : α} {i j : ℕ}

def Leaves (E : ObjectEquality α) (r : Checked (OrderedSetHostObject α)) (l : List α) : Prop :=
  ∃ host, r = .ok host ∧ host.Good E ∧ host.array = l

lemma Good.leaves (h : host.Good E) : Leaves E (.ok host) host.array := ⟨host, rfl, h, rfl⟩

lemma indexOf_some (o : α) :
    host.indexOf E.isEqual (some o) = host.array.findIdx? (E.isEqual · o) := by
  have hp : (fun c => c == o || E.isEqual c o) = (E.isEqual · o) := by
    funext c
    by_cases hc : c = o
    · simp [hc, E.refl]
    · simp [hc]
  rw [indexOf, hp]

lemma indexOf_isSome :
    (host.indexOf E.isEqual (some o)).isSome = Sequences.member E host.array o := by
  rw [indexOf_some, Sequences.member, findIdx?_isSome]

lemma indexOf_isNone :
    (host.indexOf E.isEqual (some o)).isNone = !Sequences.member E host.array o := by
  rw [← indexOf_isSome, Option.not_isSome]

lemma indexOf_eq_some (h : host.indexOf E.isEqual (some o) = some i) :
    ∃ hi : i < host.array.length, E.isEqual host.array[i] o = true := by
  rw [indexOf_some, findIdx?_eq_some_iff_getElem] at h
  obtain ⟨hi, hequal, -⟩ := h
  exact ⟨hi, hequal⟩

lemma retain_apply (host : OrderedSetHostObject α) (o a : α) :
    (host.retain o).retained a = host.retained a + if o = a then 1 else 0 := by
  unfold retain
  by_cases h : o = a
  · subst h
    simp
  · simp [h, Function.update_of_ne (Ne.symm h)]

lemma release_apply (host : OrderedSetHostObject α) (o a : α) :
    (host.release o).retained a = host.retained a - if o = a then 1 else 0 := by
  unfold release
  by_cases h : o = a
  · subst h
    simp
  · simp [h, Function.update_of_ne (Ne.symm h)]

lemma count_cons_int (o a : α) (l : List α) :
    ((o :: l).count a : ℤ) = l.count a + if o = a then 1 else 0 := by
  rw [count_cons]
  by_cases h : o = a
  · simp [h]
  · simp [h]

lemma Good.inserted (h : host.Good E) (ho : Sequences.member E host.array o = false)
    (hperm : l.Perm (o :: host.array)) : Good E { host.retain o with array := l } := by
  have hsymm : Std.Symm fun a b : α => E.isEqual a b = false := unique_symm
  refine ⟨(hperm.pairwise_iff fun h => hsymm.symm _ _ h).mpr (pairwise_cons.mpr ⟨fun a ha => ?_, h.unique⟩),
    fun a => ?_⟩
  · exact hsymm.symm _ _ (not_member_iff.mp ho a ha)
  · change (host.retain o).retained a = (l.count a : ℤ)
    rw [retain_apply, h.owned, hperm.count_eq, count_cons_int]

lemma Good.removed (h : host.Good E) (hperm : host.array.Perm (o :: l)) (hsub : l.Sublist host.array) :
    Good E { host.release o with array := l } := by
  refine ⟨h.unique.sublist hsub, fun a => ?_⟩
  change (host.release o).retained a = (l.count a : ℤ)
  rw [release_apply, h.owned, hperm.count_eq, count_cons_int]
  omega

lemma appendUnique_array (h : host.Good E) (o : α) :
    (host.appendUnique E.isEqual (some o)).Good E ∧
      (host.appendUnique E.isEqual (some o)).array = Sequences.add E host.array o := by
  unfold appendUnique Sequences.add
  rw [Option.elim_some, indexOf_isNone]
  cases hm : Sequences.member E host.array o with
  | true => exact ⟨h, rfl⟩
  | false => exact ⟨h.inserted hm (perm_append_singleton o host.array), rfl⟩

lemma removeAt_leaves (h : host.Good E) (hi : i < host.array.length) :
    Leaves E (host.removeAt i) (host.array.eraseIdx i) := by
  unfold removeAt
  rw [Vec.remove_ok hi, ok_bind]
  have hperm := (getElem_cons_eraseIdx_perm hi).symm
  exact ⟨_, rfl, h.removed hperm (eraseIdx_sublist _ _), rfl⟩

lemma removeObject_leaves (h : host.Good E) (o : α) :
    Leaves E (host.removeObject E.isEqual (some o)) (Sequences.remove E host.array o) := by
  unfold removeObject
  cases hi : host.indexOf E.isEqual (some o) with
  | none =>
    have hm : Sequences.member E host.array o = false := by rw [← indexOf_isSome, hi]; rfl
    rw [remove_of_not_member hm]
    exact h.leaves
  | some i =>
    obtain ⟨hlt, ho⟩ := indexOf_eq_some hi
    rw [← eraseIdx_eq_remove h.unique hlt ho]
    exact removeAt_leaves h hlt

lemma insertObjectAtIndex_leaves (h : host.Good E) (o : α) (index : ℕ) :
    Leaves E (host.insertObjectAtIndex E.isEqual (some o) index)
      (Sequences.insert E host.array o index) := by
  unfold insertObjectAtIndex Sequences.insert
  rw [Option.elim_some, indexOf_isSome]
  cases hm : Sequences.member E host.array o with
  | true => exact h.leaves
  | false =>
    by_cases hlen : host.array.length < index
    · rw [if_neg Bool.false_ne_true, if_pos hlen, if_neg Bool.false_ne_true, if_neg (by omega)]
      exact h.leaves
    · have hle : index ≤ host.array.length := by omega
      rw [if_neg Bool.false_ne_true, if_neg hlen, if_neg Bool.false_ne_true, if_pos hle,
        Vec.insert_ok hle, ok_bind]
      exact ⟨_, rfl, h.inserted hm (perm_insertIdx o host.array hle), rfl⟩

lemma removeObjectAtIndex_leaves (h : host.Good E) (index : ℕ) :
    Leaves E (host.removeObjectAtIndex index) (host.array.eraseIdx index) := by
  unfold removeObjectAtIndex
  split_ifs with hlen
  · rw [eraseIdx_of_length_le hlen]
    exact h.leaves
  · exact removeAt_leaves h (by omega)

lemma Good.exchanged (h : host.Good E) (hperm : l.Perm host.array) :
    Good E { host with array := l } := by
  have hsymm : Std.Symm fun a b : α => E.isEqual a b = false := unique_symm
  refine ⟨(hperm.pairwise_iff fun h => hsymm.symm _ _ h).mpr h.unique, fun a => ?_⟩
  rw [h.owned, hperm.count_eq]

lemma exchangeObjectAtIndex_leaves (h : host.Good E) (i j : ℕ) :
    Leaves E (host.exchangeObjectAtIndex i j) (Sequences.exchange host.array i j) := by
  unfold exchangeObjectAtIndex Sequences.exchange
  by_cases hin : i < host.array.length ∧ j < host.array.length
  · rw [if_neg (by omega), dif_pos hin, Vec.swap_ok hin.1 hin.2, ok_bind]
    exact ⟨_, rfl, h.exchanged (set_set_perm hin.1 hin.2), rfl⟩
  · rw [if_pos (by omega), dif_neg hin]
    exact h.leaves

lemma foldl_release (l : List α) (host : OrderedSetHostObject α) :
    (l.foldl release host).array = host.array ∧
      ∀ a, (l.foldl release host).retained a = host.retained a - l.count a := by
  induction l generalizing host with
  | nil => simp
  | cons o l ih =>
    obtain ⟨harray, hretained⟩ := ih (host.release o)
    refine ⟨harray, fun a => ?_⟩
    rw [foldl_cons, hretained, release_apply, count_cons_int]
    ring

lemma removeAllObjects_leaves (h : host.Good E) : Leaves E (.ok host.removeAllObjects) [] := by
  obtain ⟨harray, hretained⟩ := foldl_release host.array { host with array := [] }
  refine ⟨_, rfl, ⟨?_, fun a => ?_⟩, harray⟩
  · rw [removeAllObjects, harray]
    exact .nil
  · rw [removeAllObjects, hretained, harray, h.owned]
    simp

lemma indexOf_any_ne (h : host.Good E) (hi : i < host.array.length) :
    (host.indexOf E.isEqual (some o)).any (· ≠ i) = Sequences.member E (host.array.eraseIdx i) o := by
  have hperm := getElem_cons_eraseIdx_perm hi
  have hmember : Sequences.member E host.array o =
      (E.isEqual host.array[i] o || Sequences.member E (host.array.eraseIdx i) o) :=
    (hperm.any_eq (f := (E.isEqual · o))).symm
  cases hk : host.indexOf E.isEqual (some o) with
  | none =>
    rw [← indexOf_isSome, hk] at hmember
    rw [(Bool.or_eq_false_iff.mp hmember.symm).2]
    rfl
  | some k =>
    obtain ⟨hlt, hequal⟩ := indexOf_eq_some hk
    by_cases hki : k = i
    · subst hki
      have hrest : Sequences.member E (host.array.eraseIdx k) o = false := by
        rw [eraseIdx_eq_remove h.unique hlt hequal, not_member_iff]
        intro a ha
        simpa [Sequences.remove] using (mem_filter.mp ha).2
      rw [hrest]
      simp
    · have hmem : host.array[k] ∈ host.array.eraseIdx i :=
        mem_eraseIdx_iff_getElem.mpr ⟨k, hlt, hki, rfl⟩
      have hrest : Sequences.member E (host.array.eraseIdx i) o = true :=
        any_eq_true.mpr ⟨_, hmem, hequal⟩
      rw [hrest]
      simp [hki]

lemma Good.replaced (h : host.Good E) (hi : i < host.array.length)
    (ho : Sequences.member E (host.array.eraseIdx i) o = false) :
    Good E { (host.retain o).release host.array[i] with array := host.array.set i o } := by
  have hset : (host.array.set i o).Perm (o :: host.array.eraseIdx i) := Vec.set_perm hi
  have herased := (getElem_cons_eraseIdx_perm hi).symm
  have hsymm : Std.Symm fun a b : α => E.isEqual a b = false := unique_symm
  have hrest := h.unique.sublist (eraseIdx_sublist host.array i)
  refine ⟨(hset.pairwise_iff fun h => hsymm.symm _ _ h).mpr
    (pairwise_cons.mpr ⟨fun a ha => hsymm.symm _ _ (not_member_iff.mp ho a ha), hrest⟩),
    fun a => ?_⟩
  change ((host.retain o).release host.array[i]).retained a = ((host.array.set i o).count a : ℤ)
  rw [release_apply, retain_apply, h.owned, herased.count_eq, hset.count_eq, count_cons_int,
    count_cons_int]
  ring

lemma replaceObjectAtIndex_leaves (h : host.Good E) (index : ℕ) (o : α) :
    Leaves E (host.replaceObjectAtIndex E.isEqual index (some o))
      (Sequences.replace E host.array index o) := by
  unfold replaceObjectAtIndex Sequences.replace
  rw [Option.elim_some]
  by_cases hlen : host.array.length ≤ index
  · rw [if_pos hlen, if_neg (by omega)]
    exact h.leaves
  · have hi : index < host.array.length := by omega
    rw [if_neg hlen, indexOf_any_ne h hi]
    cases hm : Sequences.member E (host.array.eraseIdx index) o with
    | true =>
      rw [if_pos rfl, if_neg fun hboth => Bool.noConfusion hboth.2]
      exact h.leaves
    | false =>
      rw [if_neg Bool.false_ne_true, if_pos ⟨hi, rfl⟩, Vec.replace_ok hi, ok_bind]
      exact ⟨_, rfl, h.replaced hi hm, rfl⟩

lemma foldlM_leaves {f : OrderedSetHostObject α → α → Checked (OrderedSetHostObject α)}
    {g : List α → α → List α}
    (hf : ∀ host : OrderedSetHostObject α, host.Good E → ∀ o, Leaves E (f host o) (g host.array o))
    (objects : List α) (h : host.Good E) :
    Leaves E (objects.foldlM f host) (objects.foldl g host.array) := by
  induction objects generalizing host with
  | nil => exact h.leaves
  | cons o objects ih =>
    obtain ⟨host', hok, hgood, harray⟩ := hf host h o
    rw [foldlM_cons, hok, ok_bind, foldl_cons, ← harray]
    exact ih hgood

lemma addObjects_leaves (objects : List α) (h : host.Good E) :
    Leaves E (.ok (objects.foldl (fun host o => host.appendUnique E.isEqual (some o)) host))
      (objects.foldl (Sequences.add E) host.array) := by
  induction objects generalizing host with
  | nil => exact h.leaves
  | cons o objects ih =>
    obtain ⟨hgood, harray⟩ := appendUnique_array h o
    rw [foldl_cons, foldl_cons, ← harray]
    exact ih hgood

lemma minus_leaves (objects : List α) (h : host.Good E) :
    Leaves E (objects.foldlM (fun host o => host.removeObject E.isEqual (some o)) host)
      (host.array.filter fun x => !Sequences.member E objects x) := by
  rw [← foldl_remove]
  exact foldlM_leaves (fun host h o => removeObject_leaves h o) objects h

lemma intersect_leaves (keep : α → Bool) (objects kept : List α) (h : host.Good E)
    (harray : host.array = kept ++ objects) :
    Leaves E (objects.foldlM
      (fun host o => if keep o then .ok host else host.removeObject E.isEqual (some o)) host)
      (kept ++ objects.filter keep) := by
  induction objects generalizing host kept with
  | nil =>
    rw [filter_nil, ← harray]
    exact h.leaves
  | cons o objects ih =>
    rw [foldlM_cons, filter_cons]
    by_cases hkeep : keep o = true
    · rw [if_pos hkeep, if_pos hkeep, ok_bind, append_cons]
      exact ih _ h (by rw [harray, append_cons])
    · rw [if_neg hkeep, if_neg hkeep]
      have hlen : kept.length < host.array.length := by rw [harray]; simp
      have hat : host.array[kept.length] = o := by simp [harray]
      have hgone := eraseIdx_eq_remove (o := o) h.unique hlen (by rw [hat]; exact E.refl o)
      obtain ⟨host', hok, hgood, harray'⟩ := removeObject_leaves h o
      rw [hok, ok_bind]
      refine ih kept hgood ?_
      rw [harray', ← hgone, harray, eraseIdx_append_of_length_le le_rfl, Nat.sub_self]
      rfl

end OrderedSetHostObject

namespace OrderedSets

open OrderedSetHostObject

variable {E} {sets : OrderedSets α} {this other : ℕ} {l : List α} {command : OrderedSetCommand α}
  {method : OrderedSetHostObject α → Checked (OrderedSetHostObject α)}

def LeavesAt (E : ObjectEquality α) (sets : OrderedSets α) (this : ℕ)
    (r : Checked (OrderedSets α)) (l : List α) : Prop :=
  ∃ host, r = .ok (Function.update sets this host) ∧ host.Good E ∧ host.array = l

lemma update_leaves (h : Leaves E (method (sets this)) l) :
    LeavesAt E sets this (update sets this method) l := by
  obtain ⟨host, hok, hgood, harray⟩ := h
  refine ⟨host, ?_, hgood, harray⟩
  rw [update, hok, ok_bind]
  rfl

omit [DecidableEq α] in
lemma update_updated (host : OrderedSetHostObject α) :
    update (Function.update sets this host) this method =
      (do return Function.update sets this (← method host)) := by
  unfold update
  simp only [Function.update_self, Function.update_idem]

lemma leavesAt_self (h : (sets this).Good E) :
    LeavesAt E sets this (.ok sets) (sets this).array :=
  ⟨sets this, by rw [Function.update_eq_self], h, rfl⟩

omit [DecidableEq α] in
lemma foldlM_update {β : Type} {f : OrderedSets α → β → Checked (OrderedSets α)}
    {g : OrderedSetHostObject α → β → Checked (OrderedSetHostObject α)}
    (hf : ∀ host b, f (Function.update sets this host) b =
      (do return Function.update sets this (← g host b)))
    (items : List β) (host : OrderedSetHostObject α) :
    items.foldlM f (Function.update sets this host) =
      (do return Function.update sets this (← items.foldlM g host)) := by
  induction items generalizing host with
  | nil => rfl
  | cons b items ih =>
    rw [foldlM_cons, foldlM_cons, hf]
    cases g host b with
    | error e => rfl
    | ok host' =>
      rw [ok_bind, ok_bind]
      exact ih host'

lemma foldlM_leavesAt {β : Type} {f : OrderedSets α → β → Checked (OrderedSets α)}
    {g : OrderedSetHostObject α → β → Checked (OrderedSetHostObject α)}
    (hf : ∀ host b, f (Function.update sets this host) b =
      (do return Function.update sets this (← g host b)))
    (items : List β) (h : Leaves E (items.foldlM g (sets this)) l) :
    LeavesAt E sets this (items.foldlM f sets) l := by
  obtain ⟨host, hok, hgood, harray⟩ := h
  refine ⟨host, ?_, hgood, harray⟩
  have hloop := foldlM_update hf items (sets this)
  rw [Function.update_eq_self, hok, ok_bind] at hloop
  exact hloop

lemma minusOrderedSet_leaves (h : (sets this).Good E) (hne : other ≠ this) :
    LeavesAt E sets this (sets.minusOrderedSet E.isEqual this (some other))
      ((sets this).array.filter fun x => !Sequences.member E (sets other).array x) := by
  refine foldlM_leavesAt
    (g := fun host i => host.removeObject E.isEqual ((sets other).objectAtIndex i))
    (fun host i => ?_) _ ?_
  · rw [update_updated, Function.update_of_ne hne]
  · have hloop := range_foldlM_getElem? (fun host o => removeObject host E.isEqual o)
      (sets other).array (sets this)
    unfold objectAtIndex
    rw [hloop]
    exact minus_leaves _ h

lemma removeObject_own_leaves {host : OrderedSetHostObject α} (h : host.Good E) (i : ℕ) :
    Leaves E (host.removeObject E.isEqual (host.objectAtIndex i)) (host.array.eraseIdx i) := by
  unfold objectAtIndex
  by_cases hi : i < host.array.length
  · rw [getElem?_eq_getElem hi, eraseIdx_eq_remove h.unique hi (E.refl _)]
    exact removeObject_leaves h _
  · rw [getElem?_eq_none (by omega), eraseIdx_of_length_le (by omega)]
    exact h.leaves

lemma minusOrderedSet_self_leaves (h : (sets this).Good E) :
    LeavesAt E sets this (sets.minusOrderedSet E.isEqual this (some this))
      ((List.range (sets this).array.length).foldl List.eraseIdx (sets this).array) := by
  refine foldlM_leavesAt (g := fun host i => host.removeObject E.isEqual (host.objectAtIndex i))
    (fun host i => ?_) _ ?_
  · rw [update_updated, Function.update_self]
  · generalize List.range (sets this).array.length = indices
    generalize sets this = host at h
    induction indices generalizing host with
    | nil => exact h.leaves
    | cons i indices ih =>
      obtain ⟨host', hok, hgood, harray⟩ := removeObject_own_leaves h i
      rw [foldlM_cons, hok, ok_bind, foldl_cons, ← harray]
      exact ih host' hgood

lemma unionOrderedSet_leaves (h : (sets this).Good E) (hne : other ≠ this) :
    LeavesAt E sets this (.ok (sets.unionOrderedSet E.isEqual this (some other)))
      ((sets other).array.foldl (Sequences.add E) (sets this).array) := by
  obtain ⟨host, hok, hgood, harray⟩ := addObjects_leaves (sets other).array h
  refine ⟨host, ?_, hgood, harray⟩
  have hround : ∀ (indices : List ℕ) (host : OrderedSetHostObject α),
      indices.foldl (fun sets i => Function.update sets this
        ((sets this).appendUnique E.isEqual ((sets other).objectAtIndex i)))
        (Function.update sets this host) = Function.update sets this
        (indices.foldl (fun host i => host.appendUnique E.isEqual ((sets other).objectAtIndex i))
          host) := by
    intro indices
    induction indices with
    | nil => exact fun _ => rfl
    | cons i indices ih =>
      intro host
      rw [foldl_cons, foldl_cons, Function.update_self, Function.update_of_ne hne,
        Function.update_idem, ih]
  have hloop := range_foldl_getElem? (fun host o => appendUnique host E.isEqual o)
    (sets other).array (sets this)
  have hunion := hround (List.range (sets other).array.length) (sets this)
  rw [Function.update_eq_self] at hunion
  rw [unionOrderedSet, Option.elim_some, hunion]
  unfold objectAtIndex
  rw [hloop]
  exact congrArg (fun host => Except.ok (Function.update sets this host)) (ok.inj hok)

lemma appendUnique_own {host : OrderedSetHostObject α} (i : ℕ) :
    host.appendUnique E.isEqual (host.objectAtIndex i) = host := by
  unfold objectAtIndex
  cases hi : host.array[i]? with
  | none => rfl
  | some o =>
    have hmem : Sequences.member E host.array o = true :=
      any_eq_true.mpr ⟨o, mem_of_getElem? hi, E.refl o⟩
    rw [appendUnique, Option.elim_some, indexOf_isNone, hmem]
    rfl

lemma unionOrderedSet_self_leaves (h : (sets this).Good E) :
    LeavesAt E sets this (.ok (sets.unionOrderedSet E.isEqual this (some this)))
      ((sets this).array.foldl (Sequences.add E) (sets this).array) := by
  have hround : ∀ indices : List ℕ, indices.foldl (fun sets i => Function.update sets this
      ((sets this).appendUnique E.isEqual ((sets this).objectAtIndex i))) sets = sets := by
    intro indices
    induction indices with
    | nil => rfl
    | cons i indices ih => rw [foldl_cons, appendUnique_own, Function.update_eq_self, ih]
  have hmember : ∀ o ∈ (sets this).array, Sequences.member E (sets this).array o = true :=
    fun o ho => any_eq_true.mpr ⟨o, ho, E.refl o⟩
  rw [unionOrderedSet, Option.elim_some, hround, foldl_add_of_member _ hmember]
  exact leavesAt_self h

lemma intersectOrderedSet_leaves (h : (sets this).Good E) (hne : other ≠ this) :
    LeavesAt E sets this (sets.intersectOrderedSet E.isEqual this (some other))
      ((sets this).array.filter fun x => Sequences.member E (sets other).array x) := by
  refine foldlM_leavesAt (g := fun host o =>
    if (sets other).containsObject E.isEqual o then .ok host
    else host.removeObject E.isEqual (some o)) (fun host o => ?_) _ ?_
  · rw [Option.any_some, Function.update_of_ne hne]
    split_ifs
    · rfl
    · exact update_updated host
  · have hkeep : (fun x => Sequences.member E (sets other).array x) =
        fun x => (sets other).containsObject E.isEqual x := by
      funext x
      exact indexOf_isSome.symm
    rw [hkeep]
    exact intersect_leaves _ _ [] h rfl

lemma intersectOrderedSet_self_leaves (h : (sets this).Good E) :
    LeavesAt E sets this (sets.intersectOrderedSet E.isEqual this (some this))
      ((sets this).array.filter fun x => Sequences.member E (sets this).array x) := by
  have hmember : ∀ o ∈ (sets this).array, Sequences.member E (sets this).array o = true :=
    fun o ho => any_eq_true.mpr ⟨o, ho, E.refl o⟩
  have hround : ∀ objects : List α, (∀ o ∈ objects, o ∈ (sets this).array) →
      objects.foldlM (fun sets o =>
        if (some this).any fun other => (sets other).containsObject E.isEqual o then
          (.ok sets : Checked (OrderedSets α))
        else update sets this (·.removeObject E.isEqual (some o))) sets = .ok sets := by
    intro objects hobjects
    induction objects with
    | nil => rfl
    | cons o objects ih =>
      have hcontains : (sets this).containsObject E.isEqual o = true :=
        indexOf_isSome.trans (hmember o (hobjects o mem_cons_self))
      rw [foldlM_cons, Option.any_some, if_pos hcontains, ok_bind]
      exact ih fun o ho => hobjects o (mem_cons_of_mem _ ho)
  rw [intersectOrderedSet, hround _ fun _ ho => ho, filter_eq_self.mpr hmember]
  exact leavesAt_self h

lemma intersectOrderedSet_nil_leaves (h : (sets this).Good E) :
    LeavesAt E sets this (sets.intersectOrderedSet E.isEqual this none) [] := by
  have hloop := intersect_leaves (fun _ => false) (sets this).array [] h rfl
  rw [nil_append, filter_eq_nil_iff.mpr fun _ _ => Bool.false_ne_true] at hloop
  refine foldlM_leavesAt (fun host o => ?_) _ hloop
  rw [Option.any_none, if_neg Bool.false_ne_true, update_updated]
  rfl

omit [DecidableEq α] in
lemma result_minus_self (contents : ℕ → List α) (this : ℕ) :
    Sequences.result E contents this (.minusOrderedSet (some this)) = [] := by
  refine filter_eq_nil_iff.mpr fun x hx => ?_
  have hmember : Sequences.member E (contents this) x = true :=
    any_eq_true.mpr ⟨x, hx, E.refl x⟩
  simp [hmember]

lemma step_leaves (h : (sets this).Good E) (hserved : Served sets this command) :
    LeavesAt E sets this (sets.step E.isEqual this command)
      (Sequences.result E sets.contents this command) := by
  cases command with
  | addObject object =>
    cases object with
    | none =>
      simp only [step]
      exact update_leaves h.leaves
    | some o =>
      obtain ⟨hgood, harray⟩ := appendUnique_array h o
      simp only [step]
      exact update_leaves ⟨_, rfl, hgood, harray⟩
  | addObjectsFromArray objects =>
    cases objects with
    | none =>
      simp only [step]
      exact update_leaves h.leaves
    | some objects =>
      simp only [step]
      exact update_leaves (addObjects_leaves objects h)
  | insertObjectAtIndex object index =>
    cases object with
    | none =>
      simp only [step]
      exact update_leaves h.leaves
    | some o =>
      simp only [step]
      exact update_leaves (insertObjectAtIndex_leaves h o index)
  | removeObject object =>
    cases object with
    | none =>
      simp only [step]
      exact update_leaves h.leaves
    | some o =>
      simp only [step]
      exact update_leaves (removeObject_leaves h o)
  | removeObjectAtIndex index =>
    simp only [step]
    exact update_leaves (removeObjectAtIndex_leaves h index)
  | removeAllObjects =>
    simp only [step]
    exact update_leaves (removeAllObjects_leaves h)
  | replaceObjectAtIndex index object =>
    cases object with
    | none =>
      simp only [step]
      exact update_leaves h.leaves
    | some o =>
      simp only [step]
      exact update_leaves (replaceObjectAtIndex_leaves h index o)
  | setObjectAtIndex object index =>
    simp only [step]
    refine update_leaves ?_
    unfold setObjectAtIndex
    cases object with
    | none => split_ifs <;> exact h.leaves
    | some o =>
      change Leaves E _ (if index = (sets this).array.length then
        Sequences.add E (sets this).array o else Sequences.replace E (sets this).array index o)
      split_ifs
      · obtain ⟨hgood, harray⟩ := appendUnique_array h o
        exact ⟨_, rfl, hgood, harray⟩
      · exact replaceObjectAtIndex_leaves h index o
  | exchangeObjectAtIndex index₁ index₂ =>
    simp only [step]
    exact update_leaves (exchangeObjectAtIndex_leaves h index₁ index₂)
  | unionOrderedSet other =>
    cases other with
    | none => exact leavesAt_self h
    | some other =>
      by_cases hne : other = this
      · subst hne
        exact unionOrderedSet_self_leaves h
      · exact unionOrderedSet_leaves h hne
  | unionSet other =>
    cases other with
    | none =>
      simp only [step]
      exact update_leaves h.leaves
    | some set =>
      simp only [step]
      exact update_leaves (addObjects_leaves set.allObjects h)
  | minusOrderedSet other =>
    cases other with
    | none =>
      have hall : Sequences.result E sets.contents this (.minusOrderedSet none) =
          (sets this).array := filter_eq_self.mpr fun _ _ => rfl
      rw [hall]
      exact leavesAt_self h
    | some other =>
      by_cases hne : other = this
      · subst hne
        have hself := minusOrderedSet_self_leaves h
        rw [(foldl_eraseIdx_eq_nil_iff _).mpr (hserved rfl)] at hself
        rw [result_minus_self]
        exact hself
      · exact minusOrderedSet_leaves h hne
  | minusSet other =>
    cases other with
    | none =>
      have hall : Sequences.result E sets.contents this (.minusSet none) = (sets this).array :=
        filter_eq_self.mpr fun _ _ => rfl
      rw [hall]
      simp only [step]
      exact update_leaves h.leaves
    | some set =>
      simp only [step]
      exact update_leaves (minus_leaves set.allObjects h)
  | intersectOrderedSet other =>
    cases other with
    | none =>
      have hnone : Sequences.result E sets.contents this (.intersectOrderedSet none) = [] :=
        filter_eq_nil_iff.mpr fun _ _ => Bool.false_ne_true
      rw [hnone]
      exact intersectOrderedSet_nil_leaves h
    | some other =>
      by_cases hne : other = this
      · subst hne
        exact intersectOrderedSet_self_leaves h
      · exact intersectOrderedSet_leaves h hne
  | intersectSet other =>
    simp only [step]
    exact update_leaves (intersect_leaves (fun o => other.any fun set : NSSet α => set.containsObject o) _ []
      h rfl)

omit [DecidableEq α] in
lemma contents_update (host : OrderedSetHostObject α) :
    contents (Function.update sets this host) = Function.update sets.contents this host.array := by
  funext k
  unfold contents
  by_cases hk : k = this
  · subst hk
    rw [Function.update_self, Function.update_self]
  · rw [Function.update_of_ne hk, Function.update_of_ne hk]

lemma good_update (h : ∀ k, (sets k).Good E) {host : OrderedSetHostObject α} (hgood : host.Good E)
    (k : ℕ) : (Function.update sets this host k).Good E := by
  by_cases hk : k = this
  · subst hk
    rw [Function.update_self]
    exact hgood
  · rw [Function.update_of_ne hk]
    exact h k

lemma step_spec (h : ∀ k, (sets k).Good E) (this : ℕ) (command : OrderedSetCommand α) :
    ∃ sets', sets.step E.isEqual this command = .ok sets' ∧ (∀ k, (sets' k).Good E) ∧
      (sets'.contents = Sequences.step E sets.contents this command ↔
        Served sets this command) := by
  by_cases hserved : Served sets this command
  · obtain ⟨host, hok, hgood, harray⟩ := step_leaves (h this) hserved
    refine ⟨_, hok, good_update h hgood, iff_of_true ?_ hserved⟩
    rw [contents_update, harray]
    rfl
  · unfold Served at hserved
    obtain ⟨rfl, hlong⟩ := Classical.not_imp.mp hserved
    obtain ⟨host, hok, hgood, harray⟩ := minusOrderedSet_self_leaves (h this)
    refine ⟨_, hok, good_update h hgood, iff_of_false (fun hequal => ?_) hserved⟩
    rw [contents_update, Sequences.step, result_minus_self] at hequal
    have hempty := congrFun hequal this
    rw [Function.update_self, Function.update_self, harray] at hempty
    exact hlong ((foldl_eraseIdx_eq_nil_iff _).mp hempty)

lemma runsRight_iff (h : ∀ k, (sets k).Good E) (commands : List (ℕ × OrderedSetCommand α)) :
    RunsRight E sets commands ↔ ServedRun E sets commands := by
  induction commands generalizing sets with
  | nil => exact iff_of_true ⟨[], rfl, by simp, rfl⟩ trivial
  | cons message commands ih =>
    obtain ⟨this, command⟩ := message
    obtain ⟨sets', hok, hgood, hiff⟩ := step_spec h this command
    have hrun : sets.run E.isEqual ((this, command) :: commands) =
        (do return sets' :: (← sets'.run E.isEqual commands)) := by
      rw [run, hok, ok_bind]
    constructor
    · rintro ⟨states, hstates, hall, hcontents⟩
      rw [hrun] at hstates
      obtain ⟨rest, hrest, hstates⟩ := bind_eq_ok.mp hstates
      obtain rfl := ok.inj hstates
      obtain ⟨hhead, htail⟩ := List.cons.inj hcontents
      refine ⟨hiff.mp hhead, fun sets'' hok' => ?_⟩
      rw [hok] at hok'
      obtain rfl := ok.inj hok'
      rw [← hhead] at htail
      exact (ih hgood).mp ⟨rest, hrest, fun s hs => hall s (mem_cons_of_mem _ hs), htail⟩
    · rintro ⟨hserved, hrest⟩
      obtain ⟨rest, hok', hall, hcontents⟩ := (ih hgood).mpr (hrest sets' hok)
      have hhead := hiff.mpr hserved
      refine ⟨sets' :: rest, by rw [hrun, hok', ok_bind]; rfl, fun s hs => ?_, ?_⟩
      · rcases mem_cons.mp hs with rfl | hs
        · exact hgood
        · exact hall s hs
      · rw [map_cons, hcontents, Sequences.run, ← hhead]

lemma empty_good (k : ℕ) : ((empty : OrderedSets α) k).Good E := ⟨.nil, fun _ => rfl⟩

/-- In every run, the sets hold the sequences without duplicates that the messages define, each
object once, exactly when no set of two or more objects is taken from itself. -/
theorem orderedSets_are_sequences (E : ObjectEquality α)
    (commands : List (ℕ × OrderedSetCommand α)) :
    RunsRight E empty commands ↔ ServedRun E empty commands :=
  runsRight_iff empty_good commands

def identity : ObjectEquality ℕ where
  isEqual a b := a == b
  refl a := beq_self_eq_true a
  symm _ _ h := beq_iff_eq.mpr (beq_iff_eq.mp h).symm
  trans _ _ _ h h' := beq_iff_eq.mpr ((beq_iff_eq.mp h).trans (beq_iff_eq.mp h'))

def minusItself : List (ℕ × OrderedSetCommand ℕ) :=
  [(0, .addObject (some 1)), (0, .addObject (some 2)), (0, .minusOrderedSet (some 0))]

theorem minusItself_leaves_object :
    ¬ ∀ (E : ObjectEquality ℕ) commands, RunsRight E empty commands := by
  intro h
  obtain ⟨states, hstates, -, hcontents⟩ := h identity minusItself
  have hcode : (empty.run identity.isEqual minusItself).map
      (fun states => states.map fun s => s.contents 0) = .ok [[1], [1, 2], [2]] := by decide
  have hsequences : (Sequences.run identity (contents empty) minusItself).map (fun c => c 0) =
      [[1], [1, 2], []] := by decide
  rw [hstates] at hcode
  rw [← hcontents, List.map_map] at hsequences
  have hsame := (Except.ok.inj hcode).symm.trans hsequences
  revert hsame
  decide

end OrderedSets

end TouchHle.Foundation
