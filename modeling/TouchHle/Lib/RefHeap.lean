import Mathlib

/-! Objects with retain counts, which retain other objects. -/

namespace TouchHle.Lib

open Function List

/-- The objects below `statics` are not counted. A count of zero is that of an object that is not
alive. `faulted` holds if such an object was retained or released. -/
structure RefHeap where
  statics : ℕ
  next : ℕ
  count : ℕ → ℕ
  items : ℕ → List ℕ
  faulted : Bool

namespace RefHeap

def create (h : RefHeap) : RefHeap :=
  { h with
    next := h.next + 1
    count := update h.count h.next 1
    items := update h.items h.next [] }

def retain (h : RefHeap) (x : ℕ) : RefHeap :=
  if x < h.statics then h
  else if h.count x = 0 then { h with faulted := true }
  else { h with count := update h.count x (h.count x + 1) }

def retainAll (h : RefHeap) (xs : List ℕ) : RefHeap := xs.foldl retain h

def setItems (h : RefHeap) (x : ℕ) (xs : List ℕ) : RefHeap :=
  { h with items := update h.items x xs }

def dealloc (h : RefHeap) (x : ℕ) : RefHeap :=
  { h with count := update h.count x 0, items := update h.items x [] }

def releaseLoop : ℕ → List ℕ → RefHeap → RefHeap
  | 0, _, h => h
  | _ + 1, [], h => h
  | n + 1, x :: xs, h =>
    if x < h.statics then releaseLoop n xs h
    else
      match h.count x with
      | 0 => releaseLoop n xs { h with faulted := true }
      | 1 => releaseLoop n (h.items x ++ xs) (h.dealloc x)
      | c + 2 => releaseLoop n xs { h with count := update h.count x (c + 1) }

def rounds (h : RefHeap) (xs : List ℕ) : ℕ := xs.length + ∑ y ∈ Finset.range h.next, (h.items y).length

def release (h : RefHeap) (x : ℕ) : RefHeap := releaseLoop (h.rounds [x]) [x] h

def drain (h : RefHeap) (xs : List ℕ) : RefHeap := xs.foldl release h

def held (h : RefHeap) (x : ℕ) : ℕ := ∑ y ∈ Finset.range h.next, (h.items y).count x

structure Owned (h : RefHeap) (owners : Multiset ℕ) : Prop where
  accounted : ∀ x, h.statics ≤ x → h.count x = h.held x + owners.count x
  dead : ∀ x, h.count x = 0 → h.items x = []
  fresh : ∀ x, h.next ≤ x → h.count x = 0
  statics : h.statics ≤ h.next
  sound : h.faulted = false

variable {h : RefHeap} {owners others : Multiset ℕ} {x y : ℕ} {xs : List ℕ}

lemma sum_update (f : ℕ → List ℕ) (g : List ℕ → ℕ) (xs : List ℕ) {n : ℕ} (hx : x < n) :
    ∑ y ∈ Finset.range n, g (update f x xs y) + g (f x) = ∑ y ∈ Finset.range n, g (f y) + g xs := by
  have hmem : x ∈ Finset.range n := Finset.mem_range.mpr hx
  rw [← Finset.add_sum_erase _ _ hmem, ← Finset.add_sum_erase _ (fun y => g (f y)) hmem,
    update_self]
  have hrest : ∑ y ∈ (Finset.range n).erase x, g (update f x xs y) =
      ∑ y ∈ (Finset.range n).erase x, g (f y) :=
    Finset.sum_congr rfl fun y hy => by rw [update_of_ne (Finset.ne_of_mem_erase hy)]
  omega

lemma held_pos (hy : y < h.next) (hx : x ∈ h.items y) : 0 < h.held x :=
  (count_pos_iff.mpr hx).trans_le
    (Finset.single_le_sum (f := fun y => (h.items y).count x) (fun _ _ => Nat.zero_le _) (Finset.mem_range.mpr hy))

lemma exists_of_held (hx : 0 < h.held x) : ∃ y < h.next, x ∈ h.items y := by
  obtain ⟨y, hy, hpos⟩ := Finset.exists_ne_zero_of_sum_ne_zero hx.ne'
  exact ⟨y, Finset.mem_range.mp hy, count_pos_iff.mp (Nat.pos_of_ne_zero hpos)⟩

lemma held_setItems (hy : y < h.next) (xs : List ℕ) (x : ℕ) :
    (h.setItems y xs).held x + (h.items y).count x = h.held x + xs.count x :=
  sum_update h.items (fun l => l.count x) xs hy

lemma statics_retain (h : RefHeap) (x : ℕ) : (h.retain x).statics = h.statics := by
  rw [retain]
  split_ifs <;> rfl

lemma next_retain (h : RefHeap) (x : ℕ) : (h.retain x).next = h.next := by
  rw [retain]
  split_ifs <;> rfl

lemma items_retain (h : RefHeap) (x : ℕ) : (h.retain x).items = h.items := by
  rw [retain]
  split_ifs <;> rfl

lemma count_retain_ne_zero (hy : h.count y ≠ 0) : (h.retain x).count y ≠ 0 := by
  rw [retain]
  split_ifs with hs hx
  · exact hy
  · exact hy
  · change update h.count x (h.count x + 1) y ≠ 0
    by_cases hyx : y = x
    · subst hyx
      rw [update_self]
      omega
    · rwa [update_of_ne hyx]

lemma retainAll_frame (xs : List ℕ) : ∀ h : RefHeap, (h.retainAll xs).statics = h.statics ∧
    (h.retainAll xs).next = h.next ∧ (h.retainAll xs).items = h.items := by
  induction xs with
  | nil => exact fun h => ⟨rfl, rfl, rfl⟩
  | cons x xs ih =>
    intro h
    obtain ⟨hs, hn, hi⟩ := ih (h.retain x)
    exact ⟨hs.trans (statics_retain h x), hn.trans (next_retain h x), hi.trans (items_retain h x)⟩

namespace Owned

lemma congr (ho : h.Owned owners) (hsame : ∀ x, h.statics ≤ x → owners.count x = others.count x) :
    h.Owned others where
  accounted x hx := (ho.accounted x hx).trans (by rw [hsame x hx])
  dead := ho.dead
  fresh := ho.fresh
  statics := ho.statics
  sound := ho.sound

lemma of_eq (ho : h.Owned owners) (he : owners = others) : h.Owned others := he ▸ ho

lemma alive (ho : h.Owned owners) (hx : x ∈ owners) (hs : h.statics ≤ x) : h.count x ≠ 0 := by
  have hcount := ho.accounted x hs
  have hpos := Multiset.count_pos.mpr hx
  omega

lemma lt_next (ho : h.Owned owners) (hx : h.count x ≠ 0) : x < h.next :=
  lt_of_not_ge fun hle => hx (ho.fresh x hle)

lemma holder_lt (ho : h.Owned owners) (hx : x ∈ h.items y) : y < h.next :=
  lt_of_not_ge fun hle => by
    rw [ho.dead y (ho.fresh y hle)] at hx
    exact absurd hx not_mem_nil

lemma item_alive (ho : h.Owned owners) (hx : x ∈ h.items y) (hs : h.statics ≤ x) : h.count x ≠ 0 := by
  have hcount := ho.accounted x hs
  have hpos := held_pos (ho.holder_lt hx) hx
  omega

lemma not_owned (ho : h.Owned owners) (hx : h.count x = 0) (hs : h.statics ≤ x) : x ∉ owners :=
  fun hmem => ho.alive hmem hs hx

lemma retainer (ho : h.Owned owners) (hx : h.count x ≠ 0) (hs : h.statics ≤ x) :
    x ∈ owners ∨ ∃ y, h.count y ≠ 0 ∧ x ∈ h.items y := by
  by_cases hpos : 0 < h.held x
  · obtain ⟨y, -, hy⟩ := exists_of_held hpos
    refine .inr ⟨y, fun hdead => ?_, hy⟩
    rw [ho.dead y hdead] at hy
    exact absurd hy not_mem_nil
  · have hcount := ho.accounted x hs
    exact .inl (Multiset.count_pos.mp (by omega))

lemma create (ho : h.Owned owners) : h.create.Owned (h.next ::ₘ owners) where
  accounted := by
    intro x hx
    have hheld : h.create.held x = h.held x := by
      rw [held, show h.create.next = h.next + 1 from rfl, Finset.sum_range_succ]
      simp only [RefHeap.create, update_self, count_nil, add_zero]
      exact Finset.sum_congr rfl fun y hy => by
        rw [update_of_ne (Finset.mem_range.mp hy).ne]
    have hcount := ho.accounted x hx
    rw [hheld]
    change update h.count h.next 1 x = _
    by_cases hnext : x = h.next
    · subst hnext
      have hfresh := ho.fresh _ le_rfl
      rw [update_self, Multiset.count_cons_self]
      omega
    · rw [update_of_ne hnext, Multiset.count_cons_of_ne hnext, hcount]
  dead := by
    intro x hx
    change update h.count h.next 1 x = 0 at hx
    change update h.items h.next [] x = []
    by_cases hnext : x = h.next
    · subst hnext
      rw [update_self]
    · rw [update_of_ne hnext] at hx ⊢
      exact ho.dead x hx
  fresh := by
    intro x hx
    change h.next + 1 ≤ x at hx
    change update h.count h.next 1 x = 0
    rw [update_of_ne (by omega)]
    exact ho.fresh x (by omega)
  statics := ho.statics.trans (Nat.le_succ _)
  sound := ho.sound

lemma setCount (ho : h.Owned owners) (hx : h.count x ≠ 0) {c : ℕ} (hc : c ≠ 0)
    (hcount : h.statics ≤ x → c = h.held x + others.count x)
    (hrest : ∀ y ≠ x, owners.count y = others.count y) :
    Owned { h with count := update h.count x c } others where
  accounted := by
    intro y hy
    change update h.count x c y = h.held y + _
    by_cases hyx : y = x
    · subst hyx
      rw [update_self, hcount hy]
    · rw [update_of_ne hyx, ho.accounted y hy, hrest y hyx]
  dead := by
    intro y hy
    change update h.count x c y = 0 at hy
    by_cases hyx : y = x
    · subst hyx
      exact absurd ((update_self ..).symm.trans hy) hc
    · rw [update_of_ne hyx] at hy
      exact ho.dead y hy
  fresh := by
    intro y hy
    change update h.count x c y = 0
    rw [update_of_ne]
    · exact ho.fresh y hy
    · rintro rfl
      exact hx (ho.fresh y hy)
  statics := ho.statics
  sound := ho.sound

lemma retain (ho : h.Owned owners) (hx : h.statics ≤ x → h.count x ≠ 0) :
    (h.retain x).Owned (x ::ₘ owners) := by
  rw [RefHeap.retain]
  split_ifs with hs hzero
  · exact ho.congr fun y hy => (Multiset.count_cons_of_ne (by omega) _).symm
  · exact absurd hzero (hx (le_of_not_gt hs))
  · refine ho.setCount hzero (Nat.succ_ne_zero _) (fun hle => ?_) fun y hy =>
      (Multiset.count_cons_of_ne hy _).symm
    rw [ho.accounted x hle, Multiset.count_cons_self, add_assoc]

lemma retainAll (xs : List ℕ) : ∀ {h : RefHeap}, h.Owned owners →
    (∀ x ∈ xs, h.statics ≤ x → h.count x ≠ 0) → (h.retainAll xs).Owned (xs + owners) := by
  induction xs generalizing owners with
  | nil => exact fun ho _ => ho.congr fun y _ => by simp
  | cons x xs ih =>
    intro h ho halive
    have hretained := ho.retain (halive x mem_cons_self)
    refine (ih hretained fun y hy hs => ?_).congr fun y _ => ?_
    · rw [statics_retain] at hs
      exact count_retain_ne_zero (halive y (mem_cons_of_mem _ hy) hs)
    · rw [← Multiset.cons_coe, Multiset.cons_add, Multiset.add_cons]

lemma setItems (ho : h.Owned owners) (hy : h.count y ≠ 0)
    (hsame : ∀ x, h.statics ≤ x → owners.count x + (h.items y).count x = others.count x + xs.count x) :
    (h.setItems y xs).Owned others where
  accounted := by
    intro x hx
    have hheld := held_setItems (ho.lt_next hy) xs x
    have hcount := ho.accounted x hx
    have hmoved := hsame x hx
    change h.count x = _
    omega
  dead := by
    intro x hx
    change h.count x = 0 at hx
    change update h.items y xs x = []
    rw [update_of_ne]
    · exact ho.dead x hx
    · rintro rfl
      exact hy hx
  fresh := ho.fresh
  statics := ho.statics
  sound := ho.sound

lemma dealloc (ho : h.Owned (x ::ₘ owners)) (hs : h.statics ≤ x) (hx : h.count x = 1) :
    (h.dealloc x).Owned (h.items x + owners) where
  accounted := by
    intro y hy
    have hheld := held_setItems (ho.lt_next (x := x) (by omega)) [] y
    rw [count_nil, add_zero] at hheld
    have hcount := ho.accounted y hy
    change update h.count x 0 y = (h.setItems x []).held y + _
    rw [Multiset.count_add, Multiset.coe_count]
    by_cases hyx : y = x
    · subst hyx
      rw [Multiset.count_cons_self] at hcount
      rw [update_self]
      omega
    · rw [Multiset.count_cons_of_ne hyx] at hcount
      rw [update_of_ne hyx]
      omega
  dead := by
    intro y hy
    change update h.count x 0 y = 0 at hy
    change update h.items x [] y = []
    by_cases hyx : y = x
    · subst hyx
      exact update_self ..
    · rw [update_of_ne hyx] at hy ⊢
      exact ho.dead y hy
  fresh := by
    intro y hy
    change update h.count x 0 y = 0
    by_cases hyx : y = x
    · subst hyx
      exact update_self ..
    · rw [update_of_ne hyx]
      exact ho.fresh y hy
  statics := ho.statics
  sound := ho.sound

end Owned

lemma rounds_dealloc (hx : x < h.next) (xs : List ℕ) : (h.dealloc x).rounds (h.items x ++ xs) + 1 = h.rounds (x :: xs) := by
  have hsum := sum_update h.items List.length [] hx
  change (h.items x ++ xs).length + (∑ y ∈ Finset.range h.next, (update h.items x [] y).length) + 1 =
    (x :: xs).length + ∑ y ∈ Finset.range h.next, (h.items y).length
  rw [length_append, length_cons]
  rw [length_nil] at hsum
  omega

lemma releaseLoop_owned (n : ℕ) : ∀ (h : RefHeap) (xs : List ℕ), h.Owned (xs + owners) → h.rounds xs ≤ n →
    (releaseLoop n xs h).Owned owners := by
  induction n with
  | zero =>
    intro h xs ho hn
    obtain rfl : xs = [] := length_eq_zero_iff.mp (by rw [rounds] at hn; omega)
    exact ho.congr fun y _ => by simp
  | succ n ih =>
    intro h xs ho hn
    cases xs with
    | nil => exact ho.congr fun y _ => by simp
    | cons x xs =>
      have hcons : (h.rounds xs) + 1 = h.rounds (x :: xs) := by
        rw [rounds, rounds, length_cons]
        omega
      rw [← Multiset.cons_coe, Multiset.cons_add] at ho
      rw [releaseLoop]
      split_ifs with hs
      · exact ih h xs (ho.congr fun y hy => Multiset.count_cons_of_ne (by omega) _) (by omega)
      · have hle : h.statics ≤ x := le_of_not_gt hs
        have hcount := ho.accounted x hle
        rw [Multiset.count_cons_self] at hcount
        split
        · omega
        · rename_i hone
          have hlt : x < h.next := ho.lt_next (by omega)
          refine ih _ _ ?_ (by have := rounds_dealloc hlt xs; omega)
          rw [← Multiset.coe_add, add_assoc]
          exact ho.dealloc hle hone
        · rename_i c htwo
          have hrounds : RefHeap.rounds { h with count := update h.count x (c + 1) } xs = h.rounds xs := rfl
          refine ih _ _ (ho.setCount (by omega) (Nat.succ_ne_zero c) (fun _ => by omega) fun y hy => ?_)
            (by omega)
          exact Multiset.count_cons_of_ne hy _

lemma Owned.release (ho : h.Owned (x ::ₘ owners)) : (h.release x).Owned owners :=
  releaseLoop_owned _ h [x] ho le_rfl

lemma Owned.drain (xs : List ℕ) : ∀ {h : RefHeap}, h.Owned (xs + owners) → (h.drain xs).Owned owners := by
  induction xs with
  | nil => exact fun ho => ho.congr fun y _ => by simp
  | cons x xs ih =>
    intro h ho
    rw [← Multiset.cons_coe, Multiset.cons_add] at ho
    exact ih ho.release

structure Shrinks (h t : RefHeap) : Prop where
  next : t.next = h.next
  statics : t.statics = h.statics
  items : ∀ y, t.items y ⊆ h.items y
  kept : ∀ y, t.count y ≠ 0 → t.items y = h.items y
  dead : ∀ y, h.count y = 0 → t.count y = 0
  faulted : h.faulted → t.faulted

lemma Shrinks.refl (h : RefHeap) : h.Shrinks h :=
  ⟨rfl, rfl, fun _ => List.Subset.refl _, fun _ _ => rfl, fun _ h => h, fun h => h⟩

lemma Shrinks.trans {t u : RefHeap} (hht : h.Shrinks t) (htu : t.Shrinks u) : h.Shrinks u where
  next := htu.next.trans hht.next
  statics := htu.statics.trans hht.statics
  items y := List.Subset.trans (htu.items y) (hht.items y)
  kept y hy := (htu.kept y hy).trans (hht.kept y fun hdead => hy (htu.dead y hdead))
  dead y hy := htu.dead y (hht.dead y hy)
  faulted hf := htu.faulted (hht.faulted hf)

lemma shrinks_setCount (hx : h.count x ≠ 0) (c : ℕ) :
    h.Shrinks { h with count := update h.count x c } := by
  refine ⟨rfl, rfl, fun _ => List.Subset.refl _, fun _ _ => rfl, fun y hy => ?_, fun h => h⟩
  change update h.count x c y = 0
  rw [update_of_ne]
  · exact hy
  · rintro rfl
    exact hx hy

lemma shrinks_dealloc (h : RefHeap) (x : ℕ) : h.Shrinks (h.dealloc x) := by
  refine ⟨rfl, rfl, fun y => ?_, fun y hy => ?_, fun y hy => ?_, fun h => h⟩
  · change update h.items x [] y ⊆ _
    by_cases hyx : y = x
    · subst hyx
      rw [update_self]
      exact nil_subset _
    · rw [update_of_ne hyx]
      exact List.Subset.refl _
  · change update h.count x 0 y ≠ 0 at hy
    change update h.items x [] y = _
    by_cases hyx : y = x
    · subst hyx
      exact absurd (update_self ..) hy
    · rw [update_of_ne hyx]
  · change update h.count x 0 y = 0
    by_cases hyx : y = x
    · subst hyx
      exact update_self ..
    · rw [update_of_ne hyx]
      exact hy

lemma shrinks_releaseLoop (n : ℕ) : ∀ (h : RefHeap) (xs : List ℕ), h.Shrinks (releaseLoop n xs h) := by
  induction n with
  | zero => exact fun h _ => .refl h
  | succ n ih =>
    intro h xs
    cases xs with
    | nil => exact .refl h
    | cons x xs =>
      rw [releaseLoop]
      split_ifs
      · exact ih h xs
      · split
        · have hfault : h.Shrinks { h with faulted := true } :=
            ⟨rfl, rfl, fun _ => List.Subset.refl _, fun _ _ => rfl, fun _ h => h, fun _ => rfl⟩
          exact hfault.trans (ih _ xs)
        · exact (shrinks_dealloc h x).trans (ih _ _)
        · exact (shrinks_setCount (by omega) _).trans (ih _ xs)

lemma shrinks_release (h : RefHeap) (x : ℕ) : h.Shrinks (h.release x) := shrinks_releaseLoop _ h [x]

lemma shrinks_drain (xs : List ℕ) : ∀ h : RefHeap, h.Shrinks (h.drain xs) := by
  induction xs with
  | nil => exact .refl
  | cons x xs ih => exact fun h => (shrinks_release h x).trans (ih _)

lemma faulted_release (hs : h.statics ≤ x) (hx : h.count x = 0) : (h.release x).faulted := by
  have hrounds : h.rounds [x] = (∑ y ∈ Finset.range h.next, (h.items y).length) + 1 := add_comm ..
  rw [RefHeap.release, hrounds, releaseLoop, if_neg (by omega), hx]
  exact (shrinks_releaseLoop _ _ []).faulted rfl

structure Grows (building : ℕ → Prop) (h t : RefHeap) : Prop where
  next_le : h.next ≤ t.next
  statics : t.statics = h.statics
  items : ∀ y, ∀ x ∈ t.items y, x ∈ h.items y ∨
    (h.next ≤ y ∨ building y) ∧ (h.next ≤ x ∨ x < h.statics)
  kept : ∀ y < h.next, ¬ building y → t.count y ≠ 0 → t.items y = h.items y
  dead : ∀ y < h.next, h.count y = 0 → t.count y = 0

section

variable {building : ℕ → Prop} {t u : RefHeap}

lemma Grows.refl (h : RefHeap) : Grows building h h :=
  ⟨le_rfl, rfl, fun _ _ hx => .inl hx, fun _ _ _ _ => rfl, fun _ _ h => h⟩

lemma Grows.trans (hht : Grows building h t) (htu : Grows building t u) : Grows building h u where
  next_le := hht.next_le.trans htu.next_le
  statics := htu.statics.trans hht.statics
  items := by
    intro y x hx
    obtain hx | ⟨hy, hx⟩ := htu.items y x hx
    · exact hht.items y x hx
    · have hnext := hht.next_le
      have hstatics := hht.statics
      exact .inr ⟨hy.imp_left (by omega), by omega⟩
  kept := by
    intro y hy hb hu
    have hlt := hy.trans_le hht.next_le
    exact (htu.kept y hlt hb hu).trans (hht.kept y hy hb fun hdead => hu (htu.dead y hlt hdead))
  dead y hy h := htu.dead y (hy.trans_le hht.next_le) (hht.dead y hy h)

lemma Grows.mono {built : ℕ → Prop} (hg : Grows building h t)
    (hmono : ∀ y, building y → h.next ≤ y ∨ built y) : Grows built h t where
  next_le := hg.next_le
  statics := hg.statics
  items y x hx := (hg.items y x hx).imp_right fun hyx => ⟨hyx.1.elim .inl (hmono y), hyx.2⟩
  kept y hy hb := hg.kept y hy fun hbuild => (hmono y hbuild).elim (by omega) hb
  dead := hg.dead

lemma Grows.setItems (hg : Grows building h t) (hy : h.next ≤ y ∨ building y)
    (hxs : ∀ x ∈ xs, x ∈ h.items y ∨ h.next ≤ x ∨ x < h.statics) : Grows building h (t.setItems y xs) where
  next_le := hg.next_le
  statics := hg.statics
  items := by
    intro z x hx
    change x ∈ update t.items y xs z at hx
    by_cases hzy : z = y
    · subst hzy
      rw [update_self] at hx
      exact (hxs x hx).imp_right fun hnew => ⟨hy, hnew⟩
    · rw [update_of_ne hzy] at hx
      exact hg.items z x hx
  kept := by
    intro z hz hb halive
    have hzy : z ≠ y := by
      rintro rfl
      exact hy.elim (by omega) hb
    exact (update_of_ne hzy ..).trans (hg.kept z hz hb halive)
  dead := hg.dead

lemma Shrinks.grows (hs : h.Shrinks t) : Grows building h t :=
  ⟨hs.next.ge, hs.statics, fun y _ hx => .inl (hs.items y hx), fun y _ _ hy => hs.kept y hy, fun y _ => hs.dead y⟩

lemma items_create (h : RefHeap) (y : ℕ) : h.create.items y ⊆ h.items y := by
  change update h.items h.next [] y ⊆ _
  by_cases hy : y = h.next
  · subst hy
    rw [update_self]
    exact nil_subset _
  · rw [update_of_ne hy]
    exact List.Subset.refl _

lemma grows_create (h : RefHeap) : Grows building h h.create where
  next_le := Nat.le_succ _
  statics := rfl
  items y _ hx := .inl (items_create h y hx)
  kept _ hy _ _ := update_of_ne hy.ne ..
  dead _ hy h := (update_of_ne hy.ne ..).trans h

lemma grows_retain (h : RefHeap) (x : ℕ) : Grows building h (h.retain x) where
  next_le := (next_retain h x).ge
  statics := statics_retain h x
  items y z hz := .inl (by rwa [items_retain] at hz)
  kept y _ _ _ := by rw [items_retain]
  dead := by
    intro y _ hy
    rw [retain]
    split_ifs with hs hx
    · exact hy
    · exact hy
    · exact (update_of_ne (by rintro rfl; exact hx hy) ..).trans hy

lemma grows_retainAll (xs : List ℕ) : ∀ h : RefHeap, Grows building h (h.retainAll xs) := by
  induction xs with
  | nil => exact .refl
  | cons x xs ih => exact fun h => (grows_retain h x).trans (ih _)

def Unheld (h : RefHeap) (x : ℕ) : Prop := ∀ y, x ∉ h.items y

lemma Unheld.grows (hu : h.Unheld x) (hg : Grows building h t) (hx : x < h.next) (hs : h.statics ≤ x) :
    t.Unheld x := fun y hmem => (hg.items y x hmem).elim (hu y) (by omega)

lemma Owned.unheld (ho : h.Owned owners) (hx : h.count x = 0) (hs : h.statics ≤ x) : h.Unheld x :=
  fun _ hmem => ho.item_alive hmem hs hx

lemma Unheld.held (hu : h.Unheld x) : h.held x = 0 :=
  Finset.sum_eq_zero fun y _ => count_eq_zero.mpr (hu y)

end

def Ranked (h : RefHeap) (n : ℕ) : Prop :=
  ∃ rank : ℕ → ℕ, ∀ y, n ≤ y → ∀ x ∈ h.items y, n ≤ x → rank x < rank y

lemma Ranked.of_items {t : RefHeap} {n : ℕ} (hr : h.Ranked n) (hitems : ∀ y, t.items y ⊆ h.items y) :
    t.Ranked n := by
  obtain ⟨rank, hr⟩ := hr
  exact ⟨rank, fun y hy x hx => hr y hy x (hitems y hx)⟩

lemma Ranked.setItems {n : ℕ} (hr : h.Ranked n) (hy : h.Unheld y) (hxs : y ∉ xs) : (h.setItems y xs).Ranked n := by
  obtain ⟨rank, hr⟩ := hr
  refine ⟨update rank y ((xs.map rank).sum + 1), fun z hz x hx hn => ?_⟩
  change x ∈ update h.items y xs z at hx
  by_cases hzy : z = y
  · subst hzy
    rw [update_self] at hx ⊢
    rw [update_of_ne (by rintro rfl; exact hxs hx)]
    exact Nat.lt_succ_of_le (le_sum_of_mem (mem_map_of_mem hx))
  · rw [update_of_ne hzy] at hx ⊢
    rw [update_of_ne (by rintro rfl; exact hy z hx)]
    exact hr z hz x hx hn

lemma Owned.ranked (ho : h.Owned owners) : h.Ranked h.next :=
  ⟨id, fun y hy x hx => by
    rw [ho.dead y (ho.fresh y hy)] at hx
    exact absurd hx not_mem_nil⟩

lemma Owned.all_dead {n : ℕ} (ho : h.Owned owners) (hr : h.Ranked n) (hs : h.statics ≤ n)
    (howners : ∀ x ∈ owners, x < n) (hold : ∀ y < n, ∀ x ∈ h.items y, x < n) (hx : n ≤ x) : h.count x = 0 := by
  obtain ⟨rank, hr⟩ := hr
  by_contra halive
  obtain ⟨z, hz, hmax⟩ := Finset.exists_max_image
    ((Finset.range h.next).filter fun y => n ≤ y ∧ h.count y ≠ 0) rank
    ⟨x, Finset.mem_filter.mpr ⟨Finset.mem_range.mpr (ho.lt_next halive), hx, halive⟩⟩
  obtain ⟨-, hnz, hz⟩ := Finset.mem_filter.mp hz
  obtain howned | ⟨y, hy, hmem⟩ := ho.retainer hz (hs.trans hnz)
  · exact absurd (howners z howned) (by omega)
  · have hny : n ≤ y := le_of_not_gt fun hlt => absurd (hold y hlt z hmem) (by omega)
    have hle := hmax y (Finset.mem_filter.mpr ⟨Finset.mem_range.mpr (ho.lt_next hy), hny, hy⟩)
    exact absurd (hr y hny z hmem hnz) (by omega)

lemma Owned.settled_iff {t : RefHeap} {left : Multiset ℕ} (ho : h.Owned others) (ht : t.Owned (left + others))
    (hg : Grows (fun _ => False) h t) (hr : t.Ranked h.next) (hleft : ∀ x ∈ left, h.next ≤ x) :
    (t.faulted = false ∧ ∀ x, h.next ≤ x → t.count x = 0) ↔ left = 0 := by
  have hstatics : t.statics ≤ h.next := hg.statics ▸ ho.statics
  constructor
  · rintro ⟨-, hdead⟩
    refine Multiset.eq_zero_of_forall_notMem fun x hx => ?_
    exact ht.alive (Multiset.mem_add.mpr (.inl hx)) (hstatics.trans (hleft x hx)) (hdead x (hleft x hx))
  · rintro rfl
    refine ⟨ht.sound, fun x hx => (ht.of_eq (zero_add _)).all_dead hr hstatics ?_ ?_ hx⟩
    · exact fun y hy => lt_of_not_ge fun hle => ho.not_owned (ho.fresh y hle) (ho.statics.trans hle) hy
    · intro y hy z hz
      obtain hz | ⟨hle | hfalse, -⟩ := hg.items y z hz
      · exact lt_of_not_ge fun hle => ho.item_alive hz (ho.statics.trans hle) (ho.fresh z hle)
      · omega
      · exact hfalse.elim

lemma Owned.over_released (hx : h.statics ≤ x) {n : ℕ} (ho : h.Owned (List.replicate n x + others)) (hu : h.Unheld x)
    (hothers : x ∉ others) : (h.drain (List.replicate (n + 1) x)).faulted := by
  induction n generalizing h with
  | zero =>
    refine faulted_release hx ?_
    have hcount := ho.accounted x hx
    rw [hu.held, Multiset.count_add, Multiset.count_eq_zero_of_notMem hothers] at hcount
    exact hcount
  | succ n ih =>
    have hs := shrinks_release h x
    have howned : (h.release x).Owned (List.replicate n x + others) := by
      refine Owned.release (ho.of_eq ?_)
      rw [replicate_succ, ← Multiset.cons_coe, Multiset.cons_add]
    exact ih (hs.statics ▸ hx) howned fun y hy => hu y (hs.items y hy)

end RefHeap

end TouchHle.Lib
