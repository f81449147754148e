import TouchHle.Memory.Malloc
import TouchHle.Strings.Comparing

namespace TouchHle.Stdlib

open Lib Memory List Bytes

structure Operations (σ : Type) where
  compar : σ → ℕ → ℕ → Checked (ℤ × σ)
  swap : σ → ℕ → ℕ → Checked σ

namespace Operations

variable {σ α : Type} (ops : Operations σ)

def partition (pivot : ℕ) : List ℕ → ℕ → σ → Checked (ℕ × σ)
  | [], separator, s => return (separator, s)
  | i :: is, separator, s => do
    let (order, s) ← ops.compar s i pivot
    if order < 0 then do
      let s ← ops.swap s i separator
      partition pivot is (separator + 1) s
    else partition pivot is separator s

variable {ops}

lemma partition_bounds {pivot separator separator' : ℕ} {is : List ℕ} {s s' : σ}
    (h : ops.partition pivot is separator s = .ok (separator', s')) :
    separator ≤ separator' ∧ separator' ≤ separator + is.length := by
  induction is generalizing separator s with
  | nil =>
    obtain ⟨rfl, rfl⟩ := ok_pair_inj h
    simp
  | cons i is ih =>
    rw [partition] at h
    obtain ⟨⟨order, t⟩, -, h⟩ := bind_eq_ok.mp h
    dsimp only at h
    rw [length_cons]
    split at h
    · obtain ⟨u, -, h⟩ := bind_eq_ok.mp h
      have hrest := ih h
      omega
    · have hrest := ih h
      omega

variable (ops)

def qsortRec (low hi : ℕ) (s : σ) : Checked σ :=
  if low < hi then
    match h : ops.partition low (List.range' (low + 1) (hi - low)) (low + 1) s with
    | .error f => .error f
    | .ok (separator, s) => do
      let s ← ops.swap s low (separator - 1)
      let s ← (if 1 < separator then qsortRec low (separator - 2) s else return s : Checked σ)
      qsortRec separator hi s
  else return s
termination_by hi - low
decreasing_by
  all_goals
    have hbounds := partition_bounds h
    rw [length_range'] at hbounds
    omega

def qsortGeneric (nitems : ℕ) (s : σ) : Checked σ :=
  if nitems < 2 then return s else ops.qsortRec 0 (nitems - 1) s

end Operations

variable {σ α : Type}

def Rearranged (low hi : ℕ) (f g : ℕ → α) : Prop :=
  ∃ π : Equiv.Perm ℕ, (∀ k, k < low ∨ hi < k → π k = k) ∧ g = f ∘ π

namespace Rearranged

variable {low hi low' hi' : ℕ} {f g h : ℕ → α}

lemma refl : Rearranged low hi f f := ⟨1, fun _ _ => rfl, rfl⟩

lemma trans (hfg : Rearranged low hi f g) (hgh : Rearranged low hi g h) : Rearranged low hi f h := by
  obtain ⟨π, hπ, rfl⟩ := hfg
  obtain ⟨ρ, hρ, rfl⟩ := hgh
  refine ⟨π * ρ, fun k hk => ?_, rfl⟩
  rw [Equiv.Perm.mul_apply, hρ k hk, hπ k hk]

lemma mono (h : Rearranged low hi f g) (hlow : low' ≤ low) (hhi : hi ≤ hi') :
    Rearranged low' hi' f g := by
  obtain ⟨π, hπ, rfl⟩ := h
  exact ⟨π, fun k hk => hπ k (by omega), rfl⟩

lemma swap {i j : ℕ} (hi₁ : low ≤ i) (hi₂ : i ≤ hi) (hj₁ : low ≤ j) (hj₂ : j ≤ hi) :
    Rearranged low hi f (f ∘ Equiv.swap i j) :=
  ⟨Equiv.swap i j, fun _ _ => Equiv.swap_apply_of_ne_of_ne (by omega) (by omega), rfl⟩

lemma outside (h : Rearranged low hi f g) {k : ℕ} (hk : k < low ∨ hi < k) : g k = f k := by
  obtain ⟨π, hπ, rfl⟩ := h
  exact congrArg f (hπ k hk)

lemma inside (h : Rearranged low hi f g) {k : ℕ} (hlow : low ≤ k) (hhi : k ≤ hi) :
    ∃ j, low ≤ j ∧ j ≤ hi ∧ g k = f j := by
  obtain ⟨π, hπ, rfl⟩ := h
  have hin : low ≤ π k ∧ π k ≤ hi := by
    by_contra hout
    have hfix := π.injective (hπ (π k) (by omega))
    rw [hfix] at hout
    exact hout ⟨hlow, hhi⟩
  exact ⟨π k, hin.1, hin.2, rfl⟩

lemma perm (h : Rearranged low hi f g) {n : ℕ} (hn : hi < n) :
    ((List.range n).map g).Perm ((List.range n).map f) := by
  obtain ⟨π, hπ, rfl⟩ := h
  rw [← List.map_map]
  apply List.Perm.map
  apply (perm_ext_iff_of_nodup (nodup_range.map π.injective) nodup_range).mpr
  have hin : ∀ k, π k < n ↔ k < n := by
    intro k
    by_cases hk : hi < k
    · rw [hπ k (Or.inr hk)]
    · by_cases hk' : hi < π k
      · rw [π.injective (hπ (π k) (Or.inr hk'))]
      · omega
  intro k
  rw [mem_map, List.mem_range]
  constructor
  · rintro ⟨j, hj, rfl⟩
    exact (hin j).mpr (List.mem_range.mp hj)
  · intro hk
    refine ⟨π.symm k, List.mem_range.mpr ?_, π.apply_symm_apply k⟩
    rw [← hin, Equiv.apply_symm_apply]
    exact hk

end Rearranged

structure Preordered (cmp : α → α → ℤ) (s : Set α) : Prop where
  swapped : ∀ a ∈ s, ∀ b ∈ s, cmp a b < 0 ↔ 0 < cmp b a
  trans : ∀ a ∈ s, ∀ b ∈ s, ∀ c ∈ s, cmp a b ≤ 0 → cmp b c ≤ 0 → cmp a c ≤ 0

def SortedBetween (cmp : α → α → ℤ) (low hi : ℕ) (f : ℕ → α) : Prop :=
  ∀ i j, low ≤ i → i < j → j ≤ hi → cmp (f i) (f j) ≤ 0

structure Operations.Lawful (ops : Operations σ) (n : ℕ) (I : σ → Prop) (view : σ → ℕ → α)
    (cmp : α → α → ℤ) : Prop where
  compar : ∀ s i j, I s → i < n → j < n → ops.compar s i j = .ok (cmp (view s i) (view s j), s)
  swap : ∀ s i j, I s → i < n → j < n →
    ∃ s', ops.swap s i j = .ok s' ∧ I s' ∧ view s' = view s ∘ Equiv.swap i j

namespace Operations.Lawful

variable {ops : Operations σ} {n : ℕ} {I : σ → Prop} {view : σ → ℕ → α} {cmp : α → α → ℤ}

/-- What holds when the loop comes to an element: those before the separator are less than the
pivot, and the others are not. -/
structure Partitioned (cmp : α → α → ℤ) (low separator i : ℕ) (f : ℕ → α) : Prop where
  low_lt : low < separator
  le : separator ≤ i
  less : ∀ k, low < k → k < separator → cmp (f k) (f low) < 0
  notLess : ∀ k, separator ≤ k → k < i → ¬ cmp (f k) (f low) < 0

lemma Partitioned.swap {low separator i : ℕ} {f : ℕ → α} (h : Partitioned cmp low separator i f)
    (hless : cmp (f i) (f low) < 0) :
    Partitioned cmp low (separator + 1) (i + 1) (f ∘ Equiv.swap i separator) := by
  have hlt := h.low_lt
  have hle := h.le
  have hlow : (f ∘ Equiv.swap i separator) low = f low :=
    congrArg f (Equiv.swap_apply_of_ne_of_ne (by omega) (by omega))
  refine ⟨by omega, by omega, fun k hk hk' => ?_, fun k hk hk' => ?_⟩
  · rw [hlow, Function.comp_apply]
    by_cases hks : k = separator
    · rwa [hks, Equiv.swap_apply_right]
    · rw [Equiv.swap_apply_of_ne_of_ne (by omega) hks]
      exact h.less k hk (by omega)
  · rw [hlow, Function.comp_apply]
    by_cases hki : k = i
    · rw [hki, Equiv.swap_apply_left]
      exact h.notLess separator le_rfl (by omega)
    · rw [Equiv.swap_apply_of_ne_of_ne hki (by omega)]
      exact h.notLess k (by omega) (by omega)

lemma partition_spec (h : ops.Lawful n I view cmp) (low hi i count : ℕ) (hhi : hi < n)
    {separator : ℕ} {s : σ} (hs : I s) (hcount : i + count = hi + 1)
    (hp : Partitioned cmp low separator i (view s)) :
    ∃ separator' s', ops.partition low (List.range' i count) separator s = .ok (separator', s') ∧
      I s' ∧ Rearranged low hi (view s) (view s') ∧
      Partitioned cmp low separator' (hi + 1) (view s') := by
  induction count generalizing i separator s with
  | zero =>
    obtain rfl : i = hi + 1 := by omega
    exact ⟨separator, s, rfl, hs, Rearranged.refl, hp⟩
  | succ count ih =>
    have hlt := hp.low_lt
    have hle := hp.le
    rw [range'_succ, partition, h.compar s i low hs (by omega) (by omega), ok_bind]
    dsimp only
    by_cases hless : cmp (view s i) (view s low) < 0
    · obtain ⟨t, hswap, ht, hview⟩ := h.swap s i separator hs (by omega) (by omega)
      rw [if_pos hless, hswap, ok_bind]
      obtain ⟨separator', s', heq, hs', hrearranged, hp'⟩ :=
        ih (i + 1) ht (by omega) (hview ▸ hp.swap hless)
      refine ⟨separator', s', heq, hs', Rearranged.trans ?_ hrearranged, hp'⟩
      rw [hview]
      exact Rearranged.swap (by omega) (by omega) (by omega) (by omega)
    · rw [if_neg hless]
      refine ih (i + 1) hs (by omega) ⟨hlt, by omega, hp.less, fun k hk hk' => ?_⟩
      rcases Nat.lt_succ_iff_lt_or_eq.mp hk' with hk' | rfl
      · exact hp.notLess k hk hk'
      · exact hless

lemma Partitioned.pivot {low separator hi : ℕ} {f : ℕ → α}
    (h : Partitioned cmp low separator (hi + 1) f) :
    let g := f ∘ Equiv.swap low (separator - 1)
    (∀ k, low ≤ k → k < separator - 1 → cmp (g k) (g (separator - 1)) < 0) ∧
      ∀ k, separator ≤ k → k ≤ hi → ¬ cmp (g k) (g (separator - 1)) < 0 := by
  have hlt := h.low_lt
  have hpivot : (f ∘ Equiv.swap low (separator - 1)) (separator - 1) = f low :=
    congrArg f (Equiv.swap_apply_right _ _)
  dsimp only
  rw [hpivot]
  refine ⟨fun k hk hk' => ?_, fun k hk hk' => ?_⟩
  · rw [Function.comp_apply]
    by_cases hkl : k = low
    · rw [hkl, Equiv.swap_apply_left]
      exact h.less _ (by omega) (by omega)
    · rw [Equiv.swap_apply_of_ne_of_ne hkl (by omega)]
      exact h.less k (by omega) (by omega)
  · rw [Function.comp_apply, Equiv.swap_apply_of_ne_of_ne (by omega) (by omega)]
    exact h.notLess k hk (by omega)

lemma sortedBetween_of_parts {set : Set α} (hcmp : Preordered cmp set) {low p hi : ℕ} {f : ℕ → α}
    (hf : ∀ k, low ≤ k → k ≤ hi → f k ∈ set) (hlow : low ≤ p) (hhi : p ≤ hi)
    (hless : ∀ k, low ≤ k → k < p → cmp (f k) (f p) < 0)
    (hnot : ∀ k, p < k → k ≤ hi → ¬ cmp (f k) (f p) < 0)
    (hleft : ∀ i j, low ≤ i → i < j → j < p → cmp (f i) (f j) ≤ 0)
    (hright : SortedBetween cmp (p + 1) hi f) : SortedBetween cmp low hi f := by
  have hbefore : ∀ k, low ≤ k → k < p → cmp (f k) (f p) ≤ 0 := fun k hk hk' => (hless k hk hk').le
  have hafter : ∀ k, p < k → k ≤ hi → cmp (f p) (f k) ≤ 0 := by
    intro k hk hk'
    by_contra hpos
    exact hnot k hk hk' ((hcmp.swapped _ (hf k (by omega) hk') _ (hf p hlow hhi)).mpr (by omega))
  intro i j hi₁ hij hj
  rcases Nat.lt_trichotomy j p with hjp | rfl | hjp
  · exact hleft i j hi₁ hij hjp
  · exact hbefore i hi₁ hij
  · rcases Nat.lt_trichotomy i p with hip | rfl | hip
    · exact hcmp.trans _ (hf i hi₁ (by omega)) _ (hf p hlow hhi) _ (hf j (by omega) hj)
        (hbefore i hi₁ hip) (hafter j hjp hj)
    · exact hafter j hjp hj
    · exact hright i j (by omega) hij hj

theorem qsortRec_spec (h : ops.Lawful n I view cmp) (low hi : ℕ) (hhi : hi < n) {s : σ} (hs : I s) :
    ∃ s', ops.qsortRec low hi s = .ok s' ∧ I s' ∧ Rearranged low hi (view s) (view s') ∧
      ∀ set, Preordered cmp set → (∀ k, view s k ∈ set) → SortedBetween cmp low hi (view s') := by
  induction hlen : hi - low using Nat.strong_induction_on generalizing low hi s with
  | _ len ih =>
    rw [qsortRec]
    by_cases hlt : low < hi
    · obtain ⟨separator, t, hpart, ht, hrear₁, hp⟩ := h.partition_spec low hi (low + 1)
        (hi - low) hhi hs (by omega)
        ⟨by omega, le_rfl, fun k _ _ => by omega, fun k _ _ => by omega⟩
      have hseplow := hp.low_lt
      have hsephi := hp.le
      obtain ⟨u, hswap, hu, hview⟩ := h.swap t low (separator - 1) ht (by omega) (by omega)
      have hrear₂ : Rearranged low hi (view t) (view u) :=
        hview ▸ Rearranged.swap le_rfl hlt.le (by omega) (by omega)
      obtain ⟨v, hleft, hv, hrear₃, hsorted₁⟩ := ih (separator - 2 - low) (by omega)
        low (separator - 2) (by omega) hu rfl
      obtain ⟨s', hright, hs', hrear₄, hsorted₂⟩ := ih (hi - separator) (by omega)
        separator hi hhi hv rfl
      have hfirst : (if 1 < separator then ops.qsortRec low (separator - 2) u else return u) =
          .ok v := by
        by_cases hone : 1 < separator
        · rw [if_pos hone, hleft]
        · rw [if_neg hone]
          rw [qsortRec, if_neg (by omega)] at hleft
          exact hleft
      refine ⟨s', ?_, hs', hrear₁.trans (hrear₂.trans ((hrear₃.mono le_rfl (by omega)).trans
        (hrear₄.mono (by omega) le_rfl))), fun set hcmp hset => ?_⟩
      · rw [if_pos hlt]
        split
        next hpart' =>
          rw [hpart] at hpart'
          cases hpart'
        next hpart' =>
          rw [hpart] at hpart'
          obtain ⟨rfl, rfl⟩ := ok_pair_inj hpart'
          rw [hswap, ok_bind, hfirst, ok_bind, hright]
      · have hall : ∀ {f g : ℕ → α} {low hi : ℕ}, Rearranged low hi f g → (∀ k, f k ∈ set) →
            ∀ k, g k ∈ set := by
          rintro f g low hi ⟨π, -, rfl⟩ hf k
          exact hf (π k)
        have hset₂ := hall hrear₂ (hall hrear₁ hset)
        have hset₃ := hall hrear₃ hset₂
        have hset₄ := hall hrear₄ hset₃
        have hpivot : view s' (separator - 1) = view u (separator - 1) := by
          rw [hrear₄.outside (by omega)]
          by_cases hone : 1 < separator
          · exact hrear₃.outside (by omega)
          · rw [if_neg hone] at hfirst
            rw [Except.ok.inj hfirst]
        obtain ⟨hless, hnot⟩ := hp.pivot
        rw [← hview] at hless hnot
        refine sortedBetween_of_parts hcmp (p := separator - 1) (fun k _ _ => hset₄ k) (by omega)
          (by omega) (fun k hk hk' => ?_) (fun k hk hk' => ?_) (fun i j hi₁ hij hj => ?_) ?_
        · obtain ⟨j, hj, hj', heq⟩ := hrear₃.inside (k := k) hk (by omega)
          rw [hpivot, hrear₄.outside (by omega), heq]
          exact hless j hj (by omega)
        · obtain ⟨j, hj, hj', heq⟩ := hrear₄.inside (k := k) (by omega) hk'
          rw [hpivot, heq, hrear₃.outside (by omega)]
          exact hnot j hj hj'
        · rw [hrear₄.outside (by omega), hrear₄.outside (by omega)]
          exact hsorted₁ set hcmp hset₂ i j hi₁ hij (by omega)
        · rw [Nat.sub_add_cancel (by omega)]
          exact hsorted₂ set hcmp hset₃
    · rw [if_neg hlt]
      refine ⟨s, rfl, hs, Rearranged.refl, fun _ _ _ i j hi₁ hij hj => by omega⟩

end Operations.Lawful

open Strings

def Slice.take (s : Slice) (n : ℕ) : Checked Slice :=
  if n ≤ s.len then return ⟨s.backing, s.start, n⟩ else .error .index

abbrev Compar := List UInt8 → List UInt8 → ℤ

def object (m : Mem) (ptr size : ℕ) : List UInt8 := m.load (m.bytesAt ptr size)

def elementPtr (base size i : ℕ) : Checked ℕ := do
  return (base + (← mulU32 i size)) % u32Bound

def swapWithSlice (m : Mem) (left right : Slice) : Mem :=
  (m.store left (m.load right)).store right (m.load left)

def arrayOperations (compar : Compar) (base nitems size : ℕ) : Operations Mem where
  compar m i j := do
    let iPtr ← elementPtr base size i
    let jPtr ← elementPtr base size j
    return (compar (object m iPtr size) (object m jPtr size), m)
  swap m i j :=
    if i = j then return m
    else do
      let (i, j) := if j < i then (j, i) else (i, j)
      let baseSlice := m.bytesAtMut base (← mulU32 nitems size)
      let sliceAfterFirst ← baseSlice.drop (← mulU32 i size)
      let offset ← subU32 (← mulU32 j size) (← mulU32 i size)
      let right ← sliceAfterFirst.drop offset
      let left ← Slice.take sliceAfterFirst offset
      return swapWithSlice m (← Slice.take left size) (← Slice.take right size)

def qsort (compar : Compar) (m : Mem) (base nitems size : ℕ) : Checked Mem :=
  (arrayOperations compar base nitems size).qsortGeneric nitems m

def bsearchLoop (compar : Compar) (m : Mem) (key items itemSize low len : ℕ) : Checked ℕ :=
  if 0 < len then do
    let halfLen := len / 2
    let item ← elementPtr items itemSize (low + halfLen)
    let cmpResult := compar (object m key itemSize) (object m item itemSize)
    if cmpResult = 0 then return item
    else if 0 < cmpResult then
      bsearchLoop compar m key items itemSize (low + halfLen + 1) (len - halfLen - 1)
    else bsearchLoop compar m key items itemSize low halfLen
  else return 0
termination_by len

def bsearch (compar : Compar) (m : Mem) (key items itemCount itemSize : ℕ) : Checked ℕ :=
  bsearchLoop compar m key items itemSize 0 itemCount

structure IsArray (m : Mem) (base nitems size : ℕ) : Prop where
  notNull : 0 < base
  address : base < u32Bound
  mapped : m.nullSegmentSize ≤ base
  count : nitems < u32Bound
  within : base + nitems * size ≤ u32Bound

instance (m : Mem) (base nitems size : ℕ) : Decidable (IsArray m base nitems size) :=
  decidable_of_iff (0 < base ∧ base < u32Bound ∧ m.nullSegmentSize ≤ base ∧ nitems < u32Bound ∧
      base + nitems * size ≤ u32Bound)
    ⟨fun h => ⟨h.1, h.2.1, h.2.2.1, h.2.2.2.1, h.2.2.2.2⟩,
      fun h => ⟨h.notNull, h.address, h.mapped, h.count, h.within⟩⟩

def element (m : Mem) (base size k : ℕ) : List UInt8 := m.bytes.load (base + k * size) size

def elements (m : Mem) (base nitems size : ℕ) : List (List UInt8) :=
  (List.range nitems).map (element m base size)

structure SameOutside (m : Mem) (start stop : ℕ) (m' : Mem) : Prop where
  heap : Mem.SameHeap m m'
  nullWriteSink : m'.nullWriteSink = m.nullWriteSink
  outside : ∀ a, a < start ∨ stop ≤ a → m'.bytes a = m.bytes a

variable {compar : Compar} {m m' : Mem} {base nitems size i j k : ℕ}

namespace IsArray

lemma mul_lt (size : ℕ) (hi : i < nitems) : i * size + size ≤ nitems * size := by
  rw [← Nat.succ_mul]
  exact Nat.mul_le_mul_right size hi

variable (h : IsArray m base nitems size)

include h

lemma size_lt : nitems * size < u32Bound := by
  have hnull := h.notNull
  have hwithin := h.within
  omega

lemma mulU32_eq (hi : i < nitems) : mulU32 i size = .ok (i * size) := by
  have hlt := mul_lt size hi
  have htotal := h.size_lt
  exact if_pos (by omega)

lemma elementPtr_eq (hi : i < nitems) : elementPtr base size i = .ok (base + i * size) := by
  have hlt := mul_lt size hi
  have hwithin := h.within
  have haddress := h.address
  have hbelow : base + i * size < u32Bound := by
    cases size with
    | zero => simpa using haddress
    | succ size => omega
  rw [elementPtr, h.mulU32_eq hi, ok_bind, Nat.mod_eq_of_lt hbelow, pure_eq_ok]

lemma view_eq {page : Backing} (hi : i < nitems) :
    m.view page (base + i * size) size = ⟨.guest, base + i * size, size⟩ := by
  have hlt := mul_lt size hi
  have hwithin := h.within
  have hmapped := h.mapped
  rw [Mem.view, if_neg (by omega), if_neg (by unfold bytesLen; unfold u32Bound at hwithin; omega)]

lemma object_eq (hi : i < nitems) : object m (base + i * size) size = element m base size i := by
  rw [object, Mem.bytesAt, h.view_eq hi]
  rfl

lemma baseSlice_eq : m.bytesAtMut base (nitems * size) = ⟨.guest, base, nitems * size⟩ := by
  have hwithin := h.within
  have hmapped := h.mapped
  rw [Mem.bytesAtMut, Mem.view, if_neg (by omega),
    if_neg (by unfold bytesLen; unfold u32Bound at hwithin; omega)]

lemma of_sameHeap (hm : Mem.SameHeap m m') : IsArray m' base nitems size :=
  ⟨h.notNull, h.address, hm.nullSegmentSize ▸ h.mapped, h.count, h.within⟩

end IsArray

def exchanged (m : Mem) (base size i j : ℕ) : Mem :=
  swapWithSlice m ⟨.guest, base + i * size, size⟩ ⟨.guest, base + j * size, size⟩

lemma exchanged_bytes : (exchanged m base size i j).bytes =
    (m.bytes.store (base + i * size) (element m base size j)).store (base + j * size)
      (element m base size i) := rfl

lemma length_element : (element m base size k).length = size := length_load

lemma mul_add_le (size : ℕ) (h : i < j) : i * size + size ≤ j * size := IsArray.mul_lt size h

lemma element_exchanged (hij : i < j) :
    element (exchanged m base size i j) base size = element m base size ∘ Equiv.swap i j := by
  have horder := mul_add_le size hij
  funext k
  rw [Function.comp_apply, element, exchanged_bytes]
  by_cases hj : k = j
  · subst hj
    have hload : load (store (m.bytes.store (base + i * size) (element m base size k))
        (base + k * size) (element m base size i)) (base + k * size) (element m base size i).length =
        element m base size i := load_store
    rw [length_element] at hload
    rw [hload, Equiv.swap_apply_right]
  · have hapart : base + k * size + size ≤ base + j * size ∨
        base + j * size + size ≤ base + k * size := by
      rcases Nat.lt_or_gt_of_ne hj with hlt | hlt
      · have hle := mul_add_le size hlt
        omega
      · have hle := mul_add_le size hlt
        omega
    rw [load_store_of_apart (by rw [length_element]; exact hapart)]
    by_cases hi : k = i
    · subst hi
      have hload : load (m.bytes.store (base + k * size) (element m base size j))
          (base + k * size) (element m base size j).length = element m base size j := load_store
      rw [length_element] at hload
      rw [hload, Equiv.swap_apply_left]
    · have hapart' : base + k * size + size ≤ base + i * size ∨
          base + i * size + size ≤ base + k * size := by
        rcases Nat.lt_or_gt_of_ne hi with hlt | hlt
        · have hle := mul_add_le size hlt
          omega
        · have hle := mul_add_le size hlt
          omega
      rw [load_store_of_apart (by rw [length_element]; exact hapart'),
        Equiv.swap_apply_of_ne_of_ne hi hj, element]

lemma sameOutside_exchanged (hi : i < nitems) (hj : j < nitems) :
    SameOutside m base (base + nitems * size) (exchanged m base size i j) := by
  have hilt := IsArray.mul_lt size hi
  have hjlt := IsArray.mul_lt size hj
  refine ⟨⟨rfl, rfl, rfl⟩, rfl, fun a ha => ?_⟩
  rw [exchanged_bytes, store_outside (by rw [length_element]; omega),
    store_outside (by rw [length_element]; omega)]

lemma SameOutside.trans {m'' : Mem} {start stop : ℕ} (h : SameOutside m start stop m')
    (h' : SameOutside m' start stop m'') : SameOutside m start stop m'' where
  heap := ⟨h'.heap.allocator.trans h.heap.allocator,
    h'.heap.nullSegmentSize.trans h.heap.nullSegmentSize,
    h'.heap.zeroMemoryOnFree.trans h.heap.zeroMemoryOnFree⟩
  nullWriteSink := h'.nullWriteSink.trans h.nullWriteSink
  outside a ha := (h'.outside a ha).trans (h.outside a ha)

lemma IsArray.swap_slices (h : IsArray m base nitems size) (hij : i < j) (hj : j < nitems) :
    (do
      let baseSlice := m.bytesAtMut base (← mulU32 nitems size)
      let sliceAfterFirst ← baseSlice.drop (← mulU32 i size)
      let offset ← subU32 (← mulU32 j size) (← mulU32 i size)
      let right ← sliceAfterFirst.drop offset
      let left ← Slice.take sliceAfterFirst offset
      return swapWithSlice m (← Slice.take left size) (← Slice.take right size)) =
      Except.ok (exchanged m base size i j) := by
  have horder := mul_add_le size hij
  have hjlt := IsArray.mul_lt size hj
  have htotal : mulU32 nitems size = .ok (nitems * size) := if_pos h.size_lt
  have hstart : base + i * size + (j * size - i * size) = base + j * size := by omega
  rw [htotal, h.mulU32_eq hj, h.mulU32_eq (hij.trans hj)]
  simp only [ok_bind]
  rw [h.baseSlice_eq, Memory.Slice.drop, if_pos (by dsimp only; omega), pure_eq_ok, ok_bind,
    subU32_of_le (by omega), ok_bind, Memory.Slice.drop, if_pos (by dsimp only; omega), pure_eq_ok,
    ok_bind, Slice.take, if_pos (by dsimp only; omega), pure_eq_ok, ok_bind, Slice.take,
    if_pos (by dsimp only; omega), pure_eq_ok, ok_bind, Slice.take,
    if_pos (by dsimp only; omega), pure_eq_ok, ok_bind, pure_eq_ok, hstart]
  rfl

lemma IsArray.swap_eq (h : IsArray m base nitems size) (hi : i < nitems) (hj : j < nitems)
    (hne : i ≠ j) : (arrayOperations compar base nitems size).swap m i j =
      .ok (exchanged m base size (min i j) (max i j)) := by
  rw [arrayOperations]
  dsimp only
  rw [if_neg hne]
  rcases Nat.lt_or_gt_of_ne hne with hlt | hlt
  · rw [if_neg (by omega), min_eq_left hlt.le, max_eq_right hlt.le]
    exact h.swap_slices hlt hj
  · rw [if_pos hlt, min_eq_right hlt.le, max_eq_left hlt.le]
    exact h.swap_slices hlt hi

lemma arrayOperations_lawful (compar : Compar) (h : IsArray m base nitems size) :
    (arrayOperations compar base nitems size).Lawful nitems
      (SameOutside m base (base + nitems * size)) (fun s => element s base size) compar where
  compar s i j hs hi hj := by
    have hs := h.of_sameHeap hs.heap
    rw [arrayOperations]
    dsimp only
    rw [hs.elementPtr_eq hi, hs.elementPtr_eq hj, ok_bind, ok_bind, hs.object_eq hi, hs.object_eq hj]
    rfl
  swap s i j hs hi hj := by
    by_cases hne : i = j
    · refine ⟨s, ?_, hs, ?_⟩
      · rw [arrayOperations]
        exact if_pos hne
      · rw [hne, Equiv.swap_self]
        rfl
    · refine ⟨_, (h.of_sameHeap hs.heap).swap_eq hi hj hne,
        hs.trans (sameOutside_exchanged (by omega) (by omega)), ?_⟩
      rw [element_exchanged (by omega)]
      rcases Nat.lt_or_gt_of_ne hne with hlt | hlt
      · rw [min_eq_left hlt.le, max_eq_right hlt.le]
      · rw [min_eq_right hlt.le, max_eq_left hlt.le, Equiv.swap_comm]

lemma elements_getElem (hk : k < (elements m base nitems size).length) :
    (elements m base nitems size)[k] = element m base size k := by
  simp [elements]

def objects (size : ℕ) : Set (List UInt8) := {o | o.length = size}

lemma qsort_spec (compar : Compar) (h : IsArray m base nitems size) :
    ∃ m', qsort compar m base nitems size = .ok m' ∧
      SameOutside m base (base + nitems * size) m' ∧
      (elements m' base nitems size).Perm (elements m base nitems size) ∧
      (Preordered compar (objects size) →
        (elements m' base nitems size).Pairwise fun a b => compar a b ≤ 0) := by
  have hself : SameOutside m base (base + nitems * size) m := ⟨⟨rfl, rfl, rfl⟩, rfl, fun _ _ => rfl⟩
  by_cases hone : nitems < 2
  · refine ⟨m, if_pos hone, hself, List.Perm.refl _, fun _ => ?_⟩
    rw [pairwise_iff_getElem]
    intro i j hi hj hij
    rw [elements, length_map, length_range] at hj
    omega
  · obtain ⟨m', heq, hsame, hrear, hsorted⟩ := (arrayOperations_lawful compar h).qsortRec_spec 0
      (nitems - 1) (by omega) hself
    refine ⟨m', ?_, hsame, hrear.perm (by omega), fun hcmp => ?_⟩
    · rw [qsort, Operations.qsortGeneric, if_neg hone, heq]
    · rw [pairwise_iff_getElem]
      intro i j hi hj hij
      rw [elements_getElem, elements_getElem]
      rw [elements, length_map, length_range] at hj
      exact hsorted _ hcmp (fun _ => length_element) i j (Nat.zero_le i) hij (by omega)

lemma bsearchLoop_spec {compar : Compar} {key : ℕ} (h : IsArray m base nitems size)
    (hkey : IsArray m key 1 size) (hcmp : Preordered compar (objects size))
    (hsorted : (elements m base nitems size).Pairwise fun a b => compar a b ≤ 0) (low len : ℕ)
    (hlen : low + len ≤ nitems)
    (hbelow : ∀ k, k < low → 0 < compar (object m key size) (element m base size k))
    (habove : ∀ k, low + len ≤ k → k < nitems →
      compar (object m key size) (element m base size k) < 0) :
    ∃ r, bsearchLoop compar m key base size low len = .ok r ∧
      ((∃ k < nitems, r = base + k * size ∧ compar (object m key size) (element m base size k) = 0) ∨
        r = 0 ∧ ∀ k < nitems, compar (object m key size) (element m base size k) ≠ 0) := by
  induction len using Nat.strong_induction_on generalizing low with
  | _ len ih =>
    rw [bsearchLoop]
    by_cases hpos : 0 < len
    · have hmid : low + len / 2 < nitems := by omega
      have hle : ∀ i j, i < j → j < nitems →
          compar (element m base size i) (element m base size j) ≤ 0 := by
        intro i j hij hj
        have hlength : (elements m base nitems size).length = nitems := by simp [elements]
        have hpair := pairwise_iff_getElem.mp hsorted i j (by omega) (by omega) hij
        rwa [elements_getElem, elements_getElem] at hpair
      have hmem : object m key size ∈ objects size := by
        have heq := hkey.object_eq (i := 0) one_pos
        rw [zero_mul, add_zero] at heq
        rw [heq]
        exact length_element
      have helement : ∀ k, element m base size k ∈ objects size := fun _ => length_element
      rw [if_pos hpos]
      dsimp only
      rw [h.elementPtr_eq hmid, ok_bind, h.object_eq hmid]
      by_cases heq : compar (object m key size) (element m base size (low + len / 2)) = 0
      · exact ⟨_, if_pos heq, Or.inl ⟨_, hmid, rfl, heq⟩⟩
      · rw [if_neg heq]
        by_cases hgt : 0 < compar (object m key size) (element m base size (low + len / 2))
        · rw [if_pos hgt]
          refine ih (len - len / 2 - 1) (by omega) _ (by omega) (fun k hk => ?_) fun k hk hk' =>
            habove k (by omega) hk'
          rcases Nat.lt_succ_iff_lt_or_eq.mp hk with hk | rfl
          · by_contra hnot
            have htrans := hcmp.trans _ hmem _ (helement k) _ (helement _) (not_lt.mp hnot)
              (hle k _ hk hmid)
            omega
          · exact hgt
        · rw [if_neg hgt]
          have hlt : compar (object m key size) (element m base size (low + len / 2)) < 0 := by omega
          have hflip := (hcmp.swapped _ hmem _ (helement _)).mp hlt
          refine ih (len / 2) (by omega) _ (by omega) hbelow fun k hk hk' => ?_
          rcases hk.eq_or_lt with rfl | hk
          · exact hlt
          · by_contra hnot
            have hkey' := mt (hcmp.swapped _ hmem _ (helement k)).mpr hnot
            have htrans := hcmp.trans _ (helement _) _ (helement k) _ hmem (hle _ k hk hk')
              (not_lt.mp hkey')
            omega
    · refine ⟨0, if_neg hpos, Or.inr ⟨rfl, fun k hk => ?_⟩⟩
      rcases lt_or_ge k low with hlow | hlow
      · exact (hbelow k hlow).ne'
      · exact (habove k (by omega) hk).ne

/-- The sort ends for any comparator, with the elements in another order and everything else as it
was. For an order, what it leaves is sorted, and the search in what is sorted finds an element that
compares equal to the key, if there is one. -/
theorem qsort_bsearch (compar : Compar) (h : IsArray m base nitems size) :
    (∃ m', qsort compar m base nitems size = .ok m' ∧
      SameOutside m base (base + nitems * size) m' ∧
      (elements m' base nitems size).Perm (elements m base nitems size) ∧
      (Preordered compar (objects size) →
        (elements m' base nitems size).Pairwise fun a b => compar a b ≤ 0)) ∧
    ∀ key, IsArray m key 1 size → Preordered compar (objects size) →
      ((elements m base nitems size).Pairwise fun a b => compar a b ≤ 0) →
      ∃ r, bsearch compar m key base nitems size = .ok r ∧
        (r ≠ 0 → ∃ k < nitems, r = base + k * size ∧
          compar (object m key size) (element m base size k) = 0) ∧
        (r ≠ 0 ↔ ∃ k < nitems, compar (object m key size) (element m base size k) = 0) := by
  refine ⟨qsort_spec compar h, fun key hkey hcmp hsorted => ?_⟩
  obtain ⟨r, heq, hr⟩ := bsearchLoop_spec h hkey hcmp hsorted 0 nitems (by omega)
    (fun k hk => absurd hk (Nat.not_lt_zero k)) (fun k hk hk' => by omega)
  refine ⟨r, heq, fun hne => ?_, ?_⟩
  · rcases hr with hfound | ⟨hzero, -⟩
    · exact hfound
    · exact absurd hzero hne
  · rcases hr with ⟨k, hk, rfl, hzero⟩ | ⟨rfl, hnone⟩
    · have hnull := h.notNull
      exact iff_of_true (by omega) ⟨k, hk, hzero⟩
    · refine iff_of_false (fun h => h rfl) ?_
      rintro ⟨k, hk, hzero⟩
      exact hnone k hk hzero

def firstByteOrder : Compar := fun a b => ((a.headD 0).toNat : ℤ) - (b.headD 0).toNat

lemma firstByteOrder_preordered (s : Set (List UInt8)) : Preordered firstByteOrder s where
  swapped a _ b _ := by
    unfold firstByteOrder
    omega
  trans a _ b _ c _ hab hbc := by
    unfold firstByteOrder at *
    omega

def fourBytes : Mem where
  bytes := Bytes.store (fun _ => 0) 4096 [3, 1, 2, 1]
  nullSegmentSize := 4096
  allocator := ⟨ChunkMap.empty, SizeBucketedChunkMap.empty⟩
  zeroMemoryOnFree := true
  nullWriteSink := fun _ => 0

theorem qsort_bsearch_fourBytes : ∃ m', qsort firstByteOrder fourBytes 4096 4 1 = .ok m' ∧
    (elements m' 4096 4 1).Pairwise (fun a b => firstByteOrder a b ≤ 0) ∧
    ∃ r, bsearch firstByteOrder fourBytes 4098 4097 2 1 = .ok r ∧ r ≠ 0 := by
  have harray : IsArray fourBytes 4096 4 1 := by decide
  obtain ⟨m', heq, -, -, hsorted⟩ := (qsort_bsearch firstByteOrder harray).1
  obtain ⟨r, hfound, -, hiff⟩ := (qsort_bsearch firstByteOrder
    (show IsArray fourBytes 4097 2 1 by decide)).2 4098 (by decide) (firstByteOrder_preordered _) (by decide)
  exact ⟨m', heq, hsorted (firstByteOrder_preordered _), r, hfound,
    hiff.mpr ⟨1, by decide, by decide⟩⟩

end TouchHle.Stdlib
