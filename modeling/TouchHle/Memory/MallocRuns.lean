import TouchHle.Memory.Malloc

/-! The blocks of a program lie in chunks of their own, can be given back and grow with their
contents, as long as only pointers to whole chunks are given back. -/

namespace TouchHle.Memory.Libc

open Lib Function List Except Option Chunk Allocator Set

structure Within (c : Chunk) (p : ℕ) (b : Block) : Prop where
  base : c.base ≠ 0
  heap : c ≠ Allocator.mainThreadStack
  mem : p ∈ c.range
  stop : p + b.size ≤ c.stop
  aligned : p % b.alignment = 0
  whole : b.alignment ≤ naturalAlign → c.base = p

structure Tracks (U : Set Chunk) (blocks : ℕ → Option Block) : Prop where
  live : ∀ p b, blocks p = some b → ∃ c ∈ U, Within c p b
  alone : ∀ c ∈ U, ∀ p p' b b', blocks p = some b → blocks p' = some b' → p ∈ c.range →
    p' ∈ c.range → p = p'

section Tracks

variable {U : Set Chunk} {blocks : ℕ → Option Block} {c : Chunk} {p : ℕ} {b : Block}

lemma Tracks.empty : Tracks U fun _ => none :=
  ⟨fun _ _ h => (by cases h), fun _ _ _ _ _ _ h => (by cases h)⟩

lemma Tracks.free_range (h : Tracks U blocks) (hapart : ∀ d ∈ U, Disjoint d.range c.range)
    (hb : blocks p = some b) : p ∉ c.range := by
  obtain ⟨d, hd, hwithin⟩ := h.live p b hb
  exact disjoint_left.mp (hapart d hd) hwithin.mem

lemma Tracks.insert (h : Tracks U blocks) (hapart : ∀ d ∈ U, Disjoint d.range c.range) :
    Tracks (insert c U) blocks := by
  refine ⟨fun p b hb => ?_, fun d hd p p' b b' hb hb' hp hp' => ?_⟩
  · obtain ⟨d, hd, hwithin⟩ := h.live p b hb
    exact ⟨d, mem_insert_of_mem c hd, hwithin⟩
  · obtain rfl | hd := mem_insert_iff.mp hd
    · exact absurd hp (h.free_range hapart hb)
    · exact h.alone d hd p p' b b' hb hb' hp hp'

lemma Tracks.add (h : Tracks U blocks) (hapart : ∀ d ∈ U, Disjoint d.range c.range)
    (hwithin : Within c p b) : Tracks (Insert.insert c U) (update blocks p (some b)) := by
  have hother : ∀ {q b'}, q ≠ p → update blocks p (some b) q = some b' →
      blocks q = some b' := fun hq hb' => (update_of_ne hq _ _).symm.trans hb'
  refine ⟨fun q b' hb' => ?_, fun d hd q q' b' b'' hb' hb'' hq hq' => ?_⟩
  · by_cases hqp : q = p
    · subst hqp
      rw [update_self] at hb'
      obtain rfl := some.inj hb'
      exact ⟨c, mem_insert c U, hwithin⟩
    · obtain ⟨d, hd, hold⟩ := h.live q b' (hother hqp hb')
      exact ⟨d, mem_insert_of_mem c hd, hold⟩
  · have hnew : ∀ {q b'}, update blocks p (some b) q = some b' → q ∈ c.range → q = p := by
      intro q b' hb' hq
      by_contra hqp
      exact h.free_range hapart (hother hqp hb') hq
    obtain rfl | hd := mem_insert_iff.mp hd
    · rw [hnew hb' hq, hnew hb'' hq']
    · have hout : ∀ {q b'}, update blocks p (some b) q = some b' → q ∈ d.range → q ≠ p := by
        rintro q b' hb' hq rfl
        exact disjoint_left.mp (hapart d hd) hq hwithin.mem
      exact h.alone d hd q q' b' b'' (hother (hout hb' hq) hb') (hother (hout hb'' hq') hb'') hq hq'

lemma Tracks.forget (h : Tracks U blocks) (hc : c ∈ U) (hp : p ∈ c.range)
    (hb : blocks p = some b) : Tracks (U \ {c}) (update blocks p none) := by
  have hother : ∀ {q b'}, update blocks p none q = some b' → q ≠ p ∧ blocks q = some b' := by
    intro q b' hb'
    by_cases hqp : q = p
    · subst hqp
      rw [update_self] at hb'
      cases hb'
    · exact ⟨hqp, (update_of_ne hqp _ _).symm.trans hb'⟩
  refine ⟨fun q b' hb' => ?_, fun d hd q q' b' b'' hb' hb'' hq hq' => ?_⟩
  · obtain ⟨hqp, hb'⟩ := hother hb'
    obtain ⟨d, hd, hwithin⟩ := h.live q b' hb'
    refine ⟨d, ⟨hd, ?_⟩, hwithin⟩
    rintro rfl
    exact hqp (h.alone d hd q p b' b hb' hb hwithin.mem hp)
  · exact h.alone d hd.1 q q' b' b'' (hother hb').2 (hother hb'').2 hq hq'

lemma Tracks.whole (h : Tracks U blocks) (hb : blocks p = some b)
    (hnatural : b.alignment ≤ naturalAlign) : ∃ c ∈ U, c.base = p ∧ Within c p b := by
  obtain ⟨c, hc, hwithin⟩ := h.live p b hb
  exact ⟨c, hc, hwithin.whole hnatural, hwithin⟩

end Tracks

structure Good (m : Mem) : Prop where
  sound : m.Sound
  granular : m.allocator.Granular

def used (m : Mem) : Set Chunk := {c | c ∈ m.allocator.usedChunks}

structure Takes (m m' : Mem) (size : ℕ) (c : Chunk) : Prop where
  used : used m' = insert c (used m)
  apart : ∀ d ∈ Libc.used m, Disjoint d.range c.range
  granular : c.base % naturalAlign = 0
  large : size ≤ c.size.get
  fits : ¬ m.allocator.OutOfMemory size

inductive Allocated (m : Mem) (size : ℕ) : ℕ → Mem → Prop
  | failed {m' : Mem} (hused : used m' = used m) : Allocated m size 0 m'
  | taken {m' : Mem} {c : Chunk} (htakes : Takes m m' size c) : Allocated m size c.base m'

section Memory

variable {m m' : Mem} {ptr size v : ℕ} {c : Chunk} {blocks : ℕ → Option Block} {b : Block}

lemma Good.same (h : Good m) (hs : Mem.SameHeap m m') : Good m' :=
  ⟨hs.sound h.sound, hs.allocator ▸ h.granular⟩

lemma used_same (hs : Mem.SameHeap m m') : used m' = used m := by
  rw [used, hs.allocator]
  rfl

lemma sameHeap_trans {m'' : Mem} (h : Mem.SameHeap m m') (h' : Mem.SameHeap m' m'') :
    Mem.SameHeap m m'' :=
  ⟨h'.allocator.trans h.allocator, h'.nullSegmentSize.trans h.nullSegmentSize,
    h'.zeroMemoryOnFree.trans h.zeroMemoryOnFree⟩

lemma sameHeap_writeU32 (m : Mem) (ptr v : ℕ) : Mem.SameHeap m (m.writeU32 ptr v) := by
  have hwrite : ∀ (m : Mem) (p : ℕ) (x : UInt8), Mem.SameHeap m (m.write p x) :=
    fun m p x => Mem.sameHeap_fill _ _
  rw [Mem.writeU32]
  exact sameHeap_trans (sameHeap_trans (sameHeap_trans (hwrite _ _ _) (hwrite _ _ _))
    (hwrite _ _ _)) (hwrite _ _ _)

lemma Good.range_le (h : Good m) (hc : c ∈ used m) (hheap : c ≠ mainThreadStack) :
    c.stop < u32Bound :=
  (h.sound.allocator.below_stack (x := (.used, c)) hc (by simpa using hheap)).trans_lt
    mainThreadStackLowEnd_lt

lemma Good.alloc (h : Good m) (hlt : size < u32Bound) :
    ∃ ptr m', m.alloc size = .ok (ptr, m') ∧ Good m' ∧
      m'.nullSegmentSize = m.nullSegmentSize ∧ Allocated m size ptr m' ∧
      (m.allocator.OutOfMemory size ∨ ∃ c, ptr = c.base ∧ Takes m m' size c) := by
  obtain ⟨hok, hoom⟩ | ⟨existing, c, a, hok, ha⟩ := Mem.alloc_ok h.sound.allocator hlt
  · have hsame := Mem.sameHeap_zeroOnAlloc (m := m) 0 size
    exact ⟨0, _, hok, h.same hsame, hsame.nullSegmentSize, .failed (used_same hsame),
      .inl hoom⟩
  · have hgood : Good (Mem.zeroOnAlloc { m with allocator := a } c.base size) := by
      refine ⟨Mem.alloc_sound h.sound hlt hok, ?_⟩
      exact (Mem.alloc_granular h.sound.allocator h.granular hlt hok).1
    have hused : used (Mem.zeroOnAlloc { m with allocator := a } c.base size) =
        insert c (used m) := by
      ext d
      rw [used_same (Mem.sameHeap_zeroOnAlloc _ _)]
      exact ha.used d
    have hnull := (Mem.sameHeap_zeroOnAlloc (m := { m with allocator := a }) c.base size).nullSegmentSize
    have htakes : Takes m (Mem.zeroOnAlloc { m with allocator := a } c.base size) size c := by
      refine ⟨hused, fun d hd => ?_, ?_, ha.size_le, ?_⟩
      · have hsep := ha.apart h.sound.allocator.wf hd
        exact disjoint_range.mpr hsep
      · exact (Mem.alloc_granular h.sound.allocator h.granular hlt hok).2
      · intro hoom
        obtain ⟨⟨n, hn, ⟨hex, hfit, -⟩, -⟩, -⟩ := ha
        exact absurd hfit (hoom n hn existing hex).not_ge
    exact ⟨c.base, _, hok, hgood, hnull, .taken htakes, .inr ⟨c, rfl, htakes⟩⟩

lemma Takes.base_ne (h : Takes m m' size c) (hgood : Good m) (hnull : 0 < m.nullSegmentSize) :
    c.base ≠ 0 := by
  obtain ⟨n, hn, hnb, -⟩ := hgood.sound.null hnull
  have hsep := disjoint_range.mp (h.apart n hn)
  have hl := n.base_lt_stop
  have hl' := c.base_lt_stop
  omega

lemma Takes.heap (h : Takes m m' size c) (hgood : Good m) : c ≠ mainThreadStack := by
  rintro rfl
  have hsep := disjoint_range.mp (h.apart _ hgood.sound.allocator.stack)
  have hl := mainThreadStack.base_lt_stop
  omega

lemma Takes.within (h : Takes m m' size c) (hgood : Good m) (hne : c.base ≠ 0)
    (hsize : b.size ≤ size) (haligned : b.alignment ∣ naturalAlign) : Within c c.base b := by
  have hl := c.base_lt_stop
  have hlarge := h.large
  refine ⟨hne, h.heap hgood, mem_range.mpr ⟨le_rfl, hl⟩, ?_, ?_, fun _ => rfl⟩
  · rw [stop]
    omega
  · exact Nat.mod_eq_zero_of_dvd (haligned.trans (Nat.dvd_of_mod_eq_zero h.granular))

lemma actualSize_lt (hlt : size < u32Bound) : actualSize size < u32Bound := by
  rw [actualSize]
  split <;> omega

lemma malloc_ok (h : Good m) (hlt : size < u32Bound) :
    ∃ ptr m', malloc m size = .ok (ptr, m') ∧ Good m' ∧
      m'.nullSegmentSize = m.nullSegmentSize ∧
      ∃ n, Allocated m n ptr m' ∧ (ptr ≠ 0 → actualSize size ≤ n ∧
        ¬ m.allocator.OutOfMemory (actualSize size)) := by
  have hactual := actualSize_lt hlt
  generalize hn : (if actualSize size = 0 then 1 else actualSize size) = n
  by_cases hlimit : sizeLimit < n
  · have hok : malloc m size = .ok (0, m) := by
      rw [malloc, hn, if_pos hlimit]
      rfl
    exact ⟨0, m, hok, h, rfl, n, .failed rfl, fun hne => absurd rfl hne⟩
  · have hok : malloc m size = m.alloc n := by
      rw [malloc, hn, if_neg hlimit]
    have hsmall : n < u32Bound := by
      have hlim : sizeLimit < u32Bound := by decide
      omega
    obtain ⟨ptr, m', halloc, hgood, hnull, hres, -⟩ := h.alloc hsmall
    refine ⟨ptr, m', hok.trans halloc, hgood, hnull, n, hres, fun hne => ⟨?_, fun hoom => ?_⟩⟩
    · rw [← hn]
      split <;> omega
    · cases hres with
      | failed => exact hne rfl
      | taken htakes =>
        apply htakes.fits
        rw [← hn]
        split
        · rename_i hzero
          rw [hzero] at hoom
          intro k hk
          exact hoom k hk
        · exact hoom

lemma calloc_ok (h : Good m) (count size : ℕ) :
    ∃ ptr m', calloc m count size = .ok (ptr, m') ∧ Good m' ∧
      m'.nullSegmentSize = m.nullSegmentSize ∧
      ∃ n, Allocated m n ptr m' ∧ (ptr ≠ 0 → size * count ≤ n) := by
  generalize hn : (if size * count = 0 then 1 else size * count) = n
  by_cases hover : u32Bound ≤ size * count
  · exact ⟨0, m, if_pos hover, h, rfl, n, .failed rfl, fun hne => absurd rfl hne⟩
  by_cases hlimit : sizeLimit < size * count
  · exact ⟨0, m, (if_neg hover).trans (if_pos hlimit), h, rfl, n, .failed rfl,
      fun hne => absurd rfl hne⟩
  have hok : calloc m count size = m.calloc n := by
    rw [calloc, if_neg hover, if_neg hlimit, hn]
  have hsmall : n < u32Bound := by
    have hone : 1 < u32Bound := by decide
    rw [← hn]
    split <;> omega
  obtain ⟨ptr, m', halloc, hgood, hnull, hres, -⟩ := h.alloc hsmall
  have hsame : Mem.SameHeap m' (m'.fill (m'.bytesAtMut ptr n) 0) := Mem.sameHeap_fill _ _
  have hcalloc : m.calloc n = .ok (ptr, m'.fill (m'.bytesAtMut ptr n) 0) := by
    rw [Mem.calloc, halloc]
    rfl
  refine ⟨ptr, _, hok.trans hcalloc, hgood.same hsame, hsame.nullSegmentSize.trans hnull, n, ?_,
    fun _ => ?_⟩
  · cases hres with
    | failed hused => exact .failed ((used_same hsame).trans hused)
    | taken htakes =>
      exact .taken ⟨(used_same hsame).trans htakes.used, htakes.apart, htakes.granular,
        htakes.large, htakes.fits⟩
  · rw [← hn]
    split <;> omega

structure Released (m m' : Mem) (c : Chunk) : Prop where
  mem : c ∈ used m
  used : used m' = used m \ {c}
  free : ∃ f ∈ m'.allocator.unusedChunks, c.range ⊆ f.range

lemma Good.free (h : Good m) (hc : c ∈ used m) (hne : c.base ≠ 0)
    (hheap : c ≠ mainThreadStack) :
    ∃ m', m.free c.base = .ok m' ∧ Good m' ∧ m'.nullSegmentSize = m.nullSegmentSize ∧
      Released m m' c := by
  have hgranular := h.granular (.used, c) hc
  have htask : c.base ≠ Mem.machTaskSelf := by
    intro heq
    have hmod := hgranular.1
    rw [heq] at hmod
    exact absurd hmod (by decide)
  obtain ⟨m', hfree, hgone⟩ := Mem.free_at h.sound.allocator hc hne htask hheap
  have hcases := Mem.free_cases h.sound.allocator hfree
  refine ⟨m', hfree, ⟨hcases.sound h.sound, hcases.granular h.granular⟩, ?_⟩
  cases hcases with
  | ignored => exact absurd hc hgone
  | @freed d removed added a _ _ hbase _ hf =>
    obtain rfl : c = d := ChunkMap.eq_of_base hc hf.mem hbase.symm
    have hsame := Mem.sameHeap_zeroOnFree (m := { m with allocator := a }) c.base c.size.get
    refine ⟨hsame.nullSegmentSize, hc, ?_, ?_⟩
    · ext d
      rw [used_same hsame]
      exact hf.used d
    · have htrack : ∀ f ∈ added, c.range ⊆ f.range →
          ∃ f ∈ (Mem.zeroOnFree { m with allocator := a } c.base c.size.get).allocator.unusedChunks,
            c.range ⊆ f.range := by
        intro f hf' hsub
        rw [hsame.allocator]
        refine ⟨f, (hf.unused f).mpr (.inl ⟨hf', ?_⟩), hsub⟩
        -- the bounds of the chunk are multiples of the granule
        have hl := c.base_lt_stop
        have hstop : c.stop % 16 = 0 := hgranular.2
        have hbase' : c.base % 16 = 0 := hgranular.1
        have hf_lo := mem_range.mp (hsub (mem_range.mpr ⟨le_rfl, hl⟩))
        have hf_hi := mem_range.mp (hsub (mem_range.mpr
          ⟨Nat.le_sub_one_of_lt hl, Nat.sub_lt (Nat.zero_lt_of_lt hl) one_pos⟩))
        have hfstop : f.stop = f.base + f.size.get := rfl
        change 16 ≤ f.size.get
        omega
      cases hf.coalesced with
      | alone => exact htrack c mem_cons_self (Set.Subset.refl _)
      | apart => exact htrack c (mem_cons_of_mem _ mem_cons_self) (Set.Subset.refl _)
      | @merged adjacent combined hadj hb hs _ =>
        refine htrack combined mem_cons_self fun i hi => ?_
        obtain ⟨hlo, hhi⟩ := mem_range.mp hi
        refine mem_range.mpr ⟨?_, ?_⟩
        · omega
        · simp only [stop] at *
          omega

lemma isKnown (hc : c ∈ used m) : m.allocator.isKnownAllocation c.base = true := by
  rw [isKnownAllocation, ChunkMap.getSizeWithBase_eq_some.mpr hc]
  rfl

lemma free_ok (h : Good m) (hnull : 0x1000 ≤ m.nullSegmentSize) (hc : c ∈ used m)
    (hne : c.base ≠ 0) (hheap : c ≠ mainThreadStack) :
    ∃ m', free m c.base = .ok m' ∧ Good m' ∧ m'.nullSegmentSize = m.nullSegmentSize ∧
      Released m m' c := by
  obtain ⟨m', hfree, hrest⟩ := h.free hc hne hheap
  have hlo := h.sound.null_le hc hne
  have hl := c.base_lt_stop
  have hstop : c.stop ≤ mainThreadStackLowEnd :=
    h.sound.allocator.below_stack (x := (.used, c)) hc (by simpa using hheap)
  have hend : mainThreadStackLowEnd = 0xfff00000 := rfl
  refine ⟨m', ?_, hrest⟩
  rw [free, if_neg hne, if_neg (not_not.mpr (by omega)), isKnown hc]
  exact hfree

structure Regrown (m m' : Mem) (size : ℕ) (c d : Chunk) : Prop where
  used : used m' = insert d (used m \ {c})
  apart : ∀ e ∈ Libc.used m \ {c}, Disjoint e.range d.range
  base : d.base ≠ 0
  heap : d ≠ Allocator.mainThreadStack
  granular : d.base % naturalAlign = 0
  large : size ≤ d.size.get
  contents : ∀ i < min c.size.get size, m'.bytes (d.base + i) = m.bytes (c.base + i)

lemma zeroTail_ok (m : Mem) {ptr oldSize grownSize : ℕ} (hnull : m.nullSegmentSize ≤ ptr)
    (hle : oldSize ≤ grownSize) (hstop : ptr + grownSize ≤ bytesLen) :
    ∃ m', m.zeroTail ptr oldSize grownSize = .ok m' := by
  rw [Mem.zeroTail]
  split
  · rw [Mem.bytesAtMut, Mem.view, if_neg hnull.not_gt, if_neg hstop.not_gt, Slice.drop,
      if_pos hle]
    exact ⟨_, rfl⟩
  · exact ⟨m, rfl⟩

lemma Good.apart (h : Good m) {d : Chunk} (hc : c ∈ used m) (hd : d ∈ used m) (hne : c ≠ d) :
    Disjoint c.range d.range :=
  disjoint_range.mpr (h.sound.allocator.wf.disjoint_of_ne (x := (.used, c)) (y := (.used, d))
    hc hd (by simpa using hne))

lemma Good.relocate (h : Good m) (hnull : 0 < m.nullSegmentSize) (hc : c ∈ used m)
    (hne : c.base ≠ 0) (hheap : c ≠ mainThreadStack) (hlt : size < u32Bound)
    (hmem : ¬ m.allocator.OutOfMemory size) :
    ∃ ptr m', m.relocate c.base c.size.get size = .ok (ptr, m') ∧ Good m' ∧
      m'.nullSegmentSize = m.nullSegmentSize ∧
      ∃ d, d.base = ptr ∧ used m' = insert d (used m \ {c}) ∧
        (∀ e ∈ used m \ {c}, Disjoint e.range d.range) ∧ d.base ≠ 0 ∧
        d ≠ mainThreadStack ∧ d.base % naturalAlign = 0 ∧ size ≤ d.size.get := by
  obtain ⟨ptr, m₁, halloc, hgood, hnull₁, -, hres⟩ := h.alloc hlt
  obtain ⟨d, rfl, htakes⟩ := hres.resolve_left hmem
  have hmove := Mem.sameHeap_memmove (m := m₁) d.base c.base c.size.get
  have hin : c ∈ used (m₁.memmove d.base c.base c.size.get) := by
    rw [used_same hmove, htakes.used]
    exact mem_insert_of_mem d hc
  obtain ⟨m', hfree, hgood', hnull', hrel⟩ := (hgood.same hmove).free hin hne hheap
  refine ⟨d.base, m', Mem.relocate_eq_ok.mpr ⟨m₁, halloc, hfree⟩, hgood',
    hnull'.trans (hmove.nullSegmentSize.trans hnull₁), d, rfl, ?_, fun e he => htakes.apart e he.1,
    htakes.base_ne h hnull, htakes.heap h, htakes.granular, htakes.large⟩
  have hdc : d ≠ c := by
    rintro rfl
    exact disjoint_left.mp (htakes.apart d hc) (mem_range.mpr ⟨le_rfl, d.base_lt_stop⟩)
      (mem_range.mpr ⟨le_rfl, d.base_lt_stop⟩)
  rw [hrel.used, used_same hmove, htakes.used, insert_sdiff_of_notMem _ fun hd => hdc (mem_singleton_iff.mp hd)]

lemma Good.realloc (h : Good m) (hnull : 0 < m.nullSegmentSize) (hc : c ∈ used m)
    (hne : c.base ≠ 0) (hheap : c ≠ mainThreadStack) (hlt : size < u32Bound)
    (hserve : m.CanServe c size)
    (hsplit : m.allocator.SplitsNeighbour c.base size → size % minChunkSize = 0) :
    ∃ m' d, m.realloc c.base size = .ok (d.base, m') ∧ Good m' ∧
      m'.nullSegmentSize = m.nullSegmentSize ∧ Regrown m m' size c d := by
  have hintact := Mem.realloc_intact h.sound hc hne hlt hserve
  have hsize := findAllocatedSize_of_mem hc
  have hgranular := (h.granular (.used, c) hc).1
  have hself : used m = insert c (used m \ {c}) := by
    rw [insert_sdiff_singleton, insert_eq_of_mem hc]
  by_cases hle : size ≤ c.size.get
  · have hok : m.realloc c.base size = .ok (c.base, m) := by
      rw [Mem.realloc, if_neg hne, hsize, if_pos hle]
      rfl
    exact ⟨m, c, hok, h, rfl, hself, fun e he => h.apart he.1 hc he.2, hne, hheap, hgranular, hle,
      fun _ _ => rfl⟩
  have hbase : c.base ≠ mainThreadStackLowEnd := fun he => hheap (h.sound.allocator.eq_stack hc he)
  have hgood : ∀ {newPtr m'}, m.realloc c.base size = .ok (newPtr, m') → Good m' := by
    intro newPtr m' hok
    have hcases := Mem.realloc_cases h.sound.allocator hok
    exact ⟨hcases.sound h.sound hlt, hcases.granular h.sound h.granular hlt hsplit⟩
  obtain ⟨a, hgrow, hcoh, hsame, hroom⟩ | ⟨adjacent, grown, a, hgrow, hg⟩ :=
    growInPlace_ok h.sound.allocator.wf hc (not_le.mp hle)
      (h.sound.allocator.used_stop_lt hc hbase) h.sound.allocator.free_stop_lt
  · have h₀ : Good { m with allocator := a } :=
      ⟨h.sound.of_stepped (.same hcoh hsame) fun d hd _ => (hsame.1 d).mpr hd,
        h.granular.same hsame⟩
    have hused : used { m with allocator := a } = used m := ext fun d => hsame.1 d
    have hmem : ¬ a.OutOfMemory size := by
      rw [hsame.outOfMemory]
      obtain hle' | ⟨d, hd⟩ | hmem := hserve
      · exact absurd hle' hle
      · exact absurd hd (hroom d)
      · exact hmem
    obtain ⟨ptr, m', hreloc, hgood', hnull', d, rfl, hused', hapart, hd0, hdheap, hdg, hdl⟩ :=
      h₀.relocate hnull (hused ▸ hc) hne hheap hlt hmem
    have hok : m.realloc c.base size = .ok (d.base, m') := by
      rw [Mem.realloc, if_neg hne, hsize, if_neg hle, hgrow]
      exact hreloc
    refine ⟨m', d, hok, hgood', hnull', ?_, ?_, hd0, hdheap, hdg, hdl,
      ((hintact d.base m' hok).1 hd0).1⟩
    · rw [hused', hused]
    · rw [← hused]
      exact hapart
  · have hgrown := hg.size_bounds.1
    have hgbase : grown.base = c.base := by
      obtain ⟨pieces, hpieces, -⟩ := hg.pieces
      exact hpieces.base_eq
    have hgstop : grown.stop ≤ u32Bound := by
      obtain ⟨pieces, hpieces, -⟩ := hg.pieces
      exact hpieces.stop_le.trans (h.sound.allocator.wf.tidy.stop_le adjacent hg.room.mem)
    have hstop : grown.stop = grown.base + grown.size.get := rfl
    obtain ⟨m', htail⟩ := zeroTail_ok { m with allocator := a }
      (h.sound.null_le hc hne) (show c.size.get ≤ grown.size.get by omega)
      (by have hb := Mem.u32Bound_le; omega)
    have hok : m.realloc c.base size = .ok (grown.base, m') := by
      rw [Mem.realloc, if_neg hne, hsize, if_neg hle, hgrow, hgbase, ok_bind]
      change (Mem.zeroTail { m with allocator := a } c.base c.size.get grown.size.get >>= _) = _
      rw [htail]
      rfl
    have hsame := Mem.sameHeap_zeroTail htail
    refine ⟨m', grown, hok, hgood hok, hsame.nullSegmentSize, ?_, fun e he => ?_, hgbase ▸ hne, ?_,
      hgbase ▸ hgranular, hgrown, ((hintact grown.base m' hok).1 (hgbase ▸ hne)).1⟩
    · ext d
      rw [used_same hsame]
      exact hg.used d
    · exact disjoint_range.mpr (hg.apart h.sound.allocator.wf he.1 he.2)
    · rintro rfl
      exact hbase hgbase.symm

lemma read_at (hnull : m.nullSegmentSize ≤ ptr) (hl : ptr + 1 ≤ bytesLen) :
    m.read ptr = m.bytes ptr := by
  rw [Mem.read, Mem.bytesAt, Mem.view, if_neg hnull.not_gt, if_neg hl.not_gt]
  rfl

lemma write_bytes {x : UInt8} {i : ℕ} (hnull : m.nullSegmentSize ≤ ptr) (hl : ptr + 1 ≤ bytesLen) :
    (m.write ptr x).bytes i = if i = ptr then x else m.bytes i := by
  rw [Mem.write, Mem.fill_bytes hnull hl]
  split
  · rename_i heq
    exact Bytes.fill_inside (by omega) (by omega)
  · exact Bytes.fill_outside (by omega)

lemma wordByte_toNat (i : ℕ) : (Mem.wordByte v i).toNat = v / 256 ^ i % 256 := by
  rw [Mem.wordByte]
  exact UInt8.toNat_ofNat'

lemma readU32_writeU32 (hnull : m.nullSegmentSize ≤ ptr) (hl : ptr + 4 ≤ bytesLen)
    (hv : v < u32Bound) : (m.writeU32 ptr v).readU32 ptr = v := by
  have hread : ∀ j < 4, (m.writeU32 ptr v).read (ptr + j) = (m.writeU32 ptr v).bytes (ptr + j) := by
    intro j hj
    apply read_at
    · rw [(sameHeap_writeU32 _ _ _).nullSegmentSize]
      omega
    · omega
  have hbytes : ∀ j < 4, (m.writeU32 ptr v).bytes (ptr + j) = Mem.wordByte v j := by
    have hkeep : ∀ (m : Mem) (p : ℕ) (x : UInt8), (m.write p x).nullSegmentSize = m.nullSegmentSize :=
      fun m p x => Mem.fill_nullSegmentSize _ _
    intro j hj
    rw [Mem.writeU32]
    rw [write_bytes (by simp only [hkeep]; omega) (by omega),
      write_bytes (by simp only [hkeep]; omega) (by omega),
      write_bytes (by simp only [hkeep]; omega) (by omega), write_bytes hnull (by omega)]
    interval_cases j <;> simp
  have hword : ∀ j < 4, ((m.writeU32 ptr v).read (ptr + j)).toNat = v / 256 ^ j % 256 := by
    intro j hj
    rw [hread j hj, hbytes j hj, wordByte_toNat]
  have h0 := hword 0 (by omega)
  have h1 := hword 1 (by omega)
  have h2 := hword 2 (by omega)
  have h3 := hword 3 (by omega)
  rw [Nat.add_zero] at h0
  rw [Mem.readU32, h0, h1, h2, h3]
  simp only [u32Bound] at hv
  omega

lemma aligned_within (raw : ℕ) {alignment : ℕ} (hpos : 0 < alignment) :
    let bound := raw + header + alignment - 1
    let aligned := bound - bound % alignment
    raw + header ≤ aligned ∧ aligned < raw + header + alignment ∧ aligned % alignment = 0 := by
  have hmod := Nat.mod_lt (raw + header + alignment - 1) hpos
  dsimp only
  refine ⟨by omega, by omega, ?_⟩
  exact Nat.mod_eq_zero_of_dvd (Nat.dvd_sub_mod _)

inductive Memaligned (m : Mem) (b : Block) : ℕ → Mem → Prop
  | failed {m' : Mem} (hused : used m' = used m ∨ ∃ c, used m' = insert c (used m) ∧
      ∀ d ∈ used m, Disjoint d.range c.range) : Memaligned m b 0 m'
  | taken {m' : Mem} {c : Chunk} {p : ℕ} (hused : used m' = insert c (used m))
      (hapart : ∀ d ∈ used m, Disjoint d.range c.range) (hwithin : Within c p b) :
      Memaligned m b p m'

lemma notMem_of_apart {U : Set Chunk} (hapart : ∀ d ∈ U, Disjoint d.range c.range) : c ∉ U := by
  intro hc
  have hmem : c.base ∈ c.range := mem_range.mpr ⟨le_rfl, c.base_lt_stop⟩
  exact disjoint_left.mp (hapart c hc) hmem hmem

lemma Allocated.memaligned (h : Allocated m size ptr m') (hgood : Good m)
    (hnull : 0 < m.nullSegmentSize) (hsize : ptr ≠ 0 → b.size ≤ size)
    (haligned : b.alignment ∣ naturalAlign) : Memaligned m b ptr m' := by
  cases h with
  | failed hused => exact .failed (.inl hused)
  | taken htakes =>
    have hne := htakes.base_ne hgood hnull
    exact .taken htakes.used htakes.apart (htakes.within hgood hne (hsize hne) haligned)

lemma Memaligned.tracks (h : Memaligned m b ptr m') (ht : Tracks (used m) blocks) :
    Tracks (used m') (if ptr = 0 then blocks else update blocks ptr (some b)) ∧
      (ptr ≠ 0 → ∃ c ∈ used m', Within c ptr b) := by
  cases h with
  | failed hused =>
    rw [if_pos rfl]
    refine ⟨?_, fun hne => absurd rfl hne⟩
    obtain hused | ⟨c, hused, hapart⟩ := hused <;> rw [hused]
    · exact ht
    · exact ht.insert hapart
  | @taken _ c _ hused hapart hwithin =>
    have hpos : ptr ≠ 0 := by
      have hmem := mem_range.mp hwithin.mem
      have hbase := hwithin.base
      omega
    rw [hused, if_neg hpos]
    exact ⟨ht.add hapart hwithin, fun _ => ⟨c, mem_insert c _, hwithin⟩⟩

def Plausible (m : Mem) (size : ℕ) : Prop :=
  size ≤ 0xF0000000 ∨ m.allocator.OutOfMemory (actualSize size)

lemma malloc_memaligned {alignment : ℕ} (h : Good m) (hnull : 0 < m.nullSegmentSize)
    (hlt : size < u32Bound) (hsensible : Plausible m size) (haligned : alignment ∣ naturalAlign) :
    ∃ ptr m', malloc m size = .ok (ptr, m') ∧ Good m' ∧ m'.nullSegmentSize = m.nullSegmentSize ∧
      Memaligned m ⟨size, alignment⟩ ptr m' := by
  obtain ⟨ptr, m', hok, hgood, hnull', n, hres, hsize⟩ := malloc_ok h hlt
  refine ⟨ptr, m', hok, hgood, hnull', hres.memaligned h hnull (fun hne => ?_) haligned⟩
  obtain ⟨hle, hmem⟩ := hsize hne
  have hsmall := hsensible.resolve_right hmem
  rw [actualSize, if_neg hsmall.not_gt] at hle
  exact hle

lemma dvd_naturalAlign {alignment : ℕ} (hpow : IsPowerOfTwo alignment)
    (hle : alignment ≤ naturalAlign) : alignment ∣ naturalAlign := by
  have hpow' : 2 ^ Nat.log 2 alignment = alignment := hpow
  rw [← hpow'] at hle ⊢
  apply Nat.pow_dvd_pow 2 (m := Nat.log 2 alignment) (n := 4)
  exact (Nat.pow_le_pow_iff_right one_lt_two).mp hle

lemma posixMemalign_ok {memptr alignment : ℕ} (h : Good m) (hnull : 0 < m.nullSegmentSize)
    (hptr : memptr = 0 ∨ m.nullSegmentSize ≤ memptr) (hl : memptr + 4 ≤ bytesLen)
    (hlt : size < u32Bound) (hsensible : alignment ≤ naturalAlign → Plausible m size) :
    ∃ rc m', posixMemalign m memptr alignment size = .ok (rc, m') ∧ Good m' ∧
      m'.nullSegmentSize = m.nullSegmentSize ∧
      Memaligned m ⟨size, alignment⟩ (if rc = 0 then m'.readU32 memptr else 0) m' := by
  by_cases hzero : memptr = 0
  · exact ⟨einval, m, if_pos hzero, h, rfl, .failed (.inl rfl)⟩
  by_cases hal : alignment < 4 ∨ ¬ IsPowerOfTwo alignment
  · exact ⟨einval, m, (if_neg hzero).trans (if_pos hal), h, rfl, .failed (.inl rfl)⟩
  have hstart : m.nullSegmentSize ≤ memptr := hptr.resolve_left hzero
  obtain ⟨hfour, hpow⟩ : 4 ≤ alignment ∧ IsPowerOfTwo alignment := by
    simpa only [not_or, not_lt, not_not] using hal
  by_cases hnatural : alignment ≤ naturalAlign
  · obtain ⟨p, m₁, hok, hgood, hnull₁, hres⟩ := malloc_memaligned h hnull hlt (hsensible hnatural)
      (dvd_naturalAlign hpow hnatural)
    by_cases hp : p = 0
    · refine ⟨enomem, m₁, ?_, hgood, hnull₁, ?_⟩
      · rw [posixMemalign, if_neg hzero, if_neg hal, if_pos hnatural, hok, ok_bind]
        exact if_pos hp
      · rw [if_neg (by decide)]
        exact hp ▸ hres
    · have hsame := sameHeap_writeU32 m₁ memptr p
      have hread : (m₁.writeU32 memptr p).readU32 memptr = p := by
        apply readU32_writeU32 (hnull₁ ▸ hstart) hl
        cases hres with
        | failed => exact absurd rfl hp
        | @taken _ c _ hused _ hwithin =>
          have hc : c ∈ used m₁ := hused ▸ mem_insert c _
          have hstop := hgood.range_le hc hwithin.heap
          have hmem := mem_range.mp hwithin.mem
          omega
      refine ⟨0, m₁.writeU32 memptr p, ?_, hgood.same hsame, hsame.nullSegmentSize.trans hnull₁, ?_⟩
      · rw [posixMemalign, if_neg hzero, if_neg hal, if_pos hnatural, hok, ok_bind]
        exact if_neg hp
      · rw [if_pos rfl, hread]
        cases hres with
        | failed => exact absurd rfl hp
        | taken hused hapart hwithin => exact .taken ((used_same hsame).trans hused) hapart hwithin
  by_cases hover : u32Bound ≤ size + alignment ∨ u32Bound ≤ size + alignment + header
  · refine ⟨enomem, m, ?_, h, rfl, .failed (.inl rfl)⟩
    rw [posixMemalign, if_neg hzero, if_neg hal, if_neg hnatural, if_pos hover]
    rfl
  obtain ⟨raw, m₁, hok, hgood, hnull₁, hres, -⟩ :=
    h.alloc (show size + alignment + header < u32Bound by omega)
  cases hres with
  | failed hused =>
    refine ⟨enomem, m₁, ?_, hgood, hnull₁, .failed (.inl hused)⟩
    rw [posixMemalign, if_neg hzero, if_neg hal, if_neg hnatural, if_neg hover, hok, ok_bind]
    rfl
  | @taken _ c htakes =>
    have hne := htakes.base_ne h hnull
    have hc : c ∈ used m₁ := htakes.used ▸ mem_insert c _
    have hstop := hgood.range_le hc (htakes.heap h)
    have hlarge := htakes.large
    have hcstop : c.stop = c.base + c.size.get := rfl
    have hheader : header = 4 := rfl
    obtain ⟨hlo, hhi, hmod⟩ := aligned_within c.base (show 0 < alignment by omega)
    generalize haligned : c.base + header + alignment - 1 -
      (c.base + header + alignment - 1) % alignment = aligned at hlo hhi hmod
    have hsame := sameHeap_trans (sameHeap_writeU32 m₁ (aligned - header) c.base)
      (sameHeap_writeU32 _ memptr aligned)
    have hread : ((m₁.writeU32 (aligned - header) c.base).writeU32 memptr aligned).readU32 memptr =
        aligned := by
      apply readU32_writeU32 _ hl (by omega)
      rw [(sameHeap_writeU32 _ _ _).nullSegmentSize, hnull₁]
      exact hstart
    refine ⟨0, _, ?_, hgood.same hsame, hsame.nullSegmentSize.trans hnull₁, ?_⟩
    · rw [posixMemalign, if_neg hzero, if_neg hal, if_neg hnatural, if_neg hover, hok, ok_bind]
      dsimp only
      rw [if_neg hne, addU32_of_lt (by omega), ok_bind, addU32_of_lt (by omega), ok_bind,
        subU32_of_le (by omega), ok_bind, haligned]
      rfl
    · rw [if_pos rfl, hread]
      refine .taken ((used_same hsame).trans htakes.used) htakes.apart ⟨hne, htakes.heap h,
        mem_range.mpr ⟨by omega, by omega⟩, ?_, hmod, fun hle => absurd hle hnatural⟩
      dsimp only
      omega

lemma valloc_ok (h : Good m) (hnull : 0 < m.nullSegmentSize) (hlt : size < u32Bound) :
    ∃ ptr m', valloc m size = .ok (ptr, m') ∧ Good m' ∧ m'.nullSegmentSize = m.nullSegmentSize ∧
      Memaligned m ⟨size, pageSize⟩ ptr m' := by
  obtain ⟨out, m₁, hok, hgood, hnull₁, hres, -⟩ := h.alloc (show 4 < u32Bound by decide)
  cases hres with
  | failed hused =>
    refine ⟨0, m₁, ?_, hgood, hnull₁, .failed (.inl hused)⟩
    rw [valloc, hok]
    rfl
  | @taken _ d htakes =>
    have hne := htakes.base_ne h hnull
    have hd : d ∈ used m₁ := htakes.used ▸ mem_insert d _
    have hstop := hgood.range_le hd (htakes.heap h)
    have hlarge := htakes.large
    have hdstop : d.stop = d.base + d.size.get := rfl
    have hbound := Mem.u32Bound_le
    have hpage : ¬ pageSize ≤ naturalAlign := by decide
    have hroom : d.base + 4 ≤ bytesLen := by omega
    have hnull₁' : 0 < m₁.nullSegmentSize := by rwa [hnull₁]
    obtain ⟨rc, m₂, hok₂, hgood₂, hnull₂, hres₂⟩ := posixMemalign_ok hgood hnull₁'
      (.inr (hgood.sound.null_le hd hne)) hroom hlt (fun hle => absurd hle hpage)
    generalize hptr : (if rc = 0 then m₂.readU32 d.base else 0) = ptr at hres₂
    have hd₂ : d ∈ used m₂ := by
      cases hres₂ with
      | failed hused =>
        obtain hused | ⟨c, hused, -⟩ := hused <;> rw [hused]
        · exact hd
        · exact mem_insert_of_mem c hd
      | taken hused => exact hused ▸ mem_insert_of_mem _ hd
    obtain ⟨m₃, hfree, hgood₃, hnull₃, hrel⟩ := hgood₂.free hd₂ hne (htakes.heap h)
    have hd₀ : d ∉ used m := notMem_of_apart htakes.apart
    have hback : insert d (used m) \ {d} = used m := by
      rw [insert_sdiff_self_of_notMem hd₀]
    have hboth : ∀ {c : Chunk}, (∀ e ∈ used m₁, Disjoint e.range c.range) →
        insert c (used m₁) \ {d} = insert c (used m) := by
      intro c hapart
      have hcd : c ∉ ({d} : Set Chunk) := by
        intro hcd
        obtain rfl := mem_singleton_iff.mp hcd
        exact notMem_of_apart hapart hd
      rw [insert_sdiff_of_notMem _ hcd, htakes.used, hback]
    have hsub : ∀ e ∈ used m, e ∈ used m₁ := fun e he => htakes.used ▸ mem_insert_of_mem d he
    refine ⟨ptr, m₃, ?_, hgood₃, hnull₃.trans (hnull₂.trans hnull₁), ?_⟩
    · rw [valloc, hok, ok_bind]
      dsimp only
      rw [hok₂, ok_bind]
      dsimp only
      rw [hfree, hptr]
      rfl
    · cases hres₂ with
      | failed hused =>
        refine .failed ?_
        obtain hused | ⟨c, hused, hapart⟩ := hused
        · left
          rw [hrel.used, hused, htakes.used, hback]
        · right
          refine ⟨c, ?_, fun e he => hapart e (hsub e he)⟩
          rw [hrel.used, hused, hboth hapart]
      | @taken _ c _ hused hapart hwithin =>
        refine .taken ?_ (fun e he => hapart e (hsub e he)) hwithin
        rw [hrel.used, hused, hboth hapart]

end Memory

structure Kept (w : Heap) : Prop where
  good : Good w.mem
  null : 0x1000 ≤ w.mem.nullSegmentSize
  tracks : Tracks (used w.mem) w.blocks

structure Served (w w' : Heap) (r : Request) (ptr : ℕ) : Prop where
  block : ∀ b ∈ r.asks, ptr ≠ 0 → ∃ c ∈ used w'.mem, Within c ptr b
  released : ∀ p : GuestUSize, r = .free p → (p : ℕ) ≠ 0 →
    ∃ c : Chunk, (p : ℕ) ∈ c.range ∧ Released w.mem w'.mem c
  kept : ∀ (p n : GuestUSize) b, r = .realloc p n → w.blocks p = some b →
    ∀ i < min b.size n, w'.mem.bytes ((if ptr = 0 then (p : ℕ) else ptr) + i) = w.mem.bytes (p + i)

def Valid (w : Heap) (r : Request) : Prop := ∀ p ∈ r.gives, p = 0 ∨ (w.blocks p).isSome

def Natural (w : Heap) (p : ℕ) : Prop := ∃ b, w.blocks p = some b ∧ b.alignment ≤ naturalAlign

/-- Only pointers of natural alignment are given back, sizes are not taken for negative ones, and
`realloc` finds memory and does not cut a neighbour off the granule. -/
def Use (w : Heap) : Request → Prop
  | .malloc size => Plausible w.mem size
  | .calloc _ _ => True
  | .realloc ptr size =>
    if (ptr : ℕ) = 0 then Plausible w.mem size
    else
      let asked := if (size : ℕ) = 0 then 1 else (size : ℕ)
      Natural w ptr ∧ (∀ c ∈ used w.mem, c.base = ptr → w.mem.CanServe c asked) ∧
        (w.mem.allocator.SplitsNeighbour ptr asked → asked % minChunkSize = 0)
  | .posixMemalign memptr alignment size =>
    ((memptr : ℕ) = 0 ∨ w.mem.nullSegmentSize ≤ memptr) ∧
      ((alignment : ℕ) ≤ naturalAlign → Plausible w.mem size)
  | .valloc _ => True
  | .free ptr => (ptr : ℕ) = 0 ∨ Natural w ptr
  | .write _ _ => True

section Steps

variable {w w' : Heap} {r : Request} {ptr : ℕ} {m' : Mem} {b : Block}

lemma Kept.asked (h : Kept w) (hasks : r.asks = some b) (hgives : r.gives = none)
    (hgood : Good m') (hnull : m'.nullSegmentSize = w.mem.nullSegmentSize)
    (hres : Memaligned w.mem b ptr m') (hok : serve w.mem r = .ok (ptr, m')) :
    ∃ ptr w', serve w.mem r = .ok (ptr, w'.mem) ∧ w.step r = .ok w' ∧ Kept w' ∧
      Served w w' r ptr := by
  obtain ⟨htracks, hblock⟩ := hres.tracks h.tracks
  have hrecord : w.record r ptr = if ptr = 0 then w.blocks else update w.blocks ptr (some b) := by
    rw [Heap.record, hasks, hgives]
    rfl
  refine ⟨ptr, ⟨m', w.record r ptr⟩, hok, ?_, ⟨hgood, hnull ▸ h.null, ?_⟩, fun b' hb' => ?_,
    fun p hp => ?_, fun p n b' hr => ?_⟩
  · rw [Heap.step, hok]
    rfl
  · rw [hrecord]
    exact htracks
  · obtain rfl := some.inj (hasks.symm.trans hb')
    exact hblock
  · subst hp
    cases hgives
  · subst hr
    cases hgives

lemma Kept.free (h : Kept w) {p : GuestUSize} (hnatural : Natural w p) :
    ∃ m', Libc.free w.mem p = .ok m' ∧ Good m' ∧ m'.nullSegmentSize = w.mem.nullSegmentSize ∧
      Tracks (used m') (update w.blocks p none) ∧
      ∃ c : Chunk, (p : ℕ) ∈ c.range ∧ Released w.mem m' c := by
  obtain ⟨b, hb, hal⟩ := hnatural
  obtain ⟨c, hc, hbase, hwithin⟩ := h.tracks.whole hb hal
  obtain ⟨m', hok, hgood, hnull, hrel⟩ := free_ok h.good h.null hc hwithin.base hwithin.heap
  rw [hbase] at hok
  refine ⟨m', hok, hgood, hnull, ?_, c, hwithin.mem, hrel⟩
  rw [hrel.used]
  exact h.tracks.forget hc hwithin.mem hb

lemma Kept.null_block (h : Kept w) {p : ℕ} (hp : p = 0) : w.blocks p = none := by
  rw [eq_none_iff_forall_ne_some]
  intro b hb
  obtain ⟨c, -, hwithin⟩ := h.tracks.live p b hb
  have hmem := mem_range.mp hwithin.mem
  have hbase := hwithin.base
  omega

lemma Kept.update_null (h : Kept w) {p : ℕ} (hp : p = 0) :
    update w.blocks p none = w.blocks := by
  apply update_eq_self_iff.mpr
  exact (h.null_block hp).symm

lemma Kept.realloc (h : Kept w) {p size : GuestUSize} (hp : (p : ℕ) ≠ 0)
    (huse : Use w (.realloc p size)) :
    ∃ ptr w', serve w.mem (.realloc p size) = .ok (ptr, w'.mem) ∧
      w.step (.realloc p size) = .ok w' ∧ Kept w' ∧ Served w w' (.realloc p size) ptr := by
  have hnull : 0 < w.mem.nullSegmentSize := lt_of_lt_of_le (by decide) h.null
  rw [Use, if_neg hp] at huse
  obtain ⟨⟨b, hb, hal⟩, hserve, hsplit⟩ := huse
  obtain ⟨asked, hasked⟩ : ∃ n, n = if (size : ℕ) = 0 then 1 else (size : ℕ) := ⟨_, rfl⟩
  rw [← hasked] at hserve hsplit
  have hlt : asked < u32Bound := by
    have hone : 1 < u32Bound := by decide
    have hsize := size.isLt
    rw [hasked]
    split <;> omega
  have hle : (size : ℕ) ≤ asked := by
    rw [hasked]
    split <;> omega
  obtain ⟨c, hc, hbase, hwithin⟩ := h.tracks.whole hb hal
  rw [← hbase] at hsplit
  obtain ⟨m', d, hok, hgood, hnull', hre⟩ := h.good.realloc hnull hc hwithin.base hwithin.heap hlt
    (hserve c hc hbase) hsplit
  have hserved : serve w.mem (.realloc p size) = .ok (d.base, m') := by
    rw [serve, Libc.realloc, if_neg hp, ← hasked, ← hbase]
    exact hok
  have hnew : Within d d.base ⟨size, naturalAlign⟩ := by
    have hlarge := hre.large
    have hstop : d.stop = d.base + d.size.get := rfl
    refine ⟨hre.base, hre.heap, mem_range.mpr ⟨le_rfl, d.base_lt_stop⟩, ?_, hre.granular,
      fun _ => rfl⟩
    dsimp only
    omega
  have htracks : Tracks (used m')
      (update (update w.blocks p none) d.base (some ⟨size, naturalAlign⟩)) := by
    rw [hre.used]
    exact (h.tracks.forget hc hwithin.mem hb).add hre.apart hnew
  have hrecord : w.record (.realloc p size) d.base =
      update (update w.blocks p none) d.base (some ⟨size, naturalAlign⟩) :=
    if_neg hre.base
  refine ⟨d.base, ⟨m', w.record (.realloc p size) d.base⟩, hserved, ?_,
    ⟨hgood, hnull' ▸ h.null, ?_⟩, fun b' hb' _ => ?_, fun q hq => (by cases hq), ?_⟩
  · rw [Heap.step, hserved]
    rfl
  · rw [hrecord]
    exact htracks
  · obtain rfl := some.inj hb'
    exact ⟨d, hre.used ▸ mem_insert d _, hnew⟩
  · intro q n b' hr hb' i hi
    obtain ⟨rfl, rfl⟩ := Request.realloc.inj hr
    obtain rfl := some.inj (hb.symm.trans hb')
    rw [if_neg hre.base, ← hbase]
    apply hre.contents
    have hstop : c.stop = c.base + c.size.get := rfl
    have hfits := hwithin.stop
    omega

lemma Kept.step (h : Kept w) (huse : Use w r) :
    ∃ ptr w', serve w.mem r = .ok (ptr, w'.mem) ∧ w.step r = .ok w' ∧ Kept w' ∧
      Served w w' r ptr := by
  have hnull : 0 < w.mem.nullSegmentSize := lt_of_lt_of_le (by decide) h.null
  have hbound : u32Bound + 4 ≤ bytesLen := by decide
  cases r with
  | malloc size =>
    obtain ⟨ptr, m', hok, hgood, hnull', hres⟩ :=
      malloc_memaligned h.good hnull size.isLt huse dvd_rfl
    exact h.asked rfl rfl hgood hnull' hres hok
  | calloc count size =>
    obtain ⟨ptr, m', hok, hgood, hnull', n, hres, hsize⟩ :=
      calloc_ok h.good count size
    exact h.asked rfl rfl hgood hnull' (hres.memaligned h.good hnull hsize dvd_rfl) hok
  | posixMemalign memptr alignment size =>
    obtain ⟨hptr, hsensible⟩ := huse
    obtain ⟨rc, m', hok, hgood, hnull', hres⟩ := posixMemalign_ok h.good hnull hptr
      (by have hlt := memptr.isLt; omega) size.isLt hsensible
    refine h.asked rfl rfl hgood hnull' hres ?_
    rw [serve, hok]
    rfl
  | valloc size =>
    obtain ⟨ptr, m', hok, hgood, hnull', hres⟩ := valloc_ok h.good hnull size.isLt
    exact h.asked rfl rfl hgood hnull' hres hok
  | write addr v =>
    have hsame : Mem.SameHeap w.mem (w.mem.write addr v) := Mem.sameHeap_fill _ _
    refine ⟨0, ⟨w.mem.write addr v, w.blocks⟩, rfl, rfl,
      ⟨h.good.same hsame, hsame.nullSegmentSize ▸ h.null, ?_⟩, fun b hb => (by cases hb),
      fun p hp => (by cases hp), fun p n b hr => (by cases hr)⟩
    rw [used_same hsame]
    exact h.tracks
  | free p =>
    by_cases hp : (p : ℕ) = 0
    · refine ⟨0, ⟨w.mem, update w.blocks p none⟩, ?_, ?_, ⟨h.good, h.null, ?_⟩,
        fun b hb => (by cases hb), fun q hq hne => ?_, fun q n b hr => (by cases hr)⟩
      · rw [serve, Libc.free, if_pos hp]
        rfl
      · rw [Heap.step, serve, Libc.free, if_pos hp]
        rfl
      · rw [h.update_null hp]
        exact h.tracks
      · obtain rfl := Request.free.inj hq
        exact absurd hp hne
    · obtain ⟨m', hok, hgood, hnull', htracks, c, hmem, hrel⟩ := h.free (huse.resolve_left hp)
      have hserve : serve w.mem (.free p) = .ok (0, m') := by
        rw [serve, hok]
        rfl
      refine ⟨0, ⟨m', update w.blocks p none⟩, hserve, ?_, ⟨hgood, hnull' ▸ h.null, htracks⟩,
        fun b hb => (by cases hb), fun q hq _ => ?_, fun q n b hr => (by cases hr)⟩
      · rw [Heap.step, hserve]
        rfl
      · obtain rfl := Request.free.inj hq
        exact ⟨c, hmem, hrel⟩
  | realloc p size =>
    by_cases hp : (p : ℕ) = 0
    · rw [Use, if_pos hp] at huse
      obtain ⟨ptr, m', hok, hgood, hnull', hres⟩ :=
        malloc_memaligned h.good hnull size.isLt huse (dvd_refl naturalAlign)
      obtain ⟨htracks, hblock⟩ := hres.tracks h.tracks
      have hserve : serve w.mem (.realloc p size) = .ok (ptr, m') := by
        rw [serve, Libc.realloc, if_pos hp]
        exact hok
      refine ⟨ptr, ⟨m', w.record (.realloc p size) ptr⟩, hserve, ?_,
        ⟨hgood, hnull' ▸ h.null, ?_⟩, fun b hb => ?_, fun q hq => (by cases hq), ?_⟩
      · rw [Heap.step, hserve]
        rfl
      · have hrecord : w.record (.realloc p size) ptr =
            if ptr = 0 then w.blocks else update w.blocks ptr (some ⟨size, naturalAlign⟩) := by
          change (if ptr = 0 then w.blocks
            else update (update w.blocks p none) ptr _) = _
          rw [h.update_null hp]
        rw [hrecord]
        exact htracks
      · obtain rfl := some.inj hb
        exact hblock
      · intro q n b hr hb
        obtain ⟨rfl, rfl⟩ := Request.realloc.inj hr
        cases (h.null_block hp).symm.trans hb
    · exact h.realloc hp huse

end Steps

section Run

variable {zof : Bool} {seg : NullSegment} {requests : List Mem.Request} {m m' : Mem} {w w' : Heap}
  {rs : List Request}

lemma alloc_nullSegmentSize {size ptr : ℕ} (hok : m.alloc size = .ok (ptr, m')) :
    m'.nullSegmentSize = m.nullSegmentSize := by
  obtain ⟨⟨p, a⟩, -, hok⟩ := bind_eq_ok.mp hok
  obtain ⟨-, rfl⟩ := ok_pair_inj hok
  exact (Mem.sameHeap_zeroOnAlloc _ _).nullSegmentSize

lemma free_nullSegmentSize {ptr : ℕ} (hok : m.free ptr = .ok m') :
    m'.nullSegmentSize = m.nullSegmentSize := by
  unfold Mem.free at hok
  split_ifs at hok
  · rw [ok.inj hok]
  · rw [ok.inj hok]
  · rw [ok.inj hok]
  · obtain ⟨⟨size, a⟩, -, hok⟩ := bind_eq_ok.mp hok
    obtain rfl := ok.inj hok
    exact (Mem.sameHeap_zeroOnFree _ _).nullSegmentSize

lemma serve_nullSegmentSize (h : m.Sound) {r : Mem.Request} {ptr : ℕ}
    (hok : m.serve r = .ok (ptr, m')) : m'.nullSegmentSize = m.nullSegmentSize := by
  cases r with
  | reserve base size hbase hsize hstop =>
    obtain ⟨m₁, hres, hok⟩ := map_eq_ok.mp hok
    obtain ⟨-, rfl⟩ := Prod.mk.inj hok
    cases Mem.reserve_cases h.allocator size.isLt hbase hsize hstop hres <;> rfl
  | alloc size => exact alloc_nullSegmentSize hok
  | calloc size =>
    obtain ⟨m₁, halloc, rfl⟩ := Mem.calloc_cases hok
    rw [Mem.fill_nullSegmentSize]
    exact alloc_nullSegmentSize halloc
  | free ptr =>
    obtain ⟨m₁, hfree, hok⟩ := map_eq_ok.mp hok
    obtain ⟨-, rfl⟩ := Prod.mk.inj hok
    exact free_nullSegmentSize hfree
  | realloc ptr size =>
    cases Mem.realloc_cases h.allocator hok with
    | fresh _ hok => exact alloc_nullSegmentSize hok
    | enough => rfl
    | inPlace _ _ _ _ htail => exact (Mem.sameHeap_zeroTail htail).nullSegmentSize
    | moved _ _ _ _ _ hok =>
      obtain ⟨m₁, hok, hfree⟩ := Mem.relocate_eq_ok.mp hok
      have hmoved := alloc_nullSegmentSize hok
      dsimp only at hmoved
      rw [free_nullSegmentSize hfree, (Mem.sameHeap_memmove _ _ _).nullSegmentSize, hmoved]
  | write addr v =>
    obtain ⟨-, rfl⟩ := ok_pair_inj hok
    exact Mem.fill_nullSegmentSize _ _

lemma kept_of_exec (hseg : seg.size ≠ 0)
    (hsplits : Mem.Throughout Mem.GranularSplits zof seg requests)
    (hboot : Mem.exec zof seg requests = .ok m) : Kept ⟨m, fun _ => none⟩ := by
  obtain ⟨hsound, hgranular, hnull⟩ := Mem.exec_preserves
    (I := fun m => m.allocator.Granular ∧ m.nullSegmentSize = seg.size)
    (fun m hm => ⟨hm.granular, hm.nullSegmentSize⟩)
    (fun m r m' h hI hr hok => ⟨Mem.step_granular m r m' h hI.1 hr hok, by
      obtain ⟨ptr, hok⟩ := Mem.step_eq_ok.mp hok
      exact (serve_nullSegmentSize h hok).trans hI.2⟩) hsplits hboot
  refine ⟨⟨hsound, hgranular⟩, ?_, .empty⟩
  have haligned := seg.aligned
  have hpage : pageSize = 0x1000 := rfl
  rw [hpage] at haligned
  dsimp only
  omega

lemma Kept.run (h : Kept w) (huse : Along Heap.step Use w rs) (hrun : Lib.run Heap.step w rs = .ok w') :
    Kept w' := by
  refine run_preserves (fun w r w' h hr hok => ?_) h huse hrun
  obtain ⟨-, w'', -, hok', hkept, -⟩ := h.step hr
  exact ok.inj (hok'.symm.trans hok) ▸ hkept

/-- A program that only gives back pointers of natural alignment gets memory as it asks for it, and
gives back whole chunks. -/
theorem exec_served (requests : List Mem.Request) (hseg : seg.size ≠ 0)
    (hsplits : Mem.Throughout Mem.GranularSplits zof seg requests)
    (hboot : Mem.exec zof seg requests = .ok m)
    (huse : Along Heap.step Use ⟨m, fun _ => none⟩ rs)
    (hrun : Lib.run Heap.step ⟨m, fun _ => none⟩ rs = .ok w) (r : Request) (hr : Use w r) :
    ∃ ptr w', serve w.mem r = .ok (ptr, w'.mem) ∧ w.step r = .ok w' ∧ Served w w' r ptr := by
  have hkept := (kept_of_exec hseg hsplits hboot).run huse hrun
  obtain ⟨ptr, w', hserve, hstep, -, hserved⟩ := hkept.step hr
  exact ⟨ptr, w', hserve, hstep, hserved⟩

theorem exec_served_free : ∃ (m : Mem) (w : Heap),
    Mem.exec true .onePage [] = .ok m ∧
      Lib.run Heap.step ⟨m, fun _ => none⟩ [.malloc 24, .posixMemalign 4096 64 16] = .ok w ∧
      ∃ ptr w', serve w.mem (.free 4096) = .ok (ptr, w'.mem) ∧ w.step (.free 4096) = .ok w' ∧
        Served w w' (.free 4096) ptr := by
  have hend : succeedsWith (fun w : Heap => w.blocks 4096 = some ⟨24, 16⟩)
      (Mem.exec true .onePage [] >>= fun m =>
        Lib.run Heap.step ⟨m, fun _ => none⟩ [.malloc 24, .posixMemalign 4096 64 16]) := by decide
  obtain ⟨w, hrun, hblock⟩ := exists_of_succeedsWith hend
  obtain ⟨m, hm, hrun⟩ := bind_eq_ok.mp hrun
  have huse : Along Heap.step Use ⟨m, fun _ => none⟩ [.malloc 24, .posixMemalign 4096 64 16] := by
    refine ⟨.inl (by decide), fun w₁ h₁ => ⟨⟨.inr ?_, fun hle => absurd hle (by decide)⟩,
      fun _ _ => trivial⟩⟩
    have hnull : (Mem.exec true .onePage [] >>= fun m => Heap.step ⟨m, fun _ => none⟩ (.malloc 24) >>=
        fun w => .ok w.mem.nullSegmentSize) = .ok 4096 := by decide
    rw [hm, ok_bind, h₁, ok_bind] at hnull
    exact (Except.ok.inj hnull).le
  exact ⟨m, w, hm, hrun, exec_served [] (by decide) (fun _ _ => trivial) hm huse hrun (.free 4096)
    (.inr ⟨_, of_decide_eq_true hblock, le_rfl⟩)⟩

theorem not_served :
    ¬ ∀ (zof : Bool) (seg : NullSegment) (requests : List Mem.Request) (m : Mem)
      (rs : List Request) (w : Heap) (r : Request), seg.size ≠ 0 →
        Mem.Throughout Mem.GranularSplits zof seg requests → Mem.exec zof seg requests = .ok m →
        Along Heap.step Valid ⟨m, fun _ => none⟩ rs →
        Lib.run Heap.step ⟨m, fun _ => none⟩ rs = .ok w → Valid w r →
        ∃ ptr w', serve w.mem r = .ok (ptr, w'.mem) ∧ w.step r = .ok w' ∧ Served w w' r ptr := by
  intro h
  have hend : succeedsWith (fun w : Heap => w.blocks 4160 = some ⟨16, 64⟩ ∧
      w.mem.allocator.isKnownAllocation 4160 = false)
      (Mem.exec true .onePage [] >>= fun m =>
        Lib.run Heap.step ⟨m, fun _ => none⟩ [.malloc 16, .posixMemalign 4096 64 16]) := by decide
  obtain ⟨w, hrun, hstate⟩ := exists_of_succeedsWith hend
  obtain ⟨hblock, hunknown⟩ := of_decide_eq_true hstate
  obtain ⟨m, hm, hrun⟩ := bind_eq_ok.mp hrun
  have hvalid : Along Heap.step Valid ⟨m, fun _ => none⟩ [.malloc 16, .posixMemalign 4096 64 16] :=
    ⟨fun p hp => (by cases hp), fun _ _ => ⟨fun p hp => (by cases hp), fun _ _ => trivial⟩⟩
  have hfree : Valid w (.free 4160) := by
    intro p hp
    obtain rfl := Option.some.inj hp
    exact .inr (Option.isSome_iff_exists.mpr ⟨_, hblock⟩)
  obtain ⟨ptr, w', hserve, -, hserved⟩ := h true .onePage [] m _ w (.free 4160) (by decide)
    (fun _ _ => trivial) hm hvalid hrun hfree
  obtain ⟨c, -, hreleased⟩ := hserved.released 4160 rfl (by decide)
  have hsame : w'.mem = w.mem := by
    have hignored : Libc.free w.mem 4160 = .ok w.mem := by
      rw [Libc.free, if_neg (by decide), if_neg (by decide), hunknown]
      rfl
    obtain ⟨m', hok, hm'⟩ := map_eq_ok.mp hserve
    obtain rfl := Except.ok.inj (hignored.symm.trans hok)
    exact (Prod.mk.inj hm').2.symm
  have hc := hreleased.mem
  rw [← hsame, hreleased.used] at hc
  exact hc.2 rfl

end Run

end TouchHle.Memory.Libc
