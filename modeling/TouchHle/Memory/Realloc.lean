import TouchHle.Memory.Fragmentation

namespace TouchHle.Memory

open Lib Chunk Allocator

namespace Allocator

variable {a a' : Allocator}

lemma Allocates.apart (h : a.Wf) {size : ℕ} {existing alloc : Chunk}
    (ha : a.Allocates size existing alloc a') {c : Chunk} (hc : c ∈ a.usedChunks) :
    c.stop ≤ alloc.base ∨ alloc.stop ≤ c.base := by
  obtain ⟨⟨n, -, ⟨hex, -⟩, pieces, hcarved, -⟩, -⟩ := ha
  have hsep := h.disjoint_of_ne (x := (.used, c)) (y := (.free, existing)) hc hex (by simp)
  have hb := hcarved.base_eq
  have hs := hcarved.stop_le
  dsimp only at hsep
  omega

lemma Allocates.stop_le (h : a.Wf) {size : ℕ} {existing alloc : Chunk}
    (ha : a.Allocates size existing alloc a') : alloc.stop ≤ u32Bound := by
  obtain ⟨⟨n, -, ⟨hex, -⟩, pieces, hcarved, -⟩, -⟩ := ha
  exact hcarved.stop_le.trans (h.tidy.stop_le existing hex)

lemma Allocates.size_le {size : ℕ} {existing alloc : Chunk}
    (ha : a.Allocates size existing alloc a') : size ≤ alloc.size.get := by
  obtain ⟨⟨n, hn, -, pieces, hcarved, -⟩, -⟩ := ha
  exact (alignedSize_eq_some hn).2.1.trans hcarved.size_le

lemma Grows.apart (h : a.Wf) {old adjacent grown : Chunk} {newSize : ℕ}
    (hg : a.Grows old newSize adjacent grown a') {c : Chunk} (hc : c ∈ a.usedChunks)
    (hne : c ≠ old) : c.stop ≤ grown.base ∨ grown.stop ≤ c.base := by
  obtain ⟨pieces, hgrown, -⟩ := hg.pieces
  have hsep := h.disjoint_of_ne (x := (.used, c)) (y := (.used, old)) hc hg.mem (by simpa using hne)
  have hsep' := h.disjoint_of_ne (x := (.used, c)) (y := (.free, adjacent)) hc hg.room.mem (by simp)
  have hb := hgrown.base_eq
  have hs := hgrown.stop_le
  have hadj := hg.room.base
  have hl := c.base_lt_stop
  have hl' := adjacent.base_lt_stop
  dsimp only at hsep hsep'
  omega

lemma SameChunks.outOfMemory (h : a.SameChunks a') {size : ℕ} :
    a'.OutOfMemory size ↔ a.OutOfMemory size := by
  simp only [OutOfMemory, h.2]

end Allocator

namespace Mem

variable {m m' : Mem} {ptr size : ℕ}

section

lemma zeroOnAlloc_bytes {i : ℕ} (h : i < ptr ∨ ptr + size ≤ i) :
    (m.zeroOnAlloc ptr size).bytes i = m.bytes i := by
  unfold zeroOnAlloc
  split
  · exact fill_bytes_outside h 0
  · rfl

lemma zeroOnFree_bytes {i : ℕ} (h : i < ptr ∨ ptr + size ≤ i) :
    (m.zeroOnFree ptr size).bytes i = m.bytes i := by
  unfold zeroOnFree
  split
  · exact fill_bytes_outside h 0
  · rfl

lemma zeroTail_bytes {oldSize grownSize i : ℕ} (hok : m.zeroTail ptr oldSize grownSize = .ok m')
    (h : i < ptr + oldSize ∨ ptr + grownSize ≤ i) : m'.bytes i = m.bytes i := by
  unfold zeroTail at hok
  split at hok
  · obtain ⟨tail, htail, hok⟩ := bind_eq_ok.mp hok
    obtain rfl := Except.ok.inj hok
    unfold Slice.drop at htail
    split at htail
    · obtain rfl := Except.ok.inj htail
      unfold bytesAtMut view
      split_ifs
      · rfl
      · rfl
      · refine Bytes.fill_outside ?_
        dsimp only
        omega
    · simp at htail
  · obtain rfl := Except.ok.inj hok
    rfl

lemma memmove_bytes {dest src : ℕ} (hsize : size < 0x80000000) (hsrc : src ≠ 0)
    (hs : src + size ≤ bytesLen) (hd : dest + size ≤ bytesLen) :
    (m.memmove dest src size).bytes = m.bytes.copyWithin src size dest := by
  unfold memmove
  rw [if_neg (by omega), if_neg (by tauto), if_neg (by omega), if_neg (by omega)]

lemma memmove_bytes_outside {dest src i : ℕ} (h : i < dest ∨ dest + size ≤ i) :
    (m.memmove dest src size).bytes i = m.bytes i := by
  unfold memmove
  split_ifs
  · rfl
  · rfl
  · rfl
  · rfl
  · exact Bytes.copyWithin_outside h

lemma Freed.bytes (h : m.allocator.Wf) (hf : m.Freed ptr m') {c : Chunk}
    (hc : c ∈ m.allocator.usedChunks) (hne : c.base ≠ ptr) :
    c ∈ m'.allocator.usedChunks ∧ ∀ i ∈ c.range, m'.bytes i = m.bytes i := by
  cases hf with
  | ignored => exact ⟨hc, fun _ _ => rfl⟩
  | @freed d _ _ _ _ _ hb _ hf =>
    have hcd : c ≠ d := by
      rintro rfl
      exact hne hb
    rw [zeroOnFree_allocator]
    refine ⟨(hf.used c).mpr ⟨hc, hcd⟩, fun i hi => zeroOnFree_bytes ?_⟩
    have hsep := h.disjoint_of_ne (x := (.used, c)) (y := (.used, d)) hc hf.mem (by simpa using hcd)
    have hi := mem_range.mp hi
    simp only [stop] at *
    omega

end

/-- What C programs rely on when the block `old` is reallocated: a new block starts with the old
contents and other blocks keep theirs; and running out of memory leaves everything as it was. -/
def ReallocIntact (m : Mem) (old : Chunk) (size : ℕ) : Prop :=
  ∀ newPtr m', m.realloc old.base size = .ok (newPtr, m') →
    (newPtr ≠ 0 →
      (∀ i < min old.size.get size, m'.bytes (newPtr + i) = m.bytes (old.base + i)) ∧
      ∀ c ∈ m.allocator.usedChunks, c ≠ old →
        c ∈ m'.allocator.usedChunks ∧ ∀ i ∈ c.range, m'.bytes i = m.bytes i) ∧
    (newPtr = 0 → m.allocator.OutOfMemory size →
      old ∈ m'.allocator.usedChunks ∧ ∀ i, m'.bytes i = m.bytes i)

def CanServe (m : Mem) (old : Chunk) (size : ℕ) : Prop :=
  size ≤ old.size.get ∨ (∃ c, m.allocator.RoomIn old size c) ∨ ¬ m.allocator.OutOfMemory size

def Unnoticed (m : Mem) (old : Chunk) (size : ℕ) : Prop :=
  old.base = machTaskSelf ∧
    ((m.zeroOnAlloc 0 size).memmove 0 old.base old.size.get).bytes = m.bytes

section

variable {old : Chunk}

lemma inPlace_intact (h : m.allocator.Wf) {adjacent grown : Chunk} {a : Allocator}
    (hg : m.allocator.Grows old size adjacent grown a)
    (htail : zeroTail { m with allocator := a } old.base old.size.get grown.size.get = .ok m') :
    (∀ i < min old.size.get size, m'.bytes (old.base + i) = m.bytes (old.base + i)) ∧
      ∀ c ∈ m.allocator.usedChunks, c ≠ old →
        c ∈ m'.allocator.usedChunks ∧ ∀ i ∈ c.range, m'.bytes i = m.bytes i := by
  have hkept : ∀ i, i < old.base + old.size.get ∨ old.base + grown.size.get ≤ i →
      m'.bytes i = m.bytes i := fun i hi => zeroTail_bytes (m := { m with allocator := a }) htail hi
  refine ⟨fun i hi => hkept _ (by omega), fun c hc hne => ⟨?_, fun i hi => ?_⟩⟩
  · rw [(sameHeap_zeroTail htail).allocator]
    exact (hg.used c).mpr (Or.inr ⟨hc, hne⟩)
  · refine hkept i ?_
    have hsep := hg.apart h hc hne
    have hi := mem_range.mp hi
    obtain ⟨pieces, hgrown, -⟩ := hg.pieces
    have hb := hgrown.base_eq
    have hl := old.size.pos
    simp only [stop] at *
    omega

lemma size_lt_half {c d : Chunk} (hc : c.stop ≤ u32Bound) (hd : d.stop ≤ u32Bound)
    (hsep : c.stop ≤ d.base ∨ d.stop ≤ c.base) (hlt : c.size.get < d.size.get) :
    c.size.get < 0x80000000 := by
  simp only [stop, u32Bound] at *
  omega

lemma moved_bytes (h : m.Sound) (hold : old ∈ m.allocator.usedChunks) (hne : old.base ≠ 0)
    {existing alloc : Chunk} {a : Allocator} (ha : m.allocator.Allocates size existing alloc a)
    (hlt : old.size.get < size)
    (hfree : ((zeroOnAlloc { m with allocator := a } alloc.base size).memmove alloc.base old.base
      old.size.get).free old.base = .ok m') :
    (∀ i < old.size.get, m'.bytes (alloc.base + i) = m.bytes (old.base + i)) ∧
      (∀ i, old.size.get ≤ i → i < alloc.size.get → m'.bytes (alloc.base + i) =
        (zeroOnAlloc { m with allocator := a } alloc.base size).bytes (alloc.base + i)) ∧
      alloc ∈ m'.allocator.usedChunks ∧
      ∀ c ∈ m.allocator.usedChunks, c ≠ old →
        c ∈ m'.allocator.usedChunks ∧ ∀ i ∈ c.range, m'.bytes i = m.bytes i := by
  have hwf := h.allocator.wf
  set m₁ := zeroOnAlloc { m with allocator := a } alloc.base size
  set m₂ := m₁.memmove alloc.base old.base old.size.get
  have halloc₂ : m₂.allocator = a := by simp [m₂, m₁]
  have hsound : a.Sound := Allocator.Stepped.sound h.allocator (.allocated ha)
  have hf : m₂.Freed old.base m' := free_cases (by rwa [halloc₂]) hfree
  have hfb := fun c hc hcne => hf.bytes (by rw [halloc₂]; exact hsound.wf) (c := c) hc hcne
  simp only [halloc₂] at hfb
  have hapart := ha.apart hwf hold
  have hsize := ha.size_le
  have hstop := hwf.stop_le (.used, old) hold
  have hhalf := size_lt_half hstop (ha.stop_le hwf) hapart (hlt.trans_le hsize)
  have hbytes : m₂.bytes = m₁.bytes.copyWithin old.base old.size.get alloc.base := by
    have hallocstop := ha.stop_le hwf
    refine memmove_bytes hhalf hne ?_ ?_
    all_goals simp only [stop, u32Bound, bytesLen] at *
    all_goals omega
  have hm₁ : ∀ i, i < alloc.base ∨ alloc.stop ≤ i → m₁.bytes i = m.bytes i := by
    intro i hi
    refine zeroOnAlloc_bytes ?_
    unfold stop at hi
    omega
  have hallocbase : alloc.base ≠ old.base := by
    have := alloc.base_lt_stop
    have := old.base_lt_stop
    omega
  obtain ⟨hin, hkept'⟩ := hfb alloc ((ha.used alloc).mpr (Or.inl rfl)) hallocbase
  have hkept : ∀ i < alloc.size.get, m'.bytes (alloc.base + i) = m₂.bytes (alloc.base + i) :=
    fun i hi => hkept' _ (mem_range.mpr (by unfold stop; omega))
  refine ⟨fun i hi => ?_, fun i hi hi' => ?_, hin, fun c hc hcne => ?_⟩
  · rw [hkept i (by omega), hbytes, Bytes.copyWithin_inside hi,
      hm₁ _ (by unfold stop at *; omega)]
  · rw [hkept i hi', hbytes, Bytes.copyWithin_outside (by omega)]
  · obtain ⟨hin, hkept⟩ := hfb c ((ha.used c).mpr (Or.inr hc))
      (fun he => hcne (ChunkMap.eq_of_base hc hold he))
    refine ⟨hin, fun i hi => ?_⟩
    have hsep := ha.apart hwf hc
    have hi' := mem_range.mp hi
    rw [hkept i hi, hbytes, Bytes.copyWithin_outside (by unfold stop at *; omega),
      hm₁ i (by omega)]

lemma realloc_intact (h : m.Sound) (hold : old ∈ m.allocator.usedChunks) (hne : old.base ≠ 0)
    (hlt : size < u32Bound) (hserve : m.CanServe old size) : m.ReallocIntact old size := by
  intro newPtr m' hok
  have hrecorded := findAllocatedSize_of_mem hold
  cases realloc_cases h.allocator hok with
  | fresh hp => exact absurd hp hne
  | enough => exact ⟨fun _ => ⟨fun _ _ => rfl, fun c hc _ => ⟨hc, fun _ _ => rfl⟩⟩,
      fun he => absurd he hne⟩
  | @inPlace old' _ _ _ _ _ hb _ hg htail =>
    obtain rfl := ChunkMap.eq_of_base hg.mem hold hb
    exact ⟨fun _ => inPlace_intact h.allocator.wf hg htail, fun he => absurd he hne⟩
  | @moved a _ _ _ hlarger hroom hcoh hsame hmoved =>
    obtain ⟨m₁, halloc, hfree⟩ := relocate_eq_ok.mp hmoved
    rw [hrecorded] at hlarger hfree
    have hmem : ¬ m.allocator.OutOfMemory size := by
      rcases hserve with hle | ⟨c, hc⟩ | hmem
      · exact absurd hle hlarger.not_ge
      · exact absurd hc ((hroom old hold rfl).2 c)
      · exact hmem
    refine ⟨fun _ => ?_, fun _ hoom => absurd hoom hmem⟩
    have h₀ : Sound { m with allocator := a } :=
      h.of_stepped (.same hcoh hsame) fun c hc _ => (hsame.1 c).mpr hc
    rcases alloc_ok h₀.allocator hlt with ⟨-, hoom⟩ | ⟨existing, alloc, a', halloc', ha⟩
    · exact absurd (hsame.outOfMemory.mp hoom) hmem
    · obtain ⟨rfl, rfl⟩ := ok_pair_inj (halloc'.symm.trans halloc)
      obtain ⟨hcontents, -, -, hothers⟩ :=
        moved_bytes h₀ ((hsame.1 old).mpr hold) hne ha hlarger hfree
      exact ⟨fun i hi => hcontents i (lt_min_iff.mp hi).1,
        fun c hc => hothers c ((hsame.1 c).mpr hc)⟩

lemma not_canServe (h : ¬ m.CanServe old size) :
    old.size.get < size ∧ (∀ c, ¬ m.allocator.RoomIn old size c) ∧
      m.allocator.OutOfMemory size := by
  unfold CanServe at h
  push Not at h
  exact h

lemma zeroOnAlloc_with (a : Allocator) (ptr size : ℕ) :
    zeroOnAlloc { m with allocator := a } ptr size =
      { m.zeroOnAlloc ptr size with allocator := a } := by
  unfold zeroOnAlloc
  split
  · unfold bytesAtMut view fill
    split_ifs <;> rfl
  · rfl

lemma memmove_with (a : Allocator) (dest src size : ℕ) :
    memmove { m with allocator := a } dest src size =
      { m.memmove dest src size with allocator := a } := by
  unfold memmove
  split_ifs <;> rfl

lemma free_at {c : Chunk} (h : m.allocator.Sound) (hc : c ∈ m.allocator.usedChunks)
    (hne : c.base ≠ 0) (htask : c.base ≠ machTaskSelf) (hmain : c ≠ mainThreadStack) :
    ∃ m', m.free c.base = .ok m' ∧ c ∉ m'.allocator.usedChunks := by
  have hbase : c.base ≠ mainThreadStackLowEnd := fun he => hmain (h.eq_stack hc he)
  obtain ⟨removed, added, a, hfree, hf⟩ := free_ok h.wf hc (h.used_stop_lt hc hbase)
    h.free_stop_lt
  have hknown : m.allocator.isKnownAllocation c.base = true := by
    rw [isKnownAllocation, ChunkMap.getSizeWithBase_eq_some.mpr hc]
    rfl
  refine ⟨_, by simp [free, hne, htask, hknown, hfree]; rfl, ?_⟩
  rw [zeroOnFree_allocator]
  exact fun hin => ((hf.used c).mp hin).2 rfl

lemma realloc_outOfMemory (h : m.Sound) (hold : old ∈ m.allocator.usedChunks) (hne : old.base ≠ 0)
    (hmain : old ≠ mainThreadStack) (hlt : size < u32Bound)
    (hserve : ¬ m.CanServe old size) :
    ∃ m', m.realloc old.base size = .ok (0, m') ∧
      (old.base ≠ machTaskSelf → old ∉ m'.allocator.usedChunks) ∧
      (old.base = machTaskSelf → old ∈ m'.allocator.usedChunks ∧
        m'.bytes = ((m.zeroOnAlloc 0 size).memmove 0 old.base old.size.get).bytes) := by
  obtain ⟨hlarger, hroom, hoom⟩ := not_canServe hserve
  have hbase : old.base ≠ mainThreadStackLowEnd := fun he => hmain (h.allocator.eq_stack hold he)
  rcases growInPlace_ok h.allocator.wf hold hlarger
    (h.allocator.used_stop_lt hold hbase) h.allocator.free_stop_lt with
    ⟨a, hgrow, hcoh, hsame, -⟩ | ⟨adjacent, _, _, _, hg⟩
  swap
  · exact absurd hg.room (hroom adjacent)
  have h₀ : Sound { m with allocator := a } :=
    h.of_stepped (.same hcoh hsame) fun c hc _ => (hsame.1 c).mpr hc
  have halloc : alloc { m with allocator := a } size =
      .ok (0, zeroOnAlloc { m with allocator := a } 0 size) := by
    rcases alloc_ok h₀.allocator hlt with ⟨halloc, -⟩ | ⟨existing, _, _, _, ha⟩
    · exact halloc
    · obtain ⟨⟨n, hn, ⟨hex, hfit, -⟩, -⟩, -⟩ := ha
      exact absurd hfit (hsame.outOfMemory.mpr hoom n hn existing hex).not_ge
  have hstart : m.realloc old.base size = do
      let m ← ((zeroOnAlloc { m with allocator := a } 0 size).memmove 0 old.base
        old.size.get).free old.base
      return (0, m) := by
    simp only [realloc, if_neg hne, findAllocatedSize_of_mem hold,
      if_neg hlarger.not_ge, hgrow, ok_bind, relocate, halloc]
  have hmoved : ((zeroOnAlloc { m with allocator := a } 0 size).memmove 0 old.base
      old.size.get).allocator = a := by simp
  have hold' := (hsame.1 old).mpr hold
  rw [hstart]
  by_cases htask : old.base = machTaskSelf
  · refine ⟨_, by rw [free, if_neg hne, if_pos htask]; rfl, fun hne' => absurd htask hne',
      fun _ => ⟨by rwa [hmoved], ?_⟩⟩
    rw [zeroOnAlloc_with, memmove_with]
  · obtain ⟨m', hfree, hgone⟩ := free_at (by rw [hmoved]; exact h₀.allocator)
      (by rwa [hmoved]) hne htask hmain
    exact ⟨m', by rw [hfree]; rfl, fun _ => hgone, fun he => absurd he htask⟩

/-- In every reachable memory, `realloc` keeps what C programs rely on unless it runs out of memory:
the failure is noticed unless `free` ignores the block and what is written to address 0 on the way
is there already. -/
theorem exec_realloc_intact_iff {zof : Bool} {seg : NullSegment} {requests : List Request}
    (hok : exec zof seg requests = .ok m) (hold : old ∈ m.allocator.usedChunks)
    (hne : old.base ≠ 0) (hmain : old ≠ Allocator.mainThreadStack) (size : GuestUSize) :
    m.ReallocIntact old size ↔ m.CanServe old size ∨ m.Unnoticed old size := by
  obtain ⟨h, -⟩ := exec_preserves (I := fun _ => True) (fun _ _ => trivial)
    (fun _ _ _ _ _ _ _ => trivial) throughout_true hok
  by_cases hserve : m.CanServe old size
  · exact iff_of_true (realloc_intact h hold hne size.isLt hserve) (Or.inl hserve)
  obtain ⟨m', hrealloc, hgone, hstays⟩ := realloc_outOfMemory h hold hne hmain size.isLt hserve
  have hoom := (not_canServe hserve).2.2
  rw [or_iff_right hserve]
  constructor
  · intro hintact
    obtain ⟨hlive, hbytes⟩ := (hintact 0 m' hrealloc).2 rfl hoom
    have htask : old.base = machTaskSelf := not_not.mp fun htask => hgone htask hlive
    refine ⟨htask, ?_⟩
    rw [← (hstays htask).2]
    exact funext hbytes
  · rintro ⟨htask, hsame⟩ newPtr m'' hok'
    obtain ⟨rfl, rfl⟩ := ok_pair_inj (hrealloc.symm.trans hok')
    obtain ⟨hlive, hbytes⟩ := hstays htask
    exact ⟨fun h => absurd rfl h, fun _ _ => ⟨hlive, fun i => by rw [hbytes, hsame]⟩⟩

theorem exec_realloc_intact_moved : ∃ (m : Mem) (old : Chunk),
    exec true .onePage [.alloc 16, .alloc 16] = .ok m ∧ old ∈ m.allocator.usedChunks ∧
      old.base = 4096 ∧ m.ReallocIntact old 32 := by
  have hrun : (exec true .onePage [.alloc 16, .alloc 16] >>= fun m =>
      .ok (m.allocator.usedChunks.getSizeWithBase 4096,
        m.allocator.unusedChunks.chunks.getSizeWithBase 4128)) =
      .ok (NonZeroU32.new 16, NonZeroU32.new 4064) := by decide
  obtain ⟨m, hm, hsizes⟩ := bind_eq_ok.mp hrun
  obtain ⟨hused, hfree⟩ := ok_pair_inj hsizes
  have hold := ChunkMap.mem_of_getSizeWithBase (by decide) (by decide) hused
  have hroom := ChunkMap.mem_of_getSizeWithBase (by decide) (by decide) hfree
  have hserve : m.CanServe ⟨4096, 16, by decide, by decide⟩ 32 := by
    refine Or.inr (Or.inr fun hoom => ?_)
    exact absurd (hoom 32 (by decide) ⟨4128, 4064, by decide, by decide⟩ hroom) (by decide)
  exact ⟨m, _, hm, hold, rfl,
    (exec_realloc_intact_iff hm hold (by decide) (by decide) 32).mpr (Or.inl hserve)⟩

lemma outOfMemory_of_large (h : m.allocator.Sound) (hlarge : mainThreadStackLowEnd < size) :
    m.allocator.OutOfMemory size := by
  intro n hn c hc
  have hle := (alignedSize_eq_some hn).2.1
  have hstop := h.below_stack (x := (.free, c)) hc (by simp)
  unfold stop at hstop
  dsimp only at hstop
  omega

theorem exec_realloc_loses_block :
    ¬ ∀ (zof : Bool) (seg : NullSegment) (requests : List Request) (m : Mem) (old : Chunk)
      (size : GuestUSize), exec zof seg requests = .ok m → old ∈ m.allocator.usedChunks →
        old.base ≠ 0 → old ≠ Allocator.mainThreadStack → m.ReallocIntact old size := by
  intro h
  have hrun : (exec true .onePage [.alloc 16] >>= fun m => m.realloc 4096 0xffff0000 >>= fun r =>
      .ok (m.allocator.usedChunks.getSizeWithBase 4096, r.1,
        r.2.allocator.usedChunks.getSizeWithBase 4096)) = .ok (NonZeroU32.new 16, 0, none) := by
    decide
  obtain ⟨m, hm, hrun⟩ := bind_eq_ok.mp hrun
  obtain ⟨⟨newPtr, m'⟩, hrealloc, hsizes⟩ := bind_eq_ok.mp hrun
  obtain ⟨hused, hrest⟩ := ok_pair_inj hsizes
  obtain ⟨rfl, hgone⟩ := Prod.mk.inj hrest
  have hold := ChunkMap.mem_of_getSizeWithBase (by decide) (by decide) hused
  obtain ⟨hsound, -⟩ := exec_preserves (I := fun _ => True) (fun _ _ => trivial)
    (fun _ _ _ _ _ _ _ => trivial) throughout_true hm
  have hintact := h true .onePage _ m ⟨4096, 16, by decide, by decide⟩ 0xffff0000 hm hold
    (by decide) (by decide)
  have hlive := ((hintact 0 m' hrealloc).2 rfl
    (outOfMemory_of_large hsound.allocator (by decide))).1
  exact ChunkMap.getSizeWithBase_eq_none.mp hgone _ hlive rfl

end

end Mem

end TouchHle.Memory
