import TouchHle.Memory.Realloc

/-! Which memory is zero. With zeroing on free, everything outside the chunks in use is; with
zeroing on allocation, what an allocation returns is. -/

namespace TouchHle.Memory

open Lib Chunk

namespace Mem

variable {m m' : Mem} {ptr size : ℕ}

def FreeZero (m : Mem) : Prop :=
  ∀ i, (∀ c ∈ m.allocator.usedChunks, i ∉ c.range) → m.bytes i = 0

section Slices

lemma Sound.null_le (h : m.Sound) {c : Chunk} (hc : c ∈ m.allocator.usedChunks)
    (hne : c.base ≠ 0) : m.nullSegmentSize ≤ c.base := by
  rcases Nat.eq_zero_or_pos m.nullSegmentSize with hzero | hpos
  · omega
  obtain ⟨n, hn, hnb, hns⟩ := h.null hpos
  have hcn : c ≠ n := by
    rintro rfl
    exact hne hnb
  have hsep := h.allocator.wf.disjoint_of_ne (x := (.used, c)) (y := (.used, n)) hc hn
    (by simpa using hcn)
  have hl := c.base_lt_stop
  dsimp only at hsep
  omega

lemma read_eq (hn : m.nullSegmentSize ≤ ptr) (hl : ptr < u32Bound) : m.read ptr = m.bytes ptr := by
  have hlen : ptr + 1 ≤ bytesLen := by
    simp only [u32Bound, bytesLen] at *
    omega
  unfold read bytesAt view
  rw [if_neg hn.not_gt, if_neg hlen.not_gt]
  rfl

lemma u32Bound_le : u32Bound ≤ bytesLen := by decide

lemma fill_zero_bytes (ptr count i : ℕ) :
    (m.fill (m.bytesAtMut ptr count) 0).bytes i = m.bytes i ∨
      (m.fill (m.bytesAtMut ptr count) 0).bytes i = 0 := by
  unfold bytesAtMut view
  split_ifs
  · exact .inl rfl
  · exact .inl rfl
  · by_cases hi : ptr ≤ i ∧ i < ptr + count
    · exact .inr (Bytes.fill_inside hi.1 hi.2)
    · refine .inl (Bytes.fill_outside ?_)
      dsimp only
      omega

lemma zeroOnAlloc_eq (h : m.zeroMemoryOnFree = true) : m.zeroOnAlloc ptr size = m := by
  simp [zeroOnAlloc, h]

lemma zeroTail_inside {oldSize grownSize i : ℕ} (h : m.zeroMemoryOnFree = true)
    (hn : m.nullSegmentSize ≤ ptr) (hl : ptr + grownSize ≤ bytesLen)
    (hok : m.zeroTail ptr oldSize grownSize = .ok m') (hi : ptr + oldSize ≤ i)
    (hi' : i < ptr + grownSize) : m'.bytes i = 0 := by
  unfold zeroTail at hok
  rw [if_pos h] at hok
  obtain ⟨tail, htail, hok⟩ := bind_eq_ok.mp hok
  obtain rfl := Except.ok.inj hok
  unfold Slice.drop bytesAtMut view at htail
  rw [if_neg hn.not_gt, if_neg hl.not_gt] at htail
  split at htail
  · obtain rfl := Except.ok.inj htail
    refine Bytes.fill_inside hi ?_
    dsimp only
    omega
  · simp at htail

lemma zeroTail_eq {oldSize grownSize : ℕ} (h : m.zeroMemoryOnFree = false)
    (hok : m.zeroTail ptr oldSize grownSize = .ok m') : m' = m := by
  unfold zeroTail at hok
  rw [h, if_neg (by simp)] at hok
  exact (Except.ok.inj hok).symm

end Slices

section FreeZero

lemma FreeZero.of_bytes (hz : m.FreeZero)
    (hbytes : ∀ i, m'.bytes i = m.bytes i ∨ m'.bytes i = 0 ∨
      ∃ c ∈ m'.allocator.usedChunks, i ∈ c.range)
    (hused : ∀ i, (∀ c ∈ m'.allocator.usedChunks, i ∉ c.range) → m'.bytes i = m.bytes i →
      m.bytes i = 0 ∨ ∀ c ∈ m.allocator.usedChunks, i ∉ c.range) : m'.FreeZero := by
  intro i hi
  rcases hbytes i with heq | hzero | ⟨c, hc, hic⟩
  · rcases hused i hi heq with hzero | hout
    · rw [heq, hzero]
    · rw [heq, hz i hout]
  · exact hzero
  · exact absurd hic (hi c hc)

lemma FreeZero.grow (hz : m.FreeZero)
    (hbytes : ∀ i, m'.bytes i = m.bytes i ∨ m'.bytes i = 0 ∨
      ∃ c ∈ m'.allocator.usedChunks, i ∈ c.range)
    (hused : ∀ c ∈ m.allocator.usedChunks, ∀ i ∈ c.range,
      ∃ d ∈ m'.allocator.usedChunks, i ∈ d.range) : m'.FreeZero := by
  refine hz.of_bytes hbytes fun i hi _ => .inr fun c hc hic => ?_
  obtain ⟨d, hd, hid⟩ := hused c hc i hic
  exact hi d hd hid

lemma FreeZero.alloc (h : m.allocator.Sound) (hmode : m.zeroMemoryOnFree = true)
    (hz : m.FreeZero) (hlt : size < u32Bound) (hok : m.alloc size = .ok (ptr, m')) :
    m'.FreeZero := by
  rcases alloc_ok h hlt with ⟨hok', -⟩ | ⟨existing, alloc, a, hok', ha⟩
  · obtain ⟨rfl, rfl⟩ := ok_pair_inj (hok'.symm.trans hok)
    rwa [zeroOnAlloc_eq hmode]
  · obtain ⟨rfl, rfl⟩ := ok_pair_inj (hok'.symm.trans hok)
    rw [zeroOnAlloc_eq (m := { m with allocator := a }) hmode]
    exact hz.grow (fun _ => .inl rfl) fun c hc i hic => ⟨c, (ha.used c).mpr (.inr hc), hic⟩

lemma FreeZero.fill (hz : m.FreeZero) (ptr count : ℕ) :
    (m.fill (m.bytesAtMut ptr count) 0).FreeZero := by
  refine hz.grow (fun i => (fill_zero_bytes ptr count i).imp_right .inl) fun c hc i hic => ?_
  rw [fill_allocator]
  exact ⟨c, hc, hic⟩

lemma FreeZero.freed (h : m.Sound) (hmode : m.zeroMemoryOnFree = true) (hz : m.FreeZero)
    (hf : m.Freed ptr m') : m'.FreeZero := by
  cases hf with
  | ignored => exact hz
  | @freed c _ _ a hne _ hb _ hf =>
    subst hb
    have hn := h.null_le hf.mem hne
    have hstop := h.allocator.wf.stop_le (.used, c) hf.mem
    have hlen : c.base + c.size.get ≤ bytesLen := hstop.trans u32Bound_le
    have hbytes : (zeroOnFree { m with allocator := a } c.base c.size.get).bytes =
        m.bytes.fill c.base c.size.get 0 := by
      unfold zeroOnFree
      rw [if_pos hmode, fill_bytes (m := { m with allocator := a }) hn hlen]
    refine hz.of_bytes (fun i => ?_) fun i hi heq => ?_
    · rw [hbytes]
      by_cases hi : c.base ≤ i ∧ i < c.base + c.size.get
      · exact .inr (.inl (Bytes.fill_inside hi.1 hi.2))
      · exact .inl (Bytes.fill_outside (by omega))
    · by_cases hic : i ∈ c.range
      · rw [← heq, hbytes]
        exact .inl (Bytes.fill_inside hic.1 hic.2)
      · refine .inr fun d hd hid => ?_
        by_cases hdc : d = c
        · exact hic (hdc ▸ hid)
        · refine hi d ?_ hid
          rw [zeroOnFree_allocator]
          exact (hf.used d).mpr ⟨hd, hdc⟩

lemma FreeZero.memmove (hz : m.FreeZero) {dest src : ℕ}
    (hdest : ∀ i, dest ≤ i → i < dest + size → ∃ c ∈ m.allocator.usedChunks, i ∈ c.range) :
    (m.memmove dest src size).FreeZero := by
  refine hz.grow (fun i => ?_) fun c hc i hic => ?_
  · by_cases hi : dest ≤ i ∧ i < dest + size
    · right
      right
      rw [memmove_allocator]
      exact hdest i hi.1 hi.2
    · exact .inl (memmove_bytes_outside (by omega))
  · rw [memmove_allocator]
    exact ⟨c, hc, hic⟩

lemma FreeZero.inPlace {old adjacent grown : Chunk} {a : Allocator} (hz : m.FreeZero)
    (hmode : m.zeroMemoryOnFree = true) (h : m.Sound) (hne : old.base ≠ 0)
    (hg : m.allocator.Grows old size adjacent grown a)
    (htail : zeroTail { m with allocator := a } old.base old.size.get grown.size.get = .ok m') :
    m'.FreeZero := by
  obtain ⟨pieces, hgrown, -⟩ := hg.pieces
  have hgb := hgrown.base_eq
  have hgs : grown.stop ≤ u32Bound := (hg.wf h.allocator.wf).stop_le (.used, grown)
    ((hg.used grown).mpr (.inl rfl))
  have hn := h.null_le hg.mem hne
  have hlarger := hg.size_bounds.1
  have hold := hg.larger
  have hm' := (sameHeap_zeroTail htail).allocator
  refine hz.grow (fun i => ?_) fun c hc i hic => ?_
  · by_cases hi : old.base + old.size.get ≤ i ∧ i < old.base + grown.size.get
    · refine .inr (.inl (zeroTail_inside (m := { m with allocator := a }) hmode hn ?_ htail
        hi.1 hi.2))
      rw [← hgb]
      exact hgs.trans u32Bound_le
    · exact .inl (zeroTail_bytes (m := { m with allocator := a }) htail (by omega))
  · rw [hm']
    by_cases hco : c = old
    · subst hco
      refine ⟨grown, (hg.used grown).mpr (.inl rfl), ?_⟩
      simp only [mem_range, stop] at *
      omega
    · exact ⟨c, (hg.used c).mpr (.inr ⟨hc, hco⟩), hic⟩

lemma FreeZero.relocate {oldSize newPtr : ℕ} (hz : m.FreeZero) (hmode : m.zeroMemoryOnFree = true)
    (h : m.Sound) (hlt : size < u32Bound) (hlarger : oldSize < size)
    (hspill : m.allocator.OutOfMemory size → oldSize ≤ m.nullSegmentSize)
    (hok : m.relocate ptr oldSize size = .ok (newPtr, m')) : m'.FreeZero := by
  obtain ⟨m₁, halloc, hfree⟩ := relocate_eq_ok.mp hok
  have h₁ := alloc_sound h hlt halloc
  have hz₁ := hz.alloc h.allocator hmode hlt halloc
  have hmove := sameHeap_memmove (m := m₁) newPtr ptr oldSize
  have hdest : ∀ i, newPtr ≤ i → i < newPtr + oldSize →
      ∃ c ∈ m₁.allocator.usedChunks, i ∈ c.range := by
    rcases alloc_ok h.allocator hlt with ⟨halloc', hoom⟩ | ⟨existing, alloc, a, halloc', ha⟩
    · obtain ⟨rfl, rfl⟩ := ok_pair_inj (halloc'.symm.trans halloc)
      intro i _ hi
      have hnull := hspill hoom
      obtain ⟨n, hn, hnb, hns⟩ := h.null (by omega)
      exact ⟨n, by rwa [zeroOnAlloc_allocator], by rw [mem_range]; omega⟩
    · obtain ⟨rfl, rfl⟩ := ok_pair_inj (halloc'.symm.trans halloc)
      intro i hi hi'
      have hsize := ha.size_le
      refine ⟨alloc, ?_, mem_range.mpr ⟨hi, by unfold stop; omega⟩⟩
      rw [zeroOnAlloc_allocator]
      exact (ha.used alloc).mpr (.inl rfl)
  have hmode₁ : m₁.zeroMemoryOnFree = true := (alloc_mode halloc).trans hmode
  exact (hz₁.memmove hdest).freed (hmove.sound h₁) (hmove.zeroMemoryOnFree.trans hmode₁)
    (free_cases (hmove.sound h₁).allocator hfree)

end FreeZero

section Runs

/-- Guest writes go to chunks in use, and, with zeroing on free, a `realloc` that runs out of memory
concerns a block no larger than the null segment. -/
def KeepsFreeZero (m : Mem) : Request → Prop
  | .write addr _ => ∃ c ∈ m.allocator.usedChunks, (addr : ℕ) ∈ c.range
  | .realloc ptr size => m.zeroMemoryOnFree = true → ∀ old ∈ m.allocator.usedChunks,
      old.base = ptr → m.CanServe old size ∨ old.size.get ≤ m.nullSegmentSize
  | _ => True

lemma Reallocated.mode {newPtr : ℕ} (hr : m.Reallocated ptr size newPtr m') :
    m'.zeroMemoryOnFree = m.zeroMemoryOnFree := by
  cases hr with
  | fresh _ hok => exact alloc_mode hok
  | enough => rfl
  | inPlace _ _ _ _ htail => exact (sameHeap_zeroTail htail).zeroMemoryOnFree
  | moved _ _ _ _ _ hok =>
    obtain ⟨m₁, halloc, hfree⟩ := relocate_eq_ok.mp hok
    have hmode := alloc_mode halloc
    exact (free_mode hfree).trans ((sameHeap_memmove _ _ _).zeroMemoryOnFree.trans hmode)

lemma FreeZero.reallocated {newPtr : ℕ} (hz : m.FreeZero) (hmode : m.zeroMemoryOnFree = true)
    (h : m.Sound) (hlt : size < u32Bound)
    (hspill : ∀ old ∈ m.allocator.usedChunks,
      old.base = ptr → m.CanServe old size ∨ old.size.get ≤ m.nullSegmentSize)
    (hr : m.Reallocated ptr size newPtr m') : m'.FreeZero := by
  cases hr with
  | fresh _ hok => exact hz.alloc h.allocator hmode hlt hok
  | enough => exact hz
  | inPlace hne hb _ hg htail =>
    subst hb
    exact hz.inPlace hmode h hne hg htail
  | @moved a _ _ hne hlarger hroom hcoh hsame hok =>
    have h₀ : Sound { m with allocator := a } :=
      h.of_stepped (.same hcoh hsame) fun c hc _ => (hsame.1 c).mpr hc
    have hz₀ : FreeZero { m with allocator := a } :=
      fun i hi => hz i fun c hc => hi c ((hsame.1 c).mpr hc)
    refine hz₀.relocate hmode h₀ hlt hlarger (fun hoom => ?_) hok
    rcases m.allocator.exists_used_or ptr with ⟨old, hold, hb⟩ | hno
    · have hsize := Allocator.findAllocatedSize_of_mem hold
      rw [hb] at hsize
      rcases hspill old hold hb with (hle | ⟨c, hc⟩ | hmem) | hle
      · omega
      · exact absurd hc ((hroom old hold hb).2 c)
      · exact absurd (hsame.outOfMemory.mp hoom) hmem
      · rwa [hsize]
    · rw [Allocator.findAllocatedSize, ChunkMap.getSizeWithBase_eq_none.mpr hno]
      exact Nat.zero_le _

lemma FreeZero.served (hz : m.FreeZero) (hmode : m.zeroMemoryOnFree = true) (h : m.Sound)
    {r : Request} (hr : m.KeepsFreeZero r) (hok : m.serve r = .ok (ptr, m')) : m'.FreeZero := by
  cases r with
  | reserve base size hbase hsize hstop =>
    obtain ⟨m₁, hres, hok⟩ := map_eq_ok.mp hok
    obtain ⟨-, rfl⟩ := Prod.mk.inj hok
    cases reserve_cases h.allocator size.isLt hbase hsize hstop hres with
    | skipped => exact hz
    | reserved _ hres' =>
      exact hz.grow (fun _ => .inl rfl) fun c hc i hic => ⟨c, (hres'.used c).mpr (.inr hc), hic⟩
  | alloc size => exact hz.alloc h.allocator hmode size.isLt hok
  | calloc size =>
    obtain ⟨m₁, halloc, rfl⟩ := calloc_cases hok
    exact (hz.alloc h.allocator hmode size.isLt halloc).fill _ _
  | free ptr =>
    obtain ⟨m₁, hfree, hok⟩ := map_eq_ok.mp hok
    obtain ⟨-, rfl⟩ := Prod.mk.inj hok
    exact hz.freed h hmode (free_cases h.allocator hfree)
  | realloc ptr size =>
    exact hz.reallocated hmode h size.isLt (hr hmode) (realloc_cases h.allocator hok)
  | write addr v =>
    obtain ⟨-, rfl⟩ := ok_pair_inj hok
    obtain ⟨c, hc, hin⟩ := hr
    refine hz.grow (fun i => ?_) fun d hd i hid => ⟨d, by rwa [write_allocator], hid⟩
    by_cases hi : i = addr
    · right
      right
      rw [write_allocator]
      exact ⟨c, hc, hi ▸ hin⟩
    · exact .inl (fill_bytes_outside (by omega) v)

lemma serve_mode (h : m.Sound) {r : Request} (hok : m.serve r = .ok (ptr, m')) :
    m'.zeroMemoryOnFree = m.zeroMemoryOnFree := by
  cases r with
  | reserve base size hbase hsize hstop =>
    obtain ⟨m₁, hres, hok⟩ := map_eq_ok.mp hok
    obtain ⟨-, rfl⟩ := Prod.mk.inj hok
    cases reserve_cases h.allocator size.isLt hbase hsize hstop hres with
    | skipped => rfl
    | reserved => rfl
  | alloc size => exact alloc_mode hok
  | calloc size =>
    obtain ⟨m₁, halloc, rfl⟩ := calloc_cases hok
    exact (fill_zeroMemoryOnFree _ _).trans (alloc_mode halloc)
  | free ptr =>
    obtain ⟨m₁, hfree, hok⟩ := map_eq_ok.mp hok
    obtain ⟨-, rfl⟩ := Prod.mk.inj hok
    exact free_mode hfree
  | realloc ptr size => exact (realloc_cases h.allocator hok).mode
  | write addr v =>
    obtain ⟨-, rfl⟩ := ok_pair_inj hok
    exact fill_zeroMemoryOnFree _ _

lemma exec_freeZero {zof : Bool} {seg : NullSegment} {requests : List Request}
    (hkeeps : Throughout KeepsFreeZero zof seg requests) (hok : exec zof seg requests = .ok m) :
    m.Sound ∧ (m.zeroMemoryOnFree = true → m.FreeZero) := by
  refine exec_preserves (I := fun m => m.zeroMemoryOnFree = true → m.FreeZero)
    (fun m hb _ i _ => hb.bytes i) (fun m r m' h hI hr hok hmode => ?_) hkeeps hok
  obtain ⟨ptr, hok⟩ := step_eq_ok.mp hok
  have hmode' : m.zeroMemoryOnFree = true := (serve_mode h hok).symm.trans hmode
  exact (hI hmode').served hmode' h hr hok

end Runs

section Extended

variable {old : Chunk}

def Extended (m : Mem) (old : Chunk) (size newPtr : ℕ) (m' : Mem) : Prop :=
  ∀ i < size, m'.read (newPtr + i) = if i < old.size.get then m.read (old.base + i) else 0

def PathsAgree (m : Mem) (old : Chunk) (size : ℕ) : Prop :=
  ∀ newPtr m', m.realloc old.base size = .ok (newPtr, m') ∨
      m.relocate old.base old.size.get size = .ok (newPtr, m') →
    newPtr ≠ 0 → m.Extended old size newPtr m'

lemma relocate_extended (h : m.Sound) (hz : m.zeroMemoryOnFree = true → m.FreeZero)
    (hold : old ∈ m.allocator.usedChunks) (hne : old.base ≠ 0) (hlt : size < u32Bound)
    (hlarger : old.size.get < size) {newPtr : ℕ}
    (hok : m.relocate old.base old.size.get size = .ok (newPtr, m')) (hnew : newPtr ≠ 0) :
    m.Extended old size newPtr m' := by
  obtain ⟨m₁, halloc, hfree⟩ := relocate_eq_ok.mp hok
  rcases alloc_ok h.allocator hlt with ⟨halloc', -⟩ | ⟨existing, alloc, a, halloc', ha⟩
  · obtain ⟨rfl, -⟩ := ok_pair_inj (halloc'.symm.trans halloc)
    exact absurd rfl hnew
  obtain ⟨rfl, rfl⟩ := ok_pair_inj (halloc'.symm.trans halloc)
  obtain ⟨hcontents, htail, hin, -⟩ := moved_bytes h hold hne ha hlarger hfree
  have hwf := h.allocator.wf
  have hsize := ha.size_le
  have hstop := ha.stop_le hwf
  have hmove := sameHeap_memmove
    (m := zeroOnAlloc { m with allocator := a } alloc.base size) alloc.base old.base old.size.get
  have hsound := alloc_sound h hlt halloc
  have hsound' := (free_cases (hmove.sound hsound).allocator hfree).sound (hmove.sound hsound)
  have hnull := hsound'.null_le hin hnew
  have holdstop := hwf.stop_le (.used, old) hold
  intro i hi
  rw [read_eq (hnull.trans (Nat.le_add_right _ _)) (by unfold stop at hstop; omega)]
  split
  · rename_i hlow
    rw [hcontents i hlow, read_eq ((h.null_le hold hne).trans (Nat.le_add_right _ _))
      (by unfold stop at holdstop; dsimp only at holdstop; omega)]
  · rename_i hhigh
    rw [htail i (not_lt.mp hhigh) (hi.trans_le hsize)]
    rcases Bool.eq_false_or_eq_true m.zeroMemoryOnFree with hmode | hmode
    · rw [zeroOnAlloc_eq (m := { m with allocator := a }) hmode]
      refine hz hmode _ fun c hc hin => ?_
      have hapart := ha.apart hwf hc
      simp only [mem_range, stop] at *
      omega
    · have hnull₁ := (h.of_stepped (.allocated ha) fun c hc _ => (ha.used c).mpr (.inr hc)).null_le
        ((ha.used alloc).mpr (.inl rfl)) hnew
      have hlen : alloc.base + size ≤ bytesLen := by
        have := u32Bound_le
        unfold stop at hstop
        omega
      unfold zeroOnAlloc
      rw [if_pos (by simp [hmode]), fill_bytes (m := { m with allocator := a }) hnull₁ hlen]
      exact Bytes.fill_inside (Nat.le_add_right _ _) (by omega)

lemma inPlace_extended (h : m.Sound) (hne : old.base ≠ 0) {adjacent grown : Chunk} {a : Allocator}
    (hg : m.allocator.Grows old size adjacent grown a)
    (htail : zeroTail { m with allocator := a } old.base old.size.get grown.size.get = .ok m')
    (hzero : m.zeroMemoryOnFree = true ∨
      ∀ i, old.size.get ≤ i → i < size → m.bytes (old.base + i) = 0) :
    m.Extended old size old.base m' := by
  obtain ⟨pieces, hgrown, -⟩ := hg.pieces
  have hgb := hgrown.base_eq
  have hgs : grown.stop ≤ u32Bound := (hg.wf h.allocator.wf).stop_le (.used, grown)
    ((hg.used grown).mpr (.inl rfl))
  have hn := h.null_le hg.mem hne
  have hn' : m'.nullSegmentSize = m.nullSegmentSize := (sameHeap_zeroTail htail).nullSegmentSize
  have hsize := hg.size_bounds.1
  have hlarger := hg.larger
  have hlow : ∀ i, i < old.base + old.size.get → m'.bytes i = m.bytes i :=
    fun i hi => zeroTail_bytes (m := { m with allocator := a }) htail (.inl hi)
  have htop : old.base + size ≤ u32Bound := by
    unfold stop at hgs
    omega
  intro i hi
  rw [read_eq (by omega) (by omega)]
  split
  · rw [hlow _ (by omega), read_eq (by omega) (by omega)]
  · rename_i hhigh
    rcases Bool.eq_false_or_eq_true m.zeroMemoryOnFree with hmode | hmode
    · refine zeroTail_inside (m := { m with allocator := a }) hmode hn ?_ htail (by omega) (by omega)
      rw [← hgb]
      exact hgs.trans u32Bound_le
    · have hzero := hzero.resolve_left (by simp [hmode])
      rw [zeroTail_eq (m := { m with allocator := a }) hmode htail]
      exact hzero i (not_lt.mp hhigh) hi

lemma realloc_inPlace (h : m.Sound) (hold : old ∈ m.allocator.usedChunks) (hne : old.base ≠ 0)
    (hmain : old ≠ Allocator.mainThreadStack) (hlarger : old.size.get < size)
    (hmode : m.zeroMemoryOnFree = false) (hroom : ∃ c, m.allocator.RoomIn old size c) :
    ∃ m', m.realloc old.base size = .ok (old.base, m') ∧ m'.bytes = m.bytes ∧
      m'.nullSegmentSize = m.nullSegmentSize := by
  have hbase : old.base ≠ mainThreadStackLowEnd := fun he => hmain (h.allocator.eq_stack hold he)
  rcases Allocator.growInPlace_ok h.allocator.wf hold hlarger
    (h.allocator.used_stop_lt hold hbase) h.allocator.free_stop_lt with
    ⟨a, -, -, -, hno⟩ | ⟨adjacent, grown, a, hgrow, hg⟩
  · obtain ⟨c, hc⟩ := hroom
    exact absurd hc (hno c)
  · refine ⟨{ m with allocator := a }, ?_, rfl, rfl⟩
    simp [realloc, hne, Allocator.findAllocatedSize_of_mem hold, hlarger, hgrow, zeroTail, hmode]

/-- In every reachable memory whose free memory was kept zero, enlarging a block gives the old
contents and zeros either way, unless it grows in place with zeroing on allocation and the bytes it
takes over are not zero. -/
theorem exec_paths_agree_iff {zof : Bool} {seg : NullSegment} {requests : List Request}
    (hkeeps : Throughout KeepsFreeZero zof seg requests) (hok : exec zof seg requests = .ok m)
    (hold : old ∈ m.allocator.usedChunks) (hne : old.base ≠ 0)
    (hmain : old ≠ Allocator.mainThreadStack) (size : GuestUSize) (hlarger : old.size.get < size) :
    m.PathsAgree old size ↔ ((∃ c, m.allocator.RoomIn old size c) → m.zeroMemoryOnFree = true ∨
      ∀ i, old.size.get ≤ i → i < size → m.bytes (old.base + i) = 0) := by
  obtain ⟨h, hz⟩ := exec_freeZero hkeeps hok
  constructor
  · intro hagree hroom
    rcases Bool.eq_false_or_eq_true m.zeroMemoryOnFree with hmode | hmode
    · exact Or.inl hmode
    · right
      obtain ⟨m', hrealloc, hbytes, hnull⟩ := realloc_inPlace h hold hne hmain hlarger hmode hroom
      obtain ⟨c, hc⟩ := hroom
      have hc' := hc.enough
      have hstop := h.allocator.wf.stop_le (.free, c) hc.mem
      have hbase := hc.base
      have hn := h.null_le hold hne
      intro i hi hi'
      have hread := hagree old.base m' (Or.inl hrealloc) hne i hi'
      rw [if_neg hi.not_gt, read_eq (by omega) (by simp only [Chunk.stop] at *; omega), hbytes]
        at hread
      exact hread
  · rintro hzero newPtr m' (hrealloc | hmoved) hnew
    · have hrecorded := Allocator.findAllocatedSize_of_mem hold
      cases realloc_cases h.allocator hrealloc with
      | fresh hp => exact absurd hp hne
      | enough _ hle => exact absurd (hrecorded ▸ hle) hlarger.not_ge
      | @inPlace old' adjacent _ _ _ _ hb _ hg htail =>
        obtain rfl := ChunkMap.eq_of_base hg.mem hold hb
        exact inPlace_extended h hne hg htail (hzero ⟨adjacent, hg.room⟩)
      | @moved a _ _ _ _ _ hcoh hsame hmoved =>
        have h₀ : Sound { m with allocator := a } :=
          h.of_stepped (.same hcoh hsame) fun c hc _ => (hsame.1 c).mpr hc
        have hz₀ : m.zeroMemoryOnFree = true → FreeZero { m with allocator := a } :=
          fun hmode i hi => hz hmode i fun c hc => hi c ((hsame.1 c).mpr hc)
        rw [hrecorded] at hmoved
        exact relocate_extended h₀ hz₀ ((hsame.1 old).mpr hold) hne size.isLt hlarger hmoved hnew
    · exact relocate_extended h hz hold hne size.isLt hlarger hmoved hnew

theorem exec_paths_agree_on_free : ∃ (m : Mem) (old : Chunk),
    exec true .onePage [.alloc 16] = .ok m ∧ old ∈ m.allocator.usedChunks ∧ old.base = 4096 ∧
      m.PathsAgree old 32 := by
  have hrun : (exec true .onePage [.alloc 16] >>= fun m =>
      .ok (m.allocator.usedChunks.getSizeWithBase 4096, m.zeroMemoryOnFree)) =
      .ok (NonZeroU32.new 16, true) := by decide
  obtain ⟨m, hm, hstate⟩ := bind_eq_ok.mp hrun
  obtain ⟨hused, hmode⟩ := ok_pair_inj hstate
  have hold := ChunkMap.mem_of_getSizeWithBase (by decide) (by decide) hused
  have hkeeps : Throughout KeepsFreeZero true .onePage [.alloc 16] :=
    fun _ _ => ⟨trivial, fun _ _ => trivial⟩
  exact ⟨m, _, hm, hold, rfl, (exec_paths_agree_iff hkeeps hm hold (by decide) (by decide) 32
    (by decide)).mpr fun _ => Or.inl hmode⟩

def WritesLive (m : Mem) : Request → Prop
  | .write addr _ => ∃ c ∈ m.allocator.usedChunks, (addr : ℕ) ∈ c.range
  | _ => True

theorem exec_inPlace_stale :
    ¬ ∀ (zof : Bool) (seg : NullSegment) (requests : List Request) (m : Mem) (old : Chunk)
      (size : GuestUSize), Throughout WritesLive zof seg requests →
        exec zof seg requests = .ok m → old ∈ m.allocator.usedChunks → old.base ≠ 0 →
        old ≠ Allocator.mainThreadStack → old.size.get < size → m.PathsAgree old size := by
  intro h
  have hlive : Throughout WritesLive false .onePage
      [.alloc 16, .alloc 64, .write 4112 1, .free 4112] := by
    intro m hm
    refine ⟨trivial, fun m₁ h₁ => ⟨trivial, fun m₂ h₂ =>
      ⟨?_, fun _ _ => ⟨trivial, fun _ _ => trivial⟩⟩⟩⟩
    have hrun : (exec false .onePage [.alloc 16, .alloc 64] >>= fun m =>
        .ok (m.allocator.usedChunks.getSizeWithBase 4112)) = .ok (NonZeroU32.new 64) := by decide
    have hexec : exec false .onePage [.alloc 16, .alloc 64] = .ok m₂ := by
      simp only [exec, hm, ok_bind, run_cons, h₁, h₂, run_nil]
    rw [hexec, ok_bind] at hrun
    exact ⟨_, ChunkMap.mem_of_getSizeWithBase (by decide) (by decide) (Except.ok.inj hrun),
      by decide⟩
  have hrun : (exec false .onePage [.alloc 16, .alloc 64, .write 4112 1, .free 4112] >>= fun m =>
      m.realloc 4096 32 >>= fun r =>
        .ok (m.allocator.usedChunks.getSizeWithBase 4096, r.1, r.2.read 4112)) =
      .ok (NonZeroU32.new 16, 4096, 1) := by decide
  obtain ⟨m, hm, hrun⟩ := bind_eq_ok.mp hrun
  obtain ⟨⟨newPtr, m'⟩, hrealloc, hstate⟩ := bind_eq_ok.mp hrun
  obtain ⟨hused, hrest⟩ := ok_pair_inj hstate
  obtain ⟨rfl, hread⟩ := Prod.mk.inj hrest
  have hold := ChunkMap.mem_of_getSizeWithBase (by decide) (by decide) hused
  have hagree := h false .onePage _ m _ 32 hlive hm hold (by decide) (by decide) (by decide)
  have hzero := hagree 4096 m' (Or.inl hrealloc) (by decide) 16 (by decide)
  rw [if_neg (by decide), hread] at hzero
  exact absurd hzero (by decide)

end Extended

end Mem

end TouchHle.Memory
