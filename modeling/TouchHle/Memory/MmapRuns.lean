import TouchHle.Memory.MallocRuns

/-! Mappings stay apart from each other and from the heap, with the bytes that were asked for, as long
as they are made of whole pages and unmapped as a whole. -/

namespace TouchHle.Memory.Mmap

open Lib Libc Function List Option

section Heap

variable {h : Heap} {m m' : Mem} {r : Request} {b : Block} {ptr len : ℕ} {U : Set Chunk}
  {blocks : ℕ → Option Block}

lemma Memaligned.fresh (hm : Memaligned m b ptr m') (ht : Tracks (used m) blocks) (hne : ptr ≠ 0) :
    blocks ptr = none := by
  rw [eq_none_iff_forall_ne_some]
  intro b' hb'
  cases hm with
  | failed => exact hne rfl
  | taken _ hapart hwithin => exact ht.free_range hapart hb' hwithin.mem

lemma Kept.regrown (hk : Libc.Kept h) {p size : GuestUSize} (hp : (p : ℕ) ≠ 0)
    (huse : Libc.Use h (.realloc p size)) :
    ∃ m' c d n, Libc.serve h.mem (.realloc p size) = .ok (d.base, m') ∧ Regrown h.mem m' n c d ∧
      c ∈ used h.mem ∧ (p : ℕ) ∈ c.range := by
  have hnull : 0 < h.mem.nullSegmentSize := lt_of_lt_of_le (by decide) hk.null
  rw [Libc.Use, if_neg hp] at huse
  obtain ⟨⟨b, hb, hal⟩, hserve, hsplit⟩ := huse
  have hlt : (if (size : ℕ) = 0 then 1 else (size : ℕ)) < u32Bound := by
    have hone : 1 < u32Bound := by decide
    have hsize := size.isLt
    split <;> omega
  obtain ⟨c, hc, hbase, hwithin⟩ := hk.tracks.whole hb hal
  rw [← hbase] at hsplit
  obtain ⟨m', d, hok, -, -, hre⟩ := hk.good.realloc hnull hc hwithin.base hwithin.heap hlt
    (hserve c hc hbase) hsplit
  refine ⟨m', c, d, _, ?_, hre, hc, hwithin.mem⟩
  rw [Libc.serve, Libc.realloc, if_neg hp, ← hbase]
  exact hok

lemma Kept.fresh (hk : Libc.Kept h) (huse : Libc.Use h r) (hserve : Libc.serve h.mem r = .ok (ptr, m'))
    (hasks : r.asks = some b) (hne : ptr ≠ 0) (hgives : ∀ p ∈ r.gives, p ≠ ptr) :
    h.blocks ptr = none := by
  have hnull : 0 < h.mem.nullSegmentSize := lt_of_lt_of_le (by decide) hk.null
  have hbound : u32Bound + 4 ≤ bytesLen := by decide
  cases r with
  | malloc size =>
    obtain ⟨q, m₁, hok, -, -, hres⟩ := malloc_memaligned hk.good hnull size.isLt huse dvd_rfl
    obtain ⟨rfl, rfl⟩ := ok_pair_inj (hok.symm.trans hserve)
    exact Memaligned.fresh hres hk.tracks hne
  | calloc count size =>
    obtain ⟨q, m₁, hok, -, -, n, hres, hsize⟩ := calloc_ok hk.good count size
    obtain ⟨rfl, rfl⟩ := ok_pair_inj (hok.symm.trans hserve)
    exact Memaligned.fresh (hres.memaligned hk.good hnull (b := ⟨size * count, naturalAlign⟩) hsize dvd_rfl)
      hk.tracks hne
  | posixMemalign memptr alignment size =>
    obtain ⟨rc, m₁, hok, -, -, hres⟩ := posixMemalign_ok hk.good hnull huse.1
      (by have hlt := memptr.isLt; omega) size.isLt huse.2
    rw [Libc.serve, hok] at hserve
    obtain ⟨rfl, rfl⟩ := ok_pair_inj hserve
    exact Memaligned.fresh hres hk.tracks hne
  | valloc size =>
    obtain ⟨q, m₁, hok, -, -, hres⟩ := valloc_ok hk.good hnull size.isLt
    obtain ⟨rfl, rfl⟩ := ok_pair_inj (hok.symm.trans hserve)
    exact Memaligned.fresh hres hk.tracks hne
  | realloc p size =>
    by_cases hp : (p : ℕ) = 0
    · rw [Libc.Use, if_pos hp] at huse
      obtain ⟨q, m₁, hok, -, -, hres⟩ := malloc_memaligned hk.good hnull size.isLt huse dvd_rfl
      rw [Libc.serve, Libc.realloc, if_pos hp, hok] at hserve
      obtain ⟨rfl, rfl⟩ := ok_pair_inj hserve
      exact Memaligned.fresh hres hk.tracks hne
    · obtain ⟨m₁, c, d, n, hok, hre, hc, hmem⟩ := Kept.regrown hk hp huse
      obtain ⟨rfl, rfl⟩ := ok_pair_inj (hok.symm.trans hserve)
      obtain ⟨-, ⟨b₀, hb₀, -⟩, -⟩ : True ∧ Natural h p ∧ True := by
        rw [Libc.Use, if_neg hp] at huse
        exact ⟨trivial, huse.1, trivial⟩
      rw [eq_none_iff_forall_ne_some]
      intro b' hb'
      obtain ⟨e, he, hwithin⟩ := hk.tracks.live d.base b' hb'
      have hec : e ∉ ({c} : Set Chunk) := by
        intro hec
        obtain rfl := Set.mem_singleton_iff.mp hec
        exact hgives p rfl (hk.tracks.alone e he p d.base b₀ b' hb₀ hb' hmem hwithin.mem)
      exact Set.disjoint_left.mp (hre.apart e ⟨he, hec⟩) hwithin.mem
        (Chunk.mem_range.mpr ⟨le_rfl, d.base_lt_stop⟩)
  | free p => cases hasks
  | write addr v => cases hasks

lemma Kept.failed (hk : Libc.Kept h) (huse : Libc.Use h r) {size : GuestUSize}
    (hr : r = .malloc size ∨ ∃ p, r = .realloc p size)
    (hserve : Libc.serve h.mem r = .ok (0, m')) : used m' = used h.mem := by
  have hmalloc : ∀ {m'}, malloc h.mem size = .ok (0, m') → used m' = used h.mem := by
    intro m' hok
    obtain ⟨q, m₁, hok', -, hnull, n, hres, -⟩ := malloc_ok hk.good size.isLt
    obtain ⟨hq, rfl⟩ := ok_pair_inj (hok'.symm.trans hok)
    cases hres with
    | failed hused => exact hused
    | taken htakes =>
      exact absurd hq (htakes.base_ne hk.good (lt_of_lt_of_le (by decide) hk.null))
  obtain rfl | ⟨p, rfl⟩ := hr
  · exact hmalloc hserve
  · by_cases hp : (p : ℕ) = 0
    · rw [Libc.serve, Libc.realloc, if_pos hp] at hserve
      exact hmalloc hserve
    · obtain ⟨m₁, c, d, n, hok, hre, -⟩ := Kept.regrown hk hp huse
      obtain ⟨hd, -⟩ := ok_pair_inj (hok.symm.trans hserve)
      exact absurd hd hre.base

end Heap

section Place

variable {m m' : Mem} {len : ℕ}

def Places (m : Mem) (len : ℕ) : Prop :=
  ¬ m.allocator.OutOfMemory len ∧ ∀ n, Allocator.alignedSize len = some n →
    ∀ c, SmallestFit n (· ∈ m.allocator.unusedChunks) c → c.base % pageSize = 0

lemma places_of_page (h : Good m) (hlen : pageSize ≤ len) (hmem : ¬ m.allocator.OutOfMemory len) :
    Places m len := by
  refine ⟨hmem, fun n hn c hc => ?_⟩
  have hle : len ≤ n := by
    rw [Allocator.alignedSize, if_neg hlen.not_gt] at hn
    exact (align_eq_some (by decide) hn).2.1
  exact h.sound.allocator.wf.tidy.aligned c hc.1 (hlen.trans (hle.trans hc.2.1))

lemma calloc_new (h : Good m) (hnull : 0x1000 ≤ m.nullSegmentSize) (hlt : len < u32Bound) :
    ∃ ptr m', m.calloc len = .ok (ptr, m') ∧ Good m' ∧ m'.nullSegmentSize = m.nullSegmentSize ∧
      (m.allocator.OutOfMemory len ∧ ptr = 0 ∧ used m' = used m ∨
        ∃ c, ptr = c.base ∧ Takes m m' len c ∧ c.base ≠ 0 ∧ m.nullSegmentSize ≤ c.base ∧
          (Places m len → c.base % pageSize = 0) ∧ ∀ i < len, m'.bytes (c.base + i) = 0) := by
  obtain ⟨ptr, m₁, halloc, hgood, hnull₁, hres, hor⟩ := h.alloc hlt
  have hsame : Mem.SameHeap m₁ (m₁.fill (m₁.bytesAtMut ptr len) 0) := Mem.sameHeap_fill _ _
  refine ⟨ptr, _, ?_, hgood.same hsame, hsame.nullSegmentSize.trans hnull₁, ?_⟩
  · rw [Mem.calloc, halloc]
    rfl
  obtain ⟨hok, hoom⟩ | ⟨existing, alloc, a, hok, ha⟩ := Mem.alloc_ok h.sound.allocator hlt
  · obtain ⟨hptr, -⟩ := ok_pair_inj (halloc.symm.trans hok)
    refine .inl ⟨hoom, hptr, ?_⟩
    cases hres with
    | failed hused => exact (used_same hsame).trans hused
    | taken htakes => exact absurd hoom htakes.fits
  · obtain ⟨hptr, -⟩ := ok_pair_inj (halloc.symm.trans hok)
    obtain ⟨n, hn, hfit, pieces, hcarved, -⟩ := ha.fit
    obtain hoom | ⟨c, rfl, htakes⟩ := hor
    · exact absurd hfit.2.1 (hoom n hn existing hfit.1).not_ge
    have hne := htakes.base_ne h (lt_of_lt_of_le (by decide) hnull)
    have hc : c ∈ used m₁ := htakes.used ▸ Set.mem_insert c _
    have hlo := hgood.sound.null_le hc hne
    have hstop := hgood.range_le hc (htakes.heap h)
    have hcstop : c.stop = c.base + c.size.get := rfl
    have hlarge := htakes.large
    have hbound := Mem.u32Bound_le
    refine .inr ⟨c, rfl, ⟨(used_same hsame).trans htakes.used, htakes.apart, htakes.granular, hlarge,
      htakes.fits⟩, hne, hnull₁ ▸ hlo, fun hplaces => ?_, fun i hi => ?_⟩
    · rw [hptr, hcarved.base_eq]
      exact hplaces.2 n hn existing hfit
    · rw [Mem.fill_bytes hlo (by omega)]
      exact Bytes.fill_inside (by omega) (by omega)

lemma store_same (m : Mem) (s : Slice) (data : List UInt8) : Mem.SameHeap m (m.store s data) := by
  rw [Mem.store]
  split <;> exact ⟨rfl, rfl, rfl⟩

lemma read_same (m : Mem) (files : Files) (fd : ℤ) (buffer size : ℕ) :
    Mem.SameHeap m (read m files fd buffer size).1 := by
  rw [read]
  split_ifs
  · exact ⟨rfl, rfl, rfl⟩
  · split
    · exact ⟨rfl, rfl, rfl⟩
    · exact store_same _ _ _

lemma read_file {files : Files} {fd : ℤ} {content : List UInt8} {position buffer : ℕ}
    (hfile : files fd = some (.file content true position)) (hne : buffer ≠ 0)
    (hnull : m.nullSegmentSize ≤ buffer) (hl : buffer + len ≤ bytesLen)
    (hzero : ∀ i < len, m.bytes (buffer + i) = 0) :
    (∀ i < len, (read m files fd buffer len).1.bytes (buffer + i) = content.getD (position + i) 0) ∧
      (read m files fd buffer len).2 = update files fd
        (some (.file content true (position + min len (content.length - position)))) := by
  have hview : m.bytesAtMut buffer len = ⟨.guest, buffer, len⟩ := by
    rw [Mem.bytesAtMut, Mem.view, if_neg hnull.not_gt, if_neg hl.not_gt]
  have hread : read m files fd buffer len =
      ({ m with bytes := m.bytes.store buffer ((content.drop position).take len) },
        update files fd (some (.file content true (position +
          ((content.drop position).take len).length)))) := by
    rw [read, if_neg hne, hfile]
    dsimp only
    rw [hview]
    rfl
  rw [hread]
  refine ⟨fun i hi => ?_, ?_⟩
  · have hget : ((content.drop position).take len).getD i 0 = content.getD (position + i) 0 := by
      simp only [getD_eq_getElem?_getD, getElem?_take_of_lt hi, getElem?_drop]
    dsimp only
    rw [Bytes.store_inside, hzero i hi, hget]
  · rw [length_take, length_drop]

end Place

def overlay (allocations : ℕ → Option ℕ) (blocks : ℕ → Option Block) (p : ℕ) : Option Block :=
  match allocations p with
  | some n => some ⟨n, naturalAlign⟩
  | none => blocks p

section Overlay

variable {allocations : ℕ → Option ℕ} {blocks : ℕ → Option Block} {p n : ℕ} {b : Option Block}

lemma overlay_mapped (h : allocations p = some n) : overlay allocations blocks p = some ⟨n, naturalAlign⟩ := by
  rw [overlay, h]

lemma overlay_none (h : allocations p = none) : overlay allocations blocks p = blocks p := by
  rw [overlay, h]

lemma overlay_update (h : allocations p = none) :
    overlay allocations (update blocks p b) = update (overlay allocations blocks) p b := by
  funext q
  by_cases hq : q = p
  · subst hq
    rw [overlay_none h, update_self, update_self]
  · rw [update_of_ne hq, overlay, overlay, update_of_ne hq]

lemma overlay_map :
    overlay (update allocations p (some n)) blocks =
      update (overlay allocations blocks) p (some ⟨n, naturalAlign⟩) := by
  funext q
  by_cases hq : q = p
  · subst hq
    rw [overlay_mapped (update_self q (some n) allocations), update_self]
  · rw [update_of_ne hq, overlay, overlay, update_of_ne hq]

lemma overlay_unmap (h : blocks p = none) :
    overlay (update allocations p none) blocks =
      update (overlay allocations blocks) p none := by
  funext q
  by_cases hq : q = p
  · subst hq
    rw [overlay_none (update_self q none allocations), update_self, h]
  · rw [update_of_ne hq, overlay, overlay, update_of_ne hq]

end Overlay

namespace Process

variable {w w' : Process} {c : Call} {ret : ℕ}

def mem (w : Process) : Mem := w.heap.mem

def all (w : Process) : ℕ → Option Block := overlay w.allocations w.heap.blocks

structure Intact (w : Process) : Prop where
  heap : Libc.Kept ⟨w.mem, w.all⟩
  apart : ∀ p n, w.allocations p = some n → w.heap.blocks p = none
  mapped : ∀ i, w.mapped i = true → ∃ p n, w.allocations p = some n ∧ p ≤ i ∧ i < p + n

structure Sound (w : Process) : Prop where
  apart : ∀ p q b b', w.all p = some b → w.all q = some b' → p ≠ q →
    Disjoint (Set.Ico p (p + b.size)) (Set.Ico q (q + b'.size))
  kept : ∀ i, w.mapped i = true → ∃ c ∈ used w.mem, i ∈ c.range

lemma within_range {d : Chunk} {p : ℕ} {b : Block} (h : Within d p b) :
    Set.Ico p (p + b.size) ⊆ d.range := by
  intro i hi
  have hmem := Chunk.mem_range.mp h.mem
  have hstop := h.stop
  exact Chunk.mem_range.mpr ⟨hmem.1.trans hi.1, hi.2.trans_le hstop⟩

lemma Intact.sound (h : Intact w) : Sound w := by
  refine ⟨fun p q b b' hb hb' hne => ?_, fun i hi => ?_⟩
  · obtain ⟨d, hd, hwithin⟩ := h.heap.tracks.live p b hb
    obtain ⟨e, he, hwithin'⟩ := h.heap.tracks.live q b' hb'
    have hde : d ≠ e := by
      rintro rfl
      exact hne (h.heap.tracks.alone d hd p q b b' hb hb' hwithin.mem hwithin'.mem)
    exact (h.heap.good.apart hd he hde).mono (within_range hwithin) (within_range hwithin')
  · obtain ⟨p, n, hp, hlo, hhi⟩ := h.mapped i hi
    obtain ⟨d, hd, hwithin⟩ := h.heap.tracks.live p _ (overlay_mapped hp)
    exact ⟨d, hd, within_range hwithin ⟨hlo, hhi⟩⟩

def contentOf (files : Files) (flags : BitVec 32) (fd offset : ℤ) (i : ℕ) : UInt8 :=
  if IsAnon flags then 0
  else
    match files fd with
    | some (.file content _ _) => content.getD (offset.toNat + i) 0
    | _ => 0

structure Mapping (w w' : Process) (ret len : ℕ) (content : ℕ → UInt8) : Prop where
  aligned : ret % pageSize = 0
  allocated : ∃ c ∈ used w'.mem, Set.Ico ret (ret + len) ⊆ c.range
  apart : ∀ p b, w.all p = some b → Disjoint (Set.Ico p (p + b.size)) (Set.Ico ret (ret + len))
  bytes : ∀ i < len, w'.mem.bytes (ret + i) = content i
  files : w'.files = w.files

def Real (w : Process) (c : Call) (ret : ℕ) (w' : Process) : Prop :=
  match c with
  | .libc r => w'.allocations = w.allocations ∧
    ∀ size, r = .malloc size ∨ (∃ p, r = .realloc p size) → ret = 0 → used w'.mem = used w.mem
  | .mmap len flags fd offset =>
    if ret = mapFailed then w'.allocations = w.allocations ∧ used w'.mem = used w.mem
    else Mapping w w' ret len (contentOf w.files flags fd.toInt offset.toInt)
  | .munmap _ _ => ret = einvalResult → w'.allocations = w.allocations ∧ w'.heap = w.heap

def ReadsBack (files : Files) (fd offset : ℤ) (len : ℕ) : Prop :=
  0 ≤ offset ∧ ∃ content, files fd =
    some (.file content true (offset.toNat + min len (content.length - offset.toNat)))

/-- Mappings are made where the heap has a place on a page boundary, those of a file that can be read
without moving its position. They are unmapped as a whole. -/
def Use (w : Process) : Call → Prop
  | .libc r => Libc.Use w.heap r
  | .mmap len flags fd offset =>
    if IsAnon flags then Places w.mem len
    else (seekSet w.files fd.toInt offset.toInt).1 = offset.toInt →
      Places w.mem len ∧ ReadsBack w.files fd.toInt offset.toInt len
  | .munmap addr len => ∀ n, w.allocations addr = some n → n ≤ len

lemma Intact.natural (h : Intact w) {p : ℕ} (hp : Natural w.heap p) :
    w.allocations p = none ∧ Natural ⟨w.mem, w.all⟩ p := by
  obtain ⟨b, hb, hal⟩ := hp
  have hnone : w.allocations p = none := by
    rw [eq_none_iff_forall_ne_some]
    intro n hn
    exact absurd (hb.symm.trans (h.apart p n hn)) (by rintro ⟨⟩)
  exact ⟨hnone, b, (overlay_none hnone).trans hb, hal⟩

lemma Intact.use (h : Intact w) {r : Request} (huse : Libc.Use w.heap r) :
    Libc.Use ⟨w.mem, w.all⟩ r := by
  cases r with
  | realloc p size =>
    rw [Libc.Use] at huse ⊢
    by_cases hp : (p : ℕ) = 0
    · rw [if_pos hp] at huse ⊢
      exact huse
    · rw [if_neg hp] at huse ⊢
      exact ⟨(h.natural huse.1).2, huse.2⟩
  | free p => exact huse.imp_right fun hp => (h.natural hp).2
  | malloc | calloc | posixMemalign | valloc | write => exact huse

lemma Intact.null (h : Intact w) : w.allocations 0 = none := by
  rw [eq_none_iff_forall_ne_some]
  intro n hn
  exact absurd ((overlay_mapped hn).symm.trans (h.heap.null_block rfl)) (by rintro ⟨⟩)

lemma Intact.gives (h : Intact w) {r : Request} (huse : Libc.Use w.heap r) :
    ∀ p ∈ r.gives, w.allocations p = none := by
  intro p hp
  cases r with
  | realloc q size =>
    obtain rfl := some.inj hp
    by_cases hq : (q : ℕ) = 0
    · rw [hq]
      exact h.null
    · rw [Libc.Use, if_neg hq] at huse
      exact (h.natural huse.1).1
  | free q =>
    obtain rfl := some.inj hp
    obtain hq | hq := huse
    · rw [hq]
      exact h.null
    · exact (h.natural hq).1
  | malloc | calloc | posixMemalign | valloc | write => cases hp

lemma record_overlay {r : Request} {ptr : ℕ} (hgives : ∀ p ∈ r.gives, w.allocations p = none)
    (hptr : r.asks.isSome → ptr ≠ 0 → w.allocations ptr = none) :
    overlay w.allocations (w.heap.record r ptr) = Heap.record ⟨w.mem, w.all⟩ r ptr ∧
      ∀ p n, w.allocations p = some n → w.heap.record r ptr p = w.heap.blocks p := by
  have hback : overlay w.allocations (r.gives.elim w.heap.blocks fun p => update w.heap.blocks p none) =
      (r.gives.elim w.all fun p => update w.all p none) ∧
      ∀ p n, w.allocations p = some n →
        (r.gives.elim w.heap.blocks fun p => update w.heap.blocks p none) p = w.heap.blocks p := by
    cases hg : r.gives with
    | none => exact ⟨rfl, fun _ _ _ => rfl⟩
    | some q =>
      refine ⟨overlay_update (hgives q hg), fun p n hp => update_of_ne ?_ _ _⟩
      rintro rfl
      exact absurd (hp.symm.trans (hgives p hg)) (by rintro ⟨⟩)
  rw [Heap.record, Heap.record]
  cases hasks : r.asks with
  | none => exact hback
  | some b =>
    dsimp only
    split_ifs with hzero
    · exact ⟨rfl, fun _ _ _ => rfl⟩
    · have hnone := hptr (hasks ▸ rfl) hzero
      refine ⟨(overlay_update hnone).trans (congrArg (update · ptr (some b)) hback.1),
        fun p n hp => (update_of_ne ?_ _ _).trans (hback.2 p n hp)⟩
      rintro rfl
      exact absurd (hp.symm.trans hnone) (by rintro ⟨⟩)

lemma Intact.libc (h : Intact w) {r : Request} (huse : Libc.Use w.heap r) :
    ∃ ret w', w.serve (.libc r) = .ok (ret, w') ∧
      Intact { w' with mapped := w.record ret (.libc r) } ∧ Real w (.libc r) ret w' := by
  obtain ⟨ptr, v, hserve, hstep, hkept, -⟩ := h.heap.step (h.use huse)
  have hgives := h.gives huse
  have hptr : r.asks.isSome → ptr ≠ 0 → w.allocations ptr = none := by
    intro hasks hne
    obtain ⟨b, hb⟩ := isSome_iff_exists.mp hasks
    rw [eq_none_iff_forall_ne_some]
    intro n hn
    have hfresh : w.all ptr = none := by
      refine Kept.fresh h.heap (h.use huse) hserve hb hne fun p hp hpp => ?_
      subst hpp
      exact absurd (hn.symm.trans (hgives p hp)) (by rintro ⟨⟩)
    exact absurd ((overlay_mapped hn).symm.trans hfresh) (by rintro ⟨⟩)
  obtain ⟨hoverlay, hsame⟩ := record_overlay hgives hptr
  have hv : v = ⟨v.mem, Heap.record ⟨w.mem, w.all⟩ r ptr⟩ := by
    rw [Heap.step, hserve] at hstep
    exact (Except.ok.inj hstep).symm
  refine ⟨ptr, { w with heap := ⟨v.mem, w.heap.record r ptr⟩ }, ?_, ⟨?_, fun p n hp => ?_, h.mapped⟩,
    rfl, fun size hr hzero => ?_⟩
  · rw [serve]
    change (Libc.serve w.mem r >>= _) = _
    rw [hserve]
    rfl
  · rw [hv] at hkept
    have hall : all { w with heap := ⟨v.mem, w.heap.record r ptr⟩ } = _ := hoverlay
    change Libc.Kept ⟨v.mem, all { w with heap := ⟨v.mem, w.heap.record r ptr⟩ }⟩
    rw [hall]
    exact hkept
  · exact (hsame p n hp).trans (h.apart p n hp)
  · subst hzero
    exact Kept.failed (h := ⟨w.mem, w.all⟩) h.heap (h.use huse) hr hserve

lemma register_ok {ptr len : ℕ} (h : w.allocations ptr = none) :
    w.register ptr len = .ok (ptr, { w with allocations := update w.allocations ptr (some len) }) := by
  rw [register, h]
  rfl

lemma Intact.map (h : Intact w) {m' m'' : Mem} {files : Files} {d : Chunk} {len : ℕ}
    (hgood : Good m') (hnull : m'.nullSegmentSize = w.mem.nullSegmentSize) (htakes : Takes w.mem m' len d)
    (hne : d.base ≠ 0) (hsame : Mem.SameHeap m' m'') {content : ℕ → UInt8}
    (haligned : d.base % pageSize = 0) (hbytes : ∀ i < len, m''.bytes (d.base + i) = content i)
    (hfiles : files = w.files) :
    ∃ w', ({ w.withMem m'' with files } : Process).register d.base len = .ok (d.base, w') ∧
      d.base ≠ mapFailed ∧
      Intact { w' with
        mapped := fun i => w.mapped i || (d.base ≤ i && i < d.base + len) } ∧
      Mapping w w' d.base len content := by
  have hwithin : Within d d.base ⟨len, naturalAlign⟩ := htakes.within h.heap.good hne le_rfl dvd_rfl
  have hapart : ∀ {p b}, w.all p = some b → p ∉ d.range := h.heap.tracks.free_range htakes.apart
  have hnone : w.allocations d.base = none := by
    rw [eq_none_iff_forall_ne_some]
    exact fun n hn => hapart (overlay_mapped hn) hwithin.mem
  have hblock : w.heap.blocks d.base = none := by
    rw [eq_none_iff_forall_ne_some]
    exact fun b hb => hapart ((overlay_none hnone).trans hb) hwithin.mem
  have hused : used m'' = insert d (used w.mem) := (used_same hsame).trans htakes.used
  have hfailed : d.base ≠ mapFailed := by
    intro hfailed
    have hmod := htakes.granular
    rw [hfailed] at hmod
    exact absurd hmod (by decide)
  refine ⟨_, register_ok hnone, hfailed, ⟨⟨hgood.same hsame, ?_, ?_⟩, fun p n hp => ?_, fun i hi => ?_⟩,
    haligned, ⟨d, hused ▸ Set.mem_insert d _, within_range hwithin⟩, fun p b hb => ?_, hbytes, hfiles⟩
  · change 0x1000 ≤ m''.nullSegmentSize
    rw [hsame.nullSegmentSize, hnull]
    exact h.heap.null
  · change Tracks (used m'') (overlay (update w.allocations d.base (some len)) w.heap.blocks)
    rw [overlay_map, hused]
    exact h.heap.tracks.add htakes.apart hwithin
  · by_cases hpd : p = d.base
    · subst hpd
      exact hblock
    · exact h.apart p n ((update_of_ne hpd _ _).symm.trans hp)
  · obtain hi | hi := (Bool.or_eq_true _ _).mp hi
    · obtain ⟨p, n, hp, hlo, hhi⟩ := h.mapped i hi
      refine ⟨p, n, (update_of_ne ?_ _ _).trans hp, hlo, hhi⟩
      rintro rfl
      exact absurd (hp.symm.trans hnone) (by rintro ⟨⟩)
    · obtain ⟨hlo, hhi⟩ := (Bool.and_eq_true _ _).mp hi
      exact ⟨d.base, len, update_self _ _ _, of_decide_eq_true hlo, of_decide_eq_true hhi⟩
  · obtain ⟨e, he, hwithin'⟩ := h.heap.tracks.live p b hb
    exact (htakes.apart e he).mono (within_range hwithin') (within_range hwithin)

def Goes (w : Process) (c : Call) : Prop :=
  ∃ ret w', w.serve c = .ok (ret, w') ∧ Intact { w' with mapped := w.record ret c } ∧ Real w c ret w'

lemma Intact.unmade (h : Intact w) {m' : Mem} (files : Files) (hgood : Good m')
    (hnull : m'.nullSegmentSize = w.mem.nullSegmentSize) (hused : used m' = used w.mem) :
    Intact { w.withMem m' with files } := by
  refine ⟨⟨hgood, ?_, ?_⟩, h.apart, h.mapped⟩
  · change 0x1000 ≤ m'.nullSegmentSize
    rw [hnull]
    exact h.heap.null
  · change Tracks (used m') w.all
    rw [hused]
    exact h.heap.tracks

lemma calloc_free {m m' : Mem} {ptr len : ℕ} (hgood : Good m') (hm : Good m)
    (h : m.allocator.OutOfMemory len ∧ ptr = 0 ∧ used m' = used m ∨
      ∃ c, ptr = c.base ∧ Takes m m' len c ∧ c.base ≠ 0 ∧ m.nullSegmentSize ≤ c.base ∧
        (Places m len → c.base % pageSize = 0) ∧ ∀ i < len, m'.bytes (c.base + i) = 0) :
    ∃ m'', m'.free ptr = .ok m'' ∧ Good m'' ∧ m''.nullSegmentSize = m'.nullSegmentSize ∧
      used m'' = used m := by
  obtain ⟨-, rfl, hused⟩ | ⟨c, rfl, htakes, hne, -⟩ := h
  · exact ⟨m', if_pos rfl, hgood, rfl, hused⟩
  · have hc : c ∈ used m' := htakes.used ▸ Set.mem_insert c _
    obtain ⟨m'', hfree, hgood', hnull, hrel⟩ := hgood.free hc hne (htakes.heap hm)
    refine ⟨m'', hfree, hgood', hnull, ?_⟩
    rw [hrel.used, htakes.used, Set.insert_sdiff_self_of_notMem (notMem_of_apart htakes.apart)]

lemma seekSet_file {files : Files} {fd offset : ℤ} {content : List UInt8} {readable : Bool}
    {position : ℕ} (hoffset : 0 ≤ offset) (hfile : files fd = some (.file content readable position)) :
    seekSet files fd offset =
      (offset, update files fd (some (.file content readable offset.toNat))) := by
  rw [seekSet, hfile]
  exact if_neg hoffset.not_gt

lemma Intact.mmap (h : Intact w) {len : GuestUSize} {flags : BitVec 32} {fd : Int32} {offset : Int64}
    (huse : Use w (.mmap len flags fd offset)) : Goes w (.mmap len flags fd offset) := by
  have hnull : 0x1000 ≤ w.mem.nullSegmentSize := h.heap.null
  obtain ⟨ptr, m', hok, hgood, hnull', hnew⟩ := calloc_new h.heap.good hnull len.isLt
  have hcalloc : w.heap.mem.calloc len = .ok (ptr, m') := hok
  rw [Goes, serve, Process.mmap, hcalloc, ok_bind]
  dsimp only
  rw [Use] at huse
  by_cases hanon : IsAnon flags
  · rw [if_pos hanon] at huse ⊢
    obtain ⟨hoom, -⟩ | ⟨d, rfl, htakes, hne, -, haligned, hzero⟩ := hnew
    · exact absurd hoom huse.1
    have hcontent : ∀ i < (len : ℕ), m'.bytes (d.base + i) =
        contentOf w.files flags fd.toInt offset.toInt i := by
      intro i hi
      rw [contentOf, if_pos hanon]
      exact hzero i hi
    obtain ⟨w', hregister, hfailed, hintact, hmapping⟩ := h.map hgood hnull' htakes hne ⟨rfl, rfl, rfl⟩
      (haligned huse) hcontent rfl
    refine ⟨d.base, w', ?_, ?_, ?_⟩
    · rw [haligned huse]
      exact hregister
    · rw [record, if_neg hfailed]
      exact hintact
    · rw [Real, if_neg hfailed]
      exact hmapping
  · rw [if_neg hanon] at huse ⊢
    by_cases hseek : (seekSet w.files fd.toInt offset.toInt).1 = offset.toInt
    · obtain ⟨hplaces, hoffset, content, hfile⟩ := huse hseek
      obtain ⟨hoom, -⟩ | ⟨d, rfl, htakes, hne, hlo, haligned, hzero⟩ := hnew
      · exact absurd hoom hplaces.1
      have hd : d ∈ used m' := htakes.used ▸ Set.mem_insert d _
      have hstop := hgood.range_le hd (htakes.heap h.heap.good)
      have hdstop : d.stop = d.base + d.size.get := rfl
      have hlarge := htakes.large
      have hbound := Mem.u32Bound_le
      rw [seekSet_file hoffset hfile]
      dsimp only
      rw [if_neg (not_not.mpr rfl)]
      have hsought : update w.files fd.toInt
          (some (.file content true offset.toInt.toNat)) fd.toInt =
          some (.file content true offset.toInt.toNat) := update_self _ _ _
      obtain ⟨hbytes, hfiles⟩ := read_file hsought hne (hnull' ▸ hlo) (by omega) hzero
      have hback : (read m' (update w.files fd.toInt
          (some (.file content true offset.toInt.toNat))) fd.toInt d.base len).2 = w.files := by
        rw [hfiles, update_idem, ← hfile, update_eq_self]
      have hcontent : ∀ i < (len : ℕ), (read m' (update w.files fd.toInt
          (some (.file content true offset.toInt.toNat))) fd.toInt d.base len).1.bytes (d.base + i) =
          contentOf w.files flags fd.toInt offset.toInt i := by
        intro i hi
        rw [contentOf, if_neg hanon, hfile]
        exact hbytes i hi
      obtain ⟨w', hregister, hfailed, hintact, hmapping⟩ := h.map hgood hnull' htakes hne
        (read_same _ _ _ _ _) (haligned hplaces) hcontent hback
      refine ⟨d.base, w', hregister, ?_, ?_⟩
      · rw [record, if_neg hfailed]
        exact hintact
      · rw [Real, if_neg hfailed]
        exact hmapping
    · rw [if_pos hseek]
      obtain ⟨m'', hfree, hgood'', hnull'', hused⟩ := calloc_free hgood h.heap.good hnew
      rw [hfree]
      refine ⟨mapFailed, _, rfl, ?_, ?_⟩
      · rw [record, if_pos rfl]
        exact h.unmade _ hgood'' (hnull''.trans hnull') hused
      · rw [Real, if_pos rfl]
        exact ⟨rfl, hused⟩

lemma Intact.munmap (h : Intact w) {addr len : GuestUSize} (huse : Use w (.munmap addr len)) :
    Goes w (.munmap addr len) := by
  rw [Goes, serve, Process.munmap]
  cases haddr : w.allocations addr with
  | none =>
    refine ⟨_, w, rfl, ⟨h.heap, h.apart, fun i hi => ?_⟩, fun _ => ⟨rfl, rfl⟩⟩
    exact h.mapped i ((Bool.and_eq_true _ _).mp hi).1
  | some n =>
    obtain ⟨d, hd, hbase, hwithin⟩ := h.heap.tracks.whole (overlay_mapped haddr) le_rfl
    obtain ⟨m', hfree, hgood, hnull, hrel⟩ := h.heap.good.free hd hwithin.base hwithin.heap
    have hfree' : w.heap.mem.free addr = .ok m' := hbase ▸ hfree
    dsimp only
    rw [hfree']
    refine ⟨0, _, rfl, ⟨⟨hgood, ?_, ?_⟩, fun p k hp => ?_, fun i hi => ?_⟩, fun h0 => absurd h0 (by decide)⟩
    · change 0x1000 ≤ m'.nullSegmentSize
      rw [hnull]
      exact h.heap.null
    · change Tracks (used m') (overlay (update w.allocations addr none) w.heap.blocks)
      rw [overlay_unmap (h.apart addr n haddr), hrel.used]
      exact h.heap.tracks.forget hd hwithin.mem (overlay_mapped haddr)
    · by_cases hpa : p = addr
      · subst hpa
        exact absurd ((update_self _ _ _).symm.trans hp) (by rintro ⟨⟩)
      · exact h.apart p k ((update_of_ne hpa _ _).symm.trans hp)
    · obtain ⟨hi, hout⟩ := (Bool.and_eq_true _ _).mp hi
      obtain ⟨p, k, hp, hlo, hhi⟩ := h.mapped i hi
      refine ⟨p, k, (update_of_ne ?_ _ _).trans hp, hlo, hhi⟩
      rintro rfl
      have hle := huse k hp
      simp only [Bool.not_eq_true', Bool.and_eq_false_iff, decide_eq_false_iff_not] at hout
      omega

lemma Intact.step (h : Intact w) (huse : Use w c) : Goes w c := by
  cases c with
  | libc r => exact h.libc huse
  | mmap len flags fd offset => exact h.mmap huse
  | munmap addr len => exact h.munmap huse

section Run

variable {zof : Bool} {seg : NullSegment} {requests : List Mem.Request} {m : Mem} {files : Files}
  {cs : List Call}

lemma step_of_goes (h : Goes w c) : ∃ ret w', w.serve c = .ok (ret, w') ∧ Real w c ret w' ∧
    w.step c = .ok { w' with mapped := w.record ret c } ∧
    Intact { w' with mapped := w.record ret c } := by
  obtain ⟨ret, w', hserve, hintact, hreal⟩ := h
  refine ⟨ret, w', hserve, hreal, ?_, hintact⟩
  rw [Process.step, hserve]
  rfl

lemma intact_start (hseg : seg.size ≠ 0)
    (hsplits : Mem.Throughout Mem.GranularSplits zof seg requests)
    (hboot : Mem.exec zof seg requests = .ok m) : Intact (start m files) :=
  ⟨kept_of_exec hseg hsplits hboot, fun _ _ h => (by cases h), fun _ h => (by cases h)⟩

/-- In a program that maps whole pages, reads files without moving their positions and unmaps what it
has mapped, mappings are as they were asked for. -/
theorem exec_real (requests : List Mem.Request) (hseg : seg.size ≠ 0)
    (hsplits : Mem.Throughout Mem.GranularSplits zof seg requests)
    (hboot : Mem.exec zof seg requests = .ok m) (huse : Along step Use (start m files) cs)
    (hrun : run step (start m files) cs = .ok w) (c : Call) (hc : Use w c) :
    ∃ ret w', w.serve c = .ok (ret, w') ∧ Real w c ret w' ∧
      w.step c = .ok { w' with mapped := w.record ret c } ∧
      Sound { w' with mapped := w.record ret c } := by
  have hintact : Intact w := by
    refine run_preserves (fun w c w' h hc hok => ?_) (intact_start hseg hsplits hboot) huse hrun
    obtain ⟨ret, v, -, -, hstep, hv⟩ := step_of_goes (h.step hc)
    exact Except.ok.inj (hstep.symm.trans hok) ▸ hv
  obtain ⟨ret, w', hserve, hreal, hstep, h'⟩ := step_of_goes (hintact.step hc)
  exact ⟨ret, w', hserve, hreal, hstep, h'.sound⟩

def threeBytes : Files := fun fd => if fd = 3 then some (.file [1, 2, 3] true 3) else none

theorem exec_real_file : ∃ m, Mem.exec true .onePage [] = .ok m ∧
    ∃ ret w', (start m threeBytes).serve (.mmap 4096 0 3 0) = .ok (ret, w') ∧
      Real (start m threeBytes) (.mmap 4096 0 3 0) ret w' ∧
      (start m threeBytes).step (.mmap 4096 0 3 0) =
        .ok { w' with mapped := (start m threeBytes).record ret (.mmap 4096 0 3 0) } ∧
      Sound { w' with mapped := (start m threeBytes).record ret (.mmap 4096 0 3 0) } := by
  have hroom : succeedsWith (fun m : Mem => m.allocator.unusedChunks.iter.any (4096 ≤ ·.size.get))
      (Mem.exec true .onePage []) := by decide
  obtain ⟨m, hm, hany⟩ := exists_of_succeedsWith hroom
  have hsplits : Mem.Throughout Mem.GranularSplits true .onePage [] := fun _ _ => trivial
  have hgood : Good m := (kept_of_exec (by decide) hsplits hm).good
  have hmem : ¬ m.allocator.OutOfMemory 4096 := by
    intro hoom
    obtain ⟨c, hc, hle⟩ := List.any_eq_true.mp hany
    have hfree := hoom 4096 rfl c (hgood.sound.allocator.wf.tidy.coherent.mem_iter.mp hc)
    exact absurd hfree (not_lt.mpr (of_decide_eq_true hle))
  have hrun : run step (start m threeBytes) [] = .ok (start m threeBytes) := run_nil
  have huse : Along step Use (start m threeBytes) [] := trivial
  refine ⟨m, hm, exec_real [] (by decide) hsplits hm huse hrun (.mmap 4096 0 3 0) ?_⟩
  rw [Use, if_neg (by decide)]
  exact fun _ => ⟨places_of_page hgood (by decide) hmem, by decide, [1, 2, 3], rfl⟩

def Plain (w : Process) : Call → Prop
  | .libc r => Libc.Use w.heap r
  | _ => True

theorem not_real :
    ¬ ∀ (zof : Bool) (seg : NullSegment) (requests : List Mem.Request) (m : Mem) (files : Files)
      (cs : List Call), seg.size ≠ 0 → Mem.Throughout Mem.GranularSplits zof seg requests →
        Mem.exec zof seg requests = .ok m → Along step Plain (start m files) cs →
        ∃ w, run step (start m files) cs = .ok w := by
  intro h
  have hfault : fault (Mem.exec true .onePage [] >>= fun m => run step (start m fun _ => none)
      [.libc (.malloc 16), .mmap 16 mapAnon (-1) 0]) = some .assertion := by decide
  have hboot : succeedsWith (fun _ : Mem => true) (Mem.exec true .onePage []) := by decide
  obtain ⟨m, hm, -⟩ := exists_of_succeedsWith hboot
  obtain ⟨w, hrun⟩ := h true .onePage [] m (fun _ => none)
    [.libc (.malloc 16), .mmap 16 mapAnon (-1) 0] (by decide) (fun _ _ => trivial) hm
    ⟨.inl (by decide), fun _ _ => ⟨trivial, fun _ _ => trivial⟩⟩
  rw [hm, ok_bind, hrun] at hfault
  cases hfault

end Run

end Process

end TouchHle.Memory.Mmap
