import TouchHle.Memory.GuestMemory

namespace TouchHle.Memory

open Lib Chunk

def Chunk.Granular (c : Chunk) : Prop := c.base % minChunkSize = 0 ∧ c.stop % minChunkSize = 0

lemma granule_of_page {n : ℕ} (h : n % pageSize = 0) : n % minChunkSize = 0 := by
  simp only [pageSize, minChunkSize] at *
  omega

lemma Carved.granular {e alloc : Chunk} {size : ℕ} {pieces : List Chunk}
    (h : Carved e size alloc pieces) (he : e.Granular) (hs : size % minChunkSize = 0) :
    alloc.Granular ∧ ∀ p ∈ pieces, p.Granular := by
  obtain ⟨heb, hes⟩ := he
  cases h with
  | whole => exact ⟨⟨heb, hes⟩, by simp⟩
  | @cut _ rump hab has hrb hrs =>
    have halloc : alloc.stop % minChunkSize = 0 := by
      rw [stop, hab, has, Nat.add_mod, heb, hs]
      rfl
    refine ⟨⟨hab ▸ heb, halloc⟩, fun p hp => ?_⟩
    obtain rfl := List.mem_singleton.mp hp
    exact ⟨hrb ▸ halloc, hrs ▸ hes⟩
  | @realign _ left right hbase hab has hlb hls hrb hrs =>
    have halloc : alloc.stop % minChunkSize = 0 := by
      rw [stop, hab, has, Nat.add_mod, heb, hs]
      rfl
    have hleft : left.stop % minChunkSize = 0 := by
      rw [hls, Nat.add_mod, heb]
      rfl
    refine ⟨⟨hab ▸ heb, halloc⟩, fun p hp => ?_⟩
    rcases List.mem_pair.mp hp with rfl | rfl
    · exact ⟨hlb ▸ halloc, hleft⟩
    · exact ⟨hrb ▸ hleft, hrs ▸ hes⟩

lemma Coalesced.granular {freed : Chunk} {removed added : List Chunk}
    (h : Allocator.Coalesced freed removed added) (hf : freed.Granular)
    (hr : ∀ c ∈ removed, c.Granular) : ∀ c ∈ added, c.Granular := by
  intro c hc
  cases h with
  | alone =>
    obtain rfl := List.mem_singleton.mp hc
    exact hf
  | apart =>
    rcases List.mem_pair.mp hc with rfl | rfl
    · exact hr _ (List.mem_singleton_self _)
    · exact hf
  | @merged adjacent _ hadj hb hs =>
    obtain rfl := List.mem_singleton.mp hc
    obtain ⟨hab, has⟩ := hr adjacent (List.mem_singleton_self _)
    obtain ⟨hfb, hfs⟩ := hf
    simp only [Chunk.Granular, stop, minChunkSize] at *
    omega

lemma Grown.granular {old adjacent grown : Chunk} {newSize : ℕ} {pieces : List Chunk}
    (h : Grown old newSize adjacent grown pieces) (hold : old.Granular) (hadj : adjacent.Granular)
    (hsplit : pieces ≠ [] → newSize % minChunkSize = 0) :
    grown.Granular ∧ ∀ p ∈ pieces, p.Granular := by
  cases h with
  | takeover _ hb hs => exact ⟨⟨hb ▸ hold.1, hs ▸ hadj.2⟩, by simp⟩
  | split _ hb hs hrb hrs =>
    have hgrown : grown.stop % minChunkSize = 0 := by
      rw [stop, hb, hs, Nat.add_mod, hold.1, hsplit (by simp)]
      rfl
    refine ⟨⟨hb ▸ hold.1, hgrown⟩, fun p hp => ?_⟩
    obtain rfl := List.mem_singleton.mp hp
    exact ⟨hrb ▸ hgrown, hrs ▸ hadj.2⟩

namespace Allocator

def Granular (a : Allocator) : Prop := ∀ x ∈ a.layout, x.2.Granular

def SplitsNeighbour (a : Allocator) (ptr size : ℕ) : Prop :=
  ∃ old ∈ a.usedChunks, old.base = ptr ∧ old.size.get < size ∧
    ∃ adjacent, a.RoomIn old size adjacent ∧ adjacent.size.get < pageSize ∧
      size + minChunkSize ≤ old.size.get + adjacent.size.get

variable {a a' : Allocator}

lemma Granular.of_mem (hused : ∀ c ∈ a.usedChunks, c.Granular)
    (hunused : ∀ c ∈ a.unusedChunks, c.Granular) : a.Granular := by
  rintro ⟨_ | _, c⟩ hc
  · exact hused c hc
  · exact hunused c hc

lemma Granular.reserves (h : a.Granular) {chunk c : Chunk} (hr : Reservable chunk)
    (hres : a.Reserves chunk c a') : a'.Granular := by
  obtain ⟨hcb, hcs⟩ := h (.free, c) hres.mem
  have hwithin := hres.within
  have hchunk : chunk.Granular := ⟨granule_of_page hr.base, granule_of_page hr.stop⟩
  refine .of_mem (fun d hd => ?_) fun d hd => ?_
  · rcases (hres.used d).mp hd with rfl | hd
    · exact hchunk
    · exact h (.used, d) hd
  · rcases (hres.unused d).mp hd with ⟨hd | hd, -⟩ | ⟨hd, -⟩
    · obtain ⟨hdb, hds⟩ := below_eq_some.mp hd
      have hstop : d.stop = chunk.base := by
        rw [stop, hdb, hds]
        have := hwithin.1
        omega
      exact ⟨hdb ▸ hcb, hstop ▸ hchunk.1⟩
    · obtain ⟨hdb, hds⟩ := above_eq_some.mp hd
      have hstop : d.stop = c.stop := by
        rw [stop, hdb, hds]
        have := hwithin.2
        omega
      exact ⟨hdb ▸ hchunk.2, hstop ▸ hcs⟩
    · exact h (.free, d) hd

lemma Granular.allocates (h : a.Granular) {size : ℕ} {existing alloc : Chunk}
    (ha : a.Allocates size existing alloc a') : a'.Granular ∧ alloc.Granular := by
  obtain ⟨⟨n, hn, ⟨hex, -⟩, pieces, hcarved, -, hfree⟩, hused⟩ := ha
  obtain ⟨halloc, hpieces⟩ := hcarved.granular (h (.free, existing) hex)
    (alignedSize_eq_some hn).1.granule
  refine ⟨.of_mem (fun d hd => ?_) fun d hd => ?_, halloc⟩
  · rcases (hused d).mp hd with rfl | hd
    · exact halloc
    · exact h (.used, d) hd
  · rcases (hfree d).mp hd with hd | ⟨hd, -⟩
    · exact hpieces d hd
    · exact h (.free, d) hd

lemma Granular.frees (h : a.Granular) {freed : Chunk} {removed added : List Chunk}
    (hf : a.Frees freed removed added a') : a'.Granular := by
  refine .of_mem (fun d hd => h (.used, d) ((hf.used d).mp hd).1) fun d hd => ?_
  rcases (hf.unused d).mp hd with ⟨hd, -⟩ | ⟨hd, -⟩
  · exact Coalesced.granular hf.coalesced (h (.used, freed) hf.mem)
      (fun c hc => h (.free, c) (hf.removed_free c hc)) d hd
  · exact h (.free, d) hd

lemma Granular.grows (h : a.Granular) {old adjacent grown : Chunk} {newSize : ℕ}
    (hg : a.Grows old newSize adjacent grown a')
    (hsplit : a.SplitsNeighbour old.base newSize → newSize % minChunkSize = 0) : a'.Granular := by
  obtain ⟨pieces, hgrown, -, hfree⟩ := hg.pieces
  obtain ⟨hgr, hpieces⟩ := hgrown.granular (h (.used, old) hg.mem) (h (.free, adjacent) hg.room.mem)
    (fun hne => hsplit ⟨old, hg.mem, rfl, hg.larger, adjacent, hg.room, by
      cases hgrown with
      | takeover => exact absurd rfl hne
      | @split rest hsmall hgb hgs hrb hrs hmin =>
        refine ⟨hsmall, ?_⟩
        have hadj := hg.room.base
        simp only [stop] at *
        omega⟩)
  refine .of_mem (fun d hd => ?_) fun d hd => ?_
  · rcases (hg.used d).mp hd with rfl | ⟨hd, -⟩
    · exact hgr
    · exact h (.used, d) hd
  · rcases (hfree d).mp hd with hd | ⟨hd, -⟩
    · exact hpieces d hd
    · exact h (.free, d) hd

lemma Granular.same (h : a.Granular) (hs : a.SameChunks a') : a'.Granular :=
  fun x hx => h x (hs.mem_layout.mp hx)

end Allocator

namespace Mem

variable {m m' : Mem} {ptr size : ℕ}

def GranularSplits (m : Mem) : Request → Prop
  | .realloc ptr size => m.allocator.SplitsNeighbour ptr size → (size : ℕ) % minChunkSize = 0
  | _ => True

lemma alloc_granular (h : m.allocator.Sound) (hg : m.allocator.Granular) (hlt : size < u32Bound)
    (hok : m.alloc size = .ok (ptr, m')) : m'.allocator.Granular ∧ ptr % minChunkSize = 0 := by
  rcases alloc_ok h hlt with ⟨hok', -⟩ | ⟨existing, alloc, a, hok', ha⟩
  · obtain ⟨rfl, rfl⟩ := ok_pair_inj (hok'.symm.trans hok)
    exact ⟨by rwa [zeroOnAlloc_allocator], rfl⟩
  · obtain ⟨rfl, rfl⟩ := ok_pair_inj (hok'.symm.trans hok)
    obtain ⟨hg', halloc⟩ := hg.allocates ha
    exact ⟨by rwa [zeroOnAlloc_allocator], halloc.1⟩

lemma Freed.granular (hg : m.allocator.Granular) (hf : m.Freed ptr m') : m'.allocator.Granular := by
  cases hf with
  | ignored => exact hg
  | freed _ _ _ _ hf =>
    rw [zeroOnFree_allocator]
    exact hg.frees hf

lemma Reallocated.granular (h : m.Sound) (hg : m.allocator.Granular) (hlt : size < u32Bound)
    {newPtr : ℕ} (hr : m.Reallocated ptr size newPtr m')
    (hsplit : m.allocator.SplitsNeighbour ptr size → size % minChunkSize = 0) :
    m'.allocator.Granular := by
  cases hr with
  | fresh _ hok => exact (alloc_granular h.allocator hg hlt hok).1
  | enough => exact hg
  | inPlace _ hb _ hgrow htail =>
    rw [(sameHeap_zeroTail htail).allocator]
    exact hg.grows hgrow fun hs => hsplit (hb ▸ hs)
  | @moved a _ _ _ _ _ hcoh hsame hok =>
    obtain ⟨m₁, hok, hfree⟩ := relocate_eq_ok.mp hok
    have h₀ : Sound { m with allocator := a } :=
      h.of_stepped (.same hcoh hsame) fun c hc _ => (hsame.1 c).mpr hc
    have h₁ := alloc_sound h₀ hlt hok
    have hg₁ := (alloc_granular h₀.allocator (hg.same hsame) hlt hok).1
    have hmove := sameHeap_memmove (m := m₁) newPtr ptr (m.allocator.findAllocatedSize ptr)
    exact (free_cases (hmove.sound h₁).allocator hfree).granular (hmove.allocator ▸ hg₁)

lemma step_granular (m : Mem) (r : Request) (m' : Mem) (h : m.Sound) (hg : m.allocator.Granular)
    (hr : m.GranularSplits r) (hok : m.step r = .ok m') : m'.allocator.Granular := by
  obtain ⟨ptr, hok⟩ := step_eq_ok.mp hok
  cases r with
  | reserve base size hb hs hstop =>
    obtain ⟨m₁, hres, hok⟩ := map_eq_ok.mp hok
    obtain ⟨rfl, rfl⟩ := Prod.mk.inj hok
    cases reserve_cases h.allocator size.isLt hb hs hstop hres with
    | skipped => exact hg
    | reserved hr hres' => exact hg.reserves hr hres'
  | alloc size => exact (alloc_granular h.allocator hg size.isLt hok).1
  | calloc size =>
    obtain ⟨m₁, halloc, rfl⟩ := calloc_cases hok
    rw [fill_allocator]
    exact (alloc_granular h.allocator hg size.isLt halloc).1
  | free ptr =>
    obtain ⟨m₁, hfree, hok⟩ := map_eq_ok.mp hok
    obtain ⟨rfl, rfl⟩ := Prod.mk.inj hok
    exact (free_cases h.allocator hfree).granular hg
  | realloc ptr size => exact (realloc_cases h.allocator hok).granular h hg size.isLt hr
  | write addr v =>
    obtain ⟨rfl, rfl⟩ := ok_pair_inj hok
    rwa [write_allocator]

lemma Booted.granular {zof : Bool} {seg : NullSegment} (h : Booted zof seg m) :
    m.allocator.Granular := by
  have hseg := granule_of_page seg.aligned
  refine .of_mem (fun c hc => ?_) fun c hc => ?_
  · rcases h.used c hc with rfl | ⟨hb, hs⟩
    · exact ⟨rfl, rfl⟩
    · exact ⟨by rw [hb]; rfl, by rw [hs, hseg]⟩
  · obtain ⟨hb, hs⟩ := h.unused c hc
    exact ⟨by rw [hb, hseg], by rw [hs]; rfl⟩

/-- Heap addresses are multiples of the granule as long as no `realloc` cuts a free neighbour at
another offset. -/
theorem exec_alloc_granular {zof : Bool} {seg : NullSegment} {requests : List Request}
    (hsplits : Throughout GranularSplits zof seg requests) (hok : exec zof seg requests = .ok m)
    (size : GuestUSize) (halloc : m.alloc size = .ok (ptr, m')) : ptr % minChunkSize = 0 := by
  obtain ⟨h, hg⟩ := exec_preserves (fun _ => Booted.granular) step_granular hsplits hok
  exact (alloc_granular h.allocator hg size.isLt halloc).2

theorem exec_alloc_granular_split : ∃ m ptr m',
    exec true .onePage [.alloc 16, .alloc 64, .alloc 16, .free 4112, .realloc 4096 32] = .ok m ∧
      m.alloc 48 = .ok (ptr, m') ∧ ptr ≠ 0 ∧ ptr % minChunkSize = 0 := by
  have hrun : (exec true .onePage
      [.alloc 16, .alloc 64, .alloc 16, .free 4112, .realloc 4096 32] >>=
        fun m => Prod.fst <$> m.alloc 48) = .ok 4128 := by decide
  obtain ⟨m, hm, halloc⟩ := bind_eq_ok.mp hrun
  obtain ⟨⟨ptr, m'⟩, halloc, hptr⟩ := map_eq_ok.mp halloc
  have hsplits : Throughout GranularSplits true .onePage
      [.alloc 16, .alloc 64, .alloc 16, .free 4112, .realloc 4096 32] := fun _ _ =>
    along_of_forall (p := fun r => ∀ m, GranularSplits m r) (by
      intro r hr m
      fin_cases hr
      all_goals first | trivial | exact fun _ => rfl) |>.mono fun _ _ h => h _
  exact ⟨m, ptr, m', hm, halloc, by simp at hptr; omega,
    exec_alloc_granular hsplits hm 48 halloc⟩

theorem exec_alloc_off_granule :
    ¬ ∀ (zof : Bool) (seg : NullSegment) (requests : List Request) (m : Mem) (size : GuestUSize)
      (ptr : ℕ) (m' : Mem), exec zof seg requests = .ok m → m.alloc size = .ok (ptr, m') →
        ptr ≠ 0 → ptr % minChunkSize = 0 := by
  intro h
  have hrun : (exec true .onePage
      [.alloc 16, .alloc 64, .alloc 16, .free 4112, .realloc 4096 17] >>=
        fun m => Prod.fst <$> m.alloc 48) = .ok 4113 := by decide
  obtain ⟨m, hm, halloc⟩ := bind_eq_ok.mp hrun
  obtain ⟨⟨ptr, m'⟩, halloc, rfl⟩ := map_eq_ok.mp halloc
  have hmod := h true .onePage _ m 48 4113 m' hm halloc (by decide)
  exact absurd hmod (by decide)

end Mem

end TouchHle.Memory
