import TouchHle.Memory.Alignment

/-! How much larger than requested a heap block gets. Bookkeeping beside the memory records what
was requested of each live block. -/

namespace TouchHle.Memory

open Lib Function Allocator

lemma Carved.size_eq {e alloc : Chunk} {size : ℕ} {pieces : List Chunk}
    (h : Carved e size alloc pieces) (he : e.Granular) (hs : size % minChunkSize = 0) :
    alloc.size.get = size := by
  cases h with
  | whole hle hlt =>
    obtain ⟨hb, hstop⟩ := he
    simp only [Chunk.stop, minChunkSize] at *
    omega
  | cut _ hs => exact hs
  | realign _ _ hs => exact hs

namespace Allocator

variable {a a' : Allocator}

def pageNeighbour (a : Allocator) (ptr : ℕ) : ℕ :=
  match a.unusedChunks.chunks.getSizeWithBase (ptr + a.findAllocatedSize ptr) with
  | some size => if pageSize ≤ size.get then size.get else 0
  | none => 0

lemma pageNeighbour_of_room {old adjacent : Chunk} {newSize : ℕ} (hold : old ∈ a.usedChunks)
    (h : a.RoomIn old newSize adjacent) : a.pageNeighbour old.base =
      if pageSize ≤ adjacent.size.get then adjacent.size.get else 0 := by
  have hadj : a.unusedChunks.chunks.getSizeWithBase adjacent.base = some adjacent.size :=
    ChunkMap.getSizeWithBase_eq_some.mpr h.mem
  rw [h.base] at hadj
  rw [pageNeighbour, findAllocatedSize_of_mem hold]
  show (match a.unusedChunks.chunks.getSizeWithBase old.stop with
    | some size => if pageSize ≤ size.get then size.get else 0
    | none => 0) = _
  rw [hadj]

lemma Allocates.size_bounds (h : a.Granular) {size : ℕ} {existing alloc : Chunk}
    (ha : a.Allocates size existing alloc a') :
    size ≤ alloc.size.get ∧ alloc.size.get < size + pageSize := by
  obtain ⟨⟨n, hn, ⟨hex, -⟩, pieces, hcarved, -⟩, -⟩ := ha
  obtain ⟨hr, hle, hlt, -⟩ := alignedSize_eq_some hn
  rw [hcarved.size_eq (h (.free, existing) hex) hr.granule]
  exact ⟨hle, hlt⟩

lemma Grows.size_bounds {old adjacent grown : Chunk} {newSize : ℕ}
    (hg : a.Grows old newSize adjacent grown a') : newSize ≤ grown.size.get ∧
      grown.size.get < max (newSize + minChunkSize)
        (old.size.get + a.pageNeighbour old.base + 1) := by
  have hroom := hg.room.enough
  have hmin : 0 < minChunkSize := by decide
  rw [hg.size, pageNeighbour_of_room hg.mem hg.room, grownTo]
  by_cases hp : pageSize ≤ adjacent.size.get
  · rw [if_pos (Or.inl hp), if_pos hp]
    omega
  · rw [if_neg hp]
    split <;> omega

lemma Allocates.fresh (h : a.Wf) {size : ℕ} {existing alloc : Chunk}
    (ha : a.Allocates size existing alloc a') : ∀ c ∈ a.usedChunks, c.base ≠ alloc.base := by
  obtain ⟨⟨n, -, ⟨hex, -⟩, pieces, hcarved, -⟩, -⟩ := ha
  intro c hc
  refine used_base_ne h hex hc (Chunk.mem_range.mpr ?_)
  rw [hcarved.base_eq]
  exact ⟨le_rfl, existing.base_lt_stop⟩

end Allocator

namespace Mem

/-- What is recorded of a live heap block: the largest size requested for it, and the total of the
free neighbours of a page or more that it took over. -/
structure Block where
  requested : ℕ
  takenOver : ℕ
  deriving DecidableEq

def Block.resize (m : Mem) (ptr size : ℕ) (b : Block) : Block :=
  ⟨max b.requested size,
    b.takenOver + if m.allocator.findAllocatedSize ptr < size then m.allocator.pageNeighbour ptr
      else 0⟩

def insertBlock (blocks : ℕ → Option Block) (ptr size : ℕ) : ℕ → Option Block :=
  if ptr = 0 then blocks else update blocks ptr (some ⟨size, 0⟩)

structure Block.Bounds (a : Allocator) (ptr : ℕ) (b : Block) : Prop where
  ptr_ne : ptr ≠ 0
  live : ∃ c ∈ a.usedChunks, c.base = ptr
  requested_le : b.requested ≤ a.findAllocatedSize ptr
  size_lt : a.findAllocatedSize ptr < b.requested + pageSize + b.takenOver

def BlocksBounded (a : Allocator) (blocks : ℕ → Option Block) : Prop :=
  ∀ ptr b, blocks ptr = some b → Block.Bounds a ptr b

section

variable {a a' : Allocator} {blocks : ℕ → Option Block} {m m' : Mem} {ptr size : ℕ}

lemma Block.Bounds.keep {ptr : ℕ} {b : Block} (h : Block.Bounds a ptr b)
    (hkeep : ∀ c ∈ a.usedChunks, c.base = ptr → c ∈ a'.usedChunks) : Block.Bounds a' ptr b := by
  obtain ⟨hne, ⟨c, hc, rfl⟩, hreq, hlt⟩ := h
  have hc' := hkeep c hc rfl
  rw [findAllocatedSize_of_mem hc] at hreq hlt
  refine ⟨hne, ⟨c, hc', rfl⟩, ?_, ?_⟩
  · rwa [findAllocatedSize_of_mem hc']
  · rwa [findAllocatedSize_of_mem hc']

lemma BlocksBounded.keep (h : BlocksBounded a blocks)
    (hkeep : ∀ c ∈ a.usedChunks, c ∈ a'.usedChunks) : BlocksBounded a' blocks :=
  fun ptr b hb => (h ptr b hb).keep fun c hc _ => hkeep c hc

lemma BlocksBounded.forget (h : BlocksBounded a blocks) {old : ℕ}
    (hkeep : ∀ c ∈ a.usedChunks, c.base ≠ old → c ∈ a'.usedChunks) :
    BlocksBounded a' (update blocks old none) := by
  intro ptr b hb
  by_cases hp : ptr = old
  · subst hp
    simp at hb
  · rw [update_of_ne hp] at hb
    exact (h ptr b hb).keep fun c hc hcb => hkeep c hc (hcb ▸ hp)

lemma BlocksBounded.insert (h : BlocksBounded a blocks) {c : Chunk} (hc : c ∈ a.usedChunks)
    {size : ℕ} (hle : size ≤ c.size.get) (hlt : c.size.get < size + pageSize) :
    BlocksBounded a (insertBlock blocks c.base size) := by
  intro ptr b hb
  unfold insertBlock at hb
  split at hb
  · exact h ptr b hb
  rename_i hne
  by_cases hp : ptr = c.base
  · subst hp
    rw [update_self] at hb
    obtain rfl := Option.some.inj hb
    refine ⟨hne, ⟨c, hc, rfl⟩, ?_, ?_⟩
    · rwa [findAllocatedSize_of_mem hc]
    · rwa [findAllocatedSize_of_mem hc]
  · rw [update_of_ne hp] at hb
    exact h ptr b hb

lemma insertBlock_null : insertBlock blocks 0 size = blocks := if_pos rfl

lemma alloc_bounded (h : m.allocator.Sound) (hg : m.allocator.Granular) (hlt : size < u32Bound)
    (hb : BlocksBounded m.allocator blocks) (hok : m.alloc size = .ok (ptr, m')) :
    BlocksBounded m'.allocator (insertBlock blocks ptr size) := by
  rcases alloc_ok h hlt with ⟨hok', -⟩ | ⟨existing, alloc, a, hok', ha⟩
  · obtain ⟨rfl, rfl⟩ := ok_pair_inj (hok'.symm.trans hok)
    rwa [insertBlock_null, zeroOnAlloc_allocator]
  · obtain ⟨rfl, rfl⟩ := ok_pair_inj (hok'.symm.trans hok)
    obtain ⟨hle, hlt'⟩ := ha.size_bounds hg
    rw [zeroOnAlloc_allocator]
    exact (hb.keep fun c hc => (ha.used c).mpr (Or.inr hc)).insert
      ((ha.used alloc).mpr (Or.inl rfl)) hle hlt'

lemma alloc_fresh (h : m.allocator.Sound) (hlt : size < u32Bound)
    (hok : m.alloc size = .ok (ptr, m')) (hne : ptr ≠ 0) :
    ∀ c ∈ m.allocator.usedChunks, c.base ≠ ptr := by
  rcases alloc_ok h hlt with ⟨hok', -⟩ | ⟨existing, alloc, a, hok', ha⟩
  · obtain ⟨rfl, rfl⟩ := ok_pair_inj (hok'.symm.trans hok)
    exact absurd rfl hne
  · obtain ⟨rfl, rfl⟩ := ok_pair_inj (hok'.symm.trans hok)
    exact ha.fresh h.wf

lemma alloc_size_lt (h : m.allocator.Sound) (hg : m.allocator.Granular) (hlt : size < u32Bound)
    (hok : m.alloc size = .ok (ptr, m')) (hne : ptr ≠ 0) :
    m'.allocator.findAllocatedSize ptr < size + pageSize := by
  have hnone : BlocksBounded m.allocator fun _ => none := fun _ _ hb => by simp at hb
  have hbounds := alloc_bounded h hg hlt hnone hok
  have hblock := hbounds ptr ⟨size, 0⟩ (by simp [insertBlock, hne])
  exact hblock.size_lt

lemma Freed.findAllocatedSize_le (hf : m.Freed ptr m') (p : ℕ) :
    m'.allocator.findAllocatedSize p ≤ m.allocator.findAllocatedSize p := by
  cases hf with
  | ignored => exact le_rfl
  | @freed c _ _ a _ _ _ _ hf =>
    rw [zeroOnFree_allocator]
    rcases a.exists_used_or p with ⟨d, hd, rfl⟩ | hno
    · rw [findAllocatedSize_of_mem hd,
        findAllocatedSize_of_mem ((hf.used d).mp hd).1]
    · rw [findAllocatedSize, ChunkMap.getSizeWithBase_eq_none.mpr hno]
      exact Nat.zero_le _

lemma Reallocated.size_lt (h : m.Sound) (hg : m.allocator.Granular) (hlt : size < u32Bound)
    {newPtr : ℕ} (hr : m.Reallocated ptr size newPtr m')
    (hlarger : m.allocator.findAllocatedSize ptr < size)
    (hneighbour : m.allocator.pageNeighbour ptr = 0) (hne : newPtr ≠ 0) :
    m'.allocator.findAllocatedSize newPtr < size + pageSize := by
  cases hr with
  | fresh _ hok => exact alloc_size_lt h.allocator hg hlt hok hne
  | enough _ hle => exact absurd hle hlarger.not_ge
  | inPlace _ hb _ hgrow htail =>
    obtain ⟨-, hgrown⟩ := hgrow.size_bounds
    rw [hb, hneighbour] at hgrown
    have hold := hgrow.larger
    have hpage : minChunkSize < pageSize := by decide
    obtain ⟨pieces, hpieces, -⟩ := hgrow.pieces
    rw [(sameHeap_zeroTail htail).allocator, ← hb, ← hpieces.base_eq,
      findAllocatedSize_of_mem ((hgrow.used _).mpr (Or.inl rfl))]
    omega
  | @moved a _ _ _ _ _ hcoh hsame hok =>
    obtain ⟨m₁, hok, hfree⟩ := relocate_eq_ok.mp hok
    have h₀ : Sound { m with allocator := a } :=
      h.of_stepped (.same hcoh hsame) fun c hc _ => (hsame.1 c).mpr hc
    have h₁ := alloc_sound h₀ hlt hok
    have hmove := sameHeap_memmove (m := m₁) newPtr ptr (m.allocator.findAllocatedSize ptr)
    have hle := (free_cases (hmove.sound h₁).allocator hfree).findAllocatedSize_le newPtr
    rw [hmove.allocator] at hle
    exact hle.trans_lt (alloc_size_lt h₀.allocator (hg.same hsame) hlt hok hne)

lemma update_insertBlock {old : ℕ} (hne : ptr ≠ old) :
    update (insertBlock blocks ptr size) old none =
      insertBlock (update blocks old none) ptr size := by
  unfold insertBlock
  split
  · rfl
  · exact update_comm hne _ _ _

lemma update_insertBlock_self (size : ℕ) :
    update (insertBlock blocks ptr size) ptr none = update blocks ptr none := by
  unfold insertBlock
  split
  · rfl
  · exact update_idem _ _ _

lemma Freed.bounded (hf : m.Freed ptr m') (hb : BlocksBounded m.allocator blocks) :
    BlocksBounded m'.allocator (update blocks ptr none) := by
  cases hf with
  | ignored => exact hb.forget fun c hc _ => hc
  | freed _ _ hbase _ hf =>
    rw [zeroOnFree_allocator]
    refine hb.forget fun c hc hne => (hf.used c).mpr ⟨hc, ?_⟩
    rintro rfl
    exact hne hbase

lemma Grows.bounded {old adjacent grown : Chunk} (hg : m.allocator.Grows old size adjacent grown a)
    (hb : BlocksBounded m.allocator blocks) : BlocksBounded a
      (update blocks old.base ((blocks old.base).map (Block.resize m old.base size))) := by
  intro ptr b hblock
  by_cases hp : ptr = old.base
  · subst hp
    rw [update_self] at hblock
    obtain ⟨b₀, hb₀, rfl⟩ := Option.map_eq_some_iff.mp hblock
    obtain ⟨hne, -, hreq, hlt⟩ := hb old.base b₀ hb₀
    obtain ⟨hle, hgrown⟩ := hg.size_bounds
    have hin : grown ∈ a.usedChunks := (hg.used grown).mpr (Or.inl rfl)
    have hlarger := hg.larger
    have hbase : grown.base = old.base := by
      obtain ⟨pieces, hpieces, -⟩ := hg.pieces
      exact hpieces.base_eq
    have hsize : a.findAllocatedSize old.base = grown.size.get := by
      rw [← hbase, findAllocatedSize_of_mem hin]
    rw [findAllocatedSize_of_mem hg.mem] at hreq hlt
    have hpage : minChunkSize < pageSize := by decide
    refine ⟨hne, ⟨grown, hin, hbase⟩, ?_, ?_⟩
    · rw [hsize]
      exact max_le (hreq.trans (hlarger.le.trans hle)) hle
    · rw [hsize, Block.resize, findAllocatedSize_of_mem hg.mem, if_pos hlarger]
      dsimp only
      omega
  · rw [update_of_ne hp] at hblock
    refine (hb ptr b hblock).keep fun c hc hcb => (hg.used c).mpr (Or.inr ⟨hc, ?_⟩)
    rintro rfl
    exact hp hcb.symm

end

structure Tracked where
  mem : Mem
  blocks : ℕ → Option Block

namespace Tracked

def record (t : Tracked) (r : Request) (ptr : ℕ) : ℕ → Option Block :=
  match r with
  | .alloc size => insertBlock t.blocks ptr size
  | .calloc size => insertBlock t.blocks ptr size
  | .free old => update t.blocks old none
  | .realloc old size =>
    if (old : ℕ) = 0 then insertBlock t.blocks ptr size
    else if ptr = old then
      update t.blocks old ((t.blocks old).map (Block.resize t.mem old size))
    else insertBlock (update t.blocks old none) ptr size
  | .reserve .. => t.blocks
  | .write .. => t.blocks

def step (t : Tracked) (r : Request) : Checked Tracked := do
  let (ptr, mem) ← t.mem.serve r
  return ⟨mem, t.record r ptr⟩

def exec (zof : Bool) (seg : NullSegment) (requests : List Request) : Checked Tracked := do
  let m ← boot zof seg
  run step ⟨m, fun _ => none⟩ requests

variable {t t' : Tracked}

lemma step_eq_ok {r : Request} : t.step r = .ok t' ↔
    ∃ ptr, t.mem.serve r = .ok (ptr, t'.mem) ∧ t'.blocks = t.record r ptr := by
  unfold step
  rw [bind_eq_ok]
  constructor
  · rintro ⟨⟨ptr, m⟩, hok, h⟩
    obtain rfl := Except.ok.inj h
    exact ⟨ptr, hok, rfl⟩
  · rintro ⟨ptr, hok, hb⟩
    refine ⟨(ptr, t'.mem), hok, ?_⟩
    simp only [pure_eq_ok, ← hb]

lemma realloc_bounded {old size : GuestUSize} {ptr : ℕ} {m' : Mem} (h : t.mem.Sound)
    (hg : t.mem.allocator.Granular) (hb : BlocksBounded t.mem.allocator t.blocks)
    (hr : t.mem.Reallocated old size ptr m') :
    BlocksBounded m'.allocator (t.record (.realloc old size) ptr) := by
  have hlt := size.isLt
  cases hr with
  | fresh hp hok =>
    rw [record, if_pos hp]
    exact alloc_bounded h.allocator hg hlt hb hok
  | enough hp hle =>
    rw [record, if_neg hp, if_pos rfl]
    intro ptr b hblock
    by_cases hpo : ptr = old
    · subst hpo
      rw [update_self] at hblock
      obtain ⟨b₀, hb₀, rfl⟩ := Option.map_eq_some_iff.mp hblock
      obtain ⟨hne, hlive, hreq, hlt⟩ := hb _ b₀ hb₀
      refine ⟨hne, hlive, max_le hreq hle, ?_⟩
      rw [Block.resize, if_neg hle.not_gt]
      dsimp only
      omega
    · rw [update_of_ne hpo] at hblock
      exact hb ptr b hblock
  | inPlace hp hbase _ hgrow htail =>
    rw [record, if_neg hp, if_pos rfl, (sameHeap_zeroTail htail).allocator, ← hbase]
    exact Grows.bounded hgrow hb
  | @moved a newPtr m' hp hlt' _ hcoh hsame hok =>
    obtain ⟨m₁, hok, hfree⟩ := relocate_eq_ok.mp hok
    have h₀ : Sound { t.mem with allocator := a } :=
      h.of_stepped (.same hcoh hsame) fun c hc _ => (hsame.1 c).mpr hc
    have hb₀ : BlocksBounded a t.blocks := hb.keep fun c hc => (hsame.1 c).mpr hc
    have h₁ := alloc_sound h₀ hlt hok
    have hmove := sameHeap_memmove (m := m₁) ptr old (t.mem.allocator.findAllocatedSize old)
    have hcases := free_cases (hmove.sound h₁).allocator hfree
    have hb₁ := hcases.bounded (hmove.allocator ▸ alloc_bounded h₀.allocator (hg.same hsame) hlt hb₀ hok)
    rw [record, if_neg hp]
    split
    · rename_i heq
      have hdead : t.blocks old = none := by
        refine Option.eq_none_iff_forall_ne_some.mpr fun b hblock => ?_
        obtain ⟨c, hc, hcb⟩ := (hb₀ old b hblock).live
        exact alloc_fresh h₀.allocator hlt hok (heq ▸ hp) c hc (hcb.trans heq.symm)
      subst heq
      rwa [hdead, Option.map_none, ← update_insertBlock_self size]
    · rename_i hne
      rwa [← update_insertBlock hne]

lemma step_bounded (r : Request) (h : t.mem.Sound) (hg : t.mem.allocator.Granular)
    (hb : BlocksBounded t.mem.allocator t.blocks) (hok : t.step r = .ok t') :
    BlocksBounded t'.mem.allocator t'.blocks := by
  obtain ⟨ptr, hok, hblocks⟩ := step_eq_ok.mp hok
  rw [hblocks]
  cases r with
  | reserve base size hbase hsize hstop =>
    obtain ⟨m₁, hres, hok⟩ := map_eq_ok.mp hok
    rw [← (Prod.mk.inj hok).2]
    cases reserve_cases h.allocator size.isLt hbase hsize hstop hres with
    | skipped => exact hb
    | reserved _ hres' => exact hb.keep fun c hc => (hres'.used c).mpr (Or.inr hc)
  | alloc size => exact alloc_bounded h.allocator hg size.isLt hb hok
  | calloc size =>
    obtain ⟨m₁, halloc, hm⟩ := calloc_cases hok
    rw [hm, fill_allocator]
    exact alloc_bounded h.allocator hg size.isLt hb halloc
  | free ptr =>
    obtain ⟨m₁, hfree, hok⟩ := map_eq_ok.mp hok
    obtain ⟨rfl, rfl⟩ := Prod.mk.inj hok
    exact (free_cases h.allocator hfree).bounded hb
  | realloc old size => exact realloc_bounded h hg hb (realloc_cases h.allocator hok)
  | write addr v =>
    obtain ⟨rfl, hm⟩ := ok_pair_inj hok
    rw [← hm, write_allocator]
    exact hb

def sizeAndBlock (t : Tracked) (ptr : ℕ) : ℕ × Option Block :=
  (t.mem.allocator.findAllocatedSize ptr, t.blocks ptr)

end Tracked

end Mem

end TouchHle.Memory
