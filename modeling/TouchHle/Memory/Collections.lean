import TouchHle.Lib.Intervals
import TouchHle.Lib.Table
import TouchHle.Lib.Vec

namespace TouchHle.Memory

open Lib

def pageSize : ℕ := 4096
def pageSizeAlignMask : ℕ := 0xfff
def minChunkSize : ℕ := 16

structure NonZeroU32 where
  get : ℕ
  pos : 0 < get
  lt : get < u32Bound
  deriving DecidableEq

def NonZeroU32.new (n : ℕ) : Option NonZeroU32 :=
  if h : 0 < n ∧ n < u32Bound then some ⟨n, h.1, h.2⟩ else none

lemma NonZeroU32.new_eq_some {n : ℕ} {s : NonZeroU32} : NonZeroU32.new n = some s ↔ s.get = n := by
  rcases s with ⟨m, hp, hl⟩
  unfold NonZeroU32.new
  split
  · simp [eq_comm]
  · simp only [reduceCtorEq, false_iff]
    rintro rfl
    simp_all

structure Chunk where
  base : ℕ
  size : NonZeroU32
  deriving DecidableEq

namespace Chunk

def new (base : ℕ) (size : ℕ) : Checked Chunk := do
  if pageSize ≤ size then
    assert (base &&& pageSizeAlignMask = 0)
  let size ← unwrap (NonZeroU32.new size)
  return ⟨base, size⟩

def lastByte (c : Chunk) : Checked ℕ :=
  addU32 c.base (c.size.get - 1)

def contains (c : Chunk) (addr : ℕ) : Checked Bool :=
  if c.base ≤ addr then do
    let last ← c.lastByte
    return decide (addr ≤ last)
  else
    return false

def newUnlessEmpty (base : Checked ℕ) (size : ℕ) : Checked (Option Chunk) :=
  if size = 0 then return none
  else do
    let base ← base
    some <$> new base size

def trisectBy (c middle : Chunk) : Checked (Option (Option Chunk × Option Chunk)) := do
  if !(← c.contains middle.base) then
    return none
  else
    let middleLast ← middle.lastByte
    if !(← c.contains middleLast) then
      return none
    else
      let leftSize ← subU32 middle.base c.base
      let left ← newUnlessEmpty (.ok c.base) leftSize
      let last ← c.lastByte
      let rightSize ← subU32 last middleLast
      let right ← newUnlessEmpty (addU32 middleLast 1) rightSize
      return some (left, right)

def stop (c : Chunk) : ℕ := c.base + c.size.get

def range (c : Chunk) : Set ℕ := Set.Ico c.base c.stop

def PageAligned (c : Chunk) : Prop := pageSize ≤ c.size.get → c.base % pageSize = 0

instance (c : Chunk) (x : ℕ) : Decidable (x ∈ c.range) :=
  inferInstanceAs (Decidable (_ ∧ _))

instance (c : Chunk) : Decidable c.PageAligned := inferInstanceAs (Decidable (_ → _))

lemma and_mask (n : ℕ) : n &&& pageSizeAlignMask = n % pageSize :=
  Nat.and_two_pow_sub_one_eq_mod n 12

lemma new_ok {base size : ℕ} (h : 0 < size) (hl : size < u32Bound)
    (ha : pageSize ≤ size → base % pageSize = 0) : new base size = .ok ⟨base, size, h, hl⟩ := by
  by_cases hp : pageSize ≤ size <;>
    simp [new, NonZeroU32.new, h, hl, hp, and_mask, ha, pure, Except.pure]

lemma exists_new (base size : ℕ) (h : 0 < size) (hl : size < u32Bound)
    (ha : pageSize ≤ size → base % pageSize = 0) :
    ∃ c, new base size = .ok c ∧ c.base = base ∧ c.size.get = size :=
  ⟨_, new_ok h hl ha, rfl, rfl⟩

lemma new_self {c : Chunk} (h : c.PageAligned) : new c.base c.size.get = .ok c :=
  new_ok c.size.pos c.size.lt h

lemma base_lt_stop (c : Chunk) : c.base < c.stop := Nat.lt_add_of_pos_right c.size.pos

@[simp] lemma mem_range {c : Chunk} {x : ℕ} : x ∈ c.range ↔ c.base ≤ x ∧ x < c.stop := Iff.rfl

lemma disjoint_range {c d : Chunk} :
    Disjoint c.range d.range ↔ c.stop ≤ d.base ∨ d.stop ≤ c.base :=
  Ico_disjoint_iff c.size.pos d.size.pos

lemma lastByte_ok {c : Chunk} (h : c.stop ≤ u32Bound) : c.lastByte = .ok (c.stop - 1) := by
  have hp := c.size.pos
  have hs : c.base + (c.size.get - 1) = c.stop - 1 := by unfold stop; omega
  have hl := c.base_lt_stop
  rw [lastByte, addU32_of_lt (by omega), hs]

lemma lastByte_succ_ok {c : Chunk} (h : c.stop < u32Bound) :
    (c.lastByte >>= fun last => addU32 last 1) = .ok c.stop := by
  have hl := c.base_lt_stop
  rw [lastByte_ok h.le, ok_bind, addU32_of_lt (by omega)]
  exact congrArg _ (by omega)

lemma contains_ok {c : Chunk} (h : c.stop ≤ u32Bound) (x : ℕ) :
    c.contains x = .ok (decide (x ∈ c.range)) := by
  have hl := c.base_lt_stop
  unfold contains
  split
  · rename_i hb
    rw [lastByte_ok h, ok_bind]
    refine congrArg _ (decide_eq_decide.mpr ?_)
    simp only [mem_range]
    omega
  · rename_i hb
    exact congrArg _ (decide_eq_false fun hx => hb hx.1).symm

def below (c middle : Chunk) : Option Chunk :=
  (NonZeroU32.new (middle.base - c.base)).map fun size => ⟨c.base, size⟩

def above (c middle : Chunk) : Option Chunk :=
  (NonZeroU32.new (c.stop - middle.stop)).map fun size => ⟨middle.stop, size⟩

lemma below_eq_some {c m d : Chunk} :
    c.below m = some d ↔ d.base = c.base ∧ d.size.get = m.base - c.base := by
  simp only [below, Option.map_eq_some_iff, NonZeroU32.new_eq_some]
  constructor
  · rintro ⟨s, hs, rfl⟩
    exact ⟨rfl, hs⟩
  · rintro ⟨hb, hs⟩
    exact ⟨d.size, hs, by rw [← hb]⟩

lemma above_eq_some {c m d : Chunk} :
    c.above m = some d ↔ d.base = m.stop ∧ d.size.get = c.stop - m.stop := by
  simp only [above, Option.map_eq_some_iff, NonZeroU32.new_eq_some]
  constructor
  · rintro ⟨s, hs, rfl⟩
    exact ⟨rfl, hs⟩
  · rintro ⟨hb, hs⟩
    exact ⟨d.size, hs, by rw [← hb]⟩

lemma newUnlessEmpty_ok {b : Checked ℕ} {base size : ℕ} (hb : 0 < size → b = .ok base)
    (hl : size < u32Bound) (ha : pageSize ≤ size → base % pageSize = 0) :
    newUnlessEmpty b size = .ok ((NonZeroU32.new size).map fun size => ⟨base, size⟩) := by
  by_cases h : size = 0
  · simp [newUnlessEmpty, NonZeroU32.new, h, pure, Except.pure]
  · have hp := Nat.pos_of_ne_zero h
    rw [newUnlessEmpty, if_neg h, hb hp, ok_bind, new_ok hp hl ha]
    simp [NonZeroU32.new, hp, hl, Functor.map, Except.map]

lemma trisectBy_outside {c m : Chunk} (hc : c.stop ≤ u32Bound) (hm : m.stop ≤ u32Bound)
    (h : ¬ (c.base ≤ m.base ∧ m.stop ≤ c.stop)) : c.trisectBy m = .ok none := by
  have hl := m.base_lt_stop
  by_cases hb : m.base ∈ c.range
  · have hs : m.stop - 1 ∉ c.range := by
      rw [mem_range] at hb ⊢
      omega
    simp only [trisectBy, contains_ok hc, lastByte_ok hm, hb, hs, ok_bind, decide_true,
      decide_false, Bool.not_true, Bool.not_false, Bool.false_eq_true, if_true, if_false]
    rfl
  · simp only [trisectBy, contains_ok hc, hb, ok_bind, decide_false, Bool.not_false, if_true]
    rfl

lemma trisectBy_inside {c m : Chunk} (hc : c.stop ≤ u32Bound) (hb : c.base ≤ m.base)
    (hs : m.stop ≤ c.stop) (hl : pageSize ≤ m.base - c.base → c.base % pageSize = 0)
    (hr : pageSize ≤ c.stop - m.stop → m.stop % pageSize = 0) :
    c.trisectBy m = .ok (some (c.below m, c.above m)) := by
  have hm := m.base_lt_stop
  have hin : m.base ∈ c.range := mem_range.mpr ⟨hb, by omega⟩
  have hin' : m.stop - 1 ∈ c.range := mem_range.mpr ⟨by omega, by omega⟩
  have hsize : c.stop - 1 - (m.stop - 1) = c.stop - m.stop := by omega
  have hleft : newUnlessEmpty (.ok c.base) (m.base - c.base) = .ok (c.below m) :=
    newUnlessEmpty_ok (fun _ => rfl) (by omega) hl
  have hright : newUnlessEmpty (addU32 (m.stop - 1) 1) (c.stop - m.stop) = .ok (c.above m) := by
    refine newUnlessEmpty_ok (fun h => ?_) (by omega) hr
    rw [addU32_of_lt (by omega)]
    exact congrArg _ (by omega)
  simp only [trisectBy, contains_ok hc, hin, hin', ok_bind, lastByte_ok hc,
    lastByte_ok (hs.trans hc), decide_true, Bool.not_true, Bool.false_eq_true, if_false,
    subU32_of_le hb, subU32_of_le (show m.stop - 1 ≤ c.stop - 1 by omega), hsize, hleft, hright]
  rfl

end Chunk

structure ChunkMap where
  chunks : OrderedMap ℕ NonZeroU32

namespace ChunkMap

instance : Membership Chunk ChunkMap := ⟨fun m c => (c.base, c.size) ∈ m.chunks⟩

def empty : ChunkMap := ⟨.empty⟩

def insert (m : ChunkMap) (c : Chunk) : Checked ChunkMap := do
  assert (m.chunks.get? c.base = none)
  return ⟨m.chunks.insert c.base c.size⟩

def removeWithBase (m : ChunkMap) (base : ℕ) : Option (Chunk × ChunkMap) :=
  (m.chunks.get? base).map fun size => (⟨base, size⟩, ⟨m.chunks.erase base⟩)

def removeWithEnd (m : ChunkMap) (stop : ℕ) : Checked (Option (Chunk × ChunkMap)) :=
  match m.chunks.lastBelow stop with
  | none => return none
  | some (base, size) => do
    let chunk : Chunk := ⟨base, size⟩
    let last ← chunk.lastByte
    let next ← addU32 last 1
    if next ≠ stop then return none
    else some <$> unwrap (m.removeWithBase chunk.base)

def getSizeWithBase (m : ChunkMap) (base : ℕ) : Option NonZeroU32 :=
  m.chunks.get? base

def iter (m : ChunkMap) : List Chunk :=
  m.chunks.entries.map fun e => ⟨e.1, e.2⟩

end ChunkMap

structure SizeBucketedChunkMap where
  chunks : ChunkMap
  chunksByLog2Size : List (List Chunk)

namespace SizeBucketedChunkMap

def bucketFor (size : ℕ) : Checked ℕ :=
  if size = 0 then .error .overflow
  else subU32 (Nat.log2 size) (Nat.log2 minChunkSize)

def bucketCount : ℕ := 28

instance : Membership Chunk SizeBucketedChunkMap := ⟨fun m c => c ∈ m.chunks⟩

def empty : SizeBucketedChunkMap := ⟨.empty, List.replicate bucketCount []⟩

def bucket (m : SizeBucketedChunkMap) (i : ℕ) : Checked (List Chunk) :=
  match m.chunksByLog2Size[i]? with
  | none => .error .index
  | some l => .ok l

def insert (m : SizeBucketedChunkMap) (c : Chunk) : Checked SizeBucketedChunkMap := do
  assert (minChunkSize ≤ c.size.get)
  let chunks ← m.chunks.insert c
  let i ← bucketFor c.size.get
  let l ← m.bucket i
  return ⟨chunks, m.chunksByLog2Size.set i (l ++ [c])⟩

def removeFromBucket (m : SizeBucketedChunkMap) (c : Chunk) : Checked SizeBucketedChunkMap := do
  let i ← bucketFor c.size.get
  let l ← m.bucket i
  let idx ← unwrap (Vec.rposition (fun d => c.base = d.base) l)
  let (removed, rest) ← Vec.swapRemove l idx
  assert (c = removed)
  return { m with chunksByLog2Size := m.chunksByLog2Size.set i rest }

def removeWithBase (m : SizeBucketedChunkMap) (base : ℕ) :
    Checked (Option (Chunk × SizeBucketedChunkMap)) :=
  match m.chunks.removeWithBase base with
  | none => return none
  | some (c, chunks) => do
    let m ← removeFromBucket { m with chunks } c
    return some (c, m)

def removeWithEnd (m : SizeBucketedChunkMap) (stop : ℕ) :
    Checked (Option (Chunk × SizeBucketedChunkMap)) := do
  match ← m.chunks.removeWithEnd stop with
  | none => return none
  | some (c, chunks) =>
    let m ← removeFromBucket { m with chunks } c
    return some (c, m)

/-- The search for the smallest sufficient chunk over the remaining `(index, chunk)` pairs, from
the best `(index, size)` so far. It stops early at an exact match. -/
def bestChunk (size : ℕ) : List (Chunk × ℕ) → Option (ℕ × ℕ) → Option (ℕ × ℕ)
  | [], best => best
  | (c, idx) :: rest, best =>
    if size ≤ c.size.get ∧ best.all (fun b => decide (c.size.get < b.2)) = true then
      if c.size.get = size then some (idx, c.size.get)
      else bestChunk size rest (some (idx, c.size.get))
    else bestChunk size rest best

def carve (m : SizeBucketedChunkMap) (existing : Chunk) (size : ℕ) :
    Checked (Chunk × SizeBucketedChunkMap) :=
  if existing.size.get = size then return (existing, m)
  else do
    let alloc ← Chunk.new existing.base size
    let rumpBase ← addU32 existing.base size
    let rumpSize ← subU32 existing.size.get size
    if pageSize ≤ rumpSize ∧ rumpBase &&& pageSizeAlignMask ≠ 0 then do
      assert (existing.base &&& pageSizeAlignMask = 0)
      let leftSize ← subU32 pageSize size
      let leftBase ← addU32 existing.base size
      let left ← Chunk.new leftBase leftSize
      let rightBase ← addU32 existing.base pageSize
      let rightSize ← subU32 existing.size.get pageSize
      let right ← Chunk.new rightBase rightSize
      let leftLast ← left.lastByte
      let leftStop ← addU32 leftLast 1
      assert (leftStop = right.base)
      let total ← addU32 left.size.get right.size.get
      assert (total = rumpSize)
      if minChunkSize ≤ leftSize then do
        let m ← m.insert left
        let m ← m.insert right
        return (alloc, m)
      else do
        let whole ← Chunk.new existing.base existing.size.get
        return (whole, m)
    else if minChunkSize ≤ rumpSize then do
      let rump ← Chunk.new rumpBase rumpSize
      let m ← m.insert rump
      return (alloc, m)
    else do
      let whole ← Chunk.new existing.base existing.size.get
      return (whole, m)

def allocateInBucket (m : SizeBucketedChunkMap) (size bucketIdx : ℕ) :
    Checked (Option (Chunk × SizeBucketedChunkMap)) := do
  let l ← m.bucket bucketIdx
  match bestChunk size l.zipIdx.reverse none with
  | none => return none
  | some (idx, _) =>
    let (existing, rest) ← Vec.swapRemove l idx
    match m.chunks.removeWithBase existing.base with
    | none => .error .assertion
    | some (existing2, chunks) =>
      assert (existing = existing2)
      some <$> carve ⟨chunks, m.chunksByLog2Size.set bucketIdx rest⟩ existing size

def allocate (m : SizeBucketedChunkMap) (size : ℕ) :
    Checked (Option (Chunk × SizeBucketedChunkMap)) := do
  assert (minChunkSize ≤ size)
  let i ← bucketFor size
  match ← m.allocateInBucket size i with
  | some found => return some found
  | none =>
    if m.chunksByLog2Size.length < i + 1 then .error .index
    else
      match (m.chunksByLog2Size.drop (i + 1)).findIdx? fun l => !l.isEmpty with
      | none => return none
      | some p => m.allocateInBucket size (p + i + 1)

def iter (m : SizeBucketedChunkMap) : List Chunk :=
  m.chunksByLog2Size.flatten

end SizeBucketedChunkMap

end TouchHle.Memory
