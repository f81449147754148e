import TouchHle.Memory.Collections

namespace TouchHle.Memory

open Lib

def mainThreadStackSize : ℕ := 1024 * 1024
def mainThreadStackLowEnd : ℕ := u32Bound - mainThreadStackSize

structure Allocator where
  usedChunks : ChunkMap
  unusedChunks : SizeBucketedChunkMap

namespace Allocator

def new : Checked Allocator := do
  let mainThreadStack ← Chunk.new mainThreadStackLowEnd mainThreadStackSize
  let rest ← Chunk.new 0 mainThreadStackLowEnd
  let usedChunks ← ChunkMap.empty.insert mainThreadStack
  let unusedChunks ← SizeBucketedChunkMap.empty.insert rest
  return ⟨usedChunks, unusedChunks⟩

def findToTrisect (chunk : Chunk) : List Chunk → Checked (Option Chunk)
  | [] => return none
  | unusedChunk :: rest => do
    match ← unusedChunk.trisectBy chunk with
    | some _ => return some unusedChunk
    | none => findToTrisect chunk rest

def insertIfTrackable (m : SizeBucketedChunkMap) (c : Option Chunk) :
    Checked SizeBucketedChunkMap :=
  match c.filter fun c => minChunkSize ≤ c.size.get with
  | none => return m
  | some c => m.insert c

def reserve (a : Allocator) (chunk : Chunk) : Checked Allocator := do
  match ← findToTrisect chunk a.unusedChunks.iter with
  | none => return a
  | some toTrisect =>
    match ← toTrisect.trisectBy chunk with
    | none => return a
    | some (before, after) =>
      let unused := match ← a.unusedChunks.removeWithBase toTrisect.base with
        | none => a.unusedChunks
        | some (_, m) => m
      let unused ← insertIfTrackable unused before
      let unused ← insertIfTrackable unused after
      let used ← a.usedChunks.insert chunk
      return ⟨used, unused⟩

def align (size align : ℕ) : Option ℕ :=
  if size % align ≠ 0 then
    let addend := align - size % align
    if size + addend < u32Bound then some (size + addend) else none
  else some size

def alignedSize (size : ℕ) : Option ℕ :=
  if size < pageSize then align (max size minChunkSize) minChunkSize
  else align size pageSize

def alloc (a : Allocator) (size : ℕ) : Checked (ℕ × Allocator) :=
  match alignedSize size with
  | none => return (0, a)
  | some aligned => do
    match ← a.unusedChunks.allocate aligned with
    | none => return (0, a)
    | some (alloc, unused) =>
      let used ← a.usedChunks.insert alloc
      return (alloc.base, ⟨used, unused⟩)

def findAllocatedSize (a : Allocator) (base : ℕ) : ℕ :=
  match a.usedChunks.getSizeWithBase base with
  | none => 0
  | some size => size.get

def isKnownAllocation (a : Allocator) (base : ℕ) : Bool :=
  (a.usedChunks.getSizeWithBase base).isSome

def grownSize (oldSize newSize adjacentSize extra : ℕ) : Checked ℕ :=
  if pageSize ≤ adjacentSize then addU32 oldSize adjacentSize
  else do
    let remainder ← subU32 adjacentSize extra
    if remainder < minChunkSize then addU32 oldSize adjacentSize
    else return newSize

def insertRemainder (m : SizeBucketedChunkMap) (adjacentBase adjacentSize extra : ℕ) :
    Checked SizeBucketedChunkMap :=
  if adjacentSize < pageSize then do
    let remainder ← subU32 adjacentSize extra
    if minChunkSize ≤ remainder then do
      let remainderBase ← addU32 adjacentBase extra
      let chunk ← Chunk.new remainderBase remainder
      m.insert chunk
    else return m
  else return m

def growInPlace (a : Allocator) (base oldSize newSize : ℕ) : Checked (Option ℕ × Allocator) := do
  let extra ← subU32 newSize oldSize
  if a.usedChunks.getSizeWithBase base = none then return (none, a)
  else do
    let adjacentBase ← addU32 base oldSize
    match ← a.unusedChunks.removeWithBase adjacentBase with
    | none => return (none, a)
    | some (adjacent, unused) =>
      let adjacentSize := adjacent.size.get
      if adjacentSize < extra then do
        let unused ← unused.insert adjacent
        return (none, { a with unusedChunks := unused })
      else do
        let grown ← grownSize oldSize newSize adjacentSize extra
        if pageSize ≤ grown ∧ base &&& pageSizeAlignMask ≠ 0 then do
          let unused ← unused.insert adjacent
          return (none, { a with unusedChunks := unused })
        else do
          let unused ← insertRemainder unused adjacentBase adjacentSize extra
          match a.usedChunks.removeWithBase base with
          | none => .error .assertion
          | some (_, used) => do
            let chunk ← Chunk.new base grown
            let used ← used.insert chunk
            return (some grown, ⟨used, unused⟩)

def takeAdjacent (m : SizeBucketedChunkMap) (freed : Chunk) :
    Checked (Option (Chunk × SizeBucketedChunkMap)) := do
  let last ← freed.lastByte
  let next ← addU32 last 1
  match ← m.removeWithBase next with
  | some found => return some found
  | none => m.removeWithEnd freed.base

/-- The freed chunk goes back to the free list, combined with one neighbour unless a chunk of a
page or more would then start off a page boundary. -/
def coalesce (m : SizeBucketedChunkMap) (freed : Chunk) : Checked SizeBucketedChunkMap := do
  match ← takeAdjacent m freed with
  | none => insertIfTrackable m (some freed)
  | some (adjacent, m) =>
    let newBase := min freed.base adjacent.base
    let newSize ← addU32 freed.size.get adjacent.size.get
    if pageSize ≤ newSize ∧ newBase &&& pageSizeAlignMask ≠ 0 then do
      let m ← insertIfTrackable m (some adjacent)
      insertIfTrackable m (some freed)
    else do
      let combined ← Chunk.new newBase newSize
      insertIfTrackable m (some combined)

def free (a : Allocator) (base : ℕ) : Checked (ℕ × Allocator) :=
  match a.usedChunks.removeWithBase base with
  | none => return (0, a)
  | some (freed, used) => do
    let unused ← coalesce a.unusedChunks freed
    return (freed.size.get, ⟨used, unused⟩)

end Allocator

end TouchHle.Memory
