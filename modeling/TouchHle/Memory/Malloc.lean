import TouchHle.Memory.Zeroing

namespace TouchHle.Memory

open Lib

namespace Mem

def wordByte (v i : ℕ) : UInt8 := UInt8.ofNat (v / 256 ^ i)

def writeU32 (m : Mem) (ptr v : ℕ) : Mem :=
  (((m.write ptr (wordByte v 0)).write (ptr + 1) (wordByte v 1)).write (ptr + 2)
    (wordByte v 2)).write (ptr + 3) (wordByte v 3)

def readU32 (m : Mem) (ptr : ℕ) : ℕ :=
  (m.read ptr).toNat + 256 * (m.read (ptr + 1)).toNat + 256 ^ 2 * (m.read (ptr + 2)).toNat +
    256 ^ 3 * (m.read (ptr + 3)).toNat

def store (m : Mem) (s : Slice) (data : List UInt8) : Mem :=
  match s.backing with
  | .guest => { m with bytes := m.bytes.store s.start data }
  | .nullStubPage => m
  | .nullWriteSink => { m with nullWriteSink := m.nullWriteSink.store s.start data }

def load (m : Mem) (s : Slice) : List UInt8 :=
  (List.range s.len).map fun i => m.sliceByte { s with start := s.start + i }

end Mem

namespace Libc

def einval : ℕ := 22
def enomem : ℕ := 12

def actualSize (size : ℕ) : ℕ := if 0xF0000000 < size then u32Bound - size else size

def sizeLimit : ℕ := 0x20000000

def malloc (m : Mem) (size : ℕ) : Checked (ℕ × Mem) :=
  let size := actualSize size
  let size := if size = 0 then 1 else size
  if sizeLimit < size then return (0, m) else m.alloc size

def calloc (m : Mem) (count size : ℕ) : Checked (ℕ × Mem) :=
  let total := size * count
  if u32Bound ≤ total then return (0, m)
  else if sizeLimit < total then return (0, m)
  else m.calloc (if total = 0 then 1 else total)

def IsPowerOfTwo (n : ℕ) : Prop := 2 ^ Nat.log 2 n = n

instance (n : ℕ) : Decidable (IsPowerOfTwo n) := inferInstanceAs (Decidable (_ = _))

def naturalAlign : ℕ := 16

def header : ℕ := 4

def posixMemalign (m : Mem) (memptr alignment size : ℕ) : Checked (ℕ × Mem) :=
  if memptr = 0 then return (einval, m)
  else if alignment < 4 ∨ ¬ IsPowerOfTwo alignment then return (einval, m)
  else if alignment ≤ naturalAlign then do
    let (p, m) ← malloc m size
    if p = 0 then return (enomem, m) else return (0, m.writeU32 memptr p)
  else if u32Bound ≤ size + alignment ∨ u32Bound ≤ size + alignment + header then
    return (enomem, m)
  else do
    let (raw, m) ← m.alloc (size + alignment + header)
    if raw = 0 then return (enomem, m)
    else do
      let bound ← addU32 raw header
      let bound ← addU32 bound alignment
      let bound ← subU32 bound 1
      let aligned := bound - bound % alignment
      return (0, (m.writeU32 (aligned - header) raw).writeU32 memptr aligned)

def valloc (m : Mem) (size : ℕ) : Checked (ℕ × Mem) := do
  let (out, m) ← m.alloc 4
  let (rc, m) ← posixMemalign m out pageSize size
  let ptr := if rc = 0 then m.readU32 out else 0
  let m ← m.free out
  return (ptr, m)

def realloc (m : Mem) (ptr size : ℕ) : Checked (ℕ × Mem) :=
  if ptr = 0 then malloc m size else m.realloc ptr (if size = 0 then 1 else size)

def free (m : Mem) (ptr : ℕ) : Checked Mem :=
  if ptr = 0 then return m
  else if ¬ (0x1000 ≤ ptr ∧ ptr < 0xfff00000) then return m
  else if !m.allocator.isKnownAllocation ptr then return m
  else m.free ptr

inductive Request
  | malloc (size : GuestUSize)
  | calloc (count size : GuestUSize)
  | realloc (ptr size : GuestUSize)
  | posixMemalign (memptr alignment size : GuestUSize)
  | valloc (size : GuestUSize)
  | free (ptr : GuestUSize)
  | write (addr : GuestUSize) (v : UInt8)

def serve (m : Mem) : Request → Checked (ℕ × Mem)
  | .malloc size => malloc m size
  | .calloc count size => calloc m count size
  | .realloc ptr size => realloc m ptr size
  | .posixMemalign memptr alignment size => do
    let (rc, m) ← posixMemalign m memptr alignment size
    return (if rc = 0 then m.readU32 memptr else 0, m)
  | .valloc size => valloc m size
  | .free ptr => Prod.mk 0 <$> free m ptr
  | .write addr v => return (0, m.write addr v)

structure Block where
  size : ℕ
  alignment : ℕ
  deriving DecidableEq

def Request.asks : Request → Option Block
  | .malloc size => some ⟨size, naturalAlign⟩
  | .calloc count size => some ⟨size * count, naturalAlign⟩
  | .realloc _ size => some ⟨size, naturalAlign⟩
  | .posixMemalign _ alignment size => some ⟨size, alignment⟩
  | .valloc size => some ⟨size, pageSize⟩
  | .free _ => none
  | .write _ _ => none

def Request.gives : Request → Option ℕ
  | .realloc ptr _ => some ptr
  | .free ptr => some ptr
  | _ => none

structure Heap where
  mem : Mem
  blocks : ℕ → Option Block

namespace Heap

def record (w : Heap) (r : Request) (ptr : ℕ) : ℕ → Option Block :=
  match r.asks with
  | none => r.gives.elim w.blocks fun p => Function.update w.blocks p none
  | some b =>
    if ptr = 0 then w.blocks
    else Function.update (r.gives.elim w.blocks fun p => Function.update w.blocks p none) ptr (some b)

def step (w : Heap) (r : Request) : Checked Heap := do
  let (ptr, mem) ← serve w.mem r
  return ⟨mem, w.record r ptr⟩

end Heap

end Libc

end TouchHle.Memory

namespace TouchHle.Memory.Mmap

open Lib

/-- What a file descriptor stands for. A file of the host that is open for writing alone cannot be
read. A pipe has nothing to read for now as long as it has writers. -/
inductive GuestFile
  | file (content : List UInt8) (readable : Bool) (position : ℕ)
  | directory
  | socket
  | random (bytes : ℕ → UInt8)
  | pipeRead (bytes : List UInt8) (writeHandles : ℕ)
  | pipeWrite

namespace GuestFile

def isSeekable : GuestFile → Bool
  | file _ _ _ => true
  | directory => true
  | _ => false

def seek (position : ℕ) : GuestFile → Option GuestFile
  | file content readable _ => some (file content readable position)
  | random bytes => some (random bytes)
  | _ => none

def read (len : ℕ) : GuestFile → List UInt8 × GuestFile
  | file content true position =>
    let data := (content.drop position).take len
    (data, file content true (position + data.length))
  | random bytes => ((List.range len).map bytes, random fun i => bytes (len + i))
  | pipeRead bytes writeHandles => (bytes.take len, pipeRead (bytes.drop len) writeHandles)
  | f => ([], f)

end GuestFile

abbrev Files := ℤ → Option GuestFile

def seekSet (files : Files) (fd : ℤ) (offset : ℤ) : ℤ × Files :=
  match files fd with
  | none => (-1, files)
  | some f =>
    if !f.isSeekable then (-1, files)
    else if offset < 0 then (-1, files)
    else
      match f.seek offset.toNat with
      | none => (-1, files)
      | some f => (offset, Function.update files fd (some f))

def read (m : Mem) (files : Files) (fd : ℤ) (buffer size : ℕ) : Mem × Files :=
  if buffer = 0 then (m, files)
  else
    match files fd with
    | none => (m, files)
    | some f =>
      let s := m.bytesAtMut buffer size
      let (data, f) := f.read s.len
      (m.store s data, Function.update files fd (some f))

def mapAnon : BitVec 32 := 0x1000

def mapFailed : ℕ := 0xFFFFFFFF

def einvalResult : ℕ := 0xFFFFFFFF

inductive Call
  | libc (r : Libc.Request)
  | mmap (len : GuestUSize) (flags : BitVec 32) (fd : Int32) (offset : Int64)
  | munmap (addr len : GuestUSize)

/-- A program with its heap, its mappings and its files. `mapped` tells the bytes that were mapped and
not asked to be unmapped since then, for which the code has no use. -/
structure Process where
  heap : Libc.Heap
  allocations : ℕ → Option ℕ
  files : Files
  mapped : ℕ → Bool

def IsAnon (flags : BitVec 32) : Prop := flags &&& mapAnon ≠ 0

instance (flags : BitVec 32) : Decidable (IsAnon flags) := inferInstanceAs (Decidable (_ ≠ _))

namespace Process

def withMem (w : Process) (mem : Mem) : Process := { w with heap := { w.heap with mem } }

def register (w : Process) (ptr len : ℕ) : Checked (ℕ × Process) := do
  assert (w.allocations ptr = none)
  return (ptr, { w with allocations := Function.update w.allocations ptr (some len) })

def mmap (w : Process) (len : ℕ) (flags : BitVec 32) (fd offset : ℤ) : Checked (ℕ × Process) := do
  let (ptr, mem) ← w.heap.mem.calloc len
  if IsAnon flags then do
    assert (ptr % pageSize = 0)
    (w.withMem mem).register ptr len
  else do
    let (newOffset, files) := seekSet w.files fd offset
    if newOffset ≠ offset then do
      let mem ← mem.free ptr
      return (mapFailed, { w.withMem mem with files })
    else
      let (mem, files) := read mem files fd ptr len
      ({ w.withMem mem with files } : Process).register ptr len

def munmap (w : Process) (addr len : ℕ) : Checked (ℕ × Process) :=
  match w.allocations addr with
  | none => return (if len = 0 then 0 else einvalResult, w)
  | some _ => do
    let mem ← w.heap.mem.free addr
    return (0, { w.withMem mem with allocations := Function.update w.allocations addr none })

def serve (w : Process) : Call → Checked (ℕ × Process)
  | .libc r => do
    let (ptr, mem) ← Libc.serve w.heap.mem r
    return (ptr, { w with heap := ⟨mem, w.heap.record r ptr⟩ })
  | .mmap len flags fd offset => w.mmap len flags fd.toInt offset.toInt
  | .munmap addr len => w.munmap addr len

def record (w : Process) (ret : ℕ) : Call → ℕ → Bool
  | .libc _ => w.mapped
  | .mmap len _ _ _ =>
    if ret = mapFailed then w.mapped else fun i => w.mapped i || (ret ≤ i && i < ret + len)
  | .munmap addr len => fun i => w.mapped i && !(addr ≤ i && i < (addr : ℕ) + len)

def step (w : Process) (c : Call) : Checked Process := do
  let (ret, w') ← w.serve c
  return { w' with mapped := w.record ret c }

def start (m : Mem) (files : Files) : Process := ⟨⟨m, fun _ => none⟩, fun _ => none, files, fun _ => false⟩

end Process

end TouchHle.Memory.Mmap
