import TouchHle.Lib.Bytes
import TouchHle.Memory.Growth

/-! Guest memory: the bytes of the address space, and the heap operations over the allocator. -/

namespace TouchHle.Memory

open Lib Except

def bytesLen : ℕ := 2 ^ 32 + 4096

/-- What a host slice of guest memory is backed by: guest memory itself, the zero-filled page read
in place of the null segment, or the page that absorbs writes to it. -/
inductive Backing
  | guest
  | nullStubPage
  | nullWriteSink
  deriving DecidableEq

structure Slice where
  backing : Backing
  start : ℕ
  len : ℕ

namespace Slice

def drop (s : Slice) (n : ℕ) : Checked Slice :=
  if n ≤ s.len then return ⟨s.backing, s.start + n, s.len - n⟩ else .error .index

def standIn (page : Backing) (ptr count : ℕ) : Slice :=
  let offset := ptr % pageSize
  ⟨page, offset, min count (pageSize - offset)⟩

end Slice

structure Mem where
  bytes : Bytes
  nullSegmentSize : ℕ
  allocator : Allocator
  zeroMemoryOnFree : Bool
  nullWriteSink : Bytes

namespace Mem

def new (zeroMemoryOnFree : Bool) : Checked Mem := do
  let allocator ← Allocator.new
  return ⟨fun _ => 0, 0, allocator, zeroMemoryOnFree, fun _ => 0⟩

def setNullSegmentSize (m : Mem) (newNullSegmentSize : ℕ) : Checked Mem := do
  assert (m.nullSegmentSize = 0)
  assert (newNullSegmentSize % 0x1000 = 0)
  let chunk ← Chunk.new 0 newNullSegmentSize
  let allocator ← m.allocator.reserve chunk
  return { m with allocator, nullSegmentSize := newNullSegmentSize }

def view (m : Mem) (page : Backing) (ptr count : ℕ) : Slice :=
  if ptr < m.nullSegmentSize then .standIn page ptr count
  else if bytesLen < ptr + count then .standIn page ptr count
  else ⟨.guest, ptr, count⟩

def bytesAt (m : Mem) (ptr count : ℕ) : Slice := m.view .nullStubPage ptr count

def bytesAtMut (m : Mem) (ptr count : ℕ) : Slice := m.view .nullWriteSink ptr count

def fill (m : Mem) (s : Slice) (v : UInt8) : Mem :=
  match s.backing with
  | .guest => { m with bytes := m.bytes.fill s.start s.len v }
  | .nullStubPage => m
  | .nullWriteSink => { m with nullWriteSink := m.nullWriteSink.fill s.start s.len v }

def sliceByte (m : Mem) (s : Slice) : UInt8 :=
  match s.backing with
  | .guest => m.bytes s.start
  | .nullStubPage => 0
  | .nullWriteSink => m.nullWriteSink s.start

def read (m : Mem) (ptr : ℕ) : UInt8 := m.sliceByte (m.bytesAt ptr 1)

def write (m : Mem) (ptr : ℕ) (v : UInt8) : Mem := m.fill (m.bytesAtMut ptr 1) v

def memmove (m : Mem) (dest src size : ℕ) : Mem :=
  if 0x80000000 ≤ size then m
  else if src = 0 ∧ 0 < size then m
  else if bytesLen < src + size then m
  else if bytesLen < dest + size then m
  else { m with bytes := m.bytes.copyWithin src size dest }

def zeroOnAlloc (m : Mem) (ptr size : ℕ) : Mem :=
  if !m.zeroMemoryOnFree then m.fill (m.bytesAtMut ptr size) 0 else m

def zeroOnFree (m : Mem) (ptr size : ℕ) : Mem :=
  if m.zeroMemoryOnFree then m.fill (m.bytesAtMut ptr size) 0 else m

def alloc (m : Mem) (size : ℕ) : Checked (ℕ × Mem) := do
  let (ptr, allocator) ← m.allocator.alloc size
  return (ptr, zeroOnAlloc { m with allocator } ptr size)

def calloc (m : Mem) (size : ℕ) : Checked (ℕ × Mem) := do
  let (ptr, m) ← m.alloc size
  return (ptr, m.fill (m.bytesAtMut ptr size) 0)

def machTaskSelf : ℕ := 0x7461736b

def free (m : Mem) (ptr : ℕ) : Checked Mem :=
  if ptr = 0 then return m
  else if ptr = machTaskSelf then return m
  else if !m.allocator.isKnownAllocation ptr then return m
  else do
    let (size, allocator) ← m.allocator.free ptr
    return zeroOnFree { m with allocator } ptr size

def zeroTail (m : Mem) (ptr oldSize grownSize : ℕ) : Checked Mem :=
  if m.zeroMemoryOnFree then do
    let tail ← (m.bytesAtMut ptr grownSize).drop oldSize
    return m.fill tail 0
  else return m

def relocate (m : Mem) (oldPtr oldSize size : ℕ) : Checked (ℕ × Mem) := do
  let (newPtr, m) ← m.alloc size
  let m := m.memmove newPtr oldPtr oldSize
  let m ← m.free oldPtr
  return (newPtr, m)

def realloc (m : Mem) (oldPtr size : ℕ) : Checked (ℕ × Mem) :=
  if oldPtr = 0 then m.alloc size
  else
    let oldSize := m.allocator.findAllocatedSize oldPtr
    if size ≤ oldSize then return (oldPtr, m)
    else do
      match ← m.allocator.growInPlace oldPtr oldSize size with
      | (some grownSize, allocator) =>
        let m ← zeroTail { m with allocator } oldPtr oldSize grownSize
        return (oldPtr, m)
      | (none, allocator) => relocate { m with allocator } oldPtr oldSize size

def reserve (m : Mem) (base size : ℕ) : Checked Mem :=
  if size = 0 then return m
  else do
    let chunk ← Chunk.new base size
    let allocator ← m.allocator.reserve chunk
    return { m with allocator }

end Mem

structure NullSegment where
  size : ℕ
  aligned : size % pageSize = 0
  size_le : size ≤ mainThreadStackLowEnd

def NullSegment.onePage : NullSegment := ⟨pageSize, by decide, by decide⟩

namespace Mem

def boot (zeroMemoryOnFree : Bool) (seg : NullSegment) : Checked Mem := do
  let m ← new zeroMemoryOnFree
  if seg.size = 0 then return m else m.setNullSegmentSize seg.size

inductive Request
  | reserve (base size : GuestUSize) (base_aligned : (base : ℕ) % pageSize = 0)
      (size_aligned : (size : ℕ) % pageSize = 0) (stop_le : (base : ℕ) + size ≤ u32Bound)
  | alloc (size : GuestUSize)
  | calloc (size : GuestUSize)
  | free (ptr : GuestUSize)
  | realloc (ptr size : GuestUSize)
  | write (addr : GuestUSize) (v : UInt8)

def serve (m : Mem) : Request → Checked (ℕ × Mem)
  | .reserve base size .. => Prod.mk 0 <$> m.reserve base size
  | .alloc size => m.alloc size
  | .calloc size => m.calloc size
  | .free ptr => Prod.mk 0 <$> m.free ptr
  | .realloc ptr size => m.realloc ptr size
  | .write addr v => return (0, m.write addr v)

def step (m : Mem) (r : Request) : Checked Mem := Prod.snd <$> m.serve r

lemma step_eq_ok {m m' : Mem} {r : Request} :
    m.step r = .ok m' ↔ ∃ ptr, m.serve r = .ok (ptr, m') := by
  unfold step
  cases m.serve r with
  | error e => simp [Functor.map, Except.map]
  | ok x =>
    obtain ⟨ptr, m''⟩ := x
    simp [Functor.map, Except.map, eq_comm]

structure Sound (m : Mem) : Prop where
  allocator : m.allocator.Sound
  null : 0 < m.nullSegmentSize →
    ∃ c ∈ m.allocator.usedChunks, c.base = 0 ∧ c.stop = m.nullSegmentSize

variable {m m' : Mem}

section Fill

@[simp] lemma fill_allocator (s : Slice) (v : UInt8) : (m.fill s v).allocator = m.allocator := by
  unfold fill
  split <;> rfl

@[simp] lemma fill_nullSegmentSize (s : Slice) (v : UInt8) :
    (m.fill s v).nullSegmentSize = m.nullSegmentSize := by
  unfold fill
  split <;> rfl

@[simp] lemma fill_zeroMemoryOnFree (s : Slice) (v : UInt8) :
    (m.fill s v).zeroMemoryOnFree = m.zeroMemoryOnFree := by
  unfold fill
  split <;> rfl

structure SameHeap (m m' : Mem) : Prop where
  allocator : m'.allocator = m.allocator
  nullSegmentSize : m'.nullSegmentSize = m.nullSegmentSize
  zeroMemoryOnFree : m'.zeroMemoryOnFree = m.zeroMemoryOnFree

lemma sameHeap_fill (s : Slice) (v : UInt8) : SameHeap m (m.fill s v) := ⟨by simp, by simp, by simp⟩

lemma sameHeap_zeroOnAlloc (ptr size : ℕ) : SameHeap m (m.zeroOnAlloc ptr size) := by
  unfold zeroOnAlloc
  split
  · exact sameHeap_fill _ _
  · exact ⟨rfl, rfl, rfl⟩

lemma sameHeap_zeroOnFree (ptr size : ℕ) : SameHeap m (m.zeroOnFree ptr size) := by
  unfold zeroOnFree
  split
  · exact sameHeap_fill _ _
  · exact ⟨rfl, rfl, rfl⟩

lemma sameHeap_memmove (dest src size : ℕ) : SameHeap m (m.memmove dest src size) := by
  unfold memmove
  split_ifs <;> exact ⟨rfl, rfl, rfl⟩

@[simp] lemma zeroOnAlloc_allocator (ptr size : ℕ) :
    (m.zeroOnAlloc ptr size).allocator = m.allocator := (sameHeap_zeroOnAlloc ptr size).allocator

@[simp] lemma zeroOnFree_allocator (ptr size : ℕ) :
    (m.zeroOnFree ptr size).allocator = m.allocator := (sameHeap_zeroOnFree ptr size).allocator

@[simp] lemma memmove_allocator (dest src size : ℕ) :
    (m.memmove dest src size).allocator = m.allocator := (sameHeap_memmove dest src size).allocator

@[simp] lemma write_allocator (addr : ℕ) (v : UInt8) : (m.write addr v).allocator = m.allocator :=
  fill_allocator _ _

lemma sameHeap_zeroTail {ptr oldSize grownSize : ℕ}
    (h : m.zeroTail ptr oldSize grownSize = .ok m') : SameHeap m m' := by
  unfold zeroTail at h
  split at h
  · obtain ⟨tail, -, h⟩ := bind_eq_ok.mp h
    obtain rfl := ok.inj h
    exact sameHeap_fill _ _
  · obtain rfl := ok.inj h
    exact ⟨rfl, rfl, rfl⟩

lemma SameHeap.sound (h : SameHeap m m') (hs : m.Sound) : m'.Sound where
  allocator := h.allocator ▸ hs.allocator
  null hn := by
    rw [h.allocator, h.nullSegmentSize]
    exact hs.null (h.nullSegmentSize ▸ hn)

lemma fill_bytes_outside {ptr count i : ℕ} (h : i < ptr ∨ ptr + count ≤ i) (v : UInt8) :
    (m.fill (m.bytesAtMut ptr count) v).bytes i = m.bytes i := by
  unfold bytesAtMut view
  split_ifs
  · rfl
  · rfl
  · exact Bytes.fill_outside h

lemma fill_bytes {ptr count : ℕ} (hn : m.nullSegmentSize ≤ ptr) (hl : ptr + count ≤ bytesLen)
    (v : UInt8) : (m.fill (m.bytesAtMut ptr count) v).bytes = m.bytes.fill ptr count v := by
  unfold bytesAtMut view
  rw [if_neg hn.not_gt, if_neg hl.not_gt]
  rfl

end Fill

section Specs

variable {size ptr : ℕ}

lemma Sound.of_stepped {a : Allocator} (h : m.Sound) (hs : m.allocator.Stepped a)
    (hnull : ∀ c ∈ m.allocator.usedChunks, c.base = 0 → c ∈ a.usedChunks) :
    Sound { m with allocator := a } where
  allocator := hs.sound h.allocator
  null hn := by
    obtain ⟨c, hc, hb, hstop⟩ := h.null hn
    exact ⟨c, hnull c hc hb, hb, hstop⟩

lemma alloc_ok (h : m.allocator.Sound) (hlt : size < u32Bound) :
    (m.alloc size = .ok (0, m.zeroOnAlloc 0 size) ∧ m.allocator.OutOfMemory size) ∨
      ∃ existing alloc a, m.alloc size =
          .ok (alloc.base, zeroOnAlloc { m with allocator := a } alloc.base size) ∧
        m.allocator.Allocates size existing alloc a := by
  rcases Allocator.alloc_ok h.wf hlt with ⟨hok, hoom⟩ | ⟨existing, alloc, a, hok, ha⟩
  · exact .inl ⟨by simp [alloc, hok], hoom⟩
  · exact .inr ⟨existing, alloc, a, by simp [Mem.alloc, hok], ha⟩

lemma alloc_sound (h : m.Sound) (hlt : size < u32Bound) (hok : m.alloc size = .ok (ptr, m')) :
    m'.Sound := by
  rcases alloc_ok h.allocator hlt with ⟨hok', -⟩ | ⟨existing, alloc, a, hok', ha⟩
  · obtain ⟨rfl, rfl⟩ := ok_pair_inj (hok'.symm.trans hok)
    exact (sameHeap_zeroOnAlloc _ _).sound h
  · obtain ⟨rfl, rfl⟩ := ok_pair_inj (hok'.symm.trans hok)
    exact (sameHeap_zeroOnAlloc _ _).sound
      (h.of_stepped (.allocated ha) fun c hc _ => (ha.used c).mpr (.inr hc))

lemma alloc_mode (hok : m.alloc size = .ok (ptr, m')) :
    m'.zeroMemoryOnFree = m.zeroMemoryOnFree := by
  obtain ⟨⟨p, a⟩, -, hok⟩ := bind_eq_ok.mp hok
  obtain ⟨-, rfl⟩ := ok_pair_inj hok
  exact (sameHeap_zeroOnAlloc _ _).zeroMemoryOnFree

inductive Freed (m : Mem) (ptr : ℕ) : Mem → Prop
  | ignored : ptr = 0 ∨ ptr = machTaskSelf ∨ (∀ c ∈ m.allocator.usedChunks, c.base ≠ ptr) →
      Freed m ptr m
  | freed {c : Chunk} {removed added : List Chunk} {a : Allocator} : ptr ≠ 0 →
      ptr ≠ machTaskSelf → c.base = ptr → c ≠ Allocator.mainThreadStack →
      m.allocator.Frees c removed added a →
      Freed m ptr (zeroOnFree { m with allocator := a } ptr c.size.get)

lemma free_cases (h : m.allocator.Sound) (hok : m.free ptr = .ok m') : m.Freed ptr m' := by
  unfold free at hok
  split at hok
  · rename_i hp
    obtain rfl := ok.inj hok
    exact .ignored (.inl hp)
  split at hok
  · rename_i hp
    obtain rfl := ok.inj hok
    exact .ignored (.inr (.inl hp))
  rename_i hnull htask
  rcases m.allocator.exists_used_or ptr with ⟨c, hc, hb⟩ | hno
  · have hknown : m.allocator.isKnownAllocation ptr = true := by
      rw [Allocator.isKnownAllocation, ← hb, ChunkMap.getSizeWithBase_eq_some.mpr hc]
      rfl
    rw [hknown] at hok
    by_cases hmain : c.base = mainThreadStackLowEnd
    · obtain rfl := h.eq_stack hc hmain
      have hfault := Allocator.free_top hc Allocator.stop_mainThreadStack
      rw [hb] at hfault
      simp [hfault] at hok
    obtain ⟨removed, added, a, hfree, hf⟩ := Allocator.free_ok h.wf hc (h.used_stop_lt hc hmain)
      h.free_stop_lt
    rw [hb] at hfree
    simp only [hfree, Bool.not_true, Bool.false_eq_true, if_false, ok_bind, pure_eq_ok,
      Except.ok.injEq] at hok
    obtain rfl := hok
    refine .freed hnull htask hb ?_ hf
    rintro rfl
    exact hmain rfl
  · have hunknown : m.allocator.isKnownAllocation ptr = false := by
      rw [Allocator.isKnownAllocation, ChunkMap.getSizeWithBase_eq_none.mpr hno]
      rfl
    rw [hunknown] at hok
    obtain rfl := ok.inj hok
    exact .ignored (.inr (.inr hno))

lemma free_mode (hok : m.free ptr = .ok m') : m'.zeroMemoryOnFree = m.zeroMemoryOnFree := by
  unfold free at hok
  split_ifs at hok
  · rw [ok.inj hok]
  · rw [ok.inj hok]
  · rw [ok.inj hok]
  · obtain ⟨⟨size, a⟩, -, hok⟩ := bind_eq_ok.mp hok
    obtain rfl := ok.inj hok
    exact (sameHeap_zeroOnFree _ _).zeroMemoryOnFree

lemma Freed.sound (h : m.Sound) (hf : m.Freed ptr m') : m'.Sound := by
  cases hf with
  | ignored => exact h
  | freed hne _ hb hmain hf =>
    refine (sameHeap_zeroOnFree _ _).sound (h.of_stepped (.freed hmain hf) fun c hc hcb => ?_)
    refine (hf.used c).mpr ⟨hc, ?_⟩
    rintro rfl
    exact hne (hb.symm.trans hcb)

def NoRoom (a : Allocator) (ptr size : ℕ) : Prop :=
  ∀ old ∈ a.usedChunks, old.base = ptr →
    old ≠ Allocator.mainThreadStack ∧ ∀ c, ¬ a.RoomIn old size c

inductive Reallocated (m : Mem) (ptr size : ℕ) : ℕ → Mem → Prop
  | fresh {newPtr : ℕ} {m' : Mem} : ptr = 0 → m.alloc size = .ok (newPtr, m') →
      Reallocated m ptr size newPtr m'
  | enough : ptr ≠ 0 → size ≤ m.allocator.findAllocatedSize ptr → Reallocated m ptr size ptr m
  | inPlace {old adjacent grown : Chunk} {a : Allocator} {m' : Mem} : ptr ≠ 0 → old.base = ptr →
      old ≠ Allocator.mainThreadStack → m.allocator.Grows old size adjacent grown a →
      zeroTail { m with allocator := a } ptr old.size.get grown.size.get = .ok m' →
      Reallocated m ptr size ptr m'
  | moved {a : Allocator} {newPtr : ℕ} {m' : Mem} : ptr ≠ 0 →
      m.allocator.findAllocatedSize ptr < size → NoRoom m.allocator ptr size →
      a.unusedChunks.Coherent → m.allocator.SameChunks a →
      relocate { m with allocator := a } ptr (m.allocator.findAllocatedSize ptr) size =
        .ok (newPtr, m') → Reallocated m ptr size newPtr m'

lemma relocate_eq_ok {oldSize newPtr : ℕ} : m.relocate ptr oldSize size = .ok (newPtr, m') ↔
    ∃ m₁, m.alloc size = .ok (newPtr, m₁) ∧ (m₁.memmove newPtr ptr oldSize).free ptr = .ok m' := by
  unfold relocate
  rw [bind_eq_ok]
  constructor
  · rintro ⟨⟨p, m₁⟩, halloc, hok⟩
    obtain ⟨m₂, hfree, hok⟩ := bind_eq_ok.mp hok
    obtain ⟨rfl, rfl⟩ := ok_pair_inj hok
    exact ⟨m₁, halloc, hfree⟩
  · rintro ⟨m₁, halloc, hfree⟩
    exact ⟨(newPtr, m₁), halloc, by simp [hfree]⟩

lemma realloc_cases (h : m.allocator.Sound) {newPtr : ℕ}
    (hok : m.realloc ptr size = .ok (newPtr, m')) : m.Reallocated ptr size newPtr m' := by
  unfold realloc at hok
  split at hok
  · rename_i hp
    exact .fresh hp hok
  rename_i hp
  dsimp only at hok
  split at hok
  · rename_i hle
    obtain ⟨rfl, rfl⟩ := ok_pair_inj hok
    exact .enough hp hle
  rename_i hlt
  rcases m.allocator.exists_used_or ptr with ⟨old, hold, hb⟩ | hno
  · have hsize := Allocator.findAllocatedSize_of_mem hold
    rw [hb] at hsize
    have hnew : old.size.get < size := by omega
    by_cases hmain : old.base = mainThreadStackLowEnd
    · obtain rfl := h.eq_stack hold hmain
      have hfault := Allocator.growInPlace_top hold Allocator.stop_mainThreadStack hnew
      rw [hb, ← hsize] at hfault
      simp [hfault] at hok
    have hne : old ≠ Allocator.mainThreadStack := by
      rintro rfl
      exact hmain rfl
    rcases Allocator.growInPlace_ok h.wf hold hnew (h.used_stop_lt hold hmain) h.free_stop_lt with
      ⟨a, hgrow, hcoh, hsame, hroom⟩ | ⟨adjacent, grown, a, hgrow, hg⟩
    all_goals rw [hb, ← hsize] at hgrow
    · simp only [hgrow, ok_bind] at hok
      refine .moved hp (not_le.mp hlt) (fun old' hold' hb' => ?_) hcoh hsame hok
      obtain rfl := ChunkMap.eq_of_base hold' hold (hb'.trans hb.symm)
      exact ⟨hne, hroom⟩
    · simp only [hgrow, ok_bind] at hok
      obtain ⟨m₁, htail, hok⟩ := bind_eq_ok.mp hok
      obtain ⟨rfl, rfl⟩ := ok_pair_inj hok
      rw [hsize] at htail
      exact .inPlace hp hb hne hg htail
  · have hsize : m.allocator.findAllocatedSize ptr = 0 := by
      rw [Allocator.findAllocatedSize, ChunkMap.getSizeWithBase_eq_none.mpr hno]
    simp only [hsize, Allocator.growInPlace_unknown hno, ok_bind] at hok
    rw [← hsize] at hok
    exact .moved hp (not_le.mp hlt) (fun old hold hb => absurd hb (hno old hold))
      h.wf.coherent (.refl _) hok

lemma Reallocated.sound (h : m.Sound) (hlt : size < u32Bound) {newPtr : ℕ}
    (hr : m.Reallocated ptr size newPtr m') : m'.Sound := by
  cases hr with
  | fresh _ hok => exact alloc_sound h hlt hok
  | enough => exact h
  | inPlace hp hb hmain hg htail =>
    refine (sameHeap_zeroTail htail).sound (h.of_stepped (.grown hmain hg) fun c hc hcb => ?_)
    refine (hg.used c).mpr (.inr ⟨hc, ?_⟩)
    rintro rfl
    exact hp (hb.symm.trans hcb)
  | moved hp _ _ hcoh hsame hok =>
    have h₀ := h.of_stepped (.same hcoh hsame) fun c hc _ => (hsame.1 c).mpr hc
    obtain ⟨m₁, hok, hfree⟩ := relocate_eq_ok.mp hok
    have h₁ := alloc_sound h₀ hlt hok
    have h₂ := SameHeap.sound (sameHeap_memmove newPtr ptr (m.allocator.findAllocatedSize ptr)) h₁
    exact (free_cases h₂.allocator hfree).sound h₂

lemma calloc_cases (hok : m.calloc size = .ok (ptr, m')) :
    ∃ m₁, m.alloc size = .ok (ptr, m₁) ∧ m' = m₁.fill (m₁.bytesAtMut ptr size) 0 := by
  obtain ⟨⟨p, m₁⟩, halloc, hok⟩ := bind_eq_ok.mp hok
  obtain ⟨rfl, rfl⟩ := ok_pair_inj hok
  exact ⟨m₁, halloc, rfl⟩

inductive Reserved (m : Mem) : Mem → Prop
  | skipped : Reserved m m
  | reserved {chunk c : Chunk} {a : Allocator} : Allocator.Reservable chunk →
      m.allocator.Reserves chunk c a → Reserved m { m with allocator := a }

lemma reserve_cases (h : m.allocator.Sound) {base size : ℕ} (hlt : size < u32Bound)
    (hb : base % pageSize = 0) (hs : size % pageSize = 0) (hstop : base + size ≤ u32Bound)
    (hok : m.reserve base size = .ok m') : m.Reserved m' := by
  unfold reserve at hok
  split at hok
  · obtain rfl := ok.inj hok
    exact .skipped
  · rename_i hne
    obtain ⟨chunk, hchunk, hcb, hcs⟩ := Chunk.exists_new _ _ (Nat.pos_of_ne_zero hne) hlt fun _ => hb
    have hr : Allocator.Reservable chunk := by
      refine ⟨hcb ▸ hb, ?_, ?_⟩
      · rw [Chunk.stop, hcb, hcs, Nat.add_mod, hb, hs]
        rfl
      · rwa [Chunk.stop, hcb, hcs]
    rw [hchunk, ok_bind] at hok
    rcases Allocator.reserve_ok h.wf hr.stop_le fun c _ => hr.leavesAligned c with ⟨hres, -⟩ | ⟨c, a, hres, hr'⟩
    · rw [hres, ok_bind] at hok
      obtain rfl := ok.inj hok
      exact .skipped
    · rw [hres, ok_bind] at hok
      obtain rfl := ok.inj hok
      exact .reserved hr hr'

lemma Reserved.sound (h : m.Sound) (hr : m.Reserved m') : m'.Sound := by
  cases hr with
  | skipped => exact h
  | reserved hr hres =>
    exact h.of_stepped (.reserved hr hres) fun c hc _ => (hres.used c).mpr (.inr hc)

lemma serve_sound (h : m.Sound) {r : Request} (hok : m.serve r = .ok (ptr, m')) : m'.Sound := by
  cases r with
  | reserve base size hb hs hstop =>
    obtain ⟨m₁, hres, hok⟩ := map_eq_ok.mp hok
    obtain ⟨rfl, rfl⟩ := Prod.mk.inj hok
    exact (reserve_cases h.allocator size.isLt hb hs hstop hres).sound h
  | alloc size => exact alloc_sound h size.isLt hok
  | calloc size =>
    obtain ⟨m₁, halloc, rfl⟩ := calloc_cases hok
    exact (sameHeap_fill _ _).sound (alloc_sound h size.isLt halloc)
  | free ptr =>
    obtain ⟨m₁, hfree, hok⟩ := map_eq_ok.mp hok
    obtain ⟨rfl, rfl⟩ := Prod.mk.inj hok
    exact (free_cases h.allocator hfree).sound h
  | realloc ptr size => exact (realloc_cases h.allocator hok).sound h size.isLt
  | write addr v =>
    obtain ⟨rfl, rfl⟩ := ok_pair_inj hok
    exact (sameHeap_fill _ _).sound h

lemma step_sound (h : m.Sound) {r : Request} (hok : m.step r = .ok m') : m'.Sound := by
  obtain ⟨ptr, hok⟩ := step_eq_ok.mp hok
  exact serve_sound h hok

end Specs

section Boot

/-- The memory of a freshly loaded program: all zero, with the null segment and the main thread's
stack in use and the rest free. -/
structure Booted (zof : Bool) (seg : NullSegment) (m : Mem) : Prop where
  sound : m.Sound
  bytes : ∀ i, m.bytes i = 0
  nullSegmentSize : m.nullSegmentSize = seg.size
  zeroMemoryOnFree : m.zeroMemoryOnFree = zof
  used : ∀ c ∈ m.allocator.usedChunks,
    c = Allocator.mainThreadStack ∨ (c.base = 0 ∧ c.stop = seg.size)
  unused : ∀ c ∈ m.allocator.unusedChunks, c.base = seg.size ∧ c.stop = mainThreadStackLowEnd

lemma boot_ok (zof : Bool) (seg : NullSegment) : ∃ m, boot zof seg = .ok m ∧ Booted zof seg m := by
  obtain ⟨a, hnew, hwf, hused, hunused⟩ := Allocator.new_ok
  have hsound : a.Sound := ⟨hwf, (hused _).mpr rfl⟩
  by_cases hseg : seg.size = 0
  · refine ⟨⟨fun _ => 0, 0, a, zof, fun _ => 0⟩, by simp [boot, new, hnew, hseg],
      ⟨hsound, fun h => absurd h (lt_irrefl 0)⟩, fun _ => rfl, hseg.symm, rfl,
      fun c hc => .inl ((hused c).mp hc), fun c hc => ?_⟩
    rw [hseg]
    exact (hunused c).mp hc
  · have hlt : seg.size < u32Bound := seg.size_le.trans_lt Allocator.mainThreadStackLowEnd_lt
    obtain ⟨chunk, hchunk, hcb, hcs⟩ := Chunk.exists_new 0 _ (Nat.pos_of_ne_zero hseg) hlt
      fun _ => rfl
    have hstop : chunk.stop = seg.size := by rw [Chunk.stop, hcb, hcs, zero_add]
    have hr : Allocator.Reservable chunk :=
      ⟨by rw [hcb]; rfl, by rw [hstop, seg.aligned], by omega⟩
    rcases Allocator.reserve_ok hwf hr.stop_le fun c _ => hr.leavesAligned c with ⟨-, hno⟩ | ⟨c, a', hres, hr'⟩
    · have hfree := (hunused ⟨0, mainThreadStackLowEnd, by decide, by decide⟩).mpr
        ⟨rfl, zero_add _⟩
      refine absurd ⟨hcb.ge, ?_⟩ (hno _ hfree)
      rw [hstop]
      exact seg.size_le.trans (zero_add _).ge
    have hsound' : a'.Sound := Allocator.Stepped.sound hsound (.reserved hr hr')
    refine ⟨⟨fun _ => 0, seg.size, a', zof, fun _ => 0⟩, ?_, ⟨hsound', fun _ => ?_⟩, fun _ => rfl,
      rfl, rfl, fun d hd => ?_, fun d hd => ?_⟩
    · have hal : seg.size % 0x1000 = 0 := seg.aligned
      simp [boot, new, hnew, hseg, setNullSegmentSize, hal, hchunk, hres]
    · exact ⟨chunk, (hr'.used _).mpr (.inl rfl), hcb, hstop⟩
    · rcases (hr'.used d).mp hd with rfl | hd
      · exact .inr ⟨hcb, hstop⟩
      · exact .inl ((hused d).mp hd)
    · obtain ⟨hc0, hcstop⟩ := (hunused c).mp hr'.mem
      rcases (hr'.unused d).mp hd with ⟨hd | hd, -⟩ | ⟨hd, hne⟩
      · obtain ⟨-, hds⟩ := Chunk.below_eq_some.mp hd
        have := d.size.pos
        omega
      · obtain ⟨hdb, hds⟩ := Chunk.above_eq_some.mp hd
        have := d.size.pos
        refine ⟨hdb.trans hstop, ?_⟩
        rw [Chunk.stop, hds, hdb, hcstop]
        omega
      · obtain ⟨hd0, -⟩ := (hunused d).mp hd
        exact absurd (ChunkMap.eq_of_base hd hr'.mem (hd0.trans hc0.symm)) hne

def exec (zof : Bool) (seg : NullSegment) (requests : List Request) : Checked Mem := do
  let m ← boot zof seg
  run step m requests

def Throughout (p : Mem → Request → Prop) (zof : Bool) (seg : NullSegment)
    (requests : List Request) : Prop :=
  ∀ m, boot zof seg = .ok m → Along step p m requests

theorem exec_preserves {I : Mem → Prop} {p : Mem → Request → Prop} {zof : Bool} {seg : NullSegment}
    {requests : List Request} {m : Mem}
    (hboot : ∀ m, Booted zof seg m → I m)
    (hstep : ∀ m r m', m.Sound → I m → p m r → m.step r = .ok m' → I m')
    (hp : Throughout p zof seg requests) (hok : exec zof seg requests = .ok m) :
    m.Sound ∧ I m := by
  obtain ⟨m₀, hm₀, hbooted⟩ := boot_ok zof seg
  rw [exec, hm₀, ok_bind] at hok
  refine run_preserves (I := fun m => m.Sound ∧ I m) (fun m r m' hI hr hok => ?_)
    ⟨hbooted.sound, hboot m₀ hbooted⟩ (hp m₀ hm₀) hok
  exact ⟨step_sound hI.1 hok, hstep m r m' hI.1 hI.2 hr hok⟩

lemma throughout_true {zof : Bool} {seg : NullSegment} {requests : List Request} :
    Throughout (fun _ _ => True) zof seg requests :=
  fun _ _ => along_of_forall (p := fun _ => True) fun _ _ => trivial

end Boot

end Mem

end TouchHle.Memory
