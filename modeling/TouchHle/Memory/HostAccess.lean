import TouchHle.Memory.Malloc

namespace TouchHle.Memory

open Lib

def Backing.size : Backing → ℕ
  | .guest => bytesLen
  | .nullStubPage | .nullWriteSink => pageSize

structure HostPtr where
  backing : Backing
  offset : ℕ

def Slice.asPtr (s : Slice) : HostPtr := ⟨s.backing, s.start⟩

def HostPtr.Inside (p : HostPtr) (n : ℕ) : Prop := p.offset + n ≤ p.backing.size

namespace Mem

def uncheckedBytesAt (_ : Mem) (ptr count : ℕ) : Slice :=
  if bytesLen < ptr + count then .standIn .nullStubPage ptr count else ⟨.guest, ptr, count⟩

def checkedMul (x y : ℕ) : Checked ℕ := if x * y < u32Bound then .ok (x * y) else .error .unwrap

def ptrAt (m : Mem) (ptr sizeOf count : ℕ) : Checked HostPtr := do
  let size ← checkedMul count sizeOf
  return (m.bytesAt ptr size).asPtr

def uncheckedPtrAt (m : Mem) (ptr sizeOf count : ℕ) : Checked HostPtr := do
  let size ← checkedMul count sizeOf
  return (m.uncheckedBytesAt ptr size).asPtr

def ptrAtMut (m : Mem) (ptr sizeOf count : ℕ) : Checked HostPtr := do
  let size ← checkedMul count sizeOf
  return (m.bytesAtMut ptr size).asPtr

def readPtr (m : Mem) (ptr sizeOf : ℕ) : Checked HostPtr := m.ptrAt ptr sizeOf 1

def writePtr (m : Mem) (ptr sizeOf : ℕ) : Checked HostPtr := do
  assert (0 < sizeOf)
  return (m.bytesAtMut ptr sizeOf).asPtr

def copyFromSlice (m : Mem) (s : Slice) (data : List UInt8) : Checked Mem :=
  if s.len = data.length then return m.store s data else .error .assertion

/-- So many bytes are there at the pointer, for each way to access them. -/
structure GivesExactly (m : Mem) (ptr count : ℕ) : Prop where
  bytesAt : (m.bytesAt ptr count).len = count
  uncheckedBytesAt : (m.uncheckedBytesAt ptr count).len = count
  bytesAtMut : (m.bytesAtMut ptr count).len = count
  arrays : ∀ sizeOf n, n * sizeOf = count → ∃ p q r, m.ptrAt ptr sizeOf n = .ok p ∧
    m.uncheckedPtrAt ptr sizeOf n = .ok q ∧ m.ptrAtMut ptr sizeOf n = .ok r ∧
      p.Inside count ∧ q.Inside count ∧ r.Inside count
  values : 0 < count → ∃ p q, m.readPtr ptr count = .ok p ∧ m.writePtr ptr count = .ok q ∧
    p.Inside count ∧ q.Inside count
  copies : ∀ data : List UInt8, data.length = count →
    ∃ m', m.copyFromSlice (m.bytesAtMut ptr count) data = .ok m'

def StaysInPage (m : Mem) (ptr count : ℕ) : Prop :=
  ptr < m.nullSegmentSize ∨ bytesLen < ptr + count → ptr % pageSize + count ≤ pageSize

instance (m : Mem) (ptr count : ℕ) : Decidable (m.StaysInPage ptr count) :=
  inferInstanceAs (Decidable (_ → _))

variable {m : Mem} {ptr count : ℕ}

lemma standIn_exact {page : Backing} (hpage : page.size = pageSize)
    (h : ptr % pageSize + count ≤ pageSize) :
    (Slice.standIn page ptr count).len = count ∧
      (Slice.standIn page ptr count).asPtr.Inside count := by
  refine ⟨min_eq_left (by omega), ?_⟩
  change ptr % pageSize + count ≤ page.size
  rwa [hpage]

lemma view_exact {page : Backing} (hpage : page.size = pageSize) (h : m.StaysInPage ptr count) :
    (m.view page ptr count).len = count ∧ (m.view page ptr count).asPtr.Inside count := by
  rw [view]
  split
  · rename_i hnull
    exact standIn_exact hpage (h (Or.inl hnull))
  split
  · rename_i hpast
    exact standIn_exact hpage (h (Or.inr hpast))
  · rename_i hpast
    exact ⟨rfl, not_lt.mp hpast⟩

lemma uncheckedBytesAt_exact (h : m.StaysInPage ptr count) :
    (m.uncheckedBytesAt ptr count).len = count ∧
      (m.uncheckedBytesAt ptr count).asPtr.Inside count := by
  rw [uncheckedBytesAt]
  split
  · rename_i hpast
    exact standIn_exact rfl (h (Or.inr hpast))
  · rename_i hpast
    exact ⟨rfl, not_lt.mp hpast⟩

lemma staysInPage_of_len (h : (m.bytesAt ptr count).len = count) : m.StaysInPage ptr count := by
  have hstand : (Slice.standIn .nullStubPage ptr count).len = count →
      ptr % pageSize + count ≤ pageSize := by
    intro hlen
    have hmod : ptr % pageSize < pageSize := Nat.mod_lt _ (by decide)
    have hle : count ≤ pageSize - ptr % pageSize := min_eq_left_iff.mp hlen
    omega
  intro hout
  apply hstand
  rw [bytesAt, view] at h
  rcases hout with hnull | hpast
  · rwa [if_pos hnull] at h
  · rw [if_pos hpast, ite_self] at h
    exact h

/-- Every access gives what is asked for exactly if it is inside guest memory and past the null
segment, or ends within the page that stands in. -/
theorem givesExactly_iff (m : Mem) (ptr count : GuestUSize) :
    m.GivesExactly ptr count ↔ m.StaysInPage ptr count := by
  constructor
  · exact fun h => staysInPage_of_len h.bytesAt
  intro h
  obtain ⟨hbytes, hread⟩ : (m.bytesAt ptr count).len = count ∧ _ := view_exact rfl h
  obtain ⟨hmut, hwrite⟩ : (m.bytesAtMut ptr count).len = count ∧ _ := view_exact rfl h
  obtain ⟨hraw, hunchecked⟩ := uncheckedBytesAt_exact h
  have hmul : ∀ sizeOf n : ℕ, n * sizeOf = count → checkedMul n sizeOf = .ok (count : ℕ) := by
    intro sizeOf n he
    rw [checkedMul, he, if_pos count.isLt]
  refine ⟨hbytes, hraw, hmut, fun sizeOf n he => ?_, fun hpos => ?_, fun data hdata => ?_⟩
  · exact ⟨_, _, _, by rw [ptrAt, hmul _ _ he]; rfl, by rw [uncheckedPtrAt, hmul _ _ he]; rfl,
      by rw [ptrAtMut, hmul _ _ he]; rfl, hread, hunchecked, hwrite⟩
  · refine ⟨_, _, by rw [readPtr, ptrAt, hmul _ _ (Nat.one_mul _)]; rfl, ?_, hread, hwrite⟩
    rw [writePtr, assert, if_pos hpos]
    rfl
  · exact ⟨_, if_pos (hmut.trans hdata.symm)⟩

theorem not_givesExactly_boot : ∃ m, boot true .onePage = .ok m ∧
    ¬ ∀ ptr count : GuestUSize, m.GivesExactly ptr count := by
  obtain ⟨m, hboot, hbooted⟩ := boot_ok true .onePage
  refine ⟨m, hboot, fun h => ?_⟩
  have hstays : m.StaysInPage 0xffe 4 := staysInPage_of_len (h 0xffe 4).bytesAt
  have hnull : (0xffe : ℕ) < m.nullSegmentSize := by
    rw [hbooted.nullSegmentSize]
    decide
  exact absurd (hstays (Or.inl hnull)) (by decide)

end Mem

end TouchHle.Memory
