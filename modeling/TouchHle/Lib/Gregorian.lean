import Mathlib

/-! The proleptic Gregorian calendar: the days before a year and before a month of it. -/

namespace TouchHle.Lib.Gregorian

def isLeap (year : ℤ) : Bool := year % 4 = 0 ∧ (year % 100 ≠ 0 ∨ year % 400 = 0)

def yearLength (year : ℤ) : ℤ := if isLeap year then 366 else 365

def yearStart (year : ℤ) : ℤ :=
  365 * year + (year + 3) / 4 - (year + 99) / 100 + (year + 399) / 400

def monthLengths (leap : Bool) : List ℤ :=
  [31, if leap then 29 else 28, 31, 30, 31, 30, 31, 31, 30, 31, 30, 31]

def monthLength (leap : Bool) (month : ℕ) : ℤ := (monthLengths leap).getD month 0

def monthStart (leap : Bool) (month : ℕ) : ℤ := ((monthLengths leap).take month).sum

def dayNumber (year : ℤ) (month : ℕ) (day : ℤ) : ℤ :=
  yearStart year + monthStart (isLeap year) month + day

lemma isLeap_iff (year : ℤ) :
    isLeap year = true ↔ year % 4 = 0 ∧ (year % 100 ≠ 0 ∨ year % 400 = 0) := decide_eq_true_iff

lemma yearLength_cases (year : ℤ) :
    (isLeap year = true ∧ yearLength year = 366) ∨
      (isLeap year = false ∧ yearLength year = 365) := by
  rw [yearLength]
  cases isLeap year
  · exact Or.inr ⟨rfl, rfl⟩
  · exact Or.inl ⟨rfl, rfl⟩

lemma yearStart_succ (year : ℤ) : yearStart (year + 1) = yearStart year + yearLength year := by
  have hleap := isLeap_iff year
  rcases yearLength_cases year with ⟨h, hlength⟩ | ⟨h, hlength⟩
  · obtain ⟨h4, h100⟩ := hleap.mp h
    rw [hlength, yearStart, yearStart]
    omega
  · have hnot : ¬ (year % 4 = 0 ∧ (year % 100 ≠ 0 ∨ year % 400 = 0)) := by
      rw [← hleap, h]
      exact Bool.false_ne_true
    rw [hlength, yearStart, yearStart]
    omega

lemma yearStart_add_cycles (year n : ℤ) :
    yearStart (400 * n + year) = 146097 * n + yearStart year := by
  rw [yearStart, yearStart]
  omega

lemma isLeap_add_cycles (year n : ℤ) : isLeap (400 * n + year) = isLeap year := by
  rw [Bool.eq_iff_iff, isLeap_iff, isLeap_iff]
  omega

lemma sum_monthLengths (leap : Bool) : (monthLengths leap).sum = if leap then 366 else 365 := by
  cases leap <;> rfl

lemma monthStart_bounds (leap : Bool) (month : ℕ) :
    0 ≤ monthStart leap month ∧ monthStart leap month ≤ 366 := by
  have hlengths : ∀ length ∈ monthLengths leap, 0 ≤ length := by
    cases leap <;> decide
  constructor
  · exact List.sum_nonneg fun length h => hlengths length (List.mem_of_mem_take h)
  · have hsum := congrArg List.sum (List.take_append_drop month (monthLengths leap))
    have hdrop : 0 ≤ ((monthLengths leap).drop month).sum :=
      List.sum_nonneg fun length h => hlengths length (List.mem_of_mem_drop h)
    rw [List.sum_append, sum_monthLengths] at hsum
    rw [monthStart]
    split at hsum <;> omega

end TouchHle.Lib.Gregorian
