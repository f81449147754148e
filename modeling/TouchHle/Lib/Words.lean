import Mathlib

/-! Memory of aligned words: writing a list of words, and doing many writes that keep apart. -/

namespace TouchHle.Lib

abbrev Words := ℕ → ℕ

namespace Words

def writeWords (mem : Words) (ptr : ℕ) : List ℕ → Words
  | [] => mem
  | w :: ws => writeWords (Function.update mem ptr w) (ptr + 4) ws

variable {mem mem' : Words} {ptr a w : ℕ} {ws : List ℕ}

lemma writeWords_outside (h : ∀ j < ws.length, a ≠ ptr + 4 * j) : mem.writeWords ptr ws a = mem a := by
  induction ws generalizing mem ptr with
  | nil => rfl
  | cons w ws ih =>
    rw [writeWords, ih]
    · exact Function.update_of_ne (h 0 (Nat.succ_pos _)) _ _
    · intro j hj heq
      exact h (j + 1) (Nat.succ_lt_succ hj) (by rw [heq]; ring)

lemma writeWords_inside {j : ℕ} (hj : j < ws.length) :
    mem.writeWords ptr ws (ptr + 4 * j) = ws[j] := by
  induction ws generalizing mem ptr j with
  | nil => exact absurd hj (Nat.not_lt_zero j)
  | cons w ws ih =>
    rw [writeWords]
    cases j with
    | zero =>
      rw [writeWords_outside]
      · exact Function.update_self _ _ _
      · omega
    | succ j =>
      have hlt : j < ws.length := Nat.lt_of_succ_lt_succ hj
      have heq : ptr + 4 * (j + 1) = ptr + 4 + 4 * j := by ring
      rw [heq, ih hlt]
      rfl

lemma foldl_apart {β : Type} (f : Words → β → Words) (foot : β → Set ℕ) (L : List β)
    (hframe : ∀ b ∈ L, ∀ mem a, a ∉ foot b → f mem b a = mem a)
    (hlocal : ∀ b ∈ L, ∀ mem mem', (∀ a ∈ foot b, mem a = mem' a) →
      ∀ a ∈ foot b, f mem b a = f mem' b a)
    (hapart : L.Pairwise fun b c => Disjoint (foot b) (foot c)) (mem : Words) :
    (∀ a, (∀ b ∈ L, a ∉ foot b) → L.foldl f mem a = mem a) ∧
      ∀ b ∈ L, ∀ a ∈ foot b, L.foldl f mem a = f mem b a := by
  induction L generalizing mem with
  | nil => exact ⟨fun _ _ => rfl, fun b hb => absurd hb List.not_mem_nil⟩
  | cons b L ih =>
    obtain ⟨hfirst, hrest⟩ := List.pairwise_cons.mp hapart
    obtain ⟨hout, hin⟩ := ih (fun c hc => hframe c (List.mem_cons_of_mem b hc))
      (fun c hc => hlocal c (List.mem_cons_of_mem b hc)) hrest (f mem b)
    refine ⟨fun a ha => ?_, fun c hc a ha => ?_⟩
    · rw [List.foldl_cons, hout a fun c hc => ha c (List.mem_cons_of_mem b hc)]
      exact hframe b List.mem_cons_self mem a (ha b List.mem_cons_self)
    · rw [List.foldl_cons]
      obtain rfl | hc' := List.mem_cons.mp hc
      · apply hout
        exact fun d hd => Set.disjoint_left.mp (hfirst d hd) ha
      · rw [hin c hc' a ha]
        apply hlocal c hc _ _ _ a ha
        intro a' ha'
        exact hframe b List.mem_cons_self mem a' (Set.disjoint_right.mp (hfirst c hc') ha')

end Words

end TouchHle.Lib
