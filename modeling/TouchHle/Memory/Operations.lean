import TouchHle.Memory.BestFit

namespace TouchHle.Memory

open Lib List SizeBucketedChunkMap ChunkMap

inductive Use
  | used
  | free
  deriving DecidableEq

namespace Allocator

def layout (a : Allocator) : Set (Use × Chunk) :=
  {x | match x.1 with
    | .used => x.2 ∈ a.usedChunks
    | .free => x.2 ∈ a.unusedChunks}

@[simp] lemma mem_layout_used {a : Allocator} {c : Chunk} :
    (Use.used, c) ∈ a.layout ↔ c ∈ a.usedChunks := .rfl

@[simp] lemma mem_layout_free {a : Allocator} {c : Chunk} :
    (Use.free, c) ∈ a.layout ↔ c ∈ a.unusedChunks := .rfl

/-- The representation invariant: chunks are pairwise disjoint, end at or below `2 ^ 32` and keep
page alignment, and the free list agrees with itself. -/
structure Wf (a : Allocator) : Prop where
  disjoint : a.layout.PairwiseDisjoint fun x => x.2.range
  stop_le : ∀ x ∈ a.layout, x.2.stop ≤ u32Bound
  aligned : ∀ x ∈ a.layout, x.2.PageAligned
  coherent : a.unusedChunks.Coherent

variable {a a' : Allocator}

lemma Wf.disjoint_of_ne (h : a.Wf) {x y : Use × Chunk} (hx : x ∈ a.layout) (hy : y ∈ a.layout)
    (hne : x ≠ y) : x.2.stop ≤ y.2.base ∨ y.2.stop ≤ x.2.base :=
  Chunk.disjoint_range.mp (h.disjoint hx hy hne)

lemma Wf.tidy (h : a.Wf) : a.unusedChunks.Tidy where
  coherent := h.coherent
  stop_le c hc := h.stop_le (.free, c) hc
  aligned c hc := h.aligned (.free, c) hc
  disjoint c hc d hd hne := h.disjoint (x := (.free, c)) hc (y := (.free, d)) hd (by simpa using hne)

lemma Wf.exchange (h : a.Wf) (R T : List (Use × Chunk)) (hR : ∀ r ∈ R, r ∈ a.layout)
    (hT : T.Pairwise fun x y => x.2.stop ≤ y.2.base ∨ y.2.stop ≤ x.2.base)
    (hcover : ∀ t ∈ T, ∀ n ∈ t.2.range, ∃ r ∈ R, n ∈ r.2.range)
    (hal : ∀ t ∈ T, t.2.PageAligned) (hcoh : a'.unusedChunks.Coherent)
    (hmem : ∀ x ∈ a'.layout, x ∈ T ∨ (x ∈ a.layout ∧ x ∉ R)) : a'.Wf where
  disjoint := by
    refine pairwiseDisjoint_replace (R := {r | r ∈ R}) (T := {t | t ∈ T}) h.disjoint hR ?_ ?_ hmem
    · have hs : Std.Symm fun x y : Use × Chunk => x.2.stop ≤ y.2.base ∨ y.2.stop ≤ x.2.base :=
        ⟨fun _ _ h => h.symm⟩
      intro x hx y hy hne
      exact Chunk.disjoint_range.mpr (hT.forall hx hy hne)
    · intro t ht n hn
      obtain ⟨r, hr, hrn⟩ := hcover t ht n hn
      exact Set.mem_biUnion hr hrn
  stop_le x hx := by
    rcases hmem x hx with hx | hx
    · have hl := x.2.base_lt_stop
      obtain ⟨r, hr, hn⟩ := hcover x hx (x.2.stop - 1) (Chunk.mem_range.mpr (by omega))
      have hb := h.stop_le r (hR r hr)
      have := (Chunk.mem_range.mp hn).2
      omega
    · exact h.stop_le x hx.1
  aligned x hx := by
    rcases hmem x hx with hx | hx
    · exact hal x hx
    · exact h.aligned x hx.1
  coherent := hcoh

def SameChunks (a a' : Allocator) : Prop :=
  (∀ c, c ∈ a'.usedChunks ↔ c ∈ a.usedChunks) ∧ ∀ c, c ∈ a'.unusedChunks ↔ c ∈ a.unusedChunks

lemma SameChunks.refl (a : Allocator) : SameChunks a a := ⟨fun _ => .rfl, fun _ => .rfl⟩

lemma SameChunks.mem_layout (h : SameChunks a a') {x : Use × Chunk} :
    x ∈ a'.layout ↔ x ∈ a.layout := by
  rcases x with ⟨_ | _, c⟩
  · exact h.1 c
  · exact h.2 c

lemma SameChunks.wf (hs : SameChunks a a') (h : a.Wf) (hcoh : a'.unusedChunks.Coherent) : a'.Wf :=
  h.exchange [] [] (by simp) .nil (by simp) (by simp) hcoh
    fun _ hx => .inr ⟨hs.mem_layout.mp hx, by simp⟩

def mainThreadStack : Chunk := ⟨mainThreadStackLowEnd, mainThreadStackSize, by decide, by decide⟩

lemma new_ok : ∃ a, new = .ok a ∧ a.Wf ∧ (∀ c, c ∈ a.usedChunks ↔ c = mainThreadStack) ∧
    ∀ c, c ∈ a.unusedChunks ↔ c.base = 0 ∧ c.stop = mainThreadStackLowEnd := by
  have hstack : Chunk.new mainThreadStackLowEnd mainThreadStackSize = .ok mainThreadStack :=
    Chunk.new_ok (by decide) (by decide) (by decide)
  obtain ⟨rest, hrest, hb, hs⟩ := Chunk.exists_new 0 mainThreadStackLowEnd
    (by decide) (by decide) (fun _ => rfl)
  have hstop : rest.stop = mainThreadStackLowEnd := by
    unfold Chunk.stop
    omega
  obtain ⟨used, hused, humem⟩ := insert_ok (m := .empty) (c := mainThreadStack)
    (fun d hd => absurd hd (not_mem_empty d))
  obtain ⟨unused, hunused, hcoh, hfmem⟩ := insert_ok
    empty_coherent (c := rest) (by rw [hs]; decide)
    (fun d hd => absurd hd (not_mem_empty d))
  have humem' : ∀ c, c ∈ used ↔ c = mainThreadStack := by simpa using humem
  have hfmem' : ∀ c, c ∈ unused ↔ c = rest := fun c =>
    (hfmem c).trans (or_iff_left (not_mem_empty c))
  refine ⟨⟨used, unused⟩, by simp [new, hstack, hrest, hused, hunused], ⟨?_, ?_, ?_, hcoh⟩, humem', ?_⟩
  · rintro ⟨_ | _, c⟩ hc ⟨_ | _, d⟩ hd hne
    · exact absurd (by rw [(humem' c).mp hc, (humem' d).mp hd]) hne
    · obtain rfl := (humem' c).mp hc
      obtain rfl := (hfmem' d).mp hd
      exact Chunk.disjoint_range.mpr (.inr hstop.le)
    · obtain rfl := (hfmem' c).mp hc
      obtain rfl := (humem' d).mp hd
      exact Chunk.disjoint_range.mpr (.inl hstop.le)
    · exact absurd (by rw [(hfmem' c).mp hc, (hfmem' d).mp hd]) hne
  · rintro ⟨_ | _, c⟩ hc
    · obtain rfl := (humem' c).mp hc
      decide
    · obtain rfl := (hfmem' c).mp hc
      exact hstop.trans_le (by decide)
  · rintro ⟨_ | _, c⟩ hc
    · obtain rfl := (humem' c).mp hc
      decide
    · obtain rfl := (hfmem' c).mp hc
      intro _
      show c.base % pageSize = 0
      rw [hb]
      rfl
  · intro c
    refine (hfmem' c).trans ⟨?_, ?_⟩
    · rintro rfl
      exact ⟨hb, hstop⟩
    · rintro ⟨hcb, hcs⟩
      rcases c with ⟨b, s, hp, hl⟩
      rcases rest with ⟨b', s', hp', hl'⟩
      simp only [Chunk.stop] at *
      obtain rfl : b = b' := by omega
      obtain rfl : s = s' := by omega
      rfl

end Allocator

lemma Carved.size_le {e alloc : Chunk} {size : ℕ} {pieces : List Chunk}
    (h : Carved e size alloc pieces) : size ≤ alloc.size.get := by
  cases h with
  | whole hle _ => exact hle
  | cut _ hs => exact hs.ge
  | realign _ _ hs => exact hs.ge

lemma Carved.base_eq {e alloc : Chunk} {size : ℕ} {pieces : List Chunk}
    (h : Carved e size alloc pieces) : alloc.base = e.base := by
  cases h with
  | whole => rfl
  | cut hb => exact hb
  | realign _ hb => exact hb

lemma Carved.stop_le {e alloc : Chunk} {size : ℕ} {pieces : List Chunk}
    (h : Carved e size alloc pieces) : alloc.stop ≤ e.stop := by
  cases h with
  | whole => exact le_rfl
  | @cut _ rump _ _ hb hs =>
    have := rump.base_lt_stop
    omega
  | @realign _ left right _ _ _ hlb hls hrb hrs =>
    have := left.base_lt_stop
    have := right.base_lt_stop
    omega

lemma Carved.pieces_within {e alloc : Chunk} {size : ℕ} {pieces : List Chunk}
    (h : Carved e size alloc pieces) : ∀ p ∈ pieces, alloc.stop ≤ p.base ∧ p.stop ≤ e.stop := by
  intro p hp
  cases h with
  | whole => simp at hp
  | cut _ _ hb hs =>
    obtain rfl := mem_singleton.mp hp
    exact ⟨hb.ge, hs.le⟩
  | @realign _ left right _ _ _ hlb hls hrb hrs =>
    have := left.base_lt_stop
    have := right.base_lt_stop
    rcases mem_cons.mp hp with rfl | hp
    · omega
    · obtain rfl := mem_singleton.mp hp
      omega

lemma Carved.pairwise {e alloc : Chunk} {size : ℕ} {pieces : List Chunk}
    (h : Carved e size alloc pieces) :
    pieces.Pairwise fun p q => p.stop ≤ q.base ∨ q.stop ≤ p.base := by
  cases h with
  | whole => exact .nil
  | cut => exact pairwise_singleton _ _
  | realign _ _ _ _ _ hrb => exact pairwise_pair.mpr (.inl hrb.ge)

lemma Carved.aligned {e alloc : Chunk} {size : ℕ} {pieces : List Chunk}
    (h : Carved e size alloc pieces) (he : e.PageAligned) :
    alloc.PageAligned ∧ ∀ p ∈ pieces, p.PageAligned := by
  have hb := h.base_eq
  have hst := h.stop_le
  refine ⟨fun hp => ?_, fun p hp => ?_⟩
  · rw [hb]
    refine he (hp.trans ?_)
    unfold Chunk.stop at hst
    omega
  · cases h with
    | whole => simp at hp
    | cut _ _ _ _ _ hal =>
      obtain rfl := mem_singleton.mp hp
      exact hal
    | @realign _ left right hbase hab has hlb hls hrb hrs hlmin hrmin =>
      rcases mem_cons.mp hp with rfl | hp
      · intro hbig
        have := alloc.size.pos
        unfold Chunk.stop at hlb hls
        omega
      · obtain rfl := mem_singleton.mp hp
        intro _
        rw [hrb, hls, Nat.add_mod_right]
        exact hbase

namespace Allocator

variable {a : Allocator}

lemma used_base_ne (h : a.Wf) {c d : Chunk} (hc : c ∈ a.unusedChunks) (hd : d ∈ a.usedChunks)
    {x : ℕ} (hx : x ∈ c.range) : d.base ≠ x := by
  have hsep := h.disjoint_of_ne (x := (.free, c)) (y := (.used, d)) hc hd (by simp)
  have hl := d.base_lt_stop
  have hx' := Chunk.mem_range.mp hx
  dsimp only at hsep
  omega

section

def OutOfMemory (a : Allocator) (size : ℕ) : Prop :=
  ∀ n, alignedSize size = some n → ∀ c ∈ a.unusedChunks, c.size.get < n

structure Allocates (a : Allocator) (size : ℕ) (existing alloc : Chunk) (a' : Allocator) :
    Prop where
  fit : ∃ n, alignedSize size = some n ∧ SmallestFit n (· ∈ a.unusedChunks) existing ∧
    a.unusedChunks.AllocatedFrom n existing alloc a'.unusedChunks
  used : ∀ c, c ∈ a'.usedChunks ↔ c = alloc ∨ c ∈ a.usedChunks

lemma Allocates.wf {existing alloc : Chunk} {a' : Allocator} {size : ℕ} (h : a.Wf)
    (ha : a.Allocates size existing alloc a') : a'.Wf := by
  obtain ⟨⟨n, -, ⟨hex, -, -⟩, pieces, hcarved, hcoh, hfree⟩, hused⟩ := ha
  have hbase := hcarved.base_eq
  have hstop := hcarved.stop_le
  have hwithin := hcarved.pieces_within
  have hal := hcarved.aligned (h.tidy.aligned existing hex)
  have halloc := alloc.base_lt_stop
  refine h.exchange [(.free, existing)] ((.used, alloc) :: pieces.map (Use.free, ·)) ?_ ?_ ?_ ?_ hcoh ?_
  · simpa using hex
  · refine pairwise_cons.mpr ⟨fun x hx => ?_, pairwise_map.mpr hcarved.pairwise⟩
    obtain ⟨p, hp, rfl⟩ := mem_map.mp hx
    exact .inl (hwithin p hp).1
  · intro t ht x hx
    refine ⟨_, mem_singleton_self _, Chunk.mem_range.mpr ?_⟩
    have hx' := Chunk.mem_range.mp hx
    rcases mem_cons.mp ht with rfl | ht
    · dsimp only at hx' ⊢
      omega
    · obtain ⟨p, hp, rfl⟩ := mem_map.mp ht
      have := hwithin p hp
      dsimp only at hx' ⊢
      omega
  · intro t ht
    rcases mem_cons.mp ht with rfl | ht
    · exact hal.1
    · obtain ⟨p, hp, rfl⟩ := mem_map.mp ht
      exact hal.2 p hp
  · rintro ⟨_ | _, c⟩ hc
    · rcases (hused c).mp hc with rfl | hc
      · exact .inl mem_cons_self
      · exact .inr ⟨hc, by simp⟩
    · rcases (hfree c).mp hc with hc | ⟨hc, hne⟩
      · exact .inl (mem_cons_of_mem _ (mem_map_of_mem hc))
      · exact .inr ⟨hc, by simpa using hne⟩

lemma alloc_ok (h : a.Wf) {size : ℕ} (hlt : size < u32Bound) :
    (a.alloc size = .ok (0, a) ∧ a.OutOfMemory size) ∨
      ∃ existing alloc a', a.alloc size = .ok (alloc.base, a') ∧
        a.Allocates size existing alloc a' := by
  cases hn : alignedSize size with
  | none =>
    refine .inl ⟨by simp [Allocator.alloc, hn], fun n hn' => ?_⟩
    rw [hn] at hn'
    simp at hn'
  | some n =>
    obtain ⟨hr, -⟩ := alignedSize_eq_some hn
    rcases allocate_ok h.tidy hr (alignedSize_lt hn hlt) with
      ⟨hnone, hsmall⟩ | ⟨existing, alloc, m', hsome, hfit, hfrom⟩
    · refine .inl ⟨by simp [Allocator.alloc, hn, hnone], fun n' hn' => ?_⟩
      obtain rfl := Option.some.inj (hn.symm.trans hn')
      exact hsmall
    · have hfresh : ∀ d ∈ a.usedChunks, d.base ≠ alloc.base := by
        obtain ⟨pieces, hcarved, -⟩ := hfrom
        intro d hd
        refine used_base_ne h hfit.1 hd (Chunk.mem_range.mpr ⟨hcarved.base_eq.ge, ?_⟩)
        rw [hcarved.base_eq]
        exact existing.base_lt_stop
      obtain ⟨used, hused, humem⟩ := insert_ok hfresh
      exact .inr ⟨existing, alloc, ⟨used, m'⟩, by simp [Allocator.alloc, hn, hsome, hused],
        ⟨⟨n, hn, hfit, hfrom⟩, humem⟩⟩

end

section

def Trackable (c : Chunk) : Prop := minChunkSize ≤ c.size.get

instance (c : Chunk) : Decidable (Trackable c) := inferInstanceAs (Decidable (_ ≤ _))

lemma insertIfTrackable_none (m : SizeBucketedChunkMap) : insertIfTrackable m none = .ok m := by
  simp [insertIfTrackable]

lemma insertIfTrackable_ok {m : SizeBucketedChunkMap} (h : m.Coherent) {c : Chunk}
    (hbase : ∀ d ∈ m, d.base ≠ c.base) :
    ∃ m', insertIfTrackable m (some c) = .ok m' ∧ m'.Coherent ∧
      ∀ d, d ∈ m' ↔ (d = c ∧ Trackable c) ∨ d ∈ m := by
  by_cases ht : Trackable c
  · obtain ⟨m', hm', hcoh, hmem⟩ := insert_ok h ht hbase
    have hf : minChunkSize ≤ c.size.get := ht
    refine ⟨m', by simp [insertIfTrackable, Option.filter, hf, hm'], hcoh, fun d => ?_⟩
    rw [hmem, and_iff_left ht]
  · have hf : ¬ minChunkSize ≤ c.size.get := ht
    refine ⟨m, by simp [insertIfTrackable, Option.filter, hf], h, fun d => ?_⟩
    simp [ht]

inductive Coalesced (freed : Chunk) : List Chunk → List Chunk → Prop
  | alone : Coalesced freed [] [freed]
  | apart {adjacent : Chunk} : adjacent.base = freed.stop ∨ adjacent.stop = freed.base →
      Coalesced freed [adjacent] [adjacent, freed]
  | merged {adjacent combined : Chunk} : adjacent.base = freed.stop ∨ adjacent.stop = freed.base →
      combined.base = min freed.base adjacent.base →
      combined.size.get = freed.size.get + adjacent.size.get → combined.PageAligned →
      Coalesced freed [adjacent] [combined]

structure Frees (a : Allocator) (freed : Chunk) (removed added : List Chunk) (a' : Allocator) :
    Prop where
  mem : freed ∈ a.usedChunks
  removed_free : ∀ c ∈ removed, c ∈ a.unusedChunks
  coalesced : Coalesced freed removed added
  coherent : a'.unusedChunks.Coherent
  used : ∀ c, c ∈ a'.usedChunks ↔ c ∈ a.usedChunks ∧ c ≠ freed
  unused : ∀ c, c ∈ a'.unusedChunks ↔
    (c ∈ added ∧ Trackable c) ∨ (c ∈ a.unusedChunks ∧ c ∉ removed)

lemma Coalesced.within {freed : Chunk} {removed added : List Chunk}
    (h : Coalesced freed removed added) :
    ∀ t ∈ added, ∀ n ∈ t.range, n ∈ freed.range ∨ ∃ r ∈ removed, n ∈ r.range := by
  intro t ht n hn
  cases h with
  | alone =>
    obtain rfl := mem_singleton.mp ht
    exact .inl hn
  | apart =>
    rcases mem_cons.mp ht with rfl | ht
    · exact .inr ⟨_, mem_singleton_self _, hn⟩
    · obtain rfl := mem_singleton.mp ht
      exact .inl hn
  | @merged adjacent _ hadj hb hs _ =>
    obtain rfl := mem_singleton.mp ht
    simp only [mem_singleton, exists_eq_left, Chunk.mem_range, Chunk.stop] at *
    omega

lemma Frees.wf (h : a.Wf) {freed : Chunk} {removed added : List Chunk} {a' : Allocator}
    (hf : a.Frees freed removed added a') : a'.Wf := by
  obtain ⟨hmem, hremoved, hco, hcoh, hused, hunused⟩ := hf
  have hfal := h.aligned (.used, freed) hmem
  refine h.exchange ((.used, freed) :: removed.map (Use.free, ·)) (added.map (Use.free, ·))
    ?_ ?_ ?_ ?_ hcoh ?_
  · intro r hr
    rcases mem_cons.mp hr with rfl | hr
    · exact hmem
    · obtain ⟨c, hc, rfl⟩ := mem_map.mp hr
      exact hremoved c hc
  · rw [pairwise_map]
    cases hco with
    | alone => exact pairwise_singleton _ _
    | apart hadj => exact pairwise_pair.mpr (hadj.symm.imp le_of_eq ge_of_eq)
    | merged => exact pairwise_singleton _ _
  · intro t ht n hn
    obtain ⟨c, hc, rfl⟩ := mem_map.mp ht
    rcases hco.within c hc n hn with hn | ⟨r, hr, hn⟩
    · exact ⟨_, mem_cons_self, hn⟩
    · exact ⟨_, mem_cons_of_mem _ (mem_map_of_mem hr), hn⟩
  · intro t ht
    obtain ⟨c, hc, rfl⟩ := mem_map.mp ht
    cases hco with
    | alone =>
      obtain rfl := mem_singleton.mp hc
      exact hfal
    | @apart adjacent =>
      rcases mem_cons.mp hc with rfl | hc
      · exact h.tidy.aligned c (hremoved c (mem_singleton_self c))
      · obtain rfl := mem_singleton.mp hc
        exact hfal
    | merged _ _ _ hal =>
      obtain rfl := mem_singleton.mp hc
      exact hal
  · rintro ⟨_ | _, c⟩ hc
    · obtain ⟨hc, hne⟩ := (hused c).mp hc
      exact .inr ⟨hc, by simpa using hne⟩
    · rcases (hunused c).mp hc with ⟨hc, -⟩ | ⟨hc, hnot⟩
      · exact .inl (mem_map_of_mem hc)
      · exact .inr ⟨hc, by simpa using hnot⟩

lemma takeAdjacent_ok (h : a.Wf) {freed : Chunk} (hmem : freed ∈ a.usedChunks)
    (hstop : freed.stop < u32Bound) :
    takeAdjacent a.unusedChunks freed = .ok none ∨
      ∃ adjacent m', takeAdjacent a.unusedChunks freed = .ok (some (adjacent, m')) ∧
        (adjacent.base = freed.stop ∨ adjacent.stop = freed.base) ∧
        a.unusedChunks.Taken adjacent m' := by
  obtain ⟨last, hlast, hnext⟩ := bind_eq_ok.mp (Chunk.lastByte_succ_ok hstop)
  have hl := freed.base_lt_stop
  rcases removeWithBase_ok h.coherent freed.stop with
    ⟨hnone, -⟩ | ⟨adjacent, m', hsome, hb, htaken⟩
  · have hbelow : ∀ c ∈ a.unusedChunks, c.base < freed.base → c.stop ≤ freed.base := by
      intro c hc hcb
      have hsep := h.disjoint_of_ne (x := (.free, c)) (y := (.used, freed)) hc hmem (by simp)
      dsimp only at hsep
      omega
    rcases removeWithEnd_ok h.coherent (hl.trans hstop) hbelow with
      hnone' | ⟨adjacent, m', hsome, hs, htaken⟩
    · exact .inl (by simp [takeAdjacent, hlast, hnext, hnone, hnone'])
    · exact .inr ⟨adjacent, m', by simp [takeAdjacent, hlast, hnext, hnone, hsome],
        .inr hs, htaken⟩
  · exact .inr ⟨adjacent, m', by simp [takeAdjacent, hlast, hnext, hsome], .inl hb, htaken⟩

lemma coalesce_ok (h : a.Wf) {freed : Chunk} (hmem : freed ∈ a.usedChunks)
    (hstop : freed.stop < u32Bound)
    (hroom : ∀ c ∈ a.unusedChunks, c.size.get + freed.size.get < u32Bound) :
    ∃ removed added m', coalesce a.unusedChunks freed = .ok m' ∧ Coalesced freed removed added ∧
      m'.Coherent ∧ (∀ c ∈ removed, c ∈ a.unusedChunks) ∧
      ∀ c, c ∈ m' ↔ (c ∈ added ∧ Trackable c) ∨ (c ∈ a.unusedChunks ∧ c ∉ removed) := by
  have hfresh : ∀ d ∈ a.unusedChunks, d.base ≠ freed.base := fun d hd he =>
    used_base_ne h hd hmem (Chunk.mem_range.mpr ⟨le_rfl, d.base_lt_stop⟩) he.symm
  rcases takeAdjacent_ok h hmem hstop with hnone | ⟨adjacent, m₀, hsome, hadj, hin, hcoh₀, hmem₀⟩
  · obtain ⟨m', hm', hcoh, hmem'⟩ := insertIfTrackable_ok h.coherent hfresh
    refine ⟨[], [freed], m', by simp [coalesce, hnone, hm'], .alone, hcoh, by simp, fun c => ?_⟩
    rw [hmem' c]
    simp only [mem_singleton, not_mem_nil, not_false_eq_true, and_true]
    exact or_congr_left (and_congr_right fun he => by rw [he])
  have hsize : addU32 freed.size.get adjacent.size.get =
      .ok (freed.size.get + adjacent.size.get) := by
    have := hroom adjacent hin
    exact addU32_of_lt (by omega)
  have hafresh : ∀ d ∈ m₀, d.base ≠ adjacent.base := by
    intro d hd he
    obtain ⟨hd, hne⟩ := (hmem₀ d).mp hd
    exact hne (eq_of_base hd hin he)
  by_cases hpage : pageSize ≤ freed.size.get + adjacent.size.get ∧
      min freed.base adjacent.base % pageSize ≠ 0
  · obtain ⟨m₁, hm₁, hcoh₁, hmem₁⟩ := insertIfTrackable_ok hcoh₀ hafresh
    obtain ⟨m', hm', hcoh, hmem'⟩ := insertIfTrackable_ok hcoh₁ (c := freed) (by
      intro d hd
      rcases (hmem₁ d).mp hd with ⟨rfl, -⟩ | hd
      · exact hfresh d hin
      · exact hfresh d ((hmem₀ d).mp hd).1)
    refine ⟨[adjacent], [adjacent, freed], m', ?_, .apart hadj, hcoh, by simpa using hin, ?_⟩
    · simp only [coalesce, hsome, ok_bind, hsize, Chunk.and_mask, if_pos hpage, hm₁, hm']
    · intro c
      rw [hmem' c, hmem₁ c, hmem₀ c]
      simp only [mem_cons, not_mem_nil, or_false]
      constructor
      · rintro (⟨rfl, ht⟩ | ⟨rfl, ht⟩ | hc)
        · exact .inl ⟨.inr rfl, ht⟩
        · exact .inl ⟨.inl rfl, ht⟩
        · exact .inr hc
      · rintro (⟨rfl | rfl, ht⟩ | hc)
        · exact .inr (.inl ⟨rfl, ht⟩)
        · exact .inl ⟨rfl, ht⟩
        · exact .inr (.inr hc)
  · have hal : pageSize ≤ freed.size.get + adjacent.size.get →
        min freed.base adjacent.base % pageSize = 0 :=
      fun hp => not_not.mp fun hne => hpage ⟨hp, hne⟩
    have hpos := freed.size.pos
    obtain ⟨combined, hnew, hcb, hcs⟩ := Chunk.exists_new _ _ (by omega)
      (by have := hroom adjacent hin; omega) hal
    obtain ⟨m', hm', hcoh, hmem'⟩ := insertIfTrackable_ok hcoh₀ (c := combined) (by
      intro d hd
      rw [hcb]
      rcases min_choice freed.base adjacent.base with he | he
      · rw [he]
        exact hfresh d ((hmem₀ d).mp hd).1
      · rw [he]
        exact hafresh d hd)
    refine ⟨[adjacent], [combined], m', ?_, .merged hadj hcb hcs ?_, hcoh, by simpa using hin, ?_⟩
    · simp only [coalesce, hsome, ok_bind, hsize, Chunk.and_mask, if_neg hpage, hnew, hm']
    · intro hp
      rw [hcb]
      exact hal (hcs ▸ hp)
    · intro c
      rw [hmem' c, hmem₀ c]
      simp only [mem_singleton]
      exact or_congr_left (and_congr_right fun he => by rw [he])

lemma free_ok (h : a.Wf) {freed : Chunk} (hmem : freed ∈ a.usedChunks)
    (hstop : freed.stop < u32Bound) (hbelow : ∀ c ∈ a.unusedChunks, c.stop < u32Bound) :
    ∃ removed added a', a.free freed.base = .ok (freed.size.get, a') ∧
      a.Frees freed removed added a' := by
  have hroom : ∀ c ∈ a.unusedChunks, c.size.get + freed.size.get < u32Bound := by
    intro c hc
    have hsep := h.disjoint_of_ne (x := (.free, c)) (y := (.used, freed)) hc hmem (by simp)
    have := hbelow c hc
    simp only [Chunk.stop] at *
    omega
  obtain ⟨removed, added, m', hm', hco, hcoh, hin, hfree⟩ := coalesce_ok h hmem hstop hroom
  obtain ⟨used, hused⟩ := removeWithBase_of_mem hmem
  obtain ⟨-, -, humem⟩ := removeWithBase_some hused
  exact ⟨removed, added, ⟨used, m'⟩, by simp [free, hused, hm'],
    hmem, hin, hco, hcoh, humem, hfree⟩

lemma free_unknown {base : ℕ} (h : ∀ c ∈ a.usedChunks, c.base ≠ base) :
    a.free base = .ok (0, a) := by
  simp [free, removeWithBase_eq_none.mpr h]

lemma free_top {freed : Chunk} (hmem : freed ∈ a.usedChunks) (hstop : freed.stop = u32Bound) :
    a.free freed.base = .error .overflow := by
  obtain ⟨used, hused⟩ := removeWithBase_of_mem hmem
  have hover : addU32 (freed.stop - 1) 1 = .error .overflow := by
    rw [hstop]
    decide
  simp [free, hused, coalesce, takeAdjacent, Chunk.lastByte_ok hstop.le, hover]

end

end Allocator

end TouchHle.Memory
