import TouchHle.Memory.Growth

namespace TouchHle.Memory

open Lib List Except

lemma Carved.mem_range {e alloc : Chunk} {size : ℕ} {pieces : List Chunk}
    (h : Carved e size alloc pieces) (n : ℕ) :
    (n ∈ alloc.range ∨ ∃ p ∈ pieces, n ∈ p.range) ↔ n ∈ e.range := by
  cases h with
  | whole => simp
  | @cut _ rump hb _ hrb hrs =>
    have := alloc.base_lt_stop
    have := rump.base_lt_stop
    simp only [mem_singleton, exists_eq_left, Chunk.mem_range]
    omega
  | @realign _ left right _ hb _ hlb hls hrb hrs =>
    have := alloc.base_lt_stop
    have := left.base_lt_stop
    have := right.base_lt_stop
    simp only [mem_cons, not_mem_nil, or_false, exists_eq_or_imp, exists_eq_left,
      Chunk.mem_range]
    omega

lemma Grown.mem_range {old adjacent grown : Chunk} {newSize : ℕ} {pieces : List Chunk}
    (h : Grown old newSize adjacent grown pieces) (hab : adjacent.base = old.stop) (n : ℕ) :
    (n ∈ grown.range ∨ ∃ p ∈ pieces, n ∈ p.range) ↔ n ∈ old.range ∨ n ∈ adjacent.range := by
  have := old.base_lt_stop
  have := adjacent.base_lt_stop
  cases h with
  | takeover _ hb hs =>
    simp only [not_mem_nil, false_and, exists_false, or_false, Chunk.mem_range]
    omega
  | @split rest _ hb _ hrb hrs =>
    have := grown.base_lt_stop
    have := rest.base_lt_stop
    simp only [mem_singleton, exists_eq_left, Chunk.mem_range]
    omega

lemma Allocator.Coalesced.mem_range {freed : Chunk} {removed added : List Chunk}
    (h : Coalesced freed removed added) (n : ℕ) :
    (∃ t ∈ added, n ∈ t.range) ↔ n ∈ freed.range ∨ ∃ r ∈ removed, n ∈ r.range := by
  cases h with
  | alone => simp
  | apart => simp [or_comm]
  | @merged adjacent combined hadj hb hs =>
    simp only [mem_singleton, exists_eq_left, Chunk.mem_range, Chunk.stop] at *
    omega

namespace Allocator

def covered (a : Allocator) : Set ℕ := {n | ∃ x ∈ a.layout, n ∈ x.2.range}

variable {a a' : Allocator}

lemma mem_covered_of_used {c : Chunk} (hc : c ∈ a.usedChunks) {n : ℕ} (hn : n ∈ c.range) :
    n ∈ a.covered := ⟨(.used, c), hc, hn⟩

lemma mem_covered_of_free {c : Chunk} (hc : c ∈ a.unusedChunks) {n : ℕ} (hn : n ∈ c.range) :
    n ∈ a.covered := ⟨(.free, c), hc, hn⟩

lemma covered_exchange (R T : List (Use × Chunk)) (hR : ∀ r ∈ R, r ∈ a.layout)
    (hmem : ∀ x, x ∈ a'.layout ↔ x ∈ T ∨ (x ∈ a.layout ∧ x ∉ R))
    (hsame : ∀ n, (∃ t ∈ T, n ∈ t.2.range) ↔ ∃ r ∈ R, n ∈ r.2.range) : a'.covered = a.covered := by
  ext n
  constructor
  · rintro ⟨x, hx, hn⟩
    rcases (hmem x).mp hx with hx | ⟨hx, -⟩
    · obtain ⟨r, hr, hn⟩ := (hsame n).mp ⟨x, hx, hn⟩
      exact ⟨r, hR r hr, hn⟩
    · exact ⟨x, hx, hn⟩
  · rintro ⟨x, hx, hn⟩
    by_cases hxR : x ∈ R
    · obtain ⟨t, ht, hn⟩ := (hsame n).mpr ⟨x, hxR, hn⟩
      exact ⟨t, (hmem t).mpr (.inl ht), hn⟩
    · exact ⟨x, (hmem x).mpr (.inr ⟨hx, hxR⟩), hn⟩

lemma SameChunks.covered (h : SameChunks a a') : a'.covered = a.covered :=
  covered_exchange [] [] (by simp) (fun x => by simpa using h.mem_layout) (by simp)

lemma Allocates.covered {size : ℕ} {existing alloc : Chunk}
    (h : a.Allocates size existing alloc a') : a'.covered = a.covered := by
  obtain ⟨⟨n, -, hfit, pieces, hcarved, -, hfree⟩, hused⟩ := h
  refine covered_exchange [(.free, existing)] ((.used, alloc) :: pieces.map (Use.free, ·))
    (by simpa using hfit.1) ?_ fun n => by simpa using hcarved.mem_range n
  rintro ⟨_ | _, c⟩
  · simp [hused]
  · simp [hfree]

lemma Frees.covered (h : a.Wf) {freed : Chunk} {removed added : List Chunk}
    (hf : a.Frees freed removed added a') (hmin : minChunkSize ≤ freed.size.get) :
    a'.covered = a.covered := by
  obtain ⟨hmem, hremoved, hco, -, hused, hunused⟩ := hf
  have htrack : ∀ c ∈ added, Trackable c := by
    intro c hc
    cases hco with
    | alone =>
      obtain rfl := mem_singleton.mp hc
      exact hmin
    | apart =>
      rcases mem_pair.mp hc with rfl | rfl
      · exact h.coherent.minSize _ (hremoved _ (mem_singleton_self _))
      · exact hmin
    | merged _ _ hs =>
      obtain rfl := mem_singleton.mp hc
      exact hmin.trans (hs ▸ Nat.le_add_right _ _)
  refine covered_exchange ((.used, freed) :: removed.map (Use.free, ·)) (added.map (Use.free, ·))
    ?_ ?_ fun n => by simpa using hco.mem_range n
  · simpa [hmem] using hremoved
  · rintro ⟨_ | _, c⟩
    · simp [hused]
    · have hboth : c ∈ added ∧ Trackable c ↔ c ∈ added := and_iff_left_of_imp (htrack c)
      simp [hunused, hboth]

lemma Grows.covered {old adjacent grown : Chunk} {newSize : ℕ}
    (h : a.Grows old newSize adjacent grown a') : a'.covered = a.covered := by
  obtain ⟨hold, -, hroom, -, ⟨pieces, hgrown, -, hfree⟩, hused⟩ := h
  refine covered_exchange [(.used, old), (.free, adjacent)]
    ((.used, grown) :: pieces.map (Use.free, ·)) ?_ ?_
    fun n => by simpa using hgrown.mem_range hroom.base n
  · simpa using ⟨hold, hroom.mem⟩
  · rintro ⟨_ | _, c⟩
    · simp [hused]
    · simp [hfree]

section

variable {chunk c : Chunk}

def sliver (base stop : ℕ) : Finset ℕ :=
  if minChunkSize ≤ stop - base then ∅ else Finset.Ico base stop

lemma card_sliver (base stop : ℕ) : (sliver base stop).card < minChunkSize := by
  rw [sliver]
  split
  · decide
  · rw [Nat.card_Ico]
    omega

lemma Reserves.covered_subset (h : a.Reserves chunk c a') : a'.covered ⊆ a.covered := by
  obtain ⟨hc, ⟨hwb, hws⟩, -, hused, hunused⟩ := h
  have hin : ∀ n, c.base ≤ n → n < c.stop → n ∈ a.covered := fun n hb hs =>
    mem_covered_of_free hc (Chunk.mem_range.mpr ⟨hb, hs⟩)
  have := chunk.base_lt_stop
  rintro n ⟨⟨_ | _, d⟩, hd, hn⟩
  · rcases (hused d).mp hd with rfl | hd
    · obtain ⟨hb, hs⟩ := Chunk.mem_range.mp hn
      dsimp only at hb hs
      exact hin n (by omega) (by omega)
    · exact mem_covered_of_used hd hn
  · rcases (hunused d).mp hd with ⟨hd | hd, -⟩ | ⟨hd, -⟩
    · obtain ⟨hdb, hds⟩ := Chunk.below_eq_some.mp hd
      obtain ⟨hb, hs⟩ := Chunk.mem_range.mp hn
      have hstop : d.stop = d.base + d.size.get := rfl
      dsimp only at hb hs
      exact hin n (by omega) (by omega)
    · obtain ⟨hdb, hds⟩ := Chunk.above_eq_some.mp hd
      obtain ⟨hb, hs⟩ := Chunk.mem_range.mp hn
      have hstop : d.stop = d.base + d.size.get := rfl
      dsimp only at hb hs
      exact hin n (by omega) (by omega)
    · exact mem_covered_of_free hd hn

lemma Reserves.lost (h : a.Reserves chunk c a') :
    a.covered \ a'.covered ⊆ ↑(sliver c.base chunk.base ∪ sliver chunk.stop c.stop) := by
  obtain ⟨hc, ⟨hwb, hws⟩, -, hused, hunused⟩ := h
  have hcsize : c.stop = c.base + c.size.get := rfl
  have hclt := c.size.lt
  have hmid := chunk.base_lt_stop
  have hkept : ∀ d, (c.below chunk = some d ∨ c.above chunk = some d) → Trackable d →
      ∀ n ∈ d.range, n ∈ a'.covered := fun d hd ht n hn =>
    mem_covered_of_free ((hunused d).mpr (.inl ⟨hd, ht⟩)) hn
  rintro n ⟨⟨⟨_ | _, d⟩, hd, hn⟩, hout⟩
  · exact absurd (mem_covered_of_used ((hused d).mpr (.inr hd)) hn) hout
  by_cases hdc : d = c
  swap
  · exact absurd (mem_covered_of_free ((hunused d).mpr (.inr ⟨hd, hdc⟩)) hn) hout
  subst hdc
  obtain ⟨hb, hs⟩ := Chunk.mem_range.mp hn
  dsimp only at hb hs
  rw [Finset.coe_union]
  rcases lt_or_ge n chunk.base with hbelow | hmiddle
  · left
    by_cases hmin : minChunkSize ≤ chunk.base - d.base
    · have hsome : d.below chunk
          = some ⟨d.base, chunk.base - d.base, by omega, by omega⟩ :=
        Chunk.below_eq_some.mpr ⟨rfl, rfl⟩
      refine absurd (hkept _ (.inl hsome) hmin n (Chunk.mem_range.mpr ⟨hb, ?_⟩)) hout
      change n < d.base + (chunk.base - d.base)
      omega
    · simp only [sliver, if_neg hmin, Finset.coe_Ico]
      exact ⟨hb, hbelow⟩
  rcases lt_or_ge n chunk.stop with hinside | habove
  · exact absurd (mem_covered_of_used ((hused chunk).mpr (.inl rfl))
      (Chunk.mem_range.mpr ⟨hmiddle, hinside⟩)) hout
  · right
    by_cases hmin : minChunkSize ≤ d.stop - chunk.stop
    · have hsome : d.above chunk
          = some ⟨chunk.stop, d.stop - chunk.stop, by omega, by omega⟩ :=
        Chunk.above_eq_some.mpr ⟨rfl, rfl⟩
      refine absurd (hkept _ (.inr hsome) hmin n (Chunk.mem_range.mpr ⟨habove, ?_⟩)) hout
      change n < chunk.stop + (d.stop - chunk.stop)
      omega
    · simp only [sliver, if_neg hmin, Finset.coe_Ico]
      exact ⟨habove, hs⟩

lemma Reserves.encard_lost (h : a.Reserves chunk c a') :
    (a.covered \ a'.covered).encard < 2 * minChunkSize := by
  have hbelow := card_sliver c.base chunk.base
  have habove := card_sliver chunk.stop c.stop
  have hcard := Finset.card_union_le (sliver c.base chunk.base) (sliver chunk.stop c.stop)
  refine (Set.encard_le_encard h.lost).trans_lt ?_
  rw [Set.encard_coe_eq_coe_finsetCard]
  exact_mod_cast (by omega : (sliver c.base chunk.base ∪ sliver chunk.stop c.stop).card
    < 2 * minChunkSize)

lemma trisectBy_misaligned (hc : c.stop ≤ u32Bound) (hal : c.PageAligned) (hw : Within chunk c)
    (hbig : pageSize ≤ c.stop - chunk.stop) (hoff : chunk.stop % pageSize ≠ 0) :
    c.trisectBy chunk = .error .assertion := by
  obtain ⟨hb, hs⟩ := hw
  have hm := chunk.base_lt_stop
  have hin : chunk.base ∈ c.range := Chunk.mem_range.mpr ⟨hb, by omega⟩
  have hin' : chunk.stop - 1 ∈ c.range := Chunk.mem_range.mpr ⟨by omega, by omega⟩
  have hleft : Chunk.newUnlessEmpty (.ok c.base) (chunk.base - c.base) = .ok (c.below chunk) :=
    Chunk.newUnlessEmpty_ok (fun _ => rfl) (by omega)
      fun hp => hal (hp.trans (by unfold Chunk.stop at *; omega))
  have hpage : 0 < pageSize := by decide
  have hnext : addU32 (chunk.stop - 1) 1 = .ok chunk.stop := by
    rw [addU32_of_lt (by omega)]
    exact congrArg _ (by omega)
  have hright : Chunk.newUnlessEmpty (addU32 (chunk.stop - 1) 1) (c.stop - 1 - (chunk.stop - 1))
      = .error .assertion := by
    rw [Chunk.newUnlessEmpty, if_neg (by omega), hnext, ok_bind, Chunk.new, if_pos (by omega),
      Chunk.and_mask, assert, if_neg hoff]
    rfl
  simp only [Chunk.trisectBy, Chunk.contains_ok hc, hin, hin', ok_bind, Chunk.lastByte_ok hc,
    Chunk.lastByte_ok (hs.trans hc), decide_true, Bool.not_true, Bool.false_eq_true, if_false,
    subU32_of_le hb, subU32_of_le (show chunk.stop - 1 ≤ c.stop - 1 by omega), hleft, hright]
  rfl

lemma reserve_misaligned (h : a.Wf) (hstop : chunk.stop ≤ u32Bound) (hc : c ∈ a.unusedChunks)
    (hw : Within chunk c) (hbig : pageSize ≤ c.stop - chunk.stop)
    (hoff : chunk.stop % pageSize ≠ 0) : a.reserve chunk = .error .assertion := by
  have honly : ∀ d ∈ a.unusedChunks, Within chunk d → d = c := by
    intro d hd hwd
    by_contra hne
    have hsep := Chunk.disjoint_range.mp (h.tidy.disjoint d hd c hc hne)
    have hm := chunk.base_lt_stop
    unfold Within at hw hwd
    omega
  have hfind : ∀ l : List Chunk, (∀ d ∈ l, d ∈ a.unusedChunks) → c ∈ l →
      findToTrisect chunk l = .error .assertion := by
    intro l
    induction l with
    | nil => simp
    | cons d rest ih =>
      intro hl hcl
      have hd := hl d mem_cons_self
      by_cases hwd : Within chunk d
      · obtain rfl := honly d hd hwd
        rw [findToTrisect, trisectBy_misaligned (h.tidy.stop_le d hd) (h.tidy.aligned d hd) hw hbig
          hoff]
        rfl
      · have hrest : c ∈ rest := (mem_cons.mp hcl).resolve_left
          fun he => hwd (he ▸ hw)
        rw [findToTrisect, Chunk.trisectBy_outside (h.tidy.stop_le d hd) hstop hwd, ok_bind]
        exact ih (fun e he => hl e (mem_cons_of_mem _ he)) hrest
  rw [reserve, hfind _ (fun d hd => h.coherent.mem_iter.mp hd) (h.coherent.mem_iter.mpr hc)]
  rfl

end

/-- A call of the allocator, with any range of the address space to reserve. -/
inductive Call
  | reserve (chunk : Chunk) (aligned : chunk.PageAligned) (stop_le : chunk.stop ≤ u32Bound)
  | alloc (size : GuestUSize)
  | free (base : GuestUSize)
  | growInPlace (base newSize : GuestUSize)

def serve (a : Allocator) : Call → Checked Allocator
  | .reserve chunk .. => a.reserve chunk
  | .alloc size => a.step (.alloc size)
  | .free base => a.step (.free base)
  | .growInPlace base newSize => a.step (.growInPlace base newSize)

/-- What growth in place gives: nothing, and no chunk changes, or a block that is large enough, with
only it and its right neighbour changed. -/
structure GrowsOrKeeps (a : Allocator) (base newSize : ℕ) (grown : Option ℕ) (a' : Allocator) :
    Prop where
  covered : a'.covered = a.covered
  kept : grown = none → a.SameChunks a'
  grown : ∀ size, grown = some size → newSize ≤ size ∧ ∃ old adjacent block, old.base = base ∧
    block.size.get = size ∧ a.Grows old newSize adjacent block a'

def Conserves (a : Allocator) : Call → Prop
  | .reserve chunk .. => ∃ a', a.reserve chunk = .ok a' ∧ a'.covered ⊆ a.covered ∧
      (a.covered \ a'.covered).encard < 2 * minChunkSize
  | .alloc size => ∃ ptr a', a.alloc size = .ok (ptr, a') ∧ a'.covered = a.covered
  | .free base => ∃ size a', a.free base = .ok (size, a') ∧
      ((∀ c ∈ a.usedChunks, c.base = (base : ℕ) → minChunkSize ≤ c.size.get) →
        a'.covered = a.covered)
  | .growInPlace base newSize => a.findAllocatedSize base < newSize → ∃ grown a',
      a.growInPlace base (a.findAllocatedSize base) newSize = .ok (grown, a') ∧
        a.GrowsOrKeeps base newSize grown a'

def Allowed (a : Allocator) : Call → Prop
  | .reserve chunk .. => ∀ c ∈ a.unusedChunks, LeavesAligned chunk c
  | .alloc _ => True
  | .free base => (base : ℕ) ≠ mainThreadStackLowEnd
  | .growInPlace base newSize =>
    (base : ℕ) = mainThreadStackLowEnd → (newSize : ℕ) ≤ mainThreadStackSize

lemma conserves_reserve (h : a.Sound) {chunk : Chunk} (hal : chunk.PageAligned)
    (hstop : chunk.stop ≤ u32Bound) (hr : ∀ c ∈ a.unusedChunks, LeavesAligned chunk c) :
    a.Conserves (.reserve chunk hal hstop) ∧ ∀ a', a.reserve chunk = .ok a' → a'.Sound := by
  rcases reserve_ok h.wf hstop hr with ⟨hok, -⟩ | ⟨c, a', hok, hres⟩
  · refine ⟨⟨a, hok, subset_rfl, ?_⟩, fun a' hok' => ?_⟩
    · rw [Set.sdiff_self, Set.encard_empty]
      decide
    · obtain rfl := ok.inj (hok.symm.trans hok')
      exact h
  · refine ⟨⟨a', hok, hres.covered_subset, hres.encard_lost⟩, fun a'' hok' => ?_⟩
    obtain rfl := ok.inj (hok.symm.trans hok')
    exact ⟨hres.wf h.wf hal (hr c hres.mem), (hres.used _).mpr (.inr h.stack)⟩

lemma conserves_alloc (h : a.Sound) (size : GuestUSize) : a.Conserves (.alloc size) := by
  rcases alloc_ok h.wf size.isLt with ⟨hok, -⟩ | ⟨existing, alloc, a', hok, ha⟩
  · exact ⟨0, a, hok, rfl⟩
  · exact ⟨alloc.base, a', hok, ha.covered⟩

lemma conserves_free (h : a.Sound) {base : GuestUSize} (hb : (base : ℕ) ≠ mainThreadStackLowEnd) :
    a.Conserves (.free base) := by
  rcases a.exists_used_or base with ⟨c, hc, hcb⟩ | hno
  · obtain ⟨removed, added, a', hok, hf⟩ :=
      free_ok h.wf hc (h.used_stop_lt hc (hcb ▸ hb)) h.free_stop_lt
    exact ⟨_, a', hcb ▸ hok, fun hmin => hf.covered h.wf (hmin c hc hcb)⟩
  · exact ⟨0, a, free_unknown hno, fun _ => rfl⟩

lemma conserves_growInPlace (h : a.Sound) {base newSize : GuestUSize}
    (hb : (base : ℕ) = mainThreadStackLowEnd → (newSize : ℕ) ≤ mainThreadStackSize) :
    a.Conserves (.growInPlace base newSize) := by
  intro hnew
  rcases a.exists_used_or base with ⟨c, hc, hcb⟩ | hno
  · have hsize := findAllocatedSize_of_mem hc
    rw [hcb] at hsize
    have hne : c.base ≠ mainThreadStackLowEnd := by
      intro he
      obtain rfl := h.eq_stack hc he
      rw [hsize] at hnew
      exact absurd (hb (hcb.symm.trans he)) (not_le.mpr hnew)
    rw [hsize] at hnew ⊢
    rcases growInPlace_ok h.wf hc hnew (h.used_stop_lt hc hne) h.free_stop_lt with
      ⟨a', hok, -, hsame, -⟩ | ⟨adjacent, grown, a', hok, hg⟩
    · exact ⟨none, a', hcb ▸ hok, hsame.covered, fun _ => hsame, by simp⟩
    · obtain ⟨pieces, hgrown, -⟩ := hg.pieces
      refine ⟨some grown.size.get, a', hcb ▸ hok, hg.covered, by simp, fun size hsome => ?_⟩
      obtain rfl := Option.some.inj hsome
      refine ⟨?_, c, adjacent, grown, hcb, rfl, hg⟩
      have henough := hg.room.enough
      rw [hg.size, grownTo]
      split <;> omega
  · have hsize : a.findAllocatedSize base = 0 := by
      rw [findAllocatedSize, ChunkMap.getSizeWithBase_eq_none.mpr hno]
    rw [hsize]
    exact ⟨none, a, growInPlace_unknown hno, rfl, fun _ => .refl a, by simp⟩

lemma conserves_of_allowed (h : a.Sound) {call : Call} (hc : a.Allowed call) :
    a.Conserves call := by
  cases call with
  | reserve chunk hal hstop => exact (conserves_reserve h hal hstop hc).1
  | alloc size => exact conserves_alloc h size
  | free base => exact conserves_free h hc
  | growInPlace base newSize => exact conserves_growInPlace h hc

lemma allowed_of_conserves (h : a.Sound) {call : Call} (hc : a.Conserves call) :
    a.Allowed call := by
  cases call with
  | reserve chunk hal hstop =>
    obtain ⟨a', hok, -⟩ := hc
    intro c hmem hw hbig
    by_contra hoff
    rw [reserve_misaligned h.wf hstop hmem hw hbig hoff] at hok
    cases hok
  | alloc size => trivial
  | free base =>
    obtain ⟨size, a', hok, -⟩ := hc
    intro hb
    have hb' : (base : ℕ) = mainThreadStack.base := hb
    rw [hb', free_top h.stack stop_mainThreadStack] at hok
    cases hok
  | growInPlace base newSize =>
    intro hb
    by_contra hlarge
    have hb' : (base : ℕ) = mainThreadStack.base := hb
    have hsize := findAllocatedSize_of_mem h.stack
    have hnew : mainThreadStack.size.get < (newSize : ℕ) := not_le.mp hlarge
    obtain ⟨grown, a', hok, -⟩ := hc (by rw [hb', hsize]; exact hnew)
    rw [hb', hsize, growInPlace_top h.stack stop_mainThreadStack hnew] at hok
    cases hok

lemma serve_sound (h : a.Sound) {call : Call} (hc : a.Allowed call)
    (hok : a.serve call = .ok a') : a'.Sound := by
  have hstep : ∀ {r : Request}, ¬ r.PastMainThreadStack → a.step r = .ok a' → a'.Sound := by
    intro r hr hok
    obtain ⟨a'', hok', hs⟩ := step_ok h hr
    obtain rfl := ok.inj (hok'.symm.trans hok)
    exact hs.sound h
  cases call with
  | reserve chunk hal hstop => exact (conserves_reserve h hal hstop hc).2 a' hok
  | alloc size => exact hstep (r := .alloc size) id hok
  | free base => exact hstep (r := .free base) hc hok
  | growInPlace base newSize =>
    exact hstep (r := .growInPlace base newSize) (fun hr => absurd (hc hr.1) (not_le.mpr hr.2)) hok

/-- In every run, each call returns and keeps what is covered, exactly if none names the stack of the
main thread, or reserves what would leave a page or more off a page boundary above it. -/
theorem conserves_iff_allowed (calls : List Call) :
    ∃ a, new = .ok a ∧ (Along serve Conserves a calls ↔ Along serve Allowed a calls) := by
  obtain ⟨a, hnew, hsound⟩ := new_sound
  refine ⟨a, hnew, along_iff_along (I := Sound) (l := fun _ _ => True)
    (fun a call h _ => ⟨allowed_of_conserves h, conserves_of_allowed h⟩)
    (fun a call a' h _ hc hok => serve_sound h hc hok) hsound
    (along_of_forall (p := fun _ => True) fun _ _ => trivial)⟩

def oddSegment : Chunk := ⟨0x1000, 0x1010, by decide, by decide⟩

theorem not_conserves_oddSegment :
    ¬ ∀ calls : List Call, ∃ a, new = .ok a ∧ Along serve Conserves a calls := by
  intro h
  obtain ⟨a, hnew, hreserve, -⟩ := h [.reserve oddSegment (by decide) (by decide)]
  obtain ⟨a', hnew', hwf, hused, hunused⟩ := new_ok
  obtain rfl := Except.ok.inj (hnew.symm.trans hnew')
  have hsound : a.Sound := ⟨hwf, (hused _).mpr rfl⟩
  have hfree := (hunused ⟨0, mainThreadStackLowEnd, by decide, by decide⟩).mpr ⟨rfl, Nat.zero_add _⟩
  exact absurd (allowed_of_conserves hsound hreserve _ hfree ⟨by decide, by decide⟩ (by decide))
    (by decide)

section

def NullPageReserved (a : Allocator) : Prop :=
  ∃ c ∈ a.usedChunks, c.base = 0 ∧ pageSize ≤ c.size.get

lemma NullPageReserved.base_pos (hnull : a.NullPageReserved) (h : a.Wf) {c : Chunk}
    (hc : c ∈ a.unusedChunks) : c.base ≠ 0 := by
  obtain ⟨null, hmem, hb, -⟩ := hnull
  have hne := used_base_ne h hc hmem (Chunk.mem_range.mpr ⟨le_rfl, c.base_lt_stop⟩)
  exact fun he => hne (hb.trans he.symm)

/-- The range is at the start of the smallest free chunk that is large enough, and no other free
chunk is touched. -/
structure TakesSmallest (a : Allocator) (size ptr : ℕ) (a' : Allocator) : Prop where
  fit : ∃ n existing alloc, alignedSize size = some n ∧ SmallestFit n (· ∈ a.unusedChunks) existing ∧
    ptr = existing.base ∧ alloc.base = ptr ∧ n ≤ alloc.size.get ∧ alloc.stop ≤ existing.stop ∧
    (∀ c, c ∈ a'.usedChunks ↔ c = alloc ∨ c ∈ a.usedChunks) ∧
    (∀ c ∈ a.unusedChunks, c ≠ existing → c ∈ a'.unusedChunks) ∧
    ∀ c ∈ a'.unusedChunks, c ∉ a.unusedChunks → alloc.stop ≤ c.base ∧ c.stop ≤ existing.stop

lemma Allocates.takesSmallest {size : ℕ} {existing alloc : Chunk}
    (h : a.Allocates size existing alloc a') : a.TakesSmallest size alloc.base a' := by
  obtain ⟨⟨n, hn, hfit, pieces, hcarved, -, hfree⟩, hused⟩ := h
  refine ⟨n, existing, alloc, hn, hfit, hcarved.base_eq, rfl, hcarved.size_le, hcarved.stop_le, hused,
    fun c hc hne => (hfree c).mpr (.inr ⟨hc, hne⟩), fun c hc hout => ?_⟩
  rcases (hfree c).mp hc with hc | ⟨hc, -⟩
  · exact hcarved.pieces_within c hc
  · exact absurd hc hout

/-- Null is returned exactly if the size cannot be rounded up or no free chunk is large enough, and
then nothing changes; else the smallest chunk that is large enough is taken. -/
theorem alloc_bestFit (h : a.Wf) (hnull : a.NullPageReserved) (size : GuestUSize) :
    ∃ ptr a', a.alloc size = .ok (ptr, a') ∧
      (ptr = 0 ↔ alignedSize size = none ∨
        ∃ n, alignedSize size = some n ∧ ∀ c ∈ a.unusedChunks, c.size.get < n) ∧
      (ptr = 0 → a' = a) ∧ (ptr ≠ 0 → a.TakesSmallest size ptr a') := by
  rcases alloc_ok h size.isLt with ⟨hok, hoom⟩ | ⟨existing, alloc, a', hok, ha⟩
  · refine ⟨0, a, hok, iff_of_true rfl ?_, fun _ => rfl, by simp⟩
    cases hn : alignedSize size with
    | none => exact Or.inl rfl
    | some n => exact Or.inr ⟨n, rfl, hoom n hn⟩
  · obtain ⟨n, hn, ⟨hmem, hle, -⟩, pieces, hcarved, -⟩ := ha.fit
    have hpos : alloc.base ≠ 0 := by
      rw [hcarved.base_eq]
      exact hnull.base_pos h hmem
    refine ⟨alloc.base, a', hok, iff_of_false hpos ?_, fun he => absurd he hpos,
      fun _ => ha.takesSmallest⟩
    rintro (hnone | ⟨n', hn', hsmall⟩)
    · cases hn.symm.trans hnone
    · obtain rfl := Option.some.inj (hn.symm.trans hn')
      exact absurd hle (not_le.mpr (hsmall existing hmem))

lemma exists_nullPageReserved : ∃ a : Allocator, a.Wf ∧ a.NullPageReserved := by
  obtain ⟨a, -, hwf, hused, hunused⟩ := new_ok
  have hchunk : Reservable ⟨0, pageSize, by decide, by decide⟩ := by decide
  have hfree := (hunused ⟨0, mainThreadStackLowEnd, by decide, by decide⟩).mpr ⟨rfl, zero_add _⟩
  rcases reserve_ok hwf hchunk.stop_le fun c _ => hchunk.leavesAligned c with
    ⟨-, hno⟩ | ⟨c, a', -, hres⟩
  · exact absurd ⟨by decide, by decide⟩ (hno _ hfree)
  · exact ⟨a', hres.wf hwf (by decide) (hchunk.leavesAligned c),
      _, (hres.used _).mpr (.inl rfl), rfl, le_rfl⟩

theorem alloc_bestFit_afterReserve : ∃ a : Allocator, a.Wf ∧ a.NullPageReserved ∧
    ∃ ptr a', a.alloc 100 = .ok (ptr, a') ∧ (ptr = 0 ↔ alignedSize 100 = none ∨
      ∃ n, alignedSize 100 = some n ∧ ∀ c ∈ a.unusedChunks, c.size.get < n) ∧
    (ptr = 0 → a' = a) ∧ (ptr ≠ 0 → a.TakesSmallest 100 ptr a') := by
  obtain ⟨a, h, hnull⟩ := exists_nullPageReserved
  exact ⟨a, h, hnull, alloc_bestFit h hnull 100⟩

end

end Allocator

end TouchHle.Memory
