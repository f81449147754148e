import TouchHle.Memory.Operations
import TouchHle.Lib.Runs

namespace TouchHle.Memory

open Lib List ChunkMap SizeBucketedChunkMap

section Grown

def grownTo (oldSize newSize adjacentSize : ℕ) : ℕ :=
  if pageSize ≤ adjacentSize ∨ oldSize + adjacentSize < newSize + minChunkSize then
    oldSize + adjacentSize
  else newSize

/-- How a block takes over space from its free right neighbour: the larger block and what is left
of the neighbour. -/
inductive Grown (old : Chunk) (newSize : ℕ) (adjacent : Chunk) : Chunk → List Chunk → Prop
  | takeover {grown : Chunk} :
      pageSize ≤ adjacent.size.get ∨ old.size.get + adjacent.size.get < newSize + minChunkSize →
      grown.base = old.base → grown.stop = adjacent.stop → grown.PageAligned →
      Grown old newSize adjacent grown []
  | split {grown rest : Chunk} : adjacent.size.get < pageSize → grown.base = old.base →
      grown.size.get = newSize → rest.base = grown.stop → rest.stop = adjacent.stop →
      minChunkSize ≤ rest.size.get → grown.PageAligned → Grown old newSize adjacent grown [rest]

variable {old adjacent grown : Chunk} {newSize : ℕ} {pieces : List Chunk}

lemma Grown.base_eq (h : Grown old newSize adjacent grown pieces) : grown.base = old.base := by
  cases h with
  | takeover _ hb => exact hb
  | split _ hb => exact hb

lemma Grown.aligned (h : Grown old newSize adjacent grown pieces) : grown.PageAligned := by
  cases h with
  | takeover _ _ _ hal => exact hal
  | split _ _ _ _ _ _ hal => exact hal

lemma Grown.stop_le (h : Grown old newSize adjacent grown pieces) :
    grown.stop ≤ adjacent.stop := by
  cases h with
  | takeover _ _ hs => exact hs.le
  | @split rest _ _ _ hrb hrs =>
    have := rest.base_lt_stop
    omega

lemma Grown.pieces_within (h : Grown old newSize adjacent grown pieces) :
    ∀ p ∈ pieces, grown.stop ≤ p.base ∧ p.stop ≤ adjacent.stop := by
  intro p hp
  cases h with
  | takeover => simp at hp
  | split _ _ _ hrb hrs =>
    obtain rfl := mem_singleton.mp hp
    exact ⟨hrb.ge, hrs.le⟩

lemma Grown.pairwise (h : Grown old newSize adjacent grown pieces) :
    pieces.Pairwise fun p q => p.stop ≤ q.base ∨ q.stop ≤ p.base := by
  cases h with
  | takeover => exact .nil
  | split => exact pairwise_singleton _ _

end Grown

namespace Allocator

variable {a : Allocator}

section Grow

structure RoomIn (a : Allocator) (old : Chunk) (newSize : ℕ) (adjacent : Chunk) : Prop where
  mem : adjacent ∈ a.unusedChunks
  base : adjacent.base = old.stop
  enough : newSize ≤ old.size.get + adjacent.size.get
  aligned : pageSize ≤ grownTo old.size.get newSize adjacent.size.get → old.base % pageSize = 0

structure Grows (a : Allocator) (old : Chunk) (newSize : ℕ) (adjacent grown : Chunk)
    (a' : Allocator) : Prop where
  mem : old ∈ a.usedChunks
  larger : old.size.get < newSize
  room : a.RoomIn old newSize adjacent
  size : grown.size.get = grownTo old.size.get newSize adjacent.size.get
  pieces : ∃ pieces, Grown old newSize adjacent grown pieces ∧ a'.unusedChunks.Coherent ∧
    ∀ c, c ∈ a'.unusedChunks ↔ c ∈ pieces ∨ (c ∈ a.unusedChunks ∧ c ≠ adjacent)
  used : ∀ c, c ∈ a'.usedChunks ↔ c = grown ∨ (c ∈ a.usedChunks ∧ c ≠ old)

lemma Grows.wf (h : a.Wf) {old adjacent grown : Chunk} {newSize : ℕ} {a' : Allocator}
    (hg : a.Grows old newSize adjacent grown a') : a'.Wf := by
  obtain ⟨hold, hnew, ⟨hadj, hab, -, -⟩, -, ⟨pieces, hgrown, hcoh, hfree⟩, hused⟩ := hg
  have hb := hgrown.base_eq
  have hs := hgrown.stop_le
  have hwithin := hgrown.pieces_within
  have hg := grown.base_lt_stop
  have hcover : ∀ n, old.base ≤ n → n < adjacent.stop →
      n ∈ old.range ∨ n ∈ adjacent.range := by
    intro n hn hn'
    simp only [Chunk.mem_range]
    omega
  refine h.exchange [(.used, old), (.free, adjacent)]
    ((.used, grown) :: pieces.map (Use.free, ·)) ?_ ?_ ?_ ?_ hcoh ?_
  · intro r hr
    rcases mem_pair.mp hr with rfl | rfl
    · exact hold
    · exact hadj
  · refine pairwise_cons.mpr ⟨fun x hx => ?_, pairwise_map.mpr hgrown.pairwise⟩
    obtain ⟨p, hp, rfl⟩ := mem_map.mp hx
    exact .inl (hwithin p hp).1
  · intro t ht n hn
    have hn' := Chunk.mem_range.mp hn
    have hin : n ∈ old.range ∨ n ∈ adjacent.range := by
      rcases mem_cons.mp ht with rfl | ht
      · dsimp only at hn'
        exact hcover n (by omega) (by omega)
      · obtain ⟨p, hp, rfl⟩ := mem_map.mp ht
        have := hwithin p hp
        dsimp only at hn'
        exact hcover n (by omega) (by omega)
    rcases hin with hin | hin
    · exact ⟨_, mem_pair.mpr (.inl rfl), hin⟩
    · exact ⟨_, mem_pair.mpr (.inr rfl), hin⟩
  · intro t ht
    rcases mem_cons.mp ht with rfl | ht
    · exact hgrown.aligned
    · obtain ⟨p, hp, rfl⟩ := mem_map.mp ht
      cases hgrown with
      | takeover => simp at hp
      | split hsmall _ hgs hrb hrs =>
        obtain rfl := mem_singleton.mp hp
        intro hpage
        simp only [Chunk.stop] at *
        omega
  · rintro ⟨_ | _, c⟩ hc
    · rcases (hused c).mp hc with rfl | ⟨hc, hne⟩
      · exact .inl mem_cons_self
      · exact .inr ⟨hc, by simpa using hne⟩
    · rcases (hfree c).mp hc with hc | ⟨hc, hne⟩
      · exact .inl (mem_cons_of_mem _ (mem_map_of_mem hc))
      · exact .inr ⟨hc, by simpa using hne⟩

lemma grownSize_ok {oldSize newSize adjacentSize : ℕ} (hnew : oldSize < newSize)
    (hroom : newSize ≤ oldSize + adjacentSize) (hlt : oldSize + adjacentSize < u32Bound) :
    grownSize oldSize newSize adjacentSize (newSize - oldSize) =
      .ok (grownTo oldSize newSize adjacentSize) := by
  unfold grownSize grownTo
  by_cases hpage : pageSize ≤ adjacentSize
  · rw [if_pos hpage, if_pos (.inl hpage), addU32_of_lt hlt]
  rw [if_neg hpage, subU32_of_le (by omega), ok_bind]
  by_cases hsliver : adjacentSize - (newSize - oldSize) < minChunkSize
  · rw [if_pos hsliver, if_pos (.inr (by omega)), addU32_of_lt hlt]
  · rw [if_neg hsliver, if_neg (by omega)]
    rfl

lemma insertRemainder_ok {m : SizeBucketedChunkMap} (h : m.Coherent) {old adjacent grown : Chunk}
    {newSize : ℕ} (hab : adjacent.base = old.stop) (hlt : adjacent.stop < u32Bound)
    (hnew : old.size.get < newSize) (hroom : newSize ≤ old.size.get + adjacent.size.get)
    (hfresh : ∀ d ∈ m, Disjoint d.range adjacent.range) (hgb : grown.base = old.base)
    (hgs : grown.size.get = grownTo old.size.get newSize adjacent.size.get)
    (hal : grown.PageAligned) :
    ∃ pieces m', insertRemainder m adjacent.base adjacent.size.get (newSize - old.size.get) =
        .ok m' ∧ Grown old newSize adjacent grown pieces ∧ m'.Coherent ∧
      ∀ c, c ∈ m' ↔ c ∈ pieces ∨ c ∈ m := by
  have hstop : adjacent.stop = old.base + (old.size.get + adjacent.size.get) := by
    simp only [Chunk.stop] at *
    omega
  by_cases htake : pageSize ≤ adjacent.size.get ∨
      old.size.get + adjacent.size.get < newSize + minChunkSize
  · refine ⟨[], m, ?_, .takeover htake hgb ?_ hal, h, by simp⟩
    · unfold insertRemainder
      split
      · rw [subU32_of_le (by omega), ok_bind, if_neg (by omega)]
        rfl
      · rfl
    · rw [hstop, Chunk.stop, hgb, hgs, grownTo, if_pos htake]
  · obtain ⟨hsmall, hbig⟩ : adjacent.size.get < pageSize ∧
        newSize + minChunkSize ≤ old.size.get + adjacent.size.get := by omega
    rw [grownTo, if_neg htake] at hgs
    clear htake
    have hmin : 0 < minChunkSize := by decide
    obtain ⟨rest, hrest, hrb, hrs⟩ := Chunk.exists_new
      (adjacent.base + (newSize - old.size.get)) (adjacent.size.get - (newSize - old.size.get)) (by omega)
      ((Nat.sub_le _ _).trans_lt adjacent.size.lt) (fun hp => by omega)
    have hrstop : rest.stop = adjacent.stop := by
      simp only [Chunk.stop] at *
      omega
    obtain ⟨m', hm', hcoh, hmem⟩ := insert_ok h (c := rest) (by omega)
      (fresh_base hfresh (by omega) hrstop.le)
    refine ⟨[rest], m', ?_, .split hsmall hgb hgs ?_ hrstop (by omega) hal, hcoh, ?_⟩
    · have hend : adjacent.stop = adjacent.base + adjacent.size.get := rfl
      rw [insertRemainder, if_pos hsmall, subU32_of_le (by omega), ok_bind, if_pos (by omega),
        addU32_of_lt (by omega), ok_bind, hrest, ok_bind, hm']
    · simp only [Chunk.stop] at *
      omega
    · intro c
      rw [hmem, mem_singleton]

lemma putBack_ok (h : a.Wf) {adjacent : Chunk} {m : SizeBucketedChunkMap}
    (htaken : a.unusedChunks.Taken adjacent m) :
    ∃ m', m.insert adjacent = .ok m' ∧ m'.Coherent ∧
      SameChunks a { a with unusedChunks := m' } := by
  obtain ⟨hin, hcoh, hmem⟩ := htaken
  obtain ⟨m', hm', hcoh', hmem'⟩ := insert_ok hcoh
    (h.coherent.minSize adjacent hin)
    (fun d hd he => ((hmem d).mp hd).2 (eq_of_base ((hmem d).mp hd).1 hin he))
  refine ⟨m', hm', hcoh', fun _ => .rfl, fun c => ?_⟩
  show c ∈ m' ↔ _
  rw [hmem', hmem]
  by_cases hc : c = adjacent
  · simp [hc, hin]
  · simp [hc]

lemma growInPlace_ok (h : a.Wf) {old : Chunk} (hold : old ∈ a.usedChunks) {newSize : ℕ}
    (hnew : old.size.get < newSize) (hstop : old.stop < u32Bound)
    (hbelow : ∀ c ∈ a.unusedChunks, c.stop < u32Bound) :
    (∃ a', a.growInPlace old.base old.size.get newSize = .ok (none, a') ∧
        a'.unusedChunks.Coherent ∧ SameChunks a a' ∧ ∀ c, ¬ a.RoomIn old newSize c) ∨
      ∃ adjacent grown a', a.growInPlace old.base old.size.get newSize =
        .ok (some grown.size.get, a') ∧ a.Grows old newSize adjacent grown a' := by
  have hlive : a.usedChunks.getSizeWithBase old.base ≠ none := by
    rw [getSizeWithBase_eq_some.mpr hold]
    simp
  have hol := old.base_lt_stop
  have hright : old.base + old.size.get = old.stop := rfl
  rw [growInPlace, subU32_of_le hnew.le, ok_bind, if_neg hlive, addU32_of_lt hstop, ok_bind, hright]
  rcases removeWithBase_ok h.coherent old.stop with
    ⟨hnone, hno⟩ | ⟨adjacent, m, hsome, hab, htaken⟩
  · refine .inl ⟨a, by simp [hnone], h.coherent, .refl a, fun c hc => ?_⟩
    exact hno c hc.mem hc.base
  obtain ⟨hadj, hcoh, hmem⟩ := id htaken
  obtain ⟨back, hback, hbackcoh, hsame⟩ := putBack_ok h htaken
  have honly : ∀ c, a.RoomIn old newSize c → c = adjacent := fun c hc =>
    eq_of_base hc.mem hadj (hc.base.trans hab.symm)
  have hend : adjacent.stop = old.base + (old.size.get + adjacent.size.get) := by
    simp only [Chunk.stop] at *
    omega
  have hlt := hbelow adjacent hadj
  simp only [hsome, ok_bind]
  by_cases hroom : newSize ≤ old.size.get + adjacent.size.get
  swap
  · refine .inl ⟨_, by rw [if_pos (by omega), hback]; rfl, hbackcoh, hsame, fun c hc => ?_⟩
    obtain rfl := honly c hc
    exact hroom hc.enough
  rw [if_neg (by omega), grownSize_ok hnew hroom (by omega), ok_bind, Chunk.and_mask]
  by_cases hpage : pageSize ≤ grownTo old.size.get newSize adjacent.size.get ∧
      old.base % pageSize ≠ 0
  · refine .inl ⟨_, by rw [if_pos hpage, hback]; rfl, hbackcoh, hsame, fun c hc => ?_⟩
    obtain rfl := honly c hc
    exact hpage.2 (hc.aligned hpage.1)
  have hal : pageSize ≤ grownTo old.size.get newSize adjacent.size.get →
      old.base % pageSize = 0 := fun hp => not_not.mp fun hne => hpage ⟨hp, hne⟩
  have hbound : newSize ≤ grownTo old.size.get newSize adjacent.size.get ∧
      grownTo old.size.get newSize adjacent.size.get ≤ old.size.get + adjacent.size.get := by
    unfold grownTo
    split <;> omega
  obtain ⟨grown, hgrown, hgb, hgs⟩ := Chunk.exists_new old.base _ (by omega) (by omega) hal
  have hgal : grown.PageAligned := by
    intro hp
    rw [hgb]
    exact hal (hgs ▸ hp)
  obtain ⟨pieces, m', hm', hpieces, hcoh', hfree⟩ := insertRemainder_ok hcoh hab hlt hnew hroom
    (fun d hd => by
      obtain ⟨hd, hne⟩ := (hmem d).mp hd
      exact h.tidy.disjoint d hd adjacent hadj hne) hgb hgs hgal
  obtain ⟨used, hused⟩ := removeWithBase_of_mem hold
  obtain ⟨-, -, hrest⟩ := removeWithBase_some hused
  obtain ⟨used', hused', humem⟩ := insert_ok (m := used) (c := grown) (by
    intro d hd he
    obtain ⟨hd, hne⟩ := (hrest d).mp hd
    exact hne (eq_of_base hd hold (he.trans hgb)))
  refine .inr ⟨adjacent, grown, ⟨used', m'⟩, ?_, hold, hnew, ⟨hadj, hab, hroom, hal⟩, hgs,
    ⟨pieces, hpieces, hcoh', fun c => (hfree c).trans (or_congr_right (hmem c))⟩, fun c =>
      (humem c).trans (or_congr_right (hrest c))⟩
  rw [if_neg hpage, ← hab, hm', ok_bind, hused]
  simp only [hgrown, hused', ok_bind, hgs, pure_eq_ok]

lemma growInPlace_top {old : Chunk} (hold : old ∈ a.usedChunks) (hstop : old.stop = u32Bound)
    {newSize : ℕ} (hnew : old.size.get < newSize) :
    a.growInPlace old.base old.size.get newSize = .error .overflow := by
  have hlive : a.usedChunks.getSizeWithBase old.base ≠ none := by
    rw [getSizeWithBase_eq_some.mpr hold]
    simp
  have hover : addU32 old.base old.size.get = .error .overflow :=
    if_neg (not_lt.mpr hstop.ge)
  rw [growInPlace, subU32_of_le hnew.le, ok_bind, if_neg hlive, hover, error_bind]

end Grow

section Reserve

structure Reservable (chunk : Chunk) : Prop where
  base : chunk.base % pageSize = 0
  stop : chunk.stop % pageSize = 0
  stop_le : chunk.stop ≤ u32Bound

instance (chunk : Chunk) : Decidable (Reservable chunk) :=
  decidable_of_iff (chunk.base % pageSize = 0 ∧ chunk.stop % pageSize = 0 ∧ chunk.stop ≤ u32Bound)
    ⟨fun ⟨hb, hs, hl⟩ => ⟨hb, hs, hl⟩, fun ⟨hb, hs, hl⟩ => ⟨hb, hs, hl⟩⟩

def Within (chunk c : Chunk) : Prop := c.base ≤ chunk.base ∧ chunk.stop ≤ c.stop

structure Reserves (a : Allocator) (chunk c : Chunk) (a' : Allocator) : Prop where
  mem : c ∈ a.unusedChunks
  within : Within chunk c
  coherent : a'.unusedChunks.Coherent
  used : ∀ d, d ∈ a'.usedChunks ↔ d = chunk ∨ d ∈ a.usedChunks
  unused : ∀ d, d ∈ a'.unusedChunks ↔
    ((c.below chunk = some d ∨ c.above chunk = some d) ∧ Trackable d) ∨
      (d ∈ a.unusedChunks ∧ d ≠ c)

def LeavesAligned (chunk c : Chunk) : Prop :=
  Within chunk c → pageSize ≤ c.stop - chunk.stop → chunk.stop % pageSize = 0

lemma Reservable.leavesAligned {chunk : Chunk} (hr : Reservable chunk) (c : Chunk) :
    LeavesAligned chunk c := fun _ _ => hr.stop

lemma trisectBy_ok {chunk c : Chunk} (hr : LeavesAligned chunk c) (hs : c.stop ≤ u32Bound)
    (hal : c.PageAligned) (hw : Within chunk c) :
    c.trisectBy chunk = .ok (some (c.below chunk, c.above chunk)) := by
  have hl := chunk.base_lt_stop
  refine Chunk.trisectBy_inside hs hw.1 hw.2 (fun hp => hal ?_) (hr hw)
  have hst := hw.2
  unfold Chunk.stop at hst hl
  omega

lemma findToTrisect_ok {chunk : Chunk} (hstop : chunk.stop ≤ u32Bound) {l : List Chunk}
    (hl : ∀ c ∈ l, c.stop ≤ u32Bound ∧ c.PageAligned) (hr : ∀ c ∈ l, LeavesAligned chunk c) :
    (findToTrisect chunk l = .ok none ∧ ∀ c ∈ l, ¬ Within chunk c) ∨
      ∃ c ∈ l, findToTrisect chunk l = .ok (some c) ∧ Within chunk c := by
  induction l with
  | nil => exact .inl ⟨rfl, by simp⟩
  | cons c rest ih =>
    obtain ⟨hs, hal⟩ := hl c mem_cons_self
    by_cases hw : Within chunk c
    · exact .inr ⟨c, mem_cons_self, by simp [findToTrisect, trisectBy_ok (hr c mem_cons_self) hs hal hw], hw⟩
    have hout : c.trisectBy chunk = .ok none := Chunk.trisectBy_outside hs hstop hw
    have hstep : findToTrisect chunk (c :: rest) = findToTrisect chunk rest := by
      rw [findToTrisect, hout]
      rfl
    rcases ih (fun d hd => hl d (mem_cons_of_mem _ hd))
      (fun d hd => hr d (mem_cons_of_mem _ hd)) with ⟨hnone, hno⟩ | ⟨d, hd, hsome, hw'⟩
    · refine .inl ⟨hstep.trans hnone, fun d hd => ?_⟩
      rcases mem_cons.mp hd with rfl | hd
      · exact hw
      · exact hno d hd
    · exact .inr ⟨d, mem_cons_of_mem _ hd, hstep.trans hsome, hw'⟩

lemma insertLeftover_ok {m : SizeBucketedChunkMap} (h : m.Coherent) {o : Option Chunk}
    (hbase : ∀ c, o = some c → ∀ d ∈ m, d.base ≠ c.base) :
    ∃ m', insertIfTrackable m o = .ok m' ∧ m'.Coherent ∧
      ∀ d, d ∈ m' ↔ (o = some d ∧ Trackable d) ∨ d ∈ m := by
  cases o with
  | none => exact ⟨m, insertIfTrackable_none m, h, by simp⟩
  | some c =>
    obtain ⟨m', hm', hcoh, hmem⟩ := insertIfTrackable_ok h (hbase c rfl)
    refine ⟨m', hm', hcoh, fun d => (hmem d).trans (or_congr_left ?_)⟩
    constructor
    · rintro ⟨rfl, ht⟩
      exact ⟨rfl, ht⟩
    · rintro ⟨he, ht⟩
      obtain rfl := Option.some.inj he
      exact ⟨rfl, ht⟩

lemma reserve_ok (h : a.Wf) {chunk : Chunk} (hstop : chunk.stop ≤ u32Bound)
    (hr : ∀ c ∈ a.unusedChunks, LeavesAligned chunk c) :
    (a.reserve chunk = .ok a ∧ ∀ c ∈ a.unusedChunks, ¬ Within chunk c) ∨
      ∃ c a', a.reserve chunk = .ok a' ∧ a.Reserves chunk c a' := by
  have hiter : ∀ c ∈ a.unusedChunks.iter, c.stop ≤ u32Bound ∧ c.PageAligned := fun c hc =>
    ⟨h.tidy.stop_le c (h.coherent.mem_iter.mp hc), h.tidy.aligned c (h.coherent.mem_iter.mp hc)⟩
  rcases findToTrisect_ok hstop hiter fun c hc => hr c (h.coherent.mem_iter.mp hc) with ⟨hnone, hno⟩ | ⟨c, hc, hsome, hw⟩
  · exact .inl ⟨by simp [reserve, hnone], fun c hc => hno c (h.coherent.mem_iter.mpr hc)⟩
  have hcm := h.coherent.mem_iter.mp hc
  obtain ⟨hs, hal⟩ := hiter c hc
  have htri := trisectBy_ok (hr c hcm) hs hal hw
  rcases removeWithBase_ok h.coherent c.base with
    ⟨-, hno⟩ | ⟨c', m, hm, hb, hcm', hcoh, hmem⟩
  · exact absurd rfl (hno c hcm)
  obtain rfl : c' = c := eq_of_base hcm' hcm hb
  have hdisj : ∀ d ∈ m, Disjoint d.range c'.range := fun d hd =>
    h.tidy.disjoint d ((hmem d).mp hd).1 c' hcm ((hmem d).mp hd).2
  have hcl := chunk.base_lt_stop
  obtain ⟨hwb, hws⟩ := id hw
  obtain ⟨m₁, hm₁, hcoh₁, hmem₁⟩ := insertLeftover_ok hcoh (o := c'.below chunk) (by
    intro d hd e he hbase
    have hsep := Chunk.disjoint_range.mp (hdisj e he)
    have := (Chunk.below_eq_some.mp hd).1
    have := e.base_lt_stop
    omega)
  obtain ⟨m₂, hm₂, hcoh₂, hmem₂⟩ := insertLeftover_ok hcoh₁ (o := c'.above chunk) (by
    intro d hd e he hbase
    obtain ⟨hdb, hds⟩ := Chunk.above_eq_some.mp hd
    have := d.size.pos
    rcases (hmem₁ e).mp he with ⟨hbelow, -⟩ | he
    · have := (Chunk.below_eq_some.mp hbelow).1
      omega
    · have hsep := Chunk.disjoint_range.mp (hdisj e he)
      have := e.base_lt_stop
      omega)
  obtain ⟨used, hused, humem⟩ := insert_ok (m := a.usedChunks) (c := chunk)
    fun d hd => used_base_ne h hcm hd (Chunk.mem_range.mpr ⟨hwb, by omega⟩)
  refine .inr ⟨c', ⟨used, m₂⟩, by simp [reserve, hsome, htri, hm, hm₁, hm₂, hused], hcm, hw,
    hcoh₂, humem, fun d => ?_⟩
  rw [hmem₂, hmem₁, hmem]
  constructor
  · rintro (⟨hd, ht⟩ | ⟨hd, ht⟩ | hd)
    · exact .inl ⟨.inr hd, ht⟩
    · exact .inl ⟨.inl hd, ht⟩
    · exact .inr hd
  · rintro (⟨hd | hd, ht⟩ | hd)
    · exact .inr (.inl ⟨hd, ht⟩)
    · exact .inl ⟨hd, ht⟩
    · exact .inr (.inr hd)

lemma Reserves.wf (h : a.Wf) {chunk c : Chunk} {a' : Allocator} (hchunk : chunk.PageAligned)
    (hr : LeavesAligned chunk c) (hres : a.Reserves chunk c a') : a'.Wf := by
  obtain ⟨hc, ⟨hwb, hws⟩, hcoh, hused, hunused⟩ := hres
  have hcl := chunk.base_lt_stop
  have hcst : c.stop = c.base + c.size.get := rfl
  have hal := h.tidy.aligned c hc
  refine h.exchange [(.free, c)] ((.used, chunk) ::
    ((c.below chunk).toList ++ (c.above chunk).toList).map (Use.free, ·)) ?_ ?_ ?_ ?_ hcoh ?_
  · simpa using hc
  · simp only [pairwise_cons, pairwise_map, pairwise_append, mem_map,
      mem_append, Option.mem_toList, forall_exists_index, and_imp, forall_apply_eq_imp_iff₂]
    refine ⟨fun d hd => ?_, ?_, ?_, fun d hd e he => ?_⟩
    · rcases hd with hd | hd
      · obtain ⟨hb, hs⟩ := Chunk.below_eq_some.mp hd
        right
        unfold Chunk.stop
        omega
      · exact .inl (Chunk.above_eq_some.mp hd).1.ge
    · cases c.below chunk <;> simp
    · cases c.above chunk <;> simp
    · obtain ⟨hdb, hds⟩ := Chunk.below_eq_some.mp hd
      obtain ⟨heb, hes⟩ := Chunk.above_eq_some.mp he
      left
      simp only [Chunk.stop] at *
      omega
  · intro t ht n hn
    refine ⟨_, mem_singleton_self _, Chunk.mem_range.mpr ?_⟩
    have hn' := Chunk.mem_range.mp hn
    simp only [mem_cons, mem_map, mem_append, Option.mem_toList] at ht
    rcases ht with rfl | ⟨d, hd | hd, rfl⟩
    · dsimp only at hn' ⊢
      omega
    · obtain ⟨hb, hs⟩ := Chunk.below_eq_some.mp hd
      simp only [Chunk.stop] at *
      omega
    · obtain ⟨hb, hs⟩ := Chunk.above_eq_some.mp hd
      simp only [Chunk.stop] at *
      omega
  · intro t ht
    simp only [mem_cons, mem_map, mem_append, Option.mem_toList] at ht
    rcases ht with rfl | ⟨d, hd | hd, rfl⟩
    · exact hchunk
    · obtain ⟨hb, hs⟩ := Chunk.below_eq_some.mp hd
      intro hp
      dsimp only at hp ⊢
      rw [hb]
      exact hal (by unfold Chunk.stop at *; omega)
    · obtain ⟨hb, hs⟩ := Chunk.above_eq_some.mp hd
      intro hp
      dsimp only at hp ⊢
      rw [hb]
      exact hr ⟨hwb, hws⟩ (hs ▸ hp)
  · rintro ⟨_ | _, d⟩ hd
    · rcases (hused d).mp hd with rfl | hd
      · exact .inl mem_cons_self
      · exact .inr ⟨hd, by simp⟩
    · rcases (hunused d).mp hd with ⟨hd, -⟩ | ⟨hd, hne⟩
      · left
        simpa using hd
      · exact .inr ⟨hd, by simpa using hne⟩

end Reserve

end Allocator

abbrev GuestUSize := Fin u32Bound

instance : NeZero u32Bound := ⟨by decide⟩

namespace Allocator

inductive Request
  | reserve (chunk : Chunk) (h : Reservable chunk)
  | alloc (size : GuestUSize)
  | free (base : GuestUSize)
  | growInPlace (base newSize : GuestUSize)

def step (a : Allocator) : Request → Checked Allocator
  | .reserve chunk _ => a.reserve chunk
  | .alloc size => Prod.snd <$> a.alloc size
  | .free base => Prod.snd <$> a.free base
  | .growInPlace base newSize =>
    let oldSize := a.findAllocatedSize base
    if newSize ≤ oldSize then return a
    else Prod.snd <$> a.growInPlace base oldSize newSize

def exec (requests : List Request) : Checked Allocator := do
  let a ← new
  run step a requests

def Request.PastMainThreadStack : Request → Prop
  | .free base => (base : ℕ) = mainThreadStackLowEnd
  | .growInPlace base newSize =>
    (base : ℕ) = mainThreadStackLowEnd ∧ mainThreadStackSize < (newSize : ℕ)
  | _ => False

structure Sound (a : Allocator) : Prop where
  wf : a.Wf
  stack : mainThreadStack ∈ a.usedChunks

variable {a : Allocator}

lemma new_sound : ∃ a, new = .ok a ∧ a.Sound := by
  obtain ⟨a, ha, hwf, hused, -⟩ := new_ok
  exact ⟨a, ha, hwf, (hused _).mpr rfl⟩

lemma stop_mainThreadStack : mainThreadStack.stop = u32Bound := by decide

lemma Sound.below_stack (h : a.Sound) {x : Use × Chunk} (hx : x ∈ a.layout)
    (hne : x ≠ (.used, mainThreadStack)) : x.2.stop ≤ mainThreadStackLowEnd := by
  have hsep := h.wf.disjoint_of_ne hx (y := (.used, mainThreadStack)) h.stack hne
  have hl := x.2.base_lt_stop
  have hs := h.wf.stop_le x hx
  have htop := stop_mainThreadStack
  have hbase : mainThreadStack.base = mainThreadStackLowEnd := rfl
  dsimp only at hsep
  omega

lemma mainThreadStackLowEnd_lt : mainThreadStackLowEnd < u32Bound := by decide

lemma Sound.free_stop_lt (h : a.Sound) : ∀ c ∈ a.unusedChunks, c.stop < u32Bound := fun c hc =>
  (h.below_stack (x := (.free, c)) hc (by simp)).trans_lt mainThreadStackLowEnd_lt

lemma Sound.used_stop_lt (h : a.Sound) {c : Chunk} (hc : c ∈ a.usedChunks)
    (hne : c.base ≠ mainThreadStackLowEnd) : c.stop < u32Bound := by
  refine (h.below_stack (x := (.used, c)) hc ?_).trans_lt mainThreadStackLowEnd_lt
  rintro he
  obtain rfl := (Prod.mk.inj he).2
  exact hne rfl

lemma Sound.eq_stack (h : a.Sound) {c : Chunk} (hc : c ∈ a.usedChunks)
    (he : c.base = mainThreadStackLowEnd) : c = mainThreadStack :=
  eq_of_base hc h.stack he

lemma findAllocatedSize_of_mem {c : Chunk} (hc : c ∈ a.usedChunks) :
    a.findAllocatedSize c.base = c.size.get := by
  rw [findAllocatedSize, getSizeWithBase_eq_some.mpr hc]

lemma exists_used_or (a : Allocator) (base : ℕ) :
    (∃ c ∈ a.usedChunks, c.base = base) ∨ ∀ c ∈ a.usedChunks, c.base ≠ base := by
  by_cases h : ∃ c ∈ a.usedChunks, c.base = base
  · exact .inl h
  · exact .inr fun c hc he => h ⟨c, hc, he⟩

inductive Stepped (a : Allocator) : Allocator → Prop
  | reserved {chunk c : Chunk} {a' : Allocator} : Reservable chunk → a.Reserves chunk c a' →
      Stepped a a'
  | allocated {size : ℕ} {existing alloc : Chunk} {a' : Allocator} :
      a.Allocates size existing alloc a' → Stepped a a'
  | freed {c : Chunk} {removed added : List Chunk} {a' : Allocator} :
      c ≠ mainThreadStack → a.Frees c removed added a' → Stepped a a'
  | grown {old adjacent grown : Chunk} {newSize : ℕ} {a' : Allocator} :
      old ≠ mainThreadStack → a.Grows old newSize adjacent grown a' → Stepped a a'
  | same {a' : Allocator} : a'.unusedChunks.Coherent → a.SameChunks a' → Stepped a a'

lemma Stepped.sound (h : a.Sound) {a' : Allocator} (hs : a.Stepped a') : a'.Sound := by
  cases hs with
  | reserved hr hres =>
    exact ⟨hres.wf h.wf (fun _ => hr.base) (hr.leavesAligned _), (hres.used _).mpr (.inr h.stack)⟩
  | allocated ha => exact ⟨ha.wf h.wf, (ha.used _).mpr (.inr h.stack)⟩
  | freed hne hf => exact ⟨hf.wf h.wf, (hf.used _).mpr ⟨h.stack, hne.symm⟩⟩
  | grown hne hg => exact ⟨hg.wf h.wf, (hg.used _).mpr (.inr ⟨h.stack, hne.symm⟩)⟩
  | same hcoh hsame => exact ⟨hsame.wf h.wf hcoh, (hsame.1 _).mpr h.stack⟩

lemma growInPlace_unknown {base newSize : ℕ} (h : ∀ c ∈ a.usedChunks, c.base ≠ base) :
    a.growInPlace base 0 newSize = .ok (none, a) := by
  have hnone := getSizeWithBase_eq_none.mpr h
  rw [growInPlace, subU32_of_le (Nat.zero_le _), ok_bind, if_pos hnone]
  rfl

lemma step_ok (h : a.Sound) {r : Request} (hr : ¬ r.PastMainThreadStack) :
    ∃ a', a.step r = .ok a' ∧ a.Stepped a' := by
  have hrefl : a.Stepped a := .same h.wf.coherent (.refl a)
  cases r with
  | reserve chunk hchunk =>
    rcases reserve_ok h.wf hchunk.stop_le fun c _ => hchunk.leavesAligned c with ⟨hok, -⟩ | ⟨c, a', hok, hres⟩
    · exact ⟨a, hok, hrefl⟩
    · exact ⟨a', hok, .reserved hchunk hres⟩
  | alloc size =>
    rcases alloc_ok h.wf size.isLt with ⟨hok, -⟩ | ⟨existing, alloc, a', hok, ha⟩
    · exact ⟨a, by simp [step, hok, Functor.map, Except.map], hrefl⟩
    · exact ⟨a', by simp [step, hok, Functor.map, Except.map], .allocated ha⟩
  | free base =>
    rcases a.exists_used_or base with ⟨c, hc, hb⟩ | hno
    · have hne : c.base ≠ mainThreadStackLowEnd := fun he => hr (hb.symm.trans he)
      obtain ⟨removed, added, a', hok, hf⟩ := free_ok h.wf hc (h.used_stop_lt hc hne) h.free_stop_lt
      rw [hb] at hok
      refine ⟨a', by simp [step, hok, Functor.map, Except.map], .freed ?_ hf⟩
      rintro rfl
      exact hne rfl
    · exact ⟨a, by simp [step, free_unknown hno, Functor.map, Except.map], hrefl⟩
  | growInPlace base newSize =>
    rcases a.exists_used_or base with ⟨c, hc, hb⟩ | hno
    · have hsize := findAllocatedSize_of_mem hc
      rw [hb] at hsize
      by_cases hle : (newSize : ℕ) ≤ c.size.get
      · exact ⟨a, by simp [step, hsize, hle], hrefl⟩
      have hne : c.base ≠ mainThreadStackLowEnd := by
        intro he
        obtain rfl := h.eq_stack hc he
        exact hr ⟨hb.symm, not_le.mp hle⟩
      rcases growInPlace_ok h.wf hc (not_le.mp hle) (h.used_stop_lt hc hne) h.free_stop_lt with
        ⟨a', hok, hcoh, hsame, -⟩ | ⟨adjacent, grown, a', hok, hg⟩
      all_goals rw [hb] at hok
      · exact ⟨a', by simp [step, hsize, hle, hok, Functor.map, Except.map], .same hcoh hsame⟩
      · refine ⟨a', by simp [step, hsize, hle, hok, Functor.map, Except.map], .grown ?_ hg⟩
        rintro rfl
        exact hne rfl
    · have hsize : a.findAllocatedSize base = 0 := by
        rw [findAllocatedSize, getSizeWithBase_eq_none.mpr hno]
      refine ⟨a, ?_, hrefl⟩
      simp only [step, hsize, growInPlace_unknown hno]
      split <;> rfl

lemma step_past_stack (h : a.Sound) {r : Request} (hr : r.PastMainThreadStack) :
    a.step r = .error .overflow := by
  cases r with
  | free base =>
    have hb : (base : ℕ) = mainThreadStack.base := hr
    simp [step, hb, free_top h.stack stop_mainThreadStack, Functor.map, Except.map]
  | growInPlace base newSize =>
    obtain ⟨hb, hs⟩ := hr
    have hb : (base : ℕ) = mainThreadStack.base := hb
    have hsize := findAllocatedSize_of_mem h.stack
    have hs : mainThreadStack.size.get < (newSize : ℕ) := hs
    simp [step, hb, hsize, hs, growInPlace_top h.stack stop_mainThreadStack hs, Functor.map,
      Except.map]
  | reserve => exact hr.elim
  | alloc => exact hr.elim

/-- The allocator never faults and keeps its layout invariant, unless a request frees or grows the
stack of the main thread, whose end does not fit a word. -/
theorem exec_ok_iff (requests : List Request) :
    (∃ a, exec requests = .ok a ∧ a.Wf) ↔ ∀ r ∈ requests, ¬ r.PastMainThreadStack := by
  obtain ⟨a, hnew, hsound⟩ := new_sound
  rw [exec, hnew, ok_bind]
  refine run_ok_iff (fun a r h hr => ?_) (fun a r a' h hr hok => ?_) (fun _ h => h.wf) hsound
  · obtain ⟨a', hok, hs⟩ := step_ok h hr
    exact ⟨a', hok, hs.sound h⟩
  · rw [step_past_stack h (not_not.mp hr)] at hok
    simp at hok

theorem exec_free_main_thread_stack :
    ¬ ∀ requests : List Request, ∃ a, exec requests = .ok a ∧ a.Wf := by
  intro h
  obtain ⟨a', hok, -⟩ := h [.free 0xfff00000]
  obtain ⟨a, hnew, hsound⟩ := new_sound
  have hstep : a.step (.free 0xfff00000) = .error .overflow :=
    step_past_stack hsound (show _ = _ from rfl)
  rw [exec, hnew, ok_bind, run_cons, hstep, error_bind] at hok
  simp at hok

end Allocator

end TouchHle.Memory
