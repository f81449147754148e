import TouchHle.Memory.Collections

namespace TouchHle.Memory

open Lib List

namespace ChunkMap

lemma mem_def {m : ChunkMap} {c : Chunk} : c ∈ m ↔ (c.base, c.size) ∈ m.chunks := .rfl

@[simp] lemma not_mem_empty (c : Chunk) : c ∉ empty := OrderedMap.not_mem_empty _

lemma eq_of_base {m : ChunkMap} {c d : Chunk} (hc : c ∈ m) (hd : d ∈ m) (h : c.base = d.base) :
    c = d := by
  rcases c with ⟨b, s⟩
  rcases d with ⟨b', s'⟩
  obtain rfl : b = b' := h
  exact congrArg (Chunk.mk b) (OrderedMap.value_unique hc hd)

lemma getSizeWithBase_eq_some {m : ChunkMap} {base : ℕ} {s : NonZeroU32} :
    m.getSizeWithBase base = some s ↔ ⟨base, s⟩ ∈ m :=
  OrderedMap.get?_eq_some

lemma mem_of_getSizeWithBase {m : ChunkMap} {base n : ℕ} (hpos : 0 < n) (hlt : n < u32Bound)
    (h : m.getSizeWithBase base = NonZeroU32.new n) : (⟨base, n, hpos, hlt⟩ : Chunk) ∈ m :=
  getSizeWithBase_eq_some.mp (h.trans (NonZeroU32.new_eq_some.mpr rfl))

lemma getSizeWithBase_eq_none {m : ChunkMap} {base : ℕ} :
    m.getSizeWithBase base = none ↔ ∀ c ∈ m, c.base ≠ base := by
  rw [getSizeWithBase, OrderedMap.get?_eq_none]
  constructor
  · rintro h c hc rfl
    exact h c.size hc
  · intro h s hs
    exact h ⟨base, s⟩ hs rfl

lemma insert_ok {m : ChunkMap} {c : Chunk} (h : ∀ d ∈ m, d.base ≠ c.base) :
    ∃ m', m.insert c = .ok m' ∧ ∀ d, d ∈ m' ↔ d = c ∨ d ∈ m := by
  have hn : m.chunks.get? c.base = none := getSizeWithBase_eq_none.mpr h
  refine ⟨⟨m.chunks.insert c.base c.size⟩, by simp [insert, hn, pure, Except.pure], fun d => ?_⟩
  simp only [mem_def, OrderedMap.mem_insert, Prod.mk.injEq]
  constructor
  · rintro (⟨hb, hs⟩ | ⟨hd, -⟩)
    · left
      cases d
      cases c
      simp_all
    · exact .inr hd
  · rintro (rfl | hd)
    · exact .inl ⟨rfl, rfl⟩
    · exact .inr ⟨hd, h d hd⟩

lemma removeWithBase_eq_none {m : ChunkMap} {base : ℕ} :
    m.removeWithBase base = none ↔ ∀ c ∈ m, c.base ≠ base := by
  rw [removeWithBase, Option.map_eq_none_iff]
  exact getSizeWithBase_eq_none

lemma removeWithBase_some {m m' : ChunkMap} {base : ℕ} {c : Chunk}
    (h : m.removeWithBase base = some (c, m')) :
    c ∈ m ∧ c.base = base ∧ ∀ d, d ∈ m' ↔ d ∈ m ∧ d ≠ c := by
  obtain ⟨s, hs, he⟩ := Option.map_eq_some_iff.mp h
  obtain ⟨rfl, rfl⟩ := Prod.mk.inj he
  have hc : (⟨base, s⟩ : Chunk) ∈ m := getSizeWithBase_eq_some.mp hs
  refine ⟨hc, rfl, fun d => ?_⟩
  simp only [mem_def, OrderedMap.mem_erase]
  refine and_congr_right fun hd => not_congr ⟨fun hb => eq_of_base hd hc hb, ?_⟩
  rintro rfl
  rfl

lemma removeWithBase_of_mem {m : ChunkMap} {c : Chunk} (h : c ∈ m) :
    ∃ m', m.removeWithBase c.base = some (c, m') := by
  have hs : m.chunks.get? c.base = some c.size := getSizeWithBase_eq_some.mpr h
  simp [removeWithBase, hs]

lemma removeWithEnd_ok {m : ChunkMap} {stop : ℕ} (hstop : stop < u32Bound)
    (hbelow : ∀ c ∈ m, c.base < stop → c.stop ≤ stop) :
    m.removeWithEnd stop = .ok none ∨
      ∃ c m', m.removeWithEnd stop = .ok (some (c, m')) ∧ m.removeWithBase c.base = some (c, m') ∧
        c.stop = stop := by
  unfold removeWithEnd
  split
  · exact .inl rfl
  · rename_i base size hl
    obtain ⟨hm, hb⟩ := OrderedMap.lastBelow_mem hl
    have hs := hbelow ⟨base, size⟩ hm hb
    have hn := Chunk.lastByte_succ_ok (c := ⟨base, size⟩) (by omega)
    obtain ⟨last, hlast, hn⟩ := bind_eq_ok.mp hn
    simp only [hlast, ok_bind, hn]
    by_cases he : (⟨base, size⟩ : Chunk).stop = stop
    · obtain ⟨m', hm'⟩ := removeWithBase_of_mem (c := ⟨base, size⟩) hm
      exact .inr ⟨_, m', by simp [he, hm', Functor.map, Except.map], hm', he⟩
    · exact .inl (by simp [he, pure, Except.pure])

end ChunkMap

namespace SizeBucketedChunkMap

lemma bucketFor_ok {n : ℕ} (h : minChunkSize ≤ n) : bucketFor n = .ok (Nat.log2 n - 4) := by
  have hn : n ≠ 0 := by
    rintro rfl
    simp [minChunkSize] at h
  have hl : Nat.log2 minChunkSize ≤ Nat.log2 n := by
    rw [show Nat.log2 minChunkSize = 4 by decide, Nat.le_log2 hn]
    exact h
  rw [bucketFor, if_neg hn, subU32_of_le hl]
  rfl

lemma log2_lt_bucketCount {n : ℕ} (h : minChunkSize ≤ n) (hl : n < u32Bound) :
    Nat.log2 n - 4 < bucketCount := by
  have hn : n ≠ 0 := by
    rintro rfl
    simp [minChunkSize] at h
  have hlt := (Nat.log2_lt hn).mpr (show n < 2 ^ 32 from hl)
  unfold bucketCount
  omega

structure Coherent (m : SizeBucketedChunkMap) : Prop where
  length : m.chunksByLog2Size.length = bucketCount
  nodup : ∀ l ∈ m.chunksByLog2Size, l.Nodup
  mem_bucket : ∀ i l, m.chunksByLog2Size[i]? = some l →
    ∀ c, c ∈ l ↔ c ∈ m ∧ bucketFor c.size.get = .ok i
  minSize : ∀ c ∈ m, minChunkSize ≤ c.size.get

variable {m : SizeBucketedChunkMap}

lemma mem_def {c : Chunk} : c ∈ m ↔ c ∈ m.chunks := .rfl

lemma bucket_eq_ok {i : ℕ} {l : List Chunk} :
    m.bucket i = .ok l ↔ m.chunksByLog2Size[i]? = some l := by
  unfold bucket
  split <;> simp_all

lemma Coherent.exists_bucket (h : m.Coherent) {c : Chunk} (hc : minChunkSize ≤ c.size.get) :
    ∃ i l, bucketFor c.size.get = .ok i ∧ m.bucket i = .ok l ∧
      m.chunksByLog2Size[i]? = some l := by
  have hi := log2_lt_bucketCount hc c.size.lt
  rw [← h.length] at hi
  have hl := getElem?_eq_getElem hi
  exact ⟨_, _, bucketFor_ok hc, bucket_eq_ok.mpr hl, hl⟩

lemma empty_coherent : empty.Coherent where
  length := length_replicate
  nodup l hl := by
    obtain ⟨-, rfl⟩ := mem_replicate.mp hl
    exact nodup_nil
  mem_bucket i l hl c := by
    obtain ⟨-, rfl⟩ := mem_replicate.mp (mem_of_getElem? hl)
    simp [mem_def, empty]
  minSize c hc := absurd hc (ChunkMap.not_mem_empty c)

lemma Coherent.mem_iter (h : m.Coherent) {c : Chunk} : c ∈ m.iter ↔ c ∈ m := by
  rw [iter, mem_flatten]
  constructor
  · rintro ⟨l, hl, hc⟩
    obtain ⟨i, hi⟩ := mem_iff_getElem?.mp hl
    exact ((h.mem_bucket i l hi c).mp hc).1
  · intro hc
    obtain ⟨i, l, hi, -, hl⟩ := h.exists_bucket (h.minSize c hc)
    exact ⟨l, mem_of_getElem? hl, (h.mem_bucket i l hl c).mpr ⟨hc, hi⟩⟩

lemma Coherent.set (h : m.Coherent) {i : ℕ} {l : List Chunk} {chunks : ChunkMap}
    (hl : l.Nodup) (hmin : ∀ c ∈ chunks, minChunkSize ≤ c.size.get)
    (hin : ∀ c, c ∈ l ↔ c ∈ chunks ∧ bucketFor c.size.get = .ok i)
    (hout : ∀ c, bucketFor c.size.get ≠ .ok i → (c ∈ chunks ↔ c ∈ m)) :
    Coherent ⟨chunks, m.chunksByLog2Size.set i l⟩ where
  length := by rw [length_set, h.length]
  nodup l' hl' := by
    rcases mem_or_eq_of_mem_set hl' with hl' | rfl
    · exact h.nodup l' hl'
    · exact hl
  mem_bucket j l' hl' c := by
    rw [getElem?_set] at hl'
    split at hl'
    · rename_i hij
      obtain ⟨-, rfl⟩ : _ ∧ l = l' := by simpa using hl'
      exact hij ▸ hin c
    · rename_i hij
      rw [h.mem_bucket j l' hl' c]
      refine and_congr_left fun hj => (hout c fun hi' => hij ?_).symm
      rw [hj] at hi'
      exact (Except.ok.inj hi').symm
  minSize := hmin

lemma insert_ok (h : m.Coherent) {c : Chunk} (hmin : minChunkSize ≤ c.size.get)
    (hbase : ∀ d ∈ m, d.base ≠ c.base) :
    ∃ m', m.insert c = .ok m' ∧ m'.Coherent ∧ ∀ d, d ∈ m' ↔ d = c ∨ d ∈ m := by
  obtain ⟨chunks, hins, hmem⟩ := ChunkMap.insert_ok hbase
  obtain ⟨i, l, hi, hb, hl⟩ := h.exists_bucket hmin
  have hnew : c ∉ l := fun hc => hbase c ((h.mem_bucket i l hl c).mp hc).1 rfl
  refine ⟨⟨chunks, m.chunksByLog2Size.set i (l ++ [c])⟩, ?_, h.set ?_ ?_ ?_ ?_, hmem⟩
  · simp [insert, hmin, hins, hi, hb, pure, Except.pure]
  · rw [← concat_eq_append]
    exact List.Nodup.concat hnew (h.nodup l (mem_of_getElem? hl))
  · intro d hd
    rcases (hmem d).mp hd with rfl | hd
    · exact hmin
    · exact h.minSize d hd
  · intro d
    rw [mem_append, mem_singleton, h.mem_bucket i l hl d, hmem d, mem_def]
    constructor
    · rintro (⟨hd, hdi⟩ | rfl)
      · exact ⟨.inr hd, hdi⟩
      · exact ⟨.inl rfl, hi⟩
    · rintro ⟨rfl | hd, hdi⟩
      · exact .inr rfl
      · exact .inl ⟨hd, hdi⟩
  · intro d hd
    rw [hmem d, mem_def]
    refine or_iff_right ?_
    rintro rfl
    exact hd hi

lemma Coherent.take (h : m.Coherent) {c : Chunk} {chunks : ChunkMap} {i : ℕ} {l rest : List Chunk}
    (hl : m.chunksByLog2Size[i]? = some l) (hrest : (c :: rest).Perm l)
    (hchunks : ∀ d, d ∈ chunks ↔ d ∈ m ∧ d ≠ c) :
    Coherent ⟨chunks, m.chunksByLog2Size.set i rest⟩ := by
  have hnodup := hrest.nodup_iff.mpr (h.nodup l (mem_of_getElem? hl))
  rw [nodup_cons] at hnodup
  have hc := (h.mem_bucket i l hl c).mp (hrest.mem_iff.mp mem_cons_self)
  refine h.set hnodup.2 (fun d hd => h.minSize d ((hchunks d).mp hd).1) ?_ ?_
  · intro d
    rw [hchunks d]
    constructor
    · intro hd
      have hd' := (h.mem_bucket i l hl d).mp (hrest.mem_iff.mp (mem_cons_of_mem _ hd))
      refine ⟨⟨hd'.1, ?_⟩, hd'.2⟩
      rintro rfl
      exact hnodup.1 hd
    · rintro ⟨⟨hd, hne⟩, hdi⟩
      have hd' := hrest.mem_iff.mpr ((h.mem_bucket i l hl d).mpr ⟨hd, hdi⟩)
      exact (mem_cons.mp hd').resolve_left hne
  · intro d hd
    rw [hchunks d]
    refine and_iff_left ?_
    rintro rfl
    exact hd hc.2

lemma removeFromBucket_ok (h : m.Coherent) {c : Chunk} {chunks : ChunkMap} (hc : c ∈ m)
    (hchunks : ∀ d, d ∈ chunks ↔ d ∈ m ∧ d ≠ c) :
    ∃ m', removeFromBucket ⟨chunks, m.chunksByLog2Size⟩ c = .ok m' ∧ m'.Coherent ∧
      ∀ d, d ∈ m' ↔ d ∈ m ∧ d ≠ c := by
  obtain ⟨i, l, hi, hb, hl⟩ := h.exists_bucket (h.minSize c hc)
  have hcl : c ∈ l := (h.mem_bucket i l hl c).mpr ⟨hc, hi⟩
  obtain ⟨idx, hidx⟩ := Vec.exists_rposition (p := fun d : Chunk => decide (c.base = d.base)) hcl
    (decide_eq_true rfl)
  obtain ⟨d, hd, hbase⟩ := Vec.rposition_some hidx
  have hdm := ((h.mem_bucket i l hl d).mp (mem_of_getElem? hd)).1
  obtain rfl : c = d := ChunkMap.eq_of_base hc hdm (of_decide_eq_true hbase)
  obtain ⟨rest, hrest⟩ := Vec.swapRemove_of_getElem hd
  have hb' : bucket ⟨chunks, m.chunksByLog2Size⟩ i = .ok l := hb
  refine ⟨⟨chunks, m.chunksByLog2Size.set i rest⟩, ?_, ?_, hchunks⟩
  · simp [removeFromBucket, hi, hb', hidx, hrest, pure, Except.pure]
  · exact h.take hl (Vec.swapRemove_perm hrest) hchunks

def Taken (m : SizeBucketedChunkMap) (c : Chunk) (m' : SizeBucketedChunkMap) : Prop :=
  c ∈ m ∧ m'.Coherent ∧ ∀ d, d ∈ m' ↔ d ∈ m ∧ d ≠ c

lemma removeWithBase_ok (h : m.Coherent) (base : ℕ) :
    (m.removeWithBase base = .ok none ∧ ∀ c ∈ m, c.base ≠ base) ∨
      ∃ c m', m.removeWithBase base = .ok (some (c, m')) ∧ c.base = base ∧ m.Taken c m' := by
  cases hr : m.chunks.removeWithBase base with
  | none =>
    refine .inl ⟨by simp [removeWithBase, hr, pure, Except.pure], ?_⟩
    exact ChunkMap.removeWithBase_eq_none.mp hr
  | some r =>
    obtain ⟨c, chunks⟩ := r
    obtain ⟨hc, hb, hchunks⟩ := ChunkMap.removeWithBase_some hr
    obtain ⟨m', hm', hcoh, hmem⟩ := removeFromBucket_ok h hc hchunks
    exact .inr ⟨c, m', by simp [removeWithBase, hr, hm', pure, Except.pure], hb, hc, hcoh, hmem⟩

lemma removeWithEnd_ok (h : m.Coherent) {stop : ℕ} (hstop : stop < u32Bound)
    (hbelow : ∀ c ∈ m, c.base < stop → c.stop ≤ stop) :
    m.removeWithEnd stop = .ok none ∨
      ∃ c m', m.removeWithEnd stop = .ok (some (c, m')) ∧ c.stop = stop ∧ m.Taken c m' := by
  rcases ChunkMap.removeWithEnd_ok hstop hbelow with hr | ⟨c, chunks, hr, hb, hs⟩
  · exact .inl (by simp [removeWithEnd, hr, pure, Except.pure])
  · obtain ⟨hc, -, hchunks⟩ := ChunkMap.removeWithBase_some hb
    obtain ⟨m', hm', hcoh, hmem⟩ := removeFromBucket_ok h hc hchunks
    exact .inr ⟨c, m', by simp [removeWithEnd, hr, hm', pure, Except.pure], hs, hc, hcoh, hmem⟩

end SizeBucketedChunkMap

end TouchHle.Memory
