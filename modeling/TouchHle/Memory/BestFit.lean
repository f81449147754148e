import TouchHle.Memory.FreeList
import TouchHle.Memory.Allocator

namespace TouchHle.Memory

open Lib List Chunk Allocator

structure Rounded (size : ℕ) : Prop where
  min : minChunkSize ≤ size
  granule : size % minChunkSize = 0
  page : pageSize ≤ size → size % pageSize = 0

lemma align_eq_some {size unit n : ℕ} (hunit : 0 < unit) (h : align size unit = some n) :
    n % unit = 0 ∧ size ≤ n ∧ n < size + unit ∧ (size < u32Bound → n < u32Bound) := by
  unfold align at h
  split at h
  · rename_i hm
    dsimp only at h
    split at h
    · rename_i hl
      obtain rfl := Option.some.inj h
      have hlt := Nat.mod_lt size hunit
      have hdiv := Nat.div_add_mod size unit
      have hsum : size + (unit - size % unit) = unit * (size / unit + 1) := by
        rw [Nat.mul_succ]
        omega
      refine ⟨?_, by omega, by omega, fun _ => hl⟩
      rw [hsum, Nat.mul_mod_right]
    · simp at h
  · rename_i hm
    obtain rfl := Option.some.inj h
    exact ⟨by simpa using hm, le_rfl, by omega, id⟩

lemma alignedSize_eq_some {size n : ℕ} (h : alignedSize size = some n) :
    Rounded n ∧ size ≤ n ∧ n < size + pageSize ∧ (size < pageSize → n ≤ pageSize) := by
  unfold alignedSize at h
  split at h
  · rename_i hp
    obtain ⟨hm, hle, hlt, -⟩ := align_eq_some (by decide) h
    refine ⟨⟨?_, hm, ?_⟩, ?_, ?_, ?_⟩
    all_goals simp only [pageSize, minChunkSize] at *
    all_goals omega
  · rename_i hp
    obtain ⟨hm, hle, hlt, -⟩ := align_eq_some (by decide) h
    refine ⟨⟨?_, ?_, fun _ => hm⟩, hle, hlt, fun hlt => absurd hlt hp⟩
    all_goals simp only [pageSize, minChunkSize] at *
    all_goals omega

lemma alignedSize_lt {size n : ℕ} (h : alignedSize size = some n)
    (hlt : size < u32Bound) : n < u32Bound := by
  unfold alignedSize at h
  split at h
  · exact (align_eq_some (by decide) h).2.2.2 (max_lt hlt (by decide))
  · exact (align_eq_some (by decide) h).2.2.2 hlt

inductive Carved (existing : Chunk) (size : ℕ) : Chunk → List Chunk → Prop
  | whole : size ≤ existing.size.get → existing.size.get < size + minChunkSize →
      Carved existing size existing []
  | cut {alloc rump : Chunk} : alloc.base = existing.base → alloc.size.get = size →
      rump.base = alloc.stop → rump.stop = existing.stop → minChunkSize ≤ rump.size.get →
      rump.PageAligned → Carved existing size alloc [rump]
  | realign {alloc left right : Chunk} : existing.base % pageSize = 0 →
      alloc.base = existing.base → alloc.size.get = size → left.base = alloc.stop →
      left.stop = existing.base + pageSize → right.base = left.stop →
      right.stop = existing.stop → minChunkSize ≤ left.size.get →
      minChunkSize ≤ right.size.get → Carved existing size alloc [left, right]

def SmallestFit (size : ℕ) (p : Chunk → Prop) (existing : Chunk) : Prop :=
  p existing ∧ size ≤ existing.size.get ∧
    ∀ c, p c → size ≤ c.size.get → existing.size.get ≤ c.size.get

namespace SizeBucketedChunkMap

variable {m : SizeBucketedChunkMap}

def PutBack (m : SizeBucketedChunkMap) (pieces : List Chunk) (m' : SizeBucketedChunkMap) : Prop :=
  m'.Coherent ∧ ∀ d, d ∈ m' ↔ d ∈ pieces ∨ d ∈ m

section

variable {existing : Chunk} {size : ℕ}

lemma fresh_base {c : Chunk} (hdisj : ∀ d ∈ m, Disjoint d.range existing.range)
    (hb : existing.base ≤ c.base) (hs : c.stop ≤ existing.stop) : ∀ d ∈ m, d.base ≠ c.base := by
  intro d hd he
  have hsep := disjoint_range.mp (hdisj d hd)
  have hd' := d.base_lt_stop
  have hc := c.base_lt_stop
  omega

lemma carve_realign (h : m.Coherent) (hr : Rounded size) (hlt : size < existing.size.get)
    (hstop : existing.stop ≤ u32Bound) (hal : existing.PageAligned)
    (hdisj : ∀ d ∈ m, Disjoint d.range existing.range)
    (hbig : pageSize ≤ existing.size.get - size)
    (hoff : (existing.base + size) % pageSize ≠ 0) :
    ∃ alloc pieces m', m.carve existing size = .ok (alloc, m') ∧
      Carved existing size alloc pieces ∧ m.PutBack pieces m' := by
  obtain ⟨hmin, hgran, hpage⟩ := hr
  have hst : existing.stop = existing.base + existing.size.get := rfl
  have hbase : existing.base % pageSize = 0 := hal (by omega)
  have hsmall : size < pageSize := by
    simp only [pageSize] at *
    omega
  have hpos : 0 < size := lt_of_lt_of_le (by decide) hmin
  have hleftsize : minChunkSize ≤ pageSize - size := by
    simp only [pageSize, minChunkSize] at *
    omega
  have hfits : size + pageSize ≤ existing.size.get := by omega
  clear hgran hpage hal
  revert hbig hoff
  obtain ⟨alloc, halloc, hab, has⟩ := exists_new existing.base _ hpos
    (by omega) (fun hp => hbase)
  obtain ⟨left, hleft, hlb, hls⟩ := exists_new (existing.base + size)
    (pageSize - size) (by omega) (by omega) (fun hp => by omega)
  obtain ⟨right, hright, hrb, hrs⟩ := exists_new (existing.base + pageSize)
    (existing.size.get - pageSize) (by omega) (by omega) (fun _ => by
      rw [Nat.add_mod_right]
      exact hbase)
  have hlstop : left.stop = existing.base + pageSize := by
    unfold stop
    omega
  have hrstop : right.stop = existing.stop := by
    unfold stop
    omega
  have hrsize : minChunkSize ≤ right.size.get := by omega
  obtain ⟨last, hlast, hnext⟩ := bind_eq_ok.mp (lastByte_succ_ok (c := left) (by omega))
  have htotal : left.size.get + right.size.get = existing.size.get - size := by omega
  obtain ⟨m₁, hm₁, hc₁, hmem₁⟩ := insert_ok h (c := left) (by omega)
    (fresh_base hdisj (by omega) (by omega))
  obtain ⟨m₂, hm₂, hc₂, hmem₂⟩ := insert_ok hc₁ hrsize (by
    intro d hd
    rcases (hmem₁ d).mp hd with rfl | hd
    · omega
    · exact fresh_base hdisj (by omega) hrstop.le d hd)
  intro hbig hoff
  refine ⟨alloc, [left, right], m₂, ?_, .realign hbase hab has ?_ hlstop ?_ hrstop (by omega) hrsize,
    hc₂, ?_⟩
  · have hcond : pageSize ≤ existing.size.get - size ∧
        (existing.base + size) &&& pageSizeAlignMask ≠ 0 := ⟨hbig, by rwa [and_mask]⟩
    have hbase' : existing.base &&& pageSizeAlignMask = 0 := by rw [and_mask, hbase]
    simp only [carve, if_neg hlt.ne', halloc, ok_bind, subU32_of_le hlt.le,
      addU32_of_lt (show existing.base + size < u32Bound by omega), if_pos hcond, assert_of hbase',
      subU32_of_le hsmall.le, hleft, addU32_of_lt (show existing.base + pageSize < u32Bound by omega),
      subU32_of_le (show pageSize ≤ existing.size.get by omega), hright, hlast, hnext,
      assert_of (hlstop.trans hrb.symm), htotal, assert_of,
      addU32_of_lt (show left.size.get + right.size.get < u32Bound by omega), if_pos hleftsize,
      hm₁, hm₂]
    rfl
  · unfold stop
    omega
  · omega
  · intro d
    rw [hmem₂, hmem₁, or_left_comm, ← or_assoc]
    simp only [mem_cons, not_mem_nil, or_false]

lemma carve_cut (h : m.Coherent) (hr : Rounded size) (hlt : size < existing.size.get)
    (hstop : existing.stop ≤ u32Bound) (hal : existing.PageAligned)
    (hdisj : ∀ d ∈ m, Disjoint d.range existing.range)
    (hrump : pageSize ≤ existing.size.get - size → (existing.base + size) % pageSize = 0)
    (hmin : minChunkSize ≤ existing.size.get - size) :
    ∃ alloc pieces m', m.carve existing size = .ok (alloc, m') ∧
      Carved existing size alloc pieces ∧ m.PutBack pieces m' := by
  have hst : existing.stop = existing.base + existing.size.get := rfl
  have hpos : 0 < size := lt_of_lt_of_le (by decide) hr.min
  obtain ⟨alloc, halloc, hab, has⟩ := exists_new existing.base _ hpos
    (by omega) (fun hp => hal (hp.trans hlt.le))
  obtain ⟨rump, hnew, hrb, hrs⟩ := exists_new (existing.base + size)
    (existing.size.get - size) (by omega) (by omega) hrump
  have hrstop : rump.stop = existing.stop := by
    unfold stop
    omega
  obtain ⟨m', hm', hc', hmem'⟩ := insert_ok h (c := rump) (by omega)
    (fresh_base hdisj (by omega) hrstop.le)
  refine ⟨alloc, [rump], m', ?_, .cut hab has ?_ hrstop (by omega) ?_, hc', ?_⟩
  · have hcond : ¬ (pageSize ≤ existing.size.get - size ∧
        (existing.base + size) &&& pageSizeAlignMask ≠ 0) := by
      rw [and_mask]
      exact fun hc => hc.2 (hrump hc.1)
    simp only [carve, if_neg hlt.ne', halloc, ok_bind, subU32_of_le hlt.le,
      addU32_of_lt (show existing.base + size < u32Bound by omega), if_neg hcond, if_pos hmin, hnew,
      hm']
    rfl
  · unfold stop
    omega
  · intro hp
    rw [hrb]
    exact hrump (by omega)
  · intro d
    rw [hmem', mem_singleton]

lemma carve_ok (h : m.Coherent) (hr : Rounded size) (hle : size ≤ existing.size.get)
    (hstop : existing.stop ≤ u32Bound) (hal : existing.PageAligned)
    (hdisj : ∀ d ∈ m, Disjoint d.range existing.range) :
    ∃ alloc pieces m', m.carve existing size = .ok (alloc, m') ∧
      Carved existing size alloc pieces ∧ m.PutBack pieces m' := by
  have hst : existing.stop = existing.base + existing.size.get := rfl
  rcases hle.eq_or_lt with hexact | hlt
  · refine ⟨existing, [], m, ?_, .whole hle ?_, h, by simp⟩
    · rw [carve, if_pos hexact.symm]
      rfl
    · rw [← hexact]
      exact Nat.lt_add_of_pos_right (by decide)
  by_cases hbig : pageSize ≤ existing.size.get - size ∧ (existing.base + size) % pageSize ≠ 0
  · exact carve_realign h hr hlt hstop hal hdisj hbig.1 hbig.2
  have hrump : pageSize ≤ existing.size.get - size → (existing.base + size) % pageSize = 0 :=
    fun hp => not_not.mp fun hne => hbig ⟨hp, hne⟩
  by_cases hmin : minChunkSize ≤ existing.size.get - size
  · exact carve_cut h hr hlt hstop hal hdisj hrump hmin
  refine ⟨existing, [], m, ?_, .whole hle (by omega), h, by simp⟩
  obtain ⟨alloc, halloc, -⟩ := exists_new existing.base _
    (lt_of_lt_of_le (by decide) hr.min) (hle.trans_lt existing.size.lt) (fun hp => hal (hp.trans hle))
  have hpos := hr.min
  simp only [carve, if_neg hlt.ne', halloc, ok_bind, subU32_of_le hle, and_mask, if_neg hbig,
    addU32_of_lt (show existing.base + size < u32Bound by omega), if_neg hmin, new_self hal]
  rfl

end

lemma bestChunk_spec (size : ℕ) (l : List (Chunk × ℕ)) (best : Option (ℕ × ℕ))
    (hbest : ∀ b ∈ best, size ≤ b.2) :
    match bestChunk size l best with
    | none => best = none ∧ ∀ e ∈ l, e.1.size.get < size
    | some (i, s) => size ≤ s ∧ (best = some (i, s) ∨ ∃ c, (c, i) ∈ l ∧ c.size.get = s) ∧
        (∀ b ∈ best, s ≤ b.2) ∧ ∀ e ∈ l, size ≤ e.1.size.get → s ≤ e.1.size.get := by
  induction l generalizing best with
  | nil =>
    cases best with
    | none => simp [bestChunk]
    | some b => simpa [bestChunk] using hbest
  | cons e rest ih =>
    obtain ⟨c, idx⟩ := e
    by_cases hbetter : size ≤ c.size.get ∧ best.all (fun b => decide (c.size.get < b.2)) = true
    · have hless : ∀ b ∈ best, c.size.get < b.2 := by
        intro b hb
        simpa [Option.mem_def.mp hb] using hbetter.2
      by_cases hexact : c.size.get = size
      · simp only [bestChunk, if_pos hbetter, if_pos hexact]
        refine ⟨hbetter.1, .inr ⟨c, mem_cons_self, rfl⟩, fun b hb => (hless b hb).le, ?_⟩
        intro e _ he
        omega
      · have hrec := ih (some (idx, c.size.get)) (by simpa using hbetter.1)
        rw [bestChunk, if_pos hbetter, if_neg hexact]
        cases hr : bestChunk size rest (some (idx, c.size.get)) with
        | none => simp [hr] at hrec
        | some r =>
          obtain ⟨i, s⟩ := r
          rw [hr] at hrec
          obtain ⟨hs, hwho, hb, hl⟩ := hrec
          have hsc : s ≤ c.size.get := hb (idx, c.size.get) rfl
          refine ⟨hs, .inr ?_, fun b hb => hsc.trans (hless b hb).le, ?_⟩
          · rcases hwho with he | ⟨d, hd, he⟩
            · obtain ⟨rfl, rfl⟩ := Prod.mk.inj (Option.some.inj he)
              exact ⟨c, mem_cons_self, rfl⟩
            · exact ⟨d, mem_cons_of_mem _ hd, he⟩
          · intro e he hsize
            rcases mem_cons.mp he with rfl | he
            · exact hsc
            · exact hl e he hsize
    · have hrec := ih best hbest
      rw [bestChunk, if_neg hbetter]
      cases hr : bestChunk size rest best with
      | none =>
        rw [hr] at hrec
        obtain ⟨rfl, hl⟩ := hrec
        refine ⟨rfl, fun e he => ?_⟩
        rcases mem_cons.mp he with rfl | he
        · simpa using hbetter
        · exact hl e he
      | some r =>
        obtain ⟨i, s⟩ := r
        rw [hr] at hrec
        obtain ⟨hs, hwho, hb, hl⟩ := hrec
        refine ⟨hs, ?_, hb, ?_⟩
        · rcases hwho with he | ⟨d, hd, he⟩
          · exact .inl he
          · exact .inr ⟨d, mem_cons_of_mem _ hd, he⟩
        · intro e he hsize
          rcases mem_cons.mp he with rfl | he
          · cases best with
            | none => simp [hsize] at hbetter
            | some b =>
              have hge : b.2 ≤ c.size.get := by simpa [hsize] using hbetter
              exact (hb b rfl).trans hge
          · exact hl e he hsize

structure Tidy (m : SizeBucketedChunkMap) : Prop where
  coherent : m.Coherent
  stop_le : ∀ c ∈ m, c.stop ≤ u32Bound
  aligned : ∀ c ∈ m, c.PageAligned
  disjoint : ∀ c ∈ m, ∀ d ∈ m, c ≠ d → Disjoint c.range d.range

def AllocatedFrom (m : SizeBucketedChunkMap) (size : ℕ) (existing alloc : Chunk)
    (m' : SizeBucketedChunkMap) : Prop :=
  ∃ pieces, Carved existing size alloc pieces ∧ m'.Coherent ∧
    ∀ d, d ∈ m' ↔ d ∈ pieces ∨ (d ∈ m ∧ d ≠ existing)

lemma allocateInBucket_ok (h : m.Tidy) {size i : ℕ} (hr : Rounded size) {l : List Chunk}
    (hl : m.chunksByLog2Size[i]? = some l) :
    (m.allocateInBucket size i = .ok none ∧ ∀ c ∈ l, c.size.get < size) ∨
      ∃ existing alloc m', m.allocateInBucket size i = .ok (some (alloc, m')) ∧
        SmallestFit size (· ∈ l) existing ∧ m.AllocatedFrom size existing alloc m' := by
  have hb := bucket_eq_ok.mpr hl
  have hspec := bestChunk_spec size l.zipIdx.reverse none (by simp)
  have hmem : ∀ c ∈ l, ∃ i, (c, i) ∈ l.zipIdx.reverse := by
    intro c hc
    obtain ⟨i, hi⟩ := mem_iff_getElem?.mp hc
    exact ⟨i, Vec.mem_zipIdx_reverse.mpr hi⟩
  cases hfound : bestChunk size l.zipIdx.reverse none with
  | none =>
    rw [hfound] at hspec
    refine .inl ⟨by simp [allocateInBucket, hb, hfound], fun c hc => ?_⟩
    obtain ⟨i, hi⟩ := hmem c hc
    exact hspec.2 _ hi
  | some found =>
    obtain ⟨idx, s⟩ := found
    rw [hfound] at hspec
    obtain ⟨hs, hwho, -, hleast⟩ := hspec
    obtain ⟨existing, hidx, rfl⟩ := hwho.resolve_left (by simp)
    have hat : l[idx]? = some existing := Vec.mem_zipIdx_reverse.mp hidx
    have hel := mem_of_getElem? hat
    have hem := ((h.coherent.mem_bucket i l hl existing).mp hel).1
    obtain ⟨rest, hrest⟩ := Vec.swapRemove_of_getElem hat
    obtain ⟨chunks, hchunks⟩ := ChunkMap.removeWithBase_of_mem hem
    obtain ⟨-, -, hother⟩ := ChunkMap.removeWithBase_some hchunks
    have htaken := h.coherent.take hl (Vec.swapRemove_perm hrest) hother
    obtain ⟨alloc, pieces, m', hm', hcarved, hcoh, hput⟩ := carve_ok htaken hr hs
      (h.stop_le existing hem) (h.aligned existing hem) (fun d hd => by
        obtain ⟨hd, hne⟩ := (hother d).mp hd
        exact h.disjoint d hd existing hem hne)
    refine .inr ⟨existing, alloc, m', ?_, ⟨hel, hs, ?_⟩, pieces, hcarved, hcoh, ?_⟩
    · simp [allocateInBucket, hb, hfound, hrest, hchunks, hm', Functor.map, Except.map]
    · intro c hc hsize
      obtain ⟨j, hj⟩ := hmem c hc
      exact hleast _ hj hsize
    · intro d
      exact (hput d).trans (or_congr_right (hother d))

lemma bucketFor_bounds {n i : ℕ} (hn : minChunkSize ≤ n) (h : bucketFor n = .ok i) :
    2 ^ (i + 4) ≤ n ∧ n < 2 ^ (i + 5) := by
  rw [bucketFor_ok hn] at h
  have hi : n.log2 - 4 = i := Except.ok.inj h
  have hn' : n ≠ 0 := by
    rintro rfl
    simp [minChunkSize] at hn
  have hlog : 4 ≤ n.log2 := (Nat.le_log2 hn').mpr hn
  exact ⟨(Nat.le_log2 hn').mp (by omega), (Nat.log2_lt hn').mp (by omega)⟩

lemma lt_of_bucketFor_lt {n k i j : ℕ} (hn : minChunkSize ≤ n) (hk : minChunkSize ≤ k)
    (hi : bucketFor n = .ok i) (hj : bucketFor k = .ok j) (hij : i < j) : n < k :=
  calc n < 2 ^ (i + 5) := (bucketFor_bounds hn hi).2
    _ ≤ 2 ^ (j + 4) := Nat.pow_le_pow_right (by decide) (by omega)
    _ ≤ k := (bucketFor_bounds hk hj).1

lemma exists_mem_of_not_isEmpty {l : List Chunk} (h : (!l.isEmpty) = true) : ∃ c, c ∈ l := by
  cases l with
  | nil => simp at h
  | cons c l => exact ⟨c, mem_cons_self⟩

lemma smallestFit_of_bucket (h : m.Coherent) {size j : ℕ} {l : List Chunk} {existing : Chunk}
    (hl : m.chunksByLog2Size[j]? = some l) (hfit : SmallestFit size (· ∈ l) existing)
    (hlow : ∀ c ∈ m, ∀ k, bucketFor c.size.get = .ok k → k < j → c.size.get < size) :
    SmallestFit size (· ∈ m) existing := by
  obtain ⟨hel, hs, hleast⟩ := hfit
  obtain ⟨hem, hej⟩ := (h.mem_bucket j l hl existing).mp hel
  refine ⟨hem, hs, fun c hc hsize => ?_⟩
  obtain ⟨k, -, hk, -, -⟩ := h.exists_bucket (h.minSize c hc)
  rcases lt_trichotomy k j with hkj | rfl | hkj
  · exact absurd (hlow c hc k hk hkj) hsize.not_gt
  · exact hleast c ((h.mem_bucket k l hl c).mpr ⟨hc, hk⟩) hsize
  · exact (lt_of_bucketFor_lt (h.minSize _ hem) (h.minSize c hc) hej hk hkj).le

lemma allocate_ok (h : m.Tidy) {size : ℕ} (hr : Rounded size) (hlt : size < u32Bound) :
    (m.allocate size = .ok none ∧ ∀ c ∈ m, c.size.get < size) ∨
      ∃ existing alloc m', m.allocate size = .ok (some (alloc, m')) ∧
        SmallestFit size (· ∈ m) existing ∧ m.AllocatedFrom size existing alloc m' := by
  have hcoh := h.coherent
  have hi := bucketFor_ok hr.min
  set i := Nat.log2 size - 4
  have hlen : i < m.chunksByLog2Size.length := by
    rw [hcoh.length]
    exact log2_lt_bucketCount hr.min hlt
  have hl := getElem?_eq_getElem hlen
  have hlow : ∀ c ∈ m, ∀ k, bucketFor c.size.get = .ok k → k < i → c.size.get < size :=
    fun c hc k hk hki => lt_of_bucketFor_lt (hcoh.minSize c hc) hr.min hk hi hki
  rcases allocateInBucket_ok h hr hl with ⟨hnone, hsmall⟩ | ⟨existing, alloc, m', hsome, hfit, hfrom⟩
  · have hlow' : ∀ c ∈ m, ∀ k, bucketFor c.size.get = .ok k → k ≤ i → c.size.get < size := by
      intro c hc k hk hki
      rcases hki.eq_or_lt with he | hki
      · exact hsmall c ((hcoh.mem_bucket i _ hl c).mpr ⟨hc, he ▸ hk⟩)
      · exact hlow c hc k hk hki
    cases hp : (m.chunksByLog2Size.drop (i + 1)).findIdx? fun l => !l.isEmpty with
    | none =>
      refine .inl ⟨by simp [allocate, hr.min, hi, hnone, hp, hlen], fun c hc => ?_⟩
      obtain ⟨k, l, hk, -, hkl⟩ := hcoh.exists_bucket (hcoh.minSize c hc)
      refine hlow' c hc k hk (not_lt.mp fun hik => ?_)
      have hdrop : l ∈ m.chunksByLog2Size.drop (i + 1) := by
        refine mem_of_getElem? (i := k - (i + 1)) ?_
        rw [getElem?_drop, show i + 1 + (k - (i + 1)) = k by omega, hkl]
      have hempty := findIdx?_eq_none_iff.mp hp l hdrop
      have hcl := (hcoh.mem_bucket k l hkl c).mpr ⟨hc, hk⟩
      cases l <;> simp_all
    | some p =>
      obtain ⟨hpl, hne, hfirst⟩ := findIdx?_eq_some_iff_getElem.mp hp
      rw [length_drop] at hpl
      have hl' : m.chunksByLog2Size[p + i + 1]? = some (m.chunksByLog2Size.drop (i + 1))[p] := by
        rw [← getElem?_eq_getElem, getElem?_drop, show i + 1 + p = p + i + 1 by omega]
      obtain ⟨d, hd⟩ : ∃ d, d ∈ (m.chunksByLog2Size.drop (i + 1))[p] :=
        exists_mem_of_not_isEmpty hne
      obtain ⟨hdm, hdp⟩ := (hcoh.mem_bucket _ _ hl' d).mp hd
      have hdsize := lt_of_bucketFor_lt hr.min (hcoh.minSize d hdm) hi hdp (by omega)
      rcases allocateInBucket_ok h hr hl' with ⟨-, hsmall'⟩ | ⟨existing, alloc, m', hsome, hfit, hfrom⟩
      · exact absurd (hsmall' d hd) hdsize.not_gt
      · refine .inr ⟨existing, alloc, m', ?_, smallestFit_of_bucket hcoh hl' hfit ?_, hfrom⟩
        · simp [allocate, hr.min, hi, hnone, hp, hlen, hsome]
        · intro c hc k hk hkp
          refine hlow' c hc k hk (not_lt.mp fun hik => ?_)
          -- the buckets skipped on the way are empty
          obtain ⟨k', l, hk', -, hkl⟩ := hcoh.exists_bucket (hcoh.minSize c hc)
          obtain rfl : k' = k := Except.ok.inj (hk'.symm.trans hk)
          have hcl := (hcoh.mem_bucket k' l hkl c).mpr ⟨hc, hk⟩
          have hskip := hfirst (k' - (i + 1)) (by omega)
          have hat : (m.chunksByLog2Size.drop (i + 1))[k' - (i + 1)]? = some l := by
            rw [getElem?_drop, show i + 1 + (k' - (i + 1)) = k' by omega, hkl]
          rw [(List.getElem?_eq_some_iff.mp hat).2] at hskip
          cases l <;> simp_all
  · exact .inr ⟨existing, alloc, m', by simp [allocate, hr.min, hi, hsome],
      smallestFit_of_bucket hcoh hl hfit hlow, hfrom⟩

end SizeBucketedChunkMap

end TouchHle.Memory
