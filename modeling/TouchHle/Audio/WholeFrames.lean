import TouchHle.Audio.Decoding

namespace TouchHle.Audio

open Lib List

variable {Rate : Type} {format : AudioStreamBasicDescription Rate} {c : Conversions Rate}
  {data : List UInt8} {n : ℕ}

def unitSize (format : AudioStreamBasicDescription Rate) : ℕ :=
  if format.formatId = .appleIMA4 then 34 * format.channelsPerFrame else format.bytesPerFrame

def wholeUnits (format : AudioStreamBasicDescription Rate) (data : List UInt8) : List UInt8 :=
  data.take (data.length / unitSize format * unitSize format)

def DecodesWell (format : AudioStreamBasicDescription Rate) (c : Conversions Rate)
    (data : List UInt8) : Prop :=
  isSupportedAudioFormat format = true →
    format.formatId = .appleIMA4 ∨ format.formatId = .linearPCM →
      ∃ al rate out, decodeBuffer format c data = .ok (al, rate, out) ∧
        al.frameSize ∣ out.length ∧
        decodeBuffer format c (wholeUnits format data) = .ok (al, rate, out)

def leftOver (format : AudioStreamBasicDescription Rate) (data : List UInt8) : ℕ :=
  (data.length / format.bytesPerFrame * format.bytesPerFrame) % actualBytesPerFrame format

/-- Packets of stereo come in pairs. Samples come in frames that are not empty, and if a frame is
not what its samples need then there is none, or it is shorter and so is no piece of the buffer;
and frames of three bytes make an even number of pieces. -/
def Decodable (format : AudioStreamBasicDescription Rate) (data : List UInt8) : Prop :=
  (format.formatId = .appleIMA4 → format.channelsPerFrame = 2 → Even (data.length / 34)) ∧
    (format.formatId = .linearPCM → format.bytesPerFrame ≠ 0 ∧
      (actualBytesPerFrame format = format.bytesPerFrame ∨ data.length < format.bytesPerFrame ∨
        (format.bytesPerFrame < actualBytesPerFrame format ∧
          (leftOver format data = 0 ∨ format.bytesPerFrame ≤ leftOver format data) ∧
          (format.bytesPerFrame = 3 → format.bitsPerChannel = 16 →
            Even ((data.length / 3 * 3 + 3) / 4)))))

section Packets

variable {packets : List (List UInt8)}

lemma length_flatMap_sampleBytes (l : List ℤ) : (l.flatMap sampleBytes).length = 2 * l.length := by
  induction l with
  | nil => rfl
  | cons v l ih =>
    rw [flatMap_cons, length_append, ih, length_sampleBytes, length_cons]
    ring

lemma length_interleaved (l : List (ℤ × ℤ)) :
    (l.flatMap fun p => sampleBytes p.1 ++ sampleBytes p.2).length = 4 * l.length := by
  induction l with
  | nil => rfl
  | cons v l ih =>
    rw [flatMap_cons, length_append, ih, length_append, length_sampleBytes,
      length_sampleBytes, length_cons]
    ring

lemma decodeMono_ok (h : ∀ p ∈ packets, p.length = 34) :
    ∃ out, decodeMono packets = .ok out ∧ out.length = 128 * packets.length := by
  induction packets with
  | nil => exact ⟨[], rfl, rfl⟩
  | cons packet packets ih =>
    obtain ⟨out, hout, hlen⟩ := ih fun p hp => h p (mem_cons_of_mem _ hp)
    obtain ⟨samples, hsamples, hcount⟩ := decodeIma4_ok (h packet mem_cons_self)
    refine ⟨samples.flatMap sampleBytes ++ out, ?_, ?_⟩
    · rw [decodeMono, hsamples, ok_bind, hout, ok_bind]
      rfl
    · rw [length_append, length_flatMap_sampleBytes, hcount, hlen, length_cons]
      ring

lemma decodeStereo_cases (packets : List (List UInt8)) (h : ∀ p ∈ packets, p.length = 34) :
    (Even packets.length ∧
      ∃ out, decodeStereo packets = .ok out ∧ out.length = 128 * packets.length) ∨
    (¬ Even packets.length ∧ decodeStereo packets = .error .unwrap) := by
  induction packets using decodeStereo.induct with
  | case1 => exact .inl ⟨Even.zero, [], rfl, rfl⟩
  | case2 left =>
    obtain ⟨samples, hsamples, -⟩ := decodeIma4_ok (h left mem_cons_self)
    refine .inr ⟨by simp, ?_⟩
    rw [decodeStereo, hsamples, ok_bind]
  | case3 left right packets ih =>
    obtain ⟨l, hl, hlcount⟩ := decodeIma4_ok (h left mem_cons_self)
    obtain ⟨r, hr, hrcount⟩ := decodeIma4_ok
      (h right (mem_cons_of_mem _ mem_cons_self))
    have hparity : Even (left :: right :: packets).length ↔ Even packets.length := by
      rw [length_cons, length_cons, Nat.add_assoc]
      exact Nat.even_add.trans (iff_true_right (by decide))
    rw [hparity, decodeStereo, hl, ok_bind, hr, ok_bind]
    obtain ⟨heven, out, hout, hlen⟩ | ⟨hodd, herror⟩ := ih fun p hp =>
      h p (mem_cons_of_mem _ (mem_cons_of_mem _ hp))
    · refine .inl ⟨heven, (l.zip r).flatMap (fun p => sampleBytes p.1 ++ sampleBytes p.2) ++ out,
        ?_, ?_⟩
      · rw [hout, ok_bind]
        rfl
      · rw [length_append, length_interleaved, length_zip, hlcount, hrcount,
          Nat.min_self, hlen, length_cons, length_cons]
        ring
    · exact .inr ⟨hodd, by rw [herror]; rfl⟩

end Packets

section Samples

variable {frames : List (List UInt8)}

lemma convertFrame_ok {frame : List UInt8} (h : n ≤ frame.length) :
    ∃ out, convertFrame n frame = .ok out ∧ out.length = n := by
  unfold convertFrame
  rw [if_neg (by omega)]
  split_ifs
  · refine ⟨_, rfl, ?_⟩
    rw [length_reverse, length_drop]
    omega
  · exact ⟨_, rfl, length_replicate⟩

lemma convertFrames_ok (h : ∀ frame ∈ frames, n ≤ frame.length) :
    ∃ out, convertFrames n frames = .ok out ∧ out.length = n * frames.length := by
  induction frames with
  | nil => exact ⟨[], rfl, rfl⟩
  | cons frame frames ih =>
    obtain ⟨bytes, hbytes, hlen⟩ := convertFrame_ok (h frame mem_cons_self)
    obtain ⟨out, hout, hcount⟩ := ih fun f hf => h f (mem_cons_of_mem _ hf)
    refine ⟨bytes ++ out, ?_, ?_⟩
    · rw [convertFrames, hbytes, ok_bind, hout, ok_bind]
      rfl
    · rw [length_append, hlen, hcount, length_cons]
      ring

lemma le_of_convertFrames {out : List UInt8} (h : convertFrames n frames = .ok out) :
    ∀ frame ∈ frames, n ≤ frame.length := by
  induction frames generalizing out with
  | nil => exact fun frame hframe => absurd hframe not_mem_nil
  | cons frame frames ih =>
    rw [convertFrames] at h
    obtain ⟨bytes, hbytes, h⟩ := bind_eq_ok.mp h
    obtain ⟨rest, hrest, -⟩ := bind_eq_ok.mp h
    intro f hf
    rcases mem_cons.mp hf with rfl | hf
    · by_contra hshort
      rw [convertFrame, if_pos (by omega)] at hbytes
      cases hbytes
    · exact ih hrest f hf

lemma length_narrow (data : List UInt8) :
    (narrow format c data).length = 2 * (data.length / 4) := by
  have hcount : ∀ (l : List (List UInt8)) (f : List UInt8 → ℤ),
      (l.flatMap fun chunk => sampleBytes (f chunk)).length = 2 * l.length := by
    intro l f
    induction l with
    | nil => rfl
    | cons chunk l ih =>
      rw [flatMap_cons, length_append, ih, length_sampleBytes, length_cons]
      ring
  have hlen : (data.take (data.length / 4 * 4)).length = data.length / 4 * 4 := by
    rw [length_take]
    omega
  unfold narrow
  rw [hcount, length_chunks_of_dvd (by decide) (by rw [hlen]; exact Nat.dvd_mul_left _ _), hlen,
    Nat.mul_div_cancel _ (by decide)]

end Samples

section Buffers

lemma length_take_whole (data : List UInt8) (n : ℕ) :
    (data.take (data.length / n * n)).length = data.length / n * n := by
  have hle := Nat.div_mul_le_self data.length n
  rw [length_take]
  omega

lemma take_whole_whole (data : List UInt8) (n : ℕ) :
    (data.take (data.length / n * n)).take ((data.take (data.length / n * n)).length / n * n) =
      data.take (data.length / n * n) := by
  rw [length_take_whole]
  rcases Nat.eq_zero_or_pos n with rfl | hn
  · simp
  · rw [Nat.mul_div_cancel _ hn, take_take, Nat.min_self]

lemma packets_whole (data : List UInt8) :
    (∀ p ∈ chunks 34 (data.take (data.length / 34 * 34)), p.length = 34) ∧
      (chunks 34 (data.take (data.length / 34 * 34))).length = data.length / 34 := by
  have hlen := length_take_whole data 34
  have hdvd : 34 ∣ (data.take (data.length / 34 * 34)).length := by
    rw [hlen]
    exact Nat.dvd_mul_left _ _
  refine ⟨fun p hp => length_of_dvd (by decide) hdvd hp, ?_⟩
  rw [length_chunks_of_dvd (by decide) hdvd, hlen, Nat.mul_div_cancel _ (by decide)]

lemma decodeIma4Buffer_whole (hn : data.length / n * n = data.length / 34 * 34) :
    decodeIma4Buffer format c (data.take (data.length / n * n)) =
      decodeIma4Buffer format c data := by
  unfold decodeIma4Buffer
  rw [hn, take_whole_whole]

lemma decodeIma4Buffer_mono (h : format.channelsPerFrame = 1) :
    ∃ al rate out, decodeIma4Buffer format c data = .ok (al, rate, out) ∧
      al.frameSize ∣ out.length := by
  obtain ⟨hpackets, hcount⟩ := packets_whole data
  obtain ⟨out, hout, hlen⟩ := decodeMono_ok hpackets
  refine ⟨.mono16, c.toSize format.sampleRate, out, ?_, ?_⟩
  · unfold decodeIma4Buffer
    dsimp only
    rw [if_pos h, hout, ok_bind]
    rfl
  · rw [hlen]
    exact (by decide : 2 ∣ 128).mul_right _

lemma decodeIma4Buffer_stereo_iff (h : format.channelsPerFrame = 2) :
    (∃ al rate out, decodeIma4Buffer format c data = .ok (al, rate, out) ∧
      al.frameSize ∣ out.length) ↔ Even (data.length / 34) := by
  obtain ⟨hpackets, hcount⟩ := packets_whole data
  have hne : ¬ format.channelsPerFrame = 1 := by omega
  unfold decodeIma4Buffer
  dsimp only
  rw [if_neg hne]
  have hcases := decodeStereo_cases _ hpackets
  rw [hcount] at hcases
  obtain ⟨heven, out, hout, hlen⟩ | ⟨hodd, herror⟩ := hcases
  · refine iff_of_true ⟨.stereo16, c.toSize format.sampleRate, out, ?_, ?_⟩ heven
    · rw [hout, ok_bind]
      rfl
    · rw [hlen]
      exact (by decide : 4 ∣ 128).mul_right _
  · refine iff_of_false ?_ hodd
    rintro ⟨al, rate, out, hok, -⟩
    rw [herror] at hok
    cases hok

lemma decodeLinearPCM_eq (hid : format.formatId = .linearPCM) (h : format.bytesPerFrame ≠ 0) :
    decodeLinearPCM format c data = (do
      return report format c (format.bytesPerFrame / bytesPerChannel format)
        (← processFrames format (wholeUnits format data))) := by
  have hunit : unitSize format = format.bytesPerFrame := by
    rw [unitSize, if_neg (by rw [hid]; decide)]
  have haligned : data.length - data.length % format.bytesPerFrame =
      data.length / format.bytesPerFrame * format.bytesPerFrame := by
    have hsum := Nat.div_add_mod data.length format.bytesPerFrame
    rw [Nat.mul_comm] at hsum
    omega
  unfold decodeLinearPCM wholeUnits
  rw [rem, if_neg h, ok_bind, hunit, haligned]

lemma decodeLinearPCM_zero (h : format.bytesPerFrame = 0) :
    decodeLinearPCM format c data = .error .overflow := by
  unfold decodeLinearPCM
  rw [rem, if_pos h, error_bind]

lemma accepted (hid : format.formatId = .linearPCM) (h : isSupportedAudioFormat format = true) :
    (format.channelsPerFrame = 1 ∨ format.channelsPerFrame = 2) ∧
      (format.bitsPerChannel = 8 ∨ format.bitsPerChannel = 16 ∨ format.bitsPerChannel = 32) := by
  rw [isSupportedAudioFormat, hid] at h
  have h := of_decide_eq_true h
  exact ⟨h.1, h.2.1⟩

lemma length_wholeUnits (hid : format.formatId = .linearPCM) (data : List UInt8) :
    (wholeUnits format data).length =
      data.length / format.bytesPerFrame * format.bytesPerFrame := by
  have hunit : unitSize format = format.bytesPerFrame := by
    rw [unitSize, if_neg (by rw [hid]; decide)]
  unfold wholeUnits
  rw [hunit, length_take_whole]

lemma report_dvd (channels : ℕ) (h₁ : channels = 1 → format.bitsPerChannel = 16 → 2 ∣ data.length)
    (h₂ : channels = 2 → format.bitsPerChannel = 8 → 2 ∣ data.length)
    (h₃ : channels = 2 → format.bitsPerChannel = 16 → 4 ∣ data.length)
    (h₄ : channels = 2 → format.bitsPerChannel = 32 → 8 ∣ data.length) :
    (report format c channels data).1.frameSize ∣ (report format c channels data).2.2.length := by
  unfold report
  dsimp only
  split_ifs with hm8 hm16 hs8 hs16 hm32 hs32
  · exact Nat.one_dvd _
  · exact h₁ hm16.1 hm16.2
  · exact h₂ hs8.1 hs8.2
  · exact h₃ hs16.1 hs16.2
  · rw [length_narrow]
    exact Nat.dvd_mul_right _ _
  · obtain ⟨k, hk⟩ := h₄ hs32.1 hs32.2
    rw [length_narrow, hk]
    change 4 ∣ _
    exact ⟨k, by omega⟩
  · exact Nat.dvd_zero _

lemma decodeLinearPCM_iff (hid : format.formatId = .linearPCM)
    (hsupported : isSupportedAudioFormat format = true) :
    (∃ al rate out, decodeLinearPCM format c data = .ok (al, rate, out) ∧
      al.frameSize ∣ out.length) ↔
      format.bytesPerFrame ≠ 0 ∧
      (actualBytesPerFrame format = format.bytesPerFrame ∨ data.length < format.bytesPerFrame ∨
        (format.bytesPerFrame < actualBytesPerFrame format ∧
          (leftOver format data = 0 ∨ format.bytesPerFrame ≤ leftOver format data) ∧
          (format.bytesPerFrame = 3 → format.bitsPerChannel = 16 →
            Even ((data.length / 3 * 3 + 3) / 4)))) := by
  obtain ⟨hchannels, hbits⟩ := accepted hid hsupported
  by_cases hzero : format.bytesPerFrame = 0
  · refine iff_of_false ?_ fun h => h.1 hzero
    rintro ⟨al, rate, out, hok, -⟩
    rw [decodeLinearPCM_zero hzero] at hok
    cases hok
  rw [and_iff_right hzero, decodeLinearPCM_eq hid hzero]
  have hlen := length_wholeUnits hid data
  have hchannel : bytesPerChannel format = 1 ∨ bytesPerChannel format = 2 ∨
      bytesPerChannel format = 4 := by
    unfold bytesPerChannel
    omega
  have hneeded : actualBytesPerFrame format = format.channelsPerFrame * bytesPerChannel format := rfl
  have hpos : 0 < actualBytesPerFrame format := by
    rw [hneeded]
    exact Nat.mul_pos (by omega) (by omega)
  by_cases hexact : actualBytesPerFrame format = format.bytesPerFrame
  · refine iff_of_true ?_ (.inl hexact)
    have hdvd : actualBytesPerFrame format ∣ (wholeUnits format data).length := by
      rw [hlen, ← hexact]
      exact Nat.dvd_mul_left _ _
    have hratio : format.bytesPerFrame / bytesPerChannel format = format.channelsPerFrame := by
      rw [← hexact, hneeded]
      exact Nat.mul_div_cancel _ (by omega)
    rw [processFrames, if_pos hexact, ok_bind, hratio]
    refine ⟨_, _, _, rfl, report_dvd _ ?_ ?_ ?_ ?_⟩
    all_goals
      intro hch hb
      refine Nat.dvd_trans ?_ hdvd
      rw [hneeded, hch, bytesPerChannel, hb]
  rw [or_iff_right hexact, processFrames, if_neg hexact]
  by_cases hempty : data.length < format.bytesPerFrame
  · refine iff_of_true ?_ (.inl hempty)
    have hnil : wholeUnits format data = [] := by
      refine eq_nil_of_length_eq_zero ?_
      rw [hlen, Nat.div_eq_of_lt hempty, Nat.zero_mul]
    obtain ⟨out, hout, hcount⟩ : ∃ out, convertFrames format.bytesPerFrame
        (chunks (actualBytesPerFrame format) (wholeUnits format data)) = .ok out ∧
        out.length = 0 := by
      have hnone : chunks (actualBytesPerFrame format) (wholeUnits format data) = [] := by
        refine eq_nil_of_length_eq_zero ?_
        rw [length_chunks, hnil, length_nil]
        exact Nat.div_eq_of_lt (by omega)
      exact ⟨[], by rw [hnone]; rfl, rfl⟩
    rw [hout, ok_bind]
    refine ⟨_, _, _, rfl, report_dvd _ ?_ ?_ ?_ ?_⟩
    all_goals
      intro _ _
      rw [hcount]
      exact Nat.dvd_zero _
  rw [or_iff_right hempty]
  have hfull : format.bytesPerFrame ≤ (wholeUnits format data).length := by
    rw [hlen]
    exact Nat.le_mul_of_pos_left _ (Nat.div_pos (by omega) (by omega))
  have hleft : leftOver format data = (wholeUnits format data).length %
      actualBytesPerFrame format := by
    rw [hlen]
    rfl
  have hpieces : format.bytesPerFrame = 3 → format.bitsPerChannel = 16 →
      format.bytesPerFrame < actualBytesPerFrame format →
      (chunks (actualBytesPerFrame format) (wholeUnits format data)).length =
        (data.length / 3 * 3 + 3) / 4 := by
    intro hthree hsixteen hlt
    have hfour : actualBytesPerFrame format = 4 := by
      rw [hneeded, bytesPerChannel, hsixteen] at hlt ⊢
      omega
    rw [length_chunks, hlen, hfour, hthree]
    rfl
  constructor
  · rintro ⟨al, rate, out, hok, hdvd⟩
    obtain ⟨bytes, hbytes, hok⟩ := bind_eq_ok.mp hok
    have hall := le_of_convertFrames hbytes
    have hlt : format.bytesPerFrame < actualBytesPerFrame format := by
      by_contra hge
      obtain ⟨piece, hpiece, hcount⟩ := exists_full_chunk hpos
        (show actualBytesPerFrame format ≤ (wholeUnits format data).length by omega)
      have hle := hall piece hpiece
      omega
    refine ⟨hlt, ?_, fun hthree hsixteen => ?_⟩
    · by_cases hnothing : leftOver format data = 0
      · exact .inl hnothing
      · obtain ⟨piece, hpiece, hcount⟩ := exists_last_chunk hpos
          (show 0 < (wholeUnits format data).length % actualBytesPerFrame format by omega)
        have hle := hall piece hpiece
        exact .inr (by omega)
    · obtain ⟨bytes', hbytes', hcount⟩ := convertFrames_ok hall
      rw [hbytes] at hbytes'
      obtain rfl := Except.ok.inj hbytes'
      have hone : format.bytesPerFrame / bytesPerChannel format = 1 := by
        rw [bytesPerChannel, hthree, hsixteen]
      have hreport := Except.ok.inj hok
      rw [hone, report, if_neg (by omega), if_pos ⟨rfl, hsixteen⟩] at hreport
      obtain ⟨rfl, hrest⟩ := Prod.mk.inj hreport
      obtain ⟨-, rfl⟩ := Prod.mk.inj hrest
      rw [hcount, hpieces hthree hsixteen hlt, hthree] at hdvd
      have hdvd : 2 ∣ 3 * ((data.length / 3 * 3 + 3) / 4) := hdvd
      exact even_iff_two_dvd.mpr (by omega)
  · rintro ⟨hlt, hrest, heven⟩
    have hall : ∀ piece ∈ chunks (actualBytesPerFrame format) (wholeUnits format data),
        format.bytesPerFrame ≤ piece.length := by
      intro piece hpiece
      obtain h | h := length_of_mem_chunks hpos hpiece
      · omega
      · omega
    obtain ⟨out, hout, hcount⟩ := convertFrames_ok hall
    rw [hout, ok_bind]
    refine ⟨_, _, _, rfl, report_dvd _ (fun hch hb => ?_) (fun hch hb => ?_) (fun hch hb => ?_)
      (fun hch hb => ?_)⟩
    · have htwo : bytesPerChannel format = 2 := by rw [bytesPerChannel, hb]
      rw [htwo] at hch
      rw [hcount]
      by_cases hthree : format.bytesPerFrame = 3
      · rw [hpieces hthree hb hlt]
        exact (even_iff_two_dvd.mp (heven hthree hb)).mul_left _
      · have heven : format.bytesPerFrame = 2 := by omega
        rw [heven]
        exact Nat.dvd_mul_right _ _
    · have hone : bytesPerChannel format = 1 := by rw [bytesPerChannel, hb]
      rw [hone] at hch hneeded
      omega
    · have htwo : bytesPerChannel format = 2 := by rw [bytesPerChannel, hb]
      rw [htwo] at hch hneeded
      omega
    · have hfour : bytesPerChannel format = 4 := by rw [bytesPerChannel, hb]
      rw [hfour] at hch hneeded
      omega

lemma decodeLinearPCM_whole (hid : format.formatId = .linearPCM) (data : List UInt8) :
    decodeLinearPCM format c (wholeUnits format data) = decodeLinearPCM format c data := by
  by_cases hzero : format.bytesPerFrame = 0
  · rw [decodeLinearPCM_zero hzero, decodeLinearPCM_zero hzero]
  · have hwhole : wholeUnits format (wholeUnits format data) = wholeUnits format data :=
      take_whole_whole data (unitSize format)
    rw [decodeLinearPCM_eq hid hzero, decodeLinearPCM_eq hid hzero, hwhole]

lemma decodeIma4Buffer_iff (hid : format.formatId = .appleIMA4)
    (hchannels : format.channelsPerFrame = 1 ∨ format.channelsPerFrame = 2) :
    (∃ al rate out, decodeIma4Buffer format c data = .ok (al, rate, out) ∧
      al.frameSize ∣ out.length ∧
      decodeIma4Buffer format c (wholeUnits format data) = .ok (al, rate, out)) ↔
      (format.channelsPerFrame = 2 → Even (data.length / 34)) := by
  have hunit : unitSize format = 34 * format.channelsPerFrame := if_pos hid
  obtain hmono | hstereo := hchannels
  · refine iff_of_true ?_ fun h => by omega
    obtain ⟨al, rate, out, hok, hdvd⟩ := decodeIma4Buffer_mono hmono
    refine ⟨al, rate, out, hok, hdvd, ?_⟩
    rw [wholeUnits, hunit, hmono, decodeIma4Buffer_whole rfl, hok]
  · rw [imp_iff_right hstereo, ← decodeIma4Buffer_stereo_iff hstereo]
    constructor
    · rintro ⟨al, rate, out, hok, hdvd, -⟩
      exact ⟨al, rate, out, hok, hdvd⟩
    · intro h
      have heven := (decodeIma4Buffer_stereo_iff hstereo).mp h
      obtain ⟨al, rate, out, hok, hdvd⟩ := h
      obtain ⟨k, hk⟩ := heven
      refine ⟨al, rate, out, hok, hdvd, ?_⟩
      rw [wholeUnits, hunit, hstereo, decodeIma4Buffer_whole (by omega), hok]

/-- The buffers that are decoded, for every description that is accepted. -/
theorem decodesWell_iff (format : AudioStreamBasicDescription Rate) (c : Conversions Rate)
    (data : List UInt8) : DecodesWell format c data ↔
      (isSupportedAudioFormat format = true → Decodable format data) := by
  unfold DecodesWell
  refine imp_congr_right fun hsupported => ?_
  unfold Decodable decodeBuffer
  simp only [hsupported, if_true]
  cases hid : format.formatId with
  | appleIMA4 =>
    have hchannels : format.channelsPerFrame = 1 ∨ format.channelsPerFrame = 2 := by
      rw [isSupportedAudioFormat, hid] at hsupported
      exact of_decide_eq_true hsupported
    simp only [true_or, true_implies, reduceCtorEq, false_implies, and_true]
    exact decodeIma4Buffer_iff hid hchannels
  | linearPCM =>
    simp only [or_true, true_implies, reduceCtorEq, false_implies, true_and]
    rw [← decodeLinearPCM_iff (c := c) hid hsupported]
    constructor
    · rintro ⟨al, rate, out, hok, hdvd, -⟩
      exact ⟨al, rate, out, hok, hdvd⟩
    · rintro ⟨al, rate, out, hok, hdvd⟩
      exact ⟨al, rate, out, hok, hdvd, (decodeLinearPCM_whole hid data).trans hok⟩
  | mpegLayer3 => simp
  | mpeg4AAC => simp
  | other => simp

end Buffers

def emptyFrames : AudioStreamBasicDescription Unit := ⟨(), .linearPCM, flagIsPacked, 0, 1, 16⟩

def noConversions : Conversions Unit where
  toSize _ := 44100
  atLeast8000 rate := rate
  floatToI16 _ := 0
  decodeCompressed _ _ := .error .assertion

theorem emptyFrames_panic : ¬ ∀ format data, DecodesWell format noConversions data := by
  intro h
  obtain ⟨al, rate, out, hok, -⟩ := h emptyFrames [1, 2] (by decide) (.inr rfl)
  have herror : decodeBuffer emptyFrames noConversions [1, 2] = .error .overflow :=
    (if_pos (by decide)).trans (decodeLinearPCM_zero rfl)
  rw [herror] at hok
  cases hok

end TouchHle.Audio
