import TouchHle.Lib.Bytes
import TouchHle.Lib.Vec

namespace TouchHle.Audio

open Lib List

def indexTable : List ℤ := [-1, -1, -1, -1, 2, 4, 6, 8, -1, -1, -1, -1, 2, 4, 6, 8]

def stepSizeTable : List ℕ := [
  7, 8, 9, 10, 11, 12, 13, 14, 16, 17, 19, 21, 23, 25, 28, 31, 34, 37, 41, 45, 50, 55, 60, 66,
  73, 80, 88, 97, 107, 118, 130, 143, 157, 173, 190, 209, 230, 253, 279, 307, 337, 371, 408, 449,
  494, 544, 598, 658, 724, 796, 876, 963, 1060, 1166, 1282, 1411, 1552, 1707, 1878, 2066, 2272,
  2499, 2749, 3024, 3327, 3660, 4026, 4428, 4871, 5358, 5894, 6484, 7132, 7845, 8630, 9493,
  10442, 11487, 12635, 13899, 15289, 16818, 18500, 20350, 22385, 24623, 27086, 29794, 32767]

def addU16 (x y : ℕ) : Checked ℕ := if x + y < 2 ^ 16 then .ok (x + y) else .error .overflow

def stepSize (index : ℕ) : Checked ℕ := (stepSizeTable[index]?).elim (.error .index) .ok

def indexStep (nibble : ℕ) : Checked ℤ := (indexTable[nibble]?).elim (.error .index) .ok

structure Ima4 where
  index : ℕ
  predictedSample : ℤ
  stepSize : ℕ

def addIfSet (nibble bit difference step : ℕ) : Checked ℕ :=
  if nibble &&& bit ≠ 0 then addU16 difference step else .ok difference

def difference (stepSize nibble : ℕ) : Checked ℕ := do
  let d ← addIfSet nibble 4 0 stepSize
  let d ← addIfSet nibble 2 d (stepSize >>> 1)
  let d ← addIfSet nibble 1 d (stepSize >>> 2)
  addU16 d (stepSize >>> 3)

def clampIndex (index : ℤ) : ℕ := min index.toNat (stepSizeTable.length - 1)

def Ima4.next (s : Ima4) (nibble : ℕ) : Checked Ima4 := do
  let d ← difference s.stepSize nibble
  let sample := if nibble &&& 8 ≠ 0 then max (s.predictedSample - d) (-2 ^ 15)
    else min (s.predictedSample + d) (2 ^ 15 - 1)
  let index := clampIndex (s.index + (← indexStep nibble))
  return ⟨index, sample, ← Audio.stepSize index⟩

def nibbles (byte : UInt8) : List ℕ := [byte.toNat % 16, byte.toNat / 16]

def asI16 (n : ℕ) : ℤ := if n < 2 ^ 15 then n else (n : ℤ) - 2 ^ 16

def samples : Ima4 → List ℕ → Checked (List ℤ)
  | _, [] => return []
  | s, nibble :: rest => do
    let s ← s.next nibble
    return s.predictedSample :: (← samples s rest)

def decodeIma4 (packet : List UInt8) : Checked (List ℤ) := do
  let header := (packet.getD 0 0).toNat * 256 + (packet.getD 1 0).toNat
  let index := min (header % 128) (stepSizeTable.length - 1)
  samples ⟨index, asI16 (header / 128 * 128), ← stepSize index⟩ ((packet.drop 2).flatMap nibbles)

def sampleBytes (sample : ℤ) : List UInt8 :=
  [UInt8.ofNat (sample % 2 ^ 16).toNat, UInt8.ofNat ((sample % 2 ^ 16).toNat / 256)]

section

variable {s : Ima4} {n nibble : ℕ} {packet : List UInt8}

lemma stepSizeTable_le : ∀ v ∈ stepSizeTable, v ≤ 32767 := by decide

lemma stepSize_ok (h : n < stepSizeTable.length) : ∃ v, stepSize n = .ok v ∧ v ≤ 32767 := by
  refine ⟨stepSizeTable[n], ?_, stepSizeTable_le _ (getElem_mem h)⟩
  rw [stepSize, getElem?_eq_getElem h]
  rfl

lemma indexStep_ok (h : nibble < 16) : ∃ v, indexStep nibble = .ok v := by
  have hlt : nibble < indexTable.length := h
  exact ⟨indexTable[nibble], by rw [indexStep, getElem?_eq_getElem hlt]; rfl⟩

lemma addU16_ok {x y : ℕ} (h : x + y < 2 ^ 16) : addU16 x y = .ok (x + y) := if_pos h

lemma addIfSet_ok {x y : ℕ} (nibble bit : ℕ) (h : x + y < 2 ^ 16) :
    ∃ d, addIfSet nibble bit x y = .ok d ∧ d ≤ x + y := by
  unfold addIfSet
  split_ifs
  · exact ⟨_, addU16_ok h, le_rfl⟩
  · exact ⟨x, rfl, by omega⟩

lemma difference_ok (h : n ≤ 32767) (nibble : ℕ) : ∃ d, difference n nibble = .ok d := by
  have hhalf : n >>> 1 = n / 2 := Nat.shiftRight_eq_div_pow n 1
  have hquarter : n >>> 2 = n / 4 := Nat.shiftRight_eq_div_pow n 2
  have height : n >>> 3 = n / 8 := Nat.shiftRight_eq_div_pow n 3
  obtain ⟨d₁, h₁, hle₁⟩ := addIfSet_ok nibble 4 (x := 0) (y := n) (by omega)
  obtain ⟨d₂, h₂, hle₂⟩ := addIfSet_ok nibble 2 (x := d₁) (y := n >>> 1) (by omega)
  obtain ⟨d₃, h₃, hle₃⟩ := addIfSet_ok nibble 1 (x := d₂) (y := n >>> 2) (by omega)
  refine ⟨d₃ + n >>> 3, ?_⟩
  rw [difference, h₁, ok_bind, h₂, ok_bind, h₃, ok_bind, addU16_ok (by omega)]

def Ima4.Valid (s : Ima4) : Prop := s.stepSize ≤ 32767

lemma clampIndex_lt (index : ℤ) : clampIndex index < stepSizeTable.length := by
  have hlen : stepSizeTable.length = 89 := rfl
  unfold clampIndex
  omega

lemma next_ok (h : s.Valid) (hnibble : nibble < 16) : ∃ s', s.next nibble = .ok s' ∧ s'.Valid := by
  obtain ⟨d, hd⟩ := difference_ok h nibble
  obtain ⟨step, hstep⟩ := indexStep_ok hnibble
  obtain ⟨v, hv, hle⟩ := stepSize_ok (clampIndex_lt (s.index + step))
  refine ⟨⟨clampIndex (s.index + step), if nibble &&& 8 ≠ 0
    then max (s.predictedSample - d) (-2 ^ 15) else min (s.predictedSample + d) (2 ^ 15 - 1), v⟩,
    ?_, hle⟩
  rw [Ima4.next, hd, ok_bind, hstep, ok_bind]
  dsimp only
  rw [hv, ok_bind]
  rfl

lemma samples_ok {l : List ℕ} (h : s.Valid) (hl : ∀ nibble ∈ l, nibble < 16) :
    ∃ out, samples s l = .ok out ∧ out.length = l.length := by
  induction l generalizing s with
  | nil => exact ⟨[], rfl, rfl⟩
  | cons nibble l ih =>
    obtain ⟨s', hs', hvalid⟩ := next_ok h (hl nibble mem_cons_self)
    obtain ⟨out, hout, hlen⟩ := ih hvalid fun n hn => hl n (mem_cons_of_mem _ hn)
    refine ⟨s'.predictedSample :: out, ?_, by rw [length_cons, hlen, length_cons]⟩
    rw [samples, hs', ok_bind, hout, ok_bind]
    rfl

lemma nibbles_lt (byte : UInt8) : ∀ nibble ∈ nibbles byte, nibble < 16 := by
  have hlt := byte.toNat_lt
  intro nibble h
  simp only [nibbles, mem_cons, not_mem_nil, or_false] at h
  omega

theorem decodeIma4_ok (h : packet.length = 34) :
    ∃ out, decodeIma4 packet = .ok out ∧ out.length = 64 := by
  have hindex : min (((packet.getD 0 0).toNat * 256 + (packet.getD 1 0).toNat) % 128)
      (stepSizeTable.length - 1) < stepSizeTable.length := by
    have hlen : stepSizeTable.length = 89 := rfl
    omega
  obtain ⟨v, hv, hle⟩ := stepSize_ok hindex
  have hnibbles : ∀ nibble ∈ (packet.drop 2).flatMap nibbles, nibble < 16 := by
    intro nibble hmem
    obtain ⟨byte, -, hbyte⟩ := mem_flatMap.mp hmem
    exact nibbles_lt byte nibble hbyte
  have hcount : ((packet.drop 2).flatMap nibbles).length = 64 := by
    have htwo : ∀ l : List UInt8, (l.flatMap nibbles).length = 2 * l.length := by
      intro l
      induction l with
      | nil => rfl
      | cons byte l ih =>
        have hbyte : (nibbles byte).length = 2 := rfl
        rw [flatMap_cons, length_append, ih, length_cons, hbyte]
        ring
    rw [htwo, length_drop, h]
  have hvalid : ∀ index sample, Ima4.Valid ⟨index, sample, v⟩ := fun _ _ => hle
  obtain ⟨out, hout, hlen⟩ := samples_ok (hvalid _ _) hnibbles
  refine ⟨out, ?_, hlen.trans hcount⟩
  rw [decodeIma4, hv, ok_bind]
  exact hout

lemma length_sampleBytes (sample : ℤ) : (sampleBytes sample).length = 2 := rfl

end

inductive AudioFormatID
  | appleIMA4
  | linearPCM
  | mpegLayer3
  | mpeg4AAC
  | other
  deriving DecidableEq

structure AudioStreamBasicDescription (Rate : Type) where
  sampleRate : Rate
  formatId : AudioFormatID
  formatFlags : ℕ
  bytesPerFrame : ℕ
  channelsPerFrame : ℕ
  bitsPerChannel : ℕ

inductive ALFormat
  | mono8
  | mono16
  | stereo8
  | stereo16
  deriving DecidableEq

def ALFormat.frameSize : ALFormat → ℕ
  | mono8 => 1
  | mono16 => 2
  | stereo8 => 2
  | stereo16 => 4

def flagIsFloat : ℕ := 1
def flagIsBigEndian : ℕ := 2
def flagIsPacked : ℕ := 8

/-- What the decoder takes from elsewhere: conversions of sample rates and of samples between the
types of numbers, and the decoder of compressed formats. -/
structure Conversions (Rate : Type) where
  toSize : Rate → ℤ
  atLeast8000 : Rate → Rate
  floatToI16 : List UInt8 → ℤ
  decodeCompressed : AudioStreamBasicDescription Rate → List UInt8 →
    Checked (ALFormat × ℤ × List UInt8)

section

variable {Rate : Type} (format : AudioStreamBasicDescription Rate)

def isSupportedAudioFormat : Bool :=
  match format.formatId with
  | .appleIMA4 => format.channelsPerFrame = 1 ∨ format.channelsPerFrame = 2
  | .linearPCM =>
    (format.channelsPerFrame = 1 ∨ format.channelsPerFrame = 2) ∧
      (format.bitsPerChannel = 8 ∨ format.bitsPerChannel = 16 ∨ format.bitsPerChannel = 32) ∧
      (format.formatFlags &&& flagIsPacked ≠ 0 ∨
        format.bitsPerChannel / 8 * format.channelsPerFrame = format.bytesPerFrame) ∧
      format.formatFlags &&& flagIsBigEndian = 0
  | .mpegLayer3 => format.channelsPerFrame = 1 ∨ format.channelsPerFrame = 2
  | .mpeg4AAC => format.channelsPerFrame = 1 ∨ format.channelsPerFrame = 2
  | .other => false

def rem (x y : ℕ) : Checked ℕ := if y = 0 then .error .overflow else .ok (x % y)

def decodeMono : List (List UInt8) → Checked (List UInt8)
  | [] => return []
  | packet :: packets => do
    let samples ← decodeIma4 packet
    return samples.flatMap sampleBytes ++ (← decodeMono packets)

def decodeStereo : List (List UInt8) → Checked (List UInt8)
  | [] => return []
  | [left] => do
    let _ ← decodeIma4 left
    .error .unwrap
  | left :: right :: packets => do
    let l ← decodeIma4 left
    let r ← decodeIma4 right
    return (l.zip r).flatMap (fun p => sampleBytes p.1 ++ sampleBytes p.2) ++
      (← decodeStereo packets)

def convertFrame (bytesPerFrame : ℕ) (frame : List UInt8) : Checked (List UInt8) :=
  if frame.length < bytesPerFrame then .error .overflow
  else if bytesPerFrame ∈ [1, 2, 4, 8, 16] then
    .ok (frame.drop (frame.length - bytesPerFrame)).reverse
  else .ok (List.replicate bytesPerFrame 0)

def convertFrames (bytesPerFrame : ℕ) : List (List UInt8) → Checked (List UInt8)
  | [] => return []
  | frame :: frames => do
    let bytes ← convertFrame bytesPerFrame frame
    return bytes ++ (← convertFrames bytesPerFrame frames)

def bytesPerChannel : ℕ := format.bitsPerChannel / 8

def actualBytesPerFrame : ℕ := format.channelsPerFrame * bytesPerChannel format

def processFrames (data : List UInt8) : Checked (List UInt8) :=
  if actualBytesPerFrame format = format.bytesPerFrame then .ok data
  else convertFrames format.bytesPerFrame (chunks (actualBytesPerFrame format) data)

def shiftToI16 (chunk : List UInt8) : ℤ := asI16 ((fromLeBytes chunk) / 2 ^ 16)

variable (c : Conversions Rate)

def narrow (data : List UInt8) : List UInt8 :=
  (chunks 4 (data.take (data.length / 4 * 4))).flatMap fun chunk =>
    sampleBytes (if format.formatFlags &&& flagIsFloat ≠ 0 then c.floatToI16 chunk
      else shiftToI16 chunk)

def report (channels : ℕ) (data : List UInt8) : ALFormat × ℤ × List UInt8 :=
  let rate := c.toSize format.sampleRate
  if channels = 1 ∧ format.bitsPerChannel = 8 then (.mono8, rate, data)
  else if channels = 1 ∧ format.bitsPerChannel = 16 then (.mono16, rate, data)
  else if channels = 2 ∧ format.bitsPerChannel = 8 then (.stereo8, rate, data)
  else if channels = 2 ∧ format.bitsPerChannel = 16 then (.stereo16, rate, data)
  else if channels = 1 ∧ format.bitsPerChannel = 32 then (.mono16, rate, narrow format c data)
  else if channels = 2 ∧ format.bitsPerChannel = 32 then (.stereo16, rate, narrow format c data)
  else (.mono16, c.toSize (c.atLeast8000 format.sampleRate), [])

def decodeLinearPCM (data : List UInt8) : Checked (ALFormat × ℤ × List UInt8) := do
  let misalignedBy ← rem data.length format.bytesPerFrame
  let data := data.take (data.length - misalignedBy)
  let actualChannelsPerFrame := format.bytesPerFrame / bytesPerChannel format
  return report format c actualChannelsPerFrame (← processFrames format data)

def decodeIma4Buffer (data : List UInt8) : Checked (ALFormat × ℤ × List UInt8) := do
  let packets := chunks 34 (data.take (data.length / 34 * 34))
  if format.channelsPerFrame = 1 then
    return (.mono16, c.toSize format.sampleRate, ← decodeMono packets)
  else return (.stereo16, c.toSize format.sampleRate, ← decodeStereo packets)

def decodeBuffer (data : List UInt8) : Checked (ALFormat × ℤ × List UInt8) :=
  if isSupportedAudioFormat format then
    match format.formatId with
    | .appleIMA4 => decodeIma4Buffer format c data
    | .linearPCM => decodeLinearPCM format c data
    | _ => c.decodeCompressed format data
  else .ok (.mono16, c.toSize (c.atLeast8000 format.sampleRate), [])

end

end TouchHle.Audio
