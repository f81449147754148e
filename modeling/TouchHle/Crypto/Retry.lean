import TouchHle.Crypto.Cryptor

/-! When a cryptor that refuses a call is left as it was, and when no key makes a call panic. -/

namespace TouchHle.Crypto

open Lib List Except Option
open Memory (Mem)

variable {C : Ciphers} {state : CryptorState} {chain chunk block input output : List UInt8} {n available : ℕ}

namespace CryptorState

lemma blockSize_pos : 0 < state.blockSize := by
  unfold blockSize
  cases state.cipher with
  | aes key => exact Nat.succ_pos 15
  | des key => exact Nat.succ_pos 7
  | rc4 stream => exact Nat.one_pos

lemma length_encryptBlock (hstream : state.cipher.stream = none) :
    (state.cipher.encryptBlock C block).length = state.blockSize := by
  unfold blockSize
  cases hcipher : state.cipher with
  | aes key => exact C.length_aesEncryptBlock key block
  | des key => exact C.length_desEncryptBlock key block
  | rc4 stream => simp [hcipher, CryptorCipher.stream] at hstream

lemma length_decryptBlock (hstream : state.cipher.stream = none) :
    (state.cipher.decryptBlock C block).length = state.blockSize := by
  unfold blockSize
  cases hcipher : state.cipher with
  | aes key => exact C.length_aesDecryptBlock key block
  | des key => exact C.length_desDecryptBlock key block
  | rc4 stream => simp [hcipher, CryptorCipher.stream] at hstream

def Chained (state : CryptorState) (chain : List UInt8) : Prop :=
  state.ecbMode = false → state.blockSize ≤ chain.length

lemma processBlock_length (hstream : state.cipher.stream = none) (hchain : state.Chained chain)
    (hblock : block.length = state.blockSize) :
    (state.processBlock C chain block).1.length = state.blockSize ∧
      state.Chained (state.processBlock C chain block).2 := by
  unfold processBlock
  by_cases hencrypt : state.encrypt = true
  · rw [if_pos hencrypt]
    refine ⟨length_encryptBlock hstream, fun hecb => ?_⟩
    simp only [hecb, Bool.false_eq_true, if_false]
    exact (length_encryptBlock hstream).ge
  · rw [if_neg hencrypt]
    by_cases hecb : state.ecbMode = true
    · simp only [if_pos hecb]
      exact ⟨length_decryptBlock hstream, hchain⟩
    · simp only [if_neg hecb]
      have hlong := hchain (Bool.eq_false_of_not_eq_true hecb)
      refine ⟨?_, fun _ => hblock.ge⟩
      rw [xorBytes, length_zipWith, length_decryptBlock hstream, min_eq_left hlong]

lemma processBlocks_length (hstream : state.cipher.stream = none) (hchain : state.Chained chain)
    (hchunk : n * state.blockSize ≤ chunk.length) :
    (state.processBlocks C n chain chunk).1.length = n * state.blockSize := by
  induction n generalizing chain chunk with
  | zero => simp [processBlocks]
  | succ n ih =>
    rw [Nat.succ_mul] at hchunk
    have hblock : (chunk.take state.blockSize).length = state.blockSize := by
      rw [length_take]
      omega
    obtain ⟨hout, hchain'⟩ := processBlock_length (C := C) hstream hchain hblock
    rw [processBlocks]
    simp only [length_append]
    rw [hout, ih hchain' (by rw [length_drop]; omega), Nat.succ_mul]
    omega

lemma process_eq_ok {r : List UInt8 × CryptorState} (h : state.process C chunk = .ok r) :
    (chunk ≠ [] → state.Chained state.chain) ∧
      r = ((state.processBlocks C (chunk.length / state.blockSize) state.chain chunk).1,
        { state with chain := (state.processBlocks C (chunk.length / state.blockSize) state.chain chunk).2 }) := by
  unfold process at h
  split at h
  · cases h
  next hlong =>
    refine ⟨fun hne hecb => ?_, (ok.inj h).symm⟩
    by_contra hshort
    exact hlong ⟨hne, hecb, not_le.mp hshort⟩

lemma process_length (state : CryptorState) {r : List UInt8 × CryptorState} (hstream : state.cipher.stream = none)
    (h : state.process C chunk = .ok r) (hwhole : state.blockSize ∣ chunk.length) :
    r.1.length = chunk.length := by
  obtain ⟨hchained, rfl⟩ := process_eq_ok h
  have hcount := Nat.div_mul_cancel hwhole
  by_cases hnil : chunk = []
  · subst hnil
    simp [processBlocks]
  · exact (processBlocks_length hstream (hchained hnil) hcount.le).trans hcount

def Refusal (state : CryptorState) (retry : CryptorState → ℕ → Checked (CryptReply × CryptorState))
    (r : CryptReply × CryptorState) : Prop :=
  r.1.status ≠ .success → r.2 = state ∧ r.1.output = [] ∧ ∀ room, retry r.2 room = retry state room

variable {retry : CryptorState → ℕ → Checked (CryptReply × CryptorState)} {r : CryptReply × CryptorState}

lemma refusal_iff : Refusal state retry r ↔ (r.1.status ≠ .success → r.2 = state ∧ r.1.output = []) := by
  constructor
  · exact fun h hstatus => ⟨(h hstatus).1, (h hstatus).2.1⟩
  · exact fun h hstatus => ⟨(h hstatus).1, (h hstatus).2, fun room => by rw [(h hstatus).1]⟩

lemma refusal_finish {after : CryptorState} :
    Refusal state retry (after.finish output available) ↔ output.length ≤ available ∨ after = state := by
  rw [refusal_iff]
  unfold finish
  by_cases hroom : available < output.length
  · rw [if_pos hroom]
    simp [hroom]
  · rw [if_neg hroom]
    simp [not_lt.mp hroom]

lemma refusal_error {status : Status} {after : CryptorState} (hstatus : status ≠ .success) :
    Refusal state retry (⟨status, []⟩, after) ↔ after = state := by
  rw [refusal_iff]
  simp [hstatus]

lemma blockSize_buffer (buffer : List UInt8) :
    { state with buffer := buffer }.blockSize = state.blockSize := rfl

lemma processBlocks_buffer (buffer : List UInt8) :
    { state with buffer := buffer }.processBlocks C n chain chunk = state.processBlocks C n chain chunk := by
  induction n generalizing chain chunk with
  | zero => rfl
  | succ n ih =>
    rw [processBlocks, processBlocks, ih]
    rfl

lemma processLen_le : state.processLen n ≤ n := by
  unfold processLen
  split
  · exact (Nat.div_mul_le_self _ _).trans (Nat.sub_le _ _)
  · exact Nat.zero_le _

lemma dvd_processLen : state.blockSize ∣ state.processLen n := by
  unfold processLen
  split
  · exact Nat.dvd_mul_left _ _
  · exact Nat.dvd_zero _

lemma state_eq {buffer : List UInt8} (hbuffer : buffer = state.buffer) (hchain : chain = state.chain) :
    { state with chain := chain, buffer := buffer } = state := by
  subst hbuffer hchain
  rfl

/-- The output of the update fits, or the update uses up nothing: the bytes that are left are those of
the buffer and the chaining block is the same, or the key stream has come round. -/
def UpdateKeeps (C : Ciphers) (state : CryptorState) (input : List UInt8) (available : ℕ) : Prop :=
  let buffer := state.buffer ++ input
  let len := state.processLen buffer.length
  state.cipher.stream.elim
    (len ≤ available ∨ buffer.drop len = state.buffer ∧
      (state.processBlocks C (len / state.blockSize) state.chain (buffer.take len)).2 = state.chain)
    fun stream => input.length ≤ available ∨ (stream.apply input).1 = stream

lemma length_apply (stream : Rc4) (input : List UInt8) : (stream.apply input).2.length = input.length := by
  induction input generalizing stream with
  | nil => rfl
  | cons byte input ih => rw [Rc4.apply, length_cons, length_cons, ih]

lemma stream_eq_some {stream : Rc4} (h : state.cipher.stream = some stream) : state.cipher = .rc4 stream := by
  cases hcipher : state.cipher with
  | aes key => simp [hcipher, CryptorCipher.stream] at h
  | des key => simp [hcipher, CryptorCipher.stream] at h
  | rc4 own => simpa [hcipher, CryptorCipher.stream] using h

lemma update_keeps_iff (h : state.update C input available = .ok r) :
    Refusal state (fun s room => s.update C input room) r ↔ state.UpdateKeeps C input available := by
  unfold update at h
  unfold UpdateKeeps
  cases hstream : state.cipher.stream with
  | some stream =>
    rw [hstream] at h
    obtain rfl := ok.inj h
    have hcipher := stream_eq_some hstream
    rw [updateStream, refusal_finish, length_apply]
    refine or_congr .rfl ⟨fun heq => ?_, fun heq => ?_⟩
    · have hsame := congrArg CryptorState.cipher heq
      rw [hcipher] at hsame
      exact CryptorCipher.rc4.inj hsame
    · rw [heq, ← hcipher]
  | none =>
    rw [hstream] at h
    change state.updateBlocks C input available = .ok r at h
    obtain ⟨done, hdone, hr⟩ := bind_eq_ok.mp h
    obtain rfl := ok.inj hr
    have hwhole := state.dvd_processLen (n := (state.buffer ++ input).length)
    have htaken : ((state.buffer ++ input).take (state.processLen (state.buffer ++ input).length)).length =
        state.processLen (state.buffer ++ input).length := by
      rw [length_take, min_eq_left processLen_le]
    have hlength := process_length
      { state with buffer := (state.buffer ++ input).drop (state.processLen (state.buffer ++ input).length) }
      hstream hdone (by rw [htaken]; exact hwhole)
    obtain ⟨-, rfl⟩ := process_eq_ok hdone
    rw [refusal_finish, hlength, htaken]
    simp only [processBlocks_buffer, blockSize_buffer]
    refine or_congr .rfl ⟨fun heq => ?_, fun heq => ?_⟩
    · exact ⟨congrArg CryptorState.buffer heq, congrArg CryptorState.chain heq⟩
    · obtain ⟨hbuffer, hchain⟩ := heq
      exact state_eq hbuffer hchain

def finalChunk (state : CryptorState) : List UInt8 :=
  state.buffer ++ List.replicate state.padLen (UInt8.ofNat state.padLen)

/-- The output of the last call fits, or nothing was buffered and, where a block of padding is produced
all the same, the chaining block is the same behind it. -/
def FinalKeeps (C : Ciphers) (state : CryptorState) (available : ℕ) : Prop :=
  state.cipher.stream.isSome = true ∨
  if (state.encrypt && state.pkcs7Pad) = true then
    state.finalChunk.length ≤ available ∨ state.buffer = [] ∧
      (state.processBlocks C (state.finalChunk.length / state.blockSize) state.chain state.finalChunk).2 =
        state.chain
  else
    state.buffer = [] ∨ state.buffer.length % state.blockSize = 0 ∧
      if (!state.encrypt && state.pkcs7Pad) = true then
        (state.stripped (state.processBlocks C (state.buffer.length / state.blockSize) state.chain
          state.buffer).1).any (fun output => output.length ≤ available) = true
      else state.buffer.length ≤ available

lemma dvd_finalChunk : state.blockSize ∣ state.finalChunk.length := by
  have hpos := state.blockSize_pos
  have hmod := Nat.mod_lt state.buffer.length hpos
  have hdiv := Nat.div_add_mod state.buffer.length state.blockSize
  rw [finalChunk, length_append, length_replicate, padLen]
  refine ⟨state.buffer.length / state.blockSize + 1, ?_⟩
  rw [Nat.mul_add, Nat.mul_one]
  omega

lemma final_keeps_iff (h : state.final C available = .ok r) :
    Refusal state (fun s room => s.final C room) r ↔ state.FinalKeeps C available := by
  unfold final at h
  unfold FinalKeeps
  by_cases hstream : state.cipher.stream.isSome = true
  · rw [if_pos hstream] at h
    obtain rfl := ok.inj h
    rw [refusal_finish]
    simp [hstream]
  rw [if_neg hstream] at h
  have hblocks : state.cipher.stream = none := by simpa using hstream
  rw [or_iff_right hstream]
  by_cases hpad : (state.encrypt && state.pkcs7Pad) = true
  · rw [if_pos hpad] at h ⊢
    obtain ⟨done, hdone, hr⟩ := bind_eq_ok.mp h
    obtain rfl := ok.inj hr
    have hlength := process_length { state with buffer := [] } hblocks hdone state.dvd_finalChunk
    obtain ⟨-, rfl⟩ := process_eq_ok hdone
    rw [refusal_finish, hlength]
    simp only [processBlocks_buffer, blockSize_buffer]
    refine or_congr .rfl ⟨fun heq => ?_, fun heq => ?_⟩
    · exact ⟨(congrArg CryptorState.buffer heq).symm, congrArg CryptorState.chain heq⟩
    · obtain ⟨hbuffer, hchain⟩ := heq
      exact state_eq hbuffer.symm hchain
  rw [if_neg hpad] at h ⊢
  by_cases hnil : state.buffer = []
  · rw [if_pos hnil] at h
    obtain rfl := ok.inj h
    rw [refusal_finish]
    simp [hnil]
  rw [if_neg hnil] at h
  rw [or_iff_right hnil]
  -- the buffer is taken, so that nothing can be as it was
  have hlost : ∀ after : CryptorState, after.buffer = [] → after ≠ state := by
    rintro after hafter rfl
    exact hnil hafter
  by_cases haligned : state.buffer.length % state.blockSize ≠ 0
  · rw [if_pos haligned] at h
    obtain rfl := ok.inj h
    rw [refusal_error (by decide)]
    exact iff_of_false (hlost _ rfl) fun hkeeps => haligned hkeeps.1
  rw [if_neg haligned] at h
  rw [and_iff_right (not_not.mp haligned)]
  obtain ⟨done, hdone, hr⟩ := bind_eq_ok.mp h
  obtain rfl := ok.inj hr
  have hlength := process_length { state with buffer := [] } hblocks hdone
    (Nat.dvd_of_mod_eq_zero (not_not.mp haligned))
  obtain ⟨-, rfl⟩ := process_eq_ok hdone
  simp only [processBlocks_buffer, blockSize_buffer] at hlength ⊢
  by_cases hstrip : (!state.encrypt && state.pkcs7Pad) = true
  · simp only [if_pos hstrip]
    cases houtput : state.stripped (state.processBlocks C (state.buffer.length / state.blockSize) state.chain
      state.buffer).1 with
    | none =>
      rw [elim_none, refusal_error (by decide)]
      exact iff_of_false (hlost _ rfl) (by simp)
    | some output =>
      rw [elim_some, refusal_finish, or_iff_left (hlost _ rfl), any_some, decide_eq_true_eq]
  · simp only [if_neg hstrip]
    rw [elim_some, refusal_finish, or_iff_left (hlost _ rfl), hlength]

end CryptorState

lemma length_guestBytes (m : Mem) (ptr count : ℕ) : (guestBytes m ptr count).length = (m.bytesAt ptr count).len := by
  simp [guestBytes]

namespace CryptArgs

variable {m : Mem} {args : CryptArgs} {refOut : ℕ}

def CreateSafe (m : Mem) (args : CryptArgs) (refOut : ℕ) : Prop :=
  refOut ≠ 0 → args.alg = 0 → isAesKeyLength args.keyLength = true →
    args.keyLength ≤ (readGuestBytes m args.key args.keyLength).length

lemma create_ok_iff : (∃ r, args.create m refOut = .ok r) ↔ args.CreateSafe m refOut := by
  unfold create CreateSafe
  by_cases hout : refOut = 0
  · simp [hout]
  by_cases haes : args.alg = 0
  · by_cases hlength : isAesKeyLength args.keyLength = true
    · by_cases hshort : (readGuestBytes m args.key args.keyLength).length < args.keyLength
      · simp [hout, haes, hlength, expandKey, hshort]
      · simp [hout, haes, hlength, expandKey, hshort, not_lt.mp hshort]
    · simp [hout, haes, hlength]
  · by_cases hdes : args.alg = 1
    · simp [hout, hdes]
    · by_cases hrc4 : args.alg = 4
      · simp [hout, hrc4]
      · simp [hout, haes, hdes, hrc4]

def Early (args : CryptArgs) (input : List UInt8) (available : ℕ) : Prop :=
  let state := args.newState (.aes []) [] input
  (workData input state).toOption.all (fun work => state.encrypt && available < work.length) = true

def CryptSafe (m : Mem) (args : CryptArgs) (input : List UInt8) (available : ℕ) : Prop :=
  (args.alg = 4 → args.key ≠ 0 → args.keyLength ≠ 0 → input.length ≤ available →
    min args.keyLength 256 ≤ (m.bytesAt args.key args.keyLength).len) ∧
  (args.alg = 0 → isAesKeyLength args.keyLength = true →
    args.keyLength ≤ (m.bytesAt args.key args.keyLength).len ∧
      (¬ args.Early input available → args.ecbMode = false → args.iv ≠ 0 → (m.bytesAt args.iv 16).len = 16))

lemma readIv_ok_iff : (∃ iv, args.readIv m = .ok iv) ↔
    (args.ecbMode = false → args.iv ≠ 0 → (m.bytesAt args.iv 16).len = 16) := by
  unfold readIv
  rw [length_guestBytes]
  by_cases hnone : args.ecbMode = true ∨ args.iv = 0
  · rw [if_pos hnone]
    refine iff_of_true ⟨_, rfl⟩ fun hecb hiv => ?_
    rcases hnone with h | h
    · rw [h] at hecb
      cases hecb
    · exact absurd h hiv
  · rw [if_neg hnone]
    rw [not_or] at hnone
    by_cases hlength : (m.bytesAt args.iv 16).len = 16
    · simp [hlength]
    · simp [hlength, hnone]

variable {input : List UInt8} {available : ℕ}

lemma cryptStream_ok_iff : (∃ r, args.cryptStream m input available = .ok r) ↔
    (args.key ≠ 0 → args.keyLength ≠ 0 → input.length ≤ available →
      min args.keyLength 256 ≤ (m.bytesAt args.key args.keyLength).len) := by
  unfold cryptStream
  simp only [length_guestBytes]
  by_cases hnone : args.key = 0 ∨ args.keyLength = 0
  · rw [if_pos hnone]
    refine iff_of_true ⟨_, rfl⟩ fun hkey hlength => ?_
    exact absurd hnone (by simp [hkey, hlength])
  rw [if_neg hnone]
  by_cases hroom : available < input.length
  · rw [if_pos hroom]
    exact iff_of_true ⟨_, rfl⟩ fun _ _ hle => absurd hle (not_le.mpr hroom)
  rw [if_neg hroom]
  obtain ⟨hkey, hlength⟩ := not_or.mp hnone
  by_cases hshort : (m.bytesAt args.key args.keyLength).len < min args.keyLength 256
  · rw [if_pos hshort]
    refine iff_of_false (by simp) fun hall => ?_
    exact absurd (hall hkey hlength (not_lt.mp hroom)) (not_le.mpr hshort)
  · rw [if_neg hshort]
    exact iff_of_true ⟨_, rfl⟩ fun _ _ _ => not_lt.mp hshort

lemma cryptAes_ok_iff (haes : isAesKeyLength args.keyLength = true) :
    (∃ r, args.cryptAes m C input available = .ok r) ↔
      args.keyLength ≤ (m.bytesAt args.key args.keyLength).len ∧
        (¬ args.Early input available → args.ecbMode = false → args.iv ≠ 0 → (m.bytesAt args.iv 16).len = 16) := by
  unfold cryptAes
  rw [if_pos haes, expandKey, length_guestBytes]
  by_cases hshort : (m.bytesAt args.key args.keyLength).len < args.keyLength
  · rw [if_pos hshort, error_bind]
    exact iff_of_false (by simp) fun hall => absurd hall.1 (not_le.mpr hshort)
  rw [if_neg hshort, ok_bind, and_iff_right (not_lt.mp hshort)]
  generalize guestBytes m args.key args.keyLength = key
  have hsame : workData input (args.newState (.aes key) [] input) =
      workData input (args.newState (.aes []) [] input) := rfl
  unfold Early
  simp only
  rw [hsame]
  cases hwork : workData input (args.newState (.aes []) [] input) with
  | error reply =>
    refine iff_of_true ⟨reply, rfl⟩ fun hearly => ?_
    exact absurd rfl hearly
  | ok work =>
    have hencrypt : (args.newState (.aes key) [] input).encrypt = (args.newState (.aes []) [] input).encrypt := rfl
    simp only [hencrypt]
    by_cases hsmall : (args.newState (.aes []) [] input).encrypt = true ∧ available < work.length
    · rw [if_pos hsmall]
      refine iff_of_true ⟨_, rfl⟩ fun hearly => ?_
      exact absurd (by simpa [Except.toOption] using hsmall) hearly
    · rw [if_neg hsmall]
      have hlate : ¬ (.ok work : Except CryptReply _).toOption.all
          (fun work => (args.newState (.aes []) [] input).encrypt && decide (available < work.length)) = true := by
        simpa [Except.toOption] using hsmall
      rw [imp_iff_right hlate, ← readIv_ok_iff]
      constructor
      · rintro ⟨r, hr⟩
        obtain ⟨iv, hiv, -⟩ := bind_eq_ok.mp hr
        exact ⟨iv, hiv⟩
      · rintro ⟨iv, hiv⟩
        exact ⟨_, by rw [hiv, ok_bind]; rfl⟩

lemma crypt_ok_iff : (∃ r, args.crypt m C input available = .ok r) ↔ args.CryptSafe m input available := by
  unfold crypt CryptSafe
  by_cases hrc4 : args.alg = 4
  · rw [if_pos hrc4, cryptStream_ok_iff]
    simp [hrc4]
  rw [if_neg hrc4]
  by_cases haes : args.alg = 0
  · rw [if_pos haes]
    by_cases hlength : isAesKeyLength args.keyLength = true
    · rw [cryptAes_ok_iff hlength]
      simp [haes, hlength]
    · rw [cryptAes, if_neg hlength]
      simp [haes, hlength]
  · rw [if_neg haes]
    by_cases hdes : args.alg = 1
    · rw [if_pos hdes]
      simp [hdes]
    · rw [if_neg hdes]
      simp [hrc4, haes]

end CryptArgs

/-- Refused calls leave the cryptor as it was exactly where they would use up nothing, and calls do not
panic exactly where the key and the initial vector can be read in full. -/
theorem refusals_and_keys (C : Ciphers) (m : Mem) :
    (∀ (state : CryptorState) input available r, state.update C input available = .ok r →
      (state.Refusal (fun s room => s.update C input room) r ↔ state.UpdateKeeps C input available)) ∧
    (∀ (state : CryptorState) available r, state.final C available = .ok r →
      (state.Refusal (fun s room => s.final C room) r ↔ state.FinalKeeps C available)) ∧
    (∀ (args : CryptArgs) refOut, (∃ r, args.create m refOut = .ok r) ↔ args.CreateSafe m refOut) ∧
    ∀ (args : CryptArgs) input available,
      (∃ r, args.crypt m C input available = .ok r) ↔ args.CryptSafe m input available :=
  ⟨fun _ _ _ _ => CryptorState.update_keeps_iff, fun _ _ _ => CryptorState.final_keeps_iff,
    fun _ _ => CryptArgs.create_ok_iff, fun _ _ _ => CryptArgs.crypt_ok_iff⟩

def zeroCiphers : Ciphers where
  aesEncryptBlock _ _ := List.replicate 16 0
  aesDecryptBlock _ _ := List.replicate 16 0
  desEncryptBlock _ _ := List.replicate 8 0
  desDecryptBlock _ _ := List.replicate 8 0
  length_aesEncryptBlock _ _ := length_replicate
  length_aesDecryptBlock _ _ := length_replicate
  length_desEncryptBlock _ _ := length_replicate
  length_desDecryptBlock _ _ := length_replicate

def zeroMemory : Mem :=
  ⟨fun _ => 0, 4096, ⟨Memory.ChunkMap.empty, Memory.SizeBucketedChunkMap.empty⟩, false, fun _ => 0⟩

def firstStream : Rc4 := ⟨(List.range 256).map UInt8.ofNat, 0, 0⟩

def streaming : CryptorState := ⟨true, true, false, [0], [0], .rc4 firstStream, []⟩

def refused : CryptReply × CryptorState := streaming.updateStream firstStream [7] 0

lemma moved_firstStream : (firstStream.apply [7]).1 ≠ firstStream := by
  intro heq
  have hi := congrArg Rc4.i heq
  change 1 = 0 at hi
  cases hi

theorem byte_is_lost : ¬ streaming.Refusal (fun s room => s.update zeroCiphers [7] room) refused := by
  intro h
  rcases ((refusals_and_keys zeroCiphers zeroMemory).1 streaming [7] 0 refused rfl).mp h with hle | hsame
  · exact absurd hle (by decide)
  · exact moved_firstStream hsame

def withoutKey : CryptArgs := ⟨0, 0, 0, 0, 16, 0⟩

theorem retries_differ_and_keys_panic :
    ¬ streaming.Refusal (fun s room => s.update zeroCiphers [7] room) refused ∧
      fault (withoutKey.create zeroMemory 4096) = some .index := by
  constructor
  · intro h
    have hstatus : refused.1.status ≠ .success := by decide
    obtain ⟨hsame, -⟩ := h hstatus
    exact moved_firstStream (CryptorCipher.rc4.inj (congrArg CryptorState.cipher hsame))
  · rfl

end TouchHle.Crypto
