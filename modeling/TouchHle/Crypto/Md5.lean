import TouchHle.Lib.Checked
import TouchHle.Lib.Bytes

namespace TouchHle.Crypto

open Lib List

structure Md5State where
  a : UInt32
  b : UInt32
  c : UInt32
  d : UInt32
  deriving DecidableEq

namespace Md5State

def initial : Md5State := ⟨0x67452301, 0xefcdab89, 0x98badcfe, 0x10325476⟩

def rotations : List UInt32 := [
  7, 12, 17, 22, 7, 12, 17, 22, 7, 12, 17, 22, 7, 12, 17, 22, 5, 9, 14, 20, 5, 9, 14, 20, 5,
  9, 14, 20, 5, 9, 14, 20, 4, 11, 16, 23, 4, 11, 16, 23, 4, 11, 16, 23, 4, 11, 16, 23, 6, 10,
  15, 21, 6, 10, 15, 21, 6, 10, 15, 21, 6, 10, 15, 21]

def constants : List UInt32 := [
  0xd76aa478, 0xe8c7b756, 0x242070db, 0xc1bdceee, 0xf57c0faf, 0x4787c62a, 0xa8304613,
  0xfd469501, 0x698098d8, 0x8b44f7af, 0xffff5bb1, 0x895cd7be, 0x6b901122, 0xfd987193,
  0xa679438e, 0x49b40821, 0xf61e2562, 0xc040b340, 0x265e5a51, 0xe9b6c7aa, 0xd62f105d,
  0x02441453, 0xd8a1e681, 0xe7d3fbc8, 0x21e1cde6, 0xc33707d6, 0xf4d50d87, 0x455a14ed,
  0xa9e3e905, 0xfcefa3f8, 0x676f02d9, 0x8d2a4c8a, 0xfffa3942, 0x8771f681, 0x6d9d6122,
  0xfde5380c, 0xa4beea44, 0x4bdecfa9, 0xf6bb4b60, 0xbebfbc70, 0x289b7ec6, 0xeaa127fa,
  0xd4ef3085, 0x04881d05, 0xd9d4d039, 0xe6db99e5, 0x1fa27cf8, 0xc4ac5665, 0xf4292244,
  0x432aff97, 0xab9423a7, 0xfc93a039, 0x655b59c3, 0x8f0ccc92, 0xffeff47d, 0x85845dd1,
  0x6fa87e4f, 0xfe2ce6e0, 0xa3014314, 0x4e0811a1, 0xf7537e82, 0xbd3af235, 0x2ad7d2bb,
  0xeb86d391]

def rotateLeft (x s : UInt32) : UInt32 := (x <<< s) ||| (x >>> (32 - s))

def word (block : List UInt8) (i : ℕ) : UInt32 :=
  UInt32.ofNat (fromLeBytes ((block.drop (i * 4)).take 4))

def round (block : List UInt8) (v : Md5State) (i : ℕ) : Md5State :=
  let mix : UInt32 × ℕ :=
    if i < 16 then ((v.b &&& v.c) ||| (~~~v.b &&& v.d), i)
    else if i < 32 then ((v.d &&& v.b) ||| (~~~v.d &&& v.c), (5 * i + 1) % 16)
    else if i < 48 then (v.b ^^^ v.c ^^^ v.d, (3 * i + 5) % 16)
    else (v.c ^^^ (v.b ||| ~~~v.d), (7 * i) % 16)
  let f := mix.1 + v.a + constants.getD i 0 + word block mix.2
  ⟨v.d, v.b + rotateLeft f (rotations.getD i 0), v.b, v.c⟩

def step (state : Md5State) (block : List UInt8) : Md5State :=
  let v := (List.range 64).foldl (round block) state
  ⟨state.a + v.a, state.b + v.b, state.c + v.c, state.d + v.d⟩

def toBytes (state : Md5State) : List UInt8 :=
  leBytes 4 state.a.toNat ++ leBytes 4 state.b.toNat ++ leBytes 4 state.c.toNat ++
    leBytes 4 state.d.toNat

def compress : ℕ → Md5State → List UInt8 → Md5State
  | 0, state, _ => state
  | blocks + 1, state, data => compress blocks (state.step (data.take 64)) (data.drop 64)

end Md5State

open Md5State

def padding (rest : List UInt8) (length : ℕ) : List UInt8 :=
  rest ++ 0x80 :: List.replicate ((119 - rest.length) % 64) 0 ++ leBytes 8 length

def md5Hash (data : List UInt8) : Checked (List UInt8) :=
  if data.length * 8 < 2 ^ 64 then
    let state := compress (data.length / 64) .initial data
    let last := padding (data.drop (data.length / 64 * 64)) (data.length * 8)
    .ok (compress (last.length / 64) state last).toBytes
  else .error .overflow

structure Md5Ctx where
  state : Md5State
  nl : UInt32
  nh : UInt32
  buffer : List UInt8
  num : UInt32

namespace Md5Ctx

def init : Md5Ctx := ⟨.initial, 0, 0, List.replicate 64 0, 0⟩

def zero : Md5Ctx := ⟨⟨0, 0, 0, 0⟩, 0, 0, List.replicate 64 0, 0⟩

def overwrite (buffer : List UInt8) (start : ℕ) (bytes : List UInt8) : List UInt8 :=
  buffer.take start ++ bytes ++ buffer.drop (start + bytes.length)

def absorb : ℕ → Md5State → List UInt8 → ℕ → List UInt8 →
    Checked (Md5State × List UInt8 × ℕ)
  | 0, _, _, _, _ => .error .assertion
  | rounds + 1, state, buffer, num, input =>
    if input = [] then .ok (state, buffer, num)
    else if 64 < num then .error .overflow
    else
      let chunk := input.take (64 - num)
      let buffer := overwrite buffer num chunk
      if num + chunk.length = 64 then
        absorb rounds (state.step buffer) buffer 0 (input.drop (64 - num))
      else absorb rounds state buffer (num + chunk.length) (input.drop (64 - num))

def update (ctx : Md5Ctx) (data : List UInt8) : Checked Md5Ctx :=
  if data = [] then .ok ctx
  else do
    let nlNew := ctx.nl.toNat + data.length * 8
    let r ← absorb (data.length + 2) ctx.state ctx.buffer ctx.num.toNat data
    return ⟨r.1, UInt32.ofNat nlNew, ctx.nh + UInt32.ofNat (nlNew / 2 ^ 32), r.2.1,
      UInt32.ofNat r.2.2⟩

def zeroFrom (buffer : List UInt8) (first last : ℕ) : List UInt8 :=
  buffer.take first ++ List.replicate (last - first) 0 ++ buffer.drop last

def final (ctx : Md5Ctx) : Checked (List UInt8) :=
  let num := ctx.num.toNat
  if 68 ≤ num then .error .index
  else
    let buffer := ctx.buffer.set num 0x80
    let length := leBytes 4 ctx.nl.toNat ++ leBytes 4 ctx.nh.toNat
    if 56 < num + 1 then
      let full := zeroFrom buffer (num + 1) 64
      .ok ((ctx.state.step full).step (overwrite (zeroFrom full 0 56) 56 length)).toBytes
    else .ok (ctx.state.step (overwrite (zeroFrom buffer (num + 1) 56) 56 length)).toBytes

def ofBytes (ctx : List UInt8) : Md5Ctx :=
  ⟨⟨word ctx 0, word ctx 1, word ctx 2, word ctx 3⟩, word ctx 4, word ctx 5,
    (ctx.drop 24).take 64, word ctx 22⟩

def toBytes (ctx : Md5Ctx) : List UInt8 :=
  ctx.state.toBytes ++ leBytes 4 ctx.nl.toNat ++ leBytes 4 ctx.nh.toNat ++ ctx.buffer ++
    leBytes 4 ctx.num.toNat

end Md5Ctx

section

variable {state : Md5State} {p q : List UInt8} {k n : ℕ}

lemma compress_append (h : p.length = 64 * n) :
    compress (n + k) state (p ++ q) = compress k (compress n state p) q := by
  induction n generalizing state p with
  | zero =>
    obtain rfl := length_eq_zero_iff.mp h
    rw [zero_add]
    rfl
  | succ n ih =>
    rw [add_right_comm, compress, compress, take_append_of_le_length (by omega),
      drop_append_of_le_length (by omega)]
    exact ih (by rw [length_drop]; omega)

lemma compress_block (h : p.length = 64) : compress 1 state p = state.step p := by
  rw [compress, compress, take_of_length_le h.le]

lemma compress_extend (hp : p.length = 64 * n) (hq : q.length = 64) :
    compress (n + 1) state (p ++ q) = (compress n state p).step q := by
  rw [compress_append hp, compress_block hq]

end

namespace Md5Ctx

variable {ctx : Md5Ctx} {state : Md5State} {buffer input p m rest : List UInt8} {num rounds n : ℕ}

lemma word_leBytes (x : UInt32) (back : List UInt8) : word (leBytes 4 x.toNat ++ back) 0 = x := by
  have hx : x.toNat < 256 ^ 4 := x.toNat_lt
  rw [word, zero_mul, drop_zero, take_left' length_leBytes, fromLeBytes_leBytes hx,
    UInt32.ofNat_toNat]

lemma word_append {front : List UInt8} {k : ℕ} (h : front.length = k * 4) (back : List UInt8) (i : ℕ) :
    word (front ++ back) (k + i) = word back i := by
  rw [word, word, add_mul, ← drop_drop, drop_left' h]

def wordsBytes (ws : List UInt32) : List UInt8 := ws.flatMap fun w => leBytes 4 w.toNat

lemma length_wordsBytes (ws : List UInt32) : (wordsBytes ws).length = ws.length * 4 := by
  induction ws with
  | nil => rfl
  | cons w ws ih =>
    rw [wordsBytes, flatMap_cons, length_append, length_leBytes, length_cons, ← wordsBytes, ih]
    ring

lemma word_wordsBytes {ws : List UInt32} {i : ℕ} (hi : i < ws.length) (back : List UInt8) :
    word (wordsBytes ws ++ back) i = ws.getD i 0 := by
  induction ws generalizing i with
  | nil => exact absurd hi (Nat.not_lt_zero i)
  | cons w ws ih =>
    rw [wordsBytes, flatMap_cons, append_assoc, ← wordsBytes]
    cases i with
    | zero => exact word_leBytes w _
    | succ i =>
      rw [getD_cons_succ, ← ih (Nat.lt_of_succ_lt_succ hi), add_comm,
        word_append (by rw [length_leBytes])]

lemma toBytes_eq : ctx.toBytes =
    wordsBytes [ctx.state.a, ctx.state.b, ctx.state.c, ctx.state.d, ctx.nl, ctx.nh] ++
      (ctx.buffer ++ leBytes 4 ctx.num.toNat) := by
  simp [toBytes, Md5State.toBytes, wordsBytes]

lemma length_toBytes (h : ctx.buffer.length = 64) : ctx.toBytes.length = 92 := by
  rw [toBytes_eq, length_append, length_append, length_wordsBytes, length_leBytes, h]
  rfl

lemma ofBytes_toBytes (h : ctx.buffer.length = 64) : ofBytes ctx.toBytes = ctx := by
  let ws := [ctx.state.a, ctx.state.b, ctx.state.c, ctx.state.d, ctx.nl, ctx.nh]
  have hfront : (wordsBytes ws).length = 24 := length_wordsBytes ws
  have hword : ∀ i < 6, word ctx.toBytes i = ws.getD i 0 := by
    intro i hi
    rw [toBytes_eq]
    exact word_wordsBytes hi _
  have hbuffer : (ctx.toBytes.drop 24).take 64 = ctx.buffer := by
    rw [toBytes_eq, drop_left' hfront, take_left' h]
  have hnum : word ctx.toBytes 22 = ctx.num := by
    rw [toBytes_eq, ← append_assoc, ← append_nil (leBytes 4 _)]
    exact (word_append (i := 0) (by rw [length_append, hfront, h]) _).trans (word_leBytes ctx.num [])
  rw [ofBytes, hbuffer, hnum, hword 0 (by decide), hword 1 (by decide), hword 2 (by decide),
    hword 3 (by decide), hword 4 (by decide), hword 5 (by decide)]
  rfl

def Absorbed (m : List UInt8) (state : Md5State) (buffer : List UInt8) (num : ℕ) : Prop :=
  ∃ n whole rest, m = whole ++ rest ∧ whole.length = 64 * n ∧ rest.length = num ∧ num < 64 ∧
    state = compress n .initial whole ∧ buffer.length = 64 ∧ buffer.take num = rest

structure Holds (m : List UInt8) (ctx : Md5Ctx) : Prop where
  absorbed : Absorbed m ctx.state ctx.buffer ctx.num.toNat
  counted : ctx.nl.toNat + 2 ^ 32 * ctx.nh.toNat = m.length * 8 % 2 ^ 64

lemma length_overwrite (buffer input : List UInt8) (h : n + input.length ≤ buffer.length) :
    (overwrite buffer n input).length = buffer.length := by
  simp only [overwrite, length_append, length_take, length_drop]
  omega

lemma take_overwrite (buffer input : List UInt8) (h : n ≤ buffer.length) :
    (overwrite buffer n input).take (n + input.length) = buffer.take n ++ input := by
  have hlength : (buffer.take n ++ input).length = n + input.length := by
    rw [length_append, length_take, min_eq_left h]
  rw [overwrite, take_left' hlength]

lemma holds_init : Holds [] init := by
  refine ⟨⟨0, [], [], rfl, rfl, rfl, Nat.zero_lt_succ _, rfl, length_replicate, rfl⟩, rfl⟩

lemma absorb_ok (h : Absorbed m state buffer num) (hrounds : input.length < rounds) :
    ∃ r, absorb rounds state buffer num input = .ok r ∧ Absorbed (m ++ input) r.1 r.2.1 r.2.2 := by
  induction rounds generalizing m state buffer num input with
  | zero => exact absurd hrounds (Nat.not_lt_zero _)
  | succ rounds ih =>
    by_cases hnil : input = []
    · subst hnil
      exact ⟨_, if_pos rfl, by rwa [append_nil]⟩
    obtain ⟨n, whole, rest, rfl, hwhole, hrest, hnum, rfl, hbuffer, htake⟩ := h
    have hpos : 0 < input.length := length_pos_iff.mpr hnil
    have hsplit : input.take (64 - num) ++ input.drop (64 - num) = input := take_append_drop _ _
    have hchunk : (input.take (64 - num)).length = min (64 - num) input.length := length_take
    have htake' := take_overwrite (n := num) buffer (input.take (64 - num)) (by omega)
    have hlength := length_overwrite (n := num) buffer (input.take (64 - num)) (by omega)
    rw [htake] at htake'
    rw [absorb, if_neg hnil, if_neg (by omega)]
    simp only
    split
    next hfull =>
      -- a block is filled, and the buffer starts anew
      have hblock : overwrite buffer num (input.take (64 - num)) = rest ++ input.take (64 - num) := by
        rw [← htake', hfull]
        exact (take_of_length_le (by omega)).symm
      have habsorbed : Absorbed (whole ++ rest ++ input.take (64 - num))
          ((compress n .initial whole).step (overwrite buffer num (input.take (64 - num))))
          (overwrite buffer num (input.take (64 - num))) 0 := by
        refine ⟨n + 1, whole ++ (rest ++ input.take (64 - num)), [], by simp, ?_, rfl, by omega, ?_,
          hlength.trans hbuffer, rfl⟩
        · rw [length_append, length_append, hrest, hfull, hwhole]
          omega
        · rw [compress_extend hwhole (by rw [length_append, hrest, hfull]), hblock]
      have hshorter : (input.drop (64 - num)).length < rounds := by
        rw [length_drop]
        omega
      obtain ⟨r, hr, hr'⟩ := ih habsorbed hshorter
      rw [append_assoc, hsplit] at hr'
      exact ⟨r, hr, hr'⟩
    next hpart =>
      have hall : input.take (64 - num) = input := take_of_length_le (by omega)
      have hnone : input.drop (64 - num) = [] := drop_of_length_le (by omega)
      have habsorbed : Absorbed (whole ++ rest ++ input) (compress n .initial whole)
          (overwrite buffer num (input.take (64 - num))) (num + (input.take (64 - num)).length) := by
        refine ⟨n, whole, rest ++ input, append_assoc _ _ _, hwhole, ?_, by omega, rfl,
          hlength.trans hbuffer, ?_⟩
        · rw [length_append, hrest, hall]
        · rw [htake', hall]
      have hshorter : (input.drop (64 - num)).length < rounds := by
        rw [hnone, length_nil]
        omega
      obtain ⟨r, hr, hr'⟩ := ih habsorbed hshorter
      rw [hnone, append_nil] at hr'
      exact ⟨r, hr, hr'⟩

lemma Absorbed.num_lt (h : Absorbed m state buffer num) : num < 64 := by
  obtain ⟨_, _, _, _, _, _, hnum, _⟩ := h
  exact hnum

lemma Absorbed.length_buffer (h : Absorbed m state buffer num) : buffer.length = 64 := by
  obtain ⟨_, _, _, _, _, _, _, _, hbuffer, _⟩ := h
  exact hbuffer

lemma update_ok (h : Holds m ctx) (data : List UInt8) :
    ∃ ctx', ctx.update data = .ok ctx' ∧ Holds (m ++ data) ctx' := by
  by_cases hnil : data = []
  · subst hnil
    exact ⟨ctx, if_pos rfl, by rwa [append_nil]⟩
  have hrounds : data.length < data.length + 2 := by omega
  obtain ⟨r, hr, habsorbed⟩ := absorb_ok h.absorbed hrounds
  refine ⟨_, by rw [update, if_neg hnil, hr]; rfl, ⟨?_, ?_⟩⟩
  · have hnum := habsorbed.num_lt
    have hsmall : (UInt32.ofNat r.2.2).toNat = r.2.2 := by
      rw [UInt32.toNat_ofNat']
      omega
    simpa only [hsmall] using habsorbed
  · have hcounted := h.counted
    have hnl := ctx.nl.toNat_lt
    have hnh := ctx.nh.toNat_lt
    simp only [UInt32.toNat_ofNat', UInt32.toNat_add, length_append]
    omega

lemma absorb_total (hnum : num ≤ 64) (hrounds : input.length + (if num = 64 then 1 else 0) < rounds) :
    ∃ r, absorb rounds state buffer num input = .ok r := by
  induction rounds generalizing state buffer input num with
  | zero => exact absurd hrounds (Nat.not_lt_zero _)
  | succ rounds ih =>
    by_cases hnil : input = []
    · exact ⟨_, if_pos hnil⟩
    have hpos : 0 < input.length := length_pos_iff.mpr hnil
    have hchunk : (input.take (64 - num)).length = min (64 - num) input.length := length_take
    rw [absorb, if_neg hnil, if_neg (by omega)]
    simp only
    split
    next hfull =>
      refine ih (by omega) ?_
      rw [length_drop, if_neg (by decide)]
      split at hrounds <;> omega
    next hpart =>
      refine ih (by omega) ?_
      rw [length_drop]
      split at hrounds <;> split <;> omega

lemma update_total (hnum : ctx.num.toNat ≤ 64) (data : List UInt8) :
    ∃ ctx', ctx.update data = .ok ctx' := by
  by_cases hnil : data = []
  · exact ⟨ctx, if_pos hnil⟩
  have hrounds : data.length + (if ctx.num.toNat = 64 then 1 else 0) < data.length + 2 := by
    split <;> omega
  obtain ⟨r, hr⟩ : ∃ r, absorb (data.length + 2) ctx.state ctx.buffer ctx.num.toNat data = .ok r :=
    absorb_total hnum hrounds
  exact ⟨_, by rw [update, if_neg hnil, hr]; rfl⟩

lemma final_total (hnum : ctx.num.toNat < 68) : ∃ hash, ctx.final = .ok hash := by
  rw [final, if_neg (by omega)]
  simp only
  split
  · exact ⟨_, rfl⟩
  · exact ⟨_, rfl⟩

lemma length_md5Hash {hash : List UInt8} (h : md5Hash m = .ok hash) : hash.length = 16 := by
  unfold md5Hash at h
  split at h
  · obtain rfl := Except.ok.inj h
    simp [Md5State.toBytes]
  · cases h

lemma overwrite_eq {front back bytes : List UInt8} (hfront : front.length = n) :
    overwrite (front ++ back) n bytes = front ++ (bytes ++ back.drop bytes.length) := by
  rw [overwrite, take_left' hfront, ← drop_drop, drop_left' hfront, append_assoc]

lemma zeroFrom_eq {front back : List UInt8} {k : ℕ} (hfront : front.length = n) (hk : n ≤ k) :
    zeroFrom (front ++ back) n k = front ++ (List.replicate (k - n) 0 ++ back.drop (k - n)) := by
  have hsplit : k = n + (k - n) := by omega
  rw [zeroFrom, take_left' hfront, append_assoc]
  congr 2
  rw [hsplit, ← drop_drop, drop_left' hfront, Nat.add_sub_cancel_left]

lemma padding_eq : padding rest n =
    (rest ++ [0x80]) ++ (List.replicate ((119 - rest.length) % 64) 0 ++ leBytes 8 n) := by
  simp [padding]

section

variable {marked tail length : List UInt8}

lemma compress_one (hmarked : marked.length = n + 1) (htail : tail.length = 63 - n)
    (hlength : length.length = 8) (hn : n < 56) :
    compress ((marked ++ (List.replicate ((119 - n) % 64) 0 ++ length)).length / 64) state
        (marked ++ (List.replicate ((119 - n) % 64) 0 ++ length)) =
      state.step (overwrite (zeroFrom (marked ++ tail) (n + 1) 56) 56 length) := by
  have hcount : (119 - n) % 64 = 56 - (n + 1) := by omega
  have hfront : (marked ++ List.replicate (56 - (n + 1)) 0).length = 56 := by
    rw [length_append, length_replicate, hmarked]
    omega
  have hnone : (tail.drop (56 - (n + 1))).drop length.length = [] := by
    rw [drop_eq_nil_iff, length_drop, htail, hlength]
    omega
  have hblock : (marked ++ (List.replicate (56 - (n + 1)) 0 ++ length)).length = 64 := by
    rw [← append_assoc, length_append, hfront, hlength]
  have hfilled : overwrite (zeroFrom (marked ++ tail) (n + 1) 56) 56 length =
      marked ++ (List.replicate (56 - (n + 1)) 0 ++ length) := by
    rw [zeroFrom_eq hmarked (by omega), ← append_assoc, overwrite_eq hfront, hnone, append_nil,
      append_assoc]
  rw [hcount, hblock, hfilled]
  exact compress_block hblock

lemma compress_two (hmarked : marked.length = n + 1) (htail : tail.length = 63 - n)
    (hlength : length.length = 8) (hspill : 56 < n + 1) (hn : n < 64) :
    compress ((marked ++ (List.replicate ((119 - n) % 64) 0 ++ length)).length / 64) state
        (marked ++ (List.replicate ((119 - n) % 64) 0 ++ length)) =
      (state.step (zeroFrom (marked ++ tail) (n + 1) 64)).step
        (overwrite (zeroFrom (zeroFrom (marked ++ tail) (n + 1) 64) 0 56) 56 length) := by
  have hcount : (119 - n) % 64 = 64 - (n + 1) + 56 := by omega
  have hnone : tail.drop (64 - (n + 1)) = [] := by
    rw [drop_eq_nil_iff, htail]
    omega
  let first := marked ++ List.replicate (64 - (n + 1)) 0
  let last := List.replicate 56 0 ++ length
  have hfirst : first.length = 64 * 1 := by
    rw [length_append, length_replicate, hmarked]
    omega
  have hlast : last.length = 64 := by rw [length_append, length_replicate, hlength]
  have hsplit : marked ++ (List.replicate (64 - (n + 1) + 56) 0 ++ length) = first ++ last := by
    rw [replicate_add]
    simp [first, last]
  have hfull : zeroFrom (marked ++ tail) (n + 1) 64 = first := by
    rw [zeroFrom_eq hmarked (by omega), hnone, append_nil]
  have hzeroes : overwrite (zeroFrom first 0 56) 56 length = last := by
    have hback : (first.drop 56).drop length.length = [] := by
      rw [drop_eq_nil_iff, length_drop, hfirst, hlength]
    have hzero : zeroFrom ([] ++ first) 0 56 = [] ++ (List.replicate (56 - 0) 0 ++ first.drop (56 - 0)) :=
      zeroFrom_eq rfl (Nat.zero_le 56)
    rw [nil_append, nil_append] at hzero
    rw [hzero, overwrite_eq length_replicate, Nat.sub_zero, hback, append_nil]
  have htwo : (first ++ last).length / 64 = 1 + 1 := by rw [length_append, hfirst, hlast]
  rw [hcount, hsplit, hfull, hzeroes, htwo, compress_extend hfirst hlast, compress_block hfirst]

end

lemma final_ok (h : Holds m ctx) (hlength : m.length < 2 ^ 61) : ctx.final = md5Hash m := by
  obtain ⟨⟨n, whole, rest, rfl, hwhole, hrest, hnum, hstate, hbuffer, htake⟩, hcounted⟩ := h
  have hbits : (whole ++ rest).length * 8 < 2 ^ 64 := by omega
  have hlong : leBytes 4 ctx.nl.toNat ++ leBytes 4 ctx.nh.toNat = leBytes 8 ((whole ++ rest).length * 8) := by
    have hnl := ctx.nl.toNat_lt
    rw [Nat.mod_eq_of_lt hbits] at hcounted
    have hlow : leBytes 4 ctx.nl.toNat = leBytes 4 ((whole ++ rest).length * 8) :=
      leBytes_congr (by rw [← hcounted]; omega)
    have hhigh : ctx.nh.toNat = (whole ++ rest).length * 8 / 256 ^ 4 := by
      rw [← hcounted]
      omega
    rw [hlow, hhigh, ← leBytes_add]
  have hblocks : (whole ++ rest).length / 64 = n := by
    rw [length_append]
    omega
  have hend : (whole ++ rest).drop (n * 64) = rest := drop_left' (by omega)
  have hhash : md5Hash (whole ++ rest) = .ok
      (compress ((padding rest ((whole ++ rest).length * 8)).length / 64) (compress n .initial whole)
        (padding rest ((whole ++ rest).length * 8))).toBytes := by
    have hfirst : compress (n + 0) .initial (whole ++ rest) = compress 0 (compress n .initial whole) rest :=
      compress_append hwhole
    rw [md5Hash, if_pos hbits]
    simp only [hblocks, hend]
    rw [show compress n .initial (whole ++ rest) = compress n .initial whole from hfirst]
  have hset : ctx.buffer.set ctx.num.toNat 0x80 =
      (rest ++ [0x80]) ++ ctx.buffer.drop (ctx.num.toNat + 1) := by
    rw [set_eq_take_append_cons_drop, if_pos (by omega), htake]
    simp
  have hmarked : (rest ++ [0x80]).length = ctx.num.toNat + 1 := by
    rw [length_append, hrest, length_singleton]
  have height : (leBytes 8 ((whole ++ rest).length * 8)).length = 8 := length_leBytes
  have htail : (ctx.buffer.drop (ctx.num.toNat + 1)).length = 63 - ctx.num.toNat := by
    rw [length_drop, hbuffer]
    omega
  rw [hhash, final]
  simp only [if_neg (show ¬ 68 ≤ ctx.num.toNat by omega), hlong, hset, hstate]
  rw [padding_eq, ← hrest]
  rw [← hrest] at hmarked htail hnum
  split
  next hspill => rw [compress_two hmarked htail height hspill hnum]
  next hroom => rw [compress_one hmarked htail height (by omega)]

end Md5Ctx

end TouchHle.Crypto
