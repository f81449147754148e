import TouchHle.Memory.GuestMemory

namespace TouchHle.Crypto

open Lib
open Memory (Mem)

structure Ciphers where
  aesEncryptBlock : List UInt8 → List UInt8 → List UInt8
  aesDecryptBlock : List UInt8 → List UInt8 → List UInt8
  desEncryptBlock : List UInt8 → List UInt8 → List UInt8
  desDecryptBlock : List UInt8 → List UInt8 → List UInt8
  length_aesEncryptBlock : ∀ key block, (aesEncryptBlock key block).length = 16
  length_aesDecryptBlock : ∀ key block, (aesDecryptBlock key block).length = 16
  length_desEncryptBlock : ∀ key block, (desEncryptBlock key block).length = 8
  length_desDecryptBlock : ∀ key block, (desDecryptBlock key block).length = 8

inductive Status
  | success
  | paramError
  | bufferTooSmall
  | alignmentError
  | decodeError
  | unimplemented
  deriving DecidableEq

structure Rc4 where
  s : List UInt8
  i : ℕ
  j : ℕ
  deriving DecidableEq

namespace Rc4

def swap (s : List UInt8) (i j : ℕ) : List UInt8 := (s.set i (s.getD j 0)).set j (s.getD i 0)

def schedule (keyBytes : List UInt8) (modulus : ℕ) : Rc4 :=
  let start : List UInt8 × ℕ := ((List.range 256).map UInt8.ofNat, 0)
  let mixed := (List.range 256).foldl (fun state i =>
    let j := (state.2 + (state.1.getD i 0).toNat + (keyBytes.getD (i % modulus) 0).toNat) % 256
    (swap state.1 i j, j)) start
  ⟨mixed.1, 0, 0⟩

def next (r : Rc4) : Rc4 × UInt8 :=
  let i := (r.i + 1) % 256
  let j := (r.j + (r.s.getD i 0).toNat) % 256
  let s := swap r.s i j
  (⟨s, i, j⟩, s.getD (((s.getD i 0).toNat + (s.getD j 0).toNat) % 256) 0)

def apply (r : Rc4) : List UInt8 → Rc4 × List UInt8
  | [] => (r, [])
  | byte :: input =>
    let rest := r.next.1.apply input
    (rest.1, (byte ^^^ r.next.2) :: rest.2)

end Rc4

inductive CryptorCipher
  | aes (key : List UInt8)
  | des (key : List UInt8)
  | rc4 (stream : Rc4)
  deriving DecidableEq

namespace CryptorCipher

def blockSize : CryptorCipher → ℕ
  | aes _ => 16
  | des _ => 8
  | rc4 _ => 1

def encryptBlock (C : Ciphers) (block : List UInt8) : CryptorCipher → List UInt8
  | aes key => C.aesEncryptBlock key block
  | des key => C.desEncryptBlock key block
  | rc4 _ => block.take 1

def decryptBlock (C : Ciphers) (block : List UInt8) : CryptorCipher → List UInt8
  | aes key => C.aesDecryptBlock key block
  | des key => C.desDecryptBlock key block
  | rc4 _ => block.take 1

def stream : CryptorCipher → Option Rc4
  | rc4 r => some r
  | _ => none

end CryptorCipher

structure CryptorState where
  encrypt : Bool
  ecbMode : Bool
  pkcs7Pad : Bool
  chain : List UInt8
  initialIv : List UInt8
  cipher : CryptorCipher
  buffer : List UInt8
  deriving DecidableEq

def xorBytes (a b : List UInt8) : List UInt8 := a.zipWith (· ^^^ ·) b

structure CryptReply where
  status : Status
  output : List UInt8
  deriving DecidableEq

namespace CryptorState

variable (C : Ciphers) (state : CryptorState)

def blockSize : ℕ := state.cipher.blockSize

def processBlock (chain block : List UInt8) : List UInt8 × List UInt8 :=
  if state.encrypt then
    let input := if state.ecbMode then block else xorBytes block chain
    let out := state.cipher.encryptBlock C input
    (out, if state.ecbMode then chain else out)
  else
    let dec := state.cipher.decryptBlock C block
    if state.ecbMode then (dec, chain) else (xorBytes dec chain, block)

def processBlocks : ℕ → List UInt8 → List UInt8 → List UInt8 × List UInt8
  | 0, chain, _ => ([], chain)
  | blocks + 1, chain, chunk =>
    let r := state.processBlock C chain (chunk.take state.blockSize)
    let rest := processBlocks blocks r.2 (chunk.drop state.blockSize)
    (r.1 ++ rest.1, rest.2)

def process (chunk : List UInt8) : Checked (List UInt8 × CryptorState) :=
  if chunk ≠ [] ∧ state.ecbMode = false ∧ state.chain.length < state.blockSize then .error .index
  else
    let r := state.processBlocks C (chunk.length / state.blockSize) state.chain chunk
    .ok (r.1, { state with chain := r.2 })

def finish (output : List UInt8) (dataOutAvailable : ℕ) : CryptReply × CryptorState :=
  if dataOutAvailable < output.length then (⟨.bufferTooSmall, []⟩, state)
  else (⟨.success, output⟩, state)

def holdBack : ℕ := if !state.encrypt && state.pkcs7Pad then state.blockSize else 0

def processLen (available : ℕ) : ℕ :=
  if state.holdBack < available then
    (available - state.holdBack) / state.blockSize * state.blockSize
  else 0

def updateStream (stream : Rc4) (input : List UInt8) (dataOutAvailable : ℕ) : CryptReply × CryptorState :=
  let r := stream.apply input
  { state with cipher := .rc4 r.1 }.finish r.2 dataOutAvailable

def updateBlocks (input : List UInt8) (dataOutAvailable : ℕ) : Checked (CryptReply × CryptorState) := do
  let buffer := state.buffer ++ input
  let len := state.processLen buffer.length
  let r ← { state with buffer := buffer.drop len }.process C (buffer.take len)
  return r.2.finish r.1 dataOutAvailable

def update (input : List UInt8) (dataOutAvailable : ℕ) : Checked (CryptReply × CryptorState) :=
  state.cipher.stream.elim (state.updateBlocks C input dataOutAvailable) fun stream =>
    .ok (state.updateStream stream input dataOutAvailable)

def padLen : ℕ := state.blockSize - state.buffer.length % state.blockSize

def stripped (block : List UInt8) : Option (List UInt8) :=
  let pad := (block.getLastD 0).toNat
  if pad = 0 ∨ state.blockSize < pad ∨ block.length < pad then none
  else some (block.take (block.length - pad))

def finalEncrypt (dataOutAvailable : ℕ) : Checked (CryptReply × CryptorState) := do
  let pad := List.replicate state.padLen (UInt8.ofNat state.padLen)
  let r ← { state with buffer := [] }.process C (state.buffer ++ pad)
  return r.2.finish r.1 dataOutAvailable

def finalBlocks (dataOutAvailable : ℕ) : Checked (CryptReply × CryptorState) := do
  let r ← { state with buffer := [] }.process C state.buffer
  let output := if !state.encrypt && state.pkcs7Pad then state.stripped r.1 else some r.1
  return output.elim (⟨.decodeError, []⟩, r.2) fun output => r.2.finish output dataOutAvailable

def final (dataOutAvailable : ℕ) : Checked (CryptReply × CryptorState) :=
  if state.cipher.stream.isSome then .ok (state.finish [] dataOutAvailable)
  else if state.encrypt && state.pkcs7Pad then state.finalEncrypt C dataOutAvailable
  else if state.buffer = [] then .ok ({ state with buffer := [] }.finish [] dataOutAvailable)
  else if state.buffer.length % state.blockSize ≠ 0 then
    .ok (⟨.alignmentError, []⟩, { state with buffer := [] })
  else state.finalBlocks C dataOutAvailable

end CryptorState

def guestBytes (m : Mem) (ptr count : ℕ) : List UInt8 :=
  let s := m.bytesAt ptr count
  (List.range s.len).map fun k => m.sliceByte ⟨s.backing, s.start + k, s.len - k⟩

def readGuestBytes (m : Mem) (data len : ℕ) : List UInt8 :=
  if data = 0 ∨ len = 0 then [] else guestBytes m data len

def isAesKeyLength (keyLength : ℕ) : Bool := keyLength = 16 || keyLength = 24 || keyLength = 32

def expandKey (keyBytes : List UInt8) (keyLength : ℕ) : Checked (List UInt8) :=
  if keyBytes.length < keyLength then .error .index else .ok keyBytes

structure CryptArgs where
  op : ℕ
  alg : ℕ
  options : ℕ
  key : ℕ
  keyLength : ℕ
  iv : ℕ

namespace CryptArgs

variable (m : Mem) (args : CryptArgs)

def ecbMode : Bool := args.options.testBit 1

def pkcs7Pad : Bool := args.options.testBit 0

def newState (cipher : CryptorCipher) (chain buffer : List UInt8) : CryptorState :=
  ⟨args.op = 0, args.ecbMode, args.pkcs7Pad, chain, chain, cipher, buffer⟩

def created (cipher : CryptorCipher) : Status × Option CryptorState :=
  let iv :=
    if args.ecbMode = false ∧ args.iv ≠ 0 ∧ 1 < cipher.blockSize then
      readGuestBytes m args.iv cipher.blockSize
    else List.replicate cipher.blockSize 0
  (.success, some (args.newState cipher iv []))

def create (cryptorRefOut : ℕ) : Checked (Status × Option CryptorState) :=
  let keyBytes := readGuestBytes m args.key args.keyLength
  if cryptorRefOut = 0 then .ok (.paramError, none)
  else if args.alg = 0 then
    if isAesKeyLength args.keyLength then do
      let key ← expandKey keyBytes args.keyLength
      return args.created m (.aes key)
    else .ok (.paramError, none)
  else if args.alg = 1 then
    .ok (if keyBytes.length ≠ 8 then (.paramError, none) else args.created m (.des keyBytes))
  else if args.alg = 4 then
    .ok (if keyBytes = [] then (.paramError, none)
      else args.created m (.rc4 (.schedule keyBytes keyBytes.length)))
  else .ok (.unimplemented, none)

def readIv : Checked (List UInt8) :=
  if args.ecbMode ∨ args.iv = 0 then .ok (List.replicate 16 0)
  else if (guestBytes m args.iv 16).length = 16 then .ok (guestBytes m args.iv 16)
  else .error .assertion

variable (C : Ciphers) (input : List UInt8) (dataOutAvailable : ℕ)

def cryptStream : Checked CryptReply :=
  let keyBytes := guestBytes m args.key args.keyLength
  if args.key = 0 ∨ args.keyLength = 0 then .ok ⟨.paramError, []⟩
  else if dataOutAvailable < input.length then .ok ⟨.bufferTooSmall, []⟩
  else if keyBytes.length < min args.keyLength 256 then .error .index
  else .ok ⟨.success, ((Rc4.schedule keyBytes args.keyLength).apply input).2⟩

def reply (output : List UInt8) : CryptReply :=
  if dataOutAvailable < output.length then ⟨.bufferTooSmall, []⟩ else ⟨.success, output⟩

def workData (state : CryptorState) : Except CryptReply (List UInt8) :=
  if state.encrypt ∧ state.pkcs7Pad then
    .ok (input ++ List.replicate state.padLen (UInt8.ofNat state.padLen))
  else if state.encrypt = false ∧ input = [] then .error ⟨.success, []⟩
  else if input.length % state.blockSize ≠ 0 then .error ⟨.alignmentError, []⟩
  else .ok input

def cryptBlocks (state : CryptorState) (chain work : List UInt8) : CryptReply :=
  let output := (state.processBlocks C (work.length / state.blockSize) chain work).1
  if !state.encrypt && state.pkcs7Pad then
    (state.stripped output).elim ⟨.decodeError, []⟩ (reply dataOutAvailable)
  else reply dataOutAvailable output

def cryptAes : Checked CryptReply :=
  if isAesKeyLength args.keyLength then do
    let key ← expandKey (guestBytes m args.key args.keyLength) args.keyLength
    let state := args.newState (.aes key) [] input
    match workData input state with
    | .error reply => return reply
    | .ok work =>
      if state.encrypt ∧ dataOutAvailable < work.length then return ⟨.bufferTooSmall, []⟩
      else
        let chain ← args.readIv m
        return cryptBlocks C dataOutAvailable state chain work
  else .ok ⟨.paramError, []⟩

def cryptDes : CryptReply :=
  let keyBytes := guestBytes m args.key args.keyLength
  let iv := guestBytes m args.iv 8
  let chain := if args.ecbMode ∨ args.iv = 0 ∨ iv.length ≠ 8 then List.replicate 8 0 else iv
  let state := args.newState (.des keyBytes) [] input
  if keyBytes.length ≠ 8 then ⟨.paramError, []⟩
  else
    match workData input state with
    | .error reply => reply
    | .ok work => cryptBlocks C dataOutAvailable state chain work

def crypt : Checked CryptReply :=
  if args.alg = 4 then args.cryptStream m input dataOutAvailable
  else if args.alg = 0 then args.cryptAes m C input dataOutAvailable
  else if args.alg = 1 then .ok (args.cryptDes m C input dataOutAvailable)
  else .ok ⟨.unimplemented, []⟩

end CryptArgs

end TouchHle.Crypto
