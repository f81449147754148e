import TouchHle.Lib.Bytes
import TouchHle.Foundation.JsonObjects

/-! Strings in the encodings that have a number: how they are encoded and decoded, and the methods that
tell what will come of it. -/

namespace TouchHle.Foundation

open Lib JsonWriter

inductive NSStringEncoding
  | ascii
  | nextstep
  | japaneseEuc
  | utf8
  | isoLatin1
  | nonLossyAscii
  | shiftJis
  | isoLatin2
  | utf16
  | windowsCp1251
  | windowsCp1252
  | windowsCp1253
  | windowsCp1254
  | windowsCp1250
  | iso2022Jp
  | macOsRoman
  | nextStepLatin
  | utf16BigEndian
  | utf16LittleEndian
  | utf32LittleEndian
  | utf32
  | utf32BigEndian
  /-- Any other number. -/
  | other (n : ℕ)
  deriving DecidableEq

inductive RsEncoding
  | shiftJis
  | eucJp
  | iso2022Jp
  | iso8859_2
  | windows1250
  | windows1251
  | windows1252
  | windows1253
  | windows1254
  | macintosh
  deriving DecidableEq

structure Codec where
  encode : List Char → List UInt8 × Bool
  decode : List UInt8 → List Char

structure Codecs where
  codec : RsEncoding → Codec
  fallback : Bool

def encodingRsFor : NSStringEncoding → Option RsEncoding
  | .shiftJis => some .shiftJis
  | .japaneseEuc => some .eucJp
  | .iso2022Jp => some .iso2022Jp
  | .isoLatin2 => some .iso8859_2
  | .windowsCp1250 => some .windows1250
  | .windowsCp1251 => some .windows1251
  | .windowsCp1252 => some .windows1252
  | .windowsCp1253 => some .windows1253
  | .windowsCp1254 => some .windows1254
  | _ => none

def nextstepUpperToUnicode : List ℕ := [
  0x00A0, 0x00C0, 0x00C1, 0x00C2, 0x00C3, 0x00C4, 0x00C5, 0x00C7, 0x00C8, 0x00C9, 0x00CA, 0x00CB,
  0x00CC, 0x00CD, 0x00CE, 0x00CF, 0x00D0, 0x00D1, 0x00D2, 0x00D3, 0x00D4, 0x00D5, 0x00D6, 0x00D9,
  0x00DA, 0x00DB, 0x00DC, 0x00DD, 0x00DE, 0x00B5, 0x00D7, 0x00F7, 0x00A9, 0x00A1, 0x00A2, 0x00A3,
  0x2044, 0x00A5, 0x0192, 0x00A7, 0x00A4, 0x2019, 0x201C, 0x00AB, 0x2039, 0x203A, 0xFB01, 0xFB02,
  0x00AE, 0x2013, 0x2020, 0x2021, 0x00B7, 0x00A6, 0x00B6, 0x2022, 0x201A, 0x201E, 0x201D, 0x00BB,
  0x2026, 0x2030, 0x00AC, 0x00BF, 0x00B9, 0x02CB, 0x00B4, 0x02C6, 0x02DC, 0x00AF, 0x02D8, 0x02D9,
  0x00A8, 0x00B2, 0x02DA, 0x00B8, 0x00B3, 0x02DD, 0x02DB, 0x02C7, 0x2014, 0x00B1, 0x00BC, 0x00BD,
  0x00BE, 0x00E0, 0x00E1, 0x00E2, 0x00E3, 0x00E4, 0x00E5, 0x00E7, 0x00E8, 0x00E9, 0x00EA, 0x00EB,
  0x00EC, 0x00C6, 0x00ED, 0x00AA, 0x00EE, 0x00EF, 0x00F0, 0x00F1, 0x0141, 0x00D8, 0x0152, 0x00BA,
  0x00F2, 0x00F3, 0x00F4, 0x00F5, 0x00F6, 0x00E6, 0x00F9, 0x00FA, 0x00FB, 0x0131, 0x00FC, 0x00FD,
  0x0142, 0x00F8, 0x0153, 0x00DF, 0x00FE, 0x00FF, 0xFFFD, 0xFFFD]

def decodeNextstep (bytes : List UInt8) : List Char := bytes.map fun b =>
  if b.toNat < 0x80 then asChar b
  else (charFromU32 (nextstepUpperToUnicode.getD (b.toNat - 0x80) 0)).getD '\uFFFD'

def encodeNextstep (string : List Char) : List UInt8 := string.map fun c =>
  if c.toNat < 0x80 then ascii c
  else ((nextstepUpperToUnicode.findIdx? (· = c.toNat)).map fun i => UInt8.ofNat i + 0x80).getD (ascii '?')

def isNextstep (c : Char) : Bool := c.toNat < 0x80 || nextstepUpperToUnicode.any (· = c.toNat)

def encodeUpTo (limit : ℕ) (lossy : Bool) : List Char → Option (List UInt8)
  | [] => some []
  | c :: cs =>
    if c.toNat ≤ limit then (encodeUpTo limit lossy cs).map (ascii c :: ·)
    else if lossy then (encodeUpTo limit lossy cs).map (ascii '?' :: ·)
    else none

def Codec.encodeString (codec : Codec) (string : List Char) (lossy : Bool) : Option (List UInt8) :=
  if (codec.encode string).2 && !lossy then none else some (codec.encode string).1

def decodeUtf16 (bigEndian : Bool) (payload : List UInt8) : List UInt16 :=
  (chunksExact 2 payload).map fun chunk =>
    UInt16.ofNat (if bigEndian then fromBeBytes chunk else fromLeBytes chunk)

def decodeUtf32 (bigEndian : Bool) (payload : List UInt8) : List Char :=
  (chunksExact 4 payload).map fun chunk =>
    (charFromU32 (if bigEndian then fromBeBytes chunk else fromLeBytes chunk)).getD '\uFFFD'

namespace Codecs

variable (codecs : Codecs)

def encodeLegacy (string : List Char) (encoding : NSStringEncoding) (lossy : Bool) :
    Option (List UInt8) :=
  match encodingRsFor encoding with
  | some enc => (codecs.codec enc).encodeString string lossy
  | none => some (Lib.utf8 string)

def decodeLegacy (bytes : List UInt8) (encoding : NSStringEncoding) : List Char :=
  match encodingRsFor encoding with
  | some enc => (codecs.codec enc).decode bytes
  | none => fromUtf8Lossy bytes

def decodeUtf8 (bytes : List UInt8) : List Char :=
  (fromUtf8 bytes).getD
    (if codecs.fallback then (codecs.codec .windows1252).decode bytes else fromUtf8Lossy bytes)

def encodeString (string : List Char) (encoding : NSStringEncoding) (lossy : Bool) :
    Option (List UInt8) :=
  match encoding with
  | .ascii => encodeUpTo 0x7F lossy string
  | .isoLatin1 => encodeUpTo 0xFF lossy string
  | .utf8 => some (Lib.utf8 string)
  | .macOsRoman => (codecs.codec .macintosh).encodeString string lossy
  | .nextstep | .nextStepLatin =>
    if !lossy && string.any (!isNextstep ·) then none else some (encodeNextstep string)
  | .utf16LittleEndian | .utf16 => some ((Lib.utf16 string).flatMap fun u => leBytes 2 u.toNat)
  | .utf16BigEndian => some ((Lib.utf16 string).flatMap fun u => beBytes 2 u.toNat)
  | .utf32LittleEndian => some (string.flatMap fun c => leBytes 4 c.toNat)
  | .utf32BigEndian | .utf32 => some (string.flatMap fun c => beBytes 4 c.toNat)
  | encoding => codecs.encodeLegacy string encoding lossy

def decode (bytes : List UInt8) (encoding : NSStringEncoding) : StringHostObject :=
  if bytes = [] then .utf8 []
  else
    match encoding with
    | .ascii => .utf8 (bytes.map fun b => if b.toNat < 0x80 then asChar b else '\uFFFD')
    | .isoLatin1 => .utf8 (bytes.map asChar)
    | .utf8 => .utf8 (codecs.decodeUtf8 bytes)
    | .macOsRoman => .utf8 ((codecs.codec .macintosh).decode bytes)
    | .nextstep | .nextStepLatin => .utf8 (decodeNextstep bytes)
    | .utf16 =>
      -- the byte order mark is looked for here only
      if bytes.take 2 = [0xFE, 0xFF] then .utf16 (decodeUtf16 true (bytes.drop 2))
      else if bytes.take 2 = [0xFF, 0xFE] then .utf16 (decodeUtf16 false (bytes.drop 2))
      else .utf16 (decodeUtf16 false bytes)
    | .utf16BigEndian => .utf16 (decodeUtf16 true bytes)
    | .utf16LittleEndian => .utf16 (decodeUtf16 false bytes)
    | .utf32 =>
      if bytes.take 4 = [0x00, 0x00, 0xFE, 0xFF] then .utf8 (decodeUtf32 true (bytes.drop 4))
      else if bytes.take 4 = [0xFF, 0xFE, 0x00, 0x00] then .utf8 (decodeUtf32 false (bytes.drop 4))
      else .utf8 (decodeUtf32 false bytes)
    | .utf32BigEndian => .utf8 (decodeUtf32 true bytes)
    | .utf32LittleEndian => .utf8 (decodeUtf32 false bytes)
    | encoding => .utf8 (codecs.decodeLegacy bytes encoding)

end Codecs

inductive StringClass
  | touchHleNSString
  | touchHleNSMutableString
  deriving DecidableEq

namespace Codecs

variable (codecs : Codecs)

def canBeConvertedToEncoding (string : List Char) (encoding : NSStringEncoding) : Bool :=
  (codecs.encodeString string encoding false).isSome

def dataUsingEncoding (string : List Char) (encoding : NSStringEncoding) : Option (List UInt8) :=
  codecs.encodeString string encoding false

def bytesForEncoding (string : List Char) (encoding : NSStringEncoding) : List UInt8 :=
  (codecs.encodeString string encoding true).getD (Lib.utf8 string)

def touchHleLengthOfBytes (string : List Char) : NSStringEncoding → ℕ
  | .utf8 => (Lib.utf8 string).length
  | .ascii => (Lib.utf8 string).countP fun b => b.toNat < 0x80
  | .utf16 | .utf16BigEndian | .utf16LittleEndian =>
    (string.map fun c => if c.toNat ≤ 0xFFFF then 2 else 4).sum
  | .utf32 | .utf32BigEndian | .utf32LittleEndian => string.length * 4
  | .isoLatin1 | .windowsCp1252 => string.countP fun c => c.toNat ≤ 0xFF
  | .shiftJis => ((codecs.codec .shiftJis).encode string).1.length
  | _ => (Lib.utf8 string).length

def lengthOfBytesUsingEncoding (string : List Char) (encoding : NSStringEncoding) : StringClass → ℕ
  | .touchHleNSString => codecs.touchHleLengthOfBytes string encoding
  | .touchHleNSMutableString => (codecs.bytesForEncoding string encoding).length

end Codecs

end TouchHle.Foundation
