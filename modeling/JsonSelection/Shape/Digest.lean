import JsonSelection.Number.Power
import JsonSelection.Text.Hex

/-!
# SHA-256

The 256-bit digest of a text in UTF-8, written in hexadecimal.

The message is padded to whole blocks of sixty-four bytes (`Digest.pad`), each
block is expanded to sixty-four words (`Digest.schedule`), and each word drives
one round on the eight working words (`Digest.round`). The digest is used as a
name for a shape only; nothing is proved of it that would not hold for any
function of the text.
-/

set_option autoImplicit false

namespace JsonSelection

namespace Digest

/-- The eight working words. -/
structure Words where
  a : UInt32
  b : UInt32
  c : UInt32
  d : UInt32
  e : UInt32
  f : UInt32
  g : UInt32
  h : UInt32

/-- The initial hash value: fractions of the square roots of the first eight
primes. -/
def initial : Words :=
  ⟨0x6a09e667, 0xbb67ae85, 0x3c6ef372, 0xa54ff53a, 0x510e527f, 0x9b05688c,
    0x1f83d9ab, 0x5be0cd19⟩

/-- The constants of the sixty-four rounds: fractions of the cube roots of the
first primes. -/
def roundConstants : List UInt32 :=
  [0x428a2f98, 0x71374491, 0xb5c0fbcf, 0xe9b5dba5, 0x3956c25b, 0x59f111f1, 0x923f82a4, 0xab1c5ed5,
   0xd807aa98, 0x12835b01, 0x243185be, 0x550c7dc3, 0x72be5d74, 0x80deb1fe, 0x9bdc06a7, 0xc19bf174,
   0xe49b69c1, 0xefbe4786, 0x0fc19dc6, 0x240ca1cc, 0x2de92c6f, 0x4a7484aa, 0x5cb0a9dc, 0x76f988da,
   0x983e5152, 0xa831c66d, 0xb00327c8, 0xbf597fc7, 0xc6e00bf3, 0xd5a79147, 0x06ca6351, 0x14292967,
   0x27b70a85, 0x2e1b2138, 0x4d2c6dfc, 0x53380d13, 0x650a7354, 0x766a0abb, 0x81c2c92e, 0x92722c85,
   0xa2bfe8a1, 0xa81a664b, 0xc24b8b70, 0xc76c51a3, 0xd192e819, 0xd6990624, 0xf40e3585, 0x106aa070,
   0x19a4c116, 0x1e376c08, 0x2748774c, 0x34b0bcb5, 0x391c0cb3, 0x4ed8aa4a, 0x5b9cca4f, 0x682e6ff3,
   0x748f82ee, 0x78a5636f, 0x84c87814, 0x8cc70208, 0x90befffa, 0xa4506ceb, 0xbef9a3f7, 0xc67178f2]

/-- Rotation to the right. -/
def rotate (x : UInt32) (n : UInt32) : UInt32 :=
  (x >>> n) ||| (x <<< (32 - n))

/-- The message with a one bit, zeros, and its length in bits as eight bytes at
the end; the result is a whole number of blocks of sixty-four bytes. -/
def pad (message : ByteArray) : ByteArray :=
  let size := message.size
  -- after the marking byte, so many zeros that eight bytes remain in the last block
  let zeros := (119 - size % 64) % 64
  let marked := (List.replicate zeros (0 : UInt8)).foldl ByteArray.push (message.push 0x80)
  [56, 48, 40, 32, 24, 16, 8, 0].foldl
    (fun bytes shift => bytes.push (UInt8.ofNat (size * 8 / pow2 shift))) marked

/-- The four bytes from a position on as one word, the first byte foremost. -/
def wordAt (bytes : ByteArray) (i : Nat) : UInt32 :=
  let byte (k : Nat) : UInt32 := (bytes.data.getD (i + k) 0).toUInt32
  (byte 0 <<< 24) ||| (byte 1 <<< 16) ||| (byte 2 <<< 8) ||| byte 3

/-- The sixty-four message words of the block that starts at a position: the
sixteen of the block itself, and those that are mixed from them. -/
def schedule (bytes : ByteArray) (start : Nat) : Array UInt32 :=
  let first := (Array.range 16).map fun k => wordAt bytes (start + 4 * k)
  (List.range 48).foldl (fun words k =>
    let far := words.getD (k + 1) 0
    let near := words.getD (k + 14) 0
    let small := rotate far 7 ^^^ rotate far 18 ^^^ (far >>> 3)
    let large := rotate near 17 ^^^ rotate near 19 ^^^ (near >>> 10)
    words.push (words.getD k 0 + small + words.getD (k + 9) 0 + large)) first

/-- One round with its constant and its message word. -/
def round (s : Words) (constant word : UInt32) : Words :=
  let large := rotate s.e 6 ^^^ rotate s.e 11 ^^^ rotate s.e 25
  let choice := (s.e &&& s.f) ^^^ ((~~~ s.e) &&& s.g)
  let one := s.h + large + choice + constant + word
  let small := rotate s.a 2 ^^^ rotate s.a 13 ^^^ rotate s.a 22
  let majority := (s.a &&& s.b) ^^^ (s.a &&& s.c) ^^^ (s.b &&& s.c)
  ⟨one + (small + majority), s.a, s.b, s.c, s.d + one, s.e, s.f, s.g⟩

/-- The hash value after one more block. -/
def compress (bytes : ByteArray) (s : Words) (block : Nat) : Words :=
  let words := schedule bytes (64 * block)
  let r := (roundConstants.zip words.toList).foldl (fun acc pair => round acc pair.1 pair.2) s
  ⟨s.a + r.a, s.b + r.b, s.c + r.c, s.d + r.d, s.e + r.e, s.f + r.f, s.g + r.g, s.h + r.h⟩

/-- The words of a hash value in order. -/
def Words.toList (s : Words) : List UInt32 :=
  [s.a, s.b, s.c, s.d, s.e, s.f, s.g, s.h]

/-- The digest of a text in sixty-four hexadecimal digits. -/
def sha256 (text : String) : List Char :=
  let bytes := pad text.toUTF8
  let s := (List.range (bytes.size / 64)).foldl (compress bytes) initial
  s.toList.flatMap fun word => Text.hex 8 word.toNat

end Digest

end JsonSelection
