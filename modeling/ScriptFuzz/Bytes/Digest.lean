import ScriptFuzz.Bytes.Hex

/-!
# Message digests

The MD5 digest of a string of bytes. The message is padded to whole blocks of sixteen words, and
each block is mixed into four words of state in sixty-four steps.

- `md5`: the sixteen bytes of the digest.
- `Digest.pad`: the message with its padding.
-/

namespace ScriptFuzz

namespace Digest

/-- The four words of state. -/
structure Words where
  a : UInt32
  b : UInt32
  c : UInt32
  d : UInt32
deriving DecidableEq, Repr, Inhabited

/-- The state before the first block. -/
def Words.start : Words := ⟨0x67452301, 0xefcdab89, 0x98badcfe, 0x10325476⟩

/-- The word added in each step: the first 32 bits behind the point of `|sin (i + 1)|`. -/
def sines : Array UInt32 := #[
  0xd76aa478, 0xe8c7b756, 0x242070db, 0xc1bdceee, 0xf57c0faf, 0x4787c62a, 0xa8304613, 0xfd469501,
  0x698098d8, 0x8b44f7af, 0xffff5bb1, 0x895cd7be, 0x6b901122, 0xfd987193, 0xa679438e, 0x49b40821,
  0xf61e2562, 0xc040b340, 0x265e5a51, 0xe9b6c7aa, 0xd62f105d, 0x02441453, 0xd8a1e681, 0xe7d3fbc8,
  0x21e1cde6, 0xc33707d6, 0xf4d50d87, 0x455a14ed, 0xa9e3e905, 0xfcefa3f8, 0x676f02d9, 0x8d2a4c8a,
  0xfffa3942, 0x8771f681, 0x6d9d6122, 0xfde5380c, 0xa4beea44, 0x4bdecfa9, 0xf6bb4b60, 0xbebfbc70,
  0x289b7ec6, 0xeaa127fa, 0xd4ef3085, 0x04881d05, 0xd9d4d039, 0xe6db99e5, 0x1fa27cf8, 0xc4ac5665,
  0xf4292244, 0x432aff97, 0xab9423a7, 0xfc93a039, 0x655b59c3, 0x8f0ccc92, 0xffeff47d, 0x85845dd1,
  0x6fa87e4f, 0xfe2ce6e0, 0xa3014314, 0x4e0811a1, 0xf7537e82, 0xbd3af235, 0x2ad7d2bb, 0xeb86d391]

/-- How far each step of a round rotates; four steps repeat. -/
def rotations : Array UInt32 := #[7, 12, 17, 22, 5, 9, 14, 20, 4, 11, 16, 23, 6, 10, 15, 21]

/-- A word with its bits moved around to the left. -/
def rotate (w n : UInt32) : UInt32 := (w <<< n) ||| (w >>> (32 - n))

/-- What a step mixes from three words, and which word of the block it adds. -/
def mix (i : Nat) (w : Words) : UInt32 × Nat :=
  match i / 16 with
  | 0 => ((w.b &&& w.c) ||| (~~~w.b &&& w.d), i)
  | 1 => ((w.d &&& w.b) ||| (~~~w.d &&& w.c), (5 * i + 1) % 16)
  | 2 => (w.b ^^^ w.c ^^^ w.d, (3 * i + 5) % 16)
  | _ => (w.c ^^^ (w.b ||| ~~~w.d), 7 * i % 16)

/-- One step on a block. -/
def step (block : Array UInt32) (w : Words) (i : Nat) : Words :=
  let (mixed, k) := mix i w
  let sum := w.a + mixed + sines.getD i 0 + block.getD k 0
  { a := w.d, b := w.b + rotate sum (rotations.getD (i / 16 * 4 + i % 4) 0), c := w.b, d := w.c }

/-- Mixes a block into the state. -/
def absorb (w : Words) (block : Array UInt32) : Words :=
  let m := (List.range 64).foldl (step block) w
  ⟨w.a + m.a, w.b + m.b, w.c + m.c, w.d + m.d⟩

/-- A message with its padding: a one bit, zeros up to eight bytes before the end of a block, and
the length of the message in bits. -/
def pad (message : Bytes) : Bytes :=
  let length := message.length
  message ++ 0x80 :: List.replicate ((119 - length % 64) % 64) 0 ++
    ByteOrder.littleEndian.encode 8 (UInt64.ofNat (8 * length))

/-- A word of four bytes. -/
def word (b₀ b₁ b₂ b₃ : UInt8) : UInt32 :=
  b₀.toUInt32 ||| b₁.toUInt32 <<< 8 ||| b₂.toUInt32 <<< 16 ||| b₃.toUInt32 <<< 24

/-- Mixes the words of a padded message into the state, where `block` holds those of the present
block. -/
def absorbAll (w : Words) (block : Array UInt32) : Bytes → Words
  | b₀ :: b₁ :: b₂ :: b₃ :: bytes =>
    let block := block.push (word b₀ b₁ b₂ b₃)
    if block.size = 16 then absorbAll (absorb w block) #[] bytes else absorbAll w block bytes
  | _ => w

/-- The bytes of the state. -/
def Words.bytes (w : Words) : Bytes :=
  [w.a, w.b, w.c, w.d].flatMap fun v => ByteOrder.littleEndian.encode 4 v.toUInt64

end Digest

/-- The digest of a message. -/
def md5 (message : Bytes) : Bytes := (Digest.absorbAll .start #[] (Digest.pad message)).bytes

end ScriptFuzz
