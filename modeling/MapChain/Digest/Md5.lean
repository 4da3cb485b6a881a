/-!
The MD5 digest of a list of bytes.
-/

set_option autoImplicit false

namespace MapChain.Md5

/-- The four words of a digest, which are also the state between two rounds. -/
structure Digest where
  a : UInt32
  b : UInt32
  c : UInt32
  d : UInt32
  deriving DecidableEq, Repr

def start : Digest := ⟨0x67452301, 0xefcdab89, 0x98badcfe, 0x10325476⟩

/-- The integer part of `2 ^ 32 * |sin (index + 1)|`, for each round. -/
def sines : Array UInt32 :=
  #[0xd76aa478, 0xe8c7b756, 0x242070db, 0xc1bdceee, 0xf57c0faf, 0x4787c62a, 0xa8304613,
    0xfd469501, 0x698098d8, 0x8b44f7af, 0xffff5bb1, 0x895cd7be, 0x6b901122, 0xfd987193,
    0xa679438e, 0x49b40821, 0xf61e2562, 0xc040b340, 0x265e5a51, 0xe9b6c7aa, 0xd62f105d,
    0x02441453, 0xd8a1e681, 0xe7d3fbc8, 0x21e1cde6, 0xc33707d6, 0xf4d50d87, 0x455a14ed,
    0xa9e3e905, 0xfcefa3f8, 0x676f02d9, 0x8d2a4c8a, 0xfffa3942, 0x8771f681, 0x6d9d6122,
    0xfde5380c, 0xa4beea44, 0x4bdecfa9, 0xf6bb4b60, 0xbebfbc70, 0x289b7ec6, 0xeaa127fa,
    0xd4ef3085, 0x04881d05, 0xd9d4d039, 0xe6db99e5, 0x1fa27cf8, 0xc4ac5665, 0xf4292244,
    0x432aff97, 0xab9423a7, 0xfc93a039, 0x655b59c3, 0x8f0ccc92, 0xffeff47d, 0x85845dd1,
    0x6fa87e4f, 0xfe2ce6e0, 0xa3014314, 0x4e0811a1, 0xf7537e82, 0xbd3af235, 0x2ad7d2bb,
    0xeb86d391]

/-- How far each round turns its sum, for rounds sixteen by sixteen and four by four. -/
def turns : Array UInt32 := #[7, 12, 17, 22, 5, 9, 14, 20, 4, 11, 16, 23, 6, 10, 15, 21]

/-- What a round adds of the last three words, and the word of the block that it takes. -/
def mix (state : Digest) (index : Nat) : UInt32 × Nat :=
  if index < 16 then
    ((state.b &&& state.c) ||| (~~~state.b &&& state.d), index)
  else if index < 32 then
    ((state.d &&& state.b) ||| (~~~state.d &&& state.c), (5 * index + 1) % 16)
  else if index < 48 then
    (state.b ^^^ state.c ^^^ state.d, (3 * index + 5) % 16)
  else
    (state.c ^^^ (state.b ||| ~~~state.d), 7 * index % 16)

def turn (word amount : UInt32) : UInt32 := (word <<< amount) ||| (word >>> (32 - amount))

def round (words : Array UInt32) (offset : Nat) (state : Digest) (index : Nat) : Digest :=
  let (mixed, position) := mix state index
  let sum := state.a + mixed + sines.getD index 0 + words.getD (offset + position) 0
  ⟨state.d, state.b + turn sum (turns.getD (index / 16 * 4 + index % 4) 0), state.b, state.c⟩

def block (words : Array UInt32) (state : Digest) (number : Nat) : Digest :=
  let mixed := (List.range 64).foldl (round words (16 * number)) state
  ⟨state.a + mixed.a, state.b + mixed.b, state.c + mixed.c, state.d + mixed.d⟩

/-- Least significant byte first. -/
def wordsOf : List UInt8 → List UInt32
  | a :: b :: c :: d :: rest =>
      (a.toUInt32 ||| (b.toUInt32 <<< 8) ||| (c.toUInt32 <<< 16) ||| (d.toUInt32 <<< 24)) ::
        wordsOf rest
  | _ => []

/-- The bytes, a single set bit, zeros, and the length in bits as eight bytes, which together fill
whole blocks. -/
def pad (bytes : List UInt8) : List UInt8 :=
  let length := bytes.length
  let size := (List.range 8).map fun index => UInt8.ofNat ((8 * length) >>> (8 * index))
  bytes ++ [0x80] ++ List.replicate ((119 - length % 64) % 64) 0 ++ size

def digest (bytes : List UInt8) : Digest :=
  let words := (wordsOf (pad bytes)).toArray
  (List.range (words.size / 16)).foldl (block words) start

end MapChain.Md5
