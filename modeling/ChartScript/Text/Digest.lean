/-!
# The MD5 digest

The 128-bit digest of a text's UTF-8 bytes in lower-case hexadecimal. It serves as a short name for
a list of element ids, never as a safeguard. All arithmetic is on 32-bit words and wraps.
-/

namespace ChartScript.Text

namespace Digest

/-- The four words carried from block to block. -/
structure State where
  a : UInt32
  b : UInt32
  c : UInt32
  d : UInt32

/-- The state before the first block. -/
def initial : State := ⟨0x67452301, 0xefcdab89, 0x98badcfe, 0x10325476⟩

/-- The added constants, `⌊2³² · |sin (i + 1)|⌋`. -/
def addends : List UInt32 := [
  0xd76aa478, 0xe8c7b756, 0x242070db, 0xc1bdceee, 0xf57c0faf, 0x4787c62a, 0xa8304613,
  0xfd469501, 0x698098d8, 0x8b44f7af, 0xffff5bb1, 0x895cd7be, 0x6b901122, 0xfd987193,
  0xa679438e, 0x49b40821, 0xf61e2562, 0xc040b340, 0x265e5a51, 0xe9b6c7aa, 0xd62f105d,
  0x02441453, 0xd8a1e681, 0xe7d3fbc8, 0x21e1cde6, 0xc33707d6, 0xf4d50d87, 0x455a14ed,
  0xa9e3e905, 0xfcefa3f8, 0x676f02d9, 0x8d2a4c8a, 0xfffa3942, 0x8771f681, 0x6d9d6122,
  0xfde5380c, 0xa4beea44, 0x4bdecfa9, 0xf6bb4b60, 0xbebfbc70, 0x289b7ec6, 0xeaa127fa,
  0xd4ef3085, 0x04881d05, 0xd9d4d039, 0xe6db99e5, 0x1fa27cf8, 0xc4ac5665, 0xf4292244,
  0x432aff97, 0xab9423a7, 0xfc93a039, 0x655b59c3, 0x8f0ccc92, 0xffeff47d, 0x85845dd1,
  0x6fa87e4f, 0xfe2ce6e0, 0xa3014314, 0x4e0811a1, 0xf7537e82, 0xbd3af235, 0x2ad7d2bb,
  0xeb86d391]

/-- The rotation of each step; the four amounts of a round repeat four times. -/
def rotations : List UInt32 :=
  [[7, 12, 17, 22], [5, 9, 14, 20], [4, 11, 16, 23], [6, 10, 15, 21]].flatMap
    fun amounts => amounts ++ amounts ++ amounts ++ amounts

/-- The word of the block that each step reads. -/
def readOrder : List Nat :=
  (List.range 16) ++ (List.range 16).map (fun i => (5 * i + 1) % 16) ++
    (List.range 16).map (fun i => (3 * i + 5) % 16) ++ (List.range 16).map (fun i => 7 * i % 16)

/-- Rotate a word to the left, by 1 to 31 places. -/
def rotate (word amount : UInt32) : UInt32 :=
  (word <<< amount) ||| (word >>> (32 - amount))

/-- The mixing function of a round. -/
def mix (step : Nat) (s : State) : UInt32 :=
  if step < 16 then (s.b &&& s.c) ||| (~~~s.b &&& s.d)
  else if step < 32 then (s.d &&& s.b) ||| (~~~s.d &&& s.c)
  else if step < 48 then s.b ^^^ s.c ^^^ s.d
  else s.c ^^^ (s.b ||| ~~~s.d)

/-- One of the 64 steps on a block. -/
def step (block : List UInt32) (s : State) (instr : Nat × UInt32 × UInt32 × Nat) : State :=
  let (index, addend, amount, position) := instr
  let sum := mix index s + s.a + addend + block.getD position 0
  ⟨s.d, s.b + rotate sum amount, s.b, s.c⟩

/-- Work one block of sixteen words into the state. -/
def absorb (s : State) (block : List UInt32) : State :=
  let t := ((List.range 64).zip (addends.zip (rotations.zip readOrder))).foldl (step block) s
  ⟨s.a + t.a, s.b + t.b, s.c + t.c, s.d + t.d⟩

/-- The little-endian bytes of a number, as many as asked for. -/
def littleEndian : Nat → Nat → List UInt8
  | 0, _ => []
  | n + 1, value => UInt8.ofNat value :: littleEndian n (value / 256)

/-- Bytes to a whole number of blocks: a set bit, zeros, and the length in bits. -/
def pad (bytes : List UInt8) : List UInt8 :=
  bytes ++ 0x80 :: (List.replicate ((119 - bytes.length % 64) % 64) 0 ++
    littleEndian 8 (8 * bytes.length))

/-- Little-endian words, four bytes to a word. -/
def words : List UInt8 → List UInt32
  | w :: x :: y :: z :: rest =>
    (w.toUInt32 ||| (x.toUInt32 <<< 8) ||| (y.toUInt32 <<< 16) ||| (z.toUInt32 <<< 24)) ::
      words rest
  | _ => []

/-- Work words into the state, sixteen at a time. -/
def absorbAll (s : State) (ws : List UInt32) : State :=
  if ws.length < 16 then s
  else absorbAll (absorb s (ws.take 16)) (ws.drop 16)
termination_by ws.length
decreasing_by simp only [List.length_drop]; omega

/-- A byte as two hexadecimal digits. -/
def hexByte (byte : UInt8) : List Char :=
  [Nat.digitChar (byte.toNat / 16), Nat.digitChar (byte.toNat % 16)]

/-- The sixteen bytes of a state. -/
def bytes (s : State) : List UInt8 :=
  [s.a, s.b, s.c, s.d].flatMap fun word => littleEndian 4 word.toNat

end Digest

/-- The digest of a text's UTF-8 bytes, in lower-case hexadecimal. -/
def digest (text : String) : String :=
  let state := Digest.absorbAll Digest.initial (Digest.words (Digest.pad text.toUTF8.toList))
  String.ofList ((Digest.bytes state).flatMap Digest.hexByte)

end ChartScript.Text
