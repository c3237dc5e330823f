/-!
# Message digests

The 128-bit message digest MD5 of a sequence of bytes. The message is filled up to whole blocks of
sixteen words, and every block stirs the four words of the state in sixty-four steps.
-/

namespace StockFlow.Digest

/-- The constants of the steps: the binary digits of sines. -/
def constants : List UInt32 :=
  [0xD76AA478, 0xE8C7B756, 0x242070DB, 0xC1BDCEEE, 0xF57C0FAF, 0x4787C62A, 0xA8304613,
   0xFD469501, 0x698098D8, 0x8B44F7AF, 0xFFFF5BB1, 0x895CD7BE, 0x6B901122, 0xFD987193,
   0xA679438E, 0x49B40821, 0xF61E2562, 0xC040B340, 0x265E5A51, 0xE9B6C7AA, 0xD62F105D,
   0x02441453, 0xD8A1E681, 0xE7D3FBC8, 0x21E1CDE6, 0xC33707D6, 0xF4D50D87, 0x455A14ED,
   0xA9E3E905, 0xFCEFA3F8, 0x676F02D9, 0x8D2A4C8A, 0xFFFA3942, 0x8771F681, 0x6D9D6122,
   0xFDE5380C, 0xA4BEEA44, 0x4BDECFA9, 0xF6BB4B60, 0xBEBFBC70, 0x289B7EC6, 0xEAA127FA,
   0xD4EF3085, 0x04881D05, 0xD9D4D039, 0xE6DB99E5, 0x1FA27CF8, 0xC4AC5665, 0xF4292244,
   0x432AFF97, 0xAB9423A7, 0xFC93A039, 0x655B59C3, 0x8F0CCC92, 0xFFEFF47D, 0x85845DD1,
   0x6FA87E4F, 0xFE2CE6E0, 0xA3014314, 0x4E0811A1, 0xF7537E82, 0xBD3AF235, 0x2AD7D2BB,
   0xEB86D391]

/-- The rotations of the steps. -/
def rotations : List UInt32 :=
  [7, 12, 17, 22, 7, 12, 17, 22, 7, 12, 17, 22, 7, 12, 17, 22, 5, 9, 14, 20, 5, 9, 14, 20, 5, 9,
   14, 20, 5, 9, 14, 20, 4, 11, 16, 23, 4, 11, 16, 23, 4, 11, 16, 23, 4, 11, 16, 23, 6, 10, 15,
   21, 6, 10, 15, 21, 6, 10, 15, 21, 6, 10, 15, 21]

/-- The state of the computation. -/
structure State where
  a : UInt32
  b : UInt32
  c : UInt32
  d : UInt32

/-- The state before the first block. -/
def initial : State := ⟨0x67452301, 0xEFCDAB89, 0x98BADCFE, 0x10325476⟩

/-- A word turned to the left. -/
def rotate (x amount : UInt32) : UInt32 :=
  (x <<< amount) ||| (x >>> (32 - amount))

/-- The number of bytes as eight bytes that count its bits, the least first. -/
def lengthBytes (count : Nat) : List UInt8 :=
  (List.range 8).map fun i => UInt8.ofNat ((8 * count) / Nat.pow 256 i)

/-- The message filled up to a multiple of sixty-four bytes. -/
def fill (message : List UInt8) : List UInt8 :=
  let zeros := (119 - message.length % 64) % 64
  message ++ 0x80 :: (List.replicate zeros 0 ++ lengthBytes message.length)

/-- The words of a block, the least byte first. -/
def words : List UInt8 → List UInt32
  | w :: x :: y :: z :: rest =>
    (w.toUInt32 ||| x.toUInt32 <<< 8 ||| y.toUInt32 <<< 16 ||| z.toUInt32 <<< 24) :: words rest
  | _ => []

/-- The function of the state and the place in the block that a step uses. -/
def mix (i : Nat) (s : State) : UInt32 × Nat :=
  if i < 16 then ((s.b &&& s.c) ||| (~~~s.b &&& s.d), i)
  else if i < 32 then ((s.d &&& s.b) ||| (~~~s.d &&& s.c), (5 * i + 1) % 16)
  else if i < 48 then (s.b ^^^ s.c ^^^ s.d, (3 * i + 5) % 16)
  else (s.c ^^^ (s.b ||| ~~~s.d), (7 * i) % 16)

/-- One step on a block. -/
def step (block : List UInt32) (s : State) (i : Nat) : State :=
  let (f, place) := mix i s
  let sum := s.a + f + constants.getD i 0 + block.getD place 0
  ⟨s.d, s.b + rotate sum (rotations.getD i 0), s.b, s.c⟩

/-- The state after a block. -/
def absorb (s : State) (block : List UInt32) : State :=
  let t := (List.range 64).foldl (step block) s
  ⟨s.a + t.a, s.b + t.b, s.c + t.c, s.d + t.d⟩

/-- The state after a number of blocks. -/
def absorbAll : Nat → State → List UInt32 → State
  | 0, s, _ => s
  | n + 1, s, ws => absorbAll n (absorb s (ws.take 16)) (ws.drop 16)

/-- The bytes of a word, the least first. -/
def wordBytes (w : UInt32) : List UInt8 :=
  (List.range 4).map fun i => (w >>> (8 * UInt32.ofNat i)).toUInt8

/-- The digest of a message. -/
def md5 (message : List UInt8) : List UInt8 :=
  let filled := fill message
  let s := absorbAll (filled.length / 64) initial (words filled)
  wordBytes s.a ++ wordBytes s.b ++ wordBytes s.c ++ wordBytes s.d

end StockFlow.Digest
