/-!
# The 64-bit XXH3 hash

XXH3 with seed zero and the default secret, as a function of the hashed bytes. The input length
selects one of five regimes (empty, up to 3, 8, 16, 128, 240 bytes, longer); the long regime folds
64-byte stripes into eight lanes. All arithmetic is modulo `2 ^ 64`.
-/

namespace ComponentInsight.Xxh3

/-- The bytes being hashed, or the secret they are mixed with. -/
abbrev Bytes := Array UInt8

/-- The secret all inputs are mixed with. -/
def secret : Bytes := #[
  0xb8, 0xfe, 0x6c, 0x39, 0x23, 0xa4, 0x4b, 0xbe, 0x7c, 0x01, 0x81, 0x2c, 0xf7, 0x21, 0xad, 0x1c,
  0xde, 0xd4, 0x6d, 0xe9, 0x83, 0x90, 0x97, 0xdb, 0x72, 0x40, 0xa4, 0xa4, 0xb7, 0xb3, 0x67, 0x1f,
  0xcb, 0x79, 0xe6, 0x4e, 0xcc, 0xc0, 0xe5, 0x78, 0x82, 0x5a, 0xd0, 0x7d, 0xcc, 0xff, 0x72, 0x21,
  0xb8, 0x08, 0x46, 0x74, 0xf7, 0x43, 0x24, 0x8e, 0xe0, 0x35, 0x90, 0xe6, 0x81, 0x3a, 0x26, 0x4c,
  0x3c, 0x28, 0x52, 0xbb, 0x91, 0xc3, 0x00, 0xcb, 0x88, 0xd0, 0x65, 0x8b, 0x1b, 0x53, 0x2e, 0xa3,
  0x71, 0x64, 0x48, 0x97, 0xa2, 0x0d, 0xf9, 0x4e, 0x38, 0x19, 0xef, 0x46, 0xa9, 0xde, 0xac, 0xd8,
  0xa8, 0xfa, 0x76, 0x3f, 0xe3, 0x9c, 0x34, 0x3f, 0xf9, 0xdc, 0xbb, 0xc7, 0xc7, 0x0b, 0x4f, 0x1d,
  0x8a, 0x51, 0xe0, 0x4b, 0xcd, 0xb4, 0x59, 0x31, 0xc8, 0x9f, 0x7e, 0xc9, 0xd9, 0x78, 0x73, 0x64,
  0xea, 0xc5, 0xac, 0x83, 0x34, 0xd3, 0xeb, 0xc3, 0xc5, 0x81, 0xa0, 0xff, 0xfa, 0x13, 0x63, 0xeb,
  0x17, 0x0d, 0xdd, 0x51, 0xb7, 0xf0, 0xda, 0x49, 0xd3, 0x16, 0x55, 0x26, 0x29, 0xd4, 0x68, 0x9e,
  0x2b, 0x16, 0xbe, 0x58, 0x7d, 0x47, 0xa1, 0xfc, 0x8f, 0xf8, 0xb8, 0xd1, 0x7a, 0xd0, 0x31, 0xce,
  0x45, 0xcb, 0x3a, 0x8f, 0x95, 0x16, 0x04, 0x28, 0xaf, 0xd7, 0xfb, 0xca, 0xbb, 0x4b, 0x40, 0x7e]

def prime32a : UInt64 := 0x9E3779B1
def prime32b : UInt64 := 0x85EBCA77
def prime32c : UInt64 := 0xC2B2AE3D
def prime64a : UInt64 := 0x9E3779B185EBCA87
def prime64b : UInt64 := 0xC2B2AE3D27D4EB4F
def prime64c : UInt64 := 0x165667B19E3779F9
def prime64d : UInt64 := 0x85EBCA77C2B2AE63
def prime64e : UInt64 := 0x27D4EB2F165667C5

/-- The byte at an offset. -/
def byteAt (b : Bytes) (i : Nat) : UInt64 := (b.getD i 0).toUInt64

/-- The little-endian 32-bit word at an offset. -/
def word32 (b : Bytes) (i : Nat) : UInt64 :=
  byteAt b i ||| byteAt b (i + 1) <<< 8 ||| byteAt b (i + 2) <<< 16 ||| byteAt b (i + 3) <<< 24

/-- The little-endian 64-bit word at an offset. -/
def word64 (b : Bytes) (i : Nat) : UInt64 := word32 b i ||| word32 b (i + 4) <<< 32

def rotateLeft (x : UInt64) (n : UInt64) : UInt64 := x <<< n ||| x >>> (64 - n)

/-- The eight bytes of a word in reverse order. -/
def reverseBytes (x : UInt64) : UInt64 :=
  (List.range 8).foldl (fun acc i => acc <<< 8 ||| (x >>> (8 * i).toUInt64 &&& 0xff)) 0

/-- Low half xor high half of the 128-bit product. -/
def foldedProduct (x y : UInt64) : UInt64 :=
  let p := x.toNat * y.toNat
  p.toUInt64 ^^^ (p / Nat.pow 2 64).toUInt64

/-- Final mixing of the regimes above 8 bytes. -/
def avalanche (h : UInt64) : UInt64 :=
  let h := (h ^^^ h >>> 37) * 0x165667919E3779F9
  h ^^^ h >>> 32

/-- Final mixing of the regimes up to 3 bytes. -/
def avalancheShort (h : UInt64) : UInt64 :=
  let h := (h ^^^ h >>> 33) * prime64b
  let h := (h ^^^ h >>> 29) * prime64c
  h ^^^ h >>> 32

/-- Sixteen input bytes mixed with sixteen secret bytes. -/
def mix16 (b : Bytes) (i s : Nat) : UInt64 :=
  foldedProduct (word64 b i ^^^ word64 secret s) (word64 b (i + 8) ^^^ word64 secret (s + 8))

def hashEmpty : UInt64 := avalancheShort (word64 secret 56 ^^^ word64 secret 64)

def hashTo3 (b : Bytes) : UInt64 :=
  let len := b.size
  let combined := byteAt b 0 <<< 16 ||| byteAt b (len / 2) <<< 24 ||| byteAt b (len - 1)
    ||| len.toUInt64 <<< 8
  avalancheShort (combined ^^^ word32 secret 0 ^^^ word32 secret 4)

def hashTo8 (b : Bytes) : UInt64 :=
  let len := b.size
  let h := word32 b (len - 4) + word32 b 0 <<< 32 ^^^ word64 secret 8 ^^^ word64 secret 16
  let h := (h ^^^ rotateLeft h 49 ^^^ rotateLeft h 24) * 0x9FB21C651E98DF25
  let h := (h ^^^ (h >>> 35) + len.toUInt64) * 0x9FB21C651E98DF25
  h ^^^ h >>> 28

def hashTo16 (b : Bytes) : UInt64 :=
  let len := b.size
  let lo := word64 b 0 ^^^ word64 secret 24 ^^^ word64 secret 32
  let hi := word64 b (len - 8) ^^^ word64 secret 40 ^^^ word64 secret 48
  avalanche (len.toUInt64 + reverseBytes lo + hi + foldedProduct lo hi)

/-- Pairs of 16-byte lanes taken from both ends, as many as the length reaches. -/
def hashTo128 (b : Bytes) : UInt64 :=
  let len := b.size
  let rounds := (len - 1) / 32 + 1
  let acc := (List.range rounds).foldl
    (fun acc i => acc + mix16 b (16 * i) (32 * i) + mix16 b (len - 16 * (i + 1)) (32 * i + 16))
    (len.toUInt64 * prime64a)
  avalanche acc

def hashTo240 (b : Bytes) : UInt64 :=
  let len := b.size
  let head := (List.range 8).foldl (fun acc i => acc + mix16 b (16 * i) (16 * i))
    (len.toUInt64 * prime64a)
  let body := (List.range (len / 16 - 8)).foldl
    (fun acc i => acc + mix16 b (16 * (i + 8)) (16 * i + 3)) (avalanche head)
  avalanche (body + mix16 b (len - 16) 119)

/-- The eight lanes of the long regime before any stripe. -/
def initialLanes : Array UInt64 :=
  #[prime32c, prime64a, prime64b, prime64c, prime64d, prime32b, prime64e, prime32a]

/-- Fold one 64-byte stripe at `i`, keyed by the secret at `s`, into the lanes. -/
def accumulate (b : Bytes) (lanes : Array UInt64) (i s : Nat) : Array UInt64 :=
  (List.range 8).foldl
    (fun (lanes : Array UInt64) (j : Nat) =>
      let data := word64 b (i + 8 * j)
      let key : UInt64 := data ^^^ word64 secret (s + 8 * j)
      let lanes := lanes.modify (if j % 2 = 0 then j + 1 else j - 1) (· + data)
      let product : UInt64 := (key &&& (0xFFFFFFFF : UInt64)) * (key >>> 32)
      lanes.modify j (· + product))
    lanes

/-- Scramble the lanes at the end of a 1024-byte block. -/
def scramble (lanes : Array UInt64) : Array UInt64 :=
  lanes.mapIdx fun (i : Nat) (lane : UInt64) =>
    (lane ^^^ lane >>> 47 ^^^ word64 secret (128 + 8 * i)) * prime32a

/-- Fold `count` consecutive stripes starting at `i`. -/
def accumulateStripes (b : Bytes) (lanes : Array UInt64) (i count : Nat) : Array UInt64 :=
  (List.range count).foldl (fun lanes n => accumulate b lanes (i + 64 * n) (8 * n)) lanes

def hashLong (b : Bytes) : UInt64 :=
  let len := b.size
  let blocks := (len - 1) / 1024
  let lanes := (List.range blocks).foldl
    (fun lanes k => scramble (accumulateStripes b lanes (1024 * k) 16)) initialLanes
  let lanes := accumulateStripes b lanes (1024 * blocks) ((len - 1 - 1024 * blocks) / 64)
  let lanes := accumulate b lanes (len - 64) 121
  let acc := (List.range 4).foldl
    (fun acc i => acc + foldedProduct (lanes.getD (2 * i) 0 ^^^ word64 secret (11 + 16 * i))
      (lanes.getD (2 * i + 1) 0 ^^^ word64 secret (11 + 16 * i + 8)))
    (len.toUInt64 * prime64a)
  avalanche acc

/-- XXH3 (64 bits) of the bytes. -/
def hash (b : Bytes) : UInt64 :=
  if b.size = 0 then hashEmpty
  else if b.size ≤ 3 then hashTo3 b
  else if b.size ≤ 8 then hashTo8 b
  else if b.size ≤ 16 then hashTo16 b
  else if b.size ≤ 128 then hashTo128 b
  else if b.size ≤ 240 then hashTo240 b
  else hashLong b

end ComponentInsight.Xxh3
