/-!
# A 64-bit digest of bytes

The hash function XXH3 in its 64-bit form with the standard secret and no seed. Words are read
from the bytes with the least byte first. Inputs up to 16 bytes, up to 128, up to 240 and longer
ones are treated differently: the longer ones run eight accumulators over stripes of 64 bytes.
-/

namespace SourceSpans.Digest

/-- The standard secret. -/
def secret : Array UInt8 :=
  #[0xb8, 0xfe, 0x6c, 0x39, 0x23, 0xa4, 0x4b, 0xbe, 0x7c, 0x01, 0x81, 0x2c, 0xf7, 0x21, 0xad, 0x1c,
    0xde, 0xd4, 0x6d, 0xe9, 0x83, 0x90, 0x97, 0xdb, 0x72, 0x40, 0xa4, 0xa4, 0xb7, 0xb3, 0x67, 0x1f,
    0xcb, 0x79, 0xe6, 0x4e, 0xcc, 0xc0, 0xe5, 0x78, 0x82, 0x5a, 0xd0, 0x7d, 0xcc, 0xff, 0x72, 0x21,
    0xb8, 0x08, 0x46, 0x74, 0xf7, 0x43, 0x24, 0x8e, 0xe0, 0x35, 0x90, 0xe6, 0x81, 0x3a, 0x26, 0x4c,
    0x3c, 0x28, 0x52, 0xbb, 0x91, 0xc3, 0x00, 0xcb, 0x88, 0xd0, 0x65, 0x8b, 0x1b, 0x53, 0x2e, 0xa3,
    0x71, 0x64, 0x48, 0x97, 0xa2, 0x0d, 0xf9, 0x4e, 0x38, 0x19, 0xef, 0x46, 0xa9, 0xde, 0xac, 0xd8,
    0xa8, 0xfa, 0x76, 0x3f, 0xe3, 0x9c, 0x34, 0x3f, 0xf9, 0xdc, 0xbb, 0xc7, 0xc7, 0x0b, 0x4f, 0x1d,
    0x8a, 0x51, 0xe0, 0x4b, 0xcd, 0xb4, 0x59, 0x31, 0xc8, 0x9f, 0x7e, 0xc9, 0xd9, 0x78, 0x73, 0x64,
    0xea, 0xc5, 0xac, 0x83, 0x34, 0xd3, 0xeb, 0xc3, 0xc5, 0x81, 0xa0, 0xff, 0xfa, 0x13, 0x63, 0xeb,
    0x17, 0x0d, 0xdd, 0x51, 0xb7, 0xf0, 0xda, 0x49, 0xd3, 0x16, 0x55, 0x26, 0x29, 0xd4, 0x68, 0x9e,
    0x2b, 0x16, 0xbe, 0x58, 0x7d, 0x47, 0xa1, 0xfc, 0x8f, 0xf8, 0xb8, 0xd1, 0x7a, 0xd0, 0x31, 0xce,
    0x45, 0xcb, 0x3a, 0x8f, 0x95, 0x16, 0x04, 0x28, 0xaf, 0xd7, 0xfb, 0xca, 0xbb, 0x4b, 0x40, 0x7e]

/-! ### Words -/

def prime32₁ : UInt64 := 0x9E3779B1
def prime32₂ : UInt64 := 0x85EBCA77
def prime32₃ : UInt64 := 0xC2B2AE3D
def prime64₁ : UInt64 := 0x9E3779B185EBCA87
def prime64₂ : UInt64 := 0xC2B2AE3D27D4EB4F
def prime64₃ : UInt64 := 0x165667B19E3779F9
def prime64₄ : UInt64 := 0x85EBCA77C2B2AE63
def prime64₅ : UInt64 := 0x27D4EB2F165667C5
def primeMix₁ : UInt64 := 0x165667919E3779F9
def primeMix₂ : UInt64 := 0x9FB21C651E98DF25

/-- The byte at a place, zero past the end. -/
def byte (a : Array UInt8) (i : Nat) : UInt64 := (a[i]?.getD 0).toUInt64

/-- The word of `count` bytes at a place. -/
def word (a : Array UInt8) (i : Nat) : (count : Nat) → UInt64
  | 0 => 0
  | count + 1 => byte a i + (word a (i + 1) count <<< 8)

/-- The word of eight bytes at a place. -/
def word64 (a : Array UInt8) (i : Nat) : UInt64 := word a i 8

/-- The word of four bytes at a place. -/
def word32 (a : Array UInt8) (i : Nat) : UInt64 := word a i 4

/-- Bits turned left. -/
def turn (x : UInt64) (n : UInt64) : UInt64 := (x <<< n) ||| (x >>> (64 - n))

/-- A word with its bytes in reverse order. -/
def reverseBytes (x : UInt64) : UInt64 :=
  (List.range 8).foldl (fun r i => (r <<< 8) ||| ((x >>> (8 * i).toUInt64) &&& 0xFF)) 0

/-- The two halves of a product of 128 bits, joined by exclusive or. -/
def foldedProduct (x y : UInt64) : UInt64 :=
  let product := x.toNat * y.toNat
  product.toUInt64 ^^^ (product / 0x10000000000000000).toUInt64

/-! ### Final mixing -/

/-- The final mixing of the shortest inputs. -/
def finishShort (h : UInt64) : UInt64 :=
  let h := (h ^^^ (h >>> 33)) * prime64₂
  let h := (h ^^^ (h >>> 29)) * prime64₃
  h ^^^ (h >>> 32)

/-- The final mixing of long inputs. -/
def finish (h : UInt64) : UInt64 :=
  let h := (h ^^^ (h >>> 37)) * primeMix₁
  h ^^^ (h >>> 32)

/-- The final mixing of inputs of four to eight bytes. -/
def finishTurned (h : UInt64) (size : Nat) : UInt64 :=
  let h := (h ^^^ (turn h 49 ^^^ turn h 24)) * primeMix₂
  let h := (h ^^^ ((h >>> 35) + size.toUInt64)) * primeMix₂
  h ^^^ (h >>> 28)

/-! ### Inputs of up to 240 bytes -/

/-- The digest of at most 16 bytes. -/
def upTo16 (a : Array UInt8) : UInt64 :=
  let n := a.size
  if n = 0 then finishShort (word64 secret 56 ^^^ word64 secret 64)
  else if n ≤ 3 then
    let joined := (byte a 0 <<< 16) ||| (byte a (n / 2) <<< 24) ||| byte a (n - 1)
      ||| (n.toUInt64 <<< 8)
    finishShort (joined ^^^ (word32 secret 0 ^^^ word32 secret 4))
  else if n ≤ 8 then
    let joined := word32 a (n - 4) + (word32 a 0 <<< 32)
    finishTurned (joined ^^^ (word64 secret 8 ^^^ word64 secret 16)) n
  else
    let low := word64 a 0 ^^^ (word64 secret 24 ^^^ word64 secret 32)
    let high := word64 a (n - 8) ^^^ (word64 secret 40 ^^^ word64 secret 48)
    finish (n.toUInt64 + reverseBytes low + high + foldedProduct low high)

/-- Sixteen bytes at a place, mixed with the secret at another. -/
def mix16 (a : Array UInt8) (i k : Nat) : UInt64 :=
  foldedProduct (word64 a i ^^^ word64 secret k) (word64 a (i + 8) ^^^ word64 secret (k + 8))

/-- The digest of 17 to 128 bytes: pairs of sixteen bytes from both ends inwards. -/
def upTo128 (a : Array UInt8) : UInt64 :=
  let n := a.size
  let pairs := (n - 1) / 32 + 1
  finish ((List.range pairs).foldl
    (fun h i => h + mix16 a (16 * i) (32 * i) + mix16 a (n - 16 * (i + 1)) (32 * i + 16))
    (n.toUInt64 * prime64₁))

/-- The digest of 129 to 240 bytes: eight times sixteen bytes, and then the others. -/
def upTo240 (a : Array UInt8) : UInt64 :=
  let n := a.size
  let front := (List.range 8).foldl (fun h i => h + mix16 a (16 * i) (16 * i))
    (n.toUInt64 * prime64₁)
  let others := (List.range (n / 16 - 8)).foldl
    (fun h i => h + mix16 a (16 * (i + 8)) (16 * i + 3)) (finish front)
  finish (others + mix16 a (n - 16) 119)

/-! ### Longer inputs -/

/-- The accumulators before the first stripe. -/
def seeds : List UInt64 :=
  [prime32₃, prime64₁, prime64₂, prime64₃, prime64₄, prime32₂, prime64₅, prime32₁]

/-- The accumulators after a stripe of 64 bytes at a place, with the secret at another. Each takes
the word of its neighbour and the product of the halves of its own word. -/
def takeStripe (a : Array UInt8) (i k : Nat) (acc : List UInt64) : List UInt64 :=
  acc.mapIdx fun (lane : Nat) (x : UInt64) =>
    let key : UInt64 := word64 a (i + 8 * lane) ^^^ word64 secret (k + 8 * lane)
    x + word64 a (i + 8 * (lane ^^^ 1)) + (key &&& (0xFFFFFFFF : UInt64)) * (key >>> 32)

/-- The accumulators after a block of sixteen stripes. -/
def scramble (acc : List UInt64) : List UInt64 :=
  acc.mapIdx fun (lane : Nat) (x : UInt64) =>
    (x ^^^ (x >>> 47) ^^^ word64 secret (128 + 8 * lane)) * prime32₁

/-- The accumulators after `count` stripes from a place on. -/
def takeStripes (a : Array UInt8) (i count : Nat) (acc : List UInt64) : List UInt64 :=
  (List.range count).foldl (fun acc n => takeStripe a (i + 64 * n) (8 * n) acc) acc

/-- The digest of more than 240 bytes. -/
def long (a : Array UInt8) : UInt64 :=
  let n := a.size
  let blocks := (n - 1) / 1024
  let acc := (List.range blocks).foldl
    (fun acc b => scramble (takeStripes a (1024 * b) 16 acc)) seeds
  let acc := takeStripes a (1024 * blocks) ((n - 1 - 1024 * blocks) / 64) acc
  let acc := takeStripe a (n - 64) 121 acc
  let pair := fun i =>
    foldedProduct (acc[2 * i]?.getD 0 ^^^ word64 secret (11 + 16 * i))
      (acc[2 * i + 1]?.getD 0 ^^^ word64 secret (19 + 16 * i))
  finish ((List.range 4).foldl (fun h i => h + pair i) (n.toUInt64 * prime64₁))

/-- The digest of bytes. -/
def ofBytes (bytes : List UInt8) : UInt64 :=
  let a := bytes.toArray
  if a.size ≤ 16 then upTo16 a
  else if a.size ≤ 128 then upTo128 a
  else if a.size ≤ 240 then upTo240 a
  else long a

end SourceSpans.Digest
