/-!
# The 64-bit digest of a text

The digest `xxh64` with seed zero over the UTF-8 bytes of a text. Input is consumed in stripes of
four 64-bit words, each word feeding a lane of its own; what is left is mixed in by words, by one
half word, and by bytes.

## Main definitions

* `Digest.littleEndian` reads a word
* `Digest.Lanes` is the state while stripes are consumed
* `Digest.ofBytes`, `Digest.ofText` are the digest
-/

namespace Componentry.Digest

/-- The first of five odd multipliers. -/
def prime1 : UInt64 := 0x9e3779b185ebca87

/-- The second multiplier. -/
def prime2 : UInt64 := 0xc2b2ae3d27d4eb4f

/-- The third multiplier. -/
def prime3 : UInt64 := 0x165667b19e3779f9

/-- The fourth multiplier. -/
def prime4 : UInt64 := 0x85ebca77c2b2ae63

/-- The fifth multiplier. -/
def prime5 : UInt64 := 0x27d4eb2f165667c5

/-- The word rotated to the left by `n` bits, `0 < n < 64`. -/
def rotateLeft (x : UInt64) (n : UInt64) : UInt64 := (x <<< n) ||| (x >>> (64 - n))

/-- The number whose base-256 digits are the bytes, lowest first. -/
def littleEndian : List UInt8 → UInt64
  | [] => 0
  | b :: rest => b.toUInt64 ||| (littleEndian rest <<< 8)

/-- One word enters a lane. -/
def feed (lane word : UInt64) : UInt64 := rotateLeft (lane + word * prime2) 31 * prime1

/-- The four lanes of a long input. -/
structure Lanes where
  first : UInt64
  second : UInt64
  third : UInt64
  fourth : UInt64

namespace Lanes

/-- The lanes before any input. -/
def initial : Lanes := ⟨prime1 + prime2, prime2, 0, 0 - prime1⟩

/-- One stripe of 32 bytes enters the lanes. -/
def stripe (l : Lanes) (bytes : List UInt8) : Lanes where
  first := feed l.first (littleEndian (bytes.take 8))
  second := feed l.second (littleEndian ((bytes.drop 8).take 8))
  third := feed l.third (littleEndian ((bytes.drop 16).take 8))
  fourth := feed l.fourth (littleEndian ((bytes.drop 24).take 8))

/-- The first `n` stripes enter the lanes. -/
def stripes : Nat → Lanes → List UInt8 → Lanes
  | 0, l, _ => l
  | n + 1, l, bytes => stripes n (l.stripe bytes) (bytes.drop 32)

/-- A lane is merged into the accumulator. -/
def merge (acc lane : UInt64) : UInt64 := (acc ^^^ feed 0 lane) * prime1 + prime4

/-- The lanes as one word. -/
def converge (l : Lanes) : UInt64 :=
  let acc :=
    rotateLeft l.first 1 + rotateLeft l.second 7 + rotateLeft l.third 12 + rotateLeft l.fourth 18
  merge (merge (merge (merge acc l.first) l.second) l.third) l.fourth

end Lanes

/-- The first `n` whole words are mixed in. -/
def mixWords : Nat → UInt64 → List UInt8 → UInt64
  | 0, acc, _ => acc
  | n + 1, acc, bytes =>
    mixWords n (rotateLeft (acc ^^^ feed 0 (littleEndian (bytes.take 8))) 27 * prime1 + prime4)
      (bytes.drop 8)

/-- A half word is mixed in. -/
def mixHalfWord (acc : UInt64) (bytes : List UInt8) : UInt64 :=
  rotateLeft (acc ^^^ (littleEndian (bytes.take 4) * prime1)) 23 * prime2 + prime3

/-- A byte is mixed in. -/
def mixByte (acc : UInt64) (b : UInt8) : UInt64 :=
  rotateLeft (acc ^^^ (b.toUInt64 * prime5)) 11 * prime1

/-- The bits of the accumulator are spread over the whole word. -/
def avalanche (acc : UInt64) : UInt64 :=
  let acc := (acc ^^^ (acc >>> 33)) * prime2
  let acc := (acc ^^^ (acc >>> 29)) * prime3
  acc ^^^ (acc >>> 32)

/-- What remains after the stripes, fewer than 32 bytes, is mixed in. -/
def mixTail (acc : UInt64) (tail : List UInt8) : UInt64 :=
  let acc := mixWords (tail.length / 8) acc tail
  let rest := tail.drop (tail.length / 8 * 8)
  if 4 ≤ rest.length then (rest.drop 4).foldl mixByte (mixHalfWord acc rest)
  else rest.foldl mixByte acc

/-- The digest of a list of bytes. -/
def ofBytes (bytes : List UInt8) : UInt64 :=
  let count := bytes.length / 32
  let start := if count = 0 then prime5 else (Lanes.initial.stripes count bytes).converge
  avalanche (mixTail (start + UInt64.ofNat bytes.length) (bytes.drop (count * 32)))

/-- The digest of the UTF-8 form of a text. -/
def ofText (text : String) : UInt64 := ofBytes (text.toList.flatMap String.utf8EncodeChar)

end Componentry.Digest
