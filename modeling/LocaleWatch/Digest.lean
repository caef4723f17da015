import LocaleWatch.Text.Utf8

/-!
# SHA-256

The digest that turns a key of any length and form into a file name: 64 lowercase
hexadecimal digits. Keys with different digests have different names; that the
digests of different keys differ is an assumption wherever it is needed.

## Main results

* `hexDigest_length` — a digest has 64 digits.
-/

namespace LocaleWatch.Sha256

/-- The round constants: the fractional parts of the cube roots of the first 64
primes. -/
def constants : List UInt32 := [
  0x428a2f98, 0x71374491, 0xb5c0fbcf, 0xe9b5dba5, 0x3956c25b, 0x59f111f1, 0x923f82a4, 0xab1c5ed5,
  0xd807aa98, 0x12835b01, 0x243185be, 0x550c7dc3, 0x72be5d74, 0x80deb1fe, 0x9bdc06a7, 0xc19bf174,
  0xe49b69c1, 0xefbe4786, 0x0fc19dc6, 0x240ca1cc, 0x2de92c6f, 0x4a7484aa, 0x5cb0a9dc, 0x76f988da,
  0x983e5152, 0xa831c66d, 0xb00327c8, 0xbf597fc7, 0xc6e00bf3, 0xd5a79147, 0x06ca6351, 0x14292967,
  0x27b70a85, 0x2e1b2138, 0x4d2c6dfc, 0x53380d13, 0x650a7354, 0x766a0abb, 0x81c2c92e, 0x92722c85,
  0xa2bfe8a1, 0xa81a664b, 0xc24b8b70, 0xc76c51a3, 0xd192e819, 0xd6990624, 0xf40e3585, 0x106aa070,
  0x19a4c116, 0x1e376c08, 0x2748774c, 0x34b0bcb5, 0x391c0cb3, 0x4ed8aa4a, 0x5b9cca4f, 0x682e6ff3,
  0x748f82ee, 0x78a5636f, 0x84c87814, 0x8cc70208, 0x90befffa, 0xa4506ceb, 0xbef9a3f7, 0xc67178f2]

/-- The eight words that the digest is computed in. -/
structure Words where
  a : UInt32
  b : UInt32
  c : UInt32
  d : UInt32
  e : UInt32
  f : UInt32
  g : UInt32
  h : UInt32
  deriving DecidableEq, Repr

/-- The words before any input: the fractional parts of the square roots of the
first eight primes. -/
def Words.initial : Words :=
  ⟨0x6a09e667, 0xbb67ae85, 0x3c6ef372, 0xa54ff53a, 0x510e527f, 0x9b05688c, 0x1f83d9ab, 0x5be0cd19⟩

/-- The sum of two states, word by word. -/
def Words.add (x y : Words) : Words :=
  ⟨x.a + y.a, x.b + y.b, x.c + y.c, x.d + y.d, x.e + y.e, x.f + y.f, x.g + y.g, x.h + y.h⟩

/-- The words of a state in order. -/
def Words.toList (w : Words) : List UInt32 := [w.a, w.b, w.c, w.d, w.e, w.f, w.g, w.h]

/-- Rotate a word to the right. -/
def rotate (word : UInt32) (places : UInt32) : UInt32 :=
  (word >>> places) ||| (word <<< (32 - places))

/-- One round with a constant and a word of the message schedule. -/
def round (w : Words) (constant word : UInt32) : Words :=
  let s₁ := rotate w.e 6 ^^^ rotate w.e 11 ^^^ rotate w.e 25
  let choice := (w.e &&& w.f) ^^^ ((~~~ w.e) &&& w.g)
  let t₁ := w.h + s₁ + choice + constant + word
  let s₀ := rotate w.a 2 ^^^ rotate w.a 13 ^^^ rotate w.a 22
  let majority := (w.a &&& w.b) ^^^ (w.a &&& w.c) ^^^ (w.b &&& w.c)
  ⟨t₁ + (s₀ + majority), w.a, w.b, w.c, w.d + t₁, w.e, w.f, w.g⟩

/-- The next word of the message schedule, from the sixteen before it. -/
def nextWord (window : List UInt32) : UInt32 :=
  let word (i : Nat) : UInt32 := window.getD i 0
  let s₀ := rotate (word 1) 7 ^^^ rotate (word 1) 18 ^^^ (word 1 >>> 3)
  let s₁ := rotate (word 14) 17 ^^^ rotate (word 14) 19 ^^^ (word 14 >>> 10)
  word 0 + s₀ + word 9 + s₁

/-- The rounds for the given constants; `window` holds the next sixteen words of
the message schedule. -/
def rounds : List UInt32 → List UInt32 → Words → Words
  | [], _, w => w
  | constant :: rest, window, w =>
    rounds rest (window.drop 1 ++ [nextWord window]) (round w constant (window.getD 0 0))

/-- Four bytes as a word, the first byte the highest. -/
def wordOf (bytes : List UInt8) : UInt32 :=
  bytes.foldl (fun word b => (word <<< 8) ||| b.toUInt32) 0

/-- The bytes in groups of `size`; `fuel` bounds the number of groups. -/
def groups (size : Nat) : (fuel : Nat) → List UInt8 → List (List UInt8)
  | 0, _ => []
  | _, [] => []
  | fuel + 1, bytes => bytes.take size :: groups size fuel (bytes.drop size)

/-- The message followed by a one bit, zeros, and its length in bits, so that the
whole is a multiple of 64 bytes. -/
def padded (message : List UInt8) : List UInt8 :=
  let zeros := (119 - message.length % 64) % 64
  let bits := message.length * 8
  let count : List UInt8 := (List.range 8).map fun i => UInt8.ofNat (bits >>> (8 * (7 - i)))
  message ++ 0x80 :: List.replicate zeros 0 ++ count

/-- The digest of a message. -/
def digest (message : List UInt8) : Words :=
  let input := padded message
  (groups 64 input.length input).foldl
    (fun w block => (rounds constants ((groups 4 16 block).map wordOf) w).add w) Words.initial

/-- A word in eight lowercase hexadecimal digits. -/
def hexWord (word : UInt32) : List Char :=
  let digit (place : Nat) : Char := Nat.digitChar ((word.toNat >>> (4 * place)) % 16)
  [digit 7, digit 6, digit 5, digit 4, digit 3, digit 2, digit 1, digit 0]

/-- The digest of a text's UTF-8 form, in hexadecimal. -/
def hexDigest (text : String) : String :=
  String.ofList ((digest (Text.bytes text)).toList.flatMap hexWord)

/-- A digest has 64 digits. -/
theorem hexDigest_length (text : String) : (hexDigest text).toList.length = 64 := by
  simp [hexDigest, Words.toList, hexWord]

end LocaleWatch.Sha256
