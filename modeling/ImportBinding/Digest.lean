/-
  ImportBinding — SHA-256 of a byte string.

  The message is padded to whole blocks of 64 bytes; each block is expanded to a
  schedule of 64 words and folded into the state by 64 rounds.

  * `Digest.padded` is the padded message;
  * `Digest.state` is the final state, eight words;
  * `sha256` is the digest in lower-case hexadecimal.
-/
namespace ImportBinding

namespace Digest

/-- The first 32 bits of the fractional parts of the cube roots of the first 64
    primes, one for each round. -/
def roundConstants : List UInt32 :=
  [0x428a2f98, 0x71374491, 0xb5c0fbcf, 0xe9b5dba5, 0x3956c25b, 0x59f111f1, 0x923f82a4, 0xab1c5ed5,
    0xd807aa98, 0x12835b01, 0x243185be, 0x550c7dc3, 0x72be5d74, 0x80deb1fe, 0x9bdc06a7, 0xc19bf174,
    0xe49b69c1, 0xefbe4786, 0x0fc19dc6, 0x240ca1cc, 0x2de92c6f, 0x4a7484aa, 0x5cb0a9dc, 0x76f988da,
    0x983e5152, 0xa831c66d, 0xb00327c8, 0xbf597fc7, 0xc6e00bf3, 0xd5a79147, 0x06ca6351, 0x14292967,
    0x27b70a85, 0x2e1b2138, 0x4d2c6dfc, 0x53380d13, 0x650a7354, 0x766a0abb, 0x81c2c92e, 0x92722c85,
    0xa2bfe8a1, 0xa81a664b, 0xc24b8b70, 0xc76c51a3, 0xd192e819, 0xd6990624, 0xf40e3585, 0x106aa070,
    0x19a4c116, 0x1e376c08, 0x2748774c, 0x34b0bcb5, 0x391c0cb3, 0x4ed8aa4a, 0x5b9cca4f, 0x682e6ff3,
    0x748f82ee, 0x78a5636f, 0x84c87814, 0x8cc70208, 0x90befffa, 0xa4506ceb, 0xbef9a3f7, 0xc67178f2]

/-- The eight working words. -/
structure State where
  (a b c d e f g h : UInt32)

/-- The words before the first block: the square roots of the first eight primes. -/
def State.start : State :=
  ⟨0x6a09e667, 0xbb67ae85, 0x3c6ef372, 0xa54ff53a, 0x510e527f, 0x9b05688c, 0x1f83d9ab, 0x5be0cd19⟩

/-- A word turned right by `k` places, `0 < k < 32`. -/
def rotate (k : UInt32) (w : UInt32) : UInt32 :=
  (w >>> k) ||| (w <<< (32 - k))

/-- The word of a schedule that follows the sixteen words `w`, newest first. -/
def nextWord (w : List UInt32) : UInt32 :=
  let x := w.getD 14 0
  let y := w.getD 1 0
  let s₀ := rotate 7 x ^^^ rotate 18 x ^^^ (x >>> 3)
  let s₁ := rotate 17 y ^^^ rotate 19 y ^^^ (y >>> 10)
  w.getD 15 0 + s₀ + w.getD 6 0 + s₁

/-- `n` more words in front of a schedule that is held newest first. -/
def expand : Nat → List UInt32 → List UInt32
  | 0, w => w
  | n + 1, w => expand n (nextWord w :: w)

/-- One round with its constant and its word of the schedule. -/
def round (s : State) (k w : UInt32) : State :=
  let s₁ := rotate 6 s.e ^^^ rotate 11 s.e ^^^ rotate 25 s.e
  let choice := (s.e &&& s.f) ^^^ ((~~~ s.e) &&& s.g)
  let t₁ := s.h + s₁ + choice + k + w
  let s₀ := rotate 2 s.a ^^^ rotate 13 s.a ^^^ rotate 22 s.a
  let majority := (s.a &&& s.b) ^^^ (s.a &&& s.c) ^^^ (s.b &&& s.c)
  ⟨t₁ + (s₀ + majority), s.a, s.b, s.c, s.d + t₁, s.e, s.f, s.g⟩

/-- The state after a block of sixteen words. -/
def compress (s : State) (block : List UInt32) : State :=
  let schedule := (expand 48 block.reverse).reverse
  let t := (roundConstants.zip schedule).foldl (fun t kw => round t kw.1 kw.2) s
  ⟨s.a + t.a, s.b + t.b, s.c + t.c, s.d + t.d, s.e + t.e, s.f + t.f, s.g + t.g, s.h + t.h⟩

/-- `n` as `k` bytes, most significant first. -/
def bigEndian (k n : Nat) : List UInt8 :=
  (List.range k).reverse.map fun i => UInt8.ofNat (n / Nat.pow 256 i)

/-- The message, a byte `80`, zeros up to eight bytes before the end of a block,
    and the length in bits. -/
def padded (m : List UInt8) : List UInt8 :=
  m ++ 0x80 :: List.replicate ((119 - m.length % 64) % 64) 0 ++ bigEndian 8 (8 * m.length)

/-- The words of a byte string, four bytes each. -/
def toWords : List UInt8 → List UInt32
  | a :: b :: c :: d :: rest =>
    (a.toUInt32 <<< 24 ||| b.toUInt32 <<< 16 ||| c.toUInt32 <<< 8 ||| d.toUInt32) :: toWords rest
  | _ => []

/-- The state after all whole blocks of the words, of which there are at most `n`. -/
def foldBlocks : Nat → State → List UInt32 → State
  | 0, s, _ => s
  | _ + 1, s, [] => s
  | n + 1, s, ws => foldBlocks n (compress s (ws.take 16)) (ws.drop 16)

/-- The state after the padded message. -/
def state (m : List UInt8) : State :=
  let ws := toWords (padded m)
  foldBlocks ws.length .start ws

def hexByte (b : UInt8) : List Char :=
  [Nat.digitChar (b.toNat / 16), Nat.digitChar (b.toNat % 16)]

/-- The bytes of a state, most significant first. -/
def State.toBytes (s : State) : List UInt8 :=
  [s.a, s.b, s.c, s.d, s.e, s.f, s.g, s.h].flatMap fun w => bigEndian 4 w.toNat

/-- The padded message fills whole blocks. -/
theorem length_padded (m : List UInt8) : (padded m).length % 64 = 0 := by
  simp [padded, bigEndian]
  omega

end Digest

/-- The SHA-256 digest of a byte string in lower-case hexadecimal. -/
def sha256 (m : List UInt8) : String :=
  .ofList ((Digest.state m).toBytes.flatMap Digest.hexByte)

end ImportBinding
