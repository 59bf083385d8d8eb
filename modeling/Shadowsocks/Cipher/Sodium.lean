import Mathlib.Data.Vector.Basic
import Shadowsocks.Library.Keystream

/-!
The part of the vendored libsodium that encrypt.c calls: the reference
implementations of `crypto_stream_salsa20_xor_ic` and
`crypto_stream_chacha20_xor_ic`.
-/
namespace Shadowsocks

abbrev Bytes := List UInt8

namespace Sodium

def rotl32 (x b : UInt32) : UInt32 := (x <<< b) ||| (x >>> (32 - b))

def load32Le (src : Bytes) (off : Nat) : UInt32 :=
  (src.getD off 0).toUInt32 ||| ((src.getD (off + 1) 0).toUInt32 <<< 8) |||
    ((src.getD (off + 2) 0).toUInt32 <<< 16) ||| ((src.getD (off + 3) 0).toUInt32 <<< 24)

/-- Byte `i` of sixteen words stored one after the other, little end first. -/
def store32Le (words : Vector UInt32 16) : Bytes :=
  List.ofFn fun i : Fin 64 => (words[i.val / 4] >>> (8 * UInt32.ofNat (i.val % 4))).toUInt8

@[simp] theorem length_store32Le (words : Vector UInt32 16) : (store32Le words).length = 64 :=
  List.length_ofFn

/-- The two words `STORE32_LE` and `LOAD32_LE` carry a 64-bit block counter through. -/
def counterWords (ic : UInt64) : UInt32 × UInt32 := (ic.toUInt32, (ic >>> 32).toUInt32)

/-- One line `x[d] ^= ROTL32(x[a] + x[b], r)` of `crypto_core_salsa`. -/
def salsaLine (x : Vector UInt32 16) : Fin 16 × Fin 16 × Fin 16 × UInt32 → Vector UInt32 16
  | (d, a, b, r) => x.set d (x[d] ^^^ rotl32 (x[a] + x[b]) r)

/-- The body of the round loop of `crypto_core_salsa`, line by line. -/
def salsaDoubleRound : List (Fin 16 × Fin 16 × Fin 16 × UInt32) :=
  [(4, 0, 12, 7), (8, 4, 0, 9), (12, 8, 4, 13), (0, 12, 8, 18),
   (9, 5, 1, 7), (13, 9, 5, 9), (1, 13, 9, 13), (5, 1, 13, 18),
   (14, 10, 6, 7), (2, 14, 10, 9), (6, 2, 14, 13), (10, 6, 2, 18),
   (3, 15, 11, 7), (7, 3, 15, 9), (11, 7, 3, 13), (15, 11, 7, 18),
   (1, 0, 3, 7), (2, 1, 0, 9), (3, 2, 1, 13), (0, 3, 2, 18),
   (6, 5, 4, 7), (7, 6, 5, 9), (4, 7, 6, 13), (5, 4, 7, 18),
   (11, 10, 9, 7), (8, 11, 10, 9), (9, 8, 11, 13), (10, 9, 8, 18),
   (12, 15, 14, 7), (13, 12, 15, 9), (14, 13, 12, 13), (15, 14, 13, 18)]

/-- `crypto_core_salsa20` on the 8-byte nonce `n`, the block counter `ic` and the 32-byte key
`k`. The reference keeps the counter as bytes 8 to 15 of `in`, little end first. -/
def cryptoCoreSalsa20 (n k : Bytes) (ic : UInt64) : Bytes :=
  let (lo, hi) := counterWords ic
  let j : Vector UInt32 16 :=
    #v[0x61707865, load32Le k 0, load32Le k 4, load32Le k 8,
       load32Le k 12, 0x3320646e, load32Le n 0, load32Le n 4,
       lo, hi, 0x79622d32, load32Le k 16,
       load32Le k 20, load32Le k 24, load32Le k 28, 0x6b206574]
  let x := (List.replicate 10 salsaDoubleRound).flatten.foldl salsaLine j
  store32Le (Vector.zipWith (· + ·) x j)

/-- `QUARTERROUND(x[a], x[b], x[c], x[d])` of the chacha20 reference. -/
def quarterRound (x : Vector UInt32 16) : Fin 16 × Fin 16 × Fin 16 × Fin 16 → Vector UInt32 16
  | (a, b, c, d) =>
    let x := x.set a (x[a] + x[b])
    let x := x.set d (rotl32 (x[d] ^^^ x[a]) 16)
    let x := x.set c (x[c] + x[d])
    let x := x.set b (rotl32 (x[b] ^^^ x[c]) 12)
    let x := x.set a (x[a] + x[b])
    let x := x.set d (rotl32 (x[d] ^^^ x[a]) 8)
    let x := x.set c (x[c] + x[d])
    x.set b (rotl32 (x[b] ^^^ x[c]) 7)

def chachaDoubleRound : List (Fin 16 × Fin 16 × Fin 16 × Fin 16) :=
  [(0, 4, 8, 12), (1, 5, 9, 13), (2, 6, 10, 14), (3, 7, 11, 15),
   (0, 5, 10, 15), (1, 6, 11, 12), (2, 7, 8, 13), (3, 4, 9, 14)]

/-- One block of `chacha20_encrypt_bytes` after `chacha_keysetup` and `chacha_ivsetup`. Words
12 and 13 are the counter: `j12 + 1`, carried into `j13`, adds one to its 64 bits. -/
def chacha20Block (n k : Bytes) (ic : UInt64) : Bytes :=
  let (lo, hi) := counterWords ic
  let j : Vector UInt32 16 :=
    #v[0x61707865, 0x3320646e, 0x79622d32, 0x6b206574,
       load32Le k 0, load32Le k 4, load32Le k 8, load32Le k 12,
       load32Le k 16, load32Le k 20, load32Le k 24, load32Le k 28,
       lo, hi, load32Le n 0, load32Le n 4]
  let x := (List.replicate 10 chachaDoubleRound).flatten.foldl quarterRound j
  store32Le (Vector.zipWith (· + ·) x j)

@[simp] theorem length_cryptoCoreSalsa20 (n k : Bytes) (ic : UInt64) :
    (cryptoCoreSalsa20 n k ic).length = 64 := by simp [cryptoCoreSalsa20]

@[simp] theorem length_chacha20Block (n k : Bytes) (ic : UInt64) :
    (chacha20Block n k ic).length = 64 := by simp [chacha20Block]

def cryptoStreamSalsa20XorIc (m n : Bytes) (ic : UInt64) (k : Bytes) : Bytes :=
  Keystream.xorBlocks (cryptoCoreSalsa20 n k) ic m

def cryptoStreamChacha20XorIc (m n : Bytes) (ic : UInt64) (k : Bytes) : Bytes :=
  Keystream.xorBlocks (chacha20Block n k) ic m

end Sodium

end Shadowsocks
