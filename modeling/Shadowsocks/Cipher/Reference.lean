import Shadowsocks.Cipher.Table

/-!
An OpenSSL built with md5 and rc4 only. It shows that the assumptions on the
library can be met, and runs where the others are parameters. Beside it the setting up of aes.
-/
namespace Shadowsocks

namespace Md5

def shifts : List UInt32 :=
  [7, 12, 17, 22, 5, 9, 14, 20, 4, 11, 16, 23, 6, 10, 15, 21]

def constants : List UInt32 :=
  [0xd76aa478, 0xe8c7b756, 0x242070db, 0xc1bdceee, 0xf57c0faf, 0x4787c62a, 0xa8304613, 0xfd469501,
   0x698098d8, 0x8b44f7af, 0xffff5bb1, 0x895cd7be, 0x6b901122, 0xfd987193, 0xa679438e, 0x49b40821,
   0xf61e2562, 0xc040b340, 0x265e5a51, 0xe9b6c7aa, 0xd62f105d, 0x02441453, 0xd8a1e681, 0xe7d3fbc8,
   0x21e1cde6, 0xc33707d6, 0xf4d50d87, 0x455a14ed, 0xa9e3e905, 0xfcefa3f8, 0x676f02d9, 0x8d2a4c8a,
   0xfffa3942, 0x8771f681, 0x6d9d6122, 0xfde5380c, 0xa4beea44, 0x4bdecfa9, 0xf6bb4b60, 0xbebfbc70,
   0x289b7ec6, 0xeaa127fa, 0xd4ef3085, 0x04881d05, 0xd9d4d039, 0xe6db99e5, 0x1fa27cf8, 0xc4ac5665,
   0xf4292244, 0x432aff97, 0xab9423a7, 0xfc93a039, 0x655b59c3, 0x8f0ccc92, 0xffeff47d, 0x85845dd1,
   0x6fa87e4f, 0xfe2ce6e0, 0xa3014314, 0x4e0811a1, 0xf7537e82, 0xbd3af235, 0x2ad7d2bb, 0xeb86d391]

abbrev State := UInt32 × UInt32 × UInt32 × UInt32

def step (block : Bytes) : State → Nat → State
  | (a, b, c, d), i =>
    let (f, k) : UInt32 × Nat :=
      if i < 16 then ((b &&& c) ||| (~~~b &&& d), i)
      else if i < 32 then ((d &&& b) ||| (~~~d &&& c), (5 * i + 1) % 16)
      else if i < 48 then (b ^^^ c ^^^ d, (3 * i + 5) % 16)
      else (c ^^^ (b ||| ~~~d), (7 * i) % 16)
    let f := f + a + constants.getD i 0 + Sodium.load32Le block (4 * k)
    (d, b + Sodium.rotl32 f (shifts.getD (4 * (i / 16) + i % 4) 0), b, c)

def compress (s : State) (block : Bytes) : State :=
  let (a, b, c, d) := (List.range 64).foldl (step block) s
  (s.1 + a, s.2.1 + b, s.2.2.1 + c, s.2.2.2 + d)

def littleEndian (n bytes : Nat) : Bytes :=
  (List.range bytes).map fun i => UInt8.ofNat (n / 256 ^ i)

def padded (m : Bytes) : Bytes :=
  m ++ 0x80 :: List.replicate ((119 - m.length % 64) % 64) 0 ++ littleEndian (8 * m.length) 8

def digest (m : Bytes) : Bytes :=
  let p := padded m
  let (a, b, c, d) := (List.range (p.length / 64)).foldl
    (fun s i => compress s ((p.drop (64 * i)).take 64))
    (0x67452301, 0xefcdab89, 0x98badcfe, 0x10325476)
  [a, b, c, d].flatMap fun w => littleEndian w.toNat 4

end Md5

namespace Rc4

structure State where
  table : ByteTable
  i : UInt8
  j : UInt8

def swap (t : ByteTable) (i j : UInt8) : ByteTable :=
  (t.set i.toNat (Table.lookup t j) i.toNat_lt).set j.toNat (Table.lookup t i) j.toNat_lt

def schedule (key : Bytes) : State :=
  let (table, _) := (List.range 256).foldl
    (fun (t, j) i =>
      let j : UInt8 := j + Table.lookup t (UInt8.ofNat i) + key.getD (i % key.length) 0
      (swap t (UInt8.ofNat i) j, j))
    (Table.identity, 0)
  ⟨table, 0, 0⟩

def next (s : State) : State × UInt8 :=
  let i := s.i + 1
  let j := s.j + Table.lookup s.table i
  let t := swap s.table i j
  (⟨t, i, j⟩, Table.lookup t (Table.lookup t i + Table.lookup t j))

def update : State → Bytes → State × Bytes
  | s, [] => (s, [])
  | s, b :: m =>
    let (s', k) := next s
    let (s'', out) := update s' m
    (s'', (b ^^^ k) :: out)

theorem length_update (s : State) (m : Bytes) : (update s m).2.length = m.length := by
  induction m generalizing s with
  | nil => rfl
  | cons b m ih => simp [update, ih]

theorem update_append (s : State) (a b : Bytes) :
    update s (a ++ b) =
      ((update (update s a).1 b).1, (update s a).2 ++ (update (update s a).1 b).2) := by
  induction a generalizing s with
  | nil => simp [update]
  | cons x a ih => simp [update, ih]

/-- The generator does not look at the data, so it undoes itself. -/
theorem update_update (s : State) (m : Bytes) : (update s (update s m).2).2 = m := by
  induction m generalizing s with
  | nil => rfl
  | cons b m ih =>
    simp only [update, ih]
    rw [UInt8.xor_assoc, UInt8.xor_self, UInt8.xor_zero]

end Rc4

namespace Reference

inductive Cipher
  | rc4
  | aes256Cfb
  deriving DecidableEq

inductive Ctx
  | blank
  | setup (cipher : Cipher)
  | keyed (s : Rc4.State)

def keyLength : Cipher → Nat
  | .rc4 => 16
  | .aes256Cfb => 32

/-- Only the key length of aes-256-cfb is used: this library cannot run it. -/
def openssl : OpenSSL where
  EvpCipher := Cipher
  EvpCtx := Ctx
  md5 := Md5.digest
  evpGetCipherbyname name := if name = "RC4" ∨ name = "rc4" then some .rc4 else none
  evpAes256Cfb := .aes256Cfb
  evpCipherKeyLength := keyLength
  evpCipherIvLength
    | .rc4 => 0
    | .aes256Cfb => 16
  evpBytesToKey c pw :=
    let d₁ := Md5.digest pw
    let d₂ := Md5.digest (d₁ ++ pw)
    (d₁ ++ d₂).take (keyLength c)
  evpCipherCtxNew := .blank
  evpCipherSetup
    | none, _ => .blank
    | some c, _ => .setup c
  evpCipherCtxSetKeyLength
    | .setup .rc4, _ => some (.setup .rc4)
    | _, _ => none
  evpCipherSetKey _ key _ := .keyed (Rc4.schedule key)
  evpCipherUpdate
    | .keyed s, m => some (.keyed (Rc4.update s m).1, (Rc4.update s m).2)
    | _, _ => none
  evpCipherCtxCleanup _ := .blank

theorem length_digest (m : Bytes) : (Md5.digest m).length = 16 := by
  simp [Md5.digest, Md5.littleEndian]

theorem cipher_of_name {name : String} {c : openssl.EvpCipher}
    (h : openssl.evpGetCipherbyname name = some c) :
    (name = "RC4" ∨ name = "rc4") ∧ c = Cipher.rc4 := by
  change (if name = "RC4" ∨ name = "rc4" then some Cipher.rc4 else none) = some c at h
  split at h
  next hname => exact ⟨hname, (Option.some.inj h).symm⟩
  next => cases h

theorem keyed_openssl {ctx : openssl.EvpCtx} (h : openssl.Keyed ctx) :
    ∃ s, ctx = Ctx.keyed s := by
  induction h with
  | start h =>
    obtain ⟨-, sized, -, rfl⟩ := h
    exact ⟨_, rfl⟩
  | update h hu ih =>
    obtain ⟨s, rfl⟩ := ih
    cases hu
    exact ⟨_, rfl⟩

theorem lawful_openssl : openssl.Lawful where
  md5_length := length_digest
  bytesToKey_length c pw := by
    cases c <;> simp [openssl, length_digest, keyLength]
  keyLength_le c := by cases c <;> decide
  keyLength_aes256 := rfl
  keyLength_rc4 c h := by
    obtain ⟨-, rfl⟩ := cipher_of_name h
    rfl
  setKeyLength_self name c enc h := by
    obtain ⟨-, rfl⟩ := cipher_of_name h
    exact ⟨Ctx.setup .rc4, rfl⟩
  ivLength_of_name name n c hmem h := by
    obtain ⟨rfl | rfl, rfl⟩ := cipher_of_name h <;>
      simp [OpenSSL.documentedIvLength] at hmem <;> rw [hmem] <;> rfl
  update_nil {ctx} hk := by
    obtain ⟨s, rfl⟩ := keyed_openssl hk
    rfl
  update_total {ctx} inp hk := by
    obtain ⟨s, rfl⟩ := keyed_openssl hk
    exact ⟨_, _, rfl, Rc4.length_update s inp⟩
  update_append {ctx ctx₁ ctx₂ a b out₁ out₂} hk ha hb := by
    obtain ⟨s, rfl⟩ := keyed_openssl hk
    cases ha
    cases hb
    simp [openssl, Rc4.update_append]
  decrypt_encrypt {c key iv enc dec inp out enc'} he hd hu := by
    obtain ⟨-, sized, -, rfl⟩ := he
    obtain ⟨-, sized', -, rfl⟩ := hd
    cases hu
    exact ⟨_, by simp [openssl, Rc4.update_update]; rfl⟩

/-- Its ciphers are known by their key lengths, and `EVP_CIPHER_CTX_set_key_length` allows no
others. It cannot run them: no context of it that has a cipher is transformed here. One that has
none transforms nothing, and `EVP_CipherUpdate` sets `*outl` to 0 and returns 0. -/
def aes : OpenSSL where
  EvpCipher := Nat
  EvpCtx := Option Nat
  md5 := Md5.digest
  evpGetCipherbyname name :=
    if name = "aes-128-cfb" then some 16 else if name = "aes-256-cfb" then some 32 else none
  evpAes256Cfb := 32
  evpCipherKeyLength c := c
  evpCipherIvLength _ := 16
  evpBytesToKey c pw := (Md5.digest pw ++ Md5.digest (Md5.digest pw ++ pw)).take c
  evpCipherCtxNew := none
  evpCipherSetup c _ := c
  evpCipherCtxSetKeyLength ctx n := if ctx = some n then some ctx else none
  evpCipherSetKey ctx _ _ := ctx
  evpCipherUpdate ctx _ := if ctx = none then some (none, []) else none
  evpCipherCtxCleanup _ := none

end Reference

end Shadowsocks
