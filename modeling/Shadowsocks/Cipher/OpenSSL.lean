import Shadowsocks.Cipher.Sodium

/-!
What table.m and encrypt.c call in OpenSSL. The library is not part of the
repository, so it is a parameter; `Lawful` collects what the code relies on.
-/
namespace Shadowsocks

structure OpenSSL where
  EvpCipher : Type
  /-- The contents of an `EVP_CIPHER_CTX`. -/
  EvpCtx : Type
  md5 : Bytes → Bytes
  evpGetCipherbyname : String → Option EvpCipher
  evpAes256Cfb : EvpCipher
  evpCipherKeyLength : EvpCipher → Nat
  evpCipherIvLength : EvpCipher → Nat
  /-- `EVP_BytesToKey` with md5, no salt and one iteration: the bytes stored at `key`. Their
  number is the function's result. -/
  evpBytesToKey : EvpCipher → Bytes → Bytes
  evpCipherCtxNew : EvpCtx
  /-- `EVP_CIPHER_CTX_init` followed by `EVP_CipherInit_ex` with only a cipher and a direction,
  `true` to encrypt. -/
  evpCipherSetup : Option EvpCipher → Bool → EvpCtx
  /-- `none` when the call returns 0. -/
  evpCipherCtxSetKeyLength : EvpCtx → Nat → Option EvpCtx
  /-- `EVP_CipherInit_ex` with only a key and an iv, given the bytes that it reads. -/
  evpCipherSetKey : EvpCtx → Bytes → Bytes → EvpCtx
  /-- `none` when the call fails and writes neither `out` nor `outl`. -/
  evpCipherUpdate : EvpCtx → Bytes → Option (EvpCtx × Bytes)
  evpCipherCtxCleanup : EvpCtx → EvpCtx

namespace OpenSSL

variable (S : OpenSSL)

/-- The iv bytes that are read from the pointer given with a cipher. -/
def ivBytes (cipher : Option S.EvpCipher) (iv : Bytes) : Bytes :=
  iv.take (cipher.elim 0 S.evpCipherIvLength)

/-- `ctx` has been given cipher, direction, key and iv, of the lengths the cipher asks for. -/
def KeyedWith (c : S.EvpCipher) (key iv : Bytes) (enc : Bool) (ctx : S.EvpCtx) : Prop :=
  iv.length = S.evpCipherIvLength c ∧
    ∃ sized, S.evpCipherCtxSetKeyLength (S.evpCipherSetup (some c) enc) key.length = some sized ∧
      ctx = S.evpCipherSetKey sized key iv

/-- A context that has been keyed, and may have transformed data since. -/
inductive Keyed : S.EvpCtx → Prop
  | start {c key iv enc ctx} (h : S.KeyedWith c key iv enc ctx) : Keyed ctx
  | update {ctx ctx' inp out} (h : Keyed ctx)
      (hu : S.evpCipherUpdate ctx inp = some (ctx', out)) : Keyed ctx'

/-- The iv lengths of the ciphers encrypt.c asks for by name. -/
def documentedIvLength : List (String × Nat) :=
  [("RC4", 0), ("rc4", 0), ("aes-256-cfb", 16), ("aes-192-cfb", 16), ("aes-128-cfb", 16),
   ("bf-cfb", 8), ("cast5-cfb", 8), ("des-cfb", 8), ("rc2-cfb", 8), ("seed-cfb", 16)]

/-- The documented behaviour of OpenSSL that the code relies on. The ciphers are streaming:
output is as long as input, and the input may be handed over in pieces. -/
structure Lawful : Prop where
  md5_length : ∀ m, (S.md5 m).length = 16
  bytesToKey_length : ∀ c pw, (S.evpBytesToKey c pw).length = S.evpCipherKeyLength c
  keyLength_le : ∀ c, S.evpCipherKeyLength c ≤ 64
  keyLength_aes256 : S.evpCipherKeyLength S.evpAes256Cfb = 32
  keyLength_rc4 : ∀ c, S.evpGetCipherbyname "RC4" = some c → S.evpCipherKeyLength c = 16
  setKeyLength_self : ∀ name c enc, S.evpGetCipherbyname name = some c → ∃ sized,
    S.evpCipherCtxSetKeyLength (S.evpCipherSetup (some c) enc) (S.evpCipherKeyLength c) = some sized
  ivLength_of_name : ∀ name n c, (name, n) ∈ documentedIvLength →
    S.evpGetCipherbyname name = some c → S.evpCipherIvLength c = n
  update_nil : ∀ {ctx}, S.Keyed ctx → S.evpCipherUpdate ctx [] = some (ctx, [])
  update_total : ∀ {ctx} inp, S.Keyed ctx →
    ∃ ctx' out, S.evpCipherUpdate ctx inp = some (ctx', out) ∧ out.length = inp.length
  update_append : ∀ {ctx ctx₁ ctx₂ a b out₁ out₂}, S.Keyed ctx →
    S.evpCipherUpdate ctx a = some (ctx₁, out₁) → S.evpCipherUpdate ctx₁ b = some (ctx₂, out₂) →
    S.evpCipherUpdate ctx (a ++ b) = some (ctx₂, out₁ ++ out₂)
  decrypt_encrypt : ∀ {c key iv enc dec inp out enc'}, S.KeyedWith c key iv true enc →
    S.KeyedWith c key iv false dec → S.evpCipherUpdate enc inp = some (enc', out) →
    ∃ dec', S.evpCipherUpdate dec out = some (dec', inp)

end OpenSSL

end Shadowsocks
