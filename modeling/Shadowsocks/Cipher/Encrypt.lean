import Shadowsocks.Library.Memory
import Shadowsocks.Cipher.Table

/-! encrypt.c: the global configuration, the per-direction contexts and the two buffer
functions that the event loop calls. -/
namespace Shadowsocks

open Memory

def bufSize : Nat := 1500
def sodiumBlockSize : Nat := 64
/-- The size of the static `sodium_buf`. -/
def sodiumBufSize : Nat := bufSize + sodiumBlockSize + 16

/-- `CIPHER_TABLE`, `CIPHER_OPENSSL` and `CIPHER_SODIUM`. -/
inductive CipherFamily
  | table
  | openssl
  | sodium
  deriving DecidableEq, Repr

/-- `STATUS_EMPTY`, `STATUS_INIT` and `STATUS_DESTORYED`. -/
inductive Status
  | empty
  | init
  | destroyed
  deriving DecidableEq, Repr

/-- An index into `shadowsocks_encryption_names`, of `kShadowsocksMethods` entries. -/
abbrev Method := Fin 13

def encryptionTable : Method := 0
def encryptionRc4Md5 : Method := 1
def encryptionSalsa20 : Method := 2
def encryptionChacha20 : Method := 3

def encryptionIvLen (method : Method) : Nat :=
  #v[0, 16, 8, 8, 16, 16, 16, 8, 8, 8, 8, 0, 16].get method

def shadowsocksEncryptionNames (method : Method) : String :=
  #v["table", "rc4-md5", "salsa20", "chacha20", "aes-256-cfb", "aes-192-cfb", "aes-128-cfb",
     "bf-cfb", "cast5-cfb", "des-cfb", "rc2-cfb", "rc4", "seed-cfb"].get method

/-- `strcasecmp(a, b) == 0` -/
def strcaseEq (a b : String) : Bool := a.toList.map Char.toLower == b.toList.map Char.toLower

def encryptionMethodFromString (name : String) : Method :=
  ((List.finRange 13).find? fun i => strcaseEq name (shadowsocksEncryptionNames i)).getD 0

/-- The file-scope variables of encrypt.c and table.m. -/
structure Globals (S : OpenSSL) where
  cipher : CipherFamily
  method : Method
  keyLen : Nat
  evpCipher : Option S.EvpCipher
  key : Vector UInt8 64
  /-- `shadowsocks_key` points to `_key`; until then it is `NULL`. -/
  shadowsocksKey : Bool
  sodiumBuf : Vector UInt8 sodiumBufSize
  encryptTable : ByteTable
  decryptTable : ByteTable

structure EncryptionCtx (S : OpenSSL) where
  ctx : S.EvpCtx
  status : Status
  iv : Vector UInt8 16
  ivLen : Nat
  bytesRemaining : Nat
  ic : UInt64
  cipher : CipherFamily

/-- Static storage before the first `config_encryption`. -/
def Globals.zeroed (S : OpenSSL) : Globals S where
  cipher := .table
  method := encryptionTable
  keyLen := 0
  evpCipher := none
  key := Vector.replicate _ 0
  shadowsocksKey := false
  sodiumBuf := Vector.replicate _ 0
  encryptTable := Vector.replicate _ 0
  decryptTable := Vector.replicate _ 0

/-- A block that `malloc` returns with nothing but zeros in it. -/
def EncryptionCtx.zeroed (S : OpenSSL) : EncryptionCtx S where
  ctx := S.evpCipherCtxNew
  status := .empty
  iv := Vector.replicate _ 0
  ivLen := 0
  bytesRemaining := 0
  ic := 0
  cipher := .table

/-- What one call draws from outside: the bytes of `RAND_bytes` and those `malloc` leaves. -/
structure Ambient where
  rand : Nat → UInt8
  heap : Nat → UInt8

def Ambient.zeroed : Ambient := ⟨fun _ => 0, fun _ => 0⟩

def drawn (source : Nat → UInt8) (n : Nat) : Bytes := (List.range n).map source

variable {S : OpenSSL}

/-- The name handed to `EVP_get_cipherbyname`. -/
def evpName (method : Method) : String :=
  if method = encryptionRc4Md5 then "RC4" else shadowsocksEncryptionNames method

def IsSodium (method : Method) : Prop := method = encryptionSalsa20 ∨ method = encryptionChacha20

instance (method : Method) : Decidable (IsSodium method) :=
  inferInstanceAs (Decidable (_ ∨ _))

def configEncryption (g : Globals S) (password : Bytes) (name : String) : Globals S :=
  let g := { g with method := encryptionMethodFromString name }
  if g.method = encryptionTable then
    let (encrypt, decrypt) := Table.getTable S password g.decryptTable
    { g with encryptTable := encrypt, decryptTable := decrypt, cipher := .table }
  else if IsSodium g.method then
    { g with
      cipher := .sodium
      keyLen := 32
      key := memcpy g.key 0 (S.evpBytesToKey S.evpAes256Cfb password)
      shadowsocksKey := true }
  else
    match S.evpGetCipherbyname (evpName g.method) with
    | none => { g with cipher := .openssl, evpCipher := none }
    | some c =>
      let key := S.evpBytesToKey c password
      { g with
        cipher := .openssl
        evpCipher := some c
        keyLen := key.length
        key := memcpy g.key 0 key
        shadowsocksKey := true }

/-- On `malloc`ed memory `mem`: the other fields keep what is there. -/
def initEncryption (g : Globals S) (mem : EncryptionCtx S) : EncryptionCtx S :=
  { mem with status := .empty, ctx := S.evpCipherCtxNew, cipher := g.cipher }

def cleanupEncryption (c : EncryptionCtx S) : EncryptionCtx S :=
  if c.status = .init then
    { c with
      ctx := if c.cipher = .openssl then S.evpCipherCtxCleanup c.ctx else c.ctx
      status := .destroyed }
  else c

/-- Fill the head of `ctx->iv`. -/
def EncryptionCtx.storeIv (c : EncryptionCtx S) (iv : Bytes) : EncryptionCtx S :=
  { c with iv := memcpy c.iv 0 iv }

/-- The key given to OpenSSL: `_key`, or for rc4-md5 the digest of its head and the iv. -/
def trueKey (g : Globals S) (iv : Bytes) : Bytes :=
  if g.method = encryptionRc4Md5 then S.md5 (front g.key 16 ++ iv.take 16) else g.key.toList

def initCipher (g : Globals S) (c : EncryptionCtx S) (iv : Bytes) (isCipher : Bool) :
    EncryptionCtx S :=
  let c := { c with status := .init }
  match c.cipher with
  | .openssl =>
    let ctx := S.evpCipherSetup g.evpCipher isCipher
    match S.evpCipherCtxSetKeyLength ctx g.keyLen with
    | none => cleanupEncryption { c with ctx := ctx }
    | some ctx =>
      { c with
        ctx := S.evpCipherSetKey ctx ((trueKey g iv).take g.keyLen) (S.ivBytes g.evpCipher iv)
        ivLen := encryptionIvLen g.method }
  | .sodium => { c with ic := 0, bytesRemaining := 0, ivLen := encryptionIvLen g.method }
  | .table => { c with ivLen := encryptionIvLen g.method }

/-- The `xor_ic` call that `_method` selects; for any other method there is none. The
functions read 8 bytes of nonce and 32 bytes of key. -/
def xorIc (g : Globals S) (c : EncryptionCtx S) (m : Bytes) : Bytes :=
  if g.method = encryptionSalsa20 then
    Sodium.cryptoStreamSalsa20XorIc m (front c.iv 8) c.ic (front g.key 32)
  else if g.method = encryptionChacha20 then
    Sodium.cryptoStreamChacha20XorIc m (front c.iv 8) c.ic (front g.key 32)
  else m

/-- `out` is what the caller's block of `*outlen` bytes holds; the result is what it holds and
how long it is afterwards. -/
def cipherUpdate (g : Globals S) (c : EncryptionCtx S) (out inp : Bytes) :
    Globals S × EncryptionCtx S × Bytes :=
  match c.cipher with
  | .openssl =>
    match S.evpCipherUpdate c.ctx inp with
    | none => (g, c, out)
    | some (ctx, out) => (g, { c with ctx := ctx }, out)
  | .sodium =>
    let padding := c.bytesRemaining
    let loaded := memcpy g.sodiumBuf padding inp
    let sodiumBuf := memcpy loaded 0 (xorIc g c (front loaded (padding + inp.length)))
    let out := (front sodiumBuf (padding + inp.length)).drop padding
    let padding := padding + inp.length
    ({ g with sodiumBuf := sodiumBuf },
      { c with
        ic := c.ic + UInt64.ofNat (padding / sodiumBlockSize)
        bytesRemaining := padding % sodiumBlockSize },
      out)
  | .table => (g, c, out)

/-- The result is the new contents of `buf`, as long as the new `*len`. -/
def encryptBuf (amb : Ambient) (g : Globals S) (c : EncryptionCtx S) (buf : Bytes) :
    Globals S × EncryptionCtx S × Bytes :=
  if c.cipher = .table then
    (g, c, Table.substitute g.encryptTable buf)
  else if c.status = .empty then
    let ivLen := encryptionIvLen g.method
    let c := c.storeIv (drawn amb.rand ivLen)
    let c := initCipher g c c.iv.toList true
    let (g, c, cipherText) := cipherUpdate g c (drawn amb.heap (buf.length + c.ivLen)) buf
    (g, c, front c.iv ivLen ++ cipherText)
  else
    cipherUpdate g c (drawn amb.heap (buf.length + c.ivLen)) buf

/-- `none` when `*len - iv_len` wraps below zero: the piece is shorter than the iv that the
first call copies out of it. -/
def decryptBuf (amb : Ambient) (g : Globals S) (c : EncryptionCtx S) (buf : Bytes) :
    Option (Globals S × EncryptionCtx S × Bytes) :=
  if c.cipher = .table then
    some (g, c, Table.substitute g.decryptTable buf)
  else if c.status = .empty then
    let ivLen := encryptionIvLen g.method
    if buf.length < ivLen then none
    else
      let c := c.storeIv (buf.take ivLen)
      let c := initCipher g c c.iv.toList false
      let outLen := buf.length + c.ivLen - ivLen
      some (cipherUpdate g c (drawn amb.heap outLen) (buf.drop ivLen))
  else
    some (cipherUpdate g c (drawn amb.heap (buf.length + c.ivLen)) buf)

end Shadowsocks
