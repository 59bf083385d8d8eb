import Shadowsocks.Cipher.Encrypt

/-!
The stream that a configured context carries in one direction, and the refinement of
`cipher_update` to it: how the bytes are cut into calls does not show.
-/
namespace Shadowsocks

open Memory

variable {S : OpenSSL} {g g' : Globals S} {c c' : EncryptionCtx S} {enc : Bool}

/-- The abstract state of one direction. -/
inductive CipherStream (S : OpenSSL)
  | table (t : ByteTable)
  | keystream (ks : Nat → UInt8) (pos : Nat)
  | evp (ctx : S.EvpCtx)

namespace CipherStream

def push : CipherStream S → Bytes → CipherStream S × Bytes
  | table t, m => (table t, Table.substitute t m)
  | keystream ks pos, m => (keystream ks (pos + m.length), Keystream.xorAt ks pos m)
  | evp ctx, m =>
    match S.evpCipherUpdate ctx m with
    | none => (evp ctx, [])
    | some (ctx', out) => (evp ctx', out)

/-- An EVP stream has been keyed; the other kinds are always usable. -/
def Usable : CipherStream S → Prop
  | evp ctx => S.Keyed ctx
  | _ => True

theorem push_evp {ctx ctx' : S.EvpCtx} {m out : Bytes}
    (h : S.evpCipherUpdate ctx m = some (ctx', out)) :
    (evp ctx : CipherStream S).push m = (evp ctx', out) := by
  simp only [push, h]

theorem push_keystream (ks : Nat → UInt8) (pos : Nat) (m : Bytes) :
    (keystream ks pos : CipherStream S).push m =
      (keystream ks (Keystream.push ks pos m).1, (Keystream.push ks pos m).2) := rfl

theorem length_push (hS : S.Lawful) {k : CipherStream S} (hk : k.Usable) (m : Bytes) :
    (k.push m).2.length = m.length := by
  cases k with
  | table t => simp [push, Table.substitute]
  | keystream ks pos => simp [push]
  | evp ctx =>
    obtain ⟨ctx', out, hu, hlen⟩ := hS.update_total m hk
    rw [push_evp hu, hlen]

theorem chunkable_push (hS : S.Lawful) : Streaming.Chunkable (push (S := S)) Usable where
  push_nil {k} hk := by
    cases k with
    | table t => simp [push, Table.substitute]
    | keystream ks pos => simp [push]
    | evp ctx => rw [push_evp (hS.update_nil hk)]
  push_append {k} a b hk := by
    cases k with
    | table t => simp [push, Table.substitute]
    | keystream ks pos =>
      rw [push_keystream, (Keystream.chunkable_push ks).push_append a b trivial]
      rfl
    | evp ctx =>
      obtain ⟨ctx₁, out₁, hu₁, -⟩ := hS.update_total a hk
      obtain ⟨ctx₂, out₂, hu₂, -⟩ := hS.update_total b (hk.update hu₁)
      rw [push_evp (hS.update_append hk hu₁ hu₂), push_evp hu₁, push_evp hu₂]
  closed {k} a hk := by
    cases k with
    | table t => trivial
    | keystream ks pos => trivial
    | evp ctx =>
      obtain ⟨ctx₁, out₁, hu₁, -⟩ := hS.update_total a hk
      rw [push_evp hu₁]
      exact hk.update hu₁

end CipherStream

namespace Globals

/-- Everything but the scratch buffer that all connections share. -/
def config (g : Globals S) : Globals S := { g with sodiumBuf := Vector.replicate _ 0 }

@[simp] theorem config_sodiumBuf (g : Globals S) (buf : Vector UInt8 sodiumBufSize) :
    config { g with sodiumBuf := buf } = g.config := rfl

/-- The keystream that the selected `xor_ic` function applies under the nonce. -/
def keystream (g : Globals S) (nonce : Bytes) : Nat → UInt8 :=
  if g.method = encryptionSalsa20 then
    Keystream.ofBlocks (Sodium.cryptoCoreSalsa20 nonce (front g.key 32))
  else Keystream.ofBlocks (Sodium.chacha20Block nonce (front g.key 32))

def tableFor (g : Globals S) (enc : Bool) : ByteTable :=
  if enc then g.encryptTable else g.decryptTable

/-- `config_encryption` has set up a method whose cipher the library knows. -/
def Configured (g : Globals S) : Prop :=
  match g.cipher with
  | .table => g.method = encryptionTable
  | .sodium => IsSodium g.method
  | .openssl => ∃ c, (∃ name, S.evpGetCipherbyname name = some c) ∧ g.evpCipher = some c ∧
      g.keyLen = S.evpCipherKeyLength c ∧ S.evpCipherIvLength c ≤ encryptionIvLen g.method ∧
      (g.method = encryptionRc4Md5 → g.keyLen = 16)

end Globals

theorem cipherUpdate_config (g : Globals S) (c : EncryptionCtx S) (out inp : Bytes) :
    (cipherUpdate g c out inp).1.config = g.config := by
  unfold cipherUpdate
  split
  · split <;> rfl
  · exact g.config_sodiumBuf _
  · rfl

/-- No call writes anything but the scratch buffer. -/
theorem encryptBuf_config (amb : Ambient) (g : Globals S) (c : EncryptionCtx S) (buf : Bytes) :
    (encryptBuf amb g c buf).1.config = g.config := by
  unfold encryptBuf
  split
  · rfl
  · split <;> exact cipherUpdate_config ..

theorem decryptBuf_config (amb : Ambient) (g : Globals S) (c : EncryptionCtx S) (buf : Bytes)
    (overrun : EncryptionCtx S × Bytes) :
    ((decryptBuf amb g c buf).getD (g, overrun)).1.config = g.config := by
  simp only [decryptBuf]
  split
  · rfl
  · split
    · split
      · rfl
      · exact cipherUpdate_config ..
    · exact cipherUpdate_config ..

/-- The context, with the globals, carries the stream in the direction `enc`. -/
def Represents (g : Globals S) (enc : Bool) (c : EncryptionCtx S) : CipherStream S → Prop
  | .table t => c.cipher = .table ∧ t = g.tableFor enc
  | .keystream ks pos => c.cipher = .sodium ∧ c.status = .init ∧ IsSodium g.method ∧
      ks = g.keystream (front c.iv 8) ∧ c.ic = UInt64.ofNat (pos / sodiumBlockSize) ∧
      c.bytesRemaining = pos % sodiumBlockSize
  | .evp ctx => c.cipher = .openssl ∧ c.status = .init ∧ c.ctx = ctx ∧ S.Keyed ctx

theorem Represents.usable {k : CipherStream S} (h : Represents g enc c k) : k.Usable := by
  cases k with
  | table t => trivial
  | keystream ks pos => trivial
  | evp ctx => exact h.2.2.2

/-- Other connections write only the scratch buffer. -/
theorem Represents.of_config {k : CipherStream S} (h : Represents g enc c k)
    (hg : g'.config = g.config) : Represents g' enc c k := by
  simp only [Globals.config, Globals.mk.injEq, true_and] at hg
  cases k with
  | table t => simpa [Represents, Globals.tableFor, hg] using h
  | keystream ks pos => simpa [Represents, Globals.keystream, hg] using h
  | evp ctx => exact h

/-- The selected function xors with the keystream from block `ic` on. -/
theorem xorIc_eq (hm : IsSodium g.method) {k : Nat} (hic : c.ic = UInt64.ofNat k) (m : Bytes) :
    xorIc g c m = Keystream.xorAt (g.keystream (front c.iv 8)) (sodiumBlockSize * k) m := by
  have hsalsa := Keystream.xorBlocks_eq
    (Sodium.length_cryptoCoreSalsa20 (front c.iv 8) (front g.key 32)) k m
  have hchacha := Keystream.xorBlocks_eq
    (Sodium.length_chacha20Block (front c.iv 8) (front g.key 32)) k m
  rcases hm with hm | hm
  · simpa [xorIc, Globals.keystream, hm, hic, Sodium.cryptoStreamSalsa20XorIc, sodiumBlockSize]
      using hsalsa
  · have hne : encryptionChacha20 ≠ encryptionSalsa20 := by decide
    simpa [xorIc, Globals.keystream, hm, hne, hic, Sodium.cryptoStreamChacha20XorIc,
      sodiumBlockSize] using hchacha

theorem length_xorIc (hm : IsSodium g.method) {k : Nat} (hic : c.ic = UInt64.ofNat k) (m : Bytes) :
    (xorIc g c m).length = m.length := by
  rw [xorIc_eq hm hic, Keystream.length_xorAt]

/-- The realigned xor: after the `padding` stale bytes each byte meets the keystream byte of
its own stream position. -/
theorem xorIc_padded (hm : IsSodium g.method) {pos : Nat}
    (hic : c.ic = UInt64.ofNat (pos / sodiumBlockSize)) {stale inp : Bytes}
    (hstale : stale.length = pos % sodiumBlockSize) :
    (xorIc g c (stale ++ inp)).drop stale.length =
      Keystream.xorAt (g.keystream (front c.iv 8)) pos inp := by
  have hpos : sodiumBlockSize * (pos / sodiumBlockSize) + stale.length = pos := by
    rw [hstale]
    exact Nat.div_add_mod pos sodiumBlockSize
  rw [xorIc_eq hm hic, Keystream.xorAt_append, List.drop_left' Keystream.length_xorAt, hpos]

/-- Padding and input always fit into `sodium_buf`. -/
theorem padding_le {pos : Nat} (hrem : c.bytesRemaining = pos % sodiumBlockSize) {inp : Bytes}
    (hlen : inp.length ≤ bufSize) : c.bytesRemaining + inp.length ≤ sodiumBufSize := by
  have : pos % sodiumBlockSize < sodiumBlockSize := Nat.mod_lt _ (by decide)
  simp only [sodiumBufSize] at *
  omega

/-- One call of `cipher_update` pushes its input through the stream, whatever the scratch
buffer held. -/
theorem cipherUpdate_sodium {ks : Nat → UInt8} {pos : Nat}
    (h : Represents g enc c (.keystream ks pos)) (out : Bytes) {inp : Bytes}
    (hlen : inp.length ≤ bufSize) :
    ∃ g' c', cipherUpdate g c out inp = (g', c', Keystream.xorAt ks pos inp) ∧
      Represents g' enc c' (.keystream ks (pos + inp.length)) ∧
      g'.config = g.config ∧ c'.iv = c.iv := by
  obtain ⟨hc, hst, hm, rfl, hic, hrem⟩ := h
  have hfit := padding_le hrem hlen
  have hload : front (memcpy g.sodiumBuf c.bytesRemaining inp) (c.bytesRemaining + inp.length) =
      front g.sodiumBuf c.bytesRemaining ++ inp := front_memcpy _ hfit
  have hstale : (front g.sodiumBuf c.bytesRemaining).length = c.bytesRemaining :=
    length_front _ (by omega)
  have hxlen : (xorIc g c (front g.sodiumBuf c.bytesRemaining ++ inp)).length =
      c.bytesRemaining + inp.length := by
    rw [length_xorIc hm hic, List.length_append, hstale]
  have hout : (front (memcpy (memcpy g.sodiumBuf c.bytesRemaining inp) 0
      (xorIc g c (front g.sodiumBuf c.bytesRemaining ++ inp)))
        (c.bytesRemaining + inp.length)).drop c.bytesRemaining =
      Keystream.xorAt (g.keystream (front c.iv 8)) pos inp := by
    have hxor : (xorIc g c (front g.sodiumBuf c.bytesRemaining ++ inp)).drop _ = _ :=
      xorIc_padded hm hic (hstale.trans hrem)
    rw [hstale] at hxor
    rw [← hxlen, front_memcpy_zero _ (by rw [hxlen]; exact hfit), hxor]
  have hctr : UInt64.ofNat (pos / sodiumBlockSize) +
      UInt64.ofNat ((c.bytesRemaining + inp.length) / sodiumBlockSize) =
      UInt64.ofNat ((pos + inp.length) / sodiumBlockSize) := by
    rw [← UInt64.ofNat_add, hrem]
    congr 1
    simp only [sodiumBlockSize]
    omega
  let scratch := memcpy (memcpy g.sodiumBuf c.bytesRemaining inp) 0
    (xorIc g c (front g.sodiumBuf c.bytesRemaining ++ inp))
  have hcall : cipherUpdate g c out inp =
      ({ g with sodiumBuf := scratch },
        { c with
          ic := c.ic + UInt64.ofNat ((c.bytesRemaining + inp.length) / sodiumBlockSize)
          bytesRemaining := (c.bytesRemaining + inp.length) % sodiumBlockSize },
        Keystream.xorAt (g.keystream (front c.iv 8)) pos inp) := by
    simp only [cipherUpdate, hc, hload, hout, scratch]
  clear_value scratch
  refine ⟨_, _, hcall, ⟨hc, hst, hm, ?_, ?_, ?_⟩, ?_, ?_⟩
  · simp only [Globals.keystream]
  · rw [hic, hctr]
  · simp only [hrem, sodiumBlockSize]
    omega
  · simp only [Globals.config]
  · rfl

theorem cipherUpdate_represents (hS : S.Lawful) {k : CipherStream S} (h : Represents g enc c k)
    (hc : c.cipher ≠ .table) (out : Bytes) {inp : Bytes} (hlen : inp.length ≤ bufSize) :
    ∃ g' c', cipherUpdate g c out inp = (g', c', (k.push inp).2) ∧
      Represents g' enc c' (k.push inp).1 ∧ g'.config = g.config ∧ c'.iv = c.iv := by
  cases k with
  | table t => exact absurd h.1 hc
  | keystream ks pos => exact cipherUpdate_sodium h out hlen
  | evp ctx =>
    obtain ⟨hc, hst, rfl, hk⟩ := h
    obtain ⟨ctx', o, hu, -⟩ := hS.update_total inp hk
    refine ⟨g, { c with ctx := ctx' }, ?_, ?_, rfl, rfl⟩
    · simp only [cipherUpdate, hc, hu, CipherStream.push]
    · simpa only [CipherStream.push, hu] using ⟨hc, hst, rfl, hk.update hu⟩

/-! The first call on a fresh context. -/

theorem ivLen_le (method : Method) : encryptionIvLen method ≤ 16 := by
  revert method
  decide

/-- The stream that the first call opens under an iv. -/
def CipherStream.start (g : Globals S) (enc : Bool) (iv : Bytes) : CipherStream S :=
  match g.cipher with
  | .table => .table (g.tableFor enc)
  | .sodium => .keystream (g.keystream (iv.take 8)) 0
  | .openssl =>
    let setup := S.evpCipherSetup g.evpCipher enc
    match S.evpCipherCtxSetKeyLength setup g.keyLen with
    | none => .evp setup
    | some sized =>
      .evp (S.evpCipherSetKey sized ((trueKey g iv).take g.keyLen) (S.ivBytes g.evpCipher iv))

/-- A context as `init_encryption` leaves it under the configuration in force. -/
def Fresh (g : Globals S) (c : EncryptionCtx S) : Prop :=
  c.status = .empty ∧ c.cipher = g.cipher

theorem fresh_initEncryption (g : Globals S) (mem : EncryptionCtx S) :
    Fresh g (initEncryption g mem) := ⟨rfl, rfl⟩

theorem length_trueKey (hS : S.Lawful) (g : Globals S) (iv : Bytes) :
    g.method = encryptionRc4Md5 ∧ (trueKey g iv).length = 16 ∨
      g.method ≠ encryptionRc4Md5 ∧ (trueKey g iv).length = 64 := by
  by_cases hm : g.method = encryptionRc4Md5
  · exact Or.inl ⟨hm, by rw [trueKey, if_pos hm, hS.md5_length]⟩
  · exact Or.inr ⟨hm, by rw [trueKey, if_neg hm]; simp⟩

/-- In a configured state `init_cipher` succeeds and keys the cipher. -/
theorem start_openssl (hS : S.Lawful) (hg : g.Configured) (hc : g.cipher = .openssl) (enc : Bool)
    {iv : Bytes} (hiv : encryptionIvLen g.method ≤ iv.length) :
    ∃ cipher sized, g.evpCipher = some cipher ∧
      S.evpCipherCtxSetKeyLength (S.evpCipherSetup g.evpCipher enc) g.keyLen = some sized ∧
      S.KeyedWith cipher ((trueKey g iv).take g.keyLen) (S.ivBytes g.evpCipher iv) enc
        (S.evpCipherSetKey sized ((trueKey g iv).take g.keyLen) (S.ivBytes g.evpCipher iv)) := by
  simp only [Globals.Configured, hc] at hg
  obtain ⟨cipher, ⟨name, hname⟩, hcipher, hkey, hivlen, hrc4⟩ := hg
  obtain ⟨sized, hsized⟩ := hS.setKeyLength_self name cipher enc hname
  have hkeylen : ((trueKey g iv).take g.keyLen).length = g.keyLen := by
    have := hS.keyLength_le cipher
    rw [List.length_take]
    rcases length_trueKey hS g iv with ⟨hm, hl⟩ | ⟨-, hl⟩
    · rw [hl, hrc4 hm]; rfl
    · rw [hl]; omega
  refine ⟨cipher, sized, hcipher, by rw [hcipher, hkey, hsized], ?_, sized, ?_, rfl⟩
  · simp only [OpenSSL.ivBytes, hcipher, Option.elim_some, List.length_take]
    omega
  · rw [hkeylen, hkey, hsized]

/-- A fresh context whose iv has been filled in carries the stream of that iv after
`init_cipher`. -/
theorem initCipher_represents (hS : S.Lawful) (hg : g.Configured) (hf : Fresh g c)
    (hc : c.cipher ≠ .table) (enc : Bool) :
    Represents g enc (initCipher g c c.iv.toList enc) (.start g enc c.iv.toList) := by
  obtain ⟨hst, hfam⟩ := hf
  cases hfam' : g.cipher with
  | table => exact absurd (hfam.trans hfam') hc
  | sodium =>
    have hm : IsSodium g.method := by simpa only [Globals.Configured, hfam'] using hg
    simp only [CipherStream.start, initCipher, hfam, hfam']
    exact ⟨rfl, rfl, hm, by simp [front], rfl, rfl⟩
  | openssl =>
    have hiv : encryptionIvLen g.method ≤ c.iv.toList.length := by
      rw [Vector.length_toList]
      exact ivLen_le g.method
    obtain ⟨cipher, sized, hcipher, hsized, hkeyed⟩ := start_openssl hS hg hfam' enc hiv
    simp only [CipherStream.start, initCipher, hfam, hfam', hsized]
    exact ⟨rfl, rfl, rfl, .start hkeyed⟩

theorem ivLen_of_sodium {method : Method} (hm : IsSodium method) : encryptionIvLen method = 8 := by
  rcases hm with hm | hm <;> rw [hm] <;> decide

theorem ivLen_of_table (hg : g.Configured) (hc : g.cipher = .table) :
    encryptionIvLen g.method = 0 := by
  have hm : g.method = encryptionTable := by simpa only [Globals.Configured, hc] using hg
  rw [hm]
  decide

/-- Only the iv bytes that the method asks for matter. -/
theorem CipherStream.start_take (hg : g.Configured) (enc : Bool) (iv : Bytes) :
    start g enc (iv.take (encryptionIvLen g.method)) = start g enc iv := by
  cases hfam : g.cipher with
  | table => simp only [start, hfam]
  | sodium =>
    have hm : IsSodium g.method := by simpa only [Globals.Configured, hfam] using hg
    simp only [start, hfam, ivLen_of_sodium hm, List.take_take, Nat.min_self]
  | openssl =>
    simp only [Globals.Configured, hfam] at hg
    obtain ⟨cipher, -, hcipher, -, hivlen, -⟩ := hg
    have hbytes : S.ivBytes g.evpCipher (iv.take (encryptionIvLen g.method)) =
        S.ivBytes g.evpCipher iv := by
      rw [OpenSSL.ivBytes, OpenSSL.ivBytes, hcipher, Option.elim_some, List.take_take,
        Nat.min_eq_left hivlen]
    have hkey : trueKey g (iv.take (encryptionIvLen g.method)) = trueKey g iv := by
      by_cases hm : g.method = encryptionRc4Md5
      · have hlen : encryptionIvLen g.method = 16 := by rw [hm]; decide
        simp only [trueKey, hlen, List.take_take, Nat.min_self]
      · simp only [trueKey, if_neg hm]
    simp only [start, hfam, hbytes, hkey]

@[simp] theorem length_drawn (source : Nat → UInt8) (n : Nat) : (drawn source n).length = n := by
  simp [drawn]

theorem front_storeIv (c : EncryptionCtx S) {iv : Bytes} {method : Method}
    (hiv : iv.length = encryptionIvLen method) :
    front (c.storeIv iv).iv (encryptionIvLen method) = iv := by
  have hle : iv.length ≤ 16 := hiv ▸ ivLen_le method
  rw [← hiv]
  exact front_memcpy_zero _ hle

@[simp] theorem initCipher_iv (g : Globals S) (c : EncryptionCtx S) (iv : Bytes) (enc : Bool) :
    (initCipher g c iv enc).iv = c.iv := by
  simp only [initCipher, cleanupEncryption]
  split
  · split <;> rfl
  · rfl
  · rfl

@[simp] theorem initCipher_cipher (g : Globals S) (c : EncryptionCtx S) (iv : Bytes) (enc : Bool) :
    (initCipher g c iv enc).cipher = c.cipher := by
  simp only [initCipher, cleanupEncryption]
  split
  · split <;> rfl
  · rfl
  · rfl

theorem Fresh.storeIv (h : Fresh g c) (iv : Bytes) : Fresh g (c.storeIv iv) := ⟨h.1, h.2⟩

/-- The first call on a fresh context: fill in the iv, key the cipher, transform. -/
theorem firstCall (hS : S.Lawful) (hg : g.Configured) (hf : Fresh g c) (hc : c.cipher ≠ .table)
    (enc : Bool) {iv : Bytes} (hiv : iv.length = encryptionIvLen g.method) (out : Bytes)
    {inp : Bytes} (hlen : inp.length ≤ bufSize) :
    ∃ g' c', cipherUpdate g (initCipher g (c.storeIv iv) (c.storeIv iv).iv.toList enc) out inp =
        (g', c', ((CipherStream.start g enc iv).push inp).2) ∧
      Represents g' enc c' ((CipherStream.start g enc iv).push inp).1 ∧
      g'.config = g.config ∧ front c'.iv (encryptionIvLen g.method) = iv := by
  have hfront := front_storeIv c hiv
  have hrep := initCipher_represents hS hg (hf.storeIv iv) hc enc
  rw [← CipherStream.start_take hg, ← front, hfront] at hrep
  have hc' : (initCipher g (c.storeIv iv) (c.storeIv iv).iv.toList enc).cipher ≠ .table := by
    rwa [initCipher_cipher]
  obtain ⟨g', c', hcall, hrep', hcfg, hiv'⟩ := cipherUpdate_represents hS hrep hc' out hlen
  exact ⟨g', c', hcall, hrep', hcfg, by rw [hiv', initCipher_iv, hfront]⟩

/-- A table context has no iv and carries its stream from the start. -/
theorem represents_table (hg : g.Configured) (hf : Fresh g c) (hc : c.cipher = .table)
    (enc : Bool) {iv : Bytes} (hiv : iv.length = encryptionIvLen g.method) :
    iv = [] ∧ CipherStream.start g enc iv = .table (g.tableFor enc) ∧
      Represents g enc c (.start g enc iv) := by
  have hfam : g.cipher = .table := hf.2.symm.trans hc
  have hstart : CipherStream.start g enc iv = .table (g.tableFor enc) := by
    simp only [CipherStream.start, hfam]
  refine ⟨List.eq_nil_of_length_eq_zero (hiv.trans (ivLen_of_table hg hfam)), hstart, ?_⟩
  rw [hstart]
  exact ⟨hc, rfl⟩

/-- The first call draws the iv and puts it in front of the encryption of its input. -/
theorem encryptBuf_fresh (hS : S.Lawful) (hg : g.Configured) (hf : Fresh g c) (amb : Ambient)
    {buf iv : Bytes} (hlen : buf.length ≤ bufSize)
    (hiv : iv = drawn amb.rand (encryptionIvLen g.method)) :
    ∃ g' c', encryptBuf amb g c buf = (g', c', iv ++ ((CipherStream.start g true iv).push buf).2) ∧
      Represents g' true c' ((CipherStream.start g true iv).push buf).1 ∧
      g'.config = g.config := by
  have hivlen : iv.length = encryptionIvLen g.method := by rw [hiv, length_drawn]
  by_cases hc : c.cipher = .table
  · obtain ⟨rfl, hstart, hrep⟩ := represents_table hg hf hc true hivlen
    rw [hstart] at hrep ⊢
    exact ⟨g, c, by simp [encryptBuf, hc, CipherStream.push, Globals.tableFor], hrep, rfl⟩
  · obtain ⟨g', c', hcall, hrep, hcfg, hfront⟩ := firstCall hS hg hf hc true hivlen
      (drawn amb.heap (buf.length +
        (initCipher g (c.storeIv iv) (c.storeIv iv).iv.toList true).ivLen)) hlen
    refine ⟨g', c', ?_, hrep, hcfg⟩
    rw [encryptBuf, if_neg hc, if_pos hf.1]
    simp only [← hiv, hcall, hfront]

/-- Apart from the table family a running context is past its first call. -/
theorem Represents.cases {k : CipherStream S} (h : Represents g enc c k) :
    c.cipher = .table ∧ k = .table (g.tableFor enc) ∨ c.cipher ≠ .table ∧ c.status ≠ .empty := by
  cases k with
  | table t => exact Or.inl ⟨h.1, by rw [h.2]⟩
  | keystream ks pos => exact Or.inr ⟨by rw [h.1]; decide, by rw [h.2.1]; decide⟩
  | evp ctx => exact Or.inr ⟨by rw [h.1]; decide, by rw [h.2.1]; decide⟩

/-- Every later call pushes its input through the stream. -/
theorem encryptBuf_represents (hS : S.Lawful) {k : CipherStream S} (h : Represents g true c k)
    (amb : Ambient) {buf : Bytes} (hlen : buf.length ≤ bufSize) :
    ∃ g' c', encryptBuf amb g c buf = (g', c', (k.push buf).2) ∧
      Represents g' true c' (k.push buf).1 ∧ g'.config = g.config := by
  rcases h.cases with ⟨hc, rfl⟩ | ⟨hc, hst⟩
  · exact ⟨g, c, by simp [encryptBuf, hc, CipherStream.push, Globals.tableFor], h, rfl⟩
  · obtain ⟨g', c', hcall, hrep, hcfg, -⟩ := cipherUpdate_represents hS h hc _ hlen
    exact ⟨g', c', by rw [encryptBuf, if_neg hc, if_neg hst, hcall], hrep, hcfg⟩

/-- The first piece that arrives holds the whole iv, which is taken off its front. -/
theorem decryptBuf_fresh (hS : S.Lawful) (hg : g.Configured) (hf : Fresh g c) (amb : Ambient)
    {iv m : Bytes} (hiv : iv.length = encryptionIvLen g.method)
    (hlen : (iv ++ m).length ≤ bufSize) :
    ∃ g' c', decryptBuf amb g c (iv ++ m) =
        some (g', c', ((CipherStream.start g false iv).push m).2) ∧
      Represents g' false c' ((CipherStream.start g false iv).push m).1 ∧
      g'.config = g.config := by
  by_cases hc : c.cipher = .table
  · obtain ⟨rfl, hstart, hrep⟩ := represents_table hg hf hc false hiv
    rw [hstart] at hrep ⊢
    exact ⟨g, c, by simp [decryptBuf, hc, CipherStream.push, Globals.tableFor], hrep, rfl⟩
  · have hmlen : m.length ≤ bufSize := by
      rw [List.length_append] at hlen
      omega
    obtain ⟨g', c', hcall, hrep, hcfg, -⟩ := firstCall hS hg hf hc false hiv
      (drawn amb.heap ((iv ++ m).length +
        (initCipher g (c.storeIv iv) (c.storeIv iv).iv.toList false).ivLen -
          encryptionIvLen g.method)) hmlen
    refine ⟨g', c', ?_, hrep, hcfg⟩
    have hge : ¬ (iv ++ m).length < encryptionIvLen g.method := by
      rw [List.length_append, hiv]
      omega
    rw [decryptBuf, if_neg hc, if_pos hf.1]
    simp only [if_neg hge]
    rw [List.take_left' hiv, List.drop_left' hiv, hcall]

theorem decryptBuf_short (hg : g.Configured) (hf : Fresh g c) (amb : Ambient) {buf : Bytes}
    (hiv : buf.length < encryptionIvLen g.method) : decryptBuf amb g c buf = none := by
  have hc : c.cipher ≠ .table := by
    intro hc
    rw [ivLen_of_table hg (hf.2.symm.trans hc)] at hiv
    exact Nat.not_lt_zero _ hiv
  rw [decryptBuf, if_neg hc, if_pos hf.1]
  simp only [if_pos hiv]

theorem decryptBuf_represents (hS : S.Lawful) {k : CipherStream S} (h : Represents g false c k)
    (amb : Ambient) {buf : Bytes} (hlen : buf.length ≤ bufSize) :
    ∃ g' c', decryptBuf amb g c buf = some (g', c', (k.push buf).2) ∧
      Represents g' false c' (k.push buf).1 ∧ g'.config = g.config := by
  rcases h.cases with ⟨hc, rfl⟩ | ⟨hc, hst⟩
  · exact ⟨g, c, by simp [decryptBuf, hc, CipherStream.push, Globals.tableFor], h, rfl⟩
  · obtain ⟨g', c', hcall, hrep, hcfg, -⟩ := cipherUpdate_represents hS h hc _ hlen
    exact ⟨g', c', by rw [decryptBuf, if_neg hc, if_neg hst, hcall], hrep, hcfg⟩

end Shadowsocks
