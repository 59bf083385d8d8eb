import Shadowsocks.Library.Checked
import Shadowsocks.Cipher.Scratch

/-!
encrypt.c with every access checked against the block it goes to: the caller's buffer, `ctx->iv`,
`sodium_buf` and the block that `malloc` returns for the output.
-/
namespace Shadowsocks

open Memory

variable {S : OpenSSL}

/-- What `malloc(n)` returns, or an array of `n` bytes on the stack. -/
def Ambient.block (amb : Ambient) (n : Nat) : Vector UInt8 n := Vector.ofFn fun i => amb.heap i

/-- Sum and difference of two `size_t`. -/
def sizeAdd (a b : Nat) : Nat := (a + b) % 2 ^ 64

def sizeSub (a b : Nat) : Nat := (a + 2 ^ 64 - b) % 2 ^ 64

theorem sizeAdd_of_lt {a b : Nat} (h : a + b < 2 ^ 64) : sizeAdd a b = a + b := Nat.mod_eq_of_lt h

theorem sizeSub_of_le {a b : Nat} (h : b ≤ a) (ha : a < 2 ^ 64) : sizeSub a b = a - b := by
  rw [sizeSub]
  omega

/-- A difference that wraps is larger than every buffer. -/
theorem sizeSub_of_lt {a b : Nat} (h : a < b) (hb : b ≤ 2 ^ 64) : sizeSub a b = 2 ^ 64 + a - b := by
  rw [sizeSub]
  omega

/-- A context between two calls, of which the first has set `iv_len`. -/
def EncryptionCtx.Sound (g : Globals S) (enc : Bool) (c : EncryptionCtx S) : Prop :=
  Fresh g c ∨ (∃ k, Represents g enc c k) ∧ (c.cipher ≠ .table → c.ivLen ≤ 16)

variable {g g' : Globals S} {c : EncryptionCtx S} {enc : Bool} {n : Nat}

theorem Fresh.sound (h : Fresh g c) (enc : Bool) : c.Sound g enc := Or.inl h

theorem EncryptionCtx.Sound.fresh (h : c.Sound g enc) (hc : c.cipher ≠ .table)
    (hst : c.status = .empty) : Fresh g c := by
  rcases h with hfresh | ⟨⟨k, hrep⟩, -⟩
  · exact hfresh
  · rcases hrep.cases with ⟨htable, -⟩ | ⟨-, hne⟩
    · exact absurd htable hc
    · exact absurd hst hne

theorem EncryptionCtx.Sound.running (h : c.Sound g enc) (hc : c.cipher ≠ .table)
    (hst : c.status ≠ .empty) : (∃ k, Represents g enc c k) ∧ c.ivLen ≤ 16 := by
  rcases h with hfresh | ⟨hrep, hiv⟩
  · exact absurd hfresh.1 hst
  · exact ⟨hrep, hiv hc⟩

theorem ivLen_cipherUpdate (g : Globals S) (c : EncryptionCtx S) (out inp : Bytes) :
    (cipherUpdate g c out inp).2.1.ivLen = c.ivLen := by
  simp only [cipherUpdate]
  split
  · split <;> rfl
  · rfl
  · rfl

/-- `init_cipher` sets `iv_len` unless it gives up. -/
theorem ivLen_initCipher {iv : Bytes} (h : (initCipher g c iv enc).status = .init) :
    (initCipher g c iv enc).ivLen = encryptionIvLen g.method := by
  simp only [initCipher, cleanupEncryption, if_true] at h ⊢
  split at h
  · split at h
    · cases h
    · rfl
  · rfl
  · rfl

/-- A fresh context after `init_cipher`. -/
theorem Fresh.opened (hS : S.Lawful) (hg : g.Configured) (hf : Fresh g c) (hc : c.cipher ≠ .table)
    (enc : Bool) {iv : Bytes} (hiv : iv.length = encryptionIvLen g.method) :
    (∃ k, Represents g enc (c.opened g iv enc) k) ∧ (c.opened g iv enc).cipher ≠ .table ∧
      (c.opened g iv enc).ivLen = encryptionIvLen g.method := by
  have hfront := front_storeIv c hiv
  have hrep := initCipher_represents hS hg (hf.storeIv iv) hc enc
  rw [← CipherStream.start_take hg, ← front, hfront] at hrep
  have hcipher : (c.opened g iv enc).cipher ≠ .table := by
    rw [EncryptionCtx.opened, initCipher_cipher]
    exact hc
  refine ⟨⟨_, hrep⟩, hcipher, ivLen_initCipher ?_⟩
  cases hk : CipherStream.start g enc iv with
  | table t =>
    rw [hk] at hrep
    exact absurd hrep.1 hcipher
  | keystream ks pos =>
    rw [hk] at hrep
    exact hrep.2.1
  | evp ctx =>
    rw [hk] at hrep
    exact hrep.2.1

namespace Guarded

/-- `out` is a block of `n` bytes. The last two results are what it holds and `*outlen`. -/
def cipherUpdate {n : Nat} (g : Globals S) (c : EncryptionCtx S) (out : Vector UInt8 n)
    (outLen : Nat) (inp : Bytes) :
    Option (Globals S × EncryptionCtx S × Vector UInt8 n × Nat) :=
  match c.cipher with
  | .openssl =>
    match S.evpCipherUpdate c.ctx inp with
    | none => some (g, c, out, outLen)
    | some (ctx, bytes) => do
      let out ← store out 0 bytes
      some (g, { c with ctx := ctx }, out, bytes.length)
  | .sodium => do
    let padding := c.bytesRemaining
    let sodiumBuf ← store g.sodiumBuf padding inp
    let m ← load sodiumBuf 0 (padding + inp.length)
    let sodiumBuf ← store sodiumBuf 0 (xorIc g c m)
    let piece ← load sodiumBuf padding inp.length
    let out ← store out 0 piece
    let padding := padding + inp.length
    some ({ g with sodiumBuf := sodiumBuf },
      { c with
        ic := c.ic + UInt64.ofNat (padding / sodiumBlockSize)
        bytesRemaining := padding % sodiumBlockSize },
      out, inp.length)
  | .table => some (g, c, out, outLen)

def encryptBuf {n : Nat} (amb : Ambient) (g : Globals S) (c : EncryptionCtx S)
    (buf : Vector UInt8 n) (len : Nat) :
    Option (Globals S × EncryptionCtx S × Vector UInt8 n × Nat) :=
  if c.cipher = .table then do
    let bytes ← load buf 0 len
    let buf ← store buf 0 (Table.substitute g.encryptTable bytes)
    some (g, c, buf, len)
  else if c.status = .empty then do
    let ivLen := encryptionIvLen g.method
    let iv ← store c.iv 0 (drawn amb.rand ivLen)
    let c := initCipher g { c with iv := iv } iv.toList true
    let inp ← load buf 0 len
    let outLen := sizeAdd len c.ivLen
    let (g, c, cipherText, outLen) ← cipherUpdate g c (amb.block outLen) outLen inp
    let iv ← load c.iv 0 ivLen
    let buf ← store buf 0 iv
    let bytes ← load cipherText 0 outLen
    let buf ← store buf ivLen bytes
    some (g, c, buf, sizeAdd ivLen outLen)
  else do
    let inp ← load buf 0 len
    let outLen := sizeAdd len c.ivLen
    let (g, c, cipherText, outLen) ← cipherUpdate g c (amb.block outLen) outLen inp
    let bytes ← load cipherText 0 outLen
    let buf ← store buf 0 bytes
    some (g, c, buf, outLen)

/-- A length that wraps reads past every buffer, unless OpenSSL, to which it is a negative `int`,
stops at once; that case is counted as an access outside all the same. -/
def decryptBuf {n : Nat} (amb : Ambient) (g : Globals S) (c : EncryptionCtx S)
    (buf : Vector UInt8 n) (len : Nat) :
    Option (Globals S × EncryptionCtx S × Vector UInt8 n × Nat) :=
  if c.cipher = .table then do
    let bytes ← load buf 0 len
    let buf ← store buf 0 (Table.substitute g.decryptTable bytes)
    some (g, c, buf, len)
  else if c.status = .empty then do
    let ivLen := encryptionIvLen g.method
    let bytes ← load buf 0 ivLen
    let iv ← store c.iv 0 bytes
    let c := initCipher g { c with iv := iv } iv.toList false
    let outLen := sizeSub (sizeAdd len c.ivLen) ivLen
    let inp ← load buf ivLen (sizeSub len ivLen)
    let (g, c, cipherText, outLen) ← cipherUpdate g c (amb.block outLen) outLen inp
    let bytes ← load cipherText 0 outLen
    let buf ← store buf 0 bytes
    some (g, c, buf, outLen)
  else do
    let inp ← load buf 0 len
    let outLen := sizeAdd len c.ivLen
    let (g, c, cipherText, outLen) ← cipherUpdate g c (amb.block outLen) outLen inp
    let bytes ← load cipherText 0 outLen
    let buf ← store buf 0 bytes
    some (g, c, buf, outLen)

/-- A running context stays within `sodium_buf` and within a block as long as the input. -/
theorem cipherUpdate_eq (hS : S.Lawful) {k : CipherStream S} (h : Represents g enc c k)
    (hc : c.cipher ≠ .table) (out : Vector UInt8 n) (outLen : Nat) (stale : Bytes) {inp : Bytes}
    (hlen : inp.length ≤ bufSize) (hn : inp.length ≤ n) :
    cipherUpdate g c out outLen inp =
      some ((Shadowsocks.cipherUpdate g c stale inp).1, (Shadowsocks.cipherUpdate g c stale inp).2.1,
        memcpy out 0 (Shadowsocks.cipherUpdate g c stale inp).2.2, inp.length) := by
  cases k with
  | table t => exact absurd h.1 hc
  | evp ctx =>
    obtain ⟨hc, -, rfl, hk⟩ := h
    obtain ⟨ctx', bytes, hupdate, hbytes⟩ := hS.update_total inp hk
    have hfits : bytes.length ≤ n := by omega
    simp [cipherUpdate, Shadowsocks.cipherUpdate, hc, hupdate, store_zero hfits, hbytes]
  | keystream ks pos =>
    obtain ⟨hc, -, hm, -, hic, hrem⟩ := h
    have hfits := padding_le hrem hlen
    have hload : load (memcpy g.sodiumBuf c.bytesRemaining inp) 0 (c.bytesRemaining + inp.length) =
        some (front (memcpy g.sodiumBuf c.bytesRemaining inp) (c.bytesRemaining + inp.length)) :=
      load_front hfits
    generalize hloaded : memcpy g.sodiumBuf c.bytesRemaining inp = loaded at hload
    have hxor := length_xorIc hm hic (front loaded (c.bytesRemaining + inp.length))
    rw [length_front _ hfits] at hxor
    generalize hxored : xorIc g c (front loaded (c.bytesRemaining + inp.length)) = m at hxor
    have hstore : store loaded 0 m = some (memcpy loaded 0 m) := by
      apply store_zero
      omega
    have hpiece : load (memcpy loaded 0 m) c.bytesRemaining inp.length =
        some ((front (memcpy loaded 0 m) (c.bytesRemaining + inp.length)).drop c.bytesRemaining) :=
      load_drop hfits
    have hout : store out 0
        ((front (memcpy loaded 0 m) (c.bytesRemaining + inp.length)).drop c.bytesRemaining) =
        some (memcpy out 0
          ((front (memcpy loaded 0 m) (c.bytesRemaining + inp.length)).drop c.bytesRemaining)) := by
      apply store_zero
      rw [List.length_drop, length_front _ hfits]
      omega
    simp only [cipherUpdate, Shadowsocks.cipherUpdate, hc, store_of_le hfits, hloaded, hload, hxored,
      hstore, hpiece, hout, Option.bind_eq_bind, Option.bind_some]

/-- One call of `cipher_update` under an unchecked one of the model. -/
theorem cipherUpdate_sound (hS : S.Lawful) (h : ∃ k, Represents g enc c k) (hc : c.cipher ≠ .table)
    (hiv : c.ivLen ≤ 16) (amb : Ambient) (stale inp : Bytes) (outLen : Nat)
    (hlen : inp.length ≤ bufSize) (hout : inp.length ≤ outLen) :
    ∃ g' c' bytes, Shadowsocks.cipherUpdate g c stale inp = (g', c', bytes) ∧
      cipherUpdate g c (amb.block outLen) outLen inp =
        some (g', c', memcpy (amb.block outLen) 0 bytes, bytes.length) ∧
      load (memcpy (amb.block outLen) 0 bytes) 0 bytes.length = some bytes ∧
      bytes.length = inp.length ∧ c'.Sound g' enc ∧ g'.config = g.config ∧ c'.iv = c.iv := by
  obtain ⟨k, hrep⟩ := h
  obtain ⟨g', c', hcall, hrep', hconfig, hivEq⟩ := cipherUpdate_represents hS hrep hc stale hlen
  have hbytes := CipherStream.length_push hS hrep.usable inp
  have hguarded := cipherUpdate_eq hS hrep hc (amb.block outLen) outLen stale hlen hout
  have hivLen := ivLen_cipherUpdate g c stale inp
  rw [hcall] at hguarded hivLen
  refine ⟨g', c', _, hcall, ?_, ?_, hbytes, Or.inr ⟨⟨_, hrep'⟩, fun _ => ?_⟩, hconfig, hivEq⟩
  · rw [hguarded, hbytes]
  · rw [load_front (by omega), front_memcpy_zero _ (by omega)]
  · rw [hivLen]
    exact hiv

/-- The bytes of a context that has been opened are replaced where they are. -/
theorem encryptBuf_later_eq (hS : S.Lawful) (h : c.Sound g enc) (hc : c.cipher ≠ .table)
    (hst : c.status ≠ .empty) (amb : Ambient) (buf : Vector UInt8 n) {len : Nat}
    (hlen : len ≤ bufSize) (hn : len ≤ n) :
    ∃ g' c' out, Shadowsocks.encryptBuf amb g c (front buf len) = (g', c', out) ∧
      encryptBuf amb g c buf len = some (g', c', memcpy buf 0 out, out.length) ∧
      out.length ≤ len ∧ c'.Sound g' enc ∧ g'.config = g.config := by
  have hbytes : (front buf len).length = len := length_front buf hn
  have hload : load buf 0 len = some (front buf len) := load_front hn
  have hsize : bufSize = 1500 := rfl
  obtain ⟨hrep, hiv⟩ := h.running hc hst
  obtain ⟨g', c', out, hcall, hguarded, hread, hlength, hsound, hconfig, -⟩ :=
    cipherUpdate_sound hS hrep hc hiv amb (drawn amb.heap ((front buf len).length + c.ivLen))
      (front buf len) (len + c.ivLen) (by omega) (by omega)
  refine ⟨g', c', out, ?_, ?_, by omega, hsound, hconfig⟩
  · rw [encryptBuf_later hc hst, hcall]
  · have hadd : sizeAdd len c.ivLen = len + c.ivLen := sizeAdd_of_lt (by omega)
    have hstore : store buf 0 out = some (memcpy buf 0 out) := store_zero (by omega)
    rw [encryptBuf, if_neg hc, if_neg hst, hload, hadd]
    simp only [Option.bind_eq_bind, Option.bind_some, hguarded, hread, hstore]

/-- The first call puts the iv before the bytes. -/
theorem encryptBuf_first_eq (hS : S.Lawful) (hg : g.Configured) (h : c.Sound g true)
    (hc : c.cipher ≠ .table) (hst : c.status = .empty) (amb : Ambient) (buf : Vector UInt8 n)
    {len : Nat} (hlen : len ≤ bufSize) (hn : len + 16 ≤ n) :
    ∃ g' c' out, Shadowsocks.encryptBuf amb g c (front buf len) = (g', c', out) ∧
      encryptBuf amb g c buf len = some (g', c', memcpy buf 0 out, out.length) ∧
      out.length ≤ len + 16 ∧ c'.Sound g' true ∧ g'.config = g.config := by
  have hbytes : (front buf len).length = len := length_front buf (by omega)
  have hload : load buf 0 len = some (front buf len) := load_front (by omega)
  have hsize : bufSize = 1500 := rfl
  have hivle := ivLen_le g.method
  have hdrawn := length_drawn amb.rand (encryptionIvLen g.method)
  obtain ⟨hrep, hcipher, hiv⟩ := (h.fresh hc hst).opened hS hg hc true hdrawn
  obtain ⟨g', c', out, hcall, hguarded, hread, hlength, hsound, hconfig, hiv'⟩ :=
    cipherUpdate_sound hS hrep hcipher (by omega) amb
      (drawn amb.heap ((front buf len).length +
        (c.opened g (drawn amb.rand (encryptionIvLen g.method)) true).ivLen))
      (front buf len) (len + encryptionIvLen g.method) (by omega) (by omega)
  have hfirst := encryptBuf_first hc hst amb g (front buf len)
  generalize hopened : c.opened g (drawn amb.rand (encryptionIvLen g.method)) true = opened
    at hcall hguarded hrep hcipher hiv hfirst
  have hhead : (front c'.iv (encryptionIvLen g.method)).length = encryptionIvLen g.method :=
    length_front _ hivle
  refine ⟨g', c', front c'.iv (encryptionIvLen g.method) ++ out, ?_, ?_, ?_, hsound, hconfig⟩
  · simp only [hfirst, hcall]
  · have hdraw : store c.iv 0 (drawn amb.rand (encryptionIvLen g.method)) =
        some (memcpy c.iv 0 (drawn amb.rand (encryptionIvLen g.method))) :=
      store_zero (by omega)
    have hkeyed : initCipher g
        { c with iv := memcpy c.iv 0 (drawn amb.rand (encryptionIvLen g.method)) }
        (memcpy c.iv 0 (drawn amb.rand (encryptionIvLen g.method))).toList true = opened :=
      hopened
    have hadd : sizeAdd len opened.ivLen = len + encryptionIvLen g.method := by
      rw [hiv, sizeAdd_of_lt (by omega)]
    have htotal : sizeAdd (encryptionIvLen g.method) out.length =
        encryptionIvLen g.method + out.length := sizeAdd_of_lt (by omega)
    have hivload : load c'.iv 0 (encryptionIvLen g.method) =
        some (front c'.iv (encryptionIvLen g.method)) := load_front hivle
    have hivstore : store buf 0 (front c'.iv (encryptionIvLen g.method)) =
        some (memcpy buf 0 (front c'.iv (encryptionIvLen g.method))) := store_zero (by omega)
    have hstore : store (memcpy buf 0 (front c'.iv (encryptionIvLen g.method)))
        (encryptionIvLen g.method) out =
        some (memcpy buf 0 (front c'.iv (encryptionIvLen g.method) ++ out)) :=
      store_memcpy buf _ hhead.symm (by omega)
    rw [encryptBuf, if_neg hc, if_pos hst]
    simp only [hdraw, Option.bind_eq_bind, Option.bind_some, hload]
    rw [hkeyed, hadd]
    simp only [hguarded, Option.bind_some, hivload, hivstore, hread, hstore, htotal,
      List.length_append, hhead]
  · rw [List.length_append, hhead]
    omega

/-- Within one configuration `encrypt_buf` does the same on a buffer with room for an iv, and stays
inside of it. -/
theorem encryptBuf_eq (hS : S.Lawful) (hg : g.Configured) (h : c.Sound g true) (amb : Ambient)
    (buf : Vector UInt8 n) {len : Nat} (hlen : len ≤ bufSize) (hn : len + 16 ≤ n) :
    ∃ g' c' out, Shadowsocks.encryptBuf amb g c (front buf len) = (g', c', out) ∧
      encryptBuf amb g c buf len = some (g', c', memcpy buf 0 out, out.length) ∧
      out.length ≤ len + 16 ∧ c'.Sound g' true ∧ g'.config = g.config := by
  by_cases hc : c.cipher = .table
  · have hout : (Table.substitute g.encryptTable (front buf len)).length = len := by
      rw [Table.substitute, List.length_map, length_front buf (by omega)]
    refine ⟨g, c, _, by rw [Shadowsocks.encryptBuf, if_pos hc], ?_, by omega, h, rfl⟩
    rw [encryptBuf, if_pos hc, load_front (by omega), hout]
    simp [store_zero (show (Table.substitute g.encryptTable (front buf len)).length ≤ n by omega)]
  · by_cases hst : c.status = .empty
    · exact encryptBuf_first_eq hS hg h hc hst amb buf hlen hn
    · obtain ⟨g', c', out, hcall, hguarded, hlength, hsound, hconfig⟩ :=
        encryptBuf_later_eq hS h hc hst amb buf hlen (by omega)
      exact ⟨g', c', out, hcall, hguarded, by omega, hsound, hconfig⟩

/-- The first call takes the iv from the front of the bytes. -/
theorem decryptBuf_first_eq (hS : S.Lawful) (hg : g.Configured) (h : c.Sound g false)
    (hc : c.cipher ≠ .table) (hst : c.status = .empty) (amb : Ambient) (buf : Vector UInt8 n)
    {len : Nat} (hlen : len ≤ bufSize) (hn : len ≤ n) (hlong : encryptionIvLen g.method ≤ len) :
    ∃ g' c' out, Shadowsocks.decryptBuf amb g c (front buf len) = some (g', c', out) ∧
      decryptBuf amb g c buf len = some (g', c', memcpy buf 0 out, out.length) ∧
      out.length ≤ len ∧ c'.Sound g' false ∧ g'.config = g.config := by
  have hbytes : (front buf len).length = len := length_front buf hn
  have hsize : bufSize = 1500 := rfl
  have hivle := ivLen_le g.method
  have htake : (front buf len).take (encryptionIvLen g.method) =
      front buf (encryptionIvLen g.method) := by
    rw [front, front, List.take_take, Nat.min_eq_left hlong]
  have hhead : (front buf (encryptionIvLen g.method)).length = encryptionIvLen g.method :=
    length_front _ (by omega)
  have hrest : ((front buf len).drop (encryptionIvLen g.method)).length =
      len - encryptionIvLen g.method := by
    rw [List.length_drop, hbytes]
  obtain ⟨hrep, hcipher, hiv⟩ := (h.fresh hc hst).opened hS hg hc false hhead
  have hfirst := decryptBuf_first hc hst amb g
    (show ¬ (front buf len).length < encryptionIvLen g.method by omega)
  rw [htake] at hfirst
  generalize hopened : c.opened g (front buf (encryptionIvLen g.method)) false = opened
    at hrep hcipher hiv hfirst
  obtain ⟨g', c', out, hcall, hguarded, hread, hlength, hsound, hconfig, -⟩ :=
    cipherUpdate_sound hS hrep hcipher (by omega) amb
      (drawn amb.heap ((front buf len).length + opened.ivLen - encryptionIvLen g.method))
      ((front buf len).drop (encryptionIvLen g.method)) len (by omega) (by omega)
  refine ⟨g', c', out, ?_, ?_, by omega, hsound, hconfig⟩
  · simp only [hfirst, hcall]
  · have hivload : load buf 0 (encryptionIvLen g.method) =
        some (front buf (encryptionIvLen g.method)) := load_front (by omega)
    have hivstore : store c.iv 0 (front buf (encryptionIvLen g.method)) =
        some (memcpy c.iv 0 (front buf (encryptionIvLen g.method))) := store_zero (by omega)
    have hkeyed : initCipher g
        { c with iv := memcpy c.iv 0 (front buf (encryptionIvLen g.method)) }
        (memcpy c.iv 0 (front buf (encryptionIvLen g.method))).toList false = opened := hopened
    have hsub : sizeSub (sizeAdd len opened.ivLen) (encryptionIvLen g.method) = len := by
      rw [hiv, sizeAdd_of_lt (by omega), sizeSub_of_le (by omega) (by omega)]
      omega
    have hinp : load buf (encryptionIvLen g.method) (sizeSub len (encryptionIvLen g.method)) =
        some ((front buf len).drop (encryptionIvLen g.method)) := by
      rw [sizeSub_of_le hlong (by omega), load_drop (by omega), Nat.add_sub_cancel' hlong]
    have hstore : store buf 0 out = some (memcpy buf 0 out) := store_zero (by omega)
    rw [decryptBuf, if_neg hc, if_pos hst]
    simp only [hivload, hivstore, Option.bind_eq_bind, Option.bind_some, hinp]
    rw [hkeyed, hsub]
    simp only [hguarded, Option.bind_some, hread, hstore]

/-- So does `decrypt_buf`, unless its length wraps. -/
theorem decryptBuf_eq (hS : S.Lawful) (hg : g.Configured) (h : c.Sound g false) (amb : Ambient)
    (buf : Vector UInt8 n) {len : Nat} (hlen : len ≤ bufSize) (hn : len ≤ n)
    (hwhole : Shadowsocks.decryptBuf amb g c (front buf len) ≠ none) :
    ∃ g' c' out, Shadowsocks.decryptBuf amb g c (front buf len) = some (g', c', out) ∧
      decryptBuf amb g c buf len = some (g', c', memcpy buf 0 out, out.length) ∧
      out.length ≤ len ∧ c'.Sound g' false ∧ g'.config = g.config := by
  have hbytes : (front buf len).length = len := length_front buf hn
  by_cases hc : c.cipher = .table
  · have hout : (Table.substitute g.decryptTable (front buf len)).length = len := by
      rw [Table.substitute, List.length_map, hbytes]
    refine ⟨g, c, _, by rw [Shadowsocks.decryptBuf, if_pos hc], ?_, by omega, h, rfl⟩
    rw [decryptBuf, if_pos hc, load_front hn, hout]
    simp [store_zero (show (Table.substitute g.decryptTable (front buf len)).length ≤ n by omega)]
  · by_cases hst : c.status = .empty
    · have hlong : ¬ (front buf len).length < encryptionIvLen g.method := by
        intro hshort
        exact hwhole (decryptBuf_wraps hc hst amb g hshort)
      rw [hbytes, Nat.not_lt] at hlong
      exact decryptBuf_first_eq hS hg h hc hst amb buf hlen hn hlong
    · -- past the first call both functions have the same body
      obtain ⟨g', c', out, hcall, hguarded, hlength, hsound, hconfig⟩ :=
        encryptBuf_later_eq hS h hc hst amb buf hlen hn
      refine ⟨g', c', out, ?_, ?_, hlength, hsound, hconfig⟩
      · rw [decryptBuf_later hc hst, ← encryptBuf_later hc hst, hcall]
      · rw [← hguarded, decryptBuf, encryptBuf, if_neg hc, if_neg hst, if_neg hc, if_neg hst]

/-- A length that wraps does leave the buffer. -/
theorem decryptBuf_eq_none (amb : Ambient) (buf : Vector UInt8 n) {len : Nat} (hn : len ≤ n)
    (hmax : n + 16 < 2 ^ 64)
    (hwraps : Shadowsocks.decryptBuf amb g c (front buf len) = none) :
    decryptBuf amb g c buf len = none := by
  have hivle := ivLen_le g.method
  by_cases hc : c.cipher = .table
  · rw [Shadowsocks.decryptBuf, if_pos hc] at hwraps
    cases hwraps
  · by_cases hst : c.status = .empty
    · have hshort : len < encryptionIvLen g.method := by
        by_contra hlong
        have hbytes : (front buf len).length = len := length_front buf hn
        rw [decryptBuf_first hc hst amb g (by omega)] at hwraps
        cases hwraps
      rw [decryptBuf, if_neg hc, if_pos hst]
      have hinp : load buf (encryptionIvLen g.method) (sizeSub len (encryptionIvLen g.method)) =
          none := by
        apply load_eq_none
        rw [sizeSub_of_lt hshort (by omega)]
        omega
      simp only [Option.bind_eq_bind, hinp]
      cases load buf 0 (encryptionIvLen g.method) with
      | none => rfl
      | some bytes =>
        cases store c.iv 0 bytes <;> simp
    · rw [decryptBuf_later hc hst] at hwraps
      cases hwraps

end Guarded

/-- What a call leaves is fit for the next one, and not too long. -/
theorem EncryptionCtx.Sound.encryptBuf (hS : S.Lawful) (hg : g.Configured) (h : c.Sound g true)
    (amb : Ambient) {buf : Bytes} (hlen : buf.length ≤ bufSize) :
    ∃ g' c' out, Shadowsocks.encryptBuf amb g c buf = (g', c', out) ∧
      out.length ≤ buf.length + 16 ∧ c'.Sound g' true ∧ g'.config = g.config := by
  have hfront : front (memcpy (amb.block (buf.length + 16)) 0 buf) buf.length = buf :=
    front_memcpy_zero _ (by omega)
  obtain ⟨g', c', out, hcall, -, hout, hsound, hconfig⟩ :=
    Guarded.encryptBuf_eq hS hg h amb (memcpy (amb.block (buf.length + 16)) 0 buf) hlen
      (Nat.le_refl _)
  rw [hfront] at hcall
  exact ⟨g', c', out, hcall, hout, hsound, hconfig⟩

theorem EncryptionCtx.Sound.decryptBuf (hS : S.Lawful) (hg : g.Configured) (h : c.Sound g false)
    (amb : Ambient) {buf : Bytes} (hlen : buf.length ≤ bufSize)
    (hwhole : Shadowsocks.decryptBuf amb g c buf ≠ none) :
    ∃ g' c' out, Shadowsocks.decryptBuf amb g c buf = some (g', c', out) ∧
      out.length ≤ buf.length ∧ c'.Sound g' false ∧ g'.config = g.config := by
  have hfront : front (memcpy (amb.block buf.length) 0 buf) buf.length = buf :=
    front_memcpy_zero _ (Nat.le_refl _)
  rw [← hfront] at hwhole
  obtain ⟨g', c', out, hcall, -, hout, hsound, hconfig⟩ :=
    Guarded.decryptBuf_eq hS hg h amb (memcpy (amb.block buf.length) 0 buf) hlen (Nat.le_refl _)
      hwhole
  rw [hfront] at hcall
  exact ⟨g', c', out, hcall, hout, hsound, hconfig⟩

end Shadowsocks
