import Shadowsocks.Cipher.Stream

/-!
The scratch buffer. Every call of `cipher_update` under salsa20 and chacha20 goes through the
static `sodium_buf`, which all contexts share and nobody clears. What earlier calls left there is
xored along, and dropped.
-/
namespace Shadowsocks

open Memory

variable {S : OpenSSL} {g g' : Globals S} {c : EncryptionCtx S}

/-- A context in use keeps less than a block of padding. -/
def EncryptionCtx.Bounded (c : EncryptionCtx S) : Prop :=
  c.cipher = .sodium → c.status ≠ .empty → c.bytesRemaining < sodiumBlockSize

theorem bounded_of_empty (h : c.status = .empty) : c.Bounded :=
  fun _ hne => absurd h hne

theorem bounded_of_cipher (h : c.cipher ≠ .sodium) : c.Bounded :=
  fun hc _ => absurd hc h

theorem Fresh.bounded (h : Fresh g c) : c.Bounded := bounded_of_empty h.1

theorem bounded_initCipher (g : Globals S) (c : EncryptionCtx S) (iv : Bytes) (enc : Bool) :
    (initCipher g c iv enc).Bounded := by
  cases hc : c.cipher with
  | sodium =>
    intro _ _
    simp only [initCipher, hc]
    decide
  | openssl => exact bounded_of_cipher (by rw [initCipher_cipher, hc]; decide)
  | table => exact bounded_of_cipher (by rw [initCipher_cipher, hc]; decide)

theorem bounded_cipherUpdate (h : c.Bounded) (g : Globals S) (out inp : Bytes) :
    (cipherUpdate g c out inp).2.1.Bounded := by
  cases hc : c.cipher with
  | sodium =>
    intro _ _
    simp only [cipherUpdate, hc]
    exact Nat.mod_lt _ (by decide)
  | table => simpa only [cipherUpdate, hc] using h
  | openssl =>
    apply bounded_of_cipher
    simp only [cipherUpdate, hc]
    split <;> simp [hc]

/-- The context that the first call transforms its input with. -/
def EncryptionCtx.opened (g : Globals S) (c : EncryptionCtx S) (iv : Bytes) (enc : Bool) :
    EncryptionCtx S :=
  initCipher g (c.storeIv iv) (c.storeIv iv).iv.toList enc

theorem encryptBuf_first (hc : c.cipher ≠ .table) (hst : c.status = .empty) (amb : Ambient)
    (g : Globals S) (buf : Bytes) :
    let opened := c.opened g (drawn amb.rand (encryptionIvLen g.method)) true
    let call := cipherUpdate g opened (drawn amb.heap (buf.length + opened.ivLen)) buf
    encryptBuf amb g c buf =
      (call.1, call.2.1, front call.2.1.iv (encryptionIvLen g.method) ++ call.2.2) := by
  rw [encryptBuf, if_neg hc, if_pos hst]
  rfl

theorem encryptBuf_later (hc : c.cipher ≠ .table) (hst : c.status ≠ .empty) (amb : Ambient)
    (g : Globals S) (buf : Bytes) :
    encryptBuf amb g c buf = cipherUpdate g c (drawn amb.heap (buf.length + c.ivLen)) buf := by
  rw [encryptBuf, if_neg hc, if_neg hst]

theorem decryptBuf_first (hc : c.cipher ≠ .table) (hst : c.status = .empty) (amb : Ambient)
    (g : Globals S) {buf : Bytes} (hlen : ¬ buf.length < encryptionIvLen g.method) :
    let opened := c.opened g (buf.take (encryptionIvLen g.method)) false
    decryptBuf amb g c buf = some (cipherUpdate g opened
      (drawn amb.heap (buf.length + opened.ivLen - encryptionIvLen g.method))
      (buf.drop (encryptionIvLen g.method))) := by
  simp only [decryptBuf, if_neg hc, if_pos hst, if_neg hlen]
  rfl

theorem decryptBuf_wraps (hc : c.cipher ≠ .table) (hst : c.status = .empty) (amb : Ambient)
    (g : Globals S) {buf : Bytes} (hlen : buf.length < encryptionIvLen g.method) :
    decryptBuf amb g c buf = none := by
  simp only [decryptBuf, if_neg hc, if_pos hst, if_pos hlen]

theorem decryptBuf_later (hc : c.cipher ≠ .table) (hst : c.status ≠ .empty) (amb : Ambient)
    (g : Globals S) (buf : Bytes) : decryptBuf amb g c buf =
      some (cipherUpdate g c (drawn amb.heap (buf.length + c.ivLen)) buf) := by
  rw [decryptBuf, if_neg hc, if_neg hst]

/-- A piece that holds the longest iv does not wrap. -/
theorem decryptBuf_ne_none (amb : Ambient) (g : Globals S) (c : EncryptionCtx S) {buf : Bytes}
    (hlen : 16 ≤ buf.length) : decryptBuf amb g c buf ≠ none := by
  intro hnone
  have hivle := ivLen_le g.method
  by_cases hc : c.cipher = .table
  · rw [decryptBuf, if_pos hc] at hnone
    cases hnone
  · by_cases hst : c.status = .empty
    · rw [decryptBuf_first hc hst amb g (by omega)] at hnone
      cases hnone
    · rw [decryptBuf_later hc hst] at hnone
      cases hnone

theorem bounded_opened (g : Globals S) (c : EncryptionCtx S) (iv : Bytes) (enc : Bool) :
    (c.opened g iv enc).Bounded :=
  bounded_initCipher g (c.storeIv iv) (c.storeIv iv).iv.toList enc

theorem bounded_encryptBuf (h : c.Bounded) (amb : Ambient) (g : Globals S) (buf : Bytes) :
    (encryptBuf amb g c buf).2.1.Bounded := by
  by_cases hc : c.cipher = .table
  · rw [encryptBuf, if_pos hc]
    exact h
  · by_cases hst : c.status = .empty
    · rw [encryptBuf_first hc hst]
      exact bounded_cipherUpdate (bounded_opened g c _ true) g _ buf
    · rw [encryptBuf_later hc hst]
      exact bounded_cipherUpdate h g _ buf

theorem bounded_decryptBuf (h : c.Bounded) (amb : Ambient) (g : Globals S) (buf : Bytes)
    {call : Globals S × EncryptionCtx S × Bytes} (hcall : decryptBuf amb g c buf = some call) :
    call.2.1.Bounded := by
  by_cases hc : c.cipher = .table
  · rw [decryptBuf, if_pos hc] at hcall
    cases hcall
    exact h
  · by_cases hst : c.status = .empty
    · by_cases hlen : buf.length < encryptionIvLen g.method
      · rw [decryptBuf_wraps hc hst amb g hlen] at hcall
        cases hcall
      · rw [decryptBuf_first hc hst amb g hlen] at hcall
        cases hcall
        exact bounded_cipherUpdate (bounded_opened g c _ false) g _ _
    · rw [decryptBuf_later hc hst] at hcall
      cases hcall
      exact bounded_cipherUpdate h g _ buf

/-! Calls under two globals that differ in the scratch buffer alone. -/

theorem config_eq_iff : g'.config = g.config ↔ g' = { g with sodiumBuf := g'.sodiumBuf } := by
  obtain ⟨_, _, _, _, _, _, _, _, _⟩ := g
  obtain ⟨_, _, _, _, _, _, _, _, _⟩ := g'
  simp [Globals.config]

theorem length_xorIc_any (g : Globals S) (c : EncryptionCtx S) (m : Bytes) :
    (xorIc g c m).length = m.length := by
  by_cases hm : IsSodium g.method
  · exact length_xorIc hm (k := c.ic.toNat) (UInt64.ofNat_toNat).symm m
  · have hsalsa : g.method ≠ encryptionSalsa20 := fun h => hm (Or.inl h)
    have hchacha : g.method ≠ encryptionChacha20 := fun h => hm (Or.inr h)
    rw [xorIc, if_neg hsalsa, if_neg hchacha]

/-- What stands in front of the input is xored along, and the input does not see it. -/
theorem xorIc_drop (g : Globals S) (c : EncryptionCtx S) {stale stale' : Bytes}
    (hlen : stale'.length = stale.length) (inp : Bytes) :
    (xorIc g c (stale' ++ inp)).drop stale'.length = (xorIc g c (stale ++ inp)).drop stale.length := by
  by_cases hm : IsSodium g.method
  · have hic : c.ic = UInt64.ofNat c.ic.toNat := (UInt64.ofNat_toNat).symm
    rw [xorIc_eq hm hic, xorIc_eq hm hic, Keystream.xorAt_append, Keystream.xorAt_append,
      List.drop_left' Keystream.length_xorAt, List.drop_left' Keystream.length_xorAt, hlen]
  · have hsalsa : g.method ≠ encryptionSalsa20 := fun h => hm (Or.inl h)
    have hchacha : g.method ≠ encryptionChacha20 := fun h => hm (Or.inr h)
    rw [xorIc, xorIc, if_neg hsalsa, if_neg hchacha, if_neg hsalsa, if_neg hchacha,
      List.drop_left, List.drop_left]

/-- The output of a call as a function of the stale bytes. -/
theorem scratch_out (g : Globals S) (c : EncryptionCtx S) (buf : Vector UInt8 sodiumBufSize)
    {inp : Bytes} (hfits : c.bytesRemaining + inp.length ≤ sodiumBufSize) :
    (front (memcpy (memcpy buf c.bytesRemaining inp) 0 (xorIc g c
      (front (memcpy buf c.bytesRemaining inp) (c.bytesRemaining + inp.length))))
        (c.bytesRemaining + inp.length)).drop c.bytesRemaining =
      (xorIc g c (front buf c.bytesRemaining ++ inp)).drop (front buf c.bytesRemaining).length := by
  have hstale : (front buf c.bytesRemaining).length = c.bytesRemaining :=
    length_front _ (by omega)
  have hlen : (xorIc g c (front buf c.bytesRemaining ++ inp)).length =
      c.bytesRemaining + inp.length := by
    rw [length_xorIc_any, List.length_append, hstale]
  rw [front_memcpy _ hfits, hstale]
  conv_lhs => rw [← hlen]
  rw [front_memcpy_zero _ (by omega)]

theorem cipherUpdate_of_config (hg : g'.config = g.config) (h : c.Bounded) (hst : c.status ≠ .empty)
    (out : Bytes) {inp : Bytes} (hlen : inp.length ≤ bufSize) :
    (cipherUpdate g' c out inp).2 = (cipherUpdate g c out inp).2 := by
  rw [config_eq_iff] at hg
  cases hc : c.cipher with
  | table => simp only [cipherUpdate, hc]
  | openssl =>
    simp only [cipherUpdate, hc]
    cases S.evpCipherUpdate c.ctx inp <;> rfl
  | sodium =>
    have hrem := h hc hst
    have hfits : c.bytesRemaining + inp.length ≤ sodiumBufSize := by
      simp only [sodiumBufSize]
      omega
    have hxor : xorIc g' c = xorIc g c := by
      rw [hg]
      rfl
    have hfront : ∀ buf : Vector UInt8 sodiumBufSize,
        (front buf c.bytesRemaining).length = c.bytesRemaining :=
      fun buf => length_front _ (by omega)
    have hout := xorIc_drop g c ((hfront g'.sodiumBuf).trans (hfront g.sodiumBuf).symm) inp
    have hg' := scratch_out g c g'.sodiumBuf hfits
    have hg₀ := scratch_out g c g.sodiumBuf hfits
    simp only [cipherUpdate, hc, hxor, hg', hg₀, hout]

theorem opened_of_config (hg : g'.config = g.config) (c : EncryptionCtx S) (iv : Bytes)
    (enc : Bool) : c.opened g' iv enc = c.opened g iv enc := by
  rw [config_eq_iff] at hg
  rw [hg]
  rfl

theorem status_opened (g : Globals S) (c : EncryptionCtx S) (iv : Bytes) (enc : Bool) :
    (c.opened g iv enc).status ≠ .empty := by
  simp only [EncryptionCtx.opened, initCipher, cleanupEncryption]
  split
  · split <;> simp
  · simp
  · simp

theorem tableFor_of_config (hg : g'.config = g.config) (enc : Bool) :
    g'.tableFor enc = g.tableFor enc := by
  rw [config_eq_iff] at hg
  rw [hg]
  rfl

/-- Neither direction shows what other contexts have left in the scratch buffer. -/
theorem encryptBuf_of_config (hg : g'.config = g.config) (h : c.Bounded) (amb : Ambient)
    {buf : Bytes} (hlen : buf.length ≤ bufSize) :
    (encryptBuf amb g' c buf).2 = (encryptBuf amb g c buf).2 := by
  have hmethod : g'.method = g.method :=
    (congrArg Globals.method hg : g'.config.method = g.config.method)
  by_cases hc : c.cipher = .table
  · have htable : g'.encryptTable = g.encryptTable := tableFor_of_config hg true
    rw [encryptBuf, encryptBuf, if_pos hc, if_pos hc, htable]
  · by_cases hst : c.status = .empty
    · have hupdate := cipherUpdate_of_config hg (bounded_opened g c
        (drawn amb.rand (encryptionIvLen g.method)) true) (status_opened g c _ true)
        (drawn amb.heap (buf.length +
          (c.opened g (drawn amb.rand (encryptionIvLen g.method)) true).ivLen)) hlen
      simp only [encryptBuf_first hc hst, hmethod, opened_of_config hg, hupdate]
    · rw [encryptBuf_later hc hst, encryptBuf_later hc hst]
      exact cipherUpdate_of_config hg h hst _ hlen

theorem decryptBuf_of_config (hg : g'.config = g.config) (h : c.Bounded) (amb : Ambient)
    {buf : Bytes} (hlen : buf.length ≤ bufSize) :
    (decryptBuf amb g' c buf).map Prod.snd = (decryptBuf amb g c buf).map Prod.snd := by
  have hmethod : g'.method = g.method :=
    (congrArg Globals.method hg : g'.config.method = g.config.method)
  by_cases hc : c.cipher = .table
  · have htable : g'.decryptTable = g.decryptTable := tableFor_of_config hg false
    rw [decryptBuf, decryptBuf, if_pos hc, if_pos hc, htable]
    rfl
  · by_cases hst : c.status = .empty
    · by_cases hshort : buf.length < encryptionIvLen g.method
      · rw [decryptBuf_wraps hc hst amb g hshort,
          decryptBuf_wraps hc hst amb g' (by rwa [hmethod])]
      · have hdrop : (buf.drop (encryptionIvLen g.method)).length ≤ bufSize := by
          rw [List.length_drop]
          omega
        have hupdate := cipherUpdate_of_config hg (bounded_opened g c
          (buf.take (encryptionIvLen g.method)) false) (status_opened g c _ false)
          (drawn amb.heap (buf.length +
            (c.opened g (buf.take (encryptionIvLen g.method)) false).ivLen -
              encryptionIvLen g.method)) hdrop
        rw [decryptBuf_first hc hst amb g hshort,
          decryptBuf_first hc hst amb g' (by rwa [hmethod])]
        simp only [hmethod, opened_of_config hg, Option.map_some, hupdate]
    · rw [decryptBuf_later hc hst, decryptBuf_later hc hst, Option.map_some, Option.map_some,
        cipherUpdate_of_config hg h hst _ hlen]

end Shadowsocks
