import Shadowsocks.Cipher.Chunks

/-! Two machines with the same password and method: what one encrypts the other decrypts. -/
namespace Shadowsocks

open Memory Streaming

variable {S : OpenSSL} {name : String} {password : Bytes}

/-- The key that reaches the cipher depends on the configured key alone, not on what `_key`
holds behind it. -/
theorem trueKey_take {g : Globals S} (key : Bytes) (hkey : front g.key key.length = key)
    (hrc4 : g.method = encryptionRc4Md5 → key.length = 16) (iv : Bytes) :
    (trueKey g iv).take key.length =
      if g.method = encryptionRc4Md5 then (S.md5 (key ++ iv.take 16)).take key.length else key := by
  by_cases hm : g.method = encryptionRc4Md5
  · have h16 : front g.key 16 = key := by rwa [hrc4 hm] at hkey
    rw [trueKey, if_pos hm, if_pos hm, h16]
  · rw [trueKey, if_neg hm, if_neg hm]
    exact hkey

theorem table_inverse (hname : encryptionMethodFromString name = encryptionTable)
    (old old' : Globals S) (iv m : Bytes) :
    ((CipherStream.start (configEncryption old' password name) false iv).push
      ((CipherStream.start (configEncryption old password name) true iv).push m).2).2 = m := by
  simp only [CipherStream.start, CipherStream.push, configEncryption, hname, if_true,
    Globals.tableFor, Bool.false_eq_true, if_false]
  exact Table.substitute_getTable S password old'.decryptTable old.decryptTable m

theorem sodium_inverse (hS : S.Lawful) (hname : IsSodium (encryptionMethodFromString name))
    (old old' : Globals S) (iv m : Bytes) :
    ((CipherStream.start (configEncryption old' password name) false iv).push
      ((CipherStream.start (configEncryption old password name) true iv).push m).2).2 = m := by
  have ht : encryptionMethodFromString name ≠ encryptionTable := by
    rcases hname with h | h <;> rw [h] <;> decide
  have hlen : (S.evpBytesToKey S.evpAes256Cfb password).length = 32 := by
    rw [hS.bytesToKey_length, hS.keyLength_aes256]
  have hkey : ∀ old : Globals S,
      front (memcpy old.key 0 (S.evpBytesToKey S.evpAes256Cfb password)) 32 =
        S.evpBytesToKey S.evpAes256Cfb password := by
    intro old
    rw [← hlen]
    exact front_memcpy_zero _ (by omega)
  simp only [CipherStream.start, CipherStream.push, configEncryption, ht, hname, if_true, if_false,
    Globals.keystream, hkey]
  exact Keystream.xorAt_xorAt

theorem openssl_inverse (hS : S.Lawful) {c : S.EvpCipher}
    (ht : encryptionMethodFromString name ≠ encryptionTable)
    (hm : ¬ IsSodium (encryptionMethodFromString name))
    (hc : S.evpGetCipherbyname (evpName (encryptionMethodFromString name)) = some c)
    (old old' : Globals S) {iv : Bytes}
    (hiv : iv.length = encryptionIvLen (encryptionMethodFromString name)) (m : Bytes) :
    ((CipherStream.start (configEncryption old' password name) false iv).push
      ((CipherStream.start (configEncryption old password name) true iv).push m).2).2 = m := by
  have hconf : ∀ old : Globals S, configEncryption old password name =
      { old with
        method := encryptionMethodFromString name
        cipher := .openssl
        evpCipher := some c
        keyLen := (S.evpBytesToKey c password).length
        key := memcpy old.key 0 (S.evpBytesToKey c password)
        shadowsocksKey := true } := by
    intro old
    simp only [configEncryption, ht, hm, hc, if_false]
  have hsupp : Supported S name := Or.inr (Or.inr (by rw [hc]; rfl))
  have hlen : (S.evpBytesToKey c password).length ≤ 64 := by
    rw [hS.bytesToKey_length]
    exact hS.keyLength_le c
  -- the two machines give the cipher the same key and iv
  have hkeyed : ∀ (old : Globals S) (enc : Bool), ∃ ctx,
      CipherStream.start (configEncryption old password name) enc iv = .evp ctx ∧
      S.KeyedWith c (if encryptionMethodFromString name = encryptionRc4Md5 then
        (S.md5 (S.evpBytesToKey c password ++ iv.take 16)).take (S.evpBytesToKey c password).length
        else S.evpBytesToKey c password) (S.ivBytes (some c) iv) enc ctx := by
    intro old enc
    have hg := configured_configEncryption hS hsupp old password
    obtain ⟨c', sized, hc', hsized, hk⟩ := start_openssl hS hg (by rw [hconf]) enc
      (by rw [hconf]; exact Nat.le_of_eq hiv.symm)
    have hfront : front (configEncryption old password name).key
        (S.evpBytesToKey c password).length = S.evpBytesToKey c password := by
      rw [hconf]
      exact front_memcpy_zero _ hlen
    have hrc4 : (configEncryption old password name).method = encryptionRc4Md5 →
        (S.evpBytesToKey c password).length = 16 := by
      intro hrc4
      rw [configEncryption_method] at hrc4
      rw [hrc4] at hc
      rw [hS.bytesToKey_length]
      exact hS.keyLength_rc4 c hc
    have htake := trueKey_take _ hfront hrc4 iv
    rw [hconf] at hc' hsized hk htake
    obtain rfl := Option.some.inj hc'
    rw [htake] at hk
    refine ⟨_, ?_, hk⟩
    rw [hconf, CipherStream.start]
    simp only [hsized, htake]
  obtain ⟨encCtx, henc, hkenc⟩ := hkeyed old true
  obtain ⟨decCtx, hdec, hkdec⟩ := hkeyed old' false
  obtain ⟨encCtx', out, hu, -⟩ := hS.update_total m (.start hkenc)
  obtain ⟨decCtx', hd⟩ := hS.decrypt_encrypt hkenc hkdec hu
  rw [henc, hdec, CipherStream.push_evp hu, CipherStream.push_evp hd]

/-- Under one iv the decrypting stream takes the encrypting one back, for every method. -/
theorem start_inverse (hS : S.Lawful) (hname : Supported S name) (old old' : Globals S)
    {iv : Bytes} (hiv : iv.length = encryptionIvLen (encryptionMethodFromString name)) (m : Bytes) :
    ((CipherStream.start (configEncryption old' password name) false iv).push
      ((CipherStream.start (configEncryption old password name) true iv).push m).2).2 = m := by
  by_cases ht : encryptionMethodFromString name = encryptionTable
  · exact table_inverse ht old old' iv m
  · by_cases hm : IsSodium (encryptionMethodFromString name)
    · exact sodium_inverse hS hm old old' iv m
    · obtain ⟨c, hc⟩ := Option.isSome_iff_exists.mp (by simpa [Supported, ht, hm] using hname)
      exact openssl_inverse hS ht hm hc old old' hiv m

/-- A receiver whose first piece holds the iv gets the plaintext back. -/
theorem decryptAll_of_long (hS : S.Lawful) (hname : Supported S name) (old old' : Globals S)
    (mem' : EncryptionCtx S) {iv plain : Bytes}
    (hiv : iv.length = encryptionIvLen (encryptionMethodFromString name)) {first : Call}
    {rest : List Call} (hlong : iv.length ≤ first.bytes.length)
    (hcut : contents (first :: rest) = iv ++ oneShot (configEncryption old password name) iv plain) :
    (decryptAll (openSession old' password name mem') (first :: rest)).map Prod.snd =
      some plain := by
  have hg' := configured_configEncryption hS hname old' password
  have hsplit : first.bytes ++ contents rest =
      iv ++ oneShot (configEncryption old password name) iv plain := hcut
  have htake : first.bytes.take iv.length = iv := by
    have := congrArg (List.take iv.length) hsplit
    rwa [List.take_append_of_le_length hlong, List.take_left] at this
  have hdrop : first.bytes.drop iv.length ++ contents rest =
      oneShot (configEncryption old password name) iv plain := by
    have := congrArg (List.drop iv.length) hsplit
    rwa [List.drop_append_of_le_length hlong, List.drop_left] at this
  have hbytes : first.bytes = iv ++ first.bytes.drop iv.length := by
    rw [← htake, List.length_take, Nat.min_eq_left hlong, List.take_append_drop]
  obtain ⟨s', hdec, -⟩ := decryptAll_cons hS hg' (fresh_initEncryption _ mem') hbytes
    (by rw [hiv, configEncryption_method]) rest
  rw [openSession, hdec, hdrop, oneShot, Option.map_some, start_inverse hS hname old old' hiv plain]

/-- A receiver whose first piece is shorter than the iv computes a wrapped length. -/
theorem decryptAll_of_short (hS : S.Lawful) (hname : Supported S name) (old' : Globals S)
    (mem' : EncryptionCtx S) {first : Call}
    (hshort : first.bytes.length < encryptionIvLen (encryptionMethodFromString name))
    (rest : List Call) :
    decryptAll (openSession old' password name mem') (first :: rest) = none := by
  have hlt : first.bytes.length < encryptionIvLen (configEncryption old' password name).method := by
    rwa [configEncryption_method]
  have hnone := decryptBuf_short (configured_configEncryption hS hname old' password)
    (fresh_initEncryption _ mem') first.1 hlt
  apply feed_cons_none
  simp only [decryptCall, openSession, hnone, Option.map_none]

/-- Whatever the pieces on either side, and whatever the two machines held before: the receiver
gets the plaintext back, and no length wraps, exactly when its first piece holds the iv. -/
theorem decryptAll_encryptAll_iff (hS : S.Lawful) (hname : Supported S name)
    (old old' : Globals S) (password : Bytes) (mem mem' : EncryptionCtx S) (calls : List Call) :
    ∃ s sent, encryptAll (openSession old password name mem) calls = some (s, sent) ∧
      ∀ received, contents received = sent →
        ((decryptAll (openSession old' password name mem') received).map Prod.snd =
            some (contents calls) ↔
          ∀ call ∈ received.head?,
            encryptionIvLen (encryptionMethodFromString name) ≤ call.bytes.length) := by
  have hg := configured_configEncryption hS hname old password
  cases calls with
  | nil =>
    refine ⟨_, [], rfl, ?_⟩
    intro received hrec
    have hnil : received = [] := contents_eq_nil hrec
    simp [hnil, decryptAll, feed, contents]
  | cons call calls =>
    obtain ⟨s, hsend, -⟩ := encryptAll_cons hS hg (fresh_initEncryption _ mem) call calls
    refine ⟨s, _, hsend, ?_⟩
    intro received hrec
    have hiv : (drawnIv (configEncryption old password name) (call :: calls)).length =
        encryptionIvLen (encryptionMethodFromString name) := by
      rw [drawnIv, length_drawn, configEncryption_method]
    cases received with
    | nil =>
      -- the plaintext is not empty, so neither is what was sent
      have hlen := congrArg List.length hrec
      rw [List.length_append, CipherStream.length_push hS (usable_start hS hg true
        (by rw [hiv, configEncryption_method]))] at hlen
      have hpos := List.length_pos_of_ne_nil (fun h => by cases contents_eq_nil h :
        contents (call :: calls) ≠ [])
      simp only [contents, List.flatMap_nil, List.length_nil] at hlen hpos
      omega
    | cons first rest =>
      simp only [List.head?_cons, Option.mem_def, Option.some.injEq, forall_eq']
      constructor
      · intro hdec
        by_contra hlong
        rw [decryptAll_of_short hS hname old' mem' (Nat.lt_of_not_le hlong)] at hdec
        cases hdec
      · intro hlong
        exact decryptAll_of_long hS hname old old' mem' hiv (hiv.symm ▸ hlong) hrec

/-- Nine bytes sent under salsa20 that arrive as three and six: the receiver's length wraps. -/
theorem decryptAll_cut_iv :
    ∃ s sent, encryptAll (openSession (.zeroed Reference.openssl) [] "salsa20" (.zeroed _))
        [(.zeroed, ⟨[1], by decide, by decide⟩)] = some (s, sent) ∧
      ∃ received, contents received = sent ∧
        received.map (fun call => call.bytes.length) = [3, 6] ∧
        decryptAll (openSession (.zeroed Reference.openssl) [] "salsa20" (.zeroed _)) received =
          none := by
  have hS := Reference.lawful_openssl
  have hname : Supported Reference.openssl "salsa20" := by decide
  have hg := configured_configEncryption hS hname (.zeroed _) []
  have hf := fresh_initEncryption (configEncryption (.zeroed _) [] "salsa20")
    (.zeroed Reference.openssl)
  obtain ⟨s, hsend, -⟩ := encryptAll_cons hS hg hf (.zeroed, ⟨[1], by decide, by decide⟩) []
  have hlen := length_encryptAll hS hg hf hsend
  refine ⟨s, _, hsend, ?_⟩
  generalize drawnIv _ _ ++ _ = sent at hlen
  replace hlen : sent.length = 9 := hlen
  have htake : (sent.take 3).length = 3 := by simp [hlen]
  have hdrop : (sent.drop 3).length = 6 := by simp [hlen]
  have htake' : sent.take 3 ≠ [] := List.ne_nil_of_length_pos (by omega)
  have hdrop' : sent.drop 3 ≠ [] := List.ne_nil_of_length_pos (by omega)
  refine ⟨[(.zeroed, ⟨sent.take 3, htake', by rw [htake]; decide⟩),
    (.zeroed, ⟨sent.drop 3, hdrop', by rw [hdrop]; decide⟩)], ?_, ?_, ?_⟩
  · simp [contents, Call.bytes]
  · simp [Call.bytes, htake, hdrop]
  · apply decryptAll_of_short hS hname
    simp only [Call.bytes, htake]
    decide

theorem decryptAll_encryptAll_rc4Md5 :
    ∃ s sent, encryptAll (openSession (.zeroed Reference.openssl) [0x6b] "rc4-md5" (.zeroed _))
        [(.zeroed, ⟨[1, 2], by decide, by decide⟩)] = some (s, sent) ∧
      ∀ received, contents received = sent →
        ((decryptAll (openSession (.zeroed Reference.openssl) [0x6b] "rc4-md5" (.zeroed _))
            received).map Prod.snd = some [1, 2] ↔
          ∀ call ∈ received.head?, 16 ≤ call.bytes.length) :=
  decryptAll_encryptAll_iff Reference.lawful_openssl (by decide) _ _ _ _ _ _

end Shadowsocks
