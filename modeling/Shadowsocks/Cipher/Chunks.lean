import Shadowsocks.Cipher.Reference
import Shadowsocks.Cipher.Stream

/-! Sequences of calls on one fresh context, and the other end of the connection. -/
namespace Shadowsocks

open Memory Streaming

variable {S : OpenSSL} {name : String}

/-- What one `recv` or one caller hands over: between 1 and `BUF_SIZE` bytes. -/
structure Piece where
  bytes : Bytes
  nonempty : bytes ≠ []
  fits : bytes.length ≤ bufSize

/-- The globals and one of the contexts. -/
abbrev Session (S : OpenSSL) := Globals S × EncryptionCtx S

abbrev Call := Ambient × Piece

def Call.bytes (call : Call) : Bytes := call.2.bytes

/-- The bytes of the pieces, one after the other. -/
def contents (calls : List Call) : Bytes := calls.flatMap Call.bytes

theorem contents_eq_nil {calls : List Call} (h : contents calls = []) : calls = [] := by
  cases calls with
  | nil => rfl
  | cons call calls =>
    simp only [contents, List.flatMap_cons, List.append_eq_nil_iff] at h
    exact absurd h.1 call.2.nonempty

def encryptCall (s : Session S) (call : Call) : Option (Session S × Bytes) :=
  let (g, c, out) := encryptBuf call.1 s.1 s.2 call.bytes
  some ((g, c), out)

def decryptCall (s : Session S) (call : Call) : Option (Session S × Bytes) :=
  (decryptBuf call.1 s.1 s.2 call.bytes).map fun (g, c, out) => ((g, c), out)

def encryptAll (s : Session S) (calls : List Call) : Option (Session S × Bytes) :=
  feed encryptCall s calls

def decryptAll (s : Session S) (calls : List Call) : Option (Session S × Bytes) :=
  feed decryptCall s calls

/-- A context made by `init_encryption` right after `config_encryption`. -/
def openSession (old : Globals S) (password : Bytes) (name : String) (mem : EncryptionCtx S) :
    Session S :=
  let g := configEncryption old password name
  (g, initEncryption g mem)

/-- `config_encryption` can set the method up: for an EVP cipher OpenSSL has to know it. -/
def Supported (S : OpenSSL) (name : String) : Prop :=
  let method := encryptionMethodFromString name
  method = encryptionTable ∨ IsSodium method ∨ (S.evpGetCipherbyname (evpName method)).isSome

instance (S : OpenSSL) (name : String) : Decidable (Supported S name) :=
  inferInstanceAs (Decidable (_ ∨ _ ∨ _))

@[simp] theorem configEncryption_method (old : Globals S) (password : Bytes) (name : String) :
    (configEncryption old password name).method = encryptionMethodFromString name := by
  simp only [configEncryption]
  split
  · rfl
  · split
    · rfl
    · split <;> rfl

theorem documentedIvLength_evpName (method : Method) (ht : method ≠ encryptionTable)
    (hm : ¬ IsSodium method) :
    ∃ n ≤ encryptionIvLen method, (evpName method, n) ∈ OpenSSL.documentedIvLength := by
  revert method
  decide

theorem configured_configEncryption (hS : S.Lawful) (hname : Supported S name)
    (old : Globals S) (password : Bytes) : (configEncryption old password name).Configured := by
  simp only [Supported] at hname
  unfold configEncryption
  generalize encryptionMethodFromString name = method at hname
  by_cases ht : method = encryptionTable
  · simp [Globals.Configured, ht]
  · by_cases hm : IsSodium method
    · simp [Globals.Configured, ht, hm]
    · obtain ⟨c, hc⟩ := Option.isSome_iff_exists.mp (by simpa [ht, hm] using hname)
      obtain ⟨n, hn, hmem⟩ := documentedIvLength_evpName method ht hm
      have hivlen := hS.ivLength_of_name _ _ _ hmem hc
      simp only [Globals.Configured, ht, hm, hc, if_false]
      refine ⟨c, ⟨_, hc⟩, rfl, hS.bytesToKey_length c password, by omega, ?_⟩
      intro hrc4
      rw [hS.bytesToKey_length]
      exact hS.keyLength_rc4 c (by simpa [evpName, hrc4] using hc)

def Carries (enc : Bool) (s : Session S) (k : CipherStream S) : Prop := Represents s.1 enc s.2 k

theorem encryptCall_simulates (hS : S.Lawful) :
    Simulates encryptCall CipherStream.push CipherStream.Usable (Carries (S := S) true)
      Call.bytes where
  usable h := h.usable
  simulate call h := by
    obtain ⟨g', c', hcall, hrep, -⟩ := encryptBuf_represents hS h call.1 call.2.fits
    exact ⟨(g', c'), by simp only [encryptCall, Call.bytes, hcall], hrep⟩

theorem decryptCall_simulates (hS : S.Lawful) :
    Simulates decryptCall CipherStream.push CipherStream.Usable (Carries (S := S) false)
      Call.bytes where
  usable h := h.usable
  simulate call h := by
    obtain ⟨g', c', hcall, hrep, -⟩ := decryptBuf_represents hS h call.1 call.2.fits
    exact ⟨(g', c'), by simp only [decryptCall, Call.bytes, hcall, Option.map_some], hrep⟩

/-- The iv that the first of the calls draws. -/
def drawnIv (g : Globals S) : List Call → Bytes
  | [] => []
  | call :: _ => drawn call.1.rand (encryptionIvLen g.method)

/-- The encryption of a whole plaintext in one piece, under an iv. -/
def oneShot (g : Globals S) (iv plaintext : Bytes) : Bytes :=
  ((CipherStream.start g true iv).push plaintext).2

theorem usable_start (hS : S.Lawful) {g : Globals S} (hg : g.Configured) (enc : Bool) {iv : Bytes}
    (hiv : iv.length = encryptionIvLen g.method) : (CipherStream.start g enc iv).Usable := by
  cases hfam : g.cipher with
  | table => simp only [CipherStream.start, hfam, CipherStream.Usable]
  | sodium => simp only [CipherStream.start, hfam, CipherStream.Usable]
  | openssl =>
    obtain ⟨cipher, sized, -, hsized, hkeyed⟩ :=
      start_openssl hS hg hfam enc (Nat.le_of_eq hiv.symm)
    simp only [CipherStream.start, hfam, hsized]
    exact .start hkeyed

/-- Any sequence of calls on a fresh context: the iv, then the stream of all the input. -/
theorem encryptAll_cons (hS : S.Lawful) {g : Globals S} {c : EncryptionCtx S} (hg : g.Configured)
    (hf : Fresh g c) (call : Call) (calls : List Call) :
    let iv := drawnIv g (call :: calls)
    let k := (CipherStream.start g true iv).push (contents (call :: calls))
    ∃ s', encryptAll (g, c) (call :: calls) = some (s', iv ++ k.2) ∧ Carries true s' k.1 := by
  intro iv k
  obtain ⟨g', c', hcall, hrep, -⟩ := encryptBuf_fresh hS hg hf call.1 call.2.fits rfl
  have hfirst : encryptCall (g, c) call =
      some ((g', c'), iv ++ ((CipherStream.start g true iv).push call.bytes).2) := by
    simp only [encryptCall, Call.bytes, hcall]
    rfl
  exact feed_of_first (CipherStream.chunkable_push hS) (encryptCall_simulates hS)
    (usable_start hS hg true (length_drawn _ _)) hfirst hrep calls

theorem length_encryptAll (hS : S.Lawful) {g : Globals S} {c : EncryptionCtx S}
    (hg : g.Configured) (hf : Fresh g c) {call : Call} {calls : List Call} {s : Session S}
    {sent : Bytes} (h : encryptAll (g, c) (call :: calls) = some (s, sent)) :
    sent.length = encryptionIvLen g.method + (contents (call :: calls)).length := by
  obtain ⟨s', hsend, -⟩ := encryptAll_cons hS hg hf call calls
  rw [h] at hsend
  cases hsend
  have hiv : (drawnIv g (call :: calls)).length = encryptionIvLen g.method := length_drawn _ _
  rw [List.length_append, CipherStream.length_push hS (usable_start hS hg true hiv), hiv]

/-- The sodium counters after `n` bytes, and the room that is left behind the padding. The
block counter is 64 bits wide. -/
structure AtPosition (c : EncryptionCtx S) (n : Nat) : Prop where
  counters : sodiumBlockSize * c.ic.toNat + c.bytesRemaining = n % 2 ^ 70
  remaining_lt : c.bytesRemaining < sodiumBlockSize
  fits : ∀ piece : Piece, c.bytesRemaining + piece.bytes.length ≤ sodiumBufSize

theorem atPosition_of_represents {g : Globals S} {c : EncryptionCtx S} {enc : Bool}
    {ks : Nat → UInt8} {pos : Nat} (h : Represents g enc c (.keystream ks pos)) :
    AtPosition c pos := by
  obtain ⟨-, -, -, -, hic, hrem⟩ := h
  refine ⟨?_, ?_, fun piece => padding_le hrem piece.fits⟩
  · rw [hic, hrem, UInt64.toNat_ofNat']
    simp only [sodiumBlockSize]
    omega
  · rw [hrem]
    exact Nat.mod_lt _ (by decide)

theorem start_sodium {g : Globals S} (hg : g.cipher = .sodium) (enc : Bool) {iv : Bytes}
    (hiv : iv.length = 8) : CipherStream.start g enc iv = .keystream (g.keystream iv) 0 := by
  rw [CipherStream.start, hg]
  simp only [← hiv, List.take_length]

/-- However a plaintext is cut, its calls emit the iv once and then its one-shot encryption;
under salsa20 and chacha20 byte `i` meets byte `i` of the keystream. -/
theorem encryptAll_eq_oneShot (hS : S.Lawful) (hname : Supported S name) (old : Globals S)
    (password : Bytes) (mem : EncryptionCtx S) {calls : List Call} (hcalls : calls ≠ []) :
    let g := configEncryption old password name
    let iv := drawnIv g calls
    ∃ s, encryptAll (openSession old password name mem) calls =
        some (s, iv ++ oneShot g iv (contents calls)) ∧
      iv.length = encryptionIvLen (encryptionMethodFromString name) ∧
      (oneShot g iv (contents calls)).length = (contents calls).length ∧
      (IsSodium (encryptionMethodFromString name) →
        oneShot g iv (contents calls) =
          (contents calls).mapIdx (fun i b => b ^^^ g.keystream iv i) ∧
        AtPosition s.2 (contents calls).length) := by
  intro g iv
  obtain ⟨call, calls, rfl⟩ := List.exists_cons_of_ne_nil hcalls
  have hg : g.Configured := configured_configEncryption hS hname old password
  obtain ⟨s, hsend, hrep⟩ := encryptAll_cons hS hg (fresh_initEncryption g mem) call calls
  have hiv : iv.length = encryptionIvLen (encryptionMethodFromString name) := by
    rw [← configEncryption_method old password name]
    exact length_drawn _ _
  have hlen := CipherStream.length_push hS
    (usable_start hS hg true (hiv.trans (by rw [configEncryption_method])))
  refine ⟨s, hsend, hiv, hlen _, ?_⟩
  intro hm
  have hfam : g.cipher = .sodium := by
    have ht : encryptionMethodFromString name ≠ encryptionTable := by
      rcases hm with h | h <;> rw [h] <;> decide
    simp [g, configEncryption, ht, hm]
  have hstart := start_sodium hfam true (hiv.trans (ivLen_of_sodium hm))
  rw [hstart] at hrep
  refine ⟨?_, ?_⟩
  · simp [oneShot, hstart, CipherStream.push, Keystream.xorAt]
  · simpa [CipherStream.push] using atPosition_of_represents hrep

theorem encryptAll_eq_oneShot_salsa20 :
    let calls : List Call := [(.zeroed, ⟨[1, 2], by decide, by decide⟩),
      (.zeroed, ⟨[3], by decide, by decide⟩)]
    let g := configEncryption (.zeroed Reference.openssl) [] "salsa20"
    ∃ s, encryptAll (openSession (.zeroed Reference.openssl) [] "salsa20" (.zeroed _)) calls =
        some (s, drawnIv g calls ++ oneShot g (drawnIv g calls) [1, 2, 3]) ∧
      (drawnIv g calls).length = 8 ∧ AtPosition s.2 3 := by
  intro calls g
  have hname : Supported Reference.openssl "salsa20" := by decide
  obtain ⟨s, hsend, hiv, -, hsodium⟩ := encryptAll_eq_oneShot Reference.lawful_openssl hname
    (.zeroed _) [] (.zeroed _) (List.cons_ne_nil _ _ : calls ≠ [])
  exact ⟨s, hsend, hiv, (hsodium (by decide)).2⟩

/-- No call, no iv; and after 2^70 bytes the block counter is back at zero. -/
theorem encryptAll_edges :
    let session := openSession (.zeroed Reference.openssl) [] "salsa20" (.zeroed _)
    (∃ s, encryptAll session [] = some (s, []) ∧
      encryptionIvLen (encryptionMethodFromString "salsa20") = 8) ∧
    ∃ calls s sent, encryptAll session calls = some (s, sent) ∧
      (contents calls).length = 2 ^ 70 ∧
      sodiumBlockSize * s.2.ic.toNat + s.2.bytesRemaining = 0 := by
  intro session
  refine ⟨⟨session, rfl, by decide⟩, ?_⟩
  have hblock : (List.replicate 1024 (0 : UInt8)).length = 1024 := List.length_replicate
  generalize List.replicate 1024 (0 : UInt8) = block at hblock
  have hfits : block.length ≤ bufSize := by rw [hblock]; decide
  have hpos : block ≠ [] := List.ne_nil_of_length_pos (by omega)
  have hlen : (contents (List.replicate (2 ^ 60) (.zeroed, ⟨block, hpos, hfits⟩))).length =
      2 ^ 70 := by
    rw [contents, List.flatMap_replicate, List.length_flatten, List.map_replicate,
      List.sum_replicate, Call.bytes, hblock]
    rfl
  generalize List.replicate _ _ = calls at hlen
  have hne : calls ≠ [] := by
    rintro rfl
    cases hlen
  have hname : Supported Reference.openssl "salsa20" := by decide
  obtain ⟨s, hsend, -, -, hsodium⟩ := encryptAll_eq_oneShot Reference.lawful_openssl hname
    (.zeroed _) [] (.zeroed _) hne
  refine ⟨calls, s, _, hsend, hlen, ?_⟩
  rw [(hsodium (by decide)).2.counters, hlen, Nat.mod_self]

/-- The receiving end, when the first piece holds the iv and possibly more bytes `m`. -/
theorem decryptAll_cons (hS : S.Lawful) {g : Globals S} {c : EncryptionCtx S} (hg : g.Configured)
    (hf : Fresh g c) {call : Call} {iv m : Bytes} (hbytes : call.bytes = iv ++ m)
    (hiv : iv.length = encryptionIvLen g.method) (calls : List Call) :
    let k := (CipherStream.start g false iv).push (m ++ contents calls)
    ∃ s', decryptAll (g, c) (call :: calls) = some (s', k.2) ∧ Carries false s' k.1 := by
  intro k
  have hfit : (iv ++ m).length ≤ bufSize := hbytes ▸ call.2.fits
  obtain ⟨g', c', hcall, hrep, -⟩ := decryptBuf_fresh hS hg hf call.1 hiv hfit
  have hfirst : decryptCall (g, c) call =
      some ((g', c'), [] ++ ((CipherStream.start g false iv).push m).2) := by
    simp only [decryptCall, hbytes, hcall]
    rfl
  exact feed_of_first (CipherStream.chunkable_push hS) (decryptCall_simulates hS)
    (usable_start hS hg false hiv) hfirst hrep calls

end Shadowsocks
