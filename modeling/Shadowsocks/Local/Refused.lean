import Shadowsocks.Cipher.Contexts
import Shadowsocks.Local.Handshake

/-!
A context that OpenSSL refuses to set up. `init_cipher` then returns before `iv_len` is assigned,
and tells nobody. The calls on the context are followed in the order of the source here, with
`EVP_CipherUpdate` as a parameter: on a context without a cipher some versions do not return.
-/
namespace Shadowsocks

open Memory

variable {S : OpenSSL} {g : Globals S} {c : EncryptionCtx S} {enc : Bool}

/-- The first call on the context takes the branch of `init_cipher` in which
`EVP_CIPHER_CTX_set_key_length` returns 0. -/
def Refuses (g : Globals S) (c : EncryptionCtx S) (enc : Bool) : Prop :=
  c.cipher = .openssl ∧ c.status = .empty ∧
    S.evpCipherCtxSetKeyLength (S.evpCipherSetup g.evpCipher enc) g.keyLen = none

/-- What that branch leaves behind. -/
def Refused (c : EncryptionCtx S) : Prop :=
  c.cipher = .openssl ∧ c.status = .destroyed ∧ ∃ ctx, c.ctx = S.evpCipherCtxCleanup ctx

/-- The context after that branch. -/
def refuse (g : Globals S) (c : EncryptionCtx S) (enc : Bool) : EncryptionCtx S :=
  { c with
    status := .destroyed
    ctx := S.evpCipherCtxCleanup (S.evpCipherSetup g.evpCipher enc) }

theorem initCipher_refuses (h : Refuses g c enc) (iv : Bytes) :
    initCipher g c iv enc = refuse g c enc := by
  obtain ⟨hc, -, hkey⟩ := h
  simp [initCipher, cleanupEncryption, refuse, hc, hkey]

theorem refused_refuse (h : Refuses g c enc) : Refused (refuse g c enc) :=
  ⟨h.1, rfl, _, rfl⟩

theorem Refuses.storeIv (h : Refuses g c enc) (iv : Bytes) : Refuses g (c.storeIv iv) enc := h

/-- What `EVP_CipherUpdate` makes of a context, of what `out` holds and of the input: the context,
and what `out` holds up to `*outl`. It is `none` when the call does not return. -/
abbrev Updates (S : OpenSSL) := S.EvpCtx → Bytes → Bytes → Option (S.EvpCtx × Bytes)

/-- With `evpCipherUpdate` it always returns. -/
def OpenSSL.updates (S : OpenSSL) : Updates S := fun ctx out inp =>
  some ((S.evpCipherUpdate ctx inp).getD (ctx, out))

inductive Effect
  /-- A block of `out_len` bytes is asked for. -/
  | malloc (outLen : Nat)
  /-- These bytes are in the buffer of the caller. -/
  | produce (bytes : Bytes)
  /-- These bytes have been taken by the kernel. -/
  | send (bytes : Bytes)
  /-- `send` has returned the length, which lets `server_recv_cb` go on to stage 5. -/
  | advance
  deriving DecidableEq

def Effect.length : Effect → Nat
  | malloc outLen => outLen
  | produce bytes => bytes.length
  | send bytes => bytes.length
  | advance => 0

/-- The effects of a call, and what it leaves unless the process ends in it. -/
abbrev Traced (α : Type) := List Effect × Option α

namespace Traced

variable (update : Updates S) (amb : Ambient) (g : Globals S) (c : EncryptionCtx S)

def cipherUpdate (out inp : Bytes) : Option (Globals S × EncryptionCtx S × Bytes) :=
  if c.cipher = .openssl then
    (update c.ctx out inp).map fun (ctx, out) => (g, { c with ctx := ctx }, out)
  else some (Shadowsocks.cipherUpdate g c out inp)

/-- From `malloc` to the copy of the text into the buffer, behind the bytes of `head`. -/
def convert (outLen : Nat) (inp head : Bytes) : Traced (Session S × Bytes) :=
  match cipherUpdate update g c (drawn amb.heap outLen) inp with
  | none => ([.malloc outLen], none)
  | some (g, c, text) =>
    ([.malloc outLen, .produce (head ++ text)], some ((g, c), head ++ text))

def encryptBuf (buf : Bytes) : Traced (Session S × Bytes) :=
  if c.cipher = .table then
    let out := Table.substitute g.encryptTable buf
    ([.produce out], some ((g, c), out))
  else if c.status = .empty then
    let ivLen := encryptionIvLen g.method
    let c := c.storeIv (drawn amb.rand ivLen)
    let c := initCipher g c c.iv.toList true
    convert update amb g c ((buf.length + c.ivLen) % 2 ^ 64) buf (front c.iv ivLen)
  else convert update amb g c ((buf.length + c.ivLen) % 2 ^ 64) buf []

/-- What comes of a piece shorter than the iv is left open, but for the block. -/
def decryptBuf (buf : Bytes) : Traced (Session S × Bytes) :=
  if c.cipher = .table then
    let out := Table.substitute g.decryptTable buf
    ([.produce out], some ((g, c), out))
  else if c.status = .empty then
    let ivLen := encryptionIvLen g.method
    let c := c.storeIv (buf.take ivLen)
    let c := initCipher g c c.iv.toList false
    let outLen := (buf.length + c.ivLen + (2 ^ 64 - ivLen)) % 2 ^ 64
    if buf.length < ivLen then ([.malloc outLen], none)
    else convert update amb g c outLen (buf.drop ivLen) []
  else convert update amb g c ((buf.length + c.ivLen) % 2 ^ 64) buf []

/-- `send_encrypt`, when `send` comes to `res`. -/
def sendEncrypt (buf : Bytes) (res : SendResult) : Traced (Session S × Bytes) :=
  match encryptBuf update amb g c buf with
  | (effects, none) => (effects, none)
  | (effects, some (s, out)) =>
    let passed := if sizeT (res.ret out.length) = out.length then [Effect.advance] else []
    (effects ++ .send (res.taken out) :: passed, some (s, out))

end Traced

/-- A call on a context. -/
inductive Use
  | encryptBuf (call : Call)
  | decryptBuf (call : Call)
  | sendEncrypt (call : Call) (res : SendResult)

namespace Use

def encrypts : Use → Bool
  | encryptBuf _ => true
  | decryptBuf _ => false
  | sendEncrypt .. => true

def trace (update : Updates S) (s : Session S) : Use → Traced (Session S × Bytes)
  | encryptBuf call => Traced.encryptBuf update call.1 s.1 s.2 call.bytes
  | decryptBuf call => Traced.decryptBuf update call.1 s.1 s.2 call.bytes
  | sendEncrypt call res => Traced.sendEncrypt update call.1 s.1 s.2 call.bytes res

end Use

/-- The effects of call after call, as long as the process lasts. -/
def effects (update : Updates S) : Session S → List Use → List Effect
  | _, [] => []
  | s, u :: us =>
    match u.trace update s with
    | (done, none) => done
    | (done, some (s, _)) => done ++ effects update s us

/-- Nothing is produced and nothing is sent, no length depends on what `ctx->iv_len` holds, and no
connection gets past the request. -/
structure FailClosed (update : Updates S) (g : Globals S) (c : EncryptionCtx S)
    (us : List Use) : Prop where
  silent : ∀ bytes, .produce bytes ∈ effects update (g, c) us ∨
    .send bytes ∈ effects update (g, c) us → bytes = []
  blind : ∀ n n', (effects update (g, { c with ivLen := n }) us).map Effect.length =
    (effects update (g, { c with ivLen := n' }) us).map Effect.length
  halted : .advance ∉ effects update (g, c) us

/-! The same functions as elsewhere, when `EVP_CipherUpdate` returns. -/

namespace Traced

variable {amb : Ambient} {buf : Bytes}

theorem cipherUpdate_eq (g : Globals S) (c : EncryptionCtx S) (out inp : Bytes) :
    cipherUpdate S.updates g c out inp = some (Shadowsocks.cipherUpdate g c out inp) := by
  obtain ⟨ctx, status, iv, ivLen, bytesRemaining, ic, cipher⟩ := c
  cases cipher with
  | openssl =>
    simp only [cipherUpdate, Shadowsocks.cipherUpdate, OpenSSL.updates, if_true]
    cases S.evpCipherUpdate ctx inp <;> rfl
  | table => rfl
  | sodium => rfl

theorem cipherUpdate_iv (g : Globals S) (c : EncryptionCtx S) (out inp : Bytes) :
    (Shadowsocks.cipherUpdate g c out inp).2.1.iv = c.iv := by
  unfold Shadowsocks.cipherUpdate
  split
  · split <;> rfl
  · rfl
  · rfl

theorem convert_eq (amb : Ambient) (g : Globals S) (c : EncryptionCtx S) (outLen : Nat)
    (inp head : Bytes) :
    let r := Shadowsocks.cipherUpdate g c (drawn amb.heap outLen) inp
    (convert S.updates amb g c outLen inp head).2 = some ((r.1, r.2.1), head ++ r.2.2) := by
  simp only [convert, cipherUpdate_eq]

/-- No length comes near the end of `size_t`, unless `iv_len` does. -/
theorem outLen_initCipher (hlen : buf.length ≤ bufSize) (hiv : c.ivLen + bufSize < 2 ^ 64)
    (iv iv' : Bytes) (enc : Bool) :
    buf.length + (initCipher g (c.storeIv iv) iv' enc).ivLen < 2 ^ 64 := by
  have hsixteen : encryptionIvLen g.method + bufSize < 2 ^ 64 :=
    Nat.lt_of_le_of_lt (Nat.add_le_add_right (ivLen_le g.method) _) (by decide)
  have hcases : (initCipher g (c.storeIv iv) iv' enc).ivLen = encryptionIvLen g.method ∨
      (initCipher g (c.storeIv iv) iv' enc).ivLen = c.ivLen := by
    simp only [initCipher, cleanupEncryption]
    split
    · split <;> simp [EncryptionCtx.storeIv]
    · simp
    · simp
  rcases hcases with h | h <;> rw [h] <;> omega

theorem encryptBuf_eq (hlen : buf.length ≤ bufSize) (hiv : c.ivLen + bufSize < 2 ^ 64)
    (g : Globals S) (amb : Ambient) :
    let r := Shadowsocks.encryptBuf amb g c buf
    (encryptBuf S.updates amb g c buf).2 = some ((r.1, r.2.1), r.2.2) := by
  by_cases hc : c.cipher = .table
  · simp only [encryptBuf, Shadowsocks.encryptBuf, hc, if_true]
  · by_cases hst : c.status = .empty
    · simp only [encryptBuf, Shadowsocks.encryptBuf, hc, hst, if_true, if_false, convert_eq,
        Nat.mod_eq_of_lt (outLen_initCipher hlen hiv _ _ _), cipherUpdate_iv]
    · have hlt : buf.length + c.ivLen < 2 ^ 64 := by omega
      simp only [encryptBuf, Shadowsocks.encryptBuf, hc, hst, if_false, convert_eq,
        Nat.mod_eq_of_lt hlt, List.nil_append]

theorem decryptBuf_eq (hlen : buf.length ≤ bufSize) (hiv : c.ivLen + bufSize < 2 ^ 64)
    (g : Globals S) (amb : Ambient) :
    (decryptBuf S.updates amb g c buf).2 =
      (Shadowsocks.decryptBuf amb g c buf).map fun r => ((r.1, r.2.1), r.2.2) := by
  by_cases hc : c.cipher = .table
  · simp only [decryptBuf, Shadowsocks.decryptBuf, hc, if_true, Option.map_some]
  · by_cases hst : c.status = .empty
    · by_cases hshort : buf.length < encryptionIvLen g.method
      · simp only [decryptBuf, Shadowsocks.decryptBuf, hc, hst, hshort, if_true, if_false,
          Option.map_none]
      · have hwrap : ∀ n, buf.length + n < 2 ^ 64 →
            (buf.length + n + (2 ^ 64 - encryptionIvLen g.method)) % 2 ^ 64 =
              buf.length + n - encryptionIvLen g.method := by
          have := ivLen_le g.method
          omega
        simp only [decryptBuf, Shadowsocks.decryptBuf, hc, hst, hshort, if_true, if_false,
          convert_eq, hwrap _ (outLen_initCipher hlen hiv _ _ _), List.nil_append, Option.map_some]
    · have hlt : buf.length + c.ivLen < 2 ^ 64 := by omega
      simp only [decryptBuf, Shadowsocks.decryptBuf, hc, hst, if_false, convert_eq,
        Nat.mod_eq_of_lt hlt, List.nil_append, Option.map_some]

theorem advance_notMem_convert (update : Updates S) (amb : Ambient) (g : Globals S)
    (c : EncryptionCtx S) (outLen : Nat) (inp head : Bytes) :
    .advance ∉ (convert update amb g c outLen inp head).1 := by
  simp only [convert]
  split <;> simp

theorem advance_notMem_encryptBuf (update : Updates S) (amb : Ambient) (g : Globals S)
    (c : EncryptionCtx S) (buf : Bytes) : .advance ∉ (encryptBuf update amb g c buf).1 := by
  simp only [encryptBuf]
  split
  · simp
  · split <;> exact advance_notMem_convert _ _ _ _ _ _ _

/-- `send_encrypt` lets the request through when the kernel takes all that has become of it. -/
theorem advance_mem_sendEncrypt (hlen : buf.length ≤ bufSize) (hiv : c.ivLen + bufSize < 2 ^ 64)
    (g : Globals S) (amb : Ambient) (res : SendResult) :
    .advance ∈ (sendEncrypt S.updates amb g c buf res).1 ↔
      sizeT (res.ret (Shadowsocks.encryptBuf amb g c buf).2.2.length) =
        (Shadowsocks.encryptBuf amb g c buf).2.2.length := by
  have hout := encryptBuf_eq hlen hiv g amb
  have hnone := advance_notMem_encryptBuf S.updates amb g c buf
  simp only [sendEncrypt]
  generalize encryptBuf S.updates amb g c buf = r at hout hnone
  obtain ⟨done, left⟩ := r
  obtain rfl : left = _ := hout
  simp only [List.mem_append, hnone, List.mem_cons, reduceCtorEq, false_or]
  split <;> simp_all

end Traced

/-- A request that parses leads to stage 5 exactly when `send_encrypt` lets it through and the
reply goes out. -/
theorem relay_iff_advance {ans : Answers S} {remotePort : UInt16} {p : Pair S} {sbuf : Buffer}
    {h : Half S} {piece : Piece} {header : Bytes} (hp : p.phase = .handshake true sbuf h)
    (hrecv : ans.recv = .data piece) (haddr : addrToSend (memcpy sbuf 0 piece.bytes) = .ok header)
    (hiv : h.sendCtx.ivLen + bufSize < 2 ^ 64) :
    (p.onServerRecv g ans remotePort).2.phase.stage = some .relay ↔
      .advance ∈ (Traced.sendEncrypt S.updates ans.ambient g h.sendCtx header
        (ans.send (encryptBuf ans.ambient g h.sendCtx header).2.2.length)).1 ∧
      ¬ sizeT ((ans.reply 10).ret 10) < 10 := by
  rw [Traced.advance_mem_sendEncrypt (length_header haddr) hiv]
  have hrequest : (p.onServerRecv g ans remotePort).2 = (Pair.request g ans remotePort
      { p with client := p.client.receive piece.bytes } (memcpy sbuf 0 piece.bytes) h).2 := by
    simp only [Pair.onServerRecv, hp, hrecv, if_true]
  rw [hrequest]
  constructor
  · intro hstage
    obtain ⟨other, henters⟩ := Pair.stage_request hp hrecv hstage
    obtain rfl := Except.ok.inj (haddr.symm.trans henters.parsed)
    exact henters.served
  · exact fun hserved => (Pair.enters_request remotePort hp hrecv haddr hserved).stage

/-! From the branch on. -/

namespace Traced

variable {update : Updates S} {amb : Ambient} {buf : Bytes}

theorem convert_head (update : Updates S) (amb : Ambient) (g : Globals S) (c : EncryptionCtx S)
    (outLen : Nat) (inp head : Bytes) :
    ∃ rest, (convert update amb g c outLen inp head).1 = .malloc outLen :: rest := by
  simp only [convert]
  split <;> exact ⟨_, rfl⟩

/-- The first thing that is done with a context that is refused is to ask for a block of
`*len + iv_len` bytes. -/
theorem encryptBuf_head (update : Updates S) (amb : Ambient) (buf : Bytes)
    (h : Refuses g c true ∨ Refused c) : ∃ rest,
    (encryptBuf update amb g c buf).1 = .malloc ((buf.length + c.ivLen) % 2 ^ 64) :: rest := by
  rcases h with h | ⟨hc, hst, -⟩
  · have hinit := h.storeIv (drawn amb.rand (encryptionIvLen g.method))
    simp only [encryptBuf, h.1, h.2.1, reduceCtorEq, if_true, if_false, initCipher_refuses hinit]
    exact convert_head ..
  · simp only [encryptBuf, hc, hst, reduceCtorEq, if_false]
    exact convert_head ..

theorem sendEncrypt_head (update : Updates S) (amb : Ambient) (buf : Bytes) (res : SendResult)
    (h : Refuses g c true ∨ Refused c) : ∃ rest,
    (sendEncrypt update amb g c buf res).1 =
      .malloc ((buf.length + c.ivLen) % 2 ^ 64) :: rest := by
  obtain ⟨rest, hrest⟩ := encryptBuf_head update amb buf h
  simp only [sendEncrypt]
  generalize encryptBuf update amb g c buf = r at hrest
  obtain ⟨done, left⟩ := r
  obtain rfl : done = _ := hrest
  cases left with
  | none => exact ⟨rest, rfl⟩
  | some s => exact ⟨_, rfl⟩

/-- On the first call the length of the iv is taken off again. -/
theorem decryptBuf_head (update : Updates S) (amb : Ambient) (buf : Bytes)
    (h : Refuses g c false ∨ Refused c) : ∃ rest, (decryptBuf update amb g c buf).1 =
      .malloc ((buf.length + c.ivLen +
        if c.status = .empty then 2 ^ 64 - encryptionIvLen g.method else 0) % 2 ^ 64) :: rest := by
  rcases h with h | ⟨hc, hst, -⟩
  · have hinit := h.storeIv (buf.take (encryptionIvLen g.method))
    simp only [decryptBuf, h.1, h.2.1, reduceCtorEq, if_true, if_false, initCipher_refuses hinit]
    split
    · exact ⟨[], rfl⟩
    · exact convert_head ..
  · simp only [decryptBuf, hc, hst, reduceCtorEq, if_false]
    exact convert_head ..

end Traced

theorem Use.trace_head (update : Updates S) {u : Use} (h : Refuses g c u.encrypts ∨ Refused c) :
    ∃ len, ∀ n, ∃ rest, (u.trace update (g, { c with ivLen := n })).1 =
      .malloc ((len + n) % 2 ^ 64) :: rest := by
  have hany : ∀ n, Refuses g { c with ivLen := n } u.encrypts ∨ Refused { c with ivLen := n } :=
    fun _ => h.imp id id
  cases u with
  | encryptBuf call =>
    exact ⟨_, fun n => Traced.encryptBuf_head update call.1 call.bytes (hany n)⟩
  | decryptBuf call =>
    refine ⟨call.bytes.length +
      if c.status = .empty then 2 ^ 64 - encryptionIvLen g.method else 0, fun n => ?_⟩
    rw [Nat.add_right_comm]
    exact Traced.decryptBuf_head update call.1 call.bytes (hany n)
  | sendEncrypt call res =>
    exact ⟨_, fun n => Traced.sendEncrypt_head update call.1 call.bytes res (hany n)⟩

theorem effects_head {update : Updates S} {s : Session S} {u : Use} {e : Effect}
    {rest : List Effect} (h : (u.trace update s).1 = e :: rest) (us : List Use) :
    ∃ rest, effects update s (u :: us) = e :: rest := by
  simp only [effects]
  generalize u.trace update s = r at h
  obtain ⟨done, left⟩ := r
  obtain rfl : done = _ := h
  cases left with
  | none => exact ⟨rest, rfl⟩
  | some s => exact ⟨_, rfl⟩

/-- From the branch on, in the call that runs into it and in any later one, nothing that is done
with the context is fail-closed, whatever `EVP_CipherUpdate` does: the first block that is asked
for is as long as `iv_len` makes it. -/
theorem not_failClosed (update : Updates S) {u : Use} (h : Refuses g c u.encrypts ∨ Refused c)
    (us : List Use) : ¬ FailClosed update g c (u :: us) := by
  intro hclosed
  obtain ⟨len, hhead⟩ := u.trace_head update h
  -- with nothing in `iv_len`, and with 1 in it
  obtain ⟨_, hzero⟩ := hhead 0
  obtain ⟨_, hzero⟩ := effects_head hzero us
  obtain ⟨_, hone⟩ := hhead 1
  obtain ⟨_, hone⟩ := effects_head hone us
  have hsame := hclosed.blind 0 1
  rw [hzero, hone, List.map_cons, List.map_cons] at hsame
  have hfirst : (len + 0) % 2 ^ 64 = (len + 1) % 2 ^ 64 := (List.cons.inj hsame).1
  omega

/-- aes-128-cfb when the connection is accepted, salsa20 before its first packet: the cipher is
still that of aes-128-cfb, and the key length is 32. `EVP_CipherUpdate` may return, with `*outl` at
0, or end the process. -/
theorem not_failClosed_aes :
    let g := configEncryption (.zeroed Reference.aes) [] "aes-128-cfb"
    let request : Call := (.zeroed, ⟨[1, 1, 2, 3, 4, 0, 80], by decide, by decide⟩)
    let us := [.sendEncrypt request (.accepted 15), .decryptBuf request]
    ¬ FailClosed Reference.aes.updates (configEncryption g [] "salsa20")
        (initEncryption g (.zeroed _)) us ∧
      ¬ FailClosed (fun _ _ _ => none) (configEncryption g [] "salsa20")
        (initEncryption g (.zeroed Reference.aes)) us :=
  ⟨not_failClosed _ (Or.inl ⟨rfl, rfl, rfl⟩) _, not_failClosed _ (Or.inl ⟨rfl, rfl, rfl⟩) _⟩

/-! What the library adds to it. -/

namespace Traced

variable {update : Updates S}

theorem convert_ends (hend : ∀ ctx out inp, update (S.evpCipherCtxCleanup ctx) out inp = none)
    (h : Refused c) (amb : Ambient) (outLen : Nat) (inp head : Bytes) :
    convert update amb g c outLen inp head = ([.malloc outLen], none) := by
  obtain ⟨hc, -, ctx, hctx⟩ := h
  have hnone : cipherUpdate update g c (drawn amb.heap outLen) inp = none := by
    rw [cipherUpdate, if_pos hc, hctx, hend]
    rfl
  rw [convert, hnone]

theorem encryptBuf_ends (hend : ∀ ctx out inp, update (S.evpCipherCtxCleanup ctx) out inp = none)
    (h : Refuses g c true ∨ Refused c) (amb : Ambient) (buf : Bytes) :
    ∃ outLen, encryptBuf update amb g c buf = ([.malloc outLen], none) := by
  rcases h with h | h
  · have hinit := h.storeIv (drawn amb.rand (encryptionIvLen g.method))
    simp only [encryptBuf, h.1, h.2.1, reduceCtorEq, if_true, if_false, initCipher_refuses hinit]
    exact ⟨_, convert_ends hend (refused_refuse hinit) ..⟩
  · simp only [encryptBuf, h.1, h.2.1, reduceCtorEq, if_false]
    exact ⟨_, convert_ends hend h ..⟩

theorem decryptBuf_ends (hend : ∀ ctx out inp, update (S.evpCipherCtxCleanup ctx) out inp = none)
    (h : Refuses g c false ∨ Refused c) (amb : Ambient) (buf : Bytes) :
    ∃ outLen, decryptBuf update amb g c buf = ([.malloc outLen], none) := by
  rcases h with h | h
  · have hinit := h.storeIv (buf.take (encryptionIvLen g.method))
    simp only [decryptBuf, h.1, h.2.1, reduceCtorEq, if_true, if_false, initCipher_refuses hinit]
    split
    · exact ⟨_, rfl⟩
    · exact ⟨_, convert_ends hend (refused_refuse hinit) ..⟩
  · simp only [decryptBuf, h.1, h.2.1, reduceCtorEq, if_false]
    exact ⟨_, convert_ends hend h ..⟩

end Traced

/-- Where the process ends in `EVP_CipherUpdate` nothing else than the length goes wrong. -/
theorem effects_ends {update : Updates S}
    (hend : ∀ ctx out inp, update (S.evpCipherCtxCleanup ctx) out inp = none) {u : Use}
    (h : Refuses g c u.encrypts ∨ Refused c) (us : List Use) :
    ∃ outLen, effects update (g, c) (u :: us) = [.malloc outLen] := by
  have htrace : ∃ outLen, u.trace update (g, c) = ([.malloc outLen], none) := by
    cases u with
    | encryptBuf call => exact Traced.encryptBuf_ends hend h call.1 call.bytes
    | decryptBuf call => exact Traced.decryptBuf_ends hend h call.1 call.bytes
    | sendEncrypt call res =>
      obtain ⟨outLen, hcall⟩ := Traced.encryptBuf_ends hend h call.1 call.bytes
      exact ⟨outLen, by rw [Use.trace, Traced.sendEncrypt, hcall]⟩
  obtain ⟨outLen, htrace⟩ := htrace
  exact ⟨outLen, by rw [effects, htrace]⟩

/-- Where it returns, the iv goes out with whatever it has left at `out`. -/
theorem encryptBuf_refuses (h : Refuses g c true) (amb : Ambient) {buf out : Bytes} {ctx : S.EvpCtx}
    (hupdate : S.evpCipherUpdate (S.evpCipherCtxCleanup (S.evpCipherSetup g.evpCipher true)) buf =
      some (ctx, out)) :
    (encryptBuf amb g c buf).2.2 = drawn amb.rand (encryptionIvLen g.method) ++ out := by
  have hinit := h.storeIv (drawn amb.rand (encryptionIvLen g.method))
  have hfront : front (refuse g (c.storeIv (drawn amb.rand (encryptionIvLen g.method))) true).iv
      (encryptionIvLen g.method) = drawn amb.rand (encryptionIvLen g.method) :=
    front_storeIv c (length_drawn amb.rand (encryptionIvLen g.method))
  simp only [encryptBuf, h.1, h.2.1, reduceCtorEq, if_true, if_false, initCipher_refuses hinit,
    Traced.cipherUpdate_iv, hfront]
  have hc : (refuse g (c.storeIv (drawn amb.rand (encryptionIvLen g.method))) true).cipher =
      .openssl := h.1
  have hcall : S.evpCipherUpdate
      (refuse g (c.storeIv (drawn amb.rand (encryptionIvLen g.method))) true).ctx buf =
        some (ctx, out) := hupdate
  simp only [cipherUpdate, hc, hcall]

namespace World

/-- The block for the seven bytes of the request is as long as `iv_len` makes it. With a library
that returns, the connection reaches stage 5 after the eight bytes of the iv. -/
theorem refused_advances : ∃ w w' : World Reference.aes,
    let g := configEncryption (.zeroed Reference.aes) [] "aes-128-cfb"
    let c := initEncryption g (.zeroed _)
    let amb : Ambient := ⟨fun _ => 1, fun _ => 0⟩
    let header : Piece := ⟨[1, 1, 2, 3, 4, 0, 80], by decide, by decide⟩
    (start g 0).run [.accept [attempt _], .fire (.remoteSend 0) connects,
      .fire (.serverRecv 0) (delivers (.zeroed, ⟨[5, 1, 0], by decide, by decide⟩)),
      .config [] "salsa20" 0] = .ok w ∧
    w.step (.fire (.serverRecv 0) (delivers (amb,
      ⟨[5, 1, 0, 1, 1, 2, 3, 4, 0, 80], by decide, by decide⟩))) = .ok w' ∧
    (w.cells 0).remote.map Remote.sendEncryptionCtx = some c ∧ Refuses w.globals c true ∧
    (∀ (update : Updates Reference.aes) (n : Nat), ∃ rest,
      effects update (w.globals, { c with ivLen := n }) [.sendEncrypt (amb, header) (.accepted 8)] =
        .malloc ((7 + n) % 2 ^ 64) :: rest) ∧
    w.stageOf 0 = some .request ∧ w'.stageOf 0 = some .relay ∧
    (w'.cells 0).upstream.map Socket.accepted = some (List.replicate 8 1) := by
  let g := configEncryption (.zeroed Reference.aes) [] "aes-128-cfb"
  let t := attempt Reference.aes
  let c := initEncryption g t.sendMem
  let greeting : Piece := ⟨[5, 1, 0], by decide, by decide⟩
  let request : Piece := ⟨[5, 1, 0, 1, 1, 2, 3, 4, 0, 80], by decide, by decide⟩
  let header : Piece := ⟨[1, 1, 2, 3, 4, 0, 80], by decide, by decide⟩
  let amb : Ambient := ⟨fun _ => 1, fun _ => 0⟩
  let p : Pair Reference.aes := asked g t (delivers (.zeroed, greeting)) greeting
  let w : World Reference.aes :=
    { (start g 0).advance.put 0 (p.cell 0) with globals := configEncryption g [] "salsa20" }
  have hcell : w.cells 0 = p.cell 0 := put_cells (start g 0).advance 0 (p.cell 0)
  have hrefuses : Refuses w.globals c true := ⟨rfl, rfl, rfl⟩
  have hparsed : addrToSend (memcpy (memcpy t.serverBuf 0 greeting.bytes) 0 request.bytes) =
      .ok [1, 1, 2, 3, 4, 0, 80] := addrToSend_request _ (by decide) 5 0
  have hbytes : (encryptBuf (delivers (S := Reference.aes) (amb, request)).ambient w.globals
      (initEncryption g t.sendMem) [1, 1, 2, 3, 4, 0, 80]).2.2 = List.replicate 8 1 :=
    encryptBuf_refuses hrefuses amb rfl
  have hserved : Served w.globals (delivers (amb, request)) (initEncryption g t.sendMem)
      [1, 1, 2, 3, 4, 0, 80] := by
    simp only [Served, hbytes]
    exact ⟨rfl, by decide⟩
  obtain ⟨w', p', hstep, -, hcell', henter⟩ := step_served hcell rfl hparsed hserved
  refine ⟨w, w', run_asked rfl ⟨rfl, rfl⟩ rfl _, hstep, ?_, hrefuses, ?_, stageOf_eq hcell, ?_, ?_⟩
  · rw [hcell]
    rfl
  · intro update n
    have hn : Refuses w.globals { c with ivLen := n } true := hrefuses
    let u : Use := .sendEncrypt (amb, header) (.accepted 8)
    have hhead : ∃ rest, (u.trace update (w.globals, { c with ivLen := n })).1 =
        .malloc ((7 + n) % 2 ^ 64) :: rest :=
      Traced.sendEncrypt_head update amb header.bytes (.accepted 8) (Or.inl hn)
    obtain ⟨rest, hhead⟩ := hhead
    exact effects_head hhead []
  · rw [stageOf_eq hcell', henter.stage]
  · have hup := henter.upstream
    simp only [hbytes] at hup
    rw [hcell']
    exact congrArg (fun s => some s.accepted) hup

end World

end Shadowsocks
