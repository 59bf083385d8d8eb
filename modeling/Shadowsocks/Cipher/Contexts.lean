import Shadowsocks.Cipher.Chunks

/-!
Any number of contexts over one set of globals. `config_encryption` rewrites the globals while
contexts are open, so a context is compared with one on a machine of its own, where nobody
configures anything after its `init_encryption`.
-/
namespace Shadowsocks

open Memory Streaming

variable {S : OpenSSL} {g conf : Globals S} {c : EncryptionCtx S} {enc : Bool}

/-- `encrypt_buf` or `decrypt_buf` -/
def transform (enc : Bool) (s : Session S) (call : Call) : Option (Session S × Bytes) :=
  if enc then encryptCall s call else decryptCall s call

/-- The globals, and under each address the context there together with the configuration
that was in force at its `init_encryption`. -/
structure Machine (S : OpenSSL) where
  globals : Globals S
  contexts : Nat → Option (Globals S × EncryptionCtx S)

inductive Op (S : OpenSSL)
  | config (password : Bytes) (name : String)
  | init (id : Nat) (mem : EncryptionCtx S)
  | transform (id : Nat) (enc : Bool) (call : Call)

namespace Machine

/-- The program starts with no context. -/
def start (S : OpenSSL) : Machine S := ⟨.zeroed S, fun _ => none⟩

def store (m : Machine S) (id : Nat) (conf : Globals S) (c : EncryptionCtx S) : Machine S :=
  { m with contexts := Function.update m.contexts id (some (conf, c)) }

def configure (m : Machine S) (password : Bytes) (name : String) : Machine S :=
  { m with globals := configEncryption m.globals password name }

def initCtx (m : Machine S) (id : Nat) (mem : EncryptionCtx S) : Machine S :=
  m.store id m.globals.config (initEncryption m.globals mem)

@[simp] theorem store_self (m : Machine S) (id : Nat) (conf : Globals S) (c : EncryptionCtx S) :
    (m.store id conf c).contexts id = some (conf, c) := Function.update_self ..

@[simp] theorem configure_contexts (m : Machine S) (password : Bytes) (name : String) :
    (m.configure password name).contexts = m.contexts := rfl

/-- One call; what a context emits carries its address. -/
def step (m : Machine S) : Op S → Option (Machine S × List (Nat × Bytes))
  | .config password name => some (m.configure password name, [])
  | .init id mem => some (m.initCtx id mem, [])
  | .transform id enc call =>
    match m.contexts id with
    | none => some (m, [])
    | some (conf, c) => (Shadowsocks.transform enc (m.globals, c) call).map fun ((g, c), out) =>
        ({ m with globals := g }.store id conf c, [(id, out)])

/-- The same call when every context keeps the configuration of its `init_encryption`. -/
def privateStep (m : Machine S) : Op S → Option (Machine S × List (Nat × Bytes))
  | .config password name => some (m.configure password name, [])
  | .init id mem => some (m.initCtx id mem, [])
  | .transform id enc call =>
    match m.contexts id with
    | none => some (m, [])
    | some (conf, c) => (Shadowsocks.transform enc (conf, c) call).map fun ((_, c), out) =>
        (m.store id conf c, [(id, out)])

end Machine

/-- On whatever a call in this direction reads on the context, the globals are still those of
`conf`: the table of the direction, or method and key, or for OpenSSL only until the cipher
has been keyed. -/
def Agrees (g conf : Globals S) (enc : Bool) (c : EncryptionCtx S) : Prop :=
  match c.cipher with
  | .table => g.tableFor enc = conf.tableFor enc
  | .sodium => g.method = conf.method ∧ front g.key 32 = front conf.key 32
  | .openssl => c.status = .empty → g.method = conf.method ∧ g.evpCipher = conf.evpCipher ∧
      g.keyLen = conf.keyLen ∧ front g.key g.keyLen = front conf.key g.keyLen ∧
      (g.method = encryptionRc4Md5 → front g.key 16 = front conf.key 16)

/-- A sodium context belongs to a sodium method, and once opened its counters are in step. -/
def Running (conf : Globals S) (c : EncryptionCtx S) : Prop :=
  c.cipher = .sodium → IsSodium conf.method ∧ (c.status ≠ .empty →
    ∃ pos, Represents conf true c (.keystream (conf.keystream (front c.iv 8)) pos))

theorem agrees_config (g : Globals S) (enc : Bool) (c : EncryptionCtx S) :
    Agrees g g.config enc c := by
  cases h : c.cipher <;> simp [Agrees, h, Globals.config, Globals.tableFor]

theorem keystream_congr (hm : g.method = conf.method)
    (hk : front g.key 32 = front conf.key 32) : g.keystream = conf.keystream := by
  funext nonce
  simp only [Globals.keystream, hm, hk]

theorem Represents.of_agrees {ks : Nat → UInt8} {pos : Nat}
    (h : Represents conf true c (.keystream ks pos)) (hag : Agrees g conf enc c) :
    Represents g true c (.keystream ks pos) := by
  obtain ⟨hc, hst, hm, hks, hctr⟩ := h
  simp only [Agrees, hc] at hag
  refine ⟨hc, hst, ?_, ?_, hctr⟩
  · rwa [hag.1]
  · rw [hks, keystream_congr hag.1 hag.2]

/-- Past the first call the globals reach the output only through method and key. -/
theorem cipherUpdate_agrees (hag : Agrees g conf enc c) (hrun : Running conf c)
    (hst : c.status ≠ .empty) (hc : c.cipher ≠ .table) (out : Bytes) {inp : Bytes}
    (hlen : inp.length ≤ bufSize) :
    (cipherUpdate g c out inp).2 = (cipherUpdate conf c out inp).2 ∧
      (cipherUpdate g c out inp).1.config = g.config ∧
      Running conf (cipherUpdate conf c out inp).2.1 := by
  cases hfam : c.cipher with
  | table => exact absurd hfam hc
  | openssl =>
    cases hu : S.evpCipherUpdate c.ctx inp <;> simp [cipherUpdate, Running, hfam, hu]
  | sodium =>
    obtain ⟨hm, hopen⟩ := hrun hfam
    obtain ⟨pos, hrep⟩ := hopen hst
    obtain ⟨g', c', hg, -, hcfg, -⟩ := cipherUpdate_sodium (hrep.of_agrees hag) out hlen
    obtain ⟨conf', c'', hconf, hrep', hcfg', hiv⟩ := cipherUpdate_sodium hrep out hlen
    have hctx : (cipherUpdate g c out inp).2.1 = (cipherUpdate conf c out inp).2.1 := by
      simp only [cipherUpdate, hfam]
    rw [hg, hconf] at hctx ⊢
    refine ⟨Prod.ext hctx rfl, hcfg, fun _ => ⟨hm, fun _ => ⟨pos + inp.length, ?_⟩⟩⟩
    rw [hiv]
    exact hrep'.of_config hcfg'.symm

theorem initCipher_sodium (hm : IsSodium g.method) (hc : c.cipher = .sodium) (iv : Bytes) :
    Represents g true (initCipher g c iv enc) (.keystream (g.keystream (front c.iv 8)) 0) := by
  simp only [initCipher, hc]
  exact ⟨rfl, rfl, hm, rfl, rfl, rfl⟩

theorem initCipher_status (g : Globals S) (c : EncryptionCtx S) (iv : Bytes) (enc : Bool) :
    (initCipher g c iv enc).status ≠ .empty := by
  simp only [initCipher, cleanupEncryption]
  split
  · split <;> simp
  · simp
  · simp

theorem trueKey_agrees (hm : g.method = conf.method) (hl : g.keyLen = conf.keyLen)
    (hk : front g.key g.keyLen = front conf.key g.keyLen)
    (hrc4 : g.method = encryptionRc4Md5 → front g.key 16 = front conf.key 16) (iv : Bytes) :
    (trueKey g iv).take conf.keyLen = (trueKey conf iv).take conf.keyLen := by
  rw [← hl]
  by_cases h : g.method = encryptionRc4Md5
  · simp only [trueKey, ← hm, h, if_true, hrc4 h]
  · simp only [trueKey, ← hm, h, if_false]
    exact hk

theorem Agrees.method (hag : Agrees g conf enc c) (hst : c.status = .empty)
    (hc : c.cipher ≠ .table) : g.method = conf.method := by
  cases hfam : c.cipher with
  | table => exact absurd hfam hc
  | sodium =>
    simp only [Agrees, hfam] at hag
    exact hag.1
  | openssl =>
    simp only [Agrees, hfam] at hag
    exact (hag hst).1

/-- Once the method is no longer one of sodium's, nothing is xored with what passes. -/
theorem encryptBuf_of_other_method (hc : c.cipher = .sodium) (hst : c.status ≠ .empty)
    (hm : ¬ IsSodium g.method) (amb : Ambient) {buf : Bytes}
    (hfit : c.bytesRemaining + buf.length ≤ sodiumBufSize) :
    (encryptBuf amb g c buf).2.2 = buf := by
  have hxor : ∀ m, xorIc g c m = m := by
    intro m
    rw [xorIc, if_neg fun h => hm (Or.inl h), if_neg fun h => hm (Or.inr h)]
  have hload := front_memcpy g.sodiumBuf hfit
  have hlen := length_front (memcpy g.sodiumBuf c.bytesRemaining buf) hfit
  have hstore := front_memcpy_zero (memcpy g.sodiumBuf c.bytesRemaining buf)
    (Nat.le_of_eq hlen |>.trans hfit)
  rw [hlen] at hstore
  simp only [encryptBuf, hc, hst, if_false, cipherUpdate, hxor, reduceCtorEq]
  rw [hstore, hload, List.drop_left' (length_front _ (by omega))]

/-- The first call keys the cipher as it would have been keyed right after `init_encryption`. -/
theorem initCipher_agrees (hag : Agrees g conf enc c) (hst : c.status = .empty)
    (hc : c.cipher ≠ .table) (iv iv' : Bytes) :
    initCipher g (c.storeIv iv) iv' enc = initCipher conf (c.storeIv iv) iv' enc := by
  have hm := hag.method hst hc
  cases hfam : c.cipher with
  | table => exact absurd hfam hc
  | sodium => simp only [initCipher, EncryptionCtx.storeIv, hfam, hm]
  | openssl =>
    simp only [Agrees, hfam] at hag
    obtain ⟨-, hcipher, hl, hk, hrc4⟩ := hag hst
    have hkey := trueKey_agrees hm hl hk hrc4 iv'
    simp only [initCipher, EncryptionCtx.storeIv, hfam, hkey, hm, hcipher, hl]

/-- The context that the first call has opened. -/
theorem running_initCipher (hrun : Running conf c) (iv iv' : Bytes) :
    Running conf (initCipher conf (c.storeIv iv) iv' enc) := by
  intro hfam
  rw [initCipher_cipher] at hfam
  obtain ⟨hm, -⟩ := hrun hfam
  refine ⟨hm, fun _ => ⟨0, ?_⟩⟩
  rw [initCipher_iv]
  exact initCipher_sodium hm hfam iv'

theorem Agrees.initCipher (hag : Agrees g conf enc c) (hc : c.cipher ≠ .table) (iv iv' : Bytes) :
    Agrees g conf enc (initCipher conf (c.storeIv iv) iv' enc) := by
  have hst := initCipher_status conf (c.storeIv iv) iv' enc
  have hfam : (Shadowsocks.initCipher conf (c.storeIv iv) iv' enc).cipher = c.cipher :=
    initCipher_cipher ..
  revert hst hfam
  generalize Shadowsocks.initCipher conf (c.storeIv iv) iv' enc = c'
  intro hst hfam
  cases h : c.cipher <;> simp_all [Agrees]

theorem encryptBuf_agrees (hag : Agrees g conf true c) (hrun : Running conf c) (amb : Ambient)
    {buf : Bytes} (hlen : buf.length ≤ bufSize) :
    (encryptBuf amb g c buf).2 = (encryptBuf amb conf c buf).2 ∧
      (encryptBuf amb g c buf).1.config = g.config ∧
      Running conf (encryptBuf amb conf c buf).2.1 := by
  by_cases hc : c.cipher = .table
  · simp only [Agrees, hc, Globals.tableFor, if_true] at hag
    simp only [encryptBuf, hc, if_true, hag]
    exact ⟨trivial, trivial, hrun⟩
  · by_cases hst : c.status = .empty
    · let iv := drawn amb.rand (encryptionIvLen conf.method)
      let opened := initCipher conf (c.storeIv iv) (c.storeIv iv).iv.toList true
      have hm := hag.method hst hc
      have hfam : opened.cipher ≠ .table := by rwa [initCipher_cipher]
      simp only [encryptBuf, hc, hst, if_true, if_false, hm, initCipher_agrees hag hst hc]
      obtain ⟨hcall, hcfg, hrun'⟩ := cipherUpdate_agrees (hag.initCipher hc iv _)
        (running_initCipher hrun iv _) (initCipher_status _ _ _ _) hfam
        (drawn amb.heap (buf.length + opened.ivLen)) hlen
      exact ⟨congrArg (fun r : EncryptionCtx S × Bytes =>
        (r.1, front r.1.iv (encryptionIvLen conf.method) ++ r.2)) hcall, hcfg, hrun'⟩
    · simp only [encryptBuf, hc, hst, if_false]
      exact cipherUpdate_agrees hag hrun hst hc _ hlen

theorem decryptBuf_agrees (hag : Agrees g conf false c) (hrun : Running conf c) (amb : Ambient)
    {buf : Bytes} (hlen : buf.length ≤ bufSize) :
    Option.Rel (fun a b => a.2 = b.2 ∧ a.1.config = g.config ∧ Running conf b.2.1)
      (decryptBuf amb g c buf) (decryptBuf amb conf c buf) := by
  by_cases hc : c.cipher = .table
  · simp only [Agrees, hc, Globals.tableFor, Bool.false_eq_true, if_false] at hag
    simp only [decryptBuf, hc, if_true, hag]
    exact .some ⟨rfl, rfl, hrun⟩
  · by_cases hst : c.status = .empty
    · have hopen := hag.initCipher hc
      have hm := hag.method hst hc
      simp only [decryptBuf, hc, hst, if_true, if_false, hm, initCipher_agrees hag hst hc]
      split
      · exact .none
      · exact .some (cipherUpdate_agrees (hopen _ _) (running_initCipher hrun _ _)
          (initCipher_status _ _ _ _) (by rwa [initCipher_cipher]) _
          (by rw [List.length_drop]; omega))
    · simp only [decryptBuf, hc, hst, if_false]
      exact .some (cipherUpdate_agrees hag hrun hst hc _ hlen)

/-- A call that reads what it would have read on a machine of its own behaves as it would
there. -/
theorem transform_agrees (hag : Agrees g conf enc c) (hrun : Running conf c) (call : Call) :
    Option.Rel (fun a b => a.1.2 = b.1.2 ∧ a.2 = b.2 ∧ a.1.1.config = g.config ∧
        Running conf b.1.2)
      (transform enc (g, c) call) (transform enc (conf, c) call) := by
  cases enc with
  | true =>
    obtain ⟨hcall, hcfg, hrun'⟩ := encryptBuf_agrees hag hrun call.1 call.2.fits
    simp only [transform, if_true, encryptCall, Call.bytes]
    generalize encryptBuf call.1 g c call.2.bytes = x, encryptBuf call.1 conf c call.2.bytes = y
      at hcall hcfg hrun'
    obtain ⟨g', c', out⟩ := x
    obtain ⟨conf', c'', out'⟩ := y
    cases hcall
    exact .some ⟨rfl, rfl, hcfg, hrun'⟩
  | false =>
    have hcall := decryptBuf_agrees hag hrun call.1 call.2.fits
    simp only [transform, Bool.false_eq_true, if_false, decryptCall, Call.bytes]
    generalize decryptBuf call.1 g c call.2.bytes = x, decryptBuf call.1 conf c call.2.bytes = y
      at hcall
    cases hcall with
    | none => exact .none
    | some h => exact .some ⟨congrArg Prod.fst h.1, (congrArg Prod.snd h.1 :), h.2⟩

theorem cipherUpdate_state (g : Globals S) (c : EncryptionCtx S) (out inp : Bytes) :
    (cipherUpdate g c out inp).2.1.cipher = c.cipher ∧
      (cipherUpdate g c out inp).2.1.status = c.status := by
  unfold cipherUpdate
  split
  · split <;> exact ⟨rfl, rfl⟩
  · exact ⟨rfl, rfl⟩
  · exact ⟨rfl, rfl⟩

/-- A context stays with its library, and is open after a call. -/
theorem encryptBuf_state (hc : c.cipher ≠ .table) (amb : Ambient) (buf : Bytes) :
    (encryptBuf amb g c buf).2.1.cipher = c.cipher ∧
      (encryptBuf amb g c buf).2.1.status ≠ .empty := by
  by_cases hst : c.status = .empty
  · simp only [encryptBuf, hc, hst, if_true, if_false]
    obtain ⟨hcipher, hstatus⟩ := cipherUpdate_state g
      (initCipher g (c.storeIv (drawn amb.rand (encryptionIvLen g.method)))
        (c.storeIv (drawn amb.rand (encryptionIvLen g.method))).iv.toList true) _ buf
    rw [hcipher, hstatus, initCipher_cipher]
    exact ⟨rfl, initCipher_status _ _ _ _⟩
  · simp only [encryptBuf, hc, hst, if_false]
    obtain ⟨hcipher, hstatus⟩ := cipherUpdate_state g c _ buf
    rw [hcipher, hstatus]
    exact ⟨rfl, hst⟩

/-- A cipher of OpenSSL that has been keyed reads the globals no more. -/
theorem agrees_of_keyed (hc : c.cipher = .openssl) (hst : c.status ≠ .empty) :
    Agrees g conf enc c := by
  simp only [Agrees, hc]
  exact fun h => absurd h hst

theorem key_salsa20 (hS : S.Lawful) (g : Globals S) (password : Bytes) :
    front (configEncryption g password "salsa20").key 32 =
      S.evpBytesToKey S.evpAes256Cfb password := by
  have hlen : (S.evpBytesToKey S.evpAes256Cfb password).length = 32 := by
    rw [hS.bytesToKey_length, hS.keyLength_aes256]
  have hfits : (S.evpBytesToKey S.evpAes256Cfb password).length ≤ 64 := by
    rw [hlen]
    decide
  have hfront := front_memcpy_zero g.key hfits
  rw [hlen] at hfront
  exact hfront

/-- The same choice made again. -/
theorem agrees_salsa20 (hS : S.Lawful) (g g' : Globals S) (password : Bytes)
    (hc : c.cipher = .sodium) :
    Agrees (configEncryption g password "salsa20") (configEncryption g' password "salsa20").config
      enc c := by
  simp only [Agrees, hc]
  refine ⟨?_, ?_⟩
  · exact (configEncryption_method g password _).trans (configEncryption_method g' password _).symm
  · exact (key_salsa20 hS g password).trans (key_salsa20 hS g' password).symm

/-- The scratch buffer plays no part in the configuration. -/
theorem configEncryption_config {g' : Globals S} (h : g.config = g'.config) (password : Bytes)
    (name : String) :
    (configEncryption g password name).config = (configEncryption g' password name).config := by
  simp only [Globals.config, Globals.mk.injEq, true_and] at h
  obtain ⟨hc, hm, hl, hcipher, hk, hs, he, hd⟩ := h
  unfold configEncryption
  generalize encryptionMethodFromString name = method
  by_cases ht : method = encryptionTable
  · simp [Globals.config, *]
  · by_cases hm : IsSodium method
    · simp [Globals.config, *]
    · cases hname : S.evpGetCipherbyname (evpName method) <;> simp [Globals.config, *]

theorem configEncryption_sodium (old : Globals S) (password : Bytes) (name : String) :
    (configEncryption old password name).cipher = .sodium →
      IsSodium (configEncryption old password name).method := by
  rw [configEncryption_method]
  unfold configEncryption
  generalize encryptionMethodFromString name = method
  by_cases ht : method = encryptionTable
  · simp [ht]
  · by_cases hm : IsSodium method
    · simp [hm]
    · cases hname : S.evpGetCipherbyname (evpName method) <;> simp [ht, hm, hname]

namespace Machine

variable {m p : Machine S}

/-- The two machines have the same contexts and differ at most in the scratch buffer. -/
structure Alike (m p : Machine S) : Prop where
  config : m.globals.config = p.globals.config
  contexts : m.contexts = p.contexts
  sodium : m.globals.cipher = .sodium → IsSodium m.globals.method
  running : ∀ {id conf c}, m.contexts id = some (conf, c) → Running conf c

theorem alike_start : Alike (start S) (start S) :=
  ⟨rfl, rfl, nofun, nofun⟩

/-- The globals still hold what the call reads, as of the `init_encryption` of its context. -/
def Kept (m : Machine S) : Op S → Prop
  | .transform id enc _ => ∀ conf c, m.contexts id = some (conf, c) → Agrees m.globals conf enc c
  | _ => True

theorem Alike.store (h : Alike m p) {g : Globals S} (hg : g.config = m.globals.config) (id : Nat)
    (hrun : Running conf c) :
    Alike ({ m with globals := g }.store id conf c) (p.store id conf c) where
  config := hg.trans h.config
  contexts := by simp only [Machine.store, h.contexts]
  sodium := by
    have hs := h.sodium
    simp only [Globals.config, Globals.mk.injEq] at hg
    simpa only [Machine.store, hg] using hs
  running {id' conf' c'} hid := by
    by_cases hi : id' = id
    · subst hi
      simp only [Machine.store, Function.update_self, Option.some.injEq, Prod.mk.injEq] at hid
      obtain ⟨rfl, rfl⟩ := hid
      exact hrun
    · simp only [Machine.store, Function.update_of_ne hi] at hid
      exact h.running hid

theorem step_alike (op : Op S) (h : Alike m p) (hop : Kept m op) :
    Option.Rel (fun a b => Alike a.1 b.1 ∧ a.2 = b.2) (m.step op) (p.privateStep op) := by
  cases op with
  | config password name =>
    refine .some ⟨⟨configEncryption_config h.config password name, h.contexts,
      configEncryption_sodium _ _ _, h.running⟩, rfl⟩
  | init id mem =>
    have hrun : Running m.globals.config (initEncryption m.globals mem) := by
      intro hfam
      exact ⟨h.sodium hfam, fun hst => absurd rfl hst⟩
    have hinit : p.initCtx id mem = p.store id m.globals.config (initEncryption m.globals mem) := by
      have hfam : p.globals.cipher = m.globals.cipher :=
        (congrArg Globals.cipher h.config.symm : p.globals.config.cipher = _)
      simp only [initCtx, initEncryption, h.config, hfam]
    exact .some ⟨hinit ▸ h.store rfl id hrun, rfl⟩
  | transform id enc call =>
    cases hid : m.contexts id with
    | none =>
      have hid' : p.contexts id = none := by rw [← h.contexts, hid]
      simp only [step, privateStep, hid, hid']
      exact .some ⟨h, rfl⟩
    | some entry =>
      obtain ⟨conf, c⟩ := entry
      have hid' : p.contexts id = some (conf, c) := by rw [← h.contexts, hid]
      have hcall := transform_agrees (hop conf c hid) (h.running hid) call
      simp only [step, privateStep, hid, hid']
      generalize Shadowsocks.transform enc (m.globals, c) call = x,
        Shadowsocks.transform enc (conf, c) call = y at hcall
      cases hcall with
      | none => exact .none
      | some hab =>
        rename_i a b
        obtain ⟨⟨g, c'⟩, out⟩ := a
        obtain ⟨⟨_, c''⟩, out'⟩ := b
        obtain ⟨rfl, rfl, hcfg, hrun⟩ := hab
        exact .some ⟨h.store hcfg id hrun, rfl⟩

/-- In a run whose calls all read the configuration of their context's `init_encryption`, every
context emits what it would emit on a machine of its own. -/
theorem feed_step_eq_private (ops : List (Op S)) (hops : Along step Kept (start S) ops) :
    (feed step (start S) ops).map (fun r => (r.1.contexts, r.2)) =
      (feed privateStep (start S) ops).map (fun r => (r.1.contexts, r.2)) := by
  have hrel := feed_lockstep step_alike alike_start hops
  generalize feed step (start S) ops = x, feed privateStep (start S) ops = y at hrel
  cases hrel with
  | none => rfl
  | some hab => simp only [Option.map_some, hab.1.contexts, hab.2]

theorem step_encrypt {id : Nat} {call : Call} {g₂ conf : Globals S} {c c₂ : EncryptionCtx S}
    {out : Bytes} (hid : m.contexts id = some (conf, c))
    (h : encryptBuf call.1 m.globals c call.bytes = (g₂, c₂, out)) :
    m.step (.transform id true call) =
      some ({ m with globals := g₂ }.store id conf c₂, [(id, out)]) := by
  simp only [step, hid, Shadowsocks.transform, if_true, encryptCall, h, Option.map_some]

theorem privateStep_encrypt {id : Nat} {call : Call} {g₂ conf : Globals S}
    {c c₂ : EncryptionCtx S} {out : Bytes} (hid : m.contexts id = some (conf, c))
    (h : encryptBuf call.1 conf c call.bytes = (g₂, c₂, out)) :
    m.privateStep (.transform id true call) = some (m.store id conf c₂, [(id, out)]) := by
  simp only [privateStep, hid, Shadowsocks.transform, if_true, encryptCall, h, Option.map_some]

theorem step_transform_encrypt {id : Nat} {call : Call} {outs : List (Nat × Bytes)}
    {m' : Machine S} (hid : m.contexts id = some (conf, c)) (hc : c.cipher ≠ .table)
    (h : m.step (.transform id true call) = some (m', outs)) :
    ∃ g' c', c'.cipher = c.cipher ∧ c'.status ≠ .empty ∧
      m' = { m with globals := g' }.store id conf c' := by
  obtain ⟨hcipher, hopen⟩ := encryptBuf_state (g := m.globals) hc call.1 call.bytes
  rw [step_encrypt hid rfl] at h
  exact ⟨_, _, hcipher, hopen, (congrArg Prod.fst (Option.some.inj h)).symm⟩

/-- Two live contexts: the one of rc4-md5 has been keyed when salsa20 is chosen, and the one of
salsa20 is open when the same choice is made again. -/
theorem feed_step_eq_private_kept :
    let ops : List (Op Reference.openssl) := [.config [1] "rc4-md5", .init 0 (.zeroed _),
      .transform 0 true (.zeroed, ⟨[1], by decide, by decide⟩), .config [2] "salsa20",
      .init 1 (.zeroed _), .transform 1 true (.zeroed, ⟨[2], by decide, by decide⟩),
      .config [2] "salsa20", .transform 1 true (.zeroed, ⟨[3], by decide, by decide⟩),
      .transform 0 true (.zeroed, ⟨[4], by decide, by decide⟩)]
    (feed step (start _) ops).map (fun r => (r.1.contexts, r.2)) =
      (feed privateStep (start _) ops).map (fun r => (r.1.contexts, r.2)) := by
  refine feed_step_eq_private _ ⟨trivial, ?_⟩
  rintro _ _ ⟨rfl⟩
  refine ⟨trivial, ?_⟩
  rintro _ _ ⟨rfl⟩
  -- the context of rc4-md5 is keyed
  let m₀ := ((start Reference.openssl).configure [1] "rc4-md5").initCtx 0 (.zeroed _)
  let c₀ := initEncryption m₀.globals (.zeroed _)
  have h₀ : m₀.contexts 0 = some (m₀.globals.config, c₀) := store_self ..
  refine ⟨?_, ?_⟩
  · rintro _ _ ⟨rfl⟩
    exact agrees_config _ _ _
  intro m₁ _ hstep
  obtain ⟨g₁, c₀', hcipher, hkeyed, rfl⟩ := step_transform_encrypt h₀ (by decide) hstep
  refine ⟨trivial, ?_⟩
  rintro _ _ ⟨rfl⟩
  refine ⟨trivial, ?_⟩
  rintro _ _ ⟨rfl⟩
  -- the context of salsa20 is opened
  let m₂ := (({ m₀ with globals := g₁ }.store 0 m₀.globals.config c₀').configure [2]
    "salsa20").initCtx 1 (.zeroed _)
  let c₁ := initEncryption m₂.globals (.zeroed _)
  have h₂ : m₂.contexts 1 = some (m₂.globals.config, c₁) := store_self ..
  have hc₁ : c₁.cipher = .sodium := rfl
  refine ⟨?_, ?_⟩
  · intro conf c hc
    obtain ⟨rfl, rfl⟩ := Prod.mk.inj (Option.some.inj (h₂.symm.trans hc))
    exact agrees_config _ _ _
  intro m₃ _ hstep
  obtain ⟨g₃, c₁', hsodium, -, rfl⟩ := step_transform_encrypt h₂ (by rw [hc₁]; decide) hstep
  refine ⟨trivial, ?_⟩
  rintro _ _ ⟨rfl⟩
  let m₄ := ({ m₂ with globals := g₃ }.store 1 m₂.globals.config c₁').configure [2] "salsa20"
  have h₄ : m₄.contexts 1 = some (m₂.globals.config, c₁') := by
    rw [configure_contexts]
    exact store_self ..
  refine ⟨?_, ?_⟩
  · intro conf c hc
    obtain ⟨rfl, rfl⟩ := Prod.mk.inj (Option.some.inj (h₄.symm.trans hc))
    exact agrees_salsa20 Reference.lawful_openssl _ _ _ (hsodium.trans hc₁)
  intro m₅ _ hstep
  obtain ⟨g₅, c₁'', -, -, rfl⟩ := step_transform_encrypt h₄ (by rw [hsodium, hc₁]; decide) hstep
  -- the context of rc4-md5 again
  refine ⟨?_, fun _ _ _ => trivial⟩
  intro conf c hc
  have h₀' : ({ m₄ with globals := g₅ }.store 1 m₂.globals.config c₁'').contexts 0 =
      some (m₀.globals.config, c₀') := rfl
  obtain ⟨rfl, rfl⟩ := Prod.mk.inj (Option.some.inj (h₀'.symm.trans hc))
  exact agrees_of_keyed hcipher hkeyed

/-- A salsa20 context, its first packet, another configuration, its second packet. -/
def reconfigured : List (Op Reference.openssl) :=
  [.config [] "salsa20", .init 0 (.zeroed _),
    .transform 0 true (.zeroed, ⟨[1], by decide, by decide⟩), .config [] "rc4-md5",
    .transform 0 true (.zeroed, ⟨[1, 2, 3], by decide, by decide⟩)]

/-- The second packet leaves as it came. -/
theorem reconfigured_leaks : ∃ first second,
    (feed step (start _) reconfigured).map Prod.snd = some [(0, first), (0, [1, 2, 3])] ∧
    (feed privateStep (start _) reconfigured).map Prod.snd = some [(0, first), (0, second)] ∧
    second ≠ [1, 2, 3] := by
  have hS := Reference.lawful_openssl
  let g := configEncryption (.zeroed Reference.openssl) [] "salsa20"
  let c := initEncryption g (.zeroed _)
  have hg : g.Configured := configured_configEncryption hS (by decide) _ _
  have hfam : g.cipher = .sodium := rfl
  have hone : [(1 : UInt8)].length ≤ bufSize := by decide
  have hthree : [(1 : UInt8), 2, 3].length ≤ bufSize := by decide
  have hiv : (drawn Ambient.zeroed.rand (encryptionIvLen g.method)).length = 8 := rfl
  -- the first packet, the same on both machines
  obtain ⟨g₂, c₂, hfirst, hrep, hcfg⟩ :=
    encryptBuf_fresh hS hg (fresh_initEncryption g (.zeroed _)) .zeroed hone rfl
  rw [start_sodium hfam true hiv] at hfirst hrep
  have hrun : Running g.config c := fun _ => ⟨by decide, fun h => absurd rfl h⟩
  obtain ⟨hsame, -, -⟩ := encryptBuf_agrees (agrees_config g true c) hrun .zeroed hone
  rw [hfirst] at hsame
  generalize hprivate : encryptBuf .zeroed g.config c [1] = alone at hsame
  obtain ⟨conf₂, c₂', first⟩ := alone
  cases hsame
  generalize drawn _ _ ++ _ = first at hfirst hprivate
  -- the second: untouched on the one, at the next keystream byte on the other
  have hleak := encryptBuf_of_other_method (g := configEncryption g₂ [] "rc4-md5") hrep.1
    (by rw [hrep.2.1]; decide) (by rw [configEncryption_method]; decide) .zeroed
    (padding_le hrep.2.2.2.2.2 hthree)
  generalize hchanged : encryptBuf .zeroed (configEncryption g₂ [] "rc4-md5") c₂ _ = leak at hleak
  obtain ⟨g₃, c₃, out⟩ := leak
  obtain rfl : out = [1, 2, 3] := hleak
  have hconf : g.config.config = g₂.config := hcfg.symm
  obtain ⟨g₄, c₄, hsecond, -, -⟩ :=
    encryptBuf_represents hS (hrep.of_config hconf) .zeroed hthree
  generalize hout : (CipherStream.push _ [1, 2, 3]).2 = second at hsecond
  have hkey : front g.key 32 = Reference.openssl.evpBytesToKey .aes256Cfb [] :=
    front_memcpy_zero _ (by decide +kernel)
  have hbyte : g.keystream (drawn Ambient.zeroed.rand (encryptionIvLen g.method)) 1 ≠ 0 := by
    simp only [Globals.keystream, hkey]
    decide +kernel
  let m := ((start Reference.openssl).configure [] "salsa20").initCtx 0 (.zeroed _)
  have hm : m.contexts 0 = some (g.config, c) := store_self ..
  refine ⟨first, second, ?_, ?_, ?_⟩
  · let m' := ({ m with globals := g₂ }.store 0 g.config c₂).configure [] "rc4-md5"
    have hm' : m'.contexts 0 = some (g.config, c₂) := by
      simp only [m', configure_contexts, store_self]
    have hstep : m.step (.transform 0 true (.zeroed, ⟨[1], by decide, by decide⟩)) =
        some ({ m with globals := g₂ }.store 0 g.config c₂, [(0, first)]) :=
      step_encrypt hm hfirst
    have hstep' : m'.step (.transform 0 true (.zeroed, ⟨[1, 2, 3], by decide, by decide⟩)) =
        some ({ m' with globals := g₃ }.store 0 g.config c₃, [(0, [1, 2, 3])]) :=
      step_encrypt hm' hchanged
    rw [reconfigured, feed_cons rfl, feed_cons rfl, feed_cons hstep, feed_cons rfl,
      feed_cons hstep']
    rfl
  · let m' := (m.store 0 g.config c₂).configure [] "rc4-md5"
    have hm' : m'.contexts 0 = some (g.config, c₂) := by
      simp only [m', configure_contexts, store_self]
    have hstep : m.privateStep (.transform 0 true (.zeroed, ⟨[1], by decide, by decide⟩)) =
        some (m.store 0 g.config c₂, [(0, first)]) := privateStep_encrypt hm hprivate
    have hstep' :
        m'.privateStep (.transform 0 true (.zeroed, ⟨[1, 2, 3], by decide, by decide⟩)) =
          some (m'.store 0 g.config c₄, [(0, second)]) := privateStep_encrypt hm' hsecond
    rw [reconfigured, feed_cons rfl, feed_cons rfl, feed_cons hstep, feed_cons rfl,
      feed_cons hstep']
    rfl
  · rintro rfl
    simp only [CipherStream.push, Keystream.xorAt] at hout
    have hhead : (1 : UInt8) ^^^ g.keystream (drawn Ambient.zeroed.rand (encryptionIvLen g.method)) 1 =
        1 := by simpa using congrArg List.head? hout
    exact hbyte ((UInt8.xor_right_inj 1).mp (hhead.trans rfl))

end Machine

end Shadowsocks
