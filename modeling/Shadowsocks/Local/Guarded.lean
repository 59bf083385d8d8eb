import Shadowsocks.Cipher.Guarded
import Shadowsocks.Local.Isolation

/-!
The callbacks of local.m with every access to a buffer checked. A run of the checked callbacks
that goes through ends where the run of the others does.
-/
namespace Shadowsocks

open Memory

variable {S : OpenSSL}

/-- `ADDR_STR_LEN` -/
def addrStrLen : Nat := 512

/-- What must not happen in C: a pointer that dangles or is null, or an access outside a block. -/
inductive Violation
  | pointer (fault : Fault)
  | outside

def inside {α : Type} (x : Option α) : Except Violation α := x.elim (.error .outside) .ok

def pointed {α : Type} (x : Except Fault α) : Except Violation α := x.mapError .pointer

@[simp] theorem inside_some {α : Type} (x : α) : inside (some x) = .ok x := rfl

@[simp] theorem inside_none {α : Type} : inside (none : Option α) = .error .outside := rfl

@[simp] theorem pointed_ok {α : Type} (x : α) : pointed (.ok x) = .ok x := rfl

@[simp] theorem pointed_error {α : Type} (fault : Fault) :
    pointed (.error fault : Except Fault α) = .error (.pointer fault) := rfl

theorem pointed_bind {α β : Type} (x : Except Fault α) (f : α → Except Fault β) :
    pointed (x >>= f) = pointed x >>= fun a => pointed (f a) := by
  cases x <;> rfl

theorem ok_bind {α β ε : Type} (x : α) (f : α → Except ε β) :
    ((.ok x : Except ε α) >>= f) = f x := rfl

theorem error_bind {α β ε : Type} (x : ε) (f : α → Except ε β) :
    ((.error x : Except ε α) >>= f) = .error x := rfl

namespace Guarded

/-- The parser of stage 1, which fills `addr_to_send`, `addr_str` and `temp`. The results are
`addr_to_send` and `addr_len`. -/
def addrToSend (amb : Ambient) (buf : Buffer) :
    Option (Except Refusal (Vector UInt8 addrStrLen × Nat)) := do
  let cmd ← buf[1]?
  if cmd ≠ socksCmdConnect then some (.error .unsupportedCmd)
  else
    let atyp ← buf[3]?
    let addr ← store (amb.block addrStrLen) 0 [atyp]
    if atyp = socksIpv4 then
      let bytes ← load buf 4 6
      let addr ← store addr 1 bytes
      some (.ok (addr, 7))
    else if atyp = socksDomain then
      let nameLen ← buf[4]?
      let addr ← store addr 1 [nameLen]
      let name ← load buf 5 nameLen.toNat
      let addr ← store addr 2 name
      let addrStr ← store (amb.block addrStrLen) 0 name
      let _ ← store addrStr nameLen.toNat [0]
      let high ← buf[5 + nameLen.toNat]?
      let addr ← store addr (2 + nameLen.toNat) [high]
      let low ← buf[5 + nameLen.toNat + 1]?
      let addr ← store addr (2 + nameLen.toNat + 1) [low]
      let temp ← store (amb.block 256) 0 name
      let _ ← store temp nameLen.toNat [0]
      some (.ok (addr, 2 + nameLen.toNat + 2))
    else some (.error .unsupportedAddrtype)

/-- The result is what is handed to `send`. -/
def sendEncrypt {n : Nat} (amb : Ambient) (g : Globals S) (c : EncryptionCtx S)
    (buf : Vector UInt8 n) (len : Nat) : Option (Globals S × EncryptionCtx S × Bytes) := do
  let bytes ← load buf 0 len
  let mybuf ← store (amb.block 4096) 0 bytes
  let (g, c, mybuf, len) ← encryptBuf amb g c mybuf len
  let out ← load mybuf 0 len
  some (g, c, out)

def relayUp (w : World S) (a r : Addr) (bytes : Bytes) (ans : Answers S) :
    Except Violation (World S) := do
  let remote ← pointed (w.remote r)
  let buf ← inside (store remote.buf 0 bytes)
  let (g, ctx, buf, len) ←
    inside (encryptBuf ans.ambient w.globals remote.sendEncryptionCtx buf bytes.length)
  let remote := { remote with buf := buf, sendEncryptionCtx := ctx }
  let offered ← inside (load buf 0 len)
  let res := ans.send len
  let sent := res.ret len
  let w := ((w.setGlobals g).setRemote r remote).send remote.fd offered res
  if sent = -1 then
    if res.wouldBlock then
      let w := w.setRemote r { remote with bufLen := len }
      pure ((w.evIoStop (.serverRecv a)).evIoStart (.remoteSend r))
    else pointed (w.closeServerThenRemote (some a) (some r))
  else if sent < len then
    let buf ← inside (slide buf sent.toNat len)
    let w := w.setRemote r { remote with buf := buf, bufLen := len - sent.toNat }
    pure ((w.evIoStop (.serverRecv a)).evIoStart (.remoteSend r))
  else pure w

def selectMethod (w : World S) (a : Addr) (bytes : Bytes) (ans : Answers S) :
    Except Violation (World S) := do
  let server ← pointed (w.server a)
  let buf ← inside (store server.buf 0 bytes)
  let w := w.send server.fd methodSelectResponse (ans.send methodSelectResponse.length)
  pure (w.setServer a { server with buf := buf, stage := .request })

def request (w : World S) (a r : Addr) (bytes : Bytes) (ans : Answers S) :
    Except Violation (World S) := do
  let server ← pointed (w.server a)
  let buf ← inside (store server.buf 0 bytes)
  let server := { server with buf := buf }
  let w := w.setServer a server
  let parsed ← inside (addrToSend ans.ambient server.buf)
  match parsed with
  | .error .unsupportedCmd =>
    let w := w.send server.fd unsupportedCmdResponse (ans.send unsupportedCmdResponse.length)
    pointed (w.closeServerThenRemote (some a) (some r))
  | .error .unsupportedAddrtype => pointed (w.closeServerThenRemote (some a) (some r))
  | .ok (addr, addrLen) => do
    let remote ← pointed (w.remote r)
    let (g, ctx, out) ←
      inside (sendEncrypt ans.ambient w.globals remote.sendEncryptionCtx addr addrLen)
    let res := ans.send out.length
    let w := (w.setGlobals g).setRemote r { remote with sendEncryptionCtx := ctx }
    let w := w.send remote.fd out res
    if sizeT (res.ret out.length) ≠ out.length then
      pointed (w.closeRemoteThenServer (some r) (some a))
    else
      let reply := connectReply w.remotePort
      let buf ← inside (store server.buf 0 reply)
      let server := { server with buf := buf }
      let offered ← inside (load buf 0 reply.length)
      let res := ans.reply reply.length
      let w := (w.setServer a server).send server.fd offered res
      if sizeT (res.ret reply.length) < reply.length then
        pointed (w.closeRemoteThenServer (some r) (some a))
      else
        let w := w.evIoStart (.remoteRecv r)
        pure (w.setServer a { server with stage := .relay })

def serverRecvCb (w : World S) (a : Addr) (ans : Answers S) : Except Violation (World S) := do
  let server ← pointed (w.server a)
  match server.remote with
  | none => pointed (w.closeAndFreeServer (some a))
  | some r =>
    match ans.recv with
    -- the branches without data touch no buffer
    | .data piece =>
      let w := w.receive server.fd piece.bytes
      match server.stage with
      | .relay => relayUp w a r piece.bytes ans
      | .methodSelect => selectMethod w a piece.bytes ans
      | .request => request w a r piece.bytes ans
    | _ => pointed (w.serverRecvCb a ans)

def serverSendCb (w : World S) (a : Addr) (ans : Answers S) : Except Violation (World S) := do
  let server ← pointed (w.server a)
  if server.bufLen = 0 then pointed (w.closeServerThenRemote (some a) server.remote)
  else
    let offered ← inside (load server.buf 0 server.bufLen)
    let res := ans.send server.bufLen
    let sent := res.ret server.bufLen
    let w := w.send server.fd offered res
    if sent < 0 then
      if res.wouldBlock then pure w
      else pointed (w.closeServerThenRemote (some a) server.remote)
    else if sent < server.bufLen then
      let buf ← inside (slide server.buf sent.toNat server.bufLen)
      pure (w.setServer a { server with buf := buf, bufLen := server.bufLen - sent.toNat })
    else
      let w := (w.setServer a { server with bufLen := 0 }).evIoStop (.serverSend a)
      match server.remote with
      | some r => do
        let _ ← pointed (w.remote r)
        pure (w.evIoStart (.remoteRecv r))
      | none => pointed (w.closeServerThenRemote (some a) none)

def relayDown (w : World S) (a s : Addr) (bytes : Bytes) (ans : Answers S) :
    Except Violation (World S) := do
  let remote ← pointed (w.remote a)
  let server ← pointed (w.server s)
  let buf ← inside (store server.buf 0 bytes)
  let (g, ctx, buf, len) ←
    inside (decryptBuf ans.ambient w.globals remote.recvEncryptionCtx buf bytes.length)
  let server := { server with buf := buf }
  let offered ← inside (load buf 0 len)
  let res := ans.send len
  let sent := res.ret len
  let w := (w.setGlobals g).setRemote a { remote with recvEncryptionCtx := ctx }
  let w := (w.setServer s server).send server.fd offered res
  if sent = -1 then
    if res.wouldBlock then
      let w := w.setServer s { server with bufLen := len }
      pure ((w.evIoStop (.remoteRecv a)).evIoStart (.serverSend s))
    else pointed (w.closeServerThenRemote (some s) (some a))
  else if sent < len then
    let buf ← inside (slide buf sent.toNat len)
    let w := w.setServer s { server with buf := buf, bufLen := len - sent.toNat }
    pure ((w.evIoStop (.remoteRecv a)).evIoStart (.serverSend s))
  else pure w

def remoteRecvCb (w : World S) (a : Addr) (ans : Answers S) : Except Violation (World S) := do
  let remote ← pointed (w.remote a)
  match remote.server with
  | none => pointed (w.closeAndFreeRemote (some a))
  | some s =>
    match ans.recv with
    | .data piece => relayDown (w.receive remote.fd piece.bytes) a s piece.bytes ans
    | _ => pointed (w.remoteRecvCb a ans)

def remoteSendCb (w : World S) (a : Addr) (ans : Answers S) : Except Violation (World S) := do
  let remote ← pointed (w.remote a)
  if ¬ remote.connected ∨ remote.bufLen = 0 then pointed (w.remoteSendCb a ans)
  else
    let offered ← inside (load remote.buf 0 remote.bufLen)
    let res := ans.send remote.bufLen
    let sent := res.ret remote.bufLen
    let w := w.send remote.fd offered res
    if sent < 0 then
      if res.wouldBlock then pure w
      else pointed (w.closeRemoteThenServer (some a) remote.server)
    else if sent < remote.bufLen then
      let buf ← inside (slide remote.buf sent.toNat remote.bufLen)
      pure (w.setRemote a { remote with buf := buf, bufLen := remote.bufLen - sent.toNat })
    else
      let w := w.evIoStop (.remoteSend a)
      match remote.server with
      | some s => do
        let _ ← pointed (w.server s)
        pure (w.evIoStart (.serverRecv s))
      | none => pointed (w.closeRemoteThenServer (some a) none)

def callback (w : World S) : Watcher → Answers S → Except Violation (World S)
  | .serverRecv a => serverRecvCb w a
  | .serverSend a => serverSendCb w a
  | .remoteRecv a => remoteRecvCb w a
  | .remoteSend a => remoteSendCb w a

/-- `accept_cb` writes no buffer. -/
def step (w : World S) : Event S → Except Violation (World S)
  | .fire x ans => if w.isActive x then callback w x ans else pure w
  | e => pointed (w.step e)

def run (w : World S) : List (Event S) → Except Violation (World S)
  | [] => pure w
  | e :: es => do
    let w ← step w e
    run w es

variable {g : Globals S} {c : EncryptionCtx S} {w : World S} {ans : Answers S} {a r s : Addr}

theorem getElem?_byteAt (buf : Buffer) {i : Nat} (h : i < bufferSize) :
    buf[i]? = some (byteAt buf i) := by
  have hi : i < buf.toList.length := by rwa [Vector.length_toList]
  rw [byteAt, List.getD_eq_getElem _ _ hi, Vector.getElem?_eq_getElem h]
  rfl

/-- The stack arrays of the parser have room for the type of an address. -/
theorem store_atyp (amb : Ambient) (atyp : UInt8) : store (amb.block addrStrLen) 0 [atyp] =
    some (memcpy (amb.block addrStrLen) 0 [atyp]) := by
  apply store_zero
  simp [addrStrLen]

theorem addrToSend_error (amb : Ambient) {buf : Buffer} {refusal : Refusal}
    (h : Shadowsocks.addrToSend buf = .error refusal) :
    addrToSend amb buf = some (.error refusal) := by
  have hsize : bufferSize = 1548 := rfl
  simp only [Shadowsocks.addrToSend] at h
  rw [addrToSend, getElem?_byteAt buf (by omega), getElem?_byteAt buf (by omega)]
  simp only [Option.bind_eq_bind, Option.bind_some, store_atyp]
  by_cases hcmd : byteAt buf 1 ≠ socksCmdConnect
  · rw [if_pos hcmd] at h ⊢
    cases h
    rfl
  · rw [if_neg hcmd] at h ⊢
    by_cases hipv4 : byteAt buf 3 = socksIpv4
    · rw [if_pos hipv4] at h
      cases h
    · by_cases hdomain : byteAt buf 3 = socksDomain
      · rw [if_neg hipv4, if_pos hdomain] at h
        cases h
      · rw [if_neg hipv4, if_neg hdomain] at h ⊢
        cases h
        rfl

/-- Every request that is forwarded fits, with its address, into the arrays of the parser. -/
theorem addrToSend_ok (amb : Ambient) {buf : Buffer} {header : Bytes}
    (h : Shadowsocks.addrToSend buf = .ok header) :
    addrToSend amb buf =
      some (.ok (memcpy (amb.block addrStrLen) 0 header, header.length)) := by
  have hsize : bufferSize = 1548 := rfl
  have hroom : addrStrLen = 512 := rfl
  have hlt := (byteAt buf 4).toNat_lt
  simp only [Shadowsocks.addrToSend] at h
  rw [addrToSend, getElem?_byteAt buf (by omega), getElem?_byteAt buf (by omega),
    getElem?_byteAt buf (by omega)]
  simp only [Option.bind_eq_bind, Option.bind_some, store_atyp]
  by_cases hcmd : byteAt buf 1 ≠ socksCmdConnect
  · rw [if_pos hcmd] at h
    cases h
  · rw [if_neg hcmd] at h ⊢
    by_cases hipv4 : byteAt buf 3 = socksIpv4
    · rw [if_pos hipv4] at h ⊢
      cases h
      have hlength : (slice buf 4 6).length = 6 := length_slice buf (by omega)
      have hload : load buf 4 6 = some (slice buf 4 6) := load_of_le (by omega)
      have hstore := store_memcpy (amb.block addrStrLen) 1 (a := [byteAt buf 3]) (b := slice buf 4 6)
        rfl (by omega)
      rw [hload, Option.bind_some, hstore, Option.bind_some, List.length_append, hlength]
      rfl
    · rw [if_neg hipv4] at h ⊢
      by_cases hdomain : byteAt buf 3 = socksDomain
      · rw [if_pos hdomain] at h ⊢
        cases h
        generalize hname : slice buf 5 (byteAt buf 4).toNat = name
        have hlength : name.length = (byteAt buf 4).toNat := by
          rw [← hname, length_slice buf (by omega)]
        have hload : load buf 5 (byteAt buf 4).toNat = some name := by
          rw [← hname]
          exact load_of_le (by omega)
        have hone := store_memcpy (amb.block addrStrLen) 1 (a := [byteAt buf 3])
          (b := [byteAt buf 4]) rfl (by simp [hroom])
        have htwo := store_memcpy (amb.block addrStrLen) 2 (a := [byteAt buf 3] ++ [byteAt buf 4])
          (b := name) rfl (by omega)
        have hthree := store_memcpy (amb.block addrStrLen) (2 + (byteAt buf 4).toNat)
          (a := [byteAt buf 3] ++ [byteAt buf 4] ++ name)
          (b := [byteAt buf (5 + (byteAt buf 4).toNat)])
          (by rw [List.length_append, hlength]; rfl) (by rw [List.length_singleton]; omega)
        have hfour := store_memcpy (amb.block addrStrLen) (2 + (byteAt buf 4).toNat + 1)
          (a := [byteAt buf 3] ++ [byteAt buf 4] ++ name ++ [byteAt buf (5 + (byteAt buf 4).toNat)])
          (b := [byteAt buf (5 + (byteAt buf 4).toNat + 1)])
          (by rw [List.length_append, List.length_append, hlength]; rfl)
          (by rw [List.length_singleton]; omega)
        have hstr : store (amb.block addrStrLen) 0 name =
            some (memcpy (amb.block addrStrLen) 0 name) := store_zero (by omega)
        have hstrEnd := store_memcpy (amb.block addrStrLen) _ (a := name) (b := [0]) hlength.symm
          (by rw [List.length_singleton]; omega)
        have htemp : store (amb.block 256) 0 name = some (memcpy (amb.block 256) 0 name) :=
          store_zero (by omega)
        have htempEnd := store_memcpy (amb.block 256) _ (a := name) (b := [0]) hlength.symm
          (by rw [List.length_singleton]; omega)
        simp only [hload, hone, htwo, hthree, hfour, hstr, hstrEnd, htemp, htempEnd,
          getElem?_byteAt buf (show 5 + (byteAt buf 4).toNat < bufferSize by omega),
          getElem?_byteAt buf (show 5 + (byteAt buf 4).toNat + 1 < bufferSize by omega),
          Option.bind_some, List.length_append, List.length_cons, List.length_nil, hlength]
        simp
      · rw [if_neg hdomain] at h
        cases h

/-- `mybuf` has room for every header and its iv. -/
theorem sendEncrypt_eq {n : Nat} (hS : S.Lawful) (hg : g.Configured) (h : c.Sound g true)
    (amb : Ambient) (block : Vector UInt8 n) {header : Bytes} (hn : header.length ≤ n)
    (hlen : header.length ≤ bufSize) :
    ∃ g' c' out, Shadowsocks.encryptBuf amb g c header = (g', c', out) ∧
      sendEncrypt amb g c (memcpy block 0 header) header.length = some (g', c', out) := by
  have hsize : bufSize = 1500 := rfl
  have hload : load (memcpy block 0 header) 0 header.length = some header := by
    rw [load_front hn, front_memcpy_zero _ hn]
  have hstore : store (amb.block 4096) 0 header = some (memcpy (amb.block 4096) 0 header) :=
    store_zero (by omega)
  have hfront : front (memcpy (amb.block 4096) 0 header) header.length = header :=
    front_memcpy_zero _ (by omega)
  obtain ⟨g', c', out, hcall, hguarded, hout, -, -⟩ :=
    encryptBuf_eq hS hg h amb (memcpy (amb.block 4096) 0 header) hlen (by omega)
  rw [hfront] at hcall
  have hread : load (memcpy (memcpy (amb.block 4096) 0 header) 0 out) 0 out.length = some out := by
    rw [load_front (by omega), front_memcpy_zero _ (by omega)]
  refine ⟨g', c', out, hcall, ?_⟩
  simp only [sendEncrypt, hload, hstore, hguarded, hread, Option.bind_eq_bind, Option.bind_some]

/-- What is left of a piece that has been offered is moved within the buffer. -/
theorem slide_ret (res : SendResult) (buf : Buffer) {len : Nat} (hlen : len ≤ bufferSize)
    (hret : res.ret len < len) : slide buf (res.ret len).toNat len =
      some (moveDown buf (res.ret len).toNat len) := by
  apply slide_of_le
  · omega
  · exact hlen

theorem relayUp_eq (hS : S.Lawful) (hg : w.globals.Configured) {remote : Remote S}
    (hr : w.remote r = .ok remote) (hsound : remote.sendEncryptionCtx.Sound w.globals true)
    (piece : Piece) :
    relayUp w a r piece.bytes ans = pointed (w.relayUp a r piece.bytes ans) := by
  have hsize : bufferSize = 1548 := rfl
  have hbuf : bufSize = 1500 := rfl
  have hpiece := piece.fits
  have hstore : store remote.buf 0 piece.bytes = some (memcpy remote.buf 0 piece.bytes) :=
    store_zero (by omega)
  obtain ⟨g', c', out, hcall, hguarded, hout, -, -⟩ := encryptBuf_eq hS hg hsound ans.ambient
    (memcpy remote.buf 0 piece.bytes) hpiece (by omega)
  have hfits : out.length ≤ bufferSize := by omega
  have hload : load (memcpy (memcpy remote.buf 0 piece.bytes) 0 out) 0 out.length =
      some (front (memcpy (memcpy remote.buf 0 piece.bytes) 0 out) out.length) := load_front hfits
  simp only [relayUp, World.relayUp, hr, pointed_ok, ok_bind, hstore, inside_some, hguarded, hcall,
    hload]
  by_cases herr : (ans.send out.length).ret out.length = -1
  · simp only [if_pos herr]
    split_ifs <;> rfl
  · by_cases hpart : (ans.send out.length).ret out.length < out.length
    · simp only [if_neg herr, if_pos hpart, slide_ret _ _ hfits hpart, inside_some, ok_bind]
      rfl
    · simp only [if_neg herr, if_neg hpart]
      rfl

/-- A first piece without the whole iv is the only thing that can go wrong. -/
theorem relayDown_eq (hS : S.Lawful) (hg : w.globals.Configured) {remote : Remote S}
    {server : Server} (hr : w.remote a = .ok remote) (hs : w.server s = .ok server)
    (hsound : remote.recvEncryptionCtx.Sound w.globals false) {piece : Piece}
    (hwhole : Shadowsocks.decryptBuf ans.ambient w.globals remote.recvEncryptionCtx piece.bytes ≠ none) :
    relayDown w a s piece.bytes ans = pointed (w.relayDown a s piece.bytes ans) := by
  have hsize : bufferSize = 1548 := rfl
  have hbuf : bufSize = 1500 := rfl
  have hpiece := piece.fits
  have hstore : store server.buf 0 piece.bytes = some (memcpy server.buf 0 piece.bytes) :=
    store_zero (by omega)
  have hfront : front (memcpy server.buf 0 piece.bytes) piece.bytes.length = piece.bytes :=
    front_memcpy_zero _ (by omega)
  rw [← hfront] at hwhole
  obtain ⟨g', c', out, hcall, hguarded, hout, -, -⟩ := decryptBuf_eq hS hg hsound ans.ambient
    (memcpy server.buf 0 piece.bytes) hpiece (by omega) hwhole
  have hfits : out.length ≤ bufferSize := by omega
  have hload : load (memcpy (memcpy server.buf 0 piece.bytes) 0 out) 0 out.length =
      some (front (memcpy (memcpy server.buf 0 piece.bytes) 0 out) out.length) := load_front hfits
  simp only [relayDown, World.relayDown, hr, hs, pointed_ok, ok_bind, hstore, inside_some, hguarded,
    hcall, Option.getD_some, hload]
  by_cases herr : (ans.send out.length).ret out.length = -1
  · simp only [if_pos herr]
    split_ifs <;> rfl
  · by_cases hpart : (ans.send out.length).ret out.length < out.length
    · simp only [if_neg herr, if_pos hpart, slide_ret _ _ hfits hpart, inside_some, ok_bind]
      rfl
    · simp only [if_neg herr, if_neg hpart]
      rfl

/-- And it does. -/
theorem relayDown_eq_outside {remote : Remote S} {server : Server} (hr : w.remote a = .ok remote)
    (hs : w.server s = .ok server) {piece : Piece}
    (hwraps : Shadowsocks.decryptBuf ans.ambient w.globals remote.recvEncryptionCtx piece.bytes = none) :
    relayDown w a s piece.bytes ans = .error .outside := by
  have hsize : bufferSize = 1548 := rfl
  have hbuf : bufSize = 1500 := rfl
  have hpiece := piece.fits
  have hstore : store server.buf 0 piece.bytes = some (memcpy server.buf 0 piece.bytes) :=
    store_zero (by omega)
  have hfront : front (memcpy server.buf 0 piece.bytes) piece.bytes.length = piece.bytes :=
    front_memcpy_zero _ (by omega)
  rw [← hfront] at hwraps
  have hguarded := decryptBuf_eq_none ans.ambient (memcpy server.buf 0 piece.bytes)
    (show piece.bytes.length ≤ bufferSize by omega) (by omega) hwraps
  simp only [relayDown, hr, hs, pointed_ok, ok_bind, hstore, inside_some, hguarded, inside_none,
    error_bind]

theorem selectMethod_eq (w : World S) (a : Addr) (piece : Piece) (ans : Answers S) :
    selectMethod w a piece.bytes ans = pointed (w.selectMethod a piece.bytes ans) := by
  cases hs : w.server a with
  | error fault => simp only [selectMethod, World.selectMethod, hs, pointed_error, error_bind]
  | ok server =>
    have hstore : store server.buf 0 piece.bytes = some (memcpy server.buf 0 piece.bytes) :=
      store_zero (Pair.length_le_bufferSize piece)
    simp only [selectMethod, World.selectMethod, hs, pointed_ok, ok_bind, hstore, inside_some]
    rfl

/-- A pointer to a remote is followed without regard to the servers. -/
theorem remote_setServer (w : World S) (a r : Addr) (server : Server) :
    (w.setServer a server).remote r = w.remote r := by
  simp only [World.remote, World.setServer, World.modify, World.put, Function.update_apply]
  split
  · next h => rw [h]
  · rfl

theorem request_eq (hS : S.Lawful) (hg : w.globals.Configured)
    (hsound : ∀ remote, w.remote r = .ok remote → remote.sendEncryptionCtx.Sound w.globals true)
    (piece : Piece) :
    request w a r piece.bytes ans = pointed (w.request a r piece.bytes ans) := by
  cases hs : w.server a with
  | error fault => simp only [request, World.request, hs, pointed_error, error_bind]
  | ok server =>
    have hstore : store server.buf 0 piece.bytes = some (memcpy server.buf 0 piece.bytes) :=
      store_zero (Pair.length_le_bufferSize piece)
    simp only [request, World.request, hs, pointed_ok, ok_bind, hstore, inside_some]
    cases hparse : Shadowsocks.addrToSend (memcpy server.buf 0 piece.bytes) with
    | error refusal =>
      simp only [addrToSend_error ans.ambient hparse, inside_some, ok_bind]
      cases refusal <;> rfl
    | ok header =>
      have hlen := length_header hparse
      have haddr : header.length ≤ addrStrLen := by
        have hbounds := addressLen_bounds (addrToSend_ok_iff.mp hparse).2.1
        have hroom : addrStrLen = 512 := rfl
        omega
      simp only [addrToSend_ok ans.ambient hparse, inside_some, ok_bind, remote_setServer]
      cases hr : w.remote r with
      | error fault => rfl
      | ok remote =>
        obtain ⟨g', c', out, hcall, hguarded⟩ := sendEncrypt_eq hS hg (hsound remote hr)
          ans.ambient (ans.ambient.block addrStrLen) haddr hlen
        have hreply : ∀ port, (connectReply port).length ≤ bufferSize := fun _ =>
          (by decide : 10 ≤ bufferSize)
        have hstore : ∀ (buf : Buffer) port, store buf 0 (connectReply port) =
            some (memcpy buf 0 (connectReply port)) := fun buf port => store_zero (hreply port)
        have hload : ∀ (buf : Buffer) port, load buf 0 (connectReply port).length =
            some (front buf (connectReply port).length) := fun buf port => load_front (hreply port)
        have hglobals : (w.setServer a { server with buf := memcpy server.buf 0 piece.bytes }).globals
            = w.globals := rfl
        simp only [pointed_ok, ok_bind, hglobals, hcall, hguarded, inside_some, hstore, hload]
        split_ifs <;> rfl

theorem serverSendCb_eq (hlen : ∀ server, w.server a = .ok server → server.bufLen ≤ bufferSize) :
    serverSendCb w a ans = pointed (w.serverSendCb a ans) := by
  cases hs : w.server a with
  | error fault => simp only [serverSendCb, World.serverSendCb, hs, pointed_error, error_bind]
  | ok server =>
    have hlen := hlen server hs
    simp only [serverSendCb, World.serverSendCb, hs, pointed_ok, ok_bind]
    by_cases hzero : server.bufLen = 0
    · simp only [if_pos hzero]
    · have hload : load server.buf 0 server.bufLen = some (front server.buf server.bufLen) :=
        load_front hlen
      simp only [if_neg hzero, hload, inside_some, ok_bind]
      by_cases herr : (ans.send server.bufLen).ret server.bufLen < 0
      · simp only [if_pos herr]
        split_ifs <;> rfl
      · by_cases hpart : (ans.send server.bufLen).ret server.bufLen < server.bufLen
        · simp only [if_neg herr, if_pos hpart, slide_ret _ _ hlen hpart, inside_some, ok_bind]
          rfl
        · simp only [if_neg herr, if_neg hpart]
          cases server.remote with
          | none => rfl
          | some r =>
            dsimp only
            rw [pointed_bind]
            rfl

theorem remoteSendCb_eq (hlen : ∀ remote, w.remote a = .ok remote → remote.bufLen ≤ bufferSize) :
    remoteSendCb w a ans = pointed (w.remoteSendCb a ans) := by
  cases hr : w.remote a with
  | error fault => simp only [remoteSendCb, World.remoteSendCb, hr, pointed_error, error_bind]
  | ok remote =>
    have hlen := hlen remote hr
    simp only [remoteSendCb, hr, pointed_ok, ok_bind]
    by_cases hidle : ¬ remote.connected ∨ remote.bufLen = 0
    · rw [if_pos hidle]
    · have hconnected : ¬ ¬ remote.connected = true := fun h => hidle (Or.inl h)
      have hzero : remote.bufLen ≠ 0 := fun h => hidle (Or.inr h)
      have hload : load remote.buf 0 remote.bufLen = some (front remote.buf remote.bufLen) :=
        load_front hlen
      simp only [if_neg hidle, World.remoteSendCb, hr, ok_bind, if_neg hconnected, if_neg hzero,
        hload, inside_some]
      by_cases herr : (ans.send remote.bufLen).ret remote.bufLen < 0
      · simp only [if_pos herr]
        split_ifs <;> rfl
      · by_cases hpart : (ans.send remote.bufLen).ret remote.bufLen < remote.bufLen
        · simp only [if_neg herr, if_pos hpart, slide_ret _ _ hlen hpart, inside_some, ok_bind]
          rfl
        · simp only [if_neg herr, if_neg hpart]
          cases remote.server with
          | none => rfl
          | some s =>
            dsimp only
            rw [pointed_bind]
            rfl

/-- The sockets have no part in following a pointer. -/
theorem remote_receive (w : World S) (r : Addr) (fd : Fd) (bytes : Bytes) :
    (w.receive fd bytes).remote r = w.remote r := by
  cases fd <;>
  · simp only [World.remote, World.receive, World.onSocket, World.modify, World.put,
      Function.update_apply]
    split
    · next h => rw [h]
    · rfl

theorem server_receive (w : World S) (s : Addr) (fd : Fd) (bytes : Bytes) :
    (w.receive fd bytes).server s = w.server s := by
  cases fd <;>
  · simp only [World.server, World.receive, World.onSocket, World.modify, World.put,
      Function.update_apply]
    split
    · next h => rw [h]
    · rfl

theorem globals_receive (w : World S) (fd : Fd) (bytes : Bytes) :
    (w.receive fd bytes).globals = w.globals := by
  cases fd <;> rfl

theorem serverRecvCb_eq (hS : S.Lawful) (hg : w.globals.Configured)
    (hsound : ∀ {r remote}, w.remote r = .ok remote →
      remote.sendEncryptionCtx.Sound w.globals true) :
    serverRecvCb w a ans = pointed (w.serverRecvCb a ans) := by
  cases hs : w.server a with
  | error fault => simp only [serverRecvCb, World.serverRecvCb, hs, pointed_error, error_bind]
  | ok server =>
    simp only [serverRecvCb, hs, pointed_ok, ok_bind]
    cases hremote : server.remote with
    | none => simp only [World.serverRecvCb, hs, ok_bind, hremote]
    | some r =>
      cases hrecv : ans.recv with
      | data piece =>
        have hg' : (w.receive server.fd piece.bytes).globals.Configured := by
          rw [globals_receive]
          exact hg
        have hsound' : ∀ remote, (w.receive server.fd piece.bytes).remote r = .ok remote →
            remote.sendEncryptionCtx.Sound (w.receive server.fd piece.bytes).globals true := by
          intro remote hr
          rw [remote_receive] at hr
          rw [globals_receive]
          exact hsound hr
        simp only [World.serverRecvCb, hs, ok_bind, hremote, hrecv]
        cases server.stage with
        | methodSelect => exact selectMethod_eq _ _ _ _
        | request => exact request_eq hS hg' hsound' piece
        | relay =>
          cases hr : (w.receive server.fd piece.bytes).remote r with
          | error fault =>
            simp only [relayUp, World.relayUp, hr, pointed_error, error_bind]
          | ok remote => exact relayUp_eq hS hg' hr (hsound' remote hr) piece
      | _ => rfl

theorem remoteRecvCb_eq (hS : S.Lawful) (hg : w.globals.Configured)
    (hsound : ∀ {remote}, w.remote a = .ok remote →
      remote.recvEncryptionCtx.Sound w.globals false)
    (hwhole : ∀ {remote piece}, w.remote a = .ok remote → remote.server.isSome →
      ans.recv = .data piece →
        Shadowsocks.decryptBuf ans.ambient w.globals remote.recvEncryptionCtx piece.bytes ≠ none) :
    remoteRecvCb w a ans = pointed (w.remoteRecvCb a ans) := by
  cases hr : w.remote a with
  | error fault => simp only [remoteRecvCb, World.remoteRecvCb, hr, pointed_error, error_bind]
  | ok remote =>
    simp only [remoteRecvCb, hr, pointed_ok, ok_bind]
    cases hserver : remote.server with
    | none => simp only [World.remoteRecvCb, hr, ok_bind, hserver]
    | some s =>
      cases hrecv : ans.recv with
      | data piece =>
        have hr' : (w.receive remote.fd piece.bytes).remote a = .ok remote := by
          rw [remote_receive]
          exact hr
        simp only [World.remoteRecvCb, hr, ok_bind, hserver, hrecv]
        cases hs : (w.receive remote.fd piece.bytes).server s with
        | error fault =>
          simp only [relayDown, World.relayDown, hr', hs, pointed_ok, ok_bind, pointed_error,
            error_bind]
        | ok server =>
          refine relayDown_eq hS ?_ hr' hs ?_ ?_
          · rw [globals_receive]
            exact hg
          · rw [globals_receive]
            exact hsound hr
          · rw [globals_receive]
            exact hwhole hr (by rw [hserver]; rfl) hrecv
      | _ => rfl

theorem remoteRecvCb_outside {remote : Remote S} {server : Server} (hr : w.remote a = .ok remote)
    (hserver : remote.server = some s) (hs : w.server s = .ok server) {piece : Piece}
    (hrecv : ans.recv = .data piece)
    (hwraps : Shadowsocks.decryptBuf ans.ambient w.globals remote.recvEncryptionCtx piece.bytes =
      none) : remoteRecvCb w a ans = .error .outside := by
  simp only [remoteRecvCb, hr, pointed_ok, ok_bind, hserver, hrecv]
  apply relayDown_eq_outside
  · rw [remote_receive]
    exact hr
  · rw [server_receive]
    exact hs
  · rw [globals_receive]
    exact hwraps

/-- The piece is the first, and shorter than the iv. -/
def Overruns (w : World S) : Event S → Prop
  | .fire x ans => ∃ a remote piece, x = .remoteRecv a ∧ w.isActive x ∧
      (w.cells a).remote = some remote ∧ remote.server.isSome ∧ ans.recv = .data piece ∧
      Shadowsocks.decryptBuf ans.ambient w.globals remote.recvEncryptionCtx piece.bytes = none
  | _ => False

end Guarded

end Shadowsocks
