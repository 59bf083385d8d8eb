import Shadowsocks.Local.Loop

/-!
One connection as a state machine without pointers. Its phases are the only shapes in which the
event loop can find the two objects of a connection, and each callback is one transition.
-/
namespace Shadowsocks

open Memory

variable {S : OpenSSL}

/-- What a remote holds besides its links: its buffer and its two contexts. -/
structure Half (S : OpenSSL) where
  buf : Buffer
  recvCtx : EncryptionCtx S
  sendCtx : EncryptionCtx S

/-- In the relay phase `up` and `down` say whether bytes are pending for the remote and for the
client; `rLen` is what `remote->buf_len` holds, stale unless bytes are pending. -/
inductive Phase (S : OpenSSL)
  | connecting (sbuf : Buffer) (h : Half S)
  | handshake (asked : Bool) (sbuf : Buffer) (h : Half S)
  | relay (sbuf : Buffer) (h : Half S) (up : Bool) (rLen : Nat) (down : Option Nat)
  | serverAlone (sbuf : Buffer) (reading : Bool)
  | remoteAlone (h : Half S) (reading : Bool)
  | gone

structure Pair (S : OpenSSL) where
  phase : Phase S
  client : Socket
  upstream : Socket

/-- What becomes of bytes at the front of a buffer that are offered to a socket. -/
inductive Offer
  | failed
  | taken
  | pending (buf : Buffer) (len : Nat)

def offer (res : SendResult) (buf : Buffer) (len : Nat) : Offer :=
  let sent := res.ret len
  if sent = -1 then if res.wouldBlock then .pending buf len else .failed
  else if sent < len then .pending (moveDown buf sent.toNat len) (len - sent.toNat)
  else .taken

theorem offer_accepted (n : Nat) (buf : Buffer) (len : Nat) :
    offer (.accepted n) buf len =
      if n < len then .pending (moveDown buf n len) (len - n) else .taken := by
  have hret : (SendResult.accepted n).ret len = ((min n len : Nat) : Int) := rfl
  have hne : ((min n len : Nat) : Int) ≠ -1 := by omega
  simp only [offer, hret, hne, if_false, Int.ofNat_lt, Int.toNat_natCast]
  by_cases hn : n < len
  · simp only [Nat.min_eq_left (Nat.le_of_lt hn), hn, if_true]
  · simp only [show ¬ min n len < len by omega, hn, if_false]

theorem offer_again (buf : Buffer) (len : Nat) : offer .again buf len = .pending buf len := rfl

theorem offer_error (buf : Buffer) (len : Nat) : offer .error buf len = .failed := rfl

theorem offer_failed_iff (res : SendResult) (buf : Buffer) (len : Nat) :
    offer res buf len = .failed ↔ res = .error := by
  cases res with
  | accepted n =>
    rw [offer_accepted]
    split <;> simp
  | again => simp [offer_again]
  | error => simp [offer_error]

namespace Half

@[simp] def remote (h : Half S) (k : Nat) (bufLen : Nat) (connected : Bool) (server : Option Addr) :
    Remote S where
  fd := .upstream k
  buf := h.buf
  bufLen := bufLen
  connected := connected
  server := server
  recvEncryptionCtx := h.recvCtx
  sendEncryptionCtx := h.sendCtx
  recvEvp := .recv k
  sendEvp := .send k

end Half

namespace Phase

@[simp] def server (k : Nat) : Phase S → Option Server
  | .connecting sbuf _ => some ⟨.client k, sbuf, .methodSelect, 0, some k⟩
  | .handshake asked sbuf _ =>
    some ⟨.client k, sbuf, if asked then .request else .methodSelect, 0, some k⟩
  | .relay sbuf _ _ _ down => some ⟨.client k, sbuf, .relay, down.getD 0, some k⟩
  | .serverAlone sbuf _ => some ⟨.client k, sbuf, .relay, 0, none⟩
  | .remoteAlone .. => none
  | .gone => none

@[simp] def remote (k : Nat) : Phase S → Option (Remote S)
  | .connecting _ h => some (h.remote k 0 false (some k))
  | .handshake _ _ h => some (h.remote k 0 true (some k))
  | .relay _ h _ rLen _ => some (h.remote k rLen true (some k))
  | .serverAlone .. => none
  | .remoteAlone h _ => some (h.remote k 0 true none)
  | .gone => none

@[simp] def serverRecv : Phase S → Bool
  | .handshake .. => true
  | .relay _ _ up _ _ => !up
  | .serverAlone _ reading => reading
  | _ => false

@[simp] def serverSend : Phase S → Bool
  | .relay _ _ _ _ down => down.isSome
  | .serverAlone .. => true
  | _ => false

@[simp] def remoteRecv : Phase S → Bool
  | .relay _ _ _ _ down => down.isNone
  | .remoteAlone _ reading => reading
  | _ => false

@[simp] def remoteSend : Phase S → Bool
  | .connecting .. => true
  | .relay _ _ up _ _ => up
  | .remoteAlone .. => true
  | _ => false

end Phase

namespace Pair

/-- The cell of the heap that a connection in this state occupies. -/
def cell (k : Nat) (p : Pair S) : Cell S where
  server := p.phase.server k
  remote := p.phase.remote k
  serverRecv := p.phase.serverRecv
  serverSend := p.phase.serverSend
  remoteRecv := p.phase.remoteRecv
  remoteSend := p.phase.remoteSend
  client := some p.client
  upstream := some p.upstream
  recvEvp := some 0
  sendEvp := some 0

/-- Both ends closed. -/
def shut (p : Pair S) : Pair S := ⟨.gone, p.client.close, p.upstream.close⟩

variable (g : Globals S) (ans : Answers S)

/-- What has been read from the client, encrypted and offered to the remote. -/
def relayUp (p : Pair S) (sbuf : Buffer) (h : Half S) (rLen : Nat) (down : Option Nat)
    (bytes : Bytes) : Globals S × Pair S :=
  let buf := memcpy h.buf 0 bytes
  let (g, ctx, out) := encryptBuf ans.ambient g h.sendCtx (front buf bytes.length)
  let buf := memcpy buf 0 out
  let res := ans.send out.length
  let p := { p with upstream := p.upstream.send (front buf out.length) res }
  (g, match offer res buf out.length with
    | .failed => p.shut
    | .taken => { p with phase := .relay sbuf ⟨buf, h.recvCtx, ctx⟩ false rLen down }
    | .pending buf len => { p with phase := .relay sbuf ⟨buf, h.recvCtx, ctx⟩ true len down })

/-- The request, with the bytes received for it already in the buffer. -/
def request (remotePort : UInt16) (p : Pair S) (sbuf : Buffer) (h : Half S) :
    Globals S × Pair S :=
  match addrToSend sbuf with
  | .error .unsupportedCmd =>
    let res := ans.send unsupportedCmdResponse.length
    (g, { p with client := p.client.send unsupportedCmdResponse res }.shut)
  | .error .unsupportedAddrtype => (g, p.shut)
  | .ok header =>
    let (g, ctx, out) := encryptBuf ans.ambient g h.sendCtx header
    let res := ans.send out.length
    let p := { p with upstream := p.upstream.send out res }
    if sizeT (res.ret out.length) ≠ out.length then (g, p.shut)
    else
      let reply := connectReply remotePort
      let sbuf := memcpy sbuf 0 reply
      let res := ans.reply reply.length
      let p := { p with client := p.client.send (front sbuf reply.length) res }
      if sizeT (res.ret reply.length) < reply.length then (g, p.shut)
      else (g, { p with phase := .relay sbuf { h with sendCtx := ctx } false 0 none })

def onServerRecv (remotePort : UInt16) (p : Pair S) : Globals S × Pair S :=
  match p.phase with
  | .handshake asked sbuf h =>
    match ans.recv with
    | .eof => (g, ⟨.remoteAlone h false, p.client.close, p.upstream⟩)
    | .again => (g, p)
    | .error => (g, p.shut)
    | .data piece =>
      let p := { p with client := p.client.receive piece.bytes }
      let sbuf := memcpy sbuf 0 piece.bytes
      if asked then request g ans remotePort p sbuf h
      else
        let res := ans.send methodSelectResponse.length
        (g, ⟨.handshake true sbuf h, p.client.send methodSelectResponse res, p.upstream⟩)
  | .relay sbuf h false rLen down =>
    match ans.recv with
    | .eof => (g, ⟨.remoteAlone h down.isNone, p.client.close, p.upstream⟩)
    | .again => (g, p)
    | .error => (g, p.shut)
    | .data piece =>
      relayUp g ans { p with client := p.client.receive piece.bytes } sbuf h rLen down piece.bytes
  | .serverAlone _ true => (g, ⟨.gone, p.client.close, p.upstream⟩)
  | _ => (g, p)

/-- The pending bytes are offered again. -/
def onServerSend (p : Pair S) : Pair S :=
  match p.phase with
  | .relay sbuf h up rLen (some len) =>
    if len = 0 then p.shut
    else
      let res := ans.send len
      let p := { p with client := p.client.send (front sbuf len) res }
      match offer res sbuf len with
      | .failed => p.shut
      | .taken => { p with phase := .relay sbuf h up rLen none }
      | .pending sbuf len => { p with phase := .relay sbuf h up rLen (some len) }
  | .serverAlone .. => ⟨.gone, p.client.close, p.upstream⟩
  | _ => p

/-- What has been read from the remote, decrypted and offered to the client. -/
def relayDown (p : Pair S) (sbuf : Buffer) (h : Half S) (up : Bool) (rLen : Nat)
    (bytes : Bytes) : Globals S × Pair S :=
  let buf := memcpy sbuf 0 bytes
  let (g, ctx, out) :=
    (decryptBuf ans.ambient g h.recvCtx (front buf bytes.length)).getD (g, ans.overrun)
  let buf := memcpy buf 0 out
  let h := { h with recvCtx := ctx }
  let res := ans.send out.length
  let p := { p with client := p.client.send (front buf out.length) res }
  (g, match offer res buf out.length with
    | .failed => p.shut
    | .taken => { p with phase := .relay buf h up rLen none }
    | .pending buf len => { p with phase := .relay buf h up rLen (some len) })

def onRemoteRecv (p : Pair S) : Globals S × Pair S :=
  match p.phase with
  | .relay sbuf h up rLen none =>
    match ans.recv with
    | .eof => (g, ⟨.serverAlone sbuf !up, p.client, p.upstream.close⟩)
    | .again => (g, p)
    | .error => (g, p.shut)
    | .data piece =>
      relayDown g ans { p with upstream := p.upstream.receive piece.bytes } sbuf h up rLen
        piece.bytes
  | .remoteAlone _ true => (g, ⟨.gone, p.client, p.upstream.close⟩)
  | _ => (g, p)

def onRemoteSend (p : Pair S) : Pair S :=
  match p.phase with
  | .connecting sbuf h =>
    if ans.peer then { p with phase := .handshake false sbuf h } else p.shut
  | .relay sbuf h true rLen down =>
    if rLen = 0 then p.shut
    else
      let res := ans.send rLen
      let p := { p with upstream := p.upstream.send (front h.buf rLen) res }
      match offer res h.buf rLen with
      | .failed => p.shut
      | .taken => { p with phase := .relay sbuf h false rLen down }
      | .pending buf len => { p with phase := .relay sbuf { h with buf := buf } true len down }
  | .remoteAlone .. => ⟨.gone, p.client, p.upstream.close⟩
  | _ => p

end Pair

/-! The heap with the cell of one connection put in. -/

namespace World

variable (w : World S) (k : Nat) (c c' : Cell S)

@[simp] theorem put_cells : (w.put k c).cells k = c := Function.update_self ..

@[simp] theorem put_put : (w.put k c).put k c' = w.put k c' := by
  simp only [put, Function.update_idem]

@[simp] theorem put_modify (f : Cell S → Cell S) : (w.put k c).modify k f = w.put k (f c) := by
  simp only [modify, put_cells, put_put]

@[simp] theorem put_globals : (w.put k c).globals = w.globals := rfl

@[simp] theorem put_remotePort : (w.put k c).remotePort = w.remotePort := rfl

@[simp] theorem setGlobals_put (g : Globals S) :
    (w.put k c).setGlobals g = (w.setGlobals g).put k c := rfl

@[simp] theorem setGlobals_remotePort (g : Globals S) :
    (w.setGlobals g).remotePort = w.remotePort := rfl

theorem put_self : w.put k (w.cells k) = w := by
  simp only [put, Function.update_eq_self]

variable {c} {s : Server} {r : Remote S}

theorem server_put (h : c.server = some s) : (w.put k c).server k = .ok s := by
  simp only [server, put_cells, h, Option.elim_some]

theorem remote_put (h : c.remote = some r) : (w.put k c).remote k = .ok r := by
  simp only [remote, put_cells, h, Option.elim_some]

/-- A server that is linked to its remote unlinks itself. -/
theorem closeAndFreeServer_linked (hs : c.server = some s) (hfd : s.fd = .client k)
    (hl : s.remote = some k) (hr : c.remote = some r) :
    (w.put k c).closeAndFreeServer (some k) = .ok (w.put k
      { c with
        server := none
        remote := some { r with server := none }
        serverSend := false
        serverRecv := false
        client := c.client.map Socket.close }) := by
  simp [closeAndFreeServer, freeServer, server, remote, evIoStop, setWatcher, close, onSocket,
    setRemote, hs, hfd, hl, hr, bind, Except.bind, pure, Except.pure]

theorem closeAndFreeServer_alone (hs : c.server = some s) (hfd : s.fd = .client k)
    (hl : s.remote = none) :
    (w.put k c).closeAndFreeServer (some k) = .ok (w.put k
      { c with
        server := none
        serverSend := false
        serverRecv := false
        client := c.client.map Socket.close }) := by
  simp [closeAndFreeServer, freeServer, server, evIoStop, setWatcher, close, onSocket,
    hs, hfd, hl, bind, Except.bind, pure, Except.pure]

theorem closeAndFreeRemote_linked (hr : c.remote = some r) (hfd : r.fd = .upstream k)
    (hl : r.server = some k) (hs : c.server = some s) :
    (w.put k c).closeAndFreeRemote (some k) = .ok (w.put k
      { c with
        server := some { s with remote := none }
        remote := none
        remoteSend := false
        remoteRecv := false
        upstream := c.upstream.map Socket.close }) := by
  simp [closeAndFreeRemote, freeRemote, server, remote, evIoStop, setWatcher, close, onSocket,
    setServer, hs, hfd, hl, hr, bind, Except.bind, pure, Except.pure]

theorem closeAndFreeRemote_alone (hr : c.remote = some r) (hfd : r.fd = .upstream k)
    (hl : r.server = none) :
    (w.put k c).closeAndFreeRemote (some k) = .ok (w.put k
      { c with
        remote := none
        remoteSend := false
        remoteRecv := false
        upstream := c.upstream.map Socket.close }) := by
  simp [closeAndFreeRemote, freeRemote, remote, evIoStop, setWatcher, close, onSocket,
    hfd, hl, hr, bind, Except.bind, pure, Except.pure]

/-- A cell whose two objects are linked to each other. -/
structure Linked (k : Nat) (c : Cell S) (s : Server) (r : Remote S) : Prop where
  server : c.server = some s
  remote : c.remote = some r
  serverFd : s.fd = .client k
  remoteFd : r.fd = .upstream k
  toRemote : s.remote = some k
  toServer : r.server = some k

/-- Everything stopped, freed and closed. -/
def shut (c : Cell S) : Cell S :=
  { c with
    server := none
    remote := none
    serverRecv := false
    serverSend := false
    remoteRecv := false
    remoteSend := false
    client := c.client.map Socket.close
    upstream := c.upstream.map Socket.close }

theorem closeServerThenRemote_linked (h : Linked k c s r) :
    (w.put k c).closeServerThenRemote (some k) (some k) = .ok (w.put k (shut c)) := by
  simp only [closeServerThenRemote, bind, Except.bind,
    closeAndFreeServer_linked w k h.server h.serverFd h.toRemote h.remote]
  exact closeAndFreeRemote_alone (r := { r with server := none }) w k rfl h.remoteFd rfl

theorem closeRemoteThenServer_linked (h : Linked k c s r) :
    (w.put k c).closeRemoteThenServer (some k) (some k) = .ok (w.put k (shut c)) := by
  simp only [closeRemoteThenServer, bind, Except.bind,
    closeAndFreeRemote_linked w k h.remote h.remoteFd h.toServer h.server]
  exact closeAndFreeServer_alone (s := { s with remote := none }) w k rfl h.serverFd rfl

/-- The client is gone: its half is freed, and the watcher for the remote's output started. -/
theorem serverHangsUp (h : Linked k c s r) :
    (do
      let w ← (w.put k c).closeAndFreeServer (some k)
      let _ ← w.remote k
      pure (w.evIoStart (.remoteSend k))) = .ok (w.put k
        { c with
          server := none
          remote := some { r with server := none }
          serverSend := false
          serverRecv := false
          remoteSend := true
          client := c.client.map Socket.close }) := by
  simp only [closeAndFreeServer_linked w k h.server h.serverFd h.toRemote h.remote, bind,
    Except.bind, pure, Except.pure, remote, put_cells, Option.elim_some, evIoStart, setWatcher,
    put_modify]

theorem remoteHangsUp (h : Linked k c s r) :
    (do
      let w ← (w.put k c).closeAndFreeRemote (some k)
      let _ ← w.server k
      pure (w.evIoStart (.serverSend k))) = .ok (w.put k
        { c with
          server := some { s with remote := none }
          remote := none
          remoteSend := false
          remoteRecv := false
          serverSend := true
          upstream := c.upstream.map Socket.close }) := by
  simp only [closeAndFreeRemote_linked w k h.remote h.remoteFd h.toServer h.server, bind,
    Except.bind, pure, Except.pure, server, put_cells, Option.elim_some, evIoStart, setWatcher,
    put_modify]

/-- Stage 5 of `server_recv_cb` is the transition of the same name. -/
theorem relayUp_put (p : Pair S) {sbuf : Buffer} {h : Half S} {rLen : Nat} {down : Option Nat}
    (hp : p.phase = .relay sbuf h false rLen down) (bytes : Bytes) (ans : Answers S) :
    (w.put k (p.cell k)).relayUp k k bytes ans =
      .ok ((w.setGlobals (p.relayUp w.globals ans sbuf h rLen down bytes).1).put k
        ((p.relayUp w.globals ans sbuf h rLen down bytes).2.cell k)) := by
  obtain ⟨phase, client, upstream⟩ := p
  obtain rfl : phase = .relay sbuf h false rLen down := hp
  have hr : (Pair.cell k ⟨.relay sbuf h false rLen down, client, upstream⟩).remote =
      some (h.remote k rLen true (some k)) := rfl
  rcases hres : encryptBuf ans.ambient w.globals h.sendCtx
    (front (memcpy h.buf 0 bytes) bytes.length) with ⟨g, ctx, out⟩
  simp only [relayUp, Pair.relayUp, remote_put w k hr, bind, Except.bind, pure, Except.pure,
    Half.remote, put_globals, hres, offer, setGlobals_put, setRemote, put_modify, send, onSocket,
    evIoStart, evIoStop, setWatcher]
  split_ifs
  · simp [Pair.cell]
  · exact closeServerThenRemote_linked _ k ⟨rfl, rfl, rfl, rfl, rfl, rfl⟩
  · simp [Pair.cell]
  · simp [Pair.cell]

theorem selectMethod_put (p : Pair S) {sbuf : Buffer} {h : Half S}
    (hp : p.phase = .handshake false sbuf h) (bytes : Bytes) (ans : Answers S) :
    (w.put k (p.cell k)).selectMethod k bytes ans =
      .ok (w.put k (Pair.cell k ⟨.handshake true (memcpy sbuf 0 bytes) h,
        p.client.send methodSelectResponse (ans.send methodSelectResponse.length),
        p.upstream⟩)) := by
  obtain ⟨phase, client, upstream⟩ := p
  obtain rfl : phase = .handshake false sbuf h := hp
  have hs : (Pair.cell k ⟨.handshake false sbuf h, client, upstream⟩).server =
      some ⟨.client k, sbuf, .methodSelect, 0, some k⟩ := rfl
  simp only [selectMethod, server_put w k hs, bind, Except.bind, pure, Except.pure, setServer,
    put_modify, send, onSocket]
  rfl

theorem request_put (p : Pair S) {sbuf : Buffer} {h : Half S}
    (hp : p.phase = .handshake true sbuf h) (bytes : Bytes) (ans : Answers S) :
    (w.put k (p.cell k)).request k k bytes ans =
      .ok ((w.setGlobals (p.request w.globals ans w.remotePort (memcpy sbuf 0 bytes) h).1).put k
        ((p.request w.globals ans w.remotePort (memcpy sbuf 0 bytes) h).2.cell k)) := by
  obtain ⟨phase, client, upstream⟩ := p
  obtain rfl : phase = .handshake true sbuf h := hp
  have hs : (Pair.cell k ⟨.handshake true sbuf h, client, upstream⟩).server =
      some ⟨.client k, sbuf, .request, 0, some k⟩ := rfl
  have hr : (Pair.cell k ⟨.handshake true sbuf h, client, upstream⟩).remote =
      some (h.remote k 0 true (some k)) := rfl
  simp only [request, server_put w k hs, bind, Except.bind, pure, Except.pure, setServer,
    put_modify, Pair.request]
  have hl : ∀ c : Cell S, c.server = some ⟨.client k, memcpy sbuf 0 bytes, .request, 0, some k⟩ →
      c.remote = some (h.remote k 0 true (some k)) →
      Linked k c ⟨.client k, memcpy sbuf 0 bytes, .request, 0, some k⟩
        (h.remote k 0 true (some k)) := fun c hs hr => ⟨hs, hr, rfl, rfl, rfl, rfl⟩
  cases hparse : addrToSend (memcpy sbuf 0 bytes) with
  | error refusal =>
    cases refusal with
    | unsupportedCmd =>
      simp only [send, onSocket, put_modify]
      exact closeServerThenRemote_linked _ k (hl _ rfl rfl)
    | unsupportedAddrtype => exact closeServerThenRemote_linked _ k (hl _ rfl rfl)
  | ok header =>
    simp only [remote, put_cells, Pair.cell, Phase.remote, Option.elim_some, put_globals,
      put_remotePort, setGlobals_put, setGlobals_remotePort, setRemote, put_modify, send, onSocket,
      Half.remote, evIoStart, setWatcher]
    split_ifs
    · exact closeRemoteThenServer_linked _ k ⟨rfl, rfl, rfl, rfl, rfl, rfl⟩
    · exact closeRemoteThenServer_linked _ k ⟨rfl, rfl, rfl, rfl, rfl, rfl⟩
    · rfl

theorem receive_client (p : Pair S) (bytes : Bytes) :
    (w.put k (p.cell k)).receive (.client k) bytes =
      w.put k (Pair.cell k { p with client := p.client.receive bytes }) := by
  simp only [receive, onSocket, put_modify]
  rfl

theorem receive_upstream (p : Pair S) (bytes : Bytes) :
    (w.put k (p.cell k)).receive (.upstream k) bytes =
      w.put k (Pair.cell k { p with upstream := p.upstream.receive bytes }) := by
  simp only [receive, onSocket, put_modify]
  rfl

/-- The callback of a started watcher on the server's input. -/
theorem serverRecvCb_put (p : Pair S) (ans : Answers S) (hact : p.phase.serverRecv = true) :
    (w.put k (p.cell k)).serverRecvCb k ans =
      .ok ((w.setGlobals (p.onServerRecv w.globals ans w.remotePort).1).put k
        ((p.onServerRecv w.globals ans w.remotePort).2.cell k)) := by
  obtain ⟨phase, client, upstream⟩ := p
  cases phase with
  | connecting sbuf h => cases hact
  | remoteAlone h reading => cases hact
  | gone => cases hact
  | serverAlone sbuf reading =>
    obtain rfl : reading = true := hact
    have hs : (Pair.cell k ⟨.serverAlone sbuf true, client, upstream⟩ : Cell S).server =
        some ⟨.client k, sbuf, .relay, 0, none⟩ := rfl
    simp only [serverRecvCb, server_put w k hs, bind, Except.bind]
    exact closeAndFreeServer_alone w k hs rfl rfl
  | handshake asked sbuf h =>
    have hs : (Pair.cell k ⟨.handshake asked sbuf h, client, upstream⟩).server =
        some ⟨.client k, sbuf, if asked then .request else .methodSelect, 0, some k⟩ := rfl
    have hr : (Pair.cell k ⟨.handshake asked sbuf h, client, upstream⟩).remote =
        some (h.remote k 0 true (some k)) := rfl
    simp only [serverRecvCb, server_put w k hs, bind, Except.bind, Pair.onServerRecv]
    cases ans.recv with
    | again => rfl
    | error => exact closeServerThenRemote_linked w k ⟨hs, hr, rfl, rfl, rfl, rfl⟩
    | eof =>
      cases asked <;>
      · simp only [if_true, if_false, Bool.false_eq_true, pure, Except.pure, setServer, put_modify]
        exact serverHangsUp w k (r := h.remote k 0 true (some k)) ⟨rfl, rfl, rfl, rfl, rfl, rfl⟩
    | data piece =>
      simp only [receive_client]
      cases asked with
      | false => exact selectMethod_put w k ⟨.handshake false sbuf h, _, upstream⟩ rfl _ ans
      | true => exact request_put w k ⟨.handshake true sbuf h, _, upstream⟩ rfl _ ans
  | relay sbuf h up rLen down =>
    obtain rfl : up = false := by simpa [Phase.serverRecv] using hact
    have hs : (Pair.cell k ⟨.relay sbuf h false rLen down, client, upstream⟩).server =
        some ⟨.client k, sbuf, .relay, down.getD 0, some k⟩ := rfl
    have hr : (Pair.cell k ⟨.relay sbuf h false rLen down, client, upstream⟩).remote =
        some (h.remote k rLen true (some k)) := rfl
    simp only [serverRecvCb, server_put w k hs, bind, Except.bind, Pair.onServerRecv]
    cases ans.recv with
    | again => rfl
    | error => exact closeServerThenRemote_linked w k ⟨hs, hr, rfl, rfl, rfl, rfl⟩
    | eof =>
      simp only [remote_put w k hr, pure, Except.pure, setRemote, put_modify]
      exact serverHangsUp w k (s := ⟨.client k, sbuf, .relay, down.getD 0, some k⟩)
        (r := h.remote k 0 true (some k)) ⟨rfl, rfl, rfl, rfl, rfl, rfl⟩
    | data piece =>
      simp only [receive_client]
      exact relayUp_put w k ⟨.relay sbuf h false rLen down, _, upstream⟩ rfl _ ans

/-- The callback of a started watcher on the server's output. -/
theorem serverSendCb_put (p : Pair S) (ans : Answers S) (hact : p.phase.serverSend = true) :
    (w.put k (p.cell k)).serverSendCb k ans = .ok (w.put k ((p.onServerSend ans).cell k)) := by
  obtain ⟨phase, client, upstream⟩ := p
  cases phase with
  | connecting sbuf h => cases hact
  | handshake asked sbuf h => cases hact
  | remoteAlone h reading => cases hact
  | gone => cases hact
  | serverAlone sbuf reading =>
    have hs : (Pair.cell k ⟨.serverAlone sbuf reading, client, upstream⟩ : Cell S).server =
        some ⟨.client k, sbuf, .relay, 0, none⟩ := rfl
    simp only [serverSendCb, server_put w k hs, bind, Except.bind, if_true, closeServerThenRemote,
      closeAndFreeServer_alone w k hs rfl rfl]
    rfl
  | relay sbuf h up rLen down =>
    obtain ⟨len, rfl⟩ := Option.isSome_iff_exists.mp hact
    have hs : (Pair.cell k ⟨.relay sbuf h up rLen (some len), client, upstream⟩).server =
        some ⟨.client k, sbuf, .relay, len, some k⟩ := rfl
    have hr : (Pair.cell k ⟨.relay sbuf h up rLen (some len), client, upstream⟩).remote =
        some (h.remote k rLen true (some k)) := rfl
    simp only [serverSendCb, server_put w k hs, bind, Except.bind, pure, Except.pure,
      Pair.onServerSend, offer, SendResult.ret_neg_iff, send, onSocket, put_modify, setServer, evIoStop,
      evIoStart, setWatcher]
    split_ifs
    · exact closeServerThenRemote_linked w k ⟨hs, hr, rfl, rfl, rfl, rfl⟩
    · rfl
    · exact closeServerThenRemote_linked w k ⟨hs, hr, rfl, rfl, rfl, rfl⟩
    · rfl
    · simp only [remote, put_cells, hr, Option.elim_some]
      rfl

/-- `remote_recv_cb` with both ends alive is the transition of the same name. -/
theorem relayDown_put (p : Pair S) {sbuf : Buffer} {h : Half S} {up : Bool} {rLen : Nat}
    (hp : p.phase = .relay sbuf h up rLen none) (bytes : Bytes) (ans : Answers S) :
    (w.put k (p.cell k)).relayDown k k bytes ans =
      .ok ((w.setGlobals (p.relayDown w.globals ans sbuf h up rLen bytes).1).put k
        ((p.relayDown w.globals ans sbuf h up rLen bytes).2.cell k)) := by
  obtain ⟨phase, client, upstream⟩ := p
  obtain rfl : phase = .relay sbuf h up rLen none := hp
  have hs : (Pair.cell k ⟨.relay sbuf h up rLen none, client, upstream⟩).server =
      some ⟨.client k, sbuf, .relay, 0, some k⟩ := rfl
  have hr : (Pair.cell k ⟨.relay sbuf h up rLen none, client, upstream⟩).remote =
      some (h.remote k rLen true (some k)) := rfl
  rcases hres : (decryptBuf ans.ambient w.globals h.recvCtx
    (front (memcpy sbuf 0 bytes) bytes.length)).getD (w.globals, ans.overrun) with ⟨g, ctx, out⟩
  simp only [relayDown, Pair.relayDown, server_put w k hs, remote_put w k hr, bind, Except.bind,
    pure, Except.pure, Half.remote, put_globals, hres, offer, setGlobals_put, setRemote,
    setServer, put_modify, send, onSocket, evIoStart, evIoStop, setWatcher]
  split_ifs
  · simp [Pair.cell]
  · exact closeServerThenRemote_linked _ k ⟨rfl, rfl, rfl, rfl, rfl, rfl⟩
  · simp [Pair.cell]
  · simp [Pair.cell]

/-- The callback of a started watcher on the remote's input. -/
theorem remoteRecvCb_put (p : Pair S) (ans : Answers S) (hact : p.phase.remoteRecv = true) :
    (w.put k (p.cell k)).remoteRecvCb k ans =
      .ok ((w.setGlobals (p.onRemoteRecv w.globals ans).1).put k
        ((p.onRemoteRecv w.globals ans).2.cell k)) := by
  obtain ⟨phase, client, upstream⟩ := p
  cases phase with
  | connecting sbuf h => cases hact
  | handshake asked sbuf h => cases hact
  | serverAlone sbuf reading => cases hact
  | gone => cases hact
  | remoteAlone h reading =>
    obtain rfl : reading = true := hact
    have hr : (Pair.cell k ⟨.remoteAlone h true, client, upstream⟩).remote =
        some (h.remote k 0 true none) := rfl
    simp only [remoteRecvCb, remote_put w k hr, bind, Except.bind]
    exact closeAndFreeRemote_alone w k hr rfl rfl
  | relay sbuf h up rLen down =>
    obtain rfl : down = none := by simpa [Phase.remoteRecv] using hact
    have hs : (Pair.cell k ⟨.relay sbuf h up rLen none, client, upstream⟩).server =
        some ⟨.client k, sbuf, .relay, 0, some k⟩ := rfl
    have hr : (Pair.cell k ⟨.relay sbuf h up rLen none, client, upstream⟩).remote =
        some (h.remote k rLen true (some k)) := rfl
    simp only [remoteRecvCb, remote_put w k hr, bind, Except.bind, Pair.onRemoteRecv]
    cases ans.recv with
    | again => rfl
    | error => exact closeServerThenRemote_linked w k ⟨hs, hr, rfl, rfl, rfl, rfl⟩
    | eof =>
      simp only [Half.remote, server_put w k hs, pure, Except.pure, setServer, put_modify]
      exact remoteHangsUp w k (s := ⟨.client k, sbuf, .relay, 0, some k⟩)
        (r := h.remote k rLen true (some k)) ⟨rfl, rfl, rfl, rfl, rfl, rfl⟩
    | data piece =>
      simp only [Half.remote, receive_upstream]
      exact relayDown_put w k ⟨.relay sbuf h up rLen none, client, _⟩ rfl _ ans

/-- The callback of a started watcher on the remote's output. -/
theorem remoteSendCb_put (p : Pair S) (ans : Answers S) (hact : p.phase.remoteSend = true) :
    (w.put k (p.cell k)).remoteSendCb k ans = .ok (w.put k ((p.onRemoteSend ans).cell k)) := by
  obtain ⟨phase, client, upstream⟩ := p
  cases phase with
  | handshake asked sbuf h => cases hact
  | serverAlone sbuf reading => cases hact
  | gone => cases hact
  | connecting sbuf h =>
    have hs : (Pair.cell k ⟨.connecting sbuf h, client, upstream⟩).server =
        some ⟨.client k, sbuf, .methodSelect, 0, some k⟩ := rfl
    have hr : (Pair.cell k ⟨.connecting sbuf h, client, upstream⟩).remote =
        some (h.remote k 0 false (some k)) := rfl
    simp only [remoteSendCb, remote_put w k hr, bind, Except.bind, pure, Except.pure, Half.remote,
      Bool.false_eq_true, not_false_eq_true, if_true, Pair.onRemoteSend]
    split_ifs
    · simp only [setRemote, evIoStop, evIoStart, setWatcher, put_modify, server, put_cells, hs,
        Option.elim_some]
      rfl
    · exact closeRemoteThenServer_linked w k ⟨hs, hr, rfl, rfl, rfl, rfl⟩
  | remoteAlone h reading =>
    have hr : (Pair.cell k ⟨.remoteAlone h reading, client, upstream⟩).remote =
        some (h.remote k 0 true none) := rfl
    simp only [remoteSendCb, remote_put w k hr, bind, Except.bind, Half.remote, not_true_eq_false,
      if_true, if_false, closeRemoteThenServer, closeAndFreeRemote_alone w k hr rfl rfl]
    rfl
  | relay sbuf h up rLen down =>
    obtain rfl : up = true := hact
    have hs : (Pair.cell k ⟨.relay sbuf h true rLen down, client, upstream⟩).server =
        some ⟨.client k, sbuf, .relay, down.getD 0, some k⟩ := rfl
    have hr : (Pair.cell k ⟨.relay sbuf h true rLen down, client, upstream⟩).remote =
        some (h.remote k rLen true (some k)) := rfl
    simp only [remoteSendCb, remote_put w k hr, bind, Except.bind, pure, Except.pure, Half.remote,
      not_true_eq_false, if_false, Pair.onRemoteSend, offer, SendResult.ret_neg_iff, send,
      onSocket, put_modify, setRemote, evIoStop, evIoStart, setWatcher]
    split_ifs
    · exact closeRemoteThenServer_linked w k ⟨hs, hr, rfl, rfl, rfl, rfl⟩
    · rfl
    · exact closeRemoteThenServer_linked w k ⟨hs, hr, rfl, rfl, rfl, rfl⟩
    · rfl
    · simp only [server, put_cells, hs, Option.elim_some]
      rfl

end World

end Shadowsocks
