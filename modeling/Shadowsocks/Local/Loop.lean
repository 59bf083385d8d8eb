import Shadowsocks.Cipher.Chunks
import Shadowsocks.Local.Socks5

/-!
local.m: the heap of the event loop, its watchers, and the five callbacks. A callback that
follows a freed or null pointer ends in a fault.
-/
namespace Shadowsocks

open Memory

variable {S : OpenSSL}

/-- Objects are named by the number of the accept attempt that made them. Addresses are not
reused, so a dangling pointer stays one. -/
abbrev Addr := Nat

/-- A descriptor, named by the attempt that acquired it with `accept` or with `socket`. -/
inductive Fd
  | client (attempt : Nat)
  | upstream (attempt : Nat)
  deriving DecidableEq, Repr

/-- What `EVP_CIPHER_CTX_new` returned for one of the two contexts of a remote. -/
inductive EvpPtr
  | recv (attempt : Nat)
  | send (attempt : Nat)
  deriving DecidableEq, Repr

/-- The values 0, 1 and 5 of `server->stage`. -/
inductive Stage
  | methodSelect
  | request
  | relay
  deriving DecidableEq, Repr

structure Server where
  fd : Fd
  buf : Buffer
  stage : Stage
  bufLen : Nat
  remote : Option Addr

structure Remote (S : OpenSSL) where
  fd : Fd
  buf : Buffer
  bufLen : Nat
  /-- `send_ctx->connected` -/
  connected : Bool
  server : Option Addr
  recvEncryptionCtx : EncryptionCtx S
  sendEncryptionCtx : EncryptionCtx S
  recvEvp : EvpPtr
  sendEvp : EvpPtr

/-- The kernel's side of a descriptor: what `recv` has returned and what `send` has accepted
so far, and how often it has been closed. -/
structure Socket where
  received : Bytes
  accepted : Bytes
  closed : Nat

def Socket.opened : Socket := ⟨[], [], 0⟩

/-- All that one attempt can have made: the two objects, whether their watchers are started,
the descriptors, and for each `EVP_CIPHER_CTX` how often it has been freed. -/
structure Cell (S : OpenSSL) where
  server : Option Server
  remote : Option (Remote S)
  serverRecv : Bool
  serverSend : Bool
  remoteRecv : Bool
  remoteSend : Bool
  client : Option Socket
  upstream : Option Socket
  recvEvp : Option Nat
  sendEvp : Option Nat

def Cell.empty : Cell S := ⟨none, none, false, false, false, false, none, none, none, none⟩

structure World (S : OpenSSL) where
  globals : Globals S
  /-- `(unsigned short) atoi(_remote_port)` -/
  remotePort : UInt16
  /-- The number of the next accept attempt. -/
  next : Nat
  cells : Nat → Cell S

/-- The `io` of a `recv_ctx` or of a `send_ctx`. -/
inductive Watcher
  | serverRecv (a : Addr)
  | serverSend (a : Addr)
  | remoteRecv (a : Addr)
  | remoteSend (a : Addr)
  deriving DecidableEq, Repr

inductive Fault
  | freedServer
  | freedRemote
  | nullServer
  deriving DecidableEq, Repr

inductive RecvResult
  | data (piece : Piece)
  | eof
  | again
  | error

inductive SendResult
  | accepted (n : Nat)
  | again
  | error
  deriving DecidableEq, Repr

namespace SendResult

/-- What `send` returns for `len` bytes. -/
def ret : SendResult → Nat → Int
  | accepted n, len => (min n len : Nat)
  | _, _ => -1

/-- `errno` is `EAGAIN` or `EWOULDBLOCK`. -/
def wouldBlock (res : SendResult) : Bool := res == again

/-- The bytes the kernel has taken over. -/
def taken : SendResult → Bytes → Bytes
  | accepted n, bytes => bytes.take n
  | _, _ => []

theorem ret_neg_iff (res : SendResult) (len : Nat) : res.ret len < 0 ↔ res.ret len = -1 := by
  cases res with
  | accepted n =>
    simp only [ret]
    omega
  | again => exact iff_of_true (by decide : (-1 : Int) < 0) rfl
  | error => exact iff_of_true (by decide : (-1 : Int) < 0) rfl

end SendResult

/-- The conversion of an `int` or `ssize_t` to `size_t`: -1 becomes the largest value. -/
def sizeT (r : Int) : Nat := (r % 2 ^ 64).toNat

/-- What the system calls of one callback return. An answer to `send` may depend on the number
of bytes offered. -/
structure Answers (S : OpenSSL) where
  recv : RecvResult
  send : Nat → SendResult
  /-- For the second `send` of a callback. -/
  reply : Nat → SendResult
  /-- `getpeername` returns 0. -/
  peer : Bool
  ambient : Ambient
  /-- The context and the bytes that a `decrypt_buf` whose length has wrapped leaves behind. -/
  overrun : EncryptionCtx S × Bytes

/-- What happens after an `accept` that returns a descriptor, and what `malloc` leaves in the
blocks that are allocated then. -/
structure Attempt (S : OpenSSL) where
  resolved : Bool
  socket : Bool
  serverBuf : Buffer
  remoteBuf : Buffer
  recvMem : EncryptionCtx S
  sendMem : EncryptionCtx S

namespace Socket

def receive (s : Socket) (bytes : Bytes) : Socket := { s with received := s.received ++ bytes }

def send (s : Socket) (bytes : Bytes) (res : SendResult) : Socket :=
  { s with accepted := s.accepted ++ res.taken bytes }

def close (s : Socket) : Socket := { s with closed := s.closed + 1 }

end Socket

namespace World

def put (w : World S) (k : Nat) (c : Cell S) : World S :=
  { w with cells := Function.update w.cells k c }

def modify (w : World S) (k : Nat) (f : Cell S → Cell S) : World S := w.put k (f (w.cells k))

def setGlobals (w : World S) (g : Globals S) : World S := { w with globals := g }

/-- Follow a pointer to a server. -/
def server (w : World S) (a : Addr) : Except Fault Server :=
  (w.cells a).server.elim (.error .freedServer) .ok

/-- Follow a pointer to a remote. -/
def remote (w : World S) (a : Addr) : Except Fault (Remote S) :=
  (w.cells a).remote.elim (.error .freedRemote) .ok

def setServer (w : World S) (a : Addr) (s : Server) : World S :=
  w.modify a fun c => { c with server := some s }

def setRemote (w : World S) (a : Addr) (r : Remote S) : World S :=
  w.modify a fun c => { c with remote := some r }

def setWatcher (w : World S) (started : Bool) : Watcher → World S
  | .serverRecv a => w.modify a fun c => { c with serverRecv := started }
  | .serverSend a => w.modify a fun c => { c with serverSend := started }
  | .remoteRecv a => w.modify a fun c => { c with remoteRecv := started }
  | .remoteSend a => w.modify a fun c => { c with remoteSend := started }

def evIoStart (w : World S) (x : Watcher) : World S := w.setWatcher true x

def evIoStop (w : World S) (x : Watcher) : World S := w.setWatcher false x

def isActive (w : World S) : Watcher → Bool
  | .serverRecv a => (w.cells a).serverRecv
  | .serverSend a => (w.cells a).serverSend
  | .remoteRecv a => (w.cells a).remoteRecv
  | .remoteSend a => (w.cells a).remoteSend

def onSocket (w : World S) (f : Socket → Socket) : Fd → World S
  | .client k => w.modify k fun c => { c with client := c.client.map f }
  | .upstream k => w.modify k fun c => { c with upstream := c.upstream.map f }

def receive (w : World S) (fd : Fd) (bytes : Bytes) : World S := w.onSocket (·.receive bytes) fd

def send (w : World S) (fd : Fd) (bytes : Bytes) (res : SendResult) : World S :=
  w.onSocket (·.send bytes res) fd

def close (w : World S) (fd : Fd) : World S := w.onSocket Socket.close fd

def newServer (w : World S) (a : Addr) (fd : Fd) (mem : Buffer) : World S :=
  w.setServer a { fd := fd, buf := mem, stage := .methodSelect, bufLen := 0, remote := none }

/-- `init_encryption` acquires an `EVP_CIPHER_CTX` for each of the contexts. -/
def newRemote (w : World S) (a : Addr) (fd : Fd) (t : Attempt S) : World S :=
  (w.setRemote a
    { fd := fd
      buf := t.remoteBuf
      bufLen := 0
      connected := false
      server := none
      recvEncryptionCtx := initEncryption w.globals t.recvMem
      sendEncryptionCtx := initEncryption w.globals t.sendMem
      recvEvp := .recv a
      sendEvp := .send a }).modify a fun c => { c with recvEvp := some 0, sendEvp := some 0 }

def freeServer (w : World S) : Option Addr → Except Fault (World S)
  | none => pure w
  | some a => do
    let server ← w.server a
    let w ← match server.remote with
      | none => pure w
      | some r => do
        let remote ← w.remote r
        pure (w.setRemote r { remote with server := none })
    pure (w.modify a fun c => { c with server := none })

/-- `cleanup_encryption` resets the contexts, which go away with the object. Nobody calls
`EVP_CIPHER_CTX_free`. -/
def freeRemote (w : World S) : Option Addr → Except Fault (World S)
  | none => pure w
  | some a => do
    let remote ← w.remote a
    let w ← match remote.server with
      | none => pure w
      | some s => do
        let server ← w.server s
        pure (w.setServer s { server with remote := none })
    pure (w.modify a fun c => { c with remote := none })

def closeAndFreeServer (w : World S) : Option Addr → Except Fault (World S)
  | none => pure w
  | some a => do
    let server ← w.server a
    let w := w.evIoStop (.serverSend a)
    let w := w.evIoStop (.serverRecv a)
    (w.close server.fd).freeServer (some a)

def closeAndFreeRemote (w : World S) : Option Addr → Except Fault (World S)
  | none => pure w
  | some a => do
    let remote ← w.remote a
    let w := w.evIoStop (.remoteSend a)
    let w := w.evIoStop (.remoteRecv a)
    (w.close remote.fd).freeRemote (some a)

def closeServerThenRemote (w : World S) (server remote : Option Addr) :
    Except Fault (World S) := do
  let w ← w.closeAndFreeServer server
  w.closeAndFreeRemote remote

def closeRemoteThenServer (w : World S) (remote server : Option Addr) :
    Except Fault (World S) := do
  let w ← w.closeAndFreeRemote remote
  w.closeAndFreeServer server

/-- Stage 5 of `server_recv_cb`, after a `recv` into `remote->buf`. -/
def relayUp (w : World S) (a r : Addr) (bytes : Bytes) (ans : Answers S) :
    Except Fault (World S) := do
  let remote ← w.remote r
  let buf := memcpy remote.buf 0 bytes
  let (g, ctx, out) :=
    encryptBuf ans.ambient w.globals remote.sendEncryptionCtx (front buf bytes.length)
  let buf := memcpy buf 0 out
  let remote := { remote with buf := buf, sendEncryptionCtx := ctx }
  let res := ans.send out.length
  let sent := res.ret out.length
  let w := ((w.setGlobals g).setRemote r remote).send remote.fd (front buf out.length) res
  if sent = -1 then
    if res.wouldBlock then
      let w := w.setRemote r { remote with bufLen := out.length }
      pure ((w.evIoStop (.serverRecv a)).evIoStart (.remoteSend r))
    else w.closeServerThenRemote (some a) (some r)
  else if sent < out.length then
    let w := w.setRemote r
      { remote with
        buf := moveDown buf sent.toNat out.length
        bufLen := out.length - sent.toNat }
    pure ((w.evIoStop (.serverRecv a)).evIoStart (.remoteSend r))
  else pure w

/-- Stage 0: whatever was received is answered, and the answer's fate is not looked at. -/
def selectMethod (w : World S) (a : Addr) (bytes : Bytes) (ans : Answers S) :
    Except Fault (World S) := do
  let server ← w.server a
  let server := { server with buf := memcpy server.buf 0 bytes }
  let w := w.send server.fd methodSelectResponse (ans.send methodSelectResponse.length)
  pure (w.setServer a { server with stage := .request })

/-- Stage 1, after a `recv` into `server->buf`. -/
def request (w : World S) (a r : Addr) (bytes : Bytes) (ans : Answers S) :
    Except Fault (World S) := do
  let server ← w.server a
  let server := { server with buf := memcpy server.buf 0 bytes }
  let w := w.setServer a server
  match addrToSend server.buf with
  | .error .unsupportedCmd =>
    let w := w.send server.fd unsupportedCmdResponse (ans.send unsupportedCmdResponse.length)
    w.closeServerThenRemote (some a) (some r)
  | .error .unsupportedAddrtype => w.closeServerThenRemote (some a) (some r)
  | .ok header => do
    -- send_encrypt
    let remote ← w.remote r
    let (g, ctx, out) := encryptBuf ans.ambient w.globals remote.sendEncryptionCtx header
    let res := ans.send out.length
    let w := (w.setGlobals g).setRemote r { remote with sendEncryptionCtx := ctx }
    let w := w.send remote.fd out res
    if sizeT (res.ret out.length) ≠ out.length then w.closeRemoteThenServer (some r) (some a)
    else
      let reply := connectReply w.remotePort
      let server := { server with buf := memcpy server.buf 0 reply }
      let res := ans.reply reply.length
      let w := (w.setServer a server).send server.fd (front server.buf reply.length) res
      -- `r < reply_size` compares as `size_t`
      if sizeT (res.ret reply.length) < reply.length then
        w.closeRemoteThenServer (some r) (some a)
      else
        let w := w.evIoStart (.remoteRecv r)
        pure (w.setServer a { server with stage := .relay })

def serverRecvCb (w : World S) (a : Addr) (ans : Answers S) : Except Fault (World S) := do
  let server ← w.server a
  match server.remote with
  | none => w.closeAndFreeServer (some a)
  | some r =>
    match ans.recv with
    | .eof =>
      -- `buf_len` points into the remote from stage 5 on
      let w ← match server.stage with
        | .relay => do
          let remote ← w.remote r
          pure (w.setRemote r { remote with bufLen := 0 })
        | _ => pure (w.setServer a { server with bufLen := 0 })
      let w ← w.closeAndFreeServer (some a)
      let _ ← w.remote r
      pure (w.evIoStart (.remoteSend r))
    | .again => pure w
    | .error => w.closeServerThenRemote (some a) (some r)
    | .data piece =>
      let w := w.receive server.fd piece.bytes
      match server.stage with
      | .relay => w.relayUp a r piece.bytes ans
      | .methodSelect => w.selectMethod a piece.bytes ans
      | .request => w.request a r piece.bytes ans

def serverSendCb (w : World S) (a : Addr) (ans : Answers S) : Except Fault (World S) := do
  let server ← w.server a
  if server.bufLen = 0 then w.closeServerThenRemote (some a) server.remote
  else
    let res := ans.send server.bufLen
    let sent := res.ret server.bufLen
    let w := w.send server.fd (front server.buf server.bufLen) res
    if sent < 0 then
      if res.wouldBlock then pure w
      else w.closeServerThenRemote (some a) server.remote
    else if sent < server.bufLen then
      pure (w.setServer a
        { server with
          buf := moveDown server.buf sent.toNat server.bufLen
          bufLen := server.bufLen - sent.toNat })
    else
      let w := (w.setServer a { server with bufLen := 0 }).evIoStop (.serverSend a)
      match server.remote with
      | some r => do
        let _ ← w.remote r
        pure (w.evIoStart (.remoteRecv r))
      | none => w.closeServerThenRemote (some a) none

/-- `remote_recv_cb` after a `recv` into `server->buf`. -/
def relayDown (w : World S) (a s : Addr) (bytes : Bytes) (ans : Answers S) :
    Except Fault (World S) := do
  let remote ← w.remote a
  let server ← w.server s
  let buf := memcpy server.buf 0 bytes
  let (g, ctx, out) := (decryptBuf ans.ambient w.globals remote.recvEncryptionCtx
    (front buf bytes.length)).getD (w.globals, ans.overrun)
  let buf := memcpy buf 0 out
  let server := { server with buf := buf }
  let res := ans.send out.length
  let sent := res.ret out.length
  let w := (w.setGlobals g).setRemote a { remote with recvEncryptionCtx := ctx }
  let w := (w.setServer s server).send server.fd (front buf out.length) res
  if sent = -1 then
    if res.wouldBlock then
      let w := w.setServer s { server with bufLen := out.length }
      pure ((w.evIoStop (.remoteRecv a)).evIoStart (.serverSend s))
    else w.closeServerThenRemote (some s) (some a)
  else if sent < out.length then
    let w := w.setServer s
      { server with
        buf := moveDown buf sent.toNat out.length
        bufLen := out.length - sent.toNat }
    pure ((w.evIoStop (.remoteRecv a)).evIoStart (.serverSend s))
  else pure w

def remoteRecvCb (w : World S) (a : Addr) (ans : Answers S) : Except Fault (World S) := do
  let remote ← w.remote a
  match remote.server with
  | none => w.closeAndFreeRemote (some a)
  | some s =>
    match ans.recv with
    | .eof =>
      let server ← w.server s
      let w := w.setServer s { server with bufLen := 0 }
      let w ← w.closeAndFreeRemote (some a)
      let _ ← w.server s
      pure (w.evIoStart (.serverSend s))
    | .again => pure w
    | .error => w.closeServerThenRemote (some s) (some a)
    | .data piece => (w.receive remote.fd piece.bytes).relayDown a s piece.bytes ans

def remoteSendCb (w : World S) (a : Addr) (ans : Answers S) : Except Fault (World S) := do
  let remote ← w.remote a
  if ¬ remote.connected then
    if ans.peer then
      let w := (w.setRemote a { remote with connected := true }).evIoStop (.remoteSend a)
      match remote.server with
      | none => throw .nullServer
      | some s => do
        let _ ← w.server s
        pure (w.evIoStart (.serverRecv s))
    else w.closeRemoteThenServer (some a) remote.server
  else if remote.bufLen = 0 then w.closeRemoteThenServer (some a) remote.server
  else
    let res := ans.send remote.bufLen
    let sent := res.ret remote.bufLen
    let w := w.send remote.fd (front remote.buf remote.bufLen) res
    if sent < 0 then
      if res.wouldBlock then pure w
      else w.closeRemoteThenServer (some a) remote.server
    else if sent < remote.bufLen then
      pure (w.setRemote a
        { remote with
          buf := moveDown remote.buf sent.toNat remote.bufLen
          bufLen := remote.bufLen - sent.toNat })
    else
      let w := w.evIoStop (.remoteSend a)
      match remote.server with
      | some s => do
        let _ ← w.server s
        pure (w.evIoStart (.serverRecv s))
      | none => w.closeRemoteThenServer (some a) none

/-- The loop of `accept_cb`; at the end of the list `accept` returns -1. -/
def acceptCb (w : World S) : List (Attempt S) → Except Fault (World S)
  | [] => pure w
  | t :: ts => do
    let k := w.next
    let w := { w with next := k + 1 }.modify k fun c => { c with client := some .opened }
    let w := w.newServer k (.client k) t.serverBuf
    if ¬ t.resolved then
      let w ← w.freeServer (some k)
      acceptCb w ts
    else if ¬ t.socket then
      -- `close(-1)` closes nothing
      let w ← w.freeServer (some k)
      acceptCb w ts
    else
      let w := w.modify k fun c => { c with upstream := some .opened }
      let w := w.newRemote k (.upstream k) t
      let server ← w.server k
      let w := w.setServer k { server with remote := some k }
      let remote ← w.remote k
      let w := w.setRemote k { remote with server := some k }
      pure (w.evIoStart (.remoteSend k))

end World

inductive Event (S : OpenSSL)
  | accept (attempts : List (Attempt S))
  | fire (x : Watcher) (ans : Answers S)
  | config (password : Bytes) (name : String) (remotePort : UInt16)

namespace World

def callback (w : World S) : Watcher → Answers S → Except Fault (World S)
  | .serverRecv a => w.serverRecvCb a
  | .serverSend a => w.serverSendCb a
  | .remoteRecv a => w.remoteRecvCb a
  | .remoteSend a => w.remoteSendCb a

/-- libev calls the callback of a started watcher only; `set_config` may come in between. -/
def step (w : World S) : Event S → Except Fault (World S)
  | .accept attempts => w.acceptCb attempts
  | .fire x ans => if w.isActive x then w.callback x ans else pure w
  | .config password name remotePort =>
    pure { w with
      globals := configEncryption w.globals password name
      remotePort := remotePort }

def run (w : World S) : List (Event S) → Except Fault (World S)
  | [] => pure w
  | e :: es => do
    let w ← w.step e
    run w es

/-- Every event of the run meets the condition in the state in which it comes. -/
def Along (P : World S → Event S → Prop) : World S → List (Event S) → Prop
  | _, [] => True
  | w, e :: es => P w e ∧ ∀ w', w.step e = .ok w' → Along P w' es

theorem run_cons {w w' : World S} {e : Event S} (h : w.step e = .ok w') (es : List (Event S)) :
    w.run (e :: es) = w'.run es := by
  simp only [run, h, bind, Except.bind]

theorem run_append {w w' : World S} {es : List (Event S)} (h : w.run es = .ok w')
    (es' : List (Event S)) : w.run (es ++ es') = w'.run es' := by
  induction es generalizing w with
  | nil =>
    cases h
    rfl
  | cons e es ih =>
    cases hstep : w.step e with
    | error f =>
      rw [run, hstep] at h
      cases h
    | ok w₁ =>
      rw [run_cons hstep] at h
      rw [List.cons_append, run_cons hstep, ih h]

theorem along_of_forall {P : World S → Event S → Prop} {es : List (Event S)}
    (h : ∀ e ∈ es, ∀ w, P w e) (w : World S) : Along P w es := by
  induction es generalizing w with
  | nil => trivial
  | cons e es ih =>
    exact ⟨h e (List.mem_cons_self ..) w,
      fun w' _ => ih (fun e' he' => h e' (List.mem_cons_of_mem e he')) w'⟩

theorem along_cons {P : World S → Event S → Prop} {w w' : World S} {e : Event S}
    (h : w.step e = .ok w') (es : List (Event S)) :
    Along P w (e :: es) ↔ P w e ∧ Along P w' es := by
  simp only [Along, h, Except.ok.injEq, forall_eq']

theorem along_append {P : World S → Event S → Prop} {w w' : World S} {es : List (Event S)}
    (h : w.run es = .ok w') (e : Event S) : Along P w (es ++ [e]) ↔ Along P w es ∧ P w' e := by
  induction es generalizing w with
  | nil =>
    cases h
    simp [Along]
  | cons e₁ es ih =>
    cases hstep : w.step e₁ with
    | error fault => simp [run, hstep, bind, Except.bind] at h
    | ok w₁ =>
      rw [run_cons hstep] at h
      rw [List.cons_append, along_cons hstep, along_cons hstep, ih h, and_assoc]

/-- What every event that meets the condition preserves holds at the end of a run of such
events, and the run goes through. -/
theorem run_along {J : World S → Prop} {P : World S → Event S → Prop}
    (hstep : ∀ {w e}, J w → P w e → ∃ w', w.step e = .ok w' ∧ J w') {w : World S} (h : J w)
    {es : List (Event S)} (hes : Along P w es) : ∃ w', w.run es = .ok w' ∧ J w' := by
  induction es generalizing w with
  | nil => exact ⟨w, rfl, h⟩
  | cons e es ih =>
    obtain ⟨w₁, hw₁, h₁⟩ := hstep h hes.1
    obtain ⟨w₂, hw₂, h₂⟩ := ih h₁ (hes.2 w₁ hw₁)
    exact ⟨w₂, (run_cons hw₁ es).trans hw₂, h₂⟩

/-- A condition that the invariant turns into another. -/
theorem along_imp {J : World S → Prop} {P Q : World S → Event S → Prop}
    (hPQ : ∀ {w e}, J w → P w e → Q w e)
    (hstep : ∀ {w e}, J w → P w e → ∃ w', w.step e = .ok w' ∧ J w') {w : World S} (h : J w)
    {es : List (Event S)} (hes : Along P w es) : Along Q w es := by
  induction es generalizing w with
  | nil => trivial
  | cons e es ih =>
    obtain ⟨w₁, hw₁, h₁⟩ := hstep h hes.1
    rw [along_cons hw₁] at hes ⊢
    exact ⟨hPQ h hes.1, ih h₁ hes.2⟩

/-- What the events of a run make, one after the other. -/
def log {α : Type} (made : World S → Event S → List α) : World S → List (Event S) → List α
  | _, [] => []
  | w, e :: es => made w e ++ (w.step e).toOption.elim [] fun w' => log made w' es

theorem log_cons {α : Type} (made : World S → Event S → List α) {w w' : World S} {e : Event S}
    (h : w.step e = .ok w') (es : List (Event S)) :
    w.log made (e :: es) = made w e ++ w'.log made es := by
  simp only [log, h, Except.toOption, Option.elim_some]

/-- Before the first connection. -/
def start (g : Globals S) (remotePort : UInt16) : World S :=
  { globals := g, remotePort := remotePort, next := 0, cells := fun _ => .empty }

end World

end Shadowsocks
