import Shadowsocks.Local.Handshake

/-!
Descriptors and cipher contexts. The code that frees an object of a connection closes the
object's descriptor, but nothing frees a cipher context, and a failed accept attempt frees the
server without closing its descriptor.
-/
namespace Shadowsocks

open Memory

variable {S : OpenSSL} {w w' : World S} {k : Nat}

inductive Resource
  | fd (fd : Fd)
  | evp (ctx : EvpPtr)
  deriving DecidableEq, Repr

inductive Object
  | server (a : Addr)
  | remote (a : Addr)
  deriving DecidableEq, Repr

/-- The object that the resource is handed to. -/
def Resource.owner : Resource → Object
  | .fd (.client k) => .server k
  | .fd (.upstream k) => .remote k
  | .evp (.recv k) => .remote k
  | .evp (.send k) => .remote k

/-- The attempt that acquired the resource. -/
def Resource.attempt : Resource → Nat
  | .fd (.client k) => k
  | .fd (.upstream k) => k
  | .evp (.recv k) => k
  | .evp (.send k) => k

namespace World

def Live (w : World S) : Object → Prop
  | .server a => (w.cells a).server.isSome
  | .remote a => (w.cells a).remote.isSome

/-- A live object has the resource in one of its fields. -/
def Owns (w : World S) : Object → Resource → Prop
  | .server a, .fd d => ∃ s, (w.cells a).server = some s ∧ s.fd = d
  | .server _, .evp _ => False
  | .remote a, .fd d => ∃ r, (w.cells a).remote = some r ∧ r.fd = d
  | .remote a, .evp e => ∃ r, (w.cells a).remote = some r ∧ (r.recvEvp = e ∨ r.sendEvp = e)

/-- How often the resource has been released since it was acquired. -/
def released (w : World S) : Resource → Option Nat
  | .fd (.client k) => (w.cells k).client.map Socket.closed
  | .fd (.upstream k) => (w.cells k).upstream.map Socket.closed
  | .evp (.recv k) => (w.cells k).recvEvp
  | .evp (.send k) => (w.cells k).sendEvp

structure Conserved (w : World S) : Prop where
  accounted : ∀ x n, w.released x = some n →
    (n = 0 ∧ ∃! o, w.Owns o x) ∨ (n = 1 ∧ ∀ o, ¬ w.Owns o x)
  settled : (∀ o, ¬ w.Live o) → ∀ x n, w.released x = some n → n = 1

end World

namespace Phase

@[simp] def hasServer : Phase S → Bool
  | .connecting .. => true
  | .handshake .. => true
  | .relay .. => true
  | .serverAlone .. => true
  | .remoteAlone .. => false
  | .gone => false

@[simp] def hasRemote : Phase S → Bool
  | .connecting .. => true
  | .handshake .. => true
  | .relay .. => true
  | .serverAlone .. => false
  | .remoteAlone .. => true
  | .gone => false

theorem isSome_server (phase : Phase S) (k : Nat) :
    (phase.server k).isSome = phase.hasServer := by
  cases phase <;> rfl

theorem isSome_remote (phase : Phase S) (k : Nat) :
    (phase.remote k).isSome = phase.hasRemote := by
  cases phase <;> rfl

end Phase

namespace Pair

/-- A descriptor is closed once when its owner is gone, and not before. -/
structure Accounted (p : Pair S) : Prop where
  client : p.client.closed = if p.phase.hasServer then 0 else 1
  upstream : p.upstream.closed = if p.phase.hasRemote then 0 else 1

theorem accounted_shut {p : Pair S} (hs : p.client.closed = 0) (hr : p.upstream.closed = 0) :
    p.shut.Accounted :=
  ⟨congrArg (· + 1) hs, congrArg (· + 1) hr⟩

theorem accounted_relayUp {p : Pair S} (hs : p.client.closed = 0) (hr : p.upstream.closed = 0)
    (g : Globals S) (ans : Answers S) (sbuf : Buffer) (h : Half S) (rLen : Nat)
    (down : Option Nat) (bytes : Bytes) : (p.relayUp g ans sbuf h rLen down bytes).2.Accounted := by
  simp only [relayUp]
  split
  · exact accounted_shut hs hr
  · exact ⟨hs, hr⟩
  · exact ⟨hs, hr⟩

theorem accounted_relayDown {p : Pair S} (hs : p.client.closed = 0) (hr : p.upstream.closed = 0)
    (g : Globals S) (ans : Answers S) (sbuf : Buffer) (h : Half S) (up : Bool) (rLen : Nat)
    (bytes : Bytes) : (p.relayDown g ans sbuf h up rLen bytes).2.Accounted := by
  simp only [relayDown]
  split
  · exact accounted_shut hs hr
  · exact ⟨hs, hr⟩
  · exact ⟨hs, hr⟩

theorem accounted_request {p : Pair S} (hs : p.client.closed = 0) (hr : p.upstream.closed = 0)
    (g : Globals S) (ans : Answers S) (remotePort : UInt16) (sbuf : Buffer) (h : Half S) :
    (p.request g ans remotePort sbuf h).2.Accounted := by
  simp only [request]
  split
  · exact accounted_shut hs hr
  · exact accounted_shut hs hr
  · split_ifs
    · exact accounted_shut hs hr
    · exact accounted_shut hs hr
    · exact ⟨hs, hr⟩

theorem accounted_onServerRecv {p : Pair S} (hp : p.Accounted) (g : Globals S) (ans : Answers S)
    (remotePort : UInt16) : (p.onServerRecv g ans remotePort).2.Accounted := by
  obtain ⟨phase, client, upstream⟩ := p
  obtain ⟨hs, hr⟩ := hp
  rcases phase with ⟨sbuf, h⟩ | ⟨asked, sbuf, h⟩ | ⟨sbuf, h, _ | _, rLen, down⟩ |
    ⟨sbuf, _ | _⟩ | ⟨h, reading⟩ | _ <;> try exact ⟨hs, hr⟩
  · simp only [onServerRecv]
    cases ans.recv with
    | eof => exact ⟨congrArg (· + 1) hs, hr⟩
    | again => exact ⟨hs, hr⟩
    | error => exact accounted_shut hs hr
    | data piece =>
      cases asked with
      | true => exact accounted_request (by exact hs) (by exact hr) ..
      | false => exact ⟨hs, hr⟩
  · simp only [onServerRecv]
    cases ans.recv with
    | eof => exact ⟨congrArg (· + 1) hs, hr⟩
    | again => exact ⟨hs, hr⟩
    | error => exact accounted_shut hs hr
    | data piece => exact accounted_relayUp (by exact hs) (by exact hr) ..
  · exact ⟨congrArg (· + 1) hs, hr⟩

theorem accounted_onServerSend {p : Pair S} (hp : p.Accounted) (ans : Answers S) :
    (p.onServerSend ans).Accounted := by
  obtain ⟨phase, client, upstream⟩ := p
  obtain ⟨hs, hr⟩ := hp
  rcases phase with ⟨sbuf, h⟩ | ⟨asked, sbuf, h⟩ | ⟨sbuf, h, up, rLen, _ | len⟩ |
    ⟨sbuf, reading⟩ | ⟨h, reading⟩ | _ <;> try exact ⟨hs, hr⟩
  · simp only [onServerSend]
    split_ifs
    · exact accounted_shut hs hr
    · split
      · exact accounted_shut hs hr
      · exact ⟨hs, hr⟩
      · exact ⟨hs, hr⟩
  · exact ⟨congrArg (· + 1) hs, hr⟩

theorem accounted_onRemoteRecv {p : Pair S} (hp : p.Accounted) (g : Globals S)
    (ans : Answers S) : (p.onRemoteRecv g ans).2.Accounted := by
  obtain ⟨phase, client, upstream⟩ := p
  obtain ⟨hs, hr⟩ := hp
  rcases phase with ⟨sbuf, h⟩ | ⟨asked, sbuf, h⟩ | ⟨sbuf, h, up, rLen, _ | len⟩ |
    ⟨sbuf, reading⟩ | ⟨h, _ | _⟩ | _ <;> try exact ⟨hs, hr⟩
  · simp only [onRemoteRecv]
    cases ans.recv with
    | eof => exact ⟨hs, congrArg (· + 1) hr⟩
    | again => exact ⟨hs, hr⟩
    | error => exact accounted_shut hs hr
    | data piece => exact accounted_relayDown (by exact hs) (by exact hr) ..
  · exact ⟨hs, congrArg (· + 1) hr⟩

theorem accounted_onRemoteSend {p : Pair S} (hp : p.Accounted) (ans : Answers S) :
    (p.onRemoteSend ans).Accounted := by
  obtain ⟨phase, client, upstream⟩ := p
  obtain ⟨hs, hr⟩ := hp
  rcases phase with ⟨sbuf, h⟩ | ⟨asked, sbuf, h⟩ | ⟨sbuf, h, _ | _, rLen, down⟩ |
    ⟨sbuf, reading⟩ | ⟨h, reading⟩ | _ <;> try exact ⟨hs, hr⟩
  · simp only [onRemoteSend]
    split_ifs
    · exact ⟨hs, hr⟩
    · exact accounted_shut hs hr
  · simp only [onRemoteSend]
    split_ifs
    · exact accounted_shut hs hr
    · split
      · exact accounted_shut hs hr
      · exact ⟨hs, hr⟩
      · exact ⟨hs, hr⟩
  · exact ⟨hs, congrArg (· + 1) hr⟩

theorem accounted_fresh (g : Globals S) (t : Attempt S) : (fresh g t).Accounted := ⟨rfl, rfl⟩

theorem accounted_onFire (g : Globals S) (remotePort : UInt16) (x : Watcher) (ans : Answers S)
    (p : Pair S) (hp : p.Accounted) : (p.onFire g remotePort x ans).2.Accounted := by
  cases x with
  | serverRecv a => exact accounted_onServerRecv hp g ans remotePort
  | serverSend a => exact accounted_onServerSend hp ans
  | remoteRecv a => exact accounted_onRemoteRecv hp g ans
  | remoteSend a => exact accounted_onRemoteSend hp ans

/-! Which transitions leave the remote in place. -/

theorem length_le_bufferSize (piece : Piece) : piece.bytes.length ≤ bufferSize :=
  Nat.le_trans piece.fits (by decide)

theorem hasRemote_relayUp (g : Globals S) (ans : Answers S) (p : Pair S) (sbuf : Buffer)
    (h : Half S) (rLen : Nat) (down : Option Nat) (piece : Piece) :
    (p.relayUp g ans sbuf h rLen down piece.bytes).2.phase.hasRemote ↔
      ans.send (encryptBuf ans.ambient g h.sendCtx piece.bytes).2.2.length ≠ .error := by
  rcases hres : encryptBuf ans.ambient g h.sendCtx piece.bytes with ⟨g', ctx, out⟩
  simp only [relayUp, front_memcpy_zero _ (length_le_bufferSize piece), hres]
  rw [← (offer_failed_iff _ (memcpy (memcpy h.buf 0 piece.bytes) 0 out) out.length).ne]
  cases offer (ans.send out.length) (memcpy (memcpy h.buf 0 piece.bytes) 0 out) out.length <;>
    simp [shut]

theorem hasRemote_relayDown (g : Globals S) (ans : Answers S) (p : Pair S) (sbuf : Buffer)
    (h : Half S) (up : Bool) (rLen : Nat) (piece : Piece) :
    (p.relayDown g ans sbuf h up rLen piece.bytes).2.phase.hasRemote ↔
      ans.send ((decryptBuf ans.ambient g h.recvCtx piece.bytes).getD
        (g, ans.overrun)).2.2.length ≠ .error := by
  rcases hres : (decryptBuf ans.ambient g h.recvCtx piece.bytes).getD (g, ans.overrun) with
    ⟨g', ctx, out⟩
  simp only [relayDown, front_memcpy_zero _ (length_le_bufferSize piece), hres]
  rw [← (offer_failed_iff _ (memcpy (memcpy sbuf 0 piece.bytes) 0 out) out.length).ne]
  cases offer (ans.send out.length) (memcpy (memcpy sbuf 0 piece.bytes) 0 out) out.length <;>
    simp [shut]

theorem hasRemote_request (g : Globals S) (ans : Answers S) (remotePort : UInt16) (p : Pair S)
    (sbuf : Buffer) (h : Half S) :
    (p.request g ans remotePort sbuf h).2.phase.hasRemote ↔
      ∃ header, addrToSend sbuf = .ok header ∧ Served g ans h.sendCtx header := by
  cases haddr : addrToSend sbuf with
  | error refusal => cases refusal <;> simp [request, haddr, shut]
  | ok header =>
    rcases hres : encryptBuf ans.ambient g h.sendCtx header with ⟨g', ctx, out⟩
    simp only [request, haddr, hres, Except.ok.injEq, exists_eq_left', Served]
    have hten : (connectReply remotePort).length = 10 := rfl
    rw [hten]
    split_ifs with hheader hreply <;> simp_all [shut]

end Pair

namespace World

variable {P : Pair S → Prop}

theorem server_fd (h : Described P w) {a : Addr} {s : Server} (hs : (w.cells a).server = some s) :
    s.fd = .client a := by
  rcases h.cells_eq a with ⟨p, hp, -⟩ | hcell | hcell
  · rw [hp] at hs
    obtain ⟨phase, client, upstream⟩ := p
    cases phase <;> cases hs <;> rfl
  all_goals rw [hcell] at hs; cases hs

theorem remote_fields (h : Described P w) {a : Addr} {r : Remote S}
    (hr : (w.cells a).remote = some r) :
    r.fd = .upstream a ∧ r.recvEvp = .recv a ∧ r.sendEvp = .send a := by
  rcases h.cells_eq a with ⟨p, hp, -⟩ | hcell | hcell
  · rw [hp] at hr
    obtain ⟨phase, client, upstream⟩ := p
    cases phase <;> cases hr <;> exact ⟨rfl, rfl, rfl⟩
  all_goals rw [hcell] at hr; cases hr

/-- Nobody but the object it was handed to holds a resource. -/
theorem owns_iff (h : Described P w) (o : Object) (x : Resource) :
    w.Owns o x ↔ o = x.owner ∧ w.Live x.owner := by
  constructor
  · intro ho
    rcases o with a | a <;> rcases x with d | e
    · obtain ⟨s, hs, rfl⟩ := ho
      rw [server_fd h hs]
      exact ⟨rfl, Option.isSome_iff_exists.mpr ⟨s, hs⟩⟩
    · cases ho
    · obtain ⟨r, hr, rfl⟩ := ho
      rw [(remote_fields h hr).1]
      exact ⟨rfl, Option.isSome_iff_exists.mpr ⟨r, hr⟩⟩
    · obtain ⟨r, hr, rfl | rfl⟩ := ho
      · rw [(remote_fields h hr).2.1]
        exact ⟨rfl, Option.isSome_iff_exists.mpr ⟨r, hr⟩⟩
      · rw [(remote_fields h hr).2.2]
        exact ⟨rfl, Option.isSome_iff_exists.mpr ⟨r, hr⟩⟩
  · rintro ⟨rfl, hlive⟩
    rcases x with (k | k) | (k | k) <;> obtain ⟨y, hy⟩ := Option.isSome_iff_exists.mp hlive
    · exact ⟨y, hy, server_fd h hy⟩
    · exact ⟨y, hy, (remote_fields h hy).1⟩
    · exact ⟨y, hy, Or.inl (remote_fields h hy).2.1⟩
    · exact ⟨y, hy, Or.inr (remote_fields h hy).2.2⟩

theorem existsUnique_owns_iff (h : Described P w) (x : Resource) :
    (∃! o, w.Owns o x) ↔ w.Live x.owner := by
  simp only [ExistsUnique, owns_iff h]
  exact ⟨fun ⟨_, ho, _⟩ => ho.2, fun hlive => ⟨_, ⟨rfl, hlive⟩, fun _ ho => ho.1⟩⟩

theorem forall_not_owns_iff (h : Described P w) (x : Resource) :
    (∀ o, ¬ w.Owns o x) ↔ ¬ w.Live x.owner := by
  simp only [owns_iff h]
  exact ⟨fun hno hlive => hno _ ⟨rfl, hlive⟩, fun hdead o ho => hdead ho.2⟩

/-- Nothing has been acquired under a name that no attempt has had. -/
theorem lt_next_of_released (h : Described P w) {x : Resource} {n : Nat}
    (hx : w.released x = some n) : x.attempt < w.next := by
  by_contra hge
  have hcell := h.future (Nat.le_of_not_lt hge)
  rcases x with (k | k) | (k | k) <;> simp only [Resource.attempt] at hcell <;>
    simp only [released, hcell] at hx <;> cases hx

/-- Every accepted connection still has its remote. -/
def AllAlive (w : World S) : Prop := ∀ k < w.next, w.Live (.remote k)

/-- While it has, the client's descriptor is closed when the server has gone, and the rest is
still in use. -/
theorem released_of_alive (h : Described Pair.Accounted w) (hall : w.AllAlive) {x : Resource}
    {n : Nat} (hx : w.released x = some n) :
    (n = 0 ∧ w.Live x.owner) ∨ (n = 1 ∧ ¬ w.Live x.owner) := by
  have hk := lt_next_of_released h hx
  have hlive := hall _ hk
  obtain ⟨slot, hcell, hsat⟩ := h.past hk
  cases slot with
  | failed =>
    simp only [Live, hcell] at hlive
    cases hlive
  | pair p =>
    have hremote : p.phase.hasRemote := by
      have hsome : ((Slot.pair p).cell x.attempt).remote.isSome := hcell ▸ hlive
      rwa [← p.phase.isSome_remote x.attempt]
    rcases x with (k | k) | (k | k) <;> simp only [Resource.attempt] at hcell hlive <;>
      simp only [released, hcell, Slot.cell, Pair.cell, Option.map_some, Option.some.injEq] at hx
    · simp only [Resource.owner, Live, hcell, Slot.cell, Pair.cell, Phase.isSome_server, ← hx,
        hsat.client]
      cases p.phase.hasServer <;> simp
    · exact Or.inl ⟨by rw [← hx, hsat.upstream, if_pos hremote], hlive⟩
    · exact Or.inl ⟨hx.symm, hlive⟩
    · exact Or.inl ⟨hx.symm, hlive⟩

/-- The contexts of a remote are as good as lost when the remote is, and so is the descriptor
of a failed attempt. -/
theorem conserved_iff (h : Described Pair.Accounted w) : w.Conserved ↔ w.AllAlive := by
  constructor
  · intro hcons k hk
    obtain ⟨slot, hcell, -⟩ := h.past hk
    have hheld : ∀ x, w.released x = some 0 → w.Live x.owner := by
      intro x hx
      rcases hcons.accounted x 0 hx with ⟨-, hown⟩ | ⟨hone, -⟩
      · exact (existsUnique_owns_iff h x).mp hown
      · cases hone
    cases slot with
    | pair p => exact hheld (.evp (.recv k)) (by simp only [released, hcell]; rfl)
    | failed =>
      have hserver := hheld (.fd (.client k)) (by simp only [released, hcell]; rfl)
      simp only [Resource.owner, Live, hcell] at hserver
      cases hserver
  · intro hall
    refine ⟨?_, ?_⟩
    · intro x n hx
      rw [existsUnique_owns_iff h, forall_not_owns_iff h]
      exact released_of_alive h hall hx
    · intro hdead x n hx
      exact absurd (hall _ (lt_next_of_released h hx)) (hdead _)

/-- The callback, in this state and with these answers, takes no path that frees a remote. -/
def Spares (w : World S) (ans : Answers S) : Watcher → Prop
  | .serverRecv a => ∀ s, (w.cells a).server = some s → ∀ b, s.remote = some b →
      ∀ r, (w.cells b).remote = some r →
      match ans.recv with
      | .data piece =>
        match s.stage with
        | .methodSelect => True
        | .request => ∃ header, addrToSend (memcpy s.buf 0 piece.bytes) = .ok header ∧
            Served w.globals ans r.sendEncryptionCtx header
        | .relay => ans.send (encryptBuf ans.ambient w.globals r.sendEncryptionCtx
            piece.bytes).2.2.length ≠ .error
      | .error => False
      | _ => True
  | .serverSend a => ∀ s, (w.cells a).server = some s → s.remote.isSome →
      s.bufLen ≠ 0 ∧ ans.send s.bufLen ≠ .error
  | .remoteRecv a => ∀ r, (w.cells a).remote = some r → r.server.isSome ∧
      match ans.recv with
      | .data piece => ans.send ((decryptBuf ans.ambient w.globals r.recvEncryptionCtx
            piece.bytes).getD (w.globals, ans.overrun)).2.2.length ≠ .error
      | .again => True
      | _ => False
  | .remoteSend a => ∀ r, (w.cells a).remote = some r →
      if r.connected then r.bufLen ≠ 0 ∧ ans.send r.bufLen ≠ .error else ans.peer

/-- The event neither leaks a descriptor nor ends a connection. -/
def Keeps (w : World S) : Event S → Prop
  | .accept attempts => ∀ t ∈ attempts.head?, t.resolved ∧ t.socket
  | .fire x ans => w.isActive x → w.Spares ans x
  | .config .. => True

theorem hasRemote_serverRecv {p : Pair S} (hp : w.cells k = p.cell k) (ans : Answers S)
    (hact : p.phase.serverRecv) :
    (p.onServerRecv w.globals ans w.remotePort).2.phase.hasRemote ↔
      p.phase.hasRemote ∧ w.Spares ans (.serverRecv k) := by
  obtain ⟨phase, client, upstream⟩ := p
  rcases phase with ⟨sbuf, h⟩ | ⟨_ | _, sbuf, h⟩ | ⟨sbuf, h, _ | _, rLen, down⟩ |
    ⟨sbuf, _ | _⟩ | ⟨h, reading⟩ | _ <;> try cases hact
  · cases hrecv : ans.recv <;>
      simp [Spares, hp, Pair.cell, Pair.onServerRecv, hrecv, Pair.shut]
  · cases hrecv : ans.recv with
    | data piece =>
      simp only [Pair.onServerRecv, hrecv, if_true, Pair.hasRemote_request]
      simp [Spares, hp, Pair.cell, hrecv]
    | _ => simp [Spares, hp, Pair.cell, Pair.onServerRecv, hrecv, Pair.shut]
  · cases hrecv : ans.recv with
    | data piece =>
      simp only [Pair.onServerRecv, hrecv, Pair.hasRemote_relayUp]
      simp [Spares, hp, Pair.cell, hrecv]
    | _ => simp [Spares, hp, Pair.cell, Pair.onServerRecv, hrecv, Pair.shut]
  · simp [Pair.onServerRecv]

theorem hasRemote_serverSend {p : Pair S} (hp : w.cells k = p.cell k) (ans : Answers S)
    (hact : p.phase.serverSend) :
    (p.onServerSend ans).phase.hasRemote ↔
      p.phase.hasRemote ∧ w.Spares ans (.serverSend k) := by
  obtain ⟨phase, client, upstream⟩ := p
  rcases phase with ⟨sbuf, h⟩ | ⟨asked, sbuf, h⟩ | ⟨sbuf, h, up, rLen, _ | len⟩ |
    ⟨sbuf, reading⟩ | ⟨h, reading⟩ | _ <;> try cases hact
  · simp only [Spares, hp, Pair.cell, Phase.server, Option.some.injEq, forall_eq', Option.getD_some,
      Option.isSome_some, forall_const, Pair.onServerSend]
    by_cases hlen : len = 0
    · simp [hlen, Pair.shut]
    · simp only [hlen, if_false]
      rw [← (offer_failed_iff _ sbuf len).ne]
      cases offer (ans.send len) sbuf len <;> simp [Pair.shut, hlen]
  · simp [Pair.onServerSend]

theorem hasRemote_remoteRecv {p : Pair S} (hp : w.cells k = p.cell k) (ans : Answers S)
    (hact : p.phase.remoteRecv) :
    (p.onRemoteRecv w.globals ans).2.phase.hasRemote ↔
      p.phase.hasRemote ∧ w.Spares ans (.remoteRecv k) := by
  obtain ⟨phase, client, upstream⟩ := p
  rcases phase with ⟨sbuf, h⟩ | ⟨asked, sbuf, h⟩ | ⟨sbuf, h, up, rLen, _ | len⟩ |
    ⟨sbuf, reading⟩ | ⟨h, _ | _⟩ | _ <;> try cases hact
  · cases hrecv : ans.recv with
    | data piece =>
      simp only [Pair.onRemoteRecv, hrecv, Pair.hasRemote_relayDown]
      simp [Spares, hp, Pair.cell, hrecv]
    | _ => simp [Spares, hp, Pair.cell, Pair.onRemoteRecv, hrecv, Pair.shut]
  · simp [Spares, hp, Pair.cell, Pair.onRemoteRecv]

theorem hasRemote_remoteSend {p : Pair S} (hp : w.cells k = p.cell k) (ans : Answers S)
    (hact : p.phase.remoteSend) :
    (p.onRemoteSend ans).phase.hasRemote ↔
      p.phase.hasRemote ∧ w.Spares ans (.remoteSend k) := by
  obtain ⟨phase, client, upstream⟩ := p
  rcases phase with ⟨sbuf, h⟩ | ⟨asked, sbuf, h⟩ | ⟨sbuf, h, _ | _, rLen, down⟩ |
    ⟨sbuf, reading⟩ | ⟨h, reading⟩ | _ <;> try cases hact
  · cases hpeer : ans.peer <;>
      simp [Spares, hp, Pair.cell, Pair.onRemoteSend, hpeer, Pair.shut]
  · simp only [Spares, hp, Pair.cell, Phase.remote, Half.remote, Option.some.injEq, forall_eq',
      if_true, Pair.onRemoteSend]
    by_cases hlen : rLen = 0
    · simp [hlen, Pair.shut]
    · simp only [hlen, if_false]
      rw [← (offer_failed_iff _ h.buf rLen).ne]
      cases offer (ans.send rLen) h.buf rLen <;> simp [Pair.shut, hlen]
  · simp [Spares, hp, Pair.cell, Pair.onRemoteSend]

theorem hasRemote_onFire {p : Pair S} {x : Watcher} (hp : w.cells x.addr = p.cell x.addr)
    (ans : Answers S) :
    (p.onFire w.globals w.remotePort x ans).2.phase.hasRemote ↔
      p.phase.hasRemote ∧ (w.isActive x → w.Spares ans x) := by
  rw [isActive_eq hp]
  cases hact : p.phase.active x with
  | false =>
    rw [Pair.onFire_inactive _ _ _ _ _ hact]
    simp
  | true =>
    rw [forall_prop_of_true rfl]
    cases x with
    | serverRecv a => exact hasRemote_serverRecv hp ans hact
    | serverSend a => exact hasRemote_serverSend hp ans hact
    | remoteRecv a => exact hasRemote_remoteRecv hp ans hact
    | remoteSend a => exact hasRemote_remoteSend hp ans hact

theorem allAlive_put (hk : k < w.next) (c : Cell S) :
    (w.put k c).AllAlive ↔ (∀ j < w.next, j ≠ k → w.Live (.remote j)) ∧ c.remote.isSome := by
  constructor
  · intro hall
    refine ⟨?_, by simpa [Live] using hall k hk⟩
    intro j hj hjk
    simpa only [Live, put_cells_ne _ hjk] using hall j hj
  · rintro ⟨hothers, hself⟩ j hj
    by_cases hjk : j = k
    · subst hjk
      simpa [Live] using hself
    · simpa only [Live, put_cells_ne _ hjk] using hothers j hj hjk

theorem allAlive_accept (h : Described P w) {ts : List (Attempt S)}
    (hacc : w.acceptCb ts = .ok w') :
    w'.AllAlive ↔ w.AllAlive ∧ ∀ t ∈ ts.head?, t.resolved ∧ t.socket := by
  cases ts with
  | nil =>
    cases hacc
    simp
  | cons t ts =>
    have hempty := h.future (Nat.le_refl _)
    have hothers : (∀ j < w.next + 1, j ≠ w.next → w.advance.Live (.remote j)) ↔ w.AllAlive := by
      refine forall_congr' fun j => ?_
      constructor
      · intro hj hlt
        exact hj (by omega) (by omega)
      · intro hj hlt hne
        exact hj (by omega)
    simp only [List.head?_cons, Option.mem_def, Option.some.injEq, forall_eq']
    by_cases ht : t.resolved ∧ t.socket
    · rw [acceptCb_ok hempty ht] at hacc
      cases hacc
      rw [allAlive_put (Nat.lt_succ_self _)]
      exact and_congr hothers (iff_of_true rfl ht)
    · rw [acceptCb_failed hempty ht] at hacc
      refine iff_of_false ?_ fun hand => ht hand.2
      intro hall
      obtain ⟨-, -, hle, hcells⟩ := acceptCb_past (h.advance .failed trivial) hacc
      have hlive := hall w.next hle
      simp only [Live, hcells w.next (Nat.lt_succ_self _), put_cells] at hlive
      cases hlive

theorem allAlive_step (h : Described P w) {e : Event S} (hstep : w.step e = .ok w') :
    w'.AllAlive ↔ w.AllAlive ∧ w.Keeps e := by
  cases e with
  | accept attempts => exact allAlive_accept h hstep
  | config password name remotePort =>
    cases hstep
    exact (and_iff_left trivial).symm
  | fire x ans =>
    by_cases hx : ∃ p : Pair S, w.cells x.addr = p.cell x.addr
    · obtain ⟨p, hp⟩ := hx
      rw [step_fire hp] at hstep
      cases hstep
      have hsame := allAlive_put (h.lt_next hp) (p.cell x.addr)
      rw [← hp, put_self, hp] at hsame
      have hkeep := hasRemote_onFire hp ans
      rw [← Phase.isSome_remote _ x.addr, ← Phase.isSome_remote _ x.addr] at hkeep
      have hmoved := allAlive_put (w := w.setGlobals (p.onFire w.globals w.remotePort x ans).1)
        (h.lt_next hp) ((p.onFire w.globals w.remotePort x ans).2.cell x.addr)
      rw [hsame, and_assoc, hmoved]
      exact and_congr_right' hkeep
    · rw [step_fire_idle h hx] at hstep
      cases hstep
      refine (and_iff_left ?_).symm
      intro hact
      rw [isActive_idle h hx] at hact
      cases hact

theorem run_allAlive (h : Described Pair.Accounted w) (es : List (Event S)) :
    ∃ w', w.run es = .ok w' ∧ Described Pair.Accounted w' ∧
      (w'.AllAlive ↔ w.AllAlive ∧ Along Keeps w es) := by
  induction es generalizing w with
  | nil => exact ⟨w, rfl, h, (and_iff_left trivial).symm⟩
  | cons e es ih =>
    obtain ⟨w₁, hstep, h₁⟩ := step_described (e := e) (Pair.accounted_fresh w.globals)
      (fun _ _ _ _ _ hp => Pair.accounted_onFire _ _ _ _ _ hp) h
    obtain ⟨w₂, hrun, h₂, hall⟩ := ih h₁
    refine ⟨w₂, (run_cons hstep es).trans hrun, h₂, ?_⟩
    rw [hall, allAlive_step h hstep, along_cons hstep, and_assoc]

/-- Over a whole run nothing is lost exactly when every event keeps what there is. -/
theorem run_conserved_iff (g : Globals S) (remotePort : UInt16) (es : List (Event S)) :
    ∃ w, (start g remotePort).run es = .ok w ∧
      (w.Conserved ↔ Along Keeps (start g remotePort) es) := by
  obtain ⟨w, hrun, h, hall⟩ := run_allAlive (described_start g remotePort) es
  refine ⟨w, hrun, ?_⟩
  rw [conserved_iff h, hall]
  exact and_iff_right fun k hk => absurd hk (Nat.not_lt_zero k)


/-- A name that does not resolve loses the client's descriptor, and a connection that is never
made loses two cipher contexts. -/
theorem run_leaks :
    let lost : Attempt Reference.openssl :=
      ⟨false, false, Vector.replicate _ 0, Vector.replicate _ 0, .zeroed _, .zeroed _⟩
    let refused : Answers Reference.openssl :=
      ⟨.again, fun _ => .again, fun _ => .again, false, .zeroed, (.zeroed _, [])⟩
    (∃ w, (start (.zeroed _) 0).run [.accept [lost]] = .ok w ∧ ¬ w.Conserved ∧
      w.released (.fd (.client 0)) = some 0 ∧ ∀ o, ¬ w.Live o) ∧
    ∃ w, (start (.zeroed _) 0).run [.accept [{ lost with resolved := true, socket := true }],
        .fire (.remoteSend 0) refused] = .ok w ∧ ¬ w.Conserved ∧
      w.released (.evp (.send 0)) = some 0 ∧ ∀ o, ¬ w.Live o := by
  intro lost refused
  have hlost : ∀ {w : World Reference.openssl} {x}, w.released x = some 0 → (∀ o, ¬ w.Live o) →
      ¬ w.Conserved ∧ w.released x = some 0 ∧ ∀ o, ¬ w.Live o := by
    intro w x hx hdead
    refine ⟨?_, hx, hdead⟩
    intro hcons
    cases hcons.settled hdead x 0 hx
  refine ⟨⟨_, rfl, hlost rfl ?_⟩, ⟨_, rfl, hlost rfl ?_⟩⟩ <;>
    rintro ((_ | a) | (_ | a)) <;> exact Bool.false_ne_true

end World

end Shadowsocks
