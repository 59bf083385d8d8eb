import Shadowsocks.Local.Lifetime

/-!
How a connection comes to the relay stage. Only a served request leads there, and what the two
ends have been sent by then depends on two results that `server_recv_cb` does not look at: that
of the first `send`, and a -1 of the last.
-/
namespace Shadowsocks

open Memory

variable {S : OpenSSL} {w w' : World S} {k : Nat}

namespace Phase

def stage : Phase S → Option Stage
  | .connecting .. => some .methodSelect
  | .handshake false .. => some .methodSelect
  | .handshake true .. => some .request
  | .relay .. => some .relay
  | .serverAlone .. => some .relay
  | .remoteAlone .. => none
  | .gone => none

/-- The request has not been served yet. -/
def early : Phase S → Bool
  | .connecting .. => true
  | .handshake .. => true
  | _ => false

end Phase

namespace World

/-- `server->stage`, while there is a server. -/
def stageOf (w : World S) (k : Nat) : Option Stage := (w.cells k).server.map Server.stage

theorem stageOf_eq {p : Pair S} (hp : w.cells k = p.cell k) : w.stageOf k = p.phase.stage := by
  rw [stageOf, hp]
  obtain ⟨phase, client, upstream⟩ := p
  rcases phase with _ | ⟨_ | _, _, _⟩ | _ | _ | _ | _ <;> rfl

end World

/-- The header of a request goes out whole, and so does the reply. -/
def Served (g : Globals S) (ans : Answers S) (ctx : EncryptionCtx S) (header : Bytes) : Prop :=
  let len := (encryptBuf ans.ambient g ctx header).2.2.length
  sizeT ((ans.send len).ret len) = len ∧ ¬ sizeT ((ans.reply 10).ret 10) < 10

namespace Pair

/-- The relay stage is entered by a request that parses, with both sends let through. -/
structure Enters (g : Globals S) (ans : Answers S) (remotePort : UInt16) (p p' : Pair S)
    (sbuf : Buffer) (h : Half S) (piece : Piece) (header : Bytes) : Prop where
  asked : p.phase = .handshake true sbuf h
  received : ans.recv = .data piece
  parsed : addrToSend (memcpy sbuf 0 piece.bytes) = .ok header
  served : Served g ans h.sendCtx header
  client : p'.client =
    (p.client.receive piece.bytes).send (connectReply remotePort) (ans.reply 10)
  upstream : let out := (encryptBuf ans.ambient g h.sendCtx header).2.2
    p'.upstream = p.upstream.send out (ans.send out.length)
  phase : ∃ sbuf', p'.phase = .relay sbuf'
    { h with sendCtx := (encryptBuf ans.ambient g h.sendCtx header).2.1 } false 0 none

variable {g : Globals S} {ans : Answers S} {remotePort : UInt16} {p : Pair S}

theorem Enters.stage {p' : Pair S} {sbuf : Buffer} {h : Half S} {piece : Piece} {header : Bytes}
    (henter : Enters g ans remotePort p p' sbuf h piece header) :
    p'.phase.stage = some .relay := by
  obtain ⟨sbuf', hphase⟩ := henter.phase
  rw [hphase]
  rfl

theorem enters_request (remotePort : UInt16) {sbuf : Buffer} {h : Half S} {piece : Piece}
    {header : Bytes}
    (hp : p.phase = .handshake true sbuf h) (hrecv : ans.recv = .data piece)
    (haddr : addrToSend (memcpy sbuf 0 piece.bytes) = .ok header)
    (hserved : Served g ans h.sendCtx header) :
    Enters g ans remotePort p (request g ans remotePort
      { p with client := p.client.receive piece.bytes } (memcpy sbuf 0 piece.bytes) h).2
      sbuf h piece header := by
  rcases hres : encryptBuf ans.ambient g h.sendCtx header with ⟨g', ctx, out⟩
  have hten : (connectReply remotePort).length = 10 := rfl
  have hfront := front_memcpy_zero (memcpy sbuf 0 piece.bytes)
    (Nat.le_of_lt (by rw [hten]; decide) : (connectReply remotePort).length ≤ bufferSize)
  obtain ⟨hheader, hreply⟩ := hserved
  rw [hten] at hfront
  simp only [hres] at hheader
  refine ⟨hp, hrecv, haddr, ⟨by simpa only [hres], hreply⟩, ?_, ?_, ?_⟩
  · simp only [request, haddr, hres, hten, hheader, hreply, ne_eq, not_true_eq_false, if_false,
      hfront]
  · simp only [request, haddr, hres, hten, hheader, hreply, ne_eq, not_true_eq_false, if_false]
  · refine ⟨memcpy (memcpy sbuf 0 piece.bytes) 0 (connectReply remotePort), ?_⟩
    simp only [request, haddr, hres, hten, hheader, hreply, ne_eq, not_true_eq_false, if_false]

/-- A request that is not served ends the connection. -/
theorem stage_request {sbuf : Buffer} {h : Half S} {piece : Piece}
    (hp : p.phase = .handshake true sbuf h) (hrecv : ans.recv = .data piece)
    (hafter : ((request g ans remotePort { p with client := p.client.receive piece.bytes }
      (memcpy sbuf 0 piece.bytes) h).2.phase.stage = some .relay)) :
    ∃ header, Enters g ans remotePort p (request g ans remotePort
      { p with client := p.client.receive piece.bytes } (memcpy sbuf 0 piece.bytes) h).2
      sbuf h piece header := by
  cases haddr : addrToSend (memcpy sbuf 0 piece.bytes) with
  | error refusal => cases refusal <;> simp [request, haddr, shut, Phase.stage] at hafter
  | ok header =>
    by_cases hserved : Served g ans h.sendCtx header
    · exact ⟨header, enters_request remotePort hp hrecv haddr hserved⟩
    · rcases hres : encryptBuf ans.ambient g h.sendCtx header with ⟨g', ctx, out⟩
      have hten : (connectReply remotePort).length = 10 := rfl
      simp only [Served, hres, not_and, not_not] at hserved
      simp only [request, haddr, hres, hten] at hafter
      split_ifs at hafter with hheader hreply
      · cases hafter
      · cases hafter
      · exact absurd (hserved (not_not.mp hheader)) hreply

/-- No other transition leads into the relay stage. -/
theorem enters_of_onFire {x : Watcher} (hbefore : p.phase.stage ≠ some .relay)
    (hafter : (p.onFire g remotePort x ans).2.phase.stage = some .relay) :
    x = .serverRecv x.addr ∧ ∃ sbuf h piece header,
      Enters g ans remotePort p (p.onFire g remotePort x ans).2 sbuf h piece header := by
  have hact : p.phase.active x = true := by
    by_contra hidle
    rw [Pair.onFire_inactive _ _ _ _ _ (Bool.not_eq_true _ ▸ hidle)] at hafter
    exact hbefore hafter
  obtain ⟨phase, client, upstream⟩ := p
  rcases phase with ⟨sbuf, h⟩ | ⟨asked, sbuf, h⟩ | ⟨sbuf, h, up, rLen, down⟩ | ⟨sbuf, reading⟩ |
    ⟨h, reading⟩ | _
  · cases x <;> cases hact
    simp only [onFire, onRemoteSend] at hafter
    split_ifs at hafter <;> cases hafter
  · cases x <;> cases hact
    refine ⟨rfl, ?_⟩
    simp only [onFire, onServerRecv] at hafter ⊢
    cases hrecv : ans.recv with
    | data piece =>
      cases asked with
      | true =>
        simp only [hrecv, if_true] at hafter ⊢
        obtain ⟨header, hh⟩ := stage_request (p := ⟨.handshake true sbuf h, client, upstream⟩) rfl
          hrecv hafter
        exact ⟨sbuf, h, piece, header, hh⟩
      | false =>
        rw [hrecv] at hafter
        cases hafter
    | _ =>
      rw [hrecv] at hafter
      cases asked <;> cases hafter
  · exact absurd rfl hbefore
  · exact absurd rfl hbefore
  · cases x <;> cases hact <;> cases hafter
  · cases x <;> cases hact

theorem early_request (g : Globals S) (ans : Answers S) (remotePort : UInt16) (p : Pair S)
    (sbuf : Buffer) (h : Half S) :
    (request g ans remotePort p sbuf h).2.phase.early = false := by
  unfold request
  split
  · rfl
  · rfl
  · dsimp only
    split_ifs <;> rfl

theorem early_relayUp (g : Globals S) (ans : Answers S) (p : Pair S) (sbuf : Buffer) (h : Half S)
    (rLen : Nat) (down : Option Nat) (bytes : Bytes) :
    (p.relayUp g ans sbuf h rLen down bytes).2.phase.early = false := by
  simp only [relayUp]
  split <;> rfl

theorem early_relayDown (g : Globals S) (ans : Answers S) (p : Pair S) (sbuf : Buffer)
    (h : Half S) (up : Bool) (rLen : Nat) (bytes : Bytes) :
    (p.relayDown g ans sbuf h up rLen bytes).2.phase.early = false := by
  simp only [relayDown]
  split <;> rfl

/-- There is no way back to the handshake. -/
theorem early_onFire (g : Globals S) (remotePort : UInt16) (x : Watcher) (ans : Answers S)
    {p : Pair S} (hp : p.phase.early = false) :
    (p.onFire g remotePort x ans).2.phase.early = false := by
  obtain ⟨phase, client, upstream⟩ := p
  rcases phase with ⟨sbuf, h⟩ | ⟨asked, sbuf, h⟩ | ⟨sbuf, h, up, rLen, down⟩ |
    ⟨sbuf, _ | _⟩ | ⟨h, _ | _⟩ | _ <;> try cases hp
  · cases x with
    | serverRecv a =>
      cases up with
      | true => rfl
      | false =>
        simp only [onFire, onServerRecv]
        split <;> first | rfl | exact early_relayUp ..
    | serverSend a =>
      cases down with
      | none => rfl
      | some len =>
        simp only [onFire, onServerSend]
        split_ifs
        · rfl
        · split <;> rfl
    | remoteRecv a =>
      cases down with
      | some len => rfl
      | none =>
        simp only [onFire, onRemoteRecv]
        split <;> first | rfl | exact early_relayDown ..
    | remoteSend a =>
      cases up with
      | false => rfl
      | true =>
        simp only [onFire, onRemoteSend]
        split_ifs
        · rfl
        · split <;> rfl
  all_goals cases x <;> rfl

/-- What a callback can do to a connection before its request is served. -/
theorem onFire_early (hp : p.phase.early = true) (x : Watcher) :
    (p.onFire g remotePort x ans).2.phase.early = false ∨
    ((p.onFire g remotePort x ans).2 = p ∧
      (p.phase.active x = false ∨ ∀ piece, ans.recv ≠ .data piece)) ∨
    (∃ sbuf h, p.phase = .connecting sbuf h ∧ (∀ a, x ≠ .serverRecv a) ∧
      (p.onFire g remotePort x ans).2 = { p with phase := .handshake false sbuf h }) ∨
    ∃ sbuf h piece, p.phase = .handshake false sbuf h ∧ ans.recv = .data piece ∧
      x = .serverRecv x.addr ∧ (p.onFire g remotePort x ans).2 =
        ⟨.handshake true (memcpy sbuf 0 piece.bytes) h,
          (p.client.receive piece.bytes).send methodSelectResponse (ans.send 2), p.upstream⟩ := by
  cases hact : p.phase.active x with
  | false => exact Or.inr (Or.inl ⟨by rw [onFire_inactive _ _ _ _ _ hact], Or.inl rfl⟩)
  | true =>
    obtain ⟨phase, client, upstream⟩ := p
    rcases phase with ⟨sbuf, h⟩ | ⟨asked, sbuf, h⟩ | _ | _ | _ | _ <;> try cases hp
    · cases x <;> cases hact
      simp only [onFire, onRemoteSend]
      split_ifs
      · exact Or.inr (Or.inr (Or.inl ⟨sbuf, h, rfl, by simp, rfl⟩))
      · exact Or.inl rfl
    · cases x <;> cases hact
      simp only [onFire, onServerRecv]
      cases hrecv : ans.recv with
      | data piece =>
        cases asked with
        | true => exact Or.inl (early_request ..)
        | false => exact Or.inr (Or.inr (Or.inr ⟨sbuf, h, piece, rfl, rfl, rfl, rfl⟩))
      | again => exact Or.inr (Or.inl ⟨rfl, Or.inr (by simp)⟩)
      | eof => exact Or.inl rfl
      | error => exact Or.inl rfl

end Pair

namespace SendResult

theorem taken_eq_iff {res : SendResult} {bytes : Bytes} (hbytes : bytes ≠ []) :
    res.taken bytes = bytes ↔ res.ret bytes.length = bytes.length := by
  cases res with
  | accepted n =>
    simp only [taken, ret, List.take_eq_self_iff]
    omega
  | again => exact iff_of_false (Ne.symm hbytes) (by simp only [ret]; omega)
  | error => exact iff_of_false (Ne.symm hbytes) (by simp only [ret]; omega)

/-- Where the code goes on, everything has been taken over unless `send` returned -1. -/
theorem taken_eq_iff_ne {res : SendResult} {bytes : Bytes}
    (hlet : sizeT (res.ret bytes.length) = bytes.length ∨
      bytes ≠ [] ∧ ¬ sizeT (res.ret bytes.length) < bytes.length) :
    res.taken bytes = bytes ↔ res.ret bytes.length ≠ -1 := by
  have hne : res.ret bytes.length = -1 → bytes ≠ [] := by
    rintro hret rfl
    rw [hret] at hlet
    rcases hlet with hlet | ⟨hne, -⟩
    · cases hlet
    · exact hne rfl
  cases res with
  | accepted n =>
    simp only [taken, ret, sizeT, List.take_eq_self_iff] at hlet ⊢
    omega
  | again => exact iff_of_false (Ne.symm (hne rfl)) (not_not_intro rfl)
  | error => exact iff_of_false (Ne.symm (hne rfl)) (not_not_intro rfl)

end SendResult

namespace World

/-- The event of `w` has served a request, and both ends have accepted all they were sent. -/
def Completes (k : Nat) (w w' : World S) (e : Event S) : Prop :=
  ∃ ans piece s r header, e = .fire (.serverRecv k) ans ∧ ans.recv = .data piece ∧
    (w.cells k).server = some s ∧ (w.cells k).remote = some r ∧
    addrToSend (memcpy s.buf 0 piece.bytes) = .ok header ∧
    (w'.cells k).client.map Socket.accepted =
      some (methodSelectResponse ++ connectReply w.remotePort) ∧
    (w'.cells k).upstream.map Socket.accepted =
      some (encryptBuf ans.ambient w.globals r.sendEncryptionCtx header).2.2

variable {P : Pair S → Prop} {C : Prop} {e : Event S}

/-- Only an event on the connection itself takes it into the relay stage. -/
theorem fire_of_enters (h : Described (fun _ : Pair S => True) w) (hstep : w.step e = .ok w')
    (hbefore : w.stageOf k ≠ some .relay) (hafter : w'.stageOf k = some .relay) :
    ∃ x ans, e = .fire x ans ∧ x.addr = k ∧ ∃ p : Pair S, w.cells k = p.cell k := by
  cases e with
  | config password name remotePort =>
    cases hstep
    exact absurd hafter hbefore
  | accept attempts =>
    rcases Nat.lt_or_ge k w.next with hk | hk
    · rw [stageOf, (acceptCb_past h hstep).2.2.2 k hk] at hafter
      exact absurd hafter hbefore
    · rcases acceptCb_new h hstep hk with hk' | ⟨-, slot, hslot, hsat⟩
      · obtain ⟨w₁, hstep₁, h'⟩ := step_described (e := .accept attempts) (fun _ => trivial)
          (fun _ _ _ _ _ _ => trivial) h
        cases hstep.symm.trans hstep₁
        rw [stageOf, h'.future hk'] at hafter
        cases hafter
      · cases slot with
        | failed =>
          rw [stageOf, hslot] at hafter
          cases hafter
        | pair p =>
          obtain ⟨t, rfl⟩ := hsat
          rw [stageOf_eq hslot] at hafter
          cases hafter
  | fire x ans =>
    by_cases hx : x.addr = k
    · refine ⟨x, ans, rfl, hx, ?_⟩
      by_contra hpair
      rw [← hx] at hpair hbefore hafter
      rw [step_fire_idle h hpair] at hstep
      cases hstep
      exact hbefore hafter
    · rw [stageOf, (step_fire_elsewhere h hx hstep).1] at hafter
      exact absurd hafter hbefore

/-- A piece arrives, and every `send` accepts what it is given. -/
def delivers (call : Call) : Answers S :=
  ⟨.data call.2, .accepted, .accepted, true, call.1, (.zeroed S, [])⟩

def connects : Answers S := ⟨.again, .accepted, .accepted, true, .zeroed, (.zeroed S, [])⟩

/-- Blocks with nothing but zeros in them. -/
def attempt (S : OpenSSL) : Attempt S :=
  ⟨true, true, Vector.replicate _ 0, Vector.replicate _ 0, .zeroed S, .zeroed S⟩

theorem run_fire (w : World S) (p : Pair S) (x : Watcher) (ans : Answers S) (es : List (Event S)) :
    (w.put x.addr (p.cell x.addr)).run (.fire x ans :: es) =
      ((w.setGlobals (p.onFire w.globals w.remotePort x ans).1).put x.addr
        ((p.onFire w.globals w.remotePort x ans).2.cell x.addr)).run es := by
  have hstep := step_fire (put_cells w x.addr (p.cell x.addr)) ans
  rw [run_cons hstep, setGlobals_put, put_put, put_globals, put_remotePort]

variable {g : Globals S} {remotePort : UInt16}

/-- After the connection to the remote has been made and the first piece has arrived. -/
def asked (g : Globals S) (t : Attempt S) (ans : Answers S) (first : Piece) : Pair S :=
  ⟨.handshake true (memcpy t.serverBuf 0 first.bytes)
      ⟨t.remoteBuf, initEncryption g t.recvMem, initEncryption g t.sendMem⟩,
    (Socket.opened.receive first.bytes).send methodSelectResponse (ans.send 2), .opened⟩

/-- The next connection of an event loop. -/
theorem run_asked {t : Attempt S} (hempty : w.cells w.next = .empty) (ht : t.resolved ∧ t.socket)
    {ans : Answers S} {first : Piece} (hrecv : ans.recv = .data first) (es : List (Event S)) :
    w.run (.accept [t] :: .fire (.remoteSend w.next) connects ::
        .fire (.serverRecv w.next) ans :: es) =
      (w.advance.put w.next ((asked w.globals t ans first).cell w.next)).run es := by
  have haccept : w.step (.accept [t]) =
      .ok (w.advance.put w.next ((Pair.fresh w.globals t).cell w.next)) :=
    acceptCb_ok hempty ht []
  rw [run_cons haccept]
  refine (run_fire _ (Pair.fresh w.globals t) (.remoteSend w.next) connects _).trans ?_
  refine (run_fire _ _ (.serverRecv w.next) ans es).trans ?_
  simp only [Pair.onFire, Pair.onRemoteSend, Pair.fresh, connects, if_true, Pair.onServerRecv,
    hrecv, Bool.false_eq_true, if_false]
  rfl

theorem step_served {sbuf : Buffer} {h : Half S} {client upstream : Socket}
    (hp : w.cells k = Pair.cell k ⟨.handshake true sbuf h, client, upstream⟩) {ans : Answers S}
    {piece : Piece} (hrecv : ans.recv = .data piece) {header : Bytes}
    (haddr : addrToSend (memcpy sbuf 0 piece.bytes) = .ok header)
    (hserved : Served w.globals ans h.sendCtx header) :
    ∃ (w' : World S) (p' : Pair S), w.step (.fire (.serverRecv k) ans) = .ok w' ∧
      w'.next = w.next ∧ w'.cells k = p'.cell k ∧ Pair.Enters w.globals ans w.remotePort
        ⟨.handshake true sbuf h, client, upstream⟩ p' sbuf h piece header := by
  refine ⟨_, _, step_fire (x := .serverRecv k) hp ans, rfl, put_cells .., ?_⟩
  simp only [Pair.onFire, Pair.onServerRecv, hrecv, if_true]
  exact Pair.enters_request _ rfl hrecv haddr hserved

/-- A second piece that holds a request which parses, when the header goes out whole and the
reply is not short. -/
theorem run_served {t : Attempt S} (hk : w.next = k) (hempty : w.cells k = .empty)
    (ht : t.resolved ∧ t.socket) (ans ans' : Answers S) {first second : Piece}
    (hfirst : ans.recv = .data first) (hsecond : ans'.recv = .data second) {header : Bytes}
    (haddr : addrToSend (memcpy (memcpy t.serverBuf 0 first.bytes) 0 second.bytes) = .ok header)
    (hserved : Served w.globals ans' (initEncryption w.globals t.sendMem) header) :
    ∃ (w₁ w₂ : World S) (p : Pair S), w.run [.accept [t], .fire (.remoteSend k) connects,
        .fire (.serverRecv k) ans] = .ok w₁ ∧
      w₁.step (.fire (.serverRecv k) ans') = .ok w₂ ∧ w₂.next = k + 1 ∧
      w₁.stageOf k = some .request ∧ w₂.cells k = p.cell k ∧
      Pair.Enters w.globals ans' w.remotePort (asked w.globals t ans first) p
        (memcpy t.serverBuf 0 first.bytes)
        ⟨t.remoteBuf, initEncryption w.globals t.recvMem, initEncryption w.globals t.sendMem⟩
        second header := by
  subst hk
  have hp := put_cells w.advance w.next ((asked w.globals t ans first).cell w.next)
  obtain ⟨w', p', hstep, hnext, hcell, henter⟩ := step_served hp hsecond haddr hserved
  exact ⟨_, w', p', run_asked hempty ht hfirst [], hstep, hnext, stageOf_eq hp, hcell, henter⟩

theorem Completes.client {e : Event S} (h : w.Completes k w' e) :
    (w'.cells k).client.map Socket.accepted =
      some (methodSelectResponse ++ connectReply w.remotePort) := by
  obtain ⟨-, -, -, -, -, -, -, -, -, -, hclient, -⟩ := h
  exact hclient

end World

end Shadowsocks
