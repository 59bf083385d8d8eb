import Shadowsocks.Local.Relay

/-!
The end of a connection. An end of file is taken for the end of both directions: the descriptor
that it was read from is closed at once, and the other one when a watcher of it fires next.
-/
namespace Shadowsocks

open Memory

variable {S : OpenSSL} {w w' : World S} {k : Nat}

/-- What the socket has received and accepted. -/
def Socket.traffic (s : Socket) : Bytes × Bytes := (s.received, s.accepted)

namespace World

/-- What `server_recv_cb` makes in stage 5 out of what it has read. -/
def encrypted (k : Nat) (w : World S) : Event S → Bytes
  | .fire x ans =>
    match (w.cells k).server, (w.cells k).remote, ans.recv with
    | some s, some r, .data piece =>
      if x = .serverRecv k ∧ w.isActive x ∧ s.stage = .relay then
        (encryptBuf ans.ambient w.globals r.sendEncryptionCtx piece.bytes).2.2
      else []
    | _, _, _ => []
  | _ => []

/-- What `remote_recv_cb` makes out of what it has read, while there is a server. -/
def decrypted (k : Nat) (w : World S) : Event S → Bytes
  | .fire x ans =>
    match (w.cells k).server, (w.cells k).remote, ans.recv with
    | some _, some r, .data piece =>
      if x = .remoteRecv k ∧ w.isActive x then
        ((decryptBuf ans.ambient w.globals r.recvEncryptionCtx piece.bytes).getD
          (w.globals, ans.overrun)).2.2
      else []
    | _, _, _ => []
  | _ => []

/-- What is made fits into the buffer that it is copied back to. -/
def Fits (k : Nat) (w : World S) (e : Event S) : Prop :=
  (w.encrypted k e).length ≤ bufferSize ∧ (w.decrypted k e).length ≤ bufferSize

end World

namespace Pair

def encrypted (g : Globals S) (ans : Answers S) (p : Pair S) : Watcher → Bytes
  | .serverRecv _ =>
    match p.phase, ans.recv with
    | .relay _ h false _ _, .data piece => (encryptBuf ans.ambient g h.sendCtx piece.bytes).2.2
    | _, _ => []
  | _ => []

def decrypted (g : Globals S) (ans : Answers S) (p : Pair S) : Watcher → Bytes
  | .remoteRecv _ =>
    match p.phase, ans.recv with
    | .relay _ h _ _ none, .data piece =>
      ((decryptBuf ans.ambient g h.recvCtx piece.bytes).getD (g, ans.overrun)).2.2
    | _, _ => []
  | _ => []

/-- While both ends are there, what was made for each has been accepted or is pending. -/
def Balanced (sent delivered : Bytes) (p : Pair S) : Prop :=
  match p.phase with
  | .connecting .. => False
  | .handshake .. => False
  | .relay sbuf h up rLen down =>
    (p.upstream.accepted ++ (if up then front h.buf rLen else []) = sent ∧
      (up = true → rLen ≤ bufferSize)) ∧
    p.client.accepted ++ down.elim [] (front sbuf) = delivered ∧
      ∀ len, down = some len → len ≤ bufferSize
  | _ => True

variable {g : Globals S} {ans : Answers S} {p : Pair S} {sent delivered : Bytes}

theorem balanced_shut : p.shut.Balanced sent delivered := trivial

theorem balanced_relayUp {sbuf : Buffer} {h : Half S} {rLen : Nat} {down : Option Nat}
    (hp : p.phase = .relay sbuf h false rLen down) (hbal : p.Balanced sent delivered)
    (piece : Piece)
    (hfits : (encryptBuf ans.ambient g h.sendCtx piece.bytes).2.2.length ≤ bufferSize) :
    (relayUp g ans { p with client := p.client.receive piece.bytes } sbuf h rLen down
      piece.bytes).2.Balanced
        (sent ++ (encryptBuf ans.ambient g h.sendCtx piece.bytes).2.2) delivered := by
  obtain ⟨phase, client, upstream⟩ := p
  obtain rfl : phase = .relay sbuf h false rLen down := hp
  obtain ⟨⟨hup, -⟩, hdown⟩ := hbal
  have hin := front_memcpy_zero h.buf (Nat.le_trans piece.fits (by decide) :
    piece.bytes.length ≤ bufferSize)
  rcases hres : encryptBuf ans.ambient g h.sendCtx piece.bytes with ⟨g', ctx, out⟩
  simp only [hres] at hfits
  have hfront := front_memcpy_zero (memcpy h.buf 0 piece.bytes) hfits
  have hsent : upstream.accepted = sent := by simpa using hup
  simp only [relayUp, hin, hres]
  rcases offer_cases (ans.send out.length) (memcpy (memcpy h.buf 0 piece.bytes) 0 out) hfits with
    ⟨-, hoffer⟩ | ⟨hoffer, htaken⟩ | ⟨buf', len', hoffer, hle, -, htaken⟩
  · simp only [hoffer]
    exact balanced_shut
  · rw [hfront] at htaken
    simp only [hoffer]
    refine ⟨⟨?_, by simp⟩, hdown⟩
    simp [Socket.send, hfront, htaken, hsent]
  · rw [hfront] at htaken
    simp only [hoffer]
    refine ⟨⟨?_, fun _ => hle⟩, hdown⟩
    simp [Socket.send, hfront, htaken, hsent]

theorem balanced_relayDown {sbuf : Buffer} {h : Half S} {up : Bool} {rLen : Nat}
    (hp : p.phase = .relay sbuf h up rLen none) (hbal : p.Balanced sent delivered) (piece : Piece)
    (hfits : ((decryptBuf ans.ambient g h.recvCtx piece.bytes).getD
      (g, ans.overrun)).2.2.length ≤ bufferSize) :
    (relayDown g ans { p with upstream := p.upstream.receive piece.bytes } sbuf h up rLen
      piece.bytes).2.Balanced sent (delivered ++
        ((decryptBuf ans.ambient g h.recvCtx piece.bytes).getD (g, ans.overrun)).2.2) := by
  obtain ⟨phase, client, upstream⟩ := p
  obtain rfl : phase = .relay sbuf h up rLen none := hp
  obtain ⟨hup, hdown, -⟩ := hbal
  have hin := front_memcpy_zero sbuf (Nat.le_trans piece.fits (by decide) :
    piece.bytes.length ≤ bufferSize)
  rcases hres : (decryptBuf ans.ambient g h.recvCtx piece.bytes).getD (g, ans.overrun)
    with ⟨g', ctx, out⟩
  simp only [hres] at hfits
  have hfront := front_memcpy_zero (memcpy sbuf 0 piece.bytes) hfits
  have hdelivered : client.accepted = delivered := by simpa using hdown
  simp only [relayDown, hin, hres]
  rcases offer_cases (ans.send out.length) (memcpy (memcpy sbuf 0 piece.bytes) 0 out) hfits with
    ⟨-, hoffer⟩ | ⟨hoffer, htaken⟩ | ⟨buf', len', hoffer, hle, -, htaken⟩
  · simp only [hoffer]
    exact balanced_shut
  · rw [hfront] at htaken
    simp only [hoffer]
    refine ⟨hup, ?_, by simp⟩
    simp [Socket.send, hfront, htaken, hdelivered]
  · rw [hfront] at htaken
    simp only [hoffer]
    refine ⟨hup, ?_, ?_⟩
    · simp [Socket.send, hfront, htaken, hdelivered]
    · rintro len ⟨rfl⟩
      exact hle

theorem balanced_onServerSend (hbal : p.Balanced sent delivered) :
    (p.onServerSend ans).Balanced sent delivered := by
  obtain ⟨phase, client, upstream⟩ := p
  rcases phase with _ | _ | ⟨sbuf, h, up, rLen, _ | len⟩ | _ | _ | _ <;> try exact hbal
  obtain ⟨hup, hdown, hle⟩ := hbal
  have hdown : client.accepted ++ front sbuf len = delivered := hdown
  simp only [onServerSend]
  split_ifs
  · exact balanced_shut
  · rcases offer_cases (ans.send len) sbuf (hle len rfl) with
      ⟨-, hoffer⟩ | ⟨hoffer, htaken⟩ | ⟨buf', len', hoffer, hle', -, htaken⟩
    · simp only [hoffer]
      exact balanced_shut
    · simp only [hoffer]
      refine ⟨hup, ?_, by simp⟩
      simpa [Socket.send, htaken] using hdown
    · simp only [hoffer]
      refine ⟨hup, ?_, ?_⟩
      · simpa [Socket.send, htaken] using hdown
      · rintro len ⟨rfl⟩
        exact hle'

theorem balanced_onRemoteSend (hbal : p.Balanced sent delivered) :
    (p.onRemoteSend ans).Balanced sent delivered := by
  obtain ⟨phase, client, upstream⟩ := p
  rcases phase with _ | _ | ⟨sbuf, h, _ | _, rLen, down⟩ | _ | _ | _ <;> try exact hbal
  · exact absurd hbal id
  · obtain ⟨⟨hup, hle⟩, hdown⟩ := hbal
    have hup : upstream.accepted ++ front h.buf rLen = sent := hup
    simp only [onRemoteSend]
    split_ifs
    · exact balanced_shut
    · rcases offer_cases (ans.send rLen) h.buf (hle rfl) with
        ⟨-, hoffer⟩ | ⟨hoffer, htaken⟩ | ⟨buf', len', hoffer, hle', -, htaken⟩
      · simp only [hoffer]
        exact balanced_shut
      · simp only [hoffer]
        refine ⟨⟨?_, by simp⟩, hdown⟩
        simpa [Socket.send, htaken] using hup
      · simp only [hoffer]
        refine ⟨⟨?_, fun _ => hle'⟩, hdown⟩
        simpa [Socket.send, htaken] using hup

/-- No callback loses what it has made, or what was pending. -/
theorem balanced_onFire (hbal : p.Balanced sent delivered) (remotePort : UInt16) (x : Watcher)
    (hfits : (p.encrypted g ans x).length ≤ bufferSize ∧
      (p.decrypted g ans x).length ≤ bufferSize) :
    (p.onFire g remotePort x ans).2.Balanced (sent ++ p.encrypted g ans x)
      (delivered ++ p.decrypted g ans x) := by
  cases x with
  | serverSend a =>
    simp only [encrypted, decrypted, List.append_nil]
    exact balanced_onServerSend hbal
  | remoteSend a =>
    simp only [encrypted, decrypted, List.append_nil]
    exact balanced_onRemoteSend hbal
  | serverRecv a =>
    obtain ⟨phase, client, upstream⟩ := p
    simp only [encrypted, decrypted, List.append_nil] at hfits ⊢
    rcases phase with _ | _ | ⟨sbuf, h, _ | _, rLen, down⟩ | ⟨sbuf, _ | _⟩ | _ | _ <;>
      try exact absurd hbal id
    · cases hrecv : ans.recv with
      | data piece =>
        simp only [hrecv] at hfits
        simp only [onFire, onServerRecv, hrecv]
        exact balanced_relayUp rfl hbal piece hfits.1
      | again =>
        simp only [onFire, onServerRecv, hrecv, List.append_nil]
        exact hbal
      | eof =>
        simp only [onFire, onServerRecv, hrecv]
        trivial
      | error =>
        simp only [onFire, onServerRecv, hrecv]
        exact balanced_shut
    · simp only [onFire, onServerRecv, List.append_nil]
      exact hbal
    all_goals trivial
  | remoteRecv a =>
    obtain ⟨phase, client, upstream⟩ := p
    simp only [encrypted, decrypted, List.append_nil] at hfits ⊢
    rcases phase with _ | _ | ⟨sbuf, h, up, rLen, _ | len⟩ | _ | ⟨h, _ | _⟩ | _ <;>
      try exact absurd hbal id
    · cases hrecv : ans.recv with
      | data piece =>
        simp only [hrecv] at hfits
        simp only [onFire, onRemoteRecv, hrecv]
        exact balanced_relayDown rfl hbal piece hfits.2
      | again =>
        simp only [onFire, onRemoteRecv, hrecv, List.append_nil]
        exact hbal
      | eof =>
        simp only [onFire, onRemoteRecv, hrecv]
        trivial
      | error =>
        simp only [onFire, onRemoteRecv, hrecv]
        exact balanced_shut
    · simp only [onFire, onRemoteRecv, List.append_nil]
      exact hbal
    all_goals trivial

/-- A served request starts with nothing pending. -/
theorem balanced_of_enters {remotePort : UInt16} {p' : Pair S} {sbuf : Buffer} {h : Half S}
    {piece : Piece} {header : Bytes} (henter : p.Enters g ans remotePort p' sbuf h piece header) :
    p'.Balanced p'.upstream.accepted p'.client.accepted := by
  obtain ⟨phase, client, upstream⟩ := p'
  obtain ⟨sbuf', rfl⟩ : ∃ sbuf', phase = _ := henter.phase
  exact ⟨⟨List.append_nil _, nofun⟩, List.append_nil _, nofun⟩

/-! Once one of the two objects is gone. -/

/-- What the client's socket and the remote's have received and accepted. -/
def traffic (p : Pair S) : (Bytes × Bytes) × Bytes × Bytes :=
  (p.client.traffic, p.upstream.traffic)

def Halved (p : Pair S) : Prop := p.phase.hasServer = false ∨ p.phase.hasRemote = false

theorem halved_onFire (hp : p.Halved) (g : Globals S) (remotePort : UInt16) (x : Watcher)
    (ans : Answers S) : (p.onFire g remotePort x ans).2.Halved ∧
      (p.onFire g remotePort x ans).2.traffic = p.traffic := by
  obtain ⟨phase, client, upstream⟩ := p
  rcases phase with _ | _ | _ | ⟨sbuf, _ | _⟩ | ⟨h, _ | _⟩ | _ <;>
    try rcases hp with hp | hp <;> cases hp
  all_goals cases x <;> first | exact ⟨Or.inl rfl, rfl⟩ | exact ⟨Or.inr rfl, rfl⟩

theorem Accounted.of_cell {p' : Pair S} (hp : p.Accounted) (h : p.cell k = p'.cell k) :
    p'.Accounted := by
  have hclient : p.client = p'.client := Option.some.inj (congrArg Cell.client h)
  have hupstream : p.upstream = p'.upstream := Option.some.inj (congrArg Cell.upstream h)
  have hserver : p.phase.server k = p'.phase.server k := congrArg Cell.server h
  have hremote : p.phase.remote k = p'.phase.remote k := congrArg Cell.remote h
  refine ⟨?_, ?_⟩
  · rw [← hclient, hp.client, ← Phase.isSome_server _ k, hserver, Phase.isSome_server]
  · rw [← hupstream, hp.upstream, ← Phase.isSome_remote _ k, hremote, Phase.isSome_remote]

/-- In an undisturbed relay nothing outgrows the buffers. -/
theorem fits_of_relays (hS : S.Lawful) (hg : g.Configured) {stream : CipherStream S}
    {c₀ u₀ : Socket} (hu₀ : u₀.received = []) (hp : p.Relays g stream c₀ u₀) {x : Watcher}
    (hquiet : p.phase.active x → ans.Quiet (encryptionIvLen g.method) p.upstream.received x) :
    (p.encrypted g ans x).length ≤ bufferSize ∧ (p.decrypted g ans x).length ≤ bufferSize := by
  obtain ⟨sbuf, h, up, rLen, down, got, sent, back, delivered, hphase, hledger, hup, hdown⟩ := hp
  have hnil : ([] : Bytes).length ≤ bufferSize := Nat.zero_le _
  cases hrecv : ans.recv with
  | data piece =>
    cases x with
    | serverRecv a =>
      refine ⟨?_, hnil⟩
      cases up with
      | true => simpa only [encrypted, hphase] using hnil
      | false =>
        obtain ⟨g', ctx, hcall, -⟩ := encryptBuf_represents hS hup.carries ans.ambient piece.fits
        simp only [encrypted, hphase, hrecv, hcall,
          CipherStream.length_push hS hup.carries.usable]
        exact Nat.le_trans piece.fits (by decide)
    | remoteRecv a =>
      refine ⟨hnil, ?_⟩
      cases down with
      | some len => simpa only [decrypted, hphase] using hnil
      | none =>
        have hfirst : back = [] → encryptionIvLen g.method ≤ piece.bytes.length := by
          rintro rfl
          have hact : p.phase.active (.remoteRecv a) = true := by rw [hphase]; rfl
          exact (hquiet hact).2.2.2 (by rw [hledger.back, hu₀]; rfl) piece hrecv
        obtain ⟨g', ctx, out, hcall, -, hfits, -⟩ :=
          decryptBuf_downward hS hg hdown ans.ambient piece hfirst
        simpa only [decrypted, hphase, hrecv, hcall, Option.getD_some] using hfits
    | _ => exact ⟨hnil, hnil⟩
  | _ =>
    cases x <;> cases up <;> cases down <;> simp [encrypted, decrypted, hphase, hrecv]

theorem relay_of_live (hstage : p.phase.stage = some .relay) (hremote : p.phase.hasRemote = true) :
    ∃ sbuf h up rLen down, p.phase = .relay sbuf h up rLen down := by
  obtain ⟨phase, client, upstream⟩ := p
  rcases phase with _ | ⟨_ | _, _, _⟩ | ⟨sbuf, h, up, rLen, down⟩ | _ | _ | _ <;>
    try cases hstage
  · exact ⟨sbuf, h, up, rLen, down, rfl⟩
  · cases hremote

/-- The end of file of one end is the end of its object. The other end's bytes are all through:
its own watcher would not have been started otherwise. -/
theorem onFire_eof {sbuf : Buffer} {h : Half S} {up : Bool} {rLen : Nat} {down : Option Nat}
    (hp : p.phase = .relay sbuf h up rLen down) (hacc : p.Accounted) (remotePort : UInt16)
    {x : Watcher} (hx : x = .serverRecv k ∨ x = .remoteRecv k) (hact : p.phase.active x = true)
    (heof : ans.recv = .eof) :
    ∃ p', (p.onFire g remotePort x ans).2 = p' ∧ p'.Halved ∧ p'.traffic = p.traffic ∧
      (x = .serverRecv k → up = false ∧ p'.client.closed = 1 ∧ p'.upstream.closed = 0) ∧
      (x = .remoteRecv k → down = none ∧ p'.client.closed = 0 ∧ p'.upstream.closed = 1) := by
  obtain ⟨phase, client, upstream⟩ := p
  obtain rfl : phase = .relay sbuf h up rLen down := hp
  obtain ⟨hclient, hupstream⟩ : client.closed = 0 ∧ upstream.closed = 0 := ⟨hacc.1, hacc.2⟩
  rcases hx with rfl | rfl
  · obtain rfl : up = false := by simpa [Phase.active] using hact
    refine ⟨⟨.remoteAlone h down.isNone, client.close, upstream⟩, ?_, Or.inl rfl, rfl, ?_, by simp⟩
    · simp only [onFire, onServerRecv, heof]
    · rintro -
      exact ⟨rfl, congrArg (· + 1) hclient, hupstream⟩
  · obtain rfl : down = none := by simpa [Phase.active] using hact
    refine ⟨⟨.serverAlone sbuf !up, client, upstream.close⟩, ?_, Or.inr rfl, rfl, by simp, ?_⟩
    · simp only [onFire, onRemoteRecv, heof]
    · rintro -
      exact ⟨rfl, hclient, congrArg (· + 1) hupstream⟩

/-- A piece from the remote that finds no room at the client. -/
theorem onRemoteRecv_blocked {sbuf : Buffer} {h : Half S} {up : Bool} {rLen : Nat}
    (hp : p.phase = .relay sbuf h up rLen none) {piece : Piece} (hrecv : ans.recv = .data piece)
    {g' : Globals S} {ctx : EncryptionCtx S} {out : Bytes}
    (hcall : decryptBuf ans.ambient g h.recvCtx piece.bytes = some (g', ctx, out))
    (hfits : out.length ≤ bufferSize) (hsend : ans.send out.length = .again) :
    ∃ sbuf', front sbuf' out.length = out ∧ (p.onRemoteRecv g ans).2 =
      ⟨.relay sbuf' { h with recvCtx := ctx } up rLen (some out.length), p.client,
        p.upstream.receive piece.bytes⟩ := by
  have hin := front_memcpy_zero sbuf (Nat.le_trans piece.fits (by decide) :
    piece.bytes.length ≤ bufferSize)
  refine ⟨_, front_memcpy_zero (memcpy sbuf 0 piece.bytes) hfits, ?_⟩
  simp only [onRemoteRecv, hp, hrecv, relayDown, hin, hcall, Option.getD_some, hsend, offer_again,
    Socket.send, SendResult.taken, List.append_nil]

end Pair

namespace World

theorem encrypted_eq {p : Pair S} (hp : w.cells k = p.cell k) {x : Watcher} (hx : x.addr = k)
    (ans : Answers S) : w.encrypted k (.fire x ans) = p.encrypted w.globals ans x := by
  subst hx
  rw [encrypted, isActive_eq hp, hp]
  obtain ⟨phase, client, upstream⟩ := p
  cases hrecv : ans.recv with
  | data piece =>
    rcases phase with _ | ⟨_ | _, _, _⟩ | ⟨_, _, _ | _, _, _⟩ | _ | _ | _ <;>
      cases x <;> simp [Pair.cell, Pair.encrypted, Phase.active, Watcher.addr, hrecv]
  | _ => cases phase <;> cases x <;> simp [Pair.cell, Pair.encrypted, hrecv]

theorem decrypted_eq {p : Pair S} (hp : w.cells k = p.cell k) {x : Watcher} (hx : x.addr = k)
    (ans : Answers S) : w.decrypted k (.fire x ans) = p.decrypted w.globals ans x := by
  subst hx
  rw [decrypted, isActive_eq hp, hp]
  obtain ⟨phase, client, upstream⟩ := p
  cases hrecv : ans.recv with
  | data piece =>
    rcases phase with _ | ⟨_ | _, _, _⟩ | ⟨_, _, _, _, _ | _⟩ | _ | _ | _ <;>
      cases x <;> simp [Pair.cell, Pair.decrypted, Phase.active, Watcher.addr, hrecv]
  | _ => rcases phase with _ | _ | ⟨_, _, _, _, _ | _⟩ | _ | _ | _ <;>
      cases x <;> simp [Pair.cell, Pair.decrypted, hrecv]

/-- Other connections make nothing for this one. -/
theorem encrypted_elsewhere {e : Event S} (he : Elsewhere k e) : w.encrypted k e = [] := by
  cases e with
  | fire x ans =>
    have hne : x ≠ .serverRecv k := by
      rintro rfl
      exact he rfl
    simp only [encrypted, hne, false_and, if_false]
    split <;> rfl
  | _ => rfl

theorem decrypted_elsewhere {e : Event S} (he : Elsewhere k e) : w.decrypted k e = [] := by
  cases e with
  | fire x ans =>
    have hne : x ≠ .remoteRecv k := by
      rintro rfl
      exact he rfl
    simp only [decrypted, hne, false_and, if_false]
    split <;> rfl
  | _ => rfl

/-- The connection `k` has lost nothing of what was made for its ends. -/
def Balanced (k : Nat) (sent delivered : Bytes) (w : World S) : Prop :=
  ∃ p : Pair S, w.cells k = p.cell k ∧ p.Balanced sent delivered

variable {e : Event S} {sent delivered : Bytes}

theorem accounted_step (h : Described Pair.Accounted w) (e : Event S) :
    ∃ w', w.step e = .ok w' ∧ Described Pair.Accounted w' :=
  step_described (fun _ => Pair.accounted_fresh ..)
    (fun _ _ _ _ _ hp => Pair.accounted_onFire _ _ _ _ _ hp) h

theorem balanced_step (h : Described Pair.Accounted w) (hbal : Balanced k sent delivered w)
    (hfits : Fits k w e) :
    ∃ w', w.step e = .ok w' ∧ Described Pair.Accounted w' ∧
      Balanced k (sent ++ w.encrypted k e) (delivered ++ w.decrypted k e) w' := by
  obtain ⟨w', hstep, h'⟩ := accounted_step h e
  obtain ⟨p, hp, hbal⟩ := hbal
  refine ⟨w', hstep, h', ?_⟩
  rcases step_seen h hp hstep with ⟨x, ans, rfl, hx, hcell, -⟩ | ⟨he, hcell⟩
  · rw [Fits, encrypted_eq hp hx, decrypted_eq hp hx] at hfits
    rw [encrypted_eq hp hx, decrypted_eq hp hx]
    exact ⟨_, hcell, Pair.balanced_onFire hbal w.remotePort x hfits⟩
  · rw [encrypted_elsewhere he, decrypted_elsewhere he, List.append_nil, List.append_nil]
    exact ⟨p, hcell, hbal⟩

theorem balanced_run {es : List (Event S)} (h : Described Pair.Accounted w)
    (hbal : Balanced k sent delivered w) (hes : Along (Fits k) w es) (hrun : w.run es = .ok w') :
    Described Pair.Accounted w' ∧
      Balanced k (sent ++ w.log (encrypted k) es) (delivered ++ w.log (decrypted k) es) w' := by
  induction es generalizing w sent delivered with
  | nil =>
    cases hrun
    simp only [log, List.append_nil]
    exact ⟨h, hbal⟩
  | cons e es ih =>
    obtain ⟨w₁, hstep, h₁, hbal₁⟩ := balanced_step h hbal hes.1
    rw [run_cons hstep] at hrun
    rw [log_cons _ hstep, log_cons _ hstep, ← List.append_assoc, ← List.append_assoc]
    exact ih h₁ hbal₁ (hes.2 w₁ hstep) hrun

/-- One of the two objects of the connection is gone, and its sockets have seen `t`. -/
def Halved (k : Nat) (t : (Bytes × Bytes) × Bytes × Bytes) (w : World S) : Prop :=
  Described Pair.Accounted w ∧
    ∃ p : Pair S, w.cells k = p.cell k ∧ p.Halved ∧ p.traffic = t

theorem halved_step {t : (Bytes × Bytes) × Bytes × Bytes} (h : Halved k t w) (e : Event S) :
    ∃ w', w.step e = .ok w' ∧ Halved k t w' := by
  obtain ⟨h, p, hp, hhalved, htraffic⟩ := h
  obtain ⟨w', hstep, h'⟩ := accounted_step h e
  refine ⟨w', hstep, h', ?_⟩
  rcases step_seen h hp hstep with ⟨x, ans, -, -, hcell, -⟩ | ⟨-, hcell⟩
  · obtain ⟨hhalved', htraffic'⟩ := Pair.halved_onFire hhalved w.globals w.remotePort x ans
    exact ⟨_, hcell, hhalved', htraffic'.trans htraffic⟩
  · exact ⟨p, hcell, hhalved, htraffic⟩

theorem halved_run {t : (Bytes × Bytes) × Bytes × Bytes} (h : Halved k t w)
    (es : List (Event S)) : ∃ w', w.run es = .ok w' ∧ Halved k t w' :=
  run_along (fun h _ => halved_step h _) h
    (along_of_forall (P := fun _ _ => True) (fun _ _ _ => trivial) w)

theorem balanced_of_enters (h : Described Pair.Accounted w) (hstep : w.step e = .ok w')
    (hbefore : w.stageOf k ≠ some .relay) (hafter : w'.stageOf k = some .relay) :
    ∃ c u, (w'.cells k).client = some c ∧ (w'.cells k).upstream = some u ∧
      Balanced k u.accepted c.accepted w' := by
  obtain ⟨x, ans, rfl, hx, p, hp⟩ := fire_of_enters (h.imp fun _ _ => trivial) hstep hbefore hafter
  obtain ⟨w₁, hstep₁, hcell, -, -⟩ := step_fire_at hp hx ans
  cases hstep.symm.trans hstep₁
  rw [stageOf_eq hp] at hbefore
  rw [stageOf_eq hcell] at hafter
  obtain ⟨-, sbuf, half, piece, header, henter⟩ := Pair.enters_of_onFire hbefore hafter
  exact ⟨_, _, by rw [hcell]; rfl, by rw [hcell]; rfl, _, hcell, Pair.balanced_of_enters henter⟩

/-- The other end is drained and the end of file's own end is not: since `w` the two have
accepted all that `es` made for them but for `up` and `down`. -/
def Drained (k : Nat) (w : World S) (es : List (Event S)) (up down : Bytes) (w' : World S) : Prop :=
  ∃ c u c' u', (w.cells k).client = some c ∧ (w.cells k).upstream = some u ∧
    (w'.cells k).client = some c' ∧ (w'.cells k).upstream = some u' ∧
    u'.accepted ++ up = u.accepted ++ w.log (encrypted k) es ∧
    c'.accepted ++ down = c.accepted ++ w.log (decrypted k) es

theorem step_eof (h : Described Pair.Accounted w) (hbal : Balanced k sent delivered w)
    (hstage : w.stageOf k = some .relay) (hremote : (w.cells k).remote.isSome) {x : Watcher}
    (hx : x = .serverRecv k ∨ x = .remoteRecv k) (hact : w.isActive x) {ans : Answers S}
    (heof : ans.recv = .eof) :
    ∃ c u c' u' w', (w.cells k).client = some c ∧ (w.cells k).upstream = some u ∧
      w.step (.fire x ans) = .ok w' ∧ Halved k (c.traffic, u.traffic) w' ∧
      (w'.cells k).client = some c' ∧ (w'.cells k).upstream = some u' ∧
      u.accepted ++ w.pendingUp k = sent ∧ c.accepted ++ w.pendingDown k = delivered ∧
      (x = .serverRecv k → w.pendingUp k = [] ∧ c'.closed = 1 ∧ u'.closed = 0) ∧
      (x = .remoteRecv k → w.pendingDown k = [] ∧ c'.closed = 0 ∧ u'.closed = 1) := by
  obtain ⟨p, hp, hbal⟩ := hbal
  obtain ⟨p₀, hp₀, hacc₀⟩ := h.pair hp
  have hacc : p.Accounted := hacc₀.of_cell (hp₀.symm.trans hp)
  have hxk : x.addr = k := by rcases hx with rfl | rfl <;> rfl
  rw [stageOf_eq hp] at hstage
  rw [hp, Pair.cell, Phase.isSome_remote] at hremote
  obtain ⟨sbuf, half, up, rLen, down, hphase⟩ := Pair.relay_of_live hstage hremote
  rw [isActive_eq (by rw [hxk, hp])] at hact
  obtain ⟨p', hfire, hhalved, htraffic, hclient, hupstream⟩ := Pair.onFire_eof (g := w.globals)
    hphase hacc w.remotePort hx hact heof
  obtain ⟨w', hstep, hcell, -, -⟩ := step_fire_at hp hxk ans
  obtain ⟨w₁, hstep₁, h'⟩ := accounted_step h (.fire x ans)
  cases hstep.symm.trans hstep₁
  rw [hfire] at hcell
  simp only [Pair.Balanced, hphase] at hbal
  rw [pendingUp_eq hp hphase, pendingDown_eq hp hphase]
  refine ⟨p.client, p.upstream, p'.client, p'.upstream, w', by rw [hp]; rfl, by rw [hp]; rfl, hstep,
    ⟨h', p', hcell, hhalved, htraffic⟩, by rw [hcell]; rfl, by rw [hcell]; rfl, hbal.1.1, hbal.2.1,
    ?_, ?_⟩
  · intro hx
    obtain ⟨rfl, hclosed⟩ := hclient hx
    exact ⟨rfl, hclosed⟩
  · intro hx
    obtain ⟨rfl, hclosed⟩ := hupstream hx
    exact ⟨rfl, hclosed⟩

/-- Where nothing disturbs the connection nothing outgrows its buffers. -/
theorem fits_of_undisturbed (hS : S.Lawful) {g : Globals S} (hg : g.Configured)
    {remotePort : UInt16} {es es' : List (Event S)} (hes : ∀ e' ∈ e :: es, ¬ e'.IsConfig)
    (hrun : (start g remotePort).run es = .ok w) (hstep : w.step e = .ok w')
    (hbefore : w.stageOf k ≠ some .relay) (hafter : w'.stageOf k = some .relay)
    (hes' : Along (Undisturbed k) w' es') : Along (Fits k) w' es' := by
  obtain ⟨iv, header, c₀, u₀, hiv, -, -, -, hnone, hsteady, hrelaying⟩ :=
    entered_of_run hS hg hes hrun hstep hbefore hafter
  have hstream := (CipherStream.chunkable_push hS).closed header (usable_start hS hg true hiv)
  refine along_imp ?_ (relaying_step hS hg hstream hnone) ⟨hsteady, hrelaying⟩ hes'
  rintro w e ⟨hsteady, p, hp, hrelays⟩ he
  cases e with
  | fire x ans =>
    by_cases hx : x.addr = k
    · rw [Fits, encrypted_eq hp hx, decrypted_eq hp hx]
      refine Pair.fits_of_relays hS (hg.of_config hsteady.config) hnone hrelays ?_
      intro hact
      exact he hx (by rwa [isActive_eq (hx ▸ hp)]) _ (by rw [hp]; rfl)
    · have helsewhere : Elsewhere k (.fire x ans) := hx
      rw [Fits, encrypted_elsewhere helsewhere, decrypted_elsewhere helsewhere]
      exact ⟨Nat.zero_le _, Nat.zero_le _⟩
  | _ => exact ⟨Nat.zero_le _, Nat.zero_le _⟩

theorem balanced_of_run {g : Globals S} {remotePort : UInt16} {es es' : List (Event S)}
    {w₁ : World S} (hrun : (start g remotePort).run es = .ok w) (hstep : w.step e = .ok w')
    (hbefore : w.stageOf k ≠ some .relay) (hafter : w'.stageOf k = some .relay)
    (hfits : Along (Fits k) w' es') (hrun' : w'.run es' = .ok w₁) :
    ∃ c u, (w'.cells k).client = some c ∧ (w'.cells k).upstream = some u ∧
      Described Pair.Accounted w₁ ∧ Balanced k (u.accepted ++ w'.log (encrypted k) es')
        (c.accepted ++ w'.log (decrypted k) es') w₁ := by
  obtain ⟨w₀, hrun₀, h₀⟩ := run_described (P := Pair.Accounted) (fun _ _ => Pair.accounted_fresh ..)
    (fun _ _ _ _ _ hp => Pair.accounted_onFire _ _ _ _ _ hp) (described_start g remotePort) es
  cases hrun.symm.trans hrun₀
  obtain ⟨w₀', hstep₀, h₀'⟩ := accounted_step h₀ e
  cases hstep.symm.trans hstep₀
  obtain ⟨c, u, hc, hu, hbal⟩ := balanced_of_enters h₀ hstep hbefore hafter
  exact ⟨c, u, hc, hu, balanced_run h₀' hbal hfits hrun'⟩

/-- An end of file in the relay stage loses what waits for its own end, and nothing else: the
other end has then accepted all that was made for it, and neither socket receives or accepts
anything from then on. -/
theorem run_eof {g : Globals S} {remotePort : UInt16} {es es' : List (Event S)} {w₁ : World S}
    (hrun : (start g remotePort).run es = .ok w) (hstep : w.step e = .ok w')
    (hbefore : w.stageOf k ≠ some .relay) (hafter : w'.stageOf k = some .relay)
    (hfits : Along (Fits k) w' es') (hrun' : w'.run es' = .ok w₁)
    (hstage : w₁.stageOf k = some .relay) (hremote : (w₁.cells k).remote.isSome) {x : Watcher}
    (hx : x = .serverRecv k ∨ x = .remoteRecv k) (hact : w₁.isActive x) {ans : Answers S}
    (heof : ans.recv = .eof) (es'' : List (Event S)) :
    ∃ w₂ w₃, w₁.step (.fire x ans) = .ok w₂ ∧ w₂.run es'' = .ok w₃ ∧
      (w₃.cells k).client.map Socket.traffic = (w₁.cells k).client.map Socket.traffic ∧
      (w₃.cells k).upstream.map Socket.traffic = (w₁.cells k).upstream.map Socket.traffic ∧
      (x = .serverRecv k → (w₂.cells k).client.map Socket.closed = some 1 ∧
        (w₂.cells k).upstream.map Socket.closed = some 0 ∧
        Drained k w' es' [] (w₁.pendingDown k) w₃) ∧
      (x = .remoteRecv k → (w₂.cells k).client.map Socket.closed = some 0 ∧
        (w₂.cells k).upstream.map Socket.closed = some 1 ∧
        Drained k w' es' (w₁.pendingUp k) [] w₃) := by
  obtain ⟨c, u, hc, hu, h₁, hbal₁⟩ := balanced_of_run hrun hstep hbefore hafter hfits hrun'
  obtain ⟨c₁, u₁, c₂, u₂, w₂, hc₁, hu₁, hstep₂, hhalved, hc₂, hu₂, hsent, hdelivered, hclient,
    hupstream⟩ := step_eof h₁ hbal₁ hstage hremote hx hact heof
  obtain ⟨w₃, hrun₃, -, p, hp, -, htraffic⟩ := halved_run hhalved es''
  obtain ⟨hpc, hpu⟩ := Prod.mk.inj htraffic
  have hc₃ : (w₃.cells k).client = some p.client := by rw [hp]; rfl
  have hu₃ : (w₃.cells k).upstream = some p.upstream := by rw [hp]; rfl
  have haccepted : p.client.accepted = c₁.accepted := congrArg Prod.snd hpc
  have haccepted' : p.upstream.accepted = u₁.accepted := congrArg Prod.snd hpu
  have hdrained : Drained k w' es' (w₁.pendingUp k) (w₁.pendingDown k) w₃ :=
    ⟨c, u, p.client, p.upstream, hc, hu, hc₃, hu₃, by rw [haccepted', hsent],
      by rw [haccepted, hdelivered]⟩
  refine ⟨w₂, w₃, hstep₂, hrun₃, ?_⟩
  rw [hc₃, hu₃, hc₁, hu₁, hc₂, hu₂]
  refine ⟨congrArg some hpc, congrArg some hpu, ?_, ?_⟩
  · intro hx
    obtain ⟨hnil, hclosed, hopen⟩ := hclient hx
    rw [hnil] at hdrained
    exact ⟨congrArg some hclosed, congrArg some hopen, hdrained⟩
  · intro hx
    obtain ⟨hnil, hopen, hclosed⟩ := hupstream hx
    rw [hnil] at hdrained
    exact ⟨congrArg some hopen, congrArg some hclosed, hdrained⟩

/-! A client that has no room for a byte that has come back. -/

def greeted : List (Event Reference.openssl) :=
  [.accept [attempt _], .fire (.remoteSend 0) connects,
    .fire (.serverRecv 0) (delivers (.zeroed, ⟨[5, 1, 0], by decide, by decide⟩))]

def requested : Event Reference.openssl :=
  .fire (.serverRecv 0)
    (delivers (.zeroed, ⟨[5, 1, 0, 1, 1, 2, 3, 4, 0, 80], by decide, by decide⟩))

def noRoom : Answers Reference.openssl :=
  { delivers (.zeroed, ⟨[7], by decide, by decide⟩) with send := fun _ => .again }

def hangsUp : Answers Reference.openssl := { connects with recv := .eof }

theorem run_noRoom : ∃ w w' w₁ : World Reference.openssl,
    (start (.zeroed _) 0).run greeted = .ok w ∧ w.step requested = .ok w' ∧
      w.stageOf 0 ≠ some .relay ∧ w'.stageOf 0 = some .relay ∧
      w'.run [.fire (.remoteRecv 0) noRoom] = .ok w₁ ∧
      Along (Fits 0) w' [.fire (.remoteRecv 0) noRoom] ∧
      w'.log (decrypted 0) [.fire (.remoteRecv 0) noRoom] = [0] ∧
      w₁.stageOf 0 = some .relay ∧ (w₁.cells 0).remote.isSome ∧ w₁.isActive (.serverRecv 0) ∧
      w₁.pendingDown 0 = [0] ∧ (w₁.cells 0).client.map Socket.accepted =
        some (methodSelectResponse ++ connectReply 0) := by
  obtain ⟨w, w', p', hrun, hstep, -, hbefore, hcell, henter⟩ := run_served
    (w := start (.zeroed Reference.openssl) 0) (k := 0) (t := attempt _) rfl rfl ⟨rfl, rfl⟩
    (delivers (.zeroed, ⟨[5, 1, 0], by decide, by decide⟩))
    (delivers (.zeroed, ⟨[5, 1, 0, 1, 1, 2, 3, 4, 0, 80], by decide, by decide⟩)) rfl rfl
    (addrToSend_request _ (by decide) 5 0) ⟨rfl, by decide⟩
  have hne : w.stageOf 0 ≠ some .relay := by
    rw [hbefore]
    decide
  have hafter : w'.stageOf 0 = some .relay := by
    rw [stageOf_eq hcell, henter.stage]
  have hconf : ∀ e ∈ requested :: greeted, ¬ e.IsConfig := by
    simp [requested, greeted, Event.IsConfig]
  obtain ⟨-, -, -, -, -, -, -, -, -, hsteady, -⟩ := entered_of_run Reference.lawful_openssl
    (g := .zeroed _) rfl hconf hrun hstep hne hafter
  have htable : w'.globals.decryptTable = Vector.replicate _ 0 :=
    congrArg Globals.decryptTable hsteady.config
  obtain ⟨sbuf, hphase⟩ := henter.phase
  have hclient : p'.client.accepted = methodSelectResponse ++ connectReply 0 :=
    congrArg Socket.accepted henter.client
  have hcall : decryptBuf noRoom.ambient w'.globals
      (initEncryption (.zeroed Reference.openssl) (.zeroed _)) [7] =
      some (w'.globals, initEncryption (.zeroed Reference.openssl) (.zeroed _), [0]) := by
    simp [decryptBuf, initEncryption, Globals.zeroed, Table.substitute, Table.lookup, htable]
  obtain ⟨sbuf', hfront, hfire⟩ := Pair.onRemoteRecv_blocked hphase
    (show noRoom.recv = _ from rfl) hcall (by decide) rfl
  obtain ⟨w₁, hstep₁, hcell₁, -, -⟩ := step_fire_at hcell (x := .remoteRecv 0) rfl noRoom
  have hmade : w'.decrypted 0 (.fire (.remoteRecv 0) noRoom) = [0] := by
    rw [decrypted_eq hcell rfl, Pair.decrypted, hphase]
    exact congrArg (fun r => (r.getD (w'.globals, noRoom.overrun)).2.2) hcall
  have hfits : w'.Fits 0 (.fire (.remoteRecv 0) noRoom) := by
    rw [Fits, hmade, encrypted_eq hcell rfl]
    exact ⟨Nat.zero_le _, by decide⟩
  rw [Pair.onFire, hfire] at hcell₁
  refine ⟨w, w', w₁, hrun, hstep, hne, hafter, (run_cons hstep₁ []).trans rfl,
    ⟨hfits, fun _ _ => trivial⟩, ?_, stageOf_eq hcell₁, by rw [hcell₁]; rfl,
    isActive_eq (x := .serverRecv 0) hcell₁, ?_, ?_⟩
  · rw [log_cons _ hstep₁, hmade]
    rfl
  · rw [pendingDown_eq hcell₁ rfl]
    exact hfront
  · rw [hcell₁]
    exact congrArg some hclient

/-- What waits for a client that reports end of file is lost: its descriptor is closed although
the byte that came back has not been accepted. -/
theorem run_eof_discards : ∃ w w' w₁ w₂ : World Reference.openssl,
    (start (.zeroed _) 0).run greeted = .ok w ∧ w.step requested = .ok w' ∧
      w'.stageOf 0 = some .relay ∧ w'.run [.fire (.remoteRecv 0) noRoom] = .ok w₁ ∧
      w₁.stageOf 0 = some .relay ∧ w₁.isActive (.serverRecv 0) ∧
      w₁.step (.fire (.serverRecv 0) hangsUp) = .ok w₂ ∧
      (w₂.cells 0).client.map Socket.closed = some 1 ∧
      w'.log (decrypted 0) [.fire (.remoteRecv 0) noRoom] = [0] ∧
      (w₂.cells 0).client.map Socket.accepted =
        some (methodSelectResponse ++ connectReply 0) := by
  obtain ⟨w, w', w₁, hrun, hstep, hne, hafter, hrun', hfits, hlog, hstage, hremote, hact, -,
    haccepted⟩ := run_noRoom
  obtain ⟨c, u, -, -, h₁, hbal₁⟩ := balanced_of_run hrun hstep hne hafter hfits hrun'
  obtain ⟨c₁, u₁, c₂, u₂, w₂, hc₁, -, hstep₂, ⟨-, p, hp, -, htraffic⟩, hc₂, -, -, -, hclient, -⟩ :=
    step_eof h₁ hbal₁ hstage hremote (Or.inl rfl) hact (show hangsUp.recv = .eof from rfl)
  refine ⟨w, w', w₁, w₂, hrun, hstep, hafter, hrun', hstage, hact, hstep₂, ?_, hlog, ?_⟩
  · rw [hc₂]
    exact congrArg some (hclient rfl).2.1
  · rw [← haccepted, hp, hc₁]
    exact congrArg (fun t => some t.1.2) htraffic

theorem run_eof_noRoom : ∃ w w' w₁ w₂ w₃ : World Reference.openssl,
    (start (.zeroed _) 0).run greeted = .ok w ∧ w.step requested = .ok w' ∧
      w'.run [.fire (.remoteRecv 0) noRoom] = .ok w₁ ∧
      w₁.step (.fire (.serverRecv 0) hangsUp) = .ok w₂ ∧
      w₂.run [.fire (.remoteSend 0) connects] = .ok w₃ ∧
      (w₂.cells 0).client.map Socket.closed = some 1 ∧
      (w₂.cells 0).upstream.map Socket.closed = some 0 ∧
      Drained 0 w' [.fire (.remoteRecv 0) noRoom] [] [0] w₃ := by
  obtain ⟨w, w', w₁, hrun, hstep, hne, hafter, hrun', hfits, hlog, hstage, hremote, hact, hpending,
    -⟩ := run_noRoom
  obtain ⟨w₂, w₃, hstep₂, hrun₃, -, -, hclient, -⟩ :=
    run_eof hrun hstep hne hafter hfits hrun' hstage
    hremote (Or.inl rfl) hact (show hangsUp.recv = .eof from rfl) [.fire (.remoteSend 0) connects]
  obtain ⟨hclosed, hopen, hdrained⟩ := hclient rfl
  rw [hpending] at hdrained
  exact ⟨w, w', w₁, w₂, w₃, hrun, hstep, hrun', hstep₂, hrun₃, hclosed, hopen, hdrained⟩

end World

end Shadowsocks
