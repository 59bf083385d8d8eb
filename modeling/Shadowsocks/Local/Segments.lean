import Shadowsocks.Cipher.RoundTrip
import Shadowsocks.Local.Header

/-!
The handshake and the borders between the pieces of the client's stream. The first piece counts
as the greeting and the second as the request, whatever they hold; what follows is payload.
-/
namespace Shadowsocks

open Memory

variable {S : OpenSSL} {g g₁ : Globals S} {w w' : World S} {k : Nat} {heap : Buffer}

/-- Every `send` accepts all it is given. -/
def Answers.Full (ans : Answers S) : Prop := ∀ n, (ans.send n).ret n = n ∧ (ans.reply n).ret n = n

theorem offer_full {res : SendResult} {len : Nat} (hres : res.ret len = len) (buf : Buffer) :
    offer res buf len = .taken := by
  cases res with
  | accepted n =>
    simp only [SendResult.ret] at hres
    rw [offer_accepted, if_neg (by omega)]
  | again =>
    simp only [SendResult.ret] at hres
    omega
  | error =>
    simp only [SendResult.ret] at hres
    omega

theorem taken_full {res : SendResult} {bytes : Bytes}
    (hres : res.ret bytes.length = bytes.length) : res.taken bytes = bytes := by
  by_cases hbytes : bytes = []
  · subst hbytes
    cases res <;> simp [SendResult.taken]
  · exact (SendResult.taken_eq_iff hbytes).mpr hres

/-- What the remote has been sent is the encryption, in one piece, of the header and of all that
was heard after the handshake. -/
def Carried (g : Globals S) (heap : Buffer) (calls : List Call) (sent : Bytes) : Prop :=
  headerOf heap calls = [] ∧ sent = [] ∨
    ∃ header iv, headerOf heap calls = [header] ∧ iv.length = encryptionIvLen g.method ∧
      sent = iv ++ oneShot g iv (header ++ contents (calls.drop 2))

namespace Pair

variable {ans : Answers S} {p : Pair S} {calls : List Call} {headers : List Bytes}

/-- Nothing is pending in the relay stage, and its stream has come as far as the client's. -/
def Forwards (g g₁ : Globals S) (heap : Buffer) (calls : List Call) (p : Pair S) : Prop :=
  match p.phase with
  | .connecting .. => True
  | .handshake .. => True
  | .relay _ h up _ down => up = false ∧ down = none ∧
      ∃ header iv, headerOf heap calls = [header] ∧ iv.length = encryptionIvLen g.method ∧
        Represents g₁ true h.sendCtx
          ((CipherStream.start g true iv).push (header ++ contents (calls.drop 2))).1 ∧
        p.upstream.accepted = iv ++ oneShot g iv (header ++ contents (calls.drop 2))
  | _ => Carried g heap calls p.upstream.accepted

theorem Forwards.of_config {g₂ : Globals S} (hp : p.Forwards g g₁ heap calls)
    (hg : g₂.config = g₁.config) : p.Forwards g g₂ heap calls := by
  obtain ⟨phase, client, upstream⟩ := p
  cases phase with
  | relay sbuf h up rLen down =>
    obtain ⟨hup, hdown, header, iv, hheader, hiv, hrep, hsent⟩ := hp
    exact ⟨hup, hdown, header, iv, hheader, hiv, hrep.of_config hg, hsent⟩
  | _ => exact hp

theorem forwards_early (hp : p.phase.early = true) : p.Forwards g g₁ heap calls := by
  obtain ⟨phase, client, upstream⟩ := p
  cases phase with
  | connecting sbuf h => trivial
  | handshake asked sbuf h => trivial
  | _ => cases hp

/-- Before the second piece nothing has been sent. -/
theorem carried_early (hready : p.Ready g) (hreads : p.Reads heap calls headers)
    (hearly : p.phase.early = true) : Carried g heap calls p.upstream.accepted := by
  obtain ⟨phase, client, upstream⟩ := p
  rcases phase with _ | ⟨_ | _, _, _⟩ | _ | _ | _ | _ <;> try cases hearly
  · obtain ⟨-, rfl, -⟩ := hreads
    exact Or.inl ⟨rfl, congrArg Socket.accepted hready.2.2⟩
  · obtain ⟨-, rfl, -⟩ := hreads
    exact Or.inl ⟨rfl, congrArg Socket.accepted hready.2.2⟩
  · obtain ⟨call, -, rfl, -⟩ := hreads
    exact Or.inl ⟨rfl, congrArg Socket.accepted hready.2.2⟩

theorem Forwards.carried (hp : p.Forwards g g₁ heap calls) (hready : p.Ready g)
    (hreads : p.Reads heap calls headers) : Carried g heap calls p.upstream.accepted := by
  cases hearly : p.phase.early with
  | true => exact carried_early hready hreads hearly
  | false =>
    obtain ⟨phase, client, upstream⟩ := p
    cases phase with
    | connecting sbuf h => cases hearly
    | handshake asked sbuf h => cases hearly
    | relay sbuf h up rLen down =>
      obtain ⟨-, -, header, iv, hheader, hiv, -, hsent⟩ := hp
      exact Or.inr ⟨header, iv, hheader, hiv, hsent⟩
    | _ => exact hp

/-- The header goes out whole. -/
theorem served_of_full (hS : S.Lawful) (hg : g.Configured) {ctx : EncryptionCtx S}
    (hctx : Fresh g ctx) {header : Bytes} (haddr : IsAddress header) (hfull : ans.Full) :
    Served g ans ctx header := by
  have hbounds := addressLen_bounds haddr
  have hsize : bufSize = 1500 := rfl
  obtain ⟨g', ctx', hcall, -, -⟩ := encryptBuf_fresh hS hg hctx ans.ambient
    (by omega : header.length ≤ bufSize) rfl
  have hiv := length_drawn ans.ambient.rand (encryptionIvLen g.method)
  have hivle := ivLen_le g.method
  have hlen := CipherStream.length_push hS (usable_start hS hg true hiv) header
  simp only [Served, hcall]
  refine ⟨?_, ?_⟩
  · rw [(hfull _).1, List.length_append, hlen, hiv, sizeT]
    omega
  · have hten : (ans.reply 10).ret 10 = 10 := (hfull 10).2
    rw [hten]
    decide

theorem two_le_of_headerOf {header : Bytes} (h : headerOf heap calls = [header]) :
    2 ≤ calls.length := by
  rcases calls with _ | ⟨first, _ | ⟨second, rest⟩⟩
  · cases h
  · cases h
  · exact Nat.le_add_left 2 rest.length

theorem contents_concat (h : 2 ≤ calls.length) (call : Call) :
    contents ((calls ++ [call]).drop 2) = contents (calls.drop 2) ++ call.bytes := by
  rw [List.drop_append_of_le_length h, contents, List.flatMap_append, List.flatMap_singleton,
    contents]

theorem forwards_request (hS : S.Lawful) (hg : g.Configured) (hconf : g₁.config = g.config)
    {sbuf : Buffer} {h : Half S} (hp : p.phase = .handshake true sbuf h) (hready : p.Ready g)
    (hreads : p.Reads heap calls headers) (hfull : ans.Full) (remotePort : UInt16) {piece : Piece}
    (hrecv : ans.recv = .data piece) :
    (request g₁ ans remotePort { p with client := p.client.receive piece.bytes }
      (memcpy sbuf 0 piece.bytes) h).2.Forwards g (request g₁ ans remotePort
        { p with client := p.client.receive piece.bytes } (memcpy sbuf 0 piece.bytes) h).1 heap
        (calls ++ [(ans.ambient, piece)]) := by
  have hready₁ := hready.of_config hconf
  obtain ⟨phase, client, upstream⟩ := p
  obtain rfl : phase = .handshake true sbuf h := hp
  obtain ⟨call, rfl, rfl, -⟩ := hreads
  have hheader : headerOf heap ([call] ++ [(ans.ambient, piece)]) =
      (addrToSend (memcpy (memcpy heap 0 call.bytes) 0 piece.bytes)).toOption.toList := rfl
  cases haddr : addrToSend (memcpy (memcpy heap 0 call.bytes) 0 piece.bytes) with
  | error refusal =>
    have hnil : headerOf heap ([call] ++ [(ans.ambient, piece)]) = [] := by
      rw [hheader, haddr]
      rfl
    cases refusal <;> simp only [request, haddr] <;>
      exact Or.inl ⟨hnil, congrArg Socket.accepted hready.2.2⟩
  | ok header =>
    have hctx : Fresh g₁ h.sendCtx := hready₁.2.1
    have hserved := served_of_full hS (hg.of_config hconf) hctx (addrToSend_ok_iff.mp haddr).2.1
      hfull
    have henter := enters_request remotePort
      (p := ⟨.handshake true (memcpy heap 0 call.bytes) h, client, upstream⟩) rfl hrecv haddr hserved
    obtain ⟨iv, g', hiv, hg', hsent, -, sbuf', h', up, rLen, down, got, sent, back, delivered,
      hphase, hledger, hup, -⟩ := relays_of_enters hS (hg.of_config hconf) hready₁ henter
    obtain rfl : got = [] := List.self_eq_append_right.mp hledger.got
    have hone : headerOf heap ([call] ++ [(ans.ambient, piece)]) = [header] := by
      rw [hheader, haddr]
      rfl
    have hcontents : contents (([call] ++ [(ans.ambient, piece)]).drop 2) = [] := rfl
    have hnew := request_config g₁ ans remotePort
      ⟨.handshake true (memcpy heap 0 call.bytes) h, client.receive piece.bytes, upstream⟩
      (memcpy (memcpy heap 0 call.bytes) 0 piece.bytes) h
    have hcarries := hup.carries.of_config (hnew.trans hg'.symm)
    rw [(CipherStream.chunkable_push hS).push_nil
      ((CipherStream.chunkable_push hS).closed header
        (usable_start hS (hg.of_config hconf) true hiv)),
      CipherStream.start_of_config hconf] at hcarries
    rw [oneShot, CipherStream.start_of_config hconf] at hsent
    rw [Globals.method_of_config hconf] at hiv
    obtain ⟨sbuf'', hphase'⟩ := henter.phase
    obtain ⟨-, rfl, rfl, -, rfl⟩ := Phase.relay.inj (hphase'.symm.trans hphase)
    rw [Forwards, hphase']
    refine ⟨rfl, rfl, header, iv, hone, hiv, ?_, ?_⟩
    · rw [hcontents, List.append_nil]
      exact hcarries
    · rw [hcontents, List.append_nil]
      exact hsent

theorem forwards_relayUp (hS : S.Lawful) (hg : g.Configured) {sbuf : Buffer} {h : Half S}
    {rLen : Nat} (hp : p.phase = .relay sbuf h false rLen none)
    (hfwd : p.Forwards g g₁ heap calls) (hfull : ans.Full) (piece : Piece) :
    (relayUp g₁ ans { p with client := p.client.receive piece.bytes } sbuf h rLen none
      piece.bytes).2.Forwards g (relayUp g₁ ans { p with client := p.client.receive piece.bytes }
        sbuf h rLen none piece.bytes).1 heap (calls ++ [(ans.ambient, piece)]) := by
  obtain ⟨phase, client, upstream⟩ := p
  obtain rfl : phase = .relay sbuf h false rLen none := hp
  obtain ⟨-, -, header, iv, hheader, hiv, hrep, hsent⟩ := hfwd
  have hsent : upstream.accepted = iv ++ oneShot g iv (header ++ contents (calls.drop 2)) := hsent
  have htwo := two_le_of_headerOf hheader
  obtain ⟨g', ctx, hcall, hrep', -⟩ := encryptBuf_represents hS hrep ans.ambient piece.fits
  have hlen := CipherStream.length_push hS hrep.usable piece.bytes
  have happ := (CipherStream.chunkable_push hS).push_append (header ++ contents (calls.drop 2))
    piece.bytes (usable_start hS hg true hiv)
  have hin := front_memcpy_zero h.buf (Nat.le_trans piece.fits (by decide) :
    piece.bytes.length ≤ bufferSize)
  have hcontents := contents_concat htwo (ans.ambient, piece)
  simp only [Call.bytes] at hcontents
  generalize hout : (((CipherStream.start g true iv).push
    (header ++ contents (calls.drop 2))).1.push piece.bytes).2 = out at hcall hlen happ
  have hfits : out.length ≤ bufferSize := by
    rw [hlen]
    exact Nat.le_trans piece.fits (by decide)
  have hfront := front_memcpy_zero (memcpy h.buf 0 piece.bytes) hfits
  have hret := (hfull out.length).1
  simp only [relayUp, hin, hcall, hfront, offer_full hret]
  refine ⟨rfl, rfl, header, iv, (headerOf_append htwo _).trans hheader, hiv, ?_, ?_⟩
  · rw [hcontents, ← List.append_assoc, happ]
    exact hrep'
  · rw [hcontents, ← List.append_assoc, oneShot, happ]
    simp only [Socket.send, taken_full hret, hsent, oneShot, List.append_assoc]

theorem forwards_relayDown {sbuf : Buffer} {h : Half S} {rLen : Nat}
    (hp : p.phase = .relay sbuf h false rLen none) (hfwd : p.Forwards g g₁ heap calls)
    (hfull : ans.Full) (piece : Piece) :
    (relayDown g₁ ans { p with upstream := p.upstream.receive piece.bytes } sbuf h false rLen
      piece.bytes).2.Forwards g (relayDown g₁ ans
        { p with upstream := p.upstream.receive piece.bytes } sbuf h false rLen piece.bytes).1 heap
        calls := by
  obtain ⟨phase, client, upstream⟩ := p
  obtain rfl : phase = .relay sbuf h false rLen none := hp
  obtain ⟨-, -, header, iv, hheader, hiv, hrep, hsent⟩ := hfwd
  have hconf := decryptBuf_config ans.ambient g₁ h.recvCtx
    (front (memcpy sbuf 0 piece.bytes) piece.bytes.length) ans.overrun
  rcases hres : (decryptBuf ans.ambient g₁ h.recvCtx
    (front (memcpy sbuf 0 piece.bytes) piece.bytes.length)).getD (g₁, ans.overrun)
    with ⟨g', ctx, out⟩
  rw [hres] at hconf
  simp only [relayDown, hres, offer_full (hfull out.length).1]
  exact ⟨rfl, rfl, header, iv, hheader, hiv, hrep.of_config hconf, hsent⟩

theorem forwards_onServerRecv (hS : S.Lawful) (hg : g.Configured) (hconf : g₁.config = g.config)
    (hready : p.Ready g) (hreads : p.Reads heap calls headers) (hfwd : p.Forwards g g₁ heap calls)
    (hfull : ans.Full) (remotePort : UInt16) {x : Watcher} (hx : x = .serverRecv k)
    (hact : p.phase.serverRecv = true) :
    (p.onServerRecv g₁ ans remotePort).2.Forwards g (p.onServerRecv g₁ ans remotePort).1 heap
      (calls ++ p.heard ans x) := by
  subst hx
  have hcarried := hfwd.carried hready hreads
  obtain ⟨phase, client, upstream⟩ := p
  rcases phase with _ | ⟨asked, sbuf, h⟩ | ⟨sbuf, h, up, rLen, down⟩ | ⟨sbuf, reading⟩ | _ | _ <;>
    try cases hact
  · cases hrecv : ans.recv with
    | data piece =>
      cases asked with
      | false =>
        simp only [onServerRecv, hrecv]
        exact forwards_early rfl
      | true =>
        have hrequest := forwards_request hS hg hconf rfl hready hreads hfull remotePort hrecv
        simpa only [onServerRecv, heard, hrecv, if_true] using hrequest
    | again =>
      simp only [onServerRecv, heard, hrecv, List.append_nil]
      exact hfwd
    | eof =>
      simp only [onServerRecv, heard, hrecv, List.append_nil]
      exact hcarried
    | error =>
      simp only [onServerRecv, heard, hrecv, List.append_nil]
      exact hcarried
  · obtain rfl : up = false := by simpa using hact
    obtain ⟨-, rfl, -⟩ := id hfwd
    cases hrecv : ans.recv with
    | data piece =>
      have hup := forwards_relayUp hS hg rfl hfwd hfull piece
      simpa only [onServerRecv, heard, hrecv] using hup
    | again =>
      simp only [onServerRecv, heard, hrecv, List.append_nil]
      exact hfwd
    | eof =>
      simp only [onServerRecv, heard, hrecv, List.append_nil]
      exact hcarried
    | error =>
      simp only [onServerRecv, heard, hrecv, List.append_nil]
      exact hcarried
  · simp only [onServerRecv, heard, List.append_nil]
    exact hcarried

theorem forwards_onRemoteRecv (hready : p.Ready g) (hreads : p.Reads heap calls headers)
    (hfwd : p.Forwards g g₁ heap calls) (hfull : ans.Full) (hact : p.phase.remoteRecv = true) :
    (p.onRemoteRecv g₁ ans).2.Forwards g (p.onRemoteRecv g₁ ans).1 heap calls := by
  have hcarried := hfwd.carried hready hreads
  obtain ⟨phase, client, upstream⟩ := p
  rcases phase with _ | _ | ⟨sbuf, h, up, rLen, down⟩ | _ | ⟨h, reading⟩ | _ <;> try cases hact
  · obtain ⟨rfl, rfl, -⟩ := id hfwd
    cases hrecv : ans.recv with
    | data piece =>
      have hdown := forwards_relayDown rfl hfwd hfull piece
      simpa only [onRemoteRecv, hrecv] using hdown
    | again =>
      simp only [onRemoteRecv, hrecv]
      exact hfwd
    | eof =>
      simp only [onRemoteRecv, hrecv]
      exact hcarried
    | error =>
      simp only [onRemoteRecv, hrecv]
      exact hcarried
  · exact hcarried

theorem forwards_onFire (hS : S.Lawful) (hg : g.Configured) (hconf : g₁.config = g.config)
    (hready : p.Ready g) (hreads : p.Reads heap calls headers) (hfwd : p.Forwards g g₁ heap calls)
    (remotePort : UInt16) {x : Watcher} (hsends : p.phase.active x = true → ans.Full) :
    (p.onFire g₁ remotePort x ans).2.Forwards g (p.onFire g₁ remotePort x ans).1 heap
      (calls ++ p.heard ans x) := by
  cases hact : p.phase.active x with
  | false =>
    rw [onFire_inactive _ _ _ _ _ hact, (idle_of_inactive ans hact).1, List.append_nil]
    exact hfwd
  | true =>
    have hfull := hsends hact
    have hcarried := hfwd.carried hready hreads
    cases x with
    | serverRecv a =>
      exact forwards_onServerRecv hS hg hconf hready hreads hfwd hfull remotePort rfl hact
    | remoteRecv a =>
      simp only [heard, List.append_nil]
      exact forwards_onRemoteRecv hready hreads hfwd hfull hact
    | serverSend a =>
      simp only [heard, List.append_nil]
      obtain ⟨phase, client, upstream⟩ := p
      rcases phase with _ | _ | ⟨sbuf, h, up, rLen, down⟩ | _ | _ | _ <;> try cases hact
      · -- nothing is pending for the client
        obtain ⟨-, rfl, -⟩ := hfwd
        cases hact
      · exact hcarried
    | remoteSend a =>
      simp only [heard, List.append_nil]
      obtain ⟨phase, client, upstream⟩ := p
      rcases phase with _ | _ | ⟨sbuf, h, up, rLen, down⟩ | _ | _ | _ <;> try cases hact
      · simp only [onFire, onRemoteSend]
        split_ifs
        · exact forwards_early rfl
        · exact hcarried
      · obtain ⟨hup, -⟩ := hfwd
        cases hup
      · exact hcarried

end Pair

namespace World

/-- All that the connection `k` sends is accepted in full, under one configuration. -/
def Delivers (k : Nat) (w : World S) : Event S → Prop
  | .accept _ => True
  | .fire x ans => x.addr = k → w.isActive x → ans.Full
  | .config .. => False

/-- The connection `k` has forwarded what it has heard. -/
def Forwards (g : Globals S) (k : Nat) (heap : Buffer) (calls : List Call) (w : World S) : Prop :=
  Steady g w ∧ ∃ (p : Pair S) (headers : List Bytes), w.cells k = p.cell k ∧ p.Ready g ∧
    p.Reads heap calls headers ∧ p.Forwards g w.globals heap calls

variable {e : Event S} {calls : List Call}

theorem forwards_step (hS : S.Lawful) (hg : g.Configured) (h : Forwards g k heap calls w)
    (he : w.Delivers k e) :
    ∃ w', w.step e = .ok w' ∧ Forwards g k heap (calls ++ w.heard k e) w' := by
  obtain ⟨hsteady, p, headers, hp, hready, hreads, hfwd⟩ := h
  have hnoconfig : ¬ e.IsConfig := by
    cases e with
    | config password name remotePort => exact absurd he id
    | _ => exact id
  obtain ⟨w', hstep, hsteady'⟩ := steady_step hsteady hnoconfig
  refine ⟨w', hstep, hsteady', ?_⟩
  rcases step_seen hsteady.described hp hstep with ⟨x, ans, rfl, hx, hcell, hglobals⟩ |
    ⟨helsewhere, hcell⟩
  · rw [heard_eq hp hx, hglobals]
    refine ⟨_, _, hcell, Pair.ready_onFire _ _ _ _ hready, Pair.reads_onFire hreads _ x,
      Pair.forwards_onFire hS hg hsteady.config hready hreads hfwd _ ?_⟩
    intro hact
    exact he hx (by rwa [isActive_eq (hx ▸ hp)])
  · rw [heard_elsewhere helsewhere, List.append_nil]
    have hconf := step_config hsteady.described hnoconfig hstep
    exact ⟨p, headers, hcell, hready, hreads, hfwd.of_config hconf⟩

theorem forwards_run (hS : S.Lawful) (hg : g.Configured) (h : Forwards g k heap calls w)
    {es : List (Event S)} (hes : Along (Delivers k) w es) (hrun : w.run es = .ok w') :
    Forwards g k heap (calls ++ w.log (heard k) es) w' := by
  induction es generalizing w calls with
  | nil =>
    cases hrun
    simp only [log, List.append_nil]
    exact h
  | cons e es ih =>
    obtain ⟨w₁, hstep, h₁⟩ := forwards_step hS hg h hes.1
    rw [run_cons hstep] at hrun
    rw [log_cons _ hstep, ← List.append_assoc]
    exact ih h₁ (hes.2 w₁ hstep) hrun

/-- Everything that the remote has been sent, if it has been sent all of it in full. -/
theorem carried_run (hS : S.Lawful) (hg : g.Configured) {remotePort : UInt16}
    {es₀ es : List (Event S)} (hes₀ : ∀ e ∈ es₀, ¬ e.IsConfig)
    (hrun₀ : (start g remotePort).run es₀ = .ok w) {t : Attempt S}
    (hcell : w.cells k = (Pair.fresh w.globals t).cell k) (hes : Along (Delivers k) w es)
    (hrun : w.run es = .ok w') : ∃ u, (w'.cells k).upstream = some u ∧
      Carried g t.serverBuf (w.log (heard k) es) u.accepted := by
  obtain ⟨w₁, hrun₁, hsteady⟩ := steady_run hes₀ (steady_start g remotePort)
  cases hrun₀.symm.trans hrun₁
  have hstart : Forwards g k t.serverBuf [] w :=
    ⟨hsteady, _, [], hcell, (Pair.ready_fresh _ t).of_config hsteady.config.symm,
      Pair.reads_fresh _ t, Pair.forwards_early rfl⟩
  obtain ⟨-, p, headers, hp, hready, hreads, hfwd⟩ := forwards_run hS hg hstart hes hrun
  exact ⟨p.upstream, by rw [hp]; rfl, hfwd.carried hready hreads⟩

/-- What the remote has been sent is `plain`, encrypted under some iv. -/
def Sent (g : Globals S) (k : Nat) (plain : Bytes) (w : World S) : Prop :=
  ∃ u iv, (w.cells k).upstream = some u ∧ iv.length = encryptionIvLen g.method ∧
    u.accepted = iv ++ oneShot g iv plain

end World

/-- A CONNECT request for an IPv4 or a domain address. -/
def IsRequest (request : Bytes) : Prop :=
  ∃ rsv a, request = socksVersion :: socksCmdConnect :: rsv :: a ∧ IsAddress a

/-- The first two pieces end where the request ends, and leave it in the buffer. -/
def Aligned (heap : Buffer) (greeting request : Bytes) : List Call → Prop
  | first :: second :: _ =>
    first.bytes.length + second.bytes.length = greeting.length + request.length ∧
      byteAt (received heap first second) 1 = socksCmdConnect ∧
      slice (received heap first second) 3 (request.length - 3) = request.drop 3
  | _ => False

/-- That is so when each of the two is a piece of its own. -/
theorem aligned_of_pieces {greeting request : Bytes} {first second : Call}
    (hfirst : first.bytes = greeting) (hsecond : second.bytes = request)
    (hrequest : IsRequest request) (heap : Buffer) (rest : List Call) :
    Aligned heap greeting request (first :: second :: rest) := by
  obtain ⟨rsv, a, rfl, ha⟩ := hrequest
  have hparse := addrToSend_request (memcpy heap 0 first.bytes) ha socksVersion rsv
  rw [← hsecond] at hparse
  obtain ⟨hcmd, -, hslice⟩ := addrToSend_ok_iff.mp hparse
  exact ⟨by rw [hfirst, hsecond], hcmd, hslice⟩

theorem oneShot_inj (hS : S.Lawful) {name : String} (hname : Supported S name) (old : Globals S)
    (password : Bytes) {iv : Bytes}
    (hiv : iv.length = encryptionIvLen (encryptionMethodFromString name)) {m m' : Bytes}
    (h : oneShot (configEncryption old password name) iv m =
      oneShot (configEncryption old password name) iv m') : m = m' := by
  have inverse : ∀ x, ((CipherStream.start (configEncryption old password name) false iv).push
      ((CipherStream.start (configEncryption old password name) true iv).push x).2).2 = x :=
    start_inverse hS hname old old hiv
  rw [← inverse m, ← inverse m']
  exact congrArg (fun x => ((CipherStream.start _ false iv).push x).2) h

/-- The plaintext can be told from what has been sent. -/
theorem carried_iff (hS : S.Lawful) {name : String} (hname : Supported S name) (old : Globals S)
    (password : Bytes) {calls : List Call} {sent plain : Bytes} (hplain : plain ≠ [])
    (h : Carried (configEncryption old password name) heap calls sent) :
    (∃ iv, iv.length = encryptionIvLen (configEncryption old password name).method ∧
      sent = iv ++ oneShot (configEncryption old password name) iv plain) ↔
      ∃ header, headerOf heap calls = [header] ∧ header ++ contents (calls.drop 2) = plain := by
  have hg := configured_configEncryption hS hname old password
  rcases h with ⟨hnone, rfl⟩ | ⟨header, iv, hheader, hiv, rfl⟩
  · constructor
    · rintro ⟨iv, hiv, hsent⟩
      obtain ⟨-, hnil⟩ := List.append_eq_nil_iff.mp hsent.symm
      have hlen := CipherStream.length_push hS (usable_start hS hg true hiv) plain
      rw [← oneShot, hnil] at hlen
      exact absurd (List.eq_nil_of_length_eq_zero hlen.symm) hplain
    · rintro ⟨header, hheader, -⟩
      rw [hnone] at hheader
      cases hheader
  · constructor
    · rintro ⟨iv', hiv', hsent⟩
      obtain ⟨rfl, hsame⟩ := List.append_inj hsent (hiv.trans hiv'.symm)
      rw [configEncryption_method] at hiv
      exact ⟨header, hheader, oneShot_inj hS hname old password hiv hsame⟩
    · rintro ⟨header', hheader', rfl⟩
      rw [hheader, List.singleton_inj] at hheader'
      subst hheader'
      exact ⟨iv, hiv, rfl⟩

/-- The header and what follows it are the address and the payload exactly if the pieces end
where the request does and leave the address in the buffer. -/
theorem aligned_iff {greeting request payload : Bytes} (hrequest : IsRequest request)
    {calls : List Call} (hcontents : contents calls = greeting ++ request ++ payload) :
    (∃ header, headerOf heap calls = [header] ∧
      header ++ contents (calls.drop 2) = request.drop 3 ++ payload) ↔
      Aligned heap greeting request calls := by
  obtain ⟨rsv, a, rfl, ha⟩ := hrequest
  rcases calls with _ | ⟨first, _ | ⟨second, rest⟩⟩
  · exact iff_of_false nofun id
  · exact iff_of_false nofun id
  · have hsplit : first.bytes ++ second.bytes ++ contents rest =
        greeting ++ (socksVersion :: socksCmdConnect :: rsv :: a) ++ payload := by
      rw [← hcontents, contents, contents, List.flatMap_cons, List.flatMap_cons, List.append_assoc]
    have hheader : ∀ header, headerOf heap (first :: second :: rest) = [header] ↔
        addrToSend (received heap first second) = .ok header := by
      intro header
      rw [toOption_eq_some, headerOf]
      cases addrToSend (received heap first second) <;> simp [Except.toOption]
    have hrest : contents rest = payload ↔ first.bytes.length + second.bytes.length =
        greeting.length + (socksVersion :: socksCmdConnect :: rsv :: a).length := by
      rw [← List.length_append, ← List.length_append]
      constructor
      · rintro rfl
        rw [List.append_cancel_right hsplit]
      · intro hlen
        exact (List.append_inj hsplit hlen).2
    constructor
    · rintro ⟨header, hone, hplain⟩
      have hsent := addrToSend_ok_iff.mp ((hheader header).mp hone)
      obtain ⟨rfl, hpayload⟩ := hsent.2.1.prefix_free ha hplain
      exact ⟨hrest.mp hpayload, hsent.1, hsent.2.2⟩
    · rintro ⟨hlen, hcmd, hslice⟩
      refine ⟨a, (hheader a).mpr (addrToSend_ok_iff.mpr ⟨hcmd, ha, hslice⟩), ?_⟩
      exact congrArg (a ++ ·) (hrest.mpr hlen)

namespace World

variable {name : String} {old : Globals S} {password : Bytes}

/-- With all sends accepted in full, the remote has been sent the address and the payload that
has arrived so far exactly if the first two pieces are aligned with the request. -/
theorem sent_iff_aligned (hS : S.Lawful) (hname : Supported S name) {remotePort : UInt16}
    {es₀ es : List (Event S)} (hes₀ : ∀ e ∈ es₀, ¬ e.IsConfig)
    (hrun₀ : (start (configEncryption old password name) remotePort).run es₀ = .ok w)
    {t : Attempt S} (hcell : w.cells k = (Pair.fresh w.globals t).cell k)
    (hes : Along (Delivers k) w es) (hrun : w.run es = .ok w') {greeting request payload : Bytes}
    (hrequest : IsRequest request)
    (hcontents : contents (w.log (heard k) es) = greeting ++ request ++ payload) :
    Sent (configEncryption old password name) k (request.drop 3 ++ payload) w' ↔
      Aligned t.serverBuf greeting request (w.log (heard k) es) := by
  obtain ⟨u, hu, hcarried⟩ := carried_run hS (configured_configEncryption hS hname old password)
    hes₀ hrun₀ hcell hes hrun
  have hplain : request.drop 3 ++ payload ≠ [] := by
    obtain ⟨rsv, a, rfl, ha⟩ := hrequest
    have hlen := ha.two_le
    intro hnil
    obtain ⟨rfl, -⟩ := List.append_eq_nil_iff.mp hnil
    cases hlen
  rw [← aligned_iff hrequest hcontents, ← carried_iff hS hname old password hplain hcarried]
  constructor
  · rintro ⟨u', iv, hu', hiv, hsent⟩
    cases hu.symm.trans hu'
    exact ⟨iv, hiv, hsent⟩
  · rintro ⟨iv, hiv, hsent⟩
    exact ⟨u, iv, hu, hiv, hsent⟩

theorem delivers_arrivals (first second : Call) (w : World S) :
    Along (Delivers 0) w (arrivals first second) := by
  apply along_of_forall
  intro e he w
  have hfull : ∀ (n : Nat), (SendResult.accepted n).ret n = n := by
    intro n
    rw [SendResult.ret, Nat.min_self]
  simp only [arrivals, List.mem_cons, List.not_mem_nil, or_false] at he
  rcases he with rfl | rfl | rfl <;> exact fun _ _ n => ⟨hfull n, hfull n⟩

/-- The state after two pieces, with what they have made of them. -/
theorem run_arrivals (hS : S.Lawful) (hg : g.Configured) (remotePort : UInt16) (heap : Buffer) :
    ∃ w, (start g remotePort).run [accepting S heap] = .ok w ∧
      (∃ t : Attempt S, w.cells 0 = (Pair.fresh w.globals t).cell 0 ∧ t.serverBuf = heap) ∧
      ∀ first second, w.log (heard 0) (arrivals first second) = [first, second] ∧
        ∃ w' u, w.run (arrivals first second) = .ok w' ∧ (w'.cells 0).upstream = some u ∧
          Carried g heap [first, second] u.accepted := by
  obtain ⟨w, hrun, ⟨-, t, hcell, rfl⟩, hheard⟩ := exists_heard g remotePort heap
  have hconf : ∀ e ∈ [accepting S t.serverBuf], ¬ e.IsConfig := by
    simp [accepting, Event.IsConfig]
  refine ⟨w, hrun, ⟨t, hcell, rfl⟩, ?_⟩
  intro first second
  obtain ⟨w₁, hrun₁, hsteady⟩ := steady_run hconf (steady_start g remotePort)
  cases hrun.symm.trans hrun₁
  have hquiet : ∀ e ∈ arrivals (S := S) first second, ¬ e.IsConfig := by
    simp [arrivals, Event.IsConfig]
  obtain ⟨w', hrun', -⟩ := steady_run hquiet hsteady
  obtain ⟨u, hu, hcarried⟩ := carried_run hS hg hconf hrun hcell (delivers_arrivals first second w)
    hrun'
  rw [hheard] at hcarried
  exact ⟨hheard first second, w', u, hrun', hu, hcarried⟩

theorem sent_iff_aligned_salsa20 :
    let g := configEncryption (.zeroed Reference.openssl) [] "salsa20"
    let first : Call := (.zeroed, ⟨[5, 1, 0], by decide, by decide⟩)
    let second : Call := (.zeroed, ⟨[5, 1, 0, 1, 1, 2, 3, 4, 0, 80], by decide, by decide⟩)
    ∃ w w' : World Reference.openssl, (start g 0).run [accepting _ cleared] = .ok w ∧
      w.run (arrivals first second) = .ok w' ∧
      (Sent g 0 ([1, 1, 2, 3, 4, 0, 80] ++ []) w' ↔
        Aligned cleared first.bytes second.bytes (w.log (heard 0) (arrivals first second))) := by
  intro g first second
  have hname : Supported Reference.openssl "salsa20" := Or.inr (by decide)
  have hg : g.Configured := configured_configEncryption Reference.lawful_openssl hname _ _
  obtain ⟨w, hrun, ⟨t, hcell, ht⟩, hpieces⟩ := run_arrivals Reference.lawful_openssl hg 0 cleared
  obtain ⟨hheard, w', u, hrun', -⟩ := hpieces first second
  have hrequest : IsRequest second.bytes := ⟨0, [1, 1, 2, 3, 4, 0, 80], rfl, by decide⟩
  refine ⟨w, w', hrun, hrun', ?_⟩
  rw [← ht]
  exact sent_iff_aligned Reference.lawful_openssl hname (by simp [accepting, Event.IsConfig]) hrun
    hcell (delivers_arrivals first second w) hrun' hrequest (by rw [hheard]; rfl)

/-- Payload that comes with the request is lost. -/
theorem sent_coalesced :
    let g := configEncryption (.zeroed Reference.openssl) [] "salsa20"
    let first : Call := (.zeroed, ⟨[5, 1, 0], by decide, by decide⟩)
    let second : Call := (.zeroed, ⟨[5, 1, 0, 1, 1, 2, 3, 4, 0, 80, 7], by decide, by decide⟩)
    ∃ w w' : World Reference.openssl, (start g 0).run [accepting _ cleared] = .ok w ∧
      w.run (arrivals first second) = .ok w' ∧
      contents (w.log (heard 0) (arrivals first second)) =
        [5, 1, 0] ++ [5, 1, 0, 1, 1, 2, 3, 4, 0, 80] ++ [7] ∧
      Sent g 0 [1, 1, 2, 3, 4, 0, 80] w' ∧ ¬ Sent g 0 ([1, 1, 2, 3, 4, 0, 80] ++ [7]) w' := by
  intro g first second
  have hname : Supported Reference.openssl "salsa20" := Or.inr (by decide)
  have hg : g.Configured := configured_configEncryption Reference.lawful_openssl hname _ _
  obtain ⟨w, hrun, -, hpieces⟩ := run_arrivals Reference.lawful_openssl hg 0 cleared
  obtain ⟨hheard, w', u, hrun', hu, hcarried⟩ := hpieces first second
  have hheader : headerOf cleared [first, second] = [[1, 1, 2, 3, 4, 0, 80]] := by
    have hsent : addrToSend (received cleared first second) = .ok [1, 1, 2, 3, 4, 0, 80] := by
      rw [addrToSend_ok_iff, slice_eq_map _ (by decide)]
      simp only [byteAt_received_cleared]
      decide
    rw [headerOf, hsent]
    rfl
  have hiff := fun plain (hplain : plain ≠ []) => carried_iff Reference.lawful_openssl hname
    (.zeroed Reference.openssl) [] hplain hcarried
  refine ⟨w, w', hrun, hrun', by rw [hheard]; rfl, ?_, ?_⟩
  · obtain ⟨iv, hiv, hsent⟩ := (hiff [1, 1, 2, 3, 4, 0, 80] (by decide)).mpr
      ⟨_, hheader, by decide⟩
    exact ⟨u, iv, hu, hiv, hsent⟩
  · rintro ⟨u', iv, hu', hiv, hsent⟩
    cases hu.symm.trans hu'
    obtain ⟨header, hone, hplain⟩ := (hiff _ (by decide)).mp ⟨iv, hiv, hsent⟩
    rw [hheader, List.singleton_inj] at hone
    subst hone
    cases hplain

end World

end Shadowsocks
