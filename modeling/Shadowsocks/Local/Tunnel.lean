import Shadowsocks.Local.Segments

/-!
The connection and the two ends of the tunnel it is part of. What the remote socket has accepted
is read by a server with the same password and method, and what the server writes comes back
through the remote socket.
-/
namespace Shadowsocks

open Memory

variable {S : OpenSSL} {g g₁ : Globals S} {w w' : World S} {k : Nat} {name : String}

/-- What a stream emits for the start of its input is the start of what it emits for all of it. -/
theorem CipherStream.push_take (hS : S.Lawful) {stream : CipherStream S} (hstream : stream.Usable)
    (m : Bytes) (n : Nat) : (stream.push (m.take n)).2 = (stream.push m).2.take n := by
  have hlen := length_push hS hstream
  rcases Nat.le_total n m.length with hn | hn
  · have happ := (chunkable_push hS).push_append (m.take n) (m.drop n) hstream
    rw [List.take_append_drop] at happ
    rw [happ, List.take_left' ((hlen _).trans (List.length_take_of_le hn))]
  · rw [List.take_of_length_le hn, List.take_of_length_le ((hlen m).symm ▸ hn)]

theorem oneShot_append (hS : S.Lawful) {iv : Bytes} (hstart : (CipherStream.start g true iv).Usable)
    (a b : Bytes) : oneShot g iv (a ++ b) =
      oneShot g iv a ++ (((CipherStream.start g true iv).push a).1.push b).2 := by
  rw [oneShot, (CipherStream.chunkable_push hS).push_append a b hstart, oneShot]

theorem length_oneShot (hS : S.Lawful) {iv : Bytes} (hstart : (CipherStream.start g true iv).Usable)
    (m : Bytes) : (oneShot g iv m).length = m.length :=
  CipherStream.length_push hS hstart m

namespace Pair

/-- What the remote has accepted after the header is the encryption of what the client has sent,
short of what is pending. -/
theorem Upward.oneShot_take (hS : S.Lawful) {iv header got sent : Bytes} {h : Half S} {up : Bool}
    {rLen : Nat} (hstart : (CipherStream.start g true iv).Usable)
    (hup : Upward g₁ ((CipherStream.start g true iv).push header).1 got sent h up rLen) :
    let pending := if up then front h.buf rLen else []
    pending.length ≤ got.length ∧ oneShot g iv header ++ sent =
      oneShot g iv (header ++ got.take (got.length - pending.length)) := by
  intro pending
  have hstream := (CipherStream.chunkable_push hS).closed header hstart
  have hconserved : sent ++ pending = _ := hup.conserved
  have hlen := congrArg List.length hconserved
  rw [List.length_append, CipherStream.length_push hS hstream] at hlen
  refine ⟨by omega, ?_⟩
  have hsent : sent.length = got.length - pending.length := by omega
  rw [oneShot_append hS hstart, CipherStream.push_take hS hstream, ← hconserved,
    List.take_left' hsent]

/-- What the client has been given, with what is pending, is the part of the server's plaintext
that has come back. -/
theorem Downward.eq_take (hS : S.Lawful) (hname : Supported S name) (old old' : Globals S)
    {password : Bytes} {mem' : EncryptionCtx S} {back delivered : Bytes} {sbuf : Buffer}
    {h : Half S} {down : Option Nat} (hdown : Downward g back delivered sbuf h down)
    (hg : g = configEncryption old password name) {calls : List Call} {s : Session S} {sent : Bytes}
    (hsent : encryptAll (openSession old' password name mem') calls = some (s, sent))
    (hback : back <+: sent) :
    delivered ++ down.elim [] (front sbuf) =
      (contents calls).take (back.length - encryptionIvLen g.method) := by
  rw [hdown.conserved]
  subst hg
  have hg := configured_configEncryption hS hname old password
  have hg' := configured_configEncryption hS hname old' password
  rcases hdown.carries with ⟨rfl, -⟩ | ⟨iv, m, rfl, hiv, -⟩
  · simp [decryption]
  · rw [decryption_append hS hg hiv, List.length_append, hiv, Nat.add_sub_cancel_left]
    cases calls with
    | nil =>
      cases hsent
      obtain ⟨rfl, rfl⟩ := List.append_eq_nil_iff.mp (List.prefix_nil.mp hback)
      rw [(CipherStream.chunkable_push hS).push_nil (usable_start hS hg false hiv)]
      rfl
    | cons call calls =>
      obtain ⟨s', hsend, hlen, -⟩ := encryptAll_eq_oneShot hS hname old' password mem'
        (List.cons_ne_nil call calls)
      rw [hsend, Option.some.injEq, Prod.mk.injEq] at hsent
      obtain ⟨-, rfl⟩ := hsent
      generalize drawnIv (configEncryption old' password name) (call :: calls) = iv' at hback hlen
      rw [configEncryption_method] at hiv
      -- the piece that has come back starts with the iv the server has drawn
      obtain ⟨rest, hrest⟩ := hback
      rw [List.append_assoc] at hrest
      obtain ⟨rfl, hm⟩ := List.append_inj hrest (hiv.trans hlen.symm)
      have htake : m = oneShot (configEncryption old' password name) iv
          ((contents (call :: calls)).take m.length) := by
        rw [oneShot, CipherStream.push_take hS
          (usable_start hS hg' true (hiv.trans (by rw [configEncryption_method]))), ← oneShot, ← hm,
          List.take_left]
      conv_lhs => rw [htake, oneShot]
      exact start_inverse hS hname old' old hiv _

end Pair

namespace World

/-- The connection as a part of the tunnel: the server behind it reads the address and then the
client's bytes, and the client reads the server's, short of what waits in the buffers. -/
def Tunnels (server : Session S) (k : Nat) (header : Bytes) (w w' : World S) : Prop :=
  ∃ c c' u' got delivered,
    (w.cells k).client = some c ∧ (w'.cells k).client = some c' ∧
    (w'.cells k).upstream = some u' ∧
    c'.received = c.received ++ got ∧ c'.accepted = c.accepted ++ delivered ∧
    (w'.pendingUp k).length ≤ got.length ∧
    (∀ calls, contents calls = u'.accepted →
      (∀ call ∈ calls.head?, encryptionIvLen server.1.method ≤ call.bytes.length) →
      (decryptAll server calls).map Prod.snd =
        some (header ++ got.take (got.length - (w'.pendingUp k).length))) ∧
    ∀ calls s sent, encryptAll server calls = some (s, sent) → u'.received <+: sent →
      delivered ++ w'.pendingDown k =
        (contents calls).take (u'.received.length - encryptionIvLen server.1.method)

/-- The request that the event brings asks for the address. -/
def Requests (w : World S) (k : Nat) (e : Event S) (header : Bytes) : Prop :=
  ∃ ans piece s, e = .fire (.serverRecv k) ans ∧ ans.recv = .data piece ∧
    (w.cells k).server = some s ∧ addrToSend (memcpy s.buf 0 piece.bytes) = .ok header

variable {e : Event S}

/-- The state that a served request leaves, with the address that it asked for, when the connection
has used neither context before. -/
theorem relaying_of_served (hS : S.Lawful) (hg : g.Configured)
    (hconfig : w.globals.config = g.config) (h : Described (fun _ : Pair S => True) w)
    (hready : (∃ p : Pair S, w.cells k = p.cell k) → ∃ p : Pair S, w.cells k = p.cell k ∧ p.Ready g)
    (hstep : w.step e = .ok w') (hbefore : w.stageOf k ≠ some .relay)
    (hafter : w'.stageOf k = some .relay) :
    ∃ iv header c₀ u₀, w.Requests k e header ∧ header ≠ [] ∧
      iv.length = encryptionIvLen g.method ∧
      (w'.cells k).client = some c₀ ∧ (w'.cells k).upstream = some u₀ ∧
      u₀.accepted = iv ++ oneShot g iv header ∧ u₀.received = [] ∧
      Relaying k ((CipherStream.start g true iv).push header).1 c₀ u₀ w' := by
  obtain ⟨x, ans, rfl, hx, hpair⟩ := fire_of_enters h hstep hbefore hafter
  obtain ⟨p, hp, hready⟩ := hready hpair
  obtain ⟨w₁, hstep₁, hcell, hglobals, -⟩ := step_fire_at hp hx ans
  cases hstep.symm.trans hstep₁
  rw [stageOf_eq hp] at hbefore
  rw [stageOf_eq hcell] at hafter
  obtain ⟨hwatcher, sbuf, half, piece, header, henter⟩ := Pair.enters_of_onFire hbefore hafter
  obtain ⟨iv, g', hiv, hg', hsent, hnone, hrelays⟩ := Pair.relays_of_enters hS
    (hg.of_config hconfig) (hready.of_config hconfig) henter
  have hconf : w'.globals.config = g'.config := by
    rw [hglobals, Pair.onFire_config, hg']
  have hserver : (w.cells k).server = some ⟨.client k, sbuf, .request, 0, some k⟩ := by
    rw [hp]
    simp [Pair.cell, henter.asked]
  have hne : header ≠ [] := by
    have htwo := (addrToSend_ok_iff.mp henter.parsed).2.1.two_le
    intro hnil
    rw [hnil] at htwo
    exact absurd htwo (by decide)
  refine ⟨iv, header, _, _, ⟨ans, piece, _, by rw [hwatcher, hx], henter.received, hserver,
    henter.parsed⟩, hne, hiv.trans (by rw [Globals.method_of_config hconfig]), by rw [hcell]; rfl,
    by rw [hcell]; rfl, ?_, hnone, _, hcell, ?_⟩
  · rw [hsent, oneShot, oneShot, CipherStream.start_of_config hconfig]
  · rw [← CipherStream.start_of_config hconfig]
    exact hrelays.of_config hconf

theorem relaying_of_request (hS : S.Lawful) (hg : g.Configured) (h : Steady g w)
    (hstep : w.step e = .ok w') (hbefore : w.stageOf k ≠ some .relay)
    (hafter : w'.stageOf k = some .relay) :
    ∃ iv header c₀ u₀, w.Requests k e header ∧ header ≠ [] ∧
      iv.length = encryptionIvLen g.method ∧
      (w'.cells k).client = some c₀ ∧ (w'.cells k).upstream = some u₀ ∧
      u₀.accepted = iv ++ oneShot g iv header ∧ u₀.received = [] ∧
      Relaying k ((CipherStream.start g true iv).push header).1 c₀ u₀ w' := by
  refine relaying_of_served hS hg h.config (h.described.imp fun _ _ => trivial) ?_ hstep hbefore
    hafter
  rintro ⟨p₀, hp₀⟩
  obtain ⟨p, hp, hready, -⟩ := h.described.pair hp₀
  exact ⟨p, hp, hready⟩

/-- A server that reads what has been accepted, in pieces of which the first holds the iv. -/
theorem decryptAll_accepted (hS : S.Lawful) (hname : Supported S name) (old old' : Globals S)
    {password : Bytes} (mem' : EncryptionCtx S) {iv plain : Bytes}
    (hiv : iv.length = encryptionIvLen (encryptionMethodFromString name)) (hplain : plain ≠ [])
    {calls : List Call}
    (hcalls : contents calls = iv ++ oneShot (configEncryption old password name) iv plain)
    (hlong : ∀ call ∈ calls.head?,
      encryptionIvLen (encryptionMethodFromString name) ≤ call.bytes.length) :
    (decryptAll (openSession old' password name mem') calls).map Prod.snd = some plain := by
  have hstart := usable_start hS (configured_configEncryption hS hname old password) true
    (hiv.trans (by rw [configEncryption_method]))
  cases calls with
  | nil =>
    have hlen := congrArg List.length hcalls
    have hpos := List.length_pos_of_ne_nil hplain
    rw [List.length_append, length_oneShot hS hstart] at hlen
    simp only [contents, List.flatMap_nil, List.length_nil] at hlen
    omega
  | cons first rest =>
    have hfirst := hlong first rfl
    exact decryptAll_of_long hS hname old old' mem' hiv (hiv ▸ hfirst) hcalls

theorem tunnels_of_relaying (hS : S.Lawful) (hname : Supported S name) (old old' : Globals S)
    {password : Bytes} (mem' : EncryptionCtx S)
    (hg : g.config = (configEncryption old password name).config) {iv header : Bytes}
    (hiv : iv.length = encryptionIvLen g.method) (hheader : header ≠ []) {c₀ u₀ : Socket}
    {w₀ : World S} (hc₀ : (w₀.cells k).client = some c₀)
    (hsent : u₀.accepted = iv ++ oneShot g iv header) (hnone : u₀.received = [])
    (hconf : w.globals.config = g.config)
    (h : Relaying k ((CipherStream.start g true iv).push header).1 c₀ u₀ w) :
    Tunnels (openSession old' password name mem') k header w₀ w := by
  obtain ⟨p, hp, sbuf, half, up, rLen, down, got, sent, back, delivered, hphase, hledger, hup,
    hdown⟩ := h
  have hmethod : g.method = encryptionMethodFromString name :=
    (Globals.method_of_config hg).trans (configEncryption_method ..)
  have hserver : (openSession old' password name mem').1.method =
      encryptionMethodFromString name := configEncryption_method ..
  have hback : p.upstream.received = back := by
    rw [hledger.back, hnone, List.nil_append]
  have hstartOf : ∀ m, oneShot g iv m = oneShot (configEncryption old password name) iv m := by
    intro m
    rw [oneShot, oneShot, CipherStream.start_of_config hg]
  have hstart : (CipherStream.start g true iv).Usable :=
    usable_start hS ((configured_configEncryption hS hname old password).of_config hg) true hiv
  obtain ⟨hshort, haccepted⟩ := hup.oneShot_take hS hstart
  rw [← pendingUp_eq hp hphase] at hshort haccepted
  refine ⟨c₀, p.client, p.upstream, got, delivered, hc₀, by rw [hp]; rfl, by rw [hp]; rfl,
    hledger.got, hledger.delivered, hshort, ?_, ?_⟩
  · intro calls hcalls hlong
    rw [hledger.sent, hsent, List.append_assoc, haccepted, hstartOf] at hcalls
    rw [hserver] at hlong
    exact decryptAll_accepted hS hname old old' mem' (hiv.trans (congrArg _ hmethod))
      (List.append_ne_nil_of_left_ne_nil hheader _) hcalls hlong
  · intro calls s sent' hcalls hprefix
    rw [hback] at hprefix ⊢
    rw [pendingDown_eq hp hphase, hserver]
    have hdown' := hdown.of_config (hg.symm.trans hconf.symm)
    have := hdown'.eq_take hS hname old old' rfl hcalls hprefix
    rwa [configEncryption_method] at this

/-- Whatever the order of the callbacks, however the system calls and the network cut the data
and whatever the two machines' memory held before: from the event that serves the request on, a
server with the same password and method reads the address the client asked for and then what the
client has sent, and the client gets what the server has written. -/
theorem run_tunnels (hS : S.Lawful) (hname : Supported S name) (old old' : Globals S)
    (password : Bytes) (mem' : EncryptionCtx S) {remotePort : UInt16} {es es' : List (Event S)}
    (hes : ∀ e' ∈ e :: es, ¬ e'.IsConfig)
    (hrun : (start (configEncryption old password name) remotePort).run es = .ok w)
    (hstep : w.step e = .ok w') (hbefore : w.stageOf k ≠ some .relay)
    (hafter : w'.stageOf k = some .relay) (hes' : Along (Undisturbed k) w' es') :
    ∃ w'' header, w'.run es' = .ok w'' ∧ w.Requests k e header ∧
      Tunnels (openSession old' password name mem') k header w' w'' := by
  have hg := configured_configEncryption hS hname old password
  obtain ⟨w₁, hrun₁, hsteady⟩ := steady_run (fun e' he' => hes e' (List.mem_cons_of_mem e he'))
    (steady_start (configEncryption old password name) remotePort)
  cases hrun.symm.trans hrun₁
  obtain ⟨w₂, hstep₂, hsteady'⟩ := steady_step hsteady (hes e (List.mem_cons_self ..))
  cases hstep.symm.trans hstep₂
  obtain ⟨iv, header, c₀, u₀, hreq, hheader, hiv, hc₀, hu₀, hsent, hnone, hrelaying⟩ :=
    relaying_of_request hS hg hsteady hstep hbefore hafter
  have hstream := (CipherStream.chunkable_push hS).closed header (usable_start hS hg true hiv)
  obtain ⟨w'', hrun', hsteady'', hrelaying''⟩ := run_along
    (relaying_step hS hg hstream hnone) ⟨hsteady', hrelaying⟩ hes'
  exact ⟨w'', header, hrun', hreq, tunnels_of_relaying hS hname old old' mem' rfl hiv hheader hc₀
    hsent hnone hsteady''.config hrelaying''⟩

/-! A connection that its client opens for `1.2.3.4:80`. -/

theorem nonempty_greeting : ([5, 1, 0] : Bytes) ≠ [] := List.cons_ne_nil _ _

theorem fits_greeting : ([5, 1, 0] : Bytes).length ≤ bufSize := by decide

def greeting : Call := (.zeroed, ⟨[5, 1, 0], nonempty_greeting, fits_greeting⟩)

theorem nonempty_request : ([5, 1, 0, 1, 1, 2, 3, 4, 0, 80] : Bytes) ≠ [] := List.cons_ne_nil _ _

theorem fits_request : ([5, 1, 0, 1, 1, 2, 3, 4, 0, 80] : Bytes).length ≤ bufSize := by decide

def connectRequest : Call :=
  (.zeroed, ⟨[5, 1, 0, 1, 1, 2, 3, 4, 0, 80], nonempty_request, fits_request⟩)

def opening (S : OpenSSL) (k : Nat) : List (Event S) :=
  [.accept [attempt S], .fire (.remoteSend k) connects, .fire (.serverRecv k) (delivers greeting)]

def asking (S : OpenSSL) (k : Nat) : Event S := .fire (.serverRecv k) (delivers connectRequest)

theorem not_isConfig_opening (k : Nat) : ∀ e ∈ asking S k :: opening S k, ¬ e.IsConfig := by
  simp [asking, opening, Event.IsConfig]

theorem full_delivers (call : Call) : (delivers call : Answers S).Full := by
  intro n
  simp [delivers, SendResult.ret]

/-- Whatever the event loop has done before, the connection that it accepts next gets through. -/
theorem run_opening (hS : S.Lawful) (hg : w.globals.Configured) (hk : w.next = k)
    (hempty : w.cells k = .empty) :
    ∃ w₁ w₂ : World S, w.run (opening S k) = .ok w₁ ∧ w₁.step (asking S k) = .ok w₂ ∧
      w₂.next = k + 1 ∧ w₁.stageOf k ≠ some .relay ∧ w₂.stageOf k = some .relay := by
  have haddr := addrToSend_request (memcpy (attempt S).serverBuf 0 greeting.2.bytes)
    (a := [1, 1, 2, 3, 4, 0, 80]) (by decide) 5 0
  obtain ⟨w₁, w₂, p, hrun, hstep, hnext, hbefore, hcell, henter⟩ := run_served hk hempty
    (t := attempt S) ⟨rfl, rfl⟩ (delivers greeting) (delivers connectRequest) rfl rfl haddr
    (Pair.served_of_full hS hg (fresh_initEncryption ..) (by decide) (full_delivers _))
  refine ⟨w₁, w₂, hrun, hstep, hnext, ?_, ?_⟩
  · rw [hbefore]
    decide
  · rw [stageOf_eq hcell, henter.stage]

/-- Only one byte at a time is taken of what is made of the piece. -/
def trickles (piece : Piece) : Answers S :=
  { delivers (.zeroed, piece) with send := fun _ => .accepted 1 }

/-- The longest iv has sixteen bytes. -/
theorem undisturbed_trickles {piece : Piece} {x : Watcher} (w : World S)
    (h : 16 ≤ piece.bytes.length ∨ x = .serverRecv x.addr) :
    w.Undisturbed k (.fire x (trickles piece)) := by
  rintro - - u -
  have hcalm : (trickles piece : Answers S).Calm := ⟨by simp [trickles], 1, rfl⟩
  cases x with
  | serverRecv a => exact ⟨hcalm, by simp [trickles, delivers], by simp [trickles, delivers]⟩
  | serverSend a => exact hcalm
  | remoteRecv a =>
    have hlong : 16 ≤ piece.bytes.length := by simpa using h
    refine ⟨hcalm, by simp [trickles, delivers], by simp [trickles, delivers], ?_⟩
    rintro - _ ⟨rfl⟩
    exact Nat.le_trans (ivLen_le _) hlong
  | remoteSend a => exact hcalm

theorem undisturbed_connects (w : World S) (x : Watcher) :
    w.Undisturbed k (.fire x connects) := by
  rintro - - u -
  have hcalm : (connects : Answers S).Calm := ⟨by simp [connects], 0, rfl⟩
  cases x with
  | serverRecv a => exact ⟨hcalm, by simp [connects], by simp [connects]⟩
  | serverSend a => exact hcalm
  | remoteRecv a => exact ⟨hcalm, by simp [connects], by simp [connects], by simp [connects]⟩
  | remoteSend a => exact hcalm

theorem run_tunnels_salsa20 :
    let old : Globals Reference.openssl := .zeroed _
    let es' : List (Event Reference.openssl) :=
      [.fire (.serverRecv 0) (trickles ⟨[7, 8], by decide, by decide⟩),
        .fire (.remoteSend 0) connects,
        .fire (.remoteRecv 0) (trickles ⟨List.replicate 18 9, by decide, by decide⟩)]
    ∃ w w' w'' header, (start (configEncryption old [0x6b] "salsa20") 0).run (opening _ 0) = .ok w ∧
      w.step (asking _ 0) = .ok w' ∧ w'.run es' = .ok w'' ∧ w.Requests 0 (asking _ 0) header ∧
      Tunnels (openSession old [0x6b] "salsa20" (.zeroed _)) 0 header w' w'' := by
  intro old es'
  have hname : Supported Reference.openssl "salsa20" := by decide
  obtain ⟨w, w', hrun, hstep, -, hbefore, hafter⟩ := run_opening Reference.lawful_openssl
    (w := start (configEncryption old [0x6b] "salsa20") 0) (k := 0)
    (configured_configEncryption Reference.lawful_openssl hname old [0x6b]) rfl rfl
  have hquiet : Along (Undisturbed 0) w' es' := by
    apply along_of_forall
    intro e he w
    simp only [es', List.mem_cons, List.not_mem_nil, or_false] at he
    rcases he with rfl | rfl | rfl
    · exact undisturbed_trickles w (Or.inr rfl)
    · exact undisturbed_connects w _
    · exact undisturbed_trickles w (Or.inl (by decide))
  obtain ⟨w'', header, hrun', hreq, htunnels⟩ := run_tunnels Reference.lawful_openssl hname old old
    [0x6b] (.zeroed _) (not_isConfig_opening 0) hrun hstep hbefore hafter hquiet
  exact ⟨w, w', w'', header, hrun, hstep, hrun', hreq, htunnels⟩

end World

end Shadowsocks
