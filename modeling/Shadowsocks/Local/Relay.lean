import Shadowsocks.Local.Resources

/-!
The relay stage. Between two events the bytes that have been taken from one end, transformed and
not yet accepted by the other are at the front of a buffer exactly while the watcher for that
end's output is started.
-/
namespace Shadowsocks

open Memory

variable {S : OpenSSL} {g g' : Globals S} {w w' : World S} {k : Nat}

theorem CipherStream.start_of_config (h : g'.config = g.config) (enc : Bool) (iv : Bytes) :
    start g' enc iv = start g enc iv :=
  calc start g' enc iv = start g'.config enc iv := rfl
    _ = start g.config enc iv := by rw [h]
    _ = start g enc iv := rfl

theorem Globals.method_of_config (h : g'.config = g.config) : g'.method = g.method :=
  (congrArg Globals.method h : g'.config.method = g.config.method)

theorem Globals.Configured.of_config (hg : g.Configured) (h : g'.config = g.config) :
    g'.Configured := by
  have hconf : g.config.Configured := hg
  rw [← h] at hconf
  exact hconf

theorem Fresh.of_config {c : EncryptionCtx S} (hf : Fresh g c) (h : g'.config = g.config) :
    Fresh g' c := by
  have hcipher : g'.config.cipher = g.config.cipher := congrArg Globals.cipher h
  exact ⟨hf.1, hf.2.trans hcipher.symm⟩

/-- What the bytes that have come back from the remote decrypt to: the iv is in front. -/
def decryption (g : Globals S) (back : Bytes) : Bytes :=
  if back = [] then []
  else
    ((CipherStream.start g false (back.take (encryptionIvLen g.method))).push
      (back.drop (encryptionIvLen g.method))).2

theorem decryption_of_config (h : g'.config = g.config) (back : Bytes) :
    decryption g' back = decryption g back := by
  simp only [decryption, CipherStream.start_of_config h, Globals.method_of_config h]

theorem decryption_append (hS : S.Lawful) (hg : g.Configured) {iv : Bytes}
    (hiv : iv.length = encryptionIvLen g.method) (m : Bytes) :
    decryption g (iv ++ m) = ((CipherStream.start g false iv).push m).2 := by
  rw [decryption, List.take_left' hiv, List.drop_left' hiv]
  split
  · next hnil =>
    obtain ⟨rfl, rfl⟩ := List.append_eq_nil_iff.mp hnil
    rw [(CipherStream.chunkable_push hS).push_nil (usable_start hS hg false hiv)]
  · rfl

/-- The results of a callback without an error, in which a `send` of nothing succeeds. -/
structure Answers.Calm (ans : Answers S) : Prop where
  send_ne_error : ∀ n, ans.send n ≠ .error
  send_zero : ∃ n, ans.send 0 = .accepted n

/-- No end of file and no error either; the first bytes from the remote hold the iv. -/
def Answers.Quiet (ans : Answers S) (ivLen : Nat) (back : Bytes) : Watcher → Prop
  | .serverRecv _ => ans.Calm ∧ ans.recv ≠ .eof ∧ ans.recv ≠ .error
  | .remoteRecv _ => ans.Calm ∧ ans.recv ≠ .eof ∧ ans.recv ≠ .error ∧
      (back = [] → ∀ piece, ans.recv = .data piece → ivLen ≤ piece.bytes.length)
  | _ => ans.Calm

/-- Unless `send` fails, nothing of what is offered is lost. -/
theorem offer_cases (res : SendResult) (buf : Buffer) {len : Nat} (hlen : len ≤ bufferSize) :
    res = .error ∧ offer res buf len = .failed ∨
    offer res buf len = .taken ∧ res.taken (front buf len) = front buf len ∨
    ∃ buf' len', offer res buf len = .pending buf' len' ∧ len' ≤ bufferSize ∧
      (0 < len' ∨ res = .again ∧ len' = len) ∧
      res.taken (front buf len) ++ front buf' len' = front buf len := by
  cases res with
  | error => exact Or.inl ⟨rfl, rfl⟩
  | again => exact Or.inr (Or.inr ⟨buf, len, rfl, hlen, Or.inr ⟨rfl, rfl⟩, rfl⟩)
  | accepted n =>
    rw [offer_accepted]
    by_cases hn : n < len
    · rw [if_pos hn]
      refine Or.inr (Or.inr ⟨_, _, rfl, by omega, Or.inl (by omega), ?_⟩)
      rw [SendResult.taken, front_moveDown buf (Nat.le_of_lt hn) hlen, List.take_append_drop]
    · rw [if_neg hn]
      refine Or.inr (Or.inl ⟨rfl, List.take_of_length_le ?_⟩)
      rw [length_front buf hlen]
      omega

theorem offer_calm {ans : Answers S} (hcalm : ans.Calm) (buf : Buffer) {len : Nat}
    (hlen : len ≤ bufferSize) :
    (offer (ans.send len) buf len = .taken ∧
      (ans.send len).taken (front buf len) = front buf len) ∨
    ∃ buf' len', offer (ans.send len) buf len = .pending buf' len' ∧ 0 < len' ∧
      len' ≤ bufferSize ∧
      (ans.send len).taken (front buf len) ++ front buf' len' = front buf len := by
  rcases offer_cases (ans.send len) buf hlen with ⟨herr, -⟩ | htaken |
    ⟨buf', len', hoffer, hle, hpos, htaken⟩
  · exact absurd herr (hcalm.send_ne_error len)
  · exact Or.inl htaken
  · refine Or.inr ⟨buf', len', hoffer, ?_, hle, htaken⟩
    rcases hpos with hpos | ⟨hagain, rfl⟩
    · exact hpos
    · -- a `send` of nothing does not block
      refine Nat.pos_of_ne_zero ?_
      rintro rfl
      obtain ⟨n, hn⟩ := hcalm.send_zero
      cases hagain.symm.trans hn

namespace Pair

/-- The way from the client to the remote, since the stream that it continues was `stream`. -/
structure Upward (g : Globals S) (stream : CipherStream S) (got sent : Bytes) (h : Half S)
    (up : Bool) (rLen : Nat) : Prop where
  carries : Represents g true h.sendCtx (stream.push got).1
  conserved : sent ++ (if up then front h.buf rLen else []) = (stream.push got).2
  pending : up = true → 0 < rLen ∧ rLen ≤ bufferSize

/-- The way back, from the first byte on. -/
structure Downward (g : Globals S) (back delivered : Bytes) (sbuf : Buffer) (h : Half S)
    (down : Option Nat) : Prop where
  carries : back = [] ∧ Fresh g h.recvCtx ∨ ∃ iv m, back = iv ++ m ∧
    iv.length = encryptionIvLen g.method ∧
      Represents g false h.recvCtx ((CipherStream.start g false iv).push m).1
  conserved : delivered ++ down.elim [] (front sbuf) = decryption g back
  pending : ∀ len, down = some len → 0 < len ∧ len ≤ bufferSize

theorem Upward.of_config {stream : CipherStream S} {got sent : Bytes} {h : Half S} {up : Bool}
    {rLen : Nat} (hup : Upward g stream got sent h up rLen) (hg : g'.config = g.config) :
    Upward g' stream got sent h up rLen :=
  ⟨hup.carries.of_config hg, hup.conserved, hup.pending⟩

theorem Downward.of_config {back delivered : Bytes} {sbuf : Buffer} {h : Half S}
    {down : Option Nat} (hdown : Downward g back delivered sbuf h down)
    (hg : g'.config = g.config) : Downward g' back delivered sbuf h down where
  carries := by
    rcases hdown.carries with ⟨hnil, hf⟩ | ⟨iv, m, hback, hiv, hrep⟩
    · exact Or.inl ⟨hnil, hf.of_config hg⟩
    · refine Or.inr ⟨iv, m, hback, hiv.trans ?_, ?_⟩
      · rw [Globals.method_of_config hg]
      · rw [CipherStream.start_of_config hg]
        exact hrep.of_config hg
  conserved := by rw [decryption_of_config hg, hdown.conserved]
  pending := hdown.pending

/-- Neither way looks at the other's context. -/
theorem Downward.of_half {back delivered : Bytes} {sbuf : Buffer} {h h' : Half S}
    {down : Option Nat} (hdown : Downward g back delivered sbuf h down)
    (hh : h'.recvCtx = h.recvCtx) : Downward g back delivered sbuf h' down :=
  ⟨by rw [hh]; exact hdown.carries, hdown.conserved, hdown.pending⟩

theorem Upward.of_half {stream : CipherStream S} {got sent : Bytes} {h h' : Half S} {up : Bool}
    {rLen : Nat} (hup : Upward g stream got sent h up rLen) (hctx : h'.sendCtx = h.sendCtx)
    (hbuf : h'.buf = h.buf) : Upward g stream got sent h' up rLen :=
  ⟨by rw [hctx]; exact hup.carries, by rw [hbuf]; exact hup.conserved, hup.pending⟩

/-- What the two sockets have seen since they were `c₀` and `u₀`. -/
structure Ledger (c₀ u₀ : Socket) (p : Pair S) (got sent back delivered : Bytes) : Prop where
  got : p.client.received = c₀.received ++ got
  sent : p.upstream.accepted = u₀.accepted ++ sent
  back : p.upstream.received = u₀.received ++ back
  delivered : p.client.accepted = c₀.accepted ++ delivered

/-- A connection in the relay stage, with nothing lost since the sockets were `c₀` and `u₀`. -/
def Relays (g : Globals S) (stream : CipherStream S) (c₀ u₀ : Socket) (p : Pair S) : Prop :=
  ∃ sbuf h up rLen down got sent back delivered, p.phase = .relay sbuf h up rLen down ∧
    p.Ledger c₀ u₀ got sent back delivered ∧ Upward g stream got sent h up rLen ∧
    Downward g back delivered sbuf h down

theorem Relays.of_config {stream : CipherStream S} {c₀ u₀ : Socket} {p : Pair S}
    (hp : p.Relays g stream c₀ u₀) (hg : g'.config = g.config) : p.Relays g' stream c₀ u₀ := by
  obtain ⟨sbuf, h, up, rLen, down, got, sent, back, delivered, hphase, hledger, hup, hdown⟩ := hp
  exact ⟨sbuf, h, up, rLen, down, got, sent, back, delivered, hphase, hledger, hup.of_config hg,
    hdown.of_config hg⟩

variable {stream : CipherStream S} {c₀ u₀ : Socket} {p : Pair S} {ans : Answers S}

/-- A piece from the client. -/
theorem relays_relayUp (hS : S.Lawful) (hstream : stream.Usable) {sbuf : Buffer} {h : Half S}
    {rLen : Nat} {down : Option Nat} {got sent back delivered : Bytes}
    (hledger : p.Ledger c₀ u₀ got sent back delivered)
    (hup : Upward g stream got sent h false rLen) (hdown : Downward g back delivered sbuf h down)
    (hcalm : ans.Calm) (piece : Piece) :
    (relayUp g ans { p with client := p.client.receive piece.bytes } sbuf h rLen down
      piece.bytes).2.Relays (relayUp g ans { p with client := p.client.receive piece.bytes }
        sbuf h rLen down piece.bytes).1 stream c₀ u₀ := by
  have hpush := CipherStream.chunkable_push hS
  obtain ⟨g', ctx, hcall, hrep, hconf⟩ :=
    encryptBuf_represents hS hup.carries ans.ambient piece.fits
  have hlen := CipherStream.length_push hS hup.carries.usable piece.bytes
  have happ := hpush.push_append got piece.bytes hstream
  generalize hout : (((stream.push got).1).push piece.bytes).2 = out at hcall hlen happ
  have hfits : out.length ≤ bufferSize := by
    rw [hlen]
    exact Nat.le_trans piece.fits (by decide)
  have hfront := front_memcpy_zero (memcpy h.buf 0 piece.bytes) hfits
  have hsent : sent = (stream.push got).2 := by
    have := hup.conserved
    simpa using this
  have hin := front_memcpy_zero h.buf (Nat.le_trans piece.fits (by decide) :
    piece.bytes.length ≤ bufferSize)
  simp only [relayUp, hin, hcall]
  rcases offer_calm hcalm (memcpy (memcpy h.buf 0 piece.bytes) 0 out) hfits with
    ⟨hoffer, htaken⟩ | ⟨buf', len', hoffer, hpos, hle, htaken⟩
  · rw [hfront] at htaken
    simp only [hoffer]
    refine ⟨sbuf, _, false, rLen, down, got ++ piece.bytes, sent ++ out, back, delivered, rfl,
      ⟨?_, ?_, hledger.back, hledger.delivered⟩, ⟨?_, ?_, by simp⟩, ?_⟩
    · simp [Socket.receive, hledger.got]
    · simp [Socket.send, hfront, htaken, hledger.sent]
    · rwa [happ]
    · simp [happ, hsent]
    · exact (hdown.of_config hconf).of_half rfl
  · rw [hfront] at htaken
    simp only [hoffer]
    refine ⟨sbuf, _, true, len', down, got ++ piece.bytes,
      sent ++ (ans.send out.length).taken out, back, delivered, rfl,
      ⟨?_, ?_, hledger.back, hledger.delivered⟩, ⟨?_, ?_, fun _ => ⟨hpos, hle⟩⟩, ?_⟩
    · simp [Socket.receive, hledger.got]
    · simp [Socket.send, hfront, hledger.sent]
    · rwa [happ]
    · simp [happ, hsent, htaken]
    · exact (hdown.of_config hconf).of_half rfl

/-- One `decrypt_buf` call on the way back. -/
theorem decryptBuf_downward (hS : S.Lawful) (hg : g.Configured) {sbuf : Buffer} {h : Half S}
    {down : Option Nat} {back delivered : Bytes}
    (hdown : Downward g back delivered sbuf h down) (amb : Ambient) (piece : Piece)
    (hfirst : back = [] → encryptionIvLen g.method ≤ piece.bytes.length) :
    ∃ g' ctx out, decryptBuf amb g h.recvCtx piece.bytes = some (g', ctx, out) ∧
      g'.config = g.config ∧ out.length ≤ bufferSize ∧
      piece.bytes.length ≤ out.length + encryptionIvLen g.method ∧
      decryption g (back ++ piece.bytes) = decryption g back ++ out ∧
      ∃ iv m, back ++ piece.bytes = iv ++ m ∧ iv.length = encryptionIvLen g.method ∧
        Represents g' false ctx ((CipherStream.start g false iv).push m).1 := by
  have hpiece : piece.bytes.length ≤ bufferSize := Nat.le_trans piece.fits (by decide)
  rcases hdown.carries with ⟨rfl, hf⟩ | ⟨iv, m, rfl, hiv, hrep⟩
  · obtain ⟨iv, m, hbytes, hiv⟩ : ∃ iv m, piece.bytes = iv ++ m ∧
        iv.length = encryptionIvLen g.method :=
      ⟨_, _, (List.take_append_drop _ _).symm, List.length_take_of_le (hfirst rfl)⟩
    obtain ⟨g', ctx, hcall, hrep, hconf⟩ := decryptBuf_fresh hS hg hf amb hiv
      (hbytes ▸ piece.fits)
    have hlen := CipherStream.length_push hS (usable_start hS hg false hiv) m
    have hsum : piece.bytes.length = encryptionIvLen g.method + m.length := by
      rw [hbytes, List.length_append, hiv]
    rw [← hbytes] at hcall
    refine ⟨g', ctx, _, hcall, hconf, by omega, by omega, ?_, iv, m, hbytes, hiv, hrep⟩
    rw [List.nil_append, hbytes, decryption_append hS hg hiv]
    simp [decryption]
  · obtain ⟨g', ctx, hcall, hrep', hconf⟩ := decryptBuf_represents hS hrep amb piece.fits
    have hlen := CipherStream.length_push hS hrep.usable piece.bytes
    have happ := (CipherStream.chunkable_push hS).push_append m piece.bytes
      (usable_start hS hg false hiv)
    refine ⟨g', ctx, _, hcall, hconf, by omega, by omega, ?_, iv, m ++ piece.bytes, List.append_assoc .., hiv,
      by rwa [happ]⟩
    rw [List.append_assoc, decryption_append hS hg hiv, decryption_append hS hg hiv, happ]

/-- A piece from the remote. -/
theorem relays_relayDown (hS : S.Lawful) (hg : g.Configured) {sbuf : Buffer} {h : Half S}
    {up : Bool} {rLen : Nat} {got sent back delivered : Bytes}
    (hledger : p.Ledger c₀ u₀ got sent back delivered)
    (hup : Upward g stream got sent h up rLen) (hdown : Downward g back delivered sbuf h none)
    (hcalm : ans.Calm) (piece : Piece)
    (hfirst : back = [] → encryptionIvLen g.method ≤ piece.bytes.length) :
    (relayDown g ans { p with upstream := p.upstream.receive piece.bytes } sbuf h up rLen
      piece.bytes).2.Relays (relayDown g ans { p with upstream := p.upstream.receive piece.bytes }
        sbuf h up rLen piece.bytes).1 stream c₀ u₀ := by
  obtain ⟨g', ctx, out, hcall, hconf, hfits, -, hdec, hrep⟩ :=
    decryptBuf_downward hS hg hdown ans.ambient piece hfirst
  have hin := front_memcpy_zero sbuf (Nat.le_trans piece.fits (by decide) :
    piece.bytes.length ≤ bufferSize)
  have hfront := front_memcpy_zero (memcpy sbuf 0 piece.bytes) hfits
  have hdelivered : delivered = decryption g back := by
    simpa using hdown.conserved
  have hcarries : back ++ piece.bytes = [] ∧ Fresh g' ctx ∨ ∃ iv m, back ++ piece.bytes = iv ++ m ∧
      iv.length = encryptionIvLen g'.method ∧
        Represents g' false ctx ((CipherStream.start g' false iv).push m).1 := by
    simpa only [Globals.method_of_config hconf, CipherStream.start_of_config hconf]
      using Or.inr hrep
  rw [← decryption_of_config hconf] at hdec
  simp only [relayDown, hin, hcall, Option.getD_some]
  rcases offer_calm hcalm (memcpy (memcpy sbuf 0 piece.bytes) 0 out) hfits with
    ⟨hoffer, htaken⟩ | ⟨buf', len', hoffer, hpos, hle, htaken⟩
  · rw [hfront] at htaken
    simp only [hoffer]
    refine ⟨_, _, up, rLen, none, got, sent, back ++ piece.bytes, delivered ++ out, rfl,
      ⟨hledger.got, hledger.sent, ?_, ?_⟩, (hup.of_config hconf).of_half rfl rfl,
      ⟨hcarries, ?_, by simp⟩⟩
    · simp [Socket.receive, hledger.back]
    · simp [Socket.send, hfront, htaken, hledger.delivered]
    · simp [hdec, hdelivered]
  · rw [hfront] at htaken
    simp only [hoffer]
    refine ⟨_, _, up, rLen, some len', got, sent, back ++ piece.bytes,
      delivered ++ (ans.send out.length).taken out, rfl,
      ⟨hledger.got, hledger.sent, ?_, ?_⟩, (hup.of_config hconf).of_half rfl rfl,
      ⟨hcarries, ?_, ?_⟩⟩
    · simp [Socket.receive, hledger.back]
    · simp [Socket.send, hfront, hledger.delivered]
    · simp [hdec, hdelivered, htaken]
    · rintro len ⟨rfl⟩
      exact ⟨hpos, hle⟩

theorem relays_onServerSend (hp : p.Relays g stream c₀ u₀) (hcalm : ans.Calm) :
    (p.onServerSend ans).Relays g stream c₀ u₀ := by
  obtain ⟨sbuf, h, up, rLen, down, got, sent, back, delivered, hphase, hledger, hup, hdown⟩ := hp
  cases down with
  | none =>
    simp only [onServerSend, hphase]
    exact ⟨sbuf, h, up, rLen, none, got, sent, back, delivered, hphase, hledger, hup, hdown⟩
  | some len =>
    obtain ⟨hpos, hle⟩ := hdown.pending len rfl
    have hconserved : delivered ++ front sbuf len = decryption g back := hdown.conserved
    simp only [onServerSend, hphase, if_neg (Nat.ne_of_gt hpos)]
    rcases offer_calm hcalm sbuf hle with
      ⟨hoffer, htaken⟩ | ⟨buf', len', hoffer, hpos', hle', htaken⟩
    · simp only [hoffer]
      refine ⟨sbuf, h, up, rLen, none, got, sent, back, delivered ++ front sbuf len, rfl,
        ⟨hledger.got, hledger.sent, hledger.back, ?_⟩, hup, hdown.carries, ?_, by simp⟩
      · simp [Socket.send, htaken, hledger.delivered]
      · simpa using hconserved
    · simp only [hoffer]
      refine ⟨buf', h, up, rLen, some len', got, sent, back,
        delivered ++ (ans.send len).taken (front sbuf len), rfl,
        ⟨hledger.got, hledger.sent, hledger.back, ?_⟩, hup, hdown.carries, ?_, ?_⟩
      · simp [Socket.send, hledger.delivered]
      · simpa [htaken] using hconserved
      · rintro len ⟨rfl⟩
        exact ⟨hpos', hle'⟩

theorem relays_onRemoteSend (hp : p.Relays g stream c₀ u₀) (hcalm : ans.Calm) :
    (p.onRemoteSend ans).Relays g stream c₀ u₀ := by
  obtain ⟨sbuf, h, up, rLen, down, got, sent, back, delivered, hphase, hledger, hup, hdown⟩ := hp
  cases up with
  | false =>
    simp only [onRemoteSend, hphase]
    exact ⟨sbuf, h, false, rLen, down, got, sent, back, delivered, hphase, hledger, hup, hdown⟩
  | true =>
    obtain ⟨hpos, hle⟩ := hup.pending rfl
    have hconserved : sent ++ front h.buf rLen = (stream.push got).2 := hup.conserved
    simp only [onRemoteSend, hphase, if_neg (Nat.ne_of_gt hpos)]
    rcases offer_calm hcalm h.buf hle with
      ⟨hoffer, htaken⟩ | ⟨buf', len', hoffer, hpos', hle', htaken⟩
    · simp only [hoffer]
      refine ⟨sbuf, h, false, rLen, down, got, sent ++ front h.buf rLen, back, delivered, rfl,
        ⟨hledger.got, ?_, hledger.back, hledger.delivered⟩, ⟨hup.carries, ?_, by simp⟩, hdown⟩
      · simp [Socket.send, htaken, hledger.sent]
      · simpa using hconserved
    · simp only [hoffer]
      refine ⟨sbuf, { h with buf := buf' }, true, len', down, got,
        sent ++ (ans.send rLen).taken (front h.buf rLen), back, delivered, rfl,
        ⟨hledger.got, ?_, hledger.back, hledger.delivered⟩,
        ⟨hup.carries, ?_, fun _ => ⟨hpos', hle'⟩⟩, hdown.of_half rfl⟩
      · simp [Socket.send, hledger.sent]
      · simpa [htaken] using hconserved

theorem relays_onServerRecv (hS : S.Lawful) (hstream : stream.Usable)
    (hp : p.Relays g stream c₀ u₀) (remotePort : UInt16)
    (hcalm : ans.Calm) (heof : ans.recv ≠ .eof) (herr : ans.recv ≠ .error) :
    (p.onServerRecv g ans remotePort).2.Relays (p.onServerRecv g ans remotePort).1 stream c₀ u₀ := by
  obtain ⟨sbuf, h, up, rLen, down, got, sent, back, delivered, hphase, hledger, hup, hdown⟩ := hp
  cases up with
  | true =>
    simp only [onServerRecv, hphase]
    exact ⟨sbuf, h, true, rLen, down, got, sent, back, delivered, hphase, hledger, hup, hdown⟩
  | false =>
    simp only [onServerRecv, hphase]
    cases hrecv : ans.recv with
    | data piece =>
      have := relays_relayUp hS hstream hledger hup hdown hcalm piece
      rwa [hphase] at this
    | again =>
      exact ⟨sbuf, h, false, rLen, down, got, sent, back, delivered, hphase, hledger, hup, hdown⟩
    | eof => exact absurd hrecv heof
    | error => exact absurd hrecv herr

theorem relays_onRemoteRecv (hS : S.Lawful) (hg : g.Configured) (hu₀ : u₀.received = [])
    (hp : p.Relays g stream c₀ u₀) (hcalm : ans.Calm) (heof : ans.recv ≠ .eof)
    (herr : ans.recv ≠ .error)
    (hfirst : p.upstream.received = [] → ∀ piece, ans.recv = .data piece →
      encryptionIvLen g.method ≤ piece.bytes.length) :
    (p.onRemoteRecv g ans).2.Relays (p.onRemoteRecv g ans).1 stream c₀ u₀ := by
  obtain ⟨sbuf, h, up, rLen, down, got, sent, back, delivered, hphase, hledger, hup, hdown⟩ := hp
  cases down with
  | some len =>
    simp only [onRemoteRecv, hphase]
    exact ⟨sbuf, h, up, rLen, some len, got, sent, back, delivered, hphase, hledger, hup, hdown⟩
  | none =>
    simp only [onRemoteRecv, hphase]
    cases hrecv : ans.recv with
    | data piece =>
      have hback : back = [] → encryptionIvLen g.method ≤ piece.bytes.length := by
        rintro rfl
        exact hfirst (by rw [hledger.back, hu₀]; rfl) piece hrecv
      have := relays_relayDown hS hg hledger hup hdown hcalm piece hback
      rwa [hphase] at this
    | again =>
      exact ⟨sbuf, h, up, rLen, none, got, sent, back, delivered, hphase, hledger, hup, hdown⟩
    | eof => exact absurd hrecv heof
    | error => exact absurd hrecv herr

/-- Every callback keeps the relay going and loses nothing. -/
theorem relays_onFire (hS : S.Lawful) (hg : g.Configured) (hstream : stream.Usable)
    (hu₀ : u₀.received = []) (hp : p.Relays g stream c₀ u₀) (remotePort : UInt16) {x : Watcher}
    (hquiet : p.phase.active x → ans.Quiet (encryptionIvLen g.method) p.upstream.received x) :
    (p.onFire g remotePort x ans).2.Relays (p.onFire g remotePort x ans).1 stream c₀ u₀ := by
  cases hact : p.phase.active x with
  | false =>
    rwa [onFire_inactive _ _ _ _ _ hact]
  | true =>
    have hquiet := hquiet hact
    cases x with
    | serverRecv a =>
      exact relays_onServerRecv hS hstream hp remotePort hquiet.1 hquiet.2.1 hquiet.2.2
    | serverSend a => exact relays_onServerSend hp hquiet
    | remoteRecv a =>
      exact relays_onRemoteRecv hS hg hu₀ hp hquiet.1 hquiet.2.1 hquiet.2.2.1 hquiet.2.2.2
    | remoteSend a => exact relays_onRemoteSend hp hquiet

/-- What the remote does not take of a piece waits for it, and the client's output goes on as
before. -/
theorem held_onServerRecv (hS : S.Lawful) (hp : p.Relays g stream c₀ u₀) (remotePort : UInt16)
    {piece : Piece} {n : Nat} (hrecv : ans.recv = .data piece)
    (hsend : ∀ len, ans.send len = .accepted n) (hn : n < piece.bytes.length) (a : Addr) :
    (p.onServerRecv g ans remotePort).2.phase.active (.remoteSend a) = true ∧
      (p.onServerRecv g ans remotePort).2.phase.active (.serverSend a) =
        p.phase.active (.serverSend a) := by
  obtain ⟨sbuf, h, up, rLen, down, got, sent, back, delivered, hphase, -, hup, -⟩ := hp
  cases up with
  | true =>
    simp only [onServerRecv, hphase]
    exact ⟨rfl, trivial⟩
  | false =>
    obtain ⟨g', ctx, hcall, -⟩ := encryptBuf_represents hS hup.carries ans.ambient piece.fits
    have hlen := CipherStream.length_push hS hup.carries.usable piece.bytes
    have hin := front_memcpy_zero h.buf (Nat.le_trans piece.fits (by decide) :
      piece.bytes.length ≤ bufferSize)
    have hless : n < (((stream.push got).1).push piece.bytes).2.length := by omega
    simp only [onServerRecv, hphase, hrecv, relayUp, hin, hcall, hsend, offer_accepted,
      if_pos hless]
    exact ⟨rfl, rfl⟩

/-- What the client does not take of a piece waits for it, and the remote's output goes on as
before. -/
theorem held_onRemoteRecv (hS : S.Lawful) (hg : g.Configured) (hp : p.Relays g stream c₀ u₀)
    {piece : Piece} {n : Nat} (hrecv : ans.recv = .data piece)
    (hsend : ∀ len, ans.send len = .accepted n)
    (hn : n + encryptionIvLen g.method < piece.bytes.length) (a : Addr) :
    (p.onRemoteRecv g ans).2.phase.active (.serverSend a) = true ∧
      (p.onRemoteRecv g ans).2.phase.active (.remoteSend a) =
        p.phase.active (.remoteSend a) := by
  obtain ⟨sbuf, h, up, rLen, down, got, sent, back, delivered, hphase, -, -, hdown⟩ := hp
  cases down with
  | some len =>
    simp only [onRemoteRecv, hphase]
    exact ⟨rfl, trivial⟩
  | none =>
    obtain ⟨g', ctx, out, hcall, -, -, hlen, -⟩ :=
      decryptBuf_downward hS hg hdown ans.ambient piece (fun _ => by omega)
    have hin := front_memcpy_zero sbuf (Nat.le_trans piece.fits (by decide) :
      piece.bytes.length ≤ bufferSize)
    have hless : n < out.length := by omega
    simp only [onRemoteRecv, hphase, hrecv, relayDown, hin, hcall, Option.getD_some, hsend,
      offer_accepted, if_pos hless]
    exact ⟨rfl, rfl⟩

/-! The way into the relay stage. -/

/-- Before its request is served a connection has used neither context. -/
def Ready (g : Globals S) (p : Pair S) : Prop :=
  match p.phase with
  | .connecting _ h => Fresh g h.recvCtx ∧ Fresh g h.sendCtx ∧ p.upstream = .opened
  | .handshake _ _ h => Fresh g h.recvCtx ∧ Fresh g h.sendCtx ∧ p.upstream = .opened
  | _ => True

theorem ready_fresh (g : Globals S) (t : Attempt S) : (fresh g t).Ready g :=
  ⟨fresh_initEncryption .., fresh_initEncryption .., rfl⟩

theorem Ready.of_config (hp : p.Ready g) (hg : g'.config = g.config) : p.Ready g' := by
  obtain ⟨phase, client, upstream⟩ := p
  cases phase with
  | connecting sbuf h => exact ⟨hp.1.of_config hg, hp.2.1.of_config hg, hp.2.2⟩
  | handshake asked sbuf h => exact ⟨hp.1.of_config hg, hp.2.1.of_config hg, hp.2.2⟩
  | _ => trivial

theorem ready_onFire (g₁ : Globals S) (remotePort : UInt16) (x : Watcher) (ans : Answers S)
    (hp : p.Ready g) : (p.onFire g₁ remotePort x ans).2.Ready g := by
  have hlate : ∀ {p : Pair S}, p.phase.early = false → p.Ready g := by
    rintro ⟨phase, client, upstream⟩ _
    cases phase <;> trivial
  cases hearly : p.phase.early with
  | false => exact hlate (early_onFire _ _ _ _ hearly)
  | true =>
    rcases onFire_early (g := g₁) hearly x with h | ⟨hsame, -⟩ | ⟨sbuf, h, hphase, -, hmade⟩ |
      ⟨sbuf, h, piece, hphase, -, -, hmade⟩
    · exact hlate h
    · rwa [hsame]
    · rw [hmade]
      simpa only [Ready, hphase] using hp
    · rw [hmade]
      simpa only [Ready, hphase] using hp

theorem request_config (g : Globals S) (ans : Answers S) (remotePort : UInt16) (p : Pair S)
    (sbuf : Buffer) (h : Half S) : (p.request g ans remotePort sbuf h).1.config = g.config := by
  unfold request
  split
  · rfl
  · rfl
  · next header _ =>
    have hconf := encryptBuf_config ans.ambient g h.sendCtx header
    dsimp only
    split_ifs <;> exact hconf

/-- No callback touches the configuration. -/
theorem onFire_config (g : Globals S) (remotePort : UInt16) (x : Watcher) (ans : Answers S)
    (p : Pair S) : (p.onFire g remotePort x ans).1.config = g.config := by
  cases x with
  | serverSend a => rfl
  | remoteSend a => rfl
  | serverRecv a =>
    simp only [onFire, onServerRecv]
    split
    · split
      · rfl
      · rfl
      · rfl
      · split
        · exact request_config ..
        · rfl
    · split
      · rfl
      · rfl
      · rfl
      · exact encryptBuf_config ..
    · rfl
    · rfl
  | remoteRecv a =>
    simp only [onFire, onRemoteRecv]
    split
    · split
      · rfl
      · rfl
      · rfl
      · exact decryptBuf_config ..
    · rfl
    · rfl

/-- A served request starts the relay with nothing on the way. -/
theorem relays_of_enters (hS : S.Lawful) (hg : g.Configured) (hp : p.Ready g) {p' : Pair S}
    {remotePort : UInt16} {sbuf : Buffer} {h : Half S} {piece : Piece} {header : Bytes}
    (henter : p.Enters g ans remotePort p' sbuf h piece header) :
    ∃ iv g', iv.length = encryptionIvLen g.method ∧ g'.config = g.config ∧
      p'.upstream.accepted = iv ++ oneShot g iv header ∧ p'.upstream.received = [] ∧
      p'.Relays g' ((CipherStream.start g true iv).push header).1 p'.client p'.upstream := by
  obtain ⟨hrecv, hsend, hopened⟩ :
      Fresh g h.recvCtx ∧ Fresh g h.sendCtx ∧ p.upstream = .opened := by
    simpa only [Ready, henter.asked] using hp
  have hbounds := addressLen_bounds (addrToSend_ok_iff.mp henter.parsed).2.1
  have hsize : bufSize = 1500 := rfl
  obtain ⟨g', ctx, hcall, hrep, hconf⟩ := encryptBuf_fresh hS hg hsend ans.ambient
    (by omega : header.length ≤ bufSize) rfl
  have hiv := length_drawn ans.ambient.rand (encryptionIvLen g.method)
  generalize drawn ans.ambient.rand (encryptionIvLen g.method) = iv at hcall hrep hiv
  have hlen := CipherStream.length_push hS (usable_start hS hg true hiv) header
  have hpush := (CipherStream.chunkable_push hS).push_nil hrep.usable
  have hupstream := henter.upstream
  have hheader := henter.served.1
  obtain ⟨sbuf', hphase⟩ := henter.phase
  simp only [hcall] at hupstream hheader hphase
  have hret : (ans.send (iv ++ ((CipherStream.start g true iv).push header).2).length).ret
      (iv ++ ((CipherStream.start g true iv).push header).2).length ≠ -1 := by
    -- the header is too short for the largest `size_t`
    intro hret
    have hivle := ivLen_le g.method
    have hmax : sizeT (-1) = 2 ^ 64 - 1 := rfl
    rw [hret, hmax, List.length_append] at hheader
    omega
  have htaken := (SendResult.taken_eq_iff_ne (Or.inl hheader)).mpr hret
  refine ⟨iv, g', hiv, hconf, ?_, ?_, sbuf', _, false, 0, none, [], [], [], [], hphase, ?_, ?_, ?_⟩
  · simp only [hupstream, hopened, Socket.send, Socket.opened, htaken, List.nil_append, oneShot]
  · simp only [hupstream, hopened, Socket.send, Socket.opened]
  · constructor <;> simp
  · exact ⟨by rwa [hpush], by simp [hpush], by simp⟩
  · exact ⟨Or.inl ⟨rfl, hrecv.of_config hconf⟩, rfl, by simp⟩

end Pair

/-- A call of `set_config`. -/
def Event.IsConfig : Event S → Prop
  | .config .. => True
  | _ => False

namespace World

/-- The bytes in `remote->buf` that wait for the remote. -/
def pendingUp (w : World S) (k : Nat) : Bytes :=
  if (w.cells k).remoteSend then (w.cells k).remote.elim [] fun r => front r.buf r.bufLen else []

/-- The bytes in `server->buf` that wait for the client. -/
def pendingDown (w : World S) (k : Nat) : Bytes :=
  if (w.cells k).serverSend then (w.cells k).server.elim [] fun s => front s.buf s.bufLen else []

theorem pendingUp_eq {p : Pair S} (hp : w.cells k = p.cell k) {sbuf : Buffer} {h : Half S}
    {up : Bool} {rLen : Nat} {down : Option Nat} (hphase : p.phase = .relay sbuf h up rLen down) :
    w.pendingUp k = if up then front h.buf rLen else [] := by
  simp [pendingUp, hp, Pair.cell, hphase]

theorem pendingDown_eq {p : Pair S} (hp : w.cells k = p.cell k) {sbuf : Buffer} {h : Half S}
    {up : Bool} {rLen : Nat} {down : Option Nat} (hphase : p.phase = .relay sbuf h up rLen down) :
    w.pendingDown k = down.elim [] (front sbuf) := by
  cases down <;> simp [pendingDown, hp, Pair.cell, hphase]

/-- Between `w` and `w'` nothing has been lost, duplicated or reordered in either direction. The
header had been sent under `iv` in `w`. -/
def Relayed (g : Globals S) (k : Nat) (iv header : Bytes) (w w' : World S) : Prop :=
  ∃ c u c' u' got sent back delivered,
    (w.cells k).client = some c ∧ (w.cells k).upstream = some u ∧
    (w'.cells k).client = some c' ∧ (w'.cells k).upstream = some u' ∧
    c'.received = c.received ++ got ∧ u'.accepted = u.accepted ++ sent ∧
    u'.received = u.received ++ back ∧ c'.accepted = c.accepted ++ delivered ∧
    u.accepted = iv ++ oneShot g iv header ∧ u.received = [] ∧
    oneShot g iv (header ++ got) = oneShot g iv header ++ (sent ++ w'.pendingUp k) ∧
    delivered ++ w'.pendingDown k = decryption g back

/-- An event that neither reconfigures nor disturbs the connection `k`. -/
def Undisturbed (k : Nat) (w : World S) : Event S → Prop
  | .accept _ => True
  | .fire x ans => x.addr = k → w.isActive x → ∀ u, (w.cells k).upstream = some u →
      ans.Quiet (encryptionIvLen w.globals.method) u.received x
  | .config .. => False

variable {P : Pair S → Prop} {e : Event S}

theorem step_config (h : Described P w) (he : ¬ e.IsConfig) (hstep : w.step e = .ok w') :
    w'.globals.config = w.globals.config := by
  cases e with
  | config password name remotePort => exact absurd trivial he
  | accept attempts => rw [(acceptCb_past h hstep).1]
  | fire x ans =>
    by_cases hpair : ∃ p : Pair S, w.cells x.addr = p.cell x.addr
    · obtain ⟨p, hp⟩ := hpair
      rw [step_fire hp] at hstep
      cases hstep
      exact Pair.onFire_config ..
    · rw [step_fire_idle h hpair] at hstep
      cases hstep
      rfl

/-- The event loop under one configuration. -/
structure Steady (g : Globals S) (w : World S) : Prop where
  described : Described (fun p => p.Ready g ∧ p.Accounted) w
  config : w.globals.config = g.config

theorem steady_start (g : Globals S) (remotePort : UInt16) : Steady g (start g remotePort) :=
  ⟨described_start g remotePort, rfl⟩

theorem steady_step (h : Steady g w) (he : ¬ e.IsConfig) :
    ∃ w', w.step e = .ok w' ∧ Steady g w' := by
  obtain ⟨w', hstep, h'⟩ := step_described (e := e)
    (fun t => ⟨(Pair.ready_fresh w.globals t).of_config h.config.symm, Pair.accounted_fresh ..⟩)
    (fun _ _ _ _ _ hp => ⟨Pair.ready_onFire _ _ _ _ hp.1, Pair.accounted_onFire _ _ _ _ _ hp.2⟩)
    h.described
  exact ⟨w', hstep, h', (step_config h.described he hstep).trans h.config⟩

theorem steady_run {es : List (Event S)} (hes : ∀ e ∈ es, ¬ e.IsConfig) (h : Steady g w) :
    ∃ w', w.run es = .ok w' ∧ Steady g w' :=
  run_along steady_step h (along_of_forall (fun e he _ => hes e he) w)

/-- The connection `k` is in the relay stage, where it has lost nothing. -/
def Relaying (k : Nat) (stream : CipherStream S) (c₀ u₀ : Socket) (w : World S) : Prop :=
  ∃ p : Pair S, w.cells k = p.cell k ∧ p.Relays w.globals stream c₀ u₀

theorem stageOf_of_relaying {stream : CipherStream S} {c₀ u₀ : Socket}
    (h : Relaying k stream c₀ u₀ w) : w.stageOf k = some .relay := by
  obtain ⟨p, hp, sbuf, half, up, rLen, down, got, sent, back, delivered, hphase, -⟩ := h
  rw [stageOf_eq hp, hphase]
  rfl

theorem relaying_of_enters (hS : S.Lawful) (hg : g.Configured) (h : Steady g w)
    (hstep : w.step e = .ok w') (hbefore : w.stageOf k ≠ some .relay)
    (hafter : w'.stageOf k = some .relay) :
    ∃ iv header c₀ u₀, iv.length = encryptionIvLen g.method ∧
      (w'.cells k).client = some c₀ ∧ (w'.cells k).upstream = some u₀ ∧
      u₀.accepted = iv ++ oneShot g iv header ∧ u₀.received = [] ∧
      Relaying k ((CipherStream.start g true iv).push header).1 c₀ u₀ w' := by
  obtain ⟨x, ans, rfl, hx, p₀, hp₀⟩ := fire_of_enters (h.described.imp fun _ _ => trivial) hstep
    hbefore hafter
  obtain ⟨p, hp, hready, -⟩ := h.described.pair hp₀
  obtain ⟨w₁, hstep₁, hcell, hglobals, -⟩ := step_fire_at hp hx ans
  cases hstep.symm.trans hstep₁
  rw [stageOf_eq hp] at hbefore
  rw [stageOf_eq hcell] at hafter
  obtain ⟨-, sbuf, half, piece, header, henter⟩ := Pair.enters_of_onFire hbefore hafter
  obtain ⟨iv, g', hiv, hg', hsent, hnone, hrelays⟩ := Pair.relays_of_enters hS
    (hg.of_config h.config) (hready.of_config h.config) henter
  have hconf : w'.globals.config = g'.config := by
    rw [hglobals, Pair.onFire_config, hg']
  refine ⟨iv, header, _, _, hiv.trans (by rw [Globals.method_of_config h.config]), by rw [hcell]; rfl,
    by rw [hcell]; rfl, ?_, hnone, _, hcell, ?_⟩
  · rw [hsent, oneShot, oneShot, CipherStream.start_of_config h.config]
  · rw [← CipherStream.start_of_config h.config]
    exact hrelays.of_config hconf

/-- Other connections touch neither the cell nor the configuration. -/
theorem relaying_step (hS : S.Lawful) (hg : g.Configured) {stream : CipherStream S}
    (hstream : stream.Usable) {c₀ u₀ : Socket} (hu₀ : u₀.received = [])
    (h : Steady g w ∧ Relaying k stream c₀ u₀ w) (he : w.Undisturbed k e) :
    ∃ w', w.step e = .ok w' ∧ Steady g w' ∧ Relaying k stream c₀ u₀ w' := by
  obtain ⟨hsteady, p, hp, hrelays⟩ := h
  have hnoconfig : ¬ e.IsConfig := by
    cases e with
    | config password name remotePort => exact absurd he id
    | _ => exact id
  obtain ⟨w', hstep, hsteady'⟩ := steady_step hsteady hnoconfig
  refine ⟨w', hstep, hsteady', ?_⟩
  rcases step_seen hsteady.described hp hstep with ⟨x, ans, rfl, hx, hcell, hglobals⟩ | ⟨-, hcell⟩
  · refine ⟨_, hcell, ?_⟩
    rw [hglobals]
    refine Pair.relays_onFire hS (hg.of_config hsteady.config) hstream hu₀ hrelays _ ?_
    intro hact
    exact he hx (by rwa [isActive_eq (hx ▸ hp)]) _ (by rw [hp]; rfl)
  · exact ⟨p, hcell, hrelays.of_config (step_config hsteady.described hnoconfig hstep)⟩

/-- A piece that the remote takes in part only has its output watched. -/
theorem held_serverRecv (hS : S.Lawful) {stream : CipherStream S} {c₀ u₀ : Socket}
    (h : Relaying k stream c₀ u₀ w) {ans : Answers S} {piece : Piece} {n : Nat}
    (hrecv : ans.recv = .data piece) (hsend : ∀ len, ans.send len = .accepted n)
    (hn : n < piece.bytes.length) (hstep : w.step (.fire (.serverRecv k) ans) = .ok w') :
    w'.isActive (.remoteSend k) = true ∧
      w'.isActive (.serverSend k) = w.isActive (.serverSend k) := by
  obtain ⟨p, hp, hrelays⟩ := h
  obtain ⟨w₁, hstep₁, hcell, -⟩ := step_fire_at hp (x := .serverRecv k) rfl ans
  cases hstep.symm.trans hstep₁
  rw [isActive_eq (x := .remoteSend k) hcell, isActive_eq (x := .serverSend k) hcell,
    isActive_eq (x := .serverSend k) hp]
  exact Pair.held_onServerRecv hS hrelays w.remotePort hrecv hsend hn k

/-- A piece that the client takes in part only has its output watched. -/
theorem held_remoteRecv (hS : S.Lawful) (hg : w.globals.Configured) {stream : CipherStream S}
    {c₀ u₀ : Socket} (h : Relaying k stream c₀ u₀ w) {ans : Answers S} {piece : Piece} {n : Nat}
    (hrecv : ans.recv = .data piece) (hsend : ∀ len, ans.send len = .accepted n)
    (hn : n + encryptionIvLen w.globals.method < piece.bytes.length)
    (hstep : w.step (.fire (.remoteRecv k) ans) = .ok w') :
    w'.isActive (.serverSend k) = true ∧
      w'.isActive (.remoteSend k) = w.isActive (.remoteSend k) := by
  obtain ⟨p, hp, hrelays⟩ := h
  obtain ⟨w₁, hstep₁, hcell, -⟩ := step_fire_at hp (x := .remoteRecv k) rfl ans
  cases hstep.symm.trans hstep₁
  rw [isActive_eq (x := .serverSend k) hcell, isActive_eq (x := .remoteSend k) hcell,
    isActive_eq (x := .remoteSend k) hp]
  exact Pair.held_onRemoteRecv hS hg hrelays hrecv hsend hn k

theorem relayed_of_relaying (hS : S.Lawful) {iv header : Bytes}
    (hstart : (CipherStream.start g true iv).Usable) {c₀ u₀ : Socket} {w₀ : World S}
    (hc₀ : (w₀.cells k).client = some c₀) (hu₀ : (w₀.cells k).upstream = some u₀)
    (hsent : u₀.accepted = iv ++ oneShot g iv header) (hnone : u₀.received = [])
    (hconf : w.globals.config = g.config)
    (h : Relaying k ((CipherStream.start g true iv).push header).1 c₀ u₀ w) :
    w.stageOf k = some .relay ∧ (w.cells k).remote.isSome ∧ Relayed g k iv header w₀ w := by
  have hstage := stageOf_of_relaying h
  obtain ⟨p, hp, sbuf, half, up, rLen, down, got, sent, back, delivered, hphase, hledger, hup,
    hdown⟩ := h
  refine ⟨hstage, by rw [hp]; simp [Pair.cell, hphase], ?_⟩
  refine ⟨c₀, u₀, p.client, p.upstream, got, sent, back, delivered, hc₀, hu₀, by rw [hp]; rfl,
    by rw [hp]; rfl, hledger.got, hledger.sent, hledger.back, hledger.delivered, hsent, hnone,
    ?_, ?_⟩
  · rw [pendingUp_eq hp hphase, hup.conserved, oneShot, oneShot,
      (CipherStream.chunkable_push hS).push_append header got hstart]
  · rw [pendingDown_eq hp hphase, hdown.conserved, decryption_of_config hconf]

/-- The state that a run enters the relay stage with. -/
theorem entered_of_run (hS : S.Lawful) (hg : g.Configured) {remotePort : UInt16}
    {es : List (Event S)} (hes : ∀ e' ∈ e :: es, ¬ e'.IsConfig)
    (hrun : (start g remotePort).run es = .ok w) (hstep : w.step e = .ok w')
    (hbefore : w.stageOf k ≠ some .relay) (hafter : w'.stageOf k = some .relay) :
    ∃ iv header c₀ u₀, iv.length = encryptionIvLen g.method ∧
      (w'.cells k).client = some c₀ ∧ (w'.cells k).upstream = some u₀ ∧
      u₀.accepted = iv ++ oneShot g iv header ∧ u₀.received = [] ∧ Steady g w' ∧
      Relaying k ((CipherStream.start g true iv).push header).1 c₀ u₀ w' := by
  obtain ⟨w₁, hrun₁, hsteady⟩ := steady_run (fun e' he' => hes e' (List.mem_cons_of_mem e he'))
    (steady_start g remotePort)
  cases hrun.symm.trans hrun₁
  obtain ⟨w₂, hstep₂, hsteady'⟩ := steady_step hsteady (hes e (List.mem_cons_self ..))
  cases hstep.symm.trans hstep₂
  obtain ⟨iv, header, c₀, u₀, hiv, hc₀, hu₀, hsent, hnone, hrelaying⟩ :=
    relaying_of_enters hS hg hsteady hstep hbefore hafter
  exact ⟨iv, header, c₀, u₀, hiv, hc₀, hu₀, hsent, hnone, hsteady', hrelaying⟩

/-- Whatever the order of the callbacks and however the system calls cut the data: from the
event that takes a connection into the relay stage on, as long as nothing disturbs it, what its
two ends have accepted, followed by what waits for them, is what was received, transformed. -/
theorem run_relayed (hS : S.Lawful) (hg : g.Configured) {remotePort : UInt16}
    {es es' : List (Event S)} (hes : ∀ e' ∈ e :: es, ¬ e'.IsConfig)
    (hrun : (start g remotePort).run es = .ok w) (hstep : w.step e = .ok w')
    (hbefore : w.stageOf k ≠ some .relay) (hafter : w'.stageOf k = some .relay)
    (hes' : Along (Undisturbed k) w' es') :
    ∃ w'' iv header, w'.run es' = .ok w'' ∧ w''.stageOf k = some .relay ∧
      (w''.cells k).remote.isSome ∧ iv.length = encryptionIvLen g.method ∧
      Relayed g k iv header w' w'' := by
  obtain ⟨iv, header, c₀, u₀, hiv, hc₀, hu₀, hsent, hnone, hsteady, hrelaying⟩ :=
    entered_of_run hS hg hes hrun hstep hbefore hafter
  have hstart := usable_start hS hg true hiv
  have hstream := (CipherStream.chunkable_push hS).closed header hstart
  obtain ⟨w'', hrun', hsteady'', hrelaying''⟩ := run_along
    (relaying_step hS hg hstream hnone) ⟨hsteady, hrelaying⟩ hes'
  obtain ⟨hstage, halive, hrelayed⟩ := relayed_of_relaying hS hstart hc₀ hu₀ hsent hnone
    hsteady''.config hrelaying''
  exact ⟨w'', iv, header, hrun', hstage, halive, hiv, hrelayed⟩

theorem run_relayed_zeroed :
    let piece (bytes : Bytes) (h : bytes ≠ [] ∧ bytes.length ≤ bufSize) : Call :=
      (.zeroed, ⟨bytes, h.1, h.2⟩)
    let full (bytes : Bytes) (h : bytes ≠ [] ∧ bytes.length ≤ bufSize) :
      Answers Reference.openssl := delivers (piece bytes h)
    let es : List (Event Reference.openssl) := [.accept [attempt _],
      .fire (.remoteSend 0) connects, .fire (.serverRecv 0) (full [5, 1, 0] (by decide))]
    let e : Event Reference.openssl :=
      .fire (.serverRecv 0) (full [5, 1, 0, 1, 1, 2, 3, 4, 0, 80] (by decide))
    let es' : List (Event Reference.openssl) :=
      [.fire (.serverRecv 0) { full [7, 8] (by decide) with
        send := fun n => if n = 0 then .accepted 0 else .again },
       .fire (.remoteSend 0) { full [9] (by decide) with send := fun _ => .accepted 1 },
       .fire (.remoteRecv 0) (full (List.replicate 16 7) (by decide))]
    ∃ w w' w'' iv header, (start (.zeroed _) 0).run es = .ok w ∧ w.step e = .ok w' ∧
      w'.run es' = .ok w'' ∧ w''.stageOf 0 = some .relay ∧ (w''.cells 0).remote.isSome ∧
      iv.length = 0 ∧ Relayed (.zeroed _) 0 iv header w' w'' := by
  intro piece full es e es'
  obtain ⟨w, w', p', hrun, hstep, -, hbefore, hcell, henter⟩ := run_served
    (w := start (.zeroed Reference.openssl) 0) (k := 0) (t := attempt _) rfl rfl ⟨rfl, rfl⟩
    (full [5, 1, 0] (by decide)) (full [5, 1, 0, 1, 1, 2, 3, 4, 0, 80] (by decide)) rfl rfl
    (addrToSend_request _ (by decide) 5 0) ⟨rfl, by decide⟩
  have hne : w.stageOf 0 ≠ some .relay := by
    rw [hbefore]
    decide
  have hafter : w'.stageOf 0 = some .relay := by
    rw [stageOf_eq hcell, henter.stage]
  have hquiet : Along (Undisturbed 0) w' es' := by
    apply along_of_forall
    intro e he w
    simp only [es', List.mem_cons, List.not_mem_nil, or_false] at he
    rcases he with rfl | rfl | rfl <;> rintro - - u -
    · refine ⟨⟨?_, 0, rfl⟩, nofun, nofun⟩
      intro n
      dsimp only
      split <;> nofun
    · exact ⟨nofun, 1, rfl⟩
    · refine ⟨⟨nofun, 0, rfl⟩, nofun, nofun, ?_⟩
      rintro - _ ⟨rfl⟩
      exact ivLen_le _
  obtain ⟨w'', iv, header, hrun', hstage, halive, hiv, hrelayed⟩ := run_relayed
    Reference.lawful_openssl (g := .zeroed _) rfl (by simp [Event.IsConfig]) hrun hstep hne
    hafter hquiet
  exact ⟨w, w', w'', iv, header, hrun, hstep, hrun', hstage, halive, hiv, hrelayed⟩

end World

end Shadowsocks
