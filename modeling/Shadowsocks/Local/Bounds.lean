import Shadowsocks.Local.Guarded
import Shadowsocks.Local.Tunnel

/-!
Runs of the checked callbacks. Under one configuration a connection keeps its buffer lengths within
its buffers and its contexts fit for the next call, whatever its sockets answer.
-/
namespace Shadowsocks

open Memory

variable {S : OpenSSL} {g g' : Globals S} {w w' : World S} {p : Pair S} {ans : Answers S}

/-- Both contexts are fit for their next call. -/
def Half.Sound (g : Globals S) (h : Half S) : Prop :=
  h.recvCtx.Sound g false ∧ h.sendCtx.Sound g true

theorem EncryptionCtx.Sound.of_config {c : EncryptionCtx S} {enc : Bool} (h : c.Sound g enc)
    (hg : g'.config = g.config) : c.Sound g' enc := by
  rcases h with hfresh | ⟨⟨k, hrep⟩, hiv⟩
  · exact Or.inl (hfresh.of_config hg)
  · exact Or.inr ⟨⟨k, hrep.of_config hg⟩, hiv⟩

theorem Half.Sound.of_config {h : Half S} (hh : h.Sound g) (hg : g'.config = g.config) :
    h.Sound g' := ⟨hh.1.of_config hg, hh.2.of_config hg⟩

namespace Pair

/-- What is pending lies within the buffer it is in. -/
def Sound (g : Globals S) (p : Pair S) : Prop :=
  match p.phase with
  | .connecting _ h => h.Sound g
  | .handshake _ _ h => h.Sound g
  | .relay _ h _ rLen down => h.Sound g ∧ rLen ≤ bufferSize ∧ down.getD 0 ≤ bufferSize
  | .remoteAlone h _ => h.Sound g
  | _ => True

theorem Sound.of_config (hp : p.Sound g) (hg : g'.config = g.config) : p.Sound g' := by
  obtain ⟨phase, client, upstream⟩ := p
  cases phase with
  | connecting sbuf h => exact Half.Sound.of_config hp hg
  | handshake asked sbuf h => exact Half.Sound.of_config hp hg
  | relay sbuf h up rLen down => exact ⟨Half.Sound.of_config hp.1 hg, hp.2⟩
  | remoteAlone h reading => exact Half.Sound.of_config hp hg
  | serverAlone sbuf reading => trivial
  | gone => trivial

theorem sound_fresh (g : Globals S) (t : Attempt S) : (fresh g t).Sound g :=
  ⟨(fresh_initEncryption g _).sound false, (fresh_initEncryption g _).sound true⟩

/-- What is left after an offer lies within the buffer. -/
theorem offer_le {res : SendResult} {buf buf' : Buffer} {len len' : Nat} (hlen : len ≤ bufferSize)
    (h : offer res buf len = .pending buf' len') : len' ≤ bufferSize := by
  rcases offer_cases res buf hlen with ⟨-, hfailed⟩ | ⟨htaken, -⟩ | ⟨_, _, hpending, hle, -, -⟩
  · cases h.symm.trans hfailed
  · cases h.symm.trans htaken
  · cases h.symm.trans hpending
    exact hle

theorem sound_relayUp (hS : S.Lawful) (hg : g.Configured) {sbuf : Buffer} {h : Half S}
    (hh : h.Sound g) {rLen : Nat} (hr : rLen ≤ bufferSize) {down : Option Nat}
    (hdown : down.getD 0 ≤ bufferSize) (piece : Piece) :
    (p.relayUp g ans sbuf h rLen down piece.bytes).2.Sound g := by
  have hsize : bufferSize = 1548 := rfl
  have hbuf : bufSize = 1500 := rfl
  have hpiece := piece.fits
  obtain ⟨g', ctx, out, hcall, hout, hctx, hconfig⟩ := hh.2.encryptBuf hS hg ans.ambient piece.fits
  have hctx : ctx.Sound g true := hctx.of_config hconfig.symm
  simp only [relayUp, front_memcpy_zero _ (length_le_bufferSize piece), hcall]
  cases hoffer : offer (ans.send out.length) (memcpy (memcpy h.buf 0 piece.bytes) 0 out)
      out.length with
  | failed => trivial
  | taken => exact ⟨⟨hh.1, hctx⟩, hr, hdown⟩
  | pending buf len => exact ⟨⟨hh.1, hctx⟩, offer_le (by omega) hoffer, hdown⟩

theorem sound_relayDown (hS : S.Lawful) (hg : g.Configured) {sbuf : Buffer} {h : Half S}
    (hh : h.Sound g) (up : Bool) {rLen : Nat} (hr : rLen ≤ bufferSize) {piece : Piece}
    (hwhole : decryptBuf ans.ambient g h.recvCtx piece.bytes ≠ none) :
    (p.relayDown g ans sbuf h up rLen piece.bytes).2.Sound g := by
  have hpiece := length_le_bufferSize piece
  obtain ⟨g', ctx, out, hcall, hout, hctx, hconfig⟩ :=
    hh.1.decryptBuf hS hg ans.ambient piece.fits hwhole
  have hctx : ctx.Sound g false := hctx.of_config hconfig.symm
  simp only [relayDown, front_memcpy_zero _ hpiece, hcall, Option.getD_some]
  cases hoffer : offer (ans.send out.length) (memcpy (memcpy sbuf 0 piece.bytes) 0 out)
      out.length with
  | failed => trivial
  | taken => exact ⟨⟨hctx, hh.2⟩, hr, Nat.zero_le _⟩
  | pending buf len => exact ⟨⟨hctx, hh.2⟩, hr, offer_le (by omega) hoffer⟩

theorem sound_request (hS : S.Lawful) (hg : g.Configured) {h : Half S} (hh : h.Sound g)
    (remotePort : UInt16) (sbuf : Buffer) : (p.request g ans remotePort sbuf h).2.Sound g := by
  cases hparse : addrToSend sbuf with
  | error refusal => cases refusal <;> simp only [request, hparse] <;> trivial
  | ok header =>
    obtain ⟨g', ctx, out, hcall, -, hctx, hconfig⟩ :=
      hh.2.encryptBuf hS hg ans.ambient (length_header hparse)
    have hctx : ctx.Sound g true := hctx.of_config hconfig.symm
    simp only [request, hparse, hcall]
    split_ifs
    · trivial
    · trivial
    · exact ⟨⟨hh.1, hctx⟩, Nat.zero_le _, Nat.zero_le _⟩

/-- Whatever the callback and the answers of the system, as long as no length wraps. -/
theorem sound_onFire (hS : S.Lawful) (hg : g.Configured) (hp : p.Sound g) (remotePort : UInt16)
    {x : Watcher}
    (hwhole : x = .remoteRecv x.addr → ∀ sbuf h up rLen, p.phase = .relay sbuf h up rLen none →
      ∀ piece, ans.recv = .data piece →
        decryptBuf ans.ambient g h.recvCtx piece.bytes ≠ none) :
    (p.onFire g remotePort x ans).2.Sound g := by
  obtain ⟨phase, client, upstream⟩ := p
  cases x with
  | serverRecv a =>
    rcases phase with ⟨sbuf, h⟩ | ⟨asked, sbuf, h⟩ | ⟨sbuf, h, _ | _, rLen, down⟩ |
      ⟨sbuf, _ | _⟩ | ⟨h, reading⟩ | _ <;> try exact hp
    · simp only [onFire, onServerRecv]
      cases ans.recv with
      | data piece =>
        cases asked with
        | true => exact sound_request hS hg hp remotePort _
        | false => exact hp
      | error => trivial
      | _ => exact hp
    · simp only [onFire, onServerRecv]
      cases ans.recv with
      | data piece => exact sound_relayUp hS hg hp.1 hp.2.1 hp.2.2 piece
      | eof => exact hp.1
      | again => exact hp
      | error => trivial
  | serverSend a =>
    rcases phase with ⟨sbuf, h⟩ | ⟨asked, sbuf, h⟩ | ⟨sbuf, h, up, rLen, _ | len⟩ |
      ⟨sbuf, reading⟩ | ⟨h, reading⟩ | _ <;> try exact hp
    simp only [onFire, onServerSend]
    split_ifs
    · trivial
    · cases hoffer : offer (ans.send len) sbuf len with
      | failed => trivial
      | taken => exact ⟨hp.1, hp.2.1, Nat.zero_le _⟩
      | pending buf left => exact ⟨hp.1, hp.2.1, offer_le hp.2.2 hoffer⟩
  | remoteRecv a =>
    rcases phase with ⟨sbuf, h⟩ | ⟨asked, sbuf, h⟩ | ⟨sbuf, h, up, rLen, _ | len⟩ |
      ⟨sbuf, reading⟩ | ⟨h, _ | _⟩ | _ <;> try first | exact hp | trivial
    have hwhole := hwhole rfl sbuf h up rLen rfl
    simp only [onFire, onRemoteRecv]
    cases hrecv : ans.recv with
    | data piece => exact sound_relayDown hS hg hp.1 up hp.2.1 (hwhole piece hrecv)
    | again => exact hp
    | _ => trivial
  | remoteSend a =>
    rcases phase with ⟨sbuf, h⟩ | ⟨asked, sbuf, h⟩ | ⟨sbuf, h, _ | _, rLen, down⟩ |
      ⟨sbuf, reading⟩ | ⟨h, reading⟩ | _ <;> try first | exact hp | trivial
    · simp only [onFire, onRemoteSend]
      split_ifs
      · exact hp
      · trivial
    · simp only [onFire, onRemoteSend]
      split_ifs
      · trivial
      · cases hoffer : offer (ans.send rLen) h.buf rLen with
        | failed => trivial
        | taken => exact hp
        | pending buf left => exact ⟨hp.1, offer_le hp.2.1 hoffer, hp.2.2⟩

end Pair

namespace World

/-- What the callbacks rely on when they follow their pointers. -/
structure Sound (w : World S) : Prop where
  server : ∀ {a s}, w.server a = .ok s → s.bufLen ≤ bufferSize
  remote : ∀ {a r}, w.remote a = .ok r → r.bufLen ≤ bufferSize ∧
    r.recvEncryptionCtx.Sound w.globals false ∧ r.sendEncryptionCtx.Sound w.globals true
  linked : ∀ {a r s}, w.remote a = .ok r → r.server = some s → ∃ server, w.server s = .ok server

theorem server_eq_ok {a : Addr} {s : Server} : w.server a = .ok s ↔ (w.cells a).server = some s := by
  rw [server]
  cases (w.cells a).server <;> simp

theorem remote_eq_ok {a : Addr} {r : Remote S} :
    w.remote a = .ok r ↔ (w.cells a).remote = some r := by
  rw [remote]
  cases (w.cells a).remote <;> simp

theorem sound_of_described (h : Described (fun p => p.Sound w.globals) w) : w.Sound where
  server {a s} hs := by
    rw [server_eq_ok] at hs
    rcases h.cells_eq a with ⟨p, hp, hsound⟩ | hcell | hcell
    · obtain ⟨phase, client, upstream⟩ := p
      rw [hp] at hs
      cases phase <;> cases hs
      · exact Nat.zero_le _
      · exact Nat.zero_le _
      · exact hsound.2.2
      · exact Nat.zero_le _
    all_goals rw [hcell] at hs; cases hs
  remote {a r} hr := by
    rw [remote_eq_ok] at hr
    rcases h.cells_eq a with ⟨p, hp, hsound⟩ | hcell | hcell
    · obtain ⟨phase, client, upstream⟩ := p
      rw [hp] at hr
      cases phase <;> cases hr
      · exact ⟨Nat.zero_le _, hsound⟩
      · exact ⟨Nat.zero_le _, hsound⟩
      · exact ⟨hsound.2.1, hsound.1⟩
      · exact ⟨Nat.zero_le _, hsound⟩
    all_goals rw [hcell] at hr; cases hr
  linked {a r s} hr hs := by
    rw [remote_eq_ok] at hr
    rcases h.cells_eq a with ⟨p, hp, -⟩ | hcell | hcell
    · obtain ⟨phase, client, upstream⟩ := p
      rw [hp] at hr
      cases phase <;> cases hr <;> cases hs <;>
        exact ⟨_, server_eq_ok.mpr (by rw [hp]; rfl)⟩
    all_goals rw [hcell] at hr; cases hr

/-- The event loop under one configuration, with every connection within its bounds. -/
structure Bounded (g : Globals S) (w : World S) : Prop where
  described : Described (fun p => p.Sound g) w
  config : w.globals.config = g.config

theorem Bounded.sound (h : Bounded g w) : w.Sound :=
  sound_of_described (h.described.imp fun _ hp => hp.of_config h.config)

theorem bounded_start (g : Globals S) (remotePort : UInt16) : Bounded g (start g remotePort) :=
  ⟨described_start g remotePort, rfl⟩

theorem bounded_step (hS : S.Lawful) (hg : g.Configured) (h : Bounded g w) {e : Event S}
    (he : ¬ e.IsConfig) (hwhole : ¬ Guarded.Overruns w e) :
    ∃ w', w.step e = .ok w' ∧ Bounded g w' := by
  have hfresh : ∀ t, (Pair.fresh w.globals t).Sound g :=
    fun t => (Pair.sound_fresh w.globals t).of_config h.config.symm
  have hfire : ∀ x ans (p : Pair S), e = .fire x ans → w.cells x.addr = p.cell x.addr →
      p.Sound g → (p.onFire w.globals w.remotePort x ans).2.Sound g := by
    rintro x ans p rfl hcell hp
    refine (Pair.sound_onFire hS (hg.of_config h.config) (hp.of_config h.config) _ ?_).of_config
      h.config.symm
    intro hx sbuf half up rLen hphase piece hrecv hwraps
    apply hwhole
    refine ⟨x.addr, half.remote x.addr rLen true (some x.addr), piece, hx, ?_, ?_, rfl, hrecv,
      hwraps⟩
    · rw [isActive_eq hcell, hx, hphase]
      rfl
    · rw [hcell]
      simp [Pair.cell, hphase]
  obtain ⟨w', hstep, hdescribed⟩ := step_described hfresh hfire h.described
  exact ⟨w', hstep, hdescribed, (step_config h.described he hstep).trans h.config⟩

end World

namespace Guarded

open World

/-- A step is what it would be without the checks, unless a length wraps. -/
theorem step_eq (hS : S.Lawful) (hg : w.globals.Configured) (h : w.Sound) {e : Event S}
    (hwhole : ¬ Overruns w e) : step w e = pointed (w.step e) := by
  cases e with
  | accept attempts => rfl
  | config password name remotePort => rfl
  | fire x ans =>
    by_cases hactive : w.isActive x
    · simp only [step, World.step, if_pos hactive]
      cases x with
      | serverRecv a => exact serverRecvCb_eq hS hg fun hr => (h.remote hr).2.2
      | serverSend a => exact serverSendCb_eq fun server hs => h.server hs
      | remoteSend a => exact remoteSendCb_eq fun remote hr => (h.remote hr).1
      | remoteRecv a =>
        refine remoteRecvCb_eq hS hg (fun hr => (h.remote hr).2.1) ?_
        intro remote piece hr hserver hrecv hwraps
        exact hwhole ⟨a, remote, piece, rfl, hactive, remote_eq_ok.mp hr, hserver, hrecv, hwraps⟩
    · simp only [step, World.step, if_neg hactive]
      rfl

/-- A length that wraps is noticed. -/
theorem step_outside (h : w.Sound) {e : Event S} (hwraps : Overruns w e) :
    step w e = .error .outside := by
  cases e with
  | accept attempts => exact absurd hwraps id
  | config password name remotePort => exact absurd hwraps id
  | fire x ans =>
    obtain ⟨a, remote, piece, rfl, hactive, hremote, hserver, hrecv, hwraps⟩ := hwraps
    obtain ⟨s, hserver⟩ := Option.isSome_iff_exists.mp hserver
    have hr := remote_eq_ok.mpr hremote
    obtain ⟨server, hs⟩ := h.linked hr hserver
    simp only [step, if_pos hactive]
    exact remoteRecvCb_outside hr hserver hs hrecv hwraps

/-- Whatever the order of the events and the answers of the system: within one configuration no
callback touches a byte outside the block it means, and none follows a dangling pointer, as long
as the first piece from each remote holds the whole iv. Under salsa20 and chacha20 a shorter one
does lead outside. -/
theorem run_inside (hS : S.Lawful) (hg : g.Configured) (remotePort : UInt16) {es : List (Event S)}
    (hes : ∀ e ∈ es, ¬ e.IsConfig) :
    (Along (fun w e => ¬ Overruns w e) (start g remotePort) es →
      ∃ w, (start g remotePort).run es = .ok w ∧ run (start g remotePort) es = .ok w) ∧
    (IsSodium g.method → ¬ Along (fun w e => ¬ Overruns w e) (start g remotePort) es →
      run (start g remotePort) es = .error .outside) := by
  generalize hw : start g remotePort = w
  have h : Bounded g w := by
    rw [← hw]
    exact bounded_start g remotePort
  clear hw
  induction es generalizing w with
  | nil => exact ⟨fun _ => ⟨w, rfl, rfl⟩, fun _ h => absurd trivial h⟩
  | cons e es ih =>
    have he : ¬ e.IsConfig := hes e (List.mem_cons_self ..)
    by_cases hwraps : Overruns w e
    · refine ⟨fun halong => absurd hwraps halong.1, fun _ _ => ?_⟩
      rw [run, step_outside h.sound hwraps]
      rfl
    · obtain ⟨w', hstep, h'⟩ := bounded_step hS hg h he hwraps
      have hguarded := step_eq hS (hg.of_config h.config) h.sound hwraps
      rw [hstep, pointed_ok] at hguarded
      have hrun : run w (e :: es) = run w' es := by
        rw [run, hguarded]
        rfl
      have ih := ih (fun e' he' => hes e' (List.mem_cons_of_mem e he')) w' h'
      rw [along_cons hstep, run_cons hstep, hrun, and_iff_right hwraps]
      exact ih

/-- A page asked for, and an answer that comes with its iv. -/
theorem run_inside_salsa20 :
    let g := configEncryption (.zeroed Reference.openssl) [0x6b] "salsa20"
    let answer : Call := (.zeroed, ⟨List.replicate 16 7, by decide, by decide⟩)
    let es : List (Event Reference.openssl) :=
      opening _ 0 ++ [asking _ 0, .fire (.remoteRecv 0) (delivers answer)]
    ∃ w, (start g 0).run es = .ok w ∧ run (start g 0) es = .ok w := by
  intro g answer es
  have hg : g.Configured :=
    configured_configEncryption Reference.lawful_openssl (by decide) (.zeroed _) [0x6b]
  have hes : ∀ e ∈ es, ¬ e.IsConfig := by
    simp [es, opening, asking, Event.IsConfig]
  refine (run_inside Reference.lawful_openssl hg 0 hes).1 (along_of_forall ?_ _)
  intro e he w hwraps
  simp only [es, opening, asking, List.cons_append, List.nil_append, List.mem_cons,
    List.not_mem_nil, or_false] at he
  rcases he with rfl | rfl | rfl | rfl | rfl
  · exact hwraps
  · obtain ⟨_, _, _, hx, -⟩ := hwraps
    cases hx
  · obtain ⟨_, _, _, hx, -⟩ := hwraps
    cases hx
  · obtain ⟨_, _, _, hx, -⟩ := hwraps
    cases hx
  · obtain ⟨_, _, piece, -, -, -, -, hrecv, hnone⟩ := hwraps
    cases hrecv
    exact decryptBuf_ne_none _ _ _ (by decide) hnone

end Guarded

end Shadowsocks
