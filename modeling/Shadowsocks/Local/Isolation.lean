import Shadowsocks.Cipher.Scratch
import Shadowsocks.Library.Run
import Shadowsocks.Local.Tunnel

/-!
One connection among others. The event loop interleaves the callbacks of all connections, and
they share the configuration and one scratch buffer. A connection is nevertheless what it would
be if it had the event loop to itself: only its own part of the events matters.
-/
namespace Shadowsocks

open Memory

variable {S : OpenSSL} {g g₁ g₂ : Globals S} {w w' : World S} {k : Nat} {remotePort : UInt16}

/-- One of the events of a connection. -/
inductive Happening (S : OpenSSL)
  | accepted (t : Attempt S)
  | fired (x : Watcher) (ans : Answers S)

/-- A connection with an event loop to itself. -/
abbrev Alone (S : OpenSSL) := Globals S × Option (Slot S)

/-- What comes of an accept attempt. -/
def Slot.made (g : Globals S) (t : Attempt S) : Slot S :=
  if t.resolved ∧ t.socket then .pair (Pair.fresh g t) else .failed

namespace Alone

def step (remotePort : UInt16) (s : Alone S) : Happening S → Alone S
  | .accepted t =>
    match s.2 with
    | none => (s.1, some (.made s.1 t))
    | some _ => s
  | .fired x ans =>
    match s.2 with
    | some (.pair p) =>
      let (g, p) := p.onFire s.1 remotePort x ans
      (g, some (.pair p))
    | _ => s

def cell (k : Nat) (s : Alone S) : Cell S := s.2.elim .empty (Slot.cell k)

end Alone

namespace World

/-- The attempt that takes the number `k`, when the next number is `next`. -/
def attemptAt (k next : Nat) : List (Attempt S) → Option (Attempt S)
  | [] => none
  | t :: ts =>
    if k = next then some t
    else if t.resolved ∧ t.socket then none
    else attemptAt k (next + 1) ts

/-- The part of an event that is about the connection `k`. -/
def happening (k : Nat) (w : World S) : Event S → List (Happening S)
  | .accept attempts => (attemptAt k w.next attempts).toList.map .accepted
  | .fire x ans => if x.addr = k then [.fired x ans] else []
  | .config .. => []

/-- The callback hands `decrypt_buf` a first piece that is shorter than the iv. -/
def Wraps (k : Nat) (w : World S) : Event S → Prop
  | .fire x ans => x = .remoteRecv k ∧ w.isActive x ∧ ∃ r piece, (w.cells k).remote = some r ∧
      ans.recv = .data piece ∧
      decryptBuf ans.ambient w.globals r.recvEncryptionCtx piece.bytes = none
  | _ => False

end World

namespace Pair

variable {ans : Answers S} {p : Pair S}

/-- Both contexts are bounded. -/
def Bounded (p : Pair S) : Prop :=
  match p.phase with
  | .connecting _ h => h.recvCtx.Bounded ∧ h.sendCtx.Bounded
  | .handshake _ _ h => h.recvCtx.Bounded ∧ h.sendCtx.Bounded
  | .relay _ h _ _ _ => h.recvCtx.Bounded ∧ h.sendCtx.Bounded
  | _ => True

theorem bounded_fresh (g : Globals S) (t : Attempt S) : (fresh g t).Bounded :=
  ⟨(fresh_initEncryption g _).bounded, (fresh_initEncryption g _).bounded⟩

theorem fresh_of_config (hg : g₁.config = g₂.config) (t : Attempt S) :
    fresh g₁ t = fresh g₂ t := by
  rw [config_eq_iff] at hg
  rw [hg]
  rfl

/-! Two globals with the same configuration make no difference to a transition. -/

theorem relayUp_of_config (hg : g₁.config = g₂.config) {sbuf : Buffer} {h : Half S}
    (hb : h.sendCtx.Bounded) (rLen : Nat) (down : Option Nat) (piece : Piece) :
    (p.relayUp g₁ ans sbuf h rLen down piece.bytes).2 =
      (p.relayUp g₂ ans sbuf h rLen down piece.bytes).2 := by
  have hcall := encryptBuf_of_config hg hb ans.ambient piece.fits
  simp only [relayUp, front_memcpy_zero _ (length_le_bufferSize piece), hcall]

theorem relayDown_of_config (hg : g₁.config = g₂.config) {sbuf : Buffer} {h : Half S}
    (hb : h.recvCtx.Bounded) (up : Bool) (rLen : Nat) (piece : Piece) :
    (p.relayDown g₁ ans sbuf h up rLen piece.bytes).2 =
      (p.relayDown g₂ ans sbuf h up rLen piece.bytes).2 := by
  have hcall := decryptBuf_of_config hg hb ans.ambient piece.fits
  have hget : ((decryptBuf ans.ambient g₁ h.recvCtx piece.bytes).getD (g₁, ans.overrun)).2 =
      ((decryptBuf ans.ambient g₂ h.recvCtx piece.bytes).getD (g₂, ans.overrun)).2 := by
    generalize decryptBuf ans.ambient g₁ h.recvCtx piece.bytes = call₁ at hcall
    generalize decryptBuf ans.ambient g₂ h.recvCtx piece.bytes = call₂ at hcall
    cases call₁ <;> cases call₂ <;> simp_all
  simp only [relayDown, front_memcpy_zero _ (length_le_bufferSize piece), hget]

theorem request_of_config (hg : g₁.config = g₂.config) {h : Half S} (hb : h.sendCtx.Bounded)
    (remotePort : UInt16) (sbuf : Buffer) :
    (p.request g₁ ans remotePort sbuf h).2 = (p.request g₂ ans remotePort sbuf h).2 := by
  cases hparse : addrToSend sbuf with
  | error refusal => cases refusal <;> simp only [request, hparse]
  | ok header =>
    have hcall := encryptBuf_of_config hg hb ans.ambient (length_header hparse)
    simp only [request, hparse, hcall]
    split_ifs <;> rfl

theorem onFire_of_config (hg : g₁.config = g₂.config) (hp : p.Bounded) (remotePort : UInt16)
    (x : Watcher) (ans : Answers S) :
    (p.onFire g₁ remotePort x ans).2 = (p.onFire g₂ remotePort x ans).2 := by
  obtain ⟨phase, client, upstream⟩ := p
  cases x with
  | serverSend a => rfl
  | remoteSend a => rfl
  | serverRecv a =>
    rcases phase with ⟨sbuf, h⟩ | ⟨asked, sbuf, h⟩ | ⟨sbuf, h, _ | _, rLen, down⟩ |
      ⟨sbuf, _ | _⟩ | ⟨h, reading⟩ | _ <;> try rfl
    · simp only [onFire, onServerRecv]
      cases ans.recv with
      | data piece =>
        cases asked with
        | true => exact request_of_config hg hp.2 remotePort _
        | false => rfl
      | _ => rfl
    · simp only [onFire, onServerRecv]
      cases ans.recv with
      | data piece => exact relayUp_of_config hg hp.2 rLen down piece
      | _ => rfl
  | remoteRecv a =>
    rcases phase with ⟨sbuf, h⟩ | ⟨asked, sbuf, h⟩ | ⟨sbuf, h, up, rLen, _ | len⟩ |
      ⟨sbuf, reading⟩ | ⟨h, _ | _⟩ | _ <;> try rfl
    simp only [onFire, onRemoteRecv]
    cases ans.recv with
    | data piece => exact relayDown_of_config hg hp.1 up rLen piece
    | _ => rfl

/-! The contexts stay bounded as long as no length wraps. -/

theorem bounded_relayUp {sbuf : Buffer} {h : Half S} (hb : h.recvCtx.Bounded ∧ h.sendCtx.Bounded)
    (g : Globals S) (rLen : Nat) (down : Option Nat) (bytes : Bytes) :
    (p.relayUp g ans sbuf h rLen down bytes).2.Bounded := by
  have hctx := bounded_encryptBuf hb.2 ans.ambient g (front (memcpy h.buf 0 bytes) bytes.length)
  simp only [relayUp]
  split
  · trivial
  · exact ⟨hb.1, hctx⟩
  · exact ⟨hb.1, hctx⟩

theorem bounded_relayDown {sbuf : Buffer} {h : Half S} (hb : h.recvCtx.Bounded ∧ h.sendCtx.Bounded)
    (up : Bool) (rLen : Nat) {piece : Piece}
    (hwhole : decryptBuf ans.ambient g h.recvCtx piece.bytes ≠ none) :
    (p.relayDown g ans sbuf h up rLen piece.bytes).2.Bounded := by
  obtain ⟨call, hcall⟩ := Option.ne_none_iff_exists'.mp hwhole
  have hctx := bounded_decryptBuf hb.1 ans.ambient g piece.bytes hcall
  simp only [relayDown, front_memcpy_zero _ (length_le_bufferSize piece), hcall, Option.getD_some]
  split
  · trivial
  · exact ⟨hctx, hb.2⟩
  · exact ⟨hctx, hb.2⟩

theorem bounded_request {h : Half S} (hb : h.recvCtx.Bounded ∧ h.sendCtx.Bounded)
    (g : Globals S) (remotePort : UInt16) (sbuf : Buffer) :
    (p.request g ans remotePort sbuf h).2.Bounded := by
  simp only [request]
  split
  · trivial
  · trivial
  · next header _ =>
    have hctx := bounded_encryptBuf hb.2 ans.ambient g header
    split_ifs
    · trivial
    · trivial
    · exact ⟨hb.1, hctx⟩

theorem bounded_onFire (hp : p.Bounded) (g : Globals S) (remotePort : UInt16) {x : Watcher}
    (hwhole : x = .remoteRecv x.addr → ∀ sbuf h up rLen, p.phase = .relay sbuf h up rLen none →
      ∀ piece, ans.recv = .data piece →
        decryptBuf ans.ambient g h.recvCtx piece.bytes ≠ none) :
    (p.onFire g remotePort x ans).2.Bounded := by
  obtain ⟨phase, client, upstream⟩ := p
  cases x with
  | serverRecv a =>
    rcases phase with ⟨sbuf, h⟩ | ⟨asked, sbuf, h⟩ | ⟨sbuf, h, _ | _, rLen, down⟩ |
      ⟨sbuf, _ | _⟩ | ⟨h, reading⟩ | _ <;> try exact hp
    · simp only [onFire, onServerRecv]
      cases ans.recv with
      | data piece =>
        cases asked with
        | true => exact bounded_request hp g remotePort _
        | false => exact hp
      | again => exact hp
      | _ => trivial
    · simp only [onFire, onServerRecv]
      cases ans.recv with
      | data piece => exact bounded_relayUp hp g rLen down piece.bytes
      | again => exact hp
      | _ => trivial
  | serverSend a =>
    rcases phase with ⟨sbuf, h⟩ | ⟨asked, sbuf, h⟩ | ⟨sbuf, h, up, rLen, _ | len⟩ |
      ⟨sbuf, reading⟩ | ⟨h, reading⟩ | _ <;> try exact hp
    simp only [onFire, onServerSend]
    split_ifs
    · trivial
    · split
      · trivial
      · exact hp
      · exact hp
  | remoteRecv a =>
    rcases phase with ⟨sbuf, h⟩ | ⟨asked, sbuf, h⟩ | ⟨sbuf, h, up, rLen, _ | len⟩ |
      ⟨sbuf, reading⟩ | ⟨h, _ | _⟩ | _ <;> try exact hp
    have hwhole := hwhole rfl sbuf h up rLen rfl
    simp only [onFire, onRemoteRecv]
    cases hrecv : ans.recv with
    | data piece => exact bounded_relayDown hp up rLen (hwhole piece hrecv)
    | again => exact hp
    | _ => trivial
  | remoteSend a =>
    rcases phase with ⟨sbuf, h⟩ | ⟨asked, sbuf, h⟩ | ⟨sbuf, h, _ | _, rLen, down⟩ |
      ⟨sbuf, reading⟩ | ⟨h, reading⟩ | _ <;> try exact hp
    · simp only [onFire, onRemoteSend]
      split_ifs
      · exact hp
      · trivial
    · simp only [onFire, onRemoteSend]
      split_ifs
      · trivial
      · split
        · trivial
        · exact hp
        · exact hp

end Pair

namespace World

/-- The connection `k` of the event loop is the one that has an event loop to itself. -/
structure Matches (g : Globals S) (remotePort : UInt16) (k : Nat) (s : Alone S) (w : World S) :
    Prop where
  described : Described (fun _ => True) w
  config : w.globals.config = g.config
  port : w.remotePort = remotePort
  alone : s.1.config = g.config
  cell : w.cells k = s.cell k
  bounded : ∀ p, s.2 = some (.pair p) → p.Bounded
  taken : s.2.isSome ↔ k < w.next

theorem matches_start (g : Globals S) (remotePort : UInt16) (k : Nat) :
    Matches g remotePort k (g, none) (start g remotePort) where
  described := described_start g remotePort
  config := rfl
  port := rfl
  alone := rfl
  cell := rfl
  bounded := by simp
  taken := by simp [start]

/-- The attempts are numbered in the order in which `accept_cb` makes them, and it stops after
the first that succeeds. -/
theorem acceptCb_attemptAt {P : Pair S → Prop} (h : Described P w) {ts : List (Attempt S)}
    (hacc : w.acceptCb ts = .ok w') (hk : w.next ≤ k) :
    attemptAt k w.next ts = none ∧ w'.next ≤ k ∨
      ∃ t, attemptAt k w.next ts = some t ∧ k < w'.next ∧
        w'.cells k = (Slot.made w.globals t).cell k := by
  induction ts generalizing w with
  | nil =>
    cases hacc
    exact Or.inl ⟨rfl, hk⟩
  | cons t ts ih =>
    have hempty := h.future (Nat.le_refl _)
    by_cases ht : t.resolved ∧ t.socket
    · rw [acceptCb_ok hempty ht] at hacc
      cases hacc
      rcases Nat.eq_or_lt_of_le hk with rfl | hlt
      · refine Or.inr ⟨t, if_pos rfl, Nat.lt_succ_self _, ?_⟩
        rw [Slot.made, if_pos ht]
        exact put_cells ..
      · refine Or.inl ⟨?_, hlt⟩
        rw [attemptAt, if_neg (Nat.ne_of_gt hlt), if_pos ht]
    · rw [acceptCb_failed hempty ht] at hacc
      have hfail := h.advance .failed trivial
      rcases Nat.eq_or_lt_of_le hk with rfl | hlt
      · obtain ⟨-, -, hle, hcells⟩ := acceptCb_past hfail hacc
        refine Or.inr ⟨t, if_pos rfl, hle, ?_⟩
        rw [Slot.made, if_neg ht]
        exact (hcells _ (Nat.lt_succ_self _)).trans (put_cells ..)
      · rw [attemptAt, if_neg (Nat.ne_of_gt hlt), if_neg ht]
        exact ih hfail hacc hlt

theorem made_of_config (hg : g₁.config = g₂.config) (t : Attempt S) :
    Slot.made g₁ t = Slot.made g₂ t := by
  rw [Slot.made, Slot.made, Pair.fresh_of_config hg]

variable {s : Alone S} {e : Event S}

theorem matches_accept {attempts : List (Attempt S)} (h : Matches g remotePort k s w)
    (hstep : w.step (.accept attempts) = .ok w') :
    Matches g remotePort k
      (Run.after (Alone.step remotePort) s (w.happening k (.accept attempts))) w' := by
  obtain ⟨hglobals, hport, hle, hpast⟩ := acceptCb_past h.described hstep
  obtain ⟨w₁, hstep₁, hdescribed⟩ := step_described (e := .accept attempts) (fun _ => trivial)
    (fun _ _ _ _ _ _ => trivial) h.described
  cases hstep.symm.trans hstep₁
  have hconfig : w'.globals.config = g.config := by rw [hglobals, h.config]
  obtain ⟨own, slot⟩ := s
  cases slot with
  | some slot =>
    -- the number is taken
    have hk : k < w.next := h.taken.mp rfl
    have hidle : Run.after (Alone.step remotePort) (own, some slot)
        (w.happening k (.accept attempts)) = (own, some slot) := by
      rw [happening]
      cases attemptAt k w.next attempts <;> rfl
    rw [hidle]
    exact ⟨hdescribed, hconfig, hport.trans h.port, h.alone, (hpast k hk).trans h.cell, h.bounded,
      iff_of_true rfl (Nat.lt_of_lt_of_le hk hle)⟩
  | none =>
    have hk : w.next ≤ k := Nat.le_of_not_lt fun hlt => by simpa using h.taken.mpr hlt
    rcases acceptCb_attemptAt h.described hstep hk with ⟨hnone, hnext⟩ | ⟨t, hsome, hlt, hcell⟩
    · rw [happening, hnone]
      exact ⟨hdescribed, hconfig, hport.trans h.port, h.alone, hdescribed.future hnext, h.bounded,
        iff_of_false (by simp) (Nat.not_lt.mpr hnext)⟩
    · rw [happening, hsome]
      refine ⟨hdescribed, hconfig, hport.trans h.port, h.alone, ?_, ?_, iff_of_true rfl hlt⟩
      · rw [hcell, made_of_config (h.config.trans h.alone.symm)]
        rfl
      · intro p hp
        have hmade : Slot.made own t = .pair p := Option.some.inj hp
        rw [Slot.made] at hmade
        split_ifs at hmade
        cases hmade
        exact Pair.bounded_fresh own t

theorem matches_fire {x : Watcher} {ans : Answers S} (h : Matches g remotePort k s w)
    (hwhole : ¬ w.Wraps k (.fire x ans)) (hstep : w.step (.fire x ans) = .ok w') :
    Matches g remotePort k
      (Run.after (Alone.step remotePort) s (w.happening k (.fire x ans))) w' := by
  obtain ⟨w₁, hstep₁, hdescribed⟩ := step_described (e := .fire x ans) (fun _ => trivial)
    (fun _ _ _ _ _ _ => trivial) h.described
  cases hstep.symm.trans hstep₁
  have hconfig : w'.globals.config = g.config :=
    (step_config h.described (by simp [Event.IsConfig]) hstep).trans h.config
  by_cases hx : x.addr = k
  · rw [happening, if_pos hx]
    obtain ⟨own, slot⟩ := s
    by_cases hpair : ∃ p, slot = some (.pair p)
    · obtain ⟨p, rfl⟩ := hpair
      have hp : w.cells k = p.cell k := h.cell
      have hbounded := h.bounded p rfl
      obtain ⟨w₂, hstep₂, hcell, -, hport⟩ := step_fire_at hp hx ans
      cases hstep.symm.trans hstep₂
      have hsame := Pair.onFire_of_config (h.config.trans h.alone.symm) hbounded
        w.remotePort x ans
      have hlt : k < w'.next := hdescribed.lt_next hcell
      rw [h.port] at hcell hsame
      refine ⟨hdescribed, hconfig, hport.trans h.port, ?_, ?_, ?_, iff_of_true rfl hlt⟩
      · exact (Pair.onFire_config own remotePort x ans p).trans h.alone
      · rw [hcell, hsame]
        rfl
      · intro p' hp'
        cases hp'
        apply Pair.bounded_onFire hbounded
        intro hrecv sbuf half up rLen hphase piece hdata hnone
        rw [hx] at hrecv
        have hb : half.recvCtx.Bounded ∧ half.sendCtx.Bounded := by
          simpa only [Pair.Bounded, hphase] using hbounded
        have hcall := decryptBuf_of_config (h.config.trans h.alone.symm) hb.1 ans.ambient piece.fits
        rw [hnone, Option.map_none, Option.map_eq_none_iff] at hcall
        apply hwhole
        refine ⟨hrecv, ?_, half.remote k rLen true (some k), piece, ?_, hdata, hcall⟩
        · rw [isActive_eq (hx ▸ hp), hrecv, hphase]
          rfl
        · rw [hp]
          simp [Pair.cell, hphase]
    · have hnone : ¬ ∃ p : Pair S, w.cells x.addr = p.cell x.addr := by
        rintro ⟨p, hp⟩
        rw [hx] at hp
        have hcell := h.cell.symm.trans hp
        rcases slot with _ | ⟨p' | _⟩
        · cases congrArg Cell.upstream hcell
        · exact hpair ⟨p', rfl⟩
        · cases congrArg Cell.upstream hcell
      have hidle := step_fire_idle h.described hnone ans
      cases hstep.symm.trans hidle
      have hsame : Run.after (Alone.step remotePort) (own, slot) [.fired x ans] = (own, slot) := by
        rcases slot with _ | ⟨p' | _⟩
        · rfl
        · exact absurd ⟨p', rfl⟩ hpair
        · rfl
      rw [hsame]
      exact h
  · obtain ⟨hcell, hnext⟩ := step_fire_elsewhere h.described hx hstep
    have hport : w'.remotePort = w.remotePort := by
      by_cases hpair : ∃ p : Pair S, w.cells x.addr = p.cell x.addr
      · obtain ⟨p, hp⟩ := hpair
        cases hstep.symm.trans (step_fire hp ans)
        rfl
      · cases hstep.symm.trans (step_fire_idle h.described hpair ans)
        rfl
    rw [happening, if_neg hx]
    exact ⟨hdescribed, hconfig, hport.trans h.port, h.alone, hcell.trans h.cell, h.bounded,
      by rw [hnext]; exact h.taken⟩

theorem matches_step (h : Matches g remotePort k s w) (he : ¬ e.IsConfig)
    (hwhole : ¬ w.Wraps k e) (hstep : w.step e = .ok w') :
    Matches g remotePort k (Run.after (Alone.step remotePort) s (w.happening k e)) w' := by
  cases e with
  | accept attempts => exact matches_accept h hstep
  | fire x ans => exact matches_fire h hwhole hstep
  | config password name port => exact absurd trivial he

theorem matches_run {es : List (Event S)} (h : Matches g remotePort k s w)
    (hes : ∀ e ∈ es, ¬ e.IsConfig) (hwhole : Along (fun w e => ¬ w.Wraps k e) w es) :
    ∃ w', w.run es = .ok w' ∧
      Matches g remotePort k (Run.after (Alone.step remotePort) s (w.log (happening k) es)) w' := by
  induction es generalizing s w with
  | nil => exact ⟨w, rfl, h⟩
  | cons e es ih =>
    obtain ⟨w₁, hstep, -⟩ := step_described (e := e) (fun _ => trivial)
      (fun _ _ _ _ _ _ => trivial) h.described
    have h₁ := matches_step h (hes e (List.mem_cons_self ..)) hwhole.1 hstep
    obtain ⟨w', hrun, h'⟩ := ih h₁ (fun e' he' => hes e' (List.mem_cons_of_mem e he'))
      (hwhole.2 w₁ hstep)
    refine ⟨w', (run_cons hstep es).trans hrun, ?_⟩
    rw [log_cons _ hstep, Run.after_append]
    exact h'

/-- Whatever the other connections do and whatever they leave in the shared scratch buffer: the
objects, watchers, buffers, cipher contexts and sockets of a connection are those of a connection
that has an event loop and a scratch buffer to itself and goes through its own events only. -/
theorem run_isolated (k : Nat) (g : Globals S) (remotePort : UInt16) {es : List (Event S)}
    (hes : ∀ e ∈ es, ¬ e.IsConfig)
    (hwhole : Along (fun w e => ¬ w.Wraps k e) (start g remotePort) es) :
    ∃ w, (start g remotePort).run es = .ok w ∧
      w.cells k = (Run.after (Alone.step remotePort) (g, none)
        ((start g remotePort).log (happening k) es)).cell k := by
  obtain ⟨w, hrun, h⟩ := matches_run (matches_start g remotePort k) hes hwhole
  exact ⟨w, hrun, h.cell⟩

/-- One connection is opened while another one relays. -/
def openedTwo (S : OpenSSL) : List (Event S) :=
  opening S 0 ++ asking S 0 :: (opening S 1 ++ [asking S 1])

theorem run_openedTwo (hS : S.Lawful) (hg : g.Configured) (remotePort : UInt16)
    {traffic : List (Event S)} (hquiet : ∀ k, ∀ e ∈ traffic, ∀ w : World S, w.Undisturbed k e) :
    ∃ w w', (start g remotePort).run (openedTwo S) = .ok w ∧ w.stageOf 0 = some .relay ∧
      w.stageOf 1 = some .relay ∧ w.run traffic = .ok w' ∧ w'.stageOf 0 = some .relay ∧
      w'.stageOf 1 = some .relay := by
  obtain ⟨w₁, w₂, hopen, hask, hnext, hbefore, hafter⟩ :=
    run_opening (w := start g remotePort) (k := 0) hS hg rfl rfl
  obtain ⟨iv, header, c₀, u₀, hiv, -, -, -, hnone, hsteady, hfirst⟩ :=
    entered_of_run hS hg (not_isConfig_opening 0) hopen hask hbefore hafter
  have hstream := (CipherStream.chunkable_push hS).closed header (usable_start hS hg true hiv)
  obtain ⟨w₃, w₄, hopen', hask', -, hbefore', hafter'⟩ := run_opening (k := 1) hS
    (hg.of_config hsteady.config) hnext (hsteady.described.future (by omega))
  -- the events of the second connection are none of the first
  have helse : ∀ e ∈ opening S 1, ∀ w : World S, w.Undisturbed 0 e := by
    intro e he w
    simp only [opening, List.mem_cons, List.not_mem_nil, or_false] at he
    rcases he with rfl | rfl | rfl <;> simp [Undisturbed, Watcher.addr]
  obtain ⟨w, hrun, hsteady', hkept⟩ := run_along (relaying_step hS hg hstream hnone)
    ⟨hsteady, hfirst⟩ (along_of_forall helse _)
  cases hopen'.symm.trans hrun
  obtain ⟨iv', header', c₁, u₁, hiv', -, -, -, hnone', hsecond⟩ :=
    relaying_of_enters hS hg hsteady' hask' hbefore' hafter'
  have hstream' := (CipherStream.chunkable_push hS).closed header' (usable_start hS hg true hiv')
  obtain ⟨w, hstep, hsteady₄, hboth⟩ := relaying_step hS hg hstream hnone ⟨hsteady', hkept⟩
    (e := asking S 1) (by simp [asking, Undisturbed, Watcher.addr])
  cases hask'.symm.trans hstep
  obtain ⟨w₅, hrun₀, -, h₀⟩ := run_along (relaying_step hS hg hstream hnone) ⟨hsteady₄, hboth⟩
    (along_of_forall (hquiet 0) _)
  obtain ⟨w, hrun₁, -, h₁⟩ := run_along (relaying_step hS hg hstream' hnone') ⟨hsteady₄, hsecond⟩
    (along_of_forall (hquiet 1) _)
  cases hrun₀.symm.trans hrun₁
  refine ⟨w₄, w₅, ?_, stageOf_of_relaying hboth, stageOf_of_relaying hsecond, hrun₀,
    stageOf_of_relaying h₀, stageOf_of_relaying h₁⟩
  rw [openedTwo, run_append hopen, run_cons hask, run_append hopen', run_cons hask']
  rfl

/-- Two connections relay, and what their ends send goes through the scratch buffer in turn. -/
theorem run_isolated_interleaved :
    let g : Globals Reference.openssl := configEncryption (.zeroed _) [0x6b] "salsa20"
    let up (k : Nat) : Event Reference.openssl :=
      .fire (.serverRecv k) (trickles ⟨[7, 8], by decide, by decide⟩)
    let down (k : Nat) : Event Reference.openssl :=
      .fire (.remoteRecv k) (trickles ⟨List.replicate 18 9, by decide, by decide⟩)
    let traffic := [up 1, up 0, down 0, down 1]
    ∃ w w', (start g 0).run (openedTwo _) = .ok w ∧ w.stageOf 0 = some .relay ∧
      w.stageOf 1 = some .relay ∧ w.run traffic = .ok w' ∧ w'.stageOf 0 = some .relay ∧
      w'.stageOf 1 = some .relay ∧ w'.cells 0 = (Run.after (Alone.step 0) (g, none)
        ((start g 0).log (happening 0) (openedTwo _ ++ traffic))).cell 0 := by
  intro g up down traffic
  have hS := Reference.lawful_openssl
  have hname : Supported Reference.openssl "salsa20" := by decide
  have hg : g.Configured := configured_configEncryption hS hname _ _
  have hquiet : ∀ k, ∀ e ∈ traffic, ∀ w : World Reference.openssl, w.Undisturbed k e := by
    intro k e he w
    simp only [traffic, List.mem_cons, List.not_mem_nil, or_false] at he
    rcases he with rfl | rfl | rfl | rfl
    · exact undisturbed_trickles w (Or.inr rfl)
    · exact undisturbed_trickles w (Or.inr rfl)
    · exact undisturbed_trickles w (Or.inl (by decide))
    · exact undisturbed_trickles w (Or.inl (by decide))
  obtain ⟨w, w', hrun, h₀, h₁, hrun', h₀', h₁'⟩ := run_openedTwo hS hg 0 hquiet
  have hes : ∀ e ∈ openedTwo _ ++ traffic, ¬ e.IsConfig := by
    simp [openedTwo, traffic, up, down, opening, asking, Event.IsConfig]
  have hwhole : ∀ e ∈ openedTwo _ ++ traffic, ∀ w : World Reference.openssl, ¬ w.Wraps 0 e := by
    intro e he w hwraps
    cases e with
    | fire x ans =>
      obtain ⟨rfl, -, r, piece, -, hdata, hnone⟩ := hwraps
      obtain rfl : ans = trickles ⟨List.replicate 18 9, by decide, by decide⟩ := by
        simpa [openedTwo, opening, asking, traffic, up, down] using he
      cases hdata
      exact decryptBuf_ne_none _ _ _ (by decide) hnone
    | _ => exact hwraps
  obtain ⟨w₁, hall, hcell⟩ := run_isolated 0 g 0 hes (along_of_forall hwhole _)
  cases hall.symm.trans ((run_append hrun _).trans hrun')
  exact ⟨w, w', hrun, h₀, h₁, hrun', h₀', h₁', hcell⟩

end World

end Shadowsocks
