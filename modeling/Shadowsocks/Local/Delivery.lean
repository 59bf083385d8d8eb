import Shadowsocks.Library.Progress
import Shadowsocks.Local.Tunnel

/-!
Nothing gets stuck in the relay. As long as a started watcher for an output is eventually served
by a `send` that accepts something, every byte taken from one end reaches the other.
-/
namespace Shadowsocks

open Memory

variable {S : OpenSSL} {g : Globals S} {w w' : World S} {k : Nat} {name : String}

/-- The two ways through a connection. -/
inductive Way
  | up
  | down
  deriving DecidableEq, Repr

/-- The watcher whose callback offers the pending bytes of a way again. -/
def Way.drain (k : Nat) : Way → Watcher
  | up => .remoteSend k
  | down => .serverSend k

/-- The pending bytes of a way. -/
def Phase.pending : Phase S → Way → Bytes
  | .relay _ h up rLen _, .up => if up then front h.buf rLen else []
  | .relay sbuf _ _ _ down, .down => down.elim [] (front sbuf)
  | _, _ => []

namespace Pair

variable {ans : Answers S} {p : Pair S}

theorem Relays.phase_eq {stream : CipherStream S} {c₀ u₀ : Socket} (hp : p.Relays g stream c₀ u₀) :
    ∃ sbuf h up rLen down, p.phase = .relay sbuf h up rLen down := by
  obtain ⟨sbuf, h, up, rLen, down, got, sent, back, delivered, hphase, -⟩ := hp
  exact ⟨sbuf, h, up, rLen, down, hphase⟩

/-- What the sockets have received is not taken back. -/
structure Grows (p p' : Pair S) : Prop where
  client : p.client.received <+: p'.client.received
  upstream : p.upstream.received <+: p'.upstream.received

theorem grows_relayUp (g : Globals S) (ans : Answers S) (sbuf : Buffer) (h : Half S) (rLen : Nat)
    (down : Option Nat) (bytes : Bytes) : p.Grows (p.relayUp g ans sbuf h rLen down bytes).2 := by
  simp only [relayUp]
  split <;> exact ⟨List.prefix_rfl, List.prefix_rfl⟩

theorem grows_relayDown (g : Globals S) (ans : Answers S) (sbuf : Buffer) (h : Half S) (up : Bool)
    (rLen : Nat) (bytes : Bytes) : p.Grows (p.relayDown g ans sbuf h up rLen bytes).2 := by
  simp only [relayDown]
  split <;> exact ⟨List.prefix_rfl, List.prefix_rfl⟩

/-- In the relay stage. -/
theorem grows_onFire {sbuf : Buffer} {h : Half S} {up : Bool} {rLen : Nat} {down : Option Nat}
    (hp : p.phase = .relay sbuf h up rLen down) (g : Globals S) (remotePort : UInt16) (x : Watcher)
    (ans : Answers S) : p.Grows (p.onFire g remotePort x ans).2 := by
  cases x with
  | serverRecv a =>
    cases up with
    | true =>
      simp only [onFire, onServerRecv, hp]
      exact ⟨List.prefix_rfl, List.prefix_rfl⟩
    | false =>
      simp only [onFire, onServerRecv, hp]
      cases ans.recv with
      | data piece =>
        have hup := grows_relayUp (p := ⟨.relay sbuf h false rLen down,
          p.client.receive piece.bytes, p.upstream⟩) g ans sbuf h rLen down piece.bytes
        exact ⟨(List.prefix_append ..).trans hup.client, hup.upstream⟩
      | _ => exact ⟨List.prefix_rfl, List.prefix_rfl⟩
  | serverSend a =>
    cases down with
    | none =>
      simp only [onFire, onServerSend, hp]
      exact ⟨List.prefix_rfl, List.prefix_rfl⟩
    | some len =>
      simp only [onFire, onServerSend, hp]
      split_ifs
      · exact ⟨List.prefix_rfl, List.prefix_rfl⟩
      · split <;> exact ⟨List.prefix_rfl, List.prefix_rfl⟩
  | remoteRecv a =>
    cases down with
    | some len =>
      simp only [onFire, onRemoteRecv, hp]
      exact ⟨List.prefix_rfl, List.prefix_rfl⟩
    | none =>
      simp only [onFire, onRemoteRecv, hp]
      cases ans.recv with
      | data piece =>
        have hdown := grows_relayDown (p := ⟨.relay sbuf h up rLen none, p.client,
          p.upstream.receive piece.bytes⟩) g ans sbuf h up rLen piece.bytes
        exact ⟨hdown.client, (List.prefix_append ..).trans hdown.upstream⟩
      | _ => exact ⟨List.prefix_rfl, List.prefix_rfl⟩
  | remoteSend a =>
    cases up with
    | false =>
      simp only [onFire, onRemoteSend, hp]
      exact ⟨List.prefix_rfl, List.prefix_rfl⟩
    | true =>
      simp only [onFire, onRemoteSend, hp]
      split_ifs
      · exact ⟨List.prefix_rfl, List.prefix_rfl⟩
      · split <;> exact ⟨List.prefix_rfl, List.prefix_rfl⟩

/-! What a callback does to the pending bytes of a connection that stays in the relay stage. -/

variable {sbuf sbuf' : Buffer} {h h' : Half S} {up up' : Bool} {rLen rLen' : Nat}
  {down down' : Option Nat}

/-- The watcher of a way's output offers what is pending and keeps the rest. -/
theorem pending_onRemoteSend (hp : p.phase = .relay sbuf h true rLen down) (hpos : 0 < rLen)
    (hle : rLen ≤ bufferSize) (hcalm : ans.Calm) :
    (ans.send rLen).taken (front h.buf rLen) ++ (p.onRemoteSend ans).phase.pending .up =
      front h.buf rLen := by
  simp only [onRemoteSend, hp, if_neg (Nat.ne_of_gt hpos)]
  rcases offer_calm hcalm h.buf hle with ⟨hoffer, htaken⟩ | ⟨buf', len', hoffer, -, -, htaken⟩
  · simp [hoffer, htaken, Phase.pending]
  · simp [hoffer, htaken, Phase.pending]

theorem pending_onServerSend {len : Nat} (hp : p.phase = .relay sbuf h up rLen (some len))
    (hpos : 0 < len) (hle : len ≤ bufferSize) (hcalm : ans.Calm) :
    (ans.send len).taken (front sbuf len) ++ (p.onServerSend ans).phase.pending .down =
      front sbuf len := by
  simp only [onServerSend, hp, if_neg (Nat.ne_of_gt hpos)]
  rcases offer_calm hcalm sbuf hle with ⟨hoffer, htaken⟩ | ⟨buf', len', hoffer, -, -, htaken⟩
  · simp [hoffer, htaken, Phase.pending]
  · simp [hoffer, htaken, Phase.pending]

/-- The callbacks of the other way leave what is pending up as it is. -/
theorem pending_up_of_other (hp : p.phase = .relay sbuf h true rLen down) {x : Watcher}
    (hx : x ≠ .remoteSend x.addr) (remotePort : UInt16)
    (hp' : (p.onFire g remotePort x ans).2.phase = .relay sbuf' h' up' rLen' down') :
    (p.onFire g remotePort x ans).2.phase.pending .up = front h.buf rLen := by
  cases x with
  | remoteSend a => exact absurd rfl hx
  | serverRecv a => simp [onFire, onServerRecv, hp, Phase.pending]
  | serverSend a =>
    revert hp'
    simp only [onFire, onServerSend, hp]
    cases down with
    | none => simp [hp, Phase.pending]
    | some len =>
      dsimp only
      split_ifs
      · simp [shut]
      · split <;> simp [shut, Phase.pending]
  | remoteRecv a =>
    revert hp'
    simp only [onFire, onRemoteRecv, hp]
    cases down with
    | some len => simp [hp, Phase.pending]
    | none =>
      dsimp only
      cases ans.recv with
      | again => simp [hp, Phase.pending]
      | eof => simp
      | error => simp [shut]
      | data piece =>
        simp only [relayDown]
        split <;> simp [shut, Phase.pending]

theorem pending_down_of_other {len : Nat} (hp : p.phase = .relay sbuf h up rLen (some len))
    {x : Watcher} (hx : x ≠ .serverSend x.addr) (remotePort : UInt16)
    (hp' : (p.onFire g remotePort x ans).2.phase = .relay sbuf' h' up' rLen' down') :
    (p.onFire g remotePort x ans).2.phase.pending .down = front sbuf len := by
  cases x with
  | serverSend a => exact absurd rfl hx
  | remoteRecv a => simp [onFire, onRemoteRecv, hp, Phase.pending]
  | remoteSend a =>
    revert hp'
    simp only [onFire, onRemoteSend, hp]
    cases up with
    | false => simp [hp, Phase.pending]
    | true =>
      dsimp only
      split_ifs
      · simp [shut]
      · split <;> simp [shut, Phase.pending]
  | serverRecv a =>
    revert hp'
    simp only [onFire, onServerRecv, hp]
    cases up with
    | true => simp [hp, Phase.pending]
    | false =>
      dsimp only
      cases ans.recv with
      | again => simp [hp, Phase.pending]
      | eof => simp
      | error => simp [shut]
      | data piece =>
        simp only [relayUp]
        split <;> simp [shut, Phase.pending]

/-- Until it is drained, a way has no more pending than before, and less when its watcher is
served. -/
theorem pending_onFire {stream : CipherStream S} {c₀ u₀ : Socket} {g₁ : Globals S}
    (hp : p.Relays g stream c₀ u₀) {remotePort : UInt16} {x : Watcher}
    (hp' : (p.onFire g remotePort x ans).2.Relays g₁ stream c₀ u₀)
    (hcalm : p.phase.active x → ans.Calm) {way : Way} (hne : p.phase.pending way ≠ []) :
    ∃ bytes, bytes ++ (p.onFire g remotePort x ans).2.phase.pending way = p.phase.pending way ∧
      (x = way.drain x.addr → ∃ n, 0 < n ∧ bytes = (ans.send n).taken (p.phase.pending way)) := by
  obtain ⟨sbuf, h, up, rLen, down, got, sent, back, delivered, hphase, -, hup, hdown⟩ := hp
  obtain ⟨sbuf', h', up', rLen', down', hphase'⟩ := hp'.phase_eq
  cases way with
  | up =>
    cases up with
    | false => simp [hphase, Phase.pending] at hne
    | true =>
      have hpending : p.phase.pending .up = front h.buf rLen := by simp [hphase, Phase.pending]
      by_cases hx : x = .remoteSend x.addr
      · obtain ⟨hpos, hle⟩ := hup.pending rfl
        have hact : p.phase.active x = true := by
          rw [hx, hphase]
          rfl
        have honly := pending_onRemoteSend hphase hpos hle (hcalm hact)
        rw [hx, hpending]
        exact ⟨_, honly, fun _ => ⟨rLen, hpos, rfl⟩⟩
      · refine ⟨[], ?_, fun h => absurd h hx⟩
        rw [hpending, List.nil_append, pending_up_of_other hphase hx remotePort hphase']
  | down =>
    cases down with
    | none => simp [hphase, Phase.pending] at hne
    | some len =>
      have hpending : p.phase.pending .down = front sbuf len := by simp [hphase, Phase.pending]
      by_cases hx : x = .serverSend x.addr
      · obtain ⟨hpos, hle⟩ := hdown.pending len rfl
        have hact : p.phase.active x = true := by
          rw [hx, hphase]
          rfl
        have honly := pending_onServerSend hphase hpos hle (hcalm hact)
        rw [hx, hpending]
        exact ⟨_, honly, fun _ => ⟨len, hpos, rfl⟩⟩
      · refine ⟨[], ?_, fun h => absurd h hx⟩
        rw [hpending, List.nil_append, pending_down_of_other hphase hx remotePort hphase']

end Pair

theorem Answers.Quiet.calm {ans : Answers S} {ivLen : Nat} {back : Bytes} {x : Watcher}
    (h : ans.Quiet ivLen back x) : ans.Calm := by
  cases x with
  | serverRecv a => exact h.1
  | serverSend a => exact h
  | remoteRecv a => exact h.1
  | remoteSend a => exact h

namespace World

def pending (w : World S) (k : Nat) : Way → Bytes
  | .up => w.pendingUp k
  | .down => w.pendingDown k

theorem pending_eq {p : Pair S} (hp : w.cells k = p.cell k) {sbuf : Buffer} {h : Half S}
    {up : Bool} {rLen : Nat} {down : Option Nat} (hphase : p.phase = .relay sbuf h up rLen down)
    (way : Way) : w.pending k way = p.phase.pending way := by
  cases way with
  | up => rw [pending, pendingUp_eq hp hphase, hphase, Phase.pending]
  | down => rw [pending, pendingDown_eq hp hphase, hphase, Phase.pending]

/-- The watcher's callback is called, and `send` accepts some of what it is given. -/
def Serves (x : Watcher) (e : Event S) : Prop :=
  ∃ ans, e = .fire x ans ∧ ∀ n, 0 < n → ∃ c, 0 < c ∧ ans.send n = .accepted c

variable {stream : CipherStream S} {c₀ u₀ : Socket} {e : Event S}

/-- A way has bytes pending exactly while the watcher that drains it is started. -/
theorem isActive_drain (h : Relaying k stream c₀ u₀ w) (way : Way) :
    w.isActive (way.drain k) = true ↔ w.pending k way ≠ [] := by
  obtain ⟨p, hp, sbuf, h, up, rLen, down, got, sent, back, delivered, hphase, -, hup, hdown⟩ := h
  have hfront : ∀ (buf : Buffer) (len : Nat), 0 < len ∧ len ≤ bufferSize →
      front buf len ≠ [] := by
    intro buf len hlen
    apply List.ne_nil_of_length_pos
    rw [length_front buf hlen.2]
    exact hlen.1
  rw [pending_eq hp hphase, hphase]
  cases way with
  | up =>
    rw [Way.drain, isActive_eq (x := .remoteSend k) hp, hphase]
    cases up with
    | false => simp [Phase.active, Phase.remoteSend, Phase.pending]
    | true => exact iff_of_true rfl (hfront h.buf rLen (hup.pending rfl))
  | down =>
    rw [Way.drain, isActive_eq (x := .serverSend k) hp, hphase]
    cases down with
    | none => simp [Phase.active, Phase.pending]
    | some len => exact iff_of_true rfl (hfront sbuf len (hdown.pending len rfl))

/-- An event that leaves the connection undisturbed adds nothing to a way that has bytes pending,
and takes from it when it serves its watcher. -/
theorem pending_step (hS : S.Lawful) (hg : g.Configured) (hstream : stream.Usable)
    (hu₀ : u₀.received = []) (h : Steady g w ∧ Relaying k stream c₀ u₀ w)
    (he : w.Undisturbed k e) (hstep : w.step e = .ok w') {way : Way}
    (hne : w.pending k way ≠ []) :
    (w'.pending k way).length ≤ (w.pending k way).length ∧
      (Serves (way.drain k) e → (w'.pending k way).length < (w.pending k way).length) := by
  obtain ⟨hsteady, p, hp, hrelays⟩ := h
  obtain ⟨_, _, _, _, _, hphase⟩ := hrelays.phase_eq
  rw [pending_eq hp hphase] at hne ⊢
  rcases step_seen hsteady.described hp hstep with ⟨x, ans, rfl, hx, hcell, -⟩ | ⟨helse, hcell⟩
  · have hquiet : p.phase.active x →
        ans.Quiet (encryptionIvLen w.globals.method) p.upstream.received x :=
      fun hact => he hx (by rwa [isActive_eq (hx ▸ hp)]) _ (by rw [hp]; rfl)
    have hrelays' := Pair.relays_onFire hS (hg.of_config hsteady.config) hstream hu₀ hrelays
      w.remotePort hquiet
    obtain ⟨bytes, hbytes, hserved⟩ := Pair.pending_onFire hrelays hrelays'
      (fun hact => (hquiet hact).calm) hne
    obtain ⟨_, _, _, _, _, hphase'⟩ := hrelays'.phase_eq
    rw [pending_eq hcell hphase', ← hbytes, List.length_append]
    refine ⟨by omega, ?_⟩
    rintro ⟨ans', heq, haccepts⟩
    cases heq
    obtain ⟨n, hn, rfl⟩ := hserved (by rw [hx])
    obtain ⟨c, hc, hsend⟩ := haccepts n hn
    have hpos := List.length_pos_of_ne_nil hne
    rw [hsend, SendResult.taken, List.length_take]
    omega
  · rw [pending_eq hcell hphase]
    refine ⟨Nat.le_refl _, ?_⟩
    rintro ⟨ans, rfl, -⟩
    cases way <;> exact absurd rfl helse

/-- Other events do not take back what the sockets have received, either. -/
theorem grows_step (hsteady : Steady g w) (h : Relaying k stream c₀ u₀ w)
    (hstep : w.step e = .ok w') {c u c' u' : Socket} (hc : (w.cells k).client = some c)
    (hu : (w.cells k).upstream = some u) (hc' : (w'.cells k).client = some c')
    (hu' : (w'.cells k).upstream = some u') :
    c.received <+: c'.received ∧ u.received <+: u'.received := by
  obtain ⟨p, hp, hrelays⟩ := h
  obtain ⟨_, _, _, _, _, hphase⟩ := hrelays.phase_eq
  rw [hp] at hc hu
  cases hc
  cases hu
  rcases step_seen hsteady.described hp hstep with ⟨x, ans, rfl, -, hcell, -⟩ | ⟨-, hcell⟩
  · have hgrows := Pair.grows_onFire hphase w.globals w.remotePort x ans
    rw [hcell] at hc' hu'
    cases hc'
    cases hu'
    exact ⟨hgrows.client, hgrows.upstream⟩
  · rw [hcell] at hc' hu'
    cases hc'
    cases hu'
    exact ⟨List.prefix_rfl, List.prefix_rfl⟩

/-- The event loop running without end. -/
abbrev Execution (S : OpenSSL) :=
  Progress.Execution fun (w : World S) (e : Event S) (w' : World S) => w.step e = .ok w'

variable {E : Execution S} {m : Nat}

/-- From some time on nothing disturbs the connection, and a watcher that drains one of its
ways does not stay started without being served. -/
structure Attended (E : Execution S) (k m : Nat) : Prop where
  undisturbed : ∀ n, m ≤ n → Undisturbed k (E.state n) (E.event n)
  served : ∀ n, m ≤ n → ∀ way : Way, (E.state n).isActive (way.drain k) →
    ∃ n', n ≤ n' ∧ Serves (way.drain k) (E.event n')

/-- What each way has carried by some time from its end to the other by a later one. -/
def PassesOn (server : Session S) (E : Execution S) (k : Nat) (header : Bytes) (m n : Nat) : Prop :=
  ∃ c₀ c u got, ((E.state m).cells k).client = some c₀ ∧ ((E.state n).cells k).client = some c ∧
    ((E.state n).cells k).upstream = some u ∧ c.received = c₀.received ++ got ∧
    (∃ n', n ≤ n' ∧ ∃ u', ((E.state n').cells k).upstream = some u' ∧
      ∀ calls, contents calls = u'.accepted →
        (∀ call ∈ calls.head?, encryptionIvLen server.1.method ≤ call.bytes.length) →
        ∃ rest, (decryptAll server calls).map Prod.snd = some (header ++ (got ++ rest))) ∧
    ∃ n', n ≤ n' ∧ ∃ c', ((E.state n').cells k).client = some c' ∧
      ∀ calls s sent, encryptAll server calls = some (s, sent) → u.received <+: sent →
        c₀.accepted ++
          (contents calls).take (u.received.length - encryptionIvLen server.1.method) <+:
            c'.accepted

theorem relaying_from (hS : S.Lawful) (hg : g.Configured) (hstream : stream.Usable)
    (hu₀ : u₀.received = []) (hE : Attended E k m)
    (h : Steady g (E.state m) ∧ Relaying k stream c₀ u₀ (E.state m)) :
    ∀ n, m ≤ n → Steady g (E.state n) ∧ Relaying k stream c₀ u₀ (E.state n) := by
  refine Progress.Execution.holds_from E
    (fun w => Steady g w ∧ Relaying k stream c₀ u₀ w) h ?_
  intro n hn h
  obtain ⟨w', hstep, h'⟩ := relaying_step hS hg hstream hu₀ h (hE.undisturbed n hn)
  cases hstep.symm.trans (E.step n)
  exact h'

/-- Each way is drained again and again. -/
theorem eventually_drained (hS : S.Lawful) (hg : g.Configured) (hstream : stream.Usable)
    (hu₀ : u₀.received = []) (hE : Attended E k m)
    (h : ∀ n, m ≤ n → Steady g (E.state n) ∧ Relaying k stream c₀ u₀ (E.state n)) (way : Way)
    {n : Nat} (hn : m ≤ n) : ∃ n', n ≤ n' ∧ (E.state n').pending k way = [] := by
  have hlower : ∀ i, n ≤ i → ¬ (E.state i).pending k way = [] → _ := fun i hi hne =>
    pending_step hS hg hstream hu₀ (h i (by omega)) (hE.undisturbed i (by omega)) (E.step i) hne
  apply Progress.Execution.eventually_of_rank E (fun w => w.pending k way = [])
    (fun w => (w.pending k way).length) (fun i => Serves (way.drain k) (E.event i))
  · intro i hi hne
    exact Or.inr (hlower i hi hne).1
  · intro i hi hhelps hne
    exact Or.inr ((hlower i hi hne).2 hhelps)
  · intro i hi hne
    exact hE.served i (by omega) way ((isActive_drain (h i (by omega)).2 way).mpr hne)

/-- What the sockets have received only grows. -/
theorem received_mono
    (h : ∀ n, m ≤ n → Steady g (E.state n) ∧ Relaying k stream c₀ u₀ (E.state n)) {n : Nat}
    (hn : m ≤ n) {c u : Socket} (hc : ((E.state n).cells k).client = some c)
    (hu : ((E.state n).cells k).upstream = some u) :
    ∀ n', n ≤ n' → ∀ c' u', ((E.state n').cells k).client = some c' →
      ((E.state n').cells k).upstream = some u' →
      c.received <+: c'.received ∧ u.received <+: u'.received := by
  intro n' hn'
  induction n', hn' using Nat.le_induction with
  | base =>
    intro c' u' hc' hu'
    cases hc.symm.trans hc'
    cases hu.symm.trans hu'
    exact ⟨List.prefix_rfl, List.prefix_rfl⟩
  | succ i hi ih =>
    intro c' u' hc' hu'
    obtain ⟨hsteady, hrelaying⟩ := h i (by omega)
    have hcells := hrelaying
    obtain ⟨p, hp, -⟩ := hcells
    have hpc : ((E.state i).cells k).client = some p.client := by rw [hp]; rfl
    have hpu : ((E.state i).cells k).upstream = some p.upstream := by rw [hp]; rfl
    obtain ⟨hci, hui⟩ := ih _ _ hpc hpu
    obtain ⟨hcs, hus⟩ := grows_step hsteady hrelaying (E.step i) hpc hpu hc' hu'
    exact ⟨hci.trans hcs, hui.trans hus⟩

/-- What a relaying connection has taken in and handed on. -/
theorem taken_of_relaying (hS : S.Lawful) (hname : Supported S name) (old old' : Globals S)
    {password : Bytes} (mem' : EncryptionCtx S)
    (hconf : w.globals.config = (configEncryption old password name).config)
    (hnone : u₀.received = []) (h : Relaying k stream c₀ u₀ w) :
    ∃ c u got delivered, (w.cells k).client = some c ∧ (w.cells k).upstream = some u ∧
      c.received = c₀.received ++ got ∧ c.accepted = c₀.accepted ++ delivered ∧
      delivered ++ w.pendingDown k = decryption (configEncryption old password name) u.received ∧
      (∀ more, decryption (configEncryption old password name) u.received <+:
        decryption (configEncryption old password name) (u.received ++ more)) ∧
      ∀ calls s sent, encryptAll (openSession old' password name mem') calls = some (s, sent) →
        u.received <+: sent →
        decryption (configEncryption old password name) u.received =
          (contents calls).take (u.received.length -
            encryptionIvLen (openSession old' password name mem').1.method) := by
  obtain ⟨p, hp, sbuf, half, up, rLen, down, got, sent, back, delivered, hphase, hledger, -,
    hdown⟩ := h
  have hg := configured_configEncryption hS hname old password
  have hback : p.upstream.received = back := by
    rw [hledger.back, hnone, List.nil_append]
  have hdown := hdown.of_config hconf.symm
  refine ⟨p.client, p.upstream, got, delivered, by rw [hp]; rfl, by rw [hp]; rfl, hledger.got,
    hledger.delivered, ?_, ?_, ?_⟩
  · rw [pendingDown_eq hp hphase, hback, hdown.conserved]
  · intro more
    rw [hback]
    rcases hdown.carries with ⟨rfl, -⟩ | ⟨iv, m, rfl, hiv, -⟩
    · exact List.nil_prefix
    · rw [List.append_assoc, decryption_append hS hg hiv, decryption_append hS hg hiv,
        (CipherStream.chunkable_push hS).push_append m more (usable_start hS hg false hiv)]
      exact List.prefix_append ..
  · intro calls s sent' hcalls hprefix
    rw [hback] at hprefix ⊢
    have := hdown.eq_take hS hname old old' rfl hcalls hprefix
    rw [← hdown.conserved, this, configEncryption_method, openSession, configEncryption_method]

theorem passesOn_of_relaying (hS : S.Lawful) (hname : Supported S name) (old old' : Globals S)
    {password : Bytes} (mem' : EncryptionCtx S) {iv header : Bytes}
    (hiv : iv.length = encryptionIvLen (configEncryption old password name).method)
    (hheader : header ≠ []) (hc₀ : ((E.state m).cells k).client = some c₀)
    (hsent : u₀.accepted = iv ++ oneShot (configEncryption old password name) iv header)
    (hnone : u₀.received = []) (hE : Attended E k m)
    (h : ∀ n, m ≤ n → Steady (configEncryption old password name) (E.state n) ∧
      Relaying k ((CipherStream.start (configEncryption old password name) true iv).push header).1
        c₀ u₀ (E.state n)) {n : Nat} (hn : m ≤ n) :
    PassesOn (openSession old' password name mem') E k header m n := by
  have hg := configured_configEncryption hS hname old password
  have hstream := (CipherStream.chunkable_push hS).closed header (usable_start hS hg true hiv)
  obtain ⟨c, u, got, delivered, hc, hu, hgot, -, -, hmono, htake⟩ := taken_of_relaying hS hname old
    old' mem' (h n hn).1.config hnone (h n hn).2
  refine ⟨c₀, c, u, got, hc₀, hc, hu, hgot, ?_, ?_⟩
  · obtain ⟨n', hn', hdrained⟩ := eventually_drained hS hg hstream hnone hE h .up hn
    have hlate := h n' (by omega)
    obtain ⟨c₁, c', u', got', -, hc₁, hc', hu', hgot', -, -, hserver, -⟩ := tunnels_of_relaying hS
      hname old old' mem' rfl hiv hheader hc₀ hsent hnone hlate.1.config hlate.2
    cases hc₀.symm.trans hc₁
    have hlen : ((E.state n').pendingUp k).length = 0 := congrArg List.length hdrained
    obtain ⟨rest, hrest⟩ := (received_mono h hn hc hu n' hn' c' u' hc' hu').1
    rw [hgot, hgot', List.append_assoc, List.append_cancel_left_eq] at hrest
    refine ⟨n', hn', u', hu', ?_⟩
    intro calls hcalls hlong
    refine ⟨rest, ?_⟩
    rw [hserver calls hcalls hlong, hlen, Nat.sub_zero, List.take_length, hrest]
  · obtain ⟨n', hn', hdrained⟩ := eventually_drained hS hg hstream hnone hE h .down hn
    have hlate := h n' (by omega)
    obtain ⟨c', u', got', delivered', hc', hu', -, hdelivered', hconserved, -, -⟩ :=
      taken_of_relaying hS hname old old' mem' hlate.1.config hnone hlate.2
    have hnil : (E.state n').pendingDown k = [] := hdrained
    rw [hnil, List.append_nil] at hconserved
    obtain ⟨more, hmore⟩ := (received_mono h hn hc hu n' hn' c' u' hc' hu').2
    refine ⟨n', hn', c', hc', ?_⟩
    intro calls s sent' hcalls hprefix
    rw [← htake calls s sent' hcalls hprefix, hdelivered', hconserved, ← hmore]
    exact (List.prefix_append_right_inj _).mpr (hmono more)

/-- In every endless execution of the event loop under one configuration: from the event that
serves the request on, whatever the client has sent by some time is read by the server later, and
whatever has come back of what the server wrote is accepted by the client later. -/
theorem eventually_passesOn (hS : S.Lawful) (hname : Supported S name) (old old' : Globals S)
    (password : Bytes) (mem' : EncryptionCtx S) {remotePort : UInt16}
    (hstart : E.state 0 = start (configEncryption old password name) remotePort)
    (hes : ∀ n, n ≤ m → ¬ (E.event n).IsConfig) (hbefore : (E.state m).stageOf k ≠ some .relay)
    (hafter : (E.state (m + 1)).stageOf k = some .relay) (hE : Attended E k (m + 1)) :
    ∃ header, (E.state m).Requests k (E.event m) header ∧
      ∀ n, m < n → PassesOn (openSession old' password name mem') E k header (m + 1) n := by
  have hg := configured_configEncryption hS hname old password
  have hsteady : ∀ n, n ≤ m + 1 → Steady (configEncryption old password name) (E.state n) := by
    intro n hn
    induction n with
    | zero =>
      rw [hstart]
      exact steady_start _ remotePort
    | succ n ih =>
      obtain ⟨w', hstep, h'⟩ := steady_step (ih (by omega)) (hes n (by omega))
      cases hstep.symm.trans (E.step n)
      exact h'
  obtain ⟨iv, header, c₀, u₀, hreq, hheader, hiv, hc₀, hu₀, hsent, hnone, hrelaying⟩ :=
    relaying_of_request hS hg (hsteady m (by omega)) (E.step m) hbefore hafter
  have hstream := (CipherStream.chunkable_push hS).closed header (usable_start hS hg true hiv)
  have hfrom := relaying_from hS hg hstream hnone hE ⟨hsteady (m + 1) (by omega), hrelaying⟩
  refine ⟨header, hreq, ?_⟩
  intro n hn
  exact passesOn_of_relaying hS hname old old' mem' hiv hheader hc₀ hsent hnone hE hfrom hn

theorem exists_execution (g : Globals S) (remotePort : UInt16) (events : Nat → Event S) :
    ∃ E : Execution S, E.state 0 = start g remotePort ∧ E.event = events := by
  refine Progress.Execution.exists_of_total (J := Described fun _ : Pair S => True) ?_
    (described_start g remotePort) events
  intro w e h
  exact step_described (fun _ => trivial) (fun _ _ _ _ _ _ => trivial) h

/-- After its request both ends keep sending the same bytes. -/
def chatter (S : OpenSSL) : Nat → Event S
  | 0 => .accept [attempt S]
  | 1 => .fire (.remoteSend 0) connects
  | 2 => .fire (.serverRecv 0) (delivers greeting)
  | 3 => asking S 0
  | n + 4 =>
    if n % 4 = 0 then .fire (.serverRecv 0) (trickles ⟨[7, 8], by decide, by decide⟩)
    else if n % 4 = 1 then .fire (.remoteSend 0) connects
    else if n % 4 = 2 then
      .fire (.remoteRecv 0) (trickles ⟨List.replicate 18 9, by decide, by decide⟩)
    else .fire (.serverSend 0) connects

theorem chatter_serverRecv (S : OpenSSL) (i : Nat) :
    chatter S (4 * i + 4) =
      .fire (.serverRecv 0) (trickles ⟨[7, 8], by decide, by decide⟩) := by
  rw [chatter, if_pos (by omega)]

theorem chatter_remoteSend (S : OpenSSL) (i : Nat) :
    chatter S (4 * i + 5) = .fire (.remoteSend 0) connects := by
  rw [chatter, if_neg (by omega), if_pos (by omega)]

theorem chatter_remoteRecv (S : OpenSSL) (i : Nat) :
    chatter S (4 * i + 6) =
      .fire (.remoteRecv 0) (trickles ⟨List.replicate 18 9, by decide, by decide⟩) := by
  rw [chatter, if_neg (by omega), if_neg (by omega), if_pos (by omega)]

theorem chatter_serverSend (S : OpenSSL) (i : Nat) :
    chatter S (4 * i + 7) = .fire (.serverSend 0) connects := by
  rw [chatter, if_neg (by omega), if_neg (by omega), if_neg (by omega)]

theorem attended_chatter {E : Execution S} (hE : E.event = chatter S) : Attended E 0 4 where
  undisturbed n hn := by
    obtain ⟨i, h | h | h | h⟩ : ∃ i, n = 4 * i + 4 ∨ n = 4 * i + 5 ∨ n = 4 * i + 6 ∨
        n = 4 * i + 7 := ⟨(n - 4) / 4, by omega⟩
    · rw [hE, h, chatter_serverRecv]
      exact undisturbed_trickles _ (Or.inr rfl)
    · rw [hE, h, chatter_remoteSend]
      exact undisturbed_connects _ _
    · rw [hE, h, chatter_remoteRecv]
      exact undisturbed_trickles _ (Or.inl (by decide))
    · rw [hE, h, chatter_serverSend]
      exact undisturbed_connects _ _
  served n hn way _ := by
    have hserves : ∀ x, Serves x (.fire x (connects : Answers S)) :=
      fun x => ⟨_, rfl, fun n hn => ⟨n, hn, rfl⟩⟩
    cases way with
    | up =>
      refine ⟨4 * n + 5, by omega, ?_⟩
      rw [hE, chatter_remoteSend]
      exact hserves _
    | down =>
      refine ⟨4 * n + 7, by omega, ?_⟩
      rw [hE, chatter_serverSend]
      exact hserves _

/-- Again and again bytes wait for either end. -/
theorem eventually_passesOn_salsa20 :
    let old : Globals Reference.openssl := .zeroed _
    ∃ E : Execution Reference.openssl,
      E.state 0 = start (configEncryption old [0x6b] "salsa20") 0 ∧
      E.event = chatter Reference.openssl ∧
      (∀ i, (E.state (4 * i + 5)).pending 0 .up ≠ [] ∧
        (E.state (4 * i + 7)).pending 0 .down ≠ []) ∧
      ∃ header, (E.state 3).Requests 0 (E.event 3) header ∧
        ∀ n, 3 < n → PassesOn (openSession old [0x6b] "salsa20" (.zeroed _)) E 0 header 4 n := by
  intro old
  have hname : Supported Reference.openssl "salsa20" := by decide
  have hS := Reference.lawful_openssl
  have hg := configured_configEncryption hS hname old [0x6b]
  obtain ⟨E, hstart, hE⟩ := exists_execution (configEncryption old [0x6b] "salsa20") 0
    (chatter Reference.openssl)
  obtain ⟨w, w', hrun, hstep, -, hbefore, hafter⟩ :=
    run_opening (w := start (configEncryption old [0x6b] "salsa20") 0) (k := 0) hS hg rfl rfl
  have hstep0 := E.step 0
  have hstep1 := E.step 1
  have hstep2 := E.step 2
  have hstep3 := E.step 3
  rw [hE] at hstep0 hstep1 hstep2 hstep3
  rw [hstart] at hstep0
  have hopening := ((run_cons hstep0 _).trans (run_cons hstep1 _)).trans (run_cons hstep2 [])
  cases hrun.symm.trans hopening
  cases hstep.symm.trans hstep3
  have hes : ∀ n, n ≤ 3 → ¬ (E.event n).IsConfig := by
    intro n hn
    rw [hE]
    rcases n with _ | _ | _ | _ | n
    · simp [chatter, Event.IsConfig]
    · simp [chatter, Event.IsConfig]
    · simp [chatter, Event.IsConfig]
    · simp [chatter, asking, Event.IsConfig]
    · omega
  have hattended := attended_chatter hE
  obtain ⟨header, hreq, hpasses⟩ := eventually_passesOn hS hname old old [0x6b] (.zeroed _) hstart
    hes hbefore hafter hattended
  refine ⟨E, hstart, hE, ?_, header, hreq, hpasses⟩
  obtain ⟨iv, header', c₀, u₀, hiv, -, -, -, hnone, hsteady, hrelaying⟩ := entered_of_run hS hg
    (not_isConfig_opening 0) hrun hstep hbefore hafter
  have hstream := (CipherStream.chunkable_push hS).closed header' (usable_start hS hg true hiv)
  have hfrom := relaying_from hS hg hstream hnone hattended ⟨hsteady, hrelaying⟩
  intro i
  have hup := E.step (4 * i + 4)
  have hdown := E.step (4 * i + 6)
  rw [hE, chatter_serverRecv] at hup
  rw [hE, chatter_remoteRecv] at hdown
  have hbusy := (hfrom (4 * i + 6) (by omega))
  constructor
  · apply (isActive_drain (hfrom (4 * i + 5) (by omega)).2 .up).mp
    exact (held_serverRecv hS (hfrom (4 * i + 4) (by omega)).2 rfl (fun _ => rfl) (by decide)
      hup).1
  · apply (isActive_drain (hfrom (4 * i + 7) (by omega)).2 .down).mp
    refine (held_remoteRecv hS (hg.of_config hbusy.1.config) hbusy.2 rfl (fun _ => rfl) ?_
      hdown).1
    have hle := ivLen_le (E.state (4 * i + 6)).globals.method
    simp only [List.length_replicate]
    omega

end World

end Shadowsocks
