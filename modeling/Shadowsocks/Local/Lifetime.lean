import Shadowsocks.Local.Pair

/-!
The whole event loop: every cell is that of a connection in one of its phases, or what a failed
accept attempt left. No event can break that, so no callback follows a dangling pointer.
-/
namespace Shadowsocks

open Memory

variable {S : OpenSSL} {w w' : World S} {k : Nat}

namespace Watcher

/-- The object the watcher belongs to. -/
def addr : Watcher → Addr
  | serverRecv a => a
  | serverSend a => a
  | remoteRecv a => a
  | remoteSend a => a

end Watcher

namespace Phase

def active (phase : Phase S) : Watcher → Bool
  | .serverRecv _ => phase.serverRecv
  | .serverSend _ => phase.serverSend
  | .remoteRecv _ => phase.remoteRecv
  | .remoteSend _ => phase.remoteSend

end Phase

namespace Pair

/-- The transition of a watcher's callback. -/
def onFire (g : Globals S) (remotePort : UInt16) (x : Watcher) (ans : Answers S) (p : Pair S) :
    Globals S × Pair S :=
  match x with
  | .serverRecv _ => p.onServerRecv g ans remotePort
  | .serverSend _ => (g, p.onServerSend ans)
  | .remoteRecv _ => p.onRemoteRecv g ans
  | .remoteSend _ => (g, p.onRemoteSend ans)

/-- The state of a connection that has just been accepted. -/
def fresh (g : Globals S) (t : Attempt S) : Pair S :=
  ⟨.connecting t.serverBuf
    ⟨t.remoteBuf, initEncryption g t.recvMem, initEncryption g t.sendMem⟩, .opened, .opened⟩

theorem onFire_inactive (g : Globals S) (remotePort : UInt16) (x : Watcher) (ans : Answers S)
    (p : Pair S) (h : p.phase.active x = false) : p.onFire g remotePort x ans = (g, p) := by
  obtain ⟨phase, client, upstream⟩ := p
  rcases phase with ⟨_, _⟩ | ⟨_, _, _⟩ | ⟨_, _, _ | _, _, _ | _⟩ | ⟨_, _ | _⟩ | ⟨_, _ | _⟩ | _ <;>
    cases x <;> first | rfl | cases h

end Pair

/-- What an accept attempt has come to. -/
inductive Slot (S : OpenSSL)
  | pair (p : Pair S)
  | failed

def Slot.Sat (P : Pair S → Prop) : Slot S → Prop
  | pair p => P p
  | failed => True

theorem Slot.Sat.imp {P Q : Pair S → Prop} (h : ∀ p, P p → Q p) {slot : Slot S}
    (hslot : slot.Sat P) : slot.Sat Q := by
  cases slot with
  | pair p => exact h p hslot
  | failed => trivial

def Slot.cell (k : Nat) : Slot S → Cell S
  | pair p => p.cell k
  | failed => { Cell.empty with client := some .opened }

namespace World

theorem callback_put (w : World S) (p : Pair S) (x : Watcher) (ans : Answers S)
    (hact : p.phase.active x = true) :
    (w.put x.addr (p.cell x.addr)).callback x ans =
      .ok ((w.setGlobals (p.onFire w.globals w.remotePort x ans).1).put x.addr
        ((p.onFire w.globals w.remotePort x ans).2.cell x.addr)) := by
  cases x with
  | serverRecv a => exact serverRecvCb_put w a p ans hact
  | serverSend a => exact serverSendCb_put w a p ans hact
  | remoteRecv a => exact remoteRecvCb_put w a p ans hact
  | remoteSend a => exact remoteSendCb_put w a p ans hact

theorem isActive_eq {p : Pair S} {x : Watcher} (h : w.cells x.addr = p.cell x.addr) :
    w.isActive x = p.phase.active x := by
  cases x <;> simp only [Watcher.addr] at h <;> simp only [isActive, h, Pair.cell, Phase.active]

/-- An event on a connection is one transition of its state machine; nothing else changes but
the scratch data of the cipher. -/
theorem step_fire {p : Pair S} {x : Watcher} (h : w.cells x.addr = p.cell x.addr)
    (ans : Answers S) :
    w.step (.fire x ans) =
      .ok ((w.setGlobals (p.onFire w.globals w.remotePort x ans).1).put x.addr
        ((p.onFire w.globals w.remotePort x ans).2.cell x.addr)) := by
  have hself : w.put x.addr (p.cell x.addr) = w := by rw [← h, put_self]
  rw [step, isActive_eq h]
  cases hact : p.phase.active x with
  | false =>
    rw [Pair.onFire_inactive _ _ _ _ _ hact]
    exact congrArg Except.ok hself.symm
  | true =>
    have := callback_put w p x ans hact
    rwa [hself] at this

/-- The same, seen from the connection. -/
theorem step_fire_at {p : Pair S} (hp : w.cells k = p.cell k) {x : Watcher} (hx : x.addr = k)
    (ans : Answers S) : ∃ w', w.step (.fire x ans) = .ok w' ∧
      w'.cells k = (p.onFire w.globals w.remotePort x ans).2.cell k ∧
      w'.globals = (p.onFire w.globals w.remotePort x ans).1 ∧ w'.remotePort = w.remotePort := by
  subst hx
  exact ⟨_, step_fire hp ans, put_cells .., rfl, rfl⟩

/-- The two ends of an attempt: the memory of a new connection, or only a descriptor. -/
def advance (w : World S) : World S := { w with next := w.next + 1 }

theorem acceptCb_failed {t : Attempt S} (hempty : w.cells w.next = .empty)
    (ht : ¬ (t.resolved ∧ t.socket)) (ts : List (Attempt S)) :
    w.acceptCb (t :: ts) =
      (w.advance.put w.next ((Slot.failed : Slot S).cell w.next)).acceptCb ts := by
  have hfree : (w.advance.put w.next
      { Cell.empty with
        client := some .opened
        server := some ⟨.client w.next, t.serverBuf, .methodSelect, 0, none⟩ }).freeServer
        (some w.next) = .ok (w.advance.put w.next ((Slot.failed : Slot S).cell w.next)) := by
    simp only [freeServer, server, put_cells, Option.elim_some, bind, Except.bind, pure,
      Except.pure, put_modify]
    rfl
  have hnew : ({ w with next := w.next + 1 }.modify w.next fun c =>
      { c with client := some .opened }).newServer w.next (.client w.next) t.serverBuf =
        w.advance.put w.next
          { Cell.empty with
            client := some .opened
            server := some ⟨.client w.next, t.serverBuf, .methodSelect, 0, none⟩ } := by
    simp only [modify, newServer, setServer, hempty, put_put, put_cells]
    rfl
  simp only [acceptCb, hnew, hfree, bind, Except.bind]
  by_cases hres : t.resolved
  · rw [if_neg (not_not_intro hres), if_pos fun h => ht ⟨hres, h⟩]
  · rw [if_pos hres]

theorem acceptCb_ok {t : Attempt S} (hempty : w.cells w.next = .empty)
    (ht : t.resolved ∧ t.socket) (ts : List (Attempt S)) :
    w.acceptCb (t :: ts) =
      .ok (w.advance.put w.next ((Pair.fresh w.globals t).cell w.next)) := by
  simp only [acceptCb, ht.1, ht.2, not_true_eq_false, if_false, modify, newServer, setServer,
    newRemote, setRemote, hempty, put_put, put_cells, put_globals, server, remote,
    Option.elim_some, bind, Except.bind, pure, Except.pure, evIoStart, setWatcher]
  rfl

/-- The attempts made so far have come to something, with `P` true of each connection, and
nothing has any other name. -/
structure Described (P : Pair S → Prop) (w : World S) : Prop where
  past : ∀ {k}, k < w.next → ∃ slot : Slot S, w.cells k = slot.cell k ∧ slot.Sat P
  future : ∀ {k}, w.next ≤ k → w.cells k = .empty

variable {P : Pair S → Prop}

theorem described_start (g : Globals S) (remotePort : UInt16) :
    Described P (start g remotePort) :=
  ⟨fun h => absurd h (Nat.not_lt_zero _), fun _ => rfl⟩

theorem put_cells_ne (w : World S) {k j : Nat} (h : j ≠ k) (c : Cell S) :
    (w.put k c).cells j = w.cells j := Function.update_of_ne h ..

/-- A later attempt takes the next name. -/
theorem Described.advance (h : Described P w) (slot : Slot S) (hslot : slot.Sat P) :
    Described P (w.advance.put w.next (slot.cell w.next)) where
  past {k} hk := by
    by_cases hk' : k = w.next
    · subst hk'
      exact ⟨slot, put_cells .., hslot⟩
    · rw [put_cells_ne _ hk']
      exact h.past (by simp only [put, World.advance] at hk; omega)
  future {k} hk := by
    simp only [put, World.advance] at hk
    rw [put_cells_ne _ (by omega)]
    exact h.future (by omega)

/-- A connection moves within its own cell. -/
theorem Described.put (h : Described P w) (hk : k < w.next) (g : Globals S) {p : Pair S}
    (hp : P p) : Described P ((w.setGlobals g).put k (p.cell k)) where
  past {j} hj := by
    by_cases hjk : j = k
    · subst hjk
      exact ⟨.pair p, put_cells .., hp⟩
    · rw [put_cells_ne _ hjk]
      exact h.past hj
  future {j} hj := by
    have hjk : j ≠ k := by
      rintro rfl
      exact absurd hk (Nat.not_lt.mpr hj)
    rw [put_cells_ne _ hjk]
    exact h.future hj

/-- Every cell has a description, used or not. -/
theorem Described.cells_eq (h : Described P w) (k : Nat) :
    (∃ p : Pair S, w.cells k = p.cell k ∧ P p) ∨
      w.cells k = (Slot.failed : Slot S).cell k ∨ w.cells k = .empty := by
  rcases Nat.lt_or_ge k w.next with hlt | hge
  · obtain ⟨slot, hslot, hsat⟩ := h.past hlt
    cases slot with
    | pair p => exact Or.inl ⟨p, hslot, hsat⟩
    | failed => exact Or.inr (Or.inl hslot)
  · exact Or.inr (Or.inr (h.future hge))

theorem Described.lt_next (h : Described P w) {p : Pair S} (hp : w.cells k = p.cell k) :
    k < w.next := by
  by_contra hge
  have := hp.symm.trans (h.future (Nat.le_of_not_lt hge))
  cases congrArg Cell.client this

theorem Described.imp {Q : Pair S → Prop} (h : Described P w) (hPQ : ∀ p, P p → Q p) :
    Described Q w where
  past hk := by
    obtain ⟨slot, hslot, hsat⟩ := h.past hk
    exact ⟨slot, hslot, hsat.imp hPQ⟩
  future := h.future

theorem Described.pair (h : Described P w) {p₀ : Pair S} (hp₀ : w.cells k = p₀.cell k) :
    ∃ p : Pair S, w.cells k = p.cell k ∧ P p := by
  obtain ⟨slot, hslot, hsat⟩ := h.past (h.lt_next hp₀)
  cases slot with
  | pair p => exact ⟨p, hslot, hsat⟩
  | failed =>
    rw [hp₀] at hslot
    cases congrArg Cell.upstream hslot

theorem acceptCb_described (hfresh : ∀ t, P (Pair.fresh w.globals t)) (h : Described P w)
    (ts : List (Attempt S)) : ∃ w', w.acceptCb ts = .ok w' ∧ Described P w' := by
  induction ts generalizing w with
  | nil => exact ⟨w, rfl, h⟩
  | cons t ts ih =>
    have hempty := h.future (Nat.le_refl _)
    by_cases ht : t.resolved ∧ t.socket
    · exact ⟨_, acceptCb_ok hempty ht ts, h.advance (.pair _) (hfresh t)⟩
    · rw [acceptCb_failed hempty ht]
      exact ih hfresh (h.advance .failed trivial)

/-- `accept_cb` leaves the connections there are alone. -/
theorem acceptCb_past (h : Described P w) {ts : List (Attempt S)} (hacc : w.acceptCb ts = .ok w') :
    w'.globals = w.globals ∧ w'.remotePort = w.remotePort ∧ w.next ≤ w'.next ∧
      ∀ k < w.next, w'.cells k = w.cells k := by
  induction ts generalizing w with
  | nil =>
    cases hacc
    exact ⟨rfl, rfl, Nat.le_refl _, fun _ _ => rfl⟩
  | cons t ts ih =>
    have hempty := h.future (Nat.le_refl _)
    have hpast : ∀ (c : Cell S), ∀ k < w.next, (w.advance.put w.next c).cells k = w.cells k :=
      fun c k hk => put_cells_ne _ (Nat.ne_of_lt hk) c
    by_cases ht : t.resolved ∧ t.socket
    · rw [acceptCb_ok hempty ht] at hacc
      cases hacc
      exact ⟨rfl, rfl, Nat.le_succ _, hpast _⟩
    · rw [acceptCb_failed hempty ht] at hacc
      obtain ⟨hg, hport, hle, hcells⟩ := ih (h.advance .failed trivial) hacc
      refine ⟨hg, hport, Nat.le_of_succ_le hle, ?_⟩
      intro k hk
      rw [hcells k (Nat.lt_succ_of_lt hk), hpast _ k hk]

/-- What comes of a name that has not been used yet. -/
theorem acceptCb_new (h : Described P w) {ts : List (Attempt S)} (hacc : w.acceptCb ts = .ok w')
    (hk : w.next ≤ k) : w'.next ≤ k ∨ k < w'.next ∧ ∃ slot : Slot S, w'.cells k = slot.cell k ∧
      slot.Sat fun p => ∃ t, p = Pair.fresh w.globals t := by
  induction ts generalizing w with
  | nil =>
    cases hacc
    exact Or.inl hk
  | cons t ts ih =>
    have hempty := h.future (Nat.le_refl _)
    by_cases ht : t.resolved ∧ t.socket
    · rw [acceptCb_ok hempty ht] at hacc
      cases hacc
      rcases Nat.eq_or_lt_of_le hk with rfl | hlt
      · exact Or.inr ⟨Nat.lt_succ_self _, .pair _, put_cells .., t, rfl⟩
      · exact Or.inl hlt
    · rw [acceptCb_failed hempty ht] at hacc
      have hfail := h.advance .failed trivial
      rcases Nat.eq_or_lt_of_le hk with rfl | hlt
      · obtain ⟨-, -, hle, hcells⟩ := acceptCb_past hfail hacc
        exact Or.inr ⟨hle, .failed, (hcells _ (Nat.lt_succ_self _)).trans (put_cells ..), trivial⟩
      · have hnew := ih hfail hacc hlt
        exact hnew

/-- Only connections are watched. -/
theorem isActive_idle (h : Described P w) {x : Watcher}
    (hx : ¬ ∃ p : Pair S, w.cells x.addr = p.cell x.addr) : w.isActive x = false := by
  rcases h.cells_eq x.addr with ⟨p, hp, -⟩ | hcell | hcell
  · exact absurd ⟨p, hp⟩ hx
  all_goals cases x <;> simp only [Watcher.addr] at hcell <;> simp only [isActive, hcell] <;> rfl

theorem step_fire_idle (h : Described P w) {x : Watcher}
    (hx : ¬ ∃ p : Pair S, w.cells x.addr = p.cell x.addr) (ans : Answers S) :
    w.step (.fire x ans) = .ok w := by
  simp only [step, isActive_idle h hx, Bool.false_eq_true, if_false]
  rfl

/-- No event ends in a fault. -/
theorem step_described (hfresh : ∀ t, P (Pair.fresh w.globals t)) {e : Event S}
    (hfire : ∀ x ans p, e = .fire x ans → w.cells x.addr = p.cell x.addr → P p →
      P (p.onFire w.globals w.remotePort x ans).2)
    (h : Described P w) : ∃ w', w.step e = .ok w' ∧ Described P w' := by
  cases e with
  | accept attempts => exact acceptCb_described hfresh h attempts
  | config password name remotePort => exact ⟨_, rfl, h.past, h.future⟩
  | fire x ans =>
    rcases h.cells_eq x.addr with ⟨p, hp, hP⟩ | hcell
    · exact ⟨_, step_fire hp ans, h.put (h.lt_next hp) _ (hfire x ans p rfl hp hP)⟩
    · refine ⟨w, step_fire_idle h ?_ ans, h⟩
      rintro ⟨p, hp⟩
      rw [hp] at hcell
      rcases hcell with hcell | hcell <;> cases congrArg Cell.upstream hcell

/-- An event on one connection does not show on another. -/
theorem step_fire_elsewhere (h : Described P w) {x : Watcher} (hx : x.addr ≠ k) {ans : Answers S}
    (hstep : w.step (.fire x ans) = .ok w') : w'.cells k = w.cells k ∧ w'.next = w.next := by
  by_cases hpair : ∃ p : Pair S, w.cells x.addr = p.cell x.addr
  · obtain ⟨p, hp⟩ := hpair
    rw [step_fire hp] at hstep
    cases hstep
    exact ⟨put_cells_ne _ (Ne.symm hx) _, rfl⟩
  · rw [step_fire_idle h hpair] at hstep
    cases hstep
    exact ⟨rfl, rfl⟩

/-- The event is not one of a watcher of the connection. -/
def Elsewhere (k : Nat) : Event S → Prop
  | .fire x _ => x.addr ≠ k
  | _ => True

/-- A step is a transition of the connection, or the connection has no part in it. -/
theorem step_seen (h : Described P w) {p : Pair S} (hp : w.cells k = p.cell k) {e : Event S}
    (hstep : w.step e = .ok w') :
    (∃ x ans, e = .fire x ans ∧ x.addr = k ∧
      w'.cells k = (p.onFire w.globals w.remotePort x ans).2.cell k ∧
      w'.globals = (p.onFire w.globals w.remotePort x ans).1) ∨
    (Elsewhere k e ∧ w'.cells k = p.cell k) := by
  cases e with
  | config password name remotePort =>
    cases hstep
    exact Or.inr ⟨trivial, hp⟩
  | accept attempts =>
    have hcells := (acceptCb_past h hstep).2.2.2 k (h.lt_next hp)
    exact Or.inr ⟨trivial, hcells.trans hp⟩
  | fire x ans =>
    by_cases hx : x.addr = k
    · obtain ⟨w₁, hstep₁, hcell, hglobals, -⟩ := step_fire_at hp hx ans
      cases hstep.symm.trans hstep₁
      exact Or.inl ⟨x, ans, rfl, hx, hcell, hglobals⟩
    · exact Or.inr ⟨hx, (step_fire_elsewhere h hx hstep).1.trans hp⟩

/-- What holds of every new connection and survives every callback holds of all connections
after every run, and every run goes through. -/
theorem run_described (hfresh : ∀ g t, P (Pair.fresh g t))
    (hfire : ∀ g remotePort x ans p, P p → P (p.onFire g remotePort x ans).2)
    (h : Described P w) (es : List (Event S)) : ∃ w', w.run es = .ok w' ∧ Described P w' := by
  have hstep : ∀ {w : World S} {e}, Described P w → True →
      ∃ w', w.step e = .ok w' ∧ Described P w' :=
    fun h _ => step_described (hfresh _) (fun _ _ _ _ _ hP => hfire _ _ _ _ _ hP) h
  exact run_along hstep h (along_of_forall (fun _ _ _ => trivial) w)

/-- The object of the watcher has not been freed. -/
def isLive (w : World S) : Watcher → Bool
  | .serverRecv a => (w.cells a).server.isSome
  | .serverSend a => (w.cells a).server.isSome
  | .remoteRecv a => (w.cells a).remote.isSome
  | .remoteSend a => (w.cells a).remote.isSome

def PointsToRemote (w : World S) (a b : Addr) : Prop :=
  ∃ s, (w.cells a).server = some s ∧ s.remote = some b

def PointsToServer (w : World S) (b a : Addr) : Prop :=
  ∃ r, (w.cells b).remote = some r ∧ r.server = some a

structure Safe (w : World S) : Prop where
  links : ∀ a b, w.PointsToRemote a b ↔ w.PointsToServer b a
  watchers : ∀ x, w.isActive x → w.isLive x

theorem pointsToRemote_iff (h : Described P w) (a b : Addr) :
    w.PointsToRemote a b ↔ a = b ∧ ∃ p : Pair S, w.cells a = p.cell a ∧
      (p.phase.server a).isSome ∧ (p.phase.remote a).isSome := by
  constructor
  · rintro ⟨s, hs, hb⟩
    rcases h.cells_eq a with ⟨p, hp, -⟩ | hcell | hcell
    · rw [hp] at hs
      obtain ⟨phase, client, upstream⟩ := p
      cases phase <;> cases hs <;> cases hb <;> exact ⟨rfl, _, hp, rfl, rfl⟩
    all_goals rw [hcell] at hs; cases hs
  · rintro ⟨rfl, p, hp, hs, hr⟩
    obtain ⟨phase, client, upstream⟩ := p
    cases phase <;> cases hs <;> cases hr <;> exact ⟨_, by rw [hp]; rfl, rfl⟩

theorem pointsToServer_iff (h : Described P w) (a b : Addr) :
    w.PointsToServer b a ↔ a = b ∧ ∃ p : Pair S, w.cells a = p.cell a ∧
      (p.phase.server a).isSome ∧ (p.phase.remote a).isSome := by
  constructor
  · rintro ⟨r, hr, ha⟩
    rcases h.cells_eq b with ⟨p, hp, -⟩ | hcell | hcell
    · rw [hp] at hr
      obtain ⟨phase, client, upstream⟩ := p
      cases phase <;> cases hr <;> cases ha <;> exact ⟨rfl, _, hp, rfl, rfl⟩
    all_goals rw [hcell] at hr; cases hr
  · rintro ⟨rfl, p, hp, hs, hr⟩
    obtain ⟨phase, client, upstream⟩ := p
    cases phase <;> cases hs <;> cases hr <;> exact ⟨_, by rw [hp]; rfl, rfl⟩

/-- Only phases that have an object watch for it. -/
theorem isLive_of_isActive (h : Described P w) {x : Watcher} (hx : w.isActive x) : w.isLive x := by
  rcases h.cells_eq x.addr with ⟨p, hp, -⟩ | hcell | hcell
  · rw [isActive_eq hp] at hx
    obtain ⟨phase, client, upstream⟩ := p
    cases x <;> simp only [Watcher.addr] at hp <;> simp only [isLive, hp] <;>
      cases phase <;> first | rfl | cases hx
  all_goals
    cases x <;> simp only [Watcher.addr] at hcell <;> simp only [isActive, hcell] at hx <;> cases hx

theorem Described.safe (h : Described P w) : Safe w where
  links a b := (pointsToRemote_iff h a b).trans (pointsToServer_iff h a b).symm
  watchers _ hx := isLive_of_isActive h hx

/-- Whatever the system calls return and in whatever order callbacks, accepts and new
configurations come, no callback follows a freed or null pointer or frees an object twice, the
links of live objects are mutual and only live objects are watched. -/
theorem run_safe (g : Globals S) (remotePort : UInt16) (es : List (Event S)) :
    ∃ w, (start g remotePort).run es = .ok w ∧ Safe w := by
  obtain ⟨w, hrun, h⟩ := run_described (P := fun _ => True) (fun _ _ => trivial)
    (fun _ _ _ _ _ _ => trivial) (described_start g remotePort) es
  exact ⟨w, hrun, h.safe⟩

end World

end Shadowsocks
