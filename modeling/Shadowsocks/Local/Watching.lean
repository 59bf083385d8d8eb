import Mathlib.Algebra.GroupWithZero.Nat
import Shadowsocks.Local.Tunnel

/-!
Which watchers are started. Of every connection at least one is, and in stage 5 each direction
either reads or, while converted bytes wait for `send` to take them, writes.
-/
namespace Shadowsocks

open Memory

variable {S : OpenSSL} {w w' : World S} {k : Nat}

/-- How many bytes stage 5 has converted for one end of a connection, and how many of them `send`
has taken. -/
structure Load where
  converted : Nat
  taken : Nat

/-- All that has been converted, but for `unsent` bytes, has been taken. -/
def Owes (loads : List Load) (unsent : Nat) : Prop :=
  (loads.map Load.taken).sum + unsent = (loads.map Load.converted).sum

theorem Owes.concat {loads : List Load} {unsent rest : Nat} {load : Load} (h : Owes loads unsent)
    (hload : load.taken + rest = unsent + load.converted) : Owes (loads ++ [load]) rest := by
  simp only [Owes, List.map_append, List.sum_append, List.map_cons, List.map_nil,
    List.sum_singleton] at h ⊢
  omega

/-- The number of bytes that `send` takes of `len`. -/
def SendResult.count (res : SendResult) (len : Nat) : Nat := (res.ret len).toNat

namespace World

/-- What stage 5 does for the remote. -/
def loadUp (k : Nat) (w : World S) : Event S → List Load
  | .fire x ans =>
    match (w.cells k).server, (w.cells k).remote with
    | some server, some remote =>
      if w.isActive x ∧ server.stage = .relay ∧ server.remote = some k then
        if x = .serverRecv k then
          match ans.recv with
          | .data piece =>
            let buf := memcpy remote.buf 0 piece.bytes
            let len := (encryptBuf ans.ambient w.globals remote.sendEncryptionCtx
              (front buf piece.bytes.length)).2.2.length
            [⟨len, (ans.send len).count len⟩]
          | _ => []
        else if x = .remoteSend k ∧ remote.bufLen ≠ 0 then
          [⟨0, (ans.send remote.bufLen).count remote.bufLen⟩]
        else []
      else []
    | _, _ => []
  | _ => []

/-- What stage 5 does for the client. -/
def loadDown (k : Nat) (w : World S) : Event S → List Load
  | .fire x ans =>
    match (w.cells k).server, (w.cells k).remote with
    | some server, some remote =>
      if w.isActive x ∧ server.stage = .relay ∧ server.remote = some k then
        if x = .remoteRecv k then
          match ans.recv with
          | .data piece =>
            let buf := memcpy server.buf 0 piece.bytes
            let len := ((decryptBuf ans.ambient w.globals remote.recvEncryptionCtx
              (front buf piece.bytes.length)).getD (w.globals, ans.overrun)).2.2.length
            [⟨len, (ans.send len).count len⟩]
          | _ => []
        else if x = .serverSend k ∧ server.bufLen ≠ 0 then
          [⟨0, (ans.send server.bufLen).count server.bufLen⟩]
        else []
      else []
    | _, _ => []
  | _ => []

/-- Some watcher of the server is started, or of the remote that it is linked to; alone it waits
to write. -/
def ServerWatched (w : World S) (a : Addr) (server : Server) : Prop :=
  match server.remote with
  | none => w.isActive (.serverSend a)
  | some b => w.isActive (.serverRecv a) ∨ w.isActive (.serverSend a) ∨
      w.isActive (.remoteRecv b) ∨ w.isActive (.remoteSend b)

def RemoteWatched (w : World S) (b : Addr) (remote : Remote S) : Prop :=
  match remote.server with
  | none => w.isActive (.remoteSend b)
  | some a => w.isActive (.serverRecv a) ∨ w.isActive (.serverSend a) ∨
      w.isActive (.remoteRecv b) ∨ w.isActive (.remoteSend b)

/-- Each direction of a relaying pair is either read or written. -/
structure Directed (w : World S) (a b : Addr) : Prop where
  up : w.isActive (.serverRecv a) = !w.isActive (.remoteSend b)
  down : w.isActive (.remoteRecv b) = !w.isActive (.serverSend a)

/-- It is written while bytes wait there. -/
structure Pending (w : World S) (a b : Addr) (upward downward : List Load) : Prop where
  up : w.isActive (.remoteSend b) ↔
    (upward.map Load.taken).sum < (upward.map Load.converted).sum
  down : w.isActive (.serverSend a) ↔
    (downward.map Load.taken).sum < (downward.map Load.converted).sum

end World

/-- An offer of no bytes does not block. -/
def Event.Willing : Event S → Prop
  | .fire _ ans => ans.send 0 ≠ .again
  | _ => True

/-- Whatever an offer leaves over is not nothing. -/
theorem offer_count {send : Nat → SendResult} (h : send 0 ≠ .again) (buf : Buffer) (len : Nat) :
    match offer (send len) buf len with
    | .failed => True
    | .taken => (send len).count len = len
    | .pending _ rest => 0 < rest ∧ (send len).count len + rest = len := by
  cases hres : send len with
  | accepted n =>
    have hcount : (SendResult.accepted n).count len = min n len := rfl
    rw [offer_accepted, hcount]
    by_cases hlt : n < len
    · rw [if_pos hlt]
      simp only
      omega
    · rw [if_neg hlt]
      exact Nat.min_eq_right (Nat.le_of_not_lt hlt)
  | again =>
    have hlen : len ≠ 0 := by
      rintro rfl
      exact h hres
    rw [offer_again]
    exact ⟨Nat.pos_of_ne_zero hlen, Nat.zero_add len⟩
  | error =>
    rw [offer_error]
    trivial

namespace Pair

variable {g : Globals S} {ans : Answers S} {p : Pair S} {up down : List Load}

def loadUp (g : Globals S) (ans : Answers S) (p : Pair S) (x : Watcher) : List Load :=
  match p.phase, x with
  | .relay _ h false _ _, .serverRecv _ =>
    match ans.recv with
    | .data piece =>
      let len := (encryptBuf ans.ambient g h.sendCtx
        (front (memcpy h.buf 0 piece.bytes) piece.bytes.length)).2.2.length
      [⟨len, (ans.send len).count len⟩]
    | _ => []
  | .relay _ _ true rLen _, .remoteSend _ =>
    if rLen ≠ 0 then [⟨0, (ans.send rLen).count rLen⟩] else []
  | _, _ => []

def loadDown (g : Globals S) (ans : Answers S) (p : Pair S) (x : Watcher) : List Load :=
  match p.phase, x with
  | .relay sbuf h _ _ none, .remoteRecv _ =>
    match ans.recv with
    | .data piece =>
      let len := ((decryptBuf ans.ambient g h.recvCtx
        (front (memcpy sbuf 0 piece.bytes) piece.bytes.length)).getD
          (g, ans.overrun)).2.2.length
      [⟨len, (ans.send len).count len⟩]
    | _ => []
  | .relay _ _ _ _ (some len), .serverSend _ =>
    if len ≠ 0 then [⟨0, (ans.send len).count len⟩] else []
  | _, _ => []

/-- In the relay phase everything converted has been taken but what is pending, and a send
watcher is started for some bytes only. -/
def Tallied (up down : List Load) (p : Pair S) : Prop :=
  match p.phase with
  | .connecting .. | .handshake .. => up = [] ∧ down = []
  | .relay _ _ writing rLen pending =>
    Owes up (if writing then rLen else 0) ∧ Owes down (pending.getD 0) ∧
      (writing = true → 0 < rLen) ∧ ∀ len, pending = some len → 0 < len
  | _ => True

variable (hans : ans.send 0 ≠ .again)
include hans

theorem tallied_relayUp {sbuf : Buffer} {h : Half S} {rLen : Nat} {pending : Option Nat}
    (hp : p.phase = .relay sbuf h false rLen pending) (htally : p.Tallied up down) (p' : Pair S)
    (bytes : Bytes) :
    let len := (encryptBuf ans.ambient g h.sendCtx
      (front (memcpy h.buf 0 bytes) bytes.length)).2.2.length
    (p'.relayUp g ans sbuf h rLen pending bytes).2.Tallied
      (up ++ [⟨len, (ans.send len).count len⟩]) down := by
  simp only [Tallied, hp] at htally
  obtain ⟨hup, hdown, -, hpending⟩ := htally
  rcases hres : encryptBuf ans.ambient g h.sendCtx
    (front (memcpy h.buf 0 bytes) bytes.length) with ⟨g', ctx, out⟩
  have hoffer := offer_count hans (memcpy (memcpy h.buf 0 bytes) 0 out) out.length
  simp only [relayUp, hres]
  cases hcase : offer (ans.send out.length) (memcpy (memcpy h.buf 0 bytes) 0 out) out.length with
  | failed => trivial
  | taken =>
    rw [hcase] at hoffer
    refine ⟨hup.concat ?_, hdown, by simp, hpending⟩
    simp only [Bool.false_eq_true, if_false]
    omega
  | pending buf rest =>
    rw [hcase] at hoffer
    refine ⟨hup.concat ?_, hdown, fun _ => hoffer.1, hpending⟩
    simp only [Bool.false_eq_true, if_false, if_true]
    omega

theorem tallied_relayDown {sbuf : Buffer} {h : Half S} {writing : Bool} {rLen : Nat}
    (hp : p.phase = .relay sbuf h writing rLen none) (htally : p.Tallied up down) (p' : Pair S)
    (bytes : Bytes) :
    let len := ((decryptBuf ans.ambient g h.recvCtx
      (front (memcpy sbuf 0 bytes) bytes.length)).getD (g, ans.overrun)).2.2.length
    (p'.relayDown g ans sbuf h writing rLen bytes).2.Tallied up
      (down ++ [⟨len, (ans.send len).count len⟩]) := by
  simp only [Tallied, hp] at htally
  obtain ⟨hup, hdown, hwriting, -⟩ := htally
  rcases hres : (decryptBuf ans.ambient g h.recvCtx
    (front (memcpy sbuf 0 bytes) bytes.length)).getD (g, ans.overrun) with ⟨g', ctx, out⟩
  have hoffer := offer_count hans (memcpy (memcpy sbuf 0 bytes) 0 out) out.length
  simp only [relayDown, hres]
  cases hcase : offer (ans.send out.length) (memcpy (memcpy sbuf 0 bytes) 0 out) out.length with
  | failed => trivial
  | taken =>
    rw [hcase] at hoffer
    refine ⟨hup, hdown.concat ?_, hwriting, by simp⟩
    simp only [Option.getD_none]
    omega
  | pending buf rest =>
    rw [hcase] at hoffer
    refine ⟨hup, hdown.concat ?_, hwriting, ?_⟩
    · simp only [Option.getD_none, Option.getD_some]
      omega
    · rintro _ ⟨⟩
      exact hoffer.1

omit hans in
/-- The request is answered in full, or the connection is closed; nothing of stage 5 has come
before it. -/
theorem tallied_request (g : Globals S) (ans : Answers S) (remotePort : UInt16) (p : Pair S)
    (sbuf : Buffer) (h : Half S) : (p.request g ans remotePort sbuf h).2.Tallied [] [] := by
  have hnothing : Owes [] 0 := rfl
  simp only [request]
  split
  · trivial
  · trivial
  · split_ifs
    · trivial
    · trivial
    · exact ⟨hnothing, hnothing, by simp, by simp⟩

theorem tallied_onServerRecv (hp : p.Tallied up down) (remotePort : UInt16) (a : Addr) :
    (p.onServerRecv g ans remotePort).2.Tallied (up ++ p.loadUp g ans (.serverRecv a))
      (down ++ p.loadDown g ans (.serverRecv a)) := by
  obtain ⟨phase, client, upstream⟩ := p
  cases phase with
  | handshake asked sbuf h =>
    obtain ⟨rfl, rfl⟩ := hp
    simp only [onServerRecv, loadUp, loadDown, List.append_nil]
    cases ans.recv with
    | data piece =>
      cases asked with
      | true => exact tallied_request ..
      | false => exact ⟨rfl, rfl⟩
    | eof => trivial
    | again => exact ⟨rfl, rfl⟩
    | error => trivial
  | relay sbuf h writing rLen pending =>
    cases writing with
    | true =>
      simp only [onServerRecv, loadUp, loadDown, List.append_nil]
      exact hp
    | false =>
      simp only [onServerRecv, loadUp, loadDown, List.append_nil]
      cases ans.recv with
      | data piece =>
        have htally := tallied_relayUp (g := g) hans rfl hp
          ⟨.relay sbuf h false rLen pending, client.receive piece.bytes, upstream⟩ piece.bytes
        exact htally
      | eof => trivial
      | again =>
        rw [List.append_nil]
        exact hp
      | error => trivial
  | serverAlone sbuf reading => cases reading <;> trivial
  | connecting sbuf h =>
    simp only [onServerRecv, loadUp, loadDown, List.append_nil]
    exact hp
  | remoteAlone h reading => trivial
  | gone => trivial

theorem tallied_onRemoteRecv (hp : p.Tallied up down) (b : Addr) :
    (p.onRemoteRecv g ans).2.Tallied (up ++ p.loadUp g ans (.remoteRecv b))
      (down ++ p.loadDown g ans (.remoteRecv b)) := by
  obtain ⟨phase, client, upstream⟩ := p
  cases phase with
  | relay sbuf h writing rLen pending =>
    have hup : loadUp g ans ⟨.relay sbuf h writing rLen pending, client, upstream⟩
        (.remoteRecv b) = [] := by cases writing <;> rfl
    rw [hup, List.append_nil]
    cases pending with
    | some len =>
      simp only [onRemoteRecv, loadDown, List.append_nil]
      exact hp
    | none =>
      simp only [onRemoteRecv, loadDown]
      cases ans.recv with
      | data piece =>
        have htally := tallied_relayDown (g := g) hans rfl hp
          ⟨.relay sbuf h writing rLen none, client, upstream.receive piece.bytes⟩ piece.bytes
        exact htally
      | eof => trivial
      | again =>
        rw [List.append_nil]
        exact hp
      | error => trivial
  | remoteAlone h reading => cases reading <;> trivial
  | serverAlone sbuf reading => trivial
  | gone => trivial
  | connecting sbuf h =>
    simp only [onRemoteRecv, loadUp, loadDown, List.append_nil]
    exact hp
  | handshake asked sbuf h =>
    simp only [onRemoteRecv, loadUp, loadDown, List.append_nil]
    exact hp

theorem tallied_onServerSend (hp : p.Tallied up down) (a : Addr) :
    (p.onServerSend ans).Tallied (up ++ p.loadUp g ans (.serverSend a))
      (down ++ p.loadDown g ans (.serverSend a)) := by
  obtain ⟨phase, client, upstream⟩ := p
  cases phase with
  | relay sbuf h writing rLen pending =>
    have hup : loadUp g ans ⟨.relay sbuf h writing rLen pending, client, upstream⟩
        (.serverSend a) = [] := by cases writing <;> rfl
    rw [hup, List.append_nil]
    cases pending with
    | none =>
      simp only [onServerSend, loadDown, List.append_nil]
      exact hp
    | some len =>
      obtain ⟨hup, hdown, hwriting, hpending⟩ := hp
      have hpos := hpending len rfl
      have hoffer := offer_count hans sbuf len
      simp only [onServerSend, loadDown]
      rw [if_neg (Nat.ne_of_gt hpos), if_pos (Nat.ne_of_gt hpos)]
      cases hcase : offer (ans.send len) sbuf len with
      | failed => trivial
      | taken =>
        rw [hcase] at hoffer
        refine ⟨hup, hdown.concat ?_, hwriting, by simp⟩
        simp only [Option.getD_some, Option.getD_none]
        omega
      | pending buf rest =>
        rw [hcase] at hoffer
        refine ⟨hup, hdown.concat ?_, hwriting, ?_⟩
        · simp only [Option.getD_some]
          omega
        · rintro _ ⟨⟩
          exact hoffer.1
  | serverAlone sbuf reading => trivial
  | remoteAlone h reading => trivial
  | gone => trivial
  | connecting sbuf h =>
    simp only [onServerSend, loadUp, loadDown, List.append_nil]
    exact hp
  | handshake asked sbuf h =>
    simp only [onServerSend, loadUp, loadDown, List.append_nil]
    exact hp

theorem tallied_onRemoteSend (hp : p.Tallied up down) (b : Addr) :
    (p.onRemoteSend ans).Tallied (up ++ p.loadUp g ans (.remoteSend b))
      (down ++ p.loadDown g ans (.remoteSend b)) := by
  obtain ⟨phase, client, upstream⟩ := p
  cases phase with
  | relay sbuf h writing rLen pending =>
    have hdown : loadDown g ans ⟨.relay sbuf h writing rLen pending, client, upstream⟩
        (.remoteSend b) = [] := by cases pending <;> rfl
    rw [hdown, List.append_nil]
    cases writing with
    | false =>
      simp only [onRemoteSend, loadUp, List.append_nil]
      exact hp
    | true =>
      obtain ⟨hup, hdown, hwriting, hpending⟩ := hp
      have hpos := hwriting rfl
      have hoffer := offer_count hans h.buf rLen
      simp only [onRemoteSend, loadUp]
      rw [if_neg (Nat.ne_of_gt hpos), if_pos (Nat.ne_of_gt hpos)]
      cases hcase : offer (ans.send rLen) h.buf rLen with
      | failed => trivial
      | taken =>
        rw [hcase] at hoffer
        refine ⟨hup.concat ?_, hdown, by simp, hpending⟩
        simp only [Bool.false_eq_true, if_false, if_true]
        omega
      | pending buf rest =>
        rw [hcase] at hoffer
        refine ⟨hup.concat ?_, hdown, fun _ => hoffer.1, hpending⟩
        simp only [if_true]
        omega
  | connecting sbuf h =>
    obtain ⟨rfl, rfl⟩ := hp
    simp only [onRemoteSend]
    split
    · exact ⟨rfl, rfl⟩
    · trivial
  | remoteAlone h reading => trivial
  | serverAlone sbuf reading => trivial
  | gone => trivial
  | handshake asked sbuf h =>
    simp only [onRemoteSend, loadUp, loadDown, List.append_nil]
    exact hp

/-- No callback loses count, whatever the others have done. -/
theorem tallied_onFire (hp : p.Tallied up down) (remotePort : UInt16) (x : Watcher) :
    (p.onFire g remotePort x ans).2.Tallied (up ++ p.loadUp g ans x)
      (down ++ p.loadDown g ans x) := by
  cases x with
  | serverRecv a => exact tallied_onServerRecv hans hp remotePort a
  | serverSend a => exact tallied_onServerSend hans hp a
  | remoteRecv b => exact tallied_onRemoteRecv hans hp b
  | remoteSend b => exact tallied_onRemoteSend hans hp b

end Pair

namespace World

variable {g : Globals S} {remotePort : UInt16} {up down : List Load} {P : Pair S → Prop}

theorem loadUp_eq {p : Pair S} (hp : w.cells k = p.cell k) {x : Watcher} (hx : x.addr = k)
    (ans : Answers S) : w.loadUp k (.fire x ans) = p.loadUp w.globals ans x := by
  subst hx
  rw [loadUp, isActive_eq hp, hp]
  obtain ⟨phase, client, upstream⟩ := p
  rcases phase with _ | ⟨_ | _, _, _⟩ | ⟨_, _, _ | _, _, _⟩ | _ | _ | _ <;>
    cases x <;> simp [Pair.cell, Pair.loadUp, Phase.active, Watcher.addr]

theorem loadDown_eq {p : Pair S} (hp : w.cells k = p.cell k) {x : Watcher} (hx : x.addr = k)
    (ans : Answers S) : w.loadDown k (.fire x ans) = p.loadDown w.globals ans x := by
  subst hx
  rw [loadDown, isActive_eq hp, hp]
  obtain ⟨phase, client, upstream⟩ := p
  rcases phase with _ | ⟨_ | _, _, _⟩ | ⟨_, _, _, _, _ | _⟩ | _ | _ | _ <;>
    cases x <;> simp [Pair.cell, Pair.loadDown, Phase.active, Watcher.addr]

/-- An event that is not about the connection. -/
theorem load_elsewhere {e : Event S} (he : Elsewhere k e) :
    w.loadUp k e = [] ∧ w.loadDown k e = [] := by
  cases e with
  | fire x ans =>
    have hne : x ≠ .serverRecv k ∧ x ≠ .serverSend k ∧ x ≠ .remoteRecv k ∧ x ≠ .remoteSend k := by
      refine ⟨?_, ?_, ?_, ?_⟩ <;>
      · rintro rfl
        exact he rfl
    obtain ⟨hserverRecv, hserverSend, hremoteRecv, hremoteSend⟩ := hne
    simp only [loadUp, loadDown, hserverRecv, hserverSend, hremoteRecv, hremoteSend, if_false,
      false_and]
    constructor <;>
    · split
      · split <;> rfl
      · rfl
  | _ => exact ⟨rfl, rfl⟩

/-- The connection `k` and what stage 5 has done for it so far, if there is one. -/
def Tallied (k : Nat) (up down : List Load) (w : World S) : Prop :=
  (∃ p : Pair S, w.cells k = p.cell k ∧ p.Tallied up down) ∨
    (¬ ∃ p : Pair S, w.cells k = p.cell k) ∧ up = [] ∧ down = []

theorem server_idle (h : Described P w) (hidle : ¬ ∃ p : Pair S, w.cells k = p.cell k) :
    (w.cells k).server = none := by
  rcases h.cells_eq k with ⟨p, hp, -⟩ | hcell | hcell
  · exact absurd ⟨p, hp⟩ hidle
  · rw [hcell]
    rfl
  · rw [hcell]
    rfl

theorem load_idle (h : Described P w) (hidle : ¬ ∃ p : Pair S, w.cells k = p.cell k) (e : Event S) :
    w.loadUp k e = [] ∧ w.loadDown k e = [] := by
  have hserver := server_idle h hidle
  cases e <;> simp only [loadUp, loadDown, hserver, and_self]

/-- A connection that an event makes has done nothing yet. -/
theorem tallied_new (h : Described P w) (h' : Described P w')
    (hidle : ¬ ∃ p : Pair S, w.cells k = p.cell k) {e : Event S} (hstep : w.step e = .ok w') :
    Tallied k [] [] w' := by
  have hsame : w'.cells k = w.cells k → Tallied k [] [] w' := by
    intro hcell
    refine Or.inr ⟨?_, rfl, rfl⟩
    rintro ⟨p, hp⟩
    exact hidle ⟨p, hcell.symm.trans hp⟩
  cases e with
  | config password name remotePort =>
    cases hstep
    exact hsame rfl
  | fire x ans =>
    by_cases hx : x.addr = k
    · subst hx
      rw [step_fire_idle h hidle] at hstep
      cases hstep
      exact hsame rfl
    · exact hsame (step_fire_elsewhere h hx hstep).1
  | accept attempts =>
    rcases Nat.lt_or_ge k w.next with hlt | hge
    · exact hsame ((acceptCb_past h hstep).2.2.2 k hlt)
    · rcases acceptCb_new h hstep hge with hunused | ⟨-, slot, hslot, hsat⟩
      · exact hsame ((h'.future hunused).trans (h.future hge).symm)
      · cases slot with
        | pair p =>
          obtain ⟨t, rfl⟩ := hsat
          exact Or.inl ⟨_, hslot, rfl, rfl⟩
        | failed =>
          refine Or.inr ⟨?_, rfl, rfl⟩
          rintro ⟨p, hp⟩
          rw [hslot] at hp
          cases congrArg Cell.upstream hp

theorem tallied_step (h : Described P w) (hfresh : ∀ g t, P (Pair.fresh g t))
    (hfire : ∀ g remotePort x ans p, P p → P (p.onFire g remotePort x ans).2)
    (htally : Tallied k up down w) {e : Event S} (he : e.Willing) :
    ∃ w', w.step e = .ok w' ∧ Described P w' ∧
      Tallied k (up ++ w.loadUp k e) (down ++ w.loadDown k e) w' := by
  obtain ⟨w', hstep, h'⟩ := step_described (hfresh _) (fun _ _ _ _ _ hP => hfire _ _ _ _ _ hP) h
    (e := e)
  refine ⟨w', hstep, h', ?_⟩
  rcases htally with ⟨p, hp, htally⟩ | ⟨hidle, rfl, rfl⟩
  · rcases step_seen h hp hstep with ⟨x, ans, rfl, hx, hcell, -⟩ | ⟨helsewhere, hcell⟩
    · rw [loadUp_eq hp hx, loadDown_eq hp hx]
      exact Or.inl ⟨_, hcell, Pair.tallied_onFire he htally w.remotePort x⟩
    · obtain ⟨hup, hdown⟩ := load_elsewhere (w := w) helsewhere
      rw [hup, hdown, List.append_nil, List.append_nil]
      exact Or.inl ⟨p, hcell, htally⟩
  · obtain ⟨hup, hdown⟩ := load_idle h hidle e
    rw [hup, hdown]
    exact tallied_new h h' hidle hstep

theorem tallied_run (h : Described P w) (hfresh : ∀ g t, P (Pair.fresh g t))
    (hfire : ∀ g remotePort x ans p, P p → P (p.onFire g remotePort x ans).2)
    (htally : Tallied k up down w) {es : List (Event S)} (hes : ∀ e ∈ es, e.Willing) :
    ∃ w', w.run es = .ok w' ∧ Described P w' ∧
      Tallied k (up ++ w.log (loadUp k) es) (down ++ w.log (loadDown k) es) w' := by
  induction es generalizing w up down with
  | nil =>
    simp only [log, List.append_nil]
    exact ⟨w, rfl, h, htally⟩
  | cons e es ih =>
    obtain ⟨w₁, hstep, h₁, htally₁⟩ :=
      tallied_step h hfresh hfire htally (hes e (List.mem_cons_self ..))
    obtain ⟨w', hrun, h', htally'⟩ :=
      ih h₁ htally₁ fun e he => hes e (List.mem_cons_of_mem _ he)
    rw [log_cons _ hstep, log_cons _ hstep, ← List.append_assoc, ← List.append_assoc]
    exact ⟨w', (run_cons hstep es).trans hrun, h', htally'⟩

/-- In each of its phases a connection waits for something. -/
theorem serverWatched (h : Described P w) {a : Addr} {server : Server}
    (hs : (w.cells a).server = some server) : w.ServerWatched a server := by
  rcases h.cells_eq a with ⟨p, hp, -⟩ | hcell | hcell
  · rw [hp] at hs
    obtain ⟨phase, client, upstream⟩ := p
    cases phase with
    | relay sbuf h writing rLen pending =>
      cases hs
      simp only [ServerWatched, isActive, hp, Pair.cell, Phase.serverRecv, Phase.remoteSend]
      cases writing
      · exact Or.inl rfl
      · exact Or.inr (Or.inr (Or.inr rfl))
    | _ => cases hs <;> simp [ServerWatched, isActive, hp, Pair.cell]
  all_goals
    rw [hcell] at hs
    cases hs

theorem remoteWatched (h : Described P w) {b : Addr} {remote : Remote S}
    (hr : (w.cells b).remote = some remote) : w.RemoteWatched b remote := by
  rcases h.cells_eq b with ⟨p, hp, -⟩ | hcell | hcell
  · rw [hp] at hr
    obtain ⟨phase, client, upstream⟩ := p
    cases phase with
    | relay sbuf h writing rLen pending =>
      cases hr
      simp only [RemoteWatched, Half.remote, isActive, hp, Pair.cell, Phase.serverRecv,
        Phase.remoteSend]
      cases writing
      · exact Or.inl rfl
      · exact Or.inr (Or.inr (Or.inr rfl))
    | _ => cases hr <;> simp [RemoteWatched, isActive, hp, Pair.cell]
  all_goals
    rw [hcell] at hr
    cases hr

/-- Only the relay phase has both objects in stage 5. -/
theorem relay_of_stage {p : Pair S} (hp : w.cells k = p.cell k) {server : Server} {b : Addr}
    (hs : (w.cells k).server = some server) (hstage : server.stage = .relay)
    (hlink : server.remote = some b) : k = b ∧
      ∃ sbuf h writing rLen pending, p.phase = .relay sbuf h writing rLen pending := by
  rw [hp] at hs
  obtain ⟨phase, client, upstream⟩ := p
  cases phase with
  | relay sbuf h writing rLen pending =>
    cases hs
    cases hlink
    exact ⟨rfl, _, _, _, _, _, rfl⟩
  | handshake asked sbuf h =>
    cases hs
    cases asked <;> cases hstage
  | connecting sbuf h =>
    cases hs
    cases hstage
  | serverAlone sbuf reading =>
    cases hs
    cases hlink
  | remoteAlone h reading => cases hs
  | gone => cases hs

theorem directed (h : Described P w) {server : Server} {b : Addr}
    (hs : (w.cells k).server = some server) (hstage : server.stage = .relay)
    (hlink : server.remote = some b) : w.Directed k b := by
  have hpair : ∃ p : Pair S, w.cells k = p.cell k := by
    by_contra hidle
    rw [server_idle h hidle] at hs
    cases hs
  obtain ⟨p, hp⟩ := hpair
  obtain ⟨rfl, sbuf, h, writing, rLen, pending, hphase⟩ := relay_of_stage hp hs hstage hlink
  constructor
  · simp only [isActive, hp, Pair.cell, hphase, Phase.serverRecv, Phase.remoteSend]
  · simp only [isActive, hp, Pair.cell, hphase, Phase.remoteRecv, Phase.serverSend]
    cases pending <;> rfl

/-- Bytes wait where, and only where, a send watcher of the pair is started. -/
theorem pending_of_tallied (h : Described P w) (htally : Tallied k up down w) {server : Server}
    {b : Addr} (hs : (w.cells k).server = some server) (hstage : server.stage = .relay)
    (hlink : server.remote = some b) : w.Pending k b up down := by
  rcases htally with ⟨p, hp, htally⟩ | ⟨hidle, -, -⟩
  · obtain ⟨rfl, sbuf, h, writing, rLen, pending, hphase⟩ := relay_of_stage hp hs hstage hlink
    simp only [Pair.Tallied, hphase, Owes] at htally
    obtain ⟨hup, hdown, hwriting, hpending⟩ := htally
    constructor
    · simp only [isActive, hp, Pair.cell, hphase, Phase.remoteSend]
      cases writing with
      | false =>
        rw [if_neg Bool.false_ne_true] at hup
        refine ⟨by simp, ?_⟩
        omega
      | true =>
        have hpos := hwriting rfl
        rw [if_pos rfl] at hup
        refine ⟨fun _ => ?_, fun _ => rfl⟩
        omega
    · simp only [isActive, hp, Pair.cell, hphase, Phase.serverSend]
      cases pending with
      | none =>
        rw [Option.getD_none] at hdown
        refine ⟨by simp, ?_⟩
        omega
      | some len =>
        have hpos := hpending len rfl
        rw [Option.getD_some] at hdown
        refine ⟨fun _ => ?_, fun _ => rfl⟩
        omega
  · rw [server_idle h hidle] at hs
    cases hs

/-- In every state that a run can reach, every server and every remote that has not been freed
is watched, and a pair in stage 5 watches each direction in one way: for output exactly while
bytes are pending there, as long as `send` does not block on nothing. -/
theorem run_watched (g : Globals S) (remotePort : UInt16) (es : List (Event S)) :
    ∃ w, (start g remotePort).run es = .ok w ∧
      (∀ a server, (w.cells a).server = some server → w.ServerWatched a server) ∧
      (∀ b remote, (w.cells b).remote = some remote → w.RemoteWatched b remote) ∧
      ∀ a b server, (w.cells a).server = some server → server.stage = .relay →
        server.remote = some b → w.Directed a b ∧
          ((∀ e ∈ es, e.Willing) → w.Pending a b ((start g remotePort).log (loadUp a) es)
            ((start g remotePort).log (loadDown a) es)) := by
  obtain ⟨w, hrun, h⟩ := run_described (P := fun _ => True) (fun _ _ => trivial)
    (fun _ _ _ _ _ _ => trivial) (described_start g remotePort) es
  refine ⟨w, hrun, fun a server hs => serverWatched h hs,
    fun b remote hr => remoteWatched h hr, ?_⟩
  intro a b server hs hstage hlink
  refine ⟨directed h hs hstage hlink, ?_⟩
  intro hes
  have hstart : Tallied a [] [] (start g remotePort) := by
    refine Or.inr ⟨?_, rfl, rfl⟩
    rintro ⟨p, hp⟩
    cases congrArg Cell.client hp
  obtain ⟨w', hrun', -, htally⟩ := tallied_run (P := fun _ => True)
    (described_start g remotePort) (fun _ _ => trivial) (fun _ _ _ _ _ _ => trivial) hstart hes
  cases hrun.symm.trans hrun'
  exact pending_of_tallied h htally hs hstage hlink

/-- Both ends of a connection are slow to take what has been converted for them. -/
theorem run_watched_salsa20 :
    let old : Globals Reference.openssl := .zeroed _
    let w₀ := start (configEncryption old [0x6b] "salsa20") 0
    let es : List (Event Reference.openssl) := opening _ 0 ++ [asking _ 0,
      .fire (.serverRecv 0) (trickles ⟨[7, 8], by decide, by decide⟩),
      .fire (.remoteRecv 0) (trickles ⟨List.replicate 18 9, by decide, by decide⟩)]
    ∃ w, w₀.run es = .ok w ∧ w.isActive (.remoteSend 0) = true ∧
      w.isActive (.serverSend 0) = true ∧
      w.Pending 0 0 (w₀.log (loadUp 0) es) (w₀.log (loadDown 0) es) := by
  intro old w₀ es
  have hS := Reference.lawful_openssl
  have hname : Supported Reference.openssl "salsa20" := by decide
  have hg := configured_configEncryption hS hname old [0x6b]
  obtain ⟨w₁, w₂, hopen, hask, -, hbefore, hafter⟩ := run_opening (w := w₀) (k := 0) hS hg
    rfl rfl
  obtain ⟨iv, header, c₀, u₀, hiv, -, -, -, hnone, hentered⟩ := entered_of_run hS hg
    (not_isConfig_opening 0) hopen hask hbefore hafter
  have hstream := (CipherStream.chunkable_push hS).closed header (usable_start hS hg true hiv)
  obtain ⟨w₃, hup, h₃⟩ := relaying_step hS hg hstream hnone hentered
    (e := .fire (.serverRecv 0) (trickles ⟨[7, 8], by decide, by decide⟩))
    (undisturbed_trickles w₂ (Or.inr rfl))
  obtain ⟨w₄, hdown, h₄⟩ := relaying_step hS hg hstream hnone h₃
    (e := .fire (.remoteRecv 0) (trickles ⟨List.replicate 18 9, by decide, by decide⟩))
    (undisturbed_trickles w₃ (Or.inl (by decide)))
  have hrun : w₀.run es = .ok w₄ := by
    rw [run_append hopen, run_cons hask, run_cons hup, run_cons hdown]
    rfl
  have hsend₃ := (held_serverRecv hS hentered.2 rfl (fun _ => rfl) (by decide) hup).1
  have hlong := ivLen_le w₃.globals.method
  obtain ⟨hsend₄, hkept⟩ := held_remoteRecv hS (hg.of_config h₃.1.config) h₃.2 rfl (fun _ => rfl)
    (by simp only [List.length_replicate]; omega) hdown
  obtain ⟨w, hrun', -, -, hpending⟩ := run_watched (configEncryption old [0x6b] "salsa20") 0 es
  cases hrun.symm.trans hrun'
  obtain ⟨p, hp, sbuf, half, up, rLen, down, -, -, -, -, hphase, -⟩ := h₄.2
  have hserver : (w₄.cells 0).server = some ⟨.client 0, sbuf, .relay, down.getD 0, some 0⟩ := by
    rw [hp]
    simp [Pair.cell, hphase]
  refine ⟨w₄, hrun, hkept.trans hsend₃, hsend₄, (hpending 0 0 _ hserver rfl rfl).2 ?_⟩
  intro e he
  simp only [es, opening, asking, List.mem_append, List.mem_cons, List.not_mem_nil,
    or_false] at he
  rcases he with (rfl | rfl | rfl) | rfl | rfl | rfl <;>
    simp [Event.Willing, connects, delivers, trickles]

end World

end Shadowsocks
