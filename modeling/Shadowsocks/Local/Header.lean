import Shadowsocks.Local.Close

/-!
What goes to the remote in stage 1. The first two pieces from the client are laid over each
other at the front of a block that `malloc` has not cleared, and the header is read off that
buffer, however many bytes have been received.
-/
namespace Shadowsocks

open Memory

variable {S : OpenSSL} {w w' : World S} {k : Nat} {heap : Buffer}

namespace World

/-- What `recv` returns on the client's socket, and what else its callback draws. -/
def heard (k : Nat) (w : World S) : Event S → List Call
  | .fire x ans =>
    match (w.cells k).server, ans.recv with
    | some s, .data piece =>
      if x = .serverRecv k ∧ w.isActive x ∧ s.remote.isSome then [(ans.ambient, piece)] else []
    | _, _ => []
  | _ => []

/-- What stage 1 hands to `send_encrypt`. -/
def header (k : Nat) (w : World S) : Event S → List Bytes
  | .fire x ans =>
    match (w.cells k).server, ans.recv with
    | some s, .data piece =>
      if x = .serverRecv k ∧ w.isActive x ∧ s.stage = .request then
        (addrToSend (memcpy s.buf 0 piece.bytes)).toOption.toList
      else []
    | _, _ => []
  | _ => []

end World

/-- The buffer that the second piece leaves. -/
def received (heap : Buffer) (first second : Call) : Buffer :=
  memcpy (memcpy heap 0 first.bytes) 0 second.bytes

def headerOf (heap : Buffer) : List Call → List Bytes
  | first :: second :: _ => (addrToSend (received heap first second)).toOption.toList
  | _ => []

theorem headerOf_append {calls : List Call} (h : 2 ≤ calls.length) (more : List Call) :
    headerOf heap (calls ++ more) = headerOf heap calls := by
  rcases calls with _ | ⟨first, _ | ⟨second, rest⟩⟩
  · cases h
  · cases Nat.le_of_succ_le_succ h
  · rfl

namespace Pair

variable {g : Globals S} {ans : Answers S} {p : Pair S} {calls : List Call}
  {headers : List Bytes}

def heard (ans : Answers S) (p : Pair S) : Watcher → List Call
  | .serverRecv _ =>
    match p.phase, ans.recv with
    | .handshake .., .data piece => [(ans.ambient, piece)]
    | .relay _ _ false _ _, .data piece => [(ans.ambient, piece)]
    | _, _ => []
  | _ => []

def header (ans : Answers S) (p : Pair S) : Watcher → List Bytes
  | .serverRecv _ =>
    match p.phase, ans.recv with
    | .handshake true sbuf _, .data piece =>
      (addrToSend (memcpy sbuf 0 piece.bytes)).toOption.toList
    | _, _ => []
  | _ => []

/-- The connection has heard `calls` so far, and has made `headers` of them. -/
def Reads (heap : Buffer) (calls : List Call) (headers : List Bytes) (p : Pair S) : Prop :=
  match p.phase with
  | .connecting sbuf _ => sbuf = heap ∧ calls = [] ∧ headers = []
  | .handshake false sbuf _ => sbuf = heap ∧ calls = [] ∧ headers = []
  | .handshake true sbuf _ =>
    ∃ call, sbuf = memcpy heap 0 call.bytes ∧ calls = [call] ∧ headers = []
  | _ => (2 ≤ calls.length ∨ p.Halved) ∧ headers = headerOf heap calls

theorem reads_fresh (g : Globals S) (t : Attempt S) : (fresh g t).Reads t.serverBuf [] [] :=
  ⟨rfl, rfl, rfl⟩

theorem reads_late (hp : p.phase.early = false) : p.Reads heap calls headers ↔
    (2 ≤ calls.length ∨ p.Halved) ∧ headers = headerOf heap calls := by
  obtain ⟨phase, client, upstream⟩ := p
  cases phase with
  | connecting sbuf h => cases hp
  | handshake asked sbuf h => cases hp
  | _ => exact Iff.rfl

theorem Reads.headers_eq (hp : p.Reads heap calls headers) : headers = headerOf heap calls := by
  obtain ⟨phase, client, upstream⟩ := p
  rcases phase with _ | ⟨_ | _, _, _⟩ | _ | _ | _ | _
  · obtain ⟨-, rfl, rfl⟩ := hp
    rfl
  · obtain ⟨-, rfl, rfl⟩ := hp
    rfl
  · obtain ⟨call, -, rfl, rfl⟩ := hp
    rfl
  all_goals exact hp.2

theorem heard_halved (hp : p.Halved) (x : Watcher) : p.heard ans x = [] := by
  obtain ⟨phase, client, upstream⟩ := p
  cases phase with
  | connecting sbuf h => rcases hp with hp | hp <;> cases hp
  | handshake asked sbuf h => rcases hp with hp | hp <;> cases hp
  | relay sbuf h up rLen down => rcases hp with hp | hp <;> cases hp
  | _ => cases x <;> rfl

theorem header_late (hp : p.phase.early = false) (x : Watcher) : p.header ans x = [] := by
  obtain ⟨phase, client, upstream⟩ := p
  cases phase with
  | connecting sbuf h => cases hp
  | handshake asked sbuf h => cases hp
  | _ => cases x <;> rfl

theorem idle_of_inactive (ans : Answers S) {x : Watcher} (hx : p.phase.active x = false) :
    p.heard ans x = [] ∧ p.header ans x = [] := by
  obtain ⟨phase, client, upstream⟩ := p
  cases x with
  | serverRecv a =>
    rcases phase with _ | _ | ⟨_, _, _ | _, _, _⟩ | _ | _ | _ <;> try exact ⟨rfl, rfl⟩
    · cases hx
    · cases hx
  | _ => exact ⟨rfl, rfl⟩

/-- Once the handshake is over, nothing heard adds to the header. -/
theorem reads_onFire_late (hearly : p.phase.early = false) (hp : p.Reads heap calls headers)
    (remotePort : UInt16) (x : Watcher) :
    (p.onFire g remotePort x ans).2.Reads heap (calls ++ p.heard ans x)
      (headers ++ p.header ans x) := by
  rw [reads_late hearly] at hp
  obtain ⟨hcalls, hheaders⟩ := hp
  rw [reads_late (early_onFire _ _ _ _ hearly), header_late hearly, List.append_nil]
  rcases hcalls with hcalls | hhalved
  · refine ⟨Or.inl ?_, hheaders.trans (headerOf_append hcalls _).symm⟩
    rw [List.length_append]
    omega
  · rw [heard_halved hhalved, List.append_nil]
    exact ⟨Or.inr (halved_onFire hhalved ..).1, hheaders⟩

theorem reads_onFire (hp : p.Reads heap calls headers) (remotePort : UInt16) (x : Watcher) :
    (p.onFire g remotePort x ans).2.Reads heap (calls ++ p.heard ans x)
      (headers ++ p.header ans x) := by
  cases hearly : p.phase.early with
  | false => exact reads_onFire_late hearly hp remotePort x
  | true =>
    cases hact : p.phase.active x with
    | false =>
      obtain ⟨hheard, hheader⟩ := idle_of_inactive ans hact
      rw [onFire_inactive _ _ _ _ _ hact, hheard, hheader, List.append_nil, List.append_nil]
      exact hp
    | true =>
      obtain ⟨phase, client, upstream⟩ := p
      rcases phase with ⟨sbuf, h⟩ | ⟨asked, sbuf, h⟩ | _ | _ | _ | _ <;> try cases hearly
      · cases x <;> cases hact
        obtain ⟨hbuf, rfl, rfl⟩ := hp
        simp only [onFire, onRemoteSend]
        split_ifs
        · exact ⟨hbuf, rfl, rfl⟩
        · exact ⟨Or.inr (Or.inl rfl), rfl⟩
      · cases x <;> cases hact
        simp only [onFire, onServerRecv, heard, header]
        cases asked with
        | false =>
          obtain ⟨rfl, rfl, rfl⟩ := hp
          cases ans.recv with
          | data piece => exact ⟨_, rfl, rfl, rfl⟩
          | again => exact ⟨rfl, rfl, rfl⟩
          | eof => exact ⟨Or.inr (Or.inl rfl), rfl⟩
          | error => exact ⟨Or.inr (Or.inl rfl), rfl⟩
        | true =>
          obtain ⟨call, rfl, rfl, rfl⟩ := hp
          cases ans.recv with
          | data piece =>
            simp only [if_true]
            rw [reads_late (early_request ..)]
            exact ⟨Or.inl (Nat.le_refl 2), rfl⟩
          | again => exact ⟨call, rfl, rfl, rfl⟩
          | eof => exact ⟨Or.inr (Or.inl rfl), rfl⟩
          | error => exact ⟨Or.inr (Or.inl rfl), rfl⟩

end Pair

namespace World

theorem heard_eq {p : Pair S} (hp : w.cells k = p.cell k) {x : Watcher} (hx : x.addr = k)
    (ans : Answers S) : w.heard k (.fire x ans) = p.heard ans x := by
  subst hx
  rw [heard, isActive_eq hp, hp]
  obtain ⟨phase, client, upstream⟩ := p
  cases hrecv : ans.recv with
  | data piece =>
    rcases phase with _ | _ | ⟨_, _, _ | _, _, _⟩ | _ | _ | _ <;>
      cases x <;> simp [Pair.cell, Pair.heard, Phase.active, Watcher.addr, hrecv]
  | _ => rcases phase with _ | _ | ⟨_, _, _ | _, _, _⟩ | _ | _ | _ <;>
      cases x <;> simp [Pair.cell, Pair.heard, hrecv]

theorem header_eq {p : Pair S} (hp : w.cells k = p.cell k) {x : Watcher} (hx : x.addr = k)
    (ans : Answers S) : w.header k (.fire x ans) = p.header ans x := by
  subst hx
  rw [header, isActive_eq hp, hp]
  obtain ⟨phase, client, upstream⟩ := p
  cases hrecv : ans.recv with
  | data piece =>
    rcases phase with _ | ⟨_ | _, _, _⟩ | _ | _ | _ | _ <;>
      cases x <;> simp [Pair.cell, Pair.header, Phase.active, Watcher.addr, hrecv]
  | _ => rcases phase with _ | ⟨_ | _, _, _⟩ | _ | _ | _ | _ <;>
      cases x <;> simp [Pair.cell, Pair.header, hrecv]

theorem heard_elsewhere {e : Event S} (he : Elsewhere k e) : w.heard k e = [] := by
  cases e with
  | fire x ans =>
    have hne : x ≠ .serverRecv k := by
      rintro rfl
      exact he rfl
    simp only [heard, hne, false_and, if_false]
    split <;> rfl
  | _ => rfl

theorem header_elsewhere {e : Event S} (he : Elsewhere k e) : w.header k e = [] := by
  cases e with
  | fire x ans =>
    have hne : x ≠ .serverRecv k := by
      rintro rfl
      exact he rfl
    simp only [header, hne, false_and, if_false]
    split <;> rfl
  | _ => rfl

def Reads (k : Nat) (heap : Buffer) (calls : List Call) (headers : List Bytes) (w : World S) :
    Prop :=
  ∃ p : Pair S, w.cells k = p.cell k ∧ p.Reads heap calls headers

variable {calls : List Call} {headers : List Bytes}

theorem reads_step (h : Described Pair.Accounted w) (hreads : Reads k heap calls headers w)
    (e : Event S) : ∃ w', w.step e = .ok w' ∧ Described Pair.Accounted w' ∧
      Reads k heap (calls ++ w.heard k e) (headers ++ w.header k e) w' := by
  obtain ⟨w', hstep, h'⟩ := accounted_step h e
  obtain ⟨p, hp, hreads⟩ := hreads
  refine ⟨w', hstep, h', ?_⟩
  rcases step_seen h hp hstep with ⟨x, ans, rfl, hx, hcell, -⟩ | ⟨he, hcell⟩
  · rw [heard_eq hp hx, header_eq hp hx]
    exact ⟨_, hcell, Pair.reads_onFire hreads w.remotePort x⟩
  · rw [heard_elsewhere he, header_elsewhere he, List.append_nil, List.append_nil]
    exact ⟨p, hcell, hreads⟩

theorem reads_run (h : Described Pair.Accounted w) (hreads : Reads k heap calls headers w)
    (es : List (Event S)) : ∃ w', w.run es = .ok w' ∧
      Reads k heap (calls ++ w.log (heard k) es) (headers ++ w.log (header k) es) w' := by
  induction es generalizing w calls headers with
  | nil =>
    simp only [log, List.append_nil]
    exact ⟨w, rfl, hreads⟩
  | cons e es ih =>
    obtain ⟨w₁, hstep, h₁, hreads₁⟩ := reads_step h hreads e
    obtain ⟨w', hrun, hreads'⟩ := ih h₁ hreads₁
    rw [log_cons _ hstep, log_cons _ hstep, ← List.append_assoc, ← List.append_assoc]
    exact ⟨w', (run_cons hstep es).trans hrun, hreads'⟩

/-- After a run from the start the connection `k` is new, with `heap` in its server's buffer. -/
def Accepted (g : Globals S) (remotePort : UInt16) (k : Nat) (heap : Buffer) (w : World S) : Prop :=
  (∃ es, (start g remotePort).run es = .ok w) ∧
    ∃ t : Attempt S, w.cells k = (Pair.fresh w.globals t).cell k ∧ t.serverBuf = heap

variable {g : Globals S} {remotePort : UInt16}

/-- Whatever else happens, the header is read off the first two pieces. -/
theorem log_header (h : Accepted g remotePort k heap w) (es : List (Event S)) :
    w.log (header k) es = headerOf heap (w.log (heard k) es) := by
  obtain ⟨⟨es₀, hrun⟩, t, hcell, rfl⟩ := h
  obtain ⟨w₁, hrun₁, hdesc⟩ := run_described (P := Pair.Accounted)
    (fun _ _ => Pair.accounted_fresh ..) (fun _ _ _ _ _ hp => Pair.accounted_onFire _ _ _ _ _ hp)
    (described_start g remotePort) es₀
  cases hrun.symm.trans hrun₁
  obtain ⟨w', -, p, -, hreads⟩ := reads_run hdesc
    ⟨_, hcell, Pair.reads_fresh w.globals t⟩ es
  exact hreads.headers_eq

/-- The connection is made, and then the client sends two pieces. -/
def arrivals (first second : Call) : List (Event S) :=
  [.fire (.remoteSend 0) connects, .fire (.serverRecv 0) (delivers first),
    .fire (.serverRecv 0) (delivers second)]

/-- A first connection, with `heap` in the block that `malloc` returns for the server. -/
def accepting (S : OpenSSL) (heap : Buffer) : Event S :=
  .accept [{ attempt S with serverBuf := heap }]

theorem exists_heard (g : Globals S) (remotePort : UInt16) (heap : Buffer) :
    ∃ w, (start g remotePort).run [accepting S heap] = .ok w ∧ Accepted g remotePort 0 heap w ∧
      ∀ first second, w.log (heard 0) (arrivals first second) = [first, second] := by
  let t : Attempt S := { attempt S with serverBuf := heap }
  let w : World S := (start g remotePort).advance.put 0 ((Pair.fresh g t).cell 0)
  have hstep : (start g remotePort).step (accepting S heap) = .ok w :=
    acceptCb_ok (t := t) (w := start g remotePort) rfl ⟨rfl, rfl⟩ []
  have hrun : (start g remotePort).run [accepting S heap] = .ok w := run_cons hstep []
  have hcell : w.cells 0 = (Pair.fresh g t).cell 0 := put_cells ..
  refine ⟨w, hrun, ⟨⟨_, hrun⟩, t, hcell, rfl⟩, ?_⟩
  intro first second
  obtain ⟨w₁, hstep₁, hcell₁, -, -⟩ := step_fire_at hcell (x := .remoteSend 0) rfl connects
  obtain ⟨w₂, hstep₂, hcell₂, -, -⟩ := step_fire_at hcell₁ (x := .serverRecv 0) rfl
    (delivers first)
  obtain ⟨w₃, hstep₃, -, -, -⟩ := step_fire_at hcell₂ (x := .serverRecv 0) rfl (delivers second)
  rw [arrivals, log_cons _ hstep₁, log_cons _ hstep₂, log_cons _ hstep₃, heard_eq hcell rfl,
    heard_eq hcell₁ rfl, heard_eq hcell₂ rfl]
  rfl

end World

/-! Which bytes of the buffer have been received. -/

/-- The second piece laid over the first. -/
def overlay (first second : Call) : Bytes :=
  second.bytes ++ first.bytes.drop second.bytes.length

/-- `x` reaches past the command and, if that is CONNECT, past the type of the address, and an
address of that type ends within `n` bytes. -/
def Covered (n : Nat) (x : Bytes) : Prop :=
  2 ≤ x.length ∧ (x.getD 1 0 = socksCmdConnect →
    4 ≤ x.length ∧ ∀ len, addressLen (x.drop 3) = some len → 3 + len ≤ n)

theorem length_overlay (first second : Call) :
    second.bytes.length ≤ (overlay first second).length ∧
      (overlay first second).length ≤ bufSize := by
  have hfirst := first.2.fits
  have hsecond := second.2.fits
  simp only [overlay, List.length_append, List.length_drop, Call.bytes] at *
  omega

theorem byteAt_received (heap : Buffer) (first second : Call) (i : Nat) :
    byteAt (received heap first second) i =
      if i < (overlay first second).length then (overlay first second).getD i 0
      else byteAt heap i := by
  have hfirst : first.bytes.length ≤ bufferSize := Nat.le_trans first.2.fits (by decide)
  have hsecond : second.bytes.length ≤ bufferSize := Nat.le_trans second.2.fits (by decide)
  rw [byteAt, received, toList_memcpy_zero _ hsecond, toList_memcpy_zero _ hfirst,
    List.drop_append, List.drop_drop, ← List.append_assoc, ← overlay]
  have hlen : (overlay first second).length =
      first.bytes.length + (second.bytes.length - first.bytes.length) := by
    simp only [overlay, List.length_append, List.length_drop]
    omega
  rw [← hlen]
  split
  · next hi => exact List.getD_append _ _ _ _ hi
  · next hi =>
    rw [List.getD_append_right _ _ _ _ (Nat.le_of_not_lt hi), byteAt]
    simp only [List.getD_eq_getElem?_getD, List.getElem?_drop]
    rw [Nat.add_sub_of_le (Nat.le_of_not_lt hi)]

theorem addressLen_drop_three (x : Bytes) :
    addressLen (x.drop 3) =
      if x.getD 3 0 = socksIpv4 then some 7
      else if x.getD 3 0 = socksDomain then some (4 + (x.getD 4 0).toNat)
      else none := by
  simp only [addressLen, List.getD_eq_getElem?_getD, List.getElem?_drop]

theorem getElem?_slice (buf : Buffer) {off len i : Nat} (hi : i < len)
    (hlen : off + len ≤ bufferSize) : (slice buf off len)[i]? = some (byteAt buf (off + i)) := by
  have hlt : off + i < buf.toList.length := by
    rw [Vector.length_toList]
    omega
  rw [slice, List.getElem?_take_of_lt hi, List.getElem?_drop, byteAt,
    List.getD_eq_getElem _ _ hlt, List.getElem?_eq_getElem hlt]

theorem slice_eq_map (buf : Buffer) {off len : Nat} (hlen : off + len ≤ bufferSize) :
    slice buf off len = (List.range len).map fun i => byteAt buf (off + i) := by
  apply List.ext_getElem?
  intro i
  by_cases hi : i < len
  · rw [getElem?_slice buf hi hlen, List.getElem?_map, List.getElem?_range hi, Option.map_some]
  · rw [List.getElem?_eq_none, List.getElem?_eq_none]
    · simpa using hi
    · rw [length_slice buf hlen]
      omega

theorem slice_congr {buf buf' : Buffer} {off len : Nat} (hlen : off + len ≤ bufferSize)
    (h : ∀ i < off + len, byteAt buf i = byteAt buf' i) :
    slice buf off len = slice buf' off len := by
  rw [slice_eq_map buf hlen, slice_eq_map buf' hlen]
  apply List.map_congr_left
  intro i hi
  have := List.mem_range.mp hi
  exact h (off + i) (by omega)

/-- Where the bytes received settle the header, the rest of the buffer does not matter. -/
theorem addrToSend_covered {first second : Call} {n : Nat}
    (hn : n ≤ (overlay first second).length) (h : Covered n (overlay first second))
    (heap heap' : Buffer) :
    addrToSend (received heap first second) = addrToSend (received heap' first second) := by
  obtain ⟨h2, hconnect⟩ := h
  have hsize : bufferSize = 1548 := rfl
  have hfits : (overlay first second).length ≤ 1500 := (length_overlay first second).2
  have hbyte : ∀ i < (overlay first second).length,
      byteAt (received heap first second) i = byteAt (received heap' first second) i := by
    intro i hi
    rw [byteAt_received, byteAt_received, if_pos hi, if_pos hi]
  rw [addrToSend_eq, addrToSend_eq, ← hbyte 1 h2]
  by_cases hcmd : byteAt (received heap first second) 1 ≠ socksCmdConnect
  · rw [if_pos hcmd, if_pos hcmd]
  · rw [if_neg hcmd, if_neg hcmd]
    rw [not_not, byteAt_received, if_pos (by omega)] at hcmd
    obtain ⟨h4, hlen⟩ := hconnect hcmd
    rw [addressLen_drop_three] at hlen
    rw [addressLen_drop, addressLen_drop, ← hbyte 3 (by omega)]
    rw [byteAt_received, if_pos (by omega : 3 < (overlay first second).length)]
    split_ifs at hlen ⊢ with hipv4 hdomain
    · have hlen := hlen 7 rfl
      rw [Option.elim_some, Option.elim_some,
        slice_congr (by omega) fun i hi => hbyte i (by omega)]
    · have hlen := hlen _ rfl
      rw [← hbyte 4 (by omega), byteAt_received, if_pos (by omega : 4 < _), Option.elim_some,
        Option.elim_some, slice_congr (by omega) fun i hi => hbyte i (by omega)]
    · rw [Option.elim_none, Option.elim_none]

def cleared : Buffer := Vector.replicate bufferSize 0

def filled : Buffer := Vector.replicate bufferSize 1

theorem byteAt_cleared (i : Nat) : byteAt cleared i = 0 := by
  rw [byteAt, cleared, Vector.toList_replicate, List.getD_eq_getElem?_getD, List.getElem?_replicate]
  split <;> rfl

theorem byteAt_filled {i : Nat} (hi : i < bufferSize) : byteAt filled i = 1 := by
  rw [byteAt, filled, Vector.toList_replicate, List.getD_eq_getElem?_getD, List.getElem?_replicate,
    if_pos hi]
  rfl

variable {first second : Call}

theorem byteAt_received_cleared (first second : Call) (i : Nat) :
    byteAt (received cleared first second) i = (overlay first second).getD i 0 := by
  rw [byteAt_received]
  split
  · rfl
  · next hi =>
    rw [byteAt_cleared, List.getD_eq_default _ _ (Nat.le_of_not_lt hi)]

/-- In a cleared block the header is the one that the bytes received announce. -/
theorem addrToSend_cleared (first second : Call) (len : Nat) :
    (∃ header, addrToSend (received cleared first second) = .ok header ∧ header.length = len) ↔
      (overlay first second).getD 1 0 = socksCmdConnect ∧
        addressLen ((overlay first second).drop 3) = some len := by
  have hsize : bufferSize = 1548 := rfl
  have hlen : addressLen ((received cleared first second).toList.drop 3) =
      addressLen ((overlay first second).drop 3) := by
    rw [addressLen_drop, addressLen_drop_three, byteAt_received_cleared, byteAt_received_cleared]
  rw [addrToSend_eq, hlen, byteAt_received_cleared]
  constructor
  · rintro ⟨header, hheader, rfl⟩
    split at hheader
    · cases hheader
    · next hcmd =>
      cases haddr : addressLen ((overlay first second).drop 3) with
      | none =>
        rw [haddr] at hheader
        cases hheader
      | some len =>
        have hbounds := addressLen_bounds haddr
        rw [haddr, Option.elim_some] at hheader
        obtain rfl := Except.ok.inj hheader
        rw [length_slice _ (by omega)]
        exact ⟨not_not.mp hcmd, rfl⟩
  · rintro ⟨hcmd, haddr⟩
    have hbounds := addressLen_bounds haddr
    rw [if_neg (not_not_intro hcmd), haddr]
    exact ⟨_, rfl, length_slice _ (by omega)⟩

/-- In a block full of ones a piece that is cut before the type of the address becomes a request
for an IPv4 address. -/
theorem addrToSend_filled (hshort : (overlay first second).length < 4)
    (hcmd : 2 ≤ (overlay first second).length →
      (overlay first second).getD 1 0 = socksCmdConnect) :
    ∃ header, addrToSend (received filled first second) = .ok header ∧ header.length = 7 := by
  have hsize : bufferSize = 1548 := rfl
  have hbyte : byteAt (received filled first second) 1 = socksCmdConnect := by
    rw [byteAt_received]
    split
    · next hi => exact hcmd hi
    · exact byteAt_filled (by decide)
  have htype : byteAt (received filled first second) 3 = socksIpv4 := by
    rw [byteAt_received, if_neg (by omega)]
    exact byteAt_filled (by decide)
  rw [addrToSend_eq, if_neg (not_not_intro hbyte), addressLen_drop, if_pos htype]
  exact ⟨_, rfl, length_slice _ (by decide)⟩

/-- One block or the other gives a request away that has not been received. -/
theorem covered_of_header {n : Nat}
    (hfilled : ∀ header, addrToSend (received filled first second) = .ok header →
      header.length = 7 → 4 ≤ (overlay first second).length)
    (hcleared : ∀ header, addrToSend (received cleared first second) = .ok header →
      3 + header.length ≤ n) : Covered n (overlay first second) := by
  have hfour : (2 ≤ (overlay first second).length →
      (overlay first second).getD 1 0 = socksCmdConnect) → 4 ≤ (overlay first second).length := by
    intro hcmd
    by_contra hshort
    obtain ⟨header, hheader, hseven⟩ := addrToSend_filled (Nat.lt_of_not_le hshort) hcmd
    exact hshort (hfilled header hheader hseven)
  refine ⟨?_, ?_⟩
  · by_contra htwo
    have := hfour fun h => absurd h htwo
    omega
  · intro hcmd
    refine ⟨hfour fun _ => hcmd, ?_⟩
    intro len hlen
    obtain ⟨header, hheader, rfl⟩ := (addrToSend_cleared first second len).mpr ⟨hcmd, hlen⟩
    exact hcleared header hheader

theorem toOption_eq_some {ε α : Type} {e : Except ε α} {a : α} :
    e = .ok a ↔ e.toOption = some a := by
  cases e <;> simp [Except.toOption]

/-- A header that both blocks give has been received. -/
theorem length_le_of_same {header : Bytes}
    (hcleared : addrToSend (received cleared first second) = .ok header)
    (hfilled : addrToSend (received filled first second) = .ok header) :
    3 + header.length ≤ (overlay first second).length := by
  have hsize : bufferSize = 1548 := rfl
  obtain ⟨-, haddr, hslice⟩ := addrToSend_ok_iff.mp hcleared
  obtain ⟨-, -, hslice'⟩ := addrToSend_ok_iff.mp hfilled
  have hbounds := addressLen_bounds haddr
  by_contra hlong
  have hlast : header.length - 1 < header.length := by omega
  have hin : 3 + header.length ≤ bufferSize := by omega
  have hsame := (getElem?_slice (received cleared first second) hlast hin).symm.trans
    ((congrArg (·[header.length - 1]?) (hslice.trans hslice'.symm)).trans
      (getElem?_slice (received filled first second) hlast hin))
  rw [byteAt_received, byteAt_received, if_neg (by omega), if_neg (by omega), byteAt_cleared,
    byteAt_filled (by omega)] at hsame
  cases hsame

/-- The header is the same whatever the block held exactly if both pieces cover it. -/
theorem addrToSend_eq_iff_covered (first second : Call) :
    (∀ heap heap', (addrToSend (received heap first second)).toOption =
      (addrToSend (received heap' first second)).toOption) ↔
      Covered (overlay first second).length (overlay first second) := by
  constructor
  · intro h
    have hboth : ∀ header, addrToSend (received cleared first second) = .ok header ↔
        addrToSend (received filled first second) = .ok header := by
      intro header
      rw [toOption_eq_some, toOption_eq_some, h cleared filled]
    refine covered_of_header ?_ ?_
    · intro header hheader _
      obtain ⟨-, hlen⟩ := (addrToSend_cleared first second _).mp
        ⟨header, (hboth header).mpr hheader, rfl⟩
      by_contra hshort
      rw [List.drop_eq_nil_of_le (by omega)] at hlen
      cases hlen
    · intro header hheader
      exact length_le_of_same hheader ((hboth header).mp hheader)
  · intro h heap heap'
    rw [addrToSend_covered (Nat.le_refl _) h heap heap']

/-- It takes no byte but those of the second piece exactly if that piece covers it. -/
theorem length_addrToSend_iff_covered (first second : Call) :
    (∀ heap header, addrToSend (received heap first second) = .ok header →
      3 + header.length ≤ second.bytes.length) ↔
      Covered second.bytes.length (overlay first second) := by
  have hle := (length_overlay first second).1
  constructor
  · intro h
    refine covered_of_header ?_ (h cleared)
    intro header hheader hseven
    have := h filled header hheader
    omega
  · intro h heap header hheader
    rw [addrToSend_covered hle h heap cleared] at hheader
    obtain ⟨hcmd, hlen⟩ := (addrToSend_cleared first second _).mp ⟨header, hheader, rfl⟩
    exact (h.2 hcmd).2 _ hlen

/-- What `recv` and the random generator have given the callback. -/
def Call.seen (call : Call) : (Nat → UInt8) × Bytes := (call.1.rand, call.bytes)

theorem headerOf_congr {calls calls' : List Call}
    (h : (calls.take 2).map Call.seen = (calls'.take 2).map Call.seen) (heap : Buffer) :
    headerOf heap calls = headerOf heap calls' := by
  rcases calls with _ | ⟨first, _ | ⟨second, rest⟩⟩ <;>
    rcases calls' with _ | ⟨first', _ | ⟨second', rest'⟩⟩ <;>
    simp only [List.take, List.map_cons, List.map_nil, List.cons.injEq, Call.seen, Prod.mk.injEq,
      reduceCtorEq, and_false] at h
  · rfl
  · rfl
  · simp only [headerOf, received, h]

namespace World

/-- Two runs in which the client's socket and the random generator give the same at first make
the same header, whatever `malloc` leaves in their blocks. -/
def HeapFree (g : Globals S) (remotePort : UInt16) (calls : List Call) : Prop :=
  ∀ k w w' heap heap' es es', Accepted g remotePort k heap w → Accepted g remotePort k heap' w' →
    ((w.log (heard k) es).take 2).map Call.seen = (calls.take 2).map Call.seen →
    ((w'.log (heard k) es').take 2).map Call.seen = (calls.take 2).map Call.seen →
    w.log (header k) es = w'.log (header k) es'

/-- The header, which starts at offset 3 of the buffer, ends within the second piece. -/
def OwnBytes (g : Globals S) (remotePort : UInt16) (calls : List Call) : Prop :=
  ∀ k w heap es, Accepted g remotePort k heap w →
    ((w.log (heard k) es).take 2).map Call.seen = (calls.take 2).map Call.seen →
    ∀ sent ∈ w.log (header k) es, ∀ second ∈ calls[1]?, 3 + sent.length ≤ second.bytes.length

variable {g : Globals S} {remotePort : UInt16} {calls : List Call}

theorem heapFree_iff : HeapFree g remotePort calls ↔
    ∀ heap heap', headerOf heap calls = headerOf heap' calls := by
  constructor
  · intro h heap heap'
    rcases calls with _ | ⟨first, _ | ⟨second, rest⟩⟩
    · rfl
    · rfl
    · obtain ⟨w, -, hw, hheard⟩ := exists_heard g remotePort heap
      obtain ⟨w', -, hw', hheard'⟩ := exists_heard g remotePort heap'
      have := h 0 w w' heap heap' (arrivals first second) (arrivals first second) hw hw'
        (by rw [hheard]; rfl) (by rw [hheard']; rfl)
      rwa [log_header hw, log_header hw', hheard, hheard'] at this
  · intro h k w w' heap heap' es es' hw hw' hheard hheard'
    rw [log_header hw, log_header hw', headerOf_congr hheard, headerOf_congr hheard', h heap heap']

theorem ownBytes_iff : OwnBytes g remotePort calls ↔
    ∀ heap, ∀ sent ∈ headerOf heap calls, ∀ second ∈ calls[1]?,
      3 + sent.length ≤ second.bytes.length := by
  constructor
  · intro h heap
    rcases calls with _ | ⟨first, _ | ⟨second, rest⟩⟩
    · nofun
    · nofun
    · obtain ⟨w, -, hw, hheard⟩ := exists_heard g remotePort heap
      have := h 0 w heap (arrivals first second) hw (by rw [hheard]; rfl)
      rwa [log_header hw, hheard] at this
  · intro h k w heap es hw hheard
    rw [log_header hw, headerOf_congr hheard]
    exact h heap

/-- The header depends on the block that `malloc` returns unless the two pieces reach as far as
the header that they announce, and it takes other bytes than those received for the request
unless the second piece does. -/
theorem log_header_iff (g : Globals S) (remotePort : UInt16) (calls : List Call) :
    (HeapFree g remotePort calls ↔ ∀ first second rest, calls = first :: second :: rest →
      Covered (overlay first second).length (overlay first second)) ∧
    (OwnBytes g remotePort calls ↔ ∀ first second rest, calls = first :: second :: rest →
      Covered second.bytes.length (overlay first second)) := by
  rw [heapFree_iff, ownBytes_iff]
  rcases calls with _ | ⟨first, _ | ⟨second, rest⟩⟩
  · exact ⟨iff_of_true (fun _ _ => rfl) nofun, iff_of_true nofun nofun⟩
  · exact ⟨iff_of_true (fun _ _ => rfl) nofun, iff_of_true nofun nofun⟩
  · constructor
    · constructor
      · rintro h _ _ _ ⟨rfl⟩
        rw [← addrToSend_eq_iff_covered]
        intro heap heap'
        have := congrArg List.head? (h heap heap')
        simpa only [headerOf, Option.head?_toList] using this
      · intro h heap heap'
        have hcov := (addrToSend_eq_iff_covered first second).mpr (h first second rest rfl)
        rw [headerOf, headerOf, hcov heap heap']
    · constructor
      · rintro h _ _ _ ⟨rfl⟩
        rw [← length_addrToSend_iff_covered]
        intro heap sent hsent
        refine h heap sent ?_ second rfl
        rw [headerOf, hsent]
        exact List.mem_singleton_self sent
      · rintro h heap sent hsent _ ⟨rfl⟩
        have hcov := (length_addrToSend_iff_covered first second).mpr (h first second rest rfl)
        exact hcov heap sent (toOption_eq_some.mpr (Option.mem_toList.mp hsent))

/-- A request that is cut within its address goes out with bytes of the heap in it. -/
theorem log_header_cut : ∃ w w' : World Reference.openssl,
    let first : Call := (.zeroed, ⟨[5, 1, 0], by decide, by decide⟩)
    let second : Call := (.zeroed, ⟨[5, 1, 0, 1, 1, 2, 3, 4], by decide, by decide⟩)
    (start (.zeroed _) 0).run [accepting _ cleared] = .ok w ∧
      (start (.zeroed _) 0).run [accepting _ filled] = .ok w' ∧
      w.log (heard 0) (arrivals first second) = [first, second] ∧
      w'.log (heard 0) (arrivals first second) = [first, second] ∧
      w.log (header 0) (arrivals first second) = [[1, 1, 2, 3, 4, 0, 0]] ∧
      w'.log (header 0) (arrivals first second) = [[1, 1, 2, 3, 4, 1, 1]] := by
  obtain ⟨w, hrun, hw, hheard⟩ := exists_heard (.zeroed Reference.openssl) 0 cleared
  obtain ⟨w', hrun', hw', hheard'⟩ := exists_heard (.zeroed Reference.openssl) 0 filled
  refine ⟨w, w', hrun, hrun', hheard _ _, hheard' _ _, ?_, ?_⟩
  · have hsent : addrToSend (received cleared (.zeroed, ⟨[5, 1, 0], by decide, by decide⟩)
        (.zeroed, ⟨[5, 1, 0, 1, 1, 2, 3, 4], by decide, by decide⟩)) =
          .ok [1, 1, 2, 3, 4, 0, 0] := by
      rw [addrToSend_ok_iff, slice_eq_map _ (by decide)]
      simp only [byteAt_received_cleared]
      decide
    rw [log_header hw, hheard, headerOf, hsent]
    rfl
  · have hsent : addrToSend (received filled (.zeroed, ⟨[5, 1, 0], by decide, by decide⟩)
        (.zeroed, ⟨[5, 1, 0, 1, 1, 2, 3, 4], by decide, by decide⟩)) =
          .ok [1, 1, 2, 3, 4, 1, 1] := by
      rw [addrToSend_ok_iff, slice_eq_map _ (by decide)]
      simp only [byteAt_received]
      decide
    rw [log_header hw', hheard', headerOf, hsent]
    rfl

end World

end Shadowsocks
