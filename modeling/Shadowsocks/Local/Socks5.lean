import Mathlib.Data.List.GetD
import Shadowsocks.Library.Memory
import Shadowsocks.Cipher.Encrypt

/-!
socks5.h, and what `server_recv_cb` makes of the bytes of a request. The parser never
compares an offset with the number of bytes received.
-/
namespace Shadowsocks

open Memory

def socksVersion : UInt8 := 0x05
def socksCmdConnect : UInt8 := 0x01
def socksIpv4 : UInt8 := 0x01
def socksDomain : UInt8 := 0x03
def socksCmdNotSupported : UInt8 := 0x07

/-- `BUF_SIZE + EVP_MAX_IV_LENGTH + EVP_MAX_BLOCK_LENGTH` -/
def bufferSize : Nat := bufSize + 16 + 32

abbrev Buffer := Vector UInt8 bufferSize

/-- `struct method_select_response` -/
def methodSelectResponse : Bytes := [socksVersion, 0]

/-- The four bytes sent when the command is not CONNECT. -/
def unsupportedCmdResponse : Bytes := [socksVersion, socksCmdNotSupported, 0, socksIpv4]

/-- The fake reply: `0.0.0.0` and `htons(atoi(_remote_port))`. -/
def connectReply (remotePort : UInt16) : Bytes :=
  [socksVersion, 0, 0, socksIpv4, 0, 0, 0, 0, (remotePort >>> 8).toUInt8, remotePort.toUInt8]

/-- Why a request is turned down. -/
inductive Refusal
  | unsupportedCmd
  | unsupportedAddrtype
  deriving DecidableEq, Repr

def byteAt (buf : Buffer) (i : Nat) : UInt8 := buf.toList.getD i 0

/-- `memcpy(…, server->buf + off, len)` -/
def slice (buf : Buffer) (off len : Nat) : Bytes := (buf.toList.drop off).take len

/-- What stage 1 reads out of `server->buf` into `addr_to_send`. -/
def addrToSend (buf : Buffer) : Except Refusal Bytes :=
  if byteAt buf 1 ≠ socksCmdConnect then .error .unsupportedCmd
  else
    let atyp := byteAt buf 3
    if atyp = socksIpv4 then .ok ([atyp] ++ slice buf 4 6)
    else if atyp = socksDomain then
      let nameLen := byteAt buf 4
      .ok ([atyp, nameLen] ++ slice buf 5 nameLen.toNat ++
        [byteAt buf (5 + nameLen.toNat), byteAt buf (5 + nameLen.toNat + 1)])
    else .error .unsupportedAddrtype

/-- The length of the address that starts the bytes, read off its first two. -/
def addressLen (x : Bytes) : Option Nat :=
  if x.getD 0 0 = socksIpv4 then some 7
  else if x.getD 0 0 = socksDomain then some (4 + (x.getD 1 0).toNat)
  else none

/-- An atyp with the address and the port that belong to it. -/
def IsAddress (a : Bytes) : Prop := addressLen a = some a.length

instance (a : Bytes) : Decidable (IsAddress a) := inferInstanceAs (Decidable (_ = _))

theorem addressLen_bounds {x : Bytes} {len : Nat} (h : addressLen x = some len) :
    4 ≤ len ∧ len ≤ 259 := by
  have hlt := (x.getD 1 0).toNat_lt
  unfold addressLen at h
  split at h
  · simp only [Option.some.injEq] at h
    omega
  · split at h
    · simp only [Option.some.injEq] at h
      omega
    · cases h

theorem IsAddress.two_le {a : Bytes} (h : IsAddress a) : 2 ≤ a.length := by
  have := addressLen_bounds h
  omega

theorem addressLen_congr {x y : Bytes} (h : ∀ i < 2, x.getD i 0 = y.getD i 0) :
    addressLen x = addressLen y := by
  simp only [addressLen, h 0 (by decide), h 1 (by decide)]

theorem addressLen_append {a : Bytes} (h : 2 ≤ a.length) (b : Bytes) :
    addressLen (a ++ b) = addressLen a := by
  apply addressLen_congr
  intro i hi
  exact List.getD_append _ _ _ _ (by omega)

/-- No address starts another. -/
theorem IsAddress.prefix_free {a b x y : Bytes} (ha : IsAddress a) (hb : IsAddress b)
    (h : a ++ x = b ++ y) : a = b ∧ x = y := by
  have hlen : addressLen a = addressLen b := by
    rw [← addressLen_append ha.two_le x, h, addressLen_append hb.two_le y]
  rw [ha, hb, Option.some.injEq] at hlen
  exact List.append_inj h hlen

theorem slice_add (buf : Buffer) (off m n : Nat) :
    slice buf off (m + n) = slice buf off m ++ slice buf (off + m) n := by
  simp only [slice, List.take_add, List.drop_drop]

theorem slice_one (buf : Buffer) {i : Nat} (h : i < bufferSize) :
    slice buf i 1 = [byteAt buf i] := by
  have hi : i < buf.toList.length := by rwa [Vector.length_toList]
  rw [slice, List.drop_eq_getElem_cons hi, List.take_succ_cons, List.take_zero, byteAt,
    List.getD_eq_getElem _ _ hi]

theorem length_slice (buf : Buffer) {off len : Nat} (h : off + len ≤ bufferSize) :
    (slice buf off len).length = len := by
  rw [slice, List.length_take, List.length_drop, Vector.length_toList]
  omega

theorem addressLen_drop (buf : Buffer) :
    addressLen (buf.toList.drop 3) =
      if byteAt buf 3 = socksIpv4 then some 7
      else if byteAt buf 3 = socksDomain then some (4 + (byteAt buf 4).toNat)
      else none := by
  simp only [addressLen, byteAt, List.getD_eq_getElem?_getD, List.getElem?_drop]

theorem slice_ipv4 (buf : Buffer) : [byteAt buf 3] ++ slice buf 4 6 = slice buf 3 7 := by
  rw [show 7 = 1 + 6 from rfl, slice_add, slice_one buf (by decide)]

theorem slice_domain (buf : Buffer) {n : Nat} (hn : n < 256) :
    [byteAt buf 3, byteAt buf 4] ++ slice buf 5 n ++ [byteAt buf (5 + n), byteAt buf (5 + n + 1)] =
      slice buf 3 (4 + n) := by
  have hsize : bufferSize = 1548 := rfl
  have hport : slice buf (5 + n) 2 = [byteAt buf (5 + n), byteAt buf (5 + n + 1)] := by
    rw [show 2 = 1 + 1 from rfl, slice_add, slice_one buf (by omega), slice_one buf (by omega)]
    rfl
  have hhead : slice buf 3 2 = [byteAt buf 3, byteAt buf 4] := by
    rw [show 2 = 1 + 1 from rfl, slice_add, slice_one buf (by omega), slice_one buf (by omega)]
    rfl
  rw [← hport, ← hhead, show 4 + n = 2 + n + 2 by omega, slice_add, slice_add,
    show 3 + (2 + n) = 5 + n by omega]

/-- Whatever the branch, what is sent is the piece of the buffer from offset 3 on. -/
theorem addrToSend_eq (buf : Buffer) :
    addrToSend buf =
      if byteAt buf 1 ≠ socksCmdConnect then .error .unsupportedCmd
      else (addressLen (buf.toList.drop 3)).elim (.error .unsupportedAddrtype)
        fun len => .ok (slice buf 3 len) := by
  simp only [addressLen_drop, addrToSend, slice_ipv4, slice_domain buf (byteAt buf 4).toNat_lt]
  by_cases hcmd : byteAt buf 1 ≠ socksCmdConnect
  · simp only [if_pos hcmd]
  · simp only [if_neg hcmd]
    by_cases h4 : byteAt buf 3 = socksIpv4
    · simp only [if_pos h4, Option.elim_some]
    · by_cases hd : byteAt buf 3 = socksDomain
      · simp only [if_neg h4, if_pos hd, Option.elim_some]
      · simp only [if_neg h4, if_neg hd, Option.elim_none]

/-- What is forwarded is an address, and starts at offset 3. -/
theorem addrToSend_ok_iff {buf : Buffer} {header : Bytes} :
    addrToSend buf = .ok header ↔ byteAt buf 1 = socksCmdConnect ∧ IsAddress header ∧
      slice buf 3 header.length = header := by
  have hsize : bufferSize = 1548 := rfl
  have hsplit : ∀ len, buf.toList.drop 3 = slice buf 3 len ++ buf.toList.drop (3 + len) := by
    intro len
    rw [slice, ← List.drop_drop, List.take_append_drop]
  rw [addrToSend_eq]
  constructor
  · intro h
    split at h
    · cases h
    · next hcmd =>
      cases hlen : addressLen (buf.toList.drop 3) with
      | none =>
        rw [hlen] at h
        cases h
      | some len =>
        rw [hlen] at h
        obtain rfl := Except.ok.inj h
        have hbounds := addressLen_bounds hlen
        have hslice := length_slice buf (show 3 + len ≤ bufferSize by omega)
        rw [hsplit len, addressLen_append (by omega)] at hlen
        exact ⟨not_not.mp hcmd, by rw [IsAddress, hlen, hslice], by rw [hslice]⟩
  · rintro ⟨hcmd, haddr, hslice⟩
    rw [if_neg (not_not_intro hcmd), hsplit header.length, hslice,
      addressLen_append haddr.two_le, haddr, Option.elim_some, hslice]

theorem length_header {buf : Buffer} {header : Bytes} (h : addrToSend buf = .ok header) :
    header.length ≤ bufSize := by
  have hbounds := addressLen_bounds (addrToSend_ok_iff.mp h).2.1
  have hsize : bufSize = 1500 := rfl
  omega

theorem byteAt_memcpy (buf : Buffer) {x : Bytes} (hx : x.length ≤ bufferSize) {i : Nat}
    (hi : i < x.length) : byteAt (memcpy buf 0 x) i = x.getD i 0 := by
  rw [byteAt, toList_memcpy_zero _ hx, List.getD_append _ _ _ _ hi]

theorem slice_memcpy (buf : Buffer) {x : Bytes} (hx : x.length ≤ bufferSize) {off len : Nat}
    (hlen : off + len ≤ x.length) : slice (memcpy buf 0 x) off len = (x.drop off).take len := by
  rw [slice, toList_memcpy_zero _ hx, List.drop_append_of_le_length (by omega),
    List.take_append_of_le_length (by rw [List.length_drop]; omega)]

/-- A request that has been received whole is forwarded as it is. -/
theorem addrToSend_request (buf : Buffer) {a : Bytes} (ha : IsAddress a) (ver rsv : UInt8) :
    addrToSend (memcpy buf 0 (ver :: socksCmdConnect :: rsv :: a)) = .ok a := by
  have hx : (ver :: socksCmdConnect :: rsv :: a).length ≤ bufferSize := by
    have hbounds := addressLen_bounds ha
    have hsize : bufferSize = 1548 := rfl
    simp only [List.length_cons]
    omega
  rw [addrToSend_ok_iff]
  refine ⟨byteAt_memcpy buf hx (by simp), ha, ?_⟩
  rw [slice_memcpy buf hx (by simp only [List.length_cons]; omega)]
  simp

end Shadowsocks
