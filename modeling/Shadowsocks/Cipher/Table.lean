import Shadowsocks.Cipher.OpenSSL

/-! table.m: the substitution tables and the merge sort that shuffles them. -/
namespace Shadowsocks

/-- `unsigned char[256]` -/
abbrev ByteTable := Vector UInt8 256

namespace Table

variable {a : UInt64} {i : UInt32}

/-- `return (a % (x + i) - a % (y + i));`, computed in 64 bits and returned in an `int`. -/
def randomCompare (a : UInt64) (i : UInt32) (x y : UInt8) : Int32 :=
  (a % (x.toUInt32 + i).toUInt64 - a % (y.toUInt32 + i).toUInt64).toUInt32.toInt32

/-- The three loops of `merge` on the copied segments: what they leave from `left` on. -/
def merge (a : UInt64) (i : UInt32) : Bytes → Bytes → Bytes
  | [], rr => rr
  | ll, [] => ll
  | x :: ll, y :: rr =>
    if randomCompare a i x y ≤ 0 then x :: merge a i ll (y :: rr)
    else y :: merge a i (x :: ll) rr
termination_by ll rr => ll.length + rr.length

/-- `uint8_t middle = (uint8_t)(length / 2)`. From 512 elements on it is not the half. -/
def middle (length : Nat) : Nat := (UInt8.ofNat (length / 2)).toNat

theorem middle_eq {length : Nat} (h : length < 512) : middle length = length / 2 :=
  UInt8.toNat_ofNat_of_lt (by simp [UInt8.size]; omega)

/-- `merge_sort`, on the lengths whose half `middle` can hold. -/
def mergeSort (a : UInt64) (i : UInt32) (array : Bytes) (h : array.length < 512) : Bytes :=
  if array.length ≤ 1 then array
  else
    let llength := array.length - middle array.length
    merge a i
      (mergeSort a i (array.take llength) (by rw [List.length_take]; omega))
      (mergeSort a i (array.drop llength) (by rw [List.length_drop]; omega))
termination_by array.length
decreasing_by
  all_goals
    have := middle_eq h
    simp only [List.length_take, List.length_drop]
    omega

theorem merge_perm (ll rr : Bytes) : (merge a i ll rr).Perm (ll ++ rr) := by
  induction ll, rr using merge.induct (a := a) (i := i) with
  | case1 rr => simp [merge]
  | case2 ll h => cases ll <;> simp_all [merge]
  | case3 x ll y rr hle ih =>
    rw [merge, if_pos hle]
    exact ih.cons x
  | case4 x ll y rr hgt ih =>
    rw [merge, if_neg hgt]
    exact (ih.cons y).trans List.perm_middle.symm

theorem mergeSort_perm (array : Bytes) (h : array.length < 512) :
    (mergeSort a i array h).Perm array := by
  induction array, h using mergeSort.induct with
  | case1 array h hle => rw [mergeSort, if_pos hle]
  | case2 array h hgt llength ihl ihr =>
    rw [mergeSort, if_neg hgt]
    have hhalves := ihl.append ihr
    rw [List.take_append_drop] at hhalves
    exact (merge_perm _ _).trans hhalves

/-- `merge_sort(table, 256)` in place. -/
def sortPass (a : UInt64) (t : ByteTable) (i : UInt32) : ByteTable :=
  ⟨(mergeSort a i t.toList (by simp)).toArray, by
    simpa using (mergeSort_perm (a := a) (i := i) t.toList (by simp)).length_eq⟩

theorem sortPass_perm (t : ByteTable) : (sortPass a t i).toList.Perm t.toList :=
  mergeSort_perm _ _

/-- `*(uint64_t *)tmp_hash` on a little-endian machine. -/
def load64Le (hash : Bytes) : UInt64 :=
  (hash.take 8).foldr (fun b acc => (acc <<< 8) ||| b.toUInt64) 0

/-- The first loop of `get_table`: `table[i] = (unsigned char)i`. -/
def identity : ByteTable := Vector.ofFn fun k : Fin 256 => UInt8.ofNat k

/-- The second loop of `get_table`: a pass of the sort for each `_i` from 1 to 1023. -/
def shuffle (a : UInt64) : ByteTable :=
  ((List.range' 1 1023).map UInt32.ofNat).foldl (sortPass a) identity

/-- `decrypt_table[encrypt_table[i]] = (unsigned char)i` -/
def invertAt (encrypt decrypt : ByteTable) (i : Fin 256) : ByteTable :=
  decrypt.set encrypt[i].toNat (UInt8.ofNat i) encrypt[i].toNat_lt

/-- The last loop of `get_table`. -/
def invert (encrypt decrypt : ByteTable) : ByteTable :=
  (List.finRange 256).foldl (invertAt encrypt) decrypt

/-- `get_table`: the pair of tables it leaves, from the old `decrypt_table`. -/
def getTable (S : OpenSSL) (key : Bytes) (decrypt : ByteTable) : ByteTable × ByteTable :=
  let encrypt := shuffle (load64Le (S.md5 key))
  (encrypt, invert encrypt decrypt)

def lookup (t : ByteTable) (b : UInt8) : UInt8 := t[b.toFin]

/-- The loop of `table_encrypt` and `table_decrypt`: `*buf = table[*buf]`. -/
def substitute (t : ByteTable) (buf : Bytes) : Bytes := buf.map (lookup t)

theorem nodup_iff (t : ByteTable) : t.toList.Nodup ↔ ∀ j k : Fin 256, t[j] = t[k] → j = k := by
  rw [List.nodup_iff_injective_get]
  constructor
  · intro h j k hjk
    have := @h ⟨j, by simp⟩ ⟨k, by simp⟩ (by simpa using hjk)
    simpa [Fin.ext_iff] using this
  · intro h j k hjk
    have := h ⟨j, by simpa using j.isLt⟩ ⟨k, by simpa using k.isLt⟩ (by simpa using hjk)
    simpa [Fin.ext_iff] using this

theorem nodup_identity : identity.toList.Nodup := by
  rw [nodup_iff]
  intro j k h
  have hv := congrArg UInt8.toNat h
  simpa [identity, Fin.ext_iff] using hv

theorem mem_identity (b : UInt8) : b ∈ identity.toList := by
  rw [Vector.mem_toList_iff, Vector.mem_iff_getElem]
  exact ⟨b.toNat, b.toNat_lt, by simp [identity]⟩

theorem shuffle_perm (a : UInt64) : (shuffle a).toList.Perm identity.toList := by
  have hfold : ∀ (is : List UInt32) (t : ByteTable),
      (is.foldl (sortPass a) t).toList.Perm t.toList := by
    intro is
    induction is with
    | nil => intro t; rfl
    | cons i is ih => intro t; exact (ih _).trans (sortPass_perm t)
  exact hfold _ identity

/-- No element is lost or duplicated in any of the 1023 passes. -/
theorem nodup_shuffle (a : UInt64) : (shuffle a).toList.Nodup :=
  (shuffle_perm a).nodup_iff.mpr nodup_identity

/-- Without duplicates no two writes of the last loop go to one cell. -/
theorem lookup_invertAt {encrypt : ByteTable} (h : encrypt.toList.Nodup) (t : ByteTable)
    (j k : Fin 256) : lookup (invertAt encrypt t j) encrypt[k] =
      if k = j then UInt8.ofNat k else lookup t encrypt[k] := by
  by_cases hjk : k = j
  · subst j
    simp [lookup, invertAt]
  · have hne : encrypt[j].toNat ≠ encrypt[k].toNat := by
      intro he
      exact hjk ((nodup_iff _).mp h j k (UInt8.toNat_inj.mp he)).symm
    rw [if_neg hjk]
    exact Vector.getElem_set_ne encrypt[j].toNat_lt encrypt[k].toNat_lt hne

theorem lookup_invert {encrypt : ByteTable} (h : encrypt.toList.Nodup) (decrypt : ByteTable)
    (k : Fin 256) : lookup (invert encrypt decrypt) encrypt[k] = UInt8.ofNat k := by
  have hfold : ∀ (js : List (Fin 256)) (t : ByteTable),
      lookup (js.foldl (invertAt encrypt) t) encrypt[k] =
        if k ∈ js then UInt8.ofNat k else lookup t encrypt[k] := by
    intro js
    induction js with
    | nil => intro t; simp
    | cons j js ih =>
      intro t
      rw [List.foldl_cons, ih, lookup_invertAt h]
      by_cases hjk : k = j <;> simp [hjk]
  rw [invert, hfold, if_pos (List.mem_finRange k)]

theorem lookup_invert_lookup {encrypt : ByteTable} (h : encrypt.toList.Nodup)
    (decrypt : ByteTable) (b : UInt8) : lookup (invert encrypt decrypt) (lookup encrypt b) = b := by
  have := lookup_invert h decrypt b.toFin
  simpa [lookup] using this

/-- The other direction: every byte is in the table, so it is the image of its index. -/
theorem lookup_lookup_invert {encrypt : ByteTable} (h : encrypt.toList.Perm identity.toList)
    (decrypt : ByteTable) (b : UInt8) : lookup encrypt (lookup (invert encrypt decrypt) b) = b := by
  have hmem : b ∈ encrypt.toList := h.mem_iff.mpr (mem_identity b)
  rw [Vector.mem_toList_iff, Vector.mem_iff_getElem] at hmem
  obtain ⟨k, hk, rfl⟩ := hmem
  have hinv := lookup_invert (h.nodup_iff.mpr nodup_identity) decrypt ⟨k, hk⟩
  rw [Fin.getElem_fin] at hinv
  rw [hinv]
  simp [lookup, Nat.mod_eq_of_lt hk]

theorem substitute_substitute {t u : ByteTable} (h : ∀ b, lookup u (lookup t b) = b) (buf : Bytes) :
    substitute u (substitute t buf) = buf := by
  simp only [substitute, List.map_map]
  exact (List.map_congr_left fun b _ => h b).trans (List.map_id buf)

/-- `table_decrypt` undoes `table_encrypt`, whatever the two machines' tables held before. -/
theorem substitute_getTable (S : OpenSSL) (key : Bytes) (old old' : ByteTable) (buf : Bytes) :
    substitute (getTable S key old).2 (substitute (getTable S key old').1 buf) = buf := by
  apply substitute_substitute
  intro b
  have := lookup_invert_lookup (nodup_shuffle (load64Le (S.md5 key))) old b
  simpa only [getTable] using this

/-- `get_table` leaves a table for the 64-bit value it takes from the hash of the password, and
its inverse. For each of the 2^64 values they are inverse permutations of the bytes. -/
theorem getTable_bijective (a : UInt64) (old : ByteTable) :
    let encrypt := shuffle a
    let decrypt := invert encrypt old
    (∀ (S : OpenSSL) key, getTable S key old =
      (shuffle (load64Le (S.md5 key)), invert (shuffle (load64Le (S.md5 key))) old)) ∧
    encrypt.toList.Perm identity.toList ∧
      (∀ b, lookup decrypt (lookup encrypt b) = b) ∧
      (∀ b, lookup encrypt (lookup decrypt b) = b) ∧
      (∀ buf, substitute decrypt (substitute encrypt buf) = buf) ∧
      ∀ buf, substitute encrypt (substitute decrypt buf) = buf := by
  intro encrypt decrypt
  have hperm : encrypt.toList.Perm identity.toList := shuffle_perm a
  have hdecrypt : ∀ b, lookup decrypt (lookup encrypt b) = b :=
    lookup_invert_lookup (nodup_shuffle a) old
  have hencrypt : ∀ b, lookup encrypt (lookup decrypt b) = b := lookup_lookup_invert hperm old
  refine ⟨?_, hperm, hdecrypt, hencrypt, substitute_substitute hdecrypt,
    substitute_substitute hencrypt⟩
  intro S key
  rw [getTable]

end Table

end Shadowsocks
