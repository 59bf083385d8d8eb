import Shadowsocks.Cipher.Table
import Shadowsocks.Library.StableSort

/-! The merge sort of table.m is a stable one, for each of the keys that `get_table` sorts by. -/
namespace Shadowsocks.Table

open StableSort

variable {a : UInt64} {i : UInt32}

/-- What `random_compare` compares two bytes by. -/
def key (a : UInt64) (i : UInt32) (x : UInt8) : Nat := a.toNat % (x.toNat + i.toNat)

theorem divisor_toNat (hi : i.toNat < 1024) (x : UInt8) :
    (x.toUInt32 + i).toUInt64.toNat = x.toNat + i.toNat := by
  have hx := x.toNat_lt
  rw [UInt32.toNat_toUInt64, UInt32.toNat_add, UInt8.toNat_toUInt32, Nat.mod_eq_of_lt (by omega)]

theorem key_lt (hi : 1 ≤ i.toNat) (hi' : i.toNat < 1024) (x : UInt8) : key a i x < 1279 := by
  have hx := x.toNat_lt
  have hmod := Nat.mod_lt a.toNat (by omega : 0 < x.toNat + i.toNat)
  rw [key]
  omega

/-- No difference is too large for the 32 bits it is returned in. -/
theorem toInt_randomCompare (hi : 1 ≤ i.toNat) (hi' : i.toNat < 1024) (x y : UInt8) :
    (randomCompare a i x y).toInt = (key a i x : Int) - key a i y := by
  have hx := key_lt (a := a) hi hi' x
  have hy := key_lt (a := a) hi hi' y
  have hdiff : (a % (x.toUInt32 + i).toUInt64 - a % (y.toUInt32 + i).toUInt64).toNat =
      (2 ^ 64 - key a i y + key a i x) % 2 ^ 64 := by
    rw [UInt64.toNat_sub, UInt64.toNat_mod, UInt64.toNat_mod, divisor_toNat hi', divisor_toNat hi']
    rfl
  have hcut : (a % (x.toUInt32 + i).toUInt64 - a % (y.toUInt32 + i).toUInt64).toUInt32.toNat =
      (2 ^ 64 - key a i y + key a i x) % 2 ^ 64 % 2 ^ 32 := by
    rw [UInt64.toNat_toUInt32, hdiff]
  rw [randomCompare]
  generalize (a % (x.toUInt32 + i).toUInt64 - a % (y.toUInt32 + i).toUInt64).toUInt32 = u at hcut
  have hint : u.toInt32.toInt = (u.toNat : Int).bmod (2 ^ 32) := by
    change u.toBitVec.toInt = _
    rw [BitVec.toInt_eq_toNat_bmod]
    rfl
  rw [hint, hcut]
  generalize key a i x = p at hx ⊢
  generalize key a i y = q at hy ⊢
  have hcast : (((2 ^ 64 - q + p) % 2 ^ 64 % 2 ^ 32 : Nat) : Int) = (p - q : Int) ∨
      (((2 ^ 64 - q + p) % 2 ^ 64 % 2 ^ 32 : Nat) : Int) = (p - q : Int) + (2 ^ 32 : Nat) := by
    omega
  rcases hcast with hcast | hcast
  · rw [hcast]
    exact Int.bmod_eq_of_le (by omega) (by omega)
  · rw [hcast, Int.add_bmod_right]
    exact Int.bmod_eq_of_le (by omega) (by omega)

theorem randomCompare_le_zero_iff (hi : 1 ≤ i.toNat) (hi' : i.toNat < 1024) (x y : UInt8) :
    randomCompare a i x y ≤ 0 ↔ key a i x ≤ key a i y := by
  rw [Int32.le_iff_toInt_le, toInt_randomCompare hi hi']
  have hzero : (0 : Int32).toInt = 0 := rfl
  rw [hzero]
  omega

/-- `merge` takes from the left when the keys are equal. -/
theorem merge_eq (hi : 1 ≤ i.toNat) (hi' : i.toNat < 1024) (ll rr : Bytes) :
    merge a i ll rr = ll.merge rr fun x y => key a i x ≤ key a i y := by
  induction ll, rr using merge.induct (a := a) (i := i) with
  | case1 rr => rw [merge, List.nil_merge]
  | case2 ll h =>
    cases ll with
    | nil => rw [merge, List.merge_right]
    | cons x ll =>
      rw [merge, List.merge_right]
      exact h
  | case3 x ll y rr hle ih =>
    rw [merge, if_pos hle, ih, List.cons_merge_cons_pos]
    exact decide_eq_true ((randomCompare_le_zero_iff hi hi' x y).mp hle)
  | case4 x ll y rr hgt ih =>
    rw [merge, if_neg hgt, ih, List.cons_merge_cons_neg]
    rw [decide_eq_true_eq]
    exact mt (randomCompare_le_zero_iff hi hi' x y).mpr hgt

theorem sorts_mergeSort (hi : 1 ≤ i.toNat) (hi' : i.toNat < 1024) (array : Bytes)
    (h : array.length < 512) : Sorts (key a i) array (mergeSort a i array h) := by
  induction array, h using mergeSort.induct with
  | case1 array h hle =>
    rw [mergeSort, if_pos hle]
    exact sorts_of_length_le_one hle
  | case2 array h hgt llength ihl ihr =>
    rw [mergeSort, if_neg hgt]
    have hmerge := sorts_merge ihl ihr
    rw [List.take_append_drop] at hmerge
    dsimp only
    rw [merge_eq hi hi']
    exact hmerge

/-- A pass of any stable sort is a pass of this one. -/
theorem toList_sortPass (hi : 1 ≤ i.toNat) (hi' : i.toNat < 1024) (t : ByteTable) {sorted : Bytes}
    (h : Sorts (key a i) t.toList sorted) : (sortPass a t i).toList = sorted := by
  have hpass : (sortPass a t i).toList = mergeSort a i t.toList (by simp) := by simp [sortPass]
  rw [hpass]
  exact (sorts_mergeSort hi hi' _ _).unique h

/-- The passes of `get_table`, with some sort for each value of `_i`. -/
theorem foldl_sortPass {sort : UInt32 → Bytes → Bytes} (is : List UInt32)
    (his : ∀ i ∈ is, 1 ≤ i.toNat ∧ i.toNat < 1024)
    (hsort : ∀ i ∈ is, ∀ array : Bytes, array.length = 256 → Sorts (key a i) array (sort i array))
    (t : ByteTable) :
    is.foldl (fun array i => sort i array) t.toList = (is.foldl (sortPass a) t).toList := by
  induction is generalizing t with
  | nil => rfl
  | cons i is ih =>
    rw [List.forall_mem_cons] at his hsort
    have hpass := toList_sortPass his.1.1 his.1.2 t (hsort.1 t.toList (by simp))
    rw [List.foldl_cons, List.foldl_cons, ← hpass]
    exact ih his.2 hsort.2 _

theorem mem_passes (hi : i ∈ (List.range' 1 1023).map UInt32.ofNat) :
    1 ≤ i.toNat ∧ i.toNat < 1024 := by
  obtain ⟨n, hn, rfl⟩ := List.mem_map.mp hi
  rw [List.mem_range'_1] at hn
  rw [UInt32.toNat_ofNat_of_lt' (by simp [UInt32.size]; omega)]
  omega

/-- `merge_sort` is the stable sort by the key, its comparison says which key is the larger, and
`get_table` makes the table that it makes with any other stable sort. -/
theorem mergeSort_stable (a : UInt64) (i : UInt32) (hi : 1 ≤ i.toNat) (hi' : i.toNat < 1024)
    (array : Bytes) (h : array.length < 512) :
    Sorts (key a i) array (mergeSort a i array h) ∧
      mergeSort a i array h = array.mergeSort (fun x y => randomCompare a i x y ≤ 0) ∧
      (∀ x y, (x.toUInt32 + i).toUInt64 ≠ 0 ∧
        (randomCompare a i x y).toInt = (key a i x : Int) - key a i y) ∧
      ∀ sort : UInt32 → Bytes → Bytes,
        (∀ j : UInt32, 1 ≤ j.toNat → j.toNat < 1024 → ∀ table : Bytes, table.length = 256 →
          Sorts (key a j) table (sort j table)) →
        ((List.range' 1 1023).map UInt32.ofNat).foldl (fun table j => sort j table)
            identity.toList = (shuffle a).toList ∧
          ∀ (S : OpenSSL) password old, load64Le (S.md5 password) = a →
            (getTable S password old).1.toList =
              ((List.range' 1 1023).map UInt32.ofNat).foldl (fun table j => sort j table)
                identity.toList := by
  have hsorts := sorts_mergeSort hi hi' array h (a := a)
  refine ⟨hsorts, ?_, ?_, ?_⟩
  · rw [hsorts.unique (StableSort.sorts_mergeSort array)]
    congr 1
    funext x y
    exact decide_eq_decide.mpr (randomCompare_le_zero_iff hi hi' x y).symm
  · intro x y
    refine ⟨?_, toInt_randomCompare hi hi' x y⟩
    intro hzero
    have hdivisor := congrArg UInt64.toNat hzero
    rw [divisor_toNat hi' x] at hdivisor
    have : (0 : UInt64).toNat = 0 := rfl
    omega
  · intro sort hsort
    have htable : ((List.range' 1 1023).map UInt32.ofNat).foldl (fun table j => sort j table)
        identity.toList = (shuffle a).toList :=
      foldl_sortPass _ (fun j hj => mem_passes hj)
        (fun j hj => hsort j (mem_passes hj).1 (mem_passes hj).2) identity
    refine ⟨htable, ?_⟩
    intro S password old hload
    rw [htable, getTable, hload]

/-- Three of these bytes have the key 4. -/
theorem mergeSort_stable_ties : 1 ≤ (1 : UInt32).toNat ∧ (1 : UInt32).toNat < 1024 ∧
    Sorts (key 4 1) [7, 9, 1, 8] (mergeSort 4 1 [7, 9, 1, 8] (by decide)) :=
  ⟨by decide, by decide,
    (mergeSort_stable 4 1 (by decide) (by decide) [7, 9, 1, 8] (by decide)).1⟩

end Shadowsocks.Table
