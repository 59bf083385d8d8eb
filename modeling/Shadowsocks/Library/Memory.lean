import Mathlib.Data.Vector.Basic
import Mathlib.Data.List.Basic

/-! Arrays of a fixed size that are filled from the front and moved in place. -/
namespace Memory

variable {α : Type*} {n : Nat}

/-- Store `src` at offset `off`. A write past the end of the array is not modelled: the part
of `src` that does not fit is dropped, and users show that there is none. -/
@[irreducible] def memcpy (dst : Vector α n) (off : Nat) (src : List α) : Vector α n :=
  Vector.ofFn fun i => if off ≤ i.val then src.getD (i.val - off) dst[i] else dst[i]

/-- The first `len` bytes. -/
def front (buf : Vector α n) (len : Nat) : List α := buf.toList.take len

/-- `*pt = *(pt + w)` with `pt` at index `k`. -/
def moveOne (w : Nat) (buf : Vector α n) (k : Nat) : Vector α n :=
  (buf[k + w]?).elim buf (buf.setIfInBounds k)

/-- The loop `while (pt + w < et) { *pt = *(pt + w); pt++; }` with `et = pt + r` at first. -/
@[irreducible] def moveDown (buf : Vector α n) (w r : Nat) : Vector α n :=
  (List.range (r - w)).foldl (moveOne w) buf

theorem getElem_memcpy (dst : Vector α n) (off : Nat) (src : List α) {i : Nat} (hi : i < n) :
    (memcpy dst off src)[i] = if off ≤ i then src.getD (i - off) dst[i] else dst[i] := by
  simp [memcpy]

theorem length_front (buf : Vector α n) {len : Nat} (h : len ≤ n) :
    (front buf len).length = len := by
  simp [front, h]

/-- What was stored at `off` comes after the old contents there. -/
theorem front_memcpy (dst : Vector α n) {off : Nat} {src : List α} (h : off + src.length ≤ n) :
    front (memcpy dst off src) (off + src.length) = front dst off ++ src := by
  apply List.ext_getElem
  · simp [front]; omega
  · intro i hi _
    have hi : i < off + src.length := by simp [front] at hi; omega
    have hin : i < n := by omega
    by_cases hoff : off ≤ i
    · have hsrc : i - off < src.length := by omega
      simp [front, getElem_memcpy _ _ _ hin, hoff, hsrc, show min off n = off by omega]
    · simp [front, getElem_memcpy _ _ _ hin, hoff, List.getElem_append]
      omega

theorem front_memcpy_zero (dst : Vector α n) {src : List α} (h : src.length ≤ n) :
    front (memcpy dst 0 src) src.length = src := by
  have := front_memcpy dst (Nat.le_trans (Nat.le_of_eq (Nat.zero_add _)) h)
  simpa [front] using this

/-- The new contents, and behind them what was there. -/
theorem toList_memcpy_zero (dst : Vector α n) {src : List α} (h : src.length ≤ n) :
    (memcpy dst 0 src).toList = src ++ dst.toList.drop src.length := by
  apply List.ext_getElem
  · simp
    omega
  · intro i hi _
    have hin : i < n := by simpa using hi
    by_cases hsrc : i < src.length
    · simp [getElem_memcpy _ _ _ hin, hsrc]
    · simp [getElem_memcpy _ _ _ hin, hsrc, List.getElem_append_right (Nat.le_of_not_lt hsrc),
        show src.length + (i - src.length) = i by omega]

theorem getElem?_moveOne (buf : Vector α n) {w k : Nat} (h : k + w < n) (i : Nat) :
    (moveOne w buf k)[i]? = if i = k then buf[k + w]? else buf[i]? := by
  have hk : k < n := by omega
  by_cases hik : i = k
  · subst i
    simp [moveOne, h, hk]
  · simp [moveOne, h, Vector.getElem?_setIfInBounds_ne, hik, Ne.symm hik]

/-- Each iteration reads a cell that no earlier one has written. -/
theorem getElem?_moveLoop (buf : Vector α n) (w : Nat) {k : Nat} (hk : k + w ≤ n) (i : Nat) :
    ((List.range k).foldl (moveOne w) buf)[i]? = if i < k then buf[i + w]? else buf[i]? := by
  induction k generalizing i with
  | zero => simp
  | succ k ih =>
    have ih := ih (by omega)
    rw [List.range_succ, List.foldl_append, List.foldl_cons, List.foldl_nil,
      getElem?_moveOne _ (by omega), ih, ih, if_neg (by omega : ¬ k + w < k)]
    by_cases hik : i = k
    · subst i
      simp
    · simp only [hik, if_false, show i < k + 1 ↔ i < k by omega]

/-- After the loop the front of the array is what followed the first `w` elements. -/
theorem front_moveDown (buf : Vector α n) {w r : Nat} (hw : w ≤ r) (hr : r ≤ n) :
    front (moveDown buf w r) (r - w) = (front buf r).drop w := by
  apply List.ext_getElem?
  intro i
  have hloop := getElem?_moveLoop buf w (k := r - w) (by omega) i
  by_cases hi : i < r - w
  · rw [if_pos hi, Nat.add_comm] at hloop
    have hir : w + i < r := by omega
    simpa [front, hi, hir, moveDown, List.getElem?_take] using hloop
  · simp [front, hi, show ¬ w + i < r by omega]

end Memory
