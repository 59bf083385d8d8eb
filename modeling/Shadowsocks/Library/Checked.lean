import Mathlib.Data.Option.Basic
import Shadowsocks.Library.Memory

/-!
The operations on arrays with every access checked against the array's size. `none` stands for an
access outside; otherwise they do what the unchecked ones do.
-/
namespace Memory

variable {α : Type*} {n : Nat}

/-- Read `len` elements from `off` on. -/
def load (buf : Vector α n) (off len : Nat) : Option (List α) :=
  if off + len ≤ n then some ((buf.toList.drop off).take len) else none

/-- `memcpy`, inside the destination. -/
def store (dst : Vector α n) (off : Nat) (src : List α) : Option (Vector α n) :=
  if off + src.length ≤ n then some (memcpy dst off src) else none

/-- `*pt = *(pt + w)` with both cells inside. -/
def slideOne (w : Nat) (buf : Vector α n) (k : Nat) : Option (Vector α n) :=
  if k + w < n then some (moveOne w buf k) else none

/-- The loop of `moveDown`, each iteration checked. -/
def slide (buf : Vector α n) (w r : Nat) : Option (Vector α n) :=
  (List.range (r - w)).foldlM (slideOne w) buf

theorem load_of_le {buf : Vector α n} {off len : Nat} (h : off + len ≤ n) :
    load buf off len = some ((buf.toList.drop off).take len) := if_pos h

theorem load_eq_none {buf : Vector α n} {off len : Nat} (h : n < off + len) :
    load buf off len = none := if_neg (Nat.not_le.mpr h)

theorem load_front {buf : Vector α n} {len : Nat} (h : len ≤ n) :
    load buf 0 len = some (front buf len) := by
  apply load_of_le
  omega

/-- What stands at `off` is what comes after the front there. -/
theorem load_drop {buf : Vector α n} {off len : Nat} (h : off + len ≤ n) :
    load buf off len = some ((front buf (off + len)).drop off) := by
  rw [load_of_le h, front, List.drop_take, Nat.add_sub_cancel_left]

theorem store_of_le {dst : Vector α n} {off : Nat} {src : List α} (h : off + src.length ≤ n) :
    store dst off src = some (memcpy dst off src) := if_pos h

theorem store_zero {dst : Vector α n} {src : List α} (h : src.length ≤ n) :
    store dst 0 src = some (memcpy dst 0 src) := by
  apply store_of_le
  omega

theorem slideLoop (buf : Vector α n) (w : Nat) {k : Nat} (hk : k + w ≤ n) :
    (List.range k).foldlM (slideOne w) buf = some ((List.range k).foldl (moveOne w) buf) := by
  induction k with
  | zero => rfl
  | succ k ih =>
    have hlt : k + w < n := by omega
    rw [List.range_succ, List.foldlM_append, List.foldl_append, ih (by omega)]
    simp [slideOne, hlt]

/-- The loop stays inside when what is moved does. -/
theorem slide_of_le (buf : Vector α n) {w r : Nat} (hw : w ≤ r) (hr : r ≤ n) :
    slide buf w r = some (moveDown buf w r) := by
  rw [slide, slideLoop buf w (by omega), moveDown]

/-- One copy after another is one copy. -/
theorem memcpy_memcpy (dst : Vector α n) (off : Nat) (a b : List α) :
    memcpy (memcpy dst off a) (off + a.length) b = memcpy dst off (a ++ b) := by
  ext i hi
  rw [getElem_memcpy _ _ _ hi, getElem_memcpy _ _ _ hi, getElem_memcpy _ _ _ hi]
  by_cases hoff : off ≤ i
  · by_cases ha : off + a.length ≤ i
    · have hlen : a.length ≤ i - off := by omega
      have hsub : i - (off + a.length) = i - off - a.length := by omega
      simp [hoff, ha, hsub, List.getElem?_append_right hlen, List.getElem?_eq_none hlen]
    · have hlen : i - off < a.length := by omega
      simp [hoff, ha, List.getElem?_append_left hlen, hlen]
  · have ha : ¬ off + a.length ≤ i := by omega
    simp [hoff, ha]

/-- What is stored behind a copy prolongs it. -/
theorem store_memcpy (dst : Vector α n) (off : Nat) {a b : List α} (hoff : off = a.length)
    (h : off + b.length ≤ n) : store (memcpy dst 0 a) off b = some (memcpy dst 0 (a ++ b)) := by
  have hcopy := memcpy_memcpy dst 0 a b
  rw [Nat.zero_add, ← hoff] at hcopy
  rw [store_of_le h, hcopy]

end Memory
