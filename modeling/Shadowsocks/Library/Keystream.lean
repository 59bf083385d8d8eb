import Mathlib.Data.List.Basic
import Shadowsocks.Library.Streaming

/-! Xor with a keystream, indexed by bytes or produced block by block. -/
namespace Keystream

/-- Xor the bytes at stream positions `n`, `n + 1`, ... with the keystream there. -/
def xorAt (ks : Nat → UInt8) (n : Nat) (m : List UInt8) : List UInt8 :=
  m.mapIdx fun i b => b ^^^ ks (n + i)

variable {ks : Nat → UInt8} {n : Nat} {m : List UInt8}

@[simp] theorem length_xorAt : (xorAt ks n m).length = m.length := List.length_mapIdx

@[simp] theorem xorAt_nil : xorAt ks n [] = [] := rfl

theorem xorAt_append (a b : List UInt8) :
    xorAt ks n (a ++ b) = xorAt ks n a ++ xorAt ks (n + a.length) b := by
  simp only [xorAt, List.mapIdx_append]
  congr 2
  funext i x
  rw [Nat.add_assoc, Nat.add_comm i]

/-- The same keystream at the same position undoes the xor. -/
theorem xorAt_xorAt : xorAt ks n (xorAt ks n m) = m := by
  apply List.ext_getElem
  · rw [length_xorAt, length_xorAt]
  · intro i _ _
    simp only [xorAt, List.getElem_mapIdx]
    rw [UInt8.xor_assoc, UInt8.xor_self, UInt8.xor_zero]

/-- Positioned xor as a stateful transformation: the state is the stream position. -/
def push (ks : Nat → UInt8) (n : Nat) (m : List UInt8) : Nat × List UInt8 :=
  (n + m.length, xorAt ks n m)

theorem chunkable_push (ks : Nat → UInt8) : Streaming.Chunkable (push ks) fun _ => True where
  push_nil _ := rfl
  push_append a b _ := by simp [push, xorAt_append, Nat.add_assoc]
  closed _ _ := trivial

/-- The keystream of a 64-byte block function whose counter is 64 bits wide. -/
def ofBlocks (block : UInt64 → List UInt8) (p : Nat) : UInt8 :=
  (block (UInt64.ofNat (p / 64))).getD (p % 64) 0

/-- Xor block by block from counter `ic` on, the last block possibly partial. -/
def xorBlocks (block : UInt64 → List UInt8) (ic : UInt64) (m : List UInt8) : List UInt8 :=
  if 64 ≤ m.length then
    List.zipWith (· ^^^ ·) (m.take 64) (block ic) ++ xorBlocks block (ic + 1) (m.drop 64)
  else
    List.zipWith (· ^^^ ·) m (block ic)
termination_by m.length
decreasing_by rw [List.length_drop]; omega

theorem ofBlocks_add (block : UInt64 → List UInt8) (k : Nat) {i : Nat} (hi : i < 64) :
    ofBlocks block (64 * k + i) = (block (UInt64.ofNat k)).getD i 0 := by
  rw [ofBlocks, show (64 * k + i) / 64 = k by omega, show (64 * k + i) % 64 = i by omega]

/-- At most one block of input meets exactly the block of its counter. -/
theorem zipWith_block {block : UInt64 → List UInt8} (hlen : ∀ ic, (block ic).length = 64)
    (k : Nat) (hm : m.length ≤ 64) :
    List.zipWith (· ^^^ ·) m (block (UInt64.ofNat k)) = xorAt (ofBlocks block) (64 * k) m := by
  apply List.ext_getElem
  · simp [hlen, hm]
  · intro i _ hi
    have hi64 : i < 64 := by
      rw [length_xorAt] at hi
      omega
    have hb : i < (block (UInt64.ofNat k)).length := by rwa [hlen]
    simp [xorAt, ofBlocks_add block k hi64, List.getElem?_eq_getElem hb]

/-- Starting at counter `k` is starting at byte `64 * k` of the keystream. -/
theorem xorBlocks_eq {block : UInt64 → List UInt8} (hlen : ∀ ic, (block ic).length = 64)
    (k : Nat) (m : List UInt8) :
    xorBlocks block (UInt64.ofNat k) m = xorAt (ofBlocks block) (64 * k) m := by
  rw [xorBlocks]
  split
  next hge =>
    have hnext : UInt64.ofNat k + 1 = UInt64.ofNat (k + 1) := by simp
    have hfull : (m.take 64).length = 64 := by simp [hge]
    have hsplit : xorAt (ofBlocks block) (64 * k) m =
        xorAt (ofBlocks block) (64 * k) (m.take 64) ++
          xorAt (ofBlocks block) (64 * (k + 1)) (m.drop 64) := by
      conv_lhs => rw [← List.take_append_drop 64 m, xorAt_append, hfull]
      rw [Nat.mul_succ]
    rw [hnext, xorBlocks_eq hlen (k + 1), zipWith_block hlen k (Nat.le_of_eq hfull), hsplit]
  next hlt => exact zipWith_block hlen k (by omega)
termination_by m.length
decreasing_by rw [List.length_drop]; omega

end Keystream
