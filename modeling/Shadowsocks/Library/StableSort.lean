import Mathlib.Data.List.Perm.Basic
import Mathlib.Order.Lattice

/-! Sorting by a key with equal keys left in their order. -/
namespace StableSort

universe u v
variable {α : Type u} {κ : Type v} [LinearOrder κ] {key : α → κ} {l r a b : List α}

/-- The second list is the first one sorted, and elements of one key keep their order. -/
structure Sorts (key : α → κ) (l a : List α) : Prop where
  perm : a.Perm l
  sorted : a.Pairwise fun x y => key x ≤ key y
  stable : ∀ k, a.filter (fun x => key x = k) = l.filter fun x => key x = k

/-- A sorted list is determined by the parts that have one key each. -/
theorem eq_of_filter (hperm : a.Perm b) (ha : a.Pairwise fun x y => key x ≤ key y)
    (hb : b.Pairwise fun x y => key x ≤ key y)
    (h : ∀ k, a.filter (fun x => key x = k) = b.filter fun x => key x = k) : a = b := by
  induction a generalizing b with
  | nil => exact hperm.nil_eq
  | cons x a ih =>
    cases b with
    | nil => exact absurd hperm.eq_nil (List.cons_ne_nil x a)
    | cons y b =>
      rw [List.pairwise_cons] at ha hb
      have hle : ∀ {z w : α} {c : List α}, (∀ v ∈ c, key z ≤ key v) → w ∈ z :: c →
          key z ≤ key w := by
        intro z w c hc hw
        rcases List.mem_cons.mp hw with rfl | hw
        · exact le_rfl
        · exact hc w hw
      have hkey : key y = key x :=
        le_antisymm (hle hb.1 (hperm.mem_iff.mp List.mem_cons_self))
          (hle ha.1 (hperm.mem_iff.mpr List.mem_cons_self))
      have hfirst := h (key x)
      rw [List.filter_cons_of_pos (by simp), List.filter_cons_of_pos (by simp [hkey])] at hfirst
      obtain ⟨rfl, -⟩ := List.cons_eq_cons.mp hfirst
      rw [ih hperm.cons_inv ha.2 hb.2]
      intro k
      have hk := h k
      by_cases hx : key x = k
      · rw [List.filter_cons_of_pos (by simp [hx]), List.filter_cons_of_pos (by simp [hx])] at hk
        exact (List.cons_eq_cons.mp hk).2
      · rwa [List.filter_cons_of_neg (by simp [hx]), List.filter_cons_of_neg (by simp [hx])] at hk

theorem Sorts.unique (ha : Sorts key l a) (hb : Sorts key l b) : a = b :=
  eq_of_filter (ha.perm.trans hb.perm.symm) ha.sorted hb.sorted
    fun k => (ha.stable k).trans (hb.stable k).symm

theorem sorts_of_length_le_one (h : l.length ≤ 1) : Sorts key l l where
  perm := .refl l
  sorted := by
    match l, h with
    | [], _ => exact .nil
    | [x], _ => exact List.pairwise_singleton _ x
  stable _ := rfl

/-- A merge that takes from the left when the keys are equal. -/
theorem filter_merge (ha : a.Pairwise fun x y => key x ≤ key y) (k : κ) :
    (a.merge b fun x y => key x ≤ key y).filter (fun x => key x = k) =
      a.filter (fun x => key x = k) ++ b.filter fun x => key x = k := by
  induction a generalizing b with
  | nil => rw [List.nil_merge, List.filter_nil, List.nil_append]
  | cons x a iha =>
    induction b with
    | nil => rw [List.merge_right, List.filter_nil, List.append_nil]
    | cons y b ihb =>
      by_cases hle : key x ≤ key y
      · rw [List.cons_merge_cons_pos _ _ _ (by simpa using hle), List.filter_cons,
          iha (List.pairwise_cons.mp ha).2, List.filter_cons (x := x)]
        split <;> rfl
      · rw [List.cons_merge_cons_neg _ _ _ (by simpa using hle), List.filter_cons, ihb,
          List.filter_cons (x := y)]
        split
        · rename_i hk
          -- What is left of the other part is all above this key.
          have habove : (x :: a).filter (fun x => key x = k) = [] := by
            rw [List.filter_eq_nil_iff]
            intro z hz
            have hxz : key x ≤ key z := by
              rcases List.mem_cons.mp hz with rfl | hz
              · exact le_rfl
              · exact (List.pairwise_cons.mp ha).1 z hz
            have hyz : key y < key z := lt_of_lt_of_le (lt_of_not_ge hle) hxz
            rw [← of_decide_eq_true hk]
            simpa using ne_of_gt hyz
          rw [habove]
          rfl
        · rfl

theorem le_key_trans (x y z : α) (hxy : decide (key x ≤ key y) = true)
    (hyz : decide (key y ≤ key z) = true) : decide (key x ≤ key z) = true :=
  decide_eq_true (le_trans (of_decide_eq_true hxy) (of_decide_eq_true hyz))

theorem le_key_total (x y : α) : (decide (key x ≤ key y) || decide (key y ≤ key x)) = true := by
  simpa using le_total (key x) (key y)

theorem sorts_merge (ha : Sorts key l a) (hb : Sorts key r b) :
    Sorts key (l ++ r) (a.merge b fun x y => key x ≤ key y) where
  perm := (List.merge_perm_append _).trans (ha.perm.append hb.perm)
  sorted := by
    have hmerge : (a.merge b fun x y => key x ≤ key y).Pairwise
        fun x y => decide (key x ≤ key y) = true :=
      List.pairwise_merge le_key_trans le_key_total a b (ha.sorted.imp decide_eq_true)
        (hb.sorted.imp decide_eq_true)
    exact hmerge.imp of_decide_eq_true
  stable k := by
    rw [filter_merge ha.sorted, ha.stable, hb.stable, List.filter_append]

/-- The sort of the library, as a reference. -/
theorem sorts_mergeSort (l : List α) : Sorts key l (l.mergeSort fun x y => key x ≤ key y) where
  perm := List.mergeSort_perm l _
  sorted := by
    have hsort : (l.mergeSort fun x y => key x ≤ key y).Pairwise
        fun x y => decide (key x ≤ key y) = true :=
      List.pairwise_mergeSort le_key_trans le_key_total l
    exact hsort.imp of_decide_eq_true
  stable k := by
    have hpair : (l.filter fun x => key x = k).Pairwise
        fun x y => decide (key x ≤ key y) = true := by
      rw [List.pairwise_filter]
      refine List.pairwise_of_forall ?_
      intro x y hx hy
      simp only [decide_eq_true_eq] at hx hy ⊢
      exact le_of_eq (hx.trans hy.symm)
    have hsub : (l.filter fun x => key x = k).Sublist (l.mergeSort fun x y => key x ≤ key y) :=
      List.sublist_mergeSort le_key_trans le_key_total hpair List.filter_sublist
    have hfilter := hsub.filter fun x => decide (key x = k)
    rw [List.filter_filter] at hfilter
    simp only [Bool.and_self] at hfilter
    refine (hfilter.eq_of_length ?_).symm
    exact ((List.mergeSort_perm l _).filter _).length_eq.symm

end StableSort
