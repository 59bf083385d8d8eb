import Mathlib.Data.List.Basic

/-! The first and the last place in a sequence at which the rest of it passes a test. -/
namespace Search

universe u
variable {α : Type u} {hit : List α → Bool} {t : List α} {i : Nat}

def firstIndex (hit : List α → Bool) (t : List α) : Option Nat :=
  (List.range t.length).find? fun i => hit (t.drop i)

def lastIndex (hit : List α → Bool) (t : List α) : Option Nat :=
  (List.range t.length).reverse.find? fun i => hit (t.drop i)

theorem firstIndex_eq_some_iff : firstIndex hit t = some i ↔
    i < t.length ∧ hit (t.drop i) = true ∧ ∀ j < i, hit (t.drop j) = false := by
  simp only [firstIndex, List.find?_range_eq_some, List.mem_range, Bool.not_eq_true']
  tauto

theorem find?_reverse_range_eq_some {n : Nat} {p : Nat → Bool} :
    (List.range n).reverse.find? p = some i ↔
      i < n ∧ p i = true ∧ ∀ j, i < j → j < n → p j = false := by
  induction n with
  | zero => simp
  | succ n ih =>
    rw [List.range_succ, List.reverse_append, List.reverse_singleton, List.singleton_append,
      List.find?_cons]
    cases hn : p n with
    | true =>
      simp only [Option.some.injEq]
      constructor
      · rintro rfl
        exact ⟨Nat.lt_succ_self _, hn, fun j hj hj' => absurd hj' (by omega)⟩
      · rintro ⟨hi, -, hlast⟩
        by_contra hne
        have := hlast n (by omega) (Nat.lt_succ_self n)
        rw [hn] at this
        cases this
    | false =>
      simp only
      rw [ih]
      constructor
      · rintro ⟨hi, hp, hlast⟩
        refine ⟨Nat.lt_succ_of_lt hi, hp, ?_⟩
        intro j hij hj
        by_cases hjn : j = n
        · rw [hjn, hn]
        · exact hlast j hij (by omega)
      · rintro ⟨hi, hp, hlast⟩
        have hne : i ≠ n := by
          rintro rfl
          rw [hn] at hp
          cases hp
        exact ⟨by omega, hp, fun j hij hj => hlast j hij (Nat.lt_succ_of_lt hj)⟩

theorem lastIndex_eq_some_iff : lastIndex hit t = some i ↔
    i < t.length ∧ hit (t.drop i) = true ∧ ∀ j, i < j → j < t.length → hit (t.drop j) = false :=
  find?_reverse_range_eq_some

end Search
