import Mathlib.Data.List.Nodup

/-! Items that are filed under keys, each under one at most, with a list of the items of a key. -/

universe u v

structure Filing (κ : Type u) (α : Type v) where
  under : κ → List α
  keyOf : α → Option κ

namespace Filing

variable {κ : Type u} {α : Type v} {t : Filing κ α} {a b : α} {k : κ}

def empty : Filing κ α := ⟨fun _ => [], fun _ => none⟩

/-- The lists and the keys of the items say the same. -/
structure Filed (t : Filing κ α) : Prop where
  mem_under : ∀ a k, a ∈ t.under k ↔ t.keyOf a = some k
  nodup : ∀ k, (t.under k).Nodup

theorem filed_empty : (empty : Filing κ α).Filed where
  mem_under _ _ := ⟨fun h => absurd h List.not_mem_nil, fun h => by cases h⟩
  nodup _ := List.nodup_nil

variable [DecidableEq κ] [DecidableEq α]

/-- File an item behind the others of the key. -/
def add (t : Filing κ α) (k : κ) (a : α) : Filing κ α :=
  ⟨Function.update t.under k (t.under k ++ [a]), Function.update t.keyOf a (some k)⟩

theorem keyOf_add (t : Filing κ α) (k : κ) (a : α) : (t.add k a).keyOf a = some k :=
  Function.update_self ..

theorem keyOf_add_of_ne (h : b ≠ a) : (t.add k a).keyOf b = t.keyOf b := Function.update_of_ne h ..

theorem Filed.add (h : t.Filed) (hnew : t.keyOf a = none) (k : κ) : (t.add k a).Filed where
  mem_under b k' := by
    by_cases hb : b = a
    · subst hb
      rw [keyOf_add]
      by_cases hk : k' = k
      · subst hk
        simp [Filing.add]
      · have hmem : b ∉ t.under k' := by
          intro hmem
          rw [(h.mem_under b k').mp hmem] at hnew
          cases hnew
        simp [Filing.add, hk, hmem, Ne.symm hk]
    · rw [keyOf_add_of_ne hb, ← h.mem_under b k']
      by_cases hk : k' = k
      · subst hk
        simp [Filing.add, hb]
      · simp [Filing.add, hk]
  nodup k' := by
    have hmem : a ∉ t.under k := by
      intro hmem
      rw [(h.mem_under a k).mp hmem] at hnew
      cases hnew
    by_cases hk : k' = k
    · subst hk
      simp only [Filing.add, Function.update_self]
      rw [← List.concat_eq_append]
      exact (h.nodup k').concat hmem
    · simp only [Filing.add, Function.update_of_ne hk]
      exact h.nodup k'

variable [BEq α]

/-- Take an item out, if it is there. -/
def remove (t : Filing κ α) (a : α) : Filing κ α :=
  match t.keyOf a with
  | none => t
  | some k => ⟨Function.update t.under k ((t.under k).erase a), Function.update t.keyOf a none⟩

theorem keyOf_remove (t : Filing κ α) (a : α) : (t.remove a).keyOf a = none := by
  simp only [remove]
  cases h : t.keyOf a with
  | none => exact h
  | some k => exact Function.update_self ..

theorem keyOf_remove_of_ne (h : b ≠ a) : (t.remove a).keyOf b = t.keyOf b := by
  simp only [remove]
  cases t.keyOf a with
  | none => rfl
  | some k => exact Function.update_of_ne h ..

theorem Filed.remove [LawfulBEq α] (h : t.Filed) (a : α) : (t.remove a).Filed := by
  cases hkey : t.keyOf a with
  | none =>
    simp only [Filing.remove, hkey]
    exact h
  | some k =>
    refine ⟨?_, ?_⟩
    · intro b k'
      by_cases hb : b = a
      · subst hb
        rw [keyOf_remove]
        refine ⟨?_, fun hnone => by cases hnone⟩
        intro hmem
        simp only [Filing.remove, hkey] at hmem
        by_cases hk : k' = k
        · subst hk
          rw [Function.update_self, (h.nodup k').mem_erase_iff] at hmem
          exact absurd rfl hmem.1
        · rw [Function.update_of_ne hk, h.mem_under, hkey] at hmem
          exact absurd (Option.some.inj hmem).symm hk
      · rw [keyOf_remove_of_ne hb, ← h.mem_under b k']
        simp only [Filing.remove, hkey]
        by_cases hk : k' = k
        · subst hk
          rw [Function.update_self, List.mem_erase_of_ne hb]
        · rw [Function.update_of_ne hk]
    · intro k'
      simp only [Filing.remove, hkey]
      by_cases hk : k' = k
      · subst hk
        rw [Function.update_self]
        exact (h.nodup k').erase a
      · rw [Function.update_of_ne hk]
        exact h.nodup k'

end Filing
