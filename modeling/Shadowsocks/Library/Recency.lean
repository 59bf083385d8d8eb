import Mathlib.Data.List.Nodup

/-! Lists whose elements stand in the order in which they were last used. -/
namespace Recency

universe u
variable {α : Type u} {uses l l' : List α} {a b c : α}

/-- Since `a` was last used, `b` has been. -/
def Newer (uses : List α) (a b : α) : Prop := ∃ later, later <:+ uses ∧ b ∈ later ∧ a ∉ later

/-- The one that has not been used for the longest time comes first. -/
def Ordered (uses l : List α) : Prop := l.Pairwise (Newer uses)

theorem Newer.append (h : Newer uses a b) (hne : a ≠ c) : Newer (uses ++ [c]) a b := by
  obtain ⟨later, ⟨before, rfl⟩, hb, ha⟩ := h
  refine ⟨later ++ [c], ⟨before, (List.append_assoc ..).symm⟩, List.mem_append_left _ hb, ?_⟩
  intro hmem
  rcases List.mem_append.mp hmem with hmem | hmem
  · exact ha hmem
  · exact hne (List.mem_singleton.mp hmem)

theorem newer_last (uses : List α) (hne : a ≠ c) : Newer (uses ++ [c]) a c :=
  ⟨[c], List.suffix_append .., List.mem_singleton_self c, fun hmem =>
    hne (List.mem_singleton.mp hmem)⟩

/-- Of two elements one is the newer one. -/
theorem Newer.asymm (h : Newer uses a b) : ¬ Newer uses b a := by
  rintro ⟨later', hlater', ha', hb'⟩
  obtain ⟨later, hlater, hb, ha⟩ := h
  rcases List.suffix_or_suffix_of_suffix hlater hlater' with hsub | hsub
  · exact hb' (hsub.subset hb)
  · exact ha (hsub.subset ha')

namespace Ordered

theorem nil : Ordered uses ([] : List α) := List.Pairwise.nil

theorem sublist (h : Ordered uses l) (hsub : l'.Sublist l) : Ordered uses l' :=
  List.Pairwise.sublist hsub h

/-- What is used goes to the end. -/
theorem concat (h : Ordered uses l) (hc : c ∉ l) : Ordered (uses ++ [c]) (l ++ [c]) := by
  have hne : ∀ a ∈ l, a ≠ c := by
    rintro a ha rfl
    exact hc ha
  refine List.pairwise_append.mpr ⟨?_, List.pairwise_singleton _ _, ?_⟩
  · exact h.imp_of_mem fun ha _ hnewer => hnewer.append (hne _ ha)
  · intro a ha b hb
    rw [List.mem_singleton.mp hb]
    exact newer_last uses (hne a ha)

theorem touch [DecidableEq α] (h : Ordered uses l) (c : α) :
    Ordered (uses ++ [c]) (l.filter (· ≠ c) ++ [c]) := by
  apply (h.sublist List.filter_sublist).concat
  intro hmem
  simpa using (List.mem_filter.mp hmem).2

/-- What is dropped from the front is older than what stays. -/
theorem newer_of_drop (h : Ordered uses l) {n : Nat} (ha : a ∈ l) (ha' : a ∉ l.drop n)
    (hb : b ∈ l.drop n) : Newer uses a b := by
  rw [← List.take_append_drop n l] at h ha
  have hfront : a ∈ l.take n := (List.mem_append.mp ha).resolve_right ha'
  exact (List.pairwise_append.mp h).2.2 a hfront b hb

end Ordered

end Recency
