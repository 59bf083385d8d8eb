import Mathlib.Data.List.Basic

/-!
Replacing every occurrence in a sequence, from the front and without overlap. A test says where
an occurrence starts, given what is left of the sequence.
-/
namespace Replace

universe u
variable {α : Type u} {hit : List α → Bool} {len : Nat} {new t a b : List α} {x : α}

/-- `skip` more elements belong to an occurrence that has been replaced. -/
def scan (hit : List α → Bool) (len : Nat) (new : List α) : List α → Nat → List α
  | [], _ => []
  | _ :: t, skip + 1 => scan hit len new t skip
  | x :: t, 0 =>
    if hit (x :: t) then new ++ scan hit len new t (len - 1) else x :: scan hit len new t 0

/-- Every occurrence is `len` long, and makes place for `new`. -/
def replaceAll (hit : List α → Bool) (len : Nat) (new t : List α) : List α :=
  scan hit len new t 0

/-- An occurrence starts somewhere in the sequence. -/
def Occurs (hit : List α → Bool) (t : List α) : Prop := ∃ a b, t = a ++ b ∧ b ≠ [] ∧ hit b = true

theorem scan_eq (t : List α) (skip : Nat) :
    scan hit len new t skip = replaceAll hit len new (t.drop skip) := by
  induction t generalizing skip with
  | nil => rw [List.drop_nil]; rfl
  | cons x t ih =>
    cases skip with
    | zero => rfl
    | succ skip => exact ih skip

@[simp] theorem replaceAll_nil : replaceAll hit len new [] = [] := rfl

theorem replaceAll_hit (hlen : 0 < len) (h : hit (x :: t) = true) :
    replaceAll hit len new (x :: t) = new ++ replaceAll hit len new ((x :: t).drop len) := by
  obtain ⟨n, rfl⟩ : ∃ n, len = n + 1 := ⟨len - 1, by omega⟩
  rw [replaceAll, scan, if_pos h, scan_eq]
  rfl

theorem replaceAll_miss (h : hit (x :: t) = false) :
    replaceAll hit len new (x :: t) = x :: replaceAll hit len new t := by
  rw [replaceAll, scan, if_neg (by rw [h]; decide)]
  rfl

/-- What is in front of the first occurrence stays. -/
theorem replaceAll_append_of_miss (h : ∀ s u, a = s ++ u → u ≠ [] → hit (u ++ b) = false) :
    replaceAll hit len new (a ++ b) = a ++ replaceAll hit len new b := by
  induction a with
  | nil => rfl
  | cons x a ih =>
    have hx : hit (x :: (a ++ b)) = false := h [] (x :: a) rfl (List.cons_ne_nil x a)
    rw [List.cons_append, replaceAll_miss hx, ih, List.cons_append]
    intro s u hs hu
    exact h (x :: s) u (by rw [hs, List.cons_append]) hu

theorem replaceAll_eq_self (h : ¬ Occurs hit t) : replaceAll hit len new t = t := by
  have hmiss : ∀ s u, t = s ++ u → u ≠ [] → hit (u ++ []) = false := by
    intro s u hs hu
    rw [Bool.eq_false_iff, List.append_nil]
    exact fun hhit => h ⟨s, u, hs, hu, hhit⟩
  have hkeep : replaceAll hit len new (t ++ []) = t ++ replaceAll hit len new [] :=
    replaceAll_append_of_miss hmiss
  rwa [replaceAll_nil, List.append_nil] at hkeep

theorem occurs_cons_iff : Occurs hit (x :: t) ↔ hit (x :: t) = true ∨ Occurs hit t := by
  constructor
  · rintro ⟨s, u, hs, hu, hhit⟩
    cases s with
    | nil =>
      left
      rw [hs]
      exact hhit
    | cons y s =>
      cases hs
      exact Or.inr ⟨s, u, rfl, hu, hhit⟩
  · rintro (hhit | ⟨s, u, rfl, hu, hhit⟩)
    · exact ⟨[], x :: t, rfl, List.cons_ne_nil x t, hhit⟩
    · exact ⟨x :: s, u, rfl, hu, hhit⟩

theorem not_occurs_nil : ¬ Occurs hit [] := by
  rintro ⟨s, u, hs, hu, -⟩
  exact hu (List.append_eq_nil_iff.mp hs.symm).2

/-- A sequence in which something occurs, taken apart at the first occurrence. -/
theorem exists_first (h : Occurs hit t) : ∃ a b, t = a ++ b ∧ b ≠ [] ∧ hit b = true ∧
    ∀ s u, a = s ++ u → u ≠ [] → hit (u ++ b) = false := by
  induction t with
  | nil => exact absurd h not_occurs_nil
  | cons x t ih =>
    cases hx : hit (x :: t) with
    | true =>
      refine ⟨[], x :: t, rfl, List.cons_ne_nil x t, hx, ?_⟩
      intro s u hs hu
      exact absurd (List.append_eq_nil_iff.mp hs.symm).2 hu
    | false =>
      have hrest := (occurs_cons_iff.mp h).resolve_left (by rw [hx]; decide)
      obtain ⟨a, b, rfl, hb, hhit, hfirst⟩ := ih hrest
      refine ⟨x :: a, b, rfl, hb, hhit, ?_⟩
      intro s u hs hu
      cases s with
      | nil =>
        rw [List.nil_append] at hs
        rw [← hs]
        exact hx
      | cons y s =>
        cases hs
        exact hfirst s u rfl hu

theorem replaceAll_first (hlen : 0 < len) (hb : hit b = true) (hne : b ≠ [])
    (hfirst : ∀ s u, a = s ++ u → u ≠ [] → hit (u ++ b) = false) :
    replaceAll hit len new (a ++ b) = a ++ (new ++ replaceAll hit len new (b.drop len)) := by
  rw [replaceAll_append_of_miss hfirst]
  cases b with
  | nil => exact absurd rfl hne
  | cons x b => rw [replaceAll_hit hlen hb]

/-- Replacing works on the two parts when no occurrence reaches over the border. -/
theorem replaceAll_append (hlen : 0 < len) (hfits : ∀ s, hit s = true → len ≤ s.length)
    (h : ∀ s u, a = s ++ u → u ≠ [] → hit (u ++ b) = hit u) :
    replaceAll hit len new (a ++ b) =
      replaceAll hit len new a ++ replaceAll hit len new b := by
  induction hn : a.length using Nat.strongRecOn generalizing a with
  | ind n ih =>
    cases a with
    | nil => rfl
    | cons x a =>
      have hx := h [] (x :: a) rfl (List.cons_ne_nil x a)
      rw [List.length_cons] at hn
      cases hhit : hit (x :: a) with
      | true =>
        rw [hhit, List.cons_append] at hx
        have hle := hfits _ hhit
        rw [List.length_cons] at hle
        have hdrop : ((x :: a) ++ b).drop len = (x :: a).drop len ++ b :=
          List.drop_append_of_le_length hle
        have hrest := ih ((x :: a).drop len).length
          (by rw [List.length_drop, List.length_cons]; omega)
          (a := (x :: a).drop len) (fun s u hs hu => by
            apply h ((x :: a).take len ++ s) u _ hu
            rw [List.append_assoc, ← hs, List.take_append_drop]) rfl
        rw [List.cons_append, replaceAll_hit hlen hx, ← List.cons_append, hdrop, hrest,
          replaceAll_hit hlen hhit, List.append_assoc]
      | false =>
        rw [hhit, List.cons_append] at hx
        have hrest := ih a.length (by omega) (a := a) (fun s u hs hu => by
          apply h (x :: s) u _ hu
          rw [hs, List.cons_append]) rfl
        rw [List.cons_append, replaceAll_miss hx, hrest, replaceAll_miss hhit, List.cons_append]

/-- What one occurrence and one other element preserve, all of the replacing preserves. -/
theorem replaceAll_induction {P : List α → List α → Prop} (hlen : 0 < len) (hnil : P [] [])
    (hreplace : ∀ t z, t ≠ [] → hit t = true → P (t.drop len) z → P t (new ++ z))
    (hkeep : ∀ x t z, hit (x :: t) = false → P t z → P (x :: t) (x :: z)) (t : List α) :
    P t (replaceAll hit len new t) := by
  induction hn : t.length using Nat.strongRecOn generalizing t with
  | ind n ih =>
    cases t with
    | nil => exact hnil
    | cons x t =>
      rw [List.length_cons] at hn
      cases hx : hit (x :: t) with
      | true =>
        rw [replaceAll_hit hlen hx]
        apply hreplace _ _ (List.cons_ne_nil x t) hx
        exact ih _ (by rw [List.length_drop, List.length_cons]; omega) _ rfl
      | false =>
        rw [replaceAll_miss hx]
        exact hkeep x t _ hx (ih _ (by omega) t rfl)

/-- The length changes by the same amount at every occurrence. -/
theorem length_replaceAll (hlen : 0 < len) (hfits : ∀ s, hit s = true → len ≤ s.length)
    (t : List α) : ∃ k, (replaceAll hit len new t).length + k * len = t.length + k * new.length := by
  refine replaceAll_induction (P := fun t z => ∃ k, z.length + k * len = t.length + k * new.length)
    hlen ?_ ?_ ?_ t
  · exact ⟨0, by simp⟩
  · rintro t z - hhit ⟨k, hk⟩
    have hle := hfits t hhit
    refine ⟨k + 1, ?_⟩
    rw [List.length_drop] at hk
    rw [List.length_append, Nat.add_mul, Nat.add_mul]
    omega
  · rintro x t z - ⟨k, hk⟩
    refine ⟨k, ?_⟩
    rw [List.length_cons, List.length_cons]
    omega

/-- The length stays the same at an occurrence only when what it makes place for is as long. -/
theorem length_new (hlen : 0 < len) (hfits : ∀ s, hit s = true → len ≤ s.length)
    (hoccurs : Occurs hit t) (h : (replaceAll hit len new t).length = t.length) :
    new.length = len := by
  obtain ⟨a, b, rfl, hne, hb, hfirst⟩ := exists_first hoccurs
  have hle := hfits b hb
  obtain ⟨k, hk⟩ : ∃ k, (replaceAll hit len new (b.drop len)).length + k * len =
      (b.drop len).length + k * new.length := length_replaceAll hlen hfits (b.drop len)
  rw [replaceAll_first hlen hb hne hfirst] at h
  simp only [List.length_append, List.length_drop] at h hk
  by_contra hlength
  have hmul : (k + 1) * new.length = (k + 1) * len := by
    rw [Nat.add_mul, Nat.add_mul]
    omega
  exact hlength (Nat.eq_of_mul_eq_mul_left (Nat.succ_pos k) hmul)

end Replace
