import Mathlib.Data.List.Basic

/-! Stateful transformations of sequences that are fed one piece at a time. -/
namespace Streaming

universe u
variable {σ τ ι α β : Type u}

/-- Run a partial step over a list of items and concatenate what it emits. -/
def feed (step : σ → ι → Option (σ × List β)) : σ → List ι → Option (σ × List β)
  | s, [] => some (s, [])
  | s, i :: is =>
    (step s i).bind fun (s', out) =>
      (feed step s' is).map fun (s'', rest) => (s'', out ++ rest)

/-- Every item of the list meets `P` in the state in which it is fed. -/
def Along (step : σ → ι → Option (σ × List β)) (P : σ → ι → Prop) : σ → List ι → Prop
  | _, [] => True
  | s, i :: is => P s i ∧ ∀ s' out, step s i = some (s', out) → Along step P s' is

/-- Two steps that emit the same, or both fail, on every item that meets `P` emit the same
over any list of such items. -/
theorem feed_lockstep {step step' : σ → ι → Option (σ × List β)} {P : σ → ι → Prop}
    {R : σ → σ → Prop}
    (hstep : ∀ {s t} (i), R s t → P s i →
      Option.Rel (fun a b => R a.1 b.1 ∧ a.2 = b.2) (step s i) (step' t i))
    {s t : σ} (h : R s t) {is : List ι} (hP : Along step P s is) :
    Option.Rel (fun a b => R a.1 b.1 ∧ a.2 = b.2) (feed step s is) (feed step' t is) := by
  induction is generalizing s t with
  | nil => exact .some ⟨h, rfl⟩
  | cons i is ih =>
    have hi := hstep i h hP.1
    generalize hs : step s i = a, ht : step' t i = b at hi
    cases hi with
    | none =>
      simp only [feed, hs, ht, Option.bind_none]
      exact .none
    | some hab =>
      have hrest := ih hab.1 (hP.2 _ _ hs)
      simp only [feed, hs, ht, Option.bind_some]
      generalize feed step _ is = x, feed step' _ is = y at hrest
      cases hrest with
      | none => exact .none
      | some hxy => exact .some ⟨hxy.1, congrArg₂ (· ++ ·) hab.2 hxy.2⟩

/-- A transformation that may be fed in pieces, from the states in `S`. -/
structure Chunkable (push : τ → List α → τ × List β) (S : τ → Prop) : Prop where
  push_nil : ∀ {t}, S t → push t [] = (t, [])
  push_append : ∀ {t} (a b), S t → push t (a ++ b) =
    ((push (push t a).1 b).1, (push t a).2 ++ (push (push t a).1 b).2)
  closed : ∀ {t} (a), S t → S (push t a).1

/-- States related by `R` carry the stream: every step emits what `push` emits for the piece
of its item, and stays related. -/
structure Simulates (step : σ → ι → Option (σ × List β)) (push : τ → List α → τ × List β)
    (S : τ → Prop) (R : σ → τ → Prop) (piece : ι → List α) : Prop where
  usable : ∀ {s t}, R s t → S t
  simulate : ∀ {s t} (i), R s t →
    ∃ s', step s i = some (s', (push t (piece i)).2) ∧ R s' (push t (piece i)).1

theorem feed_cons {step : σ → ι → Option (σ × List β)} {s s' : σ} {i : ι} {out : List β}
    (h : step s i = some (s', out)) (is : List ι) :
    feed step s (i :: is) = (feed step s' is).map fun (s'', rest) => (s'', out ++ rest) := by
  simp only [feed, h, Option.bind_some]

theorem feed_cons_none {step : σ → ι → Option (σ × List β)} {s : σ} {i : ι}
    (h : step s i = none) (is : List ι) : feed step s (i :: is) = none := by
  simp only [feed, h, Option.bind_none]

variable {step : σ → ι → Option (σ × List β)} {push : τ → List α → τ × List β} {S : τ → Prop}
  {R : σ → τ → Prop} {piece : ι → List α}

/-- However the input is cut into items, the output is that of one push of all of it. -/
theorem feed_of_simulates (hpush : Chunkable push S) (hsim : Simulates step push S R piece)
    {s : σ} {t : τ} (h : R s t) (is : List ι) :
    ∃ s', feed step s is = some (s', (push t (is.flatMap piece)).2) ∧
      R s' (push t (is.flatMap piece)).1 := by
  induction is generalizing s t with
  | nil =>
    have hnil := hpush.push_nil (hsim.usable h)
    exact ⟨s, by simp [feed, hnil], by simpa [hnil] using h⟩
  | cons i is ih =>
    obtain ⟨s₁, hs, hR⟩ := hsim.simulate i h
    obtain ⟨s₂, hf, hR₂⟩ := ih hR
    have happ := hpush.push_append (piece i) (is.flatMap piece) (hsim.usable h)
    refine ⟨s₂, ?_, ?_⟩
    · rw [feed_cons hs, hf, List.flatMap_cons, happ]
      rfl
    · simpa only [List.flatMap_cons, happ] using hR₂

/-- The same when a first step opens the stream: it may emit a header and drop one. -/
theorem feed_of_first (hpush : Chunkable push S) (hsim : Simulates step push S R piece)
    {i : ι} {s s₁ : σ} {t : τ} {header : List β} {m : List α} (ht : S t)
    (hfirst : step s i = some (s₁, header ++ (push t m).2)) (h : R s₁ (push t m).1)
    (is : List ι) :
    ∃ s', feed step s (i :: is) = some (s', header ++ (push t (m ++ is.flatMap piece)).2) ∧
      R s' (push t (m ++ is.flatMap piece)).1 := by
  obtain ⟨s', hf, hR⟩ := feed_of_simulates hpush hsim h is
  have happ := hpush.push_append m (is.flatMap piece) ht
  refine ⟨s', ?_, by rwa [happ]⟩
  rw [feed_cons hfirst, hf, happ]
  simp

end Streaming
