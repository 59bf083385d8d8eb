import Shadowsocks.Pac.JavaScript

/-! The words of an address, and the words of a rule that can be its keyword. -/
namespace Shadowsocks

/-- What a character of a text in lower case is to a word. -/
inductive Mark where
  | token (c : Nat)
  | star
  | other
  deriving Repr, DecidableEq

def Mark.isToken : Mark → Bool
  | .token _ => true
  | _ => false

/-- `[a-z0-9%]`, `*` and the rest. -/
def classify (c : Nat) : Mark :=
  if (97 ≤ c ∧ c ≤ 122) ∨ (48 ≤ c ∧ c ≤ 57) ∨ c = 37 then .token c
  else if c = unit '*' then .star
  else .other

/-- `match(/[a-z0-9%]{3,}/g)`, where `run` has been read of the next word. -/
def tokensFrom : JsString → List Mark → List JsString
  | run, [] => if 3 ≤ run.length then [run] else []
  | run, .token c :: m => tokensFrom (run ++ [c]) m
  | run, .star :: m => (if 3 ≤ run.length then [run] else []) ++ tokensFrom [] m
  | run, .other :: m => (if 3 ≤ run.length then [run] else []) ++ tokensFrom [] m

def tokens (s : JsString) : List JsString := tokensFrom [] (s.map classify)

/-- `match(/[^a-z0-9%*][a-z0-9%]{3,}(?=[^a-z0-9%*])/g)` without the first characters. The word
that is being read counts when it is `opened`. -/
def candidatesFrom : Bool → JsString → List Mark → List JsString
  | _, _, [] => []
  | opened, run, .token c :: m => candidatesFrom opened (run ++ [c]) m
  | _, _, .star :: m => candidatesFrom false [] m
  | opened, run, .other :: m =>
    (if opened ∧ 3 ≤ run.length then [run] else []) ++ candidatesFrom true [] m

def candidates (s : JsString) : List JsString := candidatesFrom false [] (s.map classify)

/-- What a character is once it is in lower case. -/
def mark (c : Nat) : List Mark :=
  if c < 128 then [classify (asciiLower c)]
  else if c = kelvin then [.token (unit 'k')]
  else if c = dottedI then [.token (unit 'i'), .other]
  else [.other]

/-- The same marks, with more of those that are nothing to a word next to one of them. -/
inductive Thickens : List Mark → List Mark → Prop
  | nil : Thickens [] []
  | keep (x : Mark) {m m' : List Mark} : Thickens m m' → Thickens (x :: m) (x :: m')
  | more {m m' : List Mark} : Thickens (.other :: m) m' → Thickens (.other :: m) (.other :: m')

variable {E : Engine} {s k run : JsString} {m m' a b : List Mark} {c : Nat}

theorem tokensFrom_thickens (h : Thickens m m') (run : JsString) :
    tokensFrom run m' = tokensFrom run m := by
  induction h generalizing run with
  | nil => rfl
  | keep x _ ih =>
    cases x with
    | token c => exact ih _
    | star => rw [tokensFrom, tokensFrom, ih]
    | other => rw [tokensFrom, tokensFrom, ih]
  | more _ ih =>
    rw [tokensFrom, ih, tokensFrom, tokensFrom]
    rfl

theorem candidatesFrom_thickens (h : Thickens m m') (opened : Bool) (run : JsString) :
    candidatesFrom opened run m' = candidatesFrom opened run m := by
  induction h generalizing opened run with
  | nil => rfl
  | keep x _ ih =>
    cases x with
    | token c => exact ih _ _
    | star => exact ih _ _
    | other => rw [candidatesFrom, candidatesFrom, ih]
  | more _ ih =>
    rw [candidatesFrom, ih, candidatesFrom, candidatesFrom]
    rfl

theorem thickens_append (h : Thickens m m') (ha : Thickens a b) :
    Thickens (m ++ a) (m' ++ b) := by
  induction h with
  | nil => exact ha
  | keep x _ ih => exact .keep x ih
  | more _ ih => exact .more ih

theorem thickens_refl (m : List Mark) : Thickens m m := by
  induction m with
  | nil => exact .nil
  | cons x m ih => exact .keep x ih

theorem classify_of_le (h : 128 ≤ c) : classify c = .other := by
  have hne : c ≠ unit '*' := by
    change c ≠ 42
    omega
  rw [classify, if_neg (by omega), if_neg hne]

theorem thickens_piece {piece : JsString} (h : LowersTo c piece) :
    Thickens (mark c) (piece.map classify) := by
  rw [LowersTo] at h
  rw [mark]
  split at h
  · rw [h, if_pos ‹_›]
    exact thickens_refl _
  · rw [if_neg ‹_›]
    split at h
    · rw [h, if_pos ‹_›]
      exact thickens_refl _
    · rw [if_neg ‹_›]
      split at h
      · rw [h, if_pos ‹_›]
        exact thickens_refl _
      · rw [if_neg ‹_›]
        obtain ⟨hne, hother⟩ := h
        clear * - hne hother
        induction piece with
        | nil => exact absurd rfl hne
        | cons x piece ih =>
          rw [List.forall_mem_cons] at hother
          rw [List.map_cons, classify_of_le hother.1]
          cases piece with
          | nil => exact .keep _ .nil
          | cons y piece => exact .more (ih (List.cons_ne_nil y piece) hother.2)

/-- Lower case as a word sees it. -/
theorem thickens_toLowerCase (hE : E.Lawful) (s : JsString) :
    Thickens (s.flatMap mark) ((E.toLowerCase s).map classify) := by
  obtain ⟨pieces, hpieces, hlower⟩ := hE.toLowerCase s
  rw [hlower]
  clear hlower
  induction hpieces with
  | nil => exact .nil
  | cons hc _ ih =>
    rw [List.flatMap_cons, List.flatten_cons, List.map_append]
    exact thickens_append (thickens_piece hc) ih

theorem tokens_toLowerCase (hE : E.Lawful) (s : JsString) :
    tokens (E.toLowerCase s) = tokensFrom [] (s.flatMap mark) :=
  tokensFrom_thickens (thickens_toLowerCase hE s) []

theorem candidates_toLowerCase (hE : E.Lawful) (s : JsString) :
    candidates (E.toLowerCase s) = candidatesFrom false [] (s.flatMap mark) :=
  candidatesFrom_thickens (thickens_toLowerCase hE s) false []

/-- A candidate stands between two characters that are neither part of a word nor a star. -/
theorem mem_candidatesFrom {opened : Bool} (h : k ∈ candidatesFrom opened run m) :
    3 ≤ k.length ∧
    ((opened = true ∧ ∃ k' b, k = run ++ k' ∧ m = k'.map .token ++ .other :: b) ∨
      ∃ a b, m = a ++ .other :: (k.map .token ++ .other :: b)) := by
  induction m generalizing opened run with
  | nil => exact absurd h List.not_mem_nil
  | cons x m ih =>
    cases x with
    | token c =>
      obtain ⟨hlength, ⟨hopened, k', b, rfl, rfl⟩ | ⟨a, b, rfl⟩⟩ := ih h
      · refine ⟨hlength, Or.inl ⟨hopened, c :: k', b, ?_, rfl⟩⟩
        rw [List.append_assoc]
        rfl
      · exact ⟨hlength, Or.inr ⟨.token c :: a, b, rfl⟩⟩
    | star =>
      obtain ⟨hlength, ⟨hopened, -⟩ | ⟨a, b, rfl⟩⟩ := ih h
      · cases hopened
      · exact ⟨hlength, Or.inr ⟨.star :: a, b, rfl⟩⟩
    | other =>
      rw [candidatesFrom] at h
      rcases List.mem_append.mp h with h | h
      · split at h
        · rename_i hrun
          obtain rfl := List.mem_singleton.mp h
          exact ⟨hrun.2, Or.inl ⟨hrun.1, [], m, (List.append_nil _).symm, rfl⟩⟩
        · exact absurd h List.not_mem_nil
      · obtain ⟨hlength, ⟨-, k', b, rfl, rfl⟩ | ⟨a, b, rfl⟩⟩ := ih h
        · exact ⟨hlength, Or.inr ⟨[], b, rfl⟩⟩
        · exact ⟨hlength, Or.inr ⟨.other :: a, b, rfl⟩⟩

/-- The marks begin with none of a word. -/
def Closes (m : List Mark) : Prop := ∀ x ∈ m.head?, x.isToken = false

/-- The marks end with none of a word. -/
def Opens (m : List Mark) : Prop := ∃ a x, m = a ++ [x] ∧ x.isToken = false

theorem closes_cons {x : Mark} (h : x.isToken = false) : Closes (x :: m) := by
  intro y hy
  cases hy
  exact h

theorem mem_tokensFrom_run (run : JsString) (hlength : 3 ≤ (run ++ k).length) (hm : Closes m) :
    run ++ k ∈ tokensFrom run (k.map .token ++ m) := by
  induction k generalizing run with
  | nil =>
    rw [List.append_nil] at hlength ⊢
    rw [List.map_nil, List.nil_append]
    cases m with
    | nil =>
      rw [tokensFrom, if_pos hlength]
      exact List.mem_singleton_self run
    | cons x m =>
      cases x with
      | token c => cases hm _ rfl
      | star =>
        rw [tokensFrom, if_pos hlength]
        exact List.mem_append_left _ (List.mem_singleton_self run)
      | other =>
        rw [tokensFrom, if_pos hlength]
        exact List.mem_append_left _ (List.mem_singleton_self run)
  | cons c k ih =>
    have hrun : run ++ c :: k = run ++ [c] ++ k := by simp
    rw [hrun] at hlength ⊢
    exact ih _ hlength

theorem mem_tokensFrom_append (ha : Opens a) (h : k ∈ tokensFrom [] m) (run : JsString) :
    k ∈ tokensFrom run (a ++ m) := by
  obtain ⟨a, x, rfl, hx⟩ := ha
  induction a generalizing run with
  | nil =>
    cases x with
    | token c => cases hx
    | star => exact List.mem_append_right _ h
    | other => exact List.mem_append_right _ h
  | cons y a ih =>
    cases y with
    | token c => exact ih _
    | star => exact List.mem_append_right _ (ih [])
    | other => exact List.mem_append_right _ (ih [])

/-- A word of three characters between two ends is one of the words. -/
theorem mem_tokensFrom (ha : a = [] ∨ Opens a) (hlength : 3 ≤ k.length) (hb : Closes b) :
    k ∈ tokensFrom [] (a ++ (k.map .token ++ b)) := by
  have hword : k ∈ tokensFrom [] (k.map .token ++ b) :=
    mem_tokensFrom_run [] (by rwa [List.nil_append]) hb
  rcases ha with rfl | ha
  · exact hword
  · exact mem_tokensFrom_append ha hword []

end Shadowsocks
