import Mathlib.Logic.Function.Basic

/-! Machines whose steps can raise, and a table that keeps the results of a function. -/
namespace Raising

universe u v
variable {ε σ τ ι α β κ : Type u}

theorem bind_eq_ok {x : Except ε α} {f : α → Except ε β} {b : β} :
    (x >>= f) = .ok b ↔ ∃ a, x = .ok a ∧ f a = .ok b := by
  cases x with
  | error e => exact ⟨fun h => (by cases h), fun ⟨a, ha, _⟩ => (by cases ha)⟩
  | ok a =>
    constructor
    · exact fun h => ⟨a, rfl, h⟩
    · rintro ⟨a', ha, h⟩
      cases ha
      exact h

theorem map_eq_ok {x : Except ε α} {f : α → β} {b : β} :
    x.map f = .ok b ↔ ∃ a, x = .ok a ∧ f a = b := by
  cases x with
  | error e => exact ⟨fun h => (by cases h), fun ⟨a, ha, _⟩ => (by cases ha)⟩
  | ok a =>
    constructor
    · intro h
      cases h
      exact ⟨a, rfl, rfl⟩
    · rintro ⟨a', ha, rfl⟩
      cases ha
      rfl

/-- What a step leaves, whether it has raised or not. -/
def left : Except α α → α
  | .ok a => a
  | .error a => a

theorem left_bind {P : α → Prop} {x : Except α α} {f : α → Except α α} (hx : P (left x))
    (hf : ∀ a, P a → P (left (f a))) : P (left (x >>= f)) := by
  cases x with
  | error a => exact hx
  | ok a => exact hf a hx

/-- What every step leaves as it is, a run leaves as it is, to its end or to the exception. -/
theorem left_foldlM {P : σ → Prop} {step : σ → ι → Except σ σ}
    (hstep : ∀ s i, P s → P (left (step s i))) {s : σ} (h : P s) (is : List ι) :
    P (left (is.foldlM step s)) := by
  induction is generalizing s with
  | nil => exact h
  | cons i is ih =>
    rw [List.foldlM_cons]
    exact left_bind (hstep s i h) fun _ hs => ih hs

/-- Every input meets `P` in the state in which it comes. -/
def Along (step : σ → ι → Except ε σ) (P : σ → ι → Prop) : σ → List ι → Prop
  | _, [] => True
  | s, i :: is => P s i ∧ ∀ s', step s i = .ok s' → Along step P s' is

variable {step : σ → ι → Except ε σ} {P : σ → ι → Prop} {I : List ι → σ → Prop}

/-- An invariant that may speak of the inputs so far holds after a run that has not raised. -/
theorem foldlM_invariant (hstep : ∀ {done s i s'}, I done s → step s i = .ok s' →
    I (done ++ [i]) s') {done : List ι} {s s' : σ} (h : I done s) {is : List ι}
    (hrun : is.foldlM step s = .ok s') : I (done ++ is) s' := by
  induction is generalizing done s with
  | nil =>
    cases hrun
    rw [List.append_nil]
    exact h
  | cons i is ih =>
    rw [List.foldlM_cons] at hrun
    obtain ⟨s₁, hfirst, hrest⟩ := bind_eq_ok.mp hrun
    rw [List.append_cons]
    exact ih (hstep h hfirst) hrest

/-- A run raises nothing exactly when each of its steps raises nothing. -/
theorem foldlM_ok_iff (hok : ∀ {done s i}, I done s → ((∃ s', step s i = .ok s') ↔ P s i))
    (hstep : ∀ {done s i s'}, I done s → step s i = .ok s' → I (done ++ [i]) s')
    {done : List ι} {s : σ} (h : I done s) (is : List ι) :
    (∃ s', is.foldlM step s = .ok s') ↔ Along step P s is := by
  induction is generalizing done s with
  | nil => exact ⟨fun _ => trivial, fun _ => ⟨s, rfl⟩⟩
  | cons i is ih =>
    constructor
    · rintro ⟨s', hrun⟩
      rw [List.foldlM_cons] at hrun
      obtain ⟨s₁, hfirst, hrest⟩ := bind_eq_ok.mp hrun
      refine ⟨(hok h).mp ⟨s₁, hfirst⟩, ?_⟩
      intro s₂ hs₂
      rw [hfirst] at hs₂
      cases hs₂
      exact (ih (hstep h hfirst)).mp ⟨s', hrest⟩
    · rintro ⟨hP, hrest⟩
      obtain ⟨s₁, hfirst⟩ := (hok h).mpr hP
      obtain ⟨s', hrun⟩ := (ih (hstep h hfirst)).mpr (hrest s₁ hfirst)
      refine ⟨s', ?_⟩
      rw [List.foldlM_cons]
      exact bind_eq_ok.mpr ⟨s₁, hfirst, hrun⟩

/-- Inputs of one kind, each of which meets `P` where only inputs of that kind came before. -/
theorem along_of_forall (hstep : ∀ {done s i s'}, I done s → step s i = .ok s' → I (done ++ [i]) s')
    {Q : ι → Prop} (hP : ∀ {done s i}, I done s → (∀ j ∈ done, Q j) → Q i → P s i)
    {done : List ι} {s : σ} (h : I done s) (hdone : ∀ j ∈ done, Q j) {is : List ι}
    (his : ∀ i ∈ is, Q i) : Along step P s is := by
  induction is generalizing done s with
  | nil => trivial
  | cons i is ih =>
    rw [List.forall_mem_cons] at his
    refine ⟨hP h hdone his.1, ?_⟩
    intro s' hs'
    apply ih (hstep h hs') _ his.2
    intro j hj
    rcases List.mem_append.mp hj with hj | hj
    · exact hdone j hj
    · rw [List.mem_singleton.mp hj]
      exact his.1

/-- Feed the inputs one after the other and collect the outputs. -/
def run (ask : σ → ι → Except ε (β × σ)) : σ → List ι → Except ε (List β × σ)
  | s, [] => .ok ([], s)
  | s, i :: is => do
    let (b, s) ← ask s i
    let (bs, s) ← run ask s is
    .ok (b :: bs, s)

/-- The state behind an output. -/
def next (ask : σ → ι → Except ε (β × σ)) (s : σ) (i : ι) : Except ε σ := (ask s i).map Prod.snd

/-- The outputs of a machine that never raises. -/
def outputs (ask : τ → ι → β × τ) : τ → List ι → List β
  | _, [] => []
  | t, i :: is => (ask t i).1 :: outputs ask (ask t i).2 is

variable {ask : σ → ι → Except ε (β × σ)} {J : σ → Prop}

theorem next_eq_ok {s s' : σ} {i : ι} : next ask s i = .ok s' ↔ ∃ b, ask s i = .ok (b, s') := by
  rw [next]
  cases ask s i with
  | error e => exact ⟨fun h => (by cases h), fun ⟨b, hb⟩ => (by cases hb)⟩
  | ok r =>
    constructor
    · intro h
      cases h
      exact ⟨r.1, rfl⟩
    · rintro ⟨b, hb⟩
      cases hb
      rfl

theorem run_cons {s s' : σ} {i : ι} {is : List ι} {bs : List β} :
    run ask s (i :: is) = .ok (bs, s') ↔
      ∃ b s₁ bs', ask s i = .ok (b, s₁) ∧ run ask s₁ is = .ok (bs', s') ∧ bs = b :: bs' := by
  constructor
  · intro h
    obtain ⟨⟨b, s₁⟩, hfirst, h⟩ := bind_eq_ok.mp h
    obtain ⟨⟨bs', s₂⟩, hrest, h⟩ := bind_eq_ok.mp h
    cases h
    exact ⟨b, s₁, bs', hfirst, hrest, rfl⟩
  · rintro ⟨b, s₁, bs', hfirst, hrest, rfl⟩
    exact bind_eq_ok.mpr ⟨(b, s₁), hfirst, bind_eq_ok.mpr ⟨(bs', s'), hrest, rfl⟩⟩

theorem run_ok_iff (hok : ∀ {s i}, J s → ((∃ r, ask s i = .ok r) ↔ P s i))
    (hnext : ∀ {s i b s'}, J s → ask s i = .ok (b, s') → J s') {s : σ} (h : J s) (is : List ι) :
    (∃ r, run ask s is = .ok r) ↔ Along (next ask) P s is := by
  induction is generalizing s with
  | nil => exact ⟨fun _ => trivial, fun _ => ⟨([], s), rfl⟩⟩
  | cons i is ih =>
    constructor
    · rintro ⟨⟨bs, s'⟩, hrun⟩
      obtain ⟨b, s₁, bs', hfirst, hrest, -⟩ := run_cons.mp hrun
      refine ⟨(hok h).mp ⟨(b, s₁), hfirst⟩, ?_⟩
      intro s₂ hs₂
      obtain ⟨b', hs₂⟩ := next_eq_ok.mp hs₂
      rw [hfirst] at hs₂
      cases hs₂
      exact (ih (hnext h hfirst)).mp ⟨(bs', s'), hrest⟩
    · rintro ⟨hP, hrest⟩
      obtain ⟨⟨b, s₁⟩, hfirst⟩ := (hok h).mpr hP
      obtain ⟨⟨bs, s'⟩, hrun⟩ := (ih (hnext h hfirst)).mpr
        (hrest s₁ (next_eq_ok.mpr ⟨b, hfirst⟩))
      exact ⟨(b :: bs, s'), run_cons.mpr ⟨b, s₁, bs, hfirst, hrun, rfl⟩⟩

/-- A machine with other outputs for the same steps has these outputs in its runs. -/
theorem run_map {ask' : σ → ι → Except ε (β × σ)} {f : β → β}
    (hask : ∀ s i, ask' s i = (ask s i).map fun r => (f r.1, r.2)) (s : σ) (is : List ι) :
    run ask' s is = (run ask s is).map fun r => (r.1.map f, r.2) := by
  induction is generalizing s with
  | nil => rfl
  | cons i is ih =>
    rw [run, run, hask]
    cases ask s i with
    | error e => rfl
    | ok r =>
      change (run ask' r.2 is >>= fun p => .ok (f r.1 :: p.1, p.2)) = _
      rw [ih]
      change _ = (run ask r.2 is >>= fun p => Except.ok (r.1 :: p.1, p.2)).map _
      cases run ask r.2 is <;> rfl

/-- A machine that simulates one that never raises has its outputs, as far as it gets. -/
theorem run_outputs {total : τ → ι → β × τ} {R : σ → τ → Prop} {is : List ι}
    (hask : ∀ i ∈ is, ∀ {s t b s'}, R s t → ask s i = .ok (b, s') →
      b = (total t i).1 ∧ R s' (total t i).2)
    {s s' : σ} {t : τ} (h : R s t) {bs : List β} (hrun : run ask s is = .ok (bs, s')) :
    bs = outputs total t is := by
  induction is generalizing s t bs with
  | nil =>
    cases hrun
    rfl
  | cons i is ih =>
    obtain ⟨b, s₁, bs', hfirst, hrest, rfl⟩ := run_cons.mp hrun
    rw [List.forall_mem_cons] at hask
    obtain ⟨rfl, hR⟩ := hask.1 h hfirst
    rw [outputs, ih hask.2 hR hrest]

/-- Where every step goes through and follows one of a machine that never raises, the run goes
through with its outputs. -/
theorem run_of_along {total : τ → ι → β × τ} {R : σ → τ → Prop}
    (hask : ∀ {s t i}, R s t → P s i → ∃ s', ask s i = .ok ((total t i).1, s') ∧ R s' (total t i).2)
    {s : σ} {t : τ} (h : R s t) {is : List ι} (halong : Along (next ask) P s is) :
    ∃ s', run ask s is = .ok (outputs total t is, s') := by
  induction is generalizing s t with
  | nil => exact ⟨s, rfl⟩
  | cons i is ih =>
    obtain ⟨hP, halong⟩ := halong
    obtain ⟨s₁, hfirst, hR⟩ := hask h hP
    obtain ⟨s', hrest⟩ := ih hR (halong s₁ (next_eq_ok.mpr ⟨_, hfirst⟩))
    exact ⟨s', run_cons.mpr ⟨_, s₁, _, hfirst, hrest, rfl⟩⟩

/-- A table of results that is emptied once it has `limit` entries. -/
structure Table (κ β : Type u) where
  results : κ → Option β
  entries : Nat

namespace Table

variable [DecidableEq κ] {key : ι → κ} {f : ι → β} {limit : Nat}

def empty : Table κ β := ⟨fun _ => none, 0⟩

/-- Looks up the key of an input, and asks the function for what is not there. -/
def lookUp (limit : Nat) (key : ι → κ) (f : ι → β) (t : Table κ β) (i : ι) : β × Table κ β :=
  match t.results (key i) with
  | some b => (b, t)
  | none =>
    let t := if limit ≤ t.entries then empty else t
    (f i, ⟨Function.update t.results (key i) (some (f i)), t.entries + 1⟩)

/-- The results in the table are those of the function. -/
def Holds (key : ι → κ) (f : ι → β) (P : ι → Prop) (t : Table κ β) : Prop :=
  ∀ i, P i → ∀ b, t.results (key i) = some b → b = f i

variable {P : ι → Prop}

theorem lookUp_spec (limit : Nat) (hkey : ∀ i j, P i → P j → key i = key j → f i = f j)
    {t : Table κ β}
    (h : t.Holds key f P) {i : ι} (hi : P i) :
    (t.lookUp limit key f i).1 = f i ∧ (t.lookUp limit key f i).2.Holds key f P := by
  have hupdate : ∀ r : κ → Option β, (∀ j, P j → ∀ b, r (key j) = some b → b = f j) →
      ∀ j, P j → ∀ b, Function.update r (key i) (some (f i)) (key j) = some b → b = f j := by
    intro r hr j hj b hb
    by_cases hij : key j = key i
    · rw [hij, Function.update_self] at hb
      cases hb
      exact hkey i j hi hj hij.symm
    · rw [Function.update_of_ne hij] at hb
      exact hr j hj b hb
  rw [lookUp]
  cases hresult : t.results (key i) with
  | some b => exact ⟨h i hi b hresult, h⟩
  | none =>
    refine ⟨rfl, hupdate _ ?_⟩
    split
    · intro j _ b hb
      cases hb
    · exact h

/-- A table never changes a result, if inputs of one key have one result. -/
theorem outputs_lookUp (hkey : ∀ i j, P i → P j → key i = key j → f i = f j) {t : Table κ β}
    (h : t.Holds key f P) {is : List ι} (his : ∀ i ∈ is, P i) :
    outputs (lookUp limit key f) t is = is.map f := by
  induction is generalizing t with
  | nil => rfl
  | cons i is ih =>
    rw [List.forall_mem_cons] at his
    obtain ⟨hanswer, hnext⟩ := lookUp_spec limit hkey h his.1
    rw [outputs, hanswer, ih hnext his.2, List.map_cons]

end Table

end Raising
