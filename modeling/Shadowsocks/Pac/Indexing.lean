import Shadowsocks.Pac.Deciding

/-! The keywords that `findKeyword` can choose for a rule are words of every address it matches. -/
namespace Shadowsocks

open Raising

variable {E : Engine} {f : RegExpFilter} {text url host k : JsString} {rules : List JsString}
  {knownFilters : Dict Filter} {m m' : Matcher} {p : JsString → Prop}

/-- The keywords that `findKeyword` can choose for a rule. -/
def Engine.IsKeyword (E : Engine) (text k : JsString) : Prop :=
  k = [] ∨ (regexpRegExp text = false ∧ k ∈ candidates (E.toLowerCase (keywordText text)))

/-- The rule writes an expression of its own, `findKeyword` does not see that it does, and one of
the words that it can choose is not a word of the address. -/
def Engine.Hides (E : Engine) (text location : JsString) : Prop :=
  isRawRegexp (keywordText text) = true ∧ regexpRegExp text = false ∧
    ∃ k ∈ candidates (E.toLowerCase (keywordText text)), k ∉ tokens (E.toLowerCase location)

theorem Matcher.consider_cases (m : Matcher) (knownFilters : Dict Filter) (choice : Choice)
    (candidate : JsString) : m.consider knownFilters choice candidate = choice ∨
      (m.consider knownFilters choice candidate).result = candidate := by
  rw [consider]
  split
  · exact Or.inl rfl
  · split
    · exact Or.inr rfl
    · exact Or.inl rfl

theorem Matcher.foldl_consider (m : Matcher) (knownFilters : Dict Filter) (choice : Choice)
    (list : List JsString) :
    (list.foldl (m.consider knownFilters) choice).result = choice.result ∨
      (list.foldl (m.consider knownFilters) choice).result ∈ list := by
  induction list generalizing choice with
  | nil => exact Or.inl rfl
  | cons candidate list ih =>
    rw [List.foldl_cons]
    rcases ih (m.consider knownFilters choice candidate) with h | h
    · rw [h]
      rcases m.consider_cases knownFilters choice candidate with hsame | hnew
      · exact Or.inl (congrArg Choice.result hsame)
      · rw [hnew]
        exact Or.inr List.mem_cons_self
    · exact Or.inr (List.mem_cons_of_mem _ h)

theorem Engine.isKeyword_findKeyword (E : Engine) (m : Matcher) (knownFilters : Dict Filter)
    (text : JsString) : E.IsKeyword text (E.findKeyword m knownFilters text) := by
  rw [findKeyword]
  by_cases hraw : regexpRegExp text = true
  · rw [if_pos hraw]
    exact Or.inl rfl
  · rw [if_neg hraw]
    rcases m.foldl_consider knownFilters {} (candidates (E.toLowerCase (keywordText text))) with
      h | h
    · exact Or.inl h
    · exact Or.inr ⟨Bool.eq_false_of_not_eq_true hraw, h⟩

/-- The keyword of a rule is looked up for every address that the rule matches. -/
theorem Engine.mem_keywordsOf (hE : E.Lawful) (hhits : E.hits text url host = true)
    (hhides : ¬ E.Hides text url) (hk : E.IsKeyword text k) : k ∈ E.keywordsOf url := by
  rcases hk with rfl | ⟨hregexp, hk⟩
  · exact List.mem_append_right _ (List.mem_singleton_self _)
  · apply List.mem_append_left
    by_cases hraw : isRawRegexp (keywordText text) = true
    · by_contra hmem
      exact hhides ⟨hraw, hregexp, k, hk, hmem⟩
    · cases hactive : (E.newFilter text).active with
      | none =>
        rw [hits, hactive] at hhits
        cases hhits
      | some f =>
        have hdecides := (hits_iff hactive _ _).mp hhits
        obtain ⟨blocking, o, hfilter⟩ := newFilter_active hactive
        obtain ⟨hnone, hsource⟩ :=
          (regExpFilter_spec hfilter).2 (Bool.eq_false_of_not_eq_true hraw)
        obtain ⟨pattern, hparse, hnew⟩ :=
          E.newRegExp_regexpSourceOf (keywordText text) (!f.matchCase)
        have htest := RegExpFilter.expression_of_decides hdecides
        rw [RegExpFilter.expression, hnone, hsource, Option.getD_none, Option.getD_some,
          hnew] at htest
        exact mem_tokens hE hparse htest hk

theorem isRegexpBody_append {body tail : JsString}
    (hbody : ∀ c ∈ body, isLineTerminator c = false) (htail : isRegexpTail tail = true) :
    isRegexpBody (body ++ unit '/' :: tail) = true := by
  induction body with
  | nil =>
    change ((unit '/' == unit '/' && isRegexpTail tail) || _) = true
    rw [htail]
    rfl
  | cons c body ih =>
    rw [List.forall_mem_cons] at hbody
    change ((c == unit '/' && isRegexpTail (body ++ unit '/' :: tail)) ||
      (!isLineTerminator c && isRegexpBody (body ++ unit '/' :: tail))) = true
    rw [hbody.1, ih hbody.2, Bool.not_false, Bool.and_self, Bool.or_true]

/-- On one line, `findKeyword` sees that a rule writes an expression of its own. -/
theorem regexpRegExp_of_isRawRegexp (hline : ∀ c ∈ text, isLineTerminator c = false)
    (hraw : isRawRegexp (keywordText text) = true) : regexpRegExp text = true := by
  rw [keywordText_eq] at hraw
  rw [regexpRegExp]
  have hline' : ∀ c ∈ withoutException text, isLineTerminator c = false := by
    intro c hc
    rw [withoutException] at hc
    split at hc
    · exact hline c (List.mem_of_mem_drop hc)
    · exact hline c hc
  generalize withoutException text = t at hraw hline'
  obtain ⟨src, tail, rfl, htail, hraw⟩ : ∃ src tail, t = src ++ tail ∧
      isRegexpTail tail = true ∧ isRawRegexp src = true := by
    cases hoptions : optionsRegExp t with
    | none =>
      rw [hoptions] at hraw
      exact ⟨t, [], (List.append_nil t).symm, rfl, hraw⟩
    | some parsed =>
      rw [hoptions] at hraw
      obtain ⟨ht, hlist⟩ := optionsRegExp_eq_some hoptions
      refine ⟨parsed.1, unit '$' :: parsed.2, ht, ?_, hraw⟩
      rw [isRegexpTail, hlist]
      rfl
  rw [isRawRegexp, Bool.and_eq_true, Bool.and_eq_true] at hraw
  obtain ⟨⟨hlength, hfirst⟩, hlast⟩ := hraw
  have hlast := eq_of_beq hlast
  cases src with
  | nil => cases hlast
  | cons c src =>
    rcases List.eq_nil_or_concat' src with rfl | ⟨body, d, rfl⟩
    · cases hlength
    · rw [← List.cons_append, List.getLast?_concat] at hlast
      cases hlast
      have hbody : ∀ x ∈ body, isLineTerminator x = false :=
        fun x hx => hline' x (by simp [hx])
      have hslash : (c == unit '/') = true := by
        rw [List.head?_cons] at hfirst
        exact beq_iff_eq.mpr (Option.some.inj (eq_of_beq hfirst))
      change (c == unit '/' && isRegexpBody (body ++ [unit '/'] ++ tail)) = true
      rw [hslash, List.append_assoc, Bool.true_and]
      exact isRegexpBody_append hbody htail

theorem Engine.not_hides (E : Engine) (hline : ∀ c ∈ text, isLineTerminator c = false)
    (url : JsString) : ¬ E.Hides text url := by
  rintro ⟨hraw, hregexp, -⟩
  rw [regexpRegExp_of_isRawRegexp hline hraw] at hregexp
  cases hregexp

end Shadowsocks
