import Mathlib.Data.List.TakeWhile
import Shadowsocks.Pac.Fitting
import Shadowsocks.Pac.Matcher

/-!
Whether a filter matches an address. It does not depend on what the filter has worked out so far.
-/
namespace Shadowsocks

open Raising

variable {E : Engine} {f f' : RegExpFilter} {text url host src : JsString}

/-- Whether the filter of a rule matches an address, before it has been asked for any other. -/
def Engine.hits (E : Engine) (text location docDomain : JsString) : Bool :=
  match (E.newFilter text).active with
  | none => false
  | some f =>
    match f.matchesLocation E location docDomain with
    | .ok (hit, _) => hit
    | .error _ => false

/-- Whether the filter of a rule raises an exception instead. -/
def Engine.raises (E : Engine) (text location docDomain : JsString) : Bool :=
  match (E.newFilter text).active with
  | none => false
  | some f =>
    match f.matchesLocation E location docDomain with
    | .ok _ => false
    | .error _ => true

/-- The rule is neither a comment nor invalid. -/
def Engine.isWellFormed (E : Engine) (text : JsString) : Bool :=
  (E.newFilter text).active.isSome

theorem Engine.newRegExp_regexpSourceOf (E : Engine) (src : JsString) (ic : Bool) :
    ∃ pattern, parsePattern (regexpSourceOf src) = some pattern ∧
      E.newRegExp (regexpSourceOf src) ic = .ok (E.test ic pattern) := by
  obtain ⟨anchor, core, finish, -, hparse⟩ := parsePattern_regexpSourceOf src
  refine ⟨_, hparse, ?_⟩
  rw [newRegExp, hparse]

namespace RegExpFilter

/-- A list of two or more domains that are all empty. -/
def namesNothing (domainSource : JsString) : Bool :=
  let list := splitUnit (unit '|') domainSource
  list.length != 1 && list.all fun domain => withoutTrailingDots domain == []

theorem readDomains_some (domains : Dict Bool) (hasIncludes : Bool) (list : List JsString) :
    (readDomains (some domains) hasIncludes list).1 ≠ none := by
  induction list generalizing domains hasIncludes with
  | nil => exact Option.some_ne_none _
  | cons domain list ih =>
    rw [readDomains]
    split
    · exact ih domains hasIncludes
    · exact ih _ _

theorem readDomains_none_iff (hasIncludes : Bool) (list : List JsString) :
    (readDomains none hasIncludes list).1 = none ↔
      ∀ domain ∈ list, withoutTrailingDots domain = [] := by
  induction list generalizing hasIncludes with
  | nil => exact ⟨fun _ _ h => absurd h List.not_mem_nil, fun _ => rfl⟩
  | cons domain list ih =>
    rw [readDomains, List.forall_mem_cons]
    split
    · rename_i hempty
      rw [ih]
      exact ⟨fun h => ⟨hempty, h⟩, fun h => h.2⟩
    · rename_i hempty
      exact ⟨fun h => absurd h (readDomains_some _ _ _), fun h => absurd h.1 hempty⟩

theorem withoutTrailingDots_eq_nil {domain : JsString} (h : withoutTrailingDots domain = []) :
    ∀ c ∈ domain, c = unit '.' := by
  intro c hc
  have hall := List.dropWhile_eq_nil_iff.mp (List.reverse_eq_nil_iff.mp h)
  exact eq_of_beq (hall c (List.mem_reverse.mpr hc))

/-- The domains cannot be listed when there are several and all are empty. -/
theorem listedDomains_cases (source : JsString) :
    (namesNothing source = true ∧ listedDomains source = .error .typeError) ∨
      namesNothing source = false ∧ ∃ domains, listedDomains source = .ok domains := by
  rw [namesNothing, listedDomains]
  generalize splitUnit (unit '|') source = list
  split
  · rename_i hone
    exact Or.inr ⟨by simp [hone.1], _, rfl⟩
  · rename_i hone
    by_cases hempty : ∀ domain ∈ list, withoutTrailingDots domain = []
    · have hlength : list.length ≠ 1 := by
        intro hlength
        obtain ⟨domain, rfl⟩ := List.length_eq_one_iff.mp hlength
        apply hone
        refine ⟨rfl, ?_⟩
        intro hhead
        have hmem : unit '~' ∈ domain := List.mem_of_head? hhead
        have hdot := withoutTrailingDots_eq_nil (hempty domain (List.mem_singleton_self _)) _ hmem
        revert hdot
        decide
      have hnone := (readDomains_none_iff false list).mpr hempty
      left
      refine ⟨?_, ?_⟩
      · rw [Bool.and_eq_true, List.all_eq_true]
        exact ⟨bne_iff_ne.mpr hlength, fun domain hd => beq_iff_eq.mpr (hempty domain hd)⟩
      · split
        · rfl
        · rename_i hread
          rw [hread] at hnone
          cases hnone
    · have hsome := mt (readDomains_none_iff false list).mp hempty
      right
      refine ⟨?_, ?_⟩
      · rw [Bool.and_eq_false_iff, List.all_eq_false]
        right
        push Not at hempty
        obtain ⟨domain, hd, hne⟩ := hempty
        exact ⟨domain, hd, fun h => hne (beq_iff_eq.mp h)⟩
      · split
        · rename_i hread
          rw [hread] at hsome
          exact absurd rfl hsome
        · exact ⟨_, rfl⟩

variable (E)

/-- The test of the filter's expression. -/
def expression (f : RegExpFilter) : JsString → Bool :=
  f.regexp.getD <|
    match E.newRegExp (regexpSourceOf (f.regexpSource.getD [])) (!f.matchCase) with
    | .ok regexp => regexp
    | .error _ => fun _ => false

/-- The filter is for some sites only, which have keys of their own. -/
def keyed (f : RegExpFilter) : Bool := f.sitekeys.isSome || f.sitekeySource.any (· != [])

/-- The domains of the filter can be listed. -/
def readable (f : RegExpFilter) : Bool := f.domainSource.all fun source => !namesNothing source

/-- Whether the filter matches an address, unless that raises. -/
def decides (f : RegExpFilter) (location : JsString) : Except JsError Bool :=
  if f.expression E location && !f.keyed then
    if f.readable then .ok true else .error .typeError
  else .ok false

/-- The same filter, which may have worked out more. -/
structure Alike (f f' : RegExpFilter) : Prop where
  blocking : f'.blocking = f.blocking
  expression : f'.expression E = f.expression E
  keyed : f'.keyed = f.keyed
  readable : f'.readable = f.readable
  domains : f'.domains = none

variable {E}

theorem expression_of_decides (h : f.decides E url = .ok true) : f.expression E url = true := by
  rw [decides] at h
  split at h
  · rename_i hboth
    exact (Bool.and_eq_true_iff.mp hboth).1
  · cases h

theorem expression_congr (hregexp : f'.regexp = f.regexp)
    (hsource : f'.regexpSource = f.regexpSource) (hcase : f'.matchCase = f.matchCase) :
    f'.expression E = f.expression E := by
  rw [expression, expression, hregexp, hsource, hcase]

theorem alike_refl (h : f.domains = none) : f.Alike E f := ⟨rfl, rfl, rfl, rfl, h⟩

theorem Alike.trans {f'' : RegExpFilter} (h : f.Alike E f') (h' : f'.Alike E f'') :
    f.Alike E f'' where
  blocking := h'.blocking.trans h.blocking
  expression := h'.expression.trans h.expression
  keyed := h'.keyed.trans h.keyed
  readable := h'.readable.trans h.readable
  domains := h'.domains

theorem Alike.decides (h : f.Alike E f') (url : JsString) : f'.decides E url = f.decides E url := by
  rw [RegExpFilter.decides, RegExpFilter.decides, h.expression, h.keyed, h.readable]

theorem getRegexp_spec (h : f.domains = none) :
    ∃ f', f.getRegexp E = .ok (f.expression E, f') ∧ f.Alike E f' := by
  rw [getRegexp, expression]
  cases hregexp : f.regexp with
  | some regexp => exact ⟨f, rfl, alike_refl h⟩
  | none =>
    obtain ⟨pattern, -, hnew⟩ := E.newRegExp_regexpSourceOf (f.regexpSource.getD []) (!f.matchCase)
    refine ⟨{ f with regexp := some (E.test (!f.matchCase) pattern) }, ?_, rfl, ?_, rfl, rfl, h⟩
    · rw [hnew]
      rfl
    · rw [expression, expression, hregexp, hnew]
      rfl

theorem getSitekeys_spec (h : f.domains = none) :
    ∃ keys f', f.getSitekeys = (keys, f') ∧ keys.isSome = f.keyed ∧ f.Alike E f' := by
  rw [getSitekeys, keyed]
  cases hkeys : f.sitekeys with
  | some keys => exact ⟨_, f, rfl, rfl, alike_refl h⟩
  | none =>
    rcases hsource : f.sitekeySource with _ | _ | ⟨c, source⟩
    · exact ⟨none, f, rfl, rfl, alike_refl h⟩
    · exact ⟨none, f, rfl, rfl, alike_refl h⟩
    · refine ⟨_, _, rfl, rfl, rfl, expression_congr rfl rfl rfl, ?_, rfl, h⟩
      rw [keyed, keyed, hkeys, hsource]
      rfl

theorem getDomains_spec (h : f.domains = none) :
    (f.readable = false ∧ f.getDomains = .error .typeError) ∨
      f.readable = true ∧ ∃ f', f.getDomains = .ok (none, f') ∧ f.Alike E f' := by
  rw [getDomains, readable, h]
  cases hsource : f.domainSource with
  | none => exact Or.inr ⟨rfl, f, rfl, alike_refl h⟩
  | some source =>
    by_cases hempty : source = []
    · subst hempty
      have hnames : namesNothing [] = false := by decide
      rw [Option.all_some, hnames]
      exact Or.inr ⟨rfl, f, rfl, alike_refl h⟩
    · dsimp only
      rw [if_neg hempty, Option.all_some]
      rcases listedDomains_cases source with ⟨hnames, hlist⟩ | ⟨hnames, domains, hlist⟩
      · rw [hnames, hlist]
        exact Or.inl ⟨rfl, rfl⟩
      · rw [hnames, hlist]
        refine Or.inr ⟨rfl, _, rfl, rfl, expression_congr rfl rfl rfl, rfl, ?_, rfl⟩
        rw [readable, readable, hsource, Option.all_some, hnames]
        rfl

/-- What `matches` returns or raises, and what it leaves of the filter. -/
theorem matchesLocation_spec (h : f.domains = none) (url host : JsString) :
    ∃ f', f.matchesLocation E url host = (f.decides E url).map (fun hit => (hit, f')) ∧
      f.Alike E f' := by
  obtain ⟨f₁, hregexp, h₁⟩ := getRegexp_spec (E := E) h
  rw [matchesLocation, hregexp, decides]
  change ∃ f', (if f.expression E url then f₁.isActiveOnDomain E host none else
    .ok (false, f₁)) = _ ∧ _
  by_cases htest : f.expression E url = true
  · rw [if_pos htest, htest, Bool.true_and]
    obtain ⟨keys, f₂, hkeys, hkeyed, h₂⟩ := getSitekeys_spec (E := E) h₁.domains
    rw [isActiveOnDomain, hkeys]
    dsimp only
    have hany : (keys.any fun keys =>
        (none : Option JsString).all fun key => key = [] ∨ E.toUpperCase key ∉ keys) = f.keyed := by
      rw [← h₁.keyed, ← hkeyed]
      cases keys <;> rfl
    rw [hany]
    by_cases hkey : f.keyed = true
    · rw [if_pos hkey, hkey]
      exact ⟨f₂, rfl, h₁.trans h₂⟩
    · rw [if_neg hkey, Bool.eq_false_of_not_eq_true hkey]
      rcases getDomains_spec (E := E) h₂.domains with ⟨hread, hget⟩ | ⟨hread, f₃, hget, h₃⟩
      · rw [hget, ← h₁.readable, ← h₂.readable, hread]
        exact ⟨f₂, rfl, h₁.trans h₂⟩
      · rw [hget, ← h₁.readable, ← h₂.readable, hread]
        exact ⟨f₃, rfl, (h₁.trans h₂).trans h₃⟩
  · rw [if_neg htest, Bool.eq_false_of_not_eq_true htest]
    exact ⟨f₁, rfl, h₁⟩

end RegExpFilter

theorem optionsRegExp_eq_some {t rest options : JsString}
    (h : optionsRegExp t = some (rest, options)) :
    t = rest ++ unit '$' :: options ∧ isOptionList options = true := by
  induction t generalizing rest with
  | nil => cases h
  | cons c t ih =>
    rw [optionsRegExp] at h
    split at h
    · rename_i hoptions
      cases h
      exact ⟨by rw [hoptions.1]; rfl, hoptions.2⟩
    · obtain ⟨⟨rest', options'⟩, hrest, h⟩ := Option.map_eq_some_iff.mp h
      cases h
      obtain ⟨rfl, hlist⟩ := ih hrest
      exact ⟨rfl, hlist⟩

theorem optionsRegExp_exception (t : JsString) : optionsRegExp (js "@@" ++ t) =
    (optionsRegExp t).map fun p => (js "@@" ++ p.1, p.2) := by
  have hexception : js "@@" = [64, 64] := by decide +kernel
  have hdollar : ¬ ∃ s, (64 = unit '$' ∧ isOptionList s = true) := fun ⟨_, h⟩ => by cases h.1
  rw [not_exists] at hdollar
  rw [hexception]
  change optionsRegExp (64 :: 64 :: t) = _
  rw [optionsRegExp, if_neg (hdollar _), optionsRegExp, if_neg (hdollar _), Option.map_map]
  rfl

theorem withoutException_append (t : JsString) : withoutException (js "@@" ++ t) = t := by
  have hlength : (js "@@").length = 2 := by decide +kernel
  rw [withoutException, if_pos (List.isPrefixOf_iff_prefix.mpr (List.prefix_append _ _))]
  rw [← hlength, List.drop_left]

theorem withoutException_of_not {t : JsString} (h : ¬ js "@@" <+: t) : withoutException t = t := by
  rw [withoutException, if_neg (mt List.isPrefixOf_iff_prefix.mp h)]

/-- Candidates for the keyword are looked for in what the expression is made of. -/
theorem keywordText_eq (text : JsString) : keywordText text =
    match optionsRegExp (withoutException text) with
    | none => withoutException text
    | some (rest, _) => rest := by
  rw [keywordText]
  by_cases hexception : js "@@" <+: text
  · obtain ⟨t, rfl⟩ := hexception
    rw [optionsRegExp_exception, withoutException_append]
    cases optionsRegExp t with
    | none => exact withoutException_append t
    | some p => exact withoutException_append p.1
  · rw [withoutException_of_not hexception]
    cases hoptions : optionsRegExp text with
    | none => exact withoutException_of_not hexception
    | some p =>
      apply withoutException_of_not
      intro hprefix
      apply hexception
      rw [(optionsRegExp_eq_some hoptions).1]
      exact hprefix.trans (List.prefix_append _ _)

/-- A new filter has worked out nothing but an expression of its own. -/
theorem Engine.regExpFilter_spec {blocking : Bool} {o : Options}
    (h : E.regExpFilter blocking src o = .ok f) : f.domains = none ∧
      (isRawRegexp src = false → f.regexp = none ∧ f.regexpSource = some src) := by
  rw [regExpFilter] at h
  by_cases hraw : isRawRegexp src = true
  · rw [if_pos hraw] at h
    obtain ⟨regexp, -, h⟩ := bind_eq_ok.mp h
    cases h
    refine ⟨rfl, ?_⟩
    rw [hraw]
    exact fun h => by cases h
  · rw [if_neg hraw] at h
    cases h
    exact ⟨rfl, fun _ => ⟨rfl, rfl⟩⟩

theorem Engine.newFilter_active (h : (E.newFilter text).active = some f) :
    ∃ blocking o, E.regExpFilter blocking (keywordText text) o = .ok f := by
  rw [newFilter] at h
  split at h
  · cases h
  · rw [keywordText_eq]
    rw [regExpFilterFromText] at h
    generalize optionsRegExp (withoutException text) = parsed at h ⊢
    cases parsed with
    | none =>
      dsimp only at h ⊢
      split at h
      · cases h
      · rename_i hfilter
        cases h
        exact ⟨_, _, hfilter⟩
    | some p =>
      dsimp only at h ⊢
      split at h
      · cases h
      · split at h
        · cases h
        · rename_i hfilter
          cases h
          exact ⟨_, _, hfilter⟩

theorem Engine.domains_newFilter (E : Engine) {f : RegExpFilter}
    (h : (E.newFilter text).active = some f) : f.domains = none := by
  obtain ⟨blocking, o, hfilter⟩ := newFilter_active h
  exact (regExpFilter_spec hfilter).1

theorem Engine.hits_iff {f : RegExpFilter} (h : (E.newFilter text).active = some f)
    (url host : JsString) :
    E.hits text url host = true ↔ f.decides E url = .ok true := by
  obtain ⟨f', hlocation, -⟩ :=
    RegExpFilter.matchesLocation_spec (E := E) (E.domains_newFilter h) url host
  rw [hits, h]
  dsimp only
  rw [hlocation]
  cases f.decides E url with
  | error e => exact ⟨fun h => (by cases h), fun h => (by cases h)⟩
  | ok hit =>
    constructor
    · rintro rfl
      rfl
    · intro h
      cases h
      rfl

theorem Engine.raises_iff {f : RegExpFilter} (h : (E.newFilter text).active = some f) :
    E.raises text url host = true ↔ ∃ e, f.decides E url = .error e := by
  obtain ⟨f', hlocation, -⟩ :=
    RegExpFilter.matchesLocation_spec (E := E) (E.domains_newFilter h) url host
  rw [raises, h]
  dsimp only
  rw [hlocation]
  cases f.decides E url with
  | error e => exact ⟨fun _ => ⟨e, rfl⟩, fun _ => rfl⟩
  | ok hit => exact ⟨fun h => (by cases h), fun ⟨_, h⟩ => (by cases h)⟩

/-- The filters of the rules are known, and every known filter is that of its text. -/
structure Engine.Knows (E : Engine) (rules : List JsString) (knownFilters : Dict Filter) :
    Prop where
  known : ∀ text ∈ rules, (knownFilters text).isSome
  alike : ∀ text filter, knownFilters text = some filter →
    Option.Rel (RegExpFilter.Alike E) (E.newFilter text).active filter.active

variable {rules : List JsString} {knownFilters : Dict Filter}

theorem Engine.Knows.members (h : E.Knows rules knownFilters) (hmem : text ∈ rules) :
    Option.Rel (RegExpFilter.Alike E) (E.newFilter text).active (members knownFilters text) := by
  obtain ⟨filter, hfilter⟩ := Option.isSome_iff_exists.mp (h.known text hmem)
  rw [Shadowsocks.members, hfilter]
  exact h.alike text filter hfilter

theorem Engine.Knows.members_isSome (h : E.Knows rules knownFilters) (hmem : text ∈ rules) :
    (Shadowsocks.members knownFilters text).isSome = E.isWellFormed text := by
  rw [isWellFormed]
  have hrel := h.members hmem
  generalize (E.newFilter text).active = a, Shadowsocks.members knownFilters text = m at hrel
  cases hrel <;> rfl

theorem Engine.Knows.update (h : E.Knows rules knownFilters) (text : JsString) {filter : Filter}
    (hfilter : Option.Rel (RegExpFilter.Alike E) (E.newFilter text).active filter.active) :
    E.Knows (rules ++ [text]) (Function.update knownFilters text (some filter)) where
  known text' hmem := by
    by_cases htext : text' = text
    · rw [htext, Function.update_self]
      rfl
    · rw [Function.update_of_ne htext]
      apply h.known
      rcases List.mem_append.mp hmem with hmem | hmem
      · exact hmem
      · exact absurd (List.mem_singleton.mp hmem) htext
  alike text' filter' hfilter' := by
    by_cases htext : text' = text
    · subst htext
      rw [Function.update_self] at hfilter'
      cases hfilter'
      exact hfilter
    · rw [Function.update_of_ne htext] at hfilter'
      exact h.alike text' filter' hfilter'

theorem Engine.Knows.mono (h : E.Knows rules knownFilters) {rules' : List JsString}
    (hsub : rules' ⊆ rules) : E.Knows rules' knownFilters :=
  ⟨fun text hmem => h.known text (hsub hmem), h.alike⟩

/-- `Filter.fromText` knows one filter more. -/
theorem Engine.Knows.fromText (h : E.Knows rules knownFilters) (text : JsString) :
    E.Knows (rules ++ [text]) (E.fromText knownFilters text) := by
  rw [Engine.fromText]
  split
  · rename_i hknown
    refine ⟨?_, h.alike⟩
    intro text' hmem
    rcases List.mem_append.mp hmem with hmem | hmem
    · exact h.known text' hmem
    · rw [List.mem_singleton.mp hmem, hknown]
      rfl
  · refine h.update text ?_
    cases hactive : (E.newFilter text).active with
    | none => exact .none
    | some f => exact .some (RegExpFilter.alike_refl (E.domains_newFilter hactive))

/-- A filter can be asked unless it is malformed or its domains cannot be listed. -/
theorem Engine.matchesFilter_ok_iff (h : E.Knows rules knownFilters) (hmem : text ∈ rules) :
    (∃ r, E.matchesFilter knownFilters text url host = .ok r) ↔
      E.isWellFormed text = true ∧ E.raises text url host = false := by
  rw [matchesFilter, isWellFormed]
  have hrel := h.members hmem
  cases hactive : (E.newFilter text).active with
  | none =>
    rw [hactive] at hrel
    generalize members knownFilters text = m at hrel ⊢
    cases hrel
    exact ⟨fun ⟨r, hr⟩ => (by cases hr), fun hwell => (by cases hwell.1)⟩
  | some f₀ =>
    rw [← Bool.not_eq_true, raises_iff hactive]
    rw [hactive] at hrel
    generalize members knownFilters text = m at hrel ⊢
    cases hrel with
    | some halike =>
      obtain ⟨f', hlocation, -⟩ :=
        RegExpFilter.matchesLocation_spec (E := E) halike.domains url host
      rw [← halike.decides]
      dsimp only
      rw [hlocation]
      cases RegExpFilter.decides E _ url with
      | error e => exact ⟨fun ⟨r, hr⟩ => (by cases hr), fun hok => absurd ⟨e, rfl⟩ hok.2⟩
      | ok hit => exact ⟨fun _ => ⟨rfl, fun ⟨e, he⟩ => (by cases he)⟩, fun _ => ⟨_, rfl⟩⟩

/-- What a filter answers, and that the filters stay those of the rules. -/
theorem Engine.matchesFilter_spec (h : E.Knows rules knownFilters) (hmem : text ∈ rules)
    {hit : Bool} {knownFilters' : Dict Filter}
    (hok : E.matchesFilter knownFilters text url host = .ok (hit, knownFilters')) :
    hit = E.hits text url host ∧ E.Knows rules knownFilters' := by
  rw [matchesFilter] at hok
  have hrel := h.members hmem
  cases hactive : (E.newFilter text).active with
  | none =>
    rw [hactive] at hrel
    generalize members knownFilters text = m at hrel hok
    cases hrel
    cases hok
  | some f₀ =>
    have hhits := hits_iff hactive url host
    rw [hactive] at hrel
    generalize members knownFilters text = m at hrel hok
    cases hrel with
    | some halike =>
      obtain ⟨⟨hit', f'⟩, hlocation, hok⟩ := bind_eq_ok.mp hok
      obtain ⟨f'', hspec, halike'⟩ :=
        RegExpFilter.matchesLocation_spec (E := E) halike.domains url host
      rw [hspec, halike.decides] at hlocation
      cases hdecides : f₀.decides E url with
      | error e =>
        rw [hdecides] at hlocation
        cases hlocation
      | ok hit₀ =>
        rw [hdecides] at hlocation
        cases hlocation
        cases hok
        refine ⟨?_, (h.update text ?_).mono (List.subset_append_left _ _)⟩
        · rw [hdecides] at hhits
          refine Bool.eq_iff_iff.mpr ⟨fun h => hhits.mpr (congrArg _ h), ?_⟩
          intro h
          cases hhits.mp h
          rfl
        · rw [hactive]
          exact .some (halike.trans halike')

end Shadowsocks
