import Shadowsocks.Pac.Querying

/-!
Queries one after the other. The script is a table of remembered answers over a scan of the rules.
-/
namespace Shadowsocks

open Raising

/-- The results that are remembered are the answers in the table. -/
structure Engine.Caches (E : Engine) (rules : List JsString) (g : PacGlobals)
    (t : Table JsString JsString) : Prop where
  loaded : E.Loaded rules g
  results : ∀ key, t.results key = (g.defaultMatcher.resultCache key).map E.answerOf
  entries : t.entries = g.defaultMatcher.cacheEntries
  mem : ∀ key text, g.defaultMatcher.resultCache key = some (some text) → text ∈ rules

/-- The answers of a table over a scan of the rules. -/
def Engine.remembered (E : Engine) (rules : List JsString) (queries : List (JsString × JsString)) :
    List JsString :=
  outputs (Table.lookUp maxCacheEntries (fun query => cacheKey query.1 query.2) (E.scan rules))
    Table.empty queries

/-- A query to the script. -/
def Engine.ask (E : Engine) (g : PacGlobals) (query : JsString × JsString) :
    Except JsError (JsString × PacGlobals) :=
  E.findProxyForURL g query.1 query.2

/-- Answering the query raises nothing, and no rule that matches the address is under a word that is
none of the address. -/
def Engine.Answerable (E : Engine) (rules : List JsString) (g : PacGlobals)
    (query : JsString × JsString) : Prop :=
  E.Quiet g query ∧
    ∀ text ∈ rules, E.hits text query.1 query.2 = true → ¬ E.Hides text query.1

/-- The rules can be loaded, and every query gets the answer of a scan. -/
def Engine.Agrees (E : Engine) (rules : List JsString) (queries : List (JsString × JsString)) :
    Prop :=
  ∃ g g', E.load rules = .ok g ∧ E.answers g queries = .ok (queries.map (E.scan rules), g')

variable {E : Engine} {rules : List JsString} {g g' : PacGlobals} {query : JsString × JsString}
  {t : Table JsString JsString} {queries : List (JsString × JsString)}

theorem CombinedMatcher.ofKind_remember (c : CombinedMatcher) (key : JsString)
    (result : Option JsString) (kind : Bool) :
    (c.remember key result).ofKind kind = c.ofKind kind := by
  rw [remember]
  split <;> cases kind <;> rfl

theorem Engine.matchesAny_ok_iff (h : E.Loaded rules g) :
    (∃ r, E.matchesAny g query.1 query.2 = .ok r) ↔ E.Quiet g query := by
  rw [matchesAny, Quiet]
  cases g.defaultMatcher.resultCache (cacheKey query.1 query.2) with
  | some result => exact ⟨nofun, fun _ => ⟨_, rfl⟩⟩
  | none =>
    have hiff := matchesAnyInternal_ok_iff h query.1 query.2
    constructor
    · rintro ⟨r, hr⟩ -
      obtain ⟨r', hask, -⟩ := bind_eq_ok.mp hr
      exact hiff.mp ⟨r', hask⟩
    · intro hquiet
      obtain ⟨r, hask⟩ := hiff.mpr (hquiet rfl)
      exact ⟨_, bind_eq_ok.mpr ⟨r, hask, rfl⟩⟩

theorem Engine.ask_ok_iff (h : E.Loaded rules g) :
    (∃ r, E.ask g query = .ok r) ↔ E.Quiet g query := by
  rw [← matchesAny_ok_iff h]
  constructor
  · rintro ⟨r, hr⟩
    obtain ⟨r', hmatches, -⟩ := bind_eq_ok.mp hr
    exact ⟨r', hmatches⟩
  · rintro ⟨r, hr⟩
    exact ⟨_, bind_eq_ok.mpr ⟨r, hr, rfl⟩⟩

/-- A query leaves the rules as they are. -/
theorem Engine.Loaded.ask (h : E.Loaded rules g) {answer : JsString}
    (hask : E.ask g query = .ok (answer, g')) : E.Loaded rules g' := by
  obtain ⟨⟨result, g₁⟩, hmatches, hask⟩ := bind_eq_ok.mp hask
  cases hask
  rw [matchesAny] at hmatches
  cases hcache : g.defaultMatcher.resultCache (cacheKey query.1 query.2) with
  | some result' =>
    rw [hcache] at hmatches
    cases hmatches
    exact h
  | none =>
    rw [hcache] at hmatches
    obtain ⟨⟨r, knownFilters⟩, hlook, hmatches⟩ := bind_eq_ok.mp hmatches
    cases hmatches
    refine ⟨(checkKeywords_spec h.knows h.under_subset hlook).2, ?_⟩
    intro kind
    rw [CombinedMatcher.ofKind_remember]
    exact h.indexes kind

theorem Engine.Loaded.answer_eq (h : E.Loaded rules g) {result : Option JsString}
    (hmem : ∀ text, result = some text → text ∈ rules) :
    (if (result.bind g.knownFilters).any Filter.isBlocking then proxy else direct) =
      E.answerOf result := by
  rw [answerOf]
  cases result with
  | none => rfl
  | some text =>
    rw [Option.bind_some, Option.any_some, h.knows.isBlocking (hmem text rfl)]

theorem Engine.map_update (E : Engine) {results : Dict JsString} {cache : Dict (Option JsString)}
    (h : ∀ key, results key = (cache key).map E.answerOf) (key : JsString)
    (result : Option JsString) (other : JsString) :
    Function.update results key (some (E.answerOf result)) other =
      (Function.update cache key (some result) other).map E.answerOf := by
  by_cases hother : other = key
  · rw [hother, Function.update_self, Function.update_self]
    rfl
  · rw [Function.update_of_ne hother, Function.update_of_ne hother, h]

theorem mem_of_update {cache : Dict (Option JsString)}
    (h : ∀ key text, cache key = some (some text) → text ∈ rules) {result : Option JsString}
    (hresult : ∀ text, result = some text → text ∈ rules) (key : JsString) {other text : JsString}
    (hmem : Function.update cache key (some result) other = some (some text)) : text ∈ rules := by
  by_cases hother : other = key
  · rw [hother, Function.update_self] at hmem
    exact hresult text (Option.some.inj hmem)
  · rw [Function.update_of_ne hother] at hmem
    exact h other text hmem

/-- A query does to the script what it does to the table. -/
theorem Engine.Caches.ask (hE : E.Lawful) (h : E.Caches rules g t)
    (hhides : ∀ text ∈ rules, E.hits text query.1 query.2 = true → ¬ E.Hides text query.1)
    {answer : JsString} (hask : E.ask g query = .ok (answer, g')) :
    let lookUp :=
      t.lookUp maxCacheEntries (fun query => cacheKey query.1 query.2) (E.scan rules) query
    answer = lookUp.1 ∧ E.Caches rules g' lookUp.2 := by
  have hloaded := h.loaded.ask hask
  obtain ⟨⟨result, g₁⟩, hmatches, hask⟩ := bind_eq_ok.mp hask
  cases hask
  rw [matchesAny] at hmatches
  rw [Table.lookUp, h.results]
  cases hcache : g.defaultMatcher.resultCache (cacheKey query.1 query.2) with
  | some result' =>
    rw [hcache] at hmatches
    cases hmatches
    refine ⟨hloaded.answer_eq ?_, h⟩
    rintro text rfl
    exact h.mem _ text hcache
  | none =>
    rw [hcache] at hmatches
    obtain ⟨⟨r, knownFilters⟩, hlook, hmatches⟩ := bind_eq_ok.mp hmatches
    cases hmatches
    obtain ⟨-, hmem, hscan⟩ := matchesAnyInternal_spec hE h.loaded hhides hlook
    refine ⟨(hloaded.answer_eq hmem).trans hscan, ?_⟩
    dsimp only
    rw [← hscan, h.entries]
    by_cases hfull : maxCacheEntries ≤ g.defaultMatcher.cacheEntries
    · have hempty : ∀ key, (Table.empty : Table JsString JsString).results key =
          (createDict (Option JsString) key).map E.answerOf := fun _ => rfl
      have hnone : ∀ key text, createDict (Option JsString) key = some (some text) →
          text ∈ rules := by
        intro key text h
        cases h
      rw [CombinedMatcher.remember, if_pos hfull] at hloaded ⊢
      rw [if_pos hfull]
      exact ⟨hloaded, E.map_update hempty _ _, rfl, fun key text => mem_of_update hnone hmem _⟩
    · rw [CombinedMatcher.remember, if_neg hfull] at hloaded ⊢
      rw [if_neg hfull]
      exact ⟨hloaded, E.map_update h.results _ _, congrArg (· + 1) h.entries,
        fun key text => mem_of_update h.mem hmem _⟩

theorem Engine.caches_of_cold (h : E.Loaded rules g) (hcold : g.Cold) :
    E.Caches rules g Table.empty where
  loaded := h
  results key := by
    rw [hcold.1]
    rfl
  entries := hcold.2.symm
  mem key text hmem := by
    rw [hcold.1] at hmem
    cases hmem

/-- Every query is answered exactly when none meets a state in which answering it raises. -/
theorem Engine.answers_ok_iff (h : E.Loaded rules g) :
    (∃ r, E.answers g queries = .ok r) ↔ Along (next E.ask) E.Quiet g queries :=
  run_ok_iff (J := E.Loaded rules) ask_ok_iff (fun h hask => h.ask hask) h queries

theorem Engine.answers_eq (hE : E.Lawful) (hload : E.load rules = .ok g)
    (hhides : ∀ query ∈ queries, ∀ text ∈ rules,
      E.hits text query.1 query.2 = true → ¬ E.Hides text query.1)
    {answers : List JsString} (hanswers : E.answers g queries = .ok (answers, g')) :
    answers = E.remembered rules queries := by
  obtain ⟨hloaded, hcold⟩ := load_spec hload
  refine run_outputs (R := E.Caches rules) ?_ (caches_of_cold hloaded hcold) hanswers
  intro query hquery g t answer g' h hask
  exact h.ask hE (hhides query hquery) hask

/-- Without spaces in it, a query can be told from its key. -/
theorem cacheKey_inj {a b c d : JsString} (ha : unit ' ' ∉ a) (hc : unit ' ' ∉ c)
    (h : cacheKey a b = cacheKey c d) : a = c ∧ b = d := by
  rw [cacheKey, cacheKey] at h
  induction a generalizing c with
  | nil =>
    cases c with
    | nil => exact ⟨rfl, List.append_cancel_right (List.cons.inj h).2⟩
    | cons x c => exact absurd (List.cons.inj h).1 fun heq => hc (heq ▸ List.mem_cons_self)
  | cons x a ih =>
    cases c with
    | nil => exact absurd (List.cons.inj h).1 fun heq => ha (heq ▸ List.mem_cons_self)
    | cons y c =>
      obtain ⟨rfl, hrest⟩ := List.cons.inj h
      obtain ⟨rfl, hbd⟩ := ih (fun hmem => ha (List.mem_cons_of_mem _ hmem))
        (fun hmem => hc (List.mem_cons_of_mem _ hmem)) hrest
      exact ⟨rfl, hbd⟩

/-- The table never changes an answer, however often it is emptied. -/
theorem Engine.remembered_eq (hqueries : ∀ query ∈ queries, unit ' ' ∉ query.1) :
    E.remembered rules queries = queries.map (E.scan rules) := by
  refine Table.outputs_lookUp (P := fun query => unit ' ' ∉ query.1) ?_ ?_ hqueries
  · intro i j hi hj hkey
    obtain ⟨hurl, hhost⟩ := cacheKey_inj hi hj hkey
    rw [Prod.ext hurl hhost]
  · intro i _ b hb
    cases hb

theorem Engine.quietUnder_of_forall (h : E.Loaded rules g) {url host : JsString}
    (hrules : ∀ text ∈ rules, text ≠ js "#this" ∧ E.isWellFormed text = true ∧
      E.raises text url host = false) (kind : Bool) (keyword : JsString) :
    E.QuietUnder (g.defaultMatcher.ofKind kind) url host keyword := by
  intro entry hentry
  cases entry with
  | filter text => exact (hrules text (h.mem_of_entry hentry (List.mem_singleton_self _))).2.2
  | array first second rest =>
    intro before text after hlist _
    apply hrules
    apply h.mem_of_entry hentry
    rw [Entry.texts, hlist]
    exact List.mem_append_right _ List.mem_cons_self

/-- Well-formed rules none of which raises an exception for the address answer the query. -/
theorem Engine.quiet_of_forall (h : E.Loaded rules g) (hrules : ∀ text ∈ rules,
    text ≠ js "#this" ∧ E.isWellFormed text = true ∧ E.raises text query.1 query.2 = false) :
    E.Quiet g query := by
  intro _
  have hunder := quietUnder_of_forall h hrules
  generalize E.keywordsOf query.1 = list
  generalize false = found
  induction list generalizing found with
  | nil => trivial
  | cons keyword list ih =>
    refine ⟨hunder true keyword, ?_⟩
    intro _
    exact ⟨fun _ => hunder false keyword, ih _⟩

theorem Engine.along_of_loaded {P : PacGlobals → JsString × JsString → Prop}
    (h : E.Loaded rules g) (hP : ∀ g, E.Loaded rules g → ∀ query ∈ queries, P g query) :
    Along (next E.ask) P g queries := by
  have hnone : ∀ query ∈ ([] : List (JsString × JsString)), query ∈ queries :=
    fun _ h => absurd h List.not_mem_nil
  refine along_of_forall (I := fun _ g => E.Loaded rules g) (Q := (· ∈ queries)) ?_ ?_ h hnone
    fun _ h => h
  · intro done g query g' hloaded hnext
    obtain ⟨answer, hask⟩ := next_eq_ok.mp hnext
    exact hloaded.ask hask
  · intro done g query hloaded _ hquery
    exact hP g hloaded query hquery

/-- The answers are those of a scan when every query can be answered in the state that it meets. -/
theorem Engine.agrees_of_answerable (hE : E.Lawful)
    (hrules : ∀ rule ∈ rules, E.isWellFormed rule = true)
    (hqueries : ∀ query ∈ queries, unit ' ' ∉ query.1)
    (hanswerable : ∀ g, E.load rules = .ok g →
      Along (next E.ask) (E.Answerable rules) g queries) :
    E.Agrees rules queries := by
  obtain ⟨g, hload⟩ := load_of_isWellFormed hrules
  obtain ⟨hloaded, hcold⟩ := load_spec hload
  have hask : ∀ {g t query}, E.Caches rules g t → E.Answerable rules g query →
      ∃ g', E.ask g query = .ok ((t.lookUp maxCacheEntries
        (fun query => cacheKey query.1 query.2) (E.scan rules) query).1, g') ∧
        E.Caches rules g' (t.lookUp maxCacheEntries
          (fun query => cacheKey query.1 query.2) (E.scan rules) query).2 := by
    rintro g t query h ⟨hquiet, hhides⟩
    obtain ⟨⟨answer, g'⟩, hask⟩ := (ask_ok_iff h.loaded).mpr hquiet
    obtain ⟨hanswer, hnext⟩ := h.ask hE hhides hask
    exact ⟨g', by rw [hask, hanswer], hnext⟩
  obtain ⟨g', hanswers⟩ :=
    run_of_along hask (caches_of_cold hloaded hcold) (hanswerable g hload)
  refine ⟨g, g', hload, ?_⟩
  rw [← remembered_eq hqueries]
  exact hanswers

/-- Two addresses of one site, one of which a rule excepts. -/
theorem Engine.agrees_of_answerable_excepted :
    Engine.reference.Agrees [js "||a.com", js "@@||b.a.com"]
      [(js "http://a.com/", js "a.com"), (js "http://b.a.com/", js "b.a.com")] := by
  refine agrees_of_answerable lawful_reference (by decide +kernel) (by decide +kernel) ?_
  intro g hload
  refine along_of_loaded (load_spec hload).1 ?_
  intro g hloaded query hquery
  refine ⟨quiet_of_forall hloaded ?_, ?_⟩
  · revert query
    decide +kernel
  · have hline : ∀ text ∈ [js "||a.com", js "@@||b.a.com"], ∀ c ∈ text,
        isLineTerminator c = false := by decide +kernel
    exact fun text htext _ => Engine.reference.not_hides (hline text htext) _

/-- A rule whose list of domains names none takes the answer away. -/
theorem Engine.not_agrees_domains :
    (∀ rule ∈ [js "||a.com$domain=|"],
      Engine.reference.isWellFormed rule = true ∧ rule ≠ js "#this") ∧
      ¬ Engine.reference.Agrees [js "||a.com$domain=|"] [(js "http://a.com/", js "a.com")] := by
  refine ⟨by decide +kernel, ?_⟩
  rintro ⟨g, g', hload, hanswers⟩
  have hraises : ((Engine.reference.load [js "||a.com$domain=|"]).bind fun g =>
      Engine.reference.answers g [(js "http://a.com/", js "a.com")]).isOk = false := by
    decide +kernel
  rw [hload] at hraises
  change (Engine.reference.answers g _).isOk = false at hraises
  rw [hanswers] at hraises
  cases hraises

end Shadowsocks
