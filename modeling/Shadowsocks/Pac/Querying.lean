import Shadowsocks.Pac.Loading

/-!
A query against the index. What it finds is what a scan of all rules finds, as long as no filter
that it asks raises an exception.
-/
namespace Shadowsocks

open Raising

/-- Looking through an entry raises nothing up to the first filter that matches. -/
def Engine.QuietEntry (E : Engine) (url host : JsString) : Entry → Prop
  | .filter text => E.raises text url host = false
  | .array first second rest =>
    ∀ before text after, first :: second :: rest = before ++ text :: after →
      (∀ other ∈ before, E.hits other url host = false) →
        text ≠ js "#this" ∧ E.isWellFormed text = true ∧ E.raises text url host = false

/-- Looking up a keyword raises nothing. -/
def Engine.QuietUnder (E : Engine) (m : Matcher) (url host keyword : JsString) : Prop :=
  ∀ entry, m.filterByKeyword keyword = some entry → E.QuietEntry url host entry

/-- The first rule under a keyword that matches. -/
def Engine.hitUnder (E : Engine) (m : Matcher) (url host keyword : JsString) : Option JsString :=
  (m.under keyword).find? fun text => E.hits text url host

/-- Looking up the keywords in turn raises nothing, up to the first rule of the whitelist that
matches; `found` when a rule of the blacklist has been found. -/
def Engine.QuietAlong (E : Engine) (m : CombinedMatcher) (url host : JsString) :
    Bool → List JsString → Prop
  | _, [] => True
  | found, keyword :: list =>
    E.QuietUnder m.whitelist url host keyword ∧
      (E.hitUnder m.whitelist url host keyword = none →
        (found = false → E.QuietUnder m.blacklist url host keyword) ∧
        E.QuietAlong m url host
          (found || (E.hitUnder m.blacklist url host keyword).isSome) list)

/-- The query is answered from the cache, or without an exception. -/
def Engine.Quiet (E : Engine) (g : PacGlobals) (query : JsString × JsString) : Prop :=
  g.defaultMatcher.resultCache (cacheKey query.1 query.2) = none →
    E.QuietAlong g.defaultMatcher query.1 query.2 false (E.keywordsOf query.1)

/-- What a scan of all rules answers. -/
def Engine.scan (E : Engine) (rules : List JsString) (query : JsString × JsString) : JsString :=
  if (∃ text ∈ rules, E.isBlocking text ∧ E.hits text query.1 query.2) ∧
      ∀ text ∈ rules, E.isWhitelist text → ¬ E.hits text query.1 query.2 then
    proxy
  else direct

/-- What `FindProxyForURL` returns for the text of the filter that has been found. -/
def Engine.answerOf (E : Engine) (result : Option JsString) : JsString :=
  if result.any E.isBlocking then proxy else direct

variable {E : Engine} {text url host keyword : JsString} {m : Matcher} {c : CombinedMatcher}
  {knownFilters knownFilters' : Dict Filter} {rules list : List JsString} {entry : Entry}
  {g : PacGlobals}

theorem Engine.hits_of_malformed (h : E.isWellFormed text = false) :
    E.hits text url host = false := by
  rw [isWellFormed] at h
  rw [hits, Option.isNone_iff_eq_none.mp (Option.isSome_eq_false_iff.mp h)]

theorem Engine.raises_of_malformed (h : E.isWellFormed text = false) :
    E.raises text url host = false := by
  rw [isWellFormed] at h
  rw [raises, Option.isNone_iff_eq_none.mp (Option.isSome_eq_false_iff.mp h)]

theorem Engine.checkFilters_ok_iff (h : E.Knows rules knownFilters) (hsub : list ⊆ rules) :
    (∃ r, E.checkFilters url host knownFilters list = .ok r) ↔
      ∀ before text after, list = before ++ text :: after →
        (∀ other ∈ before, E.hits other url host = false) →
          text ≠ js "#this" ∧ E.isWellFormed text = true ∧ E.raises text url host = false := by
  induction list generalizing knownFilters with
  | nil =>
    refine ⟨?_, fun _ => ⟨_, rfl⟩⟩
    intro _ before text after hlist
    exact absurd hlist (by simp)
  | cons text list ih =>
    rw [List.cons_subset] at hsub
    rw [checkFilters]
    by_cases hthis : text = js "#this"
    · rw [if_pos hthis]
      constructor
      · rintro ⟨r, hr⟩
        cases hr
      · intro hall
        have hfirst := hall [] text list rfl (fun _ h => absurd h List.not_mem_nil)
        exact absurd hthis hfirst.1
    · rw [if_neg hthis]
      constructor
      · rintro ⟨r, hr⟩ before other after hlist hbefore
        obtain ⟨⟨hit, kf⟩, hask, hr⟩ := bind_eq_ok.mp hr
        have hok := (matchesFilter_ok_iff h hsub.1).mp ⟨_, hask⟩
        obtain ⟨hhit, hknows⟩ := matchesFilter_spec h hsub.1 hask
        cases before with
        | nil =>
          cases hlist
          exact ⟨hthis, hok⟩
        | cons first before =>
          cases hlist
          rw [List.forall_mem_cons] at hbefore
          rw [hhit, hbefore.1] at hr
          exact (ih hknows hsub.2).mp ⟨r, hr⟩ before other after rfl hbefore.2
      · intro hall
        have hfirst := hall [] text list rfl (fun _ h => absurd h List.not_mem_nil)
        obtain ⟨⟨hit, kf⟩, hask⟩ := (matchesFilter_ok_iff h hsub.1).mpr hfirst.2
        obtain ⟨hhit, hknows⟩ := matchesFilter_spec h hsub.1 hask
        rw [hask]
        cases hit with
        | true => exact ⟨_, rfl⟩
        | false =>
          refine (ih hknows hsub.2).mpr ?_
          intro before other after hlist hbefore
          apply hall (text :: before) other after (by rw [hlist, List.cons_append])
          exact List.forall_mem_cons.mpr ⟨hhit.symm, hbefore⟩

theorem Engine.checkFilters_spec (h : E.Knows rules knownFilters) (hsub : list ⊆ rules)
    {r : Option JsString}
    (hr : E.checkFilters url host knownFilters list = .ok (r, knownFilters')) :
    r = list.find? (fun text => E.hits text url host) ∧ E.Knows rules knownFilters' := by
  induction list generalizing knownFilters with
  | nil =>
    cases hr
    exact ⟨rfl, h⟩
  | cons text list ih =>
    rw [List.cons_subset] at hsub
    rw [checkFilters] at hr
    split at hr
    · cases hr
    · obtain ⟨⟨hit, kf⟩, hask, hr⟩ := bind_eq_ok.mp hr
      obtain ⟨hhit, hknows⟩ := matchesFilter_spec h hsub.1 hask
      cases hit with
      | true =>
        cases hr
        rw [List.find?_cons_of_pos (p := fun text => E.hits text url host) hhit.symm]
        exact ⟨rfl, hknows⟩
      | false =>
        rw [List.find?_cons_of_neg (p := fun text => E.hits text url host)
          (by rw [← hhit]; exact Bool.false_ne_true)]
        exact ih hknows hsub.2 hr

/-- A malformed filter that is alone is not asked. -/
theorem Engine.checkEntryMatch_ok_iff (h : E.Knows rules knownFilters)
    (hsub : entry.texts ⊆ rules) :
    (∃ r, E.checkEntryMatch knownFilters url host entry = .ok r) ↔ E.QuietEntry url host entry := by
  cases entry with
  | filter text =>
    have hmem : text ∈ rules := hsub (List.mem_singleton_self _)
    have hwell := h.members_isSome hmem
    rw [checkEntryMatch, QuietEntry]
    cases hmembers : members knownFilters text with
    | none =>
      rw [hmembers] at hwell
      exact ⟨fun _ => raises_of_malformed hwell.symm, fun _ => ⟨_, rfl⟩⟩
    | some f =>
      rw [hmembers] at hwell
      constructor
      · rintro ⟨r, hr⟩
        obtain ⟨r', hask, -⟩ := bind_eq_ok.mp hr
        exact ((matchesFilter_ok_iff h hmem).mp ⟨r', hask⟩).2
      · intro hquiet
        obtain ⟨r, hask⟩ := (matchesFilter_ok_iff h hmem).mpr ⟨hwell.symm, hquiet⟩
        exact ⟨_, bind_eq_ok.mpr ⟨r, hask, rfl⟩⟩
  | array first second rest => exact checkFilters_ok_iff h hsub

theorem Engine.checkEntryMatch_spec (h : E.Knows rules knownFilters) (hsub : entry.texts ⊆ rules)
    {r : Option JsString}
    (hr : E.checkEntryMatch knownFilters url host entry = .ok (r, knownFilters')) :
    r = entry.texts.find? (fun text => E.hits text url host) ∧ E.Knows rules knownFilters' := by
  cases entry with
  | filter text =>
    have hmem : text ∈ rules := hsub (List.mem_singleton_self _)
    have hwell := h.members_isSome hmem
    rw [checkEntryMatch] at hr
    rw [Entry.texts, List.find?_singleton]
    cases hmembers : members knownFilters text with
    | none =>
      rw [hmembers] at hwell hr
      cases hr
      rw [hits_of_malformed hwell.symm]
      exact ⟨rfl, h⟩
    | some f =>
      rw [hmembers] at hr
      obtain ⟨⟨hit, kf⟩, hask, hr⟩ := bind_eq_ok.mp hr
      cases hr
      obtain ⟨hhit, hknows⟩ := matchesFilter_spec h hmem hask
      rw [hhit]
      exact ⟨rfl, hknows⟩
  | array first second rest => exact checkFilters_spec h hsub hr

theorem Engine.checkKeyword_ok_iff (h : E.Knows rules knownFilters)
    (hsub : m.under keyword ⊆ rules) :
    (∃ r, E.checkKeyword m knownFilters url host keyword = .ok r) ↔
      E.QuietUnder m url host keyword := by
  rw [checkKeyword, QuietUnder]
  rw [Matcher.under] at hsub
  cases hentry : m.filterByKeyword keyword with
  | none => exact ⟨fun _ _ h => (by cases h), fun _ => ⟨_, rfl⟩⟩
  | some entry =>
    rw [hentry] at hsub
    dsimp only
    rw [checkEntryMatch_ok_iff h hsub]
    constructor
    · intro hquiet other hother
      cases hother
      exact hquiet
    · exact fun hquiet => hquiet entry rfl

theorem Engine.checkKeyword_spec (h : E.Knows rules knownFilters) (hsub : m.under keyword ⊆ rules)
    {r : Option JsString}
    (hr : E.checkKeyword m knownFilters url host keyword = .ok (r, knownFilters')) :
    r = E.hitUnder m url host keyword ∧ E.Knows rules knownFilters' := by
  rw [checkKeyword] at hr
  rw [hitUnder, Matcher.under]
  rw [Matcher.under] at hsub
  cases hentry : m.filterByKeyword keyword with
  | none =>
    rw [hentry] at hr
    cases hr
    exact ⟨rfl, h⟩
  | some entry =>
    rw [hentry] at hr hsub
    exact checkEntryMatch_spec h hsub hr

theorem Engine.checkKeywords_ok_iff (h : E.Knows rules knownFilters)
    (hsub : ∀ kind k, (c.ofKind kind).under k ⊆ rules) (found : Option JsString) :
    (∃ r, E.checkKeywords c url host knownFilters found list = .ok r) ↔
      E.QuietAlong c url host found.isSome list := by
  have hwhite := hsub true
  have hblack := hsub false
  change ∀ k, c.whitelist.under k ⊆ rules at hwhite
  change ∀ k, c.blacklist.under k ⊆ rules at hblack
  induction list generalizing knownFilters found with
  | nil => exact ⟨fun _ => trivial, fun _ => ⟨_, rfl⟩⟩
  | cons keyword list ih =>
    rw [checkKeywords, QuietAlong]
    constructor
    · rintro ⟨r, hr⟩
      obtain ⟨⟨result, kf⟩, hlook, hr⟩ := bind_eq_ok.mp hr
      refine ⟨(checkKeyword_ok_iff h (hwhite keyword)).mp ⟨_, hlook⟩, ?_⟩
      obtain ⟨hresult, hknows⟩ := checkKeyword_spec h (hwhite keyword) hlook
      intro hnone
      rw [hresult, hnone] at hr
      cases found with
      | some t => exact ⟨nofun, (ih hknows _).mp ⟨r, hr⟩⟩
      | none =>
        obtain ⟨⟨result', kf'⟩, hlook', hr⟩ := bind_eq_ok.mp hr
        obtain ⟨rfl, hknows'⟩ := checkKeyword_spec hknows (hblack keyword) hlook'
        refine ⟨fun _ => (checkKeyword_ok_iff hknows (hblack keyword)).mp ⟨_, hlook'⟩, ?_⟩
        exact (ih hknows' _).mp ⟨r, hr⟩
    · rintro ⟨hquiet, hrest⟩
      obtain ⟨⟨result, kf⟩, hlook⟩ := (checkKeyword_ok_iff h (hwhite keyword)).mpr hquiet
      obtain ⟨rfl, hknows⟩ := checkKeyword_spec h (hwhite keyword) hlook
      rw [hlook]
      cases hresult : E.hitUnder c.whitelist url host keyword with
      | some t => exact ⟨_, rfl⟩
      | none =>
        obtain ⟨hquiet', hrest⟩ := hrest hresult
        cases found with
        | some t => exact (ih hknows _).mpr hrest
        | none =>
          obtain ⟨⟨result', kf'⟩, hlook'⟩ :=
            (checkKeyword_ok_iff hknows (hblack keyword)).mpr (hquiet' rfl)
          obtain ⟨rfl, hknows'⟩ := checkKeyword_spec hknows (hblack keyword) hlook'
          obtain ⟨r, hr⟩ := (ih hknows' _).mpr hrest
          refine ⟨r, ?_⟩
          change (E.checkKeyword c.blacklist kf url host keyword >>= _) = _
          exact bind_eq_ok.mpr ⟨_, hlook', hr⟩

theorem Engine.checkKeywords_spec (h : E.Knows rules knownFilters)
    (hsub : ∀ kind k, (c.ofKind kind).under k ⊆ rules) {found r : Option JsString}
    (hr : E.checkKeywords c url host knownFilters found list = .ok (r, knownFilters')) :
    r = ((list.flatMap c.whitelist.under).find? fun text => E.hits text url host).or
        (found.or ((list.flatMap c.blacklist.under).find? fun text => E.hits text url host)) ∧
      E.Knows rules knownFilters' := by
  have hwhite := hsub true
  have hblack := hsub false
  change ∀ k, c.whitelist.under k ⊆ rules at hwhite
  change ∀ k, c.blacklist.under k ⊆ rules at hblack
  induction list generalizing knownFilters found with
  | nil =>
    cases hr
    refine ⟨?_, h⟩
    cases r <;> rfl
  | cons keyword list ih =>
    rw [checkKeywords] at hr
    rw [List.flatMap_cons, List.flatMap_cons, List.find?_append, List.find?_append]
    obtain ⟨⟨result, kf⟩, hlook, hr⟩ := bind_eq_ok.mp hr
    obtain ⟨rfl, hknows⟩ := checkKeyword_spec h (hwhite keyword) hlook
    rw [← hitUnder, ← hitUnder]
    cases hresult : E.hitUnder c.whitelist url host keyword with
    | some t =>
      rw [hresult] at hr
      cases hr
      exact ⟨rfl, hknows⟩
    | none =>
      rw [hresult] at hr
      rw [Option.none_or]
      cases found with
      | some t => exact ih hknows hr
      | none =>
        obtain ⟨⟨result', kf'⟩, hlook', hr⟩ := bind_eq_ok.mp hr
        obtain ⟨rfl, hknows'⟩ := checkKeyword_spec hknows (hblack keyword) hlook'
        rw [Option.none_or]
        exact ih hknows' hr

theorem Engine.Loaded.under_subset (h : E.Loaded rules g) (kind : Bool) (k : JsString) :
    (g.defaultMatcher.ofKind kind).under k ⊆ rules :=
  fun text hmem => ((h.indexes kind).sound text k hmem).1

theorem Engine.isBlocking_of_hits (h : E.hits text url host = true) :
    E.isBlocking text = !E.isWhitelist text := by
  rw [isBlocking, isWhitelist, Filter.isBlocking, Filter.isWhitelist]
  cases hactive : (E.newFilter text).active with
  | none =>
    rw [hits, hactive] at h
    cases h
  | some f => exact (Bool.not_not _).symm

/-- Of the rules of a kind, none that matches is missed. -/
theorem Engine.Loaded.find_eq_none_iff (hE : E.Lawful) (h : E.Loaded rules g)
    (hhides : ∀ text ∈ rules, E.hits text url host = true → ¬ E.Hides text url) (kind : Bool) :
    (((E.keywordsOf url).flatMap (g.defaultMatcher.ofKind kind).under).find?
        fun text => E.hits text url host) = none ↔
      ∀ text ∈ rules, E.isWhitelist text = kind → E.hits text url host = false := by
  rw [List.find?_eq_none]
  constructor
  · intro hnone text hmem hkind
    by_contra hhits
    have hhits := Bool.eq_true_of_not_eq_false hhits
    have hindex := h.indexes kind
    obtain ⟨k, hk⟩ := Option.isSome_iff_exists.mp ((hindex.mem_iff text).mpr ⟨hmem, hkind⟩)
    obtain ⟨hiskey, hunder⟩ := hindex.listed text k hk
    have hkeyword := mem_keywordsOf hE hhits (hhides text hmem hhits) hiskey
    exact hnone text (List.mem_flatMap.mpr ⟨k, hkeyword, hunder⟩) hhits
  · intro hall text hmem
    obtain ⟨k, -, hunder⟩ := List.mem_flatMap.mp hmem
    obtain ⟨hrule, hkind⟩ := (h.indexes kind).sound text k hunder
    rw [hall text hrule hkind]
    exact Bool.false_ne_true

theorem Engine.Loaded.find_eq_some (h : E.Loaded rules g) {kind : Bool}
    (hfind : (((E.keywordsOf url).flatMap (g.defaultMatcher.ofKind kind).under).find?
      fun text => E.hits text url host) = some text) :
    text ∈ rules ∧ E.isWhitelist text = kind ∧ E.hits text url host = true := by
  have hhits := List.find?_some hfind
  obtain ⟨k, -, hunder⟩ := List.mem_flatMap.mp (List.mem_of_find?_eq_some hfind)
  obtain ⟨hrule, hkind⟩ := (h.indexes kind).sound text k hunder
  exact ⟨hrule, hkind, hhits⟩

theorem Engine.matchesAnyInternal_ok_iff (h : E.Loaded rules g) (url host : JsString) :
    (∃ r, E.matchesAnyInternal g url host = .ok r) ↔
      E.QuietAlong g.defaultMatcher url host false (E.keywordsOf url) :=
  checkKeywords_ok_iff h.knows h.under_subset none

/-- The index answers as a scan of all rules does. -/
theorem Engine.matchesAnyInternal_spec (hE : E.Lawful) (h : E.Loaded rules g)
    (hhides : ∀ text ∈ rules, E.hits text url host = true → ¬ E.Hides text url)
    {r : Option JsString} (hr : E.matchesAnyInternal g url host = .ok (r, knownFilters')) :
    E.Knows rules knownFilters' ∧ (∀ text, r = some text → text ∈ rules) ∧
      E.answerOf r = E.scan rules (url, host) := by
  obtain ⟨hresult, hknows⟩ := checkKeywords_spec h.knows h.under_subset hr
  refine ⟨hknows, ?_⟩
  rw [Option.none_or] at hresult
  have hwhite := h.find_eq_none_iff hE hhides true
  have hblack := h.find_eq_none_iff hE hhides false
  change r = (List.find? _ ((E.keywordsOf url).flatMap (g.defaultMatcher.ofKind true).under)).or
    (List.find? _ ((E.keywordsOf url).flatMap (g.defaultMatcher.ofKind false).under)) at hresult
  have hmem : ∀ text, r = some text → text ∈ rules := by
    rintro text rfl
    rcases Option.or_eq_some_iff.mp hresult.symm with hfind | ⟨-, hfind⟩
    · exact (h.find_eq_some hfind).1
    · exact (h.find_eq_some hfind).1
  refine ⟨hmem, if_congr ?_ rfl rfl⟩
  rw [hresult]
  cases hfind : List.find? (fun text => E.hits text url host)
      ((E.keywordsOf url).flatMap (g.defaultMatcher.ofKind true).under) with
  | some text =>
    obtain ⟨hrule, hkind, hhits⟩ := h.find_eq_some hfind
    rw [Option.some_or, Option.any_some, isBlocking_of_hits hhits, hkind]
    exact ⟨nofun, fun hscan => absurd hhits (hscan.2 text hrule hkind)⟩
  | none =>
    have hno := hwhite.mp hfind
    rw [Option.none_or]
    constructor
    · intro hany
      obtain ⟨text, hfind', hblocking⟩ := (Option.any_eq_true _ _).mp hany
      obtain ⟨hrule, -, hhits⟩ := h.find_eq_some hfind'
      refine ⟨⟨text, hrule, hblocking, hhits⟩, ?_⟩
      intro other hother hkind hhits'
      rw [hno other hother hkind] at hhits'
      cases hhits'
    · rintro ⟨⟨text, hrule, hblocking, hhits⟩, -⟩
      have hkind : E.isWhitelist text = false := by
        rw [isBlocking_of_hits hhits] at hblocking
        exact (Bool.not_eq_true' _).mp hblocking
      cases hfind' : List.find? (fun text => E.hits text url host)
          ((E.keywordsOf url).flatMap (g.defaultMatcher.ofKind false).under) with
      | none =>
        rw [hblack.mp hfind' text hrule hkind] at hhits
        cases hhits
      | some other =>
        obtain ⟨-, hkind', hhits'⟩ := h.find_eq_some hfind'
        rw [Option.any_some, isBlocking_of_hits hhits', hkind']
        rfl

end Shadowsocks
