import Shadowsocks.Pac.Indexing

/-!
Loading the rules. Every rule that the loop has added stands under one of its keywords, in the
matcher for its kind.
-/
namespace Shadowsocks

open Raising

/-- The texts of the filters of an entry. -/
def Entry.texts : Entry → List JsString
  | .filter text => [text]
  | .array first second rest => first :: second :: rest

/-- The texts that stand under a keyword. -/
def Matcher.under (m : Matcher) (keyword : JsString) : List JsString :=
  (m.filterByKeyword keyword).elim [] Entry.texts

def Engine.isWhitelist (E : Engine) (text : JsString) : Bool := (E.newFilter text).isWhitelist

def Engine.isBlocking (E : Engine) (text : JsString) : Bool := (E.newFilter text).isBlocking

/-- The texts in a matcher are those of one kind, and each is under one of its keywords. -/
structure Engine.Indexes (E : Engine) (p : JsString → Prop) (m : Matcher) : Prop where
  mem_iff : ∀ text, (m.keywordByFilter text).isSome ↔ p text
  listed : ∀ text k, m.keywordByFilter text = some k → E.IsKeyword text k ∧ text ∈ m.under k
  sound : ∀ text k, text ∈ m.under k → p text

def CombinedMatcher.ofKind (m : CombinedMatcher) (isWhitelist : Bool) : Matcher :=
  if isWhitelist then m.whitelist else m.blacklist

def CombinedMatcher.withKind (m : CombinedMatcher) (isWhitelist : Bool) (new : Matcher) :
    CombinedMatcher :=
  if isWhitelist then { m with whitelist := new } else { m with blacklist := new }

/-- No malformed rule is alone under the keyword of the rule that is to be added. -/
def Engine.Addable (E : Engine) (g : PacGlobals) (rule : JsString) : Prop :=
  let m := g.defaultMatcher.ofKind (E.isWhitelist rule)
  m.keywordByFilter rule = none →
    ∀ old, m.filterByKeyword (E.findKeyword m (E.fromText g.knownFilters rule) rule) =
      some (.filter old) → E.isWellFormed old = true

/-- The rules have been added. -/
structure Engine.Loaded (E : Engine) (rules : List JsString) (g : PacGlobals) : Prop where
  knows : E.Knows rules g.knownFilters
  indexes : ∀ kind, E.Indexes (fun text => text ∈ rules ∧ E.isWhitelist text = kind)
    (g.defaultMatcher.ofKind kind)

/-- No result has been remembered. -/
def PacGlobals.Cold (g : PacGlobals) : Prop :=
  g.defaultMatcher.resultCache = createDict (Option JsString) ∧ g.defaultMatcher.cacheEntries = 0

variable {E : Engine} {text k : JsString} {m m' : Matcher} {p q : JsString → Prop}
  {knownFilters : Dict Filter} {rules : List JsString} {g g' : PacGlobals} {rule : JsString}

theorem Entry.texts_add {entry entry' : Entry} (h : entry.add knownFilters text = .ok entry') :
    entry'.texts = entry.texts ++ [text] := by
  cases entry with
  | filter old =>
    rw [add] at h
    split at h
    · cases h
      rfl
    · cases h
  | array first second rest =>
    cases h
    rfl

theorem Engine.addTo_cases (h : E.addTo m knownFilters text = .ok m') :
    ((m.keywordByFilter text).isSome ∧ m' = m) ∨
      (m.keywordByFilter text = none ∧ ∃ keyword, E.IsKeyword text keyword ∧
        m'.keywordByFilter = Function.update m.keywordByFilter text (some keyword) ∧
        ∀ k, m'.under k = if k = keyword then m.under k ++ [text] else m.under k) := by
  rw [addTo] at h
  cases hknown : m.keywordByFilter text with
  | some k =>
    rw [hknown] at h
    cases h
    exact Or.inl ⟨rfl, rfl⟩
  | none =>
    rw [hknown] at h
    have hkeyword := E.isKeyword_findKeyword m knownFilters text
    dsimp only at h
    generalize E.findKeyword m knownFilters text = keyword at h hkeyword
    obtain ⟨entry, htexts, rfl⟩ : ∃ entry : Entry, entry.texts = m.under keyword ++ [text] ∧
        m' = ⟨Function.update m.filterByKeyword keyword (some entry),
          Function.update m.keywordByFilter text (some keyword)⟩ := by
      rw [Matcher.under]
      cases hold : m.filterByKeyword keyword with
      | none =>
        rw [hold] at h
        cases h
        exact ⟨_, rfl, rfl⟩
      | some oldEntry =>
        rw [hold] at h
        obtain ⟨entry, hentry, h⟩ := bind_eq_ok.mp h
        cases h
        exact ⟨entry, Entry.texts_add hentry, rfl⟩
    refine Or.inr ⟨rfl, keyword, hkeyword, rfl, ?_⟩
    intro k
    by_cases hk : k = keyword
    · rw [if_pos hk, hk, ← htexts, Matcher.under]
      dsimp only
      rw [Function.update_self, Option.elim_some]
    · rw [if_neg hk, Matcher.under, Matcher.under]
      dsimp only
      rw [Function.update_of_ne hk]

theorem Engine.addTo_ok_iff : (∃ m', E.addTo m knownFilters text = .ok m') ↔
    (m.keywordByFilter text = none →
      ∀ old, m.filterByKeyword (E.findKeyword m knownFilters text) = some (.filter old) →
        (members knownFilters old).isSome) := by
  rw [addTo]
  cases m.keywordByFilter text with
  | some k => exact ⟨fun _ h => (by cases h), fun _ => ⟨m, rfl⟩⟩
  | none =>
    dsimp only
    generalize E.findKeyword m knownFilters text = keyword
    rcases hentry : m.filterByKeyword keyword with _ | old | ⟨first, second, rest⟩
    · exact ⟨fun _ _ old h => (by cases h), fun _ => ⟨_, rfl⟩⟩
    · dsimp only
      rw [Entry.add]
      cases hmembers : members knownFilters old with
      | none =>
        constructor
        · rintro ⟨m', hm'⟩
          cases hm'
        · intro h
          have hsome := h rfl old rfl
          rw [hmembers] at hsome
          cases hsome
      | some f =>
        refine ⟨?_, fun _ => ⟨_, rfl⟩⟩
        intro _ _ old' hold'
        cases hold'
        rw [hmembers]
        rfl
    · exact ⟨fun _ _ old h => (by cases h), fun _ => ⟨_, rfl⟩⟩

theorem Engine.Indexes.congr (h : E.Indexes p m) (hpq : ∀ text, p text ↔ q text) :
    E.Indexes q m where
  mem_iff text := (h.mem_iff text).trans (hpq text)
  listed := h.listed
  sound text k hmem := (hpq text).mp (h.sound text k hmem)

/-- What is under a keyword stays there, when an entry becomes an array, too. -/
theorem Engine.Indexes.addTo (h : E.Indexes p m) (hadd : E.addTo m knownFilters text = .ok m') :
    E.Indexes (fun other => p other ∨ other = text) m' := by
  rcases addTo_cases hadd with ⟨hknown, rfl⟩ | ⟨hknown, keyword, hkeyword, hkeywords, hunder⟩
  · refine h.congr ?_
    intro other
    constructor
    · exact Or.inl
    · rintro (hp | rfl)
      · exact hp
      · exact (h.mem_iff other).mp hknown
  · refine ⟨?_, ?_, ?_⟩
    · intro other
      rw [hkeywords]
      by_cases hother : other = text
      · subst hother
        rw [Function.update_self]
        exact ⟨fun _ => Or.inr rfl, fun _ => rfl⟩
      · rw [Function.update_of_ne hother, h.mem_iff]
        exact ⟨Or.inl, fun hp => hp.resolve_right hother⟩
    · intro other k hk
      rw [hkeywords] at hk
      by_cases hother : other = text
      · subst hother
        rw [Function.update_self] at hk
        cases hk
        refine ⟨hkeyword, ?_⟩
        rw [hunder, if_pos rfl]
        exact List.mem_append_right _ (List.mem_singleton_self _)
      · rw [Function.update_of_ne hother] at hk
        obtain ⟨hiskey, hmem⟩ := h.listed other k hk
        refine ⟨hiskey, ?_⟩
        rw [hunder]
        split
        · exact List.mem_append_left _ hmem
        · exact hmem
    · intro other k hmem
      rw [hunder] at hmem
      split at hmem
      · rcases List.mem_append.mp hmem with hmem | hmem
        · exact Or.inl (h.sound other k hmem)
        · exact Or.inr (List.mem_singleton.mp hmem)
      · exact Or.inl (h.sound other k hmem)

theorem Engine.indexes_clear : E.Indexes (fun _ => False) Matcher.clear where
  mem_iff _ := ⟨fun h => (by cases h), fun h => h.elim⟩
  listed _ _ h := by cases h
  sound _ _ h := by cases h

/-- What a filter has worked out does not change its kind. -/
theorem Engine.Knows.any (h : E.Knows rules knownFilters) (hmem : text ∈ rules)
    {kind : RegExpFilter → Bool} (hkind : ∀ f f', f.Alike E f' → kind f' = kind f) :
    (knownFilters text).any (fun filter => filter.active.any kind) =
      (E.newFilter text).active.any kind := by
  obtain ⟨filter, hfilter⟩ := Option.isSome_iff_exists.mp (h.known text hmem)
  have hrel := h.alike text filter hfilter
  rw [hfilter, Option.any_some]
  generalize (E.newFilter text).active = a, filter.active = b at hrel
  cases hrel with
  | none => rfl
  | some halike => exact hkind _ _ halike

theorem Engine.Knows.isWhitelist (h : E.Knows rules knownFilters) (hmem : text ∈ rules) :
    (knownFilters text).any Filter.isWhitelist = E.isWhitelist text :=
  h.any hmem fun _ _ halike => congrArg not halike.blocking

theorem Engine.Knows.isBlocking (h : E.Knows rules knownFilters) (hmem : text ∈ rules) :
    (knownFilters text).any Filter.isBlocking = E.isBlocking text :=
  h.any hmem fun _ _ halike => halike.blocking

theorem Engine.mem_concat_same (text : JsString) :
    (text ∈ rules ∧ E.isWhitelist text = E.isWhitelist rule ∨ text = rule) ↔
      text ∈ rules ++ [rule] ∧ E.isWhitelist text = E.isWhitelist rule := by
  rw [List.mem_append, List.mem_singleton]
  constructor
  · rintro (⟨hmem, hkind⟩ | rfl)
    · exact ⟨Or.inl hmem, hkind⟩
    · exact ⟨Or.inr rfl, rfl⟩
  · rintro ⟨hmem | rfl, hkind⟩
    · exact Or.inl ⟨hmem, hkind⟩
    · exact Or.inr rfl

theorem Engine.mem_concat_other {kind : Bool} (hkind : E.isWhitelist rule ≠ kind)
    (text : JsString) :
    (text ∈ rules ∧ E.isWhitelist text = kind) ↔
      text ∈ rules ++ [rule] ∧ E.isWhitelist text = kind := by
  rw [List.mem_append, List.mem_singleton]
  constructor
  · rintro ⟨hmem, htext⟩
    exact ⟨Or.inl hmem, htext⟩
  · rintro ⟨hmem | rfl, htext⟩
    · exact ⟨hmem, htext⟩
    · exact absurd htext hkind

namespace CombinedMatcher

variable {c : CombinedMatcher} {kind other : Bool}

@[simp] theorem ofKind_withKind : (c.withKind kind m).ofKind kind = m := by
  cases kind <;> rfl

theorem ofKind_withKind_of_ne (h : other ≠ kind) :
    (c.withKind other m).ofKind kind = c.ofKind kind := by
  cases other <;> cases kind <;> first | rfl | exact absurd rfl h

@[simp] theorem resultCache_withKind : (c.withKind kind m).resultCache = c.resultCache := by
  cases kind <;> rfl

@[simp] theorem cacheEntries_withKind : (c.withKind kind m).cacheEntries = c.cacheEntries := by
  cases kind <;> rfl

end CombinedMatcher

/-- The matcher for its kind decides whether a rule is added. -/
theorem Engine.addRule_eq (h : E.Loaded rules g) (hcold : g.Cold) (rule : JsString) :
    E.addRule g rule = (E.addTo (g.defaultMatcher.ofKind (E.isWhitelist rule))
      (E.fromText g.knownFilters rule) rule).map fun m =>
        ⟨E.fromText g.knownFilters rule, g.defaultMatcher.withKind (E.isWhitelist rule) m⟩ := by
  have hmem : rule ∈ rules ++ [rule] := List.mem_append_right _ (List.mem_singleton_self _)
  have hentries : ¬ 0 < g.defaultMatcher.cacheEntries := by
    rw [hcold.2]
    exact Nat.lt_irrefl 0
  rw [addRule, add, (h.knows.fromText rule).isWhitelist hmem]
  generalize E.fromText g.knownFilters rule = knownFilters
  cases E.isWhitelist rule with
  | true =>
    change (E.addTo g.defaultMatcher.whitelist knownFilters rule >>= _) >>= _ = _
    rw [CombinedMatcher.ofKind, if_pos rfl]
    cases E.addTo g.defaultMatcher.whitelist knownFilters rule with
    | error e => rfl
    | ok m =>
      change Except.ok (PacGlobals.mk _ (if 0 < g.defaultMatcher.cacheEntries then _ else _)) = _
      rw [if_neg hentries]
      rfl
  | false =>
    change (E.addTo g.defaultMatcher.blacklist knownFilters rule >>= _) >>= _ = _
    rw [CombinedMatcher.ofKind, if_neg Bool.false_ne_true]
    cases E.addTo g.defaultMatcher.blacklist knownFilters rule with
    | error e => rfl
    | ok m =>
      change Except.ok (PacGlobals.mk _ (if 0 < g.defaultMatcher.cacheEntries then _ else _)) = _
      rw [if_neg hentries]
      rfl

theorem Engine.Loaded.mem_of_entry (h : E.Loaded rules g) {kind : Bool} {entry : Entry}
    (hentry : (g.defaultMatcher.ofKind kind).filterByKeyword k = some entry)
    (hmem : text ∈ entry.texts) : text ∈ rules := by
  refine ((h.indexes kind).sound text k ?_).1
  rw [Matcher.under, hentry]
  exact hmem

theorem Engine.addRule_ok_iff (h : E.Loaded rules g) (hcold : g.Cold) (rule : JsString) :
    (∃ g', E.addRule g rule = .ok g') ↔ E.Addable g rule := by
  have hmap : (∃ g', E.addRule g rule = .ok g') ↔ ∃ m', E.addTo
      (g.defaultMatcher.ofKind (E.isWhitelist rule)) (E.fromText g.knownFilters rule) rule =
        .ok m' := by
    rw [addRule_eq h hcold]
    constructor
    · rintro ⟨g', hg'⟩
      obtain ⟨m', hm', -⟩ := map_eq_ok.mp hg'
      exact ⟨m', hm'⟩
    · rintro ⟨m', hm'⟩
      rw [hm']
      exact ⟨_, rfl⟩
  rw [hmap, addTo_ok_iff, Addable]
  generalize hkeyword : E.findKeyword _ _ _ = keyword
  refine forall_congr' fun _ => forall_congr' fun old => ?_
  refine imp_congr_right fun hentry => ?_
  have hold := h.mem_of_entry hentry (List.mem_singleton_self old)
  rw [(h.knows.fromText rule).members_isSome (List.mem_append_left _ hold)]

/-- Adding a rule that is there already changes nothing. -/
theorem Engine.Loaded.addRule (h : E.Loaded rules g) (hcold : g.Cold)
    (hadd : E.addRule g rule = .ok g') : E.Loaded (rules ++ [rule]) g' ∧ g'.Cold := by
  rw [addRule_eq h hcold] at hadd
  obtain ⟨m, hm, rfl⟩ := map_eq_ok.mp hadd
  have hindexes := (h.indexes _).addTo hm
  refine ⟨⟨h.knows.fromText rule, ?_⟩, ?_⟩
  · intro kind
    by_cases hkind : E.isWhitelist rule = kind
    · subst hkind
      rw [CombinedMatcher.ofKind_withKind]
      exact hindexes.congr mem_concat_same
    · rw [CombinedMatcher.ofKind_withKind_of_ne hkind]
      exact (h.indexes kind).congr (mem_concat_other hkind)
  · rw [PacGlobals.Cold, CombinedMatcher.resultCache_withKind,
      CombinedMatcher.cacheEntries_withKind]
    exact hcold

theorem Engine.loaded_new : E.Loaded [] PacGlobals.new where
  knows := ⟨nofun, fun _ _ h => by cases h⟩
  indexes kind := by
    have hnew : CombinedMatcher.new.ofKind kind = Matcher.clear := by cases kind <;> rfl
    rw [PacGlobals.new, hnew]
    exact indexes_clear.congr fun text => ⟨False.elim, fun h => absurd h.1 List.not_mem_nil⟩

/-- The loop raises nothing exactly when every rule can be added in the state that it meets. -/
theorem Engine.load_ok_iff (rules : List JsString) :
    (∃ g, E.load rules = .ok g) ↔ Along E.addRule E.Addable PacGlobals.new rules :=
  foldlM_ok_iff (I := fun done g => E.Loaded done g ∧ g.Cold)
    (fun h => addRule_ok_iff h.1 h.2 _) (fun h hadd => h.1.addRule h.2 hadd)
    ⟨loaded_new, rfl, rfl⟩ rules

theorem Engine.load_spec (h : E.load rules = .ok g) : E.Loaded rules g ∧ g.Cold :=
  foldlM_invariant (I := fun done g => E.Loaded done g ∧ g.Cold)
    (fun h hadd => h.1.addRule h.2 hadd) ⟨loaded_new, rfl, rfl⟩ h

/-- Rules that are all well formed are all added. -/
theorem Engine.load_of_isWellFormed (h : ∀ rule ∈ rules, E.isWellFormed rule = true) :
    ∃ g, E.load rules = .ok g := by
  rw [load_ok_iff]
  refine along_of_forall (I := fun done g => E.Loaded done g ∧ g.Cold)
    (fun h hadd => h.1.addRule h.2 hadd) ?_ ⟨loaded_new, rfl, rfl⟩
    (fun _ h => absurd h List.not_mem_nil) h
  intro done g rule hloaded hdone _ _ old hentry
  exact hdone old (hloaded.1.mem_of_entry hentry (List.mem_singleton_self old))

end Shadowsocks
