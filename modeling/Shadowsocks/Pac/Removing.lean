import Shadowsocks.Library.Filing
import Shadowsocks.Pac.Answering

/-!
The rest of what the matchers of `abp.js` offer: rules can be removed again, all of them can be
cleared, and it can be asked whether a rule is there. Whatever is asked of the matcher, its answers
are those of a scan of the rules that are there.
-/
namespace Shadowsocks

open Raising

/-- An array of filters; with one filter in it, the filter. -/
def Entry.ofList : List JsString → Option Entry
  | [] => none
  | [text] => some (.filter text)
  | first :: second :: rest => some (.array first second rest)

/-- What `remove` makes of an entry that is there. -/
def Entry.remove (knownFilters : Dict Filter) (text : JsString) : Entry → Except JsError (Option Entry)
  | .filter old =>
    match members knownFilters old with
    | some _ => .ok none
    -- Without a `length` it is taken for an array, and it has no `indexOf`.
    | none => .error .typeError
  | .array first second rest => .ok (Entry.ofList ((first :: second :: rest).erase text))

/-- `Matcher.remove` -/
def Matcher.remove (m : Matcher) (knownFilters : Dict Filter) (text : JsString) :
    Except JsError Matcher :=
  match m.keywordByFilter text with
  | none => .ok m
  | some keyword => do
    let entry ←
      match m.filterByKeyword keyword with
      | none => .error .typeError
      | some list => list.remove knownFilters text
    .ok
      { filterByKeyword := Function.update m.filterByKeyword keyword entry
        keywordByFilter := Function.update m.keywordByFilter text none }

def Matcher.hasFilter (m : Matcher) (text : JsString) : Bool := (m.keywordByFilter text).isSome

def Matcher.getKeywordForFilter (m : Matcher) (text : JsString) : Option JsString :=
  m.keywordByFilter text

namespace CombinedMatcher

def clear : CombinedMatcher :=
  { blacklist := Matcher.clear
    whitelist := Matcher.clear
    resultCache := createDict (Option JsString)
    cacheEntries := 0 }

variable (m : CombinedMatcher) (knownFilters : Dict Filter) (text : JsString)

def remove : Except JsError CombinedMatcher := do
  let m ←
    if (knownFilters text).any Filter.isWhitelist then do
      let whitelist ← m.whitelist.remove knownFilters text
      .ok { m with whitelist }
    else do
      let blacklist ← m.blacklist.remove knownFilters text
      .ok { m with blacklist }
  .ok (if 0 < m.cacheEntries then m.forget else m)

def hasFilter : Bool :=
  if (knownFilters text).any Filter.isWhitelist then m.whitelist.hasFilter text
  else m.blacklist.hasFilter text

def getKeywordForFilter : Option JsString :=
  if (knownFilters text).any Filter.isWhitelist then m.whitelist.getKeywordForFilter text
  else m.blacklist.getKeywordForFilter text

end CombinedMatcher

/-- `CombinedMatcher.isSlowFilter`: the empty keyword is as good as none. -/
def Engine.isSlowFilter (E : Engine) (m : CombinedMatcher) (knownFilters : Dict Filter)
    (text : JsString) : Bool :=
  let matcher := if (knownFilters text).any Filter.isWhitelist then m.whitelist else m.blacklist
  if matcher.hasFilter text then ((matcher.getKeywordForFilter text).getD []).isEmpty
  else (E.findKeyword matcher knownFilters text).isEmpty

/-- What can be asked of the default matcher; a filter is given by its text. -/
inductive Request
  | add (text : JsString)
  | remove (text : JsString)
  | clear
  | hasFilter (text : JsString)
  | findProxy (url host : JsString)

inductive Response
  | nothing
  | has (found : Bool)
  | proxy (answer : JsString)

def Engine.request (E : Engine) (g : PacGlobals) : Request → Except JsError (Response × PacGlobals)
  | .add text => do
    let g ← E.addRule g text
    .ok (.nothing, g)
  | .remove text => do
    let knownFilters := E.fromText g.knownFilters text
    let defaultMatcher ← g.defaultMatcher.remove knownFilters text
    .ok (.nothing, { knownFilters, defaultMatcher })
  | .clear => .ok (.nothing, { g with defaultMatcher := .clear })
  | .hasFilter text =>
    let knownFilters := E.fromText g.knownFilters text
    .ok (.has (g.defaultMatcher.hasFilter knownFilters text), { g with knownFilters })
  | .findProxy url host => do
    let (answer, g) ← E.findProxyForURL g url host
    .ok (.proxy answer, g)

/-- The same with a list of the rules that are there, and no index and no cache. -/
def Engine.plainly (E : Engine) (rules : List JsString) : Request → Response × List JsString
  | .add text => (.nothing, rules ++ [text])
  | .remove text => (.nothing, rules.filter fun other => other ≠ text)
  | .clear => (.nothing, [])
  | .hasFilter text => (.has (rules.any fun other => other = text), rules)
  | .findProxy url host => (.proxy (E.scan rules (url, host)), rules)

variable {E : Engine} {text k : JsString} {m m' : Matcher} {c : CombinedMatcher}
  {p q : JsString → Prop} {knownFilters : Dict Filter} {rules : List JsString} {g g' : PacGlobals}

/-- The matcher as texts that are filed under keywords. -/
def Matcher.index (m : Matcher) : Filing JsString JsString := ⟨m.under, m.keywordByFilter⟩

theorem Entry.elim_ofList (list : List JsString) : (Entry.ofList list).elim [] Entry.texts = list := by
  match list with
  | [] => rfl
  | [_] => rfl
  | _ :: _ :: _ => rfl

theorem Engine.index_addTo (h : E.addTo m knownFilters text = .ok m') :
    ((m.keywordByFilter text).isSome ∧ m' = m) ∨
      (m.keywordByFilter text = none ∧ ∃ keyword, E.IsKeyword text keyword ∧
        m'.index = m.index.add keyword text) := by
  rcases addTo_cases h with hsame | ⟨hnone, keyword, hkeyword, hkeywords, hunder⟩
  · exact Or.inl hsame
  · refine Or.inr ⟨hnone, keyword, hkeyword, ?_⟩
    have hlists : m'.under = Function.update m.under keyword (m.under keyword ++ [text]) := by
      funext k
      rw [hunder, Function.update_apply]
      split
      · next hk => rw [hk]
      · rfl
    simp only [Matcher.index, Filing.add, hlists, hkeywords]

theorem Matcher.entry_of_keyword (h : m.index.Filed) {keyword : JsString}
    (hkey : m.keywordByFilter text = some keyword) :
    ∃ entry, m.filterByKeyword keyword = some entry ∧ text ∈ entry.texts := by
  have hmem : text ∈ m.under keyword := (h.mem_under text keyword).mpr hkey
  rw [under] at hmem
  cases hentry : m.filterByKeyword keyword with
  | none =>
    rw [hentry] at hmem
    exact absurd hmem List.not_mem_nil
  | some entry =>
    rw [hentry] at hmem
    exact ⟨entry, rfl, hmem⟩

/-- A malformed rule that is alone under its keyword cannot be removed. -/
theorem Matcher.remove_ok_iff (h : m.index.Filed) :
    (∃ m', m.remove knownFilters text = .ok m') ↔
      ∀ keyword, m.keywordByFilter text = some keyword →
        m.filterByKeyword keyword = some (.filter text) → (members knownFilters text).isSome := by
  cases hkey : m.keywordByFilter text with
  | none =>
    simp only [remove, hkey]
    exact ⟨fun _ keyword hkeyword => (by cases hkeyword), fun _ => ⟨m, rfl⟩⟩
  | some keyword =>
    obtain ⟨entry, hentry, hmem⟩ := entry_of_keyword h hkey
    simp only [remove, hkey, hentry]
    cases entry with
    | filter old =>
      obtain rfl := List.mem_singleton.mp hmem
      cases hmembers : members knownFilters text with
      | none =>
        simp only [Entry.remove, hmembers]
        constructor
        · rintro ⟨m', hm'⟩
          cases hm'
        · intro hall
          have hsome := hall keyword rfl hentry
          rw [Option.isSome_none] at hsome
          cases hsome
      | some f =>
        simp only [Entry.remove, hmembers]
        exact ⟨fun _ _ _ _ => rfl, fun _ => ⟨_, rfl⟩⟩
    | array first second rest =>
      refine ⟨?_, fun _ => ⟨_, rfl⟩⟩
      intro _ keyword' hkeyword' hentry'
      cases hkeyword'
      rw [hentry] at hentry'
      cases hentry'

theorem Entry.texts_remove {entry : Entry} {entry' : Option Entry} (hmem : text ∈ entry.texts)
    (h : entry.remove knownFilters text = .ok entry') :
    entry'.elim [] Entry.texts = entry.texts.erase text := by
  cases entry with
  | filter old =>
    obtain rfl := List.mem_singleton.mp hmem
    rw [remove] at h
    split at h
    · cases h
      simp [texts]
    · cases h
  | array first second rest =>
    cases h
    exact elim_ofList _

theorem Matcher.index_remove (h : m.index.Filed) (hremove : m.remove knownFilters text = .ok m') :
    m'.index = m.index.remove text := by
  cases hkey : m.keywordByFilter text with
  | none =>
    simp only [remove, hkey] at hremove
    cases hremove
    simp only [Filing.remove, index, hkey]
  | some keyword =>
    obtain ⟨entry, hentry, hmem⟩ := entry_of_keyword h hkey
    simp only [remove, hkey, hentry] at hremove
    obtain ⟨entry', hentry', hremove⟩ := bind_eq_ok.mp hremove
    cases hremove
    have hlists : Matcher.under ⟨Function.update m.filterByKeyword keyword entry',
        Function.update m.keywordByFilter text none⟩ =
          Function.update m.under keyword ((m.under keyword).erase text) := by
      funext k
      simp only [under, Function.update_apply]
      split
      · rw [hentry, Option.elim_some, Entry.texts_remove hmem hentry']
      · rfl
    simp only [Filing.remove, index, hkey, hlists]

/-- The texts in a matcher are those of one kind, each is filed once, under one of its keywords. -/
structure Engine.Files (E : Engine) (p : JsString → Prop) (m : Matcher) : Prop where
  filed : m.index.Filed
  keyword : ∀ text k, m.keywordByFilter text = some k → E.IsKeyword text k
  mem_iff : ∀ text, (m.keywordByFilter text).isSome ↔ p text

namespace Engine.Files

theorem indexes (h : E.Files p m) : E.Indexes p m where
  mem_iff := h.mem_iff
  listed text k hkey := ⟨h.keyword text k hkey, (h.filed.mem_under text k).mpr hkey⟩
  sound text k hmem := by
    have hkey : m.keywordByFilter text = some k := (h.filed.mem_under text k).mp hmem
    rw [← h.mem_iff, hkey]
    rfl

theorem congr (h : E.Files p m) (hpq : ∀ text, p text ↔ q text) : E.Files q m :=
  ⟨h.filed, h.keyword, fun text => (h.mem_iff text).trans (hpq text)⟩

theorem clear : E.Files (fun _ => False) Matcher.clear where
  filed := Filing.filed_empty
  keyword _ _ h := by cases h
  mem_iff _ := ⟨fun h => (by cases h), False.elim⟩

theorem addTo (h : E.Files p m) (hadd : E.addTo m knownFilters text = .ok m') :
    E.Files (fun other => p other ∨ other = text) m' := by
  rcases index_addTo hadd with ⟨hknown, rfl⟩ | ⟨hnone, keyword, hkeyword, hindex⟩
  · apply h.congr
    intro other
    constructor
    · exact Or.inl
    · rintro (hp | rfl)
      · exact hp
      · exact (h.mem_iff other).mp hknown
  · have hkeys : m'.keywordByFilter = (m.index.add keyword text).keyOf := congrArg Filing.keyOf hindex
    refine ⟨?_, ?_, ?_⟩
    · rw [hindex]
      exact h.filed.add hnone keyword
    · intro other k hk
      rw [hkeys] at hk
      by_cases hother : other = text
      · subst hother
        rw [Filing.keyOf_add] at hk
        cases hk
        exact hkeyword
      · rw [Filing.keyOf_add_of_ne hother] at hk
        exact h.keyword other k hk
    · intro other
      rw [hkeys]
      by_cases hother : other = text
      · subst hother
        rw [Filing.keyOf_add]
        exact ⟨fun _ => Or.inr rfl, fun _ => rfl⟩
      · rw [Filing.keyOf_add_of_ne hother]
        exact (h.mem_iff other).trans ⟨Or.inl, fun hp => hp.resolve_right hother⟩

theorem remove (h : E.Files p m) (hremove : m.remove knownFilters text = .ok m') :
    E.Files (fun other => p other ∧ other ≠ text) m' := by
  have hindex := Matcher.index_remove h.filed hremove
  have hkeys : m'.keywordByFilter = (m.index.remove text).keyOf := congrArg Filing.keyOf hindex
  refine ⟨?_, ?_, ?_⟩
  · rw [hindex]
    exact h.filed.remove text
  · intro other k hk
    rw [hkeys] at hk
    by_cases hother : other = text
    · subst hother
      rw [Filing.keyOf_remove] at hk
      cases hk
    · rw [Filing.keyOf_remove_of_ne hother] at hk
      exact h.keyword other k hk
  · intro other
    rw [hkeys]
    by_cases hother : other = text
    · subst hother
      rw [Filing.keyOf_remove]
      exact ⟨fun hsome => (by cases hsome), fun hp => absurd rfl hp.2⟩
    · rw [Filing.keyOf_remove_of_ne hother]
      exact (h.mem_iff other).trans ⟨fun hp => ⟨hp, hother⟩, And.left⟩

end Engine.Files

namespace CombinedMatcher

variable {kind : Bool}

/-- What becomes of the cache when the rules change. -/
def refreshed (m : CombinedMatcher) : CombinedMatcher := if 0 < m.cacheEntries then m.forget else m

/-- Nothing is remembered without being counted. -/
def Counted (m : CombinedMatcher) : Prop :=
  m.cacheEntries = 0 → m.resultCache = createDict (Option JsString)

theorem ofKind_refreshed (c : CombinedMatcher) (kind : Bool) :
    c.refreshed.ofKind kind = c.ofKind kind := by
  rw [refreshed]
  split <;> cases kind <;> rfl

theorem Counted.refreshed (h : c.Counted) :
    c.refreshed.resultCache = createDict (Option JsString) ∧ c.refreshed.Counted := by
  rw [CombinedMatcher.refreshed]
  split
  · exact ⟨rfl, fun _ => rfl⟩
  · next hzero => exact ⟨h (Nat.eq_zero_of_not_pos hzero), h⟩

theorem counted_remember (c : CombinedMatcher) (key : JsString) (result : Option JsString) :
    (c.remember key result).Counted := by
  intro hzero
  rw [remember] at hzero
  exact absurd hzero (Nat.succ_ne_zero _)

theorem resultCache_remember (c : CombinedMatcher) (key : JsString) (result : Option JsString) :
    (c.remember key result).resultCache key = some result := Function.update_self ..

theorem resultCache_of_remember {key other : JsString} {result found : Option JsString}
    (hne : other ≠ key) (h : (c.remember key result).resultCache other = some found) :
    c.resultCache other = some found := by
  rw [remember] at h
  dsimp only at h
  rw [Function.update_of_ne hne] at h
  split at h
  · cases h
  · exact h

theorem Counted.withKind (h : c.Counted) (kind : Bool) (m : Matcher) :
    (c.withKind kind m).Counted := by
  rw [Counted, cacheEntries_withKind, resultCache_withKind]
  exact h

theorem remove_eq (hkind : (knownFilters text).any Filter.isWhitelist = kind) :
    c.remove knownFilters text =
      ((c.ofKind kind).remove knownFilters text).map fun m => (c.withKind kind m).refreshed := by
  subst hkind
  rw [remove, ofKind]
  cases (knownFilters text).any Filter.isWhitelist with
  | true =>
    simp only [if_true]
    cases c.whitelist.remove knownFilters text with
    | error e => rfl
    | ok m => rfl
  | false =>
    simp only [Bool.false_eq_true, if_false]
    cases c.blacklist.remove knownFilters text with
    | error e => rfl
    | ok m => rfl

end CombinedMatcher

theorem Engine.add_eq {kind : Bool} (hkind : (knownFilters text).any Filter.isWhitelist = kind) :
    E.add c knownFilters text =
      (E.addTo (c.ofKind kind) knownFilters text).map fun m => (c.withKind kind m).refreshed := by
  subst hkind
  rw [add, CombinedMatcher.ofKind]
  cases (knownFilters text).any Filter.isWhitelist with
  | true =>
    simp only [if_true]
    cases E.addTo c.whitelist knownFilters text with
    | error e => rfl
    | ok m => rfl
  | false =>
    simp only [Bool.false_eq_true, if_false]
    cases E.addTo c.blacklist knownFilters text with
    | error e => rfl
    | ok m => rfl

/-- The rules are those that are there, and what is remembered is still right. -/
structure Engine.Current (E : Engine) (rules : List JsString) (g : PacGlobals) : Prop where
  knows : E.Knows rules g.knownFilters
  files : ∀ kind, E.Files (fun text => text ∈ rules ∧ E.isWhitelist text = kind)
    (g.defaultMatcher.ofKind kind)
  cached : ∀ query, unit ' ' ∉ query.1 → ∀ result,
    g.defaultMatcher.resultCache (cacheKey query.1 query.2) = some result →
      E.answerOf result = E.scan rules query ∧ ∀ text, result = some text → text ∈ rules
  counted : g.defaultMatcher.Counted

namespace Engine.Current

theorem loaded (h : E.Current rules g) : E.Loaded rules g :=
  ⟨h.knows, fun kind => (h.files kind).indexes⟩

theorem new : E.Current [] PacGlobals.new where
  knows := loaded_new.knows
  files kind := by
    have hnew : CombinedMatcher.new.ofKind kind = Matcher.clear := by cases kind <;> rfl
    rw [PacGlobals.new, hnew]
    exact Files.clear.congr fun text => ⟨False.elim, fun h => absurd h.1 List.not_mem_nil⟩
  cached _ _ _ h := by cases h
  counted _ := rfl

/-- After a change of the rules of one kind. -/
theorem changed (h : E.Current rules g) {rules' : List JsString} {kind : Bool}
    (hknows : E.Knows rules' knownFilters)
    (hm : E.Files (fun text => text ∈ rules' ∧ E.isWhitelist text = kind) m)
    (hother : ∀ text, E.isWhitelist text ≠ kind → (text ∈ rules' ↔ text ∈ rules)) :
    E.Current rules' ⟨knownFilters, (g.defaultMatcher.withKind kind m).refreshed⟩ := by
  obtain ⟨hblank, hcounted⟩ := (h.counted.withKind kind m).refreshed
  refine ⟨hknows, ?_, ?_, hcounted⟩
  · intro kind'
    rw [CombinedMatcher.ofKind_refreshed]
    by_cases hkind : kind = kind'
    · subst hkind
      rw [CombinedMatcher.ofKind_withKind]
      exact hm
    · rw [CombinedMatcher.ofKind_withKind_of_ne hkind]
      apply (h.files kind').congr
      intro text
      apply and_congr_left
      intro hkind'
      exact (hother text fun heq => hkind (heq.symm.trans hkind')).symm
  · intro query _ result hresult
    rw [hblank] at hresult
    cases hresult

theorem isWhitelist_fromText (h : E.Current rules g) (text : JsString) :
    (E.fromText g.knownFilters text text).any Filter.isWhitelist = E.isWhitelist text :=
  (h.knows.fromText text).isWhitelist (List.mem_append_right _ (List.mem_singleton_self _))

theorem fromText (h : E.Current rules g) (text : JsString) :
    E.Current rules ⟨E.fromText g.knownFilters text, g.defaultMatcher⟩ :=
  ⟨(h.knows.fromText text).mono (List.subset_append_left ..), h.files, h.cached, h.counted⟩

theorem addRule_eq (h : E.Current rules g) (text : JsString) :
    E.addRule g text = (E.addTo (g.defaultMatcher.ofKind (E.isWhitelist text))
      (E.fromText g.knownFilters text) text).map fun m =>
        ⟨E.fromText g.knownFilters text,
          (g.defaultMatcher.withKind (E.isWhitelist text) m).refreshed⟩ := by
  rw [Engine.addRule, add_eq (h.isWhitelist_fromText text)]
  cases E.addTo _ _ _ with
  | error e => rfl
  | ok m => rfl

theorem addRule (h : E.Current rules g) (hadd : E.addRule g text = .ok g') :
    E.Current (rules ++ [text]) g' := by
  rw [h.addRule_eq] at hadd
  obtain ⟨m, hm, rfl⟩ := map_eq_ok.mp hadd
  apply h.changed (h.knows.fromText text)
  · exact ((h.files _).addTo hm).congr mem_concat_same
  · intro other hother
    rw [List.mem_append, List.mem_singleton]
    refine ⟨fun hmem => hmem.resolve_right ?_, Or.inl⟩
    rintro rfl
    exact hother rfl

theorem removed (h : E.Current rules g)
    (hremove : (g.defaultMatcher.ofKind (E.isWhitelist text)).remove
      (E.fromText g.knownFilters text) text = .ok m) :
    E.Current (rules.filter fun other => other ≠ text) ⟨E.fromText g.knownFilters text,
      (g.defaultMatcher.withKind (E.isWhitelist text) m).refreshed⟩ := by
  have hmem : ∀ other, other ∈ rules.filter (fun other => other ≠ text) ↔
      other ∈ rules ∧ other ≠ text := by
    intro other
    rw [List.mem_filter, decide_eq_true_eq]
  apply h.changed
  · apply (h.knows.fromText text).mono
    intro other hother
    exact List.mem_append_left _ ((hmem other).mp hother).1
  · apply ((h.files _).remove hremove).congr
    intro other
    rw [hmem]
    exact and_right_comm
  · intro other hother
    rw [hmem]
    refine ⟨And.left, fun hrule => ⟨hrule, ?_⟩⟩
    rintro rfl
    exact hother rfl

theorem cleared (h : E.Current rules g) : E.Current [] ⟨g.knownFilters, .clear⟩ where
  knows := h.knows.mono (List.nil_subset _)
  files kind := new.files kind
  cached _ _ _ h := by cases h
  counted _ := rfl

theorem hasFilter_eq (h : E.Current rules g) (text : JsString) :
    g.defaultMatcher.hasFilter (E.fromText g.knownFilters text) text =
      rules.any fun other => other = text := by
  have hiff := (h.files (E.isWhitelist text)).mem_iff text
  rw [CombinedMatcher.hasFilter, h.isWhitelist_fromText]
  rw [CombinedMatcher.ofKind, and_iff_left rfl] at hiff
  have hany : (rules.any fun other => other = text) = true ↔ text ∈ rules := by simp
  rw [Bool.eq_iff_iff, hany, ← hiff]
  cases E.isWhitelist text <;> rfl

end Engine.Current

/-- The rule is in one of the matchers. -/
def PacGlobals.Has (g : PacGlobals) (text : JsString) : Prop :=
  ∃ kind, ((g.defaultMatcher.ofKind kind).keywordByFilter text).isSome

/-- The request raises nothing, and no rule that matches the address of a query is under a word
that is none of the address. -/
def Engine.Allowed (E : Engine) (g : PacGlobals) : Request → Prop
  | .add text => E.Addable g text
  | .remove text =>
    let m := g.defaultMatcher.ofKind (E.isWhitelist text)
    ∀ keyword, m.keywordByFilter text = some keyword →
      m.filterByKeyword keyword = some (.filter text) → E.isWellFormed text = true
  | .clear => True
  | .hasFilter _ => True
  | .findProxy url host => unit ' ' ∉ url ∧ E.Quiet g (url, host) ∧
      ∀ text, g.Has text → E.hits text url host = true → ¬ E.Hides text url

namespace Engine.Current

theorem has_iff (h : E.Current rules g) : g.Has text ↔ text ∈ rules := by
  constructor
  · rintro ⟨kind, hsome⟩
    exact (((h.files kind).mem_iff text).mp hsome).1
  · intro hmem
    exact ⟨E.isWhitelist text, ((h.files _).mem_iff text).mpr ⟨hmem, rfl⟩⟩

theorem members_fromText (h : E.Current rules g) (text : JsString) :
    (members (E.fromText g.knownFilters text) text).isSome = E.isWellFormed text :=
  (h.knows.fromText text).members_isSome (List.mem_append_right _ (List.mem_singleton_self _))

theorem request_add (h : E.Current rules g) (hallowed : E.Allowed g (.add text)) :
    ∃ g', E.request g (.add text) = .ok (.nothing, g') ∧ E.Current (rules ++ [text]) g' := by
  obtain ⟨m, hm⟩ : ∃ m, E.addTo (g.defaultMatcher.ofKind (E.isWhitelist text))
      (E.fromText g.knownFilters text) text = .ok m := by
    rw [addTo_ok_iff]
    intro hnone old hentry
    have hold := h.loaded.mem_of_entry hentry (List.mem_singleton_self old)
    rw [(h.knows.fromText text).members_isSome (List.mem_append_left _ hold)]
    exact hallowed hnone old hentry
  have hadd : E.addRule g text = .ok ⟨E.fromText g.knownFilters text,
      (g.defaultMatcher.withKind (E.isWhitelist text) m).refreshed⟩ := by
    rw [h.addRule_eq, hm]
    rfl
  exact ⟨_, bind_eq_ok.mpr ⟨_, hadd, rfl⟩, h.addRule hadd⟩

theorem request_remove (h : E.Current rules g) (hallowed : E.Allowed g (.remove text)) :
    ∃ g', E.request g (.remove text) = .ok (.nothing, g') ∧
      E.Current (rules.filter fun other => other ≠ text) g' := by
  obtain ⟨m, hm⟩ : ∃ m, (g.defaultMatcher.ofKind (E.isWhitelist text)).remove
      (E.fromText g.knownFilters text) text = .ok m := by
    rw [Matcher.remove_ok_iff (h.files _).filed, h.members_fromText]
    exact hallowed
  refine ⟨_, ?_, h.removed hm⟩
  have hremove := CombinedMatcher.remove_eq (c := g.defaultMatcher) (h.isWhitelist_fromText text)
  rw [hm] at hremove
  exact bind_eq_ok.mpr ⟨_, hremove, rfl⟩

/-- What a query remembers is right, whether or not the cache is emptied before. -/
theorem remembered (h : E.Current rules g) (hknows : E.Knows rules knownFilters)
    (query : JsString × JsString) (hspace : unit ' ' ∉ query.1) {result : Option JsString}
    (hanswer : E.answerOf result = E.scan rules query)
    (hmem : ∀ text, result = some text → text ∈ rules) :
    E.Current rules ⟨knownFilters,
      g.defaultMatcher.remember (cacheKey query.1 query.2) result⟩ := by
  refine ⟨hknows, ?_, ?_, CombinedMatcher.counted_remember _ _ _⟩
  · intro kind
    rw [CombinedMatcher.ofKind_remember]
    exact h.files kind
  · intro other hother found hfound
    by_cases hkey : cacheKey other.1 other.2 = cacheKey query.1 query.2
    · obtain ⟨hurl, hhost⟩ := cacheKey_inj hother hspace hkey
      have hsame : other = query := Prod.ext hurl hhost
      subst hsame
      have hfound' := CombinedMatcher.resultCache_remember g.defaultMatcher
        (cacheKey other.1 other.2) result
      cases hfound'.symm.trans hfound
      exact ⟨hanswer, hmem⟩
    · exact h.cached other hother found (CombinedMatcher.resultCache_of_remember hkey hfound)

theorem request_findProxy (hE : E.Lawful) (h : E.Current rules g) {url host : JsString}
    (hallowed : E.Allowed g (.findProxy url host)) :
    ∃ g', E.request g (.findProxy url host) = .ok (.proxy (E.scan rules (url, host)), g') ∧
      E.Current rules g' := by
  obtain ⟨hspace, hquiet, hhides⟩ := hallowed
  have hmatches : ∃ result g', E.matchesAny g url host = .ok (result, g') ∧ E.Current rules g' ∧
      E.answerOf result = E.scan rules (url, host) ∧ ∀ text, result = some text → text ∈ rules := by
    cases hcache : g.defaultMatcher.resultCache (cacheKey url host) with
    | some result =>
      refine ⟨result, g, ?_, h, h.cached (url, host) hspace result hcache⟩
      rw [matchesAny, hcache]
    | none =>
      obtain ⟨⟨result, knownFilters⟩, hlook⟩ :=
        (matchesAnyInternal_ok_iff h.loaded url host).mpr (hquiet hcache)
      obtain ⟨hknows, hmem, hanswer⟩ := matchesAnyInternal_spec hE h.loaded
        (fun text hrule => hhides text (h.has_iff.mpr hrule)) hlook
      refine ⟨result, _, ?_, h.remembered hknows (url, host) hspace hanswer hmem,
        hanswer, hmem⟩
      rw [matchesAny, hcache]
      exact bind_eq_ok.mpr ⟨_, hlook, rfl⟩
  obtain ⟨result, g', hmatches, hcurrent, hanswer, hmem⟩ := hmatches
  have hfind : E.findProxyForURL g url host = .ok (E.scan rules (url, host), g') := by
    rw [← hanswer, ← hcurrent.loaded.answer_eq hmem]
    exact bind_eq_ok.mpr ⟨_, hmatches, rfl⟩
  exact ⟨g', bind_eq_ok.mpr ⟨_, hfind, rfl⟩, hcurrent⟩

/-- Every request that is allowed is answered as the plain list of rules answers it. -/
theorem request (hE : E.Lawful) (h : E.Current rules g) {r : Request} (hallowed : E.Allowed g r) :
    ∃ g', E.request g r = .ok ((E.plainly rules r).1, g') ∧
      E.Current (E.plainly rules r).2 g' := by
  cases r with
  | add text => exact h.request_add hallowed
  | remove text => exact h.request_remove hallowed
  | clear => exact ⟨_, rfl, h.cleared⟩
  | hasFilter text =>
    refine ⟨_, ?_, h.fromText text⟩
    rw [plainly, ← h.hasFilter_eq]
    rfl
  | findProxy url host => exact h.request_findProxy hE hallowed

end Engine.Current

theorem Engine.current_of_load (h : E.load rules = .ok g) : E.Current rules g :=
  foldlM_invariant (I := fun done g => E.Current done g) (fun h hadd => h.addRule hadd)
    Current.new h

/-- Whatever rules a script begins with, and however rules are added, removed and cleared between
its queries: index and cache are those of the rules that are there. -/
theorem Engine.requests_eq_plainly (hE : E.Lawful) (hload : E.load rules = .ok g)
    {requests : List Request} (hallowed : Along (next E.request) E.Allowed g requests) :
    ∃ g', run E.request g requests = .ok (outputs E.plainly rules requests, g') := by
  refine run_of_along (R := fun g rules => E.Current rules g) ?_ (current_of_load hload) hallowed
  intro g rules r h hallowed
  exact h.request hE hallowed

/-- The request adds only rules of the list, and its address, if it asks for one, is one for which
none of them raises anything. -/
def Engine.Tame (E : Engine) (pool : List JsString) : Request → Prop
  | .add text => text ∈ pool
  | .findProxy url host => unit ' ' ∉ url ∧ ∀ text ∈ pool, E.raises text url host = false
  | _ => True

theorem Engine.allowed_of_tame {pool : List JsString} {r : Request} (h : E.Current rules g)
    (hsub : rules ⊆ pool) (hpool : ∀ text ∈ pool, text ≠ js "#this" ∧ E.isWellFormed text = true ∧
      ∀ c ∈ text, isLineTerminator c = false) (hr : E.Tame pool r) : E.Allowed g r := by
  cases r with
  | add text =>
    intro _ old hentry
    exact (hpool old (hsub (h.loaded.mem_of_entry hentry (List.mem_singleton_self old)))).2.1
  | remove text =>
    intro keyword _ hentry
    have hmem := h.loaded.mem_of_entry hentry (List.mem_singleton_self text)
    exact (hpool text (hsub hmem)).2.1
  | clear => trivial
  | hasFilter text => trivial
  | findProxy url host =>
    refine ⟨hr.1, ?_, ?_⟩
    · apply quiet_of_forall h.loaded
      intro text hmem
      obtain ⟨hthis, hwell, -⟩ := hpool text (hsub hmem)
      exact ⟨hthis, hwell, hr.2 text (hsub hmem)⟩
    · intro text hhas _
      exact E.not_hides (hpool text (hsub (h.has_iff.mp hhas))).2.2 url

theorem Engine.plainly_subset {pool : List JsString} {r : Request} (hsub : rules ⊆ pool)
    (hr : E.Tame pool r) : (E.plainly rules r).2 ⊆ pool := by
  cases r with
  | add text =>
    intro other hother
    rcases List.mem_append.mp hother with hmem | hmem
    · exact hsub hmem
    · rw [List.mem_singleton.mp hmem]
      exact hr
  | remove text => exact fun other hother => hsub (List.mem_of_mem_filter hother)
  | clear => exact List.nil_subset pool
  | hasFilter text => exact hsub
  | findProxy url host => exact hsub

/-- With rules that are well formed and on one line each, whatever is asked is allowed. -/
theorem Engine.along_of_tame (hE : E.Lawful) (pool : List JsString) (h : E.Current rules g)
    (hsub : rules ⊆ pool) (hpool : ∀ text ∈ pool, text ≠ js "#this" ∧ E.isWellFormed text = true ∧
      ∀ c ∈ text, isLineTerminator c = false) {requests : List Request}
    (hrequests : ∀ r ∈ requests, E.Tame pool r) : Along (next E.request) E.Allowed g requests := by
  induction requests generalizing rules g with
  | nil => trivial
  | cons r requests ih =>
    rw [List.forall_mem_cons] at hrequests
    have hallowed := allowed_of_tame h hsub hpool hrequests.1
    refine ⟨hallowed, ?_⟩
    intro g' hnext
    obtain ⟨response, hnext⟩ := next_eq_ok.mp hnext
    obtain ⟨g₁, hrequest, hcurrent⟩ := h.request hE hallowed
    cases hrequest.symm.trans hnext
    exact ih hcurrent (plainly_subset hsub hrequests.1) hrequests.2

/-- An exception that is made after the site has been asked for, and taken back. -/
theorem Engine.requests_eq_plainly_excepted :
    let requests : List Request := [.findProxy (js "http://b.a.com/") (js "b.a.com"),
      .add (js "@@||b.a.com"), .findProxy (js "http://b.a.com/") (js "b.a.com"),
      .remove (js "@@||b.a.com"), .hasFilter (js "@@||b.a.com"),
      .findProxy (js "http://b.a.com/") (js "b.a.com")]
    ∃ g g', Engine.reference.load [js "||a.com"] = .ok g ∧
      run Engine.reference.request g requests =
        .ok (outputs Engine.reference.plainly [js "||a.com"] requests, g') := by
  intro requests
  have hwell : ∀ rule ∈ [js "||a.com"], Engine.reference.isWellFormed rule = true := by
    decide +kernel
  obtain ⟨g, hload⟩ := load_of_isWellFormed hwell
  have halong : Along (next Engine.reference.request) Engine.reference.Allowed g requests := by
    apply along_of_tame lawful_reference [js "||a.com", js "@@||b.a.com"] (current_of_load hload)
    · simp
    · decide +kernel
    · simp only [requests, List.forall_mem_cons, Tame]
      refine ⟨?_, ?_, ?_, trivial, trivial, ?_, fun _ h => absurd h List.not_mem_nil⟩ <;> decide +kernel
  obtain ⟨g', hrun⟩ := requests_eq_plainly lawful_reference hload halong
  exact ⟨g, g', hload, hrun⟩

end Shadowsocks
