import Shadowsocks.Pac.Removing

/-!
What `findKeyword` chooses. Of the words that a rule offers it takes one under which the fewest
rules stand, and of those a longest one.
-/
namespace Shadowsocks

open Raising

/-- How many filters there are under a keyword, as `findKeyword` counts them. -/
def Matcher.count (m : Matcher) (knownFilters : Dict Filter) (keyword : JsString) : Option Nat :=
  match m.filterByKeyword keyword with
  | some entry => entry.length knownFilters
  | none => some 0

variable {E : Engine} {text k : JsString} {m : Matcher} {knownFilters : Dict Filter}
  {rules : List JsString} {g g' : PacGlobals}

/-- Nothing that has been considered is better. -/
structure Choice.Best (choice : Choice) (m : Matcher) (knownFilters : Dict Filter)
    (seen : List JsString) : Prop where
  least : ∀ k ∈ seen, ∀ n, m.count knownFilters k = some n → n < 16777215 →
    choice.resultCount < n ∨ (choice.resultCount = n ∧ k.length ≤ choice.resultLength)
  chosen : choice = {} ∨ (choice.result ∈ seen ∧
    m.count knownFilters choice.result = some choice.resultCount ∧
    choice.resultLength = choice.result.length)

theorem Matcher.consider_of_none {choice : Choice} (h : m.count knownFilters k = none) :
    m.consider knownFilters choice k = choice := by
  cases hentry : m.filterByKeyword k with
  | none => simp [Matcher.count, hentry] at h
  | some entry =>
    have hlength : entry.length knownFilters = none := by simpa [Matcher.count, hentry] using h
    simp [Matcher.consider, hentry, hlength]

theorem Matcher.consider_of_some {choice : Choice} {count : Nat}
    (h : m.count knownFilters k = some count) :
    m.consider knownFilters choice k =
      if count < choice.resultCount ∨
        (count = choice.resultCount ∧ choice.resultLength < k.length) then ⟨k, count, k.length⟩
      else choice := by
  cases hentry : m.filterByKeyword k with
  | none =>
    have hcount : 0 = count := by simpa [Matcher.count, hentry] using h
    simp [Matcher.consider, hentry, hcount]
  | some entry =>
    have hlength : entry.length knownFilters = some count := by
      simpa [Matcher.count, hentry] using h
    simp [Matcher.consider, hentry, hlength]

theorem Choice.Best.consider {choice : Choice} {seen : List JsString}
    (h : choice.Best m knownFilters seen) (candidate : JsString) :
    (m.consider knownFilters choice candidate).Best m knownFilters (seen ++ [candidate]) := by
  have hkeep : ∀ other : Choice, other = choice →
      (∀ n, m.count knownFilters candidate = some n → n < 16777215 → other.resultCount < n ∨
        (other.resultCount = n ∧ candidate.length ≤ other.resultLength)) →
      other.Best m knownFilters (seen ++ [candidate]) := by
    rintro _ rfl hcandidate
    refine ⟨?_, h.chosen.imp_right fun hmem => ⟨List.mem_append_left _ hmem.1, hmem.2⟩⟩
    intro k hk n hn hlt
    rcases List.mem_append.mp hk with hk | hk
    · exact h.least k hk n hn hlt
    · rw [List.mem_singleton.mp hk] at hn ⊢
      exact hcandidate n hn hlt
  cases hcount : m.count knownFilters candidate with
  | none =>
    rw [Matcher.consider_of_none hcount]
    apply hkeep choice rfl
    intro n hn
    rw [hcount] at hn
    cases hn
  | some count =>
    rw [Matcher.consider_of_some hcount]
    split
    · next hbetter =>
      refine ⟨?_, Or.inr ⟨List.mem_append_right _ (List.mem_singleton_self _), hcount, rfl⟩⟩
      intro k hk n hn hlt
      rcases List.mem_append.mp hk with hk | hk
      · have hold := h.least k hk n hn hlt
        dsimp only
        omega
      · rw [List.mem_singleton.mp hk, hcount] at hn
        cases hn
        rw [List.mem_singleton.mp hk]
        exact Or.inr ⟨rfl, Nat.le_refl _⟩
    · next hworse =>
      apply hkeep choice rfl
      intro n hn _
      rw [hcount] at hn
      cases hn
      omega

theorem Choice.Best.foldl {choice : Choice} {seen : List JsString}
    (h : choice.Best m knownFilters seen) (list : List JsString) :
    (list.foldl (m.consider knownFilters) choice).Best m knownFilters (seen ++ list) := by
  induction list generalizing choice seen with
  | nil =>
    rw [List.append_nil]
    exact h
  | cons candidate list ih =>
    rw [List.append_cons]
    exact ih (h.consider candidate)

/-- The keywords that `findKeyword` considers. -/
def Engine.offered (E : Engine) (text : JsString) : List JsString :=
  if regexpRegExp text then [] else candidates (E.toLowerCase (keywordText text))

theorem Engine.best_offered (E : Engine) (m : Matcher) (knownFilters : Dict Filter)
    (text : JsString) : ((E.offered text).foldl (m.consider knownFilters) {}).Best m knownFilters
      (E.offered text) := by
  have hstart : Choice.Best {} m knownFilters [] :=
    ⟨fun _ hk => absurd hk List.not_mem_nil, Or.inl rfl⟩
  exact hstart.foldl (E.offered text)

theorem Engine.findKeyword_eq (E : Engine) (m : Matcher) (knownFilters : Dict Filter)
    (text : JsString) : E.findKeyword m knownFilters text =
      ((E.offered text).foldl (m.consider knownFilters) {}).result := by
  rw [findKeyword, offered]
  split <;> rfl

/-- Where every word that is offered has fewer than the largest number of rules. -/
theorem Engine.findKeyword_least {f : JsString → Nat}
    (hcount : ∀ k ∈ E.offered text, m.count knownFilters k = some (f k) ∧ f k < 16777215)
    (hoffered : E.offered text ≠ []) :
    E.findKeyword m knownFilters text ∈ E.offered text ∧ ∀ k ∈ E.offered text,
      f (E.findKeyword m knownFilters text) < f k ∨
        (f (E.findKeyword m knownFilters text) = f k ∧
          k.length ≤ (E.findKeyword m knownFilters text).length) := by
  have hbest := E.best_offered m knownFilters text
  rw [findKeyword_eq]
  generalize (E.offered text).foldl (m.consider knownFilters) {} = choice at hbest
  have hmem : choice.result ∈ E.offered text ∧
      m.count knownFilters choice.result = some choice.resultCount ∧
      choice.resultLength = choice.result.length := by
    rcases hbest.chosen with rfl | hchosen
    · -- Nothing has been chosen, although the first word would have been better.
      obtain ⟨k, hk⟩ := List.exists_mem_of_ne_nil _ hoffered
      obtain ⟨hk', hlt⟩ := hcount k hk
      have hleast := hbest.least k hk (f k) hk' hlt
      dsimp only at hleast
      omega
    · exact hchosen
  obtain ⟨hmem, hchosen, hlength⟩ := hmem
  refine ⟨hmem, ?_⟩
  intro k hk
  obtain ⟨hk', hlt⟩ := hcount k hk
  have hsame := Option.some.inj (hchosen.symm.trans (hcount _ hmem).1)
  rw [← hsame, ← hlength]
  exact hbest.least k hk (f k) hk' hlt

/-- Among well-formed rules the count is that of the rules under the keyword. -/
theorem Engine.Current.count_eq (h : E.Current rules g)
    (hwell : ∀ rule ∈ rules, E.isWellFormed rule = true) (kind : Bool) (k text : JsString) :
    (g.defaultMatcher.ofKind kind).count (E.fromText g.knownFilters text) k =
      some ((g.defaultMatcher.ofKind kind).under k).length := by
  rw [Matcher.count, Matcher.under]
  cases hentry : (g.defaultMatcher.ofKind kind).filterByKeyword k with
  | none => rfl
  | some entry =>
    cases entry with
    | filter old =>
      have hold := h.loaded.mem_of_entry hentry (List.mem_singleton_self old)
      have hsome := (h.knows.fromText text).members_isSome (List.mem_append_left _ hold)
      rw [hwell old hold] at hsome
      obtain ⟨f, hf⟩ := Option.isSome_iff_exists.mp hsome
      dsimp only
      rw [Entry.length, hf]
      rfl
    | array first second rest => rfl

theorem Engine.Current.length_under (h : E.Current rules g) (kind : Bool) (k : JsString) :
    ((g.defaultMatcher.ofKind kind).under k).length ≤ rules.length := by
  have hsub : (g.defaultMatcher.ofKind kind).under k ⊆ rules := h.loaded.under_subset kind k
  exact (List.subperm_of_subset ((h.files kind).filed.nodup k) hsub).length_le

/-- The rules that are there after the requests. -/
def Engine.rulesAfter (E : Engine) (rules : List JsString) (requests : List Request) :
    List JsString :=
  requests.foldl (fun rules r => (E.plainly rules r).2) rules

theorem Engine.Current.requests (hE : E.Lawful) (h : E.Current rules g) {requests : List Request}
    (hallowed : Along (next E.request) E.Allowed g requests) {responses : List Response}
    (hrun : run E.request g requests = .ok (responses, g')) :
    E.Current (E.rulesAfter rules requests) g' := by
  induction requests generalizing rules g responses with
  | nil =>
    cases hrun
    exact h
  | cons r requests ih =>
    obtain ⟨b, g₁, rest, hrequest, hrest, rfl⟩ := run_cons.mp hrun
    obtain ⟨g₂, hrequest', hcurrent⟩ := h.request hE hallowed.1
    cases hrequest.symm.trans hrequest'
    exact ih hcurrent (hallowed.2 g₁ (next_eq_ok.mpr ⟨_, hrequest⟩)) hrest

theorem Engine.offered_ne_nil {k : JsString} (hk : k ∈ E.offered text) : k ≠ [] := by
  rw [offered] at hk
  split at hk
  · exact absurd hk List.not_mem_nil
  · have hlength := (mem_candidatesFrom hk).1
    rintro rfl
    exact absurd hlength (by decide)

theorem Engine.keyword_addTo {m' : Matcher} (hnew : m.keywordByFilter text = none)
    (hadd : E.addTo m knownFilters text = .ok m') :
    m'.keywordByFilter text = some (E.findKeyword m knownFilters text) := by
  simp only [addTo, hnew] at hadd
  split at hadd
  · cases hadd
    exact Function.update_self ..
  · obtain ⟨entry, -, hadd⟩ := bind_eq_ok.mp hadd
    cases hadd
    exact Function.update_self ..

theorem CombinedMatcher.getKeywordForFilter_eq {c : CombinedMatcher} {kind : Bool}
    (hkind : (knownFilters text).any Filter.isWhitelist = kind) :
    c.getKeywordForFilter knownFilters text = (c.ofKind kind).keywordByFilter text := by
  rw [getKeywordForFilter, hkind]
  cases kind <;> rfl

theorem Engine.isSlowFilter_eq {c : CombinedMatcher} {kind : Bool}
    (hkind : (knownFilters text).any Filter.isWhitelist = kind)
    (hkey : (c.ofKind kind).keywordByFilter text = some k) :
    E.isSlowFilter c knownFilters text = k.isEmpty := by
  rw [isSlowFilter, hkind]
  change (if (c.ofKind kind).hasFilter text then _ else _) = _
  cases kind with
  | true =>
    change c.whitelist.keywordByFilter text = some k at hkey
    simp [CombinedMatcher.ofKind, Matcher.hasFilter, Matcher.getKeywordForFilter, hkey]
  | false =>
    change c.blacklist.keywordByFilter text = some k at hkey
    simp [CombinedMatcher.ofKind, Matcher.hasFilter, Matcher.getKeywordForFilter, hkey]

/-- In whatever state the requests have left the matchers, a rule that is new to them goes under
that of its words under which the fewest rules of its kind stand, and of those under a longest one;
it is slow only when it has no word. -/
theorem Engine.filed_least (hE : E.Lawful) (hload : E.load rules = .ok g) {requests : List Request}
    (hallowed : Along (next E.request) E.Allowed g requests) {responses : List Response}
    (hrun : run E.request g requests = .ok (responses, g'))
    (hwell : ∀ rule ∈ E.rulesAfter rules requests, E.isWellFormed rule = true)
    (hmany : (E.rulesAfter rules requests).length < 16777215)
    (hnew : text ∉ E.rulesAfter rules requests) :
    ∃ g'' k, E.addRule g' text = .ok g'' ∧
      g''.defaultMatcher.getKeywordForFilter g''.knownFilters text = some k ∧
      (E.isSlowFilter g''.defaultMatcher g''.knownFilters text ↔ E.offered text = []) ∧
      (E.offered text ≠ [] → k ∈ E.offered text ∧ ∀ k' ∈ E.offered text,
        let stands k := ((g'.defaultMatcher.ofKind (E.isWhitelist text)).under k).length
        stands k < stands k' ∨ (stands k = stands k' ∧ k'.length ≤ k.length)) := by
  have h := (current_of_load hload).requests hE hallowed hrun
  generalize E.rulesAfter rules requests = there at h hwell hmany hnew
  generalize hkind : E.isWhitelist text = kind
  have hnone : (g'.defaultMatcher.ofKind kind).keywordByFilter text = none := by
    by_contra hsome
    exact hnew (((h.files kind).mem_iff text).mp (Option.isSome_iff_ne_none.mpr hsome)).1
  have hallowed : E.Allowed g' (.add text) := fun _ old hentry =>
    hwell old (h.loaded.mem_of_entry hentry (List.mem_singleton_self old))
  obtain ⟨g'', hrequest, -⟩ := h.request_add hallowed
  obtain ⟨g₁, hadd, hrequest⟩ := bind_eq_ok.mp hrequest
  cases hrequest
  have hadd' := hadd
  rw [h.addRule_eq, hkind] at hadd'
  obtain ⟨m, hm, rfl⟩ := map_eq_ok.mp hadd'
  have hknown := h.isWhitelist_fromText text
  rw [hkind] at hknown
  have hkey := keyword_addTo hnone hm
  have hkey' : (((g'.defaultMatcher.withKind kind m).refreshed).ofKind kind).keywordByFilter text =
      some (E.findKeyword (g'.defaultMatcher.ofKind kind)
        (E.fromText g'.knownFilters text) text) := by
    rw [CombinedMatcher.ofKind_refreshed, CombinedMatcher.ofKind_withKind]
    exact hkey
  have hcount : ∀ k ∈ E.offered text, (g'.defaultMatcher.ofKind kind).count
      (E.fromText g'.knownFilters text) k =
        some ((g'.defaultMatcher.ofKind kind).under k).length ∧
          ((g'.defaultMatcher.ofKind kind).under k).length < 16777215 := by
    intro k _
    exact ⟨h.count_eq hwell kind k text, Nat.lt_of_le_of_lt (h.length_under kind k) hmany⟩
  refine ⟨_, E.findKeyword (g'.defaultMatcher.ofKind kind) (E.fromText g'.knownFilters text) text,
    hadd, ?_, ?_, ?_⟩
  · rw [CombinedMatcher.getKeywordForFilter_eq hknown]
    exact hkey'
  · rw [isSlowFilter_eq hknown hkey', List.isEmpty_iff]
    constructor
    · intro hempty
      by_contra hoffered
      exact offered_ne_nil (findKeyword_least hcount hoffered).1 hempty
    · intro hoffered
      rw [findKeyword_eq, hoffered]
      rfl
  · exact findKeyword_least hcount

/-- A rule stands under the longer word when the new one comes. -/
theorem Engine.filed_least_words :
    let text := js "||foo.example.com"
    let requests : List Request := [.add (js "||example.net"),
      .findProxy (js "http://a.example.net/") (js "a.example.net"),
      .remove (js "||foo.example.org"), .hasFilter (js "||foo.example.org")]
    ∃ g responses g' g'' k, Engine.reference.load [js "||foo.example.org"] = .ok g ∧
      run Engine.reference.request g requests = .ok (responses, g') ∧
      Engine.reference.addRule g' text = .ok g'' ∧
      g''.defaultMatcher.getKeywordForFilter g''.knownFilters text = some k ∧
      Engine.reference.isSlowFilter g''.defaultMatcher g''.knownFilters text = false ∧
      k ∈ Engine.reference.offered text ∧ ∀ k' ∈ Engine.reference.offered text,
        let stands k := ((g'.defaultMatcher.ofKind false).under k).length
        stands k < stands k' ∨ (stands k = stands k' ∧ k'.length ≤ k.length) := by
  intro text requests
  have hwell : ∀ rule ∈ [js "||foo.example.org"], Engine.reference.isWellFormed rule = true := by
    decide +kernel
  obtain ⟨g, hload⟩ := load_of_isWellFormed hwell
  have halong : Along (next Engine.reference.request) Engine.reference.Allowed g requests := by
    apply along_of_tame lawful_reference [js "||foo.example.org", js "||example.net"]
      (current_of_load hload)
    · simp
    · decide +kernel
    · simp only [requests, List.forall_mem_cons, Tame]
      refine ⟨?_, ?_, trivial, trivial, fun _ h => absurd h List.not_mem_nil⟩ <;> decide +kernel
  obtain ⟨g', hrun⟩ := requests_eq_plainly lawful_reference hload halong
  have hoffered : Engine.reference.offered text ≠ [] := by
    decide +kernel
  have hthere : Engine.reference.rulesAfter [js "||foo.example.org"] requests =
      [js "||example.net"] := by
    decide +kernel
  have hnew : text ∉ Engine.reference.rulesAfter [js "||foo.example.org"] requests := by
    rw [hthere]
    decide +kernel
  obtain ⟨g'', k, hadd, hkey, hslow, hleast⟩ := filed_least lawful_reference hload halong hrun
    (by rw [hthere]; decide +kernel) (by rw [hthere]; decide) hnew
  have hkind : Engine.reference.isWhitelist text = false := by
    decide +kernel
  obtain ⟨hmem, hleast⟩ := hleast hoffered
  rw [hkind] at hleast
  refine ⟨g, _, g', g'', k, hload, hrun, hadd, hkey, ?_, hmem, hleast⟩
  exact Bool.eq_false_iff.mpr fun h => hoffered (hslow.mp h)

end Shadowsocks
