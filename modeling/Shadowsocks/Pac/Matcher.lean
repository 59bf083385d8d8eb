import Shadowsocks.Library.Raising
import Shadowsocks.Pac.Filter
import Shadowsocks.Pac.Keywords

/-! The matchers of `abp.js`, its loop over the rules, and `FindProxyForURL`. -/
namespace Shadowsocks

/-- What is found under a keyword. A filter is one object, and has one text. -/
inductive Entry where
  | filter (text : JsString)
  | array (first second : JsString) (rest : List JsString)
  deriving DecidableEq

structure Matcher where
  filterByKeyword : Dict Entry
  keywordByFilter : Dict JsString

structure CombinedMatcher where
  blacklist : Matcher
  whitelist : Matcher
  resultCache : Dict (Option JsString)
  cacheEntries : Nat

/-- The variables of the script. -/
structure PacGlobals where
  knownFilters : Dict Filter
  defaultMatcher : CombinedMatcher

/-- The two strings that `FindProxyForURL` returns. -/
def proxy : JsString := js "SOCKS5 127.0.0.1:1080; SOCKS 127.0.0.1:1080; DIRECT;"

def direct : JsString := js "DIRECT;"

/-- `createDict` -/
def createDict (α : Type) : Dict α := fun _ => none

def Matcher.clear : Matcher := ⟨createDict Entry, createDict JsString⟩

def maxCacheEntries : Nat := 1000

def CombinedMatcher.new : CombinedMatcher :=
  ⟨Matcher.clear, Matcher.clear, createDict (Option JsString), 0⟩

def CombinedMatcher.forget (m : CombinedMatcher) : CombinedMatcher :=
  { m with resultCache := createDict (Option JsString), cacheEntries := 0 }

def PacGlobals.new : PacGlobals := ⟨createDict Filter, CombinedMatcher.new⟩

/-- A filter that has the members of a `RegExpFilter`. -/
def Filter.active : Filter → Option RegExpFilter
  | .regexp f => some f
  | _ => none

/-- `instanceof BlockingFilter` -/
def Filter.isBlocking (filter : Filter) : Bool := filter.active.any fun f => f.blocking

/-- `instanceof WhitelistFilter` -/
def Filter.isWhitelist (filter : Filter) : Bool := filter.active.any fun f => !f.blocking

/-- The members of the filter with this text. -/
def members (knownFilters : Dict Filter) (text : JsString) : Option RegExpFilter :=
  (knownFilters text).bind Filter.active

/-- `Filter.fromText`: the filter of the text is known afterwards. -/
def Engine.fromText (E : Engine) (knownFilters : Dict Filter) (text : JsString) : Dict Filter :=
  match knownFilters text with
  | some _ => knownFilters
  | none => Function.update knownFilters text (some (E.newFilter text))

/-- The `length` of an entry; other filters have none. -/
def Entry.length (knownFilters : Dict Filter) : Entry → Option Nat
  | .filter text => (members knownFilters text).map fun _ => 1
  | .array _ _ rest => some (rest.length + 2)

/-- What `findKeyword` has chosen so far. -/
structure Choice where
  result : JsString := []
  resultCount : Nat := 16777215
  resultLength : Nat := 0

/-- One turn of the loop of `findKeyword`. -/
def Matcher.consider (m : Matcher) (knownFilters : Dict Filter) (choice : Choice)
    (candidate : JsString) : Choice :=
  let count :=
    match m.filterByKeyword candidate with
    | some entry => entry.length knownFilters
    | none => some 0
  match count with
  -- Nothing is less than `undefined`, or equal to it.
  | none => choice
  | some count =>
    if count < choice.resultCount ∨
        (count = choice.resultCount ∧ choice.resultLength < candidate.length) then
      ⟨candidate, count, candidate.length⟩
    else choice

/-- The part of a rule that `findKeyword` takes its candidates from. -/
def keywordText (text : JsString) : JsString :=
  withoutException <|
    match optionsRegExp text with
    | some (rest, _) => rest
    | none => text

def Engine.findKeyword (E : Engine) (m : Matcher) (knownFilters : Dict Filter)
    (text : JsString) : JsString :=
  if regexpRegExp text then []
  else
    ((candidates (E.toLowerCase (keywordText text))).foldl (m.consider knownFilters) {}).result

/-- What `add` makes of an entry that is there. -/
def Entry.add (knownFilters : Dict Filter) (text : JsString) : Entry → Except JsError Entry
  | .filter old =>
    match members knownFilters old with
    | some _ => .ok (.array old text [])
    -- Without a `length` it is taken for an array, and it has no `push`.
    | none => .error .typeError
  | .array first second rest => .ok (.array first second (rest ++ [text]))

/-- `Matcher.add` -/
def Engine.addTo (E : Engine) (m : Matcher) (knownFilters : Dict Filter) (text : JsString) :
    Except JsError Matcher :=
  match m.keywordByFilter text with
  | some _ => .ok m
  | none => do
    let keyword := E.findKeyword m knownFilters text
    let entry ←
      match m.filterByKeyword keyword with
      | none => .ok (.filter text)
      | some oldEntry => oldEntry.add knownFilters text
    .ok
      { filterByKeyword := Function.update m.filterByKeyword keyword (some entry)
        keywordByFilter := Function.update m.keywordByFilter text (some keyword) }

/-- `CombinedMatcher.add` -/
def Engine.add (E : Engine) (m : CombinedMatcher) (knownFilters : Dict Filter)
    (text : JsString) : Except JsError CombinedMatcher := do
  let m ←
    if (knownFilters text).any Filter.isWhitelist then do
      let whitelist ← E.addTo m.whitelist knownFilters text
      .ok { m with whitelist }
    else do
      let blacklist ← E.addTo m.blacklist knownFilters text
      .ok { m with blacklist }
  .ok (if 0 < m.cacheEntries then m.forget else m)

/-- One turn of the loop over the rules. -/
def Engine.addRule (E : Engine) (g : PacGlobals) (rule : JsString) : Except JsError PacGlobals := do
  let knownFilters := E.fromText g.knownFilters rule
  let defaultMatcher ← E.add g.defaultMatcher knownFilters rule
  .ok { knownFilters, defaultMatcher }

/-- The loop over the rules. -/
def Engine.load (E : Engine) (rules : List JsString) : Except JsError PacGlobals :=
  rules.foldlM E.addRule PacGlobals.new

/-- `filter.matches(…)`, which only filters with these members have. -/
def Engine.matchesFilter (E : Engine) (knownFilters : Dict Filter) (text location docDomain : JsString) :
    Except JsError (Bool × Dict Filter) :=
  match members knownFilters text with
  | none => .error .typeError
  | some f => do
    let (hit, f) ← f.matchesLocation E location docDomain
    .ok (hit, Function.update knownFilters text (some (.regexp f)))

/-- The loop of `_checkEntryMatch` over an array. -/
def Engine.checkFilters (E : Engine) (location docDomain : JsString) :
    Dict Filter → List JsString → Except JsError (Option JsString × Dict Filter)
  | knownFilters, [] => .ok (none, knownFilters)
  | knownFilters, text :: list =>
    -- A filter that is equal to this text stands for the array, which does not match anything.
    if text = js "#this" then .error .typeError
    else do
      let (hit, knownFilters) ← E.matchesFilter knownFilters text location docDomain
      if hit then .ok (some text, knownFilters)
      else E.checkFilters location docDomain knownFilters list

/-- `_checkEntryMatch` for an entry. -/
def Engine.checkEntryMatch (E : Engine) (knownFilters : Dict Filter) (location docDomain : JsString) :
    Entry → Except JsError (Option JsString × Dict Filter)
  | .filter text =>
    match members knownFilters text with
    -- The loop does not run up to a `length` that is undefined.
    | none => .ok (none, knownFilters)
    | some _ => do
      let (hit, knownFilters) ← E.matchesFilter knownFilters text location docDomain
      .ok (if hit then some text else none, knownFilters)
  | .array first second rest =>
    E.checkFilters location docDomain knownFilters (first :: second :: rest)

/-- `_checkEntryMatch` for a keyword, when there is an entry for it. -/
def Engine.checkKeyword (E : Engine) (m : Matcher) (knownFilters : Dict Filter)
    (location docDomain keyword : JsString) : Except JsError (Option JsString × Dict Filter) :=
  match m.filterByKeyword keyword with
  | none => .ok (none, knownFilters)
  | some entry => E.checkEntryMatch knownFilters location docDomain entry

/-- The loop of `matchesAnyInternal`. -/
def Engine.checkKeywords (E : Engine) (m : CombinedMatcher) (location docDomain : JsString) :
    Dict Filter → Option JsString → List JsString →
      Except JsError (Option JsString × Dict Filter)
  | knownFilters, blacklistHit, [] => .ok (blacklistHit, knownFilters)
  | knownFilters, blacklistHit, keyword :: list => do
    let (result, knownFilters) ←
      E.checkKeyword m.whitelist knownFilters location docDomain keyword
    if result.isSome then .ok (result, knownFilters)
    else do
      let (blacklistHit, knownFilters) ←
        if blacklistHit = none then
          E.checkKeyword m.blacklist knownFilters location docDomain keyword
        else .ok (blacklistHit, knownFilters)
      E.checkKeywords m location docDomain knownFilters blacklistHit list

/-- The keywords under which `matchesAnyInternal` looks. -/
def Engine.keywordsOf (E : Engine) (location : JsString) : List JsString :=
  tokens (E.toLowerCase location) ++ [[]]

def Engine.matchesAnyInternal (E : Engine) (g : PacGlobals) (location docDomain : JsString) :
    Except JsError (Option JsString × Dict Filter) :=
  E.checkKeywords g.defaultMatcher location docDomain g.knownFilters none (E.keywordsOf location)

/-- `location + " " + docDomain + " "` -/
def cacheKey (location docDomain : JsString) : JsString :=
  location ++ unit ' ' :: (docDomain ++ [unit ' '])

def CombinedMatcher.remember (m : CombinedMatcher) (key : JsString) (result : Option JsString) :
    CombinedMatcher :=
  let m := if maxCacheEntries ≤ m.cacheEntries then m.forget else m
  { m with
    resultCache := Function.update m.resultCache key (some result)
    cacheEntries := m.cacheEntries + 1 }

/-- `CombinedMatcher.matchesAny` -/
def Engine.matchesAny (E : Engine) (g : PacGlobals) (location docDomain : JsString) :
    Except JsError (Option JsString × PacGlobals) :=
  let key := cacheKey location docDomain
  match g.defaultMatcher.resultCache key with
  | some result => .ok (result, g)
  | none => do
    let (result, knownFilters) ← E.matchesAnyInternal g location docDomain
    .ok (result,
      { knownFilters, defaultMatcher := g.defaultMatcher.remember key result })

def Engine.findProxyForURL (E : Engine) (g : PacGlobals) (url host : JsString) :
    Except JsError (JsString × PacGlobals) := do
  let (result, g) ← E.matchesAny g url host
  .ok (if (result.bind g.knownFilters).any Filter.isBlocking then proxy else direct, g)

/-- One query after the other, as long as none raises. -/
def Engine.answers (E : Engine) : PacGlobals → List (JsString × JsString) →
    Except JsError (List JsString × PacGlobals) :=
  Raising.run fun g query => E.findProxyForURL g query.1 query.2

end Shadowsocks
