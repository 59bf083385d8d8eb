import Shadowsocks.Pac.Pattern

/-! The filters of `abp.js`: how a rule is read, and whether a filter matches an address. -/
namespace Shadowsocks

/-- `text.split(separator)` for a separator of one character. -/
def splitUnit (c : Nat) (text : JsString) : List JsString := text.splitOnP fun x => x == c

/-- `~?[\w\-]+(?:=[^,\s]+)?` -/
def isOption (item : JsString) : Bool :=
  let item := if item.head? = some (unit '~') then item.tail else item
  let name := item.takeWhile fun c => isWord c || c == unit '-'
  name != [] &&
    match item.drop name.length with
    | [] => true
    | c :: value =>
      c == unit '=' && value != [] && value.all fun x => x != unit ',' && !isWhitespace x

/-- What the group of `Filter.optionsRegExp` matches. -/
def isOptionList (text : JsString) : Bool := (splitUnit (unit ',') text).all isOption

/-- `Filter.optionsRegExp.exec(text)`: what is in front of the options, and the options. -/
def optionsRegExp : JsString → Option (JsString × JsString)
  | [] => none
  | c :: t =>
    if c = unit '$' ∧ isOptionList t then some ([], t)
    else (optionsRegExp t).map fun p => (c :: p.1, p.2)

/-- The part of `Filter.regexpRegExp` behind its second slash, up to the end. -/
def isRegexpTail (text : JsString) : Bool :=
  match text with
  | [] => true
  | c :: t => c == unit '$' && isOptionList t

/-- `.*\/(?:\$…)?$` -/
def isRegexpBody : JsString → Bool
  | [] => false
  | c :: t => (c == unit '/' && isRegexpTail t) || (!isLineTerminator c && isRegexpBody t)

/-- `text.substr(2)` for a text that begins with `@@`. -/
def withoutException (text : JsString) : JsString :=
  if (js "@@").isPrefixOf text then text.drop 2 else text

/-- `Filter.regexpRegExp.test(text)` -/
def regexpRegExp (text : JsString) : Bool :=
  match withoutException text with
  | [] => false
  | c :: t => c == unit '/' && isRegexpBody t

/-- The names of `RegExpFilter.typeMap`. -/
def typeMap : List JsString :=
  ["OTHER", "SCRIPT", "IMAGE", "STYLESHEET", "OBJECT", "SUBDOCUMENT", "DOCUMENT", "XBL", "PING",
    "XMLHTTPREQUEST", "OBJECT_SUBREQUEST", "DTD", "MEDIA", "FONT", "BACKGROUND", "POPUP",
    "ELEMHIDE"].map js

/-- The options that a filter uses. -/
structure Options where
  matchCase : Bool := false
  domains : Option JsString := none
  sitekeys : Option JsString := none

/-- One turn of the loop over the options; an option that is not known is left. -/
def readOption (o : Options) (item : JsString) : Except JsString Options :=
  let option := item.takeWhile fun c => c != unit '='
  let value := (item.drop option.length).tail?
  -- `replace(/-/, "_")` replaces the first one.
  let option := option.takeWhile (· != unit '-') ++
    match option.dropWhile (· != unit '-') with
    | [] => []
    | _ :: t => unit '_' :: t
  if option ∈ typeMap then .ok o
  else if option.head? = some (unit '~') ∧ option.drop 1 ∈ typeMap then .ok o
  else if option = js "MATCH_CASE" then .ok { o with matchCase := true }
  else if option = js "~MATCH_CASE" then .ok { o with matchCase := false }
  -- `value` is `null` without a value, and so never undefined.
  else if option = js "DOMAIN" then .ok { o with domains := value }
  else if option ∈ [js "THIRD_PARTY", js "~THIRD_PARTY", js "COLLAPSE", js "~COLLAPSE"] then .ok o
  else if option = js "SITEKEY" then .ok { o with sitekeys := value }
  else .error option

/-- A `BlockingFilter` or `WhitelistFilter`, with what it has worked out so far. -/
structure RegExpFilter where
  blocking : Bool
  matchCase : Bool
  regexpSource : Option JsString
  regexp : Option (JsString → Bool)
  domainSource : Option JsString
  domains : Option (Dict Bool)
  sitekeySource : Option JsString
  sitekeys : Option (List JsString)

/-- Why a filter is invalid. -/
inductive Reason where
  | unknownOption (message : JsString)
  | exception (e : JsError)

inductive Filter where
  | comment
  | invalid (reason : Reason)
  | regexp (f : RegExpFilter)

/-- An expression between slashes is one that the rule itself writes. -/
def isRawRegexp (regexpSource : JsString) : Bool :=
  2 ≤ regexpSource.length && regexpSource.head? == some (unit '/') &&
    regexpSource.getLast? == some (unit '/')

/-- The constructor of `BlockingFilter` and `WhitelistFilter`. -/
def Engine.regExpFilter (E : Engine) (blocking : Bool) (regexpSource : JsString) (o : Options) :
    Except JsError RegExpFilter :=
  let f : RegExpFilter :=
    { blocking, matchCase := o.matchCase, regexpSource := none, regexp := none,
      domainSource := o.domains, domains := none, sitekeySource := o.sitekeys, sitekeys := none }
  if isRawRegexp regexpSource then do
    let regexp ← E.newRegExp ((regexpSource.drop 1).dropLast) (!o.matchCase)
    .ok { f with regexp := some regexp }
  else .ok { f with regexpSource := some regexpSource }

/-- `RegExpFilter.fromText` -/
def Engine.regExpFilterFromText (E : Engine) (text : JsString) : Filter :=
  let blocking := !(js "@@").isPrefixOf text
  let text := withoutException text
  let parsed : JsString × Except JsString Options :=
    match optionsRegExp text with
    | none => (text, .ok {})
    | some (rest, options) =>
      (rest, (splitUnit (unit ',') (E.toUpperCase options)).foldlM readOption {})
  match parsed.2 with
  | .error option => .invalid (.unknownOption (js "Unknown option " ++ E.toLowerCase option))
  | .ok o =>
    match E.regExpFilter blocking parsed.1 o with
    | .error e => .invalid (.exception e)
    | .ok f => .regexp f

/-- The part of `Filter.fromText` for a text that is not known yet. -/
def Engine.newFilter (E : Engine) (text : JsString) : Filter :=
  if text.head? = some (unit '!') then .comment else E.regExpFilterFromText text

namespace RegExpFilter

variable (E : Engine)

def getRegexp (f : RegExpFilter) : Except JsError ((JsString → Bool) × RegExpFilter) :=
  match f.regexp with
  | some regexp => .ok (regexp, f)
  | none => do
    let regexp ← E.newRegExp (regexpSourceOf (f.regexpSource.getD [])) (!f.matchCase)
    .ok (regexp, { f with regexp := some regexp })

def getSitekeys (f : RegExpFilter) : Option (List JsString) × RegExpFilter :=
  match f.sitekeys with
  | some keys => (some keys, f)
  | none =>
    match f.sitekeySource with
    | some (c :: source) =>
      let keys := splitUnit (unit '|') (c :: source)
      (some keys, { f with sitekeySource := none, sitekeys := some keys })
    | _ => (none, f)

/-- `domain.replace(/\.+$/, "")` -/
def withoutTrailingDots (domain : JsString) : JsString :=
  (domain.reverse.dropWhile (· == unit '.')).reverse

/-- The loop over the domains of a filter. -/
def readDomains : Option (Dict Bool) → Bool → List JsString → Option (Dict Bool) × Bool
  | domains, hasIncludes, [] => (domains, hasIncludes)
  | domains, hasIncludes, domain :: list =>
    let domain := withoutTrailingDots domain
    if domain = [] then readDomains domains hasIncludes list
    else
      let excluded := domain.head? = some (unit '~')
      let name := if excluded then domain.tail else domain
      let dict : Dict Bool := domains.getD fun _ => none
      readDomains (some (Function.update dict name (some (!excluded))))
        (hasIncludes || !excluded) list

/-- What `getDomains` makes of `domainSource`, in a variable of its own. -/
def listedDomains (source : JsString) : Except JsError (Dict Bool) :=
  let list := splitUnit (unit '|') source
  let first := list.headD []
  if list.length = 1 ∧ first.head? ≠ some (unit '~') then
    .ok (Function.update (Function.update (fun _ => none) [] (some false))
      (withoutTrailingDots first) (some true))
  else
    match readDomains none false list with
    -- A property of `null` cannot be set.
    | (none, _) => .error .typeError
    | (some domains, hasIncludes) => .ok (Function.update domains [] (some (!hasIncludes)))

/-- The domains are worked out and dropped; `this.domains` is never set. -/
def getDomains (f : RegExpFilter) : Except JsError (Option (Dict Bool) × RegExpFilter) :=
  match f.domains with
  | some domains => .ok (some domains, f)
  | none =>
    match f.domainSource with
    | none => .ok (f.domains, f)
    | some source =>
      if source = [] then .ok (f.domains, f)
      else do
        let _ ← listedDomains source
        .ok (f.domains, { f with domainSource := none })

/-- The loop of `isActiveOnDomain`: `check` where the text is the host or starts behind a dot. -/
def activeOn (domains : Dict Bool) : Bool → JsString → Bool
  | _, [] => (domains []).getD false
  | check, c :: t =>
    match if check then domains (c :: t) else none with
    | some active => active
    | none => activeOn domains (c == unit '.') t

def isActiveOnDomain (f : RegExpFilter) (docDomain : JsString) (sitekey : Option JsString) :
    Except JsError (Bool × RegExpFilter) :=
  let (keys, f) := f.getSitekeys
  if keys.any fun keys => sitekey.all fun key => key = [] ∨ E.toUpperCase key ∉ keys then
    .ok (false, f)
  else do
    let (domains, f) ← f.getDomains
    match domains with
    | none => .ok (true, f)
    | some domains =>
      if docDomain = [] then .ok ((domains []).getD false, f)
      else .ok (activeOn domains true (E.toUpperCase (withoutTrailingDots docDomain)), f)

/-- `matches` is always asked without a site key. -/
def matchesLocation (f : RegExpFilter) (location docDomain : JsString) :
    Except JsError (Bool × RegExpFilter) := do
  let (regexp, f) ← f.getRegexp E
  if regexp location then f.isActiveOnDomain E docDomain none else .ok (false, f)

end RegExpFilter

end Shadowsocks
