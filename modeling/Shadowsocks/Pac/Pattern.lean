import Shadowsocks.Library.Replace
import Shadowsocks.Pac.JavaScript

/-!
The regular expressions that `getRegexp` writes: how a rule becomes the source of one, and what
such a source matches.
-/
namespace Shadowsocks

open Replace

/-- A part of an expression: one character, `.*`, or a separator or the end of the address. -/
inductive Atom where
  | unit (c : Nat)
  | any
  | separator
  deriving Repr, DecidableEq

/-- Where a match can start. -/
inductive Anchor where
  | free
  | start
  /-- `^[\w\-]+:\/+(?!\/)(?:[^\/]+\.)?` -/
  | domain
  deriving Repr, DecidableEq

structure Pattern where
  anchor : Anchor
  atoms : List Atom
  /-- The match ends where the address does. -/
  finish : Bool
  deriving Repr, DecidableEq

def domainSource : JsString := js "^[\\w\\-]+:\\/+(?!\\/)(?:[^\\/]+\\.)?"

def separatorSource : JsString :=
  js "(?:[\\x00-\\x24\\x26-\\x2C\\x2F\\x3A-\\x40\\x5B-\\x5E\\x60\\x7B-\\x7F]|$)"

/-- Reads the parts of an expression; `skip` more characters belong to the last one. -/
def parseAtoms : Nat → JsString → Option (List Atom × Bool)
  | 0, [] => some ([], false)
  | _ + 1, [] => none
  | skip + 1, _ :: t => parseAtoms skip t
  | 0, c :: t =>
    if separatorSource.isPrefixOf (c :: t) then
      (parseAtoms (separatorSource.length - 1) t).map fun p => (.separator :: p.1, p.2)
    else if (js ".*").isPrefixOf (c :: t) then
      (parseAtoms 1 t).map fun p => (.any :: p.1, p.2)
    else if c = unit '\\' then
      -- Behind a backslash, a letter or digit has a meaning of its own.
      if t.head?.any fun x => !isWord x then
        (parseAtoms 1 t).map fun p => (.unit (t.headD c) :: p.1, p.2)
      else none
    else if c = unit '$' ∧ t = [] then some ([], true)
    else if isWord c then (parseAtoms 0 t).map fun p => (.unit c :: p.1, p.2)
    else none

/-- The expression that a source stands for, when it is one of those that `getRegexp` writes. -/
def parsePattern (source : JsString) : Option Pattern :=
  if domainSource.isPrefixOf source then
    (parseAtoms 0 (source.drop domainSource.length)).map fun p => ⟨.domain, p.1, p.2⟩
  else if (js "^").isPrefixOf source then
    (parseAtoms 0 (source.drop 1)).map fun p => ⟨.start, p.1, p.2⟩
  else (parseAtoms 0 source).map fun p => ⟨.free, p.1, p.2⟩

/-- Whether a regular expression takes one character for the other. The classes of characters
that the expressions use hold both or neither. -/
def Engine.same (E : Engine) (ignoreCase : Bool) (c x : Nat) : Bool :=
  if ignoreCase then E.canonicalize c == E.canonicalize x else c == x

/-- What can be left of a text behind `.*`. -/
def skips : JsString → List JsString
  | [] => [[]]
  | x :: s => (x :: s) :: if isLineTerminator x then [] else skips s

/-- The parts match the start of the text. -/
def Engine.matchAtoms (E : Engine) (ignoreCase finish : Bool) : List Atom → JsString → Bool
  | [], s => !finish || s.isEmpty
  | .unit c :: atoms, s =>
    match s with
    | [] => false
    | x :: s => E.same ignoreCase c x && E.matchAtoms ignoreCase finish atoms s
  | .any :: atoms, s => (skips s).any fun t => E.matchAtoms ignoreCase finish atoms t
  | .separator :: atoms, s =>
    match s with
    | [] => E.matchAtoms ignoreCase finish atoms []
    | x :: s => isSeparator x && E.matchAtoms ignoreCase finish atoms s

/-- What can be left behind `[^\/]+\.`, of which some has been read or not. -/
def afterLabels : Bool → JsString → List JsString
  | _, [] => []
  | started, c :: t =>
    (if started && c == unit '.' then [t] else []) ++
      (if c = unit '/' then [] else afterLabels true t)

/-- What can be left of an address behind the anchor for a domain. -/
def domainRests (address : JsString) : List JsString :=
  if (address.takeWhile fun c => isWord c || c == unit '-') = [] then [] else
    match address.dropWhile fun c => isWord c || c == unit '-' with
    | c :: d :: t =>
      if c = unit ':' ∧ d = unit '/' then
        let rest := t.dropWhile fun x => x == unit '/'
        rest :: afterLabels false rest
      else []
    | _ => []

/-- `test` of the regular expression. -/
def Engine.test (E : Engine) (ignoreCase : Bool) (p : Pattern) (address : JsString) : Bool :=
  match p.anchor with
  | .free => address.tails.any (E.matchAtoms ignoreCase p.finish p.atoms)
  | .start => E.matchAtoms ignoreCase p.finish p.atoms address
  | .domain => (domainRests address).any (E.matchAtoms ignoreCase p.finish p.atoms)

/-- `new RegExp(source, ignoreCase ? "i" : "")` -/
def Engine.newRegExp (E : Engine) (source : JsString) (ignoreCase : Bool) :
    Except JsError (JsString → Bool) :=
  match parsePattern source with
  | some p => .ok (E.test ignoreCase p)
  | none =>
    match E.regexp source ignoreCase with
    | some test => .ok test
    | none => .error .syntaxError

/-- `.replace(/\*+/g, "*")` -/
def collapseStars : JsString → JsString
  | [] => []
  | c :: t =>
    if c = unit '*' ∧ t.head? = some (unit '*') then collapseStars t else c :: collapseStars t

/-- `.replace(/\^\|$/, "^")` -/
def dropEndBehindSeparator (s : JsString) : JsString :=
  if (js "^|").isSuffixOf s then s.dropLast else s

/-- `.replace(/\W/g, "\\$&")` -/
def escapeUnit (c : Nat) : JsString := if isWord c then [c] else [unit '\\', c]

def replaceJs (needle new s : JsString) : JsString :=
  replaceAll needle.isPrefixOf needle.length new s

/-- The same for an expression that begins with `^`. -/
def replaceStart (needle new s : JsString) : JsString :=
  if needle.isPrefixOf s then new ++ s.drop needle.length else s

/-- The same for an expression that ends with `$`. -/
def replaceEnd (needle new s : JsString) : JsString :=
  if needle.isSuffixOf s then s.take (s.length - needle.length) ++ new else s

/-- The source that `getRegexp` makes of a rule, one replacement after the other. -/
def regexpSourceOf (regexpSource : JsString) : JsString :=
  let source := (dropEndBehindSeparator (collapseStars regexpSource)).flatMap escapeUnit
  let source := replaceJs (js "\\*") (js ".*") source
  let source := replaceJs (js "\\^") separatorSource source
  let source := replaceStart (js "\\|\\|") domainSource source
  let source := replaceStart (js "\\|") (js "^") source
  let source := replaceEnd (js "\\|") (js "$") source
  let source := replaceStart (js ".*") [] source
  replaceEnd (js ".*") [] source

end Shadowsocks
