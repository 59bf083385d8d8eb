import Mathlib.Data.List.Forall2
import Mathlib.Logic.Function.Basic
import Shadowsocks.Settings.Foundation

/-!
What `abp.js` uses of JavaScript. The engine that runs a PAC script is part of the system; its
tables for upper and lower case, and what it makes of regular expressions beyond those that
`abp.js` writes itself, are parameters.
-/
namespace Shadowsocks

/-- A string is its code units. -/
abbrev JsString := List Nat

abbrev unit (c : Char) : Nat := c.toNat

/-- A string that is written in the source. -/
def js (s : String) : JsString := s.toList.map unit

/-- The code units of a text that reaches a script. -/
def utf16 (text : Text) : JsString := text.flatMap fun c =>
  if c.toNat < 0x10000 then [c.toNat]
  else [0xd800 + (c.toNat - 0x10000) / 0x400, 0xdc00 + (c.toNat - 0x10000) % 0x400]

/-- The result of `createDict`. -/
abbrev Dict (α : Type) := JsString → Option α

inductive JsError where
  | typeError
  | syntaxError
  deriving Repr, DecidableEq

/-- `\w` -/
def isWord (c : Nat) : Bool :=
  (48 ≤ c && c ≤ 57) || (65 ≤ c && c ≤ 90) || (97 ≤ c && c ≤ 122) || c == 95

/-- `\s` -/
def isWhitespace (c : Nat) : Bool :=
  (9 ≤ c && c ≤ 13) || (0x2000 ≤ c && c ≤ 0x200a) ||
    c ∈ [0x20, 0xa0, 0x1680, 0x2028, 0x2029, 0x202f, 0x205f, 0x3000, 0xfeff]

/-- What `.` does not match. -/
def isLineTerminator (c : Nat) : Bool := c ∈ [10, 13, 0x2028, 0x2029]

/-- `[\x00-\x24\x26-\x2C\x2F\x3A-\x40\x5B-\x5E\x60\x7B-\x7F]` -/
def isSeparator (c : Nat) : Bool :=
  c ≤ 0x24 || (0x26 ≤ c && c ≤ 0x2c) || c == 0x2f || (0x3a ≤ c && c ≤ 0x40) ||
    (0x5b ≤ c && c ≤ 0x5e) || c == 0x60 || (0x7b ≤ c && c ≤ 0x7f)

def asciiLower (c : Nat) : Nat := if 65 ≤ c ∧ c ≤ 90 then c + 32 else c

def asciiUpper (c : Nat) : Nat := if 97 ≤ c ∧ c ≤ 122 then c - 32 else c

/-- KELVIN SIGN, the one other character whose lower case is a letter of ASCII. -/
def kelvin : Nat := 0x212a

/-- LATIN CAPITAL LETTER I WITH DOT ABOVE, whose lower case begins with one. -/
def dottedI : Nat := 0x130

structure Engine where
  toLowerCase : JsString → JsString
  toUpperCase : JsString → JsString
  /-- Two code units are the same to a regular expression that ignores case when this is. -/
  canonicalize : Nat → Nat
  /-- The test of a regular expression, unless its source is malformed. -/
  regexp : JsString → Bool → Option (JsString → Bool)

/-- What lower case makes of one code unit. -/
def LowersTo (c : Nat) (piece : JsString) : Prop :=
  if c < 128 then piece = [asciiLower c]
  else if c = kelvin then piece = [unit 'k']
  else if c = dottedI then piece = [unit 'i', 0x307]
  else piece ≠ [] ∧ ∀ x ∈ piece, 128 ≤ x

/-- The tables are those of Unicode, as far as they concern ASCII. -/
structure Engine.Lawful (E : Engine) : Prop where
  toLowerCase : ∀ s, ∃ pieces, List.Forall₂ LowersTo s pieces ∧ E.toLowerCase s = pieces.flatten
  canonicalize_ascii : ∀ c < 128, E.canonicalize c = asciiUpper c
  canonicalize_other : ∀ c, 128 ≤ c → 128 ≤ E.canonicalize c
  canonicalize_special : ∀ c ∈ [kelvin, dottedI], ∀ x,
    E.canonicalize x = E.canonicalize c → x = c

/-- An engine that knows no letters outside ASCII but these two, and no other expressions. -/
def Engine.reference : Engine where
  toLowerCase s := s.flatMap fun c =>
    if c = kelvin then [unit 'k'] else if c = dottedI then [unit 'i', 0x307] else [asciiLower c]
  toUpperCase s := s.map asciiUpper
  canonicalize := asciiUpper
  regexp _ _ := none

theorem Engine.lawful_reference : Engine.reference.Lawful where
  toLowerCase s := by
    refine ⟨s.map fun c => if c = kelvin then [unit 'k'] else
      if c = dottedI then [unit 'i', 0x307] else [asciiLower c], ?_, rfl⟩
    rw [List.forall₂_map_right_iff, List.forall₂_same]
    intro c _
    rw [LowersTo]
    split
    · rename_i hlt
      have hne : c ≠ kelvin ∧ c ≠ dottedI := by
        simp only [kelvin, dottedI]
        omega
      rw [if_neg hne.1, if_neg hne.2]
    · rename_i hge
      split
      · rfl
      · split
        · rfl
        · refine ⟨List.cons_ne_nil _ _, ?_⟩
          intro x hx
          rw [List.mem_singleton.mp hx, asciiLower]
          split <;> omega
  canonicalize_ascii c _ := rfl
  canonicalize_other c hc := by
    simp only [reference, asciiUpper]
    split <;> omega
  canonicalize_special c hc x hx := by
    have hc' : c = kelvin ∨ c = dottedI := by simpa using hc
    simp only [reference, asciiUpper] at hx
    simp only [kelvin, dottedI] at hc'
    split at hx <;> split at hx <;> omega

end Shadowsocks
