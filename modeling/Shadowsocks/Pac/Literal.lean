import Mathlib.Tactic.Linarith
import Shadowsocks.Settings.Foundation

/-!
String literals: how `NSJSONSerialization` writes a string, and which string a script reads between
the quotes.
-/
namespace Shadowsocks

/-- `\b`, `\f` and the like: what is behind the backslash in place of the character. -/
def shortEscape : Char → Option Char
  | '"' => some '"'
  | '\\' => some '\\'
  | '/' => some '/'
  | '\x08' => some 'b'
  | '\x0c' => some 'f'
  | '\n' => some 'n'
  | '\r' => some 'r'
  | '\t' => some 't'
  | _ => none

/-- `NSJSONSerialization` escapes quotes, both slashes and control characters. -/
def escapeChar (c : Char) : Text :=
  match shortEscape c with
  | some x => ['\\', x]
  | none =>
    if c.toNat < 32 then
      ['\\', 'u', '0', '0', (c.toNat / 16).digitChar, (c.toNat % 16).digitChar]
    else [c]

def escape (text : Text) : Text := text.flatMap escapeChar

/-- The characters that end a line of a script. -/
def lineTerminator (c : Char) : Bool := c ∈ ['\n', '\r', '\u2028', '\u2029']

/-- The value of a hexadecimal digit. -/
def hexValue (c : Char) : Option Nat :=
  if '0' ≤ c ∧ c ≤ '9' then some (c.toNat - '0'.toNat)
  else if 'a' ≤ c ∧ c ≤ 'f' then some (c.toNat - 'a'.toNat + 10)
  else if 'A' ≤ c ∧ c ≤ 'F' then some (c.toNat - 'A'.toNat + 10)
  else none

/-- What a character stands for behind a backslash. Octal escapes are left out. -/
def singleEscape (c : Char) : Option Char :=
  match c with
  | 'b' => some '\x08'
  | 't' => some '\t'
  | 'n' => some '\n'
  | 'v' => some '\x0b'
  | 'f' => some '\x0c'
  | 'r' => some '\r'
  | c => if c.isDigit then none else some c

/-- The character of a code point. -/
def ofCodePoint (n : Nat) : Option Char := if n.isValidChar then some (Char.ofNat n) else none

/-- Where in a literal its reader is. -/
inductive Reading where
  | plain
  | escaped
  /-- The digits so far make up `n`, and `more` are to come after the next one. -/
  | hex (n more : Nat)
  deriving Repr, DecidableEq

namespace Reading

/-- The next character of a literal, with what it adds to the value. -/
def step : Reading → Char → Option (Option Char × Reading)
  | plain, c =>
    if c = '\\' then some (none, escaped)
    else if lineTerminator c then none
    else some (some c, plain)
  | escaped, c =>
    if c = 'u' then some (none, hex 0 3)
    else if c = 'x' then some (none, hex 0 1)
    else if lineTerminator c then some (none, plain)
    else (singleEscape c).map fun x => (some x, plain)
  | hex n 0, c => (hexValue c).bind fun d =>
    (ofCodePoint (16 * n + d)).map fun x => (some x, plain)
  | hex n (more + 1), c => (hexValue c).map fun d => (none, hex (16 * n + d) more)

/-- The rest of a literal, up to its closing quote. -/
def decode : Reading → Text → Option Text
  | plain, [] => some []
  | _, [] => none
  | r, c :: t => (step r c).bind fun p => (decode p.2 t).map (p.1.toList ++ ·)

/-- The last character was a backslash that escapes the next one. -/
def pending : Reading → Bool
  | escaped => true
  | _ => false

/-- How many hexadecimal digits are to come after the next one. -/
def more : Reading → Nat
  | hex _ more => more
  | _ => 0

end Reading

/-- The value of a literal. -/
def decode (text : Text) : Option Text := Reading.plain.decode text

/-- Takes a literal off the text, up to the first quote without a backslash. -/
def literalFrom : Bool → Text → Option (Text × Text)
  | _, [] => none
  | pending, c :: t =>
    if pending = false ∧ c = '"' then some ([], t)
    else (literalFrom (!pending && c == '\\') t).map fun p => (c :: p.1, p.2)

def literal (text : Text) : Option (Text × Text) := literalFrom false text

/-- A literal of which every escape is one that is written, and that no quote ends. -/
def closed : Bool → Text → Bool
  | pending, [] => !pending
  | true, c :: t => c ∈ ['"', '\\', '/', 'b', 'f', 'n', 'r', 't', 'u'] && closed false t
  | false, c :: t => c != '"' && closed (c == '\\') t

/-- By how much a literal is longer than its value. -/
def weight : Bool → Text → Nat
  | _, [] => 0
  | true, c :: t =>
    (if c = 'u' then 5 else if c = 'x' then 3 else if lineTerminator c then 2 else 1) +
      weight false t
  | false, c :: t => weight (c == '\\') t

/-- The character stands for itself in a literal. -/
def Unescaped (c : Char) : Prop := c ≠ '"' ∧ c ≠ '\\' ∧ lineTerminator c = false

instance : DecidablePred Unescaped := fun _ => inferInstanceAs (Decidable (_ ∧ _))

variable {a b t v : Text} {c : Char} {n : Nat}

/-- What a finite check of the characters of a text shows. -/
theorem forall_of_all {p : Char → Prop} [DecidablePred p]
    (h : t.all (fun c => decide (p c)) = true) : ∀ c ∈ t, p c :=
  fun c hc => of_decide_eq_true (List.all_eq_true.mp h c hc)

theorem shortEscape_some {x : Char} (h : shortEscape c = some x) :
    x ∈ ['"', '\\', '/', 'b', 'f', 'n', 'r', 't'] ∧ singleEscape x = some c := by
  unfold shortEscape at h
  split at h <;> cases h <;> decide

theorem shortEscape_none (h : shortEscape c = none) : c ≠ '"' ∧ c ≠ '\\' := by
  constructor <;> rintro rfl <;> cases h

theorem escapeChar_cases (c : Char) :
    (escapeChar c = [c] ∧ c ≠ '"' ∧ c ≠ '\\' ∧ 32 ≤ c.toNat) ∨
    (∃ x, escapeChar c = ['\\', x] ∧ x ∈ ['"', '\\', '/', 'b', 'f', 'n', 'r', 't'] ∧
      singleEscape x = some c) ∨
    (escapeChar c = ['\\', 'u', '0', '0', (c.toNat / 16).digitChar, (c.toNat % 16).digitChar] ∧
      c.toNat < 32) := by
  cases hs : shortEscape c with
  | some x => exact Or.inr (Or.inl ⟨x, by rw [escapeChar, hs], shortEscape_some hs⟩)
  | none =>
    obtain ⟨hquote, hbackslash⟩ := shortEscape_none hs
    by_cases hlt : c.toNat < 32
    · exact Or.inr (Or.inr ⟨by rw [escapeChar, hs]; exact if_pos hlt, hlt⟩)
    · have hc : escapeChar c = [c] := by
        rw [escapeChar, hs]
        exact if_neg hlt
      exact Or.inl ⟨hc, hquote, hbackslash, Nat.le_of_not_lt hlt⟩

theorem hexValue_digitChar (hn : n < 16) : hexValue n.digitChar = some n := by
  revert n
  decide

namespace Reading

@[simp] theorem decode_nil : plain.decode [] = some [] := rfl

theorem decode_cons (r : Reading) (c : Char) (t : Text) : r.decode (c :: t) =
    (r.step c).bind fun p => (p.2.decode t).map (p.1.toList ++ ·) := by
  cases r <;> rfl

theorem step_plain (h : Unescaped c) : plain.step c = some (some c, plain) := by
  rw [step, if_neg h.2.1, if_neg (by rw [h.2.2]; decide)]

theorem decode_plain_append (h : ∀ c ∈ a, Unescaped c) :
    plain.decode (a ++ t) = (plain.decode t).map (a ++ ·) := by
  induction a with
  | nil => simp
  | cons c a ih =>
    rw [List.forall_mem_cons] at h
    rw [List.cons_append, decode_cons, step_plain h.1, Option.bind_some, ih h.2, Option.map_map]
    rfl

theorem decode_silent {r r' : Reading} (h : r.step c = some (none, r')) :
    r.decode (c :: t) = r'.decode t := by
  rw [decode_cons, h]
  simp

theorem decode_single {r : Reading} {x : Char} (h : r.step c = some (some x, plain)) :
    r.decode (c :: t) = (plain.decode t).map (x :: ·) := by
  rw [decode_cons, h]
  rfl

theorem step_hex {more d : Nat} (hd : hexValue c = some d) :
    (hex n (more + 1)).step c = some (none, hex (16 * n + d) more) := by
  rw [step, hd]
  rfl

theorem step_hex_last {d : Nat} (hd : hexValue c = some d) :
    (hex n 0).step c = (ofCodePoint (16 * n + d)).map fun x => (some x, plain) := by
  rw [step, hd]
  rfl

/-- A character that is written comes back, unless it ends a line of the script. -/
theorem decode_escapeChar (hc : c ≠ '\u2028' ∧ c ≠ '\u2029') :
    plain.decode (escapeChar c ++ t) = (plain.decode t).map (c :: ·) := by
  rcases escapeChar_cases c with ⟨hself, hquote, hbackslash, hle⟩ | ⟨x, hshort, hx, hsingle⟩ |
    ⟨hunicode, hlt⟩
  · have hline : lineTerminator c = false := by
      rw [Bool.eq_false_iff]
      intro hline
      simp only [lineTerminator, List.mem_cons, List.not_mem_nil, or_false,
        decide_eq_true_eq] at hline
      rcases hline with rfl | rfl | rfl | rfl
      · exact absurd hle (by decide)
      · exact absurd hle (by decide)
      · exact hc.1 rfl
      · exact hc.2 rfl
    have hdecode := decode_plain_append (a := [c]) (t := t)
      (List.forall_mem_singleton.mpr ⟨hquote, hbackslash, hline⟩)
    rw [hself, hdecode]
    rfl
  · have hstep : escaped.step x = some (some c, plain) := by
      have hne : ∀ x ∈ ['"', '\\', '/', 'b', 'f', 'n', 'r', 't'],
          x ≠ 'u' ∧ x ≠ 'x' ∧ lineTerminator x = false := forall_of_all (by decide)
      obtain ⟨hu, hx', hline⟩ := hne x hx
      rw [step, if_neg hu, if_neg hx', if_neg (by rw [hline]; decide), hsingle]
      rfl
    rw [hshort, List.cons_append, decode_silent rfl, List.cons_append, decode_single hstep]
    rfl
  · have hhigh : hexValue (c.toNat / 16).digitChar = some (c.toNat / 16) :=
      hexValue_digitChar (by omega)
    have hlow : hexValue (c.toNat % 16).digitChar = some (c.toNat % 16) :=
      hexValue_digitChar (by omega)
    have hcode : 16 * (16 * 0 + c.toNat / 16) + c.toNat % 16 = c.toNat := by omega
    have hchar : ofCodePoint c.toNat = some c := by
      rw [ofCodePoint, Char.ofNat_toNat]
      exact if_pos c.valid
    have hfirst : (hex 0 3).step '0' = some (none, hex 0 2) := rfl
    have hsecond : (hex 0 2).step '0' = some (none, hex 0 1) := rfl
    have hlast : (hex (16 * 0 + c.toNat / 16) 0).step (c.toNat % 16).digitChar =
        some (some c, plain) := by
      rw [step_hex_last hlow, hcode, hchar]
      rfl
    rw [hunicode, List.cons_append, decode_silent rfl, List.cons_append, decode_silent rfl,
      List.cons_append, decode_silent hfirst, List.cons_append, decode_silent hsecond,
      List.cons_append, decode_silent (step_hex hhigh), List.cons_append, decode_single hlast]
    rfl

theorem decode_escape {s : Text} (hs : ∀ c ∈ s, c ≠ '\u2028' ∧ c ≠ '\u2029') :
    plain.decode (escape s) = some s := by
  induction s with
  | nil => rfl
  | cons c s ih =>
    rw [List.forall_mem_cons] at hs
    rw [escape, List.flatMap_cons, decode_escapeChar hs.1, ← escape, ih hs.2]
    rfl

/-- One character at a time, in each of the three places where a reader can be. -/
theorem step_cases {r r' : Reading} {out : Option Char} (h : r.step c = some (out, r')) :
    (r = plain ∧ c = '\\' ∧ out = none ∧ r' = escaped) ∨
    (r = plain ∧ c ≠ '\\' ∧ lineTerminator c = false ∧ out = some c ∧ r' = plain) ∨
    (r = escaped ∧ c = 'u' ∧ out = none ∧ r' = hex 0 3) ∨
    (r = escaped ∧ c = 'x' ∧ out = none ∧ r' = hex 0 1) ∨
    (r = escaped ∧ c ≠ 'u' ∧ c ≠ 'x' ∧ lineTerminator c = true ∧ out = none ∧ r' = plain) ∨
    (r = escaped ∧ c ≠ 'u' ∧ c ≠ 'x' ∧ lineTerminator c = false ∧
      ∃ x, singleEscape c = some x ∧ out = some x ∧ r' = plain) ∨
    (∃ n d x, r = hex n 0 ∧ hexValue c = some d ∧ ofCodePoint (16 * n + d) = some x ∧
      out = some x ∧ r' = plain) ∨
    (∃ n more d, r = hex n (more + 1) ∧ hexValue c = some d ∧ out = none ∧
      r' = hex (16 * n + d) more) := by
  cases r with
  | plain =>
    rw [step] at h
    split at h
    · cases h
      simp_all
    · split at h
      · cases h
      · cases h
        simp_all
  | escaped =>
    rw [step] at h
    split at h
    · cases h
      simp_all
    · split at h
      · cases h
        simp_all
      · split at h
        · cases h
          simp_all
        · obtain ⟨x, hx, hout⟩ := Option.map_eq_some_iff.mp h
          cases hout
          simp_all
  | hex n more =>
    cases more with
    | zero =>
      obtain ⟨d, hd, hrest⟩ := Option.bind_eq_some_iff.mp h
      obtain ⟨x, hx, hout⟩ := Option.map_eq_some_iff.mp hrest
      cases hout
      simp_all
    | succ more =>
      obtain ⟨d, hd, hout⟩ := Option.map_eq_some_iff.mp h
      cases hout
      simp_all

theorem hexValue_cases {d : Nat} (h : hexValue c = some d) :
    (48 ≤ c.toNat ∧ c.toNat ≤ 57 ∧ c.toNat = d + 48) ∨
    (97 ≤ c.toNat ∧ c.toNat ≤ 102 ∧ c.toNat = d + 87) ∨
    (65 ≤ c.toNat ∧ c.toNat ≤ 70 ∧ c.toNat = d + 55) := by
  simp only [hexValue, Char.le_def, UInt32.le_iff_toNat_le] at h
  change (if 48 ≤ c.toNat ∧ c.toNat ≤ 57 then some (c.toNat - 48)
    else if 97 ≤ c.toNat ∧ c.toNat ≤ 102 then some (c.toNat - 97 + 10)
    else if 65 ≤ c.toNat ∧ c.toNat ≤ 70 then some (c.toNat - 65 + 10) else none) = some d at h
  split at h
  · cases h
    omega
  · split at h
    · cases h
      omega
    · split at h
      · cases h
        omega
      · cases h

theorem hexValue_ne_backslash {d : Nat} (h : hexValue c = some d) : c ≠ '\\' := by
  rintro rfl
  cases h

/-- How many of the characters read so far are not yet part of the value. -/
def owed : Reading → Int
  | plain => 0
  | escaped => 1
  | hex _ more => - more

/-- What one character does to the length of the value, against what is owed. -/
theorem step_length {r r' : Reading} {out : Option Char} (h : r.step c = some (out, r')) :
    r'.pending = (!r.pending && c == '\\') ∧ ∀ t, (weight r.pending (c :: t) : Int) +
      out.toList.length + r'.owed = weight r'.pending t + 1 + r.owed := by
  rcases step_cases h with ⟨rfl, rfl, rfl, rfl⟩ | ⟨rfl, hc, hline, rfl, rfl⟩ | ⟨rfl, rfl, rfl, rfl⟩ |
    ⟨rfl, rfl, rfl, rfl⟩ | ⟨rfl, hu, hx, hline, rfl, rfl⟩ | ⟨rfl, hu, hx, hline, x, -, rfl, rfl⟩ |
    ⟨n, d, x, rfl, hd, -, rfl, rfl⟩ | ⟨n, more, d, rfl, hd, rfl, rfl⟩
  · simp [pending, weight, owed]
  · simp [pending, weight, owed, beq_false_of_ne hc]
  · simp [pending, weight, owed]
    omega
  · simp [pending, weight, owed]
    omega
  · simp [pending, weight, owed, hu, hx, hline]
    omega
  · simp [pending, weight, owed, hu, hx, hline]
    omega
  · simp [pending, weight, owed, beq_false_of_ne (hexValue_ne_backslash hd)]
  · simp [pending, weight, owed, beq_false_of_ne (hexValue_ne_backslash hd)]

theorem decode_eq_some {r : Reading} (h : r.decode (c :: t) = some v) : ∃ out r' v',
    r.step c = some (out, r') ∧ r'.decode t = some v' ∧ v = out.toList ++ v' := by
  rw [decode_cons] at h
  obtain ⟨⟨out, r'⟩, hstep, hrest⟩ := Option.bind_eq_some_iff.mp h
  obtain ⟨v', hv', rfl⟩ := Option.map_eq_some_iff.mp hrest
  exact ⟨out, r', v', hstep, hv', rfl⟩

theorem decode_length {r : Reading} (h : r.decode t = some v) :
    (v.length : Int) + weight r.pending t = t.length + r.owed := by
  induction t generalizing r v with
  | nil =>
    cases r with
    | plain =>
      cases h
      rfl
    | escaped => cases h
    | hex n more => cases h
  | cons c t ih =>
    obtain ⟨out, r', v', hstep, hrest, rfl⟩ := decode_eq_some h
    have hlength := (step_length hstep).2 t
    have htail := ih hrest
    rw [List.length_append, List.length_cons]
    push_cast
    omega

end Reading

/-- Plain characters neither end a literal nor weigh anything. -/
theorem closed_append (h : ∀ c ∈ a, Unescaped c) :
    closed false (a ++ t) = closed false t ∧ weight false (a ++ t) = weight false t := by
  induction a with
  | nil => exact ⟨rfl, rfl⟩
  | cons c a ih =>
    rw [List.forall_mem_cons] at h
    obtain ⟨⟨hquote, hbackslash, -⟩, htail⟩ := h
    obtain ⟨hclosed, hweight⟩ := ih htail
    rw [List.cons_append, closed, weight, beq_false_of_ne hbackslash, hclosed, hweight]
    simp [hquote]

theorem closed_escape (s : Text) : closed false (escape s) = true := by
  induction s with
  | nil => rfl
  | cons c s ih =>
    rw [escape, List.flatMap_cons, ← escape]
    rcases escapeChar_cases c with ⟨hself, hquote, hbackslash, hle⟩ | ⟨x, hshort, hx, -⟩ |
      ⟨hunicode, hlt⟩
    · rw [hself, List.singleton_append, closed, beq_false_of_ne hbackslash, ih]
      simp [hquote]
    · have hletter : ∀ x ∈ ['"', '\\', '/', 'b', 'f', 'n', 'r', 't'],
          x ∈ ['"', '\\', '/', 'b', 'f', 'n', 'r', 't', 'u'] := forall_of_all (by decide)
      simp [hshort, closed, ih, hletter x hx]
    · have hdigit : ∀ n < 16, n.digitChar ≠ '"' ∧ n.digitChar ≠ '\\' := by decide
      have hhigh := hdigit (c.toNat / 16) (by omega)
      have hlow := hdigit (c.toNat % 16) (by omega)
      simp [hunicode, closed, ih, hhigh, hlow, beq_false_of_ne hhigh.2, beq_false_of_ne hlow.2]

theorem literalFrom_closed {pending : Bool} (h : closed pending a = true) :
    literalFrom pending (a ++ '"' :: t) = some (a, t) := by
  induction a generalizing pending with
  | nil =>
    cases pending with
    | false => rfl
    | true => cases h
  | cons c a ih =>
    cases pending with
    | false =>
      simp only [closed, Bool.and_eq_true, bne_iff_ne, ne_eq] at h
      have hrest := ih h.2
      rw [List.cons_append, literalFrom, if_neg (by simp [h.1])]
      simp [hrest]
    | true =>
      simp only [closed, Bool.and_eq_true] at h
      have hrest := ih h.2
      rw [List.cons_append, literalFrom, if_neg (by simp)]
      simp [hrest]

theorem literalFrom_eq_some {pending : Bool} {rest : Text}
    (h : literalFrom pending (c :: t) = some (b, rest)) :
    (pending = false ∧ c = '"' ∧ b = [] ∧ rest = t) ∨
    (¬ (pending = false ∧ c = '"') ∧
      ∃ b', b = c :: b' ∧ literalFrom (!pending && c == '\\') t = some (b', rest)) := by
  rw [literalFrom] at h
  split at h
  · rename_i hquote
    cases h
    exact Or.inl ⟨hquote.1, hquote.2, rfl, rfl⟩
  · rename_i hquote
    obtain ⟨⟨b', rest'⟩, hrest, heq⟩ := Option.map_eq_some_iff.mp h
    cases heq
    exact Or.inr ⟨hquote, b', rfl, hrest⟩

theorem literalFrom_append {pending : Bool} {rest : Text}
    (h : literalFrom pending t = some (b, rest)) : t = b ++ '"' :: rest := by
  induction t generalizing pending b with
  | nil => cases h
  | cons c t ih =>
    rcases literalFrom_eq_some h with ⟨-, rfl, rfl, rfl⟩ | ⟨-, b', rfl, hrest⟩
    · rfl
    · rw [ih hrest, List.cons_append]

/-- A quote behind a character that is no backslash ends a literal at the latest. -/
theorem literalFrom_length {pending : Bool} {rest : Text} (hc : c ≠ '\\')
    (h : literalFrom pending ((a ++ [c]) ++ '"' :: t) = some (b, rest)) :
    b.length ≤ (a ++ [c]).length := by
  induction a generalizing pending b with
  | nil =>
    rcases literalFrom_eq_some h with ⟨-, -, rfl, -⟩ | ⟨-, b', rfl, hrest⟩
    · exact Nat.zero_le _
    · rw [beq_false_of_ne hc, Bool.and_false] at hrest
      cases hrest
      exact Nat.le_refl 1
  | cons x a ih =>
    rcases literalFrom_eq_some h with ⟨-, -, rfl, -⟩ | ⟨-, b', rfl, hrest⟩
    · exact Nat.zero_le _
    · exact Nat.succ_le_succ (ih hrest)

/-- A literal as long as its value has no escapes. -/
theorem unescaped_of_weight {rest : Text} (hliteral : literal t = some (b, rest))
    (hdecode : decode b = some v) (hweight : weight false b = 0) : ∀ c ∈ b, Unescaped c := by
  induction b generalizing t v with
  | nil => exact fun c hc => absurd hc List.not_mem_nil
  | cons c b ih =>
    cases t with
    | nil => cases hliteral
    | cons x t =>
      rcases literalFrom_eq_some hliteral with ⟨-, -, hb, -⟩ | ⟨hquote, b', hb, hrest⟩
      · cases hb
      · cases hb
        obtain ⟨out, r, v', hstep, hv', rfl⟩ := Reading.decode_eq_some hdecode
        by_cases hc : c = '\\'
        · subst hc
          cases hstep
          cases b with
          | nil => cases hv'
          | cons y b =>
            exfalso
            change (if y = 'u' then 5 else if y = 'x' then 3 else
              if lineTerminator y then 2 else 1) + weight false b = 0 at hweight
            split at hweight
            · omega
            · split at hweight
              · omega
              · split at hweight <;> omega
        · have hline : lineTerminator c = false := by
            rw [Bool.eq_false_iff]
            intro hline
            rw [Reading.step, if_neg hc, if_pos hline] at hstep
            cases hstep
          rw [Reading.step_plain ⟨fun h => hquote ⟨rfl, h⟩, hc, hline⟩] at hstep
          cases hstep
          rw [beq_false_of_ne hc] at hrest
          rw [weight, beq_false_of_ne hc] at hweight
          rw [List.forall_mem_cons]
          exact ⟨⟨fun h => hquote ⟨rfl, h⟩, hc, hline⟩, ih hrest hv' hweight⟩

end Shadowsocks
