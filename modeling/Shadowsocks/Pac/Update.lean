import Shadowsocks.Pac.Replacing

/-! The PAC file that `updatePACFromGFWList` writes, and how a script is read from it. -/
namespace Shadowsocks

variable {F : Foundation} {needle new a b t : Text} {rules bodies : List Text}

/-- `[NSCharacterSet newlineCharacterSet]` -/
def newlineCharacterSet : Text :=
  ['\n', '\x0b', '\x0c', '\r', '\u0085', '\u2028', '\u2029']

/-- `componentsSeparatedByCharactersInSet:` -/
def componentsSeparatedByCharactersInSet (set text : Text) : List Text :=
  text.splitOnP fun c => decide (c ∈ set)

/-- A line that is not empty and no comment. -/
def isRule (line : Text) : Bool :=
  match line with
  | [] => false
  | s :: _ => s != '!' && s != '['

/-- The lines of the list and of the user's own rules that go into the script. Without a decoded
list there are no lines to add the user's to. -/
def filteredLines (str2 str3 : Option Text) : List Text :=
  match str2 with
  | none => []
  | some str2 =>
    (componentsSeparatedByCharactersInSet newlineCharacterSet str2 ++
      match str3 with
      | none => []
      | some str3 => componentsSeparatedByCharactersInSet newlineCharacterSet str3).filter isRule

/-- The strings of an array, between their quotes, one on a line. -/
def arrayItems : List Text → Text
  | [] => []
  | [y] => "  \"".toList ++ (y ++ "\"".toList)
  | y :: ys => "  \"".toList ++ (y ++ ("\",\n".toList ++ arrayItems ys))

def arrayText (bodies : List Text) : Text :=
  "[\n".toList ++ (arrayItems bodies ++ "\n]".toList)

/-- `dataWithJSONObject:options:error:` with `NSJSONWritingPrettyPrinted`, of an array of
strings. -/
def dataWithJSONObject (rules : List Text) : Bytes := utf8 (arrayText (rules.map escape))

/-- What the texts that are replaced look like. -/
def placeholders : List Text := ["__RULES__".toList, "127.0.0.1".toList, ":1080".toList]

/-- `abp.js`: its two declarations, with what is in front of them and behind them. -/
structure Template where
  before : Text
  engine : Text
  before_plain : ∀ p ∈ placeholders, ¬ p <:+: before
  engine_plain : ∀ p ∈ placeholders, ¬ p <:+: engine

/-- The value of `proxy` for one address. -/
def proxyString (address : Text) : Text :=
  "SOCKS5 ".toList ++ (address ++ ("; SOCKS ".toList ++ (address ++ "; DIRECT;".toList)))

/-- The script with an address and a text for the rules. -/
def Template.layout (T : Template) (address rules : Text) : Text :=
  T.before ++ ("var proxy = \"".toList ++ (proxyString address ++
    ("\";\n\nvar rules = ".toList ++ (rules ++ (";".toList ++ T.engine)))))

def Template.text (T : Template) : Text := T.layout "127.0.0.1:1080".toList "__RULES__".toList

/-- The rules that the response and the user's file hold, unless the response is not base64. -/
def Foundation.downloadedRules (F : Foundation) (responseObject : Bytes)
    (userRule : Option Text) : Option (List Text) := do
  let str ← stringWithData responseObject
  let data2 ← F.initWithBase64Encoding str
  some (filteredLines (stringWithData data2) userRule)

/-- What is written to the PAC file, when anything is. -/
def Foundation.updatePACFromGFWList (F : Foundation) (T : Template) (responseObject : Bytes)
    (userRule : Option Text) : Option Bytes := do
  let filtered ← F.downloadedRules responseObject userRule
  let rules ← stringWithData (dataWithJSONObject filtered)
  some (utf8 (F.replacing "__RULES__".toList rules T.text))

/-- The two declarations of a PAC script. -/
structure Script where
  proxy : Text
  rules : List Text
  deriving DecidableEq

def isSpace (c : Char) : Bool := c ∈ [' ', '\n', '\r', '\t']

/-- A string with its quotes, and the blank space behind it. -/
def readString (text : Text) : Option (Text × Text) :=
  match text.dropWhile isSpace with
  | '"' :: t => do
    let (body, t) ← literal t
    let value ← decode body
    some (value, t.dropWhile isSpace)
  | _ => none

/-- The strings of an array, up to the closing bracket. -/
def readItems : Nat → Text → Option (List Text × Text)
  | 0, _ => none
  | fuel + 1, text => do
    let (value, t) ← readString text
    match t with
    | ',' :: t =>
      let (values, t) ← readItems fuel t
      some (value :: values, t)
    | ']' :: t => some ([value], t)
    | _ => none

def readArray : Text → Option (List Text × Text)
  | '[' :: t =>
    match t.dropWhile isSpace with
    | ']' :: t => some ([], t)
    | t => readItems t.length t
  | _ => none

/-- The second declaration, and what is behind it. -/
def Template.readRules (T : Template) (proxy text : Text) : Option Script := do
  let t ← text.dropPrefix? ";\n\nvar rules = ".toList
  let (rules, t) ← readArray t
  let t ← t.dropPrefix? ";".toList
  if t = T.engine then some ⟨proxy, rules⟩ else none

/-- Reads the declarations of a script with the same template. -/
def Template.read (T : Template) (text : Text) : Option Script := do
  let t ← text.dropPrefix? T.before
  let t ← t.dropPrefix? "var proxy = \"".toList
  let (body, t) ← literal t
  let proxy ← decode body
  T.readRules proxy t

/-- The script in a file. -/
def Template.readData (T : Template) (data : Bytes) : Option Script :=
  (stringWithData data).bind T.read

theorem not_mem_of_mem_splitOnP {p : Char → Bool} {xs l : Text} (hl : l ∈ xs.splitOnP p) :
    ∀ c ∈ l, p c = false := by
  induction xs generalizing l with
  | nil =>
    rw [List.splitOnP_nil, List.mem_singleton] at hl
    rw [hl]
    exact fun c hc => absurd hc List.not_mem_nil
  | cons x xs ih =>
    rw [List.splitOnP_cons_eq_if_modifyHead] at hl
    split at hl
    · rcases List.mem_cons.mp hl with rfl | hl
      · exact fun c hc => absurd hc List.not_mem_nil
      · exact ih hl
    · rename_i hx
      cases hs : xs.splitOnP p with
      | nil => exact absurd hs (List.splitOnP_ne_nil p xs)
      | cons first rest =>
        rw [hs, List.modifyHead_cons] at hl
        rcases List.mem_cons.mp hl with rfl | hl
        · intro c hc
          rcases List.mem_cons.mp hc with rfl | hc
          · exact Bool.eq_false_iff.mpr hx
          · exact ih (by rw [hs]; exact List.mem_cons_self) c hc
        · exact ih (by rw [hs]; exact List.mem_cons_of_mem first hl)

/-- A rule is one line. -/
theorem filteredLines_newline {str2 str3 : Option Text} {rule : Text}
    (h : rule ∈ filteredLines str2 str3) : ∀ c ∈ rule, c ∉ newlineCharacterSet := by
  have hline : ∀ {text : Text},
      rule ∈ componentsSeparatedByCharactersInSet newlineCharacterSet text →
      ∀ c ∈ rule, c ∉ newlineCharacterSet := by
    intro text hrule c hc
    have hnot := not_mem_of_mem_splitOnP hrule c hc
    exact of_decide_eq_false hnot
  cases str2 with
  | none => exact absurd h List.not_mem_nil
  | some str2 =>
    have hmem := (List.mem_filter.mp h).1
    rcases List.mem_append.mp hmem with hlist | huser
    · exact hline hlist
    · cases str3 with
      | none => exact absurd huser List.not_mem_nil
      | some str3 => exact hline huser

theorem Foundation.downloadedRules_newline {responseObject : Bytes} {userRule : Option Text}
    (h : F.downloadedRules responseObject userRule = some rules) {rule : Text}
    (hrule : rule ∈ rules) : ∀ c ∈ rule, c ∉ newlineCharacterSet := by
  obtain ⟨str, -, h⟩ := Option.bind_eq_some_iff.mp h
  obtain ⟨data2, -, h⟩ := Option.bind_eq_some_iff.mp h
  cases h
  exact filteredLines_newline hrule

theorem dropPrefix_append (p t : Text) : (p ++ t).dropPrefix? p = some t :=
  List.dropPrefix?_eq_some_iff.mpr ⟨p, rfl, beq_self_eq_true p⟩

theorem readString_eq (hb : closed false b = true) :
    readString ("  \"".toList ++ (b ++ '"' :: t)) =
      (decode b).map fun value => (value, t.dropWhile isSpace) := by
  have hliteral : literal (b ++ '"' :: t) = some (b, t) := literalFrom_closed hb
  change (literal (b ++ '"' :: t) >>= fun p => decode p.1 >>= fun value =>
    some (value, p.2.dropWhile isSpace)) = _
  rw [hliteral]
  change (decode b >>= fun value => some (value, t.dropWhile isSpace)) = _
  cases decode b <;> rfl

theorem readItems_newline (fuel : Nat) (t : Text) :
    readItems fuel ('\n' :: t) = readItems fuel t := by
  cases fuel with
  | zero => rfl
  | succ fuel => rfl

theorem readItems_arrayItems {fuel : Nat} (hbodies : ∀ y ∈ bodies, closed false y = true)
    (hne : bodies ≠ []) (hfuel : bodies.length ≤ fuel) :
    readItems fuel (arrayItems bodies ++ ("\n]".toList ++ t)) =
      (bodies.mapM decode).map fun values => (values, t) := by
  induction bodies generalizing fuel with
  | nil => exact absurd rfl hne
  | cons y ys ih =>
    rw [List.forall_mem_cons] at hbodies
    rw [List.length_cons] at hfuel
    obtain ⟨fuel, rfl⟩ : ∃ n, fuel = n + 1 := ⟨fuel - 1, by omega⟩
    cases ys with
    | nil =>
      have hstring := readString_eq (t := '\n' :: ']' :: t) hbodies.1
      have htext : arrayItems [y] ++ ("\n]".toList ++ t) =
          "  \"".toList ++ (y ++ '"' :: '\n' :: ']' :: t) := by
        simp [arrayItems]
      rw [htext, readItems, hstring, List.mapM_cons]
      cases decode y <;> rfl
    | cons y' ys =>
      have hrest := ih hbodies.2 (List.cons_ne_nil y' ys) (Nat.le_of_succ_le_succ hfuel)
      have hstring := readString_eq
        (t := ',' :: '\n' :: (arrayItems (y' :: ys) ++ ("\n]".toList ++ t))) hbodies.1
      have htext : arrayItems (y :: y' :: ys) ++ ("\n]".toList ++ t) = "  \"".toList ++
          (y ++ '"' :: ',' :: '\n' :: (arrayItems (y' :: ys) ++ ("\n]".toList ++ t))) := by
        simp [arrayItems]
      rw [htext, readItems, hstring, List.mapM_cons]
      cases hy : decode y with
      | none => rfl
      | some value =>
        change (readItems fuel ('\n' :: (arrayItems (y' :: ys) ++ ("\n]".toList ++ t))) >>=
          fun p => some (value :: p.1, p.2)) = _
        rw [readItems_newline, hrest]
        cases (y' :: ys).mapM decode <;> rfl

theorem arrayItems_cons (y : Text) (ys : List Text) : ∃ rest,
    arrayItems (y :: ys) = ' ' :: ' ' :: '"' :: rest ∧ ys.length ≤ rest.length := by
  induction ys generalizing y with
  | nil => exact ⟨y ++ "\"".toList, rfl, Nat.zero_le _⟩
  | cons y' ys ih =>
    obtain ⟨rest, hrest, hlength⟩ := ih y'
    refine ⟨y ++ ("\",\n".toList ++ arrayItems (y' :: ys)), rfl, ?_⟩
    rw [hrest, List.length_append, List.length_append, List.length_cons, List.length_cons,
      List.length_cons, List.length_cons]
    omega

theorem readArray_arrayText (hbodies : ∀ y ∈ bodies, closed false y = true) (t : Text) :
    readArray (arrayText bodies ++ t) = (bodies.mapM decode).map fun values => (values, t) := by
  cases bodies with
  | nil => rfl
  | cons y ys =>
    obtain ⟨rest, hrest, hlength⟩ := arrayItems_cons y ys
    have hfuel : (y :: ys).length ≤ ('"' :: (rest ++ ("\n]".toList ++ t))).length := by
      rw [List.length_cons, List.length_cons, List.length_append]
      omega
    have hitems := readItems_arrayItems (t := t) hbodies (List.cons_ne_nil y ys) hfuel
    have htext : arrayText (y :: ys) ++ t =
        '[' :: '\n' :: ' ' :: ' ' :: '"' :: (rest ++ ("\n]".toList ++ t)) := by
      simp [arrayText, hrest]
    rw [← hitems, hrest, htext]
    rfl

theorem Template.readRules_eq (T : Template) {proxy : Text}
    (hbodies : ∀ y ∈ bodies, closed false y = true) :
    T.readRules proxy (";\n\nvar rules = ".toList ++ (arrayText bodies ++
      (";".toList ++ T.engine))) = (bodies.mapM decode).map fun rules => ⟨proxy, rules⟩ := by
  simp only [readRules, dropPrefix_append, readArray_arrayText hbodies, Option.bind_eq_bind,
    Option.bind_some]
  cases bodies.mapM decode with
  | none => rfl
  | some values =>
    change ((";".toList ++ T.engine).dropPrefix? ";".toList).bind _ = _
    rw [dropPrefix_append, Option.bind_some, if_pos rfl]
    rfl

theorem Template.readRules_proxy (T : Template) {proxy text : Text} {script : Script}
    (h : T.readRules proxy text = some script) : script.proxy = proxy := by
  simp only [readRules, Option.bind_eq_bind, Option.bind_eq_some_iff] at h
  obtain ⟨t, -, p, -, t', -, h⟩ := h
  split at h
  · cases h
    rfl
  · cases h

theorem Template.read_layout (T : Template) (address rules : Text) :
    T.read (T.layout address rules) =
      (literal (proxyString address ++ '"' :: (";\n\nvar rules = ".toList ++
        (rules ++ (";".toList ++ T.engine))))).bind fun p =>
          (decode p.1).bind fun proxy => T.readRules proxy p.2 := by
  simp only [read, layout, dropPrefix_append, Option.bind_eq_bind, Option.bind_some]
  rfl

theorem proxyString_unescaped {address : Text} :
    (∀ c ∈ proxyString address, Unescaped c) ↔ ∀ c ∈ address, Unescaped c := by
  have hfirst : ∀ c ∈ "SOCKS5 ".toList, Unescaped c := forall_of_all (by decide +kernel)
  have hsecond : ∀ c ∈ "; SOCKS ".toList, Unescaped c := forall_of_all (by decide +kernel)
  have hthird : ∀ c ∈ "; DIRECT;".toList, Unescaped c := forall_of_all (by decide +kernel)
  constructor
  · intro h c hc
    exact h c (List.mem_append_right _ (List.mem_append_left _ hc))
  · intro h
    exact List.forall_mem_append.mpr ⟨hfirst, List.forall_mem_append.mpr
      ⟨h, List.forall_mem_append.mpr ⟨hsecond, List.forall_mem_append.mpr ⟨h, hthird⟩⟩⟩⟩

/-- Plain text comes back, with the rules. -/
theorem Template.read_layout_eq (T : Template) {address : Text}
    (haddress : ∀ c ∈ address, Unescaped c) (hbodies : ∀ y ∈ bodies, closed false y = true) :
    T.read (T.layout address (arrayText bodies)) =
      (bodies.mapM decode).map fun rules => ⟨proxyString address, rules⟩ := by
  have hplain := proxyString_unescaped.mpr haddress
  have hclosed : closed false (proxyString address) = true := by
    have := (closed_append (t := []) hplain).1
    rwa [List.append_nil] at this
  have hdecode : decode (proxyString address) = some (proxyString address) := by
    have := Reading.decode_plain_append (t := []) hplain
    rw [List.append_nil, Reading.decode_nil, Option.map_some, List.append_nil] at this
    exact this
  rw [read_layout, literal, literalFrom_closed hclosed, Option.bind_some, hdecode,
    Option.bind_some, T.readRules_eq hbodies]

/-- An address that is read as it stands is plain text. -/
theorem Template.unescaped_of_read (T : Template) {address text : Text} {script : Script}
    (h : T.read (T.layout address text) = some script)
    (hproxy : script.proxy = proxyString address) :
    ∀ c ∈ address, Unescaped c := by
  rw [read_layout] at h
  obtain ⟨⟨body, rest⟩, hliteral, h⟩ := Option.bind_eq_some_iff.mp h
  obtain ⟨proxy, hdecode, h⟩ := Option.bind_eq_some_iff.mp h
  obtain rfl : proxy = proxyString address := by
    rw [← hproxy]
    exact (T.readRules_proxy h).symm
  obtain ⟨front, hfront⟩ : ∃ front, proxyString address = front ++ [';'] := by
    have hlast : "; DIRECT;".toList = "; DIRECT".toList ++ [';'] := by decide +kernel
    have happend : ∀ a b x t u : Text,
        a ++ (x ++ (b ++ (x ++ (t ++ u)))) = (a ++ (x ++ (b ++ (x ++ t)))) ++ u := by
      intro a b x t u
      simp only [List.append_assoc]
    refine ⟨"SOCKS5 ".toList ++ (address ++ ("; SOCKS ".toList ++ (address ++
      "; DIRECT".toList))), ?_⟩
    have hproxy : proxyString address = "SOCKS5 ".toList ++ (address ++ ("; SOCKS ".toList ++
        (address ++ ("; DIRECT".toList ++ [';'])))) := by
      unfold proxyString
      rw [hlast]
    exact hproxy.trans (happend _ _ _ _ _)
  have htext := literalFrom_append hliteral
  have hle : body.length ≤ (proxyString address).length := by
    rw [hfront] at hliteral ⊢
    exact literalFrom_length (by decide) hliteral
  have hlength := Reading.decode_length hdecode
  simp only [Reading.pending, Reading.owed] at hlength
  have hbody : body = proxyString address :=
    ((List.append_inj htext (by omega)).1).symm
  apply proxyString_unescaped.mp
  rw [← hbody]
  exact unescaped_of_weight hliteral hdecode (by omega)

end Shadowsocks
