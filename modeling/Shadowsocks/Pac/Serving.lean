import Shadowsocks.Pac.Update

/-! The PAC file as it is served, with the address of the proxy replaced in it. -/
namespace Shadowsocks

variable {F : Foundation} {T : Template} {needle new a b t : Text} {rules bodies : List Text}
  {stored served : Bytes} {header userRule : Option Text} {responseObject : Bytes}

/-- The handlers of `/proxy.pac` and `/auto-proxy.pac` take their own port off the header. -/
def Foundation.requestHost (F : Foundation) (header : Option Text) : Option Text :=
  header.map (F.replacing ":8090".toList [])

/-- `autoPACData:` reads the PAC file, or what the program brought when there is none. -/
def Foundation.autoPACData (F : Foundation) (file : Option Bytes) (originalPACData : Bytes)
    (host : Option Text) : Option Bytes :=
  match stringWithData (file.getD originalPACData), host with
  | none, _ => none
  -- Replacing by nothing raises, and the web server answers without a document.
  | some _, none => none
  | some pacString, some host => some (utf8 (F.replacing "127.0.0.1".toList host pacString))

/-- The document for a request with this `Host` header. -/
def Foundation.proxyPac (F : Foundation) (file : Option Bytes) (originalPACData : Bytes)
    (header : Option Text) : Option Bytes :=
  F.autoPACData file originalPACData (F.requestHost header)

def Foundation.iosPacData (F : Foundation) (pacData : Bytes) : Option Bytes :=
  (stringWithData pacData).map fun pacString =>
    utf8 (F.replacing ":1080".toList ":9180".toList pacString)

/-- The served script has the rules of the stored one, and its proxy string names the address. -/
def Template.Keeps (T : Template) (stored served : Bytes) (address : Text) : Prop :=
  ∃ script, T.readData stored = some script ∧
    T.readData served = some ⟨proxyString address, script.rules⟩

/-- A request is answered with the stored script for the host in its header. -/
def Foundation.ServesHost (F : Foundation) (T : Template) (stored originalPACData : Bytes)
    (header : Option Text) : Prop :=
  ∃ host served, F.requestHost header = some host ∧
    F.proxyPac (some stored) originalPACData header = some served ∧
    T.Keeps stored served (host ++ ":1080".toList)

/-- The phone serves the stored script for its own port. -/
def Foundation.ServesPort (F : Foundation) (T : Template) (stored : Bytes) : Prop :=
  ∃ served, F.iosPacData stored = some served ∧ T.Keeps stored served "127.0.0.1:9180".toList

/-- No rule has the text in it, as it is written in the script. -/
def Foundation.Free (F : Foundation) (rules : List Text) (needle : Text) : Prop :=
  ∀ rule ∈ rules, ¬ F.Contains (escape rule) needle

/-- The characters of a script around its addresses and its rules. -/
def frameCharacters : Text := "var poxy=\"SOCK5;DIRET\nules[],".toList

def isFrame (text : Text) : Bool := text.all fun c => decide (c ∈ frameCharacters)

/-- A text that none of these characters is part of. -/
structure Foundation.Framed (F : Foundation) (needle : Text) : Prop where
  address : Address needle
  placeholder : needle ∈ placeholders
  frame : ∀ c ∈ frameCharacters, c ∉ needle ∧ F.combining c = false

theorem Foundation.framed_loopback (hF : F.Lawful) : F.Framed "127.0.0.1".toList where
  address := ⟨by decide +kernel, forall_of_all (by decide +kernel)⟩
  placeholder := by decide +kernel
  frame := by
    have hall : ∀ c ∈ frameCharacters, c ∉ "127.0.0.1".toList ∧ c.toNat < 128 :=
      forall_of_all (by decide +kernel)
    exact fun c hc => ⟨(hall c hc).1, hF.combining_ascii c (hall c hc).2⟩

theorem Foundation.framed_port (hF : F.Lawful) : F.Framed ":1080".toList where
  address := ⟨by decide +kernel, forall_of_all (by decide +kernel)⟩
  placeholder := by decide +kernel
  frame := by
    have hall : ∀ c ∈ frameCharacters, c ∉ ":1080".toList ∧ c.toNat < 128 :=
      forall_of_all (by decide +kernel)
    exact fun c hc => ⟨(hall c hc).1, hF.combining_ascii c (hall c hc).2⟩

namespace Foundation.Framed

theorem pos (h : F.Framed needle) : 0 < needle.length := Nat.zero_lt_of_lt h.address.length

theorem replacing_frame (h : F.Framed needle) {frame : Text}
    (hframe : isFrame frame = true) :
    F.replacing needle new (frame ++ b) = frame ++ F.replacing needle new b :=
  Foundation.replacing_frame h.pos fun c hc => h.frame c (forall_of_all hframe c hc)

theorem replacing_append (h : F.Framed needle) {frame : Text} (hne : frame ≠ [])
    (hframe : isFrame frame = true) :
    F.replacing needle new (a ++ (frame ++ b)) =
      F.replacing needle new a ++ (frame ++ F.replacing needle new b) :=
  Foundation.replacing_append_frame h.pos hne fun c hc => h.frame c (forall_of_all hframe c hc)

theorem replacing_arrayItems (h : F.Framed needle) : F.replacing needle new
    (arrayItems bodies ++ ("\n]".toList ++ b)) = arrayItems (bodies.map (F.replacing needle new)) ++
      ("\n]".toList ++ F.replacing needle new b) := by
  have hopen : isFrame "  \"".toList = true := by decide +kernel
  have hclose : isFrame "\"".toList = true := by decide +kernel
  have hnext : isFrame "\",\n".toList = true := by decide +kernel
  have hend : isFrame "\n]".toList = true := by decide +kernel
  induction bodies with
  | nil => exact h.replacing_frame hend
  | cons y ys ih =>
    cases ys with
    | nil =>
      have htext : arrayItems [y] ++ ("\n]".toList ++ b) =
          "  \"".toList ++ (y ++ ("\"".toList ++ ("\n]".toList ++ b))) := by
        rw [arrayItems, List.append_assoc, List.append_assoc]
      rw [htext, h.replacing_frame hopen, h.replacing_append (by decide) hclose,
        h.replacing_frame hend]
      simp only [List.map_cons, List.map_nil, arrayItems, List.append_assoc]
    | cons y' ys =>
      have htext : arrayItems (y :: y' :: ys) ++ ("\n]".toList ++ b) = "  \"".toList ++
          (y ++ ("\",\n".toList ++ (arrayItems (y' :: ys) ++ ("\n]".toList ++ b)))) := by
        have hitems : arrayItems (y :: y' :: ys) =
          "  \"".toList ++ (y ++ ("\",\n".toList ++ arrayItems (y' :: ys))) := rfl
        rw [hitems, List.append_assoc, List.append_assoc, List.append_assoc]
      rw [htext, h.replacing_frame hopen, h.replacing_append (by decide) hnext, ih]
      simp only [List.map_cons, arrayItems, List.append_assoc]

theorem replacing_layout (h : F.Framed needle) {address : Text} :
    F.replacing needle new (T.layout address (arrayText bodies)) =
      T.layout (F.replacing needle new address)
        (arrayText (bodies.map (F.replacing needle new))) := by
  have hdeclaration : isFrame "var proxy = \"".toList = true := by decide +kernel
  have hfirst : isFrame "SOCKS5 ".toList = true := by decide +kernel
  have hsecond : isFrame "; SOCKS ".toList = true := by decide +kernel
  have hthird : isFrame "; DIRECT;".toList = true := by decide +kernel
  have hrules : isFrame "\";\n\nvar rules = ".toList = true := by decide +kernel
  have hopen : isFrame "[\n".toList = true := by decide +kernel
  have hend : isFrame ";".toList = true := by decide +kernel
  have hbefore : F.replacing needle new T.before = T.before :=
    replacing_eq_self fun hc => T.before_plain needle h.placeholder (within_of_contains hc)
  have hengine : F.replacing needle new T.engine = T.engine :=
    replacing_eq_self fun hc => T.engine_plain needle h.placeholder (within_of_contains hc)
  unfold Template.layout proxyString arrayText
  simp only [List.append_assoc]
  rw [h.replacing_append (by decide) hdeclaration, hbefore, h.replacing_frame hfirst,
    h.replacing_append (by decide) hsecond, h.replacing_append (by decide) hthird,
    h.replacing_frame hrules, h.replacing_frame hopen, h.replacing_arrayItems,
    h.replacing_frame hend, hengine]

end Foundation.Framed

/-- The file that is written: the template with the rules in it. -/
theorem Foundation.replacing_text (hF : F.Lawful) (T : Template) (rules : Text) :
    F.replacing "__RULES__".toList rules T.text = T.layout "127.0.0.1:1080".toList rules := by
  obtain ⟨middle, hmiddle, hfree⟩ : ∃ middle, "var proxy = \"".toList ++
      (proxyString "127.0.0.1:1080".toList ++ "\";\n\nvar rules = ".toList) =
        'v' :: (middle ++ [' ']) ∧ '_' ∉ middle := by
    refine ⟨"ar proxy = \"SOCKS5 127.0.0.1:1080; SOCKS 127.0.0.1:1080; DIRECT;\";\n\nvar rules ="
      |>.toList, ?_, ?_⟩ <;> decide +kernel
  have hlayout : ∀ rules, T.layout "127.0.0.1:1080".toList rules =
      T.before ++ 'v' :: (middle ++ ' ' :: (rules ++ ';' :: T.engine)) := by
    intro rules
    have htext : T.layout "127.0.0.1:1080".toList rules = T.before ++
        (("var proxy = \"".toList ++ (proxyString "127.0.0.1:1080".toList ++
          "\";\n\nvar rules = ".toList)) ++ (rules ++ (";".toList ++ T.engine))) := by
      unfold Template.layout
      simp only [List.append_assoc]
    rw [htext, hmiddle]
    simp
  have hpos : 0 < "__RULES__".toList.length := by decide
  have hseparates : ∀ c ∈ ['v', ' ', ';'], c ∉ "__RULES__".toList ∧ c.toNat < 128 :=
    forall_of_all (by decide +kernel)
  have hplain : ∀ c ∈ ['v', ' ', ';'], F.combining c = false :=
    fun c hc => hF.combining_ascii c (hseparates c hc).2
  have hmem : "__RULES__".toList ∈ placeholders := by decide +kernel
  have hbefore : F.replacing "__RULES__".toList rules T.before = T.before :=
    Foundation.replacing_eq_self fun hc =>
      T.before_plain _ hmem (Foundation.within_of_contains hc)
  have hengine : F.replacing "__RULES__".toList rules T.engine = T.engine :=
    Foundation.replacing_eq_self fun hc =>
      T.engine_plain _ hmem (Foundation.within_of_contains hc)
  have hmiddle : F.replacing "__RULES__".toList rules middle = middle := by
    apply Foundation.replacing_eq_self
    intro hc
    obtain ⟨s, u, rfl⟩ := Foundation.within_of_contains hc
    exact hfree (List.mem_append_left _ (List.mem_append_right _ (by decide +kernel)))
  rw [Template.text, hlayout, hlayout,
    Foundation.replacing_separator hpos (hseparates 'v' (by decide)).1 (hplain 'v' (by decide)),
    Foundation.replacing_separator hpos (hseparates ' ' (by decide)).1 (hplain ' ' (by decide)),
    Foundation.replacing_separator hpos (hseparates ';' (by decide)).1 (hplain ';' (by decide)),
    hbefore, hmiddle, hengine, Foundation.replacing_self hpos]

theorem Foundation.updatePACFromGFWList_eq (hF : F.Lawful)
    (hrules : F.downloadedRules responseObject userRule = some rules) :
    F.updatePACFromGFWList T responseObject userRule =
      some (utf8 (T.layout "127.0.0.1:1080".toList (arrayText (rules.map escape)))) := by
  simp only [updatePACFromGFWList, hrules, dataWithJSONObject, stringWithData_utf8,
    Option.bind_eq_bind, Option.bind_some, replacing_text hF]

theorem mapM_map_eq_some {f : Text → Text} :
    (rules.map f).mapM decode = some rules ↔ ∀ rule ∈ rules, decode (f rule) = some rule := by
  induction rules with
  | nil => simp
  | cons rule rules ih =>
    rw [List.map_cons, List.mapM_cons, List.forall_mem_cons, ← ih]
    cases decode (f rule) with
    | none => simp
    | some value =>
      cases (rules.map f).mapM decode with
      | none => simp
      | some values => simp

/-- Replacing a part of the address keeps the rules when it is plain text that no rule has in it. -/
theorem Foundation.read_replacing_iff (h : F.Framed needle) (new address : Text)
    (hrules : ∀ rule ∈ rules, ∀ c ∈ rule, c ∉ newlineCharacterSet)
    (hnew : (∀ c ∈ F.replacing needle new address, Unescaped c) → ∀ c ∈ new, Unescaped c) :
    T.read (F.replacing needle new (T.layout address (arrayText (rules.map escape)))) =
        some ⟨proxyString (F.replacing needle new address), rules⟩ ↔
      (∀ c ∈ F.replacing needle new address, Unescaped c) ∧
        (new = needle ∨ F.Free rules needle) := by
  have hvalue : ∀ rule ∈ rules, (∀ c ∈ new, Unescaped c) →
      (decode (F.replacing needle new (escape rule)) = some rule ↔
        new = needle ∨ ¬ F.Contains (escape rule) needle) := by
    intro rule hrule hplain
    apply decode_replacing_iff h.address hplain
    intro c hc
    have hnewline := hrules rule hrule c hc
    constructor
    · rintro rfl
      exact hnewline (by decide)
    · rintro rfl
      exact hnewline (by decide)
  have hread : (∀ c ∈ F.replacing needle new address, Unescaped c) →
      (T.read (T.layout (F.replacing needle new address)
          (arrayText ((rules.map escape).map (F.replacing needle new)))) =
        some ⟨proxyString (F.replacing needle new address), rules⟩ ↔
      new = needle ∨ F.Free rules needle) := by
    intro hplain
    have hclosed : ∀ y ∈ rules.map (F.replacing needle new ∘ escape), closed false y = true := by
      intro y hy
      obtain ⟨rule, -, rfl⟩ := List.mem_map.mp hy
      exact (closed_replacing h.address (hnew hplain) _ false (closed_escape rule)).1
    rw [List.map_map, T.read_layout_eq hplain hclosed]
    have hscript : ((rules.map (F.replacing needle new ∘ escape)).mapM decode).map
          (Script.mk (proxyString (F.replacing needle new address))) =
        some ⟨proxyString (F.replacing needle new address), rules⟩ ↔
        (rules.map (F.replacing needle new ∘ escape)).mapM decode = some rules := by
      rw [Option.map_eq_some_iff]
      constructor
      · rintro ⟨values, hvalues, heq⟩
        cases heq
        exact hvalues
      · exact fun hvalues => ⟨rules, hvalues, rfl⟩
    rw [hscript, mapM_map_eq_some]
    constructor
    · intro hdecode
      by_cases heq : new = needle
      · exact Or.inl heq
      · right
        intro rule hrule
        exact ((hvalue rule hrule (hnew hplain)).mp (hdecode rule hrule)).resolve_left heq
    · intro hfree rule hrule
      exact (hvalue rule hrule (hnew hplain)).mpr (hfree.imp_right fun hfree => hfree rule hrule)
  rw [h.replacing_layout]
  constructor
  · intro hscript
    have hplain := T.unescaped_of_read hscript rfl
    exact ⟨hplain, (hread hplain).mp hscript⟩
  · rintro ⟨hplain, hfree⟩
    exact (hread hplain).mpr hfree

/-- The rules in the file are those that were downloaded. -/
theorem Foundation.readData_stored (hF : F.Lawful)
    (hrules : F.downloadedRules responseObject userRule = some rules)
    (hstored : F.updatePACFromGFWList T responseObject userRule = some stored) :
    T.readData stored = some ⟨proxyString "127.0.0.1:1080".toList, rules⟩ := by
  have hloopback := framed_loopback hF
  rw [updatePACFromGFWList_eq hF hrules] at hstored
  cases hstored
  have hread := (read_replacing_iff (T := T) hloopback "127.0.0.1".toList "127.0.0.1:1080".toList
    (fun rule hrule => downloadedRules_newline hrules hrule)
    (fun _ => hloopback.address.unescaped)).mpr
  rw [replacing_same hloopback.pos, replacing_same hloopback.pos] at hread
  rw [Template.readData, stringWithData_utf8, Option.bind_some]
  exact hread ⟨forall_of_all (by decide +kernel), Or.inl rfl⟩

theorem Foundation.replacing_loopback (hF : F.Lawful) (host : Text) :
    F.replacing "127.0.0.1".toList host "127.0.0.1:1080".toList = host ++ ":1080".toList := by
  have haddress : "127.0.0.1:1080".toList = "127.0.0.1".toList ++ ':' :: "1080".toList := by
    decide +kernel
  have hport : F.replacing "127.0.0.1".toList host "1080".toList = "1080".toList :=
    replacing_eq_self fun hc => absurd (within_of_contains hc) (by decide +kernel)
  rw [haddress, replacing_separator (by decide) (by decide +kernel)
    (hF.combining_ascii ':' (by decide)), replacing_self (by decide), hport]
  rfl

theorem Foundation.replacing_port :
    F.replacing ":1080".toList ":9180".toList "127.0.0.1:1080".toList =
      "127.0.0.1:9180".toList := by
  have haddress : "127.0.0.1:1080".toList = "127.0.0.1".toList ++ (':' :: "1080".toList) := by
    decide +kernel
  have hport : ":1080".toList = ':' :: "1080".toList := by decide +kernel
  rw [haddress, hport, replacing_append_needle (by decide +kernel)]
  decide +kernel

/-- Serving keeps the rules exactly for a plain host that takes the place of nothing else. -/
theorem Foundation.servesHost_iff (hF : F.Lawful) {originalPACData : Bytes}
    (hrules : F.downloadedRules responseObject userRule = some rules)
    (hstored : F.updatePACFromGFWList T responseObject userRule = some stored) :
    F.ServesHost T stored originalPACData header ↔
      ∃ host, F.requestHost header = some host ∧ (∀ c ∈ host, Unescaped c) ∧
        (host = "127.0.0.1".toList ∨ F.Free rules "127.0.0.1".toList) := by
  have hscript := readData_stored hF hrules hstored
  have hserved : ∀ host, F.requestHost header = some host →
      F.proxyPac (some stored) originalPACData header =
        some (utf8 (F.replacing "127.0.0.1".toList host
          (T.layout "127.0.0.1:1080".toList (arrayText (rules.map escape))))) := by
    intro host hhost
    rw [updatePACFromGFWList_eq hF hrules] at hstored
    cases hstored
    simp only [proxyPac, hhost, autoPACData, Option.getD_some, stringWithData_utf8]
  have hplain : ∀ host : Text, (∀ c ∈ host ++ ":1080".toList, Unescaped c) ↔
      ∀ c ∈ host, Unescaped c := by
    intro host
    have hport : ∀ c ∈ ":1080".toList, Unescaped c := forall_of_all (by decide +kernel)
    exact ⟨fun h c hc => h c (List.mem_append_left _ hc),
      fun h => List.forall_mem_append.mpr ⟨h, hport⟩⟩
  have hread : ∀ host, T.read (F.replacing "127.0.0.1".toList host
        (T.layout "127.0.0.1:1080".toList (arrayText (rules.map escape)))) =
          some ⟨proxyString (host ++ ":1080".toList), rules⟩ ↔
      (∀ c ∈ host, Unescaped c) ∧ (host = "127.0.0.1".toList ∨
        F.Free rules "127.0.0.1".toList) := by
    intro host
    have hiff := read_replacing_iff (T := T) (framed_loopback hF) host "127.0.0.1:1080".toList
      fun rule hrule => downloadedRules_newline hrules hrule
    rw [replacing_loopback hF, hplain] at hiff
    exact hiff fun h => h
  constructor
  · rintro ⟨host, served, hhost, hserve, script, hstoredScript, hservedScript⟩
    rw [hscript] at hstoredScript
    cases hstoredScript
    rw [hserved host hhost] at hserve
    cases hserve
    rw [Template.readData, stringWithData_utf8, Option.bind_some] at hservedScript
    exact ⟨host, hhost, (hread host).mp hservedScript⟩
  · rintro ⟨host, hhost, hkeeps⟩
    refine ⟨host, _, hhost, hserved host hhost, _, hscript, ?_⟩
    rw [Template.readData, stringWithData_utf8, Option.bind_some]
    exact (hread host).mpr hkeeps

theorem Foundation.servesPort_iff (hF : F.Lawful)
    (hrules : F.downloadedRules responseObject userRule = some rules)
    (hstored : F.updatePACFromGFWList T responseObject userRule = some stored) :
    F.ServesPort T stored ↔ F.Free rules ":1080".toList := by
  have hscript := readData_stored hF hrules hstored
  have hserved : F.iosPacData stored = some (utf8 (F.replacing ":1080".toList ":9180".toList
      (T.layout "127.0.0.1:1080".toList (arrayText (rules.map escape))))) := by
    rw [updatePACFromGFWList_eq hF hrules] at hstored
    cases hstored
    rw [iosPacData, stringWithData_utf8]
    rfl
  have hread : T.read (F.replacing ":1080".toList ":9180".toList
        (T.layout "127.0.0.1:1080".toList (arrayText (rules.map escape)))) =
          some ⟨proxyString "127.0.0.1:9180".toList, rules⟩ ↔
      F.Free rules ":1080".toList := by
    have hiff := read_replacing_iff (T := T) (framed_port hF) ":9180".toList
      "127.0.0.1:1080".toList
      (fun rule hrule => downloadedRules_newline hrules hrule)
      (fun _ => forall_of_all (by decide +kernel))
    rw [replacing_port] at hiff
    rw [hiff]
    constructor
    · rintro ⟨-, hport | hfree⟩
      · exact absurd hport (by decide +kernel)
      · exact hfree
    · exact fun hfree => ⟨forall_of_all (by decide +kernel), Or.inr hfree⟩
  constructor
  · rintro ⟨served, hserve, script, hstoredScript, hservedScript⟩
    rw [hscript] at hstoredScript
    cases hstoredScript
    rw [hserved] at hserve
    cases hserve
    rw [Template.readData, stringWithData_utf8, Option.bind_some] at hservedScript
    exact hread.mp hservedScript
  · intro hfree
    refine ⟨_, hserved, _, hscript, ?_⟩
    rw [Template.readData, stringWithData_utf8, Option.bind_some]
    exact hread.mpr hfree

/-- Which requests get the stored rules, and which rules the phone serves. -/
theorem Foundation.serves_iff (hF : F.Lawful) (originalPACData : Bytes) (header : Option Text)
    (hrules : F.downloadedRules responseObject userRule = some rules)
    (hstored : F.updatePACFromGFWList T responseObject userRule = some stored) :
    (F.ServesHost T stored originalPACData header ↔
      ∃ host, F.requestHost header = some host ∧ (∀ c ∈ host, Unescaped c) ∧
        (host = "127.0.0.1".toList ∨ F.Free rules "127.0.0.1".toList)) ∧
    (F.ServesPort T stored ↔ F.Free rules ":1080".toList) :=
  ⟨servesHost_iff hF hrules hstored, servesPort_iff hF hrules hstored⟩

/-- The first lines of `abp.js`, with nothing behind its declarations. -/
def Template.declarations : Template where
  before :=
    ("// Generated by gfwlist2pac in precise mode\n" ++
      "// https://github.com/clowwindy/gfwlist2pac\n\n").toList
  engine := "\n".toList
  before_plain := by decide +kernel
  engine_plain := by decide +kernel

/-- A list as it is downloaded. -/
def gfwlist (lines : Text) : Bytes := utf8 (base64Encoding (utf8 lines))

theorem Foundation.downloadedRules_gfwlist (lines : Text) :
    Foundation.reference.downloadedRules (gfwlist lines) none =
      some (filteredLines (some lines) none) := by
  have hdecode := Foundation.lawful_reference.decode_encode (utf8 lines)
  simp only [downloadedRules, gfwlist, stringWithData_utf8, Option.bind_eq_bind, Option.bind_some,
    hdecode]

theorem Foundation.serves_iff_plain : ∃ stored,
    Foundation.reference.updatePACFromGFWList Template.declarations
      (gfwlist "||a.com\n!b".toList) none = some stored ∧
    Foundation.reference.ServesHost Template.declarations stored []
      (some "10.0.0.2:8090".toList) ∧
    Foundation.reference.ServesPort Template.declarations stored := by
  have hlines : filteredLines (some "||a.com\n!b".toList) none = ["||a.com".toList] := by
    decide +kernel
  have hrules := downloadedRules_gfwlist "||a.com\n!b".toList
  rw [hlines] at hrules
  have hstored := updatePACFromGFWList_eq (T := Template.declarations) lawful_reference hrules
  have hfree : ∀ needle, ¬ needle <:+: escape "||a.com".toList →
      Foundation.reference.Free ["||a.com".toList] needle := by
    intro needle hneedle rule hrule
    rw [List.mem_singleton.mp hrule]
    exact fun hc => hneedle (within_of_contains hc)
  obtain ⟨hhost, hport⟩ :=
    serves_iff lawful_reference [] (some "10.0.0.2:8090".toList) hrules hstored
  refine ⟨_, hstored, hhost.mpr ⟨"10.0.0.2".toList, ?_, ?_, ?_⟩, hport.mpr ?_⟩
  · decide +kernel
  · exact forall_of_all (by decide +kernel)
  · exact Or.inr (hfree _ (by decide +kernel))
  · exact hfree _ (by decide +kernel)

/-- A rule for the loopback address turns into one for the address of the client. -/
theorem Foundation.not_serves_loopback : ∃ stored,
    Foundation.reference.updatePACFromGFWList Template.declarations
      (gfwlist "||127.0.0.1/x".toList) none = some stored ∧
    ¬ Foundation.reference.ServesHost Template.declarations stored []
      (some "10.0.0.2:8090".toList) := by
  have hlines : filteredLines (some "||127.0.0.1/x".toList) none = ["||127.0.0.1/x".toList] := by
    decide +kernel
  have hrules := downloadedRules_gfwlist "||127.0.0.1/x".toList
  rw [hlines] at hrules
  have hstored := updatePACFromGFWList_eq (T := Template.declarations) lawful_reference hrules
  refine ⟨_, hstored, ?_⟩
  rw [servesHost_iff lawful_reference hrules hstored]
  rintro ⟨host, hhost, -, hkeeps⟩
  have hhost' : Foundation.reference.requestHost (some "10.0.0.2:8090".toList) =
      some "10.0.0.2".toList := by decide +kernel
  rw [hhost'] at hhost
  cases hhost
  rcases hkeeps with heq | hfree
  · exact absurd heq (by decide +kernel)
  · apply hfree _ List.mem_cons_self
    refine ⟨"||".toList, "127.0.0.1\\/x".toList, ?_, ?_, ?_⟩ <;> decide +kernel

end Shadowsocks
