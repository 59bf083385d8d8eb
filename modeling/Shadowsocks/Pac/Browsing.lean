import Shadowsocks.Library.Run
import Shadowsocks.Pac.Malformed
import Shadowsocks.Pac.Storing

/-!
The PAC file from the menu to the browser. Whatever happened before an update and whatever spares
its file afterwards, the document that is served answers as the rules of the update do.
-/
namespace Shadowsocks

open Raising

/-- The two files in `~/.ShadowsocksX`. -/
structure ConfigDirectory where
  pac : Option Bytes
  userRule : Option Bytes

/-- What is at `configPath`. -/
structure PacFiles where
  configPath : Option ConfigDirectory

def PacFiles.pac (s : PacFiles) : Option Bytes := s.configPath.bind ConfigDirectory.pac

def PacFiles.userRule (s : PacFiles) : Option Bytes := s.configPath.bind ConfigDirectory.userRule

/-- `createDirectoryAtPath:`, which leaves a directory that is there. -/
def PacFiles.createDirectory (s : PacFiles) : PacFiles := ⟨some (s.configPath.getD ⟨none, none⟩)⟩

/-- `writeToFile:` for `PACPath`. Without the directory nothing is written. -/
def PacFiles.writePAC (s : PacFiles) (data : Bytes) : PacFiles :=
  ⟨s.configPath.map fun directory => { directory with pac := some data }⟩

/-- `writeToFile:` for `userRulePath`. -/
def PacFiles.writeUserRule (s : PacFiles) (data : Bytes) : PacFiles :=
  ⟨s.configPath.map fun directory => { directory with userRule := some data }⟩

/-- What a new `user-rule.txt` says. -/
def userRuleComment : Text :=
  ("! Put user rules line by line in this file.\n" ++
    "! See https://adblockplus.org/en/filter-cheatsheet\n").toList

def PacFiles.editPAC (s : PacFiles) (originalPACData : Bytes) : PacFiles :=
  match s.pac with
  | some _ => s
  | none => s.createDirectory.writePAC originalPACData

def PacFiles.editUserRule (s : PacFiles) : PacFiles :=
  match s.userRule with
  | some _ => s
  | none => s.createDirectory.writeUserRule (utf8 userRuleComment)

/-- The blocks that `updatePACFromGFWList` hands over, for a response or for a failure. The user's
rules are read when the response is there. -/
def PacFiles.updatePACFromGFWList (F : Foundation) (T : Template) (s : PacFiles)
    (response : Option Bytes) : PacFiles :=
  match response with
  | none => s
  | some responseObject =>
    match F.updatePACFromGFWList T responseObject (s.userRule.bind stringWithData) with
    | none => s
    | some written => s.writePAC written

/-- What happens to the files: the three items of the menu, and what the user does himself. -/
inductive PacEvent where
  | editPAC
  | editUserRule
  | updatePACFromGFWList (response : Option Bytes)
  | outside (configPath : Option ConfigDirectory)

def PacFiles.step (F : Foundation) (T : Template) (originalPACData : Bytes) (s : PacFiles) :
    PacEvent → PacFiles
  | .editPAC => s.editPAC originalPACData
  | .editUserRule => s.editUserRule
  | .updatePACFromGFWList response => s.updatePACFromGFWList F T response
  | .outside configPath => ⟨configPath⟩

/-- The data that `autoPACData:` starts from. -/
def PacFiles.document (s : PacFiles) (originalPACData : Bytes) : Bytes := s.pac.getD originalPACData

/-- `FindProxyForURL` of a script with this value of `proxy`. -/
def Engine.findProxyWith (E : Engine) (proxy : JsString) (g : PacGlobals)
    (query : JsString × JsString) : Except JsError (JsString × PacGlobals) := do
  let (result, g) ← E.matchesAny g query.1 query.2
  .ok (if (result.bind g.knownFilters).any Filter.isBlocking then proxy else direct, g)

/-- A browser runs a script, and asks it about one address after the other. -/
def Engine.browse (E : Engine) (script : Script) (queries : List (JsString × JsString)) :
    Except JsError (List JsString) := do
  let g ← E.load (script.rules.map utf16)
  let (answers, _) ← run (E.findProxyWith (utf16 script.proxy)) g queries
  .ok answers

/-- No rule meets a malformed one that is alone under its keyword, and no query asks a filter that
raises an exception. -/
def Engine.Peaceful (E : Engine) (rules : List JsString) (queries : List (JsString × JsString)) :
    Prop :=
  Along E.addRule E.Addable PacGlobals.new rules ∧
    ∀ g, E.load rules = .ok g → Along (next E.ask) E.Quiet g queries

/-- What a scan of the rules answers, with this address for the proxy. -/
def Engine.direction (E : Engine) (address : Text) (rules : List JsString)
    (query : JsString × JsString) : JsString :=
  if E.scan rules query = proxy then utf16 (proxyString address) else direct

/-- The lines of a text that are rules. -/
def ruleLines (str : Text) : List Text :=
  (componentsSeparatedByCharactersInSet newlineCharacterSet str).filter isRule

/-- The document is a script with these lines for its rules. A browser that loads it is sent where a
scan of the rules sends it, unless the script raises an exception. -/
def Engine.Directs (E : Engine) (T : Template) (served : Bytes) (address : Text)
    (lines : List Text) (queries : List (JsString × JsString)) : Prop :=
  ∃ script, T.readData served = some script ∧ script.rules = lines ∧
    ((∃ answers, E.browse script queries = .ok answers) ↔
      E.Peaceful (lines.map utf16) queries) ∧
    ∀ answers, E.browse script queries = .ok answers →
      answers = queries.map (E.direction address (lines.map utf16))

/-- The event does not put another document in the place of this one. -/
def PacEvent.Spares (F : Foundation) (originalPACData : Bytes) (s : PacFiles) : PacEvent → Prop
  | .editPAC => True
  | .editUserRule => True
  | .updatePACFromGFWList response =>
    ∀ responseObject, response = some responseObject → ∀ data, ¬ F.Encodes responseObject data
  | .outside configPath =>
    (PacFiles.mk configPath).document originalPACData = s.document originalPACData

variable {F : Foundation} {T : Template} {E : Engine} {s : PacFiles} {event : PacEvent}
  {originalPACData responseObject data : Bytes} {rules : List JsString} {g : PacGlobals}
  {queries : List (JsString × JsString)} {header : Option Text} {host : Text}

theorem PacFiles.proxyPac_document (s : PacFiles) (header : Option Text) :
    F.proxyPac (some (s.document originalPACData)) originalPACData header =
      F.proxyPac s.pac originalPACData header := by
  simp only [Foundation.proxyPac, Foundation.autoPACData, Option.getD_some, document]

/-- The copy that is made for the user is what was served without it. -/
theorem PacFiles.document_editPAC (s : PacFiles) :
    (s.editPAC originalPACData).document originalPACData = s.document originalPACData := by
  rw [editPAC]
  cases hpac : s.pac with
  | some data => rfl
  | none =>
    rw [document, document, hpac]
    rfl

theorem PacFiles.pac_editUserRule (s : PacFiles) : s.editUserRule.pac = s.pac := by
  rw [editUserRule]
  cases hrule : s.userRule with
  | some data => rfl
  | none =>
    obtain ⟨_ | directory⟩ := s <;> rfl

/-- A response that is no base64 changes nothing. -/
theorem PacFiles.update_of_not_encodes (h : ∀ data, ¬ F.Encodes responseObject data) :
    s.updatePACFromGFWList F T (some responseObject) = s := by
  have hfile : ∀ file, F.pacFile T responseObject s.userRule file = file :=
    fun file => Foundation.pacFile_of_not_encodes h
  rw [updatePACFromGFWList]
  cases hwritten : F.updatePACFromGFWList T responseObject (s.userRule.bind stringWithData) with
  | none => rfl
  | some written =>
    have hnone := hfile none
    rw [Foundation.pacFile, hwritten] at hnone
    cases hnone

theorem PacFiles.document_step (h : event.Spares F originalPACData s) :
    (s.step F T originalPACData event).document originalPACData = s.document originalPACData := by
  cases event with
  | editPAC => exact s.document_editPAC
  | editUserRule =>
    change s.editUserRule.pac.getD originalPACData = _
    rw [s.pac_editUserRule]
    rfl
  | updatePACFromGFWList response =>
    cases response with
    | none => rfl
    | some responseObject =>
      change (s.updatePACFromGFWList F T (some responseObject)).document originalPACData = _
      rw [update_of_not_encodes (h responseObject rfl)]
  | outside configPath => exact h

/-- Only another document changes what is served. -/
theorem PacFiles.document_run {events : List PacEvent}
    (h : Run.Along (PacFiles.step F T originalPACData) (PacEvent.Spares F originalPACData) s
      events) :
    (Run.after (PacFiles.step F T originalPACData) s events).document originalPACData =
      s.document originalPACData := by
  refine Run.invariant (I := fun s' => s'.document originalPACData = s.document originalPACData)
    ?_ rfl h
  intro s' event hs' hspares
  rw [document_step hspares, hs']

/-- An update is in the file when there is a directory for it. -/
theorem PacFiles.document_update (hF : F.Lawful) (T : Template) (originalPACData : Bytes)
    (hdirectory : s.configPath.isSome) (hdata : F.Encodes responseObject data) :
    F.updatePACFromGFWList T responseObject (s.userRule.bind stringWithData) =
      some ((s.step F T originalPACData
        (.updatePACFromGFWList (some responseObject))).document originalPACData) := by
  obtain ⟨directory, hdirectory⟩ := Option.isSome_iff_exists.mp hdirectory
  have hwritten := Foundation.updatePACFromGFWList_eq (T := T) hF
    (hdata.downloadedRules (s.userRule.bind stringWithData))
  rw [hwritten]
  change _ = some ((s.updatePACFromGFWList F T (some responseObject)).document originalPACData)
  rw [updatePACFromGFWList, hwritten]
  change _ = some ((s.writePAC _).document originalPACData)
  rw [writePAC, hdirectory]
  rfl

theorem proxy_ne_direct : proxy ≠ direct := by decide +kernel

/-- The string for the proxy is only passed on. -/
theorem Engine.findProxyWith_eq (E : Engine) (name : JsString) (g : PacGlobals)
    (query : JsString × JsString) : E.findProxyWith name g query =
      (E.ask g query).map fun r => (if r.1 = proxy then name else direct, r.2) := by
  rw [findProxyWith, ask, findProxyForURL]
  cases E.matchesAny g query.1 query.2 with
  | error e => rfl
  | ok r =>
    change Except.ok _ = Except.ok _
    congr 2
    by_cases hblocking : (r.1.bind r.2.knownFilters).any Filter.isBlocking = true
    · rw [if_pos hblocking, if_pos hblocking, if_pos rfl]
    · rw [if_neg hblocking, if_neg hblocking, if_neg proxy_ne_direct.symm]

/-- A browser gets the answers of `FindProxyForURL` with the other string in them. -/
theorem Engine.browse_eq_ok {script : Script} {answers : List JsString} :
    E.browse script queries = .ok answers ↔
      ∃ g plain g', E.load (script.rules.map utf16) = .ok g ∧
        E.answers g queries = .ok (plain, g') ∧
        answers = plain.map fun answer => if answer = proxy then utf16 script.proxy else direct := by
  have hrun := fun g => run_map
    (f := fun answer => if answer = proxy then utf16 script.proxy else direct)
    (E.findProxyWith_eq (utf16 script.proxy)) g queries
  constructor
  · intro h
    obtain ⟨g, hload, h⟩ := bind_eq_ok.mp h
    obtain ⟨r, hanswers, h⟩ := bind_eq_ok.mp h
    cases h
    rw [hrun] at hanswers
    obtain ⟨⟨plain, g'⟩, hplain, rfl⟩ := map_eq_ok.mp hanswers
    exact ⟨g, plain, g', hload, hplain, rfl⟩
  · rintro ⟨g, plain, g', hload, hplain, rfl⟩
    have hanswers := (hrun g).trans (congrArg _ hplain)
    exact bind_eq_ok.mpr ⟨g, hload, bind_eq_ok.mpr ⟨_, hanswers, rfl⟩⟩

theorem Engine.browse_ok_iff {script : Script} :
    (∃ answers, E.browse script queries = .ok answers) ↔
      E.Peaceful (script.rules.map utf16) queries := by
  rw [Peaceful, ← load_ok_iff]
  constructor
  · rintro ⟨answers, hbrowse⟩
    obtain ⟨g, plain, g', hload, hplain, -⟩ := browse_eq_ok.mp hbrowse
    refine ⟨⟨g, hload⟩, ?_⟩
    intro g₁ hload₁
    rw [hload] at hload₁
    cases hload₁
    exact (answers_ok_iff (load_spec hload).1).mp ⟨_, hplain⟩
  · rintro ⟨⟨g, hload⟩, hquiet⟩
    obtain ⟨⟨plain, g'⟩, hplain⟩ := (answers_ok_iff (load_spec hload).1).mpr (hquiet g hload)
    exact ⟨_, browse_eq_ok.mpr ⟨g, plain, g', hload, hplain, rfl⟩⟩

/-- The rules of an update are lines, so that no word of an address is hidden from them. -/
theorem Engine.browse_eq (hE : E.Lawful) {script : Script} {address : Text}
    (hproxy : script.proxy = proxyString address)
    (hlines : ∀ rule ∈ script.rules, ∀ c ∈ rule, c ∉ newlineCharacterSet)
    (hqueries : ∀ query ∈ queries, unit ' ' ∉ query.1) {answers : List JsString}
    (h : E.browse script queries = .ok answers) :
    answers = queries.map (E.direction address (script.rules.map utf16)) := by
  obtain ⟨g, plain, g', hload, hplain, rfl⟩ := browse_eq_ok.mp h
  have hhides : ∀ query ∈ queries, ∀ text ∈ script.rules.map utf16,
      E.hits text query.1 query.2 = true → ¬ E.Hides text query.1 := by
    intro query _ text htext _
    obtain ⟨rule, hrule, rfl⟩ := List.mem_map.mp htext
    exact E.not_hides (utf16_line (hlines rule hrule)) _
  rw [answers_eq hE hload hhides hplain, remembered_eq hqueries, List.map_map, hproxy]
  rfl

theorem filteredLines_some (str2 : Text) (str3 : Option Text) :
    filteredLines (some str2) str3 = ruleLines str2 ++ str3.elim [] ruleLines := by
  cases str3 with
  | none => simp [filteredLines, ruleLines]
  | some str3 => simp [filteredLines, ruleLines]

/-- From an update that has a directory to write to, and as long as its file is spared, the document
that is served to a plain host is a script with the lines of the list followed by the user's own, and
directs a browser by them. -/
theorem PacFiles.run_directs (hF : F.Lawful) (hE : E.Lawful) {events : List PacEvent}
    {list : Text} (hdirectory : s.configPath.isSome) (hdata : F.Encodes responseObject data)
    (hlist : stringWithData data = some list) {lines : List Text}
    (hlines : lines = ruleLines list ++ (s.userRule.bind stringWithData).elim [] ruleLines)
    (hspares : Run.Along (PacFiles.step F T originalPACData) (PacEvent.Spares F originalPACData)
      (s.step F T originalPACData (.updatePACFromGFWList (some responseObject))) events)
    (hhost : F.requestHost header = some host) (hplain : ∀ c ∈ host, Unescaped c)
    (hfree : host = "127.0.0.1".toList ∨ F.Free lines "127.0.0.1".toList)
    (hqueries : ∀ query ∈ queries, unit ' ' ∉ query.1) :
    ∃ served, F.proxyPac (Run.after (PacFiles.step F T originalPACData) s
        (.updatePACFromGFWList (some responseObject) :: events)).pac originalPACData header =
          some served ∧
      E.Directs T served (host ++ ":1080".toList) lines queries := by
  rw [← filteredLines_some, ← hlist] at hlines
  have hrules := hdata.downloadedRules (s.userRule.bind stringWithData)
  rw [← hlines] at hrules
  have hstored := document_update hF T originalPACData hdirectory hdata
  have hserves : F.ServesHost T _ originalPACData header :=
    (Foundation.servesHost_iff hF hrules hstored).mpr ⟨host, hhost, hplain, hfree⟩
  obtain ⟨host', served, hhost', hserved, script, hscript, hread⟩ := hserves
  rw [hhost] at hhost'
  cases hhost'
  rw [Foundation.readData_stored hF hrules hstored] at hscript
  cases hscript
  refine ⟨served, ?_, _, hread, rfl, Engine.browse_ok_iff, ?_⟩
  · rw [← proxyPac_document, Run.after_cons, document_run hspares]
    exact hserved
  · intro answers hanswers
    exact Engine.browse_eq hE rfl
      (fun rule hrule => Foundation.downloadedRules_newline hrules hrule) hqueries hanswers

/-- A list with one rule of the user's, a failed download, and a browser on another computer. -/
theorem PacFiles.run_directs_user :
    ∃ served, Foundation.reference.proxyPac
        (Run.after (PacFiles.step Foundation.reference Template.declarations [])
          ⟨some ⟨none, some (utf8 "@@||b.a.com".toList)⟩⟩
          [.updatePACFromGFWList (some (gfwlist "||a.com\n!b".toList)), .editPAC,
            .updatePACFromGFWList none, .editUserRule]).pac [] (some "10.0.0.2:8090".toList) =
          some served ∧
      Engine.reference.Directs Template.declarations served
        ("10.0.0.2".toList ++ ":1080".toList) ["||a.com".toList, "@@||b.a.com".toList]
        [(js "http://a.com/", js "a.com"), (js "http://b.a.com/", js "b.a.com")] := by
  have hdata : Foundation.reference.Encodes (gfwlist "||a.com\n!b".toList)
      (utf8 "||a.com\n!b".toList) :=
    ⟨_, stringWithData_utf8 _, Foundation.lawful_reference.decode_encode _⟩
  have hfree : ∀ rule ∈ ["||a.com".toList, "@@||b.a.com".toList],
      ¬ "127.0.0.1".toList <:+: escape rule := by decide +kernel
  refine run_directs Foundation.lawful_reference Engine.lawful_reference rfl hdata
    (stringWithData_utf8 _) ?_ ?_ ?_ ?_
    (Or.inr fun rule hrule hc => hfree rule hrule (Foundation.within_of_contains hc)) ?_
  · change _ = _ ++ ((some (utf8 "@@||b.a.com".toList)).bind stringWithData).elim [] ruleLines
    rw [Option.bind_some, stringWithData_utf8, Option.elim_some]
    decide +kernel
  · exact ⟨trivial, fun _ h => (by cases h), trivial, trivial⟩
  · decide +kernel
  · exact forall_of_all (by decide +kernel)
  · decide +kernel

end Shadowsocks
