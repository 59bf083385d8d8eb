import Shadowsocks.Settings.Profiles

/-! The settings of an older version, once they have been stored as a configuration. -/
namespace Shadowsocks

variable {S : OpenSSL} {d d' : Defaults} {r : LocalConfig S}

/-- The four C strings that `set_config` is given. -/
def ServerText.cStrings (server : ServerText) : ServerText :=
  ⟨cString server.method, cString server.password, cString server.ip, cString server.port⟩

/-- What `reloadConfig` hands to `set_config`, if the settings are complete. -/
def Defaults.passed (d : Defaults) : Option ServerText :=
  if d.settingsAreNotComplete then none
  else if d.isUsingPublicServer then some publicServer.cStrings
  else d.arguments.map ServerText.cStrings

/-- The settings after the configuration that is made of them has been saved unchanged. -/
def Defaults.upgraded (d : Defaults) (r : LocalConfig S) : Defaults :=
  (ProfileManager.saveConfiguration (ProfileManager.configuration d) d r).1

theorem decimal_nul (n : NSInteger) : cString (decimal n) = decimal n := by
  have hdigits : ∀ m : Nat, '\x00' ∉ m.repr.toList := by
    intro m hmem
    rw [Nat.toList_repr] at hmem
    have hdigit := Nat.isDigit_of_mem_toDigits (by decide) (by decide) hmem
    exact absurd hdigit (by decide)
  rw [cString, List.takeWhile_eq_self_iff]
  intro c hc
  rw [decide_eq_true_eq]
  rintro rfl
  rw [decimal] at hc
  cases hn : n.toInt with
  | ofNat m =>
    rw [hn] at hc
    exact hdigits m hc
  | negSucc m =>
    have hrepr : toString (Int.negSucc m) = "-" ++ (m + 1).repr := rfl
    rw [hn, hrepr, String.toList_append] at hc
    rcases List.mem_append.mp hc with hc | hc
    · exact absurd hc (by decide)
    · exact hdigits (m + 1) hc

theorem passed_own (h : d.isUsingPublicServer = false) :
    d.passed = d.arguments.map ServerText.cStrings := by
  rw [Defaults.passed, Defaults.settingsAreNotComplete, h, Defaults.arguments]
  cases d.ip with
  | none => rfl
  | some ip =>
    cases d.port with
    | none => rfl
    | some port => cases d.password <;> rfl

theorem checkedString_cString (text : Text) :
    checkedString (some (cString text)) = checkedString (some text) := by
  have htwice : cString (cString text) = cString text := by
    rw [cString, List.takeWhile_eq_self_iff]
    intro c hc
    rw [cString] at hc
    exact List.mem_takeWhile_imp (p := fun c => decide (c ≠ '\x00')) hc
  have hstrlen : strlen (cString text) = strlen text := by rw [strlen, strlen, htwice]
  change (if strlen (cString text) < savedStrLen then _ else _) = _
  rw [hstrlen, htwice]
  rfl

theorem setConfig_cStrings (server : ServerText) (r : LocalConfig S) :
    let strings := server.cStrings
    setConfig (some strings.ip) (some strings.port) (some strings.password)
        (some strings.method) r =
      setConfig (some server.ip) (some server.port) (some server.password)
        (some server.method) r := by
  simp only [setConfig, ServerText.cStrings, checkedString_cString]

/-- All that reaches what runs is what is passed. -/
theorem reloadConfig_eq_passed (d : Defaults) (r : LocalConfig S) :
    reloadConfig d r =
      match d.passed with
      | none => .ok r
      | some strings =>
        setConfig (some strings.ip) (some strings.port) (some strings.password)
            (some strings.method) r >>= fun r' =>
          if d.isUsingPublicServer then overwriteKey r' else .ok r' := by
  cases hpublic : d.isUsingPublicServer with
  | true =>
    have hcomplete : d.settingsAreNotComplete = false := by
      simp [Defaults.settingsAreNotComplete, hpublic]
    have hstrings := setConfig_cStrings publicServer r
    simp only [reloadConfig, Defaults.passed, hcomplete, hpublic, if_true, Bool.false_eq_true,
      if_false]
    rw [hstrings]
    rfl
  | false =>
    rw [passed_own hpublic, reloadConfig_own hpublic]
    cases d.arguments with
    | none => rfl
    | some server =>
      have hstrings := setConfig_cStrings server r
      simp only [Option.map_some]
      rw [hstrings, setConfig_some]
      split <;> rfl

theorem upgraded_public (hnew : d.config = none) (h : d.isUsingPublicServer = true)
    (r : LocalConfig S) : (d.upgraded r).passed = some publicServer.cStrings := by
  have hconfiguration : ProfileManager.configuration d = ⟨-1, []⟩ := by
    rw [ProfileManager.configuration, hnew]
    exact if_pos h
  rw [Defaults.upgraded, hconfiguration]
  obtain ⟨d', hsave, ⟨-, rfl⟩ | ⟨hcurrent, -⟩⟩ := saveConfiguration_cases ⟨-1, []⟩ d r
  · rw [hsave]
    rfl
  · rw [Configuration.adjusted_eq_self (Or.inl rfl)] at hcurrent
    exact absurd rfl hcurrent

/-- The port is read as a number and written again; the rest stays as it is. -/
theorem upgraded_own (hnew : d.config = none) (h : d.isUsingPublicServer = false)
    (r : LocalConfig S) : (d.upgraded r).isUsingPublicServer = false ∧
      (d.upgraded r).ip = d.ip ∧
      (d.upgraded r).port = some (decimal (d.port.elim 0 integerValue)) ∧
      (d.upgraded r).password = d.password ∧ (d.upgraded r).encryption = d.encryption := by
  have hconfiguration : ProfileManager.configuration d = ⟨0, [⟨d.ip,
      d.port.elim 0 integerValue, none, d.password, d.encryption⟩]⟩ := by
    rw [ProfileManager.configuration, hnew]
    dsimp only
    rw [if_neg (by rw [h]; decide)]
    rfl
  rw [Defaults.upgraded, hconfiguration]
  generalize hprofile : (⟨d.ip, d.port.elim 0 integerValue, none, d.password, d.encryption⟩ :
    Profile) = profile
  have hbelow : NSInteger.below 0 [profile].length := by
    refine ⟨Int.le_refl 0, ?_⟩
    rw [List.length_singleton]
    decide
  have hne : (0 : NSInteger) ≠ -1 := by decide
  obtain ⟨d', hsave, hcases⟩ := saveConfiguration_cases ⟨0, [profile]⟩ d r
  rw [Configuration.adjusted_eq_self (Or.inr hbelow)] at hcases
  rcases hcases with ⟨hpublic, -⟩ | ⟨-, other, hother, rfl⟩
  · exact absurd hpublic hne
  · cases hother
    rw [hsave, ← hprofile]
    exact ⟨rfl, rfl, rfl, rfl, rfl⟩

/-- Upgrading keeps what runs exactly when nothing of one's own runs or the port is written as a
number is: a port that is not there becomes 0, and one with anything around its digits, or with
leading zeros, another text. -/
theorem Defaults.upgraded_iff (hnew : d.config = none) (r : LocalConfig S) :
    (d.upgraded r).passed = d.passed ↔
      d.isUsingPublicServer = true ∨ d.ip = none ∨ d.password = none ∨
        ∃ port, d.port = some port ∧ cString port = decimal (integerValue port) := by
  cases hpublic : d.isUsingPublicServer with
  | true =>
    rw [upgraded_public hnew hpublic, passed, settingsAreNotComplete, hpublic]
    exact ⟨fun _ => Or.inl rfl, fun _ => rfl⟩
  | false =>
    obtain ⟨hown, hip, hport, hpassword, hencryption⟩ := upgraded_own hnew hpublic r
    rw [passed_own hown, passed_own hpublic, arguments, arguments, hip, hport, hpassword,
      hencryption]
    cases d.ip with
    | none => exact ⟨fun _ => Or.inr (Or.inl rfl), fun _ => rfl⟩
    | some ip =>
      cases d.password with
      | none =>
        refine ⟨fun _ => Or.inr (Or.inr (Or.inl rfl)), fun _ => ?_⟩
        cases d.port <;> rfl
      | some password =>
        cases d.port with
        | none =>
          constructor
          · intro heq
            cases heq
          · rintro (h | h | h | ⟨port, h, -⟩)
            · cases h
            · cases h
            · cases h
            · cases h
        | some port =>
          constructor
          · intro heq
            have hstrings := congrArg (Option.map ServerText.port) heq
            have hsame := Option.some.inj hstrings
            have hsame : cString (decimal (integerValue port)) = cString port := hsame
            rw [decimal_nul] at hsame
            exact Or.inr (Or.inr (Or.inr ⟨port, rfl, hsame.symm⟩))
          · rintro (h | h | h | ⟨port', h, hsame⟩)
            · cases h
            · cases h
            · cases h
            · cases h
              have hsame' : cString (decimal (integerValue port)) = cString port := by
                rw [decimal_nul, hsame]
              simp only [Option.map_some, Option.elim_some, ServerText.cStrings, hsame']

/-- An ordinary port. -/
theorem Defaults.upgraded_iff_ordinary :
    let d : Defaults :=
      ⟨some "10.0.0.1".toList, some "8388".toList, some "secret".toList, none, some false, none⟩
    d.config = none ∧ (d.upgraded (LocalConfig.zeroed Reference.openssl)).passed = d.passed :=
  ⟨rfl, (upgraded_iff rfl _).mpr (Or.inr (Or.inr (Or.inr ⟨_, rfl, by decide +kernel⟩)))⟩

/-- Settings without a port are incomplete; upgraded they are complete, with port 0. -/
theorem Defaults.not_upgraded_port :
    ((⟨some "10.0.0.1".toList, none, some "secret".toList, none, some false, none⟩ :
        Defaults).upgraded (LocalConfig.zeroed Reference.openssl)).passed ≠
      (⟨some "10.0.0.1".toList, none, some "secret".toList, none, some false, none⟩ :
        Defaults).passed := by
  obtain ⟨hown, hip, hport, hpassword, -⟩ := upgraded_own
    (d := ⟨some "10.0.0.1".toList, none, some "secret".toList, none, some false, none⟩) rfl rfl
    (LocalConfig.zeroed Reference.openssl)
  rw [passed_own hown, arguments, hip, hport, hpassword]
  intro heq
  cases heq

end Shadowsocks
