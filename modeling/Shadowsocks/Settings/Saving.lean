import Shadowsocks.Settings.Profiles

/-! What `saveConfiguration` stores, and what runs after it. -/
namespace Shadowsocks

variable {S : OpenSSL} {configuration : Configuration} {d d' : Defaults} {r r' : LocalConfig S}
  {profile : Profile}

/-- The same profiles with a selection that is valid: none in an empty list, the one there is if
it is valid, and else the first. -/
def Configuration.kept (configuration : Configuration) : Configuration where
  current :=
    if configuration.profiles = [] then -1
    else if configuration.current = -1 ∨
        NSInteger.below configuration.current configuration.profiles.length then
      configuration.current
    else 0
  profiles := configuration.profiles

/-- What `set_config` is given for a profile, when it is complete. -/
def Profile.arguments (profile : Profile) : Option ServerText :=
  match profile.server, profile.password with
  | some server, some password =>
    some ⟨profile.method.getD "aes-256-cfb".toList, password, server, decimal profile.serverPort⟩
  | _, _ => none

/-- `r'` is what `r` becomes when the server that is designated is run. -/
def Configuration.Runs (configuration : Configuration) (r r' : LocalConfig S) : Prop :=
  if configuration.current = -1 then overwriteKey (r.set publicServer) = .ok r'
  else ∃ profile server, configuration.profileAt configuration.current = some profile ∧
    profile.arguments = some server ∧ r' = r.set server

/-- Saving stores the kept selection, raises nothing, and leaves the runner on it. -/
def Configuration.SavesAndRuns (configuration : Configuration) (d : Defaults)
    (r : LocalConfig S) : Prop :=
  ∃ d' r', ProfileManager.saveConfiguration configuration d r = (d', .ok r') ∧
    ProfileManager.configuration d' = configuration.kept ∧
    (d'.isUsingPublicServer = true ↔ configuration.kept.current = -1) ∧
    configuration.kept.Runs r r'

/-- Negative numbers other than -1 are above every count, since the count is unsigned. -/
theorem Configuration.adjusted_eq_kept (configuration : Configuration) :
    configuration.adjusted = configuration.kept := by
  obtain ⟨current, profiles⟩ := configuration
  simp only [adjusted, kept]
  by_cases hempty : profiles = []
  · subst hempty
    simp
  · have hlength : profiles.length ≠ 0 := mt List.length_eq_zero_iff.mp hempty
    rw [if_neg hlength, if_neg hempty]
    by_cases hvalid : current = -1 ∨ NSInteger.below current profiles.length
    · rw [if_pos hvalid, if_neg]
      rintro ⟨hpublic, hbelow⟩
      exact hvalid.elim hpublic hbelow
    · rw [if_neg hvalid, if_pos]
      exact not_or.mp hvalid

theorem Defaults.Uses.arguments (h : d.Uses profile) : d.arguments = profile.arguments := by
  rw [Defaults.arguments, Profile.arguments, h.ip, h.port, h.password, h.encryption]
  cases profile.server with
  | none => rfl
  | some server => cases profile.password <;> rfl

/-- The key that is overwritten for the public server has been allocated. -/
theorem overwriteKey_public (hcipher : (S.evpGetCipherbyname "aes-128-cfb").isSome)
    (r : LocalConfig S) : ∃ r', overwriteKey (r.set publicServer) = .ok r' := by
  have hmethod : encryptionMethodFromString (String.ofList publicServer.method) = 6 := by
    decide +kernel
  have hname : evpName 6 = "aes-128-cfb" := by decide +kernel
  have hcstring : cString publicServer.method = publicServer.method := by decide +kernel
  have hkey : (r.set publicServer).globals.shadowsocksKey = true := by
    rw [LocalConfig.set, hcstring]
    simp only [configEncryption, hmethod, hname]
    rw [if_neg (by decide), if_neg (by decide)]
    cases hfound : S.evpGetCipherbyname "aes-128-cfb" with
    | none =>
      rw [hfound] at hcipher
      cases hcipher
    | some c => rfl
  rw [overwriteKey, if_pos hkey]
  exact ⟨_, rfl⟩

/-- Saving leaves a valid selection in use: it is stored, the keys that `reloadConfig` reads are
those of what it designates, and that is what runs. A profile without a server or a password is
not complete, and nothing is run for it. -/
theorem saveConfiguration_kept (hcipher : (S.evpGetCipherbyname "aes-128-cfb").isSome)
    (configuration : Configuration) (d : Defaults) (r : LocalConfig S) :
    ∃ d', ProfileManager.saveConfiguration configuration d r = (d', reloadConfig d' r) ∧
      ProfileManager.configuration d' = configuration.kept ∧
      (configuration.kept.current = -1 ∨ ∃ profile,
        configuration.kept.profileAt configuration.kept.current = some profile) ∧
      (d'.isUsingPublicServer = true ↔ configuration.kept.current = -1) ∧
      (configuration.kept.current = -1 →
        ∃ r', reloadConfig d' r = .ok r' ∧ configuration.kept.Runs r r') ∧
      ∀ profile, configuration.kept.current ≠ -1 →
        configuration.kept.profileAt configuration.kept.current = some profile →
        d'.Uses profile ∧
        match profile.arguments with
        | none => reloadConfig d' r = .ok r
        | some server => server.Saveable →
          ∃ r', reloadConfig d' r = .ok r' ∧ configuration.kept.Runs r r' := by
  obtain ⟨d', hsave, hcases⟩ := saveConfiguration_cases configuration d r
  rw [Configuration.adjusted_eq_kept] at hcases
  refine ⟨d', hsave, ?_⟩
  rcases hcases with ⟨hpublic, rfl⟩ | ⟨hcurrent, profile, hprofile, hd'⟩
  · refine ⟨Configuration.initWithJSONData_jsonData _, Or.inl hpublic, ⟨fun _ => hpublic,
      fun _ => rfl⟩, ?_, fun _ hown => absurd hpublic hown⟩
    intro _
    obtain ⟨r', hr'⟩ := overwriteKey_public hcipher r
    refine ⟨r', ?_, ?_⟩
    · rw [reloadConfig_public rfl, hr']
    · rw [Configuration.Runs, if_pos hpublic]
      exact hr'
  · have huses : d'.Uses profile := by
      rw [hd']
      exact ⟨rfl, rfl, rfl, rfl, rfl⟩
    have hconfig : ProfileManager.configuration d' = configuration.kept := by
      rw [hd']
      exact Configuration.initWithJSONData_jsonData _
    refine ⟨hconfig, Or.inr ⟨profile, hprofile⟩, ?_, fun hpublic => absurd hpublic hcurrent, ?_⟩
    · rw [huses.own]
      exact ⟨fun h => (by cases h), fun h => absurd h hcurrent⟩
    · intro other _ hother
      rw [hprofile] at hother
      cases hother
      refine ⟨huses, ?_⟩
      have hreload := reloadConfig_own huses.own r
      rw [huses.arguments] at hreload
      cases harguments : profile.arguments with
      | none =>
        rw [harguments] at hreload
        exact hreload
      | some server =>
        rw [harguments] at hreload
        intro hsaveable
        refine ⟨r.set server, ?_, ?_⟩
        · rw [hreload]
          exact if_pos hsaveable
        · rw [Configuration.Runs, if_neg hcurrent]
          exact ⟨profile, server, hprofile, harguments, rfl⟩

/-- From any list and any number, here one that is negative. -/
theorem saveConfiguration_kept_negative :
    (Reference.aes.evpGetCipherbyname "aes-128-cfb").isSome ∧
    ∃ d' : Defaults, ProfileManager.saveConfiguration
        ⟨-7, [⟨some "10.0.0.1".toList, 8388, none, some "secret".toList, none⟩]⟩ .empty
        (LocalConfig.zeroed Reference.aes) =
          (d', reloadConfig d' (LocalConfig.zeroed Reference.aes)) ∧
      ProfileManager.configuration d' =
        ⟨0, [⟨some "10.0.0.1".toList, 8388, none, some "secret".toList, none⟩]⟩ := by
  have hcipher : (Reference.aes.evpGetCipherbyname "aes-128-cfb").isSome := rfl
  obtain ⟨d', hsave, hkept, -⟩ := saveConfiguration_kept hcipher
    ⟨-7, [⟨some "10.0.0.1".toList, 8388, none, some "secret".toList, none⟩]⟩ .empty
    (LocalConfig.zeroed Reference.aes)
  refine ⟨hcipher, d', hsave, ?_⟩
  rw [hkept]
  decide +kernel

/-- A profile without a password is selected, and what ran before goes on; one with a server of
512 characters ends the process. -/
theorem Configuration.not_savesAndRuns :
    ¬ SavesAndRuns ⟨0, [⟨some "10.0.0.1".toList, 8388, none, none, none⟩]⟩ .empty
        (LocalConfig.zeroed Reference.openssl) ∧
    ¬ SavesAndRuns ⟨0, [⟨some (List.replicate 512 'a'), 8388, none, some "secret".toList, none⟩]⟩
        .empty (LocalConfig.zeroed Reference.openssl) := by
  constructor
  · rintro ⟨d', r', -, -, -, hruns⟩
    rw [Runs, if_neg (by decide +kernel)] at hruns
    obtain ⟨profile, server, hprofile, harguments, -⟩ := hruns
    have hnone : (kept ⟨0, [⟨some "10.0.0.1".toList, 8388, none, none, none⟩]⟩).profileAt
        (kept ⟨0, [⟨some "10.0.0.1".toList, 8388, none, none, none⟩]⟩).current =
          some ⟨some "10.0.0.1".toList, 8388, none, none, none⟩ := by
      decide +kernel
    rw [hnone] at hprofile
    cases hprofile
    cases harguments
  · rintro ⟨d', r', hsave, -, -, -⟩
    obtain ⟨d'', hsave', hcases⟩ := saveConfiguration_cases
      ⟨0, [⟨some (List.replicate 512 'a'), 8388, none, some "secret".toList, none⟩]⟩ .empty
      (LocalConfig.zeroed Reference.openssl)
    rw [hsave] at hsave'
    obtain ⟨rfl, hreload⟩ := Prod.mk.inj hsave'
    rw [adjusted_eq_self (Or.inr (by decide +kernel))] at hcases
    rcases hcases with ⟨hpublic, -⟩ | ⟨-, profile, hprofile, rfl⟩
    · exact absurd hpublic (by decide)
    · cases hprofile
      have herror : reloadConfig (Defaults.using { Defaults.empty with
          config := some (jsonData
            ⟨0, [⟨some (List.replicate 512 'a'), 8388, none, some "secret".toList, none⟩]⟩) }
          ⟨some (List.replicate 512 'a'), 8388, none, some "secret".toList, none⟩)
          (LocalConfig.zeroed Reference.openssl) = .error .assertion := by
        rw [reloadConfig_own rfl]
        exact if_neg (by decide +kernel)
      rw [herror] at hreload
      cases hreload

end Shadowsocks
