import Shadowsocks.Settings.Profiles

/-! The settings that run and the stored configuration, over any sequence of operations. -/
namespace Shadowsocks

variable {F : Foundation} {S : OpenSSL} {configuration : Configuration} {server : ServerText}
  {d : Defaults} {r : LocalConfig S} {a : App S} {operation : Operation}

/-- Once a configuration has been stored, the server that runs is the one it designates. -/
def Defaults.Agree (d : Defaults) : Prop :=
  ∀ data, d.config = some data → d.Follows (Configuration.initWithJSONData data)

/-- The configuration designates a profile that reads the same as the server. -/
def Configuration.Selects (configuration : Configuration) (server : ServerText) : Prop :=
  configuration.current ≠ -1 ∧ ∃ profile,
    configuration.profileAt configuration.current = some profile ∧
    profile.server = some server.ip ∧ decimal profile.serverPort = server.port ∧
    profile.password = some server.password ∧ profile.method = some server.method

/-- A URL that is opened names no other server than the one that a stored configuration already
designates. -/
def Operation.Harmless (F : Foundation) (a : App S) : Operation → Prop
  | .openSSURL url => a.process.isSome → ∀ server, F.Names url server →
      ∀ data, a.defaults.config = some data →
        (Configuration.initWithJSONData data).Selects server
  | _ => True

theorem Defaults.follows_storeServer :
    (d.storeServer server).Follows configuration ↔ configuration.Selects server := by
  constructor
  · rintro (⟨-, hpublic⟩ | ⟨hcurrent, profile, hprofile, huses⟩)
    · cases hpublic
    · exact ⟨hcurrent, profile, hprofile, huses.ip.symm, (Option.some.inj huses.port).symm,
        huses.password.symm, huses.encryption.symm⟩
  · rintro ⟨hcurrent, profile, hprofile, hip, hport, hpassword, hmethod⟩
    exact Or.inr ⟨hcurrent, profile, hprofile, rfl, hip.symm, congrArg some hport.symm,
      hpassword.symm, hmethod.symm⟩

theorem agree_saveConfiguration (configuration : Configuration) (d : Defaults)
    (r : LocalConfig S) : ∃ d', d'.Agree ∧
      ProfileManager.saveConfiguration configuration d r = (d', reloadConfig d' r) := by
  obtain ⟨d', hsave, hcases⟩ := saveConfiguration_cases configuration d r
  refine ⟨d', ?_, hsave⟩
  intro data hdata
  rcases hcases with ⟨hpublic, rfl⟩ | ⟨hcurrent, profile, hprofile, rfl⟩
  · cases hdata
    rw [Configuration.initWithJSONData_jsonData]
    exact Or.inl ⟨hpublic, rfl⟩
  · cases hdata
    rw [Configuration.initWithJSONData_jsonData]
    exact Or.inr ⟨hcurrent, profile, hprofile, rfl, rfl, rfl, rfl, rfl⟩

/-- The settings of an application that opens a URL. -/
theorem App.defaults_openSSURL (h : a.process.isSome) (url : NSURL) :
    ((∀ server, ¬ F.Names url server) ∧
      (a.step F (.openSSURL url)).defaults = a.defaults) ∨
    ∃ server, F.Names url server ∧
      (a.step F (.openSSURL url)).defaults = a.defaults.storeServer server := by
  obtain ⟨d, _ | r⟩ := a
  · cases h
  · have hdefaults : (step F ⟨d, some r⟩ (.openSSURL url)).defaults =
        (F.openSSURL url d r).1 := rfl
    rw [hdefaults]
    obtain ⟨hnone, hopen⟩ | ⟨server, hnames, hopen⟩ := F.openSSURL_cases url d r
    · exact Or.inl ⟨hnone, by rw [hopen]⟩
    · exact Or.inr ⟨server, hnames, by rw [hopen]⟩

/-- One operation keeps the two in agreement exactly when it is harmless. -/
theorem App.agree_step_iff (h : a.defaults.Agree) :
    (a.step F operation).defaults.Agree ↔ operation.Harmless F a := by
  cases hprocess : a.process with
  | none =>
    rw [defaults_stopped hprocess]
    refine ⟨fun _ => ?_, fun _ => h⟩
    cases operation with
    | openSSURL url =>
      intro hsome
      rw [hprocess] at hsome
      cases hsome
    | _ => exact trivial
  | some r =>
    have hsome : a.process.isSome := by rw [hprocess]; rfl
    cases operation with
    | launch => exact ⟨fun _ => trivial, fun _ => h⟩
    | openSSURL url =>
      obtain ⟨hnone, hsame⟩ | ⟨server, hnames, hstored⟩ := defaults_openSSURL (F := F) hsome url
      · rw [hsame]
        exact ⟨fun _ _ server hserver => absurd hserver (hnone server), fun _ => h⟩
      · rw [hstored]
        constructor
        · intro hagree _ other hother data hdata
          rw [← hnames.unique hother]
          exact Defaults.follows_storeServer.mp (hagree data hdata)
        · intro hharmless data hdata
          exact Defaults.follows_storeServer.mpr (hharmless hsome server hnames data hdata)
    | chooseServer tag =>
      refine ⟨fun _ => trivial, fun _ => ?_⟩
      obtain ⟨d', hd', hsave⟩ := agree_saveConfiguration (choice tag a.defaults) a.defaults r
      rw [defaults_chooseServer hprocess, hsave]
      exact hd'
    | ok configuration =>
      refine ⟨fun _ => trivial, fun _ => ?_⟩
      obtain ⟨d', hd', hsave⟩ := agree_saveConfiguration configuration a.defaults r
      rw [defaults_ok hprocess, hsave]
      exact hd'

/-- In a run of harmless operations the two agree in every state, whatever an older version has
left in the settings. -/
theorem App.run_agree (hfirst : a.defaults.config = none) {operations : List Operation}
    (h : Run.Along (App.step F) (fun a operation => operation.Harmless F a) a operations)
    {before : List Operation} (hbefore : before <+: operations) :
    (Run.after (App.step F) a before).defaults.Agree := by
  have hstart : a.defaults.Agree := by
    intro data hdata
    rw [hfirst] at hdata
    cases hdata
  obtain ⟨rest, rfl⟩ := hbefore
  have hsteps := ((Run.along_append a before rest).mp h).1
  exact Run.invariant (I := fun a : App S => a.defaults.Agree)
    (fun a operation hagree hharmless => (agree_step_iff hagree).mpr hharmless) hstart hsteps

/-- A list of one server, which is selected. -/
def Configuration.single : Configuration :=
  ⟨0, [⟨some "10.0.0.1".toList, 8388, none, some "secret".toList, some "table".toList⟩]⟩

/-- With OK in a first window the list is stored, and its server runs. -/
theorem App.step_single : ∃ d' r', App.step .reference ⟨.empty, some (.zeroed Reference.openssl)⟩
    (.ok .single) = ⟨d', some r'⟩ ∧ d'.config = some Configuration.single.jsonData := by
  have hadjusted : Configuration.single.adjusted = .single :=
    Configuration.adjusted_eq_self (Or.inr (by decide))
  obtain ⟨d', hsave, hcases⟩ :=
    saveConfiguration_cases .single .empty (.zeroed Reference.openssl)
  rw [hadjusted] at hcases
  obtain ⟨hpublic, -⟩ | ⟨-, profile, hprofile, hd'⟩ := hcases
  · exact absurd hpublic (by decide)
  · obtain rfl := Option.some.inj hprofile
    obtain ⟨server, hreload⟩ : ∃ server, ∀ r : LocalConfig Reference.openssl,
        reloadConfig d' r = .ok (r.set server) := by
      refine ⟨⟨"table".toList, "secret".toList, "10.0.0.1".toList, "8388".toList⟩, ?_⟩
      intro r
      have harguments : d'.arguments =
          some ⟨"table".toList, "secret".toList, "10.0.0.1".toList, "8388".toList⟩ := by
        rw [hd']
        decide
      rw [reloadConfig_own (by rw [hd']; rfl), harguments]
      exact if_pos (by decide +kernel)
    refine ⟨d', ((LocalConfig.zeroed _).set server).set server, ?_, by rw [hd']; rfl⟩
    have hok : saveSettings .single .empty (LocalConfig.zeroed Reference.openssl) =
        (d', .ok (((LocalConfig.zeroed _).set server).set server)) := by
      rw [saveSettings, hsave, hreload]
      simp only [hreload]
    exact congrArg App.left hok

/-- A URL that names the server that is selected already. -/
theorem App.run_agree_single :
    (Run.after (App.step .reference) ⟨.empty, some (.zeroed Reference.openssl)⟩
      [.ok .single,
        .openSSURL ⟨"ss://table:secret@10.0.0.1:8388".toList, some "10.0.0.1".toList⟩,
        .chooseServer (-1), .launch]).defaults.Agree := by
  have hnames : Foundation.reference.Names
      ⟨"ss://table:secret@10.0.0.1:8388".toList, some "10.0.0.1".toList⟩
      ⟨"table".toList, "secret".toList, "10.0.0.1".toList, "8388".toList⟩ :=
    ⟨_, rfl, Or.inl ⟨_, rfl, by decide, by decide, by decide, by decide⟩⟩
  obtain ⟨d', r', hsaved, hconfig⟩ := step_single
  refine run_agree rfl ?_ List.prefix_rfl
  refine ⟨trivial, ?_, trivial, trivial, trivial⟩
  rw [hsaved]
  intro _ server hserver data hdata
  obtain rfl := hnames.unique hserver
  obtain rfl := Option.some.inj (hconfig.symm.trans hdata)
  rw [Configuration.initWithJSONData_jsonData]
  exact ⟨by decide, _, rfl, rfl, by decide, rfl, rfl⟩

/-- The server of the URL runs, and the menu goes on showing the other one. -/
theorem App.not_agree_openSSURL :
    ¬ (Run.after (App.step .reference) ⟨.empty, some (.zeroed Reference.openssl)⟩
      [.ok .single, .openSSURL ⟨"ss://table:other@10.0.0.2:8389".toList, some "10.0.0.2".toList⟩]
      ).defaults.Agree := by
  have hnames : Foundation.reference.Names
      ⟨"ss://table:other@10.0.0.2:8389".toList, some "10.0.0.2".toList⟩
      ⟨"table".toList, "other".toList, "10.0.0.2".toList, "8389".toList⟩ :=
    ⟨_, rfl, Or.inl ⟨_, rfl, by decide, by decide, by decide, by decide⟩⟩
  obtain ⟨d', r', hsaved, hconfig⟩ := step_single
  intro h
  rw [Run.after_cons, hsaved, Run.after_cons, Run.after_nil] at h
  obtain hnone | ⟨other, hother, hstored⟩ := App.defaults_openSSURL
    (F := .reference) (a := ⟨d', some r'⟩) rfl
    ⟨"ss://table:other@10.0.0.2:8389".toList, some "10.0.0.2".toList⟩
  · exact hnone.1 _ hnames
  · rw [hstored, ← hnames.unique hother] at h
    have hselects := Defaults.follows_storeServer.mp (h _ hconfig)
    rw [Configuration.initWithJSONData_jsonData] at hselects
    obtain ⟨-, selected, hselected, hip, -⟩ := hselects
    obtain rfl := Option.some.inj hselected
    exact absurd hip (by decide)

end Shadowsocks
