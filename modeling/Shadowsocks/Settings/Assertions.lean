import Shadowsocks.Settings.Agreement

/-!
The assertions of `set_config`. Settings are accepted from URLs, from the settings screen of iOS
and from the config window; `reloadConfig` reads them back at every later application start.
-/
namespace Shadowsocks

variable {F : Foundation} {S : OpenSSL} {a : App S} {d d' : Defaults} {r : LocalConfig S}

/-- The methods that the settings screen offers. -/
def offeredMethods : Vector String 15 :=
  #v["table", "aes-256-cfb", "aes-192-cfb", "aes-128-cfb", "bf-cfb", "camellia-128-cfb",
     "camellia-192-cfb", "camellia-256-cfb", "cast5-cfb", "des-cfb", "idea-cfb", "rc2-cfb",
     "rc4", "rc4-md5", "seed-cfb"]

/-- What `done` saves of a text field. There are no fields while the public server is shown, and
a field may have no text. -/
def savedText (field : Option (Option Text)) : Option Text :=
  field.map fun text => text.getD []

inductive Act
  | operation (operation : Operation)
  /-- The settings screen's button, with its three fields. -/
  | done (ip port password : Option (Option Text))
  | chooseMethod (row : Fin 15)
  | changePublicServer (use : Bool)

def App.act (F : Foundation) (a : App S) (act : Act) : App S :=
  match act, a.process with
  | .operation operation, _ => a.step F operation
  | _, none => a
  | .done ip port password, some r =>
    let d := a.defaults.saveConfigForKey (savedText ip) .ip
    let d := d.saveConfigForKey (savedText port) .port
    let d := d.saveConfigForKey (savedText password) .password
    .left (d, reloadConfig d r)
  | .chooseMethod row, some r =>
    ⟨a.defaults.saveConfigForKey (some offeredMethods[row].toList) .encryption, some r⟩
  | .changePublicServer use, some r => ⟨a.defaults.setUsingPublicServer use, some r⟩

/-- `reloadConfig` gets to `config_encryption`: the settings are complete, no assertion of
`set_config` fails and no string is null. -/
def Defaults.Reaches (S : OpenSSL) (d : Defaults) : Prop :=
  d.settingsAreNotComplete = false ∧ ∀ r : LocalConfig S,
    reloadConfig d r ≠ .error .assertion ∧ reloadConfig d r ≠ .error .nullString

/-- A stored text passes its assertion. -/
def Passes (text : Option Text) : Prop := ∀ t, text = some t → strlen t < savedStrLen

/-- All that is stored passes. -/
structure Defaults.Pass (d : Defaults) : Prop where
  ip : Passes d.ip
  port : Passes d.port
  password : Passes d.password
  encryption : Passes d.encryption

/-- A profile with an address and a password that pass. -/
structure Profile.Usable (profile : Profile) : Prop where
  server_some : profile.server.isSome
  password_some : profile.password.isSome
  server : Passes profile.server
  password : Passes profile.password
  method : Passes profile.method

/-- The profile that will be in use once the configuration is saved can be used. -/
def Configuration.Usable (configuration : Configuration) : Prop :=
  configuration.adjusted.current ≠ -1 → ∀ profile,
    configuration.adjusted.profileAt configuration.adjusted.current = some profile →
      profile.Usable

/-- What is going to be stored passes, and no key that is needed goes missing. -/
def Act.Acceptable (F : Foundation) (a : App S) : Act → Prop
  | .operation .launch => True
  | .operation (.openSSURL url) => ∀ server, F.Names url server → server.Saveable
  | .operation (.chooseServer tag) => (choice tag a.defaults).Usable
  | .operation (.ok configuration) => configuration.Usable
  | .done ip port password =>
    (Passes (savedText ip) ∧ Passes (savedText port) ∧ Passes (savedText password)) ∧
      (a.defaults.isUsingPublicServer = true ∨ ip.isSome ∧ port.isSome ∧ password.isSome)
  | .chooseMethod _ => True
  | .changePublicServer use => use = true ∨ a.defaults.arguments.isSome

/-- The program accepts a server text, the texts of its fields, or a list of profiles. -/
def Act.Accepts (F : Foundation) (a : App S) (act : Act) : Prop :=
  a.process.isSome ∧
    match act with
    | .operation (.openSSURL url) => ∃ server, F.Names url server
    | .operation (.ok _) => True
    | .done ip port password => ip.isSome ∧ port.isSome ∧ password.isSome
    | _ => False

theorem Defaults.complete_iff :
    d.settingsAreNotComplete = false ↔ d.isUsingPublicServer = true ∨ d.arguments.isSome := by
  obtain ⟨ip, port, password, encryption, use, config⟩ := d
  cases ip <;> cases port <;> cases password <;>
    simp [settingsAreNotComplete, arguments, isUsingPublicServer]

theorem Defaults.Pass.saveable {server : ServerText} (h : d.Pass)
    (harguments : d.arguments = some server) : server.Saveable := by
  obtain ⟨ip, port, password, encryption, use, config⟩ := d
  cases ip <;> cases port <;> cases password <;> simp only [arguments, reduceCtorEq] at harguments
  rename_i ip port password
  cases harguments
  have hdefault : strlen "aes-256-cfb".toList < savedStrLen := by decide +kernel
  intro part hpart
  simp only [List.mem_cons, List.not_mem_nil, or_false] at hpart
  rcases hpart with rfl | rfl | rfl | rfl
  · exact h.ip _ rfl
  · exact h.port _ rfl
  · exact h.password _ rfl
  · cases encryption with
    | none => exact hdefault
    | some method => exact h.encryption _ rfl

/-- The assertions hold of settings that are complete and pass. -/
theorem Defaults.Pass.reaches (h : d.Pass) (hcomplete : d.settingsAreNotComplete = false) :
    d.Reaches S := by
  refine ⟨hcomplete, ?_⟩
  intro r
  cases hpublic : d.isUsingPublicServer with
  | true =>
    rw [reloadConfig_public hpublic, overwriteKey]
    split
    · exact ⟨nofun, nofun⟩
    · exact ⟨nofun, nofun⟩
  | false =>
    rw [reloadConfig_own hpublic]
    cases harguments : d.arguments with
    | none => exact ⟨nofun, nofun⟩
    | some server =>
      have hsaveable := h.saveable harguments
      simp only [if_pos hsaveable]
      exact ⟨nofun, nofun⟩

theorem passes_none : Passes none := nofun

theorem passes_some {text : Text} : Passes (some text) ↔ strlen text < savedStrLen := by
  simp [Passes]

/-- The digits of a port are never too many. -/
theorem passes_decimal (n : NSInteger) : Passes (some (decimal n)) := by
  have hdigits := length_decimal n
  have hbytes : ∀ text : Text, (utf8 text).length ≤ 4 * text.length := by
    intro text
    induction text with
    | nil => exact Nat.le_refl 0
    | cons c text ih =>
      have hc := c.utf8Size_le_four
      simp only [utf8, List.flatMap_cons, List.length_append, String.length_utf8EncodeChar,
        List.length_cons] at ih ⊢
      omega
  have hcString : (cString (decimal n)).length ≤ (decimal n).length :=
    (List.takeWhile_prefix _).length_le
  rw [passes_some, strlen, savedStrLen]
  have := hbytes (cString (decimal n))
  omega

theorem Defaults.pass_empty : Defaults.empty.Pass :=
  ⟨passes_none, passes_none, passes_none, passes_none⟩

theorem Defaults.pass_storeServer {server : ServerText} (h : server.Saveable) :
    (d.storeServer server).Pass where
  ip := passes_some.mpr (h _ (by simp))
  port := passes_some.mpr (h _ (by simp))
  password := passes_some.mpr (h _ (by simp))
  encryption := passes_some.mpr (h _ (by simp))

theorem Defaults.pass_using {profile : Profile} (h : profile.Usable) :
    (d.using profile).Pass :=
  ⟨h.server, passes_decimal _, h.password, h.method⟩

theorem Defaults.complete_using {profile : Profile} (h : profile.Usable) :
    (d.using profile).settingsAreNotComplete = false := by
  obtain ⟨server, hserver⟩ := Option.isSome_iff_exists.mp h.server_some
  obtain ⟨password, hpassword⟩ := Option.isSome_iff_exists.mp h.password_some
  rw [complete_iff]
  right
  simp [arguments, «using», hserver, hpassword]

/-- Saving a configuration leaves settings that pass, and are complete. -/
theorem pass_saveConfiguration {configuration : Configuration} (h : d.Pass)
    (husable : configuration.Usable) (r : LocalConfig S) :
    (ProfileManager.saveConfiguration configuration d r).1.Pass ∧
      (ProfileManager.saveConfiguration configuration d r).1.settingsAreNotComplete = false := by
  obtain ⟨d', hsave, ⟨-, hd'⟩ | ⟨hcurrent, profile, hprofile, hd'⟩⟩ :=
    saveConfiguration_cases configuration d r
  · rw [hsave, hd']
    exact ⟨⟨h.ip, h.port, h.password, h.encryption⟩, Defaults.complete_iff.mpr (Or.inl rfl)⟩
  · have hprofile := husable hcurrent profile hprofile
    rw [hsave, hd']
    exact ⟨Defaults.pass_using hprofile, Defaults.complete_using hprofile⟩

theorem strlen_offeredMethods (row : Fin 15) :
    strlen offeredMethods[row].toList < savedStrLen := by
  revert row
  decide +kernel

theorem App.act_stopped (h : a.process = none) (act : Act) :
    (a.act F act).defaults = a.defaults := by
  cases act with
  | operation operation => exact defaults_stopped h operation
  | _ => simp only [App.act, h]

/-- One act keeps what is stored within the assertions. -/
theorem App.pass_act (h : a.defaults.Pass) {act : Act} (hact : act.Acceptable F a) :
    (a.act F act).defaults.Pass := by
  cases hprocess : a.process with
  | none =>
    rw [act_stopped hprocess]
    exact h
  | some r =>
    have hsome : a.process.isSome := by rw [hprocess]; rfl
    cases act with
    | operation operation =>
      cases operation with
      | launch => exact h
      | openSSURL url =>
        obtain ⟨-, hsame⟩ | ⟨server, hnames, hstored⟩ := defaults_openSSURL (F := F) hsome url
        · simp only [App.act, hsame]
          exact h
        · simp only [App.act, hstored]
          exact Defaults.pass_storeServer (hact server hnames)
      | chooseServer tag =>
        simp only [App.act, defaults_chooseServer hprocess]
        exact (pass_saveConfiguration h hact r).1
      | ok configuration =>
        simp only [App.act, defaults_ok hprocess]
        exact (pass_saveConfiguration h hact r).1
    | done ip port password =>
      simp only [App.act, hprocess]
      obtain ⟨⟨hip, hport, hpassword⟩, -⟩ := hact
      exact ⟨hip, hport, hpassword, h.encryption⟩
    | chooseMethod row =>
      simp only [App.act, hprocess]
      exact ⟨h.ip, h.port, h.password, passes_some.mpr (strlen_offeredMethods row)⟩
    | changePublicServer use =>
      simp only [App.act, hprocess]
      exact ⟨h.ip, h.port, h.password, h.encryption⟩

theorem Defaults.complete_done {ip port password : Option (Option Text)}
    (h : ip.isSome ∧ port.isSome ∧ password.isSome) :
    (((d.saveConfigForKey (savedText ip) .ip).saveConfigForKey (savedText port) .port
      ).saveConfigForKey (savedText password) .password).settingsAreNotComplete = false := by
  obtain ⟨hip, hport, hpassword⟩ := h
  obtain ⟨ip, rfl⟩ := Option.isSome_iff_exists.mp hip
  obtain ⟨port, rfl⟩ := Option.isSome_iff_exists.mp hport
  obtain ⟨password, rfl⟩ := Option.isSome_iff_exists.mp hpassword
  exact complete_iff.mpr (Or.inr rfl)

/-- Settings that are complete stay so, and what is accepted completes them. -/
theorem App.complete_act (h : a.defaults.Pass) {act : Act} (hact : act.Acceptable F a)
    (hcomplete : a.defaults.settingsAreNotComplete = false ∨ act.Accepts F a) :
    (a.act F act).defaults.settingsAreNotComplete = false := by
  cases hprocess : a.process with
  | none =>
    rw [act_stopped hprocess]
    rcases hcomplete with hcomplete | ⟨hsome, -⟩
    · exact hcomplete
    · rw [hprocess] at hsome
      cases hsome
  | some r =>
    have hsome : a.process.isSome := by rw [hprocess]; rfl
    cases act with
    | operation operation =>
      cases operation with
      | launch =>
        rcases hcomplete with hcomplete | ⟨-, haccepts⟩
        · exact hcomplete
        · cases haccepts
      | openSSURL url =>
        obtain ⟨hnone, hsame⟩ | ⟨server, -, hstored⟩ := defaults_openSSURL (F := F) hsome url
        · simp only [App.act, hsame]
          rcases hcomplete with hcomplete | ⟨-, server, hnames⟩
          · exact hcomplete
          · exact absurd hnames (hnone server)
        · simp only [App.act, hstored]
          exact Defaults.complete_iff.mpr (Or.inr rfl)
      | chooseServer tag =>
        simp only [App.act, defaults_chooseServer hprocess]
        exact (pass_saveConfiguration h hact r).2
      | ok configuration =>
        simp only [App.act, defaults_ok hprocess]
        exact (pass_saveConfiguration h hact r).2
    | done ip port password =>
      simp only [App.act, hprocess, left]
      rcases hcomplete with hcomplete | ⟨-, haccepts⟩
      · rcases hact.2 with hpublic | hfields
        · exact Defaults.complete_iff.mpr (Or.inl hpublic)
        · exact Defaults.complete_done hfields
      · exact Defaults.complete_done haccepts
    | chooseMethod row =>
      simp only [App.act, hprocess]
      rcases hcomplete with hcomplete | ⟨-, haccepts⟩
      · exact hcomplete
      · cases haccepts
    | changePublicServer use =>
      simp only [App.act, hprocess]
      rcases hact with huse | harguments
      · exact Defaults.complete_iff.mpr (Or.inl huse)
      · exact Defaults.complete_iff.mpr (Or.inr harguments)

/-- After anything has been accepted in a run of acceptable acts, every `reloadConfig` gets to
`config_encryption`. -/
theorem App.run_reaches (hfirst : a.defaults = .empty) {before : List Act} {act : Act}
    {later : List Act}
    (h : Run.Along (App.act F) (fun a act => act.Acceptable F a) a (before ++ act :: later))
    (haccepts : act.Accepts F (Run.after (App.act F) a before)) :
    (Run.after (App.act F) a (before ++ act :: later)).defaults.Reaches S := by
  obtain ⟨hbefore, hact, hlater⟩ := (Run.along_append a before _).mp h
  have hpass : (Run.after (App.act F) a before).defaults.Pass :=
    Run.invariant (I := fun a : App S => a.defaults.Pass)
      (fun a act hpass hact => pass_act hpass hact) (hfirst ▸ Defaults.pass_empty) hbefore
  have haccepted := complete_act hpass hact (Or.inr haccepts)
  rw [Run.after_append, Run.after_cons]
  obtain ⟨hend, hcomplete⟩ := Run.invariant
    (I := fun a : App S => a.defaults.Pass ∧ a.defaults.settingsAreNotComplete = false)
    (fun a act hstate hact => ⟨pass_act hstate.1 hact, complete_act hstate.1 hact
      (Or.inl hstate.2)⟩) ⟨pass_act hpass hact, haccepted⟩ hlater
  exact hend.reaches hcomplete

theorem App.run_reaches_done :
    (Run.after (App.act .reference) ⟨.empty, some (.zeroed Reference.openssl)⟩
      ([] ++ .done (some (some "10.0.0.1".toList)) (some (some "8388".toList)) (some none) ::
        [.changePublicServer false, .operation .launch])).defaults.Reaches
      Reference.openssl := by
  refine run_reaches rfl ⟨⟨⟨?_, ?_, ?_⟩, Or.inl rfl⟩, Or.inr rfl, trivial, trivial⟩
    ⟨rfl, rfl, rfl, rfl⟩
  · exact passes_some.mpr (by decide +kernel)
  · exact passes_some.mpr (by decide +kernel)
  · exact passes_some.mpr (by decide +kernel)

/-- An address of 512 characters is saved, and fails its assertion from then on. -/
theorem App.not_reaches_long :
    ¬ (Run.after (App.act .reference) ⟨.empty, some (.zeroed Reference.openssl)⟩
      [.changePublicServer false,
        .done (some (some (List.replicate 512 'a'))) (some (some "8388".toList))
          (some (some "secret".toList)),
        .operation .launch]).defaults.Reaches Reference.openssl := by
  intro h
  have hreload := (h.2 (.zeroed Reference.openssl)).1
  apply hreload
  rw [reloadConfig_own rfl]
  exact if_neg (by decide +kernel)

end Shadowsocks
