import Shadowsocks.Library.Run
import Shadowsocks.Settings.Accepting

/-!
ProfileManager.m, and what the application does with it: the list of servers is stored beside
the settings that `reloadConfig` reads.
-/
namespace Shadowsocks

variable {S : OpenSSL}

/-- `n < count`, where the count is unsigned: no negative number is below it. -/
def NSInteger.below (n : NSInteger) (count : Nat) : Prop := 0 ≤ n.toInt ∧ n.toInt < count

instance (n : NSInteger) (count : Nat) : Decidable (NSInteger.below n count) :=
  inferInstanceAs (Decidable (_ ∧ _))

namespace Configuration

variable (configuration : Configuration)

/-- `profiles[n]`, unless that is out of bounds. -/
def profileAt (n : NSInteger) : Option Profile :=
  if 0 ≤ n.toInt then configuration.profiles[n.toInt.toNat]? else none

/-- What `saveConfiguration` makes of `current` before it stores anything. -/
def adjusted : Configuration :=
  let configuration :=
    if configuration.profiles.length = 0 then { configuration with current := -1 }
    else configuration
  if configuration.current ≠ -1 ∧
      ¬ NSInteger.below configuration.current configuration.profiles.length then
    { configuration with current := 0 }
  else configuration

end Configuration

namespace ProfileManager

def configuration (d : Defaults) : Configuration :=
  match d.config with
  | none =>
    if d.isUsingPublicServer then ⟨-1, []⟩
    else
      let profile :=
        { Profile.init with
          server := d.configForKey .ip
          serverPort := (d.configForKey .port).elim 0 integerValue
          password := d.configForKey .password
          method := d.configForKey .encryption }
      ⟨0, [profile]⟩
  | some data => Configuration.initWithJSONData data

def reloadShadowsocksRunner (d : Defaults) (r : LocalConfig S) :
    Defaults × Except Crash (LocalConfig S) :=
  let configuration := configuration d
  if configuration.current = -1 then
    let d := d.setUsingPublicServer true
    (d, reloadConfig d r)
  else
    match configuration.profileAt configuration.current with
    | none => (d, .error .outOfBounds)
    | some profile =>
      let d := d.setUsingPublicServer false
      let d := d.saveConfigForKey profile.server .ip
      let d := d.saveConfigForKey (some (decimal profile.serverPort)) .port
      let d := d.saveConfigForKey profile.password .password
      let d := d.saveConfigForKey profile.method .encryption
      (d, reloadConfig d r)

def saveConfiguration (configuration : Configuration) (d : Defaults) (r : LocalConfig S) :
    Defaults × Except Crash (LocalConfig S) :=
  reloadShadowsocksRunner { d with config := some configuration.adjusted.jsonData } r

end ProfileManager

/-- What `chooseServer:` saves for the menu item with this tag. -/
def choice (tag : NSInteger) (d : Defaults) : Configuration :=
  let configuration := ProfileManager.configuration d
  if tag = -1 ∨ NSInteger.below tag configuration.profiles.length then
    { configuration with current := tag }
  else configuration

def chooseServer (tag : NSInteger) (d : Defaults) (r : LocalConfig S) :
    Defaults × Except Crash (LocalConfig S) :=
  ProfileManager.saveConfiguration (choice tag d) d r

/-- `saveSettings` and the second `reloadConfig` of the window's OK. -/
def saveSettings (configuration : Configuration) (d : Defaults) (r : LocalConfig S) :
    Defaults × Except Crash (LocalConfig S) :=
  match ProfileManager.saveConfiguration configuration d r with
  | (d, .ok r) => (d, reloadConfig d r)
  | (d, .error crash) => (d, .error crash)

inductive Operation
  /-- Application start. -/
  | launch
  /-- A URL or a QR code that the user agrees to. -/
  | openSSURL (url : NSURL)
  | chooseServer (tag : NSInteger)
  /-- The config window's OK. -/
  | ok (configuration : Configuration)

/-- The settings outlast the process. -/
structure App (S : OpenSSL) where
  defaults : Defaults
  process : Option (LocalConfig S)

/-- A crash leaves no process. -/
def App.left (result : Defaults × Except Crash (LocalConfig S)) : App S :=
  ⟨result.1, result.2.toOption⟩

/-- Without a process nothing but application start does anything. -/
def App.step (F : Foundation) (a : App S) (operation : Operation) : App S :=
  match operation, a.process with
  | .launch, _ => .left (a.defaults, reloadConfig a.defaults (.zeroed S))
  | _, none => a
  | .openSSURL url, some r =>
    let (d, result) := F.openSSURL url a.defaults r
    .left (d, result.map Prod.snd)
  | .chooseServer tag, some r => .left (Shadowsocks.chooseServer tag a.defaults r)
  | .ok configuration, some r => .left (saveSettings configuration a.defaults r)

variable {F : Foundation} {configuration : Configuration} {d : Defaults}

theorem Configuration.adjusted_eq_self
    (h : configuration.current = -1 ∨
      NSInteger.below configuration.current configuration.profiles.length) :
    configuration.adjusted = configuration := by
  obtain ⟨current, profiles⟩ := configuration
  simp only [adjusted]
  rcases h with h | h
  · simp only at h
    simp [h]
  · have hlength : profiles.length ≠ 0 := by
      have := h.1
      have := h.2
      simp only at *
      omega
    simp [hlength, h]

@[simp] theorem Configuration.adjusted_profiles (configuration : Configuration) :
    configuration.adjusted.profiles = configuration.profiles := by
  simp only [adjusted]
  split <;> split <;> rfl

/-- What is stored designates the public server or one of its own profiles. -/
theorem Configuration.adjusted_valid (configuration : Configuration) :
    configuration.adjusted.current = -1 ∨
      NSInteger.below configuration.adjusted.current configuration.profiles.length := by
  obtain ⟨current, profiles⟩ := configuration
  simp only [adjusted]
  by_cases hlength : profiles.length = 0
  · left
    simp [hlength]
  · rw [if_neg hlength]
    by_cases hbelow : current ≠ -1 ∧ ¬ NSInteger.below current profiles.length
    · right
      rw [if_pos hbelow]
      have hzero : (0 : NSInteger).toInt = 0 := rfl
      constructor
      · exact hzero ▸ Int.le_refl _
      · simp only [hzero]
        omega
    · rw [if_neg hbelow]
      by_cases hpublic : current = -1
      · exact Or.inl hpublic
      · exact Or.inr (not_not.mp fun h => hbelow ⟨hpublic, h⟩)

theorem Configuration.profileAt_of_below {n : NSInteger}
    (h : NSInteger.below n configuration.profiles.length) :
    ∃ profile, configuration.profileAt n = some profile := by
  have hlt : n.toInt.toNat < configuration.profiles.length := by
    have := h.1
    have := h.2
    omega
  exact ⟨configuration.profiles[n.toInt.toNat], by
    rw [profileAt, if_pos h.1, List.getElem?_eq_getElem hlt]⟩

/-- The keys that `reloadConfig` reads are those of the profile. -/
structure Defaults.Uses (d : Defaults) (profile : Profile) : Prop where
  own : d.isUsingPublicServer = false
  ip : d.ip = profile.server
  port : d.port = some (decimal profile.serverPort)
  password : d.password = profile.password
  encryption : d.encryption = profile.method

/-- The keys are those of the server that the configuration designates. -/
def Defaults.Follows (d : Defaults) (configuration : Configuration) : Prop :=
  configuration.current = -1 ∧ d.isUsingPublicServer = true ∨
  configuration.current ≠ -1 ∧ ∃ profile,
    configuration.profileAt configuration.current = some profile ∧ d.Uses profile

/-- The settings with a profile in use. -/
def Defaults.using (d : Defaults) (profile : Profile) : Defaults :=
  { d with
    ip := profile.server
    port := some (decimal profile.serverPort)
    password := profile.password
    encryption := profile.method
    usePublicServer := some false }

/-- Both ways through `saveConfiguration`. -/
theorem saveConfiguration_cases (configuration : Configuration) (d : Defaults)
    (r : LocalConfig S) : ∃ d',
    ProfileManager.saveConfiguration configuration d r = (d', reloadConfig d' r) ∧
    (configuration.adjusted.current = -1 ∧
        d' = { d with
          config := some configuration.adjusted.jsonData
          usePublicServer := some true } ∨
      configuration.adjusted.current ≠ -1 ∧ ∃ profile,
        configuration.adjusted.profileAt configuration.adjusted.current = some profile ∧
        d' = { d with config := some configuration.adjusted.jsonData }.using profile) := by
  simp only [ProfileManager.saveConfiguration, ProfileManager.reloadShadowsocksRunner,
    ProfileManager.configuration, Configuration.initWithJSONData_jsonData]
  by_cases hpublic : configuration.adjusted.current = -1
  · rw [if_pos hpublic]
    exact ⟨_, rfl, Or.inl ⟨hpublic, rfl⟩⟩
  · rw [if_neg hpublic]
    have hbelow := configuration.adjusted_valid.resolve_left hpublic
    rw [← configuration.adjusted_profiles] at hbelow
    obtain ⟨profile, hprofile⟩ := Configuration.profileAt_of_below hbelow
    simp only [hprofile]
    exact ⟨_, rfl, Or.inr ⟨hpublic, profile, rfl, rfl⟩⟩

/-- The second `reloadConfig` writes nothing. -/
theorem saveSettings_fst (configuration : Configuration) (d : Defaults) (r : LocalConfig S) :
    (saveSettings configuration d r).1 =
      (ProfileManager.saveConfiguration configuration d r).1 := by
  simp only [saveSettings]
  split
  · rename_i hsave
    rw [hsave]
  · rename_i hsave
    rw [hsave]

/-- Nothing is written while the application is not running. -/
theorem App.defaults_stopped {a : App S} (h : a.process = none) (operation : Operation) :
    (a.step F operation).defaults = a.defaults := by
  obtain ⟨d, process⟩ := a
  obtain rfl : process = none := h
  cases operation <;> rfl

theorem App.defaults_chooseServer {a : App S} {r : LocalConfig S} (h : a.process = some r)
    (tag : NSInteger) : (a.step F (.chooseServer tag)).defaults =
      (ProfileManager.saveConfiguration (choice tag a.defaults) a.defaults r).1 := by
  obtain ⟨d, process⟩ := a
  obtain rfl : process = some r := h
  rfl

theorem App.defaults_ok {a : App S} {r : LocalConfig S} (h : a.process = some r)
    (configuration : Configuration) : (a.step F (.ok configuration)).defaults =
      (ProfileManager.saveConfiguration configuration a.defaults r).1 := by
  obtain ⟨d, process⟩ := a
  obtain rfl : process = some r := h
  exact saveSettings_fst configuration d r

end Shadowsocks
