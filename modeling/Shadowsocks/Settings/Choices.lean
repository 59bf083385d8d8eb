import Shadowsocks.Settings.Window

/-!
Servers chosen from the status menu while the config window is open. Beside the application and
its window, identities of the profiles are kept: a profile has one from the time it is added,
wherever it is moved and whatever is typed into it.
-/
namespace Shadowsocks

variable {F : Foundation} {S : OpenSSL} {d : Defaults} {w w' : Window}

inductive Target
  | publicServer
  | profile (id : Nat)
  deriving DecidableEq

/-- What `current` designates in a list of these identities. -/
def designated (current : NSInteger) (ids : List Nat) : Option Target :=
  if current = -1 then some .publicServer
  else if 0 ≤ current.toInt then ids[current.toInt.toNat]?.map .profile
  else none

/-- The profile is no longer in the list. -/
def Target.Gone (target : Target) (ids : List Nat) : Prop :=
  ∃ id, target = .profile id ∧ id ∉ ids

structure Desk (S : OpenSSL) where
  app : App S
  window : Option Window
  /-- The identities of the profiles that are stored, and of those in the window. -/
  stored : List Nat
  inWindow : List Nat
  /-- The next identity. -/
  fresh : Nat
  /-- What was chosen from the menu most recently. -/
  chosen : Option Target
  /-- The `current` that the window has loaded. -/
  loaded : NSInteger

inductive Action
  /-- An item of the status menu. -/
  | choose (tag : NSInteger)
  | load
  | select (row : Option Nat)
  | edit (fields : Fields)
  | add
  | remove
  | ok
  | cancel

namespace Desk

/-- The configuration that is stored. -/
def configuration (s : Desk S) : Configuration := ProfileManager.configuration s.app.defaults

/-- A desk on which nothing has happened yet. -/
def start (app : App S) : Desk S :=
  let count := (ProfileManager.configuration app.defaults).profiles.length
  { app := app
    window := none
    stored := List.range count
    inWindow := []
    fresh := count
    chosen := none
    loaded := 0 }

/-- What happens to a window that is open. -/
def windowStep (F : Foundation) (s : Desk S) (w : Window) : Action → Desk S
  | .select row => { s with window := some (w.select row) }
  | .edit fields => { s with window := some { w with fields := fields } }
  | .add =>
    match w.add with
    | none => s
    | some w =>
      { s with
        window := some w
        inWindow := s.inWindow ++ [s.fresh]
        fresh := s.fresh + 1 }
  | .remove =>
    { s with
      window := some w.remove
      inWindow := w.row.elim s.inWindow s.inWindow.eraseIdx }
  | .ok =>
    match w.saveCurrentProfile with
    | none => s
    | some w =>
      { s with
        app := s.app.step F (.ok w.configuration)
        window := none
        stored := s.inWindow }
  | .cancel => { s with window := none }
  | _ => s

/-- The menu has items for the public server and for the profiles that are stored. -/
def step (F : Foundation) (s : Desk S) (action : Action) : Desk S :=
  match s.app.process, action, s.window with
  | none, _, _ => s
  | some _, .choose tag, _ =>
    { s with
      app := s.app.step F (.chooseServer tag)
      chosen :=
        if tag = -1 ∨ NSInteger.below tag s.configuration.profiles.length then
          designated tag s.stored
        else s.chosen }
  | some _, .load, _ =>
    { s with
      window := some (loadSettings s.app.defaults)
      inWindow := s.stored
      loaded := s.configuration.current }
  | some _, _, none => s
  | some _, action, some w => s.windowStep F w action

/-- The server that is current is the one most recently chosen, unless its profile was removed. -/
def KeepsChoice (s : Desk S) : Prop :=
  ∀ target, s.chosen = some target →
    designated s.configuration.current s.stored = some target ∨ target.Gone s.stored

/-- When OK is pressed, the choice is still the one that the window has loaded, or its profile
has been removed in the window. When a row before the current one is removed, the profile that is
shown next, the last of those that remain, has a server, a method and a password. -/
def Undisturbed (s : Desk S) (action : Action) : Prop :=
  ∀ w, s.window = some w →
    match action with
    | .ok => s.configuration.current = s.loaded ∨
        ∀ target, s.chosen = some target → target.Gone s.inWindow
    | .remove => ∀ row, w.row = some row → (row : Int) < w.configuration.current.toInt →
        ∀ profile, (w.profiles.eraseIdx row).getLast? = some profile → profile.Complete
    | _ => True

/-- What the window holds, next to what was stored when it was loaded. -/
structure Tracks (s : Desk S) (w : Window) : Prop where
  length : s.inWindow.length = w.profiles.length
  nodup : s.inWindow.Nodup
  lt_fresh : ∀ id ∈ s.inWindow, id < s.fresh
  chosen : ∀ id, s.chosen = some (.profile id) → id ∈ s.inWindow → id ∈ s.stored
  loaded : ∀ target, designated s.loaded s.stored = some target →
    designated w.configuration.current s.inWindow = some target ∨ target.Gone s.inWindow

structure Invariant (s : Desk S) : Prop where
  length : s.stored.length = s.configuration.profiles.length
  nodup : s.stored.Nodup
  lt_fresh : ∀ id ∈ s.stored, id < s.fresh
  chosen_lt : ∀ id, s.chosen = some (.profile id) → id < s.fresh
  keeps : s.KeepsChoice
  tracks : ∀ w, s.window = some w → s.Tracks w

end Desk

theorem below_of_designated {current : NSInteger} {ids : List Nat} {target : Target}
    (h : designated current ids = some target) :
    current = -1 ∨ NSInteger.below current ids.length := by
  simp only [designated] at h
  split at h
  · left
    assumption
  · split at h
    · rename_i hle
      obtain ⟨id, hid, -⟩ := Option.map_eq_some_iff.mp h
      have hlt := (List.getElem?_eq_some_iff.mp hid).1
      exact Or.inr ⟨hle, by omega⟩
    · cases h

theorem mem_of_designated {current : NSInteger} {ids : List Nat} {id : Nat}
    (h : designated current ids = some (.profile id)) : id ∈ ids := by
  simp only [designated] at h
  split at h
  · cases h
  · split at h
    · obtain ⟨id', hget, heq⟩ := Option.map_eq_some_iff.mp h
      cases heq
      exact List.mem_of_getElem? hget
    · cases h

/-- Appending a profile changes no designation. -/
theorem designated_append {current : NSInteger} {ids more : List Nat} {target : Target}
    (h : designated current ids = some target) :
    designated current (ids ++ more) = some target := by
  have hbelow := below_of_designated h
  simp only [designated] at h ⊢
  split
  · rw [if_pos ‹_›] at h
    exact h
  · rename_i hpublic
    have hcurrent := hbelow.resolve_left hpublic
    have hlt : current.toInt.toNat < ids.length := by
      have := hcurrent.1
      have := hcurrent.2
      omega
    rw [if_neg hpublic, if_pos hcurrent.1] at h
    rw [if_pos hcurrent.1, List.getElem?_append_left hlt]
    exact h

theorem toInt_sub_one {n : NSInteger} (h : 0 < n.toInt) : (n - 1).toInt = n.toInt - 1 := by
  have hlt := n.toInt_lt
  have hone : (1 : NSInteger).toInt = 1 := rfl
  rw [Int64.toInt_sub, hone]
  apply Int.bmod_eq_of_le <;> omega

/-- A profile that is taken out shifts the ones behind it; `current` follows its own. -/
theorem designated_eraseIdx {current : NSInteger} {ids : List Nat} {row : Nat} {target : Target}
    (hnodup : ids.Nodup) (h : designated current ids = some target) :
    designated (if (row : Int) < current.toInt then current - 1 else current)
      (ids.eraseIdx row) = some target ∨ target.Gone (ids.eraseIdx row) := by
  by_cases hpublic : current = -1
  · left
    have hneg : ¬ (row : Int) < current.toInt := by
      have hminus : (-1 : NSInteger).toInt = -1 := rfl
      rw [hpublic, hminus]
      omega
    rw [designated, if_pos hpublic] at h
    rw [if_neg hneg, designated, if_pos hpublic]
    exact h
  · obtain ⟨hle, hlt⟩ := (below_of_designated h).resolve_left hpublic
    rw [designated, if_neg hpublic, if_pos hle] at h
    obtain ⟨id, hid, rfl⟩ := Option.map_eq_some_iff.mp h
    obtain hbefore | heq | hafter := Nat.lt_trichotomy row current.toInt.toNat
    · left
      have hshift : (row : Int) < current.toInt := by omega
      have hminus := toInt_sub_one (n := current) (by omega)
      have hne : current - 1 ≠ -1 := by
        intro he
        rw [he] at hminus
        have : (-1 : NSInteger).toInt = -1 := rfl
        omega
      have hindex : (current - 1).toInt.toNat + 1 = current.toInt.toNat := by omega
      rw [if_pos hshift, designated, if_neg hne, if_pos (by omega),
        List.getElem?_eraseIdx_of_ge (by omega), hindex, hid]
      rfl
    · right
      refine ⟨id, rfl, ?_⟩
      intro hmem
      obtain ⟨j, hj, hget⟩ := List.mem_eraseIdx_iff_getElem?.mp hmem
      have hj' : j < ids.length := (List.getElem?_eq_some_iff.mp hget).1
      rw [← heq] at hid
      exact hj ((List.getElem?_inj hj' hnodup).mp (hget.trans hid.symm))
    · left
      have hstay : ¬ (row : Int) < current.toInt := by omega
      rw [if_neg hstay, designated, if_neg hpublic, if_pos hle,
        List.getElem?_eraseIdx_of_lt hafter, hid]
      rfl

/-- A designation outlasts a profile that is new. -/
theorem designated_or_gone_append {current : NSInteger} {ids : List Nat} {id : Nat}
    {target : Target} (h : designated current ids = some target ∨ target.Gone ids)
    (hnew : target ≠ .profile id) :
    designated current (ids ++ [id]) = some target ∨ target.Gone (ids ++ [id]) := by
  rcases h with h | ⟨old, rfl, hgone⟩
  · exact Or.inl (designated_append h)
  · right
    refine ⟨old, rfl, ?_⟩
    intro hmem
    rcases List.mem_append.mp hmem with hmem | hmem
    · exact hgone hmem
    · exact hnew (congrArg Target.profile (List.mem_singleton.mp hmem))

theorem designated_or_gone_eraseIdx {current : NSInteger} {ids : List Nat} {row : Nat}
    {target : Target} (hnodup : ids.Nodup)
    (h : designated current ids = some target ∨ target.Gone ids) :
    designated (if (row : Int) < current.toInt then current - 1 else current)
      (ids.eraseIdx row) = some target ∨ target.Gone (ids.eraseIdx row) := by
  rcases h with h | ⟨id, rfl, hgone⟩
  · exact designated_eraseIdx hnodup h
  · exact Or.inr ⟨id, rfl, fun hmem => hgone (List.mem_of_mem_eraseIdx hmem)⟩

theorem configuration_saveConfiguration (configuration : Configuration) (d : Defaults)
    (r : LocalConfig S) :
    ProfileManager.configuration (ProfileManager.saveConfiguration configuration d r).1 =
      configuration.adjusted := by
  obtain ⟨d', hsave, ⟨-, hd'⟩ | ⟨-, profile, -, hd'⟩⟩ := saveConfiguration_cases configuration d r
  · rw [hsave, hd']
    exact Configuration.initWithJSONData_jsonData _
  · rw [hsave, hd']
    exact Configuration.initWithJSONData_jsonData _

/-- A list that designates something is stored with the same designation. -/
theorem designated_adjusted {configuration : Configuration} {ids : List Nat} {target : Target}
    (hlength : ids.length = configuration.profiles.length)
    (h : designated configuration.current ids = some target) :
    designated configuration.adjusted.current ids = some target := by
  have hvalid := below_of_designated h
  rw [hlength] at hvalid
  rwa [Configuration.adjusted_eq_self hvalid]

/-- What is shown after a row has been taken out is the last row. -/
theorem Window.removed_shown {row : Nat}
    (h : ∀ profile, (w.profiles.eraseIdx row).getLast? = some profile → profile.Complete) :
    (w.removed row).2 = false := by
  have hlast : ∀ w' : Window, w'.profiles = w.profiles.eraseIdx row →
      (w'.selectedRow = some (w'.profiles.length - 1) ∨ w'.profiles.length = 0) →
      w'.loadCurrentProfile.2 = false := by
    intro w' hprofiles hselected
    simp only [loadCurrentProfile]
    cases hrow : w'.row.bind (w'.profiles[·]?) with
    | none => rfl
    | some profile =>
      obtain ⟨i, hi, hget⟩ := Option.bind_eq_some_iff.mp hrow
      have hlt := row_lt hi
      have hindex : i = w'.profiles.length - 1 := by
        rcases hselected with hselected | hempty
        · exact Option.some.inj ((Option.filter_eq_some_iff.mp hi).1.symm.trans hselected)
        · omega
      rw [hindex, ← List.getLast?_eq_getElem?, hprofiles] at hget
      exact Fields.load_complete _ (h profile hget)
  simp only [removed]
  split
  · exact hlast _ rfl (Or.inl rfl)
  · exact hlast _ rfl (Or.inr (by omega))

theorem Window.remove_spec {row : Nat} (hrow : w.row = some row)
    (hshown : (row : Int) < w.configuration.current.toInt → (w.removed row).2 = false) :
    w.remove.configuration.current =
        (if (row : Int) < w.configuration.current.toInt then w.configuration.current - 1
          else w.configuration.current) ∧
      w.remove.profiles = w.profiles.eraseIdx row := by
  have hremoved := w.removed_configuration row
  simp only [remove, hrow]
  generalize w.removed row = result at hremoved hshown
  obtain ⟨w', raised⟩ := result
  simp only at hremoved hshown
  cases raised with
  | true =>
    have hstay : ¬ (row : Int) < w.configuration.current.toInt := fun hlt => nomatch hshown hlt
    rw [if_neg hstay]
    simp only [profiles, hremoved, and_self]
  | false =>
    simp only [hremoved, profiles]
    split <;> simp [hremoved, profiles]

namespace Desk

variable {s : Desk S} {action : Action}

theorem invariant_start (app : App S) : (start app).Invariant where
  length := List.length_range
  nodup := List.nodup_range
  lt_fresh _ hid := List.mem_range.mp hid
  chosen_lt _ h := nomatch h
  keeps _ h := nomatch h
  tracks _ h := nomatch h

/-- A choice, whether it is followed or not, changes no list. -/
theorem invariant_choose (h : s.Invariant) {r : LocalConfig S} (hr : s.app.process = some r)
    (tag : NSInteger) : (s.step F (.choose tag)).Invariant := by
  have hstored : (s.step F (.choose tag)).configuration = (choice tag s.app.defaults).adjusted := by
    simp only [configuration, step, hr]
    rw [App.defaults_chooseServer hr]
    exact configuration_saveConfiguration _ _ r
  have hprofiles : (choice tag s.app.defaults).profiles = s.configuration.profiles := by
    simp only [choice, configuration]
    split <;> rfl
  have hcurrent : (choice tag s.app.defaults).current =
      if tag = -1 ∨ NSInteger.below tag s.configuration.profiles.length then tag
      else s.configuration.current := by
    simp only [choice, configuration]
    exact apply_ite Configuration.current ..
  have hlength : s.stored.length = (choice tag s.app.defaults).profiles.length := by
    rw [hprofiles]
    exact h.length
  have hlists : (s.step F (.choose tag)).stored = s.stored := by simp only [step, hr]
  have hchosen : (s.step F (.choose tag)).chosen =
      if tag = -1 ∨ NSInteger.below tag s.configuration.profiles.length then
        designated tag s.stored
      else s.chosen := by simp only [step, hr]
  have hmem : ∀ id, (s.step F (.choose tag)).chosen = some (.profile id) →
      id ∈ s.stored ∨ s.chosen = some (.profile id) := by
    intro id hid
    rw [hchosen] at hid
    split at hid
    · exact Or.inl (mem_of_designated hid)
    · exact Or.inr hid
  have hkeeps : (s.step F (.choose tag)).KeepsChoice := by
    intro target htarget
    rw [hstored, hlists]
    rw [hchosen] at htarget
    by_cases hitem : tag = -1 ∨ NSInteger.below tag s.configuration.profiles.length
    · left
      rw [if_pos hitem] at htarget
      apply designated_adjusted hlength
      rw [hcurrent, if_pos hitem]
      exact htarget
    · rw [if_neg hitem] at htarget
      refine (h.keeps target htarget).imp (fun hbefore => ?_) id
      apply designated_adjusted hlength
      rw [hcurrent, if_neg hitem]
      exact hbefore
  have hrest : s.step F (.choose tag) = { s with
      app := (s.step F (.choose tag)).app
      chosen := (s.step F (.choose tag)).chosen } := by simp only [step, hr]
  generalize s.step F (.choose tag) = s' at *
  refine ⟨?_, ?_, ?_, ?_, hkeeps, ?_⟩
  · rw [hlists, hstored, Configuration.adjusted_profiles]
    exact hlength
  · rw [hlists]
    exact h.nodup
  · rw [hrest]
    exact h.lt_fresh
  · intro id hid
    have hfresh : s'.fresh = s.fresh := by rw [hrest]
    rw [hfresh]
    exact (hmem id hid).elim (h.lt_fresh id) (h.chosen_lt id)
  · intro w hw
    have hwindow : s.window = some w := by
      rw [hrest] at hw
      exact hw
    have htracks := h.tracks w hwindow
    rw [hrest]
    refine ⟨htracks.length, htracks.nodup, htracks.lt_fresh, ?_, htracks.loaded⟩
    intro id hid hin
    exact (hmem id hid).elim (fun hid => hid) fun hold => htracks.chosen id hold hin

theorem invariant_load (h : s.Invariant) {r : LocalConfig S} (hr : s.app.process = some r) :
    (s.step F .load).Invariant := by
  simp only [step, hr]
  exact
    { length := h.length
      nodup := h.nodup
      lt_fresh := h.lt_fresh
      chosen_lt := h.chosen_lt
      keeps := h.keeps
      tracks := by
        rintro w ⟨⟩
        have hconfiguration : (loadSettings s.app.defaults).configuration = s.configuration :=
          Window.loadCurrentProfile_configuration _
        refine ⟨?_, h.nodup, h.lt_fresh, fun _ _ hid => hid, ?_⟩
        · rw [Window.profiles, hconfiguration]
          exact h.length
        · intro target htarget
          rw [hconfiguration]
          exact Or.inl htarget }

/-- Another window with as many profiles and the same choice. -/
theorem Invariant.withWindow (h : s.Invariant) (hw : s.window = some w) {w' : Window}
    (hcurrent : w'.configuration.current = w.configuration.current)
    (hlength : w'.profiles.length = w.profiles.length) :
    ({ s with window := some w' } : Desk S).Invariant := by
  have htracks := h.tracks w hw
  refine ⟨h.length, h.nodup, h.lt_fresh, h.chosen_lt, h.keeps, ?_⟩
  rintro _ ⟨⟩
  refine ⟨hlength ▸ htracks.length, htracks.nodup, htracks.lt_fresh, htracks.chosen, ?_⟩
  rw [hcurrent]
  exact htracks.loaded

/-- The new profile is none of those that have been. -/
theorem invariant_add (h : s.Invariant) (hw : s.window = some w) :
    (s.windowStep F w .add).Invariant := by
  have htracks := h.tracks w hw
  simp only [windowStep]
  cases hadd : w.add with
  | none => exact h
  | some w' =>
    obtain ⟨hcurrent, hlength⟩ := Window.add_spec hadd
    have hnew : s.fresh ∉ s.inWindow := fun hmem => Nat.lt_irrefl _ (htracks.lt_fresh _ hmem)
    refine ⟨h.length, h.nodup, fun id hid => Nat.lt_succ_of_lt (h.lt_fresh id hid),
      fun id hid => Nat.lt_succ_of_lt (h.chosen_lt id hid), h.keeps, ?_⟩
    rintro _ ⟨⟩
    refine ⟨?_, ?_, ?_, ?_, ?_⟩
    · simp only [List.length_append, List.length_singleton]
      rw [hlength, htracks.length]
    · exact htracks.nodup.append (List.nodup_singleton _) (by simpa using hnew)
    · intro id hid
      rcases List.mem_append.mp hid with hid | hid
      · exact Nat.lt_succ_of_lt (htracks.lt_fresh id hid)
      · rw [List.mem_singleton.mp hid]
        exact Nat.lt_succ_self _
    · intro id hid hmem
      rcases List.mem_append.mp hmem with hmem | hmem
      · exact htracks.chosen id hid hmem
      · have hlt := h.chosen_lt id hid
        rw [List.mem_singleton.mp hmem] at hlt
        exact absurd hlt (Nat.lt_irrefl _)
    · intro target htarget
      rw [hcurrent]
      apply designated_or_gone_append (htracks.loaded target htarget)
      rintro rfl
      exact Nat.lt_irrefl _ (h.lt_fresh _ (mem_of_designated htarget))

theorem invariant_remove (h : s.Invariant) (hw : s.window = some w)
    (hundisturbed : s.Undisturbed .remove) : (s.windowStep F w .remove).Invariant := by
  have htracks := h.tracks w hw
  simp only [windowStep]
  cases hrow : w.row with
  | none =>
    have hremove : w.remove = w := by simp only [Window.remove, hrow]
    rw [hremove]
    exact h.withWindow hw rfl rfl
  | some row =>
    obtain ⟨hcurrent, hprofiles⟩ := Window.remove_spec hrow fun hlt =>
      Window.removed_shown (hundisturbed w hw row hrow hlt)
    have hsub : ∀ id, id ∈ s.inWindow.eraseIdx row → id ∈ s.inWindow :=
      fun _ => List.mem_of_mem_eraseIdx
    refine ⟨h.length, h.nodup, h.lt_fresh, h.chosen_lt, h.keeps, ?_⟩
    rintro _ ⟨⟩
    refine ⟨?_, htracks.nodup.eraseIdx row, fun id hid => htracks.lt_fresh id (hsub id hid),
      fun id hid hmem => htracks.chosen id hid (hsub id hmem), ?_⟩
    · simp only [Option.elim_some]
      rw [hprofiles, List.length_eraseIdx, List.length_eraseIdx, htracks.length]
    · intro target htarget
      rw [hcurrent]
      exact designated_or_gone_eraseIdx htracks.nodup (htracks.loaded target htarget)

/-- What is stored is what the window has been working on. -/
theorem invariant_ok (h : s.Invariant) {r : LocalConfig S} (hr : s.app.process = some r)
    (hw : s.window = some w) (hundisturbed : s.Undisturbed .ok) :
    (s.windowStep F w .ok).Invariant := by
  have htracks := h.tracks w hw
  simp only [windowStep]
  cases hsave : w.saveCurrentProfile with
  | none => exact h
  | some w' =>
    obtain ⟨hcurrent, hlength⟩ := Window.saveCurrentProfile_spec hsave
    have hstored : ProfileManager.configuration
        (s.app.step F (.ok w'.configuration)).defaults = w'.configuration.adjusted := by
      rw [App.defaults_ok hr]
      exact configuration_saveConfiguration _ _ r
    have hids : s.inWindow.length = w'.configuration.profiles.length :=
      htracks.length.trans hlength.symm
    refine ⟨?_, htracks.nodup, htracks.lt_fresh, h.chosen_lt, ?_, nofun⟩
    · simp only [configuration, hstored, Configuration.adjusted_profiles]
      exact hids
    · intro target htarget
      simp only [configuration, hstored]
      have hkept : designated w.configuration.current s.inWindow = some target ∨
          target.Gone s.inWindow := by
        rcases hundisturbed w hw with hloaded | hgone
        · rcases h.keeps target htarget with hbefore | ⟨id, rfl, hgone⟩
          · exact htracks.loaded target (hloaded ▸ hbefore)
          · exact Or.inr ⟨id, rfl, fun hmem => hgone (htracks.chosen id htarget hmem)⟩
        · exact Or.inr (hgone target htarget)
      refine hkept.imp (fun hnow => ?_) id
      apply designated_adjusted hids
      rw [hcurrent]
      exact hnow

/-- What happens in the window. -/
theorem invariant_windowStep (h : s.Invariant) {r : LocalConfig S} (hr : s.app.process = some r)
    (hw : s.window = some w) (hundisturbed : s.Undisturbed action) :
    (s.windowStep F w action).Invariant := by
  cases action with
  | choose tag => exact h
  | load => exact h
  | select row =>
    obtain ⟨hcurrent, hlength⟩ := w.select_spec row
    exact h.withWindow hw hcurrent hlength
  | edit fields => exact h.withWindow hw rfl rfl
  | add => exact invariant_add h hw
  | remove => exact invariant_remove h hw hundisturbed
  | ok => exact invariant_ok h hr hw hundisturbed
  | cancel => exact ⟨h.length, h.nodup, h.lt_fresh, h.chosen_lt, h.keeps, nofun⟩

/-- One action keeps the lists and the choice in step. -/
theorem invariant_step (h : s.Invariant) (hundisturbed : s.Undisturbed action) :
    (s.step F action).Invariant := by
  cases hr : s.app.process with
  | none =>
    have hsame : s.step F action = s := by simp only [step, hr]
    rw [hsame]
    exact h
  | some r =>
    cases action with
    | choose tag => exact invariant_choose h hr tag
    | load => exact invariant_load h hr
    | _ =>
      simp only [step, hr]
      cases hw : s.window with
      | none => exact h
      | some w => exact invariant_windowStep h hr hw hundisturbed

/-- In a run of undisturbed actions the current server is always the one most recently chosen
from the menu, unless its profile was removed. -/
theorem run_keepsChoice (app : App S) {actions : List Action}
    (h : Run.Along (step F) Undisturbed (start app) actions) {before : List Action}
    (hbefore : before <+: actions) : (Run.after (step F) (start app) before).KeepsChoice := by
  obtain ⟨rest, rfl⟩ := hbefore
  have hsteps := ((Run.along_append (start app) before rest).mp h).1
  have hinvariant : (Run.after (step F) (start app) before).Invariant :=
    Run.invariant (I := Invariant) (fun s action hs haction => invariant_step hs haction)
      (invariant_start app) hsteps
  exact hinvariant.keeps

/-- The first of two servers is current. -/
def pair : Configuration where
  current := 0
  profiles :=
    [⟨some "10.0.0.1".toList, 8388, none, some "secret".toList, some "table".toList⟩,
     ⟨some "10.0.0.2".toList, 8388, none, some "secret".toList, some "table".toList⟩]

/-- The second server is chosen, and the row before it is removed in the window. -/
theorem run_keepsChoice_remove :
    (Run.after (step .reference)
      (start ⟨{ Defaults.empty with config := some pair.jsonData },
        some (.zeroed Reference.openssl)⟩)
      [.choose 1, .load, .select (some 0), .remove, .ok]).KeepsChoice := by
  refine run_keepsChoice _ ?_ List.prefix_rfl
  refine ⟨fun _ _ => trivial, fun _ _ => trivial, fun _ _ => trivial, ?_, ?_, trivial⟩
  · intro w hw row _ _ profile hlast
    have hcomplete : ∀ profile ∈ w.profiles, profile.Complete := by
      generalize hs : Desk.step _ _ _ = s at hw
      have hall : s.window.all (fun w => w.profiles.all (Decidable.decide ·.Complete)) = true := by
        rw [← hs]
        decide +kernel
      rw [hw] at hall
      exact fun p hp => of_decide_eq_true (List.all_eq_true.mp hall p hp)
    exact hcomplete profile (List.mem_of_mem_eraseIdx (List.mem_of_getLast? hlast))
  · intro w _
    left
    decide +kernel

/-- The second server is chosen while the window is open; its OK goes back to the first. -/
theorem not_keepsChoice_ok :
    ¬ (Run.after (step .reference)
      (start ⟨{ Defaults.empty with config := some pair.jsonData },
        some (.zeroed Reference.openssl)⟩)
      [.load, .select (some 0), .choose 1, .ok]).KeepsChoice := by
  intro h
  rcases h (.profile 1) (by decide +kernel) with hcurrent | ⟨id, hid, hgone⟩
  · exact absurd hcurrent (by decide +kernel)
  · cases hid
    exact hgone (by decide +kernel)

end Desk

end Shadowsocks
