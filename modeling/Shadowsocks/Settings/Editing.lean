import Shadowsocks.Settings.Choices

/-!
The config window from row to row. Its box is one for all profiles; beside the window it is kept
which profile each text of the box belongs to, and every write of the box is recorded.
-/
namespace Shadowsocks

variable {d : Defaults} {w w' : Window}

inductive Field
  | server
  | port
  | method
  | password
  | remarks
  deriving DecidableEq

def Fields.typeInto (fields : Fields) (text : Text) : Field → Fields
  | .server => { fields with server := text }
  | .port => { fields with port := text }
  | .method => { fields with method := text }
  | .password => { fields with password := text }
  | .remarks => { fields with remarks := text }

inductive Edit
  | select (row : Option Nat)
  | type (field : Field) (text : Text)
  | add
  | remove
  | ok

/-- A window that is closed with OK is left with what `saveConfiguration` makes of its
configuration. -/
def Window.act (w : Window) : Edit → Window
  | .select row => w.select row
  | .type field text => { w with fields := w.fields.typeInto text field }
  | .add => w.add.getD w
  | .remove => w.remove
  | .ok => w.saveCurrentProfile.elim w fun w =>
      { w with configuration := w.configuration.adjusted }

/-- A profile into which the box is written, and the owners of the texts at that moment. -/
structure Write where
  into : Nat
  owners : Field → Option Nat

/-- The owner of a text is the profile that it was loaded from, or that was shown when it was
typed. -/
structure Editor where
  window : Window
  /-- The identities of the profiles, in the order of their rows. -/
  ids : List Nat
  /-- The next identity. -/
  fresh : Nat
  owners : Field → Option Nat
  writes : List Write

namespace Editor

def start (d : Defaults) : Editor :=
  let count := (ProfileManager.configuration d).profiles.length
  ⟨loadSettings d, List.range count, count, fun _ => none, []⟩

variable (s : Editor)

/-- The profile in the box. -/
def shown : Option Nat := s.window.row.bind (s.ids[·]?)

/-- The owners once a profile is loaded, as far as that goes. -/
def ownersLoading (profile : Profile) : Field → Option Nat
  | .server => if profile.server = none then s.owners .server else s.shown
  | .port => if profile.server = none then s.owners .port else s.shown
  | .method =>
    if profile.server = none ∨ profile.method = none then s.owners .method else s.shown
  | .password => if profile.Complete then s.shown else s.owners .password
  | .remarks => if profile.Complete then s.shown else s.owners .remarks

def load : Editor × Bool :=
  let (window, raised) := s.window.loadCurrentProfile
  ({ s with
    window := window
    owners := (s.window.row.bind (s.window.profiles[·]?)).elim s.owners s.ownersLoading }, raised)

def save : Option Editor :=
  s.window.saveCurrentProfile.map fun window =>
    { s with
      window := window
      writes := s.writes ++ (s.shown.map fun id => ⟨id, s.owners⟩).toList }

def shouldSelectRow (row : Option Nat) : Option Editor :=
  match s.window.selectedRow, row with
  | none, _ => some s
  | some _, none => some s
  | some _, some row => if row < s.window.profiles.length then s.save else some s

def select (row : Option Nat) : Editor :=
  if row.all (· < s.window.profiles.length) then
    match s.shouldSelectRow row with
    | none => s
    | some s =>
      if row = s.window.selectedRow then s
      else ({ s with window := { s.window with selectedRow := row } }).load.1
  else s

def add : Option Editor :=
  let saved := if s.window.profiles.length ≠ 0 then s.save else some s
  saved.map fun s =>
    ({ s with
      window := (s.window.withProfiles
        (s.window.profiles ++ [Window.newProfile])).reloadData.selectLast
      ids := s.ids ++ [s.fresh]
      fresh := s.fresh + 1 }).load.1

def removed (row : Nat) : Editor × Bool :=
  let w := (s.window.withProfiles (s.window.profiles.eraseIdx row)).reloadData
  let w := if w.profiles.length > 0 then w.selectLast else w
  ({ s with window := w, ids := s.ids.eraseIdx row }).load

def remove : Editor :=
  match s.window.row with
  | none => s
  | some row =>
    match s.removed row with
    | (s, true) => s
    | (s, false) =>
      let current := s.window.configuration.current
      if (row : Int) < current.toInt then
        { s with
          window.configuration := { s.window.configuration with current := current - 1 } }
      else s

def step : Edit → Editor
  | .select row => s.select row
  | .type field text =>
    { s with
      window := { s.window with fields := s.window.fields.typeInto text field }
      owners := fun other => if other = field then s.shown else s.owners other }
  | .add => s.add.getD s
  | .remove => s.remove
  | .ok => s.save.elim s fun s =>
      { s with window.configuration := s.window.configuration.adjusted }

/-- The profile that comes into the box with this action. -/
def shows : Edit → Option Profile
  | .select (some row) =>
    if some row ≠ s.window.selectedRow ∧
        (s.window.selectedRow = none ∨ s.window.validateCurrentProfile) then
      s.window.profiles[row]?
    else none
  | .remove => s.window.row.bind fun row => (s.window.profiles.eraseIdx row).getLast?
  | _ => none

/-- What comes into the box has a server, a method and a password. -/
def ShowsComplete (action : Edit) : Prop := ∀ profile, s.shows action = some profile →
  profile.Complete

instance (action : Edit) : Decidable (s.ShowsComplete action) :=
  match h : s.shows action with
  | none => isTrue fun _ hprofile => nomatch h.symm.trans hprofile
  | some profile =>
    decidable_of_iff profile.Complete
      ⟨fun hcomplete _ hprofile => Option.some.inj (h.symm.trans hprofile) ▸ hcomplete,
        fun hcomplete => hcomplete profile h⟩

/-- Everything that was written into a profile was its own. -/
def WritesOwn : Prop := ∀ write ∈ s.writes, ∀ field, write.owners field = some write.into

/-- `current` designates the target, or its profile has been removed. -/
def Designates (target : Target) : Prop :=
  designated s.window.configuration.current s.ids = some target ∨ target.Gone s.ids

end Editor

variable {s s' : Editor} {action : Edit}

theorem Window.saveCurrentProfile_cases (h : w.saveCurrentProfile = some w') :
    w.validateCurrentProfile = true ∧ w'.selectedRow = w.selectedRow ∧
      ∀ row : Nat, some row ≠ w.selectedRow → w'.profiles[row]? = w.profiles[row]? := by
  simp only [saveCurrentProfile] at h
  split at h
  · rename_i hvalid
    split at h
    · cases h
      exact ⟨hvalid, rfl, fun _ _ => rfl⟩
    · rename_i selected hselected
      cases h
      refine ⟨hvalid, rfl, ?_⟩
      intro row hrow
      have hne : selected ≠ row := by
        rintro rfl
        exact hrow (Option.filter_eq_some_iff.mp hselected).1.symm
      exact List.getElem?_set_ne hne
  · cases h

namespace Editor

/-! The window itself does not depend on what is kept beside it. -/

@[simp] theorem load_window (s : Editor) : s.load.1.window = s.window.loadCurrentProfile.1 := rfl

theorem save_window (s : Editor) : s.save.map window = s.window.saveCurrentProfile := by
  simp only [save, Option.map_map]
  exact Option.map_id'

theorem shouldSelectRow_window (s : Editor) (row : Option Nat) :
    (s.shouldSelectRow row).map window = s.window.shouldSelectRow row := by
  simp only [shouldSelectRow, Window.shouldSelectRow]
  cases s.window.selectedRow with
  | none => rfl
  | some selected =>
    cases row with
    | none => rfl
    | some row =>
      simp only
      split
      · exact save_window s
      · rfl

theorem select_window (s : Editor) (row : Option Nat) :
    (s.select row).window = s.window.select row := by
  simp only [select, Window.select, ← shouldSelectRow_window]
  split
  · cases s.shouldSelectRow row with
    | none => rfl
    | some s' =>
      simp only [Option.map_some]
      split <;> rfl
  · rfl

theorem add_window (s : Editor) : s.add.map window = s.window.add := by
  have hsaved : (if s.window.profiles.length ≠ 0 then s.save else some s).map window =
      if s.window.profiles.length ≠ 0 then s.window.saveCurrentProfile else some s.window := by
    rw [apply_ite (Option.map window), save_window]
    rfl
  simp only [add, Window.add, ← hsaved, Option.map_map]
  rfl

theorem remove_window (s : Editor) : s.remove.window = s.window.remove := by
  simp only [remove, Window.remove]
  cases s.window.row with
  | none => rfl
  | some row =>
    dsimp only
    have hwindow : (s.removed row).1.window = (s.window.removed row).1 := rfl
    have hraised : (s.removed row).2 = (s.window.removed row).2 := rfl
    generalize s.removed row = result at hwindow hraised
    generalize s.window.removed row = result' at hwindow hraised
    obtain ⟨s', raised⟩ := result
    obtain ⟨w', raised'⟩ := result'
    simp only at hwindow hraised
    subst hwindow hraised
    cases raised with
    | true => rfl
    | false =>
      simp only
      split <;> rfl

theorem step_window (s : Editor) (action : Edit) :
    (s.step action).window = s.window.act action := by
  cases action with
  | select row => exact select_window s row
  | type field text => rfl
  | add =>
    simp only [step, Window.act, ← add_window]
    cases s.add <;> rfl
  | remove => exact remove_window s
  | ok =>
    simp only [step, Window.act, ← save_window]
    cases s.save <;> rfl

/-- The identities go with the rows. -/
structure Listed (s : Editor) : Prop where
  length : s.ids.length = s.window.profiles.length
  nodup : s.ids.Nodup
  lt_fresh : ∀ id ∈ s.ids, id < s.fresh
  writes : s.WritesOwn

/-- Every text of the box belongs to the profile that is shown. -/
structure Invariant (s : Editor) : Prop extends Listed s where
  owners : ∀ id, s.shown = some id → ∀ field, s.owners field = some id

theorem Listed.shown_of_row {row : Nat} (h : s.Listed) (hrow : s.window.row = some row) :
    ∃ id profile, s.shown = some id ∧ s.window.row.bind (s.window.profiles[·]?) = some profile := by
  have hlt := Window.row_lt hrow
  have hlt' : row < s.ids.length := by rwa [h.length]
  refine ⟨s.ids[row], s.window.profiles[row], ?_, ?_⟩
  · rw [shown, hrow, Option.bind_some]
    exact List.getElem?_eq_getElem _
  · rw [hrow, Option.bind_some]
    exact List.getElem?_eq_getElem _

/-- Loading a complete profile makes every text its own. -/
theorem invariant_load (h : s.Listed)
    (hcomplete : ∀ profile, s.window.row.bind (s.window.profiles[·]?) = some profile →
      profile.Complete) : s.load.1.Invariant := by
  have hconfiguration := Window.loadCurrentProfile_configuration s.window
  have hselected : s.window.loadCurrentProfile.1.selectedRow = s.window.selectedRow := by
    simp only [Window.loadCurrentProfile]
    split <;> rfl
  have hshown : s.load.1.shown = s.shown := by
    simp only [shown, Window.row, Window.profiles, load_window, hconfiguration, hselected]
    rfl
  refine ⟨⟨?_, h.nodup, h.lt_fresh, h.writes⟩, ?_⟩
  · rw [load_window, Window.profiles, hconfiguration]
    exact h.length
  · intro id hid field
    rw [hshown] at hid
    cases hrow : s.window.row with
    | none =>
      rw [shown, hrow] at hid
      cases hid
    | some row =>
      obtain ⟨id', profile, hshown', hprofile⟩ := h.shown_of_row hrow
      obtain ⟨hserver, hmethod, hpassword⟩ := hcomplete profile hprofile
      have howners : s.load.1.owners field = s.ownersLoading profile field := by
        simp only [load, hprofile, Option.elim_some]
      rw [howners]
      cases field <;> simp [ownersLoading, Profile.Complete, hserver, hmethod, hpassword, hid]

/-- Saving writes the box into the profile that is shown. -/
theorem invariant_save (h : s.Invariant) (hsave : s.save = some s') :
    s'.Invariant ∧ s'.ids = s.ids ∧ s'.fresh = s.fresh := by
  obtain ⟨window, hwindow, rfl⟩ := Option.map_eq_some_iff.mp hsave
  have hlength := (Window.saveCurrentProfile_spec hwindow).2
  have hselected := (Window.saveCurrentProfile_cases hwindow).2.1
  refine ⟨⟨⟨?_, h.nodup, h.lt_fresh, ?_⟩, ?_⟩, rfl, rfl⟩
  · exact h.length.trans hlength.symm
  · intro write hmem
    rcases List.mem_append.mp hmem with hmem | hmem
    · exact h.writes write hmem
    · obtain ⟨id, hid, rfl⟩ := Option.map_eq_some_iff.mp (Option.mem_toList.mp hmem)
      exact h.owners id hid
  · intro id hid
    apply h.owners id
    rw [← hid]
    simp only [shown, Window.row, hselected, hlength]

/-- A new row is allowed when no other row is selected or the box is valid, and then the profile
in it has not changed. -/
theorem shouldSelectRow_spec (h : s.Invariant) {row : Option Nat}
    (hshould : s.shouldSelectRow row = some s') :
    s'.Invariant ∧ s'.ids = s.ids ∧ s'.fresh = s.fresh ∧
      s'.window.selectedRow = s.window.selectedRow ∧
      ∀ r, row = some r → r < s.window.profiles.length → row ≠ s.window.selectedRow →
        (s.window.selectedRow = none ∨ s.window.validateCurrentProfile = true) ∧
          s'.window.profiles[r]? = s.window.profiles[r]? := by
  simp only [shouldSelectRow] at hshould
  split at hshould
  · rename_i hselected
    cases hshould
    exact ⟨h, rfl, rfl, rfl, fun _ _ _ _ => ⟨Or.inl hselected, rfl⟩⟩
  · cases hshould
    exact ⟨h, rfl, rfl, rfl, nofun⟩
  · split at hshould
    · obtain ⟨hinvariant, hids, hfresh⟩ := invariant_save h hshould
      have hwindow : s.window.saveCurrentProfile = some s'.window := by
        rw [← save_window, hshould]
        rfl
      obtain ⟨hvalid, hselected, hothers⟩ := Window.saveCurrentProfile_cases hwindow
      refine ⟨hinvariant, hids, hfresh, hselected, ?_⟩
      rintro r ⟨⟩ - hne
      exact ⟨Or.inr hvalid, hothers _ hne⟩
    · rename_i hout
      cases hshould
      refine ⟨h, rfl, rfl, rfl, ?_⟩
      rintro r ⟨⟩ hlt
      exact absurd hlt hout

@[simp] theorem load_ids (s : Editor) : s.load.1.ids = s.ids := rfl

@[simp] theorem load_fresh (s : Editor) : s.load.1.fresh = s.fresh := rfl

theorem invariant_select (h : s.Invariant) {row : Option Nat}
    (hcomplete : s.ShowsComplete (.select row)) :
    (s.select row).Invariant ∧ (s.select row).ids = s.ids ∧ (s.select row).fresh = s.fresh := by
  simp only [select]
  split
  · rename_i hrange
    cases hshould : s.shouldSelectRow row with
    | none => exact ⟨h, rfl, rfl⟩
    | some s' =>
      obtain ⟨hinvariant, hids, hfresh, hselected, hrow⟩ := shouldSelectRow_spec h hshould
      dsimp only
      split
      · exact ⟨hinvariant, hids, hfresh⟩
      · rename_i hne
        rw [load_ids, load_fresh]
        refine ⟨invariant_load ⟨hinvariant.length, hinvariant.nodup, hinvariant.lt_fresh,
          hinvariant.writes⟩ ?_, hids, hfresh⟩
        intro profile hprofile
        obtain ⟨r, hr, hget⟩ := Option.bind_eq_some_iff.mp hprofile
        have hr : row = some r := (Option.filter_eq_some_iff.mp hr).1
        subst hr
        have hlt : r < s.window.profiles.length := by simpa using hrange
        rw [hselected] at hne
        obtain ⟨hfree, hsame⟩ := hrow r rfl hlt hne
        apply hcomplete
        rw [shows, if_pos ⟨hne, hfree⟩, ← hsame]
        exact hget
  · exact ⟨h, rfl, rfl⟩

theorem newProfile_complete : Window.newProfile.Complete := ⟨nofun, nofun, nofun⟩

theorem invariant_add (h : s.Invariant) (hadd : s.add = some s') :
    s'.Invariant ∧ s'.ids = s.ids ++ [s.fresh] ∧ s'.fresh = s.fresh + 1 := by
  obtain ⟨saved, hsaved, rfl⟩ := Option.map_eq_some_iff.mp hadd
  have hkept : saved.Invariant ∧ saved.ids = s.ids ∧ saved.fresh = s.fresh := by
    split at hsaved
    · exact invariant_save h hsaved
    · cases hsaved
      exact ⟨h, rfl, rfl⟩
  obtain ⟨hinvariant, hids, hfresh⟩ := hkept
  rw [load_ids, load_fresh, hids, hfresh]
  refine ⟨invariant_load ⟨?_, ?_, ?_, hinvariant.writes⟩ ?_, rfl, rfl⟩
  · change (s.ids ++ [s.fresh]).length = (saved.window.profiles ++ [Window.newProfile]).length
    rw [List.length_append, List.length_append, ← hinvariant.length, hids]
    rfl
  · refine h.nodup.append (List.nodup_singleton _) ?_
    rw [List.disjoint_singleton]
    exact fun hmem => Nat.lt_irrefl _ (h.lt_fresh _ hmem)
  · intro id hid
    rcases List.mem_append.mp hid with hid | hid
    · exact Nat.lt_succ_of_lt (h.lt_fresh id hid)
    · rw [List.mem_singleton.mp hid]
      exact Nat.lt_succ_self _
  · intro profile hprofile
    obtain ⟨r, hr, hget⟩ := Option.bind_eq_some_iff.mp hprofile
    have hr := (Option.filter_eq_some_iff.mp hr).1
    cases hr
    have hlast : (saved.window.profiles ++ [Window.newProfile])[
        (saved.window.profiles ++ [Window.newProfile]).length - 1]? = some profile := hget
    rw [← List.getLast?_eq_getElem?, List.getLast?_concat] at hlast
    cases hlast
    exact newProfile_complete

/-- Nothing stops the loading of complete profiles. -/
theorem loadCurrentProfile_complete
    (hcomplete : ∀ profile, w.row.bind (w.profiles[·]?) = some profile → profile.Complete) :
    w.loadCurrentProfile.2 = false := by
  simp only [Window.loadCurrentProfile]
  split
  · rfl
  · rename_i profile hprofile
    exact Fields.load_complete w.fields (hcomplete profile hprofile)

/-- With a row taken out, the last one is shown. -/
theorem invariant_removed (h : s.Invariant) {row : Nat} (hrow : s.window.row = some row)
    (hcomplete : s.ShowsComplete .remove) :
    (s.removed row).1.Invariant ∧ (s.removed row).2 = false := by
  have hlength : (s.ids.eraseIdx row).length = (s.window.profiles.eraseIdx row).length := by
    rw [List.length_eraseIdx, List.length_eraseIdx, h.length]
  simp only [removed]
  generalize hrest : s.window.withProfiles (s.window.profiles.eraseIdx row) = rest
  have hprofiles : rest.profiles = s.window.profiles.eraseIdx row := by
    rw [← hrest]
    rfl
  have hafter : (if rest.reloadData.profiles.length > 0 then rest.reloadData.selectLast
      else rest.reloadData).profiles = s.window.profiles.eraseIdx row := by
    split <;> exact hprofiles
  have hlast : ∀ profile, (if rest.reloadData.profiles.length > 0 then rest.reloadData.selectLast
      else rest.reloadData).row.bind ((if rest.reloadData.profiles.length > 0 then
        rest.reloadData.selectLast else rest.reloadData).profiles[·]?) = some profile →
      profile.Complete := by
    intro profile hprofile
    obtain ⟨r, hr, hget⟩ := Option.bind_eq_some_iff.mp hprofile
    have hlt := Window.row_lt hr
    rw [hafter] at hlt hget
    have hpos : rest.reloadData.profiles.length > 0 := by
      change rest.profiles.length > 0
      rw [hprofiles]
      omega
    rw [if_pos hpos] at hr
    have hr : some (rest.profiles.length - 1) = some r := (Option.filter_eq_some_iff.mp hr).1
    apply hcomplete
    rw [shows, hrow, Option.bind_some, List.getLast?_eq_getElem?]
    rw [hprofiles] at hr
    cases hr
    exact hget
  refine ⟨invariant_load ⟨?_, ?_, ?_, h.writes⟩ hlast, loadCurrentProfile_complete hlast⟩
  · rw [hafter]
    exact hlength
  · exact h.nodup.eraseIdx row
  · exact fun id hid => h.lt_fresh id (List.mem_of_mem_eraseIdx hid)

/-- `current` is adjusted beside the rows. -/
theorem Invariant.withConfiguration (h : s.Invariant) {configuration : Configuration}
    (hprofiles : configuration.profiles = s.window.profiles) :
    ({ s with window.configuration := configuration } : Editor).Invariant := by
  refine ⟨⟨?_, h.nodup, h.lt_fresh, h.writes⟩, ?_⟩
  · exact h.length.trans (congrArg List.length hprofiles.symm)
  · intro id hid
    apply h.owners id
    rw [← hid]
    simp only [shown, Window.row, Window.profiles, hprofiles]
    rfl

theorem remove_ids {row : Nat} (hrow : s.window.row = some row) :
    s.remove.ids = s.ids.eraseIdx row ∧ s.remove.fresh = s.fresh := by
  have hids : (s.removed row).1.ids = s.ids.eraseIdx row := rfl
  have hfresh : (s.removed row).1.fresh = s.fresh := rfl
  simp only [remove, hrow]
  generalize s.removed row = result at hids hfresh
  obtain ⟨s', raised⟩ := result
  cases raised with
  | true => exact ⟨hids, hfresh⟩
  | false =>
    dsimp only
    split <;> exact ⟨hids, hfresh⟩

theorem invariant_remove (h : s.Invariant) (hcomplete : s.ShowsComplete .remove) :
    s.remove.Invariant := by
  simp only [remove]
  cases hrow : s.window.row with
  | none => exact h
  | some row =>
    obtain ⟨hinvariant, hraised⟩ := invariant_removed h hrow hcomplete
    dsimp only
    generalize s.removed row = result at hinvariant hraised
    obtain ⟨s', raised⟩ := result
    simp only at hinvariant hraised
    subst hraised
    dsimp only
    split
    · exact hinvariant.withConfiguration rfl
    · exact hinvariant

theorem invariant_ok (h : s.Invariant) : (s.step .ok).Invariant := by
  simp only [step]
  cases hsave : s.save with
  | none => exact h
  | some s' =>
    exact (invariant_save h hsave).1.withConfiguration (Configuration.adjusted_profiles _)

theorem invariant_type (h : s.Invariant) (field : Field) (text : Text) :
    (s.step (.type field text)).Invariant := by
  refine ⟨⟨h.length, h.nodup, h.lt_fresh, h.writes⟩, ?_⟩
  intro id hid other
  have hshown : s.shown = some id := hid
  simp only [step]
  split
  · exact hshown
  · exact h.owners id hshown other

/-- One action writes nothing into a profile but its own texts, and leaves nothing in the box that
is not of the profile shown. -/
theorem invariant_step (h : s.Invariant) (hcomplete : s.ShowsComplete action) :
    (s.step action).Invariant := by
  cases action with
  | select row => exact (invariant_select h hcomplete).1
  | type field text => exact invariant_type h field text
  | add =>
    simp only [step]
    cases hadd : s.add with
    | none => exact h
    | some s' => exact (invariant_add h hadd).1
  | remove => exact invariant_remove h hcomplete
  | ok => exact invariant_ok h

theorem invariant_start (d : Defaults) : (start d).Invariant := by
  have hconfiguration : (start d).window.configuration = ProfileManager.configuration d :=
    Window.loadCurrentProfile_configuration _
  have hrow : (start d).window.row = none := rfl
  refine ⟨⟨?_, List.nodup_range, fun _ hid => List.mem_range.mp hid, nofun⟩, ?_⟩
  · rw [Window.profiles, hconfiguration]
    exact List.length_range
  · intro id hid
    rw [shown, hrow] at hid
    cases hid

/-- What `current` designates: the same as before, unless its profile is taken out. -/
theorem designates_step (h : s.Invariant) (hcomplete : s.ShowsComplete action) {target : Target}
    (hold : ∀ id, target = .profile id → id < s.fresh) (htarget : s.Designates target) :
    (s.step action).Designates target := by
  have hwindow := step_window s action
  cases action with
  | select row =>
    obtain ⟨-, hids, -⟩ := invariant_select h hcomplete
    have hcurrent := (s.window.select_spec row).1
    rw [Designates, hwindow]
    simp only [Window.act, step, hcurrent, hids]
    exact htarget
  | type field text => exact htarget
  | add =>
    simp only [step]
    cases hadd : s.add with
    | none => exact htarget
    | some s' =>
      obtain ⟨-, hids, -⟩ := invariant_add h hadd
      have hadd' : s.window.add = some s'.window := by
        rw [← add_window, hadd]
        rfl
      rw [Option.getD_some, Designates, (Window.add_spec hadd').1, hids]
      apply designated_or_gone_append htarget
      intro heq
      exact Nat.lt_irrefl _ (hold s.fresh heq)
  | remove =>
    cases hrow : s.window.row with
    | none =>
      have hsame : s.remove = s := by simp only [remove, hrow]
      rw [step, hsame]
      exact htarget
    | some row =>
      have hraised := (invariant_removed h hrow hcomplete).2
      obtain ⟨hcurrent, -⟩ := Window.remove_spec hrow fun _ => hraised
      rw [step, Designates, remove_window, hcurrent, (remove_ids hrow).1]
      exact designated_or_gone_eraseIdx h.nodup htarget
  | ok =>
    simp only [step]
    cases hsave : s.save with
    | none => exact htarget
    | some s' =>
      have hsave' : s.window.saveCurrentProfile = some s'.window := by
        rw [← save_window, hsave]
        rfl
      obtain ⟨hcurrent, hlength⟩ := Window.saveCurrentProfile_spec hsave'
      obtain ⟨-, hids, -⟩ := invariant_save h hsave
      rw [Option.elim_some]
      refine htarget.imp (fun hdesignated => ?_) fun hgone => ?_
      · rw [← hcurrent] at hdesignated
        apply designated_adjusted _ (hids ▸ hdesignated)
        exact (congrArg List.length hids).trans (h.length.trans hlength.symm)
      · exact hids ▸ hgone

/-- No identity is given twice. -/
theorem fresh_step (h : s.Invariant) (hcomplete : s.ShowsComplete action) :
    s.fresh ≤ (s.step action).fresh := by
  cases action with
  | select row => exact Nat.le_of_eq (invariant_select h hcomplete).2.2.symm
  | type field text => exact Nat.le_refl _
  | add =>
    simp only [step]
    cases hadd : s.add with
    | none => exact Nat.le_refl _
    | some s' =>
      obtain ⟨-, -, hfresh⟩ := invariant_add h hadd
      rw [Option.getD_some, hfresh]
      exact Nat.le_succ _
  | remove =>
    cases hrow : s.window.row with
    | none =>
      have hsame : s.remove = s := by simp only [remove, hrow]
      rw [step, hsame]
    | some row => exact Nat.le_of_eq (remove_ids hrow).2.symm
  | ok =>
    simp only [step]
    cases hsave : s.save with
    | none => exact Nat.le_refl _
    | some s' => exact Nat.le_of_eq (invariant_save h hsave).2.2.symm

/-- From when `current` designates the target. -/
structure Follows (target : Target) (s : Editor) : Prop extends Invariant s where
  old : ∀ id, target = .profile id → id < s.fresh
  designates : s.Designates target

theorem follows_step {target : Target} (h : s.Follows target)
    (hcomplete : s.ShowsComplete action) : (s.step action).Follows target where
  toInvariant := invariant_step h.toInvariant hcomplete
  old id hid := Nat.lt_of_lt_of_le (h.old id hid) (fresh_step h.toInvariant hcomplete)
  designates := designates_step h.toInvariant hcomplete h.old h.designates

/-- While every profile that comes into the box is complete, no profile is given a text of
another, and whatever `current` designates at some time it goes on to designate until that
profile is removed. -/
theorem run_keepsProfiles (d : Defaults) {before later : List Edit}
    (h : Run.Along step ShowsComplete (start d) (before ++ later)) :
    (Run.after step (start d) (before ++ later)).WritesOwn ∧
      ∀ target, designated (Run.after step (start d) before).window.configuration.current
          (Run.after step (start d) before).ids = some target →
        (Run.after step (start d) (before ++ later)).Designates target := by
  obtain ⟨hbefore, hlater⟩ := (Run.along_append (start d) before later).mp h
  have hinvariant : (Run.after step (start d) before).Invariant :=
    Run.invariant (I := Invariant) (fun _ _ => invariant_step) (invariant_start d) hbefore
  rw [Run.after_append]
  constructor
  · have hend : (Run.after step (Run.after step (start d) before) later).Invariant :=
      Run.invariant (I := Invariant) (fun _ _ => invariant_step) hinvariant hlater
    exact hend.writes
  · intro target htarget
    have hfollows : (Run.after step (start d) before).Follows target := by
      refine ⟨hinvariant, ?_, Or.inl htarget⟩
      rintro id rfl
      exact hinvariant.lt_fresh id (mem_of_designated htarget)
    exact (Run.invariant (I := Follows target) (fun _ _ => follows_step) hfollows
      hlater).designates

/-- Three servers of which the second is current; the last one has no method, as settings of an
older version may have none. -/
def servers : Configuration where
  current := 1
  profiles :=
    [⟨some "10.0.0.1".toList, 8388, none, some "first".toList, some "table".toList⟩,
     ⟨some "10.0.0.2".toList, 8388, none, some "second".toList, some "table".toList⟩,
     ⟨some "10.0.0.3".toList, 8388, none, some "third".toList, none⟩]

/-- The defaults in which these servers are stored. -/
def storedServers : Defaults := { Defaults.empty with config := some servers.jsonData }

/-- The second server is edited; the third one is not shown. -/
theorem run_keepsProfiles_edited :
    (Run.after step (start storedServers)
        ([.select (some 0)] ++ [.select (some 1), .type .password "new".toList, .ok])).WritesOwn ∧
      ∀ target, designated
          (Run.after step (start storedServers) [.select (some 0)]).window.configuration.current
          (Run.after step (start storedServers) [.select (some 0)]).ids = some target →
        (Run.after step (start storedServers)
          ([.select (some 0)] ++
            [.select (some 1), .type .password "new".toList, .ok])).Designates target :=
  run_keepsProfiles storedServers
    (by exact ⟨by decide +kernel, by decide +kernel, by decide +kernel, by decide +kernel, trivial⟩)

/-- When the third server is shown, its method is not; the box still holds the first one's, and
writes it. When the first server is removed, the third one is shown next, and `current` stays
where it was: it designates the third one. -/
theorem not_keepsProfiles :
    ¬ (Run.after step (start storedServers)
        [.select (some 0), .select (some 2), .select (some 0)]).WritesOwn ∧
      designated (Run.after step (start storedServers) [.select (some 0)]).window.configuration.current
          (Run.after step (start storedServers) [.select (some 0)]).ids = some (.profile 1) ∧
      ¬ (Run.after step (start storedServers)
        [.select (some 0), .remove]).Designates (.profile 1) := by
  refine ⟨?_, by decide +kernel, ?_⟩
  · intro h
    have hwrites : (Run.after step (start storedServers)
        [.select (some 0), .select (some 2), .select (some 0)]).writes.map
          (fun write => (write.into, write.owners .method)) =
        [(0, some 0), (2, some 0)] := by decide +kernel
    have hmem : ((2, some 0) : Nat × Option Nat) ∈ [((0 : Nat), some 0), (2, some 0)] := by decide
    rw [← hwrites] at hmem
    obtain ⟨write, hwrite, heq⟩ := List.mem_map.mp hmem
    have hown := h write hwrite .method
    obtain ⟨hinto, howner⟩ := Prod.mk.inj heq
    rw [howner, hinto] at hown
    cases hown
  · rintro (hcurrent | ⟨id, hid, hgone⟩)
    · exact absurd hcurrent (by decide +kernel)
    · cases hid
      exact hgone (by decide +kernel)

end Editor

end Shadowsocks
