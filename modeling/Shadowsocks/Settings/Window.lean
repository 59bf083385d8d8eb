import Shadowsocks.Settings.Profiles

/-!
SWBConfigWindowController.m. The window works on a configuration of its own, which it has read
when it was loaded.
-/
namespace Shadowsocks

/-- The texts of the settings box. -/
structure Fields where
  server : Text
  port : Text
  method : Text
  password : Text
  remarks : Text
  deriving DecidableEq

def Fields.blank : Fields := ⟨[], [], [], [], []⟩

structure Window where
  configuration : Configuration
  /-- `none` when `selectedRow` is -1. -/
  selectedRow : Option Nat
  fields : Fields

/-- The five fields are set one after the other. A control does not take nil for a text, and
raises: then the rest is not carried out, and the result says so. -/
def Fields.load (fields : Fields) (profile : Profile) : Fields × Bool :=
  match profile.server with
  | none => (fields, true)
  | some server =>
    let fields := { fields with server := server, port := decimal profile.serverPort }
    match profile.method with
    | none => (fields, true)
    | some method =>
      let fields := { fields with method := method }
      match profile.password with
      | none => (fields, true)
      | some password =>
        ({ fields with password := password, remarks := profile.remarks.getD [] }, false)

/-- Every text of the profile can be put into the box; a missing remark is shown as none. -/
def Profile.Complete (profile : Profile) : Prop :=
  profile.server ≠ none ∧ profile.method ≠ none ∧ profile.password ≠ none

instance (profile : Profile) : Decidable profile.Complete := inferInstanceAs (Decidable (_ ∧ _))

theorem Fields.load_complete (fields : Fields) {profile : Profile} (h : profile.Complete) :
    (fields.load profile).2 = false := by
  obtain ⟨hserver, hmethod, hpassword⟩ := h
  obtain ⟨server, hserver⟩ := Option.ne_none_iff_exists'.mp hserver
  obtain ⟨method, hmethod⟩ := Option.ne_none_iff_exists'.mp hmethod
  obtain ⟨password, hpassword⟩ := Option.ne_none_iff_exists'.mp hpassword
  simp only [load, hserver, hmethod, hpassword]

namespace Window

variable (w : Window)

def profiles : List Profile := w.configuration.profiles

/-- The selected row, when it is one of the profiles. -/
def row : Option Nat := w.selectedRow.filter (· < w.profiles.length)

def withProfiles (profiles : List Profile) : Window :=
  { w with configuration := { w.configuration with profiles := profiles } }

def loadCurrentProfile : Window × Bool :=
  match w.row.bind (w.profiles[·]?) with
  | none => (w, false)
  | some profile =>
    let (fields, raised) := w.fields.load profile
    ({ w with fields := fields }, raised)

def validateCurrentProfile : Bool :=
  w.fields.server ≠ [] && integerValue w.fields.port ≠ 0 && w.fields.method ≠ [] &&
    w.fields.password ≠ []

/-- The texts of the box as a profile. -/
def typed : Profile where
  server := some w.fields.server
  serverPort := integerValue w.fields.port
  remarks := some w.fields.remarks
  password := some w.fields.password
  method := some w.fields.method

/-- `none` when the box is not valid. -/
def saveCurrentProfile : Option Window :=
  if w.validateCurrentProfile then
    match w.row with
    | none => some w
    | some row => some (w.withProfiles (w.profiles.set row w.typed))
  else none

/-- `tableView:shouldSelectRow:`, which saves the profile that is left; `none` when it does not
allow the new row. -/
def shouldSelectRow (row : Option Nat) : Option Window :=
  match w.selectedRow, row with
  | none, _ => some w
  | some _, none => some w
  | some _, some row => if row < w.profiles.length then w.saveCurrentProfile else some w

/-- A click into the table, on a row or beside the rows. -/
def select (row : Option Nat) : Window :=
  if row.all (· < w.profiles.length) then
    match w.shouldSelectRow row with
    | none => w
    | some w =>
      if row = w.selectedRow then w
      else ({ w with selectedRow := row }).loadCurrentProfile.1
  else w

/-- `reloadData`: a selected row that is no longer in range is given up. -/
def reloadData : Window := { w with selectedRow := w.row }

/-- `selectRowIndexes:` of the last row. -/
def selectLast : Window := { w with selectedRow := some (w.profiles.length - 1) }

/-- The profile that `add:` appends. -/
def newProfile : Profile :=
  { Profile.init with
    server := some []
    serverPort := 8388
    method := some "aes-256-cfb".toList
    password := some [] }

/-- `none` when the box is not valid, and the window shakes. -/
def add : Option Window :=
  let saved := if w.profiles.length ≠ 0 then w.saveCurrentProfile else some w
  saved.map fun w =>
    (w.withProfiles (w.profiles ++ [newProfile])).reloadData.selectLast.loadCurrentProfile.1

/-- The window with a row taken out, and what becomes of the box. -/
def removed (row : Nat) : Window × Bool :=
  let w := (w.withProfiles (w.profiles.eraseIdx row)).reloadData
  let w := if w.profiles.length > 0 then w.selectLast else w
  w.loadCurrentProfile

/-- `configuration.current` is adjusted last. -/
def remove : Window :=
  match w.row with
  | none => w
  | some row =>
    match w.removed row with
    | (w, true) => w
    | (w, false) =>
      let current := w.configuration.current
      if (row : Int) < current.toInt then
        { w with configuration := { w.configuration with current := current - 1 } }
      else w

end Window

/-- `loadSettings` in a new window. -/
def loadSettings (d : Defaults) : Window :=
  (Window.loadCurrentProfile ⟨ProfileManager.configuration d, none, .blank⟩).1

variable {w w' : Window}

theorem Window.loadCurrentProfile_configuration (w : Window) :
    w.loadCurrentProfile.1.configuration = w.configuration := by
  simp only [loadCurrentProfile]
  split <;> rfl

theorem Window.row_lt {row : Nat} (h : w.row = some row) : row < w.profiles.length := by
  simpa using (Option.filter_eq_some_iff.mp h).2

/-- Saving the box changes no more than the contents of one profile. -/
theorem Window.saveCurrentProfile_spec (h : w.saveCurrentProfile = some w') :
    w'.configuration.current = w.configuration.current ∧
      w'.profiles.length = w.profiles.length := by
  simp only [saveCurrentProfile] at h
  split at h
  · split at h
    · cases h
      exact ⟨rfl, rfl⟩
    · cases h
      exact ⟨rfl, List.length_set⟩
  · cases h

theorem Window.select_spec (w : Window) (row : Option Nat) :
    (w.select row).configuration.current = w.configuration.current ∧
      (w.select row).profiles.length = w.profiles.length := by
  simp only [select]
  split
  · split
    · exact ⟨rfl, rfl⟩
    · rename_i w' hsaved
      have hspec : w'.configuration.current = w.configuration.current ∧
          w'.profiles.length = w.profiles.length := by
        simp only [shouldSelectRow] at hsaved
        split at hsaved
        · cases hsaved
          exact ⟨rfl, rfl⟩
        · cases hsaved
          exact ⟨rfl, rfl⟩
        · split at hsaved
          · exact saveCurrentProfile_spec hsaved
          · cases hsaved
            exact ⟨rfl, rfl⟩
      split
      · exact hspec
      · rw [profiles, loadCurrentProfile_configuration]
        exact hspec
  · exact ⟨rfl, rfl⟩

theorem Window.add_spec (h : w.add = some w') :
    w'.configuration.current = w.configuration.current ∧
      w'.profiles.length = w.profiles.length + 1 := by
  simp only [add] at h
  obtain ⟨saved, hsaved, rfl⟩ := Option.map_eq_some_iff.mp h
  have hspec : saved.configuration.current = w.configuration.current ∧
      saved.profiles.length = w.profiles.length := by
    split at hsaved
    · exact saveCurrentProfile_spec hsaved
    · cases hsaved
      exact ⟨rfl, rfl⟩
  simp only [profiles, loadCurrentProfile_configuration]
  refine ⟨hspec.1, ?_⟩
  calc (saved.profiles ++ [newProfile]).length
      = saved.profiles.length + 1 := List.length_append
    _ = w.profiles.length + 1 := by rw [hspec.2]

theorem Window.removed_configuration (w : Window) (row : Nat) :
    (w.removed row).1.configuration =
      { w.configuration with profiles := w.profiles.eraseIdx row } := by
  simp only [removed]
  rw [loadCurrentProfile_configuration]
  split <;> rfl

end Shadowsocks
