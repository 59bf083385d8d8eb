import Shadowsocks.Library.Raising
import Shadowsocks.Library.Run
import Shadowsocks.System.Sysconf

/-!
SWBAppDelegate.m of ShadowsocksX: turning the proxy on and off and choosing its mode. The user
settings and the services outlive the process; the menu and the two variables do not. Where the
helper cannot be started an exception is raised, and the run ends there. Over it the switch that
the user has in mind.
-/
namespace Shadowsocks

/-- The parts of the menu and of the status item that show the state. -/
structure StatusMenu where
  statusTitle : String
  enableTitle : String
  image : String
  autoState : Bool
  globalState : Bool
  deriving DecidableEq, Repr

/-- The instance variables of the delegate. -/
structure SWBAppDelegate where
  isRunning : Bool
  runningMode : String
  menu : StatusMenu
  deriving DecidableEq, Repr

structure Mac where
  /-- The user setting `ShadowsocksIsRunning`. -/
  isRunningObject : Option Bool
  /-- The user setting `ShadowsocksMode`. -/
  mode : Option String
  services : List NetworkService
  /-- The process, while there is one. -/
  app : Option SWBAppDelegate

/-- What a method leaves: `error` when an exception is raised in it. -/
abbrev Outcome := Except (Mac × SWBAppDelegate) (Mac × SWBAppDelegate)

/-- What comes of a task: `launch` raises when the helper is not there to be started. -/
inductive Helper
  | missing
  | started (auth : Authorization)
  deriving DecidableEq, Repr

namespace Mac

variable (m : Mac) (app : SWBAppDelegate)

def runningMode : String := m.mode.getD "auto"

/-- The helper's status and output change nothing here. -/
def toggleSystemProxy (helper : Helper) (useProxy : Bool) : Outcome :=
  let app := { app with isRunning := useProxy }
  let param := if useProxy then m.runningMode else "off"
  match helper with
  | .missing => .error (m, app)
  | .started auth => .ok ({ m with services := (sysconf [param] auth m.services).services }, app)

end Mac

namespace SWBAppDelegate

/-- The menu as it is built, before anything has set its states. -/
def initial : SWBAppDelegate :=
  ⟨false, "", ⟨"Shadowsocks Off", "Turn Shadowsocks Off", "menu_icon", false, false⟩⟩

def updateMenu (app : SWBAppDelegate) : SWBAppDelegate :=
  let menu := if app.isRunning then
      { app.menu with
        statusTitle := "Shadowsocks: On"
        enableTitle := "Turn Shadowsocks Off"
        image := "menu_icon" }
    else
      { app.menu with
        statusTitle := "Shadowsocks: Off"
        enableTitle := "Turn Shadowsocks On"
        image := "menu_icon_disabled" }
  let menu := if app.runningMode = "auto" then { menu with autoState := true, globalState := false }
    else if app.runningMode = "global" then { menu with autoState := false, globalState := true }
    else menu
  { app with menu := menu }

end SWBAppDelegate

namespace Mac

variable (m : Mac) (app : SWBAppDelegate)

/-- Off and on again, with the two runs of the helper. -/
def reloadSystemProxy (helper helper' : Helper) : Outcome :=
  if app.isRunning then do
    let (m, app) ← m.toggleSystemProxy app helper false
    m.toggleSystemProxy app helper' true
  else .ok (m, app)

/-- What the two menu items do. -/
def enableMode (name : String) (helper helper' : Helper) : Outcome :=
  let app := { app with runningMode := name }
  let m := { m with mode := some name }
  m.reloadSystemProxy app.updateMenu helper helper'

def enableAutoProxy (helper helper' : Helper) : Outcome := m.enableMode app "auto" helper helper'

def enableGlobal (helper helper' : Helper) : Outcome := m.enableMode app "global" helper helper'

def toggleRunning (helper : Helper) : Outcome := do
  let (m, app) ← m.toggleSystemProxy app helper !app.isRunning
  .ok ({ m with isRunningObject := some app.isRunning }, app.updateMenu)

def initializeProxy (helper : Helper) : Outcome := do
  let app := { app with runningMode := m.runningMode }
  let (m, app) ← if m.isRunningObject = none ∨ m.isRunningObject = some true then
      m.toggleSystemProxy app helper true
    else .ok (m, app)
  .ok (m, app.updateMenu)

def applicationDidFinishLaunching (helper : Helper) : Outcome := do
  let (m, app) ← m.initializeProxy .initial helper
  .ok (m, app.updateMenu)

def applicationWillTerminate (helper : Helper) : Outcome :=
  if app.isRunning then m.toggleSystemProxy app helper false else .ok (m, app)

/-- What happens to the application, with what comes of the runs of the helper. -/
inductive Event
  | launch (helper : Helper)
  | toggleRunning (helper : Helper)
  | enableAutoProxy (helper helper' : Helper)
  | enableGlobal (helper helper' : Helper)
  | onPACChange (helper helper' : Helper)
  | configurationDidChange
  | terminate (helper : Helper)
  | killed

def withApp (r : Mac × SWBAppDelegate) : Mac := { r.1 with app := some r.2 }

/-- Let the process do something. -/
def inApp (f : Mac → SWBAppDelegate → Outcome) : Except Mac Mac :=
  match m.app with
  | none => .ok m
  | some app => ((f m app).map withApp).mapError withApp

def quit : Mac := { m with app := none }

/-- What an exception leaves of the process, AppKit decides. -/
def step (m : Mac) : Event → Except Mac Mac
  | .launch helper =>
    match m.app with
    | some _ => .ok m
    | none => ((m.applicationDidFinishLaunching helper).map withApp).mapError withApp
  | .toggleRunning helper => m.inApp fun m app => m.toggleRunning app helper
  | .enableAutoProxy helper helper' => m.inApp fun m app => m.enableAutoProxy app helper helper'
  | .enableGlobal helper helper' => m.inApp fun m app => m.enableGlobal app helper helper'
  | .onPACChange helper helper' => m.inApp fun m app => m.reloadSystemProxy app helper helper'
  | .configurationDidChange => m.inApp fun m app => .ok (m, app.updateMenu)
  | .terminate helper => (m.inApp fun m app => m.applicationWillTerminate app helper).map quit
  | .killed => .ok m.quit

/-- The runs of the helper that the event may start. -/
def Event.helpers : Event → List Helper
  | launch helper => [helper]
  | toggleRunning helper => [helper]
  | enableAutoProxy helper helper' => [helper, helper']
  | enableGlobal helper helper' => [helper, helper']
  | onPACChange helper helper' => [helper, helper']
  | configurationDidChange => []
  | terminate helper => [helper]
  | killed => []

/-- The helper is there for each of them. -/
def Event.Starts (event : Event) : Prop := ∀ helper ∈ event.helpers, helper ≠ .missing

/-- And each is granted its rights. -/
def Event.Granted (event : Event) : Prop := ∀ helper ∈ event.helpers, helper = .started .granted

end Mac

/-! The switch: on or off, with a mode that is kept while it is off. -/

/-- Whether the proxies are in force, or were left in force by a process that was killed. -/
inductive Presence
  | absent
  | present
  | left
  deriving DecidableEq, Repr

structure Switch where
  on : Bool
  mode : Mode
  presence : Presence
  deriving DecidableEq, Repr

namespace Switch

/-- Where the traffic goes. -/
def route (s : Switch) : Option Mode :=
  if s.on ∧ s.presence ≠ .absent then some s.mode else none

def select (s : Switch) (mode : Mode) : Switch :=
  if s.presence = .present then { s with mode := mode } else s

def step (s : Switch) : Mac.Event → Switch
  | .launch _ => { s with presence := .present }
  | .toggleRunning _ => if s.presence = .present then { s with on := !s.on } else s
  | .enableAutoProxy .. => s.select .auto
  | .enableGlobal .. => s.select .global
  | .onPACChange .. => s
  | .configurationDidChange => s
  | .terminate _ => if s.presence = .present then { s with presence := .absent } else s
  | .killed => if s.presence = .present then { s with presence := .left } else s

/-- The menu that shows the switch. -/
def menu (s : Switch) : StatusMenu where
  statusTitle := if s.on then "Shadowsocks: On" else "Shadowsocks: Off"
  enableTitle := if s.on then "Turn Shadowsocks Off" else "Turn Shadowsocks On"
  image := if s.on then "menu_icon" else "menu_icon_disabled"
  autoState := s.mode = .auto
  globalState := s.mode = .global

end Switch

namespace Mac

variable {m m' : Mac} {s s' : Switch} {app : SWBAppDelegate} {helper helper' : Helper} {mode : Mode}

/-- The user settings are those of the switch. -/
structure Stores (m : Mac) (s : Switch) : Prop where
  on : m.isRunningObject.getD true = s.on
  mode : m.runningMode = s.mode.name

/-- The delegate that a process has, and what its menu shows. -/
def panel (s : Switch) : SWBAppDelegate := ⟨s.on, s.mode.name, s.menu⟩

structure Shows (m : Mac) (s : Switch) : Prop where
  stores : m.Stores s
  app : m.app = if s.presence = .present then some (panel s) else none

/-- The managed services send their traffic that way. -/
def Sends (m : Mac) (route : Option Mode) : Prop :=
  ∀ service ∈ m.services, service.managed → service.proxies.routing = Routing.of route

/-- What the helper leaves alone. -/
def frame (m : Mac) : List (String × Option String × Option Proxies) :=
  m.services.map NetworkService.kept

theorem updateMenu_eq {menu : StatusMenu} :
    SWBAppDelegate.updateMenu ⟨s.on, s.mode.name, menu⟩ = panel s := by
  obtain ⟨on, mode, presence⟩ := s
  cases on <;> cases mode <;> rfl

/-- A granted run of the helper decides where every managed service goes. -/
theorem sends_sysconf (m : Mac) (route : Option Mode) :
    Sends { m with services := (sysconf [Mode.param route] .granted m.services).services } route := by
  intro service hmem hmanaged
  simp only [sysconf_granted, List.mem_map] at hmem
  obtain ⟨before, _, rfl⟩ := hmem
  cases hbefore : before.managed with
  | true =>
    simp only [if_true]
    exact routing_fill route
  | false =>
    simp only [hbefore, Bool.false_eq_true, if_false] at hmanaged

theorem sends_off (hsends : m.Sends s.route) (hoff : s.on = false) : m.Sends none := by
  have hroute : s.route = none := by simp [Switch.route, hoff]
  rw [← hroute]
  exact hsends

theorem route_of_present (hp : s.presence = .present) :
    s.route = if s.on then some s.mode else none := by
  simp [Switch.route, hp]

/-- The settings stay, and so does what the helper leaves alone; the managed services go that way
where it was granted its rights. -/
structure Helped (m m' : Mac) (granted : Prop) (route : Option Mode) : Prop where
  isRunningObject : m'.isRunningObject = m.isRunningObject
  mode : m'.mode = m.mode
  frame : m'.frame = m.frame
  sends : granted → m'.Sends route

theorem Helped.runningMode {granted : Prop} {route : Option Mode}
    (h : Helped m m' granted route) : m'.runningMode = m.runningMode := by
  simp only [Mac.runningMode, h.mode]

theorem Helped.stores {granted : Prop} {route : Option Mode} (h : Helped m m' granted route)
    (hm : m.Stores s) : m'.Stores s := by
  refine ⟨?_, h.runningMode.trans hm.mode⟩
  rw [h.isRunningObject]
  exact hm.on

theorem toggle_spec (app : SWBAppDelegate) (hstarts : helper ≠ .missing)
    (hmode : m.runningMode = mode.name) (useProxy : Bool) :
    ∃ m', m.toggleSystemProxy app helper useProxy = .ok (m', { app with isRunning := useProxy }) ∧
      Helped m m' (helper = .started .granted) (if useProxy then some mode else none) := by
  cases helper with
  | missing => exact absurd rfl hstarts
  | started auth =>
    refine ⟨_, rfl, rfl, rfl, sysconf_kept _ auth m.services, ?_⟩
    rintro ⟨rfl⟩
    cases useProxy with
    | true =>
      simp only [if_true, hmode]
      exact m.sends_sysconf (some mode)
    | false => exact m.sends_sysconf none

/-- Off and on again comes back to what the process showed. What is on is sent by the stored mode
afterwards; what is off goes where it went. -/
theorem reload_spec (app : SWBAppDelegate) (hstarts : helper ≠ .missing)
    (hstarts' : helper' ≠ .missing) (hmode : m.runningMode = mode.name) :
    ∃ m', m.reloadSystemProxy app helper helper' = .ok (m', app) ∧
      Helped m m' (helper' = .started .granted ∧ (app.isRunning = false → m.Sends none))
        (if app.isRunning then some mode else none) := by
  obtain ⟨isRunning, runningMode, menu⟩ := app
  cases isRunning with
  | false => exact ⟨m, rfl, rfl, rfl, rfl, fun hgranted => hgranted.2 rfl⟩
  | true =>
    obtain ⟨m₁, hoff, hfirst⟩ := toggle_spec ⟨true, runningMode, menu⟩ hstarts hmode false
    obtain ⟨m₂, hon, hsecond⟩ := toggle_spec ⟨false, runningMode, menu⟩ hstarts'
      (hfirst.runningMode.trans hmode) true
    refine ⟨m₂, ?_, hsecond.isRunningObject.trans hfirst.isRunningObject,
      hsecond.mode.trans hfirst.mode, hsecond.frame.trans hfirst.frame,
      fun hgranted => hsecond.sends hgranted.1⟩
    simp only [reloadSystemProxy, if_true, hoff]
    exact hon

theorem starts_iff (h : m.Stores s) :
    (m.isRunningObject = none ∨ m.isRunningObject = some true) ↔ s.on = true := by
  rw [← h.on]
  cases m.isRunningObject with
  | none => simp
  | some on => simp

/-- What the services and the settings are to be like in the next state of the switch. -/
structure Follows (m : Mac) (s : Switch) (m' : Mac) (s' : Switch) (granted : Prop) : Prop where
  shows : m'.Shows s'
  frame : m'.frame = m.frame
  sends : granted → m.Sends s.route → m'.Sends s'.route

theorem Follows.mono {granted granted' : Prop} (h : Follows m s m' s' granted)
    (himp : granted' → granted) : Follows m s m' s' granted' :=
  ⟨h.shows, h.frame, fun hgranted => h.sends (himp hgranted)⟩

theorem follows_of_stores {granted : Prop} (hstores : m'.Stores s')
    (hp : s'.presence = .present) (hframe : m'.frame = m.frame)
    (hsends : granted → m.Sends s.route → m'.Sends (if s'.on then some s'.mode else none)) :
    Follows m s (withApp (m', panel s')) s' granted where
  shows := ⟨⟨hstores.on, hstores.mode⟩, (if_pos hp).symm⟩
  frame := hframe
  sends hgranted hbefore := by
    rw [route_of_present hp]
    exact hsends hgranted hbefore

/-- A new process takes up the stored settings. -/
theorem launch_spec (h : m.Shows s) (hp : s.presence ≠ .present) (hstarts : helper ≠ .missing) :
    ∃ m', m.step (.launch helper) = .ok m' ∧
      Follows m s m' { s with presence := .present } (helper = .started .granted) := by
  have happ : m.app = none := by rw [h.app, if_neg hp]
  have hshown : ∀ app : SWBAppDelegate, app.isRunning = s.on → app.runningMode = s.mode.name →
      app.updateMenu.updateMenu = panel { s with presence := .present } := by
    intro app hon hmode
    obtain ⟨isRunning, runningMode, menu⟩ := app
    subst hon
    subst hmode
    rw [updateMenu_eq]
    exact updateMenu_eq
  simp only [step, happ, applicationDidFinishLaunching, initializeProxy, starts_iff h.stores]
  by_cases hon : s.on = true
  · obtain ⟨m', htoggle, hhelped⟩ := toggle_spec
      { SWBAppDelegate.initial with runningMode := m.runningMode } hstarts h.stores.mode true
    have hstores := hhelped.stores h.stores
    refine ⟨withApp (m', panel { s with presence := .present }), ?_,
      follows_of_stores ⟨hstores.on, hstores.mode⟩ rfl hhelped.frame ?_⟩
    · rw [if_pos hon, htoggle, ← hshown ⟨true, m.runningMode, SWBAppDelegate.initial.menu⟩ hon.symm
        h.stores.mode]
      rfl
    · intro hgranted _
      simpa [hon] using hhelped.sends hgranted
  · have hoff : s.on = false := Bool.eq_false_iff.mpr hon
    refine ⟨withApp (m, panel { s with presence := .present }), ?_,
      follows_of_stores ⟨h.stores.on, h.stores.mode⟩ rfl rfl ?_⟩
    · rw [if_neg hon, ← hshown ⟨false, m.runningMode, SWBAppDelegate.initial.menu⟩ hoff.symm
        h.stores.mode]
      rfl
    · intro _ hsends
      simpa [hoff] using sends_off hsends hoff

/-- What a present process does, by what it leaves in the settings and in the menu. -/
theorem inApp_spec {granted : Prop} (m' : Mac) (h : m.Shows s) (hp : s.presence = .present)
    {f : Mac → SWBAppDelegate → Outcome} (hf : f m (panel s) = .ok (m', panel s'))
    (hfollows : Follows m s (withApp (m', panel s')) s' granted) :
    ∃ m', m.inApp f = .ok m' ∧ Follows m s m' s' granted := by
  refine ⟨_, ?_, hfollows⟩
  have happ : m.app = some (panel s) := by rw [h.app, if_pos hp]
  simp only [inApp, happ, hf]
  rfl

theorem inApp_none {f : Mac → SWBAppDelegate → Outcome} (h : m.Shows s)
    (hp : s.presence ≠ .present) : m.inApp f = .ok m := by
  have happ : m.app = none := by rw [h.app, if_neg hp]
  simp only [inApp, happ]

/-- Selecting a mode in the menu, whichever it is. -/
theorem enableMode_spec (h : m.Shows s) (hp : s.presence = .present) (hstarts : helper ≠ .missing)
    (hstarts' : helper' ≠ .missing) (mode : Mode) :
    ∃ m', m.inApp (fun m app => m.enableMode app mode.name helper helper') = .ok m' ∧
      Follows m s m' { s with mode := mode } (helper' = .started .granted) := by
  obtain ⟨m', hreload, hhelped⟩ := reload_spec (m := { m with mode := some mode.name })
    (panel { s with mode := mode }) hstarts hstarts' rfl
  have hmenu : SWBAppDelegate.updateMenu ⟨s.on, mode.name, s.menu⟩ = panel { s with mode := mode } :=
    updateMenu_eq (s := { s with mode := mode })
  have hstores : m'.Stores { s with mode := mode } := by
    apply hhelped.stores
    exact ⟨h.stores.on, rfl⟩
  apply inApp_spec m' h hp
  · rw [enableMode]
    simp only [panel] at hmenu hreload ⊢
    rw [hmenu]
    exact hreload
  · have hframe : m'.frame = m.frame := hhelped.frame
    apply follows_of_stores hstores hp hframe
    intro hgranted hsends
    exact hhelped.sends ⟨hgranted, sends_off hsends⟩

theorem toggleRunning_spec (h : m.Shows s) (hp : s.presence = .present)
    (hstarts : helper ≠ .missing) :
    ∃ m', m.inApp (fun m app => m.toggleRunning app helper) = .ok m' ∧
      Follows m s m' { s with on := !s.on } (helper = .started .granted) := by
  obtain ⟨m', htoggle, hhelped⟩ := toggle_spec (panel s) hstarts h.stores.mode !s.on
  have hmenu : SWBAppDelegate.updateMenu ⟨!s.on, s.mode.name, s.menu⟩ =
      panel { s with on := !s.on } := updateMenu_eq (s := { s with on := !s.on })
  have hstores : ({ m' with isRunningObject := some !s.on } : Mac).Stores { s with on := !s.on } :=
    ⟨rfl, (hhelped.stores h.stores).mode⟩
  apply inApp_spec { m' with isRunningObject := some !s.on } h hp
  · rw [toggleRunning, ← hmenu]
    simp only [panel] at htoggle ⊢
    rw [htoggle]
    rfl
  · apply follows_of_stores hstores hp hhelped.frame
    exact fun hgranted _ => hhelped.sends hgranted

/-- Quitting takes the proxies away. -/
theorem terminate_spec (h : m.Shows s) (hp : s.presence = .present) (hstarts : helper ≠ .missing) :
    ∃ m', m.step (.terminate helper) = .ok m' ∧
      Follows m s m' { s with presence := .absent } (helper = .started .granted) := by
  have happ : m.app = some (panel s) := by rw [h.app, if_pos hp]
  have hroute : ({ s with presence := .absent } : Switch).route = none := by
    simp [Switch.route]
  simp only [step, inApp, happ, applicationWillTerminate]
  by_cases hon : (panel s).isRunning = true
  · obtain ⟨m', htoggle, hhelped⟩ := toggle_spec (panel s) hstarts h.stores.mode false
    have hstores := hhelped.stores h.stores
    refine ⟨m'.quit, ?_, ⟨⟨hstores.on, hstores.mode⟩, rfl⟩, hhelped.frame, ?_⟩
    · rw [if_pos hon, htoggle]
      rfl
    · intro hgranted _
      rw [hroute]
      exact hhelped.sends hgranted
  · refine ⟨m.quit, ?_, ⟨⟨h.stores.on, h.stores.mode⟩, rfl⟩, rfl, ?_⟩
    · rw [if_neg hon]
      rfl
    · intro _ hsends
      rw [hroute]
      exact sends_off hsends (Bool.eq_false_iff.mpr hon)

theorem step_present (h : m.Shows s) (hp : s.presence = .present) (event : Event)
    (hstarts : event.Starts) :
    ∃ m', m.step event = .ok m' ∧ Follows m s m' (s.step event) event.Granted := by
  have happ : m.app = some (panel s) := by rw [h.app, if_pos hp]
  cases event with
  | launch helper =>
    simp only [step, Switch.step, happ]
    refine ⟨m, rfl, ⟨⟨h.stores.on, h.stores.mode⟩, happ⟩, rfl, ?_⟩
    intro _ hsends
    rw [route_of_present rfl, ← route_of_present hp]
    exact hsends
  | toggleRunning helper =>
    simp only [Event.Starts, Event.helpers, List.forall_mem_singleton] at hstarts
    simp only [step, Switch.step, if_pos hp, Event.Granted, Event.helpers,
      List.forall_mem_singleton]
    exact toggleRunning_spec h hp hstarts
  | enableAutoProxy helper helper' =>
    simp only [Event.Starts, Event.helpers, List.forall_mem_cons] at hstarts
    simp only [step, Switch.step, Switch.select, if_pos hp]
    obtain ⟨m', hstep, hfollows⟩ := enableMode_spec h hp hstarts.1 hstarts.2.1 .auto
    exact ⟨m', hstep, hfollows.mono fun hgranted => hgranted helper' (by simp [Event.helpers])⟩
  | enableGlobal helper helper' =>
    simp only [Event.Starts, Event.helpers, List.forall_mem_cons] at hstarts
    simp only [step, Switch.step, Switch.select, if_pos hp]
    obtain ⟨m', hstep, hfollows⟩ := enableMode_spec h hp hstarts.1 hstarts.2.1 .global
    exact ⟨m', hstep, hfollows.mono fun hgranted => hgranted helper' (by simp [Event.helpers])⟩
  | onPACChange helper helper' =>
    simp only [Event.Starts, Event.helpers, List.forall_mem_cons] at hstarts
    simp only [step, Switch.step]
    obtain ⟨m', hreload, hhelped⟩ := reload_spec (panel s) hstarts.1 hstarts.2.1 h.stores.mode
    apply inApp_spec _ h hp hreload
    apply follows_of_stores (hhelped.stores h.stores) hp hhelped.frame
    intro hgranted hsends
    exact hhelped.sends ⟨hgranted helper' (by simp [Event.helpers]), sends_off hsends⟩
  | configurationDidChange =>
    simp only [step, Switch.step]
    apply inApp_spec _ h hp (congrArg (fun app => Except.ok (m, app)) updateMenu_eq)
    apply follows_of_stores h.stores hp rfl
    intro _ hsends
    rw [← route_of_present hp]
    exact hsends
  | terminate helper =>
    simp only [Event.Starts, Event.helpers, List.forall_mem_singleton] at hstarts
    simp only [Switch.step, if_pos hp, Event.Granted, Event.helpers, List.forall_mem_singleton]
    exact terminate_spec h hp hstarts
  | killed =>
    simp only [Switch.step, if_pos hp]
    refine ⟨m.quit, rfl, ⟨⟨h.stores.on, h.stores.mode⟩, rfl⟩, rfl, ?_⟩
    intro _ hsends
    have hroute : ({ s with presence := .left } : Switch).route = s.route := by
      simp [Switch.route, hp]
    rw [hroute]
    exact hsends

/-- Without a process, only a launch changes anything. -/
theorem step_away (h : m.Shows s) (hp : s.presence ≠ .present) (event : Event)
    (hstarts : event.Starts) :
    ∃ m', m.step event = .ok m' ∧ Follows m s m' (s.step event) event.Granted := by
  have happ : m.app = none := by rw [h.app, if_neg hp]
  have hidle : Follows m s m s event.Granted := ⟨h, rfl, fun _ hsends => hsends⟩
  have hquit : m.quit = m := by rw [quit, ← happ]
  cases event with
  | launch helper =>
    simp only [Event.Starts, Event.helpers, List.forall_mem_singleton] at hstarts
    simp only [Switch.step, Event.Granted, Event.helpers, List.forall_mem_singleton]
    exact launch_spec h hp hstarts
  | toggleRunning helper =>
    simp only [step, Switch.step, if_neg hp]
    exact ⟨m, inApp_none h hp, hidle⟩
  | enableAutoProxy helper helper' =>
    simp only [step, Switch.step, Switch.select, if_neg hp]
    exact ⟨m, inApp_none h hp, hidle⟩
  | enableGlobal helper helper' =>
    simp only [step, Switch.step, Switch.select, if_neg hp]
    exact ⟨m, inApp_none h hp, hidle⟩
  | onPACChange helper helper' =>
    simp only [step, Switch.step]
    exact ⟨m, inApp_none h hp, hidle⟩
  | configurationDidChange =>
    simp only [step, Switch.step]
    exact ⟨m, inApp_none h hp, hidle⟩
  | terminate helper =>
    simp only [step, Switch.step, if_neg hp, inApp_none h hp]
    exact ⟨m, congrArg Except.ok hquit, hidle⟩
  | killed =>
    simp only [step, Switch.step, if_neg hp]
    exact ⟨m, congrArg Except.ok hquit, hidle⟩

theorem step_follows (h : m.Shows s) (event : Event) (hstarts : event.Starts) :
    ∃ m', m.step event = .ok m' ∧ Follows m s m' (s.step event) event.Granted := by
  by_cases hp : s.presence = .present
  · exact step_present h hp event hstarts
  · exact step_away h hp event hstarts

theorem run_follows (h : m.Shows s) {events : List Event}
    (hstarts : ∀ event ∈ events, event.Starts) :
    ∃ m', events.foldlM step m = .ok m' ∧ Follows m s m' (Run.after Switch.step s events)
      (∀ event ∈ events, event.Granted) := by
  induction events generalizing m s with
  | nil => exact ⟨m, rfl, h, rfl, fun _ hsends => hsends⟩
  | cons event events ih =>
    rw [List.forall_mem_cons] at hstarts
    obtain ⟨m₁, hstep, hfirst⟩ := step_follows h event hstarts.1
    obtain ⟨m', hrun, hrest⟩ := ih hfirst.shows hstarts.2
    refine ⟨m', ?_, hrest.shows, hrest.frame.trans hfirst.frame, ?_⟩
    · rw [List.foldlM_cons, hstep]
      exact hrun
    · intro hgranted hsends
      rw [List.forall_mem_cons] at hgranted
      exact hrest.sends hgranted.2 (hfirst.sends hgranted.1 hsends)

/-- Whether the helper is there or not, it leaves the other services alone. -/
theorem toggle_frame {n : Mac} (h : n.frame = m.frame) (app : SWBAppDelegate) (helper : Helper)
    (useProxy : Bool) :
    (Raising.left (n.toggleSystemProxy app helper useProxy)).1.frame = m.frame := by
  cases helper with
  | missing => exact h
  | started auth => exact (sysconf_kept _ auth n.services).trans h

theorem reload_frame {n : Mac} (h : n.frame = m.frame) (app : SWBAppDelegate)
    (helper helper' : Helper) :
    (Raising.left (n.reloadSystemProxy app helper helper')).1.frame = m.frame := by
  simp only [reloadSystemProxy]
  split
  · apply Raising.left_bind (P := fun r : Mac × SWBAppDelegate => r.1.frame = m.frame)
    · exact toggle_frame h app helper false
    · exact fun r hr => toggle_frame hr r.2 helper' true
  · exact h

theorem launch_frame (helper : Helper) :
    (Raising.left (m.applicationDidFinishLaunching helper)).1.frame = m.frame := by
  apply Raising.left_bind (P := fun r : Mac × SWBAppDelegate => r.1.frame = m.frame)
  · rw [initializeProxy]
    split
    · apply Raising.left_bind (P := fun r : Mac × SWBAppDelegate => r.1.frame = m.frame)
      · exact toggle_frame rfl _ helper true
      · exact fun r hr => hr
    · rfl
  · exact fun r hr => hr

theorem withApp_frame {r : Outcome} (h : (Raising.left r).1.frame = m.frame) :
    (Raising.left ((r.map withApp).mapError withApp)).frame = m.frame := by
  cases r with
  | error r => exact h
  | ok r => exact h

theorem inApp_frame {f : Mac → SWBAppDelegate → Outcome}
    (hf : ∀ app, (Raising.left (f m app)).1.frame = m.frame) :
    (Raising.left (m.inApp f)).frame = m.frame := by
  simp only [inApp]
  split
  · rfl
  · exact withApp_frame (hf _)

theorem frame_step (m : Mac) (event : Event) : (Raising.left (m.step event)).frame = m.frame := by
  cases event with
  | launch helper =>
    simp only [step]
    split
    · rfl
    · exact withApp_frame (launch_frame helper)
  | toggleRunning helper =>
    apply inApp_frame
    intro app
    apply Raising.left_bind (P := fun r : Mac × SWBAppDelegate => r.1.frame = m.frame)
    · exact toggle_frame rfl app helper _
    · exact fun r hr => hr
  | enableAutoProxy helper helper' =>
    simp only [step]
    exact inApp_frame fun app => reload_frame rfl _ helper helper'
  | enableGlobal helper helper' =>
    simp only [step]
    exact inApp_frame fun app => reload_frame rfl _ helper helper'
  | onPACChange helper helper' =>
    simp only [step]
    exact inApp_frame fun app => reload_frame rfl app helper helper'
  | configurationDidChange =>
    simp only [step]
    exact inApp_frame fun app => rfl
  | terminate helper =>
    have happ : (Raising.left (m.inApp fun m app => m.applicationWillTerminate app helper)).frame =
        m.frame := by
      apply inApp_frame
      intro app
      simp only [applicationWillTerminate]
      split
      · exact toggle_frame rfl app helper false
      · rfl
    simp only [step]
    generalize m.inApp _ = r at happ
    cases r with
    | error m' => exact happ
    | ok m' => exact happ
  | killed => rfl

/-- In every run, also in one that ends with an exception, the services that the helper does not
manage stay as they were. Where the helper is there whenever it is to be started, the menu shows
the switch all along, and where each run of it is granted its rights the traffic goes where the
switch says. -/
theorem run_switch (h : m.Shows s) (hsends : m.Sends s.route) (events : List Event) :
    (Raising.left (events.foldlM step m)).frame = m.frame ∧
      ((∀ event ∈ events, event.Starts) → ∃ m', events.foldlM step m = .ok m' ∧
        m'.Shows (Run.after Switch.step s events) ∧
        ((∀ event ∈ events, event.Granted) →
          m'.Sends (Run.after Switch.step s events).route)) := by
  refine ⟨?_, ?_⟩
  · apply Raising.left_foldlM (P := fun n : Mac => n.frame = m.frame)
    · exact fun n event hn => (frame_step n event).trans hn
    · rfl
  · intro hstarts
    obtain ⟨m', hrun, hfollows⟩ := run_follows h hstarts
    exact ⟨m', hrun, hfollows.shows, fun hgranted => hfollows.sends hgranted hsends⟩

theorem routing_eq {x y : NetworkService} {routing : Routing} (h : x.kept = y.kept)
    (hx : x.managed → x.proxies.routing = routing) (hy : y.managed → y.proxies.routing = routing) :
    x.proxies.routing = y.proxies.routing := by
  have hhardware : x.hardware = y.hardware := congrArg (·.2.1) h
  have hmanaged : x.managed = y.managed := by
    simp only [NetworkService.managed, hhardware]
  have hproxies := congrArg (·.2.2) h
  simp only [NetworkService.kept, hmanaged] at hproxies
  cases hy' : y.managed with
  | true => rw [hx (hmanaged.trans hy'), hy hy']
  | false =>
    simp only [hy', Bool.false_eq_true, if_false, Option.some.injEq] at hproxies
    rw [hproxies]

/-- Two states with one frame whose services go the same way route every service alike. -/
theorem routings_eq {n : Mac} {route : Option Mode} (hframe : n.frame = m.frame)
    (hn : n.Sends route) (hm : m.Sends route) :
    (n.services.map fun service => service.proxies.routing) =
      m.services.map fun service => service.proxies.routing := by
  have hlists : ∀ xs ys : List NetworkService, xs.map NetworkService.kept = ys.map NetworkService.kept →
      (∀ x ∈ xs, x.managed → x.proxies.routing = Routing.of route) →
      (∀ y ∈ ys, y.managed → y.proxies.routing = Routing.of route) →
      (xs.map fun x => x.proxies.routing) = ys.map fun y => y.proxies.routing := by
    intro xs
    induction xs with
    | nil =>
      intro ys hkept _ _
      rw [List.map_nil, eq_comm, List.map_eq_nil_iff] at hkept
      rw [hkept]
    | cons x xs ih =>
      intro ys hkept hxs hys
      cases ys with
      | nil => simp at hkept
      | cons y ys =>
        simp only [List.map_cons, List.cons.injEq] at hkept ⊢
        rw [List.forall_mem_cons] at hxs hys
        exact ⟨routing_eq hkept.1 hxs.1 hys.1, ih ys hkept.2 hxs.2 hys.2⟩
  exact hlists n.services m.services hframe hn hm

/-- A fresh installation, with one service that is managed and one that is not. -/
def installed : Mac where
  isRunningObject := none
  mode := none
  services := [⟨"en0", some "AirPort", fun _ => none⟩, ⟨"en4", some "Bluetooth", fun _ => none⟩]
  app := none

theorem shows_installed : installed.Shows ⟨true, .auto, .absent⟩ := ⟨⟨rfl, rfl⟩, rfl⟩

theorem sends_installed : installed.Sends none := by
  intro service hmem _
  simp only [installed, List.mem_cons, List.not_mem_nil, or_false] at hmem
  rcases hmem with rfl | rfl <;> rfl

/-- The switch is set to global and the process is killed: its proxies stay in force. -/
theorem run_switch_installed :
    let granted : Helper := .started .granted
    ∃ m', [.launch granted, .enableGlobal granted granted, .killed].foldlM step installed = .ok m' ∧
      m'.Shows ⟨true, .global, .left⟩ ∧ m'.Sends (some .global) := by
  intro granted
  let events : List Event := [.launch granted, .enableGlobal granted granted, .killed]
  have hstarts : ∀ event ∈ events, event.Starts := by
    simp [events, granted, Event.Starts, Event.helpers]
  have hgranted : ∀ event ∈ events, event.Granted := by
    simp [events, granted, Event.Granted, Event.helpers]
  obtain ⟨m', hrun, hshows, hsends⟩ :=
    (run_switch shows_installed sends_installed events).2 hstarts
  exact ⟨m', hrun, hshows, hsends hgranted⟩

theorem Event.Granted.starts {event : Event} (h : event.Granted) : event.Starts := by
  intro helper hmem
  rw [h helper hmem]
  exact fun hmissing => by cases hmissing

/-- A process that quits or is killed and is launched again shows what it showed, and every service
goes where it went. -/
theorem relaunch_restores (h : m.Shows s) (hsends : m.Sends s.route) {events : List Event}
    (hgranted : ∀ event ∈ events, event.Granted) {ending : Event}
    (hending : ending = .terminate (.started .granted) ∨ ending = .killed) :
    ∃ before, events.foldlM step m = .ok before ∧ (before.app ≠ none →
      ∃ again, [ending, .launch (.started .granted)].foldlM step before = .ok again ∧
        again.app = before.app ∧ (again.services.map fun service => service.proxies.routing) =
          before.services.map fun service => service.proxies.routing) := by
  obtain ⟨before, hrun, hfollows⟩ := run_follows h fun event hmem => (hgranted event hmem).starts
  refine ⟨before, hrun, ?_⟩
  intro hpresent
  have hshows := hfollows.shows
  have hroute := hfollows.sends hgranted hsends
  generalize Run.after Switch.step s events = t at hshows hroute
  have hp : t.presence = .present := by
    by_contra hp
    rw [hshows.app, if_neg hp] at hpresent
    exact hpresent rfl
  have hback : Run.after Switch.step t [ending, .launch (.started .granted)] = t := by
    obtain ⟨on, mode, presence⟩ := t
    obtain rfl : presence = .present := hp
    rcases hending with rfl | rfl <;> rfl
  have hagain : ∀ event ∈ [ending, .launch (.started .granted)], event.Granted := by
    intro event hmem
    rcases hending with rfl | rfl <;> simp at hmem <;> rcases hmem with rfl | rfl <;>
      simp [Event.Granted, Event.helpers]
  obtain ⟨again, hrun', hfollows'⟩ :=
    run_follows hshows fun event hmem => (hagain event hmem).starts
  rw [hback] at hfollows'
  refine ⟨again, hrun', ?_, routings_eq hfollows'.frame (hfollows'.sends hagain hroute) hroute⟩
  rw [hfollows'.shows.app, hshows.app]

theorem relaunch_restores_installed :
    let granted : Helper := .started .granted
    ∃ before, [.launch granted, .enableGlobal granted granted].foldlM step installed = .ok before ∧
      ∃ again, [.terminate granted, .launch granted].foldlM step before = .ok again ∧
        again.app = before.app ∧ (again.services.map fun service => service.proxies.routing) =
          before.services.map fun service => service.proxies.routing := by
  intro granted
  have hgranted : ∀ event ∈ [Event.launch granted, .enableGlobal granted granted],
      event.Granted := by
    simp [granted, Event.Granted, Event.helpers]
  obtain ⟨before, hrun, hagain⟩ :=
    relaunch_restores shows_installed sends_installed hgranted (Or.inl rfl)
  obtain ⟨before', hrun', hfollows⟩ :=
    run_follows shows_installed fun event hmem => (hgranted event hmem).starts
  obtain rfl := Except.ok.inj (hrun.symm.trans hrun')
  refine ⟨before, hrun, hagain ?_⟩
  rw [hfollows.shows.app]
  exact Option.some_ne_none _

end Mac

end Shadowsocks
