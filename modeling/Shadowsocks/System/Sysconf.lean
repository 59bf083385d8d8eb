import Mathlib.Logic.Function.Basic
import Mathlib.Tactic.SplitIfs

/-!
shadowsocks_sysconf, the helper that writes the proxies of the network services. The dictionary
that it stores is made once, and the loop over the services goes on filling it in.
-/
namespace Shadowsocks

/-- A member of the dictionary under `Proxies`. -/
inductive Setting
  | number (n : Int)
  | text (s : String)
  deriving DecidableEq, Repr

/-- The dictionary under `Proxies`, by the values of the `kCFNetworkProxies` constants. -/
abbrev Proxies := String → Option Setting

/-- One of the dictionaries under `NetworkServices`, with its key. -/
structure NetworkService where
  key : String
  /-- The value at `Interface.Hardware`. -/
  hardware : Option String
  proxies : Proxies

/-- What comes of `AuthorizationCreate`. -/
inductive Authorization
  | failed
  | null
  | granted
  deriving DecidableEq, Repr

/-- What `main` returns and prints, and the services it leaves. -/
structure Sysconf where
  status : Int
  output : String
  services : List NetworkService

namespace Proxies

def set (p : Proxies) (key : String) (value : Setting) : Proxies := Function.update p key (some value)

/-- The four switches, all at zero. -/
def initial : Proxies :=
  let p : Proxies := fun _ => none
  let p := p.set "HTTPEnable" (.number 0)
  let p := p.set "HTTPSEnable" (.number 0)
  let p := p.set "ProxyAutoConfigEnable" (.number 0)
  p.set "SOCKSEnable" (.number 0)

/-- What the body of the loop adds. -/
def fill (p : Proxies) (mode : String) : Proxies :=
  if mode = "auto" then
    (p.set "ProxyAutoConfigURLString" (.text "http://127.0.0.1:8090/proxy.pac")).set
      "ProxyAutoConfigEnable" (.number 1)
  else if mode = "global" then
    ((p.set "SOCKSProxy" (.text "127.0.0.1")).set "SOCKSPort" (.number 1080)).set
      "SOCKSEnable" (.number 1)
  else p

end Proxies

namespace NetworkService

/-- The hardware whose proxies the helper sets. -/
def managed (service : NetworkService) : Bool :=
  service.hardware = some "AirPort" || service.hardware = some "Wi-Fi" ||
    service.hardware = some "Ethernet"

end NetworkService

/-- The loop over the keys: the dictionary comes from the iteration before. -/
def setProxies (mode : String) : Proxies → List NetworkService → List NetworkService
  | _, [] => []
  | proxies, service :: services =>
    if service.managed then
      let proxies := proxies.fill mode
      { service with proxies := proxies } :: setProxies mode proxies services
    else service :: setProxies mode proxies services

def sysconfUsage : String := "usage: shadowsocks_sysconf off/auto/global\n"

/-- `main`, given the arguments after the program's name. -/
def sysconf (args : List String) (auth : Authorization) (services : List NetworkService) :
    Sysconf :=
  match args with
  | [mode] =>
    if mode ∉ ["off", "auto", "global", "-v"] then ⟨1, sysconfUsage, services⟩
    else if mode = "-v" then ⟨0, "1.0.0", services⟩
    else
      match auth with
      | .failed => ⟨0, "pac proxy set to " ++ mode, services⟩
      | .null => ⟨1, "", services⟩
      | .granted => ⟨0, "pac proxy set to " ++ mode, setProxies mode .initial services⟩
  | _ => ⟨1, sysconfUsage, services⟩

/-! Which way a service's traffic goes. -/

/-- What the system makes of the dictionary: a switch that is off hides the entries that belong
to it. -/
structure Routing where
  http : Bool
  https : Bool
  /-- The URL of the PAC file. -/
  pac : Option (Option Setting)
  /-- The host and the port. -/
  socks : Option (Option Setting × Option Setting)
  deriving DecidableEq, Repr

def Proxies.enabled (p : Proxies) (key : String) : Bool :=
  match p key with
  | some (.number n) => n ≠ 0
  | _ => false

def Proxies.routing (p : Proxies) : Routing where
  http := p.enabled "HTTPEnable"
  https := p.enabled "HTTPSEnable"
  pac := if p.enabled "ProxyAutoConfigEnable" then some (p "ProxyAutoConfigURLString") else none
  socks := if p.enabled "SOCKSEnable" then some (p "SOCKSProxy", p "SOCKSPort") else none

inductive Mode
  | auto
  | global
  deriving DecidableEq, Repr

def Mode.name : Mode → String
  | auto => "auto"
  | global => "global"

/-- Through the PAC file, or through the local SOCKS server, or neither. -/
def Routing.of : Option Mode → Routing
  | none => ⟨false, false, none, none⟩
  | some .auto => ⟨false, false, some (some (.text "http://127.0.0.1:8090/proxy.pac")), none⟩
  | some .global => ⟨false, false, none, some (some (.text "127.0.0.1"), some (.number 1080))⟩

/-- The argument that asks for a routing. -/
def Mode.param : Option Mode → String
  | none => "off"
  | some mode => mode.name

/-- Filling in the same mode again changes nothing. -/
theorem Proxies.fill_fill (p : Proxies) (mode : String) :
    (p.fill mode).fill mode = p.fill mode := by
  by_cases hauto : mode = "auto"
  · funext key
    simp only [fill, if_pos hauto, set, Function.update_apply]
    split_ifs <;> rfl
  · by_cases hglobal : mode = "global"
    · funext key
      simp only [fill, if_neg hauto, if_pos hglobal, set, Function.update_apply]
      split_ifs <;> rfl
    · simp only [fill, if_neg hauto, if_neg hglobal]

/-- In whatever order the services come, each that is managed gets the same dictionary, and the
others keep theirs. -/
theorem setProxies_eq_map (mode : String) (p : Proxies) (services : List NetworkService) :
    setProxies mode p services = services.map fun service =>
      if service.managed then { service with proxies := p.fill mode } else service := by
  have hloop : ∀ q : Proxies, q.fill mode = p.fill mode → setProxies mode q services =
      services.map fun service =>
        if service.managed then { service with proxies := p.fill mode } else service := by
    induction services with
    | nil =>
      intro q _
      rfl
    | cons service services ih =>
      intro q hq
      simp only [setProxies, List.map_cons]
      cases service.managed with
      | true =>
        simp only [if_true, hq]
        rw [ih (p.fill mode) (p.fill_fill mode)]
      | false =>
        simp only [Bool.false_eq_true, if_false]
        rw [ih q hq]
  exact hloop p rfl

theorem routing_fill (mode : Option Mode) :
    (Proxies.initial.fill (Mode.param mode)).routing = Routing.of mode := by
  rcases mode with _ | _ | _ <;> rfl

/-- A run that is granted its rights routes every managed service the way it is asked to. -/
theorem sysconf_granted (mode : Option Mode) (services : List NetworkService) :
    (sysconf [Mode.param mode] .granted services).services = services.map fun service =>
      if service.managed then
        { service with proxies := Proxies.initial.fill (Mode.param mode) }
      else service := by
  rw [← setProxies_eq_map]
  rcases mode with _ | _ | _ <;> rfl

/-- What no run of the helper changes of a service: the proxies only where they are not managed. -/
def NetworkService.kept (service : NetworkService) : String × Option String × Option Proxies :=
  (service.key, service.hardware, if service.managed then none else some service.proxies)

theorem sysconf_kept (args : List String) (auth : Authorization) (services : List NetworkService) :
    (sysconf args auth services).services.map NetworkService.kept =
      services.map NetworkService.kept := by
  have hset : ∀ mode : String, (setProxies mode .initial services).map NetworkService.kept =
      services.map NetworkService.kept := by
    intro mode
    rw [setProxies_eq_map, List.map_map]
    apply List.map_congr_left
    intro service _
    simp only [Function.comp_apply]
    cases hmanaged : service.managed with
    | true =>
      have hset : NetworkService.managed { service with proxies := Proxies.initial.fill mode } :=
        hmanaged
      simp only [if_true, NetworkService.kept, hset, hmanaged]
    | false => rfl
  unfold sysconf
  split
  · split_ifs
    · rfl
    · cases auth with
      | failed => rfl
      | null => rfl
      | granted => exact hset _
    · rfl
  · rfl

end Shadowsocks
