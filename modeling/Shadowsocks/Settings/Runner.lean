import Shadowsocks.Cipher.Encrypt
import Shadowsocks.Settings.Configuration

/-!
ShadowsocksRunner.m and `set_config`: the stored settings, what is running, and the URLs that
servers are shared by.
-/
namespace Shadowsocks

/-- The values that `NSUserDefaults` has under the keys of the program. -/
structure Defaults where
  ip : Option Text
  port : Option Text
  password : Option Text
  encryption : Option Text
  usePublicServer : Option Bool
  config : Option ConfigData

/-- Before anything has been stored. -/
def Defaults.empty : Defaults := ⟨none, none, none, none, none, none⟩

inductive Key
  | ip
  | port
  | password
  | encryption
  deriving DecidableEq, Repr

/-- What `set_config` has copied, and the variables of encrypt.c. -/
structure LocalConfig (S : OpenSSL) where
  server : Text
  remotePort : Text
  password : Text
  method : Text
  globals : Globals S

def LocalConfig.zeroed (S : OpenSSL) : LocalConfig S := ⟨[], [], [], [], .zeroed S⟩

/-- How the process ends instead of returning. -/
inductive Crash
  | assertion
  | nullString
  | nullKey
  | outOfBounds
  deriving DecidableEq, Repr

def savedStrLen : Nat := 512

variable {S : OpenSSL}

/-- The characters of the C string that `cStringUsingEncoding:NSUTF8StringEncoding` makes: those
up to the first that is encoded as a zero byte. -/
def cString (text : Text) : Text := text.takeWhile (· ≠ '\x00')

def strlen (text : Text) : Nat := (utf8 (cString text)).length

/-- `assert(strlen(string) < SAVED_STR_LEN)` -/
def checkedString : Option Text → Except Crash Text
  | none => .error .nullString
  | some text => if strlen text < savedStrLen then .ok (cString text) else .error .assertion

/-- `set_config`, on pointers that may be `NULL`. -/
def setConfig (server remotePort password method : Option Text) (r : LocalConfig S) :
    Except Crash (LocalConfig S) := do
  let server ← checkedString server
  let remotePort ← checkedString remotePort
  let password ← checkedString password
  let method ← checkedString method
  pure
    { server := server
      remotePort := remotePort
      password := password
      method := method
      globals := configEncryption r.globals (utf8 password) (String.ofList method) }

namespace Defaults

variable (d : Defaults)

/-- `setObject:forKey:`, which removes the key when the object is nil. -/
def saveConfigForKey (value : Option Text) : Key → Defaults
  | .ip => { d with ip := value }
  | .port => { d with port := value }
  | .password => { d with password := value }
  | .encryption => { d with encryption := value }

def configForKey : Key → Option Text
  | .ip => d.ip
  | .port => d.port
  | .password => d.password
  | .encryption => d.encryption

def setUsingPublicServer (use : Bool) : Defaults := { d with usePublicServer := some use }

def isUsingPublicServer : Bool := d.usePublicServer.getD true

def settingsAreNotComplete : Bool :=
  !d.isUsingPublicServer && (d.ip.isNone || d.port.isNone || d.password.isNone)

end Defaults

/-- The sixteen bytes that are copied over the key of the public server. -/
def publicKey : Bytes :=
  [0x45, 0xd1, 0xd9, 0x9e, 0xbd, 0xf5, 0x8c, 0x85, 0x34, 0x55, 0xdd, 0x65, 0x46, 0xcd, 0x06, 0xd3]

/-- `memcpy(shadowsocks_key, …, 16)` -/
def overwriteKey (r : LocalConfig S) : Except Crash (LocalConfig S) :=
  if r.globals.shadowsocksKey then
    .ok { r with globals := { r.globals with key := Memory.memcpy r.globals.key 0 publicKey } }
  else .error .nullKey

def reloadConfig (d : Defaults) (r : LocalConfig S) : Except Crash (LocalConfig S) :=
  if d.settingsAreNotComplete then .ok r
  else if d.isUsingPublicServer then do
    let r ← setConfig (some "106.186.124.182".toList) (some "8911".toList)
      (some "Shadowsocks".toList) (some "aes-128-cfb".toList) r
    overwriteKey r
  else
    setConfig d.ip d.port d.password (some (d.encryption.getD "aes-256-cfb".toList)) r

/-- The four parts of a server's text. -/
structure ServerText where
  method : Text
  password : Text
  ip : Text
  port : Text
  deriving DecidableEq

/-- The body of the loop of `openSSURL`, up to the four substrings, or the reason why it goes
on. On a nil string no colon is found. -/
def Foundation.parse (F : Foundation) : Option Text → Except String ServerText
  | none => .error "colon not found"
  | some urlString =>
    let urlString := F.dropScheme urlString
    match F.rangeOfString urlString ':', F.rangeOfStringBackwards urlString ':' with
    | some firstColon, some lastColon =>
      if firstColon = lastColon then .error "only one colon"
      else
        match F.rangeOfStringBackwards urlString '@' with
        | none => .error "at not found"
        | some lastAt =>
          if ¬ (firstColon < lastAt ∧ lastAt < lastColon) then .error "wrong position"
          else
            .ok
              { method := substring urlString 0 firstColon
                password := substring urlString (firstColon + 1) (lastAt - firstColon - 1)
                ip := substring urlString (lastAt + 1) (lastColon - lastAt - 1)
                port := substring urlString (lastColon + 1) (urlString.length - lastColon - 1) }
    | _, _ => .error "colon not found"

/-- The text that the second pass looks at. -/
def Foundation.decodedHost (F : Foundation) (host : Text) : Option Text :=
  (F.initWithBase64Encoding host).bind stringWithData

/-- The two passes of the loop. -/
def Foundation.server (F : Foundation) (url : NSURL) (host : Text) : Except String ServerText :=
  match F.parse (some url.absoluteString) with
  | .ok server => .ok server
  | .error _ => F.parse (F.decodedHost host)

/-- The five writes for a server that has been found. -/
def Defaults.storeServer (d : Defaults) (server : ServerText) : Defaults :=
  let d := d.saveConfigForKey (some server.ip) .ip
  let d := d.saveConfigForKey (some server.port) .port
  let d := d.saveConfigForKey (some server.password) .password
  let d := d.saveConfigForKey (some server.method) .encryption
  d.setUsingPublicServer false

/-- The settings, and unless the process ends the result and what is running. -/
def Foundation.openSSURL (F : Foundation) (url : NSURL) (d : Defaults) (r : LocalConfig S) :
    Defaults × Except Crash (Bool × LocalConfig S) :=
  match url.host with
  | none => (d, .ok (false, r))
  | some host =>
    match F.server url host with
    | .error _ => (d, .ok (false, r))
    | .ok server =>
      let d := d.storeServer server
      (d, (reloadConfig d r).map fun r => (true, r))

/-- Every part passes its assertion in `set_config`. -/
def ServerText.Saveable (server : ServerText) : Prop :=
  ∀ part ∈ [server.ip, server.port, server.password, server.method], strlen part < savedStrLen

instance (server : ServerText) : Decidable server.Saveable :=
  inferInstanceAs (Decidable (∀ part ∈ _, _))

/-- What `set_config` leaves on the four strings. -/
def LocalConfig.set (r : LocalConfig S) (server : ServerText) : LocalConfig S where
  server := cString server.ip
  remotePort := cString server.port
  password := cString server.password
  method := cString server.method
  globals := configEncryption r.globals (utf8 (cString server.password))
    (String.ofList (cString server.method))

theorem setConfig_some (server : ServerText) (r : LocalConfig S) :
    setConfig (some server.ip) (some server.port) (some server.password) (some server.method) r =
      if server.Saveable then .ok (r.set server) else .error .assertion := by
  simp only [setConfig, checkedString, ServerText.Saveable, List.mem_cons, List.not_mem_nil,
    or_false, forall_eq_or_imp, forall_eq]
  by_cases hip : strlen server.ip < savedStrLen
  · by_cases hport : strlen server.port < savedStrLen
    · by_cases hpassword : strlen server.password < savedStrLen
      · by_cases hmethod : strlen server.method < savedStrLen
        · simp only [hip, hport, hpassword, hmethod, if_true, and_self]
          rfl
        · simp only [hip, hport, hpassword, hmethod, if_true, if_false, and_false]
          rfl
      · simp only [hip, hport, hpassword, if_true, if_false, false_and, and_false]
        rfl
    · simp only [hip, hport, if_true, if_false, false_and, and_false]
      rfl
  · simp only [hip, if_false, false_and]
    rfl

/-- What `reloadConfig` hands to `set_config` for a server of one's own, when the settings are
complete. -/
def Defaults.arguments (d : Defaults) : Option ServerText :=
  match d.ip, d.port, d.password with
  | some ip, some port, some password =>
    some ⟨d.encryption.getD "aes-256-cfb".toList, password, ip, port⟩
  | _, _, _ => none

def publicServer : ServerText where
  method := "aes-128-cfb".toList
  password := "Shadowsocks".toList
  ip := "106.186.124.182".toList
  port := "8911".toList

theorem reloadConfig_public {d : Defaults} (h : d.isUsingPublicServer = true)
    (r : LocalConfig S) : reloadConfig d r = overwriteKey (r.set publicServer) := by
  have hcomplete : d.settingsAreNotComplete = false := by
    simp [Defaults.settingsAreNotComplete, h]
  have hset := setConfig_some publicServer r
  rw [if_pos (by decide +kernel)] at hset
  rw [reloadConfig, if_neg (by simp [hcomplete]), if_pos h]
  exact congrArg (· >>= overwriteKey) hset

theorem reloadConfig_own {d : Defaults} (h : d.isUsingPublicServer = false)
    (r : LocalConfig S) : reloadConfig d r =
      match d.arguments with
      | none => .ok r
      | some server => if server.Saveable then .ok (r.set server) else .error .assertion := by
  obtain ⟨ip, port, password, encryption, use, config⟩ := d
  cases ip with
  | none => simp [reloadConfig, Defaults.settingsAreNotComplete, Defaults.arguments, h]
  | some ip =>
    cases port with
    | none => simp [reloadConfig, Defaults.settingsAreNotComplete, Defaults.arguments, h]
    | some port =>
      cases password with
      | none => simp [reloadConfig, Defaults.settingsAreNotComplete, Defaults.arguments, h]
      | some password =>
        simp only [reloadConfig, Defaults.settingsAreNotComplete, Defaults.arguments, h]
        exact setConfig_some ⟨_, password, ip, port⟩ r

theorem reloadConfig_storeServer (d : Defaults) (server : ServerText) (r : LocalConfig S) :
    reloadConfig (d.storeServer server) r =
      if server.Saveable then .ok (r.set server) else .error .assertion :=
  setConfig_some server r

/-- A nil argument of `%@`. -/
def formatted (value : Option Text) : Text := value.getD "(null)".toList

def Foundation.generateSSURL (F : Foundation) (d : Defaults) : Option NSURL :=
  if d.isUsingPublicServer then none
  else
    let parts := formatted (d.configForKey .encryption) ++ ':' ::
      (formatted (d.configForKey .password) ++ '@' ::
        (formatted (d.configForKey .ip) ++ ':' :: formatted (d.configForKey .port)))
    F.urlWithString ("ss://".toList ++ base64Encoding (utf8 parts))

end Shadowsocks
