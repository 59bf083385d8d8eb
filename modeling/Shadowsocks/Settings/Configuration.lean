import Shadowsocks.Settings.Foundation

/-! Profile.m and Configuration.m: the list of servers, and the dictionaries it is stored as. -/
namespace Shadowsocks

abbrev NSInteger := Int64

/-- `integerValue` of a string: white space, a sign, and digits; out of range the nearest number. -/
def integerValue (text : Text) : NSInteger :=
  let text := text.dropWhile Char.isWhitespace
  let (negative, digits) := match text with
    | '-' :: digits => (true, digits)
    | '+' :: digits => (false, digits)
    | digits => (false, digits)
  let n : Nat := (digits.takeWhile Char.isDigit).foldl (fun n c => 10 * n + (c.toNat - 48)) 0
  Int64.ofInt (max Int64.minValue.toInt (min (if negative then -n else n) Int64.maxValue.toInt))

/-- `stringWithFormat:@"%ld"` -/
def decimal (n : NSInteger) : Text := (toString n.toInt).toList

/-- An object that `NSJSONSerialization` writes. Its data stand for the object: they are read
back to an equal one. -/
inductive Json
  | null
  | number (value : Int)
  | string (value : Text)
  | array (items : List Json)
  | object (entries : List (String × Json))

namespace Json

/-- `dictionary[key]` -/
def lookup (dictionary : List (String × Json)) (key : String) : Option Json :=
  (dictionary.find? fun entry => entry.1 == key).map Prod.snd

/-- `(value != [NSNull null]) ? value : nil`, which is to be a string. -/
def asString : Option Json → Option (Option Text)
  | none => some none
  | some .null => some none
  | some (.string text) => some (some text)
  | some _ => none

/-- `(value != [NSNull null]) ? [value integerValue] : 0` -/
def asInteger : Option Json → Option NSInteger
  | none => some 0
  | some .null => some 0
  | some (.number n) => some (Int64.ofInt n)
  | some (.string text) => some (integerValue text)
  | some _ => none

/-- What `for (… in value)` goes through. -/
def asItems : Option Json → Option (List Json)
  | none => some []
  | some (.array items) => some items
  | some _ => none

/-- `(text != nil) ? text : [NSNull null]` -/
def ofString : Option Text → Json
  | none => .null
  | some text => .string text

end Json

structure Profile where
  server : Option Text
  serverPort : NSInteger
  remarks : Option Text
  password : Option Text
  method : Option Text
  deriving DecidableEq

/-- What `[[Profile alloc] init]` makes. -/
def Profile.init : Profile := ⟨none, 0, none, none, none⟩

def Profile.jsonDictionary (profile : Profile) : Json :=
  .object
    [("server", .ofString profile.server),
     ("server_port", .number profile.serverPort.toInt),
     ("remarks", .ofString profile.remarks),
     ("password", .ofString profile.password),
     ("method", .ofString profile.method)]

/-- `none` when the object is not a dictionary, or a member is of a kind that the program does
not write. -/
def Profile.initWithJSONDictionary : Json → Option Profile
  | .object dictionary => do
    let server ← Json.asString (Json.lookup dictionary "server")
    let serverPort ← Json.asInteger (Json.lookup dictionary "server_port")
    let remarks ← Json.asString (Json.lookup dictionary "remarks")
    let password ← Json.asString (Json.lookup dictionary "password")
    let method ← Json.asString (Json.lookup dictionary "method")
    pure ⟨server, serverPort, remarks, password, method⟩
  | _ => none

structure Configuration where
  current : NSInteger
  profiles : List Profile
  deriving DecidableEq

def Configuration.jsonDictionary (configuration : Configuration) : Json :=
  .object
    [("current", .number configuration.current.toInt),
     ("profiles", .array (configuration.profiles.map Profile.jsonDictionary))]

def Configuration.initWithJSONDictionary : Json → Option Configuration
  | .object dictionary => do
    let current ← Json.asInteger (Json.lookup dictionary "current")
    let items ← Json.asItems (Json.lookup dictionary "profiles")
    let profiles ← items.mapM Profile.initWithJSONDictionary
    pure ⟨current, profiles⟩
  | _ => none

theorem asString_ofString (text : Option Text) :
    Json.asString (some (.ofString text)) = some text := by
  cases text <;> rfl

theorem Profile.initWithJSONDictionary_jsonDictionary (profile : Profile) :
    initWithJSONDictionary profile.jsonDictionary = some profile := by
  have hinteger : Json.asInteger (some (.number profile.serverPort.toInt)) =
      some profile.serverPort := by
    simp [Json.asInteger]
  simp [initWithJSONDictionary, jsonDictionary, Json.lookup, asString_ofString, hinteger]

theorem Configuration.initWithJSONDictionary_jsonDictionary (configuration : Configuration) :
    initWithJSONDictionary configuration.jsonDictionary = some configuration := by
  have hcurrent : Json.asInteger (some (.number configuration.current.toInt)) =
      some configuration.current := by
    simp [Json.asInteger]
  have hprofiles : (configuration.profiles.map Profile.jsonDictionary).mapM
      Profile.initWithJSONDictionary = some configuration.profiles := by
    induction configuration.profiles with
    | nil => rfl
    | cons profile profiles ih =>
      simp [Profile.initWithJSONDictionary_jsonDictionary, ih]
  simp [initWithJSONDictionary, jsonDictionary, Json.lookup, Json.asItems, hcurrent, hprofiles]

/-- The data under the key of the configuration, which the program alone writes. -/
structure ConfigData where
  json : Json
  written : ∃ configuration : Configuration, configuration.jsonDictionary = json

def Configuration.jsonData (configuration : Configuration) : ConfigData :=
  ⟨configuration.jsonDictionary, configuration, rfl⟩

def Configuration.initWithJSONData (data : ConfigData) : Configuration :=
  (initWithJSONDictionary data.json).get (by
    obtain ⟨configuration, hwritten⟩ := data.written
    rw [← hwritten, initWithJSONDictionary_jsonDictionary]
    rfl)

@[simp] theorem Configuration.initWithJSONData_jsonData (configuration : Configuration) :
    initWithJSONData configuration.jsonData = configuration := by
  simp [initWithJSONData, jsonData, initWithJSONDictionary_jsonDictionary]

/-- A number of the machine has few digits. -/
theorem length_decimal (n : NSInteger) : (decimal n).length ≤ 20 := by
  have hlower := n.le_toInt
  have hupper := n.toInt_lt
  rw [decimal, String.length_toList]
  generalize n.toInt = i at hlower hupper
  cases i with
  | ofNat m =>
    have habs : Int.ofNat m = (m : Int) := rfl
    have hdigits : m.repr.length ≤ 19 := (Nat.length_repr_le_iff (by decide)).mpr (by omega)
    have hrepr : toString (Int.ofNat m) = m.repr := rfl
    rw [hrepr]
    omega
  | negSucc m =>
    have habs : Int.negSucc m = -(m + 1 : Int) := rfl
    have hdigits : (m + 1).repr.length ≤ 19 := (Nat.length_repr_le_iff (by decide)).mpr (by omega)
    have hrepr : toString (Int.negSucc m) = "-" ++ (m + 1).repr := rfl
    have hsign : "-".length = 1 := rfl
    rw [hrepr, String.length_append]
    omega

end Shadowsocks
