import Shadowsocks.Cipher.Sodium
import Shadowsocks.Library.Base64
import Shadowsocks.Library.Search

/-!
What the settings code uses of Foundation. The system's framework is not part of the repository;
where its behaviour is not fixed by a standard it is a parameter.
-/
namespace Shadowsocks

open Search

/-- The characters of an `NSString`. -/
abbrev Text := List Char

/-- `dataUsingEncoding:NSUTF8StringEncoding` -/
def utf8 (text : Text) : Bytes := text.flatMap String.utf8EncodeChar

/-- `initWithData:encoding:NSUTF8StringEncoding` -/
def stringWithData (data : Bytes) : Option Text :=
  data.toByteArray.utf8Decode?.map Array.toList

/-- As much of an `NSURL` as is read. -/
structure NSURL where
  absoluteString : Text
  host : Option Text

structure Foundation where
  /-- The character continues the composed character sequence that it stands in. A search
  compares whole sequences. -/
  combining : Char → Bool
  initWithBase64Encoding : Text → Option Bytes
  urlWithString : Text → Option NSURL

def base64Encoding (data : Bytes) : Text := Base64.encode data

/-- The part of what follows `ss://` that is the host. -/
def hostOf (rest : Text) : Text := rest.takeWhile fun c => c ∉ ['/', '?', '#']

/-- What the characters of a base64 text are: those of its alphabet and the padding. -/
def IsBase64 (text : Text) : Prop := ∀ c ∈ text, c ∈ Base64.alphabet ∨ c = '='

structure Foundation.Lawful (F : Foundation) : Prop where
  combining_ascii : ∀ c : Char, c.toNat < 128 → F.combining c = false
  decode_encode : ∀ data, F.initWithBase64Encoding (base64Encoding data) = some data
  /-- Four characters stand for at most three bytes. -/
  decode_length : ∀ text data, F.initWithBase64Encoding text = some data →
    4 * data.length ≤ 3 * text.length
  url_host : ∀ rest, IsBase64 rest →
    F.urlWithString ("ss://".toList ++ rest) = some ⟨"ss://".toList ++ rest, some (hostOf rest)⟩

variable {F : Foundation} {text : Text}

/-- The text starts with `c`, and what follows is not part of the same composed character. -/
def Foundation.startsWith (F : Foundation) (c : Char) : Text → Bool
  | x :: rest => x == c && !rest.head?.any F.combining
  | [] => false

/-- The location of the range that `rangeOfString:` finds for one character. -/
def Foundation.rangeOfString (F : Foundation) (text : Text) (c : Char) : Option Nat :=
  firstIndex (F.startsWith c) text

/-- The same with `NSBackwardsSearch`. -/
def Foundation.rangeOfStringBackwards (F : Foundation) (text : Text) (c : Char) : Option Nat :=
  lastIndex (F.startsWith c) text

/-- `substringWithRange:` -/
def substring (text : Text) (location length : Nat) : Text := (text.drop location).take length

/-- `stringByReplacingOccurrencesOfString:@"ss://" withString:@""` with `NSAnchoredSearch`, which
limits the search to the start. -/
def Foundation.dropScheme (F : Foundation) (text : Text) : Text :=
  if "ss://".toList <+: text ∧ !(text.drop 5).head?.any F.combining then text.drop 5 else text

theorem stringWithData_utf8 (text : Text) : stringWithData (utf8 text) = some text := by
  have hencode : (utf8 text).toByteArray = text.utf8Encode := rfl
  simp [stringWithData, hencode]

theorem utf8_stringWithData {data : Bytes} (h : stringWithData data = some text) :
    utf8 text = data := by
  obtain ⟨chars, hchars, rfl⟩ := Option.map_eq_some_iff.mp h
  have hdecoded : data.toByteArray.utf8Decode?.get (by simp [hchars]) = chars := by simp [hchars]
  have hbytes : chars.toList.utf8Encode = data.toByteArray := by
    rw [← hdecoded]
    exact ByteArray.utf8Encode_get_utf8Decode?
  have hdata := congrArg (fun b => b.data.toList) hbytes
  simpa [List.utf8Encode, utf8] using hdata

@[simp] theorem utf8_append (a b : Text) : utf8 (a ++ b) = utf8 a ++ utf8 b :=
  List.flatMap_append ..

theorem length_le_utf8 (text : Text) : text.length ≤ (utf8 text).length := by
  induction text with
  | nil => exact Nat.le_refl 0
  | cons c text ih =>
    have hc := c.utf8Size_pos
    simp only [utf8, List.flatMap_cons, List.length_append, String.length_utf8EncodeChar,
      List.length_cons] at ih ⊢
    omega

/-- Accents are the only characters that combine, and any text is a URL. -/
def Foundation.reference : Foundation where
  combining c := 0x300 ≤ c.toNat && c.toNat < 0x370
  initWithBase64Encoding := Base64.decode
  urlWithString text :=
    some ⟨text, if "ss://".toList <+: text then some (hostOf (text.drop 5)) else none⟩

theorem Foundation.lawful_reference : Foundation.reference.Lawful where
  combining_ascii c hc := by
    simp only [reference, Bool.and_eq_false_iff, decide_eq_false_iff_not]
    omega
  decode_encode := Base64.decode_encode
  decode_length _ _ := Base64.length_decode
  url_host rest _ := by
    have hscheme : "ss://".toList <+: "ss://".toList ++ rest := ⟨rest, rfl⟩
    simp only [reference, if_pos hscheme]
    rfl

end Shadowsocks
