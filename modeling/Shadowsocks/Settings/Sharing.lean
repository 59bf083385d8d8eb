import Mathlib.Data.List.TakeWhile
import Shadowsocks.Cipher.Reference
import Shadowsocks.Settings.Parse

/-! A server that `generateSSURL` puts into a URL, and what `openSSURL` makes of the URL. -/
namespace Shadowsocks

open Search

variable {F : Foundation} {S : OpenSSL} {text : Text} {server : ServerText} {d : Defaults}

/-- Nothing at the start of the text runs into a separator in front of it. -/
def Foundation.Apart (F : Foundation) (text : Text) : Prop :=
  text.head?.any F.combining = false

instance : Decidable (F.Apart text) := inferInstanceAs (Decidable (_ = _))

/-- The settings are those of a server of one's own. -/
structure Defaults.Holds (d : Defaults) (server : ServerText) : Prop where
  own : d.isUsingPublicServer = false
  ip : d.ip = some server.ip
  port : d.port = some server.port
  password : d.password = some server.password
  encryption : d.encryption = some server.method

/-- Three of the parts leave out separators of the text. -/
structure ServerText.Separable (server : ServerText) : Prop where
  method : ':' ∉ server.method
  ip : '@' ∉ server.ip
  port_colon : ':' ∉ server.port
  port_at : '@' ∉ server.port

/-- The URL of the server that `d` holds brings it into the settings `d'`. -/
def Foundation.Shares (F : Foundation) (server : ServerText) (d d' : Defaults)
    (r : LocalConfig S) : Prop :=
  ∃ url d'' r', F.generateSSURL d = some url ∧
    F.openSSURL url d' r = (d'', .ok (true, r')) ∧ d''.Holds server

/-- The text of the server begins with the scheme of a URL. -/
def Foundation.Schemed (F : Foundation) (server : ServerText) : Prop :=
  server.method = "ss".toList ∧ ∃ rest, server.password = '/' :: '/' :: rest ∧ F.Apart rest

theorem Foundation.apart_append (hF : F.Lawful) {c : Char} (hc : c.toNat < 128) {rest : Text} :
    F.Apart (text ++ c :: rest) ↔ F.Apart text := by
  cases text with
  | nil => simp [Apart, hF.combining_ascii c hc]
  | cons x text => simp [Apart]

theorem Foundation.startsWith_drop_eq_false {c : Char} {i : Nat} (h : text[i]? ≠ some c) :
    F.startsWith c (text.drop i) = false := by
  rw [Bool.eq_false_iff]
  intro hstart
  obtain ⟨rest, hrest, -⟩ := startsWith_iff.mp hstart
  apply h
  have hhead := congrArg List.head? hrest
  rwa [List.head?_drop] at hhead

theorem Foundation.startsWith_separator {before after : Text} {c : Char} :
    F.startsWith c ((before ++ c :: after).drop before.length) = true ↔ F.Apart after := by
  simp [startsWith, Apart]

theorem Foundation.rangeOfString_separator {before after : Text} {c : Char} (h : c ∉ before) :
    F.rangeOfString (before ++ c :: after) c = some before.length ↔ F.Apart after := by
  rw [rangeOfString, firstIndex_eq_some_iff, startsWith_separator]
  constructor
  · exact fun h => h.2.1
  · intro hafter
    refine ⟨by simp, hafter, ?_⟩
    intro j hj
    apply startsWith_drop_eq_false
    rw [List.getElem?_append_left hj]
    exact fun hget => h (List.mem_of_getElem? hget)

theorem Foundation.rangeOfStringBackwards_separator {before after : Text} {c : Char}
    (h : c ∉ after) :
    F.rangeOfStringBackwards (before ++ c :: after) c = some before.length ↔ F.Apart after := by
  rw [rangeOfStringBackwards, lastIndex_eq_some_iff, startsWith_separator]
  constructor
  · exact fun h => h.2.1
  · intro hafter
    refine ⟨by simp, hafter, ?_⟩
    intro j hj _
    apply startsWith_drop_eq_false
    obtain ⟨k, rfl⟩ : ∃ k, j = before.length + 1 + k := ⟨j - before.length - 1, by omega⟩
    intro hget
    apply h
    rw [List.getElem?_append_right (by omega)] at hget
    have hk : before.length + 1 + k - before.length = k + 1 := by omega
    rw [hk, List.getElem?_cons_succ] at hget
    exact List.mem_of_getElem? hget

theorem Foundation.delimited_iff (hF : F.Lawful) (h : server.Separable) :
    F.Delimited server ↔ F.Apart server.password ∧ F.Apart server.ip ∧ F.Apart server.port := by
  have hat : '@' ∉ server.ip ++ ':' :: server.port := by
    simp [h.ip, h.port_at]
  have htext_at : server.text = (server.method ++ ':' :: server.password) ++ '@' ::
      (server.ip ++ ':' :: server.port) := by simp [ServerText.text]
  have htext_colon : server.text = (server.method ++ ':' :: server.password ++ '@' ::
      server.ip) ++ ':' :: server.port := by simp [ServerText.text]
  have hlength_at : (server.method ++ ':' :: server.password).length =
      server.method.length + 1 + server.password.length := by
    simp only [List.length_append, List.length_cons]
    omega
  have hlength_colon : (server.method ++ ':' :: server.password ++ '@' :: server.ip).length =
      server.method.length + 1 + server.password.length + 1 + server.ip.length := by
    simp only [List.length_append, List.length_cons]
    omega
  have hfirst : F.rangeOfString server.text ':' = some server.method.length ↔
      F.Apart server.password := by
    rw [ServerText.text, rangeOfString_separator h.method, apart_append hF (by decide)]
  have hlast_at : F.rangeOfStringBackwards server.text '@' =
      some (server.method.length + 1 + server.password.length) ↔ F.Apart server.ip := by
    rw [htext_at, ← hlength_at, rangeOfStringBackwards_separator hat, apart_append hF (by decide)]
  have hlast_colon : F.rangeOfStringBackwards server.text ':' =
      some (server.method.length + 1 + server.password.length + 1 + server.ip.length) ↔
      F.Apart server.port := by
    rw [htext_colon, ← hlength_colon, rangeOfStringBackwards_separator h.port_colon]
  constructor
  · intro hd
    exact ⟨hfirst.mp hd.first_colon, hlast_at.mp hd.last_at, hlast_colon.mp hd.last_colon⟩
  · rintro ⟨hpassword, hip, hport⟩
    exact ⟨hfirst.mpr hpassword, hlast_at.mpr hip, hlast_colon.mpr hport⟩

theorem Foundation.dropScheme_eq_self : F.dropScheme text = text ↔
    ¬ ("ss://".toList <+: text ∧ F.Apart (text.drop 5)) := by
  by_cases h : "ss://".toList <+: text ∧ F.Apart (text.drop 5)
  · have hlength : 5 ≤ text.length := h.1.length_le
    have hne : text.drop 5 ≠ text := by
      intro heq
      have := congrArg List.length heq
      rw [List.length_drop] at this
      omega
    have hdrop : F.dropScheme text = text.drop 5 := if_pos ⟨h.1, by simpa [Apart] using h.2⟩
    rw [hdrop]
    exact ⟨fun heq => absurd heq hne, fun hn => absurd h hn⟩
  · have hdrop : F.dropScheme text = text := by
      apply if_neg
      rintro ⟨hscheme, hapart⟩
      exact h ⟨hscheme, by simpa [Apart] using hapart⟩
    exact ⟨fun _ => h, fun _ => hdrop⟩

theorem Foundation.scheme_iff (hF : F.Lawful) (h : ':' ∉ server.method) :
    "ss://".toList <+: server.text ∧ F.Apart (server.text.drop 5) ↔ F.Schemed server := by
  constructor
  · rintro ⟨⟨rest, hrest⟩, hapart⟩
    obtain ⟨m, p, ip, q⟩ := server
    match m, p with
    | [], p => simp [ServerText.text] at hrest
    | [a], p => simp [ServerText.text] at hrest
    | [a, b], [] => simp [ServerText.text] at hrest
    | [a, b], [x] => simp [ServerText.text] at hrest
    | [a, b], x :: y :: p =>
      have hchars : 's' = a ∧ 's' = b ∧ '/' = x ∧ '/' = y := by
        simp [ServerText.text] at hrest
        tauto
      obtain ⟨rfl, rfl, rfl, rfl⟩ := hchars
      have hp : F.Apart (p ++ '@' :: (ip ++ ':' :: q)) := by
        simpa [ServerText.text] using hapart
      exact ⟨rfl, p, rfl, (apart_append hF (by decide)).mp hp⟩
    | a :: b :: c :: m, p =>
      have hc : ':' = c := by
        simp [ServerText.text] at hrest
        tauto
      exact absurd (by simp [← hc]) h
  · rintro ⟨hmethod, rest, hpassword, hapart⟩
    have htext : server.text = "ss://".toList ++ (rest ++ '@' ::
        (server.ip ++ ':' :: server.port)) := by
      simp [ServerText.text, hmethod, hpassword]
    refine ⟨⟨_, htext.symm⟩, ?_⟩
    rw [htext]
    exact (apart_append hF (by decide)).mpr hapart

/-- The plain pass over a URL of base64 finds no colon behind the scheme. -/
theorem Foundation.parse_base64 (hF : F.Lawful) (h : IsBase64 text) (hne : text ≠ []) :
    F.parse (some ("ss://".toList ++ text)) = .error "colon not found" := by
  have hascii : ∀ c ∈ Base64.alphabet, c.toNat < 128 ∧ c ≠ ':' := by
    have hall : Base64.alphabet.all (fun c => c.toNat < 128 && c != ':') = true := by
      decide +kernel
    simpa using hall
  have happly : ∀ c ∈ text, c.toNat < 128 ∧ c ≠ ':' := by
    intro c hc
    rcases h c hc with hc | rfl
    · exact hascii c hc
    · decide
  have hapart : F.Apart text := by
    cases text with
    | nil => exact absurd rfl hne
    | cons c text => exact hF.combining_ascii c (happly c List.mem_cons_self).1
  have hdrop : F.dropScheme ("ss://".toList ++ text) = text :=
    if_pos ⟨⟨text, rfl⟩, by simpa [Apart] using hapart⟩
  have hfirst : F.rangeOfString text ':' = none := by
    rw [Option.eq_none_iff_forall_ne_some]
    intro i hi
    obtain ⟨rest, hrest, -⟩ := startsWith_iff.mp (firstIndex_eq_some_iff.mp hi).2.1
    have hmem : ':' ∈ text := List.mem_of_mem_drop (hrest ▸ List.mem_cons_self)
    exact (happly _ hmem).2 rfl
  simp only [parse, hdrop, hfirst]

theorem isBase64_base64Encoding (data : Bytes) : IsBase64 (base64Encoding data) :=
  fun _ hc => Base64.mem_encode hc

theorem takeWhile_congr {p q : Char → Bool} (h : ∀ c ∈ text, p c = q c) :
    text.takeWhile p = text.takeWhile q := by
  induction text with
  | nil => rfl
  | cons c text ih =>
    rw [List.takeWhile_cons, List.takeWhile_cons, h c List.mem_cons_self,
      ih fun x hx => h x (List.mem_cons_of_mem c hx)]

/-- No base64 text contains the other two characters that end a host. -/
theorem hostOf_base64Encoding (data : Bytes) :
    hostOf (base64Encoding data) = (base64Encoding data).takeWhile (· ≠ '/') := by
  have hends : ∀ c ∈ Base64.alphabet, c ≠ '?' ∧ c ≠ '#' := by
    have hall : Base64.alphabet.all (fun c => c != '?' && c != '#') = true := by decide +kernel
    simpa using hall
  apply takeWhile_congr
  intro c hc
  rcases isBase64_base64Encoding data c hc with hc | rfl
  · simp [hends c hc]
  · decide

variable {d' : Defaults} {r : LocalConfig S}

theorem Foundation.generateSSURL_of_holds (hF : F.Lawful) (h : d.Holds server) :
    F.generateSSURL d = some
      { absoluteString := "ss://".toList ++ base64Encoding (utf8 server.text)
        host := some (hostOf (base64Encoding (utf8 server.text))) } := by
  have hparts : formatted (d.configForKey .encryption) ++ ':' ::
      (formatted (d.configForKey .password) ++ '@' ::
        (formatted (d.configForKey .ip) ++ ':' :: formatted (d.configForKey .port))) =
      server.text := by
    simp [Defaults.configForKey, formatted, h.ip, h.port, h.password, h.encryption,
      ServerText.text]
  have hown : ¬ d.isUsingPublicServer = true := by
    rw [h.own]
    decide
  rw [generateSSURL, if_neg hown]
  simp only [hparts]
  exact hF.url_host _ (isBase64_base64Encoding _)

theorem Defaults.holds_storeServer (d : Defaults) (server : ServerText) :
    (d.storeServer server).Holds server := ⟨rfl, rfl, rfl, rfl, rfl⟩

theorem Defaults.Holds.unique {other : ServerText} (h : d.Holds server) (h' : d.Holds other) :
    server = other := by
  have hip := h.ip.symm.trans h'.ip
  have hport := h.port.symm.trans h'.port
  have hpassword := h.password.symm.trans h'.password
  have hmethod := h.encryption.symm.trans h'.encryption
  cases server
  cases other
  simp_all

/-- What the second pass makes of the host decides. -/
theorem Foundation.shares_iff_parse (hF : F.Lawful) (h : d.Holds server) :
    F.Shares server d d' r ↔ server.Saveable ∧
      F.parse (F.decodedHost (hostOf (base64Encoding (utf8 server.text)))) = .ok server := by
  have hne : base64Encoding (utf8 server.text) ≠ [] := by
    intro hnil
    have hdecode := hF.decode_encode (utf8 server.text)
    have hlength := hF.decode_length _ _ hdecode
    have htext := length_le_utf8 server.text
    rw [hnil] at hlength
    simp only [ServerText.text, List.length_append, List.length_cons, List.length_nil]
      at hlength htext
    omega
  have hfirst := parse_base64 hF (isBase64_base64Encoding (utf8 server.text)) hne
  constructor
  · rintro ⟨url, d'', r', hurl, hopen, hholds⟩
    rw [generateSSURL_of_holds hF h] at hurl
    cases hurl
    simp only [openSSURL, Foundation.server, hfirst] at hopen
    cases hparse : F.parse (F.decodedHost (hostOf (base64Encoding (utf8 server.text)))) with
    | error reason => simp [hparse] at hopen
    | ok found =>
      simp only [hparse, Prod.mk.injEq] at hopen
      obtain ⟨rfl, hreload⟩ := hopen
      have hfound := hholds.unique (Defaults.holds_storeServer d' found)
      subst hfound
      refine ⟨?_, rfl⟩
      rw [reloadConfig_storeServer] at hreload
      split at hreload
      · assumption
      · cases hreload
  · rintro ⟨hsaveable, hparse⟩
    refine ⟨_, d'.storeServer server, r.set server, generateSSURL_of_holds hF h, ?_,
      Defaults.holds_storeServer d' server⟩
    simp only [openSSURL, Foundation.server, hfirst, hparse, reloadConfig_storeServer,
      if_pos hsaveable]
    rfl

/-- A slash cuts the host too short for the text of the server. -/
theorem Foundation.parse_ne_of_slash (hF : F.Lawful)
    (h : '/' ∈ base64Encoding (utf8 server.text)) :
    F.parse (F.decodedHost (hostOf (base64Encoding (utf8 server.text)))) ≠ .ok server := by
  intro hparse
  have hshort := Base64.length_takeWhile_encode (by decide) h
  rw [hostOf_base64Encoding] at hparse
  cases htext : F.decodedHost ((base64Encoding (utf8 server.text)).takeWhile (· ≠ '/')) with
  | none =>
    rw [htext] at hparse
    cases hparse
  | some text =>
    rw [htext] at hparse
    obtain ⟨hdrop, -⟩ := parse_eq_ok_iff.mp hparse
    obtain ⟨data, hdata, hstring⟩ := Option.bind_eq_some_iff.mp htext
    have hdecoded := hF.decode_length _ _ hdata
    have hbytes := utf8_stringWithData hstring
    have hle : (utf8 server.text).length ≤ (utf8 text).length := by
      rw [← hdrop, dropScheme]
      split
      · conv => rhs; rw [← List.take_append_drop 5 text]
        rw [utf8_append, List.length_append]
        omega
      · exact Nat.le_refl _
    rw [hbytes] at hle
    simp only [base64Encoding] at hdecoded
    omega

theorem Foundation.decodedHost_base64Encoding (hF : F.Lawful)
    (h : '/' ∉ base64Encoding (utf8 text)) :
    F.decodedHost (hostOf (base64Encoding (utf8 text))) = some text := by
  have hhost : hostOf (base64Encoding (utf8 text)) = base64Encoding (utf8 text) := by
    rw [hostOf_base64Encoding, List.takeWhile_eq_self_iff]
    intro c hc
    have hne : c ≠ '/' := fun he => h (he ▸ hc)
    simpa using hne
  rw [decodedHost, hhost, hF.decode_encode, Option.bind_some, stringWithData_utf8]

/-- Sharing brings a server back exactly when no six-bit group of its text encodes to a slash,
the text does not begin with the scheme, no separator runs into the part behind it, and every
part passes its assertion. -/
theorem Foundation.shares_iff (hF : F.Lawful) (hserver : server.Separable) (h : d.Holds server)
    (d' : Defaults) (r : LocalConfig S) :
    F.Shares server d d' r ↔
      63 ∉ Base64.sixBits (utf8 server.text) ∧ ¬ F.Schemed server ∧
        (F.Apart server.password ∧ F.Apart server.ip ∧ F.Apart server.port) ∧
        server.Saveable := by
  rw [shares_iff_parse hF h, ← delimited_iff hF hserver, ← scheme_iff hF hserver.method,
    ← dropScheme_eq_self, ← Base64.slash_mem_encode]
  constructor
  · rintro ⟨hsaveable, hparse⟩
    have hslash : '/' ∉ base64Encoding (utf8 server.text) :=
      fun hslash => parse_ne_of_slash hF hslash hparse
    rw [decodedHost_base64Encoding hF hslash] at hparse
    obtain ⟨hdrop, hdelimited⟩ := parse_eq_ok_iff.mp hparse
    exact ⟨hslash, hdrop, hdelimited, hsaveable⟩
  · rintro ⟨hslash, hdrop, hdelimited, hsaveable⟩
    refine ⟨hsaveable, ?_⟩
    rw [decodedHost_base64Encoding hF hslash]
    exact parse_eq_ok_iff.mpr ⟨hdrop, hdelimited⟩

theorem Foundation.shares_iff_plain :
    Foundation.reference.Shares
      ⟨"aes-256-cfb".toList, "secret".toList, "10.0.0.1".toList, "8388".toList⟩
      (Defaults.empty.storeServer
        ⟨"aes-256-cfb".toList, "secret".toList, "10.0.0.1".toList, "8388".toList⟩)
      .empty (.zeroed Reference.openssl) := by
  refine (shares_iff lawful_reference ⟨by decide, by decide, by decide, by decide⟩
    (Defaults.holds_storeServer _ _) _ _).mpr ⟨by decide +kernel, ?_, by decide, by decide +kernel⟩
  rintro ⟨hmethod, -⟩
  exact absurd hmethod (by decide)

/-- The question mark of the password is the third byte of a group: the host ends at it. -/
theorem Foundation.not_shares_question :
    ¬ Foundation.reference.Shares
      ⟨"table".toList, "ab?".toList, "10.0.0.1".toList, "8388".toList⟩
      (Defaults.empty.storeServer
        ⟨"table".toList, "ab?".toList, "10.0.0.1".toList, "8388".toList⟩)
      .empty (.zeroed Reference.openssl) := by
  rw [shares_iff_parse lawful_reference (Defaults.holds_storeServer _ _)]
  rintro ⟨-, hparse⟩
  exact parse_ne_of_slash lawful_reference (Base64.slash_mem_encode.mpr (by decide +kernel)) hparse

end Shadowsocks
