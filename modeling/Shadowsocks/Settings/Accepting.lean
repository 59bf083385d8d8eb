import Mathlib.Data.List.TakeWhile
import Shadowsocks.Cipher.Chunks
import Shadowsocks.Settings.Parse

/-! Whether a URL that `openSSURL` accepts is what runs afterwards. -/
namespace Shadowsocks

variable {F : Foundation} {S : OpenSSL} {url : NSURL} {server : ServerText}
  {d : Defaults} {r r' : LocalConfig S}

/-- The text names the server: behind the scheme it is the text of the server. -/
def Foundation.NamedBy (F : Foundation) (text : Option Text) (server : ServerText) : Prop :=
  ∃ t, text = some t ∧ F.dropScheme t = server.text ∧ F.Delimited server

/-- The URL names the server, in plain or, when it names none in plain, in base64. -/
def Foundation.Names (F : Foundation) (url : NSURL) (server : ServerText) : Prop :=
  ∃ host, url.host = some host ∧
    (F.NamedBy (some url.absoluteString) server ∨
      (∀ other, ¬ F.NamedBy (some url.absoluteString) other) ∧
        F.NamedBy (F.decodedHost host) server)

/-- The family of contexts that goes with a method. -/
def cipherFamily (method : Method) : CipherFamily :=
  if method = encryptionTable then .table
  else if IsSodium method then .sodium
  else .openssl

/-- Upper and lower case are the same in the name of a method. -/
def NamesMethod (name : Text) (method : Method) : Prop :=
  strcaseEq (String.ofList name) (shadowsocksEncryptionNames method) = true

instance (name : Text) (method : Method) : Decidable (NamesMethod name method) :=
  inferInstanceAs (Decidable (_ = _))

/-- What runs is the server of the text, keyed and encrypting as the text says. -/
structure LocalConfig.Runs (r' r : LocalConfig S) (text : ServerText) : Prop where
  server : r'.server = text.ip
  remote_port : r'.remotePort = text.port
  password : r'.password = text.password
  keyed : r'.globals = configEncryption r.globals (utf8 text.password) (String.ofList text.method)
  method : ∃ m, NamesMethod text.method m ∧ r'.globals.method = m ∧
    r'.globals.cipher = cipherFamily m ∧
    (cipherFamily m = .openssl → ∃ c, S.evpGetCipherbyname (evpName m) = some c ∧
      r'.globals.evpCipher = some c)

/-- One of the names of encrypt.c, for which the library has its cipher. -/
def OpenSSL.Knows (S : OpenSSL) (name : Text) : Prop :=
  ∃ m, NamesMethod name m ∧
    (cipherFamily m = .openssl → (S.evpGetCipherbyname (evpName m)).isSome)

/-- The result of `openSSURL` says what has become of the settings and of what runs. -/
def Foundation.Faithful (F : Foundation) (url : NSURL) (d : Defaults) (r : LocalConfig S) : Prop :=
  (∀ d' r', F.openSSURL url d r = (d', .ok (true, r')) →
    ∃ server, F.Names url server ∧ r'.Runs r server) ∧
  (∀ d' r', F.openSSURL url d r = (d', .ok (false, r')) → d' = d ∧ r' = r)

theorem Foundation.parse_eq_ok_iff_namedBy {text : Option Text} :
    F.parse text = .ok server ↔ F.NamedBy text server := by
  cases text with
  | none => simp [parse, NamedBy]
  | some text => simp [parse_eq_ok_iff, NamedBy]

theorem Foundation.names_iff {host : Text} (hhost : url.host = some host) :
    F.Names url server ↔ F.server url host = .ok server := by
  simp only [Names, hhost, Option.some.injEq, exists_eq_left', Foundation.server]
  cases hparse : F.parse (some url.absoluteString) with
  | ok found =>
    have hfound := parse_eq_ok_iff_namedBy.mp hparse
    simp only [← parse_eq_ok_iff_namedBy, hparse]
    constructor
    · rintro (h | h)
      · exact h
      · exact absurd rfl (h.1 found)
    · exact Or.inl
  | error reason =>
    simp only [← parse_eq_ok_iff_namedBy, hparse]
    constructor
    · rintro (h | ⟨-, h⟩)
      · cases h
      · exact h
    · intro h
      exact Or.inr ⟨fun _ h => (nomatch h), h⟩

theorem Foundation.Names.unique {other : ServerText} (h : F.Names url server)
    (h' : F.Names url other) : server = other := by
  obtain ⟨host, hhost, -⟩ := id h
  have hserver := (names_iff hhost).mp h
  rw [(names_iff hhost).mp h'] at hserver
  exact (Except.ok.inj hserver).symm

/-- The four ways through `openSSURL`. -/
theorem Foundation.openSSURL_cases (F : Foundation) (url : NSURL) (d : Defaults)
    (r : LocalConfig S) :
    ((∀ server, ¬ F.Names url server) ∧ F.openSSURL url d r = (d, .ok (false, r))) ∨
    ∃ server, F.Names url server ∧
      F.openSSURL url d r = (d.storeServer server,
        if server.Saveable then .ok (true, r.set server) else .error .assertion) := by
  cases hhost : url.host with
  | none =>
    left
    refine ⟨?_, by simp [openSSURL, hhost]⟩
    rintro server ⟨host, hsome, -⟩
    rw [hhost] at hsome
    cases hsome
  | some host =>
    simp only [names_iff hhost]
    cases hserver : F.server url host with
    | error reason =>
      left
      exact ⟨fun _ h => (nomatch h), by simp [openSSURL, hhost, hserver]⟩
    | ok server =>
      right
      refine ⟨server, rfl, ?_⟩
      simp only [openSSURL, hhost, hserver, reloadConfig_storeServer]
      split <;> rfl

theorem Foundation.openSSURL_of_names (h : F.Names url server) (d : Defaults)
    (r : LocalConfig S) : F.openSSURL url d r = (d.storeServer server,
      if server.Saveable then .ok (true, r.set server) else .error .assertion) := by
  obtain ⟨hnone, -⟩ | ⟨found, hfound, hopen⟩ := F.openSSURL_cases url d r
  · exact absurd h (hnone server)
  · rwa [h.unique hfound]

theorem cString_eq_self {text : Text} : cString text = text ↔ '\x00' ∉ text := by
  rw [cString, List.takeWhile_eq_self_iff]
  constructor
  · intro h hmem
    simpa using h _ hmem
  · intro h c hc
    have hne : c ≠ '\x00' := fun he => h (he ▸ hc)
    simpa using hne

/-- None of the names contains a zero byte. -/
theorem NamesMethod.nul_notMem {name : Text} {m : Method} (h : NamesMethod name m) :
    '\x00' ∉ name := by
  have hnames : ∀ m : Method, '\x00' ∉ (shadowsocksEncryptionNames m).toList.map Char.toLower := by
    decide
  intro hmem
  apply hnames m
  have hchars : name.map Char.toLower = (shadowsocksEncryptionNames m).toList.map Char.toLower := by
    simpa [NamesMethod, strcaseEq] using h
  rw [← hchars]
  exact List.mem_map.mpr ⟨_, hmem, rfl⟩

/-- No two of the names are the same up to case. -/
theorem NamesMethod.unique {name : Text} {m m' : Method} (h : NamesMethod name m)
    (h' : NamesMethod name m') : m = m' := by
  have hnames : ∀ m m' : Method, (shadowsocksEncryptionNames m).toList.map Char.toLower =
      (shadowsocksEncryptionNames m').toList.map Char.toLower → m = m' := by
    decide +kernel
  simp only [NamesMethod, strcaseEq, beq_iff_eq] at h h'
  exact hnames m m' (h.symm.trans h')

theorem NamesMethod.encryptionMethodFromString {name : Text} {m : Method}
    (h : NamesMethod name m) : encryptionMethodFromString (String.ofList name) = m := by
  rw [Shadowsocks.encryptionMethodFromString]
  cases hfind : (List.finRange 13).find? fun i =>
      strcaseEq (String.ofList name) (shadowsocksEncryptionNames i) with
  | none =>
    have hnone := List.find?_eq_none.mp hfind m (List.mem_finRange m)
    exact absurd h hnone
  | some found =>
    have hfound := List.find?_some hfind
    exact NamesMethod.unique hfound h

theorem configEncryption_cipher (g : Globals S) (password : Bytes) (name : String) :
    (configEncryption g password name).cipher =
      cipherFamily (encryptionMethodFromString name) := by
  simp only [configEncryption, cipherFamily]
  generalize encryptionMethodFromString name = m
  split
  · rfl
  · split
    · rfl
    · split <;> rfl

theorem configEncryption_evpCipher (g : Globals S) (password : Bytes) (name : String)
    (h : cipherFamily (encryptionMethodFromString name) = .openssl) :
    (configEncryption g password name).evpCipher =
      S.evpGetCipherbyname (evpName (encryptionMethodFromString name)) := by
  simp only [configEncryption]
  simp only [cipherFamily] at h
  generalize encryptionMethodFromString name = m at h ⊢
  split
  · simp_all
  · split
    · simp_all
    · split
      · rename_i hnone
        exact hnone.symm
      · rename_i hsome
        exact hsome.symm

/-- What `set_config` has set runs the server when its method is known and no zero byte cuts a
string off. -/
theorem LocalConfig.runs_set_iff : (r.set server).Runs r server ↔
    S.Knows server.method ∧
      '\x00' ∉ server.ip ∧ '\x00' ∉ server.port ∧ '\x00' ∉ server.password := by
  constructor
  · intro h
    obtain ⟨m, hm, -, -, hcipher⟩ := h.method
    refine ⟨⟨m, hm, ?_⟩, cString_eq_self.mp h.server, cString_eq_self.mp h.remote_port,
      cString_eq_self.mp h.password⟩
    intro hfamily
    obtain ⟨c, hc, -⟩ := hcipher hfamily
    rw [hc]
    rfl
  · rintro ⟨⟨m, hm, hknown⟩, hip, hport, hpassword⟩
    have hmethod := cString_eq_self.mpr hm.nul_notMem
    have hkeyed : (r.set server).globals = configEncryption r.globals (utf8 server.password)
        (String.ofList server.method) := by
      rw [LocalConfig.set, cString_eq_self.mpr hpassword, hmethod]
    refine ⟨cString_eq_self.mpr hip, cString_eq_self.mpr hport, cString_eq_self.mpr hpassword,
      hkeyed, m, hm, ?_, ?_, ?_⟩
    · rw [hkeyed, configEncryption_method, hm.encryptionMethodFromString]
    · rw [hkeyed, configEncryption_cipher, hm.encryptionMethodFromString]
    · intro hfamily
      obtain ⟨c, hc⟩ := Option.isSome_iff_exists.mp (hknown hfamily)
      refine ⟨c, hc, ?_⟩
      rw [hkeyed, configEncryption_evpCipher _ _ _ (by rwa [hm.encryptionMethodFromString]),
        hm.encryptionMethodFromString, hc]

/-- Accepting is faithful exactly when a named server that fits has a known method and strings
without zero bytes. -/
theorem Foundation.faithful_iff (F : Foundation) (url : NSURL) (d : Defaults)
    (r : LocalConfig S) :
    F.Faithful url d r ↔ ∀ server, F.Names url server → server.Saveable →
      S.Knows server.method ∧
        '\x00' ∉ server.ip ∧ '\x00' ∉ server.port ∧ '\x00' ∉ server.password := by
  obtain ⟨hnone, hopen⟩ | ⟨server, hnames, hopen⟩ := F.openSSURL_cases url d r
  · constructor
    · intro _ server hserver
      exact absurd hserver (hnone server)
    · intro _
      rw [Faithful, hopen]
      refine ⟨fun _ _ h => (nomatch h), ?_⟩
      intro d' r' h
      cases h
      exact ⟨rfl, rfl⟩
  · have hothers : (∀ other, F.Names url other → other.Saveable →
        S.Knows other.method ∧
          '\x00' ∉ other.ip ∧ '\x00' ∉ other.port ∧ '\x00' ∉ other.password) ↔
        (server.Saveable → (r.set server).Runs r server) := by
      rw [LocalConfig.runs_set_iff]
      constructor
      · exact fun h => h server hnames
      · intro h other hother
        rw [← hnames.unique hother]
        exact h
    rw [hothers, Faithful, hopen]
    by_cases hsaveable : server.Saveable
    · rw [if_pos hsaveable]
      constructor
      · intro h _
        obtain ⟨other, hother, hruns⟩ := h.1 _ _ rfl
        rwa [← hnames.unique hother] at hruns
      · intro h
        refine ⟨?_, fun _ _ h => (nomatch h)⟩
        intro d' r' heq
        cases heq
        exact ⟨server, hnames, h hsaveable⟩
    · rw [if_neg hsaveable]
      constructor
      · exact fun _ h => absurd h hsaveable
      · exact fun _ => ⟨fun _ _ h => (nomatch h), fun _ _ h => (nomatch h)⟩

/-- A method that the settings screen offers is accepted, and the table cipher runs. -/
theorem Foundation.not_faithful_camellia :
    ¬ Foundation.reference.Faithful
      ⟨"ss://camellia-128-cfb:secret@10.0.0.1:8388".toList, some "10.0.0.1".toList⟩
      .empty (.zeroed Reference.openssl) := by
  have hnames : Foundation.reference.Names
      ⟨"ss://camellia-128-cfb:secret@10.0.0.1:8388".toList, some "10.0.0.1".toList⟩
      ⟨"camellia-128-cfb".toList, "secret".toList, "10.0.0.1".toList, "8388".toList⟩ :=
    ⟨_, rfl, Or.inl ⟨_, rfl, by decide, by decide, by decide, by decide⟩⟩
  have hopen := openSSURL_of_names hnames .empty (.zeroed Reference.openssl)
  rw [if_pos (by decide +kernel)] at hopen
  intro h
  obtain ⟨other, hother, hruns⟩ := h.1 _ _ hopen
  rw [← hnames.unique hother] at hruns
  obtain ⟨m, hm, -⟩ := hruns.method
  have hunknown : ∀ m : Method, ¬ NamesMethod "camellia-128-cfb".toList m := by decide +kernel
  exact hunknown m hm

end Shadowsocks
