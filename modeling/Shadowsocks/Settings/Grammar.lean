import Shadowsocks.Settings.Accepting

/-!
The grammar of the texts that `openSSURL` accepts. A separator that another character combines
with is not one for a search, and is part of the text around it.
-/
namespace Shadowsocks

open Search

variable {F : Foundation} {S : OpenSSL} {url : NSURL} {text : Text} {server : ServerText}
  {d : Defaults} {r : LocalConfig S} {c x : Char} {a b : Text}

/-- A search finds `c` in the text. -/
def Foundation.Finds (F : Foundation) (c : Char) (text : Text) : Prop :=
  ∃ before after, text = before ++ c :: after ∧ after.head?.any F.combining = false

/-- `m:p@h:q` with separators that a search finds, no ':' in m, no '@' in h, and neither in q. -/
structure Foundation.Grammar (F : Foundation) (server : ServerText) : Prop where
  password_head : server.password.head?.any F.combining = false
  ip_head : server.ip.head?.any F.combining = false
  port_head : server.port.head?.any F.combining = false
  method : ¬ F.Finds ':' server.method
  ip : ¬ F.Finds '@' server.ip
  port_at : ¬ F.Finds '@' server.port
  port_colon : ¬ F.Finds ':' server.port

/-- Without its scheme the candidate is the text of the server. -/
def Foundation.Written (F : Foundation) (text : Text) (server : ServerText) : Prop :=
  F.dropScheme text = server.text ∧ F.Grammar server

/-- The first candidate that is written in the grammar: the URL itself, or else what its host
stands for in base64. -/
def Foundation.Writes (F : Foundation) (url : NSURL) (server : ServerText) : Prop :=
  ∃ host, url.host = some host ∧
    (F.Written url.absoluteString server ∨ (∀ other, ¬ F.Written url.absoluteString other) ∧
      ∃ text, F.decodedHost host = some text ∧ F.Written text server)

theorem Foundation.finds_iff_startsWith :
    F.Finds c text ↔ ∃ i < text.length, F.startsWith c (text.drop i) = true := by
  constructor
  · rintro ⟨before, after, rfl, hafter⟩
    refine ⟨before.length, ?_, ?_⟩
    · rw [List.length_append, List.length_cons]
      omega
    · rw [List.drop_left]
      exact startsWith_iff.mpr ⟨after, rfl, hafter⟩
  · rintro ⟨i, -, hi⟩
    obtain ⟨after, hdrop, hafter⟩ := startsWith_iff.mp hi
    refine ⟨text.take i, after, ?_, hafter⟩
    rw [← hdrop, List.take_append_drop]

theorem Foundation.not_finds_nil : ¬ F.Finds c [] := by
  rintro ⟨before, after, htext, -⟩
  cases before <;> cases htext

theorem Foundation.finds_cons : F.Finds c (x :: text) ↔
    x = c ∧ text.head?.any F.combining = false ∨ F.Finds c text := by
  constructor
  · rintro ⟨before, after, htext, hafter⟩
    cases before with
    | nil =>
      cases htext
      exact Or.inl ⟨rfl, hafter⟩
    | cons y before =>
      cases htext
      exact Or.inr ⟨before, after, rfl, hafter⟩
  · rintro (⟨rfl, hhead⟩ | ⟨before, after, rfl, hafter⟩)
    · exact ⟨[], text, rfl, hhead⟩
    · exact ⟨x :: before, after, rfl, hafter⟩

theorem head_append (hx : F.combining x = false) :
    (a ++ x :: b).head?.any F.combining = a.head?.any F.combining := by
  cases a with
  | nil => exact hx
  | cons y a => rfl

/-- A character that does not combine leaves what is before it as it is. -/
theorem Foundation.finds_append (hx : F.combining x = false) :
    F.Finds c (a ++ x :: b) ↔ F.Finds c a ∨ F.Finds c (x :: b) := by
  induction a with
  | nil => exact ⟨Or.inr, fun h => h.resolve_left not_finds_nil⟩
  | cons y a ih => rw [List.cons_append, finds_cons, finds_cons, head_append hx, ih, or_assoc]

theorem Foundation.startsWith_append (hx : F.combining x = false) (ha : a ≠ []) :
    F.startsWith c (a ++ x :: b) = F.startsWith c a := by
  cases a with
  | nil => exact absurd rfl ha
  | cons y a => rw [List.cons_append, startsWith, startsWith, head_append hx]

theorem Foundation.startsWith_cons_self :
    F.startsWith c (c :: b) = true ↔ b.head?.any F.combining = false := by
  rw [startsWith_iff]
  constructor
  · rintro ⟨rest, hrest, hhead⟩
    cases hrest
    exact hhead
  · exact fun h => ⟨b, rfl, h⟩

/-- The first `c` is the one after `a` when a search finds it and none before. -/
theorem Foundation.rangeOfString_append (hc : F.combining c = false) :
    F.rangeOfString (a ++ c :: b) c = some a.length ↔
      b.head?.any F.combining = false ∧ ¬ F.Finds c a := by
  have hhere : F.startsWith c ((a ++ c :: b).drop a.length) = true ↔
      b.head?.any F.combining = false := by
    rw [List.drop_left, startsWith_cons_self]
  have hbefore : (∀ j < a.length, F.startsWith c ((a ++ c :: b).drop j) = false) ↔
      ¬ F.Finds c a := by
    rw [finds_iff_startsWith]
    constructor
    · rintro h ⟨j, hj, hstarts⟩
      have hnone := h j hj
      rw [List.drop_append_of_le_length (Nat.le_of_lt hj), startsWith_append hc, hstarts] at hnone
      · cases hnone
      · exact List.ne_nil_of_length_pos (by rw [List.length_drop]; omega)
    · intro h j hj
      rw [List.drop_append_of_le_length (Nat.le_of_lt hj), startsWith_append hc]
      · exact Bool.eq_false_iff.mpr fun hstarts => h ⟨j, hj, hstarts⟩
      · exact List.ne_nil_of_length_pos (by rw [List.length_drop]; omega)
  have hlength : a.length < (a ++ c :: b).length := by
    rw [List.length_append, List.length_cons]
    omega
  rw [rangeOfString, firstIndex_eq_some_iff, hhere, hbefore]
  exact ⟨And.right, fun h => ⟨hlength, h⟩⟩

theorem Foundation.rangeOfStringBackwards_append :
    F.rangeOfStringBackwards (a ++ c :: b) c = some a.length ↔
      b.head?.any F.combining = false ∧ ¬ F.Finds c b := by
  have hhere : F.startsWith c ((a ++ c :: b).drop a.length) = true ↔
      b.head?.any F.combining = false := by
    rw [List.drop_left, startsWith_cons_self]
  have hdrop : ∀ i, (a ++ c :: b).drop (a.length + 1 + i) = b.drop i := by
    intro i
    rw [Nat.add_assoc, ← List.drop_drop, List.drop_left, Nat.add_comm, List.drop_succ_cons]
  have hlength : (a ++ c :: b).length = a.length + 1 + b.length := by
    rw [List.length_append, List.length_cons]
    omega
  have hafter : (∀ j, a.length < j → j < (a ++ c :: b).length →
      F.startsWith c ((a ++ c :: b).drop j) = false) ↔ ¬ F.Finds c b := by
    rw [finds_iff_startsWith]
    constructor
    · rintro h ⟨i, hi, hstarts⟩
      have hnone := h (a.length + 1 + i) (by omega) (by omega)
      rw [hdrop, hstarts] at hnone
      cases hnone
    · intro h j hj hj'
      obtain ⟨i, rfl⟩ := Nat.exists_eq_add_of_le (Nat.succ_le_of_lt hj)
      rw [hdrop]
      exact Bool.eq_false_iff.mpr fun hstarts => h ⟨i, by omega, hstarts⟩
  rw [rangeOfStringBackwards, lastIndex_eq_some_iff, hhere, hafter]
  exact ⟨And.right, fun h => ⟨by omega, h⟩⟩

/-- The position test is the grammar. -/
theorem Foundation.delimited_iff_grammar (hF : F.Lawful) (server : ServerText) :
    F.Delimited server ↔ F.Grammar server := by
  have hcolon : F.combining ':' = false := hF.combining_ascii ':' (by decide)
  have hat : F.combining '@' = false := hF.combining_ascii '@' (by decide)
  obtain ⟨method, password, ip, port⟩ := server
  have hfirst : F.rangeOfString (ServerText.text ⟨method, password, ip, port⟩) ':' =
      some method.length ↔
        password.head?.any F.combining = false ∧ ¬ F.Finds ':' method := by
    rw [ServerText.text, rangeOfString_append hcolon, head_append hat]
  have hlastAt : F.rangeOfStringBackwards (ServerText.text ⟨method, password, ip, port⟩) '@' =
      some (method.length + 1 + password.length) ↔ ip.head?.any F.combining = false ∧
        ¬ F.Finds '@' ip ∧ ¬ F.Finds '@' port := by
    have htext : ServerText.text ⟨method, password, ip, port⟩ =
        (method ++ ':' :: password) ++ '@' :: (ip ++ ':' :: port) := by
      simp only [ServerText.text, List.append_assoc, List.cons_append]
    have hlength : method.length + 1 + password.length = (method ++ ':' :: password).length := by
      rw [List.length_append, List.length_cons]
      omega
    have hne : ':' ≠ '@' := by decide
    rw [htext, hlength, rangeOfStringBackwards_append, head_append hcolon,
      finds_append hcolon, finds_cons, not_or, not_or]
    simp only [hne, false_and, not_false_eq_true, true_and]
  have hlastColon : F.rangeOfStringBackwards (ServerText.text ⟨method, password, ip, port⟩) ':' =
      some (method.length + 1 + password.length + 1 + ip.length) ↔
        port.head?.any F.combining = false ∧ ¬ F.Finds ':' port := by
    have htext : ServerText.text ⟨method, password, ip, port⟩ =
        (method ++ ':' :: (password ++ '@' :: ip)) ++ ':' :: port := by
      simp only [ServerText.text, List.append_assoc, List.cons_append]
    have hlength : method.length + 1 + password.length + 1 + ip.length =
        (method ++ ':' :: (password ++ '@' :: ip)).length := by
      simp only [List.length_append, List.length_cons]
      omega
    rw [htext, hlength, rangeOfStringBackwards_append]
  constructor
  · intro h
    obtain ⟨hpassword, hmethod⟩ := hfirst.mp h.first_colon
    obtain ⟨hip, hipAt, hportAt⟩ := hlastAt.mp h.last_at
    obtain ⟨hport, hportColon⟩ := hlastColon.mp h.last_colon
    exact ⟨hpassword, hip, hport, hmethod, hipAt, hportAt, hportColon⟩
  · intro h
    exact ⟨hfirst.mpr ⟨h.password_head, h.method⟩,
      hlastAt.mpr ⟨h.ip_head, h.ip, h.port_at⟩, hlastColon.mpr ⟨h.port_head, h.port_colon⟩⟩

/-- The grammar leaves one way to take a text apart. -/
theorem Foundation.Written.unique (hF : F.Lawful) {other : ServerText} (h : F.Written text server)
    (h' : F.Written text other) : server = other := by
  have hparse := parse_eq_ok_iff.mpr ⟨h.1, (delimited_iff_grammar hF server).mpr h.2⟩
  rw [parse_eq_ok_iff.mpr ⟨h'.1, (delimited_iff_grammar hF other).mpr h'.2⟩] at hparse
  exact (Except.ok.inj hparse).symm

theorem Foundation.written_iff (hF : F.Lawful) :
    F.NamedBy (some text) server ↔ F.Written text server := by
  simp only [NamedBy, Option.some.injEq, exists_eq_left', delimited_iff_grammar hF, Written]

theorem Foundation.writes_iff (hF : F.Lawful) : F.Names url server ↔ F.Writes url server := by
  have hdecoded : ∀ host, F.NamedBy (F.decodedHost host) server ↔
      ∃ text, F.decodedHost host = some text ∧ F.Written text server := by
    intro host
    cases F.decodedHost host with
    | none =>
      constructor
      · rintro ⟨text, htext, -⟩
        cases htext
      · rintro ⟨text, htext, -⟩
        cases htext
    | some text =>
      rw [written_iff hF]
      constructor
      · exact fun h => ⟨text, rfl, h⟩
      · rintro ⟨text', htext', h⟩
        cases htext'
        exact h
  simp only [Names, Writes, written_iff hF, hdecoded]

/-- What `openSSURL` does is decided by the grammar: it stores the server that is written, and
says so if it fits, or it says NO and writes nothing; and no text is written in two ways. -/
theorem Foundation.openSSURL_grammar (hF : F.Lawful) (url : NSURL) (d : Defaults)
    (r : LocalConfig S) :
    (∀ server, F.Writes url server → (F.openSSURL url d r).1 = d.storeServer server ∧
      (server.Saveable → ∃ r', F.openSSURL url d r = (d.storeServer server, .ok (true, r')))) ∧
    ((∀ server, ¬ F.Writes url server) → F.openSSURL url d r = (d, .ok (false, r))) ∧
    ∀ text server other, F.Written text server → F.Written text other → server = other := by
  refine ⟨?_, ?_, fun _ _ _ h h' => h.unique hF h'⟩
  · intro server hwrites
    have hopen := openSSURL_of_names ((writes_iff hF).mpr hwrites) d r
    rw [hopen]
    refine ⟨rfl, ?_⟩
    intro hsaveable
    rw [if_pos hsaveable]
    exact ⟨_, rfl⟩
  · intro hnone
    obtain ⟨-, hopen⟩ | ⟨server, hnames, -⟩ := F.openSSURL_cases url d r
    · exact hopen
    · exact absurd ((writes_iff hF).mp hnames) (hnone server)

/-- An ordinary URL. -/
theorem Foundation.openSSURL_grammar_ordinary : Foundation.reference.Lawful ∧
    (∀ server, Foundation.reference.Writes ⟨"ss://a:b@c:1".toList, some "c".toList⟩ server →
      (Foundation.reference.openSSURL ⟨"ss://a:b@c:1".toList, some "c".toList⟩ .empty
        (.zeroed Reference.openssl)).1 = Defaults.empty.storeServer server ∧
      (server.Saveable → ∃ r', Foundation.reference.openSSURL
        ⟨"ss://a:b@c:1".toList, some "c".toList⟩ .empty (.zeroed Reference.openssl) =
          (Defaults.empty.storeServer server, .ok (true, r')))) ∧
    ((∀ server, ¬ Foundation.reference.Writes ⟨"ss://a:b@c:1".toList, some "c".toList⟩ server) →
      Foundation.reference.openSSURL ⟨"ss://a:b@c:1".toList, some "c".toList⟩ .empty
        (.zeroed Reference.openssl) =
          (Defaults.empty, .ok (false, .zeroed Reference.openssl))) ∧
    ∀ text server other, Foundation.reference.Written text server →
      Foundation.reference.Written text other → server = other :=
  ⟨lawful_reference, openSSURL_grammar lawful_reference _ _ _⟩

/-- Every ':' and every '@' counts. -/
structure ServerText.Plain (server : ServerText) : Prop where
  method : ':' ∉ server.method
  ip : '@' ∉ server.ip
  port_at : '@' ∉ server.port
  port_colon : ':' ∉ server.port

/-- For a URL with a host the answer is YES exactly when a candidate is written with every
separator counted. -/
def Foundation.AcceptsPlain (F : Foundation) (url : NSURL) (d : Defaults) (r : LocalConfig S) :
    Prop :=
  ∀ host, url.host = some host →
    ((∃ d' r', F.openSSURL url d r = (d', .ok (true, r'))) ↔
      ∃ (text : Text) (server : ServerText), (text = url.absoluteString ∨ F.decodedHost host = some text) ∧
        (if "ss://".toList <+: text then text.drop 5 else text) = server.text ∧ server.Plain)

/-- The last ':' is followed by an accent, and no search finds it. -/
def accented : Text := "table:secret@h:".toList ++ [Char.ofNat 0x301, '1']

/-- The URL that stands for this text in base64. -/
def accentedURL : NSURL :=
  ⟨"ss://".toList ++ base64Encoding (utf8 accented), some (base64Encoding (utf8 accented))⟩

theorem Foundation.not_acceptsPlain_accented :
    ¬ Foundation.reference.AcceptsPlain accentedURL .empty (.zeroed Reference.openssl) := by
  intro h
  have hdecoded : Foundation.reference.decodedHost (base64Encoding (utf8 accented)) =
      some accented := by
    rw [decodedHost, lawful_reference.decode_encode, Option.bind_some, stringWithData_utf8]
  have hplain := (h _ rfl).mpr ⟨accented, ⟨"table".toList, "secret".toList, "h".toList,
    [Char.ofNat 0x301, '1']⟩, Or.inr hdecoded, by decide +kernel, by decide +kernel,
    by decide +kernel, by decide +kernel, by decide +kernel⟩
  have hserver : Foundation.reference.server accentedURL (base64Encoding (utf8 accented)) =
      .error "only one colon" := by
    decide +kernel
  obtain ⟨d', r', hopen⟩ := hplain
  have hno : Foundation.reference.openSSURL accentedURL .empty (.zeroed Reference.openssl) =
      (.empty, .ok (false, .zeroed Reference.openssl)) := by
    have hhost : accentedURL.host = some (base64Encoding (utf8 accented)) := rfl
    simp only [openSSURL, hhost, hserver]
  rw [hno] at hopen
  cases hopen

end Shadowsocks
