import Shadowsocks.Settings.Runner

/-! Which texts `openSSURL` takes apart, and into which four parts. -/
namespace Shadowsocks

open Search

/-- `method:password@ip:port` -/
def ServerText.text (server : ServerText) : Text :=
  server.method ++ ':' :: (server.password ++ '@' :: (server.ip ++ ':' :: server.port))

/-- The separators are the ones that the searches find. -/
structure Foundation.Delimited (F : Foundation) (server : ServerText) : Prop where
  first_colon : F.rangeOfString server.text ':' = some server.method.length
  last_at : F.rangeOfStringBackwards server.text '@' =
    some (server.method.length + 1 + server.password.length)
  last_colon : F.rangeOfStringBackwards server.text ':' =
    some (server.method.length + 1 + server.password.length + 1 + server.ip.length)

variable {F : Foundation} {text : Text} {server : ServerText}

theorem Foundation.startsWith_iff {c : Char} : F.startsWith c text = true ↔
    ∃ rest, text = c :: rest ∧ rest.head?.any F.combining = false := by
  cases text with
  | nil => simp [startsWith]
  | cons x rest => simp [startsWith]

theorem substring_middle (before middle after : Text) :
    substring (before ++ middle ++ after) before.length middle.length = middle := by
  simp [substring]

/-- What is left of a text from a place at which a separator is found. -/
theorem drop_eq_cons {c : Char} {i : Nat} (h : F.startsWith c (text.drop i) = true) :
    text.drop i = c :: text.drop (i + 1) := by
  obtain ⟨rest, hrest, -⟩ := Foundation.startsWith_iff.mp h
  rw [hrest, ← List.tail_drop, hrest, List.tail_cons]

theorem drop_eq_substring {i j : Nat} (h : i < j) :
    text.drop (i + 1) = substring text (i + 1) (j - i - 1) ++ text.drop j := by
  have hj : i + 1 + (j - i - 1) = j := by omega
  calc text.drop (i + 1)
      = (text.drop (i + 1)).take (j - i - 1) ++ (text.drop (i + 1)).drop (j - i - 1) :=
        (List.take_append_drop ..).symm
    _ = substring text (i + 1) (j - i - 1) ++ text.drop j := by rw [List.drop_drop, hj, substring]

/-- The parts between the three separators make up the text. -/
theorem eq_parts {i j k : Nat} (hij : i < j) (hjk : j < k)
    (hi : F.startsWith ':' (text.drop i) = true) (hj : F.startsWith '@' (text.drop j) = true)
    (hk : F.startsWith ':' (text.drop k) = true) :
    text = substring text 0 i ++ ':' :: (substring text (i + 1) (j - i - 1) ++ '@' ::
      (substring text (j + 1) (k - j - 1) ++ ':' ::
        substring text (k + 1) (text.length - k - 1))) := by
  have hlast : substring text (k + 1) (text.length - k - 1) = text.drop (k + 1) := by
    apply List.take_of_length_le
    rw [List.length_drop]
    omega
  calc text = substring text 0 i ++ text.drop i := (List.take_append_drop i text).symm
    _ = _ := by
      rw [drop_eq_cons hi, drop_eq_substring hij, drop_eq_cons hj, drop_eq_substring hjk,
        drop_eq_cons hk, hlast]

theorem length_substring {i n : Nat} (h : i + n ≤ text.length) :
    (substring text i n).length = n := by
  rw [substring, List.length_take, List.length_drop]
  omega

/-- The three places that the searches find are in this order. -/
theorem Foundation.places_of_parse (h : F.parse (some text) = .ok server) :
    ∃ i j k, F.rangeOfString (F.dropScheme text) ':' = some i ∧
      F.rangeOfStringBackwards (F.dropScheme text) '@' = some j ∧
      F.rangeOfStringBackwards (F.dropScheme text) ':' = some k ∧ i < j ∧ j < k ∧
      server = ⟨substring (F.dropScheme text) 0 i,
        substring (F.dropScheme text) (i + 1) (j - i - 1),
        substring (F.dropScheme text) (j + 1) (k - j - 1),
        substring (F.dropScheme text) (k + 1) ((F.dropScheme text).length - k - 1)⟩ := by
  simp only [parse] at h
  generalize F.dropScheme text = u at h ⊢
  cases hfirst : F.rangeOfString u ':' with
  | none => simp [hfirst] at h
  | some i =>
    cases hlast : F.rangeOfStringBackwards u ':' with
    | none => simp [hfirst, hlast] at h
    | some k =>
      cases hat : F.rangeOfStringBackwards u '@' with
      | none =>
        simp only [hfirst, hlast, hat] at h
        split at h <;> cases h
      | some j =>
        simp only [hfirst, hlast, hat] at h
        split at h
        · cases h
        · split at h
          · cases h
          · rename_i hne hpos
            obtain ⟨hij, hjk⟩ := not_not.mp hpos
            cases h
            exact ⟨i, j, k, rfl, rfl, rfl, hij, hjk, rfl⟩

theorem Foundation.delimited_of_parse (h : F.parse (some text) = .ok server) :
    F.dropScheme text = server.text ∧ F.Delimited server := by
  obtain ⟨i, j, k, hfirst, hat, hlast, hij, hjk, rfl⟩ := places_of_parse h
  generalize F.dropScheme text = u at hfirst hat hlast ⊢
  have hk := lastIndex_eq_some_iff.mp hlast
  have hu := eq_parts hij hjk (firstIndex_eq_some_iff.mp hfirst).2.1
    (lastIndex_eq_some_iff.mp hat).2.1 hk.2.1
  have hmethod : (substring u 0 i).length = i := length_substring (by omega)
  have hpassword : (substring u (i + 1) (j - i - 1)).length = j - i - 1 :=
    length_substring (by omega)
  have hip : (substring u (j + 1) (k - j - 1)).length = k - j - 1 :=
    length_substring (by omega)
  refine ⟨hu, ?_, ?_, ?_⟩
  · rw [ServerText.text, ← hu, hfirst, hmethod]
  · rw [ServerText.text, ← hu, hat, hmethod, hpassword]
    congr 1
    omega
  · rw [ServerText.text, ← hu, hlast, hmethod, hpassword, hip]
    congr 1
    omega

theorem Foundation.parse_of_delimited (htext : F.dropScheme text = server.text)
    (hdelimited : F.Delimited server) : F.parse (some text) = .ok server := by
  have hlength : server.text.length = server.method.length + 1 + server.password.length + 1 +
      server.ip.length + 1 + server.port.length := by
    simp only [ServerText.text, List.length_append, List.length_cons]
    omega
  have hmethod : substring server.text 0 server.method.length = server.method :=
    substring_middle [] server.method (':' :: _)
  have hpassword : substring server.text (server.method.length + 1) server.password.length =
      server.password := by
    have := substring_middle (server.method ++ [':']) server.password
      ('@' :: (server.ip ++ ':' :: server.port))
    simpa [ServerText.text] using this
  have hip : substring server.text (server.method.length + 1 + server.password.length + 1)
      server.ip.length = server.ip := by
    have := substring_middle (server.method ++ ':' :: server.password ++ ['@']) server.ip
      (':' :: server.port)
    simpa [ServerText.text, Nat.add_assoc, Nat.add_comm, Nat.add_left_comm] using this
  have hport : substring server.text (server.method.length + 1 + server.password.length + 1 +
      server.ip.length + 1) server.port.length = server.port := by
    have := substring_middle (server.method ++ ':' :: server.password ++ '@' ::
      (server.ip ++ [':'])) server.port []
    simpa [ServerText.text, Nat.add_assoc, Nat.add_comm, Nat.add_left_comm] using this
  simp only [parse, htext, hdelimited.first_colon, hdelimited.last_colon, hdelimited.last_at]
  rw [if_neg (by omega), if_neg (by omega)]
  have hpasswordLength : server.method.length + 1 + server.password.length -
      server.method.length - 1 = server.password.length := by omega
  have hipLength : server.method.length + 1 + server.password.length + 1 + server.ip.length -
      (server.method.length + 1 + server.password.length) - 1 = server.ip.length := by omega
  have hportLength : server.text.length - (server.method.length + 1 + server.password.length +
      1 + server.ip.length) - 1 = server.port.length := by omega
  rw [hpasswordLength, hipLength, hportLength, hmethod, hpassword, hip, hport]

theorem Foundation.parse_eq_ok_iff :
    F.parse (some text) = .ok server ↔ F.dropScheme text = server.text ∧ F.Delimited server :=
  ⟨delimited_of_parse, fun h => parse_of_delimited h.1 h.2⟩

end Shadowsocks
