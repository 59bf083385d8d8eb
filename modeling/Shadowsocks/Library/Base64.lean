import Mathlib.Data.List.Basic

/-! Base64 with the standard alphabet and padding. -/
namespace Base64

def alphabet : List Char :=
  "ABCDEFGHIJKLMNOPQRSTUVWXYZabcdefghijklmnopqrstuvwxyz0123456789+/".toList

/-- The character for six bits. -/
def digit (v : Nat) : Char := alphabet.getD v '='

def value (c : Char) : Option Nat := alphabet.idxOf? c

/-- Three bytes, six bits at a time. -/
def sextets (a b c : UInt8) : List Nat :=
  [a.toNat / 4, a.toNat % 4 * 16 + b.toNat / 16, b.toNat % 16 * 4 + c.toNat / 64, c.toNat % 64]

def encode : List UInt8 → List Char
  | [] => []
  | [a] => ((sextets a 0 0).take 2).map digit ++ ['=', '=']
  | [a, b] => ((sextets a b 0).take 3).map digit ++ ['=']
  | a :: b :: c :: rest => (sextets a b c).map digit ++ encode rest

/-- The six-bit groups of the bytes, the last one filled up with zeros. -/
def sixBits : List UInt8 → List Nat
  | [] => []
  | [a] => (sextets a 0 0).take 2
  | [a, b] => (sextets a b 0).take 3
  | a :: b :: c :: rest => sextets a b c ++ sixBits rest

def bytesOf (a b c d : Nat) : List UInt8 :=
  [UInt8.ofNat (a * 4 + b / 16), UInt8.ofNat (b % 16 * 16 + c / 4), UInt8.ofNat (c % 4 * 64 + d)]

/-- Only whole quanta are accepted, and padding only at the end. -/
def decode : List Char → Option (List UInt8)
  | [] => some []
  | p :: q :: r :: s :: rest => do
    let a ← value p
    let b ← value q
    if rest = [] ∧ s = '=' then
      if r = '=' then pure ((bytesOf a b 0 0).take 1)
      else do
        let c ← value r
        pure ((bytesOf a b c 0).take 2)
    else do
      let c ← value r
      let d ← value s
      let bytes ← decode rest
      pure (bytesOf a b c d ++ bytes)
  | _ => none

theorem value_digit {v : Nat} (h : v < 64) : value (digit v) = some v := by
  have hall : ∀ v : Fin 64, value (digit v) = some v.val := by decide +kernel
  exact hall ⟨v, h⟩

theorem digit_mem {v : Nat} (h : v < 64) : digit v ∈ alphabet := by
  have hall : ∀ v : Fin 64, digit v ∈ alphabet := by decide +kernel
  exact hall ⟨v, h⟩

theorem digit_ne_pad {v : Nat} (h : v < 64) : digit v ≠ '=' := by
  intro he
  have hmem := digit_mem h
  rw [he] at hmem
  exact absurd hmem (by decide)

theorem sextets_lt {a b c : UInt8} {v : Nat} (h : v ∈ sextets a b c) : v < 64 := by
  have ha := a.toNat_lt
  have hb := b.toNat_lt
  have hc := c.toNat_lt
  simp only [sextets, List.mem_cons, List.not_mem_nil, or_false] at h
  omega

theorem bytesOf_sextets (a b c : UInt8) : bytesOf (a.toNat / 4) (a.toNat % 4 * 16 + b.toNat / 16)
    (b.toNat % 16 * 4 + c.toNat / 64) (c.toNat % 64) = [a, b, c] := by
  have hb := b.toNat_lt
  have hc := c.toNat_lt
  have ha : a.toNat / 4 * 4 + (a.toNat % 4 * 16 + b.toNat / 16) / 16 = a.toNat := by omega
  have hb : (a.toNat % 4 * 16 + b.toNat / 16) % 16 * 16 +
      (b.toNat % 16 * 4 + c.toNat / 64) / 4 = b.toNat := by omega
  have hc : (b.toNat % 16 * 4 + c.toNat / 64) % 4 * 64 + c.toNat % 64 = c.toNat := by omega
  simp only [bytesOf, ha, hb, hc, UInt8.ofNat_toNat]

theorem decode_encode (bytes : List UInt8) : decode (encode bytes) = some bytes := by
  induction bytes using encode.induct with
  | case1 => rfl
  | case2 a =>
    have hlt := fun v => sextets_lt (v := v) (a := a) (b := 0) (c := 0)
    have hbytes := bytesOf_sextets a 0 0
    simp only [sextets, List.mem_cons, forall_eq_or_imp] at hlt
    simp only [UInt8.toNat_zero, Nat.zero_mod, Nat.zero_div, Nat.zero_mul, Nat.add_zero]
      at hlt hbytes
    simp [encode, sextets, decode, value_digit, hlt.1, hlt.2.1, hbytes]
  | case3 a b =>
    have hlt := fun v => sextets_lt (v := v) (a := a) (b := b) (c := 0)
    have hbytes := bytesOf_sextets a b 0
    simp only [sextets, List.mem_cons, forall_eq_or_imp] at hlt
    simp only [UInt8.toNat_zero, Nat.zero_mod, Nat.zero_div, Nat.add_zero] at hlt hbytes
    simp [encode, sextets, decode, value_digit, hlt.1, hlt.2.1, hlt.2.2.1, digit_ne_pad, hbytes]
  | case4 a b c rest ih =>
    have hlt := fun v => sextets_lt (v := v) (a := a) (b := b) (c := c)
    simp only [sextets, List.mem_cons, forall_eq_or_imp] at hlt
    simp [encode, sextets, decode, value_digit, hlt.1, hlt.2.1, hlt.2.2.1, hlt.2.2.2.1,
      digit_ne_pad, bytesOf_sextets, ih]

/-- Four characters make at most three bytes. -/
theorem length_decode {text : List Char} {bytes : List UInt8} (h : decode text = some bytes) :
    4 * bytes.length ≤ 3 * text.length := by
  induction text using decode.induct generalizing bytes with
  | case1 =>
    cases h
    simp
  | case2 p q r s rest ih =>
    simp only [decode, Option.pure_def, Option.bind_eq_bind, Option.bind_eq_some_iff] at h
    obtain ⟨a, -, b, -, h⟩ := h
    simp only [List.length_cons]
    split at h
    · split at h
      · cases h
        simp only [bytesOf, List.length_take, List.length_cons, List.length_nil]
        omega
      · obtain ⟨c, -, h⟩ := Option.bind_eq_some_iff.mp h
        cases h
        simp only [bytesOf, List.length_take, List.length_cons, List.length_nil]
        omega
    · simp only [Option.bind_eq_some_iff] at h
      obtain ⟨c, -, d, -, bytes', hrest, h⟩ := h
      cases h
      have := ih hrest
      simp only [bytesOf, List.length_append, List.length_cons, List.length_nil]
      omega
  | case3 text hnil hquad =>
    unfold decode at h
    split at h
    · exact absurd rfl hnil
    · exact absurd rfl (hquad _ _ _ _ _)
    · cases h

/-- No other characters than those of the alphabet and the padding. -/
theorem mem_encode {bytes : List UInt8} {c : Char} (h : c ∈ encode bytes) :
    c ∈ alphabet ∨ c = '=' := by
  induction bytes using encode.induct with
  | case1 => cases h
  | case2 a =>
    rcases List.mem_append.mp h with h | h
    · obtain ⟨v, hv, rfl⟩ := List.mem_map.mp h
      exact Or.inl (digit_mem (sextets_lt (List.mem_of_mem_take hv)))
    · right
      simpa using h
  | case3 a b =>
    rcases List.mem_append.mp h with h | h
    · obtain ⟨v, hv, rfl⟩ := List.mem_map.mp h
      exact Or.inl (digit_mem (sextets_lt (List.mem_of_mem_take hv)))
    · right
      simpa using h
  | case4 a b c' rest ih =>
    rcases List.mem_append.mp h with h | h
    · obtain ⟨v, hv, rfl⟩ := List.mem_map.mp h
      exact Or.inl (digit_mem (sextets_lt hv))
    · exact ih h

theorem mem_encode_iff {bytes : List UInt8} {c : Char} (hc : c ≠ '=') :
    c ∈ encode bytes ↔ ∃ v ∈ sixBits bytes, digit v = c := by
  induction bytes using encode.induct with
  | case1 => simp [encode, sixBits]
  | case2 a => simp only [encode, sixBits, List.mem_append, List.mem_map, List.mem_cons, hc,
      List.not_mem_nil, or_self, or_false]
  | case3 a b => simp only [encode, sixBits, List.mem_append, List.mem_map, List.mem_cons, hc,
      List.not_mem_nil, or_self, or_false]
  | case4 a b c' rest ih =>
    simp only [encode, sixBits, List.mem_append, List.mem_map, ih, or_and_right, exists_or]

theorem sixBits_lt {bytes : List UInt8} {v : Nat} (h : v ∈ sixBits bytes) : v < 64 := by
  induction bytes using sixBits.induct with
  | case1 => cases h
  | case2 a => exact sextets_lt (List.mem_of_mem_take h)
  | case3 a b => exact sextets_lt (List.mem_of_mem_take h)
  | case4 a b c rest ih =>
    rcases List.mem_append.mp h with h | h
    · exact sextets_lt h
    · exact ih h

/-- The last character of the alphabet stands for six bits that are all set. -/
theorem slash_mem_encode {bytes : List UInt8} : '/' ∈ encode bytes ↔ 63 ∈ sixBits bytes := by
  have hlast : ∀ v : Fin 64, digit v = '/' → v = 63 := by decide +kernel
  rw [mem_encode_iff (by decide)]
  constructor
  · rintro ⟨v, hv, hslash⟩
    have h63 := hlast ⟨v, sixBits_lt hv⟩ hslash
    have : v = 63 := congrArg Fin.val h63
    exact this ▸ hv
  · intro h
    exact ⟨63, h, by decide⟩

theorem length_takeWhile_append {c : Char} (l r : List Char) :
    ((l ++ r).takeWhile (· ≠ c)).length < l.length ∨
      c ∉ l ∧ ((l ++ r).takeWhile (· ≠ c)).length = l.length + (r.takeWhile (· ≠ c)).length := by
  by_cases hc : c ∈ l
  · left
    obtain ⟨a, b, rfl, ha⟩ := List.eq_append_cons_of_mem hc
    have hpass : ∀ x ∈ a, (decide (x ≠ c)) = true := by
      intro x hx
      have hne : x ≠ c := fun he => ha (he ▸ hx)
      simpa using hne
    rw [List.append_assoc, List.takeWhile_append_of_pos hpass]
    simp
  · refine Or.inr ⟨hc, ?_⟩
    have hpass : ∀ x ∈ l, (decide (x ≠ c)) = true := by
      intro x hx
      have hne : x ≠ c := fun he => hc (he ▸ hx)
      simpa using hne
    rw [List.takeWhile_append_of_pos hpass, List.length_append]

/-- What stands before a character of the alphabet cannot stand for all the bytes. -/
theorem length_takeWhile_encode {bytes : List UInt8} {c : Char} (hc : c ≠ '=')
    (h : c ∈ encode bytes) :
    3 * ((encode bytes).takeWhile (· ≠ c)).length < 4 * bytes.length := by
  induction bytes using encode.induct with
  | case1 => cases h
  | case2 a =>
    have hdigits : (((sextets a 0 0).take 2).map digit).length = 2 := rfl
    rw [encode] at h ⊢
    rcases length_takeWhile_append (c := c) (((sextets a 0 0).take 2).map digit) ['=', '=']
      with hlt | ⟨hnot, -⟩
    · simp only [List.length_singleton]
      omega
    · rcases List.mem_append.mp h with h | h
      · exact absurd h hnot
      · simp [hc] at h
  | case3 a b =>
    have hdigits : (((sextets a b 0).take 3).map digit).length = 3 := rfl
    rw [encode] at h ⊢
    rcases length_takeWhile_append (c := c) (((sextets a b 0).take 3).map digit) ['=']
      with hlt | ⟨hnot, -⟩
    · simp only [List.length_cons, List.length_nil]
      omega
    · rcases List.mem_append.mp h with h | h
      · exact absurd h hnot
      · simp [hc] at h
  | case4 a b c' rest ih =>
    have hdigits : ((sextets a b c').map digit).length = 4 := rfl
    rw [encode] at h ⊢
    simp only [List.length_cons]
    rcases length_takeWhile_append (c := c) ((sextets a b c').map digit) (encode rest)
      with hlt | ⟨hnot, hlen⟩
    · omega
    · have := ih ((List.mem_append.mp h).resolve_left hnot)
      omega

end Base64
