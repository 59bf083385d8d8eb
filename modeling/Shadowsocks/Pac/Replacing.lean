import Shadowsocks.Library.Replace
import Shadowsocks.Pac.Literal

/-! What replacing a part of a text does to the literals in the text. -/
namespace Shadowsocks

open Replace

variable {F : Foundation} {needle new a b y v : Text} {c : Char}

/-- `rangeOfString:` finds the needle at the start of the text. -/
def Foundation.found (F : Foundation) (needle text : Text) : Bool :=
  needle.isPrefixOf text && !(text.drop needle.length).head?.any F.combining

/-- `stringByReplacingOccurrencesOfString:withString:` -/
def Foundation.replacing (F : Foundation) (needle new text : Text) : Text :=
  replaceAll (F.found needle) needle.length new text

/-- The needle occurs in the text. -/
def Foundation.Contains (F : Foundation) (text needle : Text) : Prop :=
  Occurs (F.found needle) text

/-- A piece of an address: digits, full stops and colons. -/
structure Address (needle : Text) : Prop where
  length : 4 < needle.length
  chars : ∀ c ∈ needle, c ∈ "0123456789.:".toList

theorem Foundation.found_iff : F.found needle a = true ↔
    ∃ rest, a = needle ++ rest ∧ rest.head?.any F.combining = false := by
  rw [found, Bool.and_eq_true, List.isPrefixOf_iff_prefix, Bool.not_eq_true']
  constructor
  · rintro ⟨⟨rest, rfl⟩, hrest⟩
    rw [List.drop_left] at hrest
    exact ⟨rest, rfl, hrest⟩
  · rintro ⟨rest, rfl, hrest⟩
    rw [List.drop_left]
    exact ⟨⟨rest, rfl⟩, hrest⟩

theorem Foundation.length_le_of_found (h : F.found needle a = true) :
    needle.length ≤ a.length := by
  obtain ⟨rest, rfl, -⟩ := found_iff.mp h
  rw [List.length_append]
  exact Nat.le_add_right _ _

/-- A character that is not part of the needle separates. -/
theorem Foundation.found_separator (hc : c ∉ needle) (hcombining : F.combining c = false)
    (ha : a ≠ []) : F.found needle (a ++ c :: b) = F.found needle a := by
  rw [Bool.eq_iff_iff, found_iff, found_iff]
  constructor
  · rintro ⟨rest, hrest, hapart⟩
    rcases List.append_eq_append_iff.mp hrest with ⟨t, ht, hb⟩ | ⟨t, rfl, ht⟩
    · cases t with
      | nil =>
        rw [List.append_nil] at ht
        exact ⟨[], by rw [ht, List.append_nil], rfl⟩
      | cons x t =>
        cases hb
        exact absurd (by rw [ht]; simp) hc
    · refine ⟨t, rfl, ?_⟩
      cases t with
      | nil => rfl
      | cons x t =>
        rw [ht] at hapart
        exact hapart
  · rintro ⟨rest, rfl, hapart⟩
    refine ⟨rest ++ c :: b, by rw [List.append_assoc], ?_⟩
    cases rest with
    | nil => exact hcombining
    | cons x rest => exact hapart

theorem Foundation.replacing_separator (hlen : 0 < needle.length) (hc : c ∉ needle)
    (hcombining : F.combining c = false) :
    F.replacing needle new (a ++ c :: b) =
      F.replacing needle new a ++ c :: F.replacing needle new b := by
  have hmiss : F.found needle (c :: b) = false := by
    rw [Bool.eq_false_iff]
    intro hfound
    obtain ⟨rest, hrest, -⟩ := found_iff.mp hfound
    cases needle with
    | nil => exact absurd hlen (Nat.lt_irrefl 0)
    | cons x needle =>
      cases hrest
      exact hc List.mem_cons_self
  rw [replacing, replaceAll_append hlen fun _ => length_le_of_found, replaceAll_miss hmiss]
  · rfl
  · intro s u _ hu
    exact found_separator hc hcombining hu

/-- Text of characters that separate. -/
theorem Foundation.replacing_frame (hlen : 0 < needle.length) {frame : Text}
    (hframe : ∀ c ∈ frame, c ∉ needle ∧ F.combining c = false) :
    F.replacing needle new (frame ++ b) = frame ++ F.replacing needle new b := by
  induction frame with
  | nil => rfl
  | cons c frame ih =>
    rw [List.forall_mem_cons] at hframe
    have hc : F.replacing needle new (c :: (frame ++ b)) =
        c :: F.replacing needle new (frame ++ b) :=
      replacing_separator (a := []) hlen hframe.1.1 hframe.1.2
    rw [List.cons_append, hc, ih hframe.2, List.cons_append]

theorem Foundation.replacing_append_frame (hlen : 0 < needle.length) {frame : Text}
    (hne : frame ≠ []) (hframe : ∀ c ∈ frame, c ∉ needle ∧ F.combining c = false) :
    F.replacing needle new (a ++ (frame ++ b)) =
      F.replacing needle new a ++ (frame ++ F.replacing needle new b) := by
  cases frame with
  | nil => exact absurd rfl hne
  | cons c frame =>
    rw [List.forall_mem_cons] at hframe
    rw [List.cons_append, replacing_separator hlen hframe.1.1 hframe.1.2,
      replacing_frame hlen hframe.2, List.cons_append]

theorem Foundation.replacing_eq_self (h : ¬ F.Contains a needle) :
    F.replacing needle new a = a := replaceAll_eq_self h

theorem Foundation.within_of_contains (h : F.Contains a needle) : needle <:+: a := by
  obtain ⟨s, u, rfl, -, hfound⟩ := h
  obtain ⟨rest, rfl, -⟩ := found_iff.mp hfound
  exact ⟨s, rest, by rw [List.append_assoc]⟩

/-- Nothing is found where the first character of the needle is missing. -/
theorem Foundation.replacing_append_needle (ha : c ∉ a) :
    F.replacing (c :: needle) new (a ++ (c :: needle)) = a ++ new := by
  have hfound : F.found (c :: needle) (c :: needle) = true :=
    found_iff.mpr ⟨[], by rw [List.append_nil], rfl⟩
  have hmiss : ∀ s u, a = s ++ u → u ≠ [] → F.found (c :: needle) (u ++ (c :: needle)) = false := by
    intro s u hs hu
    rw [Bool.eq_false_iff]
    intro hfound
    obtain ⟨rest, hrest, -⟩ := found_iff.mp hfound
    cases u with
    | nil => exact hu rfl
    | cons x u =>
      obtain ⟨rfl, -⟩ := List.cons_eq_cons.mp hrest
      exact ha (by rw [hs]; simp)
  have hlen : 0 < (c :: needle).length := Nat.succ_pos needle.length
  rw [replacing, replaceAll_append_of_miss hmiss, replaceAll_hit hlen hfound, List.drop_length,
    replaceAll_nil, List.append_nil]

/-- A text that is the needle. -/
theorem Foundation.replacing_self (hlen : 0 < needle.length) :
    F.replacing needle new needle = new := by
  cases needle with
  | nil => exact absurd hlen (Nat.lt_irrefl 0)
  | cons c needle => exact replacing_append_needle (a := []) List.not_mem_nil

theorem Address.unescaped (h : Address needle) : ∀ c ∈ needle, Unescaped c := by
  have hall : ∀ c ∈ "0123456789.:".toList, Unescaped c := forall_of_all (by decide +kernel)
  exact fun c hc => hall c (h.chars c hc)

/-- No escape that is written has a character of an address behind its backslash. -/
theorem Address.closed_true (h : Address needle) (hc : c ∈ needle) :
    closed true (c :: y) = false := by
  have hall : ∀ c ∈ "0123456789.:".toList,
      c ∉ ['"', '\\', '/', 'b', 'f', 'n', 'r', 't', 'u'] := forall_of_all (by decide +kernel)
  simp only [closed, Bool.and_eq_false_iff, decide_eq_false_iff_not]
  exact Or.inl (hall c (h.chars c hc))

/-- A digit of an address has no second spelling. -/
theorem Address.hexValue_inj (h : Address needle) (hc : c ∈ needle) {x : Char} {d : Nat}
    (hd : hexValue c = some d) (hx : hexValue x = some d) : x = c := by
  have hall : ∀ c ∈ "0123456789.:".toList, c.toNat ≤ 58 := forall_of_all (by decide +kernel)
  have hle := hall c (h.chars c hc)
  have hcs := Reading.hexValue_cases hd
  have hxs := Reading.hexValue_cases hx
  apply Char.toNat_inj.mp
  omega

theorem Foundation.found_closed {pending : Bool} (hn : Address needle)
    (hfound : F.found needle y = true) (hy : closed pending y = true) : pending = false := by
  obtain ⟨rest, rfl, -⟩ := found_iff.mp hfound
  cases pending with
  | false => rfl
  | true =>
    cases needle with
    | nil => exact absurd hn.length (by decide)
    | cons c needle =>
      rw [List.cons_append, hn.closed_true List.mem_cons_self] at hy
      cases hy

/-- Plain text in the place of an address neither ends a literal nor changes its weight. -/
theorem Foundation.closed_replacing (hn : Address needle) (hnew : ∀ c ∈ new, Unescaped c)
    (y : Text) : ∀ pending, closed pending y = true →
      closed pending (F.replacing needle new y) = true ∧
      weight pending (F.replacing needle new y) = weight pending y := by
  refine replaceAll_induction (P := fun y z => ∀ pending, closed pending y = true →
    closed pending z = true ∧ weight pending z = weight pending y)
    (Nat.zero_lt_of_lt hn.length) ?_ ?_ ?_ y
  · exact fun pending hy => ⟨hy, rfl⟩
  · intro y z _ hfound ih pending hy
    obtain rfl := found_closed hn hfound hy
    obtain ⟨rest, rfl, -⟩ := found_iff.mp hfound
    rw [List.drop_left] at ih
    obtain ⟨hclosed, hweight⟩ := closed_append (t := rest) hn.unescaped
    obtain ⟨hclosed', hweight'⟩ := closed_append (t := z) hnew
    rw [hclosed] at hy
    obtain ⟨hz, hwz⟩ := ih false hy
    exact ⟨hclosed'.trans hz, by rw [hweight', hwz, hweight]⟩
  · intro c y z _ ih pending hy
    cases pending with
    | false =>
      simp only [closed, Bool.and_eq_true] at hy ⊢
      obtain ⟨hz, hwz⟩ := ih _ hy.2
      exact ⟨⟨hy.1, hz⟩, hwz⟩
    | true =>
      simp only [closed, Bool.and_eq_true] at hy ⊢
      obtain ⟨hz, hwz⟩ := ih _ hy.2
      exact ⟨⟨hy.1, hz⟩, by rw [weight, weight, hwz]⟩

theorem ofCodePoint_inj {n m : Nat} {x : Char} (hn : ofCodePoint n = some x)
    (hm : ofCodePoint m = some x) : n = m := by
  have htoNat : ∀ {n : Nat}, ofCodePoint n = some x → x.toNat = n := by
    intro n h
    rw [ofCodePoint] at h
    split at h
    · rename_i hvalid
      cases h
      rw [Char.ofNat, dif_pos hvalid]
      rfl
    · cases h
  rw [← htoNat hn, htoNat hm]

/-- Two plain texts of one length where the reader reads the same. -/
theorem Reading.decode_plain_inj (ha : ∀ c ∈ a, Unescaped c) (hb : ∀ c ∈ b, Unescaped c)
    (hlength : b.length = a.length) {s t : Text} (h : plain.decode (a ++ s) = some v)
    (h' : plain.decode (b ++ t) = some v) : b = a := by
  rw [decode_plain_append ha] at h
  rw [decode_plain_append hb] at h'
  obtain ⟨s', -, rfl⟩ := Option.map_eq_some_iff.mp h
  obtain ⟨t', -, heq⟩ := Option.map_eq_some_iff.mp h'
  exact (List.append_inj heq hlength).1

/-- The same inside a hexadecimal escape, when the first text is part of an address. -/
theorem Reading.decode_hex_inj (hn : Address needle) (ha : ∀ c ∈ a, c ∈ needle)
    (hb : ∀ c ∈ b, Unescaped c) (hlength : b.length = a.length) {n m more : Nat}
    (hmore : more < a.length) {s t : Text} (h : (hex n more).decode (a ++ s) = some v)
    (h' : (hex m more).decode (b ++ t) = some v) : n = m ∧ b = a := by
  induction a generalizing b n m more with
  | nil => exact absurd hmore (Nat.not_lt_zero more)
  | cons c a ih =>
    cases b with
    | nil => cases hlength
    | cons x b =>
      rw [List.forall_mem_cons] at ha hb
      rw [List.length_cons, List.length_cons] at hlength
      obtain ⟨out, r, w, hstep, hrest, rfl⟩ := decode_eq_some h
      obtain ⟨out', r', w', hstep', hrest', heq⟩ := decode_eq_some h'
      cases more with
      | zero =>
        obtain ⟨d, hd, hlast⟩ := Option.bind_eq_some_iff.mp hstep
        obtain ⟨d', hd', hlast'⟩ := Option.bind_eq_some_iff.mp hstep'
        obtain ⟨y, hy, hout⟩ := Option.map_eq_some_iff.mp hlast
        obtain ⟨y', hy', hout'⟩ := Option.map_eq_some_iff.mp hlast'
        cases hout
        cases hout'
        obtain ⟨rfl, rfl⟩ := List.cons_eq_cons.mp heq
        have hcode := ofCodePoint_inj hy hy'
        have hds := hexValue_cases hd
        have hds' := hexValue_cases hd'
        have hdd : d = d' ∧ n = m := by omega
        obtain ⟨rfl, rfl⟩ := hdd
        have hba := decode_plain_inj (fun c hc => hn.unescaped c (ha.2 c hc)) hb.2
          (Nat.succ_injective hlength) hrest hrest'
        rw [hn.hexValue_inj ha.1 hd hd', hba]
        exact ⟨rfl, rfl⟩
      | succ more =>
        obtain ⟨d, hd, hout⟩ := Option.map_eq_some_iff.mp hstep
        obtain ⟨d', hd', hout'⟩ := Option.map_eq_some_iff.mp hstep'
        cases hout
        cases hout'
        rw [List.length_cons] at hmore
        have hds := hexValue_cases hd
        have hds' := hexValue_cases hd'
        obtain rfl : w = w' := heq
        obtain ⟨hcode, rfl⟩ := ih ha.2 hb.2 (Nat.succ_injective hlength)
          (Nat.lt_of_succ_lt_succ hmore) hrest hrest'
        have hdd : d = d' ∧ n = m := by omega
        obtain ⟨rfl, rfl⟩ := hdd
        rw [hn.hexValue_inj ha.1 hd hd']
        exact ⟨rfl, rfl⟩

theorem Reading.more_step {r r' : Reading} {out : Option Char} (h : r.step c = some (out, r'))
    (hmore : r.more ≤ 3) : r'.more ≤ 3 := by
  rcases step_cases h with ⟨-, -, -, rfl⟩ | ⟨-, -, -, -, rfl⟩ | ⟨-, -, -, rfl⟩ | ⟨-, -, -, rfl⟩ |
    ⟨-, -, -, -, -, rfl⟩ | ⟨-, -, -, -, x, -, -, rfl⟩ | ⟨n, d, x, -, -, -, -, rfl⟩ |
    ⟨n, more, d, rfl, -, -, rfl⟩
  · exact Nat.zero_le 3
  · exact Nat.zero_le 3
  · exact Nat.le_refl 3
  · decide
  · exact Nat.zero_le 3
  · exact Nat.zero_le 3
  · exact Nat.zero_le 3
  · exact Nat.le_of_succ_le hmore

theorem closed_cons {pending : Bool} (h : closed pending (c :: y) = true) :
    closed (!pending && c == '\\') y = true := by
  cases pending with
  | false =>
    rw [closed, Bool.and_eq_true] at h
    exact h.2
  | true =>
    rw [closed, Bool.and_eq_true] at h
    exact h.2

/-- A literal that keeps its value when text of the same length comes in keeps its text. -/
theorem Foundation.eq_of_decode (hn : Address needle) (hnew : ∀ c ∈ new, Unescaped c)
    (hlength : new.length = needle.length) {r : Reading} (hmore : r.more ≤ 3)
    (hy : closed r.pending y = true) (h : r.decode y = some v)
    (h' : r.decode (F.replacing needle new y) = some v) :
    new = needle ∨ ¬ F.Contains y needle := by
  induction y generalizing r v with
  | nil => exact Or.inr not_occurs_nil
  | cons c y ih =>
    cases hfound : F.found needle (c :: y) with
    | true =>
      left
      have hpending := found_closed hn hfound hy
      obtain ⟨rest, hrest, -⟩ := found_iff.mp hfound
      rw [replacing, replaceAll_hit (Nat.zero_lt_of_lt hn.length) hfound, hrest] at h'
      rw [hrest] at h
      cases r with
      | plain => exact Reading.decode_plain_inj hn.unescaped hnew hlength h h'
      | escaped => cases hpending
      | hex n more =>
        have hlt : more < needle.length := Nat.lt_of_le_of_lt hmore (by
          have := hn.length
          omega)
        exact (Reading.decode_hex_inj hn (fun c hc => hc) hnew hlength hlt h h').2
    | false =>
      rw [replacing, replaceAll_miss hfound] at h'
      obtain ⟨out, r', w, hstep, hrest, rfl⟩ := Reading.decode_eq_some h
      obtain ⟨out', r'', w', hstep', hrest', heq⟩ := Reading.decode_eq_some h'
      rw [hstep] at hstep'
      cases hstep'
      obtain rfl : w = w' := List.append_cancel_left heq
      have hclosed := closed_cons hy
      rw [← (Reading.step_length hstep).1] at hclosed
      rcases ih (Reading.more_step hstep hmore) hclosed hrest hrest' with hnew | hno
      · exact Or.inl hnew
      · right
        intro hcontains
        rcases occurs_cons_iff.mp hcontains with hhit | hoccurs
        · rw [hfound] at hhit
          cases hhit
        · exact hno hoccurs

theorem Foundation.replacing_same (hlen : 0 < needle.length) (y : Text) :
    F.replacing needle needle y = y := by
  refine replaceAll_induction (P := fun y z => z = y) hlen rfl ?_ ?_ y
  · rintro y z - hfound rfl
    obtain ⟨rest, rfl, -⟩ := found_iff.mp hfound
    rw [List.drop_left]
  · rintro c y z - rfl
    rfl

/-- A written string keeps its value exactly when nothing in it is replaced by anything else. -/
theorem Foundation.decode_replacing_iff (hn : Address needle) (hnew : ∀ c ∈ new, Unescaped c)
    {s : Text} (hs : ∀ c ∈ s, c ≠ '\u2028' ∧ c ≠ '\u2029') :
    decode (F.replacing needle new (escape s)) = some s ↔
      new = needle ∨ ¬ F.Contains (escape s) needle := by
  have hself := Reading.decode_escape hs
  constructor
  · intro h
    by_cases hcontains : F.Contains (escape s) needle
    · obtain ⟨-, hweight⟩ := closed_replacing (F := F) hn hnew _ false (closed_escape s)
      have hlength := Reading.decode_length hself
      have hlength' := Reading.decode_length h
      have hsame : (F.replacing needle new (escape s)).length = (escape s).length := by
        simp only [Reading.pending, hweight] at hlength hlength'
        omega
      have hnew' := length_new (Nat.zero_lt_of_lt hn.length) (fun _ => length_le_of_found)
        hcontains hsame
      exact eq_of_decode (r := .plain) hn hnew hnew' (Nat.zero_le 3) (closed_escape s) hself h
    · exact Or.inr hcontains
  · rintro (rfl | hno)
    · rw [replacing_same (Nat.zero_lt_of_lt hn.length)]
      exact hself
    · rw [replacing_eq_self hno]
      exact hself

end Shadowsocks
