import Mathlib.Data.List.Infix
import Shadowsocks.Pac.Keywords
import Shadowsocks.Pac.Rendering

/-!
An address that the expression of a rule matches has every candidate for the rule's keyword as a
word of its own.
-/
namespace Shadowsocks

variable {E : Engine} {ic : Bool} {s t p q v src url : JsString} {k : JsString} {c x : Nat}

/-- The text of a rule fits the start of an address. -/
inductive Engine.Fits (E : Engine) (ic : Bool) : JsString → JsString → Prop
  | nil (s : JsString) : Fits E ic [] s
  | star {p s t : JsString} : Fits E ic p t → t <:+ s → Fits E ic (42 :: p) s
  | separator {c : Nat} {p s : JsString} :
      isSeparator c = true → Fits E ic p s → Fits E ic (94 :: p) (c :: s)
  | ending {p : JsString} : Fits E ic p [] → Fits E ic (94 :: p) []
  /-- A bar at the end is the end of the address. -/
  | finish : Fits E ic [124] []
  /-- A bar behind a separator is no end. -/
  | behind {s : JsString} : Fits E ic [94] s → Fits E ic [94, 124] s
  | unit {c x : Nat} {p s : JsString} : c ≠ 42 → c ≠ 94 → E.same ic c x = true →
      Fits E ic p s → Fits E ic (c :: p) (x :: s)

theorem suffix_of_mem_skips (h : t ∈ skips s) : t <:+ s := by
  induction s with
  | nil =>
    obtain rfl := List.mem_singleton.mp h
    exact List.suffix_refl _
  | cons x s ih =>
    rcases List.mem_cons.mp h with rfl | h
    · exact List.suffix_refl _
    · split at h
      · exact absurd h List.not_mem_nil
      · exact (ih h).trans (List.suffix_cons x s)

theorem Engine.fits_of_matchAtoms {finish : Bool}
    (h : E.matchAtoms ic finish (p.map atomOf) s = true)
    (hq : ∀ t, (finish = true → t = []) → E.Fits ic q t) : E.Fits ic (p ++ q) s := by
  induction p generalizing s with
  | nil =>
    apply hq
    rintro rfl
    simpa [matchAtoms] using h
  | cons c p ih =>
    by_cases hstar : c = 42
    · subst hstar
      change (skips s).any (fun t => E.matchAtoms ic finish (p.map atomOf) t) = true at h
      obtain ⟨t, ht, hmatch⟩ := List.any_eq_true.mp h
      exact .star (ih hmatch) (suffix_of_mem_skips ht)
    · by_cases hcaret : c = 94
      · subst hcaret
        cases s with
        | nil => exact .ending (ih h)
        | cons x s =>
          change (isSeparator x && E.matchAtoms ic finish (p.map atomOf) s) = true at h
          rw [Bool.and_eq_true] at h
          exact .separator h.1 (ih h.2)
      · have hatom : atomOf c = .unit c := (if_neg hstar).trans (if_neg hcaret)
        rw [List.map_cons, hatom] at h
        cases s with
        | nil => cases h
        | cons x s =>
          change (E.same ic c x && E.matchAtoms ic finish (p.map atomOf) s) = true at h
          rw [Bool.and_eq_true] at h
          exact .unit hstar hcaret h.1 (ih h.2)

/-- A bar behind a separator can be added. -/
theorem Engine.fits_behind (h : E.Fits ic (p ++ [94]) s) : E.Fits ic (p ++ [94, 124]) s := by
  generalize hp : p ++ [94] = r at h
  induction h generalizing p with
  | nil => exact absurd hp (by simp)
  | star h hsuffix ih =>
    cases p with
    | nil => cases hp
    | cons c p =>
      cases hp
      exact .star (ih rfl) hsuffix
  | separator hc h ih =>
    cases p with
    | nil =>
      cases hp
      exact .behind (.separator hc h)
    | cons c p =>
      cases hp
      exact .separator hc (ih rfl)
  | ending h ih =>
    cases p with
    | nil =>
      cases hp
      exact .behind (.ending h)
    | cons c p =>
      cases hp
      exact .ending (ih rfl)
  | finish =>
    cases p with
    | nil => cases hp
    | cons c p => exact absurd hp (by simp)
  | behind h ih =>
    cases p with
    | nil => cases hp
    | cons c p =>
      cases p with
      | nil => cases hp
      | cons d p => exact absurd hp (by simp)
  | unit hstar hcaret hsame h ih =>
    cases p with
    | nil =>
      cases hp
      exact absurd rfl hcaret
    | cons c p =>
      cases hp
      exact .unit hstar hcaret hsame (ih rfl)

theorem collapseStars_cons (c : Nat) (t : JsString) :
    collapseStars (c :: t) = collapseStars t ∧ c = 42 ∧ (∃ t', t = 42 :: t') ∨
      collapseStars (c :: t) = c :: collapseStars t := by
  rw [collapseStars]
  split
  · rename_i h
    obtain ⟨t', ht⟩ : ∃ t', t = 42 :: t' := by
      cases t with
      | nil => cases h.2
      | cons d t =>
        obtain rfl : d = 42 := Option.some.inj h.2
        exact ⟨t, rfl⟩
    exact Or.inl ⟨rfl, h.1, t', ht⟩
  · exact Or.inr rfl

theorem collapseStars_star (t : JsString) : ∃ t', collapseStars (42 :: t) = 42 :: t' := by
  induction t with
  | nil => exact ⟨[], rfl⟩
  | cons d t ih =>
    rcases collapseStars_cons 42 (d :: t) with ⟨heq, -, t', ht⟩ | heq
    · rw [heq]
      cases ht
      exact ih
    · exact ⟨_, heq⟩

theorem head?_collapseStars (src : JsString) : (collapseStars src).head? = src.head? := by
  cases src with
  | nil => rfl
  | cons d src =>
    rcases collapseStars_cons d src with ⟨heq, rfl, src', rfl⟩ | heq
    · obtain ⟨t', ht'⟩ := collapseStars_star src'
      rw [heq, ht']
      rfl
    · rw [heq]
      rfl

/-- What is no star stays where it is. -/
theorem eq_cons_of_collapseStars (h : collapseStars src = c :: t) (hc : c ≠ 42) :
    ∃ t', src = c :: t' ∧ collapseStars t' = t := by
  have hhead := head?_collapseStars src
  rw [h] at hhead
  obtain ⟨src', rfl⟩ := List.head?_eq_some_iff.mp hhead.symm
  rcases collapseStars_cons c src' with ⟨-, heq, -⟩ | heq
  · exact absurd heq hc
  · rw [heq] at h
    exact ⟨src', rfl, List.tail_eq_of_cons_eq h⟩

theorem eq_nil_of_collapseStars (h : collapseStars src = []) : src = [] := by
  have hhead := head?_collapseStars src
  rw [h] at hhead
  exact List.head?_eq_none_iff.mp hhead.symm

/-- Several stars fit where one does. -/
theorem Engine.fits_of_collapseStars (h : E.Fits ic (collapseStars p) s) : E.Fits ic p s := by
  induction p generalizing s with
  | nil => exact .nil s
  | cons c p ih =>
    rcases collapseStars_cons c p with ⟨heq, rfl, -⟩ | heq
    · rw [heq] at h
      exact .star (ih h) (List.suffix_refl s)
    · rw [heq] at h
      generalize hr : c :: collapseStars p = r at h
      cases h with
      | nil => cases hr
      | star h hsuffix =>
        cases hr
        exact .star (ih h) hsuffix
      | separator hc h =>
        cases hr
        exact .separator hc (ih h)
      | ending h =>
        cases hr
        exact .ending (ih h)
      | finish =>
        obtain ⟨rfl, hnil⟩ := List.cons_eq_cons.mp hr
        rw [eq_nil_of_collapseStars hnil]
        exact .finish
      | behind h =>
        obtain ⟨rfl, hbar⟩ := List.cons_eq_cons.mp hr
        obtain ⟨p', rfl, hnil⟩ := eq_cons_of_collapseStars hbar (by decide)
        rw [eq_nil_of_collapseStars hnil]
        exact .behind h
      | unit hstar hcaret hsame h =>
        cases hr
        exact .unit hstar hcaret hsame (ih h)

/-- Where the part of a rule behind its anchor can start in an address. -/
def Anchor.Starts (anchor : Anchor) (url s : JsString) : Prop :=
  match anchor with
  | .free => s <:+ url
  | .start => s = url
  | .domain => ∃ w c, url = w ++ c :: s ∧ (c = unit '/' ∨ c = unit '.')

theorem mem_afterLabels {started : Bool} (h : t ∈ afterLabels started s) :
    ∃ w, s = w ++ unit '.' :: t := by
  induction s generalizing started with
  | nil => exact absurd h List.not_mem_nil
  | cons c s ih =>
    rw [afterLabels] at h
    rcases List.mem_append.mp h with h | h
    · split at h
      · rename_i hc
        rw [Bool.and_eq_true, beq_iff_eq] at hc
        exact ⟨[], by rw [hc.2, List.mem_singleton.mp h]; rfl⟩
      · exact absurd h List.not_mem_nil
    · split at h
      · exact absurd h List.not_mem_nil
      · obtain ⟨w, rfl⟩ := ih h
        exact ⟨c :: w, rfl⟩

theorem dropWhile_slash (w t : JsString) : ∃ v,
    w ++ unit '/' :: t = v ++ unit '/' :: t.dropWhile fun x => x == unit '/' := by
  induction t generalizing w with
  | nil => exact ⟨w, rfl⟩
  | cons c t ih =>
    rw [List.dropWhile_cons]
    split
    · rename_i hc
      obtain ⟨v, hv⟩ := ih (w ++ [unit '/'])
      refine ⟨v, ?_⟩
      rw [← hv, beq_iff_eq.mp hc]
      simp
    · exact ⟨w, rfl⟩

theorem starts_of_mem_domainRests (h : s ∈ domainRests url) : Anchor.domain.Starts url s := by
  rw [domainRests] at h
  split at h
  · exact absurd h List.not_mem_nil
  · split at h
    · rename_i c d t hrest
      split at h
      · rename_i hcd
        obtain ⟨rfl, rfl⟩ := hcd
        have hurl := List.takeWhile_append_dropWhile
          (p := fun c => isWord c || c == unit '-') (l := url)
        rw [hrest] at hurl
        obtain ⟨v, hv⟩ := dropWhile_slash
          ((url.takeWhile fun c => isWord c || c == unit '-') ++ [unit ':']) t
        rw [List.append_assoc] at hv
        rcases List.mem_cons.mp h with rfl | h
        · exact ⟨v, _, by rw [← hurl]; exact hv, Or.inl rfl⟩
        · obtain ⟨w, hw⟩ := mem_afterLabels h
          refine ⟨v ++ unit '/' :: w, _, ?_, Or.inr rfl⟩
          rw [← hurl, List.append_assoc, List.cons_append, ← hw]
          exact hv
      · exact absurd h List.not_mem_nil
    · exact absurd h List.not_mem_nil

theorem anchorText_collapse {anchor : Anchor} (h : collapseStars src = anchorText anchor ++ t) :
    ∃ t', src = anchorText anchor ++ t' ∧ collapseStars t' = t := by
  cases anchor with
  | free => exact ⟨src, rfl, h⟩
  | start =>
    obtain ⟨t', rfl, ht⟩ := eq_cons_of_collapseStars h (by decide)
    exact ⟨t', rfl, ht⟩
  | domain =>
    obtain ⟨t', rfl, ht⟩ := eq_cons_of_collapseStars h (by decide)
    obtain ⟨t'', rfl, ht'⟩ := eq_cons_of_collapseStars ht (by decide)
    exact ⟨t'', rfl, ht'⟩

/-- What the expression of a rule matches, the rule fits. -/
theorem Engine.fits_of_test {pattern : Pattern}
    (hp : parsePattern (regexpSourceOf src) = some pattern)
    (htest : E.test ic pattern url = true) : ∃ anchor rest s,
      src = anchorText anchor ++ rest ∧ anchor.Starts url s ∧ E.Fits ic rest s := by
  obtain ⟨anchor, core, finish, ⟨lead, tail, htext, hlead, htail⟩, hparse⟩ :=
    parsePattern_regexpSourceOf src
  rw [hp] at hparse
  cases hparse
  have htailFits : ∀ t, (finish = true → t = []) → E.Fits ic tail t := by
    intro t ht
    rcases htail with rfl | ⟨rfl, rfl⟩
    · cases finish with
      | true =>
        rw [ht rfl]
        exact .finish
      | false => exact .nil t
    · exact .star (.nil t) (List.suffix_refl t)
  have hatoms : ∀ {s}, E.matchAtoms ic finish (core.map atomOf) s = true →
      E.Fits ic (core ++ tail) s := fun h => fits_of_matchAtoms h htailFits
  obtain ⟨s, hstarts, hfits⟩ : ∃ s, anchor.Starts url s ∧
      E.Fits ic (lead ++ (core ++ tail)) s := by
    cases anchor with
    | free =>
      obtain ⟨s, hs, hmatch⟩ := List.any_eq_true.mp htest
      have hsuffix := (List.mem_tails s url).mp hs
      rcases hlead with rfl | ⟨rfl, -⟩
      · exact ⟨s, hsuffix, hatoms hmatch⟩
      · exact ⟨url, List.suffix_refl url, .star (hatoms hmatch) hsuffix⟩
    | start =>
      obtain rfl : lead = [] := hlead.resolve_right (fun h => by cases h.2)
      exact ⟨url, rfl, hatoms htest⟩
    | domain =>
      obtain rfl : lead = [] := hlead.resolve_right (fun h => by cases h.2)
      obtain ⟨s, hs, hmatch⟩ := List.any_eq_true.mp htest
      exact ⟨s, starts_of_mem_domainRests hs, hatoms hmatch⟩
  obtain ⟨rest, hcollapse, hfits⟩ : ∃ rest, collapseStars src = anchorText anchor ++ rest ∧
      E.Fits ic rest s := by
    generalize collapseStars src = r at htext
    rw [dropEndBehindSeparator] at htext
    split at htext
    · rename_i hsuffix
      obtain ⟨w, rfl⟩ := List.isSuffixOf_iff_suffix.mp hsuffix
      have hbehind : js "^|" = [94] ++ [124] := by decide +kernel
      rw [hbehind, ← List.append_assoc, List.dropLast_concat] at htext
      generalize lead ++ (core ++ tail) = rest at htext hfits
      rcases List.eq_nil_or_concat' rest with rfl | ⟨rest, x, rfl⟩
      · have hlast := congrArg List.getLast? htext
        cases anchor <;> simp [anchorText] at hlast
      · rw [← List.append_assoc] at htext
        obtain ⟨rfl, hx⟩ := List.append_inj' htext rfl
        cases hx
        refine ⟨rest ++ [94, 124], ?_, fits_behind hfits⟩
        rw [hbehind]
        simp
    · exact ⟨_, htext, hfits⟩
  obtain ⟨rest', hsrc, rfl⟩ := anchorText_collapse hcollapse
  exact ⟨anchor, rest', s, hsrc, hstarts, fits_of_collapseStars hfits⟩

theorem mark_of_lt (h : c < 128) : mark c = [classify (asciiLower c)] := if_pos h

theorem mark_cases (c : Nat) :
    (∃ x, mark c = [x]) ∨ mark c = [.token (unit 'i'), .other] := by
  rw [mark]
  split
  · exact Or.inl ⟨_, rfl⟩
  · split
    · exact Or.inl ⟨_, rfl⟩
    · split
      · exact Or.inr rfl
      · exact Or.inl ⟨_, rfl⟩

theorem asciiLower_eq_of_asciiUpper (h : asciiUpper c = asciiUpper x) :
    asciiLower c = asciiLower x := by
  simp only [asciiUpper, asciiLower] at h ⊢
  split at h <;> split at h <;> split <;> split <;> omega

/-- What a regular expression takes for the same is the same to a word. -/
theorem Engine.mark_of_same (hE : E.Lawful) (h : E.same ic c x = true) : mark c = mark x := by
  cases ic with
  | false =>
    obtain rfl : c = x := beq_iff_eq.mp h
    rfl
  | true =>
    have hcanonicalize : E.canonicalize c = E.canonicalize x := beq_iff_eq.mp h
    have hascii := hE.canonicalize_ascii
    have hother := hE.canonicalize_other
    have hupper : ∀ {d}, d < 128 → asciiUpper d < 128 := by
      intro d hd
      rw [asciiUpper]
      split <;> omega
    by_cases hc : c < 128
    · by_cases hx : x < 128
      · rw [hascii c hc, hascii x hx] at hcanonicalize
        rw [mark_of_lt hc, mark_of_lt hx, asciiLower_eq_of_asciiUpper hcanonicalize]
      · have hle := hother x (Nat.le_of_not_lt hx)
        have hlt := hupper hc
        rw [← hcanonicalize, hascii c hc] at hle
        omega
    · by_cases hx : x < 128
      · have hle := hother c (Nat.le_of_not_lt hc)
        have hlt := hupper hx
        rw [hcanonicalize, hascii x hx] at hle
        omega
      · have hspecial := hE.canonicalize_special
        by_cases hck : c ∈ [kelvin, dottedI]
        · rw [hspecial c hck x hcanonicalize.symm]
        · by_cases hxk : x ∈ [kelvin, dottedI]
          · rw [hspecial x hxk c hcanonicalize]
          · simp only [List.mem_cons, List.not_mem_nil, or_false, not_or] at hck hxk
            rw [mark, mark, if_neg hc, if_neg hx, if_neg hck.1, if_neg hck.2, if_neg hxk.1,
              if_neg hxk.2]

theorem mark_of_separator (h : isSeparator c = true) :
    ∃ x, mark c = [x] ∧ x.isToken = false := by
  have hall : ∀ c < 128, isSeparator c = true → (classify (asciiLower c)).isToken = false := by
    decide
  have hlt : c < 128 := by
    simp only [isSeparator, Bool.or_eq_true, Bool.and_eq_true, decide_eq_true_eq, beq_iff_eq] at h
    omega
  exact ⟨_, mark_of_lt hlt, hall c hlt h⟩

theorem opens_append (h : Opens b) (a : List Mark) : Opens (a ++ b) := by
  obtain ⟨b, x, rfl, hx⟩ := h
  exact ⟨a ++ b, x, (List.append_assoc ..).symm, hx⟩

/-- The marks of a text, cut behind one that is nothing to a word. -/
theorem flatMap_mark_cut {a b : List Mark} (h : s.flatMap mark = a ++ .other :: b) :
    ∃ u v, s = u ++ v ∧ u.flatMap mark = a ++ [.other] ∧ v.flatMap mark = b := by
  induction s generalizing a with
  | nil => exact absurd h (by simp)
  | cons c s ih =>
    rw [List.flatMap_cons] at h
    rcases mark_cases c with ⟨x, hx⟩ | hx
    · rw [hx] at h
      cases a with
      | nil =>
        cases h
        exact ⟨[c], s, rfl, by rw [List.flatMap_singleton, hx]; rfl, rfl⟩
      | cons y a =>
        obtain ⟨rfl, hrest⟩ := List.cons_eq_cons.mp h
        obtain ⟨u, v, rfl, hu, hv⟩ := ih hrest
        exact ⟨c :: u, v, rfl, by rw [List.flatMap_cons, hx, hu]; rfl, hv⟩
    · rw [hx] at h
      cases a with
      | nil => cases h
      | cons y a =>
        obtain ⟨rfl, hrest⟩ := List.cons_eq_cons.mp h
        cases a with
        | nil =>
          cases hrest
          exact ⟨[c], s, rfl, by rw [List.flatMap_singleton, hx]; rfl, rfl⟩
        | cons z a =>
          obtain ⟨rfl, hrest'⟩ := List.cons_eq_cons.mp hrest
          obtain ⟨u, v, rfl, hu, hv⟩ := ih hrest'
          exact ⟨c :: u, v, rfl, by rw [List.flatMap_cons, hx, hu]; rfl, hv⟩

theorem mark_ne_nil (c : Nat) : mark c ≠ [] := by
  rcases mark_cases c with ⟨x, hx⟩ | hx
  · rw [hx]
    exact List.cons_ne_nil _ _
  · rw [hx]
    exact List.cons_ne_nil _ _

theorem flatMap_mark_tail {a : List Mark} (h : (c :: p).flatMap mark = a ++ [.other])
    (hne : p ≠ []) : ∃ a', p.flatMap mark = a' ++ [.other] := by
  rw [List.flatMap_cons] at h
  rcases List.eq_nil_or_concat' (p.flatMap mark) with hnil | ⟨a', x, hx⟩
  · cases p with
    | nil => exact absurd rfl hne
    | cons d p => exact absurd (List.append_eq_nil_iff.mp hnil).1 (mark_ne_nil d)
  · rw [hx, ← List.append_assoc] at h
    obtain ⟨-, hlast⟩ := List.append_inj' h rfl
    cases hlast
    exact ⟨a', hx⟩

/-- The first character of a text in two parts is all of the first part, or there is more of it. -/
theorem first_part {r : JsString} {a : List Mark} (hr : p ++ q = c :: r) (hne : p ≠ [])
    (hp : p.flatMap mark = a ++ [.other]) : (p = [c] ∧ q = r) ∨
      ∃ p' a', p = c :: p' ∧ p' ≠ [] ∧ p' ++ q = r ∧ p'.flatMap mark = a' ++ [.other] := by
  cases p with
  | nil => exact absurd rfl hne
  | cons d p =>
    obtain ⟨rfl, hrest⟩ := List.cons_eq_cons.mp hr
    by_cases hp' : p = []
    · subst hp'
      exact Or.inl ⟨rfl, hrest⟩
    · obtain ⟨a', ha'⟩ := flatMap_mark_tail hp hp'
      exact Or.inr ⟨p, a', rfl, hp', hrest, ha'⟩

/-- A text with a part that ends a word and a part that begins one fits in two parts. -/
theorem Engine.fits_split (hE : E.Lawful) (h : E.Fits ic (p ++ q) s) (hne : p ≠ [])
    {a : List Mark} (hp : p.flatMap mark = a ++ [.other]) {d : Nat} {b : List Mark}
    (hq : q.flatMap mark = .token d :: b) : ∃ u v, s = u ++ v ∧ E.Fits ic q v ∧
      (v = [] ∨ Opens (u.flatMap mark)) := by
  have hstar : mark 42 = [.star] := by decide
  have hbar : mark 124 = [.other] := by decide
  have hcons : ∀ {x : Nat} {u : JsString}, Opens (u.flatMap mark) →
      Opens ((x :: u).flatMap mark) := fun hu => by
    rw [List.flatMap_cons]
    exact opens_append hu _
  generalize hr : p ++ q = r at h
  induction h generalizing p a with
  | nil => exact absurd (List.append_eq_nil_iff.mp hr).1 hne
  | star _ hsuffix ih =>
    rcases first_part hr hne hp with ⟨rfl, -⟩ | ⟨p', a', -, hp', hr', ha'⟩
    · rw [List.flatMap_singleton, hstar] at hp
      exact absurd hp (by cases a <;> simp)
    · obtain ⟨u, v, rfl, hv, hopens⟩ := ih hp' ha' hr'
      obtain ⟨w, rfl⟩ := hsuffix
      refine ⟨w ++ u, v, (List.append_assoc ..).symm, hv, hopens.imp_right ?_⟩
      intro hopens
      rw [List.flatMap_append]
      exact opens_append hopens _
  | separator hc h ih =>
    rcases first_part hr hne hp with ⟨-, rfl⟩ | ⟨p', a', -, hp', hr', ha'⟩
    · obtain ⟨x, hx, htoken⟩ := mark_of_separator hc
      refine ⟨[_], _, rfl, h, Or.inr ⟨[], x, ?_, htoken⟩⟩
      rw [List.flatMap_singleton, hx]
      rfl
    · obtain ⟨u, v, rfl, hv, hopens⟩ := ih hp' ha' hr'
      exact ⟨_ :: u, v, rfl, hv, hopens.imp_right hcons⟩
  | ending h ih =>
    rcases first_part hr hne hp with ⟨-, rfl⟩ | ⟨p', a', -, hp', hr', ha'⟩
    · exact ⟨[], [], rfl, h, Or.inl rfl⟩
    · obtain ⟨u, v, hs, hv, -⟩ := ih hp' ha' hr'
      exact ⟨u, v, hs, hv, Or.inl (List.append_eq_nil_iff.mp hs.symm).2⟩
  | finish =>
    rcases first_part hr hne hp with ⟨-, rfl⟩ | ⟨p', a', -, hp', hr', -⟩
    · cases hq
    · exact absurd (List.append_eq_nil_iff.mp hr').1 hp'
  | behind h ih =>
    rcases first_part hr hne hp with ⟨-, rfl⟩ | ⟨p', a', -, hp', hr', ha'⟩
    · rw [List.flatMap_singleton, hbar] at hq
      cases hq
    · rcases first_part hr' hp' ha' with ⟨-, rfl⟩ | ⟨p'', a'', -, hp'', hr'', -⟩
      · cases hq
      · exact absurd (List.append_eq_nil_iff.mp hr'').1 hp''
  | unit hstar' hcaret' hsame h ih =>
    rcases first_part hr hne hp with ⟨rfl, rfl⟩ | ⟨p', a', -, hp', hr', ha'⟩
    · refine ⟨[_], _, rfl, h, Or.inr ⟨a, .other, ?_, rfl⟩⟩
      rw [← hp, List.flatMap_singleton, List.flatMap_singleton, mark_of_same hE hsame]
    · obtain ⟨u, v, rfl, hv, hopens⟩ := ih hp' ha' hr'
      exact ⟨_ :: u, v, rfl, hv, hopens.imp_right hcons⟩

theorem word_eq_nil {b m : List Mark} (h : .other :: m = k.map Mark.token ++ b) : k = [] := by
  cases k with
  | nil => rfl
  | cons d k => cases h

/-- A text that begins with a word fits where the same word begins. -/
theorem Engine.fits_word (hE : E.Lawful) (h : E.Fits ic p s) {b : List Mark}
    (hp : p.flatMap mark = k.map .token ++ .other :: b) :
    ∃ m, s.flatMap mark = k.map .token ++ m ∧ Closes m := by
  have hstar : mark 42 = [.star] := by decide
  have hcaret : mark 94 = [.other] := by decide
  have hbar : mark 124 = [.other] := by decide
  induction h generalizing k b with
  | nil => exact absurd hp (by simp)
  | star _ _ _ =>
    rw [List.flatMap_cons, hstar] at hp
    cases k <;> cases hp
  | separator hc _ _ =>
    rw [List.flatMap_cons, hcaret] at hp
    obtain rfl := word_eq_nil hp
    obtain ⟨x, hx, htoken⟩ := mark_of_separator hc
    rw [List.flatMap_cons, hx]
    exact ⟨_, rfl, closes_cons htoken⟩
  | ending _ _ =>
    rw [List.flatMap_cons, hcaret] at hp
    obtain rfl := word_eq_nil hp
    exact ⟨[], rfl, fun x hx => by cases hx⟩
  | finish =>
    rw [List.flatMap_cons, hbar] at hp
    obtain rfl := word_eq_nil hp
    exact ⟨[], rfl, fun x hx => by cases hx⟩
  | behind _ ih =>
    rw [List.flatMap_cons, hcaret] at hp
    obtain rfl := word_eq_nil hp
    refine ih (b := []) ?_
    rw [List.flatMap_singleton, hcaret]
    rfl
  | unit _ _ hsame _ ih =>
    rw [List.flatMap_cons] at hp
    rw [List.flatMap_cons, ← mark_of_same hE hsame]
    rcases mark_cases _ with ⟨y, hy⟩ | hy
    · rw [hy] at hp ⊢
      cases k with
      | nil =>
        obtain ⟨rfl, -⟩ := List.cons_eq_cons.mp hp
        exact ⟨_, rfl, closes_cons rfl⟩
      | cons d k =>
        obtain ⟨rfl, hrest⟩ := List.cons_eq_cons.mp hp
        obtain ⟨m, hm, hclose⟩ := ih hrest
        exact ⟨m, by rw [hm]; rfl, hclose⟩
    · rw [hy] at hp ⊢
      cases k with
      | nil => cases hp
      | cons d k =>
        obtain ⟨hd, hrest⟩ := List.cons_eq_cons.mp hp
        cases hd
        obtain rfl := word_eq_nil hrest
        exact ⟨_, rfl, closes_cons rfl⟩

/-- What is left of the address behind `w` fits the text of the rule from the keyword on. -/
theorem Engine.word_behind (hE : E.Lawful) (h : E.Fits ic v t) {w : JsString} {b : List Mark}
    (hw : w.flatMap mark = [] ∨ Opens (w.flatMap mark)) (hlength : 3 ≤ k.length)
    (hv : v.flatMap mark = k.map .token ++ .other :: b) :
    k ∈ tokensFrom [] ((w ++ t).flatMap mark) := by
  obtain ⟨m, hm, hclose⟩ := fits_word hE h hv
  rw [List.flatMap_append, hm]
  exact mem_tokensFrom hw hlength hclose

/-- The same from a place in front of the keyword on. -/
theorem Engine.word_within (hE : E.Lawful) (h : E.Fits ic (p ++ v) s) (hne : p ≠ [])
    {a b : List Mark} (hp : p.flatMap mark = a ++ [.other]) (hlength : 3 ≤ k.length)
    (hv : v.flatMap mark = k.map .token ++ .other :: b) (w : JsString) :
    k ∈ tokensFrom [] ((w ++ s).flatMap mark) := by
  cases k with
  | nil => cases hlength
  | cons d k =>
    obtain ⟨u, v', rfl, hv', hnil | hopens⟩ := fits_split hE h hne hp hv
    · obtain ⟨m, hm, -⟩ := fits_word hE hv' hv
      rw [hnil] at hm
      cases hm
    · rw [← List.append_assoc]
      refine word_behind hE hv' (Or.inr ?_) hlength hv
      rw [List.flatMap_append]
      exact opens_append hopens _

theorem Engine.word_of_start (hE : E.Lawful) (h : E.Fits ic q url) {a b : List Mark}
    (hq : 124 :: q = p ++ v) (hp : p.flatMap mark = a ++ [.other]) (hlength : 3 ≤ k.length)
    (hv : v.flatMap mark = k.map .token ++ .other :: b) :
    k ∈ tokensFrom [] (url.flatMap mark) := by
  cases p with
  | nil => cases a <;> cases hp
  | cons c p =>
    obtain ⟨-, rfl⟩ := List.cons_eq_cons.mp hq
    by_cases hne : p = []
    · subst hne
      exact word_behind (w := []) hE h (Or.inl rfl) hlength hv
    · obtain ⟨a', ha'⟩ := flatMap_mark_tail hp hne
      exact word_within hE h hne ha' hlength hv []

theorem Engine.word_of_domain (hE : E.Lawful) (h : E.Fits ic q s) {a b : List Mark}
    (hq : 124 :: 124 :: q = p ++ v) (hp : p.flatMap mark = a ++ [.other])
    (hlength : 3 ≤ k.length) (hv : v.flatMap mark = k.map .token ++ .other :: b)
    {w : JsString} (hw : Opens (w.flatMap mark)) :
    k ∈ tokensFrom [] ((w ++ s).flatMap mark) := by
  have hbar : mark 124 = [.other] := by decide
  cases p with
  | nil => cases a <;> cases hp
  | cons c p =>
    obtain ⟨-, hq⟩ := List.cons_eq_cons.mp hq
    cases p with
    | nil =>
      -- The keyword does not begin with a bar.
      have hv' : 124 :: q = v := hq
      rw [← hv', List.flatMap_cons, hbar] at hv
      cases k with
      | nil => cases hlength
      | cons d k => cases hv
    | cons c' p =>
      obtain ⟨-, rfl⟩ := List.cons_eq_cons.mp hq
      by_cases hne : p = []
      · subst hne
        exact word_behind hE h (Or.inr hw) hlength hv
      · obtain ⟨a', ha'⟩ := flatMap_mark_tail hp (List.cons_ne_nil _ p)
        obtain ⟨a'', ha''⟩ := flatMap_mark_tail ha' hne
        exact word_within hE h hne ha'' hlength hv w

/-- A candidate for the keyword of a rule is a word of every address that the rule matches. -/
theorem Engine.mem_tokens (hE : E.Lawful) {pattern : Pattern}
    (hp : parsePattern (regexpSourceOf src) = some pattern)
    (htest : E.test ic pattern url = true) (hk : k ∈ candidates (E.toLowerCase src)) :
    k ∈ tokens (E.toLowerCase url) := by
  obtain ⟨anchor, rest, s, hsrc, hstarts, hfits⟩ := fits_of_test hp htest
  rw [candidates_toLowerCase hE] at hk
  rw [tokens_toLowerCase hE]
  obtain ⟨hlength, ⟨h, -⟩ | ⟨a, b, hmarks⟩⟩ := mem_candidatesFrom hk
  · cases h
  obtain ⟨u, v, huv, hu, hv⟩ := flatMap_mark_cut hmarks
  rw [hsrc] at huv
  cases anchor with
  | free =>
    obtain ⟨w, rfl⟩ : s <:+ url := hstarts
    have hne : u ≠ [] := by
      rintro rfl
      cases a <;> cases hu
    have hfits : E.Fits ic (u ++ v) s := by
      rw [← huv]
      exact hfits
    exact word_within hE hfits hne hu hlength hv w
  | start =>
    obtain rfl : s = url := hstarts
    exact word_of_start hE hfits huv hu hlength hv
  | domain =>
    obtain ⟨w, c, rfl, hc⟩ := hstarts
    have hw : Opens ((w ++ [c]).flatMap mark) := by
      rw [List.flatMap_append]
      apply opens_append
      rcases hc with rfl | rfl
      · exact ⟨[], .other, by decide, rfl⟩
      · exact ⟨[], .other, by decide, rfl⟩
    have hurl : w ++ c :: s = w ++ [c] ++ s := by simp
    rw [hurl]
    exact word_of_domain hE hfits huv hu hlength hv hw

end Shadowsocks
