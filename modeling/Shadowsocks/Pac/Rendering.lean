import Shadowsocks.Pac.Filter

/-! The source that `getRegexp` writes is read as the pattern that the rule spells. -/
namespace Shadowsocks

open Replace

variable {s t u src rest core : JsString} {c x : Nat}

/-- How one character of a rule stands in the source. -/
def renderUnit (c : Nat) : JsString :=
  if c = unit '*' then js ".*" else if c = unit '^' then separatorSource else escapeUnit c

/-- What one character of a rule stands for. -/
def atomOf (c : Nat) : Atom :=
  if c = unit '*' then .any else if c = unit '^' then .separator else .unit c

theorem js_backslash_star : js "\\*" = [92, 42] := by decide +kernel
theorem js_backslash_caret : js "\\^" = [92, 94] := by decide +kernel
theorem js_backslash_bar : js "\\|" = [92, 124] := by decide +kernel
theorem js_backslash_bars : js "\\|\\|" = [92, 124, 92, 124] := by decide +kernel
theorem js_any : js ".*" = [46, 42] := by decide +kernel
theorem js_caret : js "^" = [94] := by decide +kernel
theorem js_dollar : js "$" = [36] := by decide +kernel

theorem isWord_ne {d : Nat} (hc : isWord c = true) (hd : isWord d = false) : c ≠ d := by
  rintro rfl
  rw [hc] at hd
  cases hd

/-- Replacing an escaped character, when no other unit of the text has it behind a backslash. -/
theorem replaceJs_flatMap {f g : Nat → JsString} {new : JsString}
    (hhead : ∀ c, ∃ d l, f c = d :: l ∧ d ≠ x)
    (hunit : ∀ c, f c = [92, x] ∧ g c = new ∨ g c = f c ∧ ¬ [92, x] <:+: f c) (t : JsString) :
    replaceJs [92, x] new (t.flatMap f) = t.flatMap g := by
  have hrest : ∀ t : JsString, (t.flatMap f).head? ≠ some x := by
    intro t
    cases t with
    | nil => simp
    | cons c t =>
      obtain ⟨d, l, hf, hd⟩ := hhead c
      simp [hf, hd]
  induction t with
  | nil => rfl
  | cons c t ih =>
    rw [List.flatMap_cons, List.flatMap_cons]
    rcases hunit c with ⟨hf, hg⟩ | ⟨hg, hfree⟩
    · have hhit : List.isPrefixOf [92, x] (92 :: x :: t.flatMap f) = true := by simp
      rw [hf, hg, ← ih]
      exact replaceAll_hit (Nat.succ_pos 1) hhit
    · rw [hg, ← ih]
      apply replaceAll_append_of_miss
      intro s u hs hu
      rw [Bool.eq_false_iff, ne_eq, List.isPrefixOf_iff_prefix]
      rintro ⟨v, hv⟩
      cases u with
      | nil => exact hu rfl
      | cons a u =>
        cases u with
        | nil =>
          simp only [List.cons_append, List.nil_append, List.cons.injEq] at hv
          apply hrest t
          rw [← hv.2]
          rfl
        | cons b u =>
          simp only [List.cons_append, List.nil_append, List.cons.injEq] at hv
          obtain ⟨rfl, rfl, -⟩ := hv
          exact hfree ⟨s, u, by rw [hs]; simp⟩

theorem escapeUnit_of_word (h : isWord c = true) : escapeUnit c = [c] := if_pos h

theorem escapeUnit_of_not_word (h : isWord c = false) : escapeUnit c = [92, c] := by
  rw [escapeUnit, if_neg (by rw [h]; decide)]
  rfl

/-- The text of a rule after the replacements that concern single characters. -/
theorem replaceJs_escape (t : JsString) :
    replaceJs (js "\\^") separatorSource (replaceJs (js "\\*") (js ".*") (t.flatMap escapeUnit)) =
      t.flatMap renderUnit := by
  have hstar : replaceJs (js "\\*") (js ".*") (t.flatMap escapeUnit) =
      t.flatMap fun c => if c = unit '*' then js ".*" else escapeUnit c := by
    rw [js_backslash_star]
    apply replaceJs_flatMap
    · intro c
      by_cases hc : isWord c = true
      · exact ⟨c, [], escapeUnit_of_word hc, isWord_ne hc (by decide)⟩
      · exact ⟨92, [c], escapeUnit_of_not_word (Bool.eq_false_iff.mpr hc), by decide⟩
    · intro c
      by_cases hc : c = unit '*'
      · left
        rw [hc]
        exact ⟨escapeUnit_of_not_word (by decide), if_pos rfl⟩
      · refine Or.inr ⟨if_neg hc, ?_⟩
        by_cases hw : isWord c = true
        · rw [escapeUnit_of_word hw]
          intro hinside
          exact absurd hinside.length_le (by simp)
        · rw [escapeUnit_of_not_word (Bool.eq_false_iff.mpr hw)]
          intro hinside
          have heq := hinside.eq_of_length (by simp)
          simp only [List.cons.injEq, and_true, true_and] at heq
          exact hc heq.symm
  rw [hstar, js_backslash_caret]
  apply replaceJs_flatMap
  · intro c
    split
    · exact ⟨46, [42], js_any, by decide⟩
    · by_cases hw : isWord c = true
      · exact ⟨c, [], escapeUnit_of_word hw, isWord_ne hw (by decide)⟩
      · exact ⟨92, [c], escapeUnit_of_not_word (Bool.eq_false_iff.mpr hw), by decide⟩
  · intro c
    by_cases hstar : c = unit '*'
    · right
      rw [if_pos hstar, renderUnit, if_pos hstar, js_any]
      refine ⟨rfl, ?_⟩
      intro hinside
      exact absurd (hinside.eq_of_length rfl) (by decide)
    · rw [if_neg hstar, renderUnit, if_neg hstar]
      by_cases hcaret : c = unit '^'
      · left
        rw [if_pos hcaret, hcaret]
        exact ⟨escapeUnit_of_not_word (by decide), rfl⟩
      · refine Or.inr ⟨if_neg hcaret, ?_⟩
        by_cases hw : isWord c = true
        · rw [escapeUnit_of_word hw]
          intro hinside
          exact absurd hinside.length_le (by simp)
        · rw [escapeUnit_of_not_word (Bool.eq_false_iff.mpr hw)]
          intro hinside
          have heq := hinside.eq_of_length (by simp)
          simp only [List.cons.injEq, and_true, true_and] at heq
          exact hcaret heq.symm

theorem renderUnit_cases (c : Nat) :
    (c = 42 ∧ renderUnit c = [46, 42]) ∨
    (c = 94 ∧ renderUnit c = separatorSource) ∨
    (isWord c = true ∧ renderUnit c = [c]) ∨
    (isWord c = false ∧ c ≠ 42 ∧ c ≠ 94 ∧ renderUnit c = [92, c]) := by
  by_cases hstar : c = unit '*'
  · left
    rw [renderUnit, if_pos hstar, js_any]
    exact ⟨hstar, rfl⟩
  · by_cases hcaret : c = unit '^'
    · right; left
      rw [renderUnit, if_neg hstar, if_pos hcaret]
      exact ⟨hcaret, rfl⟩
    · right; right
      rw [renderUnit, if_neg hstar, if_neg hcaret]
      cases hw : isWord c with
      | true => exact Or.inl ⟨rfl, escapeUnit_of_word hw⟩
      | false => exact Or.inr ⟨rfl, hstar, hcaret, escapeUnit_of_not_word hw⟩

/-- The front of the separator's source; nothing else begins with a bracket. -/
theorem separatorSource_eq : ∃ l, separatorSource = 40 :: 63 :: l := by
  have h : separatorSource = 40 :: 63 :: separatorSource.drop 2 := by decide +kernel
  exact ⟨_, h⟩

theorem separatorSource_last : ∃ l, separatorSource = l ++ [36, 41] := by
  have h : separatorSource = separatorSource.take (separatorSource.length - 2) ++ [36, 41] := by
    decide +kernel
  exact ⟨_, h⟩

theorem bar_prefix_iff (t : JsString) :
    [92, 124] <+: t.flatMap renderUnit ↔ ∃ t', t = 124 :: t' := by
  constructor
  · rintro ⟨v, hv⟩
    cases t with
    | nil => cases hv
    | cons c t =>
      rw [List.flatMap_cons] at hv
      rcases renderUnit_cases c with ⟨-, hr⟩ | ⟨-, hr⟩ | ⟨hw, hr⟩ | ⟨-, -, -, hr⟩
      · rw [hr] at hv
        cases hv
      · obtain ⟨l, hl⟩ := separatorSource_eq
        rw [hr, hl] at hv
        cases hv
      · rw [hr] at hv
        obtain ⟨rfl, -⟩ := List.cons_eq_cons.mp hv
        cases hw
      · rw [hr] at hv
        simp only [List.cons_append, List.nil_append, List.cons.injEq, true_and] at hv
        exact ⟨t, by rw [hv.1]⟩
  · rintro ⟨t', rfl⟩
    exact ⟨t'.flatMap renderUnit, rfl⟩

/-- How the source ends behind a rule that does not. -/
theorem flatMap_concat (t : JsString) (c : Nat) :
    (t ++ [c]).flatMap renderUnit = t.flatMap renderUnit ++ renderUnit c := by
  rw [List.flatMap_append, List.flatMap_singleton]

theorem bar_suffix_iff {pre : JsString} (hpre : pre.getLast? ≠ some 124) (t : JsString) :
    [92, 124] <:+ pre ++ t.flatMap renderUnit ↔ ∃ t', t = t' ++ [124] := by
  constructor
  · rintro ⟨v, hv⟩
    have hlast := congrArg List.getLast? hv
    rcases List.eq_nil_or_concat' t with rfl | ⟨t', c, rfl⟩
    · rw [List.flatMap_nil, List.append_nil] at hlast
      rw [← hlast] at hpre
      simp at hpre
    · rw [flatMap_concat, ← List.append_assoc] at hlast
      refine ⟨t', ?_⟩
      rcases renderUnit_cases c with ⟨-, hr⟩ | ⟨-, hr⟩ | ⟨hw, hr⟩ | ⟨-, -, -, hr⟩
      · rw [hr] at hlast
        simp at hlast
      · obtain ⟨l, hl⟩ := separatorSource_last
        rw [hr, hl] at hlast
        simp at hlast
      · rw [hr] at hlast
        simp at hlast
        rw [← hlast] at hw
        cases hw
      · rw [hr] at hlast
        simp at hlast
        rw [hlast]
  · rintro ⟨t', rfl⟩
    refine ⟨pre ++ t'.flatMap renderUnit, ?_⟩
    rw [flatMap_concat, List.append_assoc]
    rfl

/-- How an anchor stands in front of a source. -/
def anchorSource : Anchor → JsString
  | .free => []
  | .start => [94]
  | .domain => domainSource

def finishSource : Bool → JsString
  | true => [36]
  | false => []

/-- How an anchor stands in front of a rule. -/
def anchorText : Anchor → JsString
  | .free => []
  | .start => [124]
  | .domain => [124, 124]

theorem domainSource_eq : ∃ l, domainSource = 94 :: 91 :: l ∧
    domainSource.getLast? = some 63 := by
  have h : domainSource = 94 :: 91 :: domainSource.drop 2 := by decide +kernel
  exact ⟨_, h, by decide +kernel⟩

theorem anchorSource_last (anchor : Anchor) :
    (anchorSource anchor).getLast? ≠ some 124 ∧ (anchorSource anchor).getLast? ≠ some 42 := by
  obtain ⟨l, -, hlast⟩ := domainSource_eq
  cases anchor with
  | free => exact ⟨by decide, by decide⟩
  | start => exact ⟨by decide, by decide⟩
  | domain =>
    rw [anchorSource, hlast]
    exact ⟨by decide, by decide⟩

theorem anchorSource_head {anchor : Anchor} (h : anchor ≠ .free) :
    ∃ l, anchorSource anchor = 94 :: l := by
  cases anchor with
  | free => exact absurd rfl h
  | start => exact ⟨[], rfl⟩
  | domain =>
    obtain ⟨l, hl, -⟩ := domainSource_eq
    exact ⟨91 :: l, hl⟩

theorem replaceStart_append {needle new v : JsString} :
    replaceStart needle new (needle ++ v) = new ++ v := by
  rw [replaceStart, if_pos (List.isPrefixOf_iff_prefix.mpr ⟨v, rfl⟩), List.drop_left]

theorem replaceStart_of_ne {needle new s : JsString} (h : ¬ needle <+: s) :
    replaceStart needle new s = s :=
  if_neg fun hp => h (List.isPrefixOf_iff_prefix.mp hp)

theorem replaceEnd_of_suffix {needle new v : JsString} :
    replaceEnd needle new (v ++ needle) = v ++ new := by
  rw [replaceEnd, if_pos (List.isSuffixOf_iff_suffix.mpr ⟨v, rfl⟩), List.length_append,
    Nat.add_sub_cancel, List.take_left]

theorem replaceEnd_of_not_suffix {needle new s : JsString} (h : ¬ needle <:+ s) :
    replaceEnd needle new s = s :=
  if_neg fun hp => h (List.isSuffixOf_iff_suffix.mp hp)

/-- The anchor in front of a rule becomes that of the source. -/
theorem replaceStart_anchor (t : JsString) : ∃ anchor rest, t = anchorText anchor ++ rest ∧
    replaceStart (js "\\|") (js "^") (replaceStart (js "\\|\\|") domainSource
      (t.flatMap renderUnit)) = anchorSource anchor ++ rest.flatMap renderUnit := by
  have hbar : renderUnit 124 = [92, 124] := by decide +kernel
  rw [js_backslash_bar, js_backslash_bars, js_caret]
  by_cases hone : ∃ t', t = 124 :: t'
  · obtain ⟨t, rfl⟩ := hone
    have hsource : (124 :: t).flatMap renderUnit = [92, 124] ++ t.flatMap renderUnit := by
      rw [List.flatMap_cons, hbar]
    by_cases htwo : ∃ t', t = 124 :: t'
    · obtain ⟨t, rfl⟩ := htwo
      refine ⟨.domain, t, rfl, ?_⟩
      have hsource' : (124 :: 124 :: t).flatMap renderUnit =
          [92, 124, 92, 124] ++ t.flatMap renderUnit := by
        rw [hsource, List.flatMap_cons, hbar]
        rfl
      obtain ⟨l, hl⟩ := anchorSource_head (show Anchor.domain ≠ .free by decide)
      rw [hsource', replaceStart_append, replaceStart_of_ne]
      · rfl
      · rintro ⟨v, hv⟩
        change _ = anchorSource .domain ++ _ at hv
        rw [hl] at hv
        cases hv
    · refine ⟨.start, t, rfl, ?_⟩
      have hno : ¬ [92, 124, 92, 124] <+: [92, 124] ++ t.flatMap renderUnit := by
        rintro ⟨v, hv⟩
        apply htwo
        apply (bar_prefix_iff t).mp
        refine ⟨v, ?_⟩
        simpa using hv
      rw [hsource, replaceStart_of_ne hno, replaceStart_append]
      rfl
  · refine ⟨.free, t, rfl, ?_⟩
    have hno := mt (bar_prefix_iff t).mp hone
    have hno' : ¬ [92, 124, 92, 124] <+: t.flatMap renderUnit := by
      rintro ⟨v, hv⟩
      exact hno ⟨[92, 124] ++ v, hv⟩
    rw [replaceStart_of_ne hno', replaceStart_of_ne hno]
    rfl

/-- A bar at the end becomes the end of the source. -/
theorem replaceEnd_bar (anchor : Anchor) (rest : JsString) : ∃ finish core,
    rest = core ++ (if finish then [124] else []) ∧
    replaceEnd (js "\\|") (js "$") (anchorSource anchor ++ rest.flatMap renderUnit) =
      anchorSource anchor ++ core.flatMap renderUnit ++ finishSource finish := by
  rw [js_backslash_bar, js_dollar]
  by_cases hbar : ∃ rest', rest = rest' ++ [124]
  · obtain ⟨core, rfl⟩ := hbar
    refine ⟨true, core, rfl, ?_⟩
    have hrender : renderUnit 124 = [92, 124] := by decide +kernel
    rw [flatMap_concat, hrender, ← List.append_assoc, replaceEnd_of_suffix]
    rfl
  · refine ⟨false, rest, (List.append_nil rest).symm, ?_⟩
    rw [replaceEnd_of_not_suffix (mt (bar_suffix_iff (anchorSource_last anchor).1 rest).mp hbar)]
    exact (List.append_nil _).symm

/-- A star at the front goes, unless there is an anchor in front of it. -/
theorem replaceStart_star (anchor : Anchor) (core : JsString) (finish : Bool) : ∃ lead core',
    core = lead ++ core' ∧ (lead = [] ∨ lead = [42] ∧ anchor = .free) ∧
    replaceStart (js ".*") []
        (anchorSource anchor ++ core.flatMap renderUnit ++ finishSource finish) =
      anchorSource anchor ++ core'.flatMap renderUnit ++ finishSource finish := by
  have hstar : renderUnit 42 = [46, 42] := by decide +kernel
  rw [js_any]
  by_cases hlead : anchor = .free ∧ ∃ core', core = 42 :: core'
  · obtain ⟨rfl, core, rfl⟩ := hlead
    refine ⟨[42], core, rfl, Or.inr ⟨rfl, rfl⟩, ?_⟩
    rw [List.flatMap_cons, hstar, anchorSource, List.nil_append, List.append_assoc,
      replaceStart_append]
    rfl
  · refine ⟨[], core, rfl, Or.inl rfl, replaceStart_of_ne ?_⟩
    rintro ⟨v, hv⟩
    apply hlead
    by_cases hfree : anchor = .free
    · refine ⟨hfree, ?_⟩
      rw [hfree, anchorSource, List.nil_append] at hv
      cases core with
      | nil => cases finish <;> cases hv
      | cons c core =>
        rw [List.flatMap_cons] at hv
        rcases renderUnit_cases c with ⟨rfl, -⟩ | ⟨-, hr⟩ | ⟨hw, hr⟩ | ⟨-, -, -, hr⟩
        · exact ⟨core, rfl⟩
        · obtain ⟨l, hl⟩ := separatorSource_eq
          rw [hr, hl] at hv
          cases hv
        · rw [hr] at hv
          obtain ⟨rfl, -⟩ := List.cons_eq_cons.mp hv
          cases hw
        · rw [hr] at hv
          cases hv
    · obtain ⟨l, hl⟩ := anchorSource_head hfree
      rw [hl] at hv
      cases hv

/-- A star at the end goes, unless the end is that of the address. -/
theorem replaceEnd_star (anchor : Anchor) (core : JsString) (finish : Bool) : ∃ core' tail,
    core = core' ++ tail ∧ (tail = [] ∨ tail = [42] ∧ finish = false) ∧
    replaceEnd (js ".*") []
        (anchorSource anchor ++ core.flatMap renderUnit ++ finishSource finish) =
      anchorSource anchor ++ core'.flatMap renderUnit ++ finishSource finish := by
  have hstar : renderUnit 42 = [46, 42] := by decide +kernel
  rw [js_any]
  by_cases htail : finish = false ∧ ∃ core', core = core' ++ [42]
  · obtain ⟨rfl, core, rfl⟩ := htail
    refine ⟨core, [42], rfl, Or.inr ⟨rfl, rfl⟩, ?_⟩
    rw [flatMap_concat, hstar, finishSource, List.append_nil, ← List.append_assoc,
      replaceEnd_of_suffix]
  · refine ⟨core, [], (List.append_nil core).symm, Or.inl rfl, replaceEnd_of_not_suffix ?_⟩
    rintro ⟨v, hv⟩
    apply htail
    have hlast := congrArg List.getLast? hv
    cases finish with
    | true => simp [finishSource] at hlast
    | false =>
      refine ⟨rfl, ?_⟩
      rw [finishSource, List.append_nil] at hlast
      rcases List.eq_nil_or_concat' core with rfl | ⟨core', c, rfl⟩
      · rw [List.flatMap_nil, List.append_nil] at hlast
        exfalso
        apply (anchorSource_last anchor).2
        rw [← hlast]
        simp
      · rw [flatMap_concat, ← List.append_assoc] at hlast
        rcases renderUnit_cases c with ⟨rfl, -⟩ | ⟨-, hr⟩ | ⟨hw, hr⟩ | ⟨-, hne, -, hr⟩
        · exact ⟨core', rfl⟩
        · obtain ⟨l, hl⟩ := separatorSource_last
          rw [hr, hl] at hlast
          simp at hlast
        · rw [hr] at hlast
          simp only [List.getLast?_append, List.getLast?_cons_cons, List.getLast?_singleton,
            Option.some_or, Option.some.injEq] at hlast
          rw [← hlast] at hw
          cases hw
        · rw [hr] at hlast
          simp only [List.getLast?_append, List.getLast?_cons_cons, List.getLast?_singleton,
            Option.some_or, Option.some.injEq] at hlast
          exact absurd hlast.symm hne

/-- What a rule spells, with the stars at its ends and the anchors taken off. -/
structure Spelled (t : JsString) (anchor : Anchor) (core : JsString) (finish : Bool) : Prop where
  text : ∃ lead tail, t = anchorText anchor ++ (lead ++ (core ++ tail)) ∧
    (lead = [] ∨ lead = [42] ∧ anchor = .free) ∧
    (tail = (if finish then [124] else []) ∨ tail = [42] ∧ finish = false)

theorem regexpSourceOf_eq (src : JsString) : ∃ anchor core finish,
    Spelled (dropEndBehindSeparator (collapseStars src)) anchor core finish ∧
    regexpSourceOf src =
      anchorSource anchor ++ core.flatMap renderUnit ++ finishSource finish := by
  obtain ⟨anchor, rest, htext, hanchor⟩ :=
    replaceStart_anchor (dropEndBehindSeparator (collapseStars src))
  obtain ⟨finish, core, rfl, hfinish⟩ := replaceEnd_bar anchor rest
  obtain ⟨lead, core', rfl, hlead, hstart⟩ := replaceStart_star anchor core finish
  obtain ⟨core, tail, rfl, htail, hend⟩ := replaceEnd_star anchor core' finish
  refine ⟨anchor, core, finish, ⟨lead, tail ++ if finish then [124] else [], ?_, hlead, ?_⟩, ?_⟩
  · rw [htext]
    simp only [List.append_assoc]
  · rcases htail with rfl | ⟨rfl, rfl⟩
    · exact Or.inl rfl
    · exact Or.inr ⟨rfl, rfl⟩
  · rw [← hend, ← hstart, ← hfinish, ← hanchor, ← replaceJs_escape]
    rfl

theorem parseAtoms_skip (u t : JsString) : parseAtoms u.length (u ++ t) = parseAtoms 0 t := by
  induction u with
  | nil => rfl
  | cons c u ih => exact ih

/-- One character of the rule is read as what it stands for. -/
theorem parseAtoms_renderUnit (c : Nat) (t : JsString) :
    parseAtoms 0 (renderUnit c ++ t) =
      (parseAtoms 0 t).map fun p => (atomOf c :: p.1, p.2) := by
  obtain ⟨l, hl⟩ := separatorSource_eq
  have hseparator : ∀ {d : Nat} {v : JsString}, d ≠ 40 →
      separatorSource.isPrefixOf (d :: v) = false := by
    intro d v hd
    rw [hl, List.isPrefixOf_cons_cons, beq_false_of_ne hd.symm, Bool.false_and]
  have hany : ∀ {d : Nat} {v : JsString}, d ≠ 46 → (js ".*").isPrefixOf (d :: v) = false := by
    intro d v hd
    rw [js_any, List.isPrefixOf_cons_cons, beq_false_of_ne hd.symm, Bool.false_and]
  rcases renderUnit_cases c with ⟨rfl, hr⟩ | ⟨rfl, hr⟩ | ⟨hw, hr⟩ | ⟨hw, hstar, hcaret, hr⟩
  · have hprefix : (js ".*").isPrefixOf (46 :: 42 :: t) = true := by
      rw [js_any]
      rfl
    rw [hr, List.cons_append, parseAtoms, if_neg (by rw [hseparator (by decide)]; decide),
      List.cons_append, List.nil_append, if_pos hprefix]
    rfl
  · have hprefix : separatorSource.isPrefixOf (separatorSource ++ t) = true :=
      List.isPrefixOf_iff_prefix.mpr ⟨t, rfl⟩
    rw [hr]
    rw [hl] at hprefix ⊢
    rw [List.cons_append] at hprefix ⊢
    rw [parseAtoms, hl, if_pos hprefix, List.length_cons, Nat.add_sub_cancel, parseAtoms_skip]
    rfl
  · have hne : c ≠ 40 ∧ c ≠ 46 ∧ c ≠ unit '\\' ∧ c ≠ unit '$' ∧ c ≠ unit '*' ∧ c ≠ unit '^' :=
      ⟨isWord_ne hw (by decide), isWord_ne hw (by decide), isWord_ne hw (by decide),
        isWord_ne hw (by decide), isWord_ne hw (by decide), isWord_ne hw (by decide)⟩
    have hatom : atomOf c = .unit c :=
      (if_neg hne.2.2.2.2.1).trans (if_neg hne.2.2.2.2.2)
    rw [hr, List.singleton_append, parseAtoms, if_neg (by rw [hseparator hne.1]; decide),
      if_neg (by rw [hany hne.2.1]; decide), if_neg hne.2.2.1,
      if_neg (fun h => hne.2.2.2.1 h.1), if_pos hw, hatom]
  · have hatom : atomOf c = .unit c := (if_neg hstar).trans (if_neg hcaret)
    have hbackslash : 92 = unit '\\' := rfl
    have hhead : ((c :: t).head?.any fun x => !isWord x) = true := by simp [hw]
    rw [hr, List.cons_append, List.singleton_append, parseAtoms,
      if_neg (by rw [hseparator (by decide)]; decide),
      if_neg (by rw [hany (by decide)]; decide), if_pos hbackslash, if_pos hhead, hatom]
    rfl

theorem parseAtoms_flatMap (core : JsString) (finish : Bool) :
    parseAtoms 0 (core.flatMap renderUnit ++ finishSource finish) =
      some (core.map atomOf, finish) := by
  induction core with
  | nil =>
    cases finish with
    | false => rfl
    | true => decide +kernel
  | cons c core ih =>
    rw [List.flatMap_cons, List.append_assoc, parseAtoms_renderUnit, ih]
    rfl

/-- No character but these stands at the front of a source without an anchor. -/
theorem rendered_head {d : Nat} (hd : isWord d = false ∧ d ∉ [46, 40, 92, 36])
    (core : JsString) (finish : Bool) (l : JsString) :
    ¬ d :: l <+: core.flatMap renderUnit ++ finishSource finish := by
  rintro ⟨v, hv⟩
  cases core with
  | nil =>
    cases finish with
    | true =>
      obtain ⟨rfl, -⟩ := List.cons_eq_cons.mp hv
      exact hd.2 (by decide)
    | false => cases hv
  | cons c core =>
    rw [List.flatMap_cons] at hv
    rcases renderUnit_cases c with ⟨-, hr⟩ | ⟨-, hr⟩ | ⟨hw, hr⟩ | ⟨-, -, -, hr⟩
    · rw [hr] at hv
      obtain ⟨rfl, -⟩ := List.cons_eq_cons.mp hv
      exact hd.2 (by decide)
    · obtain ⟨l', hl⟩ := separatorSource_eq
      rw [hr, hl] at hv
      obtain ⟨rfl, -⟩ := List.cons_eq_cons.mp hv
      exact hd.2 (by decide)
    · rw [hr] at hv
      obtain ⟨rfl, -⟩ := List.cons_eq_cons.mp hv
      rw [hd.1] at hw
      cases hw
    · rw [hr] at hv
      obtain ⟨rfl, -⟩ := List.cons_eq_cons.mp hv
      exact hd.2 (by decide)

/-- The source of a rule is one of those that are read, as the pattern that the rule spells. -/
theorem parsePattern_regexpSourceOf (src : JsString) : ∃ anchor core finish,
    Spelled (dropEndBehindSeparator (collapseStars src)) anchor core finish ∧
    parsePattern (regexpSourceOf src) = some ⟨anchor, core.map atomOf, finish⟩ := by
  obtain ⟨anchor, core, finish, hspelled, hsource⟩ := regexpSourceOf_eq src
  refine ⟨anchor, core, finish, hspelled, ?_⟩
  obtain ⟨l', hdomain, -⟩ := domainSource_eq
  have hatoms := parseAtoms_flatMap core finish
  rw [hsource, List.append_assoc]
  cases anchor with
  | free =>
    have hno := rendered_head (d := 94) (by decide) core finish
    rw [anchorSource, List.nil_append, parsePattern,
      if_neg (fun h => hno (91 :: l') (hdomain ▸ List.isPrefixOf_iff_prefix.mp h)),
      if_neg (fun h => hno [] (js_caret ▸ List.isPrefixOf_iff_prefix.mp h)), hatoms]
    rfl
  | start =>
    have hnot : domainSource.isPrefixOf ([94] ++ (core.flatMap renderUnit ++
        finishSource finish)) = false := by
      rw [Bool.eq_false_iff, ne_eq, List.isPrefixOf_iff_prefix, hdomain,
        List.singleton_append, List.cons_prefix_cons]
      exact fun h => rendered_head (d := 91) (by decide) core finish l' h.2
    have hcaret : (js "^").isPrefixOf ([94] ++ (core.flatMap renderUnit ++
        finishSource finish)) = true := by
      rw [js_caret]
      exact List.isPrefixOf_iff_prefix.mpr ⟨_, rfl⟩
    rw [anchorSource, parsePattern, if_neg (by rw [hnot]; decide), if_pos hcaret,
      List.singleton_append, List.drop_one, List.tail_cons, hatoms]
    rfl
  | domain =>
    have hprefix : domainSource.isPrefixOf (domainSource ++ (core.flatMap renderUnit ++
        finishSource finish)) = true := List.isPrefixOf_iff_prefix.mpr ⟨_, rfl⟩
    rw [anchorSource, parsePattern, if_pos hprefix, List.drop_left, hatoms]
    rfl

end Shadowsocks
