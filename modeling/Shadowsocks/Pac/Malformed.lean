import Shadowsocks.Pac.Answering
import Shadowsocks.Pac.Update

/-! Malformed rules among the lines of the list. -/
namespace Shadowsocks

open Raising

/-- The rules of a script that `updatePACFromGFWList` writes. -/
def scriptRules (str2 str3 : Option Text) : List JsString := (filteredLines str2 str3).map utf16

/-- Nothing raises an exception, and the answers are those of the well-formed rules. -/
def Engine.Survives (E : Engine) (rules : List JsString) (queries : List (JsString × JsString)) :
    Prop :=
  ∃ g answers g', E.load rules = .ok g ∧ E.answers g queries = .ok (answers, g') ∧
    (∀ answer ∈ answers, answer = proxy ∨ answer = direct) ∧
    answers = E.remembered (rules.filter E.isWellFormed) queries

variable {E : Engine} {rules : List JsString} {g g' : PacGlobals} {str2 str3 : Option Text}
  {queries : List (JsString × JsString)} {answers : List JsString} {text url host : JsString}

theorem utf16_line {line : Text} (h : ∀ c ∈ line, c ∉ newlineCharacterSet) :
    ∀ c ∈ utf16 line, isLineTerminator c = false := by
  intro x hx
  obtain ⟨c, hc, hx⟩ := List.mem_flatMap.mp hx
  by_cases hsmall : c.toNat < 0x10000
  · rw [if_pos hsmall, List.mem_singleton] at hx
    have hnewline : ∀ y ∈ [10, 13, 0x2028, 0x2029], Char.ofNat y ∈ newlineCharacterSet := by
      decide
    apply Bool.eq_false_of_not_eq_true
    intro hterm
    apply h c hc
    rw [← Char.ofNat_toNat c, ← hx]
    exact hnewline x (of_decide_eq_true hterm)
  · rw [if_neg hsmall] at hx
    have hlarge : 0xd800 ≤ x := by
      rcases List.mem_pair.mp hx with hx | hx <;> omega
    apply Bool.eq_false_of_not_eq_true
    intro hterm
    have hle : ∀ y ∈ [10, 13, 0x2028, 0x2029], y ≤ 0x2029 := by simp
    have := hle x (of_decide_eq_true hterm)
    omega

theorem scriptRules_line (hmem : text ∈ scriptRules str2 str3) :
    ∀ c ∈ text, isLineTerminator c = false := by
  obtain ⟨line, hline, rfl⟩ := List.mem_map.mp hmem
  exact utf16_line (filteredLines_newline hline)

theorem Engine.isWellFormed_of_hits (h : E.hits text url host = true) :
    E.isWellFormed text = true := by
  by_contra hwell
  rw [hits_of_malformed (Bool.eq_false_of_not_eq_true hwell)] at h
  cases h

/-- A scan passes over the malformed rules. -/
theorem Engine.scan_filter (E : Engine) (rules : List JsString) :
    E.scan (rules.filter E.isWellFormed) = E.scan rules := by
  funext query
  refine if_congr (and_congr ?_ ?_) rfl rfl
  · constructor
    · rintro ⟨text, hmem, hboth⟩
      exact ⟨text, List.mem_of_mem_filter hmem, hboth⟩
    · rintro ⟨text, hmem, hboth⟩
      exact ⟨text, List.mem_filter.mpr ⟨hmem, isWellFormed_of_hits hboth.2⟩, hboth⟩
  · constructor
    · intro hall text hmem hkind hhits
      exact hall text (List.mem_filter.mpr ⟨hmem, isWellFormed_of_hits hhits⟩) hkind hhits
    · intro hall text hmem
      exact hall text (List.mem_of_mem_filter hmem)

theorem Engine.mem_answers (h : E.answers g queries = .ok (answers, g')) :
    ∀ answer ∈ answers, answer = proxy ∨ answer = direct := by
  induction queries generalizing g answers with
  | nil =>
    cases h
    exact fun _ h => absurd h List.not_mem_nil
  | cons query queries ih =>
    obtain ⟨answer, g₁, rest, hask, hrest, rfl⟩ := run_cons.mp h
    rw [List.forall_mem_cons]
    refine ⟨?_, ih hrest⟩
    obtain ⟨⟨result, g₂⟩, -, hask⟩ := bind_eq_ok.mp hask
    cases hask
    split
    · exact Or.inl rfl
    · exact Or.inr rfl

/-- The rules survive the queries exactly when no rule meets a malformed one that is alone under its
keyword, and no query asks a filter that raises an exception. -/
theorem Engine.survives_iff (hE : E.Lawful) (str2 str3 : Option Text)
    (queries : List (JsString × JsString)) :
    E.Survives (scriptRules str2 str3) queries ↔
      Along E.addRule E.Addable PacGlobals.new (scriptRules str2 str3) ∧
        ∀ g, E.load (scriptRules str2 str3) = .ok g → Along (next E.ask) E.Quiet g queries := by
  constructor
  · rintro ⟨g, answers, g', hload, hanswers, -⟩
    refine ⟨(load_ok_iff _).mp ⟨g, hload⟩, ?_⟩
    intro g₁ hload₁
    rw [hload] at hload₁
    cases hload₁
    exact (answers_ok_iff (load_spec hload).1).mp ⟨_, hanswers⟩
  · rintro ⟨hadd, hquiet⟩
    obtain ⟨g, hload⟩ := (load_ok_iff _).mpr hadd
    obtain ⟨⟨answers, g'⟩, hanswers⟩ :=
      (answers_ok_iff (load_spec hload).1).mpr (hquiet g hload)
    refine ⟨g, answers, g', hload, hanswers, mem_answers hanswers, ?_⟩
    rw [remembered, scan_filter]
    exact answers_eq hE hload (fun query _ text hmem _ => E.not_hides (scriptRules_line hmem) _)
      hanswers

/-- A malformed rule that is alone is harmless as long as no other one meets it. -/
theorem Engine.survives_iff_alone : Engine.reference.Survives
    (scriptRules (some "a$foo\n||b.com^".toList) none) [(js "http://b.com/", js "b.com")] := by
  have hok : ((Engine.reference.load (scriptRules (some "a$foo\n||b.com^".toList) none)).bind
      fun g => Engine.reference.answers g [(js "http://b.com/", js "b.com")]).isOk = true := by
    decide +kernel
  cases hload : Engine.reference.load (scriptRules (some "a$foo\n||b.com^".toList) none) with
  | error e =>
    rw [hload] at hok
    cases hok
  | ok g =>
    refine (survives_iff lawful_reference _ _ _).mpr ⟨(load_ok_iff _).mp ⟨g, hload⟩, ?_⟩
    intro g₁ hload₁
    rw [hload] at hload₁ hok
    cases hload₁
    refine (answers_ok_iff (load_spec hload).1).mp ?_
    change (Engine.reference.answers g _).isOk = true at hok
    cases hanswers : Engine.reference.answers g [(js "http://b.com/", js "b.com")] with
    | error e =>
      rw [hanswers] at hok
      cases hok
    | ok r => exact ⟨r, rfl⟩

/-- An unknown option takes the whole list away. -/
theorem Engine.not_survives_option :
    ¬ Engine.reference.Survives (scriptRules (some "a$foo\nb".toList) none) [] := by
  rintro ⟨g, answers, g', hload, -⟩
  have hraises : (Engine.reference.load (scriptRules (some "a$foo\nb".toList) none)).isOk =
      false := by
    decide +kernel
  rw [hload] at hraises
  cases hraises

end Shadowsocks
