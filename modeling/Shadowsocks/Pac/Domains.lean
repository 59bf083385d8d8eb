import Shadowsocks.Pac.Deciding

/-! The domains that a rule is restricted to. -/
namespace Shadowsocks

variable {E : Engine} {f f' : RegExpFilter} {text url host source : JsString}

/-- The domains of the option, and whether each is included. -/
def domainEntries (source : JsString) : List (JsString × Bool) :=
  (splitUnit (unit '|') source).filterMap fun domain =>
    match RegExpFilter.withoutTrailingDots domain with
    | [] => none
    | c :: name => some (if c = unit '~' then (name, false) else (c :: name, true))

/-- Whether a domain is included, when it is listed; the last place where it is counts. -/
def listing (source name : JsString) : Option Bool :=
  ((domainEntries source).reverse.find? fun entry => entry.1 == name).map Prod.snd

/-- What is behind the dots of a host, the longest part first. -/
def behindDots : JsString → List JsString
  | [] => []
  | c :: rest => if c = unit '.' then rest :: behindDots rest else behindDots rest

/-- The rule is meant for a host: the longest part of it that is listed is included, or none is
listed and none is included. -/
def Engine.isMeantFor (E : Engine) (source host : JsString) : Bool :=
  let host := E.toUpperCase (RegExpFilter.withoutTrailingDots host)
  match (host :: behindDots host).findSome? fun name =>
      if name = [] then none else listing source name with
  | some included => included
  | none => !(domainEntries source).any fun entry => entry.2

namespace RegExpFilter

/-- What a filter is after some queries. -/
inductive After (E : Engine) (f : RegExpFilter) : RegExpFilter → Prop
  | new : After E f f
  | asked {f' f'' : RegExpFilter} {location docDomain : JsString} {hit : Bool} :
      After E f f' → f'.matchesLocation E location docDomain = .ok (hit, f'') → After E f f''

/-- Whenever it is asked, the filter matches the address on the hosts that it is meant for. -/
def Restricted (E : Engine) (f : RegExpFilter) (source url host : JsString) : Prop :=
  ∀ f', f.After E f' → ∃ f'', f'.matchesLocation E url host = .ok (E.isMeantFor source host, f'')

theorem alike_of_after (hf : f.domains = none) (h : f.After E f') : f.Alike E f' := by
  induction h with
  | new => exact alike_refl hf
  | asked _ hasked ih =>
    rename_i f₁ f₂ location docDomain hit _
    obtain ⟨f₃, hspec, halike⟩ := matchesLocation_spec (E := E) ih.domains location docDomain
    rw [hspec] at hasked
    cases hdecides : f₁.decides E location with
    | error e =>
      rw [hdecides] at hasked
      cases hasked
    | ok hit' =>
      rw [hdecides] at hasked
      cases hasked
      exact ih.trans halike

/-- The domains are never looked at: without a site key the filter matches on every host, and
with one on none, unless listing them raises. -/
theorem restricted_iff_decides (hf : f.domains = none) :
    f.Restricted E source url host ↔ f.decides E url = .ok (E.isMeantFor source host) := by
  constructor
  · intro h
    obtain ⟨f'', hlocation⟩ := h f .new
    obtain ⟨f₁, hspec, -⟩ := matchesLocation_spec (E := E) hf url host
    rw [hspec] at hlocation
    cases hdecides : f.decides E url with
    | error e =>
      rw [hdecides] at hlocation
      cases hlocation
    | ok hit =>
      rw [hdecides] at hlocation
      cases hlocation
      rfl
  · intro h f' hafter
    have halike := alike_of_after hf hafter
    obtain ⟨f₁, hspec, -⟩ := matchesLocation_spec (E := E) halike.domains url host
    refine ⟨f₁, ?_⟩
    rw [hspec, halike.decides, h]
    rfl

end RegExpFilter

/-- A filter with domains keeps to them exactly on the hosts that it is meant for, if it has no
site key and not only empty names are listed, or else on those that it is not meant for. -/
theorem Engine.restricted_iff (E : Engine) (text : JsString)
    (h : (E.newFilter text).active = some f) (hsource : f.domainSource = some source)
    (hurl : f.expression E url = true) (host : JsString) :
    f.Restricted E source url host ↔
      if f.keyed then E.isMeantFor source host = false
      else RegExpFilter.namesNothing source = false ∧ E.isMeantFor source host = true := by
  rw [RegExpFilter.restricted_iff_decides (E.domains_newFilter h), RegExpFilter.decides, hurl,
    RegExpFilter.readable, hsource, Option.all_some]
  cases f.keyed with
  | true =>
    rw [if_pos rfl]
    constructor
    · intro heq
      cases hmeant : E.isMeantFor source host with
      | true =>
        rw [hmeant] at heq
        cases heq
      | false => rfl
    · intro hmeant
      rw [hmeant]
      rfl
  | false =>
    rw [if_neg Bool.false_ne_true]
    cases hnames : RegExpFilter.namesNothing source with
    | true =>
      constructor
      · intro heq
        cases heq
      · intro hboth
        cases hboth.1
    | false =>
      constructor
      · intro heq
        have hmeant : E.isMeantFor source host = true := (Except.ok.inj heq).symm
        exact ⟨rfl, hmeant⟩
      · intro hboth
        rw [hboth.2]
        rfl

/-- On the host that it names, a rule keeps to its domain. -/
theorem Engine.restricted_iff_named : ∃ f,
    (Engine.reference.newFilter (js "||a.com$domain=b.com|~x.b.com")).active = some f ∧
      f.domainSource = some (js "B.COM|~X.B.COM") ∧
      f.expression .reference (js "http://a.com/") = true ∧
      f.Restricted .reference (js "B.COM|~X.B.COM") (js "http://a.com/") (js "www.b.com.") := by
  have hfilter : (Engine.reference.newFilter (js "||a.com$domain=b.com|~x.b.com")).active.map
      (fun f => (f.domainSource, f.expression .reference (js "http://a.com/"), f.keyed)) =
        some (some (js "B.COM|~X.B.COM"), true, false) := by
    decide +kernel
  obtain ⟨f, hactive, hf⟩ := Option.map_eq_some_iff.mp hfilter
  obtain ⟨hsource, hf⟩ := Prod.mk.inj hf
  obtain ⟨hurl, hkeyed⟩ := Prod.mk.inj hf
  refine ⟨f, hactive, hsource, hurl, ?_⟩
  rw [Engine.reference.restricted_iff _ hactive hsource hurl, hkeyed, if_neg Bool.false_ne_true]
  exact ⟨by decide +kernel, by decide +kernel⟩

/-- The rule is for one site, and matches on another. -/
theorem Engine.not_restricted_other : ∃ f,
    (Engine.reference.newFilter (js "||a.com$domain=b.com")).active = some f ∧
      f.domainSource = some (js "B.COM") ∧ f.expression .reference (js "http://a.com/") = true ∧
      ¬ f.Restricted .reference (js "B.COM") (js "http://a.com/") (js "c.com") := by
  have hfilter : (Engine.reference.newFilter (js "||a.com$domain=b.com")).active.map
      (fun f => (f.domainSource, f.expression .reference (js "http://a.com/"))) =
        some (some (js "B.COM"), true) := by
    decide +kernel
  obtain ⟨f, hactive, hf⟩ := Option.map_eq_some_iff.mp hfilter
  obtain ⟨hsource, hurl⟩ := Prod.mk.inj hf
  have hhits : Engine.reference.hits (js "||a.com$domain=b.com") (js "http://a.com/")
      (js "c.com") = true := by
    decide +kernel
  refine ⟨f, hactive, hsource, hurl, ?_⟩
  intro hrestricted
  have hdecides := (RegExpFilter.restricted_iff_decides
    (Engine.reference.domains_newFilter hactive)).mp hrestricted
  rw [(hits_iff hactive _ _).mp hhits] at hdecides
  have hmeant : Engine.reference.isMeantFor (js "B.COM") (js "c.com") = false := by decide +kernel
  rw [hmeant] at hdecides
  cases hdecides

end Shadowsocks
