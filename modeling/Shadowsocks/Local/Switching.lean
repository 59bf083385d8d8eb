import Shadowsocks.Local.Tunnel

/-!
Another server while the event loop is running. A connection that is accepted after `set_config`
knows the new configuration only, whatever came before.
-/
namespace Shadowsocks

variable {S : OpenSSL} {g : Globals S} {w w' : World S} {base k : Nat} {e : Event S}

namespace World

/-- Under this configuration, no connection from `base` on has used its contexts before its request
is served. -/
structure Settled (g : Globals S) (base : Nat) (w : World S) : Prop where
  described : Described (fun _ : Pair S => True) w
  config : w.globals.config = g.config
  ready : ∀ k, base ≤ k → (∃ p : Pair S, w.cells k = p.cell k) →
    ∃ p : Pair S, w.cells k = p.cell k ∧ p.Ready g

/-- The loop after `set_config` has set the globals to these. -/
def reconfigured (w : World S) (g : Globals S) (remotePort : UInt16) : World S :=
  { w with globals := g, remotePort := remotePort }

/-- There is no connection yet from the next one on. -/
theorem settled_reconfigured (h : Described (fun _ : Pair S => True) w) (g : Globals S)
    (remotePort : UInt16) : Settled g w.next (w.reconfigured g remotePort) where
  described := ⟨h.past, h.future⟩
  config := rfl
  ready := by
    rintro k hk ⟨p, hp⟩
    exact absurd hk (Nat.not_le_of_lt (h.lt_next hp))

theorem settled_accept (h : Settled g base w) {attempts : List (Attempt S)}
    (hstep : w.step (.accept attempts) = .ok w')
    (hdescribed : Described (fun _ : Pair S => True) w') : Settled g base w' where
  described := hdescribed
  config := by rw [(acceptCb_past h.described hstep).1, h.config]
  ready := by
    rintro k hk ⟨p₀, hp₀⟩
    rcases Nat.lt_or_ge k w.next with hlt | hge
    · have hcell := (acceptCb_past h.described hstep).2.2.2 k hlt
      rw [hcell] at hp₀ ⊢
      exact h.ready k hk ⟨p₀, hp₀⟩
    · rcases acceptCb_new h.described hstep hge with hempty | ⟨-, slot, hslot, hfresh⟩
      · exact absurd hempty (Nat.not_le_of_lt (hdescribed.lt_next hp₀))
      · cases slot with
        | failed => cases congrArg Cell.upstream (hp₀.symm.trans hslot)
        | pair p =>
          obtain ⟨t, rfl⟩ := hfresh
          exact ⟨_, hslot, (Pair.ready_fresh w.globals t).of_config h.config.symm⟩

theorem settled_fire (h : Settled g base w) {x : Watcher} {ans : Answers S}
    (hstep : w.step (.fire x ans) = .ok w')
    (hdescribed : Described (fun _ : Pair S => True) w') : Settled g base w' where
  described := hdescribed
  config := (step_config h.described id hstep).trans h.config
  ready := by
    rintro k hk ⟨p₀, hp₀⟩
    by_cases hx : x.addr = k
    · by_cases hpair : ∃ p : Pair S, w.cells k = p.cell k
      · obtain ⟨p, hp, hready⟩ := h.ready k hk hpair
        obtain ⟨w₁, hstep₁, hcell, -⟩ := step_fire_at hp hx ans
        cases hstep.symm.trans hstep₁
        exact ⟨_, hcell, Pair.ready_onFire _ _ _ _ hready⟩
      · have hidle := step_fire_idle h.described (hx ▸ hpair) ans
        cases hstep.symm.trans hidle
        exact absurd ⟨p₀, hp₀⟩ hpair
    · rw [(step_fire_elsewhere h.described hx hstep).1] at hp₀ ⊢
      exact h.ready k hk ⟨p₀, hp₀⟩

theorem settled_step (h : Settled g base w) (he : ¬ e.IsConfig) :
    ∃ w', w.step e = .ok w' ∧ Settled g base w' := by
  obtain ⟨w', hstep, hdescribed⟩ := step_described (e := e) (fun _ => trivial)
    (fun _ _ _ _ _ _ => trivial) h.described
  refine ⟨w', hstep, ?_⟩
  cases e with
  | accept attempts => exact settled_accept h hstep hdescribed
  | fire x ans => exact settled_fire h hstep hdescribed
  | config password name remotePort => exact absurd trivial he

/-- The other connections do not matter to one that is relaying. -/
theorem settled_relaying_step (hS : S.Lawful) (hg : g.Configured) {stream : CipherStream S}
    (hstream : stream.Usable) {c₀ u₀ : Socket} (hu₀ : u₀.received = [])
    (h : Settled g base w ∧ Relaying k stream c₀ u₀ w) (he : w.Undisturbed k e) :
    ∃ w', w.step e = .ok w' ∧ Settled g base w' ∧ Relaying k stream c₀ u₀ w' := by
  obtain ⟨hsettled, p, hp, hrelays⟩ := h
  have hnoconfig : ¬ e.IsConfig := by
    cases e with
    | config password name remotePort => exact absurd he id
    | _ => exact id
  obtain ⟨w', hstep, hsettled'⟩ := settled_step hsettled hnoconfig
  refine ⟨w', hstep, hsettled', ?_⟩
  rcases step_seen hsettled.described hp hstep with
    ⟨x, ans, rfl, hx, hcell, hglobals⟩ | ⟨-, hcell⟩
  · refine ⟨_, hcell, ?_⟩
    rw [hglobals]
    refine Pair.relays_onFire hS (hg.of_config hsettled.config) hstream hu₀ hrelays _ ?_
    intro hact
    exact he hx (by rwa [isActive_eq (hx ▸ hp)]) _ (by rw [hp]; rfl)
  · exact ⟨p, hcell, hrelays.of_config (step_config hsettled.described hnoconfig hstep)⟩

end World

end Shadowsocks
