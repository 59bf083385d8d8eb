import Shadowsocks.Local.Switching
import Shadowsocks.Settings.Assertions

/-!
The whole program: its settings, the process, and the event loop that `runProxy` starts in it. The
loop and `set_config` share the static variables of local.m and encrypt.c.
-/
namespace Shadowsocks

variable {F : Foundation} {S : OpenSSL} {g : Globals S} {base k : Nat} {e : Event S}
  {r r' : LocalConfig S} {server : ServerText}

/-- `atoi`: white space, a sign, and digits; out of range the nearest `long`. -/
def atoi (text : Text) : Int :=
  (integerValue (text.dropWhile fun c => c == ' ' || ('\t' ≤ c && c ≤ '\r'))).toInt

/-- `(unsigned short) atoi(_remote_port)` -/
def LocalConfig.port (r : LocalConfig S) : UInt16 := UInt16.ofInt (atoi r.remotePort)

structure Program (S : OpenSSL) where
  app : App S
  /-- `none` until `local_main` runs. -/
  loop : Option (World S)

inductive Move (S : OpenSSL)
  | act (act : Act)
  /-- `runProxy` is called every other second. -/
  | runProxy
  | event (e : Event S)

namespace Program

variable (v : Program S)

/-- A new process has no loop yet, and one that has ended has none. -/
def perform (F : Foundation) (act : Act) : Program S :=
  let app := v.app.act F act
  match act, app.process with
  | .operation .launch, _ => ⟨app, none⟩
  | _, none => ⟨app, none⟩
  | _, some r => ⟨app, v.loop.map fun w => w.reconfigured r.globals r.port⟩

/-- `local_main` does not come back. -/
def runProxy : Program S :=
  match v.app.process, v.loop with
  | some r, none =>
    if v.app.defaults.settingsAreNotComplete then v
    else { v with loop := some (.start r.globals r.port) }
  | _, _ => v

/-- The event that calls `set_config` is an act. -/
def turn (e : Event S) : Program S :=
  match e, v.app.process, v.loop with
  | .config .., _, _ => v
  | e, some r, some w =>
    match w.step e with
    | .ok w => ⟨⟨v.app.defaults, some { r with globals := w.globals }⟩, some w⟩
    | .error _ => ⟨⟨v.app.defaults, none⟩, none⟩
  | _, _, _ => v

def step (F : Foundation) (v : Program S) : Move S → Program S
  | .act act => v.perform F act
  | .runProxy => v.runProxy
  | .event e => v.turn e

end Program

/-- The act ends in `reloadConfig`: a choice on the settings screen of iOS does not, nor does a URL
that names no server. -/
def Act.Reads (F : Foundation) : Act → Prop
  | .operation (.openSSURL url) => ∃ server, F.Names url server
  | .operation _ => True
  | .done .. => True
  | .chooseMethod _ => False
  | .changePublicServer _ => False

def Move.Reads (F : Foundation) : Move S → Prop
  | .act a => a.Reads F
  | _ => False

theorem App.process_left {result : Defaults × Except Crash (LocalConfig S)}
    (h : (App.left result).process = some r) : result.2 = .ok r := by
  obtain ⟨d, crash | r'⟩ := result
  · cases h
  · cases h
    rfl

theorem App.act_openSSURL (F : Foundation) (d : Defaults) (r : LocalConfig S) (url : NSURL) :
    App.act F ⟨d, some r⟩ (.operation (.openSSURL url)) =
      .left ((F.openSSURL url d r).1, (F.openSSURL url d r).2.map Prod.snd) := rfl

/-- What runs after such an act has been read from the settings that it leaves. -/
theorem App.process_of_reads {a : App S} {act : Act} (hreads : act.Reads F)
    (h : (a.act F act).process = some r') :
    ∃ r, reloadConfig (a.act F act).defaults r = .ok r' := by
  obtain ⟨d, process⟩ := a
  cases process with
  | none =>
    cases act with
    | operation operation =>
      cases operation with
      | launch => exact ⟨_, process_left h⟩
      | _ => cases h
    | _ => cases h
  | some r =>
    cases act with
    | operation operation =>
      cases operation with
      | launch => exact ⟨_, process_left h⟩
      | openSSURL url =>
        obtain ⟨server, hnames⟩ := hreads
        rw [act_openSSURL, Foundation.openSSURL_of_names hnames] at h ⊢
        refine ⟨r, (reloadConfig_storeServer d server r).trans ?_⟩
        by_cases hsave : server.Saveable
        · rw [if_pos hsave] at h ⊢
          exact process_left h
        · rw [if_neg hsave] at h
          cases h
      | chooseServer tag =>
        obtain ⟨d', hsave, -⟩ := saveConfiguration_cases (choice tag d) d r
        have hact : App.act F ⟨d, some r⟩ (.operation (.chooseServer tag)) =
            .left (d', reloadConfig d' r) := congrArg App.left hsave
        rw [hact] at h ⊢
        exact ⟨r, process_left h⟩
      | ok configuration =>
        obtain ⟨d', hsave, -⟩ := saveConfiguration_cases configuration d r
        have hact : App.act F ⟨d, some r⟩ (.operation (.ok configuration)) =
            .left (saveSettings configuration d r) := rfl
        rw [hact] at h ⊢
        rw [saveSettings, hsave] at h ⊢
        cases hreload : reloadConfig d' r with
        | error crash =>
          rw [hreload] at h
          cases h
        | ok r₁ =>
          rw [hreload] at h
          exact ⟨r₁, process_left h⟩
    | done ip port password => exact ⟨r, process_left h⟩
    | chooseMethod row => cases hreads
    | changePublicServer use => cases hreads

/-- Another act leaves running what runs. -/
theorem App.process_of_not_reads {a : App S} {act : Act} (hreads : ¬ act.Reads F) :
    (a.act F act).process = a.process := by
  obtain ⟨d, process⟩ := a
  cases process with
  | none =>
    cases act with
    | operation operation =>
      cases operation with
      | launch => exact absurd trivial hreads
      | _ => rfl
    | _ => rfl
  | some r =>
    cases act with
    | operation operation =>
      cases operation with
      | openSSURL url =>
        rcases F.openSSURL_cases url d r with ⟨-, hopen⟩ | ⟨server, hnames, -⟩
        · rw [act_openSSURL, hopen]
          rfl
        · exact absurd ⟨server, hnames⟩ hreads
      | _ => exact absurd trivial hreads
    | done ip port password => exact absurd trivial hreads
    | chooseMethod row => rfl
    | changePublicServer use => rfl

/-- The settings of a server of one's own, once they have been read. -/
theorem set_of_reloadConfig {d : Defaults} (hown : d.isUsingPublicServer = false)
    (hserver : d.arguments = some server) (h : reloadConfig d r = .ok r') : r' = r.set server := by
  rw [reloadConfig_own hown, hserver] at h
  dsimp only at h
  split_ifs at h
  cases h
  rfl

namespace World

variable {w : World S}

theorem settled_start (h : r.globals.config = g.config) (base : Nat) (remotePort : UInt16) :
    Settled g base (start r.globals remotePort) where
  described := described_start r.globals remotePort
  config := h
  ready := by
    rintro k - ⟨p, hp⟩
    have hdescribed : Described (fun _ : Pair S => True) (start r.globals remotePort) :=
      described_start r.globals remotePort
    exact absurd (hdescribed.lt_next hp) (Nat.not_lt_zero k)

theorem Settled.reconfigured (h : Settled g base w) (hr : r.globals.config = g.config)
    (remotePort : UInt16) : Settled g base (w.reconfigured r.globals remotePort) where
  described := ⟨h.described.past, h.described.future⟩
  config := hr
  ready := h.ready

end World

namespace Program

open World

variable {v v' : Program S} {w w' : World S} {move : Move S}

/-- The loop is that of the process, and has made its connections itself. -/
structure Sane (v : Program S) : Prop where
  described : ∀ w, v.loop = some w → Described (fun _ : Pair S => True) w
  shared : ∀ w, v.loop = some w → ∃ r, v.app.process = some r ∧ w.globals = r.globals

theorem sane_of_none (h : v.loop = none) : v.Sane := by
  constructor
  · intro w hw
    rw [h] at hw
    cases hw
  · intro w hw
    rw [h] at hw
    cases hw

/-- An act ends the loop or sets its variables to those of the process. -/
theorem perform_cases (F : Foundation) (v : Program S) (act : Act) :
    (v.perform F act).app = v.app.act F act ∧
      ((v.perform F act).loop = none ∨ ∃ w r, v.loop = some w ∧
        (v.app.act F act).process = some r ∧
        (v.perform F act).loop = some (w.reconfigured r.globals r.port)) := by
  simp only [perform]
  split
  · exact ⟨rfl, Or.inl rfl⟩
  · exact ⟨rfl, Or.inl rfl⟩
  · rename_i r _ hprocess
    cases hloop : v.loop with
    | none => exact ⟨rfl, Or.inl rfl⟩
    | some w => exact ⟨rfl, Or.inr ⟨w, r, rfl, hprocess, rfl⟩⟩

theorem perform_of_not_reads {act : Act} (hreads : ¬ act.Reads F)
    (hr : v.app.process = some r) (hw : v.loop = some w) :
    v.perform F act = ⟨v.app.act F act, some (w.reconfigured r.globals r.port)⟩ := by
  have hprocess := App.process_of_not_reads (a := v.app) hreads
  rw [hr] at hprocess
  simp only [perform, hprocess, hw, Option.map_some]
  split
  · exact absurd trivial hreads
  · rename_i hnone
    cases hnone
  · rename_i hsome
    cases hsome
    rfl

theorem runProxy_cases (v : Program S) :
    v.runProxy = v ∨ ∃ r, v.loop = none ∧ v.app.process = some r ∧
      v.runProxy = { v with loop := some (.start r.globals r.port) } := by
  simp only [runProxy]
  split
  · rename_i r hr hloop
    split_ifs
    · exact Or.inl rfl
    · exact Or.inr ⟨r, hloop, hr, rfl⟩
  · exact Or.inl rfl

theorem turn_eq {r : LocalConfig S} (hr : v.app.process = some r) (hw : v.loop = some w)
    (he : ¬ e.IsConfig) (hstep : w.step e = .ok w') :
    v.turn e = ⟨⟨v.app.defaults, some { r with globals := w'.globals }⟩, some w'⟩ := by
  cases e with
  | config password name remotePort => exact absurd trivial he
  | accept attempts => simp only [turn, hr, hw, hstep]
  | fire x ans => simp only [turn, hr, hw, hstep]

/-- An event is one of the loop, which goes on. -/
theorem turn_cases (h : v.Sane) (e : Event S) :
    v.turn e = v ∨ ∃ (w : World S) (r : LocalConfig S) (w' : World S), v.loop = some w ∧
      v.app.process = some r ∧ ¬ e.IsConfig ∧ w.step e = .ok w' ∧
      Described (fun _ : Pair S => True) w' ∧
      v.turn e = ⟨⟨v.app.defaults, some { r with globals := w'.globals }⟩, some w'⟩ := by
  cases hloop : v.loop with
  | none =>
    left
    cases e <;> cases hprocess : v.app.process <;> simp only [turn, hloop, hprocess]
  | some w =>
    obtain ⟨r, hr, -⟩ := h.shared w hloop
    by_cases he : e.IsConfig
    · left
      cases e with
      | config password name remotePort => rfl
      | accept attempts => exact absurd he id
      | fire x ans => exact absurd he id
    · obtain ⟨w', hstep, hdescribed⟩ := step_described (e := e) (fun _ => trivial)
        (fun _ _ _ _ _ _ => trivial) (h.described w hloop)
      exact Or.inr ⟨w, r, w', rfl, hr, he, hstep, hdescribed, turn_eq hr hloop he hstep⟩

/-- Between the acts the program is its loop. -/
theorem after_events (F : Foundation) {es : List (Event S)} (hes : ∀ e ∈ es, ¬ e.IsConfig)
    (hrun : w.run es = .ok w') (d : Defaults) (r : LocalConfig S) (hr : r.globals = w.globals) :
    Run.after (step F) ⟨⟨d, some r⟩, some w⟩ (es.map .event) =
      ⟨⟨d, some { r with globals := w'.globals }⟩, some w'⟩ := by
  induction es generalizing w r with
  | nil =>
    cases hrun
    rw [← hr]
    rfl
  | cons e es ih =>
    cases hstep : w.step e with
    | error fault => simp [run, hstep, bind, Except.bind] at hrun
    | ok w₁ =>
      rw [run_cons hstep] at hrun
      have hturn := turn_eq (v := ⟨⟨d, some r⟩, some w⟩) rfl rfl
        (hes e (List.mem_cons_self ..)) hstep
      rw [List.map_cons, Run.after_cons, step, hturn]
      exact ih (fun e' he' => hes e' (List.mem_cons_of_mem e he')) hrun _ rfl

theorem sane_step (h : v.Sane) (move : Move S) : (v.step F move).Sane := by
  cases move with
  | act act =>
    obtain ⟨happ, hnone | ⟨w, r, hw, hr, hloop⟩⟩ := perform_cases F v act
    · exact sane_of_none hnone
    · have hdescribed := h.described w hw
      constructor
      · intro w' hw'
        cases hloop.symm.trans hw'
        exact ⟨hdescribed.past, hdescribed.future⟩
      · intro w' hw'
        cases hloop.symm.trans hw'
        exact ⟨r, (congrArg App.process happ).trans hr, rfl⟩
  | runProxy =>
    rcases runProxy_cases v with hsame | ⟨r, -, hr, hstart⟩
    · simp only [step, hsame]
      exact h
    · simp only [step, hstart]
      constructor
      · rintro w' ⟨⟩
        exact described_start r.globals r.port
      · rintro w' ⟨⟩
        exact ⟨r, hr, rfl⟩
  | event e =>
    rcases turn_cases h e with hsame | ⟨w, r, w', -, -, -, -, hdescribed, hturn⟩
    · simp only [step, hsame]
      exact h
    · simp only [step, hturn]
      constructor
      · rintro w' ⟨⟩
        exact hdescribed
      · rintro w' ⟨⟩
        exact ⟨_, rfl, rfl⟩

/-- What `accept_cb` asks `getaddrinfo` for is the address of the server. -/
def Dials (v : Program S) (server : ServerText) : Prop :=
  ∀ r, v.app.process = some r → r.server = cString server.ip ∧ r.remotePort = cString server.port

/-- The process runs the server under this configuration, and its connections from `base` on have
known no other. -/
structure Serves (server : ServerText) (g : Globals S) (base : Nat) (v : Program S) : Prop where
  sane : v.Sane
  dials : v.Dials server
  config : ∀ r, v.app.process = some r → r.globals.config = g.config
  settled : ∀ w, v.loop = some w → Settled g base w

/-- The settings that an act has read are in force for all connections to come. -/
theorem serves_perform (h : v.Sane) {act : Act} (hreads : act.Reads F)
    (hown : (v.perform F act).app.defaults.isUsingPublicServer = false)
    (hserver : (v.perform F act).app.defaults.arguments = some server) :
    ∃ old, Serves server (configEncryption old (utf8 (cString server.password))
      (String.ofList (cString server.method))) ((v.perform F act).loop.elim 0 World.next)
      (v.perform F act) := by
  have hsane := sane_step (F := F) h (.act act)
  obtain ⟨happ, hloop⟩ := perform_cases F v act
  cases hprocess : (v.app.act F act).process with
  | none =>
    have hnone : (v.perform F act).loop = none := by
      rcases hloop with hnone | ⟨w, r, -, hr, -⟩
      · exact hnone
      · rw [hprocess] at hr
        cases hr
    refine ⟨.zeroed S, hsane, ?_, ?_, ?_⟩
    · intro r hr
      rw [happ, hprocess] at hr
      cases hr
    · intro r hr
      rw [happ, hprocess] at hr
      cases hr
    · intro w hw
      rw [hnone] at hw
      cases hw
  | some r' =>
    obtain ⟨r, hreload⟩ := App.process_of_reads hreads hprocess
    rw [happ] at hown hserver
    have hset := set_of_reloadConfig hown hserver hreload
    have hglobals : r'.globals = configEncryption r.globals (utf8 (cString server.password))
        (String.ofList (cString server.method)) := by rw [hset]; rfl
    refine ⟨r.globals, hsane, ?_, ?_, ?_⟩
    · intro r₁ hr₁
      rw [happ, hprocess] at hr₁
      cases hr₁
      rw [hset]
      exact ⟨rfl, rfl⟩
    · intro r₁ hr₁
      rw [happ, hprocess] at hr₁
      cases hr₁
      rw [hglobals]
    · intro w' hw'
      rcases hloop with hnone | ⟨w, r₁, hw, hr₁, hsome⟩
      · rw [hnone] at hw'
        cases hw'
      · rw [hprocess] at hr₁
        cases hr₁
        rw [hw'] at hsome
        cases hsome
        rw [hw', Option.elim_some, ← hglobals]
        exact settled_reconfigured (h.described w hw) r'.globals r'.port

theorem serves_step (h : Serves server g base v) (hreads : ¬ move.Reads F) :
    Serves server g base (v.step F move) := by
  have hsane := sane_step (F := F) h.sane move
  cases move with
  | act act =>
    obtain ⟨happ, hloop⟩ := perform_cases F v act
    have hprocess := App.process_of_not_reads (a := v.app) hreads
    refine ⟨hsane, ?_, ?_, ?_⟩
    · intro r hr
      simp only [step, happ, hprocess] at hr
      exact h.dials r hr
    · intro r hr
      simp only [step, happ, hprocess] at hr
      exact h.config r hr
    · intro w' hw'
      rcases hloop with hnone | ⟨w, r, hw, hr, hsome⟩
      · cases hnone.symm.trans hw'
      · cases hsome.symm.trans hw'
        rw [hprocess] at hr
        exact (h.settled w hw).reconfigured (h.config r hr) r.port
  | runProxy =>
    rcases runProxy_cases v with hsame | ⟨r, -, hr, hstart⟩
    · simp only [step, hsame]
      exact h
    · simp only [step, hstart] at hsane ⊢
      refine ⟨hsane, h.dials, h.config, ?_⟩
      rintro w' ⟨⟩
      exact settled_start (h.config r hr) base r.port
  | event e =>
    rcases turn_cases h.sane e with hsame | ⟨w, r, w', hw, hr, hconfig, hstep, -, hturn⟩
    · simp only [step, hsame]
      exact h
    · obtain ⟨w₁, hstep₁, hsettled⟩ := settled_step (h.settled w hw) hconfig
      cases hstep.symm.trans hstep₁
      simp only [step, hturn] at hsane ⊢
      refine ⟨hsane, ?_, ?_, ?_⟩
      · rintro r' ⟨⟩
        exact h.dials r hr
      · rintro r' ⟨⟩
        exact hsettled.config
      · rintro w₂ ⟨⟩
        exact hsettled

/-- Nothing is read, and no event disturbs the connection `k`. -/
def Undisturbed (F : Foundation) (k : Nat) (v : Program S) : Move S → Prop
  | .act a => ¬ a.Reads F
  | .runProxy => True
  | .event e => ∀ w, v.loop = some w → World.Undisturbed k w e

theorem Undisturbed.not_reads (h : Undisturbed F k v move) : ¬ move.Reads F := by
  cases move with
  | act act => exact h
  | runProxy => exact id
  | event e => exact id

/-- A connection that is relaying goes on. -/
theorem relaying_step (hS : S.Lawful) (hg : g.Configured) {stream : CipherStream S}
    (hstream : stream.Usable) {c₀ u₀ : Socket} (hu₀ : u₀.received = [])
    (h : Serves server g base v ∧ ∃ w, v.loop = some w ∧ Relaying k stream c₀ u₀ w)
    (hquiet : Undisturbed F k v move) :
    Serves server g base (v.step F move) ∧
      ∃ w, (v.step F move).loop = some w ∧ Relaying k stream c₀ u₀ w := by
  obtain ⟨hserves, w, hw, hrelaying⟩ := h
  refine ⟨serves_step hserves hquiet.not_reads, ?_⟩
  obtain ⟨r, hr, hshared⟩ := hserves.sane.shared w hw
  cases move with
  | act act =>
    refine ⟨w.reconfigured r.globals r.port, ?_, ?_⟩
    · simp only [step, perform_of_not_reads hquiet hr hw]
    · obtain ⟨p, hp, hrelays⟩ := hrelaying
      exact ⟨p, hp, hrelays.of_config (congrArg Globals.config hshared.symm)⟩
  | runProxy =>
    refine ⟨w, ?_, hrelaying⟩
    rcases runProxy_cases v with hsame | ⟨r, hnone, -⟩
    · simp only [step, hsame, hw]
    · rw [hw] at hnone
      cases hnone
  | event e =>
    obtain ⟨w', hstep, -, hrelaying'⟩ := settled_relaying_step hS hg hstream hu₀
      ⟨hserves.settled w hw, hrelaying⟩ (hquiet w hw)
    rcases turn_cases hserves.sane e with hsame | ⟨w₁, r₁, w₂, hw₁, -, -, hstep₁, -, hturn⟩
    · refine ⟨w, ?_, hrelaying⟩
      simp only [step, hsame, hw]
    · cases hw.symm.trans hw₁
      cases hstep.symm.trans hstep₁
      refine ⟨w', ?_, hrelaying'⟩
      simp only [step, hturn]

/-- From any settings and through any acts, launches, ends of the process and events: once an act
has read the settings of a server of one's own, every connection that is accepted from then on, and
whose request is served before settings are read again, is a tunnel to that server. -/
theorem run_serves (hS : S.Lawful) {v₀ : Program S} (hfirst : v₀.loop = none)
    (before : List (Move S)) {act : Act} (hreads : act.Reads F)
    (hrun : Run.after (step F) v₀ (before ++ [.act act]) = v)
    (hown : v.app.defaults.isUsingPublicServer = false)
    (hserver : v.app.defaults.arguments = some server)
    (hname : Supported S (String.ofList (cString server.method))) (old' : Globals S)
    (mem' : EncryptionCtx S) {between later : List (Move S)}
    (hbetween : ∀ move ∈ between, ¬ move.Reads F)
    (hw : (Run.after (step F) v between).loop = some w)
    (hw' : (Run.after (step F) v (between ++ [.event e])).loop = some w')
    (hk : v.loop.elim 0 World.next ≤ k) (hbefore : w.stageOf k ≠ some .relay)
    (hafter : w'.stageOf k = some .relay)
    (hlater : Run.Along (step F) (Undisturbed F k)
      (Run.after (step F) v (between ++ [.event e])) later) :
    (∀ part, part <+: between → (Run.after (step F) v part).Dials server) ∧
      ∃ w'' header, (Run.after (step F) v (between ++ .event e :: later)).loop = some w'' ∧
        w.Requests k e header ∧
        Tunnels (openSession old' (utf8 (cString server.password))
          (String.ofList (cString server.method)) mem') k header w' w'' := by
  have hsane := Run.always (I := Sane) (fun _ move h => sane_step (F := F) h move)
    (sane_of_none hfirst) before
  have hperform : (Run.after (step F) v₀ before).perform F act = v := by
    rw [← hrun, Run.after_append]
    rfl
  rw [← hperform] at hown hserver
  obtain ⟨old, hserves⟩ := serves_perform hsane hreads hown hserver
  rw [hperform] at hserves
  have hg := configured_configEncryption hS hname old (utf8 (cString server.password))
  generalize hconf : configEncryption old (utf8 (cString server.password))
    (String.ofList (cString server.method)) = g at hserves hg
  -- up to the event that serves the request
  have hpart : ∀ part, part <+: between →
      Serves server g (v.loop.elim 0 World.next) (Run.after (step F) v part) := by
    intro part hearlier
    refine Run.invariant (fun _ _ h hreads => serves_step h hreads) hserves
      (Run.along_of_forall fun move hmem _ => ?_)
    exact hbetween move (hearlier.subset hmem)
  refine ⟨fun part hearlier => (hpart part hearlier).dials, ?_⟩
  have hserves₁ := hpart between (List.prefix_refl between)
  rw [Run.after_append] at hw' hlater
  rw [Run.after_append, Run.after_cons]
  rw [Run.after_cons, Run.after_nil] at hw' hlater
  generalize Run.after (step F) v between = v₁ at hw hw' hlater hserves₁ ⊢
  have hsettled := hserves₁.settled w hw
  have hstep : w.step e = .ok w' := by
    rcases turn_cases hserves₁.sane e with hsame | ⟨w₁, r, w₂, hw₁, -, -, hstep, -, hturn⟩
    · rw [step, hsame, hw] at hw'
      cases hw'
      exact absurd hafter hbefore
    · rw [step, hturn] at hw'
      cases hw.symm.trans hw₁
      cases hw'
      exact hstep
  obtain ⟨iv, header, c₀, u₀, hreq, hheader, hiv, hc₀, hu₀, hsent, hnone, hrelaying⟩ :=
    relaying_of_served hS hg hsettled.config hsettled.described (hsettled.ready k hk) hstep hbefore
      hafter
  -- and from then on
  have hstream := (CipherStream.chunkable_push hS).closed header (usable_start hS hg true hiv)
  obtain ⟨hserves₃, w₃, hw₃, hrelaying₃⟩ := Run.invariant
    (I := fun v => Serves server g _ v ∧
      ∃ w, v.loop = some w ∧ Relaying k ((CipherStream.start g true iv).push header).1 c₀ u₀ w)
    (fun _ _ h hquiet => relaying_step hS hg hstream hnone h hquiet)
    ⟨serves_step hserves₁ (F := F) id, w', hw', hrelaying⟩ hlater
  exact ⟨w₃, header, hw₃, hreq, tunnels_of_relaying hS hname old old' mem' (congrArg _ hconf.symm)
    hiv hheader hc₀ hsent hnone (hserves₃.settled w₃ hw₃).config hrelaying₃⟩

theorem perform_openSSURL {url : NSURL} (hnames : F.Names url server) (hsave : server.Saveable)
    (d : Defaults) (r : LocalConfig S) :
    perform ⟨⟨d, some r⟩, none⟩ F (.operation (.openSSURL url)) =
      ⟨⟨d.storeServer server, some (r.set server)⟩, none⟩ := by
  have hact : App.act F ⟨d, some r⟩ (.operation (.openSSURL url)) =
      ⟨d.storeServer server, some (r.set server)⟩ := by
    rw [App.act_openSSURL, Foundation.openSSURL_of_names hnames, if_pos hsave]
    rfl
  simp only [perform, hact, Option.map_none]

/-- The user opens a URL while the settings are not complete, and later chooses a method that is not
read any more. -/
theorem run_serves_salsa20 :
    let server : ServerText := ⟨"salsa20".toList, "k".toList, "10.0.0.1".toList, "8388".toList⟩
    let url : NSURL := ⟨"ss://salsa20:k@10.0.0.1:8388".toList, some "10.0.0.1".toList⟩
    let v₀ : Program Reference.openssl :=
      ⟨⟨{ Defaults.empty with usePublicServer := some false }, none⟩, none⟩
    let v := Run.after (step .reference) v₀
      ([.act (.operation .launch), .runProxy] ++ [.act (.operation (.openSSURL url))])
    let between : List (Move Reference.openssl) := .runProxy :: (opening _ 0).map .event
    let payload : Answers Reference.openssl := trickles ⟨[7, 8], by decide, by decide⟩
    let answer : Answers Reference.openssl :=
      trickles ⟨List.replicate 18 9, by decide, by decide⟩
    let later : List (Move Reference.openssl) := [.act (.chooseMethod 0),
      .event (.fire (.serverRecv 0) payload), .event (.fire (.remoteRecv 0) answer)]
    ∃ w w', (Run.after (step .reference) v between).loop = some w ∧
      (Run.after (step .reference) v (between ++ [.event (asking _ 0)])).loop = some w' ∧
      (∀ part, part <+: between → (Run.after (step .reference) v part).Dials server) ∧
      ∃ w'' header,
        (Run.after (step .reference) v (between ++ .event (asking _ 0) :: later)).loop = some w'' ∧
        w.Requests 0 (asking _ 0) header ∧
        Tunnels (openSession (.zeroed _) (utf8 (cString server.password))
          (String.ofList (cString server.method)) (.zeroed _)) 0 header w' w'' := by
  intro server url v₀ v between payload answer later
  have hname : Supported Reference.openssl (String.ofList (cString server.method)) := by
    decide +kernel
  have hnames : Foundation.reference.Names url server :=
    ⟨_, rfl, Or.inl ⟨_, rfl, by decide, by decide, by decide, by decide⟩⟩
  let d := v₀.app.defaults.storeServer server
  let r : LocalConfig Reference.openssl := (LocalConfig.zeroed _).set server
  have hv : v = ⟨⟨d, some r⟩, none⟩ := by
    have hlaunched : Run.after (step .reference) v₀ [.act (.operation .launch), .runProxy] =
        ⟨⟨v₀.app.defaults, some (.zeroed _)⟩, none⟩ := rfl
    have hv : v = perform
        (Run.after (step .reference) v₀ [.act (.operation .launch), .runProxy]) .reference
        (.operation (.openSSURL url)) := rfl
    rw [hv, hlaunched]
    exact perform_openSSURL hnames (by decide +kernel) v₀.app.defaults (.zeroed _)
  have hproxy : step .reference ⟨⟨d, some r⟩, none⟩ .runProxy =
      ⟨⟨d, some r⟩, some (.start r.globals r.port)⟩ := rfl
  obtain ⟨w, w', hrun, hstep, -, hbefore, hafter⟩ := run_opening Reference.lawful_openssl
    (w := start r.globals r.port) (k := 0) (configured_configEncryption Reference.lawful_openssl
      hname (.zeroed _) (utf8 (cString server.password))) rfl rfl
  have hopening : ∀ e ∈ opening Reference.openssl 0, ¬ e.IsConfig :=
    fun e he => not_isConfig_opening 0 e (List.mem_cons_of_mem _ he)
  have hasking : ¬ (asking Reference.openssl 0).IsConfig :=
    not_isConfig_opening 0 _ (List.mem_cons_self ..)
  have hbetween : Run.after (step .reference) v between =
      ⟨⟨d, some { r with globals := w.globals }⟩, some w⟩ := by
    rw [hv, Run.after_cons, hproxy]
    exact after_events .reference hopening hrun d r rfl
  have hserved :
      (Run.after (step .reference) v (between ++ [.event (asking _ 0)])).loop = some w' := by
    rw [Run.after_append, hbetween, Run.after_cons, Run.after_nil, step,
      turn_eq rfl rfl hasking hstep]
  have hnot_read : ∀ move ∈ between, ¬ move.Reads .reference := by
    intro move hmem
    rcases List.mem_cons.mp hmem with rfl | hmem
    · exact id
    · obtain ⟨e, -, rfl⟩ := List.mem_map.mp hmem
      exact id
  have hquiet : ∀ w, World.Undisturbed 0 w (.fire (.serverRecv 0) payload) :=
    fun w => undisturbed_trickles w (Or.inr rfl)
  have hquiet' : ∀ w, World.Undisturbed 0 w (.fire (.remoteRecv 0) answer) :=
    fun w => undisturbed_trickles w (Or.inl (by decide))
  have hreads : Act.Reads .reference (.operation (.openSSURL url)) := ⟨server, hnames⟩
  have hown : v.app.defaults.isUsingPublicServer = false := by
    rw [hv]
    rfl
  have hserver : v.app.defaults.arguments = some server := by
    rw [hv]
    rfl
  have hbase : v.loop.elim 0 World.next ≤ 0 := by
    rw [hv]
    rfl
  exact ⟨w, w', congrArg Program.loop hbetween, hserved, run_serves Reference.lawful_openssl rfl _
    hreads rfl hown hserver hname _ _ hnot_read (congrArg Program.loop hbetween) hserved hbase
    hbefore hafter ⟨id, fun w _ => hquiet w, fun w _ => hquiet' w, trivial⟩⟩

end Program

end Shadowsocks
