import YieldModel.Strategy.Dilution

open Execution

namespace StrategyV1

-- What is selected at present, and what is going to be selected by the next `startPool`.
structure Config where
  base         : Address
  cauldron     : Address
  pool         : Address
  fyToken      : Address
  seriesId     : Bytes6
  nextPool     : Address
  nextSeriesId : Bytes6

def config (s : StrategyV1) : Config where
  base         := s.base
  cauldron     := s.cauldron
  pool         := s.pool
  fyToken      := s.fyToken
  seriesId     := s.seriesId
  nextPool     := s.nextPool
  nextSeriesId := s.nextSeriesId

-- Everything that the functions of the strategy do to its configuration.
inductive Config.Selects (ctx : Context) (c : Config) : Action → Config → Prop
  | idle {a : Action} : Selects ctx c a c
  | setYield {ladle_ cauldron_ : Address} :
    c.pool = 0 → ctx.ladleCauldron ladle_ = .ok cauldron_ →
    Selects ctx c (.setYield ladle_) { c with cauldron := cauldron_ }
  | setNextPool {pool_ : Address} {seriesId_ : Bytes6} {series : DataTypes.Series} :
    ctx.poolBase pool_ = .ok c.base → ctx.series c.cauldron seriesId_ = .ok series →
    ctx.poolFYToken pool_ = .ok series.fyToken →
    Selects ctx c (.setNextPool pool_ seriesId_) { c with nextPool := pool_, nextSeriesId := seriesId_ }
  | startPool {minRatio maxRatio : Uint 256} {fyToken_ : Address} :
    c.pool = 0 → c.nextPool ≠ 0 → ctx.poolFYToken c.nextPool = .ok fyToken_ →
    Selects ctx c (.startPool minRatio maxRatio) { c with
      pool         := c.nextPool
      fyToken      := fyToken_
      seriesId     := c.nextSeriesId
      nextPool     := 0
      nextSeriesId := 0
    }
  | endPool : c.pool ≠ 0 → Selects ctx c .endPool { c with pool := 0, fyToken := 0, seriesId := 0 }

variable {this : Address} {s s' : State} {ctx : Context}

theorem exec_selects {a : Action} (h : exec this s ctx a = .ok s') :
    s.strategy.config.Selects ctx a s'.strategy.config := by
  cases a <;> simp only [exec, Call.map_eq_ok, Prod.exists, exists_and_right, exists_eq_right] at h
  case setYield ladle_ =>
    simp only [setYield, poolNotSelected, Call.bind_eq_ok, Call.require_eq_ok,
      Call.pure_eq_ok] at h
    obtain ⟨_, hp, _, -, _, hc, rfl⟩ := h
    exact .setYield hp hc
  case setTokenId =>
    simp only [setTokenId, Call.bind_eq_ok, Call.pure_eq_ok] at h
    obtain ⟨_, -, _, -, _, -, _, -, _, -, rfl⟩ := h
    exact .idle
  case resetTokenJoin =>
    simp only [resetTokenJoin, Call.bind_eq_ok, Call.pure_eq_ok] at h
    obtain ⟨_, -, _, -, _, -, rfl⟩ := h
    exact .idle
  case setNextPool =>
    simp only [setNextPool, Call.bind_eq_ok, Call.require_eq_ok, Call.pure_eq_ok] at h
    obtain ⟨_, -, _, hb, _, he, _, hs, _, hf, _, he', rfl⟩ := h
    exact .setNextPool (he ▸ hb :) hs (he' ▸ hf :)
  case startPool =>
    simp only [startPool, poolNotSelected, Call.bind_eq_ok, Call.require_eq_ok, Call.pure_eq_ok,
      Prod.exists] at h
    obtain ⟨_, -, _, hp, _, hn, _, hf, _, -, _, -, _, -, _, -, _, -, _, -, _, -, _, -, _, _, -, _, -,
      _, -, rfl⟩ := h
    exact .startPool hp hn hf
  case endPool =>
    simp only [endPool, callable, Call.bind_eq_ok, Call.require_eq_ok, Call.pure_eq_ok,
      Prod.exists] at h
    obtain ⟨_, -, _, hp, _, -, _, _, -, _, -, _, -, rfl⟩ := h
    exact .endPool hp
  case mint =>
    obtain ⟨_, h⟩ := h
    simp only [mint, Call.bind_eq_ok, Call.pure_eq_ok, Prod.mk.injEq] at h
    obtain ⟨_, -, _, -, _, -, _, -, _, -, _, -, rfl, -⟩ := h
    exact .idle
  case burn =>
    obtain ⟨_, h⟩ := h
    simp only [burn, Call.bind_eq_ok, Call.pure_eq_ok, Prod.mk.injEq] at h
    obtain ⟨_, -, _, -, _, -, _, -, _, -, _, -, _, -, rfl, -⟩ := h
    exact .idle
  case burnForBase =>
    obtain ⟨_, h⟩ := h
    simp only [burnForBase, Call.bind_eq_ok, Call.pure_eq_ok, Prod.mk.injEq] at h
    obtain ⟨_, -, _, -, _, -, _, -, _, -, rfl, -⟩ := h
    exact .idle
  case transferFrom =>
    obtain ⟨_, _, he⟩ := transferFrom_eq_ok h
    exact he ▸ .idle

-- A pool trades its base against a token, both of which it is given when it is created.
structure Pool where
  base       : Address
  fyToken    : Address
  fyToken_ne : fyToken ≠ 0

-- The pools which exist, and the series of each cauldron. A series without a token is not set.
structure Env where
  pools  : Address → Option Pool
  series : Address → Bytes6 → DataTypes.Series

-- Pools and series may be added, but what is set does not change.
structure Env.Extends (e e' : Env) : Prop where
  pools  : ∀ a p, e.pools a = some p → e'.pools a = some p
  series : ∀ c i, (e.series c i).fyToken ≠ 0 → e'.series c i = e.series c i

-- Pools and cauldrons answer with what they are.
structure Context.Agrees (ctx : Context) (e : Env) : Prop where
  poolBase    : ∀ a b, ctx.poolBase a = .ok b → ∃ p, e.pools a = some p ∧ p.base = b
  poolFYToken : ∀ a f, ctx.poolFYToken a = .ok f → ∃ p, e.pools a = some p ∧ p.fyToken = f
  series      : ∀ c i r, ctx.series c i = .ok r → r = e.series c i

structure World where
  env   : Env
  state : State

namespace World

-- The steps of an execution in which all calls of the strategy satisfy `P`.
inductive Step (this : Address) (P : World → Context → Action → Prop) : World → World → Prop
  | call {w : World} {ctx : Context} {a : Action} {s : State} :
    ctx.Agrees w.env → P w ctx a → exec this w.state ctx a = .ok s → Step this P w { w with state := s }
  | roles {w : World} (r : AccessControl) : Step this P w { w with state.strategy.roles := r }
  | others {w : World} (t : Tokens) : Step this P w { w with state.tokens := t }
  | extend {w : World} {e : Env} : w.env.Extends e → Step this P w { w with env := e }

-- A pool and a series which belong together, for the strategy's base and cauldron.
def Matches (e : Env) (c : Config) (pool : Address) (seriesId : Bytes6) : Prop :=
  ∃ p, e.pools pool = some p ∧ p.base = c.base ∧ (e.series c.cauldron seriesId).fyToken = p.fyToken

structure Consistent (e : Env) (c : Config) : Prop where
  selected : c.pool ≠ 0 → Matches e c c.pool c.seriesId ∧
             (e.series c.cauldron c.seriesId).fyToken = c.fyToken
  next     : c.nextPool ≠ 0 → Matches e c c.nextPool c.nextSeriesId

-- The cauldron is only replaced, while a next pool is set, by one which has the series of the pool
-- under the same identifier.
def KeepsSeries (w : World) (ctx : Context) : Action → Prop
  | .setYield ladle_ => w.state.strategy.nextPool ≠ 0 → ∀ c, ctx.ladleCauldron ladle_ = .ok c →
    ∀ p, w.env.pools w.state.strategy.nextPool = some p →
    (w.env.series c w.state.strategy.nextSeriesId).fyToken = p.fyToken
  | _ => True

variable {w w' : World} {e e' : Env} {c c' : Config}

theorem Matches.extends {pool : Address} {seriesId : Bytes6} (h : Matches e c pool seriesId)
    (he : e.Extends e') : Matches e' c pool seriesId := by
  have ⟨p, hp, hb, hf⟩ := h
  have hs := he.series c.cauldron seriesId (hf ▸ p.fyToken_ne)
  exact ⟨p, he.pools _ _ hp, hb, hs ▸ hf⟩

theorem Consistent.extends (h : Consistent e c) (he : e.Extends e') : Consistent e' c where
  selected hp := by
    have ⟨hm, hf⟩ := h.selected hp
    have ⟨p, _, _, hn⟩ := hm
    exact ⟨hm.extends he, he.series _ _ (hn ▸ p.fyToken_ne) ▸ hf⟩
  next hn := (h.next hn).extends he

theorem Consistent.selects {a : Action} (h : Consistent w.env w.state.strategy.config)
    (ha : ctx.Agrees w.env) (hk : KeepsSeries w ctx a)
    (hs : w.state.strategy.config.Selects ctx a c') : Consistent w.env c' := by
  cases hs
  case idle => exact h
  case endPool => exact ⟨fun hp => absurd rfl hp, h.next⟩
  case setYield hp hc =>
    refine ⟨fun hn => absurd hp hn, fun hn => ?_⟩
    have ⟨p, he, hb, _⟩ := h.next hn
    exact ⟨p, he, hb, hk hn _ hc p he⟩
  case setNextPool hb hs hf =>
    refine ⟨h.selected, fun _ => ?_⟩
    have ⟨p, hp, hb⟩ := ha.poolBase _ _ hb
    have ⟨q, hq, hf⟩ := ha.poolFYToken _ _ hf
    have he : p = q := Option.some.inj (hp ▸ hq)
    exact ⟨p, hp, hb, ha.series _ _ _ hs ▸ he ▸ hf.symm⟩
  case startPool hp hn hf =>
    refine ⟨fun _ => ⟨h.next hn, ?_⟩, fun hn => absurd rfl hn⟩
    have ⟨p, hp, _, hs⟩ := h.next hn
    have ⟨q, hq, hf⟩ := ha.poolFYToken _ _ hf
    have he : p = q := Option.some.inj (hp ▸ hq)
    exact hs.trans (he ▸ hf)

theorem step_consistent : Preserves (Step this KeepsSeries)
    fun w => Consistent w.env w.state.strategy.config := by
  intro w _ stp h
  cases stp
  case call ha hk hx => exact h.selects ha hk (exec_selects hx)
  case roles         => exact h
  case others        => exact h
  case extend he     => exact h.extends he

-- Starting a pool whose series has been lost makes the configuration inconsistent.
theorem Config.Selects.not_consistent {minRatio maxRatio : Uint 256} {p : Pool}
    (hs : c.Selects ctx (.startPool minRatio maxRatio) c') (hp : c' ≠ c)
    (he : e.pools c.nextPool = some p)
    (hf : (e.series c.cauldron c.nextSeriesId).fyToken ≠ p.fyToken) : ¬Consistent e c' := by
  intro h
  cases hs
  case idle => exact hp rfl
  case startPool hn _ =>
    have ⟨⟨q, hq, _, hs⟩, _⟩ := h.selected hn
    cases he.symm.trans hq
    exact hf hs

end World

-- As long as no pool which is about to be started loses its series, the pool which is selected is
-- one of the base, and its token is the one of the strategy and of the series in the cauldron.
theorem configuration_consistent {sender ladle cauldron base baseJoin : Address} {baseId : Bytes6}
    {t : Tokens} {env : Env} {w : World}
    (r : Steps (World.Step this World.KeepsSeries)
      ⟨env, init sender ladle cauldron base baseId baseJoin t⟩ w)
    (hp : w.state.strategy.pool ≠ 0) :
    ∃ p, w.env.pools w.state.strategy.pool = some p ∧ p.base = w.state.strategy.base ∧
      w.state.strategy.fyToken = p.fyToken ∧
      (w.env.series w.state.strategy.cauldron w.state.strategy.seriesId).fyToken =
        w.state.strategy.fyToken := by
  have h := World.step_consistent.steps r ⟨fun h => absurd rfl h, fun h => absurd rfl h⟩
  have ⟨⟨p, he, hb, hf⟩, hs⟩ := h.selected hp
  exact ⟨p, he, hb, hs.symm.trans hf, hs⟩

namespace Replaced

-- The cauldron of ladle 8 has a series with the token of the pool, which others do not have.
def env : Env where
  pools _    := some ⟨1, 4, Fin.ne_of_val_ne (Nat.succ_ne_zero 3)⟩
  series c _ := if c = 9 then ⟨4, 0, 0⟩ else ⟨0, 0, 0⟩

def context : Context :=
  { Launch.context with
    ladleCauldron := fun l => .ok (if l = 8 then 9 else 11)
    series        := fun c i => .ok (env.series c i) }

theorem agrees : context.Agrees env where
  poolBase _ _ h    := ⟨_, rfl, Except.ok.inj h⟩
  poolFYToken _ _ h := ⟨_, rfl, Except.ok.inj h⟩
  series _ _ _ h    := (Except.ok.inj h).symm

def governed : State :=
  { Launch.governed with
    strategy.roles := Launch.governed.strategy.roles._grantRole selector.setYield 7 }

-- The ladle is replaced after the next pool has been set, and before it is started.
def replaced (ladle_ : Address) : Call State := do
  let s ← exec 2 governed context (.setNextPool 3 0)
  let s ← exec 2 s context (.setYield ladle_)
  exec 2 s context (.startPool 0 0)

theorem replaced_steps {P : World → Context → Action → Prop} {ladle_ : Address} {s : State}
    (h : replaced ladle_ = .ok s) (hn : ∀ s, P ⟨env, s⟩ context (.setNextPool 3 0))
    (hy : ∀ s, P ⟨env, s⟩ context (.setYield ladle_))
    (hs : ∀ s, P ⟨env, s⟩ context (.startPool 0 0)) :
    Steps (World.Step 2 P) ⟨env, Launch.created⟩ ⟨env, s⟩ := by
  simp only [replaced, Call.bind_eq_ok] at h
  obtain ⟨s₁, h₁, s₂, h₂, h₃⟩ := h
  exact .head (.roles governed.strategy.roles) <| .head (.call agrees (hn _) h₁) <|
    .head (.call agrees (hy s₁) h₂) <| .single (.call agrees (hs s₂) h₃)

end Replaced

theorem configuration_consistent_replaced : ∃ s, Replaced.replaced 8 = .ok s ∧
    ∃ p, Replaced.env.pools s.strategy.pool = some p ∧ p.base = s.strategy.base ∧
      s.strategy.fyToken = p.fyToken ∧
      (Replaced.env.series s.strategy.cauldron s.strategy.seriesId).fyToken =
        s.strategy.fyToken := by
  have h : (fun s => s.strategy.pool) <$> Replaced.replaced 8 = .ok 3 := by decide +kernel
  obtain ⟨s, hs, hp⟩ := Call.map_eq_ok.mp h
  refine ⟨s, hs, configuration_consistent (w := ⟨Replaced.env, s⟩) (Replaced.replaced_steps hs
    (fun _ => trivial) (fun s _ c hc p hp => ?_) fun _ => trivial) ?_⟩
  · cases hc
    cases hp
    rfl
  · simp [hp]

-- The pool of the old cauldron is started with the new one.
theorem configuration_inconsistent : ¬∀ (this sender ladle cauldron base baseJoin : Address)
    (baseId : Bytes6) (t : Tokens) (env : Env) (w : World),
    Steps (World.Step this fun _ _ _ => True)
      ⟨env, init sender ladle cauldron base baseId baseJoin t⟩ w →
    w.state.strategy.pool ≠ 0 →
    ∃ p, w.env.pools w.state.strategy.pool = some p ∧ p.base = w.state.strategy.base ∧
      w.state.strategy.fyToken = p.fyToken ∧
      (w.env.series w.state.strategy.cauldron w.state.strategy.seriesId).fyToken =
        w.state.strategy.fyToken := by
  intro h
  have hr : (fun s => (s.strategy.pool, s.strategy.cauldron, s.strategy.fyToken)) <$>
      Replaced.replaced 10 = .ok (3, 11, 4) := by
    decide +kernel
  obtain ⟨s, hs, hr⟩ := Call.map_eq_ok.mp hr
  injection hr with hp hr
  injection hr with hc hf
  have e := Replaced.replaced_steps (P := fun _ _ _ => True) hs (fun _ => trivial)
    (fun _ => trivial) fun _ => trivial
  obtain ⟨_, _, _, _, he⟩ := h 2 7 8 9 1 5 0 _ _ _ e (by simp [hp])
  simp only [hc, hf] at he
  exact absurd he (show (0 : Address) ≠ 4 by decide)

end StrategyV1
