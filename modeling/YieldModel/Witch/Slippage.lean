import YieldModel.Witch.Execution

open Math

-- The amount of collateral below which a buyer does not want to buy.

namespace OldWitch

variable {s s' : State} {ctx : Context} {v : Bytes12} {ink : ℕ}

inductive Purchase
  | buy (base min : Uint 128)
  | payAll (min : Uint 128)

namespace Purchase

def min : Purchase → Uint 128
  | buy _ min  => min
  | payAll min => min

def exec (s : State) (ctx : Context) (v : Bytes12) : Purchase → Call (State × ℕ)
  | buy base min => OldWitch.buy s ctx v base min
  | payAll min   => OldWitch.payAll s ctx v min

-- Nobody who pays for the whole debt asks for more than all of the collateral.
def Attainable (s : State) (v : Bytes12) : Purchase → Prop
  | buy _ _    => True
  | payAll min => min ≤ (s.cauldron.balances v).ink

end Purchase

-- The join from which the collateral of a vault is paid out.
def State.ilkJoin (s : State) (ctx : Context) (v : Bytes12) : Address :=
  ctx.joins s.witch.ladle (s.cauldron.vaults v).ilkId

-- A join which pays out nothing but `ink` to `user`.
def Context.paysOnly (ctx : Context) (join user : Address) (ink : ℕ) : Context :=
  { ctx with exit j u i :=
      if j = join ∧ u = user ∧ (i : ℕ) = ink then .ok () else .error "Not requested" }

-- A purchase by which `ink` has been transferred to the caller: it leaves the vault, the join is
-- asked to pay it out, and nothing else is asked of the join.
structure Purchase.Transfers (p : Purchase) (s : State) (ctx : Context) (v : Bytes12) (ink : ℕ)
    (s' : State) : Prop where
  vault : ((s'.cauldron.balances v).ink : ℕ) + ink = (s.cauldron.balances v).ink
  exit  : ∀ i : Uint 128, (i : ℕ) = ink → i ≠ 0 → ctx.exit (s.ilkJoin ctx v) ctx.sender i = .ok ()
  only  : p.exec s (ctx.paysOnly (s.ilkJoin ctx v) ctx.sender ink) v = .ok (s', ink)

theorem settle_eq_ok {ladle user : Address} {i b : Bytes6} {ink art : Uint 128} :
    settle ctx ladle user i b ink art = .ok () ↔
    (ink ≠ 0 → ctx.joins ladle i ≠ 0 ∧ ctx.exit (ctx.joins ladle i) user ink = .ok ()) ∧
    (art ≠ 0 → ctx.joins ladle b ≠ 0 ∧ ctx.join (ctx.joins ladle b) user art = .ok ()) := by
  by_cases hi : ink = 0 <;> by_cases ha : art = 0 <;>
    simp [settle, hi, ha, Call.bind_eq_ok, Call.require_eq_ok, Call.pure_eq_ok, and_assoc,
      Unique.exists_iff]

def settles (s : State) (ctx : Context) (v : Bytes12) (ink base : Uint 128) : Call Unit :=
  settle ctx s.witch.ladle ctx.sender (s.cauldron.vaults v).ilkId
    (ctx.series (s.cauldron.vaults v).seriesId).baseId ink base

-- A purchase asks the joins for one settlement, and depends on the payouts through it only.
def Purchase.Settles (p : Purchase) (s : State) (ctx : Context) (v : Bytes12) (ink : ℕ)
    (s' : State) (i b : Uint 128) : Prop :=
  (i : ℕ) = ink ∧ settles s ctx v i b = .ok () ∧
  ∀ exit, settles s { ctx with exit } v i b = .ok () →
  p.exec s { ctx with exit } v = .ok (s', ink)

theorem release_ladle {ilkId : Bytes6} {ink : Uint 128} (h : release s ilkId ink = .ok s') :
    s'.witch.ladle = s.witch.ladle := by
  obtain ⟨_, _, rfl⟩ := release_eq_ok.mp h
  rfl

theorem buy_settles {base m : Uint 128} (h : buy s ctx v base m = .ok (s', ink)) :
    ∃ i b, (Purchase.buy base m).Settles s ctx v ink s' i b := by
  simp only [buy, Call.bind_eq_ok, Call.pure_eq_ok, Prod.mk.injEq] at h
  obtain ⟨_, h₁, _, h₂, art, h₃, elapsed, h₄, price, h₅, q, h₆, _, h₇, _, h₈, i, h₉, s₁, hr, _,
    h₁₀, c, h₁₁, _, hs, left, h₁₂, hs', rfl⟩ := h
  refine ⟨i, base, rfl, ?_, fun exit he => ?_⟩
  case refine_1 => rwa [settles, ← release_ladle hr]
  case refine_2 =>
    rw [settles, ← release_ladle hr] at he
    simp only [Purchase.exec, buy, Call.bind_eq_ok, Call.pure_eq_ok, Prod.mk.injEq]
    exact ⟨_, h₁, _, h₂, art, h₃, elapsed, h₄, price, h₅, q, h₆, _, h₇, _, h₈, i, h₉, s₁, hr, _,
      h₁₀, c, h₁₁, _, he, left, h₁₂, hs', rfl⟩

theorem payAll_settles {m : Uint 128} (h : payAll s ctx v m = .ok (s', ink)) :
    ∃ i b, (Purchase.payAll m).Settles s ctx v ink s' i b := by
  simp only [payAll, Call.bind_eq_ok, Call.pure_eq_ok, Prod.mk.injEq] at h
  obtain ⟨_, h₁, _, h₂, elapsed, h₃, price, h₄, q, h₅, _, h₆, i, h₇, s₁, hr, _, h₈, c, h₉, base,
    h₁₀, _, hs, hs', rfl⟩ := h
  refine ⟨i, base, rfl, ?_, fun exit he => ?_⟩
  case refine_1 => rwa [settles, ← release_ladle hr]
  case refine_2 =>
    rw [settles, ← release_ladle hr] at he
    simp only [Purchase.exec, payAll, Call.bind_eq_ok, Call.pure_eq_ok, Prod.mk.injEq]
    exact ⟨_, h₁, _, h₂, elapsed, h₃, price, h₄, q, h₅, _, h₆, i, h₇, s₁, hr, _, h₈, c, h₉, base,
      h₁₀, _, he, hs', rfl⟩

theorem Purchase.Settles.transfers {p : Purchase} {i b : Uint 128}
    (h : p.Settles s ctx v ink s' i b)
    (hv : ((s'.cauldron.balances v).ink : ℕ) + ink = (s.cauldron.balances v).ink) :
    p.Transfers s ctx v ink s' := by
  obtain ⟨rfl, hs, he⟩ := h
  obtain ⟨hi, hb⟩ := settle_eq_ok.mp hs
  exact {
    vault := hv
    exit  := fun j hj hz => by
      obtain rfl := Fin.ext hj
      exact (hi hz).right
    only  := he _ (settle_eq_ok.mpr ⟨fun hz => ⟨(hi hz).left, if_pos ⟨rfl, rfl, rfl⟩⟩, hb⟩)
  }

theorem purchase_min_iff {p : Purchase} (h : p.exec s ctx v = .ok (s', ink)) :
    p.Transfers s ctx v ink s' ∧ ((p.min : ℕ) ≤ ink ↔ p.Attainable s v) := by
  cases p
  case buy base m =>
    obtain ⟨_, ink', hi, hm, -, -, hs⟩ := buy_eq_ok h
    obtain ⟨_, _, ht⟩ := buy_settles h
    exact ⟨ht.transfers (hi ▸ hs.ink), fun _ => trivial, fun _ => hi ▸ hm⟩
  case payAll m =>
    obtain ⟨_, q, hi, -, hm, rfl, hs⟩ := payAll_eq_ok h
    obtain ⟨_, _, ht⟩ := payAll_settles h
    refine ⟨ht.transfers (hi ▸ hs.ink), fun h => ?_, fun h => ?_⟩
    case refine_1 => exact h.trans (min_le_left ..)
    case refine_2 => exact le_min h hm

-- A unit of collateral for a debt of `debt`, which is all on offer.
def Context.dust : Context := .plain ⟨1, Nat.one_pos⟩

def State.dust (debt : Uint 128) : State where
  witch    := {
    roles      := .init 7
    ladle      := 0
    auctions _ := ⟨7, 1⟩
    ilks _     := ⟨3600, 1000000000000000000⟩
    limits _   := ⟨1000, 0, 0, 1⟩
  }
  cauldron := ⟨fun _ => ⟨2, 0, 0⟩, fun _ => ⟨debt, 1⟩⟩

theorem payAll_dust (debt m : Uint 128) (ink : ℕ)
    (h : Prod.snd <$> payAll (.dust debt) .dust 0 m = .ok ink) :
    ∃ s', (Purchase.payAll m).exec (.dust debt) .dust 0 = .ok (s', ink) := by
  obtain ⟨⟨s', _⟩, hp, rfl⟩ := Call.map_eq_ok.mp h
  exact ⟨s', hp⟩

theorem purchase_min_iff_dust : ∃ s',
    (Purchase.payAll 1).Transfers (.dust 1000) .dust 0 1 s' ∧
    (((Purchase.payAll 1).min : ℕ) ≤ 1 ↔ (Purchase.payAll 1).Attainable (.dust 1000) 0) := by
  obtain ⟨s', h⟩ := payAll_dust 1000 1 1 (by decide +kernel)
  exact ⟨s', purchase_min_iff h⟩

-- The rounded price of three tokens of debt is three units of collateral, of which there is one.
theorem payAll_below_min : ¬∀ s ctx v (p : Purchase) s' ink,
    p.exec s ctx v = .ok (s', ink) → (p.min : ℕ) ≤ ink := by
  intro hn
  obtain ⟨_, h⟩ := payAll_dust 3000000000000000000 3 1 (by decide +kernel)
  exact absurd (hn _ _ _ _ _ _ h) (by decide)

end OldWitch
