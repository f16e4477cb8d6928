import YieldModel.Join.Basic

open Execution

namespace Join

variable {this sender user : Address} {s s' : State} {amount r : Uint 128}

-- What is accounted for is there.
def State.Backed (this : Address) (s : State) : Prop :=
  s.join.storedBalance ≤ s.balance this

-- The Join is only asked to take from itself what it has not accounted for yet.
def PullsFromOthers (this : Address) (s : State) : Action → Prop
  | .join user amount => user = this → (s.join.storedBalance : ℕ) + amount ≤ s.balance this
  | _                 => True

theorem balance_lt (this : Address) (s : State) : s.balance this < 2 ^ 256 :=
  (s.token.balances.balanceOf_le this).trans_lt (Fin.isLt _)

-- Tokens which are taken from someone else fill the gap exactly.
theorem State.Joins.filled (h : s.Joins this user amount s') (hn : user ≠ this)
    (hl : s.balance this < (s.join.storedBalance : ℕ) + amount) :
    s'.balance this = s.join.storedBalance + amount := by
  have hr := (h.pulled hl).received hn
  have hb : s'.balance this = s.balance this +
      ((s.join.storedBalance : ℕ) + amount - s.balance this) := hr
  omega

theorem State.Joins.unfilled (h : s.Joins this this amount s')
    (hl : s.balance this < (s.join.storedBalance : ℕ) + amount) :
    s'.balance this = s.balance this :=
  (h.pulled hl).self rfl

-- The condition is exact for each call: without it, the addition wraps or the balance is exceeded.
theorem State.Joins.backed_iff (h : s.Joins this user amount s') :
    s'.Backed this ∧ (s.join.storedBalance : ℕ) + amount < 2 ^ 256 ↔
    PullsFromOthers this s (.join user amount) := by
  have hb := balance_lt this s
  have hb' := balance_lt this s'
  have hs : (s'.join.storedBalance : ℕ) = (s.join.storedBalance + amount) % 2 ^ 256 :=
    congrArg Fin.val h.stored
  simp only [State.Backed, PullsFromOthers, hs]
  by_cases hl : (s.join.storedBalance : ℕ) + amount ≤ s.balance this
  case pos =>
    have he : s'.balance this = s.balance this := congrArg (ERC20.balanceOf · this) (h.enough hl)
    rw [he, Nat.mod_eq_of_lt (hl.trans_lt hb)]
    exact ⟨fun _ _ => hl, fun _ => ⟨hl, hl.trans_lt hb⟩⟩
  case neg =>
    have hl' := not_le.mp hl
    by_cases hn : user = this
    case pos =>
      subst hn
      rw [h.unfilled hl']
      refine ⟨fun ⟨hk, hw⟩ _ => ?_, fun hk => absurd (hk rfl) hl⟩
      rwa [Nat.mod_eq_of_lt hw] at hk
    case neg =>
      have hf := h.filled hn hl'
      rw [← hf, Nat.mod_eq_of_lt hb']
      exact ⟨fun _ he => absurd he hn, fun _ => ⟨le_rfl, hb'⟩⟩

theorem State.Exits.backed (h : s.Exits this user amount s') (hb : s.Backed this) :
    s'.Backed this := by
  have hl := h.sent.le_add
  have hs := h.stored
  have hb : (s.join.storedBalance : ℕ) ≤ s.token.balances.balanceOf this := hb
  show (s'.join.storedBalance : ℕ) ≤ s'.token.balances.balanceOf this
  omega

theorem retrieve_backed {token to_ : Address} (h : retrieve this s sender token to_ = .ok s')
    (hb : s.Backed this) : s'.Backed this := by
  simp only [retrieve, Call.bind_eq_ok, Call.require_eq_ok, Call.pure_eq_ok] at h
  obtain ⟨_, -, _, hn, t, -, rfl⟩ := h
  simpa [State.Backed, State.balance, State.token, Function.update_of_ne (Ne.symm hn)] using hb

theorem exec_backed {a : Action} (hp : PullsFromOthers this s a)
    (h : exec this s sender a = .ok s') (hb : s.Backed this) : s'.Backed this := by
  cases a <;> simp only [exec, Call.map_eq_ok, Prod.exists, exists_and_right, exists_eq_right] at h
  case join =>
    obtain ⟨_, h⟩ := h
    simp only [join, Call.bind_eq_ok] at h
    obtain ⟨_, -, h⟩ := h
    exact (join_eq_ok h).backed_iff.mpr hp |>.left
  case exit =>
    obtain ⟨_, h⟩ := h
    simp only [exit, Call.bind_eq_ok] at h
    obtain ⟨_, -, h⟩ := h
    exact (exit_eq_ok h).backed hb
  case retrieve => exact retrieve_backed h hb

theorem step_backed : Preserves (Step this (PullsFromOthers this)) (·.Backed this) := by
  intro s _ stp hb
  cases stp
  case call hp h => exact exec_backed hp h hb
  case roles     => exact hb
  case others hl => exact hb.trans hl

-- A Join which does not take more from itself than its surplus is always backed, and the addition
-- of what it takes never wraps.
theorem always_backed {asset : Address} {tokens : Address → ERC20}
    (e : Steps (Step this (PullsFromOthers this)) (init sender asset tokens) s) :
    s.join.storedBalance ≤ s.balance this ∧
    ∀ sender user amount s' r, PullsFromOthers this s (.join user amount) →
      join this s sender user amount = .ok (s', r) →
      (s.join.storedBalance : ℕ) + amount < 2 ^ 256 := by
  refine ⟨step_backed.steps e (Nat.zero_le _), fun _ _ _ _ _ hp h => ?_⟩
  simp only [join, Call.bind_eq_ok] at h
  obtain ⟨_, -, h⟩ := h
  exact (join_eq_ok h).backed_iff.mpr hp |>.right

namespace Surplus

-- The Join has been given 100 tokens, and account 7 has as many.
def tokens : Address → ERC20 := fun a => {
  balances :=
    if a = 1 then
      (((Ledger.empty 256 Address).mint 2 100 >>= (·.mint 7 100)).toOption).getD
        (.empty 256 Address)
    else
      .empty 256 Address
  allowance _ _ := if a = 1 then Uint.max 256 else 0
}

def governed : State :=
  let s := init 7 1 tokens
  { s with join.roles := s.join.roles._grantRole selector.join 7 }

def joined (user : Address) : Call State :=
  exec 2 governed 7 (.join user 150)

theorem joined_steps {P : State → Action → Prop} (h : joined user = .ok s)
    (hp : P governed (.join user 150)) : Steps (Step 2 P) (init 7 1 tokens) s :=
  .head (.roles _) (.single (.call hp h))

end Surplus

theorem always_backed_joined : ∃ s, Surplus.joined 7 = .ok s ∧ s.join.storedBalance = 150 ∧
    s.join.storedBalance ≤ s.balance 2 := by
  have h : (fun s => s.join.storedBalance) <$> Surplus.joined 7 = .ok 150 := by decide +kernel
  obtain ⟨s, hs, h⟩ := Call.map_eq_ok.mp h
  have hp : PullsFromOthers 2 Surplus.governed (.join 7 150) := fun h => absurd h (by decide)
  exact ⟨s, hs, h, (always_backed (Surplus.joined_steps hs hp)).left⟩

-- The Join pays for the missing 50 tokens itself, so they are accounted for twice.
theorem not_always_backed : ¬∀ (this sender asset : Address) (tokens : Address → ERC20) (s : State),
    Steps (Step this fun _ _ => True) (init sender asset tokens) s →
    s.join.storedBalance ≤ s.balance this := by
  intro hb
  have h : (fun s => ((s.join.storedBalance : ℕ), s.balance 2)) <$> Surplus.joined 2 =
      .ok (150, 100) := by
    decide +kernel
  obtain ⟨s, hs, h⟩ := Call.map_eq_ok.mp h
  injection h with hj hk
  have := hb 2 7 1 _ s (Surplus.joined_steps hs trivial)
  omega

end Join
