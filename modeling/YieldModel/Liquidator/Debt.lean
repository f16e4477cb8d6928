import YieldModel.FlashLiquidator.Sweep
import YieldModel.Liquidator.Effects

open Execution Prog

-- The debt which the bot wants to recover from a swap, and what the flash liquidator has to return.

namespace YieldLiquidator

variable {cfg : Config} {node : Node} {k : Keeper} {v : VaultIdType} {art : U128} {j : List Event}

-- The swaps which have been requested since `j` have been for `art` of the vault `v`.
def Requests (v : VaultIdType) (art : U128) (j : List Event) (k : Keeper) : Prop :=
  ∀ u i o n, .swapExactOut u i o n ∈ k.client.journal →
  .swapExactOut u i o n ∈ j ∨ u = v ∧ n = Uint.truncate 256 art

-- A request for `art` of the vault, or an event of another kind.
theorem Requests.cons {k' : Keeper} {e : Event} (h : Requests v art j k)
    (hj : k'.client.journal = e :: k.client.journal)
    (he : ∀ u i o n, e = .swapExactOut u i o n → u = v ∧ n = Uint.truncate 256 art) :
    Requests v art j k' := by
  intro u i o n hm
  rw [hj] at hm
  cases List.mem_cons.mp hm
  case inl hm => exact .inr (he u i o n hm.symm)
  case inr hm => exact h u i o n hm

namespace Liquidator

theorem getAuction_requests {owner : Address} {series : SeriesIdType} {ilk : IlkIdType}
    (hv : node.vaults v = .ok (owner, series, ilk))
    (hr : ∀ r, node.multicall v ilk = .ok r → r.balances.1 = art) (timestamp : U64) :
    Triple (Requests v art j) (getAuction cfg node v timestamp)
      (fun r k => Requests v art j k ∧ ∀ a, r = some a → a.debt = art) (Requests v art j) := by
  have hc : CacheFree (Requests v art j) := fun _ _ h => h
  unfold getAuction
  refine .bind (Q := fun r k => Requests v art j k ∧ r = (owner, series, ilk))
    (.ofResult (fun r hr' _ h => ⟨h, ?_⟩) fun _ h => h) fun r => .given fun hr' => ?_
  case refine_1 => exact Except.ok.inj (hr'.symm.trans hv)
  subst hr'
  refine .bind (Q := fun r k => Requests v art j k ∧ r.balances.1 = art)
    (.ofResult (fun r hr' _ h => ⟨h, hr r hr'⟩) fun _ h => h) fun r => .given fun ha => ?_
  refine .bind (ImmutableCache.isVaultIgnored_keeps hc _ _ _) fun _ => ?_
  refine .ite (fun _ => .pure fun _ h => ⟨h, nofun⟩) fun _ => ?_
  refine .bind (offerAt_keeps _ _ _ _) fun _ => ?_
  refine .bind (ImmutableCache.getOrFetchBaseId_keeps hc _) fun _ => .pure fun _ h => ⟨h, ?_⟩
  intro a haction
  cases haction
  exact ha

theorem sendAndTrack_requests {t : TxType} {tx : TypedTransaction} {now : Instant} :
    Keeps (Requests v art j) (sendAndTrack node t v tx now) := by
  have hs : Keeps (Requests v art j) (Bot.sendTransaction t v node.send tx) :=
    .bind .get fun _ => .bind (.ofResult _) fun _ =>
      .bind (.modify fun _ h => h.cons rfl nofun) fun _ => .pure _
  refine .bind (.attempt hs) fun r => ?_
  cases r
  case ok    => exact .modify fun _ h => h
  case error => exact .pure _

theorem submit_requests {auction : Auction} (h : auction.debt = art) (gasPrice : U256) :
    Keeps (Requests v art j) (submit cfg node v auction gasPrice) := by
  refine submit_triple (fun _ _ h => h) (fun _ h => h) (fun k i o hk => hk.cons rfl ?_)
    (fun _ _ => sendAndTrack_requests) fun _ h => h
  intro u i o n he
  cases he
  exact ⟨rfl, h ▸ rfl⟩

theorem buy_requests {owner : Address} {series : SeriesIdType} {ilk : IlkIdType}
    (hv : node.vaults v = .ok (owner, series, ilk))
    (hr : ∀ r, node.multicall v ilk = .ok r → r.balances.1 = art) (timestamp : U64)
    (gasPrice : U256) : Keeps (Requests v art j) (buy cfg node v timestamp gasPrice) := by
  unfold buy
  refine .bind .get fun k => .ite (.pure _) ?_
  refine Triple.bind (.attempt (getAuction_requests hv hr timestamp)) fun r => ?_
  match r with
  | .error _           => exact .pure fun _ h => h
  | .ok none           => exact .pure fun _ h => h.1
  | .ok (some auction) =>
    refine .given fun ha => ?_
    refine Keeps.ite (.pure _) (.ite (.pure _) (.ite ?_ (.pure _)))
    exact submit_requests (ha auction rfl) gasPrice

end Liquidator

-- The accrual of a series: none before its maturity, and a rate of at least 1 after it.
structure Accrual where
  matured : Bool
  rate    : ℕ
  one_le  : 10 ^ 18 ≤ rate

namespace Accrual

variable (a : Accrual) {n : ℕ}

def debtToBase (art : ℕ) : ℕ :=
  if a.matured then art * a.rate / 10 ^ 18 else art

theorem le_debtToBase : n ≤ a.debtToBase n := by
  unfold debtToBase
  split
  case isTrue  =>
    exact (Nat.le_div_iff_mul_le (Nat.pow_pos (by decide))).mpr (Nat.mul_le_mul_left n a.one_le)
  case isFalse => exact Nat.le_refl n

-- Less than one unit has accrued on a debt.
def Negligible (n : ℕ) : Prop :=
  a.matured → n * a.rate < (n + 1) * 10 ^ 18

theorem debtToBase_le_iff : a.debtToBase n ≤ n ↔ a.Negligible n := by
  unfold debtToBase Negligible
  split
  case isTrue h =>
    rw [← Nat.lt_succ_iff, Nat.div_lt_iff_lt_mul (Nat.pow_pos (by decide))]
    simp [h]
  case isFalse h => simp [h]

end Accrual

-- The bot and the flash liquidator read the same vault, whose series has the accrual `a`.
structure SameVault (node : Node) (ctx : FlashLiquidator.Context) (v : VaultIdType) (a : Accrual)
    (vault : DataTypes.Vault) (balances : DataTypes.Balances) : Prop where
  nodeVault    : node.vaults v = .ok (vault.owner, vault.seriesId, vault.ilkId)
  nodeBalances : ∀ r, node.multicall v vault.ilkId = .ok r → r.balances.1 = balances.art
  ctxDebt      : ∀ b, ctx.debtToBase vault.seriesId balances.art = .ok b →
                 (b : ℕ) = a.debtToBase balances.art
  ctxVault     : ctx.vaults v = .ok vault
  ctxBalances  : ctx.balances v = .ok balances

variable {ctx : FlashLiquidator.Context} {a : Accrual} {vault : DataTypes.Vault}
variable {balances : DataTypes.Balances} {calldata : Bytes} {loan : U128}
variable {data : FlashLiquidator.FlashCallbackData}

theorem SameVault.loan_eq (h : SameVault node ctx v a vault balances)
    (hp : FlashLiquidator.prepare ctx v calldata = .ok (data, loan)) :
    (loan : ℕ) = a.debtToBase balances.art := by
  simp only [FlashLiquidator.prepare, h.ctxVault, h.ctxBalances, Call.bind_eq_ok, Call.pure_eq_ok,
    Except.ok.injEq, Prod.mk.injEq] at hp
  obtain ⟨_, rfl, _, rfl, _, -, _, -, b, hb, _, -, _, -, -, rfl⟩ := hp
  exact h.ctxDebt b hb

-- What `buy` requests is the `art` of the vault.
theorem SameVault.requested_eq {timestamp : U64} {gasPrice : U256} {i o : Address} {amount : U256}
    (h : SameVault node ctx v a vault balances)
    (hr : .swapExactOut v i o amount ∈
      ((Liquidator.buy cfg node v timestamp gasPrice).exec k).2.client.journal)
    (hn : .swapExactOut v i o amount ∉ k.client.journal) : (amount : ℕ) = balances.art := by
  have hk : Requests v balances.art k.client.journal k := fun _ _ _ _ h => .inl h
  have hb : Keeps (Requests v balances.art k.client.journal)
      (Liquidator.buy cfg node v timestamp gasPrice) :=
    Liquidator.buy_requests h.nodeVault h.nodeBalances timestamp gasPrice
  have ⟨_, ha⟩ := (hb.exec hk v i o amount hr).resolve_left hn
  rw [ha]
  exact Uint.truncate_val_of_lt (balances.art.isLt.trans (by decide))

theorem SameVault.debtToReturn_le_iff (h : SameVault node ctx v a vault balances)
    (hp : FlashLiquidator.prepare ctx v calldata = .ok (data, loan)) :
    FlashLiquidator.debtToReturn ctx data (Uint.truncate 256 loan) ≤ balances.art ↔
    ctx.fee data.base (Uint.truncate 256 loan) = 0 ∧ a.Negligible balances.art := by
  have hw : ((Uint.truncate 256 loan : U256) : ℕ) = a.debtToBase balances.art :=
    (Uint.truncate_val_of_lt (loan.isLt.trans (by decide))).trans (h.loan_eq hp)
  have hl := a.le_debtToBase (n := balances.art)
  unfold FlashLiquidator.debtToReturn
  generalize ctx.fee data.base (Uint.truncate 256 loan) = fee
  rw [hw, ← a.debtToBase_le_iff, Fin.ext_iff]
  constructor
  case mp  => exact fun h => ⟨by change (fee : ℕ) = 0; omega, by omega⟩
  case mpr => exact fun ⟨hf, h⟩ => by change (fee : ℕ) = 0 at hf; omega

-- A route which delivers what has been requested does not deliver enough, unless there is no fee and
-- nothing has accrued.
theorem SameVault.liquidate_reverts {timestamp : U64} {gasPrice : U256} {i o : Address}
    {amount : U256} {s : FlashLiquidator.State} {paid : FlashLiquidator.Payment}
    {out : FlashLiquidator.Swap} (h : SameVault node ctx v a vault balances)
    (hp : FlashLiquidator.prepare ctx v calldata = .ok (data, loan))
    (hr : .swapExactOut v i o amount ∈
      ((Liquidator.buy cfg node v timestamp gasPrice).exec k).2.client.journal)
    (hn : .swapExactOut v i o amount ∉ k.client.journal)
    (hs : s.balanceOf data.base = 0) (hc : data.base ≠ data.collateral)
    (hw : ctx.payAll data.vaultId = .ok paid) (hl : paid.base = (Uint.truncate 256 loan : U256))
    (ho : ctx.swap data.swapCalldata = .ok out) (hd : out.received data.base = amount)
    (hx : ¬(ctx.fee data.base (Uint.truncate 256 loan) = 0 ∧ a.Negligible balances.art))
    {s' : FlashLiquidator.State} : FlashLiquidator.liquidate s ctx v calldata ≠ .ok s' := by
  intro hs'
  have hle := FlashLiquidator.debtToReturn_le_received hp hs hc hw hl ho hs'
  rw [hd, h.requested_eq hr hn] at hle
  exact hx ((h.debtToReturn_le_iff hp).mp hle)

theorem requested_ge_debtToReturn_iff {timestamp : U64} {gasPrice : U256} {i o : Address}
    {amount : U256} (h : SameVault node ctx v a vault balances)
    (hp : FlashLiquidator.prepare ctx v calldata = .ok (data, loan))
    (hr : .swapExactOut v i o amount ∈
      ((Liquidator.buy cfg node v timestamp gasPrice).exec k).2.client.journal)
    (hn : .swapExactOut v i o amount ∉ k.client.journal) :
    FlashLiquidator.debtToReturn ctx data (Uint.truncate 256 loan) ≤ amount ↔
    ctx.fee data.base (Uint.truncate 256 loan) = 0 ∧ a.Negligible balances.art := by
  rw [h.requested_eq hr hn]
  exact h.debtToReturn_le_iff hp

-- The vault of `Node.single` in the eyes of the flash liquidator.
def accruing (a : Accrual) : FlashLiquidator.Context :=
  { FlashLiquidator.Context.selling FlashLiquidator.WETH 100 with
    vaults _       := .ok ⟨7, 1, 2⟩
    debtToBase _ n := .ok (Uint.truncate 128 (a.debtToBase n))
  }

def unmatured : Accrual where
  matured := false
  rate    := 10 ^ 18
  one_le  := Nat.le_refl _

-- The debt has grown by a tenth since the maturity.
def grown : Accrual where
  matured := true
  rate    := 11 * 10 ^ 17
  one_le  := by decide

theorem sameVault_accruing (h : a.debtToBase 100 < 2 ^ 128) :
    SameVault (.single 1) (accruing a) 1 a ⟨7, 1, 2⟩ ⟨100, 10⟩ where
  nodeVault          := rfl
  nodeBalances _ h   := by cases h; rfl
  ctxDebt _ h'       := by cases h'; exact Uint.truncate_val_of_lt h
  ctxVault           := rfl
  ctxBalances        := rfl

def bought : Keeper :=
  ((Liquidator.buy .opts (.single 1) 1 1000 1).exec (.new ∅ 0 none)).2

theorem mem_bought : .swapExactOut 1 5 5 100 ∈ bought.client.journal := by
  decide +kernel

def bid : FlashLiquidator.FlashCallbackData :=
  { FlashLiquidator.sold FlashLiquidator.WETH with vaultId := 1 }

theorem requested_ge_debtToReturn_iff_unmatured :
    FlashLiquidator.debtToReturn (accruing unmatured) bid 100 ≤ (100 : U256) := by
  have hp : FlashLiquidator.prepare (accruing unmatured) 1 [] = .ok (bid, 100) := rfl
  have hs := sameVault_accruing (a := unmatured) (by decide)
  exact (requested_ge_debtToReturn_iff hs hp mem_bought List.not_mem_nil).mpr ⟨rfl, nofun⟩

-- The flash liquidator has to return 110, but the bot requests 100.
theorem requested_lt_debtToReturn : ¬∀ cfg node k v timestamp gasPrice i o (amount : U256) ctx a
    vault balances calldata data loan, SameVault node ctx v a vault balances →
    FlashLiquidator.prepare ctx v calldata = .ok (data, loan) →
    .swapExactOut v i o amount ∈
      ((Liquidator.buy cfg node v timestamp gasPrice).exec k).2.client.journal →
    .swapExactOut v i o amount ∉ k.client.journal →
    FlashLiquidator.debtToReturn ctx data (Uint.truncate 256 loan) ≤ amount := by
  intro h
  have hp : FlashLiquidator.prepare (accruing grown) 1 [] = .ok (bid, 110) := rfl
  have hs := sameVault_accruing (a := grown) (by decide)
  exact absurd (h _ _ _ 1 _ _ _ _ 100 _ _ _ _ _ _ _ hs hp mem_bought List.not_mem_nil) (by decide)

end YieldLiquidator
