import YieldModel.Liquidator.Keeper
import YieldModel.Liquidator.Offer

open Prog

-- When the bot bids for an auction.

namespace YieldLiquidator

variable {cfg : Config} {node : Node} {k k' : Keeper} {v : VaultIdType} {timestamp : U64}
variable {series : SeriesIdType} {ilk : IlkIdType} {base : BaseIdType} {art : U128} {b : Bool}

namespace ImmutableCache

theorem getOrFetchBaseId_caches : Triple (fun _ => True) (getOrFetchBaseId node series)
    (fun base k => k.cache.seriesToBase.lookup series = some base) (fun _ => True) := by
  have hl : Triple (fun _ => True) (do
      let k ← get
      ofOption "can't find data for series" (k.cache.seriesToBase.lookup series) : Bot BaseIdType)
      (fun base k => k.cache.seriesToBase.lookup series = some base) (fun _ => True) :=
    .bind .get fun _ => .ofOption (fun _ h _ hk => hk.left ▸ h) fun _ _ => trivial
  unfold getOrFetchBaseId
  refine .bind (Keeps.get (I := fun _ => True)) fun k => ?_
  split
  case isTrue =>
    exact .bind (Keeps.ofResult _) fun _ => .bind (Keeps.modify fun _ _ => trivial) fun _ => hl
  case isFalse => exact hl

-- The base of a vault which has been checked is in the cache.
theorem isVaultIgnored_caches : Triple (fun _ => True) (isVaultIgnored node series ilk art)
    (fun _ k => ∃ base, k.cache.seriesToBase.lookup series = some base) (fun _ => True) := by
  unfold isVaultIgnored
  refine .bind getOrFetchBaseId_caches fun base => ?_
  refine .ite (fun _ => .pure fun _ h => ⟨base, h⟩) fun _ => ?_
  refine .bind .get fun k => ?_
  cases k.cache.baseToDebtThreshold.lookup base <;> exact .pure fun _ h => ⟨base, h.right⟩

end ImmutableCache

namespace Liquidator

-- `buy` up to the point where it goes on to build a bid: what it returns without one, or the
-- auction for which it bids.
def decision (cfg : Config) (node : Node) (vaultId : VaultIdType) (blockTimestamp : U64) :
    Bot (Bool ⊕ Auction) := do
  let k ← get
  if vaultId ∈ k.liquidator.pendingAuctions then
    return .inl true
  match ← Prog.attempt (getAuction cfg node vaultId blockTimestamp) with
  | .error _  => return .inl true
  | .ok none  => return .inl false
  | .ok (some auction) =>
    if ¬auction.underAuction then
      return .inl false
    if auction.debt = 0 then
      return .inl true
    if auction.ratioPct ≤ cfg.minRatio ∨ auction.collateralOfferIsGoodEnough then
      return .inr auction
    else
      return .inl true

theorem buy_eq_decision (v : VaultIdType) (timestamp : U64) (gasPrice : U256) :
    buy cfg node v timestamp gasPrice = (do
      match ← decision cfg node v timestamp with
      | .inl b       => return b
      | .inr auction => submit cfg node v auction gasPrice) := by
  unfold buy decision
  simp only [bind_assoc]
  congr 1
  funext k
  split
  case isTrue => rfl
  case isFalse =>
    simp only [bind_assoc]
    congr 1
    funext r
    rcases r with _ | _ | auction
    case error   => rfl
    case ok.none => rfl
    case ok.some =>
      dsimp only
      split
      case isTrue => rfl
      case isFalse =>
        split
        case isTrue => rfl
        case isFalse => split <;> rfl

-- The offer with which the bot goes on, 0 if there is none.
def offer (node : Node) (blockTimestamp : U64) (auctionStart duration : U32) (initialOffer : U64) :
    U16 :=
  match node.systemTime with
  | .ok _    => (currentOffer blockTimestamp (Uint.truncate 64 auctionStart)
      (Uint.truncate 64 duration) initialOffer).toOption.getD 0
  | .error _ => 0

theorem currentOffer_ne_panic {now auctionStart initialOffer : U64} {duration : U32}
    {message : String} : currentOffer now auctionStart (Uint.truncate 64 duration) initialOffer ≠
    .error (.panic message) := by
  have hl : ((Uint.truncate 64 duration : U64) : ℕ) < 2 ^ 32 :=
    (Uint.truncate_val_of_lt (duration.isLt.trans (by decide))).trans_lt duration.isLt
  by_cases hn : now < auctionStart
  case pos => simp [currentOffer, hn]
  by_cases ho : (1000000000000000000 : U64) < initialOffer
  case pos => simp [currentOffer, hn, ho]
  obtain ⟨_, _, hc⟩ := checkedOffer_ok (not_lt.mp hn) (Fin.le_def.mp (not_lt.mp ho)) hl
  simp [currentOffer_of_checked hc]

theorem offerAt_exec {auctionStart duration : U32} {initialOffer : U64} :
    (offerAt node timestamp auctionStart duration initialOffer).exec k =
    (.ok (offer node timestamp auctionStart duration initialOffer), k) := by
  unfold offerAt offer
  cases node.systemTime
  case error => rfl
  case ok =>
    cases h : currentOffer timestamp (Uint.truncate 64 auctionStart) (Uint.truncate 64 duration)
      initialOffer
    case ok => rfl
    case error e =>
      cases e
      case error => rfl
      case panic => exact absurd h currentOffer_ne_panic

-- The auction of a vault as it is read from the chain.
def auctionOf (cfg : Config) (node : Node) (timestamp : U64) (ilk : IlkIdType) (base : BaseIdType)
    (r : AuctionReading) : Auction where
  underAuction                := r.auctions.1 ≠ 0
  started                     := r.auctions.2
  debt                        := r.balances.1
  ratioPct                    := ratioPct r.collateralToDebtRatio
  baseId                      := base
  ilkId                       := ilk
  collateralOfferIsGoodEnough :=
    cfg.targetCollateralOffer ≤ offer node timestamp r.auctions.2 r.ilks.1 r.ilks.2

theorem getAuction_exec {owner : Address} {r : AuctionReading}
    (hv : node.vaults v = .ok (owner, series, ilk)) (hr : node.multicall v ilk = .ok r) :
    (∃ e k', (ImmutableCache.isVaultIgnored node series ilk r.balances.1).exec k = (.error e, k') ∧
      (getAuction cfg node v timestamp).exec k = (.error e, k')) ∨
    (∃ k', (ImmutableCache.isVaultIgnored node series ilk r.balances.1).exec k = (.ok true, k') ∧
      (getAuction cfg node v timestamp).exec k = (.ok none, k')) ∨
    (∃ base k',
      (ImmutableCache.isVaultIgnored node series ilk r.balances.1).exec k = (.ok false, k') ∧
      (getAuction cfg node v timestamp).exec k =
        (.ok (some (auctionOf cfg node timestamp ilk base r)), k')) := by
  have hc : Triple _ (ImmutableCache.isVaultIgnored node series ilk r.balances.1) _ _ :=
    ImmutableCache.isVaultIgnored_caches
  have hc := hc k trivial
  cases hi : (ImmutableCache.isVaultIgnored node series ilk r.balances.1).exec k with | mk res k' =>
  rw [hi] at hc
  cases res
  case error e =>
    refine .inl ⟨e, k', rfl, ?_⟩
    simp only [getAuction, hv, hr, ofResult, pure_bind, exec_bind, hi]
  case ok b =>
    cases b
    case true =>
      refine .inr (.inl ⟨k', rfl, ?_⟩)
      simp only [getAuction, hv, hr, ofResult, pure_bind, exec_bind, hi]
      rfl
    case false =>
      obtain ⟨base, hb⟩ := hc
      refine .inr (.inr ⟨base, k', rfl, ?_⟩)
      simp only [getAuction, hv, hr, ofResult, pure_bind, exec_bind, hi, Bool.false_eq_true,
        if_false, offerAt_exec, ImmutableCache.getOrFetchBaseId_cached hb]
      rfl

-- The bot goes on to build a bid for a vault.
def Bids (cfg : Config) (node : Node) (v : VaultIdType) (timestamp : U64) (k : Keeper) : Prop :=
  ∃ auction k', (decision cfg node v timestamp).exec k = (.ok (.inr auction), k') ∧
  ∀ gasPrice, (buy cfg node v timestamp gasPrice).exec k =
    (submit cfg node v auction gasPrice).exec k'

-- A vault which is under auction, and for which the bot may bid.
structure Biddable (node : Node) (v : VaultIdType) (series : SeriesIdType) (ilk : IlkIdType)
    (r : AuctionReading) (k : Keeper) : Prop where
  idle    : v ∉ k.liquidator.pendingAuctions
  regards : ∃ k', (ImmutableCache.isVaultIgnored node series ilk r.balances.1).exec k =
            (.ok false, k')
  owned   : r.auctions.1 ≠ 0
  debt    : 0 < r.balances.1

theorem bids_iff : Bids cfg node v timestamp k ↔
    ∃ auction k', (decision cfg node v timestamp).exec k = (.ok (.inr auction), k') := by
  constructor
  case mp  => exact fun ⟨auction, k', h, _⟩ => ⟨auction, k', h⟩
  case mpr =>
    refine fun ⟨auction, k', h⟩ => ⟨auction, k', h, fun gasPrice => ?_⟩
    rw [buy_eq_decision, exec_bind, h]

theorem not_bids_of_pending (h : v ∈ k.liquidator.pendingAuctions) :
    ¬Bids cfg node v timestamp k := by
  rw [bids_iff]
  simp [decision, exec_bind, h]

theorem decision_of_idle (h : v ∉ k.liquidator.pendingAuctions) :
    (decision cfg node v timestamp).exec k =
    match (getAuction cfg node v timestamp).exec k with
    | (.ok none, k')              => (.ok (.inl false), k')
    | (.ok (some auction), k')    =>
      (.ok (if ¬auction.underAuction then .inl false else if auction.debt = 0 then .inl true else
        if auction.ratioPct ≤ cfg.minRatio ∨ auction.collateralOfferIsGoodEnough then .inr auction
        else .inl true), k')
    | (.error (.error _), k')     => (.ok (.inl true), k')
    | (.error (.panic m), k')     => (.error (.panic m), k') := by
  simp only [decision, exec_bind, exec_get, if_neg h, exec_attempt]
  cases (getAuction cfg node v timestamp).exec k with | mk res k' =>
  cases res
  case error e => cases e <;> rfl
  case ok auction =>
    cases auction
    case none => rfl
    case some auction =>
      dsimp only
      split
      case isTrue => rfl
      case isFalse =>
        split
        case isTrue => rfl
        case isFalse => split <;> rfl

theorem bids_iff_read {owner : Address} {r : AuctionReading}
    (hv : node.vaults v = .ok (owner, series, ilk)) (hr : node.multicall v ilk = .ok r) :
    Bids cfg node v timestamp k ↔ Biddable node v series ilk r k ∧
    (ratioPct r.collateralToDebtRatio ≤ cfg.minRatio ∨
      cfg.targetCollateralOffer ≤ offer node timestamp r.auctions.2 r.ilks.1 r.ilks.2) := by
  by_cases hp : v ∈ k.liquidator.pendingAuctions
  case pos => exact ⟨fun h => absurd h (not_bids_of_pending hp), fun h => absurd hp h.left.idle⟩
  rw [bids_iff, decision_of_idle hp]
  have hg := @getAuction_exec cfg node k v timestamp series ilk owner r hv hr
  obtain ⟨e, k', hi, hg⟩ | ⟨k', hi, hg⟩ | ⟨base, k', hi, hg⟩ := hg <;> rw [hg]
  case inl =>
    constructor
    case mp => cases e <;> simp
    case mpr =>
      intro ⟨⟨_, ⟨_, h⟩, _, _⟩, _⟩
      cases hi.symm.trans h
  case inr.inl =>
    constructor
    case mp => simp
    case mpr =>
      intro ⟨⟨_, ⟨_, h⟩, _, _⟩, _⟩
      cases hi.symm.trans h
  case inr.inr =>
    have hb : Biddable node v series ilk r k ↔ r.auctions.1 ≠ 0 ∧ r.balances.1 ≠ 0 :=
      ⟨fun h => ⟨h.owned, h.debt.ne'⟩, fun h => ⟨hp, ⟨k', hi⟩, h.1, Fin.pos_iff_ne_zero.mpr h.2⟩⟩
    rw [hb]
    by_cases ho : r.auctions.1 = 0
    case pos => simp [auctionOf, ho]
    by_cases hd : r.balances.1 = 0
    case pos => simp [auctionOf, ho, hd]
    simp only [auctionOf, ho, hd, ne_eq, not_false_eq_true, decide_true, decide_eq_true_eq, if_false,
      not_true_eq_false, true_and]
    split
    case isTrue h  => exact ⟨fun _ => h, fun _ => ⟨_, _, rfl⟩⟩
    case isFalse h => exact ⟨by simp, fun h' => absurd h' h⟩

-- A bid is due for a vault which is undercollateralized enough, or of which enough is on offer.
def Due (cfg : Config) (node : Node) (timestamp : U64) (r : AuctionReading) : Prop :=
  (r.collateralToDebtRatio / 10 ^ 16 : ℕ) ≤ cfg.minRatio ∨
  cfg.targetCollateralOffer ≤ offer node timestamp r.auctions.2 r.ilks.1 r.ilks.2

theorem ratioPct_of_lt {ratio : U256} (h : (ratio / 10 ^ 16 : ℕ) < 2 ^ 16) :
    (ratioPct ratio : ℕ) = ratio / 10 ^ 16 := by
  simp only [ratioPct]
  rw [dif_pos h]

theorem ratioPct_of_ge {ratio : U256} (h : 2 ^ 16 ≤ (ratio / 10 ^ 16 : ℕ)) : ratioPct ratio = 0 := by
  simp only [ratioPct]
  rw [dif_neg h.not_gt]

theorem bids_iff_due_iff {owner : Address} {r : AuctionReading}
    (hv : node.vaults v = .ok (owner, series, ilk)) (hr : node.multicall v ilk = .ok r) :
    (Bids cfg node v timestamp k ↔ Biddable node v series ilk r k ∧ Due cfg node timestamp r) ↔
    ¬(Biddable node v series ilk r k ∧ 2 ^ 16 ≤ (r.collateralToDebtRatio / 10 ^ 16 : ℕ) ∧
      offer node timestamp r.auctions.2 r.ilks.1 r.ilks.2 < cfg.targetCollateralOffer) := by
  rw [bids_iff_read hv hr, Due]
  by_cases hb : Biddable node v series ilk r k
  case neg => simp [hb]
  by_cases hl : (r.collateralToDebtRatio / 10 ^ 16 : ℕ) < 2 ^ 16
  case pos =>
    simp only [hb, true_and, Fin.le_def, ratioPct_of_lt hl, hl.not_ge, false_and, not_false_eq_true]
  case neg =>
    have hm : ¬(r.collateralToDebtRatio / 10 ^ 16 : ℕ) ≤ cfg.minRatio :=
      not_le.mpr (cfg.minRatio.isLt.trans_le (not_lt.mp hl))
    have hz : ratioPct r.collateralToDebtRatio ≤ cfg.minRatio :=
      ratioPct_of_ge (not_lt.mp hl) ▸ Fin.zero_le _
    simp only [hb, true_and, hz, true_or, hm, false_or, true_iff, not_lt.mp hl, not_lt]

-- An auction, of which half is on offer, of a vault with the given ratio.
def auctioned (ratio : U256) : Node :=
  { Node.single 1 with multicall _ _ := .ok ⟨(100, 200), (7, 1), (3600, 500000000000000000), ratio⟩ }

theorem biddable_auctioned (ratio : U256) : Biddable (auctioned ratio) 1 1 2
    ⟨(100, 200), (7, 1), (3600, 500000000000000000), ratio⟩ (.new ∅ 0 none) where
  idle    := by decide
  regards := ⟨_, rfl⟩
  owned   := (by decide : (7 : Address) ≠ 0)
  debt    := (by decide : (0 : U128) < 100)

theorem bids_iff_due_iff_low : Bids .opts (auctioned 1000000000000000000) 1 1 (.new ∅ 0 none) ↔
    Biddable (auctioned 1000000000000000000) 1 1 2
      ⟨(100, 200), (7, 1), (3600, 500000000000000000), 1000000000000000000⟩ (.new ∅ 0 none) ∧
    Due .opts (auctioned 1000000000000000000) 1
      ⟨(100, 200), (7, 1), (3600, 500000000000000000), 1000000000000000000⟩ :=
  (bids_iff_due_iff rfl rfl).mpr fun h => absurd h.right.left (by decide)

-- The collateral is worth a thousand times the debt.
theorem bids_not_due : ¬∀ cfg node v timestamp k owner series ilk r,
    node.vaults v = .ok (owner, series, ilk) → node.multicall v ilk = .ok r →
    (Bids cfg node v timestamp k ↔ Biddable node v series ilk r k ∧ Due cfg node timestamp r) := by
  intro h
  have hd := (h .opts (auctioned 1000000000000000000000) 1 1 (.new ∅ 0 none) 7 1 2 _ rfl rfl).mp
    ((bids_iff_read rfl rfl).mpr ⟨biddable_auctioned _, .inl (by decide)⟩)
  exact absurd hd.right (by unfold Due; decide)

end Liquidator

end YieldLiquidator
