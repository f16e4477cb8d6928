import YieldModel.Liquidator.Effects

open Execution

-- All transactions which the bot sends for a vault before one of them is confirmed have the same
-- nonce, for as long as no transaction becomes old enough to be replaced.

namespace YieldLiquidator

-- The nonces of the transactions which have been sent for a vault since the last one was confirmed.
def opened (t : TxType) (v : VaultIdType) : List Event → List ℕ
  | []                            => []
  | .broadcast t' v' nonce _ :: j => if t' = t ∧ v' = v then nonce :: opened t v j else opened t v j
  | .confirmed t' v' :: j         => if t' = t ∧ v' = v then [] else opened t v j
  | _ :: j                        => opened t v j

-- At all times up to now, what was opened had the same nonce.
def SentOnce (journal : List Event) : Prop :=
  ∀ j, j <:+ journal → ∀ t v, ∀ n ∈ opened t v j, ∀ m ∈ opened t v j, n = m

variable {cfg : Config} {node : Node} {t t' : TxType} {v v' : VaultIdType} {k k' k₀ : Keeper}
variable {j : List Event} {n : ℕ} {hash : TxHash} {e : Event}

theorem opened_broadcast_self : opened t v (.broadcast t v n hash :: j) = n :: opened t v j := by
  simp [opened]

theorem opened_broadcast_ne (h : ¬(t = t' ∧ v = v')) :
    opened t' v' (.broadcast t v n hash :: j) = opened t' v' j := by
  simp [opened, h]

theorem opened_confirmed_self : opened t v (.confirmed t v :: j) = [] := by
  simp [opened]

theorem opened_confirmed_ne (h : ¬(t = t' ∧ v = v')) :
    opened t' v' (.confirmed t v :: j) = opened t' v' j := by
  simp [opened, h]

theorem SentOnce.same (h : SentOnce j) : ∀ t v, ∀ n ∈ opened t v j, ∀ m ∈ opened t v j, n = m :=
  h j List.suffix_rfl

theorem SentOnce.cons (h : SentOnce j)
    (he : ∀ t v, ∀ n ∈ opened t v (e :: j), ∀ m ∈ opened t v (e :: j), n = m) :
    SentOnce (e :: j) := by
  intro j' hj
  cases List.suffix_cons_iff.mp hj
  case inl hj => exact hj ▸ he
  case inr hj => exact h j' hj

-- What is opened is pending.
structure Tracked (k : Keeper) : Prop where
  untracked : ∀ t v, v ∉ k.liquidator.pending t → opened t v k.client.journal = []
  once      : SentOnce k.client.journal

-- An event after which as much is opened as before.
theorem Tracked.record (h : Tracked k) (he : ∀ t v j, opened t v (e :: j) = opened t v j) :
    Tracked (k.record e) where
  untracked t v hv := (he t v _).trans (h.untracked t v hv)
  once             := h.once.cons fun t v => (he t v _).symm ▸ h.once.same t v

theorem Tracked.submit {tx : TypedTransaction} {now : Instant} (h : Tracked k)
    (hv : v ∉ k.liquidator.pending t) :
    Tracked ((k.broadcast t v none hash).mapPending t fun p => p.orInsert v (tx, hash, now)) where
  untracked t' v' hv' := by
    by_cases ht : t' = t
    case pos =>
      subst ht
      simp only [Keeper.mapPending_pending, HashMap.mem_orInsert, not_or] at hv'
      exact (opened_broadcast_ne fun h' => hv'.1 h'.2.symm).trans (h.untracked t' v' hv'.2)
    case neg =>
      rw [Keeper.mapPending_pending_ne ht] at hv'
      exact (opened_broadcast_ne fun h' => ht h'.1.symm).trans (h.untracked t' v' hv')
  once := h.once.cons fun t' v' => by
    by_cases h' : t = t' ∧ v = v'
    case pos =>
      cases h'
      case intro ht hv' =>
        subst ht hv'
        rw [opened_broadcast_self, h.untracked t v hv]
        simp
    case neg =>
      rw [opened_broadcast_ne h']
      exact h.once.same t' v'

theorem Tracked.confirm (h : Tracked k) :
    Tracked ((k.mapPending t fun p => p.erase v).record (.confirmed t v)) where
  untracked t' v' hv' := by
    by_cases h' : t = t' ∧ v = v'
    case pos =>
      have ⟨ht, hv⟩ := h'
      subst ht hv
      exact opened_confirmed_self
    case neg =>
      refine (opened_confirmed_ne h').trans (h.untracked t' v' ?_)
      by_cases ht : t' = t
      case pos =>
        subst ht
        simp only [Keeper.record_liquidator, Keeper.mapPending_pending, Finmap.mem_erase] at hv'
        exact fun hm => hv' ⟨fun h => h' ⟨rfl, h.symm⟩, hm⟩
      case neg => rwa [Keeper.record_liquidator, Keeper.mapPending_pending_ne ht] at hv'
  once := h.once.cons fun t' v' => by
    by_cases h' : t = t' ∧ v = v'
    case pos =>
      have ⟨ht, hv⟩ := h'
      subst ht hv
      simp [opened_confirmed_self]
    case neg =>
      rw [opened_confirmed_ne h']
      exact h.once.same t' v'

-- No transaction is old enough to be replaced, unless it has a receipt.
def TimelyFor (cfg : Config) (node : Node) (t : TxType) (k : Keeper) : Prop :=
  ∀ v tx hash instant, (k.liquidator.pending t).lookup v = some (tx, hash, instant) →
  node.receipt hash = .ok none → Uint.truncate 64 (node.bumpedAt - instant) ≤ cfg.bumpGasDelay

def Timely (cfg : Config) (node : Node) (k : Keeper) : Prop :=
  ∀ t, TimelyFor cfg node t k

theorem Act.preserves_tracked : Preserves (Act cfg node) Tracked := by
  intro k k' h hk
  cases h
  case cache | vaults | auctions => exact ⟨hk.untracked, hk.once⟩
  case submit hv                 => exact hk.submit hv
  all_goals exact hk.record fun _ _ _ => rfl

theorem Bump.preserves_tracked (ht : TimelyFor cfg node t k₀) :
    Preserves (Bump cfg node t k₀) Tracked := by
  intro k k' h hk
  cases h
  case confirm           => exact hk.confirm
  case replace h hr hi   => exact absurd hi (ht _ _ _ _ h hr).not_gt
  case drop h hr hi      => exact absurd hi (ht _ _ _ _ h hr).not_gt

theorem Bumps.pending_ne (e : Bumps cfg node t k₀ k k') (ht : t' ≠ t) :
    k'.liquidator.pending t' = k.liquidator.pending t' := by
  induction e
  case refl => rfl
  case tail h ih =>
    rw [← ih]
    cases h <;> exact Keeper.mapPending_pending_ne ht

theorem Processed.tracked (h : Processed cfg node k₀ k) (ht : Timely cfg node k₀)
    (hk : Tracked k₀) : Tracked k := by
  have ⟨k₁, k₂, h₁, h₂, h₃⟩ := h
  have hp : k₁.liquidator.pending .auction = k₀.liquidator.pending .auction :=
    h₁.pending_ne (by decide)
  have ht₁ : TimelyFor cfg node .auction k₁ := fun v tx hash instant h =>
    ht .auction v tx hash instant (hp ▸ h)
  have hk₁ := (Bump.preserves_tracked (ht .liquidation)).steps h₁ hk
  have hk₂ := (Bump.preserves_tracked ht₁).steps h₂ hk₁
  exact Act.preserves_tracked.steps h₃ hk₂

-- The blocks which the bot processes one after the other, whether `onBlock` succeeds or not. What
-- happens in between changes the last block only.
def Iterates (cfg : Config) (P : Node → Keeper → Prop) (k k' : Keeper) : Prop :=
  ∃ node lastBlock blockNumber, P node k ∧
  k' = ((Keeper.onBlock cfg node blockNumber).exec { k with lastBlock }).2

theorem Iterates.preserves_tracked : Preserves (Iterates cfg (Timely cfg)) Tracked := by
  intro k k' ⟨node, lastBlock, blockNumber, ht, hk'⟩ hk
  subst hk'
  exact Keeper.onBlock_exec.tracked ht ⟨hk.untracked, hk.once⟩

theorem new_tracked (thresholds : HashMap BaseIdType U128) (nonce : ℕ) (state : Option State) :
    Tracked (.new thresholds nonce state) where
  untracked _ _ _ := rfl
  once j hj       := by
    cases List.suffix_nil.mp hj
    exact fun _ _ _ h => nomatch h

theorem onBlock_sentOnce {thresholds : HashMap BaseIdType U128} {nonce : ℕ} {state : Option State}
    (e : Steps (Iterates cfg (Timely cfg)) (.new thresholds nonce state) k) :
    SentOnce k.client.journal :=
  (Iterates.preserves_tracked.steps e (new_tracked thresholds nonce state)).once

theorem Iterates.onBlock {P : Node → Keeper → Prop} {blockNumber : U64} (h : P node k) :
    Iterates cfg P k ((Keeper.onBlock cfg node blockNumber).exec k).2 :=
  ⟨node, k.lastBlock, blockNumber, h, rfl⟩

-- The bot starts an auction, and some seconds later its transaction is still pending.
def pendingFor (seconds : ℕ) : Keeper :=
  ((Keeper.onBlock .opts { Node.single 1 with bumpedAt := seconds } 2).exec
    ((Keeper.onBlock .opts (.single 1) 1).exec (.new ∅ 0 none)).2).2

theorem onBlock_sentOnce_pending : (pendingFor 60).liquidator.pendingLiquidations.keys = {1} ∧
    SentOnce (pendingFor 60).client.journal := by
  refine ⟨by decide +kernel, onBlock_sentOnce (.tail (.single (.onBlock ?_)) (.onBlock ?_))⟩
  case refine_1 =>
    intro t v tx hash instant h _
    cases t <;> simp [Keeper.new, Liquidator.pending] at h
  case refine_2 =>
    intro t v tx hash instant _ _
    refine Fin.le_def.mpr ?_
    rw [Uint.truncate_val_of_lt]
    all_goals simp [Config.opts]
    all_goals omega

-- After 91 seconds the transaction is replaced by one with another nonce.
theorem onBlock_not_sentOnce : ¬∀ cfg thresholds nonce state k,
    Steps (Iterates cfg fun _ _ => True) (.new thresholds nonce state) k →
    SentOnce k.client.journal := by
  intro h
  have hs := h .opts ∅ 0 none (pendingFor 91)
    (.tail (.single (.onBlock trivial)) (.onBlock trivial))
  have h₀ : 0 ∈ opened .liquidation 1 (pendingFor 91).client.journal := by decide +kernel
  have h₁ : 1 ∈ opened .liquidation 1 (pendingFor 91).client.journal := by decide +kernel
  exact absurd (hs.same .liquidation 1 0 h₀ 1 h₁) Nat.zero_ne_one

end YieldLiquidator
