import YieldModel.Liquidator.Nonces

open Execution Prog

-- The bot filters the vaults which it finds in the logs, but not those which it restores when it is
-- started.

namespace YieldLiquidator

variable {cfg : Config} {node : Node} {t : TxType} {v : VaultIdType} {k k' k₀ : Keeper}
variable {nonce : Option ℕ} {hash : TxHash} {e : Event}

-- All vaults which the bot knows, and all for which it has sent transactions, are whitelisted.
structure Airtight (cfg : Config) (k : Keeper) : Prop where
  vaults   : ∀ v ∈ k.borrowers.vaults, isWhitelisted cfg v
  auctions : ∀ v ∈ k.liquidator.auctions, isWhitelisted cfg v
  pending  : ∀ t, ∀ v ∈ k.liquidator.pending t, isWhitelisted cfg v
  sent     : ∀ t v n hash, .broadcast t v n hash ∈ k.client.journal → isWhitelisted cfg v

def State.Whitelisted (cfg : Config) (s : State) : Prop :=
  (∀ v ∈ s.vaults, isWhitelisted cfg v) ∧ ∀ v ∈ s.auctions, isWhitelisted cfg v

namespace Airtight

theorem cacheFree : CacheFree (Airtight cfg) :=
  fun _ _ h => ⟨h.vaults, h.auctions, h.pending, h.sent⟩

theorem record (h : Airtight cfg k) (he : ∀ t v n hash, e ≠ .broadcast t v n hash) :
    Airtight cfg (k.record e) where
  vaults   := h.vaults
  auctions := h.auctions
  pending  := h.pending
  sent t v n hash hm := by
    cases List.mem_cons.mp hm
    case inl hm => exact absurd hm.symm (he t v n hash)
    case inr hm => exact h.sent t v n hash hm

theorem broadcast (h : Airtight cfg k) (hv : isWhitelisted cfg v) :
    Airtight cfg (k.broadcast t v nonce hash) where
  vaults   := h.vaults
  auctions := h.auctions
  pending  := h.pending
  sent t' v' n hash' hm := by
    rw [Keeper.broadcast_journal] at hm
    cases List.mem_cons.mp hm
    case inl hm =>
      cases hm
      exact hv
    case inr hm => exact h.sent t' v' n hash' hm

theorem mapPending
    {f : HashMap VaultIdType PendingTransaction → HashMap VaultIdType PendingTransaction}
    (h : Airtight cfg k) (hf : ∀ v ∈ f (k.liquidator.pending t), isWhitelisted cfg v) :
    Airtight cfg (k.mapPending t f) where
  vaults        := h.vaults
  auctions v hv := h.auctions v (by cases t <;> exact hv)
  pending t' v hv := by
    by_cases ht : t' = t
    case pos =>
      subst ht
      rw [Keeper.mapPending_pending] at hv
      exact hf v hv
    case neg =>
      rw [Keeper.mapPending_pending_ne ht] at hv
      exact h.pending t' v hv
  sent          := h.sent

-- A transaction is sent for a whitelisted vault, which then may be pending.
theorem send {f : HashMap VaultIdType PendingTransaction → HashMap VaultIdType PendingTransaction}
    (h : Airtight cfg k) (hv : isWhitelisted cfg v)
    (hf : ∀ m, ∀ u ∈ f m, u = v ∨ u ∈ m) :
    Airtight cfg ((k.broadcast t v nonce hash).mapPending t f) := by
  refine (h.broadcast hv).mapPending fun u hu => ?_
  cases hf _ u hu
  case inl hu => exact hu ▸ hv
  case inr hu => exact h.pending t u hu

theorem erasePending (h : Airtight cfg k) : Airtight cfg (k.mapPending t fun m => m.erase v) :=
  h.mapPending fun u hu => h.pending t u (Finmap.mem_erase.mp hu).right

theorem setAuctions {m : AuctionMap} (h : Airtight cfg k) (hm : ∀ v ∈ m, isWhitelisted cfg v) :
    Airtight cfg { k with liquidator.auctions := m } where
  vaults   := h.vaults
  auctions := hm
  pending t := by
    cases t
    case auction     => exact h.pending .auction
    case liquidation => exact h.pending .liquidation
  sent     := h.sent

theorem insertAuction (h : Airtight cfg k) (hv : isWhitelisted cfg v) (b : Bool) :
    Airtight cfg { k with liquidator.auctions := k.liquidator.auctions.insert v b } := by
  refine h.setAuctions fun u hu => ?_
  cases Finmap.mem_insert.mp hu
  case inl hu => exact hu ▸ hv
  case inr hu => exact h.auctions u hu

theorem eraseAuction (h : Airtight cfg k) :
    Airtight cfg { k with liquidator.auctions := k.liquidator.auctions.erase v } :=
  h.setAuctions fun u hu => h.auctions u (Finmap.mem_erase.mp hu).right

end Airtight

-- A transaction is replaced only if it was pending already.
theorem Bump.preserves_airtight (h₀ : Airtight cfg k₀) :
    Preserves (Bump cfg node t k₀) (Airtight cfg) := by
  intro k k' h hk
  cases h
  case confirm => exact hk.erasePending.record nofun
  case replace hl _ _ =>
    have hv := h₀.pending t _ (Finmap.mem_of_lookup_eq_some hl)
    exact hk.send hv fun _ _ hu => Finmap.mem_insert.mp hu
  case drop => exact hk.erasePending

theorem Borrowers.updateVaults_airtight {f b : U64} :
    Keeps (Airtight cfg) (updateVaults cfg node f b) := by
  unfold updateVaults
  refine Triple.bind (queryBatches_keeps fun _ _ => queryLogs_keeps ?_) fun ids => ?_
  case refine_1 => exact fun _ _ h => h.record nofun
  refine .get_bind fun k₁ h₁ => ?_
  have ha : ∀ v ∈ merge ids k₁.borrowers.vaults, isWhitelisted cfg v := by
    intro v hv
    cases mem_merge.mp hv
    case inl hv => exact h₁.right v hv
    case inr hv => exact h₁.left.vaults v hv
  refine .mono (P := Airtight cfg) ?_ (fun _ h => h.left) (fun _ _ h => h) fun _ h => h
  refine .bind (getVaultInfo_keeps Airtight.cacheFree _) fun ret => ?_
  refine Triple.modify fun k h => ⟨fun v hv => ?_, h.left.auctions, h.left.pending, h.left.sent⟩
  cases mem_foldl_insertVault.mp hv
  case inl hv => exact h.left.vaults v hv
  case inr hv => exact ha v (List.map_snd_zip h.right.le ▸ hv)

namespace Liquidator

theorem sendAndTrack_airtight {tx : TypedTransaction} {now : Instant} (hv : isWhitelisted cfg v) :
    Keeps (Airtight cfg) (sendAndTrack node t v tx now) := by
  unfold sendAndTrack
  refine Triple.bind (.attempt sendTransaction_triple) fun r => ?_
  cases r
  case error => exact .pure fun _ h => h
  case ok hash =>
    refine Triple.modify fun _ ⟨k, h, hk⟩ => ?_
    subst hk
    exact h.send hv fun _ _ hu => HashMap.mem_orInsert.mp hu

theorem startAuctions_airtight {vaults : List (VaultIdType × Vault)} {gasPrice : U256}
    (hv : ∀ p ∈ vaults, isWhitelisted cfg p.1) :
    Keeps (Airtight cfg) (startAuctions node vaults gasPrice) := by
  refine .forM fun p hp => ?_
  exact .bind .get fun _ => .ite (sendAndTrack_airtight (hv p hp)) (.pure _)

theorem submit_airtight {auction : Auction} {gasPrice : U256} (hv : isWhitelisted cfg v) :
    Keeps (Airtight cfg) (submit cfg node v auction gasPrice) := by
  exact submit_triple Airtight.cacheFree (fun _ h => h.insertAuction hv true)
    (fun _ _ _ h => h.record nofun) (fun _ _ => sendAndTrack_airtight hv) fun _ h => h

theorem buy_airtight {timestamp : U64} {gasPrice : U256} (hv : isWhitelisted cfg v) :
    Keeps (Airtight cfg) (buy cfg node v timestamp gasPrice) := by
  unfold buy
  refine .bind .get fun _ => .ite (.pure _) ?_
  refine .bind (.attempt (getAuction_keeps Airtight.cacheFree _ _)) fun r => ?_
  match r with
  | .error _ | .ok none => exact .pure _
  | .ok (some auction) =>
    exact .ite (.pure _) (.ite (.pure _) (.ite (submit_airtight hv) (.pure _)))

theorem buyOpportunity_airtight {timestamp gasPrice : U256} (hv : isWhitelisted cfg v) :
    Keeps (Airtight cfg) (buyOpportunity cfg node timestamp gasPrice v) := by
  unfold buyOpportunity
  refine .bind (.modify fun _ h => h.insertAuction hv _) fun _ => ?_
  refine .bind (asU64_keeps _) fun timestamp => .bind (.attempt (buy_airtight hv)) fun r => ?_
  cases r
  case error => exact .pure _
  case ok b  => exact .ite (.modify fun _ h => h.eraseAuction) (.pure _)

theorem buyOpportunities_airtight {f b : U64} {gasPrice : U256} :
    Keeps (Airtight cfg) (buyOpportunities cfg node f b gasPrice) := by
  unfold buyOpportunities
  refine Triple.bind (queryBatches_keeps fun _ _ => queryLogs_keeps ?_) fun ids => ?_
  case refine_1 => exact fun _ _ h => h.record nofun
  refine .get_bind fun k₁ h₁ => ?_
  refine .mono (P := Airtight cfg) ?_ (fun _ h => h.left) (fun _ _ h => h) fun _ h => h
  refine .bind (Keeps.ofResult _) fun _ => .bind (Keeps.ofResult _) fun _ => ?_
  refine .bind (Keeps.ofOption _ _) fun _ => .forM fun v hv => buyOpportunity_airtight ?_
  cases mem_merge.mp hv
  case inl hv => exact h₁.right v hv
  case inr hv => exact h₁.left.auctions v hv

end Liquidator

theorem Liquidator.removeOrBump_airtight :
    Keeps (Airtight cfg) (removeOrBump cfg node) := by
  have h t k (hk : Airtight cfg k) : Triple (· = k) (removeOrBumpInner cfg node t)
      (fun _ => Airtight cfg) (Airtight cfg) :=
    removeOrBumpInner_bumps.mono (fun _ h => h)
      (fun _ _ e => (Bump.preserves_airtight hk).steps e hk)
      fun _ e => (Bump.preserves_airtight hk).steps e hk
  exact .bind (fun k hk => h _ k hk k rfl) fun _ k hk => h _ k hk k rfl

theorem Keeper.onBlock_airtight {blockNumber : U64} :
    Keeps (Airtight cfg) (onBlock cfg node blockNumber) := by
  unfold onBlock
  refine .bind (.ofResult _) fun gasPrice => .bind Liquidator.removeOrBump_airtight fun _ => ?_
  refine .bind .get fun _ => .bind Borrowers.updateVaults_airtight fun _ => ?_
  refine Triple.get_bind fun k hk => .bind (Liquidator.startAuctions_airtight ?_) fun _ => ?_
  case refine_1 =>
    intro p hp
    have hm := HashMap.mem_iter.mp ((node.order_perm _).mem_iff.mp hp)
    exact hk.vaults p.1 (Finmap.mem_of_lookup_eq_some hm)
  case refine_2 =>
    exact .get_bind fun _ _ => Liquidator.buyOpportunities_airtight

theorem Iterates.preserves_airtight {P : Node → Keeper → Prop} :
    Preserves (Iterates cfg P) (Airtight cfg) := by
  intro k k' ⟨node, lastBlock, blockNumber, _, hk'⟩ hk
  subst hk'
  exact Keeper.onBlock_airtight.exec ⟨hk.vaults, hk.auctions, hk.pending, hk.sent⟩

theorem new_airtight {thresholds : HashMap BaseIdType U128} {n : ℕ} {state : Option State}
    (h : ∀ s, state = some s → s.Whitelisted cfg) : Airtight cfg (.new thresholds n state) := by
  cases state
  case none =>
    exact ⟨nofun, nofun, fun t => by cases t <;> nofun, nofun⟩
  case some s =>
    exact ⟨(h s rfl).left, (h s rfl).right, fun t => by cases t <;> nofun, nofun⟩

-- Started from a state all of whose vaults are whitelisted, the bot never sends a transaction for a
-- vault which is not. The state which it stores can be restored with the same whitelist.
theorem onBlock_whitelisted {thresholds : HashMap BaseIdType U128} {n : ℕ} {state : Option State}
    (h : ∀ s, state = some s → s.Whitelisted cfg)
    (e : Steps (Iterates cfg fun _ _ => True) (.new thresholds n state) k) :
    (∀ t v nonce hash, .broadcast t v nonce hash ∈ k.client.journal → isWhitelisted cfg v) ∧
    k.state.Whitelisted cfg :=
  have hk : Airtight cfg k := Iterates.preserves_airtight.steps e (new_airtight h)
  ⟨hk.sent, hk.vaults, hk.auctions⟩

-- The state of a bot without a whitelist, which has found the vault 1.
def stored : State :=
  ((Keeper.onBlock .opts (.single 1) 1).exec (.new ∅ 0 none)).2.state

-- The bot is started again, now with a whitelist.
def restarted (whitelist : Finset VaultIdType) : Keeper :=
  ((Keeper.onBlock { Config.opts with vaultsWhitelist := whitelist } (.single 1) 2).exec
    (.new ∅ 1 (some stored))).2

theorem onBlock_whitelisted_restarted :
    .broadcast .liquidation 1 1 1 ∈ (restarted {1}).client.journal ∧
    ∀ t v nonce hash, .broadcast t v nonce hash ∈ (restarted {1}).client.journal → v = 1 := by
  let cfg := { Config.opts with vaultsWhitelist := some {1} }
  have hw v (hv : isWhitelisted cfg v) : v = 1 := by simpa [isWhitelisted, cfg] using hv
  have hs : stored.Whitelisted cfg := by
    constructor
    case left =>
      intro v hv
      have hk : stored.vaults.keys = {1} := by decide +kernel
      rw [← Finmap.mem_keys, hk, Finset.mem_singleton] at hv
      exact hv ▸ rfl
    case right =>
      intro v hv
      have hk : stored.auctions.keys = ∅ := by decide +kernel
      rw [← Finmap.mem_keys, hk] at hv
      cases hv
  have e : Steps (Iterates cfg fun _ _ => True) (.new ∅ 1 (some stored)) (restarted {1}) :=
    .single (.onBlock trivial)
  have h := onBlock_whitelisted (fun s hs' => Option.some.inj hs' ▸ hs) e
  exact ⟨by decide +kernel, fun t v nonce hash hm => hw v (h.left t v nonce hash hm)⟩

theorem onBlock_not_whitelisted : ¬∀ cfg thresholds n state k,
    Steps (Iterates cfg fun _ _ => True) (.new thresholds n state) k →
    ∀ t v nonce hash, .broadcast t v nonce hash ∈ k.client.journal → isWhitelisted cfg v := by
  intro h
  have hs := h _ _ _ _ (restarted {2}) (.single (.onBlock trivial)) .liquidation 1 1 1
    (by decide +kernel)
  exact absurd hs (by decide)

end YieldLiquidator
