import YieldModel.Lib.Execution
import YieldModel.Liquidator.Keeper

open Execution Prog

-- What the bot can do while it processes a block, effect by effect.

namespace YieldLiquidator

variable {cfg : Config} {node : Node} {t : TxType} {k k' k₀ : Keeper} {I : Keeper → Prop}

-- The effects of `removeOrBump` on the transactions which are pending in `k₀`.
inductive Bump (cfg : Config) (node : Node) (t : TxType) (k₀ : Keeper) : Keeper → Keeper → Prop
  | confirm {k v tx hash instant status} :
    (k₀.liquidator.pending t).lookup v = some (tx, hash, instant) →
    node.receipt hash = .ok (some status) →
    Bump cfg node t k₀ k ((k.mapPending t fun p => p.erase v).record (.confirmed t v))
  | replace {k v tx hash instant nonce hash' p} :
    (k₀.liquidator.pending t).lookup v = some (tx, hash, instant) →
    node.receipt hash = .ok none →
    cfg.bumpGasDelay < Uint.truncate 64 (node.bumpedAt - instant) →
    Bump cfg node t k₀ k ((k.broadcast t v nonce hash').mapPending t fun m => m.insert v p)
  | drop {k v tx hash instant} :
    (k₀.liquidator.pending t).lookup v = some (tx, hash, instant) →
    node.receipt hash = .ok none →
    cfg.bumpGasDelay < Uint.truncate 64 (node.bumpedAt - instant) →
    Bump cfg node t k₀ k (k.mapPending t fun p => p.erase v)

-- The effects of everything else.
inductive Act (cfg : Config) (node : Node) : Keeper → Keeper → Prop
  | cache {k c} :
    Act cfg node k { k with cache := c }
  | vaults {k m} :
    (∀ v ∈ k.borrowers.vaults, v ∈ m) →
    Act cfg node k { k with borrowers.vaults := m }
  | auctions {k m} :
    Act cfg node k { k with liquidator.auctions := m }
  | vaultPoured {k f t ids} :
    node.vaultPoured f t = .ok ids →
    Act cfg node k (k.record (.vaultPoured f t ids))
  | auctioned {k f t ids} :
    node.auctioned f t = .ok ids →
    Act cfg node k (k.record (.auctioned f t ids))
  | swapExactOut {k v i o n} :
    Act cfg node k (k.record (.swapExactOut v i o n))
  | submit {k t v hash tx now} :
    v ∉ k.liquidator.pending t →
    Act cfg node k ((k.broadcast t v none hash).mapPending t fun p => p.orInsert v (tx, hash, now))

abbrev Acts (cfg : Config) (node : Node) : Keeper → Keeper → Prop :=
  Steps (Act cfg node)

abbrev Bumps (cfg : Config) (node : Node) (t : TxType) (k₀ : Keeper) : Keeper → Keeper → Prop :=
  Steps (Bump cfg node t k₀)

-- Most of what the bot asks changes the cache only.
def CacheFree (I : Keeper → Prop) : Prop :=
  ∀ k c, I k → I { k with cache := c }

namespace ImmutableCache

theorem getOrFetchBaseId_keeps (h : CacheFree I) (s : SeriesIdType) :
    Keeps I (getOrFetchBaseId node s) := by
  unfold getOrFetchBaseId
  refine .bind .get fun k => ?_
  split
  case isTrue =>
    exact .bind (.ofResult _) fun _ =>
      .bind (.modify fun _ => h _ _) fun _ => .bind .get fun _ => .ofOption _ _
  case isFalse => exact .bind .get fun _ => .ofOption _ _

theorem getOrFetchAssetAddress_keeps (h : CacheFree I) (a : AssetIdType) :
    Keeps I (getOrFetchAssetAddress node a) := by
  unfold getOrFetchAssetAddress
  refine .bind .get fun k => ?_
  split
  case isTrue =>
    exact .bind (.ofResult _) fun _ =>
      .bind (.modify fun _ => h _ _) fun _ => .bind .get fun _ => .ofOption _ _
  case isFalse => exact .bind .get fun _ => .ofOption _ _

theorem isVaultIgnored_keeps (h : CacheFree I) (s : SeriesIdType) (i : IlkIdType) (debt : U128) :
    Keeps I (isVaultIgnored node s i debt) := by
  unfold isVaultIgnored
  refine .bind (getOrFetchBaseId_keeps h s) fun b => .ite (.pure _) ?_
  refine .bind .get fun k => ?_
  cases k.cache.baseToDebtThreshold.lookup b <;> exact .pure _

end ImmutableCache

namespace Borrowers

theorem getVaultInfoGenerateVault_keeps (d : List (Bool × Bytes)) (v : VaultIdType) :
    Keeps I (getVaultInfoGenerateVault node d v) := by
  unfold getVaultInfoGenerateVault
  split
  case h_1 =>
    refine .ite (.bind (.error _) fun _ => ?_) ?_ <;>
    exact .bind (.ofOption _ _) fun _ => .bind (.ofOption _ _) fun _ =>
      .bind (.ofOption _ _) fun _ => .bind (.ofOption _ _) fun _ => .pure _
  case h_2 => exact .panic _

theorem getVaultInfoChunk_keeps (ids : List VaultIdType) :
    Keeps I (getVaultInfoChunk node ids) := by
  unfold getVaultInfoChunk
  dsimp only
  split
  case h_1 =>
    exact .bind (.assert _ _) fun _ =>
      .collect fun _ _ => .attempt (getVaultInfoGenerateVault_keeps _ _)
  case h_2 => exact .panic _

theorem checkIgnored_keeps (h : CacheFree I) (r : Result Vault) :
    Keeps I (checkIgnored node r) := by
  unfold checkIgnored
  split
  case h_1 => exact .pure _
  case h_2 =>
    refine .ite (.pure _) ?_
    refine .bind (.attempt (ImmutableCache.isVaultIgnored_keeps h _ _ _)) fun r => ?_
    split <;> exact .pure _

theorem getVaultInfo_keeps (h : CacheFree I) (ids : List VaultIdType) :
    Triple I (getVaultInfo cfg node ids) (fun ret k => I k ∧ ids.length = ret.length) I := by
  unfold getVaultInfo
  refine .bind (Keeps.assert _ _) fun _ => ?_
  refine .bind (Keeps.collect fun _ _ => getVaultInfoChunk_keeps _) fun responses => ?_
  refine .bind (Keeps.collect fun _ _ => checkIgnored_keeps h _) fun ret => ?_
  let Q (_ : Unit) (k : Keeper) := I k ∧ ids.length = ret.length
  exact .bind (Q := Q) (.assert (fun h _ e => ⟨e, h⟩) fun _ e => e) fun _ => .pure fun _ h => h

end Borrowers

-- What is never lost while a block is processed.
structure Grows (k k' : Keeper) : Prop where
  lastBlock : k'.lastBlock = k.lastBlock
  journal   : k.client.journal ⊆ k'.client.journal
  vaults    : ∀ v ∈ k.borrowers.vaults, v ∈ k'.borrowers.vaults

instance : Std.Refl Grows where
  refl _ := ⟨rfl, fun _ h => h, fun _ h => h⟩

instance : IsTrans Keeper Grows where
  trans _ _ _ h h' :=
    ⟨h'.1.trans h.1, fun _ he => h'.2 (h.2 he), fun v hv => h'.3 v (h.3 v hv)⟩

theorem Act.grows (h : Act cfg node k k') : Grows k k' := by
  cases h
  case cache | auctions => exact ⟨rfl, fun _ h => h, fun _ h => h⟩
  case vaults hm        => exact ⟨rfl, fun _ h => h, hm⟩
  all_goals exact ⟨rfl, fun _ he => List.mem_cons_of_mem _ he, fun _ h => h⟩

theorem Bump.grows (h : Bump cfg node t k₀ k k') : Grows k k' := by
  cases h
  case drop => exact ⟨rfl, fun _ h => h, fun _ h => h⟩
  all_goals exact ⟨rfl, fun _ he => List.mem_cons_of_mem _ he, fun _ h => h⟩

theorem Acts.grows (e : Acts cfg node k k') : Grows k k' :=
  Preserves.relates (I := fun _ => True) (fun _ _ _ h => h) (fun _ _ _ h => h.grows) e trivial

theorem Bumps.grows (e : Bumps cfg node t k₀ k k') : Grows k k' :=
  Preserves.relates (I := fun _ => True) (fun _ _ _ h => h) (fun _ _ _ h => h.grows) e trivial

-- What has been queried when `queryBatches` returns `ids`.
structure Queried (cfg : Config) (answer : U64 → U64 → Result (List VaultIdType))
    (event : U64 → U64 → List VaultIdType → Event) (f t : U64) (ids : List VaultIdType)
    (k : Keeper) : Prop where
  step_ne_zero : stepSize cfg f t ≠ 0
  batches      : ∀ b ∈ stepBy f t (stepSize cfg f t), ∃ ids',
                 answer b (b + stepSize cfg f t - 1) = .ok ids' ∧
                 event b (b + stepSize cfg f t - 1) ids' ∈ k.client.journal ∧
                 ∀ v ∈ ids', isWhitelisted cfg v → v ∈ ids

section Queries

variable {answer : U64 → U64 → Result (List VaultIdType)}
variable {event : U64 → U64 → List VaultIdType → Event} {f t : U64}

theorem queryLogs_keeps (h : ∀ k ids, I k → I (k.record (event f t ids))) :
    Keeps I (Bot.queryLogs answer event f t) :=
  .bind (.ofResult _) fun _ => .bind (.modify fun _ hk => h _ _ hk) fun _ => .pure _

-- Whatever is found, only whitelisted ids are returned.
theorem queryBatches_keeps {query : U64 → U64 → Bot (List VaultIdType)}
    (h : ∀ f t, Keeps I (query f t)) : Triple I (queryBatches cfg node query f t)
      (fun ids k => I k ∧ ∀ v ∈ ids, isWhitelisted cfg v) I := by
  unfold queryBatches
  refine .bind (Keeps.assert _ _) fun _ => ?_
  refine .bind (Keeps.collect fun _ _ => .attempt (h _ _)) fun _ => ?_
  refine .bind (Keeps.ofResult _) fun _ => .pure fun k hk => ⟨hk, fun v hv => ?_⟩
  exact (List.mem_filter.mp hv).right

theorem queryLogs_acts
    (h : ∀ f t ids k, answer f t = .ok ids → Act cfg node k (k.record (event f t ids))) :
    Triple (Acts cfg node k₀) (Bot.queryLogs answer event f t)
      (fun ids k => Acts cfg node k₀ k ∧ answer f t = .ok ids ∧ event f t ids ∈ k.client.journal)
      (Acts cfg node k₀) := by
  unfold Bot.queryLogs
  let Q (ids : List VaultIdType) (k : Keeper) := Acts cfg node k₀ k ∧ answer f t = .ok ids
  refine .bind (Q := Q) (.ofResult (fun ids ha k e => ⟨e, ha⟩) fun _ e => e) fun ids => ?_
  refine .bind (Triple.modify fun k hk => ?_) fun _ => .pure fun _ hk => hk
  exact ⟨hk.1.tail (h _ _ _ _ hk.2), hk.2, List.mem_cons_self⟩

theorem queryBatches_acts
    (h : ∀ f t ids k, answer f t = .ok ids → Act cfg node k (k.record (event f t ids))) :
    Triple (Acts cfg node k₀) (queryBatches cfg node (Bot.queryLogs answer event) f t)
      (fun ids k => Acts cfg node k₀ k ∧ Queried cfg answer event f t ids k)
      (Acts cfg node k₀) := by
  unfold queryBatches
  let step := stepSize cfg f t
  let R (b : U64) (r : Result (List VaultIdType)) (k : Keeper) := ∀ ids, r = .ok ids →
    answer b (b + step - 1) = .ok ids ∧ event b (b + step - 1) ids ∈ k.client.journal
  by_cases hz : step ≠ 0
  case neg =>
    exact .bind (Q := fun _ _ => False) (.assert (fun h => absurd h hz) fun _ e => e)
      fun _ _ h => h.elim
  refine .bind (Keeps.assert _ _) fun _ => .bind (Triple.collect (R := R) ?_ ?_) fun rs => ?_
  case refine_1 =>
    intro b _
    refine (Triple.attempt (queryLogs_acts h)).mono (fun _ e => e) (fun r k hr => ?_) fun _ e => e
    cases r
    case ok ids  => exact ⟨hr.1, fun _ he => by cases he; exact hr.2⟩
    case error e => exact ⟨hr, nofun⟩
  case refine_2 =>
    intro b r b' _
    have hk k₀ : Keeps (Acts cfg node k₀) (Bot.queryLogs answer event b' (b' + step - 1)) :=
      (queryLogs_acts h).mono (fun _ e => e) (fun _ _ hq => hq.1) fun _ e => e
    refine .preserves (fun k₀ => .attempt (hk k₀)) fun k k' ha ⟨e, hr⟩ => ⟨e.tail ha, ?_⟩
    exact fun ids hi => ⟨(hr ids hi).1, ha.grows.journal (hr ids hi).2⟩
  let Q (ids : List (List VaultIdType)) (k : Keeper) := Acts cfg node k₀ k ∧
    List.Forall₂ (fun b r => R b r k) (node.order (stepBy f t step)) rs ∧ rs.mapM id = .ok ids
  refine .bind (Q := Q) (.ofResult (fun ids hi k hk => ⟨hk.1, hk.2, hi⟩) fun _ hk => hk.1) ?_
  intro idss
  refine .pure fun k ⟨e, hb, hi⟩ => ⟨e, hz, fun b hm => ?_⟩
  have ⟨r, hr, hbr⟩ := hb.exists_of_mem ((node.order_perm _).mem_iff.mpr hm)
  have ⟨ids, hids, hrids⟩ := (mapM_id_eq_ok hi).exists_of_mem hr
  refine ⟨ids, (hbr ids hrids).1, (hbr ids hrids).2, fun v hv hw => ?_⟩
  exact List.mem_filter.mpr ⟨List.mem_flatten.mpr ⟨ids, hids, hv⟩, hw⟩

theorem Queried.act {ids : List VaultIdType} (h : Act cfg node k k')
    (hq : Queried cfg answer event f t ids k) : Queried cfg answer event f t ids k' where
  step_ne_zero := hq.step_ne_zero
  batches b hb := by
    have ⟨ids', ha, he, hi⟩ := hq.batches b hb
    exact ⟨ids', ha, h.grows.journal he, hi⟩

end Queries

namespace Borrowers

theorem mem_insertVault {m : VaultMap} {r : Result Vault} {v u : VaultIdType} :
    u ∈ insertVault m (r, v) ↔ u = v ∨ u ∈ m := by
  cases r <;> exact Finmap.mem_insert

theorem mem_foldl_insertVault {l : List (Result Vault × VaultIdType)} {m : VaultMap}
    {u : VaultIdType} : u ∈ l.foldl insertVault m ↔ u ∈ m ∨ u ∈ l.map Prod.snd := by
  induction l generalizing m
  case nil => simp
  case cons d l ih =>
    rw [List.foldl_cons, ih, mem_insertVault, List.map_cons, List.mem_cons]
    tauto

theorem updateVaults_acts {f t : U64} : Triple (Acts cfg node k₀) (updateVaults cfg node f t)
    (fun _ k => Acts cfg node k₀ k ∧ ∃ ids,
      Queried cfg node.vaultPoured .vaultPoured f t ids k ∧ ∀ v ∈ ids, v ∈ k.borrowers.vaults)
    (Acts cfg node k₀) := by
  unfold updateVaults
  refine .bind (queryBatches_acts fun _ _ _ _ h => .vaultPoured h) fun ids => ?_
  refine .bind .get fun k₁ => ?_
  let all := merge ids k₁.borrowers.vaults
  let J (k : Keeper) := Acts cfg node k₀ k ∧ Queried cfg node.vaultPoured .vaultPoured f t ids k
  have hj : CacheFree J := fun k c h =>
    have ha : Act cfg node k { k with cache := c } := .cache
    ⟨h.1.tail ha, h.2.act ha⟩
  refine .bind ((getVaultInfo_keeps hj all).mono (fun _ h => h.2) (fun _ _ h => h)
    fun _ h => h.1) fun ret => ?_
  refine Triple.modify fun k ⟨⟨e, hq⟩, hl⟩ => ?_
  let m := (ret.zip all).foldl insertVault k.borrowers.vaults
  have ha : Act cfg node k { k with borrowers.vaults := m } :=
    .vaults fun v hv => mem_foldl_insertVault.mpr (.inl hv)
  refine ⟨e.tail ha, ids, hq.act ha, fun v hv => ?_⟩
  rw [mem_foldl_insertVault, List.map_snd_zip hl.le]
  exact .inr (mem_merge.mpr (.inl hv))

end Borrowers

theorem asU64_keeps (n : U256) : Keeps I (Bot.asU64 n) := by
  unfold Bot.asU64
  split
  case isTrue  => exact .pure _
  case isFalse => exact .panic _

theorem toU256_keeps (n : ℕ) : Keeps I (Bot.toU256 n) := by
  unfold Bot.toU256
  split
  case isTrue  => exact .pure _
  case isFalse => exact .panic _

theorem sendTransaction_triple {P : Keeper → Prop} {v : VaultIdType}
    {send : TypedTransaction → Result TxHash} {tx : TypedTransaction} :
    Triple P (Bot.sendTransaction t v send tx)
      (fun hash k => ∃ k', P k' ∧ k = k'.broadcast t v tx.nonce hash) P := by
  unfold Bot.sendTransaction
  refine .bind (Keeps.get (I := P)) fun _ => .bind (Keeps.ofResult (I := P) _) fun hash => ?_
  exact .bind (Triple.modify fun k hk => ⟨k, hk, rfl⟩) fun _ => .pure fun _ h => h

namespace Liquidator

theorem bump_bumps {v : VaultIdType} {price : U256} {tx hash instant}
    (h : (k₀.liquidator.pending t).lookup v = some (tx, hash, instant))
    (hr : node.receipt hash = .ok none)
    (hi : cfg.bumpGasDelay < Uint.truncate 64 (node.bumpedAt - instant)) :
    Keeps (Bumps cfg node t k₀ k₀) (bump node t v price) := by
  unfold bump
  refine .bind .get fun k => .bind (.ofOption _ _) fun ⟨tx', _⟩ => ?_
  cases tx'
  case legacy | eip2930 => exact .panic _
  case eip1559 x =>
    refine Triple.bind (.attempt sendTransaction_triple) fun r => ?_
    cases r
    case ok hash' =>
      refine Triple.modify fun _ ⟨k, e, hk⟩ => ?_
      subst hk
      exact e.tail (.replace h hr hi)
    case error => exact .modify fun k e => e.tail (.drop h hr hi)

theorem removeOrBumpEntry_bumps {v : VaultIdType} {p : PendingTransaction}
    (h : (k₀.liquidator.pending t).lookup v = some p) :
    Keeps (Bumps cfg node t k₀ k₀) (removeOrBumpEntry cfg node t (v, p)) := by
  match p with
  | (.legacy, _, _) | (.eip2930, _, _) => exact .panic _
  | (.eip1559 tx, hash, instant) =>
    let Q (receipt : Option Bool) (k : Keeper) :=
      Bumps cfg node t k₀ k₀ k ∧ node.receipt hash = .ok receipt
    refine Triple.bind (Q := Q) (.ofResult (fun _ hr _ e => ⟨e, hr⟩) fun _ e => e) fun receipt => ?_
    cases receipt
    case some status => exact Triple.modify fun k e => e.1.tail (.confirm h e.2)
    case none =>
      refine .given fun hr => Triple.ite (fun hi => ?_) fun _ => .pure fun _ e => e
      exact .bind (Keeps.ofOption _ _) fun _ => bump_bumps h hr hi

theorem removeOrBumpInner_bumps : Triple (· = k₀) (removeOrBumpInner cfg node t)
    (fun _ => Bumps cfg node t k₀ k₀) (Bumps cfg node t k₀ k₀) := by
  refine .bind .get fun k => ?_
  intro k' ⟨hk, hk'⟩
  subst hk hk'
  refine Keeps.forM (fun (v, p) hp => removeOrBumpEntry_bumps ?_) k .refl
  exact HashMap.mem_iter.mp ((node.order_perm _).mem_iff.mp hp)

theorem removeOrBump_bumps : Triple (· = k₀) (removeOrBump cfg node)
    (fun _ k => ∃ k₁, Bumps cfg node .liquidation k₀ k₀ k₁ ∧ Bumps cfg node .auction k₁ k₁ k)
    (fun k => ∃ k₁, Bumps cfg node .liquidation k₀ k₀ k₁ ∧ Bumps cfg node .auction k₁ k₁ k) := by
  refine .bind (removeOrBumpInner_bumps.mono (fun _ h => h) (fun _ _ e => e)
    fun k e => ⟨k, e, .refl⟩) fun _ => ?_
  intro k e
  exact removeOrBumpInner_bumps.mono (fun _ h => h) (fun _ _ e' => ⟨k, e, e'⟩)
    (fun _ e' => ⟨k, e, e'⟩) k rfl

theorem sendAndTrack_acts {v : VaultIdType} {tx : TypedTransaction} {now : Instant}
    (hn : tx.nonce = none) :
    Triple (fun k => Acts cfg node k₀ k ∧ v ∉ k.liquidator.pending t)
      (sendAndTrack node t v tx now) (fun _ => Acts cfg node k₀) (Acts cfg node k₀) := by
  unfold sendAndTrack
  refine .bind ((Triple.attempt sendTransaction_triple).mono (fun _ h => h) (fun _ _ h => h)
    fun _ h => h.1) fun r => ?_
  cases r
  case error => exact .pure fun _ h => h.1
  case ok hash =>
    refine Triple.modify fun _ ⟨k, ⟨e, hv⟩, hk⟩ => ?_
    subst hk
    rw [hn]
    exact e.tail (.submit hv)

theorem startAuctions_acts (vaults : List (VaultIdType × Vault)) (gasPrice : U256) :
    Keeps (Acts cfg node k₀) (startAuctions node vaults gasPrice) := by
  refine .forM fun (v, vault) _ => ?_
  refine Triple.bind .get fun k => .ite (fun h => ?_) fun _ => .pure fun _ e => e.2
  intro k' ⟨hk, e⟩
  subst hk
  exact sendAndTrack_acts rfl k ⟨e, h.2.1⟩

theorem offerAt_keeps (timestamp : U64) (start duration : U32) (initialOffer : U64) :
    Keeps I (offerAt node timestamp start duration initialOffer) := by
  unfold offerAt
  cases node.systemTime
  case error => exact .pure _
  case ok    => exact .bind (.attempt (.ofExcept _)) fun _ => .pure _

theorem getAuction_keeps (h : CacheFree I) (v : VaultIdType) (timestamp : U64) :
    Keeps I (getAuction cfg node v timestamp) := by
  unfold getAuction
  refine .bind (.ofResult _) fun _ => .bind (.ofResult _) fun _ => ?_
  refine .bind (ImmutableCache.isVaultIgnored_keeps h _ _ _) fun _ => .ite (.pure _) ?_
  refine .bind (offerAt_keeps _ _ _ _) fun _ => ?_
  exact .bind (ImmutableCache.getOrFetchBaseId_keeps h _) fun _ => .pure _

-- What holds until the transaction is sent, and what then holds.
theorem submit_triple {E : Keeper → Prop} {v : VaultIdType} {auction : Auction} {gasPrice : U256}
    (hc : CacheFree I)
    (ha : ∀ k, I k → I { k with liquidator.auctions := k.liquidator.auctions.insert v true })
    (hr : ∀ k i o, I k → I (k.record (.swapExactOut v i o (Uint.truncate 256 auction.debt))))
    (hs : ∀ tx, tx.nonce = none →
      Triple I (sendAndTrack node .auction v tx (node.boughtAt v)) (fun _ => E) E)
    (he : ∀ k, I k → E k) : Triple I (submit cfg node v auction gasPrice) (fun _ => E) E := by
  unfold submit
  have hk {α : Type} {x : Bot α} (hx : Keeps I x) : Triple I x (fun _ => I) E :=
    hx.mono (fun _ h => h) (fun _ _ h => h) he
  refine .bind (hk (.modify fun k h => ha k h)) fun _ => ?_
  refine .bind (hk (ImmutableCache.getOrFetchAssetAddress_keeps hc _)) fun _ => ?_
  refine .bind (hk (ImmutableCache.getOrFetchAssetAddress_keeps hc _)) fun _ => ?_
  refine .bind (hk (.modify fun k h => hr k _ _ h)) fun _ => ?_
  dsimp only
  split
  case h_1 => exact .pure he
  case h_2 =>
    refine .bind (hk (.ofOption _ _)) fun _ => .bind (hk (.ofResult _)) fun _ => ?_
    refine .bind (hk (toU256_keeps _)) fun _ => .bind (hs _ rfl) ?_
    exact fun _ => .pure fun _ e => e

theorem submit_acts (v : VaultIdType) (auction : Auction) (gasPrice : U256) :
    Triple (fun k => Acts cfg node k₀ k ∧ v ∉ k.liquidator.pendingAuctions)
      (submit cfg node v auction gasPrice) (fun _ => Acts cfg node k₀) (Acts cfg node k₀) :=
  submit_triple (fun _ _ h => ⟨h.1.tail .cache, h.2⟩) (fun _ h => ⟨h.1.tail .auctions, h.2⟩)
    (fun _ _ _ h => ⟨h.1.tail .swapExactOut, h.2⟩)
    (fun _ hn => sendAndTrack_acts (t := .auction) hn)
    fun _ h => h.1

theorem buy_acts (v : VaultIdType) (timestamp : U64) (gasPrice : U256) :
    Keeps (Acts cfg node k₀) (buy cfg node v timestamp gasPrice) := by
  unfold buy
  let J (k : Keeper) := Acts cfg node k₀ k ∧ v ∉ k.liquidator.pendingAuctions
  have hj : CacheFree J := fun _ _ h => ⟨h.1.tail .cache, h.2⟩
  refine Triple.bind .get fun k => .ite (fun _ => .pure fun _ e => e.2) fun hv => ?_
  have hp k' (h : k = k' ∧ Acts cfg node k₀ k') : J k' := ⟨h.2, h.1 ▸ hv⟩
  refine .mono (P := J) ?_ hp (fun _ _ e => e) fun _ e => e
  refine .bind ((getAuction_keeps hj v timestamp).attempt.mono (fun _ h => h) (fun _ _ h => h)
    fun _ h => h.1) fun r => ?_
  match r with
  | .error _ | .ok none => exact .pure fun _ h => h.1
  | .ok (some auction) =>
    refine .ite (fun _ => .pure fun _ h => h.1) fun _ => ?_
    refine .ite (fun _ => .pure fun _ h => h.1) fun _ => ?_
    exact .ite (fun _ => submit_acts v auction gasPrice) fun _ => .pure fun _ h => h.1

theorem buyOpportunity_acts (timestamp gasPrice : U256) (v : VaultIdType) :
    Keeps (Acts cfg node k₀) (buyOpportunity cfg node timestamp gasPrice v) := by
  unfold buyOpportunity
  refine .bind (.step fun _ => .auctions) fun _ => .bind (asU64_keeps _) fun timestamp => ?_
  refine .bind (.attempt (buy_acts v timestamp gasPrice)) fun r => ?_
  cases r
  case error => exact .pure _
  case ok b  => exact .ite (.step fun _ => .auctions) (.pure _)

theorem buyOpportunities_acts {f t : U64} (gasPrice : U256) :
    Triple (Acts cfg node k₀) (buyOpportunities cfg node f t gasPrice)
      (fun _ k => Acts cfg node k₀ k ∧ ∃ ids, Queried cfg node.auctioned .auctioned f t ids k)
      (Acts cfg node k₀) := by
  unfold buyOpportunities
  refine .bind (queryBatches_acts fun _ _ _ _ h => .auctioned h) fun ids => ?_
  let J (k : Keeper) := Acts cfg node k₀ k ∧ Queried cfg node.auctioned .auctioned f t ids k
  have hj : Preserves (Act cfg node) J := fun _ _ ha h => ⟨h.1.tail ha, h.2.act ha⟩
  have hk {α : Type} {x : Bot α} (hx : ∀ k₀, Keeps (Acts cfg node k₀) x) :
      Triple J x (fun _ => J) (Acts cfg node k₀) :=
    (Keeps.preserves hx hj).mono (fun _ h => h) (fun _ _ h => h) fun _ h => h.1
  refine .bind (hk fun _ => .get) fun _ => .bind (hk fun _ => .ofResult _) fun _ => ?_
  refine .bind (hk fun _ => .ofResult _) fun _ => .bind (hk fun _ => .ofOption _ _) fun _ => ?_
  exact (hk fun _ => .forM fun v _ => buyOpportunity_acts _ gasPrice v).mono (fun _ h => h)
    (fun _ k h => ⟨h.1, ids, h.2⟩) fun _ e => e

end Liquidator

-- The phases of `onBlock`, as far as it gets.
def Processed (cfg : Config) (node : Node) (k₀ k : Keeper) : Prop :=
  ∃ k₁ k₂, Bumps cfg node .liquidation k₀ k₀ k₁ ∧ Bumps cfg node .auction k₁ k₁ k₂ ∧
  Acts cfg node k₂ k

theorem Processed.grows (h : Processed cfg node k₀ k) : Grows k₀ k :=
  have ⟨_, _, h₁, h₂, h₃⟩ := h
  trans_of Grows h₁.grows (trans_of Grows h₂.grows h₃.grows)

-- What has been queried when `onBlock` succeeds.
structure Observed (cfg : Config) (node : Node) (f t : U64) (k : Keeper) : Prop where
  vaultPoured : ∃ ids, Queried cfg node.vaultPoured .vaultPoured f t ids k ∧
                ∀ v ∈ ids, v ∈ k.borrowers.vaults
  auctioned   : ∃ ids, Queried cfg node.auctioned .auctioned f t ids k

theorem Keeper.onBlock_processed {blockNumber : U64} :
    Triple (· = k₀) (onBlock cfg node blockNumber)
      (fun _ k => Processed cfg node k₀ k ∧ Observed cfg node k₀.lastBlock blockNumber k)
      (Processed cfg node k₀) := by
  unfold onBlock
  refine .bind (P := (· = k₀)) (.ofResult (fun _ _ _ h => h) fun k h => ?_) fun gasPrice => ?_
  case refine_1 => exact ⟨k, k, h ▸ .refl, .refl, .refl⟩
  refine .bind (Liquidator.removeOrBump_bumps.mono (fun _ h => h) (fun _ _ h => h)
    fun k ⟨k₁, h₁, h₂⟩ => ⟨k₁, k, h₁, h₂, .refl⟩) fun _ => ?_
  intro k₂ ⟨k₁, h₁, h₂⟩
  have hl : k₂.lastBlock = k₀.lastBlock := h₂.grows.lastBlock.trans h₁.grows.lastBlock
  have hp k (e : Acts cfg node k₂ k) : Processed cfg node k₀ k := ⟨k₁, k₂, h₁, h₂, e⟩
  refine Triple.mono (P := Acts cfg node k₂) (Q := fun _ k => Acts cfg node k₂ k ∧
    Observed cfg node k₀.lastBlock blockNumber k) ?_ (fun _ h => h) (fun _ k h => ⟨hp k h.1, h.2⟩)
    hp k₂ .refl
  refine .get_bind fun k e => ?_
  rw [e.grows.lastBlock.trans hl]
  refine .bind Borrowers.updateVaults_acts fun _ => ?_
  let J (k : Keeper) := Acts cfg node k₂ k ∧ ∃ ids, Queried cfg node.vaultPoured .vaultPoured
    k₀.lastBlock blockNumber ids k ∧ ∀ v ∈ ids, v ∈ k.borrowers.vaults
  have hj : Preserves (Act cfg node) J := fun k k' ha ⟨e, ids, hq, hv⟩ =>
    ⟨e.tail ha, ids, hq.act ha, fun v h => ha.grows.vaults v (hv v h)⟩
  have hk {α : Type} {x : Bot α} (hx : ∀ k₀, Keeps (Acts cfg node k₀) x) :
      Triple J x (fun _ => J) (Acts cfg node k₂) :=
    (Keeps.preserves hx hj).mono (fun _ h => h) (fun _ _ h => h) fun _ h => h.1
  refine .get_bind fun k _ => .bind (hk fun _ => Liquidator.startAuctions_acts _ _) fun _ => ?_
  refine .get_bind fun k e => ?_
  rw [e.1.grows.lastBlock.trans hl]
  have hb k : Keeps (Acts cfg node k)
      (Liquidator.buyOpportunities cfg node k₀.lastBlock blockNumber gasPrice) :=
    (Liquidator.buyOpportunities_acts gasPrice).mono (fun _ e => e) (fun _ _ h => h.1) fun _ e => e
  exact ((Liquidator.buyOpportunities_acts gasPrice).and (hk hb)).mono (fun _ h => ⟨h.1, h⟩)
    (fun _ _ h => ⟨h.1.1, h.2.2, h.1.2⟩) fun _ h => h.1

theorem Keeper.onBlock_exec {blockNumber : U64} :
    Processed cfg node k ((onBlock cfg node blockNumber).exec k).2 :=
  have h : Triple (· = k) (onBlock cfg node blockNumber) (fun _ => Processed cfg node k)
      (Processed cfg node k) :=
    onBlock_processed.mono (fun _ h => h) (fun _ _ h => h.1) fun _ h => h
  h.exec rfl

end YieldLiquidator
