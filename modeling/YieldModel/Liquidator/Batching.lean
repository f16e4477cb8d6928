import YieldModel.Lib.Yields
import YieldModel.Liquidator.Effects

open Prog

-- How vaults are fetched does not depend on how they are batched.

namespace YieldLiquidator

variable {cfg : Config} {node : Node} {k : Keeper} {v : VaultIdType}
variable {answer : MulticallCall → Bool × Bytes} {c : ImmutableCache} {n : ℕ}

section Chunks

open Borrowers (chunks)

variable {α : Type} {l l' : List α}

theorem chunks_nil (hn : 0 < n) : chunks n ([] : List α) = [] := by
  rw [chunks, List.length_nil, Nat.div_eq_of_lt (by omega)]
  rfl

theorem chunks_of_ne_nil (hn : 0 < n) (h : l ≠ []) :
    chunks n l = l.take n :: chunks n (l.drop n) := by
  have hl := List.length_pos_of_ne_nil h
  have hd : (l.length + n - 1) / n = ((l.drop n).length + n - 1) / n + 1 := by
    rw [List.length_drop]
    by_cases hln : l.length ≤ n
    case pos =>
      rw [Nat.sub_eq_zero_of_le hln, Nat.div_eq_of_lt (by omega : 0 + n - 1 < n)]
      exact Nat.div_eq_of_lt_le (by omega) (by omega)
    case neg =>
      rw [← Nat.add_div_right _ hn]
      congr 1
      omega
  rw [chunks, hd, List.range_succ_eq_map, List.map_cons, List.map_map, chunks]
  simp only [Nat.zero_mul, List.drop_zero, List.cons.injEq, true_and]
  refine List.map_congr_left fun i _ => ?_
  simp only [Function.comp_apply, List.drop_drop, Nat.succ_eq_add_one]
  congr 2
  ring

theorem chunks_append (hn : 0 < n) (h : l.length = n) : chunks n (l ++ l') = l :: chunks n l' := by
  have hl : l ++ l' ≠ [] := List.append_ne_nil_of_left_ne_nil (List.length_pos_iff.mp (h ▸ hn)) l'
  rw [chunks_of_ne_nil hn hl, List.take_left' h, List.drop_left' h]

theorem length_le_of_mem_chunks (h : l' ∈ chunks n l) : l'.length ≤ n := by
  obtain ⟨i, -, rfl⟩ := List.mem_map.mp h
  exact List.length_take_le n _

theorem chunks_flatten (hn : 0 < n) (l : List α) : (chunks n l).flatten = l := by
  induction h : l.length using Nat.strong_induction_on generalizing l
  case h m ih =>
    by_cases hl : l = []
    case pos => rw [hl, chunks_nil hn, List.flatten_nil]
    case neg =>
      have hd : (l.drop n).length < m := by
        rw [List.length_drop, h]
        exact Nat.sub_lt (h ▸ List.length_pos_of_ne_nil hl) hn
      rw [chunks_of_ne_nil hn hl, List.flatten_cons, ih _ hd (l.drop n) rfl,
        List.take_append_drop]

-- Parts of the same length are found again.
theorem chunks_flatMap {β : Type} {f : β → List α} (hn : 0 < n) (hf : ∀ b, (f b).length = n)
    (bs : List β) : chunks n (bs.flatMap f) = bs.map f := by
  induction bs
  case nil          => exact chunks_nil hn
  case cons b bs ih => rw [List.flatMap_cons, chunks_append hn (hf b), ih, List.map_cons]

theorem zip_map_self {β : Type} (f : α → β) (l : List α) :
    (l.map f).zip l = l.map fun a => (f a, a) := by
  simpa using List.zip_map' (f := f) (g := id) (l := l)

end Chunks

-- A multicall gives one result for each call, in the order of the calls, and one of the attempts to
-- make it succeeds unless the batch is too large.
structure Node.Answers (node : Node) (cfg : Config) (answer : MulticallCall → Bool × Bytes) :
    Prop where
  eq_map         : ∀ i calls response, node.tryAggregate i calls = .ok response →
                   response = calls.map answer
  exists_attempt : ∀ ids : List VaultIdType, ids.length ≤ cfg.multicallBatchSize →
                   ∃ i ≤ 5, ∃ response, node.tryAggregate i
                     (Borrowers.getVaultInfoChunkGenerateMulticallArgs ids) = .ok response

-- What a successful call returns is well-formed.
structure Abi.Decodes (abi : Abi) (answer : MulticallCall → Bool × Bytes) : Prop where
  level    : ∀ v, (answer (.level v)).1 → (abi.level (answer (.level v)).2).isSome
  balances : ∀ v, (answer (.balances v)).1 → (abi.balances (answer (.balances v)).2).isSome
  vaults   : ∀ v, (answer (.vaults v)).1 → (abi.vaults (answer (.vaults v)).2).isSome
  auctions : ∀ v, (answer (.auctions v)).1 → (abi.auctions (answer (.auctions v)).2).isSome

namespace ImmutableCache

-- The base of a series, from the cache or from the chain.
def baseOf (node : Node) (c : ImmutableCache) (s : SeriesIdType) : Result BaseIdType :=
  match c.seriesToBase.lookup s with
  | some base => .ok base
  | none      => DataTypes.Series.baseId <$> node.series s

-- Whatever has been cached, the same bases are found.
structure Agrees (node : Node) (c : ImmutableCache) (k : Keeper) : Prop where
  thresholds : k.cache.baseToDebtThreshold = c.baseToDebtThreshold
  base       : ∀ s, baseOf node k.cache s = baseOf node c s

theorem Agrees.insert {s : SeriesIdType} {series : DataTypes.Series} (h : Agrees node c k)
    (hl : k.cache.seriesToBase.lookup s = none) (hs : node.series s = .ok series) :
    Agrees node c { k with cache.seriesToBase := k.cache.seriesToBase.insert s series.baseId } where
  thresholds := h.thresholds
  base s' := by
    rw [← h.base s']
    by_cases he : s' = s
    case neg => simp only [baseOf, Finmap.lookup_insert_of_ne _ he]
    case pos =>
      subst he
      simp only [baseOf, Finmap.lookup_insert, hl, hs]
      rfl

theorem getOrFetchBaseId_yields (s : SeriesIdType) :
    Yields (Agrees node c) (getOrFetchBaseId node s) (baseOf node c s) := by
  intro k hk
  rw [← hk.base s, baseOf]
  cases hl : k.cache.seriesToBase.lookup s
  case some base =>
    rw [getOrFetchBaseId_cached hl]
    exact ⟨rfl, hk⟩
  case none =>
    have hm : s ∉ k.cache.seriesToBase := Finmap.lookup_eq_none.mp hl
    cases hs : node.series s
    case error e =>
      simp [getOrFetchBaseId, exec_bind, hm, hs, ofResult]
      exact ⟨rfl, hk⟩
    case ok series =>
      simp [getOrFetchBaseId, exec_bind, hm, hs, ofResult, Bot.modifyCache, ofOption]
      exact ⟨rfl, hk.insert hl hs⟩

theorem exists_isVaultIgnored (s : SeriesIdType) (i : IlkIdType) (debt : U128) :
    ∃ r, Yields (Agrees node c) (isVaultIgnored node s i debt) r := by
  refine ⟨_, .bind (getOrFetchBaseId_yields s) (g := fun b => .ok (if b = i then true else
    (c.baseToDebtThreshold.lookup b).elim false (decide <| debt < ·))) fun b _ => ?_⟩
  by_cases hb : b = i
  case pos =>
    simp only [hb, if_true]
    exact .pure _
  case neg =>
    simp only [hb, if_false]
    refine .get_bind (fun k hk => ?_) (.pure _)
    rw [hk.thresholds]
    cases c.baseToDebtThreshold.lookup b <;> rfl

end ImmutableCache

namespace Borrowers

theorem exists_of_retry {α : Type} {f : ℕ → Result α} {a : α} (h : retry f n = .ok a) :
    ∃ i, f i = .ok a := by
  induction n
  case zero => exact ⟨0, h⟩
  case succ n ih =>
    rw [retry] at h
    cases hr : retry f n
    case ok b =>
      rw [hr] at h
      exact ih (hr.trans h)
    case error =>
      rw [hr] at h
      exact ⟨n + 1, h⟩

theorem retry_eq_ok {α : Type} {f : ℕ → Result α} {a : α} (hf : ∀ i b, f i = .ok b → b = a)
    (h : ∃ i ≤ n, ∃ b, f i = .ok b) : retry f n = .ok a := by
  obtain ⟨i, hi, b, hb⟩ := h
  induction n
  case zero =>
    cases Nat.le_zero.mp hi
    rw [retry, hb, hf _ _ hb]
  case succ n ih =>
    rw [retry]
    cases hr : retry f n
    case ok b =>
      obtain ⟨j, hj⟩ := exists_of_retry hr
      exact congrArg _ (hf j b hj)
    case error e =>
      cases Nat.le_or_eq_of_le_succ hi
      case inl hi => exact absurd (hr.symm.trans (ih hi)) nofun
      case inr hi =>
        subst hi
        exact hb.trans (congrArg _ (hf _ b hb))

-- The calls for one vault, and what they return.
def dataOf (answer : MulticallCall → Bool × Bytes) (v : VaultIdType) : List (Bool × Bytes) :=
  (getVaultInfoChunkGenerateMulticallArgs [v]).map answer

theorem generate_map (ids : List VaultIdType) :
    (getVaultInfoChunkGenerateMulticallArgs ids).map answer = ids.flatMap (dataOf answer) := by
  rw [getVaultInfoChunkGenerateMulticallArgs, List.map_flatMap]
  rfl

theorem exists_generateVault {I : Keeper → Prop} {level balances vault auction : Bool × Bytes}
    (hl : level.1 → (node.abi.level level.2).isSome)
    (hb : balances.1 → (node.abi.balances balances.2).isSome)
    (hv : vault.1 → (node.abi.vaults vault.2).isSome)
    (ha : auction.1 → (node.abi.auctions auction.2).isSome) (v : VaultIdType) :
    ∃ r, Yields I (attempt (getVaultInfoGenerateVault node [level, balances, vault, auction] v))
      (.ok r) ∧ ∀ d, r = .ok d → d.vaultId = v := by
  obtain ⟨levelOk, level⟩ := level
  obtain ⟨balancesOk, balances⟩ := balances
  obtain ⟨vaultOk, vault⟩ := vault
  obtain ⟨auctionOk, auction⟩ := auction
  simp only [getVaultInfoGenerateVault]
  by_cases h : levelOk ∧ balancesOk ∧ vaultOk ∧ auctionOk
  case neg =>
    rw [if_pos h]
    exact ⟨_, .attempt (.bind (g := fun _ => .error .constructorError) (.error _) nofun), nofun⟩
  case pos =>
    obtain ⟨x, hx⟩ := Option.isSome_iff_exists.mp (hl h.1)
    obtain ⟨y, hy⟩ := Option.isSome_iff_exists.mp (hb h.2.1)
    obtain ⟨z, hz⟩ := Option.isSome_iff_exists.mp (hv h.2.2.1)
    obtain ⟨w, hw⟩ := Option.isSome_iff_exists.mp (ha h.2.2.2)
    rw [if_neg (not_not.mpr h)]
    simp only [hx, hy, hz, hw, ofOption, pure_bind]
    refine ⟨_, .attempt (.pure _), fun d hd => ?_⟩
    cases hd
    rfl

-- What is fetched for each vault, before it is checked whether it is to be ignored.
theorem exists_getVaultInfoChunk {I : Keeper → Prop} (ha : node.Answers cfg answer)
    (hd : node.abi.Decodes answer) : ∃ g : VaultIdType → Result Vault,
    (∀ v d, g v = .ok d → d.vaultId = v) ∧ ∀ ids, ids.length ≤ cfg.multicallBatchSize →
      Yields I (getVaultInfoChunk node ids) (.ok (ids.map g)) := by
  have h v : ∃ r, Yields I (attempt (getVaultInfoGenerateVault node (dataOf answer v) v)) (.ok r) ∧
      ∀ d, r = .ok d → d.vaultId = v :=
    exists_generateVault (hd.level v) (hd.balances v) (hd.vaults v) (hd.auctions v) v
  choose g hg hv using h
  refine ⟨g, hv, fun ids hl => ?_⟩
  have hr : retry (fun i => node.tryAggregate i (getVaultInfoChunkGenerateMulticallArgs ids)) 5 =
      .ok (ids.flatMap (dataOf answer)) :=
    retry_eq_ok (fun i _ h => (ha.eq_map i _ _ h).trans (generate_map ids))
      (ha.exists_attempt ids hl)
  have hc : (chunks 4 (ids.flatMap (dataOf answer))).zip ids =
      ids.map fun v => (dataOf answer v, v) := by
    rw [chunks_flatMap (n := 4) (by decide) fun _ => rfl]
    exact zip_map_self _ ids
  have hm : ids.map g = (ids.map fun v => (dataOf answer v, v)).map fun p => g p.2 := by
    rw [List.map_map]
    rfl
  have hn : (ids.flatMap (dataOf answer)).length = ids.length * 4 := by
    have h4 v : (dataOf answer v).length = 4 := rfl
    simp [List.length_flatMap, h4]
  simp only [getVaultInfoChunk, hr, getVaultInfoChunkParseResponse, hc, hm]
  refine .bind_ok (.assert hn) (.collect fun p hp => ?_)
  obtain ⟨v, -, rfl⟩ := List.mem_map.mp hp
  exact hg v

-- A vault which is not collateralized may be ignored. It keeps its id.
theorem exists_checkIgnored (r : Result Vault) :
    ∃ r', Yields (ImmutableCache.Agrees node c) (checkIgnored node r) (.ok r') ∧
      ∀ d', r' = .ok d' → ∃ d, r = .ok d ∧ d'.vaultId = d.vaultId := by
  cases r
  case error e => exact ⟨.error e, .pure _, nofun⟩
  case ok d =>
    simp only [checkIgnored]
    by_cases hc : d.isCollateralized
    case pos =>
      rw [if_pos hc]
      exact ⟨.ok d, .pure _, fun d' hd => ⟨d, rfl, congrArg _ (Except.ok.inj hd).symm⟩⟩
    case neg =>
      rw [if_neg hc]
      have hi : ∃ r, Yields (ImmutableCache.Agrees node c)
          (ImmutableCache.isVaultIgnored node d.seriesId d.ilkId d.debt) r :=
        ImmutableCache.exists_isVaultIgnored d.seriesId d.ilkId d.debt
      obtain ⟨ignored, hi⟩ := hi
      rcases ignored with e | _ | _
      case error    => exact ⟨.error e, .bind_ok hi.attempt (.pure _), nofun⟩
      case ok.false | ok.true =>
        refine ⟨.ok _, .bind_ok hi.attempt (.pure _), fun d' hd => ⟨d, rfl, ?_⟩⟩
        cases hd
        rfl

-- What is fetched for a vault does not depend on the others.
theorem exists_getVaultInfo (hb : 0 < cfg.multicallBatchSize) (ha : node.Answers cfg answer)
    (hd : node.abi.Decodes answer) (c : ImmutableCache) : ∃ info : VaultIdType → Result Vault,
    (∀ v d, info v = .ok d → d.vaultId = v) ∧ ∀ ids,
      Yields (ImmutableCache.Agrees node c) (getVaultInfo cfg node ids) (.ok (ids.map info)) := by
  let I := ImmutableCache.Agrees node c
  obtain ⟨g, hg, hgv⟩ := exists_getVaultInfoChunk (I := I) ha hd
  have h r : ∃ r', Yields I (checkIgnored node r) (.ok r') ∧
      ∀ d', r' = .ok d' → ∃ d, r = .ok d ∧ d'.vaultId = d.vaultId := exists_checkIgnored r
  choose h hh hv using h
  refine ⟨h ∘ g, fun v d hd => ?_, fun ids => ?_⟩
  case refine_1 =>
    obtain ⟨d', hd', he⟩ := hv _ _ hd
    exact he.trans (hg v d' hd')
  case refine_2 =>
    let batches := chunks cfg.multicallBatchSize ids
    have hr : Yields I (collect (getVaultInfoChunk node) batches) (.ok (batches.map (·.map g))) :=
      .collect fun _ hm => hgv _ (length_le_of_mem_chunks hm)
    have hf : (batches.map (·.map g)).flatten = ids.map g := by
      rw [← List.map_flatten, chunks_flatten hb]
    rw [getVaultInfo]
    refine .bind_ok (.assert hb) (.bind_ok hr ?_)
    rw [hf, ← List.map_map]
    exact .bind_ok (.collect fun r _ => hh r) (.bind_ok (.assert (by simp)) (.pure _))

theorem insertVault_eq (m : VaultMap) (r : Result Vault) (v : VaultIdType) :
    insertVault m (r, v) = m.insert v (r.toOption.getD (Vault.uninitialized v)) := by
  cases r <;> rfl

theorem lookup_foldl_insertVault (info : VaultIdType → Result Vault) (l : List VaultIdType)
    (m : VaultMap) (u : VaultIdType) :
    ((l.map fun v => (info v, v)).foldl insertVault m).lookup u =
    if u ∈ l then some ((info u).toOption.getD (Vault.uninitialized u)) else m.lookup u := by
  induction l generalizing m
  case nil => simp
  case cons v l ih =>
    rw [List.map_cons, List.foldl_cons, ih, insertVault_eq]
    by_cases hu : u ∈ l
    case pos => rw [if_pos hu, if_pos (List.mem_cons_of_mem _ hu)]
    case neg =>
      rw [if_neg hu]
      by_cases he : u = v
      case pos =>
        subst he
        rw [if_pos List.mem_cons_self, Finmap.lookup_insert]
      case neg =>
        rw [if_neg fun h => (List.mem_cons.mp h).elim he hu, Finmap.lookup_insert_of_ne _ he]

-- What is stored once new vaults have been found, if `info` is what is fetched for each vault.
theorem updateVaults_exec {info : VaultIdType → Result Vault} {f t : U64} {ids : List VaultIdType}
    {k₁ : Keeper} (hg : ∀ ids, Yields (ImmutableCache.Agrees node k.cache)
      (getVaultInfo cfg node ids) (.ok (ids.map info)))
    (hq : (queryBatches cfg node (getNewVaultIds node) f t).exec k = (.ok ids, k₁)) :
    ∃ k', (updateVaults cfg node f t).exec k = (.ok (), k') ∧
    ∀ v, k'.borrowers.vaults.lookup v = if v ∈ merge ids k.borrowers.vaults then
      some ((info v).toOption.getD (Vault.uninitialized v)) else none := by
  have hs : Keeps (fun k' => k'.cache = k.cache ∧ k'.borrowers = k.borrowers)
      (queryBatches cfg node (getNewVaultIds node) f t) :=
    (queryBatches_keeps fun _ _ => queryLogs_keeps fun _ _ h => h).mono (fun _ h => h)
      (fun _ _ h => h.left) fun _ h => h
  obtain ⟨hc, hv⟩ := hs.ok ⟨rfl, rfl⟩ hq
  let all := merge ids k.borrowers.vaults
  obtain ⟨k₂, hx, -⟩ := (hg all).exec_eq (s := k₁) ⟨by rw [hc], fun _ => by rw [hc]⟩
  have hv₂ : k₂.borrowers = k.borrowers :=
    ((getVaultInfo_keeps (I := (·.borrowers = k.borrowers)) (fun _ _ h => h) all).ok hv hx).left
  let vaults := ((all.map info).zip all).foldl insertVault k₂.borrowers.vaults
  refine ⟨{ k₂ with borrowers.vaults := vaults }, ?_, fun v => ?_⟩
  case refine_1 =>
    simp only [updateVaults, exec_bind, hq, exec_get, hv]
    rw [hx]
    rfl
  case refine_2 =>
    change (((all.map info).zip all).foldl insertVault k₂.borrowers.vaults).lookup v = _
    rw [zip_map_self, lookup_foldl_insertVault]
    split
    case isTrue => rfl
    case isFalse hm =>
      rw [hv₂, Finmap.lookup_eq_none]
      exact fun h => hm (mem_merge.mpr (.inr h))

-- However vaults are batched, the entry of each vault is what is fetched for this vault alone, and
-- it is stored under the id of the vault.
theorem getVaultInfo_alone (hb : 0 < cfg.multicallBatchSize) (ha : node.Answers cfg answer)
    (hd : node.abi.Decodes answer) (k : Keeper) :
    (∀ ids, ∃ ret k', (getVaultInfo cfg node ids).exec k = (.ok ret, k') ∧
      ret.length = ids.length ∧
      ∀ (i : ℕ) v, ids[i]? = some v → ∃ r, ret[i]? = some r ∧
        ((getVaultInfo cfg node [v]).exec k).1 = .ok [r] ∧ ∀ d, r = .ok d → d.vaultId = v) ∧
    ∀ f t ids k₁, (queryBatches cfg node (getNewVaultIds node) f t).exec k = (.ok ids, k₁) →
      ∃ k', (updateVaults cfg node f t).exec k = (.ok (), k') ∧
      (∀ v, v ∈ k'.borrowers.vaults ↔ v ∈ ids ∨ v ∈ k.borrowers.vaults) ∧
      ∀ v d, k'.borrowers.vaults.lookup v = some d → d.vaultId = v ∧
        ∃ r, ((getVaultInfo cfg node [v]).exec k).1 = .ok [r] ∧
          d = r.toOption.getD (Vault.uninitialized v) := by
  obtain ⟨info, hi, hg⟩ := exists_getVaultInfo hb ha hd k.cache
  have hk : ImmutableCache.Agrees node k.cache k := ⟨rfl, fun _ => rfl⟩
  have alone v : ((getVaultInfo cfg node [v]).exec k).1 = .ok [info v] := (hg [v] k hk).left
  constructor
  case left =>
    intro ids
    obtain ⟨k', hx, -⟩ := (hg ids).exec_eq hk
    refine ⟨ids.map info, k', hx, List.length_map info, fun i v hv => ?_⟩
    exact ⟨info v, by rw [List.getElem?_map, hv]; rfl, alone v, hi v⟩
  case right =>
    intro f t ids k₁ hq
    obtain ⟨k', hx, hl⟩ := updateVaults_exec hg hq
    refine ⟨k', hx, fun v => ?_, fun v d hd => ?_⟩
    case refine_1 =>
      rw [← Finmap.lookup_isSome, hl, ← mem_merge]
      split
      case isTrue h  => exact iff_of_true rfl h
      case isFalse h => exact iff_of_false nofun h
    case refine_2 =>
      rw [hl] at hd
      split at hd
      case isFalse => cases hd
      case isTrue =>
        cases hd
        refine ⟨?_, info v, alone v, rfl⟩
        cases hr : info v
        case error => rfl
        case ok d  => exact hi v d hr

-- The vault 1 is undercollateralized, and there is no vault 3.
def answers : MulticallCall → Bool × Bytes
  | .level v => (v ≠ 3, if v = 1 then [1] else [])
  | _        => (true, [])

-- The first attempt to make a multicall fails.
def unreliable : Node :=
  { Node.single 1 with
    abi.level := fun level => some (if level = [1] then -1 else 1)
    tryAggregate := fun i calls =>
      if i = 0 then .error .constructorError else .ok (calls.map answers) }

theorem getVaultInfo_alone_pairs : ∃ ret k',
    (getVaultInfo { Config.opts with multicallBatchSize := 2 } unreliable [1, 2, 3, 1]).exec
      (.new ∅ 0 none) = (.ok ret, k') ∧
    ret[2]? = some (.error .constructorError) ∧
    ∃ d, ret[3]? = some (.ok d) ∧ d.vaultId = 1 ∧ d.isCollateralized = false := by
  let cfg := { Config.opts with multicallBatchSize := 2 }
  have ha : unreliable.Answers cfg answers := by
    constructor
    case eq_map =>
      intro i calls response h
      by_cases hi : i = 0
      all_goals simp [unreliable, hi] at h
      exact h.symm
    case exists_attempt => exact fun _ _ => ⟨1, by decide, _, rfl⟩
  have hd : unreliable.abi.Decodes answers := by
    constructor
    all_goals exact fun _ _ => rfl
  obtain ⟨ret, k', hx, -, h⟩ :=
    (getVaultInfo_alone (by decide) ha hd (.new ∅ 0 none)).left [1, 2, 3, 1]
  obtain ⟨r, hr, he, -⟩ := h 2 3 rfl
  obtain ⟨r', hr', he', -⟩ := h 3 1 rfl
  refine ⟨ret, k', hx, ?_, ?_⟩
  case refine_1 =>
    have h₃ : ((getVaultInfo cfg unreliable [3]).exec (.new ∅ 0 none)).1.toOption =
        some [.error .constructorError] := by decide +kernel
    rw [he] at h₃
    cases h₃
    exact hr
  case refine_2 =>
    have h₁ : ((getVaultInfo cfg unreliable [1]).exec (.new ∅ 0 none)).1.toOption =
        some [.ok ⟨1, true, false, false, -1, 100, 2, 1⟩] := by decide +kernel
    rw [he'] at h₁
    cases h₁
    exact ⟨_, hr', rfl, rfl⟩

end Borrowers

end YieldLiquidator
