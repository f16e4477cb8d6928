import YieldModel.Solvency.Basic

-- The loop of the script `checkSolvencyRaw` which adds up the values of the assets in the Joins.
namespace CheckSolvencyRaw

open Solvency (ETH toBytes32)
open Math (WAD)

-- The address file of the Joins, and what the provider answers. An exception is an error.
structure Provider where
  joins         : Bytes6 → Option Address
  asset         : (join : Address) → Call Address
  storedBalance : (join : Address) → Call ℕ
  decimals      : (asset : Address) → Call ℕ
  peek          : (base quote : Bytes32) → ℕ → Call ℕ

-- The division of a BigNumber.
def div (a b : ℕ) : Call ℕ := do
  Call.require (b ≠ 0) "division-by-zero"
  return a / b

def amountInEth (env : Provider) (assetId : Bytes6) (amount : ℕ) : Call ℕ :=
  if assetId = ETH then
    return amount
  else
    tryCatch (env.peek (toBytes32 assetId) (toBytes32 ETH) amount) fun _ =>
      tryCatch (do
        let oneEthInAssetTerms ← env.peek (toBytes32 ETH) (toBytes32 assetId) WAD
        div WAD oneEthInAssetTerms) fun _ =>
        return 0

-- What an asset adds to the total, in ETH.
def value (env : Provider) (assetId : Bytes6) : Call ℕ :=
  match env.joins assetId with
  | none => return 0
  | some joinAddress =>
    if joinAddress = 0 then
      return 0
    else do
      let asset ← env.asset joinAddress
      let amount ← env.storedBalance joinAddress
      if amount = 0 then
        return 0
      else
        let amountInEth ← amountInEth env assetId amount
        let amountInEth ← div amountInEth WAD
        let _ ← env.decimals asset
        return amountInEth

def totalAssetsFrom (env : Provider) (total : ℕ) : List Bytes6 → Call ℕ
  | []                => return total
  | assetId :: assetIds => do
    let n ← value env assetId
    totalAssetsFrom env (total + n) assetIds

def totalAssets (env : Provider) (assetIds : List Bytes6) : Call ℕ :=
  totalAssetsFrom env 0 assetIds

-- The provider for which the assets of `S` have no direct path to ETH.
def Provider.without (env : Provider) (S : Finset Bytes6) : Provider :=
  { env with
    peek := fun base quote n =>
      if quote = toBytes32 ETH ∧ ∃ a ∈ S, toBytes32 a = base then .error ""
      else env.peek base quote n }

-- The balance which is stored for an asset.
structure Holds (env : Provider) (assetId : Bytes6) (amount : ℕ) : Prop where
  join   : ∃ j, env.joins assetId = some j ∧ j ≠ 0 ∧ env.storedBalance j = .ok amount ∧
           ∃ asset, env.asset j = .ok asset ∧ ∃ n, env.decimals asset = .ok n

-- The two quotes of a balance, which are reciprocal up to rounding.
structure Quotes (env : Provider) (assetId : Bytes6) (amount d p : ℕ) : Prop where
  direct     : env.peek (toBytes32 assetId) (toBytes32 ETH) amount = .ok d
  inverse    : env.peek (toBytes32 ETH) (toBytes32 assetId) WAD = .ok p
  reciprocal : d * p < amount * WAD + p ∧ amount * WAD < d * p + p

inductive Priced (env : Provider) (assetId : Bytes6) : Prop
  | skipped : (∀ j, env.joins assetId = some j → j = 0) → Priced env assetId
  | held {amount : ℕ} : Holds env assetId amount →
    (assetId ≠ ETH → ∃ d p, Quotes env assetId amount d p) → Priced env assetId

-- The balance is quoted at less than two ETH (at less than three, if one ETH is quoted at one unit).
def Negligible (d p : ℕ) : Prop :=
  d < 2 * WAD ∨ p = 1 ∧ d < 3 * WAD

variable {env : Provider} {a : Bytes6} {l : List Bytes6} {S S' : Finset Bytes6}
  {amount d p n n' m total : ℕ}

theorem toBytes32_injective {a b : Bytes6} (h : toBytes32 a = toBytes32 b) : a = b := by
  simp only [toBytes32, Fin.mk.injEq] at h
  exact Fin.ext (by omega)

theorem without_peek (base quote : Bytes32) : (env.without S).peek base quote n =
    if quote = toBytes32 ETH ∧ ∃ a ∈ S, toBytes32 a = base then .error ""
    else env.peek base quote n :=
  rfl

theorem without_peek_direct (ha : a ∈ S) :
    (env.without S).peek (toBytes32 a) (toBytes32 ETH) n = .error "" := by
  rw [without_peek, if_pos ⟨rfl, a, ha, rfl⟩]

theorem without_peek_direct_not_mem (ha : a ∉ S) :
    (env.without S).peek (toBytes32 a) (toBytes32 ETH) n =
      env.peek (toBytes32 a) (toBytes32 ETH) n := by
  rw [without_peek, if_neg]
  rintro ⟨-, b, hb, he⟩
  exact ha (toBytes32_injective he ▸ hb)

theorem without_peek_inverse (ha : a ≠ ETH) :
    (env.without S).peek (toBytes32 ETH) (toBytes32 a) n =
      env.peek (toBytes32 ETH) (toBytes32 a) n := by
  rw [without_peek, if_neg]
  exact fun h => ha (toBytes32_injective h.left)

theorem Quotes.pos (h : Quotes env a amount d p) : 0 < p := by
  have := h.reciprocal
  omega

theorem tryCatch_ok (f : String → Call ℕ) : tryCatch (.ok n : Call ℕ) f = .ok n :=
  rfl

theorem tryCatch_error (e : String) (f : String → Call ℕ) :
    tryCatch (.error e : Call ℕ) f = f e :=
  rfl

theorem div_of_ne_zero (h : n ≠ 0) : div m n = .ok (m / n) :=
  Call.bind_eq_ok.mpr ⟨(), Call.require_eq_ok.mpr h, rfl⟩

theorem Quotes.fallback (h : Quotes env a amount d p) : (do
    let oneEthInAssetTerms ← env.peek (toBytes32 ETH) (toBytes32 a) WAD
    div WAD oneEthInAssetTerms) = .ok (WAD / p) :=
  Call.bind_eq_ok.mpr ⟨p, h.inverse, div_of_ne_zero h.pos.ne'⟩

-- The amount makes no difference to the fall-back.
theorem Quotes.amountInEth_without (h : Quotes env a amount d p) (ha : a ≠ ETH) :
    amountInEth (env.without S) a amount = .ok (if a ∈ S then WAD / p else d) := by
  rw [amountInEth, if_neg ha]
  by_cases hs : a ∈ S
  case pos =>
    rw [without_peek_direct hs, without_peek_inverse ha, tryCatch_error, h.fallback, tryCatch_ok,
      if_pos hs]
  case neg =>
    rw [without_peek_direct_not_mem hs, h.direct, tryCatch_ok, if_neg hs]

theorem Holds.value_without (h : Holds env a amount) (hn : amount ≠ 0)
    (he : amountInEth (env.without S) a amount = .ok n) :
    value (env.without S) a = .ok (n / WAD) := by
  obtain ⟨j, hj, hz, hb, asset, ha, k, hd⟩ := h
  have hj : (env.without S).joins a = some j := hj
  rw [value, hj]
  simp only [if_neg hz]
  refine Call.bind_eq_ok.mpr ⟨asset, ha, Call.bind_eq_ok.mpr ⟨amount, hb, ?_⟩⟩
  rw [if_neg hn, he]
  exact Call.bind_eq_ok.mpr ⟨n, rfl, Call.bind_eq_ok.mpr ⟨n / WAD, div_of_ne_zero Math.WAD_pos.ne',
    Call.bind_eq_ok.mpr ⟨k, hd, rfl⟩⟩⟩

theorem Holds.value_without_zero (h : Holds env a 0) : value (env.without S) a = .ok 0 := by
  obtain ⟨j, hj, hz, hb, asset, ha, -⟩ := h
  have hj : (env.without S).joins a = some j := hj
  rw [value, hj]
  simp only [if_neg hz]
  exact Call.bind_eq_ok.mpr ⟨asset, ha, Call.bind_eq_ok.mpr ⟨0, hb, rfl⟩⟩

theorem Holds.unique (h : Holds env a n) (h' : Holds env a n') : n = n' := by
  obtain ⟨j, hj, -, hb, -⟩ := h
  obtain ⟨j', hj', -, hb', -⟩ := h'
  cases hj.symm.trans hj'
  exact Except.ok.inj (hb.symm.trans hb')

theorem Quotes.unique {d' p' : ℕ} (h : Quotes env a n d p) (h' : Quotes env a n d' p') :
    d = d' ∧ p = p' :=
  ⟨Except.ok.inj (h.direct.symm.trans h'.direct), Except.ok.inj (h.inverse.symm.trans h'.inverse)⟩

-- What an asset adds to the total, by its direct quote and by the fall-back.
def Worth (env : Provider) (a : Bytes6) (v f : ℕ) : Prop :=
  ∀ S, value (env.without S) a = .ok (if a ∈ S then f else v)

theorem fallback_eq (h : 0 < p) : WAD / p / WAD = if p = 1 then 1 else 0 := by
  rw [Nat.div_div_eq_div_mul]
  split
  case isTrue h  => simp [h, Nat.div_self Math.WAD_pos]
  case isFalse h =>
    have := Math.WAD_pos
    exact Nat.div_eq_of_lt (by nlinarith [show 2 ≤ p by omega])

theorem negligible_iff (h : 0 < p) : d / WAD ≤ WAD / p / WAD + 1 ↔ Negligible d p := by
  rw [fallback_eq h, Negligible, ← Nat.lt_add_one_iff, Nat.div_lt_iff_lt_mul Math.WAD_pos]
  split
  case isTrue h  => simp [h]; omega
  case isFalse h => simp [h]

theorem worth_skipped (h : ∀ j, env.joins a = some j → j = 0) : Worth env a 0 0 := by
  intro S
  rw [value, show (env.without S).joins a = env.joins a from rfl, ite_self]
  cases hj : env.joins a
  case none   => rfl
  case some j => simp [h j hj, Pure.pure, Except.pure]

theorem Holds.worth_ETH (h : Holds env ETH m) : Worth env ETH (m / WAD) (m / WAD) := by
  intro S
  rw [ite_self]
  by_cases hm : m = 0
  case neg => exact h.value_without hm (if_pos rfl)
  case pos =>
    subst hm
    rw [h.value_without_zero, Nat.zero_div]

theorem Quotes.zero (h : Quotes env a 0 d p) : d = 0 := by
  by_contra hz
  have := h.reciprocal.left
  have := Nat.le_mul_of_pos_left p (Nat.pos_of_ne_zero hz)
  omega

-- The fall-back counts an asset as one ETH at most. So it agrees with the direct quote, up to one
-- ETH, exactly for negligible balances.
theorem Holds.worth (h : Holds env a m) (ha : a ≠ ETH) (hq : Quotes env a m d p) :
    ∃ v f, Worth env a v f ∧ f ≤ v + 1 ∧ (v ≤ f + 1 ↔ Negligible d p) := by
  by_cases hm : m = 0
  case pos =>
    subst hm
    have hn : Negligible d p := .inl (hq.zero ▸ Nat.mul_pos Nat.two_pos Math.WAD_pos)
    refine ⟨0, 0, fun S => ?_, Nat.zero_le _, iff_of_true (Nat.zero_le _) hn⟩
    rw [h.value_without_zero, ite_self]
  case neg =>
    refine ⟨d / WAD, WAD / p / WAD, fun S => ?_, ?_, negligible_iff hq.pos⟩
    case refine_1 =>
      rw [h.value_without hm (hq.amountInEth_without ha), apply_ite (· / WAD)]
    case refine_2 =>
      rw [fallback_eq hq.pos]
      split
      case isTrue  => exact Nat.le_add_left ..
      case isFalse => exact Nat.zero_le _

theorem Holds.negligible_iff (h : Holds env a m) (ha : a ≠ ETH) (hq : Quotes env a m d p) :
    Negligible d p ↔
      ∀ n d p, a ≠ ETH → Holds env a n → Quotes env a n d p → Negligible d p := by
  refine ⟨fun hn n d' p' _ hh' hq' => ?_, fun hn => hn m d p ha h hq⟩
  cases h.unique hh'
  obtain ⟨rfl, rfl⟩ := hq.unique hq'
  exact hn

theorem Priced.worth (h : Priced env a) : ∃ v f, Worth env a v f ∧ f ≤ v + 1 ∧
    (v ≤ f + 1 ↔ ∀ n d p, a ≠ ETH → Holds env a n → Quotes env a n d p → Negligible d p) := by
  cases h
  case skipped h =>
    refine ⟨0, 0, worth_skipped h, Nat.zero_le _, iff_of_true (Nat.zero_le _) ?_⟩
    intro n d p _ hh _
    obtain ⟨j, hj, hz, -⟩ := hh
    exact absurd (h j hj) hz
  case held m hh hq =>
    by_cases ha : a = ETH
    case pos =>
      subst ha
      have hl := Nat.le_add_right (m / WAD) 1
      exact ⟨m / WAD, m / WAD, hh.worth_ETH, hl, iff_of_true hl fun _ _ _ he => absurd rfl he⟩
    case neg =>
      obtain ⟨d, p, hq⟩ := hq ha
      rw [← hh.negligible_iff ha hq]
      exact hh.worth ha hq

-- Two ways to price the assets of a list differ by at most one ETH per asset, if they do so for each.
theorem sum_sub_le {f g : Bytes6 → ℕ} {P : Bytes6 → Prop} [DecidablePred P]
    (h : ∀ a ∈ l, ((f a : ℤ) - g a).natAbs ≤ if P a then 1 else 0) :
    (((l.map f).sum : ℤ) - (l.map g).sum).natAbs ≤ l.countP P := by
  induction l
  case nil => simp
  case cons a l hi =>
    have ha := h a List.mem_cons_self
    have hi := hi fun b hb => h b (List.mem_cons_of_mem _ hb)
    simp only [List.map_cons, List.sum_cons, List.countP_cons, decide_eq_true_eq]
    push_cast at hi ⊢
    split at ha
    case isTrue hp  => simp only [hp, if_true]; omega
    case isFalse hp => simp only [hp, if_false]; omega

-- The change of the price of a single asset changes the total once for each of its occurrences.
theorem sum_sub_eq (v f : Bytes6 → ℕ) (a : Bytes6) (l : List Bytes6) :
    ((l.map v).sum : ℤ) - (l.map fun b => if b = a then f b else v b).sum =
      l.count a * ((v a : ℤ) - f a) := by
  induction l
  case nil => simp
  case cons b l hi =>
    simp only [List.map_cons, List.sum_cons, List.count_cons, beq_iff_eq]
    split
    case isTrue hb =>
      subst hb
      push_cast at hi ⊢
      linarith
    case isFalse hb =>
      push_cast at hi ⊢
      linarith

theorem totalAssetsFrom_eq {v f : Bytes6 → ℕ} (h : ∀ a ∈ l, Worth env a (v a) (f a)) :
    totalAssetsFrom (env.without S) total l =
      .ok (total + (l.map fun a => if a ∈ S then f a else v a).sum) := by
  induction l generalizing total
  case nil => rfl
  case cons a l hi =>
    have hi := @hi
    rw [totalAssetsFrom, h a List.mem_cons_self S, List.map_cons, List.sum_cons, ← add_assoc]
    exact hi fun b hb => h b (List.mem_cons_of_mem _ hb)

-- The fall-back does not take the amount into account. So the total is independent of the direction
-- of the quotes only if all balances are negligible.
theorem direction_independent_iff (h : ∀ a ∈ l, Priced env a) :
    (∀ S S', ∃ n n', totalAssets (env.without S) l = .ok n ∧
      totalAssets (env.without S') l = .ok n' ∧
      ((n : ℤ) - n').natAbs ≤ l.countP fun a => ¬(a ∈ S ↔ a ∈ S')) ↔
    ∀ a ∈ l, ∀ n d p, a ≠ ETH → Holds env a n → Quotes env a n d p → Negligible d p := by
  choose! v f hw hf hv using fun a ha => (h a ha).worth
  have ht : ∀ S, totalAssets (env.without S) l =
      .ok ((l.map fun a => if a ∈ S then f a else v a).sum) := fun S => by
    rw [totalAssets, totalAssetsFrom_eq hw, zero_add]
  constructor
  case mp =>
    intro hd a ha
    rw [← hv a ha]
    obtain ⟨n, n', hn, hn', hd⟩ := hd ∅ {a}
    cases (ht ∅).symm.trans hn
    cases (ht {a}).symm.trans hn'
    have hc : (l.countP fun b => ¬(False ↔ b = a)) = l.count a := by
      simp [List.count, beq_eq_decide]
    have he := sum_sub_eq v f a l
    have hp := List.count_pos_iff.mpr ha
    simp only [Finset.notMem_empty, if_false, Finset.mem_singleton, he, hc] at hd
    by_contra hl
    have : (l.count a : ℤ) * 2 ≤ l.count a * (v a - f a) :=
      Int.mul_le_mul_of_nonneg_left (by omega) (by omega)
    omega
  case mpr =>
    intro hn S S'
    refine ⟨_, _, ht S, ht S', sum_sub_le fun a ha => ?_⟩
    have := hf a ha
    have := (hv a ha).mpr (hn a ha)
    by_cases hs : a ∈ S <;> by_cases hs' : a ∈ S' <;> simp [hs, hs'] <;> omega

namespace Usdc

def USDC : Bytes6 := 0x303200000000

-- One ETH is quoted at 2000 USDC, which have 6 decimals.
def provider (amount : ℕ) : Provider where
  joins _         := some 5
  asset _         := .ok 6
  storedBalance _ := .ok amount
  decimals _      := .ok 6
  peek base _ n   := .ok (if base = toBytes32 ETH then n * 2000000000 / WAD
                          else n * WAD / 2000000000)

theorem holds (amount : ℕ) : Holds (provider amount) USDC amount :=
  ⟨5, rfl, by decide, rfl, 6, rfl, 6, rfl⟩

theorem quotes (amount : ℕ) :
    Quotes (provider amount) USDC amount (amount * WAD / 2000000000) 2000000000 where
  direct     := by
    have hn : toBytes32 USDC ≠ toBytes32 ETH := fun h => absurd (toBytes32_injective h) (by decide)
    simp only [provider, if_neg hn]
  inverse    := by simp only [provider, if_true, Nat.mul_div_cancel_left _ Math.WAD_pos]
  reciprocal := by simp only [WAD]; omega

theorem worth {amount : ℕ} (h : amount ≠ 0) : Worth (provider amount) USDC
    (amount * WAD / 2000000000 / WAD) (WAD / 2000000000 / WAD) := by
  intro S
  rw [(holds amount).value_without h ((quotes amount).amountInEth_without (by decide)),
    apply_ite (· / WAD)]

theorem priced (amount : ℕ) : ∀ a ∈ [USDC], Priced (provider amount) a := by
  intro a ha
  cases List.mem_singleton.mp ha
  exact .held (holds amount) fun _ => ⟨_, _, quotes amount⟩

end Usdc

-- The balance is worth half an ETH.
theorem direction_independent_usdc : ∃ n n',
    totalAssets ((Usdc.provider 1000000000).without ∅) [Usdc.USDC] = .ok n ∧
    totalAssets ((Usdc.provider 1000000000).without {Usdc.USDC}) [Usdc.USDC] = .ok n' ∧
    ((n : ℤ) - n').natAbs ≤ 1 := by
  have hl : ∀ a ∈ [Usdc.USDC], ∀ n d p, a ≠ ETH → Holds (Usdc.provider 1000000000) a n →
      Quotes (Usdc.provider 1000000000) a n d p → Negligible d p := by
    intro a ha n d p _ hh hq
    cases List.mem_singleton.mp ha
    cases (Usdc.holds 1000000000).unique hh
    obtain ⟨rfl, rfl⟩ := (Usdc.quotes 1000000000).unique hq
    exact .inl (by decide)
  obtain ⟨n, n', hn, hn', hd⟩ :=
    (direction_independent_iff (Usdc.priced 1000000000)).mpr hl ∅ {Usdc.USDC}
  exact ⟨n, n', hn, hn', hd.trans List.countP_le_length⟩

-- A million USDC is worth 500 ETH by the direct quote, and nothing by the fall-back.
theorem direction_dependent : ¬∀ (env : Provider) (l : List Bytes6), (∀ a ∈ l, Priced env a) →
    ∀ S S', ∃ n n', totalAssets (env.without S) l = .ok n ∧
      totalAssets (env.without S') l = .ok n' ∧ ((n : ℤ) - n').natAbs ≤ l.length := by
  intro h
  obtain ⟨n, n', hn, hn', hd⟩ := h _ _ (Usdc.priced 1000000000000) ∅ {Usdc.USDC}
  have hw := Usdc.worth (Nat.succ_ne_zero 999999999999)
  simp only [totalAssets, totalAssetsFrom, hw ∅, hw {Usdc.USDC}] at hn hn'
  cases hn
  cases hn'
  exact absurd hd (by decide)

end CheckSolvencyRaw
