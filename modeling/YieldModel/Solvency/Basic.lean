import YieldModel.Lib.Accumulation
import YieldModel.Lib.Signed
import YieldModel.Objects.Cauldron
import YieldModel.Objects.Math

open Accumulation

-- The contract compares the value of all assets in the Joins with the value of all fyToken in
-- circulation, both in ETH.
namespace Solvency

def ETH : Bytes6 := 0x303000000000

def FCASH : Address := 0x1344A36A1B56144C3Bc62E7757377D288fDE0369

-- The answers of the registries, and of the tokens, Joins and oracles which they name.
structure Context where
  series        : Bytes6 → Call DataTypes.Series
  spotOracles   : Bytes6 → Bytes6 → Call Address
  joins         : Bytes6 → Call Address
  totalSupply   : (fyToken : Address) → Call (Uint 256)
  storedBalance : (join : Address) → Call (Uint 256)
  asset         : (join : Address) → Call Address
  accrual       : (join : Address) → Call (Uint 256)
  peek          : (oracle : Address) → (base quote : Bytes32) → ℕ → Call (Uint 256)

-- The conversion of a bytes6 to a bytes32, which fills it up with zeros on the right.
def toBytes32 (b : Bytes6) : Bytes32 :=
  ⟨b * 2 ^ 208, by have := b.isLt; omega⟩

def seriesRedeemable (ctx : Context) (seriesId : Bytes6) : Call (Uint 256) := do
  let series_ ← ctx.series seriesId
  let baseId := series_.baseId
  let fyToken := series_.fyToken
  let oracle ← ctx.spotOracles baseId ETH
  let totalSupply ← ctx.totalSupply fyToken
  ctx.peek oracle (toBytes32 baseId) (toBytes32 ETH) totalSupply

-- The aggregated ETH value of all fyToken in circulation.
def redeemable (ctx : Context) (seriesIds : List Bytes6) : Call (Uint 256) :=
  accumulate (seriesRedeemable ctx) seriesIds

def joinAvailable (ctx : Context) (assetId : Bytes6) : Call (Uint 256) := do
  let join ← ctx.joins assetId
  let oracle ← ctx.spotOracles assetId ETH
  let storedBalance ← ctx.storedBalance join
  let asset ← ctx.asset join
  let storedBalance ← (if asset = FCASH then do
      let accrual ← ctx.accrual join
      -- The stored balance of a mature NotionalJoin is converted to an fCash amount.
      if accrual ≠ 0 then Math.wdiv storedBalance accrual else return storedBalance
    else
      return (storedBalance : ℕ))
  ctx.peek oracle (toBytes32 assetId) (toBytes32 ETH) storedBalance

-- The aggregated ETH value of all assets in the Joins.
def available (ctx : Context) (assetIds : List Bytes6) : Call (Uint 256) :=
  accumulate (joinAvailable ctx) assetIds

def i256 (x : Uint 256) : Call (Sint 256) :=
  Sint.ofUint 256 x

def delta (ctx : Context) (assetIds seriesIds : List Bytes6) : Call (Sint 256) := do
  let a ← available ctx assetIds
  let a ← i256 a
  let r ← redeemable ctx seriesIds
  let r ← i256 r
  Sint.sub a r

-- The ratio has 6 decimals.
def ratio (ctx : Context) (assetIds seriesIds : List Bytes6) : Call (Sint 256) := do
  let a ← available ctx assetIds
  let a ← i256 a
  let a ← Sint.mul a ⟨1000000, by decide, by decide⟩
  let r ← redeemable ctx seriesIds
  let r ← i256 r
  Sint.div a r

variable {ctx : Context} {assetIds seriesIds : List Bytes6} {d r : Sint 256} {n : Uint 256}

-- Both measures are taken of two amounts which fit into an int256.
structure Measured (ctx : Context) (assetIds seriesIds : List Bytes6) (a r : ℕ) : Prop where
  available  : ∃ n : Uint 256, Solvency.available ctx assetIds = .ok n ∧ (n : ℕ) = a
  redeemable : ∃ n : Uint 256, Solvency.redeemable ctx seriesIds = .ok n ∧ (n : ℕ) = r
  a_lt       : a < 2 ^ 255
  r_lt       : r < 2 ^ 255

theorem i256_eq_ok : i256 n = .ok d ↔ d.val = (n : ℕ) :=
  Sint.ofUint_eq_ok

theorem exists_i256_eq_ok : (∃ d, i256 n = .ok d) ↔ (n : ℕ) < 2 ^ 255 := by
  simp only [i256_eq_ok]
  refine ⟨fun ⟨d, h⟩ => by have := d.val_lt; omega, fun h => ?_⟩
  exact ⟨⟨(n : ℕ), (neg_nonpos.mpr (by positivity)).trans (Nat.cast_nonneg _), by omega⟩, rfl⟩

theorem delta_eq_ok : delta ctx assetIds seriesIds = .ok d ↔
    ∃ a r, Measured ctx assetIds seriesIds a r ∧ d.val = a - r := by
  simp only [delta, Call.bind_eq_ok, i256_eq_ok, Sint.sub_eq_ok]
  constructor
  case mp =>
    rintro ⟨a, ha, a', hai, r, hr, r', hri, hd⟩
    refine ⟨a, r, ⟨⟨a, ha, rfl⟩, ⟨r, hr, rfl⟩, ?_, ?_⟩, by rw [hd, hai, hri]⟩
    · exact exists_i256_eq_ok.mp ⟨a', i256_eq_ok.mpr hai⟩
    · exact exists_i256_eq_ok.mp ⟨r', i256_eq_ok.mpr hri⟩
  case mpr =>
    rintro ⟨_, _, ⟨⟨a, ha, rfl⟩, ⟨r, hr, rfl⟩, hal, hrl⟩, hd⟩
    obtain ⟨a', hai⟩ := exists_i256_eq_ok.mpr hal
    obtain ⟨r', hri⟩ := exists_i256_eq_ok.mpr hrl
    rw [i256_eq_ok] at hai hri
    exact ⟨a, ha, a', hai, r, hr, r', hri, by rw [hd, hai, hri]⟩

theorem ratio_eq_ok : ratio ctx assetIds seriesIds = .ok d ↔
    ∃ a r, Measured ctx assetIds seriesIds a r ∧ a * 1000000 < 2 ^ 255 ∧ r ≠ 0 ∧
      d.val = (a * 1000000 / r : ℕ) := by
  simp only [ratio, Call.bind_eq_ok, i256_eq_ok, Sint.mul_eq_ok, Sint.div_eq_ok]
  constructor
  case mp =>
    rintro ⟨a, ha, a', hai, p, hp, r, hr, r', hri, hz, hd⟩
    have := p.val_lt
    refine ⟨a, r, ⟨⟨a, ha, rfl⟩, ⟨r, hr, rfl⟩, ?_, ?_⟩, by omega, by omega, ?_⟩
    · exact exists_i256_eq_ok.mp ⟨a', i256_eq_ok.mpr hai⟩
    · exact exists_i256_eq_ok.mp ⟨r', i256_eq_ok.mpr hri⟩
    · rw [hd, hp, hai, hri]
      norm_cast
  case mpr =>
    rintro ⟨_, _, ⟨⟨a, ha, rfl⟩, ⟨r, hr, rfl⟩, hal, hrl⟩, hm, hz, hd⟩
    obtain ⟨a', hai⟩ := exists_i256_eq_ok.mpr hal
    obtain ⟨r', hri⟩ := exists_i256_eq_ok.mpr hrl
    rw [i256_eq_ok] at hai hri
    refine ⟨a, ha, a', hai, ⟨(a : ℕ) * 1000000, by omega, by omega⟩, by rw [hai], r, hr, r', hri,
      by omega, ?_⟩
    rw [hd, hri]
    norm_cast

end Solvency
