import YieldModel.Liquidator.Coverage

-- The ranges of blocks which are queried, in a build which checks its arithmetic.

namespace YieldLiquidator

variable {cfg : Config} {f t step c : U64} {l : List (U64 × U64)}

-- The argument of `unwrap_or` is evaluated whether it is needed or not.
def checkedStepSize (cfg : Config) (fromBlock toBlock : U64) : Call U64 := do
  let blocks ← Uint.sub toBlock fromBlock
  let allBlocks ← Uint.add blocks 1
  return cfg.blocksPerBatch.getD allBlocks

-- The first and the last block of a batch.
def checkedBatch (stepSize blockStart : U64) : Call (U64 × U64) := do
  let blockEnd ← Uint.add blockStart stepSize
  let blockLast ← Uint.sub blockEnd 1
  return (blockStart, blockLast)

def checkedRanges (cfg : Config) (fromBlock toBlock : U64) : Call (List (U64 × U64)) := do
  let stepSize ← checkedStepSize cfg fromBlock toBlock
  Call.require (stepSize ≠ 0) "assertion failed: step != 0"
  (stepBy fromBlock toBlock stepSize).mapM (checkedBatch stepSize)

theorem checkedStepSize_eq_ok : checkedStepSize cfg f t = .ok step ↔
    f ≤ t ∧ (t - f + 1 : ℕ) < 2 ^ 64 ∧ step = stepSize cfg f t := by
  simp only [checkedStepSize, Call.bind_eq_ok, Call.pure_eq_ok]
  constructor
  case mp =>
    rintro ⟨b, hb, a, ha, hs⟩
    have hd := Uint.sub_eq_ok.mp hb
    have hl := Uint.add_eq_ok.mp ha
    have h1 : ((1 : U64) : ℕ) = 1 := rfl
    refine ⟨Fin.le_def.mpr (by omega), by omega, ?_⟩
    rw [stepSize, Uint.sub_of_ok hb, Uint.add_of_ok ha, hs]
  case mpr =>
    rintro ⟨hf, hl, hs⟩
    have hb : Uint.sub t f = .ok (t - f) := Uint.sub_eq_ok.mpr (by
      rw [Fin.sub_val_of_le hf]
      exact Nat.sub_add_cancel hf)
    have ha : Uint.add (t - f) 1 = .ok (t - f + 1) := Uint.add_eq_ok.mpr (by
      rw [Fin.val_add, Fin.sub_val_of_le hf]
      exact Nat.mod_eq_of_lt hl)
    exact ⟨_, hb, _, ha, hs.symm⟩

theorem stepSize_ne_zero (hb : cfg.blocksPerBatch ≠ some 0) (hf : f ≤ t)
    (hl : (t - f + 1 : ℕ) < 2 ^ 64) : stepSize cfg f t ≠ 0 := by
  unfold stepSize
  cases h : cfg.blocksPerBatch
  case some b => exact fun h' => hb (h ▸ congrArg some h')
  case none =>
    intro h'
    have := congrArg Fin.val h'
    rw [Option.getD_none, Fin.val_add, Fin.sub_val_of_le hf] at this
    have h1 : ((1 : U64) : ℕ) = 1 := rfl
    have h0 : ((0 : U64) : ℕ) = 0 := rfl
    omega

theorem checkedBatch_ok (hz : step ≠ 0) :
    (∃ r, checkedBatch step c = .ok r) ↔ (c + step : ℕ) < 2 ^ 64 := by
  have h0 : (step : ℕ) ≠ 0 := fun h => hz (Fin.ext h)
  have h1 : ((1 : U64) : ℕ) = 1 := rfl
  simp only [checkedBatch, Call.bind_eq_ok, Call.pure_eq_ok, Uint.add_eq_ok, Uint.sub_eq_ok]
  constructor
  case mp  => exact fun ⟨_, e, he, _⟩ => he ▸ e.isLt
  case mpr => exact fun h => ⟨_, ⟨c + step, h⟩, rfl, ⟨c + step - 1, by omega⟩, by dsimp only; omega, rfl⟩

theorem checkedBatch_eq (r : U64 × U64) (h : checkedBatch step c = .ok r) :
    r = (c, c + step - 1) := by
  simp only [checkedBatch, Call.bind_eq_ok, Call.pure_eq_ok] at h
  obtain ⟨_, he, _, hl, rfl⟩ := h
  rw [← Uint.sub_of_ok hl, ← Uint.add_of_ok he]

-- The last batch begins with the last multiple of `step` before `t`, counted from `f`.
theorem forall_stepBy_fits (hz : step ≠ 0) :
    (∀ c ∈ stepBy f t step, (c + step : ℕ) < 2 ^ 64) ↔
    (f < t → (f + ((t - f - 1) / step + 1) * step : ℕ) < 2 ^ 64) := by
  have hs : 0 < (step : ℕ) := Nat.pos_of_ne_zero fun h => hz (Fin.ext h)
  have hq := Nat.div_mul_le_self (t - f - 1 : ℕ) step
  constructor
  case mp =>
    intro h hf
    have hf := Fin.lt_def.mp hf
    have hl : (f + (t - f - 1) / step * step : ℕ) < t := by omega
    have := h ⟨_, hl.trans t.isLt⟩ ((mem_stepBy hz).mpr ⟨_, by rw [mul_comm step.val], hl⟩)
    rw [Nat.add_mul, Nat.one_mul, ← Nat.add_assoc]
    exact this
  case mpr =>
    intro h c hc
    have ⟨i, hi, hl⟩ := (mem_stepBy hz).mp hc
    have hf : (f : ℕ) < t := by omega
    have hm : i * step ≤ t - f - 1 := by
      rw [mul_comm]
      omega
    have hn := Nat.mul_le_mul_right (step : ℕ)
      (Nat.add_le_add_right ((Nat.le_div_iff_mul_le hs).mpr hm) 1)
    have := h (Fin.lt_def.mpr hf)
    rw [hi, mul_comm (step : ℕ)]
    rw [Nat.add_mul i, Nat.one_mul] at hn
    omega

-- The head is not below the last block, the number of blocks fits, and so does the end of the last
-- batch.
structure Computable (cfg : Config) (f t : U64) : Prop where
  forward : f ≤ t
  blocks  : (t - f + 1 : ℕ) < 2 ^ 64
  batches : f < t → (f + ((t - f - 1) / stepSize cfg f t + 1) * stepSize cfg f t : ℕ) < 2 ^ 64

theorem checkedRanges_isOk (hb : cfg.blocksPerBatch ≠ some 0) :
    (checkedRanges cfg f t).isOk ↔ Computable cfg f t := by
  simp only [Call.isOk_iff, checkedRanges, Call.bind_eq_ok, checkedStepSize_eq_ok,
    Call.require_eq_ok]
  constructor
  case mp =>
    intro ⟨l, _, ⟨hf, hl, hs⟩, _, hz, hm⟩
    subst hs
    have hc := Call.exists_mapM_eq_ok.mp ⟨l, hm⟩
    exact ⟨hf, hl, (forall_stepBy_fits hz).mp fun c hc' => (checkedBatch_ok hz).mp (hc c hc')⟩
  case mpr =>
    intro ⟨hf, hl, hm⟩
    have hz := stepSize_ne_zero hb hf hl
    have ⟨l, h⟩ := Call.exists_mapM_eq_ok.mpr fun c hc =>
      (checkedBatch_ok hz).mpr ((forall_stepBy_fits hz).mpr hm c hc)
    exact ⟨l, _, ⟨hf, hl, rfl⟩, (), hz, h⟩

-- What is computed without a panic is what the release build computes.
theorem checkedRanges_eq (h : checkedRanges cfg f t = .ok l) :
    stepSize cfg f t ≠ 0 ∧ l = (stepBy f t (stepSize cfg f t)).map fun blockStart =>
      (blockStart, blockStart + stepSize cfg f t - 1) := by
  simp only [checkedRanges, Call.bind_eq_ok, checkedStepSize_eq_ok, Call.require_eq_ok] at h
  obtain ⟨_, ⟨-, -, rfl⟩, _, hz, h⟩ := h
  exact ⟨hz, Call.mapM_eq_ok (fun _ r hr => checkedBatch_eq r hr) h⟩

-- The release build steps by zero if the head is just below the last block.
theorem stepSize_eq_zero_iff (hb : cfg.blocksPerBatch ≠ some 0) :
    stepSize cfg f t = 0 ↔ cfg.blocksPerBatch = none ∧ t + 1 = f := by
  unfold stepSize
  cases h : cfg.blocksPerBatch
  case some b =>
    simp only [Option.getD_some, reduceCtorEq, false_and, iff_false]
    exact fun h' => hb (h ▸ congrArg some h')
  case none =>
    have h1 : ((1 : U64) : ℕ) = 1 := rfl
    have h0 : ((0 : U64) : ℕ) = 0 := rfl
    have hf := f.isLt
    have ht := t.isLt
    simp only [Option.getD_none, true_and, Fin.ext_iff, Fin.val_add, Fin.val_sub]
    omega

theorem checkedRanges_isOk_iff (hb : cfg.blocksPerBatch ≠ some 0) :
    ((checkedRanges cfg f t).isOk ↔ Computable cfg f t) ∧
    (∀ l, checkedRanges cfg f t = .ok l → stepSize cfg f t ≠ 0 ∧
      l = (stepBy f t (stepSize cfg f t)).map fun blockStart =>
        (blockStart, blockStart + stepSize cfg f t - 1)) ∧
    (stepSize cfg f t = 0 ↔ cfg.blocksPerBatch = none ∧ t + 1 = f) :=
  ⟨checkedRanges_isOk hb, fun _ => checkedRanges_eq, stepSize_eq_zero_iff hb⟩

theorem checkedRanges_isOk_iff_batches : (checkedRanges (.batches 3) 5 9).isOk ↔
    Computable (.batches 3) 5 9 :=
  (checkedRanges_isOk_iff (by decide)).left

-- A bot which has processed the block 10 sees the head 9.
def lagging : Run :=
  .next .opts (.head 9) (.start (.new ∅ 0 none) [] (some 10))

theorem checkedRanges_panics : (¬∀ cfg f t, cfg.blocksPerBatch ≠ some 0 →
    (checkedRanges cfg f t).isOk) ∧ lagging.running = false :=
  ⟨fun h => absurd (h .opts 10 9 (by decide)) (by decide), by decide +kernel⟩

end YieldLiquidator
