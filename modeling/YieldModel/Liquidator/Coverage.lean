import YieldModel.Liquidator.Effects

open Execution Prog

-- No block is skipped: the bot has queried the logs of all blocks before the last one.

namespace YieldLiquidator

variable {cfg : Config} {it : Iteration} {k k' k₀ : Keeper} {f t step b c : U64}

theorem mem_stepBy (h : step ≠ 0) :
    c ∈ stepBy f t step ↔ ∃ i, (c : ℕ) = f + step * i ∧ (c : ℕ) < t := by
  have hs : 0 < (step : ℕ) := Nat.pos_of_ne_zero fun h' => h (Fin.ext h')
  have hi i : i < (t - f + step - 1 : ℕ) / step ↔ f + step * i < (t : ℕ) := by
    rw [Nat.lt_iff_add_one_le, Nat.le_div_iff_mul_le hs, Nat.add_mul, Nat.mul_comm i]
    omega
  simp only [stepBy, List.mem_map, List.mem_range', Fin.ext_iff, Uint.truncate_val, hi]
  constructor
  case mp =>
    intro ⟨n, ⟨i, ht, hn⟩, hc⟩
    rw [Nat.mod_eq_of_lt (hn ▸ ht.trans t.isLt)] at hc
    exact ⟨i, hc.symm.trans hn, hc ▸ hn ▸ ht⟩
  case mpr =>
    intro ⟨i, hc, ht⟩
    exact ⟨c, ⟨i, hc ▸ ht, hc⟩, Nat.mod_eq_of_lt c.isLt⟩

-- Every block of the range is in a batch, whose last block is `c + step - 1`.
theorem exists_mem_stepBy (h : step ≠ 0) (hf : f ≤ b) (ht : b < t) :
    ∃ c ∈ stepBy f t step, c ≤ b ∧ (b : ℕ) < c + step := by
  have hs : 0 < (step : ℕ) := Nat.pos_of_ne_zero fun h' => h (Fin.ext h')
  have hd := Nat.div_add_mod (b - f : ℕ) step
  have hm := Nat.mod_lt (b - f : ℕ) hs
  have hf : (f : ℕ) ≤ b := hf
  have ht : (b : ℕ) < t := ht
  generalize hq : (step : ℕ) * ((b - f : ℕ) / step) = q at hd
  have hc : (f + q : ℕ) < 2 ^ 64 := lt_of_le_of_lt (by omega) b.isLt
  refine ⟨⟨f + q, hc⟩, (mem_stepBy h).mpr ⟨(b - f : ℕ) / step, ?_, ?_⟩, ?_, ?_⟩
  case refine_1 => exact congrArg _ hq.symm
  case refine_2 => dsimp only; omega
  case refine_3 => exact Fin.le_def.mpr (by dsimp only; omega)
  case refine_4 => dsimp only; omega

-- The ends of the batches can be computed without overflow.
def Fits (cfg : Config) (f t : U64) : Prop :=
  ∀ size, cfg.blocksPerBatch = some size → ∀ c ∈ stepBy f t size, (c : ℕ) + size ≤ 2 ^ 64

theorem Fits.stepSize (h : Fits cfg f t) (hz : stepSize cfg f t ≠ 0) (hf : f ≤ t)
    (hc : c ∈ stepBy f t (stepSize cfg f t)) : (c : ℕ) + stepSize cfg f t ≤ 2 ^ 64 := by
  cases hs : cfg.blocksPerBatch
  case some size =>
    simp only [YieldLiquidator.stepSize, hs, Option.getD_some] at hc ⊢
    exact h size hs c hc
  case none =>
    -- There is one batch only, which begins with `f`.
    have ⟨i, hi, ht⟩ := (mem_stepBy hz).mp hc
    have hs : (YieldLiquidator.stepSize cfg f t : ℕ) = (t - f : ℕ) + 1 := by
      simp only [YieldLiquidator.stepSize, hs, Option.getD_none] at hz ⊢
      have hd : ((t - f : U64) : ℕ) = t - f := Fin.sub_val_of_le hf
      have hv : ((t - f + 1 : U64) : ℕ) = (t - f + 1 : ℕ) % 2 ^ 64 := by rw [Fin.val_add, hd]; rfl
      have hl := t.isLt
      have hn : ((t - f + 1 : U64) : ℕ) ≠ 0 := fun h => hz (Fin.ext h)
      omega
    have hl := t.isLt
    have hf : (f : ℕ) ≤ t := hf
    cases i
    case zero   => omega
    case succ i =>
      rw [Nat.mul_succ] at hi
      omega

def Covered (event : U64 → U64 → List VaultIdType → Event) (journal : List Event) (b : U64) :
    Prop :=
  ∃ f t ids, event f t ids ∈ journal ∧ f ≤ b ∧ b ≤ t

section Queries

variable {answer : U64 → U64 → Result (List VaultIdType)}
variable {event : U64 → U64 → List VaultIdType → Event} {ids : List VaultIdType}

-- What has been queried for one block of the range.
theorem Queried.exists_of_mem (h : Queried cfg answer event f t ids k) (hs : Fits cfg f t)
    (hf : f ≤ b) (ht : b < t) : ∃ c d ids', c ≤ b ∧ b ≤ d ∧ event c d ids' ∈ k.client.journal ∧
      answer c d = .ok ids' ∧ ∀ v ∈ ids', isWhitelisted cfg v → v ∈ ids := by
  have ⟨c, hc, hcb, hb⟩ := exists_mem_stepBy h.step_ne_zero hf ht
  have ⟨ids', ha, he, hi⟩ := h.batches c hc
  refine ⟨c, _, ids', hcb, ?_, he, ha, hi⟩
  have hz := Nat.pos_of_ne_zero fun h' => h.step_ne_zero (Fin.ext h')
  have hl := hs.stepSize h.step_ne_zero (hf.trans ht.le) hc
  generalize stepSize cfg f t = step at hb hl hz
  have hd : ((c + step - 1 : U64) : ℕ) = c + step - 1 := by
    rw [Fin.val_sub, Fin.val_add, show ((1 : U64) : ℕ) = 1 from rfl]
    omega
  exact Fin.le_def.mpr (by omega)

theorem Queried.covered (h : Queried cfg answer event f t ids k) (hs : Fits cfg f t) (hf : f ≤ b)
    (ht : b < t) : Covered event k.client.journal b :=
  have ⟨c, d, ids', hc, hd, he, _⟩ := h.exists_of_mem hs hf ht
  ⟨c, d, ids', he, hc, hd⟩

end Queries

-- What an iteration does to the keeper.
inductive Run.Outcome (cfg : Config) (it : Iteration) (k : Keeper) : Keeper → Prop
  | idle : Outcome cfg it k k
  | fails {blockNumber} : it.blockNumber = .ok blockNumber →
    Outcome cfg it k ((Keeper.onBlock cfg it.node blockNumber).exec k).2
  | advances {blockNumber k'} : it.blockNumber = .ok blockNumber →
    (Keeper.onBlock cfg it.node blockNumber).exec k = (.ok (), k') →
    Outcome cfg it k { k' with lastBlock := blockNumber }

namespace Run

variable {I : Keeper → Prop}

theorem log_keeps : Keeps (fun r => I r.keeper) (log it) :=
  .bind .get fun _ => .bind (.modify fun _ h => h) fun _ => .assert _ _

theorem announceBlock_keeps : Keeps (fun r => I r.keeper) (announceBlock it) := by
  refine .bind (.ofResult _) fun timestamp => ?_
  cases timestamp
  case none => exact .pure _
  case some => exact .assert _ _

theorem openFile_keeps : Keeps (fun r => I r.keeper) (openFile it b) :=
  .ite (.bind (.assert _ _) fun _ => .modify fun _ h => h) (.pure _)

theorem processBlock_outcome (h : it.blockNumber = .ok b) :
    Triple (fun r => r.keeper = k) (processBlock cfg it b) (fun _ r => Outcome cfg it k r.keeper)
      (fun r => Outcome cfg it k r.keeper) := by
  have hk {x : Loop Unit} (hx : Keeps (fun r => r.keeper = k) x) :
      Triple (fun r => r.keeper = k) x (fun _ r => r.keeper = k)
        (fun r => Outcome cfg it k r.keeper) :=
    hx.mono (fun _ h => h) (fun _ _ h => h) fun _ h => h ▸ .idle
  have hf (r : Run) (hr : r.keeper = ((Keeper.onBlock cfg it.node b).exec k).2) :
      Outcome cfg it k r.keeper := hr ▸ .fails h
  unfold processBlock
  refine .bind (hk (.modify fun _ h => h)) fun _ => ?_
  refine .bind (hk (announceBlock_keeps (I := (· = k)))) fun _ => ?_
  refine .bind (hk (openFile_keeps (I := (· = k)))) fun _ => ?_
  refine .bind ((Triple.attempt (.zoom (.run _ k) fun _ _ => rfl)).mono (fun _ h => h)
    (fun _ _ h => h) hf) fun r => ?_
  cases r
  case ok =>
    have ho (r : Run) (hr : (Keeper.onBlock cfg it.node b).exec k = (.ok (), r.keeper)) :
        Outcome cfg it k { r.keeper with lastBlock := b } := .advances h hr
    refine .bind (Q := fun _ r => Outcome cfg it k r.keeper) (.modify ho) fun _ => ?_
    exact Keeps.bind .get fun _ =>
      .ite (.bind (.modify fun _ h => h) fun _ => log_keeps) (.pure _)
  case error =>
    let Q (_ : Unit) (r : Run) := Outcome cfg it k r.keeper
    refine .bind (Q := Q) (.modify fun r hr => hf r hr) fun _ => ?_
    exact Keeps.bind .get fun _ => .ite (.error _) (.pure _)

theorem iterate_outcome : Triple (fun r => r.keeper = k) (iterate cfg it)
    (fun _ r => Outcome cfg it k r.keeper) (fun r => Outcome cfg it k r.keeper) := by
  have hi (r : Run) (h : r.keeper = k) : Outcome cfg it k r.keeper := h ▸ .idle
  unfold iterate
  split
  case h_1 =>
    refine .bind (Q := fun _ r => keeper r = k) (.modify fun _ h => h) fun _ => ?_
    refine .bind (Q := fun n r => keeper r = k ∧ it.blockNumber = .ok n)
      (.ofResult (fun _ hn _ h => ⟨h, hn⟩) hi) fun n => .given fun hn => ?_
    exact .get_bind fun r _ => .ite (fun _ => processBlock_outcome hn) fun _ => .pure hi
  case h_2 =>
    refine .bind (Q := fun _ r => keeper r = k) (.modify fun _ h => h) fun _ => ?_
    exact .get_bind fun r _ => .ite (fun _ => .error _ hi) fun _ => .ofResult (fun _ _ => hi) hi

theorem next_outcome (r : Run) : Outcome cfg it r.keeper (r.next cfg it).keeper := by
  have h : Triple (fun s => s.keeper = r.keeper) (iterate cfg it)
      (fun _ s => Outcome cfg it r.keeper s.keeper) (fun s => Outcome cfg it r.keeper s.keeper) :=
    iterate_outcome
  have h := h r rfl
  unfold next
  cases hx : (iterate cfg it).exec r with | mk res r' =>
  rw [hx] at h
  cases res
  case ok    => exact h
  case error => exact h

end Run

-- The node reports no block before the last one, and the logs of a range have all vaults which have
-- been poured in it.
structure Sound (poured : U64 → List VaultIdType) (it : Iteration) (k : Keeper) : Prop where
  heads  : ∀ b, it.blockNumber = .ok b → k.lastBlock ≤ b
  honest : ∀ f t ids, it.node.vaultPoured f t = .ok ids → ∀ b, f ≤ b → b ≤ t → poured b ⊆ ids

def InRange (cfg : Config) (it : Iteration) (k : Keeper) : Prop :=
  ∀ b, it.blockNumber = .ok b → Fits cfg k.lastBlock b

-- The steps of a run.
def Run.Step (cfg : Config) (P : Iteration → Keeper → Prop) (r r' : Run) : Prop :=
  r.running ∧ ∃ it, P it r.keeper ∧ r' = r.next cfg it

-- Nothing has been missed from the block `s` on.
structure Complete (cfg : Config) (poured : U64 → List VaultIdType) (s : U64) (k : Keeper) :
    Prop where
  vaultPoured : ∀ b, s ≤ b → b < k.lastBlock → Covered .vaultPoured k.client.journal b
  auctioned   : ∀ b, s ≤ b → b < k.lastBlock → Covered .auctioned k.client.journal b
  vaults      : ∀ b, s ≤ b → b < k.lastBlock → ∀ v ∈ poured b, isWhitelisted cfg v →
                v ∈ k.borrowers.vaults

variable {poured : U64 → List VaultIdType} {s : U64} {r r' : Run}

theorem Covered.grows {event} (h : Grows k k') (hc : Covered event k.client.journal b) :
    Covered event k'.client.journal b :=
  have ⟨f, t, ids, he, hf, ht⟩ := hc
  ⟨f, t, ids, h.journal he, hf, ht⟩

theorem Complete.grows (h : Grows k k') (hk : Complete cfg poured s k) :
    Complete cfg poured s k' where
  vaultPoured b hs hb      := (hk.vaultPoured b hs (h.lastBlock ▸ hb)).grows h
  auctioned b hs hb        := (hk.auctioned b hs (h.lastBlock ▸ hb)).grows h
  vaults b hs hb v hv hw   := h.vaults v (hk.vaults b hs (h.lastBlock ▸ hb) v hv hw)

theorem Complete.advances {n : U64} (hk : Complete cfg poured s k) (hi : Sound poured it k)
    (hr : InRange cfg it k) (hn : it.blockNumber = .ok n)
    (h : (Keeper.onBlock cfg it.node n).exec k = (.ok (), k')) :
    Complete cfg poured s { k' with lastBlock := n } := by
  have ⟨hp, ho⟩ := Keeper.onBlock_processed.ok rfl h
  have hk := hk.grows hp.grows
  have ⟨ids, hq, hv⟩ := ho.vaultPoured
  have ⟨_, hq'⟩ := ho.auctioned
  have hl : k'.lastBlock = k.lastBlock := hp.grows.lastBlock
  have hf := hr n hn
  exact {
    vaultPoured := fun b hs hb => by
      by_cases hb' : b < k'.lastBlock
      case pos => exact hk.vaultPoured b hs hb'
      case neg => exact hq.covered hf (hl ▸ not_lt.mp hb') hb
    auctioned := fun b hs hb => by
      by_cases hb' : b < k'.lastBlock
      case pos => exact hk.auctioned b hs hb'
      case neg => exact hq'.covered hf (hl ▸ not_lt.mp hb') hb
    vaults := fun b hs hb v hm hw => by
      by_cases hb' : b < k'.lastBlock
      case pos => exact hk.vaults b hs hb' v hm hw
      case neg =>
        have ⟨c, d, ids', hc, hd, _, ha, hi'⟩ := hq.exists_of_mem hf (hl ▸ not_lt.mp hb') hb
        exact hv v (hi' v (hi.honest c d ids' ha b hc hd hm) hw)
  }

theorem Run.Outcome.complete (h : Outcome cfg it k k') (hi : Sound poured it k)
    (hr : InRange cfg it k) (hk : Complete cfg poured s k) : Complete cfg poured s k' := by
  cases h
  case idle           => exact hk
  case fails          => exact hk.grows Keeper.onBlock_exec.grows
  case advances hn he => exact hk.advances hi hr hn he

theorem Run.Outcome.vaults (h : Outcome cfg it k k') {v : VaultIdType}
    (hv : v ∈ k.borrowers.vaults) : v ∈ k'.borrowers.vaults := by
  cases h
  case idle           => exact hv
  case fails          => exact Keeper.onBlock_exec.grows.vaults v hv
  case advances hn he =>
    have ⟨hp, _⟩ := Keeper.onBlock_processed.ok rfl he
    exact hp.grows.vaults v hv

theorem Run.Step.preserves_complete :
    Preserves (Step cfg fun it k => Sound poured it k ∧ InRange cfg it k)
      fun r => Complete cfg poured s r.keeper :=
  fun _ _ ⟨_, _, ⟨hi, hf⟩, hr⟩ hk => hr ▸ (next_outcome _).complete hi hf hk

theorem Run.Step.preserves_vaults {P : Iteration → Keeper → Prop} {v : VaultIdType} :
    Preserves (Step cfg P) fun r => v ∈ r.keeper.borrowers.vaults :=
  fun _ _ ⟨_, _, _, hr⟩ hv => hr ▸ (next_outcome _).vaults hv

theorem Run.start_complete {disk : Bytes} :
    Complete cfg poured s (start k disk (some s)).keeper where
  vaultPoured _ hs hb  := absurd hb hs.not_gt
  auctioned _ hs hb    := absurd hb hs.not_gt
  vaults _ hs hb       := absurd hb hs.not_gt

theorem run_complete {disk : Bytes}
    (e : Steps (Run.Step cfg fun it k => Sound poured it k ∧ InRange cfg it k)
      (.start k disk (some s)) r) :
    Complete cfg poured s r.keeper ∧
    ∀ r', Steps (Run.Step cfg fun it k => Sound poured it k ∧ InRange cfg it k) r r' →
    ∀ v ∈ r.keeper.borrowers.vaults, v ∈ r'.keeper.borrowers.vaults :=
  ⟨Run.Step.preserves_complete.steps e Run.start_complete,
    fun _ e' _ hv => Run.Step.preserves_vaults.steps e' hv⟩

-- The vault 1 is poured in the block 6.
def pouredIn6 (b : U64) : List VaultIdType :=
  if b = 6 then [1] else []

def Iteration.head (b : U64) : Iteration where
  filterChanges := .ok ()
  newFilter     := .ok ()
  blockNumber   := .ok b
  block         := .ok none
  opens         := true
  toWriter _    := ([], true)
  node          := { Node.single 1 with
    vaultPoured f t := .ok (if f ≤ 6 ∧ 6 ≤ t then [1] else []) }

theorem sound_head (h : k.lastBlock ≤ b) : Sound pouredIn6 (.head b) k where
  heads _ hb := by
    cases hb
    exact h
  honest f t ids hi b hf ht v hv := by
    cases hi
    unfold pouredIn6 at hv
    split at hv
    case isTrue hb => simpa [← hb, hf, ht] using hv
    case isFalse   => cases hv

def Config.batches (size : U64) : Config :=
  { Config.opts with blocksPerBatch := some size }

def observe (size b : U64) : Run :=
  .next (.batches size) (.head b) (.start (.new ∅ 0 none) [] (some 5))

theorem observe_step {P : Iteration → Keeper → Prop} {size : U64}
    (h : P (.head b) (Run.start (.new ∅ 0 none) [] (some 5)).keeper) :
    Run.Step (.batches size) P (.start (.new ∅ 0 none) [] (some 5)) (observe size b) :=
  ⟨rfl, .head b, h, rfl⟩

-- With batches of three blocks, the bot finds the vault.
theorem run_complete_observe : (observe 3 9).keeper.lastBlock = 9 ∧
    Complete (.batches 3) pouredIn6 5 (observe 3 9).keeper := by
  refine ⟨by decide +kernel, (run_complete (.single (observe_step ⟨?_, ?_⟩))).1⟩
  case refine_1 => exact sound_head (by decide +kernel)
  case refine_2 =>
    intro b hb size hs c hc
    cases hb
    cases hs
    have ⟨_, _, hl⟩ := (mem_stepBy (by decide)).mp hc
    exact (Nat.add_le_add_right hl.le _).trans (by decide)

-- The end of a batch of `2 ^ 64 - 1` blocks wraps around, so the only batch ends before it begins.
theorem run_not_complete : ¬∀ cfg poured s k disk r, cfg.blocksPerBatch ≠ some 0 →
    Steps (Run.Step cfg fun it k => Sound poured it k) (.start k disk (some s)) r →
    Complete cfg poured s r.keeper := by
  intro h
  have hc := h (.batches 18446744073709551615) pouredIn6 5 _ _ _ (by decide)
    (.single (observe_step (sound_head (by decide +kernel : _ ≤ (9 : U64)))))
  have hl : (observe 18446744073709551615 9).keeper.lastBlock = 9 := by decide +kernel
  have hv : (1 : VaultIdType) ∉ (observe 18446744073709551615 9).keeper.borrowers.vaults := by
    decide +kernel
  exact hv (hc.vaults 6 (by decide) (hl ▸ by decide) 1 (by decide) rfl)

end YieldLiquidator
