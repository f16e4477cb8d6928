import YieldModel.RestoreStrategies.Basic

open Apportion

-- The holders of a snapshot get what is due to them, rounded down, and never more than there is.

namespace RestoreStrategies

variable {env : Env} {c : StrategyConfig} {decimals : ℕ} {balance : Row → ℤ}
variable {rows rows' : List Row} {row : Row} {total : ℤ} {d : Dispersal}

def BalanceOf (env : Env) (decimals : ℕ) (balance : Row → ℤ) (row : Row) : Prop :=
  env.parseUnits row.balance decimals = .ok (balance row)

instance : Decidable (BalanceOf env decimals balance row) :=
  inferInstanceAs (Decidable (_ = _))

-- The rows of a file are balances, and there is something to restore.
structure Snapshot (env : Env) (decimals : ℕ) (balance : Row → ℤ) (rows : List Row) : Prop where
  balances : ∀ row ∈ rows, BalanceOf env decimals balance row
  nonneg   : ∀ row ∈ rows, 0 ≤ balance row
  pos      : ∃ row ∈ rows, 0 < balance row

theorem Snapshot.perm (h : Snapshot env decimals balance rows) (hp : rows'.Perm rows) :
    Snapshot env decimals balance rows' where
  balances row hr := h.balances row (hp.mem_iff.mp hr)
  nonneg row hr   := h.nonneg row (hp.mem_iff.mp hr)
  pos             := by simpa only [hp.mem_iff] using h.pos

theorem Snapshot.sum_pos (h : Snapshot env decimals balance rows) : 0 < (rows.map balance).sum :=
  have ⟨_, hr, hb⟩ := h.pos
  sum_pos_of_mem h.nonneg hr hb

-- The tokens that are sent for a row, if `total` is the sum of all the balances.
def sent (c : StrategyConfig) (balance : Row → ℤ) (total : ℤ) (row : Row) : Send where
  tokenAddr := c.addr
  destAddr  := row.account
  amount    := (c.mintedStrategyTokens * balance row).tdiv total

theorem totalAffectedBalance_eq (h : ∀ row ∈ rows, BalanceOf env decimals balance row) :
    totalAffectedBalance env decimals rows = .ok (rows.map balance).sum := by
  suffices hs : ∀ total, rows.foldlM (fun totalAffectedBalance row => do
      let _balance ← attempt (env.parseUnits row.balance decimals)
      return totalAffectedBalance + _balance) total = .ok (total + (rows.map balance).sum) by
    rw [totalAffectedBalance, hs, zero_add]
  induction rows
  case nil => simp [pure, Except.pure]
  case cons row rows hi =>
    intro total
    have ⟨hr, hs⟩ := List.forall_mem_cons.mp h
    rw [List.foldlM_cons, hr]
    refine (hi hs _).trans ?_
    rw [List.map_cons, List.sum_cons, add_assoc]

theorem disperse_eq (h : BalanceOf env decimals balance row) (ht : total ≠ 0) :
    disperse env c decimals total d row =
    .ok (if 0 < balance row then d.push (sent c balance total row) else d) := by
  rw [disperse, h]
  change (if 0 < balance row then _ else _) = _
  split
  case isTrue  => rw [div, if_neg ht]; rfl
  case isFalse => rfl

theorem foldlM_disperse_eq (h : ∀ row ∈ rows, BalanceOf env decimals balance row)
    (ht : total ≠ 0) (d : Dispersal) : rows.foldlM (disperse env c decimals total) d =
    .ok (((rows.filter (0 < balance ·)).map (sent c balance total)).foldl Dispersal.push d) := by
  induction rows generalizing d
  case nil => rfl
  case cons row rows hi =>
    have ⟨hr, hs⟩ := List.forall_mem_cons.mp h
    rw [List.foldlM_cons, disperse_eq hr ht]
    refine (hi hs _).trans ?_
    by_cases hb : 0 < balance row
    case pos => simp [hb]
    case neg => simp [hb]

theorem foldl_push (sends : List Send) (d : Dispersal) : sends.foldl Dispersal.push d =
    ⟨d.newStrategyBalances ++ sends, d.totalAmount + (sends.map Send.amount).sum⟩ := by
  induction sends generalizing d
  case nil => simp
  case cons send sends hi => simp [hi, Dispersal.push, add_assoc]

-- What both passes build.
def sends (c : StrategyConfig) (balance : Row → ℤ) (rows : List Row) : List Send :=
  (rows.filter (0 < balance ·)).map (sent c balance (rows.map balance).sum)

theorem dispersal_eq (h : Snapshot env decimals balance rows) : dispersal env c decimals rows =
    .ok ⟨sends c balance rows, ((sends c balance rows).map Send.amount).sum⟩ := by
  rw [dispersal, totalAffectedBalance_eq h.balances]
  refine (foldlM_disperse_eq h.balances h.sum_pos.ne' _).trans ?_
  rw [foldl_push, List.nil_append, zero_add, sends]

-- What is due to a row, exactly.
def due (c : StrategyConfig) (balance : Row → ℤ) (total : ℤ) (row : Row) : ℚ :=
  c.mintedStrategyTokens * balance row / total

theorem amount_eq_part (hb : 0 ≤ balance row) (ht : 0 ≤ total) :
    (sent c balance total row).amount = part (c.mintedStrategyTokens : ℚ) total (balance row) := by
  have hm : 0 ≤ (c.mintedStrategyTokens : ℤ) * balance row := by positivity
  lift total to ℕ using ht
  rw [sent, Int.tdiv_eq_ediv_of_nonneg hm, part, share, ← Rat.floor_intCast_div_natCast]
  push_cast
  rfl

theorem amount_le_due (hb : 0 ≤ balance row) (ht : 0 ≤ total) :
    ((sent c balance total row).amount : ℚ) ≤ due c balance total row := by
  rw [amount_eq_part hb ht]
  exact Int.floor_le _

theorem due_lt_amount_add_one (hb : 0 ≤ balance row) (ht : 0 ≤ total) :
    due c balance total row < (sent c balance total row).amount + 1 := by
  rw [amount_eq_part hb ht]
  exact Int.lt_floor_add_one _

-- The balances of those who are sent something, as weights.
def weights (balance : Row → ℤ) (rows : List Row) : List ℚ :=
  (rows.filter (0 < balance ·)).map fun row => (balance row : ℚ)

theorem sum_weights (h : ∀ row ∈ rows, 0 ≤ balance row) :
    (weights balance rows).sum = ((rows.map balance).sum : ℤ) := by
  have hc : weights balance rows = ((rows.filter (0 < balance ·)).map balance).map Int.cast := by
    simp [weights]
  rw [hc, ← Int.cast_list_sum, sum_filter_pos h]

theorem sent_amounts_eq (h : ∀ row ∈ rows, 0 ≤ balance row) (ht : 0 ≤ total) :
    ((rows.filter (0 < balance ·)).map (sent c balance total)).map Send.amount =
    (weights balance rows).map (part (c.mintedStrategyTokens : ℚ) total) := by
  rw [weights, List.map_map, List.map_map]
  exact List.map_congr_left fun row hr => amount_eq_part (h row (List.mem_of_mem_filter hr)) ht

theorem Snapshot.amounts_eq (h : Snapshot env decimals balance rows) :
    (sends c balance rows).map Send.amount = (weights balance rows).map
      (part (c.mintedStrategyTokens : ℚ) (rows.map balance).sum) :=
  sent_amounts_eq h.nonneg h.sum_pos.le

theorem Snapshot.share_weights (h : Snapshot env decimals balance rows) :
    share (c.mintedStrategyTokens : ℚ) (rows.map balance).sum (weights balance rows).sum =
    c.mintedStrategyTokens := by
  rw [sum_weights h.nonneg]
  exact share_total (by exact_mod_cast h.sum_pos.ne') _

theorem Snapshot.sum_amounts_le (h : Snapshot env decimals balance rows) :
    ((sends c balance rows).map Send.amount).sum ≤ c.mintedStrategyTokens := by
  have hs := sum_part_le (c.mintedStrategyTokens : ℚ) (rows.map balance).sum (weights balance rows)
  rw [h.share_weights, ← h.amounts_eq] at hs
  exact_mod_cast hs

theorem Snapshot.minted_lt (h : Snapshot env decimals balance rows) :
    (c.mintedStrategyTokens : ℤ) < ((sends c balance rows).map Send.amount).sum +
      rows.countP (0 < balance ·) := by
  have ⟨row, hr, hb⟩ := h.pos
  have hn : weights balance rows ≠ [] :=
    List.ne_nil_of_mem (List.mem_map_of_mem (List.mem_filter.mpr ⟨hr, by simpa using hb⟩))
  have hs := share_lt_sum_part_add_length (c.mintedStrategyTokens : ℚ) (rows.map balance).sum hn
  rw [h.share_weights, ← h.amounts_eq, weights, List.length_map, ← List.countP_eq_length_filter] at hs
  exact_mod_cast hs

theorem sends_perm (hp : rows'.Perm rows) : (sends c balance rows').Perm (sends c balance rows) := by
  rw [sends, sends, (hp.map balance).sum_eq]
  exact (hp.filter _).map _

-- Every holder is paid by a row of its own.
theorem Snapshot.sends_fair (h : Snapshot env decimals balance rows) :
    List.Forall₂ (fun row send => send.tokenAddr = c.addr ∧ send.destAddr = row.account ∧
      (send.amount : ℚ) ≤ due c balance (rows.map balance).sum row ∧
      due c balance (rows.map balance).sum row < send.amount + 1)
      (rows.filter (0 < balance ·)) (sends c balance rows) := by
  rw [sends, List.forall₂_map_right_iff, List.forall₂_same]
  intro row hr
  have hb := h.nonneg row (List.mem_of_mem_filter hr)
  exact ⟨rfl, rfl, amount_le_due hb h.sum_pos.le, due_lt_amount_add_one hb h.sum_pos.le⟩

theorem zip_sends : (rows.filter (0 < balance ·)).zip (sends c balance rows) =
    (rows.filter (0 < balance ·)).map fun row => (row, sent c balance (rows.map balance).sum row) := by
  rw [sends]
  simpa using List.zip_map' (f := id) (g := sent c balance (rows.map balance).sum)

theorem sends_congr {p q : Row × Send}
    (hp : p ∈ (rows.filter (0 < balance ·)).zip (sends c balance rows))
    (hq : q ∈ (rows.filter (0 < balance ·)).zip (sends c balance rows))
    (h : balance p.1 = balance q.1) : p.2.amount = q.2.amount := by
  rw [zip_sends] at hp hq
  obtain ⟨row, -, rfl⟩ := List.mem_map.mp hp
  obtain ⟨row', -, rfl⟩ := List.mem_map.mp hq
  simp only [sent] at h ⊢
  rw [h]

-- What one account holds, and what it gets, in all of its rows.
def held (balance : Row → ℤ) (account : String) (rows : List Row) : ℤ :=
  ((rows.filter (·.account = account)).map balance).sum

def received (account : String) (sends : List Send) : ℤ :=
  ((sends.filter (·.destAddr = account)).map Send.amount).sum

-- An account which is listed more than once can lose up to a unit with every row.
theorem Snapshot.received_bounds (h : Snapshot env decimals balance rows) (account : String)
    (ha : 0 < held balance account rows) :
    (received account (sends c balance rows) : ℚ) ≤
      c.mintedStrategyTokens * held balance account rows / (rows.map balance).sum ∧
    (c.mintedStrategyTokens * held balance account rows / (rows.map balance).sum : ℚ) <
      received account (sends c balance rows) +
        (rows.filter (·.account = account)).countP (0 < balance ·) := by
  have hn : ∀ row ∈ rows.filter (·.account = account), 0 ≤ balance row :=
    fun row hr => h.nonneg row (List.mem_of_mem_filter hr)
  have hs : received account (sends c balance rows) = ((weights balance
      (rows.filter (·.account = account))).map
        (part (c.mintedStrategyTokens : ℚ) (rows.map balance).sum)).sum := by
    rw [← sent_amounts_eq hn h.sum_pos.le, received, sends, List.filter_map, List.filter_filter,
      List.filter_filter]
    simp only [Function.comp_def, sent, Bool.and_comm]
    rfl
  have hw := sum_weights hn
  rw [← held] at hw
  have hne : weights balance (rows.filter (·.account = account)) ≠ [] := by
    intro he
    rw [he, List.sum_nil] at hw
    exact ha.ne (by exact_mod_cast hw)
  have hl := sum_part_le (c.mintedStrategyTokens : ℚ) (rows.map balance).sum
    (weights balance (rows.filter (·.account = account)))
  have hg := share_lt_sum_part_add_length (c.mintedStrategyTokens : ℚ) (rows.map balance).sum hne
  rw [weights, List.length_map, ← List.countP_eq_length_filter, ← weights] at hg
  rw [hw, ← hs] at hl hg
  exact ⟨hl, hg⟩

-- Either the chain does not answer, or both passes are made.
theorem parse_cases {strategyName : String} (hc : env.config strategyName = some c) :
    (∃ e, parse env strategyName = .error (.thrown e)) ∨
    ∃ timelockBal decimals, env.balanceOf c.addr env.timelockAddr = .ok timelockBal ∧
      env.decimals c.addr = .ok decimals ∧ parse env strategyName =
        (dispersal env c decimals (env.csv c.filePath) >>= finish c timelockBal) := by
  cases hb : env.balanceOf c.addr env.timelockAddr
  case error e => exact .inl ⟨e, by simp only [parse, hc, hb]; rfl⟩
  case ok timelockBal =>
    cases hd : env.decimals c.addr
    case error e     => exact .inl ⟨e, by simp only [parse, hc, hb, hd]; rfl⟩
    case ok decimals => exact .inr ⟨_, _, rfl, rfl, by simp only [parse, hc, hb, hd]; rfl⟩

theorem finish_dispersal (h : Snapshot env decimals balance rows) (timelockBal : ℕ) :
    (dispersal env c decimals rows >>= finish c timelockBal) =
    if timelockBal < c.mintedStrategyTokens then .error (.unresolved notEnoughTokens)
    else .ok (sends c balance rows) := by
  rw [dispersal_eq h]
  exact if_neg h.sum_amounts_le.not_gt

-- The files have been parsed as balances, if the chain answers.
def Restorable (env : Env) (strategyName : String) : Prop :=
  ∀ c decimals, env.config strategyName = some c → env.decimals c.addr = .ok decimals →
    ∃ balance, Snapshot env decimals balance (env.csv c.filePath)

-- Whatever the chain answers, the message about the minted amount is not reached.
theorem parse_ne {strategyName : String} (h : Restorable env strategyName) :
    parse env strategyName ≠ .error (.unresolved greaterThanMinted) := by
  cases hc : env.config strategyName
  case none => simp [parse, hc]
  case some c =>
    cases parse_cases hc
    case inl hp =>
      obtain ⟨e, hp⟩ := hp
      simp [hp]
    case inr hp =>
      obtain ⟨timelockBal, decimals, -, hd, hp⟩ := hp
      obtain ⟨balance, hs⟩ := h c decimals hc hd
      rw [hp, finish_dispersal hs]
      split
      case isTrue  => simp [greaterThanMinted, notEnoughTokens]
      case isFalse => simp

-- What is returned is what has been built.
theorem parse_eq_ok {strategyName : String} {l : List Send}
    (h : Snapshot env decimals balance (env.csv c.filePath)) (hc : env.config strategyName = some c)
    (hd : env.decimals c.addr = .ok decimals) (hp : parse env strategyName = .ok l) :
    l = sends c balance (env.csv c.filePath) := by
  cases parse_cases hc
  case inl he =>
    obtain ⟨e, he⟩ := he
    cases he.symm.trans hp
  case inr he =>
    obtain ⟨timelockBal, decimals', -, hd', he⟩ := he
    cases hd.symm.trans hd'
    rw [he, finish_dispersal h] at hp
    split at hp
    case isTrue  => cases hp
    case isFalse => exact (Except.ok.inj hp).symm

theorem foldlM_parse_ne {strats : List String} (h : ∀ strat ∈ strats, Restorable env strat)
    (totalSendData : List Send) : strats.foldlM (fun totalSendData strat => do
      return totalSendData ++ (← parse env strat)) totalSendData ≠
    .error (.unresolved greaterThanMinted) := by
  induction strats generalizing totalSendData
  case nil => simp [pure, Except.pure]
  case cons strat strats hi =>
    have ⟨hs, ht⟩ := List.forall_mem_cons.mp h
    have hp := parse_ne hs
    rw [List.foldlM_cons]
    cases hr : parse env strat
    case error e => simpa [hr, bind, Except.bind] using hp
    case ok sends => exact hi ht _

def usdcRows : List Row :=
  [⟨"0xf8cc", "2"⟩, ⟨"0x0000", "0"⟩, ⟨"0xb4dc", "1"⟩]

def usdcUnits (row : Row) : ℤ :=
  if row.balance = "2" then 2000000 else if row.balance = "1" then 1000000 else 0

def usdcConfig : StrategyConfig where
  filePath             := "csv/ARBITRUM_YSUSDC6MJD.csv"
  addr                 := "0x54f0"
  mintedStrategyTokens := 158031149405

def usdcEnv : Env where
  config strat        := if strat = YSUSDC6MJD then some usdcConfig else none
  timelockAddr        := "0xd0a2"
  csv _               := usdcRows
  balanceOf _ _       := .ok 158031149405
  decimals _          := .ok 6
  parseUnits s digits :=
    if s = "2" then .ok (2 * 10 ^ digits) else
    if s = "1" then .ok (10 ^ digits) else
    if s = "0" then .ok 0 else .error "invalid decimal value"

theorem usdc_snapshot : Snapshot usdcEnv 6 usdcUnits usdcRows where
  balances := by decide
  nonneg   := by decide
  pos      := by decide

end RestoreStrategies
