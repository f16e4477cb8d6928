import YieldModel.FlashLiquidator.Basic

-- What a liquidation leaves behind in the contract.

namespace FlashLiquidator

variable {s s' : State} {ctx : Context} {token to_ t : Address} {n : ℕ}

theorem State.send_eq_ok : s.send token n = .ok s' ↔ n ≤ s.balanceOf token ∧
    s' = { s with balanceOf := Function.update s.balanceOf token (s.balanceOf token - n) } := by
  simp [send, Call.map_eq_ok, Call.require_eq_ok, @eq_comm _ s']

theorem State.safeTransfer_eq_ok : s.safeTransfer token to_ n = .ok s' ↔ n ≤ s.balanceOf token ∧
    s' = { s with
      balanceOf := Function.update s.balanceOf token (s.balanceOf token - n)
      transfers := s.transfers ++ [⟨token, to_, n⟩] } := by
  simp [safeTransfer, send_eq_ok, Call.map_eq_ok, @eq_comm _ s']

-- The tokens which may be involved in the liquidation of a vault.
def tracked (data : FlashCallbackData) : List Address :=
  [data.base, data.collateral, WETH, STETH, WSTETH]

def State.Empty (s : State) (data : FlashCallbackData) : Prop :=
  (∀ t ∈ tracked data, s.balanceOf t = 0) ∧ s.eth = 0

-- Whatever is transferred either repays the loan, or goes to the recipient.
def Forwards (s s' : State) (data : FlashCallbackData) (flashLoaner : Address) (debt : ℕ) : Prop :=
  ∃ l, s'.transfers = s.transfers ++ l ++ [⟨data.base, flashLoaner, debt⟩] ∧
  ∀ tr ∈ l, tr.to_ = data.recipient

variable {data : FlashCallbackData} {sender : Address} {baseLoan fee : Uint 256}

-- What the callback does to an empty contract to which the loan has been sent.
structure Repays (s s' : State) (ctx : Context) (sender : Address) (data : FlashCallbackData)
    (baseLoan fee : ℕ) (paid : Payment) (out : Swap) : Prop where
  payAll     : ctx.payAll data.vaultId = .ok paid
  swap       : ctx.swap data.swapCalldata = .ok out
  contract   : s'.contract = s.contract
  eth        : s'.eth = s.eth
  forwards   : Forwards s s' data sender (baseLoan + fee)
  collateral : s'.balanceOf data.collateral = 0
  base       : data.base ≠ data.collateral →
               s'.balanceOf data.base + paid.base + baseLoan + fee =
               s.balanceOf data.base + out.received data.base
  others     : ∀ t ≠ data.base, t ≠ data.collateral →
               s'.balanceOf t = s.balanceOf t + out.received t

theorem receiveFlashLoan_eq_ok {tokens : List Address}
    (h : receiveFlashLoan s ctx sender tokens [baseLoan] [fee] data = .ok s') :
    ∃ paid out, Repays s s' ctx sender data baseLoan fee paid out := by
  simp only [receiveFlashLoan, payAll, swapRouterCall, index, Call.bind_eq_ok, Call.require_eq_ok,
    Call.pure_eq_ok, State.send_eq_ok, State.safeTransfer_eq_ok, Uint.add_eq_ok, Prod.exists,
    Prod.mk.injEq, exists_const] at h
  obtain ⟨-, -, _, hl, _, -, _, _, ⟨paid, hp, -, _, ⟨hb, rfl⟩, rfl, rfl⟩, _, hf, debt, hd, _, -, _,
    ⟨out, ho, -, he, _, ⟨ht, rfl⟩, rfl⟩, _, -, _, ⟨-, rfl⟩, hr, rfl⟩ := h
  cases hl
  cases hf
  refine ⟨paid, out, ?_⟩
  have he : out.eth = 0 := by simpa using he
  exact {
    payAll     := hp
    swap       := ho
    contract   := rfl
    eth        := by simp [State.receive, he]
    forwards   := ⟨[_], by rw [hd]; rfl, by simp⟩
    collateral := by
      by_cases hc : data.collateral = data.base
      case pos => simp [State.receive, Function.update_apply, hc]
      case neg => simp [State.receive, Function.update_apply, hc]
    base       := fun hc => by
      simp only [State.receive, Function.update_apply, hc, if_false, if_true] at hr ⊢
      omega
    others     := fun t hb hc => by simp [State.receive, Function.update_apply, hb, hc]
  }

-- What the environment has to answer for nothing to be left: the router returns exactly the base
-- which is missing, or all of it is swept because it is the collateral, and nothing else.
def Exact (ctx : Context) (data : FlashCallbackData) (baseLoan : Uint 256) : Prop :=
  ∀ paid out, ctx.payAll data.vaultId = .ok paid → ctx.swap data.swapCalldata = .ok out →
  (data.base = data.collateral ∨ out.received data.base = paid.base + ctx.fee data.base baseLoan) ∧
  ∀ t ∈ tracked data, t ≠ data.base → t ≠ data.collateral → out.received t = 0

-- What has to be returned to the flash loaner.
def debtToReturn (ctx : Context) (data : FlashCallbackData) (baseLoan : Uint 256) : ℕ :=
  baseLoan + ctx.fee data.base baseLoan

-- Nothing is left, and everything which does not repay the loan has gone to the recipient.
def Settles (s s' : State) (ctx : Context) (data : FlashCallbackData) (baseLoan : Uint 256) :
    Prop :=
  s'.Empty data ∧
  Forwards s s' data s.contract.flashLoaner (debtToReturn ctx data baseLoan)

theorem liquidateWith_eq_ok {recipient : FlashLoanRecipient} {v : Bytes12} {calldata : List UInt8}
    {baseLoan : Uint 128} (hp : prepare ctx v calldata = .ok (data, baseLoan))
    (h : liquidateWith recipient s ctx v calldata = .ok s') :
    let loan : Uint 256 := Uint.truncate 256 baseLoan
    ∃ s₁, recipient ({ s with contract.liquidating := true }.receive data.base loan) ctx
      s.contract.flashLoaner [data.base] [loan] [ctx.fee data.base loan] data = .ok s₁ ∧
    s' = { s₁ with contract.liquidating := false } := by
  simp only [liquidateWith, flashLoan, hp, Call.bind_eq_ok, Call.require_eq_ok, Call.pure_eq_ok,
    Prod.exists, exists_const, Except.ok.injEq, Prod.mk.injEq] at h
  obtain ⟨-, _, start, -, -, _, _, ⟨rfl, rfl⟩, s₁, hs, rfl⟩ := h
  exact ⟨s₁, hs, rfl⟩

theorem liquidate_settles_iff {v : Bytes12} {calldata : List UInt8} {baseLoan : Uint 128}
    (hp : prepare ctx v calldata = .ok (data, baseLoan)) (hs : s.Empty data)
    (h : liquidate s ctx v calldata = .ok s') :
    Settles s s' ctx data (Uint.truncate 256 baseLoan) ↔
    Exact ctx data (Uint.truncate 256 baseLoan) := by
  have ⟨s₁, h₁, hs'⟩ := liquidateWith_eq_ok hp h
  have ⟨paid, out, hr⟩ := receiveFlashLoan_eq_ok h₁
  generalize Uint.truncate 256 baseLoan = loan at *
  subst hs'
  have hb : data.base ≠ data.collateral →
      s₁.balanceOf data.base + paid.base + ctx.fee data.base loan = out.received data.base := by
    intro hc
    have hb := hr.base hc
    simp only [State.receive, Function.update_self, hs.1 data.base List.mem_cons_self] at hb
    omega
  have ho t (ht : t ∈ tracked data) (hb : t ≠ data.base) (hc : t ≠ data.collateral) :
      s₁.balanceOf t = out.received t := by
    have ho := hr.others t hb hc
    simpa only [State.receive, Function.update_of_ne hb, hs.1 t ht, Nat.zero_add] using ho
  constructor
  case mp =>
    intro ⟨⟨he, _⟩, _⟩ paid' out' hp' ho'
    cases hr.payAll.symm.trans hp'
    cases hr.swap.symm.trans ho'
    refine ⟨or_iff_not_imp_left.mpr fun hc => ?_, fun t ht hb' hc => ?_⟩
    case refine_1 => rw [← hb hc, he data.base List.mem_cons_self, Nat.zero_add]
    case refine_2 => rw [← ho t ht hb' hc, he t ht]
  case mpr =>
    intro hx
    have ⟨hx, hx'⟩ := hx paid out hr.payAll hr.swap
    refine ⟨⟨fun t ht => ?_, hr.eth.trans hs.2⟩, hr.forwards⟩
    by_cases hc : t = data.collateral
    case pos => exact hc ▸ hr.collateral
    case neg =>
      by_cases ht' : t = data.base
      case neg => exact (ho t ht ht' hc).trans (hx' t ht ht' hc)
      case pos =>
        have hb := hb (ht' ▸ hc)
        have hx := hx.resolve_left (ht' ▸ hc)
        subst ht'
        dsimp only
        omega

-- If the Witch takes all of the loan, then the sale has to yield all of what is returned.
theorem debtToReturn_le_received {v : Bytes12} {calldata : List UInt8} {baseLoan : Uint 128}
    {paid : Payment} {out : Swap} (hp : prepare ctx v calldata = .ok (data, baseLoan))
    (hs : s.balanceOf data.base = 0) (hc : data.base ≠ data.collateral)
    (hw : ctx.payAll data.vaultId = .ok paid)
    (hl : paid.base = (Uint.truncate 256 baseLoan : Uint 256))
    (ho : ctx.swap data.swapCalldata = .ok out) (h : liquidate s ctx v calldata = .ok s') :
    debtToReturn ctx data (Uint.truncate 256 baseLoan) ≤ out.received data.base := by
  have ⟨s₁, h₁, _⟩ := liquidateWith_eq_ok hp h
  have ⟨paid', out', hr⟩ := receiveFlashLoan_eq_ok h₁
  cases hr.payAll.symm.trans hw
  cases hr.swap.symm.trans ho
  have hb := hr.base hc
  simp only [State.receive, Function.update_self, hs] at hb
  unfold debtToReturn
  omega

end FlashLiquidator

namespace WstethFlashLiquidator

open FlashLiquidator

variable {s s' : State} {ctx : Context} {data : FlashCallbackData} {sender : Address}
variable {baseLoan fee : Uint 256}

-- The share of `t` in a transfer of `n` of a token.
def amount (token : Address) (n : ℕ) (t : Address) : ℕ :=
  if t = token then n else 0

-- What leaves the contract by a transfer of a token.
structure Sends (s : State) (token : Address) (n : ℕ) (s' : State) : Prop where
  covered  : n ≤ s.balanceOf token
  balance  : ∀ t, s'.balanceOf t + amount token n t = s.balanceOf t
  contract : s'.contract = s.contract
  eth      : s'.eth = s.eth

theorem receive_balanceOf (token : Address) (n : ℕ) (t : Address) :
    (s.receive token n).balanceOf t = s.balanceOf t + amount token n t := by
  unfold amount State.receive
  split
  case isTrue h  => simp [h]
  case isFalse h => simp [h]

theorem sends_update {token : Address} {n : ℕ} {l : List Transfer} (h : n ≤ s.balanceOf token) :
    Sends s token n { s with
      balanceOf := Function.update s.balanceOf token (s.balanceOf token - n)
      transfers := l } where
  covered  := h
  balance t := by
    unfold amount
    split
    case isTrue ht  => simp [ht, h]
    case isFalse ht => simp [ht]
  contract := rfl
  eth      := rfl

theorem send_sends {token : Address} {n : ℕ} (h : s.send token n = .ok s') :
    Sends s token n s' ∧ s'.transfers = s.transfers := by
  have ⟨hn, hs⟩ := State.send_eq_ok.mp h
  subst hs
  exact ⟨sends_update hn, rfl⟩

theorem safeTransfer_sends {token to_ : Address} {n : ℕ} (h : s.safeTransfer token to_ n = .ok s') :
    Sends s token n s' ∧ s'.transfers = s.transfers ++ [⟨token, to_, n⟩] := by
  have ⟨hn, hs⟩ := State.safeTransfer_eq_ok.mp h
  subst hs
  exact ⟨sends_update hn, rfl⟩

theorem payAll_eq_ok {approved c : ℕ} (h : payAll s ctx data approved = .ok (s', c)) :
    ∃ paid s₁, ctx.payAll data.vaultId = .ok paid ∧ paid.collateral = c ∧
    Sends s data.base paid.base s₁ ∧ s₁.transfers = s.transfers ∧
    s' = s₁.receive data.collateral c := by
  simp only [payAll, Call.bind_eq_ok, Call.require_eq_ok, Call.pure_eq_ok, Prod.mk.injEq] at h
  obtain ⟨paid, hp, _, -, s₁, hs, rfl, rfl⟩ := h
  exact ⟨paid, s₁, hp, rfl, (send_sends hs).1, (send_sends hs).2, rfl⟩

-- The sale of the collateral, down to WETH.
structure Sells (s s' : State) (ctx : Context) (collateral ethReceived : ℕ) : Prop where
  exchange  : (ctx.unwrap collateral >>= ctx.exchange) = .ok ethReceived
  positive  : 0 < collateral
  covered   : collateral ≤ s.balanceOf WSTETH
  balance   : ∀ t, s'.balanceOf t + amount WSTETH collateral t =
              s.balanceOf t + amount WETH ethReceived t
  contract  : s'.contract = s.contract
  eth       : s'.eth = s.eth
  transfers : s'.transfers = s.transfers

theorem sellCollateral_eq_ok {c e : ℕ} (h : sellCollateral s ctx c = .ok (s', e)) :
    Sells s s' ctx c e := by
  simp only [sellCollateral, unwrap, exchange, deposit, Call.bind_eq_ok, Call.require_eq_ok,
    Call.pure_eq_ok, Prod.exists, Prod.mk.injEq, exists_const] at h
  obtain ⟨_, u, ⟨hc, s₁, h₁, _, hu, rfl, rfl⟩, _, -, _, _, ⟨s₂, h₂, _, he, rfl, rfl⟩, _, ⟨-, rfl⟩,
    rfl, rfl⟩ := h
  have ⟨h₁, ht₁⟩ := send_sends h₁
  have ⟨h₂, ht₂⟩ := send_sends h₂
  exact {
    exchange  := Call.bind_eq_ok.mpr ⟨_, hu, he⟩
    positive  := hc
    covered   := h₁.covered
    balance   := fun t => by
      have h₁ := h₁.balance t
      have h₂ := h₂.balance t
      rw [receive_balanceOf] at h₂ ⊢
      dsimp only
      omega
    contract  := h₂.contract.trans h₁.contract
    eth       := by simp [State.receive, h₂.eth, h₁.eth]
    transfers := ht₂.trans ht₁
  }

-- The swap for base. There is none if the base is WETH.
structure Recovers (s s' : State) (ctx : Context) (data : FlashCallbackData)
    (ethReceived debtRecovered : ℕ) (out : Swap) : Prop where
  swap      : data.base ≠ WETH → ctx.swap data.swapCalldata = .ok out
  recovered : debtRecovered = if data.base = WETH then ethReceived else 0
  taken     : out.taken ≤ ethReceived
  balance   : ∀ t, s'.balanceOf t + amount WETH out.taken t = s.balanceOf t + out.received t
  contract  : s'.contract = s.contract
  eth       : s'.eth = s.eth + out.eth
  transfers : s'.transfers = s.transfers
  none      : data.base = WETH → out = ⟨0, fun _ => 0, 0⟩

theorem recoverDebt_eq_ok {e r : ℕ} (h : recoverDebt s ctx data e = .ok (s', r)) :
    ∃ out, Recovers s s' ctx data e r out := by
  unfold recoverDebt at h
  split at h
  case isTrue hb =>
    cases h
    exact ⟨⟨0, fun _ => 0, 0⟩, {
      swap      := fun h => absurd hb h
      recovered := (if_pos hb).symm
      taken     := Nat.zero_le _
      balance   := fun t => by simp [amount]
      contract  := rfl
      eth       := rfl
      transfers := rfl
      none      := fun _ => rfl
    }⟩
  case isFalse hb =>
    simp only [swapRouterCall, Call.bind_eq_ok, Call.require_eq_ok, Call.pure_eq_ok, Prod.mk.injEq,
      exists_const] at h
    obtain ⟨_, -, _, ⟨out, ho, ht, -, s₁, h₁, rfl⟩, rfl, rfl⟩ := h
    have ⟨h₁, ht₁⟩ := send_sends h₁
    exact ⟨out, {
      swap      := fun _ => ho
      recovered := (if_neg hb).symm
      taken     := ht
      balance   := fun t => by
        have h₁ := h₁.balance t
        dsimp only
        omega
      contract  := h₁.contract
      eth       := congrArg (· + out.eth) h₁.eth
      transfers := ht₁
      none      := fun h => absurd h hb
    }⟩

theorem payProfit_eq_ok {r debt : ℕ} (h : payProfit s data r debt = .ok s') :
    Sends s data.base (r - debt) s' ∧
    ∃ l, s'.transfers = s.transfers ++ l ∧ ∀ tr ∈ l, tr.to_ = data.recipient := by
  unfold payProfit at h
  split at h
  case isTrue =>
    have ⟨hs, ht⟩ := safeTransfer_sends h
    exact ⟨hs, _, ht, by simp⟩
  case isFalse hd =>
    cases h
    rw [Nat.sub_eq_zero_of_le (not_lt.mp hd)]
    exact ⟨⟨Nat.zero_le _, fun t => by simp [amount], rfl, rfl⟩, [], by simp, by simp⟩

-- What the callback does: the amounts which leave the contract are on the left side of `balance`,
-- those which arrive are on the right side.
structure Repays (s s' : State) (ctx : Context) (sender : Address) (data : FlashCallbackData)
    (debt : ℕ) (paid : Payment) (ethReceived : ℕ) (out : Swap) : Prop where
  payAll   : ctx.payAll data.vaultId = .ok paid
  exchange : (ctx.unwrap paid.collateral >>= ctx.exchange) = .ok ethReceived
  swap     : data.base ≠ WETH → ctx.swap data.swapCalldata = .ok out
  none     : data.base = WETH → out = ⟨0, fun _ => 0, 0⟩
  taken    : out.taken ≤ ethReceived
  contract : s'.contract = s.contract
  eth      : s'.eth = s.eth + out.eth
  forwards : Forwards s s' data sender debt
  positive : 0 < paid.collateral
  covered  : data.collateral ≠ WSTETH → data.base ≠ WSTETH → paid.collateral ≤ s.balanceOf WSTETH
  balance  : ∀ t, s'.balanceOf t +
             amount data.base
               (paid.base + ((if data.base = WETH then ethReceived else 0) - debt) + debt) t +
             amount WSTETH paid.collateral t + amount WETH out.taken t =
             s.balanceOf t + amount data.collateral paid.collateral t +
             amount WETH ethReceived t + out.received t

theorem amount_add {token : Address} {m n : ℕ} (t : Address) :
    amount token (m + n) t = amount token m t + amount token n t := by
  unfold amount
  split <;> rfl

theorem receiveFlashLoan_eq_ok {tokens : List Address}
    (h : receiveFlashLoan s ctx sender tokens [baseLoan] [fee] data = .ok s') :
    ∃ paid ethReceived out,
    Repays s s' ctx sender data (baseLoan + fee) paid ethReceived out := by
  simp only [receiveFlashLoan, index, Call.bind_eq_ok, Call.require_eq_ok, Uint.add_eq_ok,
    Prod.exists, exists_const] at h
  obtain ⟨-, -, _, hl, _, hf, debt, hd, _, -, s₁, c, h₁, s₂, e, h₂, s₃, r, h₃, s₄, h₄, h₅⟩ := h
  cases hl
  cases hf
  have ⟨paid, s₀, hp, hc, h₀, ht₀, hs₁⟩ := payAll_eq_ok h₁
  have h₂ := sellCollateral_eq_ok h₂
  have ⟨out, h₃⟩ := recoverDebt_eq_ok h₃
  have ⟨h₄, l, ht₄, hl⟩ := payProfit_eq_ok h₄
  have ⟨h₅, ht₅⟩ := safeTransfer_sends h₅
  subst hs₁ hc
  refine ⟨paid, e, out, {
    payAll   := hp
    exchange := h₂.exchange
    swap     := h₃.swap
    none     := h₃.none
    taken    := h₃.taken
    contract := h₅.contract.trans (h₄.contract.trans (h₃.contract.trans
      (h₂.contract.trans h₀.contract)))
    eth      := by rw [h₅.eth, h₄.eth, h₃.eth, h₂.eth]; exact congrArg (· + out.eth) h₀.eth
    forwards := ⟨l, ?_, hl⟩
    positive := h₂.positive
    covered  := fun hc hb => ?_
    balance  := fun t => ?_
  }⟩
  case refine_1 =>
    rw [ht₅, ht₄, h₃.transfers, h₂.transfers, hd]
    exact congrArg (· ++ l ++ _) ht₀
  case refine_2 =>
    have h₀ := h₀.balance WSTETH
    have h₂ := h₂.covered
    rw [receive_balanceOf] at h₂
    simp only [amount, if_neg hc.symm, if_neg hb.symm] at h₀ h₂
    omega
  case refine_3 =>
    have h₀ := h₀.balance t
    have h₂ := h₂.balance t
    have hr := h₃.recovered
    have h₃ := h₃.balance t
    have h₄ := h₄.balance t
    rw [hr] at h₄
    have h₅ := h₅.balance t
    rw [receive_balanceOf] at h₂
    simp only [amount_add, hd] at h₄ h₅ ⊢
    omega

-- What the environment has to answer for nothing to be left: if base is WETH, the Witch takes all of
-- the loan or the sale yields exactly what is missing; otherwise the router takes all of the WETH and
-- returns exactly the base which is missing, and nothing else.
def Exact (ctx : Context) (data : FlashCallbackData) (baseLoan : Uint 256) : Prop :=
  data.collateral = WSTETH ∧
  ∀ paid ethReceived, ctx.payAll data.vaultId = .ok paid →
  (ctx.unwrap paid.collateral >>= ctx.exchange) = .ok ethReceived →
  if data.base = WETH then
    if baseLoan + ctx.fee data.base baseLoan < (ethReceived : ℕ) then paid.base = baseLoan
    else ethReceived = paid.base + ctx.fee data.base baseLoan
  else
    ∀ out, ctx.swap data.swapCalldata = .ok out →
    out.taken = ethReceived ∧ out.received data.base = paid.base + ctx.fee data.base baseLoan ∧
    out.eth = 0 ∧ ∀ t ∈ tracked data, t ≠ data.base → out.received t = 0

theorem amount_self (token : Address) (n : ℕ) : amount token n token = n :=
  if_pos rfl

theorem amount_ne {token t : Address} (h : t ≠ token) (n : ℕ) : amount token n t = 0 :=
  if_neg h

section Balances

variable {loan fee e : ℕ} {paid : Payment} {out : Swap}

theorem Repays.balance_of_empty
    (h : Repays (s.receive data.base loan) s' ctx sender data (loan + fee) paid e out)
    (hs : s.Empty data) {t : Address} (ht : t ∈ tracked data) :
    s'.balanceOf t + amount data.base
      (paid.base + ((if data.base = WETH then e else 0) - (loan + fee)) + fee) t +
    amount WSTETH paid.collateral t + amount WETH out.taken t =
    amount data.collateral paid.collateral t + amount WETH e t + out.received t := by
  have hb := h.balance t
  rw [receive_balanceOf, hs.1 t ht] at hb
  simp only [amount_add] at hb ⊢
  omega

-- Collateral other than wstETH cannot be unwrapped, and is left.
theorem Repays.collateral_eq
    (h : Repays (s.receive data.base loan) s' ctx sender data (loan + fee) paid e out)
    (hs : s.Empty data) (hs' : s'.Empty data) : data.collateral = WSTETH := by
  by_contra hc
  by_cases hb : data.base = WSTETH
  case neg =>
    have hw := h.covered hc hb
    rw [receive_balanceOf, amount_ne (Ne.symm hb), hs.1 WSTETH (by simp [tracked])] at hw
    exact absurd hw (Nat.not_le_of_lt h.positive)
  case pos =>
    have hm : data.collateral ∈ tracked data := by simp [tracked]
    have hw := h.balance_of_empty hs hm
    rw [hs'.1 _ hm, amount_ne (hb ▸ hc), amount_ne hc, amount_self] at hw
    have := h.positive
    have := h.taken
    unfold amount at hw
    split at hw <;> omega

-- All that is left is WETH if the base is WETH.
theorem Repays.empty_iff_of_weth
    (h : Repays (s.receive data.base loan) s' ctx sender data (loan + fee) paid e out)
    (hs : s.Empty data) (hc : data.collateral = WSTETH) (hb : data.base = WETH) :
    s'.Empty data ↔ if loan + fee < e then paid.base = loan else e = paid.base + fee := by
  have hx := h.none hb
  subst hx
  have hw {t} (ht : t ∈ tracked data) := h.balance_of_empty hs ht
  simp only [hc, hb, if_true, Nat.add_zero] at hw
  have hm : WETH ∈ tracked data := by simp [tracked]
  have hw' := hw hm
  rw [amount_self, amount_self, amount_ne (by decide), amount_self] at hw'
  have he : s'.Empty data ↔ s'.balanceOf WETH = 0 := by
    refine ⟨fun he => he.1 WETH hm, fun he => ⟨fun t ht => ?_, ?_⟩⟩
    case refine_1 =>
      by_cases ht' : t = WETH
      case pos => exact ht' ▸ he
      case neg =>
        have hw := hw ht
        rw [amount_ne ht', amount_ne ht', amount_ne ht'] at hw
        omega
    case refine_2 => exact h.eth.trans hs.2
  rw [he]
  split <;> omega

theorem Repays.empty_iff_of_ne
    (h : Repays (s.receive data.base loan) s' ctx sender data (loan + fee) paid e out)
    (hs : s.Empty data) (hc : data.collateral = WSTETH) (hb : data.base ≠ WETH) :
    s'.Empty data ↔ out.taken = e ∧ out.received data.base = paid.base + fee ∧ out.eth = 0 ∧
      ∀ t ∈ tracked data, t ≠ data.base → out.received t = 0 := by
  have hw {t} (ht : t ∈ tracked data) : s'.balanceOf t + amount data.base (paid.base + fee) t +
      amount WETH out.taken t = amount WETH e t + out.received t := by
    have hw := h.balance_of_empty hs ht
    rw [hc, if_neg hb, Nat.zero_sub, Nat.add_zero] at hw
    omega
  have hbase := hw (t := data.base) (by simp [tracked])
  have hweth := hw (t := WETH) (by simp [tracked])
  rw [amount_self, amount_ne hb, amount_ne hb] at hbase
  rw [amount_self, amount_self, amount_ne (Ne.symm hb)] at hweth
  have hwst {t} (ht : t ∈ tracked data) (hb : t ≠ data.base) (hw' : t ≠ WETH) :
      s'.balanceOf t = out.received t := by
    have hw := hw ht
    rw [amount_ne hb, amount_ne hw', amount_ne hw'] at hw
    omega
  have heth : s'.eth = out.eth := by
    rw [h.eth]
    exact (congrArg (· + _) hs.2).trans (Nat.zero_add _)
  have htaken := h.taken
  constructor
  case mp =>
    intro ⟨he, he'⟩
    have h₀ := he data.base (by simp [tracked])
    have h₁ := he WETH (by simp [tracked])
    refine ⟨by omega, by omega, heth ▸ he', fun t ht hb => ?_⟩
    by_cases hw' : t = WETH
    case pos => subst hw'; omega
    case neg => exact (hwst ht hb hw').symm.trans (he t ht)
  case mpr =>
    intro ⟨ht, hx, hx', hr⟩
    refine ⟨fun t ht => ?_, heth.trans hx'⟩
    by_cases hb' : t = data.base
    case pos => subst hb'; omega
    case neg =>
      have hr := hr t ht hb'
      by_cases hw' : t = WETH
      case pos => subst hw'; omega
      case neg => exact (hwst ht hb' hw').trans hr

end Balances

theorem liquidate_settles_iff {v : Bytes12} {calldata : List UInt8} {baseLoan : Uint 128}
    (hp : prepare ctx v calldata = .ok (data, baseLoan)) (hs : s.Empty data)
    (h : liquidate s ctx v calldata = .ok s') :
    Settles s s' ctx data (Uint.truncate 256 baseLoan) ↔
    Exact ctx data (Uint.truncate 256 baseLoan) := by
  have ⟨s₁, h₁, hs'⟩ := liquidateWith_eq_ok hp h
  have ⟨paid, e, out, hr⟩ := receiveFlashLoan_eq_ok h₁
  generalize Uint.truncate 256 baseLoan = loan at *
  subst hs'
  have hs₁ : State.Empty { s with contract.liquidating := true } data := hs
  constructor
  case mp =>
    intro ⟨he, _⟩
    have hc := hr.collateral_eq hs₁ he
    refine ⟨hc, fun paid' e' hp' he' => ?_⟩
    cases hr.payAll.symm.trans hp'
    cases hr.exchange.symm.trans he'
    split
    case isTrue hb  => exact (hr.empty_iff_of_weth hs₁ hc hb).mp he
    case isFalse hb =>
      intro out' ho
      cases (hr.swap hb).symm.trans ho
      exact (hr.empty_iff_of_ne hs₁ hc hb).mp he
  case mpr =>
    intro ⟨hc, hx⟩
    have hx := hx paid e hr.payAll hr.exchange
    refine ⟨?_, hr.forwards⟩
    split at hx
    case isTrue hb  => exact (hr.empty_iff_of_weth hs₁ hc hb).mpr hx
    case isFalse hb => exact (hr.empty_iff_of_ne hs₁ hc hb).mpr (hx out (hr.swap hb))

end WstethFlashLiquidator

namespace FlashLiquidator

-- In both contracts.
theorem strands_nothing_iff {s : State} {ctx : Context} {v : Bytes12} {calldata : List UInt8}
    {data : FlashCallbackData} {baseLoan : Uint 128}
    (hp : prepare ctx v calldata = .ok (data, baseLoan)) (hs : s.Empty data) :
    (∀ s', liquidate s ctx v calldata = .ok s' →
      (Settles s s' ctx data (Uint.truncate 256 baseLoan) ↔
        Exact ctx data (Uint.truncate 256 baseLoan))) ∧
    ∀ s', WstethFlashLiquidator.liquidate s ctx v calldata = .ok s' →
      (Settles s s' ctx data (Uint.truncate 256 baseLoan) ↔
        WstethFlashLiquidator.Exact ctx data (Uint.truncate 256 baseLoan)) :=
  ⟨fun _ h => liquidate_settles_iff hp hs h,
    fun _ h => WstethFlashLiquidator.liquidate_settles_iff hp hs h⟩

def DAI : Address := 0x6B175474E89094C44Da98b954EedeAC495271d0F

def State.init : State where
  contract    := { swapRouter02 := 1, flashLoaner := 2, liquidating := false }
  balanceOf _ := 0
  eth         := 0
  transfers   := []

-- A debt of 100 DAI is repaid for 10 of the collateral, which are sold for `n` DAI.
def Context.selling (collateral : Address) (n : ℕ) : Context where
  sender         := 7
  auctions _     := .ok (8, 1)
  vaults _       := .ok ⟨9, 1, 2⟩
  balances _     := .ok ⟨100, 10⟩
  series _       := .ok ⟨3, 1, 1000⟩
  assets i       := .ok (if i = 1 then DAI else collateral)
  debtToBase _ a := .ok a
  joins _        := .ok 4
  fee _ _        := 0
  approve _ _ _  := .ok ()
  payAll _       := .ok ⟨100, 10⟩
  swap _         := .ok ⟨10, fun t => if t = DAI then n else 0, 0⟩
  unwrap n       := .ok n
  exchange n     := .ok n

def sold (collateral : Address) : FlashCallbackData :=
  ⟨0, DAI, collateral, 4, 7, []⟩

theorem strands_nothing_iff_exact :
    (∃ s', liquidate .init (.selling WETH 100) 0 [] = .ok s' ∧
      Settles .init s' (.selling WETH 100) (sold WETH) 100) ∧
    ∃ s', WstethFlashLiquidator.liquidate .init (.selling WSTETH 100) 0 [] = .ok s' ∧
      Settles .init s' (.selling WSTETH 100) (sold WSTETH) 100 := by
  have hp c : prepare (.selling c 100) 0 [] = .ok (sold c, 100) := rfl
  have hs c : State.init.Empty (sold c) := ⟨fun _ _ => rfl, rfl⟩
  have ⟨s₁, h₁⟩ : ∃ s', liquidate .init (.selling WETH 100) 0 [] = .ok s' :=
    Call.exists_of_isOk (by decide +kernel)
  have ⟨s₂, h₂⟩ : ∃ s', WstethFlashLiquidator.liquidate .init (.selling WSTETH 100) 0 [] = .ok s' :=
    Call.exists_of_isOk (by decide +kernel)
  refine ⟨⟨s₁, h₁, ((strands_nothing_iff (hp WETH) (hs WETH)).1 s₁ h₁).mpr ?_⟩, s₂, h₂,
    ((strands_nothing_iff (hp WSTETH) (hs WSTETH)).2 s₂ h₂).mpr ?_⟩
  case refine_1 =>
    intro paid out hp ho
    cases hp
    cases ho
    exact ⟨.inr rfl, fun t _ hb _ => if_neg hb⟩
  case refine_2 =>
    refine ⟨rfl, fun paid e hp he => ?_⟩
    cases hp
    cases he
    rw [if_neg (by decide)]
    intro out ho
    cases ho
    exact ⟨rfl, rfl, rfl, fun t _ hb => if_neg hb⟩

-- The router returns 10 DAI more than what the loan needs, and they stay in the contract.
theorem strands_surplus :
    (¬∀ s ctx v calldata data baseLoan s', prepare ctx v calldata = .ok (data, baseLoan) →
      s.Empty data → liquidate s ctx v calldata = .ok s' →
      Settles s s' ctx data (Uint.truncate 256 baseLoan)) ∧
    ¬∀ s ctx v calldata data baseLoan s', prepare ctx v calldata = .ok (data, baseLoan) →
      s.Empty data → WstethFlashLiquidator.liquidate s ctx v calldata = .ok s' →
      Settles s s' ctx data (Uint.truncate 256 baseLoan) := by
  have hp c : prepare (.selling c 110) 0 [] = .ok (sold c, 100) := rfl
  have hs c : State.init.Empty (sold c) := ⟨fun _ _ => rfl, rfl⟩
  have hm c : DAI ∈ tracked (sold c) := List.mem_cons_self
  constructor
  case left =>
    intro h
    have hb : (liquidate .init (.selling WETH 110) 0 []).map (·.balanceOf DAI) = .ok 10 := by
      decide +kernel
    have ⟨s', h', hb⟩ := Call.map_eq_ok.mp hb
    have ⟨he, _⟩ := h _ _ _ _ _ _ s' (hp WETH) (hs WETH) h'
    exact absurd (hb.symm.trans (he.1 DAI (hm WETH))) (by decide)
  case right =>
    intro h
    have hb : (WstethFlashLiquidator.liquidate .init (.selling WSTETH 110) 0 []).map
        (·.balanceOf DAI) = .ok 10 := by
      decide +kernel
    have ⟨s', h', hb⟩ := Call.map_eq_ok.mp hb
    have ⟨he, _⟩ := h _ _ _ _ _ _ s' (hp WSTETH) (hs WSTETH) h'
    exact absurd (hb.symm.trans (he.1 DAI (hm WSTETH))) (by decide)

end FlashLiquidator
