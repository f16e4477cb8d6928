import YieldModel.FlashLoans.Semaphore

open Reentrancy Execution

namespace FlashLoans

variable {Bytes ω σ ε ρ : Type} {C : Contract Address ε σ ω (Msg Bytes) ρ}

-- The effects of callbacks are on behalf of the lender of the loan in progress, or of the contract
-- itself in a shortcut, and nobody but the lender has been given an allowance.
def ServesOwnLoan (L : Loans C) (shortcut : ε → ω → Address → Prop)
    (c : Config Address ε σ ω (Msg Bytes) ρ) : Prop :=
  ∀ m ∈ c.journal,
    (∀ a r, m.1.call = .callback a r → L.Lends a m.2 ∨ shortcut m.1.entry m.1.saved.2 a) ∧
    (∀ a, m.1.call.request.spender = some a → L.Lends a m.2)

variable {L : Loans C} {c c' : Config Address ε σ ω (Msg Bytes) ρ}
variable {shortcut : ε → ω → Address → Prop}

theorem ServesOwnLoan.of_makes (h : ∀ m ∈ c.journal,
    Makes (L.callback m.1.entry) (L.accepts m.1.entry m.1.saved)
      (shortcut m.1.entry m.1.saved.2) m.1.sender m.1.call ∧
    (L.callback m.1.entry → L.Lends m.1.sender m.2)) : ServesOwnLoan L shortcut c := by
  intro m hm
  have ⟨hk, hl⟩ := h m hm
  refine ⟨fun a r h => ?_, fun a h => ?_⟩
  case refine_1 =>
    cases hk.callback a r h
    case inl h => exact .inl (h.right ▸ hl h.left)
    case inr h => exact .inr h
  case refine_2 =>
    have ⟨hc, ha⟩ := hk.spender a h
    exact ha ▸ hl hc

-- No other callback which has an effect could be permitted.
theorem ServesOwnLoan.permits {f : Outside Address σ ω (Msg Bytes)} {e : ε} {s : σ}
    {rest : List (Frame Address ε σ ω (Msg Bytes) ρ)} {r : Request Bytes}
    {next : ρ → Code σ ω (Msg Bytes) ρ ρ} (hs : c.stack = .others f :: rest)
    (he : (C.body e f.self).exec c.storage c.world = .calls s (.callback f.self r) next)
    (ht : C.target (.callback f.self r) ≠ C.this) (hm : C.move c (.enter e) = some c')
    (hc : ∀ e w a, L.callback e → ¬shortcut e w a) (h : ServesOwnLoan L shortcut c') :
    L.Permits c (.enter e) := by
  by_contra hp
  obtain ⟨m, hm, hb, hk, _, hl⟩ := Loans.not_lends_of_not_permits hs hp he ht hm
  cases (h m hm).left _ _ hk
  case inl h => exact hl h
  case inr h => exact hc _ _ _ hb h

-- So what is permitted is all that can be permitted.

theorem trader_permits {T : Trader.Setting Bytes ω}
    {c c' : Config Address (Trader.Entry Bytes) Trader.Storage ω (Msg Bytes) (Option (Uint 256))}
    {f : Outside Address Trader.Storage ω (Msg Bytes)}
    {rest : List (Frame Address (Trader.Entry Bytes) Trader.Storage ω (Msg Bytes)
      (Option (Uint 256)))} {initiator token : Address} {amount fee : Uint 256} {data : Bytes}
    (hs : c.stack = .others f :: rest) (ht : token ≠ T.this)
    (hm : (Trader.contract T).move c (.enter (.onFlashLoan initiator token amount fee data)) =
      some c') (h : ServesOwnLoan (Trader.loans T) (fun _ _ _ => False) c') :
    (Trader.loans T).Permits c (.enter (.onFlashLoan initiator token amount fee data)) := by
  by_cases ha : Trader.accepts T (c.storage, c.world) (.onFlashLoan initiator token amount fee data)
  case pos =>
    obtain ⟨_, he⟩ := Trader.onFlashLoan_approves ha
    exact h.permits hs he ht hm fun _ _ _ _ h => h
  case neg =>
    intro _ _ _ _ he _ ha'
    cases he
    exact absurd ha' ha

theorem roller_permits {R : Roller.Setting Bytes ω}
    {c c' : Config Address (Roller.Entry Bytes) Roller.Storage ω (Msg Bytes) (Option (Uint 256))}
    {f : Outside Address Roller.Storage ω (Msg Bytes)}
    {rest : List (Frame Address (Roller.Entry Bytes) Roller.Storage ω (Msg Bytes)
      (Option (Uint 256)))} {initiator token : Address} {amount fee : Uint 256} {data : Bytes}
    (hs : c.stack = .others f :: rest) (ht : token ≠ R.this) (hs' : c.storage._strategy ≠ R.this)
    (hm : (Roller.contract R).move c (.enter (.onFlashLoan initiator token amount fee data)) =
      some c')
    (h : ServesOwnLoan (Roller.loans R) (fun e w a => Roller.Shortcut R w a e) c') :
    (Roller.loans R).Permits c (.enter (.onFlashLoan initiator token amount fee data)) := by
  by_cases ha : Roller.accepts R (c.storage, c.world) (.onFlashLoan initiator token amount fee data)
  case pos =>
    obtain ⟨r, _, he, hr⟩ := Roller.onFlashLoan_calls ha
    have ht : r.target ≠ R.this := by
      cases hr
      case inl hr => exact hr ▸ ht
      case inr hr => exact hr ▸ hs'
    refine h.permits hs he ht hm fun e _ _ hc hsc => ?_
    cases e
    case onFlashLoan => exact hsc
    all_goals cases hc
  case neg =>
    intro _ _ _ _ he _ ha'
    cases he
    exact absurd ha' ha

-- As long as nobody but the lender makes a callback which is accepted during a trade or a roll.
theorem serves_own_loan :
    (∀ (T : Trader.Setting Bytes ω) sender w c,
      Steps ((Trader.contract T).Step (Trader.loans T).Permits) (start (Trader.created sender) w) c →
      ServesOwnLoan (Trader.loans T) (fun _ _ _ => False) c) ∧
    (∀ (R : Roller.Setting Bytes ω) sender w c,
      Steps ((Roller.contract R).Step (Roller.loans R).Permits) (start (Roller.created sender) w) c →
      ServesOwnLoan (Roller.loans R) (fun e w a => Roller.Shortcut R w a e) c) := by
  constructor
  case left  => exact fun T _ _ _ e => .of_makes (Loans.served e (not_not.mpr rfl))
  case right => exact fun R _ _ _ e => .of_makes (Loans.served e (not_not.mpr rfl))

namespace Rehearsal

-- The balances of the base, and the allowances over the base of the contract 1.
structure World where
  balances   : Address → Uint 256
  allowances : Address → Uint 256

def World.pay (w : World) (a b : Address) (n : Uint 256) : World :=
  let balances := Function.update w.balances a (w.balances a - n)
  { w with balances := Function.update balances b (balances b + n) }

def World.allow (w : World) (spender : Address) (n : Uint 256) : World :=
  { w with allowances := Function.update w.allowances spender n }

-- The strategy 50 uses the pool 10, which trades the base 20 and the fyToken 30, whose Join is 40.
def views : Views World where
  balanceOf w token account := .ok (if token = 20 then w.balances account else 500)
  base _ _                  := .ok 20
  fyToken _ _               := .ok 30
  buyBasePreview _ _ n      := .ok n
  join _ _                  := .ok 40
  underlyingId _ _          := .ok 60
  asset _ _                 := .ok 20
  pool _ _                  := .ok 10
  nextPool _ _              := .ok 10
  baseId _ _                := .ok 60
  joins _ _ _               := .ok 40
  pools _ _ _               := .ok 10

def world : World where
  balances a   := if a = 1 then 100 else if a = 3 ∨ a = 10 then 5000 else 0
  allowances _ := 0

abbrev TraderData := Trader.Trade × Address × Uint 128 × Uint 128

-- The lender is 3.
def trader : Trader.Setting TraderData World where
  this   := 1
  lender := 3
  abi    := ⟨fun trade pool baseOut limit => (trade, pool, baseOut, limit), .ok⟩
  views  := views

def roller : Roller.Setting Unit World where
  this  := 1
  ladle := 6
  empty := ()
  views := views

abbrev Act (ε Bytes : Type) :=
  Move Address ε World (Msg Bytes) (Option (Uint 256))

-- The account 4 is called on the way, and it calls `onFlashLoan`, which makes `n` requests, approves
-- the sender, and makes `m` more requests.
def intrusion {ε Bytes : Type} (callback : ε) (n m : ℕ) (w : World) : List (Act ε Bytes) :=
  [.nested 4 none, .enter callback] ++ List.replicate n (.answer none) ++
  [.work (w.allow 4 (.max 256)), .answer none] ++ List.replicate m (.answer none) ++ [.answer none]

-- The worlds after the lender has paid 500 to the contract, after it has been approved, and after
-- the contract has paid the Join.
def lent : World := world.pay 3 1 500
def approved : World := lent.allow 3 (.max 256)
def funded : World := approved.pay 1 40 500

-- The owner 2 sells fyToken. Before the pool pays for it, `others` happens.
def trade (others : World → List (Act (Trader.Entry TraderData) TraderData)) (w : World) :
    List (Act (Trader.Entry TraderData) TraderData) :=
  [ .transaction 2, .enter (.sellFYToken 10 500 0), .work lent,
    .enter (.onFlashLoan 1 20 500 0 (.SELLFYTOKEN, 10, 0, 0)), .work approved, .answer none,
    .work funded, .answer none, .answer none ] ++ others funded ++
  [ .work (w.pay 10 1 500), .answer none, .work ((w.pay 10 1 500).pay 1 3 500), .answer none,
    .answer none ]

-- The owner 2 rolls the strategy 50. Before its pool is started, `others` happens.
def roll (others : World → List (Act (Roller.Entry Unit) Unit)) (w : World) :
    List (Act (Roller.Entry Unit) Unit) :=
  [ .transaction 2, .enter (.roles (.grantRole Roller.selector.roll 2)),
    .enter (.roll 50 1000 3 2), .work lent, .enter (.onFlashLoan 1 20 500 0 ()),
    .work (lent.pay 1 40 500), .answer none, .answer none, .answer none ] ++
  others (lent.pay 1 40 500) ++
  [ .answer none, .answer none, .work (w.pay 10 1 500), .answer none,
    .work ((w.pay 10 1 500).allow 3 500), .answer none,
    .work (((w.pay 10 1 500).allow 3 500).pay 1 3 500), .answer none, .answer none, .answer none ]

-- Somebody has been given an allowance who does not lend the loan in progress.
def exposed (L : Loans C) (c : Config Address ε σ ω (Msg Bytes) ρ) : Bool :=
  c.journal.any fun m =>
    match m.1.call.request.spender with
    | some a => (L.current m.2).bind (L.lender ·.call) ≠ some a
    | none   => false

theorem not_servesOwnLoan_of_exposed (h : exposed L c) : ¬ServesOwnLoan L shortcut c := by
  intro hs
  obtain ⟨m, hm, h⟩ := List.any_eq_true.mp h
  split at h
  case h_2 => cases h
  case h_1 a ha =>
    have ⟨o, ho, hl⟩ := (hs m hm).right a ha
    simp [ho, hl] at h

variable {C : Contract Address ε σ World (Msg Bytes) ρ} {L : Loans C} {s : σ}
variable {shortcut : ε → World → Address → Prop} {l : List (Move Address ε World (Msg Bytes) ρ)}

theorem steps_of_check (h : (C.run L.check (start s world) l).map (·.stack.isEmpty) = some true) :
    ∃ c, C.run L.check (start s world) l = some c ∧ c.stack = [] ∧
      Steps (C.Step L.Permits) (start s world) c := by
  have ⟨c, hc, hs⟩ := Option.map_eq_some_iff.mp h
  exact ⟨c, hc, List.isEmpty_iff.mp hs,
    Contract.steps_of_run (fun _ _ => Loans.permits_of_check) hc⟩

theorem not_servesOwnLoan_of_run (h : (C.run (fun _ _ => true) (start s world) l).map
    (fun c => (c.stack.isEmpty, c.world.allowances 4, exposed L c)) = some (true, .max 256, true)) :
    ∃ c, Steps (C.Step fun _ _ => True) (start s world) c ∧ c.stack = [] ∧
      c.world.allowances 4 = .max 256 ∧ ¬ServesOwnLoan L shortcut c := by
  obtain ⟨c, hc, h⟩ := Option.map_eq_some_iff.mp h
  simp only [Prod.mk.injEq, List.isEmpty_iff] at h
  obtain ⟨hs, ha, he⟩ := h
  exact ⟨c, Contract.steps_of_run (fun _ _ _ => trivial) hc, hs, ha,
    not_servesOwnLoan_of_exposed he⟩

end Rehearsal

open Rehearsal

theorem serves_own_loan_repaid :
    (∃ c, (Trader.contract trader).run (Trader.loans trader).check (start (Trader.created 2) world)
        (trade (fun _ => []) funded) = some c ∧ c.stack = [] ∧
      ServesOwnLoan (Trader.loans trader) (fun _ _ _ => False) c) ∧
    (∃ c, (Roller.contract roller).run (Roller.loans roller).check (start (Roller.created 2) world)
        (roll (fun _ => []) (lent.pay 1 40 500)) = some c ∧ c.stack = [] ∧
      ServesOwnLoan (Roller.loans roller) (fun e w a => Roller.Shortcut roller w a e) c) := by
  constructor
  case left =>
    have ⟨c, hc, hs, e⟩ := steps_of_check (C := Trader.contract trader) (L := Trader.loans trader)
      (s := Trader.created 2) (l := trade (fun _ => []) funded) (by decide +kernel)
    exact ⟨c, hc, hs, serves_own_loan.left trader 2 world c e⟩
  case right =>
    have ⟨c, hc, hs, e⟩ := steps_of_check (C := Roller.contract roller) (L := Roller.loans roller)
      (s := Roller.created 2) (l := roll (fun _ => []) (lent.pay 1 40 500)) (by decide +kernel)
    exact ⟨c, hc, hs, serves_own_loan.right roller 2 world c e⟩

theorem not_serves_own_loan :
    (∃ c, Steps ((Trader.contract trader).Step fun _ _ => True) (start (Trader.created 2) world) c ∧
      c.stack = [] ∧ c.world.allowances 4 = .max 256 ∧
      ¬ServesOwnLoan (Trader.loans trader) (fun _ _ _ => False) c) ∧
    (∃ c, Steps ((Roller.contract roller).Step fun _ _ => True) (start (Roller.created 2) world) c ∧
      c.stack = [] ∧ c.world.allowances 4 = .max 256 ∧
      ¬ServesOwnLoan (Roller.loans roller) (fun e w a => Roller.Shortcut roller w a e) c) := by
  constructor
  case left =>
    exact not_servesOwnLoan_of_run (l := trade
      (intrusion (.onFlashLoan 4 20 0 0 (.SELLFYTOKEN, 10, 0, 0)) 0 3) (funded.allow 4 (.max 256)))
      (by decide +kernel)
  case right =>
    exact not_servesOwnLoan_of_run (l := roll
      (intrusion (.onFlashLoan 4 20 1 (.max 256 - 1) ()) 6 0)
      ((lent.pay 1 40 500).allow 4 (.max 256))) (by decide +kernel)

end FlashLoans
