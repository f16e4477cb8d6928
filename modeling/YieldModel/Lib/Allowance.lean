import YieldModel.Lib.Tally

-- Accounts which let others spend for them. What an account lets another spend is used up, unless
-- it is `top`.

open Tally

namespace Allowance

variable {κ : Type*} [DecidableEq κ]

structure Book (κ : Type*) where
  balance   : κ → ℕ
  allowance : κ → κ → ℕ

-- What is spent is received by another account, or by none.
inductive Entry (κ : Type*)
  | spend (spender src : κ) (dst : Option κ) (amount : ℕ)
  | credit (dst : κ) (amount : ℕ)
  | allow (owner spender : κ) (amount : ℕ)
  | other

def paid (f : κ → ℕ) (src : κ) (dst : Option κ) (amount : ℕ) : κ → ℕ :=
  let g := Function.update f src (f src - amount)
  match dst with
  | none     => g
  | some dst => Function.update g dst (g dst + amount)

def allowed (f : κ → κ → ℕ) (owner spender : κ) (amount : ℕ) : κ → κ → ℕ :=
  Function.update f owner (Function.update (f owner) spender amount)

variable {top amount : ℕ} {s s' s₁ : Book κ} {e : Entry κ} {es : List (Entry κ)}
  {spender src owner o p : κ} {dst : Option κ}

-- What becomes of the allowances when `spender` spends for `src`.
inductive Uses (top : ℕ) (f : κ → κ → ℕ) (spender src : κ) (amount : ℕ) : (κ → κ → ℕ) → Prop
  | free : spender = src ∨ f src spender = top → Uses top f spender src amount f
  | used : amount ≤ f src spender →
    Uses top f spender src amount (allowed f src spender (f src spender - amount))

inductive Does (top : ℕ) (s : Book κ) : Entry κ → Book κ → Prop
  | spend {spender src : κ} {dst : Option κ} {amount : ℕ} {allowance : κ → κ → ℕ}
    (covered : amount ≤ s.balance src) (uses : Uses top s.allowance spender src amount allowance) :
    Does top s (.spend spender src dst amount)
      { balance := paid s.balance src dst amount, allowance }
  | credit {dst : κ} {amount : ℕ} : Does top s (.credit dst amount)
      { s with balance := Function.update s.balance dst (s.balance dst + amount) }
  | allow {owner spender : κ} {amount : ℕ} : Does top s (.allow owner spender amount)
      { s with allowance := Allowance.allowed s.allowance owner spender amount }
  | other : Does top s .other s

inductive Path (top : ℕ) : Book κ → List (Entry κ) → Book κ → Prop
  | nil {s : Book κ} : Path top s [] s
  | cons {s s₁ s' : Book κ} {e : Entry κ} {es : List (Entry κ)} :
    Does top s e s₁ → Path top s₁ es s' → Path top s (e :: es) s'

theorem does_spend (covered : amount ≤ s.balance src)
    (uses : Uses top s.allowance spender src amount s'.allowance)
    (h : s'.balance = paid s.balance src dst amount) :
    Does top s (.spend spender src dst amount) s' := by
  obtain ⟨balance, allowance⟩ := s'
  cases h
  exact .spend covered uses

def Entry.received (o : κ) : Entry κ → ℕ
  | .spend _ _ dst amount => if dst = some o then amount else 0
  | .credit dst amount    => if dst = o then amount else 0
  | .allow .. | .other    => 0

def Entry.spent (o : κ) : Entry κ → ℕ
  | .spend _ src _ amount           => if src = o then amount else 0
  | .credit .. | .allow .. | .other => 0

-- What an entry adds to all balances together, and what it takes from them.

def Entry.created : Entry κ → ℕ
  | .credit _ amount               => amount
  | .spend .. | .allow .. | .other => 0

def Entry.destroyed : Entry κ → ℕ
  | .spend _ _ dst amount           => if dst.isNone then amount else 0
  | .credit .. | .allow .. | .other => 0

-- An entry for which the account `o` is not asked.
def Entry.Foreign (o : κ) : Entry κ → Prop
  | .spend spender _ _ _  => spender ≠ o
  | .allow owner _ _      => owner ≠ o
  | .credit .. | .other   => True

theorem paid_add {f : κ → ℕ} (h : amount ≤ f src) :
    paid f src dst amount o + (if src = o then amount else 0) =
    f o + if dst = some o then amount else 0 := by
  cases dst
  case none =>
    by_cases ho : src = o
    case pos => subst ho; simp [paid, h]
    case neg => simp [paid, ho, Function.update_of_ne (Ne.symm ho)]
  case some dst =>
    by_cases ho : src = o <;> by_cases hd : dst = o
    · subst ho hd; simp [paid]; omega
    · subst ho; simp [paid, hd, Function.update_of_ne (Ne.symm hd), h]
    · subst hd; simp [paid, ho, Function.update_of_ne (Ne.symm ho)]
    · simp [paid, ho, hd, Function.update_of_ne (Ne.symm ho), Function.update_of_ne (Ne.symm hd)]

theorem Does.balance (h : Does top s e s') :
    s'.balance o + e.spent o = s.balance o + e.received o := by
  cases h
  case spend covered _ => exact paid_add covered
  case credit dst amount =>
    by_cases hd : dst = o
    case pos => subst hd; simp [Entry.spent, Entry.received]
    case neg => simp [Entry.spent, Entry.received, hd, Function.update_of_ne (Ne.symm hd)]
  case allow => rfl
  case other => rfl

theorem Path.balance (h : Path top s es s') :
    s'.balance o + (es.map (Entry.spent o)).sum =
    s.balance o + (es.map (Entry.received o)).sum := by
  induction h
  case nil => rfl
  case cons hd _ hi =>
    have hb := hd.balance (o := o)
    simp only [List.map_cons, List.sum_cons]
    omega

theorem allowed_of_ne {f : κ → κ → ℕ} (h : owner ≠ o) : allowed f owner spender amount o = f o :=
  Function.update_of_ne (Ne.symm h) ..

@[simp]
theorem allowed_self {f : κ → κ → ℕ} :
    allowed f owner spender amount owner = Function.update (f owner) spender amount :=
  Function.update_self ..

theorem Uses.of_ne {f f' : κ → κ → ℕ} (h : Uses top f spender src amount f') (hs : src ≠ o) :
    f' o = f o := by
  cases h
  case free => rfl
  case used => exact allowed_of_ne hs

theorem Uses.allowance_le {f f' : κ → κ → ℕ} (h : Uses top f spender src amount f') :
    f' o p ≤ f o p := by
  cases h
  case free => exact le_rfl
  case used =>
    by_cases hs : src = o
    case neg => simp only [allowed_of_ne hs, le_refl]
    case pos =>
      subst hs
      simp only [allowed_self, Function.update_apply]
      split
      case isTrue hp => exact hp ▸ Nat.sub_le ..
      case isFalse   => exact le_rfl

-- What others may spend never grows, and it stays finite.
theorem Does.allowance_le (h : Does top s e s') (he : e.Foreign o) :
    s'.allowance o p ≤ s.allowance o p := by
  cases h
  case spend uses => exact uses.allowance_le
  case credit     => exact le_rfl
  case other      => exact le_rfl
  case allow      => simp only [allowed_of_ne he, le_refl]

section Total

variable [Fintype κ]

theorem total_paid {f : κ → ℕ} (h : amount ≤ f src) :
    total (paid f src dst amount) + amount =
    total f + if dst.isSome then amount else 0 := by
  have hs := total_update f src (f src - amount)
  cases dst
  case none => simp only [paid, Option.isSome_none, Bool.false_eq_true, if_false]; omega
  case some dst =>
    have hd := total_update (Function.update f src (f src - amount)) dst
      (Function.update f src (f src - amount) dst + amount)
    simp only [paid, Option.isSome_some, if_true]
    omega

theorem Does.total_balance (h : Does top s e s') :
    total s'.balance + e.destroyed = total s.balance + e.created := by
  cases h
  case spend spender src dst amount _ covered _ =>
    have h : total (paid s.balance src dst amount) + amount = _ := total_paid covered
    cases dst <;> simp_all [Entry.destroyed, Entry.created]
  case credit dst amount =>
    have h := total_update s.balance dst (s.balance dst + amount)
    simp only [Entry.destroyed, Entry.created]
    omega
  case allow => rfl
  case other => rfl

theorem Uses.total_eq {f f' : κ → κ → ℕ} (h : Uses top f spender src amount f')
    (hs : spender ≠ src) (ht : f src spender < top) :
    total (f' src) + amount = total (f src) := by
  cases h
  case free h => exact absurd h (not_or.mpr ⟨hs, ht.ne⟩)
  case used hle =>
    have h := total_update (f src) spender (f src spender - amount)
    rw [allowed_self]
    omega

-- What is spent for an account by others, others may no longer spend.
theorem Does.spent_eq (h : Does top s e s') (he : e.Foreign o) (ht : ∀ p, s.allowance o p < top) :
    total (s'.allowance o) + e.spent o = total (s.allowance o) := by
  cases h
  case credit => rfl
  case other  => rfl
  case allow  => simp only [allowed_of_ne he, Entry.spent, add_zero]
  case spend spender src dst amount _ _ uses =>
    by_cases hs : src = o
    case neg => simp [Entry.spent, hs, uses.of_ne hs]
    case pos =>
      subst hs
      simpa only [Entry.spent, if_true] using uses.total_eq he (ht spender)

theorem Path.total_balance (h : Path top s es s') :
    total s'.balance + (es.map Entry.destroyed).sum =
    total s.balance + (es.map Entry.created).sum := by
  induction h
  case nil => rfl
  case cons hd _ hi =>
    have hb := hd.total_balance
    simp only [List.map_cons, List.sum_cons]
    omega

-- While an account does nothing itself, it only loses what it has let others spend.
theorem Path.balance_add_allowances (h : Path top s es s') (he : ∀ e ∈ es, e.Foreign o)
    (ht : ∀ p, s.allowance o p < top) :
    s'.balance o + total (s.allowance o) =
    s.balance o + (es.map (Entry.received o)).sum + total (s'.allowance o) := by
  induction h
  case nil => simp
  case cons s s₁ s' e es hd _ hi =>
    obtain ⟨he, hes⟩ := List.forall_mem_cons.mp he
    have hb := hd.balance (o := o)
    have ha := hd.spent_eq he ht
    have h := hi hes fun p => (hd.allowance_le he).trans_lt (ht p)
    rw [List.map_cons, List.sum_cons]
    omega

end Total

-- What a call does to the accounts and to the supply.
structure Executes (top : ℕ) (s : Book κ) (supply : ℕ) (e : Entry κ) (s' : Book κ) (supply' : ℕ) :
    Prop where
  does   : Does top s e s'
  supply : supply' + e.destroyed = supply + e.created

section Run

variable {σ μ ε : Type*} (exec : σ → μ → Except ε σ) (book : σ → Book κ) (supply : σ → ℕ)
  {entry : μ → Entry κ} {t t' : σ} {ms : List μ}

theorem run_path
    (hx : ∀ t m t', exec t m = .ok t' →
      Executes top (book t) (supply t) (entry m) (book t') (supply t'))
    (h : ms.foldlM exec t = .ok t') : Path top (book t) (ms.map entry) (book t') := by
  induction ms generalizing t
  case nil => cases h; exact .nil
  case cons m ms hi =>
    rw [List.foldlM_cons] at h
    cases hm : exec t m
    case error => rw [hm] at h; cases h
    case ok t₁ =>
      rw [hm] at h
      exact .cons (hx t m t₁ hm).does (hi h)

theorem run_supply
    (hx : ∀ t m t', exec t m = .ok t' →
      Executes top (book t) (supply t) (entry m) (book t') (supply t'))
    (h : ms.foldlM exec t = .ok t') :
    supply t' + (ms.map (Entry.destroyed ∘ entry)).sum =
    supply t + (ms.map (Entry.created ∘ entry)).sum := by
  induction ms generalizing t
  case nil => cases h; rfl
  case cons m ms hi =>
    rw [List.foldlM_cons] at h
    cases hm : exec t m
    case error => rw [hm] at h; cases h
    case ok t₁ =>
      rw [hm] at h
      have hs := (hx t m t₁ hm).supply
      have hi := hi h
      simp only [List.map_cons, List.sum_cons, Function.comp_apply]
      omega

-- The supply is what all accounts have together, if it is so at first.
theorem run_supply_eq_total [Fintype κ]
    (hx : ∀ t m t', exec t m = .ok t' →
      Executes top (book t) (supply t) (entry m) (book t') (supply t'))
    (h : ms.foldlM exec t = .ok t') (ht : supply t = total (book t).balance) :
    supply t' = total (book t').balance := by
  have hs := run_supply exec book supply hx h
  have hp := (run_path exec book supply hx h).total_balance
  rw [List.map_map, List.map_map] at hp
  omega

end Run

end Allowance
