import YieldModel.Lib.Allowance
import YieldModel.Tokens.Basic

open Allowance Tally

namespace DaiMock

variable {evm : Evm} {s s' : DaiMock} {b : Block} {m : Message} {ms : List Message}
  {sender src dst usr holder : Address} {wad : Uint 256} {x y z : Uint 256}

-- The accounts, and what a call does to them.

def book (s : DaiMock) : Book Address where
  balance a     := s.balanceOf a
  allowance o p := s.allowance o p

def Message.entry (m : Message) : Entry Address :=
  match m.action with
  | .rely _ | .deny _         => .other
  | .transfer dst wad         => .spend m.sender m.sender (some dst) wad
  | .transferFrom src dst wad => .spend m.sender src (some dst) wad
  | .mint usr wad             => .credit usr wad
  | .burn usr wad             => .spend m.sender usr none wad
  | .approve usr wad          => .allow m.sender usr wad
  | .push usr wad             => .spend m.sender m.sender (some usr) wad
  | .pull usr wad             => .spend m.sender usr (some m.sender) wad
  | .move src dst wad         => .spend m.sender src (some dst) wad
  | .permit p _ _ _           => .allow p.holder p.spender p.wad

theorem add_eq_ok : add x y = .ok z ↔ (z : ℕ) = x + y := by
  simp only [add, Call.bind_eq_ok, Uint.add_eq_ok, Call.require_eq_ok, Call.pure_eq_ok]
  constructor
  case mp  => rintro ⟨_, h, _, -, rfl⟩; exact h
  case mpr => exact fun h => ⟨z, h, ⟨⟩, Fin.le_def.mpr (by omega), rfl⟩

theorem sub_eq_ok : sub x y = .ok z ↔ (z : ℕ) + y = x := by
  simp only [sub, Call.bind_eq_ok, Uint.sub_eq_ok, Call.require_eq_ok, Call.pure_eq_ok]
  constructor
  case mp  => rintro ⟨_, h, _, -, rfl⟩; exact h
  case mpr => exact fun h => ⟨z, h, ⟨⟩, Fin.le_def.mpr (by omega), rfl⟩

theorem val_update {f : Address → Uint 256} {a : Address} :
    (fun i => ((Function.update f a x i : Uint 256) : ℕ)) =
    Function.update (fun i => (f i : ℕ)) a x :=
  Function.comp_update Fin.val f a x

theorem book_setAllowance : (s.setAllowance src usr wad).book =
    { s.book with allowance := allowed s.book.allowance src usr wad } := by
  refine congrArg (Book.mk _) (funext fun o => ?_)
  by_cases ho : o = src
  case pos => subst ho; simp [setAllowance, allowed, book, val_update]
  case neg => simp [setAllowance, allowed, book, ho]

-- What only permits depend on.
structure Keeps (s s' : DaiMock) : Prop where
  nonces : s'.nonces = s.nonces
  domain : s'.DOMAIN_SEPARATOR = s.DOMAIN_SEPARATOR

theorem useAllowance_eq_ok (h : s.useAllowance sender src wad = .ok s') :
    s'.balanceOf = s.balanceOf ∧ s'.totalSupply = s.totalSupply ∧ s.Keeps s' ∧
    Uses (Uint.max 256 : Uint 256) s.book.allowance sender src wad s'.book.allowance := by
  unfold useAllowance at h
  split at h
  case isTrue =>
    simp only [Call.bind_eq_ok, Call.require_eq_ok, sub_eq_ok, Call.pure_eq_ok] at h
    obtain ⟨_, hle, a, ha, rfl⟩ := h
    have he : (a : ℕ) = s.book.allowance src sender - wad := Nat.eq_sub_of_add_eq ha
    rw [book_setAllowance, he]
    exact ⟨rfl, rfl, ⟨rfl, rfl⟩, .used hle⟩
  case isFalse hn =>
    cases h
    rw [not_and_or, not_not, not_not] at hn
    exact ⟨rfl, rfl, ⟨rfl, rfl⟩, .free (hn.imp Eq.symm (congrArg Fin.val))⟩

-- What a call does to the accounts and to the supply.
abbrev Executes (s : DaiMock) (e : Entry Address) (s' : DaiMock) : Prop :=
  Allowance.Executes (Uint.max 256 : Uint 256) s.book s.totalSupply e s'.book s'.totalSupply

theorem transferFrom_eq_ok (h : s.transferFrom sender src dst wad = .ok s') :
    s.Executes (.spend sender src (some dst) wad) s' ∧ s.Keeps s' := by
  simp only [transferFrom, Call.bind_eq_ok, Call.require_eq_ok, sub_eq_ok, add_eq_ok,
    Call.pure_eq_ok] at h
  obtain ⟨_, hc, s₁, ha, x, hx, y, hy, rfl⟩ := h
  obtain ⟨hb, ht, hn, hu⟩ := useAllowance_eq_ok ha
  have hx : (x : ℕ) = s.balanceOf src - wad := by rw [← hb]; omega
  have hp : (fun a => ((Function.update (Function.update s₁.balanceOf src x) dst y a : Uint 256) : ℕ)) =
      paid s.book.balance src (some dst) wad := by
    funext a
    simp only [book, paid, hy, hx, hb, Function.update_apply, apply_ite Fin.val]
  exact ⟨⟨does_spend hc hu hp, by simp [ht, Entry.destroyed, Entry.created]⟩,
    ⟨hn.nonces, hn.domain⟩⟩

theorem burn_eq_ok (h : s.burn sender usr wad = .ok s') :
    s.Executes (.spend sender usr none wad) s' ∧ s.Keeps s' := by
  simp only [burn, Call.bind_eq_ok, Call.require_eq_ok, sub_eq_ok, Call.pure_eq_ok] at h
  obtain ⟨_, hc, s₁, ha, x, hx, y, hy, rfl⟩ := h
  obtain ⟨hb, ht, hn, hu⟩ := useAllowance_eq_ok ha
  have hx : (x : ℕ) = s.balanceOf usr - wad := by rw [← hb]; omega
  have hp : (fun a => ((Function.update s₁.balanceOf usr x a : Uint 256) : ℕ)) =
      paid s.book.balance usr none wad := by
    simp only [book, paid, val_update, hx, hb]
  exact ⟨⟨does_spend hc hu hp, by simpa [Entry.destroyed, Entry.created, ht] using hy⟩,
    ⟨hn.nonces, hn.domain⟩⟩

theorem mint_eq_ok (h : s.mint sender usr wad = .ok s') :
    s.Executes (.credit usr wad) s' ∧ s.Keeps s' := by
  simp only [mint, auth, Call.bind_eq_ok, Call.require_eq_ok, add_eq_ok, Call.pure_eq_ok] at h
  obtain ⟨_, -, x, hx, y, hy, rfl⟩ := h
  refine ⟨⟨?_, by simpa [Entry.destroyed, Entry.created] using hy⟩, ⟨rfl, rfl⟩⟩
  have hs : ∀ t, book { s with balanceOf := Function.update s.balanceOf usr x, totalSupply := t } =
      { s.book with balance :=
          Function.update s.book.balance usr (s.book.balance usr + wad) } := by
    intro t
    simp only [book, val_update, hx]
  rw [hs]
  exact .credit

theorem exec_eq_ok (h : exec evm s m = .ok s') : s.Executes m.entry s' := by
  obtain ⟨sender, b, action⟩ := m
  cases action
  case transfer     => exact (transferFrom_eq_ok h).left
  case transferFrom => exact (transferFrom_eq_ok h).left
  case push         => exact (transferFrom_eq_ok h).left
  case pull         => exact (transferFrom_eq_ok h).left
  case move         => exact (transferFrom_eq_ok h).left
  case mint         => exact (mint_eq_ok h).left
  case burn         => exact (burn_eq_ok h).left
  case approve =>
    cases h
    refine ⟨?_, rfl⟩
    rw [approve, book_setAllowance]
    exact .allow
  case rely | deny =>
    simp only [exec, rely, deny, auth, Call.bind_eq_ok, Call.pure_eq_ok] at h
    obtain ⟨_, -, rfl⟩ := h
    exact ⟨.other, rfl⟩
  case permit =>
    simp only [exec, permit, Call.bind_eq_ok, Call.pure_eq_ok] at h
    obtain ⟨_, -, _, -, _, -, nonce, -, _, -, rfl⟩ := h
    refine ⟨?_, rfl⟩
    rw [book_setAllowance]
    exact .allow

theorem run_path (h : run evm s ms = .ok s') :
    Path (Uint.max 256 : Uint 256) s.book (ms.map Message.entry) s'.book :=
  Allowance.run_path (exec evm) book (fun s => s.totalSupply) (fun _ _ _ => exec_eq_ok) h

theorem run_supply (h : run evm s ms = .ok s') :
    (s'.totalSupply : ℕ) + (ms.map (·.entry.destroyed)).sum =
    s.totalSupply + (ms.map (·.entry.created)).sum :=
  Allowance.run_supply (exec evm) book (fun s => s.totalSupply) (fun _ _ _ => exec_eq_ok) h

theorem run_supply_eq_total (h : run evm s ms = .ok s')
    (hs : (s.totalSupply : ℕ) = total s.book.balance) :
    (s'.totalSupply : ℕ) = total s'.book.balance :=
  Allowance.run_supply_eq_total (exec evm) book (fun s => s.totalSupply) (fun _ _ _ => exec_eq_ok) h hs

-- The supply is what was minted and not burnt, and it is what all accounts have together.
theorem supply_eq_total {this deployer : Address} {chainId : Uint 256}
    (h : run evm (init evm this deployer chainId) ms = .ok s') :
    (s'.totalSupply : ℕ) = total (fun a => (s'.balanceOf a : ℕ)) ∧
    (s'.totalSupply : ℕ) + (ms.map (·.entry.destroyed)).sum = (ms.map (·.entry.created)).sum := by
  have h₀ : total (init evm this deployer chainId).book.balance = 0 := total_eq_zero fun _ => rfl
  have hs := run_supply_eq_total h (Eq.trans rfl h₀.symm)
  exact ⟨hs, by simpa [init] using run_supply h⟩

namespace Minted

-- The hashes of a deployment at address 9 on the chain with id 1. Nothing is signed.
def hashes : Evm where
  keccak256 input :=
    if input = Evm.bytes
        "EIP712Domain(string name,string version,uint256 chainId,address verifyingContract)" then
      0x8b73c3c69bb8fe3d512ecc4cf759cc79239f7b179b0ffacaa9a75d522b39400f
    else if input = Evm.bytes "Dai Stablecoin Mock" then
      0xe71a0d119846d86a30d6647227f627bda36707b938b56a88343bf6a8af18eacb
    else if input = Evm.bytes "1" then
      0xc89efdaa54c0f20c7adf612882df0950f5a951637e0307cdcb4c672f298b8bc6
    else
      0xe985405a1adda3763cf07f5ff37b005754bb10832d8c8a1b880929bbac8d8cad
  ecrecover _ _ _ _ := 0

def genesis : Block :=
  ⟨1, Nat.one_pos⟩

-- The deployer mints 10 tokens for account 2, which lets account 3 burn them.
def messages : List Message :=
  [⟨1, genesis, .mint 2 10⟩, ⟨2, genesis, .approve 3 4⟩, ⟨3, genesis, .burn 2 4⟩]

-- The state before the last of them.
def lent : DaiMock where
  wards a          := if a = 1 then 1 else 0
  totalSupply      := 10
  balanceOf a      := if a = 2 then 10 else 0
  allowance o p    := if o = 2 ∧ p = 3 then 4 else 0
  nonces _         := 0
  DOMAIN_SEPARATOR := 0xe985405a1adda3763cf07f5ff37b005754bb10832d8c8a1b880929bbac8d8cad

theorem lent_lt (p : Address) : lent.allowance 2 p ≠ Uint.max 256 := by
  simp only [lent]
  split
  case isTrue  => decide
  case isFalse => decide

end Minted

theorem supply_eq_total_minted : ∃ s',
    run Minted.hashes (init Minted.hashes 9 1 1) Minted.messages = .ok s' ∧
    (s'.totalSupply : ℕ) = total (fun a => (s'.balanceOf a : ℕ)) := by
  have h : run Minted.hashes (init Minted.hashes 9 1 1) Minted.messages = .ok _ := rfl
  exact ⟨_, h, (supply_eq_total h).left⟩

-- A call for which `o` is not asked: it is neither sent nor signed by `o`.
def Message.Foreign (o : Address) (m : Message) : Prop :=
  m.sender ≠ o ∧ ∀ p v r s, m.action = .permit p v r s → p.holder ≠ o

theorem Message.Foreign.entry {o : Address} (h : m.Foreign o) : m.entry.Foreign o := by
  obtain ⟨sender, b, action⟩ := m
  cases action
  case permit p v r s => exact h.right p v r s rfl
  case rely => trivial
  case deny => trivial
  case mint => trivial
  all_goals exact h.left

-- An account loses nothing by the calls of others, not even of those who may mint, but what it has
-- let them spend.
theorem balance_add_allowances {o : Address} (h : run evm s ms = .ok s')
    (ho : ∀ m ∈ ms, m.Foreign o) (hf : ∀ p, s.allowance o p ≠ Uint.max 256) :
    (s'.balanceOf o : ℕ) + total (fun p => (s.allowance o p : ℕ)) =
    s.balanceOf o + (ms.map (·.entry.received o)).sum +
      total (fun p => (s'.allowance o p : ℕ)) := by
  have he : ∀ e ∈ ms.map Message.entry, e.Foreign o := by
    simpa using fun m hm => (ho m hm).entry
  have ht : ∀ p, s.book.allowance o p < (Uint.max 256 : Uint 256) := fun p =>
    lt_of_le_of_ne (Nat.le_pred_of_lt (s.allowance o p).isLt) fun e => hf p (Fin.ext e)
  have h := (run_path h).balance_add_allowances he ht
  rwa [List.map_map] at h

theorem balance_add_allowances_lent : ∃ s',
    run Minted.hashes Minted.lent [⟨3, Minted.genesis, .burn 2 4⟩] = .ok s' ∧
    (s'.balanceOf 2 : ℕ) + total (fun p => (Minted.lent.allowance 2 p : ℕ)) =
    10 + total (fun p => (s'.allowance 2 p : ℕ)) := by
  have h : run Minted.hashes Minted.lent [⟨3, Minted.genesis, .burn 2 4⟩] = .ok _ := rfl
  have ho : ∀ m ∈ [(⟨3, Minted.genesis, .burn 2 4⟩ : Message)], m.Foreign 2 := by
    rintro _ (_ | ⟨_, ⟨⟩⟩)
    exact ⟨by decide, fun _ _ _ _ e => nomatch e⟩
  have hb : (Minted.lent.balanceOf 2 : ℕ) +
      ([(⟨3, Minted.genesis, .burn 2 4⟩ : Message)].map (·.entry.received 2)).sum = 10 := by
    decide
  have hk := balance_add_allowances h ho Minted.lent_lt
  rw [hb] at hk
  exact ⟨_, h, hk⟩

end DaiMock
