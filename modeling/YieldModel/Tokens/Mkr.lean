import YieldModel.Lib.Allowance
import YieldModel.Tokens.Basic

open Allowance Tally

namespace MKRMock

variable {s s' : MKRMock} {m : Message} {ms : List Message} {sender src dst : Address}
  {wad : Uint 256}

def book (s : MKRMock) : Book Address where
  balance a     := s._balanceOf a
  allowance o p := s._allowance o p

def Message.entry (m : Message) : Entry Address :=
  match m.action with
  | .mint dst amount          => .credit dst amount
  | .approve spender wad      => .allow m.sender spender wad
  | .transfer dst wad         => .spend m.sender m.sender (some dst) wad
  | .transferFrom src dst wad => .spend m.sender src (some dst) wad

abbrev Executes (s : MKRMock) (e : Entry Address) (s' : MKRMock) : Prop :=
  Allowance.Executes (Uint.max 256 : Uint 256) s.book s._totalSupply e s'.book s'._totalSupply

theorem book_setAllowance : (s._setAllowance src dst wad).book =
    { s.book with allowance := allowed s.book.allowance src dst wad } := by
  refine congrArg (Book.mk _) (funext fun o => funext fun p => ?_)
  simp only [_setAllowance, allowed, book, Function.update_apply]
  split
  case isTrue  => simp only [Function.update_apply, apply_ite Fin.val]
  case isFalse => rfl

-- The unchecked subtractions never wrap around.
theorem sub_val {x y : Uint 256} (h : y ≤ x) : ((x - y : Uint 256) : ℕ) = x - y :=
  Fin.sub_val_of_le h

theorem decreaseAllowance_eq_ok (h : s._decreaseAllowance sender src wad = .ok s') :
    s'._balanceOf = s._balanceOf ∧ s'._totalSupply = s._totalSupply ∧
    Uses (Uint.max 256 : Uint 256) s.book.allowance sender src wad s'.book.allowance := by
  simp only [_decreaseAllowance] at h
  split at h
  case isTrue =>
    simp only [Call.bind_eq_ok, Call.require_eq_ok, Call.pure_eq_ok] at h
    obtain ⟨_, hle, rfl⟩ := h
    rw [book_setAllowance, sub_val hle]
    exact ⟨rfl, rfl, .used hle⟩
  case isFalse hn =>
    cases h
    rw [not_and_or, not_not, not_not] at hn
    exact ⟨rfl, rfl, .free (hn.imp Eq.symm (congrArg Fin.val))⟩

theorem transfer_eq_ok (h : s._transfer src dst wad = .ok s') :
    wad ≤ s._balanceOf src ∧ s'._allowance = s._allowance ∧ s'._totalSupply = s._totalSupply ∧
    s'.book.balance = paid s.book.balance src (some dst) wad := by
  simp only [_transfer, Call.bind_eq_ok, Call.require_eq_ok, Uint.add_eq_ok, Call.pure_eq_ok] at h
  obtain ⟨_, hle, x, hx, rfl⟩ := h
  refine ⟨hle, rfl, rfl, funext fun a => ?_⟩
  simp only [book, paid, Function.update_apply, apply_ite Fin.val, hx, sub_val hle]

theorem exec_eq_ok (h : exec s m = .ok s') : s.Executes m.entry s' := by
  obtain ⟨sender, action⟩ := m
  cases action
  case mint dst amount =>
    simp only [exec, mint, _mint, Call.bind_eq_ok, Uint.add_eq_ok, Call.pure_eq_ok] at h
    obtain ⟨x, hx, y, hy, rfl⟩ := h
    have hb : (fun a => ((Function.update s._balanceOf dst x a : Uint 256) : ℕ)) =
        Function.update s.book.balance dst (s.book.balance dst + amount) := by
      funext a
      simp only [book, Function.update_apply, apply_ite Fin.val, hx]
    refine ⟨?_, by simpa [Entry.destroyed, Entry.created, Message.entry] using hy⟩
    simp only [book, hb]
    exact .credit
  case approve =>
    cases h
    refine ⟨?_, rfl⟩
    rw [approve, book_setAllowance]
    exact .allow
  case transfer =>
    obtain ⟨hc, ha, ht, hb⟩ := transfer_eq_ok h
    refine ⟨does_spend hc ?_ hb, by simp [ht, Message.entry, Entry.destroyed, Entry.created]⟩
    simp only [book, ha]
    exact .free (.inl rfl)
  case transferFrom =>
    simp only [exec, transferFrom, Call.bind_eq_ok] at h
    obtain ⟨s₁, hd, h⟩ := h
    obtain ⟨hb₁, ht₁, hu⟩ := decreaseAllowance_eq_ok hd
    obtain ⟨hc, ha, ht, hb⟩ := transfer_eq_ok h
    have he : s₁.book.balance = s.book.balance := by simp only [book, hb₁]
    have hu' : s'.book.allowance = s₁.book.allowance := by simp only [book, ha]
    rw [hb₁] at hc
    refine ⟨does_spend hc (hu' ▸ hu) (he ▸ hb), ?_⟩
    simp [ht, ht₁, Message.entry, Entry.destroyed, Entry.created]

-- Balances are what accounts received less what was taken from them, without a limit on the
-- numbers, and the supply is all of them.
theorem accounts_exact (h : run init ms = .ok s') :
    (s'._totalSupply : ℕ) = total (fun a => (s'._balanceOf a : ℕ)) ∧
    ∀ a, (s'._balanceOf a : ℕ) + (ms.map (·.entry.spent a)).sum =
      (ms.map (·.entry.received a)).sum := by
  have hp := run_path exec book (fun s => s._totalSupply) (fun _ _ _ => exec_eq_ok) h
  have h₀ : total init.book.balance = 0 := total_eq_zero fun _ => rfl
  have hs := run_supply_eq_total exec book (fun s => s._totalSupply) (fun _ _ _ => exec_eq_ok) h
    (Eq.trans rfl h₀.symm)
  refine ⟨hs, fun a => ?_⟩
  have hb := hp.balance (o := a)
  simpa only [List.map_map, Function.comp_def, book, init, Fin.val_zero, zero_add] using hb

namespace Minted

-- Account 1 mints for account 2, which lets account 3 spend some of it.
def messages : List Message :=
  [⟨1, .mint 2 10⟩, ⟨2, .approve 3 4⟩, ⟨3, .transferFrom 2 4 3⟩]

end Minted

theorem accounts_exact_minted : ∃ s', run init Minted.messages = .ok s' ∧
    (s'._balanceOf 2 : ℕ) + 3 = 10 := by
  have h : run init Minted.messages = .ok _ := rfl
  exact ⟨_, h, (accounts_exact h).right 2⟩

end MKRMock
