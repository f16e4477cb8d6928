import YieldModel.Lib.Reentrancy

-- Contracts which borrow, and which open a semaphore for the time of a loan, as the lender calls them
-- back. The semaphore does not tell the lender from others.

namespace Reentrancy

open Execution

variable {A ε σ ω κ ρ : Type}

-- How code deals with the semaphore, and which calls it makes. Code which borrows closes the semaphore
-- before it returns, and other code does not open it.
def Respects (isOpen : σ → Prop) (makes : κ → Prop) (c : Code σ ω κ ρ ρ) (s : σ) (w : ω) :
    (borrows : Bool) → Prop
  | true  => c.Meets (fun _ s _ _ => ¬isOpen s) (fun _ _ _ k => makes k) s s w
  | false => c.Meets (fun s₀ s _ _ => isOpen s → isOpen s₀)
             (fun s₀ s _ k => makes k ∧ (isOpen s → isOpen s₀)) s s w

-- `makes` says which calls are made by an entry, its sender, and the storage and the world in which
-- it has been entered. Callbacks make calls only if they accept these, and then the semaphore is open.
structure Loans (C : Contract A ε σ ω κ ρ) where
  isOpen   : σ → Prop
  borrows  : ε → Bool
  callback : ε → Prop
  accepts  : ε → σ × ω → Prop
  lender   : κ → Option A
  makes    : ε → A → σ × ω → κ → Prop
  body     : ∀ e a saved,
             Respects isOpen (makes e a saved) (C.body e a) saved.1 saved.2 (borrows e)
  accepted : ∀ e a saved k, callback e → makes e a saved k → accepts e saved
  open_    : ∀ e saved, callback e → accepts e saved → isOpen saved.1

namespace Loans

variable {C : Contract A ε σ ω κ ρ} {L : Loans C} {c c' : Config A ε σ ω κ ρ}

-- The call which borrows and which is in progress. Nested ones are possible.
def current (L : Loans C) (stack : List (Frame A ε σ ω κ ρ)) : Option (Pending A ε σ ω κ ρ) :=
  (pendings stack).find? (L.borrows ·.entry)

-- The account has lent the loan which is in progress.
def Lends (L : Loans C) (a : A) (stack : List (Frame A ε σ ω κ ρ)) : Prop :=
  ∃ o, L.current stack = some o ∧ L.lender o.call = some a

-- While a call which borrows is in progress, callbacks which are accepted come from its lender.
def Permits (L : Loans C) (c : Config A ε σ ω κ ρ) (m : Move A ε ω κ ρ) : Prop :=
  ∀ f rest e, c.stack = .others f :: rest → m = .enter e → L.callback e →
    L.accepts e (c.storage, c.world) →
    ∀ o, L.current c.stack = some o → L.lender o.call = some f.self

def invariant (L : Loans C) : Invariant A ε σ ω κ ρ where
  storage s ps := L.isOpen s → ∃ o ∈ ps, L.borrows o.entry
  frame o rest :=
    L.makes o.entry o.sender o.saved o.call ∧ (L.callback o.entry → L.Lends o.sender rest) ∧
    ∀ r s w, Respects L.isOpen (L.makes o.entry o.sender o.saved) (o.next r) s w
      (L.borrows o.entry)

theorem exists_current {stack : List (Frame A ε σ ω κ ρ)}
    (h : ∃ o ∈ pendings stack, L.borrows o.entry) : ∃ o, L.current stack = some o := by
  obtain ⟨o, ho, hb⟩ := h
  exact Option.isSome_iff_exists.mp (List.find?_isSome.mpr ⟨o, ho, hb⟩)

-- What holds of a segment, from what its code respects.
theorem continues {entry : ε} {sender : A} {saved : σ × ω} {rest : List (Frame A ε σ ω κ ρ)}
    {code : Code σ ω κ ρ ρ} {s : σ} {w : ω}
    (hm : Respects L.isOpen (L.makes entry sender saved) code s w (L.borrows entry))
    (hs : L.borrows entry = false → L.isOpen s → ∃ o ∈ pendings rest, L.borrows o.entry)
    (hc : ∀ k, L.makes entry sender saved k → L.callback entry → L.Lends sender rest) :
    L.invariant.Continues entry sender saved rest (code.exec s w) := by
  cases he : code.exec s w
  case reverts => trivial
  case returns s' r =>
    cases hb : L.borrows entry <;> rw [hb] at hm
    case true  => exact fun ho => absurd ho (hm.of_returns he)
    case false => exact fun ho => hs hb (hm.of_returns he ho)
  case calls s' k f =>
    cases hb : L.borrows entry <;> rw [hb] at hm
    case true =>
      have ⟨hk, hn⟩ := hm.of_calls he
      exact ⟨fun _ => ⟨_, .head _, hb⟩, hk, hc k hk, fun r s w => hb ▸ hn r s w⟩
    case false =>
      have ⟨⟨hk, hr⟩, hn⟩ := hm.of_calls he
      refine ⟨fun ho => ?_, hk, hc k hk, fun r s w => hb ▸ hn r s w⟩
      have ⟨o, hm, hb⟩ := hs hb (hr ho)
      exact ⟨o, .tail _ hm, hb⟩

theorem kept : L.invariant.Kept C L.Permits where
  enter c f rest entry h hs hp := by
    have hst := h.storage
    refine continues (L.body entry f.self (c.storage, c.world)) (fun _ ho => hst ho) fun k hk hc => ?_
    have ha := L.accepted _ _ _ _ hc hk
    have ⟨o, ho⟩ := exists_current (hst (L.open_ _ _ hc ha))
    exact ⟨o, ho, hp f rest entry hs rfl hc ha o ho⟩
  answer o rest r s w ho hs := by
    obtain ⟨_, hc, hn⟩ := ho
    refine continues (hn r s w) (fun hb h => ?_) fun _ _ => hc
    have ⟨o', ho', hb'⟩ := hs h
    cases ho'
    case head    => simp [hb] at hb'
    case tail hm => exact ⟨o', hm, hb'⟩

variable [DecidableEq A]

-- In all runs in which nobody else calls back, the calls of callbacks serve the loan in progress.
theorem served {s : σ} {w : ω} (e : Steps (C.Step L.Permits) (start s w) c) (ho : ¬L.isOpen s) :
    ∀ m ∈ c.journal, L.makes m.1.entry m.1.sender m.1.saved m.1.call ∧
      (L.callback m.1.entry → L.Lends m.1.sender m.2) := by
  have hi : L.invariant.Holds C (start s w) := ⟨fun h => absurd h ho, .nil, by simp [start]⟩
  intro m hm
  have ⟨h, hc, _⟩ := (kept.step.steps e hi).journal m hm
  exact ⟨h, hc⟩

-- A check which is enough for a move to be permitted.
def check (L : Loans C) (c : Config A ε σ ω κ ρ) : Move A ε ω κ ρ → Bool
  | .enter _ =>
    match c.stack, L.current c.stack with
    | .others f :: _, some o => L.lender o.call = some f.self
    | _, _                   => true
  | _ => true

theorem permits_of_check {m : Move A ε ω κ ρ} (h : L.check c m) : L.Permits c m := by
  intro f rest e hs hm _ _ o ho
  simpa [check, hm, hs, hs ▸ ho] using h

-- A callback which makes a call and which is not permitted does not serve the loan in progress.
theorem not_lends_of_not_permits {f : Outside A σ ω κ} {rest : List (Frame A ε σ ω κ ρ)} {e : ε}
    {s : σ} {k : κ} {g : ρ → Code σ ω κ ρ ρ} (hs : c.stack = .others f :: rest)
    (hp : ¬L.Permits c (.enter e))
    (he : (C.body e f.self).exec c.storage c.world = .calls s k g) (ht : C.target k ≠ C.this)
    (hm : C.move c (.enter e) = some c') : ∃ m ∈ c'.journal,
      L.callback m.1.entry ∧ m.1.call = k ∧ m.1.sender = f.self ∧ ¬L.Lends f.self m.2 := by
  simp only [Contract.move, hs, Contract.proceed, he, if_neg ht, Option.some.injEq] at hm
  subst hm
  refine ⟨_, .head _, ?_⟩
  simp only [Permits, not_forall] at hp
  obtain ⟨f', rest', e', hs', hm, hc, _, o, ho, hn⟩ := hp
  cases hm
  cases hs.symm.trans hs'
  refine ⟨hc, rfl, rfl, fun hl => hn ?_⟩
  obtain ⟨o', ho', hl⟩ := hl
  cases (hs ▸ ho).symm.trans ho'
  exact hl

end Loans

end Reentrancy
