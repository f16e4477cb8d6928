import Mathlib
import YieldModel.Lib.Checked

-- Loops which add up what each element of a list is worth. An element may fail to have a worth, and
-- the sum may leave the range of its type.

namespace Accumulation

variable {α : Type} {w : ℕ} {f : α → Call (Uint w)} {l l' : List α} {s n : Uint w}

def accumulateFrom (f : α → Call (Uint w)) (s : Uint w) : List α → Call (Uint w)
  | []     => return s
  | a :: l => do
    let n ← f a
    let s ← Uint.add s n
    accumulateFrom f s l

def worth (f : α → Call (Uint w)) (a : α) : ℕ :=
  match f a with
  | .ok n    => n
  | .error _ => 0

theorem worth_of_ok {a : α} (h : f a = .ok n) : worth f a = n := by
  simp [worth, h]

-- The partial sums are in range if the last one is, because they only grow.
theorem accumulateFrom_eq_ok : accumulateFrom f s l = .ok n ↔
    (∀ a ∈ l, ∃ m, f a = .ok m) ∧ (n : ℕ) = s + (l.map (worth f)).sum := by
  induction l generalizing s
  case nil => simp [accumulateFrom, Call.pure_eq_ok, Fin.ext_iff, @eq_comm _ (n : ℕ)]
  case cons a l hi =>
    simp only [accumulateFrom, Call.bind_eq_ok, Uint.add_eq_ok, hi, List.forall_mem_cons,
      List.map_cons, List.sum_cons]
    constructor
    case mp =>
      rintro ⟨m, hm, t, ht, hl, hn⟩
      exact ⟨⟨⟨m, hm⟩, hl⟩, by rw [worth_of_ok hm]; omega⟩
    case mpr =>
      rintro ⟨⟨⟨m, hm⟩, hl⟩, hn⟩
      rw [worth_of_ok hm] at hn
      have := n.isLt
      exact ⟨m, hm, ⟨s + m, by omega⟩, rfl, hl, by dsimp only; omega⟩

section

variable [NeZero (2 ^ w)]

def accumulate (f : α → Call (Uint w)) (l : List α) : Call (Uint w) :=
  accumulateFrom f 0 l

theorem accumulate_eq_ok : accumulate f l = .ok n ↔
    (∀ a ∈ l, ∃ m, f a = .ok m) ∧ (n : ℕ) = (l.map (worth f)).sum := by
  simp [accumulate, accumulateFrom_eq_ok]

theorem accumulate_singleton {a : α} : accumulate f [a] = .ok n ↔ f a = .ok n := by
  simp only [accumulate_eq_ok, List.forall_mem_singleton, List.map_singleton, List.sum_singleton]
  constructor
  case mp =>
    rintro ⟨⟨m, hm⟩, hn⟩
    rw [hm, Except.ok.injEq, Fin.ext_iff, hn, worth_of_ok hm]
  case mpr => exact fun h => ⟨⟨n, h⟩, (worth_of_ok h).symm⟩

theorem isOk_accumulate_singleton {a : α} : (accumulate f [a]).isOk = (f a).isOk := by
  rw [Bool.eq_iff_iff, Call.isOk_iff, Call.isOk_iff]
  simp only [accumulate_singleton]

-- What is left out because it has no worth is not missed by the sum.
theorem accumulate_filter :
    accumulate f (l.filter fun a => (f a).isOk) = .ok n ↔ (n : ℕ) = (l.map (worth f)).sum := by
  have hs : ((l.filter fun a => (f a).isOk).map (worth f)).sum = (l.map (worth f)).sum := by
    induction l
    case nil => rfl
    case cons a l hi =>
      rw [List.filter_cons, List.map_cons, List.sum_cons, ← hi]
      cases ha : f a
      case ok m    => rfl
      case error e => simp [Except.isOk, Except.toBool, worth, ha]
  simp only [accumulate_eq_ok, hs, and_iff_right_iff_imp, List.mem_filter, Call.isOk_iff]
  exact fun _ _ h => h.right

theorem accumulate_append : accumulate f (l ++ l') = .ok n ↔
    ∃ a b, accumulate f l = .ok a ∧ accumulate f l' = .ok b ∧ (n : ℕ) = a + b := by
  simp only [accumulate_eq_ok, List.forall_mem_append, List.map_append, List.sum_append]
  constructor
  case mp =>
    rintro ⟨⟨hl, hl'⟩, hn⟩
    have := n.isLt
    exact ⟨⟨(l.map (worth f)).sum, by omega⟩, ⟨(l'.map (worth f)).sum, by omega⟩, ⟨hl, rfl⟩,
      ⟨hl', rfl⟩, hn⟩
  case mpr =>
    rintro ⟨a, b, ⟨hl, ha⟩, ⟨hl', hb⟩, hn⟩
    exact ⟨⟨hl, hl'⟩, by omega⟩

theorem accumulate_perm (h : l.Perm l') : accumulate f l = .ok n ↔ accumulate f l' = .ok n := by
  simp only [accumulate_eq_ok, h.mem_iff, (h.map (worth f)).sum_eq]

end

end Accumulation
