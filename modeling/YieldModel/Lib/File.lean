import Mathlib

-- Files which are written from their beginning without being truncated.

namespace File

variable {α : Type} {p : α → Prop} {old new : List α} {news : List (List α)} {n : ℕ}

def write (old new : List α) : List α :=
  new ++ old.drop new.length

def writes (old : List α) (news : List (List α)) : List α :=
  news.foldl write old

@[simp]
theorem writes_nil : writes old [] = old :=
  rfl

theorem writes_concat : writes old (news ++ [new]) = write (writes old news) new := by
  simp [writes]

theorem drop_write_of_le (h : new.length ≤ n) : (write old new).drop n = old.drop n := by
  rw [write, List.drop_append, List.drop_eq_nil_of_le h, List.nil_append, List.drop_drop,
    Nat.add_sub_cancel' h]

-- What lies beyond a position has been left by the longest of the contents.
theorem forall_drop_writes (h : ∀ new ∈ news, ∃ a, new.getLast? = some a ∧ ¬p a) :
    (∀ a ∈ (writes old news).drop n, p a) ↔
    (∀ new ∈ news, new.length ≤ n) ∧ ∀ a ∈ old.drop n, p a := by
  induction news using List.reverseRecOn
  case nil => simp
  case append_singleton news new ih =>
    have ih := ih fun new hn => h new (List.mem_append_left _ hn)
    rw [writes_concat]
    by_cases hl : new.length ≤ n
    case pos =>
      rw [drop_write_of_le hl, ih, List.forall_mem_append, List.forall_mem_singleton]
      exact and_congr_left fun _ => (and_iff_left hl).symm
    case neg =>
      have ⟨a, ha, hp⟩ := h new (by simp)
      have hm : a ∈ new.drop n := List.mem_of_getLast? (by rw [List.getLast?_drop, if_neg hl, ha])
      rw [write, List.drop_append_of_le_length (Nat.le_of_not_le hl)]
      constructor
      case mp  => exact fun h => absurd (h a (List.mem_append_left _ hm)) hp
      case mpr => exact fun h => absurd (h.1 new (by simp)) hl

end File
