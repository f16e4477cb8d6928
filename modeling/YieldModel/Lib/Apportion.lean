import Mathlib

-- A whole which is apportioned in proportion to weights, where every part is rounded down.

namespace Apportion

section Weights

variable {ι α : Type} [AddCommMonoid α] [LinearOrder α] {weight : ι → α} {l : List ι}

-- Those without weight do not count.
theorem sum_filter_pos (h : ∀ i ∈ l, 0 ≤ weight i) :
    ((l.filter (0 < weight ·)).map weight).sum = (l.map weight).sum := by
  induction l
  case nil => rfl
  case cons i l hi =>
    have ⟨h₁, h₂⟩ := List.forall_mem_cons.mp h
    by_cases hw : 0 < weight i
    case pos => simp [hw, hi h₂]
    case neg => simp [hi h₂, le_antisymm (not_lt.mp hw) h₁]

theorem sum_pos_of_mem [IsOrderedCancelAddMonoid α] (h : ∀ i ∈ l, 0 ≤ weight i) {i : ι}
    (hi : i ∈ l) (hw : 0 < weight i) : 0 < (l.map weight).sum :=
  hw.trans_le <| List.single_le_sum (by simpa using h) _ (List.mem_map_of_mem hi)

end Weights

variable {α : Type} [Field α] [LinearOrder α] [FloorRing α]

-- What is due to a weight, if all the weights add up to `total`.
def share (whole total w : α) : α :=
  whole * w / total

def part (whole total w : α) : ℤ :=
  ⌊share whole total w⌋

theorem sum_share (whole total : α) (ws : List α) :
    (ws.map (share whole total)).sum = share whole total ws.sum := by
  induction ws
  case nil => simp [share]
  case cons w ws hi =>
    rw [List.map_cons, List.sum_cons, List.sum_cons, hi]
    simp only [share]
    ring

omit [LinearOrder α] [FloorRing α] in
theorem share_total {total : α} (h : total ≠ 0) (whole : α) : share whole total total = whole :=
  mul_div_cancel_right₀ whole h

variable [IsStrictOrderedRing α]

theorem sum_floor_le (xs : List α) : ((xs.map Int.floor).sum : α) ≤ xs.sum := by
  induction xs
  case nil => simp
  case cons x xs hi =>
    rw [List.map_cons, List.sum_cons, List.sum_cons, Int.cast_add]
    exact add_le_add (Int.floor_le x) hi

theorem sum_le_sum_floor_add_length (xs : List α) :
    xs.sum ≤ ((xs.map Int.floor).sum : α) + xs.length := by
  induction xs
  case nil => simp
  case cons x xs hi =>
    have hx := (Int.lt_floor_add_one x).le
    simp only [List.map_cons, List.sum_cons, Int.cast_add, List.length_cons, Nat.cast_succ]
    linarith

theorem sum_lt_sum_floor_add_length {xs : List α} (h : xs ≠ []) :
    xs.sum < ((xs.map Int.floor).sum : α) + xs.length := by
  obtain ⟨x, xs, rfl⟩ := List.exists_cons_of_ne_nil h
  have hx := Int.lt_floor_add_one x
  have hs := sum_le_sum_floor_add_length xs
  simp only [List.map_cons, List.sum_cons, Int.cast_add, List.length_cons, Nat.cast_succ]
  linarith

-- Whoever holds some of the weights gets at most what is due to them together, and loses less than
-- one unit for each.
theorem sum_part_le (whole total : α) (ws : List α) :
    ((ws.map (part whole total)).sum : α) ≤ share whole total ws.sum := by
  have h := sum_floor_le (ws.map (share whole total))
  rwa [sum_share, List.map_map] at h

theorem share_lt_sum_part_add_length (whole total : α) {ws : List α} (h : ws ≠ []) :
    share whole total ws.sum < ((ws.map (part whole total)).sum : α) + ws.length := by
  have hm : ws.map (share whole total) ≠ [] := by simpa using h
  have hs := sum_lt_sum_floor_add_length hm
  rwa [sum_share, List.map_map, List.length_map] at hs

end Apportion
