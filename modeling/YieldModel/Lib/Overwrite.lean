import Mathlib

-- Sequences of writes to a table. Of all writes to one key, only the last one counts.

namespace Overwrite

variable {κ ν : Type*} [DecidableEq κ] {f : κ → ν} {k : κ} {v : ν} {ks : List κ}
  {l l₁ l₂ : List (κ × ν)}

def apply (f : κ → ν) (l : List (κ × ν)) : κ → ν :=
  l.foldl (fun f w => Function.update f w.1 w.2) f

@[simp]
theorem apply_nil : apply f [] = f :=
  rfl

@[simp]
theorem apply_cons {w : κ × ν} : apply f (w :: l) = apply (Function.update f w.1 w.2) l :=
  rfl

theorem apply_append : apply f (l₁ ++ l₂) = apply (apply f l₁) l₂ :=
  List.foldl_append

theorem apply_of_notMem (h : ∀ w ∈ l, w.1 ≠ k) : apply f l k = f k := by
  induction l generalizing f
  case nil => rfl
  case cons w l hi =>
    have ⟨hw, hl⟩ := List.forall_mem_cons.mp h
    rw [apply_cons, hi hl, Function.update_of_ne hw.symm]

-- Only the old value of a key matters for its new one.
theorem apply_congr {g : κ → ν} (h : f k = g k) : apply f l k = apply g l k := by
  induction l generalizing f g
  case nil => exact h
  case cons w l hi =>
    refine hi ?_
    simp only [Function.update_apply, h]

theorem apply_of_last (h : ∀ w ∈ l₂, w.1 ≠ k) : apply f (l₁ ++ (k, v) :: l₂) k = v := by
  rw [apply_append, apply_cons, apply_of_notMem h, Function.update_self]

theorem apply_mem (h : ∃ w ∈ l, w.1 = k) : (k, apply f l k) ∈ l := by
  induction l generalizing f
  case nil => obtain ⟨_, h, -⟩ := h; cases h
  case cons w l hi =>
    by_cases hl : ∃ w ∈ l, w.1 = k
    case pos => exact .tail _ <| hi hl
    case neg =>
      obtain ⟨w', hw, rfl⟩ := h
      cases (List.mem_cons.mp hw).resolve_right fun h => hl ⟨w', h, rfl⟩
      rw [apply_cons, apply_of_notMem fun w h e => hl ⟨w, h, e⟩, Function.update_self]
      exact .head _

-- A value which is not written can only be an old one.
theorem apply_eq_iff_of_notMem {u : ν} (h : (k, u) ∉ l) :
    apply f l k = u ↔ f k = u ∧ ∀ w ∈ l, w.1 ≠ k := by
  by_cases hl : ∃ w ∈ l, w.1 = k
  case pos =>
    refine ⟨fun e => absurd (e ▸ apply_mem hl) h, fun ⟨_, hn⟩ => ?_⟩
    obtain ⟨w, hw, e⟩ := hl
    exact absurd e (hn w hw)
  case neg =>
    have hl : ∀ w ∈ l, w.1 ≠ k := fun w hw e => hl ⟨w, hw, e⟩
    rw [apply_of_notMem hl]
    exact (and_iff_left hl).symm

theorem apply_filter {q : κ × ν → Bool} (h : ∀ w ∈ l, w.1 = k → q w) :
    apply f (l.filter q) k = apply f l k := by
  induction l generalizing f
  case nil => rfl
  case cons w l hi =>
    obtain ⟨hw, hl⟩ := List.forall_mem_cons.mp h
    by_cases hq : q w
    case pos => rw [List.filter_cons_of_pos hq, apply_cons, apply_cons, hi hl]
    case neg =>
      rw [List.filter_cons_of_neg hq, apply_cons, hi hl]
      exact apply_congr <| (Function.update_of_ne (fun e => hq (hw e.symm)) _ _).symm

-- Writes of one value to several keys.
theorem apply_map_of_mem (h : k ∈ ks) : apply f (ks.map (·, v)) k = v := by
  induction ks generalizing f
  case nil => cases h
  case cons a ks hi =>
    by_cases hk : k ∈ ks
    case pos => exact hi hk
    case neg =>
      cases (List.mem_cons.mp h).resolve_right hk
      rw [List.map_cons, apply_cons, apply_of_notMem, Function.update_self]
      rintro _ hw rfl
      obtain ⟨_, ha, rfl⟩ := List.mem_map.mp hw
      exact hk ha

theorem apply_map_of_notMem (h : k ∉ ks) : apply f (ks.map (·, v)) k = f k := by
  refine apply_of_notMem ?_
  rintro _ hw rfl
  obtain ⟨_, ha, rfl⟩ := List.mem_map.mp hw
  exact h ha

-- What is set and then reset is as before if it was not set before, and all that is set is reset.
theorem apply_set_reset_iff {f : κ → Bool} {ks rs : List κ} :
    apply f (ks.map (·, true) ++ rs.map (·, false)) = f ↔
    (∀ k ∈ rs, f k = false) ∧ ∀ k ∈ ks, k ∈ rs ∨ f k = true := by
  constructor
  case mp =>
    intro h
    refine ⟨fun k hk => ?_, fun k hk => or_iff_not_imp_left.mpr fun hr => ?_⟩
    · rw [← h, apply_append, apply_map_of_mem hk]
    · rw [← h, apply_append, apply_map_of_notMem hr, apply_map_of_mem hk]
  case mpr =>
    intro ⟨hr, hk⟩
    funext k
    rw [apply_append]
    by_cases hkr : k ∈ rs
    case pos => rw [apply_map_of_mem hkr, hr k hkr]
    case neg =>
      rw [apply_map_of_notMem hkr]
      by_cases hkk : k ∈ ks
      case pos => rw [apply_map_of_mem hkk, (hk k hkk).resolve_left hkr]
      case neg => exact apply_map_of_notMem hkk

end Overwrite
