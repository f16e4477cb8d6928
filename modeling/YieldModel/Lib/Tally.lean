import Mathlib

-- Totals of a quantity kept per key, and how they move when the quantity of one key changes.

namespace Tally

open scoped BigOperators

variable {κ : Type*} [Fintype κ] {f g : κ → ℕ}

def total (f : κ → ℕ) : ℕ :=
  ∑ k, f k

theorem le_total (f : κ → ℕ) (k : κ) : f k ≤ total f :=
  Finset.single_le_sum (fun _ _ => Nat.zero_le _) (Finset.mem_univ k)

theorem total_eq_zero (h : ∀ k, f k = 0) : total f = 0 :=
  Finset.sum_eq_zero fun k _ => h k

theorem total_congr (h : ∀ k, f k = g k) : total f = total g :=
  Finset.sum_congr rfl fun k _ => h k

variable [DecidableEq κ]

-- If two quantities agree on all keys but `k`, their totals differ by the difference at `k`.
theorem total_of_agree (k : κ) (h : ∀ j, j ≠ k → f j = g j) : total f + g k = total g + f k := by
  have hf := Finset.add_sum_erase Finset.univ f (Finset.mem_univ k)
  have hg := Finset.add_sum_erase Finset.univ g (Finset.mem_univ k)
  have he : ∑ j ∈ Finset.univ.erase k, f j = ∑ j ∈ Finset.univ.erase k, g j :=
    Finset.sum_congr rfl fun j hj => h j (Finset.ne_of_mem_erase hj)
  simp only [total]
  omega

theorem total_update (f : κ → ℕ) (k : κ) (n : ℕ) :
    total (Function.update f k n) + f k = total f + n := by
  have h := total_of_agree (f := Function.update f k n) (g := f) k fun j hj => by simp [hj]
  rwa [Function.update_self] at h

-- A list which has each key at most once, unless it is worth nothing.
theorem sum_map_eq_total {l : List κ} (h : ∀ k, f k ≠ 0 → l.count k ≤ 1) :
    (l.map f).sum = total fun k => if k ∈ l then f k else 0 := by
  rw [Finset.sum_list_map_count, total, ← Finset.sum_filter]
  have hl : l.toFinset = Finset.univ.filter (· ∈ l) := by
    ext k
    simp
  rw [hl]
  refine Finset.sum_congr rfl fun k hk => ?_
  have hk : 0 < l.count k := List.count_pos_iff.mpr (Finset.mem_filter.mp hk).right
  by_cases hf : f k = 0
  case pos => simp [hf]
  case neg =>
    have hc : l.count k = 1 := le_antisymm (h k hf) hk
    rw [hc, one_smul]

section List

variable {ι : Type*} {l : List ι} {key : ι → κ} {val : ι → ℕ}

-- What the entries of a list with one key add up to.
def tally (l : List ι) (key : ι → κ) (val : ι → ℕ) (k : κ) : ℕ :=
  (l.map fun i => if key i = k then val i else 0).sum

omit [Fintype κ] in
theorem tally_cons {i : ι} {k : κ} : tally (i :: l) key val k =
    (if key i = k then val i else 0) + tally l key val k := by
  simp [tally]

omit [Fintype κ] in
theorem tally_eq_zero {k : κ} (h : k ∉ l.map key) : tally l key val k = 0 := by
  induction l
  case nil => rfl
  case cons i l hi =>
    rw [List.map_cons, List.mem_cons, not_or] at h
    rw [tally_cons, if_neg (Ne.symm h.left), hi h.right]

omit [Fintype κ] in
theorem tally_congr {val' : ι → ℕ} {k : κ} (h : ∀ i ∈ l, val i = val' i) :
    tally l key val k = tally l key val' k := by
  refine congrArg List.sum (List.map_congr_left fun i hi => ?_)
  rw [h i hi]

omit [Fintype κ] in
theorem tally_of_nodup {i : ι} (h : (l.map key).Nodup) (hi : i ∈ l) :
    tally l key val (key i) = val i := by
  induction l
  case nil => cases hi
  case cons j l ih =>
    rw [List.map_cons, List.nodup_cons] at h
    rw [tally_cons]
    cases hi
    case head    => rw [if_pos rfl, tally_eq_zero h.left, add_zero]
    case tail hi =>
      have hn : key j ≠ key i := fun he => h.left (he ▸ List.mem_map_of_mem hi)
      rw [if_neg hn, ih h.right hi, zero_add]

end List

end Tally
