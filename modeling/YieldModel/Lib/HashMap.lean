import Mathlib

-- Finite maps. Two maps are equal if they map the same keys to the same values, and `iter` lists
-- their entries in one fixed order.

abbrev HashMap (κ α : Type) := Finmap fun _ : κ => α

namespace HashMap

variable {κ α : Type} [LinearOrder κ] {m : HashMap κ α} {k : κ} {a : α}

def keysList (m : HashMap κ α) : List κ :=
  Quot.liftOn m.keys.val (List.insertionSort (· ≤ ·)) fun l₁ l₂ h => by
    have h₁ := List.perm_insertionSort (· ≤ ·) l₁
    have h₂ := List.perm_insertionSort (· ≤ ·) l₂
    exact (h₁.trans (h.trans h₂.symm)).eq_of_pairwise (fun _ _ _ _ => le_antisymm)
      (List.pairwise_insertionSort (· ≤ ·) l₁) (List.pairwise_insertionSort (· ≤ ·) l₂)

def iter (m : HashMap κ α) : List (κ × α) :=
  m.keysList.filterMap fun k => (m.lookup k).map (k, ·)

-- Inserts an entry unless the key has one.
def orInsert (m : HashMap κ α) (k : κ) (a : α) : HashMap κ α :=
  if k ∈ m then m else m.insert k a

@[simp]
theorem mem_keysList : k ∈ m.keysList ↔ k ∈ m := by
  rw [← Finmap.mem_keys, ← Finset.mem_val]
  unfold keysList
  induction m.keys.val using Quot.ind
  case mk l => simp [Quot.liftOn, List.mem_insertionSort]

@[simp]
theorem mem_iter : (k, a) ∈ m.iter ↔ m.lookup k = some a := by
  simp only [iter, List.mem_filterMap, mem_keysList, Option.map_eq_some_iff, Prod.mk.injEq]
  constructor
  case mp =>
    intro ⟨_, _, _, h, hk, ha⟩
    exact hk ▸ ha ▸ h
  case mpr =>
    intro h
    exact ⟨k, Finmap.mem_of_lookup_eq_some h, a, h, rfl, rfl⟩

@[simp]
theorem mem_orInsert {k' : κ} : k' ∈ m.orInsert k a ↔ k' = k ∨ k' ∈ m := by
  unfold orInsert
  split
  case isTrue h  => exact ⟨.inr, fun h' => h'.elim (· ▸ h) id⟩
  case isFalse h => exact Finmap.mem_insert

end HashMap
