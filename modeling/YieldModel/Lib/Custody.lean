import Mathlib
import YieldModel.Lib.Execution

-- Things which are either held, or withheld by one of several custodians. What is seized has to be
-- held before, so nothing can be withheld twice, and releasing things cannot create any.

structure Custody (ρ κ : Type*) where
  held     : Set ρ
  withheld : κ → Set ρ

namespace Custody

open Execution

variable {ρ κ : Type*} {discards : Prop} {c c' : Custody ρ κ}

-- Whether things may be discarded is a parameter of the steps.
inductive Step (discards : Prop) (c c' : Custody ρ κ) : Prop
  | idle : c'.held = c.held → c'.withheld = c.withheld → Step discards c c'
  | seize (k : κ) : c'.withheld k ⊆ c.held → c.withheld k = ∅ →
    c'.held = c.held \ c'.withheld k → (∀ j ≠ k, c'.withheld j = c.withheld j) →
    Step discards c c'
  | release (k : κ) : c'.withheld k = ∅ → c'.held = c.held ∪ c.withheld k →
    (∀ j ≠ k, c'.withheld j = c.withheld j) → Step discards c c'
  | discard (k : κ) : discards → c'.withheld k = ∅ → c'.held = c.held →
    (∀ j ≠ k, c'.withheld j = c.withheld j) → Step discards c c'

theorem Step.imp {discards' : Prop} (hd : discards → discards') (h : Step discards c c') :
    Step discards' c c' := by
  cases h
  case idle hh hw             => exact .idle hh hw
  case seize k hs he hh ho    => exact .seize k hs he hh ho
  case release k he hh ho     => exact .release k he hh ho
  case discard k hd' he hh ho => exact .discard k (hd hd') he hh ho

def all (c : Custody ρ κ) : Set ρ :=
  c.held ∪ ⋃ k, c.withheld k

structure Apart (c : Custody ρ κ) : Prop where
  held     : ∀ k, Disjoint c.held (c.withheld k)
  withheld : ∀ j k, j ≠ k → Disjoint (c.withheld j) (c.withheld k)

theorem mem_all {r : ρ} : r ∈ c.all ↔ r ∈ c.held ∨ ∃ k, r ∈ c.withheld k := by
  simp [all]

-- If only the things of one custodian change, those of the others are still apart.
theorem Apart.of_agree {k : κ} (h : c.Apart) (ho : ∀ j ≠ k, c'.withheld j = c.withheld j)
    (hh : ∀ j, Disjoint c'.held (c'.withheld j))
    (hk : ∀ j ≠ k, Disjoint (c.withheld j) (c'.withheld k)) : c'.Apart where
  held := hh
  withheld i j hij := by
    by_cases hi : i = k
    case pos =>
      subst hi
      rw [ho j hij.symm]
      exact (hk j hij.symm).symm
    case neg =>
      rw [ho i hi]
      by_cases hj : j = k
      case pos => exact hj ▸ hk i hi
      case neg => exact ho j hj ▸ h.withheld i j hij

theorem Step.apart (h : Step discards c c') (ha : c.Apart) : c'.Apart := by
  cases h
  case idle hh hw => exact ⟨fun k => hh ▸ hw ▸ ha.held k, fun j k => hw ▸ ha.withheld j k⟩
  case seize k hs he hh ho =>
    refine ha.of_agree ho (fun j => ?_) fun j _ => ?_
    · by_cases hj : j = k
      case pos => exact hj ▸ hh ▸ Set.disjoint_sdiff_left
      case neg => exact hh ▸ ho j hj ▸ (ha.held j).mono_left Set.sdiff_subset
    · exact (ha.held j).symm.mono_right hs
  case release k he hh ho =>
    refine ha.of_agree ho (fun j => ?_) fun j _ => he ▸ Set.disjoint_empty _
    by_cases hj : j = k
    case pos => exact hj ▸ he ▸ Set.disjoint_empty _
    case neg =>
      rw [hh, ho j hj]
      exact Set.disjoint_union_left.mpr ⟨ha.held j, ha.withheld k j (Ne.symm hj)⟩
  case discard k _ he hh ho =>
    refine ha.of_agree ho (fun j => ?_) fun j _ => he ▸ Set.disjoint_empty _
    by_cases hj : j = k
    case pos => exact hj ▸ he ▸ Set.disjoint_empty _
    case neg => exact hh ▸ ho j hj ▸ ha.held j

-- What `j` withholds, either `k` withholds or nothing has changed.
theorem mem_of_agree {r : ρ} {j k : κ} (ho : ∀ j ≠ k, c'.withheld j = c.withheld j)
    (hr : r ∈ c'.withheld j) : r ∈ c'.withheld k ∨ r ∈ c.withheld j := by
  by_cases hj : j = k
  case pos => exact .inl (hj ▸ hr)
  case neg => exact .inr (ho j hj ▸ hr)

theorem Step.all_subset (h : Step discards c c') : c'.all ⊆ c.all := by
  intro r hr
  rw [mem_all] at *
  cases h
  case idle hh hw => exact hh ▸ hw ▸ hr
  case seize k hs _ hh ho =>
    cases hr
    case inl hr => exact .inl (hh ▸ hr).left
    case inr hr =>
      have ⟨j, hr⟩ := hr
      exact (mem_of_agree ho hr).imp (hs ·) (⟨j, ·⟩)
  case release k he hh ho =>
    cases hr
    case inl hr => exact (hh ▸ hr : r ∈ c.held ∪ c.withheld k).imp_right (⟨k, ·⟩)
    case inr hr =>
      have ⟨j, hr⟩ := hr
      exact (mem_of_agree ho hr).imp (fun hr => absurd (he ▸ hr) (Set.notMem_empty r)) (⟨j, ·⟩)
  case discard k _ he hh ho =>
    cases hr
    case inl hr => exact .inl (hh ▸ hr)
    case inr hr =>
      have ⟨j, hr⟩ := hr
      exact (mem_of_agree ho hr).imp (fun hr => absurd (he ▸ hr) (Set.notMem_empty r)) (⟨j, ·⟩)

-- Nothing gets lost unless it is discarded.
theorem Step.subset_all (h : Step discards c c') (hd : ¬discards) : c.all ⊆ c'.all := by
  intro r hr
  rw [mem_all] at *
  cases h
  case idle hh hw             => exact hh ▸ hw ▸ hr
  case discard k hd' he hh ho => exact absurd hd' hd
  case seize k _ he hh ho =>
    by_cases hk : r ∈ c'.withheld k
    case pos => exact .inr ⟨k, hk⟩
    case neg =>
      cases hr
      case inl hr => exact .inl (hh ▸ ⟨hr, hk⟩)
      case inr hr =>
        have ⟨j, hr⟩ := hr
        cases mem_of_agree (fun j hj => (ho j hj).symm) hr
        case inl hr => exact absurd (he ▸ hr) (Set.notMem_empty r)
        case inr hr => exact .inr ⟨j, hr⟩
  case release k _ hh ho =>
    cases hr
    case inl hr => exact .inl (hh ▸ .inl hr)
    case inr hr =>
      have ⟨j, hr⟩ := hr
      exact (mem_of_agree (fun j hj => (ho j hj).symm) hr).imp (fun hr => hh ▸ .inr hr) (⟨j, ·⟩)

theorem steps_apart (e : Steps (Step discards) c c') (ha : c.Apart) : c'.Apart :=
  Preserves.steps (fun _ _ stp h => stp.apart h) e ha

theorem steps_all_subset (e : Steps (Step discards) c c') : c'.all ⊆ c.all := by
  induction e
  case refl          => exact subset_rfl
  case tail _ stp hi => exact stp.all_subset.trans hi

theorem steps_all_eq (e : Steps (Step discards) c c') (hd : ¬discards) : c'.all = c.all := by
  induction e
  case refl          => rfl
  case tail _ stp hi => exact (stp.all_subset.antisymm (stp.subset_all hd)).trans hi

end Custody
