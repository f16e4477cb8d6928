import YieldModel.Lib.Signed
import YieldModel.Objects.AccessControl
import YieldModel.Objects.Cauldron
import YieldModel.Objects.Math

open Math (WAD)

-- The Cauldron as the Shifter knows it: what can be looked up in a state, and the two functions which
-- change it.
structure ICauldron (σ : Type) where
  vaults   : σ → Bytes12 → DataTypes.Vault
  balances : σ → Bytes12 → DataTypes.Balances
  series   : σ → Bytes6 → DataTypes.Series
  ilks     : σ → Bytes6 → Bytes6 → Bool
  debtSum  : σ → (baseId ilkId : Bytes6) → Uint 128
  accrual  : σ → Bytes6 → ℕ
  pour     : σ → Bytes12 → (ink art : Sint 128) → Call σ
  tweak    : σ → Bytes12 → (seriesId ilkId : Bytes6) → Call σ

namespace ICauldron

variable {σ : Type}

def baseId (C : ICauldron σ) (c : σ) (seriesId : Bytes6) : Bytes6 :=
  (C.series c seriesId).baseId

-- What no call for a vault changes: the other vaults, and the series.
structure Frame (C : ICauldron σ) (c : σ) (v : Bytes12) (c' : σ) : Prop where
  vaults   : ∀ u ≠ v, C.vaults c' u = C.vaults c u
  balances : ∀ u ≠ v, C.balances c' u = C.balances c u
  series   : C.series c' = C.series c
  accrual  : C.accrual c' = C.accrual c

-- The amounts are added to the vault, and to the debt of its base and ilk.
structure Pours (C : ICauldron σ) (c : σ) (v : Bytes12) (x y : ℤ) (c' : σ) : Prop
    extends C.Frame c v c' where
  vault : C.vaults c' v = C.vaults c v
  ink   : ((C.balances c' v).ink : ℤ) = (C.balances c v).ink + x
  art   : ((C.balances c' v).art : ℤ) = (C.balances c v).art + y
  sum   : ∀ b i, (C.debtSum c' b i : ℤ) = C.debtSum c b i +
          if b = C.baseId c (C.vaults c v).seriesId ∧ i = (C.vaults c v).ilkId then y else 0

-- A vault without debt is moved to a series for which the ilk is approved.
structure Tweaks (C : ICauldron σ) (c : σ) (v : Bytes12) (seriesId ilkId : Bytes6) (c' : σ) : Prop
    extends C.Frame c v c' where
  vault    : C.vaults c' v = { C.vaults c v with seriesId, ilkId }
  balance  : C.balances c' v = C.balances c v
  sum      : C.debtSum c' = C.debtSum c
  art      : (C.balances c v).art = 0
  approved : C.ilks c seriesId ilkId = true

structure Documented (C : ICauldron σ) : Prop where
  pours  : ∀ c v ink art c', C.pour c v ink art = .ok c' → C.Pours c v ink.val art.val c'
  tweaks : ∀ c v s i c', C.tweak c v s i = .ok c' → C.Tweaks c v s i c'

-- The debt in terms of the base. Interest accrues from maturity on.
def debtToBase (C : ICauldron σ) (c : σ) (block : Block) (seriesId : Bytes6) (art : ℕ) : ℕ :=
  if ((C.series c seriesId).maturity : ℕ) ≤ block.timestamp then art * C.accrual c seriesId / WAD
  else art

end ICauldron

namespace Shifter

namespace selector

def shift : Bytes4 := 0x0c9695ce

end selector

variable {σ : Type}

def i128 (x : Uint 128) : Call (Sint 128) :=
  Sint.ofUint 128 x

-- Shift a vault from one series to another
def shift (C : ICauldron σ) (roles : AccessControl) (sender : Address) (c : σ) (vaultId : Bytes12)
    (seriesId : Bytes6) : Call σ := do
  roles.auth selector.shift sender
  let vault := C.vaults c vaultId
  let balances := C.balances c vaultId
  let art ← i128 balances.art
  let repaid ← Sint.neg art
  let c ← C.pour c vaultId (.zero 128) repaid
  let c ← C.tweak c vaultId seriesId vault.ilkId
  let art ← i128 balances.art
  C.pour c vaultId (.zero 128) art

-- What all shifts do. The debt moves to the base of the new series, in units of the old one.
structure Shifts (C : ICauldron σ) (c : σ) (v : Bytes12) (seriesId : Bytes6) (c' : σ) : Prop
    extends C.Frame c v c' where
  vault   : C.vaults c' v = { C.vaults c v with seriesId }
  balance : C.balances c' v = C.balances c v
  sum     : ∀ b, (C.debtSum c' b (C.vaults c v).ilkId : ℤ) =
            C.debtSum c b (C.vaults c v).ilkId -
            (if b = C.baseId c (C.vaults c v).seriesId then ((C.balances c v).art : ℤ) else 0) +
            (if b = C.baseId c seriesId then ((C.balances c v).art : ℤ) else 0)

-- A shift is meant to keep the debt and the collateral unchanged.
structure Preserves (C : ICauldron σ) (block : Block) (c : σ) (v : Bytes12) (seriesId : Bytes6)
    (c' : σ) : Prop where
  owner : (C.vaults c' v).owner = (C.vaults c v).owner
  ilkId : (C.vaults c' v).ilkId = (C.vaults c v).ilkId
  ink   : (C.balances c' v).ink = (C.balances c v).ink
  art   : (C.balances c' v).art = (C.balances c v).art
  moved : (C.vaults c' v).seriesId = seriesId
  base  : C.baseId c' seriesId = C.baseId c (C.vaults c v).seriesId
  debt  : C.debtToBase c' block seriesId (C.balances c' v).art =
          C.debtToBase c block (C.vaults c v).seriesId (C.balances c v).art
  sum   : C.debtSum c' (C.baseId c (C.vaults c v).seriesId) (C.vaults c v).ilkId =
          C.debtSum c (C.baseId c (C.vaults c v).seriesId) (C.vaults c v).ilkId

variable {C : ICauldron σ} {c c₁ c₂ c' : σ} {roles : AccessControl} {sender : Address} {v : Bytes12}
  {seriesId : Bytes6} {block : Block}

theorem shift_eq_ok (h : shift C roles sender c v seriesId = .ok c') :
    ∃ art repaid : Sint 128, art.val = (C.balances c v).art ∧ repaid.val = -art.val ∧ ∃ c₁ c₂,
      C.pour c v (.zero 128) repaid = .ok c₁ ∧
      C.tweak c₁ v seriesId (C.vaults c v).ilkId = .ok c₂ ∧
      C.pour c₂ v (.zero 128) art = .ok c' := by
  simp only [shift, i128, Call.bind_eq_ok, Sint.ofUint_eq_ok, Sint.neg_eq_ok] at h
  obtain ⟨_, -, art, ha, repaid, hr, c₁, h₁, c₂, h₂, art', ha', h₃⟩ := h
  have he : art' = art := Sint.ext (ha'.trans ha.symm)
  exact ⟨art, repaid, ha, hr, c₁, c₂, h₁, h₂, he ▸ h₃⟩

theorem shift_shifts (hC : C.Documented) (h : shift C roles sender c v seriesId = .ok c') :
    Shifts C c v seriesId c' := by
  obtain ⟨art, repaid, ha, hr, c₁, c₂, h₁, h₂, h₃⟩ := shift_eq_ok h
  replace h₁ := hC.pours _ _ _ _ _ h₁
  replace h₂ := hC.tweaks _ _ _ _ _ h₂
  replace h₃ := hC.pours _ _ _ _ _ h₃
  have hv : C.vaults c₂ v = { C.vaults c v with seriesId } := by rw [h₂.vault, h₁.vault]
  have hi : (C.balances c' v).ink = (C.balances c v).ink := by
    have hi₁ := h₁.ink
    have hi₃ := h₃.ink
    rw [h₂.balance] at hi₃
    simp only [Sint.zero, add_zero] at hi₁ hi₃
    exact Fin.ext (by omega)
  have ht : (C.balances c' v).art = (C.balances c v).art := by
    have ht₁ := h₁.art
    have ht₃ := h₃.art
    rw [h₂.balance] at ht₃
    exact Fin.ext (by omega)
  exact {
    vaults   := fun u hu => by rw [h₃.vaults u hu, h₂.vaults u hu, h₁.vaults u hu]
    balances := fun u hu => by rw [h₃.balances u hu, h₂.balances u hu, h₁.balances u hu]
    series   := by rw [h₃.series, h₂.series, h₁.series]
    accrual  := by rw [h₃.accrual, h₂.accrual, h₁.accrual]
    vault    := h₃.vault.trans hv
    balance  := by
      rw [show C.balances c' v = ⟨(C.balances c' v).art, (C.balances c' v).ink⟩ from rfl, hi, ht]
    sum b    := by
      have hb : ∀ s, C.baseId c₂ s = C.baseId c s := fun s => by
        rw [ICauldron.baseId, ICauldron.baseId, h₂.series, h₁.series]
      rw [h₃.sum, h₂.sum, h₁.sum, hv, hb, hr, ha]
      simp only [and_true]
      split <;> split <;> omega
  }

theorem Shifts.baseId_eq (h : Shifts C c v seriesId c') : C.baseId c' = C.baseId c := by
  funext s
  rw [ICauldron.baseId, ICauldron.baseId, h.series]

theorem Shifts.debtToBase_eq (h : Shifts C c v seriesId c') :
    C.debtToBase c' block = C.debtToBase c block := by
  funext s art
  rw [ICauldron.debtToBase, ICauldron.debtToBase, h.series, h.accrual]

theorem Shifts.sum_eq (h : Shifts C c v seriesId c')
    (hb : C.baseId c seriesId = C.baseId c (C.vaults c v).seriesId) :
    C.debtSum c' (C.baseId c (C.vaults c v).seriesId) (C.vaults c v).ilkId =
      C.debtSum c (C.baseId c (C.vaults c v).seriesId) (C.vaults c v).ilkId := by
  have hs := h.sum (C.baseId c (C.vaults c v).seriesId)
  rw [if_pos rfl, if_pos hb.symm] at hs
  exact Fin.ext (by omega)

-- The same units of debt are the same debt only in a series of the same base, and on which the same
-- has accrued. None of this is checked.
theorem shift_preserves_iff (hC : C.Documented) (h : shift C roles sender c v seriesId = .ok c') :
    Preserves C block c v seriesId c' ↔
      C.baseId c seriesId = C.baseId c (C.vaults c v).seriesId ∧
      C.debtToBase c block seriesId (C.balances c v).art =
        C.debtToBase c block (C.vaults c v).seriesId (C.balances c v).art := by
  have h := shift_shifts hC h
  constructor
  case mp =>
    intro hp
    have hb := hp.base
    have hd := hp.debt
    rw [h.baseId_eq] at hb
    rw [h.debtToBase_eq, h.balance] at hd
    exact ⟨hb, hd⟩
  case mpr =>
    rintro ⟨hb, hd⟩
    exact {
      owner := by rw [h.vault]
      ilkId := by rw [h.vault]
      ink   := by rw [h.balance]
      art   := by rw [h.balance]
      moved := by rw [h.vault]
      base  := by rw [h.baseId_eq, hb]
      debt  := by rw [h.debtToBase_eq, h.balance, hd]
      sum   := h.sum_eq hb
    }

namespace June

-- A Cauldron without limits. The series 1 and 2 have the base 10, and the series 3 has the base 11.
-- All of them mature at 1000, and the only ilk is 20.
structure State where
  vaults   : Bytes12 → DataTypes.Vault
  balances : Bytes12 → DataTypes.Balances
  debtSum  : Bytes6 → Bytes6 → Uint 128

def series (seriesId : Bytes6) : DataTypes.Series :=
  ⟨5, if seriesId = 3 then 11 else 10, 1000⟩

def pour (c : State) (v : Bytes12) (ink art : Sint 128) : Call State := do
  let vault := c.vaults v
  let baseId := (series vault.seriesId).baseId
  let ink' ← Sint.addTo (c.balances v).ink ink
  let art' ← Sint.addTo (c.balances v).art art
  let sum ← Sint.addTo (c.debtSum baseId vault.ilkId) art
  return { c with
    balances := Function.update c.balances v ⟨art', ink'⟩
    debtSum  := fun b i => if b = baseId ∧ i = vault.ilkId then sum else c.debtSum b i
  }

def tweak (c : State) (v : Bytes12) (seriesId ilkId : Bytes6) : Call State := do
  Call.require (ilkId = 20) "Ilk not added"
  Call.require ((c.balances v).art = 0) "Only with no debt"
  return { c with vaults := Function.update c.vaults v { c.vaults v with seriesId, ilkId } }

def cauldron : ICauldron State where
  vaults      := State.vaults
  balances    := State.balances
  series _    := series
  ilks _ _ i  := i = 20
  debtSum     := State.debtSum
  accrual _ _ := WAD
  pour        := pour
  tweak       := tweak

theorem documented : cauldron.Documented where
  pours c v ink art c' h := by
    simp only [cauldron, pour, Call.bind_eq_ok, Sint.addTo_eq_ok, Call.pure_eq_ok] at h
    obtain ⟨ink', hi, art', ha, sum, hs, rfl⟩ := h
    exact {
      vaults   := fun _ _ => rfl
      balances := fun u hu => Function.update_of_ne hu ..
      series   := rfl
      accrual  := rfl
      vault    := rfl
      ink      := by simpa [cauldron] using hi
      art      := by simpa [cauldron] using ha
      sum      := fun b i => by
        by_cases he : b = (series (c.vaults v).seriesId).baseId ∧ i = (c.vaults v).ilkId
        case pos => simp [cauldron, ICauldron.baseId, he.left, he.right, hs]
        case neg => simp [cauldron, ICauldron.baseId, he]
    }
  tweaks c v s i c' h := by
    simp only [cauldron, tweak, Call.bind_eq_ok, Call.require_eq_ok, Call.pure_eq_ok] at h
    obtain ⟨_, hi, _, ha, rfl⟩ := h
    exact {
      vaults   := fun u hu => Function.update_of_ne hu ..
      balances := fun _ _ => rfl
      series   := rfl
      accrual  := rfl
      vault    := Function.update_self ..
      balance  := rfl
      sum      := rfl
      art      := ha
      approved := decide_eq_true hi
    }

-- The vault 9 has a debt of 1000 in the series 1.
def state : State where
  vaults _    := ⟨8, 1, 20⟩
  balances _  := ⟨1000, 5⟩
  debtSum _ _ := 4000

def granted : AccessControl :=
  (AccessControl.init 7)._grantRole selector.shift 7

end June

theorem shift_preserves_iff_june : ∃ c', shift June.cauldron June.granted 7 June.state 9 2 = .ok c' ∧
    Preserves June.cauldron ⟨500, by decide⟩ June.state 9 2 c' := by
  have h : (shift June.cauldron June.granted 7 June.state 9 2).isOk = true := by decide +kernel
  obtain ⟨c', hc⟩ := Call.exists_of_isOk h
  exact ⟨c', hc, (shift_preserves_iff June.documented hc).mpr (by decide)⟩

-- The debt moves to another base.
theorem shift_not_preserves : ¬∀ (C : ICauldron June.State) (roles : AccessControl)
    (sender : Address) (block : Block) (c : June.State) (v : Bytes12) (seriesId : Bytes6)
    (c' : June.State), C.Documented → (∀ c s, WAD ≤ C.accrual c s) →
    shift C roles sender c v seriesId = .ok c' → Preserves C block c v seriesId c' := by
  intro h
  have hx : (shift June.cauldron June.granted 7 June.state 9 3).isOk = true := by decide +kernel
  obtain ⟨c', hc⟩ := Call.exists_of_isOk hx
  have hp := h _ _ _ ⟨500, by decide⟩ _ _ _ _ June.documented (fun _ _ => le_rfl) hc
  have hb := hp.base
  rw [(shift_shifts June.documented hc).baseId_eq] at hb
  exact absurd hb (by decide)

end Shifter
