import YieldModel.Objects.Basic

namespace DataTypes

structure Vault where
  owner    : Address
  seriesId : Bytes6
  ilkId    : Bytes6

structure Balances where
  art : Uint 128
  ink : Uint 128

structure Series where
  fyToken  : Address
  baseId   : Bytes6
  maturity : Uint 32

end DataTypes

-- The accounts which are kept by the Cauldron.
structure Cauldron where
  vaults   : Bytes12 → DataTypes.Vault
  balances : Bytes12 → DataTypes.Balances

namespace Cauldron

def give (c : Cauldron) (vaultId : Bytes12) (receiver : Address) : Cauldron :=
  { c with vaults := Function.update c.vaults vaultId { c.vaults vaultId with owner := receiver } }

def slurp (c : Cauldron) (vaultId : Bytes12) (ink art : Uint 128) : Call Cauldron := do
  let ink' ← Uint.sub (c.balances vaultId).ink ink
  let art' ← Uint.sub (c.balances vaultId).art art
  return { c with balances := Function.update c.balances vaultId { art := art', ink := ink' } }

variable {c c' : Cauldron} {v u : Bytes12} {ink art : Uint 128} {receiver : Address}

@[simp]
theorem give_balances : (c.give v receiver).balances = c.balances :=
  rfl

@[simp]
theorem give_owner : ((c.give v receiver).vaults v).owner = receiver := by
  simp [give]

theorem give_vaults_ne (h : u ≠ v) : (c.give v receiver).vaults u = c.vaults u := by
  simp [give, h]

@[simp]
theorem give_ilkId : ((c.give v receiver).vaults u).ilkId = (c.vaults u).ilkId := by
  by_cases h : u = v
  case pos => simp [give, h]
  case neg => rw [give_vaults_ne h]

-- Everything that a successful `slurp` does.
structure Slurps (c : Cauldron) (v : Bytes12) (ink art : Uint 128) (c' : Cauldron) : Prop where
  vaults : c'.vaults = c.vaults
  ink    : ((c'.balances v).ink : ℕ) + ink = (c.balances v).ink
  art    : ((c'.balances v).art : ℕ) + art = (c.balances v).art
  others : ∀ u ≠ v, c'.balances u = c.balances u

theorem slurp_eq_ok (h : c.slurp v ink art = .ok c') : c.Slurps v ink art c' := by
  simp only [slurp, Call.bind_eq_ok, Uint.sub_eq_ok, Call.pure_eq_ok] at h
  obtain ⟨ink', hi, art', ha, rfl⟩ := h
  exact {
    vaults := rfl
    ink    := by simpa using hi
    art    := by simpa using ha
    others := fun u hu => by simp [hu]
  }

end Cauldron
