import YieldModel.Governance.Basic
import YieldModel.Lib.Overwrite

namespace Governance

variable {ω : Type} {effect : Tx → Chain ω → Call ω} {s s' : Chain ω} {c : Contracts}
variable {ilk k : Ilk} {ilks pre post : List Ilk} {proposal p₁ p₂ : Proposal} {q : Bytes6 × Bytes6}

def Collateralization.pair (p : Collateralization) : Bytes6 × Bytes6 :=
  (p.baseId, p.ilkId)

def Collateralization.write (p : Collateralization) : (Bytes6 × Bytes6) × SpotOracle :=
  (p.pair, ⟨p.oracle, p.ratio⟩)

def Data.write : Data → Option ((Bytes6 × Bytes6) × SpotOracle)
  | .setSpotOracle baseId ilkId oracle ratio => some ((baseId, ilkId), ⟨oracle, ratio⟩)
  | _                                        => none

-- What a proposal writes to the spot oracles.
def writes (proposal : Proposal) : List ((Bytes6 × Bytes6) × SpotOracle) :=
  proposal.filterMap (·.data.write)

def Ilk.writes (ilk : Ilk) : List ((Bytes6 × Bytes6) × SpotOracle) :=
  [ilk.collateralization.write, (priceInEth ilk).write]

theorem execute_eq_ok {tx : Tx} (h : execute effect s tx = .ok s') :
    s'.spotOracles = Overwrite.apply s.spotOracles (writes [tx]) := by
  simp only [execute, Call.bind_eq_ok] at h
  have ⟨_, _, h⟩ := h
  cases tx with | mk target data =>
  cases data <;> cases h <;> rfl

theorem executeAll_eq_ok (h : executeAll effect s proposal = .ok s') :
    s'.spotOracles = Overwrite.apply s.spotOracles (writes proposal) := by
  induction proposal generalizing s
  case nil => cases h; rfl
  case cons tx proposal hi =>
    simp only [executeAll, List.foldlM_cons, Call.bind_eq_ok] at h
    have ⟨_, ht, h⟩ := h
    rw [hi h, execute_eq_ok ht, ← Overwrite.apply_append, writes, writes, writes,
      ← List.filterMap_append, List.singleton_append]

theorem writes_append : writes (p₁ ++ p₂) = writes p₁ ++ writes p₂ :=
  List.filterMap_append

theorem writes_addIlkToWitch {p : AuctionLineAndLimit} {join : Address} :
    writes (addIlkToWitch c p join) = [] := by
  rw [addIlkToWitch, writes_append]
  split <;> rfl

theorem makeIlk_eq_ok (h : makeIlk c ilk = .ok proposal) : writes proposal = ilk.writes := by
  unfold makeIlk at h
  split at h <;> cases h
  rw [writes_append, writes_append, writes_append]
  cases ilk.auctionLineAndLimit
  case none   => rfl
  case some p => simp only [writes_addIlkToWitch]; rfl

theorem foldlM_makeIlk_eq_ok (h : ilks.foldlM (fun proposal ilk => do
      return proposal ++ (← makeIlk c ilk)) p₁ = .ok proposal) :
    writes proposal = writes p₁ ++ ilks.flatMap Ilk.writes := by
  induction ilks generalizing p₁
  case nil => cases h; simp
  case cons ilk ilks hi =>
    simp only [List.foldlM_cons, Call.bind_eq_ok, Call.pure_eq_ok] at h
    have ⟨_, ⟨p, hp, he⟩, h⟩ := h
    subst he
    rw [hi h, writes_append, makeIlk_eq_ok hp, List.flatMap_cons, List.append_assoc]

theorem makeIlks_eq_ok (h : makeIlks c ilks = .ok proposal) :
    writes proposal = ilks.flatMap Ilk.writes :=
  foldlM_makeIlk_eq_ok h

-- The pairs which are configured by hand, and those which are configured along with them.
def Ilk.pair (ilk : Ilk) : Bytes6 × Bytes6 :=
  ilk.collateralization.pair

def Ilk.ethPair (ilk : Ilk) : Bytes6 × Bytes6 :=
  (ilk.collateralization.ilkId, ETH)

theorem mem_writes {w : (Bytes6 × Bytes6) × SpotOracle} (h : w ∈ ilks.flatMap Ilk.writes) :
    ∃ k ∈ ilks, w.1 = k.pair ∨ w.1 = k.ethPair := by
  have ⟨k, hk, hw⟩ := List.mem_flatMap.mp h
  refine ⟨k, hk, ?_⟩
  cases hw
  case head => exact .inl rfl
  case tail hw => cases hw with
    | head    => exact .inr rfl
    | tail _ hw => cases hw

-- A pair is not written if it belongs to none of the ilks.
theorem notMem_writes (h : ∀ k ∈ ilks, k.pair ≠ q ∧ k.ethPair ≠ q) :
    ∀ w ∈ ilks.flatMap Ilk.writes, w.1 ≠ q := by
  intro w hw hq
  have ⟨k, hk, hw⟩ := mem_writes hw
  cases hw
  case inl hw => exact (h k hk).left (hw ▸ hq)
  case inr hw => exact (h k hk).right (hw ▸ hq)

theorem flatMap_writes : (pre ++ ilk :: post).flatMap Ilk.writes =
    pre.flatMap Ilk.writes ++ ilk.collateralization.write :: (priceInEth ilk).write ::
      post.flatMap Ilk.writes := by
  simp [Ilk.writes]

theorem spotOracles_eq (hm : makeIlks c ilks = .ok proposal)
    (he : executeAll effect s proposal = .ok s') :
    s'.spotOracles = Overwrite.apply s.spotOracles (ilks.flatMap Ilk.writes) :=
  makeIlks_eq_ok hm ▸ executeAll_eq_ok he

namespace Usdc

def DAI  : Bytes6 := 0x303100000000
def USDC : Bytes6 := 0x303200000000

def listed (baseId ilkId : Bytes6) (ratio : Uint 32) : Ilk where
  baseId              := baseId
  ilkId               := ilkId
  collateralization   := ⟨baseId, ilkId, 5, ratio⟩
  debtLimits          := ⟨baseId, ilkId, 1000000, 100, 18⟩
  auctionLineAndLimit := none

-- DAI can be borrowed with ETH as collateral, and is collateral for USDC.
def newIlks : List Ilk :=
  [listed DAI ETH 1400000, listed USDC DAI 1100000]

def contracts : Contracts where
  cauldron      := 1
  witch         := 2
  cloak         := 3
  joins _       := some 4
  hasRole _ _ _ := false

def chain : Chain Unit where
  spotOracles _ := ⟨0, 0⟩
  rest          := ()

def executed : Call (Chain Unit) := do
  let proposal ← makeIlks contracts newIlks
  executeAll (fun _ _ => .ok ()) chain proposal

end Usdc

end Governance
