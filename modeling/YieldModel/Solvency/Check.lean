import YieldModel.Solvency.Basic

open Accumulation

-- The script `checkSolvency`, which asks the contract about one asset and one series at a time.
namespace CheckSolvency

open Solvency (available redeemable delta joinAvailable seriesRedeemable)

-- The address files, and what the provider answers beside the contract. An exception is an error.
structure Provider where
  solvency      : Solvency.Context
  joins         : Bytes6 → Call Address
  storedBalance : (join : Address) → Call ℕ
  fyTokens      : Bytes6 → Option Address
  rescue        : Option Address
  totalSupply   : (fyToken : Address) → Call ℕ
  balanceOf     : (fyToken account : Address) → Call ℕ

inductive Amount
  | value (n : ℕ)
  | NoOracle

-- What is written to the console, up to names.
structure Report where
  assetLines  : List (Bytes6 × Amount) := []
  assets      : ℕ := 0
  seriesLines : List (Bytes6 × Address × ℤ × Amount) := []
  liabilities : ℕ := 0

def Report.position (r : Report) : ℤ :=
  r.assets - r.liabilities

def getOrThrow (address : Option Address) : Call Address :=
  match address with
  | some a => return a
  | none   => throw "not found"

-- What the contract has no answer for is only missed if there is something of it.
def assetAmount (env : Provider) (assetId : Bytes6) : Call Amount :=
  tryCatch (do
    let amount ← available env.solvency [assetId]
    return .value amount) fun _ => do
    let joinAddress ← env.joins assetId
    if joinAddress ≠ 0 then
      let storedBalance ← env.storedBalance joinAddress
      if storedBalance = 0 then return .value 0 else return .NoOracle
    else
      return .value 0

def seriesAmount (env : Provider) (seriesId : Bytes6) : Call Amount :=
  tryCatch (do
    let amount ← redeemable env.solvency [seriesId]
    return .value amount) fun _ =>
    return .NoOracle

def Amount.toNat : Amount → ℕ
  | .value n  => n
  | .NoOracle => 0

def Amount.isZero : Amount → Bool
  | .value n  => n = 0
  | .NoOracle => false

def checkAsset (env : Provider) (r : Report) (assetId : Bytes6) : Call Report := do
  let amount ← assetAmount env assetId
  let r := { r with assets := r.assets + amount.toNat }
  if amount.isZero then
    return r
  else
    return { r with assetLines := r.assetLines ++ [(assetId, amount)] }

-- The fyToken which the rescue contract holds are not in circulation.
def checkSeries (env : Provider) (r : Report) (seriesId : Bytes6) : Call Report := do
  let fyToken ← getOrThrow (env.fyTokens seriesId)
  let amount ← seriesAmount env seriesId
  let r := { r with liabilities := r.liabilities + amount.toNat }
  if amount.isZero then
    return r
  else do
    let totalSupply ← env.totalSupply fyToken
    let rescue ← getOrThrow env.rescue
    let locked ← env.balanceOf fyToken rescue
    return { r with
      seriesLines := r.seriesLines ++ [(seriesId, fyToken, (totalSupply : ℤ) - locked, amount)] }

def checkSolvency (env : Provider) (assetIds seriesIds : List Bytes6) : Call Report := do
  let r ← assetIds.foldlM (checkAsset env) {}
  seriesIds.foldlM (checkSeries env) r

-- A Join which has something.
def Holds (env : Provider) (assetId : Bytes6) : Prop :=
  ∃ join n, env.joins assetId = .ok join ∧ join ≠ 0 ∧ env.storedBalance join = .ok n ∧ n ≠ 0

variable {env : Provider} {r r' : Report} {assetIds seriesIds : List Bytes6} {a s : Bytes6}
  {amount : Amount}

-- What the script notes of something which may have a worth. It is missed if `held`.
inductive Notes (f : Bytes6 → Call (Uint 256)) (held : Prop) (a : Bytes6) : Amount → Prop
  | value {n : Uint 256} : f a = .ok n → Notes f held a (.value n)
  | NoOracle : (f a).isOk = false → held → Notes f held a .NoOracle
  | nothing  : (f a).isOk = false → ¬held → Notes f held a (.value 0)

theorem worth_of_not_isOk {f : Bytes6 → Call (Uint 256)} (h : (f a).isOk = false) :
    worth f a = 0 := by
  cases hf : f a
  case ok n    => rw [hf] at h; cases h
  case error e => simp [worth, hf]

theorem Notes.toNat {f : Bytes6 → Call (Uint 256)} {held : Prop} (h : Notes f held a amount) :
    amount.toNat = worth f a := by
  cases h
  case value h      => exact (worth_of_ok h).symm
  case NoOracle h _ => exact (worth_of_not_isOk h).symm
  case nothing h _  => exact (worth_of_not_isOk h).symm

theorem Notes.eq_NoOracle_iff {f : Bytes6 → Call (Uint 256)} {held : Prop}
    (h : Notes f held a amount) : amount = .NoOracle ↔ (f a).isOk = false ∧ held := by
  cases h
  case value h          => simp [h, Except.isOk, Except.toBool]
  case NoOracle h hh    => exact iff_of_true rfl ⟨h, hh⟩
  case nothing h hh     => simp [hh]

theorem tryCatch_ok {α β : Type} (x : Call α) (g : α → β) (f : String → Call β) {b : β}
    (h : tryCatch (do let a ← x; return g a) f = .ok b) :
    (∃ a, x = .ok a ∧ b = g a) ∨ ∃ e, x = .error e ∧ f e = .ok b := by
  cases x
  case ok a    => exact .inl ⟨a, rfl, (Except.ok.inj h).symm⟩
  case error e => exact .inr ⟨e, rfl, h⟩

theorem assetAmount_eq_ok (h : assetAmount env a = .ok amount) :
    Notes (joinAvailable env.solvency) (Holds env a) a amount := by
  obtain ⟨n, hn, rfl⟩ | ⟨e, he, h⟩ := tryCatch_ok _ _ _ h
  case inl => exact .value (accumulate_singleton.mp hn)
  have hf : (joinAvailable env.solvency a).isOk = false := by
    rw [← isOk_accumulate_singleton, ← available, he]
    rfl
  simp only [Call.bind_eq_ok] at h
  obtain ⟨join, hj, h⟩ := h
  split at h
  case isFalse hz =>
    cases h
    refine .nothing hf ?_
    rintro ⟨j, n, hj', hz', -, -⟩
    cases hj.symm.trans hj'
    exact hz hz'
  case isTrue hz =>
    simp only [Call.bind_eq_ok] at h
    obtain ⟨n, hn, h⟩ := h
    split at h
    case isFalse hs =>
      cases h
      exact .NoOracle hf ⟨join, n, hj, hz, hn, hs⟩
    case isTrue hs =>
      cases h
      refine .nothing hf ?_
      rintro ⟨j, n', hj', -, hn', hs'⟩
      cases hj.symm.trans hj'
      cases hn.symm.trans hn'
      exact hs' hs

theorem seriesAmount_eq_ok (h : seriesAmount env s = .ok amount) :
    Notes (seriesRedeemable env.solvency) True s amount := by
  obtain ⟨n, hn, rfl⟩ | ⟨e, he, h⟩ := tryCatch_ok _ _ _ h
  case inl => exact .value (accumulate_singleton.mp hn)
  cases h
  refine .NoOracle ?_ trivial
  rw [← isOk_accumulate_singleton, ← redeemable, he]
  rfl

-- What one round does to the report.

theorem checkAsset_eq_ok (h : checkAsset env r a = .ok r') :
    r'.assets = r.assets + worth (joinAvailable env.solvency) a ∧
    r'.liabilities = r.liabilities ∧ r'.seriesLines = r.seriesLines ∧
    ∀ b, (b, .NoOracle) ∈ r'.assetLines ↔ (b, .NoOracle) ∈ r.assetLines ∨
      b = a ∧ (joinAvailable env.solvency a).isOk = false ∧ Holds env a := by
  simp only [checkAsset, Call.bind_eq_ok] at h
  obtain ⟨amount, ha, h⟩ := h
  have hn := assetAmount_eq_ok ha
  rw [← hn.toNat, ← hn.eq_NoOracle_iff]
  split at h
  case isTrue hz =>
    cases h
    refine ⟨rfl, rfl, rfl, fun b => ?_⟩
    have hz : amount ≠ .NoOracle := by rintro rfl; cases hz
    simp [hz]
  case isFalse =>
    cases h
    exact ⟨rfl, rfl, rfl, fun b => by simp [eq_comm]⟩

theorem checkSeries_eq_ok (h : checkSeries env r s = .ok r') :
    r'.liabilities = r.liabilities + worth (seriesRedeemable env.solvency) s ∧
    r'.assets = r.assets ∧ r'.assetLines = r.assetLines ∧
    ∀ t, (∃ f n, (t, f, n, .NoOracle) ∈ r'.seriesLines) ↔
      (∃ f n, (t, f, n, .NoOracle) ∈ r.seriesLines) ∨
      t = s ∧ (seriesRedeemable env.solvency s).isOk = false := by
  simp only [checkSeries, Call.bind_eq_ok] at h
  obtain ⟨fyToken, -, amount, ha, h⟩ := h
  have hn := seriesAmount_eq_ok ha
  rw [← hn.toNat, ← and_true (_ = false), ← hn.eq_NoOracle_iff]
  split at h
  case isTrue hz =>
    cases h
    refine ⟨rfl, rfl, rfl, fun b => ?_⟩
    have hz : amount ≠ .NoOracle := by rintro rfl; cases hz
    simp [hz]
  case isFalse =>
    simp only [Call.bind_eq_ok] at h
    obtain ⟨_, -, _, -, _, -, h⟩ := h
    cases h
    exact ⟨rfl, rfl, rfl, fun b => by simp [eq_comm, exists_or]⟩

theorem checkAssets_eq_ok (h : assetIds.foldlM (checkAsset env) r = .ok r') :
    r'.assets = r.assets + (assetIds.map (worth (joinAvailable env.solvency))).sum ∧
    r'.liabilities = r.liabilities ∧ r'.seriesLines = r.seriesLines ∧
    ∀ a, (a, .NoOracle) ∈ r'.assetLines ↔ (a, .NoOracle) ∈ r.assetLines ∨
      a ∈ assetIds ∧ (joinAvailable env.solvency a).isOk = false ∧ Holds env a := by
  induction assetIds generalizing r
  case nil => cases h; simp
  case cons a l hi =>
    simp only [List.foldlM_cons, Call.bind_eq_ok] at h
    obtain ⟨r₁, ha, hl⟩ := h
    obtain ⟨hs, hb, hc, hm⟩ := checkAsset_eq_ok ha
    obtain ⟨hs', hb', hc', hm'⟩ := hi hl
    refine ⟨?_, hb'.trans hb, hc'.trans hc, fun b => ?_⟩
    · rw [List.map_cons, List.sum_cons, hs', hs, add_assoc]
    · rw [hm', hm, or_assoc, List.mem_cons]
      refine or_congr_right ⟨?_, ?_⟩
      · rintro (⟨rfl, h⟩ | ⟨hb, h⟩)
        · exact ⟨.inl rfl, h⟩
        · exact ⟨.inr hb, h⟩
      · rintro ⟨rfl | hb, h⟩
        · exact .inl ⟨rfl, h⟩
        · exact .inr ⟨hb, h⟩

end CheckSolvency
