import YieldModel.Lib.Interruption

open Execution Interruptible

-- The script which deploys contracts, and which is started again after it has been interrupted.

namespace Governance.Deploy

-- Addresses are the keys of one of the files, so they are strings like everything else.
abbrev Address := String

structure ContractDeployment where
  addressFile : String -- The json file to store the address in
  name        : String -- The unique name to the contract
  contract    : String -- The contract name to deploy
  args        : List String
  libs        : List (String × String)
  deriving DecidableEq

abbrev AddressMap := String → Option String

-- A contract which has been recorded in an address file.
structure Recording where
  deployment : ContractDeployment
  address    : Address
  deriving DecidableEq

-- The files, and the contracts on which the Timelock has ROOT. A file which does not exist is the
-- same as an empty map.
structure World where
  files    : String → AddressMap
  rooted   : Address → Bool
  nonce    : ℕ
  recorded : List Recording

-- What the network decides: the addresses of contracts, whether their interface has `ROOT()`, and
-- whether a constructor gives ROOT to the Timelock.
structure Network where
  deployer : Address
  address  : ℕ → Address
  hasROOT  : String → Bool
  grants   : ContractDeployment → Bool

inductive Effect
  | deploy (r : Recording)
  | writeAddress (r : Recording)
  | writeDeployer (r : Recording)
  | grantRole (r : Recording)

abbrev Script := Interruptible Effect World

variable (network : Network)

def readAddressMappingIfExists (w : World) (file_name : String) : AddressMap :=
  w.files file_name

-- The entries of the file which are not in `map` are kept.
def writeAddressMap (w : World) (out_file : String) (map : AddressMap) : World :=
  { w with
    files := Function.update w.files out_file fun k =>
      (map k).or (readAddressMappingIfExists w out_file k) }

namespace World

def deployed (w : World) (r : Recording) : World :=
  { w with
    nonce  := w.nonce + 1
    rooted := fun a => w.rooted a || network.grants r.deployment && a == r.address }

def addressWritten (w : World) (r : Recording) : World :=
  let addressMap := Function.update (readAddressMappingIfExists w r.deployment.addressFile)
    r.deployment.name (some r.address)
  { writeAddressMap w r.deployment.addressFile addressMap with recorded := r :: w.recorded }

def deployerWritten (w : World) (r : Recording) : World :=
  let deployerAddressMap := Function.update (readAddressMappingIfExists w "deployers.json")
    r.address (some network.deployer)
  writeAddressMap w "deployers.json" deployerAddressMap

def rootGranted (w : World) (r : Recording) : World :=
  { w with rooted := fun a => w.rooted a || a == r.address }

end World

def deploy (params : ContractDeployment) : Script Unit := do
  let w ← read
  let deployedAddress := readAddressMappingIfExists w params.addressFile params.name
  if deployedAddress = none then
    let r : Recording := { deployment := params, address := network.address w.nonce }
    perform (.deploy r) fun w => w.deployed network r
    perform (.writeAddress r) fun w => w.addressWritten r
    perform (.writeDeployer r) fun w => w.deployerWritten network r
    -- Give ROOT to the Timelock only if we haven't done so yet, and only if the contract inherits
    -- AccessControl
    let w ← read
    if network.hasROOT params.contract ∧ ¬w.rooted r.address then
      perform (.grantRole r) fun w => w.rootGranted r

def script (contractDeployments : List ContractDeployment) : Script Unit :=
  contractDeployments.forM (deploy network)

-- No contract needs more than four effects, so this run is not interrupted.
def complete (l : List ContractDeployment) (w : World) : World :=
  (run (script network l) (4 * l.length) w).state

-- The runs which are interrupted after the numbers of effects in `ks`.
def interrupted (l : List ContractDeployment) : List ℕ → World → World
  | [], w      => w
  | k :: ks, w => interrupted l ks (run (script network l) k w).state

variable {network} {l : List ContractDeployment} {params : ContractDeployment} {w w' : World}
variable {r r' : Recording} {k : ℕ}

theorem deploy_within : Within 4 (deploy network params) := by
  unfold deploy
  refine .read_bind fun w => ?_
  dsimp only
  split
  case isFalse => exact .pure _
  case isTrue =>
    refine .perform_bind (.perform_bind (.perform_bind (.read_bind fun w => ?_)))
    split
    case isTrue  => exact .perform
    case isFalse => exact .pure _

theorem complete_returns : ∃ p, (script network l).exec ⟨w, 4 * l.length, []⟩ = (.ok (), p) := by
  have h : Within (4 * l.length) (script network l) := .forM fun _ _ => deploy_within
  have ⟨_, p, hx, _⟩ := h ⟨w, 4 * l.length, []⟩ (Nat.le_refl _)
  exact ⟨p, hx⟩

-- Everything has been done for a contract which has been recorded.
structure Done (network : Network) (w : World) (r : Recording) : Prop where
  deployer : (w.files "deployers.json" r.address).isSome
  root     : network.hasROOT r.deployment.contract → w.rooted r.address

def Settled (network : Network) (w : World) : Prop :=
  ∀ r ∈ w.recorded, Done network w r

-- A process has been interrupted between the first and the last step that follow the deployment of a
-- contract.
def Midway (network : Network) (p : Process Effect World) : Prop :=
  match p.log.head? with
  | some (.writeAddress _)  => True
  | some (.writeDeployer r) => network.hasROOT r.deployment.contract ∧ ¬p.state.rooted r.address
  | _                       => False

-- No effect takes anything back.
structure Grows (w w' : World) : Prop where
  files  : ∀ f k, (w.files f k).isSome → (w'.files f k).isSome
  rooted : ∀ a, w.rooted a → w'.rooted a

theorem Done.grows (h : Done network w r) (hg : Grows w w') : Done network w' r where
  deployer  := hg.files _ _ h.deployer
  root hr   := hg.rooted _ (h.root hr)

theorem deployed_grows : Grows w (w.deployed network r) where
  files _ _ h  := h
  rooted a h   := by simp [World.deployed, h]

theorem writeAddressMap_files {f k : String} {map : AddressMap} (h : (w.files f k).isSome) :
    ((writeAddressMap w out map).files f k).isSome := by
  by_cases hf : f = out
  case pos => subst hf; simp [writeAddressMap, readAddressMappingIfExists, h]
  case neg => simpa [writeAddressMap, hf] using h

theorem addressWritten_grows : Grows w (w.addressWritten r) where
  files _ _    := writeAddressMap_files
  rooted _ h   := h

theorem deployerWritten_grows : Grows w (w.deployerWritten network r) where
  files _ _    := writeAddressMap_files
  rooted _ h   := h

theorem rootGranted_grows : Grows w (w.rootGranted r) where
  files _ _ h  := h
  rooted a h   := by simp [World.rootGranted, h]

theorem deployerWritten_deployer :
    ((w.deployerWritten network r).files "deployers.json" r.address).isSome := by
  simp [World.deployerWritten, writeAddressMap]

theorem rootGranted_rooted : (w.rootGranted r).rooted r.address := by
  simp [World.rootGranted]

-- All contracts but `r` have been settled.
def SettledBut (network : Network) (r : Recording) (w : World) : Prop :=
  ∀ r' ∈ w.recorded, r' = r ∨ Done network w r'

theorem Settled.grows (h : Settled network w) (hg : Grows w w') (hr : w'.recorded = w.recorded) :
    Settled network w' :=
  fun r' h' => (h r' (hr ▸ h')).grows hg

theorem Settled.addressWritten (h : Settled network w) :
    SettledBut network r (w.addressWritten r) := by
  intro r' h'
  cases List.mem_cons.mp h'
  case inl h' => exact .inl h'
  case inr h' => exact .inr ((h r' h').grows addressWritten_grows)

theorem SettledBut.grows (h : SettledBut network r w) (hg : Grows w w')
    (hr : w'.recorded = w.recorded) : SettledBut network r w' :=
  fun r' h' => (h r' (hr ▸ h')).imp_right fun h => h.grows hg

theorem SettledBut.settled (h : SettledBut network r w) (hr : Done network w r) :
    Settled network w :=
  fun r' h' => (h r' h').elim (· ▸ hr) id

-- The contract which a round that starts in `w` deploys.
def recording (network : Network) (params : ContractDeployment) (w : World) : Recording where
  deployment := params
  address    := network.address w.nonce

inductive Stage
  | started
  | deployed
  | recorded
  | attested

-- What has to be shown about a round which starts in `w`, one effect after another.
structure Rounds (network : Network) (params : ContractDeployment)
    (I E : Process Effect World → Prop) (Q : World → Stage → Process Effect World → Prop) : Prop where
  starts   : ∀ p, I p → Q p.state .started p
  deploys  : ∀ w s b l, Q w .started ⟨s, b + 1, l⟩ →
             let r := recording network params w
             Q w .deployed ⟨s.deployed network r, b, .deploy r :: l⟩
  records  : ∀ w s b l, Q w .deployed ⟨s, b + 1, l⟩ →
             let r := recording network params w
             Q w .recorded ⟨s.addressWritten r, b, .writeAddress r :: l⟩
  attests  : ∀ w s b l, Q w .recorded ⟨s, b + 1, l⟩ →
             let r := recording network params w
             Q w .attested ⟨s.deployerWritten network r, b, .writeDeployer r :: l⟩
  grants   : ∀ w s b l, Q w .attested ⟨s, b + 1, l⟩ →
             let r := recording network params w
             I ⟨s.rootGranted r, b, .grantRole r :: l⟩
  ends     : ∀ w p, Q w .attested p → (network.hasROOT params.contract →
             p.state.rooted (recording network params w).address) → I p
  reuses   : ∀ w p, Q w .started p → I p
  stops    : ∀ w i p, Q w i p →
             (i = .attested → network.hasROOT params.contract ∧
               ¬p.state.rooted (recording network params w).address) → E p

theorem Rounds.triple {I E : Process Effect World → Prop}
    {Q : World → Stage → Process Effect World → Prop} (h : Rounds network params I E Q) :
    Prog.Triple I (deploy network params) (fun _ => I) E := by
  unfold deploy
  refine .bind (Q := fun w => Q w .started) (read_triple h.starts) fun w => ?_
  dsimp only
  refine .ite (fun _ => ?_) fun _ => .pure (h.reuses w)
  refine .bind (Q := fun _ => Q w .deployed) (perform_triple (h.deploys w) fun p hp => ?_) fun _ => ?_
  case refine_1 => exact h.stops w .started p hp nofun
  refine .bind (Q := fun _ => Q w .recorded) (perform_triple (h.records w) fun p hp => ?_) fun _ => ?_
  case refine_1 => exact h.stops w .deployed p hp nofun
  refine .bind (Q := fun _ => Q w .attested) (perform_triple (h.attests w) fun p hp => ?_) fun _ => ?_
  case refine_1 => exact h.stops w .recorded p hp nofun
  refine .bind (Q := fun w' p => p.state = w' ∧ Q w .attested p)
    (read_triple fun _ hp => ⟨rfl, hp⟩) fun w' => .ite (fun hd => perform_triple ?_ ?_) fun hd => .pure ?_
  case refine_1 => exact fun s b l hp => h.grants w s b l hp.right
  case refine_2 => exact fun p hp => h.stops w .attested p hp.right fun _ => hp.left ▸ hd
  case refine_3 =>
    intro p hp
    refine h.ends w p hp.right fun hr => ?_
    by_contra hn
    exact hd ⟨hr, hp.left ▸ hn⟩

-- An interruption which is not midway leaves everything settled.
theorem deploy_settles : Prog.Triple (fun p => Settled network p.state) (deploy network params)
    (fun _ p => Settled network p.state)
    (fun p => Midway network p ∨ Settled network p.state) := by
  let Q (w : World) (i : Stage) (p : Process Effect World) : Prop :=
    let r := recording network params w
    match i with
    | .started | .deployed => Settled network p.state
    | .recorded            => p.log.head? = some (.writeAddress r) ∧ SettledBut network r p.state
    | .attested            => p.log.head? = some (.writeDeployer r) ∧
                              SettledBut network r p.state ∧
                              (p.state.files "deployers.json" r.address).isSome
  have h : Rounds network params (fun p => Settled network p.state)
      (fun p => Midway network p ∨ Settled network p.state) Q := {
    starts _ h         := h
    deploys _ _ _ _ h  := h.grows deployed_grows rfl
    records _ _ _ _ h  := ⟨rfl, h.addressWritten⟩
    attests _ _ _ _ h  := ⟨rfl, h.2.grows deployerWritten_grows rfl, deployerWritten_deployer⟩
    grants _ _ _ _ h   := (h.2.1.grows rootGranted_grows rfl).settled
      ⟨rootGranted_grows.files _ _ h.2.2, fun _ => rootGranted_rooted⟩
    ends _ _ h hr      := h.2.1.settled ⟨h.2.2, hr⟩
    reuses _ _ h       := h
    stops w i p h hd   := by
      cases i
      case started | deployed => exact .inr h
      case recorded           => exact .inl (by rw [Midway, h.1]; trivial)
      case attested           => exact .inl (by rw [Midway, h.1]; exact hd rfl)
  }
  exact h.triple

theorem script_settles : Prog.Triple (fun p => Settled network p.state) (script network l)
    (fun _ p => Settled network p.state)
    (fun p => Midway network p ∨ Settled network p.state) :=
  .forM fun _ _ => deploy_settles

theorem run_settles (h : Settled network w)
    (hm : ¬Midway network (run (script network l) k w)) :
    Settled network (run (script network l) k w).state := by
  let E (p : Process Effect World) := Midway network p ∨ Settled network p.state
  have ht : Prog.Triple (fun p => Settled network p.state) (script network l) (fun _ => E) E :=
    script_settles.mono (fun _ h => h) (fun _ _ => .inr) fun _ h => h
  exact (run_of_triple ht h).resolve_left hm

theorem complete_settles (h : Settled network w) : Settled network (complete network l w) := by
  have ⟨p, hx⟩ : ∃ p, (script network l).exec ⟨w, 4 * l.length, []⟩ = (.ok (), p) :=
    complete_returns
  rw [complete, run, hx]
  exact script_settles.ok (s := ⟨w, _, []⟩) h hx

variable {ks : List ℕ}

-- No run is interrupted midway.
def Clean (network : Network) (l : List ContractDeployment) : List ℕ → World → Prop
  | [], _      => True
  | k :: ks, w => ¬Midway network (run (script network l) k w) ∧
    Clean network l ks (run (script network l) k w).state

theorem Clean.settled (h : Clean network l ks w) (hs : Settled network w) :
    Settled network (interrupted network l ks w) := by
  induction ks generalizing w
  case nil           => exact hs
  case cons k ks ih  => exact ih h.2 (run_settles hs h.1)

-- The converse: nothing that a later run does makes up for the steps which have been left out.

structure Recorded (network : Network) (w : World) (r : Recording) : Prop where
  mem     : r ∈ w.recorded
  address : ∃ i < w.nonce, network.address i = r.address

structure Lost (network : Network) (r : Recording) (w : World) : Prop where
  recorded : Recorded network w r
  undone   : ¬Done network w r

-- The address of a contract is new when the contract is deployed, and deployers.json is not one of
-- the address files.
structure Fresh (network : Network) (l : List ContractDeployment) (w : World) : Prop where
  injective : Function.Injective network.address
  deployers : ∀ i ≥ w.nonce, w.files "deployers.json" (network.address i) = none
  files     : ∀ params ∈ l, params.addressFile ≠ "deployers.json"

theorem Recorded.grows (h : Recorded network w r) (hm : w.recorded ⊆ w'.recorded)
    (hn : w.nonce ≤ w'.nonce) : Recorded network w' r where
  mem     := hm h.mem
  address := have ⟨i, hi, ha⟩ := h.address; ⟨i, hi.trans_le hn, ha⟩

-- A step for one contract does nothing for another one.
structure Apart (w w' : World) (r : Recording) : Prop where
  deployer : w'.files "deployers.json" r.address = w.files "deployers.json" r.address
  rooted   : w'.rooted r.address = w.rooted r.address

theorem Lost.apart (h : Lost network r w) (ha : Apart w w' r) (hm : w.recorded ⊆ w'.recorded)
    (hn : w.nonce ≤ w'.nonce) : Lost network r w' where
  recorded := h.recorded.grows hm hn
  undone hd := h.undone ⟨ha.deployer ▸ hd.deployer, fun hr => ha.rooted ▸ hd.root hr⟩

theorem deployed_apart (h : r.address ≠ r'.address) : Apart w (w.deployed network r') r where
  deployer := rfl
  rooted   := by simp [World.deployed, h]

theorem addressWritten_deployers {k : String}
    (h : r.deployment.addressFile ≠ "deployers.json") :
    (w.addressWritten r).files "deployers.json" k = w.files "deployers.json" k := by
  simp [World.addressWritten, writeAddressMap, h.symm]

theorem deployerWritten_deployers {k : String} (h : k ≠ r.address) :
    (w.deployerWritten network r).files "deployers.json" k = w.files "deployers.json" k := by
  simp [World.deployerWritten, writeAddressMap, readAddressMappingIfExists, h]

theorem addressWritten_apart (h : r'.deployment.addressFile ≠ "deployers.json") :
    Apart w (w.addressWritten r') r where
  deployer := addressWritten_deployers h
  rooted   := rfl

theorem deployerWritten_apart (h : r.address ≠ r'.address) :
    Apart w (w.deployerWritten network r') r where
  deployer := deployerWritten_deployers h
  rooted   := rfl

theorem rootGranted_apart (h : r.address ≠ r'.address) : Apart w (w.rootGranted r') r where
  deployer := rfl
  rooted   := by simp [World.rootGranted, h]

theorem Lost.ne_recording (h : Lost network r w) (hi : Function.Injective network.address) :
    r.address ≠ (recording network params w).address := by
  intro ha
  have ⟨i, hn, hr⟩ := h.recorded.address
  cases hi (hr.trans ha)
  exact hn.false

theorem deploy_loses (hi : Function.Injective network.address)
    (hf : params.addressFile ≠ "deployers.json") :
    Prog.Keeps (fun p => Lost network r p.state) (deploy network params) := by
  let Q (w : World) (_ : Stage) (p : Process Effect World) : Prop :=
    r.address ≠ (recording network params w).address ∧ Lost network r p.state
  have h : Rounds network params (fun p => Lost network r p.state)
      (fun p => Lost network r p.state) Q := {
    starts _ h         := ⟨h.ne_recording hi, h⟩
    deploys _ _ _ _ h  := ⟨h.1, h.2.apart (deployed_apart h.1) (fun _ => id) (Nat.le_succ _)⟩
    records _ _ _ _ h  :=
      ⟨h.1, h.2.apart (addressWritten_apart hf) (List.subset_cons_self ..) le_rfl⟩
    attests _ _ _ _ h  := ⟨h.1, h.2.apart (deployerWritten_apart h.1) (fun _ => id) le_rfl⟩
    grants _ _ _ _ h   := h.2.apart (rootGranted_apart h.1) (fun _ => id) le_rfl
    ends _ _ h _       := h.2
    reuses _ _ h       := h.2
    stops _ _ _ h _    := h.2
  }
  exact h.triple

-- What is known about the contract to which the latest effect belongs.
def Traced (network : Network) (l : List ContractDeployment) (p : Process Effect World) : Prop :=
  Fresh network l p.state ∧
    match p.log.head? with
    | some (.writeAddress r) =>
      Recorded network p.state r ∧ p.state.files "deployers.json" r.address = none
    | some (.writeDeployer r) => Recorded network p.state r
    | _                       => True

theorem Traced.lost (h : Traced network l p) (hm : Midway network p) :
    ∃ r, Lost network r p.state := by
  rw [Traced] at h
  rw [Midway] at hm
  split at hm
  case h_1 r he =>
    rw [he] at h
    exact ⟨r, h.2.1, fun hd => by simpa [h.2.2] using hd.deployer⟩
  case h_2 r he =>
    rw [he] at h
    exact ⟨r, h.2, fun hd => hm.2 (hd.root hm.1)⟩
  case h_3 => cases hm

theorem Fresh.keeps (h : Fresh network l w) (hn : w.nonce ≤ w'.nonce)
    (hd : ∀ i ≥ w'.nonce, w'.files "deployers.json" (network.address i) =
      w.files "deployers.json" (network.address i)) : Fresh network l w' where
  injective      := h.injective
  deployers i hi := hd i hi ▸ h.deployers i (hn.trans hi)
  files          := h.files

theorem deploy_traces (hf : params.addressFile ≠ "deployers.json") :
    Prog.Keeps (Traced network l) (deploy network params) := by
  let Q (w : World) (i : Stage) (p : Process Effect World) : Prop :=
    let r := recording network params w
    Traced network l p ∧
      match i with
      | .started              => w.nonce = p.state.nonce
      | .deployed             => w.nonce + 1 = p.state.nonce ∧
                                 p.state.files "deployers.json" r.address = none
      | .recorded | .attested => w.nonce + 1 = p.state.nonce ∧ Recorded network p.state r
  have h : Rounds network params (Traced network l) (Traced network l) Q := {
    starts _ h        := ⟨h, rfl⟩
    deploys _ _ _ _ h := ⟨⟨h.1.1.keeps (Nat.le_succ _) fun _ _ => rfl, trivial⟩,
      congrArg (· + 1) h.2, h.1.1.deployers _ h.2.ge⟩
    records w s _ _ h := by
      intro r
      have hr : Recorded network (s.addressWritten r) r :=
        ⟨List.mem_cons_self, w.nonce, h.2.1.symm ▸ Nat.lt_succ_self _, rfl⟩
      exact ⟨⟨h.1.1.keeps le_rfl fun _ _ => addressWritten_deployers hf, hr,
        (addressWritten_deployers hf).trans h.2.2⟩, h.2.1, hr⟩
    attests w s _ _ h := by
      intro r
      have hr : Recorded network (s.deployerWritten network r) r := h.2.2.grows (fun _ => id) le_rfl
      refine ⟨⟨h.1.1.keeps le_rfl fun i hi => deployerWritten_deployers fun ha => ?_, hr⟩,
        h.2.1, hr⟩
      cases h.1.1.injective ha
      exact (h.2.1 ▸ hi).not_gt (Nat.lt_succ_self _)
    grants _ _ _ _ h  := ⟨h.1.1.keeps le_rfl fun _ _ => rfl, trivial⟩
    ends _ _ h _      := h.1
    reuses _ _ h      := h.1
    stops _ _ _ h _   := h.1
  }
  exact h.triple

theorem Lost.run (h : Lost network r w) (hf : Fresh network l w) :
    Lost network r (run (script network l) k w).state :=
  run_of_triple (Prog.Triple.forM fun _ hl => deploy_loses hf.injective (hf.files _ hl)) h

theorem Fresh.run (hf : Fresh network l w) : Traced network l (run (script network l) k w) :=
  run_of_triple (Prog.Triple.forM fun _ hl => deploy_traces (hf.files _ hl)) ⟨hf, trivial⟩

theorem Lost.interrupted (h : Lost network r w) (hf : Fresh network l w) :
    Lost network r (interrupted network l ks w) := by
  induction ks generalizing w
  case nil          => exact h
  case cons k ks ih => exact ih (h.run hf) hf.run.1

theorem Fresh.interrupted (hf : Fresh network l w) :
    Fresh network l (interrupted network l ks w) := by
  induction ks generalizing w
  case nil          => exact hf
  case cons k ks ih => exact ih hf.run.1

theorem Fresh.lost (hf : Fresh network l w) (hc : ¬Clean network l ks w) :
    ∃ r, Lost network r (Deploy.interrupted network l ks w) := by
  induction ks generalizing w
  case nil => exact absurd trivial hc
  case cons k ks ih =>
    by_cases hm : Midway network (Interruptible.run (script network l) k w)
    case pos =>
      have ⟨r, hr⟩ := hf.run.lost hm
      exact ⟨r, hr.interrupted hf.run.1⟩
    case neg => exact ih hf.run.1 fun h => hc ⟨hm, h⟩

theorem Lost.not_settled (h : Lost network r w) : ¬Settled network w :=
  fun hs => h.undone (hs r h.recorded.mem)

theorem resumable_of_clean (hw : w.recorded = []) :
    (Clean network l ks w → Settled network (interrupted network l ks w) ∧
      Settled network (complete network l (interrupted network l ks w))) ∧
    (Fresh network l w → Settled network (complete network l (interrupted network l ks w)) →
      Clean network l ks w) := by
  constructor
  case left =>
    intro hc
    have hs := hc.settled fun r hr => by simp [hw] at hr
    exact ⟨hs, complete_settles hs⟩
  case right =>
    intro hf hs
    by_contra hc
    have ⟨r, hr⟩ := hf.lost hc
    exact (hr.run hf.interrupted).not_settled hs

section Examples

-- The constructor of AccessControl gives ROOT to the deployer only.
def mainnet : Network where
  deployer        := "deployer"
  address i       := String.ofList (List.replicate (i + 1) '1')
  hasROOT name    := name = "Join" || name = "FYToken"
  grants _        := false

def joins : ContractDeployment where
  addressFile := "joins.json"
  name        := "DAI"
  contract    := "Join"
  args        := ["dai"]
  libs        := []

def oracles : ContractDeployment where
  addressFile := "protocol.json"
  name        := "CHAINLINK"
  contract    := "Oracle"
  args        := []
  libs        := []

def unused : World where
  files _ _ := none
  rooted _  := false
  nonce     := 0
  recorded  := []

theorem unused_fresh : Fresh mainnet [joins, oracles] unused where
  injective i j h := by simpa using congrArg List.length (String.ofList_injective h)
  deployers _ _   := rfl
  files           := by decide

-- Nothing is lost if the first run is interrupted before an address has been written, and the second
-- one between two contracts.
theorem resumable_of_clean_between :
    let w := interrupted mainnet [joins, oracles] [1, 4] unused
    (Settled mainnet w ∧ Settled mainnet (complete mainnet [joins, oracles] w)) ∧
      Clean mainnet [joins, oracles] [1, 4] unused := by
  have h : Clean mainnet [joins, oracles] [1, 4] unused := ⟨id, id, trivial⟩
  have hs := (resumable_of_clean rfl).1 h
  exact ⟨hs, (resumable_of_clean rfl).2 unused_fresh hs.2⟩

-- The first run is interrupted when the address of the join has been written, so the complete run
-- reuses the join.
theorem deploy_not_resumable :
    let w := complete mainnet [joins] (interrupted mainnet [joins] [2] unused)
    w.recorded = [⟨joins, "1"⟩] ∧ w.files "joins.json" "DAI" = some "1" ∧
      w.files "deployers.json" "1" = none ∧ w.rooted "1" = false ∧ ¬Settled mainnet w := by
  have hr : (complete mainnet [joins] (interrupted mainnet [joins] [2] unused)).recorded =
      [⟨joins, "1"⟩] := by decide +kernel
  have hf : (complete mainnet [joins] (interrupted mainnet [joins] [2] unused)).files
      "deployers.json" "1" = none := by decide +kernel
  refine ⟨hr, by decide +kernel, hf, by decide +kernel, fun hs => ?_⟩
  have hd := (hs ⟨joins, "1"⟩ (by rw [hr]; exact List.mem_singleton_self _)).deployer
  simp [hf] at hd

end Examples

end Governance.Deploy
