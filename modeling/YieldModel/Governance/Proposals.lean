import YieldModel.Lib.Prog

open Prog

-- The scripts `propose`, `approve` and `execute`, which are linked by the file of the proposal.

namespace Governance.Scripts

-- Hex strings, and the content of the file.
abbrev Text := List Char

structure ProposalFragment where
  target : Text
  data   : Text
  deriving DecidableEq

abbrev Proposal := List ProposalFragment

inductive ProposalState
  | Unknown
  | Proposed
  | Approved
  deriving DecidableEq

-- How the Timelock hashes proposals, and how the call of `execute` is encoded.
structure Timelock where
  hash        : Proposal → Text
  execute     : Proposal → Text
  hash_hex    : ∀ p, ' ' ∉ hash p
  execute_hex : ∀ p, ' ' ∉ execute p

-- What the network answers while a proposal is proposed. Everything that is asked before the state
-- of the proposal is in `ready`, and `after` is its state when the transaction has been confirmed.
structure Network where
  ready    : Except String Unit
  proposal : ProposalState
  propose  : Except String Unit
  after    : ProposalState

-- The file, if there is one.
abbrev Disk := Option Text

abbrev Script := Prog String Disk

variable (timelock : Timelock)

def writeProposal (proposalHash proposalExecute : Text) : Script Unit :=
  modify fun _ => some ([' '].intercalate [proposalHash, proposalExecute])

def readProposal : Disk → Except String (List Text)
  | some content => .ok (content.splitOn ' ')
  | none         => .error "ENOENT: no such file or directory"

def requireProposalState (proposalState state : ProposalState) : Script Unit :=
  if proposalState = state then return () else Prog.error "Proposal is in incorrect state."

def propose (net : Network) (proposal : Proposal) : Script Unit := do
  Prog.ofResult net.ready
  let proposalHash := timelock.hash proposal
  match net.proposal with
  | .Unknown =>
    writeProposal proposalHash (timelock.execute proposal)
    Prog.ofResult net.propose
    requireProposalState net.after .Proposed
  | .Proposed => return
  | .Approved => return

-- The hash which is approved, unless there is nothing to approve. `proposals` are the states of the
-- proposals with given hashes. A split is never empty.
def approve (proposals : Text → ProposalState) (disk : Disk) : Except String (Option Text) := do
  let proposalHash := (← readProposal disk).headD []
  return if proposals proposalHash = .Proposed then some proposalHash else none

-- The call data which are sent to the Timelock, unless there is nothing to execute. They are missing
-- if the file ends after the hash.
def execute (proposals : Text → ProposalState) (disk : Disk) :
    Except String (Option (Option Text)) := do
  let words ← readProposal disk
  let proposalHash := words.headD []
  let executeCall := words[1]?
  return if proposals proposalHash = .Approved then some executeCall else none

-- A run of `propose`.
structure Run where
  proposal : Proposal
  network  : Network

namespace Run

variable (r : Run)

def result (disk : Disk) : Except (Failure String) Unit :=
  ((propose timelock r.network r.proposal).exec disk).1

def disk (disk : Disk) : Disk :=
  ((propose timelock r.network r.proposal).exec disk).2

-- The proposal which is written to the file.
def written : Option Proposal :=
  match r.network.ready, r.network.proposal with
  | .ok _, .Unknown => some r.proposal
  | _, _            => none

end Run

def runs (disk : Disk) (l : List Run) : Disk :=
  l.foldl (fun disk r => r.disk timelock disk) disk

def lastWritten (l : List Run) : Option Proposal :=
  l.foldl (fun p r => r.written <|> p) none

-- The scripts which are run next act on `p` and on no other proposal.
structure Linked (p : Proposal) (disk : Disk) : Prop where
  reads    : readProposal disk = .ok [timelock.hash p, timelock.execute p]
  approves : ∀ proposals, approve proposals disk =
             .ok (if proposals (timelock.hash p) = .Proposed then some (timelock.hash p) else none)
  executes : ∀ proposals, execute proposals disk =
             .ok (if proposals (timelock.hash p) = .Approved then some (timelock.execute p) else none)

variable {timelock} {p q : Proposal} {disk start : Disk} {r : Run} {l : List Run}

def content (timelock : Timelock) (p : Proposal) : Text :=
  [' '].intercalate [timelock.hash p, timelock.execute p]

theorem readProposal_content :
    readProposal (some (content timelock p)) = .ok [timelock.hash p, timelock.execute p] := by
  have h : ∀ w ∈ [timelock.hash p, timelock.execute p], ' ' ∉ w := by
    simp [timelock.hash_hex, timelock.execute_hex]
  rw [readProposal, content, List.splitOn_intercalate ' ' h (by simp)]

theorem linked_iff : Linked timelock p disk ↔ disk = some (content timelock p) := by
  constructor
  case mp =>
    intro h
    cases disk
    case none   => cases h.reads
    case some c =>
      have hc := Except.ok.inj h.reads
      rw [content, ← hc, List.intercalate_splitOn]
  case mpr =>
    rintro rfl
    have hr : readProposal (some (content timelock p)) = _ := readProposal_content
    exact ⟨hr, fun proposals => by rw [approve, hr]; rfl, fun proposals => by rw [execute, hr]; rfl⟩

theorem content_inj : content timelock q = content timelock p ↔
    timelock.hash q = timelock.hash p ∧ timelock.execute q = timelock.execute p := by
  constructor
  case mp =>
    intro h
    have hq : readProposal (some (content timelock q)) = _ := readProposal_content
    rw [h, readProposal_content] at hq
    injection hq with hq
    simp_all
  case mpr =>
    intro ⟨hh, he⟩
    rw [content, hh, he, content]

-- What has been written stays written, even if the run fails afterwards.
theorem Run.disk_eq : r.disk timelock disk = (r.written.map (content timelock)).or disk := by
  unfold Run.disk propose Run.written
  cases r.network.ready
  case error => rfl
  case ok =>
    cases r.network.proposal
    case Proposed => rfl
    case Approved => rfl
    case Unknown =>
      cases r.network.propose
      case error => rfl
      case ok =>
        simp only [requireProposalState]
        split <;> rfl

theorem runs_eq : runs timelock start l =
    ((lastWritten l).map (content timelock)).or start := by
  induction l using List.reverseRecOn
  case nil => rfl
  case append_singleton l r hi =>
    have hr : runs timelock start (l ++ [r]) = r.disk timelock (runs timelock start l) := by
      simp [runs]
    have hl : lastWritten (l ++ [r]) = r.written.or (lastWritten l) := by
      simp [lastWritten]
    rw [hr, hl, Run.disk_eq, hi]
    cases r.written <;> rfl

theorem Run.written_eq (h : r.result timelock disk = .ok ()) :
    r.written = if r.network.proposal = .Unknown then some r.proposal else none := by
  unfold Run.result propose at h
  unfold Run.written
  cases hr : r.network.ready
  case error => rw [hr] at h; cases h
  case ok    => cases r.network.proposal <;> rfl

-- The file holds the last proposal which has been written, or what it held at the start.
theorem propose_linked_iff (h : r.result timelock (runs timelock start l) = .ok ()) :
    Linked timelock r.proposal (r.disk timelock (runs timelock start l)) ↔
    r.network.proposal = .Unknown ∨ match lastWritten l with
      | some q => timelock.hash q = timelock.hash r.proposal ∧
        timelock.execute q = timelock.execute r.proposal
      | none   => Linked timelock r.proposal start := by
  rw [linked_iff, Run.disk_eq, Run.written_eq h, runs_eq]
  by_cases hu : r.network.proposal = .Unknown
  case pos => simp [hu]
  case neg =>
    simp only [hu, if_false, false_or, Option.map_none, Option.none_or]
    cases lastWritten l
    case none   => exact linked_iff.symm
    case some q => exact (Option.some_inj).trans content_inj

section Example

-- A Timelock for two proposals, the empty one and another.
def hex (n : ℕ) : Text :=
  ['0', 'x', if n = 0 then '0' else '1']

theorem hex_hex (n : ℕ) : ' ' ∉ hex n := by
  by_cases h : n = 0 <;> simp [hex, h]

def lengths : Timelock where
  hash p      := hex p.length
  execute p   := hex p.length
  hash_hex    := fun p => hex_hex p.length
  execute_hex := fun p => hex_hex p.length

def empty : Proposal :=
  []

def other : Proposal :=
  [⟨hex 0, hex 0⟩]

-- A run which finds the proposal in the given state.
def finds (p : Proposal) (state : ProposalState) : Run where
  proposal := p
  network  := { ready := .ok (), proposal := state, propose := .ok (), after := .Proposed }

theorem propose_linked_iff_again : Linked lengths empty
    ((finds empty .Proposed).disk lengths (runs lengths none [finds empty .Unknown])) :=
  (propose_linked_iff (r := finds empty .Proposed) rfl).mpr (.inr ⟨rfl, rfl⟩)

-- A proposal is proposed once more after another one.
theorem propose_not_linked : ¬∀ (timelock : Timelock) (start : Disk) (l : List Run) (r : Run),
    r.result timelock (runs timelock start l) = .ok () →
    Linked timelock r.proposal (r.disk timelock (runs timelock start l)) := by
  intro h
  have h := h lengths none [finds empty .Unknown, finds other .Unknown] (finds empty .Proposed) rfl
  exact absurd (Except.ok.inj h.reads) (by decide)

end Example

end Governance.Scripts
