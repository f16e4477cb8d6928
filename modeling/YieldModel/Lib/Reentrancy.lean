import YieldModel.Lib.Code
import YieldModel.Lib.Execution

-- A contract among others, which may be called again while it waits for the answer to a call.

namespace Reentrancy

open Execution

variable {A ε σ ω κ ρ : Type}

-- The code which is executed when an account calls one of the entries `ε`, and the accounts to which
-- calls go. A contract never calls itself.
structure Contract (A ε σ ω κ ρ : Type) where
  this   : A
  body   : ε → A → Code σ ω κ ρ ρ
  target : κ → A

-- A call of an entry, with the storage and the world as they were when it was entered. It waits for
-- the answer to a call of its own.
structure Pending (A ε σ ω κ ρ : Type) where
  entry  : ε
  sender : A
  saved  : σ × ω
  call   : κ
  next   : ρ → Code σ ω κ ρ ρ

-- A call of another account.
structure Outside (A σ ω κ : Type) where
  self   : A
  sender : A
  msg    : Option κ
  saved  : σ × ω

inductive Frame (A ε σ ω κ ρ : Type)
  | ours (o : Pending A ε σ ω κ ρ)
  | others (f : Outside A σ ω κ)

-- The journal keeps all calls which the contract has made, even if they have been undone since, each
-- with the frames under which this has happened.
structure Config (A ε σ ω κ ρ : Type) where
  storage : σ
  world   : ω
  stack   : List (Frame A ε σ ω κ ρ)
  journal : List (Pending A ε σ ω κ ρ × List (Frame A ε σ ω κ ρ))

inductive Move (A ε ω κ ρ : Type)
  | transaction (account : A)
  | nested (callee : A) (msg : Option κ)
  | work (world : ω)
  | enter (entry : ε)
  | answer (r : ρ)
  | fail

namespace Contract

variable [DecidableEq A]

-- Continues a call of an entry on top of the frames `rest`.
def proceed (C : Contract A ε σ ω κ ρ) (c : Config A ε σ ω κ ρ) (entry : ε) (sender : A)
    (saved : σ × ω) (code : Code σ ω κ ρ ρ) (rest : List (Frame A ε σ ω κ ρ)) :
    Config A ε σ ω κ ρ :=
  match code.exec c.storage c.world with
  | .returns s _  => { c with storage := s, stack := rest }
  | .calls s k f =>
    if C.target k = C.this then
      { c with storage := saved.1, world := saved.2, stack := rest }
    else
      let o := ⟨entry, sender, saved, k, f⟩
      { c with
        storage := s
        stack   := .others ⟨C.target k, C.this, some k, (s, c.world)⟩ :: .ours o :: rest
        journal := (o, rest) :: c.journal
      }
  | .reverts _    => { c with storage := saved.1, world := saved.2, stack := rest }

-- The others decide what happens next. A frame which fails undoes all that has happened since it
-- has been pushed, and a call of the contract fails with the calls which it makes.
def move (C : Contract A ε σ ω κ ρ) (c : Config A ε σ ω κ ρ) :
    Move A ε ω κ ρ → Option (Config A ε σ ω κ ρ)
  | .transaction account =>
    match c.stack with
    | [] =>
      if account = C.this then none
      else some { c with stack := [.others ⟨account, account, none, (c.storage, c.world)⟩] }
    | _  => none
  | .nested callee msg =>
    match c.stack with
    | .others f :: rest =>
      if callee = C.this then none
      else some { c with
        stack := .others ⟨callee, f.self, msg, (c.storage, c.world)⟩ :: .others f :: rest }
    | _ => none
  | .work world =>
    match c.stack with
    | .others _ :: _ => some { c with world }
    | _              => none
  | .enter entry =>
    match c.stack with
    | .others f :: rest =>
      some (C.proceed c entry f.self (c.storage, c.world) (C.body entry f.self) (.others f :: rest))
    | _ => none
  | .answer r =>
    match c.stack with
    | .others _ :: .ours o :: rest => some (C.proceed c o.entry o.sender o.saved (o.next r) rest)
    | .others _ :: rest            => some { c with stack := rest }
    | _                            => none
  | .fail =>
    match c.stack with
    | .others _ :: .ours o :: rest =>
      some { c with storage := o.saved.1, world := o.saved.2, stack := rest }
    | .others f :: rest =>
      some { c with storage := f.saved.1, world := f.saved.2, stack := rest }
    | _ => none

-- The steps in which the others only do what they are permitted.
def Step (C : Contract A ε σ ω κ ρ) (P : Config A ε σ ω κ ρ → Move A ε ω κ ρ → Prop)
    (c c' : Config A ε σ ω κ ρ) : Prop :=
  ∃ m, P c m ∧ C.move c m = some c'

-- Carries out a list of moves, as long as they are allowed.
def run (C : Contract A ε σ ω κ ρ) (allowed : Config A ε σ ω κ ρ → Move A ε ω κ ρ → Bool)
    (c : Config A ε σ ω κ ρ) (l : List (Move A ε ω κ ρ)) : Option (Config A ε σ ω κ ρ) :=
  l.foldlM (fun c m => if allowed c m then C.move c m else none) c

theorem steps_of_run {C : Contract A ε σ ω κ ρ} {c c' : Config A ε σ ω κ ρ}
    {P : Config A ε σ ω κ ρ → Move A ε ω κ ρ → Prop}
    {allowed : Config A ε σ ω κ ρ → Move A ε ω κ ρ → Bool} {l : List (Move A ε ω κ ρ)}
    (ha : ∀ c m, allowed c m → P c m) (h : C.run allowed c l = some c') :
    Steps (C.Step P) c c' := by
  induction l generalizing c
  case nil => cases h; exact .refl
  case cons m l hi =>
    simp only [run, List.foldlM_cons, Option.bind_eq_bind, Option.bind_eq_some_iff] at h
    obtain ⟨c₁, hm, h⟩ := h
    split at hm
    case isTrue hp => exact .head ⟨m, ha c m hp, hm⟩ (hi h)
    case isFalse   => cases hm

end Contract

-- A contract which has not been called yet.
def start (storage : σ) (world : ω) : Config A ε σ ω κ ρ :=
  ⟨storage, world, [], []⟩

-- The calls of entries which wait, the innermost one first.
def pendings (stack : List (Frame A ε σ ω κ ρ)) : List (Pending A ε σ ω κ ρ) :=
  stack.filterMap fun
    | .ours o   => some o
    | .others _ => none

-- An invariant: `storage` relates the storage to the calls which wait, and `frame` says what holds of
-- a call and the frames below it from when it starts to wait.
structure Invariant (A ε σ ω κ ρ : Type) where
  storage : σ → List (Pending A ε σ ω κ ρ) → Prop
  frame   : Pending A ε σ ω κ ρ → List (Frame A ε σ ω κ ρ) → Prop

namespace Invariant

variable {C : Contract A ε σ ω κ ρ} {I : Invariant A ε σ ω κ ρ} {c c' : Config A ε σ ω κ ρ}
variable {P : Config A ε σ ω κ ρ → Move A ε ω κ ρ → Prop} {rest : List (Frame A ε σ ω κ ρ)}
variable {f : Outside A σ ω κ} {o : Pending A ε σ ω κ ρ}

-- A frame whose sender is the contract has been pushed by the call below it.
def Linked (C : Contract A ε σ ω κ ρ) (f : Outside A σ ω κ) (rest : List (Frame A ε σ ω κ ρ)) :
    Prop :=
  f.self ≠ C.this ∧
  (f.sender = C.this → ∃ o rest', rest = .ours o :: rest' ∧ f.msg = some o.call)

inductive Sound (C : Contract A ε σ ω κ ρ) (I : Invariant A ε σ ω κ ρ) :
    List (Frame A ε σ ω κ ρ) → Prop
  | nil : Sound C I []
  | others {f : Outside A σ ω κ} {rest : List (Frame A ε σ ω κ ρ)} :
    I.storage f.saved.1 (pendings rest) → Linked C f rest → Sound C I rest →
    Sound C I (.others f :: rest)
  | ours {o : Pending A ε σ ω κ ρ} {rest : List (Frame A ε σ ω κ ρ)} :
    I.storage o.saved.1 (pendings rest) → I.frame o rest → Sound C I rest →
    Sound C I (.ours o :: rest)

theorem sound_others : Sound C I (.others f :: rest) ↔
    I.storage f.saved.1 (pendings rest) ∧ Linked C f rest ∧ Sound C I rest where
  mp | .others hs hl hr => ⟨hs, hl, hr⟩
  mpr h := .others h.left h.right.left h.right.right

theorem sound_ours : Sound C I (.ours o :: rest) ↔
    I.storage o.saved.1 (pendings rest) ∧ I.frame o rest ∧ Sound C I rest where
  mp | .ours hs ho hr => ⟨hs, ho, hr⟩
  mpr h := .ours h.left h.right.left h.right.right

structure Holds (C : Contract A ε σ ω κ ρ) (I : Invariant A ε σ ω κ ρ) (c : Config A ε σ ω κ ρ) :
    Prop where
  storage : I.storage c.storage (pendings c.stack)
  stack   : Sound C I c.stack
  journal : ∀ m ∈ c.journal, I.frame m.1 m.2

-- What a segment of the code has to establish.
def Continues (I : Invariant A ε σ ω κ ρ) (entry : ε) (sender : A) (saved : σ × ω)
    (rest : List (Frame A ε σ ω κ ρ)) : Code.Outcome σ ω κ ρ ρ → Prop
  | .returns s _ => I.storage s (pendings rest)
  | .calls s k f => I.storage s (⟨entry, sender, saved, k, f⟩ :: pendings rest) ∧
                    I.frame ⟨entry, sender, saved, k, f⟩ rest
  | .reverts _   => True

-- The first segment is executed when an entry is entered, and the others are executed after answers.
structure Kept (C : Contract A ε σ ω κ ρ) (P : Config A ε σ ω κ ρ → Move A ε ω κ ρ → Prop)
    (I : Invariant A ε σ ω κ ρ) : Prop where
  enter  : ∀ c f rest entry, I.Holds C c → c.stack = .others f :: rest → P c (.enter entry) →
           I.Continues entry f.self (c.storage, c.world) c.stack
             ((C.body entry f.self).exec c.storage c.world)
  answer : ∀ o rest r s w, I.frame o rest → I.storage s (o :: pendings rest) →
           I.Continues o.entry o.sender o.saved rest ((o.next r).exec s w)

-- A frame of another account is pushed, with the storage as it is.
theorem Holds.push (h : I.Holds C c) (hl : Linked C f c.stack) (hf : f.saved.1 = c.storage) :
    I.Holds C { c with stack := .others f :: c.stack } where
  storage := h.storage
  stack   := .others (hf ▸ h.storage) hl h.stack
  journal := h.journal

variable [DecidableEq A]

theorem Continues.proceed {entry : ε} {sender : A} {saved : σ × ω} {code : Code σ ω κ ρ ρ}
    (h : I.Continues entry sender saved rest (code.exec c.storage c.world))
    (hs : I.storage saved.1 (pendings rest)) (hr : Sound C I rest)
    (hj : ∀ m ∈ c.journal, I.frame m.1 m.2) :
    I.Holds C (C.proceed c entry sender saved code rest) := by
  unfold Contract.proceed
  split
  case h_1 he => exact ⟨by simpa [Continues, he] using h, hr, hj⟩
  case h_2 s k g he =>
    simp only [Continues, he] at h
    split
    case isTrue     => exact ⟨hs, hr, hj⟩
    case isFalse ht =>
      exact {
        storage := h.left
        stack   := .others h.left ⟨ht, fun _ => ⟨_, _, rfl, rfl⟩⟩ (.ours hs h.right hr)
        journal := List.forall_mem_cons.mpr ⟨h.right, hj⟩
      }
  case h_3 => exact ⟨hs, hr, hj⟩

theorem Holds.transaction {account : A} (h : I.Holds C c)
    (hm : C.move c (.transaction account) = some c') : I.Holds C c' := by
  simp only [Contract.move] at hm
  split at hm
  case h_2    => cases hm
  case h_1 hs =>
    split at hm <;> cases hm
    case isFalse ha => exact hs ▸ h.push (hs ▸ ⟨ha, fun he => absurd he ha⟩) rfl

theorem Holds.nested {callee : A} {msg : Option κ} (h : I.Holds C c)
    (hm : C.move c (.nested callee msg) = some c') : I.Holds C c' := by
  simp only [Contract.move] at hm
  split at hm
  case h_2           => cases hm
  case h_1 f rest hs =>
    split at hm <;> cases hm
    case isFalse hc =>
      have hf : f.self ≠ C.this := (sound_others.mp (hs ▸ h.stack)).right.left.left
      exact hs ▸ h.push ⟨hc, fun he => absurd he hf⟩ rfl

theorem Holds.work {world : ω} (h : I.Holds C c) (hm : C.move c (.work world) = some c') :
    I.Holds C c' := by
  simp only [Contract.move] at hm
  split at hm <;> cases hm
  case h_1 => exact ⟨h.storage, h.stack, h.journal⟩

theorem Kept.enters {entry : ε} (hk : I.Kept C P) (hp : P c (.enter entry)) (h : I.Holds C c)
    (hm : C.move c (.enter entry) = some c') : I.Holds C c' := by
  simp only [Contract.move] at hm
  split at hm <;> cases hm
  case h_1 f rest hs =>
    have hc := hk.enter c f rest entry h hs hp
    rw [hs] at hc
    exact hc.proceed (hs ▸ h.storage) (hs ▸ h.stack) h.journal

theorem Kept.answers {r : ρ} (hk : I.Kept C P) (h : I.Holds C c)
    (hm : C.move c (.answer r) = some c') : I.Holds C c' := by
  have hp := h.storage
  simp only [Contract.move] at hm
  split at hm <;> cases hm
  case h_1 f o rest hs =>
    obtain ⟨_, _, ho⟩ := sound_others.mp (hs ▸ h.stack)
    obtain ⟨hf, ho, hr⟩ := sound_ours.mp ho
    rw [hs] at hp
    exact (hk.answer o rest r _ _ ho hp).proceed hf hr h.journal
  case h_2 f rest hs =>
    obtain ⟨_, _, hr⟩ := sound_others.mp (hs ▸ h.stack)
    rw [hs] at hp
    exact ⟨hp, hr, h.journal⟩

-- What is undone leads back to where the invariant has held.
theorem Holds.fail (h : I.Holds C c) (hm : C.move c .fail = some c') : I.Holds C c' := by
  simp only [Contract.move] at hm
  split at hm <;> cases hm
  case h_1 f o rest hs =>
    obtain ⟨_, _, ho⟩ := sound_others.mp (hs ▸ h.stack)
    obtain ⟨hf, _, hr⟩ := sound_ours.mp ho
    exact ⟨hf, hr, h.journal⟩
  case h_2 f rest hs =>
    obtain ⟨hf, _, hr⟩ := sound_others.mp (hs ▸ h.stack)
    exact ⟨hf, hr, h.journal⟩

theorem Kept.step (hk : I.Kept C P) : Preserves (C.Step P) (I.Holds C) := by
  intro c c' stp h
  have ⟨m, hp, hm⟩ := stp
  cases m
  case transaction => exact h.transaction hm
  case nested      => exact h.nested hm
  case work        => exact h.work hm
  case enter       => exact hk.enters hp h hm
  case answer      => exact hk.answers h hm
  case fail        => exact h.fail hm

end Invariant

end Reentrancy
