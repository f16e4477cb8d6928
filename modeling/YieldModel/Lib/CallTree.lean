import YieldModel.Lib.Code

-- All that happens in the course of calls, as trees. The code of one contract is known, and all other
-- accounts make any calls that they like.

namespace CallTree

variable {A M σ ω ρ : Type}

-- The calls which an account makes, one after another: whom it calls with which message, the world as
-- it is then, what happens in the course of the call, and the answer with the world after it, unless
-- the call fails.
inductive Calls (A M ω ρ : Type)
  | nil
  | cons (callee : A) (msg : M) (world : ω) (inner : Calls A M ω ρ) (result : Option (ρ × ω))
      (next : Calls A M ω ρ)

structure Contract (A M σ ω ρ : Type) where
  this : A
  body : M → A → Code σ ω (A × M) ρ ρ

-- A call of the contract, with the storage and the world as they are when it begins.
structure Visit (A M σ ω : Type) where
  sender  : A
  msg     : M
  storage : σ
  world   : ω

inductive Event (A M σ ω : Type)
  | begins (v : Visit A M σ ω)
  | ends (v : Visit A M σ ω)

-- Calls are made by another account, or by the code of the contract.
inductive Course (A M σ ω ρ : Type)
  | others (account : A)
  | code (c : Code σ ω (A × M) ρ ρ) (w : ω)

inductive Ending (σ : Type)
  | done (s : σ)
  | failed

-- The storage after a call which has, or has not, been successful. If it has not, all that has happened
-- in its course is undone.
def Ending.after (s : σ) : Ending σ → Bool → Option σ
  | _, false      => some s
  | .done s, true => some s
  | .failed, true => none

namespace Contract

variable [DecidableEq A] (C : Contract A M σ ω ρ)

def course (callee : A) (msg : M) (sender : A) (world : ω) : Course A M σ ω ρ :=
  if callee = C.this then .code (C.body msg sender) world else .others callee

def log (callee : A) (v : Visit A M σ ω) (l : List (Event A M σ ω)) : List (Event A M σ ω) :=
  if callee = C.this then .begins v :: l ++ [.ends v] else l

variable [DecidableEq M]

-- How a course ends with the given calls, and the calls of the contract among them. The log has what
-- has been undone as well. Code can fail everywhere, and it fails with the calls that it makes. What
-- the contract answers to itself is not related to its code.
def exec : Calls A M ω ρ → Course A M σ ω ρ → σ → Option (Ending σ × List (Event A M σ ω))
  | .nil, .others _, s => some (.done s, [])
  | .nil, .code c w, s =>
    match c.exec s w with
    | .returns s' _ => some (.done s', [])
    | _             => some (.failed, [])
  | .cons callee msg world inner result next, .others account, s => do
    let (e, l) ← exec inner (C.course callee msg account world) s
    let s' ← e.after s result.isSome
    let (e', l') ← exec next (.others account) s'
    return (e', C.log callee ⟨account, msg, s, world⟩ l ++ l')
  | .cons callee msg _ inner result next, .code c w, s =>
    match c.exec s w with
    | .calls s' k f =>
      if k = (callee, msg) then do
        let (e, l) ← exec inner (C.course callee msg C.this w) s'
        let l := C.log callee ⟨C.this, msg, s', w⟩ l
        let s'' ← e.after s' result.isSome
        match result, next with
        | some (r, w'), next => do
          let (e', l') ← exec next (.code (f r) w') s''
          return (e', l ++ l')
        | none, .nil     => return (.failed, l)
        | none, .cons .. => none
      else none
    | _ => none

-- The calls of several accounts, each of which succeeds or fails with all that happens in its course.
def run : List (A × Calls A M ω ρ) → σ → Option (σ × List (Event A M σ ω))
  | [], s                => some (s, [])
  | (account, t) :: l, s => do
    let (e, l₁) ← C.exec t (.others account) s
    let s' ← e.after s true
    let (s'', l₂) ← run l s'
    return (s'', l₁ ++ l₂)

variable {C} {callee account : A} {msg : M} {world w : ω} {inner next : Calls A M ω ρ}
variable {result : Option (ρ × ω)} {s s' : σ} {e : Ending σ} {l : List (Event A M σ ω)}
variable {c : Code σ ω (A × M) ρ ρ}

theorem exec_others_cons :
    C.exec (.cons callee msg world inner result next) (.others account) s = some (e, l) ↔
    ∃ e₁ l₁ s₁ l₂, C.exec inner (C.course callee msg account world) s = some (e₁, l₁) ∧
      e₁.after s result.isSome = some s₁ ∧ C.exec next (.others account) s₁ = some (e, l₂) ∧
      l = C.log callee ⟨account, msg, s, world⟩ l₁ ++ l₂ := by
  simp only [exec, Option.bind_eq_bind, Option.bind_eq_some_iff, Prod.exists, Option.pure_def,
    Option.some.injEq, Prod.mk.injEq]
  constructor
  case mp =>
    rintro ⟨e₁, l₁, h, s₁, ha, _, l₂, hn, rfl, rfl⟩
    exact ⟨e₁, l₁, s₁, l₂, h, ha, hn, rfl⟩
  case mpr =>
    rintro ⟨e₁, l₁, s₁, l₂, h, ha, hn, rfl⟩
    exact ⟨e₁, l₁, h, s₁, ha, e, l₂, hn, rfl, rfl⟩

theorem exec_code_nil (h : C.exec .nil (.code c w) s = some (e, l)) :
    l = [] ∧ (e = .failed ∨ ∃ s' r, e = .done s' ∧ c.exec s w = .returns s' r) := by
  rw [exec] at h
  split at h <;> cases h
  case h_1 s' r he => exact ⟨rfl, .inr ⟨s', r, rfl, he⟩⟩
  case h_2         => exact ⟨rfl, .inl rfl⟩

theorem exec_code_cons
    (h : C.exec (.cons callee msg world inner result next) (.code c w) s = some (e, l)) :
    ∃ s' f e₁ l₁ s₁ l₂, c.exec s w = .calls s' (callee, msg) f ∧
      C.exec inner (C.course callee msg C.this w) s' = some (e₁, l₁) ∧
      e₁.after s' result.isSome = some s₁ ∧ l = C.log callee ⟨C.this, msg, s', w⟩ l₁ ++ l₂ ∧
      ((∃ r w', C.exec next (.code (f r) w') s₁ = some (e, l₂)) ∨ e = .failed ∧ l₂ = []) := by
  rw [exec] at h
  split at h
  case h_2 => cases h
  case h_1 s' k f he =>
    split at h
    case isFalse => cases h
    case isTrue hk =>
      subst hk
      simp only [Option.bind_eq_bind, Option.bind_eq_some_iff, Prod.exists] at h
      obtain ⟨e₁, l₁, hi, s₁, ha, h⟩ := h
      refine ⟨s', f, e₁, l₁, s₁, ?_⟩
      split at h
      case h_1 r w' =>
        simp only [Option.bind_eq_some_iff, Prod.exists, Option.pure_def, Option.some.injEq,
          Prod.mk.injEq] at h
        obtain ⟨_, l₂, hn, rfl, rfl⟩ := h
        exact ⟨l₂, he, hi, ha, rfl, .inl ⟨r, w', hn⟩⟩
      case h_2 => cases h; exact ⟨[], he, hi, ha, by simp, .inr ⟨rfl, rfl⟩⟩
      case h_3 => cases h

-- Code which makes no call.
theorem exec_code_of_no_call {t : Calls A M ω ρ} (hc : ∀ s' k f, c.exec s w ≠ .calls s' k f)
    (h : C.exec t (.code c w) s = some (e, l)) :
    l = [] ∧ (e = .failed ∨ ∃ s' r, e = .done s' ∧ c.exec s w = .returns s' r) := by
  cases t
  case nil => exact exec_code_nil h
  case cons =>
    obtain ⟨s', f, _, _, _, _, hx, -⟩ := exec_code_cons h
    exact absurd hx (hc _ _ _)

end Contract

-- An invariant rule: the storage stays `s`, and `log` holds of what is logged. `calls` is what is known
-- about the calls which an account makes. The contract is entered with code that leaves the storage
-- alone, or what its code does is known.
structure Stays [DecidableEq A] [DecidableEq M] (C : Contract A M σ ω ρ) (s : σ)
    (calls : A → Calls A M ω ρ → Prop) (log : List (Event A M σ ω) → Prop) : Prop where
  nil    : log []
  append : ∀ l l', log l → log l' → log (l ++ l')
  inner  : ∀ account callee msg world inner result next,
           calls account (.cons callee msg world inner result next) → calls callee inner
  next   : ∀ account callee msg world inner result next,
           calls account (.cons callee msg world inner result next) → calls account next
  visit  : ∀ account msg world world' inner result next,
           calls account (.cons C.this msg world inner result next) →
           let v := ⟨account, msg, s, world'⟩
           (C.body msg account).Still s ∧ (∀ l, log l → log (.begins v :: l ++ [.ends v])) ∨
           ∀ e l, C.exec inner (.code (C.body msg account) world') s = some (e, l) →
           (∀ s', e = .done s' → s' = s) ∧ log (.begins v :: l ++ [.ends v])

def Course.Within (C : Contract A M σ ω ρ) (s : σ) (calls : A → Calls A M ω ρ → Prop)
    (t : Calls A M ω ρ) : Course A M σ ω ρ → Prop
  | .others account => calls account t
  | .code c _       => calls C.this t ∧ c.Still s

namespace Stays

variable [DecidableEq A] [DecidableEq M] {C : Contract A M σ ω ρ} {s s₁ : σ}
variable {calls : A → Calls A M ω ρ → Prop} {log : List (Event A M σ ω) → Prop}
variable {callee account : A} {msg : M} {world w : ω} {t inner next : Calls A M ω ρ}
variable {result : Option (ρ × ω)} {e : Ending σ} {l : List (Event A M σ ω)}
variable {course : Course A M σ ω ρ}

theorem after_eq {b : Bool} (h : ∀ s', e = .done s' → s' = s) (ha : e.after s b = some s₁) :
    s₁ = s := by
  cases b
  case false => cases e <;> exact (Option.some.inj ha).symm
  case true =>
    cases e
    case done s'  => exact Option.some.inj ha ▸ h s' rfl
    case failed   => cases ha

-- One call, where the rule holds for what happens in its course.
theorem call (h : Stays C s calls log)
    (hc : calls account (.cons callee msg world inner result next))
    (hi : ∀ course, course.Within C s calls inner → ∀ e l, C.exec inner course s = some (e, l) →
      (∀ s', e = .done s' → s' = s) ∧ log l)
    (he : C.exec inner (C.course callee msg account w) s = some (e, l))
    (ha : e.after s result.isSome = some s₁) :
    s₁ = s ∧ log (C.log callee ⟨account, msg, s, w⟩ l) := by
  unfold Contract.course at he
  unfold Contract.log
  split at he
  case isFalse hn =>
    have ⟨hs, hl⟩ := hi (.others callee) (h.inner _ _ _ _ _ _ _ hc) e l he
    rw [if_neg hn]
    exact ⟨after_eq hs ha, hl⟩
  case isTrue ht =>
    subst ht
    rw [if_pos rfl]
    cases h.visit _ _ _ w _ _ _ hc
    case inl hv =>
      have hw : (Course.code (C.body msg account) w).Within C s calls inner :=
        ⟨h.inner _ _ _ _ _ _ _ hc, hv.left⟩
      have ⟨hs, hl⟩ := hi _ hw e l he
      exact ⟨after_eq hs ha, hv.right l hl⟩
    case inr hv =>
      have ⟨hs, hl⟩ := hv e l he
      exact ⟨after_eq hs ha, hl⟩

theorem exec (h : Stays C s calls log) (ht : course.Within C s calls t)
    (he : C.exec t course s = some (e, l)) : (∀ s', e = .done s' → s' = s) ∧ log l := by
  induction t generalizing course e l
  case nil =>
    cases course
    case others =>
      cases he
      exact ⟨fun _ hd => by cases hd; rfl, h.nil⟩
    case code c w =>
      have ⟨hl, hr⟩ := Contract.exec_code_nil he
      refine ⟨fun s' hd => ?_, hl ▸ h.nil⟩
      cases hr
      case inl hf => cases hd.symm.trans hf
      case inr hr =>
        obtain ⟨_, r, hd', hr⟩ := hr
        cases hd.symm.trans hd'
        exact (ht.right w).of_returns hr
  case cons callee msg world inner result next hi hn =>
    cases course
    case others account =>
      obtain ⟨e₁, l₁, s₁, l₂, h₁, ha, h₂, rfl⟩ := Contract.exec_others_cons.mp he
      obtain ⟨rfl, hl⟩ := h.call ht (fun course hw e l => hi hw) h₁ ha
      have hw : (Course.others account).Within C s₁ calls next := h.next _ _ _ _ _ _ _ ht
      have ⟨hs, hl'⟩ := hn hw h₂
      exact ⟨hs, h.append _ _ hl hl'⟩
    case code c w =>
      obtain ⟨s', f, e₁, l₁, s₁, l₂, hx, h₁, ha, rfl, h₂⟩ := Contract.exec_code_cons he
      have ⟨hs, hf⟩ := (ht.right w).of_calls hx
      subst hs
      obtain ⟨rfl, hl⟩ := h.call ht.left (fun course hw e l => hi hw) h₁ ha
      cases h₂
      case inl h₂ =>
        obtain ⟨r, w', h₂⟩ := h₂
        have hw : (Course.code (f r) w').Within C s₁ calls next :=
          ⟨h.next _ _ _ _ _ _ _ ht.left, hf r s₁⟩
        have ⟨hs, hl'⟩ := hn hw h₂
        exact ⟨hs, h.append _ _ hl hl'⟩
      case inr h₂ =>
        obtain ⟨rfl, rfl⟩ := h₂
        exact ⟨nofun, by simpa using hl⟩

theorem others (h : Stays C s calls log) (ht : calls account t)
    (he : C.exec t (.others account) s = some (e, l)) : (∀ s', e = .done s' → s' = s) ∧ log l :=
  h.exec (show Course.Within C s calls t (.others account) from ht) he

theorem code {c : Code σ ω (A × M) ρ ρ} (h : Stays C s calls log) (ht : calls C.this t)
    (hc : c.Still s) (he : C.exec t (.code c w) s = some (e, l)) :
    (∀ s', e = .done s' → s' = s) ∧ log l :=
  h.exec (show Course.Within C s calls t (.code c w) from ⟨ht, hc⟩) he

theorem run {txs : List (A × Calls A M ω ρ)} (h : Stays C s calls log)
    (ht : ∀ tx ∈ txs, calls tx.1 tx.2) (hr : C.run txs s = some (s₁, l)) : s₁ = s ∧ log l := by
  induction txs generalizing l
  case nil => cases hr; exact ⟨rfl, h.nil⟩
  case cons tx txs ih =>
    simp only [Contract.run, Option.bind_eq_bind, Option.bind_eq_some_iff, Prod.exists,
      Option.pure_def, Option.some.injEq, Prod.mk.injEq] at hr
    obtain ⟨e, l₁, h₁, s', ha, s₂, l₂, hr, rfl, rfl⟩ := hr
    have ⟨hs, hl⟩ := h.others (ht tx List.mem_cons_self) h₁
    obtain rfl := after_eq hs ha
    have ⟨hs', hl'⟩ := ih (fun tx h => ht tx (List.mem_cons_of_mem _ h)) hr
    exact ⟨hs', h.append _ _ hl hl'⟩

end Stays

end CallTree
