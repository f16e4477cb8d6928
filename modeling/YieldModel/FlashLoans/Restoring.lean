import YieldModel.FlashLoans.PoolRestorer

open Reentrancy Execution FlashLoans Code

namespace PoolRestorer

variable {Bytes ω : Type} {P : Setting Bytes ω} {sender : Address} {s : Storage} {w : ω}
variable {saved : Storage × ω}

abbrev Waiting (Bytes ω : Type) :=
  Pending Address (Entry Bytes) Storage ω (Msg Bytes) (Option (Uint 256))

abbrev Stack (Bytes ω : Type) :=
  List (Frame Address (Entry Bytes) Storage ω (Msg Bytes) (Option (Uint 256)))

abbrev Conf (Bytes ω : Type) :=
  Config Address (Entry Bytes) Storage ω (Msg Bytes) (Option (Uint 256))

abbrev Act (Bytes ω : Type) :=
  Move Address (Entry Bytes) ω (Msg Bytes) (Option (Uint 256))

-- What a call of `restore` computes from the Ladle.
structure Computes (P : Setting Bytes ω) (saved : Storage × ω) (seriesId : Bytes6)
    (pool fyToken : Address) (underlyingId : Bytes6) (join : Address) : Prop where
  pools   : P.views.pools saved.2 saved.1.ladle seriesId = .ok pool
  trades  : P.views.fyToken saved.2 pool = .ok fyToken
  matures : P.views.underlyingId saved.2 fyToken = .ok underlyingId
  joins   : P.views.joins saved.2 saved.1.ladle underlyingId = .ok join

-- The effects of `onFlashLoan`, which approves `join`.
def Effect (P : Setting Bytes ω) (pool fyToken receiver join : Address) : Request Bytes → Prop
  | .safeApprove _ spender _            => spender = join
  | .safeTransfer _ to_ _               => to_ = pool
  | .mint pool' to_ remainder _ _       => pool' = pool ∧ to_ = receiver ∧ remainder = P.this
  | .mintFYToken fyToken' to_ _         => fyToken' = fyToken ∧ to_ = pool
  | .buyBase pool' to_ _ _              => pool' = pool ∧ to_ = P.this
  | _                                   => False

-- The calls which an entry makes.
inductive Makes (P : Setting Bytes ω) (sender : Address) (saved : Storage × ω) :
    Entry Bytes → Msg Bytes → Prop
  | restore {seriesId underlyingId : Bytes6} {receiver pool fyToken join asset : Address}
    {amount : Uint 256} :
    saved.1.roles.hasRole selector.restore sender →
    Computes P saved seriesId pool fyToken underlyingId join →
    Makes P sender saved (.restore seriesId receiver amount)
      (.own (.flashLoan join P.this asset amount (P.abi.encode pool fyToken underlyingId receiver)))
  | onFlashLoan {initiator token pool fyToken receiver : Address} {underlyingId : Bytes6}
    {amount fee : Uint 256} {data : Bytes} {r : Request Bytes} :
    P.abi.decode data = .ok (pool, fyToken, underlyingId, receiver) →
    P.views.joins saved.2 saved.1.ladle underlyingId = .ok sender → initiator = P.this →
    Effect P pool fyToken receiver sender r →
    Makes P sender saved (.onFlashLoan initiator token amount fee data) (.callback sender r)

theorem restore_meets {seriesId : Bytes6} {receiver : Address} {amount : Uint 256} :
    (restore P sender seriesId receiver amount).Meets (fun _ _ _ _ => True)
      (fun _ _ _ k => Makes P sender (s, w) (.restore seriesId receiver amount) k) s s w := by
  simp only [restore, meets_bind, meets_read, meets_ofCall, meets_look, meets_send, meets_pure]
  intro _ ha pool hp fyToken hf underlyingId hu join hj asset _
  exact ⟨.restore (Call.require_eq_ok.mp ha) ⟨hp, hf, hu, hj⟩, fun _ _ _ => trivial⟩

theorem onFlashLoan_meets {initiator token : Address} {amount fee : Uint 256} {data : Bytes} :
    (onFlashLoan P sender initiator token amount fee data).Meets (fun _ _ _ _ => True)
      (fun _ _ _ k => Makes P sender (s, w) (.onFlashLoan initiator token amount fee data) k)
      s s w := by
  simp only [onFlashLoan, meets_bind, meets_read, meets_ofCall, meets_look, meets_require,
    meets_send, meets_pure]
  intro d hd join hj hc repayment _
  obtain ⟨hs, hi⟩ := not_or.mp hc
  have he (r : Request Bytes) (hr : Effect P d.1 d.2.1 d.2.2.2 sender r) :
      Makes P sender (s, w) (.onFlashLoan initiator token amount fee data) (.callback sender r) :=
    .onFlashLoan hd (not_not.mp hs ▸ hj) (not_not.mp hi) hr
  refine ⟨he _ rfl, fun _ _ _ => ?_⟩
  refine ⟨he _ rfl, fun _ _ _ => ?_⟩
  refine ⟨he _ ⟨rfl, rfl, rfl⟩, fun _ _ _ _ _ _ _ => ?_⟩
  refine ⟨he _ ⟨rfl, rfl⟩, fun _ _ _ => ?_⟩
  exact ⟨he _ ⟨rfl, rfl⟩, fun _ _ _ => trivial⟩

theorem body_meets (e : Entry Bytes) : ((contract P).body e sender).Meets (fun _ _ _ _ => True)
    (fun _ _ _ k => Makes P sender (s, w) e k) s s w := by
  cases e
  case roles a =>
    simp only [contract, roles, meets_bind, meets_read, meets_ofCall, meets_update, meets_pure]
    exact fun _ _ => trivial
  case restore     => exact restore_meets
  case onFlashLoan => exact onFlashLoan_meets

-- The call of `onFlashLoan` happens in a flash loan which has been taken by the call of `restore` below
-- it, with the same data.
def Inside (P : Setting Bytes ω) (o : Waiting Bytes ω) (rest : Stack Bytes ω) : Prop :=
  ∀ initiator token amount fee data, o.entry = .onFlashLoan initiator token amount fee data →
    ∃ f r rest' asset amount', rest = .others f :: .ours r :: rest' ∧
      r.call = .own (.flashLoan o.sender P.this asset amount' data) ∧
      Makes P r.sender r.saved r.entry r.call

def invariant (P : Setting Bytes ω) :
    Invariant Address (Entry Bytes) Storage ω (Msg Bytes) (Option (Uint 256)) where
  storage _ _  := True
  frame o rest := Makes P o.sender o.saved o.entry o.call ∧ Inside P o rest ∧
    ∀ r s w, (o.next r).Meets (fun _ _ _ _ => True)
      (fun _ _ _ k => Makes P o.sender o.saved o.entry k) s s w

-- The Joins which are registered in the Ladle call back only from `flashLoan`, with the sender of this
-- call as the initiator, and with its data. Assets without a Join have the address zero, from which
-- nobody can call.
def HonestJoins (P : Setting Bytes ω) (c : Conf Bytes ω) (m : Act Bytes ω) : Prop :=
  ∀ f rest initiator token amount fee data, c.stack = .others f :: rest →
    m = .enter (.onFlashLoan initiator token amount fee data) →
    (∃ assetId, P.views.joins c.world c.storage.ladle assetId = .ok f.self) →
    ∃ asset amount', f.msg = some (.own (.flashLoan f.self P.this asset amount' data)) ∧
      initiator = f.sender

theorem invariant_kept : (invariant P).Kept (contract P) (HonestJoins P) where
  enter c f rest entry h hs hp := by
    cases he : ((contract P).body entry f.self).exec c.storage c.world
    case returns => trivial
    case reverts => trivial
    case calls s k g =>
      obtain ⟨hk, hn⟩ := (body_meets entry).of_calls he
      refine ⟨trivial, hk, fun initiator token amount fee data hd => ?_, hn⟩
      cases hd
      cases hk with | onFlashLoan _ hj hi _ =>
        obtain ⟨asset, amount', hm, hi'⟩ := hp f rest _ _ _ _ _ hs rfl ⟨_, hj⟩
        have hst := h.stack
        rw [hs] at hst
        obtain ⟨_, hl, hst⟩ := Invariant.sound_others.mp hst
        obtain ⟨r, rest', rfl, hr⟩ := hl.right (hi'.symm.trans hi)
        obtain ⟨_, ⟨hm', _⟩, _⟩ := Invariant.sound_ours.mp hst
        exact ⟨f, r, rest', asset, amount', hs, Option.some.inj (hr.symm.trans hm), hm'⟩
  answer o rest r s w ho _ := by
    obtain ⟨_, hi, hn⟩ := ho
    cases he : (o.next r).exec s w
    case returns => trivial
    case reverts => trivial
    case calls s' k g =>
      obtain ⟨hk, hn⟩ := (hn r s w).of_calls he
      exact ⟨trivial, hk, hi, hn⟩

-- The request is made in a flash loan which has been taken by a call of `restore` of an authorised
-- account, for the pool, the fyToken, the underlying and the receiver of this call.
inductive Restores (P : Setting Bytes ω) (o : Waiting Bytes ω) (r : Request Bytes) :
    Stack Bytes ω → Prop
  | intro {f : Outside Address Storage ω (Msg Bytes)} {x : Waiting Bytes ω} {rest : Stack Bytes ω}
    {seriesId underlyingId : Bytes6} {receiver pool fyToken join asset initiator token : Address}
    {amount amount' fee : Uint 256} :
    x.entry = .restore seriesId receiver amount →
    x.saved.1.roles.hasRole selector.restore x.sender →
    Computes P x.saved seriesId pool fyToken underlyingId join →
    x.call = .own (.flashLoan join P.this asset amount
      (P.abi.encode pool fyToken underlyingId receiver)) →
    o.sender = join →
    o.entry = .onFlashLoan initiator token amount' fee
      (P.abi.encode pool fyToken underlyingId receiver) →
    Effect P pool fyToken receiver join r →
    Restores P o r (.others f :: .ours x :: rest)

theorem restores_of_makes {o : Waiting Bytes ω} {rest : Stack Bytes ω} {r : Request Bytes}
    (hd : P.abi.Decodes) (hm : Makes P o.sender o.saved o.entry (.callback sender r))
    (hi : Inside P o rest) : Restores P o r rest := by
  generalize he : o.entry = e at hm
  cases hm with | onFlashLoan hdata _ _ hr =>
  obtain ⟨f, x, rest', asset, amount', rfl, hc, hx⟩ := hi _ _ _ _ _ he
  generalize hxe : x.entry = e at hx
  rw [hc] at hx
  cases hx with | restore ha hcomp =>
  cases (hd _ _ _ _).symm.trans hdata
  exact .intro hxe ha hcomp hc rfl he hr

-- All that a PoolRestorer ever does in other contracts is to take the flash loan of `restore`, and what
-- this loan has been taken for.
theorem restores_in_restore {ladle : Address} {c : Conf Bytes ω} (hd : P.abi.Decodes)
    (e : Steps ((contract P).Step (HonestJoins P)) (start (created sender ladle) w) c) :
    ∀ m ∈ c.journal,
      (∃ join token amount data, m.1.call = .own (.flashLoan join P.this token amount data)) ∨
      Restores P m.1 m.1.call.request m.2 := by
  intro m hm
  have hs : (invariant P).Holds (contract P) (start (created sender ladle) w) :=
    ⟨trivial, .nil, by simp [start]⟩
  obtain ⟨hk, hi, _⟩ := (invariant_kept.step.steps e hs).journal m hm
  cases hc : m.1.call <;> rw [hc] at hk
  case own =>
    generalize m.1.entry = e at hk
    cases hk
    exact .inl ⟨_, _, _, _, rfl⟩
  case callback => exact .inr (restores_of_makes hd hk hi)

namespace Rehearsal

abbrev Data := Address × Address × Bytes6 × Address

-- The series 7 has the pool 10 and the fyToken 30, whose underlying 60 has the Join 40.
def setting : Setting Data Unit where
  this  := 1
  abi   := ⟨fun pool fyToken underlyingId receiver => (pool, fyToken, underlyingId, receiver), .ok⟩
  views := {
    balanceOf _ _ _      := .ok 0
    base _ _             := .ok 20
    fyToken _ _          := .ok 30
    buyBasePreview _ _ n := .ok n
    join _ _             := .ok 40
    underlyingId _ _     := .ok 60
    asset _ _            := .ok 20
    pool _ _             := .ok 10
    nextPool _ _         := .ok 10
    baseId _ _           := .ok 60
    joins _ _ _          := .ok 40
    pools _ _ _          := .ok 10
  }

-- The account 4 starts a flash loan on the Join, with data of its own. Then the owner 2 restores.
def script : List (Act Data Unit) :=
  [ .transaction 4, .nested 40 (some (.own (.flashLoan 40 1 20 500 (11, 30, 60, 4)))),
    .enter (.onFlashLoan 4 20 500 0 (11, 30, 60, 4)), .fail, .answer none,
    .transaction 2, .enter (.roles (.grantRole selector.restore 2)), .enter (.restore 7 9 500),
    .enter (.onFlashLoan 1 20 500 0 (10, 30, 60, 9)), .answer none, .answer none, .answer none,
    .answer none, .answer none, .answer none, .answer none ]

def check (c : Conf Data Unit) : Act Data Unit → Bool
  | .enter (.onFlashLoan initiator _ _ _ data) =>
    match c.stack with
    | .others f :: _ =>
      match f.msg with
      | some (.own (.flashLoan join receiver _ _ data')) =>
        join = f.self ∧ receiver = 1 ∧ data' = data ∧ initiator = f.sender
      | _ => f.self ≠ 40
    | _ => true
  | _ => true

theorem honest_of_check {c : Conf Data Unit} {m : Act Data Unit} (h : check c m) :
    HonestJoins setting c m := by
  rintro f rest initiator token amount fee data hs rfl ⟨_, hj⟩
  simp only [check, hs] at h
  split at h
  case h_1 join receiver asset amount' data' hm =>
    obtain ⟨rfl, rfl, rfl, hi⟩ := of_decide_eq_true h
    exact ⟨asset, amount', hm, hi⟩
  case h_2 => exact absurd (Except.ok.inj hj).symm (of_decide_eq_true h)

end Rehearsal

open Rehearsal in
theorem restores_in_restore_script :
    ∃ c, (contract setting).run check (start (created 2 6) ()) script = some c ∧
      c.stack = [] ∧ c.journal.length = 6 ∧ ∀ m ∈ c.journal,
      (∃ join token amount data, m.1.call = .own (.flashLoan join 1 token amount data)) ∨
      Restores setting m.1 m.1.call.request m.2 := by
  have h : ((contract setting).run check (start (created 2 6) ()) script).map
      (fun c => (c.stack.isEmpty, c.journal.length)) = some (true, 6) := by
    decide +kernel
  obtain ⟨c, hc, h⟩ := Option.map_eq_some_iff.mp h
  simp only [Prod.mk.injEq, List.isEmpty_iff] at h
  have e := Contract.steps_of_run (fun _ _ => honest_of_check) hc
  exact ⟨c, hc, h.left, h.right, restores_in_restore (fun _ _ _ _ => rfl) e⟩

end PoolRestorer
