import YieldModel.FlashLiquidator.Entries
import YieldModel.FlashLiquidator.Sweep

open CallTree Contract FlashLiquidator

open Code (meets_bind meets_read meets_update meets_send meets_require meets_ofCall meets_look)
open Code (meets_pure)

namespace FlashLiquidator.Entries

variable {Bytes ω : Type}

abbrev Trace (Bytes ω : Type) := Calls Address (Message Bytes) ω Answer

-- The loans for which callbacks are made directly, with the accounts that are called back.
def callbacks : Trace Bytes ω → List (Loan Bytes)
  | .nil => []
  | .cons callee msg _ _ _ next =>
    match msg with
    | .receiveFlashLoan tokens amounts _ userData =>
      ⟨callee, tokens, amounts, userData⟩ :: callbacks next
    | _ => callbacks next

-- What the flash loaner does: `flashLoan` fails at once while another loan is in progress. Otherwise
-- it calls back the recipient with the same tokens, amounts and data, once and not again, unless it
-- fails before. No other function calls anybody back.
def Lends (flashLoaner : Address) : Trace Bytes ω → (inProgress : Bool) → Prop
  | .nil, _ => True
  | .cons callee msg _ inner result next, inProgress =>
    (if callee = flashLoaner then
      match msg, inProgress with
      | .flashLoan _, true     => inner = .nil ∧ result = none
      | .flashLoan loan, false => (callbacks inner = [loan] ∨ callbacks inner = [] ∧ result = none) ∧
                                  Lends flashLoaner inner true
      | _, _                   => callbacks inner = [] ∧ Lends flashLoaner inner inProgress
    else
      Lends flashLoaner inner inProgress) ∧
    Lends flashLoaner next inProgress

abbrev Visit (Bytes ω : Type) := CallTree.Visit Address (Message Bytes) Storage ω

-- What is observed of the calls of the contract: calls of `liquidate` which pass the guard, their ends,
-- and callbacks which pass the guard.
inductive Mark (Bytes ω : Type)
  | liquidates (v : Visit Bytes ω)
  | receives (v : Visit Bytes ω)
  | ends (v : Visit Bytes ω)

variable (F : Setting Bytes ω)

def mark : Event Address (Message Bytes) Storage ω → Option (Mark Bytes ω)
  | .begins v =>
    match v.msg with
    | .liquidate ..        => if v.storage.liquidating then none else some (.liquidates v)
    | .receiveFlashLoan .. =>
      if v.storage.liquidating ∧ v.sender = F.flashLoaner then some (.receives v) else none
    | _                    => none
  | .ends v =>
    match v.msg with
    | .liquidate .. => if v.storage.liquidating then none else some (.ends v)
    | _             => none

-- The callback `u` is given what the call `v` of `liquidate` has encoded.
def Serves (v u : Visit Bytes ω) : Prop :=
  match v.msg, u.msg with
  | .liquidate vaultId swapCalldata, .receiveFlashLoan tokens amounts _ userData =>
    ∃ args baseLoan,
      prepare { F.views v.world with sender := v.sender } vaultId swapCalldata =
        .ok (args, baseLoan) ∧
      F.abi.decode userData = .ok args ∧ args.vaultId = vaultId ∧ args.recipient = v.sender ∧
      tokens = [args.base] ∧ amounts = [Uint.truncate 256 baseLoan]
  | _, _ => False

-- Callbacks pass the guard only in the course of a call of `liquidate`, at most one in each.
inductive Orderly : List (Mark Bytes ω) → Prop
  | nil : Orderly []
  | liquidate {v : Visit Bytes ω} {mid l : List (Mark Bytes ω)} :
    (mid = [] ∨ ∃ u, mid = [.receives u] ∧ Serves F v u) → Orderly l →
    Orderly (.liquidates v :: mid ++ .ends v :: l)

variable {F} {t inner rest : Trace Bytes ω} {b : Bool} {loaner callee account sender : Address}
variable {msg : Message Bytes} {world w : ω} {result : Option (Answer × ω)} {s : Storage}
variable {l l' : List (Mark Bytes ω)} {loan : Loan Bytes}

theorem Orderly.append (h : Orderly F l) (h' : Orderly F l') : Orderly F (l ++ l') := by
  induction h
  case nil => exact h'
  case liquidate hm _ ih => simpa using Orderly.liquidate hm ih

namespace Lends

theorem next (h : Lends loaner (.cons callee msg world inner result rest) b) :
    Lends loaner rest b := by
  unfold Lends at h
  exact h.right

theorem single (h : Lends loaner (.cons callee msg world inner result rest) b) :
    Lends loaner (.cons callee msg world inner result .nil) b := by
  unfold Lends at h ⊢
  exact ⟨h.left, trivial⟩

theorem exists_inner (h : Lends loaner (.cons callee msg world inner result rest) b) :
    ∃ b, Lends loaner inner b := by
  unfold Lends at h
  have ⟨h, _⟩ := h
  split at h
  case isFalse => exact ⟨b, h⟩
  case isTrue =>
    split at h
    case h_1 => exact ⟨true, h.left ▸ trivial⟩
    case h_2 => exact ⟨true, h.right⟩
    case h_3 => exact ⟨_, h.right⟩

-- While a loan is in progress, the flash loaner calls nobody back from a new call.
theorem inProgress (h : Lends loaner (.cons callee msg world inner result rest) true) :
    Lends loaner inner true ∧ (callee = loaner → callbacks inner = []) := by
  unfold Lends at h
  have ⟨h, _⟩ := h
  split at h
  case isFalse hn => exact ⟨h, fun he => absurd he hn⟩
  case isTrue =>
    split at h
    case h_1 => exact ⟨h.left ▸ trivial, fun _ => h.left ▸ rfl⟩
    case h_2 => contradiction
    case h_3 => exact ⟨h.right, fun _ => h.left⟩

theorem flashLoan (h : Lends loaner (.cons loaner (.flashLoan loan) world inner result rest) b) :
    inner = .nil ∨ (callbacks inner = [loan] ∨ callbacks inner = []) ∧ Lends loaner inner true := by
  unfold Lends at h
  have ⟨h, _⟩ := h
  rw [if_pos rfl] at h
  cases b
  case true  => exact .inl h.left
  case false => exact .inr ⟨h.left.imp_right And.left, h.right⟩

end Lends

-- The code of all entries but `liquidate` leaves the storage alone.

theorem collateralToDebtRatio_still {vaultId : Bytes12} :
    (collateralToDebtRatio F vaultId).Still s := by
  intro w
  simp only [collateralToDebtRatio, meets_bind, meets_look]
  intro _ _ _ _ _ _
  split
  case isTrue  => rfl
  case isFalse => simp [meets_bind, meets_look, meets_send, meets_ofCall, meets_pure]

theorem receiveFlashLoan_still {tokens : List Address} {amounts feeAmounts : List (Uint 256)}
    {userData : Bytes} :
    (receiveFlashLoan F sender tokens amounts feeAmounts userData).Still s := by
  intro w
  simp [receiveFlashLoan, safeApprove, safeTransfer, meets_bind, meets_read, meets_send,
    meets_require, meets_ofCall, meets_look, meets_pure]

theorem liquidate_still {vaultId : Bytes12} {swapCalldata : List UInt8} (h : s.liquidating) :
    (liquidate F sender vaultId swapCalldata).Still s := by
  intro w
  simp [liquidate, meets_bind, meets_read, meets_require, h]

theorem body_still
    (h : s.liquidating ∨ ∀ vaultId swapCalldata, msg ≠ .liquidate vaultId swapCalldata) :
    ((contract F).body msg sender).Still s := by
  cases msg
  case liquidate vaultId swapCalldata =>
    exact liquidate_still (h.resolve_right fun hn => hn vaultId swapCalldata rfl)
  case receiveFlashLoan      => exact receiveFlashLoan_still
  case collateralToDebtRatio => exact collateralToDebtRatio_still
  all_goals exact fun _ => trivial

-- In the second segment, which starts when the loan has been repaid, no call is made.
theorem liquidate_meets {vaultId : Bytes12} {swapCalldata : List UInt8} :
    (liquidate F sender vaultId swapCalldata).Meets (fun _ s _ _ => s.liquidating = false)
      (fun s₀ s w k => s₀.liquidating = false ∧ s.liquidating ∧ ∃ args baseLoan,
        prepare { F.views w with sender } vaultId swapCalldata = .ok (args, baseLoan) ∧
        k = (F.flashLoaner,
          .flashLoan ⟨F.this, [args.base], [Uint.truncate 256 baseLoan], F.abi.encode args⟩))
      s s w := by
  simp only [liquidate, meets_bind, meets_read, meets_require, meets_update, meets_look, meets_send,
    meets_pure]
  intro hs _ _ _ args ha
  exact ⟨⟨by simpa using hs, trivial, args.1, args.2, ha, rfl⟩, fun _ _ _ => trivial⟩

-- A segment which returns has cleared the flag.
theorem eq_of_ending {c : M Bytes ω Answer} {s₁ : Storage} {e : Ending Storage}
    {mid : Storage → Storage → ω → Address × Message Bytes → Prop} (h : s.liquidating = false)
    (hc : c.Meets (fun _ s _ _ => s.liquidating = false) mid s₁ s₁ w)
    (hr : e = .failed ∨ ∃ s' r, e = .done s' ∧ c.exec s₁ w = .returns s' r) :
    ∀ s', e = .done s' → s' = s := by
  rintro s' rfl
  obtain ⟨_, _, hs', hr⟩ := hr.resolve_left nofun
  cases hs'
  exact Storage.ext ((hc.of_returns hr).trans h.symm)

theorem prepare_data {ctx : Context} {vaultId : Bytes12} {swapCalldata : List UInt8}
    {args : FlashCallbackData} {baseLoan : Uint 128}
    (h : prepare ctx vaultId swapCalldata = .ok (args, baseLoan)) :
    args.vaultId = vaultId ∧ args.recipient = ctx.sender := by
  simp only [prepare, Call.bind_eq_ok, Call.pure_eq_ok, Prod.mk.injEq] at h
  obtain ⟨_, -, _, -, _, -, _, -, _, -, _, -, _, -, rfl, -⟩ := h
  exact ⟨rfl, rfl⟩

variable {v u : Visit Bytes ω} {es es' : List (Event Address (Message Bytes) Storage ω)}

-- The guards which are passed in the course of a call.
def marks (F : Setting Bytes ω) (es : List (Event Address (Message Bytes) Storage ω)) :
    List (Mark Bytes ω) :=
  es.filterMap (mark F)

theorem marks_append : marks F (es ++ es') = marks F es ++ marks F es' :=
  List.filterMap_append

theorem marks_visit : marks F (.begins v :: es ++ [.ends v]) =
    (mark F (.begins v)).toList ++ marks F es ++ (mark F (.ends v)).toList := by
  cases hb : mark F (.begins v) <;> cases he : mark F (.ends v) <;> simp [marks, hb, he]

-- A call which does not pass a guard.
theorem marks_stopped
    (hl : ∀ vaultId swapCalldata, v.msg = .liquidate vaultId swapCalldata → v.storage.liquidating)
    (hr : ∀ tokens amounts feeAmounts userData,
      v.msg = .receiveFlashLoan tokens amounts feeAmounts userData →
      v.storage.liquidating → v.sender ≠ F.flashLoaner) :
    marks F (.begins v :: es ++ [.ends v]) = marks F es := by
  rw [marks_visit]
  cases v with | mk sender msg s w =>
  cases msg
  case liquidate =>
    have hl : s.liquidating := hl _ _ rfl
    simp [mark, hl]
  case receiveFlashLoan =>
    have hr : s.liquidating → sender ≠ F.flashLoaner := hr _ _ _ _ rfl
    simp only [mark, if_neg (not_and.mpr hr), Option.toList_none, List.nil_append, List.append_nil]
  all_goals simp [mark]

variable [DecidableEq Bytes] {e : Ending Storage}

-- What accounts call while a loan is in progress, apart from the callback for it.
def InProgress (F : Setting Bytes ω) (account : Address) (t : Trace Bytes ω) : Prop :=
  Lends F.flashLoaner t true ∧ (account = F.flashLoaner → callbacks t = [])

-- While a call of `liquidate` is in progress, nothing passes a guard outside of its own loan.
theorem stays_inProgress (h : s.liquidating) :
    Stays (contract F) s (InProgress F) (fun es => marks F es = []) where
  nil                            := rfl
  append es es' he he'           := by rw [marks_append, he, he']; rfl
  inner _ _ _ _ _ _ _ ht         := ht.left.inProgress
  next _ _ msg _ _ _ _ ht        := by
    refine ⟨ht.left.next, fun ha => ?_⟩
    have hc := ht.right ha
    cases msg <;> first | exact hc | cases hc
  visit account msg _ _ _ _ _ ht := by
    refine .inl ⟨body_still (.inl h), fun es he => ?_⟩
    refine (marks_stopped (fun _ _ _ => h) fun _ _ _ _ hm _ ha => ?_).trans he
    cases hm
    cases ht.right ha

-- The loan of a call of `liquidate` which is in progress.
theorem loan_marks (h : s.liquidating) (hn : F.flashLoaner ≠ F.this) (hr : loan.recipient = F.this)
    (ht : Lends F.flashLoaner t true) (hc : callbacks t = [loan])
    (he : (contract F).exec t (.others F.flashLoaner) s = some (e, es)) :
    (∀ s', e = .done s' → s' = s) ∧ ∃ u feeAmounts, marks F es = [.receives u] ∧
      u.msg = .receiveFlashLoan loan.tokens loan.amounts feeAmounts loan.userData := by
  have hst := stays_inProgress (F := F) h
  induction t generalizing e es
  case nil => cases hc
  case cons callee msg world inner result rest _ ih =>
    obtain ⟨e₁, es₁, s₁, es₂, h₁, ha, h₂, rfl⟩ := exec_others_cons.mp he
    by_cases hm : ∃ tokens amounts feeAmounts userData,
        msg = .receiveFlashLoan tokens amounts feeAmounts userData
    case pos =>
      obtain ⟨tokens, amounts, feeAmounts, userData, rfl⟩ := hm
      obtain ⟨rfl, hcr⟩ := List.cons.inj hc
      have hk : callee = (contract F).this := hr
      rw [course, if_pos hk] at h₁
      have hi : InProgress F F.this inner :=
        ⟨ht.inProgress.left, fun ha => absurd (Eq.symm ha) hn⟩
      have ⟨hd, hs⟩ := hst.code hi (body_still (.inl h)) h₁
      obtain rfl := Stays.after_eq hd ha
      have ⟨hd', hs'⟩ := hst.others ⟨ht.next, fun _ => hcr⟩ h₂
      refine ⟨hd', ⟨F.flashLoaner, _, s₁, world⟩, feeAmounts, ?_, rfl⟩
      rw [marks_append, hs', log, if_pos hk, marks_visit, hs]
      simp [mark, h]
    case neg =>
      have hc : callbacks rest = [loan] := by
        cases msg <;> first | exact hc | exact absurd ⟨_, _, _, _, rfl⟩ hm
      have hl : callbacks (.cons callee msg world inner result .nil) = [] := by
        cases msg <;> first | rfl | exact absurd ⟨_, _, _, _, rfl⟩ hm
      obtain ⟨rfl, hs⟩ := hst.call ⟨ht.single, fun _ => hl⟩ (fun _ hw _ _ => hst.exec hw) h₁ ha
      have ⟨hd, u, feeAmounts, hu⟩ := ih ht.next hc h₂
      refine ⟨hd, u, feeAmounts, ?_, hu.right⟩
      rw [marks_append, hs, hu.left]
      rfl

-- The call of `flashLoan` as a whole.
theorem flashLoan_marks (h : s.liquidating) (hr : loan.recipient = F.this)
    (ht : Lends F.flashLoaner (.cons F.flashLoaner (.flashLoan loan) world inner result rest) b)
    (he : (contract F).exec inner
      ((contract F).course F.flashLoaner (.flashLoan loan) F.this w) s = some (e, es)) :
    (∀ s', e = .done s' → s' = s) ∧
    (marks F ((contract F).log F.flashLoaner ⟨F.this, .flashLoan loan, s, w⟩ es) = [] ∨
      ∃ u feeAmounts,
        marks F ((contract F).log F.flashLoaner ⟨F.this, .flashLoan loan, s, w⟩ es) =
          [.receives u] ∧
        u.msg = .receiveFlashLoan loan.tokens loan.amounts feeAmounts loan.userData) := by
  by_cases hn : F.flashLoaner = F.this
  case pos =>
    -- The contract has no function `flashLoan`.
    have hk : F.flashLoaner = (contract F).this := hn
    rw [course, if_pos hk] at he
    rw [log, if_pos hk, marks_stopped (fun _ _ h => by cases h) fun _ _ _ _ h => by cases h]
    cases inner
    case nil => cases he; exact ⟨nofun, .inl rfl⟩
    case cons =>
      obtain ⟨_, _, _, _, _, _, hx, -⟩ := exec_code_cons he
      cases hx
  case neg =>
    have hk : F.flashLoaner ≠ (contract F).this := hn
    rw [course, if_neg hk] at he
    rw [log, if_neg hk]
    have hst := stays_inProgress (F := F) h
    cases ht.flashLoan
    case inl hi =>
      cases hi
      cases he
      exact ⟨fun _ hd => by cases hd; rfl, .inl rfl⟩
    case inr hi =>
      have ⟨hc, hl⟩ := hi
      cases hc
      case inl hc =>
        have ⟨hd, hs⟩ := loan_marks h hn hr hl hc he
        exact ⟨hd, .inr hs⟩
      case inr hc =>
        have ⟨hd, hs⟩ := hst.others ⟨hl, fun _ => hc⟩ he
        exact ⟨hd, .inl hs⟩

-- What a call of `liquidate` does when the flag is not set.
theorem liquidate_marks {vaultId : Bytes12} {swapCalldata : List UInt8} (hd : F.abi.Decodes)
    (h : s.liquidating = false) (ht : Lends F.flashLoaner t b)
    (he : (contract F).exec t (.code (liquidate F sender vaultId swapCalldata) w) s = some (e, es)) :
    (∀ s', e = .done s' → s' = s) ∧ (marks F es = [] ∨ ∃ u, marks F es = [.receives u] ∧
      Serves F ⟨sender, .liquidate vaultId swapCalldata, s, w⟩ u) := by
  have hm : (liquidate F sender vaultId swapCalldata).Meets _ _ s s w := liquidate_meets
  cases t
  case nil =>
    have ⟨hl, hr⟩ := exec_code_nil he
    exact ⟨eq_of_ending h hm hr, .inl (by rw [hl]; rfl)⟩
  case cons callee msg world inner result rest =>
    obtain ⟨s', f, e₁, es₁, s₁, es₂, hx, h₁, ha, rfl, h₂⟩ := exec_code_cons he
    obtain ⟨⟨-, hs', args, baseLoan, hp, hk⟩, hf⟩ := hm.of_calls hx
    cases hk
    have ⟨hs, hl⟩ := flashLoan_marks hs' rfl ht h₁
    obtain rfl := Stays.after_eq hs ha
    have ⟨hs₂, hl₂⟩ : (∀ s', e = .done s' → s' = s) ∧ es₂ = [] := by
      cases h₂
      case inr h₂ => exact ⟨fun _ hd => (by cases hd.symm.trans h₂.left), h₂.right⟩
      case inl h₂ =>
        obtain ⟨r, w', h₂⟩ := h₂
        have hc s' k g (hx : (f r).exec s₁ w' = .calls s' k g) : False := by
          have ⟨hn, _⟩ := ((hf r s₁ w').of_calls hx).left
          exact Bool.false_ne_true (hn.symm.trans hs')
        have ⟨hl, hr⟩ := exec_code_of_no_call hc h₂
        exact ⟨eq_of_ending h (hf r s₁ w') hr, hl⟩
    refine ⟨hs₂, ?_⟩
    rw [hl₂, List.append_nil]
    cases hl
    case inl hl => exact .inl hl
    case inr hl =>
      obtain ⟨u, feeAmounts, hu, hmsg⟩ := hl
      have ⟨hv, hr⟩ := prepare_data hp
      refine .inr ⟨u, hu, ?_⟩
      rw [Serves, hmsg]
      exact ⟨args, baseLoan, hp, hd args, hv, hr, rfl, rfl⟩

-- When no call of `liquidate` is in progress.
theorem stays_idle (hd : F.abi.Decodes) (h : s.liquidating = false) : Stays (contract F) s
    (fun _ t => ∃ b, Lends F.flashLoaner t b) (fun es => Orderly F (marks F es)) where
  nil                             := .nil
  append es es' he he'            := by rw [marks_append]; exact he.append he'
  inner _ _ _ _ _ _ _ ht          := have ⟨_, ht⟩ := ht; ht.exists_inner
  next _ _ _ _ _ _ _ ht           := have ⟨b, ht⟩ := ht; ⟨b, ht.next⟩
  visit account msg _ w _ _ _ ht  := by
    obtain ⟨b, ht⟩ := ht
    by_cases hm : ∃ vaultId swapCalldata, msg = .liquidate vaultId swapCalldata
    case neg =>
      refine .inl ⟨body_still (.inr fun _ _ hl => hm ⟨_, _, hl⟩), fun es he => ?_⟩
      rw [marks_stopped (fun _ _ hl => absurd ⟨_, _, hl⟩ hm) fun _ _ _ _ _ hl => by simp [h] at hl]
      exact he
    case pos =>
      obtain ⟨vaultId, swapCalldata, rfl⟩ := hm
      refine .inr fun e es he => ?_
      have ⟨_, hi⟩ := ht.exists_inner
      have ⟨hs, hl⟩ := liquidate_marks hd h hi he
      refine ⟨hs, ?_⟩
      rw [marks_visit]
      have ho := Orderly.liquidate (l := []) hl .nil
      simpa [mark, h] using ho

section Example

deriving instance DecidableEq for FlashCallbackData

-- The liquidator 5 with the witch 6, the router 1 and the flash loaner 2.
def liquidator : Setting FlashCallbackData Unit where
  this              := 5
  witch             := 6
  swapRouter02      := 1
  flashLoaner       := 2
  abi               := ⟨id, .ok⟩
  message           := .other
  views _           := .selling WETH 100
  spotOracles _ _ _ := .ok 9
  balanceOf _ _ _   := .ok 0

def answered (callee : Address) (msg : Message FlashCallbackData) (answer : Answer)
    (inner next : Trace FlashCallbackData Unit) : Trace FlashCallbackData Unit :=
  .cons callee msg () inner (some (answer, ())) next

def rejected (callee : Address) (msg : Message FlashCallbackData)
    (next : Trace FlashCallbackData Unit) : Trace FlashCallbackData Unit :=
  .cons callee msg () .nil none next

-- During the swap the router tries to borrow for the liquidator, to call it back and to liquidate.
def attack : Trace FlashCallbackData Unit :=
  rejected 2 (.flashLoan ⟨5, [DAI], [1], sold WETH⟩) <|
  rejected 5 (.receiveFlashLoan [DAI] [1] [0] (sold WETH)) <|
  rejected 5 (.liquidate 0 []) .nil

def callback : Trace FlashCallbackData Unit :=
  answered DAI (.approve 4 100) [1] .nil <|
  answered 6 (.payAll 0 0) [10] .nil <|
  answered WETH (.approve 1 10) [1] .nil <|
  answered 1 (.other []) [] attack <|
  answered WETH (.approve 1 0) [1] .nil <|
  answered WETH (.transfer 7 0) [1] .nil <|
  answered DAI (.transfer 2 100) [1] .nil .nil

-- The account 7 liquidates, after it has failed to call back.
def attempts : List (Address × Trace FlashCallbackData Unit) :=
  [(7, rejected 5 (.receiveFlashLoan [DAI] [1] [0] (sold WETH)) .nil),
   (7, answered 5 (.liquidate 0 []) []
     (answered 2 (.flashLoan ⟨5, [DAI], [100], sold WETH⟩) []
       (answered 5 (.receiveFlashLoan [DAI] [100] [0] (sold WETH)) [] callback .nil) .nil) .nil)]

theorem attempts_lends : ∀ tx ∈ attempts, Lends liquidator.flashLoaner tx.2 false := by
  simp [attempts, Lends, callbacks, answered, rejected, callback, attack, liquidator, DAI, WETH]

end Example

end FlashLiquidator.Entries
