import YieldModel.Tokens.Dai

namespace DaiMock

variable {evm : Evm} {s s' : DaiMock} {m : Message} {ms : List Message} {holder : Address}

-- The nonce of a permit by `holder`.
def Message.permitNonce (holder : Address) (m : Message) : Option ℕ :=
  match m.action with
  | .permit p _ _ _ => if p.holder = holder then some p.nonce else none
  | _               => none

-- What is checked of a permit.
def Message.Signed (evm : Evm) (s : DaiMock) (m : Message) : Prop :=
  ∀ p v r s', m.action = .permit p v r s' →
    p.holder ≠ 0 ∧ p.holder = evm.ecrecover (s.digest evm p) v r s' ∧
    (p.expiry = 0 ∨ m.block.timestamp ≤ p.expiry)

-- What a call does to the nonces. The domain never changes.
structure Counts (evm : Evm) (s : DaiMock) (m : Message) (s' : DaiMock) : Prop where
  signed : m.Signed evm s
  domain : s'.DOMAIN_SEPARATOR = s.DOMAIN_SEPARATOR
  nonces : ∀ holder, match m.permitNonce holder with
    | some n => n = s.nonces holder ∧ (s'.nonces holder : ℕ) = n + 1
    | none   => s'.nonces holder = s.nonces holder

theorem permit_counts {sender : Address} {b : Block} {p : Permit} {v : Uint 8} {r r' : Bytes32}
    (h : permit evm b s p v r r' = .ok s') : Counts evm s ⟨sender, b, .permit p v r r'⟩ s' := by
  simp only [permit, Call.bind_eq_ok, Call.require_eq_ok, Uint.add_eq_ok, Call.pure_eq_ok] at h
  obtain ⟨_, h₀, _, hs, _, he, n, hn, _, hp, rfl⟩ := h
  refine ⟨?_, rfl, fun holder => ?_⟩
  · rintro _ _ _ _ ⟨⟩
    exact ⟨h₀, hs, he⟩
  · simp only [Message.permitNonce]
    by_cases hh : p.holder = holder
    case pos =>
      subst hh
      simp only [if_true, setAllowance, Function.update_self, hn, hp]
      trivial
    case neg =>
      simp only [hh, if_false, setAllowance]
      exact Function.update_of_ne (Ne.symm hh) ..

theorem Keeps.counts (h : s.Keeps s') (hm : ∀ p v r s', m.action ≠ .permit p v r s') :
    Counts evm s m s' := by
  refine ⟨fun p v r s' e => absurd e (hm p v r s'), h.domain, fun holder => ?_⟩
  have hn : m.permitNonce holder = none := by
    unfold Message.permitNonce
    split
    case h_1 p v r s' e => exact absurd e (hm p v r s')
    case h_2 => rfl
  rw [hn]
  exact congrFun h.nonces holder

theorem exec_counts (h : exec evm s m = .ok s') : Counts evm s m s' := by
  obtain ⟨sender, b, action⟩ := m
  cases action
  case permit => exact permit_counts h
  all_goals refine Keeps.counts ?_ fun _ _ _ _ e => nomatch e
  case transfer     => exact (transferFrom_eq_ok h).right
  case transferFrom => exact (transferFrom_eq_ok h).right
  case push         => exact (transferFrom_eq_ok h).right
  case pull         => exact (transferFrom_eq_ok h).right
  case move         => exact (transferFrom_eq_ok h).right
  case mint         => exact (mint_eq_ok h).right
  case burn         => exact (burn_eq_ok h).right
  case approve      => cases h; exact ⟨rfl, rfl⟩
  case rely | deny =>
    simp only [exec, rely, deny, Call.bind_eq_ok, Call.pure_eq_ok] at h
    obtain ⟨_, -, rfl⟩ := h
    exact ⟨rfl, rfl⟩

-- The permits of a holder are accepted in the order of their nonces, each of them once, and each of
-- them is signed by the holder.
theorem permits_in_order (h : run evm s ms = .ok s') :
    ms.filterMap (Message.permitNonce holder) =
      List.range' (s.nonces holder) (s'.nonces holder - s.nonces holder) ∧
    s.nonces holder ≤ s'.nonces holder ∧ ∀ m ∈ ms, m.Signed evm s := by
  induction ms generalizing s
  case nil => cases h; simp
  case cons m ms hi =>
    simp only [run, List.foldlM_cons, Call.bind_eq_ok] at h
    obtain ⟨s₁, hm, hms⟩ := h
    have hm := exec_counts hm
    obtain ⟨hr, hle, hs⟩ := hi hms
    have hs : ∀ m ∈ ms, m.Signed evm s := by
      simpa only [Message.Signed, digest, hm.domain] using hs
    have hn := hm.nonces holder
    have hs := List.forall_mem_cons.mpr ⟨hm.signed, hs⟩
    rw [List.filterMap_cons]
    cases hc : m.permitNonce holder
    case none =>
      simp only [hc] at hn ⊢
      rw [hn] at hr hle
      exact ⟨hr, hle, hs⟩
    case some n =>
      simp only [hc] at hn ⊢
      obtain ⟨rfl, hn⟩ := hn
      rw [Fin.le_def, hn] at hle
      refine ⟨?_, Fin.le_def.mpr (by omega), hs⟩
      have hl : (s'.nonces holder : ℕ) - s.nonces holder =
          s'.nonces holder - (s.nonces holder + 1) + 1 := by omega
      rw [hr, hn, hl, List.range'_succ]

namespace Presented

def alice : Address :=
  0x7e5f4552091a69125d5dfcb7b8c2659029395bdf

def lends : Permit where
  holder  := alice
  spender := 5
  nonce   := 0
  expiry  := 0
  allowed := true

def revokes : Permit :=
  { lends with nonce := 1, allowed := false }

-- What is hashed for a permit after the domain.
def lendsHash : Bytes32 :=
  0xea7319e19fd16a792f402ecc6dda4f80ab8a455ef5e9568b2a8e86317718f5ea

def revokesHash : Bytes32 :=
  0x4b6a6d03eabba66079e784e547b6550b72dff7bb4eb614139e3c54a0f1b8ec4d

def lendsDigest : Bytes32 :=
  0x15191ee7a2d78a8adacb80900a68a739517a7205f8f33b1f12d3fc4d749dfe46

def revokesDigest : Bytes32 :=
  0x91d264ca5b549d4dfde342bb2d19b501db7150b5602c365f9b31bd7458561379

def domain : Bytes32 :=
  0xe985405a1adda3763cf07f5ff37b005754bb10832d8c8a1b880929bbac8d8cad

-- The hashes and signatures of a deployment at address 9 on the chain with id 1, which `alice` has
-- given two permits.
def signatures : Evm where
  keccak256 input :=
    if input = Evm.encode [PERMIT_TYPEHASH, alice, 5, 0, 0, 1] then
      lendsHash
    else if input = Evm.encode [PERMIT_TYPEHASH, alice, 5, 1, 0, 0] then
      revokesHash
    else if input = [0x19, 0x01] ++ Evm.word domain ++ Evm.word lendsHash then
      lendsDigest
    else if input = [0x19, 0x01] ++ Evm.word domain ++ Evm.word revokesHash then
      revokesDigest
    else
      Minted.hashes.keccak256 input
  ecrecover digest v r s :=
    if (digest, v, r, s) = (lendsDigest, 27,
        0x5cbdf0646e5db4eaa398f365f2ea7a0e3d419b7e0330e39ce92bddedcac4f9bc,
        0x34d5947894be76c7a4577e47b679970a0a7cfceaaac6646c888bbef8023a75e5) then
      alice
    else if (digest, v, r, s) = (revokesDigest, 28,
        0x2f01e5e15cca351daff3843fb70f3c2f0a1bdd05e5af888a67784ef3e10a2a01,
        0x27e576aa88fc25b28a452720a37ae1d991fa11824316b031af9f56162ce188a1) then
      alice
    else
      0

-- Account 5 presents both of them.
def messages : List Message := [
  ⟨5, Minted.genesis, .permit lends 27
    0x5cbdf0646e5db4eaa398f365f2ea7a0e3d419b7e0330e39ce92bddedcac4f9bc
    0x34d5947894be76c7a4577e47b679970a0a7cfceaaac6646c888bbef8023a75e5⟩,
  ⟨5, Minted.genesis, .permit revokes 28
    0x2f01e5e15cca351daff3843fb70f3c2f0a1bdd05e5af888a67784ef3e10a2a01
    0x27e576aa88fc25b28a452720a37ae1d991fa11824316b031af9f56162ce188a1⟩
]

end Presented

theorem permits_in_order_presented : ∃ s',
    run Presented.signatures (init Presented.signatures 9 1 1) Presented.messages = .ok s' ∧
    Presented.messages.filterMap (Message.permitNonce Presented.alice) =
      List.range' 0 (s'.nonces Presented.alice) := by
  have hr : (run Presented.signatures (init Presented.signatures 9 1 1)
      Presented.messages).isOk = true := by
    decide +kernel
  cases h : run Presented.signatures (init Presented.signatures 9 1 1) Presented.messages
  case error => rw [h] at hr; cases hr
  case ok s' => exact ⟨s', rfl, (permits_in_order h).left⟩

end DaiMock
