import YieldModel.Liquidator.Keeper

open File

-- What is left of the state when the bot is started again.

namespace YieldLiquidator

def isWhitespace (b : UInt8) : Prop :=
  b = 0x20 ∨ b = 0x09 ∨ b = 0x0a ∨ b = 0x0d

instance (b : UInt8) : Decidable (isWhitespace b) :=
  inferInstanceAs (Decidable (_ ∨ _))

-- The encoding of the state. The order in which the entries of a map are written is not determined,
-- so that a state has several encodings.
structure Serde where
  emits      : State → Bytes → Prop
  fromReader : Bytes → Except String (Option State)

-- The reader inverts the writer. It skips white space after the value, and it fails on anything else.
structure Serde.Lawful (j : Serde) : Prop where
  inverts  : ∀ {s b w}, j.emits s b → (∀ x ∈ w, isWhitespace x) →
             j.fromReader (b ++ w) = .ok (some s)
  trailing : ∀ {s b w}, j.emits s b → (∃ x ∈ w, ¬isWhitespace x) →
             ∃ e, j.fromReader (b ++ w) = .error e
  closes   : ∀ {s b}, j.emits s b → ∃ x, b.getLast? = some x ∧ ¬isWhitespace x

-- The state with which the bot starts: `unwrap_or_default`.
def Serde.load (j : Serde) (disk : Bytes) : Option State :=
  (j.fromReader disk).toOption.getD none

namespace Run

-- A dump of a state into the file. The bytes which are written encode it.
def Dumps (j : Serde) (d : State × Bytes) (disk disk' : Bytes) : Prop :=
  ∃ (it : Iteration) (r : Run), r.disk = disk ∧ r.keeper.state = d.1 ∧
  it.toWriter d.1 = (d.2, true) ∧ j.emits d.1 d.2 ∧ ((log it).exec r).2.disk = disk'

-- A sequence of dumps, the last one of which is at the end.
inductive Dumped (j : Serde) (disk : Bytes) : List (State × Bytes) → Bytes → Prop
  | nil : Dumped j disk [] disk
  | dump {ds d disk' disk''} : Dumped j disk ds disk' → Dumps j d disk' disk'' →
    Dumped j disk (ds ++ [d]) disk''

variable {j : Serde} {d : State × Bytes} {ds : List (State × Bytes)} {disk disk' : Bytes}

theorem Dumps.disk_eq (h : Dumps j d disk disk') : disk' = write disk d.2 := by
  have ⟨it, r, hd, hs, hw, _, hl⟩ := h
  subst hd hl
  rw [← hs] at hw
  simp [log, Prog.exec_bind, Prog.assert, hw]

theorem Dumps.emits (h : Dumps j d disk disk') : j.emits d.1 d.2 :=
  have ⟨_, _, _, _, _, he, _⟩ := h
  he

theorem Dumped.disk_eq (h : Dumped j disk ds disk') : disk' = writes disk (ds.map Prod.snd) := by
  induction h
  case nil          => rfl
  case dump hd ih   => rw [List.map_append, List.map_singleton, writes_concat, ← ih, hd.disk_eq]

theorem Dumped.emits (h : Dumped j disk ds disk') : ∀ d ∈ ds, j.emits d.1 d.2 := by
  induction h
  case nil        => exact fun _ h => nomatch h
  case dump hd ih => exact List.forall_mem_append.mpr ⟨ih, List.forall_mem_singleton.mpr hd.emits⟩

theorem Dumped.load_iff (hj : j.Lawful) (h : Dumped j disk (ds ++ [d]) disk') :
    j.load disk' = some d.1 ↔
    (∀ d' ∈ ds, d'.2.length ≤ d.2.length) ∧ ∀ x ∈ disk.drop d.2.length, isWhitespace x := by
  have he := List.forall_mem_append.mp h.emits
  have hd := List.forall_mem_singleton.mp he.2
  have hw : (∀ x ∈ (writes disk (ds.map Prod.snd)).drop d.2.length, isWhitespace x) ↔ _ :=
    forall_drop_writes (List.forall_mem_map.mpr fun d' h' => hj.closes (he.1 d' h'))
  rw [List.forall_mem_map] at hw
  rw [h.disk_eq, List.map_append, List.map_singleton, writes_concat, ← hw, write, Serde.load]
  constructor
  case mp =>
    intro hl
    by_contra hn
    obtain ⟨x, hx, hn⟩ := not_forall₂.mp hn
    obtain ⟨e, he⟩ := hj.trailing hd ⟨x, hx, hn⟩
    rw [he] at hl
    cases hl
  case mpr =>
    intro hx
    rw [hj.inverts hd hx]
    rfl

end Run

-- A state with an auction, and a later one without.
def auctioning : State where
  auctions  := Finmap.singleton 1 true
  vaults    := ∅
  lastBlock := 10

def settled : State where
  auctions  := ∅
  vaults    := ∅
  lastBlock := 20

-- {"auctions":[[[0,0,0,0,0,0,0,0,0,0,0,1],true]],"vaults":[],"last_block":10}
def auctioningJson : Bytes :=
  [123, 34, 97, 117, 99, 116, 105, 111, 110, 115, 34, 58, 91, 91, 91, 48, 44, 48, 44, 48, 44,
    48, 44, 48, 44, 48, 44, 48, 44, 48, 44, 48, 44, 48, 44, 48, 44, 49, 93, 44, 116, 114, 117,
    101, 93, 93, 44, 34, 118, 97, 117, 108, 116, 115, 34, 58, 91, 93, 44, 34, 108, 97, 115, 116,
    95, 98, 108, 111, 99, 107, 34, 58, 49, 48, 125]

-- {"auctions":[],"vaults":[],"last_block":20}
def settledJson : Bytes :=
  [123, 34, 97, 117, 99, 116, 105, 111, 110, 115, 34, 58, 91, 93, 44, 34, 118, 97, 117, 108,
    116, 115, 34, 58, 91, 93, 44, 34, 108, 97, 115, 116, 95, 98, 108, 111, 99, 107, 34, 58, 50,
    48, 125]

-- The encodings of finitely many states, none of which is the beginning of another one.
structure Serde.Table where
  entries    : List (State × Bytes)
  prefixFree : ∀ e ∈ entries, ∀ e' ∈ entries, e.2 <+: e'.2 → e = e'
  closes     : ∀ e ∈ entries, ∃ x, e.2.getLast? = some x ∧ ¬isWhitespace x

namespace Serde.Table

def accepts (b : Bytes) (e : State × Bytes) : Prop :=
  e.2 <+: b ∧ ∀ x ∈ b.drop e.2.length, isWhitespace x

instance (b : Bytes) (e : State × Bytes) : Decidable (accepts b e) :=
  inferInstanceAs (Decidable (_ ∧ _))

def serde (t : Table) : Serde where
  emits s b    := (s, b) ∈ t.entries
  fromReader b :=
    match t.entries.find? (accepts b) with
    | some e => .ok (some e.1)
    | none   => .error "expected value"

variable {t : Table} {e e' : State × Bytes} {w : Bytes}

theorem eq_of_prefix (he : e ∈ t.entries) (he' : e' ∈ t.entries) (h : e'.2 <+: e.2 ++ w) :
    e' = e := by
  cases Nat.le_total e'.2.length e.2.length
  case inl hl =>
    exact t.prefixFree e' he' e he (List.prefix_of_prefix_length_le h (List.prefix_append ..) hl)
  case inr hl =>
    have hp := List.prefix_of_prefix_length_le (List.prefix_append e.2 w) h hl
    exact (t.prefixFree e he e' he' hp).symm

theorem lawful (t : Table) : t.serde.Lawful where
  inverts {s b w} h hw := by
    have ha : accepts (b ++ w) (s, b) := ⟨List.prefix_append .., by simpa using hw⟩
    cases hf : t.entries.find? (accepts (b ++ w))
    case none   => simpa [ha] using List.find?_eq_none.mp hf _ h
    case some e =>
      have ⟨hp, _⟩ : accepts (b ++ w) e := by simpa using List.find?_some hf
      have he : e = (s, b) := eq_of_prefix h (List.mem_of_find?_eq_some hf) hp
      simp [serde, hf, he]
  trailing {s b w} h hw := by
    have ⟨x, hx, hn⟩ := hw
    cases hf : t.entries.find? (accepts (b ++ w))
    case none   => exact ⟨"expected value", by simp [serde, hf]⟩
    case some e =>
      have ⟨hp, ha⟩ : accepts (b ++ w) e := by simpa using List.find?_some hf
      have he : e = (s, b) := eq_of_prefix h (List.mem_of_find?_eq_some hf) hp
      subst he
      exact absurd (ha x (by simpa using hx)) hn
  closes h := t.closes _ h

end Serde.Table

def twoStates : Serde.Table where
  entries    := [(auctioning, auctioningJson), (settled, settledJson)]
  prefixFree := by
    simp only [List.forall_mem_cons, List.not_mem_nil, false_implies, implies_true, and_true,
      true_and]
    exact ⟨fun h => absurd h (by decide +kernel), fun h => absurd h (by decide +kernel)⟩
  closes     := by
    simp only [List.forall_mem_cons, List.not_mem_nil, false_implies, implies_true, and_true]
    exact ⟨⟨125, by decide +kernel, by decide⟩, 125, by decide +kernel, by decide⟩

-- An iteration in which `b` is written.
def Iteration.writing (b : Bytes) : Iteration where
  filterChanges := .ok ()
  newFilter     := .ok ()
  blockNumber   := .ok 10
  block         := .ok none
  opens         := true
  toWriter _    := (b, true)
  node          := .single 1

theorem Run.dumps {s : State} {b disk : Bytes} {j : Serde} (h : j.emits s b) :
    Dumps j (s, b) disk (write disk b) :=
  ⟨.writing b, .start (.new ∅ 0 (some s)) disk none, rfl, rfl, rfl, h, rfl⟩

theorem Run.Dumped.load_iff_settled :
    twoStates.serde.load (write (write [] settledJson) auctioningJson) = some auctioning := by
  have h : Dumped twoStates.serde [] ([(settled, settledJson)] ++ [(auctioning, auctioningJson)])
      (write (write [] settledJson) auctioningJson) :=
    .dump (.dump .nil (dumps (by simp [Serde.Table.serde, twoStates])))
      (dumps (by simp [Serde.Table.serde, twoStates]))
  exact (load_iff twoStates.lawful h).mpr ⟨by decide +kernel, by simp⟩

-- The later state is the shorter one, so the end of the earlier one is left in the file.
theorem Run.Dumped.not_load : ¬∀ (j : Serde) disk ds d disk', j.Lawful →
    Dumped j disk (ds ++ [d]) disk' → j.load disk' = some d.1 := by
  intro hl
  have h : Dumped twoStates.serde [] ([(auctioning, auctioningJson)] ++ [(settled, settledJson)])
      (write (write [] auctioningJson) settledJson) :=
    .dump (.dump .nil (dumps (by simp [Serde.Table.serde, twoStates])))
      (dumps (by simp [Serde.Table.serde, twoStates]))
  have hn : twoStates.serde.load (write (write [] auctioningJson) settledJson) = none := by
    decide +kernel
  exact absurd (hn.symm.trans (hl _ _ _ _ _ twoStates.lawful h)) nofun

end YieldLiquidator
