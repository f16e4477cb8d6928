import Mathlib
import YieldModel.Lib.Checked

-- Texts as the sequences of code units of which they consist in memory. Such a sequence need not be
-- well-formed: a surrogate can stand without the other half of its pair.

namespace Utf16

abbrev Text := List (Uint 16)

def unit (c : Char) : Uint 16 :=
  Uint.truncate 16 c.toNat

-- The text which consists of given characters, if these lie in the basic plane.
def text (cs : List Char) : Text :=
  cs.map unit

abbrev High (c : Uint 16) : Prop :=
  0xD800 ≤ (c : ℕ) ∧ (c : ℕ) < 0xDC00

abbrev Low (c : Uint 16) : Prop :=
  0xDC00 ≤ (c : ℕ) ∧ (c : ℕ) < 0xE000

abbrev Surrogate (c : Uint 16) : Prop :=
  0xD800 ≤ (c : ℕ) ∧ (c : ℕ) < 0xE000

def replacement : Uint 16 := 0xFFFD

-- What is left of a text that is encoded as UTF-8 and decoded again.
def toWellFormed : Text → Text
  | []          => []
  | [c]         => if Surrogate c then [replacement] else [c]
  | c :: d :: t =>
    if High c ∧ Low d then c :: d :: toWellFormed t
    else if Surrogate c then replacement :: toWellFormed (d :: t)
    else c :: toWellFormed (d :: t)

variable {t u : Text} {c d : Uint 16}

theorem toWellFormed_cons (h : ¬Surrogate c) : toWellFormed (c :: t) = c :: toWellFormed t := by
  have hh : ¬High c := fun hh => h ⟨hh.1, hh.2.trans (by decide)⟩
  cases t
  case nil => simp only [toWellFormed, if_neg h]
  case cons d t => rw [toWellFormed, if_neg (fun h => hh h.1), if_neg h]

-- A text whose surrogates have their other halves in it.
def Closed (t : Text) : Prop :=
  ∀ u, toWellFormed (t ++ u) = t ++ toWellFormed u

namespace Closed

theorem wellFormed (h : Closed t) : toWellFormed t = t := by
  simpa [toWellFormed] using h []

theorem nil : Closed [] :=
  fun _ => rfl

theorem append (ht : Closed t) (hu : Closed u) : Closed (t ++ u) :=
  fun v => by rw [List.append_assoc, ht, hu, List.append_assoc]

theorem cons (hc : ¬Surrogate c) (ht : Closed t) : Closed (c :: t) :=
  fun v => by rw [List.cons_append, toWellFormed_cons hc, ht, List.cons_append]

theorem pair (hc : High c) (hd : Low d) (ht : Closed t) : Closed (c :: d :: t) :=
  fun v => by
    rw [List.cons_append, List.cons_append, toWellFormed, if_pos ⟨hc, hd⟩, ht]
    rfl

theorem of_forall (h : ∀ c ∈ t, ¬Surrogate c) : Closed t := by
  induction t
  case nil => exact nil
  case cons c t hi =>
    have ⟨hc, ht⟩ := List.forall_mem_cons.mp h
    exact cons hc (hi ht)

theorem of_all (h : t.all fun c => ¬Surrogate c) : Closed t :=
  of_forall fun c hc => of_decide_eq_true (List.all_eq_true.mp h c hc)

end Closed

end Utf16
