import YieldModel.Lib.OrderedMap
import YieldModel.Lib.Utf16

open Utf16

-- JSON without numbers, as it is printed and parsed in ECMAScript.

inductive Json
  | null
  | bool (b : Bool)
  | string (s : Text)
  | array (vs : List Json)
  | object (ms : List (Text × Json))

namespace Json

def tab            : Uint 16 := 0x09
def lineFeed       : Uint 16 := 0x0A
def carriageReturn : Uint 16 := 0x0D
def space          : Uint 16 := 0x20
def quotation      : Uint 16 := 0x22
def comma          : Uint 16 := 0x2C
def colon          : Uint 16 := 0x3A
def openBracket    : Uint 16 := 0x5B
def backslash      : Uint 16 := 0x5C
def closeBracket   : Uint 16 := 0x5D
def openBrace      : Uint 16 := 0x7B
def closeBrace     : Uint 16 := 0x7D

def nullText : Text := text ['n', 'u', 'l', 'l']
def trueText : Text := text ['t', 'r', 'u', 'e']
def falseText : Text := text ['f', 'a', 'l', 's', 'e']

section Printing

-- The code units which have an escape of their own.
def escapes : List (Uint 16 × Uint 16) :=
  [(0x08, unit 'b'), (tab, unit 't'), (lineFeed, unit 'n'), (0x0C, unit 'f'),
    (carriageReturn, unit 'r'), (quotation, quotation), (backslash, backslash)]

def hexDigit (n : ℕ) : Uint 16 :=
  Uint.truncate 16 (if n < 10 then 48 + n else 87 + n)

def unicodeEscape (c : Uint 16) : Text :=
  [backslash, unit 'u', hexDigit (c / 4096 % 16), hexDigit (c / 256 % 16), hexDigit (c / 16 % 16),
    hexDigit (c % 16)]

def escapeUnit (c : Uint 16) : Text :=
  match escapes.lookup c with
  | some e => [backslash, e]
  | none   => if (c : ℕ) < 0x20 ∨ Surrogate c then unicodeEscape c else [c]

-- Surrogates are escaped unless they form a pair.
def escape : Text → Text
  | []          => []
  | [c]         => escapeUnit c
  | c :: d :: t =>
    if High c ∧ Low d then c :: d :: escape t else escapeUnit c ++ escape (d :: t)

def quote (s : Text) : Text :=
  quotation :: escape s ++ [quotation]

-- A line break and the indentation which follows it.
def newline (depth : ℕ) : Text :=
  lineFeed :: List.replicate (2 * depth) space

mutual

def print (depth : ℕ) : Json → Text
  | null                  => nullText
  | bool true             => trueText
  | bool false            => falseText
  | string s              => quote s
  | array []              => [openBracket, closeBracket]
  | array (v :: vs)       =>
    openBracket :: newline (depth + 1) ++ print (depth + 1) v ++ printElements (depth + 1) vs ++
      newline depth ++ [closeBracket]
  | object []             => [openBrace, closeBrace]
  | object ((k, v) :: ms) =>
    openBrace :: newline (depth + 1) ++ quote k ++ [colon, space] ++ print (depth + 1) v ++
      printMembers (depth + 1) ms ++ newline depth ++ [closeBrace]

def printElements (depth : ℕ) : List Json → Text
  | []      => []
  | v :: vs => comma :: newline depth ++ print depth v ++ printElements depth vs

def printMembers (depth : ℕ) : List (Text × Json) → Text
  | []           => []
  | (k, v) :: ms =>
    comma :: newline depth ++ quote k ++ [colon, space] ++ print depth v ++ printMembers depth ms

end

end Printing

section Parsing

def unescapes : List (Uint 16 × Uint 16) :=
  [(quotation, quotation), (backslash, backslash), (unit '/', unit '/'), (unit 'b', 0x08),
    (unit 'f', 0x0C), (unit 'n', lineFeed), (unit 'r', carriageReturn), (unit 't', tab)]

def hexValue (c : Uint 16) : Option ℕ :=
  if 48 ≤ (c : ℕ) ∧ (c : ℕ) < 58 then some (c - 48)
  else if 65 ≤ (c : ℕ) ∧ (c : ℕ) < 71 then some (c - 55)
  else if 97 ≤ (c : ℕ) ∧ (c : ℕ) < 103 then some (c - 87)
  else none

def unicode (a b c d : Uint 16) : Option (Uint 16) := do
  return Uint.truncate 16 (((← hexValue a) * 16 + (← hexValue b)) * 256 +
    ((← hexValue c) * 16 + (← hexValue d)))

-- What follows an opening quotation mark is split at the closing one.
def scan : Text → Option (Text × Text)
  | []     => none
  | c :: t =>
    if c = quotation then some ([], t)
    else if c = backslash then
      match t with
      | []     => none
      | e :: t =>
        match unescapes.lookup e with
        | some c => (scan t).map (Prod.map (c :: ·) id)
        | none   =>
          if e = unit 'u' then
            match t with
            | h₁ :: h₂ :: h₃ :: h₄ :: t => do
              let c ← unicode h₁ h₂ h₃ h₄
              (scan t).map (Prod.map (c :: ·) id)
            | _                         => none
          else none
    else if (c : ℕ) < 0x20 then none
    else (scan t).map (Prod.map (c :: ·) id)

def IsSpace (c : Uint 16) : Prop :=
  c = tab ∨ c = lineFeed ∨ c = carriageReturn ∨ c = space

instance {c : Uint 16} : Decidable (IsSpace c) :=
  inferInstanceAs (Decidable (_ ∨ _))

def skip (t : Text) : Text :=
  t.dropWhile fun c => IsSpace c

-- The rest of a text which goes on with a given code unit.
def expect (c : Uint 16) (t : Text) : Option Text :=
  match skip t with
  | []     => none
  | d :: t => if d = c then some t else none

def literal (t : Text) : Option (Json × Text) :=
  if nullText <+: t then some (null, t.drop nullText.length)
  else if trueText <+: t then some (bool true, t.drop trueText.length)
  else if falseText <+: t then some (bool false, t.drop falseText.length)
  else none

mutual

-- The fuel is used up by nesting and by the elements of a list.
def value : ℕ → Text → Option (Json × Text)
  | 0,     _ => none
  | n + 1, t =>
    match skip t with
    | []     => none
    | c :: t =>
      if c = quotation then do
        let (s, t) ← scan t
        return (string s, t)
      else if c = openBracket then
        match expect closeBracket t with
        | some t => some (array [], t)
        | none   => do
          let (vs, t) ← elements n t
          return (array vs, t)
      else if c = openBrace then
        match expect closeBrace t with
        | some t => some (object [], t)
        | none   => do
          let (ms, t) ← members n t
          return (object (OrderedMap.ofEntries ms), t)
      else literal (c :: t)

def elements : ℕ → Text → Option (List Json × Text)
  | 0,     _ => none
  | n + 1, t => do
    let (v, t) ← value n t
    match expect comma t with
    | some t =>
      let (vs, t) ← elements n t
      return (v :: vs, t)
    | none   =>
      let t ← expect closeBracket t
      return ([v], t)

def members : ℕ → Text → Option (List (Text × Json) × Text)
  | 0,     _ => none
  | n + 1, t => do
    let t ← expect quotation t
    let (k, t) ← scan t
    let t ← expect colon t
    let (v, t) ← value n t
    match expect comma t with
    | some t =>
      let (ms, t) ← members n t
      return ((k, v) :: ms, t)
    | none   =>
      let t ← expect closeBrace t
      return ([(k, v)], t)

end

def parse (t : Text) : Option Json := do
  let (v, t) ← value (2 * t.length + 1) t
  if skip t = [] then some v else none

end Parsing

section Fuel

variable {α : Type} {c : Uint 16} {s t u : Text} {m n k : ℕ}

-- A parser which leaves less than it has been given.
def Shortens (p : Text → Option (α × Text)) : Prop :=
  ∀ ⦃t a u⦄, p t = some (a, u) → u.length < t.length

theorem length_scan_of_map (hi : ∀ ⦃s u⦄, scan t = some (s, u) → u.length < t.length)
    (h : (scan t).map (Prod.map (c :: ·) id) = some (s, u)) : u.length < t.length := by
  obtain ⟨⟨s, u⟩, hs, he⟩ := Option.map_eq_some_iff.mp h
  cases he
  exact hi hs

theorem scan_shortens : Shortens scan := by
  intro t s u h
  induction t using scan.induct generalizing s u <;> rw [scan.eq_def] at h <;> dsimp only at h
  case case1 => cases h
  case case2 t =>
    rw [if_pos rfl] at h
    cases h
    simp
  case case3 =>
    rw [if_neg (by decide), if_pos rfl] at h
    cases h
  case case4 e t c hc hb hi =>
    rw [if_neg hb, if_pos rfl, hc] at h
    exact (length_scan_of_map hi h).trans (by simp)
  case case5 h₁ h₂ h₃ h₄ t hb hu hi =>
    rw [if_neg hb, if_pos rfl, hu] at h
    dsimp only at h
    rw [if_pos rfl] at h
    obtain ⟨c, -, h⟩ := Option.bind_eq_some_iff.mp h
    exact (length_scan_of_map hi h).trans (by simp; omega)
  case case6 t hl hb hu =>
    rw [if_neg hb, if_pos rfl, hu] at h
    dsimp only at h
    rw [if_pos rfl] at h
    split at h
    case h_1 => exact absurd rfl (hl _ _ _ _ _)
    case h_2 => cases h
  case case7 e t hu hn hb =>
    rw [if_neg hb, if_pos rfl, hu] at h
    dsimp only at h
    rw [if_neg hn] at h
    cases h
  case case8 c t hq hb hc =>
    rw [if_neg hq, if_neg hb, if_pos hc] at h
    cases h
  case case9 c t hq hb hc hi =>
    rw [if_neg hq, if_neg hb, if_neg hc] at h
    exact (length_scan_of_map hi h).trans (by simp)

theorem length_skip_le (t : Text) : (skip t).length ≤ t.length :=
  (List.dropWhile_sublist _).length_le

theorem length_expect (h : expect c t = some u) : u.length < t.length := by
  have hs := length_skip_le t
  rw [expect] at h
  split at h
  case h_1 => cases h
  case h_2 d u' he =>
    rw [he, List.length_cons] at hs
    split at h
    case isTrue  => cases h; exact hs
    case isFalse => cases h

theorem literal_shortens : Shortens literal := by
  intro t v u h
  have hd (l : Text) (hl : 0 < l.length) (hp : l <+: t) : (t.drop l.length).length < t.length := by
    have := hp.length_le
    rw [List.length_drop]
    omega
  rw [literal] at h
  split_ifs at h with h₁ h₂ h₃ <;> cases h
  case pos => exact hd _ (by decide) h₁
  case pos => exact hd _ (by decide) h₂
  case pos => exact hd _ (by decide) h₃

theorem value_shortens (he : Shortens (elements n)) (hm : Shortens (members n)) :
    Shortens (value (n + 1)) := by
  intro t v u h
  have hs := length_skip_le t
  rw [value] at h
  split at h
  case h_1 => cases h
  case h_2 c t' ht =>
    rw [ht, List.length_cons] at hs
    split_ifs at h
    case pos =>
      obtain ⟨⟨s, t''⟩, hc, h⟩ := Option.bind_eq_some_iff.mp h
      cases h
      exact (scan_shortens hc).trans hs
    case pos =>
      split at h
      case h_1 t'' hc =>
        cases h
        exact (length_expect hc).trans hs
      case h_2 =>
        obtain ⟨⟨vs, t''⟩, hc, h⟩ := Option.bind_eq_some_iff.mp h
        cases h
        exact (he hc).trans hs
    case pos =>
      split at h
      case h_1 t'' hc =>
        cases h
        exact (length_expect hc).trans hs
      case h_2 =>
        obtain ⟨⟨ms, t''⟩, hc, h⟩ := Option.bind_eq_some_iff.mp h
        cases h
        exact (hm hc).trans hs
    case neg => exact (literal_shortens h).trans_le hs

theorem elements_shortens (hv : Shortens (value n)) (he : Shortens (elements n)) :
    Shortens (elements (n + 1)) := by
  intro t vs u h
  rw [elements] at h
  obtain ⟨⟨v, t₁⟩, h₁, h⟩ := Option.bind_eq_some_iff.mp h
  dsimp only at h
  split at h
  case h_1 t₂ h₂ =>
    obtain ⟨⟨vs, t₃⟩, h₃, h⟩ := Option.bind_eq_some_iff.mp h
    cases h
    exact ((he h₃).trans (length_expect h₂)).trans (hv h₁)
  case h_2 =>
    obtain ⟨t₂, h₂, h⟩ := Option.bind_eq_some_iff.mp h
    cases h
    exact (length_expect h₂).trans (hv h₁)

theorem members_shortens (hv : Shortens (value n)) (hm : Shortens (members n)) :
    Shortens (members (n + 1)) := by
  intro t ms u h
  rw [members] at h
  obtain ⟨t₁, h₁, h⟩ := Option.bind_eq_some_iff.mp h
  obtain ⟨⟨k, t₂⟩, h₂, h⟩ := Option.bind_eq_some_iff.mp h
  obtain ⟨t₃, h₃, h⟩ := Option.bind_eq_some_iff.mp h
  obtain ⟨⟨v, t₄⟩, h₄, h⟩ := Option.bind_eq_some_iff.mp h
  have hl : t₄.length < t.length :=
    ((hv h₄).trans (length_expect h₃)).trans ((scan_shortens h₂).trans (length_expect h₁))
  dsimp only at h
  split at h
  case h_1 t₅ h₅ =>
    obtain ⟨⟨ms, t₆⟩, h₆, h⟩ := Option.bind_eq_some_iff.mp h
    cases h
    exact ((hm h₆).trans (length_expect h₅)).trans hl
  case h_2 =>
    obtain ⟨t₅, h₅, h⟩ := Option.bind_eq_some_iff.mp h
    cases h
    exact (length_expect h₅).trans hl

theorem shortens (n : ℕ) :
    Shortens (value n) ∧ Shortens (elements n) ∧ Shortens (members n) := by
  induction n
  case zero =>
    refine ⟨?_, ?_, ?_⟩ <;> exact fun _ _ _ h => by cases h
  case succ n hi =>
    have ⟨hv, he, hm⟩ := hi
    exact ⟨value_shortens he hm, elements_shortens hv he, members_shortens hv hm⟩

-- Two parsers which give the same for all texts up to a length.
def AgreeTo (k : ℕ) (p q : Text → Option (α × Text)) : Prop :=
  ∀ t, t.length ≤ k → p t = q t

theorem value_agrees (he : AgreeTo k (elements n) (elements m))
    (hm : AgreeTo k (members n) (members m)) : AgreeTo (k + 1) (value (n + 1)) (value (m + 1)) := by
  intro t ht
  have hs := length_skip_le t
  rw [value, value]
  split
  case h_1 => rfl
  case h_2 c t' hc =>
    rw [hc, List.length_cons] at hs
    rw [he t' (by omega), hm t' (by omega)]

theorem elements_agrees (hv : AgreeTo (k + 1) (value n) (value m))
    (he : AgreeTo k (elements n) (elements m)) :
    AgreeTo (k + 1) (elements (n + 1)) (elements (m + 1)) := by
  intro t ht
  rw [elements, elements, hv t ht]
  refine Option.bind_congr fun ⟨v, t₁⟩ h₁ => ?_
  have := (shortens m).1 h₁
  dsimp only
  split
  case h_1 t₂ h₂ =>
    have := length_expect h₂
    rw [he t₂ (by omega)]
  case h_2 => rfl

theorem members_agrees (hv : AgreeTo (k + 1) (value n) (value m))
    (hm : AgreeTo k (members n) (members m)) :
    AgreeTo (k + 1) (members (n + 1)) (members (m + 1)) := by
  intro t ht
  rw [members, members]
  refine Option.bind_congr fun t₁ h₁ => Option.bind_congr fun ⟨k, t₂⟩ h₂ =>
    Option.bind_congr fun t₃ h₃ => ?_
  have hl : t₃.length < t.length :=
    (length_expect h₃).trans ((scan_shortens h₂).trans (length_expect h₁))
  rw [hv t₃ (by omega)]
  refine Option.bind_congr fun ⟨v, t₄⟩ h₄ => ?_
  have := (shortens m).1 h₄
  dsimp only
  split
  case h_1 t₅ h₅ =>
    have := length_expect h₅
    rw [hm t₅ (by omega)]
  case h_2 => rfl

theorem agree (k : ℕ) : ∀ n m, 2 * k ≤ n → 2 * k ≤ m →
    AgreeTo k (value (n + 1)) (value (m + 1)) ∧
    AgreeTo k (elements (n + 2)) (elements (m + 2)) ∧
    AgreeTo k (members (n + 2)) (members (m + 2)) := by
  induction k
  case zero =>
    intro n m _ _
    refine ⟨fun t ht => ?_, fun t ht => ?_, fun t ht => ?_⟩ <;>
      rw [List.length_eq_zero_iff.mp (Nat.le_zero.mp ht)] <;> rfl
  case succ k hi =>
    intro n m hn hm
    obtain ⟨n, rfl⟩ := Nat.exists_eq_add_of_le' (by omega : 2 ≤ n)
    obtain ⟨m, rfl⟩ := Nat.exists_eq_add_of_le' (by omega : 2 ≤ m)
    have ⟨_, he, hs⟩ := hi n m (by omega) (by omega)
    have ⟨_, he', hs'⟩ := hi (n + 1) (m + 1) (by omega) (by omega)
    have hv := value_agrees he hs
    exact ⟨hv, elements_agrees hv he', members_agrees hv hs'⟩

-- More fuel would make no difference.
theorem value_fuel (h : 2 * t.length ≤ n) : value (2 * t.length + 1) t = value (n + 1) t :=
  (agree t.length _ n le_rfl h).1 t le_rfl

end Fuel

end Json
