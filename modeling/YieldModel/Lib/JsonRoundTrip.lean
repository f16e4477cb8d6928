import YieldModel.Lib.Json

open Utf16

-- What has been printed is parsed as what it was.

namespace Json

section RoundTrip

variable {c d : Uint 16} {s t : Text} {v : Json} {vs : List Json} {ms : List (Text × Json)}

theorem unescapes_escapes {p : Uint 16 × Uint 16} (h : p ∈ escapes) :
    unescapes.lookup p.2 = some p.1 := by
  have ha : escapes.all fun p => unescapes.lookup p.2 = some p.1 := by decide
  simpa using List.all_eq_true.mp ha p h

theorem hexValue_hexDigit : ∀ n < 16, hexValue (hexDigit n) = some n := by
  decide +kernel

theorem unicode_hexDigit (c : Uint 16) : unicode (hexDigit (c / 4096 % 16))
    (hexDigit (c / 256 % 16)) (hexDigit (c / 16 % 16)) (hexDigit (c % 16)) = some c := by
  have hv (n : ℕ) : hexValue (hexDigit (n % 16)) = some (n % 16) :=
    hexValue_hexDigit _ (Nat.mod_lt _ (by decide))
  simp only [unicode, hv]
  have := c.isLt
  refine congrArg some (Fin.ext ?_)
  rw [Uint.truncate]
  dsimp only
  omega

theorem scan_quotation (t : Text) : scan (quotation :: t) = some ([], t) := by
  rw [scan.eq_def]
  exact if_pos rfl

theorem scan_escaped {e : Uint 16} (h : unescapes.lookup e = some c) (t : Text) :
    scan (backslash :: e :: t) = (scan t).map (Prod.map (c :: ·) id) := by
  rw [scan.eq_def]
  dsimp only
  rw [if_neg (by decide), if_pos rfl, h]

theorem scan_unicodeEscape (c : Uint 16) (t : Text) :
    scan (unicodeEscape c ++ t) = (scan t).map (Prod.map (c :: ·) id) := by
  have hu : unescapes.lookup (unit 'u') = none := by decide
  rw [unicodeEscape, scan.eq_def]
  simp only [List.cons_append, List.nil_append]
  rw [if_neg (by decide), if_pos trivial, hu]
  simp only [↓reduceIte, unicode_hexDigit]
  rfl

theorem scan_verbatim (h : escapes.lookup c = none) (hc : 0x20 ≤ (c : ℕ)) (t : Text) :
    scan (c :: t) = (scan t).map (Prod.map (c :: ·) id) := by
  have hq : c ≠ quotation := by rintro rfl; exact absurd h (by decide)
  have hb : c ≠ backslash := by rintro rfl; exact absurd h (by decide)
  rw [scan.eq_def]
  dsimp only
  rw [if_neg hq, if_neg hb, if_neg hc.not_gt]

theorem scan_escapeUnit (c : Uint 16) (t : Text) :
    scan (escapeUnit c ++ t) = (scan t).map (Prod.map (c :: ·) id) := by
  rw [escapeUnit]
  split
  case h_1 e he =>
    obtain ⟨l, l', hl, -⟩ := List.lookup_eq_some_iff.mp he
    exact scan_escaped (unescapes_escapes (p := (c, e)) (by simp [hl])) t
  case h_2 he =>
    split
    case isTrue     => exact scan_unicodeEscape c t
    case isFalse hc => exact scan_verbatim he (not_lt.mp (not_or.mp hc).1) t

theorem escapes_lookup_surrogate (h : Surrogate c) : escapes.lookup c = none := by
  have ha : escapes.all fun p => ¬Surrogate p.1 := by decide
  rw [List.lookup_eq_none_iff]
  intro p hp
  simp only [bne_iff_ne]
  rintro rfl
  simpa [h] using List.all_eq_true.mp ha p hp

theorem scan_surrogate (h : Surrogate c) (t : Text) :
    scan (c :: t) = (scan t).map (Prod.map (c :: ·) id) :=
  scan_verbatim (escapes_lookup_surrogate h) (le_trans (by decide) h.1) t

theorem scan_escape (s t : Text) : scan (escape s ++ quotation :: t) = some (s, t) := by
  induction s using escape.induct
  case case1 => exact scan_quotation t
  case case2 c =>
    rw [escape, scan_escapeUnit, scan_quotation]
    rfl
  case case3 c d s h hi =>
    have hc : Surrogate c := ⟨h.1.1, h.1.2.trans (by decide)⟩
    have hd : Surrogate d := ⟨le_trans (by decide) h.2.1, h.2.2⟩
    rw [escape, if_pos h, List.cons_append, List.cons_append, scan_surrogate hc, scan_surrogate hd,
      hi]
    rfl
  case case4 c d s h hi =>
    rw [escape, if_neg h, List.append_assoc, scan_escapeUnit, hi]
    rfl

theorem skip_of_not_isSpace (h : ¬IsSpace c) : skip (c :: t) = c :: t := by
  simp [skip, h]

theorem skip_append (h : ∀ c ∈ s, IsSpace c) : skip (s ++ t) = skip t := by
  induction s
  case nil => rfl
  case cons c s hi =>
    have ⟨hc, hs⟩ := List.forall_mem_cons.mp h
    rw [List.cons_append, skip, List.dropWhile_cons_of_pos (by simpa using hc)]
    exact hi hs

theorem expect_append (h : ∀ c ∈ s, IsSpace c) : expect c (s ++ t) = expect c t := by
  rw [expect, skip_append h, expect]

theorem expect_self (h : ¬IsSpace c) : expect c (c :: t) = some t := by
  rw [expect, skip_of_not_isSpace h]
  exact if_pos rfl

theorem expect_ne (h : ¬IsSpace d) (hd : d ≠ c) : expect c (d :: t) = none := by
  rw [expect, skip_of_not_isSpace h]
  exact if_neg hd

theorem value_append (h : ∀ c ∈ s, IsSpace c) (n : ℕ) : value n (s ++ t) = value n t := by
  cases n
  case zero   => rfl
  case succ n => rw [value, skip_append h, value]

theorem elements_append (h : ∀ c ∈ s, IsSpace c) (n : ℕ) :
    elements n (s ++ t) = elements n t := by
  cases n
  case zero   => rfl
  case succ n => rw [elements, value_append h, elements]

theorem members_append (h : ∀ c ∈ s, IsSpace c) (n : ℕ) :
    members n (s ++ t) = members n t := by
  cases n
  case zero   => rfl
  case succ n => rw [members, expect_append h, members]

theorem isSpace_newline (depth : ℕ) : ∀ c ∈ newline depth, IsSpace c := by
  intro c hc
  cases List.mem_cons.mp hc
  case inl hc => exact .inr (.inl hc)
  case inr hc => exact .inr (.inr (.inr (List.eq_of_mem_replicate hc)))

theorem print_head (depth : ℕ) (v : Json) :
    ∃ c t, print depth v = c :: t ∧ ¬IsSpace c ∧ c ≠ closeBracket := by
  cases v
  case null      => exact ⟨_, _, rfl, by decide, by decide⟩
  case bool b    => cases b <;> exact ⟨_, _, rfl, by decide, by decide⟩
  case string s  => exact ⟨quotation, _, rfl, by decide, by decide⟩
  case array vs  => cases vs <;> exact ⟨openBracket, _, rfl, by decide, by decide⟩
  case object ms => cases ms <;> exact ⟨openBrace, _, rfl, by decide, by decide⟩

theorem length_print_pos (depth : ℕ) (v : Json) : 0 < (print depth v).length := by
  have ⟨c, t, h, _⟩ := print_head depth v
  simp [h]

-- A printed value is found again, whatever follows it.
def Reads (v : Json) : Prop :=
  ∀ depth n t, 2 * (print depth v).length ≤ n → value n (print depth v ++ t) = some (v, t)

variable {depth depth' n : ℕ}

theorem expect_comma (t : Text) : expect comma (comma :: t) = some t :=
  expect_self (by decide)

theorem expect_colon (t : Text) : expect colon (colon :: t) = some t :=
  expect_self (by decide)

theorem expect_quote (k t : Text) :
    expect quotation (quote k ++ t) = some (escape k ++ quotation :: t) := by
  rw [quote, List.append_assoc, List.cons_append]
  exact expect_self (by decide)

theorem value_space (n : ℕ) (t : Text) : value n (space :: t) = value n t :=
  value_append (s := [space]) (by simp [IsSpace]) n

-- The end of a list.
theorem expect_closing {close : Uint 16} (h : close = closeBracket ∨ close = closeBrace)
    (depth : ℕ) (t : Text) :
    expect comma (newline depth ++ close :: t) = none ∧
    expect close (newline depth ++ close :: t) = some t := by
  rw [expect_append (isSpace_newline depth), expect_append (isSpace_newline depth)]
  cases h
  case inl h => exact ⟨expect_ne (h ▸ by decide) (h ▸ by decide), expect_self (h ▸ by decide)⟩
  case inr h => exact ⟨expect_ne (h ▸ by decide) (h ▸ by decide), expect_self (h ▸ by decide)⟩

theorem elements_print (hv : Reads v) (hs : ∀ v ∈ vs, Reads v)
    (hn : 2 * (print depth v ++ printElements depth vs).length < n) :
    elements n (print depth v ++ (printElements depth vs ++
      (newline depth' ++ closeBracket :: t))) = some (v :: vs, t) := by
  induction vs generalizing v n
  case nil =>
    obtain ⟨n, rfl⟩ := Nat.exists_eq_succ_of_ne_zero (Nat.ne_zero_of_lt hn)
    obtain ⟨hc, he⟩ := expect_closing (.inl rfl) depth' t
    rw [printElements, List.append_nil] at hn
    rw [elements, hv depth n _ (by omega), printElements, List.nil_append]
    simp only [Option.bind_eq_bind, Option.bind_some, hc, he]
    rfl
  case cons v' vs hi =>
    obtain ⟨n, rfl⟩ := Nat.exists_eq_succ_of_ne_zero (Nat.ne_zero_of_lt hn)
    obtain ⟨hv', hs⟩ := List.forall_mem_cons.mp hs
    have := length_print_pos depth v
    simp only [printElements, List.length_append, List.length_cons] at hn
    have hr : elements n (print depth v' ++ (printElements depth vs ++
        (newline depth' ++ closeBracket :: t))) = some (v' :: vs, t) :=
      hi hv' hs (by rw [List.length_append]; omega)
    rw [elements, hv depth n _ (by omega)]
    simp only [printElements, List.cons_append, List.append_assoc, Option.bind_eq_bind,
      Option.bind_some, expect_comma, elements_append (isSpace_newline depth), hr]
    rfl

theorem members_print {k : Text} (hv : Reads v) (hs : ∀ m ∈ ms, Reads m.2)
    (hn : 2 * (print depth v ++ printMembers depth ms).length < n) :
    members n (quote k ++ (colon :: space :: (print depth v ++ (printMembers depth ms ++
      (newline depth' ++ closeBrace :: t))))) = some ((k, v) :: ms, t) := by
  induction ms generalizing v k n
  case nil =>
    obtain ⟨n, rfl⟩ := Nat.exists_eq_succ_of_ne_zero (Nat.ne_zero_of_lt hn)
    obtain ⟨hc, he⟩ := expect_closing (.inr rfl) depth' t
    rw [printMembers, List.append_nil] at hn
    rw [members, expect_quote]
    simp only [Option.bind_eq_bind, Option.bind_some, scan_escape, expect_colon, value_space,
      hv depth n _ (by omega), printMembers, List.nil_append, hc, he]
    rfl
  case cons m ms hi =>
    obtain ⟨n, rfl⟩ := Nat.exists_eq_succ_of_ne_zero (Nat.ne_zero_of_lt hn)
    obtain ⟨k', v'⟩ := m
    obtain ⟨hv', hs⟩ := List.forall_mem_cons.mp hs
    have := length_print_pos depth v
    simp only [printMembers, List.length_append, List.length_cons] at hn
    have hr : members n (quote k' ++ (colon :: space :: (print depth v' ++ (printMembers depth ms ++
        (newline depth' ++ closeBrace :: t))))) = some ((k', v') :: ms, t) :=
      hi hv' hs (by rw [List.length_append]; omega)
    rw [members, expect_quote]
    simp only [printMembers, List.cons_append, List.append_assoc, List.nil_append,
      Option.bind_eq_bind, Option.bind_some, scan_escape, expect_colon, value_space,
      hv depth n _ (by omega), expect_comma, members_append (isSpace_newline depth), hr]
    rfl

theorem exists_fuel (h : 2 * (print depth v).length ≤ n) : ∃ m, n = m + 1 :=
  have := length_print_pos depth v
  Nat.exists_eq_succ_of_ne_zero (by omega)

theorem reads_null : Reads null := by
  intro depth n t hn
  obtain ⟨n, rfl⟩ := exists_fuel hn
  rfl

theorem reads_bool (b : Bool) : Reads (bool b) := by
  intro depth n t hn
  obtain ⟨n, rfl⟩ := exists_fuel hn
  cases b <;> rfl

theorem reads_string (s : Text) : Reads (string s) := by
  intro depth n t hn
  obtain ⟨n, rfl⟩ := exists_fuel hn
  rw [value, print, quote, List.append_assoc, List.cons_append, skip_of_not_isSpace (by decide)]
  dsimp only
  rw [if_pos rfl, List.singleton_append, scan_escape]
  rfl

theorem reads_array (h : ∀ v ∈ vs, Reads v) : Reads (array vs) := by
  intro depth n t hn
  obtain ⟨n, rfl⟩ := exists_fuel hn
  cases vs
  case nil => rfl
  case cons v vs =>
    have ⟨hv, hs⟩ := List.forall_mem_cons.mp h
    obtain ⟨c, u, hp, hc, hb⟩ := print_head (depth + 1) v
    have he (t : Text) : expect closeBracket
        (newline (depth + 1) ++ (print (depth + 1) v ++ t)) = none := by
      rw [expect_append (isSpace_newline _), hp, List.cons_append, expect_ne hc hb]
    have hr : elements n (print (depth + 1) v ++ (printElements (depth + 1) vs ++
        (newline depth ++ closeBracket :: t))) = some (v :: vs, t) := by
      refine elements_print hv hs ?_
      simp only [print, List.length_append, List.length_cons] at hn ⊢
      omega
    simp only [print, List.append_assoc, List.cons_append, List.nil_append]
    rw [value, skip_of_not_isSpace (by decide)]
    dsimp only
    rw [if_neg (by decide), if_pos rfl, he, elements_append (isSpace_newline _), hr]
    rfl

theorem reads_object (hk : (ms.map Prod.fst).Nodup) (h : ∀ m ∈ ms, Reads m.2) :
    Reads (object ms) := by
  intro depth n t hn
  obtain ⟨n, rfl⟩ := exists_fuel hn
  cases ms
  case nil => rfl
  case cons m ms =>
    have ⟨hv, hs⟩ := List.forall_mem_cons.mp h
    obtain ⟨k, v⟩ := m
    have he (t : Text) : expect closeBrace (newline (depth + 1) ++ (quote k ++ t)) = none := by
      rw [expect_append (isSpace_newline _), quote, List.append_assoc, List.cons_append]
      exact expect_ne (by decide) (by decide)
    have hr : members n (quote k ++ (colon :: space :: (print (depth + 1) v ++
        (printMembers (depth + 1) ms ++ (newline depth ++ closeBrace :: t))))) =
        some ((k, v) :: ms, t) := by
      refine members_print hv hs ?_
      simp only [print, List.length_append, List.length_cons] at hn ⊢
      omega
    simp only [print, List.append_assoc, List.cons_append, List.nil_append]
    rw [value, skip_of_not_isSpace (by decide)]
    dsimp only
    rw [if_neg (by decide), if_neg (by decide), if_pos rfl, he,
      members_append (isSpace_newline _), hr]
    simp only [Option.bind_eq_bind, Option.bind_some, OrderedMap.ofEntries_of_nodup hk]
    rfl

-- No object has two members with one key.
inductive Distinct : Json → Prop
  | null : Distinct null
  | bool (b : Bool) : Distinct (bool b)
  | string (s : Text) : Distinct (string s)
  | array {vs : List Json} : (∀ v ∈ vs, Distinct v) → Distinct (array vs)
  | object {ms : List (Text × Json)} :
    (ms.map Prod.fst).Nodup → (∀ m ∈ ms, Distinct m.2) → Distinct (object ms)

theorem Distinct.reads (h : Distinct v) : Reads v := by
  induction h
  case null              => exact reads_null
  case bool b            => exact reads_bool b
  case string s          => exact reads_string s
  case array vs _ hi     => exact reads_array hi
  case object ms hk _ hi => exact reads_object hk hi

theorem parse_print (h : Distinct v) : parse (print depth v) = some v := by
  have hr := h.reads depth (2 * (print depth v).length + 1) [] (Nat.le_succ _)
  rw [List.append_nil] at hr
  rw [parse, hr]
  rfl

end RoundTrip

section Closed

variable {c : Uint 16}

theorem not_surrogate_of_lt (h : (c : ℕ) < 0x80) : ¬Surrogate c :=
  fun hs => absurd (hs.1.trans_lt h) (by decide)

theorem hexDigit_lt : ∀ n < 16, (hexDigit n : ℕ) < 0x80 := by
  decide +kernel

theorem unicodeEscape_lt : ∀ d ∈ unicodeEscape c, (d : ℕ) < 0x80 := by
  have hd (n : ℕ) : (hexDigit (n % 16) : ℕ) < 0x80 := hexDigit_lt _ (Nat.mod_lt _ (by decide))
  simp only [unicodeEscape, List.forall_mem_cons, hd, true_and]
  exact ⟨by decide, by decide, fun _ h => absurd h List.not_mem_nil⟩

theorem escapeUnit_closed (c : Uint 16) : Closed (escapeUnit c) := by
  refine .of_forall ?_
  rw [escapeUnit]
  split
  case h_1 e he =>
    obtain ⟨l, l', hl, -⟩ := List.lookup_eq_some_iff.mp he
    have ha : escapes.all fun p => (p.2 : ℕ) < 0x80 := by decide
    have he : (e : ℕ) < 0x80 := by simpa using List.all_eq_true.mp ha (c, e) (by simp [hl])
    simp only [List.forall_mem_cons]
    exact ⟨by decide, not_surrogate_of_lt he, fun _ h => absurd h List.not_mem_nil⟩
  case h_2 he =>
    split
    case isTrue     => exact fun d hd => not_surrogate_of_lt (unicodeEscape_lt d hd)
    case isFalse hc => exact fun d hd => List.mem_singleton.mp hd ▸ (not_or.mp hc).2

theorem escape_closed (s : Text) : Closed (escape s) := by
  induction s using escape.induct
  case case1 => exact .nil
  case case2 c => exact escapeUnit_closed c
  case case3 c d s h hi =>
    rw [escape, if_pos h]
    exact .pair h.1 h.2 hi
  case case4 c d s h hi =>
    rw [escape, if_neg h]
    exact (escapeUnit_closed c).append hi

theorem quote_closed (s : Text) : Closed (quote s) :=
  .cons (by decide) ((escape_closed s).append (.cons (by decide) .nil))

theorem newline_closed (depth : ℕ) : Closed (newline depth) :=
  .cons (by decide) (.of_forall fun _ h => List.eq_of_mem_replicate h ▸ by decide)

mutual

theorem print_closed (depth : ℕ) : (v : Json) → Closed (print depth v)
  | null                  => .of_all (t := nullText) (by decide)
  | bool true             => .of_all (t := trueText) (by decide)
  | bool false            => .of_all (t := falseText) (by decide)
  | string s              => quote_closed s
  | array []              => .of_all (t := [openBracket, closeBracket]) (by decide)
  | array (v :: vs)       => by
    rw [print]
    exact (((Closed.cons (by decide) (newline_closed _)).append (print_closed _ v)).append
      (printElements_closed _ vs)).append (newline_closed _) |>.append (.of_all (by decide))
  | object []             => .of_all (t := [openBrace, closeBrace]) (by decide)
  | object ((k, v) :: ms) => by
    rw [print]
    exact (((((Closed.cons (by decide) (newline_closed _)).append (quote_closed k)).append
      (.of_all (by decide))).append (print_closed _ v)).append (printMembers_closed _ ms)).append
        (newline_closed _) |>.append (.of_all (by decide))

theorem printElements_closed (depth : ℕ) : (vs : List Json) → Closed (printElements depth vs)
  | []      => .nil
  | v :: vs => by
    rw [printElements]
    exact ((Closed.cons (by decide) (newline_closed _)).append (print_closed _ v)).append
      (printElements_closed _ vs)

theorem printMembers_closed (depth : ℕ) :
    (ms : List (Text × Json)) → Closed (printMembers depth ms)
  | []           => .nil
  | (k, v) :: ms => by
    rw [printMembers]
    exact ((((Closed.cons (by decide) (newline_closed _)).append (quote_closed k)).append
      (.of_all (by decide))).append (print_closed _ v)).append (printMembers_closed _ ms)

end

end Closed

end Json
