import Mathlib

-- Maps which keep the order in which their keys were first set, as lists of entries.

namespace OrderedMap

variable {κ α β : Type} [DecidableEq κ] {k k' : κ} {v : α} {m m' : List (κ × α)}

abbrev keys (m : List (κ × α)) : List κ :=
  m.map Prod.fst

def set (k : κ) (v : α) : List (κ × α) → List (κ × α)
  | []     => [(k, v)]
  | e :: m => if e.1 = k then (e.1, v) :: m else e :: set k v m

-- All the entries of `m'` are set, in their order.
def union (m m' : List (κ × α)) : List (κ × α) :=
  m'.foldl (fun m e => set e.1 e.2 m) m

def ofEntries (es : List (κ × α)) : List (κ × α) :=
  union [] es

@[simp]
theorem union_nil : union m [] = m :=
  rfl

theorem union_cons {e : κ × α} : union m (e :: m') = union (set e.1 e.2 m) m' :=
  rfl

theorem union_append {m'' : List (κ × α)} : union m (m' ++ m'') = union (union m m') m'' :=
  List.foldl_append

theorem set_of_notMem (h : k ∉ keys m) : set k v m = m ++ [(k, v)] := by
  induction m
  case nil => rfl
  case cons e m hi =>
    simp only [keys, List.map_cons, List.mem_cons, not_or] at h
    rw [set, if_neg (Ne.symm h.1), hi h.2, List.cons_append]

theorem keys_set_of_mem (h : k ∈ keys m) : keys (set k v m) = keys m := by
  induction m
  case nil => cases h
  case cons e m hi =>
    rw [set]
    split
    case isTrue he => rfl
    case isFalse he =>
      have h : k ∈ keys m := (List.mem_cons.mp h).resolve_left (Ne.symm he)
      exact congrArg (e.1 :: ·) (hi h)

theorem nodup_set (h : (keys m).Nodup) : (keys (set k v m)).Nodup := by
  by_cases hk : k ∈ keys m
  case pos => rwa [keys_set_of_mem hk]
  case neg =>
    rw [set_of_notMem hk, keys, List.map_append]
    exact List.Nodup.append h (List.nodup_singleton k) (by simpa using hk)

theorem nodup_union (h : (keys m).Nodup) : (keys (union m m')).Nodup := by
  induction m' generalizing m
  case nil => exact h
  case cons e m' hi => exact hi (nodup_set h)

theorem union_of_nodup (h : (keys (m ++ m')).Nodup) : union m m' = m ++ m' := by
  induction m' generalizing m
  case nil => simp
  case cons e m' hi =>
    have hm : e.1 ∉ keys m := by
      intro he
      rw [keys, List.map_append] at h
      exact List.disjoint_of_nodup_append h he (by simp)
    rw [union_cons, set_of_notMem hm, hi (by rwa [List.append_assoc]), List.append_assoc]
    rfl

theorem ofEntries_of_nodup (h : (keys m).Nodup) : ofEntries m = m :=
  union_of_nodup h

theorem mem_set {e : κ × α} (h : e ∈ set k v m) : e.2 = v ∨ e ∈ m := by
  induction m
  case nil => simp_all [set]
  case cons e' m hi =>
    rw [set] at h
    split at h
    case isTrue =>
      cases List.mem_cons.mp h
      case inl h => exact .inl (h ▸ rfl)
      case inr h => exact .inr (List.mem_cons_of_mem _ h)
    case isFalse =>
      cases List.mem_cons.mp h
      case inl h => exact .inr (h ▸ List.mem_cons_self)
      case inr h => exact (hi h).imp_right (List.mem_cons_of_mem _)

theorem forall_union {p : α → Prop} (h : ∀ e ∈ m, p e.2) (h' : ∀ e ∈ m', p e.2) :
    ∀ e ∈ union m m', p e.2 := by
  induction m' generalizing m
  case nil => exact h
  case cons e m' hi =>
    have ⟨he, hm⟩ := List.forall_mem_cons.mp h'
    refine hi (fun e' he' => ?_) hm
    cases mem_set he'
    case inl hv => exact hv ▸ he
    case inr hm => exact h e' hm

section MapValues

variable (f : α → β)

def mapValues (m : List (κ × α)) : List (κ × β) :=
  m.map fun e => (e.1, f e.2)

omit [DecidableEq κ] in
@[simp]
theorem keys_mapValues : keys (mapValues f m) = keys m := by
  simp [keys, mapValues]

theorem mapValues_set : mapValues f (set k v m) = set k (f v) (mapValues f m) := by
  induction m
  case nil => rfl
  case cons e m hi =>
    simp only [mapValues, List.map_cons, set] at *
    split
    case isTrue  => rfl
    case isFalse => rw [List.map_cons, hi]

theorem mapValues_union : mapValues f (union m m') = union (mapValues f m) (mapValues f m') := by
  induction m' generalizing m
  case nil => rfl
  case cons e m' hi => rw [union_cons, hi, mapValues_set]; rfl

end MapValues

-- Further maps take precedence over the ones before.
def unions (m : List (κ × α)) (ms : List (List (κ × α))) : List (κ × α) :=
  ms.foldl union m

section Lookup

variable [BEq κ] [LawfulBEq κ] {ms : List (List (κ × α))}

theorem lookup_cons {e : κ × α} :
    (e :: m).lookup k = if k = e.1 then some e.2 else m.lookup k := by
  rw [List.lookup_cons]
  by_cases hk : k = e.1
  case pos => simp [hk]
  case neg => simp [hk, beq_false_of_ne hk]

theorem lookup_eq_none (h : k ∉ keys m) : m.lookup k = none := by
  induction m
  case nil => rfl
  case cons e m hi =>
    simp only [keys, List.map_cons, List.mem_cons, not_or] at h
    rw [lookup_cons, if_neg h.1, hi h.2]

theorem lookup_set : (set k v m).lookup k' = if k' = k then some v else m.lookup k' := by
  induction m
  case nil => rw [set, lookup_cons]
  case cons e m hi =>
    rw [set]
    split
    case isTrue he =>
      rw [lookup_cons, lookup_cons, he]
      split <;> rfl
    case isFalse he =>
      rw [lookup_cons, lookup_cons, hi]
      by_cases hk : k' = e.1
      case pos => simp [hk, he]
      case neg => simp [hk]

-- The entries of `m'` come first.
theorem lookup_union (h : (keys m').Nodup) :
    (union m m').lookup k = (m'.lookup k).or (m.lookup k) := by
  induction m' generalizing m
  case nil => simp
  case cons e m' hi =>
    have ⟨he, hm⟩ := List.nodup_cons.mp h
    rw [union_cons, hi hm, lookup_set, lookup_cons]
    by_cases hk : k = e.1
    case pos => simp only [if_pos hk, lookup_eq_none (hk ▸ he), Option.none_or, Option.some_or]
    case neg => simp only [if_neg hk]

theorem lookup_unions (h : ∀ m' ∈ ms, (keys m').Nodup) :
    (unions m ms).lookup k = (ms.reverse.findSome? (List.lookup k)).or (m.lookup k) := by
  induction ms generalizing m
  case nil => simp [unions]
  case cons m' ms hi =>
    have ⟨hm, hs⟩ := List.forall_mem_cons.mp h
    rw [unions, List.foldl_cons, ← unions, hi hs, lookup_union hm, List.reverse_cons,
      List.findSome?_append, List.findSome?_singleton, Option.or_assoc]

end Lookup

end OrderedMap
