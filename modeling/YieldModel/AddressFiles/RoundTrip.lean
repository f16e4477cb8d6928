import YieldModel.AddressFiles.Basic
import YieldModel.Lib.JsonRoundTrip

open Utf16

-- Maps which consist of strings and such maps are found again in their files.

namespace AddressFiles

open OrderedMap (keys)

variable {v : Value} {es m : Entries} {n : ℕ}

-- The values of address files.
inductive Nested : Value → Prop
  | string (s : Text) : Nested (.string s)
  | map {es : Entries} : (keys es).Nodup → (∀ e ∈ es, Nested e.2) → Nested (.map es)

section Encoding

mutual

-- How values are kept, regardless of the order in which they are replaced.
def encode : Value → Json
  | .null      => .null
  | .bool b    => .bool b
  | .string s  => .string s
  | .array vs  => .array (encodeElements vs)
  | .object ps => .object (encodeProperties ps)
  | .map es    => .object [(dataTypeKey, .string mapTag), (valueKey, .array (encodeEntries es))]

def encodeElements : List Value → List Json
  | []      => []
  | v :: vs => encode v :: encodeElements vs

def encodeProperties : List (Text × Value) → List (Text × Json)
  | []           => []
  | (k, v) :: ps => (k, encode v) :: encodeProperties ps

def encodeEntries : Entries → List Json
  | []           => []
  | (k, v) :: es => .array [.string k, encode v] :: encodeEntries es

end

theorem depth_pos (v : Value) : 0 < depth v := by
  cases v <;> simp [depth]

-- What is returned for a map is an object, whose property `value` is an array of arrays.
theorem stringify_map (es : Entries) (n : ℕ) : stringify replacer (n + 3) (.map es) = do
    let js ← es.mapM fun e => do
      return .array (← [Value.string e.1, e.2].mapM (stringify replacer n))
    return .object [(dataTypeKey, .string mapTag), (valueKey, .array js)] := by
  have hp : stringify replacer (n + 2) (.array (es.map fun e => .array [.string e.1, e.2])) = do
      return .array (← es.mapM fun e => do
        return .array (← [Value.string e.1, e.2].mapM (stringify replacer n))) := by
    rw [stringify]
    simp only [replacer, List.mapM_map]
    rfl
  generalize (es.mapM fun e => do
    return Json.array (← [Value.string e.1, e.2].mapM (stringify replacer n))) = js at hp ⊢
  rw [stringify]
  simp only [replacer, List.mapM_cons, List.mapM_nil, hp]
  cases js <;> rfl

-- By recursion over the value, from the top: what is left of the stack suffices for its parts, and a
-- map takes three levels of it.
mutual

theorem stringify_eq : (v : Value) → (n : ℕ) → depth v ≤ n →
    stringify replacer n v = .ok (encode v)
  | .null,      n + 1, _ => rfl
  | .bool _,    n + 1, _ => rfl
  | .string _,  n + 1, _ => rfl
  | .array vs,  n + 1, h => by
    have hs := stringifyElements_eq vs n (by simp only [depth] at h; omega)
    simp only [stringify, replacer, encode, hs]
    rfl
  | .object ps, n + 1, h => by
    have hs := stringifyProperties_eq ps n (by simp only [depth] at h; omega)
    simp only [stringify, replacer, encode, hs]
    rfl
  | .map es,    n + 3, h => by
    have hs := stringifyEntries_eq es n (by simp only [depth] at h; omega)
    simp only [stringify_map, encode, hs]
    rfl
  | v,          0,     h => absurd h (depth_pos v).not_ge
  | .map es,    1,     h => absurd h (by simp only [depth]; omega)
  | .map es,    2,     h => absurd h (by simp only [depth]; omega)

theorem stringifyElements_eq : (vs : List Value) → (n : ℕ) → depthElements vs ≤ n →
    vs.mapM (stringify replacer n) = .ok (encodeElements vs)
  | [],      n, _ => rfl
  | v :: vs, n, h => by
    have hv := stringify_eq v n (by simp only [depthElements] at h; omega)
    have hs := stringifyElements_eq vs n (by simp only [depthElements] at h; omega)
    rw [List.mapM_cons, hv, hs]
    rfl

theorem stringifyProperties_eq : (ps : List (Text × Value)) → (n : ℕ) → depthEntries ps ≤ n →
    (ps.mapM fun (k, v) => do return (k, ← stringify replacer n v)) = .ok (encodeProperties ps)
  | [],           n, _ => rfl
  | (k, v) :: ps, n, h => by
    have hv := stringify_eq v n (by simp only [depthEntries] at h; omega)
    have hs := stringifyProperties_eq ps n (by simp only [depthEntries] at h; omega)
    rw [List.mapM_cons, hs]
    dsimp only
    rw [hv]
    rfl

theorem stringifyEntries_eq : (es : Entries) → (n : ℕ) → depthEntries es ≤ n →
    (es.mapM fun e => do return Json.array (← [Value.string e.1, e.2].mapM (stringify replacer n))) =
    .ok (encodeEntries es)
  | [],           n, _ => rfl
  | (k, v) :: es, n, h => by
    have hd : depth v ≤ n := by simp only [depthEntries] at h; omega
    have hk := stringify_eq (.string k) n ((depth_pos v).trans_le hd)
    have hv := stringify_eq v n hd
    have hs := stringifyEntries_eq es n (by simp only [depthEntries] at h; omega)
    rw [List.mapM_cons, hs]
    simp only [List.mapM_cons, hk, hv]
    rfl

end

end Encoding

section Decoding

theorem encodeEntries_eq (es : Entries) :
    encodeEntries es = es.map fun e => .array [.string e.1, encode e.2] := by
  induction es
  case nil => rfl
  case cons e es hi => rw [encodeEntries, hi]; rfl

theorem mapM_entry (es : Entries) :
    (es.map fun e => Value.array [.string e.1, e.2]).mapM entry = .ok es := by
  induction es
  case nil => rfl
  case cons e es hi =>
    rw [List.map_cons, List.mapM_cons, hi]
    rfl

theorem reviveElements_entries (h : ∀ e ∈ es, revive reviver (encode e.2) = .ok e.2) :
    reviveElements reviver (encodeEntries es) =
    .ok (es.map fun e => .array [.string e.1, e.2]) := by
  induction es
  case nil => rfl
  case cons e es hi =>
    have ⟨he, hs⟩ := List.forall_mem_cons.mp h
    rw [encodeEntries, reviveElements, hi hs]
    simp only [revive, reviveElements, he]
    rfl

-- By induction on how a value is nested: its parts have been revived before it is.
theorem Nested.revive_encode (h : Nested v) : revive reviver (encode v) = .ok v := by
  induction h
  case string s => rfl
  case map es hk _ hi =>
    have hl : newMap (some (.array (es.map fun e => .array [.string e.1, e.2]))) =
        .ok (.map es) := by
      simp only [newMap, entries, mapM_entry]
      exact congrArg (Except.ok ∘ Value.map) (OrderedMap.ofEntries_of_nodup hk)
    simp only [encode, revive, reviveMembers, reviveElements_entries hi]
    exact hl

theorem Nested.distinct (h : Nested v) : (encode v).Distinct := by
  induction h
  case string s => exact .string s
  case map es _ _ hi =>
    rw [encode, encodeEntries_eq]
    refine .object (by simp; decide) ?_
    simp only [List.forall_mem_cons, List.not_mem_nil, false_imp_iff, implies_true, and_true]
    refine ⟨.string _, .array ?_⟩
    intro j hj
    obtain ⟨e, he, rfl⟩ := List.mem_map.mp hj
    refine .array ?_
    simp only [List.forall_mem_cons, List.not_mem_nil, false_imp_iff, implies_true, and_true]
    exact ⟨.string _, hi e he⟩

end Decoding

section Flattening

-- A contract is kept as its address.
def flatten : Value → Value
  | .object ps => (ps.lookup addressKey).getD (.object ps)
  | v          => v

-- What can be kept at the top of a file.
inductive Storable : Value → Prop
  | nested {v : Value} : Nested v → Storable v
  | contract {ps : List (Text × Value)} {address : Text} :
    ps.lookup addressKey = some (.string address) → Storable (.object ps)

theorem Nested.flatten_eq (h : Nested v) : flatten v = v := by
  cases h <;> rfl

theorem Storable.nested_flatten (h : Storable v) : Nested (flatten v) := by
  cases h
  case nested h   => exact h.flatten_eq.symm ▸ h
  case contract h => rw [flatten, h]; exact .string _

theorem Storable.flatten_eq (h : Storable v) :
    ∃ a, addressOf v = .ok a ∧ a.getD v = flatten v := by
  cases h
  case nested h   => cases h <;> exact ⟨none, rfl, rfl⟩
  case contract h => exact ⟨_, rfl, rfl⟩

theorem flattenContractMap_eq (hk : (keys es).Nodup) (h : ∀ e ∈ es, Storable e.2) :
    flattenContractMap es = .ok (OrderedMap.mapValues flatten es) := by
  suffices hs : ∀ flat : Entries, es.foldlM (fun flat (key, value) => do
      return OrderedMap.set key ((← addressOf value).getD value) flat) flat =
      .ok (OrderedMap.union flat (OrderedMap.mapValues flatten es)) by
    refine (hs []).trans (congrArg _ (OrderedMap.ofEntries_of_nodup ?_))
    rwa [OrderedMap.keys_mapValues]
  clear hk
  induction es
  case nil => exact fun _ => rfl
  case cons e es hi =>
    intro flat
    have ⟨he, hs⟩ := List.forall_mem_cons.mp h
    obtain ⟨a, ha, hf⟩ := he.flatten_eq
    rw [List.foldlM_cons]
    simp only [ha]
    refine (hi hs _).trans ?_
    simp only [hf]
    rfl

end Flattening

section RoundTrip

theorem mapToJson_eq (hk : (keys es).Nodup) (h : ∀ e ∈ es, Storable e.2) :
    mapToJson es = .ok ((encode (.map (OrderedMap.mapValues flatten es))).print 0) := by
  rw [mapToJson, flattenContractMap_eq hk h]
  change (stringify replacer _ _ >>= _) = _
  rw [stringify_eq _ _ le_rfl]
  rfl

theorem Nested.jsonToMap_print (h : Nested v) (d : ℕ) :
    jsonToMap ((encode v).print d) = .ok v := by
  rw [jsonToMap, Json.parse_print h.distinct]
  exact h.revive_encode

theorem Nested.mapValues_flatten (h : Nested (.map m)) : OrderedMap.mapValues flatten m = m := by
  cases h
  case map _ h =>
    refine (List.map_congr_left fun e he => ?_).trans (List.map_id m)
    rw [(h e he).flatten_eq]
    rfl

theorem Nested.mapToJson_encode (h : Nested (.map m)) :
    mapToJson m = .ok ((encode (.map m)).print 0) := by
  cases h
  case map hk hv =>
    have hf := (Nested.map hk hv).mapValues_flatten
    rw [mapToJson_eq hk fun e he => .nested (hv e he), hf]

end RoundTrip

end AddressFiles
