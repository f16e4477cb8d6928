import YieldModel.AddressFiles.RoundTrip
import YieldModel.Governance.Deployment

open Utf16

-- A file which is written again and again holds everything that has been written, where later
-- arguments take precedence.

namespace AddressFiles

open OrderedMap (keys union unions mapValues)

variable {m : Entries} {file : File} {arg : MapOrDictionary} {args : List MapOrDictionary}

def MapOrDictionary.entries : MapOrDictionary → Entries
  | .map es        => es
  | .dictionary es => es

-- What an argument adds to a file.
def MapOrDictionary.addresses (arg : MapOrDictionary) : Entries :=
  mapValues flatten arg.entries

structure MapOrDictionary.Storable (arg : MapOrDictionary) : Prop where
  nodup  : (keys arg.entries).Nodup
  values : ∀ e ∈ arg.entries, AddressFiles.Storable e.2

theorem MapOrDictionary.Storable.nodup_addresses (ha : arg.Storable) :
    (keys arg.addresses).Nodup := by
  rw [addresses, OrderedMap.keys_mapValues]
  exact ha.nodup

def Holds (file : File) (m : Entries) : Prop :=
  readAddressMappingIfExists file = .ok (.map m)

-- Nothing of a printed text is lost in the encoding of the file.
theorem holds_print (h : Nested (.map m)) :
    Holds (some (toWellFormed ((encode (.map m)).print 0))) m := by
  rw [(Json.print_closed 0 _).wellFormed]
  exact h.jsonToMap_print 0

theorem update_eq (h : (keys m).Nodup) (arg : MapOrDictionary) :
    update (.map m) arg = .ok (union m arg.entries) := by
  cases arg
  case map es =>
    change Except.ok (union [] (m ++ es)) = _
    rw [OrderedMap.union_append, ← OrderedMap.ofEntries, OrderedMap.ofEntries_of_nodup h]
    rfl
  case dictionary es => rfl

theorem Nested.union_addresses (hm : Nested (.map m)) (ha : arg.Storable) :
    Nested (.map (union m arg.addresses)) := by
  cases hm
  case map hk hv =>
    refine .map (OrderedMap.nodup_union hk) (OrderedMap.forall_union hv fun e he => ?_)
    obtain ⟨e', he', rfl⟩ := List.mem_map.mp he
    exact (ha.values e' he').nested_flatten

theorem Nested.exists_writeAddressMap (hm : Nested (.map m)) (hf : Holds file m) (ha : arg.Storable) :
    ∃ file', writeAddressMap file arg = .ok file' ∧ Holds file' (union m arg.addresses) := by
  have hu := hm.union_addresses ha
  refine ⟨_, ?_, holds_print hu⟩
  cases hm
  case map hk hv =>
    have hs : ∀ e ∈ union m arg.entries, AddressFiles.Storable e.2 :=
      OrderedMap.forall_union (fun e he => .nested (hv e he)) ha.values
    have hj := mapToJson_eq (OrderedMap.nodup_union hk) hs
    rw [OrderedMap.mapValues_union, (Nested.map hk hv).mapValues_flatten] at hj
    rw [writeAddressMap, hf]
    change (update (.map m) arg >>= _) = _
    rw [update_eq hk]
    change (mapToJson _ >>= _) = _
    rw [hj]
    rfl

def writeAddressMaps (file : File) (args : List MapOrDictionary) : Call File :=
  args.foldlM writeAddressMap file

theorem Nested.exists_writeAddressMaps (hm : Nested (.map m)) (hf : Holds file m)
    (ha : ∀ arg ∈ args, arg.Storable) : ∃ file', writeAddressMaps file args = .ok file' ∧
      Holds file' (unions m (args.map MapOrDictionary.addresses)) := by
  induction args generalizing m file
  case nil => exact ⟨file, rfl, hf⟩
  case cons arg args hi =>
    have ⟨ha, hs⟩ := List.forall_mem_cons.mp ha
    obtain ⟨file₁, hw, hf⟩ := hm.exists_writeAddressMap hf ha
    obtain ⟨file₂, hws, hf⟩ := hi (hm.union_addresses ha) hf hs
    refine ⟨file₂, ?_, hf⟩
    rw [writeAddressMaps, List.foldlM_cons, hw]
    exact hws

section Deployment

open Governance

-- The script which deploys contracts sees the maps as functions, where `textOf` are the code units
-- of its strings.
def Represents (textOf : String → Text) (m : Entries) (map : Deploy.AddressMap) : Prop :=
  ∀ k, m.lookup (textOf k) = (map k).map fun address => .string (textOf address)

theorem Represents.union {textOf : String → Text} {map map' : Deploy.AddressMap}
    (h : Represents textOf m map) (h' : Represents textOf arg.addresses map')
    (ha : arg.Storable) :
    Represents textOf (union m arg.addresses) fun k => (map' k).or (map k) := by
  intro k
  rw [OrderedMap.lookup_union ha.nodup_addresses, h k, h' k]
  exact Option.map_or.symm

-- What it expects of `writeAddressMap` is what happens to the file.
theorem Represents.exists_writeAddressMap {textOf : String → Text} {w : Deploy.World}
    {out_file : String} {map : Deploy.AddressMap} (hm : Nested (.map m)) (hf : Holds file m)
    (h : Represents textOf m (Deploy.readAddressMappingIfExists w out_file))
    (ha : arg.Storable) (h' : Represents textOf arg.addresses map) :
    ∃ file' m', writeAddressMap file arg = .ok file' ∧ Holds file' m' ∧
      Represents textOf m' (Deploy.readAddressMappingIfExists
        (Deploy.writeAddressMap w out_file map) out_file) := by
  obtain ⟨file', hw, hf'⟩ := hm.exists_writeAddressMap hf ha
  refine ⟨file', _, hw, hf', ?_⟩
  simp only [Deploy.readAddressMappingIfExists, Deploy.writeAddressMap, Function.update_self]
  exact h.union h' ha

end Deployment

-- Maps are found again, and a file holds the union of all that has been written to it.
theorem nothing_lost :
    (∀ m : Entries, Nested (.map m) →
      ∃ json, mapToJson m = .ok json ∧ jsonToMap json = .ok (.map m)) ∧
    ∀ (file : File) (m : Entries), readAddressMappingIfExists file = .ok (.map m) →
      Nested (.map m) → ∀ args : List MapOrDictionary, (∀ arg ∈ args, arg.Storable) →
        ∃ file', writeAddressMaps file args = .ok file' ∧
          readAddressMappingIfExists file' =
            .ok (.map (unions m (args.map MapOrDictionary.addresses))) ∧
          ∀ k, (unions m (args.map MapOrDictionary.addresses)).lookup k =
            ((args.map MapOrDictionary.addresses).reverse.findSome? (List.lookup k)).or
              (m.lookup k) := by
  refine ⟨fun m hm => ⟨_, hm.mapToJson_encode, hm.jsonToMap_print 0⟩, ?_⟩
  intro file m hf hm args ha
  obtain ⟨file', hw, hf⟩ := hm.exists_writeAddressMaps hf ha
  refine ⟨file', hw, hf, fun k => OrderedMap.lookup_unions ?_⟩
  intro es he
  obtain ⟨arg, harg, rfl⟩ := List.mem_map.mp he
  exact (ha arg harg).nodup_addresses

def ladleKey : Text := text ['l', 'a', 'd', 'l', 'e']
def joinsKey : Text := text ['j', 'o', 'i', 'n', 's']

-- The contracts of a first deployment.
def deployed : MapOrDictionary :=
  .dictionary [(ladleKey, .object [(addressKey, .string (text ['0', 'x', '1']))]),
    (joinsKey, .map [])]

-- An address which replaces the one of a contract.
def redeployed : MapOrDictionary :=
  .map [(ladleKey, .string (text ['0', 'x', '2']))]

def afterwards : Entries :=
  [(ladleKey, .string (text ['0', 'x', '2'])), (joinsKey, .map [])]

theorem nested_afterwards : Nested (.map afterwards) := by
  refine .map (by decide) ?_
  simp only [afterwards, List.forall_mem_cons]
  exact ⟨.string _, .map List.nodup_nil (by simp), by simp⟩

theorem deployed_storable : deployed.Storable where
  nodup  := by decide
  values := by
    simp only [deployed, MapOrDictionary.entries, List.forall_mem_cons]
    exact ⟨.contract (by rfl), .nested (.map List.nodup_nil (by simp)), by simp⟩

theorem redeployed_storable : redeployed.Storable where
  nodup  := by decide
  values := by
    simp only [redeployed, MapOrDictionary.entries, List.forall_mem_cons]
    exact ⟨.nested (.string _), by simp⟩

theorem nothing_lost_redeployed :
    (∃ json, mapToJson afterwards = .ok json ∧ jsonToMap json = .ok (.map afterwards)) ∧
    ∃ file', writeAddressMaps none [deployed, redeployed] = .ok file' ∧
      readAddressMappingIfExists file' = .ok (.map afterwards) := by
  obtain ⟨hm, hw⟩ := nothing_lost
  obtain ⟨file', hf, hr, -⟩ := hw none [] rfl (.map List.nodup_nil (by simp))
    [deployed, redeployed] (by simp [deployed_storable, redeployed_storable])
  exact ⟨hm afterwards nested_afterwards, file', hf, hr⟩

end AddressFiles
