import YieldModel.Lib.Json

open Utf16

-- The files which keep the addresses of contracts, as maps in JSON.

namespace AddressFiles

-- The values which are kept in maps. An object is the list of its properties, and a map the list of
-- its entries. A contract is an object with a property `address`.
inductive Value
  | null
  | bool (b : Bool)
  | string (s : Text)
  | array (vs : List Value)
  | object (ps : List (Text × Value))
  | map (es : List (Text × Value))

abbrev Entries := List (Text × Value)

def addressKey : Text := text ['a', 'd', 'd', 'r', 'e', 's', 's']
def dataTypeKey : Text := text ['d', 'a', 't', 'a', 'T', 'y', 'p', 'e']
def valueKey : Text := text ['v', 'a', 'l', 'u', 'e']
def mapTag : Text := text ['M', 'a', 'p']

-- The property `address` of a value, which may be undefined.
def addressOf : Value → Call (Option Value)
  | .null      => .error "TypeError: Cannot read properties of null (reading 'address')"
  | .object ps => return ps.lookup addressKey
  | _          => return none

def flattenContractMap (map : Entries) : Call Entries :=
  map.foldlM (fun flat (key, value) => do
    return OrderedMap.set key ((← addressOf value).getD value) flat) []

section Encoding

def replacer : Value → Value
  | .map es => .object [(dataTypeKey, .string mapTag),
    (valueKey, .array (es.map fun e => .array [.string e.1, e.2]))]
  | v       => v

-- A value is replaced before what it consists of is. There is no bound on what the replacer can
-- return, so the stack can overflow.
def stringify (replacer : Value → Value) : ℕ → Value → Call Json
  | 0,     _ => .error "RangeError: Maximum call stack size exceeded"
  | n + 1, v =>
    match replacer v with
    | .null      => return .null
    | .bool b    => return .bool b
    | .string s  => return .string s
    | .array vs  => return .array (← vs.mapM (stringify replacer n))
    | .object ps => return .object (← ps.mapM fun (k, v) => do
        return (k, ← stringify replacer n v))
    | .map _     => return .object []

mutual

-- The stack which it takes to print a value.
def depth : Value → ℕ
  | .null      => 1
  | .bool _    => 1
  | .string _  => 1
  | .array vs  => depthElements vs + 1
  | .object ps => depthEntries ps + 1
  | .map es    => depthEntries es + 3

def depthElements : List Value → ℕ
  | []      => 0
  | v :: vs => max (depth v) (depthElements vs)

def depthEntries : Entries → ℕ
  | []           => 0
  | (_, v) :: es => max (depth v) (depthEntries es)

end

def mapToJson (map : Entries) : Call Text := do
  let flat ← flattenContractMap map
  let json ← stringify replacer (depth (.map flat)) (.map flat)
  return json.print 0

end Encoding

section Decoding

-- An entry is an array which begins with a key and a value.
def entry : Value → Call (Text × Value)
  | .array (.string k :: v :: _) => return (k, v)
  | _                            => .error "TypeError: Iterator value is not an entry object"

-- What a map is constructed from.
def entries : Value → Call Entries
  | .map es    => return es
  | .array vs  => vs.mapM entry
  | .string [] => return []
  | _          => .error "TypeError: object is not iterable"

def newMap : Option Value → Call Value
  | none       => return .map []
  | some .null => return .map []
  | some v     => do return .map (OrderedMap.ofEntries (← entries v))

def reviver : Value → Call Value
  | .object ps =>
    match ps.lookup dataTypeKey with
    | some (.string s) => if s = mapTag then newMap (ps.lookup valueKey) else return .object ps
    | _                => return .object ps
  | v          => return v

mutual

-- A value is revived after what it consists of.
def revive (reviver : Value → Call Value) : Json → Call Value
  | .null      => reviver .null
  | .bool b    => reviver (.bool b)
  | .string s  => reviver (.string s)
  | .array vs  => do reviver (.array (← reviveElements reviver vs))
  | .object ms => do reviver (.object (← reviveMembers reviver ms))

def reviveElements (reviver : Value → Call Value) : List Json → Call (List Value)
  | []      => return []
  | v :: vs => do return (← revive reviver v) :: (← reviveElements reviver vs)

def reviveMembers (reviver : Value → Call Value) : List (Text × Json) → Call Entries
  | []           => return []
  | (k, v) :: ms => do return (k, ← revive reviver v) :: (← reviveMembers reviver ms)

end

def jsonToMap (json : Text) : Call Value :=
  match Json.parse json with
  | some v => revive reviver v
  | none   => .error "SyntaxError: Unexpected token in JSON"

end Decoding

section Files

-- The text of a file, if there is one.
abbrev File := Option Text

def readAddressMappingIfExists : File → Call Value
  | some json => jsonToMap json
  | none      => return .map []

-- The entries of a dictionary are in the order in which they are enumerated.
inductive MapOrDictionary
  | map (es : Entries)
  | dictionary (es : Entries)

def update (map : Value) : MapOrDictionary → Call Entries
  | .map es        => do return OrderedMap.ofEntries ((← entries map) ++ es)
  | .dictionary es =>
    match map with
    | .map es' => return es.foldl (fun map (k, v) => OrderedMap.set k v map) es'
    | _        => .error "TypeError: map.set is not a function"

def writeAddressMap (out_file : File) (map_or_dictionary : MapOrDictionary) : Call File := do
  let map ← readAddressMappingIfExists out_file
  let map ← update map map_or_dictionary
  return some (toWellFormed (← mapToJson map))

end Files

end AddressFiles
