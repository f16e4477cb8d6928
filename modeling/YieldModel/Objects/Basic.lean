import YieldModel.Lib.Checked

abbrev Address := Uint 160

-- The fixed width byte strings which are used as identifiers. The zero string is the default value.
abbrev Bytes4  := Uint 32
abbrev Bytes6  := Uint 48
abbrev Bytes12 := Uint 96
abbrev Bytes32 := Uint 256

-- The block in which a call is executed. The timestamp of a block is greater than its parent's, so
-- it is positive for all blocks which can contain a call.
structure Block where
  timestamp     : ℕ
  timestamp_pos : 0 < timestamp
