/-!
# Tokens of YAML text

The marks and scalars of a text, with the indentation of its blocks turned into marks where each
block starts and ends.
-/

namespace SchemaEvolution.Yaml

/-- The octets of a tag or of a part of one. An escape may put any octets there, so that they need
not be text. -/
abbrev Octets := List UInt8

/-- A token of YAML text. -/
inductive Token where
  /-- The directive that names the version. -/
  | version (major minor : Nat)
  /-- The directive that lets a handle stand for the start of tags. -/
  | tagHandle (handle : String) (start : Octets)
  | documentStart
  | documentEnd
  | blockSequenceStart
  | blockMappingStart
  | blockEnd
  | flowSequenceStart
  | flowSequenceEnd
  | flowMappingStart
  | flowMappingEnd
  /-- The hyphen before an element of a block sequence. -/
  | blockEntry
  /-- The comma of a flow collection. -/
  | flowEntry
  /-- What a key follows, written or not. -/
  | key
  /-- The colon before a value. -/
  | value
  | reference (name : String)
  | anchor (name : String)
  | tag (handle : String) (suffix : Octets)
  /-- A scalar; a plain one has neither quotes nor a block of its own. -/
  | scalar (text : String) (isPlain : Bool)
  deriving DecidableEq

end SchemaEvolution.Yaml
