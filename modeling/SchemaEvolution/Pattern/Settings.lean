import SchemaEvolution.Pattern.Property

/-! # Settings of a pattern

The flags in force at each part of a pattern, and the rules that depend on them: without the
Unicode flag, nothing may match a part of a character.
-/

namespace SchemaEvolution

namespace Pattern

/-- The flags in force at a place. -/
structure Settings where
  caseInsensitive : Bool := false
  multiLine : Bool := false
  dotAll : Bool := false
  swapGreed : Bool := false
  unicode : Bool := true
  crlf : Bool := false
  deriving Repr, DecidableEq

namespace Settings

/-- The settings with one flag turned on or off. -/
def set (settings : Settings) (value : Bool) : Flag → Settings
  | .caseInsensitive => { settings with caseInsensitive := value }
  | .multiLine => { settings with multiLine := value }
  | .dotAll => { settings with dotAll := value }
  | .swapGreed => { settings with swapGreed := value }
  | .unicode => { settings with unicode := value }
  | .crlf => { settings with crlf := value }
  | .ignoreBlanks => settings

/-- The settings after a directive. -/
def apply (settings : Settings) (change : FlagChange) : Settings :=
  change.off.foldl (·.set false ·) (change.on.foldl (·.set true ·) settings)

/-- The settings inside a group. -/
def inside (settings : Settings) : GroupKind → Settings
  | .captured _ => settings
  | .plain change => settings.apply change

end Settings

namespace ClassSet

def isAscii (value : Literal) : Bool := value.char.toNat < 0x80

mutual

/-- Whether a set only names properties that there are. -/
def namesKnown : ClassSet → Bool
  | .property name _ => name.isKnown
  | .bracketed _ set => namesKnown set
  | .union items => allNamesKnown items
  | .combined _ left right => namesKnown left && namesKnown right
  | _ => true

def allNamesKnown : List ClassSet → Bool
  | [] => true
  | set :: rest => namesKnown set && allNamesKnown rest

end

mutual

/-- Whether a set holds ASCII characters only, by the way it is written. -/
def asciiOnly : ClassSet → Bool
  | .empty => true
  | .literal value => isAscii value
  | .range first last => isAscii first && isAscii last
  | .named _ negated => !negated
  | .short _ negated => !negated
  | .property _ _ => false
  | .bracketed negated set => !negated && asciiOnly set
  | .union items => allAsciiOnly items
  | .combined _ left right => asciiOnly left && asciiOnly right

def allAsciiOnly : List ClassSet → Bool
  | [] => true
  | set :: rest => asciiOnly set && allAsciiOnly rest

end

end ClassSet

namespace Expr

mutual

/-- The settings after a pattern: a directive changes them, up to the end of the group around
it. -/
def settingsAfter (settings : Settings) : Expr → Settings
  | .flags change => settings.apply change
  | .alternation branches => settingsAfterList settings branches
  | .concat parts => settingsAfterList settings parts
  | _ => settings

def settingsAfterList (settings : Settings) : List Expr → Settings
  | [] => settings
  | expr :: rest => settingsAfterList (settingsAfter settings expr) rest

end

mutual

/-- Whether a pattern keeps the rules of the settings in force, and names only properties that
there are. -/
def isSound (settings : Settings) : Expr → Bool
  | .literal value => settings.unicode || !value.isByte || ClassSet.isAscii value
  | .dot => settings.unicode
  | .short _ negated => settings.unicode || !negated
  | .property name _ => settings.unicode && name.isKnown
  | .bracketed negated set =>
    if settings.unicode then set.namesKnown else !negated && set.asciiOnly
  | .repetition body _ _ _ => isSound settings body
  | .group kind body => isSound (settings.inside kind) body
  | .alternation branches => allSound settings branches
  | .concat parts => allSound settings parts
  | .empty | .flags _ | .assertion _ => true

def allSound (settings : Settings) : List Expr → Bool
  | [] => true
  | expr :: rest => isSound settings expr && allSound (settingsAfter settings expr) rest

end

end Expr

end Pattern

end SchemaEvolution
