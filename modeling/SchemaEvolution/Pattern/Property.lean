import SchemaEvolution.Pattern.Expr

/-! # Character properties by name

Which property names a pattern may use. Names are compared without regard to case, blanks,
hyphens and underscores, and an `is` at the start.
-/

namespace SchemaEvolution

namespace Pattern

namespace PropertyName

/-- Names of the properties that a character has or has not. -/
def booleanNames : List String :=
  ["asciihexdigit", "ahex", "alphabetic", "alpha", "bidicontrol", "bidic", "caseignorable",
    "ci", "cased", "changeswhencasefolded", "cwcf", "changeswhencasemapped", "cwcm",
    "changeswhenlowercased", "cwl", "changeswhentitlecased", "cwt", "changeswhenuppercased",
    "cwu", "dash", "defaultignorablecodepoint", "di", "deprecated", "dep", "diacritic", "dia",
    "emoji", "emojicomponent", "ecomp", "emojimodifier", "emod", "emojimodifierbase", "ebase",
    "emojipresentation", "epres", "extendedpictographic", "extpict", "extender", "ext",
    "graphemebase", "grbase", "graphemeextend", "grext", "graphemelink", "grlink", "hexdigit",
    "hex", "hyphen", "idsbinaryoperator", "idsb", "idstrinaryoperator", "idst",
    "idsunaryoperator", "idsu", "idcompatmathcontinue", "idcompatmathstart", "idcontinue",
    "idc", "idstart", "ids", "ideographic", "ideo", "incb", "joincontrol", "joinc",
    "logicalorderexception", "loe", "lowercase", "lower", "math", "modifiercombiningmark",
    "mcm", "noncharactercodepoint", "nchar", "otheralphabetic", "oalpha",
    "otherdefaultignorablecodepoint", "odi", "othergraphemeextend", "ogrext",
    "otheridcontinue", "oidc", "otheridstart", "oids", "otherlowercase", "olower", "othermath",
    "omath", "otheruppercase", "oupper", "patternsyntax", "patsyn", "patternwhitespace",
    "patws", "prependedconcatenationmark", "pcm", "quotationmark", "qmark", "radical",
    "regionalindicator", "ri", "sentenceterminal", "sterm", "softdotted", "sd",
    "terminalpunctuation", "term", "unifiedideograph", "uideo", "uppercase", "upper",
    "variationselector", "vs", "whitespace", "wspace", "space", "xidcontinue", "xidc",
    "xidstart", "xids"]

/-- Names of the general categories that some character has, and of the sets that are named like
them. -/
def categoryNames : List String :=
  ["any", "assigned", "ascii", "c", "other", "cc", "control", "cntrl", "cf", "format", "cn",
    "unassigned", "co", "privateuse", "l", "letter", "lc", "casedletter", "ll",
    "lowercaseletter", "lm", "modifierletter", "lo", "otherletter", "lt", "titlecaseletter",
    "lu", "uppercaseletter", "m", "mark", "combiningmark", "mc", "spacingmark", "me",
    "enclosingmark", "mn", "nonspacingmark", "n", "number", "nd", "decimalnumber", "digit",
    "nl", "letternumber", "no", "othernumber", "p", "punctuation", "punct", "pc",
    "connectorpunctuation", "pd", "dashpunctuation", "pe", "closepunctuation", "pf",
    "finalpunctuation", "pi", "initialpunctuation", "po", "otherpunctuation", "ps",
    "openpunctuation", "s", "symbol", "sc", "currencysymbol", "sk", "modifiersymbol", "sm",
    "mathsymbol", "so", "othersymbol", "z", "separator", "zl", "lineseparator", "zp",
    "paragraphseparator", "zs", "spaceseparator"]

def scriptNames : List String :=
  ["adlm", "adlam", "aghb", "caucasianalbanian", "ahom", "arab", "arabic", "armi",
    "imperialaramaic", "armn", "armenian", "avst", "avestan", "bali", "balinese", "bamu",
    "bamum", "bass", "bassavah", "batk", "batak", "beng", "bengali", "bhks", "bhaiksuki",
    "bopo", "bopomofo", "brah", "brahmi", "brai", "braille", "bugi", "buginese", "buhd",
    "buhid", "cakm", "chakma", "cans", "canadianaboriginal", "cari", "carian", "cham", "cher",
    "cherokee", "chrs", "chorasmian", "copt", "coptic", "qaac", "cpmn", "cyprominoan", "cprt",
    "cypriot", "cyrl", "cyrillic", "deva", "devanagari", "diak", "divesakuru", "dogr", "dogra",
    "dsrt", "deseret", "dupl", "duployan", "egyp", "egyptianhieroglyphs", "elba", "elbasan",
    "elym", "elymaic", "ethi", "ethiopic", "gara", "garay", "geor", "georgian", "glag",
    "glagolitic", "gong", "gunjalagondi", "gonm", "masaramgondi", "goth", "gothic", "gran",
    "grantha", "grek", "greek", "gujr", "gujarati", "gukh", "gurungkhema", "guru", "gurmukhi",
    "hang", "hangul", "hani", "han", "hano", "hanunoo", "hatr", "hatran", "hebr", "hebrew",
    "hira", "hiragana", "hluw", "anatolianhieroglyphs", "hmng", "pahawhhmong", "hmnp",
    "nyiakengpuachuehmong", "hung", "oldhungarian", "ital", "olditalic", "java", "javanese",
    "kali", "kayahli", "kana", "katakana", "kawi", "khar", "kharoshthi", "khmr", "khmer",
    "khoj", "khojki", "kits", "khitansmallscript", "knda", "kannada", "krai", "kiratrai",
    "kthi", "kaithi", "lana", "taitham", "laoo", "lao", "latn", "latin", "lepc", "lepcha",
    "limb", "limbu", "lina", "lineara", "linb", "linearb", "lisu", "lyci", "lycian", "lydi",
    "lydian", "mahj", "mahajani", "maka", "makasar", "mand", "mandaic", "mani", "manichaean",
    "marc", "marchen", "medf", "medefaidrin", "mend", "mendekikakui", "merc",
    "meroiticcursive", "mero", "meroitichieroglyphs", "mlym", "malayalam", "modi", "mong",
    "mongolian", "mroo", "mro", "mtei", "meeteimayek", "mult", "multani", "mymr", "myanmar",
    "nagm", "nagmundari", "nand", "nandinagari", "narb", "oldnortharabian", "nbat",
    "nabataean", "newa", "nkoo", "nko", "nshu", "nushu", "ogam", "ogham", "olck", "olchiki",
    "onao", "olonal", "orkh", "oldturkic", "orya", "oriya", "osge", "osage", "osma", "osmanya",
    "ougr", "olduyghur", "palm", "palmyrene", "pauc", "paucinhau", "perm", "oldpermic", "phag",
    "phagspa", "phli", "inscriptionalpahlavi", "phlp", "psalterpahlavi", "phnx", "phoenician",
    "plrd", "miao", "prti", "inscriptionalparthian", "rjng", "rejang", "rohg",
    "hanifirohingya", "runr", "runic", "samr", "samaritan", "sarb", "oldsoutharabian", "saur",
    "saurashtra", "sgnw", "signwriting", "shaw", "shavian", "shrd", "sharada", "sidd",
    "siddham", "sind", "khudawadi", "sinh", "sinhala", "sogd", "sogdian", "sogo", "oldsogdian",
    "sora", "sorasompeng", "soyo", "soyombo", "sund", "sundanese", "sunu", "sunuwar", "sylo",
    "sylotinagri", "syrc", "syriac", "tagb", "tagbanwa", "takr", "takri", "tale", "taile",
    "talu", "newtailue", "taml", "tamil", "tang", "tangut", "tavt", "taiviet", "telu",
    "telugu", "tfng", "tifinagh", "tglg", "tagalog", "thaa", "thaana", "thai", "tibt",
    "tibetan", "tirh", "tirhuta", "tnsa", "tangsa", "todr", "todhri", "toto", "tutg",
    "tulutigalari", "ugar", "ugaritic", "vaii", "vai", "vith", "vithkuqi", "wara",
    "warangciti", "wcho", "wancho", "xpeo", "oldpersian", "xsux", "cuneiform", "yezi",
    "yezidi", "yiii", "yi", "zanb", "zanabazarsquare", "zinh", "inherited", "qaai", "zyyy",
    "common"]

def ageNames : List String :=
  ["1.1", "v11", "2.0", "v20", "2.1", "v21", "3.0", "v30", "3.1", "v31", "3.2", "v32", "4.0",
    "v40", "4.1", "v41", "5.0", "v50", "5.1", "v51", "5.2", "v52", "6.0", "v60", "6.1", "v61",
    "6.2", "v62", "6.3", "v63", "7.0", "v70", "8.0", "v80", "9.0", "v90", "10.0", "v100",
    "11.0", "v110", "12.0", "v120", "12.1", "v121", "13.0", "v130", "14.0", "v140", "15.0",
    "v150", "15.1", "v151", "16.0", "v160"]

def graphemeBreakNames : List String :=
  ["control", "cn", "cr", "extend", "ex", "l", "lf", "lv", "lvt", "prepend", "pp",
    "regionalindicator", "ri", "spacingmark", "sm", "t", "v", "zwj"]

def wordBreakNames : List String :=
  ["aletter", "le", "cr", "doublequote", "dq", "extend", "extendnumlet", "ex", "format", "fo",
    "hebrewletter", "hl", "katakana", "ka", "lf", "midletter", "ml", "midnum", "mn",
    "midnumlet", "mb", "newline", "nl", "numeric", "nu", "regionalindicator", "ri",
    "singlequote", "sq", "wsegspace", "zwj"]

def sentenceBreakNames : List String :=
  ["aterm", "at", "cr", "close", "cl", "extend", "ex", "format", "fo", "lf", "lower", "lo",
    "numeric", "nu", "oletter", "le", "scontinue", "sc", "sterm", "st", "sep", "se", "sp",
    "upper", "up"]

/-- A name in the form in which names are compared. The characters that are not ASCII are
dropped, and `isc` is not taken for `c` with an `is` before it. -/
def normalize (name : String) : String :=
  let kept (text : List Char) : List Char :=
    (text.filter fun c => !(c == ' ' || c == '_' || c == '-') && c.toNat < 0x80).map Char.toLower
  match name.toList with
  | i :: s :: rest =>
    if i.toLower = 'i' && s.toLower = 's' then
      let rest := kept rest
      if rest = ['c'] then "isc" else String.ofList rest
    else String.ofList (kept (i :: s :: rest))
  | text => String.ofList (kept text)

/-- Whether a normalized name alone tells a set of characters. -/
def isSetName (name : String) : Bool :=
  booleanNames.contains name || categoryNames.contains name || scriptNames.contains name

/-- The normalized values of the property with a normalized name. -/
def valueNames : String → List String
  | "gc" | "generalcategory" => categoryNames
  | "sc" | "script" | "scx" | "scriptextensions" => scriptNames
  | "age" => ageNames
  | "gcb" | "graphemeclusterbreak" => graphemeBreakNames
  | "wb" | "wordbreak" => wordBreakNames
  | "sb" | "sentencebreak" => sentenceBreakNames
  | _ => []

def isKnown : PropertyName → Bool
  | .single name => isSetName (normalize name)
  | .valued name value => (valueNames (normalize name)).contains (normalize value)

end PropertyName

end Pattern

end SchemaEvolution
