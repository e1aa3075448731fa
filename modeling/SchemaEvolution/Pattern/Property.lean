import SchemaEvolution.Text.Split

namespace SchemaEvolution.Pattern

def plainName (cs : List Char) : String :=
  let ds := (cs.filter fun c => !(c == ' ' || c == '_' || c == '-')).map Char.toLower
  match ds with
  | 'i' :: 's' :: rest => if rest.isEmpty || rest == ['c'] then String.ofList ds else String.ofList rest
  | _ => String.ofList ds

def generalCategories : List String :=
  ["any", "ascii", "assigned",
   "c", "other", "cc", "control", "cf", "format", "cn", "unassigned", "co", "privateuse",
   "l", "letter", "lc", "casedletter", "ll", "lowercaseletter", "lm", "modifierletter",
   "lo", "otherletter", "lt", "titlecaseletter", "lu", "uppercaseletter",
   "m", "mark", "combiningmark", "mc", "spacingmark", "me", "enclosingmark", "mn",
   "nonspacingmark",
   "n", "number", "nd", "decimalnumber", "digit", "nl", "letternumber", "no", "othernumber",
   "p", "punctuation", "punct", "pc", "connectorpunctuation", "pd", "dashpunctuation",
   "pe", "closepunctuation", "pf", "finalpunctuation", "pi", "initialpunctuation",
   "po", "otherpunctuation", "ps", "openpunctuation",
   "s", "symbol", "sc", "currencysymbol", "sk", "modifiersymbol", "sm", "mathsymbol",
   "so", "othersymbol",
   "z", "separator", "zl", "lineseparator", "zp", "paragraphseparator", "zs", "spaceseparator"]

def binaryProperties : List String :=
  ["ahex", "asciihexdigit", "alpha", "alphabetic", "bidic", "bidicontrol", "bidim",
   "bidimirrored", "cased", "ci", "caseignorable", "cwcf", "changeswhencasefolded", "cwcm",
   "changeswhencasemapped", "cwl", "changeswhenlowercased", "cwt", "changeswhentitlecased",
   "cwu", "changeswhenuppercased", "dash", "dep", "deprecated", "di",
   "defaultignorablecodepoint", "dia", "diacritic", "emoji", "ebase", "emojimodifierbase",
   "ecomp", "emojicomponent", "emod", "emojimodifier", "epres", "emojipresentation", "ext",
   "extender", "extpict", "extendedpictographic", "grbase", "graphemebase", "grext",
   "graphemeextend", "hex", "hexdigit", "idc", "idcontinue", "ids", "idstart", "ideo",
   "ideographic", "idsb", "idsbinaryoperator", "idst", "idstrinaryoperator", "joinc",
   "joincontrol", "loe", "logicalorderexception", "lower", "lowercase", "math", "nchar",
   "noncharactercodepoint", "patsyn", "patternsyntax", "patws", "patternwhitespace", "pcm",
   "prependedconcatenationmark", "qmark", "quotationmark", "radical", "ri",
   "regionalindicator", "sd", "softdotted", "sterm", "sentenceterminal", "term",
   "terminalpunctuation", "uideo", "unifiedideograph", "upper", "uppercase", "vs",
   "variationselector", "space", "whitespace", "wspace", "xidc", "xidcontinue", "xids",
   "xidstart"]

def scripts : List String :=
  ["adlam", "ahom", "anatolianhieroglyphs", "arab", "arabic", "armenian", "armn", "avestan",
   "balinese", "bamum", "bassavah", "batak", "beng", "bengali", "bhaiksuki", "bopo",
   "bopomofo", "brahmi", "brai", "braille", "buginese", "buhid", "canadianaboriginal", "cans",
   "carian", "caucasianalbanian", "chakma", "cham", "cher", "cherokee", "chorasmian",
   "common", "copt", "coptic", "cuneiform", "cypriot", "cyprominoan", "cyrillic", "cyrl",
   "deseret", "deva", "devanagari", "divesakuru", "dogra", "duployan", "egyp",
   "egyptianhieroglyphs", "elbasan", "elymaic", "ethi", "ethiopic", "geor", "georgian",
   "glagolitic", "goth", "gothic", "grantha", "greek", "grek", "gujarati", "gujr",
   "gunjalagondi", "gurmukhi", "guru", "han", "hang", "hangul", "hani", "hanifirohingya",
   "hanunoo", "hatran", "hebr", "hebrew", "hira", "hiragana", "imperialaramaic", "inherited",
   "inscriptionalpahlavi", "inscriptionalparthian", "javanese", "kaithi", "kana", "kannada",
   "katakana", "kawi", "kayahli", "kharoshthi", "khitansmallscript", "khmer", "khmr",
   "khojki", "khudawadi", "knda", "lao", "laoo", "latin", "latn", "lepcha", "limbu",
   "lineara", "linearb", "lisu", "lycian", "lydian", "mahajani", "makasar", "malayalam",
   "mandaic", "manichaean", "marchen", "masaramgondi", "medefaidrin", "meeteimayek",
   "mendekikakui", "meroiticcursive", "meroitichieroglyphs", "miao", "mlym", "modi", "mong",
   "mongolian", "mro", "multani", "myanmar", "mymr", "nabataean", "nagmundari", "nandinagari",
   "newa", "newtailue", "nko", "nushu", "nyiakengpuachuehmong", "ogam", "ogham", "olchiki",
   "oldhungarian", "olditalic", "oldnortharabian", "oldpermic", "oldpersian", "oldsogdian",
   "oldsoutharabian", "oldturkic", "olduyghur", "oriya", "orya", "osage", "osmanya",
   "pahawhhmong", "palmyrene", "paucinhau", "phagspa", "phoenician", "psalterpahlavi",
   "qaai", "rejang", "runic", "runr", "samaritan", "saurashtra", "sharada", "shavian",
   "siddham", "signwriting", "sinh", "sinhala", "sogdian", "sorasompeng", "soyombo",
   "sundanese", "sylotinagri", "syrc", "syriac", "tagalog", "tagbanwa", "taile", "taitham",
   "taiviet", "takri", "tamil", "taml", "tangsa", "tangut", "telu", "telugu", "thaa",
   "thaana", "thai", "tibetan", "tibt", "tifinagh", "tirhuta", "toto", "ugaritic", "vai",
   "vithkuqi", "wancho", "warangciti", "yezidi", "yi", "yiii", "zanabazarsquare", "zinh",
   "zyyy"]

def isProperty (cs : List Char) : Bool :=
  let cs := match cs with
    | '^' :: cs => cs
    | cs => cs
  match Text.cut? '=' cs <|> Text.cut? ':' cs with
  | some (key, value) =>
    let key := if key.getLast? == some '!' then key.dropLast else key
    let value := plainName value
    match plainName key with
    | "gc" | "generalcategory" => generalCategories.contains value
    | "sc" | "script" | "scx" | "scriptextensions" => scripts.contains value
    | _ => false
  | none =>
    let name := plainName cs
    binaryProperties.contains name || generalCategories.contains name || scripts.contains name

end SchemaEvolution.Pattern
