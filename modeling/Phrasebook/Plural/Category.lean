import Phrasebook.Text.Blank
import Phrasebook.Text.Split

/-! Plural categories of languages, for counting things and for numbering them. -/

namespace Phrasebook

/-- A class of numbers that a language gives a form of its own. -/
inductive Category where
  | zero | one | two | few | many | other
deriving DecidableEq, Repr, Inhabited

namespace Category

def name : Category → String
  | .zero => "zero"
  | .one => "one"
  | .two => "two"
  | .few => "few"
  | .many => "many"
  | .other => "other"

def all : List Category := [.zero, .one, .two, .few, .many, .other]

def alphabetical : List Category := [.few, .many, .one, .other, .two, .zero]

end Category

structure LanguageGroup where
  categories : List Category
  languages : List String

open Category in
/-- The categories by which languages count. -/
def cardinalGroups : List LanguageGroup :=
  [⟨[other],
    ["bm", "bo", "dz", "id", "ig", "ii", "ja", "jbo", "jv", "kde", "kea", "km", "ko", "lo", "ms", "my", "nqo",
     "osa", "sah", "ses", "sg", "su", "th", "to", "tpi", "vi", "wo", "yo", "yue", "zh"]⟩,
   ⟨[one, other],
    ["af", "an", "asa", "ast", "az", "bal", "bem", "bez", "bg", "brx", "ce", "cgg", "chr", "ckb", "da", "de", "dv",
     "ee", "el", "en", "eo", "et", "eu", "fi", "fo", "fur", "fy", "gl", "gsw", "ha", "haw", "hu", "hy", "ia", "io",
     "ji", "jgo", "jmc", "ka", "kaj", "kcg", "kk", "kkj", "kl", "ks", "ksb", "ku", "ky", "lb", "lg", "mas", "mgo",
     "ml", "mn", "mr", "nah", "nb", "nd", "ne", "nl", "nn", "nnh", "no", "nr", "ny", "nyn", "om", "or", "os", "pap",
     "ps", "rm", "rof", "rwk", "saq", "sc", "sd", "sdh", "seh", "sn", "so", "sq", "ss", "ssy", "st", "sv", "sw",
     "syr", "ta", "te", "teo", "tig", "tk", "tn", "tr", "ts", "ug", "ur", "uz", "ve", "vo", "vun", "wae", "xh",
     "xog", "yi", "ak", "am", "as", "bho", "bn", "doz", "fa", "fil", "gu", "guw", "hi", "kn", "ln", "mg",
     "nso", "pa", "pcm", "si", "ti", "tl", "wa", "zu", "is", "mk", "ff", "kab"]⟩,
   ⟨[one, many, other], ["ca", "es", "fr", "it", "pt", "pt-pt", "vec", "lld"]⟩,
   ⟨[one, few, other], ["bs", "hr", "sh", "sr", "mo", "ro"]⟩,
   ⟨[one, few, many, other], ["be", "cs", "lt", "pl", "ru", "sk", "uk"]⟩,
   ⟨[one, two, other], ["he", "iu", "naq", "sat", "se", "sma", "smi", "smj", "smn", "sms"]⟩,
   ⟨[one, two, few, other], ["dsb", "hsb", "sl", "gd"]⟩,
   ⟨[one, two, few, many, other], ["br", "ga", "gv", "mt"]⟩,
   ⟨[zero, one, other], ["ksh", "lag", "lv", "prg"]⟩,
   ⟨[zero, one, two, few, many, other], ["ar", "ars", "cy", "kw"]⟩]

open Category in
/-- The categories by which languages number things, where they differ from a single one. -/
def ordinalGroups : List LanguageGroup :=
  [⟨[one, two, few, other], ["en", "ca", "gd", "mr"]⟩,
   ⟨[one, other], ["fil", "fr", "ga", "hy", "lo", "mo", "ms", "ne", "ro", "sv", "tl", "vi", "hu"]⟩,
   ⟨[many, other], ["it", "kk", "lij", "sc", "vec"]⟩,
   ⟨[few, other], ["be", "tk", "uk", "kw"]⟩,
   ⟨[one, many, other], ["ka", "sq"]⟩,
   ⟨[one, two, many, other], ["mk"]⟩,
   ⟨[one, few, many, other], ["az"]⟩,
   ⟨[one, two, few, many, other], ["as", "bn", "gu", "hi", "or"]⟩,
   ⟨[zero, one, two, few, many, other], ["cy"]⟩]

def categoriesIn (groups : List LanguageGroup) (language : String) : Option (List Category) :=
  (groups.find? fun group => group.languages.contains language).map LanguageGroup.categories

/-- The small letter of a letter that the names of languages can have; the sign of the kelvin is a `K`. -/
def smallLetter (c : Char) : Char := if c.toNat = 0x212A then 'k' else c.toLower

/-- A locale as the tables name it: in small letters, with hyphens, without blanks around it. -/
def normalizedLocale (locale : String) : List Char :=
  ((Text.trimChars locale.toList).map fun c => if c = '_' then '-' else c).map smallLetter

/-- The categories of a locale's language. A more specific entry comes first; the rules of English serve
languages that are not known, and known languages without rules for numbering have a single form for it. -/
def pluralCategories (locale : String) (ordinal : Bool) : List Category :=
  let whole := normalizedLocale locale
  let language := String.ofList (whole.takeWhile (· ≠ '-'))
  let entry (groups : List LanguageGroup) : Option (List Category) :=
    categoriesIn groups (String.ofList whole) <|> categoriesIn groups language
  if ordinal then
    match entry ordinalGroups with
    | some categories => categories
    | none =>
      if (categoriesIn cardinalGroups language).isSome then [.other]
      else (categoriesIn ordinalGroups "en").getD []
  else (entry cardinalGroups).getD ((categoriesIn cardinalGroups "en").getD [])

def hasSingleForm (locale : String) (ordinal : Bool) : Bool := pluralCategories locale ordinal == [.other]

/-- The categories to write for a locale, in the order of their names; none when the primary locale has a single
form, because then keys have no endings at all. -/
def writtenCategories (locale primary : String) (ordinal : Bool) : List Category :=
  if hasSingleForm primary ordinal then []
  else Category.alphabetical.filter fun category => (pluralCategories locale ordinal).contains category

end Phrasebook
