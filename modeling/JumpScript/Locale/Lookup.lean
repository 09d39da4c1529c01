import JumpScript.Locale.Basic
import JumpScript.Locale.Tag

/-!
# Locales by tag

Every well-formed tag has a locale.  The tag itself, the tag with its usual script and then the
parent are tried in turn, and the root stands behind them all.  A language in an unusual script has
no parent but the root.  The keyword `nu` asks for a numbering system, `rg` for the customs of
another region, and `va-posix` for numbers as programs read them.
-/

namespace JumpScript

namespace LanguageTag

/-- The locales of regions whose first language is written in more than one script. -/
def firstLocales : List Bytes := Subtag.words
  ["az-latn-az bs-latn-ba zh-hans-cn zh-hant-hk sr-latn-me zh-hant-mo sr-cyrl-rs zh-hant-tw",
    "uz-latn-uz"]

/-- The locale name of a language, a script and a region. -/
def name (language script region : Bytes) : Bytes :=
  Bytes.join [0x2D] ([language, script, region].filter (!·.isEmpty))

/-- The names under which a locale is looked up, closest first. -/
def namesOf (language script region : Bytes) : List Bytes :=
  if region.isEmpty then
    name language script []
      :: (if !script.isEmpty && script == usualScript language then [language] else [])
  else
    let full := if script.isEmpty then regionalScript language region else script
    [name language script region, name language full region,
      name language (if full == usualScript language then [] else full) []]

/-- Whether a tag asks for numbers as programs read them. -/
def isPosix (tag : LanguageTag) : Bool :=
  tag.language == text "en" && tag.script.isEmpty && tag.region == text "us"
    && tag.variants.isEmpty && tag.keyword "va" == text "posix"

/-- The names under which the locale of a tag is looked up, closest first.  A region alone stands
for its first language where the script needs saying. -/
def names (tag : LanguageTag) : List Bytes :=
  if tag.isPosix then [text "en-us-posix", text "en"]
  else if !tag.language.isEmpty then namesOf tag.language tag.script tag.region
  else if !tag.script.isEmpty || tag.region.isEmpty then []
  else
    match firstLocales.find? fun n => n.drop 8 == tag.region with
    | some n => namesOf (n.take 2) ((n.drop 3).take 4) tag.region
    | none => []

/-- The tag in the region whose customs it asks for, if it asks for one. -/
def customary (tag : LanguageTag) : LanguageTag :=
  let asked := tag.keyword "rg"
  match Subtag.region? (asked.take 2) with
  | some r => if asked.drop 2 == text "zzzz" then { tag with region := r } else tag
  | none => tag

/-- The code point of the digit zero in a numbering system, if there is such a system. -/
def zeroOf? (system : Bytes) : Option Nat :=
  (numberingSystems.get? system).or (if wordySystems.contains system then some 0x30 else none)

/-- The digit zero and the signs that a tag asks for.  A numbering system without signs of its own
has those for the digits from `0` to `9`. -/
def numbering (tag : LanguageTag) : Nat × NumberSigns :=
  let names := tag.names
  let asked := tag.keyword "nu"
  match zeroOf? asked with
  | some digit =>
    let western := (NumberSigns.among? (text "latn") names).getD (NumberSigns.marks "." ",")
    (digit, (NumberSigns.among? asked names).getD western)
  | none =>
    let (system, signs) := NumberSigns.usual names
    ((zeroOf? system).getD 0x30, signs)

end LanguageTag

def Locale.ofTag? (s : Bytes) : Option Locale := do
  let tag := (← LanguageTag.read? s).customary
  let (digit, signs) := tag.numbering
  return if tag.isPosix then ⟨signs, 0, digit, 6⟩ else ⟨signs, groupSize tag.names, digit, 3⟩

end JumpScript
