import JumpScript.Locale.Subtag
import JumpScript.Text.Utf8

/-!
# Signs of numbers

How numbers look in the places of the world: the digits of each numbering system, and for each
locale the marks in a number, the sign of a negative one and the words for what is not a number.
A locale that is not listed looks like its parent, and one without a parent like the root.  Locales
are named by their tags in lower case.
-/

namespace JumpScript

/-- The code point of the digit zero in each positional numbering system; the others follow it. -/
def numberingSystems : Table Nat :=
  [(text "adlm", 0x1E950), (text "ahom", 0x11730), (text "arab", 0x660), (text "arabext", 0x6F0),
    (text "bali", 0x1B50), (text "beng", 0x9E6), (text "bhks", 0x11C50), (text "brah", 0x11066),
    (text "cakm", 0x11136), (text "cham", 0xAA50), (text "deva", 0x966), (text "fullwide", 0xFF10),
    (text "gonm", 0x11D50), (text "gujr", 0xAE6), (text "guru", 0xA66), (text "hanidec", 0x3007),
    (text "hmng", 0x16B50), (text "java", 0xA9D0), (text "kali", 0xA900), (text "khmr", 0x17E0),
    (text "knda", 0xCE6), (text "lana", 0x1A80), (text "lanatham", 0x1A90), (text "laoo", 0xED0),
    (text "latn", 0x30), (text "lepc", 0x1C40), (text "limb", 0x1946), (text "mathbold", 0x1D7CE),
    (text "mathdbl", 0x1D7D8), (text "mathmono", 0x1D7F6), (text "mathsanb", 0x1D7EC),
    (text "mathsans", 0x1D7E2), (text "mlym", 0xD66), (text "modi", 0x11650),
    (text "mong", 0x1810), (text "mroo", 0x16A60), (text "mtei", 0xABF0), (text "mymr", 0x1040),
    (text "mymrshan", 0x1090), (text "mymrtlng", 0xA9F0), (text "newa", 0x11450),
    (text "nkoo", 0x7C0), (text "olck", 0x1C50), (text "orya", 0xB66), (text "osma", 0x104A0),
    (text "saur", 0xA8D0), (text "shrd", 0x111D0), (text "sind", 0x112F0), (text "sinh", 0xDE6),
    (text "sora", 0x110F0), (text "sund", 0x1BB0), (text "takr", 0x116C0), (text "talu", 0x19D0),
    (text "tamldec", 0xBE6), (text "telu", 0xC66), (text "thai", 0xE50), (text "tibt", 0xF20),
    (text "tirh", 0x114D0), (text "vaii", 0xA620), (text "wara", 0x118E0)]

/-- Numbering systems that are not positional; in their place stand the digits from `0` to `9`. -/
def wordySystems : List Bytes := Subtag.words
  ["armn armnlow cyrl ethi geor grek greklow hanidays hans hansfin hant hantfin hebr jpan jpanfin",
    "roman romanlow taml"]

/-- The signs that numbers are written with, apart from digits. -/
structure NumberSigns where
  /-- The mark before the fraction. -/
  point : Bytes
  /-- The mark between groups of digits. -/
  mark : Bytes
  minus : Bytes
  notNumber : Bytes
  infinity : Bytes
  deriving DecidableEq, Repr

namespace NumberSigns

/-- Plain signs with a mark before the fraction and one between groups. -/
def marks (point mark : String) : NumberSigns :=
  ⟨text point, text mark, text "-", text "NaN", text "∞"⟩

/-- The same signs with another minus. -/
def signed (s : NumberSigns) (minus : String) : NumberSigns := { s with minus := text minus }

/-- The same signs with another word for what is not a number. -/
def naming (s : NumberSigns) (word : String) : NumberSigns := { s with notNumber := text word }

/-- The signs of the root, by numbering system. -/
def root : Table NumberSigns :=
  [(text "latn", marks "." ","), (text "arab", (marks "٫" "٬").signed "\u061c-"),
    (text "arabext", (marks "٫" "٬").signed "\u200e-\u200e")]

/-- The signs of locales that use the digits from `0` to `9`, each with the locales that have it. -/
def western : List (NumberSigns × String) :=
  [(marks "," "\u00a0",
      "af agq bas be bg br cs cu de-at dua dyo en-fi en-se en-za eo es-cr ewo ff fr hu kab kea " ++
      "ksf nmg pl prg pt-ao pt-ch pt-cv pt-fr pt-gq pt-gw pt-lu pt-mo pt-mz pt-pt pt-st pt-tl " ++
      "shi shi-latn sk sq tg tt tzm uk yav zgh"),
    (((marks "." ",").signed "\u200e-").naming "ليس\u00a0رقمًا",
      "ar-001 ar-ae ar-bh ar-dj ar-eg ar-eh ar-er ar-il ar-iq ar-jo ar-km ar-kw ar-om ar-ps " ++
      "ar-qa ar-sa ar-sd ar-so ar-ss ar-sy ar-td ar-ye"),
    (((marks "," ".").signed "\u200e-").naming "ليس\u00a0رقمًا",
      "ar-dz ar-lb ar-ly ar-ma ar-mr ar-tn"),
    (marks "." ",",
      "as-in bn-bd bn-in ccp-bd ccp-in ckb-iq ckb-ir dz-bt es-419 es-br es-bz es-cu es-do es-gt " ++
      "es-hn es-mx es-ni es-pa es-pe es-pr es-sv es-us lrc-iq lrc-ir mr-in mzn-ir ne-in ne-np " ++
      "sd-pk"),
    ((marks "," ".").naming "ND", "ast"),
    (marks "," ".",
      "az az-cyrl bs bs-cyrl ca da de dsb el en-at en-be en-de en-dk en-nl en-si es fr-lu fr-ma " ++
      "fur fy gl hr hsb id is it jgo kkj kl km lb ln lu mgh mk ms-bn mua nds nl nnh pt qu-bo rn " ++
      "ro rw seh sg sr sr-latn sw-cd tr vi wo"),
    ((marks "." ",").naming "Терхьаш\u00a0дац", "ce"),
    (marks "." "\u2019", "de-ch de-li en-ch it-ch"),
    (marks "." "\u00a0", "dje khq mfe ses twq"),
    ((marks "." ",").naming "mnn", "ee"),
    ((marks "," "\u00a0").signed "\u2212", "et ksh lt nb nn se"),
    ((marks "," ".").signed "\u2212", "eu fo"),
    (((marks "." ",").signed "\u200e\u2212").naming "ناعدد", "fa-af fa-ir"),
    (((marks "," "\u00a0").signed "\u2212").naming "epäluku", "fi"),
    ((marks "." ",").naming "Nuimh", "ga"),
    ((marks "." "\u2019").signed "\u2212", "gsw rm"),
    ((marks "." ",").signed "\u200e-", "he pa-arab-pk ur"),
    ((marks "," "\u00a0").naming "ՈչԹ", "hy"),
    ((marks "," "\u00a0").naming "არ\u00a0არის\u00a0რიცხვი", "ka"),
    ((marks "," "\u00a0").naming "сан\u00a0емес", "kk"),
    (marks "." "\u060c", "ks-in"),
    ((marks "," "\u00a0").naming "сан\u00a0эмес", "ky"),
    ((marks "," ".").naming "ບໍ່\u200bແມ່ນ\u200bໂຕ\u200bເລກ", "lo"),
    ((marks "," "\u00a0").naming "NS", "lv"),
    ((marks "." ",").naming "ဂဏန်းမဟုတ်သော", "my-mm"),
    ((marks "," "\u00a0").naming "НН", "os"),
    ((marks "," ".").signed "\u200e\u2212", "ps-af uz-arab-af"),
    ((marks "," "\u00a0").naming "не\u00a0число", "ru"),
    ((marks "," "\u00a0").naming "чыыһыла\u00a0буотах", "sah"),
    ((marks "," ".").signed "\u2013", "sl"),
    ((marks "," "\u00a0").naming "epiloho", "smn"),
    (((marks "," "\u00a0").signed "\u2212").naming "¤¤¤", "sv"),
    ((marks "," "\u00a0").naming "san\u00a0däl", "tk"),
    ((marks "." ",").naming "TF", "to"),
    ((marks "," "\u00a0").naming "son\u00a0emas", "uz"),
    ((marks "," "\u00a0").naming "ҳақиқий\u00a0сон\u00a0эмас", "uz-cyrl"),
    (marks "," "\u2019", "wae"),
    ((marks "." ",").naming "非數值", "yue zh-hant"),
    ((marks "." ",").naming "非数值", "yue-hans"),
    (⟨text ".", text ",", text "-", text "NaN", text "INF"⟩, "en-us-posix")]

/-- The signs of locales that use digits of their own, by numbering system; the first one is the
usual one. -/
def ownDigits : Table (Table NumberSigns) :=
  [(text "ar", [(text "arab", ((marks "٫" "٬").signed "\u061c-").naming "ليس\u00a0رقم"),
      (text "latn", ((marks "." ",").signed "\u200e-").naming "ليس\u00a0رقمًا")]),
    (text "as", [(text "beng", marks "." ",")]),
    (text "bn", [(text "beng", marks "." ",")]),
    (text "ccp", [(text "cakm", marks "." ",")]),
    (text "ckb", [(text "arab", (marks "٫" "٬").signed "\u200f-"),
      (text "latn", marks "." ",")]),
    (text "dz", [(text "tibt", ⟨text ".", text ",", text "-", text "ཨང་མད",
      text "གྲངས་མེད"⟩),
      (text "latn", marks "." ",")]),
    (text "fa", [(text "arabext", ((marks "٫" "٬").signed "\u200e\u2212").naming "ناعدد"),
      (text "latn", ((marks "." ",").signed "\u200e\u2212").naming "ناعدد")]),
    (text "ks", [(text "arabext", (marks "٫" "٬").signed "\u200e-\u200e"),
      (text "latn", marks "." "\u060c")]),
    (text "lrc", [(text "arabext", (marks "٫" "٬").signed "\u200e-\u200e"),
      (text "latn", marks "." ",")]),
    (text "mr", [(text "deva", marks "." ",")]),
    (text "my", [(text "mymr", (marks "." ",").naming "ဂဏန်းမဟုတ်သော")]),
    (text "mzn", [(text "arabext", (marks "٫" "٬").signed "\u200e-\u200e"),
      (text "latn", marks "." ",")]),
    (text "ne", [(text "deva", marks "." ",")]),
    (text "pa-arab", [(text "arabext", (marks "٫" "٬").signed "\u200e-\u200e"),
      (text "latn", (marks "." ",").signed "\u200e-")]),
    (text "ps", [(text "arabext", (marks "٫" "٬").signed "\u200e-\u200e"),
      (text "latn", (marks "," ".").signed "\u200e\u2212")]),
    (text "sd", [(text "arab", (marks "٫" "٬").signed "\u061c-"),
      (text "latn", marks "." ",")]),
    (text "ur-in", [(text "arabext", (marks "٫" "٬").signed "\u200e-\u200e"),
      (text "latn", (marks "." ",").signed "\u200e-")]),
    (text "uz-arab", [(text "arabext", (marks "٫" "٬").signed "\u200e-\u200e"),
      (text "latn", (marks "," ".").signed "\u200e\u2212")])]

/-- The signs that a locale has of its own, the usual ones first. -/
def own (name : Bytes) : Table NumberSigns :=
  match ownDigits.get? name with
  | some t => t
  | none =>
    match western.find? fun (_, names) => (Subtag.words [names]).contains name with
    | some (s, _) => [(text "latn", s)]
    | none => []

/-- The signs of a numbering system in the first of some locales that has any, or in the root.  A
locale with digits of its own does not look further. -/
def among? (system : Bytes) : List Bytes → Option NumberSigns
  | [] => root.get? system
  | name :: more =>
    match (own name).get? system with
    | some s => some s
    | none => if ownDigits.has name then none else among? system more

/-- The usual numbering system of the first of some locales that has signs of its own, with these
signs. -/
def usual : List Bytes → Bytes × NumberSigns
  | [] => (text "latn", marks "." ",")
  | name :: more =>
    match own name with
    | s :: _ => s
    | [] => usual more

end NumberSigns

/-- The usual scripts of languages that are not written in Latin script. -/
def usualScripts : List (Bytes × String) :=
  [(text "ethi", "am ti tig"), (text "arab", "ar ars ckb fa ks lrc mzn ps sd sdh ug ur"),
    (text "beng", "as bn"), (text "cyrl", "be bg ce cu kk ky mk mn os ru sah sr tg tt uk"),
    (text "deva", "bh brx hi kok mr ne"), (text "tibt", "bo dz"), (text "cakm", "ccp"),
    (text "cher", "chr"), (text "thaa", "dv"), (text "grek", "el"), (text "gujr", "gu"),
    (text "hebr", "he iw ji yi"), (text "armn", "hy"), (text "yiii", "ii"), (text "cans", "iu"),
    (text "jpan", "ja"), (text "geor", "ka"), (text "khmr", "km"), (text "knda", "kn"),
    (text "kore", "ko"), (text "laoo", "lo"), (text "mlym", "ml"), (text "mymr", "my"),
    (text "nkoo", "nqo"), (text "orya", "or"), (text "guru", "pa"), (text "tfng", "shi zgh"),
    (text "sinh", "si"), (text "syrc", "syr"), (text "taml", "ta"), (text "telu", "te"),
    (text "thai", "th"), (text "vaii", "vai"), (text "hant", "yue"), (text "hans", "zh")]

/-- The regions where a language is written in another script. -/
def regionalScripts : List (Bytes × Bytes × String) :=
  [(text "az", text "arab", "iq ir"), (text "az", text "cyrl", "ru"),
    (text "ha", text "arab", "cm sd"), (text "kk", text "arab", "af cn ir mn"),
    (text "ku", text "cyrl", "am az ge tm"), (text "ku", text "arab", "iq ir lb"),
    (text "ky", text "arab", "cn"), (text "ky", text "latn", "tr"), (text "mn", text "mong", "cn"),
    (text "ms", text "arab", "cc"), (text "pa", text "arab", "pk"), (text "sd", text "deva", "in"),
    (text "sr", text "latn", "me ro tr"), (text "tg", text "arab", "pk"),
    (text "ug", text "cyrl", "kz mn"), (text "uz", text "arab", "af"),
    (text "uz", text "cyrl", "cn"), (text "yue", text "hans", "cn"),
    (text "zh", text "hant", "au bn gb gf hk id mo pa pf ph sr th tw uk us vd vn")]

/-- The script that a language is usually written in. -/
def usualScript (language : Bytes) : Bytes :=
  match usualScripts.find? fun (_, ls) => (Subtag.words [ls]).contains language with
  | some (script, _) => script
  | none => text "latn"

/-- The script that a language is usually written in, in a region. -/
def regionalScript (language region : Bytes) : Bytes :=
  let fits := fun (l, _, rs) => l == language && (Subtag.words [rs]).contains region
  match regionalScripts.find? fits with
  | some (_, script, _) => script
  | none => usualScript language

/-- Locales with groups of two digits before the last three. -/
def pairing : List Bytes := Subtag.words
  ["as bn brx ccp dz en-in gu hi kok ml mr or pa ta te"]

/-- Locales with groups of three digits, unlike their parents. -/
def tripling : List Bytes := Subtag.words ["ta-my ta-sg"]

/-- The size of the groups before the last one in the first of some locales that says so. -/
def groupSize : List Bytes → Nat
  | [] => 3
  | name :: more =>
    if pairing.contains name then 2 else if tripling.contains name then 3 else groupSize more

end JumpScript
