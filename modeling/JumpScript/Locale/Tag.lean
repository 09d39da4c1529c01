import JumpScript.Locale.Subtag

/-!
# Language tags

A tag such as `zh-Hant-TW` names a language, a script and a region, each of which may be missing.
Variants may follow, and then extensions, each behind a subtag of one character: the extension `u`
holds keywords such as the numbering system, and everything behind `x` is private.  Case does not
matter, an underscore stands for a hyphen, and every subtag of a tag has to be a registered one.
-/

namespace JumpScript

/-- What a tag says; a missing part is empty. -/
structure LanguageTag where
  language : Bytes := []
  script : Bytes := []
  region : Bytes := []
  variants : List Bytes := []
  /-- The keywords of the extension `u`, each with its first value. -/
  keywords : Table Bytes := []
  deriving DecidableEq, Repr

namespace LanguageTag

/-- Whether a subtag is of one to eight letters and digits. -/
def isSubtag (s : Bytes) : Bool :=
  !s.isEmpty && s.length ≤ 8 && s.all fun b => Bytes.isDigit b || (0x61 ≤ b && b ≤ 0x7A)

def beginsWithLetter (s : Bytes) : Bool := s.head?.any (0x39 < ·)

/-- Whether a subtag extends a language. -/
def isExtended (s : Bytes) : Bool := s.length == 3 && beginsWithLetter s

/-- The last language of a chain: an extended language stands for itself. -/
def lastLanguage? (language : Bytes) : List Bytes → Option Bytes
  | [] => some language
  | s :: ss => do
    let extended ← Subtag.language? s
    lastLanguage? (if extended.isEmpty then language else extended) ss

/-- The script in front of some subtags, if one is there, and the rest. -/
def script? : List Bytes → Option (Bytes × List Bytes)
  | s :: ss =>
    if s.length == 4 && beginsWithLetter s then
      if Subtag.scripts.contains s then some (s, ss) else none
    else some ([], s :: ss)
  | [] => some ([], [])

/-- The region in front of some subtags, if one is there, and the rest. -/
def region? : List Bytes → Option (Bytes × List Bytes)
  | s :: ss =>
    if s.length == 2 || s.length == 3 then (Subtag.region? s).map fun r => (r, ss)
    else some ([], s :: ss)
  | [] => some ([], [])

/-- The tag in front of some subtags, without extensions, and the rest.  Inside an extension the
extended languages go unread. -/
def core? (inside : Bool) (ss : List Bytes) : Option (LanguageTag × List Bytes) := do
  let language ← Subtag.language? (← ss.head?)
  let extended := (ss.drop 1).takeWhile isExtended
  let language ← if inside then some language else lastLanguage? language extended
  let (script, rest) ← script? (ss.drop (1 + extended.length))
  let (region, rest) ← region? rest
  let variants := rest.takeWhile (4 ≤ ·.length)
  guard (variants.all Subtag.variants.contains)
  return ({ language, script, region, variants }, rest.drop variants.length)

/-- The keys in front of some subtags: each has two characters and longer values behind it.  The
`count` bounds their number. -/
def keys : (count : Nat) → List Bytes → List (Bytes × List Bytes) × List Bytes
  | count + 1, key :: ss =>
    if key.length == 2 then
      let values := ss.takeWhile (2 < ·.length)
      let (more, rest) := keys count (ss.drop values.length)
      ((key, values) :: more, rest)
    else ([], key :: ss)
  | _, ss => ([], ss)

/-- Whether no key comes with two different lists of values. -/
def agree : List (Bytes × List Bytes) → Bool
  | [] => true
  | (k, vs) :: r => r.all (fun (l, ws) => k != l || vs == ws) && agree r

/-- What follows the transformations in front of some subtags: each is a letter and a digit with
values of three or more characters behind it. -/
def afterTransformations : (count : Nat) → List Bytes → List Bytes
  | count + 1, [a, b] :: ss =>
    if b ≤ 0x39 then afterTransformations count (ss.dropWhile (3 ≤ ·.length)) else [a, b] :: ss
  | _, ss => ss

/-- What follows an extension `t` with content `ss`: another tag, and transformations. -/
def afterTransformed? (ss : List Bytes) : Option (List Bytes) := do
  let rest ←
    match ss with
    | s :: _ =>
      if (s.length == 2 || s.length == 3) && beginsWithLetter (s.drop 1) then
        (core? true ss).map (·.2)
      else some ss
    | [] => some ss
  return afterTransformations rest.length rest

/-- The keywords of each extension `u` among the extensions that `ss` begins with; an extension must
not be empty.  The `count` bounds the number of extensions. -/
def extensions? : (count : Nat) → List Bytes → Option (List (Table Bytes))
  | count + 1, [singleton] :: ss =>
    if singleton == 0x78 then (if ss.isEmpty then none else some [])
    else if singleton == 0x75 then do
      let attributes := ss.takeWhile (2 < ·.length)
      let (keywords, rest) := keys ss.length (ss.drop attributes.length)
      guard (rest.length < ss.length && agree keywords)
      let more ← extensions? count rest
      return (keywords.map fun (k, vs) => (k, vs.headD [])) :: more
    else do
      let rest ← if singleton == 0x74 then afterTransformed? ss
        else some (ss.dropWhile (2 ≤ ·.length))
      guard (rest.length < ss.length)
      extensions? count rest
  | _, _ => some []

/-- Tags of their own kind, which are not read by subtags. -/
def irregular : Table LanguageTag :=
  let only (language : String) : LanguageTag := { language := text language }
  [(text "art-lojban", only "jbo"), (text "i-ami", only "ami"), (text "i-bnn", only "bnn"),
    (text "i-hak", only "hak"), (text "i-klingon", only "tlh"), (text "i-lux", only "lb"),
    (text "i-navajo", only "nv"), (text "i-pwn", only "pwn"), (text "i-tao", only "tao"),
    (text "i-tay", only "tay"), (text "i-tsu", only "tsu"), (text "no-bok", only "nb"),
    (text "no-nyn", only "nn"), (text "sgn-be-fr", only "sfb"), (text "sgn-be-nl", only "vgt"),
    (text "sgn-ch-de", only "sgg"), (text "zh-guoyu", only "cmn"), (text "zh-hakka", only "hak"),
    (text "zh-min-nan", only "nan"), (text "zh-xiang", only "hsn"),
    (text "cel-gaulish", only "xtg"), (text "i-default", only "en"), (text "i-enochian", {}),
    (text "i-mingo", only "see"), (text "zh-min", only "nan"), (text "root", {}),
    (text "en-gb-oed", { language := text "en", region := text "gb" }),
    (text "en-us-posix",
      ⟨text "en", [], text "us", [], [(text "va", text "posix")]⟩)]

/-- Languages that are written as another one by now. -/
def formerLanguages : Table Bytes :=
  Subtag.pairs ["adp:dz in:id iw:he ji:yi jw:jv mo:ro sh:sr tl:fil"] ++ Subtag.bookForms

/-- The tag with present-day languages and regions.  The former Moldavian was that of Moldova, and
the former Serbo-Croatian was in Latin script. -/
def modern (tag : LanguageTag) : LanguageTag :=
  let former (code : String) (part : Bytes) := tag.language == text code && part.isEmpty
  { tag with
    language := (formerLanguages.get? tag.language).getD tag.language
    script := if former "sh" tag.script then text "latn" else tag.script
    region := if former "mo" tag.region then text "md" else Subtag.presentRegion tag.region }

def ofSubtags? : List Bytes → Option LanguageTag
  | [] => none
  | [c] :: ss => if c == 0x78 && !ss.isEmpty then some {} else none
  | ss => do
    let (tag, rest) ← core? false ss
    match rest with
    | [] => return tag
    | [_] :: _ =>
      let tables ← extensions? rest.length rest
      return { tag with keywords := tables.headD [] }
    | _ => none

def read? (s : Bytes) : Option LanguageTag :=
  let s := s.map fun b => if b == 0x5F then 0x2D else Bytes.lowerAscii b
  match irregular.get? s with
  | some tag => some tag.modern
  | none =>
    let ss := Bytes.splitOn [0x2D] s
    if ss.all isSubtag then (ofSubtags? ss).map modern else none

/-- The value of a keyword, empty if it has none. -/
def keyword (tag : LanguageTag) (key : String) : Bytes :=
  (tag.keywords.get? (text key)).getD []

end LanguageTag

end JumpScript
