import VideoProxy.Lib.Text
import Mathlib.Data.Bool.AllAny

/-!
# URLs and references

URLs with the schemes `http` and `https` as the URL standard parses them: an
authority, a path of segments, a query and a fragment.  A reference is resolved
against a base by one parser, which also parses URLs without a base.

What the standard does with single characters and with hosts is left to a set
of rules.  URLs of other schemes are texts here.
-/

namespace VideoProxy

/-- A URL with the scheme `http` or, when it is secure, `https`. -/
structure HttpUrl where
  secure : Bool
  authority : Text
  /-- The segments of the path before the last one. -/
  directory : List Text
  /-- The last segment of the path. -/
  file : Text
  query : Option Text
  fragment : Option Text
deriving DecidableEq

/-- A URL of the two schemes, or the text of another one. -/
inductive Url
  | http (url : HttpUrl)
  | other (text : Text)
deriving DecidableEq

namespace Url

/-! ## The parts of a text -/

/-- A backslash counts as a slash. -/
def isSlash (char : Char) : Bool :=
  char = '/' || char = '\\'

/-- Control characters and blanks. -/
def isStripped (char : Char) : Bool :=
  char.toNat ≤ 32

/-- Characters that are ignored inside of a text. -/
def isIgnored (char : Char) : Bool :=
  char = '\t' || char = '\n' || char = '\r'

/-- The text that is parsed. -/
def clean (input : Text) : Text :=
  ((input.dropWhile isStripped).rdropWhile isStripped).filter fun char => !isIgnored char

/-- What follows the first occurrence of a mark, and what is before it. -/
def splitMark (mark : Char) (text : Text) : Text × Option Text :=
  match Text.splitOnce mark text with
  | some (front, back) => (front, some back)
  | none => (text, none)

/-- A text without its query and fragment, the query and the fragment. -/
def splitParts (text : Text) : Text × Option Text × Option Text :=
  let (text, fragment) := splitMark '#' text
  let (text, query) := splitMark '?' text
  (text, query, fragment)

/-- Whether a text is the name of a scheme. -/
def isScheme : Text → Bool
  | [] => false
  | char :: rest => char.isAlpha &&
      rest.all fun char => char.isAlphanum || char = '+' || char = '-' || char = '.'

/-- The scheme in front of a text, in lower case, and the rest. -/
def splitScheme (text : Text) : Option (Text × Text) :=
  match Text.splitOnce ':' text with
  | some (scheme, rest) =>
    if isScheme scheme then some (scheme.map Char.toLower, rest) else none
  | none => none

/-- The name of a scheme. -/
def schemeText (secure : Bool) : Text :=
  if secure then "https".toList else "http".toList

/-- Which of the two schemes a name is. -/
def httpScheme (scheme : Text) : Option Bool :=
  if scheme = schemeText true then some true
  else if scheme = schemeText false then some false
  else none

/-- What a reference names in terms of its base. -/
inductive Target
  | hosted (rest : Text)
  | rooted (path : Text)
  | relative (path : Text)
  | same
deriving DecidableEq

/-- What a text names: a URL of another scheme, a URL with an authority, or
something in terms of the base. -/
inductive Locator
  | other
  | absolute (secure : Bool) (rest : Text)
  | within (target : Target)
deriving DecidableEq

def target : Text → Target
  | [] => .same
  | first :: rest =>
    if isSlash first then
      match rest with
      | [] => .rooted []
      | second :: _ =>
        if isSlash second then .hosted (rest.dropWhile isSlash)
        else .rooted rest
    else .relative (first :: rest)

/-- What a text without query and fragment names.  The scheme of the base in
front of a relative path is ignored. -/
def locate (baseScheme : Option Bool) (body : Text) : Locator :=
  match splitScheme body with
  | none => .within (target body)
  | some (scheme, rest) =>
    match httpScheme scheme with
    | none => .other
    | some secure =>
      if baseScheme = some secure ∧ "//".toList.isPrefixOf rest = false then
        .within (target rest)
      else .absolute secure (rest.dropWhile isSlash)

/-! ## Paths -/

/-- A segment that stands for the directory it is in. -/
def isDot (segment : Text) : Bool :=
  segment.map Char.toLower ∈ [".".toList, "%2e".toList]

/-- A segment that stands for the directory above. -/
def isDoubleDot (segment : Text) : Bool :=
  segment.map Char.toLower ∈ ["..".toList, ".%2e".toList, "%2e.".toList, "%2e%2e".toList]

/-- The directory and the file that segments lead to from a directory. -/
def walk : List Text → List Text → List Text × Text
  | directory, [] => (directory, [])
  | directory, [segment] =>
    if isDoubleDot segment then (directory.dropLast, [])
    else if isDot segment then (directory, [])
    else (directory, segment)
  | directory, segment :: rest =>
    if isDoubleDot segment then walk directory.dropLast rest
    else if isDot segment then walk directory rest
    else walk (directory ++ [segment]) rest

end Url

/-- What a URL parser does with hosts and with single characters, and with URLs
of other schemes. -/
structure UrlRules where
  /-- The authority as it is printed. -/
  authority : Bool → Text → Option Text
  pathChar : Char → Text
  queryChar : Char → Text
  fragmentChar : Char → Text
  /-- A URL of another scheme as it is printed. -/
  other : Text → Option Text
  /-- A reference resolved against a URL of another scheme. -/
  joinOther : Text → Text → Option Text
  /-- A URL of another scheme without its last path segment. -/
  popOther : Text → Text

namespace HttpUrl

/-- A part with its mark. -/
def marked (mark : Char) : Option Text → Text
  | none => []
  | some part => mark :: part

/-- A path of segments. -/
def pathText (segments : List Text) : Text :=
  segments.flatMap fun segment => '/' :: segment

/-- The scheme and the authority. -/
def origin (url : HttpUrl) : Text :=
  Url.schemeText url.secure ++ "://".toList ++ url.authority

/-- A URL as it is printed. -/
def toText (url : HttpUrl) : Text :=
  url.origin ++ pathText (url.directory ++ [url.file]) ++
    marked '?' url.query ++ marked '#' url.fragment

/-- The last path segment is removed; the path does not get empty. -/
def pop (url : HttpUrl) : HttpUrl :=
  { url with
    directory := url.directory.dropLast
    file := url.directory.getLast?.getD [] }

end HttpUrl

namespace Url

/-- A URL as it is printed. -/
def toText : Url → Text
  | .http url => url.toText
  | .other text => text

/-- Which of the two schemes a URL has. -/
def scheme : Url → Option Bool
  | .http url => some url.secure
  | .other _ => none

end Url

namespace UrlRules

variable (rules : UrlRules)

/-- The segments of a path as they are printed. -/
def segments (path : Text) : List Text :=
  (path.splitOnP Url.isSlash).map fun segment => segment.flatMap rules.pathChar

/-- A URL with an authority of its own. -/
def absolute (secure : Bool) (rest : Text) (query fragment : Option Text) : Option HttpUrl :=
  (rules.authority secure (rest.takeWhile fun char => !Url.isSlash char)).map fun authority =>
      let path := rest.dropWhile fun char => !Url.isSlash char
      let (directory, file) := Url.walk [] (rules.segments path).tail
      { secure, authority, directory, file, query, fragment }

/-- What is named in terms of a base. -/
def resolve (base : HttpUrl) (query fragment : Option Text) : Url.Target → Option HttpUrl
  | .hosted rest => rules.absolute base.secure rest query fragment
  | .rooted path =>
    let (directory, file) := Url.walk [] (rules.segments path)
    some { base with directory, file, query, fragment }
  | .relative path =>
    let (directory, file) := Url.walk base.directory (rules.segments path)
    some { base with directory, file, query, fragment }
  | .same => some { base with query := query.or base.query, fragment }

/-- Parse a text, with or without a base. -/
def parseWith (base : Option Url) (input : Text) : Option Url :=
  let text := Url.clean input
  let (body, query, fragment) := Url.splitParts text
  let query := query.map fun query => query.flatMap rules.queryChar
  let fragment := fragment.map fun fragment =>
    fragment.flatMap rules.fragmentChar
  match Url.locate (base.bind Url.scheme) body with
  | .other => (rules.other text).map .other
  | .absolute secure rest =>
    (rules.absolute secure rest query fragment).map .http
  | .within target =>
    match base with
    | none => none
    | some (.other base) => (rules.joinOther base text).map .other
    | some (.http base) =>
      (rules.resolve base query fragment target).map .http

/-- Parse a URL. -/
def parse (input : Text) : Option Url :=
  rules.parseWith none input

/-- Resolve a reference against a base. -/
def join (base : Url) (reference : Text) : Option Url :=
  rules.parseWith (some base) reference

/-- Remove the last path segment. -/
def pop : Url → Url
  | .http url => .http url.pop
  | .other text => .other (rules.popOther text)

end UrlRules

namespace UrlRules

/-! ## The rules of the standard -/

/-- The digits of the percent code. -/
def hexDigits : Text := "0123456789ABCDEF".toList

/-- The percent code of a byte. -/
def percentByte (byte : UInt8) : Text :=
  ['%', hexDigits.getD (byte.toNat / 16) '0', hexDigits.getD (byte.toNat % 16) '0']

/-- A character, or the percent code of its UTF-8 form. -/
def encodeUnless (kept : Char → Bool) (char : Char) : Text :=
  if kept char then [char]
  else (String.utf8EncodeChar char).flatMap percentByte

/-- The visible ASCII characters apart from some. -/
def visibleBut (excluded : Text) (char : Char) : Bool :=
  32 < char.toNat && char.toNat < 127 && char ∉ excluded

/-- Characters that are kept in a path. -/
def keptInPath : Char → Bool := visibleBut "\"#<>?`\x7b\x7d/\\".toList

/-- Characters that are kept in a query. -/
def keptInQuery : Char → Bool := visibleBut "\"#<>'".toList

/-- Characters that are kept in a fragment. -/
def keptInFragment : Char → Bool := visibleBut "\"<>`".toList

/-- Hosts that are printed as they are. -/
def printedHost (_ : Bool) (text : Text) : Option Text :=
  if text ≠ [] ∧ text.all keptInPath then some text else none

/-- URLs of other schemes that are printed as they are. -/
def printedOther (text : Text) : Option Text :=
  if Url.clean text = text ∧ Url.locate none (Url.splitParts text).1 = .other then some text
  else none

/-- The rules of the standard for characters, with hosts and other URLs that
have to be in their printed form. -/
def standard : UrlRules where
  authority := printedHost
  pathChar := encodeUnless keptInPath
  queryChar := encodeUnless keptInQuery
  fragmentChar := encodeUnless keptInFragment
  other := printedOther
  joinOther := fun _ _ => none
  popOther := id

example :
    (standard.parse "https://h/a/b.m3u8".toList).bind
        (fun base => standard.join base "../c d?e#f".toList) =
      standard.parse "https://h/c%20d?e#f".toList := by
  decide +kernel

end UrlRules
end VideoProxy
