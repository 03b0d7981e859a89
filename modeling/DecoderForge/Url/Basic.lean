import DecoderForge.Schema.Pointer
import DecoderForge.Text.Case
import DecoderForge.Url.Address

/-!
# DecoderForge — URLs

Identifiers of schemas and references between them are URLs; a relative one is resolved against the
URL of the schema around it.

* `Url.read` — the URL of a text, relative to a base if there is one.
* `Url.toText` — the text of a URL.
-/

namespace DecoderForge

/-- The path of a URL: opaque text, or segments that each stand behind a slash. -/
inductive Url.Path where
  | rootless (text : List Char)
  | segments (parts : List (List Char))
deriving DecidableEq, Repr

/-- A URL in its parts, each escaped as it is written. -/
structure Url where
  scheme : List Char
  /-- User, host and port. -/
  authority : Option (List Char)
  path : Url.Path
  query : Option (List Char)
  fragment : Option (List Char)
deriving DecidableEq, Repr

namespace Url

/-- Why a text is no URL. -/
inductive Fault where
  | relativeWithoutBase
  | baseWithoutHierarchy
  | emptyHost
  | invalidPort
  | invalidIpv4
  | invalidIpv6
  | invalidDomain
deriving DecidableEq, Repr

/-- The wording of a fault. -/
def Fault.message : Fault → String
  | .relativeWithoutBase => "relative URL without a base"
  | .baseWithoutHierarchy => "relative URL with a cannot-be-a-base base"
  | .emptyHost => "empty host"
  | .invalidPort => "invalid port number"
  | .invalidIpv4 => "invalid IPv4 address"
  | .invalidIpv6 => "invalid IPv6 address"
  | .invalidDomain => "invalid domain character"

/-! ## Text -/

def Path.toText : Path → List Char
  | .rootless text => text
  | .segments parts => parts.flatMap ('/' :: ·)

/-- The text of a URL. -/
def toText (u : Url) : List Char :=
  u.scheme ++ [':']
    ++ (match u.authority with
      | some a => ['/', '/'] ++ a
      | none => [])
    ++ u.path.toText
    ++ (match u.query with
      | some q => '?' :: q
      | none => [])
    ++ (match u.fragment with
      | some f => '#' :: f
      | none => [])

def withoutFragment (u : Url) : Url := { u with fragment := none }

/-! ## Escaping -/

/-- A byte as a percent sign with two digits. -/
def percentByte (b : UInt8) : List Char :=
  ['%', Pointer.upperHexDigit (b.toNat / 16), Pointer.upperHexDigit (b.toNat % 16)]

/-- Escapes control characters, everything beyond ASCII and the given characters. -/
def escape (special : List Char) (s : List Char) : List Char :=
  s.flatMap fun c =>
    if c.toNat < 0x20 || c.toNat > 0x7E || special.contains c then
      (String.utf8EncodeChar c).flatMap percentByte
    else [c]

def escapeFragment : List Char → List Char := escape [' ', '"', '<', '>', '\x60']

def escapeQuery (isSpecial : Bool) : List Char → List Char :=
  escape ([' ', '"', '#', '<', '>'] ++ if isSpecial then ['\''] else [])

def escapeSegment : List Char → List Char := escape [' ', '"', '#', '<', '>', '\x60', '?', '{', '}']

def escapeUser : List Char → List Char :=
  escape [' ', '"', '#', '<', '>', '\x60', '?', '{', '}', '/', ':', ';', '=', '@', '[', '\\', ']', '^', '|']

/-! ## Reading -/

/-- The port that a scheme implies; schemes that have one have a host. -/
def defaultPort? (scheme : List Char) : Option Nat :=
  match String.ofList scheme with
  | "http" | "ws" => some 80
  | "https" | "wss" => some 443
  | "ftp" => some 21
  | _ => none

def isFile (scheme : List Char) : Bool := scheme == ['f', 'i', 'l', 'e']

/-- Whether a scheme has a hierarchical path and treats backslashes as slashes. -/
def isSpecial (scheme : List Char) : Bool := (defaultPort? scheme).isSome || isFile scheme

/-- The scheme in front of a colon, in small letters, and what follows. -/
def splitScheme? (s : List Char) : Option (List Char × List Char) :=
  let isPart (c : Char) : Bool := c.isAlphanum || c == '+' || c == '-' || c == '.'
  match s with
  | c :: _ =>
    if c.isAlpha then
      match s.dropWhile isPart with
      | ':' :: rest => some ((s.takeWhile isPart).map Char.toLower, rest)
      | _ => none
    else none
  | [] => none

/-- A text cut at the first of some characters. -/
def cutAt (marks : List Char) (s : List Char) : List Char × List Char :=
  (s.takeWhile fun c => !marks.contains c, s.dropWhile fun c => !marks.contains c)

/-- Query and fragment at the end of a text. -/
def splitTail (special : Bool) (s : List Char) :
    List Char × Option (List Char) × Option (List Char) :=
  let (front, hash) := cutAt ['#'] s
  let fragment := match hash with
    | '#' :: f => some (escapeFragment f)
    | _ => none
  let (path, mark) := cutAt ['?'] front
  let query := match mark with
    | '?' :: q => some (escapeQuery special q)
    | _ => none
  (path, query, fragment)

def isSlash (special : Bool) (c : Char) : Bool := c == '/' || (special && c == '\\')

/-- A segment in small letters with escaped dots written out. -/
def plainDots : List Char → List Char
  | '%' :: '2' :: e :: rest =>
    if e == 'e' || e == 'E' then '.' :: plainDots rest else '%' :: '2' :: plainDots (e :: rest)
  | c :: rest => c :: plainDots rest
  | [] => []

/-- Appends the segments of a path; `.` says nothing and `..` takes one away. -/
def appendSegments (before : List (List Char)) : List (List Char) → List (List Char)
  | [] => before
  | s :: rest =>
    let dots := plainDots s
    let next :=
      if dots == ['.', '.'] then before.dropLast ++ (if rest.isEmpty then [[]] else [])
      else if dots == ['.'] then before ++ (if rest.isEmpty then [[]] else [])
      else before ++ [escapeSegment s]
    appendSegments next rest

/-- The segments between slashes. -/
def splitSlashes (special : Bool) (s : List Char) : List (List Char) :=
  Text.splitAt '/' (s.map fun c => if isSlash special c then '/' else c)

/-- Characters that no host holds. -/
def isForbiddenInHost (c : Char) : Bool :=
  c.toNat < 0x20 || c.toNat == 0x7F
    || [' ', '#', '/', ':', '<', '>', '?', '@', '[', '\\', ']', '^', '|'].contains c

/-- A host as it is written. -/
def readHost (special : Bool) (s : List Char) : Except Fault (List Char) :=
  match s with
  | '[' :: rest =>
    if rest.getLast? == some ']' && isIpv6 rest.dropLast then .ok (s.map Char.toLower)
    else .error .invalidIpv6
  | _ =>
    if !special then
      if s.any fun c => isForbiddenInHost c && c.toNat ≥ 0x20 then .error .invalidDomain
      else .ok (escape [] s)
    else
      let decoded := ((Pointer.unescapeFragment? s).getD s).flatMap Text.toLower
      if decoded.isEmpty then .error .emptyHost
      else if decoded.any fun c => isForbiddenInHost c || c == '%' then .error .invalidDomain
      else if endsInNumber decoded then
        match ipv4OfHost? decoded with
        | some a => .ok a
        | none => .error .invalidIpv4
      else .ok decoded

/-- A port with its colon; the one that the scheme implies is left out. -/
def readPort (scheme s : List Char) : Except Fault (List Char) :=
  if s.isEmpty then .ok []
  else if !s.all Json.Token.isDigit then .error .invalidPort
  else
    let n := Json.Token.digitsValue (s.map Json.Token.digitValue)
    if n > 65535 then .error .invalidPort
    else if defaultPort? scheme == some n then .ok []
    else .ok (':' :: (toString n).toList)

/-- The text before and behind the last occurrence of a character. -/
def splitLast? (mark : Char) (s : List Char) : Option (List Char × List Char) :=
  let back := s.reverse
  match back.dropWhile (· != mark) with
  | _ :: front => some (front.reverse, (back.takeWhile (· != mark)).reverse)
  | [] => none

/-- Host and port; a colon inside brackets belongs to the host. -/
def splitPort (s : List Char) : List Char × List Char :=
  match s with
  | '[' :: _ =>
    let (host, rest) := cutAt [']'] s
    match rest with
    | ']' :: ':' :: port => (host ++ [']'], port)
    | _ => (s, [])
  | _ =>
    match cutAt [':'] s with
    | (host, _ :: port) => (host, port)
    | (host, []) => (host, [])

/-- User, host and port as they are written. -/
def readAuthority (scheme s : List Char) : Except Fault (List Char) := do
  let special := isSpecial scheme
  let (user, rest) := match splitLast? '@' s with
    | some (user, rest) =>
      let (name, password) := cutAt [':'] user
      let text := escapeUser name ++ (match password with
        | _ :: p => if p.isEmpty then [] else ':' :: escapeUser p
        | [] => [])
      (if text.isEmpty then [] else text ++ ['@'], rest)
    | none => ([], s)
  let (host, port) := splitPort rest
  let host ← if host.isEmpty && (!special || isFile scheme) then pure [] else readHost special host
  if host.isEmpty && !port.isEmpty then throw .emptyHost
  let port ← readPort scheme port
  return user ++ host ++ port

/-- A URL whose authority begins here. -/
def readWithAuthority (scheme s : List Char) : Except Fault Url := do
  let special := isSpecial scheme
  let marks := ['/', '?', '#'] ++ (if special then ['\\'] else [])
  let (front, rest) := cutAt marks s
  let authority ← readAuthority scheme front
  let (path, query, fragment) := splitTail special rest
  let parts := match path with
    | [] => if special then [[]] else []
    | _ :: p => appendSegments [] (splitSlashes special p)
  return ⟨scheme, some authority, .segments parts, query, fragment⟩

/-- A URL with an absolute path or opaque text behind its scheme. -/
def readPathOnly (scheme : List Char) (authority : Option (List Char)) (s : List Char) : Url :=
  let special := isSpecial scheme
  let (path, query, fragment) := splitTail special s
  match path with
  | c :: p =>
    if isSlash special c then
      ⟨scheme, authority, .segments (appendSegments [] (splitSlashes special p)), query, fragment⟩
    else ⟨scheme, authority, .rootless (escape [] path), query, fragment⟩
  | [] => ⟨scheme, authority, .rootless [], query, fragment⟩

/-- A URL without scheme, relative to a base. -/
def readRelative (base : Url) (s : List Char) : Except Fault Url :=
  let special := isSpecial base.scheme
  match base.path with
  | .rootless _ =>
    match s with
    | '#' :: f => .ok { base with fragment := some (escapeFragment f) }
    | _ => .error .baseWithoutHierarchy
  | .segments parts =>
    match s with
    | a :: b :: rest =>
      if isSlash special a && isSlash special b then readWithAuthority base.scheme rest
      else .ok (onSegments parts special)
    | _ => .ok (onSegments parts special)
where
  /-- A path, query or fragment on the segments of the base. -/
  onSegments (parts : List (List Char)) (special : Bool) : Url :=
    let (path, query, fragment) := splitTail special s
    match path with
    | [] =>
      { base with query := if query.isSome then query else base.query, fragment }
    | c :: p =>
      let merged :=
        if isSlash special c then appendSegments [] (splitSlashes special p)
        else appendSegments parts.dropLast (splitSlashes special path)
      { base with path := .segments merged, query, fragment }

/-- A URL behind its scheme. -/
def readAfterScheme (base : Option Url) (scheme s : List Char) : Except Fault Url :=
  if isFile scheme then
    match s with
    | a :: b :: rest =>
      if isSlash true a && isSlash true b then readWithAuthority scheme rest
      else .ok (readPathOnly scheme (some []) (if isSlash true a then s else '/' :: s))
    | _ => .ok (readPathOnly scheme (some []) (if s.head?.any (isSlash true) then s else '/' :: s))
  else if isSpecial scheme then
    let relative := !s.head?.any (isSlash true)
    match base with
    | some b =>
      if relative && b.scheme == scheme then readRelative b s
      else readWithAuthority scheme (s.dropWhile (isSlash true))
    | none => readWithAuthority scheme (s.dropWhile (isSlash true))
  else
    match s with
    | '/' :: '/' :: rest => readWithAuthority scheme rest
    | s => .ok (readPathOnly scheme none s)

/-- Blanks and control characters around a text, and line ends and tabs inside it, do not count. -/
def clean (s : List Char) : List Char :=
  let isEdge (c : Char) : Bool := c.toNat ≤ 0x20
  (Text.dropRightWhile isEdge (s.dropWhile isEdge)).filter fun c => c != '\t' && c != '\n' && c != '\r'

/-- The URL of a text. -/
def read (base : Option Url) (text : String) : Except Fault Url :=
  let s := clean text.toList
  match splitScheme? s with
  | some (scheme, rest) => readAfterScheme base scheme rest
  | none =>
    match base with
    | some b => readRelative b s
    | none => .error .relativeWithoutBase

/-- The URL of a text relative to another URL. -/
def join (base : Url) (text : String) : Except Fault Url := read (some base) text

end Url

end DecoderForge
