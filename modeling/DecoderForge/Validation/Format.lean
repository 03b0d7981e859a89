import DecoderForge.Options.Basic
import DecoderForge.Pattern.Reader
import DecoderForge.Url.Basic
import DecoderForge.Validation.Moment

/-!
# DecoderForge — formats of strings

* `Format.ofName?` — the format that a draft knows under a name.
* `Format.holds` — whether a text has a format.
-/

namespace DecoderForge

/-- The formats that validation enforces. -/
inductive Format where
  | date | dateTime | time
  | email | idnEmail
  | hostname | idnHostname
  | ipv4 | ipv6
  | uri | iri | uriReference | iriReference | uriTemplate
  | jsonPointer | relativeJsonPointer
  | regex
deriving DecidableEq, Repr

namespace Format

/-- The name of a format. -/
def name : Format → String
  | .date => "date"
  | .dateTime => "date-time"
  | .time => "time"
  | .email => "email"
  | .idnEmail => "idn-email"
  | .hostname => "hostname"
  | .idnHostname => "idn-hostname"
  | .ipv4 => "ipv4"
  | .ipv6 => "ipv6"
  | .uri => "uri"
  | .iri => "iri"
  | .uriReference => "uri-reference"
  | .iriReference => "iri-reference"
  | .uriTemplate => "uri-template"
  | .jsonPointer => "json-pointer"
  | .relativeJsonPointer => "relative-json-pointer"
  | .regex => "regex"

def all : List Format :=
  [.date, .dateTime, .time, .email, .idnEmail, .hostname, .idnHostname, .ipv4, .ipv6, .uri, .iri,
    .uriReference, .iriReference, .uriTemplate, .jsonPointer, .relativeJsonPointer, .regex]

/-- Whether a draft knows a format. -/
def isKnownIn (draft : Draft) : Format → Bool
  | .jsonPointer | .uriReference | .uriTemplate => draft != .draft4
  | .idnHostname | .iri | .iriReference | .relativeJsonPointer => draft == .draft7
  | _ => true

/-- The format that a draft knows under a name. -/
def ofName? (draft : Draft) (name : String) : Option Format :=
  all.find? fun f => f.name == name && f.isKnownIn draft

/-! ## Addresses -/

/-- Whether an `@` stands behind the first character, and before it no dot is the first character, the
last one or next to another dot. -/
def isEmail (s : List Char) : Bool :=
  s.head? != some '.' && scan s
where
  /-- The pairs of neighbours up to the first `@`. -/
  scan : List Char → Bool
    | a :: b :: rest =>
      if b == '@' then a != '.'
      else if a == '.' && b == '.' then false
      else scan (b :: rest)
    | _ => false

/-- Letters, numbers, hyphens and dots; at most 255 in all and 63 between dots. -/
def isHostname (s : List Char) : Bool :=
  !s.isEmpty && s.head? != some '-' && s.getLast? != some '-' && s.length ≤ 255
    && s.all (fun c => Text.isAlphanumeric c || c == '-' || c == '.')
    && (Text.splitAt '.' s).all fun part => part.length ≤ 63

/-! ## Patterns -/

def timePattern : String :=
  "^([01][0-9]|2[0-3]):([0-5][0-9]):([0-5][0-9])(\\.[0-9]\x7b6\x7d)?(([Zz])|([+|\\-]([01][0-9]|2[0-3]):[0-5][0-9]))\\z"

def uriReferencePattern : String := "^(\\w+:(/?/?))?[^#\\\\\\s]*(#[^\\\\\\s]*)?\\z"

def jsonPointerPattern : String := "^(/(([^/~])|(~[01]))*)*\\z"

def relativeJsonPointerPattern : String := "^(?:0|[1-9][0-9]*)(?:#|(?:/(?:[^~/]|~0|~1)*)*)\\z"

/-- A variable of a URI template. -/
def templateVariable : String := "(?:[a-z0-9_]|%[0-9a-f]\x7b2\x7d)+(?::[1-9][0-9]\x7b0,3\x7d|\\*)?"

def uriTemplatePattern : String :=
  "^(?:(?:[^\\x00-\\x20\"'<>%\\\\^`\x7b|\x7d]|%[0-9a-f]\x7b2\x7d)|\\\x7b[+#./;?&=,!@|]?" ++ templateVariable
    ++ "(?:," ++ templateVariable ++ ")*\\\x7d)*\\z"

/-- Whether a text matches the pattern that another text is. -/
def matchesText (pattern : String) (s : List Char) : Bool :=
  match Pattern.read? pattern.toList with
  | some p => p.isFoundIn (String.ofList s)
  | none => false

/-! ## The formats -/

/-- Whether a text is a URL. -/
def isUrl (s : List Char) : Bool :=
  match Url.read none (String.ofList s) with
  | .ok _ => true
  | .error _ => false

/-- Whether a text has a format. -/
def holds (f : Format) (s : List Char) : Bool :=
  match f with
  | .date => Moment.isDate s
  | .dateTime => Moment.isDateTime s
  | .time => matchesText timePattern s
  | .email | .idnEmail => isEmail s
  | .hostname | .idnHostname => isHostname s
  | .ipv4 => s.head? != some '0' && Url.isIpv4 s
  | .ipv6 => Url.isIpv6 s
  | .uri | .iri => isUrl s
  | .uriReference | .iriReference => matchesText uriReferencePattern s
  | .uriTemplate => matchesText uriTemplatePattern s
  | .jsonPointer => matchesText jsonPointerPattern s
  | .relativeJsonPointer => matchesText relativeJsonPointerPattern s
  | .regex => (Pattern.readPortable? (String.ofList s)).isSome

end Format

end DecoderForge
