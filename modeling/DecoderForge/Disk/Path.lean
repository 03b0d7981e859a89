import DecoderForge.Text.Blank

/-!
# DecoderForge — paths as text

A path is a text of components between slashes.  Empty components and `.` say nothing; `..` goes up.
-/

namespace DecoderForge.Disk

/-- A step of a path. -/
inductive Component where
  | up
  | name (s : List Char)
deriving DecidableEq, Repr

namespace Path

/-- Whether a path starts at the root. -/
def isAbsolute (path : List Char) : Bool := path.head? == some '/'

/-- The step that a component means. -/
def component? (segment : List Char) : Option Component :=
  if segment == [] || segment == ['.'] then none
  else if segment == ['.', '.'] then some .up
  else some (.name segment)

/-- The steps of a path. -/
def components (path : List Char) : List Component :=
  (Text.splitAt '/' path).filterMap component?

/-- The name that a path ends in; none when it ends in `..` or has no step. -/
def fileName? (path : List Char) : Option (List Char) :=
  match (components path).getLast? with
  | some (.name s) => some s
  | _ => none

/-- A path below another. -/
def join (base file : List Char) : List Char :=
  if isAbsolute file || base.isEmpty then file
  else if base.getLast? == some '/' then base ++ file
  else base ++ ['/'] ++ file

/-- A name without what follows its last dot; a leading dot counts for nothing. -/
def stem (name : List Char) : List Char :=
  match name with
  | [] => []
  | c :: rest =>
    match (rest.reverse.dropWhile (· != '.')).tail with
    | [] => if rest.head? == some '.' then [c] else name
    | before => c :: before.reverse

/-- The path up to the end of its last name, without slashes behind it. -/
def trimEnd (path : List Char) : List Char :=
  let cut := (Text.splitAt '/' path).reverse.dropWhile fun s => (component? s).isNone
  Text.joinWith ['/'] cut.reverse

/-- The path with another ending on its last name. -/
def withExtension (path ending : List Char) : List Char :=
  match fileName? path with
  | none => path
  | some name =>
    let whole := trimEnd path
    whole.take (whole.length - name.length) ++ stem name ++ ['.'] ++ ending

end Path

end DecoderForge.Disk
