/-!
# Paths of modules

Paths are plain texts with `/` between their parts.  Repeated separators and `.`
parts mean nothing inside a path.  Relative paths start at the working
directory, which is the root.
-/

namespace ArenaScript.Path

def pieces (separator : Char) : List Char → List (List Char)
  | [] => [[]]
  | c :: rest =>
      if c = separator then [] :: pieces separator rest
      else
        match pieces separator rest with
        | [] => [[c]]
        | piece :: others => (c :: piece) :: others

def glue (separator : Char) : List (List Char) → List Char
  | [] => []
  | [piece] => piece
  | piece :: rest => piece ++ separator :: glue separator rest

theorem pieces_ne_nil (separator : Char) (cs : List Char) :
    pieces separator cs ≠ [] := by
  cases cs with
  | nil => simp [pieces]
  | cons c rest =>
      unfold pieces
      split
      · simp
      · split <;> simp

/-! ## Components -/

inductive Component where
  | root
  | current
  | parent
  | name (text : String)
  deriving DecidableEq, Repr

def parts (path : String) : List String :=
  (pieces '/' path.toList).map String.ofList

def isAbsolute (path : String) : Bool := path.toList.head? == some '/'

def component? (part : String) : Option Component :=
  if part == "" || part == "." then none
  else if part == ".." then some .parent
  else some (.name part)

/-- The components of a path.  A `.` counts only at the start of a relative
path. -/
def components (path : String) : List Component :=
  let named := (parts path).filterMap component?
  if isAbsolute path then .root :: named
  else if (parts path).head? == some "." then .current :: named
  else named

def same (a b : String) : Bool := components a == components b

def join (dir path : String) : String :=
  if isAbsolute path then path
  else
    match dir.toList.getLast? with
    | none | some '/' => dir ++ path
    | some _ => dir ++ "/" ++ path

/-! ## Normal form -/

/-- The names left when every `..` has taken away the name before it, if there
is one. -/
def resolve (names : List String) : List Component → List String
  | [] => names
  | .parent :: rest => resolve names.dropLast rest
  | .name text :: rest => resolve (names ++ [text]) rest
  | _ :: rest => resolve names rest

def ofNames (names : List String) : String :=
  String.ofList ('/' :: glue '/' (names.map String.toList))

def normalize (path : String) : String := ofNames (resolve [] (components path))

/-! ## Files -/

def renderComponent : Component → List Char
  | .root => []
  | .current => ['.']
  | .parent => ['.', '.']
  | .name text => text.toList

def render : List Component → String
  | [.root] => "/"
  | cs => String.ofList (glue '/' (cs.map renderComponent))

def parent? (path : String) : Option String :=
  match components path with
  | [] => none
  | [.root] => none
  | cs => some (render cs.dropLast)

def fileName? (path : String) : Option String :=
  match (components path).getLast? with
  | some (.name text) => some text
  | _ => none

def extension? (path : String) : Option String := do
  let name ← fileName? path
  let pieces := pieces '.' name.toList
  if glue '.' pieces.dropLast == [] then none else
    pieces.getLast?.map String.ofList

def withExtension (path ext : String) : String :=
  match fileName? path with
  | some _ => render (components path) ++ "." ++ ext
  | none => path

/-- Files a module request may stand for, seen from `dir`: a request with an
extension is taken as it is, any other stands for a file of the language or for
the main file of a directory. -/
def candidates (request dir : String) : List String :=
  let path := join dir request
  match extension? path with
  | some _ => [path]
  | none => [withExtension path "vx", join path "mod.vx"]

def searchPath (text : String) : List String :=
  ((pieces ':' text.toList).map String.ofList).filter (· != "")

end ArenaScript.Path
