/-!
# Paths

A path is a text; slashes separate its segments. Empty segments mean nothing, and neither does a
segment that is a single dot, unless the path starts with it. What remains are the components. The
text of a path is kept as it was written, since messages show it.

## Main results

* `join_empty`: below the empty path a name is its own path.
-/

namespace Stencil.Path

/-- The pieces between the slashes of a text. -/
def segmentsOf : List Char → List (List Char)
  | [] => [[]]
  | c :: rest =>
      match segmentsOf rest with
      | [] => [[]]
      | first :: others => if c = '/' then [] :: first :: others else (c :: first) :: others

/-- The pieces between the slashes of a path. -/
def segments (path : String) : List String := (segmentsOf path.toList).map String.ofList

/-- Does the path start at the root of the file system? -/
def isAbsolute (path : String) : Bool := path.toList.head? == some '/'

/-- A piece of a path. -/
inductive Component where
  /-- The root of the file system. -/
  | root
  /-- The directory itself. -/
  | here
  /-- The directory above. -/
  | parent
  | name (text : String)
  deriving DecidableEq, Repr

/-- The component that a segment which is not the first one stands for. -/
def Component.ofSegment? (segment : String) : Option Component :=
  if segment = "" ∨ segment = "." then none
  else if segment = ".." then some .parent
  else some (.name segment)

/-- The components of a path, each with the segments after it. -/
def locate (path : String) : List (Component × List String) :=
  match segments path with
  | [] => []
  | first :: rest =>
      let start : Option Component :=
        if isAbsolute path then some .root
        else if first = "." then some .here
        else Component.ofSegment? first
      (start.map (·, rest)).toList ++ later rest
where
  /-- The components of the segments after the first one. -/
  later : List String → List (Component × List String)
    | [] => []
    | segment :: rest =>
        ((Component.ofSegment? segment).map (·, rest)).toList ++ later rest

/-- The components of a path. -/
def components (path : String) : List Component := (locate path).map Prod.fst

/-- The last component, when it is a name. -/
def fileName? (path : String) : Option String :=
  match (components path).getLast? with
  | some (.name text) => some text
  | _ => none

/-- What follows the last dot of the last component. A name that starts with its only dot has no
extension. -/
def extension? (path : String) : Option String := do
  let name ← fileName? path
  let reversed := name.toList.reverse
  let before := (reversed.dropWhile (· != '.')).drop 1
  if before.isEmpty then none
  else some (String.ofList (reversed.takeWhile (· != '.')).reverse)

/-- A path below another one. An absolute path is below none. -/
def join (base path : String) : String :=
  if isAbsolute path ∨ base = "" then path
  else if base.toList.getLast? = some '/' then base ++ path
  else base ++ "/" ++ path

/-- The segments, from the last one, without those at the end that mean nothing. -/
def dropIdle : List String → List String
  | [] => []
  | [first] => [first]
  | segment :: rest => if segment = "" ∨ segment = "." then dropIdle rest else segment :: rest

/-- The path without its last component, if it has one that is not the root. -/
def parent? (path : String) : Option String :=
  match dropIdle (segments path).reverse with
  | [] => none
  | [first] => if first = "" then none else some ""
  | _ :: rest =>
      let kept := dropIdle rest
      some (if kept = [""] then "/" else "/".intercalate kept.reverse)

/-- The path as seen from a directory above it; a path that is not below the directory stays as it
is. -/
def relativeTo (base path : String) : String :=
  let above := components base
  if above.isPrefixOf (components path) then
    match (locate path)[above.length - 1]? with
    | some (_, rest) =>
        if above.isEmpty then path
        else "/".intercalate (rest.dropWhile fun segment => segment = "" ∨ segment = ".")
    | none => path
  else path

theorem join_empty (path : String) : join "" path = path := by simp [join]

end Stencil.Path
