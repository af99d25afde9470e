import Stencil.Fault
import Stencil.Path

/-!
# Files

A tree of directories and files. A location in it is the list of the names that lead to it from the
root of the file system; a path is walked from the working directory to a location, and every
directory on the way must be there.

## Main results

* `bytes?_put_same`, `bytes?_put_other`: what is at a location after a file was put there, and that
  other locations keep their files.
-/

namespace Stencil

/-- The names that lead from the root of the file system to a file or directory. -/
abbrev Location := List String

/-- Directories, files with their bytes, and the working directory. -/
structure Files where
  directories : List Location
  contents : List (Location × ByteArray)
  workingDirectory : Location

namespace Files

/-- Is there a directory at this location? The root is one. -/
def hasDirectory (files : Files) (location : Location) : Bool :=
  location.isEmpty || files.directories.contains location

/-- The bytes of the file at a location. -/
def bytes? (files : Files) (location : Location) : Option ByteArray :=
  (files.contents.find? (·.1 == location)).map Prod.snd

/-- Goes from a directory along the segments of a path. What the path leads to need not be there. -/
def walk (files : Files) (location : Location) : List String → Option Location
  | [] => some location
  | segment :: rest =>
      if files.hasDirectory location then
        if segment = "" ∨ segment = "." then walk files location rest
        else if segment = ".." then walk files location.dropLast rest
        else walk files (location ++ [segment]) rest
      else none

/-- The location that a path leads to. -/
def locate? (files : Files) (path : String) : Option Location :=
  if path = "" then none
  else if Path.isAbsolute path then files.walk [] (Path.segments path)
  else files.walk files.workingDirectory (Path.segments path)

/-- Does the path lead to a directory? -/
def isDirectory (files : Files) (path : String) : Bool :=
  (files.locate? path).any files.hasDirectory

/-- The bytes of the file that a path leads to. -/
def read? (files : Files) (path : String) : Option ByteArray :=
  (files.locate? path).bind files.bytes?

/-- Does the path lead to a file? -/
def isFile (files : Files) (path : String) : Bool := (files.read? path).isSome

/-- The text of the file that a path leads to, if it is one. -/
def readText (files : Files) (path : String) : Except Failure String :=
  match (files.read? path).bind String.fromUTF8? with
  | some text => .ok text
  | none => .error .file

/-- The names of the files in a directory. -/
def fileNames (files : Files) (directory : Location) : List String :=
  files.contents.filterMap fun (location, _) =>
    if location.dropLast = directory then location.getLast? else none

/-- The location that a path names, whether or not the directories on the way are there. -/
def placeOf (workingDirectory : Location) (path : String) : Location :=
  (Path.segments path).foldl place (if Path.isAbsolute path then [] else workingDirectory)
where
  /-- Goes from a location along a segment. -/
  place (location : Location) (segment : String) : Location :=
    if segment = "" ∨ segment = "." then location
    else if segment = ".." then location.dropLast
    else location ++ [segment]

/-- The absolute path of a location. -/
def pathOf (location : Location) : String := "/" ++ "/".intercalate location

/-! ## Changes -/

/-- Puts bytes into the file at a location. -/
def put (files : Files) (location : Location) (bytes : ByteArray) : Files :=
  { files with contents := (location, bytes) :: files.contents.filter (·.1 != location) }

/-- Makes the directory at a location and those above it. -/
def addDirectories (files : Files) (location : Location) : Files :=
  let missing := (List.range (location.length + 1)).map location.take
  { files with
    directories := files.directories ++ missing.filter (!files.hasDirectory ·) }

/-- Takes away the file that a path leads to. Where it leads to none, all stays as it is. -/
def remove (files : Files) (path : String) : Files :=
  match files.locate? path with
  | some location => { files with contents := files.contents.filter (·.1 != location) }
  | none => files

/-- Adds a file with its bytes, or a directory, and all directories above it. -/
def add (files : Files) (location : Location) : Option ByteArray → Files
  | some bytes => (files.addDirectories location.dropLast).put location bytes
  | none => files.addDirectories location

/-- Writes bytes to the file that a path leads to. Its directory must be there. -/
def write (files : Files) (path : String) (bytes : ByteArray) : Except Failure Files :=
  match files.locate? path with
  | some location =>
      if location.isEmpty || files.hasDirectory location ||
          !files.hasDirectory location.dropLast then
        .error .file
      else .ok (files.put location bytes)
  | none => .error .file

/-- Writes a text to the file that a path leads to. -/
def writeText (files : Files) (path text : String) : Except Failure Files :=
  files.write path text.toUTF8

/-- Makes the directory of a path and those above it. A file may not be in the way. -/
def makeDirectories (files : Files) (path : String) : Except Failure Files :=
  go files (if Path.isAbsolute path then [] else files.workingDirectory) (Path.segments path)
where
  /-- Goes along the segments and makes the directories that are missing. -/
  go (files : Files) (location : Location) : List String → Except Failure Files
    | [] => .ok files
    | segment :: rest =>
        if segment = "" ∨ segment = "." then go files location rest
        else if segment = ".." then go files location.dropLast rest
        else
          let location := location ++ [segment]
          if (files.bytes? location).isSome then .error .file
          else go (files.addDirectories location) location rest

/-- The directories that are there and were not there before. -/
def newDirectories (before after : Files) : List Location :=
  after.directories.filter (!before.hasDirectory ·)

/-- The files whose bytes are not those of before. -/
def changes (before after : Files) : List (Location × ByteArray) :=
  after.contents.filter fun (location, bytes) => before.bytes? location != some bytes

/-- What was put at a location is found there. -/
theorem bytes?_put_same (files : Files) (location : Location) (bytes : ByteArray) :
    (files.put location bytes).bytes? location = some bytes := by
  simp [put, bytes?]

/-- Other locations keep their contents. -/
theorem bytes?_put_other (files : Files) {location other : Location} (h : other ≠ location)
    (bytes : ByteArray) : (files.put location bytes).bytes? other = files.bytes? other := by
  unfold put bytes?
  simp only [List.find?_cons, beq_eq_false_iff_ne.2 (Ne.symm h)]
  congr 1
  induction files.contents with
  | nil => rfl
  | cons entry rest ih =>
      by_cases hSame : entry.1 = location
      · rw [List.filter_cons_of_neg (by simp [hSame])]
        simp only [List.find?_cons, hSame, beq_eq_false_iff_ne.2 (Ne.symm h)]
        exact ih
      · rw [List.filter_cons_of_pos (by simp [hSame])]
        simp only [List.find?_cons]
        split
        · rfl
        · exact ih

/-! ## Files that start with a path -/

/-- Goes from a directory along segments and writes the path down as it goes. -/
def descend (files : Files) (path : String) : List String → Option String
  | [] => some path
  | segment :: rest =>
      let next := if path = "." then segment else Path.join path segment
      if (files.locate? next).any fun location => files.hasDirectory location then
        descend files next rest
      else none

/-- The paths of the files whose names are the last segment of a path, a dot, and something more, in
the order of their names. -/
def withExtension (files : Files) (path : String) : List String :=
  let segments := Path.segments path
  let stem := segments.getLast?.getD "" ++ "."
  let start := if Path.isAbsolute path then "/" else "."
  let above := if Path.isAbsolute path then segments.dropLast.tail else segments.dropLast
  match files.descend start above with
  | none => []
  | some directory =>
      match files.locate? directory with
      | none => []
      | some location =>
          let names := (files.fileNames location).filter fun name =>
            stem.toList.isPrefixOf name.toList && name.toList.getLast? != some '~'
          (names.mergeSort fun a b => a ≤ b).map fun name =>
            if directory = "." then name else Path.join directory name

/-- The file that a path stands for: the first one whose name goes on with a dot, or the file
itself. -/
def find? (files : Files) (path : String) : Option String :=
  match files.withExtension path with
  | first :: _ => some first
  | [] => if files.isFile path then some path else none

end Files

end Stencil
