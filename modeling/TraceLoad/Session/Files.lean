import TraceLoad.Session

/-! # Files of a simulated session

A session that is simulated finds the files that it is given in an otherwise empty directory, and
around it the directories and devices that every system has. A path is followed name by name, from
the directory of the files or from the root.

* `Files.contents` is what reading a path gives.
* `Files.output` is the place that an output of a path goes to, or why it cannot be created.
-/

namespace TraceLoad

/-- What is wrong with a path, or with what it leads to. -/
inductive FileError where
  | notFound
  | noDevice
  | notDirectory
  | isDirectory
  | noSpace
  | nameTooLong
  /-- a NUL character in a path -/
  | nulInPath
deriving DecidableEq

/-- The system's word on an error. -/
def FileError.reason : FileError → String
  | notFound => "No such file or directory (os error 2)"
  | noDevice => "No such device or address (os error 6)"
  | notDirectory => "Not a directory (os error 20)"
  | isDirectory => "Is a directory (os error 21)"
  | noSpace => "No space left on device (os error 28)"
  | nameTooLong => "File name too long (os error 36)"
  | nulInPath => "file name contained an unexpected NUL byte"

/-- A file that takes or gives characters and keeps none. -/
inductive Device where
  | null
  /-- zeros or noise without end -/
  | endless
  /-- zeros without end, and no room -/
  | full
  | input
  | output
  | errors
  /-- a terminal, of which there is none -/
  | terminal
deriving DecidableEq

/-- The files by their paths. -/
structure Files where
  texts : List (String × String)
deriving DecidableEq

/-- What names on the way from the root lead to. -/
inductive Place where
  | directory
  | file (text : String)
  | device (device : Device)
  | nothing
deriving DecidableEq

namespace Files

/-- The most bytes of a name in a path. -/
def longestName : Nat := 255

/-- A path has fewer bytes than this. -/
def pathBound : Nat := 4096

/-- The directory of the files. -/
def home : List String := ["tmp", "work"]

/-- The directories that are always there. -/
def directories : List (List String) := [
  [], ["tmp"], home, ["dev"], ["dev", "fd"], ["dev", "pts"], ["dev", "shm"], ["proc"],
  ["proc", "self"], ["proc", "self", "fd"], ["etc"], ["usr"], ["bin"], ["home"], ["root"], ["var"]]

/-- The devices, by the names on the way to them. -/
def devices : List (List String × Device) := [
  (["dev", "null"], .null), (["dev", "zero"], .endless), (["dev", "random"], .endless),
  (["dev", "urandom"], .endless), (["dev", "full"], .full), (["dev", "tty"], .terminal),
  (["dev", "stdin"], .input), (["dev", "stdout"], .output), (["dev", "stderr"], .errors),
  (["dev", "fd", "0"], .input), (["dev", "fd", "1"], .output), (["dev", "fd", "2"], .errors),
  (["proc", "self", "fd", "0"], .input), (["proc", "self", "fd", "1"], .output),
  (["proc", "self", "fd", "2"], .errors)]

/-- The names in a path; empty ones and points lead nowhere. -/
def namesIn (path : String) : List String := (path.splitOn "/").filter (· ∉ ["", "."])

/-- What names on the way from the root lead to. -/
def placeAt (files : Files) (names : List String) : Place :=
  let located := files.texts.map fun f => (home ++ namesIn f.1, f.2)
  match located.lookup names, devices.lookup names with
  | some text, _ => .file text
  | none, some d => .device d
  | none, none =>
    if names ∈ directories ∨ located.any fun f => names.isPrefixOf f.1 then .directory
    else .nothing

/-- Follows names from a directory on: where they lead, and to what. -/
def follow (files : Files) (start : List String) :
    List String → Except FileError (List String × Place)
  | [] => .ok (start, files.placeAt start)
  | name :: rest =>
    match files.placeAt start with
    | .file _ | .device _ => .error .notDirectory
    | .nothing => .error .notFound
    | .directory =>
      if name = "" ∨ name = "." then follow files start rest
      else if name = ".." then follow files start.dropLast rest
      else if longestName < name.utf8ByteSize then .error .nameTooLong
      else follow files (start ++ [name]) rest

/-- The names of a path; a text that cannot be a path is refused. -/
def names (path : String) : Except FileError (List String) :=
  if path.toList.any (·.toNat = 0) then .error .nulInPath
  else if path = "" then .error .notFound
  else if pathBound ≤ path.utf8ByteSize then .error .nameTooLong
  else .ok (path.splitOn "/")

/-- The directory where a path starts. -/
def start (path : String) : List String := if path.startsWith "/" then [] else home

/-- What reading a file gives. Nothing is sent to the program. Of zeros and noise one byte is taken,
which is enough to refuse them. -/
def contents (files : Files) (path : String) : FileContents :=
  match names path >>= files.follow (start path) with
  | .error e => .absent e.reason
  | .ok (_, .nothing) => .absent FileError.notFound.reason
  | .ok (_, .directory) => .unreadable FileError.isDirectory.reason
  | .ok (_, .file text) => .bytes text.toUTF8.toList
  | .ok (_, .device .terminal) => .absent FileError.noDevice.reason
  | .ok (_, .device .endless) | .ok (_, .device .full) => .bytes [0]
  | .ok (_, .device _) => .bytes []

/-- The place of an output, or why it cannot be created. A path with a slash at its end names a
directory, and nothing can be created among processes. -/
def output (files : Files) (path : String) : Except FileError Place := do
  let names := ((← names path).reverse.dropWhile (· = "")).reverse
  let final := names.getLast?.getD ""
  match ← files.follow (start path) names.dropLast with
  | (_, .nothing) => .error .notFound
  | (_, .file _) | (_, .device _) => .error .notDirectory
  | (directory, .directory) =>
    if path.endsWith "/" ∨ final ∈ ["", ".", ".."] then .error .isDirectory
    else if longestName < final.utf8ByteSize then .error .nameTooLong
    else
      match files.placeAt (directory ++ [final]) with
      | .directory => .error .isDirectory
      | .device .terminal => .error .noDevice
      | .nothing => if directory.head? = some "proc" then .error .notFound else .ok .nothing
      | place => .ok place

/-- The contents of the file that a topology comes from, if it comes from one. -/
def contentsOf (files : Files) : TopologySource → FileContents
  | .builtin => .absent ""
  | .file path => files.contents path

/-- The place where a command line wants its output; without a path it is printed. -/
def outputOf (files : Files) (line : CommandLine) : Except Failure Place :=
  match line.output with
  | none => .ok (.device .output)
  | some path => (files.output path).mapError fun e => .output path e.reason

end Files

/-- What becomes of what is written to a place. -/
def Place.sink : Place → Nat → SinkOutcome
  | .device .full, _ => .failed FileError.noSpace.reason
  | _, _ => .written

end TraceLoad
