import ConsolePipeline.CommandLine.World

namespace ConsolePipeline.CommandLine

/-!
# A model of the surroundings

A session can run without touching real files: in a shell whose files form a tree, and whose two
outputs are texts. The session runs in a directory of that tree. Some devices lie there too, among
them the outputs themselves.

* `Shell.find` — the place that a path leads to.
* `Shell.read?`, `Shell.put` — single files.
* `Shell.world` — the shell as the surroundings of a session.
-/

/-- A place in a tree of files: the steps that lead there from its root, the latest first. -/
abbrev Place := List String

/-- A file that is not one of stored bytes. -/
inductive Device
  /-- Always empty; takes whatever is written to it. -/
  | null
  /-- Takes nothing. -/
  | full
  | out
  | err
  deriving DecidableEq, Repr, Inhabited

/-- The devices and their places. -/
def devices : List (Place × Device) :=
  [(["null", "dev"], .null), (["full", "dev"], .full),
    (["stdout", "dev"], .out), (["1", "fd", "dev"], .out),
    (["stderr", "dev"], .err), (["2", "fd", "dev"], .err)]

/-- The place where a session runs. -/
def workPlace : Place := ["session", "tmp"]

/-- The steps of a path. Repeated separators separate only once. -/
def stepsOf (path : String) : List String :=
  (path.splitOn "/").filter (· ≠ "")

/-- The most bytes of a path. -/
def pathLimit : Nat := 4095

/-- The most bytes of a single step. -/
def nameLimit : Nat := 255

/-- The files, with their contents, and what was printed. -/
structure Shell where
  /-- The latest file first. -/
  files : List (Place × ByteArray) := []
  out : ByteArray := .empty
  err : ByteArray := .empty
  deriving Inhabited

namespace Shell

/-- A shell with some files in the place where a session runs. -/
def ofFiles (files : List (String × ByteArray)) : Shell where
  files := files.map fun f => (((stepsOf f.1).filter (· ≠ ".")).reverse ++ workPlace, f.2)

/-- The places that are no directories. -/
def leaves (s : Shell) : List Place :=
  devices.map (·.1) ++ s.files.map (·.1)

/-- Whether a place is a directory: one above a file, or where the session runs or above. -/
def isDirectory (s : Shell) (place : Place) : Bool :=
  place.isSuffixOf workPlace || s.leaves.any fun leaf => place.isSuffixOf leaf && place != leaf

/-- One step from a place, which has to be a directory. -/
def step (s : Shell) (place : Place) (name : String) : Except FileError Place :=
  if s.leaves.contains place then throw .notDirectory
  else if !s.isDirectory place then throw .notFound
  else if nameLimit < name.utf8ByteSize then throw .nameTooLong
  else if name = "." then return place
  else if name = ".." then return place.tail
  else return name :: place

/-- **The place of the file that a path leads to,** whether or not it is there yet; or why there can
    be no such file. -/
def find (s : Shell) (path : String) : Except FileError Place := do
  if path.isEmpty then throw .notFound
  if pathLimit < path.utf8ByteSize then throw .nameTooLong
  let place ← (stepsOf path).foldlM s.step (if path.startsWith "/" then [] else workPlace)
  if path.endsWith "/" || s.isDirectory place then throw .isDirectory
  return place

/-- The contents of a file, if there is one. The outputs cannot be read. -/
def read? (s : Shell) (path : String) : Option ByteArray :=
  match s.find path with
  | .error _ => none
  | .ok place => match devices.lookup place with
    | some .null => some .empty
    | some _ => none
    | none => s.files.lookup place

/-- The contents of the file at a place; none if it is not there. -/
def contents (s : Shell) (place : Place) : ByteArray :=
  (s.files.lookup place).getD .empty

/-- Replace the file at a place. -/
def replace (s : Shell) (place : Place) (bytes : ByteArray) : Shell :=
  { s with files := (place, bytes) :: s.files.filter (·.1 != place) }

/-- Put bytes into a file, after the `kept` ones of those that it holds. -/
def put (kept : ByteArray → ByteArray) (path : String) (bytes : ByteArray) :
    StateM Shell (Except FileError Unit) := fun s =>
  match s.find path with
  | .error e => (.error e, s)
  | .ok place => match devices.lookup place with
    | none => (.ok (), s.replace place (kept (s.contents place) ++ bytes))
    | some .null => (.ok (), s)
    | some .full => (if bytes.isEmpty then .ok () else .error .noSpace, s)
    | some .out => (.ok (), { s with out := s.out ++ bytes })
    | some .err => (.ok (), { s with err := s.err ++ bytes })

/-- A shell as the surroundings of a session, in which time is not measured. -/
def world : World (StateM Shell) where
  read? path := fun s => (s.read? path, s)
  write := put fun _ => .empty
  append := put id
  print text := modify fun s => { s with out := s.out ++ (text ++ "\n").toUTF8 }
  complain text := modify fun s => { s with err := s.err ++ (text ++ "\n").toUTF8 }
  seconds := return "*"

end Shell

end ConsolePipeline.CommandLine
