import DirectoryStore.Contents
import DirectoryStore.Error

/-!
# Files and folders

The part of a file system that a store relies on.  A file is a list of bytes
that keeps its number for ever; a name stands for a file or a folder.  Taking a
name away leaves its file to those who hold it, so an open file survives the
removal and the replacement of its name.

A path is kept as it is written, and messages show it so.  It is followed name
by name from the root: an empty name and a dot stay where they are, two dots go
back, and any other name goes on.  Each name is looked up in a folder, and the
first one for which there is no folder decides how the attempt is refused.
Names and paths that no system takes are refused as well.
-/

namespace DirectoryStore

/-- The number of a file, which no other file ever gets. -/
abbrev FileId := Nat

/-! ## Paths -/

/-- A path as it is written below the root: what stands between its slashes. -/
abbrev Path := List String

namespace Path

def ofText (text : String) : Path := text.splitOn "/"

def text (path : Path) : String := "/".intercalate path

/-- Whether a name leads nowhere else: there is nothing in it, or one dot. -/
def staysPut (name : String) : Bool := name == "" || name == "."

def dropEndWhile (drop : String → Bool) (path : Path) : Path :=
  (path.reverse.dropWhile drop).reverse

def withoutFinalSlashes (path : Path) : Path := dropEndWhile (· == "") path

def endsInSlash (path : Path) : Bool := path.getLast? == some ""

def trimmed (path : Path) : Path :=
  dropEndWhile staysPut (path.dropWhile staysPut)

def maxNameSize : Nat := 255

/-- The most bytes a path can have, besides those of the way to the root. -/
def maxSize : Nat := 4079

def requireAdmissible (path : Path) : Except SystemRefusal Unit := do
  if path.any fun name => name.toList.any (·.toNat == 0) then
    throw .nulInPath
  if maxSize < (text path).utf8ByteSize then
    throw .nameTooLong

def child (path : Path) (name : String) : Path :=
  (if endsInSlash path then path.dropLast else path) ++ [name]

end Path

/--
The names on the way from the root to a file or a folder.  The folders above the
root are reached by two dots each.
-/
abbrev Place := List String

namespace Place

def isAboveRoot (place : Place) : Bool := place.all (· == "..")

def follow (folder : Place) (name : String) : Place :=
  if Path.staysPut name then folder
  else if name = ".." ∧ ¬ isAboveRoot folder then folder.dropLast
  else folder ++ [name]

end Place

/-! ## File systems -/

inductive Node where
  | file (id : FileId)
  | folder
  deriving DecidableEq, Repr

structure FileSystem where
  root : String
  files : List Contents
  nodes : List (Place × Node)
  locked : List FileId
  deriving DecidableEq, Repr

namespace FileSystem

def empty (root : String) : FileSystem := ⟨root, [], [], []⟩

def pathText (system : FileSystem) (path : Path) : String :=
  Path.text (system.root :: path)

/-! ## The contents of files -/

def contents (system : FileSystem) (file : FileId) : Contents :=
  system.files.getD file .empty

def setContents (system : FileSystem) (file : FileId) (contents : Contents) :
    FileSystem :=
  { system with files := system.files.set file contents }

def newFile (system : FileSystem) : FileId × FileSystem :=
  (system.files.length, { system with files := system.files ++ [.empty] })

/-! ## Places -/

/-- What is at a place; the root and the folders above it are always there. -/
def node? (system : FileSystem) (place : Place) : Option Node :=
  if place.isAboveRoot then some .folder else system.nodes.lookup place

def addNode (system : FileSystem) (place : Place) (node : Node) : FileSystem :=
  { system with nodes := (place, node) :: system.nodes }

def reachFrom (system : FileSystem) (place : Place) :
    Path → Except SystemRefusal Place
  | [] => .ok place
  | name :: rest =>
      match system.node? place with
      | some .folder =>
          if Path.maxNameSize < name.utf8ByteSize then .error .nameTooLong
          else reachFrom system (place.follow name) rest
      | some (.file _) => .error .notADirectory
      | none => .error .notFound

def reach (system : FileSystem) (path : Path) : Except SystemRefusal Place := do
  Path.requireAdmissible path
  system.reachFrom [] path

def existing? (system : FileSystem) (path : Path) : Option Node :=
  match system.reach path with
  | .ok place => system.node? place
  | .error _ => none

def isFolder (system : FileSystem) (path : Path) : Bool :=
  system.existing? path == some .folder

def names (system : FileSystem) (path : Path) : List String :=
  match system.reach path with
  | .error _ => []
  | .ok folder =>
      let inside := system.nodes.filterMap fun (place, _) =>
        match place.getLast? with
        | some name => if place.dropLast = folder then some name else none
        | none => none
      inside.mergeSort (· ≤ ·)

/-! ## Opening, making and removing -/

def openFile (system : FileSystem) (path : Path) :
    Except SystemRefusal FileId := do
  match system.node? (← system.reach path) with
  | some (.file file) => return file
  | some .folder => throw .isADirectory
  | none => throw .notFound

/--
Opens a file, which is made when nothing has its name.  A path that ends in a
slash asks for a folder, so it is refused like the path of a folder.
-/
def openOrMakeFile (system : FileSystem) (path : Path) :
    Except SystemRefusal (FileId × FileSystem) := do
  let place ← system.reach (Path.withoutFinalSlashes path)
  if Path.endsInSlash path then
    throw .isADirectory
  match system.node? place with
  | some (.file file) => return (file, system)
  | some .folder => throw .isADirectory
  | none =>
      let (file, system) := system.newFile
      return (file, system.addNode place (.file file))

def removeFile (system : FileSystem) (path : Path) :
    Except SystemRefusal FileSystem := do
  let place ← system.reach path
  let _ ← system.openFile path
  return { system with nodes := system.nodes.filter (·.1 ≠ place) }

/-! ## Making folders and files -/

def makeFolder (system : FileSystem) (path : Path) :
    Except SystemRefusal FileSystem := do
  let place ← system.reach (Path.withoutFinalSlashes path)
  if (system.node? place).isSome then
    throw .alreadyExists
  return system.addNode place .folder

/-- Changes of a file system, which keep what they did before they were refused. -/
abbrev SystemM := ExceptT SystemRefusal (StateM FileSystem)

def requireFolder (path : Path) : SystemM Unit := do
  let system ← get
  match system.makeFolder path with
  | .ok system => set system
  | .error refusal =>
      unless system.isFolder path do
        throw refusal

def requireFolderAfter (makeAbove : SystemM Unit) (path : Path) : SystemM Unit :=
  tryCatch (requireFolder path) fun
    | .notFound => do
        makeAbove
        requireFolder path
    | refusal => throw refusal

/-- The folders on the way to a path, which is given from its last name to its first. -/
def makeFoldersUpTo : (reversed : List String) → SystemM Unit
  | [] => return
  | name :: above =>
      if Path.staysPut name then
        makeFoldersUpTo above
      else
        requireFolderAfter (makeFoldersUpTo above) (name :: above).reverse

def makeFolders (path : Path) : SystemM Unit :=
  let above := (Path.dropEndWhile Path.staysPut path).dropLast
  requireFolderAfter (makeFoldersUpTo above.reverse) path

def writeFile (path : Path) (bytes : Bytes) : SystemM Unit := do
  let (file, system) ← MonadExcept.ofExcept ((← get).openOrMakeFile path)
  set (system.setContents file (.ofBytes bytes))

/-! ## Locks -/

def isLocked (system : FileSystem) (file : FileId) : Bool :=
  system.locked.contains file

def lock (system : FileSystem) (file : FileId) : FileSystem :=
  { system with locked := file :: system.locked }

/-- Lets go of every lock that is not among those still held. -/
def keepLocks (system : FileSystem) (held : List FileId) : FileSystem :=
  { system with locked := system.locked.filter held.contains }

end FileSystem

end DirectoryStore
