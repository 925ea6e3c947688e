/-!
Files as the command sees them: a file can be read, created and written, and each may fail.

`Files` is what the command needs of the place it runs in.  `FileSystem` is a tree of directories
and files in which paths are followed as on a POSIX system without symbolic links.
-/

namespace TwoPhase.CommandLine

structure SystemError where
  description : String
  code : Nat
deriving DecidableEq

namespace SystemError

def notFound : SystemError :=
  ⟨"No such file or directory", 2⟩

def permissionDenied : SystemError :=
  ⟨"Permission denied", 13⟩

def notDirectory : SystemError :=
  ⟨"Not a directory", 20⟩

def isDirectory : SystemError :=
  ⟨"Is a directory", 21⟩

def nameTooLong : SystemError :=
  ⟨"File name too long", 36⟩

/-- The failures that have words of their own here. -/
def known : List SystemError :=
  [notFound, permissionDenied, notDirectory, isDirectory, nameTooLong]

def message (error : SystemError) : String :=
  error.description ++ s!" (os error {error.code})"

end SystemError

/-- What a command does with files, in any monad. -/
class Files (m : Type → Type) where
  read : String → m (Except SystemError ByteArray)
  /-- Make the file empty, whether it was there or not. -/
  create : String → m (Except SystemError Unit)
  write : String → ByteArray → m (Except SystemError Unit)

/-- The names from the root down to a file or a directory. -/
abbrev Location := List String

inductive Node where
  | directory
  | file (content : ByteArray)

/-- A tree of files.  The root is a directory whether it is listed or not. -/
structure FileSystem where
  nodes : List (Location × Node)
  workingDirectory : Location

namespace FileSystem

def node? (fs : FileSystem) (location : Location) : Option Node :=
  if location = [] then some .directory else fs.nodes.lookup location

/-- Go from a place to the place a name leads to; the place has to be a directory. -/
def step (fs : FileSystem) (place : Location) (name : String) : Except SystemError Location :=
  match fs.node? place with
  | none => .error .notFound
  | some (.file _) => .error .notDirectory
  | some .directory =>
      if name = "." then .ok place
      else if name = ".." then .ok place.dropLast
      else if 255 < name.utf8ByteSize then .error .nameTooLong
      else .ok (place ++ [name])

/-- The place a path leads to; the file itself need not be there. -/
def locate (fs : FileSystem) (path : String) : Except SystemError Location :=
  if path.isEmpty then
    .error .notFound
  else if 4096 ≤ path.utf8ByteSize then
    .error .nameTooLong
  else
    let start := if path.startsWith "/" then [] else fs.workingDirectory
    ((path.splitOn "/").filter fun name => !name.isEmpty).foldlM fs.step start

/-- Whether the path asks for a directory by ending in a slash. -/
def asksDirectory (path : String) : Bool :=
  path.endsWith "/"

def readFile (fs : FileSystem) (path : String) : Except SystemError ByteArray :=
  match fs.locate path with
  | .error error => .error error
  | .ok location =>
      match fs.node? location with
      | none => .error .notFound
      | some .directory => .error .isDirectory
      | some (.file content) =>
          if asksDirectory path then .error .notDirectory else .ok content

def put (fs : FileSystem) (location : Location) (content : ByteArray) : FileSystem :=
  { fs with
    nodes := (location, .file content) :: fs.nodes.filter fun entry => entry.1 ≠ location }

def writeFile (fs : FileSystem) (path : String) (content : ByteArray) :
    Except SystemError FileSystem :=
  match fs.locate path with
  | .error error => .error error
  | .ok location =>
      match fs.node? location with
      | some .directory => .error .isDirectory
      | _ => if asksDirectory path then .error .isDirectory else .ok (fs.put location content)

/-- Change the file system, or leave it as it is and report the error. -/
def attempt (change : FileSystem → Except SystemError FileSystem) :
    StateM FileSystem (Except SystemError Unit) := fun fs =>
  match change fs with
  | .error error => (.error error, fs)
  | .ok changed => (.ok (), changed)

instance : Files (StateM FileSystem) where
  read path := fun fs => (fs.readFile path, fs)
  create path := attempt fun fs => fs.writeFile path ByteArray.empty
  write path content := attempt fun fs => fs.writeFile path content

end FileSystem

end TwoPhase.CommandLine
