/-!
# File trees

A small tree of files and folders, and what reading a path in it gives. A path is walked part by
part from where it starts, and the first part that cannot be entered decides the error. A way may
leave the folder that it starts from; what lies outside is known only as far as it was entered.
-/
namespace TapeCalc

inductive ReadError where
  | notFound
  | notFolder
  | isFolder
  | nameTooLong
  | nulInPath
  | notText
  | other (reason : String)
  deriving DecidableEq, Repr

def ReadError.message : ReadError → String
  | notFound => "No such file or directory (os error 2)"
  | notFolder => "Not a directory (os error 20)"
  | isFolder => "Is a directory (os error 21)"
  | nameTooLong => "File name too long (os error 36)"
  | nulInPath => "file name contained an unexpected NUL byte"
  | notText => "stream did not contain valid UTF-8"
  | other reason => reason

/-- The folder's path followed by the file's name; only a missing slash is added. -/
def joinPath (folder file : String) : String :=
  if folder.isEmpty || folder.endsWith "/" then folder ++ file else folder ++ "/" ++ file

inductive FileNode where
  | file (content : ByteArray)
  | folder

/-- Where the way to a place begins: at the top of all folders, or at the folder that paths are
read from, some folders up. -/
inductive Base where
  | top
  | here (up : Nat)
  deriving DecidableEq, Repr

/-- The names lead from the base to the place, the innermost first. -/
structure Place where
  base : Base := .here 0
  names : List String := []
  deriving DecidableEq, Repr

namespace Place

/-- The folder around a place. The top is around itself. -/
def parent : Place → Place
  | ⟨base, _ :: names⟩ => ⟨base, names⟩
  | ⟨.here up, []⟩ => ⟨.here (up + 1), []⟩
  | ⟨.top, []⟩ => ⟨.top, []⟩

/-- The place that one part of a path leads to. -/
def enter (place : Place) (part : String) : Place :=
  if part = "." then place
  else if part = ".." then place.parent
  else { place with names := part :: place.names }

/-- Where a path starts. -/
def start (path : String) : Place :=
  if path.startsWith "/" then { base := .top } else {}

end Place

/-- Files and folders by their places, the latest first. -/
structure FileTree where
  entries : List (Place × FileNode) := []

namespace FileTree

/-- The parts of a path between its slashes, without empty ones. -/
def parts (path : String) : List String :=
  ((path.splitOn "/").filter fun part => !part.isEmpty)

/-- A base is a folder without being entered in the tree. -/
def node? (tree : FileTree) (place : Place) : Option FileNode :=
  if place.names.isEmpty then some .folder else tree.entries.lookup place

def addFolder (tree : FileTree) (place : Place) : FileTree :=
  if (tree.node? place).isSome then tree else ⟨(place, .folder) :: tree.entries⟩

/-- Adds a node at the end of a way, and the folders that the way leads through. -/
def insertAt (node : FileNode) : List String → Place → FileTree → FileTree
  | [], place, tree => ⟨(place, node) :: tree.entries⟩
  | part :: rest, place, tree => insertAt node rest (place.enter part) (tree.addFolder place)

def insert (tree : FileTree) (path : String) (node : FileNode) : FileTree :=
  insertAt node (parts path) (.start path) tree

/-- What a way leads to. Each part is entered from a folder. -/
def walk (tree : FileTree) : List String → Place → Except ReadError FileNode
  | [], place =>
    match tree.node? place with
    | none => .error .notFound
    | some node => .ok node
  | part :: rest, place =>
    match tree.node? place with
    | none => .error .notFound
    | some (.file _) => .error .notFolder
    | some .folder =>
      if 255 < part.utf8ByteSize then .error .nameTooLong
      else tree.walk rest (place.enter part)

/-- The text of the file at a path. A slash at the end asks for a folder. -/
def read (tree : FileTree) (path : String) : Except ReadError String :=
  if path.contains '\x00' then .error .nulInPath
  else if 4096 ≤ path.utf8ByteSize then .error .nameTooLong
  else if path.isEmpty then .error .notFound
  else
    let last := if path.endsWith "/" then ["."] else []
    match tree.walk (parts path ++ last) (.start path) with
    | .error e => .error e
    | .ok .folder => .error .isFolder
    | .ok (.file content) =>
      match String.fromUTF8? content with
      | none => .error .notText
      | some text => .ok text

end FileTree

end TapeCalc
