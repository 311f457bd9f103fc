import TableLineage.KeyMap
import TableLineage.Store.Basic

/-! The files that a command can reach, most of them below one directory, and the variables
around it. A file is a text or a lineage store, and its path is names of directories and a last
name with slashes between them. -/
namespace TableLineage

namespace Path

def isRooted (path : String) : Bool := path.toList.head? = some '/'

/-- Adds a name to a row of names, the last first. Two dots take the name before them away;
where there is none they stay, unless the path starts at the root. -/
def push (rooted : Bool) (names : List String) (name : String) : List String :=
  if name.isEmpty || name = "." then names
  else if name = ".." then
    match names with
    | last :: before => if last = ".." then name :: names else before
    | [] => if rooted then [] else [name]
  else name :: names

def clean (path : String) : String :=
  let rooted := isRooted path
  let names := ((path.splitOn "/").foldl (push rooted) []).reverse
  let body := "/".intercalate names
  if rooted then "/" ++ body else if body.isEmpty then "." else body

def join (directory name : String) : String := if directory.isEmpty then clean name else clean (directory ++ "/" ++ name)

def directory (path : String) : String :=
  clean (String.ofList (path.toList.reverse.dropWhile (· ≠ '/')).reverse)

def ending (path : String) : String :=
  let tail := path.toList.reverse.takeWhile fun c => c ≠ '/'
  if tail.contains '.' then String.ofList ('.' :: (tail.takeWhile (· ≠ '.')).reverse) else ""

end Path

inductive Content where
  | text (s : String)
  | store (tables : Store.Tables)

/-- What is known of the files: their content by path, and the directories. Paths are
as short as they can be. -/
structure Workspace where
  files : KeyMap Content
  directories : List String
  environment : List (String × String)

inductive FileFault where
  | missing
  | notDirectory
  | isDirectory
  deriving DecidableEq, Repr

def FileFault.text : FileFault → String
  | .missing => "no such file or directory"
  | .notDirectory => "not a directory"
  | .isDirectory => "is a directory"

structure FileError where
  task : String
  path : String
  fault : FileFault
  deriving DecidableEq, Repr

def FileError.message (e : FileError) : String := e.task ++ " " ++ e.path ++ ": " ++ e.fault.text

inductive Entry where
  | file (path : String) (content : Content)
  | directory (path : String)

namespace Workspace

def empty : Workspace := ⟨.empty, [], []⟩

def valueOf (w : Workspace) (name : String) : String :=
  ((w.environment.find? fun v => v.1 == name).map (·.2)).getD ""

/-- A path from the names on it, the last first. -/
def pathOf (names : List String) : String := "/".intercalate names.reverse

/-- Follows the names of a path from a directory, whose names are given with the last
first. -/
def follow (w : Workspace) : List String → List String → Except FileFault Entry
  | at', [] => .ok (.directory (pathOf at'))
  | at', name :: rest =>
    if name.isEmpty || name = "." then w.follow at' rest
    else if name = ".." then
      match at' with
      | _ :: outer => w.follow outer rest
      | [] => .error .missing
    else
      let path := pathOf (name :: at')
      match w.files.get? path with
      | some content => if rest.isEmpty then .ok (.file path content) else .error .notDirectory
      | none => if w.directories.contains path then w.follow (name :: at') rest else .error .missing

/-- What stands at a path. Of paths from the root only those are known that were put in. -/
def find (w : Workspace) (path : String) : Except FileFault Entry :=
  if path.isEmpty then .error .missing
  else if Path.isRooted path then
    let place := Path.clean path
    match w.files.get? place with
    | some content => .ok (.file place content)
    | none => if w.directories.contains place then .ok (.directory place) else .error .missing
  else w.follow [] (path.splitOn "/")

def readText (w : Workspace) (path : String) : Except FileError String :=
  match w.find path with
  | .error fault => .error ⟨"open", path, fault⟩
  | .ok (.directory _) => .error ⟨"read", path, .isDirectory⟩
  | .ok (.file _ (.text s)) => .ok s
  | .ok (.file _ (.store _)) => .ok ""

def filesBelow (w : Workspace) (directory path : String) : List String :=
  let lead := if directory.isEmpty then "" else directory ++ "/"
  (w.files.keys.filter fun f => f.startsWith lead).map fun f =>
    Path.join path (String.ofList (f.toList.drop lead.length))

def chain (path : String) : List String :=
  let names := (Path.clean path).splitOn "/"
  (List.range names.length).map fun k => "/".intercalate (names.take (k + 1))

def makeDirectory (w : Workspace) (path : String) : Except FileError Workspace :=
  (chain path).foldlM (fun w p =>
    match w.find p with
    | .ok (.directory _) => .ok w
    | .ok (.file ..) => .error ⟨"mkdir", p, .notDirectory⟩
    | .error _ => .ok { w with directories := w.directories ++ [p] }) w

def place (w : Workspace) (path : String) (content : Content) : Workspace :=
  let path := Path.clean path
  let above := (chain path).dropLast.filter fun p => !w.directories.contains p
  { w with files := w.files.insert path content, directories := w.directories ++ above }

def writeText (w : Workspace) (path text : String) : Except FileError Workspace :=
  match w.find path with
  | .ok (.directory _) => .error ⟨"open", path, .isDirectory⟩
  | .ok (.file place _) => .ok { w with files := w.files.insert place (.text text) }
  | .error .missing =>
    match w.find (Path.directory path) with
    | .ok (.directory _) => .ok { w with files := w.files.insert (Path.clean path) (.text text) }
    | .ok (.file ..) => .error ⟨"open", path, .notDirectory⟩
    | .error fault => .error ⟨"open", path, fault⟩
  | .error fault => .error ⟨"open", path, fault⟩

end Workspace
end TableLineage
