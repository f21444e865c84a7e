import EdgeAgent.Text.Blank

/-! # File trees

A tree of directories and files, each under the list of names that leads to it.
A file holds a text, or bytes that are no text and cannot be read as one. Every
operation that can fail leaves the tree as it was when it does. -/

namespace EdgeAgent

abbrev Path := List String

namespace Path

/-- The names in a written path. Empty names and the dot lead nowhere, two dots
lead back. -/
def ofText (s : String) : Path :=
  ((Text.splitChars (· == '/') s.toList).map String.ofList).foldl
    (fun p name =>
      if name = "" ∨ name = "." then p else if name = ".." then p.dropLast else p ++ [name]) []

def text (p : Path) : String := "/".intercalate p

/-- Replaces what follows the last dot of the last name. A name that begins
with its only dot has nothing to replace. -/
def withExtension (p : Path) (extension : String) : Path :=
  match p.getLast? with
  | none => p
  | some name =>
    let behind := name.toList.reverse.takeWhile (· != '.')
    let stem := name.toList.take (name.length - behind.length - 1)
    let kept := if stem.isEmpty then name else String.ofList stem
    p.dropLast ++ [kept ++ "." ++ extension]

end Path

inductive Node where
  | directory
  /-- None stands for bytes that are no text. -/
  | file (text : Option String)
deriving DecidableEq, Repr

inductive FileError where
  | notFound
  | notDirectory
  | isDirectory
  | notText
deriving DecidableEq, Repr

namespace FileError

def system? : FileError → Option (Nat × String × String)
  | .notFound => some (2, "NotFound", "No such file or directory")
  | .notDirectory => some (20, "NotADirectory", "Not a directory")
  | .isDirectory => some (21, "IsADirectory", "Is a directory")
  | .notText => none

def notTextMessage : String := "stream did not contain valid UTF-8"

def message (e : FileError) : String :=
  match e.system? with
  | some (code, _, text) => text ++ " (os error " ++ toString code ++ ")"
  | none => notTextMessage

def form (e : FileError) : String :=
  match e.system? with
  | some (code, kind, text) =>
    "Os \x7b code: " ++ toString code ++ ", kind: " ++ kind ++ ", message: \"" ++ text ++ "\" \x7d"
  | none => "Error \x7b kind: InvalidData, message: \"" ++ notTextMessage ++ "\" \x7d"

end FileError

structure Files where
  nodes : List (Path × Node) := []
deriving DecidableEq, Repr, Inhabited

namespace Files

def empty : Files := {}

/-- The node recorded for a path. The root is always a directory. -/
def node? (f : Files) (p : Path) : Option Node :=
  if p = [] then some .directory else (f.nodes.find? fun n => n.1 = p).map (·.2)

/-- Follows a path: all names but the last have to lead to directories. -/
def walk (f : Files) (here : Path) : Path → Except FileError Node
  | [] => match f.node? here with
    | some n => .ok n
    | none => .error .notFound
  | name :: rest => match f.node? here with
    | some .directory => walk f (here ++ [name]) rest
    | some (.file _) => .error .notDirectory
    | none => .error .notFound

def look (f : Files) (p : Path) : Except FileError Node := f.walk [] p

def exists? (f : Files) (p : Path) : Bool :=
  match f.look p with
  | .ok _ => true
  | .error _ => false

def isFile (f : Files) (p : Path) : Bool :=
  match f.look p with
  | .ok (.file _) => true
  | _ => false

def read (f : Files) (p : Path) : Except FileError String :=
  match f.look p with
  | .ok (.file (some s)) => .ok s
  | .ok (.file none) => .error .notText
  | .ok .directory => .error .isDirectory
  | .error e => .error e

def list (f : Files) (p : Path) : Except FileError (List String) :=
  match f.look p with
  | .ok .directory =>
    .ok ((f.nodes.filterMap fun (q, _) =>
      if q.dropLast = p ∧ q ≠ [] then q.getLast? else none).mergeSort fun a b => a ≤ b)
  | .ok (.file _) => .error .notDirectory
  | .error e => .error e

/-! ## Changes -/

def replace (f : Files) (p : Path) (n : Node) : Files :=
  ⟨(p, n) :: f.nodes.filter fun m => m.1 ≠ p⟩

/-- Makes the directories on a path that are missing. -/
def createDirectories (f : Files) (p : Path) : Except FileError Files :=
  let rec go (f : Files) (here : Path) : Path → Except FileError Files
    | [] => .ok f
    | name :: rest =>
      let next := here ++ [name]
      match f.node? next with
      | some .directory => go f next rest
      | some (.file _) => .error .notDirectory
      | none => go (f.replace next .directory) next rest
  go f [] p

def put (f : Files) (p : Path) (text : Option String) : Except FileError Files :=
  match f.look p.dropLast with
  | .error e => .error e
  | .ok (.file _) => .error .notDirectory
  | .ok .directory =>
    match f.node? p with
    | some .directory => .error .isDirectory
    | _ => .ok (f.replace p (.file text))

def write (f : Files) (p : Path) (text : String) : Except FileError Files := f.put p (some text)

def remove (f : Files) (p : Path) : Files :=
  ⟨f.nodes.filter fun m => !p.isPrefixOf m.1⟩

/-- Moves a file onto another path, in place of a file that is there. -/
def rename (f : Files) (p q : Path) : Except FileError Files := do
  match ← f.look p with
  | .directory => .error .isDirectory
  | .file text => (f.remove p).put q text

def paths (f : Files) : List String :=
  (f.nodes.filterMap fun (p, n) => match n with
    | .file _ => some (Path.text p)
    | .directory => none).mergeSort fun a b => a ≤ b

def pathsUnder (f : Files) (root : Path) : List String :=
  (f.nodes.filterMap fun (p, n) => match n with
    | .file _ =>
      if root.isPrefixOf p ∧ p ≠ root then some (Path.text (p.drop root.length)) else none
    | .directory => none).mergeSort fun a b => a ≤ b

end Files
end EdgeAgent
