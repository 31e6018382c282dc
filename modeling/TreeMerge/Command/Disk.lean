import TreeMerge.Table
import TreeMerge.Text.Path
import TreeMerge.Text.Quoted

/-!
# Files

The part of a file system that a command sees: texts and directories by their full paths. Names and
texts are kept as bytes.

* `Disk`, `Disk.ofFiles` : files with the directories above them;
* `Disk.entry?`, `Disk.put` : what stands under a path;
* `Disk.read` : the text of a file, if there is one;
* `Disk.checkWrite`, `Disk.write` : whether a file may be written, and the disk after it was;
* `DiskFault` : why a file cannot be read or written.
-/

namespace TreeMerge

/-- What stands under a path. -/
inductive DiskEntry where
  | file (text : Text)
  | directory

/-- Files and directories by their paths. -/
abbrev Disk := Table Text DiskEntry

/-- Why a file cannot be read or written. -/
inductive DiskFault where
  | readsDirectory
  | writesDirectory (path : Text)
  | noDirectory (path : Text)
  | belowFile (path : Text)
  | nameTooLong (path : Text)
  /-- A path with a character that no path can have. -/
  | nullCharacter (path : Text)
  deriving DecidableEq

/-- The wording of a fault. -/
def DiskFault.message : DiskFault → Text
  | .readsDirectory => "EISDIR: illegal operation on a directory, read"
  | .writesDirectory path => "EISDIR: illegal operation on a directory, open '" ++ path ++ "'"
  | .noDirectory path => "ENOENT: no such file or directory, open '" ++ path ++ "'"
  | .belowFile path => "ENOTDIR: not a directory, open '" ++ path ++ "'"
  | .nameTooLong path => "ENAMETOOLONG: name too long, open '" ++ path ++ "'"
  | .nullCharacter path =>
    "The argument 'path' must be a string, Uint8Array, or URL without null bytes. Received " ++
      Text.quoted path

namespace Disk

/-- What stands under a path. -/
def entry? (d : Disk) (path : Text) : Option DiskEntry :=
  Table.get? d path.encoded

/-- The disk with something else under a path. -/
def put (d : Disk) (path : Text) (e : DiskEntry) : Disk :=
  Table.put d path.encoded e

/-- The disk with a text in the file under a path. -/
def putText (d : Disk) (path text : Text) : Disk :=
  d.put path (.file text.encoded)

/-- Add the directories above a path. -/
def addAbove (d : Disk) (path : Text) : Disk :=
  (Path.ancestors path).foldl (fun d dir => d.put dir .directory) d

/-- The disk with the given files, as seen from a directory. -/
def ofFiles (dir : Text) (files : List (Text × Text)) : Disk :=
  files.foldl
    (fun d f =>
      let path := Path.resolve dir f.1
      (addAbove d path).putText path f.2)
    ((addAbove [] dir).put dir .directory)

/-- The text of a file: `none` when nothing stands under the path. -/
def read (d : Disk) (path : Text) : Except DiskFault (Option Text) :=
  match d.entry? path with
  | none => .ok none
  | some (.file text) => .ok (some text)
  | some .directory => .error .readsDirectory

/-- The text of a file, if there is a file under the path. -/
def text? (d : Disk) (path : Text) : Option Text :=
  match d.entry? path with
  | some (.file text) => some text
  | _ => none

/-- The largest number of bytes that a name may have. -/
def nameLimit : Nat := 255

/-- One more than the largest number of bytes that a path may have. -/
def pathLimit : Nat := 4096

/-- Whether a new file may stand under `path`. The entries above it are looked up, the nearest
first; `below` is the path under which nothing stands yet, directly below the next of them. -/
def checkAbove (d : Disk) (path below : Text) : List Text → Except DiskFault Unit
  | [] => .error (.noDirectory path)
  | dir :: dirs =>
    match d.entry? dir with
    | none => checkAbove d path dir dirs
    | some (.file _) => .error (.belowFile path)
    | some .directory =>
      if nameLimit < (Path.baseName below).toString.utf8ByteSize then .error (.nameTooLong path)
      else if below = path then .ok ()
      else .error (.noDirectory path)

/-- Whether a file may be written under a path. -/
def checkWrite (d : Disk) (path : Text) : Except DiskFault Unit :=
  if path.units.contains 0 then .error (.nullCharacter path)
  else if pathLimit ≤ path.toString.utf8ByteSize then .error (.nameTooLong path)
  else
    match d.entry? path with
    | some .directory => .error (.writesDirectory path)
    | some (.file _) => .ok ()
    | none => checkAbove d path path (Path.ancestors path)

/-- Write a file. -/
def write (d : Disk) (path text : Text) : Except DiskFault Disk :=
  (d.checkWrite path).map fun _ => d.putText path text

theorem text?_write {d d' : Disk} {path text : Text} (h : d.write path text = .ok d') :
    d'.text? path = some text.encoded := by
  unfold write at h
  cases hc : d.checkWrite path with
  | error e => simp [hc, Except.map] at h
  | ok u =>
    simp only [hc, Except.map, Except.ok.injEq] at h
    subst h
    simp [text?, entry?, putText, put, Table.get?_put]

end Disk

end TreeMerge
