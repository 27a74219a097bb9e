import HeapStore.Error

/-!
# A disk

A disk is a tree of folders with files in them, each file a string of bytes. A file is known by the names
of the folders that lead to it from the root and its own name; `target` and `find` tell which file a
written path means, and which of its faults comes first on the way. Reading stops at the end of a file;
writing past the end fills the gap with zeros, and writing nothing changes nothing.

It is assumed that a write never fails once its file is found: there is always room on the disk, and what was written
is what is read. Faults of the device are left out.
-/

namespace HeapStore

structure Disk where
  /-- The folders other than the root, each by its path. -/
  folders : List (List String)
  /-- The files by their paths. -/
  files : Std.ExtTreeMap (List String) (List UInt8)

namespace Disk

/-- A disk without folders and files. -/
def blank : Disk := ⟨[], ∅⟩

/-- Is this the root or another folder? -/
def isFolder (d : Disk) (path : List String) : Bool := path.isEmpty || d.folders.contains path

/-- The names in a path as it is written; slashes stand between them, and several count as one. -/
def names (path : String) : List String :=
  (path.toList.splitOn '/').filterMap fun name => if name = [] then none else some (String.ofList name)

/-- Can the path only mean a folder? It does if a slash ends it, or a name that is relative to a folder,
or if it holds no name. -/
def meansFolder (path : String) : Bool :=
  path.toList.getLast? = some '/' || [none, some ".", some ".."].contains (names path).getLast?

/-- The most bytes that a name may have. -/
def maxNameSize : Nat := 255

/-- The most bytes that a path may have. -/
def maxPathSize : Nat := 4095

/-- Refuses paths that no file can have, whatever is on the disk. -/
def checkPath (path : String) : Except IoFailure Unit :=
  if path.toList.contains '\x00' then .error .nullInPath
  else if maxPathSize < path.utf8ByteSize then .error .nameTooLong
  else .ok ()

/-- Goes from a folder on to the folder of that name: one dot stays, two dots go up, and above the root is
the root. -/
def enter (d : Disk) (folder : List String) (name : String) : Except IoFailure (List String) :=
  if name = "." then .ok folder
  else if name = ".." then .ok folder.dropLast
  else if maxNameSize < name.utf8ByteSize then .error .nameTooLong
  else if d.isFolder (folder ++ [name]) then .ok (folder ++ [name])
  else if d.files.contains (folder ++ [name]) then .error .notADirectory
  else .error .notFound

/-- The file that a path names, whether or not it exists yet. A path that means a folder names none, also
if its last folder does not exist. -/
def target (d : Disk) (path : String) : Except IoFailure (List String) := do
  checkPath path
  let folder ← (names path).dropLast.foldlM d.enter []
  match (names path).getLast? with
  | none => .error .isDirectory
  | some name =>
    if meansFolder path then .error .isDirectory
    else if maxNameSize < name.utf8ByteSize then .error .nameTooLong
    else if d.isFolder (folder ++ [name]) then .error .isDirectory
    else .ok (folder ++ [name])

/-- The file that a path names, which has to exist. -/
def find (d : Disk) (path : String) : Except IoFailure (List String) := do
  checkPath path
  if meansFolder path then
    let _ ← (names path).foldlM d.enter []
    .error .isDirectory
  else
    let file ← d.target path
    if d.files.contains file then .ok file else .error .notFound

/-- Slashes at the end make a path mean a folder; dots and doubled slashes on the way change nothing. -/
example : ((⟨[["a"]], ∅⟩ : Disk).target "a/b//").toOption = none ∧
    ((⟨[["a"]], ∅⟩ : Disk).target "./a//../a/b").toOption = some ["a", "b"] := by decide +kernel

/-- The bytes of a file, if it exists. -/
def contents? (d : Disk) (file : List String) : Option (List UInt8) := d.files[file]?

def contents (d : Disk) (file : List String) : List UInt8 := (d.contents? file).getD []

/-- Makes sure that the file exists. -/
def create (d : Disk) (file : List String) : Disk :=
  { d with files := d.files.insert file (d.contents file) }

def remove (d : Disk) (file : List String) : Disk := { d with files := d.files.erase file }

/-- At most `length` bytes of a file, from an offset on. -/
def read (d : Disk) (file : List String) (offset length : Nat) : List UInt8 :=
  ((d.contents file).drop offset).take length

/-- The bytes cut off or filled up with zeros to a length. -/
def resize (bytes : List UInt8) (length : Nat) : List UInt8 :=
  bytes.take length ++ List.replicate (length - bytes.length) 0

/-- The bytes with those from an offset on replaced by the data. -/
def overwrite (bytes : List UInt8) (offset : Nat) (data : List UInt8) : List UInt8 :=
  if data.isEmpty then bytes
  else resize bytes offset ++ data ++ bytes.drop (offset + data.length)

def write (d : Disk) (file : List String) (offset : Nat) (data : List UInt8) : Disk :=
  { d with files := d.files.insert file (overwrite (d.contents file) offset data) }

def setLength (d : Disk) (file : List String) (length : Nat) : Disk :=
  { d with files := d.files.insert file (resize (d.contents file) length) }

end Disk

end HeapStore
