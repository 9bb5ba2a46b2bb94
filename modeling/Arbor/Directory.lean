/-!
# Files

A program is given the folder it works in as a value: the files in it with their
contents. Paths are looked up in it, so what a program does depends on nothing
outside of its input.
-/

namespace Arbor

/-- Why a path has no text. -/
inductive FileError
  | missing
  /-- Something that the path goes through is a file. -/
  | notFolder
  | isFolder
  /-- The bytes of the file are no text. -/
  | notText
  deriving DecidableEq

namespace FileError

def message : FileError → String
  | missing => "No such file or directory (os error 2)"
  | notFolder => "Not a directory (os error 20)"
  | isFolder => "Is a directory (os error 21)"
  | notText => "stream did not contain valid UTF-8"

end FileError

/-- What can be found from the folder that a program works in. -/
structure Directory where
  /-- Paths of files, with the bytes in them. -/
  files : List (String × ByteArray) := []
  /-- Paths of folders; the ones that files are in need not be listed. -/
  folders : List String := []

namespace Directory

/-- The names that a path goes through. An absolute path starts with `/`. -/
def parts (path : String) : List String :=
  let names := (path.splitOn "/").filter fun name => name != "" && name != "."
  if path.startsWith "/" then "/" :: names else names

/-- The path in its shortest form. -/
def shorten (path : String) : String :=
  match parts path with
  | "/" :: names => "/" ++ "/".intercalate names
  | names => "/".intercalate names

/-- The bytes of the file that these names lead to. -/
def file? (d : Directory) (names : List String) : Option ByteArray :=
  (d.files.find? fun (path, _) => parts path = names).map (·.2)

/-- The names lead to a folder. The working folder has a folder around it. -/
def isFolder (d : Directory) (names : List String) : Bool :=
  names.all (fun name => name == ".." || name == "/") ||
    d.folders.any (fun path => names.isPrefixOf (parts path)) ||
    d.files.any (fun (path, _) => names.isPrefixOf (parts path))

/-- The bytes at a path. -/
def bytes (d : Directory) (path : String) : Except FileError ByteArray :=
  let names := parts path
  if path.isEmpty then .error .missing
  -- Nothing leads on from a file.
  else if (List.range names.length).any fun n => (d.file? (names.take n)).isSome then
    .error .notFolder
  else
    match d.file? names with
    | some bytes =>
      if path.endsWith "/" || path.endsWith "/." then .error .notFolder else .ok bytes
    | none => .error (if d.isFolder names then .isFolder else .missing)

/-- The text of bytes. -/
def decode (bytes : ByteArray) : Except FileError String :=
  match String.fromUTF8? bytes with
  | some text => .ok text
  | none => .error .notText

/-- The text at a path. -/
def text (d : Directory) (path : String) : Except FileError String := d.bytes path >>= decode

end Directory

end Arbor
