import EmailTemplate.Files.Path
import EmailTemplate.Files.Store

/-! A file system in memory. -/

namespace EmailTemplate.Files

/-- Files by the names that lead to them, no two by the same, and directories that may be empty. -/
structure Disk where
  files : List (List String × ByteArray)
  directories : List (List String)

namespace Disk

def file? (d : Disk) (place : List String) : Option ByteArray :=
  (d.files.find? (·.1 == place)).map (·.2)

/-- A directory was made, or has something below it. -/
def isDirectory (d : Disk) (place : List String) : Bool :=
  place.isEmpty || d.directories.any place.isPrefixOf ||
    d.files.any fun f => place.isPrefixOf f.1 && place != f.1

/-- Goes from a directory along names. Two points lead back, though not out of the disk. -/
def follow (d : Disk) : List String → List String → Except Fault (List String)
  | place, [] => .ok place
  | place, name :: rest =>
    if !d.isDirectory place then
      .error (if (d.file? place).isSome then .notDirectory else .missing)
    else if name = ".." then
      if place.isEmpty then .error .missing else d.follow place.dropLast rest
    else d.follow (place ++ [name]) rest

/-- Whether a path can only mean a directory. -/
def asksDirectory (path : String) : Bool :=
  match path.toList.reverse with
  | [] | '/' :: _ | '.' :: '/' :: _ | ['.'] => true
  | _ => false

/-- The place of a path; a path from the root leads out of the disk. -/
def locate (d : Disk) (path : String) : Except Fault (List String) :=
  if path.toList.head? == some '/' then .error .missing else d.follow [] (parts path)

def read (d : Disk) (path : String) : Except Fault ByteArray := do
  let place ← d.locate path
  match d.file? place with
  | some content => if asksDirectory path then throw .notDirectory else return content
  | none => throw (if d.isDirectory place then .directory else .missing)

def filesBelow (d : Disk) (path : String) : List (List String) :=
  match d.locate path with
  | .error _ => []
  | .ok place =>
    if (d.file? place).isSome then if asksDirectory path then [] else [[]]
    else (d.files.filter fun f => place.isPrefixOf f.1).map fun f => f.1.drop place.length

/-- Makes directories along names, from one that is there; two points lead back. -/
def makeAlong (d : Disk) : List String → List String → Except Fault Disk
  | _, [] => .ok d
  | place, name :: rest =>
    if name = ".." then
      if place.isEmpty then .error .missing else d.makeAlong place.dropLast rest
    else if (d.file? (place ++ [name])).isSome then
      .error (if rest.isEmpty then .occupied else .notDirectory)
    else
      let next : Disk := { d with directories := d.directories ++ [place ++ [name]] }
      next.makeAlong (place ++ [name]) rest

def makeDirectories (d : Disk) (path : String) : Except Fault Disk :=
  if path.toList.head? == some '/' then .error .missing else d.makeAlong [] (parts path)

/-- Puts a content in place of the one that a file has, or makes a file. -/
def putFile (place : List String) (content : ByteArray) :
    List (List String × ByteArray) → List (List String × ByteArray)
  | [] => [(place, content)]
  | f :: rest => if f.1 = place then (place, content) :: rest else f :: putFile place content rest

def write (d : Disk) (path text : String) : Except Fault Disk := do
  let place ← d.locate path
  if d.isDirectory place || asksDirectory path then throw .directory
  return { d with files := putFile place text.toUTF8 d.files }

end Disk

def Disk.attempt (change : Disk → Except Fault Disk) : StateM Disk (Except Fault Unit) := fun d =>
  match change d with
  | .ok d => (.ok (), d)
  | .error fault => (.error fault, d)

instance : Store (StateM Disk) where
  read path := fun d => (d.read path, d)
  filesBelow path := fun d => (d.filesBelow path, d)
  makeDirectories path := Disk.attempt (·.makeDirectories path)
  write path text := Disk.attempt (·.write path text)

end EmailTemplate.Files
