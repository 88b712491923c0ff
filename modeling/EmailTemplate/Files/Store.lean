/-! What a program needs of a file system. -/

namespace EmailTemplate.Files

/-- Why a file could not be read or written. -/
inductive Fault
  | missing
  | directory
  | notDirectory
  | occupied
  | notText
  | other (message : String)
  deriving DecidableEq, Repr

namespace Fault

/-- Number, kind and wording of the faults that the system numbers. -/
def system? : Fault → Option (Nat × String × String)
  | missing => some (2, "NotFound", "No such file or directory")
  | occupied => some (17, "AlreadyExists", "File exists")
  | notDirectory => some (20, "NotADirectory", "Not a directory")
  | directory => some (21, "IsADirectory", "Is a directory")
  | _ => none

def wording : Fault → String
  | other message => message
  | _ => "stream did not contain valid UTF-8"

def message (f : Fault) : String :=
  match f.system? with
  | some (number, _, wording) => wording ++ " (os error " ++ toString number ++ ")"
  | none => f.wording

end Fault

/-- A file system. Paths are texts; files below a directory are given by the names that lead from
it to them, and a file is below itself by no name. -/
class Store (m : Type → Type) where
  read : String → m (Except Fault ByteArray)
  filesBelow : String → m (List (List String))
  makeDirectories : String → m (Except Fault Unit)
  write : String → String → m (Except Fault Unit)

end EmailTemplate.Files
