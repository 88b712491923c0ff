import EmailTemplate.Command.Run

/-! The program on the files of a machine. -/

namespace EmailTemplate

open Files

def faultOf : IO.Error → Fault
  | .noFileOrDirectory .. => .missing
  | .alreadyExists .. => .occupied
  | e => .other (toString e)

def attempt {α : Type} (act : IO α) : IO (Except Fault α) := do
  match ← act.toBaseIO with
  | .ok a => return .ok a
  | .error e => return .error (faultOf e)

/-- The files in a directory and below it; whatever cannot be listed is passed over. -/
partial def listBelow (path : String) (names : List String) : IO (List (List String)) := do
  try
    let here ← IO.FS.realPath (join path names)
    if ← here.isDir then
      let mut found := []
      for entry in ← here.readDir do
        found := found ++ (← listBelow path (names ++ [entry.fileName]))
      return found
    else if ← here.pathExists then return [names]
    else return []
  catch _ => return []

instance : Store IO where
  read path := attempt (IO.FS.readBinFile path)
  filesBelow path := listBelow path []
  makeDirectories path := attempt (IO.FS.createDirAll path)
  write path text := attempt (IO.FS.writeFile path text)

end EmailTemplate

def main (args : List String) : IO UInt32 := do
  let outcome ← EmailTemplate.Command.runArguments args
  IO.print outcome.output
  IO.eprint outcome.errors
  return outcome.code.toUInt32
