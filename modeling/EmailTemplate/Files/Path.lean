import EmailTemplate.Text.Ascii
import EmailTemplate.Text.Blank

/-! Paths as text, and the parts of a file name. -/

namespace EmailTemplate.Files

open Text

/-- The names in a path; empty ones and single points lead nowhere. -/
def parts (path : String) : List String :=
  ((splitBy (· == '/') path.toList).map String.ofList).filter fun p => p != "" && p != "."

def ofParts (names : List String) : String := "/".intercalate names

def join (path : String) (names : List String) : String :=
  if names.isEmpty then path
  else if path.toList.getLast? == some '/' then path ++ ofParts names
  else path ++ "/" ++ ofParts names

/-- The stem of a file name and what follows its last point, if that point does not come first. -/
def splitName (name : List Char) : List Char × Option (List Char) :=
  let backwards := name.reverse
  let extension := (backwards.takeWhile (· != '.')).reverse
  match backwards.dropWhile (· != '.') with
  | [] | ['.'] => (name, none)
  | _ :: stem => (stem.reverse, some extension)

def stem (name : String) : String := String.ofList (splitName name.toList).1

/-- Whether a file holds a message, by its extension in any letter case. -/
def isMessageName (name : String) : Bool :=
  (splitName name.toList).2.any fun e =>
    eqIgnoreAsciiCase e "html".toList || eqIgnoreAsciiCase e "htm".toList

def pathLe : List String → List String → Bool
  | [], _ => true
  | _ :: _, [] => false
  | a :: as, b :: bs => decide (a < b) || (a == b && pathLe as bs)

end EmailTemplate.Files
