import EmailTemplate.Template.Section
import EmailTemplate.Template.Stringify
import EmailTemplate.Text.Blank

/-! Loops: a part of a template that is repeated for each item of an array. -/

namespace EmailTemplate.Template

open Text

def loopMark : List Char := openBraces ++ ['#', 'e', 'a', 'c', 'h']

def loopCloser : List Char := token ['/', 'e', 'a', 'c', 'h']

def indexToken : List Char := token ['@', 'i', 'n', 'd', 'e', 'x']

/-- The name in the opener at the head of the text, and what follows the opener. Blanks stand
before the name and may stand after it. -/
def loopAt? (s : List Char) : Option (List Char × List Char) :=
  (after? loopMark s).bind fun t =>
    let u := trimLeft t
    let name := u.takeWhile isNameChar
    if u.length = t.length ∨ name.isEmpty then none
    else (after? closeBraces (trimLeft (u.dropWhile isNameChar))).map fun rest => (name, rest)

/-- The token of a field of the items of a list. -/
def fieldToken (name key : List Char) : List Char := token (name ++ '.' :: key)

/-- The body for one item: its fields are put in one after the other in the order of their keys,
and then the index. -/
def expandItem (name body : List Char) (index : Nat) (item : Json.Value) : List Char :=
  let fields := match item with
    | .object members => members
    | _ => []
  let filled := fields.foldl
    (fun text (key, value) => replaceAll (fieldToken name key.toList) value.stringify.toList text)
    body
  replaceAll indexToken (toString index).toList filled

/-- The bodies of all items one after the other; what is not an array has none. -/
def expandItems (name body : List Char) (items : Option Json.Value) : List Char :=
  let list := (items.bind (·.asArray?)).getD []
  list.zipIdx.flatMap fun (item, index) => expandItem name body index item

/-- The expansion of the loop at the head of the text and the length of the loop. A loop ends at
the nearest closer; an opener without one stands for itself. -/
def loopStep (data : Json.Value) (s : List Char) : Option (List Char × Nat) :=
  (loopAt? s).map fun (name, rest) =>
    let opener := s.take (s.length - rest.length)
    match splitFirst? loopCloser rest with
    | none => (opener, opener.length)
    | some (body, _) =>
      (expandItems name body (data.get? (String.ofList name)),
        opener.length + body.length + loopCloser.length)

/-- Expands every loop; what was put is not looked at again. -/
def expandLoops (template : List Char) (data : Json.Value) : List Char :=
  replaceMatches (loopStep data) template

end EmailTemplate.Template
