import EmailTemplate.Template.Stringify
import EmailTemplate.Template.Token
import EmailTemplate.Text.Blank

/-! Values: nested data laid out under dotted names, and put in for the tokens that name them. -/

namespace EmailTemplate.Template

open Text

/-- Names with their texts in rising order of the names. -/
abbrev Bindings := List (String × String)

/-- A key below a path; the outermost path is empty. -/
def joinPath (path key : String) : String := if path.isEmpty then key else path ++ "." ++ key

mutual

/-- Adds what stands at a path: an object adds its members below it, an array nothing, and any
other value its text, over what the path had before. -/
def flattenAt (path : String) (done : Bindings) : Json.Value → Bindings
  | .object members => flattenMembers path done members
  | .array _ => done
  | .null => Json.insertMember path "" done
  | .bool b => Json.insertMember path (Json.Value.stringify (.bool b)) done
  | .number n => Json.insertMember path (Json.Value.stringify (.number n)) done
  | .string s => Json.insertMember path s done

def flattenMembers (path : String) (done : Bindings) : List (String × Json.Value) → Bindings
  | [] => done
  | (key, value) :: rest =>
    flattenMembers path (flattenAt (joinPath path key) done value) rest

end

/-- The texts that an object reaches through objects alone; other data names nothing. -/
def flatten : Json.Value → Bindings
  | .object members => flattenMembers "" [] members
  | _ => []

/-- Puts in the value of every token whose interior, blanks aside, is bound; others stay. -/
def substitute (values : Bindings) (s : List Char) : List Char :=
  replaceMatches (fun t => (valueToken? t).map fun (inner, length) =>
    match Json.lookup? (String.ofList (trim inner)) values with
    | some value => (value.toList, length)
    | none => (token inner, length)) s

/-- The names of the tokens that want a value, each at its first place. Tokens of sections and
loops, which start with a number sign or a slash, want none. -/
def placeholderNames (template : List Char) : List (List Char) :=
  let names := collect (fun t => (valueToken? t).map fun (inner, length) => (trim inner, length))
    template
  let wanted := names.filter fun name => match name with
    | [] => false
    | c :: _ => c != '#' && c != '/'
  wanted.foldl (fun done name => if done.contains name then done else done ++ [name]) []

end EmailTemplate.Template
