import EmailTemplate.Text.Blank
import EmailTemplate.Text.Find
import EmailTemplate.Text.Word

/-! Tags as a reader of running text sees them: from a less-than sign to the next greater-than
sign, whatever stands between. -/

namespace EmailTemplate.PlainText

open Text

/-- Whether a character is a lower-case letter in some case; the long s and the kelvin sign are
cases of their letters. -/
def isCaseOf (letter c : Char) : Bool :=
  asciiLower c == letter || (letter == 's' && c.toNat == 0x17f) ||
    (letter == 'k' && c.toNat == 0x212a)

/-- What follows `head` in any case. -/
def afterAnyCase? : List Char → List Char → Option (List Char)
  | [], s => some s
  | _ :: _, [] => none
  | h :: head, c :: s => if isCaseOf h c then afterAnyCase? head s else none

/-- Splits at the next greater-than sign. -/
def tagEnd? (s : List Char) : Option (List Char × List Char) :=
  match s.dropWhile (· != '>') with
  | [] => none
  | _ :: rest => some (s.takeWhile (· != '>'), rest)

/-- The opening tag of an element: its attributes as they are written, and what follows it. The
name must end where it ends. -/
def openTag? (name s : List Char) : Option (List Char × List Char) :=
  (afterAnyCase? ('<' :: name) s).bind fun rest =>
    if rest.head?.any isWord then none else tagEnd? rest

/-- What follows the closing tag of an element at the head of the text. -/
def closeTag? (name s : List Char) : Option (List Char) :=
  (afterAnyCase? ('<' :: '/' :: name) s).bind fun rest => after? ['>'] (trimLeft rest)

def upToCloseTag? (name : List Char) : List Char → Option (List Char × List Char)
  | [] => none
  | c :: s =>
    match closeTag? name (c :: s) with
    | some rest => some ([], rest)
    | none => (upToCloseTag? name s).map fun (body, rest) => (c :: body, rest)

/-- Any tag that is not empty, and what follows it. -/
def anyTag? (s : List Char) : Option (List Char) :=
  (after? ['<'] s).bind fun t =>
    (tagEnd? t).bind fun (inside, rest) => if inside.isEmpty then none else some rest

/-- How much of `s` was taken if `rest` is left. -/
def taken (s rest : List Char) : Nat := s.length - rest.length

/-- Puts a text for what a recogniser takes. -/
def replaceWith (put : List Char) (recognise : List Char → Option (List Char)) (s : List Char) :
    List Char :=
  replaceMatches (fun t => (recognise t).map fun rest => (put, taken t rest)) s

def stripTags (s : List Char) : List Char := replaceWith [] anyTag? s

/-- The value of an attribute whose name has just been passed: in quotes, or up to a blank. -/
def valueAfterName? (s : List Char) : Option (List Char) :=
  (after? ['='] (trimLeft s)).bind fun t =>
    let v := trimLeft t
    let quoted (mark : Char) : Option (List Char) :=
      (after? [mark] v).bind fun u =>
        if u.contains mark then some (u.takeWhile (· != mark)) else none
    let bare := v.takeWhile fun c => !isBlank c && c != '>'
    (quoted '"').or ((quoted '\'').or (if bare.isEmpty then none else some bare))

/-- The value of the first attribute of a name in the text of a tag. The name stands at the start
or after a blank, whether or not that is inside the value of another attribute. -/
def attributeFrom? (name : List Char) (fresh : Bool) (s : List Char) : Option (List Char) :=
  let here := if fresh then (afterAnyCase? name s).bind valueAfterName? else none
  match s with
  | [] => here
  | c :: rest => here.or (attributeFrom? name (isBlank c) rest)

def attribute? (name s : List Char) : Option (List Char) := attributeFrom? name true s

end EmailTemplate.PlainText
