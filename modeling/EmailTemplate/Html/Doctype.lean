import EmailTemplate.Html.Reference
import EmailTemplate.Html.Token

/-! Document types: how a declaration is read, and which of them ask for the rules of old
documents. -/

namespace EmailTemplate.Html

open Text

def isGap (c : Char) : Bool :=
  c == '\t' || c == '\n' || c == '\r' || c == ' ' || c.toNat == 12

def skipGap (s : List Char) : List Char := s.dropWhile isGap

/-- A null character inside markup is no character. -/
def noNull (c : Char) : Char := if c.toNat = 0 then replacement else c

def cleanText (s : List Char) : String := String.ofList (s.map noNull)

/-- What follows `head`, given in lower case, in any case of the letters. -/
def afterNoCase? : List Char → List Char → Option (List Char)
  | [], s => some s
  | _ :: _, [] => none
  | h :: head, c :: s => if asciiLower c = h then afterNoCase? head s else none

/-- What follows the next greater-than sign. -/
def pastTagEnd (s : List Char) : List Char := (s.dropWhile (· != '>')).drop 1

/-- A quoted identifier: its text, what is left, and whether its closing quote was there. A
greater-than sign ends the declaration even inside quotes. -/
def quotedId (mark : Char) (s : List Char) : String × List Char × Bool :=
  let inside := s.takeWhile fun c => c != mark && c != '>'
  match s.drop inside.length with
  | c :: rest =>
    if c = mark then (cleanText inside, rest, true) else (cleanText inside, c :: rest, false)
  | [] => (cleanText inside, [], false)

/-- The end of a declaration; anything before the greater-than sign breaks it if `strict`. -/
def closeDoctype (strict : Bool) (d : Doctype) (s : List Char) : Doctype × List Char :=
  match skipGap s with
  | '>' :: rest => (d, rest)
  | [] => ({ d with broken := true }, [])
  | other => (if strict then { d with broken := true } else d, pastTagEnd other)

/-- The system identifier, which has to be there if `needed`. -/
def readSystemId (needed : Bool) (d : Doctype) (s : List Char) : Doctype × List Char :=
  let quotedBy (mark : Char) (t : List Char) : Doctype × List Char :=
    let (id, rest, whole) := quotedId mark t
    let next : Doctype := { d with systemId := some id, broken := d.broken || !whole }
    if whole then closeDoctype false next rest else (next, pastTagEnd rest)
  match skipGap s with
  | '"' :: t => quotedBy '"' t
  | '\'' :: t => quotedBy '\'' t
  | '>' :: t => ({ d with broken := d.broken || needed }, t)
  | t => ({ d with broken := true }, pastTagEnd t)

def readPublicId (d : Doctype) (s : List Char) : Doctype × List Char :=
  let quotedBy (mark : Char) (t : List Char) : Doctype × List Char :=
    let (id, rest, whole) := quotedId mark t
    let next : Doctype := { d with publicId := some id, broken := d.broken || !whole }
    if whole then readSystemId false next rest else (next, pastTagEnd rest)
  match skipGap s with
  | '"' :: t => quotedBy '"' t
  | '\'' :: t => quotedBy '\'' t
  | t => ({ d with broken := true }, pastTagEnd t)

/-- Reads a declaration after its keyword. -/
def readDoctype (s : List Char) : Doctype × List Char :=
  let t := skipGap s
  let word := t.takeWhile fun c => !isGap c && c != '>'
  let rest := skipGap (t.drop word.length)
  let named : Doctype := ⟨some (cleanText (word.map asciiLower)), none, none, false⟩
  if word.isEmpty then (⟨none, none, none, true⟩, pastTagEnd rest)
  else match afterNoCase? ['p', 'u', 'b', 'l', 'i', 'c'] rest with
    | some more => readPublicId named more
    | none =>
      match afterNoCase? ['s', 'y', 's', 't', 'e', 'm'] rest with
      | some more => readSystemId true named more
      | none => closeDoctype true named rest

/-- Public identifiers of old documents, by what they start with. -/
def oldPublicHeads : List String :=
  ["-//advasoft ltd//dtd html 3.0 aswedit + extensions//",
    "-//as//dtd html 3.0 aswedit + extensions//",
    "-//ietf//dtd html 2.0 level 1//", "-//ietf//dtd html 2.0 level 2//",
    "-//ietf//dtd html 2.0 strict level 1//", "-//ietf//dtd html 2.0 strict level 2//",
    "-//ietf//dtd html 2.0 strict//", "-//ietf//dtd html 2.0//", "-//ietf//dtd html 2.1e//",
    "-//ietf//dtd html 3.0//", "-//ietf//dtd html 3.2 final//", "-//ietf//dtd html 3.2//",
    "-//ietf//dtd html 3//", "-//ietf//dtd html level 0//", "-//ietf//dtd html level 1//",
    "-//ietf//dtd html level 2//", "-//ietf//dtd html level 3//",
    "-//ietf//dtd html strict level 0//", "-//ietf//dtd html strict level 1//",
    "-//ietf//dtd html strict level 2//", "-//ietf//dtd html strict level 3//",
    "-//ietf//dtd html strict//", "-//ietf//dtd html//",
    "-//metrius//dtd metrius presentational//",
    "-//microsoft//dtd internet explorer 2.0 html strict//",
    "-//microsoft//dtd internet explorer 2.0 html//",
    "-//microsoft//dtd internet explorer 2.0 tables//",
    "-//microsoft//dtd internet explorer 3.0 html strict//",
    "-//microsoft//dtd internet explorer 3.0 html//",
    "-//microsoft//dtd internet explorer 3.0 tables//",
    "-//netscape comm. corp.//dtd html//", "-//netscape comm. corp.//dtd strict html//",
    "-//o'reilly and associates//dtd html 2.0//",
    "-//o'reilly and associates//dtd html extended 1.0//",
    "-//o'reilly and associates//dtd html extended relaxed 1.0//",
    "-//softquad software//dtd hotmetal pro 6.0::19990601::extensions to html 4.0//",
    "-//softquad//dtd hotmetal pro 4.0::19971010::extensions to html 4.0//",
    "-//spyglass//dtd html 2.0 extended//", "-//sq//dtd html 2.0 hotmetal + extensions//",
    "-//sun microsystems corp.//dtd hotjava html//",
    "-//sun microsystems corp.//dtd hotjava strict html//", "-//w3c//dtd html 3 1995-03-24//",
    "-//w3c//dtd html 3.2 draft//", "-//w3c//dtd html 3.2 final//", "-//w3c//dtd html 3.2//",
    "-//w3c//dtd html 3.2s draft//", "-//w3c//dtd html 4.0 frameset//",
    "-//w3c//dtd html 4.0 transitional//", "-//w3c//dtd html experimental 19960712//",
    "-//w3c//dtd html experimental 970421//", "-//w3c//dtd w3 html//", "-//w3o//dtd w3 html 3.0//",
    "-//webtechs//dtd mozilla html 2.0//", "-//webtechs//dtd mozilla html//"]

def oldPublicIds : List String :=
  ["-//w3o//dtd w3 html strict 3.0//en//", "-/w3c/dtd html 4.0 transitional/en", "html"]

def oldSystemIds : List String := ["http://www.ibm.com/data/dtd/v11/ibmxhtml1-transitional.dtd"]

/-- Public identifiers that mean an old document only without a system identifier. -/
def transitionalHeads : List String :=
  ["-//w3c//dtd html 4.01 frameset//", "-//w3c//dtd html 4.01 transitional//"]

def startsWithAny (heads : List String) (s : String) : Bool :=
  heads.any fun head => (after? head.toList s.toList).isSome

/-- Whether a document of this type is read by the rules of old documents. -/
def Doctype.isOld (d : Doctype) : Bool :=
  let publicId := d.publicId.map lowerAscii
  let systemId := d.systemId.map lowerAscii
  d.broken || d.name != some "html" || publicId.any oldPublicIds.contains ||
    systemId.any oldSystemIds.contains || publicId.any (startsWithAny oldPublicHeads) ||
    (publicId.any (startsWithAny transitionalHeads) && systemId.isNone)

end EmailTemplate.Html
