import EmailTemplate.Html.Doctype
import EmailTemplate.Text.Find

/-! From characters to tokens. -/

namespace EmailTemplate.Html

open Text

/-- Line ends become line feeds. -/
def normalLines : List Char → List Char
  | [] => []
  | '\r' :: '\n' :: s => '\n' :: normalLines s
  | c :: s => (if c = '\r' then '\n' else c) :: normalLines s

/-- The characters of a text to parse, without a mark of the byte order. -/
def inputChars (html : String) : List Char :=
  normalLines (match html.toList with
    | c :: s => if c.toNat = 0xfeff then s else c :: s
    | [] => [])

def decodeReferences (inAttribute : Bool) (s : List Char) : List Char :=
  replaceMatches (fun t => match t with
    | '&' :: u => (reference? inAttribute u).map fun (text, rest) => (text, t.length - rest.length)
    | _ => none) s

/-! ### Tags -/

/-- Where the reader is inside a tag. -/
inductive TagSpot
  | beforeName
  | name
  | afterName
  | beforeValue
  | quoted (mark : Char)
  | bare
  | afterQuoted
  | slash

/-- A tag as far as it was read: the attributes so far and the current one, all last first. -/
structure TagDraft where
  done : List (String × String)
  name : List Char
  value : List Char

/-- Adds the current attribute, unless there is one of its name. -/
def TagDraft.commit (d : TagDraft) : TagDraft :=
  let name := String.ofList d.name.reverse
  if d.name.isEmpty || d.done.any (·.1 == name) then ⟨d.done, [], []⟩
  else ⟨(name, String.ofList (decodeReferences true d.value.reverse)) :: d.done, [], []⟩

def TagDraft.start (d : TagDraft) (c : Char) : TagDraft :=
  { d.commit with name := [noNull (asciiLower c)] }

def TagDraft.pushName (d : TagDraft) (c : Char) : TagDraft :=
  { d with name := noNull (asciiLower c) :: d.name }

def TagDraft.pushValue (d : TagDraft) (c : Char) : TagDraft :=
  { d with value := noNull c :: d.value }

/-- What a character does inside a tag: it ends the tag, maybe as one that closes itself, or leads
to the next spot. -/
inductive TagMove
  | finish (selfClosing : Bool)
  | go (spot : TagSpot) (draft : TagDraft)

def moveBeforeName (d : TagDraft) (c : Char) : TagMove :=
  if isGap c then .go .beforeName d
  else if c = '/' then .go .slash d
  else if c = '>' then .finish false
  else .go .name (d.start c)

def tagMove (spot : TagSpot) (d : TagDraft) (c : Char) : TagMove :=
  match spot with
  | .beforeName => moveBeforeName d c
  | .name =>
    if isGap c then .go .afterName d
    else if c = '/' then .go .slash d
    else if c = '=' then .go .beforeValue d
    else if c = '>' then .finish false
    else .go .name (d.pushName c)
  | .afterName =>
    if isGap c then .go .afterName d
    else if c = '/' then .go .slash d
    else if c = '=' then .go .beforeValue d
    else if c = '>' then .finish false
    else .go .name (d.start c)
  | .beforeValue =>
    if isGap c then .go .beforeValue d
    else if c = '"' ∨ c = '\'' then .go (.quoted c) d
    else if c = '>' then .finish false
    else .go .bare (d.pushValue c)
  | .quoted mark => if c = mark then .go .afterQuoted d else .go (.quoted mark) (d.pushValue c)
  | .bare =>
    if isGap c then .go .beforeName d
    else if c = '>' then .finish false
    else .go .bare (d.pushValue c)
  | .afterQuoted => moveBeforeName d c
  | .slash => if c = '>' then .finish true else moveBeforeName d c

/-- Reads the attributes of a tag to its end; none if the text ends before. -/
def readAttributes (spot : TagSpot) (d : TagDraft) :
    List Char → Option (List (String × String) × Bool × List Char)
  | [] => none
  | c :: s =>
    match tagMove spot d c with
    | .finish selfClosing => some (d.commit.done.reverse, selfClosing, s)
    | .go next draft => readAttributes next draft s

def endsTagName (c : Char) : Bool := isGap c || c == '/' || c == '>'

/-- Reads a tag from its name on. -/
def readTag (s : List Char) : Option (StartTag × List Char) :=
  let name := s.takeWhile (!endsTagName ·)
  (readAttributes .beforeName ⟨[], [], []⟩ (s.drop name.length)).map
    fun (attributes, selfClosing, rest) =>
      (⟨cleanText (name.map asciiLower), attributes, selfClosing⟩, rest)

/-! ### Comments -/

def commentEnd? : List Char → Option (List Char × List Char)
  | [] => none
  | '-' :: '-' :: '>' :: rest => some ([], rest)
  | '-' :: '-' :: '!' :: '>' :: rest => some ([], rest)
  | c :: s => (commentEnd? s).map fun (inside, rest) => (c :: inside, rest)

/-- A comment that the text cuts short loses the beginning of an end mark. -/
def unfinishedComment (s : List Char) : List Char :=
  match s.reverse with
  | '!' :: '-' :: '-' :: t => t.reverse
  | '-' :: '-' :: t => t.reverse
  | '-' :: t => t.reverse
  | _ => s

/-- Reads a comment after its opening mark; it may end at once. -/
def readComment (s : List Char) : Token × List Char :=
  match s with
  | '>' :: rest => (.comment "", rest)
  | '-' :: '>' :: rest => (.comment "", rest)
  | _ =>
    match commentEnd? s with
    | some (inside, rest) => (.comment (cleanText inside), rest)
    | none => (.comment (cleanText (unfinishedComment s)), [])

/-- Markup that means nothing is a comment up to the next greater-than sign. -/
def readBogusComment (s : List Char) : Token × List Char :=
  (.comment (cleanText (s.takeWhile (· != '>'))), pastTagEnd s)

/-! ### Text -/

def charToken (c : Char) : Token := if c.toNat = 0 then .null else .char c

def cdataMark : List Char := ['[', 'C', 'D', 'A', 'T', 'A', '[']

def readCdata (s : List Char) : List Token × List Char :=
  match splitFirst? [']', ']', '>'] s with
  | some (inside, rest) => (inside.map charToken, rest)
  | none => (s.map charToken, [])

/-- Whether the text goes on with the end tag of an element. -/
def endTagFollows (name : List Char) (s : List Char) : Bool :=
  match s with
  | '<' :: '/' :: t =>
    match afterNoCase? name t with
    | some (c :: _) => endsTagName c
    | _ => false
  | _ => false

/-- How deep in comments a script is: in one, and in a script inside that. -/
inductive ScriptDepth
  | outside
  | inComment
  | inInner
  deriving DecidableEq

/-- Whether the text goes on with the word of a script tag. -/
def scriptWordFollows (s : List Char) : Bool :=
  match afterNoCase? ['s', 'c', 'r', 'i', 'p', 't'] s with
  | some (c :: _) => endsTagName c
  | _ => false

/-- The depth after a less-than sign, given what follows it. -/
def depthAtTag (depth : ScriptDepth) (s : List Char) : ScriptDepth :=
  match depth with
  | .outside => if (after? ['!', '-', '-'] s).isSome then .inComment else .outside
  | .inComment => if scriptWordFollows s then .inInner else .inComment
  | .inInner =>
    match s with
    | '/' :: t => if scriptWordFollows t then .inComment else .inInner
    | _ => .inInner

/-- The text of a script and what is left from its end tag on; `dashes` counts those just before,
up to two. -/
def scriptText (depth : ScriptDepth) (dashes : Nat) : List Char → List Char × List Char
  | [] => ([], [])
  | c :: s =>
    if depth != .inInner && endTagFollows ['s', 'c', 'r', 'i', 'p', 't'] (c :: s) then ([], c :: s)
    else
      let (nextDepth, nextDashes) :=
        if c = '<' then (depthAtTag depth s, 0)
        else if c = '-' then (depth, min 2 (dashes + 1))
        else if c = '>' ∧ dashes = 2 then (ScriptDepth.outside, 0)
        else (depth, 0)
      let (text, rest) := scriptText nextDepth nextDashes s
      (c :: text, rest)

/-- The text up to the end tag of an element. -/
def textBefore (name : List Char) : List Char → List Char × List Char
  | [] => ([], [])
  | c :: s =>
    if endTagFollows name (c :: s) then ([], c :: s)
    else
      let (text, rest) := textBefore name s
      (c :: text, rest)

/-- Reads text in a mode other than `data`, inside an element of a name. -/
def readText (mode : TextMode) (name : String) (s : List Char) : List Token × List Char :=
  let (text, rest) : List Char × List Char := match mode with
    | .data => ([], s)
    | .title =>
      let (text, rest) := textBefore name.toList s
      (decodeReferences false (text.map noNull), rest)
    | .raw =>
      let (text, rest) := textBefore name.toList s
      (text.map noNull, rest)
    | .script =>
      let (text, rest) := scriptText .outside 0 s
      (text.map noNull, rest)
    | .plain => (s.map noNull, [])
  (text.map Token.char, rest)

/-! ### Tokens -/

/-- Reads what follows a less-than sign and an exclamation mark. Character data count only inside
foreign elements. -/
def readDeclaration (foreign : Bool) (s : List Char) : List Token × List Char :=
  let single (t : Token × List Char) : List Token × List Char := ([t.1], t.2)
  match after? ['-', '-'] s with
  | some rest => single (readComment rest)
  | none =>
    match afterNoCase? ['d', 'o', 'c', 't', 'y', 'p', 'e'] s with
    | some rest =>
      let (d, rest) := readDoctype rest
      ([.doctype d], rest)
    | none =>
      match if foreign then after? cdataMark s else none with
      | some rest => readCdata rest
      | none => single (readBogusComment s)

/-- Reads what follows a less-than sign. A tag that the text cuts short is dropped. -/
def readMarkup (foreign : Bool) (s : List Char) : List Token × List Char :=
  match s with
  | '!' :: t => readDeclaration foreign t
  | '/' :: [] => ([.char '<', .char '/'], [])
  | '/' :: '>' :: t => ([], t)
  | '/' :: c :: t =>
    if isAsciiLetter c then
      match readTag (c :: t) with
      | some (tag, rest) => ([.endTag tag.name], rest)
      | none => ([], [])
    else
      let (comment, rest) := readBogusComment (c :: t)
      ([comment], rest)
  | '?' :: t =>
    let (comment, rest) := readBogusComment ('?' :: t)
    ([comment], rest)
  | c :: t =>
    if isAsciiLetter c then
      match readTag (c :: t) with
      | some (tag, rest) => ([.startTag tag], rest)
      | none => ([], [])
    else ([.char '<'], c :: t)
  | [] => ([.char '<'], [])

/-- Reads the next tag, comment or declaration, or the text before it. -/
def readData (foreign : Bool) (s : List Char) : List Token × List Char :=
  match s with
  | '<' :: t => readMarkup foreign t
  | _ =>
    let text := s.takeWhile (· != '<')
    ((decodeReferences false text).map charToken, s.drop text.length)

end EmailTemplate.Html
