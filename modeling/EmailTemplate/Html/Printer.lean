import EmailTemplate.Html.Forest

/-! Writing a document tree as markup. -/

namespace EmailTemplate.Html

/-- Elements that are written without content and without end tag. -/
def voidNames : List String :=
  ["area", "base", "basefont", "bgsound", "br", "col", "embed", "frame", "hr", "img", "input",
    "keygen", "link", "meta", "param", "source", "track", "wbr"]

def Tag.isVoid (t : Tag) : Bool := t.space == .html && voidNames.contains t.name

/-- Elements whose text is written as it is. -/
def rawTextNames : List String :=
  ["style", "script", "xmp", "iframe", "noembed", "noframes", "plaintext", "noscript"]

def Tag.isRawText (t : Tag) : Bool := t.space == .html && rawTextNames.contains t.name

def escapeTextChar (c : Char) : List Char :=
  if c = '&' then ['&', 'a', 'm', 'p', ';']
  else if c = '<' then ['&', 'l', 't', ';']
  else if c = '>' then ['&', 'g', 't', ';']
  else if c.toNat = 0xa0 then ['&', 'n', 'b', 's', 'p', ';']
  else [c]

def escapeAttributeChar (c : Char) : List Char :=
  if c = '&' then ['&', 'a', 'm', 'p', ';']
  else if c = '"' then ['&', 'q', 'u', 'o', 't', ';']
  else if c.toNat = 0xa0 then ['&', 'n', 'b', 's', 'p', ';']
  else [c]

def escapeText (s : String) : List Char := s.toList.flatMap escapeTextChar

def escapeAttribute (s : String) : List Char := s.toList.flatMap escapeAttributeChar

/-- The name of an attribute with the mark of its vocabulary. -/
def Attribute.label (a : Attribute) : String :=
  match a.space with
  | .plain => a.name
  | .xlink => "xlink:" ++ a.name
  | .xml => "xml:" ++ a.name
  | .xmlns => if a.name = "xmlns" then a.name else "xmlns:" ++ a.name

def Attribute.print (a : Attribute) : List Char :=
  ' ' :: a.label.toList ++ '=' :: '"' :: escapeAttribute a.value ++ ['"']

def openingTag (tag : Tag) (attributes : List Attribute) : List Char :=
  '<' :: tag.name.toList ++ attributes.flatMap Attribute.print ++ ['>']

def closingTag (tag : Tag) : List Char := '<' :: '/' :: tag.name.toList ++ ['>']

/-- The doctype keeps its name alone. -/
def printDoctype (name : String) : List Char :=
  ['<', '!', 'D', 'O', 'C', 'T', 'Y', 'P', 'E', ' '] ++ name.toList ++ ['>']

def printComment (content : String) : List Char :=
  ['<', '!', '-', '-'] ++ content.toList ++ ['-', '-', '>']

/-- The markup of a row of siblings inside a parent: `raw` if their text is written as it is, and
`hidden` if they are in an element without content, where tags are left out. -/
def Forest.print (raw hidden : Bool) : Forest → List Char
  | .nil => []
  | .text s rest => (if raw then s.toList else escapeText s) ++ rest.print raw hidden
  | .comment s rest => printComment s ++ rest.print raw hidden
  | .doctype name rest => printDoctype name ++ rest.print raw hidden
  | .element tag attributes children rest =>
    (if hidden then children.print tag.isRawText true
      else openingTag tag attributes ++ children.print tag.isRawText tag.isVoid ++
        (if tag.isVoid then [] else closingTag tag)) ++
      rest.print raw hidden

/-- The markup of a whole document, or of the content of an element. -/
def Forest.toHtml (f : Forest) : String := String.ofList (f.print false false)

def Element.outerHtml (e : Element) : String := (e.followedBy .nil).toHtml

def Element.innerHtml (e : Element) : String := e.children.toHtml

end EmailTemplate.Html
