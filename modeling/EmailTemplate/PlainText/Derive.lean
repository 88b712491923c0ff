import EmailTemplate.PlainText.Markup
import EmailTemplate.PlainText.Reference

/-! The plain text of a piece of markup, by replacing parts of it in fixed steps: elements that show
nothing go, images become their description, links show their address, lines and cells are kept
apart, tags go, and white space is brought into a normal form. -/

namespace EmailTemplate.PlainText

open Text

def unixLines (s : List Char) : List Char := replaceAll ['\r', '\n'] ['\n'] s

/-- An element up to its first closing tag. -/
def wholeElement? (name s : List Char) : Option (List Char) :=
  (openTag? name s).bind fun (_, rest) => (upToCloseTag? name rest).map (·.2)

def dropElement (name s : List Char) : List Char := replaceWith [] (wholeElement? name) s

def comment? (s : List Char) : Option (List Char) :=
  (after? ['<', '!', '-', '-'] s).bind fun rest =>
    (splitFirst? ['-', '-', '>'] rest).map (·.2)

def dropComments (s : List Char) : List Char := replaceWith [] comment? s

/-- An image is its description in brackets, if it has one. -/
def imageText (tag : List Char) : List Char :=
  match attribute? ['a', 'l', 't'] tag with
  | some alt => if (trim alt).isEmpty then [] else '[' :: trim alt ++ [']']
  | none => []

def imageAt? (s : List Char) : Option (List Char × Nat) :=
  (openTag? ['i', 'm', 'g'] s).map fun (_, rest) =>
    (imageText (s.take (taken s rest)), taken s rest)

def imagesToText (s : List Char) : List Char := replaceMatches imageAt? s

/-- A link is its text with its address in parentheses, if it has one. -/
def linkText (attributes body : List Char) : List Char :=
  let text := trim (stripTags body)
  match attribute? ['h', 'r', 'e', 'f'] attributes with
  | some href => if href.isEmpty then text else text ++ [' ', '('] ++ href ++ [')']
  | none => text

def linkAt? (s : List Char) : Option (List Char × Nat) :=
  (openTag? ['a'] s).bind fun (attributes, rest) =>
    (upToCloseTag? ['a'] rest).map fun (body, tail) => (linkText attributes body, taken s tail)

def linksToText (s : List Char) : List Char := replaceMatches linkAt? s

/-- A line break without attributes. -/
def lineBreak? (s : List Char) : Option (List Char) :=
  (afterAnyCase? ['<', 'b', 'r'] s).bind fun rest =>
    let t := trimLeft rest
    (after? ['/', '>'] t).or (after? ['>'] t)

/-- The elements after which a line ends. -/
def lineElements : List (List Char) :=
  [['p'], ['d', 'i', 'v'], ['h', '1'], ['h', '2'], ['h', '3'], ['h', '4'], ['h', '5'], ['h', '6'],
    ['l', 'i'], ['t', 'r']]

def cellElements : List (List Char) := [['t', 'd'], ['t', 'h']]

def anyCloseTag? (names : List (List Char)) (s : List Char) : Option (List Char) :=
  names.findSome? (closeTag? · s)

def breakLines (s : List Char) : List Char :=
  replaceWith [' '] (anyCloseTag? cellElements)
    (replaceWith ['\n'] (anyCloseTag? lineElements) (replaceWith ['\n'] lineBreak? s))

def isSpace (c : Char) : Bool := c == ' ' || c == '\t'

def spaces? (s : List Char) : Option (List Char) :=
  if s.head?.any isSpace then some (s.dropWhile isSpace) else none

/-- A line end with the spaces around it. -/
def paddedLineEnd? (s : List Char) : Option (List Char) :=
  (after? ['\n'] (s.dropWhile isSpace)).map (·.dropWhile isSpace)

/-- Three line ends or more. -/
def blankLines? (s : List Char) : Option (List Char) :=
  (after? ['\n', '\n', '\n'] s).map (·.dropWhile (· == '\n'))

def noBreakSpace : Char := Char.ofNat 0xa0

/-- Runs of spaces become one, line ends lose the spaces around them, at most one line is left
blank, and the ends are trimmed. -/
def tidy (s : List Char) : List Char :=
  let one := replaceWith [' '] spaces? (s.map fun c => if c = noBreakSpace then ' ' else c)
  let lines := replaceWith ['\n'] paddedLineEnd? one
  trim (replaceWith ['\n', '\n'] blankLines? lines)

/-- The elements whose content is never shown. -/
def hiddenElements : List (List Char) :=
  [['s', 't', 'y', 'l', 'e'], ['s', 'c', 'r', 'i', 'p', 't'],
    ['n', 'o', 's', 'c', 'r', 'i', 'p', 't']]

def ofMarkup (html : List Char) : List Char :=
  let visible := hiddenElements.foldl (fun s name => dropElement name s) (unixLines html)
  let worded := linksToText (imagesToText (dropComments visible))
  tidy (decodeReferences (stripTags (breakLines worded)))

end EmailTemplate.PlainText
