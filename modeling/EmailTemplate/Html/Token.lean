/-! The tokens of markup. -/

namespace EmailTemplate.Html

/-- A start tag: its attributes as they are written, each name once. -/
structure StartTag where
  name : String
  attributes : List (String × String)
  selfClosing : Bool
  deriving DecidableEq, Repr

/-- A document type as it is declared; `broken` if the declaration is cut short or misspelt. -/
structure Doctype where
  name : Option String
  publicId : Option String
  systemId : Option String
  broken : Bool
  deriving DecidableEq, Repr

/-- Characters come one by one. A null character that stands where text is read is a token of its
own. -/
inductive Token
  | doctype (d : Doctype)
  | startTag (tag : StartTag)
  | endTag (name : String)
  | comment (content : String)
  | char (c : Char)
  | null
  | finish
  deriving Repr

/-- How text is read: `data` has tags and references; `title` has references and `raw` and `script`
have none, all three up to the end tag of their element; `plain` never ends. -/
inductive TextMode
  | data
  | title
  | raw
  | script
  | plain
  deriving DecidableEq, Repr

end EmailTemplate.Html
