import EmailTemplate.Html.Construction.Rules
import EmailTemplate.Html.Lexer

/-! Parsing markup as a whole document. Nothing is an error: what is missing is supplied, and what
is misplaced finds a place. -/

namespace EmailTemplate.Html

def takeAll (tokens : List Token) (b : Builder) : Builder :=
  tokens.foldl (fun b token => ((Build.take token).run b).2) b

/-- Reads on; each round takes a character at least. -/
def construct : Nat → List Char → Builder → Builder
  | 0, _, b => b
  | _ + 1, [], b => takeAll [.finish] b
  | fuel + 1, s, b =>
    if b.textMode = .data then
      let foreign := !b.openElements.isEmpty && (Build.currentTag b).space != .html
      let (tokens, rest) := readData foreign s
      construct fuel rest (takeAll tokens b)
    else
      let (tokens, rest) := readText b.textMode (Build.currentTag b).name s
      construct fuel rest (takeAll tokens { b with textMode := .data })

def parse (html : String) : Forest :=
  let s := inputChars html
  (construct (2 * s.length + 2) s Builder.start).arena.toForest

end EmailTemplate.Html
