import EmailTemplate.Decimal.Double
import EmailTemplate.Html.Edit
import EmailTemplate.Text.Blank
import EmailTemplate.Text.Lower

/-! The inline style of an element: its text in lower case, its declarations, and whether it hides
the element. -/

namespace EmailTemplate.Html

open Text

structure InlineStyle where
  text : List Char
  declarations : List (List Char × List Char)
  deriving Repr

/-- What follows the first colon belongs to the value. -/
def splitDeclaration? (s : List Char) : Option (List Char × List Char) := splitFirst? [':'] s

/-- The mark of an important declaration, read from its end. -/
def importantMark : List Char := "!important".toList.reverse

/-- Drops the mark from the start of a reversed value as often as it is there. -/
def dropImportant (s : List Char) : List Char :=
  match h : after? importantMark s with
  | some rest =>
    have : rest.length < s.length := by
      have hmark : importantMark.length = 10 := by decide
      have hlength := after?_length h
      omega
    dropImportant rest
  | none => s
termination_by s.length

/-- A value without blanks around it and without the mark of importance. -/
def declaredValue (s : List Char) : List Char := trim (dropImportant (trim s).reverse).reverse

namespace InlineStyle

def ofText (text : List Char) : InlineStyle where
  text := text
  declarations := (splitBy (· == ';') text).filterMap fun piece =>
    (splitDeclaration? piece).map fun (property, value) => (trim property, declaredValue value)

/-- Whether the text has a property followed by a value, with at most one space between. -/
def mentions (s : InlineStyle) (property value : String) : Bool :=
  occurs (property ++ ":" ++ value).toList s.text ||
    occurs (property ++ ": " ++ value).toList s.text

/-- The value of a property; the last declaration counts. -/
def value? (s : InlineStyle) (property : String) : Option (List Char) :=
  (s.declarations.reverse.find? (·.1 == property.toList)).map (·.2)

end InlineStyle

/-- The magnitude of a decimal with an optional sign and point, as a fraction. -/
def magnitude? (s : List Char) : Option (Nat × Nat) :=
  let unsigned := match s with
    | '+' :: rest | '-' :: rest => rest
    | _ => s
  let whole := unsigned.takeWhile isAsciiDigit
  let places := match unsigned.dropWhile isAsciiDigit with
    | [] => some []
    | '.' :: rest => if rest.all isAsciiDigit then some rest else none
    | _ => none
  match places with
  | none => none
  | some places =>
    let digits := whole ++ places
    if digits.isEmpty then none
    else some (digits.foldl (fun n c => 10 * n + digitValue c) 0, Nat.pow 10 places.length)

def isNumberChar (c : Char) : Bool := isAsciiDigit c || c == '.' || c == '-' || c == '+'

/-- Whether a length begins with a number that is zero in double precision. -/
def isZeroLength (value : List Char) : Bool :=
  match magnitude? (value.takeWhile isNumberChar) with
  | some (num, den) => Double.nearestRank num den == 0
  | none => false

/-- A style hides when it mentions a hiding value, however the number goes on, or declares one. -/
def InlineStyle.hides (s : InlineStyle) : Bool :=
  s.mentions "display" "none" || s.mentions "max-height" "0" || s.mentions "opacity" "0" ||
    s.mentions "font-size" "0" || s.mentions "font-size" "1px" ||
    s.value? "display" == some "none".toList ||
    (s.value? "max-height").any isZeroLength || (s.value? "opacity").any isZeroLength

def Element.inlineStyle (e : Element) : InlineStyle :=
  .ofText (lower ((e.attribute? "style").getD "").toList)

def Element.isHidden (e : Element) : Bool := e.inlineStyle.hides

def Element.trimmedText (e : Element) : List Char := trim e.textContent.toList

def Element.classContains (e : Element) (part : String) : Bool :=
  (e.attribute? "class").any fun c => occurs part.toList c.toList

end EmailTemplate.Html
