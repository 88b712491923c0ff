import EmailTemplate.Html.InlineStyle

/-! Named blocks of a message, found by class, identifier or data attribute. -/

namespace EmailTemplate.Landmark

open Html Text

/-- How an element is recognised as the block of a name. -/
inductive BlockPattern
  | classContains
  | idContains
  | dataBlock
  | className
  | id
  deriving DecidableEq, Repr

namespace BlockPattern

/-- In order of preference. -/
def all : List BlockPattern := [classContains, idContains, dataBlock, className, id]

def fits (name : String) (e : Element) : BlockPattern → Bool
  | classContains => e.classContains name
  | idContains => (e.attribute? "id").any fun s => occurs name.toList s.toList
  | dataBlock => e.attribute? "data-block" == some name
  | className => (e.attribute? "class").any fun c => (words c.toList).contains name.toList
  | id => e.attribute? "id" == some name

/-- The pattern in the words of a style sheet. -/
def selector (name : String) : BlockPattern → String
  | classContains => "[class*=" ++ name ++ "]"
  | idContains => "[id*=" ++ name ++ "]"
  | dataBlock => "[data-block=" ++ name ++ "]"
  | className => "." ++ name
  | id => "#" ++ name

end BlockPattern

structure Block where
  name : String
  visit : Visit
  pattern : BlockPattern
  deriving Repr

/-- The first element of the first pattern that has one. -/
def block? (visits : List Visit) (name : String) : Option Block :=
  BlockPattern.all.findSome? fun pattern =>
    (visits.find? fun v => pattern.fits name v.element).map fun v => ⟨name, v, pattern⟩

def blocks (doc : Forest) (names : List String) : List Block :=
  let visits := doc.visits
  names.filterMap (block? visits)

end EmailTemplate.Landmark
