import EmailTemplate.Json.Printer

/-! The text of a data value in rendered output. -/

namespace EmailTemplate.Json

/-- Whole doubles below `10 ^ 21` are written with all their digits and no fraction. -/
def Number.plain : Number → String
  | .integer n => integerText n
  | .double d =>
    if d.isWhole && decide (d.whole < 1000000000000000000000) then
      (if d.negative then "-" else "") ++ toString d.whole
    else doubleText d

mutual

/-- Null is empty, an array joins its items by commas, and an object has no text of its own. -/
def Value.stringify : Value → String
  | .null => ""
  | .bool b => if b then "true" else "false"
  | .number n => n.plain
  | .string s => s
  | .array items => ",".intercalate (stringifyItems items)
  | .object _ => "[object Object]"

def stringifyItems : List Value → List String
  | [] => []
  | v :: rest => v.stringify :: stringifyItems rest

end

end EmailTemplate.Json
