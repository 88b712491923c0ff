import EmailTemplate.Text.Printable

/-! Quoting a text for a message: in double quotes, on one line, and with nothing in it that does
not show. -/

namespace EmailTemplate.Text

/-- A character inside quotes. What has no escape of its own and is not printable is written by
its number. -/
def quoteChar (c : Char) : List Char :=
  if c = '"' then ['\\', '"']
  else if c = '\\' then ['\\', '\\']
  else if c = '\n' then ['\\', 'n']
  else if c = '\t' then ['\\', 't']
  else if c = '\r' then ['\\', 'r']
  else if c.toNat = 0 then ['\\', '0']
  else if isPrintable c then [c]
  else ['\\', 'u', '{'] ++ Nat.toDigits 16 c.toNat ++ ['}']

def quoted (s : String) : String :=
  String.ofList ('"' :: s.toList.flatMap quoteChar ++ ['"'])

end EmailTemplate.Text
