import MarketLoad.Text.Digits
import MarketLoad.Text.Invisible

/-! # Quoted texts in messages

A message shows a text between double quotes. Quotes, backslashes and the usual controls have
two-character escapes; any other character without a shape of its own is written by its code
point, as in `\\u{301}`. -/

namespace MarketLoad.Text

/-- A code point escape. -/
def codeEscape (c : Char) : List Char := "\\u\x7b".toList ++ hexDigits c.toNat ++ ['\x7d']

def quotedChar (c : Char) : List Char :=
  if c = '"' then ['\\', '"']
  else if c = '\\' then ['\\', '\\']
  else if c = '\n' then ['\\', 'n']
  else if c = '\r' then ['\\', 'r']
  else if c = '\t' then ['\\', 't']
  else if c.toNat = 0 then ['\\', '0']
  else if c.toNat < 0x20 ∨ c.toNat = 0x7f then codeEscape c
  else if 0x80 ≤ c.toNat ∧ isInvisible c then codeEscape c
  else [c]

/-- A text as messages show it. -/
def quoted (text : String) : String :=
  String.ofList ('"' :: (text.toList.flatMap quotedChar ++ ['"']))

end MarketLoad.Text
