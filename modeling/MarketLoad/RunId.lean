import MarketLoad.Powers
import MarketLoad.Text.Digits

/-! # Run identifiers

128-bit identifiers, written as five groups of lower-case hexadecimal digits. They are read with
or without hyphens, and with hyphens also in braces or after `urn:uuid:`; letters may be of
either case throughout. -/

namespace MarketLoad

structure RunId where
  value : Nat
  value_lt : value < twoTo 128
deriving DecidableEq, Repr

namespace RunId

open Text

/-- The identifier of all zeros. -/
def nil : RunId := ⟨0, by decide⟩

def text (id : RunId) : String :=
  let ds := paddedHex 32 id.value
  let group := fun first count => (ds.drop first).take count
  String.ofList ("-".toList.intercalate
    [group 0 8, group 8 4, group 12 4, group 16 4, group 20 12])

/-- Thirty-two hexadecimal digits. -/
def ofHex? (cs : List Char) : Option RunId :=
  if cs.length = 32 then
    (readHexFrom? 0 cs).bind fun n => if h : n < twoTo 128 then some ⟨n, h⟩ else none
  else none

/-- Five groups of digits with hyphens between them. -/
def ofGroups? (cs : List Char) : Option RunId :=
  if cs.length = 36 ∧ [8, 13, 18, 23].all fun i => cs[i]? == some '-' then
    ofHex? (cs.take 8 ++ (cs.drop 9).take 4 ++ (cs.drop 14).take 4 ++ (cs.drop 19).take 4 ++
      cs.drop 24)
  else none

def ofText? (s : String) : Option RunId :=
  let cs := s.toList
  if cs.length = 32 then ofHex? cs
  else if cs.length = 38 ∧ cs.head? = some '\x7b' ∧ cs.getLast? = some '\x7d' then
    ofGroups? (cs.drop 1).dropLast
  else if (cs.take 9).map Char.toLower = "urn:uuid:".toList then ofGroups? (cs.drop 9)
  else ofGroups? cs

end RunId

end MarketLoad
