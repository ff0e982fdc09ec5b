import MarketLoad.Text.Utf8

/-! # Lines

Byte streams are cut at newlines into complete lines and an unfinished rest
(`Lines.cut`, undone by `Lines.join`); texts are cut into lines whose end may also carry a
carriage return (`Lines.ofText`). -/

namespace MarketLoad

/-- The byte that ends a line. -/
def newline : UInt8 := 10

namespace Lines

/-- The complete lines of a byte string, without their newlines, and what follows the last
newline. -/
def cut : Bytes → List Bytes × Bytes
  | [] => ([], [])
  | b :: rest =>
    let (lines, left) := cut rest
    if b = newline then ([] :: lines, left)
    else
      match lines with
      | [] => ([], b :: left)
      | line :: lines => ((b :: line) :: lines, left)

/-- Lines with their newlines, and an unfinished rest. -/
def join (lines : List Bytes) (left : Bytes) : Bytes :=
  lines.flatMap (· ++ [newline]) ++ left

/-- Cutting loses nothing. -/
theorem join_cut (bs : Bytes) : join (cut bs).1 (cut bs).2 = bs := by
  induction bs with
  | nil => rfl
  | cons b rest ih =>
    simp only [cut]
    split
    · rename_i h; simp only [join, List.flatMap_cons] at ih ⊢; simp [ih, h]
    · split
      · rename_i h; simp only [join, h] at ih ⊢; simpa using ih
      · rename_i h; simp only [join, h] at ih ⊢; simpa using ih

/-- The lines of a list of characters. A line ends at a newline, together with one carriage
return before it; an end of line at the very end starts no further line. -/
def ofChars : List Char → List (List Char)
  | [] => []
  | '\r' :: '\n' :: cs => [] :: ofChars cs
  | c :: cs =>
    if c = '\n' then [] :: ofChars cs
    else
      match ofChars cs with
      | [] => [[c]]
      | line :: lines => (c :: line) :: lines

/-- The lines of a text, without their line ends. -/
def ofText (text : String) : List String := (ofChars text.toList).map String.ofList

end Lines

end MarketLoad
