/-! # UTF-8

Texts as bytes and bytes as texts. Reading is a sequence of steps: each takes one character
off the front, or one *broken part*, which is the longest start of a character that the next
byte does not continue. `Utf8.lossy` shows a replacement character for each broken part,
`Utf8.strict?` refuses them. -/

namespace MarketLoad

/-- Raw bytes, as they travel on a connection. -/
abbrev Bytes := List UInt8

namespace Utf8

def encodeChars (cs : List Char) : Bytes := cs.flatMap String.utf8EncodeChar

def encode (text : String) : Bytes := encodeChars text.toList

/-- What the first byte of a character announces: how many bytes follow, and the range in
which the first of them lies. -/
structure Lead where
  following : Nat
  low : Nat
  high : Nat

/-- The announcement of a first byte above ASCII; `none` if no character starts with it. -/
def lead? (b : Nat) : Option Lead :=
  if 0xc2 ≤ b ∧ b ≤ 0xdf then some ⟨1, 0x80, 0xbf⟩
  else if b = 0xe0 then some ⟨2, 0xa0, 0xbf⟩
  else if b = 0xed then some ⟨2, 0x80, 0x9f⟩
  else if 0xe1 ≤ b ∧ b ≤ 0xef then some ⟨2, 0x80, 0xbf⟩
  else if b = 0xf0 then some ⟨3, 0x90, 0xbf⟩
  else if 0xf1 ≤ b ∧ b ≤ 0xf3 then some ⟨3, 0x80, 0xbf⟩
  else if b = 0xf4 then some ⟨3, 0x80, 0x8f⟩
  else none

/-- The payload bits of a first byte that announces `following` more. -/
def leadBits (b following : Nat) : Nat :=
  if following = 1 then b % 0x20 else if following = 2 then b % 0x10 else b % 0x08

/-- Takes the bytes that continue a character: the first must lie in `low … high`, the others
among the plain continuation bytes. The result is the code point, or `none` as soon as a byte
does not continue, with the bytes that are left. -/
def continueChar (code : Nat) : (following low high : Nat) → Bytes → Option Nat × Bytes
  | 0, _, _, rest => (some code, rest)
  | _ + 1, _, _, [] => (none, [])
  | n + 1, low, high, b :: rest =>
    if low ≤ b.toNat ∧ b.toNat ≤ high then
      continueChar (code * 0x40 + b.toNat % 0x40) n 0x80 0xbf rest
    else (none, b :: rest)

/-- One step: the character, or `none` for a broken part, and the bytes left. -/
def step (b : UInt8) (rest : Bytes) : Option Char × Bytes :=
  if b.toNat < 0x80 then (some (Char.ofNat b.toNat), rest)
  else
    match lead? b.toNat with
    | none => (none, rest)
    | some lead =>
      let (code, left) :=
        continueChar (leadBits b.toNat lead.following) lead.following lead.low lead.high rest
      (code.map Char.ofNat, left)

theorem length_continueChar_le (code n low high : Nat) (rest : Bytes) :
    (continueChar code n low high rest).2.length ≤ rest.length := by
  induction n generalizing code low high rest with
  | zero => simp [continueChar]
  | succ n ih =>
    cases rest with
    | nil => simp [continueChar]
    | cons b rest =>
      simp only [continueChar]
      split
      · exact Nat.le_trans (ih ..) (Nat.le_succ _)
      · exact Nat.le_refl _

theorem length_step_le (b : UInt8) (rest : Bytes) : (step b rest).2.length ≤ rest.length := by
  unfold step
  split
  · exact Nat.le_refl _
  · split
    · exact Nat.le_refl _
    · exact length_continueChar_le ..

/-- The characters of a byte string, with `none` for each broken part. -/
def decode : Bytes → List (Option Char)
  | [] => []
  | b :: rest => (step b rest).1 :: decode (step b rest).2
termination_by bs => bs.length
decreasing_by exact Nat.lt_succ_of_le (length_step_le b rest)

/-- The character shown for a broken part. -/
def replacement : Char := '\uFFFD'

/-- The characters of a byte string, with a replacement for each broken part. -/
def lossyChars (bs : Bytes) : List Char := (decode bs).map (·.getD replacement)

/-- The text of a byte string, with a replacement for each broken part. -/
def lossy (bs : Bytes) : String := String.ofList (lossyChars bs)

/-- The text of a byte string without broken parts. -/
def strict? (bs : Bytes) : Option String := ((decode bs).mapM id).map String.ofList

end Utf8

end MarketLoad
