import Mathlib.Data.List.TakeDrop
import MarketLoad.Json.Printer
import MarketLoad.Json.Reader
import MarketLoad.Proofs.Text.Digits

/-!
# JSON read as it was written

Reading undoes writing for every value that has a text: its numbers are spelled as JSON spells them
and its strings denote texts (`Json.IsSpelled`). A string comes back piece by piece
(`Json.readString?_stringChars`), and a value comes back with all that follows it untouched
(`Json.readValue?_chars`), so the value of a compact text is the value that was written
(`Json.parse?_compact`).
-/

namespace MarketLoad

/-- Digits without a superfluous zero before them, and at least one wherever there are some. -/
structure Numeral.IsSpelled (n : Numeral) : Prop where
  whole : n.whole ≠ [] ∧ (∀ c ∈ n.whole, c.isDigit = true) ∧
    (n.whole.head? = some '0' → n.whole = ['0'])
  fraction : ∀ ds ∈ n.fraction, ds ≠ [] ∧ ∀ c ∈ ds, c.isDigit = true
  exponent : ∀ e ∈ n.exponent, e.2 ≠ [] ∧ ∀ c ∈ e.2, c.isDigit = true

namespace Json

open Text

/-- A value whose text is read back as it is. -/
inductive IsSpelled : Json → Prop
  | null : IsSpelled .null
  | bool (b : Bool) : IsSpelled (.bool b)
  | number {n : Numeral} : n.IsSpelled → IsSpelled (.number n)
  | text (s : String) : IsSpelled (.text s)
  | array {items : List Json} : (∀ item ∈ items, IsSpelled item) → IsSpelled (.array items)
  | object {members : List (Option String × Json)} : (∀ m ∈ members, m.1.isSome = true) →
      (∀ m ∈ members, IsSpelled m.2) → IsSpelled (.object members)

/-! ### Strings -/

theorem readPieces?_quote (rest : List Char) : readPieces? ('"' :: rest) = some ([], rest) := by
  rw [readPieces?.eq_def]
  rfl

theorem readPieces?_escape {e c : Char} (he : e ≠ 'u') (hc : simpleEscape? e = some c)
    (rest : List Char) : readPieces? ('\\' :: e :: rest) =
      (readPieces? rest).map (Prod.map (Piece.char c :: ·) id) := by
  rw [readPieces?.eq_def]
  simp only [Char.reduceEq, he, hc, if_true, if_false]
  cases readPieces? rest <;> rfl

theorem readPieces?_unit {h₁ h₂ h₃ h₄ : Char} {n : Nat}
    (hn : readHexFrom? 0 [h₁, h₂, h₃, h₄] = some n) (rest : List Char) :
    readPieces? ('\\' :: 'u' :: h₁ :: h₂ :: h₃ :: h₄ :: rest) =
      (readPieces? rest).map (Prod.map (Piece.unit n :: ·) id) := by
  rw [readPieces?.eq_def]
  simp only [Char.reduceEq, hn, if_true, if_false]
  cases readPieces? rest <;> rfl

theorem readPieces?_char {c : Char} (hquote : c ≠ '"') (hslash : c ≠ '\\')
    (hcontrol : ¬ c.toNat < 0x20) (rest : List Char) : readPieces? (c :: rest) =
      (readPieces? rest).map (Prod.map (Piece.char c :: ·) id) := by
  rw [readPieces?.eq_def]
  simp only [hquote, hslash, hcontrol, if_false]
  cases readPieces? rest <;> rfl

/-- A control is written with four digits that are read as its number. -/
theorem exists_paddedHex {n : Nat} (h : n < 0x20) : ∃ h₁ h₂ h₃ h₄,
    paddedHex 4 n = [h₁, h₂, h₃, h₄] ∧ readHexFrom? 0 [h₁, h₂, h₃, h₄] = some n := by
  have hall : ∀ n < 0x20,
      (paddedHex 4 n).length = 4 ∧ readHexFrom? 0 (paddedHex 4 n) = some n := by decide
  obtain ⟨hlength, hread⟩ := hall n h
  match hdigits : paddedHex 4 n, hlength with
  | [h₁, h₂, h₃, h₄], _ => exact ⟨h₁, h₂, h₃, h₄, rfl, hdigits ▸ hread⟩

/-- A character is written behind a backslash with a letter of its own, by its number, or plainly. -/
theorem escapeChar_cases (c : Char) :
    (∃ e, e ≠ 'u' ∧ simpleEscape? e = some c ∧ escapeChar c = ['\\', e]) ∨
      (c.toNat < 0x20 ∧ escapeChar c = '\\' :: 'u' :: paddedHex 4 c.toNat) ∨
      (c ≠ '"' ∧ c ≠ '\\' ∧ ¬ c.toNat < 0x20 ∧ escapeChar c = [c]) := by
  have hof {d : Char} (h : c.toNat = d.toNat) : c = d := Char.toNat_inj.1 h
  unfold escapeChar
  split
  · next h => exact .inl ⟨'"', by decide, by rw [h]; rfl, rfl⟩
  next hquote =>
  split
  · next h => exact .inl ⟨'\\', by decide, by rw [h]; rfl, rfl⟩
  next hslash =>
  split
  · next h => exact .inl ⟨'b', by decide, by rw [hof (d := '\x08') h]; rfl, rfl⟩
  split
  · next h => exact .inl ⟨'t', by decide, by rw [h]; rfl, rfl⟩
  split
  · next h => exact .inl ⟨'n', by decide, by rw [h]; rfl, rfl⟩
  split
  · next h => exact .inl ⟨'f', by decide, by rw [hof (d := '\x0c') h]; rfl, rfl⟩
  split
  · next h => exact .inl ⟨'r', by decide, by rw [h]; rfl, rfl⟩
  split
  · next hcontrol => exact .inr (.inl ⟨hcontrol, rfl⟩)
  · next hcontrol => exact .inr (.inr ⟨hquote, hslash, hcontrol, rfl⟩)

/-- A written character is read as one piece, and that piece denotes it. -/
theorem exists_piece (c : Char) : ∃ piece,
    (∀ rest, readPieces? (escapeChar c ++ rest) =
      (readPieces? rest).map (Prod.map (piece :: ·) id)) ∧
    ∀ pieces, joinPieces? (piece :: pieces) = (joinPieces? pieces).map (c :: ·) := by
  obtain ⟨e, he, hread, hescape⟩ | ⟨hcontrol, hescape⟩ | ⟨hquote, hslash, hcontrol, hescape⟩ :=
    escapeChar_cases c
  · exact ⟨.char c, fun rest => hescape ▸ readPieces?_escape he hread rest, fun _ => rfl⟩
  · obtain ⟨h₁, h₂, h₃, h₄, hdigits, hread⟩ := exists_paddedHex hcontrol
    refine ⟨.unit c.toNat, fun rest => ?_, fun pieces => ?_⟩
    · rw [hescape, hdigits]
      exact readPieces?_unit hread rest
    · have hupper : isUpperHalf c.toNat = false := by simp [isUpperHalf]; omega
      have hlower : isLowerHalf c.toNat = false := by simp [isLowerHalf]; omega
      rw [joinPieces?.eq_def]
      simp [hupper, hlower, Char.ofNat_toNat]
  · refine ⟨.char c, fun rest => ?_, fun _ => rfl⟩
    rw [hescape]
    exact readPieces?_char hquote hslash hcontrol rest

/-- A string is read up to its closing quote, as the text it was written from. -/
theorem readString?_escape (cs rest : List Char) :
    readString? (cs.flatMap escapeChar ++ '"' :: rest) = some (some (String.ofList cs), rest) := by
  have hpieces : ∃ pieces, readPieces? (cs.flatMap escapeChar ++ '"' :: rest) =
      some (pieces, rest) ∧ joinPieces? pieces = some cs := by
    induction cs with
    | nil => exact ⟨[], readPieces?_quote rest, rfl⟩
    | cons c cs ih =>
      obtain ⟨pieces, hread, hjoin⟩ := ih
      obtain ⟨piece, hpiece, hmeans⟩ := exists_piece c
      refine ⟨piece :: pieces, ?_, ?_⟩
      · rw [List.flatMap_cons, List.append_assoc, hpiece, hread]
        rfl
      · rw [hmeans, hjoin]
        rfl
  obtain ⟨pieces, hread, hjoin⟩ := hpieces
  simp [readString?, hread, hjoin]

theorem readString?_text (s : String) (rest : List Char) :
    readString? (s.toList.flatMap escapeChar ++ '"' :: rest) = some (some s, rest) := by
  rw [readString?_escape, String.ofList_toList]

/-! ### Numbers -/

/-- What may follow a number without being part of it. -/
def Stops (rest : List Char) : Prop :=
  ∀ c ∈ rest.head?, c.isDigit = false ∧ c ≠ '.' ∧ c ≠ 'e' ∧ c ≠ 'E'

theorem stops_nil : Stops [] := nofun

theorem stops_cons {c : Char} {rest : List Char}
    (h : c.isDigit = false ∧ c ≠ '.' ∧ c ≠ 'e' ∧ c ≠ 'E') : Stops (c :: rest) := by
  intro d hd
  cases hd
  exact h

theorem readDigits?_append {ds rest : List Char} (hne : ds ≠ [])
    (hds : ∀ c ∈ ds, c.isDigit = true) (hrest : ∀ c ∈ rest.head?, c.isDigit = false) :
    readDigits? (ds ++ rest) = some (ds, rest) := by
  have hspan : (ds ++ rest).span Char.isDigit = (ds, rest) := by
    rw [List.span_eq_takeWhile_dropWhile, List.takeWhile_append_of_pos hds,
      List.dropWhile_append_of_pos hds]
    cases rest with
    | nil => simp
    | cons c rest => simp [hrest c rfl]
  rw [readDigits?, hspan]
  cases ds with
  | nil => exact absurd rfl hne
  | cons => rfl

/-- The digits after the point, with the point. -/
def fractionChars : Option (List Char) → List Char
  | none => []
  | some ds => '.' :: ds

/-- The exponent with its letter and its sign. -/
def exponentChars : Option (Bool × List Char) → List Char
  | none => []
  | some (true, ds) => 'e' :: '-' :: ds
  | some (false, ds) => 'e' :: '+' :: ds

theorem numeralChars_eq (n : Numeral) : numeralChars n =
    (if n.negative then ['-'] else []) ++
      (n.whole ++ (fractionChars n.fraction ++ exponentChars n.exponent)) := by
  obtain ⟨negative, whole, fraction, exponent⟩ := n
  rcases negative <;> rcases fraction <;> rcases exponent with _ | ⟨_ | _, _⟩ <;>
    simp [numeralChars, fractionChars, exponentChars]

theorem readExponent?_chars {n : Numeral} (h : n.IsSpelled) {rest : List Char}
    (hrest : Stops rest) :
    readExponent? (exponentChars n.exponent ++ rest) = some (n.exponent, rest) := by
  rcases hexponent : n.exponent with _ | ⟨negative, ds⟩
  · cases rest with
    | nil => rfl
    | cons c rest =>
      obtain ⟨-, -, he, hE⟩ := hrest c rfl
      simp [exponentChars, readExponent?, he, hE]
  · obtain ⟨hne, hds⟩ := h.exponent _ hexponent
    have hread := readDigits?_append hne hds fun c hc => (hrest c hc).1
    cases negative <;> simp [exponentChars, readExponent?, hread]

/-- An exponent, or what follows in its place, is not a digit and not a point. -/
theorem head?_exponentChars (e : Option (Bool × List Char)) {rest : List Char}
    (hrest : Stops rest) :
    ∀ c ∈ (exponentChars e ++ rest).head?, c.isDigit = false ∧ c ≠ '.' := by
  rcases e with _ | ⟨_ | _, ds⟩
  · exact fun c hc => ⟨(hrest c hc).1, (hrest c hc).2.1⟩
  all_goals
    rintro c ⟨⟩
    decide

theorem readFraction?_chars {n : Numeral} (h : n.IsSpelled) {rest : List Char}
    (hrest : ∀ c ∈ rest.head?, c.isDigit = false ∧ c ≠ '.') :
    readFraction? (fractionChars n.fraction ++ rest) = some (n.fraction, rest) := by
  rcases hfraction : n.fraction with _ | ds
  · rw [fractionChars, List.nil_append]
    unfold readFraction?
    split
    · exact absurd rfl (hrest '.' rfl).2
    · rfl
  · obtain ⟨hne, hds⟩ := h.fraction _ hfraction
    rw [fractionChars, List.cons_append, readFraction?,
      readDigits?_append hne hds fun c hc => (hrest c hc).1]
    rfl

theorem head?_fractionChars (f : Option (List Char)) {rest : List Char}
    (hrest : ∀ c ∈ rest.head?, c.isDigit = false ∧ c ≠ '.') :
    ∀ c ∈ (fractionChars f ++ rest).head?, c.isDigit = false := by
  rcases f with _ | ds
  · exact fun c hc => (hrest c hc).1
  · rintro c ⟨⟩
    decide

/-- A number is read with its sign, its digits and its exponent. -/
theorem readNumeral?_chars {n : Numeral} (h : n.IsSpelled) {rest : List Char}
    (hrest : Stops rest) : readNumeral? (numeralChars n ++ rest) = some (n, rest) := by
  obtain ⟨hne, hwhole, hzero⟩ := h.whole
  have hafter := head?_exponentChars n.exponent hrest
  have hdigits := readDigits?_append hne hwhole (head?_fractionChars n.fraction hafter)
  have hspelled : ¬ (n.whole.head? = some '0' ∧ n.whole ≠ ['0']) := fun hnot => hnot.2 (hzero hnot.1)
  rw [numeralChars_eq, readNumeral?.eq_def]
  cases hnegative : n.negative with
  | true =>
    simp [hdigits, hspelled, readFraction?_chars h hafter, readExponent?_chars h hrest, ← hnegative]
  | false =>
    obtain ⟨c, cs, hcs⟩ := List.exists_cons_of_ne_nil hne
    have hc : c ≠ '-' := by
      rintro rfl
      exact absurd (hwhole '-' (hcs ▸ List.mem_cons_self)) (by decide)
    have hspelled : ¬ (c = '0' ∧ (c = '0' → ¬ cs = [])) := by
      rintro ⟨rfl, hcut⟩
      have hone := hzero (by rw [hcs]; rfl)
      rw [hcs, List.cons.injEq] at hone
      exact hcut rfl hone.2
    have hn : (⟨false, c :: cs, n.fraction, n.exponent⟩ : Numeral) = n := by rw [← hcs, ← hnegative]
    rw [hcs, List.cons_append] at hdigits
    simpa [hcs, hc, hdigits, hspelled, readFraction?_chars h hafter, readExponent?_chars h hrest]
      using hn

/-! ### Values -/

theorem skipSpaces_cons {c : Char} (hc : isSpace c = false) (cs : List Char) :
    skipSpaces (c :: cs) = c :: cs := by
  simp [skipSpaces, hc]

/-- A number starts with a sign or a digit. -/
theorem exists_numeralChars_eq_cons {n : Numeral} (h : n.IsSpelled) :
    ∃ c cs, numeralChars n = c :: cs ∧ (c = '-' ∨ c.isDigit = true) := by
  rw [numeralChars_eq]
  cases n.negative with
  | true => exact ⟨'-', _, rfl, .inl rfl⟩
  | false =>
    obtain ⟨c, cs, hcs⟩ := List.exists_cons_of_ne_nil h.whole.1
    exact ⟨c, _, by rw [hcs]; rfl, .inr (h.whole.2.1 c (hcs ▸ List.mem_cons_self))⟩

theorem ne_of_numeralStart {c d : Char} (h : c = '-' ∨ c.isDigit = true)
    (hd : ¬ (d = '-' ∨ d.isDigit = true)) : c ≠ d := by
  rintro rfl
  exact hd h

theorem isSpace_of_numeralStart {c : Char} (h : c = '-' ∨ c.isDigit = true) :
    isSpace c = false := by
  simp only [isSpace, Bool.or_eq_false_iff, beq_eq_false_iff_ne]
  refine ⟨⟨⟨?_, ?_⟩, ?_⟩, ?_⟩
  all_goals exact ne_of_numeralStart h (by decide)

/-- No value starts with a blank or a closing bracket. -/
theorem exists_chars_eq_cons {j : Json} (h : j.IsSpelled) :
    ∃ c cs, chars j = c :: cs ∧ isSpace c = false ∧ c ≠ ']' := by
  cases h with
  | null => exact ⟨'n', _, rfl, by decide, by decide⟩
  | bool b => cases b <;> exact ⟨_, _, rfl, by decide, by decide⟩
  | number hn =>
    obtain ⟨c, cs, hcs, hc⟩ := exists_numeralChars_eq_cons hn
    exact ⟨c, cs, by rw [chars, hcs], isSpace_of_numeralStart hc,
      ne_of_numeralStart hc (by decide)⟩
  | text s => exact ⟨'"', _, rfl, by decide, by decide⟩
  | @array items _ => cases items <;> exact ⟨'[', _, rfl, by decide, by decide⟩
  | @object members _ _ =>
    rcases members with _ | ⟨⟨key, value⟩, members⟩ <;>
      exact ⟨'\x7b', _, rfl, by decide, by decide⟩

/-- With two steps for each of its characters a value is read, and what follows it is left. -/
def Reads (j : Json) : Prop :=
  ∀ fuel rest, 2 * (chars j).length ≤ fuel → Stops rest →
    readValue? fuel (chars j ++ rest) = some (j, rest)

theorem readItems?_chars {item : Json} {items : List Json} (hitem : Reads item)
    (hitems : ∀ i ∈ items, Reads i) (fuel : Nat)
    (hfuel : 2 * (chars item ++ itemsChars items).length ≤ fuel) (rest : List Char) :
    readItems? fuel (chars item ++ (itemsChars items ++ rest)) = some (item :: items, rest) := by
  induction items generalizing item fuel with
  | nil =>
    simp only [itemsChars, List.length_append, List.length_cons, List.length_nil] at hfuel
    obtain ⟨fuel, rfl⟩ : ∃ k, fuel = k + 1 := ⟨fuel - 1, by omega⟩
    have hread := hitem fuel (']' :: rest) (by omega) (stops_cons (by decide))
    simp [readItems?, itemsChars, hread, skipSpaces_cons (c := ']') (by decide)]
  | cons next items ih =>
    obtain ⟨hnext, hitems⟩ := List.forall_mem_cons.1 hitems
    simp only [itemsChars, List.length_append, List.length_cons] at hfuel
    obtain ⟨fuel, rfl⟩ : ∃ k, fuel = k + 1 := ⟨fuel - 1, by omega⟩
    have hread := hitem fuel (',' :: (chars next ++ (itemsChars items ++ rest))) (by omega)
      (stops_cons (by decide))
    have hmore := ih hnext hitems fuel (by rw [List.length_append]; omega)
    simp [readItems?, itemsChars, hread, hmore, skipSpaces_cons (c := ',') (by decide)]

theorem readMembers?_chars (key : String) {value : Json} {members : List (Option String × Json)}
    (hvalue : Reads value) (hkeys : ∀ m ∈ members, m.1.isSome = true)
    (hvalues : ∀ m ∈ members, Reads m.2) (fuel : Nat)
    (hfuel : 2 * (chars value ++ membersChars members).length ≤ fuel) (rest : List Char) :
    readMembers? fuel
        (stringChars (some key) ++ ':' :: (chars value ++ (membersChars members ++ rest))) =
      some ((some key, value) :: members, rest) := by
  have hquote := skipSpaces_cons (c := '"') (by decide)
  have hcolon := skipSpaces_cons (c := ':') (by decide)
  induction members generalizing key value fuel with
  | nil =>
    simp only [membersChars, List.length_append, List.length_cons, List.length_nil] at hfuel
    obtain ⟨fuel, rfl⟩ : ∃ k, fuel = k + 1 := ⟨fuel - 1, by omega⟩
    have hread := hvalue fuel ('\x7d' :: rest) (by omega) (stops_cons (by decide))
    simp [readMembers?, stringChars, membersChars, readString?_text, hread, hquote, hcolon,
      skipSpaces_cons (c := '\x7d') (by decide)]
  | cons next members ih =>
    obtain ⟨_ | key', value'⟩ := next
    · cases hkeys _ List.mem_cons_self
    have hkeys := (List.forall_mem_cons.1 hkeys).2
    obtain ⟨hnext : Reads value', hvalues⟩ := List.forall_mem_cons.1 hvalues
    simp only [membersChars, stringChars, List.length_append, List.length_cons] at hfuel
    obtain ⟨fuel, rfl⟩ : ∃ k, fuel = k + 1 := ⟨fuel - 1, by omega⟩
    have hread := hvalue fuel (',' :: (stringChars (some key') ++
      ':' :: (chars value' ++ (membersChars members ++ rest)))) (by omega) (stops_cons (by decide))
    have hmore := ih key' hnext hkeys hvalues fuel (by rw [List.length_append]; omega)
    simp only [stringChars, Option.getD_some, List.cons_append, List.append_assoc,
      List.nil_append] at hread hmore
    simp [readMembers?, stringChars, membersChars, readString?_text, hread, hmore, hquote, hcolon,
      skipSpaces_cons (c := ',') (by decide)]

/-- Reading undoes writing, whatever follows. -/
theorem readValue?_chars {j : Json} (h : j.IsSpelled) : Reads j := by
  induction h with
  | null =>
    intro fuel rest hfuel _
    obtain ⟨fuel, rfl⟩ : ∃ k, fuel = k + 1 := ⟨fuel - 1, by simp [chars] at hfuel; omega⟩
    simp [chars, readValue?, skipSpaces_cons (c := 'n') (by decide), afterWord?]
  | bool b =>
    intro fuel rest hfuel _
    cases b
    all_goals
      obtain ⟨fuel, rfl⟩ : ∃ k, fuel = k + 1 := ⟨fuel - 1, by simp [chars] at hfuel; omega⟩
      simp [chars, readValue?, skipSpaces_cons (c := 't') (by decide),
        skipSpaces_cons (c := 'f') (by decide), afterWord?]
  | number hn =>
    intro fuel rest hfuel hrest
    obtain ⟨c, cs, hcs, hc⟩ := exists_numeralChars_eq_cons hn
    obtain ⟨fuel, rfl⟩ : ∃ k, fuel = k + 1 := ⟨fuel - 1, by simp [chars, hcs] at hfuel; omega⟩
    have hread := readNumeral?_chars hn hrest
    have hspaces := skipSpaces_cons (isSpace_of_numeralStart hc) (cs ++ rest)
    rw [hcs, List.cons_append] at hread
    have hne {d : Char} (hd : ¬ (d = '-' ∨ d.isDigit = true)) : c ≠ d := ne_of_numeralStart hc hd
    rw [chars, hcs, List.cons_append, readValue?, hspaces]
    simp [hread, hne (d := 'n') (by decide), hne (d := 't') (by decide),
      hne (d := 'f') (by decide), hne (d := '"') (by decide), hne (d := '[') (by decide),
      hne (d := '\x7b') (by decide)]
  | text s =>
    intro fuel rest hfuel _
    obtain ⟨fuel, rfl⟩ : ∃ k, fuel = k + 1 := ⟨fuel - 1, by simp [chars, stringChars] at hfuel; omega⟩
    simp [chars, stringChars, readValue?, skipSpaces_cons (c := '"') (by decide),
      readString?_text]
  | @array items hitems ih =>
    intro fuel rest hfuel _
    have hbracket := skipSpaces_cons (c := '[') (by decide)
    cases items with
    | nil =>
      obtain ⟨fuel, rfl⟩ : ∃ k, fuel = k + 1 := ⟨fuel - 1, by simp [chars] at hfuel; omega⟩
      simp [chars, readValue?, hbracket, skipSpaces_cons (c := ']') (by decide)]
    | cons item items =>
      obtain ⟨hitem, hitems'⟩ := List.forall_mem_cons.1 ih
      obtain ⟨c, cs, hcs, hc, hclose⟩ := exists_chars_eq_cons (hitems item List.mem_cons_self)
      simp only [chars, List.length_cons] at hfuel
      obtain ⟨fuel, rfl⟩ : ∃ k, fuel = k + 1 := ⟨fuel - 1, by omega⟩
      have hread := readItems?_chars hitem hitems' fuel (by omega) rest
      rw [hcs, List.cons_append] at hread
      simp [chars, readValue?, hbracket, hcs, skipSpaces_cons hc, hclose, hread]
  | @object members hkeys _ ih =>
    intro fuel rest hfuel _
    have hbrace := skipSpaces_cons (c := '\x7b') (by decide)
    cases members with
    | nil =>
      obtain ⟨fuel, rfl⟩ : ∃ k, fuel = k + 1 := ⟨fuel - 1, by simp [chars] at hfuel; omega⟩
      simp [chars, readValue?, hbrace, skipSpaces_cons (c := '\x7d') (by decide)]
    | cons member members =>
      obtain ⟨_ | key, value⟩ := member
      · cases hkeys _ List.mem_cons_self
      have hkeys := (List.forall_mem_cons.1 hkeys).2
      obtain ⟨hvalue : Reads value, hvalues⟩ := List.forall_mem_cons.1 ih
      simp only [chars, List.length_cons, List.length_append] at hfuel
      obtain ⟨fuel, rfl⟩ : ∃ k, fuel = k + 1 := ⟨fuel - 1, by omega⟩
      have hread := readMembers?_chars key hvalue hkeys hvalues fuel
        (by rw [List.length_append]; omega) rest
      simp only [stringChars, Option.getD_some, List.cons_append, List.append_assoc,
        List.nil_append] at hread
      simp [chars, stringChars, readValue?, hbrace, skipSpaces_cons (c := '"') (by decide), hread]

/-- A compact text holds the value that it was written from. -/
theorem parse?_compact {j : Json} (h : j.IsSpelled) : parse? j.compact = some j := by
  have hread := readValue?_chars h (2 * (chars j).length + 2) [] (by omega) stops_nil
  rw [List.append_nil] at hread
  rw [parse?, compact, String.toList_ofList, hread]
  rfl

end Json

end MarketLoad
