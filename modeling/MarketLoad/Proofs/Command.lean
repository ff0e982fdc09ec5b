import MarketLoad.Command
import MarketLoad.Proofs.Identity
import MarketLoad.Proofs.Text.Utf8

/-!
# Commands as lines

A command of wire-safe identities is one line: its bytes are a body without a newline and the newline
that ends it (`Command.bytes_eq`, `Command.newline_not_mem_body`). The bodies of registrations and
orders start in different ways (`Command.isOrderLine_body`). Of the answers only the bytes of the
mark count, among whatever bytes they stand (`acknowledges_iff_bytes`).
-/

namespace MarketLoad

/-! ### Wire-safe fields -/

theorem Decimal.isWireSafe_fixed (d : Decimal) (places : Nat) :
    isWireSafe (d.fixed places) = true := by
  have hpointed (magnitude scale : Nat) : pointed magnitude scale ≠ [] ∧
      ∀ c ∈ pointed magnitude scale, breaksCommand c = false := by
    unfold pointed
    split
    · exact ⟨Text.digits_ne_nil _, fun _ => breaksCommand_of_mem_digits⟩
    · refine ⟨List.append_ne_nil_of_left_ne_nil (Text.digits_ne_nil _) _, fun c hc => ?_⟩
      rcases List.mem_append.1 hc with hc | hc
      · exact breaksCommand_of_mem_digits hc
      · rcases List.mem_cons.1 hc with rfl | hc
        · decide
        · exact breaksCommand_of_isDigit (Text.isDigit_of_mem_paddedDigits hc)
  rw [isWireSafe_iff, fixed, withSign, String.toList_ofList]
  split
  · exact ⟨List.cons_ne_nil _ _, List.forall_mem_cons.2 ⟨by decide, (hpointed _ _).2⟩⟩
  · exact hpointed _ _

theorem Quantity.isWireSafe_text (q : Quantity) : isWireSafe q.text = true := by
  rw [isWireSafe_iff, text, String.toList_ofList]
  exact ⟨Text.digits_ne_nil _, fun _ => breaksCommand_of_mem_digits⟩

/-- A text that is divided holds what its parts hold, besides what divides it. -/
theorem mem_intercalate {α : Type} {a d : α} (h : a ≠ d) (parts : List (List α)) :
    a ∈ [d].intercalate parts ↔ ∃ part ∈ parts, a ∈ part := by
  induction parts with
  | nil => simp
  | cons part parts ih =>
    cases parts with
    | nil => simp
    | cons part' parts =>
      rw [List.intercalate_cons_cons, List.mem_append, List.mem_append, ih]
      simp [h]

theorem toList_intercalate_colon (fields : List String) :
    (":".intercalate fields).toList = [':'].intercalate (fields.map String.toList) :=
  String.toList_intercalate

namespace Command

/-- The line of a command without its newline. -/
def body (c : Command) : Bytes := Utf8.encode (":".intercalate c.fields)

theorem bytes_eq (c : Command) : c.bytes = c.body ++ [newline] := by
  have hnewline : Utf8.encode "\n" = [newline] := by decide
  rw [bytes, line, Utf8.encode_append, hnewline, body]

/-- The identities that a command carries are wire safe. -/
def IsWireSafe : Command → Prop
  | .register trader => isWireSafe trader.name = true
  | .order trader o => isWireSafe trader.name = true ∧ isWireSafe o.symbol.ticker = true

theorem isWireSafe_fields {c : Command} (h : c.IsWireSafe) :
    ∀ field ∈ c.fields, isWireSafe field = true := by
  cases c with
  | register trader =>
    simp only [fields, List.forall_mem_cons]
    exact ⟨by decide, h, fun _ hm => absurd hm List.not_mem_nil⟩
  | order trader o =>
    have hside : isWireSafe o.side.text = true := by cases o.side <;> decide
    have hkind : isWireSafe o.kind.text = true := by cases o.kind <;> decide
    simp only [fields, List.forall_mem_cons]
    exact ⟨by decide, h.1, h.2, hside, hkind, Decimal.isWireSafe_fixed _ _,
      Quantity.isWireSafe_text _, fun _ hm => absurd hm List.not_mem_nil⟩

/-- A command of wire-safe identities has no newline but the one that ends it. -/
theorem newline_not_mem_body {c : Command} (h : c.IsWireSafe) : newline ∉ c.body := by
  refine Utf8.newline_not_mem_encodeChars fun hm => ?_
  rw [toList_intercalate_colon, mem_intercalate (by decide)] at hm
  obtain ⟨part, hpart, hm⟩ := hm
  obtain ⟨field, hfield, rfl⟩ := List.mem_map.1 hpart
  exact absurd ((isWireSafe_iff.1 (isWireSafe_fields h field hfield)).2 _ hm) (by decide)

theorem bytes_ne_nil (c : Command) : c.bytes ≠ [] := by
  rw [bytes_eq]
  exact List.append_ne_nil_of_right_ne_nil _ (List.cons_ne_nil _ _)

/-- The start of an order. -/
def orderStart : Bytes := Utf8.encode "ORDER:"

/-- Whether a line is an order. -/
def isOrderLine (line : Bytes) : Bool := orderStart.isPrefixOf line

def isOrder : Command → Bool
  | .register _ => false
  | .order .. => true

theorem isOrderLine_body (c : Command) : isOrderLine c.body = c.isOrder := by
  cases c with
  | register trader =>
    have hstart : Utf8.encode "REGISTER" = [82, 69, 71, 73, 83, 84, 69, 82] := by decide
    rw [body, fields, String.intercalate_cons_cons, Utf8.encode_append, Utf8.encode_append, hstart]
    rfl
  | order trader o =>
    have hstart : Utf8.encode "ORDER" ++ Utf8.encode ":" = orderStart := by decide
    rw [body, fields, String.intercalate_cons_cons, Utf8.encode_append, Utf8.encode_append, hstart]
    exact List.isPrefixOf_iff_prefix.2 (List.prefix_append ..)

end Command

/-! ### Answers -/

theorem occursIn_iff {word cs : List Char} : occursIn word cs = true ↔ word <:+: cs := by
  induction cs with
  | nil => rw [occursIn, List.isEmpty_iff, List.infix_nil]
  | cons c cs ih =>
    rw [occursIn, Bool.or_eq_true, ih, List.isPrefixOf_iff_prefix, List.infix_cons_iff]

/-- A reply acknowledges exactly if the bytes of the mark stand in it. -/
theorem acknowledgesRegistration_iff {reply : Bytes} :
    acknowledgesRegistration reply = true ↔ Utf8.encode registrationMark <:+: reply := by
  have hmark : registrationMark.toList =
      (Utf8.encode registrationMark).map fun a => Char.ofNat a.toNat := by decide +kernel
  have hascii : ∀ a ∈ Utf8.encode registrationMark, a.toNat < 0x80 := by decide +kernel
  rw [acknowledgesRegistration, occursIn_iff, hmark]
  exact Utf8.infix_lossyChars_iff hascii (by decide) reply

/-- The bytes of the mark, all of them ASCII. -/
def registrationBytes : Bytes := [0x52, 0x45, 0x47, 0x49, 0x53, 0x54, 0x45, 0x52, 0x45, 0x44]

/-- A reply acknowledges exactly if the ten bytes of the mark stand in it one after the other, whether
the bytes around them are text or not. What follows later takes nothing back. -/
theorem acknowledges_iff_bytes (reply : Bytes) :
    (acknowledgesRegistration reply = true ↔ registrationBytes <:+: reply) ∧
      (acknowledgesRegistration reply = true →
        ∀ more, acknowledgesRegistration (reply ++ more) = true) := by
  have hbytes : Utf8.encode registrationMark = registrationBytes := by decide
  refine ⟨by rw [acknowledgesRegistration_iff, hbytes], fun h more => ?_⟩
  rw [acknowledgesRegistration_iff] at h ⊢
  exact h.trans (List.prefix_append reply more).isInfix

/-- The mark between the first two bytes of a character of three and the first of a character of four;
one more byte of the latter follows. -/
theorem acknowledges_iff_bytes_broken :
    let reply := [0xe2, 0x82] ++ registrationBytes ++ [0xf0]
    Utf8.strict? reply = none ∧ acknowledgesRegistration reply = true ∧
      acknowledgesRegistration (reply ++ [0x9f]) = true := by
  intro reply
  obtain ⟨hiff, hmore⟩ := acknowledges_iff_bytes reply
  have hreply : acknowledgesRegistration reply = true := hiff.2 (List.infix_append ..)
  exact ⟨by decide +kernel, hreply, hmore hreply [0x9f]⟩

end MarketLoad
