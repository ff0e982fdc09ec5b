import MarketLoad.Identity
import MarketLoad.Proofs.Text.Digits

/-!
# Wire-safe texts

A text is wire safe if it is not empty and has no colon and no line end in it
(`isWireSafe_iff_not_mem`). Digits are harmless, so a number at the end of a name makes no difference
(`isWireSafe_append_digits`). Traders and symbols are made of wire-safe texts only.
-/

namespace MarketLoad

theorem isWireSafe_iff {text : String} :
    isWireSafe text = true ↔ text.toList ≠ [] ∧ ∀ c ∈ text.toList, breaksCommand c = false := by
  simp [isWireSafe]

theorem isWireSafe_iff_not_mem {text : String} :
    isWireSafe text = true ↔
      text ≠ "" ∧ ':' ∉ text.toList ∧ '\r' ∉ text.toList ∧ '\n' ∉ text.toList := by
  rw [isWireSafe_iff, ne_eq, String.toList_eq_nil_iff]
  refine and_congr_right fun _ => ⟨fun h => ?_, fun ⟨hcolon, hreturn, hnewline⟩ c hc => ?_⟩
  · exact ⟨fun hm => absurd (h _ hm) (by decide), fun hm => absurd (h _ hm) (by decide),
      fun hm => absurd (h _ hm) (by decide)⟩
  · have hne {d : Char} (hd : d ∉ text.toList) : (c == d) = false :=
      beq_eq_false_iff_ne.2 fun heq => hd (heq ▸ hc)
    rw [breaksCommand, hne hcolon, hne hreturn, hne hnewline]
    rfl

theorem breaksCommand_of_isDigit {c : Char} (h : c.isDigit = true) : breaksCommand c = false := by
  have hne {d : Char} (hd : d.isDigit = false) : (c == d) = false := by
    refine beq_eq_false_iff_ne.2 fun heq => ?_
    rw [heq, hd] at h
    cases h
  rw [breaksCommand, hne (by decide), hne (by decide), hne (by decide)]
  rfl

theorem breaksCommand_of_mem_digits {n : Nat} {c : Char} (h : c ∈ Text.digits n) :
    breaksCommand c = false :=
  breaksCommand_of_isDigit (Text.isDigit_of_mem_digits h)

/-- A number makes no difference to whether a name is valid. -/
theorem isWireSafe_append_digits (stem : String) (n : Nat) :
    isWireSafe (stem ++ String.ofList (Text.digits n)) = stem.toList.all (!breaksCommand ·) := by
  rw [Bool.eq_iff_iff, isWireSafe_iff, String.toList_append, String.toList_ofList,
    List.forall_mem_append, and_iff_left fun _ => breaksCommand_of_mem_digits,
    and_iff_right (List.append_ne_nil_of_right_ne_nil _ (Text.digits_ne_nil n)), List.all_eq_true]
  simp only [Bool.not_eq_true']

namespace Trader

theorem ofName?_eq_some_iff {name : String} {trader : Trader} :
    ofName? name = some trader ↔ isWireSafe name = true ∧ trader = ⟨name⟩ := by
  rw [ofName?, Option.ite_none_right_eq_some, Option.some_inj, eq_comm (a := trader)]

theorem isNone_ofName? (name : String) :
    (ofName? name).isNone = true ↔ isWireSafe name = false := by
  rw [ofName?]
  cases isWireSafe name with
  | true => exact iff_of_false nofun nofun
  | false => exact iff_of_true rfl rfl

end Trader

theorem Symbol.ofTicker?_eq_some_iff {ticker : String} {symbol : Symbol} :
    Symbol.ofTicker? ticker = some symbol ↔ isWireSafe ticker = true ∧ symbol = ⟨ticker⟩ := by
  rw [Symbol.ofTicker?, Option.ite_none_right_eq_some, Option.some_inj, eq_comm (a := symbol)]

end MarketLoad
