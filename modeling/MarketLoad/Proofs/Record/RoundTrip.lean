import MarketLoad.Proofs.Decimal.Text
import MarketLoad.Proofs.Json.Recorded
import MarketLoad.Proofs.Order
import MarketLoad.Record.Exports

/-!
# Records that are read back

The record of a value is a text that holds the value and no other one: reading it gives the value
back, so different values have different texts (`RoundTrips`). For all but prices this is equality. A
price comes back without the sign of a zero (`ofRecord?_toRecord_price`), which is the same number.
-/

namespace MarketLoad

open Json (isSpelled_record bind_fields?_record)

/-! ### Names, quantities and prices -/

instance : Faithful Trader where
  isSpelled t := .text t.name
  read _ := rfl

instance : Faithful Symbol where
  isSpelled s := .text s.ticker
  read _ := rfl

instance : Faithful Quantity where
  isSpelled q := Spelled.isSpelled q.units
  read q := by
    have hunits := Faithful.read q.units
    simp only [ofRecord?, toRecord] at hunits ⊢
    rw [hunits, Option.map_some]

instance : Faithful Side where
  isSpelled s := .text s.text
  read s := by cases s <;> rfl

instance : Faithful OrderKind where
  isSpelled k := .text k.text
  read k := by cases k <;> rfl

instance : Spelled Price where
  isSpelled p := .text p.amount.text

theorem ofRecord?_toRecord_price (p : Price) : ofRecord? (toRecord p) = some p.plain := by
  change ((some p.amount.text).bind Decimal.read?).map Price.mk = some p.plain
  rw [Option.bind_some, Decimal.read?_text]
  rfl

/-! ### Orders and catalogs -/

instance : Spelled Order where
  isSpelled o := isSpelled_record (by simp)

theorem ofRecord?_toRecord_order (o : Order) : ofRecord? (toRecord o) = some o.plain :=
  bind_fields?_record (by simp) (by simp [Json.required, ofRecord?_toRecord_price, Order.plain])

instance : Spelled Listing where
  isSpelled l := isSpelled_record (by simp)

theorem ofRecord?_toRecord_listing (l : Listing) : ofRecord? (toRecord l) = some l.plain :=
  bind_fields?_record (by simp) (by simp [Json.required, ofRecord?_toRecord_price, Listing.plain])

instance : Spelled Catalog where
  isSpelled c := isSpelled_record (by simp)

theorem ofRecord?_toRecord_catalog (c : Catalog) : ofRecord? (toRecord c) = some c.plain :=
  bind_fields?_record (by simp)
    (by simp [Json.required, ofRecord?_toRecord_list ofRecord?_toRecord_listing, Catalog.plain])

/-! ### Times -/

instance : Faithful Span where
  isSpelled s := isSpelled_record (by simp [Json.isSpelled_ofNat])
  read s := by
    have hfields : (toRecord s).exactFields? ["secs", "nanos"] =
        some [some (.ofNat s.seconds), some (.ofNat s.subNanos)] := rfl
    have hseconds : s.seconds < UInt64.size :=
      Nat.div_lt_of_lt_mul (Nat.mul_comm .. ▸ s.nanos_lt)
    have hnanos : s.subNanos < UInt32.size :=
      Nat.lt_trans (Nat.mod_lt _ (by decide)) (by decide)
    have hparts : Span.ofParts? s.seconds s.subNanos = some s := by
      rw [Span.ofParts?, Span.seconds, Span.subNanos, Nat.div_add_mod]
      exact dif_pos s.nanos_lt
    simp only [ofRecord?, hfields, Option.bind_eq_bind, Option.bind_some,
      Json.natBelow?_ofNat hseconds, Json.natBelow?_ofNat hnanos, hparts]

/-! ### Failures and outcomes -/

instance : Faithful RegistrationFailure where
  isSpelled f := by
    cases f
    case timeout | closed => exact .text _
    all_goals exact isSpelled_record (by simp [isSpelled_record, Json.IsSpelled.text])
  read f := by cases f <;> rfl

instance : Faithful SessionFailure where
  isSpelled f := by
    cases f
    all_goals exact isSpelled_record (by simp [isSpelled_record, Json.IsSpelled.text])
  read f := by
    cases f
    case registration cause =>
      have hcause := Faithful.read cause
      change (ofRecord? (toRecord cause)).bind (fun cause => some (SessionFailure.registration cause)) =
        some (.registration cause)
      rw [hcause, Option.bind_some]
    all_goals rfl

instance : Faithful (Option String) := .option nofun

instance : Faithful (Option UInt64) := .option nofun

instance : Faithful (Option SessionFailure) := .option fun f => by cases f <;> nofun

instance : Faithful Bucket where
  isSpelled b := isSpelled_record (by simp)
  read b := bind_fields?_record (by simp) (by simp)

instance : Faithful Histogram where
  isSpelled h := isSpelled_record (by simp)
  read h := bind_fields?_record (by simp) (by simp)

instance : Faithful Outcome where
  isSpelled o := isSpelled_record (by simp)
  read o := bind_fields?_record (by simp) (by simp)

/-! ### Transcripts, totals and parameters -/

instance : Faithful Exchange where
  isSpelled e := isSpelled_record (by simp)
  read e := bind_fields?_record (by simp) (by simp)

instance : Faithful Transcript where
  isSpelled t := isSpelled_record (by simp)
  read t := bind_fields?_record (by simp) (by simp)

instance : Faithful Totals where
  isSpelled t := isSpelled_record (by simp)
  read t := bind_fields?_record (by simp) (by simp)

instance : Faithful RunParameters where
  isSpelled p := isSpelled_record (by simp)
  read p := bind_fields?_record (by simp) (by simp)

/-! ### Round trips -/

/-- The text of a value's record is read back, and belongs to no other value. -/
structure RoundTrips (α : Type) [Recorded α] (same : α → α → Prop) : Prop where
  read : ∀ a : α, ∃ b, ofRecordText? (recordText a) = some b ∧ same b a
  injective : ∀ a b : α, recordText a = recordText b → same a b

theorem RoundTrips.of_plain {α : Type} [Recorded α] [Spelled α] {same : α → α → Prop}
    {plain : α → α} (hread : ∀ a : α, ofRecord? (toRecord a) = some (plain a))
    (hsame : ∀ a, same (plain a) a) (heq : ∀ a b, plain a = plain b → same a b) :
    RoundTrips α same where
  read a := ⟨plain a, by rw [ofRecordText?_recordText, hread], hsame a⟩
  injective a b h := by
    apply heq
    rw [← Option.some_inj, ← hread, ← hread, ← ofRecordText?_recordText, h,
      ofRecordText?_recordText]

theorem RoundTrips.of_faithful {α : Type} [Recorded α] [Faithful α] : RoundTrips α Eq :=
  .of_plain Faithful.read (fun _ => rfl) fun _ _ h => h

/-- Outcomes, orders, catalogs, transcripts, totals and parameters are read back from the texts of
their records, and no two of them have the same text. -/
theorem records_round_trip :
    RoundTrips Outcome Eq ∧ RoundTrips Order Order.Same ∧ RoundTrips Catalog Catalog.Same ∧
      RoundTrips Transcript Eq ∧ RoundTrips Totals Eq ∧ RoundTrips RunParameters Eq :=
  ⟨.of_faithful, .of_plain ofRecord?_toRecord_order Order.same_plain fun _ _ => Order.same_of_plain_eq,
    .of_plain ofRecord?_toRecord_catalog Catalog.same_plain fun _ _ => Catalog.same_of_plain_eq,
    .of_faithful, .of_faithful, .of_faithful⟩

end MarketLoad
