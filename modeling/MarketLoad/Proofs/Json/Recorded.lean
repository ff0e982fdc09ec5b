import MarketLoad.Json.Recorded
import MarketLoad.Proofs.Json.Reader

/-!
# Records read as they were written

A record names each of its fields once, so every field is found in it (`Json.fields?_record`). Types
whose values come back from their records are collected in the class `Faithful`; for those whose
values come back with a change, `Spelled` says that at least the record does
(`ofRecordText?_recordText`).
-/

namespace MarketLoad

/-- Values whose records are read back from their texts. -/
class Spelled (α : Type) [Recorded α] : Prop where
  isSpelled : ∀ a : α, (toRecord a).IsSpelled

/-- Values that are read back from their records. -/
class Faithful (α : Type) [Recorded α] : Prop extends Spelled α where
  read : ∀ a : α, ofRecord? (toRecord a) = some a

attribute [simp] Spelled.isSpelled Faithful.read

theorem ofRecordText?_recordText {α : Type} [Recorded α] [Spelled α] (a : α) :
    (ofRecordText? (recordText a) : Option α) = ofRecord? (toRecord a) := by
  rw [ofRecordText?, recordText, Json.parse?_compact (Spelled.isSpelled a), Option.bind_some]

namespace Json

/-! ### Fields -/

theorem isSpelled_record {members : List (String × Json)}
    (h : ∀ m ∈ members, m.2.IsSpelled) : (record members).IsSpelled := by
  refine .object (fun m hm => ?_) (fun m hm => ?_)
  all_goals obtain ⟨member, hmember, rfl⟩ := List.mem_map.1 hm
  · rfl
  · exact h member hmember

theorem memberOnce?_record {members : List (String × Json)} (h : (members.map Prod.fst).Nodup)
    {name : String} {value : Json} (hm : (name, value) ∈ members) :
    memberOnce? name (members.map fun (key, value) => (some key, value)) = some (some value) := by
  have hfilter : (members.map fun (key, value) => (some key, value)).filter
      (fun m => m.1 == some name) = [(some name, value)] := by
    induction members with
    | nil => cases hm
    | cons member members ih =>
      obtain ⟨hnot, hnodup⟩ := List.nodup_cons.1 h
      rcases List.mem_cons.1 hm with rfl | hm
      · have hrest : ∀ m ∈ members.map (fun (key, value) => (some key, value)),
            ¬ (m.1 == some name) = true := by
          intro m hm hname
          obtain ⟨member, hmember, rfl⟩ := List.mem_map.1 hm
          obtain rfl : member.1 = name := by simpa using hname
          exact hnot (List.mem_map.2 ⟨member, hmember, rfl⟩)
        simp [List.filter_eq_nil_iff.2 hrest]
      · have hne : member.1 ≠ name := by
          rintro rfl
          exact hnot (List.mem_map.2 ⟨_, hm, rfl⟩)
        simp [hne, ih hnodup hm]
  rw [memberOnce?, hfilter]

/-- Every field of a record is found in it. -/
theorem fields?_record {members : List (String × Json)} (h : (members.map Prod.fst).Nodup) :
    fields? (members.map Prod.fst) (record members) = some (members.map fun m => some m.2) := by
  have hkeys : (members.map fun (key, value) => (some key, value)).all
      (fun m : Option String × Json => m.1.isSome) = true := by simp
  have hfind : ∀ members' ⊆ members, (members'.map Prod.fst).mapM
      (memberOnce? · (members.map fun (key, value) => (some key, value))) =
        some (members'.map fun m => some m.2) := by
    intro members' hsub
    induction members' with
    | nil => rfl
    | cons member members' ih =>
      obtain ⟨hmember, hsub⟩ := List.cons_subset.1 hsub
      have hfound := memberOnce?_record h (show (member.1, member.2) ∈ members from hmember)
      simp [hfound, ih hsub]
  rw [record, fields?, hkeys, if_pos rfl]
  exact hfind members fun _ hm => hm

/-- What is read from the fields of a record is read from what was written in them. -/
theorem bind_fields?_record {β : Type} {b : β} {members : List (String × Json)}
    {f : List (Option Json) → Option β} (h : (members.map Prod.fst).Nodup)
    (hf : f (members.map fun m => some m.2) = some b) :
    (fields? (members.map Prod.fst) (record members) >>= f) = some b := by
  rw [fields?_record h]
  exact hf

@[simp]
theorem required_toRecord {α : Type} [Recorded α] [Faithful α] (a : α) :
    required (some (toRecord a)) = some a := Faithful.read a

/-! ### Numbers -/

theorem isSpelled_ofNat (n : Nat) : (ofNat n).IsSpelled :=
  .number
    { whole := ⟨Text.digits_ne_nil n, fun _ => Text.isDigit_of_mem_digits,
        Text.digits_of_head?_eq_zero⟩
      fraction := nofun
      exponent := nofun }

theorem natBelow?_ofNat {n limit : Nat} (h : n < limit) : natBelow? limit (ofNat n) = some n := by
  have hint : int? (ofNat n) = some (.ofNat n) := by
    simp [ofNat, int?, Text.ofDigits_digits]
  rw [natBelow?, hint]
  exact if_pos h

end Json

instance : Faithful String where
  isSpelled := .text
  read _ := rfl

instance : Faithful Bool where
  isSpelled := .bool
  read _ := rfl

instance : Faithful UInt32 where
  isSpelled n := Json.isSpelled_ofNat n.toNat
  read n := by simp [toRecord, ofRecord?, Json.natBelow?_ofNat n.toNat_lt]

instance : Faithful UInt64 where
  isSpelled n := Json.isSpelled_ofNat n.toNat
  read n := by simp [toRecord, ofRecord?, Json.natBelow?_ofNat n.toNat_lt]

/-! ### Lists and options -/

variable {α : Type} [Recorded α]

instance [Spelled α] : Spelled (List α) where
  isSpelled as := by
    refine .array fun item hitem => ?_
    obtain ⟨a, -, rfl⟩ := List.mem_map.1 hitem
    exact Spelled.isSpelled a

/-- A list is read item by item. -/
theorem ofRecord?_toRecord_list {f : α → α} (h : ∀ a : α, ofRecord? (toRecord a) = some (f a))
    (as : List α) : ofRecord? (toRecord as) = some (as.map f) := by
  have hread : (as.map toRecord).mapM ofRecord? = some (as.map f) := by
    induction as with
    | nil => rfl
    | cons a as ih => simp [h, ih]
  exact hread

instance [Faithful α] : Faithful (List α) where
  read as := by simpa using ofRecord?_toRecord_list (f := id) Faithful.read as

/-- What may be missing is written as nothing, so nothing else may be written so. -/
theorem Faithful.option [Faithful α] (h : ∀ a : α, toRecord a ≠ Json.null) :
    Faithful (Option α) where
  isSpelled
    | none => .null
    | some a => Spelled.isSpelled a
  read
    | none => rfl
    | some a => by
      change Json.optional (some (toRecord a)) = some (some a)
      unfold Json.optional
      split
      · next hnone => cases hnone
      · next hnull => exact absurd (Option.some.inj hnull) (h a)
      · next hsome => rw [← Option.some.inj hsome, Faithful.read, Option.map_some]

@[simp]
theorem Json.optional_toRecord [Faithful (Option α)] (a : Option α) :
    optional (some (toRecord a)) = some a := Faithful.read a

end MarketLoad
