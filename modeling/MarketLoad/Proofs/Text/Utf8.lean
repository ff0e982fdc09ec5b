import MarketLoad.Text.Lines
import Mathlib.Algebra.Group.Nat.Defs

/-!
# Texts as bytes

Only a newline is encoded with the byte of a newline, and texts come in the order of their bytes
(`Utf8.encode_lt`). In the other direction, what is read of bytes that may be broken is settled
around ASCII: a word of it stands in the text exactly if it stands among the bytes
(`Utf8.infix_lossyChars_iff`), and bytes may be cut before it (`Utf8.lossyChars_append`).
-/

namespace MarketLoad

namespace Utf8

variable {code n low high k : Nat} {b : UInt8} {rest : Bytes}

/-- The byte of a newline encodes a newline character only. -/
theorem newline_not_mem_utf8EncodeChar {c : Char} (h : c ≠ '\n') :
    newline ∉ String.utf8EncodeChar c := by
  have hval : c.val.toNat ≠ 10 := fun hn => h (Char.ext (UInt32.toNat_inj.1 hn))
  have hbyte {n : Nat} (hn : n < 256) (hne : n ≠ 10) : newline ≠ UInt8.ofNat n := by
    intro heq
    have hnat := congrArg UInt8.toNat heq
    rw [UInt8.toNat_ofNat_of_lt' hn] at hnat
    exact hne hnat.symm
  unfold String.utf8EncodeChar
  dsimp only
  -- Every byte of a longer encoding has its high bit set.
  split
  · exact fun hm => hbyte (by omega) hval (List.mem_singleton.1 hm)
  · split
    · simp only [List.mem_cons, List.not_mem_nil, or_false, not_or]
      exact ⟨hbyte (by omega) (by omega), hbyte (by omega) (by omega)⟩
    · split
      · simp only [List.mem_cons, List.not_mem_nil, or_false, not_or]
        exact ⟨hbyte (by omega) (by omega), hbyte (by omega) (by omega),
          hbyte (by omega) (by omega)⟩
      · simp only [List.mem_cons, List.not_mem_nil, or_false, not_or]
        exact ⟨hbyte (by omega) (by omega), hbyte (by omega) (by omega),
          hbyte (by omega) (by omega), hbyte (by omega) (by omega)⟩

theorem newline_not_mem_encodeChars {cs : List Char} (h : '\n' ∉ cs) :
    newline ∉ encodeChars cs := by
  intro hm
  obtain ⟨c, hc, hb⟩ := List.mem_flatMap.1 hm
  exact newline_not_mem_utf8EncodeChar (fun heq => h (heq ▸ hc)) hb

theorem encode_append (a b : String) : encode (a ++ b) = encode a ++ encode b := by
  rw [encode, String.toList_append, encodeChars, List.flatMap_append]
  rfl

theorem ofNat_cons_lt {m n : Nat} (hm : m < 256) (hn : n < 256) (bs bs' : Bytes) :
    UInt8.ofNat m :: bs < UInt8.ofNat n :: bs' ↔ m < n ∨ m = n ∧ bs < bs' := by
  rw [List.cons_lt_cons_iff, UInt8.lt_iff_toNat_lt, ← UInt8.toNat_inj, UInt8.toNat_ofNat_of_lt' hm,
    UInt8.toNat_ofNat_of_lt' hn]

/-- The character with the smaller number has the smaller bytes, and neither begins with the other. -/
theorem utf8EncodeChar_append_lt {c d : Char} (h : c < d) (bs bs' : Bytes) :
    String.utf8EncodeChar c ++ bs < String.utf8EncodeChar d ++ bs' := by
  have hval : c.val.toNat < d.val.toNat := h
  have hlast : d.val.toNat < 0x110000 := by
    rcases d.valid with h | h <;> omega
  -- Each byte after the first holds six bits, so the numbers are compared as quotients by 64.
  have h4096 (n : Nat) : n / 4096 = n / 64 / 64 := by omega
  have h262144 (n : Nat) : n / 262144 = n / 64 / 64 / 64 := by omega
  unfold String.utf8EncodeChar
  generalize c.val.toNat = m at hval
  generalize d.val.toNat = n at hval hlast
  simp only [h4096, h262144]
  repeat' split
  all_goals
    simp (disch := omega) only [List.cons_append, List.nil_append, ofNat_cons_lt]
    omega

theorem encodeChars_lt {cs ds : List Char} (h : cs < ds) : encodeChars cs < encodeChars ds := by
  induction h with
  | @nil d ds =>
    obtain ⟨b, bs, hbytes⟩ := List.exists_cons_of_ne_nil (String.utf8EncodeChar_ne_nil (c := d))
    rw [encodeChars, encodeChars, List.flatMap_nil, List.flatMap_cons, hbytes, List.cons_append]
    exact List.nil_lt_cons ..
  | @cons c cs ds _ ih =>
    rw [encodeChars, encodeChars, List.flatMap_cons, List.flatMap_cons]
    exact List.append_left_lt ih
  | rel h =>
    rw [encodeChars, encodeChars, List.flatMap_cons, List.flatMap_cons]
    exact utf8EncodeChar_append_lt h _ _

/-- Texts come in the order of their bytes. -/
theorem encode_lt {a b : String} (h : a < b) : encode a < encode b := encodeChars_lt h

/-! ### Bytes above ASCII -/

/-- The bytes that continue a character lie above ASCII, and what is left follows them. -/
theorem exists_append_continueChar (code n high : Nat) (hlow : 0x80 ≤ low) (rest : Bytes) :
    ∃ eaten, rest = eaten ++ (continueChar code n low high rest).2 ∧
      ∀ b ∈ eaten, 0x80 ≤ b.toNat := by
  induction n generalizing code low high rest with
  | zero => exact ⟨[], rfl, nofun⟩
  | succ n ih =>
    cases rest with
    | nil => exact ⟨[], rfl, nofun⟩
    | cons b rest =>
      rw [continueChar]
      split
      · rename_i hb
        obtain ⟨eaten, hrest, heaten⟩ := ih (code * 0x40 + b.toNat % 0x40) 0xbf (Nat.le_refl _) rest
        refine ⟨b :: eaten, congrArg (b :: ·) hrest, List.forall_mem_cons.2 ⟨?_, heaten⟩⟩
        exact Nat.le_trans hlow hb.1
      · exact ⟨[], rfl, nofun⟩

/-- The code point that is put together lies between those that its first two bytes allow. -/
theorem bounds_of_continueChar (hlow : 0x80 ≤ low) (hhigh : high ≤ 0xbf)
    (h : (continueChar code (n + 1) low high rest).1 = some k) :
    (code * 0x40 + (low - 0x80)) * 0x40 ^ n ≤ k ∧
      k < (code * 0x40 + (high - 0x80) + 1) * 0x40 ^ n := by
  induction n generalizing code low high rest with
  | zero =>
    cases rest with
    | nil => cases h
    | cons b rest =>
      rw [continueChar] at h
      split at h
      · cases h
        simp only [Nat.pow_zero, Nat.mul_one]
        omega
      · cases h
  | succ n ih =>
    cases rest with
    | nil => cases h
    | cons b rest =>
      rw [continueChar] at h
      split at h
      · rename_i hb
        obtain ⟨hle, hlt⟩ := ih (Nat.le_refl _) (Nat.le_refl _) h
        rw [Nat.pow_succ, Nat.mul_comm (0x40 ^ n) 0x40, ← Nat.mul_assoc, ← Nat.mul_assoc]
        refine ⟨Nat.le_trans (Nat.mul_le_mul_right _ ?_) hle,
          Nat.lt_of_lt_of_le hlt (Nat.mul_le_mul_right _ ?_)⟩
        · omega
        · omega
      · cases h

theorem toNat_ofNat {k : Nat} (h : k.isValidChar) : (Char.ofNat k).toNat = k := by
  rw [Char.ofNat, dif_pos h]
  rfl

theorem low_of_lead? {n : Nat} {lead : Lead} (h : lead? n = some lead) : 0x80 ≤ lead.low := by
  unfold lead? at h
  repeat' split at h
  all_goals cases h
  all_goals decide

/-- What the first byte announces above ASCII is a character above ASCII. -/
theorem valid_of_lead? {lead : Lead} (hlead : lead? b.toNat = some lead)
    (h : (continueChar (leadBits b.toNat lead.following) lead.following lead.low lead.high rest).1 =
      some k) : 0x80 ≤ k ∧ k.isValidChar := by
  unfold lead? at hlead
  repeat' split at hlead
  all_goals cases hlead
  all_goals
    have hbounds := bounds_of_continueChar (by decide) (by decide) h
    simp [leadBits] at hbounds
    simp only [Nat.isValidChar]
    omega

theorem step_of_lt (hb : b.toNat < 0x80) (rest : Bytes) :
    step b rest = (some (Char.ofNat b.toNat), rest) := if_pos hb

/-- A step from above ASCII takes bytes above ASCII and shows a character above ASCII. -/
theorem step_of_le (hb : 0x80 ≤ b.toNat) (rest : Bytes) :
    0x80 ≤ ((step b rest).1.getD replacement).toNat ∧
      ∃ eaten, rest = eaten ++ (step b rest).2 ∧ ∀ x ∈ eaten, 0x80 ≤ x.toNat := by
  have hreplacement : 0x80 ≤ replacement.toNat := by decide
  rw [step, if_neg (Nat.not_lt.2 hb)]
  cases hlead : lead? b.toNat with
  | none => exact ⟨hreplacement, [], rfl, nofun⟩
  | some lead =>
    refine ⟨?_, exists_append_continueChar _ _ _ (low_of_lead? hlead) rest⟩
    dsimp only
    cases hk : (continueChar (leadBits b.toNat lead.following) lead.following lead.low lead.high
      rest).1 with
    | none => exact hreplacement
    | some k =>
      obtain ⟨hk, hvalid⟩ := valid_of_lead? hlead hk
      exact (toNat_ofNat hvalid).symm ▸ hk

theorem lossyChars_nil : lossyChars [] = [] := by
  rw [lossyChars, decode, List.map_nil]

theorem lossyChars_cons (b : UInt8) (rest : Bytes) :
    lossyChars (b :: rest) =
      (step b rest).1.getD replacement :: lossyChars (step b rest).2 := by
  rw [lossyChars, decode, List.map_cons]
  rfl

theorem lossyChars_cons_of_lt (hb : b.toNat < 0x80) (rest : Bytes) :
    lossyChars (b :: rest) = Char.ofNat b.toNat :: lossyChars rest := by
  rw [lossyChars_cons, step_of_lt hb, Option.getD_some]

/-! ### Words of ASCII in a text -/

section word

variable {word : Bytes}

theorem ofNat_eq_iff {a : UInt8} (ha : a.toNat < 0x80) (hb : b.toNat < 0x80) :
    Char.ofNat a.toNat = Char.ofNat b.toNat ↔ a = b := by
  refine ⟨fun h => ?_, fun h => by rw [h]⟩
  have hnat := congrArg Char.toNat h
  rw [toNat_ofNat (.inl (by omega)), toNat_ofNat (.inl (by omega))] at hnat
  exact UInt8.toNat_inj.1 hnat

theorem prefix_lossyChars_iff (hword : ∀ a ∈ word, a.toNat < 0x80) (bs : Bytes) :
    word.map (fun a => Char.ofNat a.toNat) <+: lossyChars bs ↔ word <+: bs := by
  induction word generalizing bs with
  | nil => simp
  | cons a word ih =>
    obtain ⟨ha, hword⟩ := List.forall_mem_cons.1 hword
    cases bs with
    | nil => simp [lossyChars_nil]
    | cons b rest =>
      rcases Nat.lt_or_ge b.toNat 0x80 with hb | hb
      · rw [lossyChars_cons_of_lt hb, List.map_cons, List.cons_prefix_cons,
          List.cons_prefix_cons, ofNat_eq_iff ha hb, ih hword]
      · rw [lossyChars_cons, List.map_cons, List.cons_prefix_cons, List.cons_prefix_cons]
        refine iff_of_false (fun h => ?_) fun h => ?_
        · have habove := (step_of_le hb rest).1
          rw [← h.1, toNat_ofNat (.inl (by omega))] at habove
          omega
        · rw [h.1] at ha
          omega

/-- A word that shares no element with the start of a list stands in the rest of it. -/
theorem infix_append_of_disjoint {α : Type} {word eaten : List α} (hne : word ≠ [])
    (h : ∀ a ∈ word, a ∉ eaten) (left : List α) :
    word <:+: eaten ++ left ↔ word <:+: left := by
  rw [List.infix_append_iff]
  refine ⟨?_, fun hright => .inr (.inl hright)⟩
  rintro (hleft | hright | ⟨start, stop, rfl, hstart, hstop⟩)
  · obtain ⟨a, ha⟩ := List.exists_mem_of_ne_nil word hne
    exact absurd (hleft.subset ha) (h a ha)
  · exact hright
  · cases start with
    | nil => exact hstop.isInfix
    | cons a start =>
      exact absurd (hstart.subset List.mem_cons_self) (h a (List.mem_cons_self ..))

/-- A word of ASCII stands in the text of a byte string exactly if it stands among the bytes, broken
parts or not. -/
theorem infix_lossyChars_iff (hword : ∀ a ∈ word, a.toNat < 0x80) (hne : word ≠ [])
    (bs : Bytes) :
    word.map (fun a => Char.ofNat a.toNat) <:+: lossyChars bs ↔ word <:+: bs := by
  induction bs using decode.induct with
  | case1 =>
    rw [lossyChars_nil, List.infix_nil, List.infix_nil, List.map_eq_nil_iff]
  | case2 b rest ih =>
    rcases Nat.lt_or_ge b.toNat 0x80 with hb | hb
    · rw [step_of_lt hb] at ih
      rw [List.infix_cons_iff, ← ih, ← prefix_lossyChars_iff hword, lossyChars_cons_of_lt hb,
        List.infix_cons_iff]
    · obtain ⟨habove, eaten, hrest, heaten⟩ := step_of_le hb rest
      have hnot : ¬ word.map (fun a => Char.ofNat a.toNat) <+: lossyChars (b :: rest) := by
        rw [prefix_lossyChars_iff hword]
        intro h
        obtain ⟨a, word, rfl⟩ := List.exists_cons_of_ne_nil hne
        have ha := hword a List.mem_cons_self
        rw [(List.cons_prefix_cons.1 h).1] at ha
        omega
      have hskip : word <:+: b :: rest ↔ word <:+: (step b rest).2 := by
        have happend : b :: rest = (b :: eaten) ++ (step b rest).2 := congrArg (b :: ·) hrest
        rw [happend]
        refine infix_append_of_disjoint hne (fun a ha hm => ?_) _
        have habove : ∀ y ∈ b :: eaten, 0x80 ≤ y.toNat := List.forall_mem_cons.2 ⟨hb, heaten⟩
        exact Nat.not_lt.2 (habove a hm) (hword a ha)
      rw [hskip, ← ih, lossyChars_cons, List.infix_cons_iff, ← lossyChars_cons]
      exact or_iff_right hnot

end word

/-! ### Cutting before ASCII -/

section cut

variable {x : UInt8}

theorem continueChar_append (hx : x.toNat < 0x80) (hlow : 0x80 ≤ low) (code n high : Nat)
    (rest more : Bytes) :
    continueChar code n low high (rest ++ x :: more) =
      ((continueChar code n low high rest).1,
        (continueChar code n low high rest).2 ++ x :: more) := by
  induction n generalizing code low high rest with
  | zero => rfl
  | succ n ih =>
    cases rest with
    | nil =>
      have hrange : ¬ (low ≤ x.toNat ∧ x.toNat ≤ high) := by omega
      rw [List.nil_append]
      simp only [continueChar, if_neg hrange, List.nil_append]
    | cons b rest =>
      rw [List.cons_append, continueChar, continueChar]
      split
      · exact ih (Nat.le_refl _) ..
      · rfl

theorem step_append (hx : x.toNat < 0x80) (b : UInt8) (rest more : Bytes) :
    step b (rest ++ x :: more) = ((step b rest).1, (step b rest).2 ++ x :: more) := by
  unfold step
  split
  · rfl
  · cases hlead : lead? b.toNat with
    | none => rfl
    | some lead =>
      dsimp only
      rw [continueChar_append hx (low_of_lead? hlead)]

/-- A byte string that is cut before a byte of ASCII is read in its two parts. -/
theorem lossyChars_append (hx : x.toNat < 0x80) (bs more : Bytes) :
    lossyChars (bs ++ x :: more) = lossyChars bs ++ lossyChars (x :: more) := by
  induction bs using decode.induct with
  | case1 => rw [lossyChars_nil]; rfl
  | case2 b rest ih =>
    rw [List.cons_append, lossyChars_cons, step_append hx, lossyChars_cons, ih]
    rfl

end cut

end Utf8

end MarketLoad
