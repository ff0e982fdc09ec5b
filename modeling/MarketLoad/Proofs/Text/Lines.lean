import Mathlib.Data.List.DropRight
import MarketLoad.Text.Blank
import MarketLoad.Text.Lines

/-!
# Cutting at newlines

Lines without newlines in them are cut apart as they were joined (`Lines.cut_join`), and nothing that
is cut holds a newline (`Lines.newline_not_mem_cut`). Texts are cut into lines that may also end in a
carriage return: complete lines are read apart from what follows (`Lines.ofChars_append`), and a
blank end without blanks in its lines hides none of them (`Lines.filter_ofChars_trimEndChars`).
-/

namespace MarketLoad

/-! ### Blank ends -/

namespace Text

variable {c : Char} {cs : List Char}

theorem trimEndChars_eq_self_iff :
    trimEndChars cs = cs ↔ ∀ h : cs ≠ [], ¬ isBlank (cs.getLast h) = true :=
  List.rdropWhile_eq_self_iff

theorem not_isBlank_of_trimEndChars (h : trimEndChars [c] = [c]) :
    ¬ isBlank c = true := trimEndChars_eq_self_iff.1 h (List.cons_ne_nil c [])

theorem trimEndChars_of_cons (h : trimEndChars (c :: cs) = c :: cs) :
    trimEndChars cs = cs := by
  rw [trimEndChars_eq_self_iff] at h ⊢
  intro hne
  have hlast := h (List.cons_ne_nil c cs)
  rwa [List.getLast_cons hne] at hlast

theorem ne_nil_of_trimEndChars (hc : isBlank c = true)
    (h : trimEndChars (c :: cs) = c :: cs) : cs ≠ [] := by
  rintro rfl
  exact not_isBlank_of_trimEndChars h hc

end Text

/-! ### Lines of bytes -/

namespace Lines

variable {bytes line left : Bytes} {lines : List Bytes}

theorem cut_newline (rest : Bytes) :
    cut (newline :: rest) = ([] :: (cut rest).1, (cut rest).2) := by
  simp only [cut, if_true]

theorem cut_cons {b : UInt8} (hb : b ≠ newline) (rest : Bytes) :
    cut (b :: rest) =
      match (cut rest).1 with
      | [] => ([], b :: (cut rest).2)
      | line :: lines => ((b :: line) :: lines, (cut rest).2) := by
  cases hcut : (cut rest).1 <;> simp [cut, hb, hcut]

/-- Bytes without a newline are an unfinished line. -/
theorem cut_of_not_mem (h : newline ∉ left) : cut left = ([], left) := by
  induction left with
  | nil => rfl
  | cons b left ih =>
    obtain ⟨hb, hleft⟩ := not_or.1 fun hor => h (List.mem_cons.2 hor)
    rw [cut_cons (Ne.symm hb), ih hleft]

/-- A line without a newline in it is cut off whole. -/
theorem cut_append (h : newline ∉ line) (rest : Bytes) :
    cut (line ++ newline :: rest) = (line :: (cut rest).1, (cut rest).2) := by
  induction line with
  | nil => exact cut_newline rest
  | cons b line ih =>
    obtain ⟨hb, hline⟩ := not_or.1 fun hor => h (List.mem_cons.2 hor)
    rw [List.cons_append, cut_cons (Ne.symm hb), ih hline]

theorem join_cons (line : Bytes) (lines : List Bytes) (left : Bytes) :
    join (line :: lines) left = line ++ newline :: join lines left := by
  rw [join, List.flatMap_cons, List.append_assoc, List.append_assoc]
  rfl

theorem join_append (lines lines' : List Bytes) (left : Bytes) :
    join (lines ++ lines') left = lines.flatMap (· ++ [newline]) ++ join lines' left := by
  rw [join, join, List.flatMap_append, List.append_assoc]

/-- Cutting undoes joining. -/
theorem cut_join (hlines : ∀ line ∈ lines, newline ∉ line) (hleft : newline ∉ left) :
    cut (join lines left) = (lines, left) := by
  induction lines with
  | nil => exact cut_of_not_mem hleft
  | cons line lines ih =>
    obtain ⟨hline, hlines⟩ := List.forall_mem_cons.1 hlines
    rw [join_cons, cut_append hline, ih hlines]

/-- Nothing that is cut holds a newline. -/
theorem newline_not_mem_cut (bytes : Bytes) :
    (∀ line ∈ (cut bytes).1, newline ∉ line) ∧ newline ∉ (cut bytes).2 := by
  induction bytes with
  | nil => exact ⟨fun _ h => absurd h List.not_mem_nil, List.not_mem_nil⟩
  | cons b rest ih =>
    obtain ⟨hlines, hleft⟩ := ih
    by_cases hb : b = newline
    · subst hb
      rw [cut_newline]
      exact ⟨List.forall_mem_cons.2 ⟨List.not_mem_nil, hlines⟩, hleft⟩
    · rw [cut_cons hb]
      have hne : newline ≠ b := fun h => hb h.symm
      cases hcut : (cut rest).1 with
      | nil =>
        refine ⟨fun _ h => absurd h List.not_mem_nil, fun hm => ?_⟩
        exact (List.mem_cons.1 hm).elim hne hleft
      | cons line lines =>
        rw [hcut] at hlines
        obtain ⟨hline, hlines⟩ := List.forall_mem_cons.1 hlines
        refine ⟨List.forall_mem_cons.2 ⟨fun hm => ?_, hlines⟩, hleft⟩
        exact (List.mem_cons.1 hm).elim hne hline

theorem cut_join_append (hlines : ∀ line ∈ lines, newline ∉ line) (left more : Bytes) :
    (cut (join lines left ++ more)).1 = lines ++ (cut (left ++ more)).1 := by
  induction lines with
  | nil => rfl
  | cons line lines ih =>
    obtain ⟨hline, hlines⟩ := List.forall_mem_cons.1 hlines
    rw [join_cons, List.append_assoc, List.cons_append, cut_append hline, ih hlines]
    rfl

/-- Further bytes leave the complete lines as they are. -/
theorem cut_prefix (bytes more : Bytes) : (cut bytes).1 <+: (cut (bytes ++ more)).1 := by
  have hall := cut_join_append (newline_not_mem_cut bytes).1 (cut bytes).2 more
  rw [join_cut] at hall
  rw [hall]
  exact List.prefix_append ..

/-! ### Lines of texts -/

section text

variable {c : Char} {cs ds line : List Char}

theorem ofChars_newline (cs : List Char) : ofChars ('\n' :: cs) = [] :: ofChars cs := by
  rw [ofChars, if_pos rfl]
  nofun

theorem ofChars_cons (hc : c ≠ '\n') (hcs : c = '\r' → ∀ ds, cs ≠ '\n' :: ds) :
    ofChars (c :: cs) =
      match ofChars cs with
      | [] => [[c]]
      | line :: lines => (c :: line) :: lines := by
  have hplain (ds : List Char) (hr : c = '\r') (hds : cs = '\n' :: ds) : False := hcs hr ds hds
  have hline := ofChars.eq_3 c cs hplain
  rw [if_neg hc] at hline
  refine hline.trans ?_
  cases ofChars cs <;> rfl

theorem ofChars_eq_nil_iff : ofChars cs = [] ↔ cs = [] := by
  fun_cases ofChars cs <;> simp

theorem exists_ofChars_eq_cons (h : cs ≠ []) : ∃ line lines, ofChars cs = line :: lines :=
  List.exists_cons_of_ne_nil fun hnil => h (ofChars_eq_nil_iff.1 hnil)

theorem append_ne_newline (hne : cs ≠ []) (hcs : ∀ ds, cs ≠ '\n' :: ds) (es ds : List Char) :
    cs ++ es ≠ '\n' :: ds := by
  obtain ⟨d, cs, rfl⟩ := List.exists_cons_of_ne_nil hne
  exact fun h => hcs cs (congrArg (· :: cs) (List.cons_eq_cons.1 h).1)

/-- Complete lines are read apart from what follows them. -/
theorem ofChars_append (cs ds : List Char) :
    ofChars (cs ++ '\n' :: ds) = ofChars (cs ++ ['\n']) ++ ofChars ds := by
  fun_induction ofChars cs with
  | case1 => exact ofChars_newline ds
  | case2 cs ih => simp only [List.cons_append, ofChars, ih]
  | case3 cs hcs ih => simp only [List.cons_append, ofChars_newline, ih]
  | case4 c cs hcs hc hnil ih =>
    cases ofChars_eq_nil_iff.1 hnil
    by_cases hr : c = '\r'
    · subst hr
      rfl
    · simp [ofChars_cons hc (fun h => absurd h hr), ofChars_newline, ofChars]
  | case5 c cs hcs hc line lines hlines ih =>
    have hne : cs ≠ [] := fun h => by simp [h, ofChars] at hlines
    have hapart (es : List Char) (hr : c = '\r') : ∀ ds, cs ++ es ≠ '\n' :: ds :=
      append_ne_newline hne (fun ds => hcs ds hr) es
    rw [List.cons_append, List.cons_append, ofChars_cons hc (hapart _), ofChars_cons hc (hapart _),
      ih]
    obtain ⟨line, lines, h⟩ :=
      exists_ofChars_eq_cons (List.append_ne_nil_of_right_ne_nil cs (List.cons_ne_nil '\n' []))
    rw [h]
    rfl

/-- Empty lines at the end do not change the lines before them. -/
theorem ofChars_append_of_empty (hne : cs ≠ []) (htrim : Text.trimEndChars cs = cs)
    (hds : ∀ line ∈ ofChars ds, line = []) :
    ofChars (cs ++ ds) = ofChars cs ++ (ofChars ds).tail := by
  fun_induction ofChars cs with
  | case1 => exact absurd rfl hne
  | case2 cs ih =>
    have htail := Text.trimEndChars_of_cons htrim
    have hcs := Text.ne_nil_of_trimEndChars (by decide) htail
    rw [List.cons_append, List.cons_append, ofChars, ih hcs (Text.trimEndChars_of_cons htail)]
    rfl
  | case3 cs _ ih =>
    have hcs := Text.ne_nil_of_trimEndChars (by decide) htrim
    rw [List.cons_append, ofChars_newline, ih hcs (Text.trimEndChars_of_cons htrim)]
    rfl
  | case4 c cs _ hc hnil ih =>
    cases ofChars_eq_nil_iff.1 hnil
    have hr : c ≠ '\r' := by
      rintro rfl
      exact Text.not_isBlank_of_trimEndChars htrim (by decide)
    rw [List.singleton_append, ofChars_cons hc (fun h => absurd h hr)]
    cases hlines : ofChars ds with
    | nil => rfl
    | cons line lines =>
      rw [hlines] at hds
      cases hds line List.mem_cons_self
      rfl
  | case5 c cs hcs hc line lines hlines ih =>
    have hne' : cs ≠ [] := fun h => by simp [h, ofChars] at hlines
    have hapart (hr : c = '\r') : ∀ es, cs ++ ds ≠ '\n' :: es :=
      append_ne_newline hne' (fun es => hcs es hr) ds
    rw [List.cons_append, ofChars_cons hc hapart, ih hne' (Text.trimEndChars_of_cons htrim), hlines]
    rfl

theorem mem_of_mem_ofChars (hline : line ∈ ofChars cs) (hc : c ∈ line) : c ∈ cs := by
  fun_induction ofChars cs generalizing line with
  | case1 => cases hline
  | case2 cs ih =>
    rcases List.mem_cons.1 hline with rfl | hline
    · cases hc
    · exact List.mem_cons_of_mem _ (List.mem_cons_of_mem _ (ih hline hc))
  | case3 cs hcs ih =>
    rcases List.mem_cons.1 hline with rfl | hline
    · cases hc
    · exact List.mem_cons_of_mem _ (ih hline hc)
  | case4 d cs hcs hd hnil ih =>
    cases List.mem_singleton.1 hline
    exact List.mem_cons.2 (.inl (List.mem_singleton.1 hc))
  | case5 d cs hcs hd first lines hlines ih =>
    rw [hlines] at ih
    rcases List.mem_cons.1 hline with rfl | hline
    · rcases List.mem_cons.1 hc with rfl | hc
      · exact List.mem_cons_self
      · exact List.mem_cons_of_mem _ (ih List.mem_cons_self hc)
    · exact List.mem_cons_of_mem _ (ih (List.mem_cons_of_mem _ hline) hc)

/-- The lines of the end of a text end lines of the text. -/
theorem exists_suffix_ofChars (cs : List Char) (hline : line ∈ ofChars ds) :
    ∃ line' ∈ ofChars (cs ++ ds), line <:+ line' := by
  induction cs with
  | nil => exact ⟨line, hline, List.suffix_refl line⟩
  | cons c cs ih =>
    obtain ⟨line', hline', hsuffix⟩ := ih
    rw [List.cons_append]
    generalize cs ++ ds = es at hline'
    generalize hall : c :: es = all
    fun_cases ofChars all with
    | case1 => cases hall
    | case2 fs =>
      cases hall
      rw [ofChars_newline] at hline'
      exact ⟨line', hline', hsuffix⟩
    | case3 fs =>
      cases hall
      exact ⟨line', List.mem_cons_of_mem _ hline', hsuffix⟩
    | case4 d fs _ _ hnil =>
      cases hall
      rw [hnil] at hline'
      cases hline'
    | case5 d fs _ _ first lines hlines =>
      cases hall
      rw [hlines] at hline'
      rcases List.mem_cons.1 hline' with rfl | hline'
      · exact ⟨_, List.mem_cons_self, hsuffix.trans (List.suffix_cons ..)⟩
      · exact ⟨line', List.mem_cons_of_mem _ hline', hsuffix⟩

/-- A text whose lines have no blank ends has the lines of the text without its blank end, but for
empty ones. -/
theorem filter_ofChars_trimEndChars (h : ∀ line ∈ ofChars cs, Text.trimEndChars line = line) :
    (ofChars (Text.trimEndChars cs)).filter (!·.isEmpty) = (ofChars cs).filter (!·.isEmpty) := by
  have hsplit : Text.trimEndChars cs ++ cs.rtakeWhile Text.isBlank = cs :=
    List.rdropWhile_append_rtakeWhile ..
  have hempty : ∀ line ∈ ofChars (cs.rtakeWhile Text.isBlank), line = [] := by
    intro line hline
    obtain ⟨line', hline', hsuffix⟩ := exists_suffix_ofChars (Text.trimEndChars cs) hline
    rw [hsplit] at hline'
    by_contra hne
    have hlast : line.getLast hne = line'.getLast (hsuffix.ne_nil hne) := hsuffix.getLast hne
    refine Text.trimEndChars_eq_self_iff.1 (h line' hline') (hsuffix.ne_nil hne) ?_
    rw [← hlast]
    exact List.mem_rtakeWhile_imp (mem_of_mem_ofChars hline (List.getLast_mem hne))
  have hfilter {lines : List (List Char)} (hall : ∀ line ∈ lines, line = []) :
      lines.filter (!·.isEmpty) = [] := by
    rw [List.filter_eq_nil_iff]
    intro line hline
    rw [hall line hline]
    decide
  by_cases hnil : Text.trimEndChars cs = []
  · rw [hnil] at hsplit ⊢
    rw [← hsplit, List.nil_append, hfilter hempty]
    rfl
  · have hself : Text.trimEndChars (Text.trimEndChars cs) = Text.trimEndChars cs :=
      List.rdropWhile_idempotent ..
    have hlines := ofChars_append_of_empty hnil hself hempty
    rw [hsplit] at hlines
    rw [hlines, List.filter_append, hfilter (fun line hm => hempty line (List.mem_of_mem_tail hm)),
      List.append_nil]

end text
end Lines

end MarketLoad
