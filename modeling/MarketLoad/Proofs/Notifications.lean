import MarketLoad.Proofs.Text.Lines
import MarketLoad.Proofs.Text.Utf8
import MarketLoad.Proofs.Venue.Reading
import MarketLoad.Script

/-!
# Notifications

A script that listens reads lines out of every read on its own. These are the lines of the whole
stream where reads end with lines and lines have no blank ends (`Script.listen_of_reads`); a line that
is cut in two is notified in parts (`Script.listen_tears_line`).
-/

namespace MarketLoad.Script

open Venue

variable {deadline : Nat} {l l' : Link} {chunk : Bytes} {chunks : List Bytes} {last : Received}

/-- The lines of a text that are not empty. -/
def fullLines (text : String) : List String := (Lines.ofText text).filter (!·.isEmpty)

theorem isEmpty_ofList (cs : List Char) : (String.ofList cs).isEmpty = cs.isEmpty := by
  rw [Bool.eq_iff_iff, String.isEmpty_iff, List.isEmpty_iff, String.ofList_eq_empty_iff]

theorem fullLines_ofList (cs : List Char) :
    fullLines (String.ofList cs) =
      ((Lines.ofChars cs).filter (!·.isEmpty)).map String.ofList := by
  have hpred : (fun text : String => !text.isEmpty) ∘ String.ofList = (!·.isEmpty) := by
    funext cs
    rw [Function.comp_apply, isEmpty_ofList]
  rw [fullLines, Lines.ofText, String.toList_ofList, List.filter_map, hpred]

/-- Bytes are cut into lines apart from what follows a newline. -/
theorem ofText_lossy_append (hchunk : chunk.getLast? = some newline) (more : Bytes) :
    Lines.ofText (Utf8.lossy (chunk ++ more)) =
      Lines.ofText (Utf8.lossy chunk) ++ Lines.ofText (Utf8.lossy more) := by
  obtain ⟨line, rfl⟩ := List.getLast?_eq_some_iff.1 hchunk
  have hnewline : newline.toNat < 0x80 := by decide
  have hcut (more : Bytes) : Utf8.lossyChars (line ++ newline :: more) =
      Utf8.lossyChars line ++ '\n' :: Utf8.lossyChars more := by
    rw [Utf8.lossyChars_append hnewline, Utf8.lossyChars_cons_of_lt hnewline]
    rfl
  have hend := hcut []
  rw [Utf8.lossyChars_nil] at hend
  simp only [Lines.ofText, Utf8.lossy, String.toList_ofList]
  rw [List.append_assoc, List.singleton_append, hcut, hend, Lines.ofChars_append, List.map_append]

theorem fullLines_lossy_append (hchunk : chunk.getLast? = some newline) (more : Bytes) :
    fullLines (Utf8.lossy (chunk ++ more)) =
      fullLines (Utf8.lossy chunk) ++ fullLines (Utf8.lossy more) := by
  rw [fullLines, ofText_lossy_append hchunk, List.filter_append]
  rfl

/-- The notifications that one read brings. -/
def notified (chunk : Bytes) : List String := fullLines (Text.trimEnd (Utf8.lossy chunk))

/-- Where lines have no blank ends, nothing is lost with the blank end of a read. -/
theorem notified_eq (h : ∀ line ∈ Lines.ofText (Utf8.lossy chunk), Text.trimEnd line = line) :
    notified chunk = fullLines (Utf8.lossy chunk) := by
  rw [notified, Text.trimEnd, Utf8.lossy, String.toList_ofList, fullLines_ofList, fullLines_ofList,
    Lines.filter_ofChars_trimEndChars]
  intro line hline
  have htrim := h (String.ofList line) ?_
  · rw [Text.trimEnd, String.toList_ofList] at htrim
    simpa using congrArg String.toList htrim
  · rw [Lines.ofText, Utf8.lossy, String.toList_ofList]
    exact List.mem_map_of_mem hline

theorem fst_listen (h : Link.Reads deadline l chunks last l') :
    (listen deadline l).1 = chunks.flatMap notified := by
  induction h with
  | @stop l l' last hread hlast =>
    rw [listen, hread]
    cases last with
    | data first rest => exact absurd rfl (hlast first rest)
    | ended => rfl
    | failed reason => rfl
    | timedOut => rfl
  | more hread hreads ih =>
    rw [List.flatMap_cons, ← ih, listen, hread]
    rfl

theorem flatMap_notified (hends : ∀ chunk ∈ chunks.dropLast, chunk.getLast? = some newline)
    (hlines : ∀ line ∈ Lines.ofText (Utf8.lossy chunks.flatten), Text.trimEnd line = line) :
    chunks.flatMap notified = fullLines (Utf8.lossy chunks.flatten) := by
  induction chunks with
  | nil =>
    rw [List.flatMap_nil, List.flatten_nil, Utf8.lossy, Utf8.lossyChars_nil, fullLines_ofList]
    rfl
  | cons chunk chunks ih =>
    cases chunks with
    | nil =>
      rw [List.flatten_singleton] at hlines ⊢
      rw [List.flatMap_singleton, notified_eq hlines]
    | cons chunk' chunks =>
      rw [List.dropLast_cons_of_ne_nil (List.cons_ne_nil _ _)] at hends
      obtain ⟨hend, hends⟩ := List.forall_mem_cons.1 hends
      have hflatten : (chunk :: chunk' :: chunks).flatten = chunk ++ (chunk' :: chunks).flatten :=
        List.flatten_cons
      rw [hflatten, ofText_lossy_append hend] at hlines
      obtain ⟨hline, hlines⟩ := List.forall_mem_append.1 hlines
      rw [List.flatMap_cons, notified_eq hline, ih hends hlines, hflatten,
        fullLines_lossy_append hend]

/-- What a script hears is, read by read, the lines of the read without its blank end. These are the
lines of the whole stream, however it is cut, if every read but the last ends with a line and no line
ends in a blank. -/
theorem listen_of_reads (h : Link.Reads deadline l chunks last l') :
    (listen deadline l).1 = chunks.flatMap notified ∧
      ((∀ chunk ∈ chunks.dropLast, chunk.getLast? = some newline) →
        (∀ line ∈ Lines.ofText (Utf8.lossy chunks.flatten), Text.trimEnd line = line) →
        (listen deadline l).1 = fullLines (Utf8.lossy chunks.flatten)) := by
  have hread := fst_listen h
  exact ⟨hread, fun hends hlines => hread.trans (flatMap_notified hends hlines)⟩

theorem listen_of_reads_cut_at_line :
    let chunks := [Utf8.encode "FILL:AAPL:10\n", Utf8.encode "FILL:GOOGL:2\n\n"]
    ∃ l', Link.Reads 10 (.ofChunks chunks) chunks .timedOut l' ∧
      (listen 10 (.ofChunks chunks)).1 = ["FILL:AAPL:10", "FILL:GOOGL:2"] := by
  intro chunks
  have hchunks : ∀ chunk ∈ chunks, chunk ≠ [] ∧ chunk.length ≤ Link.readLimit := by decide
  obtain ⟨l', hreads⟩ := Link.exists_reads_ofChunks 10 hchunks
  refine ⟨l', hreads, ((listen_of_reads hreads).2 (by decide) ?_).trans ?_⟩
  · decide +kernel
  · decide +kernel

/-- One stream, cut in two ways. -/
theorem listen_tears_line :
    let chunks := [Utf8.encode "FILL:AAPL:10\n", Utf8.encode "FILL:GOOGL:2\n"]
    let torn := [Utf8.encode "FILL:AAPL:10\nFILL:GO", Utf8.encode "OGL:2\n"]
    chunks.flatten = torn.flatten ∧
      (∃ l', Link.Reads 10 (.ofChunks chunks) chunks .timedOut l') ∧
      (∃ l', Link.Reads 10 (.ofChunks torn) torn .timedOut l') ∧
      fullLines (Utf8.lossy torn.flatten) = ["FILL:AAPL:10", "FILL:GOOGL:2"] ∧
      (listen 10 (.ofChunks chunks)).1 = ["FILL:AAPL:10", "FILL:GOOGL:2"] ∧
      (listen 10 (.ofChunks torn)).1 = ["FILL:AAPL:10", "FILL:GO", "OGL:2"] := by
  refine ⟨by decide, Link.exists_reads_ofChunks 10 (by decide),
    Link.exists_reads_ofChunks 10 (by decide), ?_⟩
  decide +kernel

end MarketLoad.Script
