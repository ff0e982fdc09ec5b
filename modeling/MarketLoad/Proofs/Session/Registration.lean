import MarketLoad.Proofs.Command
import MarketLoad.Proofs.Venue.Reading
import MarketLoad.Session.Registration

/-!
# The answer to a registration

A registration is decided by what has been gathered when reading first stops
(`Registration.Decided`), and succeeds if the mark stands there. An answer of one line that fits the
buffer is judged alike however it is cut into reads (`Registration.Decided.of_line`).
-/

namespace MarketLoad.Registration

open Venue

variable {deadline : Nat} {l l' l'' : Link} {received : Bytes} {chunks : List Bytes}
  {last : Received} {result : Except RegistrationFailure Unit} {i j : Nat}

/-- What the first reads have brought. -/
def gathered (chunks : List Bytes) (reads : Nat) : Bytes := (chunks.take reads).flatten

/-- The mark stands in what was received. -/
def Marked (received : Bytes) : Prop := Utf8.encode registrationMark <:+: received

/-- What was received holds the end of a line or fills the buffer. -/
def Stops (received : Bytes) : Prop := newline ∈ received ∨ ackLimit ≤ received.length

/-- The failure of a registration that reading on did not stop. -/
def atEnd (received : Bytes) : Received → RegistrationFailure
  | .failed reason => .io reason
  | .ended => stopped received .closed
  | .timedOut | .data .. => stopped received .timeout

theorem gathered_length (chunks : List Bytes) : gathered chunks chunks.length = chunks.flatten := by
  rw [gathered, List.take_length]

theorem gathered_append (chunks chunks' : List Bytes) :
    gathered (chunks ++ chunks') chunks.length = chunks.flatten := by
  rw [gathered, List.take_left]

theorem prefix_gathered (chunks : List Bytes) (h : i ≤ j) :
    gathered chunks i <+: gathered chunks j := by
  obtain ⟨rest, hrest⟩ := List.take_prefix_take_left h (l := chunks)
  rw [gathered, gathered, ← hrest, List.flatten_append]
  exact List.prefix_append ..

theorem gathered_prefix_flatten (h : i ≤ chunks.length) : gathered chunks i <+: chunks.flatten :=
  gathered_length chunks ▸ prefix_gathered chunks h

theorem Marked.mono {received' : Bytes} (h : Marked received) (hinit : received <+: received') :
    Marked received' := List.IsInfix.trans h hinit.isInfix

theorem acknowledgesRegistration_iff_marked :
    acknowledgesRegistration received = true ↔ Marked received := acknowledgesRegistration_iff

/-- How reading on is decided: by the mark, by a full line or buffer before it, or by neither. -/
inductive Decided (chunks : List Bytes) (last : Received) : Except RegistrationFailure Unit → Prop
  | acknowledged {i : Nat} (hi : i ≤ chunks.length) (hmark : Marked (gathered chunks i))
    (hgoes : ∀ j < i, ¬ Stops (gathered chunks j)) : Decided chunks last (.ok ())
  | refused {i : Nat} (hi : i ≤ chunks.length) (hmark : ¬ Marked (gathered chunks i))
    (hstops : Stops (gathered chunks i)) (hgoes : ∀ j < i, ¬ Stops (gathered chunks j)) :
    Decided chunks last (.error (unrecognized (gathered chunks i)))
  | unstopped (hmark : ¬ Marked chunks.flatten)
    (hgoes : ∀ j ≤ chunks.length, ¬ Stops (gathered chunks j)) :
    Decided chunks last (.error (atEnd chunks.flatten last))

/-- Reading on after reads that decided nothing. -/
theorem decided_await (h : Link.Reads deadline l chunks last l') (before : List Bytes)
    (hmark : ¬ Marked before.flatten)
    (hgoes : ∀ j ≤ before.length, ¬ Stops (gathered (before ++ chunks) j)) :
    Decided (before ++ chunks) last (await deadline before.flatten l).1 := by
  induction h generalizing before with
  | @stop l l' last hread hlast =>
    rw [List.append_nil] at hgoes ⊢
    have hgiven : Decided before last (.error (atEnd before.flatten last)) :=
      .unstopped hmark hgoes
    rw [await, hread]
    cases last with
    | data first rest => exact absurd rfl (hlast first rest)
    | ended => exact hgiven
    | failed reason => exact hgiven
    | timedOut => exact hgiven
  | @more l l' l'' first rest chunks last hread hreads ih =>
    have hnow : before.flatten ++ first :: rest = (before ++ [first :: rest]).flatten := by
      rw [List.flatten_append, List.flatten_singleton]
    have hall : before ++ (first :: rest) :: chunks = before ++ [first :: rest] ++ chunks := by
      rw [List.append_assoc, List.singleton_append]
    have hlength : (before ++ [first :: rest]).length = before.length + 1 := List.length_append
    rw [hall] at hgoes ⊢
    rw [await_of_data hread, hnow]
    have hgathered := gathered_append (before ++ [first :: rest]) chunks
    have hi : (before ++ [first :: rest]).length ≤ (before ++ [first :: rest] ++ chunks).length :=
      (List.prefix_append ..).length_le
    have hbefore : ∀ j < (before ++ [first :: rest]).length,
        ¬ Stops (gathered (before ++ [first :: rest] ++ chunks) j) :=
      fun j hj => hgoes j (by omega)
    rw [← hgathered]
    split
    · rename_i hack
      exact .acknowledged hi (acknowledgesRegistration_iff_marked.1 hack) hbefore
    · rename_i hack
      rw [acknowledgesRegistration_iff_marked] at hack
      split
      · rename_i hstops
        rw [List.contains_iff_mem] at hstops
        exact .refused hi hack hstops hbefore
      · rename_i hstops
        rw [List.contains_iff_mem] at hstops
        rw [hgathered] at hack ⊢
        refine ih _ hack fun j hj => ?_
        rcases Nat.lt_or_eq_of_le hj with hj | rfl
        · exact hbefore j hj
        · exact hstops

theorem perform_of_write {trader : Trader}
    (hwrite : l.write deadline (Command.register trader).bytes = (.done, l')) :
    perform trader deadline l = await deadline [] l' := by
  rw [perform, hwrite]

namespace Decided

theorem ok_iff (h : Decided chunks last result) :
    result = .ok () ↔
      ∃ i ≤ chunks.length, Marked (gathered chunks i) ∧ ∀ j < i, ¬ Stops (gathered chunks j) := by
  cases h with
  | acknowledged hi hmark hgoes => exact iff_of_true rfl ⟨_, hi, hmark, hgoes⟩
  | @refused i _ hmark hstops _ =>
    refine iff_of_false nofun ?_
    rintro ⟨k, -, hmark', hgoes⟩
    rcases Nat.lt_or_ge i k with hk | hk
    · exact hgoes i hk hstops
    · exact hmark (hmark'.mono (prefix_gathered chunks hk))
  | unstopped hmark _ =>
    refine iff_of_false nofun ?_
    rintro ⟨k, hk, hmark', -⟩
    exact hmark (hmark'.mono (gathered_prefix_flatten hk))

theorem of_stops (h : Decided chunks last result) (hne : result ≠ .ok ()) (hi : i ≤ chunks.length)
    (hstops : Stops (gathered chunks i)) (hfirst : ∀ j < i, ¬ Stops (gathered chunks j)) :
    result = .error (unrecognized (gathered chunks i)) := by
  cases h with
  | acknowledged => exact absurd rfl hne
  | @refused k _ _ hstops' hgoes =>
    have heq : k = i := Nat.le_antisymm (Nat.le_of_not_lt fun hk => hgoes i hk hstops)
      (Nat.le_of_not_lt fun hk => hfirst k hk hstops')
    rw [heq]
  | unstopped _ hgoes => exact absurd hstops (hgoes i hi)

theorem of_goes (h : Decided chunks last result) (hne : result ≠ .ok ())
    (hgoes : ∀ j ≤ chunks.length, ¬ Stops (gathered chunks j)) :
    result = .error (atEnd chunks.flatten last) := by
  cases h with
  | acknowledged => exact absurd rfl hne
  | refused hi _ hstops _ => exact absurd hstops (hgoes _ hi)
  | unstopped => rfl

end Decided

/-- A part of a line that fits the buffer stops reading only if it is the whole. -/
theorem eq_flatten_of_stops {line : Bytes} (hlength : line.length ≤ ackLimit)
    (hline : newline ∉ line.dropLast) (hinit : received <+: line) (h : Stops received) :
    received = line := by
  refine hinit.eq_of_length_le (Nat.le_of_not_lt fun hlt => ?_)
  have hdrop : received <+: line.dropLast := by
    refine List.prefix_of_prefix_length_le hinit (List.dropLast_prefix line) ?_
    rw [List.length_dropLast]
    omega
  rcases h with h | h
  · exact hline (hdrop.subset h)
  · omega

theorem stopped_of_stops {failure : RegistrationFailure} (h : Stops received) :
    stopped received failure = unrecognized received := by
  have hne : received.isEmpty = false := by
    rcases h with h | h
    · exact List.isEmpty_eq_false_iff.2 (List.ne_nil_of_mem h)
    · exact List.isEmpty_eq_false_iff.2 (List.ne_nil_of_length_pos (Nat.lt_of_lt_of_le (by decide) h))
  rw [stopped, hne, if_neg Bool.false_ne_true]

/-- An answer of one line that fits the buffer is judged as a whole. -/
theorem Decided.of_line (h : Decided chunks last result) (hlast : last = .ended ∨ last = .timedOut)
    (hlength : chunks.flatten.length ≤ ackLimit) (hline : newline ∉ chunks.flatten.dropLast) :
    (result = .ok () ↔ Marked chunks.flatten) ∧
      (result ≠ .ok () → result = .error (atEnd chunks.flatten last)) := by
  have hwhole {i : Nat} (hi : i ≤ chunks.length) (hstops : Stops (gathered chunks i)) :
      gathered chunks i = chunks.flatten :=
    eq_flatten_of_stops hlength hline (gathered_prefix_flatten hi) hstops
  cases h with
  | acknowledged hi hmark _ =>
    exact ⟨iff_of_true rfl (hmark.mono (gathered_prefix_flatten hi)), fun hne => absurd rfl hne⟩
  | refused hi hmark hstops _ =>
    have heq := hwhole hi hstops
    rw [heq] at hmark hstops ⊢
    refine ⟨iff_of_false nofun hmark, fun _ => ?_⟩
    rcases hlast with rfl | rfl
    · rw [atEnd, stopped_of_stops hstops]
    · rw [atEnd, stopped_of_stops hstops]
  | unstopped hmark _ => exact ⟨iff_of_false nofun hmark, fun _ => rfl⟩

/-- A registration that was written in full succeeds exactly if the mark stands in what some reads
have brought and no fewer reads stopped. Else the first reads that stop are the answer, and if none
do, the end of reading decides. An answer of one line that fits the buffer is judged as a whole,
however it is cut into reads. -/
theorem perform_of_reads (trader : Trader)
    (hwrite : l.write deadline (Command.register trader).bytes = (.done, l'))
    (hreads : Link.Reads deadline l' chunks last l'') :
    let result := (perform trader deadline l).1
    (result = .ok () ↔ ∃ i ≤ chunks.length,
      Marked (gathered chunks i) ∧ ∀ j < i, ¬ Stops (gathered chunks j)) ∧
    (∀ i ≤ chunks.length, result ≠ .ok () → Stops (gathered chunks i) →
      (∀ j < i, ¬ Stops (gathered chunks j)) →
      result = .error (.unrecognized (Text.trimEnd (Utf8.lossy (gathered chunks i))))) ∧
    ((∀ i ≤ chunks.length, ¬ Stops (gathered chunks i)) → result ≠ .ok () →
      result = .error (atEnd chunks.flatten last)) ∧
    (last = .ended ∨ last = .timedOut → chunks.flatten.length ≤ ackLimit →
      newline ∉ chunks.flatten.dropLast →
      (result = .ok () ↔ Marked chunks.flatten) ∧
        (result ≠ .ok () → result = .error (atEnd chunks.flatten last))) := by
  have hdecided : Decided chunks last (perform trader deadline l).1 := by
    rw [perform_of_write hwrite]
    refine decided_await hreads [] ?_ ?_
    · exact fun h => absurd (List.infix_nil.1 h) (by decide)
    · rintro j hj (h | h)
      · cases Nat.le_zero.1 hj
        cases h
      · cases Nat.le_zero.1 hj
        exact absurd h (by decide : ¬ ackLimit ≤ ([] : Bytes).length)
  refine ⟨hdecided.ok_iff, fun i hi hne hstops hfirst => hdecided.of_stops hne hi hstops hfirst,
    fun hgoes hne => hdecided.of_goes hne hgoes, fun hlast hlength hline => ?_⟩
  exact hdecided.of_line hlast hlength hline

/-- The mark may be cut in two. -/
theorem perform_of_reads_cut :
    let chunks := [Utf8.encode "REGIS", Utf8.encode "TERED:a\n"]
    let l : Link := ⟨0, .opening { Peer.quiet with
      replies := [[⟨1, .data (Utf8.encode "REGIS")⟩, ⟨2, .data (Utf8.encode "TERED:a\n")⟩]] } 0⟩
    let written := l.write 1000 (Command.register ⟨"a"⟩).bytes
    written.1 = .done ∧ (∃ l', Link.Reads 1000 written.2 chunks .timedOut l') ∧
      (perform ⟨"a"⟩ 1000 l).1 = .ok () := by
  intro chunks l written
  obtain ⟨hdone, hended, hqueue⟩ : written.1 = .done ∧ written.2.connection.ended = false ∧
      written.2.connection.queue = [(1, Utf8.encode "REGIS"), (2, Utf8.encode "TERED:a\n")].map
        fun part => ⟨part.1, .data part.2⟩ := by
    decide +kernel
  obtain ⟨l', hreads⟩ := Link.exists_reads_of_queue 1000 (by decide) hended hqueue
  obtain ⟨-, -, -, hline⟩ := perform_of_reads ⟨"a"⟩ (Prod.ext hdone rfl) hreads
  have hmark : Marked chunks.flatten := ⟨[], Utf8.encode ":a\n", by decide⟩
  exact ⟨hdone, ⟨l', hreads⟩, (hline (.inr rfl) (by decide) (by decide)).1.2 hmark⟩

end MarketLoad.Registration
