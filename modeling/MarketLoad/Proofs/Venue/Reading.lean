import MarketLoad.Venue.Link

/-!
# Reading on

A client reads on until a read brings no bytes (`Link.Reads`). What waits in a queue in time is read
chunk by chunk as it was sent (`Link.exists_reads_of_queue`), so a stream can come in any cut that the
buffer allows (`Link.exists_reads_ofChunks`).
-/

namespace MarketLoad.Venue.Link

variable {deadline : Nat} {l : Link}

/-- Reading on brings these chunks, one with each read, and ends with a read that brings no bytes. -/
inductive Reads (deadline : Nat) : Link → List Bytes → Received → Link → Prop
  | stop {l l' : Link} {last : Received} (hread : l.read deadline = (last, l'))
    (hlast : ∀ first rest, last ≠ .data first rest) : Reads deadline l [] last l'
  | more {l l' l'' : Link} {first : UInt8} {rest : Bytes} {chunks : List Bytes} {last : Received}
    (hread : l.read deadline = (.data first rest, l')) (hreads : Reads deadline l' chunks last l'') :
    Reads deadline l ((first :: rest) :: chunks) last l''

theorem read_of_queue {due : Nat} {first : UInt8} {rest : Bytes} {queue : List Arrival}
    (hended : l.connection.ended = false)
    (hqueue : l.connection.queue = ⟨due, .data (first :: rest)⟩ :: queue)
    (hdue : due ≤ l.now ∨ due ≤ deadline) (hrest : rest.length < readLimit) :
    l.read deadline =
      (.data first rest, ⟨max l.now due, { l.connection with queue, ended := false }⟩) := by
  have hlate : ¬ (l.now < due ∧ deadline < due) := by omega
  have hle : rest.length ≤ readLimit - 1 := by omega
  rw [read, hended, if_neg Bool.false_ne_true, hqueue, readQueue, if_neg hlate]
  simp only [List.drop_eq_nil_of_le hle, List.take_of_length_le hle, List.isEmpty_nil, if_true]

theorem read_of_empty (hended : l.connection.ended = false) (hqueue : l.connection.queue = []) :
    l.read deadline = (.timedOut, l.expire deadline) := by
  rw [read, hended, if_neg Bool.false_ne_true, hqueue, readQueue, ← hqueue, ← hended]
  rfl

theorem read_of_late {a : Arrival} {queue : List Arrival} (hended : l.connection.ended = false)
    (hqueue : l.connection.queue = a :: queue) (hnow : l.now < a.due) (hdeadline : deadline < a.due) :
    l.read deadline = (.timedOut, l.expire deadline) := by
  rw [read, hended, if_neg Bool.false_ne_true, hqueue, readQueue, if_pos ⟨hnow, hdeadline⟩, ← hqueue,
    ← hended]
  rfl

/-- Chunks that no read has to cut are read as they are, and then nothing. -/
theorem exists_reads_of_queue (deadline : Nat) {parts : List (Nat × Bytes)}
    (hparts : ∀ part ∈ parts, part.1 ≤ deadline ∧ part.2 ≠ [] ∧ part.2.length ≤ readLimit)
    (hended : l.connection.ended = false)
    (hqueue : l.connection.queue = parts.map fun part => ⟨part.1, .data part.2⟩) :
    ∃ l', Reads deadline l (parts.map (·.2)) .timedOut l' := by
  induction parts generalizing l with
  | nil => exact ⟨_, .stop (read_of_empty hended hqueue) nofun⟩
  | cons part parts ih =>
    obtain ⟨due, chunk⟩ := part
    obtain ⟨⟨hdue, hne, hlen⟩, htail⟩ := List.forall_mem_cons.1 hparts
    obtain ⟨first, rest, rfl⟩ := List.exists_cons_of_ne_nil hne
    have hread := read_of_queue hended hqueue (.inr hdue) hlen
    obtain ⟨l', hreads⟩ :=
      ih (l := ⟨max l.now due, { l.connection with queue := _, ended := false }⟩) htail rfl rfl
    exact ⟨l', .more hread hreads⟩

/-- A client for whom these chunks wait. -/
def ofChunks (chunks : List Bytes) : Link :=
  ⟨0, { Connection.opening .quiet 0 with queue := chunks.map fun chunk => ⟨0, .data chunk⟩ }⟩

/-- Every way of cutting a stream can be read. -/
theorem exists_reads_ofChunks {chunks : List Bytes} (deadline : Nat)
    (h : ∀ chunk ∈ chunks, chunk ≠ [] ∧ chunk.length ≤ readLimit) :
    ∃ l', Reads deadline (ofChunks chunks) chunks .timedOut l' := by
  have hparts : ∀ part ∈ chunks.map (0, ·),
      part.1 ≤ deadline ∧ part.2 ≠ [] ∧ part.2.length ≤ readLimit := by
    intro part hpart
    obtain ⟨chunk, hchunk, rfl⟩ := List.mem_map.1 hpart
    exact ⟨Nat.zero_le _, h chunk hchunk⟩
  have hchunks : (chunks.map (0, ·)).map (·.2) = chunks := by
    rw [List.map_map]
    exact List.map_id chunks
  have hqueue : (ofChunks chunks).connection.queue =
      (chunks.map (0, ·)).map fun part => ⟨part.1, .data part.2⟩ := by
    rw [List.map_map]
    rfl
  obtain ⟨l', hreads⟩ := exists_reads_of_queue deadline hparts rfl hqueue
  rw [hchunks] at hreads
  exact ⟨l', hreads⟩

end MarketLoad.Venue.Link
