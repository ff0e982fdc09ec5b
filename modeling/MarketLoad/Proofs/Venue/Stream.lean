import MarketLoad.Proofs.Command
import MarketLoad.Proofs.Text.Lines
import MarketLoad.Proofs.Venue.Writing

/-!
# What reaches the server

Every byte a connection takes is added to its stream (`Connection.stream_take`), which stays cut into
the lines it has received (`Connection.cut_stream`). Where the server makes no further room, a write
that has begun gets all of its bytes across or leaves a connection that takes nothing more
(`Link.done_or_exhausted`, `Link.write_of_exhausted`).
-/

namespace MarketLoad.Venue

namespace Connection

variable {now : Nat} {c : Connection}

/-! ### The stream and its lines -/

/-- The stream is cut where its newlines are. -/
def IsCut (c : Connection) : Prop :=
  (∀ receipt ∈ c.receipts, newline ∉ receipt.line) ∧ newline ∉ c.unfinished

theorem cut_stream (h : c.IsCut) :
    Lines.cut c.stream = (c.lines.map (·.line), c.unfinished) := by
  refine Lines.cut_join (fun line hline => ?_) h.2
  obtain ⟨receipt, hreceipt, rfl⟩ := List.mem_map.1 hline
  exact h.1 receipt (List.mem_reverse.1 hreceipt)

/-- Receiving a line logs it. -/
theorem receive_frame (now : Nat) (c : Connection) (line : Bytes) :
    (receive now c line).receipts = ⟨now, line⟩ :: c.receipts ∧
      (receive now c line).peer = c.peer ∧ (receive now c line).opened = c.opened ∧
      (receive now c line).farewells = c.farewells := by
  unfold receive
  split
  · exact ⟨rfl, rfl, rfl, rfl⟩
  · split
    · exact ⟨rfl, rfl, rfl, rfl⟩
    · exact ⟨rfl, rfl, rfl, rfl⟩

theorem foldl_receive_frame (now : Nat) (c : Connection) (lines : List Bytes) :
    (lines.foldl (receive now) c).receipts =
        (lines.map (Receipt.mk now)).reverse ++ c.receipts ∧
      (lines.foldl (receive now) c).peer = c.peer ∧
      (lines.foldl (receive now) c).opened = c.opened ∧
      (lines.foldl (receive now) c).farewells = c.farewells := by
  induction lines generalizing c with
  | nil => exact ⟨rfl, rfl, rfl, rfl⟩
  | cons line lines ih =>
    obtain ⟨hreceipts, hpeer, hopened, hfarewells⟩ := receive_frame now c line
    obtain ⟨hreceipts', hpeer', hopened', hfarewells'⟩ := ih (receive now c line)
    refine ⟨?_, hpeer'.trans hpeer, hopened'.trans hopened, hfarewells'.trans hfarewells⟩
    rw [List.foldl_cons, hreceipts', hreceipts, List.map_cons, List.reverse_cons,
      List.append_assoc, List.singleton_append]

theorem receipts_take (now : Nat) (c : Connection) (bytes : Bytes) :
    (take now c bytes).receipts =
      ((Lines.cut (c.unfinished ++ bytes)).1.map (Receipt.mk now)).reverse ++ c.receipts :=
  (foldl_receive_frame ..).1

theorem peer_take (now : Nat) (c : Connection) (bytes : Bytes) :
    (take now c bytes).peer = c.peer := (foldl_receive_frame ..).2.1

theorem opened_take (now : Nat) (c : Connection) (bytes : Bytes) :
    (take now c bytes).opened = c.opened := (foldl_receive_frame ..).2.2.1

theorem farewells_take (now : Nat) (c : Connection) (bytes : Bytes) :
    (take now c bytes).farewells = c.farewells := (foldl_receive_frame ..).2.2.2

/-- What is taken is added to the stream. -/
theorem stream_take (now : Nat) (c : Connection) (bytes : Bytes) :
    (take now c bytes).stream = c.stream ++ bytes := by
  have hlines : (take now c bytes).lines.map (·.line) =
      c.lines.map (·.line) ++ (Lines.cut (c.unfinished ++ bytes)).1 := by
    rw [lines, receipts_take, List.reverse_append, List.reverse_reverse, List.map_append,
      List.map_map]
    exact congrArg _ (List.map_id _)
  rw [stream, hlines, Lines.join_append]
  change _ ++ Lines.join _ (Lines.cut (c.unfinished ++ bytes)).2 = _
  rw [Lines.join_cut, stream, Lines.join, List.append_assoc]

theorem IsCut.take (h : c.IsCut) (now : Nat) (bytes : Bytes) : (take now c bytes).IsCut := by
  obtain ⟨hlines, hleft⟩ := Lines.newline_not_mem_cut (c.unfinished ++ bytes)
  refine ⟨fun receipt hm => ?_, hleft⟩
  rw [receipts_take] at hm
  rcases List.mem_append.1 hm with hm | hm
  · obtain ⟨line, hline, rfl⟩ := List.mem_map.1 (List.mem_reverse.1 hm)
    exact hlines line hline
  · exact h.1 receipt hm

theorem IsCut.opening (peer : Peer) (now : Nat) : (opening peer now).IsCut :=
  ⟨fun _ h => absurd h List.not_mem_nil, List.not_mem_nil⟩

/-! ### Connections that take nothing more -/

/-- The server has hung up, or has no room left and never makes any. -/
def Exhausted (c : Connection) : Prop :=
  c.hungUp = true ∨
    c.peer.refills = [] ∧ ∃ capacity, c.peer.capacity = some capacity ∧ capacity ≤ c.taken

theorem readiness_eq_ready_iff :
    c.readiness now = .ready ↔ c.hungUp = false ∧
      c.peer.windows.find? (·.contains (now - c.opened)) = none ∧ c.isFull now = false := by
  unfold readiness
  cases c.hungUp with
  | true => simp
  | false =>
    simp only [Bool.false_eq_true, if_false, true_and]
    split
    · simp_all
    · simp_all
    · simp_all
    · cases c.isFull now <;> simp_all

theorem isFull_iff (hrefills : c.peer.refills = []) :
    c.isFull now = true ↔ ∃ capacity, c.peer.capacity = some capacity ∧ capacity ≤ c.taken := by
  unfold isFull granted
  cases c.peer.capacity with
  | none => simp
  | some capacity => simp [hrefills]

theorem Exhausted.readiness_ne (h : c.Exhausted) (now : Nat) : c.readiness now ≠ .ready := by
  intro hready
  obtain ⟨hhung, -, hfull⟩ := readiness_eq_ready_iff.1 hready
  obtain hhung' | ⟨hrefills, hcapacity⟩ := h
  · rw [hhung] at hhung'
    cases hhung'
  · rw [(isFull_iff hrefills).2 hcapacity] at hfull
    cases hfull

/-- Right after it has taken bytes, a connection takes more or never again. -/
theorem ready_or_exhausted_take (hrefills : c.peer.refills = []) (hready : c.readiness now = .ready)
    (bytes : Bytes) : (take now c bytes).readiness now = .ready ∨ (take now c bytes).Exhausted := by
  obtain ⟨-, hwindows, -⟩ := readiness_eq_ready_iff.1 hready
  by_cases hhung : (take now c bytes).hungUp = true
  · exact .inr (.inl hhung)
  by_cases hfull : (take now c bytes).isFull now = true
  · have hrefills' : (take now c bytes).peer.refills = [] := by rwa [peer_take]
    exact .inr (.inr ⟨hrefills', (isFull_iff hrefills').1 hfull⟩)
  · refine .inl (readiness_eq_ready_iff.2 ⟨Bool.not_eq_true _ ▸ hhung, ?_, Bool.not_eq_true _ ▸ hfull⟩)
    rwa [peer_take, opened_take]

end Connection

namespace Link

variable {deadline : Nat} {l l' : Link} {bytes : Bytes}

/-! ### The bytes of one write -/

theorem connection_untilWritable (deadline : Nat) (l : Link) :
    (untilWritable deadline l).2.connection = l.connection := by
  induction l using untilWritable.induct deadline with
  | case1 l h => rw [untilWritable, h]
  | case2 l reason h => rw [untilWritable, h]
  | case3 l h => rw [untilWritable, h]; rfl
  | case4 l time h hlt ih =>
    rw [untilWritable, h]
    simp only [dif_pos hlt]
    exact ih
  | case5 l time h hlt =>
    rw [untilWritable, h]
    simp only [dif_neg hlt]
    rfl

theorem ready_of_untilWritable (h : untilWritable deadline l = (.done, l')) :
    l'.connection = l.connection ∧ l.connection.readiness l'.now = .ready := by
  have hconnection := connection_untilWritable deadline l
  rw [h] at hconnection
  refine ⟨hconnection, ?_⟩
  induction l using untilWritable.induct deadline with
  | case1 l hready => rw [untilWritable, hready] at h; cases h; exact hready
  | case2 l reason hready => rw [untilWritable, hready] at h; cases h
  | case3 l hready => rw [untilWritable, hready] at h; cases h
  | case4 l time hready hlt ih =>
    rw [untilWritable, hready] at h
    simp only [dif_pos hlt] at h
    exact ih h hconnection
  | case5 l time hready hlt =>
    rw [untilWritable, hready] at h
    simp only [dif_neg hlt] at h
    cases h

theorem untilWritable_of_ready (h : l.connection.readiness l.now = .ready) :
    untilWritable deadline l = (.done, l) := by
  rw [untilWritable, h]

/-- A connection that is ready takes a part of any command, unless it takes no bytes at all. -/
theorem portion_pos_iff (hready : l.connection.readiness l.now = .ready) (hne : bytes ≠ []) :
    0 < l.portion bytes ↔ l.connection.peer.maxWrite ≠ some 0 := by
  have hlength := List.length_pos_iff.2 hne
  obtain ⟨-, -, hfull⟩ := Connection.readiness_eq_ready_iff.1 hready
  unfold portion Connection.room
  unfold Connection.isFull at hfull
  cases hgranted : l.connection.granted l.now with
  | none =>
    cases l.connection.peer.maxWrite with
    | none => simpa using hlength
    | some most => simp only [ne_eq, Option.some.injEq]; omega
  | some granted =>
    simp only [hgranted, decide_eq_false_iff_not, Nat.not_le] at hfull
    cases l.connection.peer.maxWrite with
    | none => simp only [ne_eq, reduceCtorEq, not_false_eq_true, iff_true]; omega
    | some most => simp only [ne_eq, Option.some.injEq]; omega

/-- Nothing is written on an exhausted connection. -/
theorem write_of_exhausted (deadline : Nat) (bytes : Bytes) (h : l.connection.Exhausted) :
    (write deadline l bytes).2.connection = l.connection ∧
      ((write deadline l bytes).1 = .done → bytes = []) := by
  by_cases hne : bytes = []
  · subst hne
    rw [write_nil]
    exact ⟨rfl, fun _ => rfl⟩
  · have hconnection := connection_untilWritable deadline l
    rcases hw : untilWritable deadline l with ⟨result, l'⟩
    have hresult : result ≠ .done := by
      rintro rfl
      exact h.readiness_ne _ (ready_of_untilWritable hw).2
    rw [hw] at hconnection
    rw [write_of_not_ready hne hresult hw]
    exact ⟨hconnection, fun hdone => absurd hdone hresult⟩

/-- Where the server makes no further room, a write that has begun is done or exhausts it. -/
theorem done_or_exhausted (hrefills : l.connection.peer.refills = [])
    (hready : l.connection.readiness l.now = .ready)
    (hmost : l.connection.peer.maxWrite ≠ some 0) :
    (write deadline l bytes).1 = .done ∨ (write deadline l bytes).2.connection.Exhausted := by
  induction l, bytes using write.induct deadline with
  | case1 l => rw [write_nil]; exact .inl rfl
  | case2 l bytes hne l' h hn ih =>
    rw [untilWritable_of_ready hready] at h
    cases h
    rw [write_of_ready hne (untilWritable_of_ready hready) hn]
    obtain hready' | hexhausted := Connection.ready_or_exhausted_take hrefills hready
      (bytes.take (l.portion bytes))
    · refine ih ?_ hready' ?_
      · change (l.connection.take l.now _).peer.refills = []
        rwa [Connection.peer_take]
      · change (l.connection.take l.now _).peer.maxWrite ≠ some 0
        rwa [Connection.peer_take]
    · have hsame := (write_of_exhausted (l := l.part bytes) deadline
        (bytes.drop (l.portion bytes)) hexhausted).1
      rw [hsame]
      exact .inr hexhausted
  | case3 l bytes hne l' h hn =>
    rw [untilWritable_of_ready hready] at h
    cases h
    exact absurd ((portion_pos_iff hready hne).2 hmost) hn
  | case4 l bytes hne result l' hresult h =>
    rw [untilWritable_of_ready hready] at h
    cases h
    exact absurd rfl hresult

end Link

end MarketLoad.Venue
