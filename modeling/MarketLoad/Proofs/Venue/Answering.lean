import MarketLoad.Proofs.Venue.Delivery
import MarketLoad.Proofs.Venue.Reading
import MarketLoad.Proofs.Venue.Time

/-!
# Servers that answer every line

A server that answers every line once, always as much later (`Connection.Answers`), owes the answers
to the lines whose answers its client has not read (`Link.Owes`). The client gets them in the order
of the lines: a command that gets across adds one (`Link.Owes.write`), and a read takes the oldest
(`Link.Owes.of_read`).
-/

namespace MarketLoad.Venue

variable {r now now' : Nat}

/-- A single answer after `r` that one read takes. -/
def isReply (r : Nat) : List Reaction → Bool
  | [⟨after, .data (_ :: rest)⟩] => after == r && rest.length < Link.readLimit
  | _ => false

theorem exists_of_isReply {reactions : List Reaction} (h : isReply r reactions = true) :
    ∃ first rest, reactions = [⟨r, .data (first :: rest)⟩] ∧ rest.length < Link.readLimit := by
  unfold isReply at h
  split at h
  · rw [Bool.and_eq_true, beq_iff_eq, decide_eq_true_iff] at h
    obtain ⟨rfl, hrest⟩ := h
    exact ⟨_, _, rfl, hrest⟩
  · cases h

/-- What is due last is queued last. -/
theorem enqueue_of_le {a : Arrival} {queue : List Arrival} (h : ∀ b ∈ queue, b.due ≤ a.due) :
    enqueue a queue = queue ++ [a] := by
  induction queue with
  | nil => rfl
  | cons b queue ih =>
    obtain ⟨hb, hqueue⟩ := List.forall_mem_cons.1 h
    rw [enqueue, if_pos hb, ih hqueue, List.cons_append]

namespace Connection

variable {c c' : Connection} {line : Bytes} {lines : List Bytes}

/-! ### What a server does about a line -/

/-- The reactions to the line that comes next. -/
def reactionsTo (c : Connection) (line : Bytes) : List Reaction :=
  match c.replies with
  | reactions :: _ => reactions
  | [] =>
    match c.peer.fallback with
    | .fixed reactions => reactions
    | .habit habit after => (habitReactions habit after c.numbered line).1

/-- What the reactions of a server depend on. -/
def server (c : Connection) : Peer × List (List Reaction) × Nat := (c.peer, c.replies, c.numbered)

/-- How many orders a server has numbered after the line that comes next, and whether it has hung
up. -/
def marks (c : Connection) (line : Bytes) : Nat × Bool :=
  match c.replies, c.peer.fallback with
  | [], .habit habit after =>
    let (_, numbers, hangsUp) := habitReactions habit after c.numbered line
    (if numbers then c.numbered + 1 else c.numbered, c.hungUp || hangsUp)
  | _, _ => (c.numbered, c.hungUp)

theorem receive_eq (now : Nat) (c : Connection) (line : Bytes) :
    receive now c line =
      { c with
        receipts := ⟨now, line⟩ :: c.receipts
        queue := enqueueAll now (c.reactionsTo line) c.queue
        replies := c.replies.tail
        numbered := (c.marks line).1
        hungUp := (c.marks line).2 } := by
  obtain ⟨peer, _, _, _, replies, _, _, _, _, _, _⟩ := c
  unfold receive reactionsTo marks
  dsimp only
  cases replies with
  | cons reactions replies => rfl
  | nil =>
    cases peer.fallback with
    | fixed reactions => rfl
    | habit habit after => rfl

theorem server_eq_iff : c.server = c'.server ↔
    c.peer = c'.peer ∧ c.replies = c'.replies ∧ c.numbered = c'.numbered := by
  simp only [server, Prod.mk.injEq]

theorem reactionsTo_congr (h : c.server = c'.server) (line : Bytes) :
    c.reactionsTo line = c'.reactionsTo line := by
  obtain ⟨hpeer, hreplies, hnumbered⟩ := server_eq_iff.1 h
  rw [reactionsTo, reactionsTo, hpeer, hreplies, hnumbered]

theorem numbered_congr (h : c.server = c'.server) (line : Bytes) :
    (c.marks line).1 = (c'.marks line).1 := by
  obtain ⟨hpeer, hreplies, hnumbered⟩ := server_eq_iff.1 h
  rw [marks, marks, hpeer, hreplies, hnumbered]
  split <;> rfl

theorem server_receive (h : c.server = c'.server) (line : Bytes) :
    (receive now c line).server = (receive now' c' line).server := by
  obtain ⟨hpeer, hreplies, -⟩ := server_eq_iff.1 h
  rw [receive_eq, receive_eq, server_eq_iff]
  exact ⟨hpeer, congrArg List.tail hreplies, numbered_congr h line⟩

/-! ### Answering every line -/

/-- Whether these lines, as they come next, are answered once each, after `r`. -/
def answersAll (r : Nat) : Connection → List Bytes → Bool
  | _, [] => true
  | c, line :: lines => isReply r (c.reactionsTo line) && answersAll r (receive 0 c line) lines

/-- The server said nothing of its own accord and answered every line that it received once, after
`r`. -/
def Answers (r : Nat) (c : Connection) : Prop :=
  c.peer.greeting = [] ∧ answersAll r (opening c.peer 0) (c.lines.map (·.line)) = true

instance (r : Nat) (c : Connection) : Decidable (c.Answers r) :=
  inferInstanceAs (Decidable (_ ∧ _))

/-- The server is where the lines that it received have taken it. -/
def Tracks (c : Connection) : Prop :=
  c.server = ((c.lines.map (·.line)).foldl (receive 0) (opening c.peer 0)).server

theorem answersAll_append (c : Connection) (lines lines' : List Bytes) :
    answersAll r c (lines ++ lines') =
      (answersAll r c lines && answersAll r (lines.foldl (receive 0) c) lines') := by
  induction lines generalizing c with
  | nil => rfl
  | cons line lines ih =>
    rw [List.cons_append, answersAll, answersAll, ih, List.foldl_cons, Bool.and_assoc]

theorem Answers.of_fewer (h : c'.Answers r) (hpeer : c'.peer = c.peer)
    (hlines : c.lines.map (·.line) <+: c'.lines.map (·.line)) : c.Answers r := by
  obtain ⟨hgreeting, hall⟩ := h
  obtain ⟨more, hmore⟩ := hlines
  rw [hpeer] at hgreeting hall
  rw [← hmore, answersAll_append, Bool.and_eq_true] at hall
  exact ⟨hgreeting, hall.1⟩

/-- A server that answered a line owed this one answer to it. -/
theorem Answers.isReply_reactionsTo (h : c'.Answers r) (hc : c.Tracks) (hpeer : c'.peer = c.peer)
    (hlines : c'.lines.map (·.line) = c.lines.map (·.line) ++ [line]) :
    isReply r (c.reactionsTo line) = true := by
  have hall := h.2
  rw [hpeer, hlines, answersAll_append, Bool.and_eq_true, answersAll, Bool.and_eq_true] at hall
  rw [reactionsTo_congr hc]
  exact hall.2.1

theorem lines_receive (now : Nat) (c : Connection) (line : Bytes) :
    (receive now c line).lines = c.lines ++ [⟨now, line⟩] := by
  rw [receive_eq, lines, lines, List.reverse_cons]

theorem lines_of_receive {unfinished : Bytes} {taken : Nat}
    (h : c' = { receive now c line with unfinished, taken }) :
    c'.lines = c.lines ++ [⟨now, line⟩] := by
  rw [h, ← lines_receive]
  rfl

theorem Tracks.receive (h : c.Tracks) (now : Nat) (line : Bytes) : (receive now c line).Tracks := by
  obtain ⟨-, hpeer, -, -⟩ := receive_frame now c line
  rw [Tracks, lines_receive, hpeer, List.map_append, List.foldl_append]
  exact server_receive h line

/-! ### Taking a line -/

theorem take_of_not_mem (now : Nat) {bytes : Bytes} (h : newline ∉ c.unfinished ++ bytes) :
    take now c bytes =
      { c with unfinished := c.unfinished ++ bytes, taken := c.taken + bytes.length } := by
  rw [take, Lines.cut_of_not_mem h]
  rfl

theorem take_line (now : Nat) {body : Bytes} (h : newline ∉ c.unfinished ++ body) :
    ∃ taken, take now c (body ++ [newline]) =
      { receive now c (c.unfinished ++ body) with unfinished := [], taken } := by
  rw [take, ← List.append_assoc, Lines.cut_append h]
  exact ⟨_, rfl⟩

theorem receive_with (now : Nat) (c : Connection) (line unfinished : Bytes) (taken : Nat) :
    receive now { c with unfinished, taken } line =
      { receive now c line with unfinished, taken } := by
  rw [receive_eq, receive_eq]
  rfl

end Connection

namespace Link

variable {k deadline : Nat} {l l' : Link}

theorem portion_le (l : Link) (bytes : Bytes) : l.portion bytes ≤ bytes.length := by
  unfold portion
  split
  · exact Nat.le_refl _
  · exact Nat.min_le_right ..

/-- A write of a line gets it across at its end, or leaves it unfinished. -/
theorem write_line (deadline : Nat) (l : Link) {bytes body : Bytes}
    (hbytes : bytes = body ++ [newline]) (hbody : newline ∉ l.connection.unfinished ++ body) :
    (∃ line taken l', l.write deadline bytes = (.done, l') ∧
      l'.connection = { l.connection.receive l'.now line with unfinished := [], taken }) ∨
    ∃ result unfinished taken l', result ≠ .done ∧ l.write deadline bytes = (result, l') ∧
      l'.connection = { l.connection with unfinished, taken } := by
  induction l, bytes using write.induct deadline generalizing body with
  | case1 l => exact absurd hbytes.symm (List.append_ne_nil_of_right_ne_nil _ (by decide))
  | case2 l bytes hne l' hready hn ih =>
    have hconnection := (ready_of_untilWritable hready).1
    have hwrite := write_of_ready hne hready hn
    have hle := portion_le l' bytes
    have hlength : bytes.length = body.length + 1 := by
      rw [hbytes, List.length_append, List.length_singleton]
    rw [part] at hwrite
    rw [← hconnection] at hbody ⊢
    generalize l'.portion bytes = n at hwrite hle ih
    rcases Nat.lt_or_eq_of_le hle with hlt | rfl
    · -- The part ends before the newline.
      have hn : n ≤ body.length := by omega
      have htake : bytes.take n = body.take n := by
        rw [hbytes, List.take_append_of_le_length hn]
      have hdrop : bytes.drop n = body.drop n ++ [newline] := by
        rw [hbytes, List.drop_append_of_le_length hn]
      have hsplit : l'.connection.unfinished ++ body.take n ++ body.drop n =
          l'.connection.unfinished ++ body := by
        rw [List.append_assoc, List.take_append_drop]
      have hshort : newline ∉ l'.connection.unfinished ++ body.take n :=
        fun hm => hbody (hsplit ▸ List.mem_append_left _ hm)
      have htook := Connection.take_of_not_mem l'.now hshort
      rw [htake, htook] at hwrite ih
      obtain ⟨line, taken, l'', hdone, hline⟩ | ⟨result, unfinished, taken, l'', hresult, hfailed,
        hline⟩ := ih hdrop (hsplit.symm ▸ hbody)
      · refine .inl ⟨line, taken, l'', hwrite.trans hdone, ?_⟩
        rw [hline, Connection.receive_with]
      · exact .inr ⟨result, unfinished, taken, l'', hresult, hwrite.trans hfailed, hline⟩
    · rw [List.drop_length, write_nil] at hwrite
      obtain ⟨taken, htook⟩ := Connection.take_line l'.now hbody
      refine .inl ⟨l'.connection.unfinished ++ body, taken, _, hwrite, ?_⟩
      rw [List.take_length, hbytes]
      exact htook
  | case3 l bytes hne l' hready hn =>
    have hconnection := (ready_of_untilWritable hready).1
    have hfailed : Written.failed "write zero" ≠ .done := fun h => by cases h
    exact .inr ⟨_, _, _, l', hfailed, write_of_full hne hready hn, hconnection⟩
  | case4 l bytes hne result l' hresult h =>
    have hconnection := connection_untilWritable deadline l
    rw [h] at hconnection
    exact .inr ⟨_, _, _, _, hresult, write_of_not_ready hne hresult h, hconnection⟩

/-- What gets across later adds lines. -/
theorem Carries.prefix_lines {ds : List Delivery} (h : Carries l ds l')
    (hcut : l.connection.IsCut) :
    l.connection.lines.map (·.line) <+: l'.connection.lines.map (·.line) := by
  have hlines := congrArg Prod.fst (Connection.cut_stream hcut)
  have hlines' := congrArg Prod.fst (Connection.cut_stream (h.isCut hcut))
  rw [h.stream] at hlines'
  dsimp only at hlines hlines'
  rw [← hlines, ← hlines']
  exact Lines.cut_prefix ..

theorem Carries.answers {ds : List Delivery} (h : Carries l ds l') (hcut : l.connection.IsCut)
    (hanswers : l'.connection.Answers r) : l.connection.Answers r :=
  hanswers.of_fewer h.peer (h.prefix_lines hcut)

/-! ### Answers that are owed -/

/-- Of the answers of a server that answers every line after `r`, some have been read; the others
wait, each until it is due. -/
structure Owes (r : Nat) (answered : Nat) (l : Link) : Prop where
  ended : l.connection.ended = false
  isCut : l.connection.IsCut
  tracks : l.connection.Tracks
  times : ∀ receipt ∈ l.connection.lines, receipt.time ≤ l.now
  answered_le : answered ≤ l.connection.lines.length
  dues : l.connection.queue.map (·.due) = (l.connection.lines.drop answered).map (·.time + r)
  replies : ∀ a ∈ l.connection.queue, ∃ first rest,
    a.event = .data (first :: rest) ∧ rest.length < readLimit

namespace Owes

variable {answered : Nat}

theorem opening {peer : Peer} (r now : Nat) (h : peer.greeting = []) :
    Owes r 0 ⟨now, .opening peer now⟩ where
  ended := rfl
  isCut := .opening peer now
  tracks := rfl
  times _ hm := nomatch hm
  answered_le := Nat.le_refl 0
  dues := by rw [Connection.opening, h]; rfl
  replies := by rw [Connection.opening, h]; nofun

theorem expire (h : Owes r answered l) (time : Nat) : Owes r answered (l.expire time) :=
  { h with times := fun receipt hm => Nat.le_trans (h.times receipt hm) (now_le_expire time l) }

theorem due_le (h : Owes r answered l) {a : Arrival} (ha : a ∈ l.connection.queue) :
    a.due ≤ l.now + r := by
  have hdue := List.mem_map_of_mem (f := (·.due)) ha
  rw [h.dues] at hdue
  obtain ⟨receipt, hreceipt, hdue⟩ := List.mem_map.1 hdue
  rw [← hdue]
  exact Nat.add_le_add_right (h.times receipt (List.mem_of_mem_drop hreceipt)) r

/-- Bytes of a line that does not get across change nothing. -/
theorem leave (h : Owes r answered l) {unfinished : Bytes} {taken : Nat} (hnow : l.now ≤ l'.now)
    (hcut : l'.connection.IsCut)
    (hsame : l'.connection = { l.connection with unfinished, taken }) : Owes r answered l' where
  ended := by rw [hsame]; exact h.ended
  isCut := hcut
  tracks := by rw [hsame]; exact h.tracks
  times := by
    rw [hsame]
    exact fun receipt hm => Nat.le_trans (h.times receipt hm) hnow
  answered_le := by rw [hsame]; exact h.answered_le
  dues := by rw [hsame]; exact h.dues
  replies := by rw [hsame]; exact h.replies

/-- A line that gets across adds an answer that is owed. -/
theorem receive (h : Owes r answered l) {line unfinished : Bytes} {taken : Nat}
    (hnow : l.now ≤ l'.now) (hcut : l'.connection.IsCut)
    (hreply : isReply r (l.connection.reactionsTo line) = true)
    (hline : l'.connection = { l.connection.receive l'.now line with unfinished, taken }) :
    Owes r answered l' := by
  have hlines := Connection.lines_of_receive hline
  obtain ⟨first, rest, hreactions, hrest⟩ := exists_of_isReply hreply
  have hqueue : l'.connection.queue =
      l.connection.queue ++ [⟨l'.now + r, .data (first :: rest)⟩] := by
    rw [hline, Connection.receive_eq]
    dsimp only
    rw [hreactions]
    exact enqueue_of_le fun b hb => Nat.le_trans (h.due_le hb) (Nat.add_le_add_right hnow r)
  exact {
    ended := by rw [hline, Connection.receive_eq]; exact h.ended
    isCut := hcut
    tracks := by
      have htracks := h.tracks.receive l'.now line
      rw [hline]
      exact htracks
    times := by
      rw [hlines]
      refine List.forall_mem_append.2 ⟨fun receipt hm => Nat.le_trans (h.times receipt hm) hnow, ?_⟩
      exact List.forall_mem_singleton.2 (Nat.le_refl _)
    answered_le := by
      rw [hlines, List.length_append]
      exact Nat.le_trans h.answered_le (Nat.le_add_right ..)
    dues := by
      rw [hqueue, hlines, List.drop_append_of_le_length h.answered_le, List.map_append,
        List.map_append, h.dues]
      rfl
    replies := by
      rw [hqueue]
      exact List.forall_mem_append.2
        ⟨h.replies, List.forall_mem_singleton.2 ⟨first, rest, rfl, hrest⟩⟩ }

/-- A command that gets across adds an answer that is owed; one that does not changes nothing. -/
theorem write (h : Owes r answered l) (deadline : Nat) {command : Command}
    (hsafe : command.IsWireSafe) :
    (∃ l' own, l.write deadline command.bytes = (.done, l') ∧ own.time = l'.now ∧
      l'.connection.lines = l.connection.lines ++ [own] ∧ l'.connection.IsCut ∧
      (l'.connection.Answers r → Owes r answered l')) ∨
    ∃ result l', result ≠ .done ∧ l.write deadline command.bytes = (result, l') ∧
      l'.connection.lines = l.connection.lines ∧ Owes r answered l' := by
  have hnow := l.now_le_write deadline command.bytes
  obtain ⟨d, -, hcarries, -⟩ := exists_delivery deadline l command
  have hcut := hcarries.isCut h.isCut
  have hpeer := hcarries.peer
  have hbody : newline ∉ l.connection.unfinished ++ command.body := fun hm =>
    (List.mem_append.1 hm).elim h.isCut.2 (Command.newline_not_mem_body hsafe)
  obtain ⟨line, taken, l', hwrite, hline⟩ | ⟨result, unfinished, taken, l', hresult, hwrite, hline⟩ :=
    write_line deadline l command.bytes_eq hbody
  · rw [hwrite] at hnow hcut hpeer
    have hlines := Connection.lines_of_receive hline
    refine .inl ⟨l', ⟨l'.now, line⟩, hwrite, rfl, hlines, hcut, fun hanswers => ?_⟩
    have hmap : l'.connection.lines.map (·.line) = l.connection.lines.map (·.line) ++ [line] := by
      rw [hlines, List.map_append, List.map_singleton]
    have hreply := hanswers.isReply_reactionsTo h.tracks hpeer hmap
    exact h.receive hnow hcut hreply hline
  · rw [hwrite] at hnow hcut
    exact .inr ⟨result, l', hresult, hwrite, by rw [hline]; rfl, h.leave hnow hcut hline⟩

/-- A read takes the oldest answer that is owed, if it comes in time, and else nothing. -/
theorem of_read (h : Owes r answered l) {result : Received}
    (hread : l.read deadline = (result, l')) :
    l'.connection.lines = l.connection.lines ∧
      ((∃ first rest oldest, result = .data first rest ∧
        l.connection.lines[answered]? = some oldest ∧ oldest.time + r ≤ max l.now deadline ∧
        l'.now = max l.now (oldest.time + r) ∧ Owes r (answered + 1) l') ∨
      result = .timedOut ∧ Owes r answered l' ∧
        ∀ oldest, l.connection.lines[answered]? = some oldest →
          max l.now deadline < oldest.time + r) := by
  have hdues := h.dues
  cases hqueue : l.connection.queue with
  | nil =>
    rw [hqueue, List.map_nil] at hdues
    have hnone : l.connection.lines.drop answered = [] := List.map_eq_nil_iff.1 hdues.symm
    cases hread.symm.trans (read_of_empty h.ended hqueue)
    refine ⟨rfl, .inr ⟨rfl, h.expire deadline, fun oldest holdest => ?_⟩⟩
    have hlt := (List.getElem?_eq_some_iff.1 holdest).1
    exact absurd (List.drop_eq_nil_iff.1 hnone) (Nat.not_le.2 hlt)
  | cons a queue =>
    rw [hqueue, List.map_cons] at hdues
    obtain ⟨first, rest, hevent, hrest⟩ := h.replies a (hqueue ▸ List.mem_cons_self)
    obtain ⟨oldest, lines, hlines, hdue, hlater⟩ := List.map_eq_cons_iff.1 hdues.symm
    have holdest : l.connection.lines[answered]? = some oldest := by
      rw [← List.head?_drop, hlines, List.head?_cons]
    by_cases hlate : l.now < a.due ∧ deadline < a.due
    · cases hread.symm.trans (read_of_late h.ended hqueue hlate.1 hlate.2)
      refine ⟨rfl, .inr ⟨rfl, h.expire deadline, fun receipt hreceipt => ?_⟩⟩
      obtain rfl : oldest = receipt := Option.some.inj (holdest.symm.trans hreceipt)
      rw [hdue]
      exact Nat.max_lt.2 hlate
    · have hsoon : a.due ≤ l.now ∨ a.due ≤ deadline := by omega
      obtain ⟨due, event⟩ := a
      obtain rfl : event = .data (first :: rest) := hevent
      obtain rfl : oldest.time + r = due := hdue
      cases hread.symm.trans (read_of_queue h.ended hqueue hsoon hrest)
      refine ⟨rfl, .inl ⟨first, rest, oldest, rfl, holdest, ?_, rfl, ?_⟩⟩
      · exact hsoon.elim (fun h => Nat.le_trans h (Nat.le_max_left ..))
          fun h => Nat.le_trans h (Nat.le_max_right ..)
      · exact {
          ended := rfl
          isCut := h.isCut
          tracks := h.tracks
          times := fun receipt hm => Nat.le_trans (h.times receipt hm) (Nat.le_max_left ..)
          answered_le := (List.getElem?_eq_some_iff.1 holdest).1
          dues := by
            rw [← List.tail_drop]
            change queue.map (·.due) = (l.connection.lines.drop answered).tail.map _
            rw [hlines]
            exact hlater.symm
          replies := fun b hb => h.replies b (hqueue ▸ List.mem_cons_of_mem _ hb) }

theorem of_data (h : Owes r answered l) {first : UInt8} {rest : Bytes}
    (hread : l.read deadline = (.data first rest, l')) :
    l'.connection.lines = l.connection.lines ∧ Owes r (answered + 1) l' := by
  obtain ⟨hlines, ⟨_, _, _, -, -, -, -, howes⟩ | ⟨hresult, -⟩⟩ := h.of_read hread
  · exact ⟨hlines, howes⟩
  · cases hresult

end Owes

end Link

end MarketLoad.Venue
