import MarketLoad.Proofs.Venue.Writing

/-!
# Connections at a later time

A connection and a link may be moved to a later time as a whole (`Link.later`). The server and the
client only ever compare times and wait for spans, so whatever happens on a link happens on the
moved link in the same way and as much later: writing (`Link.write_later`), reading
(`Link.read_later`) and saying farewell (`Link.farewell_later`).
-/

namespace MarketLoad.Venue

variable {t : Nat}

def Arrival.later (t : Nat) (a : Arrival) : Arrival := { a with due := a.due + t }

def Receipt.later (t : Nat) (r : Receipt) : Receipt := { r with time := r.time + t }

def Connection.later (t : Nat) (c : Connection) : Connection :=
  { c with
    opened := c.opened + t
    queue := c.queue.map (·.later t)
    receipts := c.receipts.map (·.later t) }

def Link.later (t : Nat) (l : Link) : Link :=
  { now := l.now + t, connection := l.connection.later t }

theorem enqueue_later (a : Arrival) (queue : List Arrival) :
    enqueue (a.later t) (queue.map (·.later t)) = (enqueue a queue).map (·.later t) := by
  induction queue with
  | nil => rfl
  | cons b queue ih =>
    have hdue : (b.later t).due ≤ (a.later t).due ↔ b.due ≤ a.due := Nat.add_le_add_iff_right
    simp only [enqueue, List.map_cons, hdue]
    split
    · rw [ih]; rfl
    · rfl

theorem enqueueAll_later (time : Nat) (reactions : List Reaction) (queue : List Arrival) :
    enqueueAll (time + t) reactions (queue.map (·.later t)) =
      (enqueueAll time reactions queue).map (·.later t) := by
  induction reactions generalizing queue with
  | nil => rfl
  | cons r reactions ih =>
    have hdue : (⟨time + t + r.after, r.event⟩ : Arrival) =
        Arrival.later t ⟨time + r.after, r.event⟩ := by
      rw [Arrival.later, Nat.add_right_comm]
    have hhead := ih (enqueue ⟨time + r.after, r.event⟩ queue)
    rw [← enqueue_later, ← hdue] at hhead
    exact hhead

namespace Connection

variable {now : Nat} {c : Connection}

theorem opening_later (peer : Peer) (now : Nat) :
    opening peer (now + t) = (opening peer now).later t := by
  have hqueue : enqueueAll (now + t) peer.greeting [] =
      (enqueueAll now peer.greeting []).map (·.later t) := enqueueAll_later now peer.greeting []
  rw [opening, hqueue]
  rfl

theorem receive_later (now : Nat) (c : Connection) (line : Bytes) :
    receive (now + t) (c.later t) line = (receive now c line).later t := by
  have hqueue (reactions) : enqueueAll (now + t) reactions (c.later t).queue =
      (enqueueAll now reactions c.queue).map (·.later t) := enqueueAll_later now reactions c.queue
  unfold receive
  cases hreplies : c.replies with
  | cons reactions replies =>
    simp only [hqueue, show (c.later t).replies = _ from hreplies]
    rfl
  | nil =>
    simp only [hqueue, show (c.later t).replies = _ from hreplies]
    cases hfallback : c.peer.fallback with
    | fixed reactions => simp only [show (c.later t).peer.fallback = _ from hfallback]; rfl
    | habit habit after => simp only [show (c.later t).peer.fallback = _ from hfallback]; rfl

theorem foldl_receive_later (now : Nat) (c : Connection) (lines : List Bytes) :
    lines.foldl (receive (now + t)) (c.later t) = (lines.foldl (receive now) c).later t := by
  induction lines generalizing c with
  | nil => rfl
  | cons line lines ih => rw [List.foldl_cons, List.foldl_cons, receive_later, ih]

theorem take_later (now : Nat) (c : Connection) (bytes : Bytes) :
    take (now + t) (c.later t) bytes = (take now c bytes).later t := by
  simp only [take, foldl_receive_later]
  rfl

theorem granted_later (now : Nat) (c : Connection) :
    (c.later t).granted (now + t) = c.granted now := by
  have hopens (r : Refill) : c.opened + t + r.opens ≤ now + t ↔ c.opened + r.opens ≤ now := by omega
  simp only [granted, later, hopens]

theorem isFull_later (now : Nat) (c : Connection) :
    (c.later t).isFull (now + t) = c.isFull now := by
  rw [isFull, granted_later]
  rfl

theorem room_later (now : Nat) (c : Connection) : (c.later t).room (now + t) = c.room now := by
  rw [room, granted_later]
  rfl

theorem nextRefill?_later (now : Nat) (c : Connection) :
    (c.later t).nextRefill? (now + t) = (c.nextRefill? now).map (· + t) := by
  have htimes : (c.peer.refills.map ((c.later t).opened + ·.opens)) =
      (c.peer.refills.map (c.opened + ·.opens)).map (· + t) := by
    rw [List.map_map]
    exact List.map_congr_left fun r _ => Nat.add_right_comm ..
  have hfilter (times : List Nat) : (times.map (· + t)).filter (now + t < ·) =
      (times.filter (now < ·)).map (· + t) := by
    rw [List.filter_map]
    congr 2
    funext time
    simp only [Function.comp_apply, Nat.add_lt_add_iff_right]
  have hmin (times : List Nat) : (times.map (· + t)).min? = times.min?.map (· + t) := by
    cases times with
    | nil => rfl
    | cons time times =>
      simp only [List.map_cons, List.min?_cons', Option.map_some, Option.some.injEq]
      induction times generalizing time with
      | nil => rfl
      | cons time' times ih =>
        rw [List.map_cons, List.foldl_cons, List.foldl_cons, Nat.add_min_add_right, ih]
  change ((c.peer.refills.map ((c.later t).opened + ·.opens)).filter (now + t < ·)).min? = _
  rw [htimes, hfilter, hmin]
  rfl

def Readiness.later (t : Nat) : Readiness → Readiness
  | .ready => .ready
  | .failing reason => .failing reason
  | .waiting until? => .waiting (until?.map (· + t))

theorem readiness_later (now : Nat) (c : Connection) :
    (c.later t).readiness (now + t) = (c.readiness now).later t := by
  have hage : now + t - (c.later t).opened = now - c.opened := Nat.add_sub_add_right ..
  have hhungUp : (c.later t).hungUp = c.hungUp := rfl
  have hwindows : (c.later t).peer.windows = c.peer.windows := rfl
  unfold readiness
  simp only [hhungUp, hage, hwindows, isFull_later, nextRefill?_later]
  cases c.hungUp with
  | true => rfl
  | false =>
    simp only [Bool.false_eq_true, if_false]
    split
    · rfl
    · rfl
    · rename_i closes _
      have hcloses : closes.map (c.opened + t + ·) = (closes.map (c.opened + ·)).map (· + t) := by
        rw [Option.map_map]
        exact congrArg (closes.map ·) (funext fun _ => Nat.add_right_comm ..)
      exact congrArg Readiness.waiting hcloses
    · cases c.isFull now <;> rfl

end Connection

namespace Link

theorem expire_later (deadline : Nat) (l : Link) :
    (l.later t).expire (deadline + t) = (l.expire deadline).later t := by
  simp only [expire, later, Nat.add_max_add_right]

theorem untilWritable_later (deadline : Nat) (l : Link) :
    untilWritable (deadline + t) (l.later t) = Prod.map id (later t) (untilWritable deadline l) := by
  have hreadiness (l : Link) : (l.later t).connection.readiness (l.later t).now =
      (l.connection.readiness l.now).later t := Connection.readiness_later ..
  induction l using untilWritable.induct deadline with
  | case1 l h =>
    rw [untilWritable, untilWritable, hreadiness, h]; rfl
  | case2 l reason h =>
    rw [untilWritable, untilWritable, hreadiness, h]; rfl
  | case3 l h =>
    rw [untilWritable, untilWritable, hreadiness, h]
    exact congrArg (Prod.mk _) (expire_later ..)
  | case4 l time h hlt ih =>
    have hlt' : (l.later t).now < time + t ∧ time + t ≤ deadline + t := by
      simp only [later]; omega
    rw [untilWritable, untilWritable, hreadiness, h]
    simp only [Connection.Readiness.later, Option.map_some, dif_pos hlt, dif_pos hlt']
    exact ih
  | case5 l time h hlt =>
    have hlt' : ¬ ((l.later t).now < time + t ∧ time + t ≤ deadline + t) := by
      simp only [later]; omega
    rw [untilWritable, untilWritable, hreadiness, h]
    simp only [Connection.Readiness.later, Option.map_some, dif_neg hlt, dif_neg hlt']
    exact congrArg (Prod.mk _) (expire_later ..)

theorem portion_later (l : Link) (bytes : Bytes) : (l.later t).portion bytes = l.portion bytes := by
  have hroom : (l.later t).connection.room (l.later t).now = l.connection.room l.now :=
    Connection.room_later ..
  rw [portion, portion, hroom]

/-- A write on a link at a later time goes the same way, as much later. -/
theorem write_later (deadline : Nat) (l : Link) (bytes : Bytes) :
    write (deadline + t) (l.later t) bytes = Prod.map id (later t) (write deadline l bytes) := by
  induction l, bytes using write.induct deadline with
  | case1 l => rw [write_nil, write_nil]; rfl
  | case2 l bytes hne l' hready hn ih =>
    have hready' : untilWritable (deadline + t) (l.later t) = (.done, l'.later t) := by
      rw [untilWritable_later, hready]; rfl
    have hn' : 0 < (l'.later t).portion bytes := by rwa [portion_later]
    have hpart : (l'.later t).part bytes = (l'.part bytes).later t := by
      rw [part, portion_later]
      exact congrArg (Link.mk _) (Connection.take_later ..)
    rw [write_of_ready hne hready hn, write_of_ready hne hready' hn', hpart, portion_later]
    exact ih
  | case3 l bytes hne l' hready hn =>
    have hready' : untilWritable (deadline + t) (l.later t) = (.done, l'.later t) := by
      rw [untilWritable_later, hready]; rfl
    have hn' : ¬ 0 < (l'.later t).portion bytes := by rwa [portion_later]
    rw [write_of_full hne hready hn, write_of_full hne hready' hn']; rfl
  | case4 l bytes hne result l' hresult h =>
    have h' : untilWritable (deadline + t) (l.later t) = (result, l'.later t) := by
      rw [untilWritable_later, h]; rfl
    rw [write_of_not_ready hne hresult h, write_of_not_ready hne hresult h']; rfl

/-- Moves what was read from a queue to a later time. -/
private def laterRead (t : Nat) (r : Received × Nat × List Arrival × Bool) :
    Received × Nat × List Arrival × Bool :=
  (r.1, r.2.1 + t, r.2.2.1.map (·.later t), r.2.2.2)

private theorem readQueue_later (deadline now : Nat) (queue : List Arrival) :
    readQueue (deadline + t) (now + t) (queue.map (·.later t)) =
      laterRead t (readQueue deadline now queue) := by
  induction queue generalizing now with
  | nil =>
    simp only [List.map_nil, readQueue, laterRead, Nat.add_max_add_right]
  | cons a queue ih =>
    obtain ⟨due, event⟩ := a
    have hdue : now + t < due + t ∧ deadline + t < due + t ↔ now < due ∧ deadline < due := by omega
    simp only [List.map_cons, readQueue, Arrival.later, Nat.add_max_add_right, hdue]
    split
    · rfl
    · cases event with
      | ending => rfl
      | breaking reason => rfl
      | data bytes =>
        cases bytes with
        | nil => exact ih _
        | cons b bytes =>
          dsimp only
          cases (bytes.drop (readLimit - 1)).isEmpty <;> rfl

/-- A read on a link at a later time goes the same way, as much later. -/
theorem read_later (deadline : Nat) (l : Link) :
    (l.later t).read (deadline + t) = Prod.map id (later t) (l.read deadline) := by
  have hqueue : readQueue (deadline + t) (l.later t).now (l.later t).connection.queue =
      laterRead t (readQueue deadline l.now l.connection.queue) := readQueue_later ..
  have hended : (l.later t).connection.ended = l.connection.ended := rfl
  rw [read, read, hqueue, hended]
  cases l.connection.ended <;> rfl

theorem read_later_of_eq {deadline : Nat} {l l' : Link} {result : Received}
    (h : l.read deadline = (result, l')) :
    (l.later t).read (deadline + t) = (result, l'.later t) := by
  rw [read_later, h]
  rfl

theorem farewell_later (deadline : Nat) (l : Link) :
    (l.later t).farewell (deadline + t) = (l.farewell deadline).later t := by
  have hpeer : (l.later t).connection.peer = l.connection.peer := rfl
  rw [farewell, farewell, hpeer]
  cases l.connection.peer.farewell with
  | accept => rfl
  | fail => rfl
  | stall => exact expire_later ..

end Link

/-- Connecting at a later time goes the same way, as much later. -/
theorem connect_later (endpoint : String) (peer : Peer) (start deadline : Nat) :
    connect endpoint peer (start + t) (deadline + t) =
      match connect endpoint peer start deadline with
      | .connected l => .connected (l.later t)
      | .failed time failure => .failed (time + t) failure
      | .crashed time text => .crashed (time + t) text := by
  unfold connect
  cases peer.delay with
  | none => rfl
  | some delay =>
    have hnow : start + t + delay = start + delay + t := Nat.add_right_comm ..
    simp only [hnow, Nat.add_lt_add_iff_right]
    split
    · rfl
    · cases peer.reception with
      | accept => exact congrArg (fun c => Attempt.connected ⟨_, c⟩) (Connection.opening_later ..)
      | refuse reason => rfl
      | fail failure => rfl
      | crash text => rfl

end MarketLoad.Venue
