import MarketLoad.Venue.Connection

/-! # The client's side of a connection

A link is a connection together with the client's clock. The client writes, reads and says
farewell, each until a deadline; time moves straight to the moment at which something becomes
possible or the deadline takes effect. What becomes possible exactly at the deadline still
happens, and even a deadline in the past leaves one try. -/

namespace MarketLoad.Venue

/-- A client on a connection. -/
structure Link where
  now : Nat
  connection : Connection

/-- How a write ended. -/
inductive Written
  | done
  | failed (reason : String)
  | timedOut
deriving DecidableEq, Repr

/-- How a read ended. -/
inductive Received
  /-- Some bytes came, at least one. -/
  | data (first : UInt8) (rest : Bytes)
  /-- The stream has ended. -/
  | ended
  | failed (reason : String)
  | timedOut
deriving DecidableEq, Repr

namespace Link

/-- Waits for a deadline. -/
def expire (l : Link) (deadline : Nat) : Link := { l with now := max l.now deadline }

/-- Waits until a write can be decided: it is ready, it fails, or it times out. -/
def untilWritable (deadline : Nat) (l : Link) : Written × Link :=
  match l.connection.readiness l.now with
  | .ready => (.done, l)
  | .failing reason => (.failed reason, l)
  | .waiting none => (.timedOut, l.expire deadline)
  | .waiting (some time) =>
    if _h : l.now < time ∧ time ≤ deadline then untilWritable deadline { l with now := time }
    else (.timedOut, l.expire deadline)
termination_by deadline - l.now
decreasing_by omega

/-- The number of bytes that one write of a command takes. -/
def portion (l : Link) (bytes : Bytes) : Nat :=
  match l.connection.room l.now with
  | none => bytes.length
  | some room => min room bytes.length

/-- Writes all bytes, part by part. A command may be left half written. -/
def write (deadline : Nat) (l : Link) (bytes : Bytes) : Written × Link :=
  if _h : bytes = [] then (.done, l)
  else
    match untilWritable deadline l with
    | (.done, l) =>
      if _hn : 0 < l.portion bytes then
        write deadline
          { l with connection := l.connection.take l.now (bytes.take (l.portion bytes)) }
          (bytes.drop (l.portion bytes))
      else (.failed "write zero", l)
    | (result, l) => (result, l)
termination_by bytes.length
decreasing_by
  have := List.length_pos_iff.2 _h
  simp only [List.length_drop]
  omega

/-- The most bytes that one read takes. -/
def readLimit : Nat := 1024

/-- Reads from a queue of arrivals: the result, the time of it, the queue left, and whether
the end of the stream was seen. -/
def readQueue (deadline now : Nat) : List Arrival → Received × Nat × List Arrival × Bool
  | [] => (.timedOut, max now deadline, [], false)
  | a :: queue =>
    if now < a.due ∧ deadline < a.due then (.timedOut, max now deadline, a :: queue, false)
    else
      let now := max now a.due
      match a.event with
      | .ending => (.ended, now, queue, true)
      | .breaking reason => (.failed reason, now, queue, false)
      | .data [] => readQueue deadline now queue
      | .data (b :: bytes) =>
        let rest := bytes.drop (readLimit - 1)
        let queue := if rest.isEmpty then queue else { a with event := .data rest } :: queue
        (.data b (bytes.take (readLimit - 1)), now, queue, false)

/-- The bytes that wait in a queue of arrivals. -/
def queueSize : List Arrival → Nat
  | [] => 0
  | a :: queue => a.event.size + queueSize queue

/-- A read that brings bytes takes them off the queue. -/
theorem queueSize_readQueue_lt {deadline now : Nat} {queue : List Arrival} {first : UInt8}
    {rest : Bytes} (h : (readQueue deadline now queue).1 = .data first rest) :
    queueSize (readQueue deadline now queue).2.2.1 < queueSize queue := by
  induction queue generalizing now with
  | nil => simp [readQueue] at h
  | cons a queue ih =>
    obtain ⟨due, event⟩ := a
    unfold readQueue at h ⊢
    by_cases hdue : now < due ∧ deadline < due
    · simp [hdue] at h
    · rw [if_neg hdue] at h ⊢
      match event with
      | .ending => simp at h
      | .breaking reason => simp at h
      | .data [] => simpa [queueSize, Event.size] using ih h
      | .data (b :: bytes) =>
        by_cases hrest : (bytes.drop (readLimit - 1)).isEmpty
        · simp only [hrest, if_true, queueSize, Event.size,
            List.length_cons]
          omega
        · rw [Bool.not_eq_true] at hrest
          simp only [hrest, Bool.false_eq_true, if_false, queueSize, Event.size,
            List.length_cons, List.length_drop]
          omega

def read (deadline : Nat) (l : Link) : Received × Link :=
  if l.connection.ended then (.ended, l)
  else
    let (result, now, queue, ended) := readQueue deadline l.now l.connection.queue
    (result, { now, connection := { l.connection with queue, ended } })

/-- The bytes that wait for the client. -/
def pending (l : Link) : Nat := queueSize l.connection.queue

theorem pending_read_lt {deadline : Nat} {l l' : Link} {first : UInt8} {rest : Bytes}
    (h : l.read deadline = (.data first rest, l')) : l'.pending < l.pending := by
  unfold read at h
  split at h
  · simp at h
  · simp only [Prod.mk.injEq] at h
    rw [← h.2]
    exact queueSize_readQueue_lt h.1

/-- Ends the client's sending. -/
def farewell (deadline : Nat) (l : Link) : Link :=
  match l.connection.peer.farewell with
  | .accept =>
    { l with connection := { l.connection with farewells := l.connection.farewells + 1 } }
  | .fail => l
  | .stall => l.expire deadline

end Link

/-- How a connection attempt ended, and when. -/
inductive Attempt
  | connected (link : Link)
  | failed (time : Nat) (failure : SessionFailure)
  | crashed (time : Nat) (text : Option String)

/-- Connects from a time on. An attempt not answered by the deadline fails there. -/
def connect (endpoint : String) (peer : Peer) (start deadline : Nat) : Attempt :=
  let late := Attempt.failed deadline (.connect endpoint "timed out")
  match peer.delay with
  | none => late
  | some delay =>
    let now := start + delay
    if deadline < now then late
    else
      match peer.reception with
      | .accept => .connected { now, connection := .opening peer now }
      | .refuse reason => .failed now (.connect endpoint reason)
      | .fail failure => .failed now failure
      | .crash text => .crashed now text

end MarketLoad.Venue
