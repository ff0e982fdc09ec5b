import MarketLoad.Proofs.Clock
import MarketLoad.Proofs.Integrity
import MarketLoad.Proofs.Venue.Answering

/-!
# What a latency sample measures

Against a server that answers every line after the same time, a session keeps books on its commands
and on the answers that it has read (`Trading.Books`): the answer that a cycle reads is the oldest
that is owed. So its samples are whole round trips as long as no answer is owed when a cycle begins
(`Trading.Books.le_sample`), and an answer that came too late for its own cycle is a sample of a later
one (`Session.late_answer_is_sample`).
-/

namespace MarketLoad

open Venue

variable {r answered received drain : Nat} {l l' : Link}

/-! ### Registering -/

namespace Registration

/-- Waiting for the acknowledgement reads answers, and at least one if it succeeds. -/
theorem owes_await (deadline : Nat) (bytes : Bytes) (howes : Link.Owes r answered l) :
    ∃ answered', Link.Owes r answered' (await deadline bytes l).2 ∧ answered ≤ answered' ∧
      (await deadline bytes l).2.connection.lines = l.connection.lines ∧
      ((await deadline bytes l).1 = .ok () → answered < answered') := by
  induction bytes, l using await.induct deadline generalizing answered with
  | case1 bytes l l' hread =>
    obtain ⟨-, ⟨_, _, _, hresult, -⟩ | ⟨hresult, -⟩⟩ := howes.of_read hread
    · cases hresult
    · cases hresult
  | case2 bytes l l' hread =>
    obtain ⟨hlines, ⟨_, _, _, hresult, -⟩ | ⟨-, howes', -⟩⟩ := howes.of_read hread
    · cases hresult
    · rw [await, hread]
      refine ⟨answered, howes', Nat.le_refl _, hlines, fun hok => ?_⟩
      cases hok
  | case3 bytes l reason l' hread =>
    obtain ⟨-, ⟨_, _, _, hresult, -⟩ | ⟨hresult, -⟩⟩ := howes.of_read hread
    · cases hresult
    · cases hresult
  | case4 bytes l first rest l' hread =>
    rename_i hack
    obtain ⟨hlines, howes'⟩ := howes.of_data hread
    rw [await_of_data hread, if_pos hack]
    exact ⟨answered + 1, howes', Nat.le_succ _, hlines, fun _ => Nat.lt_succ_self _⟩
  | case5 bytes l first rest l' hread =>
    rename_i hack hstop
    obtain ⟨hlines, howes'⟩ := howes.of_data hread
    rw [await_of_data hread, if_neg hack, if_pos hstop]
    refine ⟨answered + 1, howes', Nat.le_succ _, hlines, fun hok => ?_⟩
    cases hok
  | case6 bytes l first rest l' hread =>
    rename_i hack hstop ih
    obtain ⟨hlines, howes'⟩ := howes.of_data hread
    obtain ⟨answered', howes'', hle, hlines', -⟩ := ih howes'
    rw [await_of_data hread, if_neg hack, if_neg hstop]
    exact ⟨answered', howes'', Nat.le_of_succ_le hle, hlines'.trans hlines,
      fun _ => Nat.lt_of_succ_le hle⟩

/-- A registration on a new connection sends one line at most, and reads its answer if it
succeeds. -/
theorem owes_perform {trader : Trader} (deadline : Nat)
    (htrader : isWireSafe trader.name = true) (h : Link.Owes r 0 l) (hnew : l.connection.lines = [])
    (hanswers : (perform trader deadline l).2.connection.Answers r) :
    ∃ answered, Link.Owes r answered (perform trader deadline l).2 ∧
      (perform trader deadline l).2.connection.lines.length ≤ 1 ∧
      ((perform trader deadline l).1 = .ok () →
        answered = (perform trader deadline l).2.connection.lines.length) := by
  have hsafe : (Command.register trader).IsWireSafe := htrader
  unfold perform at hanswers ⊢
  obtain ⟨l', own, hwrite, -, hlines, hcut, howes⟩ | ⟨result, l', hresult, hwrite, hlines, howes⟩ :=
    h.write deadline hsafe
  · rw [hwrite] at hanswers ⊢
    rw [hnew, List.nil_append] at hlines
    have howed := howes ((carries_await ..).answers hcut hanswers)
    obtain ⟨answered, howes', -, hlines', hlt⟩ := owes_await deadline [] howed
    have hlength : (await deadline [] l').2.connection.lines.length = 1 := by
      rw [hlines', hlines, List.length_singleton]
    refine ⟨answered, howes', Nat.le_of_eq hlength, fun hok => ?_⟩
    exact Nat.le_antisymm howes'.answered_le (hlength ▸ hlt hok)
  · rw [hwrite]
    rw [hnew] at hlines
    have hlength : l'.connection.lines.length = 0 := congrArg List.length hlines
    cases result with
    | done => exact absurd rfl hresult
    | failed reason => exact ⟨0, howes, Nat.le_trans (Nat.le_of_eq hlength) (Nat.zero_le 1), nofun⟩
    | timedOut => exact ⟨0, howes, Nat.le_trans (Nat.le_of_eq hlength) (Nat.zero_le 1), nofun⟩

end Registration

/-! ### Samples -/

/-- The samples of some cycles: the round trips of the orders that were sent. -/
def samples (cycles : List Cycle) : List Nat := (cycles.filter (·.sent)).filterMap (·.roundTrip)

theorem mem_samples {cycles : List Cycle} {t : Nat} :
    t ∈ samples cycles ↔ ∃ c ∈ cycles, c.sent = true ∧ c.roundTrip = some t := by
  simp only [samples, List.mem_filterMap, List.mem_filter, and_assoc]

theorem samples_append (cycles cycles' : List Cycle) :
    samples (cycles ++ cycles') = samples cycles ++ samples cycles' := by
  rw [samples, List.filter_append, List.filterMap_append]
  rfl

namespace Tally

/-- The histogram of a tally holds the samples of its cycles, in their order. -/
def Sampled (y : Tally) : Prop :=
  Histogram.empty.recordAll ((samples y.cycles.reverse).map .ofMillis) = .ok y.latency

theorem recordAll_of_count {y y' : Tally} {c : Cycle} (hc : y.count c = .ok y') :
    y.latency.recordAll ((samples [c]).map .ofMillis) = .ok y'.latency := by
  unfold count at hc
  split at hc
  · rename_i hsent
    obtain ⟨sent, -, hc⟩ := bind_eq_ok.1 hc
    split at hc
    · rename_i hnone
      cases hc
      have hsamples : samples [c] = [] := by simp [samples, hsent, hnone]
      rw [hsamples]
      rfl
    · rename_i time hsome
      obtain ⟨latency, hrecord, hc⟩ := bind_eq_ok.1 hc
      cases hc
      have hsamples : samples [c] = [time] := by simp [samples, hsent, hsome]
      rw [hsamples, List.map_singleton, Histogram.recordAll, List.foldlM_cons, hrecord]
      rfl
  · rename_i hsent
    obtain ⟨skipped, -, hc⟩ := bind_eq_ok.1 hc
    cases hc
    have hsamples : samples [c] = [] := by simp [samples, hsent]
    rw [hsamples]
    rfl

theorem Sampled.count {y y' : Tally} {c : Cycle} (h : y.Sampled)
    (hc : (y.log c).count c = .ok y') : y'.Sampled := by
  have hcycles : y'.cycles = c :: y.cycles := cycles_of_count hc
  have hrecord : y.latency.recordAll ((samples [c]).map .ofMillis) = .ok y'.latency :=
    recordAll_of_count (y := y.log c) hc
  rw [Sampled, hcycles, List.reverse_cons, samples_append, List.map_append, Histogram.recordAll,
    List.foldlM_append]
  exact bind_eq_ok.2 ⟨y.latency, h, hrecord⟩

end Tally

namespace Trading

variable {s : SessionSettings} {flow flow' : OrderFlow} {c : Cycle} {cycles : List Cycle}
  {lines : List Receipt}

/-- What a cycle adds to the books on a server that answers each of its lines after `r`, when so many
lines were received and so many answers read. If its order gets across, that is a line more; the
answer it reads is to the oldest line not answered yet, unless that comes too late. -/
inductive Entry (r drain : Nat) (lines : List Receipt) (received answered : Nat) (c : Cycle) :
    Nat → Nat → Prop
  | unsent (hsent : c.sent = false) (hnone : c.roundTrip = none) :
    Entry r drain lines received answered c received answered
  | late {own oldest : Receipt} (hsent : c.sent = true) (hown : lines[received]? = some own)
    (holdest : lines[answered]? = some oldest) (hnone : c.roundTrip = none)
    (hlate : c.fault = none → own.time + drain < oldest.time + r) :
    Entry r drain lines received answered c (received + 1) answered
  | answered {own oldest : Receipt} (hsent : c.sent = true) (hown : lines[received]? = some own)
    (holdest : lines[answered]? = some oldest) (hstart : c.start ≤ own.time)
    (hle : oldest.time ≤ own.time) (hsoon : oldest.time + r ≤ own.time + drain)
    (hsample : c.roundTrip = some (max (oldest.time + r) own.time - c.start)) :
    Entry r drain lines received answered c (received + 1) (answered + 1)

/-- The books of some cycles, from so many lines and so many answers on. -/
inductive Books (r drain : Nat) (lines : List Receipt) : Nat → Nat → List Cycle → Prop
  | done {received answered : Nat} : Books r drain lines received answered []
  | cycle {received received' answered answered' : Nat} {c : Cycle} {cycles : List Cycle}
    (hentry : Entry r drain lines received answered c received' answered')
    (hlater : Books r drain lines received' answered' cycles) :
    Books r drain lines received answered (c :: cycles)

theorem getElem?_more {before : List Receipt} {i : Nat} {receipt : Receipt}
    (hmore : before <+: lines) (h : before[i]? = some receipt) : lines[i]? = some receipt := by
  obtain ⟨more, rfl⟩ := hmore
  rwa [List.getElem?_append_left (List.getElem?_eq_some_iff.1 h).1]

theorem Entry.more {before : List Receipt} {received' answered' : Nat}
    (hmore : before <+: lines) (h : Entry r drain before received answered c received' answered') :
    Entry r drain lines received answered c received' answered' := by
  cases h with
  | unsent hsent hnone => exact .unsent hsent hnone
  | late hsent hown holdest hnone hlate =>
    exact .late hsent (getElem?_more hmore hown) (getElem?_more hmore holdest) hnone
      hlate
  | answered hsent hown holdest hstart hle hsoon hsample =>
    exact .answered hsent (getElem?_more hmore hown) (getElem?_more hmore holdest)
      hstart hle hsoon hsample

/-- Waiting for a reply completes the entry of an order that is the last line received. -/
theorem owes_awaitReply {timeouts : Timeouts} {own : Receipt} {before : List Receipt}
    (h : Link.Owes r answered l) (hlines : l.connection.lines = before ++ [own])
    (hanswered : answered ≤ before.length) (htime : own.time = l.now) (hstart : c.start ≤ own.time)
    {sending : Sending} (hawait : awaitReply timeouts c.start l = (sending, l'))
    (hsent : c.sent = sending.sent) (hroundTrip : c.roundTrip = sending.roundTrip)
    (hfault : c.fault = sending.fault) :
    ∃ answered', Link.Owes r answered' l' ∧ l'.connection.lines = l.connection.lines ∧
      Entry r timeouts.drain.millisUp l'.connection.lines before.length answered c
        (before.length + 1) answered' := by
  have hown : l.connection.lines[before.length]? = some own := by
    rw [hlines, List.getElem?_concat_length]
  have hlt : answered < l.connection.lines.length := by
    rw [hlines, List.length_append]
    exact Nat.lt_succ_of_le hanswered
  unfold awaitReply at hawait
  cases hdeadline : Clock.deadline l.now timeouts.drain with
  | error fault =>
    rw [hdeadline] at hawait
    cases hawait
    refine ⟨answered, h, rfl, .late hsent hown (List.getElem?_eq_getElem hlt) hroundTrip ?_⟩
    intro hnone
    cases hfault.symm.trans hnone
  | ok deadline =>
    obtain ⟨-, rfl⟩ := Clock.of_deadline_eq_ok hdeadline
    have hmax : max l.now (l.now + timeouts.drain.millisUp) = own.time + timeouts.drain.millisUp := by
      rw [htime]
      exact Nat.max_eq_right (Nat.le_add_right ..)
    rcases hread : l.read (l.now + timeouts.drain.millisUp) with ⟨result, l₁⟩
    rw [hdeadline] at hawait
    dsimp only at hawait
    rw [hread] at hawait
    obtain ⟨hsame, ⟨first, rest, oldest, rfl, holdest, hsoon, hnow, howes⟩ | ⟨rfl, howes, hlate⟩⟩ :=
      h.of_read hread
    · cases hawait
      rw [hmax] at hsoon
      have hle : oldest.time ≤ own.time := by
        rw [htime]
        exact h.times oldest (List.mem_of_getElem? holdest)
      have hsample : c.roundTrip = some (max (oldest.time + r) own.time - c.start) := by
        rw [hroundTrip, htime, Nat.max_comm, ← hnow]
      rw [hsame]
      exact ⟨answered + 1, howes, rfl, .answered hsent hown holdest hstart hle hsoon hsample⟩
    · cases hawait
      rw [hmax] at hlate
      have holdest := List.getElem?_eq_getElem hlt
      rw [hsame]
      exact ⟨answered, howes, rfl, .late hsent hown holdest hroundTrip fun _ => hlate _ holdest⟩

/-- Sending an order is one entry in the books. -/
theorem owes_sendOrder {timeouts : Timeouts} {command : Command} (hsafe : command.IsWireSafe)
    (h : Link.Owes r answered l) {sending : Sending}
    (hsend : sendOrder timeouts command l = (sending, l')) (hanswers : l'.connection.Answers r)
    (hstart : c.start = l.now) (hsent : c.sent = sending.sent)
    (hroundTrip : c.roundTrip = sending.roundTrip) (hfault : c.fault = sending.fault) :
    ∃ answered', Link.Owes r answered' l' ∧ l.connection.lines <+: l'.connection.lines ∧
      Entry r timeouts.drain.millisUp l'.connection.lines l.connection.lines.length answered c
        l'.connection.lines.length answered' := by
  unfold sendOrder at hsend
  cases hdeadline : Clock.deadline l.now timeouts.send with
  | error fault =>
    rw [hdeadline] at hsend
    cases hsend
    exact ⟨answered, h, List.prefix_refl _, .unsent hsent hroundTrip⟩
  | ok deadline =>
    rw [hdeadline] at hsend
    dsimp only at hsend
    have hle := l.now_le_write deadline command.bytes
    obtain ⟨l₁, own, hwrite, htime, hlines, hcut, howes⟩ |
      ⟨result, l₁, hresult, hwrite, hlines, howes⟩ := h.write deadline hsafe
    · rw [hwrite] at hsend hle
      have hawait : awaitReply timeouts c.start l₁ = (sending, l') := hstart ▸ hsend
      have hcarries := (carries_awaitReply timeouts c.start l₁).1
      rw [hawait] at hcarries
      have howed := howes (hcarries.answers hcut hanswers)
      have hstarted : c.start ≤ own.time := by
        rw [hstart, htime]
        exact hle
      obtain ⟨answered', howes', hsame, hentry⟩ := owes_awaitReply howed hlines h.answered_le htime
        hstarted hawait hsent hroundTrip hfault
      have hall : l'.connection.lines = l.connection.lines ++ [own] := hsame.trans hlines
      have hlength : l'.connection.lines.length = l.connection.lines.length + 1 := by
        rw [hall, List.length_append, List.length_singleton]
      exact ⟨answered', howes', hall ▸ List.prefix_append .., hlength ▸ hentry⟩
    · rw [hwrite] at hsend
      obtain ⟨hunsent, hnone, rfl⟩ : sending.sent = false ∧ sending.roundTrip = none ∧ l₁ = l' := by
        cases result with
        | done => exact absurd rfl hresult
        | failed reason => cases hsend; exact ⟨rfl, rfl, rfl⟩
        | timedOut => cases hsend; exact ⟨rfl, rfl, rfl⟩
      rw [hlines]
      exact ⟨answered, howes, List.prefix_refl _,
        .unsent (hsent.trans hunsent) (hroundTrip.trans hnone)⟩

/-- A cycle is one entry in the books. -/
theorem owes_cycle (hcatalog : flow.catalog = s.catalog)
    (htrader : isWireSafe s.trader.name = true)
    (hsymbols : ∀ listing ∈ s.catalog.listings, isWireSafe listing.symbol.ticker = true)
    (h : Link.Owes r answered l) {slot : Nat} (hcycle : cycle s slot flow l = (c, flow', l'))
    (hanswers : l'.connection.Answers r) :
    ∃ answered', Link.Owes r answered' l' ∧ l.connection.lines <+: l'.connection.lines ∧
      Entry r s.timeouts.drain.millisUp l'.connection.lines l.connection.lines.length answered c
        l'.connection.lines.length answered' := by
  unfold cycle at hcycle
  match hnext : flow.next with
  | .error fault =>
    rw [hnext] at hcycle
    cases hcycle
    exact ⟨answered, h, List.prefix_refl _, .unsent rfl rfl⟩
  | .ok (none, flow₁) =>
    rw [hnext] at hcycle
    cases hcycle
    exact ⟨answered, h, List.prefix_refl _, .unsent rfl rfl⟩
  | .ok (some order, flow₁) =>
    rw [hnext] at hcycle
    obtain ⟨listing, hlisting, hsymbol⟩ := OrderFlow.symbol_of_next hnext
    rw [hcatalog] at hlisting
    have hsafe : (Command.order s.trader order).IsWireSafe :=
      ⟨htrader, hsymbol ▸ hsymbols listing hlisting⟩
    rcases hsend : sendOrder s.timeouts (.order s.trader order) l with ⟨sending, l₁⟩
    dsimp only at hcycle
    rw [hsend] at hcycle
    cases hcycle
    exact owes_sendOrder hsafe h hsend hanswers rfl rfl rfl rfl

/-- Cycles that are made are entered in the books one after the other. -/
theorem Makes.books (h : Makes s flow l cycles l') (hcatalog : flow.catalog = s.catalog)
    (htrader : isWireSafe s.trader.name = true)
    (hsymbols : ∀ listing ∈ s.catalog.listings, isWireSafe listing.symbol.ticker = true)
    (howes : Link.Owes r answered l) (hanswers : l'.connection.Answers r) :
    l.connection.lines <+: l'.connection.lines ∧
      Books r s.timeouts.drain.millisUp l'.connection.lines l.connection.lines.length answered
        cycles := by
  induction h generalizing answered with
  | none time => exact ⟨List.prefix_refl _, .done⟩
  | @cycle flow _ l l₁ _ time slot c _ hcycle hlater ih =>
    obtain ⟨⟨ds, hds⟩, hcatalog'⟩ := exists_delivers_cycle slot (l.expire time) hcatalog
    rw [hcycle] at hds hcatalog'
    obtain ⟨ds', hds'⟩ := hlater.exists_delivers hcatalog'
    have howes' := howes.expire time
    have hcut : l₁.connection.IsCut := hds.carries.isCut howes'.isCut
    obtain ⟨answered', howes₁, hmore, hentry⟩ := owes_cycle hcatalog htrader hsymbols howes' hcycle
      (hds'.carries.answers hcut hanswers)
    obtain ⟨hmore', hbooks⟩ := ih hcatalog' howes₁ hanswers
    exact ⟨hmore.trans hmore', .cycle (hentry.more hmore') hbooks⟩

/-! ### What the books say of samples -/

/-- A sample is measured against an order of its own and the line whose answer it is. It is a whole
round trip exactly if that line came no sooner than the cycle began, or if the writing alone took as
long. -/
theorem Books.sample (h : Books r drain lines received answered cycles) (hc : c ∈ cycles) {t : Nat}
    (ht : c.roundTrip = some t) :
    ∃ own ∈ lines, ∃ oldest ∈ lines, c.start ≤ own.time ∧ oldest.time ≤ own.time ∧
      t = max (oldest.time + r) own.time - c.start ∧ oldest.time + r ≤ own.time + drain ∧
      (r ≤ t ↔ c.start ≤ oldest.time ∨ c.start + r ≤ own.time) := by
  induction h with
  | done => cases hc
  | @cycle _ _ _ _ c' _ hentry _ ih =>
    rcases List.mem_cons.1 hc with rfl | hc
    · cases hentry with
      | unsent _ hnone =>
        rw [hnone] at ht
        cases ht
      | late _ _ _ hnone _ =>
        rw [hnone] at ht
        cases ht
      | @answered own oldest _ hown holdest hstart hle hsoon hsample =>
        obtain rfl := Option.some.inj (hsample.symm.trans ht)
        refine ⟨own, List.mem_of_getElem? hown, oldest, List.mem_of_getElem? holdest, hstart, hle,
          rfl, hsoon, ?_⟩
        omega
    · exact ih hc

/-- With no answer owed and answers that come in time, no sample falls short of a round trip. -/
theorem Books.le_sample (h : Books r drain lines received answered cycles)
    (hnone : answered = received) (hr : r ≤ drain) (hfault : ∀ c ∈ cycles, c.fault = none) :
    ∀ c ∈ cycles, ∀ t, c.roundTrip = some t → r ≤ t := by
  induction h with
  | done => exact fun _ hc => absurd hc List.not_mem_nil
  | @cycle _ _ _ _ c _ hentry _ ih =>
    obtain ⟨hc, hcycles⟩ := List.forall_mem_cons.1 hfault
    subst hnone
    cases hentry with
    | unsent _ hnone =>
      refine List.forall_mem_cons.2 ⟨fun t ht => ?_, ih rfl hcycles⟩
      rw [hnone] at ht
      cases ht
    | late _ hown holdest _ hlate =>
      obtain rfl := Option.some.inj (hown.symm.trans holdest)
      have := hlate hc
      omega
    | answered _ hown holdest hstart _ _ hsample =>
      refine List.forall_mem_cons.2 ⟨fun t ht => ?_, ih rfl hcycles⟩
      obtain rfl := Option.some.inj (hown.symm.trans holdest)
      obtain rfl := Option.some.inj (hsample.symm.trans ht)
      omega

end Trading

/-! ### The session -/

namespace Session

variable {s : SessionSettings} {peer : Peer} {conn : Connection} {o : Outcome} {start : Nat}

theorem lines_farewell (deadline : Nat) (l : Link) :
    (l.farewell deadline).connection.lines = l.connection.lines := by
  unfold Link.farewell
  split
  · rfl
  · rfl
  · rfl

/-- A session against a server that answers every line after `r` keeps books on its cycles. No answer
is owed when trading begins if the registration was acknowledged. -/
theorem exists_books (hconn : (course start s peer).connection = some conn)
    (ho : (course start s peer).result = .ok o) (htrader : isWireSafe s.trader.name = true)
    (hsymbols : ∀ listing ∈ s.catalog.listings, isWireSafe listing.symbol.ticker = true)
    (hanswers : conn.Answers r) :
    ∃ received answered, answered ≤ received ∧ received ≤ 1 ∧
      (o.registered = true → answered = received) ∧
      Trading.Books r s.timeouts.drain.millisUp conn.lines received answered
        (course start s peer).cycles := by
  obtain ⟨delay, -, hcourse⟩ := course_connected hconn
  rw [hcourse] at hconn ho ⊢
  obtain ⟨deadline, registration, l₁, tally, l₂, deadline', -, hregistration, htrading, rfl, -,
    hconnection, hcycles⟩ := connected_of_ok ho
  obtain rfl := Option.some.inj (hconnection.symm.trans hconn)
  have hopened : (Connection.opening peer (start + delay)).IsCut := .opening ..
  obtain ⟨d, -, -, hregister⟩ := Registration.exists_delivery_perform s.trader deadline
    ⟨start + delay, .opening peer (start + delay)⟩
  have hmakes := Trading.makes_perform s l₁
  obtain ⟨ds, hds⟩ := hmakes.exists_delivers rfl
  rw [htrading] at hmakes hds
  rw [hregistration] at hregister
  have hcut := hregister.isCut hopened
  have hanswers₂ := (Link.carries_farewell deadline' l₂).answers (hds.carries.isCut hcut) hanswers
  have hanswers₁ := hds.carries.answers hcut hanswers₂
  have hpeer : l₁.connection.peer = peer := hregister.peer
  have hgreeting : peer.greeting = [] := hpeer ▸ hanswers₁.1
  obtain ⟨answered, howes, hreceived, hack⟩ := Registration.owes_perform deadline htrader
    (.opening r (start + delay) hgreeting) rfl (hregistration ▸ hanswers₁)
  rw [hregistration] at howes hreceived hack
  obtain ⟨-, hbooks⟩ := hmakes.books rfl htrader hsymbols howes hanswers₂
  refine ⟨_, answered, howes.answered_le, hreceived, fun hregistered => hack ?_, ?_⟩
  · cases registration with
    | ok _ => rfl
    | error cause => cases hregistered
  · rw [lines_farewell, hcycles]
    exact hbooks

theorem sampled_perform {l : Link} (h : (Trading.perform s l).1 = none) :
    (Trading.perform s l).2.1.Sampled := by
  unfold Trading.perform at h ⊢
  split at h
  · rename_i hreach
    rw [if_pos hreach]
    exact Trading.serveFrom_keeps (fun _ _ _ hy _ => hy.count) _ _ _ _ _ rfl h
  · cases h

/-- The histogram of an outcome holds the samples of its session. -/
theorem recordAll_samples (hconn : (course start s peer).connection = some conn)
    (ho : (course start s peer).result = .ok o) :
    Histogram.empty.recordAll ((samples (course start s peer).cycles).map .ofMillis) =
        .ok o.latency ∧
      ∀ c ∈ (course start s peer).cycles, c.fault = none := by
  obtain ⟨delay, -, hcourse⟩ := course_connected hconn
  rw [hcourse] at ho ⊢
  obtain ⟨_, registration, l₁, tally, l₂, _, -, -, htrading, rfl, -, -, hcycles⟩ :=
    connected_of_ok ho
  have hnone : (Trading.perform s l₁).1 = none := by rw [htrading]
  have hsampled := sampled_perform hnone
  have hfault := Trading.fault_of_perform hnone
  rw [htrading] at hsampled hfault
  rw [hcycles]
  exact ⟨hsampled, fun c hc => hfault c (List.mem_reverse.1 hc)⟩

/-- **Samples against a server that answers every line after `r`.** The histogram holds the samples
of the session's cycles, and each of these is measured from the start of its cycle to the oldest
answer that was owed. So a sample falls short of `r` exactly if that answer is to a line that came
before the cycle began and writing did not take as long; none does if the registration was
acknowledged and `r` is no longer than the wait for an answer. -/
theorem samples_of_answers (start : Nat) (s : SessionSettings) (peer : Peer)
    (hconn : (course start s peer).connection = some conn)
    (ho : (course start s peer).result = .ok o) (htrader : isWireSafe s.trader.name = true)
    (hsymbols : ∀ listing ∈ s.catalog.listings, isWireSafe listing.symbol.ticker = true)
    (hanswers : conn.Answers r) :
    let cycles := (course start s peer).cycles
    let drain := s.timeouts.drain.millisUp
    Histogram.empty.recordAll ((samples cycles).map .ofMillis) = .ok o.latency ∧
      (∃ received answered, answered ≤ received ∧ received ≤ 1 ∧
        (o.registered = true → answered = received) ∧
        Trading.Books r drain conn.lines received answered cycles) ∧
      (∀ c ∈ cycles, ∀ t, c.roundTrip = some t →
        ∃ own ∈ conn.lines, ∃ oldest ∈ conn.lines, c.start ≤ own.time ∧ oldest.time ≤ own.time ∧
          t = max (oldest.time + r) own.time - c.start ∧ oldest.time + r ≤ own.time + drain ∧
          (r ≤ t ↔ c.start ≤ oldest.time ∨ c.start + r ≤ own.time)) ∧
      (o.registered = true → r ≤ drain → ∀ t ∈ samples cycles, r ≤ t) := by
  obtain ⟨hhistogram, hfault⟩ := recordAll_samples hconn ho
  obtain ⟨received, answered, hle, hone, hack, hbooks⟩ :=
    exists_books hconn ho htrader hsymbols hanswers
  refine ⟨hhistogram, ⟨received, answered, hle, hone, hack, hbooks⟩,
    fun c hc t ht => hbooks.sample hc ht, fun hregistered hr t ht => ?_⟩
  obtain ⟨c, hc, -, hsample⟩ := mem_samples.1 ht
  exact hbooks.le_sample (hack hregistered) hr hfault c hc t hsample

/-- A session of two orders. -/
private def twoOrders (interval : Nat) : SessionSettings :=
  { SessionSettings.standard ⟨"a"⟩ ⟨"mock", 8888⟩ ⟨[⟨⟨"X"⟩, .ofUInt64 100⟩]⟩ with
    duration := .ofMillis interval, interval := .ofMillis interval }

/-- A server that acknowledges every command after a time. -/
private def acknowledging (r : Nat) : Peer :=
  { Peer.quiet with fallback := .habit .acknowledge r }

/-- Answers that come within the wait make whole round trips. -/
theorem samples_of_answers_prompt :
    let c := course 0 (twoOrders 200) (acknowledging 20)
    ∃ conn o, c.connection = some conn ∧ c.result = .ok o ∧ conn.Answers 20 ∧
      o.registered = true ∧ samples c.cycles = [20, 20] ∧ ∀ t ∈ samples c.cycles, 20 ≤ t := by
  intro c
  obtain ⟨hanswers, hregistered, hsamples⟩ :
      (c.connection.map fun conn => decide (conn.Answers 20)) = some true ∧
        c.result.toOption.map (·.registered) = some true ∧ samples c.cycles = [20, 20] := by
    decide +kernel
  obtain ⟨conn, hconn, hanswers⟩ := Option.map_eq_some_iff.1 hanswers
  have hanswers : conn.Answers 20 := of_decide_eq_true hanswers
  cases ho : c.result with
  | error fault =>
    rw [ho] at hregistered
    cases hregistered
  | ok o =>
    rw [ho] at hregistered
    have hacknowledged : o.registered = true := Option.some.inj hregistered
    obtain ⟨-, -, -, hall⟩ := samples_of_answers 0 (twoOrders 200) (acknowledging 20) hconn ho
      (by decide) (by decide) hanswers
    exact ⟨conn, o, hconn, rfl, hanswers, hacknowledged, hsamples,
      hall hacknowledged (by decide)⟩

/-- An answer that comes after 150 ms is too late for the wait of 100 ms. It is read at once by the
next cycle, whose round trip of no time the histogram counts. -/
theorem late_answer_is_sample :
    let c := course 0 (twoOrders 200) (acknowledging 150)
    (c.connection.map fun conn => decide (conn.Answers 150)) = some true ∧
      c.result.toOption.map (fun o => (o.registered, o.sent, o.latency.counts)) =
        some (true, 2, [1, 0, 0, 0, 0, 0, 0]) ∧
      c.cycles.map (fun c => (c.sent, c.roundTrip)) = [(true, none), (true, some 0)] ∧
      samples c.cycles = [0] := by
  decide +kernel

end Session

end MarketLoad
