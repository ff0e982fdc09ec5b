import MarketLoad.Proofs.Venue.Stream

/-!
# Deliveries

What a client gets across is a list of deliveries: for each command that it writes the start of it
that the connection took (`Link.Carries`). The steps of a client compose (`Link.Carries.trans`).
The complete lines of what got across are the commands written in full unless one of these follows a
command that was cut short (`Delivery.lines_carriedAll_iff`).
-/

namespace MarketLoad.Venue

/-- A command that a client wrote, and the start of it that the connection took. -/
structure Delivery where
  command : Command
  carried : Bytes
  isPrefix : carried <+: command.bytes

namespace Delivery

variable {d : Delivery} {ds ds' : List Delivery}

/-- Whether the command got across in full. -/
def isWhole (d : Delivery) : Bool := d.carried == d.command.bytes

/-- The command was cut short: some of it got across, but not all. -/
def IsPart (d : Delivery) : Prop := d.carried ≠ [] ∧ d.isWhole = false

/-- The bytes that got across. -/
def carriedAll (ds : List Delivery) : Bytes := ds.flatMap (·.carried)

/-- No command that was cut short is followed by bytes of a later one. -/
def Apart (ds : List Delivery) : Prop := ds.Pairwise fun d d' => d.IsPart → d'.carried = []

/-- No command that was cut short is followed by one that got across in full. -/
def Unmerged (ds : List Delivery) : Prop :=
  ds.Pairwise fun d d' => d.IsPart → d'.isWhole = false

theorem isWhole_iff : d.isWhole = true ↔ d.carried = d.command.bytes := beq_iff_eq

theorem isWhole_of_carried_eq_nil (h : d.carried = []) : d.isWhole = false := by
  rw [← Bool.not_eq_true, isWhole_iff, h]
  exact fun heq => d.command.bytes_ne_nil heq.symm

theorem carriedAll_append : carriedAll (ds ++ ds') = carriedAll ds ++ carriedAll ds' :=
  List.flatMap_append

theorem carriedAll_eq_nil (h : ∀ d ∈ ds, d.carried = []) : carriedAll ds = [] :=
  List.flatMap_eq_nil_iff.2 h

theorem carriedAll_cons : carriedAll (d :: ds) = d.carried ++ carriedAll ds := List.flatMap_cons

theorem Apart.unmerged (h : Apart ds) : Unmerged ds :=
  h.imp fun hnone hpart => isWhole_of_carried_eq_nil (hnone hpart)

theorem unmerged_cons_of_not_part (h : ¬ d.IsPart) : Unmerged (d :: ds) ↔ Unmerged ds :=
  List.pairwise_cons.trans (and_iff_right fun _ _ hpart => absurd hpart h)

theorem not_isPart_of_isWhole (h : d.isWhole = true) : ¬ d.IsPart :=
  fun hpart => Bool.false_ne_true (hpart.2.symm.trans h)

theorem Apart.append (h : Apart ds) (h' : Apart ds')
    (hpart : (∃ d ∈ ds, d.IsPart) → ∀ d' ∈ ds', d'.carried = []) : Apart (ds ++ ds') :=
  List.pairwise_append.2 ⟨h, h', fun d hd d' hd' hp => hpart ⟨d, hd, hp⟩ d' hd'⟩

/-- What is cut off a command of wire-safe identities holds no newline. -/
theorem newline_not_mem_carried (hsafe : d.command.IsWireSafe) (hd : d.isWhole = false) :
    newline ∉ d.carried := by
  obtain ⟨rest, hrest⟩ := d.isPrefix
  rw [Command.bytes_eq] at hrest
  rcases List.append_eq_append_iff.1 hrest with ⟨a, hbody, -⟩ | ⟨a, hcarried, hend⟩
  · exact fun hm => Command.newline_not_mem_body hsafe (hbody ▸ List.mem_append_left _ hm)
  · -- The newline itself got across only with the whole command.
    cases a with
    | nil =>
      rw [List.append_nil] at hcarried
      rw [hcarried]
      exact Command.newline_not_mem_body hsafe
    | cons b a =>
      obtain ⟨rfl, hnil⟩ := List.cons_eq_cons.1 hend
      obtain ⟨rfl, rfl⟩ := List.append_eq_nil_iff.1 hnil.symm
      rw [← Command.bytes_eq] at hcarried
      rw [isWhole_iff.2 hcarried] at hd
      cases hd

theorem newline_not_mem_carriedAll (hsafe : ∀ d ∈ ds, d.command.IsWireSafe)
    (h : ∀ d ∈ ds, d.isWhole = false) : newline ∉ carriedAll ds := by
  intro hm
  obtain ⟨d, hd, hcarried⟩ := List.mem_flatMap.1 hm
  exact newline_not_mem_carried (hsafe d hd) (h d hd) hcarried

/-- A command that got across in full is cut off first. -/
theorem cut_carriedAll_cons (hsafe : d.command.IsWireSafe) (hwhole : d.isWhole = true)
    (ds : List Delivery) :
    Lines.cut (carriedAll (d :: ds)) =
      (d.command.body :: (Lines.cut (carriedAll ds)).1, (Lines.cut (carriedAll ds)).2) := by
  rw [carriedAll_cons, isWhole_iff.1 hwhole, Command.bytes_eq, List.append_assoc,
    List.singleton_append]
  exact Lines.cut_append (Command.newline_not_mem_body hsafe) _

/-- What was cut short stays in front of the next command that gets across in full. -/
theorem cut_append_carriedAll {start : Bytes} (hsafe : ∀ d ∈ ds, d.command.IsWireSafe)
    (hstart : newline ∉ start) {whole : Delivery} {wholes : List Delivery}
    (hfilter : ds.filter (·.isWhole) = whole :: wholes) :
    ∃ more lines, (Lines.cut (start ++ carriedAll ds)).1 =
      (start ++ more ++ whole.command.body) :: lines := by
  obtain ⟨before, after, rfl, hbefore, hwhole, -⟩ := List.filter_eq_cons_iff.1 hfilter
  obtain ⟨hsafe, hsafe'⟩ := List.forall_mem_append.1 hsafe
  have hmore : newline ∉ carriedAll before :=
    newline_not_mem_carriedAll hsafe fun d hd => Bool.eq_false_iff.2 (hbefore d hd)
  have hbody := Command.newline_not_mem_body (hsafe' whole List.mem_cons_self)
  have hline : newline ∉ start ++ carriedAll before ++ whole.command.body := by
    intro hm
    rcases List.mem_append.1 hm with hm | hm
    · exact (List.mem_append.1 hm).elim hstart hmore
    · exact hbody hm
  have hsplit : start ++ carriedAll (before ++ whole :: after) =
      start ++ carriedAll before ++ whole.command.body ++ newline :: carriedAll after := by
    rw [carriedAll_append, carriedAll_cons, isWhole_iff.1 hwhole, Command.bytes_eq]
    simp only [List.append_assoc, List.singleton_append]
  rw [hsplit, Lines.cut_append hline]
  exact ⟨_, _, rfl⟩

/-- The complete lines of what got across are the commands that got across in full, in their order,
exactly if none of these follows a command that was cut short. -/
theorem lines_carriedAll_iff (hsafe : ∀ d ∈ ds, d.command.IsWireSafe) :
    (Lines.cut (carriedAll ds)).1 = (ds.filter (·.isWhole)).map (·.command.body) ↔
      Unmerged ds := by
  induction ds with
  | nil => exact iff_of_true rfl .nil
  | cons d ds ih =>
    obtain ⟨hd, hds⟩ := List.forall_mem_cons.1 hsafe
    cases hwhole : d.isWhole with
    | true =>
      rw [cut_carriedAll_cons hd hwhole, List.filter_cons_of_pos hwhole, List.map_cons,
        unmerged_cons_of_not_part (not_isPart_of_isWhole hwhole), ← ih hds]
      exact List.cons_inj_right _
    | false =>
      have hnot : ¬ d.isWhole = true := by rw [hwhole]; exact Bool.false_ne_true
      rw [List.filter_cons_of_neg hnot, carriedAll_cons]
      by_cases hnil : d.carried = []
      · rw [hnil, List.nil_append, unmerged_cons_of_not_part fun hpart => hpart.1 hnil]
        exact ih hds
      have hpart : d.IsPart := ⟨hnil, hwhole⟩
      have hstart := newline_not_mem_carried hd hwhole
      cases hfilter : ds.filter (·.isWhole) with
      | nil =>
        have hnone (d' : Delivery) (hd' : d' ∈ ds) : d'.isWhole = false :=
          Bool.eq_false_iff.2 (List.filter_eq_nil_iff.1 hfilter d' hd')
        have hall : newline ∉ d.carried ++ carriedAll ds := fun hm =>
          (List.mem_append.1 hm).elim hstart (newline_not_mem_carriedAll hds hnone)
        rw [Lines.cut_of_not_mem hall]
        refine iff_of_true rfl (List.pairwise_cons.2 ⟨fun d' hd' _ => hnone d' hd', ?_⟩)
        exact List.pairwise_of_forall_mem_list fun _ _ d' hd' _ => hnone d' hd'
      | cons whole wholes =>
        -- The first line starts with the command that was cut short, and is longer than `whole`.
        obtain ⟨more, lines, hcut⟩ := cut_append_carriedAll hds hstart hfilter
        have hmem : whole ∈ ds.filter (·.isWhole) := hfilter ▸ List.mem_cons_self
        obtain ⟨hmem, hwhole'⟩ := List.mem_filter.1 hmem
        refine iff_of_false (fun heq => ?_) fun hunmerged => ?_
        · rw [hcut, List.map_cons] at heq
          have hbody := (List.cons_eq_cons.1 heq).1
          rw [List.append_left_eq_self] at hbody
          exact hnil (List.append_eq_nil_iff.1 hbody).1
        · have hfalse := (List.pairwise_cons.1 hunmerged).1 whole hmem hpart
          exact Bool.false_ne_true (hfalse.symm.trans hwhole')

/-- Where nothing follows a command that was cut short, what is left after the last line is nothing
or the start of that command. -/
theorem unfinished_carriedAll (hsafe : ∀ d ∈ ds, d.command.IsWireSafe) (h : Apart ds) :
    (Lines.cut (carriedAll ds)).2 = [] ∨
      ∃ d ∈ ds, d.IsPart ∧ (Lines.cut (carriedAll ds)).2 = d.carried := by
  induction ds with
  | nil => exact .inl rfl
  | cons d ds ih =>
    obtain ⟨hd, hds⟩ := List.forall_mem_cons.1 hsafe
    obtain ⟨hfirst, hrest⟩ := List.pairwise_cons.1 h
    have hlater : (Lines.cut (carriedAll (d :: ds))).2 = (Lines.cut (carriedAll ds)).2 →
        (Lines.cut (carriedAll (d :: ds))).2 = [] ∨
          ∃ d' ∈ d :: ds, d'.IsPart ∧ (Lines.cut (carriedAll (d :: ds))).2 = d'.carried := by
      intro hsame
      rw [hsame]
      refine (ih hds hrest).imp_right fun ⟨d', hd', hpart, hcarried⟩ => ?_
      exact ⟨d', List.mem_cons_of_mem _ hd', hpart, hcarried⟩
    cases hwhole : d.isWhole with
    | true => exact hlater (by rw [cut_carriedAll_cons hd hwhole])
    | false =>
      by_cases hnil : d.carried = []
      · exact hlater (by rw [carriedAll_cons, hnil, List.nil_append])
      have hpart : d.IsPart := ⟨hnil, hwhole⟩
      rw [carriedAll_cons, carriedAll_eq_nil fun d' hd' => hfirst d' hd' hpart, List.append_nil,
        Lines.cut_of_not_mem (newline_not_mem_carried hd hwhole)]
      exact .inr ⟨d, List.mem_cons_self, hpart, rfl⟩

end Delivery

namespace Link

variable {l l' l'' : Link} {ds ds' : List Delivery}

/-! ### The deliveries of a client -/

/-- A client that goes from one link to another gets some deliveries across. Where the server makes
no further room, they stay apart, and once one was cut short nothing more is taken. -/
structure Carries (l : Link) (ds : List Delivery) (l' : Link) : Prop where
  peer : l'.connection.peer = l.connection.peer
  stream : l'.connection.stream = l.connection.stream ++ Delivery.carriedAll ds
  isCut : l.connection.IsCut → l'.connection.IsCut
  exhausted : l.connection.Exhausted →
    l'.connection.Exhausted ∧ ∀ d ∈ ds, d.carried = []
  apart : l.connection.peer.refills = [] →
    Delivery.Apart ds ∧ ((∃ d ∈ ds, d.IsPart) → l'.connection.Exhausted)

/-- Whatever leaves the bytes of a connection alone delivers nothing. -/
theorem Carries.quiet {queue : List Arrival} {ended : Bool} {farewells : Nat}
    (h : l'.connection = { l.connection with queue, ended, farewells }) : Carries l [] l' where
  peer := by rw [h]
  stream := by rw [h]; exact (List.append_nil _).symm
  isCut := by rw [h]; exact id
  exhausted := by rw [h]; exact fun hex => ⟨hex, fun _ hm => absurd hm List.not_mem_nil⟩
  apart _ := ⟨.nil, fun ⟨_, hm, _⟩ => absurd hm List.not_mem_nil⟩

theorem Carries.refl (l : Link) : Carries l [] l := .quiet rfl

theorem Carries.trans (h : Carries l ds l') (h' : Carries l' ds' l'') :
    Carries l (ds ++ ds') l'' where
  peer := h'.peer.trans h.peer
  stream := by
    rw [h'.stream, h.stream, Delivery.carriedAll_append, List.append_assoc]
  isCut hcut := h'.isCut (h.isCut hcut)
  exhausted hex := by
    obtain ⟨hex', hds⟩ := h.exhausted hex
    obtain ⟨hex'', hds'⟩ := h'.exhausted hex'
    exact ⟨hex'', List.forall_mem_append.2 ⟨hds, hds'⟩⟩
  apart hrefills := by
    obtain ⟨hds, hpart⟩ := h.apart hrefills
    obtain ⟨hds', hpart'⟩ := h'.apart (by rwa [h.peer])
    refine ⟨hds.append hds' fun hp => (h'.exhausted (hpart hp)).2, fun ⟨d, hd, hp⟩ => ?_⟩
    rcases List.mem_append.1 hd with hd | hd
    · exact (h'.exhausted (hpart ⟨d, hd, hp⟩)).1
    · exact hpart' ⟨d, hd, hp⟩

theorem carries_expire (deadline : Nat) (l : Link) : Carries l [] (l.expire deadline) := .quiet rfl

theorem carries_read (deadline : Nat) (l : Link) : Carries l [] (l.read deadline).2 := by
  unfold read
  split
  · exact .refl l
  · exact .quiet rfl

theorem carries_of_read {deadline : Nat} {result : Received} (h : l.read deadline = (result, l')) :
    Carries l [] l' := by
  have hcarries := carries_read deadline l
  rwa [h] at hcarries

theorem carries_farewell (deadline : Nat) (l : Link) : Carries l [] (l.farewell deadline) := by
  unfold farewell
  split
  · exact .quiet rfl
  · exact .refl l
  · exact carries_expire ..

/-- A write gets a start of its bytes across, and all of them if it is done. -/
theorem exists_carried (deadline : Nat) (l : Link) (bytes : Bytes) :
    ∃ carried, carried <+: bytes ∧
      (write deadline l bytes).2.connection.peer = l.connection.peer ∧
      (write deadline l bytes).2.connection.stream = l.connection.stream ++ carried ∧
      (l.connection.IsCut → (write deadline l bytes).2.connection.IsCut) ∧
      ((write deadline l bytes).1 = .done ↔ carried = bytes) ∧
      (l.connection.peer.refills = [] → carried ≠ [] →
        (write deadline l bytes).1 = .done ∨ (write deadline l bytes).2.connection.Exhausted) := by
  induction l, bytes using write.induct deadline with
  | case1 l =>
    rw [write_nil]
    exact ⟨[], List.prefix_refl _, rfl, (List.append_nil _).symm, id, ⟨fun _ => rfl, fun _ => rfl⟩,
      fun _ hnot => absurd rfl hnot⟩
  | case2 l bytes hne l' hready hn ih =>
    obtain ⟨hconnection, hready'⟩ := ready_of_untilWritable hready
    rw [← hconnection] at hready'
    have hpart : (⟨l'.now, l'.connection.take l'.now (bytes.take (l'.portion bytes))⟩ : Link) =
        l'.part bytes := rfl
    rw [hpart] at ih
    obtain ⟨carried, hprefix, hpeer, hstream, hcut, hdone, -⟩ := ih
    have hwrite : write deadline l bytes = _ := write_of_ready hne hready hn
    rw [← hwrite] at hpeer hstream hcut hdone
    rw [part, Connection.peer_take, hconnection] at hpeer
    rw [part, Connection.stream_take, hconnection, List.append_assoc] at hstream
    have hsplit := List.take_append_drop (l'.portion bytes) bytes
    refine ⟨bytes.take (l'.portion bytes) ++ carried, ?_, hpeer, hstream, fun h => hcut ?_, ?_,
      fun hrefills _ => ?_⟩
    · obtain ⟨rest, hrest⟩ := hprefix
      exact ⟨rest, by rw [List.append_assoc, hrest, hsplit]⟩
    · rw [← hconnection] at h
      exact h.take ..
    · refine hdone.trans ⟨fun h => by rw [h, hsplit], fun h => ?_⟩
      exact List.append_cancel_left (h.trans hsplit.symm)
    · -- The write goes on from the link on which it began.
      have hsame : write deadline l bytes = write deadline l' bytes :=
        hwrite.trans (write_of_ready hne (untilWritable_of_ready hready') hn).symm
      rw [hsame]
      rw [← hconnection] at hrefills
      exact done_or_exhausted hrefills hready' ((portion_pos_iff hready' hne).1 hn)
  | case3 l bytes hne l' hready hn =>
    have hconnection := (ready_of_untilWritable hready).1
    rw [write_of_full hne hready hn]
    refine ⟨[], List.nil_prefix, congrArg _ hconnection, ?_, hconnection ▸ id, ?_,
      fun _ hnot => absurd rfl hnot⟩
    · rw [List.append_nil, hconnection]
    · refine ⟨fun hdone => ?_, fun heq => absurd heq.symm hne⟩
      cases hdone
  | case4 l bytes hne result l' hresult h =>
    have hconnection := connection_untilWritable deadline l
    rw [h] at hconnection
    rw [write_of_not_ready hne hresult h]
    refine ⟨[], List.nil_prefix, congrArg _ hconnection, ?_, hconnection ▸ id, ?_,
      fun _ hnot => absurd rfl hnot⟩
    · rw [List.append_nil, hconnection]
    · exact ⟨fun hdone => absurd hdone hresult, fun heq => absurd heq.symm hne⟩

/-- Writing a command is one delivery, whole if the write is done. -/
theorem exists_delivery (deadline : Nat) (l : Link) (command : Command) :
    ∃ d : Delivery, d.command = command ∧
      Carries l [d] (write deadline l command.bytes).2 ∧
      (d.isWhole = true ↔ (write deadline l command.bytes).1 = .done) := by
  obtain ⟨carried, hprefix, hpeer, hstream, hcut, hdone, hshort⟩ :=
    exists_carried deadline l command.bytes
  have hwhole : Delivery.isWhole ⟨command, carried, hprefix⟩ = true ↔
      (write deadline l command.bytes).1 = .done := Delivery.isWhole_iff.trans hdone.symm
  refine ⟨⟨command, carried, hprefix⟩, rfl, ⟨hpeer, ?_, hcut, fun hex => ?_, fun hrefills => ?_⟩,
    hwhole⟩
  · rw [hstream]
    exact congrArg _ (List.append_nil _).symm
  · have hsame := (write_of_exhausted deadline command.bytes hex).1
    rw [hsame] at hstream ⊢
    refine ⟨hex, fun d hd => ?_⟩
    rw [List.mem_singleton.1 hd]
    exact List.self_eq_append_right.1 hstream
  · refine ⟨List.pairwise_singleton .., fun ⟨d, hd, hpart⟩ => ?_⟩
    rw [List.mem_singleton.1 hd] at hpart
    refine (hshort hrefills hpart.1).resolve_left fun hdone => ?_
    exact Bool.false_ne_true (hpart.2.symm.trans (hwhole.2 hdone))

/-- A command that is never written is a delivery of nothing. -/
theorem exists_delivery_unsent (l : Link) (command : Command) :
    ∃ d : Delivery, d.command = command ∧ Carries l [d] l ∧ d.isWhole = false := by
  have hnil : Delivery.isWhole ⟨command, [], List.nil_prefix⟩ = false :=
    Delivery.isWhole_of_carried_eq_nil rfl
  refine ⟨⟨command, [], List.nil_prefix⟩, rfl, ⟨rfl, (List.append_nil _).symm, id, fun hex => ?_,
    fun _ => ⟨List.pairwise_singleton .., fun ⟨d, hd, hpart⟩ => ?_⟩⟩, hnil⟩
  · refine ⟨hex, fun d hd => ?_⟩
    rw [List.mem_singleton.1 hd]
  · rw [List.mem_singleton.1 hd] at hpart
    exact absurd rfl hpart.1

end Link

end MarketLoad.Venue
