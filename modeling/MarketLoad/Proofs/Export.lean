import MarketLoad.Proofs.Reconciliation
import MarketLoad.Proofs.Roster
import MarketLoad.Proofs.Text.Utf8
import MarketLoad.Record.Exports

/-!
# Exports of outcomes in any order

Traders of one run have different names (`Settings.nodup_traders`), so there is one order of its
outcomes by name (`Export.sortOutcomes_eq_of_perm`), which is the order of the bytes of the names.
Exports of the same outcomes therefore differ in their identifiers and times only
(`Export.agree_of_perm`).
-/

namespace MarketLoad

namespace Export

variable {outcomes outcomes' : List Outcome}

theorem perm_sortOutcomes (outcomes : List Outcome) : (sortOutcomes outcomes).Perm outcomes :=
  List.mergeSort_perm ..

theorem pairwise_le_sortOutcomes (outcomes : List Outcome) :
    (sortOutcomes outcomes).Pairwise fun o o' => o.trader.name ≤ o'.trader.name := by
  refine (List.pairwise_mergeSort (fun a b c hab hbc => ?_) (fun a b => ?_) outcomes).imp
    of_decide_eq_true
  · exact decide_eq_true (String.le_trans (of_decide_eq_true hab) (of_decide_eq_true hbc))
  · rw [Bool.or_eq_true, decide_eq_true_eq, decide_eq_true_eq]
    exact String.le_total ..

/-- Outcomes of different traders are sorted by the bytes of their names. -/
theorem pairwise_lt_sortOutcomes (hdistinct : (outcomes.map (·.trader)).Nodup) :
    (sortOutcomes outcomes).Pairwise fun o o' =>
      Utf8.encode o.trader.name < Utf8.encode o'.trader.name := by
  have hne : (sortOutcomes outcomes).Pairwise fun o o' => o.trader ≠ o'.trader :=
    List.pairwise_map.1 (((perm_sortOutcomes outcomes).map Outcome.trader).nodup_iff.2 hdistinct)
  refine (hne.and (pairwise_le_sortOutcomes outcomes)).imp fun {o o'} ⟨hne, hle⟩ => ?_
  refine Utf8.encode_lt (String.not_le.1 fun hge => hne ?_)
  exact congrArg Trader.mk (String.le_antisymm hle hge)

/-- Outcomes of different traders are sorted in one way, whatever their order was. -/
theorem sortOutcomes_eq_of_perm (hperm : outcomes.Perm outcomes')
    (hdistinct : (outcomes.map (·.trader)).Nodup) :
    sortOutcomes outcomes = sortOutcomes outcomes' := by
  have hsorted := (perm_sortOutcomes outcomes).trans
    (hperm.trans (perm_sortOutcomes outcomes').symm)
  refine List.Perm.eq_of_pairwise (fun o o' ho ho' hle hge => ?_)
    (pairwise_le_sortOutcomes outcomes) (pairwise_le_sortOutcomes outcomes') hsorted
  have htrader : o.trader = o'.trader := congrArg Trader.mk (String.le_antisymm hle hge)
  exact List.inj_on_of_nodup_map hdistinct ((perm_sortOutcomes outcomes).subset ho)
    (hperm.symm.subset ((perm_sortOutcomes outcomes').subset ho')) htrader

/-- Two exports tell the same, except that their identifiers and times may differ. -/
structure Agree (e e' : Export) : Prop where
  version : e.version = e'.version
  parameters : e.parameters = e'.parameters
  peak : e.peak = e'.peak
  report : e.report = e'.report
  outcomes : e.outcomes = e'.outcomes
  text : ∃ front middle rest,
    e.text.toList = front ++ Json.stringChars (some e.id.text) ++
      (middle ++ (Json.stringChars (some e.time.text) ++ rest)) ∧
    e'.text.toList = front ++ Json.stringChars (some e'.id.text) ++
      (middle ++ (Json.stringChars (some e'.time.text) ++ rest))

/-- The start of a member of a record on a line of its own. -/
def memberStart (key : String) : List Char :=
  Json.breakLine 1 ++ (Json.stringChars (some key) ++ [':', ' '])

theorem prettyMembers_cons (key : String) (value : Json) (members : List (Option String × Json)) :
    Json.prettyMembers 0 ((some key, value) :: members) =
      ',' :: (memberStart key ++ (Json.prettyChars 1 value ++ Json.prettyMembers 0 members)) := by
  rw [Json.prettyMembers, memberStart]
  simp

theorem text_eq (e : Export) : e.text.toList =
    '\x7b' :: (memberStart "version" ++ (Json.stringChars (some e.version) ++
      ',' :: memberStart "run_id")) ++ Json.stringChars (some e.id.text) ++
    (',' :: memberStart "generated_at" ++ (Json.stringChars (some e.time.text) ++
      Json.prettyMembers 0
        [(some "parameters", toRecord e.parameters), (some "peak_concurrency", toRecord e.peak),
          (some "report", toRecord e.report), (some "outcomes", toRecord e.outcomes)])) := by
  have hrecord : toRecord e = .object
      [(some "version", .string (some e.version)), (some "run_id", .string (some e.id.text)),
        (some "generated_at", .string (some e.time.text)), (some "parameters", toRecord e.parameters),
        (some "peak_concurrency", toRecord e.peak), (some "report", toRecord e.report),
        (some "outcomes", toRecord e.outcomes)] := rfl
  rw [text, Json.pretty, String.toList_ofList, hrecord, Json.prettyChars, prettyMembers_cons,
    prettyMembers_cons]
  simp only [Json.prettyChars, memberStart, List.append_assoc, List.cons_append, List.nil_append]

/-- Exports with the same content are written with the same text around their identifiers and
times. -/
theorem agree_of_eq {e e' : Export} (hversion : e.version = e'.version)
    (hparameters : e.parameters = e'.parameters) (hpeak : e.peak = e'.peak)
    (hreport : e.report = e'.report) (houtcomes : e.outcomes = e'.outcomes) : e.Agree e' where
  version := hversion
  parameters := hparameters
  peak := hpeak
  report := hreport
  outcomes := houtcomes
  text := by
    refine ⟨_, _, _, e.text_eq, ?_⟩
    rw [hversion, hparameters, hpeak, hreport, houtcomes]
    exact e'.text_eq

/-- The export of a run does not show in which order its outcomes came in. -/
theorem agree_of_perm (hperm : outcomes.Perm outcomes')
    (hdistinct : (outcomes.map (·.trader)).Nodup) (wall : Span) (parameters : RunParameters)
    (peak : UInt64) :
    Report.ofOutcomes outcomes wall = Report.ofOutcomes outcomes' wall ∧
    (∀ report report' id id' time time', Report.ofOutcomes outcomes wall = .ok report →
      Report.ofOutcomes outcomes' wall = .ok report' →
      let e := ofRun id time parameters report outcomes peak
      let e' := ofRun id' time' parameters report' outcomes' peak
      e.Agree e' ∧ e.outcomes.Perm outcomes ∧ e.outcomes.Pairwise fun o o' =>
        Utf8.encode o.trader.name < Utf8.encode o'.trader.name) ∧
    ∀ (s : Settings) sessions, s.sessions = .ok sessions → (sessions.map (·.trader)).Nodup := by
  have hsame := Report.ofOutcomes_perm hperm wall
  refine ⟨hsame, ?_, fun s sessions => Settings.nodup_traders⟩
  intro report report' id id' time time' hreport hreport' e e'
  obtain rfl : report = report' := Except.ok.inj (hreport.symm.trans (hsame.trans hreport'))
  exact ⟨agree_of_eq rfl rfl rfl rfl (sortOutcomes_eq_of_perm hperm hdistinct),
    perm_sortOutcomes outcomes, pairwise_lt_sortOutcomes hdistinct⟩

/-- The tenth trader comes before the second, whichever finished first. -/
theorem agree_of_perm_tenth :
    let second : Outcome := .untraded ⟨"trader2"⟩ .zero (.worker "lost")
    let tenth : Outcome := .untraded ⟨"trader10"⟩ .zero (.connect "mock:8888" "refused")
    let parameters : RunParameters := ⟨"mock:8888", 10, .zero, .zero, 20, none⟩
    ∃ report, Report.ofOutcomes [second, tenth] .zero = .ok report ∧
      let e := ofRun .nil ⟨0, 0⟩ parameters report [second, tenth] 2
      let e' := ofRun ⟨1, by decide⟩ ⟨1, 0⟩ parameters report [tenth, second] 2
      e.Agree e' ∧ e.outcomes = [tenth, second] := by
  intro second tenth parameters
  have hperm : [second, tenth].Perm [tenth, second] := .swap ..
  have hdistinct : ([second, tenth].map (·.trader)).Nodup := by decide
  obtain ⟨hsame, hexport, -⟩ := agree_of_perm hperm hdistinct .zero parameters 2
  have hreport : Report.ofOutcomes [second, tenth] .zero =
      .ok ⟨2, 0, 2, 0, 0, 0, .zero, .zero false, .zero false, .empty⟩ := by decide +kernel
  have hagree := (hexport _ _ .nil ⟨1, by decide⟩ ⟨0, 0⟩ ⟨1, 0⟩ hreport
    (hsame.symm.trans hreport)).1
  refine ⟨_, hreport, hagree, hagree.outcomes.trans ?_⟩
  exact List.mergeSort_of_pairwise (by decide +kernel)

end Export

end MarketLoad
