import Mathlib.Data.List.Nodup
import MarketLoad.Proofs.Settings

/-!
# The roster of a run

Settings make sessions exactly if they pass validation, and otherwise fail as validation does
(`Settings.sessions_eq_error_iff`). The sessions are the roster of the run: traders of different
names, each with a seed of its own if the run has one (`Settings.roster_of_valid`).
-/

namespace MarketLoad.Settings

variable {s : Settings}

/-! ### Failing -/

/-- Validation blames the stem of the names, and no single trader. -/
theorem fault?_ne_trader (s : Settings) (index : Nat) : s.fault? ≠ some (.trader index) := by
  unfold fault?
  repeat' split
  all_goals nofun

theorem validate_ne_trader (s : Settings) (index : Nat) :
    s.validate ≠ .error (.invalid (.trader index)) := by
  unfold validate
  cases hfault : s.fault? with
  | none => nofun
  | some setting =>
    intro h
    cases h
    exact s.fault?_ne_trader index hfault

/-- There are no sessions exactly if validation fails, and then with the same error. -/
theorem sessions_eq_error_iff (s : Settings) (e : SettingsError) :
    s.sessions = .error e ↔ s.validate = .error e := by
  cases hvalidate : s.validate with
  | error e' =>
    have hsessions : s.sessions = .error e' := by
      rw [sessions, hvalidate]
      rfl
    rw [hsessions]
    exact ⟨fun h => by cases h; rfl, fun h => by cases h; rfl⟩
  | ok =>
    rw [sessions_of_valid ((validate_eq_ok_iff s).1 hvalidate)]
    constructor <;> intro h <;> cases h

/-! ### The traders and their seeds -/

theorem sessionOf_of_getElem? {n i : Nat} {session : SessionSettings}
    (h : ((List.range' 1 n).map s.sessionOf)[i]? = some session) :
    i < n ∧ session = s.sessionOf (i + 1) := by
  rw [List.getElem?_map, Option.map_eq_some_iff] at h
  obtain ⟨index, hindex, rfl⟩ := h
  obtain ⟨hlt, rfl⟩ := List.getElem?_eq_some_iff.1 hindex
  rw [List.length_range'] at hlt
  rw [List.getElem_range', Nat.one_mul, Nat.add_comm]
  exact ⟨hlt, rfl⟩

theorem traderName_injective (s : Settings) : Function.Injective s.traderName := by
  intro index index' h
  rw [traderName, traderName, String.append_right_inj] at h
  exact Text.digits_injective (String.ofList_injective h)

theorem nodup_traders {sessions : List SessionSettings} (h : s.sessions = .ok sessions) :
    (sessions.map (·.trader)).Nodup := by
  have hvalid : s.validate = .ok () := by
    cases hvalidate : s.validate with
    | error e =>
      rw [(s.sessions_eq_error_iff e).2 hvalidate] at h
      cases h
    | ok => rfl
  rw [sessions_of_valid ((validate_eq_ok_iff s).1 hvalid)] at h
  cases h
  rw [List.map_map]
  refine List.Nodup.map (fun index index' heq => ?_) List.nodup_range'
  exact s.traderName_injective (congrArg Trader.name heq)

theorem toNat_add_ofNat (seed : UInt64) (index : Nat) :
    (seed + UInt64.ofNat index).toNat = (seed.toNat + index) % UInt64.size := by
  rw [UInt64.toNat_add, UInt64.toNat_ofNat', Nat.add_mod_mod]

/-- Fewer numbers than there are seeds give different seeds, even where these wrap around. -/
theorem nodup_seeds (seed : UInt64) {n : Nat} (h : n < UInt64.size) :
    ((List.range' 1 n).map fun index => seed + UInt64.ofNat index).Nodup := by
  refine List.Nodup.map_on (fun index hindex index' hindex' heq => ?_) List.nodup_range'
  have hlt : index < UInt64.size := by have := (List.mem_range'_1.1 hindex).2; omega
  have hlt' : index' < UInt64.size := by have := (List.mem_range'_1.1 hindex').2; omega
  have hofNat : UInt64.ofNat index = UInt64.ofNat index' := (UInt64.add_right_inj seed).1 heq
  have hmod := congrArg UInt64.toNat hofNat
  rw [UInt64.toNat_ofNat', UInt64.toNat_ofNat'] at hmod
  rwa [Nat.mod_eq_of_lt hlt, Nat.mod_eq_of_lt hlt'] at hmod

/-! ### The roster -/

/-- The sessions of a run, one for each of its traders in the order of their numbers. -/
structure IsRoster (s : Settings) (sessions : List SessionSettings) : Prop where
  length : sessions.length = s.traders.toNat
  name (i : Nat) (session : SessionSettings) : sessions[i]? = some session →
    session.trader.name = s.stem ++ toString (i + 1)
  safe : ∀ session ∈ sessions, isWireSafe session.trader.name = true
  traders : (sessions.map (·.trader)).Nodup
  /-- The seed of a session is the run's plus the trader's number, as far as 64 bits go. -/
  seed (i : Nat) (session : SessionSettings) : sessions[i]? = some session →
    session.seed.map UInt64.toNat =
      s.seed.map fun seed => (seed.toNat + (i + 1)) % UInt64.size
  seeds : s.seed.isSome = true → (sessions.map (·.seed)).Nodup
  shared : ∀ session ∈ sessions, session.endpoint = s.endpoint ∧ session.duration = s.duration ∧
    session.interval = s.interval ∧ session.timeouts = s.timeouts ∧ session.shape = s.shape ∧
    session.catalog = s.catalog

theorem roster_of_valid (h : s.Valid) :
    s.IsRoster ((List.range' 1 s.traders.toNat).map s.sessionOf) where
  length := by rw [List.length_map, List.length_range']
  name i session hsession := by
    obtain ⟨-, rfl⟩ := sessionOf_of_getElem? hsession
    rfl
  safe session hsession := by
    obtain ⟨index, hindex, rfl⟩ := List.mem_map.1 hsession
    exact h.isWireSafe_traderName hindex
  traders := nodup_traders (sessions_of_valid h)
  seed i session hsession := by
    obtain ⟨-, rfl⟩ := sessionOf_of_getElem? hsession
    rw [sessionOf, Option.map_map]
    congr 1
    exact funext fun seed => toNat_add_ofNat seed (i + 1)
  seeds hseed := by
    obtain ⟨seed, hseed⟩ := Option.isSome_iff_exists.1 hseed
    have hseeds : ((List.range' 1 s.traders.toNat).map s.sessionOf).map (·.seed) =
        ((List.range' 1 s.traders.toNat).map fun index => seed + UInt64.ofNat index).map some := by
      rw [List.map_map, List.map_map]
      refine List.map_congr_left fun index _ => ?_
      rw [Function.comp_apply, sessionOf, hseed]
      rfl
    rw [hseeds]
    exact (nodup_seeds seed s.traders.toNat_lt_size).map (Option.some_injective _)
  shared session hsession := by
    obtain ⟨index, -, rfl⟩ := List.mem_map.1 hsession
    exact ⟨rfl, rfl, rfl, rfl, rfl, rfl⟩

/-- Settings fail to make sessions exactly if validation fails, and with the same error; no name of a
single trader is ever at fault. Valid settings make the roster of their run. -/
theorem sessions_exact (s : Settings) :
    (∀ e, s.sessions = .error e ↔ s.validate = .error e) ∧
      (∀ index, s.sessions ≠ .error (.invalid (.trader index))) ∧
      (s.validate = .ok () → ∃ sessions, s.sessions = .ok sessions ∧ s.IsRoster sessions) := by
  refine ⟨s.sessions_eq_error_iff, fun index h => ?_, fun h => ?_⟩
  · exact s.validate_ne_trader index ((s.sessions_eq_error_iff _).1 h)
  · have hvalid := (validate_eq_ok_iff s).1 h
    exact ⟨_, sessions_of_valid hvalid, roster_of_valid hvalid⟩

/-- Three traders who are named by their numbers alone, with seeds that wrap around. -/
theorem sessions_exact_wrapped :
    let s : Settings := { standard with traders := 3, stem := "", seed := some 18446744073709551614 }
    s.validate = .ok () ∧ ∃ sessions, s.sessions = .ok sessions ∧ s.IsRoster sessions ∧
      sessions.map (·.trader.name) = ["1", "2", "3"] ∧
      sessions.map (·.seed) = [some 18446744073709551615, some 0, some 1] := by
  intro s
  have hvalid : s.validate = .ok () := by decide +kernel
  obtain ⟨sessions, hsessions, hroster⟩ := (sessions_exact s).2.2 hvalid
  have hthree : s.sessions = .ok [s.sessionOf 1, s.sessionOf 2, s.sessionOf 3] := by decide +kernel
  obtain rfl := Except.ok.inj (hthree.symm.trans hsessions)
  exact ⟨hvalid, _, hsessions, hroster, by decide, by decide⟩

end MarketLoad.Settings
