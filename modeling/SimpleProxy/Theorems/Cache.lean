import SimpleProxy.Logic.Credentials

/-!
# The cache of credentials

Any sequence of calls of `has_valid_auth`, from the first one on, with any answers
of the database and the clock. An entry of the cache goes back to a successful
check of the same text, and it is used until a call reads a clock that is an hour
or more ahead of that check.
-/

namespace SimpleProxy.Theorems.Cache

open Interact CString

/-- A call of `has_valid_auth` that was made. -/
structure Visit where
  request : Bytes
  io : AuthHistory
  granted : Bool

/-- The calls so far, and the map they left. -/
inductive Visits : List Visit → Option (HashMap Int) → Prop
  | start : Visits [] none
  | next {past : List Visit} {map : Option (HashMap Int)} {map' : HashMap Int} {request : Bytes}
      {io : AuthHistory} {granted : Bool} (before : Visits past map)
      (run : (hasValidAuth map request).Runs io (granted, map')) :
      Visits (past ++ [⟨request, io, granted⟩]) (some map')

/-- The readings of the clock. -/
def clockReadings (io : AuthHistory) : List Int :=
  io.filterMap fun
    | ⟨.time, now⟩ => some now
    | _ => none

/-- A query of the database. -/
def isQuery : AuthCall → Bool
  | .dbExecute _ => true
  | _ => false

/-- The call is for the text `b`, its check against the database succeeds, and the
clock is read as `t₀` then. -/
def Confirms (b : Bytes) (t₀ : Int) (v : Visit) : Prop :=
  extractBasicAuthB64 v.request = some b ∧ ∃ before check,
    v.io = before ++ check ++ [⟨.time, t₀⟩] ∧ (checkCredentials b).Runs check true

/-- The call is not for `b`, or leaves alone what a check at `t₀` stored for it. -/
def Keeps (b : Bytes) (t₀ : Int) (v : Visit) : Prop :=
  extractBasicAuthB64 v.request = some b →
    (∀ t₁, ¬ Confirms b t₁ v) ∧ ∀ now ∈ clockReadings v.io, now < t₀ + cacheTtl

/-- The last successful check of `b` read `t₀`, and no call for `b` since then read
a clock past its lifetime. -/
def LastConfirmed (b : Bytes) (t₀ : Int) (past : List Visit) : Prop :=
  ∃ earlier v later, past = earlier ++ v :: later ∧ Confirms b t₀ v ∧ ∀ u ∈ later, Keeps b t₀ u

/-- What the map has to do with the calls that were made. -/
structure Cached (past : List Visit) (map : HashMap Int) : Prop where
  wf : map.Wf
  confirmed : ∀ {b ttl}, map.get b = some ttl →
    ∃ v ∈ past, ∃ t₀, Confirms b t₀ v ∧ ttl = t₀ + cacheTtl
  kept : ∀ {b t₀}, LastConfirmed b t₀ past → map.get b = some (t₀ + cacheTtl)

variable {past : List Visit} {map map₁ map' : HashMap Int} {request b : Bytes}
  {io before check : AuthHistory} {granted : Bool} {t₀ : Int}

/-! ## One call -/

theorem lastConfirmed_append {u : Visit} (h : LastConfirmed b t₀ (past ++ [u])) :
    Confirms b t₀ u ∨ LastConfirmed b t₀ past ∧ Keeps b t₀ u := by
  obtain ⟨earlier, v, later, heq, confirms, keeps⟩ := h
  rcases List.eq_nil_or_concat' later with rfl | ⟨later, w, rfl⟩
  · obtain ⟨-, hv⟩ := List.append_inj' heq rfl
    cases hv
    exact .inl confirms
  · rw [← List.cons_append, ← List.append_assoc] at heq
    obtain ⟨rfl, hw⟩ := List.append_inj' heq rfl
    cases hw
    refine .inr ⟨⟨earlier, v, later, rfl, confirms, ?_⟩, keeps _ (by simp)⟩
    intro u hu
    exact keeps u (List.mem_append_left _ hu)

/-- Before the check, the map loses at most the entry of `b`. -/
theorem unanswered_map (h : Unanswered map b before map₁) (wf : map.Wf) :
    map₁.Wf ∧ map₁.get b = none ∧ ∀ k, k ≠ b → map₁.get k = map.get k := by
  cases h with
  | absent miss => exact ⟨wf, miss, fun _ _ => rfl⟩
  | expired hit old =>
      obtain ⟨wf', get⟩ := wf.remove b
      refine ⟨wf', by rw [get, if_pos rfl], ?_⟩
      intro k hk
      rw [get, if_neg hk]

theorem unanswered_quiet (h : Unanswered map b before map₁) :
    ∀ e ∈ before, isQuery e.call = false := by
  cases h <;> simp [isQuery]

/-- A successful check asks the database. -/
theorem query_of_check (run : (checkCredentials b).Runs check true) :
    ∃ e ∈ check, isQuery e.call = true := by
  obtain ⟨user, name, pass, -, -, hmem⟩ := checkCredentials_runs run
  exact ⟨_, hmem, rfl⟩

/-- The map after a call whose check succeeds. -/
theorem get_confirmed (h : Visited map request io granted map') (wf : map.Wf)
    (confirms : Confirms b t₀ ⟨request, io, granted⟩) :
    granted = true ∧ map'.get b = some (t₀ + cacheTtl) := by
  obtain ⟨text, before, check, hio, run⟩ := confirms
  replace text : extractBasicAuthB64 request = some b := text
  replace hio : io = before ++ check ++ [⟨.time, t₀⟩] := hio
  obtain ⟨e, he, hquery⟩ := query_of_check run
  have queried : ¬ ∀ e ∈ io, isQuery e.call = false := by
    intro quiet
    rw [quiet e (by simp [hio, he])] at hquery
    cases hquery
  cases h with
  | noCredentials missing =>
      rw [missing] at text
      cases text
  | noMemory => exact absurd (by simp [isQuery]) queried
  | cached => exact absurd (by simp [isQuery]) queried
  | @denied _ first' check' _ _ first run' =>
      -- the last call is no reading of the clock
      rcases List.eq_nil_or_concat' check' with rfl | ⟨init, last, rfl⟩
      · rw [List.append_nil] at queried
        exact absurd (unanswered_quiet first) queried
      · rw [← List.append_assoc] at hio
        obtain ⟨-, hlast⟩ := List.append_inj' hio rfl
        cases hlast
        exact ((checkCredentials_untimed _).runs run' ⟨.time, t₀⟩ (by simp)).elim
  | @confirmed authB64 _ _ _ now text' first run' =>
      obtain rfl : b = authB64 := Option.some.inj (text.symm.trans text')
      obtain ⟨-, hnow⟩ := List.append_inj' hio rfl
      cases hnow
      obtain ⟨wf₁, absent, -⟩ := unanswered_map first wf
      refine ⟨rfl, ?_⟩
      rw [(wf₁.add absent _).2, if_pos rfl]

/-- A call that leaves an entry alone finds it, and keeps it. -/
theorem get_kept (h : Visited map request io granted map') (wf : map.Wf)
    (keeps : Keeps b t₀ ⟨request, io, granted⟩) (stored : map.get b = some (t₀ + cacheTtl)) :
    map'.get b = some (t₀ + cacheTtl) := by
  -- the entries of other texts stay as they are
  have other : ∀ {authB64 before map₁}, extractBasicAuthB64 request = some authB64 →
      Unanswered map authB64 before map₁ →
      (∀ now ∈ clockReadings before, now ∈ clockReadings io) → b ≠ authB64 ∧ map₁.Wf ∧
      map₁.get authB64 = none ∧ map₁.get b = some (t₀ + cacheTtl) := by
    intro authB64 before map₁ text first hread
    obtain ⟨wf₁, absent, same⟩ := unanswered_map first wf
    have hne : b ≠ authB64 := by
      rintro rfl
      obtain ⟨-, recent⟩ := keeps text
      cases first with
      | absent miss =>
          rw [stored] at miss
          cases miss
      | @expired ttl now hit old =>
          rw [stored] at hit
          obtain rfl := Option.some.inj hit
          have := recent now (hread now (by simp [clockReadings]))
          omega
    exact ⟨hne, wf₁, absent, (same b hne).trans stored⟩
  cases h with
  | noCredentials => exact stored
  | noMemory => exact stored
  | cached => exact stored
  | denied text first =>
      obtain ⟨-, -, -, same⟩ := other text first fun now hnow => by
        rw [clockReadings, List.filterMap_append]
        exact List.mem_append_left _ hnow
      exact same
  | confirmed now text first =>
      obtain ⟨hne, wf₁, absent, same⟩ := other text first fun now hnow => by
        rw [clockReadings, List.append_assoc, List.filterMap_append]
        exact List.mem_append_left _ hnow
      rw [(wf₁.add absent _).2, if_neg hne]
      exact same

/-- One call keeps the cache in step with the calls. -/
theorem cached_next (cached : Cached past map) (h : Visited map request io granted map') :
    Cached (past ++ [⟨request, io, granted⟩]) map' := by
  have wf := cached.wf
  have old : ∀ {b ttl}, map.get b = some ttl → ∃ v ∈ past ++ [⟨request, io, granted⟩],
      ∃ t₀, Confirms b t₀ v ∧ ttl = t₀ + cacheTtl := by
    intro b ttl hget
    obtain ⟨v, hv, found⟩ := cached.confirmed hget
    exact ⟨v, List.mem_append_left _ hv, found⟩
  have removed : ∀ {authB64 before map₁}, Unanswered map authB64 before map₁ → ∀ {b ttl},
      map₁.get b = some ttl → map.get b = some ttl := by
    intro authB64 before map₁ first b ttl hget
    obtain ⟨-, absent, same⟩ := unanswered_map first wf
    rw [← same b ?_]
    · exact hget
    · rintro rfl
      rw [absent] at hget
      cases hget
  -- the map is well formed, its entries were confirmed, and the last confirmation stays
  refine ⟨?_, ?_, ?_⟩
  · cases h with
    | noCredentials => exact wf
    | noMemory => exact wf
    | cached => exact wf
    | denied _ first => exact (unanswered_map first wf).1
    | confirmed now _ first =>
        obtain ⟨wf₁, absent, -⟩ := unanswered_map first wf
        exact (wf₁.add absent _).1
  · intro b ttl hget
    cases h with
    | noCredentials => exact old hget
    | noMemory => exact old hget
    | cached => exact old hget
    | denied _ first => exact old (removed first hget)
    | @confirmed authB64 before check _ now text first run =>
        obtain ⟨wf₁, absent, -⟩ := unanswered_map first wf
        rw [(wf₁.add absent _).2] at hget
        -- the entry that was added, or one that was there
        by_cases hb : b = authB64
        · subst hb
          rw [if_pos rfl] at hget
          refine ⟨_, List.mem_append_right _ (List.mem_singleton_self _), now, ?_,
            (Option.some.inj hget).symm⟩
          exact ⟨text, before, check, rfl, run⟩
        · rw [if_neg hb] at hget
          exact old (removed first hget)
  · intro b t₀ last
    rcases lastConfirmed_append last with confirms | ⟨last, keeps⟩
    · exact (get_confirmed h wf confirms).2
    · exact get_kept h wf keeps (cached.kept last)

theorem cached_of_visits {map : Option (HashMap Int)} (h : Visits past map) :
    Cached past (map.getD .create) := by
  induction h with
  | start =>
      refine ⟨HashMap.create_wf, ?_, ?_⟩
      · intro b ttl hget
        rw [Option.getD_none, HashMap.get_create] at hget
        cases hget
      · rintro b t₀ ⟨earlier, v, later, heq, -⟩
        simp at heq
  | next _ run ih => exact cached_next ih (hasValidAuth_runs run)

/-! ## Soundness and use -/

/-- Access is granted by the call's own check, or by an entry that goes back to an
earlier one. -/
theorem granted_sound (cached : Cached past map) (visited : Visited map request io granted map')
    (text : extractBasicAuthB64 request = some b) (hgranted : granted = true) :
    (∃ t₀, Confirms b t₀ ⟨request, io, granted⟩) ∨
      ∃ t ∈ clockReadings io, ∃ v ∈ past, ∃ t₀, Confirms b t₀ v ∧ t < t₀ + cacheTtl := by
  cases visited with
  | noCredentials => cases hgranted
  | noMemory => cases hgranted
  | denied => cases hgranted
  | @cached authB64 ttl now text' hit recent =>
      obtain rfl : b = authB64 := Option.some.inj (text.symm.trans text')
      obtain ⟨v, hv, t₀, confirms, rfl⟩ := cached.confirmed hit
      exact .inr ⟨now, by simp [clockReadings], v, hv, t₀, confirms, recent⟩
  | @confirmed authB64 before check _ now text' first check' =>
      obtain rfl : b = authB64 := Option.some.inj (text.symm.trans text')
      exact .inl ⟨now, text, before, check, rfl, check'⟩

/-- A call that looks past an entry has read a clock at the end of its lifetime. -/
theorem answered_of_stored {authB64 : Bytes} {after : AuthHistory} {t : Int}
    (text : extractBasicAuthB64 request = some b)
    (text' : extractBasicAuthB64 request = some authB64)
    (stored : map.get b = some (t₀ + cacheTtl)) (recent : t < t₀ + cacheTtl)
    (hread : (clockReadings (before ++ after)).head? = some t) :
    ¬ Unanswered map authB64 before map₁ := by
  intro first
  obtain rfl : b = authB64 := Option.some.inj (text.symm.trans text')
  cases first with
  | absent miss =>
      rw [stored] at miss
      cases miss
  | expired hit old =>
      rw [stored] at hit
      obtain rfl := Option.some.inj hit
      obtain rfl : _ = t := by simpa [clockReadings] using hread
      omega

/-- A call that finds an entry within its lifetime uses it. -/
theorem granted_again (visited : Visited map request io granted map')
    (text : extractBasicAuthB64 request = some b) (stored : map.get b = some (t₀ + cacheTtl))
    {t : Int} (hread : (clockReadings io).head? = some t) (recent : t < t₀ + cacheTtl) :
    granted = true ∧ ∀ e ∈ io, isQuery e.call = false := by
  cases visited with
  | noCredentials missing =>
      rw [missing] at text
      cases text
  | noMemory => simp [clockReadings] at hread
  | cached => exact ⟨rfl, by simp [isQuery]⟩
  | denied text' first => exact (answered_of_stored text text' stored recent hread first).elim
  | confirmed _ text' first =>
      rw [List.append_assoc] at hread
      exact (answered_of_stored text text' stored recent hread first).elim

/-- **The cache.** A call for the text `b` grants access only if its own check
succeeds, or it reads a clock within the lifetime of an earlier successful check
of `b`; and if it reads a clock within the lifetime of the last one, which no call
for `b` in between found expired, it grants access without a query. -/
theorem cache_spec {map : Option (HashMap Int)} (visits : Visits past map)
    (run : (hasValidAuth map request).Runs io (granted, map'))
    (text : extractBasicAuthB64 request = some b) :
    (granted = true → (∃ t₀, Confirms b t₀ ⟨request, io, granted⟩) ∨
      ∃ t ∈ clockReadings io, ∃ v ∈ past, ∃ t₀, Confirms b t₀ v ∧ t < t₀ + cacheTtl) ∧
    ∀ t₀ t, LastConfirmed b t₀ past → (clockReadings io).head? = some t → t < t₀ + cacheTtl →
      granted = true ∧ ∀ e ∈ io, isQuery e.call = false := by
  have cached := cached_of_visits visits
  have visited := hasValidAuth_runs run
  refine ⟨granted_sound cached visited text, ?_⟩
  intro t₀ t last hread recent
  exact granted_again visited text (cached.kept last) hread recent

/-- The credentials `u:p`. -/
def plainAuth : Bytes := bytes "Proxy-Authorization: Basic dTpw\r\n\r\n"

/-- The database knows them, and the check is over at time 0. -/
def firstVisit : AuthHistory :=
  [⟨.malloc, true⟩, ⟨.malloc, true⟩, ⟨.malloc, true⟩, ⟨.malloc, true⟩, ⟨.malloc, true⟩,
    ⟨.malloc, true⟩, ⟨.dbExecute (dbUserGet (bytes "u")), .rows (some (bytes "u", bytes "p"))⟩,
    ⟨.malloc, true⟩, ⟨.malloc, true⟩, ⟨.malloc, true⟩, ⟨.time, (0 : Int)⟩]

/-- The second call, at time 3599. -/
def secondVisit : AuthHistory := [⟨.malloc, true⟩, ⟨.time, (3599 : Int)⟩]

theorem cache_spec_twice :
    (true = true → (∃ t₀, Confirms (bytes "dTpw") t₀ ⟨plainAuth, secondVisit, true⟩) ∨
      ∃ t ∈ clockReadings secondVisit, ∃ v ∈ [⟨plainAuth, firstVisit, true⟩], ∃ t₀,
        Confirms (bytes "dTpw") t₀ v ∧ t < t₀ + cacheTtl) ∧
    ∀ t₀ t, LastConfirmed (bytes "dTpw") t₀ [⟨plainAuth, firstVisit, true⟩] →
      (clockReadings secondVisit).head? = some t → t < t₀ + cacheTtl →
      true = true ∧ ∀ e ∈ secondVisit, isQuery e.call = false := by
  have first : ((hasValidAuth none plainAuth).replay firstVisit).any (fun r =>
      r.1 && ((hasValidAuth (some r.2) plainAuth).replay secondVisit).any Prod.fst) = true := by
    decide
  obtain ⟨⟨granted, map⟩, hfirst, h⟩ := (Option.any_eq_true _ _).mp first
  obtain ⟨rfl, hagain⟩ := Bool.and_eq_true_iff.mp h
  obtain ⟨⟨granted', map'⟩, hsecond, hgranted⟩ := (Option.any_eq_true _ _).mp hagain
  obtain rfl : granted' = true := hgranted
  have visits : Visits [⟨plainAuth, firstVisit, true⟩] (some map) :=
    Visits.start.next (Prog.runs_of_replay hfirst)
  exact cache_spec visits (Prog.runs_of_replay hsecond) (by decide)

end SimpleProxy.Theorems.Cache
