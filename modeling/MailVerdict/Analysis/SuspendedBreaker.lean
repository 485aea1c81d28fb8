import MailVerdict.Model.CircuitBreaker

/-!
# What clears a suspended breaker

A suspension is to stand until a call succeeds. Of the operations on the row only
`record_backoff` does not look at what it overwrites: the answer of a call that was under way,
or of the probe itself, opens a suspended row for its own retry time, after which anyone may
call (`suspension_stands`). Probes are an interval apart (`probes_keep_interval`).
-/

namespace MailVerdict.Analysis.SuspendedBreaker

open MailVerdict.Computation Model.CircuitBreaker

/-- Suspended and not yet answered by a success, the breaker is unavailable, now and later. -/
def Standing (s : State) : Prop :=
  s.awaited = true → ∃ c, s.row = some c ∧ ∀ now, isAvailable c now = false

def Undisturbed (s : State) : Label → Prop
  | .recordBackoff _ _ _ => ∀ c ∈ s.row, c.state ≠ .suspended
  | _ => True

instance (s : State) (l : Label) : Decidable (Undisturbed s l) := by
  cases l <;> unfold Undisturbed <;> infer_instance

/-! ## The row -/

/-- A suspended row is one whose suspension stands open, and an open row clears itself. -/
structure Kept (s : State) : Prop where
  awaited : ∀ c ∈ s.row, c.state = .suspended → s.awaited = true
  clears : ∀ c ∈ s.row, c.state = .open → c.retryAfter.isSome = true

theorem kept_start : Kept start where
  awaited _ h := by cases h
  clears _ h := by cases h

theorem unavailable_of_suspended {c : CircuitStatus} (h : c.state = .suspended) (now : Time) :
    isAvailable c now = false := by
  rw [isAvailable, h]

theorem state_recordBackoff (began : Time) (retryAfter : ℕ) (reason : Option String)
    (row : Option CircuitStatus) : (recordBackoff began retryAfter reason row).state = .open := by
  cases row <;> rfl

theorem retryAfter_recordBackoff (began : Time) (retryAfter : ℕ) (reason : Option String)
    (row : Option CircuitStatus) :
    (recordBackoff began retryAfter reason row).retryAfter = some (began + retryAfter) := by
  cases row <;> rfl

theorem state_recordUnavailable (began : Time) (reason : String) (probeInterval : ℕ)
    (row : Option CircuitStatus) :
    (recordUnavailable began reason probeInterval row).state = .suspended := by
  cases row <;> rfl

theorem available_of_open {c : CircuitStatus} (h : c.state = .open)
    (hclears : c.retryAfter.isSome = true) : ∃ now, isAvailable c now = true := by
  obtain ⟨retryAfter, hretry⟩ := Option.isSome_iff_exists.1 hclears
  refine ⟨retryAfter, ?_⟩
  rw [isAvailable, h, hretry]
  exact decide_eq_true (Nat.le_refl _)

theorem unavailable_iff {c : CircuitStatus}
    (hclears : c.state = .open → c.retryAfter.isSome = true) :
    (∀ now, isAvailable c now = false) ↔ c.state = .suspended := by
  constructor
  · intro h
    cases hstate : c.state with
    | closed =>
      have hopen : isAvailable c 0 = true := by rw [isAvailable, hstate]
      rw [h 0] at hopen
      cases hopen
    | «open» =>
      obtain ⟨now, hnow⟩ := available_of_open hstate (hclears hstate)
      rw [h now] at hnow
      cases hnow
    | suspended => rfl
  · intro h now
    exact unavailable_of_suspended h now

theorem standing_iff {s : State} (h : Kept s) :
    Standing s ↔ (s.awaited = true → ∃ c, s.row = some c ∧ c.state = .suspended) := by
  refine imp_congr_right fun _ => exists_congr fun c => and_congr_right fun hrow => ?_
  exact unavailable_iff (h.clears c hrow)

theorem tryProbe_row (began : Time) (probeInterval : ℕ) (row : Option CircuitStatus) :
    ∀ c' ∈ (tryProbe began probeInterval row).1, ∃ c ∈ row, c'.state = c.state ∧
      (c.retryAfter.isSome = true → c'.retryAfter.isSome = true) := by
  intro c' hc'
  cases row with
  | none => cases hc'
  | some c =>
    refine ⟨c, rfl, ?_⟩
    rw [tryProbe] at hc'
    split at hc'
    · cases hc'
      exact ⟨rfl, fun _ => rfl⟩
    · cases hc'
      exact ⟨rfl, id⟩

theorem tryProbe_isSome (began : Time) (probeInterval : ℕ) {c : CircuitStatus} :
    ∃ c', (tryProbe began probeInterval (some c)).1 = some c' ∧ c'.state = c.state := by
  rw [tryProbe]
  split
  · exact ⟨_, rfl, rfl⟩
  · exact ⟨_, rfl, rfl⟩

theorem created_cases (row : Option CircuitStatus) : row = some (created row) ∨
    created row = .fresh := by
  cases row with
  | none => exact Or.inr rfl
  | some c => exact Or.inl rfl

/-! ## The steps -/

theorem kept_step {s t : State} {l : Label} (h : Kept s) (hstep : step s l = some t) : Kept t := by
  cases l with
  | tick elapsed =>
    cases hstep
    exact ⟨h.awaited, h.clears⟩
  | status =>
    cases hstep
    obtain hrow | hfresh := created_cases s.row
    · constructor
      · intro c hc
        exact h.awaited c (hrow.trans hc)
      · intro c hc
        exact h.clears c (hrow.trans hc)
    · constructor
      · intro c hc hstate
        cases hc
        rw [hfresh] at hstate
        cases hstate
      · intro c hc hstate
        cases hc
        rw [hfresh] at hstate
        cases hstate
  | recordSuccess =>
    cases hstep
    constructor
    · intro c hc hstate
      obtain ⟨_, _, rfl⟩ := Option.map_eq_some_iff.1 hc
      cases hstate
    · intro c hc hstate
      obtain ⟨_, _, rfl⟩ := Option.map_eq_some_iff.1 hc
      cases hstate
  | recordBackoff began retryAfter reason =>
    obtain ⟨-, hstep⟩ := Option.ite_none_right_eq_some.1 hstep
    cases hstep
    constructor
    · intro c hc hstate
      cases hc
      rw [state_recordBackoff] at hstate
      cases hstate
    · intro c hc _
      cases hc
      rw [retryAfter_recordBackoff]
      rfl
  | recordUnavailable began reason probeInterval =>
    obtain ⟨-, hstep⟩ := Option.ite_none_right_eq_some.1 hstep
    cases hstep
    constructor
    · intro c _ _
      rfl
    · intro c hc hstate
      cases hc
      rw [state_recordUnavailable] at hstate
      cases hstate
  | tryProbe began probeInterval =>
    obtain ⟨-, hstep⟩ := Option.ite_none_right_eq_some.1 hstep
    cases hstep
    constructor
    · intro c' hc' hstate
      obtain ⟨c, hc, hsame, -⟩ := tryProbe_row began probeInterval s.row c' hc'
      exact h.awaited c hc (hsame.symm.trans hstate)
    · intro c' hc' hstate
      obtain ⟨c, hc, hsame, hretry⟩ := tryProbe_row began probeInterval s.row c' hc'
      exact hretry (h.clears c hc (hsame.symm.trans hstate))

/-- A step lets the suspension stand exactly when it is undisturbed. -/
theorem standing_step_iff {s t : State} {l : Label} (h : Kept s) (hs : Standing s)
    (hstep : step s l = some t) : Standing t ↔ Undisturbed s l := by
  rw [standing_iff (kept_step h hstep)]
  rw [standing_iff h] at hs
  cases l with
  | tick elapsed =>
    cases hstep
    exact iff_of_true hs trivial
  | status =>
    cases hstep
    refine iff_of_true (fun hawaited => ?_) trivial
    obtain ⟨c, hrow, hstate⟩ := hs hawaited
    refine ⟨c, ?_, hstate⟩
    rw [hrow, created, Option.getD_some]
  | recordSuccess =>
    cases hstep
    exact iff_of_true Bool.noConfusion trivial
  | recordBackoff began retryAfter reason =>
    obtain ⟨-, hstep⟩ := Option.ite_none_right_eq_some.1 hstep
    cases hstep
    constructor
    · intro hstands c hc hsuspended
      obtain ⟨c', hc', hstate⟩ := hstands (h.awaited c hc hsuspended)
      cases hc'
      rw [state_recordBackoff] at hstate
      cases hstate
    · intro hquiet hawaited
      obtain ⟨c, hrow, hstate⟩ := hs hawaited
      exact absurd hstate (hquiet c hrow)
  | recordUnavailable began reason probeInterval =>
    obtain ⟨-, hstep⟩ := Option.ite_none_right_eq_some.1 hstep
    cases hstep
    refine iff_of_true (fun _ => ?_) trivial
    exact ⟨_, rfl, state_recordUnavailable began reason probeInterval s.row⟩
  | tryProbe began probeInterval =>
    obtain ⟨-, hstep⟩ := Option.ite_none_right_eq_some.1 hstep
    cases hstep
    refine iff_of_true (fun hawaited => ?_) trivial
    obtain ⟨c, hrow, hstate⟩ := hs hawaited
    obtain ⟨c', hrow', hsame⟩ := tryProbe_isSome began probeInterval (c := c)
    refine ⟨c', ?_, hsame.trans hstate⟩
    rw [hrow, hrow']

/-! ## Runs -/

/-- **A suspension stands** in every state of a run exactly when no step of the run is a backoff
on a suspended row. -/
theorem suspension_stands (ls : List Label) {t : State} (h : system.exec start ls = some t) :
    (∀ s ∈ system.trail start ls, Standing s) ↔ system.execMeets Undisturbed start ls = true :=
  TransitionSystem.trail_iff_execMeets (fun _ _ _ => kept_step)
    (fun _ _ _ => standing_step_iff) ls kept_start Bool.noConfusion h

/-- A key is rejected, a probe finds it rejected still, and one that worked closes the breaker. -/
def probedRun : List Label :=
  [.status, .recordUnavailable 0 "anthropic rejected the API key" 300000, .tick 300000,
    .tryProbe 300000 300000, .recordUnavailable 300000 "anthropic rejected the API key" 300000,
    .tick 300000, .tryProbe 600000 300000, .recordSuccess]

theorem suspension_stands_probed :
    (system.exec start probedRun).isSome = true ∧
      ∀ s ∈ system.trail start probedRun, Standing s := by
  have hruns : system.exec start probedRun = some ⟨600000, some .fresh, false⟩ := by decide
  exact ⟨Option.isSome_iff_exists.2 ⟨_, hruns⟩, (suspension_stands probedRun hruns).2 (by decide)⟩

/-- A call that was under way when the key was rejected ends with a 429: half a minute later the
breaker is available without any success. -/
theorem backoff_clears_suspension :
    ¬ ∀ s, system.Reachable TransitionSystem.anyStep s → Standing s := by
  intro h
  obtain ⟨c, hrow, hclosed⟩ := h ⟨30000, some ⟨.open, some "anthropic rate limited", some 0,
    some 30000⟩, true⟩ (TransitionSystem.reachable_of_exec_any
      [.recordUnavailable 0 "anthropic rejected the API key" 300000,
        .recordBackoff 0 30000 (some "anthropic rate limited"), .tick 30000] rfl (by decide)) rfl
  cases hrow
  exact absurd (hclosed 30000) (by decide)

/-! ## Probes -/

variable {began later : Time} {interval wait : ℕ} {s t u : State}

def ClosedUntil (time : Time) (s : State) : Prop :=
  ∀ c ∈ s.row, c.state = .suspended → ∃ retryAfter ∈ c.retryAfter, time ≤ retryAfter

/-- A suspension recorded at `began` or later, for `interval` at least. -/
def Later (began : Time) (interval : ℕ) : Label → Prop
  | .recordUnavailable later _ wait => began ≤ later ∧ interval ≤ wait
  | _ => True

theorem tryProbe_cases (began : Time) (interval : ℕ) (row : Option CircuitStatus) :
    (∃ c, row = some c ∧ c.state = .suspended ∧ (∀ retryAfter ∈ c.retryAfter, retryAfter ≤ began) ∧
      tryProbe began interval row = (some { c with retryAfter := some (began + interval) }, true)) ∨
    tryProbe began interval row = (row, false) := by
  cases row with
  | none => exact Or.inr rfl
  | some c =>
    by_cases hdue : probeDue began c = true
    · refine Or.inl ⟨c, rfl, ?_, fun retryAfter hretry => ?_, by simp [tryProbe, hdue]⟩
      · simp [probeDue] at hdue
        exact hdue.1
      · simp [probeDue, Option.mem_def.1 hretry] at hdue
        exact hdue.2
    · exact Or.inr (by simp [tryProbe, hdue])

theorem closedUntil_step {l : Label} (h : ClosedUntil (began + interval) s)
    (hl : Later began interval l) (hstep : step s l = some t) :
    ClosedUntil (began + interval) t := by
  intro c hc hstate
  cases l with
  | tick elapsed =>
    cases hstep
    exact h c hc hstate
  | status =>
    cases hstep
    obtain hrow | hfresh := created_cases s.row
    · exact h c (hrow.trans hc) hstate
    · cases hc
      rw [hfresh] at hstate
      cases hstate
  | recordSuccess =>
    cases hstep
    obtain ⟨_, _, rfl⟩ := Option.map_eq_some_iff.1 hc
    cases hstate
  | recordBackoff began' retryAfter reason =>
    obtain ⟨-, hstep⟩ := Option.ite_none_right_eq_some.1 hstep
    cases hstep
    cases hc
    rw [state_recordBackoff] at hstate
    cases hstate
  | recordUnavailable later reason wait =>
    obtain ⟨-, hstep⟩ := Option.ite_none_right_eq_some.1 hstep
    cases hstep
    cases hc
    exact ⟨later + wait, by cases s.row <;> rfl, Nat.add_le_add hl.1 hl.2⟩
  | tryProbe later wait =>
    obtain ⟨-, hstep⟩ := Option.ite_none_right_eq_some.1 hstep
    cases hstep
    obtain ⟨c', hrow, hsuspended, hdue, hprobe⟩ | hprobe := tryProbe_cases later wait s.row
    · obtain ⟨retryAfter, hretry, hle⟩ := h c' hrow hsuspended
      rw [hprobe] at hc
      cases hc
      exact ⟨_, rfl, Nat.le_trans hle (Nat.le_add_right_of_le (hdue retryAfter hretry))⟩
    · rw [hprobe] at hc
      exact h c hc hstate

/-- **Probes keep their interval**: after a probe that is granted none is before its interval has
passed, whatever happens meanwhile, if nothing that began before it suspends the breaker anew. -/
theorem probes_keep_interval (hgranted : (tryProbe began interval s.row).2 = true)
    (hstep : step s (.tryProbe began interval) = some t) (ls : List Label)
    (hls : ∀ l ∈ ls, Later began interval l) (hexec : system.exec t ls = some u)
    (hlater : (tryProbe later wait u.row).2 = true) : began + interval ≤ later := by
  have hclosed : ClosedUntil (began + interval) t := by
    obtain ⟨-, hstep⟩ := Option.ite_none_right_eq_some.1 hstep
    cases hstep
    obtain ⟨c, -, -, -, hprobe⟩ | hprobe := tryProbe_cases began interval s.row
    · intro c' hc' _
      rw [hprobe] at hc'
      cases hc'
      exact ⟨_, rfl, Nat.le_refl _⟩
    · rw [hprobe] at hgranted
      cases hgranted
  have hrun : ClosedUntil (began + interval) u := by
    clear hstep
    induction ls generalizing t with
    | nil =>
      cases hexec
      exact hclosed
    | cons l ls ih =>
      obtain ⟨m, hm, hrest⟩ := Option.bind_eq_some_iff.1 hexec
      exact ih (fun l' hl' => hls l' (List.mem_cons_of_mem l hl')) hrest
        (closedUntil_step hclosed (hls l List.mem_cons_self) hm)
  obtain ⟨c, hrow, hsuspended, hdue, -⟩ | hprobe := tryProbe_cases later wait u.row
  · obtain ⟨retryAfter, hretry, hle⟩ := hrun c hrow hsuspended
    exact Nat.le_trans hle (hdue retryAfter hretry)
  · rw [hprobe] at hlater
    cases hlater

def suspendedAt (retryAfter : Time) : State :=
  ⟨retryAfter, some ⟨.suspended, none, none, some retryAfter⟩, true⟩

/-- What follows a probe at 300000: a success, and a rejected call that suspends anew. -/
def rejected : List Label :=
  [.recordSuccess, .tick 50000, .recordUnavailable 350000 "rejected" 300000, .tick 300000]

theorem probes_keep_interval_of_rejected : ∃ t u,
    step (suspendedAt 300000) (.tryProbe 300000 300000) = some t ∧
    (tryProbe 300000 300000 (suspendedAt 300000).row).2 = true ∧
    (tryProbe 350000 300000 t.row).2 = false ∧
    system.exec t rejected = some u ∧ (tryProbe 650000 300000 u.row).2 = true ∧
    300000 + 300000 ≤ 650000 :=
  ⟨_, _, rfl, by decide, by decide, rfl, by decide,
    probes_keep_interval (s := suspendedAt 300000) (by decide) rfl rejected
      (by simp [rejected, Later]) rfl (show (tryProbe 650000 300000 _).2 = true by decide)⟩

end MailVerdict.Analysis.SuspendedBreaker
