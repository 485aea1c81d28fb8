import MailVerdict.Model.ActionSubmissions

/-!
# One execution for one key

The row of a key is its lock: who runs the action has its token in it. An execution whose
heartbeats arrive keeps the row (`Claimed.holder`), and a request that takes a claim over has
seen a heartbeat too old for that, while it held the lock that every other claim needs.

What the takeover does not do is look again. Its update names the key alone, and between the
check and the update the claim it judged may be stored or released by the request that was
only slow, or pruned. `Undisturbed` excludes that, and the prune of a claim whose action still
runs; `once_only` is what holds then.
-/

namespace MailVerdict.Analysis.OnceOnly

open MailVerdict.Computation Model.ActionSubmissions

variable {s t : State} {q : RequestId} {l : Label}

/-- A takeover finds the claim it judged without a response still, and a prune deletes no claim
whose action is running. -/
def Undisturbed (s : State) : Label → Prop
  | .takeOver _ => ∃ row ∈ s.row, row.response = none
  | .prune retention => ∀ row ∈ s.row, expired s.now retention row = true →
      s.phase row.claimToken ≠ .running
  | _ => True

instance (s : State) (l : Label) : Decidable (Undisturbed s l) := by
  cases l <;> unfold Undisturbed <;> infer_instance

def hasStarted : Phase → Bool
  | .running | .ended _ | .finished | .crashed => true
  | _ => false

/-! ## The invariant -/

/-- The row and the executions: an execution that kept its heartbeats is the one in the row, a
takeover was decided on a claim that did not, and a response was stored by a request that is
done. -/
structure Claimed (s : State) : Prop where
  holder : ∀ q, s.phase q = .running → (s.requests q).late = false →
    ∃ row, s.row = some row ∧ row.claimToken = q ∧ row.response = none ∧
      row.heartbeatAt = (s.requests q).lastBeat
  punctual : ∀ q, s.phase q = .running → (s.requests q).late = false →
    s.now ≤ (s.requests q).lastBeat + abandonedAfterSeconds
  stale : ∀ q row, s.phase q = .takingOver → s.row = some row →
    s.phase row.claimToken = .running → (s.requests row.claimToken).late = true
  locked : ∀ q, (s.phase q).locking = true → s.lock = some q
  token : ∀ row, s.row = some row → hasStarted (s.phase row.claimToken) = true
  stored : ∀ row, s.row = some row → row.response.isSome = true →
    s.phase row.claimToken = .finished
  past : ∀ q, (s.requests q).since ≤ s.now

theorem claimed_start : Claimed start where
  holder _ h := by cases h
  punctual _ h := by cases h
  stale _ _ h := by cases h
  locked _ h := by cases h
  token _ h := by cases h
  stored _ h := by cases h
  past _ := Nat.le_refl 0

/-! ### What a step does -/

theorem requests_setRequest_of_ne {p : RequestId} (r : Request) (h : p ≠ q) :
    (s.setRequest q r).requests p = s.requests p := Function.update_of_ne h _ _

theorem requests_setRequest_self (s : State) (q : RequestId) (r : Request) :
    (s.setRequest q r).requests q = r := Function.update_self _ _ _

theorem phase_setRequest_self (s : State) (q : RequestId) (r : Request) :
    (s.setRequest q r).phase q = r.phase :=
  congrArg Request.phase (requests_setRequest_self s q r)

/-- The two steps that start an action: on a key without a row, and on a claim judged
abandoned. -/
def Starts (s : State) (l : Label) (q : RequestId) : Prop :=
  (l = .look q ∧ s.row = none) ∨ (l = .takeOver q ∧ s.phase q = .takingOver)

/-- A request moves on, and does not start: it takes the lock, keeps it or commits, and the row is
written by the statement that ends it only. -/
structure Moves (s : State) (q : RequestId) (r : Request) (lock : Option RequestId)
    (row : Option Submission) : Prop where
  unanswered : (s.phase q).over = false
  idle : r.phase ≠ .running
  begun : hasStarted (s.phase q) = true → hasStarted r.phase = true
  since : r.since = s.now ∨ r.since = (s.requests q).since
  lock : lock = s.lock ∧ (r.phase.locking = true → (s.phase q).locking = true) ∨
    lock = none ∧ (s.phase q).locking = true ∧ r.phase.locking = false ∨
    lock = some q ∧ s.lock = none
  abandoned : r.phase = .takingOver → s.row.any (fun row =>
    decide (row.heartbeatAt + abandonedAfterSeconds < (s.requests q).since)) = true
  row : row = s.row ∨ r.phase = .finished ∧
    ((∃ response, row = s.row.map (storeRow q response)) ∨ row = s.row.bind (releaseRow q))

inductive StepCase (s : State) : Label → State → Prop
  | tick (elapsed : ℕ) : StepCase s (.tick elapsed) { s with
      now := s.now + elapsed, requests := fun q => (s.requests q).aged (s.now + elapsed) }
  | prune (retention : ℕ) : StepCase s (.prune retention)
      { s with row := s.row.filter fun row => !expired s.now retention row }
  | beat (q : RequestId) : StepCase s (.beat q)
      { s.setRequest q { s.requests q with lastBeat := s.now } with
        row := s.row.map (beatRow q s.now) }
  | first (q : RequestId) (fingerprint : String) (hphase : s.phase q = .looking)
      (hrow : s.row = none) : StepCase s (.look q)
        (s.claim q (some ⟨fingerprint, none, (s.requests q).since, (s.requests q).since, q⟩))
  | takeOver (q : RequestId) (hphase : s.phase q = .takingOver) : StepCase s (.takeOver q)
      (s.claim q (s.row.map (takeOverRow q (s.requests q).since)))
  | move {l : Label} (q : RequestId) (r : Request) (lock : Option RequestId)
      (row : Option Submission) (hmoves : Moves s q r lock row) :
      StepCase s l { s.setRequest q r with lock := lock, row := row }

theorem StepCase.setPhase {p : Phase} {lock : Option RequestId} (hover : (s.phase q).over = false)
    (hidle : p ≠ .running) (hbegun : hasStarted (s.phase q) = true → hasStarted p = true)
    (hlock : lock = s.lock ∧ (p.locking = true → (s.phase q).locking = true) ∨
      lock = none ∧ (s.phase q).locking = true ∧ p.locking = false ∨
      lock = some q ∧ s.lock = none)
    (habandoned : p = .takingOver → s.row.any (fun row =>
      decide (row.heartbeatAt + abandonedAfterSeconds < (s.requests q).since)) = true) :
    StepCase s l { s.setPhase q p with lock := lock } :=
  .move q { s.requests q with phase := p } lock s.row
    ⟨hover, hidle, hbegun, .inr rfl, hlock, habandoned, .inl rfl⟩

/-- Everything a step can do, with its guards. -/
theorem step_cases (hstep : step s l = some t) : StepCase s l t := by
  cases l with
  | tick elapsed =>
    cases hstep
    exact .tick elapsed
  | prune retention =>
    cases hstep
    exact .prune retention
  | arrive q fingerprint =>
    obtain ⟨hphase, hstep⟩ := Option.ite_none_right_eq_some.1 hstep
    cases hstep
    exact .move q _ s.lock s.row ⟨by rw [hphase]; rfl, Phase.noConfusion, by simp [hphase, hasStarted],
      .inl rfl, .inl ⟨rfl, by simp [Phase.locking]⟩, Phase.noConfusion, .inl rfl⟩
  | lock q =>
    obtain ⟨⟨hphase, hfree⟩, hstep⟩ := Option.ite_none_right_eq_some.1 hstep
    cases hstep
    exact .setPhase (by rw [hphase]; rfl) Phase.noConfusion (by simp [hphase, hasStarted])
      (.inr (.inr ⟨rfl, hfree⟩)) Phase.noConfusion
  | look q =>
    obtain ⟨hphase, hstep⟩ := Option.ite_none_right_eq_some.1 hstep
    have hphase : s.phase q = .looking := hphase
    cases hrow : s.row with
    | none =>
      rw [hrow] at hstep
      cases hstep
      exact .first q _ hphase hrow
    | some previous =>
      rw [hrow] at hstep
      dsimp only at hstep
      have hleave : ∀ p : Phase, p ≠ .running → p.locking = false → p ≠ .takingOver →
          StepCase s (.look q) (s.leave q p) := fun p hidle hlocking hnot =>
        .setPhase (by rw [hphase]; rfl) hidle (by simp [hphase, hasStarted])
          (.inr (.inl ⟨rfl, by rw [hphase]; rfl, hlocking⟩)) fun h => absurd h hnot
      split at hstep
      · cases hstep
        exact hleave .refused Phase.noConfusion rfl Phase.noConfusion
      · split at hstep
        · cases hstep
          exact hleave (.answered _) Phase.noConfusion rfl Phase.noConfusion
        · cases hstep
          exact .setPhase (by rw [hphase]; rfl) Phase.noConfusion (by simp [hphase, hasStarted])
            (.inl ⟨rfl, fun _ => by rw [hphase]; rfl⟩) Phase.noConfusion
  | check q =>
    obtain ⟨hphase, hstep⟩ := Option.ite_none_right_eq_some.1 hstep
    have hphase : s.phase q = .checking := hphase
    split at hstep
    · rename_i habandoned
      cases hstep
      exact .setPhase (by rw [hphase]; rfl) Phase.noConfusion (by simp [hphase, hasStarted])
        (.inl ⟨rfl, fun _ => by rw [hphase]; rfl⟩) fun _ => habandoned
    · cases hstep
      exact .setPhase (by rw [hphase]; rfl) Phase.noConfusion (by simp [hphase, hasStarted])
        (.inr (.inl ⟨rfl, by rw [hphase]; rfl, rfl⟩)) Phase.noConfusion
  | takeOver q =>
    obtain ⟨hphase, hstep⟩ := Option.ite_none_right_eq_some.1 hstep
    cases hstep
    exact .takeOver q hphase
  | beat q =>
    obtain ⟨_, hstep⟩ := Option.ite_none_right_eq_some.1 hstep
    cases hstep
    exact .beat q
  | applied q outcome =>
    obtain ⟨hphase, hstep⟩ := Option.ite_none_right_eq_some.1 hstep
    cases hstep
    exact .setPhase (by rw [hphase]; rfl) Phase.noConfusion (fun _ => rfl)
      (.inl ⟨rfl, by simp [Phase.locking]⟩) Phase.noConfusion
  | finish q =>
    simp only [step] at hstep
    split at hstep
    · rename_i response hphase
      cases hstep
      exact .move q _ s.lock _ ⟨by rw [hphase]; rfl, Phase.noConfusion, fun _ => rfl, .inr rfl,
        .inl ⟨rfl, by simp [Phase.locking]⟩, Phase.noConfusion, .inr ⟨rfl, .inl ⟨response, rfl⟩⟩⟩
    · rename_i hphase
      cases hstep
      exact .move q _ s.lock _ ⟨by rw [hphase]; rfl, Phase.noConfusion, fun _ => rfl, .inr rfl,
        .inl ⟨rfl, by simp [Phase.locking]⟩, Phase.noConfusion, .inr ⟨rfl, .inr rfl⟩⟩
    · cases hstep
  | crash q =>
    simp only [step] at hstep
    split at hstep
    · cases hstep
    · rename_i halive
      cases hstep
      refine .setPhase (eq_false_of_ne_true fun h => halive (.inr h)) Phase.noConfusion
        (fun _ => rfl) ?_ Phase.noConfusion
      split
      · exact .inr (.inl ⟨rfl, ‹_›, rfl⟩)
      · exact .inl ⟨rfl, by simp [Phase.locking]⟩

/-! ### Its steps -/

/-- The invariant is kept where no request starts, running ones are late only as they were, and a
row is what became of the row before. -/
theorem Claimed.kept (hs : Claimed s) (hsince : ∀ p, (t.requests p).since ≤ t.now)
    (hlock : ∀ p, (t.phase p).locking = true → t.lock = some p)
    (hruns : ∀ p, t.phase p = .running → s.phase p = .running ∧ ((t.requests p).late = false →
      (s.requests p).late = false ∧ t.now ≤ (t.requests p).lastBeat + abandonedAfterSeconds))
    (hphase : ∀ p, (hasStarted (s.phase p) = true → hasStarted (t.phase p) = true) ∧
      (s.phase p = .finished → t.phase p = .finished))
    (hstale : ∀ p, t.phase p = .takingOver → s.phase p = .takingOver ∨ ∀ row, s.row = some row →
      s.phase row.claimToken = .running → (s.requests row.claimToken).late = true)
    (hheld : ∀ row, s.row = some row → t.phase row.claimToken = .running → row.response = none →
      row.heartbeatAt = (s.requests row.claimToken).lastBeat → ∃ row', t.row = some row' ∧
        row'.claimToken = row.claimToken ∧ row'.response = none ∧
        row'.heartbeatAt = (t.requests row.claimToken).lastBeat)
    (hold : ∀ row, t.row = some row → ∃ old, s.row = some old ∧
      row.claimToken = old.claimToken ∧
      (row.response = old.response ∨ t.phase row.claimToken = .finished)) : Claimed t := by
  constructor
  · intro p hp hpunctual
    obtain ⟨hrun, hlate⟩ := hruns p hp
    obtain ⟨row, hr, rfl, hresponse, hbeat⟩ := hs.holder p hrun (hlate hpunctual).1
    exact hheld row hr hp hresponse hbeat
  · exact fun p hp hpunctual => ((hruns p hp).2 hpunctual).2
  · intro p row hp hr hrunning
    obtain ⟨old, ho, htoken, -⟩ := hold row hr
    obtain ⟨hrun, hlate⟩ := hruns _ hrunning
    rw [htoken] at hrun hlate ⊢
    have hbefore : (s.requests old.claimToken).late = true := by
      obtain htaking | hall := hstale p hp
      · exact hs.stale p old htaking ho hrun
      · exact hall old ho hrun
    by_contra hpunctual
    rw [(hlate (eq_false_of_ne_true hpunctual)).1] at hbefore
    cases hbefore
  · exact hlock
  · intro row hr
    obtain ⟨old, ho, htoken, -⟩ := hold row hr
    rw [htoken]
    exact (hphase _).1 (hs.token old ho)
  · intro row hr hresponse
    obtain ⟨old, ho, htoken, hsame | hdone⟩ := hold row hr
    · rw [hsame] at hresponse
      rw [htoken]
      exact (hphase _).2 (hs.stored old ho hresponse)
    · exact hdone
  · exact hsince

theorem Claimed.tick (hs : Claimed s) (elapsed : ℕ) : Claimed { s with
    now := s.now + elapsed, requests := fun q => (s.requests q).aged (s.now + elapsed) } := by
  refine hs.kept (fun p => Nat.le_add_right_of_le (hs.past p)) hs.locked
    (fun p hp => ⟨hp, fun hpunctual => ?_⟩) (fun p => ⟨id, id⟩) (fun p => .inl)
    (fun row hr _ hresponse hbeat => ⟨row, hr, rfl, hresponse, hbeat⟩)
    (fun row hr => ⟨row, hr, rfl, .inl rfl⟩)
  obtain ⟨hbefore, hidle | hfresh⟩ : (s.requests p).late = false ∧ _ := by
    simpa only [Request.aged, Bool.or_eq_false_iff, Bool.and_eq_false_iff] using hpunctual
  · exact absurd hp (of_decide_eq_false hidle)
  · exact ⟨hbefore, Nat.le_of_not_lt (of_decide_eq_false hfresh)⟩

theorem Claimed.prune (hs : Claimed s) {retention : ℕ}
    (hundisturbed : Undisturbed s (.prune retention)) :
    Claimed { s with row := s.row.filter fun row => !expired s.now retention row } := by
  refine hs.kept hs.past hs.locked (fun p hp => ⟨hp, fun h => ⟨h, hs.punctual p hp h⟩⟩)
    (fun p => ⟨id, id⟩) (fun p => .inl) (fun row hr hp hresponse hbeat => ?_)
    (fun row hr => ⟨row, (Option.filter_eq_some_iff.1 hr).1, rfl, .inl rfl⟩)
  refine ⟨row, Option.filter_eq_some_iff.2 ⟨hr, ?_⟩, rfl, hresponse, hbeat⟩
  rw [Bool.not_eq_true']
  exact eq_false_of_ne_true fun hexpired => hundisturbed row hr hexpired hp

theorem beatRow_token (q : RequestId) (now : Time) (row : Submission) :
    (beatRow q now row).claimToken = row.claimToken := by
  rw [beatRow]
  split
  · rfl
  · rfl

theorem beatRow_response (q : RequestId) (now : Time) (row : Submission) :
    (beatRow q now row).response = row.response := by
  rw [beatRow]
  split
  · rfl
  · rfl

theorem Claimed.beat (hs : Claimed s) (q : RequestId) :
    Claimed { s.setRequest q { s.requests q with lastBeat := s.now } with
      row := s.row.map (beatRow q s.now) } := by
  set t : State := { s.setRequest q { s.requests q with lastBeat := s.now } with
    row := s.row.map (beatRow q s.now) } with ht
  have hself : t.requests q = { s.requests q with lastBeat := s.now } :=
    requests_setRequest_self s q _
  have hothers : ∀ p, p ≠ q → t.requests p = s.requests p := fun p hp =>
    requests_setRequest_of_ne _ hp
  have hsame : ∀ p, t.phase p = s.phase p ∧ (t.requests p).late = (s.requests p).late ∧
      (t.requests p).since = (s.requests p).since := by
    intro p
    by_cases hp : p = q
    · rw [State.phase, hp, hself]
      exact ⟨rfl, rfl, rfl⟩
    · rw [State.phase, hothers p hp]
      exact ⟨rfl, rfl, rfl⟩
  refine hs.kept (fun p => (hsame p).2.2 ▸ hs.past p) (fun p hp => ?_)
    (fun p hp => ?_) (fun p => ?_) (fun p hp => .inl ((hsame p).1.symm.trans hp))
    (fun row hr hp hresponse hbeat => ?_) (fun row hr => ?_)
  · rw [(hsame p).1] at hp
    exact hs.locked p hp
  · rw [(hsame p).1] at hp
    rw [(hsame p).2.1]
    refine ⟨hp, fun hpunctual => ⟨hpunctual, ?_⟩⟩
    by_cases hpq : p = q
    · rw [hpq, hself]
      exact Nat.le_add_right _ _
    · rw [hothers p hpq]
      exact hs.punctual p hp hpunctual
  · rw [(hsame p).1]
    exact ⟨id, id⟩
  · refine ⟨beatRow q s.now row, congrArg (Option.map (beatRow q s.now)) hr, beatRow_token _ _ _,
      (beatRow_response _ _ _).trans hresponse, ?_⟩
    rw [beatRow]
    split
    · rename_i htoken
      rw [htoken, hself]
    · rename_i htoken
      rw [hothers _ htoken]
      exact hbeat
  · obtain ⟨old, ho, rfl⟩ := Option.map_eq_some_iff.1 hr
    exact ⟨old, ho, beatRow_token _ _ _, .inl (beatRow_response _ _ _)⟩

theorem Claimed.alone (hs : Claimed s) {x : RequestId}
    (hq : (s.phase q).locking = true) (hx : x ≠ q) (hlockx : (s.phase x).locking = true) : False :=
  hx (Option.some.inj ((hs.locked x hlockx).symm.trans (hs.locked q hq)))

/-- A request that only moves on keeps the row and its claim as they are. -/
theorem Claimed.move {r : Request} {lock : Option RequestId} {row : Option Submission}
    (hs : Claimed s) (h : Moves s q r lock row) :
    Claimed { s.setRequest q r with lock := lock, row := row } := by
  set t : State := { s.setRequest q r with lock := lock, row := row } with ht
  have hself : t.requests q = r := requests_setRequest_self s q r
  have hothers : ∀ p, p ≠ q → t.requests p = s.requests p := fun p hp =>
    requests_setRequest_of_ne _ hp
  have hq : t.phase q = r.phase := congrArg Request.phase hself
  have hphase : ∀ p, p ≠ q → t.phase p = s.phase p := fun p hp =>
    congrArg Request.phase (hothers p hp)
  have hrunning : ∀ p, t.phase p = .running → p ≠ q := by
    rintro p hp rfl
    exact h.idle (hq.symm.trans hp)
  refine hs.kept (fun p => ?_) (fun p hp => ?_) (fun p hp => ?_) (fun p => ?_) (fun p hp => ?_)
    (fun old ho hp hresponse hbeat => ?_) (fun new hr => ?_)
  · by_cases hp : p = q
    · rw [hp, hself]
      obtain hnow | hsame := h.since
      · exact Nat.le_of_eq hnow
      · exact hsame ▸ hs.past q
    · rw [hothers p hp]
      exact hs.past p
  · obtain ⟨hlock, hkeeps⟩ | ⟨-, hbefore, hafter⟩ | ⟨hlock, hfree⟩ := h.lock
    · change lock = some p
      rw [hlock]
      by_cases hpq : p = q
      · rw [hpq, hq] at hp
        rw [hpq]
        exact hs.locked q (hkeeps hp)
      · rw [hphase p hpq] at hp
        exact hs.locked p hp
    · by_cases hpq : p = q
      · rw [hpq, hq, hafter] at hp
        cases hp
      · rw [hphase p hpq] at hp
        exact (hs.alone hbefore hpq hp).elim
    · by_cases hpq : p = q
      · rw [hpq]
        exact hlock
      · rw [hphase p hpq] at hp
        rw [hs.locked p hp] at hfree
        cases hfree
  · have hne := hrunning p hp
    rw [hphase p hne] at hp
    rw [hothers p hne]
    exact ⟨hp, fun hpunctual => ⟨hpunctual, hs.punctual p hp hpunctual⟩⟩
  · by_cases hp : p = q
    · rw [hp, hq]
      refine ⟨h.begun, fun hdone => ?_⟩
      have hover := h.unanswered
      rw [hdone] at hover
      cases hover
    · rw [hphase p hp]
      exact ⟨id, id⟩
  · by_cases hpq : p = q
    · rw [hpq, hq] at hp
      refine .inr fun old ho hrun => ?_
      by_contra hpunctual
      -- an execution on time has a newer heartbeat than this transaction could call old
      have hontime := eq_false_of_ne_true hpunctual
      obtain ⟨row, hrow, htoken, _, hbeat⟩ := hs.holder _ hrun hontime
      have hwithin := hs.punctual _ hrun hontime
      have habandoned := h.abandoned hp
      rw [hrow, Option.any_some, decide_eq_true_eq] at habandoned
      exact absurd (Nat.lt_of_lt_of_le (hbeat ▸ habandoned) (hs.past q)) (Nat.not_lt.2 hwithin)
    · exact .inl ((hphase p hpq).symm.trans hp)
  · have hne := hrunning _ hp
    refine ⟨old, ?_, rfl, hresponse, by rw [hothers _ hne]; exact hbeat⟩
    change row = some old
    obtain hrow | ⟨-, ⟨response, hrow⟩ | hrow⟩ := h.row
    · exact hrow.trans ho
    · rw [hrow, ho, Option.map_some, storeRow, if_neg hne]
    · rw [hrow, ho, Option.bind_some, releaseRow, if_neg fun hboth => hne hboth.1]
  · have hnew : row = some new := hr
    obtain hrow | ⟨hdone, ⟨response, hrow⟩ | hrow⟩ := h.row
    · exact ⟨new, hrow ▸ hnew, rfl, .inl rfl⟩
    · obtain ⟨old, ho, rfl⟩ := Option.map_eq_some_iff.1 (hrow.symm.trans hnew)
      refine ⟨old, ho, ?_⟩
      rw [storeRow]
      split
      · rename_i htoken
        exact ⟨rfl, .inr ((congrArg t.phase htoken).trans (hq.trans hdone))⟩
      · exact ⟨rfl, .inl rfl⟩
    · obtain ⟨old, ho, hrelease⟩ := Option.bind_eq_some_iff.1 (hrow.symm.trans hnew)
      rw [releaseRow] at hrelease
      split at hrelease
      · cases hrelease
      · cases hrelease
        exact ⟨new, ho, rfl, .inl rfl⟩

/-- A new claim keeps it where the execution under the old one missed its heartbeats. -/
theorem Claimed.claim {row : Submission} (hs : Claimed s) (hlocking : (s.phase q).locking = true)
    (hlate : ∀ old, s.row = some old → s.phase old.claimToken = .running →
      (s.requests old.claimToken).late = true)
    (ht : t = s.claim q (some row)) (htoken : row.claimToken = q) (hresponse : row.response = none)
    (hbeat : row.heartbeatAt = (s.requests q).since) : Claimed t := by
  have hself : t.requests q =
      { s.requests q with
        phase := .running
        lastBeat := (s.requests q).since
        late := decide ((s.requests q).since + abandonedAfterSeconds < s.now) } := by
    rw [ht]
    exact Function.update_self _ _ _
  have hothers : ∀ p, p ≠ q → t.requests p = s.requests p := by
    intro p hp
    rw [ht]
    exact Function.update_of_ne hp _ _
  have hphase : ∀ p, p ≠ q → t.phase p = s.phase p := fun p hp => congrArg Request.phase (hothers p hp)
  have hq : t.phase q = .running := congrArg Request.phase hself
  have hrow : t.row = some row := by rw [ht]; rfl
  have hnow : t.now = s.now := by rw [ht]; rfl
  -- no other execution kept its heartbeats
  have halone : ∀ p, p ≠ q → s.phase p = .running → (s.requests p).late = true := by
    intro p _ hp
    by_contra hpunctual
    obtain ⟨old, hold, htok, _, _⟩ := hs.holder p hp (eq_false_of_ne_true hpunctual)
    rw [← htok] at hp hpunctual
    exact hpunctual (hlate old hold hp)
  -- nor is another request inside the claiming transaction
  have hfree : ∀ p, p ≠ q → (s.phase p).locking ≠ true := by
    intro p hp hlockp
    have hboth := (hs.locked p hlockp).symm.trans (hs.locked q hlocking)
    exact hp (Option.some.inj hboth)
  constructor
  · intro p hp hpunctual
    by_cases hpq : p = q
    · rw [hpq, hself]
      exact ⟨row, hrow, htoken, hresponse, hbeat⟩
    · rw [hothers p hpq] at hpunctual
      rw [hphase p hpq] at hp
      rw [halone p hpq hp] at hpunctual
      cases hpunctual
  · intro p hp hpunctual
    by_cases hpq : p = q
    · rw [hpq, hself] at hpunctual
      rw [hpq, hself, hnow]
      exact Nat.le_of_not_lt (of_decide_eq_false hpunctual)
    · rw [hothers p hpq] at hpunctual
      rw [hphase p hpq] at hp
      rw [halone p hpq hp] at hpunctual
      cases hpunctual
  · intro p r hp _ _
    have hpq : p ≠ q := by
      rintro rfl
      rw [hq] at hp
      cases hp
    rw [hphase p hpq] at hp
    refine absurd ?_ (hfree p hpq)
    rw [hp]
    rfl
  · intro p hp
    by_cases hpq : p = q
    · rw [hpq, hq] at hp
      cases hp
    · rw [hphase p hpq] at hp
      exact absurd hp (hfree p hpq)
  · intro r hr
    rw [hrow] at hr
    cases hr
    rw [htoken, hq]
    rfl
  · intro r hr hsome
    rw [hrow] at hr
    cases hr
    rw [hresponse] at hsome
    cases hsome
  · intro p
    rw [hnow]
    by_cases hpq : p = q
    · rw [hpq, hself]
      exact hs.past q
    · rw [hothers p hpq]
      exact hs.past p

theorem claimed_step (hs : Claimed s) (hcond : Undisturbed s l)
    (hstep : step s l = some t) : Claimed t := by
  cases step_cases hstep with
  | tick elapsed => exact hs.tick elapsed
  | prune retention => exact hs.prune hcond
  | beat q => exact hs.beat q
  | first q fingerprint hphase hrow =>
    refine hs.claim (by rw [hphase]; rfl) (fun old hold => ?_) rfl rfl rfl rfl
    rw [hrow] at hold
    cases hold
  | takeOver q hphase =>
    obtain ⟨old, hold, hresponse⟩ := hcond
    rw [Option.mem_def] at hold
    rw [hold, Option.map_some]
    exact hs.claim (by rw [hphase]; rfl) (fun row hr => hs.stale q row hphase hr) rfl rfl hresponse
      rfl
  | move q r lock row hmoves => exact hs.move hmoves

theorem claimed_of_reachable (hs : system.Reachable Undisturbed s) : Claimed s := by
  apply TransitionSystem.Reachable.invariant ?_ ?_ hs
  · rintro s rfl
    exact claimed_start
  · intro s l t hs hcond hstep
    exact claimed_step hs hcond hstep

/-! ## How requests move -/

/-- A request whose phase a step changes had no answer yet, and starts its action in the ways of
`Starts` only. -/
def MovesOn (s t : State) (l : Label) (q : RequestId) : Prop :=
  t.phase q = s.phase q ∨ ((s.phase q).over = false ∧ (t.phase q = .running → Starts s l q))

theorem movesOn_setRequest {r : Request}
    (ht : t.requests = Function.update s.requests q r) (hover : (s.phase q).over = false)
    (hstarts : r.phase = .running → Starts s l q) (x : RequestId) : MovesOn s t l x := by
  by_cases hx : x = q
  · refine Or.inr ⟨hx ▸ hover, ?_⟩
    rw [State.phase, ht, hx, Function.update_self]
    exact hstarts
  · refine Or.inl ?_
    rw [State.phase, ht, Function.update_of_ne hx]
    rfl

theorem step_movesOn (hstep : step s l = some t) (x : RequestId) : MovesOn s t l x := by
  cases step_cases hstep with
  | tick elapsed | prune retention => exact Or.inl rfl
  | beat q =>
    refine Or.inl ?_
    by_cases hx : x = q
    · rw [hx]
      exact phase_setRequest_self s q _
    · exact congrArg Request.phase (requests_setRequest_of_ne _ hx)
  | first q fingerprint hphase hrow =>
    exact movesOn_setRequest rfl (hphase ▸ rfl) (fun _ => Or.inl ⟨rfl, hrow⟩) x
  | takeOver q hphase =>
    exact movesOn_setRequest rfl (hphase ▸ rfl) (fun _ => Or.inr ⟨rfl, hphase⟩) x
  | move q r lock row hmoves =>
    exact movesOn_setRequest rfl hmoves.unanswered (fun h => absurd h hmoves.idle) x

theorem phase_of_run {p : Phase} (hp : p.over = true)
    (hrun : system.Run TransitionSystem.anyStep s t) (hs : s.phase q = p) : t.phase q = p := by
  apply hrun.preserves (I := fun u => u.phase q = p) ?_ hs
  intro u l v hu _ hstep
  obtain hsame | ⟨hover, _⟩ := step_movesOn hstep q
  · exact hsame.trans hu
  · rw [hu, hp] at hover
    cases hover

/-! ## The response of a key -/

def Prunes (s : State) : Label → Prop
  | .prune retention => ∃ row ∈ s.row, expired s.now retention row = true
  | _ => False

/-- The response stored under a key, and the request it answers. -/
def Stored (s : State) (fingerprint : String) (response : Response) : Prop :=
  ∃ row, s.row = some row ∧ row.fingerprint = fingerprint ∧ row.response = some response

/-- A stored response stays, and nothing more starts. -/
theorem stored_step {fingerprint : String} {response : Response}
    (hs : Claimed s) (hcond : Undisturbed s l) (hkept : ¬ Prunes s l)
    (hstep : step s l = some t) (h : Stored s fingerprint response) :
    Stored t fingerprint response ∧ t.started = s.started := by
  obtain ⟨row, hrow, hfingerprint, hresponse⟩ := h
  cases step_cases hstep with
  | tick elapsed => exact ⟨⟨row, hrow, hfingerprint, hresponse⟩, rfl⟩
  | prune retention =>
    refine ⟨⟨row, Option.filter_eq_some_iff.2 ⟨hrow, ?_⟩, hfingerprint, hresponse⟩, rfl⟩
    rw [Bool.not_eq_true']
    exact eq_false_of_ne_true fun hexpired => hkept ⟨row, hrow, hexpired⟩
  | beat q =>
    refine ⟨⟨beatRow q s.now row, ?_, ?_, ?_⟩, rfl⟩
    · dsimp only
      rw [hrow, Option.map_some]
    · rw [beatRow]
      split
      · exact hfingerprint
      · exact hfingerprint
    · rw [beatRow_response]
      exact hresponse
  | first q fingerprint hphase hnone =>
    rw [hrow] at hnone
    cases hnone
  | takeOver q hphase =>
    obtain ⟨old, hold, hnone⟩ := hcond
    rw [Option.mem_def, hrow] at hold
    cases hold
    rw [hresponse] at hnone
    cases hnone
  | move q r lock row' hmoves =>
    -- the one whose response is stored is done, so this is another
    have hother : row.claimToken ≠ q := by
      rintro rfl
      have hover := hmoves.unanswered
      rw [hs.stored row hrow (by rw [hresponse]; rfl)] at hover
      cases hover
    refine ⟨⟨row, ?_, hfingerprint, hresponse⟩, rfl⟩
    change row' = some row
    obtain hsame | ⟨-, ⟨stored, hsame⟩ | hsame⟩ := hmoves.row
    · exact hsame.trans hrow
    · rw [hsame, hrow, Option.map_some, storeRow, if_neg hother]
    · rw [hsame, hrow, Option.bind_some, releaseRow, if_neg fun hboth => hother hboth.1]

theorem answered_of_stored {fingerprint : String}
    {response : Response} (h : Stored s fingerprint response)
    (hsame : (s.requests q).fingerprint = fingerprint) (hstep : step s (.look q) = some t) :
    t.phase q = .answered response := by
  obtain ⟨row, hrow, hfingerprint, hresponse⟩ := h
  obtain ⟨_, hstep⟩ := Option.ite_none_right_eq_some.1 hstep
  rw [hrow] at hstep
  dsimp only at hstep
  rw [if_neg (not_not.2 (hfingerprint.trans hsame.symm)), hresponse] at hstep
  cases hstep
  exact phase_setRequest_self s q _

/-! ## Once only -/

/-- No execution of the action overlaps one that keeps its heartbeats, a statement that ends a
request changes no row but its own, a request for something else never runs, and a stored response
answers every later request until it is pruned. -/
structure AppliedOnce (s : State) : Prop where
  no_overlap : ∀ p q, s.phase p = .running → s.phase q = .running → p ≠ q →
    (s.requests p).late = true ∨ (s.requests q).late = true
  start_alone : ∀ l t q, step s l = some t → s.phase q ≠ .running → t.phase q = .running →
    ∀ p, s.phase p = .running → (s.requests p).late = true
  own_claim : ∀ q t, step s (.finish q) = some t →
    t.row = s.row ∨ ∃ row, s.row = some row ∧ row.claimToken = q
  refused : ∀ q t row, step s (.look q) = some t → s.row = some row →
    row.fingerprint ≠ (s.requests q).fingerprint →
    ∀ u, system.Run TransitionSystem.anyStep t u → u.phase q = .refused
  stored : ∀ fingerprint response, Stored s fingerprint response →
    ∀ t, system.Run (fun u l => Undisturbed u l ∧ ¬ Prunes u l) s t →
      Stored t fingerprint response ∧ t.started = s.started ∧
      ∀ q u, (t.requests q).fingerprint = fingerprint → step t (.look q) = some u →
        u.phase q = .answered response

theorem Claimed.no_overlap (hs : Claimed s) {p : RequestId}
    (hp : s.phase p = .running) (hq : s.phase q = .running) (hne : p ≠ q) :
    (s.requests p).late = true ∨ (s.requests q).late = true := by
  by_contra hboth
  rw [not_or] at hboth
  obtain ⟨row, hrow, htoken, _⟩ := hs.holder p hp (eq_false_of_ne_true hboth.1)
  obtain ⟨row', hrow', htoken', _⟩ := hs.holder q hq (eq_false_of_ne_true hboth.2)
  rw [hrow] at hrow'
  cases hrow'
  exact hne (htoken.symm.trans htoken')

theorem Claimed.start_alone {p : RequestId} (hs : Claimed s)
    (hstep : step s l = some t) (hbefore : s.phase q ≠ .running) (hafter : t.phase q = .running)
    (hp : s.phase p = .running) : (s.requests p).late = true := by
  by_contra hpunctual
  obtain ⟨row, hrow, htoken, _⟩ := hs.holder p hp (eq_false_of_ne_true hpunctual)
  obtain hsame | ⟨_, hstarts⟩ := step_movesOn hstep q
  · exact hbefore (hsame.symm.trans hafter)
  · obtain ⟨_, hnone⟩ | ⟨_, htaking⟩ := hstarts hafter
    · rw [hrow] at hnone
      cases hnone
    · rw [← htoken] at hp hpunctual
      exact hpunctual (hs.stale q row htaking hrow hp)

theorem own_claim (hstep : step s (.finish q) = some t) :
    t.row = s.row ∨ ∃ row, s.row = some row ∧ row.claimToken = q := by
  cases hrow : s.row with
  | none =>
    refine Or.inl ?_
    simp only [step] at hstep
    split at hstep
    · cases hstep
      exact congrArg (Option.map _) hrow
    · cases hstep
      exact congrArg (fun row => Option.bind row _) hrow
    · cases hstep
  | some row =>
    by_cases htoken : row.claimToken = q
    · exact Or.inr ⟨row, rfl, htoken⟩
    · refine Or.inl ?_
      simp only [step] at hstep
      split at hstep
      · cases hstep
        rw [hrow, Option.map_some, storeRow, if_neg htoken]
      · cases hstep
        rw [hrow, Option.bind_some, releaseRow, if_neg fun h => htoken h.1]
      · cases hstep

theorem refused_of_look {row : Submission}
    (hstep : step s (.look q) = some t) (hrow : s.row = some row)
    (hother : row.fingerprint ≠ (s.requests q).fingerprint) : t.phase q = .refused := by
  obtain ⟨_, hstep⟩ := Option.ite_none_right_eq_some.1 hstep
  rw [hrow] at hstep
  dsimp only at hstep
  rw [if_pos hother] at hstep
  cases hstep
  exact phase_setRequest_self s q _

theorem stored_run {fingerprint : String} {response : Response} (hs : Claimed s)
    (h : Stored s fingerprint response)
    (hrun : system.Run (fun u l => Undisturbed u l ∧ ¬ Prunes u l) s t) :
    Stored t fingerprint response ∧ t.started = s.started := by
  have hall : Claimed t ∧ Stored t fingerprint response ∧ t.started = s.started := by
    apply hrun.preserves
      (I := fun u => Claimed u ∧ Stored u fingerprint response ∧ u.started = s.started) ?_
      ⟨hs, h, rfl⟩
    rintro u l v ⟨hu, hstored, hstarted⟩ ⟨hcond, hkept⟩ hstep
    obtain ⟨hstored', hstarted'⟩ := stored_step hu hcond hkept hstep hstored
    exact ⟨claimed_step hu hcond hstep, hstored', hstarted'.trans hstarted⟩
  exact hall.2

/-- **One execution for one key**, in every run in which a takeover finds the claim it judged
without a response still, and no running claim is pruned. -/
theorem once_only {s : State} (hs : system.Reachable Undisturbed s) : AppliedOnce s := by
  have hclaimed := claimed_of_reachable hs
  constructor
  · intro p q hp hq hne
    exact hclaimed.no_overlap hp hq hne
  · intro l t q hstep hbefore hafter p hp
    exact hclaimed.start_alone hstep hbefore hafter hp
  · intro q t hstep
    exact own_claim hstep
  · intro q t row hstep hrow hother u hrun
    exact phase_of_run rfl hrun (refused_of_look hstep hrow hother)
  · intro fingerprint response h t hrun
    obtain ⟨hstored, hstarted⟩ := stored_run hclaimed h hrun
    refine ⟨hstored, hstarted, fun q u hsame hstep => ?_⟩
    exact answered_of_stored hstored hsame hstep

theorem once_only_taken_over :
    ∃ s, system.Reachable Undisturbed s ∧ AppliedOnce s ∧
      (s.phase 1 = .finished ∧ s.phase 2 = .finished ∧ s.phase 3 = .answered "moved" ∧
        s.started = 2) := by
  have hrun : (system.exec start
      [.arrive 1 "move", .lock 1, .look 1, .beat 1, .tick 100, .arrive 2 "move", .lock 2, .look 2,
        .check 2, .takeOver 2, .applied 1 (some "late"), .finish 1, .beat 2,
        .applied 2 (some "moved"), .finish 2, .arrive 3 "move", .lock 3, .look 3]).any (fun s =>
      decide (s.phase 1 = .finished ∧ s.phase 2 = .finished ∧ s.phase 3 = .answered "moved" ∧
        s.started = 2)) = true := by
    decide +kernel
  have hmeets : system.execMeets Undisturbed start
      [.arrive 1 "move", .lock 1, .look 1, .beat 1, .tick 100, .arrive 2 "move", .lock 2, .look 2,
        .check 2, .takeOver 2, .applied 1 (some "late"), .finish 1, .beat 2,
        .applied 2 (some "moved"), .finish 2, .arrive 3 "move", .lock 3, .look 3] = true := by
    decide +kernel
  obtain ⟨s, hexec, hstate⟩ := (Option.any_eq_true _ _).1 hrun
  have hreach := TransitionSystem.reachable_of_exec _ rfl hmeets hexec
  exact ⟨s, hreach, once_only hreach, of_decide_eq_true hstate⟩

/-- The slow request stores its response after a takeover judged its claim abandoned and before
it rewrote it: the action runs again under the stored response. -/
def storedBetween : List Label :=
  [.arrive 1 "move", .lock 1, .look 1, .tick 100, .arrive 2 "move", .lock 2, .look 2, .check 2,
    .applied 1 (some "moved"), .finish 1]

/-- The slow request fails and releases its claim there: the one that takes over runs with no row,
and the next one beside it, each with its heartbeats. -/
def releasedBetween : List Label :=
  [.arrive 1 "move", .lock 1, .look 1, .tick 100, .arrive 2 "move", .lock 2, .look 2, .check 2,
    .applied 1 none, .finish 1, .takeOver 2, .beat 2, .arrive 3 "move", .lock 3, .look 3]

/-- The response stored under a key does not keep the action from starting again, nor is an
execution with heartbeats alone. -/
theorem takeover_disturbed :
    ¬ (∀ s t, system.Reachable TransitionSystem.anyStep s →
      step s (.takeOver 2) = some t → Stored s "move" "moved" → t.started = s.started) ∧
    ¬ (∀ s, system.Reachable TransitionSystem.anyStep s →
      s.phase 2 = .running → s.phase 3 = .running →
        (s.requests 2).late = true ∨ (s.requests 3).late = true) := by
  constructor
  · intro h
    have hrun : (system.exec start storedBetween).any (fun s =>
        s.row.any (fun row => decide (row.fingerprint = "move" ∧ row.response = some "moved")) &&
          (step s (.takeOver 2)).any fun t => decide (t.started ≠ s.started)) = true := by
      decide +kernel
    obtain ⟨s, hexec, hboth⟩ := (Option.any_eq_true _ _).1 hrun
    rw [Bool.and_eq_true] at hboth
    obtain ⟨row, hrow, hstored⟩ := (Option.any_eq_true _ _).1 hboth.1
    obtain ⟨t, hstep, hstarted⟩ := (Option.any_eq_true _ _).1 hboth.2
    apply of_decide_eq_true hstarted
    apply h s t (TransitionSystem.reachable_of_exec_any _ rfl hexec) hstep
    obtain ⟨hfingerprint, hresponse⟩ := of_decide_eq_true hstored
    exact ⟨row, hrow, hfingerprint, hresponse⟩
  · intro h
    have hrun : (system.exec start releasedBetween).any (fun s =>
        decide (s.phase 2 = .running ∧ s.phase 3 = .running ∧
          ¬ ((s.requests 2).late = true ∨ (s.requests 3).late = true))) = true := by
      decide +kernel
    obtain ⟨s, hexec, hstate⟩ := (Option.any_eq_true _ _).1 hrun
    obtain ⟨hfirst, hsecond, hpunctual⟩ := of_decide_eq_true hstate
    exact hpunctual (h s (TransitionSystem.reachable_of_exec_any _ rfl hexec) hfirst hsecond)

end MailVerdict.Analysis.OnceOnly
