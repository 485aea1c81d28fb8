import MailVerdict.Analysis.WorkQueueExhaustion
import MailVerdict.Model.WebhookDeliveries

/-!
# What a delivered row says

A row is marked done by one guarded statement, and no other statement of the queue finds a row
that is done (`Spares`). Two steps look at nothing: a worker sends the request of the row it was
given, whoever has it by now, and records the status of an attempt it has retried or failed by
the row's id. `Moves` says once what a step does; `truthful_step_iff` reads off that these two
are the ones that matter.
-/

namespace MailVerdict.Analysis.WebhookDeliveries

open MailVerdict.Computation
open Model.WorkQueue hiding State Label step start system
open Model.WebhookDeliveries Analysis.WorkQueueExhaustion

variable {s t : State} {id : Uuid} {r : Row} {w : WorkerId} {l : Label} {maxAttempts : ℕ}

/-- Every delivered row has the success of the attempt that completed it and no error, and was
neither claimed nor sent again. -/
def Truthful (s : State) : Prop :=
  ∀ r ∈ s.table.rows, r.status = .done →
    (∃ status, s.completed r.id = some status ∧ isSuccess status = true ∧
      (s.columns r.id).httpStatus = some status) ∧ r.lastError = none ∧ s.again r.id = false

/-- No worker sends the request of a row that is delivered by now, and none records the status
of its own attempt there. -/
def Undisturbed (s : State) : Label → Prop
  | .request w | .record w => ∀ c ∈ (s.doing w).claimed, s.delivered c.row.id = false
  | _ => True

instance (s : State) (l : Label) : Decidable (Undisturbed s l) := by
  cases l <;> unfold Undisturbed <;> infer_instance

/-! ## Delivered rows -/

theorem delivered_iff :
    s.delivered id = true ↔ ∃ r ∈ s.table.rows, r.id = id ∧ r.status = .done := by
  simp [State.delivered]

theorem delivered_of_mem (hr : r ∈ s.table.rows) (hdone : r.status = .done) :
    s.delivered r.id = true := delivered_iff.2 ⟨r, hr, rfl, hdone⟩

theorem done_of_delivered (hr : r ∈ s.table.rows)
    (h : s.delivered r.id = true) : r.status = .done := by
  obtain ⟨x, hx, hid, hdone⟩ := delivered_iff.1 h
  rw [← s.table.eq_of_key_eq hx hr hid]
  exact hdone

structure Spares (t u : Table) : Prop where
  kept : ∀ r ∈ t.rows, r.status = .done → r ∈ u.rows
  made : ∀ r ∈ u.rows, r.status = .done → r ∈ t.rows

theorem spares_refl (t : Table) : Spares t t where
  kept _ hr _ := hr
  made _ hr _ := hr

theorem spares_update {t : Table} {p : Row → Bool} {f : Row → Row} (hf : ∀ r, (f r).id = r.id)
    (hp : ∀ r, p r = true → r.status ≠ .done) (hdone : ∀ r, p r = true → (f r).status ≠ .done) :
    Spares t (t.update p f hf) where
  kept r hr hstatus := by
    refine KeyedTable.mem_update.2 ⟨r, hr, if_neg fun hmatch => ?_⟩
    exact hp r hmatch hstatus
  made r hr hstatus := by
    obtain ⟨x, hx, rfl⟩ := KeyedTable.mem_update.1 hr
    by_cases hmatch : p x = true
    · rw [if_pos hmatch] at hstatus
      exact absurd hstatus (hdone x hmatch)
    · rw [if_neg hmatch]
      exact hx

theorem spares_held {t : Table} {f : Row → Row}
    (hf : ∀ r, (f r).id = r.id) (hdone : ∀ r, r.heldBy w = true → (f r).status ≠ .done) :
    Spares t (t.update (fun r => decide (r.id = id) && r.heldBy w) f hf) := by
  apply spares_update _
  · intro r hr
    rw [Bool.and_eq_true] at hr
    rw [heldBy_status hr.2]
    exact Status.noConfusion
  · intro r hr
    rw [Bool.and_eq_true] at hr
    exact hdone r hr.2

theorem spares_insert {t : Table} (h : r.id ∉ t.rows.map Row.id)
    (hstatus : r.status ≠ .done) : Spares t (t.insert r h) where
  kept x hx _ := (KeyedTable.mem_insert h).2 (Or.inl hx)
  made x hx hdone := by
    obtain hx | rfl := (KeyedTable.mem_insert h).1 hx
    · exact hx
    · exact absurd hdone hstatus

theorem spares_retry (t : Table) (id : Uuid) (w : WorkerId) (next : Time)
    (error : Option String) : Spares t (retry t id w next error) :=
  spares_held _ fun _ _ => Status.noConfusion

theorem spares_fail (t : Table) (id : Uuid) (w : WorkerId) (error : String) :
    Spares t (fail t id w error) :=
  spares_held _ fun _ _ => Status.noConfusion

theorem spares_release (t : Table) (id : Uuid) (w : WorkerId) :
    Spares t (releaseUntouched t id w) :=
  spares_held _ fun _ _ => Status.noConfusion

theorem spares_heartbeat (t : Table) (now : Time) (ids : List Uuid) (w : WorkerId) (lease : ℕ) :
    Spares t (heartbeat t now ids w lease) := by
  apply spares_update _
  · intro r hr
    rw [Bool.and_eq_true] at hr
    rw [heldBy_status hr.2]
    exact Status.noConfusion
  · intro r hr
    rw [Bool.and_eq_true] at hr
    show r.status ≠ .done
    rw [heldBy_status hr.2]
    exact Status.noConfusion

theorem spares_claimBatch (t : Table) (now : Time) (w : WorkerId) (n lease : ℕ) (cap : Option ℕ)
    (locked : List Uuid) : Spares t (claimBatch t now w n lease cap locked).1 := by
  rw [claimBatch_table]
  constructor
  · intro r hr hstatus
    refine KeyedTable.mem_update.2 ⟨r, hr, if_neg fun hmatch => ?_⟩
    have hcandidate := (mem_candidate (candidate_of_id hr hmatch)).2
    simp [claimable, hstatus] at hcandidate
  · intro r hr hstatus
    obtain ⟨x, hx, rfl⟩ := KeyedTable.mem_update.1 hr
    split at hstatus
    · cases hstatus
    · rename_i hmatch
      rw [if_neg hmatch]
      exact hx

theorem spares_failExhausted (t : Table) (maxAttempts : ℕ) (reason : String) :
    Spares t (failExhausted t maxAttempts reason) := by
  apply spares_update _
  · intro r hr hstatus
    simp [hstatus] at hr
  · exact fun _ _ => Status.noConfusion

theorem spares_reclaim (t : Table) (now : Time) : Spares t (reclaimExpired t now) := by
  apply spares_update _
  · intro r hr
    rw [leaseExpired_status hr]
    exact Status.noConfusion
  · exact fun _ _ => Status.noConfusion

theorem spares_requeue (t : Table) (now : Time) (ids : List Uuid) :
    Spares t (requeue t now ids) := by
  apply spares_update _
  · intro r hr hstatus
    simp [hstatus] at hr
  · exact fun _ _ => Status.noConfusion

/-! ## What a step does -/

/-- What a step does to the delivered rows and to what is known of them. -/
inductive Moves (s t : State) (l : Label) : Prop
  | spared (hl : ∀ w, l ≠ .request w ∧ l ≠ .record w) (htable : Spares s.table t.table)
      (hcompleted : t.completed = s.completed)
      (hcolumns : ∀ id, s.delivered id = true →
        (t.columns id).httpStatus = (s.columns id).httpStatus)
      (hagain : t.again = s.again)
  | requested (w : WorkerId) (c : Claimed) (hl : l = .request w) (hdoing : s.doing w = .loading c)
      (htable : t.table = s.table) (hcompleted : t.completed = s.completed)
      (hcolumns : t.columns = s.columns)
      (hagain : t.again = fun id => s.again id || (decide (id = c.row.id) && s.delivered id))
  | recorded (w : WorkerId) (c : Claimed) (o : Outcome) (failed : Option String)
      (hl : l = .record w) (hdoing : s.doing w = .recording c o failed)
      (htable : t.table = s.table) (hcompleted : t.completed = s.completed)
      (hcolumns : t.columns = Function.update s.columns c.row.id
        { s.columns c.row.id with httpStatus := o.httpStatus })
      (hagain : t.again = s.again)
  | delivered (w : WorkerId) (c : Claimed) (o : Outcome) (at_ : Time)
      (hl : ∀ v, l ≠ .request v ∧ l ≠ .record v) (hdoing : s.doing w = .settling c o)
      (hkind : o.kind = .done) (hheld : s.holds w c.row.id = true)
      (htable : t.table = markDone s.table c.row.id w)
      (hcompleted : t.completed = Function.update s.completed c.row.id o.httpStatus)
      (hcolumns : t.columns = Function.update s.columns c.row.id
        { s.columns c.row.id with httpStatus := o.httpStatus, deliveredAt := some at_ })
      (hagain : t.again = s.again)

theorem Moves.of_table (hl : ∀ w, l ≠ .request w ∧ l ≠ .record w)
    (htable : Spares s.table t.table) (hcompleted : t.completed = s.completed)
    (hcolumns : t.columns = s.columns) (hagain : t.again = s.again) : Moves s t l :=
  .spared hl htable hcompleted (fun id _ => by rw [hcolumns]) hagain

theorem claim_again {lease : ℕ} {locked : List Uuid} :
    (fun id => s.again id || (s.delivered id &&
      (((claimBatch s.table s.now w 1 lease (some maxAttempts) locked).2).map Row.id).contains id))
      = s.again := by
  funext id
  cases hdelivered : s.delivered id with
  | false => rw [Bool.false_and, Bool.or_false]
  | true =>
    have hnot : (((claimBatch s.table s.now w 1 lease (some maxAttempts) locked).2).map
        Row.id).contains id = false := by
      apply eq_false_of_ne_true
      intro hin
      rw [List.contains_iff_mem] at hin
      obtain ⟨c, hc, rfl⟩ := List.mem_map.1 hin
      obtain ⟨x, hx, rfl⟩ := List.mem_map.1 hc
      have hcandidate := mem_candidate hx
      have hdone := done_of_delivered hcandidate.1 hdelivered
      simp [claimable, hdone] at hcandidate
    rw [hnot, Bool.and_false, Bool.or_false]

theorem settle_moves {delay : ℕ} {c : Claimed} {o : Outcome} (hdoing : s.doing w = .settling c o) :
    Moves s (settle maxAttempts s w c o delay) (.settle w delay) := by
  have hl : ∀ v, Label.settle w delay ≠ .request v ∧ Label.settle w delay ≠ .record v :=
    fun v => ⟨Label.noConfusion, Label.noConfusion⟩
  rw [settle]
  by_cases hkind : o.kind = .done
  · rw [if_pos hkind]
    cases hheld : s.holds w c.row.id with
    | false => exact .of_table hl (spares_refl _) rfl rfl rfl
    | true => exact .delivered w c o s.now hl hdoing hkind hheld rfl rfl rfl rfl
  · rw [if_neg hkind]
    split
    · exact .of_table hl (spares_retry _ _ _ _ _) rfl rfl rfl
    · exact .of_table hl (spares_fail _ _ _ _) rfl rfl rfl

/-- Which rows a step touches, and how. -/
theorem step_moves (hstep : step maxAttempts s l = some t) : Moves s t l := by
  cases l with
  | tick elapsed | sweepFails w | ends w | dismiss id generation =>
    cases hstep
    exact .of_table (fun _ => ⟨Label.noConfusion, Label.noConfusion⟩) (spares_refl _) rfl rfl rfl
  | enqueue id priority next =>
    rw [step] at hstep
    split at hstep
    · rename_i habsent
      cases hstep
      refine .spared (fun _ => ⟨Label.noConfusion, Label.noConfusion⟩)
        (spares_insert habsent Status.noConfusion) rfl ?_ rfl
      intro x hx
      obtain ⟨r, hr, rfl, -⟩ := delivered_iff.1 hx
      have hne : r.id ≠ id := fun h => habsent (h ▸ List.mem_map_of_mem hr)
      dsimp only
      rw [Function.update_of_ne hne]
    · cases hstep
  | claim w lease locked =>
    obtain ⟨-, hstep⟩ := Option.ite_none_right_eq_some.1 hstep
    cases hstep
    exact .of_table (fun _ => ⟨Label.noConfusion, Label.noConfusion⟩)
      (spares_claimBatch _ _ _ _ _ _ _) rfl rfl claim_again
  | release w =>
    simp only [step] at hstep
    split at hstep
    · cases hstep
      exact .of_table (fun _ => ⟨Label.noConfusion, Label.noConfusion⟩)
        (spares_release _ _ _) rfl rfl rfl
    · cases hstep
  | heartbeat w lease =>
    obtain ⟨c, -, rfl⟩ := Option.map_eq_some_iff.1 hstep
    exact .of_table (fun _ => ⟨Label.noConfusion, Label.noConfusion⟩)
      (spares_heartbeat _ _ _ _ _) rfl rfl rfl
  | request w =>
    simp only [step] at hstep
    split at hstep
    · rename_i c hdoing
      cases hstep
      exact .requested w c rfl hdoing rfl rfl rfl rfl
    · cases hstep
  | answer w status | raiseAlert w =>
    simp only [step] at hstep
    split at hstep
    · cases hstep
      exact .of_table (fun _ => ⟨Label.noConfusion, Label.noConfusion⟩) (spares_refl _) rfl rfl
        rfl
    · cases hstep
  | giveUp w how =>
    simp only [step] at hstep
    split at hstep
    · cases hstep
      exact .of_table (fun _ => ⟨Label.noConfusion, Label.noConfusion⟩) (spares_refl _) rfl rfl
        rfl
    · cases hstep
      exact .of_table (fun _ => ⟨Label.noConfusion, Label.noConfusion⟩) (spares_refl _) rfl rfl
        rfl
    · cases hstep
  | settle w delay =>
    simp only [step] at hstep
    split at hstep
    · rename_i c o hdoing
      cases hstep
      exact settle_moves hdoing
    · cases hstep
  | record w =>
    simp only [step] at hstep
    split at hstep
    · rename_i c o failed hdoing
      cases failed with
      | none =>
        cases hstep
        exact .recorded w c o none rfl hdoing rfl rfl rfl rfl
      | some reason =>
        cases hstep
        exact .recorded w c o (some reason) rfl hdoing rfl rfl rfl rfl
    · cases hstep
  | sweep w =>
    obtain ⟨-, hstep⟩ := Option.ite_none_right_eq_some.1 hstep
    cases hstep
    exact .of_table (fun _ => ⟨Label.noConfusion, Label.noConfusion⟩)
      (spares_failExhausted _ _ _) rfl rfl rfl
  | sweepAlert w =>
    simp only [step] at hstep
    split at hstep
    · cases hstep
    · cases hstep
      exact .of_table (fun _ => ⟨Label.noConfusion, Label.noConfusion⟩) (spares_refl _) rfl rfl
        rfl
  | reclaimExpired =>
    cases hstep
    exact .of_table (fun _ => ⟨Label.noConfusion, Label.noConfusion⟩) (spares_reclaim _ _) rfl
      rfl rfl
  | requeue ids =>
    cases hstep
    refine .spared (fun _ => ⟨Label.noConfusion, Label.noConfusion⟩) (spares_requeue _ _ _) rfl
      ?_ rfl
    intro id hid
    have hnot : requeued s.table ids id = false := by
      apply eq_false_of_ne_true
      intro hyes
      simp only [requeued, List.any_eq_true, Bool.and_eq_true, decide_eq_true_eq] at hyes
      obtain ⟨r, hr, ⟨rfl, -⟩, hfailed⟩ := hyes
      rw [done_of_delivered hr hid] at hfailed
      cases hfailed
    dsimp only
    rw [hnot]
    rfl

/-! ## What holds whatever the steps are -/

/-- What an attempt came to: it succeeded just when its status is a success. -/
def Sound (o : Outcome) : Prop := o.kind = .done ↔ ∃ status, o.httpStatus = some status ∧
  isSuccess status = true

theorem sound_answered (status : ℕ) : Sound (answered status) := by
  rw [Sound, answered]
  constructor
  · intro h
    refine ⟨status, rfl, ?_⟩
    by_contra hnot
    split at h
    · contradiction
    · split at h
      · cases h
      · cases h
  · rintro ⟨x, hx, hsuccess⟩
    cases hx
    simp only [hsuccess, if_true]

theorem sound_unanswered (how : Unanswered) : Sound how.outcome := by
  cases how with
  | transient detail | permanent detail =>
    refine ⟨OutcomeKind.noConfusion, ?_⟩
    rintro ⟨_, h, -⟩
    cases h

/-- The outcome a worker has, and one it still has to record. -/
structure OutcomesSound (s : State) : Prop where
  settling : ∀ w c o, s.doing w = .settling c o → Sound o
  recording : ∀ w c o failed, s.doing w = .recording c o failed → Sound o ∧ o.kind ≠ .done

inductive Turns (s : State) (w : WorkerId) : Doing → Prop
  | same : Turns s w (s.doing w)
  | idle : Turns s w .idle
  | given (c : Claimed) (h : s.doing w = .idle)
      (hgeneration : c.generation = (s.columns c.row.id).generation) : Turns s w (.loading c)
  | asked (c : Claimed) (h : s.doing w = .loading c) : Turns s w (.requesting c)
  | ended (c : Claimed) (o : Outcome) (h : (s.doing w).claimed = some c) (ho : Sound o) :
      Turns s w (.settling c o)
  | settled (c : Claimed) (o : Outcome) (failed : Option String) (h : s.doing w = .settling c o)
      (hkind : o.kind ≠ .done) : Turns s w (.recording c o failed)
  | failed (c : Claimed) (o : Outcome) (reason : String)
      (h : s.doing w = .recording c o (some reason)) : Turns s w (.alerting c reason)

theorem turns_update {v : WorkerId} {d : Doing} (h : Turns s v d) (w : WorkerId) :
    Turns s w (Function.update s.doing v d w) := by
  by_cases hw : w = v
  · rw [hw, Function.update_self]
    exact h
  · rw [Function.update_of_ne hw]
    exact .same

theorem turns_given {v : WorkerId} (h : s.doing v = .idle) (rows : List Row) :
    Turns s v (Doing.given s.columns rows) := by
  cases rows with
  | nil => exact .idle
  | cons row rest => exact .given _ h rfl

def owedByAttempt : Doing → List (Uuid × ℕ)
  | .recording c _ (some _) | .alerting c _ => [(c.row.id, c.generation)]
  | _ => []

def workerOf : Label → Option WorkerId
  | .claim w _ _ | .release w | .heartbeat w _ | .request w | .answer w _ | .giveUp w _
  | .settle w _ | .record w | .raiseAlert w | .sweep w | .sweepAlert w | .sweepFails w
  | .ends w => some w
  | .tick _ | .enqueue _ _ _ | .reclaimExpired | .requeue _ | .dismiss _ _ => none

/-- What a step does to the workers and the alerts. -/
inductive Acts (s t : State) (l : Label) : Prop
  | still (hdoing : t.doing = s.doing) (hsweeping : t.sweeping = s.sweeping)
      (halerts : t.alerts = s.alerts ∨
        ∃ id generation, t.alerts = dismissAlert s.alerts id generation)
  | turned (v : WorkerId) (d : Doing) (hw : workerOf l = some v) (hturns : Turns s v d)
      (howes : ∀ p ∈ owedByAttempt (s.doing v), p ∈ owedByAttempt d)
      (hdoing : t.doing = Function.update s.doing v d) (hsweeping : t.sweeping = s.sweeping)
      (halerts : t.alerts = s.alerts)
  | alerted (v : WorkerId) (c : Claimed) (reason : String) (hw : workerOf l = some v)
      (hbefore : s.doing v = .alerting c reason)
      (hdoing : t.doing = Function.update s.doing v .idle) (hsweeping : t.sweeping = s.sweeping)
      (halerts : t.alerts = createAlert s.alerts c.row.id c.generation reason)
  | swept (v : WorkerId) (found : List (Uuid × ℕ)) (hw : workerOf l = some v)
      (hbefore : s.sweeping v = []) (hdoing : t.doing = s.doing)
      (hsweeping : t.sweeping = Function.update s.sweeping v found) (halerts : t.alerts = s.alerts)
  | sweepAlerted (v : WorkerId) (id : Uuid) (generation : ℕ) (rest : List (Uuid × ℕ))
      (body : String) (hw : workerOf l = some v) (hbefore : s.sweeping v = (id, generation) :: rest)
      (hdoing : t.doing = s.doing) (hsweeping : t.sweeping = Function.update s.sweeping v rest)
      (halerts : t.alerts = createAlert s.alerts id generation body)
  | sweepFailed (v : WorkerId) (hl : l = .sweepFails v) (hdoing : t.doing = s.doing)
      (hsweeping : t.sweeping = Function.update s.sweeping v []) (halerts : t.alerts = s.alerts)
  | ended (v : WorkerId) (hl : l = .ends v) (hdoing : t.doing = Function.update s.doing v .idle)
      (hsweeping : t.sweeping = Function.update s.sweeping v []) (halerts : t.alerts = s.alerts)

theorem Acts.free {v : WorkerId} {d : Doing} (hw : workerOf l = some v) (hturns : Turns s v d)
    (hnone : owedByAttempt (s.doing v) = []) (hdoing : t.doing = Function.update s.doing v d)
    (hsweeping : t.sweeping = s.sweeping) (halerts : t.alerts = s.alerts) : Acts s t l := by
  refine .turned v d hw hturns (fun p hp => ?_) hdoing hsweeping halerts
  rw [hnone] at hp
  cases hp

theorem settle_acts {delay : ℕ} {v : WorkerId} {c : Claimed} {o : Outcome}
    (hdoing : s.doing v = .settling c o) :
    Acts s (settle maxAttempts s v c o delay) (.settle v delay) := by
  have hnone : owedByAttempt (s.doing v) = [] := by rw [hdoing]; rfl
  rw [settle]
  by_cases hkind : o.kind = .done
  · rw [if_pos hkind]
    split
    · exact .free rfl .idle hnone rfl rfl rfl
    · exact .free rfl .idle hnone rfl rfl rfl
  · rw [if_neg hkind]
    split
    · exact .free rfl (.settled c o none hdoing hkind) hnone rfl rfl rfl
    · refine .free rfl ?_ hnone rfl rfl rfl
      split
      · exact .settled c o _ hdoing hkind
      · exact .idle

/-- What a step does to the hand of a worker. -/
theorem step_acts (hstep : step maxAttempts s l = some t) : Acts s t l := by
  cases l with
  | tick elapsed | reclaimExpired | requeue ids =>
    cases hstep
    exact .still rfl rfl (Or.inl rfl)
  | dismiss id generation =>
    cases hstep
    exact .still rfl rfl (Or.inr ⟨_, _, rfl⟩)
  | enqueue id priority next =>
    rw [step] at hstep
    split at hstep
    · cases hstep
      exact .still rfl rfl (Or.inl rfl)
    · cases hstep
  | claim v lease locked =>
    obtain ⟨hfree, hstep⟩ := Option.ite_none_right_eq_some.1 hstep
    cases hstep
    exact .free rfl (turns_given hfree.2 _) (by rw [hfree.2]; rfl) rfl rfl rfl
  | heartbeat v lease =>
    obtain ⟨c, -, rfl⟩ := Option.map_eq_some_iff.1 hstep
    exact .still rfl rfl (Or.inl rfl)
  | sweep v =>
    obtain ⟨hfree, hstep⟩ := Option.ite_none_right_eq_some.1 hstep
    cases hstep
    exact .swept v _ rfl hfree.2 rfl rfl rfl
  | sweepAlert v =>
    simp only [step] at hstep
    split at hstep
    · cases hstep
    · rename_i id generation rest hsweeping
      cases hstep
      exact .sweepAlerted v id generation rest _ rfl hsweeping rfl rfl rfl
  | sweepFails v =>
    cases hstep
    exact .sweepFailed v rfl rfl rfl rfl
  | ends v =>
    cases hstep
    exact .ended v rfl rfl rfl rfl
  | release v =>
    simp only [step] at hstep
    split at hstep
    · rename_i c hdoing
      cases hstep
      exact .free rfl .idle (by rw [hdoing]; rfl) rfl rfl rfl
    · cases hstep
  | raiseAlert v =>
    simp only [step] at hstep
    split at hstep
    · rename_i c reason hdoing
      cases hstep
      exact .alerted v c reason rfl hdoing rfl rfl rfl
    · cases hstep
  | request v =>
    simp only [step] at hstep
    split at hstep
    · rename_i c hdoing
      cases hstep
      exact .free rfl (.asked c hdoing) (by rw [hdoing]; rfl) rfl rfl rfl
    · cases hstep
  | answer v status =>
    simp only [step] at hstep
    split at hstep
    · rename_i c hdoing
      cases hstep
      exact .free rfl (.ended c _ (by rw [hdoing, Doing.claimed]) (sound_answered status))
        (by rw [hdoing]; rfl) rfl rfl rfl
    · cases hstep
  | giveUp v how =>
    simp only [step] at hstep
    split at hstep
    · rename_i c hdoing
      cases hstep
      exact .free rfl (.ended c _ (by rw [hdoing, Doing.claimed]) (sound_unanswered how))
        (by rw [hdoing]; rfl) rfl rfl rfl
    · rename_i c hdoing
      cases hstep
      exact .free rfl (.ended c _ (by rw [hdoing, Doing.claimed]) (sound_unanswered how))
        (by rw [hdoing]; rfl) rfl rfl rfl
    · cases hstep
  | settle v delay =>
    simp only [step] at hstep
    split at hstep
    · rename_i c o hdoing
      cases hstep
      exact settle_acts hdoing
    · cases hstep
  | record v =>
    simp only [step] at hstep
    split at hstep
    · rename_i c o failed hdoing
      cases failed with
      | none =>
        cases hstep
        exact .free rfl .idle (by rw [hdoing]; rfl) rfl rfl rfl
      | some reason =>
        cases hstep
        refine .turned v _ rfl (.failed c o reason hdoing) (fun p hp => ?_) rfl rfl rfl
        rw [hdoing] at hp
        exact hp
    · cases hstep

theorem step_turns (hstep : step maxAttempts s l = some t) (w : WorkerId) :
    Turns s w (t.doing w) := by
  cases step_acts hstep with
  | still hdoing | swept _ _ _ _ hdoing | sweepAlerted _ _ _ _ _ _ _ hdoing
  | sweepFailed _ _ hdoing =>
    rw [hdoing]
    exact .same
  | turned v d _ hturns _ hdoing =>
    rw [hdoing]
    exact turns_update hturns w
  | alerted v _ _ _ _ hdoing | ended v _ hdoing =>
    rw [hdoing]
    exact turns_update .idle w

theorem OutcomesSound.step (h : OutcomesSound s)
    (hstep : step maxAttempts s l = some t) : OutcomesSound t where
  settling w c o hdoing := by
    have hturns := step_turns hstep w
    rw [hdoing] at hturns
    generalize hd : Doing.settling c o = d at hturns
    cases hturns with
    | same => exact h.settling w c o hd.symm
    | ended c' o' _ ho =>
      cases hd
      exact ho
    | idle | given | asked | settled | failed => cases hd
  recording w c o failed hdoing := by
    have hturns := step_turns hstep w
    rw [hdoing] at hturns
    generalize hd : Doing.recording c o failed = d at hturns
    cases hturns with
    | same => exact h.recording w c o failed hd.symm
    | settled c' o' _ hsettling hkind =>
      cases hd
      exact ⟨h.settling w c o hsettling, hkind⟩
    | idle | given | asked | ended | failed => cases hd

/-- A delivered row has its success on record, and only delivered rows are marked. -/
structure Kept (s : State) : Prop where
  outcomes : OutcomesSound s
  completed : ∀ r ∈ s.table.rows, r.status = .done → r.lastError = none ∧
    ∃ status, s.completed r.id = some status ∧ isSuccess status = true
  again : ∀ id, s.again id = true → s.delivered id = true

theorem kept_start : Kept start where
  outcomes := {
    settling := fun _ _ _ h => by cases h
    recording := fun _ _ _ _ h => by cases h }
  completed _ hr := by cases hr
  again _ h := by cases h

theorem mem_markDone {t : Table} (hr : r ∈ (markDone t id w).rows) :
    (r ∈ t.rows ∧ ¬ (r.id = id ∧ r.heldBy w = true)) ∨
      ∃ x ∈ t.rows, x.id = id ∧ x.heldBy w = true ∧ r = Row.delivered x := by
  obtain ⟨x, hx, rfl⟩ := KeyedTable.mem_update.1 hr
  by_cases hmatch : (decide (x.id = id) && x.heldBy w) = true
  · rw [if_pos hmatch]
    rw [Bool.and_eq_true, decide_eq_true_eq] at hmatch
    exact Or.inr ⟨x, hx, hmatch.1, hmatch.2, rfl⟩
  · rw [if_neg hmatch]
    rw [Bool.and_eq_true, decide_eq_true_eq] at hmatch
    exact Or.inl ⟨hx, hmatch⟩

theorem not_delivered_of_holds (h : s.holds w id = true) : s.delivered id = false := by
  simp only [State.holds, List.any_eq_true, Bool.and_eq_true, decide_eq_true_eq] at h
  obtain ⟨x, hx, rfl, hheld⟩ := h
  apply eq_false_of_ne_true
  intro hdelivered
  have hdone := done_of_delivered hx hdelivered
  rw [heldBy_status hheld] at hdone
  cases hdone

theorem done_of_markDone (h : s.holds w id = true) (hr : r ∈ (markDone s.table id w).rows) (hdone : r.status = .done) :
    (r ∈ s.table.rows ∧ r.id ≠ id) ∨ (r.id = id ∧ r.lastError = none) := by
  obtain ⟨hold, -⟩ | ⟨x, -, hid, -, rfl⟩ := mem_markDone hr
  · refine Or.inl ⟨hold, ?_⟩
    rintro rfl
    have hdelivered := delivered_of_mem hold hdone
    rw [not_delivered_of_holds h] at hdelivered
    cases hdelivered
  · exact Or.inr ⟨hid, rfl⟩

theorem delivered_spares (h : Spares s.table t.table)
    (hid : s.delivered id = true) : t.delivered id = true := by
  obtain ⟨r, hr, rfl, hdone⟩ := delivered_iff.1 hid
  exact delivered_of_mem (h.kept r hr hdone) hdone

theorem delivered_markDone
    (htable : t.table = markDone s.table id w) {x : Uuid} (hx : s.delivered x = true) :
    t.delivered x = true := by
  obtain ⟨r, hr, rfl, hdone⟩ := delivered_iff.1 hx
  have hstays : r ∈ t.table.rows := by
    rw [htable]
    refine KeyedTable.mem_update.2 ⟨r, hr, if_neg ?_⟩
    rw [Bool.and_eq_true]
    rintro ⟨-, hheld⟩
    rw [heldBy_status hheld] at hdone
    cases hdone
  exact delivered_of_mem hstays hdone

theorem kept_step (h : Kept s) (hstep : step maxAttempts s l = some t) : Kept t := by
  have houtcomes := h.outcomes.step hstep
  cases step_moves hstep with
  | spared hl htable hcompleted hcolumns hagain =>
    refine ⟨houtcomes, ?_, ?_⟩
    · intro r hr hdone
      rw [hcompleted]
      exact h.completed r (htable.made r hr hdone) hdone
    · intro id hid
      rw [hagain] at hid
      exact delivered_spares htable (h.again id hid)
  | requested w c hl hdoing htable hcompleted hcolumns hagain =>
    refine ⟨houtcomes, ?_, ?_⟩
    · intro r hr hdone
      rw [htable] at hr
      rw [hcompleted]
      exact h.completed r hr hdone
    · intro id hid
      rw [State.delivered, htable]
      rw [hagain, Bool.or_eq_true, Bool.and_eq_true] at hid
      obtain hid | ⟨-, hid⟩ := hid
      · exact h.again id hid
      · exact hid
  | recorded w c o failed hl hdoing htable hcompleted hcolumns hagain =>
    refine ⟨houtcomes, ?_, ?_⟩
    · intro r hr hdone
      rw [htable] at hr
      rw [hcompleted]
      exact h.completed r hr hdone
    · intro id hid
      rw [hagain] at hid
      rw [State.delivered, htable]
      exact h.again id hid
  | delivered w c o at_ hl hdoing hkind hheld htable hcompleted hcolumns hagain =>
    obtain ⟨status, hstatus, hsuccess⟩ := (h.outcomes.settling w c o hdoing).1 hkind
    refine ⟨houtcomes, ?_, ?_⟩
    · intro r hr hdone
      rw [htable] at hr
      rw [hcompleted]
      obtain ⟨hold, hne⟩ | ⟨hid, herror⟩ := done_of_markDone hheld hr hdone
      · rw [Function.update_of_ne hne]
        exact h.completed r hold hdone
      · rw [hid, Function.update_self]
        exact ⟨herror, status, hstatus, hsuccess⟩
    · intro id hid
      rw [hagain] at hid
      exact delivered_markDone htable (h.again id hid)

/-! ## The steps that matter -/

theorem undisturbed_of_ne (hl : ∀ w, l ≠ .request w ∧ l ≠ .record w) : Undisturbed s l := by
  cases l with
  | request w => exact absurd rfl (hl w).1
  | record w => exact absurd rfl (hl w).2
  | _ => trivial

theorem undisturbed_iff {c : Claimed} (hl : l = .request w ∨ l = .record w)
    (hclaimed : (s.doing w).claimed = some c) :
    Undisturbed s l ↔ s.delivered c.row.id = false := by
  rcases hl with rfl | rfl
  all_goals
    rw [Undisturbed, hclaimed]
    exact ⟨fun hall => hall c rfl, fun hone x hx => by cases hx; exact hone⟩

theorem ne_of_not_delivered {r : Row} {id : Uuid} (hnot : s.delivered id = false)
    (hr : r ∈ s.table.rows) (hdone : r.status = .done) : r.id ≠ id := by
  rintro rfl
  exact Bool.false_ne_true (hnot.symm.trans (delivered_of_mem hr hdone))

/-- A step leaves the delivered rows truthful exactly when it is no request or record of one. -/
theorem truthful_step_iff (h : Kept s)
    (hs : Truthful s) (hstep : step maxAttempts s l = some t) : Truthful t ↔ Undisturbed s l := by
  cases step_moves hstep with
  | spared hl htable hcompleted hcolumns hagain =>
    refine iff_of_true ?_ (undisturbed_of_ne hl)
    intro r hr hdone
    have hold := htable.made r hr hdone
    rw [hcompleted, hcolumns r.id (delivered_of_mem hold hdone), hagain]
    exact hs r hold hdone
  | requested w c hl hdoing htable hcompleted hcolumns hagain =>
    rw [undisturbed_iff (.inl hl) (congrArg Doing.claimed hdoing)]
    constructor
    · intro ht
      apply eq_false_of_ne_true
      intro hdelivered
      obtain ⟨r, hr, hid, hdone⟩ := delivered_iff.1 hdelivered
      have hmarked := (ht r (htable ▸ hr) hdone).2.2
      simp [hagain, hid, hdelivered] at hmarked
    · intro hnot r hr hdone
      rw [htable] at hr
      have hne := ne_of_not_delivered hnot hr hdone
      rw [hcompleted, hcolumns, hagain]
      dsimp only
      rw [decide_eq_false hne, Bool.false_and, Bool.or_false]
      exact hs r hr hdone
  | recorded w c o failed hl hdoing htable hcompleted hcolumns hagain =>
    rw [undisturbed_iff (.inr hl) (congrArg Doing.claimed hdoing)]
    obtain ⟨hsound, hkind⟩ := h.outcomes.recording w c o failed hdoing
    constructor
    · intro ht
      apply eq_false_of_ne_true
      intro hdelivered
      obtain ⟨r, hr, hid, hdone⟩ := delivered_iff.1 hdelivered
      obtain ⟨status, -, hsuccess, hstatus⟩ := (ht r (htable ▸ hr) hdone).1
      rw [hcolumns, hid, Function.update_self] at hstatus
      exact hkind (hsound.2 ⟨status, hstatus, hsuccess⟩)
    · intro hnot r hr hdone
      rw [htable] at hr
      have hne := ne_of_not_delivered hnot hr hdone
      rw [hcompleted, hcolumns, hagain, Function.update_of_ne hne]
      exact hs r hr hdone
  | delivered w c o at_ hl hdoing hkind hheld htable hcompleted hcolumns hagain =>
    obtain ⟨status, hstatus, hsuccess⟩ := (h.outcomes.settling w c o hdoing).1 hkind
    refine iff_of_true ?_ (undisturbed_of_ne hl)
    intro r hr hdone
    rw [htable] at hr
    rw [hcompleted, hcolumns, hagain]
    obtain ⟨hold, hne⟩ | ⟨hid, herror⟩ := done_of_markDone hheld hr hdone
    · rw [Function.update_of_ne hne, Function.update_of_ne hne]
      exact hs r hold hdone
    · rw [hid, Function.update_self, Function.update_self]
      refine ⟨⟨status, hstatus, hsuccess, hstatus⟩, herror, ?_⟩
      -- the row was not delivered before, so nothing marked it
      apply eq_false_of_ne_true
      intro hmarked
      have hdelivered := h.again c.row.id hmarked
      rw [not_delivered_of_holds hheld] at hdelivered
      cases hdelivered

/-- **Delivered rows tell the truth** in every state of a run exactly when no step of it sends
the request of a delivered row or records another attempt's status there. -/
theorem delivered_rows_truthful (maxAttempts : ℕ) (ls : List Label) {t : State}
    (h : (system maxAttempts).exec start ls = some t) :
    (∀ s ∈ (system maxAttempts).trail start ls, Truthful s) ↔
      (system maxAttempts).execMeets Undisturbed start ls = true :=
  TransitionSystem.trail_iff_execMeets (fun _ _ _ => kept_step)
    (fun _ _ _ => truthful_step_iff) ls kept_start (fun _ hr => by cases hr) h

def retriedRun : List Label :=
  [.enqueue 7 0 0, .claim "a" 60 [], .request "a", .answer "a" 503, .settle "a" 1, .record "a",
    .tick 2, .claim "a" 60 [], .request "a", .answer "a" 200, .settle "a" 0]

theorem delivered_rows_truthful_retried : ((system 5).exec start retriedRun).isSome = true ∧
    ∀ s ∈ (system 5).trail start retriedRun, Truthful s := by
  have hruns : ((system 5).exec start retriedRun).isSome = true := by decide +kernel
  obtain ⟨t, ht⟩ := Option.isSome_iff_exists.1 hruns
  exact ⟨hruns, (delivered_rows_truthful 5 retriedRun ht).2 (by decide +kernel)⟩

/-- A slow request outlives its lease: another worker delivers the mail, and the first one then
records its 503. -/
def slowRun : List Label :=
  [.enqueue 7 0 0, .claim "a" 60 [], .request "a", .tick 61, .reclaimExpired, .claim "b" 60 [],
    .request "b", .answer "b" 200, .settle "b" 0, .answer "a" 503, .settle "a" 1, .record "a"]

theorem late_status_overwrites :
    ¬ ∀ maxAttempts s, (system maxAttempts).Reachable TransitionSystem.anyStep s →
      Truthful s := by
  intro h
  have hruns : ((system 5).exec start slowRun).any (fun s => s.table.rows.any fun r =>
      decide (r.status = .done) && decide ((s.columns r.id).httpStatus = some 503)) = true := by
    decide +kernel
  obtain ⟨s, hexec, hrow⟩ := (Option.any_eq_true _ _).1 hruns
  obtain ⟨r, hr, hbad⟩ := List.any_eq_true.1 hrow
  rw [Bool.and_eq_true, decide_eq_true_eq, decide_eq_true_eq] at hbad
  obtain ⟨status, -, hsuccess, hstatus⟩ :=
    (h 5 s (TransitionSystem.reachable_of_exec_any _ rfl hexec) r hr hbad.1).1
  rw [hbad.2] at hstatus
  cases hstatus
  exact absurd hsuccess (by decide)

end MailVerdict.Analysis.WebhookDeliveries
