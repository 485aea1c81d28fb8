import MailVerdict.Model.OrderJobs
import MailVerdict.Analysis.WorkQueueExhaustion

/-!
# What one step does to the orders queue

`step_cases` lists the ways a step can go. `step_jobs` says what a step makes of each row of `order_jobs` (`Move`), which rows it
adds and which it drops; `step_hasRead` and `step_order` do the same for the workers and
the orders. The invariants of the write queue are read off these.
-/

namespace MailVerdict.Analysis.WriteQueue

open MailVerdict.Computation Model.OrderJobs
open Model.WorkQueue (Row Status Time Uuid WorkerId freshRow claimable)
open Analysis.WorkQueueExhaustion (heldBy_status heldBy_claimedBy leaseExpired_status)

/-- The ways a step rewrites a row it finds in the table. -/
inductive Move (s : State) (l : Label) (t : State) (j j' : Job) : Prop
  | untouched (h : j' = j)
  | claimed (w : WorkerId) (lease : ℕ) (hst : j.row.status = .pending)
      (hins : j.insertedBy = none) (hhand : t.hand w = .claimed j')
      (h : j' = { j with row := j.row.claim s.now w lease })
  | beaten (expiry : Option Time) (h : j' = { j with row := { j.row with leaseExpiresAt := expiry } })
  | returned (op : Return) (holder : Option WorkerId) (hret : s.returned op holder = some t)
      (hpick : op.picks j.row = true) (hins : j.insertedBy = none)
      (h : j' = { j with row := op.rewrite j.row })
  | completed (w : WorkerId) (job : Job) (hhand : s.hand w = .finished job) (hid : j.id = job.id)
      (hheld : j.row.heldBy w = true) (h : j' = { j with row := { j.row.unclaim with status := .done } })
  | failed (w : WorkerId) (job : Job) (error : String) (hl : l = .fail w error)
      (hhand : s.hand w = .gaveUp job) (hid : j.id = job.id) (hheld : j.row.heldBy w = true)
      (h : j' = { j with row := { j.row.unclaim with status := .failed, lastError := some error } })
  | committed (n : TxId) (hl : l = .commit n) (hins : j.insertedBy = some n)
      (h : j' = { j with insertedBy := none })

inductive TableStep (s : State) (l : Label) (t : State) : Prop
  | inserted (j : Job) (hid : j.id = s.nextId) (hst : j.row.status = .pending)
      (hown : j.kind = .write → ∃ n o, j.orderId = some o ∧ j.insertedBy = some n ∧
        (t.txs n).isSome ∧ ∀ k ∈ s.jobs.rows, k.waitsFor o = false)
      (hother : j.kind ≠ .write → j.insertedBy = none) (hnext : t.nextId = s.nextId + 1)
      (h : ∀ j', j' ∈ t.jobs.rows ↔ j' ∈ s.jobs.rows ∨ j' = j)
  | aborted (n : TxId) (hl : l = .abort n) (hnext : t.nextId = s.nextId)
      (h : ∀ j', j' ∈ t.jobs.rows ↔ j' ∈ s.jobs.rows ∧ j'.insertedBy ≠ some n)
  | deleted (o : Uuid) (hl : l = .deleteOrder o) (hnext : t.nextId = s.nextId)
      (h : ∀ j', j' ∈ t.jobs.rows ↔ j' ∈ s.jobs.rows ∧
        ¬ (j'.kind = .write ∧ j'.orderId = some o ∧ j'.insertedBy = none))
  | rewritten (g : Job → Job) (hnext : t.nextId = s.nextId)
      (h : ∀ j', j' ∈ t.jobs.rows ↔ ∃ j ∈ s.jobs.rows, g j = j')
      (hg : ∀ j ∈ s.jobs.rows, (g j).id = j.id ∧ Move s l t j (g j))

def statementOf (s : State) : Label → Option Return
  | .retry w next error =>
    match s.hand w with
    | .gaveUp job => some (.retry job.id w next (some error))
    | _ => none
  | .releaseUntouched w =>
    match s.hand w with
    | .gaveUp job | .claimed job => some (.releaseUntouched job.id w)
    | _ => none
  | .releaseAllClaims w => some (.releaseAllClaims w)
  | .reclaimExpired => some (.reclaimExpired s.now)
  | _ => none

inductive StepCase (maxAttempts : ℕ) (s : State) : Label → State → Prop
  | tick (elapsed : ℕ) : StepCase maxAttempts s (.tick elapsed) { s with now := s.now + elapsed }
  | other (kind : JobKind) (priority : ℤ) (next : Time) (hfresh : s.nextId ∉ s.jobs.rows.map Job.id)
      (hkind : kind ≠ .write) : StepCase maxAttempts s (.enqueueOther kind priority next)
        { s with
          nextId := s.nextId + 1
          jobs := s.jobs.insert ⟨freshRow s.nextId priority next s.now, kind, none, none⟩ hfresh }
  | begun (n : TxId) (locked : Bool) (hfree : s.txs n = none ∧ (locked = true → s.lock = none)) :
      StepCase maxAttempts s (.begin n locked) { s with
        txs := Function.update s.txs n (some ⟨locked, fun _ => none⟩)
        lock := if locked then some (.tx n) else s.lock }
  | enqueued {l : Label} {t : State} (u : State) (n : TxId) (o : Uuid) (priority : ℤ) (tx : Tx)
      (htx : s.txs n = some tx) (h : u.enqueueWriteJob n o priority = some t)
      (hu : l = .enqueue n o priority ∧ u = s ∨ ∃ count, l = .change n o count priority ∧
        (s.rowLock o = none ∨ s.rowLock o = some n) ∧ u = { s with
          txs := Function.update s.txs n
            (some { tx with changed := Function.update tx.changed o (some count) })
          rowLock := Function.update s.rowLock o (some n) }) : StepCase maxAttempts s l t
  | commit (n : TxId) (tx : Tx) (htx : s.txs n = some tx) :
      StepCase maxAttempts s (.commit n) (s.commit n tx)
  | abort (n : TxId) : StepCase maxAttempts s (.abort n) (s.abort n)
  | deleted (o : Uuid) : StepCase maxAttempts s (.deleteOrder o) { s with
      jobs := s.jobs.filter fun j =>
        !(decide (j.kind = .write) && decide (j.orderId = some o) && decide (j.insertedBy = none))
      order := Function.update s.order o { s.order o with deleted := true } }
  | claim (w : WorkerId) (lease : ℕ) (locked : List Uuid) :
      StepCase maxAttempts s (.claim w lease locked) (s.claim maxAttempts w lease locked)
  | beat (w : WorkerId) (ids : List Uuid) (lease : ℕ) :
      StepCase maxAttempts s (.heartbeat w ids lease)
        { s with jobs := heartbeat s.jobs s.now ids w lease }
  | read (w : WorkerId) (job : Job) (o : Uuid) (hjob : s.hand w = .claimed job)
      (hkind : job.kind = .write) (horder : job.orderId = some o) (hlock : s.lock = none) :
      StepCase maxAttempts s (.read w) (s.read w job o)
  | decided (w : WorkerId) (job : Job) (hjob : s.hand w = .claimed job) (hkind : job.kind ≠ .write) :
      StepCase maxAttempts s (.decided w) (s.setHand w (.finished job))
  | dropped (w : WorkerId) (job : Job) (hjob : s.hand w = .claimed job) :
      StepCase maxAttempts s (.rollback w) (s.setHand w (.gaveUp job))
  | rolledBack (w : WorkerId) (job : Job) (o : Uuid) (v : ℕ) (hjob : s.hand w = .writing job o v) :
      StepCase maxAttempts s (.rollback w) { s with
        lock := s.unlock (.worker w)
        hand := Function.update s.hand w (.gaveUp job) }
  | wrote (w : WorkerId) (job : Job) (o : Uuid) (v : ℕ) (hjob : s.hand w = .writing job o v) :
      StepCase maxAttempts s (.commitWrite w) (s.commitWrite w job o v)
  | completed (w : WorkerId) (job : Job) (hjob : s.hand w = .finished job) :
      StepCase maxAttempts s (.complete w) { s with
        jobs := complete s.jobs job.id w .done
        hand := Function.update s.hand w .idle }
  | failed (w : WorkerId) (error : String) (job : Job) (hjob : s.hand w = .gaveUp job) :
      StepCase maxAttempts s (.fail w error) { s with
        jobs := fail s.jobs job.id w error
        hand := Function.update s.hand w .idle }
  | returned {l : Label} {t : State} (op : Return) (w : Option WorkerId)
      (hop : statementOf s l = some op) (h : s.returned op w = some t) : StepCase maxAttempts s l t
  | crash (w : WorkerId) : StepCase maxAttempts s (.crash w) { s with
      lock := s.unlock (.worker w)
      hand := Function.update s.hand w .idle }

section Steps

variable {maxAttempts : ℕ} {s t : State} {l : Label}

/-- Everything a step can do to the jobs and the orders. -/
theorem step_cases (h : step maxAttempts s l = some t) : StepCase maxAttempts s l t := by
  cases l with
  | tick elapsed => cases h; exact .tick elapsed
  | crash w => cases h; exact .crash w
  | heartbeat w ids lease => cases h; exact .beat w ids lease
  | enqueueOther kind priority next =>
    simp only [step] at h
    split at h
    · rename_i hfresh
      obtain ⟨hkind, h⟩ := Option.ite_none_left_eq_some.1 h
      cases h
      exact .other kind priority next hfresh hkind
    · cases h
  | begin n locked =>
    obtain ⟨hfree, h⟩ := Option.ite_none_right_eq_some.1 h
    cases h
    exact .begun n locked hfree
  | change n o count priority =>
    simp only [step] at h
    split at h
    · cases h
    · rename_i tx htx
      obtain ⟨hfree, h⟩ := Option.ite_none_right_eq_some.1 h
      exact .enqueued _ n o priority tx htx h (.inr ⟨count, rfl, hfree.2, rfl⟩)
  | enqueue n o priority =>
    simp only [step] at h
    split at h
    · cases h
    · rename_i tx htx
      exact .enqueued s n o priority tx htx h (.inl ⟨rfl, rfl⟩)
  | commit n =>
    obtain ⟨tx, htx, rfl⟩ := Option.map_eq_some_iff.1 h
    exact .commit n tx htx
  | abort n =>
    obtain ⟨tx, -, rfl⟩ := Option.map_eq_some_iff.1 h
    exact .abort n
  | deleteOrder o =>
    obtain ⟨-, h⟩ := Option.ite_none_right_eq_some.1 h
    cases h
    exact .deleted o
  | claim w lease locked =>
    simp only [step] at h
    split at h
    · cases h; exact .claim w lease locked
    · cases h
  | read w =>
    simp only [step] at h
    split at h
    · rename_i job hjob
      split at h
      · rename_i o hkind horder
        obtain ⟨hlock, h⟩ := Option.ite_none_right_eq_some.1 h
        cases h
        exact .read w job o hjob hkind horder hlock
      · cases h
    · cases h
  | decided w =>
    simp only [step] at h
    split at h
    · rename_i job hjob
      obtain ⟨hkind, h⟩ := Option.ite_none_left_eq_some.1 h
      cases h
      exact .decided w job hjob hkind
    · cases h
  | rollback w =>
    simp only [step] at h
    split at h
    · rename_i job hjob
      cases h
      exact .dropped w job hjob
    · rename_i job o v hjob
      cases h
      exact .rolledBack w job o v hjob
    · cases h
  | commitWrite w =>
    simp only [step] at h
    split at h
    · rename_i job o v hjob
      obtain ⟨-, h⟩ := Option.ite_none_right_eq_some.1 h
      cases h
      exact .wrote w job o v hjob
    · cases h
  | complete w =>
    simp only [step] at h
    split at h
    · rename_i job hjob
      cases h
      exact .completed w job hjob
    · cases h
  | fail w error =>
    simp only [step] at h
    split at h
    · rename_i job hjob
      cases h
      exact .failed w error job hjob
    · cases h
  | retry w next error | releaseUntouched w =>
    simp only [step] at h
    split at h
    all_goals first
      | cases h
      | rename_i job hjob
        exact .returned _ _ (by simp only [statementOf, hjob]) h
  | releaseAllClaims w =>
    simp only [step] at h
    split at h
    · exact .returned _ _ rfl h
    · cases h
  | reclaimExpired => exact .returned _ _ rfl h

theorem mem_of_update {u v : Table} {p : Job → Bool} {f : Job → Job} (hf : ∀ j, (f j).id = j.id)
    (h : v = u.update p f hf) {j' : Job} :
    j' ∈ v.rows ↔ ∃ j ∈ u.rows, (if p j then f j else j) = j' := by
  rw [h, KeyedTable.mem_update]

theorem TableStep.same (hjobs : t.jobs = s.jobs) (hnext : t.nextId = s.nextId) :
    TableStep s l t :=
  .rewritten id hnext (fun j' => by simp [hjobs]) fun _ _ => ⟨rfl, .untouched rfl⟩

theorem TableStep.update {p : Job → Bool} {f : Job → Job} (hf : ∀ j, (f j).id = j.id)
    (hjobs : t.jobs = s.jobs.update p f hf) (hnext : t.nextId = s.nextId)
    (hmoves : ∀ j ∈ s.jobs.rows, p j = true → Move s l t j (f j)) : TableStep s l t := by
  refine .rewritten (fun j => if p j then f j else j) hnext (fun _ => mem_of_update hf hjobs)
    fun j hj => ?_
  by_cases hp : p j = true
  · simp only [hp, if_true]
    exact ⟨hf j, hmoves j hj hp⟩
  · simp only [hp, Bool.false_eq_true, if_false]
    exact ⟨trivial, .untouched rfl⟩

theorem TableStep.statement {p : Row → Bool} {f : Row → Row} (hf : ∀ r, (f r).id = r.id)
    (hjobs : t.jobs = updateRows s.jobs p f hf) (hnext : t.nextId = s.nextId)
    (hmoves : ∀ j ∈ s.jobs.rows, j.insertedBy = none → p j.row = true →
      Move s l t j { j with row := f j.row }) : TableStep s l t := by
  refine .update (f := fun j => { j with row := f j.row }) (fun j => hf j.row) hjobs hnext
    fun j hj hp => ?_
  rw [Bool.and_eq_true, decide_eq_true_eq] at hp
  exact hmoves j hj hp.1 hp.2

theorem mem_candidate {u : Table} {now : Time} {cap : Option ℕ} {n : ℕ} {locked : List Uuid}
    {j : Job} (h : j ∈ candidate u now cap n locked) :
    j ∈ u.rows ∧ j.insertedBy = none ∧ j.row.status = .pending := by
  have hmem := List.mem_of_mem_take h
  rw [List.mem_insertionSort, List.mem_filter, Bool.and_eq_true, Bool.and_eq_true,
    decide_eq_true_eq] at hmem
  have hclaim := hmem.2.1.2
  simp only [claimable, Bool.and_eq_true, decide_eq_true_eq] at hclaim
  exact ⟨hmem.1, hmem.2.1.1, hclaim.1.1⟩

theorem claim_cases (maxAttempts : ℕ) (s : State) (w : WorkerId) (lease : ℕ) (locked : List Uuid) :
    (candidate s.jobs s.now (some maxAttempts) 1 locked = [] ∧
      (s.claim maxAttempts w lease locked).hand = Function.update s.hand w .idle) ∨
    ∃ c, candidate s.jobs s.now (some maxAttempts) 1 locked = [c] ∧
      (s.claim maxAttempts w lease locked).hand =
        Function.update s.hand w (.claimed { c with row := c.row.claim s.now w lease }) := by
  have hlen : (candidate s.jobs s.now (some maxAttempts) 1 locked).length ≤ 1 := by
    simp only [candidate, List.length_take]
    omega
  cases hc : candidate s.jobs s.now (some maxAttempts) 1 locked with
  | nil => exact .inl ⟨rfl, by simp [State.claim, claimBatch, hc]⟩
  | cons c rest =>
    rw [hc] at hlen
    obtain rfl : rest = [] := List.length_eq_zero_iff.1 (by simpa using hlen)
    exact .inr ⟨c, rfl, by simp [State.claim, claimBatch, hc]⟩

theorem candidate_of_id {u : Table} {now : Time} {cap : Option ℕ} {n : ℕ} {locked : List Uuid}
    {j : Job} (hj : j ∈ u.rows)
    (h : ((candidate u now cap n locked).map Job.id).contains j.row.id = true) :
    j ∈ candidate u now cap n locked := by
  rw [List.contains_iff_mem, List.mem_map] at h
  obtain ⟨c, hc, hid⟩ := h
  rwa [← u.eq_of_key_eq (mem_candidate hc).1 hj hid]

theorem enqueueWriteJob_cases {n : TxId} {o : Uuid} {priority : ℤ}
    (h : s.enqueueWriteJob n o priority = some t) :
    (t = s ∧ ∃ j ∈ s.jobs.rows, j.waitsFor o = true ∧
      (j.insertedBy = none ∨ j.insertedBy = some n)) ∨
    (∃ hfresh, t = { s with
        nextId := s.nextId + 1
        jobs := s.jobs.insert (freshJob s.nextId priority s.now o n) hfresh }) ∧
      ∀ k ∈ s.jobs.rows, k.waitsFor o = false := by
  simp only [State.enqueueWriteJob] at h
  split at h
  · cases h
  · rename_i hother
    split at h
    · rename_i hany
      cases h
      obtain ⟨j, hj, hw⟩ := List.any_eq_true.1 hany
      refine .inl ⟨rfl, j, hj, hw, ?_⟩
      by_contra hno
      rw [not_or] at hno
      refine hother (List.any_eq_true.2 ⟨j, hj, ?_⟩)
      simp [hw, hno.1, hno.2]
    · rename_i hnone
      split at h
      · rename_i hfresh
        cases h
        refine .inr ⟨⟨hfresh, rfl⟩, fun k hk => ?_⟩
        by_contra hw
        exact hnone (List.any_eq_true.2 ⟨k, hk, by simpa using hw⟩)
      · cases h

theorem returned_cases {op : Return} {w : Option WorkerId} (h : s.returned op w = some t) :
    (op.run s.jobs = .done t.jobs ∧ t.jobs = op.table s.jobs ∧ t.failures = s.failures) ∨
    (op.run s.jobs = .error ∧ t.jobs = s.jobs ∧ t.failures = s.failures + 1) := by
  simp only [State.returned] at h
  split at h
  · rename_i jobs hrun
    cases h
    refine .inl ⟨hrun, ?_, rfl⟩
    simp only [Return.run] at hrun
    split at hrun
    · exact (Outcome.done.inj hrun).symm
    · split at hrun <;> cases hrun
  · cases h
  · rename_i hrun
    cases h
    exact .inr ⟨hrun, rfl, rfl⟩

theorem returned_frame {op : Return} {w : Option WorkerId} (h : s.returned op w = some t) :
    t.nextId = s.nextId ∧ t.order = s.order ∧ t.txs = s.txs ∧ t.rowLock = s.rowLock ∧
      t.lock = s.lock ∧ t.hand = s.dismissed w := by
  simp only [State.returned] at h
  split at h
  · cases h
    exact ⟨rfl, rfl, rfl, rfl, rfl, rfl⟩
  · cases h
  · cases h
    exact ⟨rfl, rfl, rfl, rfl, rfl, rfl⟩

theorem TableStep.of_returned {op : Return} {w : Option WorkerId} (h : s.returned op w = some t) :
    TableStep s l t := by
  obtain ⟨hnext, -⟩ := returned_frame h
  rcases returned_cases h with ⟨-, hjobs, -⟩ | ⟨-, hjobs, -⟩
  · exact .statement op.rewrite_id hjobs hnext fun j _ hins hp => .returned op w h hp hins rfl
  · exact .same hjobs hnext

theorem TableStep.of_enqueue {u : State} {n : TxId} {o : Uuid} {priority : ℤ}
    (hjobs : u.jobs = s.jobs) (hnext : u.nextId = s.nextId) (htx : (u.txs n).isSome)
    (h : u.enqueueWriteJob n o priority = some t) : TableStep s l t := by
  rcases enqueueWriteJob_cases h with ⟨rfl, -⟩ | ⟨⟨hfresh, rfl⟩, hnone⟩
  · exact .same hjobs hnext
  · refine .inserted (freshJob u.nextId priority u.now o n) hnext rfl ?_ (fun hk => absurd rfl hk)
      (congrArg (· + 1) hnext) fun j' => ?_
    · exact fun _ => ⟨n, o, rfl, rfl, htx, hjobs ▸ hnone⟩
    · rw [← hjobs]
      exact KeyedTable.mem_insert hfresh

/-- **What a step does to the table.** -/
theorem step_jobs (h : step maxAttempts s l = some t) : TableStep s l t := by
  cases step_cases h with
  | tick | begun | decided | dropped | rolledBack | wrote | crash => exact .same rfl rfl
  | other kind priority next hfresh hkind =>
    exact .inserted _ rfl rfl (fun hk => absurd hk hkind) (fun _ => rfl) rfl fun j' =>
      KeyedTable.mem_insert hfresh
  | enqueued u n o priority tx htx henq hu =>
    rcases hu with ⟨-, rfl⟩ | ⟨count, -, -, rfl⟩
    · exact .of_enqueue rfl rfl (by simp [htx]) henq
    · refine .of_enqueue ?_ ?_ ?_ henq
      · rfl
      · rfl
      · simp
  | commit n tx htx =>
    refine .update (by exact fun _ => rfl) rfl rfl fun j _ hp => ?_
    exact .committed n rfl (by simpa using hp) rfl
  | abort n =>
    refine .aborted n rfl rfl fun j' => ?_
    simp [State.abort, KeyedTable.mem_filter]
  | deleted o =>
    refine .deleted o rfl rfl fun j' => ?_
    rw [KeyedTable.mem_filter]
    simp only [Bool.not_eq_true', Bool.and_eq_false_iff, decide_eq_false_iff_not, not_and_or,
      or_assoc]
  | claim w lease locked =>
    refine .statement (p := fun r =>
        ((candidate s.jobs s.now (some maxAttempts) 1 locked).map Job.id).contains r.id)
      (f := Row.claim s.now w lease) (fun _ => rfl) rfl rfl fun j hj hins hp => ?_
    have hcand := candidate_of_id hj hp
    rcases claim_cases maxAttempts s w lease locked with ⟨hnone, -⟩ | ⟨c, hc, hhand⟩
    · rw [hnone] at hcand
      cases hcand
    · rw [hc, List.mem_singleton] at hcand
      subst hcand
      exact .claimed w lease (mem_candidate (hc ▸ List.mem_singleton_self _)).2.2 hins
        (by rw [hhand, Function.update_self]) rfl
  | beat w ids lease =>
    exact .statement (p := fun r => ids.contains r.id && r.heldBy w)
      (f := fun r => { r with leaseExpiresAt := some (s.now + lease) }) (fun _ => rfl) rfl rfl
      fun j _ _ _ => .beaten _ rfl
  | read w job o =>
    simp only [State.read]
    split
    · exact .same rfl rfl
    · exact .same rfl rfl
  | completed w job hjob =>
    refine .statement (p := fun r => decide (r.id = job.id) && r.heldBy w)
      (f := fun r => { r.unclaim with status := .done }) (fun _ => rfl) rfl rfl fun j _ _ hp => ?_
    rw [Bool.and_eq_true, decide_eq_true_eq] at hp
    exact .completed w job hjob hp.1 hp.2 rfl
  | failed w error job hjob =>
    refine .statement (p := fun r => decide (r.id = job.id) && r.heldBy w)
      (f := fun r => { r.unclaim with status := .failed, lastError := some error })
      (fun _ => rfl) rfl rfl fun j _ _ hp => ?_
    rw [Bool.and_eq_true, decide_eq_true_eq] at hp
    exact .failed w job error rfl hjob hp.1 hp.2 rfl
  | returned op w hop h => exact .of_returned h

inductive HandStep (s : State) (l : Label) (t : State) (w : WorkerId) : Prop
  | same (h : t.hand w = s.hand w)
  | ended (h : t.hand w = .idle)
  | claimed (c : Job) (row : Row) (hc : c ∈ s.jobs.rows) (hins : c.insertedBy = none)
      (hid : row.id = c.row.id) (h : t.hand w = .claimed { c with row := row })
  | read (job : Job) (o : Uuid) (hl : l = .read w) (hhand : s.hand w = .claimed job)
      (hkind : job.kind = .write) (horder : job.orderId = some o) (hlock : s.lock = none)
      (h : t = s.read w job o)
  | decided (job : Job) (hhand : s.hand w = .claimed job) (hkind : job.kind ≠ .write)
      (h : t.hand w = .finished job)
  | gaveUp (job : Job)
      (hhand : s.hand w = .claimed job ∨ ∃ o v, s.hand w = .writing job o v)
      (h : t.hand w = .gaveUp job)
  | wrote (job : Job) (o : Uuid) (v : ℕ) (hl : l = .commitWrite w)
      (hhand : s.hand w = .writing job o v) (h : t = s.commitWrite w job o v)

theorem HandStep.update {w w' : WorkerId} {x : Hand} (h : t.hand = Function.update s.hand w' x)
    (hself : w = w' → t.hand w = x → HandStep s l t w) : HandStep s l t w := by
  by_cases hww : w = w'
  · exact hself hww (by rw [h, hww, Function.update_self])
  · exact .same (by rw [h, Function.update_of_ne hww])

theorem HandStep.of_returned {op : Return} {w' : Option WorkerId} (w : WorkerId)
    (h : s.returned op w' = some t) : HandStep s l t w := by
  have hhand := (returned_frame h).2.2.2.2.2
  cases w' with
  | none => exact .same (by rw [hhand]; rfl)
  | some w' => exact .update hhand fun _ hidle => .ended hidle

/-- **What a step does to a worker.** -/
theorem step_hand (h : step maxAttempts s l = some t) (w : WorkerId) : HandStep s l t w := by
  cases step_cases h with
  | tick | other | begun | commit | abort | deleted | beat => exact .same rfl
  | enqueued u n o priority tx htx h hu =>
    have hhand : u.hand = s.hand := by
      rcases hu with ⟨-, rfl⟩ | ⟨count, -, -, rfl⟩
      · rfl
      · rfl
    rcases enqueueWriteJob_cases h with ⟨rfl, -⟩ | ⟨⟨hfresh, rfl⟩, -⟩
    · exact .same (by rw [hhand])
    · exact .same (by simp only [hhand])
  | claim w' lease locked =>
    rcases claim_cases maxAttempts s w' lease locked with ⟨-, hhand⟩ | ⟨c, hc, hhand⟩
    · exact .update hhand fun _ hidle => .ended hidle
    · refine .update hhand fun _ hclaim => ?_
      obtain ⟨hmem, hins, -⟩ := mem_candidate (hc ▸ List.mem_singleton_self c)
      exact .claimed c (c.row.claim s.now w' lease) hmem hins rfl hclaim
  | read w' job o hjob hkind horder hlock =>
    have hupd : ∃ x, (s.read w' job o).hand = Function.update s.hand w' x := by
      simp only [State.read]
      split
      · exact ⟨_, rfl⟩
      · exact ⟨_, rfl⟩
    obtain ⟨x, hx⟩ := hupd
    refine .update hx fun hww _ => ?_
    subst hww
    exact .read job o rfl hjob hkind horder hlock rfl
  | decided w' job hjob hkind =>
    refine .update rfl fun hww hfin => ?_
    subst hww
    exact .decided job hjob hkind hfin
  | dropped w' job hjob =>
    refine .update rfl fun hww hgave => ?_
    subst hww
    exact .gaveUp job (.inl hjob) hgave
  | rolledBack w' job o v hjob =>
    refine .update rfl fun hww hgave => ?_
    subst hww
    exact .gaveUp job (.inr ⟨o, v, hjob⟩) hgave
  | wrote w' job o v hjob =>
    refine .update rfl fun hww _ => ?_
    subst hww
    exact .wrote job o v rfl hjob rfl
  | completed | failed | crash => exact .update rfl fun _ hidle => .ended hidle
  | returned op w' hop h => exact .of_returned w h

inductive OrderStep (s : State) (l : Label) (t : State) (o : Uuid) : Prop
  | same (horder : t.order o = s.order o) (hrow : t.rowLock o = s.rowLock o)
  | locked (n : TxId) (count : ℕ) (priority : ℤ) (hl : l = .change n o count priority)
      (horder : t.order o = s.order o) (hrow : t.rowLock o = some n)
      (hwait : ∃ j ∈ t.jobs.rows, j.waitsFor o = true ∧
        (j.insertedBy = none ∨ j.insertedBy = some n))
  | committed (n : TxId) (tx : Tx) (count : ℕ) (hl : l = .commit n) (htx : s.txs n = some tx)
      (hchanged : tx.changed o = some count)
      (horder : t.order o = { s.order o with version := (s.order o).version + 1, count := count })
      (hrow : t.rowLock o = s.releaseRows n o)
  | unlocked (n : TxId) (hl : l = .commit n ∨ l = .abort n) (hrow : s.rowLock o = some n)
      (horder : t.order o = s.order o) (hrow' : t.rowLock o = none)
  | deleted (hl : l = .deleteOrder o) (horder : t.order o = { s.order o with deleted := true })
      (hrow : t.rowLock o = s.rowLock o)
  | wrote (w : WorkerId) (job : Job) (v : ℕ) (hl : l = .commitWrite w)
      (hhand : s.hand w = .writing job o v) (horder : t.order o = { s.order o with written := v })
      (hrow : t.rowLock o = s.rowLock o)

theorem OrderStep.of_returned {op : Return} {w' : Option WorkerId} (o : Uuid)
    (h : s.returned op w' = some t) : OrderStep s l t o := by
  obtain ⟨-, horder, -, hrow, -⟩ := returned_frame h
  exact .same (by rw [horder]) (by rw [hrow])

/-- **What a step does to an order.** -/
theorem step_order (h : step maxAttempts s l = some t) (o : Uuid) : OrderStep s l t o := by
  cases step_cases h with
  | tick | other | begun | claim | beat | decided | dropped | rolledBack | completed | failed
  | crash => exact .same rfl rfl
  | enqueued u n o' priority tx htx h hu =>
    have hwait := enqueueWriteJob_cases h
    rcases hu with ⟨-, rfl⟩ | ⟨count, rfl, -, rfl⟩
    · rcases hwait with ⟨rfl, -⟩ | ⟨⟨hfresh, rfl⟩, -⟩
      · exact .same rfl rfl
      · exact .same rfl rfl
    · by_cases ho : o = o'
      · subst ho
        rcases hwait with ⟨rfl, j, hj, hw, hins⟩ | ⟨⟨hfresh, rfl⟩, -⟩
        · exact .locked n count priority rfl rfl (by simp) ⟨j, hj, hw, hins⟩
        · refine .locked n count priority rfl rfl (by simp) ⟨_, (KeyedTable.mem_insert hfresh).2
            (.inr rfl), by simp [freshJob, Job.waitsFor, freshRow], .inr rfl⟩
      · rcases hwait with ⟨rfl, -⟩ | ⟨⟨hfresh, rfl⟩, -⟩
        · exact .same rfl (by simp [Function.update_of_ne ho])
        · exact .same rfl (by simp [Function.update_of_ne ho])
  | commit n tx htx =>
    cases hchanged : tx.changed o with
    | some count =>
      exact .committed n tx count rfl htx hchanged (by simp [State.commit, State.changedOrder,
        hchanged]) rfl
    | none =>
      have horder : (s.commit n tx).order o = s.order o := by
        simp [State.commit, State.changedOrder, hchanged]
      by_cases hrow : s.rowLock o = some n
      · exact .unlocked n (.inl rfl) hrow horder (by simp [State.commit, State.releaseRows, hrow])
      · exact .same horder (by simp [State.commit, State.releaseRows, hrow])
  | abort n =>
    by_cases hrow : s.rowLock o = some n
    · exact .unlocked n (.inr rfl) hrow rfl (by simp [State.abort, State.releaseRows, hrow])
    · exact .same rfl (by simp [State.abort, State.releaseRows, hrow])
  | deleted o' =>
    by_cases ho : o = o'
    · subst ho
      exact .deleted rfl (by simp) rfl
    · exact .same (by simp [Function.update_of_ne ho]) rfl
  | read w job o' =>
    simp only [State.read]
    split
    · exact .same rfl rfl
    · exact .same rfl rfl
  | wrote w job o' v hjob =>
    by_cases ho : o = o'
    · subst ho
      exact .wrote w job v rfl hjob (by simp [State.commitWrite]) rfl
    · exact .same (by simp [State.commitWrite, Function.update_of_ne ho]) rfl
  | returned op w hop h => exact .of_returned o h

theorem step_lock (h : step maxAttempts s l = some t) {w : WorkerId}
    (hlock : s.lock = some (.worker w)) :
    t.lock = some (.worker w) ∨ ∀ job o v, t.hand w ≠ .writing job o v := by
  have hunlock : ∀ {x : Holder}, x ≠ .worker w → s.unlock x = some (.worker w) := by
    intro x hx
    have hne : ¬ Holder.worker w = x := fun he => hx he.symm
    simp [State.unlock, hlock, hne]
  cases step_cases h with
  | tick | other | beat | decided | deleted | claim | dropped | completed | failed =>
    exact .inl hlock
  | begun n locked hfree =>
    cases locked with
    | false => exact .inl (by simpa using hlock)
    | true =>
      have hnone := hfree.2 rfl
      rw [hlock] at hnone
      cases hnone
  | enqueued u n o priority tx htx h hu =>
    have hu' : u.lock = s.lock := by
      rcases hu with ⟨-, rfl⟩ | ⟨count, -, -, rfl⟩
      · rfl
      · rfl
    rcases enqueueWriteJob_cases h with ⟨rfl, -⟩ | ⟨⟨hfresh, rfl⟩, -⟩
    · exact .inl (hu'.trans hlock)
    · exact .inl (hu'.trans hlock)
  | commit n tx | abort n => exact .inl (hunlock (by simp))
  | read w' job o hjob hkind horder hnone =>
    rw [hlock] at hnone
    cases hnone
  | rolledBack w' | wrote w' | crash w' =>
    by_cases hww : w = w'
    · subst hww
      exact .inr (by simp [State.commitWrite])
    · exact .inl (hunlock (by simpa using Ne.symm hww))
  | returned op w' hop h => exact .inl ((returned_frame h).2.2.2.2.1.trans hlock)

inductive TxStep (s : State) (l : Label) (t : State) : Prop
  | same (htxs : t.txs = s.txs) (hrow : t.rowLock = s.rowLock)
  | begun (n : TxId) (locked : Bool) (hnone : s.txs n = none)
      (htxs : t.txs = Function.update s.txs n (some ⟨locked, fun _ => none⟩))
      (hrow : t.rowLock = s.rowLock)
  | changed (n : TxId) (tx : Tx) (o : Uuid) (count : ℕ) (htx : s.txs n = some tx)
      (hfree : s.rowLock o = none ∨ s.rowLock o = some n)
      (htxs : t.txs = Function.update s.txs n
        (some { tx with changed := Function.update tx.changed o (some count) }))
      (hrow : t.rowLock = Function.update s.rowLock o (some n))
  | ended (n : TxId) (hl : l = .commit n ∨ l = .abort n) (htxs : t.txs = Function.update s.txs n none)
      (hrow : t.rowLock = s.releaseRows n)

theorem TxStep.of_returned {op : Return} {w' : Option WorkerId} (h : s.returned op w' = some t) :
    TxStep s l t := by
  obtain ⟨-, -, htxs, hrow, -⟩ := returned_frame h
  exact .same htxs hrow

/-- **What a step does to the transactions.** -/
theorem step_txs (h : step maxAttempts s l = some t) : TxStep s l t := by
  cases step_cases h with
  | tick | other | deleted | claim | beat | decided | dropped | rolledBack | wrote | completed
  | failed | crash => exact .same rfl rfl
  | begun n locked hfree => exact .begun n locked hfree.1 rfl rfl
  | enqueued u n o priority tx htx h hu =>
    have htables : t.txs = u.txs ∧ t.rowLock = u.rowLock := by
      rcases enqueueWriteJob_cases h with ⟨rfl, -⟩ | ⟨⟨hfresh, rfl⟩, -⟩
      · exact ⟨rfl, rfl⟩
      · exact ⟨rfl, rfl⟩
    rcases hu with ⟨-, rfl⟩ | ⟨count, -, hfree, rfl⟩
    · exact .same htables.1 htables.2
    · exact .changed n tx o count htx hfree htables.1 htables.2
  | commit n tx htx => exact .ended n (.inl rfl) rfl rfl
  | abort n => exact .ended n (.inr rfl) rfl rfl
  | read w job o =>
    simp only [State.read]
    split
    · exact .same rfl rfl
    · exact .same rfl rfl
  | returned op w hop h => exact .of_returned h

end Steps

end MailVerdict.Analysis.WriteQueue
