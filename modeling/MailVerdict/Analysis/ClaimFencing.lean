import MailVerdict.Analysis.WorkQueueExhaustion
import MailVerdict.Model.WorkerLoop

/-!
# Statements under a claim

Every exit of `work_queue.py` matches a row by its id and the worker's name, and neither tells a
claim from a later one by the same worker. It is the loop that does: a worker claims only when it
is done with its last batch, so the claim its copies come from is the last one it made. A row it
may still write was taken last by a claim of its own, and a row of one of its copies was taken by
that claim or by a later one; so the claim is the same.

`Does` says once what a step does to the table and the refunds, and `step_workers` what it does
to the copies and the record of claims. The invariant (`Fenced`) is read off the two.
-/

namespace MailVerdict.Analysis.ClaimFencing

open MailVerdict.Computation
open Model.WorkQueue hiding State Label step start system
open Model.WorkerLoop Analysis.WorkQueueExhaustion

variable {s t : State} {l : Label} {w : WorkerId} {r : Row} {id : Uuid} {p : Row → Bool}

/-! ## What a step does -/

/-- A row decided: no claim on it is left, and its attempts are as they were. -/
structure Decision (f : Row → Row) : Prop where
  key : ∀ r, (f r).id = r.id
  notClaimed : ∀ r, (f r).status ≠ .claimed
  owner : ∀ r, (f r).claimedBy = none
  lease : ∀ r, (f r).leaseExpiresAt = none
  attempts : ∀ r, (f r).attempts = r.attempts

def claimedIds (s : State) (n : ℕ) (cap : Option ℕ) (locked : List Uuid) : List Uuid :=
  (candidate s.table s.now cap n locked).map Row.id

inductive Does (s t : State) (l : Label) : Prop
  | moved (hl : l.isClaim = false) (htable : t.table = s.table) (hrefunds : t.refunds = s.refunds)
  | enqueued (id : Uuid) (priority : ℤ) (next : Time) (hl : l.isClaim = false)
      (habsent : id ∉ s.table.rows.map Row.id)
      (htable : t.table = s.table.insert (freshRow id priority next s.now) habsent)
      (hrefunds : t.refunds = s.refunds)
  | claimed (w : WorkerId) (n lease : ℕ) (cap : Option ℕ) (locked : List Uuid)
      (hl : l = .claimBatch w n lease cap locked)
      (htable : t.table = s.table.update (fun r => (claimedIds s n cap locked).contains r.id)
        (Row.claim s.now w lease) (fun _ => rfl))
      (hrefunds : t.refunds = s.refunds)
  | extended (w : WorkerId) (id : Uuid) (lease : ℕ) (hl : l = .heartbeat w id lease)
      (htable : t.table = s.table.update (fun r => [id].contains r.id && r.heldBy w)
        (fun r => { r with leaseExpiresAt := some (s.now + lease) }) (fun _ => rfl))
      (hrefunds : t.refunds = s.refunds)
  | decided (w : WorkerId) (c : Call) (copy : Row) (hl : l = .call w c)
      (hcopy : (s.workers w).current = some copy) (f : Row → Row) (hf : Decision f)
      (htable : t.table =
        s.table.update (fun r => decide (r.id = copy.id) && r.heldBy w) f hf.key)
      (hrefunds : t.refunds = s.refunds)
  | released (w : WorkerId) (copy : Row) (hl : l = .giveBack w ∨ ∃ c, l = .call w c)
      (hcopy : copy ∈ Worker.copies (s.workers w))
      (htable : t.table = s.table.update (fun r => decide (r.id = copy.id) && r.heldBy w)
        Row.release (fun _ => rfl))
      (hrefunds : t.refunds =
        refunded s fun r => decide (r.id = copy.id) && r.heldBy w)
  | releasedAll (w : WorkerId) (hl : l = .releaseAllClaims w)
      (htable : t.table = s.table.update (Row.heldBy w) Row.release (fun _ => rfl))
      (hrefunds : t.refunds = refunded s (Row.heldBy w))
  | reclaimed (hl : l = .reclaimExpired)
      (htable : t.table = s.table.update (Row.leaseExpired s.now) Row.reclaim (fun _ => rfl))
      (hrefunds : t.refunds = s.refunds)

theorem decision_complete {status : Status} (h : status.terminal = true) :
    Decision fun r => { r.unclaim with status := status } where
  key _ := rfl
  notClaimed r hclaimed := by
    have hstatus : status = .claimed := hclaimed
    rw [hstatus] at h
    cases h
  owner _ := rfl
  lease _ := rfl
  attempts _ := rfl

theorem decision_fail (lastError : String) :
    Decision fun r => { r.unclaim with status := .failed, lastError := some lastError } where
  key _ := rfl
  notClaimed _ := Status.noConfusion
  owner _ := rfl
  lease _ := rfl
  attempts _ := rfl

theorem decision_retry (next : Time) (lastError : Option String) :
    Decision fun r => { r.unclaim with
      status := .pending, nextAttemptAt := next, lastError := lastError.or r.lastError } where
  key _ := rfl
  notClaimed _ := Status.noConfusion
  owner _ := rfl
  lease _ := rfl
  attempts _ := rfl

theorem callTable_decides (t : Table) (w : WorkerId) (copy : Row) {c : Call}
    (hadmissible : c.admissible = true) (hrefunds : c.refunds = false) :
    ∃ f : Row → Row, ∃ hf : Decision f,
      callTable t w copy c = t.update (fun r => decide (r.id = copy.id) && r.heldBy w) f hf.key := by
  cases c with
  | complete status =>
    rw [Call.admissible, Bool.and_eq_true] at hadmissible
    exact ⟨_, decision_complete hadmissible.1, rfl⟩
  | fail lastError => exact ⟨_, decision_fail lastError, rfl⟩
  | retry next lastError => exact ⟨_, decision_retry next lastError, rfl⟩
  | retryOrFail maxAttempts next error =>
    rw [callTable]
    split
    · exact ⟨_, decision_fail error, rfl⟩
    · exact ⟨_, decision_retry next (some error), rfl⟩
  | releaseUntouched => cases hrefunds

/-- What a step does to the rows. -/
theorem step_does (hstep : step s l = some t) : Does s t l := by
  cases l with
  | tick elapsed | stop w | crash w =>
    cases hstep
    exact .moved rfl rfl rfl
  | enqueue id priority next =>
    rw [step] at hstep
    split at hstep
    · rename_i habsent
      cases hstep
      exact .enqueued id priority next rfl habsent rfl rfl
    · cases hstep
  | claimBatch w n lease cap locked =>
    obtain ⟨_, hstep⟩ := Option.ite_none_right_eq_some.1 hstep
    cases hstep
    exact .claimed w n lease cap locked rfl rfl rfl
  | handle w =>
    simp only [step] at hstep
    split at hstep
    · cases hstep
    · obtain ⟨_, hstep⟩ := Option.ite_none_right_eq_some.1 hstep
      cases hstep
      exact .moved rfl rfl rfl
  | heartbeat w id lease =>
    cases hstep
    exact .extended w id lease rfl rfl rfl
  | call w c =>
    simp only [step] at hstep
    split at hstep
    · cases hstep
    · rename_i copy hcopy
      obtain ⟨hadmissible, hstep⟩ := Option.ite_none_right_eq_some.1 hstep
      cases hstep
      cases hrefunds : c.refunds with
      | false =>
        obtain ⟨f, hf, htable⟩ := callTable_decides s.table w copy hadmissible hrefunds
        refine .decided w c copy rfl hcopy f hf htable ?_
        rw [if_neg Bool.false_ne_true]
      | true =>
        have hc : c = .releaseUntouched := by cases c <;> first | rfl | cases hrefunds
        have hmem : copy ∈ Worker.copies (s.workers w) := by
          rw [Worker.copies, hcopy]
          exact List.mem_cons_self
        refine .released w copy (Or.inr ⟨c, rfl⟩) hmem ?_ ?_
        · rw [hc]
          rfl
        · dsimp only
          rw [if_pos rfl]
  | handled w =>
    obtain ⟨_, hstep⟩ := Option.ite_none_right_eq_some.1 hstep
    cases hstep
    exact .moved rfl rfl rfl
  | giveBack w =>
    simp only [step] at hstep
    split at hstep
    · cases hstep
    · rename_i row rest hwaiting
      obtain ⟨_, hstep⟩ := Option.ite_none_right_eq_some.1 hstep
      cases hstep
      have hmem : row ∈ Worker.copies (s.workers w) := by
        rw [Worker.copies, hwaiting]
        exact List.mem_append_right _ List.mem_cons_self
      exact .released w row (Or.inl rfl) hmem rfl rfl
  | releaseAllClaims w =>
    cases hstep
    exact .releasedAll w rfl rfl rfl
  | reclaimExpired =>
    cases hstep
    exact .reclaimed rfl rfl rfl

/-- The record of a step that claims nothing: no claim is added to it, and a worker has no
copy it did not have. -/
structure SameClaims (s t : State) : Prop where
  claimNo : t.claimNo = s.claimNo
  madeBy : t.madeBy = s.madeBy
  takenBy : t.takenBy = s.takenBy
  claims : t.claims = s.claims
  claim : ∀ w, (t.workers w).claim = (s.workers w).claim
  copies : ∀ w, ∀ c ∈ Worker.copies (t.workers w), c ∈ Worker.copies (s.workers w)

/-- The record of a claim: it is the worker's last, and its rows are the worker's copies. -/
structure NewClaim (s t : State) (w : WorkerId) (ids : List Uuid) : Prop where
  claimNo : t.claimNo = s.claimNo + 1
  madeBy : t.madeBy = Function.update s.madeBy (s.claimNo + 1) (some w)
  takenBy : t.takenBy = fun id => if id ∈ ids then s.claimNo + 1 else s.takenBy id
  claims : t.claims = fun id => if id ∈ ids then s.claims id + 1 else s.claims id
  claim : (t.workers w).claim = s.claimNo + 1
  copies : ∀ c ∈ Worker.copies (t.workers w), c.id ∈ ids
  others : ∀ v, v ≠ w → t.workers v = s.workers v

theorem sameClaims_setWorker {x : Worker}
    (hworkers : t.workers = Function.update s.workers w x) (hclaimNo : t.claimNo = s.claimNo)
    (hmadeBy : t.madeBy = s.madeBy) (htakenBy : t.takenBy = s.takenBy)
    (hclaims : t.claims = s.claims) (hclaim : x.claim = (s.workers w).claim)
    (hcopies : ∀ c ∈ Worker.copies x, c ∈ Worker.copies (s.workers w)) : SameClaims s t where
  claimNo := hclaimNo
  madeBy := hmadeBy
  takenBy := htakenBy
  claims := hclaims
  claim v := by
    rw [hworkers]
    by_cases hv : v = w
    · rw [hv, Function.update_self]
      exact hclaim
    · rw [Function.update_of_ne hv]
  copies v c hc := by
    rw [hworkers] at hc
    by_cases hv : v = w
    · rw [hv, Function.update_self] at hc
      rw [hv]
      exact hcopies c hc
    · rwa [Function.update_of_ne hv] at hc

theorem sameClaims_of_workers (hworkers : t.workers = s.workers)
    (hclaimNo : t.claimNo = s.claimNo) (hmadeBy : t.madeBy = s.madeBy)
    (htakenBy : t.takenBy = s.takenBy) (hclaims : t.claims = s.claims) : SameClaims s t where
  claimNo := hclaimNo
  madeBy := hmadeBy
  takenBy := htakenBy
  claims := hclaims
  claim v := by rw [hworkers]
  copies v c hc := by rwa [hworkers] at hc

/-- Only a claim gives a worker new copies. -/
theorem step_workers (hstep : step s l = some t) :
    (l.isClaim = false ∧ SameClaims s t) ∨ ∃ w n lease cap locked, l = .claimBatch w n lease cap locked ∧
      NewClaim s t w (claimedIds s n cap locked) := by
  cases l with
  | tick elapsed | heartbeat w id lease | releaseAllClaims w | reclaimExpired =>
    cases hstep
    exact Or.inl ⟨rfl, sameClaims_of_workers rfl rfl rfl rfl rfl⟩
  | enqueue id priority next =>
    rw [step] at hstep
    split at hstep
    · cases hstep
      exact Or.inl ⟨rfl, sameClaims_of_workers rfl rfl rfl rfl rfl⟩
    · cases hstep
  | claimBatch w n lease cap locked =>
    obtain ⟨hidle, hstep⟩ := Option.ite_none_right_eq_some.1 hstep
    cases hstep
    refine Or.inr ⟨w, n, lease, cap, locked, rfl, rfl, rfl, rfl, rfl, ?_, ?_, ?_⟩
    · dsimp only
      rw [Function.update_self]
    · intro c hc
      simp only [Worker.copies, Function.update_self, hidle.2.2.2, Option.toList_none,
        List.nil_append] at hc
      obtain ⟨r, hr, rfl⟩ := List.mem_map.1 hc
      exact List.mem_map.2 ⟨r, hr, rfl⟩
    · intro v hv
      exact Function.update_of_ne hv _ _
  | handle w =>
    simp only [step] at hstep
    split at hstep
    · cases hstep
    · rename_i row rest hwaiting
      obtain ⟨_, hstep⟩ := Option.ite_none_right_eq_some.1 hstep
      cases hstep
      refine Or.inl ⟨rfl, sameClaims_setWorker rfl rfl rfl rfl rfl rfl fun c hc => ?_⟩
      rw [Worker.copies, hwaiting]
      exact List.mem_append_right _ hc
  | call w c =>
    simp only [step] at hstep
    split at hstep
    · cases hstep
    · obtain ⟨_, hstep⟩ := Option.ite_none_right_eq_some.1 hstep
      cases hstep
      exact Or.inl ⟨rfl, sameClaims_of_workers rfl rfl rfl rfl rfl⟩
  | handled w =>
    obtain ⟨_, hstep⟩ := Option.ite_none_right_eq_some.1 hstep
    cases hstep
    refine Or.inl ⟨rfl, sameClaims_setWorker rfl rfl rfl rfl rfl rfl fun c hc => ?_⟩
    exact List.mem_append_right _ hc
  | stop w | crash w =>
    cases hstep
    exact Or.inl ⟨rfl, sameClaims_setWorker rfl rfl rfl rfl rfl rfl fun _ hc => hc⟩
  | giveBack w =>
    simp only [step] at hstep
    split at hstep
    · cases hstep
    · rename_i row rest hwaiting
      obtain ⟨_, hstep⟩ := Option.ite_none_right_eq_some.1 hstep
      cases hstep
      refine Or.inl ⟨rfl, sameClaims_setWorker rfl rfl rfl rfl rfl rfl fun c hc => ?_⟩
      rw [Worker.copies, hwaiting]
      apply List.mem_append.2
      obtain hcurrent | hrest := List.mem_append.1 hc
      · exact Or.inl hcurrent
      · exact Or.inr (List.mem_cons_of_mem _ hrest)

/-! ## The invariants -/

/-- The record of claims: a claim number is used once, the claim a worker is under is its last,
and the rows of its copies were taken by that claim or a later one. -/
structure Recorded (s : State) : Prop where
  bounded : ∀ w, (s.workers w).claim ≤ s.claimNo
  taken : ∀ id, s.takenBy id ≤ s.claimNo
  maker : ∀ w, (s.workers w).claim ≠ 0 → s.madeBy (s.workers w).claim = some w
  latest : ∀ n w, s.madeBy n = some w → n ≤ (s.workers w).claim
  copies : ∀ w, ∀ c ∈ Worker.copies (s.workers w),
    (s.workers w).claim ≠ 0 ∧ (s.workers w).claim ≤ s.takenBy c.id

theorem recorded_start : Recorded start where
  bounded _ := Nat.le_refl 0
  taken _ := Nat.le_refl 0
  maker _ h := absurd rfl h
  latest _ _ h := by cases h
  copies _ _ h := by cases h

theorem Recorded.same (hs : Recorded s) (h : SameClaims s t) : Recorded t where
  bounded w := by
    rw [h.claim, h.claimNo]
    exact hs.bounded w
  taken id := by
    rw [h.takenBy, h.claimNo]
    exact hs.taken id
  maker w hw := by
    rw [h.claim] at hw ⊢
    rw [h.madeBy]
    exact hs.maker w hw
  latest n w hn := by
    rw [h.madeBy] at hn
    rw [h.claim]
    exact hs.latest n w hn
  copies w c hc := by
    rw [h.claim, h.takenBy]
    exact hs.copies w c (h.copies w c hc)

theorem Recorded.newClaim {ids : List Uuid} (hs : Recorded s)
    (h : NewClaim s t w ids) : Recorded t where
  bounded v := by
    rw [h.claimNo]
    by_cases hv : v = w
    · rw [hv, h.claim]
    · rw [h.others v hv]
      exact Nat.le_succ_of_le (hs.bounded v)
  taken id := by
    rw [h.takenBy, h.claimNo]
    dsimp only
    split
    · exact Nat.le_refl _
    · exact Nat.le_succ_of_le (hs.taken id)
  maker v hv := by
    by_cases hvw : v = w
    · rw [hvw, h.claim, h.madeBy, Function.update_self]
    · rw [h.others v hvw] at hv ⊢
      have hne : (s.workers v).claim ≠ s.claimNo + 1 := by
        have := hs.bounded v
        omega
      rw [h.madeBy, Function.update_of_ne hne]
      exact hs.maker v hv
  latest n v hn := by
    rw [h.madeBy] at hn
    by_cases hnew : n = s.claimNo + 1
    · rw [hnew, Function.update_self, Option.some.injEq] at hn
      rw [← hn, h.claim]
      omega
    · rw [Function.update_of_ne hnew] at hn
      have hle := hs.latest n v hn
      by_cases hv : v = w
      · have hbounded := hs.bounded v
        rw [hv] at hle hbounded
        rw [hv, h.claim]
        omega
      · rw [h.others v hv]
        exact hle
  copies v c hc := by
    by_cases hv : v = w
    · rw [hv] at hc ⊢
      rw [h.claim, h.takenBy]
      dsimp only
      rw [if_pos (h.copies c hc)]
      exact ⟨Nat.succ_ne_zero _, Nat.le_refl _⟩
    · rw [h.others v hv] at hc ⊢
      obtain ⟨hpos, hle⟩ := hs.copies v c hc
      refine ⟨hpos, ?_⟩
      rw [h.takenBy]
      dsimp only
      split
      · exact Nat.le_succ_of_le (hs.bounded v)
      · exact hle

theorem recorded_step (hs : Recorded s) (hstep : step s l = some t) :
    Recorded t := by
  obtain ⟨_, hsame⟩ | ⟨w, _, _, _, _, _, hnew⟩ := step_workers hstep
  · exact hs.same hsame
  · exact hs.newClaim hnew

/-- A row and the record of its claims: a claimed row names its worker and its lease and was
taken last by a claim of that worker, no other row names either, and each claim of it is either
among its attempts or refunded. -/
structure RowFenced (s : State) (r : Row) : Prop where
  claimed : r.status = .claimed → ∃ w, r.claimedBy = some w ∧
    s.madeBy (s.takenBy r.id) = some w ∧ r.leaseExpiresAt.isSome ∧ r.attempts ≠ 0
  unclaimed : r.status ≠ .claimed → r.claimedBy = none ∧ r.leaseExpiresAt = none
  counted : r.attempts + s.refunds r.id = s.claims r.id

structure Fenced (s : State) : Prop where
  recorded : Recorded s
  rows : ∀ r ∈ s.table.rows, RowFenced s r
  absent : ∀ id, id ∉ s.table.rows.map Row.id → s.claims id = 0 ∧ s.refunds id = 0

structure SameRecord (s t : State) (id : Uuid) : Prop where
  maker : t.madeBy (t.takenBy id) = s.madeBy (s.takenBy id)
  claims : t.claims id = s.claims id
  refunds : t.refunds id = s.refunds id

theorem RowFenced.kept (hr : RowFenced s r) (h : SameRecord s t r.id) :
    RowFenced t r where
  claimed := by
    rw [h.maker]
    exact hr.claimed
  unclaimed := hr.unclaimed
  counted := by
    rw [h.refunds, h.claims]
    exact hr.counted

theorem sameRecord (hs : Recorded s) (hstep : step s l = some t)
    (hfree : ∀ w n lease cap locked, l = .claimBatch w n lease cap locked →
      id ∉ claimedIds s n cap locked)
    (hrefunds : t.refunds id = s.refunds id) : SameRecord s t id := by
  obtain ⟨_, hsame⟩ | ⟨w, n, lease, cap, locked, hl, hnew⟩ := step_workers hstep
  · refine ⟨?_, ?_, hrefunds⟩
    · rw [hsame.madeBy, hsame.takenBy]
    · rw [hsame.claims]
  · have hout := hfree w n lease cap locked hl
    have hne : s.takenBy id ≠ s.claimNo + 1 := by
      have := hs.taken id
      omega
    refine ⟨?_, ?_, hrefunds⟩
    · rw [hnew.madeBy, hnew.takenBy]
      dsimp only
      rw [if_neg hout, Function.update_of_ne hne]
    · rw [hnew.claims]
      exact if_neg hout

theorem refunded_of_mem (hr : r ∈ s.table.rows)
    (hp : p r = true) : refunded s p r.id = s.refunds r.id + 1 := by
  have hany : (s.table.rows.any fun x => decide (x.id = r.id) && p x) = true := by
    apply List.any_eq_true.2
    refine ⟨r, hr, ?_⟩
    rw [Bool.and_eq_true, decide_eq_true_eq]
    exact ⟨rfl, hp⟩
  rw [refunded, if_pos hany]

theorem refunded_of_forall
    (h : ∀ r ∈ s.table.rows, r.id = id → p r ≠ true) : refunded s p id = s.refunds id := by
  have hany : ¬ (s.table.rows.any fun x => decide (x.id = id) && p x) = true := by
    intro hany
    obtain ⟨r, hr, hboth⟩ := List.any_eq_true.1 hany
    rw [Bool.and_eq_true, decide_eq_true_eq] at hboth
    exact h r hr hboth.1 hboth.2
  rw [refunded, if_neg hany]
  rfl

theorem refunded_of_not (hr : r ∈ s.table.rows)
    (hp : p r ≠ true) : refunded s p r.id = s.refunds r.id := by
  apply refunded_of_forall
  intro x hx hid
  rwa [s.table.eq_of_key_eq hx hr hid]

theorem RowFenced.release (hr : RowFenced s r)
    (hstatus : r.status = .claimed) (hstep : step s l = some t)
    (hfree : l.isClaim = false) (hrefunds : t.refunds r.id = s.refunds r.id + 1) : RowFenced t r.release where
  claimed h := by cases h
  unclaimed _ := ⟨rfl, rfl⟩
  counted := by
    have hclaims : t.claims r.id = s.claims r.id := by
      obtain ⟨_, hsame⟩ | ⟨w, n, lease, cap, locked, rfl, _⟩ := step_workers hstep
      · rw [hsame.claims]
      · cases hfree
    obtain ⟨w, _, _, _, hpos⟩ := hr.claimed hstatus
    have hcounted := hr.counted
    change r.attempts - 1 + t.refunds r.id = t.claims r.id
    omega

theorem RowFenced.decided {f : Row → Row} (hr : RowFenced s r)
    (hf : Decision f) (h : SameRecord s t r.id) : RowFenced t (f r) where
  claimed hclaimed := absurd hclaimed (hf.notClaimed r)
  unclaimed _ := ⟨hf.owner r, hf.lease r⟩
  counted := by
    rw [hf.attempts, hf.key, h.refunds, h.claims]
    exact hr.counted

theorem decision_reclaim : Decision Row.reclaim where
  key _ := rfl
  notClaimed _ := Status.noConfusion
  owner _ := rfl
  lease _ := rfl
  attempts _ := rfl

theorem RowFenced.extended {e : Time} (hr : RowFenced s r)
    (hheld : r.heldBy w = true) (h : SameRecord s t r.id) :
    RowFenced t { r with leaseExpiresAt := some e } where
  claimed hclaimed := by
    obtain ⟨v, hby, hmaker, _, hattempts⟩ := hr.claimed hclaimed
    exact ⟨v, hby, h.maker.trans hmaker, rfl, hattempts⟩
  unclaimed hopen := absurd (heldBy_status hheld) hopen
  counted := by
    rw [h.refunds, h.claims]
    exact hr.counted

theorem RowFenced.fresh {priority : ℤ} {next now : Time}
    (hclaims : t.claims id = 0) (hrefunds : t.refunds id = 0) :
    RowFenced t (freshRow id priority next now) where
  claimed h := by cases h
  unclaimed _ := ⟨rfl, rfl⟩
  counted := by
    change 0 + t.refunds id = t.claims id
    rw [hclaims, hrefunds]

theorem RowFenced.claim {lease : ℕ} {ids : List Uuid}
    (hr : RowFenced s r) (hnew : NewClaim s t w ids) (hid : r.id ∈ ids)
    (hrefunds : t.refunds = s.refunds) : RowFenced t (r.claim s.now w lease) where
  claimed _ := by
    refine ⟨w, rfl, ?_, rfl, Nat.succ_ne_zero _⟩
    rw [hnew.madeBy, hnew.takenBy]
    dsimp only [Row.claim]
    rw [if_pos hid, Function.update_self]
  unclaimed h := absurd rfl h
  counted := by
    have hcounted := hr.counted
    have hclaims : t.claims r.id = s.claims r.id + 1 := by
      rw [hnew.claims]
      exact if_pos hid
    change r.attempts + 1 + t.refunds r.id = t.claims r.id
    rw [hrefunds, hclaims]
    omega

theorem rows_fenced_of_update {f : Row → Row}
    (hf : ∀ r, (f r).id = r.id) (htable : t.table = s.table.update p f hf)
    (hhit : ∀ r ∈ s.table.rows, p r = true → RowFenced t (f r))
    (hmiss : ∀ r ∈ s.table.rows, p r ≠ true → RowFenced t r) :
    ∀ r ∈ t.table.rows, RowFenced t r := by
  intro r hr
  obtain ⟨x, hx, rfl⟩ := (KeyedTable.mem_of_eq_update hf htable).1 hr
  by_cases hp : p x = true
  · rw [if_pos hp]
    exact hhit x hx hp
  · rw [if_neg hp]
    exact hmiss x hx hp

theorem mem_ids {tab : Table} (hr : r ∈ tab.rows) : r.id ∈ tab.rows.map Row.id :=
  List.mem_map_of_mem hr

theorem claimedIds_subset {n : ℕ} {cap : Option ℕ} {locked : List Uuid}
    (h : id ∈ claimedIds s n cap locked) : id ∈ s.table.rows.map Row.id := by
  obtain ⟨r, hr, rfl⟩ := List.mem_map.1 h
  exact mem_ids (mem_candidate hr).1

theorem absent_of (hs : Fenced s) (hstep : step s l = some t)
    (hid : id ∉ s.table.rows.map Row.id) (hrefunds : t.refunds id = s.refunds id) :
    t.claims id = 0 ∧ t.refunds id = 0 := by
  obtain ⟨hclaims, hzero⟩ := hs.absent id hid
  have hsame : SameRecord s t id := sameRecord hs.recorded hstep
    (fun _ _ _ _ _ _ hmem => hid (claimedIds_subset hmem)) hrefunds
  exact ⟨hsame.claims.trans hclaims, hrefunds.trans hzero⟩

/-- After every step a claimed row is its last claimer's, and attempts and refunds add up to the
claims. -/
theorem fenced_step (hs : Fenced s) (hstep : step s l = some t) :
    Fenced t := by
  have hrecorded := recorded_step hs.recorded hstep
  -- the record of a row that a step neither takes nor refunds
  have hkept : l.isClaim = false → ∀ id, t.refunds id = s.refunds id → SameRecord s t id := by
    intro hl id hrefunds
    apply sameRecord hs.recorded hstep ?_ hrefunds
    rintro w n lease cap locked rfl
    cases hl
  -- the ids of a table that is an updated one
  have habsent : ∀ {p : Row → Bool} {f : Row → Row} (hf : ∀ r, (f r).id = r.id),
      t.table = s.table.update p f hf →
      (∀ id, id ∉ s.table.rows.map Row.id → t.refunds id = s.refunds id) →
      ∀ id, id ∉ t.table.rows.map Row.id → t.claims id = 0 ∧ t.refunds id = 0 := by
    intro p f hf htable hrefunds id hid
    have hold : id ∉ s.table.rows.map Row.id := by
      rwa [htable, KeyedTable.keys_update] at hid
    exact absent_of hs hstep hold (hrefunds id hold)
  -- a release refunds the rows it gives back and no other id
  have hgiven : ∀ {p : Row → Bool}, (∀ r, p r = true → r.status = .claimed) →
      l.isClaim = false →
      t.table = s.table.update p Row.release (fun _ => rfl) → t.refunds = refunded s p →
      Fenced t := by
    intro p hp hl htable hrefunds
    refine ⟨hrecorded, ?_, ?_⟩
    · apply rows_fenced_of_update _ htable
      · intro r hr hhit
        apply (hs.rows r hr).release (hp r hhit) hstep hl
        rw [hrefunds, refunded_of_mem hr hhit]
      · intro r hr hmiss
        apply (hs.rows r hr).kept
        apply hkept hl
        rw [hrefunds, refunded_of_not hr hmiss]
    · apply habsent _ htable
      intro id hid
      rw [hrefunds]
      apply refunded_of_forall
      rintro r hr rfl
      exact absurd (mem_ids hr) hid
  cases step_does hstep with
  | moved hl htable hrefunds =>
    refine ⟨hrecorded, fun r hr => ?_, fun id hid => ?_⟩
    · rw [htable] at hr
      exact (hs.rows r hr).kept (hkept hl _ (congrFun hrefunds _))
    · rw [htable] at hid
      exact absent_of hs hstep hid (congrFun hrefunds id)
  | enqueued id priority next hl hnew htable hrefunds =>
    refine ⟨hrecorded, fun r hr => ?_, fun other hid => ?_⟩
    · rw [htable] at hr
      obtain hold | rfl := (KeyedTable.mem_insert _).1 hr
      · exact (hs.rows r hold).kept (hkept hl _ (congrFun hrefunds _))
      · obtain ⟨hclaims, hzero⟩ := absent_of hs hstep hnew (congrFun hrefunds id)
        exact RowFenced.fresh hclaims hzero
    · have hold : other ∉ s.table.rows.map Row.id := by
        intro hmem
        obtain ⟨r, hr, rfl⟩ := List.mem_map.1 hmem
        apply hid
        rw [htable]
        exact mem_ids ((KeyedTable.mem_insert hnew).2 (Or.inl hr))
      exact absent_of hs hstep hold (congrFun hrefunds other)
  | claimed w n lease cap locked hl htable hrefunds =>
    obtain ⟨hfree, _⟩ | ⟨w', n', lease', cap', locked', hl', hrecord⟩ := step_workers hstep
    · rw [hl] at hfree
      cases hfree
    · rw [hl] at hl'
      cases hl'
      refine ⟨hrecorded, ?_, habsent _ htable fun id _ => congrFun hrefunds id⟩
      apply rows_fenced_of_update _ htable
      · intro r hr hhit
        exact (hs.rows r hr).claim hrecord (List.contains_iff_mem.1 hhit) hrefunds
      · intro r hr hmiss
        apply (hs.rows r hr).kept
        apply sameRecord hs.recorded hstep ?_ (congrFun hrefunds _)
        intro v m e c o hsame hmem
        rw [hl] at hsame
        cases hsame
        exact hmiss (List.contains_iff_mem.2 hmem)
  | extended w id lease hl htable hrefunds =>
    have hfree : l.isClaim = false := hl ▸ rfl
    refine ⟨hrecorded, ?_, habsent _ htable fun id _ => congrFun hrefunds id⟩
    apply rows_fenced_of_update _ htable
    · intro r hr hhit
      rw [Bool.and_eq_true] at hhit
      exact (hs.rows r hr).extended hhit.2 (hkept hfree _ (congrFun hrefunds _))
    · intro r hr _
      exact (hs.rows r hr).kept (hkept hfree _ (congrFun hrefunds _))
  | decided w c copy hl hcopy f hf htable hrefunds =>
    have hfree : l.isClaim = false := hl ▸ rfl
    refine ⟨hrecorded, ?_, habsent _ htable fun id _ => congrFun hrefunds id⟩
    apply rows_fenced_of_update _ htable
    · intro r hr _
      exact (hs.rows r hr).decided hf (hkept hfree _ (congrFun hrefunds _))
    · intro r hr _
      exact (hs.rows r hr).kept (hkept hfree _ (congrFun hrefunds _))
  | released w copy hl hcopy htable hrefunds =>
    have hfree : l.isClaim = false := by
      obtain rfl | ⟨c, rfl⟩ := hl <;> rfl
    apply hgiven ?_ hfree htable hrefunds
    intro r hhit
    rw [Bool.and_eq_true] at hhit
    exact heldBy_status hhit.2
  | releasedAll w hl htable hrefunds =>
    have hfree : l.isClaim = false := hl ▸ rfl
    exact hgiven (fun _ => heldBy_status) hfree htable hrefunds
  | reclaimed hl htable hrefunds =>
    have hfree : l.isClaim = false := hl ▸ rfl
    refine ⟨hrecorded, ?_, habsent _ htable fun id _ => congrFun hrefunds id⟩
    apply rows_fenced_of_update _ htable
    · intro r hr _
      exact (hs.rows r hr).decided decision_reclaim (hkept hfree _ (congrFun hrefunds _))
    · intro r hr _
      exact (hs.rows r hr).kept (hkept hfree _ (congrFun hrefunds _))

theorem fenced_start : Fenced start where
  recorded := recorded_start
  rows _ h := by cases h
  absent _ _ := ⟨rfl, rfl⟩

theorem fenced_of_reachable (hs : system.Reachable TransitionSystem.anyStep s) :
    Fenced s := by
  apply TransitionSystem.Reachable.invariant ?_ ?_ hs
  · rintro s rfl
    exact fenced_start
  · intro s l t hs _ hstep
    exact fenced_step hs hstep

/-! ## Who holds a row -/

/-- A worker holds a row: the row is claimed, and the worker has a copy of it from the claim that
took it last. -/
def Holds (s : State) (w : WorkerId) (r : Row) : Prop :=
  r.status = .claimed ∧ (∃ c ∈ (s.workers w).copies, c.id = r.id) ∧
    (s.workers w).claim = s.takenBy r.id

theorem Fenced.claimedBy_of_holds (hs : Fenced s)
    (hr : r ∈ s.table.rows) (h : Holds s w r) : r.claimedBy = some w := by
  obtain ⟨hstatus, ⟨c, hc, _⟩, hclaim⟩ := h
  obtain ⟨v, hby, hmaker, _, _⟩ := (hs.rows r hr).claimed hstatus
  have hworker := hs.recorded.maker w (hs.recorded.copies w c hc).1
  rw [hclaim, hmaker] at hworker
  exact hby.trans hworker

theorem Fenced.holds (hs : Fenced s) {c : Row}
    (hr : r ∈ s.table.rows) (hc : c ∈ (s.workers w).copies) (hid : r.id = c.id)
    (hheld : r.heldBy w = true) : Holds s w r := by
  have hstatus := heldBy_status hheld
  obtain ⟨v, hby, hmaker, _, _⟩ := (hs.rows r hr).claimed hstatus
  have hw : v = w := Option.some.inj (hby.symm.trans (heldBy_claimedBy hheld))
  rw [hw] at hmaker
  refine ⟨hstatus, ⟨c, hc, hid.symm⟩, ?_⟩
  apply Nat.le_antisymm
  · rw [hid]
    exact (hs.recorded.copies w c hc).2
  · exact hs.recorded.latest _ w hmaker

theorem matched_of_changed {t u : Table} {f : Row → Row}
    (hf : ∀ r, (f r).id = r.id) (h : u = t.update p f hf) (hr : r ∈ t.rows)
    (hchanged : r ∉ u.rows) : p r = true := by
  by_contra hp
  apply hchanged
  rw [KeyedTable.mem_of_eq_update hf h]
  exact ⟨r, hr, if_neg hp⟩

structure Leased (s : State) : Prop where
  one_holder : ∀ r ∈ s.table.rows, ∀ v w, Holds s v r → Holds s w r → v = w
  owner : ∀ r ∈ s.table.rows, r.status = .claimed ↔ r.claimedBy.isSome = true
  lease : ∀ r ∈ s.table.rows, r.status = .claimed ↔ r.leaseExpiresAt.isSome = true
  attempts : ∀ r ∈ s.table.rows, r.attempts + s.refunds r.id = s.claims r.id

theorem Fenced.leased (hs : Fenced s) : Leased s where
  one_holder r hr v w hv hw := by
    have hnamed := hs.claimedBy_of_holds hr hv
    rw [hs.claimedBy_of_holds hr hw] at hnamed
    exact (Option.some.inj hnamed).symm
  owner r hr := by
    constructor
    · intro hstatus
      obtain ⟨w, hby, _⟩ := (hs.rows r hr).claimed hstatus
      rw [hby]
      rfl
    · intro hby
      by_contra hstatus
      rw [((hs.rows r hr).unclaimed hstatus).1] at hby
      cases hby
  lease r hr := by
    constructor
    · intro hstatus
      obtain ⟨_, _, _, hlease, _⟩ := (hs.rows r hr).claimed hstatus
      exact hlease
    · intro hlease
      by_contra hstatus
      rw [((hs.rows r hr).unclaimed hstatus).2] at hlease
      cases hlease
  attempts r hr := (hs.rows r hr).counted

/-- What a completion, failure, retry or release of `w` may change: a row claimed by `w`, last
taken by a claim of `w`, and, but for the release of all its rows at once, by the claim of the
copy `w` acts on. -/
structure UnderClaim (s : State) (l : Label) (w : WorkerId) (r : Row) : Prop where
  status : r.status = .claimed
  owner : r.claimedBy = some w
  maker : s.madeBy (s.takenBy r.id) = some w
  holder : l ≠ .releaseAllClaims w → Holds s w r

/-- **Lease fencing.** -/
theorem changes_under_claim {s : State} (hs : system.Reachable TransitionSystem.anyStep s) :
    Leased s ∧ ∀ (l : Label) (t : State) (w : WorkerId), step s l = some t →
      l.decidedBy = some w →
      ∀ r ∈ s.table.rows, r ∉ t.table.rows → UnderClaim s l w r := by
  have hfenced := fenced_of_reachable hs
  refine ⟨hfenced.leased, fun l t w hstep hby r hr hchanged => ?_⟩
  -- a matched row is the worker's own
  have hunder : r.heldBy w = true → (l ≠ .releaseAllClaims w → Holds s w r) →
      UnderClaim s l w r := by
    intro hheld hholder
    obtain ⟨v, hv, hmaker, _, _⟩ := (hfenced.rows r hr).claimed (heldBy_status hheld)
    have hw : v = w := Option.some.inj (hv.symm.trans (heldBy_claimedBy hheld))
    exact ⟨heldBy_status hheld, heldBy_claimedBy hheld, hw ▸ hmaker, hholder⟩
  cases step_does hstep with
  | moved hl htable hrefunds =>
    rw [htable] at hchanged
    exact absurd hr hchanged
  | enqueued id priority next hl hnew htable hrefunds =>
    rw [htable] at hchanged
    exact absurd ((KeyedTable.mem_insert _).2 (Or.inl hr)) hchanged
  | claimed v n lease cap locked hl htable hrefunds =>
    rw [hl] at hby
    cases hby
  | extended v id lease hl htable hrefunds =>
    rw [hl] at hby
    cases hby
  | decided v c copy hl hcopy f hf htable hrefunds =>
    rw [hl] at hby
    cases hby
    have hmatch := matched_of_changed _ htable hr hchanged
    rw [Bool.and_eq_true, decide_eq_true_eq] at hmatch
    have hmem : copy ∈ (s.workers w).copies := by
      rw [Worker.copies, hcopy]
      exact List.mem_cons_self
    exact hunder hmatch.2 fun _ => hfenced.holds hr hmem hmatch.1 hmatch.2
  | released v copy hl hcopy htable hrefunds =>
    have hv : v = w := by
      obtain rfl | ⟨c, rfl⟩ := hl <;> exact Option.some.inj hby
    rw [hv] at hcopy htable
    have hmatch := matched_of_changed _ htable hr hchanged
    rw [Bool.and_eq_true, decide_eq_true_eq] at hmatch
    exact hunder hmatch.2 fun _ => hfenced.holds hr hcopy hmatch.1 hmatch.2
  | releasedAll v hl htable hrefunds =>
    rw [hl] at hby
    cases hby
    have hmatch := matched_of_changed _ htable hr hchanged
    exact hunder hmatch fun hne => absurd hl hne
  | reclaimed hl htable hrefunds =>
    rw [hl] at hby
    cases hby

/-- A worker keeps its copy past its lease, and another has the row. -/
theorem changes_under_claim_reclaimed :
    ∃ s, system.Reachable TransitionSystem.anyStep s ∧ Leased s ∧
      ((s.workers "a").current.map Row.id = some 1 ∧
        (s.table.find? 1).map Row.claimedBy = some (some "b") ∧ s.claims 1 = 2) ∧
      ∀ (l : Label) (t : State) (w : WorkerId), step s l = some t → l.decidedBy = some w →
        ∀ r ∈ s.table.rows, r ∉ t.table.rows → UnderClaim s l w r := by
  have hrun : (system.exec start
      [.enqueue 1 0 0, .claimBatch "a" 1 300 (some 5) [], .handle "a", .tick 400,
        .reclaimExpired, .claimBatch "b" 1 300 (some 5) [], .handle "b"]).any (fun s =>
      decide ((s.workers "a").current.map Row.id = some 1 ∧
        (s.table.find? 1).map Row.claimedBy = some (some "b") ∧ s.claims 1 = 2)) = true := by
    decide +kernel
  obtain ⟨s, hexec, hstate⟩ := (Option.any_eq_true _ _).1 hrun
  have hreach := TransitionSystem.reachable_of_exec_any _ rfl hexec
  obtain ⟨hleased, hchanges⟩ := changes_under_claim hreach
  exact ⟨s, hreach, hleased, of_decide_eq_true hstate, hchanges⟩

end MailVerdict.Analysis.ClaimFencing
