import MailVerdict.Model.ProviderFaults
import MailVerdict.Analysis.WorkQueueExhaustion

/-!
# What becomes of a row that met an outage

The release ends the claim, so the orders worker's `retry`, fenced on that claim,
finds nothing to postpone: the row is `pending` and due at once, its error not
recorded. `Missed` says what a row of the orders queue can look like after a fault:
due before the delay is over, or with more attempts spent than the refund leaves.
Every statement of any worker keeps it (`Move.missed`), so no fault of the orders
queue is ever answered as it should be.

The pipeline's second statement asks for `pending` and finds it, unless another
worker claims the row first. In runs in which nobody does, every fault delays its
row; the error is on the row only if it was there before, since neither statement
writes it.
-/

namespace MailVerdict.Analysis.OutageDelay

open MailVerdict.Computation Model.ProviderFaults
open Model.WorkQueue hiding State Label step start system
open Analysis.WorkQueueExhaustion (heldBy_status heldBy_claimedBy leaseExpired_status
  mem_candidate candidate_of_id)

variable {r' row r : Row} {w : WorkerId} {f : Fault}

/-! ## The property -/

/-- Nobody claims the row before the time the fault asked for. -/
def Waits (s : State) (f : Fault) : Prop :=
  ∀ c ∈ s.claims.drop f.since, c.itemId = f.itemId → f.notBefore ≤ c.time

/-- The row as the worker leaves it: pending, its attempt refunded, not due before the
time asked for, the error recorded. -/
def Answered (e : Fault × Option Row) : Prop :=
  ∃ r, e.2 = some r ∧ r.status = .pending ∧ r.attempts + 1 = e.1.attempts ∧
    e.1.notBefore ≤ r.nextAttemptAt ∧ r.lastError = some e.1.error

/-! ## What one step does to one row -/

/-- The ways a step rewrites a row it finds in the table. -/
inductive Move (q : FaultQueue) (cfg : Settings) (s : State) (l : Label) (t : State) (r r' : Row) :
    Prop
  | untouched (h : r' = r)
  | claimed (w : WorkerId) (lease : ℕ) (locked : List Uuid) (hl : l = .claimBatch w lease locked)
      (hcand : r ∈ candidate s.table s.now (some cfg.maxAttempts) 1 locked)
      (hst : r.status = .pending) (hdue : r.nextAttemptAt ≤ s.now) (h : r' = r.claim s.now w lease)
  | beaten (expiry : Option Time) (h : r' = { r with leaseExpiresAt := expiry })
  | decided (w : WorkerId) (hheld : r.heldBy w = true) (hhand : t.hand w = .idle)
      (hst : r'.status ≠ .claimed) (hat : r'.attempts = r.attempts)
  | released (w : WorkerId) (hheld : r.heldBy w = true)
      (hhand : ∀ row, t.hand w ≠ .working row) (h : r' = r.release)
  | reclaimed (hst : r.status = .claimed) (h : r' = r.reclaim)
  | pushed (hq : q = .pipeline) (w : WorkerId) (f : Fault) (hl : l = .postpone w)
      (hhand : s.hand w = .answering f) (hid : r.id = f.itemId) (hst : r.status = .pending)
      (h : r' = { r with nextAttemptAt := s.now + f.delay })
  | restarted (hq : q = .pipeline) (hst : r.status = .failed) (h : r' = r.restart s.now)

inductive TableStep (q : FaultQueue) (cfg : Settings) (s : State) (l : Label) (t : State) : Prop
  | inserted (r : Row) (hid : r.id = s.nextId) (hst : r.status = .pending)
      (hnext : t.nextId = s.nextId + 1)
      (h : ∀ r', r' ∈ t.table.rows ↔ r' ∈ s.table.rows ∨ r' = r)
  | erased (id : Uuid) (hl : l = .remove id) (hnext : t.nextId = s.nextId)
      (h : ∀ r', r' ∈ t.table.rows ↔ r' ∈ s.table.rows ∧ r'.id ≠ id)
  | rewritten (g : Row → Row) (hnext : t.nextId = s.nextId)
      (h : ∀ r', r' ∈ t.table.rows ↔ ∃ r ∈ s.table.rows, g r = r')
      (hg : ∀ r ∈ s.table.rows, (g r).id = r.id ∧ Move q cfg s l t r (g r))

section Steps

variable {q : FaultQueue} {cfg : Settings} {s t : State} {l : Label}

theorem mem_of_update {u v : Table} {p : Row → Bool} {f : Row → Row} (hf : ∀ r, (f r).id = r.id)
    (h : v = u.update p f hf) :
    r' ∈ v.rows ↔ ∃ r ∈ u.rows, (if p r then f r else r) = r' := by
  rw [h, KeyedTable.mem_update]

theorem TableStep.same (htable : t.table = s.table) (hnext : t.nextId = s.nextId) :
    TableStep q cfg s l t :=
  .rewritten id hnext (fun r' => by simp [htable]) fun _ _ => ⟨rfl, .untouched rfl⟩

theorem TableStep.update {p : Row → Bool} {f : Row → Row} (hf : ∀ r, (f r).id = r.id)
    (htable : t.table = s.table.update p f hf) (hnext : t.nextId = s.nextId)
    (hmoves : ∀ r ∈ s.table.rows, p r = true → Move q cfg s l t r (f r)) : TableStep q cfg s l t := by
  refine .rewritten (fun r => if p r then f r else r) hnext
    (fun _ => mem_of_update hf htable) fun r hr => ?_
  by_cases hp : p r = true
  · simp only [hp, if_true]
    exact ⟨hf r, hmoves r hr hp⟩
  · simp only [hp, Bool.false_eq_true, if_false]
    exact ⟨trivial, .untouched rfl⟩

theorem claimOne_cases (cfg : Settings) (s : State) (w : WorkerId) (lease : ℕ) (locked : List Uuid) :
    (candidate s.table s.now (some cfg.maxAttempts) 1 locked = [] ∧
      (s.claimOne cfg w lease locked).hand = Function.update s.hand w .idle ∧
      (s.claimOne cfg w lease locked).claims = s.claims) ∨
    ∃ c, candidate s.table s.now (some cfg.maxAttempts) 1 locked = [c] ∧
      (s.claimOne cfg w lease locked).hand =
        Function.update s.hand w (.working (c.claim s.now w lease)) ∧
      (s.claimOne cfg w lease locked).claims = s.claims ++ [⟨s.now, c.id⟩] := by
  have hlen : (candidate s.table s.now (some cfg.maxAttempts) 1 locked).length ≤ 1 := by
    simp only [candidate, List.length_take]
    omega
  cases hc : candidate s.table s.now (some cfg.maxAttempts) 1 locked with
  | nil => exact .inl ⟨rfl, by simp [State.claimOne, claimBatch, hc]⟩
  | cons c rest =>
    rw [hc] at hlen
    obtain rfl : rest = [] := List.length_eq_zero_iff.1 (by simpa using hlen)
    exact .inr ⟨c, rfl, by simp [State.claimOne, claimBatch, hc], by
      simp [State.claimOne, claimBatch, hc, Row.claim]⟩

/-- **What a step does to the table.** -/
theorem step_table (h : step q cfg s l = some t) : TableStep q cfg s l t := by
  have hdecide : ∀ {w : WorkerId} {id : Uuid} {r : Row},
      (decide (r.id = id) && r.heldBy w) = true → r.heldBy w = true := by
    intro w id r hp
    rw [Bool.and_eq_true] at hp
    exact hp.2
  cases l with
  | tick elapsed | crash w =>
    cases h
    exact .same rfl rfl
  | enqueue priority next =>
    simp only [step] at h
    split at h
    · rename_i hfresh
      cases h
      exact .inserted (freshRow s.nextId priority next s.now) rfl rfl rfl fun r' =>
        KeyedTable.mem_insert hfresh
    · cases h
  | remove id =>
    cases h
    exact .erased id rfl rfl fun r' => KeyedTable.mem_erase
  | claimBatch w lease locked =>
    simp only [step] at h
    split at h
    · cases h
      refine .update (by exact fun _ => rfl) rfl rfl fun r hr hp => ?_
      have hcand := candidate_of_id hr hp
      obtain ⟨-, hclaim⟩ := mem_candidate hcand
      simp only [claimable, Bool.and_eq_true, decide_eq_true_eq] at hclaim
      exact .claimed w lease locked rfl hcand hclaim.1.1 hclaim.1.2 rfl
    · cases h
  | heartbeat w ids lease =>
    cases h
    exact .update (by exact fun _ => rfl) rfl rfl fun r _ _ => .beaten _ rfl
  | complete w status =>
    simp only [step] at h
    split at h
    · split at h
      · rename_i hcond
        cases h
        refine .update (by exact fun _ => rfl) rfl rfl fun r _ hp =>
          .decided w (hdecide hp) (by simp) ?_ rfl
        intro hst
        have hterm := hcond.1
        simp only at hst
        rw [hst] at hterm
        cases hterm
      · cases h
    · cases h
  | fail w err =>
    simp only [step] at h
    split at h
    · cases h
      exact .update (by exact fun _ => rfl) rfl rfl fun r _ hp =>
        .decided w (hdecide hp) (by simp) (by simp) rfl
    · cases h
  | retryOrFail w next err =>
    simp only [step] at h
    split at h
    · cases h
      simp only [State.retryOrFail]
      split
      · exact .update (by exact fun _ => rfl) rfl rfl fun r _ hp =>
          .decided w (hdecide hp) (by simp) (by simp) rfl
      · exact .update (by exact fun _ => rfl) rfl rfl fun r _ hp =>
          .decided w (hdecide hp) (by simp) (by simp) rfl
    · cases h
  | fault w fault | releaseUntouched w =>
    simp only [step] at h
    split at h
    · cases h
      exact .update (by exact fun _ => rfl) rfl rfl fun r _ hp =>
        .released w (hdecide hp) (by simp) rfl
    · cases h
  | postpone w =>
    simp only [step] at h
    split at h
    · rename_i f hf
      cases h
      cases q with
      | orders =>
        exact .update (by exact fun _ => rfl) rfl rfl fun r _ hp =>
          .decided w (hdecide hp) (by simp) (by simp) rfl
      | pipeline =>
        refine .update (by exact fun _ => rfl) rfl rfl fun r _ hp => ?_
        rw [Bool.and_eq_true, decide_eq_true_eq, decide_eq_true_eq] at hp
        exact .pushed rfl w f rfl hf hp.1 hp.2 rfl
    · cases h
  | releaseAllClaims w =>
    cases h
    exact .update (by exact fun _ => rfl) rfl rfl fun r _ hp =>
      .released w hp (by simp) rfl
  | reclaimExpired =>
    cases h
    exact .update (by exact fun _ => rfl) rfl rfl fun r _ hp =>
      .reclaimed (leaseExpired_status hp) rfl
  | retryRun id =>
    simp only [step] at h
    split at h
    · rename_i hq
      cases h
      refine .update (by exact fun _ => rfl) rfl rfl fun r _ hp => ?_
      rw [Bool.and_eq_true, decide_eq_true_eq, decide_eq_true_eq] at hp
      exact .restarted hq hp.2 rfl
    · cases h

theorem TableStep.rows {J : Row → Prop} (h : TableStep q cfg s l t)
    (hnew : ∀ r, r.id = s.nextId → r.status = .pending → J r)
    (hmove : ∀ r ∈ s.table.rows, ∀ r', r'.id = r.id → Move q cfg s l t r r' → J r') :
    ∀ r ∈ t.table.rows, J r := by
  intro r' hr'
  cases h with
  | inserted r hid hst hnext h =>
    rcases (h r').1 hr' with hold | rfl
    · exact hmove r' hold r' rfl (.untouched rfl)
    · exact hnew _ hid hst
  | erased id hl hnext h => exact hmove r' ((h r').1 hr').1 r' rfl (.untouched rfl)
  | rewritten g hnext h hg =>
    obtain ⟨r, hr, rfl⟩ := (h r').1 hr'
    exact hmove r hr (g r) (hg r hr).1 (hg r hr).2

theorem TableStep.nextId_le (h : TableStep q cfg s l t) : s.nextId ≤ t.nextId := by
  cases h with
  | inserted r hid hst hnext h => exact hnext ▸ Nat.le_succ _
  | erased id hl hnext h => exact hnext.ge
  | rewritten g hnext h hg => exact hnext.ge

theorem now_le (h : step q cfg s l = some t) : s.now ≤ t.now := by
  cases l <;> simp only [step] at h <;> (try split at h) <;> (try split at h) <;> cases h <;>
    first | exact Nat.le_refl _ | exact Nat.le_add_right _ _

/-- **What a step does to the workers and the history**: a claim, a fault, an answer, or nothing
but that workers let go of their rows. -/
inductive HandStep (q : FaultQueue) (cfg : Settings) (s : State) (l : Label) (t : State) : Prop
  | claimed (w : WorkerId) (lease : ℕ) (locked : List Uuid) (hl : l = .claimBatch w lease locked)
      (hidle : s.hand w = .idle) (ht : t = s.claimOne cfg w lease locked)
  | faulted (w : WorkerId) (fault : StageFault) (row : Row) (hl : l = .fault w fault)
      (hrow : s.hand w = .working row) (ht : t = s.release w (s.faultOf q cfg w row fault))
  | answered (w : WorkerId) (f : Fault) (hl : l = .postpone w) (hf : s.hand w = .answering f)
      (ht : t = s.answer q w f)
  | other (hhand : ∀ w, t.hand w = s.hand w ∨ t.hand w = .idle ∧
        ((∃ row, s.hand w = .working row) ∨ l = .crash w ∨ l = .releaseAllClaims w))
      (hhistory : t.claims = s.claims ∧ t.met = s.met ∧ t.ended = s.ended)

theorem hand_let_go {v : WorkerId} (w : WorkerId) (h : (∃ row, s.hand v = .working row) ∨
    l = .crash v ∨ l = .releaseAllClaims v) :
    Function.update s.hand v .idle w = s.hand w ∨ Function.update s.hand v .idle w = .idle ∧
      ((∃ row, s.hand w = .working row) ∨ l = .crash w ∨ l = .releaseAllClaims w) := by
  by_cases hw : w = v
  · rw [hw, Function.update_self]
    exact .inr ⟨rfl, h⟩
  · exact .inl (Function.update_of_ne hw _ _)

/-- What a step does to the hand of the worker. -/
theorem step_hand (h : step q cfg s l = some t) : HandStep q cfg s l t := by
  cases l with
  | claimBatch w lease locked =>
    simp only [step] at h
    split at h
    · rename_i hidle
      cases h
      exact .claimed w lease locked rfl hidle rfl
    · cases h
  | fault w fault =>
    simp only [step] at h
    split at h
    · rename_i row hrow
      cases h
      exact .faulted w fault row rfl hrow rfl
    · cases h
  | postpone w =>
    simp only [step] at h
    split at h
    · rename_i f hf
      cases h
      exact .answered w f rfl hf rfl
    · cases h
  | tick elapsed | remove id | reclaimExpired | heartbeat w ids lease =>
    cases h
    exact .other (fun _ => .inl rfl) ⟨rfl, rfl, rfl⟩
  | crash w | releaseAllClaims w =>
    cases h
    exact .other (fun v => hand_let_go v (by simp)) ⟨rfl, rfl, rfl⟩
  | enqueue priority next | retryRun id =>
    simp only [step] at h
    split at h
    · cases h
      exact .other (fun _ => .inl rfl) ⟨rfl, rfl, rfl⟩
    · cases h
  | fail w err | retryOrFail w next err | releaseUntouched w =>
    simp only [step] at h
    split at h
    · rename_i row hrow
      cases h
      exact .other (fun v => hand_let_go v (.inl ⟨row, hrow⟩)) ⟨rfl, rfl, rfl⟩
    · cases h
  | complete w status =>
    simp only [step] at h
    split at h
    · rename_i row hrow
      split at h
      · cases h
        exact .other (fun v => hand_let_go v (.inl ⟨row, hrow⟩)) ⟨rfl, rfl, rfl⟩
      · cases h
    · cases h

theorem hand_of_update {v : WorkerId} {x y : Hand} (hne : x ≠ y)
    (h : Function.update s.hand v x w = y) : s.hand w = y := by
  by_cases hw : w = v
  · rw [hw, Function.update_self] at h
    exact absurd h hne
  · rwa [Function.update_of_ne hw] at h

theorem step_working (h : step q cfg s l = some t) (hw : t.hand w = .working row) :
    s.hand w = .working row ∨ ∃ lease locked c, l = .claimBatch w lease locked ∧
      c ∈ candidate s.table s.now (some cfg.maxAttempts) 1 locked ∧
      row = c.claim s.now w lease ∧ t = s.claimOne cfg w lease locked := by
  cases step_hand h with
  | claimed v lease locked hl _ ht =>
    rw [ht] at hw
    rcases claimOne_cases cfg s v lease locked with ⟨-, hhand, -⟩ | ⟨c, hc, hhand, -⟩
    · rw [hhand] at hw
      exact .inl (hand_of_update Hand.noConfusion hw)
    · rw [hhand] at hw
      by_cases hv : w = v
      · subst hv
        rw [Function.update_self, Hand.working.injEq] at hw
        exact .inr ⟨lease, locked, c, hl, by simp [hc], hw.symm, ht⟩
      · rw [Function.update_of_ne hv] at hw
        exact .inl hw
  | faulted v fault row' hl hrow ht =>
    rw [ht, State.release_hand] at hw
    exact .inl (hand_of_update Hand.noConfusion hw)
  | answered v f hl hf ht =>
    rw [ht, State.answer_hand] at hw
    exact .inl (hand_of_update Hand.noConfusion hw)
  | other hhand =>
    rcases hhand w with hsame | ⟨hidle, -⟩
    · exact .inl (hsame.symm.trans hw)
    · cases hidle.symm.trans hw

theorem step_answering (h : step q cfg s l = some t) (hw : t.hand w = .answering f) :
    s.hand w = .answering f ∨ ∃ fault row, l = .fault w fault ∧ s.hand w = .working row ∧
      f = s.faultOf q cfg w row fault ∧ t = s.release w f := by
  cases step_hand h with
  | claimed v lease locked hl _ ht =>
    rw [ht] at hw
    rcases claimOne_cases cfg s v lease locked with ⟨-, hhand, -⟩ | ⟨c, -, hhand, -⟩
    · exact .inl (hand_of_update Hand.noConfusion (hhand ▸ hw))
    · exact .inl (hand_of_update Hand.noConfusion (hhand ▸ hw))
  | faulted v fault row hl hrow ht =>
    rw [ht, State.release_hand] at hw
    by_cases hv : w = v
    · subst hv
      rw [Function.update_self, Hand.answering.injEq] at hw
      subst hw
      exact .inr ⟨fault, row, hl, hrow, rfl, ht⟩
    · rw [Function.update_of_ne hv] at hw
      exact .inl hw
  | answered v f' hl hf ht =>
    rw [ht, State.answer_hand] at hw
    exact .inl (hand_of_update Hand.noConfusion hw)
  | other hhand =>
    rcases hhand w with hsame | ⟨hidle, -⟩
    · exact .inl (hsame.symm.trans hw)
    · cases hidle.symm.trans hw

/-- **What a step adds to the history**: nothing, a claim, a fault or an answer. -/
theorem step_history (h : step q cfg s l = some t) :
    (t.claims = s.claims ∧ t.met = s.met ∧ t.ended = s.ended) ∨
    (∃ w lease locked, l = .claimBatch w lease locked ∧ ∃ c, c ∈ candidate s.table s.now
      (some cfg.maxAttempts) 1 locked ∧ t.claims = s.claims ++ [⟨s.now, c.id⟩] ∧ t.met = s.met ∧
      t.ended = s.ended) ∨
    (∃ w fault row, l = .fault w fault ∧ s.hand w = .working row ∧
      t = s.release w (s.faultOf q cfg w row fault)) ∨
    ∃ w f, l = .postpone w ∧ s.hand w = .answering f ∧ t = s.answer q w f := by
  cases step_hand h with
  | claimed w lease locked hl _ ht =>
    subst ht
    rcases claimOne_cases cfg s w lease locked with ⟨-, -, hlog⟩ | ⟨c, hc, -, hlog⟩
    · exact .inl ⟨hlog, rfl, rfl⟩
    · exact .inr (.inl ⟨w, lease, locked, hl, c, by simp [hc], hlog, rfl, rfl⟩)
  | faulted w fault row hl hrow ht => exact .inr (.inr (.inl ⟨w, fault, row, hl, hrow, ht⟩))
  | answered w f hl hf ht => exact .inr (.inr (.inr ⟨w, f, hl, hf, ht⟩))
  | other _ hhistory => exact .inl hhistory

end Steps

/-! ## What every run of either queue keeps -/

/-- Ids are given out once; a claimed row has spent an attempt and was due; the copy
a worker works on agrees with the row it still holds. -/
structure Sound (s : State) : Prop where
  fresh : ∀ r ∈ s.table.rows, r.id < s.nextId
  freshWorking : ∀ w row, s.hand w = .working row → row.id < s.nextId
  freshAnswering : ∀ w f, s.hand w = .answering f → f.itemId < s.nextId
  freshMet : ∀ f ∈ s.met, f.itemId < s.nextId
  claimed : ∀ r ∈ s.table.rows, r.status = .claimed → 0 < r.attempts ∧ r.nextAttemptAt ≤ s.now
  working : ∀ w row, s.hand w = .working row → ∀ r ∈ s.table.rows, r.id = row.id →
    r.heldBy w = true → r.attempts = row.attempts

theorem sound_start : Sound start where
  fresh := by simp [start, KeyedTable.empty]
  freshWorking := by simp [start]
  freshAnswering := by simp [start]
  freshMet := by simp [start]
  claimed := by simp [start, KeyedTable.empty]
  working := by simp [start]

section Sound

variable {q : FaultQueue} {cfg : Settings} {s t : State} {l : Label}

theorem mem_claimOne {lease : ℕ} {locked : List Uuid} :
    r' ∈ (s.claimOne cfg w lease locked).table.rows ↔ ∃ r ∈ s.table.rows,
      (if ((candidate s.table s.now (some cfg.maxAttempts) 1 locked).map Row.id).contains r.id
        then r.claim s.now w lease else r) = r' :=
  mem_of_update (by exact fun _ => rfl) rfl

theorem mem_release :
    r' ∈ (s.release w f).table.rows ↔ ∃ r ∈ s.table.rows,
      (if decide (r.id = f.itemId) && r.heldBy w then r.release else r) = r' :=
  mem_of_update (by exact fun _ => rfl) rfl

theorem claimOne_row {lease : ℕ} {locked : List Uuid} {c : Row}
    (hc : c ∈ candidate s.table s.now (some cfg.maxAttempts) 1 locked)
    (hr : r ∈ (s.claimOne cfg w lease locked).table.rows) (hid : r.id = c.id) :
    r = c.claim s.now w lease := by
  obtain ⟨r₀, hr₀, rfl⟩ := mem_claimOne.1 hr
  have hid₀ : r₀.id = c.id := by
    rw [← hid]
    split <;> rfl
  obtain rfl : r₀ = c := s.table.eq_of_key_eq hr₀ (mem_candidate hc).1 hid₀
  rw [if_pos (List.contains_iff_mem.2 (List.mem_map_of_mem hc))]

theorem heldBy_claim {c : Row} {now : Time} {lease : ℕ} :
    (c.claim now w lease).heldBy w = true := by simp [Row.claim, Row.heldBy]

theorem Move.heldBy (hm : Move q cfg s l t r r')
    (hs : s.hand w = .working row) (ht : t.hand w = .working row) (hstep : step q cfg s l = some t)
    (hh : r'.heldBy w = true) : r.heldBy w = true ∧ r'.attempts = r.attempts := by
  have hst' := heldBy_status hh
  have hby' := heldBy_claimedBy hh
  cases hm with
  | untouched h => exact h ▸ ⟨hh, rfl⟩
  | claimed w' lease locked hl hcand hst hdue h =>
    subst h
    obtain rfl : w' = w := by simpa [Row.claim] using hby'
    subst hl
    simp [step, hs] at hstep
  | beaten expiry h =>
    subst h
    exact ⟨hh, rfl⟩
  | decided w' hheld hhand hst hat => exact absurd hst' hst
  | released w' hheld hhand h => simp [h, Row.release] at hst'
  | reclaimed hst h => simp [h, Row.reclaim] at hst'
  | pushed hq w' f hl hhand hid hst h =>
    subst h
    rw [hst] at hst'
    cases hst'
  | restarted hq hst h => simp [h, Row.restart] at hst'

/-- **The step lemma of soundness.** -/
theorem sound_step (hs : Sound s) (h : step q cfg s l = some t) : Sound t := by
  have hrows := step_table h
  have hnow := now_le h
  have hnext := hrows.nextId_le
  refine ⟨?_, ?_, ?_, ?_, ?_, ?_⟩
  · cases hrows with
    | inserted r hid hst hnext h =>
      intro r' hr'
      rcases (h r').1 hr' with hold | rfl
      · exact hnext ▸ Nat.lt_succ_of_lt (hs.fresh r' hold)
      · exact hnext ▸ hid ▸ Nat.lt_succ_self _
    | erased id hl hnext h => exact fun r' hr' => hnext ▸ hs.fresh r' ((h r').1 hr').1
    | rewritten g hnext h hg =>
      intro r' hr'
      obtain ⟨r, hr, rfl⟩ := (h r').1 hr'
      rw [(hg r hr).1, hnext]
      exact hs.fresh r hr
  · intro w row hw
    rcases step_working h hw with hold | ⟨lease, locked, c, -, hc, rfl, -⟩
    · exact lt_of_lt_of_le (hs.freshWorking w row hold) hnext
    · exact lt_of_lt_of_le (hs.fresh c (mem_candidate hc).1) hnext
  · intro w f hw
    rcases step_answering h hw with hold | ⟨fault, row, -, hrow, rfl, -⟩
    · exact lt_of_lt_of_le (hs.freshAnswering w f hold) hnext
    · exact lt_of_lt_of_le (hs.freshWorking w row hrow) hnext
  · intro f hf
    rcases step_history h with ⟨-, hmet, -⟩ | ⟨_, _, _, _, _, _, _, hmet, _⟩ | ⟨w, fault, row, -, hrow, rfl⟩ |
      ⟨w, f', -, -, rfl⟩
    · exact lt_of_lt_of_le (hs.freshMet f (hmet ▸ hf)) hnext
    · exact lt_of_lt_of_le (hs.freshMet f (hmet ▸ hf)) hnext
    · rcases List.mem_append.1 hf with hold | hnew
      · exact lt_of_lt_of_le (hs.freshMet f hold) hnext
      · obtain rfl := List.mem_singleton.1 hnew
        exact lt_of_lt_of_le (hs.freshWorking w row hrow) hnext
    · exact lt_of_lt_of_le (hs.freshMet f hf) hnext
  · refine hrows.rows (fun r _ hst hcl => by simp [hst] at hcl) fun r hr r' _ hm hcl => ?_
    have hold := hs.claimed r hr
    cases hm with
    | untouched h => exact ⟨h ▸ (hold (h ▸ hcl)).1, h ▸ (hold (h ▸ hcl)).2.trans hnow⟩
    | claimed w lease locked hl hcand hst hdue h =>
      subst h
      exact ⟨Nat.succ_pos _, hdue.trans hnow⟩
    | beaten expiry h =>
      subst h
      exact ⟨(hold hcl).1, (hold hcl).2.trans hnow⟩
    | decided w hheld hhand hst hat => exact absurd hcl hst
    | released w hheld hhand h => simp [h, Row.release] at hcl
    | reclaimed hst h => simp [h, Row.reclaim] at hcl
    | pushed hq w f hl hhand hid hst h =>
      subst h
      rw [hst] at hcl
      cases hcl
    | restarted hq hst h => simp [h, Row.restart] at hcl
  · intro w row hw
    rcases step_working h hw with hold | ⟨lease, locked, c, -, hc, rfl, rfl⟩
    · refine hrows.rows (fun r hid _ hid' => ?_) fun r hr r' hid' hm hid hheld => ?_
      · exact absurd (hid.symm.trans hid') (Nat.ne_of_gt (hs.freshWorking w row hold))
      · obtain ⟨hheld', hat⟩ := hm.heldBy hold hw h hheld
        rw [hat]
        exact hs.working w row hold r hr (hid'.symm.trans hid) hheld'
    · intro r hr hid _
      rw [claimOne_row hc hr hid]

theorem reachable_sound {P : State → Label → Prop} (h : (system q cfg).Reachable P s) : Sound s :=
  h.invariant (fun s' (hs : s' = start) => hs ▸ sound_start) fun _ _ _ hs _ hst =>
    sound_step hs hst

end Sound

/-! ## The orders queue -/

def taken (r : Row) : ℕ := if r.status = .claimed then 1 else 0

/-- At least `a` attempts are spent, not counting the one the row is on. -/
def Spent (a : ℕ) (r : Row) : Prop := a + taken r ≤ r.attempts

/-- What a fault leaves: the refund was lost again, or the row is due before the time
asked for. -/
def Missed (f : Fault) (r : Row) : Prop :=
  Spent f.attempts r ∨
    (r.attempts + 1 = f.attempts + taken r ∧ r.nextAttemptAt < f.notBefore)

section Orders

variable {cfg : Settings} {s t : State} {l : Label}

theorem taken_claimed (h : r.status = .claimed) : taken r = 1 := by simp [taken, h]

theorem taken_other (h : r.status ≠ .claimed) : taken r = 0 := by simp [taken, h]

theorem Move.spent {a : ℕ} (hm : Move .orders cfg s l t r r') (h : Spent a r) :
    Spent a r' := by
  unfold Spent at h ⊢
  cases hm with
  | untouched h' => exact h' ▸ h
  | claimed w lease locked hl hcand hst hdue h' =>
    rw [taken_other (by simp [hst])] at h
    subst h'
    rw [taken_claimed rfl]
    simp only [Row.claim]
    omega
  | beaten expiry h' =>
    subst h'
    exact h
  | decided w hheld hhand hst hat =>
    rw [taken_claimed (heldBy_status hheld)] at h
    rw [taken_other hst, hat]
    omega
  | released w hheld hhand h' =>
    rw [taken_claimed (heldBy_status hheld)] at h
    subst h'
    rw [taken_other (by simp [Row.release])]
    simp only [Row.release, Row.unclaim]
    omega
  | reclaimed hst h' =>
    rw [taken_claimed hst] at h
    subst h'
    rw [taken_other (by simp [Row.reclaim])]
    simp only [Row.reclaim, Row.unclaim]
    omega
  | pushed hq w f hl hhand hid hst h' => cases hq
  | restarted hq hst h' => cases hq

theorem Move.missed (hm : Move .orders cfg s l t r r')
    (hpos : r.status = .claimed → 0 < r.attempts) (h : Missed f r) : Missed f r' := by
  rcases h with hspent | ⟨hat, hdue'⟩
  · exact .inl (hm.spent hspent)
  unfold Missed Spent
  cases hm with
  | untouched h' | beaten expiry h' =>
    subst h'
    exact .inr ⟨hat, hdue'⟩
  | claimed w lease locked hl hcand hst hdue h' =>
    rw [taken_other (by simp [hst])] at hat
    subst h'
    rw [taken_claimed rfl]
    exact .inr ⟨by simp only [Row.claim]; omega, hdue'⟩
  | decided w hheld hhand hst hat' =>
    rw [taken_claimed (heldBy_status hheld)] at hat
    rw [taken_other hst, hat']
    exact .inl (by omega)
  | released w hheld hhand h' =>
    have hst := heldBy_status hheld
    have hone := hpos hst
    rw [taken_claimed hst] at hat
    subst h'
    rw [taken_other (by simp [Row.release])]
    exact .inr ⟨by simp only [Row.release, Row.unclaim]; omega, hdue'⟩
  | reclaimed hst h' =>
    rw [taken_claimed hst] at hat
    subst h'
    rw [taken_other (by simp [Row.reclaim])]
    exact .inl (by simp only [Row.reclaim, Row.unclaim]; omega)
  | pushed hq w f hl hhand hid hst h' => cases hq
  | restarted hq hst h' => cases hq

theorem Missed.not_answered {o : Option Row} (h : ∀ r, o = some r → Missed f r) :
    ¬ Answered (f, o) := by
  rintro ⟨r, ho, hst, hat, hdue, -⟩
  have hzero : taken r = 0 := taken_other (by simp [hst])
  rcases h r ho with hspent | ⟨-, hlt⟩
  · unfold Spent at hspent
    simp only at hat
    omega
  · exact absurd hlt (Nat.not_lt_of_le hdue)

theorem delayOf_orders_pos (cfg : Settings) (fault : StageFault) : 0 < delayOf .orders cfg fault := by
  have hdefault : 0 < defaultUnavailableDelay := by decide
  rcases fault with m | ⟨m, _ | d⟩
  · exact hdefault
  · exact hdefault
  · simp only [delayOf]
    split
    · exact hdefault
    · exact Nat.pos_of_ne_zero ‹_›

/-- A worker's copy against the row: the claim stands, or the attempt it spent stays
spent. A fault once met is missed, and ended it was never answered. -/
structure Unanswered (s : State) : Prop where
  working : ∀ w row, s.hand w = .working row → ∀ r ∈ s.table.rows, r.id = row.id →
    r.heldBy w = true ∨ Spent row.attempts r
  answering : ∀ w f, s.hand w = .answering f → ∀ r ∈ s.table.rows, r.id = f.itemId → Missed f r
  ended : ∀ e ∈ s.ended, ¬ Answered e

theorem unanswered_start : Unanswered start where
  working := by simp [start]
  answering := by simp [start]
  ended := by simp [start]

theorem missed_step (hs : Sound s) (hf : f.itemId < s.nextId) (h : step .orders cfg s l = some t)
    (hold : ∀ r ∈ s.table.rows, r.id = f.itemId → Missed f r) :
    ∀ r ∈ t.table.rows, r.id = f.itemId → Missed f r := by
  refine (step_table h).rows (fun r hid _ hid' => ?_) fun r hr r' hid hm hid' => ?_
  · exact absurd (hid.symm.trans hid') (Nat.ne_of_gt hf)
  · exact hm.missed (fun hst => (hs.claimed r hr hst).1) (hold r hr (hid.symm.trans hid'))

theorem missed_release (hs : Sound s) (hu : Unanswered s)
    {fault : StageFault} (hw : s.hand w = .working row) :
    ∀ r ∈ (s.release w (s.faultOf .orders cfg w row fault)).table.rows, r.id = row.id →
      Missed (s.faultOf .orders cfg w row fault) r := by
  intro r' hr' hid
  obtain ⟨r, hr, rfl⟩ := mem_release.1 hr'
  by_cases hheld : r.heldBy w = true
  · have hid' : r.id = row.id := by
      rw [← hid]
      split <;> rfl
    have hst := heldBy_status hheld
    obtain ⟨hpos, hdue⟩ := hs.claimed r hr hst
    have hat := hs.working w row hw r hr hid' hheld
    rw [if_pos (by simp [State.faultOf, hid', hheld])]
    refine .inr ⟨?_, ?_⟩
    · rw [taken_other (by simp [Row.release])]
      simp only [Row.release, Row.unclaim, State.faultOf]
      omega
    · exact Nat.lt_of_le_of_lt hdue (Nat.lt_add_of_pos_right (delayOf_orders_pos cfg fault))
  · rw [if_neg (by simp [hheld])] at hid ⊢
    rcases hu.working w row hw r hr hid with hheld' | hspent
    · exact absurd hheld' hheld
    · exact .inl hspent

/-- **The step lemma of the orders queue.** -/
theorem unanswered_step (hs : Sound s) (hu : Unanswered s) (h : step .orders cfg s l = some t) :
    Unanswered t := by
  have hrows := step_table h
  refine ⟨?_, ?_, ?_⟩
  · intro w row hw
    rcases step_working h hw with hold | ⟨lease, locked, c, -, hc, rfl, rfl⟩
    · refine hrows.rows (fun r hid _ hid' => ?_) fun r hr r' hid' hm hid => ?_
      · exact absurd (hid.symm.trans hid') (Nat.ne_of_gt (hs.freshWorking w row hold))
      · have hidr := hid'.symm.trans hid
        rcases hu.working w row hold r hr hidr with hheld | hspent
        · have hat := hs.working w row hold r hr hidr hheld
          have hst := heldBy_status hheld
          cases hm with
          | untouched h' => exact .inl (h' ▸ hheld)
          | claimed w' lease locked hl hcand hpend hdue h' =>
            rw [hpend] at hst
            cases hst
          | beaten expiry h' =>
            subst h'
            exact .inl hheld
          | decided w' hheld' hhand hst' hat' =>
            obtain rfl : w' = w := Option.some.inj
              ((heldBy_claimedBy hheld').symm.trans (heldBy_claimedBy hheld))
            rw [hhand] at hw
            cases hw
          | released w' hheld' hhand h' =>
            obtain rfl : w' = w := Option.some.inj
              ((heldBy_claimedBy hheld').symm.trans (heldBy_claimedBy hheld))
            exact absurd hw (hhand row)
          | reclaimed hst' h' =>
            subst h'
            refine .inr ?_
            unfold Spent
            rw [taken_other (by simp [Row.reclaim])]
            simp only [Row.reclaim, Row.unclaim]
            omega
          | pushed hq w' f hl hhand hid'' hst' h' => cases hq
          | restarted hq hst' h' => cases hq
        · exact .inr (hm.spent hspent)
    · intro r hr hid
      rw [claimOne_row hc hr hid]
      exact .inl heldBy_claim
  · intro w f hw
    rcases step_answering h hw with hold | ⟨fault, row, -, hrow, rfl, rfl⟩
    · exact missed_step hs (hs.freshAnswering w f hold) h (hu.answering w f hold)
    · exact missed_release hs hu hrow
  · intro e he
    rcases step_history h with ⟨-, -, hend⟩ | ⟨_, _, _, _, _, _, _, _, hend⟩ | ⟨_, _, _, -, -, rfl⟩ |
      ⟨w, f, hl, hw, rfl⟩
    · exact hu.ended e (hend ▸ he)
    · exact hu.ended e (hend ▸ he)
    · exact hu.ended e he
    · rcases List.mem_append.1 he with hold | hnew
      · exact hu.ended e hold
      · obtain rfl := List.mem_singleton.1 hnew
        refine Missed.not_answered fun r hr => ?_
        obtain ⟨hmem, hid⟩ := KeyedTable.find?_eq_some_iff.1 hr
        exact missed_step hs (hs.freshAnswering w f hw) h (hu.answering w f hw) r hmem hid

theorem reachable_unanswered {P : State → Label → Prop}
    (h : (system .orders cfg).Reachable P s) : Unanswered s :=
  h.invariant_of (fun _ hs => reachable_sound hs)
    (fun s' (hs : s' = start) => hs ▸ unanswered_start)
    fun _ _ _ hs hu _ hst => unanswered_step hs hu hst

end Orders

/-! ## The pipeline queue -/

/-- The condition on one step: a fault is met while the claim still stands, and until
the worker has made its second statement nobody claims the row, it is not deleted and
the worker neither crashes nor is shut down. -/
def Undisturbed (cfg : Settings) (s : State) : Label → Prop
  | .fault w _ => ∀ row, s.hand w = .working row →
      ∃ r ∈ s.table.rows, r.id = row.id ∧ r.heldBy w = true
  | .claimBatch _ _ locked => ∀ r ∈ candidate s.table s.now (some cfg.maxAttempts) 1 locked,
      ∀ w f, s.hand w = .answering f → f.itemId ≠ r.id
  | .crash w => ∀ f, s.hand w ≠ .answering f
  | .releaseAllClaims w => ∀ f, s.hand w ≠ .answering f
  | .remove id => ∀ w f, s.hand w = .answering f → f.itemId ≠ id
  | _ => True

/-- A row put off: pending, its attempt refunded, not due before the time asked for, and
its error as it was. -/
def PutOff (e : Fault × Option Row) : Prop :=
  ∃ r, e.2 = some r ∧ r.status = .pending ∧ r.attempts + 1 = e.1.attempts ∧
    e.1.notBefore ≤ r.nextAttemptAt ∧ r.lastError = e.1.lastError

/-- The row of a fault while its delay runs: pending, and not due or about to be put
off. -/
def Resting (s : State) (f : Fault) (r : Row) : Prop :=
  r.status = .pending ∧
    (f.notBefore ≤ r.nextAttemptAt ∨ ∃ w f', s.hand w = .answering f' ∧ f'.itemId = f.itemId)

structure Calm (s : State) : Prop where
  answering : ∀ w f, s.hand w = .answering f → f.metAt ≤ s.now ∧
    ∃ r ∈ s.table.rows, r.id = f.itemId ∧ r.status = .pending ∧ r.attempts + 1 = f.attempts ∧
      r.lastError = f.lastError
  older : ∀ w f, s.hand w = .answering f → ∀ f' ∈ s.met, f'.itemId = f.itemId →
    s.now < f'.notBefore → f'.notBefore ≤ f.notBefore
  resting : ∀ f ∈ s.met, s.now < f.notBefore → ∀ r ∈ s.table.rows, r.id = f.itemId → Resting s f r
  waits : ∀ f ∈ s.met, f.since ≤ s.claims.length ∧ Waits s f
  ended : ∀ e ∈ s.ended, PutOff e

theorem calm_start : Calm start where
  answering := by simp [start]
  older := by simp [start]
  resting := by simp [start]
  waits := by simp [start]
  ended := by simp [start]

section Pipeline

variable {cfg : Settings} {s t : State} {l : Label}

theorem candidate_due {cap : Option ℕ} {n : ℕ} {locked : List Uuid}
    (h : r ∈ candidate s.table s.now cap n locked) : r.nextAttemptAt ≤ s.now := by
  obtain ⟨-, hclaim⟩ := mem_candidate h
  simp only [claimable, Bool.and_eq_true, decide_eq_true_eq] at hclaim
  exact hclaim.1.2

theorem Move.pending (hm : Move .pipeline cfg s l t r r') (hst : r.status = .pending)
    (hno : ∀ w lease locked, l = .claimBatch w lease locked →
      r ∉ candidate s.table s.now (some cfg.maxAttempts) 1 locked) :
    r'.status = .pending ∧ r'.attempts = r.attempts ∧ r'.lastError = r.lastError ∧
      (r'.nextAttemptAt = r.nextAttemptAt ∨ ∃ w f, l = .postpone w ∧ s.hand w = .answering f ∧
        r.id = f.itemId) := by
  have hfree : ∀ {w}, r.heldBy w ≠ true := by
    intro w hheld
    rw [heldBy_status hheld] at hst
    cases hst
  cases hm with
  | untouched h | beaten expiry h =>
    subst h
    exact ⟨hst, rfl, rfl, .inl rfl⟩
  | claimed w lease locked hl hcand hst' hdue h => exact absurd hcand (hno w lease locked hl)
  | decided w hheld hhand hst' hat | released w hheld hhand h => exact absurd hheld hfree
  | reclaimed hst' h | restarted hq hst' h =>
    rw [hst'] at hst
    cases hst
  | pushed hq w f hl hhand hid hst' h =>
    subst h
    exact ⟨hst, rfl, rfl, .inr ⟨w, f, hl, hhand, hid⟩⟩

theorem answering_step (hp : Undisturbed cfg s l) (h : step .pipeline cfg s l = some t)
    (hw : s.hand w = .answering f) : t.hand w = .answering f ∨ l = .postpone w := by
  have hother : ∀ {v : WorkerId} {x : Hand}, s.hand v ≠ .answering f →
      Function.update s.hand v x w = .answering f := by
    rintro v x hne
    rw [Function.update_of_ne (by rintro rfl; exact hne hw), hw]
  cases step_hand h with
  | claimed v lease locked hl hidle ht =>
    left
    rcases claimOne_cases cfg s v lease locked with ⟨-, hhand, -⟩ | ⟨c, -, hhand, -⟩
    · rw [ht, hhand]
      exact hother (by rw [hidle]; exact Hand.noConfusion)
    · rw [ht, hhand]
      exact hother (by rw [hidle]; exact Hand.noConfusion)
  | faulted v fault row hl hrow ht =>
    rw [ht, State.release_hand]
    exact .inl (hother (by rw [hrow]; exact Hand.noConfusion))
  | answered v f' hl hf ht =>
    by_cases hv : w = v
    · exact .inr (by rw [hl, hv])
    · rw [ht, State.answer_hand, Function.update_of_ne hv]
      exact .inl hw
  | other hhand =>
    rcases hhand w with hsame | ⟨-, ⟨row, hrow⟩ | rfl | rfl⟩
    · exact .inl (hsame.trans hw)
    · cases hrow.symm.trans hw
    · exact absurd hw (hp f)
    · exact absurd hw (hp f)

theorem mem_released {fault : StageFault} (hr : r ∈ s.table.rows)
    (hid : r.id = row.id) (hheld : r.heldBy w = true) :
    r.release ∈ (s.release w (s.faultOf .pipeline cfg w row fault)).table.rows := by
  refine mem_release.2 ⟨r, hr, ?_⟩
  rw [if_pos (by simp [State.faultOf, hid, hheld])]

theorem mem_answer :
    r' ∈ (s.answer .pipeline w f).table.rows ↔ ∃ r ∈ s.table.rows,
      (if decide (r.id = f.itemId) && decide (r.status = .pending)
        then { r with nextAttemptAt := s.now + f.delay } else r) = r' :=
  mem_of_update (by exact fun _ => rfl) rfl

theorem Calm.over (hc : Calm s) (hf : f ∈ s.met)
    (hr : r ∈ s.table.rows) (hid : r.id = f.itemId) (hheld : r.heldBy w = true) :
    f.notBefore ≤ s.now := by
  by_contra hlt
  have hrest := (hc.resting f hf (Nat.lt_of_not_le hlt) r hr hid).1
  rw [heldBy_status hheld] at hrest
  cases hrest

/-- **The step lemma of undisturbed pipeline runs.** -/
theorem calm_step (hs : Sound s) (hc : Calm s) (hp : Undisturbed cfg s l)
    (h : step .pipeline cfg s l = some t) : Calm t := by
  have hrows := step_table h
  have hnow := now_le h
  have hfree : ∀ w f, s.hand w = .answering f → ∀ r : Row, r.id = f.itemId →
      ∀ w' lease locked, l = .claimBatch w' lease locked →
        r ∉ candidate s.table s.now (some cfg.maxAttempts) 1 locked := by
    rintro w f hw r hid w' lease locked rfl hcand
    exact hp r hcand w f hw hid.symm
  have hmet : ∀ f ∈ t.met, f ∈ s.met ∨ ∃ w fault row, l = .fault w fault ∧
      s.hand w = .working row ∧ f = s.faultOf .pipeline cfg w row fault ∧ t = s.release w f := by
    intro f hf
    rcases step_history h with ⟨-, hm, -⟩ | ⟨_, _, _, _, _, _, _, hm, _⟩ |
      ⟨w, fault, row, hl, hrow, rfl⟩ | ⟨_, _, -, -, rfl⟩
    · exact .inl (hm ▸ hf)
    · exact .inl (hm ▸ hf)
    · rcases List.mem_append.1 hf with hold | hnew
      · exact .inl hold
      · obtain rfl := List.mem_singleton.1 hnew
        exact .inr ⟨w, fault, row, hl, hrow, rfl, rfl⟩
    · exact .inl hf
  refine ⟨?_, ?_, ?_, ?_, ?_⟩
  · intro w f hw
    rcases step_answering h hw with hold | ⟨fault, row, rfl, hrow, rfl, rfl⟩
    · obtain ⟨hmetAt, r, hr, hid, hst, hat, herr⟩ := hc.answering w f hold
      refine ⟨hmetAt.trans hnow, ?_⟩
      cases hrows with
      | inserted r₀ hid₀ hst₀ hnext hmem => exact ⟨r, (hmem r).2 (.inl hr), hid, hst, hat, herr⟩
      | erased id hl hnext hmem =>
        subst hl
        exact ⟨r, (hmem r).2 ⟨hr, fun hne => hp w f hold (hid.symm.trans hne)⟩, hid, hst, hat, herr⟩
      | rewritten g hnext hmem hg =>
        obtain ⟨hid', hm⟩ := hg r hr
        obtain ⟨hst', hat', herr', -⟩ := hm.pending hst (hfree w f hold r hid)
        exact ⟨g r, (hmem _).2 ⟨r, hr, rfl⟩, hid'.trans hid, hst', hat' ▸ hat, herr'.trans herr⟩
    · obtain ⟨r, hr, hid, hheld⟩ := hp row hrow
      refine ⟨Nat.le_refl _, r.release, mem_released hr hid hheld, hid, rfl, ?_, ?_⟩
      · have hpos := (hs.claimed r hr (heldBy_status hheld)).1
        have hat := hs.working w row hrow r hr hid hheld
        simp only [Row.release, Row.unclaim, State.faultOf]
        omega
      · have hfind : s.table.find? row.id = some r := KeyedTable.find?_eq_some_iff.2 ⟨hr, hid⟩
        simp [State.faultOf, hfind, Row.release, Row.unclaim]
  · intro w f hw f' hf' hid hlt
    rcases hmet f' hf' with hold' | ⟨w', fault', row', rfl, hrow', rfl, rfl⟩
    · rcases step_answering h hw with hold | ⟨fault, row, rfl, hrow, rfl, rfl⟩
      · exact hc.older w f hold f' hold' hid (Nat.lt_of_le_of_lt hnow hlt)
      · obtain ⟨r, hr, hidr, hheld⟩ := hp row hrow
        have hover := hc.over hold' hr (hidr.trans hid.symm) hheld
        exact absurd hlt (Nat.not_lt_of_le hover)
    · by_cases hww : w = w'
      · subst hww
        rw [State.release_hand, Function.update_self, Hand.answering.injEq] at hw
        exact (congrArg Fault.notBefore hw).le
      · rw [State.release_hand, Function.update_of_ne hww] at hw
        obtain ⟨r, hr, hidr, hheld⟩ := hp row' hrow'
        obtain ⟨-, r₀, hr₀, hid₀, hst₀, -⟩ := hc.answering w f hw
        obtain rfl := s.table.eq_of_key_eq hr hr₀ ((hidr.trans hid).trans hid₀.symm)
        rw [heldBy_status hheld] at hst₀
        cases hst₀
  · intro f hf hlt
    rcases hmet f hf with hold | ⟨w, fault, row, rfl, hrow, rfl, rfl⟩
    · have hlt' := Nat.lt_of_le_of_lt hnow hlt
      by_cases hans : ∃ w f', l = .postpone w ∧ s.hand w = .answering f' ∧ f'.itemId = f.itemId
      · obtain ⟨w, f', rfl, hw, hitem⟩ := hans
        simp only [step, hw, Option.some.injEq] at h
        subst h
        intro r' hr' hid
        obtain ⟨r, hr, rfl⟩ := mem_answer.1 hr'
        have hidr : r.id = f.itemId := by
          rw [← hid]
          split <;> rfl
        have hst := (hc.resting f hold hlt' r hr hidr).1
        rw [if_pos (by simp [hst, hidr, hitem])]
        have hle := hc.older w f' hw f hold hitem.symm hlt'
        have hmetAt := (hc.answering w f' hw).1
        exact ⟨hst, .inl (hle.trans (Nat.add_le_add_right hmetAt _))⟩
      · refine hrows.rows (fun r hid _ hid' => ?_) fun r hr r' hid' hm hid => ?_
        · exact absurd (hid.symm.trans hid') (Nat.ne_of_gt (hs.freshMet f hold))
        · have hidr := hid'.symm.trans hid
          obtain ⟨hst, hrest⟩ := hc.resting f hold hlt' r hr hidr
          have hno : ∀ w lease locked, l = .claimBatch w lease locked →
              r ∉ candidate s.table s.now (some cfg.maxAttempts) 1 locked := by
            intro w lease locked hl hcand
            rcases hrest with hdue | ⟨w', f', hw', hf'⟩
            · exact absurd (hdue.trans (candidate_due hcand)) (Nat.not_le_of_lt hlt')
            · exact hfree w' f' hw' r (hidr.trans hf'.symm) w lease locked hl hcand
          obtain ⟨hst', -, -, hnext⟩ := hm.pending hst hno
          refine ⟨hst', ?_⟩
          rcases hnext with hsame | ⟨w, f', hl, hw, hidf⟩
          · rcases hrest with hdue | ⟨w', f', hw', hf'⟩
            · exact .inl (hsame ▸ hdue)
            · rcases answering_step hp h hw' with hstill | hl
              · exact .inr ⟨w', f', hstill, hf'⟩
              · exact absurd ⟨w', f', hl, hw', hf'⟩ hans
          · exact absurd ⟨w, f', hl, hw, hidf.symm.trans hidr⟩ hans
    · intro r' hr' hid
      obtain ⟨r, hr, hidr, hheld⟩ := hp row hrow
      obtain rfl := (s.release w (s.faultOf .pipeline cfg w row fault)).table.eq_of_key_eq hr'
        (mem_released hr hidr hheld) (hid.trans hidr.symm)
      exact ⟨rfl, .inr ⟨w, _, by simp, rfl⟩⟩
  · intro f hf
    rcases hmet f hf with hold | ⟨w, fault, row, rfl, hrow, rfl, rfl⟩
    · obtain ⟨hsince, hwaits⟩ := hc.waits f hold
      rcases step_history h with ⟨hlog, -, -⟩ | ⟨w, lease, locked, rfl, c, hcand, hlog, -, -⟩ |
        ⟨_, _, _, -, -, rfl⟩ | ⟨_, _, -, -, rfl⟩
      · exact ⟨hlog ▸ hsince, by rwa [Waits, hlog]⟩
      · refine ⟨by rw [hlog, List.length_append]; omega, ?_⟩
        rw [Waits, hlog, List.drop_append_of_le_length hsince]
        intro x hx hitem
        rcases List.mem_append.1 hx with hx | hx
        · exact hwaits x hx hitem
        · obtain rfl := List.mem_singleton.1 hx
          by_contra hlt
          have hcmem := (mem_candidate hcand).1
          rcases (hc.resting f hold (Nat.lt_of_not_le hlt) c hcmem hitem).2 with
            hdue | ⟨w', f', hw', hf'⟩
          · exact hlt (hdue.trans (candidate_due hcand))
          · exact hp c hcand w' f' hw' (hf'.trans hitem.symm)
      · exact ⟨hsince, hwaits⟩
      · exact ⟨hsince, hwaits⟩
    · refine ⟨Nat.le_refl _, ?_⟩
      simp [Waits, State.faultOf, State.release]
  · intro e he
    rcases step_history h with ⟨-, -, hend⟩ | ⟨_, _, _, _, _, _, _, _, hend⟩ | ⟨_, _, _, -, -, rfl⟩ |
      ⟨w, f, -, hw, rfl⟩
    · exact hc.ended e (hend ▸ he)
    · exact hc.ended e (hend ▸ he)
    · exact hc.ended e he
    · rcases List.mem_append.1 he with hold | hnew
      · exact hc.ended e hold
      · obtain rfl := List.mem_singleton.1 hnew
        obtain ⟨hmetAt, r, hr, hid, hst, hat, herr⟩ := hc.answering w f hw
        refine ⟨{ r with nextAttemptAt := s.now + f.delay }, ?_, hst, hat, ?_, herr⟩
        · have hmem : { r with nextAttemptAt := s.now + f.delay } ∈
              (s.answer .pipeline w f).table.rows :=
            mem_answer.2 ⟨r, hr, if_pos (by simp [hid, hst])⟩
          exact KeyedTable.find?_eq_some_iff.2 ⟨hmem, hid⟩
        · exact Nat.add_le_add_right hmetAt _

theorem reachable_calm (h : (system .pipeline cfg).Reachable (Undisturbed cfg) s) : Calm s :=
  h.invariant_of (fun _ hs => reachable_sound hs)
    (fun s' (hs : s' = start) => hs ▸ calm_start)
    fun _ _ _ hs hc hp hst => calm_step hs hc hp hst

end Pipeline

/-! ## Both queues -/

/-- **A fault of the orders queue is never answered as it should be. One of the pipeline is,
where nothing befalls the row between the two statements: it is pending, its attempt refunded and
unclaimed until the time asked for; the error is recorded just when the row had it before.** -/
theorem provider_fault_answered (cfg : Settings) (s : State) :
    ((system .orders cfg).Reachable TransitionSystem.anyStep s → ∀ e ∈ s.ended, ¬ Answered e) ∧
    ((system .pipeline cfg).Reachable (Undisturbed cfg) s →
      (∀ f ∈ s.met, Waits s f) ∧
        ∀ e ∈ s.ended, PutOff e ∧ (Answered e ↔ e.1.lastError = some e.1.error)) := by
  constructor
  · intro h
    exact (reachable_unanswered h).ended
  · intro h
    have hcalm := reachable_calm h
    refine ⟨fun f hf => (hcalm.waits f hf).2, fun e he => ⟨hcalm.ended e he, ?_, ?_⟩⟩
    · rintro ⟨r, hrow, -, -, -, herr⟩
      obtain ⟨r', hrow', -, -, -, herr'⟩ := hcalm.ended e he
      obtain rfl : r = r' := Option.some.inj (hrow.symm.trans hrow')
      exact herr'.symm.trans herr
    · intro herr
      obtain ⟨r, hrow, hst, hat, hdue, herr'⟩ := hcalm.ended e he
      exact ⟨r, hrow, hst, hat, hdue, herr'.trans herr⟩

theorem undisturbed_without_fault {cfg : Settings} {s t : State} {l : Label}
    (hno : ∀ w f, s.hand w ≠ .answering f) (hl : ∀ w fault, l ≠ .fault w fault)
    (h : step .pipeline cfg s l = some t) :
    Undisturbed cfg s l ∧ ∀ w f, t.hand w ≠ .answering f := by
  constructor
  · cases l with
    | fault w fault => exact absurd rfl (hl w fault)
    | claimBatch w lease locked => exact fun r _ w' f hw => absurd hw (hno w' f)
    | remove id => exact fun w f hw => absurd hw (hno w f)
    | crash w => exact hno w
    | releaseAllClaims w => exact hno w
    | tick _ | enqueue _ _ | heartbeat _ _ _ | complete _ _ | fail _ _ | retryOrFail _ _ _
    | postpone _ | releaseUntouched _ | reclaimExpired | retryRun _ => trivial
  · intro w f hw
    rcases step_answering h hw with hold | ⟨fault, row, hl', -⟩
    · exact hno w f hold
    · exact hl w fault hl'

theorem reachable_without_fault {cfg : Settings} {s t : State} {ls : List Label}
    (hs : (system .pipeline cfg).Reachable (Undisturbed cfg) s)
    (hno : ∀ w f, s.hand w ≠ .answering f) (hl : ∀ l ∈ ls, ∀ w fault, l ≠ .fault w fault)
    (h : (system .pipeline cfg).exec s ls = some t) :
    (system .pipeline cfg).Reachable (Undisturbed cfg) t := by
  induction ls generalizing s with
  | nil =>
    simp only [TransitionSystem.exec, Option.some.injEq] at h
    exact h ▸ hs
  | cons l ls ih =>
    simp only [TransitionSystem.exec, Option.bind_eq_some_iff] at h
    obtain ⟨m, hstep, hrest⟩ := h
    obtain ⟨hp, hno'⟩ := undisturbed_without_fault hno (hl l List.mem_cons_self) hstep
    exact ih (.step hs hp hstep) hno' (fun l' hl' => hl l' (List.mem_cons_of_mem l hl')) hrest

/-- A pipeline run fails with `"down"`, is retried, meets the outage as `"down"` again and
is put off by a minute; an order's job that meets the same outage is not. -/
theorem outage_met_in_both_queues :
    (∃ s, (system .pipeline ⟨5, 60⟩).Reachable (Undisturbed ⟨5, 60⟩) s ∧
      ∃ e ∈ s.ended, Answered e) ∧
    ∃ s, (system .orders ⟨5, 60⟩).Reachable TransitionSystem.anyStep s ∧
      ∃ e ∈ s.ended, ¬ Answered e := by
  constructor
  · obtain ⟨s, row, hrun, hw, hrow, hend⟩ : ∃ s row, (system .pipeline ⟨5, 60⟩).exec start
        [.enqueue 0 0, .claimBatch "w" 120 [], .retryOrFail "w" 2 "down", .tick 2,
          .claimBatch "w" 120 []] = some s ∧ s.hand "w" = .working row ∧
        (row ∈ s.table.rows ∧ row.heldBy "w" = true) ∧
        row.lastError = some "down" :=
      ⟨_, _, rfl, rfl, by decide, rfl⟩
    have hs := reachable_without_fault (.init rfl) (by simp [start]) (by simp) hrun
    have hstands : Undisturbed ⟨5, 60⟩ s (.fault "w" (.unavailable "down")) := by
      intro row' hrow'
      rw [hw, Hand.working.injEq] at hrow'
      exact hrow' ▸ ⟨row, hrow.1, rfl, hrow.2⟩
    generalize hf : s.faultOf .pipeline ⟨5, 60⟩ "w" row (.unavailable "down") = f
    have hfault : step .pipeline ⟨5, 60⟩ s (.fault "w" (.unavailable "down")) =
        some (s.release "w" f) := by
      simp only [step, hw, hf]
    have hanswer : step .pipeline ⟨5, 60⟩ (s.release "w" f) (.postpone "w") =
        some ((s.release "w" f).answer .pipeline "w" f) := by
      simp [step]
    have hquiet : Undisturbed ⟨5, 60⟩ (s.release "w" f) (.postpone "w") := trivial
    have hend' := (hs.step hstands hfault).step hquiet hanswer
    have hmem : (f, ((s.release "w" f).answer .pipeline "w" f).table.find? f.itemId) ∈
        ((s.release "w" f).answer .pipeline "w" f).ended :=
      List.mem_append_right _ (List.mem_singleton_self _)
    refine ⟨_, hend', _, hmem, ?_⟩
    refine ((((provider_fault_answered ⟨5, 60⟩ _).2 hend').2 _ hmem).2).2 ?_
    have hfind : s.table.find? row.id = some row := KeyedTable.find?_eq_some_iff.2 ⟨hrow.1, rfl⟩
    simp [← hf, State.faultOf, hfind, hend, StageFault.message]
  · obtain ⟨s, e, hrun, he⟩ : ∃ s e, (system .orders ⟨5, 60⟩).exec start
        [.enqueue 0 0, .claimBatch "a" 300 [], .fault "a" (.unavailable "down"),
          .postpone "a"] = some s ∧ e ∈ s.ended :=
      ⟨_, _, rfl, List.mem_singleton_self _⟩
    have hs := TransitionSystem.reachable_of_exec_any _ rfl hrun
    exact ⟨s, hs, e, he, (provider_fault_answered ⟨5, 60⟩ s).1 hs e he⟩

/-- An order's job meets an outage, is due at once and is claimed again the same second
by another worker; neither the delay nor the error is on the row. -/
theorem outage_spins_orders :
    ¬ ∀ (q : FaultQueue) (cfg : Settings) (s : State),
      (system q cfg).Reachable TransitionSystem.anyStep s →
        (∀ f ∈ s.met, Waits s f) ∧ ∀ e ∈ s.ended, Answered e := by
  intro h
  obtain ⟨s, f, c, hrun, hf, hc, hitem, htime⟩ : ∃ s f c, (system .orders ⟨5, 60⟩).exec start
      [.enqueue 0 0, .claimBatch "a" 300 [], .fault "a" (.unavailable "suspended"), .postpone "a",
        .claimBatch "b" 300 []] = some s ∧ f ∈ s.met ∧ c ∈ s.claims.drop f.since ∧
      c.itemId = f.itemId ∧ c.time < f.notBefore :=
    ⟨_, _, _, rfl, List.mem_singleton_self _, List.mem_singleton_self _, by decide, by decide⟩
  have hs := TransitionSystem.reachable_of_exec_any _ rfl hrun
  exact absurd ((h _ _ s hs).1 f hf c hc hitem) (Nat.not_le_of_lt htime)

end MailVerdict.Analysis.OutageDelay
