import MailVerdict.Model.WorkQueue

/-!
# Rows at the attempt cap

`claim_batch` spends an attempt and never takes a row at the cap, so a row that
is `pending` at the cap waits for nobody. Three of the four ways back to
`pending` stay below it: a release refunds the attempt, a retry is decided on a
copy below the cap, a restart clears the count. `reclaim_expired` does not look
at `attempts`: the lease of a worker that died on the last attempt returns the row
to `pending` with every attempt spent. The webhook queue sweeps such rows; the
pipeline and embedding queues have no statement that touches them again.

`step_table` says once what a step does to each row (`Moves`); the invariant, the
fate of an exhausted row and the exactness of the condition are read off it.
-/

namespace MailVerdict.Analysis.WorkQueueExhaustion

open MailVerdict.Computation Model.WorkQueue

variable {w : WorkerId} {r r' : Row} {now : Time} {s t : State} {q : Queue} {l : Label}

/-! ## What one step does to one row -/

/-- The ways a step rewrites a row it finds in the table. -/
inductive Moves (q : Queue) (s : State) (l : Label) (r r' : Row) : Prop
  | untouched (h : r' = r)
  | claimed (w : WorkerId) (n lease : ℕ) (locked : List Uuid)
      (hl : l = .claimBatch w n lease locked)
      (h : claimable s.now (some q.maxAttempts) r = true) (hr : r' = r.claim s.now w lease)
  | adjusted (hst : r'.status = r.status) (hby : r'.claimedBy = r.claimedBy)
      (hat : r'.attempts = r.attempts)
  | finished (h : r'.status.terminal = true) (hold : r.status = .claimed ∨ q.name = .webhooks)
  | retried (w : WorkerId) (copy : Row) (hcopy : copy ∈ s.held w) (hid : copy.id = r.id)
      (hheld : r.heldBy w = true) (hcap : copy.attempts < q.maxAttempts)
      (hst : r'.status = .pending) (hat : r'.attempts = r.attempts)
  | released (hold : r.status = .claimed) (hst : r'.status = .pending)
      (hat : r'.attempts = r.attempts - 1)
  | reclaimed (hl : l = .reclaimExpired) (hexp : r.leaseExpired s.now = true)
      (hst : r'.status = .pending) (hat : r'.attempts = r.attempts)
  | restarted (id : Uuid) (hl : l = .retryRun id) (hid : r.id = id) (hold : r.status = .failed)
      (hst : r'.status = .pending) (hat : r'.attempts = 0)

theorem heldBy_status (h : r.heldBy w = true) : r.status = .claimed := by
  simp only [Row.heldBy, Bool.and_eq_true, decide_eq_true_eq] at h
  exact h.1

theorem heldBy_claimedBy (h : r.heldBy w = true) :
    r.claimedBy = some w := by
  simp only [Row.heldBy, Bool.and_eq_true, decide_eq_true_eq] at h
  exact h.2

theorem leaseExpired_status (h : r.leaseExpired now = true) :
    r.status = .claimed := by
  simp only [Row.leaseExpired, Bool.and_eq_true, decide_eq_true_eq] at h
  exact h.1

theorem mem_candidate {t : Table} {cap : Option ℕ} {n : ℕ} {locked : List Uuid} (h : r ∈ candidate t now cap n locked) :
    r ∈ t.rows ∧ claimable now cap r = true := by
  have hmem := List.mem_of_mem_take h
  rw [List.mem_insertionSort, List.mem_filter, Bool.and_eq_true] at hmem
  exact ⟨hmem.1, hmem.2.1⟩

theorem candidate_of_id {t : Table} {cap : Option ℕ} {n : ℕ} {locked : List Uuid} (hr : r ∈ t.rows)
    (h : ((candidate t now cap n locked).map Row.id).contains r.id = true) :
    r ∈ candidate t now cap n locked := by
  rw [List.contains_iff_mem, List.mem_map] at h
  obtain ⟨c, hc, hid⟩ := h
  rwa [← t.eq_of_key_eq (mem_candidate hc).1 hr hid]

theorem claim_id (now : Time) (v : WorkerId) (lease : ℕ) (r : Row) :
    (r.claim now v lease).id = r.id := rfl

theorem claimBatch_table (t : Table) (now : Time) (v : WorkerId) (n lease : ℕ) (cap : Option ℕ)
    (locked : List Uuid) : (claimBatch t now v n lease cap locked).1 =
      t.update (fun r => ((candidate t now cap n locked).map Row.id).contains r.id)
        (Row.claim now v lease) (claim_id now v lease) := rfl

theorem heldRow_mem {id : Uuid} {c : Row}
    (h : s.heldRow w id = some c) : c ∈ s.held w ∧ c.id = id := by
  refine ⟨List.mem_of_find?_eq_some h, ?_⟩
  simpa using List.find?_some h

/-- **What a step does to the table**: it inserts a fresh row, or rewrites each
row in one of the ways `Moves` lists. -/
theorem step_table (h : step q s l = some t) :
    (∃ id priority next, l = .enqueue id priority next ∧
      (∀ r, r ∈ t.table.rows ↔ r ∈ s.table.rows ∨ r = freshRow id priority next s.now)) ∨
    ∃ g : Row → Row, (∀ r', r' ∈ t.table.rows ↔ ∃ r ∈ s.table.rows, g r = r') ∧
      ∀ r ∈ s.table.rows, (g r).id = r.id ∧ Moves q s l r (g r) := by
  have same : ∀ {tab : Table}, tab = s.table → ∃ g : Row → Row,
      (∀ r', r' ∈ tab.rows ↔ ∃ r ∈ s.table.rows, g r = r') ∧
        ∀ r ∈ s.table.rows, (g r).id = r.id ∧ Moves q s l r (g r) := by
    intro tab htab
    refine ⟨fun r => r, fun r' => by simp [htab], fun r _ => ?_⟩
    exact ⟨rfl, .untouched rfl⟩
  have upd : ∀ {p : Row → Bool} {f : Row → Row} (hf : ∀ r, (f r).id = r.id) {tab : Table},
      tab = s.table.update p f hf → (∀ r ∈ s.table.rows, p r = true → Moves q s l r (f r)) →
      ∃ g : Row → Row, (∀ r', r' ∈ tab.rows ↔ ∃ r ∈ s.table.rows, g r = r') ∧
        ∀ r ∈ s.table.rows, (g r).id = r.id ∧ Moves q s l r (g r) := by
    intro p f hf tab htab hmoves
    refine ⟨fun r => if p r then f r else r, fun r' => by rw [htab, KeyedTable.mem_update], ?_⟩
    intro r hr
    by_cases hp : p r = true
    · exact ⟨by simpa only [hp, if_true] using hf r, by simpa only [hp, if_true] using hmoves r hr hp⟩
    · exact ⟨by simp only [hp, Bool.false_eq_true, if_false], .untouched (by simp only [hp,
        Bool.false_eq_true, if_false])⟩
  cases l with
  | tick elapsed | crash w =>
    cases h
    exact .inr (same rfl)
  | enqueue id priority next =>
    simp only [step] at h
    split at h
    · rename_i hfresh
      cases h
      exact .inl ⟨id, priority, next, rfl, fun r => KeyedTable.mem_insert hfresh⟩
    · cases h
  | claimBatch w n lease locked =>
    simp only [step] at h
    split at h
    · cases h
      refine .inr (upd (by exact fun _ => rfl) rfl fun r hr hp => ?_)
      have hc := (mem_candidate (candidate_of_id hr hp)).2
      exact .claimed w n lease locked rfl hc rfl
    · cases h
  | heartbeat w ids lease =>
    cases h
    exact .inr (upd (by exact fun _ => rfl) rfl fun r _ _ => .adjusted rfl rfl rfl)
  | complete w id status =>
    simp only [step] at h
    split at h
    · rename_i hcond
      cases h
      refine .inr (upd (by exact fun _ => rfl) rfl fun r _ hp => .finished hcond.1 (.inl ?_))
      exact heldBy_status (Bool.and_eq_true _ _ ▸ hp).2
    · cases h
  | fail w id err =>
    simp only [step] at h
    split at h
    · cases h
      refine .inr (upd (by exact fun _ => rfl) rfl fun r _ hp => .finished rfl (.inl ?_))
      exact heldBy_status (Bool.and_eq_true _ _ ▸ hp).2
    · cases h
  | retryOrFail w id next err =>
    simp only [step, Option.map_eq_some_iff] at h
    obtain ⟨copy, hcopy, rfl⟩ := h
    obtain ⟨hmem, hid⟩ := heldRow_mem hcopy
    simp only [State.handled, retryOrFail]
    by_cases hcap : q.maxAttempts ≤ copy.attempts
    · rw [if_pos hcap]
      refine .inr (upd (by exact fun _ => rfl) rfl fun r _ hp => .finished rfl (.inl ?_))
      exact heldBy_status (Bool.and_eq_true _ _ ▸ hp).2
    · rw [if_neg hcap]
      refine .inr (upd (by exact fun _ => rfl) rfl fun r _ hp => ?_)
      rw [Bool.and_eq_true, decide_eq_true_eq] at hp
      exact .retried w copy hmem hp.1.symm hp.2 (Nat.lt_of_not_le hcap) rfl rfl
  | releaseUntouched w id =>
    simp only [step] at h
    split at h
    · cases h
      refine .inr (upd (by exact fun _ => rfl) rfl fun r _ hp => .released ?_ rfl rfl)
      exact heldBy_status (Bool.and_eq_true _ _ ▸ hp).2
    · cases h
  | releaseAllClaims w =>
    cases h
    exact .inr (upd (by exact fun _ => rfl) rfl fun r _ hp => .released (heldBy_status hp) rfl rfl)
  | pushNextAttempt id next =>
    simp only [step] at h
    split at h
    · cases h
      exact .inr (upd (by exact fun _ => rfl) rfl fun r _ _ => .adjusted rfl rfl rfl)
    · cases h
  | reclaimExpired =>
    cases h
    exact .inr (upd (by exact fun _ => rfl) rfl fun r _ hp => .reclaimed rfl hp rfl rfl)
  | retryRun id =>
    simp only [step] at h
    split at h
    · cases h
      refine .inr (upd (by exact fun _ => rfl) rfl fun r _ hp => ?_)
      rw [Bool.and_eq_true, decide_eq_true_eq, decide_eq_true_eq] at hp
      exact .restarted id rfl hp.1 hp.2 rfl rfl
    · cases h
  | failExhausted reason =>
    simp only [step] at h
    split at h
    · rename_i hname
      cases h
      exact .inr (upd (by exact fun _ => rfl) rfl fun r _ _ => .finished rfl (.inr hname))
    · cases h

/-- **What a step does to the copies workers hold**: a claim by a worker with
nothing left hands it the claimed rows; no other step adds a copy. -/
theorem step_held (h : step q s l = some t) :
    (∃ w n lease locked, l = .claimBatch w n lease locked ∧
      t.held = Function.update s.held w ((candidate s.table s.now (some q.maxAttempts) n
        locked).map (Row.claim s.now w lease))) ∨
    (∀ w, t.held w ⊆ s.held w) ∧ ∀ w n lease locked, l ≠ .claimBatch w n lease locked := by
  have shrink : ∀ (w : WorkerId) (rows : List Row), rows ⊆ s.held w →
      ∀ w', Function.update s.held w rows w' ⊆ s.held w' := by
    intro w rows hsub w'
    by_cases hw : w' = w
    · subst hw
      simpa using hsub
    · simp [Function.update_of_ne hw]
  have handled : ∀ (w : WorkerId) (id : Uuid) (tab : Table),
      ∀ w', (s.handled w id tab).held w' ⊆ s.held w' :=
    fun w id tab => shrink w _ (by simp)
  cases l with
  | claimBatch w n lease locked =>
    simp only [step] at h
    split at h
    · cases h
      exact .inl ⟨w, n, lease, locked, rfl, rfl⟩
    · cases h
  | tick elapsed | heartbeat w ids lease | reclaimExpired =>
    cases h
    exact .inr ⟨fun _ => List.Subset.refl _, by simp⟩
  | crash w | releaseAllClaims w =>
    cases h
    exact .inr ⟨shrink w [] (List.nil_subset _), by simp⟩
  | enqueue id priority next | pushNextAttempt id next | retryRun id | failExhausted reason =>
    simp only [step] at h
    split at h
    · cases h
      exact .inr ⟨fun _ => List.Subset.refl _, by simp⟩
    · cases h
  | complete w id status | fail w id err | releaseUntouched w id =>
    simp only [step] at h
    split at h
    · cases h
      exact .inr ⟨handled w id _, by simp⟩
    · cases h
  | retryOrFail w id next err =>
    simp only [step, Option.map_eq_some_iff] at h
    obtain ⟨copy, -, rfl⟩ := h
    exact .inr ⟨handled w id _, by simp⟩

/-! ## The invariant below the cap -/

/-- The condition on one step: no reclaim tick finds an expired lease on a row
whose attempts are spent, and a row that becomes `pending` afresh has an attempt
to spend. -/
def MeetsCap (q : Queue) (s : State) : Label → Prop
  | .reclaimExpired =>
    ∀ r ∈ s.table.rows, r.leaseExpired s.now = true → r.attempts < q.maxAttempts
  | .enqueue _ _ _ => 0 < q.maxAttempts
  | .retryRun id => (∃ r ∈ s.table.rows, r.id = id ∧ r.status = .failed) → 0 < q.maxAttempts
  | _ => True

instance (q : Queue) (s : State) (l : Label) : Decidable (MeetsCap q s l) := by
  cases l <;> unfold MeetsCap <;> infer_instance

/-- What a run that never reclaims a spent row keeps: pending rows have an attempt
left, claimed rows have spent between one and all of theirs, and the copy a
worker holds agrees with the row it still holds. -/
structure BelowCap (q : Queue) (s : State) : Prop where
  pending : ∀ r ∈ s.table.rows, r.status = .pending → r.attempts < q.maxAttempts
  claimed : ∀ r ∈ s.table.rows, r.status = .claimed → 0 < r.attempts ∧ r.attempts ≤ q.maxAttempts
  copies : ∀ w, ∀ c ∈ s.held w, ∀ r ∈ s.table.rows, c.id = r.id → r.heldBy w = true →
    r.attempts = c.attempts

theorem belowCap_start (q : Queue) : BelowCap q start where
  pending := by simp [start, KeyedTable.empty]
  claimed := by simp [start, KeyedTable.empty]
  copies := by simp [start, KeyedTable.empty]

theorem Moves.pending_lt
    (hm : Moves q s l r r') (hb : BelowCap q s) (hc : MeetsCap q s l) (hr : r ∈ s.table.rows)
    (hp : r'.status = .pending) : r'.attempts < q.maxAttempts := by
  cases hm with
  | untouched h =>
    subst h
    exact hb.pending _ hr hp
  | claimed w n lease locked hl h hr' =>
    subst hr'
    simp [Row.claim] at hp
  | adjusted hst hby hat =>
    rw [hat]
    exact hb.pending _ hr (hst ▸ hp)
  | finished h hold =>
    rw [hp] at h
    simp [Status.terminal] at h
  | retried w copy hcopy hid hheld hcap hst hat =>
    rw [hat, hb.copies w copy hcopy r hr hid hheld]
    exact hcap
  | released hold hst hat =>
    have := hb.claimed _ hr hold
    omega
  | reclaimed hl hexp hst hat =>
    subst hl
    rw [hat]
    exact hc r hr hexp
  | restarted id hl hid hold hst hat =>
    subst hl
    rw [hat]
    exact hc ⟨r, hr, hid, hold⟩

theorem Moves.claimed_le (hm : Moves q s l r r') (hb : BelowCap q s) (hr : r ∈ s.table.rows)
    (hp : r'.status = .claimed) : 0 < r'.attempts ∧ r'.attempts ≤ q.maxAttempts := by
  cases hm with
  | untouched h =>
    subst h
    exact hb.claimed _ hr hp
  | claimed w n lease locked hl h hr' =>
    subst hr'
    simp only [claimable, Bool.and_eq_true, decide_eq_true_eq] at h
    simp only [Row.claim]
    omega
  | adjusted hst hby hat =>
    rw [hat]
    exact hb.claimed _ hr (hst ▸ hp)
  | finished h hold =>
    rw [hp] at h
    simp [Status.terminal] at h
  | retried w copy hcopy hid hheld hcap hst hat => simp [hst] at hp
  | released hold hst hat => simp [hst] at hp
  | reclaimed hl hexp hst hat => simp [hst] at hp
  | restarted id hl hid hold hst hat => simp [hst] at hp

theorem Moves.heldBy_cases (hm : Moves q s l r r') (hh : r'.heldBy w = true) :
    (∃ n lease locked, l = .claimBatch w n lease locked ∧ r' = r.claim s.now w lease) ∨
    r.heldBy w = true ∧ r'.attempts = r.attempts := by
  have hst' := heldBy_status hh
  have hby' := heldBy_claimedBy hh
  cases hm with
  | untouched h =>
    subst h
    exact .inr ⟨hh, rfl⟩
  | claimed w' n lease locked hl h hr' =>
    subst hr'
    simp only [Row.claim, Option.some.injEq] at hby'
    subst hby'
    exact .inl ⟨n, lease, locked, hl, rfl⟩
  | adjusted hst hby hat =>
    refine .inr ⟨?_, hat⟩
    rw [hst] at hst'
    rw [hby] at hby'
    simp [Row.heldBy, hst', hby']
  | finished h hold =>
    rw [hst'] at h
    simp [Status.terminal] at h
  | retried w' copy hcopy hid hheld hcap hst hat => simp [hst] at hst'
  | released hold hst hat => simp [hst] at hst'
  | reclaimed hl hexp hst hat => simp [hst] at hst'
  | restarted id hl hid hold hst hat => simp [hst] at hst'

theorem claim_copy_eq {t : Table} {cap : Option ℕ} {n lease : ℕ} {locked : List Uuid} {c : Row}
    (hc : c ∈ (candidate t now cap n locked).map (Row.claim now w lease)) (hr : r ∈ t.rows)
    (hid : c.id = r.id) : c = r.claim now w lease := by
  obtain ⟨c₀, hc₀, rfl⟩ := List.mem_map.1 hc
  rw [t.eq_of_key_eq (mem_candidate hc₀).1 hr hid]

/-- **The step lemma**: a step that meets the condition keeps every row below the
cap. -/
theorem belowCap_step (hb : BelowCap q s)
    (hc : MeetsCap q s l) (h : step q s l = some t) : BelowCap q t := by
  rcases step_table h with ⟨id, priority, next, rfl, hmem⟩ | ⟨g, hmem, hg⟩
  · have hheld : t.held = s.held := by
      simp only [step] at h
      split at h <;> cases h
      rfl
    have hcap : 0 < q.maxAttempts := hc
    refine ⟨?_, ?_, ?_⟩
    · intro r hr hp
      rcases (hmem r).1 hr with hr | rfl
      · exact hb.pending r hr hp
      · exact hcap
    · intro r hr hp
      rcases (hmem r).1 hr with hr | rfl
      · exact hb.claimed r hr hp
      · simp [freshRow] at hp
    · intro w c hcw r hr hid hw
      rw [hheld] at hcw
      rcases (hmem r).1 hr with hr | rfl
      · exact hb.copies w c hcw r hr hid hw
      · simp [freshRow, Row.heldBy] at hw
  · refine ⟨?_, ?_, ?_⟩
    · intro r' hr' hp
      obtain ⟨r, hr, rfl⟩ := (hmem r').1 hr'
      exact (hg r hr).2.pending_lt hb hc hr hp
    · intro r' hr' hp
      obtain ⟨r, hr, rfl⟩ := (hmem r').1 hr'
      exact (hg r hr).2.claimed_le hb hr hp
    · intro w c hcw r' hr' hid hw
      obtain ⟨r, hr, rfl⟩ := (hmem r').1 hr'
      rw [(hg r hr).1] at hid
      rcases (hg r hr).2.heldBy_cases hw with ⟨n, lease, locked, hl, hclaim⟩ | ⟨hrw, hat⟩
      · -- the step is this worker's own claim: its copies are the claimed rows
        rcases step_held h with ⟨w', n', lease', locked', hl', hheld⟩ | ⟨-, hno⟩
        · rw [hl] at hl'
          cases hl'
          rw [hheld, Function.update_self] at hcw
          rw [hclaim, claim_copy_eq hcw hr hid]
        · exact absurd hl (hno w n lease locked)
      · rw [hat]
        rcases step_held h with ⟨w', n', lease', locked', hl', hheld⟩ | ⟨hsub, -⟩
        · by_cases hw' : w = w'
          · -- a candidate is pending, so no row this worker holds is one
            subst hw'
            rw [hheld, Function.update_self] at hcw
            obtain ⟨c₀, hc₀, rfl⟩ := List.mem_map.1 hcw
            have hc₀r := s.table.eq_of_key_eq (mem_candidate hc₀).1 hr hid
            have hclaimable := (mem_candidate hc₀).2
            simp only [claimable, Bool.and_eq_true, decide_eq_true_eq] at hclaimable
            rw [hc₀r, heldBy_status hrw] at hclaimable
            simp at hclaimable
          · rw [hheld, Function.update_of_ne hw'] at hcw
            exact hb.copies w c hcw r hr hid hrw
        · exact hb.copies w c (hsub w hcw) r hr hid hrw

/-- **The run lemma**: every run whose steps meet the condition keeps every row
below the cap. -/
theorem belowCap_reachable (h : (system q).Reachable (MeetsCap q) s) : BelowCap q s :=
  h.invariant (fun s (hs : s = start) => hs ▸ belowCap_start q)
    fun _ _ _ hb hc hst => belowCap_step hb hc hst

/-! ## Exhausted rows stay -/

def Exhausted (q : Queue) (r : Row) : Prop := r.status = .pending ∧ q.maxAttempts ≤ r.attempts

instance (q : Queue) (r : Row) : Decidable (Exhausted q r) := inferInstanceAs (Decidable (_ ∧ _))

/-- A stranded row: exhausted, and in no state the queue can still reach is it in
a terminal status. -/
def Stranded (q : Queue) (s : State) (r : Row) : Prop :=
  r ∈ s.table.rows ∧ Exhausted q r ∧
    ∀ t, (system q).Run TransitionSystem.anyStep s t →
      ∀ r' ∈ t.table.rows, r'.id = r.id → r'.status.terminal = false

theorem Moves.exhausted
    (hm : Moves q s l r r') (hq : q.name ≠ .webhooks) (h : Exhausted q r) : Exhausted q r' := by
  obtain ⟨hp, hcap⟩ := h
  cases hm with
  | untouched h => exact h ▸ ⟨hp, hcap⟩
  | claimed w n lease locked hl h hr' =>
    simp only [claimable, Bool.and_eq_true, decide_eq_true_eq] at h
    omega
  | adjusted hst hby hat => exact ⟨hst ▸ hp, hat ▸ hcap⟩
  | finished h hold =>
    rcases hold with hold | hold
    · simp [hp] at hold
    · exact absurd hold hq
  | retried w copy hcopy hid hheld hcap' hst hat => simp [heldBy_status hheld] at hp
  | released hold hst hat => simp [hp] at hold
  | reclaimed hl hexp hst hat => simp [leaseExpired_status hexp] at hp
  | restarted id hl hid hold hst hat => simp [hp] at hold

theorem exhausted_run {id : Uuid} (hq : q.name ≠ .webhooks)
    (hrun : (system q).Run TransitionSystem.anyStep s t)
    (h : ∃ r ∈ s.table.rows, r.id = id ∧ Exhausted q r) :
    ∃ r ∈ t.table.rows, r.id = id ∧ Exhausted q r := by
  refine hrun.preserves (I := fun u => ∃ r ∈ u.table.rows, r.id = id ∧ Exhausted q r) ?_ h
  rintro u l v ⟨r, hr, hid, hex⟩ - hst
  rcases step_table hst with ⟨_, _, _, -, hmem⟩ | ⟨g, hmem, hg⟩
  · exact ⟨r, (hmem r).2 (.inl hr), hid, hex⟩
  · exact ⟨g r, (hmem _).2 ⟨r, hr, rfl⟩, (hg r hr).1.trans hid, (hg r hr).2.exhausted hq hex⟩

theorem stranded_of_exhausted (hq : q.name ≠ .webhooks)
    (hr : r ∈ s.table.rows) (h : Exhausted q r) : Stranded q s r := by
  refine ⟨hr, h, fun t hrun r' hr' hid => ?_⟩
  obtain ⟨r'', hr'', hid', hex⟩ := exhausted_run hq hrun ⟨r, hr, rfl, h⟩
  rw [t.table.eq_of_key_eq hr' hr'' (hid.trans hid'.symm), hex.1]
  rfl

theorem gate_stays_shut (h : Stranded q s r) (hrun : (system q).Run TransitionSystem.anyStep s t) :
    ∀ r' ∈ t.table.rows, r'.id = r.id → gateOpen r' = false := by
  intro r' hr' hid
  have hterm := h.2.2 t hrun r' hr' hid
  cases hst : r'.status <;> simp [hst, gateOpen, Status.terminal] at hterm ⊢

theorem stranded_of_reclaim (hq : q.name ≠ .webhooks)
    (hr : r ∈ s.table.rows) (hexp : r.leaseExpired s.now = true)
    (hcap : q.maxAttempts ≤ r.attempts) :
    Stranded q { s with table := reclaimExpired s.table s.now } r.reclaim :=
  stranded_of_exhausted hq (KeyedTable.mem_update_of (f := Row.reclaim) (fun _ => rfl) hr hexp)
    ⟨rfl, hcap⟩

theorem stranded_of_not_meetsCap (hq : q.name ≠ .webhooks)
    (hc : ¬ MeetsCap q s l) (h : step q s l = some t) : ∃ r, Stranded q t r := by
  cases l with
  | reclaimExpired =>
    simp only [MeetsCap, not_forall, not_lt] at hc
    obtain ⟨r, hr, hexp, hcap⟩ := hc
    cases h
    exact ⟨_, stranded_of_reclaim hq hr hexp hcap⟩
  | enqueue id priority next =>
    have hzero : q.maxAttempts = 0 := Nat.eq_zero_of_not_pos hc
    simp only [step] at h
    split at h
    · rename_i hfresh
      cases h
      have hmem := (KeyedTable.mem_insert hfresh).2
        (.inr (Eq.refl (freshRow id priority next s.now)))
      exact ⟨_, stranded_of_exhausted hq hmem ⟨rfl, hzero.le⟩⟩
    · cases h
  | retryRun id =>
    simp only [MeetsCap, Classical.not_imp, not_lt, Nat.le_zero] at hc
    obtain ⟨⟨r, hr, hid, hfailed⟩, hzero⟩ := hc
    simp only [step] at h
    split at h
    · cases h
      refine ⟨r.restart s.now, stranded_of_exhausted hq ?_ ⟨rfl, hzero.le⟩⟩
      exact KeyedTable.mem_update_of (f := Row.restart s.now) (fun _ => rfl) hr
        (by simp [hid, hfailed])
    · cases h
  | _ => exact absurd trivial hc

/-- **Rows are stranded by spent leases alone**: by a reclaim tick that finds the lease of a row
on its last attempt (or a row inserted under a cap of zero), and by no other step. -/
theorem no_stranded_row_iff_no_spent_reclaim (q : Queue) (hq : q.name ≠ .webhooks) (s : State)
    (hs : (system q).Reachable (MeetsCap q) s) :
    (∀ r, ¬ Stranded q s r) ∧
      ∀ l t, (system q).step s l = some t → ((∀ r, ¬ Stranded q t r) ↔ MeetsCap q s l) := by
  have none : ∀ {u : State}, (system q).Reachable (MeetsCap q) u → ∀ r, ¬ Stranded q u r := by
    rintro u hu r ⟨hr, ⟨hp, hcap⟩, -⟩
    have := (belowCap_reachable hu).pending r hr hp
    omega
  refine ⟨none hs, fun l t hst => ⟨fun hno => ?_, fun hc => none (hs.step hc hst)⟩⟩
  by_contra hc
  obtain ⟨r, hr⟩ := stranded_of_not_meetsCap hq hc hst
  exact hno r hr

/-- Five rounds of a worker claiming a row, dying, and its lease being reclaimed. -/
def crashRounds (n : ℕ) : List Label :=
  .enqueue 1 0 0 :: (List.replicate n
    [.claimBatch "w" 1 120 [], .crash "w", .tick 121, .reclaimExpired]).flatten

theorem no_stranded_row_after_four_crashes :
    ∃ s, (system ⟨.pipeline, 5⟩).exec start (crashRounds 4) = some s ∧
      (∀ r, ¬ Stranded ⟨.pipeline, 5⟩ s r) ∧
        ∀ l t, (system ⟨.pipeline, 5⟩).step s l = some t →
          ((∀ r, ¬ Stranded ⟨.pipeline, 5⟩ t r) ↔ MeetsCap ⟨.pipeline, 5⟩ s l) :=
  ⟨_, rfl, no_stranded_row_iff_no_spent_reclaim ⟨.pipeline, 5⟩ (by decide) _
    (TransitionSystem.reachable_of_exec (crashRounds 4) rfl (by decide) rfl)⟩

/-- A fifth crash strands the row: it is pending for ever and the embedding gate
it holds never opens. -/
theorem fifth_crash_strands_row :
    ∃ s r, (system ⟨.embeddings, 5⟩).Reachable TransitionSystem.anyStep s ∧
      Stranded ⟨.embeddings, 5⟩ s r ∧
        ∀ t, (system ⟨.embeddings, 5⟩).Run TransitionSystem.anyStep s t →
          ∀ r' ∈ t.table.rows, r'.id = r.id → gateOpen r' = false := by
  obtain ⟨s, hs, r, hr, hex⟩ : ∃ s, (system ⟨.embeddings, 5⟩).exec start (crashRounds 5) = some s ∧
      ∃ r, r ∈ s.table.rows ∧ Exhausted ⟨.embeddings, 5⟩ r :=
    ⟨_, rfl, _, List.mem_singleton.2 rfl, by decide⟩
  have hstranded := stranded_of_exhausted (by decide) hr hex
  exact ⟨s, r, TransitionSystem.reachable_of_exec_any (crashRounds 5) rfl hs, hstranded,
    fun t hrun => gate_stays_shut hstranded hrun⟩

/-! ## Rows in the queue -/

theorem Moves.attempts_le (hm : Moves q s l r r')
    (hle : r.status.terminal = false → r.attempts ≤ q.maxAttempts)
    (hlive : r'.status.terminal = false) : r'.attempts ≤ q.maxAttempts := by
  cases hm with
  | untouched h =>
    subst h
    exact hle hlive
  | claimed w n lease locked hl h hr =>
    simp only [claimable, Bool.and_eq_true, decide_eq_true_eq] at h
    simp only [hr, Row.claim]
    omega
  | adjusted hst hby hat => exact hat ▸ hle (hst ▸ hlive)
  | finished h hold => simp [hlive] at h
  | retried w copy hcopy hid hheld hcap hst hat => exact hat ▸ hle (heldBy_status hheld ▸ rfl)
  | released hold hst hat => exact hat ▸ (Nat.sub_le _ _).trans (hle (hold ▸ rfl))
  | reclaimed hl hexp hst hat => exact hat ▸ hle (leaseExpired_status hexp ▸ rfl)
  | restarted id hl hid hold hst hat => exact hat ▸ Nat.zero_le _

/-- **A row in the queue is never tried more often than the queue allows.** -/
theorem attempts_within_cap (h : (system q).Reachable TransitionSystem.anyStep s) :
    ∀ r ∈ s.table.rows, r.status.terminal = false → r.attempts ≤ q.maxAttempts := by
  induction h with
  | init h => exact h ▸ fun r hr => absurd hr List.not_mem_nil
  | step _ _ hst ih =>
    intro r' hr' hlive
    rcases step_table hst with ⟨id, priority, next, -, hmem⟩ | ⟨g, hmem, hg⟩
    · rcases (hmem r').1 hr' with hr | rfl
      · exact ih r' hr hlive
      · exact Nat.zero_le _
    · obtain ⟨r, hr, rfl⟩ := (hmem r').1 hr'
      exact (hg r hr).2.attempts_le (ih r hr) hlive

theorem attempts_within_cap_after_crashes :
    ∃ s, (system ⟨.pipeline, 5⟩).exec start (crashRounds 5) = some s ∧
      ∀ r ∈ s.table.rows, r.status.terminal = false → r.attempts ≤ 5 :=
  ⟨_, rfl, attempts_within_cap (TransitionSystem.reachable_of_exec_any (crashRounds 5) rfl rfl)⟩

end MailVerdict.Analysis.WorkQueueExhaustion
