import MailVerdict.Analysis.DeliveryStates

/-!
# Failed deliveries and their alerts

The statement that fails a delivery and the one that raises its alert are two transactions, on
the path of the worker and on the path of the sweep. Between them the alert is owed by the
worker alone: nothing in the tables says so, and a failed row is never looked at again. `Comes`
says where the failed and the claimed rows of a step come from, and `Accounted` is what holds
at every moment: a failure is reported or owed.
-/

namespace MailVerdict.Analysis.WebhookDeliveries

open MailVerdict.Computation
open Model.WorkQueue hiding State Label step start system
open Model.WebhookDeliveries Analysis.WorkQueueExhaustion

variable {s t : State} {r' : Row} {maxAttempts : ℕ} {w : WorkerId} {l : Label}

/-- The alert of a delivery under a generation exists, dismissed or not. -/
def Reported (s : State) (p : Uuid × ℕ) : Prop :=
  ∃ a ∈ s.alerts, a.deliveryId = p.1 ∧ a.generation = p.2

def FailedUnder (s : State) (p : Uuid × ℕ) : Prop :=
  (∃ r ∈ s.table.rows, r.id = p.1 ∧ r.status = .failed) ∧ (s.columns p.1).generation = p.2

/-- The alerts a worker still has to raise, its sweeper's included. -/
def owes (s : State) (w : WorkerId) : List (Uuid × ℕ) :=
  owedByAttempt (s.doing w) ++ s.sweeping w

/-- The alerts a step gives up: a worker's when it ends, its sweeper's when an exception ends the
sweep. -/
def givenUp (s : State) : Label → List (Uuid × ℕ)
  | .ends w => owes s w
  | .sweepFails w => s.sweeping w
  | _ => []

/-- No worker ends and no sweep fails while it alone knows of a failure. -/
def EndsClean (s : State) (l : Label) : Prop :=
  ∀ p ∈ givenUp s l, FailedUnder s p → Reported s p

/-- No worker is in the middle of a delivery or of a sweep. -/
def Quiet (s : State) : Prop := ∀ w, s.doing w = .idle ∧ s.sweeping w = []

instance (s : State) (p : Uuid × ℕ) : Decidable (Reported s p) := by
  unfold Reported; infer_instance

instance (s : State) (p : Uuid × ℕ) : Decidable (FailedUnder s p) := by
  unfold FailedUnder; infer_instance

instance (s : State) (l : Label) : Decidable (EndsClean s l) := by
  unfold EndsClean; infer_instance

/-! ## Where a row comes from -/

/-- Where a claimed or a failed row of the state after a step comes from. -/
inductive Comes (s t : State) (r' : Row) : Prop
  | neither (hclaimed : r'.status ≠ .claimed) (hfailed : r'.status ≠ .failed)
  | kept (r : Row) (hr : r ∈ s.table.rows) (hid : r.id = r'.id) (hstatus : r.status = r'.status)
      (hby : r.claimedBy = r'.claimedBy)
      (hgeneration : (t.columns r'.id).generation = (s.columns r'.id).generation)
  | claimed (w : WorkerId) (hheld : r'.heldBy w = true) (hidle : s.doing w = .idle)
      (hgeneration : (t.columns r'.id).generation = (s.columns r'.id).generation)
  | failed (w : WorkerId) (c : Claimed) (o : Outcome) (reason : String) (r : Row)
      (hr : r ∈ s.table.rows) (hid : r.id = r'.id) (hheld : r.heldBy w = true)
      (hdoing : s.doing w = .settling c o) (hcopy : c.row.id = r'.id)
      (hstatus : r'.status = .failed) (howes : t.doing w = .recording c o (some reason))
      (hgeneration : (t.columns r'.id).generation = (s.columns r'.id).generation)
  | swept (w : WorkerId) (hstatus : r'.status = .failed)
      (howes : (r'.id, (t.columns r'.id).generation) ∈ t.sweeping w)

theorem Comes.same (hr : r' ∈ s.table.rows)
    (hgeneration : (t.columns r'.id).generation = (s.columns r'.id).generation) :
    Comes s t r' :=
  .kept r' hr rfl rfl rfl hgeneration

/-- A settled attempt leaves its row failed, with the alert owed, or not failed. -/
theorem comes_settle {delay : ℕ} {c : Claimed} {o : Outcome} (hdoing : s.doing w = .settling c o)
    (hr' : r' ∈ (settle maxAttempts s w c o delay).table.rows) :
    Comes s (settle maxAttempts s w c o delay) r' := by
  have hcolumns : ∀ id, ((settle maxAttempts s w c o delay).columns id).generation =
      (s.columns id).generation := by
    intro id
    rw [settle]
    split
    · split
      · show (Function.update s.columns c.row.id _ id).generation = _
        by_cases hid : id = c.row.id
        · rw [hid, Function.update_self]
        · rw [Function.update_of_ne hid]
      · rfl
    · split
      · rfl
      · rfl
  have hgeneration := hcolumns r'.id
  by_cases hkind : o.kind = .done
  · simp only [settle, if_pos hkind] at hr'
    split at hr'
    · obtain ⟨hr, -⟩ | ⟨x, -, -, -, rfl⟩ := mem_markDone hr'
      · exact .same hr hgeneration
      · exact .neither Status.noConfusion Status.noConfusion
    · exact .same hr' hgeneration
  · by_cases hretry : o.kind = .transient ∧ c.row.attempts < maxAttempts
    · have htable : (settle maxAttempts s w c o delay).table =
          retry s.table c.row.id w (s.now + delay) (some o.detail) := by
        rw [settle, if_neg hkind, if_pos hretry]
      rw [htable] at hr'
      obtain ⟨r, hr, rfl⟩ := (KeyedTable.mem_of_eq_update (by intro _; rfl) rfl).1 hr'
      split
      · exact .neither Status.noConfusion Status.noConfusion
      · exact .same hr (hcolumns r.id)
    · have htable : (settle maxAttempts s w c o delay).table =
          fail s.table c.row.id w (failureReason c o) := by
        rw [settle, if_neg hkind, if_neg hretry]
      rw [htable] at hr'
      obtain ⟨r, hr, rfl⟩ := (KeyedTable.mem_of_eq_update (by intro _; rfl) rfl).1 hr'
      by_cases hmatch : (decide (r.id = c.row.id) && r.heldBy w) = true
      · rw [if_pos hmatch] at hgeneration ⊢
        rw [Bool.and_eq_true, decide_eq_true_eq] at hmatch
        have hholds : s.holds w c.row.id = true := by
          rw [State.holds, List.any_eq_true]
          exact ⟨r, hr, by rw [hmatch.1, hmatch.2, decide_eq_true rfl]; rfl⟩
        refine .failed w c o (failureReason c o) r hr rfl hmatch.2 hdoing hmatch.1.symm rfl ?_
          hgeneration
        rw [settle, if_neg hkind, if_neg hretry]
        dsimp only [State.setDoing]
        rw [if_pos hholds, Function.update_self]
      · rw [if_neg hmatch] at hgeneration ⊢
        exact .same hr hgeneration

/-- Where every claimed or failed row after a step comes from. -/
theorem step_comes (hstep : step maxAttempts s l = some t) (hr' : r' ∈ t.table.rows) :
    Comes s t r' := by
  cases l with
  | tick elapsed | dismiss id generation | sweepFails v | ends v =>
    cases hstep
    exact .same hr' rfl
  | enqueue id priority next =>
    rw [step] at hstep
    split at hstep
    · rename_i habsent
      cases hstep
      obtain hr | rfl := (KeyedTable.mem_insert habsent).1 hr'
      · refine .same hr ?_
        have hne : r'.id ≠ id := fun h => habsent (h ▸ List.mem_map_of_mem hr)
        dsimp only
        rw [Function.update_of_ne hne]
      · exact .neither Status.noConfusion Status.noConfusion
    · cases hstep
  | claim v lease locked =>
    obtain ⟨hfree, hstep⟩ := Option.ite_none_right_eq_some.1 hstep
    cases hstep
    obtain ⟨r, hr, rfl⟩ := (KeyedTable.mem_of_eq_update (by intro _; rfl) rfl).1 hr'
    split
    · refine .claimed v ?_ hfree.2 rfl
      simp [Row.claim, Row.heldBy]
    · exact .same hr rfl
  | release v =>
    simp only [step] at hstep
    split at hstep
    · cases hstep
      obtain ⟨r, hr, rfl⟩ := (KeyedTable.mem_of_eq_update (by intro _; rfl) rfl).1 hr'
      split
      · exact .neither Status.noConfusion Status.noConfusion
      · exact .same hr rfl
    · cases hstep
  | heartbeat v lease =>
    obtain ⟨c, -, rfl⟩ := Option.map_eq_some_iff.1 hstep
    obtain ⟨r, hr, rfl⟩ := (KeyedTable.mem_of_eq_update (by intro _; rfl) rfl).1 hr'
    split
    · exact .kept r hr rfl rfl rfl rfl
    · exact .same hr rfl
  | request v | answer v status | raiseAlert v =>
    simp only [step] at hstep
    split at hstep
    · cases hstep
      exact .same hr' rfl
    · cases hstep
  | giveUp v how =>
    simp only [step] at hstep
    split at hstep
    · cases hstep
      exact .same hr' rfl
    · cases hstep
      exact .same hr' rfl
    · cases hstep
  | settle v delay =>
    simp only [step] at hstep
    split at hstep
    · rename_i c o hdoing
      cases hstep
      exact comes_settle hdoing hr'
    · cases hstep
  | record v =>
    simp only [step] at hstep
    split at hstep
    · rename_i c o failed hdoing
      have hsame : ∀ id, ((Function.update s.columns c.row.id
          { s.columns c.row.id with httpStatus := o.httpStatus }) id).generation =
            (s.columns id).generation := by
        intro id
        by_cases hid : id = c.row.id
        · rw [hid, Function.update_self]
        · rw [Function.update_of_ne hid]
      cases failed with
      | none | some reason =>
        cases hstep
        exact .same hr' (hsame _)
    · cases hstep
  | sweep v =>
    obtain ⟨-, hstep⟩ := Option.ite_none_right_eq_some.1 hstep
    cases hstep
    obtain ⟨r, hr, rfl⟩ := (KeyedTable.mem_of_eq_update (by intro _; rfl) rfl).1 hr'
    split
    · rename_i hmatch
      refine .swept v rfl ?_
      dsimp only
      rw [Function.update_self]
      exact List.mem_map.2 ⟨r, List.mem_filter.2 ⟨hr, hmatch⟩, rfl⟩
    · exact .same hr rfl
  | sweepAlert v =>
    simp only [step] at hstep
    split at hstep
    · cases hstep
    · cases hstep
      exact .same hr' rfl
  | reclaimExpired =>
    cases hstep
    obtain ⟨r, hr, rfl⟩ := (KeyedTable.mem_of_eq_update (by intro _; rfl) rfl).1 hr'
    split
    · exact .neither Status.noConfusion Status.noConfusion
    · exact .same hr rfl
  | requeue ids =>
    cases hstep
    obtain ⟨r, hr, rfl⟩ := (KeyedTable.mem_of_eq_update (by intro _; rfl) rfl).1 hr'
    split
    · exact .neither Status.noConfusion Status.noConfusion
    · rename_i hmatch
      refine .same hr ?_
      have hnot : requeued s.table ids r.id = false := by
        apply eq_false_of_ne_true
        intro hyes
        simp only [requeued, List.any_eq_true, Bool.and_eq_true, decide_eq_true_eq] at hyes
        obtain ⟨x, hx, ⟨hid, hin⟩, hfailed⟩ := hyes
        rw [s.table.eq_of_key_eq hx hr hid] at hin hfailed
        rw [hin, hfailed] at hmatch
        exact hmatch rfl
      dsimp only
      rw [hnot]
      rfl

/-! ## What is owed -/

theorem reported_createAlert {id : Uuid} {generation : ℕ} {body : String}
    (h : t.alerts = createAlert s.alerts id generation body) :
    Reported t (id, generation) ∧ ∀ p, Reported s p → Reported t p := by
  unfold Reported
  rw [h, createAlert]
  split
  · rename_i hany
    obtain ⟨a, ha, hmatch⟩ := List.any_eq_true.1 hany
    exact ⟨⟨a, ha, of_decide_eq_true hmatch⟩, fun p hp => hp⟩
  · constructor
    · exact ⟨_, List.mem_append_right _ (List.mem_singleton.2 rfl), rfl, rfl⟩
    · rintro p ⟨a, ha, hmatch⟩
      exact ⟨a, List.mem_append_left _ ha, hmatch⟩

theorem reported_step (hstep : step maxAttempts s l = some t) {p : Uuid × ℕ} (hp : Reported s p) :
    Reported t p := by
  cases step_acts hstep with
  | still _ _ halerts =>
    obtain halerts | ⟨id, generation, halerts⟩ := halerts
    · rw [Reported, halerts]
      exact hp
    · obtain ⟨a, ha, hid, hgeneration⟩ := hp
      rw [Reported, halerts]
      refine ⟨_, List.mem_map_of_mem ha, ?_⟩
      split
      · exact ⟨hid, hgeneration⟩
      · exact ⟨hid, hgeneration⟩
  | turned _ _ _ _ _ _ _ halerts | swept _ _ _ _ _ _ halerts | sweepFailed _ _ _ _ halerts
  | ended _ _ _ _ halerts =>
    rw [Reported, halerts]
    exact hp
  | alerted _ _ _ _ _ _ _ halerts | sweepAlerted _ _ _ _ _ _ _ _ _ halerts =>
    exact (reported_createAlert halerts).2 p hp

theorem owes_setDoing {v : WorkerId} {d : Doing} {p : Uuid × ℕ}
    (hdoing : t.doing = Function.update s.doing v d) (hsweeping : t.sweeping = s.sweeping)
    (hfree : p ∈ owedByAttempt (s.doing v) → p ∈ owedByAttempt d) (hp : p ∈ owes s w) :
    p ∈ owes t w := by
  rw [owes, List.mem_append] at hp ⊢
  rw [hdoing, hsweeping]
  obtain hp | hp := hp
  · left
    by_cases hw : w = v
    · rw [hw, Function.update_self]
      exact hfree (hw ▸ hp)
    · rw [Function.update_of_ne hw]
      exact hp
  · exact Or.inr hp

/-- An owed alert stays owed, is raised, or is given up by this step. -/
theorem step_owes (hstep : step maxAttempts s l = some t) {p : Uuid × ℕ} (hp : p ∈ owes s w) :
    p ∈ owes t w ∨ Reported t p ∨ p ∈ givenUp s l := by
  cases step_acts hstep with
  | still hdoing hsweeping _ =>
    left
    rw [owes, hdoing, hsweeping]
    exact hp
  | turned v d _ _ howes hdoing hsweeping _ =>
    exact Or.inl (owes_setDoing hdoing hsweeping (howes p) hp)
  | alerted v c reason _ hbefore hdoing hsweeping halerts =>
    by_cases hpair : p = (c.row.id, c.generation)
    · rw [hpair]
      exact Or.inr (Or.inl (reported_createAlert (s := s) halerts).1)
    · refine Or.inl (owes_setDoing hdoing hsweeping (fun h => ?_) hp)
      rw [hbefore, owedByAttempt, List.mem_singleton] at h
      exact absurd h hpair
  | swept v found _ hbefore hdoing hsweeping _ =>
    left
    rw [owes, List.mem_append] at hp ⊢
    rw [hdoing, hsweeping]
    obtain hp | hp := hp
    · exact Or.inl hp
    · have hw : w ≠ v := by
        rintro rfl
        rw [hbefore] at hp
        cases hp
      rw [Function.update_of_ne hw]
      exact Or.inr hp
  | sweepAlerted v id generation rest body _ hbefore hdoing hsweeping halerts =>
    rw [owes, List.mem_append] at hp ⊢
    rw [hdoing, hsweeping]
    obtain hp | hp := hp
    · exact Or.inl (Or.inl hp)
    · by_cases hw : w = v
      · subst hw
        rw [hbefore, List.mem_cons] at hp
        rw [Function.update_self]
        obtain rfl | hp := hp
        · exact Or.inr (Or.inl (reported_createAlert (s := s) halerts).1)
        · exact Or.inl (Or.inr hp)
      · rw [Function.update_of_ne hw]
        exact Or.inl (Or.inr hp)
  | sweepFailed v hl hdoing hsweeping _ =>
    by_cases hw : w = v
    · rw [owes, List.mem_append] at hp
      rw [owes, List.mem_append, hdoing, hl, ← hw]
      exact hp.imp Or.inl Or.inr
    · left
      rw [owes, hdoing, hsweeping, Function.update_of_ne hw]
      exact hp
  | ended v hl hdoing hsweeping _ =>
    by_cases hw : w = v
    · exact Or.inr (Or.inr (by rw [hl, ← hw]; exact hp))
    · left
      rw [owes, hdoing, hsweeping, Function.update_of_ne hw, Function.update_of_ne hw]
      exact hp

/-! ## Every failure is reported or owed -/

/-- The generation a worker was given is the row's own for as long as it holds the row. -/
def CopiesCurrent (s : State) : Prop :=
  ∀ w c, (s.doing w).claimed = some c → ∀ r ∈ s.table.rows, r.id = c.row.id →
    r.heldBy w = true → (s.columns r.id).generation = c.generation

/-- Every failed delivery has its alert, or a worker that still owes it. -/
def Accounted (s : State) : Prop :=
  ∀ r ∈ s.table.rows, r.status = .failed →
    Reported s (r.id, (s.columns r.id).generation) ∨
      ∃ w, (r.id, (s.columns r.id).generation) ∈ owes s w

theorem heldBy_of_eq {r : Row} (hstatus : r.status = r'.status)
    (hby : r.claimedBy = r'.claimedBy) : r.heldBy w = r'.heldBy w := by
  rw [Row.heldBy, Row.heldBy, hstatus, hby]

theorem held_of_step (hstep : step maxAttempts s l = some t) (hr' : r' ∈ t.table.rows)
    (hheld : r'.heldBy w = true) :
    (t.columns r'.id).generation = (s.columns r'.id).generation ∧
      ((∃ r ∈ s.table.rows, r.id = r'.id ∧ r.heldBy w = true) ∨ s.doing w = .idle) := by
  have hclaimed := heldBy_status hheld
  cases step_comes hstep hr' with
  | neither hnot => exact absurd hclaimed hnot
  | kept r hr hid hstatus hby hgeneration =>
    refine ⟨hgeneration, Or.inl ⟨r, hr, hid, ?_⟩⟩
    rw [heldBy_of_eq hstatus hby]
    exact hheld
  | claimed v hv hidle hgeneration =>
    refine ⟨hgeneration, Or.inr ?_⟩
    have hsame := heldBy_claimedBy hheld
    rw [heldBy_claimedBy hv] at hsame
    cases hsame
    exact hidle
  | failed v c o reason r hr hid hv hdoing hcopy hstatus | swept v hstatus =>
    rw [hclaimed] at hstatus
    cases hstatus

theorem copies_step (h : CopiesCurrent s)
    (hstep : step maxAttempts s l = some t) : CopiesCurrent t := by
  intro w c hcopy r' hr' hid hheld
  obtain ⟨hgeneration, hbefore⟩ := held_of_step hstep hr' hheld
  rw [hgeneration]
  -- a copy the worker had before, or the one it was given by this step
  have horigin : (s.doing w).claimed = some c ∨ c.generation = (s.columns c.row.id).generation := by
    have hturns := step_turns hstep w
    generalize t.doing w = d at hturns hcopy
    cases hturns with
    | same => exact Or.inl hcopy
    | idle => cases hcopy
    | given c' _ hfresh =>
      cases hcopy
      exact Or.inr hfresh
    | asked c' hdoing | settled c' o failed hdoing _ | failed c' o reason hdoing =>
      cases hcopy
      exact Or.inl (by rw [hdoing, Doing.claimed])
    | ended c' o hdoing _ =>
      cases hcopy
      exact Or.inl hdoing
  obtain hcopy | hfresh := horigin
  · obtain ⟨r, hr, hsame, hheld⟩ | hidle := hbefore
    · rw [← hsame]
      exact h w c hcopy r hr (hsame.trans hid) hheld
    · rw [hidle] at hcopy
      cases hcopy
  · rw [hid, hfresh]

theorem accounted_step (hcopies : CopiesCurrent s)
    (h : Accounted s) (hclean : EndsClean s l) (hstep : step maxAttempts s l = some t) :
    Accounted t := by
  intro r' hr' hfailed
  cases step_comes hstep hr' with
  | neither _ hnot => exact absurd hfailed hnot
  | kept r hr hid hstatus hby hgeneration =>
    rw [hgeneration, ← hid]
    rw [hfailed] at hstatus
    obtain hreported | ⟨w, howes⟩ := h r hr hstatus
    · exact Or.inl (reported_step hstep hreported)
    · obtain hstill | hreported | hgivenUp := step_owes hstep howes
      · exact Or.inr ⟨w, hstill⟩
      · exact Or.inl hreported
      · left
        exact reported_step hstep (hclean _ hgivenUp ⟨⟨r, hr, rfl, hstatus⟩, rfl⟩)
  | claimed w hheld =>
    rw [heldBy_status hheld] at hfailed
    cases hfailed
  | failed w c o reason r hr hid hheld hdoing hcopy hstatus howes hgeneration =>
    right
    refine ⟨w, ?_⟩
    have hcurrent : (s.columns r'.id).generation = c.generation := by
      rw [← hid]
      refine hcopies w c ?_ r hr (hid.trans hcopy.symm) hheld
      rw [hdoing, Doing.claimed]
    rw [owes, howes, hgeneration, hcurrent, ← hcopy]
    exact List.mem_append_left _ (List.mem_singleton.2 rfl)
  | swept w hstatus howes =>
    exact Or.inr ⟨w, List.mem_append_right _ howes⟩

theorem accounted_reachable
    (h : (system maxAttempts).Reachable EndsClean s) : CopiesCurrent s ∧ Accounted s := by
  refine TransitionSystem.Reachable.invariant (I := fun s => CopiesCurrent s ∧ Accounted s) ?_ ?_ h
  · rintro s rfl
    exact ⟨fun _ _ _ _ hr => (by cases hr), fun _ hr => (by cases hr)⟩
  · rintro s l t ⟨hcopies, hacc⟩ hclean hstep
    exact ⟨copies_step hcopies hstep, accounted_step hcopies hacc hclean hstep⟩

/-- **Failed deliveries are reported** in every quiet state, as long as no worker ends and no
exception ends a sweep between the failure and its alert. -/
theorem failures_reported {maxAttempts : ℕ} {s : State}
    (h : (system maxAttempts).Reachable EndsClean s) (hquiet : Quiet s) :
    ∀ r ∈ s.table.rows, r.status = .failed →
      Reported s (r.id, (s.columns r.id).generation) := by
  intro r hr hfailed
  obtain hreported | ⟨w, howes⟩ := (accounted_reachable h).2 r hr hfailed
  · exact hreported
  · rw [owes, (hquiet w).1, (hquiet w).2] at howes
    cases howes

/-! ## Workers that are given nothing -/

theorem step_others {v : WorkerId}
    (hl : workerOf l ≠ some v) (hstep : step maxAttempts s l = some t) :
    t.doing v = s.doing v ∧ t.sweeping v = s.sweeping v := by
  have hne : ∀ u, workerOf l = some u → v ≠ u := by
    rintro u hu rfl
    exact hl hu
  cases step_acts hstep with
  | still hdoing hsweeping _ => exact ⟨congrFun hdoing v, congrFun hsweeping v⟩
  | turned u _ hu _ _ hdoing hsweeping _ | alerted u _ _ hu _ hdoing hsweeping _ =>
    rw [hdoing, hsweeping, Function.update_of_ne (hne u hu)]
    exact ⟨rfl, rfl⟩
  | swept u _ hu _ hdoing hsweeping _ | sweepAlerted u _ _ _ _ hu _ hdoing hsweeping _ =>
    rw [hdoing, hsweeping, Function.update_of_ne (hne u hu)]
    exact ⟨rfl, rfl⟩
  | sweepFailed u hu hdoing hsweeping _ =>
    rw [hdoing, hsweeping, Function.update_of_ne (hne u (by rw [hu, workerOf]))]
    exact ⟨rfl, rfl⟩
  | ended u hu hdoing hsweeping _ =>
    have hv := hne u (by rw [hu, workerOf])
    rw [hdoing, hsweeping, Function.update_of_ne hv, Function.update_of_ne hv]
    exact ⟨rfl, rfl⟩

theorem quiet_of_one {ls : List Label} (hls : ∀ l ∈ ls, workerOf l = none ∨ workerOf l = some w)
    (h : (system maxAttempts).exec start ls = some t)
    (hw : t.doing w = .idle ∧ t.sweeping w = []) : Quiet t := by
  intro v
  by_cases hv : v = w
  · rw [hv]
    exact hw
  · refine TransitionSystem.exec_preserves (I := fun s => s.doing v = .idle ∧ s.sweeping v = [])
      ls ?_ ⟨rfl, rfl⟩ h
    rintro l hl s s' ⟨hdoing, hsweeping⟩ hstep
    have hother : workerOf l ≠ some v := by
      obtain hnone | hsome := hls l hl
      · rw [hnone]
        exact fun hsame => by cases hsame
      · rw [hsome]
        exact fun hsame => hv (Option.some.inj hsame).symm
    obtain ⟨hdoing', hsweeping'⟩ := step_others hother hstep
    exact ⟨hdoing'.trans hdoing, hsweeping'.trans hsweeping⟩

/-- A webhook that answers 404: the failure, the status and the alert, one after the other. -/
def refusedRun : List Label :=
  [.enqueue 7 0 0, .claim "a" 60 [], .request "a", .answer "a" 404, .settle "a" 0, .record "a",
    .raiseAlert "a"]

theorem failures_reported_refused : ∃ s, Quiet s ∧ (∃ r ∈ s.table.rows, r.status = .failed) ∧
    ∀ r ∈ s.table.rows, r.status = .failed →
      Reported s (r.id, (s.columns r.id).generation) := by
  have hruns : ((system 5).exec start refusedRun).any (fun s =>
      s.table.rows.any (fun r => decide (r.status = .failed)) &&
        decide (s.doing "a" = .idle ∧ s.sweeping "a" = [])) = true := by decide +kernel
  obtain ⟨s, hexec, h⟩ := (Option.any_eq_true _ _).1 hruns
  rw [Bool.and_eq_true, List.any_eq_true, decide_eq_true_eq] at h
  obtain ⟨⟨r, hr, hfailed⟩, hidle⟩ := h
  have hquiet : Quiet s := quiet_of_one (by decide) hexec hidle
  refine ⟨s, hquiet, ⟨r, hr, of_decide_eq_true hfailed⟩, ?_⟩
  exact failures_reported (TransitionSystem.reachable_of_exec refusedRun rfl
    (by decide +kernel) hexec) hquiet

def stoppedRun : List Label :=
  [.enqueue 7 0 0, .claim "a" 60 [], .request "a", .answer "a" 404, .settle "a" 0, .ends "a"]

theorem stop_loses_alert :
    ¬ ∀ maxAttempts s, (system maxAttempts).Reachable TransitionSystem.anyStep s → Quiet s →
      ∀ r ∈ s.table.rows, r.status = .failed →
        Reported s (r.id, (s.columns r.id).generation) := by
  intro h
  have hruns : ((system 5).exec start stoppedRun).any (fun s =>
      s.table.rows.any (fun r => decide (r.status = .failed)) && decide (s.alerts = []) &&
        decide (s.doing "a" = .idle ∧ s.sweeping "a" = [])) = true := by decide +kernel
  obtain ⟨s, hexec, hfacts⟩ := (Option.any_eq_true _ _).1 hruns
  rw [Bool.and_eq_true, Bool.and_eq_true, List.any_eq_true, decide_eq_true_eq,
    decide_eq_true_eq] at hfacts
  obtain ⟨⟨⟨r, hr, hfailed⟩, hnone⟩, hidle⟩ := hfacts
  have hquiet : Quiet s := quiet_of_one (by decide) hexec hidle
  obtain ⟨a, ha, -⟩ := h 5 s (TransitionSystem.reachable_of_exec_any stoppedRun rfl hexec) hquiet
    r hr (of_decide_eq_true hfailed)
  rw [hnone] at ha
  cases ha

end MailVerdict.Analysis.WebhookDeliveries
