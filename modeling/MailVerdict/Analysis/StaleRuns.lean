import MailVerdict.Analysis.WorkQueueExhaustion
import MailVerdict.Model.PipelineRuns
import Mathlib.Tactic.MkIffOfInductiveProp

/-!
# What a worker does to a row it has lost

A worker whose lease ran out goes on with its run: nothing tells it. The queue's own statements
find the row under another name, or under none, and change nothing. The runner's three do not look:
the update of `_finish_ok` and that of `_finish_failed` match the id alone, the pushed attempt
any pending row, and the event of a finished run is announced whatever `complete` returned.

`Owned` says a lost row is not held by the worker that lost it; from it each statement of the
worker is silent exactly when `Harmless` holds before it (`silent_iff`), and so in a whole run.
-/

namespace MailVerdict.Analysis.StaleRuns

open MailVerdict.Computation
open Model.WorkQueue hiding State Label step start system
open Model.PipelineRuns Analysis.WorkQueueExhaustion

variable {now : Time} {c : RunColumns} {s : State} {l : Label}

/-- A statement of a worker about a row it has lost leaves every column of the row as it was and
announces nothing. -/
def Silent (s : State) (l : Label) : Prop :=
  ∀ w ∈ l.worker, s.lost w = true → ∀ c ∈ (s.doing w).row, ∀ t ∈ step s l,
    t.pipelineRow c.id = s.pipelineRow c.id ∧ t.finished = s.finished

instance (s : State) (l : Label) : Decidable (Silent s l) := by
  unfold Silent
  infer_instance

/-- The columns a finished run writes have its outcome already, as of this very moment. -/
@[mk_iff]
structure Carries (now : Time) (outcome : RunResult) (c : RunColumns) : Prop where
  trace : c.trace = outcome.trace
  skipReason : c.skipReason = outcome.skipReason
  pipelineRev : c.pipelineRev = outcome.pipelineRev
  haltedAtStage : c.haltedAtStage = outcome.haltedAtStage
  modelCalls : outcome.modelCalls = 0
  startedAt : c.startedAt.isSome = true
  finishedAt : c.finishedAt = some now

instance (now : Time) (outcome : RunResult) (c : RunColumns) :
    Decidable (Carries now outcome c) := decidable_of_iff _ (carries_iff now outcome c).symm

/-- A push that finds no pending row, or one that is due when it says. -/
def PushesNothing (s : State) : Doing → Prop
  | .pushing c delay => ∀ r ∈ s.table.find? c.id,
      r.status = .pending → r.nextAttemptAt = s.now + delay
  | _ => True

instance (s : State) (d : Doing) : Decidable (PushesNothing s d) := by
  cases d <;> unfold PushesNothing <;> infer_instance

/-- When a step of a worker that has lost its row is one that changes nothing: it is none of the
runner's own, or it writes what the row has already. -/
def Harmless (s : State) : Label → Prop
  | .finishOk w outcome =>
    s.lost w = true → ∀ c ∈ (s.doing w).row, Carries s.now outcome (s.runs c.id)
  | .announce w => s.lost w = false
  | .misconfigured w _ (some stage) =>
    s.lost w = true → ∀ c ∈ (s.doing w).row, (s.runs c.id).failedStage = some stage
  | .pushNextAttempt w => s.lost w = true → PushesNothing s (s.doing w)
  | _ => True

instance (s : State) (l : Label) : Decidable (Harmless s l) := by
  cases l with
  | misconfigured w error stage => cases stage <;> unfold Harmless <;> infer_instance
  | _ => unfold Harmless; infer_instance

/-! ## Whose row it is -/

structure Owned (s : State) : Prop where
  present : ∀ w c, (s.doing w).row = some c → c.id ∈ s.table.rows.map Row.id
  taken : ∀ w c, (s.doing w).row = some c → s.lost w = true →
    ∀ r ∈ s.table.rows, r.id = c.id → r.heldBy w ≠ true

structure NoneTaken (t u : Table) : Prop where
  keys : ∀ id ∈ t.rows.map Row.id, id ∈ u.rows.map Row.id
  held : ∀ w, ∀ r ∈ u.rows, r.heldBy w = true → ∃ x ∈ t.rows, x.id = r.id ∧ x.heldBy w = true

theorem noneTaken_refl (t : Table) : NoneTaken t t where
  keys _ h := h
  held _ r hr hheld := ⟨r, hr, rfl, hheld⟩

theorem noneTaken_update {t : Table} {p : Row → Bool} {f : Row → Row} (hf : ∀ r, (f r).id = r.id)
    (hheld : ∀ w r, p r = true → (f r).heldBy w = true → r.heldBy w = true) :
    NoneTaken t (t.update p f hf) where
  keys id hid := by rwa [KeyedTable.keys_update]
  held w r hr hr' := by
    obtain ⟨x, hx, rfl⟩ := KeyedTable.mem_update.1 hr
    by_cases hp : p x = true
    · rw [if_pos hp] at hr' ⊢
      exact ⟨x, hx, (hf x).symm, hheld w x hp hr'⟩
    · rw [if_neg hp] at hr' ⊢
      exact ⟨x, hx, rfl, hr'⟩

theorem noneTaken_of_status {t : Table} {p : Row → Bool} {f : Row → Row}
    (hf : ∀ r, (f r).id = r.id) (hstatus : ∀ r, p r = true → (f r).status ≠ .claimed) :
    NoneTaken t (t.update p f hf) :=
  noneTaken_update hf fun _ r hp hheld => absurd (heldBy_status hheld) (hstatus r hp)

theorem noneTaken_insert {t : Table} {r : Row} (h : r.id ∉ t.rows.map Row.id)
    (hstatus : r.status ≠ .claimed) : NoneTaken t (t.insert r h) where
  keys id hid := by
    obtain ⟨x, hx, rfl⟩ := List.mem_map.1 hid
    exact List.mem_map_of_mem ((KeyedTable.mem_insert h).2 (Or.inl hx))
  held w x hx hheld := by
    obtain hold | rfl := (KeyedTable.mem_insert h).1 hx
    · exact ⟨x, hold, rfl, hheld⟩
    · exact absurd (heldBy_status hheld) hstatus

/-- What a step does to the rows' claims: it claims one for a worker that had none, it reclaims,
or it takes nothing and no worker is given a row. -/
inductive Moves (s t : State) : Prop
  | claimed (v : WorkerId) (hidle : s.doing v = .idle) (hlost : t.lost v = false)
      (hgiven : ∀ c, (t.doing v).row = some c → c.id ∈ s.table.rows.map Row.id)
      (hkeys : ∀ id ∈ s.table.rows.map Row.id, id ∈ t.table.rows.map Row.id)
      (hheld : ∀ w, w ≠ v → ∀ r ∈ t.table.rows, r.heldBy w = true →
        ∃ x ∈ s.table.rows, x.id = r.id ∧ x.heldBy w = true)
      (hothers : ∀ w, w ≠ v → t.doing w = s.doing w ∧ t.lost w = s.lost w)
  | reclaimed (htable : t.table = reclaimExpired s.table s.now) (hdoing : t.doing = s.doing)
      (hlost : t.lost = fun w => s.lost w || s.expires w)
  | kept (htable : NoneTaken s.table t.table) (hlost : t.lost = s.lost)
      (hrow : ∀ w c, (t.doing w).row = some c → (s.doing w).row = some c)

theorem row_update {doing : WorkerId → Doing} {v : WorkerId} {d : Doing}
    (hd : ∀ c, d.row = some c → (doing v).row = some c) (w : WorkerId) (c : Row)
    (h : (Function.update doing v d w).row = some c) : (doing w).row = some c := by
  by_cases hw : w = v
  · rw [hw] at h ⊢
    rw [Function.update_self] at h
    exact hd c h
  · rwa [Function.update_of_ne hw] at h

theorem noneTaken_heartbeat (t : Table) (now : Time) (ids : List Uuid) (v : WorkerId)
    (leaseSeconds : ℕ) : NoneTaken t (heartbeat t now ids v leaseSeconds) :=
  noneTaken_update _ fun _ _ _ hheld => hheld

theorem noneTaken_fail (t : Table) (id : Uuid) (v : WorkerId) (error : String) :
    NoneTaken t (fail t id v error) :=
  noneTaken_of_status _ fun _ _ => Status.noConfusion

theorem noneTaken_retry (t : Table) (id : Uuid) (v : WorkerId) (next : Time)
    (error : Option String) : NoneTaken t (retry t id v next error) :=
  noneTaken_of_status _ fun _ _ => Status.noConfusion

theorem noneTaken_release (t : Table) (id : Uuid) (v : WorkerId) :
    NoneTaken t (releaseUntouched t id v) :=
  noneTaken_of_status _ fun _ _ => Status.noConfusion

theorem noneTaken_push (t : Table) (id : Uuid) (next : Time) :
    NoneTaken t (pushNextAttempt t id next) :=
  noneTaken_update _ fun _ _ _ hheld => hheld

theorem noneTaken_retryRun (t : Table) (now : Time) (id : Uuid) :
    NoneTaken t (retryRun t now id) :=
  noneTaken_of_status _ fun _ _ => Status.noConfusion

theorem noneTaken_complete (t : Table) (id : Uuid) (v : WorkerId) (outcome : RunResult) :
    NoneTaken t (complete t id v outcome.status) := by
  apply noneTaken_of_status
  intro r _ hclaimed
  have hstatus : outcome.status = .claimed := hclaimed
  obtain hended | hended := outcome.ended
  · rw [hended] at hstatus
    cases hstatus
  · rw [hended] at hstatus
    cases hstatus

theorem mem_of_claimed {t : Table} {v : WorkerId} {n lease : ℕ} {cap : Option ℕ}
    {locked : List Uuid} {c : Row} (h : c ∈ (claimBatch t now v n lease cap locked).2) :
    c.id ∈ t.rows.map Row.id := by
  obtain ⟨x, hx, rfl⟩ := List.mem_map.1 h
  exact List.mem_map.2 ⟨x, (mem_candidate hx).1, rfl⟩

theorem mem_of_given {rows : List Row} {c : Row} (h : (Doing.given rows).row = some c) :
    c ∈ rows := by
  cases rows with
  | nil => cases h
  | cons row rest =>
    cases h
    exact List.mem_cons_self

theorem held_of_claimBatch {t : Table} {v w : WorkerId} {n lease : ℕ}
    {cap : Option ℕ} {locked : List Uuid} (hw : w ≠ v) {r : Row}
    (hr : r ∈ (claimBatch t now v n lease cap locked).1.rows) (hheld : r.heldBy w = true) :
    ∃ x ∈ t.rows, x.id = r.id ∧ x.heldBy w = true := by
  rw [claimBatch_table] at hr
  obtain ⟨x, hx, rfl⟩ := KeyedTable.mem_update.1 hr
  split at hheld
  · have hv := heldBy_claimedBy hheld
    exact absurd (Option.some.inj hv).symm hw
  · rename_i hp
    rw [if_neg hp]
    exact ⟨x, hx, rfl, hheld⟩

/-- Every step moves claims in one of the three ways. -/
theorem step_moves {t : State} (hstep : step s l = some t) : Moves s t := by
  cases l with
  | tick elapsed | crash v =>
    cases hstep
    exact .kept (noneTaken_refl _) rfl fun _ _ h => h
  | enqueue id priority next =>
    rw [step] at hstep
    split at hstep
    · rename_i habsent
      cases hstep
      exact .kept (noneTaken_insert habsent Status.noConfusion) rfl fun _ _ h => h
    · cases hstep
  | claim v lease cap locked =>
    obtain ⟨hfree, hstep⟩ := Option.ite_none_right_eq_some.1 hstep
    cases hstep
    apply Moves.claimed v hfree.2
    · exact Function.update_self _ _ _
    · intro c hc
      dsimp only at hc
      rw [Function.update_self] at hc
      exact mem_of_claimed (mem_of_given hc)
    · intro id hid
      change id ∈ (claimBatch s.table s.now v 1 lease (some cap) locked).1.rows.map Row.id
      rwa [claimBatch_table, KeyedTable.keys_update]
    · intro w hw r hr hheld
      exact held_of_claimBatch hw hr hheld
    · intro w hw
      exact ⟨Function.update_of_ne hw _ _, Function.update_of_ne hw _ _⟩
  | heartbeat v lease =>
    obtain ⟨row, hrow, rfl⟩ := Option.map_eq_some_iff.1 hstep
    exact .kept (noneTaken_heartbeat _ _ _ _ _) rfl fun _ _ h => h
  | finishOk v outcome | misconfigured v error stageId =>
    simp only [step] at hstep
    split at hstep
    · rename_i row hdoing
      cases hstep
      exact .kept (noneTaken_refl _) rfl (row_update fun c hc => hdoing ▸ hc)
    · cases hstep
  | complete v =>
    simp only [step] at hstep
    split at hstep
    · rename_i row outcome hdoing
      cases hstep
      exact .kept (noneTaken_complete _ _ _ _) rfl (row_update fun c hc => hdoing ▸ hc)
    · cases hstep
  | announce v =>
    simp only [step] at hstep
    split at hstep
    · cases hstep
      exact .kept (noneTaken_refl _) rfl (row_update fun c hc => by cases hc)
    · cases hstep
  | fail v =>
    simp only [step] at hstep
    split at hstep
    · cases hstep
      exact .kept (noneTaken_fail _ _ _ _) rfl (row_update fun c hc => by cases hc)
    · cases hstep
  | releaseUntouched v delay =>
    simp only [step] at hstep
    split at hstep
    · rename_i row hdoing
      cases hstep
      exact .kept (noneTaken_release _ _ _) rfl (row_update fun c hc => hdoing ▸ hc)
    · cases hstep
  | pushNextAttempt v =>
    simp only [step] at hstep
    split at hstep
    · cases hstep
      exact .kept (noneTaken_push _ _ _) rfl (row_update fun c hc => by cases hc)
    · cases hstep
  | retryTransient v cap delay error =>
    simp only [step] at hstep
    split at hstep
    · cases hstep
      refine .kept ?_ rfl (row_update fun c hc => by cases hc)
      dsimp only [State.setDoing]
      split
      · exact noneTaken_fail _ _ _ _
      · exact noneTaken_retry _ _ _ _ _
    · cases hstep
  | reclaimExpired =>
    cases hstep
    exact .reclaimed rfl rfl rfl
  | retryRun id =>
    cases hstep
    exact .kept (noneTaken_retryRun _ _ _) rfl fun _ _ h => h

theorem exists_row {t : Table} {id : Uuid} (h : id ∈ t.rows.map Row.id) :
    ∃ r, t.find? id = some r := by
  obtain ⟨r, hr, hid⟩ := List.mem_map.1 h
  exact ⟨r, KeyedTable.find?_eq_some_iff.2 ⟨hr, hid⟩⟩

theorem owned_start : Owned start where
  present _ _ h := by cases h
  taken _ _ h := by cases h

/-- No step leaves a lost row held by the worker that lost it. -/
theorem owned_step {t : State} (hs : Owned s) (hstep : step s l = some t) :
    Owned t := by
  cases step_moves hstep with
  | claimed v hidle hlost hgiven hkeys hheld hothers =>
    constructor
    · intro w c hc
      by_cases hw : w = v
      · rw [hw] at hc
        exact hkeys _ (hgiven c hc)
      · rw [(hothers w hw).1] at hc
        exact hkeys _ (hs.present w c hc)
    · intro w c hc hlostw r hr hid hheldr
      have hw : w ≠ v := by
        rintro rfl
        rw [hlost] at hlostw
        cases hlostw
      obtain ⟨hdoing, hlosts⟩ := hothers w hw
      rw [hdoing] at hc
      rw [hlosts] at hlostw
      obtain ⟨x, hx, hxid, hheldx⟩ := hheld w hw r hr hheldr
      exact hs.taken w c hc hlostw x hx (hxid.trans hid) hheldx
  | reclaimed htable hdoing hlost =>
    constructor
    · intro w c hc
      rw [hdoing] at hc
      rw [htable]
      exact (noneTaken_of_status _ fun _ _ => Status.noConfusion).keys _ (hs.present w c hc)
    · intro w c hc hlostw r hr hid hheldr
      rw [hdoing] at hc
      rw [htable] at hr
      obtain ⟨x, hx, rfl⟩ := KeyedTable.mem_update.1 hr
      -- a row that is held still is one the reclaim passed over
      have hkept : ¬ x.leaseExpired s.now = true := by
        intro hexpired
        rw [if_pos hexpired] at hheldr
        cases heldBy_status hheldr
      rw [if_neg hkept] at hid hheldr
      rw [hlost, Bool.or_eq_true] at hlostw
      obtain hbefore | hexpires := hlostw
      · exact hs.taken w c hc hbefore x hx hid hheldr
      · rw [State.expires, hc, Option.any_some] at hexpires
        obtain ⟨y, hy, hall⟩ := List.any_eq_true.1 hexpires
        rw [Bool.and_eq_true, Bool.and_eq_true, decide_eq_true_eq] at hall
        rw [s.table.eq_of_key_eq hy hx (hall.1.1.trans hid.symm)] at hall
        exact hkept hall.2
  | kept htable hlost hrow =>
    constructor
    · intro w c hc
      exact htable.keys _ (hs.present w c (hrow w c hc))
    · intro w c hc hlostw r hr hid hheldr
      rw [hlost] at hlostw
      obtain ⟨x, hx, hxid, hheldx⟩ := htable.held w r hr hheldr
      exact hs.taken w c (hrow w c hc) hlostw x hx (hxid.trans hid) hheldx

/-! ## What the statements of a worker change -/

theorem silent_iff_of_row {t : State} {w : WorkerId} {c : Row}
    (hl : l.worker = some w) (hc : (s.doing w).row = some c) (hstep : step s l = some t) :
    Silent s l ↔ (s.lost w = true →
      t.pipelineRow c.id = s.pipelineRow c.id ∧ t.finished = s.finished) := by
  constructor
  · intro h hlost
    exact h w hl hlost c hc t hstep
  · intro h v hv hlost d hd u hu
    have hvw : v = w := Option.some.inj (hv.symm.trans hl)
    rw [hvw] at hlost hd
    have hdc : d = c := Option.some.inj (hd.symm.trans hc)
    have hut : u = t := Option.some.inj (hu.symm.trans hstep)
    rw [hdc, hut]
    exact h hlost

def Unheld (t : Table) (w : WorkerId) (id : Uuid) : Prop :=
  ∀ r ∈ t.rows, r.id = id → r.heldBy w ≠ true

theorem find?_of_unheld {t : Table} {w : WorkerId} {id : Uuid} {p : Row → Bool} {f : Row → Row}
    (hf : ∀ r, (f r).id = r.id) (h : Unheld t w id)
    (hp : ∀ r, p r = true → r.heldBy w = true) :
    (t.update p f hf).find? id = t.find? id := by
  rw [KeyedTable.find?_update]
  cases hfind : t.find? id with
  | none => rfl
  | some r =>
    obtain ⟨hr, hid⟩ := KeyedTable.find?_eq_some_iff.1 hfind
    rw [Option.map_some, if_neg fun hmatch => h r hr hid (hp r hmatch)]

theorem held_of_and {q : Bool} {w : WorkerId} {r : Row} (h : (q && r.heldBy w) = true) :
    r.heldBy w = true := by
  rw [Bool.and_eq_true] at h
  exact h.2

section Unheld

variable {t : Table} {w : WorkerId} {id : Uuid} (h : Unheld t w id)
include h

theorem find?_heartbeat (now : Time) (leaseSeconds : ℕ) :
    (heartbeat t now [id] w leaseSeconds).find? id = t.find? id :=
  find?_of_unheld _ h fun _ => held_of_and

theorem find?_complete (status : Status) :
    (complete t id w status).find? id = t.find? id :=
  find?_of_unheld _ h fun _ => held_of_and

theorem find?_fail (error : String) : (fail t id w error).find? id = t.find? id :=
  find?_of_unheld _ h fun _ => held_of_and

theorem find?_retry (next : Time) (error : Option String) :
    (retry t id w next error).find? id = t.find? id :=
  find?_of_unheld _ h fun _ => held_of_and

theorem find?_release : (releaseUntouched t id w).find? id = t.find? id :=
  find?_of_unheld _ h fun _ => held_of_and

end Unheld

theorem pipelineRow_congr {t : State} {id : Uuid} (htable : t.table.find? id = s.table.find? id)
    (hruns : t.runs = s.runs) : t.pipelineRow id = s.pipelineRow id := by
  rw [State.pipelineRow, State.pipelineRow, htable, hruns]

theorem finishedColumns_eq_iff {outcome : RunResult} :
    finishedColumns now outcome c = c ↔ Carries now outcome c := by
  constructor
  · intro h
    refine ⟨?_, ?_, ?_, ?_, ?_, ?_, ?_⟩
    · exact (congrArg RunColumns.trace h).symm
    · exact (congrArg RunColumns.skipReason h).symm
    · exact (congrArg RunColumns.pipelineRev h).symm
    · exact (congrArg RunColumns.haltedAtStage h).symm
    · have hcalls : c.modelCalls + outcome.modelCalls = c.modelCalls := congrArg RunColumns.modelCalls h
      omega
    · have hstarted : c.startedAt.or (some now) = c.startedAt := congrArg RunColumns.startedAt h
      rw [← hstarted]
      cases c.startedAt <;> rfl
    · exact (congrArg RunColumns.finishedAt h).symm
  · rintro ⟨htrace, hskip, hrev, hhalted, hcalls, hstarted, hfinished⟩
    obtain ⟨started, hstarted⟩ := Option.isSome_iff_exists.1 hstarted
    rw [finishedColumns, ← htrace, ← hskip, ← hrev, ← hhalted, hcalls, hstarted, ← hfinished]
    cases c
    cases hstarted
    rfl

theorem failedColumns_eq_iff {stage : String} :
    failedColumns (some stage) c = c ↔ c.failedStage = some stage := by
  constructor
  · intro h
    exact (congrArg RunColumns.failedStage h).symm
  · intro h
    rw [failedColumns, ← h]

theorem pipelineRow_setRun {id : Uuid} (h : id ∈ s.table.rows.map Row.id) :
    (s.setRun id c).pipelineRow id = s.pipelineRow id ↔ c = s.runs id := by
  obtain ⟨r, hr⟩ := exists_row h
  have hnew : (s.setRun id c).pipelineRow id = some (r, c) := by
    rw [State.pipelineRow, State.setRun]
    dsimp only
    rw [hr, Option.map_some, Function.update_self]
  have hold : s.pipelineRow id = some (r, s.runs id) := by
    rw [State.pipelineRow, hr, Option.map_some]
  rw [hnew, hold]
  constructor
  · intro h
    cases h
    rfl
  · rintro rfl
    rfl

theorem pipelineRow_push {t : State} {id : Uuid} {next : Time}
    (htable : t.table = pushNextAttempt s.table id next) (hruns : t.runs = s.runs) :
    t.pipelineRow id = s.pipelineRow id ↔
      ∀ r ∈ s.table.find? id, r.status = .pending → r.nextAttemptAt = next := by
  rw [State.pipelineRow, State.pipelineRow, htable, hruns, pushNextAttempt, KeyedTable.find?_update]
  cases hfind : s.table.find? id with
  | none =>
    constructor
    · intro _ r hr
      cases hr
    · intro _
      rfl
  | some r =>
    have hid := (KeyedTable.find?_eq_some_iff.1 hfind).2
    rw [Option.map_some, Option.map_some, Option.map_some]
    constructor
    · intro h x hx hpending
      cases hx
      have hp : (decide (r.id = id) && decide (r.status = .pending)) = true := by
        rw [hid, hpending]
        simp
      rw [if_pos hp] at h
      have hrow := congrArg Prod.fst (Option.some.inj h)
      exact (congrArg Row.nextAttemptAt hrow).symm
    · intro h
      by_cases hp : (decide (r.id = id) && decide (r.status = .pending)) = true
      · rw [if_pos hp]
        rw [Bool.and_eq_true, decide_eq_true_eq, decide_eq_true_eq] at hp
        rw [← h r rfl hp.2]
      · rw [if_neg hp]

/-- A statement of the queue's own is silent: it does not find a lost row under the name of the
worker. -/
theorem silent_of_find? {t : State} {w : WorkerId} {c : Row} (hl : l.worker = some w)
    (hc : (s.doing w).row = some c) (hstep : step s l = some t)
    (hfind : s.lost w = true → t.table.find? c.id = s.table.find? c.id) (hruns : t.runs = s.runs)
    (hfinished : t.finished = s.finished) : Silent s l ↔ True := by
  rw [silent_iff_of_row hl hc hstep]
  exact iff_true_intro fun hlost => ⟨pipelineRow_congr (hfind hlost) hruns, hfinished⟩

/-- A write of the run's columns is silent exactly when it writes what they are. -/
theorem silent_setRun {w : WorkerId} {c : Row} {columns : RunColumns} {d : Doing}
    {P : RunColumns → Prop} (hs : Owned s) (hl : l.worker = some w)
    (hc : (s.doing w).row = some c)
    (hstep : step s l = some ((s.setRun c.id columns).setDoing w d))
    (hcolumns : columns = s.runs c.id ↔ P (s.runs c.id)) :
    Silent s l ↔ (s.lost w = true → ∀ x ∈ (s.doing w).row, P (s.runs x.id)) := by
  rw [silent_iff_of_row hl hc hstep, hc]
  apply imp_congr_right
  intro _
  constructor
  · rintro ⟨hsame, _⟩ x hx
    cases hx
    exact hcolumns.1 ((pipelineRow_setRun (hs.present w c hc)).1 hsame)
  · intro h
    exact ⟨(pipelineRow_setRun (hs.present w c hc)).2 (hcolumns.2 (h c rfl)), rfl⟩

/-- **Each statement of a worker**, by what it writes: the queue's do not find the row under
its name, the runner's three are those `Harmless` speaks of. -/
theorem silent_iff {t : State} (hs : Owned s) (hstep : step s l = some t) :
    Silent s l ↔ Harmless s l := by
  have hnobody : l.worker = none → (Silent s l ↔ True) := by
    intro hl
    refine iff_true_intro fun w hw => ?_
    rw [hl] at hw
    cases hw
  cases l with
  | tick elapsed => exact hnobody rfl
  | enqueue id priority next => exact hnobody rfl
  | claim v lease cap locked => exact hnobody rfl
  | crash v => exact hnobody rfl
  | reclaimExpired => exact hnobody rfl
  | retryRun id => exact hnobody rfl
  | heartbeat v lease =>
    obtain ⟨row, hrow, ht⟩ := Option.map_eq_some_iff.1 hstep
    cases ht
    exact silent_of_find? rfl hrow hstep
      (fun hlost => find?_heartbeat (hs.taken v row hrow hlost) _ _) rfl rfl
  | finishOk v outcome =>
    have hsteps := hstep
    simp only [step] at hsteps
    split at hsteps
    · rename_i row hdoing
      have hrow : (s.doing v).row = some row := hdoing ▸ rfl
      cases hsteps
      exact silent_setRun hs rfl hrow hstep finishedColumns_eq_iff
    · cases hsteps
  | complete v =>
    have hsteps := hstep
    simp only [step] at hsteps
    split at hsteps
    · rename_i row outcome hdoing
      have hrow : (s.doing v).row = some row := hdoing ▸ rfl
      cases hsteps
      exact silent_of_find? rfl hrow hstep (fun hlost => find?_complete (hs.taken v row hrow hlost) _) rfl rfl
    · cases hsteps
  | announce v =>
    have hsteps := hstep
    simp only [step] at hsteps
    split at hsteps
    · rename_i row outcome hdoing
      have hrow : (s.doing v).row = some row := hdoing ▸ rfl
      rw [silent_iff_of_row rfl hrow hstep, Harmless, ← Option.some.inj hsteps]
      constructor
      · intro h
        by_contra hlost
        have hevents : s.finished ++ [finishedEvent row outcome] = s.finished :=
          (h (Bool.eq_true_of_not_eq_false hlost)).2
        have hlength := congrArg List.length hevents
        rw [List.length_append, List.length_singleton] at hlength
        omega
      · intro hkept hlost
        rw [hkept] at hlost
        cases hlost
    · cases hsteps
  | misconfigured v error stageId =>
    have hsteps := hstep
    simp only [step] at hsteps
    split at hsteps
    · rename_i row hdoing
      have hrow : (s.doing v).row = some row := hdoing ▸ rfl
      cases hsteps
      cases stageId with
      | none =>
        rw [silent_iff_of_row rfl hrow hstep]
        refine iff_true_intro fun _ => ⟨?_, rfl⟩
        exact (pipelineRow_setRun (hs.present v row hrow)).2 rfl
      | some stage =>
        exact silent_setRun (P := fun c => c.failedStage = some stage) hs rfl hrow hstep
          failedColumns_eq_iff
    · cases hsteps
  | fail v =>
    have hsteps := hstep
    simp only [step] at hsteps
    split at hsteps
    · rename_i row error hdoing
      have hrow : (s.doing v).row = some row := hdoing ▸ rfl
      cases hsteps
      exact silent_of_find? rfl hrow hstep (fun hlost => find?_fail (hs.taken v row hrow hlost) _) rfl rfl
    · cases hsteps
  | releaseUntouched v delay =>
    have hsteps := hstep
    simp only [step] at hsteps
    split at hsteps
    · rename_i row hdoing
      have hrow : (s.doing v).row = some row := hdoing ▸ rfl
      cases hsteps
      exact silent_of_find? rfl hrow hstep (fun hlost => find?_release (hs.taken v row hrow hlost)) rfl rfl
    · cases hsteps
  | pushNextAttempt v =>
    have hsteps := hstep
    simp only [step] at hsteps
    split at hsteps
    · rename_i row delay hdoing
      have hrow : (s.doing v).row = some row := hdoing ▸ rfl
      have ht := Option.some.inj hsteps
      have htable : t.table = pushNextAttempt s.table row.id (s.now + delay) := ht ▸ rfl
      have hruns : t.runs = s.runs := ht ▸ rfl
      have hfinished : t.finished = s.finished := ht ▸ rfl
      rw [silent_iff_of_row rfl hrow hstep, Harmless, hdoing, PushesNothing]
      apply imp_congr_right
      intro _
      constructor
      · rintro ⟨hsame, _⟩
        exact (pipelineRow_push htable hruns).1 hsame
      · intro h
        exact ⟨(pipelineRow_push htable hruns).2 h, hfinished⟩
    · cases hsteps
  | retryTransient v cap delay error =>
    have hsteps := hstep
    simp only [step] at hsteps
    split at hsteps
    · rename_i row hdoing
      have hrow : (s.doing v).row = some row := hdoing ▸ rfl
      cases hsteps
      refine silent_of_find? rfl hrow hstep (fun hlost => ?_) rfl rfl
      dsimp only [State.setDoing]
      split
      · exact find?_fail (hs.taken v row hrow hlost) _
      · exact find?_retry (hs.taken v row hrow hlost) _ _
    · cases hsteps

/-- **Stale workers.** In a run no worker changes a row it has lost or announces its end, if and
only if every step of the run is harmless. -/
theorem silent_run_iff (ls : List Label) :
    system.execMeets Silent start ls = true ↔ system.execMeets Harmless start ls = true :=
  TransitionSystem.execMeets_congr (fun _ _ _ => owned_step) (fun _ _ _ => silent_iff) ls
    owned_start

/-- What the first worker's run of a message came to, and the second's. -/
def staleOutcome : RunResult := ⟨.done, Or.inl rfl, none, ["classified"], 1, some 1, none⟩

def freshOutcome : RunResult := ⟨.done, Or.inl rfl, none, ["unmatched"], 0, some 2, none⟩

/-- A lease that ran out in a long model call: the row is claimed again and finished, and then the
first worker ends its run. -/
def staleRun : List Label :=
  [.enqueue 1 0 0, .claim "a" 120 5 [], .tick 200, .reclaimExpired, .claim "b" 120 5 [],
    .finishOk "b" freshOutcome, .complete "b", .announce "b", .tick 10]

/-- The first worker's statements rewrite the finished row and announce it again. -/
theorem stale_run_overwrites :
    ¬ (∀ ls, (system.exec start ls).isSome = true →
      system.execMeets Silent start ls = true) ∧
    (∃ s t, system.exec start staleRun = some s ∧ s.lost "a" = true ∧
      system.exec s [.finishOk "a" staleOutcome, .complete "a", .announce "a"] = some t ∧
      (s.runs 1).trace = freshOutcome.trace ∧ (t.runs 1).trace = staleOutcome.trace ∧
      (s.runs 1).finishedAt = some 200 ∧ (t.runs 1).finishedAt = some 210 ∧
      (s.runs 1).modelCalls = 0 ∧ (t.runs 1).modelCalls = 1 ∧
      s.finished.length = 1 ∧ t.finished.length = 2) := by
  constructor
  · intro h
    have hexec : (system.exec start (staleRun ++ [.finishOk "a" staleOutcome])).isSome = true := by
      decide +kernel
    have hmeets :
        system.execMeets Silent start (staleRun ++ [.finishOk "a" staleOutcome]) = false := by
      decide +kernel
    rw [h _ hexec] at hmeets
    cases hmeets
  · have hrun : (system.exec start staleRun).any (fun s =>
        (system.exec s [.finishOk "a" staleOutcome, .complete "a", .announce "a"]).any fun t =>
          decide (s.lost "a" = true ∧
            (s.runs 1).trace = freshOutcome.trace ∧ (t.runs 1).trace = staleOutcome.trace ∧
            (s.runs 1).finishedAt = some 200 ∧ (t.runs 1).finishedAt = some 210 ∧
            (s.runs 1).modelCalls = 0 ∧ (t.runs 1).modelCalls = 1 ∧
            s.finished.length = 1 ∧ t.finished.length = 2)) = true := by
      decide +kernel
    obtain ⟨s, hs, hnext⟩ := (Option.any_eq_true _ _).1 hrun
    obtain ⟨t, ht, hall⟩ := (Option.any_eq_true _ _).1 hnext
    obtain ⟨hlost, hrest⟩ := of_decide_eq_true hall
    exact ⟨s, t, hs, hlost, ht, hrest⟩

end MailVerdict.Analysis.StaleRuns
