import MailVerdict.Analysis.PipelineEffects
import Mathlib.Data.List.TakeWhile

/-!
# Running a pipeline again after a crash

A run that is cut after some of its effects has committed those and nothing else;
the claim is then run again from the first stage, on the message as the cut left
it. The second run repeats the first one's writes only if it makes the first one's
decisions again, and it makes them on a message the first half has changed. What is
proved here: a cut whose re-run decides as the run did (or differs where it changes
nothing) ends in the run's own state, since redoing a list of writes is doing it
once (`Computation.Redo`); a cut that leaves the message where no run reads it ends
in the run's state exactly when the effects that were still to come change nothing.
-/

namespace MailVerdict.Analysis.Pipeline

open MailVerdict.Computation
open Model.Pipeline

variable {k : Uuid} {r : MessageRow} {es : List Effect} {before after : List AppliedEffect}

/-! ## What a run has committed -/

/-- The database the effects of a run left, `db` where there are none. -/
def lastDb (db : Database) : List AppliedEffect → Database
  | [] => db
  | a :: as => lastDb a.db as

@[simp] theorem lastDb_append (db : Database) (as bs : List AppliedEffect) :
    lastDb db (as ++ bs) = lastDb (lastDb db as) bs := by
  induction as generalizing db with
  | nil => rfl
  | cons a as ih => exact ih a.db

theorem lastDb_of_forall {db : Database} {as : List AppliedEffect} (h : ∀ a ∈ as, a.db = db) :
    lastDb db as = db := by
  induction as with
  | nil => rfl
  | cons a as ih =>
    have hhead : a.db = db := h a List.mem_cons_self
    show lastDb a.db as = db
    rw [hhead]
    apply ih
    intro b hb
    exact h b (List.mem_cons_of_mem a hb)

def effectsOf (as : List AppliedEffect) : List Effect := as.map AppliedEffect.effect

theorem effectsOf_append (as bs : List AppliedEffect) :
    effectsOf (as ++ bs) = effectsOf as ++ effectsOf bs := by
  unfold effectsOf
  rw [List.map_append]

variable (W : World) (run : PipelineRun)

/-- Every database of the trace has the message's row as the effects so far make
it. -/
def Commits (k : Uuid) : MessageRow → List AppliedEffect → Prop
  | _, [] => True
  | r, a :: as =>
    a.db.messages.find? k = some (commit W run a.effect r) ∧
      Commits k (commit W run a.effect r) as

variable {W run}

theorem Commits.append {as bs : List AppliedEffect} :
    Commits W run k r (as ++ bs) ↔
      Commits W run k r as ∧ Commits W run k (replay (commit W run) r (effectsOf as)) bs := by
  induction as generalizing r with
  | nil => exact ⟨fun h => ⟨trivial, h⟩, fun h => h.2⟩
  | cons a as ih =>
    show _ ∧ Commits W run k _ (as ++ bs) ↔ (_ ∧ Commits W run k _ as) ∧ _
    rw [ih, and_assoc]
    rfl

theorem Commits.found {db : Database} {as : List AppliedEffect}
    (hfound : db.messages.find? k = some r) (h : Commits W run k r as) :
    (lastDb db as).messages.find? k = some (replay (commit W run) r (effectsOf as)) := by
  induction as generalizing r db with
  | nil => exact hfound
  | cons a as ih => exact ih h.1 h.2

/-! ## The effects of one stage -/

section Stage

variable {stageId : String}

def configured (W : World) (run : PipelineRun) (es : List Effect) : List Effect :=
  es.takeWhile fun e => !misconfigured W run e

theorem applyEffects_shape (es : List Effect) (db : Database) (view : MessageView) :
    effectsOf (applyEffects W run stageId db view es).applied = configured W run es ∧
      ((applyEffects W run stageId db view es).error = none ↔
        ∀ e ∈ es, misconfigured W run e = false) := by
  induction es generalizing db view with
  | nil => exact ⟨rfl, by simp [applyEffects]⟩
  | cons e es ih =>
    cases he : misconfigured W run e with
    | true =>
      have hraise := @applyEffect_misconfigured W run stageId db view e he
      unfold applyEffects
      rw [hraise]
      constructor
      · simp [configured, he, effectsOf]
      · simp [he]
    | false =>
      obtain ⟨a, ha⟩ := @applyEffect_configured W run stageId db view e he
      obtain ⟨hshape, herror⟩ := ih a.db a.view
      unfold applyEffects
      rw [ha]
      constructor
      · show e :: effectsOf (applyEffects W run stageId a.db a.view es).applied = _
        rw [hshape]
        simp [configured, he]
      · show (applyEffects W run stageId a.db a.view es).error = none ↔ _
        rw [herror]
        simp [he]

theorem applyEffects_db (es : List Effect) (db : Database) (view : MessageView) :
    (applyEffects W run stageId db view es).db
      = lastDb db (applyEffects W run stageId db view es).applied := by
  induction es generalizing db view with
  | nil => rfl
  | cons e es ih =>
    unfold applyEffects
    cases applyEffect W run stageId db view e with
    | error x => rfl
    | ok a => exact ih a.db a.view

theorem applyEffects_messageId (es : List Effect) (db : Database) (view : MessageView) :
    (applyEffects W run stageId db view es).view.messageId = view.messageId := by
  induction es generalizing db view with
  | nil => rfl
  | cons e es ih =>
    unfold applyEffects
    cases ha : applyEffect W run stageId db view e with
    | error x => rfl
    | ok a => exact (ih a.db a.view).trans (applyEffect_messageId ha)

theorem applyEffects_tracks (happly : run.apply = true) (es : List Effect) {db : Database}
    {view : MessageView} {r : MessageRow} (ht : Tracks db view r) :
    Commits W run view.messageId r (applyEffects W run stageId db view es).applied ∧
      Tracks (applyEffects W run stageId db view es).db
        (applyEffects W run stageId db view es).view
        (replay (commit W run) r (effectsOf (applyEffects W run stageId db view es).applied)) := by
  induction es generalizing db view r with
  | nil => exact ⟨trivial, ht⟩
  | cons e es ih =>
    unfold applyEffects
    cases ha : applyEffect W run stageId db view e with
    | error x => exact ⟨trivial, ht⟩
    | ok a =>
      have hone := applyEffect_tracks happly ha ht
      have hid := applyEffect_messageId ha
      obtain ⟨hcommits, htracks⟩ := ih hone
      refine ⟨⟨?_, ?_⟩, htracks⟩
      · rw [← hid]
        exact hone.found
      · rw [← hid]
        exact hcommits

theorem applyEffects_frame (es : List Effect) {db : Database} {view : MessageView}
    (hk : k ≠ view.messageId) :
    (applyEffects W run stageId db view es).db.messages.find? k = db.messages.find? k := by
  induction es generalizing db view with
  | nil => rfl
  | cons e es ih =>
    unfold applyEffects
    cases ha : applyEffect W run stageId db view e with
    | error x => rfl
    | ok a =>
      have hk' : k ≠ a.view.messageId := by
        rw [applyEffect_messageId ha]
        exact hk
      exact (ih hk').trans (applyEffect_frame ha hk)

theorem applyEffects_dry (hdry : run.apply = false) (es : List Effect) (db : Database)
    (view : MessageView) :
    ∀ a ∈ (applyEffects W run stageId db view es).applied, a.db = db := by
  induction es generalizing db view with
  | nil => simp [applyEffects]
  | cons e es ih =>
    unfold applyEffects
    cases ha : applyEffect W run stageId db view e with
    | error x => simp
    | ok a =>
      have hsame : a.db = db := applyEffect_dry hdry ha
      intro b hb
      rcases List.mem_cons.1 hb with rfl | hb
      · exact hsame
      · exact (ih a.db a.view b hb).trans hsame

end Stage

/-! ## The stages of a run -/

theorem applied_cons (entry : TraceEntry) (log : RunResult) :
    ({ log with trace := entry :: log.trace } : RunResult).applied = entry.applied ++ log.applied :=
  rfl

/-- What a run does to the database: some stages apply their effects, each on the
worker the one before it left, and the run stops after any of them. -/
inductive Went (W : World) (run : PipelineRun) : Worker → List AppliedEffect → Database → Prop
  | nothing (w : Worker) : Went W run w [] w.db
  | stop (w : Worker) (stageId : String) (es : List Effect) :
      Went W run w (applyEffects W run stageId w.db w.view es).applied
        (applyEffects W run stageId w.db w.view es).db
  | next (w : Worker) (stageId : String) (es : List Effect) {as : List AppliedEffect}
      {db : Database} (rest : Went W run (w.next (applyEffects W run stageId w.db w.view es)) as db) :
      Went W run w ((applyEffects W run stageId w.db w.view es).applied ++ as) db

theorem runStages_went (stages : List StageDefinition) (w : Worker) :
    Went W run w (runStages W run stages w).applied (runStages W run stages w).db := by
  induction stages generalizing w with
  | nil => exact Went.nothing w
  | cons stage rest ih =>
    unfold runStages
    cases stageTurn W run w stage with
    | error x => exact Went.nothing w
    | ok turn =>
      cases turn with
      | none =>
        dsimp only
        split
        · exact ih w
        · exact ih w
      | some o =>
        have hstop := @Went.stop W run w stage.stageId o.effects
        dsimp only
        cases (applyEffects W run stage.stageId w.db w.view o.effects).error with
        | some x => simpa [RunResult.applied] using hstop
        | none =>
          dsimp only
          split
          · simpa [RunResult.applied] using hstop
          · rw [applied_cons]
            exact Went.next w stage.stageId o.effects (ih _)

namespace Went

variable {w : Worker} {as : List AppliedEffect} {db : Database}

theorem db_eq (h : Went W run w as db) : db = lastDb w.db as := by
  induction h with
  | nothing w => rfl
  | stop w stageId es => exact applyEffects_db es w.db w.view
  | next w stageId es rest ih =>
    rw [ih, lastDb_append, ← applyEffects_db es w.db w.view]
    rfl

theorem commits (happly : run.apply = true) (h : Went W run w as db)
    (ht : Tracks w.db w.view r) : Commits W run w.view.messageId r as := by
  induction h generalizing r with
  | nothing w => trivial
  | stop w stageId es => exact (applyEffects_tracks happly es ht).1
  | next w stageId es rest ih =>
    obtain ⟨hstage, htracks⟩ := @applyEffects_tracks W run stageId happly es _ _ _ ht
    have hid : (w.next (applyEffects W run stageId w.db w.view es)).view.messageId
        = w.view.messageId := applyEffects_messageId es w.db w.view
    refine Commits.append.2 ⟨hstage, ?_⟩
    rw [← hid]
    exact ih htracks

theorem frame (h : Went W run w as db) (hk : k ≠ w.view.messageId) :
    db.messages.find? k = w.db.messages.find? k := by
  induction h with
  | nothing w => rfl
  | stop w stageId es => exact applyEffects_frame es hk
  | next w stageId es rest ih =>
    have hid : (w.next (applyEffects W run stageId w.db w.view es)).view.messageId
        = w.view.messageId := applyEffects_messageId es w.db w.view
    rw [hid] at ih
    exact (ih hk).trans (applyEffects_frame es hk)

theorem dry (hdry : run.apply = false) (h : Went W run w as db) : ∀ a ∈ as, a.db = w.db := by
  induction h with
  | nothing w => simp
  | stop w stageId es => exact applyEffects_dry hdry es w.db w.view
  | next w stageId es rest ih =>
    have hstage := @applyEffects_dry W run stageId hdry es w.db w.view
    have hdb : (applyEffects W run stageId w.db w.view es).db = w.db := by
      rw [applyEffects_db]
      exact lastDb_of_forall hstage
    intro a ha
    rcases List.mem_append.1 ha with ha | ha
    · exact hstage a ha
    · exact (ih a ha).trans hdb

end Went

/-! ## A run repeated on what an earlier one left -/

section Repeat

variable (W : World) (run : PipelineRun)

/-- Whether the effects of a stage find nothing to do in the message's row. -/
def settled (w : Worker) (es : List Effect) : Bool :=
  match w.db.messages.find? w.view.messageId with
  | none => false
  | some r => es.all fun e => decide (Settled W run e r)

/-- Whether two decisions of a stage come to the same on the message of `w'`: they
are equal, or neither ends the run and the effects of both find nothing to do. -/
def agrees (stage : StageDefinition) (w' : Worker) (o o' : StageOutcome) : Bool :=
  decide (o = o') ||
    (!halts stage o && !halts stage o' && settled W run w' (o.effects ++ o'.effects))

/-- Whether the run of `w'` decides its stages as the run of `w` did, as far as it
matters where `w'` has come to. -/
def repeats : List StageDefinition → Worker → Worker → Bool
  | [], _, _ => true
  | stage :: rest, w, w' =>
    match stageTurn W run w stage, stageTurn W run w' stage with
    | .error _, .error _ => true
    | .ok none, .ok none => repeats rest w w'
    | .ok (some o), .ok (some o') =>
      let r := applyEffects W run stage.stageId w.db w.view o.effects
      let r' := applyEffects W run stage.stageId w'.db w'.view o'.effects
      agrees W run stage w' o o' &&
        (r.error.isSome || halts stage o || repeats rest (w.next r) (w'.next r'))
    | _, _ => false

end Repeat

theorem settled_iff {w : Worker} (hr : w.db.messages.find? w.view.messageId = some r) :
    settled W run w es = true ↔ ∀ e ∈ es, Settled W run e r := by
  unfold settled
  rw [hr]
  simp

theorem settled_commits (h : ∀ e ∈ es, Settled W run e r) :
    (∀ e ∈ es, misconfigured W run e = false) ∧ configured W run es = es ∧
      replay (commit W run) r es = r := by
  have hall : ∀ e ∈ es, misconfigured W run e = false := fun e he => (h e he).1
  refine ⟨hall, ?_, replay_eq_self fun e he => (h e he).2⟩
  refine List.takeWhile_eq_self_iff.2 ?_
  intro e he
  rw [hall e he]
  rfl

/-- Decisions that agree do the same to the mail, and end the run alike. -/
theorem agrees_spec {stage : StageDefinition} {w w' : Worker} {o o' : StageOutcome} (ht : Tracks w'.db w'.view r) (h : agrees W run stage w' o o' = true) :
    let a := applyEffects W run stage.stageId w.db w.view o.effects
    let a' := applyEffects W run stage.stageId w'.db w'.view o'.effects
    (a'.error = none ↔ a.error = none) ∧ halts stage o' = halts stage o ∧
      replay (commit W run) r (effectsOf a'.applied)
        = replay (commit W run) r (effectsOf a.applied) := by
  have hshape := @applyEffects_shape W run stage.stageId
  dsimp only
  rw [(hshape o.effects w.db w.view).1, (hshape o'.effects w'.db w'.view).1,
    (hshape o.effects w.db w.view).2, (hshape o'.effects w'.db w'.view).2]
  unfold agrees at h
  rw [Bool.or_eq_true, Bool.and_eq_true, Bool.and_eq_true, Bool.not_eq_true', Bool.not_eq_true',
    settled_iff ht.found, decide_eq_true_eq] at h
  rcases h with rfl | ⟨⟨hgoes, hgoes'⟩, hsettled⟩
  · exact ⟨Iff.rfl, rfl, rfl⟩
  · have hfirst : ∀ e ∈ o.effects, Settled W run e r := fun e he =>
      hsettled e (List.mem_append_left _ he)
    have hsecond : ∀ e ∈ o'.effects, Settled W run e r := fun e he =>
      hsettled e (List.mem_append_right _ he)
    obtain ⟨hall, hlist, hrow⟩ := settled_commits hfirst
    obtain ⟨hall', hlist', hrow'⟩ := settled_commits hsecond
    refine ⟨⟨fun _ => hall, fun _ => hall'⟩, by rw [hgoes, hgoes'], ?_⟩
    rw [hlist, hlist', hrow, hrow']

/-- A re-run that repeats leaves the mail as its effects do. -/
theorem repeats_found (happly : run.apply = true) {stages : List StageDefinition}
    {w w' : Worker} (ht : Tracks w'.db w'.view r)
    (h : repeats W run stages w w' = true) :
    (runStages W run stages w').db.messages.find? w'.view.messageId
      = some (replay (commit W run) r (effectsOf (runStages W run stages w).applied)) := by
  induction stages generalizing w w' r with
  | nil => exact ht.found
  | cons stage rest ih =>
    unfold repeats at h
    unfold runStages
    split at h
    · rename_i x x' hturn hturn'
      rw [hturn, hturn']
      exact ht.found
    · rename_i hturn hturn'
      rw [hturn, hturn']
      have hrest := ih ht h
      cases hon : stage.enabled <;> exact hrest
    · rename_i o o' hturn hturn'
      rw [hturn, hturn']
      rw [Bool.and_eq_true] at h
      obtain ⟨hagrees, hgoes⟩ := h
      obtain ⟨herror, hhalts, hrow⟩ := agrees_spec (w := w) ht hagrees
      have htracks := (@applyEffects_tracks W run stage.stageId happly o'.effects _ _ _ ht).2
      have hid := @applyEffects_messageId W run stage.stageId o'.effects w'.db w'.view
      have hfound := htracks.found
      rw [hid, hrow] at hfound
      rw [hrow] at htracks
      dsimp only
      cases hraise : (applyEffects W run stage.stageId w.db w.view o.effects).error with
      | some x =>
        -- the stage raises in both runs, at the same effect
        cases hraise' : (applyEffects W run stage.stageId w'.db w'.view o'.effects).error with
        | none =>
          rw [herror.1 hraise'] at hraise
          cases hraise
        | some x' => simpa [RunResult.applied] using hfound
      | none =>
        rw [herror.2 hraise]
        rw [hhalts]
        cases hstop : halts stage o with
        | true => simpa [RunResult.applied] using hfound
        | false =>
          rw [hraise, hstop] at hgoes
          have hnext := ih htracks hgoes
          rw [if_neg Bool.false_ne_true, if_neg Bool.false_ne_true, applied_cons]
          rw [effectsOf_append, replay_append, ← hid]
          exact hnext
    · cases h

/-! ## Redoing what was committed -/

theorem replay_commit_eq (hlive : r.expunged = false)
    (h : ∀ e ∈ es, (patchOf W run e).expunge = false) :
    replay (commit W run) r es = replay (fun e => (patchOf W run e).apply) r es := by
  induction es generalizing r with
  | nil => rfl
  | cons e es ih =>
    have hone : commit W run e r = (patchOf W run e).apply r := by
      unfold commit
      rw [hlive]
      rfl
    have hstill : ((patchOf W run e).apply r).expunged = false := by
      show (r.expunged || (patchOf W run e).expunge) = false
      rw [hlive, h e List.mem_cons_self]
      rfl
    rw [replay_cons, replay_cons, hone]
    apply ih hstill
    intro f hf
    exact h f (List.mem_cons_of_mem e hf)

theorem replay_commit_live (h : (replay (commit W run) r es).expunged = false) :
    r.expunged = false ∧ ∀ e ∈ es, (patchOf W run e).expunge = false := by
  induction es generalizing r with
  | nil => exact ⟨h, by simp⟩
  | cons e es ih =>
    obtain ⟨hone, hrest⟩ := ih h
    have hboth : r.expunged = false ∧ (patchOf W run e).expunge = false := by
      cases hgone : r.expunged with
      | true =>
        have hstay : (commit W run e r).expunged = true := by
          unfold commit
          split
          · exact hgone
          · show (r.expunged || (patchOf W run e).expunge) = true
            rw [hgone]
            rfl
        rw [hstay] at hone
        cases hone
      | false =>
        refine ⟨rfl, ?_⟩
        have hput : (commit W run e r).expunged = (patchOf W run e).expunge := by
          unfold commit
          rw [hgone]
          show (r.expunged || (patchOf W run e).expunge) = _
          rw [hgone]
          rfl
        rw [← hput]
        exact hone
    refine ⟨hboth.1, ?_⟩
    intro f hf
    rcases List.mem_cons.1 hf with rfl | hf
    · exact hboth.2
    · exact hrest f hf

theorem replay_commit_redo (h : (replay (commit W run) r es).expunged = false) :
    replay (commit W run) (replay (commit W run) r es) es = replay (commit W run) r es := by
  obtain ⟨hlive, hkeep⟩ := replay_commit_live h
  have hlast : LastWriterWins fun e => (patchOf W run e).apply :=
    ⟨fun e => Patch.lastWriterWins.again (patchOf W run e),
      fun e f => Patch.lastWriterWins.through (patchOf W run e) (patchOf W run f)⟩
  rw [replay_commit_eq h hkeep, replay_commit_eq hlive hkeep]
  exact hlast.redo es r

/-! ## Loading -/

theorem loadMessageView_tracks {db : Database} {view : MessageView}
    (h : loadMessageView W db k = some view) :
    ∃ r, Tracks db view r ∧ r.expunged = false := by
  unfold loadMessageView at h
  cases hrow : db.messages.find? k with
  | none =>
    rw [hrow] at h
    cases h
  | some r =>
    rw [hrow] at h
    dsimp only at h
    cases hgone : r.expunged with
    | true =>
      rw [hgone] at h
      cases h
    | false =>
      rw [hgone, if_neg Bool.false_ne_true] at h
      cases hfolder : W.folders.find? fun f => decide (f.id = r.folderId) with
      | none =>
        rw [hfolder] at h
        cases h
      | some f =>
        rw [hfolder] at h
        dsimp only at h
        split at h
        · cases h
        · cases h
          have hid : r.id = k := (KeyedTable.find?_eq_some_iff.1 hrow).2
          have hf : f.id = r.folderId := by simpa using List.find?_some hfolder
          refine ⟨r, ⟨?_, fun _ => hf.symm⟩, hgone⟩
          rw [hid]
          exact hrow

theorem loadView_tracks {db : Database} {view : MessageView} (h : loadView W db run = some view) :
    ∃ r, Tracks db view r ∧ r.expunged = false := by
  unfold loadView at h
  cases hid : run.messageId.bind (loadMessageView W db) with
  | some v =>
    rw [hid] at h
    cases h
    obtain ⟨k, _, hk⟩ := Option.bind_eq_some_iff.1 hid
    exact loadMessageView_tracks hk
  | none =>
    rw [hid] at h
    obtain ⟨k, _, hk⟩ := Option.bind_eq_some_iff.1 h
    exact loadMessageView_tracks hk

/-! ## The cut and the run after it -/

section Cut

variable (W : World) (definition : PipelineDefinition) (run : PipelineRun)

/-- The worker a run goes through the stages with, if it gets that far. -/
def startOf (db : Database) : Option Worker :=
  if !definition.enabled then none
  else
    match loadView W db run with
    | none => none
    | some view =>
      if outOfScope view then none else some (startWorker db view run.accountId)

/-- Cut after the effects `before`, the run that is claimed next leaves the message
as the run would have left it. -/
def Converges (db : Database) (before : List AppliedEffect) : Prop :=
  ∀ view, loadView W db run = some view →
    (executeRun W definition run (lastDb db before)).db.messages.find? view.messageId
      = (executeRun W definition run db).db.messages.find? view.messageId

/-- The effects `after` find nothing to do in the message the cut left. -/
def Finished (db : Database) (before after : List AppliedEffect) (k : Uuid) : Prop :=
  ∀ r, (lastDb db before).messages.find? k = some r →
    replay (commit W run) r (effectsOf after) = r

/-- The run after the cut takes up the message of the run that was cut. -/
def TakesUp (db : Database) (before : List AppliedEffect) : Prop :=
  ∃ w w', startOf W definition run db = some w ∧
    startOf W definition run (lastDb db before) = some w' ∧
    w'.view.messageId = w.view.messageId

/-- The condition on a cut: the run after it decides as the cut run did, or, where
it does not take the message up, nothing was left to do. -/
def CutSafe (db : Database) (before after : List AppliedEffect) : Prop :=
  ∀ w, startOf W definition run db = some w →
    match startOf W definition run (lastDb db before) with
    | some w' =>
      if w'.view.messageId = w.view.messageId then
        repeats W run definition.stages w w' = true
      else Finished W run db before after w.view.messageId
    | none => Finished W run db before after w.view.messageId

end Cut

variable {definition : PipelineDefinition} {db : Database}

theorem executeRun_of_start {w : Worker} (h : startOf W definition run db = some w) :
    executeRun W definition run db = runStages W run definition.stages w ∧
      w.db = db ∧ loadView W db run = some w.view := by
  unfold startOf at h
  unfold executeRun
  by_cases hon : (!definition.enabled) = true
  · rw [if_pos hon] at h
    cases h
  · rw [if_neg hon] at h ⊢
    cases hview : loadView W db run with
    | none =>
      rw [hview] at h
      cases h
    | some view =>
      rw [hview] at h
      by_cases hscope : outOfScope view = true
      · simp only [if_pos hscope] at h
        cases h
      · simp only [if_neg hscope] at h ⊢
        cases h
        exact ⟨rfl, rfl, rfl⟩

theorem executeRun_of_no_start (h : startOf W definition run db = none) :
    (executeRun W definition run db).applied = [] ∧ (executeRun W definition run db).db = db := by
  unfold startOf at h
  unfold executeRun
  by_cases hon : (!definition.enabled) = true
  · rw [if_pos hon]
    exact ⟨rfl, rfl⟩
  · rw [if_neg hon] at h ⊢
    cases hview : loadView W db run with
    | none => exact ⟨rfl, rfl⟩
    | some view =>
      rw [hview] at h
      by_cases hscope : outOfScope view = true
      · simp only [if_pos hscope]
        exact ⟨rfl, trivial⟩
      · simp only [if_neg hscope] at h
        cases h

theorem cut_rows (happly : run.apply = true) {w : Worker}
    (hstart : startOf W definition run db = some w)
    (hcut : (executeRun W definition run db).applied = before ++ after) :
    ∃ r, (lastDb db before).messages.find? w.view.messageId
        = some (replay (commit W run) r (effectsOf before)) ∧
      (executeRun W definition run db).db.messages.find? w.view.messageId
        = some (replay (commit W run) (replay (commit W run) r (effectsOf before))
            (effectsOf after)) := by
  obtain ⟨hrun, rfl, hview⟩ := executeRun_of_start hstart
  obtain ⟨r, ht, _⟩ := loadView_tracks hview
  have hwent := @runStages_went W run definition.stages w
  rw [hrun] at hcut ⊢
  rw [hcut] at hwent
  obtain ⟨hbefore, hafter⟩ := Commits.append.1 (hwent.commits happly ht)
  have hfound := hbefore.found ht.found
  refine ⟨r, hfound, ?_⟩
  rw [hwent.db_eq, lastDb_append]
  exact hafter.found hfound

theorem not_takesUp_found {w : Worker} (hstart : startOf W definition run db = some w) (h : ¬TakesUp W definition run db before) :
    (executeRun W definition run (lastDb db before)).db.messages.find? w.view.messageId
      = (lastDb db before).messages.find? w.view.messageId := by
  cases hnext : startOf W definition run (lastDb db before) with
  | none => rw [(executeRun_of_no_start hnext).2]
  | some w' =>
    have hother : w.view.messageId ≠ w'.view.messageId := by
      intro hsame
      exact h ⟨w, w', hstart, hnext, hsame.symm⟩
    obtain ⟨hrun, hdb, _⟩ := executeRun_of_start hnext
    rw [hrun, (runStages_went definition.stages w').frame hother, hdb]

theorem converges_iff_finished (happly : run.apply = true) {w : Worker}
    (hstart : startOf W definition run db = some w)
    (hcut : (executeRun W definition run db).applied = before ++ after)
    (h : ¬TakesUp W definition run db before) :
    Converges W definition run db before ↔ Finished W run db before after w.view.messageId := by
  obtain ⟨_, _, hview⟩ := executeRun_of_start hstart
  obtain ⟨r, hthere, hend⟩ := cut_rows happly hstart hcut
  have hstays := not_takesUp_found hstart h
  constructor
  · intro hconv s hs
    have hsame := hconv w.view hview
    rw [hstays, hs, hend] at hsame
    rw [hthere] at hs
    cases hs
    exact (Option.some.inj hsame).symm
  · intro hfinished view hview'
    rw [hview] at hview'
    cases hview'
    rw [hstays, hend, hfinished _ hthere]
    exact hthere

theorem converges_of_repeats (happly : run.apply = true) {w w' : Worker}
    (hstart : startOf W definition run db = some w)
    (hcut : (executeRun W definition run db).applied = before ++ after)
    (hnext : startOf W definition run (lastDb db before) = some w')
    (hid : w'.view.messageId = w.view.messageId)
    (hrep : repeats W run definition.stages w w' = true) :
    Converges W definition run db before := by
  obtain ⟨hrun, _, hview⟩ := executeRun_of_start hstart
  obtain ⟨hrun', hdb', hview'⟩ := executeRun_of_start hnext
  obtain ⟨r, hthere, hend⟩ := cut_rows happly hstart hcut
  obtain ⟨r', ht', hlive⟩ := loadView_tracks hview'
  -- the row the next run loads is the one the cut left
  have hrow : r' = replay (commit W run) r (effectsOf before) := by
    have hfound := ht'.found
    rw [hid, hthere] at hfound
    exact (Option.some.inj hfound).symm
  rw [← hdb'] at ht'
  have hagain := repeats_found happly ht' hrep
  rw [← hrun, hcut] at hagain
  rw [effectsOf_append, replay_append, hid] at hagain
  intro view hsame
  rw [hview] at hsame
  cases hsame
  rw [hrow] at hlive hagain
  rw [replay_commit_redo hlive] at hagain
  rw [hrun', hend]
  exact hagain

theorem takesUp_iff {w : Worker} (hstart : startOf W definition run db = some w) : TakesUp W definition run db before ↔
      ∃ w', startOf W definition run (lastDb db before) = some w' ∧
        w'.view.messageId = w.view.messageId := by
  constructor
  · rintro ⟨w₁, w', hw₁, hw', hid⟩
    rw [hstart] at hw₁
    cases hw₁
    exact ⟨w', hw', hid⟩
  · rintro ⟨w', hw', hid⟩
    exact ⟨w, w', hstart, hw', hid⟩

theorem lastDb_of_dry (happly : run.apply = false) {w : Worker}
    (hstart : startOf W definition run db = some w)
    (hcut : (executeRun W definition run db).applied = before ++ after) :
    lastDb db before = db := by
  obtain ⟨hrun, hdb, _⟩ := executeRun_of_start hstart
  have hwent := @runStages_went W run definition.stages w
  rw [← hrun, hcut] at hwent
  apply lastDb_of_forall
  intro a ha
  rw [← hdb]
  exact hwent.dry happly a (List.mem_append_left after ha)

/-- **Re-running a run that was cut.** It leaves the message as the run itself would
have if the cut is safe; and where the message is not taken up again it does so only
then. -/
theorem rerun_converges (W : World) (definition : PipelineDefinition) (run : PipelineRun)
    (db : Database) (before after : List AppliedEffect)
    (hcut : (executeRun W definition run db).applied = before ++ after) :
    (CutSafe W definition run db before after → Converges W definition run db before) ∧
      (¬TakesUp W definition run db before →
        Converges W definition run db before → CutSafe W definition run db before after) := by
  cases hstart : startOf W definition run db with
  | none =>
    have hnothing := (executeRun_of_no_start hstart).1
    rw [hnothing] at hcut
    have hbefore : before = [] := (List.append_eq_nil_iff.1 hcut.symm).1
    subst hbefore
    refine ⟨fun _ _ _ => rfl, ?_⟩
    intro _ _ w hw
    rw [hstart] at hw
    cases hw
  | some w =>
    cases happly : run.apply with
    | false =>
      have hsame := lastDb_of_dry happly hstart hcut
      refine ⟨?_, ?_⟩
      · intro _ view _
        rw [hsame]
      · intro hnot
        refine absurd ((takesUp_iff hstart).2 ⟨w, ?_, rfl⟩) hnot
        rw [hsame]
        exact hstart
    | true =>
      refine ⟨?_, ?_⟩
      · intro hsafe
        have hw := hsafe w hstart
        cases hnext : startOf W definition run (lastDb db before) with
        | none =>
          rw [hnext] at hw
          refine (converges_iff_finished happly hstart hcut ?_).2 hw
          rw [takesUp_iff hstart, hnext]
          rintro ⟨_, ⟨⟩, _⟩
        | some w' =>
          rw [hnext] at hw
          dsimp only at hw
          by_cases hid : w'.view.messageId = w.view.messageId
          · rw [if_pos hid] at hw
            exact converges_of_repeats happly hstart hcut hnext hid hw
          · rw [if_neg hid] at hw
            refine (converges_iff_finished happly hstart hcut ?_).2 hw
            rw [takesUp_iff hstart, hnext]
            rintro ⟨_, ⟨⟩, hsame⟩
            exact hid hsame
      · intro hnot hconv w₁ hw₁
        rw [hstart] at hw₁
        cases hw₁
        have hfinished := (converges_iff_finished happly hstart hcut hnot).1 hconv
        cases hnext : startOf W definition run (lastDb db before) with
        | none => exact hfinished
        | some w' =>
          dsimp only
          rw [if_neg fun hid => hnot ((takesUp_iff hstart).2 ⟨w', hnext, hid⟩)]
          exact hfinished

/-! ## Two cuts of the spam rule -/

section SpamRule

def spamWorld : World where
  folders := [⟨1, 1, "INBOX", none, none, false⟩, ⟨2, 1, "Junk", some "junk", none, false⟩]
  spamEnabled := fun _ => true
  ordersEnabled := fun _ => false
  ordersReason := fun _ => none
  classify := fun _ => .error .unavailable
  lower := fun s => String.ofList (s.toList.map Char.toLower)
  pyStr := fun _ => ""
  reSearch := fun _ _ => none
  bareAddr := id

def spamPipeline (effects : List Effect) : PipelineDefinition where
  enabled := true
  revision := 1
  stages := [⟨"move-spam", .match none effects, true, false, none⟩]

def toJunk : Effect := .move ⟨none, some "junk", none⟩

def markSeen : Effect := .setFlags (some true) none none none

def spamMail : MessageRow where
  id := 7
  accountId := 1
  folderId := 1
  messageIdHdr := some "<a@b>"
  content := ⟨"<a@b>", "win", "x@example.com", [], "", 10, [], false⟩
  isDraft := false
  isSeen := false
  isFlagged := false
  isAnswered := false
  isDeleted := false
  keywords := ∅
  tags := ∅
  expunged := false

def spamDatabase : Database where
  messages := ⟨[spamMail], List.nodup_singleton _⟩
  verdicts := []
  orderJobs := []
  deliveries := []

def spamRun : PipelineRun := ⟨1, some 7, "<a@b>", .live, true⟩

/-- Cut between the move and the flag, the next run finds the message in junk, where
no run reads it: it stays unread. -/
theorem rerun_diverges_after_move :
    ∃ W definition run db before after,
      (executeRun W definition run db).applied = before ++ after ∧
        ¬Converges W definition run db before := by
  refine ⟨spamWorld, spamPipeline [toJunk, markSeen], spamRun, spamDatabase,
    (executeRun spamWorld (spamPipeline [toJunk, markSeen]) spamRun spamDatabase).applied.take 1,
    (executeRun spamWorld (spamPipeline [toJunk, markSeen]) spamRun spamDatabase).applied.drop 1,
    (List.take_append_drop 1 _).symm, ?_⟩
  intro h
  have hrow := h ⟨7, 1, ⟨1, "INBOX", none⟩, spamMail.content, false, false, false, ∅, ∅⟩ rfl
  have hseen := congrArg (Option.map MessageRow.isSeen) hrow
  revert hseen
  decide

/-- With the flag first, the run after the same cut marks the message once more and
moves it. -/
theorem rerun_converges_flag_first :
    Converges spamWorld (spamPipeline [markSeen, toJunk]) spamRun spamDatabase
      ((executeRun spamWorld (spamPipeline [markSeen, toJunk]) spamRun
        spamDatabase).applied.take 1) := by
  refine (rerun_converges _ _ _ _ _ ((executeRun spamWorld (spamPipeline [markSeen, toJunk])
    spamRun spamDatabase).applied.drop 1) (List.take_append_drop 1 _).symm).1 ?_
  intro w hw
  cases hw
  rfl

end SpamRule

end MailVerdict.Analysis.Pipeline
