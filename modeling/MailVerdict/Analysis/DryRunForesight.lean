import MailVerdict.Analysis.PipelineRerun

/-!
# What a dry run foresees

A dry run goes through the stages as the run itself would, over a view that only pretends. Two
things set them apart. A move leaves the pretended view in a folder called `(dry-run)`, which a
later stage may ask for; and an effect is reported applied without asking the tables whether it
would be: whether the message is expunged by then, or its verdict, its mail job or its delivery
is there already.

`Foreseen` names what each effect needs for its answer to be the real one and `runForeseen` says it
along the real run. A dry run then reports what the run records, stage by stage
(`report_of_foreseen`), and of a run that is recorded only then (`foreseen_of_report`).
-/

namespace MailVerdict.Analysis.Pipeline

open MailVerdict.Computation Model.Pipeline

variable {e : Effect} {d a : Applied} {o : StageOutcome}

/-! ## The condition -/

def Live (db : Database) (view : MessageView) : Prop :=
  (db.messages.find? view.messageId).any (fun r => !r.expunged) = true

/-- What an effect needs for the answer of a dry run to be the real one. -/
def Foreseen (W : World) (run : PipelineRun) (db : Database) (view : MessageView) : Effect → Prop
  | .move ref => resolve W.folders run.accountId ref = some view.folder.id ∨ Live db view
  | .trash =>
    resolve W.folders run.accountId ⟨none, some "trash", none⟩ = some view.folder.id ∨
      Live db view
  | .expunge => Live db view
  | .setFlags seen flagged answered deleted =>
    (seen = none ∧ flagged = none ∧ answered = none ∧ deleted = none) ∨ Live db view
  | .keywords add remove => (add = ∅ ∧ remove = ∅) ∨ Live db view
  | .tag _ _ | .notify _ => True
  | .recordVerdict _ _ _ =>
    hasAiVerdict db view.accountId view.content.msgKey view.content.fromAddr = false
  | .enqueueOrder _ => (view.accountId, view.content.msgKey) ∉ db.orderJobs
  | .webhook name _ => (name, view.accountId, view.content.msgKey) ∉ db.deliveries

/-- The same of a stage's effects, each where the ones before it left the message. -/
def effectsForeseen (W : World) (run : PipelineRun) (stageId : String) :
    Database → MessageView → List Effect → Prop
  | _, _, [] => True
  | db, view, e :: es =>
    match applyEffect W run stageId db view e with
    | .error _ => True
    | .ok a => Foreseen W run db view e ∧ effectsForeseen W run stageId a.db a.view es

/-- The view with the name a dry run gives the folder of a message it moved. -/
def pretended (moved : Bool) (view : MessageView) : MessageView :=
  if moved then { view with folder := { view.folder with imapName := "(dry-run)" } } else view

/-- A stage's conditions do not tell the pretended folder from the real one. -/
def ConditionForeseen (W : World) (moved : Bool) (w : Worker) : StageConfig → Prop
  | .match when _ =>
    matchesMessage W when (pretended moved w.view) w.verdict =
      matchesMessage W when w.view w.verdict
  | .classify | .orders => True

def takesTurn (run : PipelineRun) (stage : StageDefinition) : Bool :=
  stage.enabled && stage.config.runsOn run.origin &&
    match stage.accounts with
    | some accounts => decide (run.accountId ∈ accounts)
    | none => true

def moves : Effect → Bool
  | .move _ | .trash => true
  | _ => false

def movedBy (as : List AppliedEffect) : Bool := as.any fun a => a.applied && moves a.effect

/-- The condition along the stages of the real run; `moved` says whether an effect before them
moved the message. -/
def runForeseen (W : World) (run : PipelineRun) : List StageDefinition → Bool → Worker → Prop
  | [], _, _ => True
  | stage :: rest, moved, w =>
    (takesTurn run stage = true → ConditionForeseen W moved w stage.config) ∧
      match stageTurn W run w stage with
      | .error _ => True
      | .ok none => runForeseen W run rest moved w
      | .ok (some outcome) =>
        let r := applyEffects W run stage.stageId w.db w.view outcome.effects
        effectsForeseen W run stage.stageId w.db w.view outcome.effects ∧
          (r.error = none → halts stage outcome = false →
            runForeseen W run rest (moved || movedBy r.applied) (w.next r))

/-! ## Two views of one message -/

/-- The view of a dry run beside the real one: the same but for the name and the use of the
folder, and the name is the pretended one once the message was moved. -/
structure Beside (moved : Bool) (dview view : MessageView) : Prop where
  same : dview = { view with folder := dview.folder }
  folderId : dview.folder.id = view.folder.id
  name : dview.folder.imapName = if moved then "(dry-run)" else view.folder.imapName

theorem beside_refl (view : MessageView) : Beside false view view where
  same := rfl
  folderId := rfl
  name := rfl

section Beside

variable {moved : Bool} {dview view : MessageView}

theorem Beside.content (h : Beside moved dview view) : dview.content = view.content := by
  rw [h.same]

theorem Beside.matches (h : Beside moved dview view) (W : World) (when : Option Condition)
    (verdict : Option Bool) :
    matchesMessage W when dview verdict = matchesMessage W when (pretended moved view) verdict := by
  have hctx : mailContext W dview verdict = mailContext W (pretended moved view) verdict := by
    have hname := h.name
    rw [h.same]
    cases moved with
    | true =>
      rw [if_pos rfl] at hname
      simp only [mailContext, pretended, if_true]
      rw [hname]
    | false =>
      rw [if_neg Bool.false_ne_true] at hname
      simp only [mailContext, pretended, Bool.false_eq_true, if_false]
      rw [hname]
  cases when with
  | none => rfl
  | some c => rw [matchesMessage, matchesMessage, hctx]

theorem Beside.toFolder (h : Beside moved dview view) {target : Uuid} {use : Option String}
    {real : FolderView} (hreal : real.id = target) :
    Beside true (withFolder dview ⟨target, "(dry-run)", use⟩) (withFolder view real) where
  same := by
    rw [withFolder, withFolder, h.same]
  folderId := hreal.symm
  name := rfl

theorem Beside.flags (h : Beside moved dview view) (seen flagged : Option Bool) :
    Beside moved (projectFlags dview seen flagged) (projectFlags view seen flagged) where
  same := by
    rw [projectFlags, projectFlags, h.same]
  folderId := h.folderId
  name := h.name

theorem Beside.keywords (h : Beside moved dview view) (add remove : Finset String) :
    Beside moved (withKeywords dview add remove) (withKeywords view add remove) where
  same := by
    rw [withKeywords, withKeywords, h.same]
  folderId := h.folderId
  name := h.name

theorem Beside.tags (h : Beside moved dview view) (add remove : Finset String) :
    Beside moved (withTags dview add remove) (withTags view add remove) where
  same := by
    rw [withTags, withTags, h.same]
  folderId := h.folderId
  name := h.name

end Beside

/-! ## One effect -/

/-- A row that rehearses another: it is for the same account and origin, and applies nothing. -/
structure Rehearses (dry run : PipelineRun) : Prop where
  account : dry.accountId = run.accountId
  origin : dry.origin = run.origin
  pretends : dry.apply = false
  applies : run.apply = true

structure EffectAgrees (W : World) (run : PipelineRun) (db : Database) (view : MessageView)
    (moved : Bool) (e : Effect) (d a : Applied) : Prop where
  iff : d.applied = a.applied ↔ Foreseen W run db view e
  beside : Foreseen W run db view e → Beside (moved || (a.applied && moves e)) d.view a.view

section Effects

variable {W : World} {run dry : PipelineRun} {stageId : String} {db ddb : Database}
  {view dview : MessageView} {r : MessageRow} {moved : Bool}

theorem live_iff (ht : Tracks db view r) : Live db view ↔ r.expunged = false := by
  rw [Live, ht.found, Option.any_some, Bool.not_eq_true']

theorem guarded_rowcount {f : MessageRow → MessageRow} {h : ∀ r, (f r).id = r.id}
    (ht : Tracks db view r) :
    (updateMessages db (fun r => decide (r.id = view.messageId) && !r.expunged) f h).2 ≠ 0 ↔
      r.expunged = false := by
  rw [updateMessages_rowcount guarded_only ht.found, Bool.and_eq_true, decide_eq_true_eq,
    Bool.not_eq_true']
  exact ⟨And.right, fun hlive => ⟨ht.id_eq, hlive⟩⟩

theorem move_rowcount (target : Uuid) (ht : Tracks db view r) :
    (moveMessageGuarded db view.messageId target view.folder.id).2 ≠ 0 ↔ r.expunged = false := by
  have honly : ∀ s : MessageRow, (decide (s.id = view.messageId) && !s.expunged &&
      decide (s.folderId = view.folder.id)) = true → s.id = view.messageId := by
    intro s hs
    rw [Bool.and_eq_true, Bool.and_eq_true, decide_eq_true_eq] at hs
    exact hs.1.1
  have hcount := updateMessages_rowcount (f := setFolder target) (h := fun _ => rfl) honly ht.found
  rw [Bool.and_eq_true, Bool.and_eq_true, decide_eq_true_eq, decide_eq_true_eq,
    Bool.not_eq_true'] at hcount
  refine hcount.trans ⟨fun h => h.1.2, fun hlive => ⟨⟨ht.id_eq, hlive⟩, ht.folder hlive⟩⟩

theorem applyMove_agrees (ddb : Database) (target : Uuid) (use : Option String)
    {real : FolderView} (hreal : real.id = target) (ht : Tracks db view r)
    (hb : Beside moved dview view) :
    let d := applyMove false ddb dview target ⟨target, "(dry-run)", use⟩ real
    let a := applyMove true db view target ⟨target, "(dry-run)", use⟩ real
    (d.applied = a.applied ↔ target = view.folder.id ∨ Live db view) ∧
      (target = view.folder.id ∨ Live db view →
        Beside (moved || (a.applied && true)) d.view a.view) := by
  intro d a
  by_cases hhere : target = view.folder.id
  · have hd : d = ⟨ddb, dview, false⟩ := if_pos (hhere.trans hb.folderId.symm)
    have ha : a = ⟨db, view, false⟩ := if_pos hhere
    rw [hd, ha]
    refine ⟨iff_of_true rfl (Or.inl hhere), fun _ => ?_⟩
    rw [Bool.false_and, Bool.or_false]
    exact hb
  · have hd : d = ⟨ddb, withFolder dview ⟨target, "(dry-run)", use⟩, true⟩ := by
      have hneither : ¬ target = dview.folder.id := fun h => hhere (h.trans hb.folderId)
      exact (if_neg hneither).trans (if_pos rfl)
    cases hgone : r.expunged with
    | true =>
      have hzero : ¬ (moveMessageGuarded db view.messageId target view.folder.id).2 ≠ 0 := by
        intro h
        rw [(move_rowcount target ht).1 h] at hgone
        cases hgone
      have ha : a.applied = false := by
        simp only [a, applyMove, if_neg hhere, Bool.not_true, Bool.false_eq_true, if_false,
          if_neg hzero]
      have hdead : ¬ (target = view.folder.id ∨ Live db view) := by
        rw [live_iff ht, hgone]
        rintro (h | h)
        · exact hhere h
        · cases h
      rw [hd, ha]
      exact ⟨iff_of_false Bool.noConfusion hdead, fun h => absurd h hdead⟩
    | false =>
      have hone := (move_rowcount target ht).2 hgone
      have ha : a.applied = true ∧ a.view = withFolder view real := by
        simp only [a, applyMove, if_neg hhere, Bool.not_true, Bool.false_eq_true, if_false,
          if_pos hone, and_self]
      have hlive : target = view.folder.id ∨ Live db view := Or.inr ((live_iff ht).2 hgone)
      rw [hd, ha.1, ha.2]
      refine ⟨iff_of_true rfl hlive, fun _ => ?_⟩
      rw [Bool.and_true, Bool.or_true]
      exact hb.toFolder hreal

theorem agrees_of_pretended (hmoves : moves e = false)
    (hd : d.applied = true) (ha : a.applied = true ↔ Foreseen W run db view e)
    (hb : Foreseen W run db view e → Beside moved d.view a.view) :
    EffectAgrees W run db view moved e d a where
  iff := by
    rw [hd, ← ha]
    exact eq_comm
  beside h := by
    rw [hmoves, Bool.and_false, Bool.or_false]
    exact hb h

theorem agrees_of_nothing (hd : d = ⟨ddb, dview, false⟩)
    (ha : a = ⟨db, view, false⟩) (hforeseen : Foreseen W run db view e)
    (hb : Beside moved dview view) : EffectAgrees W run db view moved e d a where
  iff := by
    rw [hd, ha]
    exact iff_of_true rfl hforeseen
  beside _ := by
    rw [hd, ha, Bool.false_and, Bool.or_false]
    exact hb

theorem agrees_of_guarded {set : Database × ℕ}
    {dview' view' : MessageView} (ht : Tracks db view r) (hmoves : moves e = false)
    (hforeseen : Foreseen W run db view e ↔ Live db view)
    (hcount : set.2 ≠ 0 ↔ r.expunged = false) (hd : d = ⟨ddb, dview', true⟩)
    (ha : a = if set.2 ≠ 0 then ⟨set.1, view', true⟩ else ⟨set.1, view, false⟩)
    (hb : Beside moved dview' view') : EffectAgrees W run db view moved e d a := by
  by_cases hrows : set.2 ≠ 0
  · rw [if_pos hrows] at ha
    apply agrees_of_pretended hmoves (congrArg Applied.applied hd)
    · rw [ha, hforeseen]
      exact iff_of_true rfl ((live_iff ht).2 (hcount.1 hrows))
    · intro _
      rw [hd, ha]
      exact hb
  · rw [if_neg hrows] at ha
    have hdead : ¬ Foreseen W run db view e := by
      rw [hforeseen, live_iff ht]
      exact fun h => hrows (hcount.2 h)
    apply agrees_of_pretended hmoves (congrArg Applied.applied hd)
    · rw [ha]
      exact iff_of_false Bool.false_ne_true hdead
    · exact fun h => absurd h hdead

/-- One effect, rehearsed and for real, beside the same mail. -/
theorem applyEffect_agrees (hdry : Rehearses dry run) (ht : Tracks db view r)
    (hb : Beside moved dview view)
    (hd : applyEffect W dry stageId ddb dview e = .ok d)
    (ha : applyEffect W run stageId db view e = .ok a) :
    EffectAgrees W run db view moved e d a := by
  have hlive := live_iff ht
  cases e <;> simp only [applyEffect, hdry.account, hdry.pretends, hdry.applies, Bool.not_false,
    Bool.not_true, if_true, Bool.false_eq_true, if_false] at hd ha
  case move ref =>
    cases htarget : resolve W.folders run.accountId ref with
    | none =>
      rw [htarget] at hd
      cases hd
    | some target =>
      rw [htarget] at hd ha
      cases hd
      cases ha
      have hreal := resolveFolderView_id W.folders target ref.specialUse
      obtain ⟨hiff, hbeside⟩ := applyMove_agrees ddb target ref.specialUse hreal ht hb
      constructor
      · rw [Foreseen, htarget, Option.some.injEq]
        exact hiff
      · rw [Foreseen, htarget, Option.some.injEq]
        exact hbeside
  case trash =>
    cases htarget : resolve W.folders run.accountId ⟨none, some "trash", none⟩ with
    | none =>
      rw [htarget] at hd
      cases hd
    | some target =>
      rw [htarget] at hd ha
      cases hd
      cases ha
      have hreal : (FolderView.mk target view.folder.imapName (some "trash")).id = target := rfl
      obtain ⟨hiff, hbeside⟩ := applyMove_agrees ddb target (some "trash") hreal ht hb
      constructor
      · rw [Foreseen, htarget, Option.some.injEq]
        exact hiff
      · rw [Foreseen, htarget, Option.some.injEq]
        exact hbeside
  case expunge =>
    cases hd
    cases ha
    apply agrees_of_pretended rfl rfl
    · rw [decide_eq_true_eq, Foreseen, hlive]
      exact guarded_rowcount ht
    · exact fun _ => hb
  case setFlags seen flagged answered deleted =>
    by_cases hnone : seen = none ∧ flagged = none ∧ answered = none ∧ deleted = none
    · rw [if_pos hnone] at hd ha
      exact agrees_of_nothing (Except.ok.inj hd).symm (Except.ok.inj ha).symm (Or.inl hnone) hb
    · rw [if_neg hnone] at hd ha
      rw [← apply_ite Except.ok] at ha
      exact agrees_of_guarded ht rfl (or_iff_right hnone) (guarded_rowcount ht)
        (Except.ok.inj hd).symm (Except.ok.inj ha).symm (hb.flags seen flagged)
  case keywords add remove =>
    by_cases hnone : add = ∅ ∧ remove = ∅
    · rw [if_pos hnone] at hd ha
      exact agrees_of_nothing (Except.ok.inj hd).symm (Except.ok.inj ha).symm (Or.inl hnone) hb
    · rw [if_neg hnone] at hd ha
      rw [← apply_ite Except.ok] at ha
      exact agrees_of_guarded ht rfl (or_iff_right hnone) (guarded_rowcount ht)
        (Except.ok.inj hd).symm (Except.ok.inj ha).symm (hb.keywords add remove)
  case tag add remove =>
    cases hd
    cases ha
    apply agrees_of_pretended rfl rfl
    · exact iff_of_true rfl trivial
    · exact fun _ => hb.tags add remove
  case recordVerdict isSpam reasoning model =>
    cases hd
    cases ha
    apply agrees_of_pretended rfl rfl
    · rw [Foreseen, recordVerdict]
      by_cases hthere : hasAiVerdict db view.accountId view.content.msgKey
          view.content.fromAddr = true
      · rw [if_pos hthere, hthere]
        exact iff_of_false Bool.false_ne_true Bool.noConfusion
      · rw [if_neg hthere, eq_false_of_ne_true hthere]
        exact iff_of_true rfl rfl
    · exact fun _ => hb
  case notify text =>
    cases hd
    cases ha
    apply agrees_of_pretended rfl rfl
    · exact iff_of_true rfl trivial
    · exact fun _ => hb
  case enqueueOrder reason =>
    cases hd
    cases ha
    apply agrees_of_pretended rfl rfl
    · rw [Foreseen, enqueueOrderMailJob]
      split
      · rename_i hthere
        exact iff_of_false Bool.false_ne_true (not_not.2 hthere)
      · rename_i hthere
        exact iff_of_true rfl hthere
    · exact fun _ => hb
  case webhook name url =>
    cases hd
    cases ha
    apply agrees_of_pretended rfl rfl
    · rw [Foreseen, enqueueWebhookDelivery]
      split
      · rename_i hthere
        exact iff_of_false Bool.false_ne_true (not_not.2 hthere)
      · rename_i hthere
        exact iff_of_true rfl hthere
    · exact fun _ => hb

end Effects

/-! ## The effects of a stage -/

section Stage

variable {W : World} {run dry : PipelineRun} {stageId : String} {db ddb : Database}
  {view dview : MessageView} {r : MessageRow} {moved : Bool}

def outcomeOf (a : AppliedEffect) : Effect × Bool := (a.effect, a.applied)

theorem misconfigured_congr (h : dry.accountId = run.accountId) (e : Effect) :
    misconfigured W dry e = misconfigured W run e := by
  cases e with
  | move ref | trash => rw [misconfigured, misconfigured, h]
  | expunge | setFlags | keywords | tag | recordVerdict | notify | enqueueOrder | webhook => rfl

theorem applyEffects_error_congr (h : dry.accountId = run.accountId) (es : List Effect) :
    (applyEffects W dry stageId ddb dview es).error
      = (applyEffects W run stageId db view es).error := by
  induction es generalizing db ddb view dview with
  | nil => rfl
  | cons e es ih =>
    have hsame := misconfigured_congr (W := W) h e
    rw [applyEffects, applyEffects]
    cases he : misconfigured W run e with
    | true =>
      rw [applyEffect_misconfigured he, applyEffect_misconfigured (hsame.trans he)]
    | false =>
      obtain ⟨a, ha⟩ : ∃ a, applyEffect W run stageId db view e = .ok a :=
        applyEffect_configured he
      obtain ⟨d, hd⟩ : ∃ d, applyEffect W dry stageId ddb dview e = .ok d :=
        applyEffect_configured (hsame.trans he)
      rw [ha, hd]
      exact ih

/-- The effects of a stage, one after the other. -/
theorem applyEffects_agree (stageId : String) (ddb : Database) (hdry : Rehearses dry run)
    (es : List Effect) (ht : Tracks db view r) (hb : Beside moved dview view) :
    let d := applyEffects W dry stageId ddb dview es
    let a := applyEffects W run stageId db view es
    (d.applied.map outcomeOf = a.applied.map outcomeOf ↔
      effectsForeseen W run stageId db view es) ∧
      (effectsForeseen W run stageId db view es →
        Beside (moved || movedBy a.applied) d.view a.view) := by
  induction es generalizing db ddb view dview r moved with
  | nil =>
    refine ⟨iff_of_true rfl trivial, fun _ => ?_⟩
    show Beside (moved || false) dview view
    rw [Bool.or_false]
    exact hb
  | cons e es ih =>
    have hsame := misconfigured_congr (W := W) hdry.account e
    rw [applyEffects, applyEffects, effectsForeseen]
    cases he : misconfigured W run e with
    | true =>
      rw [applyEffect_misconfigured he, applyEffect_misconfigured (hsame.trans he)]
      refine ⟨iff_of_true rfl trivial, fun _ => ?_⟩
      show Beside (moved || false) dview view
      rw [Bool.or_false]
      exact hb
    | false =>
      obtain ⟨a, ha⟩ : ∃ a, applyEffect W run stageId db view e = .ok a :=
        applyEffect_configured he
      obtain ⟨d, hd⟩ : ∃ d, applyEffect W dry stageId ddb dview e = .ok d :=
        applyEffect_configured (hsame.trans he)
      have hone := applyEffect_agrees hdry ht hb hd ha
      have hrest := applyEffect_tracks hdry.applies ha ht
      rw [ha, hd]
      dsimp only
      rw [List.map_cons, List.map_cons, List.cons_eq_cons, outcomeOf, outcomeOf,
        Prod.mk.injEq, eq_self_iff_true, true_and, hone.iff]
      constructor
      · apply and_congr_right
        intro hforeseen
        exact (ih d.db hrest (hone.beside hforeseen)).1
      · intro hforeseen
        have hview := (ih d.db hrest (hone.beside hforeseen.1)).2 hforeseen.2
        rw [Bool.or_assoc] at hview
        exact hview

end Stage

/-! ## The turn of a stage -/

/-- What the stages of a dry run read is what those of the run read, but for the view. -/
structure Alongside (moved : Bool) (dw w : Worker) : Prop where
  view : Beside moved dw.view w.view
  verdict : dw.verdict = w.verdict
  hasAiVerdict : dw.hasAiVerdict = w.hasAiVerdict

section Turn

variable {W : World} {run dry : PipelineRun} {stage : StageDefinition} {w dw : Worker}
  {moved : Bool}

theorem stageTurn_eq (W : World) (run : PipelineRun) (w : Worker) (stage : StageDefinition) :
    stageTurn W run w stage =
      if takesTurn run stage = true then (execute W run w stage.config).map some else .ok none := by
  rw [stageTurn, takesTurn]
  cases stage.enabled with
  | false => rfl
  | true =>
    cases stage.config.runsOn run.origin with
    | false => rfl
    | true =>
      cases stage.accounts with
      | none => rfl
      | some accounts =>
        by_cases hin : run.accountId ∈ accounts
        · simp [hin]
        · simp [hin]

theorem takesTurn_congr (hdry : Rehearses dry run) (stage : StageDefinition) :
    takesTurn dry stage = takesTurn run stage := by
  rw [takesTurn, takesTurn, hdry.account, hdry.origin]

theorem execute_foreseen (hdry : Rehearses dry run) (h : Alongside moved dw w)
    {config : StageConfig} (hcondition : ConditionForeseen W moved w config) :
    execute W dry dw config = execute W run w config := by
  cases config with
  | «match» when effects =>
    rw [ConditionForeseen] at hcondition
    rw [execute, execute, h.view.matches, h.verdict, hcondition]
  | classify => rw [execute, execute, hdry.account, h.hasAiVerdict, h.view.content]
  | orders => rw [execute, execute, hdry.account, h.verdict, h.view.content]

theorem execute_match_eq {when : Option Condition} {effects : List Effect}
    (h : execute W run w (.match when effects) = .ok o) :
    matchesMessage W when w.view w.verdict = .ok o.matched := by
  rw [execute] at h
  split at h
  · cases h
  · rename_i hfalse
    cases h
    exact hfalse
  · rename_i htrue
    cases h
    exact htrue

theorem condition_of_matched (h : Alongside moved dw w) {config : StageConfig}
    {o' : StageOutcome} (hreal : execute W run w config = .ok o)
    (hpretended : execute W dry dw config = .ok o') (hmatched : o'.matched = o.matched) :
    ConditionForeseen W moved w config := by
  cases config with
  | «match» when effects =>
    have ho := execute_match_eq hreal
    have ho' := execute_match_eq hpretended
    rw [h.view.matches, h.verdict, hmatched] at ho'
    exact ho'.trans ho.symm
  | classify => trivial
  | orders => trivial

theorem stageTurn_foreseen (hdry : Rehearses dry run) (h : Alongside moved dw w)
    (hcondition : takesTurn run stage = true → ConditionForeseen W moved w stage.config) :
    stageTurn W dry dw stage = stageTurn W run w stage := by
  rw [stageTurn_eq, stageTurn_eq, takesTurn_congr hdry]
  by_cases hturn : takesTurn run stage = true
  · rw [if_pos hturn, if_pos hturn, execute_foreseen hdry h (hcondition hturn)]
  · rw [if_neg hturn, if_neg hturn]

theorem projectVerdict_congr {verdict : Option Bool} {as bs : List AppliedEffect}
    (h : as.map outcomeOf = bs.map outcomeOf) :
    projectVerdict verdict as = projectVerdict verdict bs := by
  induction as generalizing bs with
  | nil =>
    have hnil : bs = [] := List.map_eq_nil_iff.1 h.symm
    rw [hnil]
  | cons a as ih =>
    cases bs with
    | nil => cases h
    | cons b bs =>
      rw [List.map_cons, List.map_cons, List.cons_eq_cons, outcomeOf, outcomeOf,
        Prod.mk.injEq] at h
      rw [projectVerdict, projectVerdict, h.1.1, h.1.2, ih h.2]

end Turn

/-! ## The report of the stages -/

def withEntry (entry : StageReport) : Report → Report
  | .failed x => .failed x
  | .recorded exit stages => .recorded exit (entry :: stages)

def entriesOf : Report → List StageReport
  | .failed _ => []
  | .recorded _ stages => stages

theorem withEntry_injective (entry : StageReport) : (withEntry entry).Injective := by
  intro a b h
  cases a <;> cases b <;> simp_all [withEntry]

theorem withEntry_failed {entry : StageReport} {report : Report} {x : StageError}
    (h : report = .failed x) : withEntry entry report = .failed x := by
  rw [h, withEntry]

theorem report_cons (e : TraceEntry) (log : RunResult) :
    ({ log with trace := e :: log.trace } : RunResult).report = withEntry e.report log.report := by
  unfold RunResult.report
  cases log.exit <;> rfl

section Stages

variable {W : World} {run dry : PipelineRun} {stage : StageDefinition}
  {rest : List StageDefinition} {w dw : Worker} {r : MessageRow} {moved : Bool}

theorem report_of_error {x : StageError} (h : stageTurn W run w stage = .error x) :
    (runStages W run (stage :: rest) w).report = .failed x := by
  rw [runStages, h]
  rfl

theorem report_of_passed (h : stageTurn W run w stage = .ok none) :
    (runStages W run (stage :: rest) w).report =
      if stage.enabled = true then
        withEntry ⟨stage.stageId, false, false, []⟩ (runStages W run rest w).report
      else (runStages W run rest w).report := by
  rw [runStages, h]
  dsimp only
  split
  · rw [report_cons]
    rfl
  · rfl

def entryOf (stage : StageDefinition) (o : StageOutcome) (r : EffectsResult) : StageReport :=
  ⟨stage.stageId, o.matched, halts stage o, r.applied.map outcomeOf⟩

theorem report_of_turn (h : stageTurn W run w stage = .ok (some o)) :
    let r := applyEffects W run stage.stageId w.db w.view o.effects
    (runStages W run (stage :: rest) w).report =
      match r.error with
      | some x => .failed x
      | none =>
        if halts stage o = true then
          .recorded (.done (some stage.stageId)) [entryOf stage o r]
        else withEntry (entryOf stage o r) (runStages W run rest (w.next r)).report := by
  intro r
  rw [runStages, h]
  dsimp only
  cases herror : (applyEffects W run stage.stageId w.db w.view o.effects).error with
  | some x => rfl
  | none =>
    dsimp only
    split
    · rfl
    · rw [report_cons]
      rfl

theorem report_of_next (h : stageTurn W run w stage = .ok (some o))
    (herror : (applyEffects W run stage.stageId w.db w.view o.effects).error = none)
    (hgoes : halts stage o = false) :
    let r := applyEffects W run stage.stageId w.db w.view o.effects
    (runStages W run (stage :: rest) w).report =
      withEntry (entryOf stage o r) (runStages W run rest (w.next r)).report := by
  intro r
  rw [report_of_turn h, herror]
  exact if_neg (ne_true_of_eq_false hgoes)

theorem entriesOf_turn (h : stageTurn W run w stage = .ok (some o))
    (hrecorded : ∀ x, (runStages W run (stage :: rest) w).report ≠ .failed x) :
    let r := applyEffects W run stage.stageId w.db w.view o.effects
    r.error = none ∧ ∃ later,
      entriesOf (runStages W run (stage :: rest) w).report = entryOf stage o r :: later := by
  intro r
  have hreport : (runStages W run (stage :: rest) w).report =
      match r.error with
      | some x => .failed x
      | none =>
        if halts stage o = true then
          .recorded (.done (some stage.stageId)) [entryOf stage o r]
        else withEntry (entryOf stage o r) (runStages W run rest (w.next r)).report :=
    report_of_turn h
  cases herror : r.error with
  | some x =>
    rw [herror] at hreport
    exact absurd hreport (hrecorded x)
  | none =>
    rw [herror] at hreport
    refine ⟨rfl, ?_⟩
    dsimp only at hreport
    rw [hreport]
    split
    · exact ⟨[], rfl⟩
    · rename_i hgoes
      rw [if_neg hgoes] at hreport
      cases htail : (runStages W run rest (w.next r)).report with
      | failed x =>
        rw [withEntry_failed htail] at hreport
        exact absurd hreport (hrecorded x)
      | recorded exit stages => exact ⟨stages, rfl⟩

theorem alongside_next (hdry : Rehearses dry run) (h : Alongside moved dw w)
    (ht : Tracks w.db w.view r) {stageId : String} {es : List Effect}
    (hforeseen : effectsForeseen W run stageId w.db w.view es) :
    let d := applyEffects W dry stageId dw.db dw.view es
    let a := applyEffects W run stageId w.db w.view es
    Alongside (moved || movedBy a.applied) (dw.next d) (w.next a) := by
  obtain ⟨hlist, hview⟩ := applyEffects_agree (W := W) stageId dw.db hdry es ht h.view
  constructor
  · exact hview hforeseen
  · show projectVerdict dw.verdict _ = projectVerdict w.verdict _
    rw [h.verdict]
    exact projectVerdict_congr (hlist.2 hforeseen)
  · exact h.hasAiVerdict

theorem tracks_next (hdry : Rehearses dry run) (stageId : String) (es : List Effect)
    (ht : Tracks w.db w.view r) :
    let a := applyEffects W run stageId w.db w.view es
    Tracks (w.next a).db (w.next a).view (replay (commit W run) r (effectsOf a.applied)) :=
  (applyEffects_tracks hdry.applies es ht).2

/-- What was foreseen stage by stage is reported alike. -/
theorem report_of_foreseen (hdry : Rehearses dry run) (stages : List StageDefinition)
    (h : Alongside moved dw w) (ht : Tracks w.db w.view r)
    (hforeseen : runForeseen W run stages moved w) :
    (runStages W dry stages dw).report = (runStages W run stages w).report := by
  induction stages generalizing moved w dw r with
  | nil => rfl
  | cons stage rest ih =>
    rw [runForeseen] at hforeseen
    obtain ⟨hcondition, hrest⟩ := hforeseen
    have hsame := stageTurn_foreseen hdry h hcondition
    cases hturn : stageTurn W run w stage with
    | error x => rw [report_of_error hturn, report_of_error (hsame.trans hturn)]
    | ok turn =>
      rw [hturn] at hrest hsame
      cases turn with
      | none => rw [report_of_passed hturn, report_of_passed hsame, ih h ht hrest]
      | some o =>
        obtain ⟨heffects, hrest⟩ := hrest
        have hlist := (applyEffects_agree stage.stageId dw.db hdry o.effects ht h.view).1.2
          heffects
        have hentry : entryOf stage o (applyEffects W dry stage.stageId dw.db dw.view o.effects)
            = entryOf stage o (applyEffects W run stage.stageId w.db w.view o.effects) := by
          rw [entryOf, entryOf, hlist]
        have herror : (applyEffects W dry stage.stageId dw.db dw.view o.effects).error
            = (applyEffects W run stage.stageId w.db w.view o.effects).error :=
          applyEffects_error_congr hdry.account o.effects
        rw [report_of_turn hturn, report_of_turn hsame, herror, hentry]
        cases hraised : (applyEffects W run stage.stageId w.db w.view o.effects).error with
        | some x => rfl
        | none =>
          by_cases hhalts : halts stage o = true
          · rw [if_pos hhalts, if_pos hhalts]
          · rw [if_neg hhalts, if_neg hhalts]
            have hnext := tracks_next (W := W) hdry stage.stageId o.effects ht
            rw [ih (alongside_next hdry h ht heffects) hnext
              (hrest hraised (eq_false_of_ne_true hhalts))]

/-- A rehearsal that reports what the run reports has foreseen every stage of it. -/
theorem foreseen_of_report (hdry : Rehearses dry run) (stages : List StageDefinition)
    (h : Alongside moved dw w) (ht : Tracks w.db w.view r)
    (hrecorded : ∀ x, (runStages W run stages w).report ≠ .failed x)
    (hreport : (runStages W dry stages dw).report = (runStages W run stages w).report) :
    runForeseen W run stages moved w := by
  induction stages generalizing moved w dw r with
  | nil => trivial
  | cons stage rest ih =>
    have hreal := stageTurn_eq W run w stage
    have hpretended := stageTurn_eq W dry dw stage
    rw [takesTurn_congr hdry] at hpretended
    rw [runForeseen]
    by_cases hturn : takesTurn run stage = true
    · rw [if_pos hturn] at hreal hpretended
      cases ho : execute W run w stage.config with
      | error x =>
        rw [ho] at hreal
        exact absurd (report_of_error hreal) (hrecorded x)
      | ok o =>
        cases ho' : execute W dry dw stage.config with
        | error x =>
          rw [ho'] at hpretended
          rw [report_of_error hpretended] at hreport
          exact absurd hreport.symm (hrecorded x)
        | ok o' =>
          rw [ho] at hreal
          rw [ho'] at hpretended
          -- both reports start with the stage's entry
          have hrecorded' : ∀ x, (runStages W dry (stage :: rest) dw).report ≠ .failed x := by
            rw [hreport]
            exact hrecorded
          obtain ⟨herror, later, hhead⟩ := entriesOf_turn hreal hrecorded
          obtain ⟨herror', later', hhead'⟩ := entriesOf_turn hpretended hrecorded'
          rw [hreport, hhead] at hhead'
          have hentry := (List.cons_eq_cons.1 hhead').1.symm
          have hcondition := condition_of_matched h ho ho'
            (congrArg StageReport.matched hentry)
          have hsame : o' = o := by
            rw [execute_foreseen hdry h hcondition, ho] at ho'
            exact (Except.ok.inj ho').symm
          rw [hsame] at hentry hpretended herror'
          have hagree := applyEffects_agree (W := W) stage.stageId dw.db hdry o.effects ht
            h.view
          have heffects := hagree.1.1 (congrArg StageReport.effects hentry)
          refine ⟨fun _ => hcondition, ?_⟩
          rw [hreal]
          refine ⟨heffects, fun _ hgoes => ?_⟩
          rw [report_of_next hreal herror hgoes, report_of_next hpretended herror' hgoes,
            hentry] at hreport
          rw [report_of_next hreal herror hgoes] at hrecorded
          have hnext := tracks_next (W := W) hdry stage.stageId o.effects ht
          exact ih (alongside_next hdry h ht heffects) hnext
            (fun x hx => hrecorded x (withEntry_failed hx)) (withEntry_injective _ hreport)
    · rw [if_neg hturn] at hreal hpretended
      refine ⟨fun hyes => absurd hyes hturn, ?_⟩
      rw [hreal]
      rw [report_of_passed hreal, report_of_passed hpretended] at hreport
      rw [report_of_passed hreal] at hrecorded
      by_cases hon : stage.enabled = true
      · simp only [if_pos hon] at hreport hrecorded
        exact ih h ht (fun x hx => hrecorded x (withEntry_failed hx))
          (withEntry_injective _ hreport)
      · simp only [if_neg hon] at hreport hrecorded
        exact ih h ht hrecorded hreport

end Stages

/-! ## Dry runs -/

/-- What a dry run needs to report what the run it rehearses records: the same message to load,
and what `runForeseen` asks of the stages. -/
def RunForeseen (W : World) (definition : PipelineDefinition) (dry run : PipelineRun)
    (db : Database) : Prop :=
  definition.enabled = true →
    loadView W db dry = loadView W db run ∧
      ∀ view, loadView W db run = some view → outOfScope view = false →
        runForeseen W run definition.stages false (startWorker db view run.accountId)

def skips : Report → Bool
  | .recorded (.skipped _) _ => true
  | _ => false

theorem skips_withEntry (entry : StageReport) (report : Report) :
    skips (withEntry entry report) = skips report := by
  cases report with
  | failed x => rfl
  | recorded exit stages => cases exit <;> rfl

section Rehearsal

variable {W : World} {run dry : PipelineRun} {definition : PipelineDefinition} {db : Database}

theorem runStages_skips (stages : List StageDefinition) (w : Worker) :
    skips (runStages W run stages w).report = false := by
  induction stages generalizing w with
  | nil => rfl
  | cons stage rest ih =>
    cases hturn : stageTurn W run w stage with
    | error x =>
      rw [report_of_error hturn]
      rfl
    | ok turn =>
      cases turn with
      | none =>
        rw [report_of_passed hturn]
        split
        · rw [skips_withEntry]
          exact ih w
        · exact ih w
      | some o =>
        rw [report_of_turn hturn]
        cases (applyEffects W run stage.stageId w.db w.view o.effects).error with
        | some x => rfl
        | none =>
          dsimp only
          split
          · rfl
          · rw [skips_withEntry]
            exact ih _

theorem rehearses_live (accountId messageId : Uuid) (msgKey : String) (origin : Origin) :
    Rehearses (dryRow accountId messageId origin) (liveRow accountId messageId msgKey origin) where
  account := rfl
  origin := rfl
  pretends := rfl
  applies := rfl

theorem executeRun_disabled (h : definition.enabled = false) :
    executeRun W definition run db = ⟨[], db, .skipped "pipeline disabled"⟩ := by
  rw [executeRun, h]
  rfl

theorem executeRun_gone (hon : definition.enabled = true) (h : loadView W db run = none) :
    executeRun W definition run db = ⟨[], db, .skipped "message gone"⟩ := by
  rw [executeRun, hon, h]
  rfl

theorem executeRun_loaded {view : MessageView} (hon : definition.enabled = true)
    (h : loadView W db run = some view) :
    executeRun W definition run db =
      if outOfScope view = true then ⟨[], db, .skipped "out of scope (folder or draft)"⟩
      else runStages W run definition.stages (startWorker db view run.accountId) := by
  rw [executeRun, hon, h]
  rfl

theorem alongside_start (view : MessageView) (accountId : Uuid) :
    Alongside false (startWorker db view accountId) (startWorker db view accountId) where
  view := beside_refl view
  verdict := rfl
  hasAiVerdict := rfl

theorem reports_of_foreseen (hdry : Rehearses dry run) (h : RunForeseen W definition dry run db) :
    (executeRun W definition dry db).report = (executeRun W definition run db).report := by
  cases hon : definition.enabled with
  | false => rw [executeRun_disabled hon, executeRun_disabled hon]
  | true =>
    obtain ⟨hload, hstages⟩ := h hon
    cases hview : loadView W db run with
    | none => rw [executeRun_gone hon hview, executeRun_gone hon (hload.trans hview)]
    | some view =>
      rw [executeRun_loaded hon hview, executeRun_loaded hon (hload.trans hview)]
      by_cases hscope : outOfScope view = true
      · rw [if_pos hscope, if_pos hscope]
      · rw [if_neg hscope, if_neg hscope, hdry.account]
        obtain ⟨r, ht, -⟩ := loadView_tracks hview
        exact report_of_foreseen hdry definition.stages (alongside_start view run.accountId) ht
          (hstages view hview (eq_false_of_ne_true hscope))

theorem gone_of_report (hon : definition.enabled = true) (hgone : loadView W db dry = none)
    (h : (executeRun W definition dry db).report = (executeRun W definition run db).report) :
    loadView W db run = none := by
  cases hview : loadView W db run with
  | none => rfl
  | some view =>
    rw [executeRun_gone hon hgone, executeRun_loaded hon hview] at h
    split at h
    · have hother : Report.recorded (.skipped "message gone") [] ≠
          .recorded (.skipped "out of scope (folder or draft)") [] := by
        decide
      exact absurd h hother
    · have hskips := congrArg skips h
      rw [runStages_skips] at hskips
      cases hskips

theorem foreseen_of_reports (hdry : Rehearses dry run)
    (hload : loadView W db dry = none ∨ loadView W db dry = loadView W db run)
    (hrecorded : ∀ x, (executeRun W definition run db).report ≠ .failed x)
    (h : (executeRun W definition dry db).report = (executeRun W definition run db).report) :
    RunForeseen W definition dry run db := by
  intro hon
  have hsame : loadView W db dry = loadView W db run := by
    rcases hload with hgone | hsame
    · exact hgone.trans (gone_of_report hon hgone h).symm
    · exact hsame
  refine ⟨hsame, fun view hview hscope => ?_⟩
  rw [executeRun_loaded hon hview, hscope, if_neg Bool.false_ne_true] at hrecorded
  rw [executeRun_loaded hon hview, executeRun_loaded hon (hsame.trans hview), hscope,
    if_neg Bool.false_ne_true, if_neg Bool.false_ne_true, hdry.account] at h
  obtain ⟨r, ht, -⟩ := loadView_tracks hview
  exact foreseen_of_report hdry definition.stages (alongside_start view run.accountId) ht hrecorded h

end Rehearsal

/-- **Dry runs.** A dry run reports what the run it rehearses does wherever that is foreseen; and
of a run that is recorded, exactly there, as long as the blank key names no message. -/
theorem dry_run_foretells (W : World) (definition : PipelineDefinition) (db : Database)
    (accountId messageId : Uuid) (msgKey : String) (origin : Origin) :
    let dry := dryRow accountId messageId origin
    let run := liveRow accountId messageId msgKey origin
    let reported := (dryRun W definition db accountId messageId origin).report
    let recorded := (executeRun W definition run db).report
    (RunForeseen W definition dry run db → reported = recorded) ∧
      (loadView W db dry = loadMessageView W db messageId → (∀ x, recorded ≠ .failed x) →
        reported = recorded → RunForeseen W definition dry run db) := by
  intro dry run reported recorded
  have hdry := rehearses_live accountId messageId msgKey origin
  refine ⟨fun h => reports_of_foreseen hdry h, fun hblank hrecorded h => ?_⟩
  refine foreseen_of_reports hdry ?_ hrecorded h
  cases hid : loadMessageView W db messageId with
  | none => exact Or.inl (hblank.trans hid)
  | some view =>
    right
    have hbyId : run.messageId.bind (loadMessageView W db) = some view := hid
    have hlive : loadView W db run = some view := by
      rw [loadView, hbyId]
    exact (hblank.trans hid).trans hlive.symm

/-- The spam rule that flags first asks nothing of the message but to be there. -/
theorem dry_run_foretells_flag_first :
    (dryRun spamWorld (spamPipeline [markSeen, toJunk]) spamDatabase 1 7 .live).report
      = (executeRun spamWorld (spamPipeline [markSeen, toJunk]) (liveRow 1 7 "<a@b>" .live)
          spamDatabase).report := by
  apply (dry_run_foretells spamWorld (spamPipeline [markSeen, toJunk]) spamDatabase 1 7 "<a@b>"
    .live).1
  intro _
  refine ⟨rfl, ?_⟩
  intro view hview _
  cases hview
  exact ⟨fun _ => rfl, ⟨Or.inr rfl, Or.inr rfl, trivial⟩, fun _ _ => trivial⟩

/-- One stage moves all mail to junk and a later one asks for the folder by its name. -/
def filingPipeline : PipelineDefinition where
  enabled := true
  revision := 1
  stages := [⟨"file", .match none [toJunk], true, false, none⟩,
    ⟨"filed", .match (some (.leaf .folderIs (.str "Junk"))) [markSeen], true, false, none⟩]

/-- The run finds the message in junk; the dry run finds it in `(dry-run)`. -/
theorem dry_run_misses_folder :
    ¬ ∀ (W : World) (definition : PipelineDefinition) (db : Database) (accountId messageId : Uuid)
        (msgKey : String) (origin : Origin),
      let recorded := (executeRun W definition (liveRow accountId messageId msgKey origin) db).report
      (∀ x, recorded ≠ .failed x) →
        (dryRun W definition db accountId messageId origin).report = recorded := by
  intro h
  have hmatched := congrArg (fun report => (entriesOf report).map StageReport.matched)
    (h spamWorld filingPipeline spamDatabase 1 7 "<a@b>" .live fun _ => Report.noConfusion)
  revert hmatched
  decide +kernel

end MailVerdict.Analysis.Pipeline
