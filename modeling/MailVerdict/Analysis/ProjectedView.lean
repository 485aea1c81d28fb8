import MailVerdict.Analysis.DryRunForesight

/-!
# The projected view and a re-read

`apply_effects` patches the view by hand after each effect; `load_message_view` derives the same
fields by joins. Flags, keywords and tags stay those of the row. The folder is shown as the branch
that moved the message builds it: a `Move` with the raw special use of the target's row, a `Trash`
with the name of the folder the message was in before. `Place` keeps which of them it was, and the
view is what a re-read gives exactly where that is what the row of the folder says
(`reads_back_iff`).
-/

namespace MailVerdict.Analysis.Pipeline

open MailVerdict.Computation Model.Pipeline

/-! ## The property and its condition -/

structure SameState (a b : MessageView) : Prop where
  folder : a.folder = b.folder
  isSeen : a.isSeen = b.isSeen
  isFlagged : a.isFlagged = b.isFlagged
  keywords : a.keywords = b.keywords
  tags : a.tags = b.tags

/-- What the loader reads back of the view's message, where it reads one, is what the view has. -/
def ReadsBack (W : World) (db : Database) (view : MessageView) : Prop :=
  ∀ loaded, loadMessageView W db view.messageId = some loaded → SameState view loaded

def folderRow (W : World) (id : Uuid) : Option Folder :=
  W.folders.find? fun f => decide (f.id = id)

inductive Arrival
  | loaded
  | moved
  | trashed (source : Uuid)

structure Place where
  folder : Uuid
  arrival : Arrival

def arrivalBy (source : Uuid) : Effect → Arrival
  | .trash => .trashed source
  | _ => .moved

/-- The place after one more effect: a move to where the message is changes nothing. -/
def Place.after (W : World) (run : PipelineRun) (p : Place) (e : Effect) : Place :=
  match moveTarget W run e with
  | none => p
  | some target => if target = p.folder then p else ⟨target, arrivalBy p.folder e⟩

/-- What the branch that moved the message shows of the folder is what its row says: the raw
special use is the effective one, the folder trashed from has the name of the trash. -/
def Place.Faithful (W : World) (p : Place) : Prop :=
  match p.arrival with
  | .loaded => True
  | .moved => ∀ f, folderRow W p.folder = some f → f.specialUse = f.effectiveSpecialUse
  | .trashed source => ∀ s f, folderRow W source = some s → folderRow W p.folder = some f →
      s.imapName = f.imapName

/-! ## What the view shows -/

def Shows (W : World) (run : PipelineRun) (p : Place) (f : Folder) (shown : FolderView) : Prop :=
  match p.arrival with
  | .loaded => shown = ⟨f.id, f.imapName, f.effectiveSpecialUse⟩
  | .moved => shown = ⟨f.id, f.imapName, f.specialUse⟩
  | .trashed source => ∃ s, folderRow W source = some s ∧
      shown = ⟨f.id, s.imapName, f.effectiveSpecialUse⟩ ∧ moveTarget W run .trash = some p.folder

/-- The view of a live row, projected through the effects so far. -/
structure Projected (W : World) (run : PipelineRun) (db : Database) (view : MessageView)
    (r : MessageRow) (p : Place) : Prop where
  tracks : Tracks db view r
  live : r.expunged = false
  place : view.folder.id = p.folder
  isSeen : view.isSeen = r.isSeen
  isFlagged : view.isFlagged = r.isFlagged
  keywords : view.keywords = r.keywords
  tags : view.tags = r.tags
  shows : ∃ f, folderRow W p.folder = some f ∧ f.deleted = false ∧ Shows W run p f view.folder

section Views

variable {W : World} {run : PipelineRun} {stageId : String} {db : Database} {view : MessageView}
  {r : MessageRow} {p : Place}

theorem folderRow_id {id : Uuid} {f : Folder} (h : folderRow W id = some f) : f.id = id := by
  simpa using List.find?_some h

theorem Shows.imapName_eq {f : Folder} {shown : FolderView} (h : Shows W run p f shown)
    (htrash : moveTarget W run .trash ≠ some p.folder) : shown.imapName = f.imapName := by
  unfold Shows at h
  split at h
  · rw [h]
  · rw [h]
  · obtain ⟨s, -, -, hhere⟩ := h
    exact absurd hhere htrash

theorem loadMessageView_of_tracks (ht : Tracks db view r) {f : Folder}
    (hf : folderRow W r.folderId = some f) (hdeleted : f.deleted = false)
    (hlive : r.expunged = false) :
    loadMessageView W db view.messageId = some {
      messageId := r.id, accountId := r.accountId,
      folder := ⟨f.id, f.imapName, f.effectiveSpecialUse⟩,
      content := r.content, isDraft := r.isDraft, isSeen := r.isSeen,
      isFlagged := r.isFlagged, keywords := r.keywords, tags := r.tags } := by
  unfold loadMessageView
  rw [ht.found]
  unfold folderRow at hf
  simp only [hlive, Bool.false_eq_true, if_false, hf, hdeleted]

theorem loadMessageView_expunged (ht : Tracks db view r) (hgone : r.expunged = true) :
    loadMessageView W db view.messageId = none := by
  unfold loadMessageView
  rw [ht.found]
  simp only [hgone, if_true]

theorem projected_of_load {k : Uuid} (h : loadMessageView W db k = some view) :
    ∃ r, Projected W run db view r ⟨view.folder.id, .loaded⟩ := by
  obtain ⟨r, ht, hlive⟩ := loadMessageView_tracks h
  have hk : view.messageId = k := by
    unfold loadMessageView at h
    split at h
    · cases h
    · rename_i s hs
      split at h
      · cases h
      · split at h
        · cases h
        · split at h
          · cases h
          · cases h
            exact (KeyedTable.find?_eq_some_iff.1 hs).2
  rw [← hk] at h
  cases hf : folderRow W r.folderId with
  | none =>
    exfalso
    unfold loadMessageView at h
    unfold folderRow at hf
    rw [ht.found] at h
    simp [hlive, hf] at h
  | some f =>
    cases hdeleted : f.deleted with
    | true =>
      exfalso
      unfold loadMessageView at h
      unfold folderRow at hf
      rw [ht.found] at h
      simp [hlive, hf, hdeleted] at h
    | false =>
      rw [loadMessageView_of_tracks ht hf hdeleted hlive, Option.some.injEq] at h
      have hfolder := ht.folder hlive
      refine ⟨r, ht, hlive, rfl, ?_, ?_, ?_, ?_, f, ?_, hdeleted, ?_⟩
      · rw [← h]
      · rw [← h]
      · rw [← h]
      · rw [← h]
      · rw [← hfolder]
        exact hf
      · show view.folder = _
        rw [← h]

theorem Projected.readsBack_iff (h : Projected W run db view r p)  :
    ReadsBack W db view ↔ p.Faithful W := by
  obtain ⟨f, hf, hdeleted, hshows⟩ := h.shows
  have hfolder : r.folderId = p.folder := (h.tracks.folder h.live).trans h.place
  rw [← hfolder] at hf
  have hload := loadMessageView_of_tracks h.tracks hf hdeleted h.live
  have hread : ReadsBack W db view ↔ view.folder = ⟨f.id, f.imapName, f.effectiveSpecialUse⟩ := by
    unfold ReadsBack
    rw [hload]
    constructor
    · intro hall
      exact (hall _ rfl).folder
    · rintro hsame loaded ⟨⟩
      exact ⟨hsame, h.isSeen, h.isFlagged, h.keywords, h.tags⟩
  rw [hread]
  rw [hfolder] at hf
  unfold Place.Faithful
  unfold Shows at hshows
  split at hshows
  · exact iff_of_true hshows trivial
  · rw [hshows]
    constructor
    · intro hsame g hg
      rw [hf, Option.some.injEq] at hg
      subst hg
      exact congrArg FolderView.specialUse hsame
    · intro hsame
      rw [hsame f hf]
  · rename_i source _
    obtain ⟨s, hs, hshown, -⟩ := hshows
    rw [hshown]
    constructor
    · intro hsame s' g hs' hg
      rw [hf, Option.some.injEq] at hg
      rw [hs, Option.some.injEq] at hs'
      subst hg hs'
      exact congrArg FolderView.imapName hsame
    · intro hsame
      rw [hsame s f hs hf]

/-! ## One effect -/

theorem resolve_row (hkeys : (W.folders.map Folder.id).Nodup) {accountId target : Uuid}
    {ref : FolderRef} (h : resolve W.folders accountId ref = some target) :
    ∃ f, folderRow W target = some f ∧ f.deleted = false ∧
      ∀ use, ref = ⟨none, some use, none⟩ → f.effectiveSpecialUse = some use := by
  have hfound : ∀ (q : Folder → Bool), ((W.folders.filter fun f =>
      decide (f.accountId = accountId) && !f.deleted).find? q).map Folder.id = some target →
        ∃ f, folderRow W target = some f ∧ f.deleted = false ∧ q f = true := by
    intro q hq
    obtain ⟨f, hf, hid⟩ := Option.map_eq_some_iff.1 hq
    have hmem := List.mem_filter.1 (List.mem_of_find?_eq_some hf)
    rw [Bool.and_eq_true, Bool.not_eq_true'] at hmem
    refine ⟨f, ?_, hmem.2.2, List.find?_some hf⟩
    exact (KeyedTable.find?_eq_some_iff (t := ⟨W.folders, hkeys⟩)).2 ⟨hmem.1, hid⟩
  unfold resolve at h
  split at h
  · rename_i id hid
    obtain ⟨f, hf, hlive, -⟩ := hfound _ h
    refine ⟨f, hf, hlive, ?_⟩
    rintro use rfl
    cases hid
  · split at h
    · rename_i name hname
      obtain ⟨f, hf, hlive, -⟩ := hfound _ h
      refine ⟨f, hf, hlive, ?_⟩
      rintro use rfl
      cases hname
    · split at h
      · rename_i use huse
        obtain ⟨f, hf, hlive, hq⟩ := hfound _ h
        refine ⟨f, hf, hlive, ?_⟩
        rintro use' rfl
        cases huse
        exact of_decide_eq_true hq
      · cases h

theorem applyMove_live (ht : Tracks db view r) (hlive : r.expunged = false) {target : Uuid}
    (dry real : FolderView) :
    (applyMove true db view target dry real).view =
      if target = view.folder.id then view else withFolder view real := by
  unfold applyMove
  by_cases hhere : target = view.folder.id
  · rw [if_pos hhere, if_pos hhere]
  · have hone := (move_rowcount target ht).2 hlive
    rw [if_neg hhere, if_neg hhere]
    simp only [Bool.not_true, Bool.false_eq_true, if_false, if_pos hone]

theorem commit_live (hlive : r.expunged = false) (e : Effect) :
    commit W run e r = (patchOf W run e).apply r := by
  unfold commit
  rw [hlive]
  rfl

theorem applyEffect_view (happly : run.apply = true) (ht : Tracks db view r)
    (hlive : r.expunged = false) {e : Effect} {a : Applied}
    (h : applyEffect W run stageId db view e = .ok a) :
    a.view.folder = view.folder ∧ moveTarget W run e = none ∨
      ∃ target, moveTarget W run e = some target ∧
        a.view = if target = view.folder.id then view else withFolder view (match e with
          | .move ref => resolveFolderView W.folders target ref.specialUse
          | _ => ⟨target, view.folder.imapName, some "trash"⟩) := by
  cases e with
  | move ref =>
    obtain ⟨target, htarget, ha⟩ := applyEffect_move_ok h
    rw [happly] at ha
    subst ha
    exact .inr ⟨target, htarget, applyMove_live ht hlive _ _⟩
  | trash =>
    obtain ⟨target, htarget, ha⟩ := applyEffect_trash_ok h
    rw [happly] at ha
    subst ha
    exact .inr ⟨target, htarget, applyMove_live ht hlive _ _⟩
  | expunge | setFlags | keywords | tag | recordVerdict | notify | enqueueOrder | webhook =>
    left
    refine ⟨?_, rfl⟩
    simp only [applyEffect] at h
    repeat' split at h
    all_goals
      cases h
      rfl

/-- After an effect the flags, keywords and tags of the view are those of the mail. -/
theorem applyEffect_fields (happly : run.apply = true) (h : Projected W run db view r p)
    {e : Effect} {a : Applied} (ha : applyEffect W run stageId db view e = .ok a) :
    a.view.isSeen = (commit W run e r).isSeen ∧ a.view.isFlagged = (commit W run e r).isFlagged ∧
      a.view.keywords = (commit W run e r).keywords ∧ a.view.tags = (commit W run e r).tags := by
  have hkeep : ∀ view' : MessageView, view'.isSeen = view.isSeen →
      view'.isFlagged = view.isFlagged → view'.keywords = view.keywords →
      view'.tags = view.tags → ∀ p' : Patch, p'.seen = none → p'.flagged = none →
      p'.addKeywords = ∅ → p'.removeKeywords = ∅ → p'.addTags = ∅ → p'.removeTags = ∅ →
      view'.isSeen = (p'.apply r).isSeen ∧ view'.isFlagged = (p'.apply r).isFlagged ∧
        view'.keywords = (p'.apply r).keywords ∧ view'.tags = (p'.apply r).tags := by
    intro view' h₁ h₂ h₃ h₄ p' hs hf hak hrk hat hrt
    simp only [Patch.apply, hs, hf, hak, hrk, hat, hrt, Option.getD_none, Finset.union_empty,
      Finset.sdiff_empty]
    exact ⟨h₁.trans h.isSeen, h₂.trans h.isFlagged, h₃.trans h.keywords, h₄.trans h.tags⟩
  have hrows : ∀ {f : MessageRow → MessageRow} {hid : ∀ r, (f r).id = r.id},
      (updateMessages db (fun r => decide (r.id = view.messageId) && !r.expunged) f hid).2 ≠ 0 :=
    (guarded_rowcount h.tracks).2 h.live
  rw [commit_live h.live]
  cases e with
  | move ref | trash =>
    have hview := applyEffect_view happly h.tracks h.live ha
    rcases hview with ⟨-, hnone⟩ | ⟨target, -, hview⟩
    · simp only [applyEffect] at ha
      simp only [moveTarget] at hnone
      rw [hnone] at ha
      cases ha
    · rw [hview]
      refine hkeep _ ?_ ?_ ?_ ?_ _ rfl rfl rfl rfl rfl rfl
      all_goals
        split
        · rfl
        · rfl
  | setFlags seen flagged answered deleted =>
    simp only [applyEffect, happly, Bool.not_true, Bool.false_eq_true, if_false] at ha
    split at ha
    · rename_i hnone
      obtain ⟨rfl, rfl, rfl, rfl⟩ := hnone
      cases ha
      exact hkeep view rfl rfl rfl rfl _ rfl rfl rfl rfl rfl rfl
    · rw [if_pos (show (setFlagsGuarded _ _ _ _ _ _).2 ≠ 0 from hrows)] at ha
      cases ha
      simp only [patchOf, Patch.apply, projectFlags, Finset.union_empty, Finset.sdiff_empty,
        h.isSeen, h.isFlagged, h.keywords, h.tags, and_self]
  | keywords add remove =>
    simp only [applyEffect, happly, Bool.not_true, Bool.false_eq_true, if_false] at ha
    split at ha
    · rename_i hnone
      obtain ⟨rfl, rfl⟩ := hnone
      cases ha
      exact hkeep view rfl rfl rfl rfl _ rfl rfl rfl rfl rfl rfl
    · rw [if_pos (show (setKeywordsDeltaGuarded _ _ _ _).2 ≠ 0 from hrows)] at ha
      cases ha
      simp only [patchOf, Patch.apply, withKeywords, Finset.union_empty, Finset.sdiff_empty,
        Option.getD_none, h.isSeen, h.isFlagged, h.keywords, h.tags, and_self]
  | tag add remove =>
    simp only [applyEffect, happly, Bool.not_true, Bool.false_eq_true, if_false] at ha
    cases ha
    simp only [patchOf, Patch.apply, withTags, Finset.union_empty, Finset.sdiff_empty,
      Option.getD_none, h.isSeen, h.isFlagged, h.keywords, h.tags, and_self]
  | expunge | recordVerdict | notify | enqueueOrder | webhook =>
    simp only [applyEffect, happly, Bool.not_true, Bool.false_eq_true, if_false] at ha
    cases ha
    exact hkeep view rfl rfl rfl rfl _ rfl rfl rfl rfl rfl rfl

/-- One effect that is not an expunge keeps view and mail together. -/
theorem Projected.step (hkeys : (W.folders.map Folder.id).Nodup) (happly : run.apply = true)
    (h : Projected W run db view r p) {e : Effect} {a : Applied}
    (ha : applyEffect W run stageId db view e = .ok a) (hkeep : e ≠ .expunge) :
    Projected W run a.db a.view (commit W run e r) (p.after W run e) := by
  have hlive : (commit W run e r).expunged = false := by
    rw [commit_live h.live]
    cases e with
    | expunge => exact absurd rfl hkeep
    | move | trash | setFlags | keywords | tag | recordVerdict | notify | enqueueOrder | webhook =>
      show (r.expunged || false) = false
      rw [h.live, Bool.or_false]
  obtain ⟨hseen, hflagged, hkeywords, htags⟩ := applyEffect_fields happly h ha
  have hplaced : ∀ p' : Place, a.view.folder.id = p'.folder →
      (∃ f, folderRow W p'.folder = some f ∧ f.deleted = false ∧ Shows W run p' f a.view.folder) →
      Projected W run a.db a.view (commit W run e r) p' := fun p' hid hshows =>
    ⟨applyEffect_tracks happly ha h.tracks, hlive, hid, hseen, hflagged, hkeywords, htags, hshows⟩
  rcases applyEffect_view happly h.tracks h.live ha with ⟨hfolder, hnone⟩ | ⟨target, htarget, hview⟩
  · have hstays : p.after W run e = p := by
      unfold Place.after
      rw [hnone]
    rw [hstays]
    apply hplaced p
    · rw [hfolder]
      exact h.place
    · rw [hfolder]
      exact h.shows
  · by_cases hhere : target = view.folder.id
    · have hstays : p.after W run e = p := by
        unfold Place.after
        rw [htarget]
        exact if_pos (hhere.trans h.place)
      rw [if_pos hhere] at hview
      rw [hstays]
      apply hplaced p
      · rw [hview]
        exact h.place
      · rw [hview]
        exact h.shows
    · have hgoes : p.after W run e = ⟨target, arrivalBy p.folder e⟩ := by
        unfold Place.after
        rw [htarget]
        exact if_neg fun hp => hhere (hp.trans h.place.symm)
      rw [if_neg hhere] at hview
      rw [hgoes]
      cases e with
      | move ref =>
        obtain ⟨f, hf, hdeleted, -⟩ := resolve_row hkeys htarget
        have hid := folderRow_id hf
        have hshown : a.view.folder = ⟨f.id, f.imapName, f.specialUse⟩ := by
          rw [hview]
          show resolveFolderView W.folders target ref.specialUse = _
          unfold resolveFolderView
          unfold folderRow at hf
          rw [hf, hid]
        apply hplaced
        · rw [hshown]
          exact hid
        · exact ⟨f, hf, hdeleted, hshown⟩
      | trash =>
        have hresolve : resolve W.folders run.accountId ⟨none, some "trash", none⟩ = some target :=
          htarget
        obtain ⟨f, hf, hdeleted, huse⟩ := resolve_row hkeys hresolve
        have hid := folderRow_id hf
        obtain ⟨s, hs, -, hsource⟩ := h.shows
        have hname : view.folder.imapName = s.imapName := by
          apply hsource.imapName_eq
          rw [htarget]
          exact fun heq => hhere ((Option.some.inj heq).trans h.place.symm)
        have hshown : a.view.folder = ⟨f.id, s.imapName, f.effectiveSpecialUse⟩ := by
          rw [hview, huse "trash" rfl, hid, ← hname]
          rfl
        apply hplaced
        · rw [hshown]
          exact hid
        · exact ⟨f, hf, hdeleted, s, hs, hshown, htarget⟩
      | expunge | setFlags | keywords | tag | recordVerdict | notify | enqueueOrder | webhook =>
        cases htarget

/-! ## A list of effects -/

def placeAfter (W : World) (run : PipelineRun) (p : Place) (es : List Effect) : Place :=
  (configured W run es).foldl (Place.after W run) p

theorem projected_run (hkeys : (W.folders.map Folder.id).Nodup) (happly : run.apply = true)
    (es : List Effect) {db : Database} {view : MessageView} {r : MessageRow} {p : Place}
    (h : Projected W run db view r p) (hkeep : Effect.expunge ∉ configured W run es) :
    ∃ r', Projected W run (applyEffects W run stageId db view es).db
      (applyEffects W run stageId db view es).view r' (placeAfter W run p es) := by
  induction es generalizing db view r p with
  | nil => exact ⟨r, h⟩
  | cons e es ih =>
    unfold applyEffects placeAfter
    cases hmis : misconfigured W run e with
    | true =>
      have hraise := @applyEffect_misconfigured W run stageId db view e hmis
      have hnil : configured W run (e :: es) = [] := by simp [configured, hmis]
      rw [hraise, hnil]
      exact ⟨r, h⟩
    | false =>
      obtain ⟨a, ha⟩ := @applyEffect_configured W run stageId db view e hmis
      have hcons : configured W run (e :: es) = e :: configured W run es := by
        simp [configured, hmis]
      rw [hcons, List.mem_cons, not_or] at hkeep
      rw [ha, hcons]
      exact ih (h.step hkeys happly ha fun heq => hkeep.1 heq.symm) hkeep.2

theorem gone_run (happly : run.apply = true) (es : List Effect) (ht : Tracks db view r)
    (hexpunge : Effect.expunge ∈ configured W run es) :
    loadMessageView W (applyEffects W run stageId db view es).db
      (applyEffects W run stageId db view es).view.messageId = none := by
  have htracks : Tracks (applyEffects W run stageId db view es).db
      (applyEffects W run stageId db view es).view
      (replay (commit W run) r (effectsOf (applyEffects W run stageId db view es).applied)) :=
    (applyEffects_tracks happly es ht).2
  rw [(applyEffects_shape es db view).1] at htracks
  apply loadMessageView_expunged htracks
  cases hgone : (replay (commit W run) r (configured W run es)).expunged with
  | true => rfl
  | false => exact absurd ((replay_commit_live hgone).2 _ hexpunge) (by simp [patchOf])

/-- **The projected view.** After any effects nothing is read back exactly when one expunged the
message; and what is read back is the view exactly when it was expunged or its folder is shown as
its row has it: the last effect that moved it is a `Move` to a folder whose special use is not
overridden by another, or a `Trash` from a folder of the same name. -/
theorem reads_back_iff (W : World) (run : PipelineRun) (stageId : String) (db : Database)
    (messageId : Uuid) (view : MessageView) (es : List Effect)
    (hkeys : (W.folders.map Folder.id).Nodup) (happly : run.apply = true)
    (hload : loadMessageView W db messageId = some view) :
    let result := applyEffects W run stageId db view es
    (loadMessageView W result.db result.view.messageId = none ↔
        Effect.expunge ∈ configured W run es) ∧
      (ReadsBack W result.db result.view ↔
        Effect.expunge ∈ configured W run es ∨
          (placeAfter W run ⟨view.folder.id, .loaded⟩ es).Faithful W) := by
  intro result
  have hloaded : ∃ r, Projected W run db view r ⟨view.folder.id, .loaded⟩ :=
    projected_of_load hload
  obtain ⟨r, hstart⟩ := hloaded
  by_cases hexpunge : Effect.expunge ∈ configured W run es
  · have hgone : loadMessageView W result.db result.view.messageId = none :=
      gone_run happly es hstart.tracks hexpunge
    refine ⟨iff_of_true hgone hexpunge, iff_of_true ?_ (Or.inl hexpunge)⟩
    intro loaded hloaded
    rw [hgone] at hloaded
    cases hloaded
  · have hrun : ∃ r', Projected W run result.db result.view r'
        (placeAfter W run ⟨view.folder.id, .loaded⟩ es) :=
      projected_run hkeys happly es hstart hexpunge
    obtain ⟨r', hend⟩ := hrun
    obtain ⟨f, hf, hdeleted, -⟩ := hend.shows
    rw [← hend.place, ← hend.tracks.folder hend.live] at hf
    have hthere := loadMessageView_of_tracks hend.tracks hf hdeleted hend.live
    refine ⟨iff_of_false ?_ hexpunge, ?_⟩
    · rw [hthere]
      exact Option.some_ne_none _
    · rw [or_iff_right hexpunge]
      exact hend.readsBack_iff

end Views

/-- The junk folder of the spam rule has no override, so its message is read back as shown. -/
theorem reads_back_in_junk :
    let result := applyEffects spamWorld spamRun "move-spam" spamDatabase
      ⟨7, 1, ⟨1, "INBOX", none⟩, spamMail.content, false, false, false, ∅, ∅⟩ [markSeen, toJunk]
    ReadsBack spamWorld result.db result.view := by
  refine (reads_back_iff spamWorld spamRun "move-spam" spamDatabase 7 _ [markSeen, toJunk]
    (by decide) rfl rfl).2.2 (Or.inr ?_)
  rintro f ⟨⟩
  rfl

/-! ## Two moves that are shown wrong -/

section Drift

/-- An account whose server names no special use: a person has said which folder is which. -/
def namedWorld : World :=
  { spamWorld with
    folders := [⟨1, 1, "INBOX", none, none, false⟩, ⟨2, 1, "Papierkorb", none, some "trash", false⟩,
      ⟨3, 1, "Ablage", none, some "archive", false⟩] }

def toArchive : Effect := .move ⟨none, some "archive", none⟩

def inboxView : MessageView :=
  ⟨7, 1, ⟨1, "INBOX", none⟩, spamMail.content, false, false, false, ∅, ∅⟩

def Drifts (es : List Effect) : Prop :=
  let result := applyEffects namedWorld spamRun "file" spamDatabase inboxView es
  ¬ ReadsBack namedWorld result.db result.view

/-- A re-read finds the archived message in the archive, which the view does not call so, and the
trashed one in the folder called Papierkorb, which the view calls by the inbox's name. -/
theorem moves_shown_wrong :
    loadMessageView namedWorld spamDatabase 7 = some inboxView ∧ Drifts [toArchive] ∧
      Drifts [.trash] := by
  refine ⟨rfl, ?_, ?_⟩
  · intro h
    have hshown := (h _ rfl).folder
    revert hshown
    decide
  · intro h
    have hshown := (h _ rfl).folder
    revert hshown
    decide

end Drift

end MailVerdict.Analysis.Pipeline
