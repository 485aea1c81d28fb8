import MailVerdict.Computation.Redo
import MailVerdict.Model.Pipeline

/-!
# What a stage's effects do to the message

Each effect of a run is one guarded statement on the row of the message, and the
view the run goes on with is that row as far as the guards read it (`Tracks`). So
what a list of effects leaves behind is a function of the row alone: `commit`
replayed over the list. Without the guards the effects are writes of which the
last one wins, `put`, and on a message no effect expunged that is what they are.
-/

namespace MailVerdict.Analysis.Pipeline

open MailVerdict.Computation
open Model.Pipeline

/-! ## Effects as writes on a row -/

/-- The values an effect puts into a row, with the places it does not touch
absent. -/
structure Patch where
  folder : Option Uuid := none
  seen : Option Bool := none
  flagged : Option Bool := none
  answered : Option Bool := none
  deleted : Option Bool := none
  addKeywords : Finset String := ∅
  removeKeywords : Finset String := ∅
  addTags : Finset String := ∅
  removeTags : Finset String := ∅
  expunge : Bool := false

def Patch.apply (p : Patch) (r : MessageRow) : MessageRow :=
  { r with
    folderId := p.folder.getD r.folderId
    isSeen := p.seen.getD r.isSeen
    isFlagged := p.flagged.getD r.isFlagged
    isAnswered := p.answered.getD r.isAnswered
    isDeleted := p.deleted.getD r.isDeleted
    keywords := (r.keywords ∪ p.addKeywords) \ p.removeKeywords
    tags := (r.tags ∪ p.addTags) \ p.removeTags
    expunged := r.expunged || p.expunge }

section Patches

variable {α : Type}

theorem getD_again (p : Option α) (x : α) : p.getD (p.getD x) = p.getD x := by
  cases p <;> rfl

theorem getD_through (p q : Option α) (x : α) :
    p.getD (q.getD (p.getD x)) = p.getD (q.getD x) := by
  cases p <;> rfl

variable [DecidableEq α]

theorem delta_again (add remove s : Finset α) :
    ((s ∪ add) \ remove ∪ add) \ remove = (s ∪ add) \ remove := by
  ext k
  simp only [Finset.mem_sdiff, Finset.mem_union]
  tauto

theorem delta_through (add remove add' remove' s : Finset α) :
    ((((s ∪ add) \ remove ∪ add') \ remove') ∪ add) \ remove
      = (((s ∪ add') \ remove') ∪ add) \ remove := by
  ext k
  simp only [Finset.mem_sdiff, Finset.mem_union]
  tauto

end Patches

theorem Patch.lastWriterWins : LastWriterWins Patch.apply where
  again p r := by
    simp only [Patch.apply, getD_again, delta_again, Bool.or_assoc, Bool.or_self]
  through p q r := by
    have hgone : ((r.expunged || p.expunge || q.expunge) || p.expunge)
        = ((r.expunged || q.expunge) || p.expunge) := by
      cases r.expunged <;> cases p.expunge <;> cases q.expunge <;> rfl
    simp only [Patch.apply, getD_through, delta_through, hgone]

section Rows

variable (W : World) (run : PipelineRun)

def moveTarget : Effect → Option Uuid
  | .move ref => resolve W.folders run.accountId ref
  | .trash => resolve W.folders run.accountId ⟨none, some "trash", none⟩
  | _ => none

def misconfigured : Effect → Bool
  | .move ref => (resolve W.folders run.accountId ref).isNone
  | .trash => (resolve W.folders run.accountId ⟨none, some "trash", none⟩).isNone
  | _ => false

def patchOf (e : Effect) : Patch :=
  match e with
  | .move _ | .trash => { folder := moveTarget W run e }
  | .expunge => { expunge := true }
  | .setFlags seen flagged answered deleted =>
    { seen := seen, flagged := flagged, answered := answered, deleted := deleted }
  | .keywords add remove => { addKeywords := add, removeKeywords := remove }
  | .tag add remove => { addTags := add, removeTags := remove }
  | _ => {}

def unguarded : Effect → Bool
  | .tag _ _ => true
  | _ => false

/-- What an applied effect does to the row of the message: nothing on an expunged
row, where every guard fails. -/
def commit (e : Effect) (r : MessageRow) : MessageRow :=
  if r.expunged && !unguarded e then r else (patchOf W run e).apply r

def Settled (e : Effect) (r : MessageRow) : Prop :=
  misconfigured W run e = false ∧ commit W run e r = r

instance (e : Effect) (r : MessageRow) : Decidable (Settled W run e r) :=
  inferInstanceAs (Decidable (misconfigured W run e = false ∧ commit W run e r = r))

end Rows

/-- The view is of this row, and stands in its folder while the row is live. -/
structure Tracks (db : Database) (view : MessageView) (r : MessageRow) : Prop where
  found : db.messages.find? view.messageId = some r
  folder : r.expunged = false → r.folderId = view.folder.id

/-! ## One effect -/

section Statements

variable {db : Database} {p : MessageRow → Bool} {f : MessageRow → MessageRow}
  {h : ∀ r, (f r).id = r.id} {k : Uuid} {r : MessageRow}

theorem updateMessages_found (hr : db.messages.find? k = some r) :
    (updateMessages db p f h).1.messages.find? k = some (if p r then f r else r) := by
  show (db.messages.update p f h).find? k = _
  rw [KeyedTable.find?_update, hr]
  rfl

theorem updateMessages_rowcount (hguard : ∀ s, p s = true → s.id = k)
    (hr : db.messages.find? k = some r) :
    (updateMessages db p f h).2 ≠ 0 ↔ p r = true :=
  KeyedTable.countP_ne_zero_iff hguard hr

end Statements

variable {W : World} {run : PipelineRun} {stageId : String} {db : Database} {view : MessageView}
  {r : MessageRow}

theorem Patch.apply_nothing (r : MessageRow) : Patch.apply {} r = r := by
  simp [Patch.apply]

theorem Patch.apply_folder (target : Uuid) (r : MessageRow) :
    Patch.apply { folder := some target } r = setFolder target r := by
  simp [Patch.apply, setFolder]

theorem Patch.apply_expunge (r : MessageRow) :
    Patch.apply { expunge := true } r = setExpunged r := by
  simp [Patch.apply, setExpunged]

theorem Patch.apply_flags (seen flagged answered deleted : Option Bool) (r : MessageRow) :
    Patch.apply { seen := seen, flagged := flagged, answered := answered, deleted := deleted } r
      = setFlags seen flagged answered deleted r := by
  simp [Patch.apply, setFlags]

theorem Patch.apply_keywords (add remove : Finset String) (r : MessageRow) :
    Patch.apply { addKeywords := add, removeKeywords := remove } r = setKeywords add remove r := by
  simp [Patch.apply, setKeywords]

theorem Patch.apply_tags (add remove : Finset String) (r : MessageRow) :
    Patch.apply { addTags := add, removeTags := remove } r = setTags add remove r := by
  simp [Patch.apply, setTags]

theorem Tracks.id_eq (h : Tracks db view r) : r.id = view.messageId :=
  (KeyedTable.find?_eq_some_iff.1 h.found).2

theorem Tracks.of_same_folder {db' : Database} {view' : MessageView} {r' : MessageRow}
    (ht : Tracks db view r) (hfound : db'.messages.find? view.messageId = some r')
    (hid : view'.messageId = view.messageId) (hview : view'.folder = view.folder)
    (hfolder : r'.folderId = r.folderId) (hlive : r'.expunged = false → r.expunged = false) :
    Tracks db' view' r' where
  found := by
    rw [hid]
    exact hfound
  folder := by
    intro h
    rw [hfolder, hview]
    exact ht.folder (hlive h)

theorem guarded_found {f : MessageRow → MessageRow} {h : ∀ r, (f r).id = r.id}
    (ht : Tracks db view r) :
    (updateMessages db (fun r => decide (r.id = view.messageId) && !r.expunged) f
      h).1.messages.find? view.messageId = some (if r.expunged then r else f r) := by
  have hid : r.id = view.messageId := ht.id_eq
  rw [updateMessages_found ht.found]
  cases hgone : r.expunged <;> simp [hid]

theorem guarded_only {k : Uuid} (s : MessageRow)
    (h : (decide (s.id = k) && !s.expunged) = true) : s.id = k := by
  simp only [Bool.and_eq_true, decide_eq_true_eq] at h
  exact h.1

/-- A move keeps the view beside the mail, expunged or not. -/
theorem applyMove_tracks {target : Uuid} (dry : FolderView) {real : FolderView}
    (hreal : real.id = target)
    (ht : Tracks db view r) :
    Tracks (applyMove true db view target dry real).db (applyMove true db view target dry real).view
      (if r.expunged then r else setFolder target r) := by
  have hid : r.id = view.messageId := ht.id_eq
  unfold applyMove
  by_cases hsame : target = view.folder.id
  · rw [if_pos hsame]
    cases hgone : r.expunged with
    | true => exact ht
    | false =>
      have hfolder : r.folderId = target := (ht.folder hgone).trans hsame.symm
      have hnothing : setFolder target r = r := by
        unfold setFolder
        rw [← hfolder]
      show Tracks db view (setFolder target r)
      rw [hnothing]
      exact ht
  · rw [if_neg hsame]
    have honly : ∀ s : MessageRow, (decide (s.id = view.messageId) && !s.expunged &&
        decide (s.folderId = view.folder.id)) = true → s.id = view.messageId := by
      intro s hs
      simp only [Bool.and_eq_true, decide_eq_true_eq] at hs
      exact hs.1.1
    have hcount := updateMessages_rowcount (f := setFolder target) (h := fun _ => rfl)
      honly ht.found
    have hfound := updateMessages_found (p := fun s => decide (s.id = view.messageId) &&
      !s.expunged && decide (s.folderId = view.folder.id)) (f := setFolder target)
      (h := fun _ => rfl) ht.found
    cases hgone : r.expunged with
    | true =>
      have hzero : ¬(moveMessageGuarded db view.messageId target view.folder.id).2 ≠ 0 := by
        intro h
        have hguard := hcount.1 h
        simp [hgone] at hguard
      simp only [Bool.not_true, if_neg hzero, if_true]
      refine ⟨?_, fun h => by rw [hgone] at h; exact absurd h (by decide)⟩
      show (updateMessages _ _ _ _).1.messages.find? view.messageId = _
      rw [hfound]
      simp [hgone]
    | false =>
      have hfolder := ht.folder hgone
      have hguard : (decide (r.id = view.messageId) && !r.expunged &&
          decide (r.folderId = view.folder.id)) = true := by
        simp [hid, hgone, hfolder]
      have hone : (moveMessageGuarded db view.messageId target view.folder.id).2 ≠ 0 :=
        hcount.2 hguard
      simp only [Bool.not_true, if_pos hone]
      refine ⟨?_, fun _ => hreal.symm⟩
      show (updateMessages _ _ _ _).1.messages.find? view.messageId = _
      rw [hfound, if_pos hguard]
      rfl

theorem applyMove_messageId {apply : Bool} {target : Uuid} {dry real : FolderView} :
    (applyMove apply db view target dry real).view.messageId = view.messageId := by
  unfold applyMove
  split
  · rfl
  · split
    · rfl
    · dsimp only
      split <;> rfl

theorem applyMove_messages {apply : Bool} {target : Uuid} {dry real : FolderView} :
    (applyMove apply db view target dry real).db.messages = db.messages ∨
      ∃ guard set hset, (∀ s : MessageRow, guard s = true → s.id = view.messageId) ∧
        (applyMove apply db view target dry real).db.messages
          = db.messages.update guard set hset := by
  unfold applyMove
  split
  · exact Or.inl rfl
  · split
    · exact Or.inl rfl
    · refine Or.inr ⟨fun s => decide (s.id = view.messageId) && !s.expunged &&
        decide (s.folderId = view.folder.id), setFolder target, fun _ => rfl, ?_, ?_⟩
      · intro s hs
        simp only [Bool.and_eq_true, decide_eq_true_eq] at hs
        exact hs.1.1
      · dsimp only
        split <;> rfl

theorem resolveFolderView_id (folders : List Folder) (target : Uuid) (hint : Option String) :
    (resolveFolderView folders target hint).id = target := by
  unfold resolveFolderView
  split <;> rfl

theorem applyEffect_misconfigured {e : Effect} (h : misconfigured W run e = true) :
    applyEffect W run stageId db view e = .error (.misconfigured stageId) := by
  cases e with
  | move ref =>
    have hnone : resolve W.folders run.accountId ref = none := Option.isNone_iff_eq_none.1 h
    simp only [applyEffect, hnone]
  | trash =>
    have hnone : resolve W.folders run.accountId ⟨none, some "trash", none⟩ = none :=
      Option.isNone_iff_eq_none.1 h
    simp only [applyEffect, hnone]
  | expunge | setFlags | keywords | tag | recordVerdict | notify | enqueueOrder | webhook =>
    exact absurd h (by simp [misconfigured])

theorem applyEffect_configured {e : Effect} (h : misconfigured W run e = false) :
    ∃ a, applyEffect W run stageId db view e = .ok a := by
  cases e with
  | move ref =>
    simp only [applyEffect]
    cases htarget : resolve W.folders run.accountId ref with
    | none => simp [misconfigured, htarget] at h
    | some target => exact ⟨_, rfl⟩
  | trash =>
    simp only [applyEffect]
    cases htarget : resolve W.folders run.accountId ⟨none, some "trash", none⟩ with
    | none => simp [misconfigured, htarget] at h
    | some target => exact ⟨_, rfl⟩
  | expunge | setFlags | keywords | tag | recordVerdict | notify | enqueueOrder | webhook =>
    simp only [applyEffect]
    repeat' split
    all_goals exact ⟨_, rfl⟩

theorem applyEffect_move_ok {ref : FolderRef} {a : Applied}
    (h : applyEffect W run stageId db view (.move ref) = .ok a) :
    ∃ target, resolve W.folders run.accountId ref = some target ∧
      a = applyMove run.apply db view target ⟨target, "(dry-run)", ref.specialUse⟩
        (resolveFolderView W.folders target ref.specialUse) := by
  simp only [applyEffect] at h
  split at h <;> cases h
  exact ⟨_, ‹_›, rfl⟩

theorem applyEffect_trash_ok {a : Applied}
    (h : applyEffect W run stageId db view .trash = .ok a) :
    ∃ target, resolve W.folders run.accountId ⟨none, some "trash", none⟩ = some target ∧
      a = applyMove run.apply db view target ⟨target, "(dry-run)", some "trash"⟩
        ⟨target, view.folder.imapName, some "trash"⟩ := by
  simp only [applyEffect] at h
  split at h <;> cases h
  exact ⟨_, ‹_›, rfl⟩

theorem commit_moves {e : Effect} {target : Uuid} (h : moveTarget W run e = some target) :
    commit W run e r = if r.expunged then r else setFolder target r := by
  cases e with
  | move ref | trash => simp [commit, unguarded, patchOf, h, Patch.apply_folder]
  | expunge | setFlags | keywords | tag | recordVerdict | notify | enqueueOrder | webhook => cases h

theorem commit_nothing {e : Effect} (h : patchOf W run e = {}) : commit W run e r = r := by
  simp [commit, h, Patch.apply_nothing]

/-- An applied effect leaves the view on the row it made of the message's row. -/
theorem applyEffect_tracks (happly : run.apply = true) {e : Effect} {a : Applied}
    (h : applyEffect W run stageId db view e = .ok a) (ht : Tracks db view r) :
    Tracks a.db a.view (commit W run e r) := by
  cases e with
  | move ref =>
    obtain ⟨target, htarget, rfl⟩ := applyEffect_move_ok h
    rw [happly, commit_moves (e := .move ref) htarget]
    exact applyMove_tracks _ (resolveFolderView_id _ _ _) ht
  | trash =>
    obtain ⟨target, htarget, rfl⟩ := applyEffect_trash_ok h
    rw [happly, commit_moves (e := .trash) htarget]
    exact applyMove_tracks _ rfl ht
  | expunge =>
    simp only [applyEffect, happly, Bool.not_true, Bool.false_eq_true, if_false] at h
    cases h
    have hfound := guarded_found (f := setExpunged) (h := fun _ => rfl) ht
    have hcommit : commit W run .expunge r = if r.expunged then r else setExpunged r := by
      simp [commit, unguarded, patchOf, Patch.apply_expunge]
    rw [hcommit]
    refine ht.of_same_folder hfound rfl rfl ?_ ?_
    · split <;> rfl
    · cases hgone : r.expunged <;> simp [hgone, setExpunged]
  | setFlags seen flagged answered deleted =>
    have hcommit : commit W run (.setFlags seen flagged answered deleted) r
        = if r.expunged then r else setFlags seen flagged answered deleted r := by
      simp [commit, unguarded, patchOf, Patch.apply_flags]
    rw [hcommit]
    simp only [applyEffect] at h
    split at h
    · rename_i hnone
      obtain ⟨rfl, rfl, rfl, rfl⟩ := hnone
      cases h
      have hsame : setFlags none none none none r = r := rfl
      rw [hsame, ite_self]
      exact ht
    · have hfound := guarded_found (f := setFlags seen flagged answered deleted)
        (h := fun _ => rfl) ht
      simp only [happly, Bool.not_true, Bool.false_eq_true, if_false] at h
      split at h <;> cases h
      all_goals
        refine ht.of_same_folder hfound rfl rfl ?_ ?_
        · split <;> rfl
        · cases hgone : r.expunged <;> simp [hgone, setFlags]
  | keywords add remove =>
    have hcommit : commit W run (.keywords add remove) r
        = if r.expunged then r else setKeywords add remove r := by
      simp [commit, unguarded, patchOf, Patch.apply_keywords]
    rw [hcommit]
    simp only [applyEffect] at h
    split at h
    · rename_i hnone
      obtain ⟨rfl, rfl⟩ := hnone
      cases h
      have hsame : setKeywords ∅ ∅ r = r := by simp [setKeywords]
      rw [hsame, ite_self]
      exact ht
    · have hfound := guarded_found (f := setKeywords add remove) (h := fun _ => rfl) ht
      simp only [happly, Bool.not_true, Bool.false_eq_true, if_false] at h
      split at h <;> cases h
      all_goals
        refine ht.of_same_folder hfound rfl rfl ?_ ?_
        · split <;> rfl
        · cases hgone : r.expunged <;> simp [hgone, setKeywords]
  | tag add remove =>
    have hcommit : commit W run (.tag add remove) r = setTags add remove r := by
      simp [commit, unguarded, patchOf, Patch.apply_tags]
    rw [hcommit]
    simp only [applyEffect, happly, Bool.not_true, Bool.false_eq_true, if_false] at h
    cases h
    have hid : r.id = view.messageId := ht.id_eq
    have hfound := updateMessages_found (p := fun s => decide (s.id = view.messageId))
      (f := setTags add remove) (h := fun _ => rfl) ht.found
    rw [if_pos (decide_eq_true hid)] at hfound
    exact ht.of_same_folder hfound rfl rfl rfl id
  | notify text =>
    cases h
    rw [commit_nothing rfl]
    exact ht
  | recordVerdict | enqueueOrder | webhook =>
    -- these write to other tables
    rw [commit_nothing rfl]
    simp only [applyEffect, happly, Bool.not_true, Bool.false_eq_true, if_false] at h
    cases h
    first | unfold recordVerdict | unfold enqueueOrderMailJob | unfold enqueueWebhookDelivery
    dsimp only
    split
    · exact ht
    · exact ⟨ht.found, ht.folder⟩

theorem applyEffect_messageId {e : Effect} {a : Applied}
    (h : applyEffect W run stageId db view e = .ok a) : a.view.messageId = view.messageId := by
  cases e with
  | move ref | trash =>
    simp only [applyEffect] at h
    split at h <;> cases h
    exact applyMove_messageId
  | expunge | setFlags | keywords | tag | recordVerdict | notify | enqueueOrder | webhook =>
    simp only [applyEffect] at h
    repeat' split at h
    all_goals
      cases h
      rfl

theorem applyEffect_messages {e : Effect} {a : Applied}
    (h : applyEffect W run stageId db view e = .ok a) :
    a.db.messages = db.messages ∨
      ∃ guard set hset, (∀ s : MessageRow, guard s = true → s.id = view.messageId) ∧
        a.db.messages = db.messages.update guard set hset := by
  cases e with
  | move ref | trash =>
    simp only [applyEffect] at h
    split at h <;> cases h
    exact applyMove_messages
  | expunge =>
    simp only [applyEffect] at h
    split at h <;> cases h
    · exact Or.inl rfl
    · exact Or.inr ⟨_, setExpunged, fun _ => rfl, guarded_only, rfl⟩
  | setFlags seen flagged answered deleted =>
    simp only [applyEffect] at h
    repeat' split at h
    all_goals cases h
    · exact Or.inl rfl
    · exact Or.inl rfl
    all_goals
      exact Or.inr ⟨_, setFlags seen flagged answered deleted, fun _ => rfl, guarded_only, rfl⟩
  | keywords add remove =>
    simp only [applyEffect] at h
    repeat' split at h
    all_goals cases h
    · exact Or.inl rfl
    · exact Or.inl rfl
    all_goals exact Or.inr ⟨_, setKeywords add remove, fun _ => rfl, guarded_only, rfl⟩
  | tag add remove =>
    simp only [applyEffect] at h
    split at h <;> cases h
    · exact Or.inl rfl
    · exact Or.inr ⟨_, setTags add remove, fun _ => rfl, fun _ hs => of_decide_eq_true hs, rfl⟩
  | recordVerdict | enqueueOrder | webhook =>
    simp only [applyEffect, recordVerdict, enqueueOrderMailJob, enqueueWebhookDelivery] at h
    repeat' split at h
    all_goals
      cases h
      exact Or.inl rfl
  | notify =>
    cases h
    exact Or.inl rfl

theorem applyEffect_frame {e : Effect} {a : Applied} {k : Uuid}
    (h : applyEffect W run stageId db view e = .ok a) (hk : k ≠ view.messageId) :
    a.db.messages.find? k = db.messages.find? k := by
  rcases applyEffect_messages h with hsame | ⟨guard, set, hset, honly, hupdate⟩
  · rw [hsame]
  · rw [hupdate]
    exact KeyedTable.find?_update_of_ne hset honly hk

theorem applyEffect_dry (hdry : run.apply = false) {e : Effect} {a : Applied}
    (h : applyEffect W run stageId db view e = .ok a) : a.db = db := by
  cases e with
  | move ref | trash =>
    simp only [applyEffect, hdry] at h
    split at h <;> cases h
    unfold applyMove
    split <;> rfl
  | expunge | setFlags | keywords | tag | recordVerdict | notify | enqueueOrder | webhook =>
    simp only [applyEffect, hdry, Bool.not_false, if_true] at h
    repeat' split at h
    all_goals
      cases h
      rfl

end MailVerdict.Analysis.Pipeline
