import MailVerdict.Model.FolderDeletion

/-!
# What a folder's deletion destroys

`delete_folder` holds no lock on what it reads: until its commit another transaction may
move mail, and PostIMAP may write what it finds on the server. The count of unconfirmed
moves, once read, holds as long as nothing that commits gives the account a first
unconfirmed move, and the count of messages as long as nothing that commits changes it
(`Undisturbed`). In runs in which that is so every deletion that commits destroys what was
confirmed (`deletes_what_was_confirmed`); a move between the two counts and the commit is
enough for one that does not (`moved_mail_is_destroyed`).
-/

namespace MailVerdict.Analysis.ConfirmedDeletions

open MailVerdict.Computation
open Model.FolderDeletion

/-! ### Deletions under way -/

def checked (t : Tx) : Option Request :=
  match t.todo, t.snapshot with
  | [.pendingMoves r], some _ => some r
  | [.notifications r], _ => some r
  | [.messageCount r], _ => some r
  | [.deleteFolder r], _ => some r
  | [], _ => t.writes.findSome? Delta.deleted
  | _, _ => none

def counted (t : Tx) : Option Request :=
  match t.todo, t.snapshot with
  | [.messageCount r], some _ => some r
  | [.deleteFolder r], _ => some r
  | [], _ => t.writes.findSome? Delta.deleted
  | _, _ => none

/-- A change of the database that takes nothing back that the deletion has read: the account
gets no first unconfirmed move, and the folder as many messages as it had. -/
def Undisturbed (d d' : Db) (t : Tx) : Prop :=
  (∀ r ∈ checked t, d.unconfirmed r.accountId = ∅ → d'.unconfirmed r.accountId = ∅) ∧
    ∀ r ∈ counted t, d'.messageCount r.folderId = d.messageCount r.folderId

instance (d d' : Db) (t : Tx) : Decidable (Undisturbed d d' t) :=
  inferInstanceAs (Decidable (_ ∧ _))

/-- What commits, or comes from the server, disturbs no deletion under way. -/
def Quiet (s : State) : Label → Prop
  | .outside e => ∀ t ∈ s.txs, Undisturbed s.db (s.db.outside e) t
  | .commit n => ∀ t ∈ s.txs, t.id = n → ∀ t' ∈ s.others n,
      Undisturbed s.db (engine.view s.db t.writes) t'
  | _ => True

instance (s : State) (l : Label) : Decidable (Quiet s l) := by
  cases l <;> unfold Quiet <;> infer_instance

/-- The account has no unconfirmed move, and the folder holds what was confirmed. -/
def Confirmed (a : Answer) : Prop :=
  a.unconfirmed = ∅ ∧ a.request.confirmMessageCount = some (a.messageCount : ℤ)

instance (a : Answer) : Decidable (Confirmed a) := inferInstanceAs (Decidable (_ ∧ _))

/-- The statements before the guards, and the error answers. -/
def Opening : Stmt → Prop
  | .glacier _ _ | .support _ _ | .folder _ _ | .pendingIds _ _ | .refuse _ _ => True
  | _ => False

def Unwritten (t : Tx) : Prop := ∀ c ∈ t.writes, c = {}

/-- Where a transaction stands: it writes messages, or it is a deletion before, at or after
one of its guards. -/
inductive Stands (d : Db) (t : Tx) : Prop
  | writer (htodo : ∀ st ∈ t.todo, st.Writing) (hwrites : ∀ c ∈ t.writes, c.deleted = none)
  | opening {st : Stmt} (htodo : t.todo = [st])
      (hst : Opening st ∨ (∃ r, st = .pendingMoves r) ∧ t.snapshot = none)
      (hwrites : Unwritten t)
  | moves {r : Request} {d₀ : Db} (htodo : t.todo = [.pendingMoves r])
      (hsnap : t.snapshot = some d₀)
      (hclear : d₀.unconfirmed r.accountId = ∅ → d.unconfirmed r.accountId = ∅)
      (hwrites : Unwritten t)
  | clear {r : Request}
      (htodo : t.todo = [.notifications r] ∨ t.todo = [.messageCount r] ∧ t.snapshot = none)
      (hclear : d.unconfirmed r.accountId = ∅) (hwrites : Unwritten t)
  | count {r : Request} {d₀ : Db} (htodo : t.todo = [.messageCount r])
      (hsnap : t.snapshot = some d₀) (hclear : d.unconfirmed r.accountId = ∅)
      (hcount : d.messageCount r.folderId = d₀.messageCount r.folderId) (hwrites : Unwritten t)
  | confirmed {r : Request} (htodo : t.todo = [.deleteFolder r])
      (hclear : d.unconfirmed r.accountId = ∅)
      (hcount : r.confirmMessageCount = some (d.messageCount r.folderId : ℤ))
      (hwrites : Unwritten t)
  | marked {r : Request} {ws : List Delta} {c : Delta} (htodo : t.todo = [])
      (hclear : d.unconfirmed r.accountId = ∅)
      (hcount : r.confirmMessageCount = some (d.messageCount r.folderId : ℤ))
      (hws : ∀ w ∈ ws, w = {}) (hwrites : t.writes = ws ++ [c]) (hmessages : c.messages = .none)
      (hdeleted : c.deleted = some r)

structure Inv (s : State) : Prop where
  answers : ∀ a ∈ s.db.answers, Confirmed a
  stands : ∀ t ∈ s.txs, Stands s.db t

variable {s s' : State} {d d' : Db} {t : Tx} {l : Label}

/-! ### The database as a transaction sees it -/

theorem write_empty (d : Db) : d.write {} = d := by
  simp [Db.write]

theorem view_of_empty {ws : List Delta} (h : ∀ w ∈ ws, w = {}) (d : Db) : engine.view d ws = d := by
  induction ws with
  | nil => rfl
  | cons w ws ih =>
    have hw : w = {} := h w List.mem_cons_self
    have hcons : engine.view d (w :: ws) = engine.view (d.write w) ws := rfl
    rw [hcons, hw, write_empty]
    exact ih fun x hx => h x (List.mem_cons_of_mem w hx)

theorem answers_view {ws : List Delta} (h : ∀ w ∈ ws, w.deleted = none) (d : Db) :
    (engine.view d ws).answers = d.answers := by
  induction ws generalizing d with
  | nil => rfl
  | cons w ws ih =>
    have hcons : engine.view d (w :: ws) = engine.view (d.write w) ws := rfl
    have hw : (d.write w).answers = d.answers := by
      simp [Db.write, h w List.mem_cons_self]
    rw [hcons, ih (fun x hx => h x (List.mem_cons_of_mem w hx)), hw]

theorem unwritten_concat {ws : List Delta} (h : ∀ c ∈ ws, c = {}) :
    ∀ c ∈ ws ++ [({} : Delta)], c = {} := by
  intro c hc
  obtain hc | hc := List.mem_append.1 hc
  · exact h c hc
  · exact List.mem_singleton.1 hc

/-! ### What others do -/

theorem findSome?_unwritten {ws : List Delta} (h : ∀ w ∈ ws, w = {}) :
    ws.findSome? Delta.deleted = none := by
  rw [List.findSome?_eq_none_iff]
  intro w hw
  rw [h w hw]

theorem Stands.undisturbed (h : Stands d t) (hquiet : Undisturbed d d' t) : Stands d' t := by
  obtain ⟨hmoves, hcounts⟩ := hquiet
  cases h with
  | writer htodo hwrites => exact .writer htodo hwrites
  | opening htodo hst hwrites => exact .opening htodo hst hwrites
  | @moves r d₀ htodo hsnap hclear hwrites =>
    have hr : r ∈ checked t := by simp [checked, htodo, hsnap]
    exact .moves htodo hsnap (fun h => hmoves r hr (hclear h)) hwrites
  | @clear r htodo hclear hwrites =>
    have hr : r ∈ checked t := by
      obtain htodo | ⟨htodo, -⟩ := htodo <;> simp [checked, htodo]
    exact .clear htodo (hmoves r hr hclear) hwrites
  | @count r d₀ htodo hsnap hclear hcount hwrites =>
    have hr : r ∈ checked t := by simp [checked, htodo]
    have hr' : r ∈ counted t := by simp [counted, htodo, hsnap]
    exact .count htodo hsnap (hmoves r hr hclear) ((hcounts r hr').trans hcount) hwrites
  | @confirmed r htodo hclear hcount hwrites =>
    have hr : r ∈ checked t := by simp [checked, htodo]
    have hr' : r ∈ counted t := by simp [counted, htodo]
    refine .confirmed htodo (hmoves r hr hclear) ?_ hwrites
    rw [hcounts r hr']
    exact hcount
  | @marked r ws c htodo hclear hcount hws hwrites hmessages hdeleted =>
    have hfind : t.writes.findSome? Delta.deleted = some r := by
      rw [hwrites, List.findSome?_append, findSome?_unwritten hws]
      simp [hdeleted]
    have hr : r ∈ checked t := by simp [checked, htodo, hfind]
    have hr' : r ∈ counted t := by simp [counted, htodo, hfind]
    refine .marked htodo (hmoves r hr hclear) ?_ hws hwrites hmessages hdeleted
    rw [hcounts r hr']
    exact hcount

/-! ### What a transaction does -/

theorem stands_begin {n : ℕ} {k : Kind} :
    Stands d ⟨n, engine.takesLock k, engine.program k, [], none, ∅⟩ := by
  cases k with
  | deleteFolder f confirm => exact .opening rfl (Or.inl trivial) nofun
  | writer stmts =>
    refine .writer (fun st hst => ?_) nofun
    obtain ⟨w, -, rfl⟩ := List.mem_map.1 hst
    exact w.2

theorem Stands.start (h : Stands d t) (hnone : t.snapshot = none) (used : Finset Empty) :
    Stands d { t with snapshot := some d, used := used } := by
  cases h with
  | writer htodo hwrites => exact .writer htodo hwrites
  | opening htodo hst hwrites =>
    obtain hopening | ⟨⟨r, rfl⟩, -⟩ := hst
    · exact .opening htodo (Or.inl hopening) hwrites
    · exact .moves htodo rfl id hwrites
  | moves htodo hsnap hclear hwrites | count htodo hsnap hclear hcount hwrites =>
    rw [hnone] at hsnap
    cases hsnap
  | clear htodo hclear hwrites =>
    obtain htodo | ⟨htodo, -⟩ := htodo
    · exact .clear (Or.inl htodo) hclear hwrites
    · exact .count htodo rfl hclear rfl hwrites
  | confirmed htodo hclear hcount hwrites => exact .confirmed htodo hclear hcount hwrites
  | marked htodo hclear hcount hws hwrites hmessages hdeleted =>
    exact .marked htodo hclear hcount hws hwrites hmessages hdeleted

theorem run_opening {snap cur : Db} {st : Stmt} {c : Delta} {more : List Stmt} (hst : Opening st)
    (hrun : run snap cur st = some (c, more)) :
    c = {} ∧ ∃ st', more = [st'] ∧ (Opening st' ∨ ∃ r, st' = .pendingMoves r) := by
  cases st <;> try exact hst.elim
  all_goals cases hrun
  · refine ⟨rfl, _, rfl, Or.inl ?_⟩
    unfold runGlacier
    split <;> trivial
  · refine ⟨rfl, _, rfl, Or.inl ?_⟩
    unfold runSupport
    split <;> trivial
  · refine ⟨rfl, _, rfl, ?_⟩
    unfold runFolder
    split
    · exact Or.inl trivial
    · dsimp only
      split
      · exact Or.inl trivial
      · split
        · exact Or.inl trivial
        · exact Or.inr ⟨_, rfl⟩
  · exact ⟨rfl, _, rfl, Or.inl trivial⟩

theorem run_writing {snap cur : Db} {st : Stmt} {c : Delta} {more : List Stmt} (hst : st.Writing)
    (hrun : run snap cur st = some (c, more)) : c.deleted = none ∧ more = [] := by
  cases st <;> try exact hst.elim
  all_goals cases hrun
  · exact ⟨rfl, rfl⟩
  · refine ⟨?_, rfl⟩
    unfold runMoveMessagesFrom
    split <;> rfl
  · exact ⟨rfl, rfl⟩

def ran (t : Tx) (c : Delta) (todo : List Stmt) : Tx :=
  { t with todo := todo, writes := t.writes ++ [c], snapshot := none }

/-- **A statement runs.** -/
theorem Stands.exec (h : Stands d t) {st : Stmt} {rest : List Stmt} {d₀ : Db}
    (htodo : t.todo = st :: rest) (hsnap : t.snapshot = some d₀) {c : Delta} {more : List Stmt}
    (hrun : run (engine.view d₀ t.writes) (engine.view d t.writes) st = some (c, more)) :
    Stands d (ran t c (more ++ rest)) := by
  cases h with
  | writer hwriting hwrites =>
    rw [htodo] at hwriting
    obtain ⟨hc, rfl⟩ := run_writing (hwriting st List.mem_cons_self) hrun
    refine .writer (fun x hx => hwriting x (List.mem_cons_of_mem st hx)) fun w hw => ?_
    obtain hw | hw := List.mem_append.1 hw
    · exact hwrites w hw
    · rw [List.mem_singleton.1 hw]
      exact hc
  | opening hsingle hst hwrites =>
    rw [htodo] at hsingle
    cases hsingle
    obtain hopening | ⟨-, hnone⟩ := hst
    · obtain ⟨rfl, st', rfl, hst'⟩ := run_opening hopening hrun
      obtain hst' | hst' := hst'
      · exact .opening rfl (Or.inl hst') (unwritten_concat hwrites)
      · exact .opening rfl (Or.inr ⟨hst', rfl⟩) (unwritten_concat hwrites)
    · rw [hsnap] at hnone
      cases hnone
  | @moves r d₁ hsingle hsnap' hclear hwrites =>
    rw [htodo] at hsingle
    cases hsingle
    rw [hsnap] at hsnap'
    cases hsnap'
    rw [view_of_empty hwrites] at hrun
    cases hrun
    by_cases hempty : d₀.unconfirmed r.accountId = ∅
    · have hnext : runPendingMoves d₀ r = .notifications r := by
        simp [runPendingMoves, hempty]
      rw [hnext]
      exact .clear (Or.inl rfl) (hclear hempty) (unwritten_concat hwrites)
    · have hnext : runPendingMoves d₀ r = .pendingIds r (d₀.unconfirmed r.accountId).card := by
        simp [runPendingMoves, hempty]
      rw [hnext]
      exact .opening rfl (Or.inl trivial) (unwritten_concat hwrites)
  | @clear r hsingle hclear hwrites =>
    obtain hsingle | ⟨-, hnone⟩ := hsingle
    · rw [htodo] at hsingle
      cases hsingle
      cases hrun
      unfold runNotifications
      dsimp only
      split
      · exact .opening rfl (Or.inl trivial) (unwritten_concat hwrites)
      · exact .clear (Or.inr ⟨rfl, rfl⟩) hclear (unwritten_concat hwrites)
    · rw [hsnap] at hnone
      cases hnone
  | @count r d₁ hsingle hsnap' hclear hcount hwrites =>
    rw [htodo] at hsingle
    cases hsingle
    rw [hsnap] at hsnap'
    cases hsnap'
    rw [view_of_empty hwrites] at hrun
    cases hrun
    by_cases hconfirm : r.confirmMessageCount = some (d₀.messageCount r.folderId : ℤ)
    · have hnext : runMessageCount d₀ r = .deleteFolder r := by
        simp [runMessageCount, hconfirm]
      rw [hnext]
      refine .confirmed rfl hclear ?_ (unwritten_concat hwrites)
      rw [hcount]
      exact hconfirm
    · unfold runMessageCount
      rw [if_pos hconfirm]
      exact .opening rfl (Or.inl trivial) (unwritten_concat hwrites)
  | @confirmed r hsingle hclear hcount hwrites =>
    rw [htodo] at hsingle
    cases hsingle
    cases hrun
    exact .marked rfl hclear hcount hwrites rfl rfl rfl
  | marked hnil hclear hcount hws hwrites hmessages hdeleted =>
    rw [htodo] at hnil
    cases hnil

/-- **The commit.** What it adds to the answers is confirmed. -/
theorem Stands.commit (h : Stands d t) (htodo : t.todo = []) (hanswers : ∀ a ∈ d.answers, Confirmed a) :
    ∀ a ∈ (engine.view d t.writes).answers, Confirmed a := by
  cases h with
  | writer _ hwrites =>
    rw [answers_view hwrites]
    exact hanswers
  | opening hsingle _ _ | moves hsingle _ _ _ | count hsingle _ _ _ _ | confirmed hsingle _ _ _ =>
    rw [htodo] at hsingle
    cases hsingle
  | clear hsingle _ _ =>
    rw [htodo] at hsingle
    obtain hsingle | ⟨hsingle, -⟩ := hsingle <;> cases hsingle
  | @marked r ws c _ hclear hcount hws hwrites hmessages hdeleted =>
    rw [hwrites, engine.view_append, view_of_empty hws]
    intro a ha
    change a ∈ (d.write c).answers at ha
    simp only [Db.write, hdeleted, Option.map_some, Option.toList_some, List.mem_append,
      List.mem_singleton] at ha
    obtain ha | rfl := ha
    · exact hanswers a ha
    · refine ⟨?_, ?_⟩
      · simp only [Db.answer, Db.unconfirmed, hmessages, RowTable.view_none]
        rw [show d.messages.rows.filter _ = ∅ from hclear]
        rfl
      · simp only [Db.answer, Db.messageCount, hmessages, RowTable.view_none]
        exact hcount

/-! ### The system -/

theorem Inv.put (h : Inv s) (ht : Stands s.db t) : Inv (s.put t) where
  answers := h.answers
  stands t' ht' := by
    obtain rfl | ⟨hold, -⟩ := Engine.State.mem_put.1 ht'
    · exact ht
    · exact h.stands t' hold

/-- Every quiet step keeps it. -/
theorem inv_step (h : Inv s) (hquiet : Quiet s l) (hstep : engine.step s l = some s') :
    Inv s' := by
  cases l with
  | outside e =>
    cases hstep
    exact ⟨h.answers, fun t ht => (h.stands t ht).undisturbed (hquiet t ht)⟩
  | begin n k =>
    obtain ⟨-, heq⟩ := Option.ite_none_right_eq_some.1 hstep
    cases heq
    exact h.put stands_begin
  | start n =>
    obtain ⟨t, ht, hstep⟩ := Option.bind_eq_some_iff.1 hstep
    obtain ⟨hmem, -⟩ := Engine.State.mem_of_tx? ht
    rw [Engine.start] at hstep
    split at hstep
    next st rest htodo hnone =>
      cases hstep
      exact h.put ((h.stands t hmem).start hnone _)
    · cases hstep
  | exec n =>
    obtain ⟨t, ht, hstep⟩ := Option.bind_eq_some_iff.1 hstep
    obtain ⟨hmem, -⟩ := Engine.State.mem_of_tx? ht
    rw [Engine.exec] at hstep
    split at hstep
    next st rest d₀ htodo hsnap =>
      obtain ⟨⟨c, more⟩, hrun, hstep⟩ := Option.bind_eq_some_iff.1 hstep
      obtain ⟨-, heq⟩ := Option.ite_none_right_eq_some.1 hstep
      cases heq
      exact h.put ((h.stands t hmem).exec htodo hsnap hrun)
    · cases hstep
  | commit n =>
    obtain ⟨t, ht, hstep⟩ := Option.bind_eq_some_iff.1 hstep
    obtain ⟨hmem, hid⟩ := Engine.State.mem_of_tx? ht
    rw [Engine.commit] at hstep
    split at hstep
    next htodo =>
      cases hstep
      refine ⟨(h.stands t hmem).commit htodo h.answers, fun t' ht' => ?_⟩
      have hother := (Engine.State.mem_others.1 ht').1
      exact (h.stands t' hother).undisturbed (hquiet t hmem hid t' (hid ▸ ht'))
    · cases hstep
  | rollback n =>
    cases hstep
    exact ⟨h.answers, fun t ht => h.stands t (Engine.State.mem_others.1 ht).1⟩

/-- **Deletions destroy what was confirmed**, in every run in which nothing that commits, and
nothing from the server, disturbs a deletion under way. -/
theorem deletes_what_was_confirmed (h : system.Reachable Quiet s) :
    ∀ a ∈ s.db.answers, Confirmed a := by
  have hinv : Inv s := by
    refine h.invariant ?_ fun s l t hinv hquiet hstep => inv_step hinv hquiet hstep
    rintro s ⟨htxs, hanswers⟩
    refine ⟨?_, ?_⟩
    · simp [hanswers]
    · simp [htxs]
  exact hinv.answers

/-! ### Runs -/

def mirror : State where
  db :=
    { messages := ⟨{⟨100, 1, 11, some 7, false⟩, ⟨101, 1, 10, some 8, false⟩}, by decide⟩
      folders := ⟨{⟨10, 1, "Old", none, none, true, some 0, false, false⟩,
        ⟨11, 1, "INBOX", none, none, true, some 0, false, false⟩}, by decide⟩
      notifications := .empty
      info := some ⟨"1.3.0", true⟩
      answers := [] }
  txs := []

def deletion (n : ℕ) (f : Uuid) (confirm : ℤ) : List Label :=
  .begin n (.deleteFolder f (some confirm)) ::
    (List.replicate 7 [.start n, .exec n]).flatten

def move (n : ℕ) (m f : Uuid) : List Label :=
  [.begin n (.writer [⟨.moveMessage m f, trivial⟩]), .start n, .exec n, .commit n]

/-- Two messages are in the folder, one of them moved there and confirmed, and mail arrives in
the inbox while the folder is deleted. -/
def confirmedRun : List Label :=
  move 1 100 10 ++ [.outside { messages := .put ⟨100, 1, 10, some 9, false⟩ }] ++
    deletion 2 10 2 ++ [.outside { messages := .put ⟨102, 1, 11, some 10, false⟩ }, .commit 2]

theorem confirmed_folder_is_deleted : ∃ s : State,
    s.db.answers.map (fun a => (a.request.folderId, a.messageCount)) = [(10, 2)] ∧
      ∀ a ∈ s.db.answers, Confirmed a := by
  have hmeets : system.execMeets Quiet mirror confirmedRun = true := by decide +kernel
  have hrun : (system.exec mirror confirmedRun).any (fun s =>
      decide (s.db.answers.map (fun a => (a.request.folderId, a.messageCount)) = [(10, 2)])) =
        true := by
    decide +kernel
  obtain ⟨s, hexec, hanswers⟩ := (Option.any_eq_true _ _).1 hrun
  exact ⟨s, of_decide_eq_true hanswers,
    deletes_what_was_confirmed (TransitionSystem.reachable_of_exec _ ⟨rfl, rfl⟩ hmeets hexec)⟩

/-- The message is moved out of the folder after it was counted: the deletion answers
success while the server still has the message in the folder. -/
theorem moved_mail_is_destroyed : ∃ s : State, system.Reachable TransitionSystem.anyStep s ∧
    ∃ a ∈ s.db.answers, a.unconfirmed = {101} ∧ a.messageCount = 0 ∧
      a.request.confirmMessageCount = some 1 := by
  have hrun : (system.exec mirror (deletion 1 10 1 ++ move 2 101 11 ++ [.commit 1])).any (fun s =>
      decide (∃ a ∈ s.db.answers, a.unconfirmed = {101} ∧ a.messageCount = 0 ∧
        a.request.confirmMessageCount = some 1)) = true := by
    decide +kernel
  obtain ⟨s, hexec, hafter⟩ := (Option.any_eq_true _ _).1 hrun
  exact ⟨s, TransitionSystem.reachable_of_exec_any _ ⟨rfl, rfl⟩ hexec, of_decide_eq_true hafter⟩

end MailVerdict.Analysis.ConfirmedDeletions
