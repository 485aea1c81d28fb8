import MailVerdict.Computation.SortedQueue
import MailVerdict.Model.PendingSends

/-!
# What ticks of the pending-send worker move

A tick moves the whole batch it claims or nothing. A row the database refuses leaves the
session inactive, so that either the next row of the batch or the commit raises and the
rows before it stay too. The next tick claims the same twenty rows.

The rows that are due stand in one order from tick to tick. After any number of ticks a
beginning of that order is moved, a whole number of batches long, and the rest is as it
was (`ticks_moved`). So every row that the database accepts is moved exactly when no
batch, up to the last that has such a row, holds one that it refuses.
-/

namespace MailVerdict.Analysis.PendingSendTicks

open MailVerdict.Computation
open Model.PendingSends

structure MovedTo (db : Db) (rows : List PendingSend) (db' : Db) : Prop where
  pendingSends : db'.pendingSends.rows =
    db.pendingSends.rows.filter fun r => decide (r.id ∉ rows.map PendingSend.id)
  pendingSendAttachments : db'.pendingSendAttachments =
    db.pendingSendAttachments.filter fun a =>
      decide (a.pendingSendId ∉ rows.map PendingSend.id)
  outbox : db'.outbox.rows = db.outbox.rows ++ rows.map PendingSend.toOutbox
  outboxAttachments : db'.outboxAttachments = db.outboxAttachments ++
    rows.flatMap fun r => (db.attachmentsOf r.id).map (·.toOutboxAttachment r.id)

section Moving

variable {c : Constraints} {db db' db'' : Db} {rows rows' : List PendingSend}
  {row : PendingSend}

theorem MovedTo.refl (db : Db) : MovedTo db [] db :=
  ⟨by simp, by simp, by simp, by simp⟩

theorem MovedTo.attachmentsOf (h : MovedTo db rows db')
    (hrow : row.id ∉ rows.map PendingSend.id) :
    db'.attachmentsOf row.id = db.attachmentsOf row.id := by
  rw [Db.attachmentsOf, Db.attachmentsOf, h.pendingSendAttachments, List.filter_filter]
  refine List.filter_congr fun a _ => ?_
  by_cases ha : a.pendingSendId = row.id
  · simp [ha, hrow]
  · simp [ha]

theorem MovedTo.insertFails (h : MovedTo db rows db')
    (hrow : row.id ∉ rows.map PendingSend.id) :
    insertFails c db' row = insertFails c db row := by
  have hids : row.id ∈ db'.outbox.rows.map Outbox.id ↔
      row.id ∈ db.outbox.rows.map Outbox.id := by
    have hmoved : (rows.map PendingSend.toOutbox).map Outbox.id = rows.map PendingSend.id := by
      rw [List.map_map]
      rfl
    rw [h.outbox, List.map_append, List.mem_append, hmoved]
    exact or_iff_left hrow
  rw [Model.PendingSends.insertFails, Model.PendingSends.insertFails, h.attachmentsOf hrow]
  simp only [hids]

theorem MovedTo.trans (h : MovedTo db rows db') (h' : MovedTo db' rows' db'')
    (hdisjoint : ∀ row ∈ rows', row.id ∉ rows.map PendingSend.id) :
    MovedTo db (rows ++ rows') db'' where
  pendingSends := by
    rw [h'.pendingSends, h.pendingSends, List.filter_filter]
    refine List.filter_congr fun r _ => ?_
    rw [List.map_append, ← Bool.decide_and]
    exact decide_eq_decide.2 (by rw [List.mem_append, not_or, and_comm])
  pendingSendAttachments := by
    rw [h'.pendingSendAttachments, h.pendingSendAttachments, List.filter_filter]
    refine List.filter_congr fun a _ => ?_
    rw [List.map_append, ← Bool.decide_and]
    exact decide_eq_decide.2 (by rw [List.mem_append, not_or, and_comm])
  outbox := by
    rw [h'.outbox, h.outbox, List.map_append, List.append_assoc]
  outboxAttachments := by
    have hsame : (rows'.flatMap fun r => (db'.attachmentsOf r.id).map (·.toOutboxAttachment r.id)) =
        rows'.flatMap fun r => (db.attachmentsOf r.id).map (·.toOutboxAttachment r.id) := by
      refine List.flatMap_congr fun r hr => ?_
      rw [h.attachmentsOf (hdisjoint r hr)]
    rw [h'.outboxAttachments, h.outboxAttachments, hsame, List.flatMap_append, List.append_assoc]

end Moving

section Session

variable {c : Constraints} {db : Db} {s s' : Session} {row : PendingSend}

def flushed (s : Session) : Db := s.deleted.foldl Db.deletePendingSend s.view

theorem execute_active (h : s.active = true) :
    s.execute = some { s with view := flushed s, deleted := [] } := by
  rw [Session.execute, if_pos h]
  rfl

theorem execute_inactive (h : s.active = false) : s.execute = none := by
  rw [Session.execute, if_neg (by simp [h])]

theorem commit_active (h : s.active = true) : s.commit = some (flushed s) := by
  rw [Session.commit, execute_active h]
  rfl

theorem commit_inactive (h : s.active = false) : s.commit = none := by
  rw [Session.commit, execute_inactive h]
  rfl

theorem moveDueSend_inactive (h : s.active = false) : moveDueSend c s row = none := by
  rw [moveDueSend, execute_inactive h]
  rfl

theorem movedTo_one (hfresh : row.id ∉ db.outbox.rows.map Outbox.id) :
    MovedTo db [row] (Db.deletePendingSend
      { db with
        outbox := db.outbox.insert row.toOutbox hfresh
        outboxAttachments := db.outboxAttachments ++
          (db.attachmentsOf row.id).map (·.toOutboxAttachment row.id) } row.id) where
  pendingSends := by simp [Db.deletePendingSend, KeyedTable.erase]
  pendingSendAttachments := by simp [Db.deletePendingSend]
  outbox := by simp [Db.deletePendingSend, KeyedTable.insert]
  outboxAttachments := by simp [Db.deletePendingSend]

theorem flush_some (write : Db → Option Db) {view : Db} (h : write (flushed s) = some view) :
    s.flush write = { s with view := view, deleted := [] } := by
  rw [flushed] at h
  rw [Session.flush, h]

theorem flush_none (write : Db → Option Db) (h : write (flushed s) = none) :
    s.flush write = { s with view := s.begun, deleted := [], active := false } := by
  rw [flushed] at h
  rw [Session.flush, h]

theorem insertOutbox_returned {o : Outbox} {as : List OutboxAttachment}
    (hactive : s.active = true) (hfresh : o.id ∉ (flushed s).outbox.rows.map Outbox.id)
    (ho : c.refusesOutbox o = false) (has : as.any c.refusesAttachment = false) :
    insertOutbox c s o as = (true,
      { s with
        view := { flushed s with
          outbox := (flushed s).outbox.insert o hfresh
          outboxAttachments := (flushed s).outboxAttachments ++ as }
        deleted := [] }) := by
  have hrow : (flushed s).insertOutboxRow c o =
      some { flushed s with outbox := (flushed s).outbox.insert o hfresh } := by
    rw [Db.insertOutboxRow, dif_neg hfresh, if_neg (by simp [ho])]
  rw [insertOutbox, flush_some (fun db => db.insertOutboxRow c o) hrow]
  simp only [hactive, if_true]
  rw [flush_some (fun db => db.insertOutboxAttachments c as)
    (by rw [Db.insertOutboxAttachments, if_neg (by simp [has])])]
  rfl

theorem insertOutbox_raised {o : Outbox} {as : List OutboxAttachment}
    (h : o.id ∈ (flushed s).outbox.rows.map Outbox.id ∨ c.refusesOutbox o = true ∨
      as.any c.refusesAttachment = true) :
    (insertOutbox c s o as).1 = false ∧ (insertOutbox c s o as).2.active = false := by
  cases hrow : (flushed s).insertOutboxRow c o with
  | none =>
    rw [insertOutbox, flush_none (fun db => db.insertOutboxRow c o) hrow]
    exact ⟨rfl, rfl⟩
  | some view =>
    have hattached : as.any c.refusesAttachment = true := by
      rw [Db.insertOutboxRow] at hrow
      split at hrow
      · cases hrow
      · next hfresh =>
          split at hrow
          · cases hrow
          · next ho => exact (h.resolve_left hfresh).resolve_left ho
    rw [insertOutbox, flush_some (fun db => db.insertOutboxRow c o) hrow]
    split
    · rw [flush_none (fun db => db.insertOutboxAttachments c as)
        (by rw [Db.insertOutboxAttachments, if_pos hattached])]
      exact ⟨rfl, rfl⟩
    · next hinactive => exact ⟨rfl, by simpa using hinactive⟩

theorem moveDueSend_accepted (hactive : s.active = true)
    (hrow : insertFails c (flushed s) row = false) :
    ∃ s', moveDueSend c s row = some s' ∧ s'.active = true ∧
      MovedTo (flushed s) [row] (flushed s') := by
  simp only [insertFails, Bool.or_eq_false_iff, decide_eq_false_iff_not] at hrow
  obtain ⟨⟨hfresh, ho⟩, has⟩ := hrow
  have hmoved := movedTo_one hfresh
  rw [moveDueSend, execute_active hactive, Option.map_some]
  dsimp only
  rw [insertOutbox_returned (s := { s with view := flushed s, deleted := [] }) hactive hfresh ho
    has]
  exact ⟨_, rfl, hactive, hmoved⟩

theorem moveDueSend_refused (hactive : s.active = true)
    (hrow : insertFails c (flushed s) row = true) :
    ∃ s', moveDueSend c s row = some s' ∧ s'.active = false := by
  simp only [insertFails, Bool.or_eq_true, decide_eq_true_eq, or_assoc] at hrow
  have hraised := insertOutbox_raised (s := { s with view := flushed s, deleted := [] })
    (o := row.toOutbox) hrow
  rw [moveDueSend, execute_active hactive, Option.map_some]
  dsimp only
  rw [hraised.1]
  exact ⟨_, rfl, hraised.2⟩

end Session

section Tick

variable {c : Constraints} {db db' : Db} {s s' : Session} {now : Time}
  {rows done : List PendingSend} {row : PendingSend}

theorem not_mem_of_nodup (h : ((done ++ row :: rows).map PendingSend.id).Nodup) :
    row.id ∉ done.map PendingSend.id := by
  rw [List.map_append, List.map_cons] at h
  intro hmem
  exact (List.nodup_append.1 h).2.2 _ hmem _ List.mem_cons_self rfl

theorem moveAll_accepted (hactive : s.active = true) (hdone : MovedTo db done (flushed s))
    (hids : ((done ++ rows).map PendingSend.id).Nodup)
    (hrows : ∀ row ∈ rows, insertFails c db row = false) :
    ∃ s', rows.foldlM (moveDueSend c) s = some s' ∧ s'.active = true ∧
      MovedTo db (done ++ rows) (flushed s') := by
  induction rows generalizing s done with
  | nil => exact ⟨s, rfl, hactive, by rwa [List.append_nil]⟩
  | cons row rows ih =>
    have hfresh := not_mem_of_nodup hids
    have haccepted : insertFails c (flushed s) row = false := by
      rw [hdone.insertFails hfresh]
      exact hrows row List.mem_cons_self
    obtain ⟨t, ht, htactive, hmoved⟩ := moveDueSend_accepted hactive haccepted
    have hmore := hdone.trans hmoved (by simpa using hfresh)
    rw [List.append_cons] at hids
    obtain ⟨s', hs', hs'active, hall⟩ := ih htactive hmore hids fun r hr =>
      hrows r (List.mem_cons_of_mem row hr)
    refine ⟨s', ?_, hs'active, ?_⟩
    · rw [List.foldlM_cons, ht]
      exact hs'
    · rwa [← List.append_cons] at hall

/-- A tick with one refused insert ends with a session that is no longer active. -/
theorem moveAll_refused (hactive : s.active = true) (hdone : MovedTo db done (flushed s))
    (hids : ((done ++ rows).map PendingSend.id).Nodup)
    (hrow : ∃ row ∈ rows, insertFails c db row = true)
    (h : rows.foldlM (moveDueSend c) s = some s') : s'.active = false := by
  induction rows generalizing s done with
  | nil =>
    obtain ⟨row, hmem, -⟩ := hrow
    cases hmem
  | cons row rows ih =>
    have hfresh := not_mem_of_nodup hids
    rw [List.foldlM_cons] at h
    cases hfails : insertFails c db row with
    | true =>
      -- the session is inactive from here on: the next row, if any, raises
      obtain ⟨t, ht, htactive⟩ := moveDueSend_refused hactive
        ((hdone.insertFails hfresh).trans hfails)
      rw [ht] at h
      cases rows with
      | nil =>
        cases h
        exact htactive
      | cons next rows =>
        rw [Option.bind_eq_bind, Option.bind_some, List.foldlM_cons,
          moveDueSend_inactive htactive] at h
        cases h
    | false =>
      obtain ⟨t, ht, htactive, hmoved⟩ := moveDueSend_accepted hactive
        ((hdone.insertFails hfresh).trans hfails)
      have hmore := hdone.trans hmoved (by simpa using hfresh)
      rw [List.append_cons] at hids
      rw [ht] at h
      obtain ⟨failing, hmem, hfailing⟩ := hrow
      obtain rfl | hmem := List.mem_cons.1 hmem
      · rw [hfails] at hfailing
        cases hfailing
      · exact ih htactive hmore hids ⟨failing, hmem, hfailing⟩ h

theorem mem_dueSends : row ∈ dueSends now db ↔
    row ∈ db.pendingSends.rows ∧ row.due now = true := by
  rw [dueSends, List.mem_insertionSort, List.mem_filter]

theorem dueSends_nodup (now : Time) (db : Db) :
    ((dueSends now db).map PendingSend.id).Nodup := by
  have hperm : ((dueSends now db).map PendingSend.id).Perm
      ((db.pendingSends.rows.filter (PendingSend.due now)).map PendingSend.id) :=
    (List.perm_insertionSort _ _).map _
  exact hperm.nodup_iff.2 (db.pendingSends.primaryKey.sublist (List.filter_sublist.map _))

theorem take_nodup (now : Time) (db : Db) (n : ℕ) :
    (((dueSends now db).take n).map PendingSend.id).Nodup :=
  (dueSends_nodup now db).sublist ((List.take_sublist n _).map _)

theorem processDueSends_moves
    (h : ∀ row ∈ (dueSends now db).take claimBatchSize, insertFails c db row = false) :
    MovedTo db ((dueSends now db).take claimBatchSize) (processDueSends c now db) := by
  obtain ⟨s', hs', hactive, hmoved⟩ := moveAll_accepted (s := Session.start db) rfl
    (MovedTo.refl db) (take_nodup now db claimBatchSize) h
  have hrun : processDueSends c now db = flushed s' := by
    rw [processDueSends, inSession]
    simp only [Session.start] at hs' ⊢
    rw [hs', Option.bind_some, commit_active hactive]
  rw [hrun]
  exact hmoved

theorem processDueSends_stuck
    (h : ∃ row ∈ (dueSends now db).take claimBatchSize, insertFails c db row = true) :
    processDueSends c now db = db := by
  rw [processDueSends, inSession]
  cases hrun : ((dueSends now (Session.start db).view).take claimBatchSize).foldlM
      (moveDueSend c) (Session.start db) with
  | none => rfl
  | some s' =>
    have hinactive := moveAll_refused rfl (MovedTo.refl db)
      (take_nodup now db claimBatchSize) h hrun
    rw [Option.bind_some, commit_inactive hinactive]

end Tick

section Ticks

variable {c : Constraints} {clock : ℕ → Time} {now now' : Time} {db db' : Db} {k n : ℕ}
  {row : PendingSend}

theorem dueSends_congr (h : ∀ row ∈ db.pendingSends.rows, row.due now' = row.due now) :
    dueSends now' db = dueSends now db := by
  rw [dueSends, dueSends, List.filter_congr h]

theorem dueSends_moved (h : MovedTo db ((dueSends now db).take k) db') :
    dueSends now db' = (dueSends now db).drop k := by
  have hfilter : db'.pendingSends.rows.filter (PendingSend.due now) =
      (db.pendingSends.rows.filter (PendingSend.due now)).filter fun r =>
        decide (r.id ∉ ((dueSends now db).take k).map PendingSend.id) := by
    rw [h.pendingSends, List.filter_filter, List.filter_filter]
    exact List.filter_congr fun r _ => Bool.and_comm _ _
  have hsorted := SortedQueue.filter_insertionSort
    (r := fun a b : PendingSend => a.sendAfter ≤ b.sendAfter)
    (fun r => decide (r.id ∉ ((dueSends now db).take k).map PendingSend.id))
    (db.pendingSends.rows.filter (PendingSend.due now))
  have hdrop := SortedQueue.filter_take_eq_drop (dueSends now db) (dueSends_nodup now db) k
  calc dueSends now db'
      = (dueSends now db).filter
          (fun r => decide (r.id ∉ ((dueSends now db).take k).map PendingSend.id)) := by
        rw [dueSends, hfilter, ← hsorted]
        rfl
    _ = (dueSends now db).drop k := hdrop

/-- The set of rows that are due is the same at every tick. -/
def SameDue (clock : ℕ → Time) (db : Db) : Prop :=
  ∀ n, ∀ row ∈ db.pendingSends.rows, row.due (clock n) = row.due (clock 0)

theorem rest_disjoint (now : Time) (db : Db) (k : ℕ) :
    ∀ row ∈ (dueSends now db).drop k,
      row.id ∉ ((dueSends now db).take k).map PendingSend.id := by
  have hnodup := dueSends_nodup now db
  rw [← List.take_append_drop k (dueSends now db), List.map_append] at hnodup
  intro row hrow hmem
  exact (List.nodup_append.1 hnodup).2.2 _ hmem _ (List.mem_map_of_mem hrow) rfl

theorem dueSends_rest (hclock : SameDue clock db)
    (h : MovedTo db ((dueSends (clock 0) db).take k) db') :
    dueSends (clock n) db' = (dueSends (clock 0) db).drop k := by
  rw [← dueSends_moved h]
  refine dueSends_congr fun row hrow => hclock n row ?_
  rw [h.pendingSends] at hrow
  exact (List.mem_filter.1 hrow).1

theorem tick_moves (hclock : SameDue clock db)
    (h : MovedTo db ((dueSends (clock 0) db).take (claimBatchSize * k)) db')
    (hgood : ∀ row ∈ ((dueSends (clock 0) db).drop (claimBatchSize * k)).take claimBatchSize,
      insertFails c db row = false) :
    MovedTo db ((dueSends (clock 0) db).take (claimBatchSize * (k + 1)))
      (processDueSends c (clock n) db') := by
  have hrest : dueSends (clock n) db' = _ := dueSends_rest hclock h
  have hdisjoint := rest_disjoint (clock 0) db (claimBatchSize * k)
  have hmoves : MovedTo db' ((dueSends (clock n) db').take claimBatchSize)
      (processDueSends c (clock n) db') := processDueSends_moves fun row hrow => by
    rw [hrest] at hrow
    rw [h.insertFails (hdisjoint row (List.mem_of_mem_take hrow))]
    exact hgood row hrow
  rw [hrest] at hmoves
  have hall := h.trans hmoves fun row hrow => hdisjoint row (List.mem_of_mem_take hrow)
  rwa [← List.take_add, ← Nat.mul_succ] at hall

theorem tick_stuck (hclock : SameDue clock db)
    (h : MovedTo db ((dueSends (clock 0) db).take (claimBatchSize * k)) db')
    (hbad : ∃ row ∈ ((dueSends (clock 0) db).drop (claimBatchSize * k)).take claimBatchSize,
      insertFails c db row = true) :
    processDueSends c (clock n) db' = db' := by
  have hrest : dueSends (clock n) db' = _ := dueSends_rest hclock h
  obtain ⟨row, hrow, hfails⟩ := hbad
  refine processDueSends_stuck ⟨row, ?_, ?_⟩
  · rwa [hrest]
  · have hdisjoint := rest_disjoint (clock 0) db (claimBatchSize * k)
    rw [h.insertFails (hdisjoint row (List.mem_of_mem_take hrow))]
    exact hfails

/-- **After any number of ticks** some first batches of the due rows are moved, none of
their rows failing, and everything else is as it was. -/
theorem ticks_moved (hclock : SameDue clock db) (n : ℕ) :
    ∃ k, MovedTo db ((dueSends (clock 0) db).take (claimBatchSize * k)) (ticks c clock db n) ∧
      ∀ row ∈ (dueSends (clock 0) db).take (claimBatchSize * k), insertFails c db row = false := by
  induction n with
  | zero =>
    refine ⟨0, ?_, by simp⟩
    rw [Nat.mul_zero, List.take_zero]
    exact MovedTo.refl db
  | succ n ih =>
    obtain ⟨k, hmoved, hgood⟩ := ih
    by_cases hbatch : ∀ row ∈
        ((dueSends (clock 0) db).drop (claimBatchSize * k)).take claimBatchSize,
        insertFails c db row = false
    · refine ⟨k + 1, tick_moves hclock hmoved hbatch, ?_⟩
      rw [Nat.mul_succ, List.take_add]
      intro row hrow
      obtain hold | hnew := List.mem_append.1 hrow
      · exact hgood row hold
      · exact hbatch row hnew
    · refine ⟨k, ?_, hgood⟩
      have hstuck := tick_stuck (c := c) (n := n) hclock hmoved (by simpa using hbatch)
      rw [ticks, hstuck]
      exact hmoved

end Ticks

/-- A row and its attachments are as they were, and so is what `outbox` has under its id. -/
structure Kept (db db' : Db) (row : PendingSend) : Prop where
  staged : row ∈ db'.pendingSends.rows
  attachments : db'.attachmentsOf row.id = db.attachmentsOf row.id
  outbox : ∀ o : Outbox, o.id = row.id → (o ∈ db'.outbox.rows ↔ o ∈ db.outbox.rows)
  outboxAttachments : db'.outboxAttachmentsOf row.id = db.outboxAttachmentsOf row.id

/-- A row is gone from the staging table and in `outbox` under its own id. -/
structure Moved (db db' : Db) (row : PendingSend) : Prop where
  unstaged : ∀ r ∈ db'.pendingSends.rows, r.id ≠ row.id
  attachmentsGone : db'.attachmentsOf row.id = []
  queued : row.toOutbox ∈ db'.outbox.rows
  attachments : db'.outboxAttachmentsOf row.id =
    db.outboxAttachmentsOf row.id ++
      (db.attachmentsOf row.id).map (·.toOutboxAttachment row.id)

/-- Every due row that does not fail ends up moved, each of them and every row that fails
being at every moment either as it was or moved. -/
structure EveryOtherMoved (c : Constraints) (clock : ℕ → Time) (db : Db) : Prop where
  whole : ∀ n, ∀ row ∈ dueSends (clock 0) db,
    Kept db (ticks c clock db n) row ∨
      insertFails c db row = false ∧ Moved db (ticks c clock db n) row
  moved : ∀ row ∈ dueSends (clock 0) db, insertFails c db row = false →
    ∃ m, ∀ n ≥ m, Moved db (ticks c clock db n) row

section Rows

variable {db db' : Db} {rows : List PendingSend} {row : PendingSend}

theorem attachments_of_others (h : row.id ∉ rows.map PendingSend.id) :
    (rows.flatMap fun r => (db.attachmentsOf r.id).map (·.toOutboxAttachment r.id)).filter
      (fun a => decide (a.outboxId = row.id)) = [] := by
  rw [List.filter_eq_nil_iff]
  intro a ha hid
  obtain ⟨r, hr, ha⟩ := List.mem_flatMap.1 ha
  obtain ⟨b, -, rfl⟩ := List.mem_map.1 ha
  have hsame : r.id = row.id := of_decide_eq_true hid
  exact h (hsame ▸ List.mem_map_of_mem hr)

theorem attachments_of_moved (hids : (rows.map PendingSend.id).Nodup) (h : row ∈ rows) :
    (rows.flatMap fun r => (db.attachmentsOf r.id).map (·.toOutboxAttachment r.id)).filter
      (fun a => decide (a.outboxId = row.id)) =
        (db.attachmentsOf row.id).map (·.toOutboxAttachment row.id) := by
  induction rows with
  | nil => cases h
  | cons r rows ih =>
    rw [List.map_cons, List.nodup_cons] at hids
    rw [List.flatMap_cons, List.filter_append]
    obtain rfl | hmem := List.mem_cons.1 h
    · rw [attachments_of_others hids.1, List.append_nil, List.filter_eq_self]
      intro a ha
      obtain ⟨b, -, rfl⟩ := List.mem_map.1 ha
      exact decide_eq_true rfl
    · have hne : r.id ≠ row.id := by
        intro heq
        exact hids.1 (heq ▸ List.mem_map_of_mem hmem)
      have hnone : ((db.attachmentsOf r.id).map (·.toOutboxAttachment r.id)).filter
          (fun a => decide (a.outboxId = row.id)) = [] := by
        rw [List.filter_eq_nil_iff]
        intro a ha hid
        obtain ⟨b, -, rfl⟩ := List.mem_map.1 ha
        exact hne (of_decide_eq_true hid)
      rw [hnone, List.nil_append, ih hids.2 hmem]

theorem MovedTo.kept (h : MovedTo db rows db') (hrow : row ∈ db.pendingSends.rows)
    (hid : row.id ∉ rows.map PendingSend.id) : Kept db db' row where
  staged := by
    rw [h.pendingSends, List.mem_filter]
    exact ⟨hrow, decide_eq_true hid⟩
  attachments := h.attachmentsOf hid
  outbox := by
    intro o ho
    rw [h.outbox, List.mem_append]
    refine or_iff_left fun hmem => ?_
    obtain ⟨r, hr, rfl⟩ := List.mem_map.1 hmem
    have hsame : r.id = row.id := ho
    exact hid (hsame ▸ List.mem_map_of_mem hr)
  outboxAttachments := by
    rw [Db.outboxAttachmentsOf, h.outboxAttachments, List.filter_append,
      attachments_of_others hid, List.append_nil]
    rfl

theorem MovedTo.moved (h : MovedTo db rows db') (hids : (rows.map PendingSend.id).Nodup)
    (hrow : row ∈ rows) : Moved db db' row where
  unstaged := by
    intro r hr heq
    rw [h.pendingSends, List.mem_filter] at hr
    exact of_decide_eq_true hr.2 (heq ▸ List.mem_map_of_mem hrow)
  attachmentsGone := by
    rw [Db.attachmentsOf, h.pendingSendAttachments, List.filter_filter, List.filter_eq_nil_iff]
    intro a _ ha
    rw [Bool.and_eq_true, decide_eq_true_eq, decide_eq_true_eq] at ha
    exact ha.2 (ha.1 ▸ List.mem_map_of_mem hrow)
  queued := by
    rw [h.outbox]
    exact List.mem_append_right _ (List.mem_map_of_mem hrow)
  attachments := by
    rw [Db.outboxAttachmentsOf, h.outboxAttachments, List.filter_append,
      attachments_of_moved hids hrow]
    rfl

end Rows

/-- As long as a row that does not fail is left, the twenty rows due longest hold none
that fails. -/
def NoneInTheWay (c : Constraints) (now : Time) (db : Db) : Prop :=
  ∀ k, (∃ row ∈ (dueSends now db).drop (claimBatchSize * k), insertFails c db row = false) →
    ∀ row ∈ ((dueSends now db).drop (claimBatchSize * k)).take claimBatchSize,
      insertFails c db row = false

section Claim

variable {c : Constraints} {clock : ℕ → Time} {db : Db}

theorem ticks_settle (hclock : SameDue clock db) {k : ℕ}
    (hk : MovedTo db ((dueSends (clock 0) db).take (claimBatchSize * k)) (ticks c clock db k))
    (hrest : ∀ row ∈ (dueSends (clock 0) db).drop (claimBatchSize * k),
      insertFails c db row = true) (n : ℕ) (hn : n ≥ k) :
    MovedTo db ((dueSends (clock 0) db).take (claimBatchSize * k)) (ticks c clock db n) := by
  induction n, hn using Nat.le_induction with
  | base => exact hk
  | succ n hn ih =>
    rw [ticks]
    cases hbatch : (dueSends (clock 0) db).drop (claimBatchSize * k) with
    | nil =>
      -- nothing is due: the tick moves an empty batch
      have hmoves := tick_moves (c := c) (n := n) hclock ih (by simp [hbatch])
      have hall : (dueSends (clock 0) db).take (claimBatchSize * (k + 1)) =
          (dueSends (clock 0) db).take (claimBatchSize * k) := by
        rw [Nat.mul_succ, List.take_add, hbatch, List.take_nil, List.append_nil]
      rwa [hall] at hmoves
    | cons row rest =>
      have hmem : row ∈ ((dueSends (clock 0) db).drop (claimBatchSize * k)).take
          claimBatchSize := by
        rw [hbatch, claimBatchSize, List.take_succ_cons]
        exact List.mem_cons_self
      rw [tick_stuck hclock ih ⟨row, hmem, hrest row (List.mem_of_mem_take hmem)⟩]
      exact ih

theorem ticks_advance (hclock : SameDue clock db) {k : ℕ}
    (hgood : ∀ j < k, ∀ row ∈
      ((dueSends (clock 0) db).drop (claimBatchSize * j)).take claimBatchSize,
      insertFails c db row = false) :
    MovedTo db ((dueSends (clock 0) db).take (claimBatchSize * k)) (ticks c clock db k) := by
  induction k with
  | zero =>
    rw [Nat.mul_zero, List.take_zero]
    exact MovedTo.refl db
  | succ k ih =>
    exact tick_moves hclock (ih fun j hj => hgood j (Nat.lt_succ_of_lt hj))
      (hgood k (Nat.lt_succ_self k))

/-- Repeated ticks move every due row that does not fail, and keep those that do, exactly when
none that fails is in the batches of twenty, by `send_after`, up to the last with a row that does
not. -/
theorem due_sends_moved_iff (hclock : SameDue clock db) :
    EveryOtherMoved c clock db ↔ NoneInTheWay c (clock 0) db := by
  have hids : ∀ k, (((dueSends (clock 0) db).take k).map PendingSend.id).Nodup :=
    take_nodup (clock 0) db
  constructor
  · rintro ⟨-, hmoved⟩ k ⟨row, hrow, hgood⟩ failing hfailing
    cases hfails : insertFails c db failing with
    | false => rfl
    | true =>
      -- the batch of `failing` is never moved, so neither is `row`, which is not before it
      exfalso
      obtain ⟨m, hm⟩ := hmoved row (List.mem_of_mem_drop hrow) hgood
      obtain ⟨j, hj, hjgood⟩ := ticks_moved (c := c) hclock m
      have hjk : j ≤ k := by
        by_contra hlt
        have hmem : failing ∈ (dueSends (clock 0) db).take (claimBatchSize * j) := by
          have hprefix : (dueSends (clock 0) db).take (claimBatchSize * (k + 1)) <+:
              (dueSends (clock 0) db).take (claimBatchSize * j) :=
            List.take_prefix_take_left (Nat.mul_le_mul_left _ (by omega))
          rw [Nat.mul_succ, List.take_add] at hprefix
          exact hprefix.subset (List.mem_append_right _ hfailing)
        rw [hjgood failing hmem] at hfails
        cases hfails
      have hstill : row ∈ (dueSends (clock 0) db).drop (claimBatchSize * j) :=
        (List.drop_subset_drop_left _ (Nat.mul_le_mul_left claimBatchSize hjk)) hrow
      have hkept := hj.kept (mem_dueSends.1 (List.mem_of_mem_drop hstill)).1
        (rest_disjoint (clock 0) db _ row hstill)
      exact (hm m (Nat.le_refl m)).unstaged row hkept.staged rfl
  · intro hway
    refine ⟨fun n row hrow => ?_, fun row hrow hgood => ?_⟩
    · obtain ⟨k, hk, hkgood⟩ := ticks_moved (c := c) hclock n
      rw [← List.take_append_drop (claimBatchSize * k) (dueSends (clock 0) db)] at hrow
      obtain htaken | hleft := List.mem_append.1 hrow
      · exact Or.inr ⟨hkgood row htaken, hk.moved (hids _) htaken⟩
      · exact Or.inl (hk.kept (mem_dueSends.1 (List.mem_of_mem_drop hleft)).1
          (rest_disjoint (clock 0) db _ row hleft))
    · -- the first batch from which on every row fails
      have hend : ∃ k, ∀ row ∈ (dueSends (clock 0) db).drop (claimBatchSize * k),
          insertFails c db row = true := by
        refine ⟨(dueSends (clock 0) db).length, ?_⟩
        rw [List.drop_eq_nil_of_le (by rw [claimBatchSize]; omega)]
        intro row hrow
        cases hrow
      have hlast := Nat.find_spec hend
      have hadvance := ticks_advance (c := c) hclock (k := Nat.find hend) fun j hj => by
        have hmore := Nat.find_min hend hj
        obtain ⟨left, hleft, hleftgood⟩ : ∃ row ∈ (dueSends (clock 0) db).drop
            (claimBatchSize * j), ¬ insertFails c db row = true := by simpa using hmore
        exact hway j ⟨left, hleft, by simpa using hleftgood⟩
      refine ⟨Nat.find hend, fun n hn => ?_⟩
      have hsettled := ticks_settle hclock hadvance hlast n hn
      rw [← List.take_append_drop (claimBatchSize * Nat.find hend) (dueSends (clock 0) db)] at hrow
      obtain htaken | hleft := List.mem_append.1 hrow
      · exact hsettled.moved (hids _) htaken
      · rw [hlast row hleft] at hgood
        cases hgood

end Claim

section Runs

/-- A staged send with no more in it than a recipient and the draft it replaces. -/
def staged (id : Uuid) (sendAfter : Time) (replaces : Option Uuid) : PendingSend where
  accountId := 1
  fromAddr := none
  toAddrs := some ["a@example.org"]
  ccAddrs := none
  bccAddrs := none
  subject := none
  bodyText := none
  bodyHtml := none
  inReplyTo := none
  references := none
  replacesMessageId := replaces
  id := id
  sendAfter := sendAfter
  cancelledAt := none

def twoDue (draft : Option Uuid) : Db where
  pendingSends := ⟨[staged 1 10 draft, staged 2 11 none], by simp [staged]⟩
  pendingSendAttachments := [⟨2, none, none, [7], none⟩]
  outbox := KeyedTable.empty
  outboxAttachments := []

def noDrafts : Constraints where
  refusesOutbox o := o.replacesMessageId.isSome
  refusesAttachment _ := false

theorem two_due_are_moved : SameDue (fun n => 20 + n) (twoDue none) ∧
    EveryOtherMoved noDrafts (fun n => 20 + n) (twoDue none) := by
  have hclock : SameDue (fun n => 20 + n) (twoDue none) := by
    intro n row hrow
    have hafter : row.sendAfter ≤ 20 := by
      revert row
      decide
    rw [PendingSend.due, PendingSend.due, decide_eq_true (le_trans hafter (Nat.le_add_right 20 n)),
      decide_eq_true (show row.sendAfter ≤ 20 + 0 from hafter)]
  refine ⟨hclock, (due_sends_moved_iff hclock).2 fun k _ row hrow => ?_⟩
  have hall : ∀ row ∈ dueSends 20 (twoDue none), insertFails noDrafts (twoDue none) row = false := by
    decide
  exact hall row (List.mem_of_mem_drop (List.mem_of_mem_take hrow))

/-- The draft of the first row is gone: no tick ever moves the second. -/
theorem gone_draft_blocks_the_rest :
    ¬ EveryOtherMoved noDrafts (fun n => 20 + n) (twoDue (some 5)) := by
  intro h
  have hdue : ∀ n, dueSends (20 + n) (twoDue (some 5)) = dueSends 20 (twoDue (some 5)) := by
    intro n
    refine dueSends_congr fun row hrow => ?_
    have hafter : row.sendAfter ≤ 20 := by
      revert row
      decide
    rw [PendingSend.due, PendingSend.due, decide_eq_true (le_trans hafter (Nat.le_add_right 20 n)),
      decide_eq_true hafter]
  have hstuck : ∀ n, ticks noDrafts (fun n => 20 + n) (twoDue (some 5)) n = twoDue (some 5) := by
    intro n
    induction n with
    | zero => rfl
    | succ n ih =>
      rw [ticks, ih]
      refine processDueSends_stuck ?_
      rw [hdue]
      decide
  obtain ⟨m, hm⟩ := h.moved (staged 2 11 none) (by decide) (by decide)
  have hmoved := hm m (Nat.le_refl m)
  rw [hstuck] at hmoved
  exact hmoved.unstaged (staged 2 11 none) (by decide) rfl

end Runs

end MailVerdict.Analysis.PendingSendTicks
