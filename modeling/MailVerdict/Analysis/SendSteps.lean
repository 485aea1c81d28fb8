import MailVerdict.Model.SendRequests

/-!
# What a step does to the sends

`Moves` says once what a step may do to the tables, to the open transactions and to the
row locks (`step_moves`); the invariants are read off it. Every step is that of one
transaction: it leaves the others where they are and the row locks they hold.
-/

namespace MailVerdict.Analysis.SendOnce

open MailVerdict.Computation
open Model.PendingSends
open Model.SendRequests

structure SameTables (s t : State) : Prop where
  pendingSends : t.pendingSends = s.pendingSends
  outbox : t.outbox = s.outbox
  submissions : t.submissions = s.submissions
  accepted : t.accepted = s.accepted

/-- One transaction aside, every other is where it was and has the row locks it had. -/
structure OthersKept (n : TxId) (s t : State) : Prop where
  txs : ∀ m, m ≠ n → t.txs m = s.txs m
  rowLock : ∀ m, m ≠ n → ∀ x, s.rowLock x = some m → t.rowLock x = some m

inductive Moves (s t : State) : Prop
  | idle (htables : SameTables s t) (hid : t.nextId = s.nextId) (htxs : t.txs = s.txs)
      (hlocks : t.rowLock = s.rowLock)
  | ended (n : TxId) (htables : SameTables s t) (hid : t.nextId = s.nextId)
      (hothers : OthersKept n s t) (htx : t.txs n = none)
  | advanced (n : TxId) (r : Request) (phase : Phase) (htables : SameTables s t)
      (hid : t.nextId = s.nextId) (hothers : OthersKept n s t)
      (htx : t.txs n = some (.create r phase))
      (hwritten : ∀ w, phase.written = some w → s.txs n = some (.create r (.inserted w)))
  | inserted (n : TxId) (r : Request) (w : Written) (htables : SameTables s t)
      (hid : t.nextId = s.nextId + 1) (hw : w.id = s.nextId) (hothers : OthersKept n s t)
      (htx : t.txs n = some (.create r (.inserted w)))
  | claimed (n : TxId) (batch : List PendingSend) (htables : SameTables s t)
      (hid : t.nextId = s.nextId) (hothers : OthersKept n s t)
      (htx : t.txs n = some (.move batch)) (hids : (batch.map PendingSend.id).Nodup)
      (hbatch : ∀ r ∈ batch, r ∈ s.pendingSends.rows ∧ r.cancelledAt = none ∧
        t.rowLock r.id = some n)
  | cancelling (n : TxId) (row : PendingSend) (htables : SameTables s t)
      (hid : t.nextId = s.nextId) (hothers : OthersKept n s t)
      (htx : t.txs n = some (.cancel row.id)) (hrow : row ∈ s.pendingSends.rows)
      (huncancelled : row.cancelledAt = none) (hlock : t.rowLock row.id = some n)
  | staged (n : TxId) (r : Request) (row : PendingSend)
      (htx : s.txs n = some (.create r (.recorded (.staged row))))
      (hpending : t.pendingSends.rows = s.pendingSends.rows ++ [row])
      (houtbox : t.outbox = s.outbox)
      (hsubmissions : ∀ x, x ∈ t.submissions.rows ↔
        x ∈ s.submissions.rows ∨ r.idempotencyKey = some x.idempotencyKey ∧
          x = ⟨x.idempotencyKey, r.kind, row.id⟩)
      (haccepted : t.accepted = s.accepted ++ [⟨row.id, r.idempotencyKey⟩])
      (hid : t.nextId = s.nextId) (hothers : OthersKept n s t) (hended : t.txs n = none)
  | queued (n : TxId) (r : Request) (row : Outbox)
      (htx : s.txs n = some (.create r (.recorded (.queued row))))
      (hpending : t.pendingSends = s.pendingSends)
      (houtbox : t.outbox.rows = s.outbox.rows ++ [⟨row, .pending⟩])
      (hsubmissions : ∀ x, x ∈ t.submissions.rows ↔
        x ∈ s.submissions.rows ∨ r.idempotencyKey = some x.idempotencyKey ∧
          x = ⟨x.idempotencyKey, r.kind, row.id⟩)
      (haccepted : t.accepted = s.accepted ++ [⟨row.id, r.idempotencyKey⟩])
      (hid : t.nextId = s.nextId) (hothers : OthersKept n s t) (hended : t.txs n = none)
  | moved (n : TxId) (batch : List PendingSend) (htx : s.txs n = some (.move batch))
      (hpending : ∀ p, p ∈ t.pendingSends.rows ↔
        p ∈ s.pendingSends.rows ∧ p.id ∉ batch.map PendingSend.id)
      (houtbox : t.outbox.rows =
        s.outbox.rows ++ batch.map fun r => ⟨r.toOutbox, .pending⟩)
      (hsubmissions : t.submissions = s.submissions) (haccepted : t.accepted = s.accepted)
      (hid : t.nextId = s.nextId) (hothers : OthersKept n s t) (hended : t.txs n = none)
  | cancelled (n : TxId) (id : Uuid) (now : Time) (htx : s.txs n = some (.cancel id))
      (hpending : t.pendingSends.rows = s.pendingSends.rows.map fun p =>
        if p.id = id then { p with cancelledAt := some now } else p)
      (houtbox : t.outbox = s.outbox) (hsubmissions : t.submissions = s.submissions)
      (haccepted : t.accepted = s.accepted) (hid : t.nextId = s.nextId)
      (hothers : OthersKept n s t) (hended : t.txs n = none)
  | status (id : Uuid) (status : Status) (hpending : t.pendingSends = s.pendingSends)
      (houtbox : t.outbox.rows = s.outbox.rows.map fun q =>
        if q.id = id then { q with status := status } else q)
      (hsubmissions : t.submissions = s.submissions) (haccepted : t.accepted = s.accepted)
      (hid : t.nextId = s.nextId) (htxs : t.txs = s.txs) (hlocks : t.rowLock = s.rowLock)

section Steps

variable {s t : State} {n : TxId} {r : Request}

theorem finish_others (s : State) (n : TxId) : OthersKept n s (s.finish n) where
  txs := by
    intro m hm
    exact Function.update_of_ne hm none s.txs
  rowLock := by
    intro m hm x hx
    have hother : s.rowLock x ≠ some n := by
      rw [hx]
      simpa using hm
    show State.released s.rowLock n x = some m
    rw [State.released, if_neg hother, hx]

theorem setTx_others (s : State) (n : TxId) (tx : Tx) : OthersKept n s (s.setTx n tx) where
  txs := by
    intro m hm
    exact Function.update_of_ne hm (some tx) s.txs
  rowLock := fun _ _ _ hx => hx

theorem finish_txs (s : State) (n : TxId) : (s.finish n).txs n = none := by
  show Function.update s.txs n none n = none
  rw [Function.update_self]

theorem setTx_txs (s : State) (n : TxId) (tx : Tx) : (s.setTx n tx).txs n = some tx := by
  show Function.update s.txs n (some tx) n = some tx
  rw [Function.update_self]

theorem moves_finish (s : State) (n : TxId) : Moves s (s.finish n) :=
  .ended n ⟨rfl, rfl, rfl, rfl⟩ rfl (finish_others s n) (finish_txs s n)

theorem moves_phase (s : State) (n : TxId) (r : Request) (phase : Phase)
    (h : phase.written = none) : Moves s (s.setTx n (.create r phase)) := by
  refine .advanced n r phase ⟨rfl, rfl, rfl, rfl⟩ rfl (setTx_others s n _)
    (setTx_txs s n _) fun w hw => ?_
  rw [h] at hw
  cases hw

theorem moves_lockKey (h : s.lockKey n r = some t) : Moves s t := by
  rw [State.lockKey] at h
  split at h
  · cases h
    exact moves_phase s n r .keyUnused rfl
  · next k _ =>
      split at h
      · cases h
        refine .advanced n r (.keyLocked k) ⟨rfl, rfl, rfl, rfl⟩ rfl ?_
          (setTx_txs s n _) (fun w hw => by cases hw)
        exact ⟨(setTx_others s n _).txs, fun _ _ _ hx => hx⟩
      · cases h

theorem moves_lockDraft (h : s.lockDraft n r = some t) : Moves s t := by
  rw [State.lockDraft] at h
  split at h
  · next d _ _ =>
      split at h
      · cases h
        refine .advanced n r (.draftLocked d) ⟨rfl, rfl, rfl, rfl⟩ rfl ?_
          (setTx_txs s n _) (fun w hw => by cases hw)
        exact ⟨(setTx_others s n _).txs, fun _ _ _ hx => hx⟩
      · cases h
  · cases h
    exact moves_phase s n r .draftFree rfl

theorem moves_readSubmission (k : Uuid) : Moves s (s.readSubmission n r k) := by
  rw [State.readSubmission]
  split
  · exact moves_finish s n
  · exact moves_phase s n r .keyUnused rfl

theorem moves_readStaged (d : Uuid) : Moves s (s.readStaged n r d) := by
  rw [State.readStaged]
  split
  · exact moves_finish s n
  · exact moves_phase s n r (.draftNotStaged d) rfl

theorem moves_readQueued (d : Uuid) : Moves s (s.readQueued n r d) := by
  rw [State.readQueued]
  split
  · exact moves_finish s n
  · exact moves_phase s n r .draftFree rfl

theorem write_id (s : State) (r : Request) : (s.write r).id = s.nextId := by
  rw [State.write]
  split <;> rfl

theorem moves_insert (s : State) (n : TxId) (r : Request) : Moves s (s.insert n r) := by
  refine .inserted n r (s.write r) ⟨rfl, rfl, rfl, rfl⟩ rfl (write_id s r) ?_
    (setTx_txs s n _)
  exact ⟨(setTx_others s n _).txs, fun _ _ _ hx => hx⟩

theorem moves_record {w : Written} (htx : s.txs n = some (.create r (.inserted w))) :
    Moves s (s.record n r w) := by
  have hgoes : Moves s (s.setTx n (.create r (.recorded w))) := by
    refine .advanced n r (.recorded w) ⟨rfl, rfl, rfl, rfl⟩ rfl (setTx_others s n _)
      (setTx_txs s n _) fun v hv => ?_
    cases hv
    exact htx
  rw [State.record]
  split
  · split
    · exact moves_finish s n
    · exact hgoes
  · exact hgoes

theorem claimable_nodup (s : State) : (s.claimable.map PendingSend.id).Nodup := by
  rw [State.claimable]
  refine List.Nodup.sublist ((List.take_sublist _ _).map _) ?_
  exact ((List.perm_insertionSort _ _).map _).nodup_iff.2
    (s.pendingSends.primaryKey.sublist (List.filter_sublist.map _))

theorem mem_claimable {p : PendingSend} (h : p ∈ s.claimable) :
    p ∈ s.pendingSends.rows ∧ p.cancelledAt = none ∧ s.rowLock p.id = none := by
  have hfilter := (List.mem_insertionSort _).1 (List.mem_of_mem_take h)
  rw [List.mem_filter, Bool.and_eq_true, decide_eq_true_eq, PendingSend.due,
    Bool.and_eq_true, Option.isNone_iff_eq_none] at hfilter
  exact ⟨hfilter.1, hfilter.2.1.1, hfilter.2.2⟩

theorem moves_claimDue (s : State) (n : TxId) : Moves s (s.claimDue n) := by
  refine .claimed n s.claimable ⟨rfl, rfl, rfl, rfl⟩ rfl ⟨(setTx_others s n _).txs, ?_⟩
    (setTx_txs s n _) (claimable_nodup s) fun p hp => ?_
  · intro m _ x hx
    show (if x ∈ s.claimable.map PendingSend.id then some n else s.rowLock x) = some m
    rw [if_neg, hx]
    -- a row that somebody holds was passed over
    intro hmem
    obtain ⟨p, hp, rfl⟩ := List.mem_map.1 hmem
    rw [(mem_claimable hp).2.2] at hx
    cases hx
  · obtain ⟨hrow, huncancelled, -⟩ := mem_claimable hp
    refine ⟨hrow, huncancelled, ?_⟩
    show (if p.id ∈ s.claimable.map PendingSend.id then some n else s.rowLock p.id) = some n
    rw [if_pos (List.mem_map_of_mem hp)]

theorem moves_cancel {id : Uuid} (h : s.cancel n id = some t) : Moves s t := by
  have hsame : Moves s s := .idle ⟨rfl, rfl, rfl, rfl⟩ rfl rfl rfl
  rw [State.cancel] at h
  split at h
  · cases h
  · next hfree =>
      split at h
      · next row hfind =>
          obtain ⟨hrow, rfl⟩ := KeyedTable.find?_eq_some_iff.1 hfind
          split at h
          · next huncancelled =>
              cases h
              refine .cancelling n row ⟨rfl, rfl, rfl, rfl⟩ rfl
                ⟨(setTx_others s n _).txs, ?_⟩ (setTx_txs s n _) hrow huncancelled
                (Function.update_self row.id (some n) s.rowLock)
              intro m _ x hx
              have hne : x ≠ row.id := by
                rintro rfl
                rw [hx] at hfree
                exact hfree (by simp)
              show Function.update s.rowLock row.id (some n) x = some m
              rw [Function.update_of_ne hne, hx]
          · cases h
            exact hsame
      · cases h
        exact hsame

theorem addSubmission_eq {u : State} {id : Uuid} (h : s.addSubmission r id = some u) :
    u.pendingSends = s.pendingSends ∧ u.outbox = s.outbox ∧ u.accepted = s.accepted ∧
      u.nextId = s.nextId ∧ u.txs = s.txs ∧ u.rowLock = s.rowLock ∧
      ∀ x, x ∈ u.submissions.rows ↔ x ∈ s.submissions.rows ∨
        r.idempotencyKey = some x.idempotencyKey ∧ x = ⟨x.idempotencyKey, r.kind, id⟩ := by
  rw [State.addSubmission] at h
  split at h
  · next k hk =>
      split at h
      · next hfresh =>
          cases h
          refine ⟨rfl, rfl, rfl, rfl, rfl, rfl, fun x => ?_⟩
          rw [KeyedTable.mem_insert]
          refine or_congr_right ⟨?_, ?_⟩
          · rintro rfl
            exact ⟨hk, rfl⟩
          · rintro ⟨hkey, hx⟩
            rw [hk, Option.some.injEq] at hkey
            rw [hx, hkey]
      · cases h
  · next hk =>
      cases h
      refine ⟨rfl, rfl, rfl, rfl, rfl, rfl, fun x => ?_⟩
      rw [hk]
      simp

theorem moves_commitCreate {w : Written} (htx : s.txs n = some (.create r (.recorded w)))
    (h : s.commitCreate n r w = some t) : Moves s t := by
  rw [State.commitCreate, Option.bind_eq_some_iff] at h
  obtain ⟨u, hu, h⟩ := h
  rw [Option.map_eq_some_iff] at h
  obtain ⟨v, hv, rfl⟩ := h
  obtain ⟨hpending, houtbox, haccepted, hid, htxs, hlocks, hsubmissions⟩ := addSubmission_eq hv
  have hothers : ∀ a, u.txs = s.txs → u.rowLock = s.rowLock →
      OthersKept n s { v.finish n with accepted := a } := by
    intro a hutxs hulocks
    have hfinish := finish_others v n
    refine ⟨fun m hm => ?_, fun m hm x hx => ?_⟩
    · rw [← hutxs, ← htxs]
      exact hfinish.txs m hm
    · rw [← hulocks, ← hlocks] at hx
      exact hfinish.rowLock m hm x hx
  cases w with
  | staged row =>
    rw [State.addWritten] at hu
    split at hu
    · cases hu
      refine .staged n r row htx ?_ houtbox hsubmissions ?_ hid (hothers _ rfl rfl)
        (finish_txs v n)
      · show v.pendingSends.rows = _
        rw [hpending]
        rfl
      · show v.accepted ++ _ = _
        rw [haccepted]
        rfl
    · cases hu
  | queued row =>
    rw [State.addWritten] at hu
    split at hu
    · cases hu
      refine .queued n r row htx hpending ?_ hsubmissions ?_ hid (hothers _ rfl rfl)
        (finish_txs v n)
      · show v.outbox.rows = _
        rw [houtbox]
        rfl
      · show v.accepted ++ _ = _
        rw [haccepted]
        rfl
    · cases hu

theorem moveAll_eq {batch : List PendingSend} (h : batch.foldlM State.moveRow s = some t) :
    (∀ p, p ∈ t.pendingSends.rows ↔
      p ∈ s.pendingSends.rows ∧ p.id ∉ batch.map PendingSend.id) ∧
    t.outbox.rows = s.outbox.rows ++ (batch.map fun r => ⟨r.toOutbox, .pending⟩) ∧
    t.submissions = s.submissions ∧ t.accepted = s.accepted ∧ t.nextId = s.nextId ∧
    t.txs = s.txs ∧ t.rowLock = s.rowLock := by
  induction batch generalizing s with
  | nil =>
    cases h
    simp
  | cons row batch ih =>
    rw [List.foldlM_cons, Option.bind_eq_bind, Option.bind_eq_some_iff] at h
    obtain ⟨u, hu, h⟩ := h
    obtain ⟨hpending, houtbox, hsubmissions, haccepted, hid, htxs, hlocks⟩ := ih h
    rw [State.moveRow] at hu
    split at hu
    · cases hu
      refine ⟨fun p => ?_, ?_, hsubmissions, haccepted, hid, htxs, hlocks⟩
      · rw [hpending, KeyedTable.mem_erase, List.map_cons, List.mem_cons, not_or, and_assoc]
      · rw [houtbox]
        show (s.outbox.rows ++ [_]) ++ _ = _
        rw [List.append_assoc, List.map_cons]
        rfl
    · cases hu

theorem moves_commitMove {batch : List PendingSend} (htx : s.txs n = some (.move batch))
    (h : s.commitMove n batch = some t) : Moves s t := by
  rw [State.commitMove, Option.map_eq_some_iff] at h
  obtain ⟨u, hu, rfl⟩ := h
  obtain ⟨hpending, houtbox, hsubmissions, haccepted, hid, htxs, hlocks⟩ := moveAll_eq hu
  refine .moved n batch htx hpending houtbox hsubmissions haccepted hid ⟨?_, ?_⟩ (finish_txs u n)
  · rw [← htxs]
    exact (finish_others u n).txs
  · rw [← hlocks]
    exact (finish_others u n).rowLock

theorem moves_commit (h : s.commit n = some t) : Moves s t := by
  rw [State.commit] at h
  split at h
  · next r w htx => exact moves_commitCreate htx h
  · next batch htx => exact moves_commitMove htx h
  · next id htx =>
      cases h
      refine .cancelled n id s.now htx ?_ rfl rfl rfl rfl ?_ (finish_txs s n)
      · show s.pendingSends.rows.map _ = _
        simp only [decide_eq_true_eq]
      · exact ⟨(finish_others s n).txs, (finish_others s n).rowLock⟩
  · cases h

/-- **Every step is one of these.** -/
theorem step_moves {l : Label} (h : step s l = some t) : Moves s t := by
  cases l with
  | tick elapsed | setUndoSendSeconds seconds =>
    cases h
    exact .idle ⟨rfl, rfl, rfl, rfl⟩ rfl rfl rfl
  | createOutbox n r =>
    simp only [step] at h
    split at h
    · cases h
      exact moves_phase s n r .started rfl
    · cases h
  | lockKey n =>
    simp only [step] at h
    split at h
    · exact moves_lockKey h
    · cases h
  | readSubmission n =>
    simp only [step] at h
    split at h
    · cases h
      exact moves_readSubmission _
    · cases h
  | lockDraft n =>
    simp only [step] at h
    split at h
    · exact moves_lockDraft h
    · cases h
  | readStaged n =>
    simp only [step] at h
    split at h
    · cases h
      exact moves_readStaged _
    · cases h
  | readQueued n =>
    simp only [step] at h
    split at h
    · cases h
      exact moves_readQueued _
    · cases h
  | insert n =>
    simp only [step] at h
    split at h
    · cases h
      exact moves_insert s n _
    · cases h
  | record n =>
    simp only [step] at h
    split at h
    · next htx =>
        cases h
        exact moves_record htx
    · cases h
  | claimDue n =>
    simp only [step] at h
    split at h
    · cases h
      exact moves_claimDue s n
    · cases h
  | cancel n id =>
    simp only [step] at h
    split at h
    · exact moves_cancel h
    · cases h
  | commit n => exact moves_commit h
  | rollback n =>
    simp only [step] at h
    split at h
    · cases h
    · cases h
      exact moves_finish s n
  | setStatus id status =>
    cases h
    refine .status id status rfl ?_ rfl rfl rfl rfl rfl
    show s.outbox.rows.map _ = _
    simp only [decide_eq_true_eq]

end Steps

end MailVerdict.Analysis.SendOnce
