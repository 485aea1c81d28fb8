import MailVerdict.Analysis.SendSteps

/-!
# A send is in one place

The id of a send is drawn once, by the request that writes its row. Until the request
commits the id is in no table; from then on it is in exactly one, and what moves it from
one to the other is one transaction. The lock of a row keeps the worker and a cancel
apart: a row that a tick has claimed is uncancelled until the tick ends, and a row a
cancel has matched is in no batch.
-/

namespace MailVerdict.Analysis.SendOnce

open MailVerdict.Computation
open Model.PendingSends
open Model.SendRequests

section Locks

variable {s t : State} {n : TxId}

/-- What an open transaction holds: every row it is about to write, locked by it, still
staged and not cancelled. -/
def HeldBy (s : State) (n : TxId) : Tx → Prop
  | .create _ _ => True
  | .move batch => (batch.map PendingSend.id).Nodup ∧
      ∀ r ∈ batch, r ∈ s.pendingSends.rows ∧ r.cancelledAt = none ∧ s.rowLock r.id = some n
  | .cancel id => ∃ p ∈ s.pendingSends.rows, p.id = id ∧ p.cancelledAt = none ∧
      s.rowLock id = some n

theorem HeldBy.congr {tx : Tx} (h : HeldBy s n tx) (hpending : t.pendingSends = s.pendingSends)
    (hlocks : t.rowLock = s.rowLock) : HeldBy t n tx := by
  cases tx with
  | create r phase => trivial
  | move batch =>
    refine ⟨h.1, fun r hr => ?_⟩
    rw [hpending, hlocks]
    exact h.2 r hr
  | cancel id =>
    obtain ⟨p, hp, hheld⟩ := h
    rw [← hpending] at hp
    rw [← hlocks] at hheld
    exact ⟨p, hp, hheld⟩

def Held (s : State) : Prop := ∀ n tx, s.txs n = some tx → HeldBy s n tx

theorem Held.kept (h : Held s) (hothers : OthersKept n s t)
    (hown : ∀ tx, t.txs n = some tx → HeldBy t n tx)
    (hrows : ∀ p ∈ s.pendingSends.rows, s.rowLock p.id ≠ some n → (s.rowLock p.id).isSome →
      p ∈ t.pendingSends.rows) : Held t := by
  intro m tx htx
  by_cases hm : m = n
  · subst hm
    exact hown tx htx
  · rw [hothers.txs m hm] at htx
    have hstay : ∀ p ∈ s.pendingSends.rows, s.rowLock p.id = some m →
        p ∈ t.pendingSends.rows := by
      intro p hp hlock
      refine hrows p hp ?_ ?_
      · rw [hlock]
        simpa using hm
      · rw [hlock]
        rfl
    have hheld := h m tx htx
    cases tx with
    | create r phase => trivial
    | move batch =>
      refine ⟨hheld.1, fun r hr => ?_⟩
      obtain ⟨hrow, huncancelled, hlock⟩ := hheld.2 r hr
      exact ⟨hstay r hrow hlock, huncancelled, hothers.rowLock m hm r.id hlock⟩
    | cancel id =>
      obtain ⟨p, hp, rfl, huncancelled, hlock⟩ := hheld
      exact ⟨p, hstay p hp hlock, rfl, huncancelled, hothers.rowLock m hm p.id hlock⟩

theorem Held.ended (h : Held s) (hothers : OthersKept n s t) (hended : t.txs n = none)
    (hrows : ∀ p ∈ s.pendingSends.rows, s.rowLock p.id ≠ some n → p ∈ t.pendingSends.rows) :
    Held t := by
  refine h.kept hothers (fun tx htx => ?_) fun p hp hother _ => hrows p hp hother
  rw [hended] at htx
  cases htx

theorem Held.step (h : Held s) (hm : Moves s t) : Held t := by
  cases hm with
  | idle htables hid htxs hlocks =>
    intro m tx htx
    rw [htxs] at htx
    exact (h m tx htx).congr htables.pendingSends hlocks
  | ended n htables hid hothers htx =>
    exact h.ended hothers htx fun p hp _ => by rwa [htables.pendingSends]
  | advanced n r phase htables hid hothers htx hwritten
  | inserted n r w htables hid hw hothers htx =>
    refine h.kept hothers (fun tx hown => ?_) fun p hp _ _ => by rwa [htables.pendingSends]
    rw [htx] at hown
    cases hown
    trivial
  | claimed n batch htables hid hothers htx hids hbatch =>
    refine h.kept hothers (fun tx hown => ?_) fun p hp _ _ => by rwa [htables.pendingSends]
    rw [htx] at hown
    cases hown
    refine ⟨hids, fun r hr => ?_⟩
    rw [htables.pendingSends]
    exact hbatch r hr
  | cancelling n row htables hid hothers htx hrow huncancelled hlock =>
    refine h.kept hothers (fun tx hown => ?_) fun p hp _ _ => by rwa [htables.pendingSends]
    rw [htx] at hown
    cases hown
    refine ⟨row, ?_, rfl, huncancelled, hlock⟩
    rwa [htables.pendingSends]
  | staged n r row htx hpending houtbox hsubmissions haccepted hid hothers hended =>
    refine h.ended hothers hended fun p hp _ => ?_
    rw [hpending]
    exact List.mem_append_left _ hp
  | queued n r row htx hpending houtbox hsubmissions haccepted hid hothers hended =>
    exact h.ended hothers hended fun p hp _ => by rwa [hpending]
  | moved n batch htx hpending houtbox hsubmissions haccepted hid hothers hended =>
    refine h.ended hothers hended fun p hp hother => (hpending p).2 ⟨hp, fun hmem => ?_⟩
    obtain ⟨r, hr, hrid⟩ := List.mem_map.1 hmem
    rw [← hrid] at hother
    exact hother ((h n _ htx).2 r hr).2.2
  | cancelled n id now htx hpending houtbox hsubmissions haccepted hid hothers hended =>
    refine h.ended hothers hended fun p hp hother => ?_
    rw [hpending, List.mem_map]
    refine ⟨p, hp, if_neg ?_⟩
    rintro rfl
    obtain ⟨-, -, -, -, hlock⟩ := h n _ htx
    exact hother hlock
  | status id status hpending houtbox hsubmissions haccepted hid htxs hlocks =>
    intro m tx htx
    rw [htxs] at htx
    exact (h m tx htx).congr hpending hlocks

end Locks

section Ids

variable {s t : State} {n : TxId}

def writtenBy (s : State) (n : TxId) : Option Written := (s.txs n).bind Tx.written

/-- An id is in one place at most: the row of an open request, the staging table, or the
outbox. -/
structure IdsApart (s : State) : Prop where
  stagedOld : ∀ p ∈ s.pendingSends.rows, p.id < s.nextId
  queuedOld : ∀ q ∈ s.outbox.rows, q.id < s.nextId
  disjoint : ∀ p ∈ s.pendingSends.rows, ∀ q ∈ s.outbox.rows, p.id ≠ q.id
  written : ∀ n w, writtenBy s n = some w → w.id < s.nextId ∧
    (∀ p ∈ s.pendingSends.rows, p.id ≠ w.id) ∧ ∀ q ∈ s.outbox.rows, q.id ≠ w.id
  writtenApart : ∀ m n w v, writtenBy s m = some w → writtenBy s n = some v → m ≠ n →
    w.id ≠ v.id

def NoneWritten (s t : State) : Prop := ∀ m w, writtenBy t m = some w → writtenBy s m = some w

theorem noneWritten_ended (hothers : OthersKept n s t) (hended : t.txs n = none) :
    NoneWritten s t := by
  intro m w hw
  by_cases hm : m = n
  · subst hm
    rw [writtenBy, hended] at hw
    cases hw
  · rwa [writtenBy, hothers.txs m hm] at hw

theorem noneWritten_own {tx : Tx} (hothers : OthersKept n s t) (htx : t.txs n = some tx)
    (hown : ∀ w, tx.written = some w → writtenBy s n = some w) : NoneWritten s t := by
  intro m w hw
  by_cases hm : m = n
  · subst hm
    rw [writtenBy, htx] at hw
    exact hown w hw
  · rwa [writtenBy, hothers.txs m hm] at hw

/-- A transaction has ended and its row is left to the tables. -/
def Leaves (s t : State) (id : Uuid) : Prop :=
  ∃ n w, writtenBy s n = some w ∧ writtenBy t n = none ∧ w.id = id

theorem leaves_ended {w : Written} (hw : writtenBy s n = some w) (hended : t.txs n = none) :
    Leaves s t w.id := by
  refine ⟨n, w, hw, ?_, rfl⟩
  rw [writtenBy, hended]
  rfl

/-- Ids stay apart where each of a later table comes from one place of before, and one that
came into the outbox is not staged any more. -/
theorem IdsApart.relocated (h : IdsApart s) (hid : t.nextId = s.nextId)
    (hwritten : NoneWritten s t)
    (hpending : ∀ p ∈ t.pendingSends.rows,
      (∃ p' ∈ s.pendingSends.rows, p'.id = p.id) ∨ Leaves s t p.id)
    (houtbox : ∀ q ∈ t.outbox.rows, (∃ q' ∈ s.outbox.rows, q'.id = q.id) ∨
      ((∃ p' ∈ s.pendingSends.rows, p'.id = q.id) ∨ Leaves s t q.id) ∧
        ∀ p ∈ t.pendingSends.rows, p.id ≠ q.id) : IdsApart t := by
  have hleft : ∀ id, Leaves s t id → id < s.nextId ∧
      (∀ q ∈ s.outbox.rows, q.id ≠ id) ∧ ∀ m w, writtenBy t m = some w → id ≠ w.id := by
    rintro id ⟨n, w, hw, hnone, rfl⟩
    obtain ⟨hold, -, hqueued⟩ := h.written n w hw
    refine ⟨hold, hqueued, fun m v hv => h.writtenApart n m w v hw (hwritten m v hv) ?_⟩
    rintro rfl
    rw [hnone] at hv
    cases hv
  refine ⟨fun p hp => ?_, fun q hq => ?_, fun p hp q hq => ?_, fun m w hw => ?_,
    fun m n w v hw hv => h.writtenApart m n w v (hwritten m w hw) (hwritten n v hv)⟩
  · rw [hid]
    obtain ⟨p', hp', hsame⟩ | hleaves := hpending p hp
    · exact hsame ▸ h.stagedOld p' hp'
    · exact (hleft _ hleaves).1
  · rw [hid]
    obtain ⟨q', hq', hsame⟩ | ⟨⟨p', hp', hsame⟩ | hleaves, -⟩ := houtbox q hq
    · exact hsame ▸ h.queuedOld q' hq'
    · exact hsame ▸ h.stagedOld p' hp'
    · exact (hleft _ hleaves).1
  · obtain ⟨q', hq', hsame⟩ | ⟨-, hgone⟩ := houtbox q hq
    · obtain ⟨p', hp', hsame'⟩ | hleaves := hpending p hp
      · rw [← hsame, ← hsame']
        exact h.disjoint p' hp' q' hq'
      · rw [← hsame]
        exact ((hleft _ hleaves).2.1 q' hq').symm
    · exact hgone p hp
  · obtain ⟨hold, hstaged, hqueued⟩ := h.written m w (hwritten m w hw)
    rw [hid]
    refine ⟨hold, fun p hp => ?_, fun q hq => ?_⟩
    · obtain ⟨p', hp', hsame⟩ | hleaves := hpending p hp
      · exact hsame ▸ hstaged p' hp'
      · exact (hleft _ hleaves).2.2 m w hw
    · obtain ⟨q', hq', hsame⟩ | ⟨⟨p', hp', hsame⟩ | hleaves, -⟩ := houtbox q hq
      · exact hsame ▸ hqueued q' hq'
      · exact hsame ▸ hstaged p' hp'
      · exact (hleft _ hleaves).2.2 m w hw

theorem IdsApart.sameTables (h : IdsApart s) (htables : SameTables s t)
    (hid : t.nextId = s.nextId) (hwritten : NoneWritten s t) : IdsApart t := by
  refine h.relocated hid hwritten (fun p hp => Or.inl ⟨p, ?_, rfl⟩) fun q hq =>
    Or.inl ⟨q, ?_, rfl⟩
  · rwa [htables.pendingSends] at hp
  · rwa [htables.outbox] at hq

theorem IdsApart.inserted {w : Written} {tx : Tx} (h : IdsApart s) (htables : SameTables s t)
    (hid : t.nextId = s.nextId + 1) (hw : w.id = s.nextId) (hothers : OthersKept n s t)
    (htx : t.txs n = some tx) (hown : tx.written = some w) : IdsApart t := by
  have hother : ∀ m, m ≠ n → ∀ v, writtenBy t m = some v → writtenBy s m = some v := by
    intro m hm v hv
    rwa [writtenBy, hothers.txs m hm] at hv
  have hnew : ∀ v, writtenBy t n = some v → v.id = s.nextId := by
    intro v hv
    rw [writtenBy, htx, Option.bind_some, hown, Option.some.injEq] at hv
    rw [← hv, hw]
  refine ⟨fun p hp => ?_, fun q hq => ?_, fun p hp q hq => ?_, fun m v hv => ?_,
    fun m k v u hv hu hmk => ?_⟩
  · rw [htables.pendingSends] at hp
    rw [hid]
    exact Nat.lt_succ_of_lt (h.stagedOld p hp)
  · rw [htables.outbox] at hq
    rw [hid]
    exact Nat.lt_succ_of_lt (h.queuedOld q hq)
  · rw [htables.pendingSends] at hp
    rw [htables.outbox] at hq
    exact h.disjoint p hp q hq
  · rw [hid, htables.pendingSends, htables.outbox]
    by_cases hmn : m = n
    · subst hmn
      rw [hnew v hv]
      exact ⟨Nat.lt_succ_self _, fun p hp => Nat.ne_of_lt (h.stagedOld p hp),
        fun q hq => Nat.ne_of_lt (h.queuedOld q hq)⟩
    · obtain ⟨hold, hstaged, hqueued⟩ := h.written m v (hother m hmn v hv)
      exact ⟨Nat.lt_succ_of_lt hold, hstaged, hqueued⟩
  · by_cases hmn : m = n
    · subst hmn
      rw [hnew v hv]
      exact Nat.ne_of_gt (h.written k u (hother k (Ne.symm hmk) u hu)).1
    · by_cases hkn : k = n
      · subst hkn
        rw [hnew u hu]
        exact Nat.ne_of_lt (h.written m v (hother m hmn v hv)).1
      · exact h.writtenApart m k v u (hother m hmn v hv) (hother k hkn u hu) hmk

/-- No step gives two sends one id. -/
theorem IdsApart.step (h : IdsApart s) (hheld : Held s) (hm : Moves s t) : IdsApart t := by
  cases hm with
  | idle htables hid htxs hlocks =>
    exact h.sameTables htables hid fun m w hw => by rwa [writtenBy, htxs] at hw
  | ended n htables hid hothers htx =>
    exact h.sameTables htables hid (noneWritten_ended hothers htx)
  | advanced n r phase htables hid hothers htx hwritten =>
    refine h.sameTables htables hid (noneWritten_own hothers htx fun w hw => ?_)
    rw [writtenBy, hwritten w hw]
    rfl
  | inserted n r w htables hid hw hothers htx =>
    exact h.inserted htables hid hw hothers htx rfl
  | claimed n batch htables hid hothers htx hids hbatch
  | cancelling n row htables hid hothers htx hrow huncancelled hlock =>
    exact h.sameTables htables hid (noneWritten_own hothers htx fun w hw => by cases hw)
  | staged n r row htx hpending houtbox hsubmissions haccepted hid hothers hended =>
    have hrow : writtenBy s n = some (.staged row) := by
      rw [writtenBy, htx]
      rfl
    refine h.relocated hid (noneWritten_ended hothers hended) (fun p hp => ?_) fun q hq =>
      Or.inl ⟨q, by rwa [houtbox] at hq, rfl⟩
    rw [hpending, List.mem_append, List.mem_singleton] at hp
    obtain hp | rfl := hp
    · exact Or.inl ⟨p, hp, rfl⟩
    · exact Or.inr (leaves_ended hrow hended)
  | queued n r row htx hpending houtbox hsubmissions haccepted hid hothers hended =>
    have hrow : writtenBy s n = some (.queued row) := by
      rw [writtenBy, htx]
      rfl
    refine h.relocated hid (noneWritten_ended hothers hended)
      (fun p hp => Or.inl ⟨p, by rwa [hpending] at hp, rfl⟩) fun q hq => ?_
    rw [houtbox, List.mem_append, List.mem_singleton] at hq
    obtain hq | rfl := hq
    · exact Or.inl ⟨q, hq, rfl⟩
    · refine Or.inr ⟨Or.inr (leaves_ended hrow hended), fun p hp => ?_⟩
      rw [hpending] at hp
      exact (h.written n _ hrow).2.1 p hp
  | moved n batch htx hpending houtbox hsubmissions haccepted hid hothers hended =>
    refine h.relocated hid (noneWritten_ended hothers hended)
      (fun p hp => Or.inl ⟨p, ((hpending p).1 hp).1, rfl⟩) fun q hq => ?_
    rw [houtbox, List.mem_append] at hq
    obtain hq | hq := hq
    · exact Or.inl ⟨q, hq, rfl⟩
    · obtain ⟨r, hr, rfl⟩ := List.mem_map.1 hq
      refine Or.inr ⟨Or.inl ⟨r, ((hheld n _ htx).2 r hr).1, rfl⟩, fun p hp hsame => ?_⟩
      exact ((hpending p).1 hp).2 (List.mem_map.2 ⟨r, hr, hsame.symm⟩)
  | cancelled n id now htx hpending houtbox hsubmissions haccepted hid hothers hended =>
    refine h.relocated hid (noneWritten_ended hothers hended) (fun p hp => Or.inl ?_)
      fun q hq => Or.inl ⟨q, by rwa [houtbox] at hq, rfl⟩
    rw [hpending] at hp
    obtain ⟨p', hp', rfl⟩ := List.mem_map.1 hp
    refine ⟨p', hp', ?_⟩
    split <;> rfl
  | status id status hpending houtbox hsubmissions haccepted hid htxs hlocks =>
    refine h.relocated hid (fun m w hw => by rwa [writtenBy, htxs] at hw)
      (fun p hp => Or.inl ⟨p, by rwa [hpending] at hp, rfl⟩) fun q hq => Or.inl ?_
    rw [houtbox] at hq
    obtain ⟨q', hq', rfl⟩ := List.mem_map.1 hq
    refine ⟨q', hq', ?_⟩
    split <;> rfl

end Ids

section Accepting

variable {s t : State} {n : TxId}

/-- What was accepted is in a table, and a key leads to the id that it was accepted under. -/
structure AcceptedOk (s : State) : Prop where
  placed : ∀ a ∈ s.accepted, (∃ p ∈ s.pendingSends.rows, p.id = a.id) ∨
    ∃ q ∈ s.outbox.rows, q.id = a.id
  keyed : ∀ a ∈ s.accepted, ∀ k, a.idempotencyKey = some k →
    ∃ x ∈ s.submissions.rows, x.idempotencyKey = k ∧ x.targetId = a.id

theorem AcceptedOk.sameTables (h : AcceptedOk s) (htables : SameTables s t) : AcceptedOk t := by
  refine ⟨?_, ?_⟩
  · rw [htables.accepted, htables.pendingSends, htables.outbox]
    exact h.placed
  · rw [htables.accepted, htables.submissions]
    exact h.keyed

theorem AcceptedOk.accepts {r : Request} {id : Uuid} (h : AcceptedOk s)
    (hplaced : ∀ i, (∃ p ∈ s.pendingSends.rows, p.id = i) ∨ (∃ q ∈ s.outbox.rows, q.id = i) ∨
      i = id → (∃ p ∈ t.pendingSends.rows, p.id = i) ∨ ∃ q ∈ t.outbox.rows, q.id = i)
    (hsubmissions : ∀ x, x ∈ t.submissions.rows ↔ x ∈ s.submissions.rows ∨
      r.idempotencyKey = some x.idempotencyKey ∧ x = ⟨x.idempotencyKey, r.kind, id⟩)
    (haccepted : t.accepted = s.accepted ++ [⟨id, r.idempotencyKey⟩]) : AcceptedOk t := by
  refine ⟨fun a ha => ?_, fun a ha k hk => ?_⟩
  · rw [haccepted, List.mem_append, List.mem_singleton] at ha
    obtain ha | rfl := ha
    · exact hplaced a.id ((h.placed a ha).imp_right Or.inl)
    · exact hplaced id (Or.inr (Or.inr rfl))
  · rw [haccepted, List.mem_append, List.mem_singleton] at ha
    obtain ha | rfl := ha
    · obtain ⟨x, hx, hfound⟩ := h.keyed a ha k hk
      exact ⟨x, (hsubmissions x).2 (Or.inl hx), hfound⟩
    · exact ⟨⟨k, r.kind, id⟩, (hsubmissions _).2 (Or.inr ⟨hk, rfl⟩), rfl, rfl⟩

/-- Every accepted send keeps its one row, staged or in the outbox. -/
theorem AcceptedOk.step (h : AcceptedOk s) (hm : Moves s t) : AcceptedOk t := by
  cases hm with
  | idle htables hid htxs hlocks | ended n htables hid hothers htx
  | advanced n r phase htables hid hothers htx hwritten
  | inserted n r w htables hid hw hothers htx
  | claimed n batch htables hid hothers htx hids hbatch => exact h.sameTables htables
  | cancelling n row htables hid hothers htx hrow huncancelled hlock =>
    exact h.sameTables htables
  | staged n r row htx hpending houtbox hsubmissions haccepted hid hothers hended =>
    refine h.accepts (fun i hi => ?_) hsubmissions haccepted
    rw [hpending, houtbox]
    obtain ⟨p, hp, hpi⟩ | hq | rfl := hi
    · exact Or.inl ⟨p, List.mem_append_left _ hp, hpi⟩
    · exact Or.inr hq
    · exact Or.inl ⟨row, List.mem_append_right _ (List.mem_singleton_self row), rfl⟩
  | queued n r row htx hpending houtbox hsubmissions haccepted hid hothers hended =>
    refine h.accepts (fun i hi => ?_) hsubmissions haccepted
    rw [hpending, houtbox]
    obtain hp | ⟨q, hq, hqi⟩ | rfl := hi
    · exact Or.inl hp
    · exact Or.inr ⟨q, List.mem_append_left _ hq, hqi⟩
    · exact Or.inr ⟨_, List.mem_append_right _ (List.mem_singleton_self _), rfl⟩
  | moved n batch htx hpending houtbox hsubmissions haccepted hid hothers hended =>
    refine ⟨fun a ha => ?_, by rw [haccepted, hsubmissions]; exact h.keyed⟩
    rw [haccepted] at ha
    rw [houtbox]
    obtain ⟨p, hp, hpa⟩ | ⟨q, hq, hqa⟩ := h.placed a ha
    · by_cases hmem : p.id ∈ batch.map PendingSend.id
      · obtain ⟨r, hr, hrp⟩ := List.mem_map.1 hmem
        refine Or.inr ⟨_, List.mem_append_right _ (List.mem_map_of_mem hr), ?_⟩
        exact hrp.trans hpa
      · exact Or.inl ⟨p, (hpending p).2 ⟨hp, hmem⟩, hpa⟩
    · exact Or.inr ⟨q, List.mem_append_left _ hq, hqa⟩
  | cancelled n id now htx hpending houtbox hsubmissions haccepted hid hothers hended =>
    refine ⟨fun a ha => ?_, by rw [haccepted, hsubmissions]; exact h.keyed⟩
    rw [haccepted] at ha
    rw [houtbox, hpending]
    refine (h.placed a ha).imp_left ?_
    rintro ⟨p, hp, hpa⟩
    refine ⟨_, List.mem_map_of_mem hp, ?_⟩
    split
    · exact hpa
    · exact hpa
  | status id status hpending houtbox hsubmissions haccepted hid htxs hlocks =>
    refine ⟨fun a ha => ?_, by rw [haccepted, hsubmissions]; exact h.keyed⟩
    rw [haccepted] at ha
    rw [houtbox, hpending]
    refine (h.placed a ha).imp_right ?_
    rintro ⟨q, hq, hqa⟩
    refine ⟨_, List.mem_map_of_mem hq, ?_⟩
    split
    · exact hqa
    · exact hqa

def Cancelled (s : State) (id : Uuid) : Prop :=
  ∃ p ∈ s.pendingSends.rows, p.id = id ∧ p.cancelledAt.isSome

/-- A cancelled send stays staged and cancelled. -/
theorem Cancelled.step {id : Uuid} (h : Cancelled s id) (hheld : Held s) (hm : Moves s t) :
    Cancelled t id := by
  obtain ⟨p, hp, rfl, hcancelled⟩ := h
  have hstays : p ∈ t.pendingSends.rows → Cancelled t p.id := fun hp => ⟨p, hp, rfl, hcancelled⟩
  cases hm with
  | idle htables _ _ _ | ended _ htables _ _ _ | advanced _ _ _ htables _ _ _ _
  | inserted _ _ _ htables _ _ _ _ | claimed _ _ htables _ _ _ _ _
  | cancelling _ _ htables _ _ _ _ _ _ => exact hstays (by rwa [htables.pendingSends])
  | staged n r row htx hpending houtbox hsubmissions haccepted hid hothers hended =>
    refine hstays ?_
    rw [hpending]
    exact List.mem_append_left _ hp
  | queued n r row htx hpending houtbox hsubmissions haccepted hid hothers hended
  | status id status hpending houtbox hsubmissions haccepted hid htxs hlocks =>
    exact hstays (by rwa [hpending])
  | moved n batch htx hpending houtbox hsubmissions haccepted hid hothers hended =>
    refine hstays ((hpending p).2 ⟨hp, fun hmem => ?_⟩)
    -- a claimed row is not cancelled
    obtain ⟨r, hr, hrp⟩ := List.mem_map.1 hmem
    obtain ⟨hrow, huncancelled, -⟩ := (hheld n _ htx).2 r hr
    rw [s.pendingSends.eq_of_key_eq hrow hp hrp] at huncancelled
    rw [huncancelled] at hcancelled
    cases hcancelled
  | cancelled n id now htx hpending houtbox hsubmissions haccepted hid hothers hended =>
    by_cases hid : p.id = id
    · refine ⟨{ p with cancelledAt := some now }, ?_, rfl, rfl⟩
      rw [hpending]
      exact List.mem_map.2 ⟨p, hp, by rw [if_pos hid]⟩
    · refine hstays ?_
      rw [hpending]
      exact List.mem_map.2 ⟨p, hp, by rw [if_neg hid]⟩

end Accepting

structure Inv (s : State) : Prop where
  held : Held s
  idsApart : IdsApart s
  accepted : AcceptedOk s

theorem inv_start : Inv Model.SendRequests.start where
  held := by
    intro n tx h
    cases h
  idsApart := by
    refine ⟨?_, ?_, ?_, ?_, ?_⟩
    · intro p hp
      cases hp
    · intro q hq
      cases hq
    · intro p hp
      cases hp
    · intro n w hw
      cases hw
    · intro m n w v hw
      cases hw
  accepted := by
    refine ⟨?_, ?_⟩
    · intro a ha
      cases ha
    · intro a ha
      cases ha

theorem inv_step {s t : State} {l : Label} (h : Inv s) (hst : step s l = some t) : Inv t :=
  ⟨h.held.step (step_moves hst), h.idsApart.step h.held (step_moves hst),
    h.accepted.step (step_moves hst)⟩

theorem inv_of_reachable {s : State} (h : system.Reachable TransitionSystem.anyStep s) : Inv s :=
  h.invariant (fun s' (hs : s' = Model.SendRequests.start) => hs ▸ inv_start)
    (fun _ _ _ hinv _ hst => inv_step hinv hst)

inductive Place
  | cancelled
  | staged
  | queued

def places (s : State) (id : Uuid) : List Place :=
  (s.pendingSends.rows.filter fun p => decide (p.id = id)).map
      (fun p => if p.cancelledAt.isSome then .cancelled else .staged) ++
    (s.outbox.rows.filter fun q => decide (q.id = id)).map fun _ => .queued

def carries (s : State) (k id : Uuid) : Bool :=
  s.accepted.any fun a => decide (a.idempotencyKey = some k) && decide (a.id = id)

/-- The live sends of a key: its uncancelled staged rows and its sends in `outbox` that are
not dead. -/
def liveSends (s : State) (k : Uuid) : List Uuid :=
  (s.pendingSends.rows.filter fun p => p.cancelledAt.isNone && carries s k p.id).map
      PendingSend.id ++
    (s.outbox.rows.filter fun q => decide (q.row.kind = .send) && decide (q.status ≠ .dead) &&
      carries s k q.id).map QueuedRow.id

section Claim

variable {s : State}

theorem AcceptedOk.carries_eq (h : AcceptedOk s) {k i j : Uuid} (hi : carries s k i = true)
    (hj : carries s k j = true) : i = j := by
  simp only [carries, List.any_eq_true, Bool.and_eq_true, decide_eq_true_eq] at hi hj
  obtain ⟨a, ha, hak, rfl⟩ := hi
  obtain ⟨b, hb, hbk, rfl⟩ := hj
  obtain ⟨x, hx, hxk, hxa⟩ := h.keyed a ha k hak
  obtain ⟨y, hy, hyk, hyb⟩ := h.keyed b hb k hbk
  have hsame : x = y := s.submissions.eq_of_key_eq hx hy (hxk.trans hyk.symm)
  rw [← hxa, ← hyb, hsame]

theorem carries_of_live {k i : Uuid} (h : i ∈ liveSends s k) : carries s k i = true := by
  rw [liveSends, List.mem_append] at h
  obtain h | h := h
  · obtain ⟨p, hp, rfl⟩ := List.mem_map.1 h
    exact (Bool.and_eq_true_iff.1 (List.mem_filter.1 hp).2).2
  · obtain ⟨q, hq, rfl⟩ := List.mem_map.1 h
    exact (Bool.and_eq_true_iff.1 (List.mem_filter.1 hq).2).2

theorem liveSends_nodup (h : IdsApart s) (k : Uuid) : (liveSends s k).Nodup := by
  rw [liveSends, List.nodup_append]
  refine ⟨s.pendingSends.primaryKey.sublist (List.filter_sublist.map _),
    s.outbox.primaryKey.sublist (List.filter_sublist.map _), ?_⟩
  intro i hi j hj
  obtain ⟨p, hp, rfl⟩ := List.mem_map.1 hi
  obtain ⟨q, hq, rfl⟩ := List.mem_map.1 hj
  exact h.disjoint p (List.mem_filter.1 hp).1 q (List.mem_filter.1 hq).1

theorem liveSends_length (h : Inv s) (k : Uuid) : (liveSends s k).length ≤ 1 := by
  have hnodup := liveSends_nodup h.idsApart k
  have hsame : ∀ i ∈ liveSends s k, ∀ j ∈ liveSends s k, i = j := fun i hi j hj =>
    h.accepted.carries_eq (carries_of_live hi) (carries_of_live hj)
  match hlive : liveSends s k with
  | [] => exact Nat.zero_le 1
  | [_] => exact Nat.le_refl 1
  | i :: j :: rest =>
    rw [hlive] at hnodup hsame
    have heq : i = j := hsame i (by simp) j (by simp)
    rw [heq] at hnodup
    simp at hnodup

theorem places_staged (h : IdsApart s) {p : PendingSend} (hp : p ∈ s.pendingSends.rows) :
    places s p.id = [if p.cancelledAt.isSome then .cancelled else .staged] := by
  have hnone : (s.outbox.rows.filter fun q => decide (q.id = p.id)) = [] := by
    rw [List.filter_eq_nil_iff]
    intro q hq hsame
    exact h.disjoint p hp q hq (of_decide_eq_true hsame).symm
  rw [places, s.pendingSends.filter_key_eq hp, hnone]
  rfl

theorem places_queued (h : IdsApart s) {q : QueuedRow} (hq : q ∈ s.outbox.rows) :
    places s q.id = [.queued] := by
  have hnone : (s.pendingSends.rows.filter fun p => decide (p.id = q.id)) = [] := by
    rw [List.filter_eq_nil_iff]
    intro p hp hsame
    exact h.disjoint p hp q hq (of_decide_eq_true hsame)
  rw [places, s.outbox.filter_key_eq hq, hnone]
  rfl

theorem places_one (h : Inv s) {a : Accepted} (ha : a ∈ s.accepted) :
    ∃ place, places s a.id = [place] := by
  obtain ⟨p, hp, hpa⟩ | ⟨q, hq, hqa⟩ := h.accepted.placed a ha
  · exact hpa ▸ ⟨_, places_staged h.idsApart hp⟩
  · exact hqa ▸ ⟨_, places_queued h.idsApart hq⟩

theorem cancelled_of_commit (h : Inv s) {t : State} {n : TxId} {id : Uuid}
    (htx : s.txs n = some (.cancel id)) (hst : step s (.commit n) = some t) :
    Cancelled t id := by
  obtain ⟨p, hp, hpid, -, -⟩ := h.held n _ htx
  have hcommit : s.commitCancel n id = t := by
    simpa only [step, State.commit, htx, Option.some.injEq] using hst
  rw [← hcommit]
  refine ⟨{ p with cancelledAt := some s.now }, ?_, hpid, rfl⟩
  exact KeyedTable.mem_update_of (p := fun p => decide (p.id = id))
    (f := fun p : PendingSend => { p with cancelledAt := some s.now }) (fun _ => rfl) hp
    (decide_eq_true hpid)

/-- In every state of every run: a key has one live send at most, every accepted send is
in one row of one table, and after a cancel has committed its row never comes into
`outbox`. -/
theorem message_sent_once (h : system.Reachable TransitionSystem.anyStep s) :
    (∀ k, (liveSends s k).length ≤ 1) ∧
    (∀ a ∈ s.accepted, ∃ place, places s a.id = [place]) ∧
    ∀ n id t u, s.txs n = some (.cancel id) → step s (.commit n) = some t →
      system.Run TransitionSystem.anyStep t u → ∀ q ∈ u.outbox.rows, q.id ≠ id := by
  have hinv := inv_of_reachable h
  refine ⟨liveSends_length hinv, fun a ha => places_one hinv ha, fun n id t u htx hst hrun => ?_⟩
  have hend : Inv u ∧ Cancelled u id :=
    hrun.preserves (I := fun v => Inv v ∧ Cancelled v id)
      (fun v l w hv _ hst => ⟨inv_step hv.1 hst, hv.2.step hv.1.held (step_moves hst)⟩)
      ⟨inv_step hinv hst, cancelled_of_commit hinv htx hst⟩
  obtain ⟨hu, p, hp, rfl, -⟩ := hend
  intro q hq hsame
  exact hu.idsApart.disjoint p hp q hq hsame.symm

def aRequest : Request where
  accountId := 1
  fromAddr := none
  toAddrs := some ["a@example.org"]
  ccAddrs := none
  bccAddrs := none
  subject := none
  bodyText := none
  bodyHtml := none
  inReplyTo := none
  references := none
  replacesMessageId := none
  kind := .send
  idempotencyKey := some 7

theorem repeated_request_is_cancelled_once : ∃ s t : State,
    system.Reachable TransitionSystem.anyStep s ∧ liveSends s 7 = [0] ∧
    step s (.commit 3) = some t ∧ places t 0 = [.cancelled] ∧
    (∀ k, (liveSends s k).length ≤ 1) ∧
    ∀ u, system.Run TransitionSystem.anyStep t u → ∀ q ∈ u.outbox.rows, q.id ≠ 0 := by
  obtain ⟨s, t, hexec, hlive, htx, hst, hplace⟩ : ∃ s t : State,
      system.exec Model.SendRequests.start
        [.setUndoSendSeconds 5, .createOutbox 1 aRequest, .lockKey 1, .readSubmission 1,
          .lockDraft 1, .insert 1, .createOutbox 2 aRequest, .record 1, .commit 1, .lockKey 2,
          .readSubmission 2, .cancel 3 0] = some s ∧
      liveSends s 7 = [0] ∧ s.txs 3 = some (.cancel 0) ∧ step s (.commit 3) = some t ∧
      places t 0 = [.cancelled] := ⟨_, _, rfl, rfl, rfl, rfl, rfl⟩
  have hreach : system.Reachable TransitionSystem.anyStep s :=
    TransitionSystem.reachable_of_exec_any _ rfl hexec
  obtain ⟨hlength, -, hgone⟩ := message_sent_once hreach
  exact ⟨s, t, hreach, hlive, hst, hplace, hlength, fun u hu => hgone 3 0 t u htx hst hu⟩

end Claim

/-! ## What is sent -/

section Content

variable {s t : State} {o : Outbox}

/-- A send with this content is staged or in `outbox`. -/
def Holds (o : Outbox) (s : State) : Prop :=
  (∃ p ∈ s.pendingSends.rows, p.toOutbox = o) ∨ ∃ q ∈ s.outbox.rows, q.row = o

theorem Holds.step (h : Holds o s) (hheld : Held s) (hm : Moves s t) : Holds o t := by
  cases hm with
  | idle htables | ended _ htables | advanced _ _ _ htables | inserted _ _ _ htables
  | claimed _ _ htables | cancelling _ _ htables =>
    rwa [Holds, htables.pendingSends, htables.outbox]
  | staged n r row htx hpending houtbox =>
    rw [Holds, hpending, houtbox]
    exact h.imp_left fun ⟨p, hp, ho⟩ => ⟨p, List.mem_append_left _ hp, ho⟩
  | queued n r row htx hpending houtbox =>
    rw [Holds, hpending, houtbox]
    exact h.imp_right fun ⟨q, hq, ho⟩ => ⟨q, List.mem_append_left _ hq, ho⟩
  | moved n batch htx hpending houtbox =>
    rw [Holds, houtbox]
    obtain ⟨p, hp, rfl⟩ | ⟨q, hq, rfl⟩ := h
    · by_cases hin : p.id ∈ batch.map PendingSend.id
      · obtain ⟨b, hb, hid⟩ := List.mem_map.1 hin
        obtain rfl := s.pendingSends.eq_of_key_eq ((hheld n _ htx).2 b hb).1 hp hid
        exact .inr ⟨_, List.mem_append_right _ (List.mem_map_of_mem hb), rfl⟩
      · exact .inl ⟨p, (hpending p).2 ⟨hp, hin⟩, rfl⟩
    · exact .inr ⟨q, List.mem_append_left _ hq, rfl⟩
  | cancelled n id now htx hpending houtbox =>
    rw [Holds, hpending, houtbox]
    exact h.imp_left fun ⟨p, hp, ho⟩ => ⟨_, List.mem_map_of_mem hp, by split <;> exact ho⟩
  | status id status hpending houtbox =>
    rw [Holds, hpending, houtbox]
    exact h.imp_right fun ⟨q, hq, ho⟩ => ⟨_, List.mem_map_of_mem hq, by split <;> exact ho⟩

/-- **What is sent is what was composed**, whatever runs beside it. -/
theorem content_kept (hs : system.Reachable TransitionSystem.anyStep s)
    (hrun : system.Run TransitionSystem.anyStep s t) (h : Holds o s) : Holds o t :=
  (hrun.preserves (I := fun u => Inv u ∧ Holds o u)
    (fun _ _ _ hu _ hst => ⟨inv_step hu.1 hst, hu.2.step hu.1.held (step_moves hst)⟩)
    ⟨inv_of_reachable hs, h⟩).2

def aLetter : Request :=
  { aRequest with
    fromAddr := some "Me <me@example.org>"
    ccAddrs := some ["c@example.org", "d@example.org"]
    subject := some "Re: terms"
    bodyText := some "Agreed."
    bodyHtml := some "<p>Agreed.</p>"
    inReplyTo := some "<1@example.org>"
    references := some ["<0@example.org>", "<1@example.org>"] }

/-- The letter is staged, and is in `outbox` as it was composed once its time has come. -/
theorem content_kept_of_request : ∃ (s t : State) (p : PendingSend),
    s.pendingSends.rows = [p] ∧ p.toComposed = aLetter.toComposed ∧
    t.pendingSends.rows = [] ∧ t.outbox.rows ≠ [] ∧ Holds p.toOutbox t := by
  obtain ⟨s, t, p, hs, ht, hp, hsame, hmoved, hout⟩ : ∃ (s t : State) (p : PendingSend),
      system.exec Model.SendRequests.start
        [.setUndoSendSeconds 5, .createOutbox 1 aLetter, .lockKey 1, .readSubmission 1,
          .lockDraft 1, .insert 1, .record 1, .commit 1] = some s ∧
      system.exec s [.tick 5, .claimDue 2, .commit 2] = some t ∧
      s.pendingSends.rows = [p] ∧ p.toComposed = aLetter.toComposed ∧
      t.pendingSends.rows = [] ∧ t.outbox.rows ≠ [] :=
    ⟨_, _, _, rfl, rfl, rfl, rfl, rfl, by decide⟩
  exact ⟨s, t, p, hp, hsame, hmoved, hout, content_kept
    (TransitionSystem.reachable_of_exec_any _ rfl hs) (TransitionSystem.run_of_exec_any _ ht)
    (.inl ⟨p, by rw [hp]; exact List.mem_singleton_self p, rfl⟩)⟩

end Content

end MailVerdict.Analysis.SendOnce
