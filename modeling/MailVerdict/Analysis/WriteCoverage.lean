import MailVerdict.Analysis.WriteQueueSteps
import Mathlib.Data.List.Pairwise

/-!
# The write queue and the changes it owes

Two things are asked of the write queue. A statement that returns rows to `pending` must
not meet the index; it does so exactly when two write jobs of one order would come to
wait (`done_iff_not_collides`), which a job claimed before the other was enqueued brings
about. And a committed change must be read by some write job.

A transaction that changes an order enqueues first and commits later. If it inserted a
job of its own, that job reads the order after the commit. If it found a job waiting, all
rests on that job not reading before the commit: nothing makes it wait for an endpoint's
transaction. A job that gives up for good, or finds the order's counters at zero, drops
what it owed. `Careful` excludes these; under it `Covered` is kept, by way of what is
owed to open transactions (`Owed`).
-/

namespace MailVerdict.Analysis.WriteQueue

open MailVerdict.Computation Model.OrderJobs
open Model.WorkQueue (Row Status Time Uuid WorkerId freshRow)
open Analysis.WorkQueueExhaustion (heldBy_status heldBy_claimedBy leaseExpired_status)

variable {j' : Job} {o : Uuid} {n : TxId}

/-! ## The index -/

def Indexed (t : Table) : Prop :=
  ∀ a ∈ t.rows, ∀ b ∈ t.rows, ∀ o, indexKey a = some o → indexKey b = some o → a = b

theorem uq_iff_indexed {t : Table} : uqOrderJobsWrite t = true ↔ Indexed t := by
  have hnodup : t.rows.Nodup := t.primaryKey.of_map _
  simp only [uqOrderJobsWrite, decide_eq_true_eq]
  constructor
  · intro h a ha b hb o hao hbo
    by_contra hne
    have hsymm : Std.Symm fun a b => indexKey a = none ∨ indexKey a ≠ indexKey b :=
      ⟨fun x y hxy => by
        cases hy : indexKey y with
        | none => exact .inl rfl
        | some p =>
          rcases hxy with hx | hx
          · exact .inr (by simp [hx])
          · exact .inr (by rw [← hy]; exact Ne.symm hx)⟩
    rcases h.forall ha hb hne with hnone | hdiff
    · rw [hao] at hnone
      cases hnone
    · exact hdiff (hao.trans hbo.symm)
  · intro h
    refine hnodup.pairwise_of_forall_ne fun a ha b hb hne => ?_
    by_contra hno
    rw [not_or, not_not] at hno
    obtain ⟨o, ho⟩ := Option.ne_none_iff_exists'.1 hno.1
    exact hne (h a ha b hb o ho (hno.2 ▸ ho))

/-- A committed row a statement would return to `pending`. -/
def Goes (op : Return) (j : Job) : Prop := j.insertedBy = none ∧ op.picks j.row = true

/-- The statement would leave two pending write jobs of one order. -/
def Collides (op : Return) (t : Table) : Prop :=
  ∃ a ∈ t.rows, ∃ b ∈ t.rows, a.id ≠ b.id ∧ a.kind = .write ∧ b.kind = .write ∧
    a.orderId ≠ none ∧ a.orderId = b.orderId ∧ Goes op a ∧
      (Goes op b ∨ b.row.status = .pending)

theorem mem_returned {op : Return} {t : Table} :
    j' ∈ (op.table t).rows ↔ ∃ j ∈ t.rows,
      (if decide (j.insertedBy = none) && op.picks j.row then { j with row := op.rewrite j.row }
        else j) = j' :=
  mem_of_update (f := fun j => { j with row := op.rewrite j.row })
    (fun j => op.rewrite_id j.row) rfl

theorem returned_row {op : Return} {t : Table} (h : j' ∈ (op.table t).rows)
    (ho : indexKey j' = some o) : ∃ j ∈ t.rows, j.id = j'.id ∧ j.kind = .write ∧
      j.orderId = some o ∧ (Goes op j ∨ (j.row.status = .pending ∧ j' = j)) := by
  obtain ⟨j, hj, rfl⟩ := mem_returned.1 h
  by_cases hgo : (decide (j.insertedBy = none) && op.picks j.row) = true
  · rw [if_pos hgo] at ho ⊢
    rw [Bool.and_eq_true, decide_eq_true_eq] at hgo
    simp only [indexKey] at ho
    split at ho
    · rename_i hkey
      exact ⟨j, hj, (op.rewrite_id j.row).symm, hkey.1, ho, .inl hgo⟩
    · cases ho
  · rw [if_neg hgo] at ho ⊢
    simp only [indexKey] at ho
    split at ho
    · rename_i hkey
      exact ⟨j, hj, rfl, hkey.1, ho, .inr ⟨hkey.2, rfl⟩⟩
    · cases ho

/-- **A statement that returns rows lands exactly when it leaves no order with two
pending write jobs.** -/
theorem done_iff_not_collides {op : Return} {t : Table} (ht : Indexed t) :
    (∃ u, op.run t = .done u) ↔ ¬ Collides op t := by
  have hrun : (∃ u, op.run t = .done u) ↔ Indexed (op.table t) := by
    rw [← uq_iff_indexed]
    unfold Return.run
    constructor
    · rintro ⟨u, hu⟩
      split at hu
      · assumption
      · split at hu <;> cases hu
    · intro huq
      rw [if_pos huq]
      exact ⟨_, rfl⟩
  rw [hrun]
  constructor
  · rintro hu ⟨a, ha, b, hb, hne, hka, hkb, hoa, hoab, hga, hgb⟩
    obtain ⟨o, ho⟩ := Option.ne_none_iff_exists'.1 hoa
    have hentry : ∀ j ∈ t.rows, j.kind = .write → j.orderId = some o →
        (Goes op j ∨ j.row.status = .pending) →
        ∃ j' ∈ (op.table t).rows, j'.id = j.id ∧ indexKey j' = some o := by
      intro j hj hk ho hgo
      by_cases hgoes : (decide (j.insertedBy = none) && op.picks j.row) = true
      · refine ⟨_, mem_returned.2 ⟨j, hj, rfl⟩, ?_, ?_⟩
        · rw [if_pos hgoes]
          exact op.rewrite_id j.row
        · rw [if_pos hgoes]
          simp [indexKey, hk, op.rewrite_status, ho]
      · refine ⟨_, mem_returned.2 ⟨j, hj, rfl⟩, ?_, ?_⟩
        · rw [if_neg hgoes]
        · rw [if_neg hgoes]
          have hpend : j.row.status = .pending := by
            rcases hgo with hgo | hpend
            · exact absurd (by simp [hgo.1, hgo.2]) hgoes
            · exact hpend
          simp [indexKey, hk, hpend, ho]
    obtain ⟨a', ha', hida, hkeya⟩ := hentry a ha hka ho (.inl hga)
    obtain ⟨b', hb', hidb, hkeyb⟩ := hentry b hb hkb (hoab ▸ ho) hgb
    have hsame := hu a' ha' b' hb' o hkeya hkeyb
    exact hne (hida.symm.trans ((congrArg Job.id hsame).trans hidb))
  · intro hno a' ha' b' hb' o hao hbo
    obtain ⟨a, ha, hida, hka, hoa, hga⟩ := returned_row ha' hao
    obtain ⟨b, hb, hidb, hkb, hob, hgb⟩ := returned_row hb' hbo
    have hone : a.orderId ≠ none := by simp [hoa]
    have hboth : a.orderId = b.orderId := hoa.trans hob.symm
    have hsame : a.id = b.id := by
      by_contra hne
      rcases hga with hga | ⟨hpa, rfl⟩
      · refine hno ⟨a, ha, b, hb, hne, hka, hkb, hone, hboth, hga, ?_⟩
        exact hgb.imp_right And.left
      · rcases hgb with hgb | ⟨hpb, rfl⟩
        · exact hno ⟨b, hb, a', ha, Ne.symm hne, hkb, hka, hboth ▸ hone, hboth.symm, hgb, .inr hpa⟩
        · exact hne (congrArg Job.id (ht a' ha b' hb o hao hbo))
    exact (op.table t).eq_of_key_eq ha' hb' (hida.symm.trans (hsame.trans hidb))

/-! ## What every run keeps -/

def jobOf : Hand → Option Job
  | .idle => none
  | .claimed job | .writing job _ _ | .gaveUp job | .finished job => some job

/-- Ids are given out once and a worker's copy names its row; an uncommitted row is a
waiting write job of an open transaction; the row locks are those of the orders open
transactions have changed; a job that is being written holds the lock and has seen no
more than there is. -/
structure Sound (s : State) : Prop where
  fresh : ∀ j ∈ s.jobs.rows, j.id < s.nextId
  copies : ∀ w job, jobOf (s.hand w) = some job → job.id < s.nextId ∧
    ∀ j ∈ s.jobs.rows, j.id = job.id → j.kind = job.kind ∧ j.orderId = job.orderId
  uncommitted : ∀ j ∈ s.jobs.rows, ∀ n, j.insertedBy = some n →
    (s.txs n).isSome ∧ j.kind = .write ∧ j.row.status = .pending
  locks : ∀ o n, s.rowLock o = some n ↔ ∃ tx, s.txs n = some tx ∧ (tx.changed o).isSome
  writing : ∀ w job o v, s.hand w = .writing job o v → job.kind = .write ∧ job.orderId = some o ∧
    s.lock = some (.worker w) ∧ (s.order o).written ≤ v ∧ v ≤ (s.order o).version
  written : ∀ o, (s.order o).written ≤ (s.order o).version
  indexed : Indexed s.jobs

theorem sound_start : Sound start where
  fresh := by simp [start, KeyedTable.empty]
  copies := by simp [start, jobOf]
  uncommitted := by simp [start, KeyedTable.empty]
  locks := by simp [start]
  writing := by simp [start]
  written := by simp [start]
  indexed := by simp [Indexed, start, KeyedTable.empty]

section Sound

variable {maxAttempts : ℕ} {s t : State} {l : Label}

theorem Move.frame {j : Job} (hm : Move s l t j j') :
    j'.id = j.id ∧ j'.kind = j.kind ∧ j'.orderId = j.orderId ∧
      (j'.insertedBy = j.insertedBy ∨ ∃ n, l = .commit n ∧ j.insertedBy = some n ∧
        j'.insertedBy = none) := by
  cases hm with
  | untouched h | claimed w lease hst hins hhand h
  | beaten expiry h | completed w job hhand hid hheld h
  | failed w job error hl hhand hid hheld h => exact h ▸ ⟨rfl, rfl, rfl, .inl rfl⟩
  | returned op holder hret hpick hins h => exact h ▸ ⟨op.rewrite_id j.row, rfl, rfl, .inl rfl⟩
  | committed n hl hins h => exact h ▸ ⟨rfl, rfl, rfl, .inr ⟨n, hl, hins, rfl⟩⟩

theorem TableStep.nextId_le (h : TableStep s l t) : s.nextId ≤ t.nextId := by
  cases h with
  | inserted j hid hst hown hother hnext h => exact hnext ▸ Nat.le_succ _
  | aborted n hl hnext h => exact hnext.ge
  | deleted o hl hnext h => exact hnext.ge
  | rewritten g hnext h hg => exact hnext.ge

theorem TableStep.row (h : TableStep s l t) (hj' : j' ∈ t.jobs.rows) :
    (j'.id = s.nextId ∧ t.nextId = s.nextId + 1 ∧ j'.row.status = .pending ∧
      (j'.kind = .write → ∃ n o, j'.orderId = some o ∧ j'.insertedBy = some n ∧
        (t.txs n).isSome ∧ ∀ k ∈ s.jobs.rows, k.waitsFor o = false) ∧
      (j'.kind ≠ .write → j'.insertedBy = none)) ∨
    ∃ j ∈ s.jobs.rows, Move s l t j j' := by
  cases h with
  | inserted j hid hst hown hother hnext h =>
    rcases (h j').1 hj' with hold | rfl
    · exact .inr ⟨j', hold, .untouched rfl⟩
    · exact .inl ⟨hid, hnext, hst, hown, hother⟩
  | aborted n hl hnext h | deleted o hl hnext h => exact .inr ⟨j', ((h j').1 hj').1, .untouched rfl⟩
  | rewritten g hnext h hg =>
    obtain ⟨j, hj, rfl⟩ := (h j').1 hj'
    exact .inr ⟨j, hj, (hg j hj).2⟩

theorem settled_of_ended (h : step maxAttempts s l = some t)
    (hl : l = .commit n ∨ l = .abort n) : ∀ j ∈ t.jobs.rows, j.insertedBy ≠ some n := by
  intro j' hj'
  rcases hl with rfl | rfl
  · simp only [step, Option.map_eq_some_iff] at h
    obtain ⟨tx, -, rfl⟩ := h
    obtain ⟨j, -, rfl⟩ := (mem_of_update (p := fun j => decide (j.insertedBy = some n))
      (f := fun j => { j with insertedBy := none }) (fun _ => rfl) rfl).1 hj'
    by_cases hins : j.insertedBy = some n
    · simp [hins]
    · simp [hins]
  · simp only [step, Option.map_eq_some_iff] at h
    obtain ⟨tx, -, rfl⟩ := h
    simpa using (KeyedTable.mem_filter.1 hj').2

theorem Move.uncommitted {j : Job} (hm : Move s l t j j')
    (hins : j.insertedBy = some n) (hst : j.row.status = .pending) :
    j'.row.status = .pending ∧ (j'.insertedBy = some n ∨ j'.insertedBy = none ∧ l = .commit n) := by
  have hpend : ∀ w, j.row.heldBy w ≠ true := by
    intro w hheld
    rw [heldBy_status hheld] at hst
    cases hst
  cases hm with
  | untouched h | beaten expiry h => exact h ▸ ⟨hst, .inl hins⟩
  | claimed w lease hst' hnone hhand h | returned op holder hret hpick hnone h =>
    rw [hins] at hnone
    cases hnone
  | completed w job hhand hid hheld h
  | failed w job error hl hhand hid hheld h => exact absurd hheld (hpend w)
  | committed m hl hins' h =>
    obtain rfl : n = m := Option.some.inj (hins.symm.trans hins')
    exact h ▸ ⟨hst, .inr ⟨rfl, hl⟩⟩

theorem HandStep.jobOf {w : WorkerId} {job : Job} (h : HandStep s l t w)
    (hjob : WriteQueue.jobOf (t.hand w) = some job) :
    WriteQueue.jobOf (s.hand w) = some job ∨ ∃ c ∈ s.jobs.rows, c.id = job.id ∧
      c.kind = job.kind ∧ c.orderId = job.orderId := by
  cases h with
  | same h => exact .inl (h ▸ hjob)
  | ended h => simp [WriteQueue.jobOf, h] at hjob
  | claimed c row hc hins hid h =>
    rw [h] at hjob
    obtain rfl := Option.some.inj hjob
    exact .inr ⟨c, hc, hid.symm, rfl, rfl⟩
  | read job' o hl hhand hkind horder hlock h =>
    refine .inl ?_
    rw [hhand]
    subst h
    simp only [State.read] at hjob
    split at hjob
    · simpa [State.setHand, WriteQueue.jobOf] using hjob
    · simpa [WriteQueue.jobOf] using hjob
  | decided job' hhand hkind h =>
    rw [h] at hjob
    rw [hhand]
    exact .inl hjob
  | gaveUp job' hhand h =>
    rw [h] at hjob
    rcases hhand with hhand | ⟨o, v, hhand⟩
    · rw [hhand]
      exact .inl hjob
    · rw [hhand]
      exact .inl hjob
  | wrote job' o v hl hhand h =>
    rw [hhand]
    subst h
    exact .inl (by simpa [State.commitWrite, WriteQueue.jobOf] using hjob)

theorem HandStep.writing {w : WorkerId} {job : Job} {v : ℕ} (h : HandStep s l t w)
    (hw : t.hand w = .writing job o v) :
    s.hand w = .writing job o v ∨ (l = .read w ∧ s.hand w = .claimed job ∧ job.kind = .write ∧
      job.orderId = some o ∧ t = s.read w job o ∧ v = (s.order o).version ∧
      t.lock = some (.worker w)) := by
  cases h with
  | same h => exact .inl (h ▸ hw)
  | ended h =>
    rw [h] at hw
    cases hw
  | claimed c row hc hins hid h =>
    rw [h] at hw
    cases hw
  | read job' o' hl hhand hkind horder hlock h =>
    have hw' := hw
    rw [h] at hw'
    simp only [State.read] at hw'
    split at hw'
    · simp [State.setHand] at hw'
    · rename_i hcount
      simp only [Function.update_self, Hand.writing.injEq] at hw'
      obtain ⟨rfl, rfl, rfl⟩ := hw'
      refine .inr ⟨hl, hhand, hkind, horder, h, rfl, ?_⟩
      rw [h, State.read, if_neg hcount]
  | decided job' hhand hkind h =>
    rw [h] at hw
    cases hw
  | gaveUp job' hhand h =>
    rw [h] at hw
    cases hw
  | wrote job' o' v' hl hhand h =>
    rw [h] at hw
    simp [State.commitWrite] at hw

theorem OrderStep.counts (h : OrderStep s l t o) :
    (t.order o).version = (s.order o).version + 1 ∧ (t.order o).written = (s.order o).written ∨
    (t.order o).version = (s.order o).version ∧ ((t.order o).written = (s.order o).written ∨
      ∃ w job v, l = .commitWrite w ∧ s.hand w = .writing job o v ∧ (t.order o).written = v) := by
  cases h with
  | same horder hrow
  | unlocked n hl hrow horder hrow'
  | deleted hl horder hrow => exact .inr ⟨by rw [horder], .inl (by rw [horder])⟩
  | locked n count priority hl horder hrow hwait =>
    exact .inr ⟨by rw [horder], .inl (by rw [horder])⟩
  | committed n tx count hl htx hchanged horder hrow => exact .inl ⟨by rw [horder], by rw [horder]⟩
  | wrote w job v hl hhand horder hrow =>
    exact .inr ⟨by rw [horder], .inr ⟨w, job, v, hl, hhand, by rw [horder]⟩⟩

/-- No step gives an order a second write job that waits. -/
theorem indexed_step (hs : Sound s) (h : step maxAttempts s l = some t) : Indexed t.jobs := by
  by_cases hret : ∃ op w, s.returned op w = some t
  · obtain ⟨op, w, hret⟩ := hret
    rcases returned_cases hret with ⟨hrun, htable, -⟩ | ⟨-, hsame, -⟩
    · rw [← uq_iff_indexed]
      unfold Return.run at hrun
      split at hrun
      · rename_i huq
        rw [htable]
        exact huq
      · split at hrun <;> cases hrun
    · rw [hsame]
      exact hs.indexed
  · have hold : ∀ {j j' o}, Move s l t j j' → indexKey j' = some o → indexKey j = some o := by
      intro j j' o hm hkey
      cases hm with
      | untouched h => exact h ▸ hkey
      | claimed w lease hst hins hhand h => simp [h, indexKey, Row.claim] at hkey
      | beaten expiry h =>
        subst h
        exact hkey
      | returned op holder hret' hpick hins h => exact absurd ⟨op, holder, hret'⟩ hret
      | completed w job hhand hid hheld h
      | failed w job error hl hhand hid hheld h => simp [h, indexKey] at hkey
      | committed n hl hins h =>
        subst h
        exact hkey
    have hnew : ∀ {j o}, j.kind = .write → indexKey j = some o → ∀ n p, j.orderId = some p →
        j.insertedBy = some n → p = o := by
      intro j o hkind hkey n p hp hn
      simp only [indexKey] at hkey
      split at hkey
      · exact Option.some.inj (hp.symm.trans hkey)
      · cases hkey
    have hwrite : ∀ {j o}, indexKey j = some o → j.kind = .write ∧ j.waitsFor o = true := by
      intro j o hkey
      simp only [indexKey] at hkey
      split at hkey
      · rename_i hk
        exact ⟨hk.1, by simp [Job.waitsFor, hk.1, hk.2, hkey]⟩
      · cases hkey
    have hrows := step_jobs h
    intro a ha b hb o hao hbo
    refine t.jobs.eq_of_key_eq ha hb ?_
    rcases hrows.row ha with ⟨hida, -, -, howna, -⟩ | ⟨a₀, ha₀, hma⟩
    · rcases hrows.row hb with ⟨hidb, -⟩ | ⟨b₀, hb₀, hmb⟩
      · exact hida.trans hidb.symm
      · obtain ⟨n, p, hp, hn, -, hno⟩ := howna (hwrite hao).1
        obtain rfl := hnew (hwrite hao).1 hao n p hp hn
        have hwait := (hwrite (hold hmb hbo)).2
        rw [hno b₀ hb₀] at hwait
        cases hwait
    · rcases hrows.row hb with ⟨-, -, -, hownb, -⟩ | ⟨b₀, hb₀, hmb⟩
      · obtain ⟨n, p, hp, hn, -, hno⟩ := hownb (hwrite hbo).1
        obtain rfl := hnew (hwrite hbo).1 hbo n p hp hn
        have hwait := (hwrite (hold hma hao)).2
        rw [hno a₀ ha₀] at hwait
        cases hwait
      · have hsame := hs.indexed a₀ ha₀ b₀ hb₀ o (hold hma hao) (hold hmb hbo)
        exact hma.frame.1.trans ((congrArg Job.id hsame).trans hmb.frame.1.symm)

/-- **The step lemma of soundness.** -/
theorem sound_step (hs : Sound s) (h : step maxAttempts s l = some t) : Sound t := by
  have hrows := step_jobs h
  have hnext := hrows.nextId_le
  refine ⟨?_, ?_, ?_, ?_, ?_, ?_, indexed_step hs h⟩
  · intro j' hj'
    rcases hrows.row hj' with ⟨hid, hnew, -⟩ | ⟨j, hj, hm⟩
    · rw [hid, hnew]
      exact Nat.lt_succ_self _
    · rw [hm.frame.1]
      exact lt_of_lt_of_le (hs.fresh j hj) hnext
  · intro w job hjob
    have hbefore : job.id < s.nextId ∧
        ∀ j ∈ s.jobs.rows, j.id = job.id → j.kind = job.kind ∧ j.orderId = job.orderId := by
      rcases (step_hand h w).jobOf hjob with hold | ⟨c, hc, hid, hkind, horder⟩
      · exact hs.copies w job hold
      · refine ⟨hid ▸ hs.fresh c hc, fun j hj hj' => ?_⟩
        obtain rfl := s.jobs.eq_of_key_eq hj hc (hj'.trans hid.symm)
        exact ⟨hkind, horder⟩
    refine ⟨lt_of_lt_of_le hbefore.1 hnext, fun j' hj' hid => ?_⟩
    rcases hrows.row hj' with ⟨hnew, -⟩ | ⟨j, hj, hm⟩
    · exact absurd (hnew.symm.trans hid) (Nat.ne_of_gt hbefore.1)
    · obtain ⟨hid', hkind, horder, -⟩ := hm.frame
      obtain ⟨hk, ho⟩ := hbefore.2 j hj (hid'.symm.trans hid)
      exact ⟨hkind.trans hk, horder.trans ho⟩
  · intro j' hj' n hins
    rcases hrows.row hj' with ⟨-, -, hst, hown, hother⟩ | ⟨j, hj, hm⟩
    · by_cases hkind : j'.kind = .write
      · obtain ⟨m, o, -, hm, htx, -⟩ := hown hkind
        obtain rfl : n = m := Option.some.inj (hins.symm.trans hm)
        exact ⟨htx, hkind, hst⟩
      · rw [hother hkind] at hins
        cases hins
    · obtain ⟨-, hkind, -, hins'⟩ := hm.frame
      have hold : j.insertedBy = some n := by
        rcases hins' with hsame | ⟨m, -, -, hnone⟩
        · exact hsame ▸ hins
        · rw [hins] at hnone
          cases hnone
      obtain ⟨htx, hk, hst⟩ := hs.uncommitted j hj n hold
      refine ⟨?_, hkind.trans hk, (hm.uncommitted hold hst).1⟩
      cases step_txs h with
      | same htxs hrow => rwa [htxs]
      | begun m locked hnone htxs hrow | changed m tx o count htx' hfree htxs hrow =>
        rw [htxs]
        by_cases hnm : n = m
        · subst hnm
          simp
        · rwa [Function.update_of_ne hnm]
      | ended m hl htxs hrow =>
        have hnm : n ≠ m := fun hnm => settled_of_ended h hl j' hj' (hnm ▸ hins)
        rwa [htxs, Function.update_of_ne hnm]
  · intro o n
    cases step_txs h with
    | same htxs hrow =>
      rw [htxs, hrow]
      exact hs.locks o n
    | begun m locked hnone htxs hrow =>
      rw [htxs, hrow, hs.locks o n]
      by_cases hnm : n = m
      · subst hnm
        simp [hnone]
      · rw [Function.update_of_ne hnm]
    | changed m tx o' count htx hfree htxs hrow =>
      rw [htxs, hrow]
      by_cases hnm : n = m
      · subst hnm
        by_cases ho : o = o'
        · subst ho
          simp
        · rw [Function.update_of_ne ho, hs.locks o n, Function.update_self, htx]
          simp [Function.update_of_ne ho]
      · rw [Function.update_of_ne hnm, ← hs.locks o n]
        by_cases ho : o = o'
        · subst ho
          rw [Function.update_self]
          constructor
          · intro hmn
            exact absurd (Option.some.inj hmn).symm hnm
          · intro hlock
            rcases hfree with hfree | hfree
            · rw [hfree] at hlock
              cases hlock
            · exact absurd (Option.some.inj (hlock.symm.trans hfree)) hnm
        · rw [Function.update_of_ne ho]
    | ended m hl htxs hrow =>
      rw [htxs, hrow, State.releaseRows]
      by_cases hnm : n = m
      · subst hnm
        rw [Function.update_self]
        constructor
        · intro hlock
          split at hlock
          · cases hlock
          · contradiction
        · rintro ⟨tx, htx, -⟩
          cases htx
      · rw [Function.update_of_ne hnm, ← hs.locks o n]
        split
        · rename_i hlock
          rw [hlock]
          constructor
          · intro hno
            cases hno
          · intro hmn
            exact absurd (Option.some.inj hmn).symm hnm
        · exact Iff.rfl
  · intro w job o v hw
    rcases (step_hand h w).writing hw with hold | ⟨rfl, -, hkind, horder, ht, hv, hlock⟩
    · obtain ⟨hkind, horder, hlock, hwr, hver⟩ := hs.writing w job o v hold
      have hstill : t.lock = some (.worker w) := by
        rcases step_lock h hlock with hstill | hno
        · exact hstill
        · exact absurd hw (hno job o v)
      refine ⟨hkind, horder, hstill, ?_⟩
      rcases (step_order h o).counts with ⟨hv', hw'⟩ | ⟨hv', hw' | ⟨w', job', v', hl, hhand, hw'⟩⟩
      · exact ⟨hw' ▸ hwr, hv' ▸ Nat.le_succ_of_le hver⟩
      · exact ⟨hw' ▸ hwr, hv' ▸ hver⟩
      · -- Only the holder of the lock writes, and its own write ends the writing.
        have hlock' := (hs.writing w' job' o v' hhand).2.2.1
        obtain rfl : w = w' := by simpa using hlock.symm.trans hlock'
        obtain ⟨rfl, -, rfl⟩ := by simpa using hold.symm.trans hhand
        exact ⟨hw'.le, hv' ▸ hver⟩
    · have ho : t.order = s.order := by
        rw [ht, State.read]
        split
        · rfl
        · rfl
      exact ⟨hkind, horder, hlock, by rw [ho, hv]; exact hs.written o, by rw [ho, hv]⟩
  · intro o
    rcases (step_order h o).counts with ⟨hv, hw⟩ | ⟨hv, hw | ⟨w, job, v, -, hhand, hw⟩⟩
    · rw [hv, hw]
      exact Nat.le_succ_of_le (hs.written o)
    · rw [hv, hw]
      exact hs.written o
    · rw [hv, hw]
      exact (hs.writing w job o v hhand).2.2.2.2

theorem reachable_sound {P : State → Label → Prop} (h : (system maxAttempts).Reachable P s) :
    Sound s :=
  h.invariant (fun s' (hs : s' = start) => hs ▸ sound_start) fun _ _ _ hs _ hst =>
    sound_step hs hst

end Sound

/-! ## What is owed -/

/-- Nobody has read the order on behalf of the claim the row is in. -/
def Unread (s : State) (j : Job) : Prop :=
  j.row.status = .pending ∨
    (j.row.status = .claimed ∧ ∀ w, j.row.claimedBy = some w → (s.hand w).hasRead j.id = false)

/-- A committed write job of the order, pending or claimed with its read still to come. -/
def Waiting (s : State) (o : Uuid) : Prop :=
  ∃ j ∈ s.jobs.rows, j.kind = .write ∧ j.orderId = some o ∧ j.insertedBy = none ∧ Unread s j

/-- A write job that has read the order as it is now, its claim standing. -/
def Rewriting (s : State) (o : Uuid) : Prop :=
  ∃ j ∈ s.jobs.rows, j.kind = .write ∧ j.orderId = some o ∧ j.insertedBy = none ∧
    ∃ w job, j.row.heldBy w = true ∧ s.hand w = .writing job o (s.order o).version ∧ job.id = j.id

/-- **Every change that is not yet in a written text has a write job.** -/
def Covered (s : State) : Prop :=
  ∀ o, (s.order o).deleted = false → (s.order o).written < (s.order o).version →
    Waiting s o ∨ Rewriting s o

/-- Every open transaction that has changed an order has a job of its own, or one waits
that has not read. -/
def Owed (s : State) : Prop :=
  ∀ o n, s.rowLock o = some n → (s.order o).deleted = false →
    waitsOn s.jobs o n = true ∨ Waiting s o

/-- The order has a change to come that rests on a job already there, or one it was not
written from. -/
def Needed (s : State) (o : Uuid) : Prop :=
  (s.order o).deleted = false ∧ ((s.order o).written < (s.order o).version ∨
    ∃ n, s.rowLock o = some n ∧ waitsOn s.jobs o n = false)

def Stands (s : State) (w : WorkerId) (job : Job) : Prop :=
  ∃ j ∈ s.jobs.rows, j.id = job.id ∧ j.row.heldBy w = true

/-- No statement returns a write job beside a pending one of its order; a job does not read its
order while an open transaction rests on it, nor finds the counters of an order with unwritten
changes at zero; and no write job fails for good that an order needs. -/
def Careful (s : State) (l : Label) : Prop :=
  (∀ op, statementOf s l = some op → ¬ Collides op s.jobs) ∧
  (∀ w job o, l = .read w → s.hand w = .claimed job → job.orderId = some o → Stands s w job →
    (∀ n, s.rowLock o = some n → waitsOn s.jobs o n = true) ∧
      ((s.order o).deleted = false → (s.order o).written < (s.order o).version →
        (s.order o).count ≠ 0)) ∧
  ∀ w error job o, l = .fail w error → s.hand w = .gaveUp job → job.kind = .write →
    job.orderId = some o → Stands s w job → ¬ Needed s o

section Coverage

variable {maxAttempts : ℕ} {s t : State} {l : Label}

theorem hasRead_step (h : step maxAttempts s l = some t) {w : WorkerId} {id : Uuid}
    (hread : (t.hand w).hasRead id = true) :
    (s.hand w).hasRead id = true ∨ ∃ job, s.hand w = .claimed job ∧ job.id = id ∧
      (job.kind ≠ .write ∨ ∃ o, job.orderId = some o ∧ l = .read w ∧ t = s.read w job o) := by
  cases step_hand h w with
  | same h => exact .inl (h ▸ hread)
  | ended h | claimed c row hc hins hid h | gaveUp job hhand h =>
    rw [h] at hread
    cases hread
  | read job o hl hhand hkind horder hlock h =>
    have hread' := hread
    rw [h] at hread'
    refine .inr ⟨job, hhand, ?_, .inr ⟨o, horder, hl, h⟩⟩
    simp only [State.read] at hread'
    split at hread'
    · simpa [State.setHand, Hand.hasRead] using hread'
    · simpa [Hand.hasRead] using hread'
  | decided job hhand hkind h =>
    rw [h] at hread
    exact .inr ⟨job, hhand, by simpa [Hand.hasRead] using hread, .inl hkind⟩
  | wrote job o v hl hhand h =>
    refine .inl ?_
    rw [hhand]
    rw [h] at hread
    simpa [State.commitWrite, Hand.hasRead] using hread

/-- The step reads the order for a write job whose claim stands. -/
def ReadNow (s : State) (l : Label) (t : State) (o : Uuid) : Prop :=
  ∃ w job, l = .read w ∧ s.hand w = .claimed job ∧ job.orderId = some o ∧ t = s.read w job o ∧
    ∃ j ∈ s.jobs.rows, j.kind = .write ∧ j.orderId = some o ∧ j.insertedBy = none ∧
      j.id = job.id ∧ j.row.heldBy w = true

/-- The step fails a write job of the order for good, its claim standing. -/
def FailedNow (s : State) (l : Label) (o : Uuid) : Prop :=
  ∃ w error job, l = .fail w error ∧ s.hand w = .gaveUp job ∧ job.kind = .write ∧
    job.orderId = some o ∧ Stands s w job

/-- A waiting order waits on, is deleted, or this step reads it or gives it up. -/
theorem waiting_step (hs : Sound s) (h : step maxAttempts s l = some t) (hw : Waiting s o) :
    Waiting t o ∨ (t.order o).deleted = true ∨ ReadNow s l t o ∨ FailedNow s l o := by
  obtain ⟨j, hj, hkind, horder, hins, hunread⟩ := hw
  -- A row left as it was: only a read on its behalf changes what it stands for.
  have hkeep : ∀ j' ∈ t.jobs.rows, j'.id = j.id → j'.kind = j.kind → j'.orderId = j.orderId →
      j'.insertedBy = j.insertedBy → j'.row.status = j.row.status →
      j'.row.claimedBy = j.row.claimedBy →
      Waiting t o ∨ (t.order o).deleted = true ∨ ReadNow s l t o ∨ FailedNow s l o := by
    intro j' hj' hid hk ho hi hst hby
    rcases hunread with hpend | ⟨hclaimed, hno⟩
    · exact .inl ⟨j', hj', hk.trans hkind, ho.trans horder, hi.trans hins, .inl (hst.trans hpend)⟩
    · by_cases hread : ∃ w, j.row.claimedBy = some w ∧ (t.hand w).hasRead j.id = true
      · obtain ⟨w, hcl, hread⟩ := hread
        rcases hasRead_step h hread with hold | ⟨job, hhand, hjid, hread'⟩
        · rw [hno w hcl] at hold
          cases hold
        · obtain ⟨hjk, hjo⟩ := (hs.copies w job (by rw [hhand]; rfl)).2 j hj hjid.symm
          rcases hread' with hother | ⟨o', ho', hl, ht⟩
          · exact absurd (hjk.symm.trans hkind) hother
          · obtain rfl : o' = o := Option.some.inj (ho'.symm.trans (hjo.symm.trans horder))
            exact .inr (.inr (.inl ⟨w, job, hl, hhand, ho', ht, j, hj, hkind, horder, hins,
              hjid.symm, by simp [Row.heldBy, hclaimed, hcl]⟩))
      · refine .inl ⟨j', hj', hk.trans hkind, ho.trans horder, hi.trans hins,
          .inr ⟨hst.trans hclaimed, fun w hcl => ?_⟩⟩
        rw [hby] at hcl
        rw [hid]
        by_contra hno'
        exact hread ⟨w, hcl, by simpa using hno'⟩
  have hstay := fun hj' : j ∈ t.jobs.rows => hkeep j hj' rfl rfl rfl rfl rfl rfl
  cases step_jobs h with
  | inserted k hid hst hown hother hnext hmem => exact hstay ((hmem j).2 (.inl hj))
  | aborted n hl hnext hmem => exact hstay ((hmem j).2 ⟨hj, by simp [hins]⟩)
  | deleted o' hl hnext hmem =>
    by_cases ho : o' = o
    · subst ho
      refine .inr (.inl ?_)
      cases step_order h o' with
      | deleted hl' horder' hrow => rw [horder']
      | same _ _ =>
        subst hl
        simp only [step] at h
        split at h
        · cases h
          simp
        · cases h
      | locked _ _ _ hl' | committed _ _ _ hl' | wrote _ _ _ hl' => rw [hl] at hl'; cases hl'
      | unlocked _ hl' => rcases hl' with hl' | hl' <;> rw [hl] at hl' <;> cases hl'
    · refine hstay ((hmem j).2 ⟨hj, ?_⟩)
      rintro ⟨-, ho', -⟩
      exact ho (Option.some.inj (ho'.symm.trans horder))
  | rewritten g hnext hmem hg =>
    obtain ⟨hid, hm⟩ := hg j hj
    have hj' : g j ∈ t.jobs.rows := (hmem _).2 ⟨j, hj, rfl⟩
    cases hm with
    | untouched h' =>
      rw [h'] at hj'
      exact hstay hj'
    | claimed w lease hst hins' hhand h' =>
      refine .inl ⟨g j, hj', by rw [h']; exact hkind, by rw [h']; exact horder,
        by rw [h']; exact hins, .inr ⟨by rw [h']; rfl, fun w' hcl => ?_⟩⟩
      rw [h'] at hcl
      obtain rfl : w = w' := Option.some.inj hcl
      rw [hhand]
      rfl
    | beaten expiry h' =>
      refine hkeep (g j) hj' hid ?_ ?_ ?_ ?_ ?_
      all_goals rw [h']
    | returned op holder hret hpick hins' h' =>
      refine .inl ⟨g j, hj', by rw [h']; exact hkind, by rw [h']; exact horder,
        by rw [h']; exact hins, .inl (by rw [h']; exact op.rewrite_status j.row)⟩
    | completed w job hhand hjid hheld h' =>
      rcases hunread with hpend | ⟨-, hno⟩
      · rw [heldBy_status hheld] at hpend
        cases hpend
      · have hread := hno w (heldBy_claimedBy hheld)
        rw [hhand] at hread
        simp [Hand.hasRead, hjid] at hread
    | failed w job error hl hhand hjid hheld h' =>
      obtain ⟨hjk, hjo⟩ := (hs.copies w job (by rw [hhand]; rfl)).2 j hj hjid
      exact .inr (.inr (.inr ⟨w, error, job, hl, hhand, hjk.symm.trans hkind,
        hjo.symm.trans horder, j, hj, hjid, hheld⟩))
    | committed n hl hins' h' =>
      rw [hins] at hins'
      cases hins'

theorem waitsOn_step (h : step maxAttempts s l = some t)
    (hl : l ≠ .commit n ∧ l ≠ .abort n) (hw : waitsOn s.jobs o n = true) :
    waitsOn t.jobs o n = true := by
  obtain ⟨j, hj, hwait⟩ := List.any_eq_true.1 hw
  simp only [Job.waitsFor, Bool.and_eq_true, decide_eq_true_eq] at hwait
  obtain ⟨⟨⟨hkind, hst⟩, horder⟩, hins⟩ := hwait
  have hkeep : ∀ j' ∈ t.jobs.rows, j'.kind = .write → j'.row.status = .pending →
      j'.orderId = some o → j'.insertedBy = some n → waitsOn t.jobs o n = true := by
    intro j' hj' hk hs' ho hi
    exact List.any_eq_true.2 ⟨j', hj', by simp [Job.waitsFor, hk, hs', ho, hi]⟩
  cases step_jobs h with
  | inserted k hid hst' hown hother hnext hmem =>
    exact hkeep j ((hmem j).2 (.inl hj)) hkind hst horder hins
  | aborted m hl' hnext hmem =>
    refine hkeep j ((hmem j).2 ⟨hj, fun hm => ?_⟩) hkind hst horder hins
    obtain rfl : n = m := Option.some.inj (hins.symm.trans hm)
    exact hl.2 hl'
  | deleted o' hl' hnext hmem =>
    exact hkeep j ((hmem j).2 ⟨hj, fun hd => by simp [hins] at hd⟩) hkind hst horder hins
  | rewritten g hnext hmem hg =>
    obtain ⟨-, hm⟩ := hg j hj
    obtain ⟨-, hk, ho, -⟩ := hm.frame
    obtain ⟨hst', hins'⟩ := hm.uncommitted hins hst
    refine hkeep (g j) ((hmem _).2 ⟨j, hj, rfl⟩) (hk.trans hkind) hst' (ho.trans horder) ?_
    rcases hins' with hins' | ⟨-, hl'⟩
    · exact hins'
    · exact absurd hl' hl.1

theorem rowLock_ended (h : step maxAttempts s l = some t)
    (hrow : t.rowLock o = some n) : l ≠ .commit n ∧ l ≠ .abort n := by
  have hrelease : s.releaseRows n o ≠ some n := by
    simp only [State.releaseRows]
    split
    · simp
    · assumption
  constructor
  · rintro rfl
    simp only [step, Option.map_eq_some_iff] at h
    obtain ⟨tx, -, rfl⟩ := h
    exact hrelease hrow
  · rintro rfl
    simp only [step, Option.map_eq_some_iff] at h
    obtain ⟨tx, -, rfl⟩ := h
    exact hrelease hrow

/-- **What is owed to open transactions is kept by a careful step.** -/
theorem owed_step (hs : Sound s) (ho : Owed s) (hp : Careful s l)
    (h : step maxAttempts s l = some t) : Owed t := by
  intro o n hrow hdel
  have hkeep : t.rowLock o = s.rowLock o → (s.order o).deleted = false →
      waitsOn t.jobs o n = true ∨ Waiting t o := by
    intro hsame hdel'
    have hrow' := hsame ▸ hrow
    by_cases hown : waitsOn s.jobs o n = true
    · exact .inl (waitsOn_step h (rowLock_ended h hrow) hown)
    · have hneeded : Needed s o := ⟨hdel', .inr ⟨n, hrow', by simpa using hown⟩⟩
      rcases ho o n hrow' hdel' with hown' | hwait
      · exact absurd hown' hown
      · rcases waiting_step hs h hwait with hwait' | hgone | ⟨w, job, hl, hhand, hjo, -, j, hj, -, -, -,
          hjid, hheld⟩ | ⟨w, error, job, hl, hhand, hkind, hjo, hstands⟩
        · exact .inr hwait'
        · rw [hgone] at hdel
          cases hdel
        · exact absurd ((hp.2.1 w job o hl hhand hjo ⟨j, hj, hjid, hheld⟩).1 n hrow') hown
        · exact absurd hneeded (hp.2.2 w error job o hl hhand hkind hjo hstands)
  cases step_order h o with
  | same horder hsame => exact hkeep hsame (horder ▸ hdel)
  | locked m count priority hl horder hrow' hwait =>
    obtain rfl : n = m := Option.some.inj (hrow.symm.trans hrow')
    obtain ⟨j, hj, hw, hins⟩ := hwait
    have hw' := hw
    simp only [Job.waitsFor, Bool.and_eq_true, decide_eq_true_eq] at hw'
    rcases hins with hnone | hown
    · exact .inr ⟨j, hj, hw'.1.1, hw'.2, hnone, .inl hw'.1.2⟩
    · exact .inl (List.any_eq_true.2 ⟨j, hj, by simp [hw, hown]⟩)
  | committed m tx count hl htx hchanged horder hrow' =>
    have hlock := (hs.locks o m).2 ⟨tx, htx, by simp [hchanged]⟩
    rw [hrow', State.releaseRows, if_pos hlock] at hrow
    cases hrow
  | unlocked m hl hrow' horder hnone =>
    rw [hnone] at hrow
    cases hrow
  | deleted hl horder hsame =>
    rw [horder] at hdel
    cases hdel
  | wrote w job v hl hhand horder hsame => exact hkeep hsame (by rw [horder] at hdel; exact hdel)

/-- A rewrite goes on while the order is unchanged, or its job waits again. -/
theorem rewriting_step (h : step maxAttempts s l = some t)
    (horder : t.order o = s.order o) (hlt : (t.order o).written < (t.order o).version)
    (hdel : (t.order o).deleted = false) (hw : Rewriting s o) : Waiting t o ∨ Rewriting t o := by
  obtain ⟨j, hj, hkind, ho, hins, w, job, hheld, hhand, hjid⟩ := hw
  have hst := heldBy_status hheld
  have hby := heldBy_claimedBy hheld
  have hhand' : t.hand w = s.hand w ∨ ∀ id, (t.hand w).hasRead id = false := by
    cases step_hand h w with
    | same h' => exact .inl h'
    | ended h' | claimed c row hc hins' hid h'
    | gaveUp job' _ h' => exact .inr fun id => by rw [h']; rfl
    | read job' o' hl hhand' _ _ _ _ | decided job' hhand' _ _ =>
      rw [hhand] at hhand'
      cases hhand'
    | wrote job' o' v hl hhand' h' =>
      -- The write lands: the text is then as recent as the order.
      rw [hhand, Hand.writing.injEq] at hhand'
      obtain ⟨rfl, rfl, rfl⟩ := hhand'
      subst h'
      simp [State.commitWrite] at hlt
  have hkeep : ∀ j' ∈ t.jobs.rows, j'.id = j.id → j'.kind = j.kind → j'.orderId = j.orderId →
      j'.insertedBy = j.insertedBy → j'.row.status = j.row.status →
      j'.row.claimedBy = j.row.claimedBy → Waiting t o ∨ Rewriting t o := by
    intro j' hj' hid hk ho' hi hst' hby'
    rcases hhand' with hsame | hnone
    · refine .inr ⟨j', hj', hk.trans hkind, ho'.trans ho, hi.trans hins, w, job, ?_, ?_,
        hjid.trans hid.symm⟩
      · simp [Row.heldBy, hst', hby', hst, hby]
      · rw [hsame, hhand, horder]
    · refine .inl ⟨j', hj', hk.trans hkind, ho'.trans ho, hi.trans hins, .inr ⟨hst'.trans hst, ?_⟩⟩
      intro w' hcl
      obtain rfl : w = w' := Option.some.inj (hby.symm.trans (hby'.symm.trans hcl))
      exact hnone _
  have hstay := fun hj' : j ∈ t.jobs.rows => hkeep j hj' rfl rfl rfl rfl rfl rfl
  cases step_jobs h with
  | inserted k hid hst' hown hother hnext hmem => exact hstay ((hmem j).2 (.inl hj))
  | aborted n hl hnext hmem => exact hstay ((hmem j).2 ⟨hj, by simp [hins]⟩)
  | deleted o' hl hnext hmem =>
    refine hstay ((hmem j).2 ⟨hj, ?_⟩)
    rintro ⟨-, ho', -⟩
    obtain rfl : o = o' := Option.some.inj (ho.symm.trans ho')
    subst hl
    simp only [step] at h
    split at h
    · cases h
      simp at hdel
    · cases h
  | rewritten g hnext hmem hg =>
    obtain ⟨hid, hm⟩ := hg j hj
    have hj' : g j ∈ t.jobs.rows := (hmem _).2 ⟨j, hj, rfl⟩
    cases hm with
    | untouched h' =>
      rw [h'] at hj'
      exact hstay hj'
    | claimed w' lease hpend hins' hhand' h' =>
      rw [hst] at hpend
      cases hpend
    | beaten expiry h' =>
      refine hkeep (g j) hj' hid ?_ ?_ ?_ ?_ ?_
      all_goals rw [h']
    | returned op holder hret hpick hins' h' =>
      refine .inl ⟨g j, hj', by rw [h']; exact hkind, by rw [h']; exact ho,
        by rw [h']; exact hins, .inl (by rw [h']; exact op.rewrite_status j.row)⟩
    | completed w' job' hhand' hjid' hheld' h' | failed w' job' error hl hhand' hjid' hheld' h' =>
      obtain rfl : w = w' := Option.some.inj (hby.symm.trans (heldBy_claimedBy hheld'))
      rw [hhand] at hhand'
      cases hhand'
    | committed n hl hins' h' =>
      rw [hins] at hins'
      cases hins'

theorem waiting_of_commit (h : step maxAttempts s (.commit n) = some t)
    (hown : waitsOn s.jobs o n = true) : Waiting t o := by
  obtain ⟨j, hj, hwait⟩ := List.any_eq_true.1 hown
  simp only [Job.waitsFor, Bool.and_eq_true, decide_eq_true_eq] at hwait
  obtain ⟨⟨⟨hkind, hst⟩, horder⟩, hins⟩ := hwait
  simp only [step, Option.map_eq_some_iff] at h
  obtain ⟨tx, -, rfl⟩ := h
  refine ⟨{ j with insertedBy := none }, ?_, hkind, horder, rfl, .inl hst⟩
  refine (mem_of_update (p := fun j => decide (j.insertedBy = some n))
    (f := fun j => { j with insertedBy := none }) (fun _ => rfl) rfl).2 ⟨j, hj, ?_⟩
  simp [hins]

/-- **A careful step leaves no change without a write job.** -/
theorem covered_step (hs : Sound s) (ho : Owed s) (hc : Covered s) (hp : Careful s l)
    (h : step maxAttempts s l = some t) : Covered t := by
  intro o hdel hlt
  have hread : ∀ {o}, ReadNow s l t o → (s.order o).deleted = false →
      (s.order o).written < (s.order o).version → Rewriting t o := by
    rintro o ⟨w, job, hl, hhand, hjo, ht, j, hj, hkind, hord, hins, hjid, hheld⟩ hdel' hlt'
    have hcount := (hp.2.1 w job o hl hhand hjo ⟨j, hj, hjid, hheld⟩).2 hdel' hlt'
    have hgo : ¬ ((s.order o).deleted || decide ((s.order o).count = 0)) = true := by
      simp [hdel', hcount]
    subst ht
    rw [State.read, if_neg hgo]
    exact ⟨j, hj, hkind, hord, hins, w, job, hheld, by simp, hjid.symm⟩
  have hsame : t.order o = s.order o → Waiting t o ∨ Rewriting t o := by
    intro horder
    have hdel' : (s.order o).deleted = false := horder ▸ hdel
    have hlt' : (s.order o).written < (s.order o).version := horder ▸ hlt
    rcases hc o hdel' hlt' with hwait | hrew
    · rcases waiting_step hs h hwait with hwait' | hgone | hnow | ⟨w, error, job, hl, hhand, hkind,
        hjo, hstands⟩
      · exact .inl hwait'
      · rw [hgone] at hdel
        cases hdel
      · exact .inr (hread hnow hdel' hlt')
      · exact absurd ⟨hdel', .inl hlt'⟩ (hp.2.2 w error job o hl hhand hkind hjo hstands)
    · exact rewriting_step h horder hlt hdel hrew
  cases step_order h o with
  | same horder _ => exact hsame horder
  | locked m count priority hl horder _ _ => exact hsame horder
  | unlocked m hl _ horder _ => exact hsame horder
  | committed m tx count hl htx hchanged horder hrow =>
    subst hl
    have hlock := (hs.locks o m).2 ⟨tx, htx, by simp [hchanged]⟩
    have hdel' : (s.order o).deleted = false := by
      rw [horder] at hdel
      exact hdel
    rcases ho o m hlock hdel' with hown | hwait
    · exact .inl (waiting_of_commit h hown)
    · rcases waiting_step hs h hwait with hwait' | hgone | ⟨_, _, hl, -⟩ | ⟨_, _, _, hl, -⟩
      · exact .inl hwait'
      · rw [hgone] at hdel
        cases hdel
      · cases hl
      · cases hl
  | deleted hl horder _ =>
    rw [horder] at hdel
    cases hdel
  | wrote w job v hl hhand horder _ =>
    subst hl
    rw [horder] at hdel hlt
    obtain ⟨-, -, hlock, hwr, -⟩ := hs.writing w job o v hhand
    rcases hc o hdel (Nat.lt_of_le_of_lt hwr hlt) with hwait | ⟨j, -, -, -, -, w', job', -, hhand', -⟩
    · rcases waiting_step hs h hwait with hwait' | hgone | ⟨_, _, hl, -⟩ | ⟨_, _, _, hl, -⟩
      · exact .inl hwait'
      · rw [horder] at hgone
        exact absurd (hgone.symm.trans hdel) (by simp)
      · cases hl
      · cases hl
    · -- Only the holder of the lock can be writing, and what it writes is older.
      have hlock' := (hs.writing w' job' o _ hhand').2.2.1
      obtain rfl : w = w' := by simpa using hlock.symm.trans hlock'
      rw [hhand, Hand.writing.injEq] at hhand'
      simp only [hhand'.2.2] at hlt
      exact absurd hlt (Nat.lt_irrefl _)

theorem failures_step (hs : Sound s) (hp : Careful s l) (h : step maxAttempts s l = some t) :
    t.failures = s.failures := by
  have hret : ∀ {op w}, statementOf s l = some op → s.returned op w = some t →
      t.failures = s.failures := by
    intro op w hop hret
    rcases returned_cases hret with ⟨-, -, hsame⟩ | ⟨herror, -, -⟩
    · exact hsame
    · obtain ⟨u, hu⟩ := (done_iff_not_collides hs.indexed).2 (hp.1 op hop)
      rw [hu] at herror
      cases herror
  cases step_cases h with
  | tick | other | begun | commit | abort | deleted | claim | beat | decided | dropped | rolledBack
  | wrote | completed | failed | crash => rfl
  | enqueued u n o priority tx htx h hu =>
    have hu' : u.failures = s.failures := by
      rcases hu with ⟨-, rfl⟩ | ⟨count, -, -, rfl⟩
      · rfl
      · rfl
    rcases enqueueWriteJob_cases h with ⟨rfl, -⟩ | ⟨⟨hfresh, rfl⟩, -⟩
    · exact hu'
    · exact hu'
  | read w job o =>
    simp only [State.read]
    split
    · rfl
    · rfl
  | returned op w hop h => exact hret hop h

structure Kept (s : State) : Prop where
  owed : Owed s
  covered : Covered s
  failures : s.failures = 0

theorem reachable_kept (h : (system maxAttempts).Reachable Careful s) : Kept s := by
  refine h.invariant_of (I := Sound) (fun _ hs => reachable_sound hs) (fun s' hs => ?_)
    fun _ _ _ hs hk hp hst => ?_
  · obtain rfl : s' = start := hs
    exact ⟨fun o n hrow => by simp [start] at hrow, fun o _ hlt => by simp [start] at hlt, rfl⟩
  · exact ⟨owed_step hs hk.owed hp hst, covered_step hs hk.owed hk.covered hp hst,
      (failures_step hs hp hst).trans hk.failures⟩

/-- **A statement that returns rows lands exactly when it leaves no order with two pending write
jobs. In runs of careful steps none fails, and a change that no written text contains has a write
job that has not read the order, or is writing from a state that contains it.** -/
theorem write_queue_keeps_up (maxAttempts : ℕ) (s : State) :
    ((system maxAttempts).Reachable TransitionSystem.anyStep s →
      ∀ op, (∃ u, op.run s.jobs = .done u) ↔ ¬ Collides op s.jobs) ∧
    ((system maxAttempts).Reachable Careful s → s.failures = 0 ∧ Covered s) :=
  ⟨fun h _ => done_iff_not_collides (reachable_sound h).indexed,
    fun h => ⟨(reachable_kept h).failures, (reachable_kept h).covered⟩⟩

end Coverage

/-- Neither a read, nor a job failed for good, nor a statement that returns rows. -/
def plain : Label → Bool
  | .read _ | .fail _ _ | .retry _ _ _ | .releaseUntouched _ | .releaseAllClaims _
  | .reclaimExpired => false
  | _ => true

theorem careful_of_plain {s : State} {l : Label} (hl : plain l = true) : Careful s l := by
  refine ⟨fun op hop => ?_, fun w job o hread => ?_, fun w error job o hfail => ?_⟩
  · cases l <;> simp [plain] at hl <;> cases hop
  · subst hread
    cases hl
  · subst hfail
    cases hl

theorem reachable_of_plain {maxAttempts : ℕ} {s t : State} {ls : List Label}
    (hs : (system maxAttempts).Reachable Careful s) (hl : ∀ l ∈ ls, plain l = true)
    (h : (system maxAttempts).exec s ls = some t) : (system maxAttempts).Reachable Careful t := by
  induction ls generalizing s with
  | nil =>
    simp only [TransitionSystem.exec, Option.some.injEq] at h
    exact h ▸ hs
  | cons l ls ih =>
    simp only [TransitionSystem.exec, Option.bind_eq_some_iff] at h
    obtain ⟨m, hstep, hrest⟩ := h
    exact ih (.step hs (careful_of_plain (hl l List.mem_cons_self)) hstep)
      (fun l' hl' => hl l' (List.mem_cons_of_mem l hl')) hrest

/-- A change is committed and its job has read the order: the text to come contains the
change. In another run the job is claimed when a second change enqueues, and giving it
back does not land. -/
theorem change_is_being_written :
    (∃ s, (system 5).Reachable Careful s ∧ (s.order 1).written < (s.order 1).version ∧
      (Waiting s 1 ∨ Rewriting s 1)) ∧
    ∃ s op, (system 5).Reachable TransitionSystem.anyStep s ∧ Collides op s.jobs ∧
      ¬ ∃ u, op.run s.jobs = .done u := by
  constructor
  · obtain ⟨s, job, hrun, hhand, hkind, horder, hrow, hlock, ho⟩ : ∃ s job, (system 5).exec start
        [.begin 0 true, .change 0 1 1 50, .commit 0, .claim "w" 300 []] = some s ∧
        s.hand "w" = .claimed job ∧ job.kind = .write ∧ job.orderId = some 1 ∧
        s.rowLock 1 = none ∧ s.lock = none ∧ s.order 1 = ⟨1, 0, 1, false⟩ :=
      ⟨_, _, rfl, rfl, rfl, rfl, rfl, rfl, rfl⟩
    have hs := reachable_of_plain (.init rfl) (by decide) hrun
    have hcareful : Careful s (.read "w") := by
      refine ⟨fun op hop => ?_, fun w job' o hl hhand' horder' _ => ?_,
        fun w error job' o hfail => ?_⟩
      · cases hop
      · obtain rfl : "w" = w := by simpa using hl
        obtain rfl : job = job' := by simpa using hhand.symm.trans hhand'
        obtain rfl : 1 = o := Option.some.inj (horder.symm.trans horder')
        refine ⟨fun n hn => ?_, fun _ _ => by simp [ho]⟩
        rw [hrow] at hn
        cases hn
      · cases hfail
    have hstep : step 5 s (.read "w") = some (s.read "w" job 1) := by
      simp [step, hhand, hkind, horder, hlock]
    have ho' : (s.read "w" job 1).order 1 = ⟨1, 0, 1, false⟩ := by
      simp [State.read, ho]
    have hs' := hs.step hcareful hstep
    refine ⟨_, hs', by rw [ho']; decide, ?_⟩
    exact ((write_queue_keeps_up 5 _).2 hs').2 1 (by rw [ho']) (by rw [ho']; decide)
  · obtain ⟨s, a, b, hrun, ha, hb, hcol⟩ : ∃ s a b, (system 5).exec start
        [.begin 0 true, .change 0 1 1 50, .commit 0, .claim "w" 300 [], .begin 1 false,
          .change 1 1 2 10, .commit 1] = some s ∧ a ∈ s.jobs.rows ∧ b ∈ s.jobs.rows ∧
        (a.id ≠ b.id ∧ a.kind = .write ∧ b.kind = .write ∧ a.orderId ≠ none ∧
          a.orderId = b.orderId ∧ Goes (.releaseUntouched a.id "w") a ∧
          b.row.status = .pending) :=
      ⟨_, _, _, rfl, List.mem_cons_self, List.mem_cons_of_mem _ List.mem_cons_self,
        by decide, rfl, rfl, by decide, rfl, ⟨rfl, by decide⟩, rfl⟩
    obtain ⟨hne, hka, hkb, hoa, hoab, hga, hpb⟩ := hcol
    have hcollides : Collides (.releaseUntouched a.id "w") s.jobs :=
      ⟨a, ha, b, hb, hne, hka, hkb, hoa, hoab, hga, .inr hpb⟩
    have hs := TransitionSystem.reachable_of_exec_any _ rfl hrun
    exact ⟨s, _, hs, hcollides, fun hdone =>
      ((write_queue_keeps_up 5 s).1 hs _).1 hdone hcollides⟩

/-- A job that gives up after a second change was enqueued cannot be returned; and a change
that found a job waiting, committed after that job has read, is in no text and has no
job. -/
theorem write_queue_jams_and_misses :
    (¬ ∀ s, (system 5).Reachable TransitionSystem.anyStep s → s.failures = 0) ∧
    ¬ ∀ s, (system 5).Reachable TransitionSystem.anyStep s → Covered s := by
  constructor
  · intro h
    obtain ⟨s, hrun, hfail⟩ : ∃ s, (system 5).exec start
        [.begin 0 true, .change 0 1 1 50, .commit 0, .claim "w" 300 [], .begin 1 false,
          .change 1 1 2 10, .commit 1, .rollback "w", .retry "w" 5 "timeout"] = some s ∧
        s.failures = 1 := ⟨_, rfl, rfl⟩
    have hzero := h s (TransitionSystem.reachable_of_exec_any _ rfl hrun)
    omega
  · intro h
    obtain ⟨s, hrun, hdel, hlt, hdone⟩ : ∃ s, (system 5).exec start
        [.begin 0 true, .change 0 1 1 50, .commit 0, .begin 1 false, .change 1 1 2 10,
          .claim "w" 300 [], .read "w", .commit 1, .commitWrite "w", .complete "w"] = some s ∧
        (s.order 1).deleted = false ∧ (s.order 1).written < (s.order 1).version ∧
        ∀ j ∈ s.jobs.rows, j.row.status = .done := ⟨_, rfl, rfl, by decide, by decide⟩
    rcases h s (TransitionSystem.reachable_of_exec_any _ rfl hrun) 1 hdel hlt with
      ⟨j, hj, -, -, -, hpend | ⟨hclaimed, -⟩⟩ | ⟨j, hj, -, -, -, w, job, hheld, -⟩
    · rw [hdone j hj] at hpend
      cases hpend
    · rw [hdone j hj] at hclaimed
      cases hclaimed
    · have hclaimed := heldBy_status hheld
      rw [hdone j hj] at hclaimed
      cases hclaimed

end MailVerdict.Analysis.WriteQueue
