import MailVerdict.Analysis.HousekeepingAlone

/-!
# No mail is lost from the orders register

A deletion cascades to whatever is in the order when it runs, and whether an order is empty
is read from counters that were computed in a snapshot. A job that has attached a mail and
not yet committed is in neither: `merge_order` moves the mails it can see, waits for the job
at the deletion of the source, and then deletes the mail the job has just committed, which
the never-twice gate keeps from being bundled again (`merge_drops_the_mail_of_a_job`). Two
mails detached at once leave an order that counts one and has none.

Where no statement starts on an order, a mail, an account's mails or a file that another open
transaction has used, each, as if alone, keeps the register whole (`nothing_is_lost`).
-/

namespace MailVerdict.Analysis.OrderHousekeeping

open MailVerdict.Computation
open Model.OrderHousekeeping

def MailInOneOrder (d : Db) (g : Gate) : Prop :=
  ∃! m, m ∈ d.mails.rows ∧ m.gate = g ∧ d.hasOrder m.orderId = true

def FileInOneOrder (d : Db) (f : Uuid) : Prop :=
  ∃! r, r ∈ d.files.rows ∧ r.id = f ∧ ∃ o, r.orderId = some o ∧ d.hasOrder o = true

/-- No statement starts on a part of the register that another open transaction has used. -/
abbrev KeptApart : State → Label → Prop := engine.Apart clash fun _ _ => true

theorem kept_of_reachable {s : State} (h : system.Reachable KeptApart s) : Kept s.db :=
  discipline.holds_of_reachable kept_empty kept_program (fun _ e => e.elim) h

/-- **No mail is lost** in runs that keep the transactions apart: a mail placed and not released
is in exactly one order, a file added and not deleted is too, and an order none of whose files
waits for its job has the counters of its rows. -/
theorem nothing_is_lost {s : State} (h : system.Reachable KeptApart s) :
    (∀ g ∈ s.db.ended, g ∉ s.db.released → MailInOneOrder s.db g) ∧
      (∀ f ∈ s.db.placed, f ∉ s.db.removed → FileInOneOrder s.db f) ∧
      ∀ r ∈ s.db.orders.rows, (∀ f ∈ s.db.filesOf r.id, f.attached = true) →
        r.aggregates = s.db.aggregates r.id := by
  have hkept := kept_of_reachable h
  refine ⟨fun g hended hreleased => ?_, fun f hplaced hremoved => ?_, fun r hr hattached => ?_⟩
  · have hthere := hkept.mail g hended hreleased (Finset.notMem_empty g)
    obtain ⟨m, hm, rfl⟩ := hasMail_iff.1 hthere
    refine ⟨m, ⟨hm, rfl, hkept.mailOrder m hm⟩, ?_⟩
    rintro m' ⟨hm', hkey, -⟩
    exact s.db.mails.unique m' hm' m hm hkey
  · obtain ⟨r, hr, rfl, hsome⟩ := hkept.file f hplaced hremoved
    obtain ⟨o, ho⟩ := Option.isSome_iff_exists.1 hsome
    refine ⟨r, ⟨hr, rfl, o, ho, hkept.fileOrder r hr o ho⟩, ?_⟩
    rintro r' ⟨hr', hkey, -⟩
    exact s.db.files.unique r' hr' r hr hkey
  · exact hkept.counts r hr (Finset.notMem_empty r.id) hattached

/-! ## Runs -/

def statements (n k : ℕ) : List Label :=
  (List.replicate k [Engine.Label.start n, .exec n]).flatten

def undisturbed (n : ℕ) (k : Kind) (length : ℕ) : List Label :=
  .begin n k :: statements n length ++ [.commit n]

/-- Two orders are made, a mail is moved from one to the other, and the emptied one goes. -/
theorem moved_mail_is_in_one_order : ∃ s : State,
    (7, "a") ∈ s.db.ended ∧ s.db.hasOrder 1 = false ∧ MailInOneOrder s.db (7, "a") := by
  obtain ⟨s, hexec, hmeets, hended, hreleased, horder⟩ : ∃ s : State,
      system.exec ⟨emptyDb, []⟩
        (undisturbed 0 (.mailJob (7, "a") 10 (.new 1)) 6 ++
          undisturbed 1 (.mailJob (7, "b") 20 (.new 2)) 6 ++
          undisturbed 2 (.detachMail 1 (7, "a") (some 2)) 9) = some s ∧
      system.execMeets KeptApart ⟨emptyDb, []⟩
        (undisturbed 0 (.mailJob (7, "a") 10 (.new 1)) 6 ++
          undisturbed 1 (.mailJob (7, "b") 20 (.new 2)) 6 ++
          undisturbed 2 (.detachMail 1 (7, "a") (some 2)) 9) = true ∧
      (7, "a") ∈ s.db.ended ∧ (7, "a") ∉ s.db.released ∧ s.db.hasOrder 1 = false := by
    refine ⟨_, rfl, ?_, ?_, ?_, ?_⟩ <;> decide +kernel
  exact ⟨s, hended, horder,
    (nothing_is_lost (TransitionSystem.reachable_of_exec _ rfl hmeets hexec)).1 _ hended hreleased⟩

/-- A job has attached `c` to the source of a merge when the merge moves the source's mails,
and commits before the merge deletes the source. -/
def mergeDuringJob : List Label :=
  undisturbed 0 (.mailJob (7, "a") 10 (.new 1)) 6 ++
    undisturbed 1 (.mailJob (7, "b") 20 (.new 2)) 6 ++
    (.begin 2 (.mailJob (7, "c") 30 (.existing 1)) :: statements 2 2) ++
    (.begin 3 (.mergeOrder 1 2) :: statements 3 4) ++
    (statements 2 3 ++ [.commit 2]) ++ (statements 3 3 ++ [.commit 3])

/-- Two mails leave an order at once, and each call counts the mail the other deletes. -/
def twoDetachments : List Label :=
  undisturbed 0 (.mailJob (7, "a") 10 (.new 1)) 6 ++
    undisturbed 1 (.mailJob (7, "b") 20 (.existing 1)) 5 ++
    (.begin 2 (.detachMail 1 (7, "a") none) :: statements 2 2) ++
    (.begin 3 (.detachMail 1 (7, "b") none) :: statements 3 2) ++
    [.start 2, .start 3, .exec 2] ++ (statements 2 1 ++ [.commit 2, .exec 3]) ++
    (statements 3 1 ++ [.commit 3])

/-- **A merge drops the mail of a job**, which no call released; and counters stay wrong
after every transaction has committed. -/
theorem merge_drops_the_mail_of_a_job :
    (∃ s : State, system.Reachable TransitionSystem.anyStep s ∧ s.txs = [] ∧
      (7, "c") ∈ s.db.ended ∧ (7, "c") ∉ s.db.released ∧ ¬ MailInOneOrder s.db (7, "c")) ∧
    ∃ s : State, system.Reachable TransitionSystem.anyStep s ∧ s.txs = [] ∧
      s.db.files.rows = ∅ ∧ ∃ r ∈ s.db.orders.rows, r.aggregates ≠ s.db.aggregates r.id := by
  constructor
  · obtain ⟨s, hexec, htxs, hended, hreleased, hgone⟩ : ∃ s : State,
        system.exec ⟨emptyDb, []⟩ mergeDuringJob = some s ∧ s.txs = [] ∧
        (7, "c") ∈ s.db.ended ∧ (7, "c") ∉ s.db.released ∧ s.db.hasMail (7, "c") = false := by
      refine ⟨_, rfl, rfl, ?_, ?_, ?_⟩ <;> decide +kernel
    refine ⟨s, TransitionSystem.reachable_of_exec_any _ rfl hexec, htxs, hended, hreleased, ?_⟩
    rintro ⟨m, ⟨hm, hkey, -⟩, -⟩
    rw [hasMail_iff.2 ⟨m, hm, hkey⟩] at hgone
    cases hgone
  · obtain ⟨s, hexec, htxs, hfiles, hwrong⟩ : ∃ s : State,
        system.exec ⟨emptyDb, []⟩ twoDetachments = some s ∧ s.txs = [] ∧
        s.db.files.rows = ∅ ∧ ∃ r ∈ s.db.orders.rows, r.aggregates ≠ s.db.aggregates r.id := by
      refine ⟨_, rfl, rfl, ?_, ?_⟩ <;> decide +kernel
    exact ⟨s, TransitionSystem.reachable_of_exec_any _ rfl hexec, htxs, hfiles, hwrong⟩

end MailVerdict.Analysis.OrderHousekeeping
