import MailVerdict.Model.OrderSeals

/-!
# What a sealed order takes

That an order accepts mail is read with the candidates, and in one of the three reads not
asked at all. The job then waits for the model, minutes perhaps, and what it attaches to is
whatever candidate the model named. Only when it updates the order's row does the job keep
`update_controls` out.

So a job attaches to a sealed order exactly when the seal commits before that update. A run
in which the model names no order sealed meanwhile, and no seal of the order it named
commits before the job has its row, adds nothing to a sealed order
(`sealed_order_takes_nothing`).
-/

namespace MailVerdict.Analysis.SealedOrders

open MailVerdict.Computation
open Model.OrderSeals

/-- The decision of a job that has not yet updated the row of its order. -/
def Waiting : Phase → Decision → Prop
  | .answered d, d' => d = d'
  | .attached d _, d' => d = d'
  | _, _ => False

/-- The model does not name an order that was sealed since the candidates were read, and
no seal of the order it named commits before the job has the row. -/
def Undisturbed (s : State) : Label → Prop
  | .answer (.existing o) _ => ∀ r ∈ s.orders.rows, r.id = o → r.isSealed = false
  | .commitControls o => s.controls o = some true →
      ∀ x d, s.tx = some x → Waiting x.phase d → d.orderId ≠ o
  | _ => True

/-- The step adds no mail, document or number to an order that is sealed. -/
structure TakesNothing (s t : State) : Prop where
  mail : ∀ o ∈ s.orders.rows, o.isSealed = true → ∀ r ∈ t.orderMails.rows, r.orderId = o.id →
    r ∈ s.orderMails.rows
  document : ∀ o ∈ s.orders.rows, o.isSealed = true → ∀ r ∈ t.documents.rows,
    r.orderId = o.id → r ∈ s.documents.rows
  identifier : ∀ o ∈ s.orders.rows, o.isSealed = true → ∀ f ∈ t.identifiers.rows,
    f.orderId = o.id → f ∈ s.identifiers.rows

def Decided : Phase → Decision → Prop
  | .answered d, d' => d = d'
  | .attached d _, d' => d = d'
  | .rowLocked d _, d' => d = d'
  | _, _ => False

/-- The order of a decision may be written: it is new, or not sealed. -/
def Open (s : State) (d : Decision) : Prop :=
  (d.isNew = true → d.orderId < s.nextId) ∧ ∀ o ∈ s.orders.rows, o.id = d.orderId → o.isSealed = false

structure Inv (s : State) : Prop where
  issued : ∀ o ∈ s.orders.rows, o.id < s.nextId
  decided : ∀ x d, s.tx = some x → Decided x.phase d → Open s d
  held : ∀ x d inserted, s.tx = some x → x.phase = .rowLocked d inserted →
    s.controls d.orderId = none

theorem inv_start : Inv Model.OrderSeals.start where
  issued := by
    intro o ho
    cases ho
  decided := by
    intro x d hx
    cases hx
  held := by
    intro x d inserted hx
    cases hx

section Writes

variable {s t : State} {d : Decision} {j : MailJob}

/-- Rows of another order are as they were, and the orders too. -/
structure Elsewhere (o : Uuid) (s t : State) : Prop where
  mail : ∀ r ∈ t.orderMails.rows, r.orderId ≠ o → r ∈ s.orderMails.rows
  document : ∀ r ∈ t.documents.rows, r.orderId ≠ o → r ∈ s.documents.rows
  identifier : ∀ f ∈ t.identifiers.rows, f.orderId ≠ o → f ∈ s.identifiers.rows

theorem Elsewhere.refl (o : Uuid) (s : State) : Elsewhere o s s :=
  ⟨fun _ h _ => h, fun _ h _ => h, fun _ h _ => h⟩

theorem Elsewhere.trans {o : Uuid} {u : State} (h : Elsewhere o s t) (h' : Elsewhere o t u) :
    Elsewhere o s u where
  mail r hr hne := h.mail r (h'.mail r hr hne) hne
  document r hr hne := h.document r (h'.document r hr hne) hne
  identifier f hf hne := h.identifier f (h'.identifier f hf hne) hne

theorem elsewhere_foldl {α : Type} {o : Uuid} {f : State → α → State}
    (hf : ∀ s a, Elsewhere o s (f s a)) (as : List α) (s : State) :
    Elsewhere o s (as.foldl f s) := by
  induction as generalizing s with
  | nil => exact .refl o s
  | cons a as ih => exact (hf s a).trans (ih (f s a))

theorem elsewhere_addOrder : Elsewhere d.orderId s (s.addOrder d) := by
  rw [State.addOrder]
  split <;> exact ⟨fun _ h _ => h, fun _ h _ => h, fun _ h _ => h⟩

theorem elsewhere_addMail : Elsewhere d.orderId s (s.addMail j d) := by
  refine ⟨fun r hr hne => ?_, fun _ h _ => h, fun _ h _ => h⟩
  obtain hold | hnew := KeyedTable.mem_insertAll.2 hr
  · exact hold
  · rw [List.mem_singleton.1 hnew] at hne
    exact absurd rfl hne

theorem elsewhere_addDocument (s : State) (a : Uuid) :
    Elsewhere d.orderId s (State.addDocument j d s a) := by
  refine ⟨fun _ h _ => h, fun r hr hne => ?_, fun _ h _ => h⟩
  obtain hold | hnew := KeyedTable.mem_insertAll.2 hr
  · obtain ⟨r', hr', rfl⟩ := KeyedTable.mem_update.1 hold
    split at hne
    · exact absurd rfl hne
    next hother =>
      rw [if_neg hother]
      exact hr'
  · rw [List.mem_singleton.1 hnew] at hne
    exact absurd rfl hne

theorem elsewhere_upsertIdentifierFact (s : State) (n : Number) :
    Elsewhere d.orderId s (State.upsertIdentifierFact d s n) := by
  rw [State.upsertIdentifierFact]
  split
  · exact .refl _ s
  · refine ⟨fun _ h _ => h, fun _ h _ => h, fun f hf hne => ?_⟩
    obtain hold | hnew := KeyedTable.mem_insertAll.2 hf
    · exact hold
    · rw [List.mem_singleton.1 hnew] at hne
      exact absurd rfl hne

theorem elsewhere_commit (inserted : Bool) : Elsewhere d.orderId s (s.commit j d inserted) := by
  have hstored : Elsewhere d.orderId s (d.numbers.foldl (State.upsertIdentifierFact d)
      (if inserted then j.attachments.foldl (State.addDocument j d) ((s.addOrder d).addMail j d)
        else s.addOrder d)) := by
    refine .trans ?_ (elsewhere_foldl elsewhere_upsertIdentifierFact _ _)
    split
    · exact elsewhere_addOrder.trans
        (elsewhere_addMail.trans (elsewhere_foldl elsewhere_addDocument _ _))
    · exact elsewhere_addOrder
  exact ⟨hstored.mail, hstored.document, hstored.identifier⟩

theorem Elsewhere.takesNothing (h : Elsewhere d.orderId s t)
    (hopen : ∀ o ∈ s.orders.rows, o.id = d.orderId → o.isSealed = false) : TakesNothing s t := by
  have hne : ∀ o ∈ s.orders.rows, o.isSealed = true → o.id ≠ d.orderId := by
    intro o ho hsealed hid
    rw [hopen o ho hid] at hsealed
    cases hsealed
  exact
    { mail := fun o ho hsealed r hr hid => h.mail r hr (hid ▸ hne o ho hsealed)
      document := fun o ho hsealed r hr hid => h.document r hr (hid ▸ hne o ho hsealed)
      identifier := fun o ho hsealed f hf hid => h.identifier f hf (hid ▸ hne o ho hsealed) }

end Writes

section Steps

variable {s t : State} {x : Tx}

theorem Inv.phase (h : Inv s) {y : Tx} (horders : t.orders = s.orders)
    (hnext : s.nextId ≤ t.nextId) (htx : t.tx = some y) (hcontrols : t.controls = s.controls)
    (hdecided : ∀ d, Decided y.phase d → Open t d)
    (hheld : ∀ d inserted, y.phase = .rowLocked d inserted → s.controls d.orderId = none) :
    Inv t where
  issued o ho := by
    rw [horders] at ho
    exact Nat.lt_of_lt_of_le (h.issued o ho) hnext
  decided z d hz hd := by
    rw [htx, Option.some.injEq] at hz
    subst hz
    exact hdecided d hd
  held z d inserted hz hphase := by
    rw [htx, Option.some.injEq] at hz
    subst hz
    rw [hcontrols]
    exact hheld d inserted hphase

theorem Inv.ended (h : Inv s) (horders : t.orders = s.orders) (hnext : t.nextId = s.nextId)
    (htx : t.tx = none) : Inv t where
  issued o ho := by
    rw [horders] at ho
    rw [hnext]
    exact h.issued o ho
  decided y d hy := by
    rw [htx] at hy
    cases hy
  held y d inserted hy := by
    rw [htx] at hy
    cases hy

theorem Inv.apart (h : Inv s) (horders : t.orders = s.orders) (hnext : t.nextId = s.nextId)
    (htx : t.tx = s.tx) (hcontrols : t.controls = s.controls) : Inv t where
  issued o ho := by
    rw [horders] at ho
    rw [hnext]
    exact h.issued o ho
  decided y d hy hd := by
    rw [htx] at hy
    obtain ⟨hlt, hopen⟩ := h.decided y d hy hd
    refine ⟨hnext ▸ hlt, fun o ho => ?_⟩
    rw [horders] at ho
    exact hopen o ho
  held y d inserted hy hphase := by
    rw [htx] at hy
    rw [hcontrols]
    exact h.held y d inserted hy hphase

theorem Inv.setPhase (h : Inv s) {phase : Phase} (hdecided : ∀ d, Decided phase d → Open s d)
    (hheld : ∀ d inserted, phase = .rowLocked d inserted → s.controls d.orderId = none) :
    Inv (s.setPhase x phase) :=
  h.phase (y := { x with phase := phase }) rfl (Nat.le_refl _) rfl rfl hdecided hheld

theorem Inv.answer (h : Inv s) {candidates : List Uuid} {target : Target} {numbers : List Number}
    (hp : Undisturbed s (.answer target numbers))
    (hst : s.answer x candidates numbers target = some t) : Inv t := by
  cases target with
  | none =>
    obtain rfl := Option.some.inj hst
    exact h.ended rfl rfl rfl
  | new =>
    obtain rfl := Option.some.inj hst
    refine h.phase rfl (Nat.le_succ _) rfl rfl (fun d hd => ?_) nofun
    obtain rfl : ⟨s.nextId, true, numbers⟩ = d := hd
    exact ⟨fun _ => Nat.lt_succ_self _, fun o ho hid => absurd hid (Nat.ne_of_lt (h.issued o ho))⟩
  | existing o =>
    rw [State.answer] at hst
    split at hst
    · obtain rfl := Option.some.inj hst
      refine h.setPhase (fun d hd => ?_) nofun
      obtain rfl : ⟨o, false, numbers⟩ = d := hd
      exact ⟨nofun, hp⟩
    · cases hst

theorem Inv.commitControls (h : Inv s) {o : Uuid} (hp : Undisturbed s (.commitControls o))
    (hst : s.commitControls o = some t) : Inv t := by
  obtain ⟨isSealed, hcontrols, rfl⟩ := Option.map_eq_some_iff.1 hst
  refine ⟨fun r hr => ?_, fun x d hx hd => ?_, fun x d inserted hx hphase => ?_⟩
  · obtain ⟨r', hr', rfl⟩ := (KeyedTable.mem_of_eq_update (by exact fun _ => rfl) rfl).1 hr
    split <;> exact h.issued r' hr'
  · obtain ⟨hlt, hopen⟩ := h.decided x d hx hd
    refine ⟨hlt, fun r hr hid => ?_⟩
    obtain ⟨r', hr', rfl⟩ := (KeyedTable.mem_of_eq_update (by exact fun _ => rfl) rfl).1 hr
    split at hid
    next hmatch =>
      rw [if_pos hmatch]
      have hsame : o = d.orderId := (of_decide_eq_true hmatch).symm.trans hid
      cases isSealed with
      | false => rfl
      | true =>
        -- a seal of the job's order: it has the row, or the step is excluded
        obtain ⟨job, phase⟩ := x
        cases phase with
        | answered d' | attached d' inserted => exact absurd hsame.symm (hp hcontrols _ d hx hd)
        | rowLocked d' inserted =>
          obtain rfl : d' = d := hd
          have hfree := h.held _ d' inserted hx rfl
          rw [← hsame, hcontrols] at hfree
          cases hfree
        | _ => exact hd.elim
    next hother =>
      rw [if_neg hother]
      exact hopen r' hr' hid
  · have hfree := h.held x d inserted hx hphase
    by_cases hsame : d.orderId = o
    · rw [← hsame, hfree] at hcontrols
      cases hcontrols
    · exact (Function.update_of_ne hsame _ _).trans hfree

theorem mem_addOrder {d : Decision} {o : Order} (ho : o ∈ (s.addOrder d).orders.rows) :
    o ∈ s.orders.rows ∨ d.isNew = true ∧ o.id = d.orderId := by
  rw [State.addOrder] at ho
  split at ho
  next hfresh =>
    obtain hold | rfl := (KeyedTable.mem_insert (t := s.orders) hfresh.2).1 ho
    · exact Or.inl hold
    · exact Or.inr ⟨hfresh.1, rfl⟩
  next => exact Or.inl ho

theorem foldl_addDocument_rest (j : MailJob) (d : Decision) (as : List Uuid) (s : State) :
    (as.foldl (State.addDocument j d) s).orders = s.orders ∧
      (as.foldl (State.addDocument j d) s).nextId = s.nextId := by
  induction as generalizing s with
  | nil => exact ⟨rfl, rfl⟩
  | cons a as ih => exact ih _

theorem foldl_upsertIdentifierFact_rest (d : Decision) (ns : List Number) (s : State) :
    (ns.foldl (State.upsertIdentifierFact d) s).orders = s.orders ∧
      (ns.foldl (State.upsertIdentifierFact d) s).nextId = s.nextId := by
  induction ns generalizing s with
  | nil => exact ⟨rfl, rfl⟩
  | cons n ns ih =>
    obtain ⟨horders, hnext⟩ := ih (State.upsertIdentifierFact d s n)
    rw [List.foldl_cons, horders, hnext, State.upsertIdentifierFact]
    split <;> exact ⟨rfl, rfl⟩

theorem stored_rest (j : MailJob) (d : Decision) (inserted : Bool) (s : State) :
    let t := if inserted then j.attachments.foldl (State.addDocument j d) (s.addMail j d) else s
    (d.numbers.foldl (State.upsertIdentifierFact d) t).orders = s.orders ∧
      (d.numbers.foldl (State.upsertIdentifierFact d) t).nextId = s.nextId := by
  intro t
  obtain ⟨horders, hnext⟩ := foldl_upsertIdentifierFact_rest d d.numbers t
  rw [horders, hnext]
  by_cases hinserted : inserted = true
  · have ht : t = j.attachments.foldl (State.addDocument j d) (s.addMail j d) :=
      if_pos hinserted
    rw [ht]
    exact foldl_addDocument_rest j d j.attachments (s.addMail j d)
  · have ht : t = s := if_neg hinserted
    rw [ht]
    exact ⟨rfl, rfl⟩

theorem addOrder_nextId (d : Decision) (s : State) : (s.addOrder d).nextId = s.nextId := by
  rw [State.addOrder]
  split <;> rfl

theorem mem_commit {j : MailJob} {d : Decision} {inserted : Bool} {o : Order}
    (ho : o ∈ (s.commit j d inserted).orders.rows) :
    (∃ o' ∈ s.orders.rows, o'.id = o.id) ∨ d.isNew = true ∧ o.id = d.orderId := by
  obtain ⟨o', ho', hid⟩ := KeyedTable.exists_key_of_mem_update (by exact fun _ => rfl) rfl ho
  rw [(stored_rest j d inserted (s.addOrder d)).1] at ho'
  obtain hold | ⟨hnew, hsame⟩ := mem_addOrder ho'
  · exact Or.inl ⟨o', hold, hid⟩
  · exact Or.inr ⟨hnew, hid ▸ hsame⟩

theorem Inv.commit (h : Inv s) {d : Decision} {inserted : Bool} (hx : s.tx = some x)
    (hphase : x.phase = .rowLocked d inserted) : Inv (s.commit x.job d inserted) := by
  have hnext : (s.commit x.job d inserted).nextId = s.nextId :=
    (stored_rest x.job d inserted (s.addOrder d)).2.trans (addOrder_nextId d s)
  have hdecided : Decided x.phase d := by
    rw [hphase]
    rfl
  refine ⟨fun o ho => ?_, fun y d' hy => ?_, fun y d' inserted' hy => ?_⟩
  · rw [hnext]
    obtain ⟨o', ho', hid⟩ | ⟨hnew, hid⟩ := mem_commit ho
    · rw [← hid]
      exact h.issued o' ho'
    · rw [hid]
      exact (h.decided x d hx hdecided).1 hnew
  · cases hy
  · cases hy

/-- **One step.** -/
theorem inv_step {l : Label} (h : Inv s) (hp : Undisturbed s l) (hst : step s l = some t) :
    Inv t := by
  cases l with
  | tick elapsed | enqueue j =>
    obtain rfl := Option.some.inj hst
    exact h.apart rfl rfl rfl rfl
  | begin j =>
    rw [step] at hst
    split at hst
    · obtain rfl := Option.some.inj hst
      exact h.phase rfl (Nat.le_refl _) rfl rfl nofun nofun
    · cases hst
  | readThread | readWindow =>
    obtain ⟨x, hx, hmatch⟩ := Option.bind_eq_some_iff.1 hst
    split at hmatch
    · obtain rfl := Option.some.inj hmatch
      exact h.setPhase nofun nofun
    · cases hmatch
  | readExtras ranked =>
    obtain ⟨x, hx, hmatch⟩ := Option.bind_eq_some_iff.1 hst
    split at hmatch
    · rw [State.readExtras] at hmatch
      split at hmatch
      · obtain rfl := Option.some.inj hmatch
        exact h.setPhase nofun nofun
      · cases hmatch
    · cases hmatch
  | answer target numbers =>
    obtain ⟨x, hx, hmatch⟩ := Option.bind_eq_some_iff.1 hst
    split at hmatch
    · exact h.answer hp hmatch
    · cases hmatch
  | attach =>
    obtain ⟨x, hx, hmatch⟩ := Option.bind_eq_some_iff.1 hst
    split at hmatch
    next d hphase =>
      obtain rfl := Option.some.inj hmatch
      refine h.setPhase (fun d' hd => h.decided x d' hx ?_) nofun
      rw [hphase]
      exact hd
    next => cases hmatch
  | lockRow =>
    obtain ⟨x, hx, hmatch⟩ := Option.bind_eq_some_iff.1 hst
    split at hmatch
    next d inserted hphase =>
      rw [State.lockRow] at hmatch
      split at hmatch
      next hfree =>
        obtain rfl := Option.some.inj hmatch
        refine h.setPhase (fun d' hd => h.decided x d' hx ?_) fun d' inserted' hd => ?_
        · rw [hphase]
          exact hd
        · obtain ⟨rfl, -⟩ := Phase.rowLocked.inj hd
          exact hfree
      next => cases hmatch
    next => cases hmatch
  | commit =>
    obtain ⟨x, hx, hmatch⟩ := Option.bind_eq_some_iff.1 hst
    split at hmatch
    next d inserted hphase =>
      obtain rfl := Option.some.inj hmatch
      exact h.commit hx hphase
    next => cases hmatch
  | rollback =>
    obtain ⟨x, -, rfl⟩ := Option.map_eq_some_iff.1 hst
    exact h.ended rfl rfl rfl
  | updateControls o isSealed =>
    rw [step, State.updateControls] at hst
    split at hst
    · obtain rfl := Option.some.inj hst
      exact h
    · split at hst
      next hfree =>
        obtain rfl := Option.some.inj hst
        refine ⟨h.issued, h.decided, fun x d inserted hx hphase => ?_⟩
        have hheld : s.rowHeld d.orderId = true := by
          rw [State.rowHeld, hx]
          obtain ⟨job, phase⟩ := x
          obtain rfl : phase = .rowLocked d inserted := hphase
          exact decide_eq_true rfl
        have hne : d.orderId ≠ o := by
          rintro rfl
          rw [hfree.2] at hheld
          cases hheld
        exact (Function.update_of_ne hne _ _).trans (h.held x d inserted hx hphase)
      next => cases hst
  | commitControls o => exact h.commitControls hp hst
  | rollbackControls o =>
    obtain ⟨b, -, rfl⟩ := Option.map_eq_some_iff.1 hst
    refine ⟨h.issued, h.decided, fun x d inserted hx hphase => ?_⟩
    have hfree := h.held x d inserted hx hphase
    by_cases hsame : d.orderId = o
    · rw [hsame]
      exact Function.update_self _ _ _
    · exact (Function.update_of_ne hsame _ _).trans hfree

end Steps

section Claim

variable {s t : State}

theorem inv_reachable (h : system.Reachable Undisturbed s) : Inv s :=
  h.invariant (fun s' (hs : s' = Model.OrderSeals.start) => hs ▸ inv_start)
    fun _ _ _ hinv hp hst => inv_step hinv hp hst

/-- Where the model names no order sealed since the candidates were read, and no seal of it
commits before the job has its row, no job adds a mail, a document or a number to a sealed
order. -/
theorem sealed_order_takes_nothing (h : system.Reachable Undisturbed s)
    (hst : step s .commit = some t) : TakesNothing s t := by
  obtain ⟨x, hx, hmatch⟩ := Option.bind_eq_some_iff.1 hst
  split at hmatch
  next d inserted hphase =>
    obtain rfl := Option.some.inj hmatch
    refine (elsewhere_commit (j := x.job) inserted).takesNothing ?_
    refine ((inv_reachable h).decided x d hx ?_).2
    rw [hphase]
    rfl
  next => cases hmatch

def aJob (msgKey : String) : MailJob where
  accountId := 1
  msgKey := msgKey
  threadId := some 7
  receivedAt := 0
  attachments := [50]

def aNumber : Number := ⟨"tracking_number", "JD 0146", "JD0146"⟩

def firstOrder : List Label :=
  [.enqueue (aJob "<first@shop>"), .begin (aJob "<first@shop>"), .readThread, .readWindow,
    .readExtras [], .answer .new [], .attach, .lockRow, .commit]

def secondRead : List Label :=
  [.enqueue (aJob "<second@shop>"), .begin (aJob "<second@shop>"), .readThread, .readWindow,
    .readExtras [0]]

/-- A bound the executions below can decide: the model names an order no row of which is
sealed, and no seal commits while a job is open. -/
def quiet (s : State) : Label → Bool
  | .answer (.existing o) _ => s.orders.rows.all fun r => !(decide (r.id = o) && r.isSealed)
  | .commitControls o => decide (s.controls o ≠ some true) || s.tx.isNone
  | _ => true

theorem undisturbed_of_quiet (s : State) (l : Label) (h : quiet s l = true) : Undisturbed s l := by
  cases l with
  | answer target numbers =>
    cases target with
    | existing o =>
      intro r hr hid
      have hopen := List.all_eq_true.1 h r hr
      rw [decide_eq_true hid, Bool.true_and, Bool.not_eq_true'] at hopen
      exact hopen
    | none => trivial
    | new => trivial
  | commitControls o =>
    intro hcontrols x d hx
    simp [quiet, hcontrols, hx] at h
  | _ => trivial

/-- An order is sealed once the second job has its row; the seal waits, and the job adds
its mail to an order that is not sealed. A third mail finds it sealed and opens another. -/
theorem seal_waits_for_the_job : ∃ s t : State,
    system.Reachable Undisturbed s ∧ step s .commit = some t ∧ TakesNothing s t ∧
    (s.orders.rows.map fun o => (o.id, o.isSealed)) = [(0, true)] ∧
    (t.orderMails.rows.map OrderMail.orderId) = [0, 0, 1] := by
  obtain ⟨s, t, hexec, hmeets, hst, horders, hmails⟩ : ∃ s t : State,
      system.exec Model.OrderSeals.start (firstOrder ++ secondRead ++
        [.answer (.existing 0) [aNumber], .attach, .lockRow, .commit, .updateControls 0 true,
          .commitControls 0, .enqueue (aJob "<third@shop>"), .begin (aJob "<third@shop>"),
          .readThread, .readWindow, .readExtras [], .answer .new [aNumber], .attach,
          .lockRow]) = some s ∧
      system.execMeets (fun s l => quiet s l = true) Model.OrderSeals.start
        (firstOrder ++ secondRead ++
        [.answer (.existing 0) [aNumber], .attach, .lockRow, .commit, .updateControls 0 true,
          .commitControls 0, .enqueue (aJob "<third@shop>"), .begin (aJob "<third@shop>"),
          .readThread, .readWindow, .readExtras [], .answer .new [aNumber], .attach,
          .lockRow]) = true ∧
      step s .commit = some t ∧
      (s.orders.rows.map fun o => (o.id, o.isSealed)) = [(0, true)] ∧
      (t.orderMails.rows.map OrderMail.orderId) = [0, 0, 1] := ⟨_, _, rfl, rfl, rfl, rfl, rfl⟩
  have hreach : system.Reachable Undisturbed s :=
    (TransitionSystem.reachable_of_exec _ rfl hmeets hexec).mono undisturbed_of_quiet
  exact ⟨s, t, hreach, hst, sealed_order_takes_nothing hreach hst, horders, hmails⟩

/-- The order is sealed while the model is asked: the mail, its document and its number go
into the sealed order. -/
theorem seal_during_the_model_call : ¬∀ s t : State,
    system.Reachable TransitionSystem.anyStep s → step s .commit = some t → TakesNothing s t := by
  intro hclaim
  obtain ⟨s, t, hexec, hst, horders, hmails, hnew⟩ : ∃ s t : State,
      system.exec Model.OrderSeals.start (firstOrder ++ secondRead ++
        [.updateControls 0 true, .commitControls 0, .answer (.existing 0) [aNumber], .attach,
          .lockRow]) = some s ∧
      step s .commit = some t ∧ s.orders.rows = [⟨0, true, some 0⟩] ∧
      s.orderMails.rows = [(aJob "<first@shop>").orderMail ⟨0, true, []⟩] ∧
      (aJob "<second@shop>").orderMail ⟨0, false, [aNumber]⟩ ∈ t.orderMails.rows :=
    ⟨_, _, rfl, rfl, rfl, rfl, List.mem_cons_of_mem _ List.mem_cons_self⟩
  have htakes := (hclaim s t (TransitionSystem.reachable_of_exec_any _ rfl hexec) hst).mail
    ⟨0, true, some 0⟩ (horders ▸ List.mem_cons_self) rfl _ hnew rfl
  rw [hmails] at htakes
  exact absurd (List.mem_singleton.1 htakes) (by decide)

end Claim

end MailVerdict.Analysis.SealedOrders
