import MailVerdict.Model.EchoTriage
import MailVerdict.Analysis.RefusedIntents

/-!
# What is dropped as an echo

An event is dropped at a flush for the answer of an intent it comes inside the grace of. An intent
is re-read in the step that answers it, and that re-read covers every event that has arrived by
then. An event that comes later is covered if its change was committed before the re-read began.
Nothing else moves an answered intent, except a second answer: a request another tab took over is
answered twice, the grace starts anew, and nothing is re-read. `Timely` says so of the steps.
-/

namespace MailVerdict.Analysis.EchoCoverage

open MailVerdict.Computation MailVerdict.Model Model.MailActions
open Model.MailIntents Model.EchoTriage Model.IntentLedger

/-- Every event dropped as an echo reports a change committed before a re-read that follows the
answer of an intent it echoes; every event that arrived is waiting, was acted on or was dropped;
and while one waits a flush is due, and none passes by it once it was held long enough. -/
structure LosesNoChange (s : EchoTriage.State) : Prop where
  echoes : ∀ d ∈ s.echoes, ∃ r ∈ s.rereads, r.intentId ∈ d.echoOf ∧ d.event.change < r.through
  accounted : ∀ e ∈ s.arrived, e ∈ s.pending ∨ e ∈ s.applied ∨ ∃ d ∈ s.echoes, d.event = e
  waits : ∀ e ∈ s.pending, s.flushDue = true ∧ s.flushedAt < e.arrivedAt + echoHoldMaxMs

/-- Change `n` was committed before a re-read of the intent began. -/
def RereadSince (s : EchoTriage.State) (id : IntentId) (n : ℕ) : Prop :=
  ∃ r ∈ s.rereads, r.intentId = id ∧ n < r.through

instance (s : EchoTriage.State) (id : IntentId) (n : ℕ) : Decidable (RereadSince s id n) := by
  unfold RereadSince; infer_instance

/-- The intent a step of the ledger settles. -/
def answering (c : IntentLedger.State) : IntentLedger.Label → Option MailIntent
  | .deliver n | .lose n _ => c.calls[n]?.bind fun call => currentIntent c.ledger call.intent
  | _ => none

/-- The condition on one step. An event that arrives inside the grace of an answered intent reports
a change committed before that was re-read, and an intent is answered a second time only when no
event waits that reports a later one. -/
def Timely (s : EchoTriage.State) : Time × EchoTriage.Label → Prop
  | (now, .arrive n) => ∀ message ∈ s.changes[n]?, ∀ id ∈ message, ∀ i ∈ s.intents,
      settledEcho id now i = true → RereadSince s i.id n
  | (_, .client l) => ∀ i ∈ answering s.client l, i.state = .done →
      ∀ e ∈ s.pending, RereadSince s i.id e.change
  | _ => True

instance (s : EchoTriage.State) (l : Time × EchoTriage.Label) : Decidable (Timely s l) := by
  obtain ⟨now, l⟩ := l
  cases l <;> unfold Timely <;> infer_instance

/-! ## Answered intents -/

section Ledger

variable {L L' L'' : Ledger} {now : Time} {id : IntentId} {patch : MailIntent → MailIntent}

/-- Whatever is done in the new ledger stood so in the old one. -/
def KeepsDone (L L' : Ledger) : Prop :=
  ∀ i ∈ L'.intents.rows, i.state = .done → i ∈ L.intents.rows

theorem KeepsDone.refl (L : Ledger) : KeepsDone L L := fun _ hi _ => hi

theorem KeepsDone.trans (h : KeepsDone L L') (h' : KeepsDone L' L'') : KeepsDone L L'' :=
  fun i hi hdone => h i (h' i hi hdone) hdone

theorem KeepsDone.of_rows (h : ∀ i ∈ L'.intents.rows, i ∈ L.intents.rows) : KeepsDone L L' :=
  fun i hi _ => h i hi

theorem KeepsDone.update (h : ∀ i ∈ L.intents.rows, i.id = id → (patch i).state ≠ .done) :
    KeepsDone L (updateIntent L now id patch) := by
  intro j hj hdone
  obtain hold | ⟨i, hi, hid, rfl⟩ := RefusedIntents.mem_updated hj
  · exact hold
  · exact absurd hdone (h i hi hid)

theorem KeepsDone.each (hpatch : ∀ i, i.state ≠ .done → (patch i).state ≠ .done)
    (ids : List IntentId) (hopen : ∀ i ∈ L.intents.rows, i.id ∈ ids → i.state ≠ .done) :
    KeepsDone L (ids.foldl (fun L id => updateIntent L now id patch) L) := by
  induction ids generalizing L with
  | nil => exact .refl L
  | cons id ids ih =>
    have hopen' : ∀ i ∈ L.intents.rows, i.id = id → i.state ≠ .done :=
      fun i hi hid => hopen i hi (hid ▸ List.mem_cons_self)
    refine KeepsDone.trans (.update fun i hi hid => hpatch i (hopen' i hi hid))
      (ih fun j hj hin => ?_)
    obtain hold | ⟨i, hi, hid, rfl⟩ := RefusedIntents.mem_updated hj
    · exact hopen j hold (List.mem_cons_of_mem _ hin)
    · exact hpatch i (hopen' i hi hid)

theorem keepsDone_patchAll {c : IntentLedger.State} {p : MailIntent → Bool}
    (hp : ∀ i, p i = true → i.state ≠ .done)
    (hpatch : ∀ i, i.state ≠ .done → (patch i).state ≠ .done) :
    KeepsDone c.ledger (c.patchAll now p patch).ledger := by
  refine KeepsDone.each hpatch _ fun i hi hin => ?_
  obtain ⟨j, hj, hid⟩ := List.mem_map.1 hin
  obtain ⟨hj, hmatch⟩ := List.mem_filter.1 hj
  rw [← c.ledger.intents.eq_of_key_eq hj hi hid]
  exact hp j hmatch

theorem KeepsDone.add {intents : List MailIntent} {entry : Option UndoEntry}
    (hnew : ∀ i ∈ intents, i.state = .pending) :
    KeepsDone L (addIntents L now intents entry) := by
  intro i hi hdone
  obtain hold | hadded := KeyedTable.mem_insertAll.2 hi
  · exact hold
  · rw [hnew i hadded] at hdone
    cases hdone

theorem KeepsDone.resend (copies : List MailIntent) :
    KeepsDone L (resendUnanswered now L copies) := by
  induction copies generalizing L with
  | nil => exact .refl L
  | cons c cs ih =>
    refine KeepsDone.trans ?_ ih
    dsimp only
    split
    · exact .refl L
    · split
      · exact .update fun _ _ _ => nofun
      · exact .refl L

theorem keepsDone_carryOut (c : IntentLedger.State) (r : UndoRequest) :
    KeepsDone c.ledger (c.carryOut now r).ledger := by
  have hresent : KeepsDone c.ledger (resendUnanswered now c.ledger r.entry.intents) :=
    .resend r.entry.intents
  unfold State.carryOut
  dsimp only
  split
  · refine hresent.trans (KeepsDone.trans (.add fun i hi => ?_)
      (.of_rows fun i hi => List.mem_of_mem_filter hi))
    exact (RefusedIntents.reversalsOfAll_fresh r.entry.intents hi).2
  · exact hresent

/-- Besides the intent that is settled, whatever is done stood so before. -/
def Settles (L L' : Ledger) (current : MailIntent) : Prop :=
  ∀ i ∈ L'.intents.rows, i.state = .done →
    i ∈ L.intents.rows ∨ i.id = current.id ∧ i.generation = current.generation

theorem settles_update {current : MailIntent} (hcurrent : current ∈ L.intents.rows)
    (hpatch : ∀ i, (patch i).generation = i.generation) :
    Settles L (updateIntent L now current.id patch) current := by
  intro j hj _
  obtain hold | ⟨i, hi, hid, rfl⟩ := RefusedIntents.mem_updated hj
  · exact .inl hold
  · rw [← L.intents.eq_of_key_eq hi hcurrent hid]
    exact .inr ⟨rfl, hpatch i⟩

theorem settles_settleFailed {current : MailIntent} (hcurrent : current ∈ L.intents.rows)
    (refused : Bool) : Settles L (settleFailed L now current.id refused) current := by
  unfold settleFailed
  split
  · exact settles_update (L := dropUndoFor L current.id) hcurrent fun _ => rfl
  · exact settles_update hcurrent fun _ => rfl

theorem settles_settleError {current : MailIntent} (hcurrent : current ∈ L.intents.rows)
    (status : Option HttpError) : Settles L (settleError L now current status) current := by
  unfold settleError
  dsimp only
  split
  · exact settles_update (L := dropUndoFor L current.id) hcurrent fun _ => rfl
  · split
    · exact settles_settleFailed hcurrent _
    · exact settles_update hcurrent fun _ => rfl

theorem settles_settle {current : MailIntent} (hcurrent : current ∈ L.intents.rows)
    (outcome : Outcome) : Settles L (settle L now current outcome) current := by
  cases outcome with
  | answered applied landed skipped sources =>
    cases applied with
    | false => exact settles_update (L := dropUndoFor L current.id) hcurrent fun _ => rfl
    | true => exact settles_update hcurrent fun _ => rfl
  | refused => exact settles_settleFailed hcurrent true
  | error status => exact settles_settleError hcurrent status

theorem done_of_settled {c : IntentLedger.State} {n : ℕ} {call : Call}
    {how : Ledger → Time → MailIntent → Ledger}
    (hhow : ∀ current ∈ c.ledger.intents.rows, Settles c.ledger (how c.ledger now current) current)
    {i : MailIntent} (hi : i ∈ (c.settled now n call how).ledger.intents.rows)
    (hdone : i.state = .done) :
    i ∈ c.ledger.intents.rows ∨ ∃ current, currentIntent c.ledger call.intent = some current ∧
      current ∈ c.ledger.intents.rows ∧ i.id = current.id ∧ i.generation = current.generation := by
  unfold State.settled at hi
  split at hi
  · exact .inl hi
  · rename_i current hcurrent
    obtain ⟨hfind, -⟩ := Option.filter_eq_some_iff.1 hcurrent
    have hmem := (KeyedTable.find?_eq_some_iff.1 hfind).1
    exact (hhow current hmem i hi hdone).imp_right fun h => ⟨current, hcurrent, hmem, h⟩

/-- **What is done after a step**: it was so before, or the step settles it. -/
theorem done_step {c c' : IntentLedger.State} {l : IntentLedger.Label}
    (hst : IntentLedger.step c (now, l) = some c') {i : MailIntent}
    (hi : i ∈ c'.ledger.intents.rows) (hdone : i.state = .done) :
    i ∈ c.ledger.intents.rows ∨ ∃ current ∈ answering c l,
      current ∈ c.ledger.intents.rows ∧ i.id = current.id ∧ i.generation = current.generation := by
  have kept (h : KeepsDone c.ledger c'.ledger) := Or.inl (b := ∃ current ∈ answering c l,
    current ∈ c.ledger.intents.rows ∧ i.id = current.id ∧ i.generation = current.generation)
    (h i hi hdone)
  cases l with
  | act action drafts undoable =>
    cases hst
    refine kept (.add fun j hj => ?_)
    obtain ⟨d, -, rfl⟩ := List.mem_map.1 hj
    rfl
  | hold id =>
    obtain ⟨x, -, rfl⟩ := Option.map_eq_some_iff.1 hst
    exact kept (.update fun _ _ _ => nofun)
  | send id =>
    obtain ⟨x, -, rfl⟩ := Option.map_eq_some_iff.1 hst
    exact kept (.update fun _ _ _ => nofun)
  | serve n response =>
    obtain ⟨call, -, rfl⟩ := Option.map_eq_some_iff.1 hst
    have hledger : (c.serve n call response).ledger = c.ledger := by
      unfold State.serve
      dsimp only
      split <;> rfl
    exact kept (hledger ▸ .refl c.ledger)
  | deliver n =>
    obtain ⟨call, hcall, hanswer⟩ := Option.bind_eq_some_iff.1 hst
    obtain ⟨response, -, rfl⟩ := Option.map_eq_some_iff.1 hanswer
    obtain ⟨hcall, -⟩ := Option.filter_eq_some_iff.1 hcall
    refine (done_of_settled (fun _ h => settles_settle h _) hi hdone).imp_right ?_
    rintro ⟨current, hcurrent, h⟩
    exact ⟨current, by simp [answering, hcall, hcurrent], h⟩
  | lose n status =>
    obtain ⟨call, hcall, rfl⟩ := Option.map_eq_some_iff.1 hst
    obtain ⟨hcall, -⟩ := Option.filter_eq_some_iff.1 hcall
    refine (done_of_settled (fun _ h => settles_settleError h status) hi hdone).imp_right ?_
    rintro ⟨current, hcurrent, h⟩
    exact ⟨current, by simp [answering, hcall, hcurrent], h⟩
  | takeOver =>
    cases hst
    refine kept (keepsDone_patchAll (fun j hj => ?_) fun _ _ => nofun)
    rw [of_decide_eq_true hj]
    exact nofun
  | recover =>
    cases hst
    refine kept (keepsDone_patchAll (fun j hj => ?_) fun _ h => h)
    rw [of_decide_eq_true (Bool.and_eq_true_iff.1 hj).1]
    exact nofun
  | retry id | sendHeld id =>
    obtain ⟨x, -, rfl⟩ := Option.map_eq_some_iff.1 hst
    exact kept (.update fun _ _ _ => nofun)
  | discard id =>
    obtain ⟨x, -, rfl⟩ := Option.map_eq_some_iff.1 hst
    refine kept ?_
    unfold State.discard
    split
    · exact .of_rows fun _ hj => hj
    · exact .of_rows fun _ hj => List.mem_of_mem_filter hj
  | undo entry =>
    cases hst
    refine kept ?_
    unfold requestUndo
    dsimp only
    split
    · exact .of_rows fun _ hj => hj
    · exact .of_rows fun _ hj => hj
  | carryOut request =>
    obtain ⟨r, -, rfl⟩ := Option.map_eq_some_iff.1 hst
    exact kept (keepsDone_carryOut c r)
  | sweep =>
    cases hst
    exact kept (.of_rows fun _ hj => List.mem_of_mem_filter hj)

end Ledger

/-! ## Echoes -/

section Echoes

variable {id : Uuid} {arrivedAt : Time} {intents : List MailIntent}

theorem ownEchoFrom_eq_settled {echo : Echo} (hecho : echo ≠ .settled) :
    ownEchoFrom id arrivedAt echo intents = .settled ↔
      ∃ i ∈ intents, settledEcho id arrivedAt i = true := by
  induction intents generalizing echo with
  | nil => simp [ownEchoFrom, hecho]
  | cons i rest ih =>
    rw [ownEchoFrom, List.exists_mem_cons_iff]
    by_cases hmay : mayEcho id arrivedAt i = true
    · by_cases hsettled : settledEcho id arrivedAt i = true
      · simp [hmay, hsettled]
      · have hnext : (if i.state = .inflight then Echo.inflight else echo) ≠ .settled := by
          split
          · exact nofun
          · exact hecho
        simp [hmay, hsettled, ih hnext]
    · have hsettled : ¬settledEcho id arrivedAt i = true := by
        simp [settledEcho, hmay]
      simp [hmay, hsettled, ih hecho]

theorem ownEcho_eq_settled :
    ownEcho id arrivedAt intents = .settled ↔ ∃ i ∈ intents, settledEcho id arrivedAt i = true :=
  ownEchoFrom_eq_settled nofun

end Echoes

variable {s t : EchoTriage.State} {e : BufferedMailEvent}

variable {s t : EchoTriage.State} {e : BufferedMailEvent}

theorem exists_settledEcho (h : dropped s.intents e = true) :
    ∃ id, e.id = some id ∧ ∃ i ∈ s.intents, settledEcho id e.arrivedAt i = true ∧
      i.id ∈ s.settledBy e := by
  obtain ⟨id, arrivedAt, n⟩ := e
  cases id with
  | none => simp [dropped, echoOf] at h
  | some id =>
    have hecho : ownEcho id arrivedAt s.intents = .settled := of_decide_eq_true h
    obtain ⟨i, hi, hsettled⟩ := ownEcho_eq_settled.1 hecho
    exact ⟨id, rfl, i, hi, hsettled, List.mem_map_of_mem (List.mem_filter.2 ⟨hi, hsettled⟩)⟩

/-! ## The invariant -/

/-- Every answered intent a waiting event seems to echo was re-read after the change it reports. -/
structure Inv (s : EchoTriage.State) : Prop where
  covered : ∀ e ∈ s.pending, ∀ id, e.id = some id → ∀ i ∈ s.intents,
    settledEcho id e.arrivedAt i = true → RereadSince s i.id e.change
  committed : ∀ e ∈ s.pending, e.change < s.changes.length
  flushed : s.flushedAt ≤ s.clock

theorem Inv.start : Inv EchoTriage.start :=
  ⟨fun _ he => absurd he List.not_mem_nil, fun _ he => absurd he List.not_mem_nil, le_rfl⟩

theorem done_of_settledEcho {id : Uuid} {arrivedAt : Time} {i : MailIntent}
    (h : settledEcho id arrivedAt i = true) : i.state = .done := by
  simp only [settledEcho, Bool.and_eq_true, decide_eq_true_eq] at h
  exact h.1.2

/-- An intent a step answers for the first time is re-read at once. -/
theorem Inv.clientStep (h : Inv s) {now : Time} (hnow : s.clock ≤ now) {l : IntentLedger.Label}
    {client : IntentLedger.State} (hst : IntentLedger.step s.client (now, l) = some client)
    (htimely : Timely s (now, .client l)) : Inv (s.clientStep now client) := by
  refine ⟨fun e he id hid i hi hsettled => ?_, h.committed, h.flushed.trans hnow⟩
  have hkept : RereadSince s i.id e.change → RereadSince (s.clientStep now client) i.id e.change :=
    fun ⟨r, hr, hcovers⟩ => ⟨r, List.mem_append_left _ hr, hcovers⟩
  have hdone := done_of_settledEcho hsettled
  obtain hold | ⟨current, hanswered, hmem, hsame, hgeneration⟩ := done_step hst hi hdone
  · exact hkept (h.covered e he id hid i hold hsettled)
  · by_cases hagain : current.state = .done
    · rw [hsame] at hkept ⊢
      exact hkept (htimely current hanswered hagain e he)
    · have hnew : i ∈ answeredNow s.intents client.ledger.intents.rows := by
        refine List.mem_filter.2 ⟨hi, ?_⟩
        simp only [hdone, decide_true, Bool.true_and, Bool.not_eq_true', List.any_eq_false,
          Bool.and_eq_true, decide_eq_true_eq]
        rintro j hj ⟨⟨hid, -⟩, hjdone⟩
        rw [s.client.ledger.intents.eq_of_key_eq hj hmem (hid.trans hsame)] at hjdone
        exact hagain hjdone
      exact ⟨⟨i.id, s.changes.length⟩, List.mem_append_right _ (List.mem_map_of_mem hnew), rfl,
        h.committed e he⟩

theorem Inv.arrive (h : Inv s) {now : Time} (hnow : s.clock ≤ now) {n : ℕ} {id : Option Uuid}
    (hn : s.changes[n]? = some id) (htimely : Timely s (now, .arrive n)) :
    Inv (s.arrive now n id) := by
  refine ⟨fun e he id' hid => ?_, fun e he => ?_, h.flushed.trans hnow⟩
  · obtain he | he := List.mem_append.1 he
    · exact h.covered e he id' hid
    · rw [List.mem_singleton.1 he] at hid ⊢
      exact htimely id hn id' hid
  · obtain he | he := List.mem_append.1 he
    · exact h.committed e he
    · rw [List.mem_singleton.1 he]
      exact (List.getElem?_eq_some_iff.1 hn).1

theorem Inv.flush (h : Inv s) (now : Time) : Inv (s.flush now) :=
  ⟨fun e he => h.covered e (List.mem_filter.1 he).1,
    fun e he => h.committed e (List.mem_filter.1 he).1, le_rfl⟩

theorem step_cases {now : Time} {l : EchoTriage.Label}
    (hst : EchoTriage.step s (now, l) = some t) :
    s.clock ≤ now ∧
      ((∃ l' client, l = .client l' ∧
          IntentLedger.step s.client (now, l') = some client ∧ t = s.clientStep now client) ∨
        (∃ id, l = .change id ∧ t = { s with clock := now, changes := s.changes ++ [id] }) ∨
          (∃ n id, l = .arrive n ∧ s.changes[n]? = some id ∧ t = s.arrive now n id) ∨
            l = .flush ∧ s.flushDue = true ∧ t = s.flush now) := by
  unfold EchoTriage.step at hst
  dsimp only at hst
  split at hst
  · cases hst
  · rename_i hnow
    refine ⟨not_lt.1 hnow, ?_⟩
    cases l with
    | client l' =>
      obtain ⟨client, hclient, rfl⟩ := Option.map_eq_some_iff.1 hst
      exact .inl ⟨l', client, rfl, hclient, rfl⟩
    | change id => exact .inr (.inl ⟨id, rfl, (Option.some.inj hst).symm⟩)
    | arrive n =>
      obtain ⟨id, hn, rfl⟩ := Option.map_eq_some_iff.1 hst
      exact .inr (.inr (.inl ⟨n, id, rfl, hn, rfl⟩))
    | flush =>
      obtain ⟨hdue, ht⟩ := Option.ite_none_right_eq_some.1 hst
      exact .inr (.inr (.inr ⟨rfl, hdue, (Option.some.inj ht).symm⟩))

/-! ## Runs -/

/-- A flush loses no change. -/
theorem flush_loses_none (h : Inv s) (hs : LosesNoChange s) {now : Time} :
    LosesNoChange (s.flush now) := by
  refine ⟨fun d hd => ?_, fun e he => ?_, fun e he => ?_⟩
  · obtain hd | hd := List.mem_append.1 hd
    · exact hs.echoes d hd
    · obtain ⟨e, hmem, rfl⟩ := List.mem_map.1 hd
      obtain ⟨he, hdropped⟩ := List.mem_filter.1 hmem
      obtain ⟨id, hid, i, hi, hsettled, hby⟩ := exists_settledEcho hdropped
      obtain ⟨r, hr, hri, hlt⟩ := h.covered e he id hid i hi hsettled
      exact ⟨r, hr, hri ▸ hby, hlt⟩
  · obtain he | he | ⟨d, hd, rfl⟩ := hs.accounted e he
    · -- the three ways a waiting event can go
      by_cases hdropped : dropped s.intents e = true
      · refine .inr (.inr ⟨⟨e, s.settledBy e⟩, List.mem_append_right _ ?_, rfl⟩)
        exact List.mem_map_of_mem (List.mem_filter.2 ⟨he, hdropped⟩)
      · by_cases hheld : held s.intents now e = true
        · exact .inl (List.mem_filter.2 ⟨he, hheld⟩)
        · refine .inr (.inl (List.mem_append_right _ (List.mem_filter.2 ⟨he, ?_⟩)))
          simp [hdropped, hheld]
    · exact .inr (.inl (List.mem_append_left _ he))
    · exact .inr (.inr ⟨d, List.mem_append_left _ hd, rfl⟩)
  · have hheld := (List.mem_filter.1 he).2
    simp only [held, Bool.and_eq_true, decide_eq_true_eq] at hheld
    refine ⟨?_, hheld.2⟩
    have hne : (triageMailEvents s.intents now s.pending).2 ≠ [] := List.ne_nil_of_mem he
    simpa [State.flush] using hne

/-- **The step lemma**. -/
theorem step_loses_none {l : Time × EchoTriage.Label} (h : Inv s ∧ LosesNoChange s)
    (htimely : Timely s l) (hst : EchoTriage.step s l = some t) : Inv t ∧ LosesNoChange t := by
  obtain ⟨now, l⟩ := l
  obtain ⟨hinv, hs⟩ := h
  obtain ⟨hnow, hcases⟩ := step_cases hst
  obtain ⟨l', client, rfl, hclient, rfl⟩ | ⟨id, rfl, rfl⟩ | ⟨n, id, rfl, hn, rfl⟩ | ⟨rfl, _, rfl⟩ :=
    hcases
  · refine ⟨hinv.clientStep hnow hclient htimely, fun d hd => ?_, hs.accounted, hs.waits⟩
    obtain ⟨r, hr, hd⟩ := hs.echoes d hd
    exact ⟨r, List.mem_append_left _ hr, hd⟩
  · refine ⟨⟨hinv.covered, fun e he => ?_, hinv.flushed.trans hnow⟩, hs.echoes, hs.accounted,
      hs.waits⟩
    have hlt := hinv.committed e he
    simp only [List.length_append, List.length_singleton]
    omega
  · refine ⟨hinv.arrive hnow hn htimely, hs.echoes, fun e he => ?_, fun e he => ?_⟩
    · obtain he | he := List.mem_append.1 he
      · exact (hs.accounted e he).imp_left (List.mem_append_left _)
      · exact .inl (List.mem_append_right _ he)
    · refine ⟨rfl, ?_⟩
      obtain he | he := List.mem_append.1 he
      · exact (hs.waits e he).2
      · rw [List.mem_singleton.1 he]
        have hflushed := hinv.flushed.trans hnow
        have hlt : now < now + echoHoldMaxMs := Nat.lt_add_of_pos_right (by decide)
        exact hflushed.trans_lt hlt
  · exact ⟨hinv.flush now, flush_loses_none hinv hs⟩

/-- **What is dropped as an echo is covered**, in every state of a run in which no event arrives
inside the grace of an answer with a change committed after its re-read began, and no second answer
moves the grace over one. -/
theorem echoes_covered (hs : EchoTriage.system.Reachable Timely s) : LosesNoChange s := by
  refine (hs.invariant (I := fun s => Inv s ∧ LosesNoChange s) ?_ ?_).2
  · rintro s rfl
    exact ⟨.start, fun _ hd => absurd hd List.not_mem_nil, fun _ he => absurd he List.not_mem_nil,
      fun _ he => absurd he List.not_mem_nil⟩
  · exact fun s l t h htimely hst => step_loses_none h htimely hst

instance (s : EchoTriage.State) : Decidable (LosesNoChange s) :=
  decidable_of_iff
    ((∀ d ∈ s.echoes, ∃ r ∈ s.rereads, r.intentId ∈ d.echoOf ∧ d.event.change < r.through) ∧
      (∀ e ∈ s.arrived, e ∈ s.pending ∨ e ∈ s.applied ∨ ∃ d ∈ s.echoes, d.event = e) ∧
        ∀ e ∈ s.pending, s.flushDue = true ∧ s.flushedAt < e.arrivedAt + echoHoldMaxMs)
    ⟨fun h => ⟨h.1, h.2.1, h.2.2⟩, fun h => ⟨h.echoes, h.accounted, h.waits⟩⟩

/-- A message is archived, and someone else changes it before the answer; the event of the one
comes before the answer, that of the other inside the grace. -/
def echoedRun : List (Time × EchoTriage.Label) :=
  [(0, .client (.act .archive
      [⟨1, none, [⟨10, some 5, false, false, none, none⟩], false, false, false⟩] false)),
    (0, .client (.send 0)), (100, .change (some 10)),
    (100, .client (.serve 0 (.single ⟨true, true, some 9⟩))), (150, .arrive 0),
    (180, .change (some 10)), (200, .client (.deliver 0)), (300, .arrive 1), (650, .flush)]

theorem echoes_covered_echoed :
    ∃ s, EchoTriage.system.exec EchoTriage.start echoedRun = some s ∧
      s.echoes.map (fun d => d.event.change) = [0, 1] ∧ LosesNoChange s := by
  have hruns : ((EchoTriage.system.exec EchoTriage.start echoedRun).any fun s =>
      decide (s.echoes.map (fun d => d.event.change) = [0, 1])) = true := by decide +kernel
  obtain ⟨s, hexec, hboth⟩ := (Option.any_eq_true _ _).1 hruns
  exact ⟨s, hexec, of_decide_eq_true hboth, echoes_covered
    (TransitionSystem.reachable_of_exec echoedRun rfl (by decide +kernel) hexec)⟩

/-- After the answer is re-read someone else changes the message again, and the event of that comes
inside the grace. -/
def maskedRun : List (Time × EchoTriage.Label) :=
  echoedRun ++ [(800, .change (some 10)), (900, .arrive 2), (1400, .flush)]

/-- The third change is dropped, and no re-read covers it. -/
theorem foreign_change_dropped :
    ¬∀ s, EchoTriage.system.Reachable TransitionSystem.anyStep s → LosesNoChange s := by
  intro h
  have hruns : ((EchoTriage.system.exec EchoTriage.start maskedRun).any fun s =>
      !decide (LosesNoChange s)) = true := by decide +kernel
  obtain ⟨s, hexec, hs⟩ := (Option.any_eq_true _ _).1 hruns
  have hloses := h s (TransitionSystem.reachable_of_exec_any maskedRun rfl hexec)
  simp [hloses] at hs

end MailVerdict.Analysis.EchoCoverage
