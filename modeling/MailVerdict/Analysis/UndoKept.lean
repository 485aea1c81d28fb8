import MailVerdict.Analysis.IntentCopies

/-!
# What carrying out an undo request reverses

An undo request holds copies of its intents as they were when it was asked for, and the
answers go to the intents in the ledger. So what a request reverses is right while each
intent the server applied is still in the ledger, or its copies were made after the
answer. The run at the end breaks that: a request waits for the second of its two intents
so long that the sweep retires the first.
-/

namespace MailVerdict.Analysis.UndoKept

open MailVerdict.Computation Model.MailActions Model.MailIntents
open Model.IntentLedger Analysis.MailIntents
open Analysis.IntentCopies

/-! ### The property and the condition -/

/-- What is asked of the step that carries out a request: an intent it drops unanswered
was never applied, and one that was applied is reversed. -/
def KeepsApplied (s t : State) (r : UndoRequest) : Prop :=
  ∀ c ∈ r.entry.intents,
    (∀ i, s.ledger.intents.find? c.id = some i → i.state ≠ .done → s.applied c.id = none) ∧
      ∀ x, s.applied c.id = some x → Reversed t.reversals x

/-- Whichever request is carried out next keeps what was applied. -/
def UndoKeepsApplied (s : State) : Prop :=
  ∀ now id t r, (s.ledger.undoRequests.find? fun r => decide (r.id = id)) = some r →
    step s (now, .carryOut id) = some t → r ∉ t.ledger.undoRequests → KeepsApplied s t r

/-- An intent that may leave the ledger: nothing was applied under its key, or whatever
names it was made after it was answered. -/
def Droppable (s : State) (id : IntentId) : Prop :=
  s.applied id = none ∨ ∀ c ∈ copies s.ledger, c.id = id → c.state = .done

/-- The condition on steps. A request is carried out once, with an answer an undo can use, while
its intent, if the ledger has it, names its messages, and waits for an answer if an undo names it.
A refusal arrives only where nothing was applied. Retry is asked of nothing that was applied and
answered, and what leaves the ledger by the sweep or a Discard may. -/
def Undisturbed (s : State) : Time × Label → Prop
  | (_, .serve n response) => ∀ call, s.calls[n]? = some call →
      s.record call.intent.id = none → answers call.intent response = true →
        s.applied call.intent.id = none ∧ Reversible ⟨call.intent, response⟩ ∧
          (∀ i ∈ s.ledger.intents.rows, i.id = call.intent.id →
            i.messages = call.intent.messages) ∧
          (Named s.ledger call.intent.id → ∃ i ∈ s.ledger.intents.rows,
            i.id = call.intent.id ∧ mayHaveLanded i = true)
  | (_, .deliver n) => ∀ call response, s.calls[n]? = some call → call.answer = some response →
      denies (outcomeOf call.intent response) = true → s.applied call.intent.id = none
  | (_, .lose n status) => ∀ call, s.calls[n]? = some call →
      (classifyFailure status = .terminal ∨ classifyFailure status = .gone) →
        s.applied call.intent.id = none
  | (_, .retry id) => Named s.ledger id → ∀ i ∈ s.ledger.intents.rows, i.id = id →
      i.state = .done → s.applied id = none
  | (_, .discard id) => ∀ i ∈ s.ledger.intents.rows, i.id = id → mayHaveLanded i = false →
      Droppable s id
  | (now, .sweep) => ∀ i ∈ s.ledger.intents.rows, expired now i = true → Droppable s i.id
  | _ => True

/-! ### Runs -/

/-- The ledger agrees with what was applied, every answer under way is the one applied,
and so is every answer the server keeps. -/
structure Inv (s : State) : Prop where
  ledger : LedgerOk s.applied s.reversals s.nextId (s.calls.map Call.intent) s.ledger
  calls : ∀ c ∈ s.calls, ∀ r, c.answer = some r → answers c.intent r = true →
    ∃ x, s.applied c.intent.id = some x ∧ x.outcome = outcomeOf c.intent r
  applied : ∀ id x, s.applied id = some x → x.request.id = id ∧ id < s.nextId ∧ Reversible x
  record : ∀ id x, s.record id = some x → s.applied id = some x

section Steps

variable {s t : State} {now : Time} {n : ℕ} {call : Call} {id : IntentId}

theorem Inv.start : Inv start := by
  refine ⟨⟨fun i hi => ?_, fun c hc => ?_, fun y hy => ?_⟩, fun c hc => ?_, fun id x hx => ?_,
    fun id x hx => ?_⟩
  · cases hi
  · cases hc
  · cases hy
  · cases hc
  · cases hx
  · cases hx

theorem Inv.of_ledger (h : Inv s) {L : Ledger} {next : ℕ} (hnext : s.nextId ≤ next)
    (hL : LedgerOk s.applied s.reversals next (s.calls.map Call.intent) L) :
    Inv { s with ledger := L, nextId := next } := by
  refine ⟨hL, h.calls, fun id x hx => ?_, h.record⟩
  obtain ⟨hid, hlt, hreversible⟩ := h.applied id x hx
  exact ⟨hid, lt_of_lt_of_le hlt hnext, hreversible⟩

theorem Inv.fresh (h : Inv s) : ∀ id, s.nextId ≤ id → s.applied id = none := by
  intro id hle
  cases hx : s.applied id with
  | none => rfl
  | some x => exact absurd (h.applied id x hx).2.1 (Nat.not_lt.2 hle)

theorem mem_set_calls {calls : List Call} (c' : Call) {c : Call} (hcall : calls[n]? = some call)
    (hintent : c'.intent = call.intent) (hc : c ∈ calls.set n c') :
    c.intent ∈ calls.map Call.intent ∧ (c ∈ calls ∨ c = c') := by
  obtain hold | rfl := List.mem_or_eq_of_mem_set hc
  · exact ⟨List.mem_map_of_mem hold, Or.inl hold⟩
  · rw [hintent]
    exact ⟨List.mem_map_of_mem (List.mem_of_getElem? hcall), Or.inr rfl⟩

theorem Inv.setCall (h : Inv s) (hcall : s.calls[n]? = some call) {L : Ledger} (c' : Call)
    (hintent : c'.intent = call.intent)
    (hL : LedgerOk s.applied s.reversals s.nextId (s.calls.map Call.intent) L)
    (hanswer : ∀ r, c'.answer = some r → answers c'.intent r = true →
      ∃ x, s.applied c'.intent.id = some x ∧ x.outcome = outcomeOf c'.intent r) :
    Inv { s with ledger := L, calls := s.calls.set n c' } := by
  refine ⟨hL.of_sent fun y hy => ?_, fun c hc => ?_, h.applied, h.record⟩
  · obtain ⟨c, hc, rfl⟩ := List.mem_map.1 hy
    exact (mem_set_calls c' hcall hintent hc).1
  · obtain hold | rfl := (mem_set_calls c' hcall hintent hc).2
    · exact h.calls c hold
    · exact hanswer

theorem Inv.act (h : Inv s) (action : Action) (drafts : List Draft) (undoable : Bool) :
    Inv (s.act now action drafts undoable) := by
  have hnew : ∀ i ∈ drafts.zipIdx.map fun d => newIntent now (s.nextId + d.2) action d.1,
      (s.nextId ≤ i.id ∧ i.id < s.nextId + drafts.length + 1) ∧ i.state ≠ .done := by
    intro i hi
    obtain ⟨d, hd, rfl⟩ := List.mem_map.1 hi
    have hlt := List.snd_lt_of_mem_zipIdx hd
    refine ⟨⟨Nat.le_add_right _ _, ?_⟩, fun hdone => by cases hdone⟩
    exact (Nat.add_lt_add_left hlt s.nextId).trans_le (Nat.le_succ _)
  refine h.of_ledger (Nat.le_add_right _ (drafts.length + 1)) ?_
  refine h.ledger.add (Nat.le_add_right _ (drafts.length + 1)) h.fresh (fun i hi => (hnew i hi).1)
    fun e he c hc => ?_
  -- the step's copies are the new intents, each under a key of its own
  have hentry : e.intents = drafts.zipIdx.map fun d => newIntent now (s.nextId + d.2) action d.1 := by
    split at he
    · cases he
      rfl
    · cases he
  rw [hentry] at hc
  refine ⟨hc, (hnew c hc).2, fun i hi hid => ?_⟩
  obtain ⟨d, hd, rfl⟩ := List.mem_map.1 hc
  obtain ⟨d', hd', rfl⟩ := List.mem_map.1 hi
  have hsame : d'.2 = d.2 := Nat.add_left_cancel hid
  have hget := List.mem_zipIdx_iff_getElem?.1 hd
  have hget' := List.mem_zipIdx_iff_getElem?.1 hd'
  rw [hsame, hget] at hget'
  rw [Prod.ext (Option.some.inj hget').symm hsame]

theorem mem_scanSendable {all is : List MailIntent} {busy claimed : List Uuid} {i : MailIntent}
    (h : i ∈ scanSendable all now busy claimed is) : i ∈ is := by
  induction is generalizing busy claimed with
  | nil => cases h
  | cons j is ih =>
    unfold scanSendable at h
    split at h
    · split at h
      · exact List.mem_cons_of_mem j (ih h)
      · obtain rfl | hrest := List.mem_cons.1 h
        · exact List.mem_cons_self
        · exact List.mem_cons_of_mem j (ih hrest)
    · exact List.mem_cons_of_mem j (ih h)

theorem mem_sendableIntents {all : List MailIntent} {i : MailIntent}
    (h : i ∈ sendableIntents all now) : i ∈ all :=
  (List.mem_insertionSort byCreation).1 (mem_scanSendable h)

theorem Inv.send (h : Inv s) {i : MailIntent} (hi : i ∈ s.ledger.intents.rows) :
    Inv (s.send now i) := by
  refine ⟨?_, fun c hc => ?_, h.applied, h.record⟩
  · show LedgerOk _ _ _ ((s.calls ++ [(⟨i, true, none⟩ : Call)]).map Call.intent) _
    rw [List.map_append]
    refine (h.ledger.sending hi).reopen (fun j => ⟨⟨rfl, rfl, rfl⟩, rfl⟩) (fun j _ _ hdone => ?_)
      fun j hj hid hnamed x hx => ?_
    · cases hdone
    · rw [← hid] at hnamed hx
      exact ⟨Nat.succ_pos _, ((h.ledger.live j hj).2.told hnamed x hx).2⟩
  · obtain hold | hnew := List.mem_append.1 hc
    · exact h.calls c hold
    · obtain rfl := List.mem_singleton.1 hnew
      intro r hr
      cases hr

theorem outcomeOf_same {i j : MailIntent} (hsame : sameRequest i j = true) (r : Response) :
    outcomeOf i r = outcomeOf j r := by
  simp only [sameRequest, Bool.and_eq_true, decide_eq_true_eq] at hsame
  have hids : i.messages.map IntentMessage.id = j.messages.map IntentMessage.id :=
    congrArg BulkActionRequest.ids hsame.2
  have hlength : i.messages.length = j.messages.length := by
    rw [← List.length_map IntentMessage.id, hids, List.length_map]
  cases r with
  | single r => simp only [outcomeOf, hids]
  | bulk r => simp only [outcomeOf, hlength]
  | error status => rfl

theorem answers_of_succeeded {i : MailIntent} {r : Response} (h : r.succeeded = true) :
    answers i r = true := by
  cases r with
  | single r | bulk r =>
    have hsuccess : r.success = true := h
    simp [answers, outcomeOf, hsuccess]
  | error status => cases h

/-- A reversible request applied for the first time keeps it. -/
theorem Inv.apply (h : Inv s) (x : Submission) {record : IntentId → Option Submission}
    (hrecord : record = s.record ∨ record = Function.update s.record x.request.id (some x))
    (hnone : s.applied x.request.id = none) (hsent : x.request ∈ s.calls.map Call.intent)
    (hreversible : Reversible x)
    (hmessages : ∀ i ∈ s.ledger.intents.rows, i.id = x.request.id →
      i.messages = x.request.messages)
    (hwaiting : Named s.ledger x.request.id → ∃ i ∈ s.ledger.intents.rows,
      i.id = x.request.id ∧ mayHaveLanded i = true) :
    Inv { s with
      record := record
      applied := Function.update s.applied x.request.id (some x) } := by
  have hkept : ∀ id y, s.applied id = some y →
      Function.update s.applied x.request.id (some x) id = some y := by
    intro id y hy
    rw [Function.update_of_ne, hy]
    rintro rfl
    rw [hnone] at hy
    cases hy
  refine ⟨h.ledger.apply hnone hsent hmessages hwaiting, fun c hc r hr hr' => ?_, fun id y hy => ?_,
    fun id y hy => ?_⟩
  · obtain ⟨y, hy, hout⟩ := h.calls c hc r hr hr'
    exact ⟨y, hkept _ y hy, hout⟩
  · replace hy : Function.update s.applied x.request.id (some x) id = some y := hy
    by_cases hid : id = x.request.id
    · subst hid
      rw [Function.update_self] at hy
      obtain rfl := Option.some.inj hy
      exact ⟨rfl, (h.ledger.sent _ hsent).1, hreversible⟩
    · rw [Function.update_of_ne hid] at hy
      exact h.applied id y hy
  · show Function.update s.applied x.request.id (some x) id = some y
    obtain rfl | rfl := hrecord
    · exact hkept id y (h.record id y hy)
    · replace hy : Function.update s.record x.request.id (some x) id = some y := hy
      by_cases hid : id = x.request.id
      · subst hid
        rw [Function.update_self] at hy ⊢
        exact hy
      · rw [Function.update_of_ne hid] at hy
        exact hkept id y (h.record id y hy)

/-- An answer keeps it where what is applied for the first time is reversible. -/
theorem Inv.serve (h : Inv s) (hcall : s.calls[n]? = some call) {response : Response}
    (hp : s.record call.intent.id = none → answers call.intent response = true →
      s.applied call.intent.id = none ∧ Reversible ⟨call.intent, response⟩ ∧
        (∀ i ∈ s.ledger.intents.rows, i.id = call.intent.id →
          i.messages = call.intent.messages) ∧
        (Named s.ledger call.intent.id → ∃ i ∈ s.ledger.intents.rows,
          i.id = call.intent.id ∧ mayHaveLanded i = true)) :
    Inv (s.serve n call response) := by
  have hin := List.mem_of_getElem? hcall
  unfold State.serve
  dsimp only
  cases hrecord : s.record call.intent.id with
  | some x =>
    have hanswer : s.answerFor call.intent response =
        if sameRequest x.request call.intent then x.response else .error 409 := by
      unfold State.answerFor
      rw [hrecord]
    refine h.setCall hcall _ rfl h.ledger fun r hr hanswers => ?_
    obtain rfl := Option.some.inj hr
    refine ⟨x, h.record _ x hrecord, ?_⟩
    rw [hanswer] at hanswers ⊢
    split at hanswers
    · rename_i hsame
      rw [if_pos hsame]
      exact outcomeOf_same hsame x.response
    · cases hanswers
  | none =>
    have hanswer : s.answerFor call.intent response = response := by
      unfold State.answerFor
      rw [hrecord]
    cases hanswers : answers call.intent response with
    | false =>
      have hfailed : response.succeeded = false := by
        rw [Bool.eq_false_iff]
        intro hsucceeded
        rw [answers_of_succeeded hsucceeded] at hanswers
        cases hanswers
      simp only [hfailed, Bool.and_false, Bool.false_eq_true, if_false]
      refine h.setCall hcall { call with answer := some (s.answerFor call.intent response) } rfl
        h.ledger fun r hr hr' => ?_
      obtain rfl := Option.some.inj hr
      rw [hanswer, hanswers] at hr'
      cases hr'
    | true =>
      obtain ⟨happlied, hreversible, hmessages, hwaiting⟩ := hp hrecord hanswers
      have happly := h.apply ⟨call.intent, response⟩
        (ite_eq_or_eq (response.succeeded = true) _ s.record).symm happlied
        (List.mem_map_of_mem hin) hreversible hmessages hwaiting
      simp only [happlied, Option.isNone_none, Bool.and_true, if_true]
      refine happly.setCall hcall
        { call with answer := some (s.answerFor call.intent response) } rfl happly.ledger
        fun r hr _ => ?_
      obtain rfl := Option.some.inj hr
      rw [hanswer]
      exact ⟨_, Function.update_self _ _ _, rfl⟩

theorem Inv.settled (h : Inv s) (hcall : s.calls[n]? = some call)
    {how : Ledger → Time → MailIntent → Ledger}
    (hhow : ∀ i ∈ s.ledger.intents.rows, i.id = call.intent.id →
      LedgerOk s.applied s.reversals s.nextId (s.calls.map Call.intent) (how s.ledger now i)) :
    Inv (s.settled now n call how) := by
  refine h.setCall hcall { call with waiting := false } rfl ?_
    (h.calls call (List.mem_of_getElem? hcall))
  split
  · exact h.ledger
  · rename_i current hcurrent
    obtain ⟨hfind, -⟩ := Option.filter_eq_some_iff.1 hcurrent
    obtain ⟨hin, hid⟩ := KeyedTable.find?_eq_some_iff.1 hfind
    exact hhow current hin hid

theorem Inv.patchAll (h : Inv s) {p : MailIntent → Bool} {patch : MailIntent → MailIntent}
    (hpatch : ∀ i, SameKind (patch i) i ∧ (patch i).messages = i.messages ∧
      (patch i).attempts = i.attempts ∧ (patch i).refused = i.refused ∧
      (i.state ≠ .done → (patch i).state ≠ .done))
    (hp : ∀ i, p i = true → i.state ≠ .done) : Inv (s.patchAll now p patch) := by
  refine h.of_ledger (Nat.le_refl s.nextId) (h.ledger.patchEach hpatch _ fun i hi hmem => ?_)
  obtain ⟨j, hj, hid⟩ := List.mem_map.1 hmem
  obtain ⟨hin, hpj⟩ := List.mem_filter.1 hj
  rw [s.ledger.intents.eq_of_key_eq hi hin hid.symm]
  exact hp j hpj

theorem Inv.dropping (h : Inv s) {p : MailIntent → Bool}
    (hp : ∀ i ∈ s.ledger.intents.rows, p i = false → Droppable s i.id) :
    LedgerOk s.applied s.reversals s.nextId (s.calls.map Call.intent)
      (commit { s.ledger with intents := s.ledger.intents.filter p } now) := by
  refine h.ledger.shrink (fun j hj => List.mem_of_mem_filter hj) (fun c hc => ?_)
    fun i hi hgone c hc hid x hx => ?_
  · exact copies_commit hc
  · have hpi : p i = false := by
      rw [Bool.eq_false_iff]
      exact fun htrue => hgone (List.mem_filter.2 ⟨hi, htrue⟩)
    obtain hnone | hdone := hp i hi hpi
    · rw [hid, hnone] at hx
      cases hx
    · exact Or.inl (hdone c (copies_commit hc) hid)

theorem Inv.discard (h : Inv s) {i : MailIntent} (hi : i ∈ s.ledger.intents.rows)
    (hp : mayHaveLanded i = false → Droppable s i.id) : Inv (s.discard now i) := by
  unfold State.discard
  split
  · rename_i hlanded
    generalize hcopy : ((s.ledger.undo.flatMap UndoEntry.intents).find? fun c =>
      decide (c.id = i.id)).getD i = copy
    -- the copy asked to be undone names what the intent does
    have hkeeps : ∀ m ∈ i.messages, m ∈ copy.messages := by
      cases hfind : (s.ledger.undo.flatMap UndoEntry.intents).find? fun c => decide (c.id = i.id) with
      | none =>
        rw [hfind, Option.getD_none] at hcopy
        rw [← hcopy]
        exact fun m hm => hm
      | some c =>
        rw [hfind, Option.getD_some] at hcopy
        rw [← hcopy]
        have hin : c ∈ copies s.ledger := mem_copies.2 (Or.inl (List.mem_of_find?_eq_some hfind))
        have hid : c.id = i.id := by simpa using List.find?_some hfind
        exact ((h.ledger.copy c hin).2.keeps i hi hid.symm).2
    refine h.of_ledger (Nat.le_add_right _ 2) (h.ledger.request
      (c := { i with messages := copy.messages }) (Nat.le_add_right _ 2) rfl (fun c hc => ?_)
      hi hlanded rfl ⟨rfl, rfl, rfl⟩ rfl hkeeps)
    obtain hundo | hrequest := mem_copies.1 (copies_commit hc)
    · exact Or.inl (copies_dropUndoFor (mem_copies.2 (Or.inl hundo)))
    · obtain ⟨r, hr, hmem⟩ := mem_requestCopies.1 hrequest
      obtain hold | hnew := List.mem_append.1 hr
      · exact Or.inl (mem_copies.2 (Or.inr (mem_requestCopies.2 ⟨r, hold, hmem⟩)))
      · obtain rfl := List.mem_singleton.1 hnew
        exact Or.inr (List.mem_singleton.1 hmem)
  · rename_i hlanded
    refine h.of_ledger (Nat.le_refl _) (h.dropping fun j hj hdropped => ?_)
    have hid : j.id = i.id := by simpa using hdropped
    rw [hid]
    exact hp (by simpa using hlanded)

theorem Inv.undoRequested (h : Inv s) (entryId requestId : ℕ) :
    LedgerOk s.applied s.reversals s.nextId (s.calls.map Call.intent)
      (requestUndo s.ledger now entryId requestId) := by
  refine h.ledger.fewer ?_ fun c hc => ?_
  · unfold requestUndo
    dsimp only
    split
    · rfl
    · rfl
  · unfold requestUndo at hc
    dsimp only at hc
    have hundo : ∀ e ∈ pruneUndo s.ledger.undo now, c ∈ e.intents → c ∈ copies s.ledger :=
      fun e he hmem => mem_copies.2 (Or.inl (mem_undoCopies.2 ⟨e, mem_pruneUndo he, hmem⟩))
    split at hc
    · obtain hin | hrequest := mem_copies.1 hc
      · obtain ⟨e, he, hmem⟩ := mem_undoCopies.1 hin
        exact hundo e he hmem
      · exact mem_copies.2 (Or.inr hrequest)
    · rename_i entry hfind
      obtain hin | hrequest := mem_copies.1 hc
      · obtain ⟨e, he, hmem⟩ := mem_undoCopies.1 hin
        exact hundo e (List.mem_of_mem_filter he) hmem
      · obtain ⟨r, hr, hmem⟩ := mem_requestCopies.1 hrequest
        obtain hold | hnew := List.mem_append.1 hr
        · exact mem_copies.2 (Or.inr (mem_requestCopies.2 ⟨r, hold, hmem⟩))
        · obtain rfl := List.mem_singleton.1 hnew
          exact hundo entry (List.mem_of_find?_eq_some hfind) hmem

theorem Inv.server (h : Inv s) :
    ∀ id x, s.applied id = some x → x.request.id = id ∧ Reversible x := by
  intro id x hx
  obtain ⟨hid, -, hreversible⟩ := h.applied id x hx
  exact ⟨hid, hreversible⟩

theorem Inv.carryOut (h : Inv s) {r : UndoRequest} (hr : r ∈ s.ledger.undoRequests) :
    Inv (s.carryOut now r) := by
  have hresent : LedgerOk s.applied s.reversals s.nextId (s.calls.map Call.intent)
      (resendUnanswered now s.ledger r.entry.intents) := h.ledger.resend r.entry.intents
  unfold State.carryOut
  dsimp only
  split
  · rename_i hready
    have hin : r ∈ (resendUnanswered now s.ledger r.entry.intents).undoRequests := by
      rw [resend_undoRequests]
      exact hr
    refine ⟨hresent.consumed h.fresh h.server hin hready, h.calls, fun id x hx => ?_, h.record⟩
    obtain ⟨hid, hlt, hreversible⟩ := h.applied id x hx
    exact ⟨hid, lt_of_lt_of_le hlt (Nat.le_add_right _ _), hreversible⟩
  · exact h.of_ledger (Nat.le_refl _) hresent

/-- **The step lemma.** -/
theorem Inv.preserved {l : Time × Label} (h : Inv s) (hp : Undisturbed s l) (hst : step s l = some t) :
    Inv t := by
  obtain ⟨now, l⟩ := l
  cases l with
  | act action drafts undoable =>
    cases hst
    exact h.act action drafts undoable
  | hold id =>
    obtain ⟨i, -, rfl⟩ := Option.map_eq_some_iff.1 hst
    refine h.of_ledger (Nat.le_refl _) (h.ledger.reopen (fun i => ⟨⟨rfl, rfl, rfl⟩, rfl⟩)
      (fun i _ _ hdone => by cases hdone) fun i hi hid hnamed x hx => ?_)
    rw [← hid] at hnamed hx
    exact (h.ledger.live i hi).2.told hnamed x hx
  | send id =>
    obtain ⟨i, hfind, rfl⟩ := Option.map_eq_some_iff.1 hst
    exact h.send (mem_sendableIntents (List.mem_of_find?_eq_some hfind))
  | serve n response =>
    obtain ⟨call, hcall, rfl⟩ := Option.map_eq_some_iff.1 hst
    obtain ⟨hget, -⟩ := Option.filter_eq_some_iff.1 hcall
    exact h.serve hget (hp call hget)
  | deliver n =>
    obtain ⟨call, hcall, hanswer⟩ := Option.bind_eq_some_iff.1 hst
    obtain ⟨response, hresponse, rfl⟩ := Option.map_eq_some_iff.1 hanswer
    obtain ⟨hget, -⟩ := Option.filter_eq_some_iff.1 hcall
    refine h.settled hget fun i hi hid => LedgerOk.settled h.ledger (fun a l sk so hout => ?_)
      fun hdenies => ?_
    · rw [hid]
      exact h.calls call (List.mem_of_getElem? hget) response hresponse
        (by unfold answers; rw [hout])
    · rw [hid]
      exact hp call response hget hresponse hdenies
  | lose n status =>
    obtain ⟨call, hcall, rfl⟩ := Option.map_eq_some_iff.1 hst
    obtain ⟨hget, -⟩ := Option.filter_eq_some_iff.1 hcall
    refine h.settled hget fun i _ hid => h.ledger.errored fun hkind => ?_
    rw [hid]
    exact hp call hget hkind
  | takeOver =>
    cases hst
    refine h.patchAll (fun i => ⟨⟨rfl, rfl, rfl⟩, rfl, rfl, rfl, fun _ hdone => by cases hdone⟩)
      fun i hi hdone => ?_
    rw [hdone] at hi
    cases hi
  | recover =>
    cases hst
    refine h.patchAll (fun i => ⟨⟨rfl, rfl, rfl⟩, rfl, rfl, rfl, fun hopen => hopen⟩)
      fun i hi hdone => ?_
    rw [hdone] at hi
    cases hi
  | retry id =>
    obtain ⟨i, hfind, rfl⟩ := Option.map_eq_some_iff.1 hst
    obtain ⟨hi, rfl⟩ := KeyedTable.find?_eq_some_iff.1 hfind
    refine h.of_ledger (Nat.le_refl _) (h.ledger.restarted fun j hj hid hnamed x hx => ?_)
    obtain ⟨hattempts, hrefused⟩ := (h.ledger.live i hi).2.told hnamed x hx
    -- of an answered one nothing may have been applied
    have hopen : i.state ≠ .done := by
      intro hdone
      rw [hp hnamed i hi rfl hdone] at hx
      cases hx
    simp [mayHaveLanded, hopen, hattempts, hrefused]
  | sendHeld id =>
    obtain ⟨i, -, rfl⟩ := Option.map_eq_some_iff.1 hst
    exact h.of_ledger (Nat.le_refl _) (h.ledger.restarted fun _ _ _ _ _ _ => rfl)
  | discard id =>
    obtain ⟨i, hfind, rfl⟩ := Option.map_eq_some_iff.1 hst
    obtain ⟨hi, rfl⟩ := KeyedTable.find?_eq_some_iff.1 hfind
    exact h.discard hi (hp i hi rfl)
  | undo entry =>
    cases hst
    exact h.of_ledger (Nat.le_succ _) ((h.undoRequested entry s.nextId).mono (fun _ hr => hr)
      (Nat.le_succ _))
  | carryOut id =>
    obtain ⟨r, hfind, rfl⟩ := Option.map_eq_some_iff.1 hst
    exact h.carryOut (List.mem_of_find?_eq_some hfind)
  | sweep =>
    cases hst
    refine h.of_ledger (Nat.le_refl _) (h.dropping fun i hi hexpired => ?_)
    exact hp i hi (by simpa using hexpired)

theorem Inv.keepsApplied (h : Inv s) : UndoKeepsApplied s := by
  intro now id t r hfind hst hcarried
  obtain ⟨r', hfind', rfl⟩ := Option.map_eq_some_iff.1 hst
  rw [hfind] at hfind'
  obtain rfl := Option.some.inj hfind'
  have hr := List.mem_of_find?_eq_some hfind
  have hresent : LedgerOk s.applied s.reversals s.nextId (s.calls.map Call.intent)
      (resendUnanswered now s.ledger r.entry.intents) := h.ledger.resend r.entry.intents
  have hin : r ∈ (resendUnanswered now s.ledger r.entry.intents).undoRequests := by
    rw [resend_undoRequests]
    exact hr
  unfold State.carryOut at hcarried ⊢
  dsimp only at hcarried ⊢
  split at hcarried
  · rename_i hready
    rw [if_pos hready]
    intro c hc
    refine ⟨fun i hfound hopen => ?_, fun x hx => ?_⟩
    · obtain ⟨hi, hid⟩ := KeyedTable.find?_eq_some_iff.1 hfound
      cases hx : s.applied c.id with
      | none => rfl
      | some x =>
        -- an applied intent that is not answered keeps the request waiting
        have hnamed : Named s.ledger i.id :=
          ⟨c, mem_copies.2 (Or.inr (mem_requestCopies.2 ⟨r, hr, hc⟩)), hid.symm⟩
        obtain ⟨hattempts, hrefused⟩ := (h.ledger.live i hi).2.told hnamed x (hid ▸ hx)
        obtain ⟨j, hj, hjid, hlanded⟩ : ∃ j ∈ (resendUnanswered now s.ledger
            r.entry.intents).intents.rows, j.id = i.id ∧ mayHaveLanded j = true :=
          resend_mayHaveLanded r.entry.intents hi
            (by simp [mayHaveLanded, hopen, hattempts, hrefused])
        have hjfind := KeyedTable.find?_eq_some_iff.2 ⟨hj, hjid.trans hid⟩
        have hwaits := List.all_eq_true.1 hready c hc
        rw [hjfind] at hwaits
        simp [hlanded] at hwaits
    · obtain ⟨hid, hreversible⟩ := h.server c.id x hx
      exact hresent.reversed hin hready hc hx hid hreversible
  · exact absurd hin hcarried

end Steps

/-- **An undo keeps what was applied**: a request that is carried out reverses all it names that
the server applied, and drops unanswered only what the server never applied. -/
theorem undo_keeps_applied_while_undisturbed {s : State}
    (h : system.Reachable Undisturbed s) : UndoKeepsApplied s := by
  refine Inv.keepsApplied (TransitionSystem.Reachable.invariant (fun s hs => ?_)
    (fun s l t hI hp hst => hI.preserved hp hst) h)
  rw [show s = start from hs]
  exact Inv.start

/-! ### An undo that waits past the sweep -/

def archiveOne (accountId messageId : Uuid) : Draft :=
  ⟨accountId, none, [⟨messageId, some 5, false, false, none, none⟩], false, false, false⟩

def archivedTo9 : Response := .single ⟨true, true, some 9⟩

def archivedAndUndone : List (Time × Label) :=
  [(0, .act .archive [archiveOne 1 11] true), (0, .send 0), (500, .serve 0 archivedTo9),
    (500, .deliver 0), (900, .undo 1)]

theorem archived_once_taken_back :
    ∃ s t, system.exec start archivedAndUndone = some s ∧ UndoKeepsApplied s ∧
      step s (900, .carryOut 2) = some t ∧
        t.reversals.map (fun r => (r.action, r.messages.map IntentMessage.id)) =
          [(.move, [11]), (.markUnread, [11])] := by
  have h0 : system.Reachable Undisturbed start := .init rfl
  have h1 := h0.step (l := ((0, .act .archive [archiveOne 1 11] true) : Time × Label)) trivial rfl
  have h2 := h1.step (l := ((0, .send 0) : Time × Label)) trivial rfl
  have h3 := h2.step (l := ((500, .serve 0 archivedTo9) : Time × Label)) (fun call hcall _ _ => by
    cases hcall
    refine ⟨rfl, fun applied landed skipped sources hout k hacted => ?_, fun i hi _ => ?_, fun _ => ?_⟩
    · cases hout
      obtain ⟨-, f, -, ⟨hnamed, -⟩, -⟩ := hacted
      obtain ⟨m, hm, rfl⟩ := List.mem_map.1 hnamed
      refine ⟨rfl, fun _ => ⟨5, m, hm, rfl, ?_⟩⟩
      rw [List.mem_singleton.1 hm]
    · rw [List.mem_singleton.1 hi]
      rfl
    · exact ⟨_, List.mem_singleton.2 rfl, rfl, rfl⟩) rfl
  have h4 := h3.step (l := ((500, .deliver 0) : Time × Label)) (fun call response hcall hanswer hdenies => by
    cases hcall
    cases hanswer
    cases hdenies) rfl
  have h5 := h4.step (l := ((900, .undo 1) : Time × Label)) trivial rfl
  exact ⟨_, _, rfl, undo_keeps_applied_while_undisturbed h5, rfl, rfl⟩

/-- Two messages of two accounts are archived and the archiving is taken back at once. The
answer for the second is lost, and it is sent again only after the sweep has retired the
first. -/
def undoneLate : List (Time × Label) :=
  [(0, .act .archive [archiveOne 1 11, archiveOne 2 12] true), (0, .send 0), (0, .send 1),
    (1000, .undo 2), (1500, .serve 0 archivedTo9), (1500, .deliver 0), (16000, .lose 1 none),
    (700000, .sweep), (700000, .send 1), (700500, .serve 2 archivedTo9), (700500, .deliver 2)]

/-- The undo leaves the first message where it was archived. -/
theorem swept_before_undone :
    ∃ s t, system.exec start undoneLate = some s ∧ system.Reachable TransitionSystem.anyStep s ∧
      step s (700500, .carryOut 3) = some t ∧
        s.applied 0 = some ⟨newIntent 0 0 .archive (archiveOne 1 11), archivedTo9⟩ ∧
          (t.reversals.all fun r => decide (r.reverses ≠ some 0)) = true ∧ ¬ UndoKeepsApplied s := by
  obtain ⟨s, t, r, hexec, hst, hfind, hids, hcarried, happlied, hnone⟩ :
      ∃ s t r, system.exec start undoneLate = some s ∧ step s (700500, .carryOut 3) = some t ∧
        (s.ledger.undoRequests.find? fun r => decide (r.id = 3)) = some r ∧
          r.entry.intents.map MailIntent.id = [0, 1] ∧ t.ledger.undoRequests = [] ∧
            s.applied 0 = some ⟨newIntent 0 0 .archive (archiveOne 1 11), archivedTo9⟩ ∧
              (t.reversals.all fun r => decide (r.reverses ≠ some 0)) = true :=
    ⟨_, _, _, rfl, rfl, rfl, rfl, rfl, rfl, rfl⟩
  refine ⟨s, t, hexec, TransitionSystem.reachable_of_exec_any undoneLate rfl hexec, hst, happlied,
    hnone, fun h => ?_⟩
  obtain ⟨c, hc, hid⟩ : ∃ c ∈ r.entry.intents, c.id = 0 :=
    List.mem_map.1 (hids ▸ List.mem_cons_self)
  have hacted : ActedOn (newIntent 0 0 .archive (archiveOne 1 11)) (some 9) [] [] 11 := by
    refine ⟨rfl, 9, rfl, ⟨List.mem_singleton.2 rfl, List.not_mem_nil⟩, ?_⟩
    rintro ⟨m, hm, -, hfolder⟩
    rw [List.mem_singleton.1 hm] at hfolder
    cases hfolder
  have hkept := (h 700500 3 t r hfind hst (by rw [hcarried]; exact List.not_mem_nil) c hc).2
    ⟨newIntent 0 0 .archive (archiveOne 1 11), archivedTo9⟩ (by rw [hid]; exact happlied)
  obtain ⟨r', hr', hreverses, -⟩ := hkept true (some 9) [] [] rfl 11 hacted
  have hother := List.all_eq_true.1 hnone r' hr'
  exact of_decide_eq_true hother hreverses

end MailVerdict.Analysis.UndoKept
