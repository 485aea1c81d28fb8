import MailVerdict.Analysis.UndoKept

/-!
# Refused intents and what the server did

An intent is marked refused by the last answer that reached the drainer, whoever gave it. The
server may have carried out an earlier request of the same key whose answer was lost, may still
carry out one that is on its way, and may write before it answers with an error. `Turned` says
when a request can have written nothing. `Inv` carries this over runs: every request of a refused
intent's key came back so, and every key the server wrote under has a request that did not.
-/

namespace MailVerdict.Analysis.RefusedIntents

open MailVerdict.Computation Model.MailActions Model.MailIntents
open Model.IntentLedger Analysis.IntentCopies

/-- The intents the ledger holds as refused were never applied. -/
def NeverApplied (s : Served) : Prop :=
  ∀ i ∈ s.state.ledger.intents.rows, i.refused = true → s.written i.id = false

/-- The server refused the request, or something in between did and the server never had it. -/
def cameToNothing (s : Served) (n : ℕ) (c : Call) : Bool :=
  match c.answer with
  | some r => refuses (outcomeOf c.intent r)
  | none => s.turnedAway n

/-- Every other request of the same key has come back, and came to nothing. -/
def OthersRefused (s : Served) (n : ℕ) (c : Call) : Prop :=
  ∀ m < s.state.calls.length, ∀ d ∈ s.state.calls[m]?, m ≠ n → d.intent.id = c.intent.id →
    d.waiting = false ∧ cameToNothing s m d = true

/-- A refusal reaches an intent the drainer still waits for only where no other attempt of the key
went unanswered, and from in between only where the server has not carried the request out; a
request refused in between is not passed on, and the server writes nothing that it then refuses. -/
def Plain (s : Served) : (Time × Label) × Bool → Prop
  | ((_, .deliver n), _) => ∀ c ∈ s.state.calls[n]?, ∀ r ∈ c.answer,
      (currentIntent s.state.ledger c.intent).isSome = true →
        refuses (outcomeOf c.intent r) = true → OthersRefused s n c
  | ((_, .lose n status), _) => ∀ c ∈ s.state.calls[n]?,
      (currentIntent s.state.ledger c.intent).isSome = true → classifyFailure status = .terminal →
        OthersRefused s n c ∧ ∀ r ∈ c.answer, refuses (outcomeOf c.intent r) = true
  | ((_, .serve n response), wrote) => ∀ c ∈ s.state.calls[n]?, s.turnedAway n = false ∧
      (refuses (outcomeOf c.intent response) = true → wrote = false)
  | _ => True

instance (s : Served) (n : ℕ) (c : Call) : Decidable (OthersRefused s n c) := by
  unfold OthersRefused; infer_instance

instance (s : Served) (l : (Time × Label) × Bool) : Decidable (Plain s l) := by
  obtain ⟨⟨now, l⟩, wrote⟩ := l
  cases l <;> unfold Plain <;> infer_instance

/-! ## The refused intents of a ledger -/

def Refused (L : Ledger) (id : IntentId) : Prop :=
  ∃ i ∈ L.intents.rows, i.id = id ∧ i.refused = true

/-- A refused intent is not to be sent again. -/
def AtRest (L : Ledger) : Prop := ∀ i ∈ L.intents.rows, i.refused = true → unsettled i = false

/-- No intent more is refused, and the refused ones stay at rest. -/
def Fewer (L L' : Ledger) : Prop :=
  AtRest L → AtRest L' ∧ ∀ id, Refused L' id → Refused L id

theorem Fewer.refl (L : Ledger) : Fewer L L := fun h => ⟨h, fun _ hid => hid⟩

theorem Fewer.trans {L L' L'' : Ledger} (h : Fewer L L') (h' : Fewer L' L'') : Fewer L L'' := by
  intro hrest
  obtain ⟨hrest', hids⟩ := h hrest
  obtain ⟨hrest'', hids'⟩ := h' hrest'
  exact ⟨hrest'', fun id hid => hids id (hids' id hid)⟩

theorem Fewer.of_rows {L L' : Ledger}
    (h : ∀ i ∈ L'.intents.rows, i.refused = true → i ∈ L.intents.rows) : Fewer L L' := by
  intro hrest
  refine ⟨fun i hi hrefused => hrest i (h i hi hrefused) hrefused, ?_⟩
  rintro id ⟨i, hi, hid, hrefused⟩
  exact ⟨i, h i hi hrefused, hid, hrefused⟩

section Ledger

variable {L : Ledger} {now : Time} {id : IntentId} {patch : MailIntent → MailIntent}

theorem not_refused (hrest : AtRest L) {i : MailIntent} (hi : i ∈ L.intents.rows)
    (hopen : unsettled i = true) : ¬ Refused L i.id := by
  rintro ⟨j, hj, hid, hrefused⟩
  rw [L.intents.eq_of_key_eq hj hi hid] at hrefused
  rw [hrest i hi hrefused] at hopen
  cases hopen

theorem mem_updated {j : MailIntent} (hj : j ∈ (updateIntent L now id patch).intents.rows) :
    j ∈ L.intents.rows ∨ ∃ i ∈ L.intents.rows, i.id = id ∧ j = patched patch now i := by
  cases hfind : L.intents.find? id with
  | none =>
    rw [updateIntent, hfind] at hj
    exact Or.inl hj
  | some x =>
    obtain ⟨i, hi, rfl⟩ := (mem_updateIntent hfind).1 hj
    split
    · rename_i hid
      exact Or.inr ⟨i, hi, hid, rfl⟩
    · exact Or.inl hi

/-- A change of one intent: it is not refused by it, and at rest if it was refused. -/
theorem Fewer.update (hpatch : ∀ i ∈ L.intents.rows, i.id = id → (patch i).refused = true →
      i.refused = true ∧ (unsettled i = false → unsettled (patch i) = false)) :
    Fewer L (updateIntent L now id patch) := by
  intro hrest
  constructor
  · intro j hj hrefused
    obtain hold | ⟨i, hi, hid, rfl⟩ := mem_updated hj
    · exact hrest j hold hrefused
    · obtain ⟨hwas, hkept⟩ := hpatch i hi hid hrefused
      exact hkept (hrest i hi hwas)
  · rintro x ⟨j, hj, hx, hrefused⟩
    obtain hold | ⟨i, hi, hid, rfl⟩ := mem_updated hj
    · exact ⟨j, hold, hx, hrefused⟩
    · exact ⟨i, hi, hx, (hpatch i hi hid hrefused).1⟩

/-- A change of an intent that waits to be sent or answered. -/
theorem Fewer.update_open (hopen : ∀ i ∈ L.intents.rows, i.id = id → unsettled i = true)
    (hpatch : ∀ i, (patch i).refused = true → i.refused = true) :
    Fewer L (updateIntent L now id patch) := by
  refine Fewer.update fun i hi hid hrefused => ⟨hpatch i hrefused, fun hrest => ?_⟩
  rw [hopen i hi hid] at hrest
  cases hrest

theorem Fewer.restart {resend : Bool} : Fewer L (restartIntent L now id resend) :=
  Fewer.update fun _ _ _ h => by cases h

theorem Fewer.each (hpatch : ∀ i, (patch i).refused = true → i.refused = true)
    (hkeep : ∀ i, unsettled i = true → unsettled (patch i) = true) (ids : List IntentId)
    (hopen : ∀ i ∈ L.intents.rows, i.id ∈ ids → unsettled i = true) :
    Fewer L (ids.foldl (fun L id => updateIntent L now id patch) L) := by
  induction ids generalizing L with
  | nil => exact .refl L
  | cons id ids ih =>
    refine Fewer.trans (Fewer.update_open (fun i hi hid => ?_) hpatch) (ih fun j hj hin => ?_)
    · exact hopen i hi (hid ▸ List.mem_cons_self)
    · obtain hold | ⟨i, hi, hid, rfl⟩ := mem_updated hj
      · exact hopen j hold (List.mem_cons_of_mem _ hin)
      · exact hkeep i (hopen i hi (hid ▸ List.mem_cons_self))

theorem Fewer.resend (copies : List MailIntent) : Fewer L (resendUnanswered now L copies) := by
  induction copies generalizing L with
  | nil => exact .refl L
  | cons c cs ih =>
    refine Fewer.trans ?_ ih
    dsimp only
    split
    · exact .refl L
    · split
      · exact .restart
      · exact .refl L

theorem Fewer.add {intents : List MailIntent} {entry : Option UndoEntry}
    (hnew : ∀ i ∈ intents, i.refused = false) : Fewer L (addIntents L now intents entry) := by
  refine .of_rows fun i hi hrefused => ?_
  obtain hold | hadded := KeyedTable.mem_insertAll.2 hi
  · exact hold
  · rw [hnew i hadded] at hrefused
    cases hrefused

/-! ## Settling -/

theorem settleFailed_spec (hrest : AtRest L) :
    AtRest (settleFailed L now id true) ∧
      ∀ x, Refused (settleFailed L now id true) x → Refused L x ∨ x = id := by
  rw [settleFailed, if_pos rfl]
  constructor
  · intro j hj hrefused
    obtain hold | ⟨i, hi, hid, rfl⟩ := mem_updated hj
    · exact hrest j hold hrefused
    · rfl
  · rintro x ⟨j, hj, rfl, hrefused⟩
    obtain hold | ⟨i, hi, rfl, rfl⟩ := mem_updated hj
    · exact Or.inl ⟨j, hold, rfl, hrefused⟩
    · exact Or.inr rfl

theorem settleError_terminal {current : MailIntent} {status : Option HttpError}
    (h : classifyFailure status = .terminal) :
    settleError L now current status = settleFailed L now current.id true := by
  simp [settleError, h]

theorem fewer_settleError {current : MailIntent} {status : Option HttpError}
    (hfree : ¬ Refused L current.id) (h : classifyFailure status ≠ .terminal) :
    Fewer L (settleError L now current status) := by
  unfold settleError
  dsimp only
  split
  · have hdropped : Fewer L (dropUndoFor L current.id) := .of_rows fun _ hi _ => hi
    refine hdropped.trans (Fewer.update ?_)
    exact fun _ _ _ hi => ⟨hi, fun _ => rfl⟩
  · split
    · rw [decide_eq_false h, settleFailed]
      exact Fewer.update fun _ _ _ hi => by cases hi
    · exact Fewer.update fun i hi hid hrefused => absurd ⟨i, hi, hid, hrefused⟩ hfree

theorem settle_refuses {current : MailIntent} {outcome : Outcome} (h : refuses outcome = true) :
    settle L now current outcome = settleFailed L now current.id true := by
  cases outcome with
  | answered => cases h
  | refused => rfl
  | error status => exact settleError_terminal (of_decide_eq_true h)

theorem fewer_settle {current : MailIntent} {outcome : Outcome}
    (hfree : ¬ Refused L current.id) (h : refuses outcome = false) :
    Fewer L (settle L now current outcome) := by
  cases outcome with
  | answered applied landed skipped sources =>
    have hdropped : Fewer L (if applied then L else dropUndoFor L current.id) := by
      split
      · exact .refl L
      · exact .of_rows fun _ hi _ => hi
    refine hdropped.trans (Fewer.update ?_)
    exact fun _ _ _ hi => ⟨hi, fun _ => rfl⟩
  | refused => cases h
  | error status => exact fewer_settleError hfree (of_decide_eq_false h)

end Ledger

/-! ## Reversals -/

/-- What is sent for an undo waits to be sent and was refused by nobody. -/
theorem reversalsOf_fresh {i r : MailIntent} {now : Time} {newId : ℕ → IntentId}
    (hr : r ∈ reversalsOf i now newId) : r.refused = false ∧ r.state = .pending := by
  unfold reversalsOf at hr
  split at hr
  · cases hr
  · split at hr
    · split at hr
      · cases hr
      · dsimp only at hr
        split at hr
        · obtain ⟨y, -, rfl⟩ := List.mem_map.1 hr
          exact ⟨rfl, rfl⟩
        · obtain hmove | hunread := List.mem_append.1 hr
          · obtain ⟨y, -, rfl⟩ := List.mem_map.1 hmove
            exact ⟨rfl, rfl⟩
          · rw [List.mem_singleton.1 hunread]
            exact ⟨rfl, rfl⟩
    · split at hr
      · cases hr
      · dsimp only at hr
        split at hr
        · cases hr
        · rw [List.mem_singleton.1 hr]
          exact ⟨rfl, rfl⟩

theorem reversalsOfAll_fresh {L : Ledger} {now : Time} {next : IntentId} {r : MailIntent}
    (cs : List MailIntent) (hr : r ∈ reversalsOfAll L now next cs) :
    r.refused = false ∧ r.state = .pending := by
  induction cs generalizing next with
  | nil => cases hr
  | cons c cs ih =>
    obtain hfirst | hrest := List.mem_append.1 hr
    · unfold reversalsFor at hfirst
      split at hfirst
      · exact reversalsOf_fresh hfirst
      · split at hfirst
        · cases hfirst
        · exact reversalsOf_fresh hfirst
    · exact ih hrest

/-! ## The steps -/

/-- What holds in every state of a run: the requests of a refused intent's key came back and came
to nothing, and the server wrote under a key only for a request it did not refuse. -/
structure Inv (s : Served) : Prop where
  rest : AtRest s.state.ledger
  turned : ∀ id, Refused s.state.ledger id → ∀ n c, s.state.calls[n]? = some c →
    c.intent.id = id → c.waiting = false ∧ cameToNothing s n c = true
  wrote : ∀ id, s.written id = true → ∃ (n : ℕ) (c : Call) (r : Response),
    s.state.calls[n]? = some c ∧ c.intent.id = id ∧ c.answer = some r ∧
      refuses (outcomeOf c.intent r) = false

variable {s : Served}

theorem Inv.neverApplied (h : Inv s) : NeverApplied s := by
  intro i hi hrefused
  apply eq_false_of_ne_true
  intro hwritten
  obtain ⟨n, c, r, hcall, hid, hanswer, hdone⟩ := h.wrote i.id hwritten
  obtain ⟨-, hnothing⟩ := h.turned i.id ⟨i, hi, rfl, hrefused⟩ n c hcall hid
  simp only [cameToNothing, hanswer, hdone, Bool.false_eq_true] at hnothing

/-- A step that leaves the requests as they are. -/
theorem Inv.of_fewer (h : Inv s) {t : State} (hcalls : t.calls = s.state.calls)
    (hledger : Fewer s.state.ledger t.ledger) : Inv { s with state := t } := by
  obtain ⟨hrest, hids⟩ := hledger h.rest
  refine ⟨hrest, fun id hid n c hcall => ?_, fun id hid => ?_⟩
  · exact h.turned id (hids id hid) n c (hcalls ▸ hcall)
  · obtain ⟨n, c, r, hcall, hrest⟩ := h.wrote id hid
    exact ⟨n, c, r, hcalls ▸ hcall, hrest⟩

/-- A request goes out; its intent was to be sent, and so is not refused. -/
theorem Inv.send (h : Inv s) {now : Time} {i : MailIntent}
    (hi : i ∈ s.state.ledger.intents.rows) (hopen : unsettled i = true) :
    Inv { s with state := s.state.send now i } := by
  have hledger : Fewer s.state.ledger (s.state.send now i).ledger := by
    refine Fewer.update_open (fun j hj hid => ?_) fun _ hrefused => hrefused
    rw [s.state.ledger.intents.eq_of_key_eq hj hi hid]
    exact hopen
  obtain ⟨hrest, hids⟩ := hledger h.rest
  refine ⟨hrest, fun id hid n c hcall hc => ?_, fun id hid => ?_⟩
  · replace hcall : (s.state.calls ++ [⟨i, true, none⟩])[n]? = some c := hcall
    by_cases hn : n < s.state.calls.length
    · rw [List.getElem?_append_left hn] at hcall
      exact h.turned id (hids id hid) n c hcall hc
    · rw [List.getElem?_append_right (Nat.le_of_not_lt hn)] at hcall
      rw [List.mem_singleton.1 (List.mem_of_getElem? hcall)] at hc
      rw [← hc] at hid
      exact absurd (hids i.id hid) (not_refused h.rest hi hopen)
  · obtain ⟨n, c, r, hcall, hdone⟩ := h.wrote id hid
    obtain ⟨hn, -⟩ := List.getElem?_eq_some_iff.1 hcall
    refine ⟨n, c, r, ?_, hdone⟩
    show (s.state.calls ++ [⟨i, true, none⟩])[n]? = some c
    rw [List.getElem?_append_left hn, hcall]

theorem getElem?_set_cases {calls : List Call} {n m : ℕ} {c d : Call}
    (h : (calls.set n c)[m]? = some d) : (m = n ∧ d = c) ∨ (m ≠ n ∧ calls[m]? = some d) := by
  by_cases hm : m = n
  · subst hm
    exact Or.inl ⟨rfl, (List.mem_or_eq_of_mem_set (List.mem_of_getElem? h)).elim
      (fun _ => by
        obtain ⟨hlt, hget⟩ := List.getElem?_eq_some_iff.1 h
        rw [List.getElem_set_self] at hget
        exact hget.symm) id⟩
  · rw [List.getElem?_set_ne (Ne.symm hm)] at h
    exact Or.inr ⟨hm, h⟩

/-- **A request reaches the server.** -/
theorem Inv.serve (h : Inv s) {n : ℕ} {c : Call} {response : Response} {wrote : Bool}
    (hcall : s.state.calls[n]? = some c) (hopen : c.answer = none)
    (hpassed : s.turnedAway n = false)
    (hplain : refuses (outcomeOf c.intent response) = true → wrote = false) :
    Inv { s with
      state := s.state.serve n c response
      written :=
        if (s.state.record c.intent.id).isNone && (wrote || reportsApplied c.intent response) then
          Function.update s.written c.intent.id true
        else s.written } := by
  have hn : n < s.state.calls.length := (List.getElem?_eq_some_iff.1 hcall).1
  have hfree : ¬ Refused s.state.ledger c.intent.id := by
    intro hrefused
    obtain ⟨-, hnothing⟩ := h.turned _ hrefused n c hcall rfl
    rw [cameToNothing, hopen, hpassed] at hnothing
    cases hnothing
  have hledger : (s.state.serve n c response).ledger = s.state.ledger := by
    unfold State.serve
    dsimp only
    split
    · rfl
    · rfl
  have hcalls : (s.state.serve n c response).calls = s.state.calls.set n
      { c with answer := some (s.state.answerFor c.intent response) } := by
    unfold State.serve
    dsimp only
    split
    · rfl
    · rfl
  refine ⟨?_, fun id hid m d hd hdid => ?_, fun id hid => ?_⟩
  · rw [hledger]
    exact h.rest
  · rw [hledger] at hid
    rw [hcalls] at hd
    obtain ⟨-, rfl⟩ | ⟨-, hd⟩ := getElem?_set_cases hd
    · exact absurd (hdid ▸ hid) hfree
    · exact h.turned id hid m d hd hdid
  · -- a request of the key that was there before has its answer still
    have hold : s.written id = true → ∃ (m : ℕ) (d : Call) (r : Response),
        (s.state.serve n c response).calls[m]? = some d ∧ d.intent.id = id ∧
          d.answer = some r ∧ refuses (outcomeOf d.intent r) = false := by
      intro hbefore
      obtain ⟨m, d, r, hd, hdid, hanswer, hdone⟩ := h.wrote id hbefore
      have hne : n ≠ m := by
        rintro rfl
        rw [hcall] at hd
        cases hd
        rw [hopen] at hanswer
        cases hanswer
      refine ⟨m, d, r, ?_, hdid, hanswer, hdone⟩
      rw [hcalls, List.getElem?_set_ne hne]
      exact hd
    dsimp only at hid ⊢
    split at hid
    · rename_i hwrites
      rw [Bool.and_eq_true, Bool.or_eq_true] at hwrites
      obtain ⟨hnone, hwrites⟩ := hwrites
      by_cases hsame : id = c.intent.id
      · refine ⟨n, { c with answer := some (s.state.answerFor c.intent response) }, response, ?_,
          hsame.symm, ?_, ?_⟩
        · rw [hcalls, List.getElem?_set_self hn]
        · rw [State.answerFor, Option.isNone_iff_eq_none.1 hnone]
        · apply eq_false_of_ne_true
          intro hrefuses
          obtain hwrote | hreports := hwrites
          · rw [hplain hrefuses] at hwrote
            cases hwrote
          · unfold reportsApplied at hreports
            cases houtcome : outcomeOf c.intent response with
            | answered => rw [houtcome] at hrefuses; cases hrefuses
            | refused | error => rw [houtcome] at hreports; cases hreports
      · rw [Function.update_of_ne hsame] at hid
        exact hold hid
    · exact hold hid

/-- **Something comes back**: it marks the intent only where no other request of the key is open
and this one came to nothing. -/
theorem Inv.settled (h : Inv s) {now : Time} {n : ℕ} {c : Call} {turned : ℕ → Bool}
    {how : Ledger → Time → MailIntent → Ledger} (hcall : s.state.calls[n]? = some c)
    (hwaiting : c.waiting = true) (hturned : ∀ m, m ≠ n → turned m = s.turnedAway m)
    (marks : Bool)
    (hmarks : ∀ current, currentIntent s.state.ledger c.intent = some current → marks = true →
      OthersRefused s n c ∧ cameToNothing { s with turnedAway := turned } n c = true ∧
        how s.state.ledger now current = settleFailed s.state.ledger now current.id true)
    (hnot : marks = false → ∀ current, ¬ Refused s.state.ledger current.id →
      Fewer s.state.ledger (how s.state.ledger now current)) :
    Inv { s with state := s.state.settled now n c how, turnedAway := turned } := by
  have hn : n < s.state.calls.length := (List.getElem?_eq_some_iff.1 hcall).1
  have hfree : ¬ Refused s.state.ledger c.intent.id := by
    intro hrefused
    obtain ⟨hback, -⟩ := h.turned _ hrefused n c hcall rfl
    rw [hwaiting] at hback
    cases hback
  have hids : AtRest (s.state.settled now n c how).ledger ∧
      ∀ id, Refused (s.state.settled now n c how).ledger id → Refused s.state.ledger id ∨
        (id = c.intent.id ∧ OthersRefused s n c ∧
          cameToNothing { s with turnedAway := turned } n c = true) := by
    unfold State.settled
    cases hcurrent : currentIntent s.state.ledger c.intent with
    | none => exact ⟨h.rest, fun id hid => Or.inl hid⟩
    | some current =>
      obtain ⟨hfind, -⟩ := Option.filter_eq_some_iff.1 hcurrent
      obtain ⟨-, hid⟩ := KeyedTable.find?_eq_some_iff.1 hfind
      dsimp only
      cases hmark : marks with
      | false =>
        obtain ⟨hrest, hfewer⟩ := hnot hmark current (hid ▸ hfree) h.rest
        exact ⟨hrest, fun id hrefused => Or.inl (hfewer id hrefused)⟩
      | true =>
        obtain ⟨hothers, hnothing, hhow⟩ := hmarks current hcurrent hmark
        rw [hhow]
        obtain ⟨hrest, hmore⟩ := settleFailed_spec h.rest
        exact ⟨hrest, fun id hrefused => (hmore id hrefused).imp_right fun hsame =>
          ⟨hsame.trans hid, hothers, hnothing⟩⟩
  refine ⟨hids.1, fun id hrefused m d hd hdid => ?_, fun id hwritten => ?_⟩
  · obtain ⟨rfl, rfl⟩ | ⟨hm, hd⟩ := getElem?_set_cases hd
    · refine ⟨rfl, ?_⟩
      obtain hbefore | ⟨-, -, hnothing⟩ := hids.2 id hrefused
      · exact absurd (hdid ▸ hbefore) hfree
      · exact hnothing
    · have hkept : cameToNothing s m d = true → cameToNothing
          { s with state := s.state.settled now n c how, turnedAway := turned } m d = true := by
        unfold cameToNothing
        dsimp only
        rw [hturned m hm]
        exact fun hnothing => hnothing
      obtain hbefore | ⟨rfl, hothers, -⟩ := hids.2 id hrefused
      · exact (h.turned id hbefore m d hd hdid).imp_right hkept
      · obtain ⟨hlt, -⟩ := List.getElem?_eq_some_iff.1 hd
        exact (hothers m hlt d hd hm hdid).imp_right hkept
  · obtain ⟨m, d, r, hd, hdid, hanswer, hdone⟩ := h.wrote id hwritten
    by_cases hm : m = n
    · subst hm
      rw [hcall] at hd
      cases hd
      exact ⟨m, { c with waiting := false }, r, List.getElem?_set_self hn, hdid, hanswer, hdone⟩
    · refine ⟨m, d, r, ?_, hdid, hanswer, hdone⟩
      show (s.state.calls.set n _)[m]? = some d
      rw [List.getElem?_set_ne (Ne.symm hm)]
      exact hd

theorem fewer_carryOut {now : Time} (r : UndoRequest) (t : State) :
    Fewer t.ledger (t.carryOut now r).ledger := by
  have hresent : Fewer t.ledger (resendUnanswered now t.ledger r.entry.intents) :=
    Fewer.resend r.entry.intents
  have hadded : Fewer (resendUnanswered now t.ledger r.entry.intents)
      (addIntents (resendUnanswered now t.ledger r.entry.intents) now
        (reversalsOfAll (resendUnanswered now t.ledger r.entry.intents) now t.nextId
          r.entry.intents) none) :=
    Fewer.add fun i hi => (reversalsOfAll_fresh r.entry.intents hi).1
  unfold State.carryOut
  dsimp only
  split
  · refine hresent.trans (hadded.trans (.of_rows ?_))
    exact fun i hi _ => List.mem_of_mem_filter hi
  · exact hresent

theorem fewer_patchAll {now : Time} {p : MailIntent → Bool} {patch : MailIntent → MailIntent}
    (t : State) (hp : ∀ i, p i = true → unsettled i = true)
    (hpatch : ∀ i, (patch i).refused = true → i.refused = true)
    (hkeep : ∀ i, unsettled i = true → unsettled (patch i) = true) :
    Fewer t.ledger (t.patchAll now p patch).ledger := by
  refine Fewer.each hpatch hkeep _ fun i hi hin => ?_
  obtain ⟨j, hj, hid⟩ := List.mem_map.1 hin
  obtain ⟨hj, hmatch⟩ := List.mem_filter.1 hj
  rw [← t.ledger.intents.eq_of_key_eq hj hi hid]
  exact hp j hmatch

theorem calls_carryOut {now : Time} (r : UndoRequest) (t : State) :
    (t.carryOut now r).calls = t.calls := by
  unfold State.carryOut
  dsimp only
  split
  · rfl
  · rfl

theorem unsettled_of_scan {all is : List MailIntent} {now : Time} {busy claimed : List Uuid}
    {i : MailIntent} (h : i ∈ scanSendable all now busy claimed is) : unsettled i = true := by
  induction is generalizing busy claimed with
  | nil => cases h
  | cons x is ih =>
    unfold scanSendable at h
    split at h
    · rename_i hopen
      split at h
      · exact ih h
      · obtain rfl | h := List.mem_cons.1 h
        · exact hopen
        · exact ih h
    · exact ih h

/-- A plain step keeps it: what is marked as refused was never written. -/
theorem inv_step {t : Served} {l : (Time × Label) × Bool} (h : Inv s) (hplain : Plain s l)
    (hst : Served.step s l = some t) : Inv t := by
  obtain ⟨⟨now, l⟩, wrote⟩ := l
  obtain ⟨t, hbase, rfl⟩ := Option.map_eq_some_iff.1 hst
  cases l with
  | act action drafts undoable =>
    cases hbase
    refine h.of_fewer rfl (Fewer.add fun i hi => ?_)
    obtain ⟨d, -, rfl⟩ := List.mem_map.1 hi
    rfl
  | hold id =>
    obtain ⟨i, hfind, rfl⟩ := Option.map_eq_some_iff.1 hbase
    obtain ⟨hfind, hstale⟩ := Option.filter_eq_some_iff.1 hfind
    obtain ⟨hi, hid⟩ := KeyedTable.find?_eq_some_iff.1 hfind
    refine h.of_fewer rfl (Fewer.update_open (fun j hj hjd => ?_) fun _ hrefused => hrefused)
    rw [s.state.ledger.intents.eq_of_key_eq hj hi (hjd.trans hid.symm)]
    rw [stale, Bool.and_eq_true, decide_eq_true_eq] at hstale
    simp [unsettled, hstale.1]
  | send id =>
    obtain ⟨i, hfind, rfl⟩ := Option.map_eq_some_iff.1 hbase
    have hsent := List.mem_of_find?_eq_some hfind
    exact h.send (UndoKept.mem_sendableIntents hsent) (unsettled_of_scan hsent)
  | serve n response =>
    obtain ⟨c, hcall, rfl⟩ := Option.map_eq_some_iff.1 hbase
    obtain ⟨hcall, hfits⟩ := Option.filter_eq_some_iff.1 hcall
    rw [Bool.and_eq_true, Option.isNone_iff_eq_none] at hfits
    obtain ⟨hpassed, hrefuses⟩ := hplain c hcall
    dsimp only
    rw [hcall]
    exact h.serve hcall hfits.1 hpassed hrefuses
  | deliver n =>
    obtain ⟨c, hcall, hanswer⟩ := Option.bind_eq_some_iff.1 hbase
    obtain ⟨r, hr, rfl⟩ := Option.map_eq_some_iff.1 hanswer
    obtain ⟨hcall, hwaiting⟩ := Option.filter_eq_some_iff.1 hcall
    refine h.settled hcall hwaiting (fun _ _ => rfl) (refuses (outcomeOf c.intent r)) ?_ ?_
    · intro current hcurrent hrefuses
      have hsome : (currentIntent s.state.ledger c.intent).isSome = true := by
        rw [hcurrent, Option.isSome_some]
      refine ⟨hplain c hcall r hr hsome hrefuses, ?_, settle_refuses hrefuses⟩
      simp only [cameToNothing, hr, hrefuses]
    · exact fun hdone current hfree => fewer_settle hfree hdone
  | lose n status =>
    obtain ⟨c, hcall, rfl⟩ := Option.map_eq_some_iff.1 hbase
    obtain ⟨hcall, hwaiting⟩ := Option.filter_eq_some_iff.1 hcall
    refine h.settled hcall hwaiting (fun m hm => ?_)
      (decide (classifyFailure status = .terminal)) ?_ ?_
    · split
      · rw [Function.update_of_ne hm]
      · rfl
    · intro current hcurrent hterminal
      have hterminal := of_decide_eq_true hterminal
      have hsome : (currentIntent s.state.ledger c.intent).isSome = true := by
        rw [hcurrent, Option.isSome_some]
      obtain ⟨hothers, hrefused⟩ := hplain c hcall hsome hterminal
      refine ⟨hothers, ?_, settleError_terminal hterminal⟩
      unfold cameToNothing
      split
      · rename_i r hr
        exact hrefused r hr
      · dsimp only
        rw [if_pos hterminal, Function.update_self]
    · exact fun hother current hfree => fewer_settleError hfree (of_decide_eq_false hother)
  | takeOver =>
    cases hbase
    refine h.of_fewer rfl (fewer_patchAll s.state (fun i hi => ?_) (fun _ hi => hi) fun _ _ => rfl)
    simp [unsettled, of_decide_eq_true hi]
  | recover =>
    cases hbase
    refine h.of_fewer rfl (fewer_patchAll s.state (fun i hi => ?_) (fun _ hi => hi) fun _ hi => hi)
    rw [Bool.and_eq_true, decide_eq_true_eq] at hi
    simp [unsettled, hi.1]
  | retry id | sendHeld id =>
    obtain ⟨i, -, rfl⟩ := Option.map_eq_some_iff.1 hbase
    exact h.of_fewer rfl .restart
  | discard id =>
    obtain ⟨i, -, rfl⟩ := Option.map_eq_some_iff.1 hbase
    dsimp only
    unfold State.discard
    split
    · exact h.of_fewer rfl (.of_rows fun _ hi _ => hi)
    · exact h.of_fewer rfl (.of_rows fun _ hi _ => List.mem_of_mem_filter hi)
  | undo entry =>
    cases hbase
    refine h.of_fewer rfl ?_
    unfold requestUndo
    dsimp only
    split
    · exact .of_rows fun _ hi _ => hi
    · exact .of_rows fun _ hi _ => hi
  | carryOut id =>
    obtain ⟨r, -, rfl⟩ := Option.map_eq_some_iff.1 hbase
    exact h.of_fewer (calls_carryOut r s.state) (fewer_carryOut r s.state)
  | sweep =>
    cases hbase
    exact h.of_fewer rfl (.of_rows fun i hi _ => List.mem_of_mem_filter hi)

/-- **What is refused was never applied**, in every state of a run in which a refusal reaches the
drainer only where no other attempt of its key went unanswered, and the server writes nothing for
a request that is refused. -/
theorem refused_never_applied (h : servedSystem.Reachable Plain s) : NeverApplied s := by
  refine Inv.neverApplied (h.invariant ?_ fun s l t hs hplain hst => inv_step hs hplain hst)
  rintro s rfl
  refine ⟨fun _ hi => (by cases hi), ?_, fun id hid => (by cases hid)⟩
  rintro id ⟨i, hi, -⟩
  cases hi

/-! ### A lost answer, and a refusal of the next attempt -/

/-- Two messages are archived in two requests. The server refuses the first one and, when the
person tries again, refuses it once more; it archives the other. -/
def refusedTwice : List ((Time × Label) × Bool) :=
  [((0, .act .archive [UndoKept.archiveOne 1 11, UndoKept.archiveOne 2 12] true), false),
    ((0, .send 0), false), ((0, .send 1), false),
    ((500, .serve 0 (.error 400)), false), ((600, .deliver 0), false),
    ((600, .serve 1 UndoKept.archivedTo9), true), ((700, .deliver 1), false),
    ((800, .retry 0), false), ((800, .send 0), false), ((900, .lose 2 (some 403)), false)]

theorem refused_twice_never_applied : ∃ s, servedSystem.exec
      ⟨start, fun _ => false, fun _ => false⟩ refusedTwice = some s ∧
    (s.state.ledger.intents.rows.any MailIntent.refused && s.written 1) = true ∧
      NeverApplied s := by
  have hruns : (servedSystem.exec ⟨start, fun _ => false, fun _ => false⟩ refusedTwice).any
      (fun s => s.state.ledger.intents.rows.any MailIntent.refused && s.written 1) = true := by
    decide +kernel
  obtain ⟨s, hexec, hboth⟩ := (Option.any_eq_true _ _).1 hruns
  refine ⟨s, hexec, hboth, refused_never_applied (TransitionSystem.reachable_of_exec refusedTwice
    rfl ?_ hexec)⟩
  decide +kernel

/-- One message is archived and the answer is lost on its way; the next attempt finds the session
at an end, before it reaches the server. -/
def signedOut : List ((Time × Label) × Bool) :=
  [((0, .act .archive [UndoKept.archiveOne 1 11] true), false), ((0, .send 0), false),
    ((500, .serve 0 UndoKept.archivedTo9), true), ((900, .lose 0 none), false),
    ((2000, .send 0), false), ((2500, .lose 1 (some 401)), false)]

/-- The ledger holds the archiving as refused, and the server has archived the message. -/
theorem signed_out_after_applied :
    ¬ ∀ s, servedSystem.Reachable TransitionSystem.anyStep s → NeverApplied s := by
  intro hnever
  have hruns : (servedSystem.exec ⟨start, fun _ => false, fun _ => false⟩ signedOut).any (fun s =>
      (s.state.ledger.intents.rows.any fun i => i.refused && s.written i.id)) = true := by
    decide +kernel
  obtain ⟨s, hexec, hboth⟩ := (Option.any_eq_true _ _).1 hruns
  obtain ⟨i, hi, hholds⟩ := List.any_eq_true.1 hboth
  obtain ⟨hrefused, happlied⟩ := Bool.and_eq_true_iff.1 hholds
  have hnot := hnever s (TransitionSystem.reachable_of_exec_any signedOut rfl hexec) i hi hrefused
  rw [happlied] at hnot
  cases hnot

end MailVerdict.Analysis.RefusedIntents
