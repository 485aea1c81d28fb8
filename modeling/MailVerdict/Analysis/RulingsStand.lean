import MailVerdict.Model.SpamRulings

/-!
# Whether the listener answers a ruling back

The listener knows its own application's moves by their agreeing with the verdict in force.
They agree with the ruling that made them; an event that is handled after the opposite
ruling disagrees with that one, and the listener records the old ruling again, over the new
one (`late_event_overturns_ruling`).

So the listener stays silent as long as each move into junk is heard while the last ruling
says spam, and each move out of junk, other than to trash, while it says not spam; and it
speaks at the first event of which that is not so (`listener_never_answers`).
-/

namespace MailVerdict.Analysis.RulingsStand

open MailVerdict.Computation
open Model.SpamRulings

/-- The event does not contradict the last ruling: a move into a folder flagged junk is not
heard after a not-spam ruling, nor a move out of one, unless to trash, after a spam one. -/
def Agrees (s : State) (e : MoveEvent) : Prop :=
  (s.effectiveSpecialUse e.folderId = some "junk" → s.standing ≠ some false) ∧
    (s.effectiveSpecialUse e.folderId ≠ some "junk" →
      s.effectiveSpecialUse e.oldFolderId = some "junk" →
        s.effectiveSpecialUse e.folderId ≠ some "trash" → s.standing ≠ some true)

instance (s : State) (e : MoveEvent) : Decidable (Agrees s e) :=
  inferInstanceAs (Decidable (_ ∧ _))

/-- Every event is handled while it agrees with the last ruling. -/
def HeardInTime (s : State) : Label → Prop
  | .deliver => ∀ e ∈ s.events.head?, Agrees s e
  | _ => True

instance (s : State) (l : Label) : Decidable (HeardInTime s l) := by
  cases l <;> unfold HeardInTime <;> infer_instance

structure Inv (s : State) : Prop where
  silent : s.answering = []
  answers : s.answers = []
  current : s.currentVerdict = s.standing

variable {s t : State}

theorem correction_eq_none_iff (h : s.currentVerdict = s.standing) (e : MoveEvent) :
    s.correction e = none ↔ Agrees s e := by
  unfold State.correction Agrees
  rw [h]
  constructor
  · intro hnone
    refine ⟨fun hjunk hstands => ?_, fun hother hjunk htrash hstands => ?_⟩
    · simp [hjunk, hstands] at hnone
    · simp [hother, hjunk, htrash, hstands] at hnone
  · rintro ⟨hin, hout⟩
    by_cases hjunk : s.effectiveSpecialUse e.folderId = some "junk"
    · simp [hjunk, hin hjunk]
    · by_cases hold : s.effectiveSpecialUse e.oldFolderId = some "junk"
      · by_cases htrash : s.effectiveSpecialUse e.folderId = some "trash"
        · simp [htrash]
        · simp [hjunk, hold, htrash, hout hjunk hold htrash]
      · simp [hjunk, hold]

theorem currentVerdict_of_concat {b : Bool}
    (h : t.verdicts = s.verdicts ++ [⟨b, .userFeedback⟩]) : t.currentVerdict = some b := by
  simp [State.currentVerdict, h]

theorem Inv.congr (h : Inv s) (hanswering : t.answering = s.answering)
    (hanswers : t.answers = s.answers) (hverdicts : t.verdicts = s.verdicts)
    (hrulings : t.rulings = s.rulings) (hbefore : t.before = s.before) : Inv t where
  silent := hanswering.trans h.silent
  answers := hanswers.trans h.answers
  current := by
    have hcurrent : t.currentVerdict = s.currentVerdict := by
      rw [State.currentVerdict, State.currentVerdict, hverdicts]
    have hstanding : t.standing = s.standing := by
      rw [State.standing, State.standing, hrulings, hbefore]
    rw [hcurrent, hstanding, h.current]

theorem Inv.record (h : Inv s) (n : ℕ) (c : Call) (prior : Option Bool) (succeeds : Bool) :
    Inv (s.record n c prior succeeds) := by
  unfold State.record
  split
  · refine ⟨h.silent, h.answers, (currentVerdict_of_concat rfl).trans ?_⟩
    simp [State.standing]
  · exact h.congr rfl rfl rfl rfl rfl

theorem Inv.moveMessage (h : Inv s) (c : Call) (target : FolderId) :
    Inv (s.moveMessage c target) := by
  unfold State.moveMessage
  split <;> split
  · exact h.congr rfl rfl rfl rfl rfl
  · exact h
  · exact h.congr rfl rfl rfl rfl rfl
  · exact h

theorem Inv.setPhase (h : Inv s) (n : ℕ) (c : Call) (phase : Phase) :
    Inv (s.setPhase n c phase) := h.congr rfl rfl rfl rfl rfl

theorem Inv.move (h : Inv s) {n : ℕ} {c : Call} {prior : Option Bool} {target : FolderId}
    (hmove : s.move n c prior target = some t) : Inv t := by
  unfold State.move at hmove
  split at hmove
  · cases hmove
    exact h.setPhase n c .ended
  · split at hmove
    · cases hmove
      exact h.setPhase n c .ended
    · split at hmove
      · cases hmove
        exact (h.moveMessage c target).setPhase n c .ended
      · cases hmove

theorem inv_step {l : Label} (h : Inv s) (hheard : HeardInTime s l)
    (hstep : step s l = some t) : Inv t := by
  cases l with
  | rule isSpam expected =>
    cases hstep
    exact h.congr rfl rfl rfl rfl rfl
  | record n succeeds =>
    obtain ⟨c, -, hstep⟩ := Option.bind_eq_some_iff.1 hstep
    split at hstep
    · cases hstep
      exact h.record n c _ succeeds
    · cases hstep
  | move n target =>
    obtain ⟨c, -, hstep⟩ := Option.bind_eq_some_iff.1 hstep
    split at hstep
    · exact h.move hstep
    · cases hstep
  | abandon n =>
    obtain ⟨c, -, rfl⟩ := Option.map_eq_some_iff.1 hstep
    exact h.setPhase n c .ended
  | deliver =>
    simp only [step] at hstep
    split at hstep
    · cases hstep
    next e rest hevents =>
      cases hstep
      have hagrees : Agrees s e := hheard e (by rw [hevents]; rfl)
      refine h.congr ?_ rfl rfl rfl rfl
      rw [(correction_eq_none_iff h.current e).2 hagrees, Option.toList_none, List.append_nil]
  | answer isSpam succeeds =>
    simp only [step, h.silent, List.not_mem_nil, if_false] at hstep
    cases hstep

theorem inv_reachable (h : system.Reachable HeardInTime s) : Inv s := by
  refine h.invariant ?_ fun s l t hinv hheard hstep => inv_step hinv hheard hstep
  rintro s ⟨-, -, hanswering, hrulings, hanswers, hbefore⟩
  refine ⟨hanswering, hanswers, ?_⟩
  rw [State.standing, hrulings, hbefore]
  rfl

/-- **The listener never answers** while every event is heard in time: it has written nothing, the
last ruling is in force, and the next event is answered exactly when not heard in time. -/
theorem listener_never_answers (h : system.Reachable HeardInTime s) :
    s.answers = [] ∧ s.answering = [] ∧
      (∀ r, s.rulings.getLast? = some r → s.currentVerdict = some r) ∧
      ∀ e rest, s.events = e :: rest → (s.correction e = none ↔ HeardInTime s .deliver) := by
  have hinv := inv_reachable h
  refine ⟨hinv.answers, hinv.silent, fun r hr => ?_, fun e rest hevents => ?_⟩
  · rw [hinv.current, State.standing, hr]
    rfl
  · rw [correction_eq_none_iff hinv.current]
    simp [HeardInTime, hevents]

/-! ## Runs -/

/-- An inbox and a junk folder, and a message in the inbox that no one has classified. -/
def account : State where
  folders := ⟨[⟨1, some "inbox", "inbox", false⟩, ⟨2, some "junk", "junk", false⟩], by decide⟩
  folderId := 1
  isExpunged := false
  verdicts := []
  calls := []
  events := []
  answering := []
  before := none
  rulings := []
  answers := []

/-- Spam, and then not spam after the move to junk has been heard. -/
theorem reversed_ruling_stands : ∃ s : State, s.rulings = [true, false] ∧
    s.currentVerdict = some false ∧ s.folderId = 1 ∧ s.answers = [] := by
  obtain ⟨s, hexec, hmeets, hrulings, hfolder⟩ : ∃ s : State,
      system.exec account [.rule true none, .record 0 true, .move 0 2, .deliver,
        .rule false none, .record 1 true, .move 1 1, .deliver] = some s ∧
      system.execMeets HeardInTime account [.rule true none, .record 0 true, .move 0 2, .deliver,
        .rule false none, .record 1 true, .move 1 1, .deliver] = true ∧
      s.rulings = [true, false] ∧ s.folderId = 1 :=
    ⟨_, rfl, rfl, rfl, rfl⟩
  have h := listener_never_answers (TransitionSystem.reachable_of_exec _
    ⟨rfl, rfl, rfl, rfl, rfl, rfl⟩ hmeets hexec)
  exact ⟨s, hrulings, h.2.2.1 false (by rw [hrulings]; rfl), hfolder, h.1⟩

/-- Spam and then not spam before the move to junk is heard: the listener rules spam. -/
theorem late_event_overturns_ruling : ∃ s : State,
    system.Reachable TransitionSystem.anyStep s ∧ s.rulings = [true, false] ∧
      s.answers = [true] ∧ s.currentVerdict = some true := by
  obtain ⟨s, hexec, hafter⟩ : ∃ s : State,
      system.exec account [.rule true none, .record 0 true, .move 0 2,
        .rule false none, .record 1 true, .move 1 1, .deliver, .answer true true] = some s ∧
      s.rulings = [true, false] ∧ s.answers = [true] ∧ s.currentVerdict = some true :=
    ⟨_, rfl, rfl, rfl, rfl⟩
  exact ⟨s, TransitionSystem.reachable_of_exec_any _ ⟨rfl, rfl, rfl, rfl, rfl, rfl⟩ hexec, hafter⟩

end MailVerdict.Analysis.RulingsStand
