import MailVerdict.Analysis.OccurrenceEdits

/-!
# Concurrent edits of one calendar object

`update_event`, `delete_event`, `respond_to_event`, `import_invitation` and the automatic
REPLY intake each read a whole body and write a whole body back by id
(`replace_object_data`), in a later transaction and without a check. They are the
operations of `Computation.ReadModifyWrite` on the body, so no edit is lost in the runs
in which nothing else writes between an operation's read and its write.
-/

namespace MailVerdict.Analysis.CalendarEdits

open MailVerdict.Computation Computation.ReadModifyWrite
open Model.Ical Model.Invitations Model.CalendarEvents
open Analysis.IcalBodies Analysis.OccurrenceEdits

/-- The operations under way on one object, as read-modify-write operations on its body. -/
def onBody {I : Type} (P : Platform) (ops : I → BodyOp) (i : I) : Operation Calendar :=
  (ops i).operation P

/-- **No calendar edit is lost while none is disturbed**: where each write finds the body its
operation read and each operation that wrote reports it, once none is under way the body is what
those that reported success make of the first one, one after another in some order. -/
theorem no_edit_lost_while_undisturbed {I : Type} [DecidableEq I] {P : Platform}
    {ops : I → BodyOp} {cal : Calendar} {s : State I Calendar}
    (h : (system (onBody P ops) cal).Reachable (Undisturbed (onBody P ops)) s)
    (hquiet : Quiescent s) : Serial (onBody P ops) cal s :=
  serial_of_undisturbed h hquiet

/-! ### Two guests answer at once -/

def ann : Attendee :=
  { email := "ann@office.example", cn := none, partstat := none, role := none,
    scheduleAgent := none }

def bob : Attendee := { ann with email := "bob@office.example" }

def answered (annSays bobSays : Option Partstat) : Calendar :=
  { method := none
    vevents := [{ standup with
      attendees := [{ ann with partstat := annSays }, { bob with partstat := bobSays }] }] }

def acceptances : Bool → BodyOp
  | true => .reply ⟨1, "ann", some "ann@office.example"⟩
      { method := some "REPLY"
        vevents := [{ standup with attendees := [{ ann with partstat := some .accepted }] }] }
  | false => .reply ⟨1, "bob", some "bob@office.example"⟩
      { method := some "REPLY"
        vevents := [{ standup with attendees := [{ bob with partstat := some .accepted }] }] }

def inTurn : List (Label Bool) :=
  [.read true, .write true, .report true, .read false, .write false, .report false]

def atOnce : List (Label Bool) :=
  [.read true, .read false, .write true, .write false, .report true, .report false]

theorem acceptances_in_turn_kept :
    ∃ s, (system (onBody utcPlatform acceptances) (answered none none)).exec
          (start (answered none none)) inTurn = some s ∧
      s.value = answered (some .accepted) (some .accepted) ∧
      Serial (onBody utcPlatform acceptances) (answered none none) s := by
  have h0 : (system (onBody utcPlatform acceptances) (answered none none)).Reachable
      (Undisturbed (onBody utcPlatform acceptances)) (start (answered none none)) := .init rfl
  have h1 := h0.step (l := Label.read true) trivial rfl
  have h2 := h1.step (l := Label.write true) (by
    intro snapshot h
    have h : Phase.holding (answered none none) = Phase.holding snapshot := h
    cases h
    rfl) rfl
  have h3 := h2.step (l := Label.report true) (fun _ _ => rfl) rfl
  have h4 := h3.step (l := Label.read false) trivial rfl
  have h5 := h4.step (l := Label.write false) (by
    intro snapshot h
    have h : Phase.holding (answered (some .accepted) none) = Phase.holding snapshot := h
    cases h
    rfl) rfl
  have h6 := h5.step (l := Label.report false) (fun _ _ => rfl) rfl
  refine ⟨_, rfl, rfl, no_edit_lost_while_undisturbed h6 fun i => ?_⟩
  cases i with
  | true => exact .inr ⟨true, rfl⟩
  | false => exact .inr ⟨true, rfl⟩

/-- At once, both are reported and Ann's is lost. -/
theorem acceptances_at_once_lost :
    ∃ s, (system (onBody utcPlatform acceptances) (answered none none)).exec
          (start (answered none none)) atOnce = some s ∧
      Quiescent s ∧ s.phase true = .done true ∧ s.phase false = .done true ∧
      s.value = answered none (some .accepted) ∧
      ¬ Serial (onBody utcPlatform acceptances) (answered none none) s := by
  refine ⟨_, rfl, ?_, rfl, rfl, rfl, ?_⟩
  · intro i
    cases i with
    | true => exact .inr ⟨true, rfl⟩
    | false => exact .inr ⟨true, rfl⟩
  · rintro ⟨order, hnodup, hmem, hvalue⟩
    have htrue : true ∈ order := (hmem true).2 rfl
    have hfalse : false ∈ order := (hmem false).2 rfl
    match order, htrue, hfalse, hnodup, hvalue with
    | [true, false], _, _, _, hvalue => exact absurd hvalue (by decide)
    | [false, true], _, _, _, hvalue => exact absurd hvalue (by decide)
    | [true, true], _, hfalse, _, _ => exact absurd hfalse (by decide)
    | [false, false], htrue, _, _, _ => exact absurd htrue (by decide)
    | [true], _, hfalse, _, _ => exact absurd hfalse (by decide)
    | [false], htrue, _, _, _ => exact absurd htrue (by decide)
    | [], htrue, _, _, _ => exact absurd htrue (by decide)
    | a :: b :: c :: rest, _, _, hnodup, _ =>
      -- Of three operations two are the same.
      cases a <;> cases b <;> cases c <;> simp at hnodup

end MailVerdict.Analysis.CalendarEdits
