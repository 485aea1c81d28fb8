import MailVerdict.Model.CalendarEvents

/-!
# Deliveries of one invitation, statement by statement

Any number of deliveries of one message, and imports of it by hand, run at once, and each
may stop after any of its transactions. A delivery decides, passes the gate or not, writes
its effect and promotes the row (`processArrival`, four steps); an import looks for the
object, writes it, reads the gate row and records (`import_invitation`, four steps). The
objects themselves change meanwhile: the server takes a body, other devices write.

`log` lists what was written for the message, in order; no step reads it.
-/

namespace MailVerdict.Model.IntakeRuns

open MailVerdict.Computation Model.Ical Model.Invitations
open Model.CalendarEvents

universe u

structure Mail where
  msg : Message
  raw : Calendar
  inv : ParsedInvitation
  parsed : parseItipMessage raw = some inv

/-- A write made for the message: the status the row is to have, the object, its body,
and whether the object was created. -/
structure Written where
  status : IntakeStatus
  objectId : Uuid
  data : Calendar
  created : Bool

/-- Where the object an import wrote lives. -/
structure Target where
  davAccountId : Uuid
  collectionId : Uuid

/-- How far a delivery (`decided`, `gated`, `wrote`) or an import (`found`, `imported`,
`checked`) has come. -/
inductive Phase
  | idle
  | decided (d : IntakeDecision)
  | gated (d : IntakeDecision)
  | wrote (w : Written)
  | found (existing : Option DavObject)
  | imported (w : Written) (target : Target)
  | checked (w : Written) (target : Target) (present : Bool)
  | done

def Phase.importing : Phase → Bool
  | found _ | imported _ _ | checked _ _ _ => true
  | _ => false

/-- The object is written and the row is not. -/
def Phase.unrecorded : Phase → Bool
  | wrote _ | imported _ _ | checked _ _ _ => true
  | _ => false

/-- A delivery about to create an object, or an import. -/
def Phase.mayCreate : Phase → Bool
  | gated d => decide (d.status = .imported)
  | found _ | imported _ _ | checked _ _ _ => true
  | _ => false

structure State (I : Type u) where
  store : Store
  phase : I → Phase
  log : List Written

inductive Label (I : Type u)
  | decide (i : I)
  | gate (i : I)
  | write (i : I)
  | promote (i : I)
  | find (i : I)
  | importWrite (i : I) (calendarId : Uuid)
  | check (i : I)
  | record (i : I)
  | crash (i : I)
  | sync (objectId : Uuid) (uid : Option String) (data : Calendar) (deleted : Bool)
  | appear (davAccountId collectionId : Uuid) (data : Calendar)

section

variable {I : Type u} [DecidableEq I] (P : Platform) (D : Directory) (M : Mail)

def State.row (s : State I) : Option IntakeRow := s.store.intake.find? M.msg.key

def State.to (s : State I) (i : I) (p : Phase) : State I :=
  { s with phase := Function.update s.phase i p }

/-- The row is not closed: it is absent, or an earlier attempt left it pending. -/
def rowOpen : Option IntakeRow → Bool
  | none => true
  | some r => decide (r.status = .pending)

/-- The gate of `process_arrival`. -/
def State.passGate (s : State I) (i : I) (d : IntakeDecision) : State I :=
  let (rows, row, created) := createIfAbsent s.store.intake (intakeRow P M.msg M.inv d)
  let gated : State I := { s with store := { s.store with intake := rows } }
  if created ∨ row.status = .pending then gated.to i (.gated d) else gated.to i .done

/-- The object write of `_apply`, or its return without one. -/
def State.writeEffect (s : State I) (i : I) (d : IntakeDecision) : State I :=
  match effectOf P d M.inv M.raw with
  | .error _ => s.to i .done
  | .ok none =>
    match d.status, d.existing with
    | .updated, some o =>
      if M.inv.method = "REPLY" then
        { s.to i .done with
          store := { s.store with intake := updateStatus s.store.intake M.msg.key .ignored o.id } }
      else s.to i .done
    | _, _ => s.to i .done
  | .ok (some (.replace id data)) =>
    let w : Written := ⟨d.status, id, data, false⟩
    { s.to i (.wrote w) with
      store := (s.store.applyEffect (.replace id data)).1, log := s.log ++ [w] }
  | .ok (some (.create account collection data)) =>
    let w : Written := ⟨d.status, s.store.nextId, data, true⟩
    { s.to i (.wrote w) with
      store := s.store.create account collection data, log := s.log ++ [w] }

def State.promoteRow (s : State I) (i : I) (w : Written) : State I :=
  { s.to i .done with
    store :=
      { s.store with intake := updateStatus s.store.intake M.msg.key w.status w.objectId } }

/-- A collection an import may create an object in. -/
def importable (calendarId : Uuid) : Option Collection :=
  (D.collections.find? fun c => decide (c.id = calendarId)).filter fun c =>
    !c.deleted && c.isCalendar && !c.readOnly

/-- The object write of `import_invitation`, or its refusal.

SOURCE: api/invitations.py:287-321 -/
def State.importObject (s : State I) (i : I) (existing : Option DavObject) (calendarId : Uuid) :
    State I :=
  match existing with
  | some o =>
    if D.collections.any fun c => decide (c.id = o.collectionId) && c.readOnly then s.to i .done
    else
      match importInto P o.data M.raw M.inv with
      | .error _ => s.to i .done
      | .ok data =>
        let status : IntakeStatus := if M.inv.method = "CANCEL" then .cancelled else .updated
        let w : Written := ⟨status, o.id, data, false⟩
        { s.to i (.imported w ⟨o.accountId, o.collectionId⟩) with
          store := (s.store.applyEffect (.replace o.id data)).1, log := s.log ++ [w] }
  | none =>
    if M.inv.method = "CANCEL" then s.to i .done
    else
      match importable D calendarId with
      | none => s.to i .done
      | some c =>
        let w : Written := ⟨.imported, s.store.nextId, fixed M.raw, true⟩
        { s.to i (.imported w ⟨c.accountId, calendarId⟩) with
          store := s.store.create c.accountId calendarId (fixed M.raw), log := s.log ++ [w] }

/-- The row an import inserts where it found none. -/
def importRow (w : Written) (t : Target) : IntakeRow :=
  { accountId := M.msg.accountId
    msgKey := M.msg.msgKey
    icalUid := M.inv.master.uid
    method := M.inv.method
    sequence := M.inv.master.sequenceValue
    recurrenceId := M.inv.master.recurrenceIdValue P
    davAccountId := some t.davAccountId
    collectionId := some t.collectionId
    objectId := some w.objectId
    status := w.status
    reason := none }

/-- The row write of `import_invitation`.

SOURCE: api/invitations.py:323-342 -/
def State.recordImport (s : State I) (i : I) (w : Written) (t : Target) (present : Bool) :
    State I :=
  let rows :=
    if present then
      s.store.intake.update (fun r => decide (r.key = M.msg.key))
        (fun r =>
          { r with
            status := w.status, reason := none, davAccountId := some t.davAccountId,
            collectionId := some t.collectionId, objectId := some w.objectId })
        fun _ => rfl
    else (createIfAbsent s.store.intake (importRow P M w t)).1
  { s.to i .done with store := { s.store with intake := rows } }

/-- A row as another writer, or the server, leaves it. -/
def State.syncObject (s : State I) (objectId : Uuid) (uid : Option String) (data : Calendar)
    (deleted : Bool) : State I :=
  { s with
    store :=
      { s.store with
        objects := s.store.objects.update (fun o => decide (o.id = objectId))
          (fun o => { o with uid := uid, data := data, deleted := deleted }) fun _ => rfl
        fresh := by
          intro o ho
          obtain ⟨o', ho', rfl⟩ := KeyedTable.mem_update.1 ho
          split
          · exact s.store.fresh o' ho'
          · exact s.store.fresh o' ho' } }

def step (s : State I) : Label I → Option (State I)
  | .decide i =>
    match s.phase i with
    | .idle =>
      if M.inv.method ∈ handledMethods then
        some (s.to i (.decided (decideOn P D s.store.objects M.msg M.inv)))
      else none
    | _ => none
  | .gate i =>
    match s.phase i with
    | .decided d => some (s.passGate P M i d)
    | _ => none
  | .write i =>
    match s.phase i with
    | .gated d => some (s.writeEffect P M i d)
    | _ => none
  | .promote i =>
    match s.phase i with
    | .wrote w => some (s.promoteRow M i w)
    | _ => none
  | .find i =>
    match s.phase i with
    | .idle =>
      if importRefused M.inv then none
      else some (s.to i (.found (findByUidAnywhere s.store.objects M.inv.master.uid)))
    | _ => none
  | .importWrite i calendarId =>
    match s.phase i with
    | .found existing => some (s.importObject P D M i existing calendarId)
    | _ => none
  | .check i =>
    match s.phase i with
    | .imported w t => some (s.to i (.checked w t (s.row M).isSome))
    | _ => none
  | .record i =>
    match s.phase i with
    | .checked w t present => some (s.recordImport P M i w t present)
    | _ => none
  | .crash i => some (s.to i .done)
  | .sync objectId uid data deleted => some (s.syncObject objectId uid data deleted)
  | .appear account collection data =>
    some { s with store := s.store.create account collection data }

/-- Nothing has been written for the message yet. -/
def start (store : Store) : State I := { store := store, phase := fun _ => .idle, log := [] }

def system (store : Store) : TransitionSystem (State I) (Label I) where
  init s := s = start store ∧ store.intake.find? M.msg.key = none
  step := step P D M

end

end MailVerdict.Model.IntakeRuns
