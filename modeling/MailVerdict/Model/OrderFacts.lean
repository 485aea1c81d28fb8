import Mathlib.Data.List.Sort
import MailVerdict.Model.Identifiers

/-!
# The key facts of an order

What a write call stores: identifier facts are added and relabelled, never deleted; display
facts are replaced; every barcode of the order's documents has one code fact. `order_facts` is
the order's rows, kept distinct by two partial unique indexes, one over the normalised number
and one over the barcode; a row's position is renumbered at the end.

The facts of other orders are those a number is looked up in. The kinds, labels and values of a
call were validated by `validate_write_response`.
-/

namespace MailVerdict.Model.OrderFacts

open Model.Identifiers

abbrev Uuid := ℕ

abbrev Time := ℕ

/-- `IDENTIFIER_FACT_KINDS`. SOURCE: orders/repository.py:54-56 -/
inductive IdentifierKind
  | orderNumber
  | bookingCode
  | ticketNumber
  | invoiceNumber
  | trackingNumber
deriving DecidableEq

/-- `DISPLAY_FACT_KINDS`. SOURCE: orders/facts.py:36 -/
inductive DisplayKind
  | date
  | time
  | amount
  | place
  | seat
  | person
  | link
  | other
deriving DecidableEq

/-- `FACT_KINDS`. SOURCE: orders/prompts.py:246-249 -/
inductive FactKind
  | identifier (kind : IdentifierKind)
  | display (kind : DisplayKind)
  | code
deriving DecidableEq

/-- Who stated a fact. SOURCE: database/models.py:2070 -/
inductive Source
  | ai
  | code
  | user
deriving DecidableEq

/-- A barcode of a document: the document and the barcode's index in it. -/
abbrev BarcodeKey := Uuid × ℤ

/-- A row of `order_facts`. SOURCE: database/models.py:2030-2061 -/
structure OrderFact where
  id : Uuid
  kind : FactKind
  label : Text
  value : Text
  valueNorm : Option Text
  carrier : Option Text
  barcode : Option BarcodeKey
  dateValue : Option Text
  position : ℕ
  source : Source
  createdAt : Time
deriving DecidableEq

/-- What the write call's answer holds for one fact. -/
structure RawFact where
  kind : FactKind
  label : Text
  value : Text
  carrier : Text
  codeRef : Text

/-- SOURCE: orders/facts.py:43-49 -/
structure WrittenFact where
  kind : FactKind
  label : Text
  value : Text
  carrier : Option Text
  codeRef : Option Text

/-- A number another order holds. SOURCE: orders/repository.py:178-188 -/
structure HeldNumber where
  valueNorm : Text
  lastActivityAt : Option Time
  isSealed : Bool

/-- What a call reads besides the order's facts: the barcodes of its documents with what they
show, the numbers of other orders, the clock. -/
structure Surroundings where
  barcodes : List (BarcodeKey × Option Text)
  others : List HeldNumber
  now : Time

/-- The order's rows, and the next id `uuid4` gives. -/
structure Store where
  facts : List OrderFact
  nextId : Uuid

/-- `_MAX_LABEL_CHARS`, `_MAX_VALUE_CHARS`. SOURCE: orders/facts.py:38-39 -/
def maxLabelChars : ℕ := 30

def maxValueChars : ℕ := 160

/-- `MAX_FACTS`. SOURCE: orders/prompts.py:252 -/
def maxFacts : ℕ := 12

def identifierWindow : ℕ := 365 * 86400

/-- `_DEFAULT_CODE_LABEL`. SOURCE: orders/facts.py:40 -/
def defaultCodeLabel : Text := "Code".toList

/-- `_IDENTIFIER_LABELS`. SOURCE: orders/repository.py:57-61 -/
def identifierLabel : IdentifierKind → Text
  | .orderNumber => "Order number".toList
  | .bookingCode => "Booking code".toList
  | .ticketNumber => "Ticket number".toList
  | .invoiceNumber => "Invoice number".toList
  | .trackingNumber => "Tracking number".toList

/-- The keys of `CARRIERS`. SOURCE: orders/carriers.py:22-53 -/
def carriers : List String :=
  ["dhl", "dhl_express", "deutsche_post", "dpd", "hermes", "gls", "ups", "fedex", "tnt", "postnl",
    "bpost", "amazon", "other"]

/-- `_clean`. SOURCE: orders/facts.py:52-53 -/
def clean (value : Text) (limit : ℕ) : Text :=
  (strip (value.filter fun c => decide (c ≠ '\x00'))).take limit

/-- One fact of the answer, cleaned; without a value it is kept only as a code. -/
def parseFact (item : RawFact) : Option WrittenFact :=
  let value := clean item.value maxValueChars
  let codeRef := clean item.codeRef 20
  if value = [] ∧ item.kind ≠ .code then none
  else some ⟨item.kind, clean item.label maxLabelChars, value,
    if carriers.any fun name => decide (name.toList = item.carrier) then some item.carrier else none,
    if codeRef = [] then none else some codeRef⟩

/-- `parse_written_facts`. SOURCE: orders/facts.py:56-75 -/
def parseWrittenFacts (raw : List RawFact) : List WrittenFact :=
  (raw.filterMap parseFact).take maxFacts

/-- `date.fromisoformat(value[:10])`, kept as the text of the date. -/
def dateValue (isDate : Text → Bool) (value : Text) : Option Text :=
  if isDate (value.take 10) then some (value.take 10) else none

section
variable (upper : Char → Text) (isDate : Text → Bool) (env : Surroundings)

/-- `coalesce(max(position) + 1, 0)`. -/
def nextPosition (facts : List OrderFact) : ℕ :=
  ((facts.map OrderFact.position).max?.map (· + 1)).getD 0

/-- Whether an order that still takes mail, active within the window, holds the number. -/
def heldElsewhere (valueNorm : Text) : Bool :=
  env.others.any fun h => decide (h.valueNorm = valueNorm) && !h.isSealed &&
    h.lastActivityAt.any fun t => decide (env.now ≤ t + identifierWindow)

/-- The normalised number an identifier fact is stored under, unless it is refused. -/
def storedNumber (fact : WrittenFact) : Option Text :=
  match fact.kind with
  | .identifier _ =>
    let valueNorm := normalizeIdentifier upper (strip fact.value)
    if isValidIdentifier upper fact.value && !heldElsewhere env valueNorm then some valueNorm
    else none
  | _ => none

/-- `INSERT ... ON CONFLICT DO UPDATE ... RETURNING id` on an index that `hit` tells the rows of:
the row there is updated, or the new one is inserted under the next id. -/
def upsert (s : Store) (hit : OrderFact → Bool) (update : OrderFact → OrderFact)
    (new : OrderFact) : Store × Uuid :=
  match s.facts.find? hit with
  | some held => ({ s with facts := s.facts.map fun f => if hit f then update f else f }, held.id)
  | none => (⟨s.facts ++ [new], s.nextId + 1⟩, new.id)

def shownLabel (kind : IdentifierKind) (label : Text) : Text :=
  if label = [] then identifierLabel kind else label

/-- The row of a number that is new to the order. -/
def identifierRow (s : Store) (kind : IdentifierKind) (value valueNorm label : Text)
    (carrier : Option Text) : OrderFact :=
  ⟨s.nextId, .identifier kind, shownLabel kind label, strip value, some valueNorm, carrier, none,
    none, nextPosition s.facts, .ai, env.now⟩

def codeRow (s : Store) (key : BarcodeKey) (label value : Text) (source : Source) : OrderFact :=
  ⟨s.nextId, .code, label, value, none, none, some key, none, nextPosition s.facts, source,
    env.now⟩

/-- `upsert_identifier_fact` with `update_existing`, for a number that is not refused: a row of
the number takes the kind, the label and the carrier and keeps the rest.
SOURCE: orders/repository.py:153-215 -/
def upsertIdentifierFact (s : Store) (kind : IdentifierKind) (value valueNorm label : Text)
    (carrier : Option Text) : Store × Uuid :=
  upsert s (fun f => decide (f.valueNorm = some valueNorm))
    (fun f => { f with
      kind := .identifier kind
      label := shownLabel kind label
      carrier := carrier })
    (identifierRow env s kind value valueNorm label carrier)

/-- `_upsert_code_fact`: a row of the barcode takes the label, the value and the source.
SOURCE: orders/facts.py:103-122 -/
def upsertCodeFact (s : Store) (key : BarcodeKey) (label value : Text) (source : Source) :
    Store × Uuid :=
  upsert s (fun f => decide (f.barcode = some key))
    (fun f => { f with label := label, value := value, source := source })
    (codeRow env s key label value source)

/-- The rows of kind code whose barcode is gone. -/
def stale (f : OrderFact) : Bool :=
  decide (f.kind = .code) && !(f.barcode.any fun key => env.barcodes.any fun b => decide (b.1 = key))

/-- What a barcode shows: the last entry of its key, as in a dict. -/
def shownOf (key : BarcodeKey) : Option Text :=
  ((env.barcodes.filter fun b => decide (b.1 = key)).getLast?.bind Prod.snd)

/-- The barcodes without a code fact, in the order the facts are made. -/
def missingBarcodes (facts : List OrderFact) : List BarcodeKey :=
  ((env.barcodes.map Prod.fst).eraseDups.insertionSort fun a b =>
      a.1 < b.1 ∨ (a.1 = b.1 ∧ a.2 ≤ b.2)).filter fun key =>
    !facts.any fun f => decide (f.kind = .code) && decide (f.barcode = some key)

/-- `reconcile_code_facts`. SOURCE: orders/facts.py:125-152 -/
def reconcileCodeFacts (s : Store) : Store :=
  let kept : Store := { s with facts := s.facts.filter fun f => !stale env f }
  (missingBarcodes env s.facts).foldl (fun s key =>
    (upsertCodeFact env s key defaultCodeLabel (clean ((shownOf env key).getD []) maxValueChars)
      .code).1) kept

/-- What the loop over a call's facts keeps: the rows, the ids it stated, the display facts it
has stored. -/
structure Writing where
  store : Store
  stated : List Uuid
  seenDisplay : List (DisplayKind × Text)

/-- The display kind a fact is shown as, where it is no code and no plausible identifier. -/
def shownKind (fact : WrittenFact) : Option DisplayKind :=
  match fact.kind with
  | .identifier _ => if isValidIdentifier upper fact.value then none else some .other
  | .display kind => some kind
  | .code => none

def shownCarrier (kind : IdentifierKind) (fact : WrittenFact) : Option Text :=
  if kind = .trackingNumber then fact.carrier else none

def storedBarcode (codeMap : List (Text × BarcodeKey)) (fact : WrittenFact) : Option BarcodeKey :=
  (codeMap.lookup (fact.codeRef.getD [])).filter fun key =>
    env.barcodes.any fun b => decide (b.1 = key)

/-- One fact of the call. SOURCE: orders/facts.py:177-206 -/
def writeFact (codeMap : List (Text × BarcodeKey)) (w : Writing) (fact : WrittenFact) : Writing :=
  match shownKind upper fact with
  | some kind =>
    if (w.seenDisplay.any fun d => decide (d = (kind, fact.value))) || decide (fact.label = []) then w
    else
      { store := ⟨w.store.facts ++ [⟨w.store.nextId, .display kind, fact.label, fact.value, none,
          none, none, if kind = .date then dateValue isDate fact.value else none, 0, .ai,
          env.now⟩], w.store.nextId + 1⟩
        stated := w.stated ++ [w.store.nextId]
        seenDisplay := w.seenDisplay ++ [(kind, fact.value)] }
  | none =>
    match fact.kind with
    | .identifier kind =>
      match storedNumber upper env fact with
      | some valueNorm =>
        let (store, id) := upsertIdentifierFact env w.store kind fact.value valueNorm fact.label
          (shownCarrier kind fact)
        { w with store := store, stated := w.stated ++ [id] }
      | none => w
    | _ =>
      match storedBarcode env codeMap fact with
      | some key =>
        let (store, id) := upsertCodeFact env w.store key
          (if fact.label = [] then defaultCodeLabel else fact.label) fact.value .ai
        { w with store := store, stated := w.stated ++ [id] }
      | none => w

/-- The display facts that are not the user's. -/
def replaced (f : OrderFact) : Bool :=
  (match f.kind with
    | .display _ => true
    | _ => false) && decide (f.source ≠ .user)

/-- The order of the rows no fact of the call stated. -/
def restBefore (f g : OrderFact) : Prop :=
  f.position < g.position ∨ (f.position = g.position ∧
    (f.createdAt < g.createdAt ∨ (f.createdAt = g.createdAt ∧ f.id ≤ g.id)))

instance (f g : OrderFact) : Decidable (restBefore f g) := by
  unfold restBefore
  infer_instance

/-- `list(dict.fromkeys(stated))`, then the other rows. -/
def ordering (facts : List OrderFact) (stated : List Uuid) : List Uuid :=
  stated.eraseDups ++
    ((facts.filter fun f => decide (f.id ∉ stated)).insertionSort restBefore).map OrderFact.id

/-- `_order_facts`. SOURCE: orders/facts.py:211-231 -/
def orderFacts (s : Store) (stated : List Uuid) : Store :=
  { s with facts := s.facts.map fun f =>
      if f.id ∈ ordering s.facts stated then
        { f with position := (ordering s.facts stated).idxOf f.id }
      else f }

/-- The call's facts, one after the other, over the rows without the replaced ones. -/
def writeFacts (codeMap : List (Text × BarcodeKey)) (s : Store) (facts : List WrittenFact) :
    Writing :=
  facts.foldl (writeFact upper isDate env codeMap)
    ⟨{ s with facts := s.facts.filter fun f => !replaced f }, [], []⟩

/-- `apply_written_facts`. SOURCE: orders/facts.py:155-208 -/
def applyWrittenFacts (codeMap : List (Text × BarcodeKey)) (s : Store) (facts : List WrittenFact) :
    Store :=
  let w := writeFacts upper isDate env codeMap s facts
  orderFacts (reconcileCodeFacts env w.store) w.stated

end

end MailVerdict.Model.OrderFacts
