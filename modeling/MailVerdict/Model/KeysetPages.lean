import MailVerdict.Computation.KeyedTable
import MailVerdict.Computation.KeysetPaging

/-!
# Pages of messages and orders

The list endpoints page by a cursor: the id of a row of the last page, looked up again with the
next request. The predicates for the rows behind it and in front of it are `core/cursor.py`'s,
the pages of a message list `api/mails.py`'s (flat, or one row a conversation, from an end or
around a message), search's are `database/repository.py`'s and the orders' `api/orders.py`'s.

An `Entity` is the table a message list queries: messages, glacier messages, or their union. What
a row shows beyond the columns used here, `as_of` and search's fallback for an empty first page
are left out. Whether an order matches a token of `q` is decided by the database's trigram
operators and is a parameter.
-/

namespace MailVerdict.Model.KeysetPages

open MailVerdict.Computation Computation.SqlQuery

abbrev Uuid := ℕ

abbrev Time := ℕ

structure HttpError where
  status : ℕ
  detail : String

/-! ## The predicates -/

/-- The rows after a cursor in `received_at DESC, id DESC`.
SOURCE: core/cursor.py:33-85 -/
def afterCursor (receivedAt : Option Time) (id : Uuid) (cursorReceivedAt : Option Time)
    (cursorId : Uuid) (nullsLast : Bool) : SqlTruth :=
  match cursorReceivedAt with
  | none =>
    if nullsLast then
      (SqlTruth.isNull receivedAt).and (SqlTruth.lt (some id) (some cursorId))
    else
      ((SqlTruth.isNull receivedAt).and (SqlTruth.lt (some id) (some cursorId))).or
        (SqlTruth.isNotNull receivedAt)
  | some time =>
    let older := SqlTruth.lt receivedAt (some time)
    let tied := (SqlTruth.eq receivedAt (some time)).and (SqlTruth.lt (some id) (some cursorId))
    if nullsLast then (older.or tied).or (SqlTruth.isNull receivedAt)
    else older.or tied

/-- The rows before a cursor in `received_at DESC, id DESC`.
SOURCE: core/cursor.py:88-125 -/
def beforeCursor (receivedAt : Option Time) (id : Uuid) (cursorReceivedAt : Option Time)
    (cursorId : Uuid) : SqlTruth :=
  match cursorReceivedAt with
  | none => (SqlTruth.isNull receivedAt).and (SqlTruth.lt (some cursorId) (some id))
  | some time =>
    ((SqlTruth.isNull receivedAt).or (SqlTruth.lt (some time) receivedAt)).or
      ((SqlTruth.eq receivedAt (some time)).and (SqlTruth.lt (some cursorId) (some id)))

/-- SOURCE: core/cursor.py:128-159 -/
def afterTierCursor (tier : ℕ) (receivedAt : Option Time) (id : Uuid) (cursorTier : ℕ)
    (cursorReceivedAt : Option Time) (cursorId : Uuid) : SqlTruth :=
  (SqlTruth.lt (some cursorTier) (some tier)).or
    ((SqlTruth.eq (some tier) (some cursorTier)).and
      (afterCursor receivedAt id cursorReceivedAt cursorId true))

/-! ## Message lists -/

structure MessageRow where
  id : Uuid
  accountId : Uuid
  folderId : Uuid
  threadId : Uuid
  isSeen : Bool
  receivedAt : Option Time
  expungedAt : Option Time
  visibleAt : Option Time

/-- What a list queries; `glacier` where it is the table of glacier messages alone.
SOURCE: api/mails.py:408-474 -/
structure Entity where
  rows : KeyedTable MessageRow.id
  glacier : Bool

structure ListFilters where
  accountId : Option Uuid
  folderId : Option Uuid
  isSeen : Option Bool
  since : Option Time
  folderScope : Option (List Uuid)

/-- SOURCE: api/mails.py:477-511 -/
def listFilters (e : Entity) (f : ListFilters) (r : MessageRow) : Bool :=
  r.expungedAt.isNone && (!e.glacier || r.visibleAt.isSome) &&
    f.accountId.all (fun a => decide (r.accountId = a)) &&
    f.folderId.all (fun a => decide (r.folderId = a)) &&
    f.folderScope.all (fun scope => decide (r.folderId ∈ scope)) &&
    f.isSeen.all (fun seen => decide (r.isSeen = seen)) &&
    f.since.all fun since => match r.receivedAt with
      | some time => decide (since ≤ time)
      | none => false

/-- A row of a page, with the counts of its conversation in a threaded list. -/
abbrev Summary := MessageRow × Option (ℕ × ℕ)

/-- SOURCE: api/mails.py:349 -/
inductive Paging
  | older
  | newer

/-- `ORDER BY received_at DESC, id DESC`, or the same ascending. -/
def pageOrder : Paging → List (MessageRow → MessageRow → Ordering)
  | .older => [fun a b => desc a.receivedAt b.receivedAt, fun a b => desc (some a.id) (some b.id)]
  | .newer => [fun a b => asc a.receivedAt b.receivedAt, fun a b => asc (some a.id) (some b.id)]

def pastCursor (paging : Paging) (cursor : Option MessageRow) (r : MessageRow) : Bool :=
  cursor.all fun c => match paging with
    | .older => (afterCursor r.receivedAt r.id c.receivedAt c.id false).holds
    | .newer => (beforeCursor r.receivedAt r.id c.receivedAt c.id).holds

/-- SOURCE: api/mails.py:685-738 -/
def listMessagesFlatPage (e : Entity) (f : ListFilters) (cursor : Option MessageRow) (limit : ℕ)
    (paging : Paging) : List Summary :=
  ((select (fun r => listFilters e f r && pastCursor paging cursor r) (pageOrder paging)
    e.rows.rows).take (limit + 1)).map fun r => (r, none)

/-- `ORDER BY thread_id, received_at DESC, id DESC`. -/
def threadOrder : List (MessageRow → MessageRow → Ordering) :=
  (fun a b => asc (some a.threadId) (some b.threadId)) :: pageOrder .older

/-- `SELECT DISTINCT ON (thread_id)`.
SOURCE: api/mails.py:793-799 -/
def latestPerThread (e : Entity) (f : ListFilters) : List MessageRow :=
  distinctOn MessageRow.threadId (select (listFilters e f) threadOrder e.rows.rows)

/-- The counts of a conversation within the list.
SOURCE: api/mails.py:801-810 -/
def threadStats (e : Entity) (f : ListFilters) (threadId : Uuid) : ℕ × ℕ :=
  let members := e.rows.rows.filter fun r => listFilters e f r && decide (r.threadId = threadId)
  (members.length, (members.filter fun r => !r.isSeen).length)

/-- SOURCE: api/mails.py:741-839 -/
def listMessagesThreaded (e : Entity) (f : ListFilters) (cursor : Option MessageRow) (limit : ℕ)
    (paging : Paging) : List Summary :=
  ((select (pastCursor paging cursor) (pageOrder paging) (latestPerThread e f)).take
    (limit + 1)).map fun r => (r, some (threadStats e f r.threadId))

def listPage (threaded : Bool) : Entity → ListFilters → Option MessageRow → ℕ → Paging →
    List Summary :=
  if threaded then listMessagesThreaded else listMessagesFlatPage

structure MessageListResponse where
  messages : List Summary
  hasMore : Bool
  nextCursor : Option Uuid
  hasMoreNewer : Bool
  prevCursor : Option Uuid

/-- The cursors of a page: its ends, where rows follow. -/
def response (messages : List Summary) (hasMore hasMoreNewer : Bool) : MessageListResponse where
  messages := messages
  hasMore := hasMore
  nextCursor := if hasMore then messages.getLast?.map fun m => m.1.id else none
  hasMoreNewer := hasMoreNewer
  prevCursor := if hasMoreNewer then messages.head?.map fun m => m.1.id else none

/-- SOURCE: api/mails.py:604-625 -/
def resolveAroundFlat (e : Entity) (f : ListFilters) (around : Uuid) : Option Summary :=
  ((e.rows.find? around).filter (listFilters e f)).map fun r => (r, none)

/-- SOURCE: api/mails.py:628-682 -/
def resolveAroundThreaded (e : Entity) (f : ListFilters) (around : Uuid) : Option Summary :=
  ((e.rows.find? around).filter (listFilters e ⟨f.accountId, none, none, none, none⟩)).bind
    fun r => (select (fun x => listFilters e f x && decide (x.threadId = r.threadId))
      (pageOrder .older) e.rows.rows).head?.map fun x => (x, some (threadStats e f r.threadId))

/-- A page centred on a message: of what its row leaves of the limit half is older and the rest
newer.
SOURCE: api/mails.py:514-601 -/
def listMessagesAround (e : Entity) (f : ListFilters) (threaded : Bool) (around : Uuid)
    (limit : ℕ) : Except HttpError MessageListResponse :=
  match if threaded then resolveAroundThreaded e f around else resolveAroundFlat e f around with
  | none => .error ⟨404, s!"Message {around} is not a member of this list"⟩
  | some target =>
    let remaining := limit - 1
    let halfOlder := remaining / 2
    let halfNewer := remaining - halfOlder
    let older := listPage threaded e f (some target.1) halfOlder .older
    let newer := listPage threaded e f (some target.1) halfNewer .newer
    .ok (response ((newer.take halfNewer).reverse ++ target :: older.take halfOlder)
      (decide (halfOlder < older.length)) (decide (halfNewer < newer.length)))

/-- SOURCE: api/mails.py:321-405 -/
def readMessagePage (e : Entity) (f : ListFilters) (threaded : Bool)
    (before after around : Option Uuid) (limit : ℕ) : Except HttpError MessageListResponse :=
  let paging : Paging := if after.isSome then .newer else .older
  let page (cursor : Option MessageRow) : MessageListResponse :=
    let rows := listPage threaded e f cursor limit paging
    let overflow := decide (limit < rows.length)
    match paging with
    | .older => response (rows.take limit) overflow false
    | .newer => response (rows.take limit).reverse false overflow
  match around with
  | some target =>
    if before.isSome || after.isSome then
      .error ⟨400, "around is mutually exclusive with before/after"⟩
    else listMessagesAround e f threaded target limit
  | none =>
    match after.or before with
    | none => .ok (page none)
    | some cursor =>
      match e.rows.find? cursor with
      | none => .error ⟨400, s!"Invalid cursor: message {cursor} not found"⟩
      | some row => .ok (page (some row))

/-- The pages of a list from a cursor on, each older than the last. -/
def followOlder (e : Entity) (f : ListFilters) (threaded : Bool) (limit : ℕ) :
    ℕ → Option Uuid → Option (List Summary) :=
  KeysetPaging.follow (fun page rest => page ++ rest) fun before =>
    (readMessagePage e f threaded before none none limit).toOption.map fun page =>
      (page.messages, page.nextCursor)

/-- The pages of a list from a cursor up, each newer than the last and put above it. -/
def followNewer (e : Entity) (f : ListFilters) (threaded : Bool) (limit : ℕ) :
    ℕ → Option Uuid → Option (List Summary) :=
  KeysetPaging.follow (fun page rest => rest ++ page) fun after =>
    (readMessagePage e f threaded none after none limit).toOption.map fun page =>
      (page.messages, page.prevCursor)

/-! ## Search -/

/-- `ORDER BY tier, received_at DESC NULLS LAST, id DESC`. -/
def searchOrder (tier : MessageRow → ℕ) : List (MessageRow → MessageRow → Ordering) :=
  [fun a b => asc (some (tier a)) (some (tier b)),
    fun a b => descNullsLast a.receivedAt b.receivedAt, fun a b => desc (some a.id) (some b.id)]

/-- The pages of a search from a cursor on.
SOURCE: database/repository.py:885-997; api/search.py:135-196 -/
def followSearch (tier : MessageRow → ℕ) (matching : MessageRow → Bool)
    (rows : KeyedTable MessageRow.id) (limit : ℕ) : ℕ → Option Uuid → Option (List MessageRow) :=
  KeysetPaging.follow (fun page rest => page ++ rest) (KeysetPaging.fetchAt rows.find?
    (KeysetPaging.queryPage matching
      (fun c r => (afterTierCursor (tier r) r.receivedAt r.id (tier c) c.receivedAt c.id).holds)
      (searchOrder tier) rows.rows limit MessageRow.id))

/-- `ORDER BY received_at DESC [NULLS LAST], id DESC`. -/
def cursorOrder (nullsLast : Bool) : List (MessageRow → MessageRow → Ordering) :=
  [fun a b => if nullsLast then descNullsLast a.receivedAt b.receivedAt
    else desc a.receivedAt b.receivedAt, fun a b => desc (some a.id) (some b.id)]

/-- The pages by `after_cursor`, in either of its orders. -/
def followCursor (nullsLast : Bool) (rows : KeyedTable MessageRow.id) (limit : ℕ) :
    ℕ → Option Uuid → Option (List MessageRow) :=
  KeysetPaging.follow (fun page rest => page ++ rest) (KeysetPaging.fetchAt rows.find?
    (KeysetPaging.queryPage (fun _ => true)
      (fun c r => (afterCursor r.receivedAt r.id c.receivedAt c.id nullsLast).holds)
      (cursorOrder nullsLast) rows.rows limit MessageRow.id))

/-! ## Orders -/

abbrev Date := ℕ

def utcDate (time : Time) : Date := time / 86400000000

inductive OrderKind
  | ticket
  | order
  | other
deriving DecidableEq

structure Order where
  id : Uuid
  isOpen : Bool
  isFavorite : Bool
  kind : OrderKind
  writtenAt : Option Time
  eventStart : Option Date
  firstActivityAt : Option Time
  lastActivityAt : Option Time

inductive OrderSort
  | activity
  | event

/-- `TIMELINE_DATE`, or the last activity.
SOURCE: api/orders.py:88-90, 213 -/
def sortValue (sort : OrderSort) (o : Order) : Option ℕ :=
  match sort with
  | .event => o.eventStart.or (o.firstActivityAt.map utcDate)
  | .activity => o.lastActivityAt

structure OrderFilters where
  openOnly : Bool
  favorites : Bool
  kind : Option OrderKind
  tokens : List String

/-- SOURCE: api/orders.py:226-239 -/
def orderFilters (matchesToken : String → Order → Bool) (f : OrderFilters) (o : Order) : Bool :=
  o.writtenAt.isSome && (!f.openOnly || o.isOpen) && (!f.favorites || o.isFavorite) &&
    f.kind.all (fun k => decide (o.kind = k)) && f.tokens.all fun t => matchesToken t o

/-- SOURCE: api/orders.py:240-250 -/
def afterOrder (sort : OrderSort) (o c : Order) : SqlTruth :=
  match sortValue sort c with
  | some value =>
    ((SqlTruth.lt (sortValue sort o) (some value)).or (SqlTruth.isNull (sortValue sort o))).or
      ((SqlTruth.eq (sortValue sort o) (some value)).and (SqlTruth.lt (some o.id) (some c.id)))
  | none => (SqlTruth.isNull (sortValue sort o)).and (SqlTruth.lt (some o.id) (some c.id))

structure OrderListResponse where
  items : List Order
  hasMore : Bool
  nextCursor : Option Uuid

/-- The sort value descending with NULL last, then the id. -/
def orderTerms (sort : OrderSort) : List (Order → Order → Ordering) :=
  [fun a b => descNullsLast (sortValue sort a) (sortValue sort b),
    fun a b => desc (some a.id) (some b.id)]

/-- SOURCE: api/orders.py:192-263 -/
def listOrders (matchesToken : String → Order → Bool) (orders : KeyedTable Order.id)
    (f : OrderFilters) (sort : OrderSort) (before : Option Uuid) (limit : ℕ) :
    Except HttpError OrderListResponse :=
  let page (cursor : Option Order) : OrderListResponse :=
    let rows := (select (fun o => orderFilters matchesToken f o &&
        cursor.all fun c => (afterOrder sort o c).holds)
      (orderTerms sort) orders.rows).take (limit + 1)
    let hasMore := decide (limit < rows.length)
    let items := rows.take limit
    ⟨items, hasMore, if hasMore then items.getLast?.map Order.id else none⟩
  match before with
  | none => .ok (page none)
  | some cursor =>
    match orders.find? cursor with
    | none => .error ⟨400, s!"Invalid cursor: order {cursor} not found"⟩
    | some row => .ok (page (some row))

/-- The pages of the list of orders from a cursor on. -/
def followOrders (matchesToken : String → Order → Bool) (orders : KeyedTable Order.id)
    (f : OrderFilters) (sort : OrderSort) (limit : ℕ) : ℕ → Option Uuid → Option (List Order) :=
  KeysetPaging.follow (fun page rest => page ++ rest) fun before =>
    (listOrders matchesToken orders f sort before limit).toOption.map fun page =>
      (page.items, page.nextCursor)

end MailVerdict.Model.KeysetPages
