import MailVerdict.Model.CardPhotos

/-!
# Contact pages and groups

`api/contacts.py` and `search_contacts`: the paged list of contacts and the groups offered beside
it. `ilike` is the text search of the database; `answer` is the order in which it lists the
matching rows, query by query. A cursor is its offset. vobject's reading of a CATEGORIES line is
that of RFC 6350.
-/

namespace MailVerdict.Model.ContactPages

open Model.Identifiers Model.CardPhotos

/-! ## Cards -/

section Cards

variable (upper lower : Text → Text)

def contentLines (data : Text) : List ContentLine :=
  (unfoldLines data).filterMap (splitContentLine upper)

/-- `is_group`. SOURCE: calendar/vcard.py:140-154 -/
def isGroup (data : Text) : Bool :=
  match (contentLines upper data).find? fun c => decide (c.name = "KIND".toList) with
  | some content => decide (lower (strip content.value) = "group".toList)
  | none => false

/-- `detect_categories`. SOURCE: calendar/vcard.py:251-272 -/
def detectCategories (data : Text) : List Text :=
  (contentLines upper data).flatMap fun content =>
    if content.name = "CATEGORIES".toList then
      ((content.value.splitOn ',').map strip).filter (· ≠ [])
    else []

/-- `detect_group_members`. SOURCE: calendar/vcard.py:275-293 -/
def detectGroupMembers (data : Text) : List Text :=
  (contentLines upper data).filterMap fun content =>
    if content.name = "MEMBER".toList ∨ content.name = "X-ADDRESSBOOKSERVER-MEMBER".toList then
      let value := strip content.value
      if "urn:uuid:".toList.isPrefixOf (lower value) then some (value.drop 9) else none
    else none

/-- The values of a text list: commas part them unless a backslash stands before.
SOURCE: RFC 6350, 3.4 and 4.1 -/
def textValues : Text → Text → List Text
  | current, [] => [current]
  | current, '\\' :: c :: rest =>
    textValues (current ++ [if c = 'n' ∨ c = 'N' then '\n' else c]) rest
  | current, c :: rest =>
    if c = ',' then current :: textValues [] rest else textValues (current ++ [c]) rest

/-- The value of a content line: what follows the first colon that is in no quoted parameter value.
SOURCE: RFC 6350, 3.3 -/
def valueAfter (quoted : Bool) : Text → Option Text
  | [] => none
  | c :: rest =>
    if c = '"' then valueAfter (!quoted) rest
    else if c = ':' ∧ quoted = false then some rest
    else valueAfter quoted rest

/-- The categories of `parse_contact`: vobject's `card.categories` is the first such line. A line's
name stands before its parameters, so that both readers have the same.
SOURCE: calendar/vcard.py:427-430 -/
def categories (data : Text) : List Text :=
  let first := (unfoldLines data).findSome? fun line =>
    if (splitContentLine upper line).any fun content =>
      decide (content.name = "CATEGORIES".toList) then valueAfter false line else none
  match first with
  | some value => textValues [] value
  | none => []

/-- A colon in quotes. -/
example : categories id "CATEGORIES;X-A=\"1:2\":Friends".toList = ["Friends".toList] ∧
    detectCategories id "CATEGORIES;X-A=\"1:2\":Friends".toList = ["2\":Friends".toList] := by
  decide

end Cards

/-! ## The list -/

structure DavObject where
  id : ℕ
  collectionId : ℕ
  isAddressbook : Bool
  deleted : Bool
  uid : Option Text
  summary : Option Text
  data : Text
deriving DecidableEq

inductive Group
  | groupCard (id : ℕ)
  | category (name : Text)

section List

variable (upper lower : Text → Text) (ilike : Text → DavObject → Bool)

structure Scope where
  addressbookIds : Option (List ℕ)
  q : Option Text
  uidIn : Option (List Text)
  category : Option Text

/-- The parameters of `list_contacts`; without rows to read there is no scope.
SOURCE: api/contacts.py:167-188 -/
def scopeOf (objects : List DavObject) (addressbookId : Option ℕ) (q : Option Text) :
    Option Group → Option Scope
  | none => some ⟨addressbookId.map ([·]), q, none, none⟩
  | some (.category name) => some ⟨addressbookId.map ([·]), q, none, some name⟩
  | some (.groupCard id) =>
    match objects.find? fun o => decide (o.id = id) with
    | none => none
    | some card =>
      let members := detectGroupMembers upper lower card.data
      if card.deleted = true ∨ members = [] then none
      else some ⟨some [addressbookId.getD card.collectionId], q, some members, none⟩

/-- The `WHERE` of `search_contacts`. -/
def Scope.selects (scope : Scope) (o : DavObject) : Bool :=
  o.isAddressbook && !o.deleted &&
    (match scope.addressbookIds with | none => true | some ids => ids.contains o.collectionId) &&
    (match scope.uidIn, o.uid with
      | none, _ => true
      | some _, none => false
      | some uids, some uid => uids.contains uid) &&
    (match scope.q with | none | some [] => true | some query => ilike query o)

/-- What `_parse_page` and the category filter leave on a page. -/
def Scope.shows (scope : Scope) (o : DavObject) : Bool :=
  !isGroup upper lower o.data &&
    (match scope.category with | none => true | some name => (categories upper o.data).contains name)

/-- `search_contacts` on the rows as the database lists them.
SOURCE: calendar/repository.py:290-313 -/
def searchContacts (rows : List DavObject) (limit offset : ℕ) : List DavObject × Bool :=
  let found := (rows.drop offset).take (limit + 1)
  (found.take limit, decide (limit < found.length))

structure Page where
  contacts : List DavObject
  hasMore : Bool
  scanned : ℕ
  queries : ℕ

/-- The loop of `list_contacts`. A round reads a row or is the last, so there is a round for each
row and one more. SOURCE: api/contacts.py:192-206 -/
def refill (scope : Scope) (answer : ℕ → List DavObject) (limit : ℕ) : ℕ → Page → Page
  | 0, page => page
  | rounds + 1, page =>
    if page.contacts.length < limit then
      let (rows, hasMore) := searchContacts (answer page.queries) (limit - page.contacts.length)
        page.scanned
      if rows = [] then { page with hasMore := hasMore, queries := page.queries + 1 }
      else
        let next : Page := ⟨page.contacts ++ rows.filter (scope.shows upper lower), hasMore,
          page.scanned + rows.length, page.queries + 1⟩
        if hasMore then refill scope answer limit rounds next else next
    else page

/-- `list_contacts` from a cursor, as the query with this number. -/
def listContacts (scope : Scope) (answer : ℕ → List DavObject) (limit cursor query : ℕ) : Page :=
  refill upper lower scope answer limit ((answer query).length + 1) ⟨[], false, cursor, query⟩

def followed (scope : Scope) (answer : ℕ → List DavObject) (limit : ℕ) :
    ℕ → ℕ → ℕ → List DavObject
  | 0, _, _ => []
  | pages + 1, cursor, query =>
    let page := listContacts upper lower scope answer limit cursor query
    page.contacts ++
      if page.hasMore then followed scope answer limit pages page.scanned page.queries else []

end List

/-! ## Groups -/

/-- `categories[category] = categories.get(category, 0) + 1` -/
def bump (name : Text) : List (Text × ℕ) → List (Text × ℕ)
  | [] => [(name, 1)]
  | (n, count) :: rest => if n = name then (n, count + 1) :: rest else (n, count) :: bump name rest

section Groups

variable (upper lower : Text → Text)

def scanCard (state : List (Text × ℕ) × List (ℕ × ℕ)) (o : DavObject) :
    List (Text × ℕ) × List (ℕ × ℕ) :=
  if isGroup upper lower o.data then
    (state.1, state.2 ++ [(o.id, (detectGroupMembers upper lower o.data).length)])
  else ((detectCategories upper o.data).foldl (fun found name => bump name found) state.1, state.2)

/-- `_scan_groups_sync`, not cut short: the categories and the group cards with their counts.
SOURCE: api/contacts.py:345-378 -/
def scanGroups (rows : List DavObject) : List (Text × ℕ) × List (ℕ × ℕ) :=
  rows.foldl (scanCard upper lower) ([], [])

/-- `get_contact_groups`: each group with its count; how the entries are named and sorted is left
out. SOURCE: api/contacts.py:399-425, calendar/repository.py:384-405 -/
def contactGroups (objects : List DavObject) (addressbookId : Option ℕ) : List (Group × ℕ) :=
  let (found, cards) := scanGroups upper lower (objects.filter fun o => o.isAddressbook &&
    !o.deleted && (match addressbookId with | none => true | some id => decide (o.collectionId = id)))
  found.map (fun (name, count) => (.category name, count)) ++
    cards.map fun (id, count) => (.groupCard id, count)

end Groups

end MailVerdict.Model.ContactPages
