import MailVerdict.Computation.TextPatterns
import MailVerdict.Model.PipelineDocument

/-!
# The webhook of a rule

`WebhookSpec` (`webhooks/spec.py`) is a pydantic model: each field is read and checked by itself,
every problem of a field is kept, and the headers are checked after the fields are right. A pattern
is matched from the start of a text, and its dollar also lets a last line feed through.

`urlsplit` is the standard library's; what it asks of a host in brackets or beyond ASCII is
`netlocError`, the text of the exception it raises. A problem is kept by its place and its kind;
pydantic words them.

SOURCE: webhooks/spec.py:26-89
-/

namespace MailVerdict.Model.Webhooks

open MailVerdict.Computation Computation.TextPatterns
open Model.PipelineDocument (Platform Value Fields dictSet)

/-! ## Patterns -/

def isLower (c : Char) : Bool := decide ('a' ≤ c ∧ c ≤ 'z')

def isLetter (c : Char) : Bool := isLower c || decide ('A' ≤ c ∧ c ≤ 'Z')

def isDigit (c : Char) : Bool := decide ('0' ≤ c ∧ c ≤ '9')

def isWordChar (c : Char) : Bool := isLetter c || isDigit c || decide (c = '_')

def isTokenChar (c : Char) : Bool :=
  isLetter c || isDigit c || decide (c ∈ "!#$%&'*+.^_`|~-".toList)

def webhookName (s : String) : Bool :=
  closed (wordOf (fun c => isLower c || isDigit c)
    (fun c => isLower c || isDigit c || decide (c = '_' ∨ c = '-')) 62) s.toList

def headerName (s : String) : Bool := closed (someOf isTokenChar) s.toList

def queryKey (s : String) : Bool :=
  closed (wordOf (fun c => isLetter c || decide (c = '_')) isWordChar 63) s.toList

/-- A reference to a secret at the start of a text. -/
def referenceAt (l : List Char) : Bool :=
  let opening := "\x7b\x7bsecret:".toList
  let rest := l.drop opening.length
  let word := rest.takeWhile isWordChar
  opening.isPrefixOf l && wordOf isLetter isWordChar 63 word &&
    "\x7d\x7d".toList.isPrefixOf (rest.drop word.length)

def referencesSecret (value : String) : Bool := value.toList.tails.any referenceAt

def credentialWords : List String :=
  ["authorization", "token", "key", "secret", "cookie", "password"]

def credentialHeader (name : String) : Bool :=
  credentialWords.any fun word => searchFold word.toList name.toList

def reservedHeaders : List String :=
  ["content-type", "content-length", "host", "transfer-encoding"]

/-- `header.lower()`, of a header whose characters are ASCII. -/
def lowered (s : String) : String := String.ofList (s.toList.map lowerAscii)

/-! ## URLs -/

structure SplitUrl where
  scheme : List Char
  netloc : List Char
  path : List Char
  query : List Char
  fragment : List Char

/-- `l.split(c, 1)`: what is before the first `c`, and what is after it where there is one. -/
def cut (c : Char) (l : List Char) : List Char × Option (List Char) :=
  match l.dropWhile fun d => decide (d ≠ c) with
  | [] => (l, none)
  | _ :: rest => (l.takeWhile fun d => decide (d ≠ c), some rest)

/-- The scheme, in lower case, and the rest; a text without one stays as it is. -/
def cutScheme (url : List Char) : List Char × List Char :=
  match cut ':' url with
  | (c :: scheme, some rest) =>
    if isLetter c && (c :: scheme).all fun d => isLetter d || isDigit d || decide (d ∈ ['+', '-', '.'])
    then ((c :: scheme).map lowerAscii, rest)
    else ([], url)
  | _ => ([], url)

/-- The text between two slashes and the next delimiter, and the rest. -/
def cutNetloc : List Char → List Char × List Char
  | '/' :: '/' :: rest =>
    let inside := fun c : Char => decide (c ∉ ['/', '?', '#'])
    (rest.takeWhile inside, rest.dropWhile inside)
  | url => ([], url)

/-- `urlsplit`: leading spaces and control characters are left out, tabs and line ends anywhere. -/
def urlsplit (value : String) : SplitUrl :=
  let url := (value.toList.dropWhile fun c => decide (c.toNat ≤ 32)).filter fun c =>
    decide (c ∉ ['\t', '\r', '\n'])
  let (scheme, rest) := cutScheme url
  let (netloc, rest) := cutNetloc rest
  let (rest, fragment) := cut '#' rest
  let (path, query) := cut '?' rest
  ⟨scheme, netloc, path, query.getD [], fragment.getD []⟩

/-- The part of a netloc after its last at-sign. -/
def SplitUrl.hostinfo (u : SplitUrl) : List Char :=
  (u.netloc.reverse.takeWhile fun c => decide (c ≠ '@')).reverse

def SplitUrl.userinfo (u : SplitUrl) : Option (List Char) :=
  if '@' ∈ u.netloc then some (u.netloc.take (u.netloc.length - u.hostinfo.length - 1)) else none

/-- `parts.hostname`, in the case it is written in. -/
def SplitUrl.hostname (u : SplitUrl) : List Char :=
  match cut '[' u.hostinfo with
  | (_, some bracketed) => (cut ']' bracketed).1
  | (plain, none) => (cut ':' plain).1

/-- `parts.username or parts.password` -/
def SplitUrl.hasCredentials (u : SplitUrl) : Bool :=
  match u.userinfo with
  | none => false
  | some info => !(cut ':' info).1.isEmpty || ((cut ':' info).2.any fun password => !password.isEmpty)

/-! ## Problems -/

/-- What pydantic finds wrong with a value; `value` is an exception of a validator here. -/
inductive Fault
  | missing
  | stringType
  | dictType
  | modelType
  | literal (expected : List String)
  | extra
  | value (text : String)

structure Problem where
  loc : List String
  fault : Fault

abbrev Checked (α : Type) := Except (List Problem) α

def Checked.problems {α : Type} : Checked α → List Problem
  | .ok _ => []
  | .error l => l

inductive Method
  | post
  | put

def Method.text : Method → String
  | .post => "POST"
  | .put => "PUT"

/-- An accepted spec; its body is the raw message, the one body there is. -/
structure WebhookSpec where
  name : String
  url : String
  method : Method
  headers : List (String × String)
  receivedAtParam : Option String

section Reading

variable {P : Platform}

/-! ### Fields -/

def checkText (key : String) (check : String → Option String) (s : String) : Checked String :=
  match check s with
  | none => .ok s
  | some text => .error [⟨[key], .value text⟩]

/-- A required text with its validator, which answers with what is wrong. -/
def textField (key : String) (check : String → Option String) (fields : Fields P) :
    Checked String :=
  match Json.get? key fields with
  | none => .error [⟨[key], .missing⟩]
  | some (.str s) => checkText key check s
  | some _ => .error [⟨[key], .stringType⟩]

/-- SOURCE: webhooks/spec.py:47-52 -/
def checkName (value : String) : Option String :=
  if webhookName value then none
  else some "name must be lowercase letters, digits, '-' or '_' (max 63)"

variable (netlocError : String → Option String)

/-- SOURCE: webhooks/spec.py:54-64 -/
def checkUrl (value : String) : Option String :=
  let parts := urlsplit value
  match netlocError (String.ofList parts.netloc) with
  | some text => some text
  | none =>
    if String.ofList parts.scheme ∉ ["http", "https"] ∨ parts.hostname.isEmpty = true then
      some "url must be an absolute http or https URL"
    else if parts.hasCredentials then
      some "url must not carry credentials; use a header with a secret"
    else none

/-- SOURCE: webhooks/spec.py:66-71 -/
def checkReceivedAtParam (value : String) : Option String :=
  if queryKey value then none else some "received_at_param must be a plain query parameter name"

def methodField (fields : Fields P) : Checked Method :=
  match Json.get? "method" fields with
  | none => .ok .post
  | some (.str s) =>
    if s = "POST" then .ok .post
    else if s = "PUT" then .ok .put
    else .error [⟨["method"], .literal ["POST", "PUT"]⟩]
  | some _ => .error [⟨["method"], .literal ["POST", "PUT"]⟩]

def bodyField (fields : Fields P) : Checked Unit :=
  match Json.get? "body" fields with
  | none => .ok ()
  | some (.str s) =>
    if s = "raw_message" then .ok () else .error [⟨["body"], .literal ["raw_message"]⟩]
  | some _ => .error [⟨["body"], .literal ["raw_message"]⟩]

def receivedAtParamField (fields : Fields P) : Checked (Option String) :=
  match Json.get? "received_at_param" fields with
  | none => .ok none
  | some .null => .ok none
  | some (.str s) => (checkText "received_at_param" checkReceivedAtParam s).map some
  | some _ => .error [⟨["received_at_param"], .stringType⟩]

/-- A dictionary, from entries written one after another. -/
def dictOf (entries : Fields P) : Fields P := entries.foldl (fun d e => dictSet d e.1 e.2) []

/-- The entries of `dict[str, str]`, each with its own problem. -/
def headerEntries : Fields P → Checked (List (String × String))
  | [] => .ok []
  | (k, .str v) :: rest => (headerEntries rest).map fun l => (k, v) :: l
  | (k, _) :: rest => .error (⟨["headers", k], .stringType⟩ :: (headerEntries rest).problems)

def headersField (fields : Fields P) : Checked (List (String × String)) :=
  match Json.get? "headers" fields with
  | none => .ok []
  | some (.obj entries) => headerEntries (dictOf entries)
  | some _ => .error [⟨["headers"], .dictType⟩]

def fieldNames : List String :=
  ["name", "url", "method", "headers", "received_at_param", "body"]

def extras (fields : Fields P) : List Problem :=
  (fields.filter fun e => decide (e.1 ∉ fieldNames)).map fun e => ⟨[e.1], .extra⟩

/-! ### Headers -/

variable (P) in
def checkHeader (header value : String) : Option String :=
  if !headerName header then some ("invalid header name " ++ P.repr header)
  else if lowered header ∈ reservedHeaders then
    some ("header " ++ P.repr header ++ " is set by the delivery itself")
  else if decide ('\r' ∈ value.toList) || decide ('\n' ∈ value.toList) then
    some ("header " ++ P.repr header ++ " has a line break in its value")
  else if credentialHeader header && !referencesSecret value then
    some ("header " ++ P.repr header ++ " looks like a credential and must reference a " ++
      "stored secret as \x7b\x7bsecret:NAME\x7d\x7d")
  else none

variable (P) in
/-- The first header with a problem raises.
SOURCE: webhooks/spec.py:73-89 -/
def checkHeaders (spec : WebhookSpec) : Checked WebhookSpec :=
  match spec.headers.findSome? fun h => checkHeader P h.1 h.2 with
  | none => .ok spec
  | some text => .error [⟨[], .value text⟩]

/-! ### The model -/

/-- `WebhookSpec.model_validate` of a dictionary. -/
def validateFields (fields : Fields P) : Checked WebhookSpec :=
  let name := textField "name" checkName fields
  let url := textField "url" (checkUrl netlocError) fields
  let method := methodField fields
  let headers := headersField fields
  let param := receivedAtParamField fields
  let body := bodyField fields
  match name, url, method, headers, param, body, extras fields with
  | .ok n, .ok u, .ok m, .ok h, .ok p, .ok _, [] => checkHeaders P ⟨n, u, m, h, p⟩
  | name, url, method, headers, param, body, extra =>
    .error (name.problems ++ url.problems ++ method.problems ++ headers.problems ++
      param.problems ++ body.problems ++ extra)

def modelValidate (value : Value P) : Checked WebhookSpec :=
  match value with
  | .obj fields => validateFields netlocError fields
  | _ => .error [⟨[], .modelType⟩]

end Reading

end MailVerdict.Model.Webhooks
