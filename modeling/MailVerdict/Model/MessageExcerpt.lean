import MailVerdict.Computation.TextPatterns

/-!
# The excerpt a stage sees

`load_message_view` (`pipeline/message_view.py`) cuts the body of a message to an excerpt and
appends the links the excerpt does not show. A text is a list of its characters; a pattern is
compiled with `re.IGNORECASE`.

`_strip_html` calls `nh3.clean`, whose text is not in the repository; it is the parameter
`stripHtml`.

SOURCE: pipeline/message_view.py:36-64, 149-210, 350-360
-/

namespace MailVerdict.Model.MessageExcerpt

open Computation.TextPatterns

/-- The columns of a message the excerpt is made from. -/
structure Message where
  bodyText : Option (List Char)
  bodyHtml : Option (List Char)

def bodyExcerptChars : ℕ := 4000

def maxUrls : ℕ := 20

def trailingPunctuation : List Char :=
  ['.', ',', ';', ':', '!', '?', ')', ']', '\x7d', '\x27', '\x22']

def isTrailing (c : Char) : Bool := decide (c ∈ trailingPunctuation)

def isQuote (c : Char) : Bool := decide (c = '\x22' ∨ c = '\x27')

/-! ## The patterns -/

/-- The class of `_URL_RE` after the two slashes. -/
def urlChar (c : Char) : Bool :=
  !isSpace c && decide (c ∉ ['<', '>', '\x22', '\x27', ')', ']'])

/-- The length of `https?://` at the start of a text. -/
def urlHead (text : List Char) : Option ℕ :=
  if startsWithFold ['h', 't', 't', 'p', 's', ':', '/', '/'] text then some 8
  else if startsWithFold ['h', 't', 't', 'p', ':', '/', '/'] text then some 7
  else none

/-- `_URL_RE` at the start of a text. -/
def scanUrl (text : List Char) : Option (List Char × ℕ) :=
  match urlHead text with
  | none => none
  | some n =>
    match (text.drop n).takeWhile urlChar with
    | [] => none
    | c :: more => some (text.take n ++ c :: more, n + (c :: more).length)

/-- `\s*=\s*` and a quote, then what is in quotes, as the rest of `_HREF_RE` has it: what was in
quotes and how much was read. -/
def scanQuoted (text : List Char) : Option (List Char × ℕ) :=
  let before := text.takeWhile isSpace
  match text.drop before.length with
  | '=' :: afterSign =>
    let between := afterSign.takeWhile isSpace
    match afterSign.drop between.length with
    | quote :: rest =>
      let inside := rest.takeWhile fun c => !isQuote c
      if isQuote quote && !inside.isEmpty && !(rest.drop inside.length).isEmpty then
        some (inside, before.length + 1 + between.length + 1 + inside.length + 1)
      else none
    | [] => none
  | _ => none

/-- `_HREF_RE` at the start of a text: `match.group(1)` and the length of the match. -/
def scanHref (text : List Char) : Option (List Char × ℕ) :=
  if startsWithFold ['h', 'r', 'e', 'f'] text then
    (scanQuoted (text.drop 4)).map fun found => (found.1, 4 + found.2)
  else none

/-! ## The links -/

def cleanUrl (url : List Char) : List Char := url.rdropWhile isTrailing

/-- `url.lower().startswith(("http://", "https://"))` -/
def isHttp (url : List Char) : Bool :=
  ['h', 't', 't', 'p', ':', '/', '/'].isPrefixOf (url.map lowerAscii) ||
    ['h', 't', 't', 'p', 's', ':', '/', '/'].isPrefixOf (url.map lowerAscii)

def truthy : Option (List Char) → Option (List Char)
  | some (c :: text) => some (c :: text)
  | _ => none

def hrefUrls (html : List Char) : List (List Char) :=
  ((findAll scanHref 0 html).map cleanUrl).filter isHttp

def bareUrls (text : List Char) : List (List Char) := (findAll scanUrl 0 text).map cleanUrl

/-- `seen.setdefault(url, None)`, for one URL after the other. -/
def setdefaults (seen : List (List Char)) (urls : List (List Char)) : List (List Char) :=
  urls.foldl (fun seen url => if url ∈ seen then seen else seen ++ [url]) seen

def extractUrls (message : Message) : List (List Char) :=
  let seen := match truthy message.bodyHtml with
    | some html => setdefaults (setdefaults [] (hrefUrls html)) (bareUrls html)
    | none => []
  let seen := match truthy message.bodyText with
    | some text => setdefaults seen (bareUrls text)
    | none => seen
  seen.take maxUrls

def missingUrls (excerpt : List Char) (urls : List (List Char)) : List (List Char) :=
  urls.filter fun url => decide (¬ url <:+: excerpt)

/-- `"\n[links in this message: " + ", ".join(missing) + "]"` -/
def linkList (missing : List (List Char)) : List Char :=
  '\n' :: ("[links in this message: ".toList ++ ([',', ' '].intercalate missing ++ [']']))

def appendMissingUrls (excerpt : List Char) (urls : List (List Char)) : List Char :=
  match missingUrls excerpt urls with
  | [] => excerpt
  | url :: more =>
    let suffix := linkList (url :: more)
    excerpt.take (bodyExcerptChars - suffix.length) ++ suffix

/-! ## The excerpt -/

/-- The body `load_message_view` cuts: its excerpt, and whether anything was cut off. -/
def cutBody (stripHtml : List Char → List Char) (message : Message) : List Char × Bool :=
  match truthy message.bodyText with
  | some text => (text.take bodyExcerptChars, decide (bodyExcerptChars < text.length))
  | none =>
    match truthy message.bodyHtml with
    | some html =>
      let stripped := stripHtml html
      (stripped.take bodyExcerptChars, decide (bodyExcerptChars < stripped.length))
    | none => ([], false)

/-- The `body` and `truncated` of the view `load_message_view` returns. -/
def viewBody (stripHtml : List Char → List Char) (message : Message) : List Char × Bool :=
  let (body, truncated) := cutBody stripHtml message
  (appendMissingUrls body (extractUrls message), truncated)

end MailVerdict.Model.MessageExcerpt
