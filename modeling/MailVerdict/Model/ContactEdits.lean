import MailVerdict.Model.CardPhotos

/-!
# Contact edits

`parse_contact` and `apply_contact_fields`. A card is what vobject makes of it: the lines of each
property in their order, with the values it reads; `rest` is what else a line says. `others` are
the properties this application has no field for. A photo is read off its line's own text.
SOURCE: calendar/vcard.py:23-76, 371-439, 503-605
-/

namespace MailVerdict.Model.ContactEdits

open MailVerdict.Computation Model.Identifiers Model.CardPhotos

structure Line (V : Type) where
  types : List Text
  rest : Text
  value : V

/-- vobject's `Address`. -/
structure Address where
  street : Text
  city : Text
  region : Text
  code : Text
  country : Text

structure Card where
  fn : List (Line Text)
  email : List (Line Text)
  org : List (Line (List Text))
  title : List (Line Text)
  tel : List (Line Text)
  adr : List (Line Address)
  bday : List (Line Text)
  url : List (Line Text)
  note : List (Line Text)
  categories : List (Line (List Text))
  photo : List ContentLine
  others : Text → List (Line Text)

structure ContactEmail where
  email : Text
  type : Option Text

structure ContactPhone where
  number : Text
  type : Option Text

structure ContactAddress where
  label : Option Text
  text : Text

structure ParsedContact where
  summary : Text
  emails : List ContactEmail
  organization : Option Text
  title : Option Text
  phones : List ContactPhone
  addresses : List ContactAddress
  birthday : Option Text
  urls : List Text
  notes : Option Text
  categories : List Text
  photo : Option ContactPhoto

/-- `_type_param`: the first TYPE; a single empty one is none. -/
def typeParam {V : Type} (line : Line V) : Option Text :=
  match line.types with
  | [] | [[]] => none
  | t :: _ => some t

/-- `", ".join` -/
def joined (parts : List Text) : Text := [',', ' '].intercalate parts

/-- `_address_text` -/
def addressText (a : Address) : Text :=
  joined ([a.street, a.city, a.region, a.code, a.country].filter (· ≠ []))

section

variable (upper lower : Text → Text) (isWord : Char → Bool)

/-- `_extract_photo` on the PHOTO lines. -/
def cardPhoto (lines : List ContentLine) : Option ContactPhoto :=
  match lines with
  | [] => none
  | content :: _ =>
    if strip content.value = [] then none else extractFound upper lower content (strip content.value)

def parseContact (card : Card) : ParsedContact where
  summary := (card.fn.head?.map Line.value).getD []
  emails := card.email.map fun line => ⟨strip line.value, typeParam line⟩
  organization := card.org.head?.map fun line => joined line.value
  title := card.title.head?.map Line.value
  phones := card.tel.map fun line => ⟨line.value, typeParam line⟩
  addresses := card.adr.map fun line => ⟨typeParam line, addressText line.value⟩
  birthday := card.bday.head?.map Line.value
  urls := card.url.map Line.value
  notes := card.note.head?.map Line.value
  categories := (card.categories.head?.map Line.value).getD []
  photo := cardPhoto upper lower card.photo

/-- The fields of an edit; `none` is left out. -/
structure ContactFields where
  summary : Option Text
  emails : Option (List ContactEmail)
  organization : Option Text
  title : Option Text
  phones : Option (List ContactPhone)
  addresses : Option (List ContactAddress)
  birthday : Option Text
  urls : Option (List Text)
  notes : Option Text
  categories : Option (List Text)
  photoDataUrl : Option Text

/-- `card.add(name)` with its value, and `if type: line.type_param = type`. -/
def added {V : Type} (value : V) (type : Option Text) : Line V :=
  ⟨(match type with | none | some [] => [] | some t => [t]), [], value⟩

/-- `card.fn.value = summary`, or a new line. -/
def setFirst (lines : List (Line Text)) (summary : Text) : List (Line Text) :=
  match lines with
  | [] => [added summary none]
  | line :: rest => { line with value := summary } :: rest

/-- `card.remove(card.title)`, and a new line when the value is not empty. -/
def replaceFirst {V : Type} (lines : List (Line V)) (value : Text → V) (v : Text) : List (Line V) :=
  lines.tail ++ if v = [] then [] else [added (value v) none]

/-- `_set_photo` -/
def photoLine (mime : Text) (raw : Bytes) : ContentLine :=
  let subtype := upper (if '/' ∈ mime then (mime.dropWhile (· ≠ '/')).tail else mime)
  ⟨"PHOTO".toList, (if subtype = [] then [] else [("TYPE".toList, subtype)]) ++
    [("ENCODING".toList, ['b'])], Base64.encode raw⟩

def setPhoto (lines : List ContentLine) : Option Text → Option (List ContentLine)
  | none => some lines
  | some [] => some []
  | some url => (decodePhotoDataUrl lower isWord url).map fun (mime, raw) => [photoLine upper mime raw]

/-- The edits of the other properties, in their order. -/
def Card.edited (card : Card) (f : ContactFields) : Card where
  fn := (f.summary.map (setFirst card.fn)).getD card.fn
  email := (f.emails.map (List.map fun e => added e.email e.type)).getD card.email
  org := (f.organization.map (replaceFirst card.org ([·]))).getD card.org
  title := (f.title.map (replaceFirst card.title id)).getD card.title
  tel := (f.phones.map (List.map fun p => added p.number p.type)).getD card.tel
  adr := (f.addresses.map (List.map fun a =>
    added ⟨a.text, [], [], [], []⟩ a.label)).getD card.adr
  bday := (f.birthday.map (replaceFirst card.bday id)).getD card.bday
  url := (f.urls.map (List.map fun u => added u none)).getD card.url
  note := (f.notes.map (replaceFirst card.note id)).getD card.note
  categories := (f.categories.map fun names =>
    if names = [] then [] else [added names none]).getD card.categories
  photo := card.photo
  others := card.others

/-- `none` is a `ValueError`. -/
def applyContactFields (card : Card) (f : ContactFields) : Option Card :=
  (setPhoto upper lower isWord card.photo f.photoDataUrl).map fun photo =>
    { card.edited f with photo := photo }

end

end MailVerdict.Model.ContactEdits
