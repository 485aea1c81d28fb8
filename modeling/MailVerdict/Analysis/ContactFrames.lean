import Mathlib.Data.Bool.AllAny
import MailVerdict.Analysis.CardReaders
import MailVerdict.Model.ContactEdits

/-!
# What a contact edit changes

`card.org`, `card.title`, `card.bday` and `card.note` are the first of their lines only: what an
edit leaves behind it is shown in place of the new value.
-/

namespace MailVerdict.Analysis.ContactFrames

open MailVerdict.Computation Computation.TextPatterns Model.Identifiers
  Model.CardPhotos Model.ContactEdits Analysis.CardReaders

structure AsciiCase (upper lower : Text → Text) : Prop where
  upper : ∀ t : Text, (∀ c ∈ t, c.toNat < 128) → upper t = t.map Char.toUpper
  lower : ∀ t : Text, (∀ c ∈ t, c.toNat < 128) → lower t = t.map Char.toLower

def textShown (v : Text) : Option Text := if v = [] then none else some v

def photoShown (url : Text) : Option ContactPhoto :=
  if url = [] then none else some ⟨.embedded, url⟩

/-- Each given field is shown as given, each other one as before. -/
structure Shown (f : ContactFields) (before after : ParsedContact) : Prop where
  summary : after.summary = f.summary.getD before.summary
  emails : after.emails = f.emails.getD before.emails
  organization : after.organization = (f.organization.map textShown).getD before.organization
  title : after.title = (f.title.map textShown).getD before.title
  phones : after.phones = f.phones.getD before.phones
  addresses : after.addresses = f.addresses.getD before.addresses
  birthday : after.birthday = (f.birthday.map textShown).getD before.birthday
  urls : after.urls = f.urls.getD before.urls
  notes : after.notes = (f.notes.map textShown).getD before.notes
  categories : after.categories = f.categories.getD before.categories
  photo : after.photo = (f.photoDataUrl.map photoShown).getD before.photo

/-- Behind the first line stand only lines as the edit writes it. -/
def Replaced {V : Type} (lines : List (Line V)) (value : Text → V) (given : Option Text) : Prop :=
  ∀ v ∈ given, ∀ l ∈ lines.tail, v ≠ [] ∧ l = added (value v) none

def photoUrl (mime : Text) (raw : Bytes) : Text :=
  "data:".toList ++ mime ++ ";base64,".toList ++ Base64.encode raw

/-- The type is that of an image a card may name, or the one the bytes start as. -/
def TypeOf (mime : Text) (raw : Bytes) : Prop :=
  mime ∈ mimeByTypeParam.map Prod.snd ∨ mime = sniffMime raw

def IsPhotoUrl (url : Text) : Prop :=
  ∃ mime raw, raw ≠ [] ∧ TypeOf mime raw ∧ url = photoUrl mime raw

/-- The edit can be kept: what stands behind a replaced first line is what it is replaced by, an
address has no space around it, a type is no empty text, and a photo is given as it is shown. -/
structure Kept (card : Card) (f : ContactFields) : Prop where
  organization : Replaced card.org ([·]) f.organization
  title : Replaced card.title id f.title
  birthday : Replaced card.bday id f.birthday
  notes : Replaced card.note id f.notes
  emails : ∀ es ∈ f.emails, ∀ e ∈ es, strip e.email = e.email ∧ e.type ≠ some []
  phones : ∀ ps ∈ f.phones, ∀ p ∈ ps, p.type ≠ some []
  addresses : ∀ as ∈ f.addresses, ∀ a ∈ as, a.label ≠ some []
  photo : ∀ url ∈ f.photoDataUrl, url = [] ∨ IsPhotoUrl url

/-! ## Lines -/

section Lines

variable {V : Type} {lines : List (Line V)} {value : Text → V} {given : Option Text}

theorem typeParam_added (v : V) (type : Option Text) :
    typeParam (added v type) = type ↔ type ≠ some [] := by
  cases type with
  | none => simp [typeParam, added]
  | some t =>
    cases t with
    | nil => simp [typeParam, added]
    | cons c t => simp [typeParam, added]

theorem map_eq_self {α : Type} (g : α → α) (l : List α) : l.map g = l ↔ ∀ x ∈ l, g x = x := by
  induction l with
  | nil => simp
  | cons x l ih => simp [ih]

theorem append_eq_cons_self {α : Type} {n l : α} {t : List α} :
    t ++ [n] = l :: t ↔ ∀ x ∈ l :: t, x = n := by
  induction t generalizing l with
  | nil => simp [eq_comm]
  | cons m t ih =>
    rw [List.cons_append, List.cons.injEq, ih, List.forall_mem_cons (a := l)]
    constructor
    · rintro ⟨rfl, hall⟩
      exact ⟨hall _ List.mem_cons_self, hall⟩
    · rintro ⟨rfl, hall⟩
      exact ⟨hall _ List.mem_cons_self, hall⟩

theorem replaceFirst_again (v : Text) :
    Model.ContactEdits.replaceFirst (replaceFirst lines value v) value v =
      Model.ContactEdits.replaceFirst lines value v ↔
      ∀ l ∈ lines.tail, v ≠ [] ∧ l = added (value v) none := by
  unfold Model.ContactEdits.replaceFirst
  generalize lines.tail = t
  by_cases hv : v = []
  · cases t with
    | nil => simp [hv]
    | cons l t =>
      have hnot : ¬ ∀ m ∈ l :: t, v ≠ [] ∧ m = added (value v) none :=
        fun hall => (hall l List.mem_cons_self).1 hv
      simpa [hv] using hnot
  · cases t with
    | nil => simp [hv]
    | cons l t =>
      rw [if_neg hv, List.append_left_inj]
      simpa [hv] using append_eq_cons_self (n := added (value v) none) (l := l) (t := t)

theorem again_iff : (given.map (replaceFirst ((given.map (replaceFirst lines value)).getD lines)
      value)).getD ((given.map (replaceFirst lines value)).getD lines) =
    (given.map (replaceFirst lines value)).getD lines ↔ Replaced lines value given := by
  cases given with
  | none => simp [Replaced]
  | some v => simpa [Replaced] using replaceFirst_again v

theorem shown_of_replaced (read : V → Text) (hread : ∀ v, read (value v) = v)
    (h : Replaced lines value given) :
    (((given.map (replaceFirst lines value)).getD lines).head?.map fun l => read l.value) =
      (given.map textShown).getD (lines.head?.map fun l => read l.value) := by
  cases given with
  | none => rfl
  | some v =>
    have hall := h v rfl
    simp only [Option.map_some, Option.getD_some, Model.ContactEdits.replaceFirst, textShown]
    cases ht : lines.tail with
    | nil => split <;> simp [added, hread]
    | cons l t =>
      obtain ⟨hv, rfl⟩ := hall l (by simp [ht])
      simp [hv, added, hread]

theorem listField_iff {E : Type} (line : E → Line V) (read : Line V → E)
    (given : Option (List E)) :
    ((given.map (List.map line)).getD lines).map read = given.getD (lines.map read) ↔
      ∀ es ∈ given, ∀ e ∈ es, read (line e) = e := by
  cases given with
  | none => simp
  | some es =>
    simp only [Option.map_some, Option.getD_some, List.map_map, Option.mem_some_iff, forall_eq']
    exact map_eq_self (read ∘ line) es

theorem listField_again {E : Type} (line : E → Line V) (given : Option (List E)) :
    (given.map (List.map line)).getD ((given.map (List.map line)).getD lines) =
      (given.map (List.map line)).getD lines := by
  cases given <;> rfl

theorem summary_shown (lines : List (Line Text)) (given : Option Text) :
    (((given.map (setFirst lines)).getD lines).head?.map Line.value).getD [] =
      given.getD ((lines.head?.map Line.value).getD []) := by
  cases given with
  | none => rfl
  | some v => cases lines <;> rfl

theorem summary_again (lines : List (Line Text)) (given : Option Text) :
    (given.map (setFirst ((given.map (setFirst lines)).getD lines))).getD
      ((given.map (setFirst lines)).getD lines) = (given.map (setFirst lines)).getD lines := by
  cases given with
  | none => rfl
  | some v => cases lines <;> rfl

theorem categories_shown (lines : List (Line (List Text))) (given : Option (List Text)) :
    (((given.map fun names => if names = [] then [] else [added names none]).getD lines).head?.map
      Line.value).getD [] = given.getD ((lines.head?.map Line.value).getD []) := by
  cases given with
  | none => rfl
  | some names => cases names <;> rfl

theorem emailShown_iff (e : ContactEmail) :
    (⟨strip e.email, typeParam (added e.email e.type)⟩ : ContactEmail) = e ↔
      strip e.email = e.email ∧ e.type ≠ some [] := by
  obtain ⟨email, type⟩ := e
  rw [ContactEmail.mk.injEq, typeParam_added]

theorem phoneShown_iff (p : ContactPhone) :
    (⟨p.number, typeParam (added p.number p.type)⟩ : ContactPhone) = p ↔ p.type ≠ some [] := by
  obtain ⟨number, type⟩ := p
  rw [ContactPhone.mk.injEq, typeParam_added, and_iff_right rfl]

theorem addressText_street (t : Text) : addressText ⟨t, [], [], [], []⟩ = t := by
  cases t with
  | nil => rfl
  | cons c t => simp [addressText, joined]

theorem addressShown_iff (a : ContactAddress) :
    (⟨typeParam (added (⟨a.text, [], [], [], []⟩ : Address) a.label),
      addressText ⟨a.text, [], [], [], []⟩⟩ : ContactAddress) = a ↔ a.label ≠ some [] := by
  obtain ⟨label, text⟩ := a
  rw [ContactAddress.mk.injEq, typeParam_added, addressText_street, and_iff_left rfl]

end Lines

/-! ## Photos -/

section Photos

variable {upper lower : Text → Text} {isWord : Char → Bool} {mime url : Text} {raw : Bytes}

def writtenTypes : List Text :=
  "application/octet-stream".toList :: mimeByTypeParam.map Prod.snd

theorem mem_writtenTypes (h : TypeOf mime raw) : mime ∈ writtenTypes := by
  rcases h with h | rfl
  · exact List.mem_cons_of_mem _ h
  · unfold sniffMime
    split
    · decide
    · split
      · decide
      · split
        · decide
        · split <;> decide

def typedLine (t : Text) (raw : Bytes) : ContentLine :=
  ⟨"PHOTO".toList, [("TYPE".toList, t), ("ENCODING".toList, ['b'])], Base64.encode raw⟩

theorem photoLine_eq (h : AsciiCase upper lower) (htype : TypeOf mime raw) :
    ∃ t, photoLine upper mime raw = typedLine t raw ∧ upper t = t ∧
        ((mimeByTypeParam.find? fun e => decide (e.1 = t)).map Prod.snd).getD (sniffMime raw) =
          mime := by
  have hwrite : ∀ s t : Text, (s ++ t).all (fun c => decide (c.toNat < 128)) →
      s.map Char.toUpper = t → t.map Char.toUpper = t → upper s = t ∧ upper t = t := by
    intro s t hall hs ht
    have hascii := List.all_iff_forall_prop.1 hall
    exact ⟨(h.upper s fun c hc => hascii c (List.mem_append_left _ hc)).trans hs,
      (h.upper t fun c hc => hascii c (List.mem_append_right _ hc)).trans ht⟩
  have hpart : ∀ s t : Text, upper s = t ∧ upper t = t → t ≠ [] →
      (if '/' ∈ mime then (mime.dropWhile (· ≠ '/')).tail else mime) = s →
      photoLine upper mime raw = typedLine t raw := by
    rintro s t ⟨hs, -⟩ hne rfl
    simp only [photoLine, hs, hne, if_false]
    rfl
  have hmem := mem_writtenTypes htype
  simp only [writtenTypes, mimeByTypeParam, List.map_cons, List.map_nil, List.mem_cons,
    List.not_mem_nil, or_false] at hmem
  rcases hmem with rfl | rfl | rfl | rfl | rfl | rfl
  · have ht := hwrite "octet-stream".toList "OCTET-STREAM".toList (by decide) rfl rfl
    refine ⟨_, hpart _ _ ht (by decide) (by decide), ht.2, ?_⟩
    exact (htype.resolve_left (by decide)).symm
  · have ht := hwrite "jpeg".toList "JPEG".toList (by decide) rfl rfl
    exact ⟨_, hpart _ _ ht (by decide) (by decide), ht.2, rfl⟩
  · have ht := hwrite "jpeg".toList "JPEG".toList (by decide) rfl rfl
    exact ⟨_, hpart _ _ ht (by decide) (by decide), ht.2, rfl⟩
  · have ht := hwrite "png".toList "PNG".toList (by decide) rfl rfl
    exact ⟨_, hpart _ _ ht (by decide) (by decide), ht.2, rfl⟩
  · have ht := hwrite "gif".toList "GIF".toList (by decide) rfl rfl
    exact ⟨_, hpart _ _ ht (by decide) (by decide), ht.2, rfl⟩
  · have ht := hwrite "webp".toList "WEBP".toList (by decide) rfl rfl
    exact ⟨_, hpart _ _ ht (by decide) (by decide), ht.2, rfl⟩

theorem isSpace_encode {c : Char} (hc : c ∈ Base64.encode raw) : isSpace c = false := by
  have hdigit : ∀ n < 64, isSpace (Base64.digit n) = false := by decide
  rcases Base64.mem_encode raw c hc with rfl | ⟨n, hn, rfl⟩
  · rfl
  · exact hdigit n hn

theorem strip_of_solid {t : Text} (h : ∀ c ∈ t, isSpace c = false) : strip t = t := by
  have hdrop : ∀ s : Text, (∀ c ∈ s, isSpace c = false) → s.dropWhile isSpace = s := by
    intro s hs
    cases s with
    | nil => rfl
    | cons c s => exact List.dropWhile_cons_of_neg (by simp [hs c List.mem_cons_self])
  rw [strip, hdrop t h, hdrop _ fun c hc => h c (List.mem_reverse.1 hc), List.reverse_reverse]

theorem cardPhoto_photoLine (h : AsciiCase upper lower) (htype : TypeOf mime raw) :
    cardPhoto upper lower [photoLine upper mime raw] =
      if raw = [] then none else some ⟨.embedded, photoUrl mime raw⟩ := by
  obtain ⟨t, hline, ht, hmime⟩ := photoLine_eq h htype
  have hb : lower ['b'] = ['b'] := h.lower ['b'] (by simp)
  have hfilter : ((Base64.encode raw).filter fun c => !isSpace c) = Base64.encode raw :=
    List.filter_eq_self.2 fun c hc => by rw [isSpace_encode hc]; rfl
  have hempty : Base64.encode raw = [] ↔ raw = [] := by
    rw [← List.length_eq_zero_iff, Base64.length_encode, ← List.length_eq_zero_iff]
    omega
  have hof : mimeOf upper (typedLine t raw) raw = mime := by
    have hparam : (typedLine t raw).param "TYPE".toList = some t := rfl
    rw [← hmime, mimeOf, hparam, Option.getD_some, ht]
    cases mimeByTypeParam.find? fun e => decide (e.1 = t) <;> rfl
  have hsays : saysBase64 lower (typedLine t raw) = true := by
    have hparam : (typedLine t raw).param "ENCODING".toList = some ['b'] := rfl
    rw [saysBase64, hparam, Option.getD_some, hb]
    rfl
  have hvalue : strip (typedLine t raw).value = Base64.encode raw :=
    strip_of_solid fun c => isSpace_encode
  rw [hline, cardPhoto, hvalue, extractFound, if_pos hsays, decodeValue, hfilter,
    Base64.decode_encode]
  dsimp only
  rw [hof]
  simp only [hempty]
  rfl

theorem typeOf_decoded (h : decodePhotoDataUrl lower isWord url = some (mime, raw)) :
    TypeOf mime raw := by
  unfold decodePhotoDataUrl at h
  split at h
  · cases h
  · split at h
    · cases h
    · split at h
      · rename_i hany
        obtain ⟨rfl, rfl⟩ := Prod.mk.inj (Option.some.inj h)
        obtain ⟨entry, hentry, heq⟩ := List.any_eq_true.1 hany
        exact .inl (List.mem_map.2 ⟨entry, hentry, of_decide_eq_true heq⟩)
      · obtain ⟨rfl, rfl⟩ := Prod.mk.inj (Option.some.inj h)
        exact .inr rfl

theorem decode_photoUrl (h : AsciiCase upper lower) (htype : TypeOf mime raw) :
    decodePhotoDataUrl lower isWord (photoUrl mime raw) = some (mime, raw) := by
  have hmem := mem_writtenTypes htype
  have hsolid : ∀ m ∈ writtenTypes,
      m.all (fun c => decide (isSpace c = false ∧ c.toNat < 128)) ∧ m.map Char.toLower = m := by
    decide
  obtain ⟨hall, hlow⟩ := hsolid mime hmem
  have hchars := List.all_iff_forall_prop.1 hall
  have hmedia : MediaType isWord mime := by
    have hparts : ∀ m ∈ writtenTypes,
        m = m.takeWhile (· ≠ '/') ++ '/' :: (m.dropWhile (· ≠ '/')).tail ∧
        m.takeWhile (· ≠ '/') ≠ [] ∧ (m.dropWhile (· ≠ '/')).tail ≠ [] ∧
        (m.takeWhile (· ≠ '/')).all (mimeChar fun _ => false) = true ∧
        (m.dropWhile (· ≠ '/')).tail.all (mimeChar fun _ => false) = true := by decide
    have hmore : ∀ c, mimeChar (fun _ => false) c = true → mimeChar isWord c = true := by
      intro c hc
      unfold mimeChar at hc ⊢
      split
      · rwa [if_pos ‹_›] at hc
      · rw [if_neg ‹_›] at hc
        cases hc
    obtain ⟨heq, hmain, hsub, hmains, hsubs⟩ := hparts mime hmem
    exact ⟨_, _, heq, hmain, hsub, fun c hc => hmore c (List.all_eq_true.1 hmains c hc),
      fun c hc => hmore c (List.all_eq_true.1 hsubs c hc)⟩
  have hurl : photoUrl mime raw =
      "data:".toList ++ (mime ++ (";base64,".toList ++ Base64.encode raw)) :=
    (List.append_assoc _ _ _).trans (List.append_assoc _ _ _)
  have hstrip : strip (photoUrl mime raw) = photoUrl mime raw := by
    refine strip_of_solid fun c hc => ?_
    simp only [hurl, List.mem_append] at hc
    rcases hc with hc | hc | hc | hc
    · exact (List.all_iff_forall_prop (p := (isSpace · = false))).1 (by decide) c hc
    · exact (hchars c hc).1
    · exact (List.all_iff_forall_prop (p := (isSpace · = false))).1 (by decide) c hc
    · exact isSpace_encode hc
  rw [decodePhotoDataUrl, hstrip, (matchDataUrl_eq_some isWord).2 ⟨hurl, .inr hmedia⟩]
  dsimp only
  rw [Base64.decode_encode, h.lower mime fun c hc => (hchars c hc).2, hlow]
  dsimp only
  split
  · rfl
  · rename_i hany
    rcases htype with hin | hsniff
    · obtain ⟨entry, hentry, rfl⟩ := List.mem_map.1 hin
      exact absurd (List.any_eq_true.2 ⟨entry, hentry, by simp⟩) hany
    · rw [← hsniff]

theorem setPhoto_again {lines photo : List ContentLine} {given : Option Text}
    (h : setPhoto upper lower isWord lines given = some photo) :
    setPhoto upper lower isWord photo given = some photo := by
  cases given with
  | none => rfl
  | some url =>
    cases url with
    | nil => exact h
    | cons c url => exact h

/-- **A photo is taken and shown as given exactly when it is the data URL of its bytes.** -/
theorem setPhoto_shown_iff (isWord : Char → Bool) (h : AsciiCase upper lower) {lines : List ContentLine}
    {given : Option Text} :
    (∃ photo, setPhoto upper lower isWord lines given = some photo ∧
      cardPhoto upper lower photo = (given.map photoShown).getD (cardPhoto upper lower lines)) ↔
      ∀ url ∈ given, url = [] ∨ IsPhotoUrl url := by
  cases given with
  | none => simp [setPhoto]
  | some url =>
    cases url with
    | nil => simp [setPhoto, cardPhoto, photoShown]
    | cons c url =>
      simp only [Option.mem_some_iff, forall_eq', reduceCtorEq, false_or, setPhoto]
      constructor
      · rintro ⟨photo, hset, hshown⟩
        obtain ⟨⟨mime, raw⟩, hdecode, rfl⟩ := Option.map_eq_some_iff.1 hset
        have htype := typeOf_decoded hdecode
        simp only [cardPhoto_photoLine h htype, Option.map_some, Option.getD_some, photoShown,
          reduceCtorEq, if_false] at hshown
        by_cases hraw : raw = []
        · rw [if_pos hraw] at hshown
          cases hshown
        · rw [if_neg hraw] at hshown
          injection hshown with hshown
          injection hshown with _ hurl
          exact ⟨mime, raw, hraw, htype, hurl.symm⟩
      · rintro ⟨mime, raw, hraw, htype, hurl⟩
        refine ⟨[photoLine upper mime raw], ?_, ?_⟩
        · rw [hurl, decode_photoUrl h htype]
          rfl
        · rw [cardPhoto_photoLine h htype, if_neg hraw, ← hurl]
          rfl

end Photos

/-! ## The edit -/

section Edit

variable (upper lower : Text → Text) (isWord : Char → Bool)

/-- **The edit of a card**: the fields are shown as given, everything else is as before, and the
same edit again changes nothing. -/
def Edited (card : Card) (f : ContactFields) : Prop :=
  ∃ after, applyContactFields upper lower isWord card f = some after ∧
    Shown f (parseContact upper lower card) (parseContact upper lower after) ∧
    after.others = card.others ∧ applyContactFields upper lower isWord after f = some after

theorem applyContactFields_eq_some {card after : Card} {f : ContactFields} :
    applyContactFields upper lower isWord card f = some after ↔
      ∃ photo, setPhoto upper lower isWord card.photo f.photoDataUrl = some photo ∧
        { card.edited f with photo := photo } = after :=
  Option.map_eq_some_iff

/-- **An edit shows what it was given, keeps the rest and changes nothing when it is repeated,
exactly when nothing else stands behind a replaced line and the values are as they are shown.** -/
theorem edited_iff (h : AsciiCase upper lower) (card : Card) (f : ContactFields) :
    Edited upper lower isWord card f ↔ Kept card f := by
  constructor
  · rintro ⟨after, happly, hshown, -, hagain⟩
    obtain ⟨photo, hphoto, rfl⟩ := (applyContactFields_eq_some _ _ _).1 happly
    obtain ⟨_, _, heq⟩ := (applyContactFields_eq_some _ _ _).1 hagain
    have hemails := (listField_iff _ _ _).1 hshown.emails
    have hphones := (listField_iff _ _ _).1 hshown.phones
    have haddresses := (listField_iff _ _ _).1 hshown.addresses
    exact
      { organization := again_iff.1 (congrArg Card.org heq)
        title := again_iff.1 (congrArg Card.title heq)
        birthday := again_iff.1 (congrArg Card.bday heq)
        notes := again_iff.1 (congrArg Card.note heq)
        emails := fun es hes e he => (emailShown_iff e).1 (hemails es hes e he)
        phones := fun ps hps p hp => (phoneShown_iff p).1 (hphones ps hps p hp)
        addresses := fun as has a ha => (addressShown_iff a).1 (haddresses as has a ha)
        photo := (setPhoto_shown_iff isWord h).1 ⟨photo, hphoto, hshown.photo⟩ }
  · intro hkept
    obtain ⟨photo, hphoto, hshown⟩ := (setPhoto_shown_iff isWord h).2 hkept.photo
    refine ⟨_, (applyContactFields_eq_some _ _ _).2 ⟨photo, hphoto, rfl⟩, ?_, rfl,
      (applyContactFields_eq_some _ _ _).2 ⟨photo, setPhoto_again hphoto, ?_⟩⟩
    · exact
        { summary := summary_shown _ _
          emails := (listField_iff _ _ _).2 fun es hes e he =>
            (emailShown_iff e).2 (hkept.emails es hes e he)
          organization := shown_of_replaced joined (fun _ => by simp [joined]) hkept.organization
          title := shown_of_replaced id (fun _ => rfl) hkept.title
          phones := (listField_iff _ _ _).2 fun ps hps p hp =>
            (phoneShown_iff p).2 (hkept.phones ps hps p hp)
          addresses := (listField_iff _ _ _).2 fun as has a ha =>
            (addressShown_iff a).2 (hkept.addresses as has a ha)
          birthday := shown_of_replaced id (fun _ => rfl) hkept.birthday
          urls := (listField_iff _ _ _).2 fun _ _ _ _ => rfl
          notes := shown_of_replaced id (fun _ => rfl) hkept.notes
          categories := categories_shown _ _
          photo := hshown }
    · rw [Card.mk.injEq]
      refine ⟨summary_again _ _, listField_again _ _, again_iff.2 hkept.organization,
        again_iff.2 hkept.title, listField_again _ _, listField_again _ _,
        again_iff.2 hkept.birthday, listField_again _ _, again_iff.2 hkept.notes, ?_, rfl, rfl⟩
      cases hgiven : f.categories <;> simp [Card.edited, hgiven]

end Edit

def blankCard : Card := ⟨[], [], [], [], [], [], [], [], [], [], [], fun _ => []⟩

def noFields : ContactFields :=
  ⟨none, none, none, none, none, none, none, none, none, none, none⟩

def alCard : Card :=
  { blankCard with
    fn := [added "Al".toList none]
    email := [added "a@x".toList (some "home".toList), added "al@y".toList none]
    title := [added "Mr".toList none, added "Dr".toList none]
    tel := [added "1".toList none]
    categories := [added ["old".toList] none]
    others := fun name => if name = "NICKNAME".toList then [added "A".toList none] else [] }

/-- A new name, title and phone, one address for two and no group any more. -/
def alFields : ContactFields :=
  { noFields with
    summary := some "Al B".toList
    title := some "Dr".toList
    emails := some [⟨"al@x".toList, some "work".toList⟩]
    phones := some [⟨"2".toList, none⟩]
    categories := some [] }

theorem edited_iff_retitled :
    (parseContact asciiUpper asciiLower alCard).title = some "Mr".toList ∧
      Edited asciiUpper asciiLower (fun _ => false) alCard alFields :=
  ⟨rfl, (edited_iff asciiUpper asciiLower _ ⟨fun _ _ => rfl, fun _ _ => rfl⟩ _ _).2
    { organization := fun _ _ _ hl => (List.not_mem_nil hl).elim
      title := fun v hv l hl => by
        obtain rfl : "Dr".toList = v := Option.some.inj hv
        exact ⟨by decide, List.mem_singleton.1 hl⟩
      birthday := fun _ _ _ hl => (List.not_mem_nil hl).elim
      notes := fun _ _ _ hl => (List.not_mem_nil hl).elim
      emails := by decide
      phones := by decide
      addresses := by decide
      photo := fun _ hurl => nomatch hurl }⟩

/-- Of two titles the second is shown when the title is removed. -/
theorem second_title_shown : ¬ ∀ (card : Card) (f : ContactFields),
    Edited asciiUpper asciiLower (fun _ => false) card f := by
  intro h
  obtain ⟨after, happly, hshown, -⟩ := h
    { blankCard with title := [added "Dr".toList none, added "Prof".toList none] }
    { noFields with title := some [] }
  obtain ⟨photo, -, rfl⟩ := (applyContactFields_eq_some _ _ _).1 happly
  have htitle : some "Prof".toList = none := hshown.title
  cases htitle

end MailVerdict.Analysis.ContactFrames
