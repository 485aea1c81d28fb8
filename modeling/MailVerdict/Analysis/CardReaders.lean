import MailVerdict.Analysis.CardLines

/-!
# The readers of a card's photo

How the three readers of the photo stand to each other: the full read, the one that decodes
nothing, and the one that gives the bytes.
-/

namespace MailVerdict.Analysis.CardReaders

open MailVerdict.Computation Computation.TextPatterns Model.Identifiers
  Model.CardPhotos Analysis.CardLines

section
variable (upper : Text → Text)

/-! ## The three readers -/

def photoOf (data : Text) : Option (ContentLine × Text) :=
  readPhoto upper (fun content value => some (content, value)) (unfoldLines data)

theorem readPhoto_eq_bind {α : Type} (found : ContentLine → Text → Option α)
    (lines : List Text) :
    readPhoto upper found lines =
      (readPhoto upper (fun content value => some (content, value)) lines).bind
        fun photo => found photo.1 photo.2 := by
  induction lines with
  | nil => rfl
  | cons line lines ih =>
    rw [readPhoto, readPhoto]
    cases splitContentLine upper line with
    | none => exact ih
    | some content =>
      dsimp only
      by_cases hname : content.name = "PHOTO".toList
      · rw [if_pos hname, if_pos hname]
        by_cases hvalue : strip content.value = []
        · rw [if_pos hvalue, if_pos hvalue]
          rfl
        · rw [if_neg hvalue, if_neg hvalue]
          rfl
      · rw [if_neg hname, if_neg hname]
        exact ih

theorem strip_of_photoOf {data value : Text} {content : ContentLine}
    (h : photoOf upper data = some (content, value)) : strip value = value := by
  rw [photoOf] at h
  generalize unfoldLines data = lines at h
  induction lines with
  | nil => cases h
  | cons line lines ih =>
    rw [readPhoto] at h
    cases hsplit : splitContentLine upper line with
    | none =>
      rw [hsplit] at h
      exact ih h
    | some found =>
      rw [hsplit] at h
      dsimp only at h
      by_cases hname : found.name = "PHOTO".toList
      · rw [if_pos hname] at h
        by_cases hvalue : strip found.value = []
        · rw [if_pos hvalue] at h
          cases h
        · rw [if_neg hvalue] at h
          obtain ⟨-, rfl⟩ := Prod.mk.inj (Option.some.inj h)
          exact strip_strip _
      · rw [if_neg hname] at h
        exact ih h

variable (lower : Text → Text) (isWord : Char → Bool)

def reported (photo : ContactPhoto) : ContactPhoto :=
  match photo.kind with
  | .embedded => ⟨.embedded, []⟩
  | .url => photo

def Broken (data : Text) : Prop :=
  ∃ content value, photoOf upper data = some (content, value) ∧
    saysBase64 lower content = true ∧ decodeValue value = none

theorem detectPhoto_of_not_broken {data : Text} (h : ¬ Broken upper lower data) :
    detectPhoto upper lower data = (extractPhoto upper lower data).map reported := by
  rw [detectPhoto, extractPhoto, readPhoto_eq_bind, readPhoto_eq_bind upper (extractFound _ _)]
  rw [← photoOf]
  cases hphoto : photoOf upper data with
  | none => rfl
  | some photo =>
    obtain ⟨content, value⟩ := photo
    rw [Option.bind_some, Option.bind_some, detectFound, extractFound]
    by_cases hbase : saysBase64 lower content = true
    · cases hdecode : decodeValue value with
      | none => exact absurd ⟨content, value, hphoto, hbase, hdecode⟩ h
      | some raw => simp [hbase, reported]
    · by_cases hdata : "data:".toList.isPrefixOf value = true
      · simp only [hbase, hdata, Bool.false_or, if_true]
        rfl
      · simp only [hbase, hdata, Bool.false_or]
        rfl

theorem readers_of_broken {data : Text} (h : Broken upper lower data) :
    detectPhoto upper lower data = some ⟨.embedded, []⟩ ∧
      extractPhoto upper lower data = none := by
  obtain ⟨content, value, hphoto, hbase, hdecode⟩ := h
  rw [photoOf] at hphoto
  rw [detectPhoto, extractPhoto, readPhoto_eq_bind, readPhoto_eq_bind upper (extractFound _ _),
    hphoto, Option.bind_some, Option.bind_some, detectFound, extractFound, hbase, hdecode]
  exact ⟨rfl, rfl⟩

/-! ## The bytes -/

def MediaType (text : Text) : Prop :=
  ∃ main sub : Text, text = main ++ '/' :: sub ∧ main ≠ [] ∧ sub ≠ [] ∧
    (∀ c ∈ main, mimeChar isWord c = true) ∧ ∀ c ∈ sub, mimeChar isWord c = true

/-- The value decodes: as base64 where the line says so, or else as a base64 data URL. -/
def Decodes (content : ContentLine) (value : Text) : Prop :=
  if saysBase64 lower content = true then (decodeValue value).isSome = true
  else ∃ declared payload : Text,
    value = "data:".toList ++ (declared ++ (";base64,".toList ++ payload)) ∧
      (declared = [] ∨ MediaType isWord declared) ∧
        (Base64.decode false payload).isSome = true

def Encodes (url : Text) (raw : Bytes) : Prop :=
  ∃ declared payload : Text, url = "data:".toList ++ (declared ++ (";base64,".toList ++ payload)) ∧
    ';' ∉ declared ∧ Base64.decode false payload = some raw

theorem declaredType_spec {rest declared left : Text}
    (h : declaredType isWord rest = (declared, left)) :
    rest = declared ++ left ∧ (declared = [] ∨ MediaType isWord declared) := by
  unfold declaredType at h
  split at h
  · rename_i subtype hdrop
    split at h
    · obtain ⟨rfl, rfl⟩ := Prod.mk.inj h
      exact ⟨rfl, .inl rfl⟩
    · rename_i hne
      obtain ⟨hmain, hsub⟩ := not_or.1 hne
      obtain ⟨rfl, rfl⟩ := Prod.mk.inj h
      refine ⟨?_, .inr ⟨_, _, rfl, hmain, hsub, fun c hc => List.mem_takeWhile_imp hc,
        fun c hc => List.mem_takeWhile_imp hc⟩⟩
      rw [List.append_assoc, List.cons_append, List.takeWhile_append_dropWhile, ← hdrop,
        List.takeWhile_append_dropWhile]
  · obtain ⟨rfl, rfl⟩ := Prod.mk.inj h
    exact ⟨rfl, .inl rfl⟩

theorem declaredType_append {declared : Text} (left : Text)
    (h : declared = [] ∨ MediaType isWord declared) :
    declaredType isWord (declared ++ ';' :: left) = (declared, ';' :: left) := by
  have hsemi : ¬ mimeChar isWord ';' = true := by simp [mimeChar]
  have hslash : ¬ mimeChar isWord '/' = true := by simp [mimeChar]
  rcases h with rfl | ⟨main, sub, rfl, hmain, hsub, hmains, hsubs⟩
  · rw [List.nil_append, declaredType, List.dropWhile_cons_of_neg hsemi]
    rfl
  · have htake : (sub ++ ';' :: left).takeWhile (mimeChar isWord) = sub := by
      rw [List.takeWhile_append_of_pos hsubs, List.takeWhile_cons_of_neg hsemi, List.append_nil]
    have hmaintake : (main ++ '/' :: (sub ++ ';' :: left)).takeWhile (mimeChar isWord) = main := by
      rw [List.takeWhile_append_of_pos hmains, List.takeWhile_cons_of_neg hslash,
        List.append_nil]
    have hdrop : (main ++ '/' :: (sub ++ ';' :: left)).dropWhile (mimeChar isWord) =
        '/' :: (sub ++ ';' :: left) := by
      rw [List.dropWhile_append_of_pos hmains, List.dropWhile_cons_of_neg hslash]
    rw [List.append_assoc, List.cons_append, declaredType, hdrop,
      hmaintake]
    refine (if_neg ?_).trans ?_
    · rw [htake]
      exact not_or.2 ⟨hmain, hsub⟩
    · rw [htake, List.dropWhile_append_of_pos hsubs, List.dropWhile_cons_of_neg hsemi]

theorem matchDataUrl_eq_some {text declared payload : Text} :
    matchDataUrl isWord text = some (declared, payload) ↔
      text = "data:".toList ++ (declared ++ (";base64,".toList ++ payload)) ∧
        (declared = [] ∨ MediaType isWord declared) := by
  constructor
  · intro h
    rw [matchDataUrl] at h
    by_cases hdata : "data:".toList.isPrefixOf text = true
    · rw [if_pos hdata] at h
      obtain ⟨rest, rfl⟩ := List.isPrefixOf_iff_prefix.1 hdata
      have hdrop : ("data:".toList ++ rest).drop 5 = rest := rfl
      rw [hdrop] at h
      obtain ⟨⟨found, left⟩, hpair⟩ : ∃ pair, declaredType isWord rest = pair := ⟨_, rfl⟩
      rw [hpair] at h
      dsimp only at h
      by_cases hbase : ";base64,".toList.isPrefixOf left = true
      · rw [if_pos hbase] at h
        obtain ⟨rfl, rfl⟩ := Prod.mk.inj (Option.some.inj h)
        obtain ⟨tail, rfl⟩ := List.isPrefixOf_iff_prefix.1 hbase
        obtain ⟨hrest, hshape⟩ := declaredType_spec isWord hpair
        exact ⟨by rw [hrest]; rfl, hshape⟩
      · rw [if_neg hbase] at h
        cases h
    · rw [if_neg hdata] at h
      cases h
  · rintro ⟨rfl, hshape⟩
    rw [matchDataUrl, if_pos (List.isPrefixOf_iff_prefix.2 (List.prefix_append _ _))]
    have hdrop : ("data:".toList ++ (declared ++ (";base64,".toList ++ payload))).drop 5 =
        declared ++ ';' :: ("base64,".toList ++ payload) := rfl
    rw [hdrop, declaredType_append isWord _ hshape]
    rfl

theorem decodePhotoDataUrl_eq_some {value mime : Text} {raw : Bytes}
    (hstrip : strip value = value) (h : decodePhotoDataUrl lower isWord value = some (mime, raw)) :
    ∃ declared payload : Text,
      value = "data:".toList ++ (declared ++ (";base64,".toList ++ payload)) ∧
        (declared = [] ∨ MediaType isWord declared) ∧ Base64.decode false payload = some raw := by
  rw [decodePhotoDataUrl, hstrip] at h
  cases hmatch : matchDataUrl isWord value with
  | none =>
    rw [hmatch] at h
    cases h
  | some groups =>
    obtain ⟨declared, payload⟩ := groups
    rw [hmatch] at h
    dsimp only at h
    obtain ⟨hvalue, hshape⟩ := (matchDataUrl_eq_some isWord).1 hmatch
    cases hdecode : Base64.decode false payload with
    | none =>
      rw [hdecode] at h
      cases h
    | some bytes =>
      rw [hdecode] at h
      dsimp only at h
      refine ⟨declared, payload, hvalue, hshape, hdecode.trans ?_⟩
      split at h
      · rw [(Prod.mk.inj (Option.some.inj h)).2]
      · rw [(Prod.mk.inj (Option.some.inj h)).2]

theorem decodePhotoDataUrl_isSome {declared payload : Text} {raw : Bytes}
    (hshape : declared = [] ∨ MediaType isWord declared)
    (hdecode : Base64.decode false payload = some raw)
    (hstrip : strip ("data:".toList ++ (declared ++ (";base64,".toList ++ payload))) =
      "data:".toList ++ (declared ++ (";base64,".toList ++ payload))) :
    (decodePhotoDataUrl lower isWord
      ("data:".toList ++ (declared ++ (";base64,".toList ++ payload)))).isSome = true := by
  rw [decodePhotoDataUrl, hstrip, (matchDataUrl_eq_some isWord).2 ⟨rfl, hshape⟩]
  dsimp only
  rw [hdecode]
  dsimp only
  split <;> rfl

def PhotoDecodes (data : Text) : Prop :=
  ∃ content value, photoOf upper data = some (content, value) ∧
    Decodes lower isWord content value

/-- **Bytes** are there when an embedded photo is reported and its value decodes. -/
theorem extractPhotoBytes_isSome (data : Text) :
    (extractPhotoBytes upper lower isWord data).isSome = true ↔
      (detectPhoto upper lower data).map ContactPhoto.kind = some .embedded ∧
        PhotoDecodes upper lower isWord data := by
  rw [detectPhoto, extractPhotoBytes, readPhoto_eq_bind upper (bytesFound _ _ _),
    readPhoto_eq_bind upper (detectFound _), ← photoOf, PhotoDecodes]
  cases hphoto : photoOf upper data with
  | none => simp
  | some photo =>
    obtain ⟨content, value⟩ := photo
    have hstrip := strip_of_photoOf upper hphoto
    have hexists : (∃ c v, some (content, value) = some (c, v) ∧ Decodes lower isWord c v) ↔
        Decodes lower isWord content value := by
      constructor
      · rintro ⟨c, v, heq, hdecodes⟩
        obtain ⟨rfl, rfl⟩ := Prod.mk.inj (Option.some.inj heq)
        exact hdecodes
      · exact fun hdecodes => ⟨content, value, rfl, hdecodes⟩
    rw [hexists, Option.bind_some, Option.bind_some, bytesFound, detectFound, Decodes]
    by_cases hbase : saysBase64 lower content = true
    · cases hdecode : decodeValue value with
      | none => simp [hbase]
      | some raw => simp [hbase]
    · rw [if_neg hbase, if_neg hbase, Bool.eq_false_iff.2 hbase, Bool.false_or]
      by_cases hdata : "data:".toList.isPrefixOf value = true
      · rw [if_pos hdata, if_pos hdata]
        constructor
        · intro hsome
          obtain ⟨⟨mime, raw⟩, heq⟩ := Option.isSome_iff_exists.1 hsome
          obtain ⟨declared, payload, hvalue, hshape, hdecode⟩ :=
            decodePhotoDataUrl_eq_some lower isWord hstrip heq
          exact ⟨rfl, declared, payload, hvalue, hshape, by rw [hdecode]; rfl⟩
        · rintro ⟨-, declared, payload, rfl, hshape, hsome⟩
          obtain ⟨raw, hdecode⟩ := Option.isSome_iff_exists.1 hsome
          exact decodePhotoDataUrl_isSome lower isWord hshape hdecode hstrip
      · rw [if_neg hdata, if_neg hdata]
        simp

theorem not_mem_mimeOf (content : ContentLine) (raw : Bytes) : ';' ∉ mimeOf upper content raw := by
  have hentries : ∀ entry ∈ mimeByTypeParam, ';' ∉ entry.2 := by decide
  unfold mimeOf
  split
  · rename_i entry hfind
    exact hentries entry (List.mem_of_find?_eq_some hfind)
  · unfold sniffMime
    split
    · decide
    · split
      · decide
      · split
        · decide
        · split
          · decide
          · decide

theorem not_mem_mediaType {text : Text} (h : MediaType isWord text) : ';' ∉ text := by
  obtain ⟨main, sub, rfl, -, -, hmain, hsub⟩ := h
  have hsemi : ¬ mimeChar isWord ';' = true := by simp [mimeChar]
  intro hmem
  rcases List.mem_append.1 hmem with hmem | hmem
  · exact hsemi (hmain _ hmem)
  · rcases List.mem_cons.1 hmem with heq | hmem
    · exact absurd heq (by decide)
    · exact hsemi (hsub _ hmem)

theorem extractPhotoBytes_encoded {data mime : Text} {raw : Bytes}
    (h : extractPhotoBytes upper lower isWord data = some (mime, raw)) :
    ∃ url, extractPhoto upper lower data = some ⟨.embedded, url⟩ ∧ Encodes url raw := by
  rw [extractPhotoBytes, readPhoto_eq_bind, ← photoOf] at h
  rw [extractPhoto, readPhoto_eq_bind, ← photoOf]
  cases hphoto : photoOf upper data with
  | none =>
    rw [hphoto] at h
    cases h
  | some photo =>
    obtain ⟨content, value⟩ := photo
    rw [hphoto, Option.bind_some, bytesFound] at h
    rw [Option.bind_some, extractFound]
    by_cases hbase : saysBase64 lower content = true
    · rw [if_pos hbase] at h
      rw [if_pos hbase]
      cases hdecode : decodeValue value with
      | none =>
        rw [hdecode] at h
        cases h
      | some bytes =>
        rw [hdecode] at h
        obtain ⟨rfl, rfl⟩ := Prod.mk.inj (Option.some.inj h)
        refine ⟨_, rfl, _, _, ?_, not_mem_mimeOf upper content bytes,
          Base64.decode_encode false bytes⟩
        rw [List.append_assoc, List.append_assoc]
    · rw [if_neg hbase] at h
      rw [if_neg hbase]
      by_cases hdata : "data:".toList.isPrefixOf value = true
      · rw [if_pos hdata] at h
        rw [if_pos hdata]
        obtain ⟨declared, payload, hvalue, hshape, hdecode⟩ :=
          decodePhotoDataUrl_eq_some lower isWord (strip_of_photoOf upper hphoto) h
        refine ⟨value, rfl, declared, payload, hvalue, ?_, hdecode⟩
        rcases hshape with rfl | hshape
        · exact List.not_mem_nil
        · exact not_mem_mediaType isWord hshape
      · rw [if_neg hdata] at h
        cases h

/-! ## Agreement -/

def ReadersAgree (data : Text) : Prop :=
  unfoldLines (withoutPhoto upper data) =
      (unfoldLines data).filter (fun line => !isPhoto upper line) ∧
    (detectPhoto upper lower data).map ContactPhoto.kind =
      (extractPhoto upper lower data).map ContactPhoto.kind ∧
    ((extractPhotoBytes upper lower isWord data).isSome = true ↔
      (detectPhoto upper lower data).map ContactPhoto.kind = some .embedded) ∧
    ∀ mime raw, extractPhotoBytes upper lower isWord data = some (mime, raw) →
      ∃ url, extractPhoto upper lower data = some ⟨.embedded, url⟩ ∧ Encodes url raw

/-- **What the readers agree on.** -/
theorem readers_agree (data : Text) :
    (ColonsShown upper data → (∃ line ∈ unfoldLines data, isPhoto upper line = false) →
      unfoldLines (withoutPhoto upper data) =
        (unfoldLines data).filter fun line => !isPhoto upper line) ∧
    (¬ Broken upper lower data → (detectPhoto upper lower data).map ContactPhoto.kind =
      (extractPhoto upper lower data).map ContactPhoto.kind) ∧
    (Broken upper lower data →
      (detectPhoto upper lower data).map ContactPhoto.kind = some .embedded ∧
        extractPhoto upper lower data = none) ∧
    ((extractPhotoBytes upper lower isWord data).isSome = true ↔
      (detectPhoto upper lower data).map ContactPhoto.kind = some .embedded ∧
        PhotoDecodes upper lower isWord data) ∧
    ∀ mime raw, extractPhotoBytes upper lower isWord data = some (mime, raw) →
      ∃ url, extractPhoto upper lower data = some ⟨.embedded, url⟩ ∧ Encodes url raw := by
  refine ⟨unfoldLines_withoutPhoto upper, ?_, ?_, extractPhotoBytes_isSome upper lower isWord data,
    fun mime raw => extractPhotoBytes_encoded upper lower isWord⟩
  · intro hnot
    rw [detectPhoto_of_not_broken upper lower hnot, Option.map_map]
    refine congrArg (fun f => (extractPhoto upper lower data).map f) (funext fun photo => ?_)
    obtain ⟨kind, url⟩ := photo
    cases kind with
    | embedded => rfl
    | url => rfl
  · intro hbroken
    obtain ⟨hdetect, hextract⟩ := readers_of_broken upper lower hbroken
    exact ⟨by rw [hdetect]; rfl, hextract⟩

end

def asciiUpper (text : Text) : Text := text.map Char.toUpper

def asciiLower (text : Text) : Text := text.map Char.toLower

/-- A card whose folded photo has a group and another line below it. -/
def cardOfAbc : Text := "FN:Al\r\nitem1.photo;ENCODING=b:QU\r\n JD\r\nEMAIL:a".toList

theorem readers_agree_abc :
    unfoldLines (withoutPhoto asciiUpper cardOfAbc) = ["FN:Al".toList, "EMAIL:a".toList] ∧
      (extractPhotoBytes asciiUpper asciiLower (fun _ => false) cardOfAbc).isSome = true := by
  obtain ⟨hunfold, -, -, hbytes, -⟩ :=
    readers_agree asciiUpper asciiLower (fun _ => false) cardOfAbc
  refine ⟨?_, hbytes.2 ⟨by decide, ?_⟩⟩
  · refine (hunfold ?_ ⟨"EMAIL:a".toList, by decide, by decide⟩).trans (by decide)
    unfold ColonsShown
    decide
  · exact ⟨⟨"PHOTO".toList, [("ENCODING".toList, "b".toList)], "QUJD".toList⟩, "QUJD".toList,
      by decide, by rw [Decodes, if_pos (by decide)]; decide⟩

/-- A photo cut off in its base64 is reported and cannot be read. -/
theorem truncated_photo_is_reported :
    ¬ ReadersAgree asciiUpper asciiLower (fun _ => false)
      "FN:Al\r\nPHOTO;ENCODING=b:QUJDR".toList := by
  rintro ⟨-, hkinds, -⟩
  exact absurd hkinds (by decide)

end MailVerdict.Analysis.CardReaders
