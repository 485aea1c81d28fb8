import MailVerdict.Model.PushEnvelope

/-!
# A sealed push fits and opens

Every blob that is sealed opens under its key and installation id to the payload it was sealed
for, and, with what AES-GCM promises, under no other installation id. Its length is that of the
payload's UTF-8 in base64. The loop can only drop resolved ids, and an encoding with fewer of
them is no longer; so the blob fits exactly where the payload without any does.
-/

namespace MailVerdict.Analysis

open MailVerdict.Computation
open Model.Identifiers (Text)
open Model.PushEnvelope

namespace SealedPush

/-! ## Installation ids -/

theorem digitChar_inj : ∀ a < 16, ∀ b < 16, Nat.digitChar a = Nat.digitChar b → a = b := by decide

theorem digitChar_spec : ∀ n < 16, Nat.digitChar n ≠ '-' ∧ (Nat.digitChar n).toNat < 128 := by
  decide

theorem hexDigits_inj {count m n : ℕ} (hm : m < 16 ^ count) (hn : n < 16 ^ count)
    (h : hexDigits count m = hexDigits count n) : m = n := by
  induction count generalizing m n with
  | zero =>
    rw [Nat.pow_zero] at hm hn
    omega
  | succ count ih =>
    have hdivm : m / 16 < 16 ^ count := by
      rw [Nat.pow_succ] at hm
      exact Nat.div_lt_of_lt_mul (by rwa [Nat.mul_comm])
    have hdivn : n / 16 < 16 ^ count := by
      rw [Nat.pow_succ] at hn
      exact Nat.div_lt_of_lt_mul (by rwa [Nat.mul_comm])
    obtain ⟨hfront, hlast⟩ := List.append_inj' h rfl
    have hdiv := ih hdivm hdivn hfront
    have hmod := digitChar_inj _ (Nat.mod_lt m (by decide)) _ (Nat.mod_lt n (by decide))
      (List.cons.inj hlast).1
    rw [← Nat.div_add_mod m 16, ← Nat.div_add_mod n 16, hdiv, hmod]

theorem mem_hexDigits {count n : ℕ} {c : Char} (h : c ∈ hexDigits count n) :
    c ≠ '-' ∧ c.toNat < 128 := by
  induction count generalizing n with
  | zero => exact absurd h List.not_mem_nil
  | succ count ih =>
    rcases List.mem_append.1 h with h | h
    · exact ih h
    · rw [List.mem_singleton.1 h]
      exact digitChar_spec _ (Nat.mod_lt n (by decide))

theorem filter_uuidText (id : Uuid) :
    (uuidText id).filter (fun c => decide (c ≠ '-')) = hexDigits 32 id.val := by
  have hkeep : ∀ l : Text, (∀ c ∈ l, c ∈ hexDigits 32 id.val) →
      l.filter (fun c => decide (c ≠ '-')) = l := by
    intro l hl
    refine List.filter_eq_self.2 fun c hc => decide_eq_true ?_
    exact (mem_hexDigits (hl c hc)).1
  have htake : ∀ (a b : ℕ), ∀ c ∈ ((hexDigits 32 id.val).drop a).take b,
      c ∈ hexDigits 32 id.val := fun a b c hc => List.mem_of_mem_drop (List.mem_of_mem_take hc)
  unfold uuidText
  simp only [List.filter_append, List.filter_cons, ne_eq, not_true_eq_false, decide_false,
    Bool.false_eq_true, if_false]
  have hfirst := hkeep ((hexDigits 32 id.val).take 8) fun c hc => List.mem_of_mem_take hc
  have hlast := hkeep ((hexDigits 32 id.val).drop 20) fun c hc => List.mem_of_mem_drop hc
  have hmid : ∀ a b : ℕ, (((hexDigits 32 id.val).drop a).take b).filter
      (fun c => decide ¬c = '-') = ((hexDigits 32 id.val).drop a).take b := by
    intro a b
    exact hkeep _ (htake a b)
  rw [hfirst, hlast, hmid, hmid, hmid]
  have hparts : ∀ l : Text, l.take 8 ++ (l.drop 8).take 4 ++ (l.drop 12).take 4 ++
      (l.drop 16).take 4 ++ l.drop 20 = l := by
    intro l
    rw [List.append_assoc, List.append_assoc, List.append_assoc]
    calc l.take 8 ++ ((l.drop 8).take 4 ++ ((l.drop 12).take 4 ++ ((l.drop 16).take 4 ++ l.drop 20)))
        = l.take 8 ++ ((l.drop 8).take 4 ++ ((l.drop 12).take 4 ++ ((l.drop 16).take 4 ++
            (l.drop 16).drop 4))) := by rw [List.drop_drop]
      _ = l.take 8 ++ ((l.drop 8).take 4 ++ ((l.drop 12).take 4 ++ (l.drop 12).drop 4)) := by
          rw [List.take_append_drop, List.drop_drop]
      _ = l.take 8 ++ ((l.drop 8).take 4 ++ (l.drop 8).drop 4) := by
          rw [List.take_append_drop, List.drop_drop]
      _ = l := by rw [List.take_append_drop, List.take_append_drop]
  exact hparts _

theorem uuidText_inj {id id' : Uuid} (h : uuidText id = uuidText id') : id = id' := by
  have hdigits : hexDigits 32 id.val = hexDigits 32 id'.val := by
    rw [← filter_uuidText, ← filter_uuidText, h]
  have hlt : ∀ i : Uuid, i.val < 16 ^ 32 := fun i => Nat.lt_of_lt_of_eq i.isLt (by decide)
  exact Fin.ext (hexDigits_inj (hlt id) (hlt id') hdigits)

theorem ascii_of_uuidText {id : Uuid} {c : Char} (h : c ∈ uuidText id) : c.toNat < 128 := by
  by_cases hc : c = '-'
  · rw [hc]
    decide
  · have hmem : c ∈ (uuidText id).filter (fun c => decide (c ≠ '-')) :=
      List.mem_filter.2 ⟨h, decide_eq_true hc⟩
    rw [filter_uuidText] at hmem
    exact (mem_hexDigits hmem).2

theorem ascii_inj {a b : Text} (ha : ∀ c ∈ a, c.toNat < 128) (hb : ∀ c ∈ b, c.toNat < 128)
    (h : ascii a = ascii b) : a = b := by
  induction a generalizing b with
  | nil =>
    cases b with
    | nil => rfl
    | cons c b => exact absurd h (by simp [ascii])
  | cons c a ih =>
    cases b with
    | nil => exact absurd h (by simp [ascii])
    | cons d b =>
      obtain ⟨hc, ha⟩ := List.forall_mem_cons.1 ha
      obtain ⟨hd, hb⟩ := List.forall_mem_cons.1 hb
      obtain ⟨hfirst, hrest⟩ := List.cons.inj h
      have hcode : c.toNat = d.toNat := by
        have hnat := congrArg UInt8.toNat hfirst
        rw [UInt8.toNat_ofNat', UInt8.toNat_ofNat'] at hnat
        omega
      rw [Char.toNat_inj.1 hcode, ih ha hb hrest]

/-- **Ids are told apart** by the associated data. -/
theorem aad_inj {id id' : Uuid} (h : aad id = aad id') : id = id' := by
  have hascii : ∀ i : Uuid, ∀ c ∈ ['m', 'v', '-', 'p', 'u', 's', 'h', '-', 'v', '1', ':'] ++
      uuidText i, c.toNat < 128 := by
    intro i c hc
    rcases List.mem_append.1 hc with hc | hc
    · have hprefix : ∀ c ∈ ['m', 'v', '-', 'p', 'u', 's', 'h', '-', 'v', '1', ':'],
          c.toNat < 128 := by simp
      exact hprefix c hc
    · exact ascii_of_uuidText hc
  exact uuidText_inj (List.append_cancel_left (ascii_inj (hascii id) (hascii id') h))

/-! ## Blobs -/

/-- What AES-GCM promises of what is sealed under a key with associated data `a`. -/
structure Authentic (aead : Aead) (key a : Bytes) : Prop where
  length : ∀ nonce plaintext,
    (aead.encrypt key nonce plaintext a).length = plaintext.length + 16
  opens : ∀ nonce plaintext,
    aead.decrypt key nonce (aead.encrypt key nonce plaintext a) a = some plaintext
  others : ∀ nonce plaintext a', a' ≠ a →
    aead.decrypt key nonce (aead.encrypt key nonce plaintext a) a' = none

def blobChars (p : Payload) : ℕ := 4 * ((29 + (encodePayload p).length + 2) / 3)

def plainLimit : ℕ := 2221

theorem blobChars_le_iff (p : Payload) :
    blobChars p ≤ maxBlobChars ↔ (encodePayload p).length ≤ plainLimit := by
  unfold blobChars maxBlobChars plainLimit
  omega

section
variable {aead : Aead} {key : Bytes} {id : Uuid}

/-- **One blob**: its length, what it opens to, and that it opens under one id alone. -/
theorem sealBytes_spec (hkey : key.length = contentKeyBytes) (ha : Authentic aead key (aad id))
    (plaintext : Bytes) (nonce : Nonce) :
    ∃ blob, sealBytes aead plaintext key id nonce = some blob ∧
      blob.length = 4 * ((29 + plaintext.length + 2) / 3) ∧
      openBytes aead blob key id = some plaintext ∧
      ∀ id' ≠ id, openBytes aead blob key id' = none := by
  have hsize := nonce.size
  have hlen := ha.length nonce.bytes plaintext
  have hopen : ∀ id', openBytes aead (Base64.encode (envelopeVersion ::
      (nonce.bytes ++ aead.encrypt key nonce.bytes plaintext (aad id)))) key id' =
      aead.decrypt key nonce.bytes (aead.encrypt key nonce.bytes plaintext (aad id)) (aad id') := by
    intro id'
    unfold openBytes
    rw [Base64.decode_encode, Option.bind_some, if_neg]
    · have htake : ((envelopeVersion :: (nonce.bytes ++
          aead.encrypt key nonce.bytes plaintext (aad id))).drop 1).take nonceBytes =
          nonce.bytes := by
        rw [List.drop_one, List.tail_cons]
        exact List.take_left' hsize
      have hdrop : (envelopeVersion :: (nonce.bytes ++
          aead.encrypt key nonce.bytes plaintext (aad id))).drop (1 + nonceBytes) =
          aead.encrypt key nonce.bytes plaintext (aad id) := by
        rw [← List.drop_drop, List.drop_one, List.tail_cons]
        exact List.drop_left' hsize
      rw [htake, hdrop]
    · rintro (hshort | hversion)
      · rw [List.length_cons, List.length_append, hsize, hlen] at hshort
        unfold nonceBytes at hshort
        omega
      · exact hversion rfl
  refine ⟨_, if_pos hkey, ?_, ?_, fun id' hid => ?_⟩
  · rw [Base64.length_encode, List.length_cons, List.length_append, hsize, hlen]
    omega
  · rw [hopen, ha.opens]
  · rw [hopen]
    exact ha.others _ _ _ fun heq => hid (aad_inj heq)

/-! ## Payloads -/

theorem decodeUtf8_utf8 (text : Text) : decodeUtf8 (utf8 text) = some text := by
  have hbytes : (utf8 text).toByteArray = text.utf8Encode := rfl
  rw [decodeUtf8, hbytes, List.utf8Decode?_utf8Encode]
  rfl

theorem openPayload_of_openBytes {blob : Text} {p : Payload}
    (h : openBytes aead blob key id = some (encodePayload p)) :
    openPayload aead blob key id = some p.toJson := by
  rw [openPayload, h, Option.bind_some, encodePayload, decodeUtf8_utf8, Option.bind_some,
    JsonText.loads_dumpsValue]
  rfl

theorem openPayload_of_none {blob : Text} (h : openBytes aead blob key id = none) :
    openPayload aead blob key id = none := by
  rw [openPayload, h]
  rfl

theorem utf8_append (a b : Text) : utf8 (a ++ b) = utf8 a ++ utf8 b := List.flatMap_append

theorem length_le_utf8 (text : Text) : text.length ≤ (utf8 text).length := by
  unfold utf8
  induction text with
  | nil => exact Nat.le_refl _
  | cons c text ih =>
    rw [List.flatMap_cons, List.length_append, List.length_cons, String.length_utf8EncodeChar]
    have := c.utf8Size_pos
    omega

theorem dumpsValue_toJson (p : Payload) :
    ∃ front, ∀ resolved : List Uuid,
      JsonText.dumpsValue ({ p with resolved := resolved } : Payload).toJson =
        front ++ (JsonText.dumpsValue (.arr (resolved.map idJson)) ++ ['\x7d']) := by
  obtain ⟨front, hfront⟩ := JsonText.dumpsValue_concat ("v", .num 1)
    [("alert_id", idJson p.alertId), ("kind", textJson p.kind), ("title", textJson p.title),
      ("body", orNull textJson p.body), ("account_id", orNull idJson p.accountId),
      ("message_id", orNull idJson p.messageId), ("folder_id", orNull idJson p.folderId),
      ("url", orNull textJson p.url), ("badge", .num p.badge)] "resolved"
  exact ⟨front, fun resolved => hfront _⟩

theorem length_encodePayload_withFirst_zero (p : Payload) (count : ℕ) :
    (encodePayload (p.withFirst 0)).length ≤ (encodePayload (p.withFirst count)).length := by
  obtain ⟨front, hfront⟩ := dumpsValue_toJson p
  have hbrackets : 2 ≤ (utf8 (JsonText.dumpsValue
      (.arr ((p.resolved.take count).map idJson)))).length := by
    refine Nat.le_trans ?_ (length_le_utf8 _)
    cases (p.resolved.take count).map idJson with
    | nil => exact Nat.le_refl _
    | cons j l =>
      simp only [JsonText.dumpsValue, List.length_cons, List.length_append]
      omega
  have hempty : (utf8 (JsonText.dumpsValue (.arr ((p.resolved.take 0).map idJson)))).length = 2 :=
    rfl
  unfold encodePayload Payload.withFirst
  rw [hfront, hfront]
  simp only [utf8_append, List.length_append, hempty]
  omega

/-! ## The loop over the ids -/

/-- The first `count` ids are the longest of the first ones that fit. -/
def LongestFit (p : Payload) (count : ℕ) : Prop :=
  count ≤ p.resolved.length ∧ blobChars (p.withFirst count) ≤ maxBlobChars ∧
    ∀ more, count < more → more ≤ p.resolved.length →
      maxBlobChars < blobChars (p.withFirst more)

/-- **The loop** ends with the longest that fit of the ids it has, or with none of them. -/
theorem sealFrom_spec (hkey : key.length = contentKeyBytes) (ha : Authentic aead key (aad id))
    (p : Payload) (nonces : ℕ → Nonce) (count round : ℕ) :
    ∃ kept round', sealFrom aead p key id nonces count round =
        sealBytes aead (encodePayload (p.withFirst kept)) key id (nonces round') ∧
      kept ≤ count ∧ (blobChars (p.withFirst kept) ≤ maxBlobChars ∨ kept = 0) ∧
      ∀ more, kept < more → more ≤ count → maxBlobChars < blobChars (p.withFirst more) := by
  induction count generalizing round with
  | zero => exact ⟨0, round, rfl, Nat.le_refl _, .inr rfl, fun more h h' => by omega⟩
  | succ count ih =>
    obtain ⟨blob, hseal, hlen, -, -⟩ := sealBytes_spec hkey ha
      (encodePayload (p.withFirst (count + 1))) (nonces round)
    have hchars : blob.length = blobChars (p.withFirst (count + 1)) := hlen
    rw [sealFrom, hseal]
    by_cases hfits : blob.length ≤ maxBlobChars
    · refine ⟨count + 1, round, ?_, Nat.le_refl _, .inl (hchars ▸ hfits), fun more h h' => ?_⟩
      · rw [hseal]
        exact if_pos hfits
      · omega
    · obtain ⟨kept, round', heq, hle, hkept, hmore⟩ := ih (round + 1)
      refine ⟨kept, round', (if_neg hfits).trans heq, Nat.le_succ_of_le hle, hkept,
        fun more h h' => ?_⟩
      rcases Nat.lt_or_eq_of_le h' with h' | rfl
      · exact hmore more h (Nat.le_of_lt_succ h')
      · rw [← hchars]
        exact Nat.lt_of_not_le hfits

/-- **A sealed push fits and opens**: to the payload with as many of its first ids as fit, under
its own installation id alone. -/
def Delivered (aead : Aead) (key : Bytes) (id : Uuid) (p : Payload) (result : Option Text) : Prop :=
  ∃ blob, result = some blob ∧ blob.length ≤ maxBlobChars ∧
    (∃ count, LongestFit p count ∧
      openPayload aead blob key id = some (p.withFirst count).toJson) ∧
    ∀ id' ≠ id, openPayload aead blob key id' = none

theorem delivered_sealPayload_iff (hkey : key.length = contentKeyBytes)
    (ha : Authentic aead key (aad id)) (p : Payload) (nonces : ℕ → Nonce) :
    Delivered aead key id p (sealPayload aead p key id nonces) ↔
      (encodePayload (p.withFirst 0)).length ≤ plainLimit := by
  obtain ⟨kept, round, hloop, hle, hkept, hmore⟩ :=
    sealFrom_spec hkey ha p nonces p.resolved.length 0
  obtain ⟨blob, hseal, hlen, hopen, hother⟩ := sealBytes_spec hkey ha
    (encodePayload (p.withFirst kept)) (nonces round)
  have hresult : sealPayload aead p key id nonces = some blob := hloop.trans hseal
  have hchars : blob.length = blobChars (p.withFirst kept) := hlen
  constructor
  · rintro ⟨blob', hblob', hfits, -, -⟩
    have hsame : blob = blob' := Option.some.inj (hresult.symm.trans hblob')
    rw [← hsame, hchars, blobChars_le_iff] at hfits
    exact Nat.le_trans (length_encodePayload_withFirst_zero p kept) hfits
  · intro hbase
    have hfits : blobChars (p.withFirst kept) ≤ maxBlobChars := by
      rcases hkept with hkept | rfl
      · exact hkept
      · exact (blobChars_le_iff _).2 hbase
    exact ⟨blob, hresult, hchars ▸ hfits, ⟨kept, ⟨hle, hfits, hmore⟩,
      openPayload_of_openBytes hopen⟩, fun id' hid => openPayload_of_none (hother id' hid)⟩

end

/-- **The push of an alert fits and opens** exactly where its payload without resolved ids is
within the room of a blob. -/
theorem seal_payload_fits_iff (aead : Aead) (key : Bytes) (hkey : key.length = contentKeyBytes)
    (id : Uuid) (ha : Authentic aead key (aad id)) (alert : Alert) (badge : ℤ)
    (resolved : List Uuid) (nonces : ℕ → Nonce) :
    Delivered aead key id (alertPayload alert badge resolved)
        (sealPayload aead (alertPayload alert badge resolved) key id nonces) ↔
      (encodePayload (alertPayload alert badge [])).length ≤ plainLimit :=
  delivered_sealPayload_iff hkey ha (alertPayload alert badge resolved) nonces

/-! ## An alert with a long address -/

/-- A sealer that adds sixteen zeros and opens under the associated data of one id. -/
def plainAead (id : Uuid) : Aead where
  encrypt := fun _ _ plaintext _ => plaintext ++ List.replicate 16 0
  decrypt := fun _ _ sealed a =>
    if a = aad id then some (sealed.take (sealed.length - 16)) else none

theorem authentic_plainAead (id : Uuid) (key : Bytes) :
    Authentic (plainAead id) key (aad id) where
  length := fun _ _ => by simp [plainAead]
  opens := fun _ _ => by simp [plainAead]
  others := fun _ _ a' ha' => by simp [plainAead, ha']

def addressed (url : Text) : Alert := ⟨0, [], none, none, some url, none, none, none⟩

def zeroNonce : Nonce := ⟨List.replicate 12 0, rfl⟩

/-- A title and a body of control characters, each six characters of JSON. -/
def controlled : Alert :=
  ⟨9, ['m'], some (List.replicate 160 '\x01'), some (List.replicate 120 '\x01'), none, some 4,
    none, none⟩

/-- With twenty resolved ids the payload is too long; it goes out with fewer of them. -/
theorem seal_payload_fits_plain :
    plainLimit < (encodePayload (alertPayload controlled 3 (List.replicate 20 7))).length ∧
      Delivered (plainAead 0) (List.replicate 32 0) 0
        (alertPayload controlled 3 (List.replicate 20 7))
        (sealPayload (plainAead 0) (alertPayload controlled 3 (List.replicate 20 7))
          (List.replicate 32 0) 0 fun _ => zeroNonce) :=
  ⟨by decide +kernel, (seal_payload_fits_iff (plainAead 0) (List.replicate 32 0) rfl 0
    (authentic_plainAead 0 _) controlled 3 (List.replicate 20 7) fun _ => zeroNonce).2
    (by decide +kernel)⟩

theorem length_le_encodePayload (url : Text) :
    url.length ≤ (encodePayload (alertPayload (addressed url) 0 [])).length := by
  refine Nat.le_trans ?_ (length_le_utf8 _)
  have hplain : ∀ text : Text, text.length ≤ (JsonLiteral.dumps text).length := by
    intro text
    have hone : ∀ c : Char, 1 ≤ (JsonLiteral.escapeChar c).length := by
      intro c
      unfold JsonLiteral.escapeChar
      repeat' split
      all_goals simp
    have hbody : text.length ≤ (text.flatMap JsonLiteral.escapeChar).length := by
      induction text with
      | nil => exact Nat.le_refl _
      | cons c text ih =>
        rw [List.flatMap_cons, List.length_append, List.length_cons]
        have := hone c
        omega
    unfold JsonLiteral.dumps
    rw [List.length_append, List.length_cons]
    omega
  unfold Payload.toJson alertPayload addressed
  simp only [JsonText.dumpsValue, JsonText.dumpsMoreFields, orNull, textJson,
    String.toList_ofList, List.length_cons, List.length_append]
  have := hplain url
  omega

/-- A long address leaves no room. -/
theorem seal_payload_long_url :
    ¬ Delivered (plainAead 0) (List.replicate 32 0) 0
      (alertPayload (addressed (List.replicate 3000 'a')) 0 [])
      (sealPayload (plainAead 0) (alertPayload (addressed (List.replicate 3000 'a')) 0 [])
        (List.replicate 32 0) 0 fun _ => zeroNonce) := by
  rw [delivered_sealPayload_iff rfl (authentic_plainAead 0 _)]
  have hlen := length_le_encodePayload (List.replicate 3000 'a')
  rw [List.length_replicate] at hlen
  exact fun h => absurd (Nat.le_trans hlen h) (by decide)

end SealedPush

end MailVerdict.Analysis
