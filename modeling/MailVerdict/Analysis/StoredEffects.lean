import MailVerdict.Analysis.AcceptedWebhooks
import MailVerdict.Model.EffectCodec

/-!
# Effects survive storage

What `parse_effect` returns is read back the same from what `effect_to_dict` writes of it
(`effects_survive`). Only a webhook needs to know that it was parsed: its fields are validated once
more on the way back.
-/

namespace MailVerdict.Analysis.EffectCodec

open MailVerdict.Computation Failing Model.EffectCodec
open Model.PipelineDocument (Platform Value Fields PyError Uuid truthy pyStr iterate
  uuidOf uuidOfText tupleOk)
open Model.Webhooks (WebhookSpec modelValidate)
open Analysis.Webhooks (Accepted modelValidate_ok validateFields_written written canteen)

variable {P : Platform} {O : Outside}

/-! ## Reading the written fields -/

theorem optionalUuid_written (id : Option Uuid) :
    optionalUuid (P := P) (uuidValue id) = .ok id := by
  cases id with
  | none => rfl
  | some u =>
    have hnonempty : u.text ≠ "" := by
      intro hempty
      have hread := StoredDocuments.uuidOfText_text u
      have hnone : uuidOfText "" = none := by decide
      rw [hempty, hnone] at hread
      cases hread
    have htruthy : truthy (P := P) (.str u.text) = true := decide_eq_true hnonempty
    unfold optionalUuid uuidValue
    rw [if_pos htruthy, StoredDocuments.uuidOf_text]
    rfl

theorem parseEffect_written {e : Effect P} (h : ∀ spec, e ≠ .webhook spec) :
    parseEffect O (effectToDict e) = .ok e := by
  cases e with
  | move folderName specialUse folderId =>
    show (do
      let id ← optionalUuid (P := P) (uuidValue folderId)
      pure (Effect.move folderName specialUse id)) = _
    rw [optionalUuid_written]
    rfl
  | keywords add remove => rfl
  | tag add remove => rfl
  | trash => rfl
  | expunge => rfl
  | setFlags seen flagged answered deleted => rfl
  | recordVerdict isSpam reasoning model => rfl
  | notify text => rfl
  | enqueueOrder reason => rfl
  | webhook spec => exact absurd rfl (h spec)

theorem parseEffect_webhook {spec : WebhookSpec} (h : Accepted P O.netlocError spec) :
    parseEffect (P := P) O (effectToDict (.webhook spec)) = .ok (.webhook spec) := by
  have hwritten : effectToDict (P := P) (.webhook spec)
      = [("webhook", .obj (written P spec))] := by
    obtain ⟨name, url, method, headers, param⟩ := spec
    cases param <;> rfl
  have hread : modelValidate O.netlocError (.obj (written P spec)) = .ok spec :=
    validateFields_written h
  rw [hwritten]
  show parseKind O "webhook" (.obj (written P spec)) = _
  unfold parseKind
  simp only [String.reduceEq, if_false, if_true, hread]

/-! ## What was parsed -/

theorem accepted_of_parseKind {kind : String} {value : Value P} {spec : WebhookSpec}
    (h : parseKind O kind value = .ok (.webhook spec)) : Accepted P O.netlocError spec := by
  unfold parseKind at h
  split at h
  · obtain ⟨fields, -, h⟩ := bind_ok h
    obtain ⟨id, -, h⟩ := bind_ok h
    cases h
  split at h
  · cases h
  split at h
  · cases h
  split at h
  · obtain ⟨fields, -, h⟩ := bind_ok h
    cases h
  split at h
  · obtain ⟨fields, -, h⟩ := bind_ok h
    obtain ⟨add, -, h⟩ := bind_ok h
    obtain ⟨remove, -, h⟩ := bind_ok h
    cases h
  split at h
  · obtain ⟨fields, -, h⟩ := bind_ok h
    obtain ⟨add, -, h⟩ := bind_ok h
    obtain ⟨remove, -, h⟩ := bind_ok h
    cases h
  split at h
  · obtain ⟨isSpam, -, h⟩ := bind_ok h
    obtain ⟨fields, -, h⟩ := bind_ok h
    cases h
  split at h
  · obtain ⟨fields, -, h⟩ := bind_ok h
    cases h
  split at h
  · obtain ⟨fields, -, h⟩ := bind_ok h
    cases h
  split at h
  · split at h
    · rename_i accepted hvalid
      cases h
      exact modelValidate_ok hvalid
    · cases h
  · cases h

/-- **Effects survive storage.** What `parse_effect` returned of any dictionary is what it returns
of the dictionary `effect_to_dict` makes of it. -/
theorem effects_survive (P : Platform) (O : Outside) (raw : Fields P) (e : Effect P)
    (h : parseEffect O raw = .ok e) : parseEffect O (effectToDict e) = .ok e := by
  cases e with
  | webhook spec =>
    apply parseEffect_webhook
    unfold parseEffect at h
    split at h
    · exact accepted_of_parseKind h
    · cases h
  | move | trash | expunge | setFlags | keywords | tag | recordVerdict | notify | enqueueOrder =>
    exact parseEffect_written fun _ heq => by cases heq

/-! ### A webhook with a secret and a query parameter -/

def anyHost : Outside where
  netlocError := fun _ => none
  wording := fun _ => ""

def canteenEffect : Fields StoredDocuments.wholeNumbers :=
  [("webhook", .obj [("name", .str canteen.name), ("url", .str canteen.url),
    ("headers", .obj (canteen.headers.map fun h => (h.1, .str h.2))),
    ("received_at_param", .str "received_at")])]

theorem effects_survive_canteen :
    parseEffect anyHost (effectToDict (P := StoredDocuments.wholeNumbers) (.webhook canteen))
      = .ok (.webhook canteen) :=
  effects_survive StoredDocuments.wholeNumbers anyHost canteenEffect (.webhook canteen) rfl

end MailVerdict.Analysis.EffectCodec
