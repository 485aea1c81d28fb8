import MailVerdict.Model.PipelineDocument
import MailVerdict.Computation.Failing

/-!
# A stored pipeline is the validated one

`validate_document` and `_parse_document` read the same document with different code: the
first falls back to the default for every falsy value and coerces what is left, the second
takes whatever stands under a key. The route stores the document it was given, so what a
later reader gets is what validation checked exactly when no stage uses the difference
(`DocumentKept`): a name that is absent or a text that is not empty, a config that is
absent, truthy or an empty object, `enabled` and `halt` absent or booleans, accounts that
`jsonb` keeps in order, numbers it keeps as they are, and no text it refuses. A `null`
config is accepted as the empty one and read back as `None` (`null_config_read_back`).
-/

namespace MailVerdict.Analysis.StoredDocuments

open MailVerdict.Computation Failing
open Model.PipelineDocument

variable {P : Platform}

/-! ### What storing keeps -/

theorem isZero_storedNumber (n : P.Number) : P.isZero (storedNumber n) = P.isZero n := by
  unfold storedNumber
  cases h : P.jsonb n with
  | none => rfl
  | some m => exact P.isZero_of_jsonb n m h

theorem truthy_stored (v : Value P) : truthy (stored v) = truthy v := by
  cases v with
  | null => rfl
  | bool b => rfl
  | num n =>
    show (!P.isZero (storedNumber n)) = !P.isZero n
    rw [isZero_storedNumber]
  | str s => rfl
  | arr items =>
    show (!(Json.rebuildItems storedNumber items).isEmpty) = !items.isEmpty
    rw [Json.rebuildItems_eq_map, List.isEmpty_map]
  | obj fields =>
    show (!(Json.sortFields (Json.rebuildFields storedNumber fields)).isEmpty) = !fields.isEmpty
    congr 1
    rw [Bool.eq_iff_iff, List.isEmpty_iff_length_eq_zero, List.isEmpty_iff_length_eq_zero,
      (Json.perm_sortFields _).length_eq, Json.rebuildFields_eq_map, List.length_map]

theorem uuidOf_stored (v : Value P) : uuidOf (stored v) = uuidOf v := by
  cases v <;> rfl

variable (P) in
def keyUuid (e : String × Json P.Number) : Except PyError Uuid := uuidOf (P := P) (.str e.1)

/-- Reading the keys of an object in the order `jsonb` keeps them names the same accounts. -/
def AccountsKept (v : Option (Value P)) : Prop :=
  ∀ entries, v = some (.obj entries) →
    (Json.sortFields entries).map (keyUuid P) = entries.map (keyUuid P)

theorem map_keys (entries : Fields P) :
    (entries.map fun e => (Json.str e.1 : Value P)).map uuidOf = entries.map (keyUuid P) := by
  rw [List.map_map]
  rfl

theorem stored_keys (entries : Fields P) :
    (Json.sortFields (Json.rebuildFields storedNumber entries)).map (keyUuid P) =
      (Json.sortFields entries).map (keyUuid P) := by
  rw [Json.rebuildFields_eq_map, ← Json.map_sortFields, List.map_map]
  rfl

theorem accountIds_falsy {v : Value P} (h : truthy v = false) : accountIds (some v) = .ok none := by
  show (if truthy v = true then _ else _) = _
  rw [if_neg (by simp [h])]

theorem accountIds_truthy {v : Value P} (h : truthy v = true) {items : List (Value P)}
    (hitems : iterate v = .ok items) {ids : Option (List Uuid)} :
    accountIds (some v) = .ok ids ↔
      ∃ us, ids = some us ∧ items.map uuidOf = us.map .ok := by
  have heq : accountIds (some v) = (items.mapM uuidOf).bind fun us => pure (some us) := by
    show (if truthy v = true then _ else _) = _
    rw [if_pos h, hitems]
    rfl
  rw [heq]
  constructor
  · intro hok
    cases hm : items.mapM uuidOf with
    | error e =>
      rw [hm] at hok
      cases hok
    | ok us =>
      rw [hm] at hok
      refine ⟨us, ?_, mapM_ok_iff.1 hm⟩
      injection hok with hids
      exact hids.symm
  · rintro ⟨us, rfl, hus⟩
    rw [mapM_ok_iff.2 hus]
    rfl

/-- The account ids of a stored document, and when they are the document's. -/
theorem accountIds_stored {v : Option (Value P)} {ids : Option (List Uuid)}
    (h : accountIds v = .ok ids) :
    ∃ ids', accountIds (v.map stored) = .ok ids' ∧ (ids' = ids ↔ AccountsKept v) := by
  cases v with
  | none =>
    refine ⟨ids, h, fun _ entries hv => ?_, fun _ => rfl⟩
    cases hv
  | some v =>
    rw [Option.map_some]
    cases ht : truthy v with
    | false =>
      rw [accountIds_falsy ht] at h
      refine ⟨ids, ?_, fun _ entries hv => ?_, fun _ => rfl⟩
      · rw [accountIds_falsy ((truthy_stored v).trans ht), h]
      · cases hv
        have hempty : entries = [] := by simpa [truthy] using ht
        rw [hempty]
        rfl
    | true =>
      have hts := (truthy_stored v).trans ht
      cases v with
      | null => cases ht
      | bool b | num n =>
        change (if truthy _ = true then _ else _) = _ at h
        rw [if_pos ht] at h
        cases h
      | str s =>
        refine ⟨ids, h, fun _ entries hv => ?_, fun _ => rfl⟩
        cases hv
      | arr items =>
        obtain ⟨us, rfl, hus⟩ := (accountIds_truthy ht rfl).1 h
        refine ⟨some us, (accountIds_truthy hts rfl).2 ⟨us, rfl, ?_⟩,
          fun _ entries hv => ?_, fun _ => rfl⟩
        · rw [Json.rebuildItems_eq_map, List.map_map, ← hus]
          exact List.map_congr_left fun a _ => uuidOf_stored a
        · cases hv
      | obj entries =>
        obtain ⟨us, rfl, hus⟩ := (accountIds_truthy ht rfl).1 h
        rw [map_keys] at hus
        have hsorted : ∀ e ∈ Json.sortFields entries,
            ∃ u, keyUuid P e = .ok u := by
          intro e he
          have hmem : keyUuid P e ∈ us.map Except.ok := by
            rw [← hus]
            exact List.mem_map.2 ⟨e, (Json.perm_sortFields entries).mem_iff.1 he, rfl⟩
          obtain ⟨u, -, hu⟩ := List.mem_map.1 hmem
          exact ⟨u, hu.symm⟩
        obtain ⟨us', hus'⟩ := exists_map_ok hsorted
        refine ⟨some us', (accountIds_truthy hts rfl).2 ⟨us', rfl, ?_⟩, ?_, ?_⟩
        · rw [map_keys, stored_keys, hus']
        · intro heq entries' hv
          cases hv
          cases heq
          rw [hus', hus]
        · intro hkept
          have hmap := hkept entries rfl
          rw [hus', hus] at hmap
          rw [map_ok_injective hmap]

/-! ### What validation accepts -/

/-- A stage validation took, and the definition it made of it. -/
def Accepted (raw : Value P) (d : StageDefinition P) : Prop :=
  ∃ fields stageId type accounts, raw = .obj fields ∧
    Json.get? "stage_id" fields = some (.str stageId) ∧ stageId ≠ "" ∧
    Json.get? "type" fields = some (.str type) ∧
    accountIds (Json.get? "accounts" fields) = .ok accounts ∧
    d = checkedDefinition fields stageId type accounts

theorem checkStage_cases {i : ℕ} {raw : Value P} {s s' : Progress P}
    (h : checkStage i raw s = .ok s') :
    (∃ text, s'.problems = s.problems ++ [text]) ∨
      ∃ d texts, Accepted raw d ∧ s'.problems = s.problems ++ texts ∧
        s'.definitions = s.definitions ++ [d] := by
  unfold checkStage at h
  split at h
  next fields =>
    split at h
    next stageId hid =>
      by_cases hempty : stageId = ""
      · rw [if_pos hempty] at h
        cases h
        exact Or.inl ⟨_, rfl⟩
      rw [if_neg hempty] at h
      by_cases hseen : stageId ∈ s.seenIds
      · rw [if_pos hseen] at h
        cases h
        exact Or.inl ⟨_, rfl⟩
      rw [if_neg hseen] at h
      split at h
      next type htype =>
        by_cases hnone : type = ""
        · rw [if_pos hnone] at h
          cases h
          exact Or.inl ⟨_, rfl⟩
        rw [if_neg hnone] at h
        split at h
        next => cases h
        next =>
          cases h
          exact Or.inl ⟨_, rfl⟩
        next accounts hacc =>
          dsimp only at h
          split at h
          next =>
            cases h
            exact Or.inl ⟨_, rfl⟩
          next =>
            cases h
            exact Or.inr ⟨_, _, ⟨fields, stageId, type, accounts, rfl, hid, hempty, htype, hacc,
              rfl⟩, rfl, rfl⟩
      next =>
        cases h
        exact Or.inl ⟨_, rfl⟩
    next =>
      cases h
      exact Or.inl ⟨_, rfl⟩
  next =>
    cases h
    exact Or.inl ⟨_, rfl⟩

theorem checkStages_ok {raws : List (Value P)} {i : ℕ} {s s' : Progress P}
    (h : checkStages i raws s = .ok s') (hnone : s'.problems = []) :
    s.problems = [] ∧
      ∃ ds, s'.definitions = s.definitions ++ ds ∧ List.Forall₂ Accepted raws ds := by
  induction raws generalizing i s with
  | nil =>
    cases h
    exact ⟨hnone, [], by simp, List.Forall₂.nil⟩
  | cons raw rest ih =>
    unfold checkStages at h
    split at h
    next => cases h
    next s₁ hs₁ =>
      obtain ⟨hprob, ds, hds, hrest⟩ := ih h
      rcases checkStage_cases hs₁ with ⟨text, htext⟩ | ⟨d, texts, hd, htexts, hdef⟩
      · rw [hprob] at htext
        simp at htext
      · rw [hprob] at htexts
        have hempty := List.append_eq_nil_iff.1 htexts.symm
        refine ⟨hempty.1, d :: ds, ?_, List.Forall₂.cons hd hrest⟩
        rw [hds, hdef, List.append_assoc]
        rfl

theorem validateDocument_ok {document : Fields P} {ds : List (StageDefinition P)}
    (h : validateDocument document = .ok ds) :
    ∃ stages, Json.get? "stages" document = some (.arr stages) ∧
      List.Forall₂ Accepted stages ds := by
  unfold validateDocument at h
  split at h
  next stages hstages =>
    split at h
    next => cases h
    next s hs =>
      by_cases hnone : s.problems = []
      · rw [if_pos hnone] at h
        cases h
        obtain ⟨-, ds, hds, hall⟩ := checkStages_ok hs hnone
        refine ⟨stages, hstages, ?_⟩
        rw [hds]
        exact hall
      · rw [if_neg hnone] at h
        cases h
  next => cases h

/-! ### What a stage keeps -/

/-- Equal as Python values, field by field; a `dict` has no order. -/
structure SameStage (p d : StageDefinition P) : Prop where
  stageId : p.stageId.Same d.stageId
  type : p.type.Same d.type
  name : p.name.Same d.name
  config : p.config.Same d.config
  enabled : p.enabled.Same d.enabled
  halt : p.halt.Same d.halt
  accounts : p.accounts = d.accounts

def numbersKept (v : Value P) : Bool :=
  v.all (fun n => decide (storedNumber n = n)) fun _ => true

/-- The stage has nothing the two readers read differently. -/
structure StageKept (fields : Fields P) : Prop where
  name : ∀ v, Json.get? "name" fields = some v → ∃ s, v = .str s ∧ s ≠ ""
  config : ∀ v, Json.get? "config" fields = some v →
    v = .obj [] ∨ (truthy v = true ∧ numbersKept v = true)
  enabled : ∀ v, Json.get? "enabled" fields = some v → ∃ b, v = .bool b
  halt : ∀ v, Json.get? "halt" fields = some v → ∃ b, v = .bool b
  accounts : AccountsKept (Json.get? "accounts" fields)

theorem stored_eq_str_iff {v : Value P} {s : String} : stored v = .str s ↔ v = .str s := by
  cases v <;> simp [stored, Json.rebuild]

theorem stored_eq_bool_iff {v : Value P} {b : Bool} : stored v = .bool b ↔ v = .bool b := by
  cases v <;> simp [stored, Json.rebuild]

theorem name_same_iff {v : Option (Value P)} {stageId : String} (hid : stageId ≠ "") :
    ((v.map stored).getD (.str stageId)).Same (.str
        (match v with
          | some v => if truthy v then pyStr v else stageId
          | none => stageId)) ↔
      ∀ w, v = some w → ∃ s, w = .str s ∧ s ≠ "" := by
  rw [Json.same_str_iff]
  cases v with
  | none => exact Iff.intro (fun _ w hw => by cases hw) (fun _ => rfl)
  | some v =>
    rw [Option.map_some, Option.getD_some, stored_eq_str_iff]
    dsimp only
    constructor
    · intro h w hw
      cases hw
      refine ⟨_, h, ?_⟩
      by_cases ht : truthy v = true
      · rw [if_pos ht] at h ⊢
        rw [h] at ht
        simpa only [truthy, decide_eq_true_eq] using ht
      · rw [if_neg ht]
        exact hid
    · intro h
      obtain ⟨s, rfl, hs⟩ := h v rfl
      have ht : truthy (P := P) (.str s) = true := by simpa [truthy] using hs
      simp [ht, pyStr]

theorem config_same_iff {v : Option (Value P)} :
    ((v.map stored).getD (.obj [])).Same
        (match v with
          | some v => if truthy v then v else .obj []
          | none => .obj []) ↔
      ∀ w, v = some w → w = .obj [] ∨ (truthy w = true ∧ numbersKept w = true) := by
  cases v with
  | none => exact Iff.intro (fun _ w hw => by cases hw) (fun _ => rfl)
  | some v =>
    rw [Option.map_some, Option.getD_some]
    dsimp only
    by_cases ht : truthy v = true
    · rw [if_pos ht]
      have hsame : (stored v).Same v ↔ numbersKept v = true := Json.same_rebuild_iff _ v
      rw [hsame]
      constructor
      · intro h w hw
        cases hw
        exact Or.inr ⟨ht, h⟩
      · intro h
        rcases h v rfl with rfl | ⟨-, hn⟩
        · cases ht
        · exact hn
    · rw [if_neg ht]
      constructor
      · intro h w hw
        cases hw
        refine Or.inl ?_
        cases v with
        | obj fields =>
          have hempty : fields = [] := by simpa [truthy] using ht
          rw [hempty]
        | _ => simp [Json.Same, Json.canonical, stored, Json.rebuild] at h
      · intro h
        rcases h v rfl with rfl | ⟨hw, -⟩
        · rfl
        · exact absurd hw ht

theorem flag_same_iff {v : Option (Value P)} {b : Bool} :
    ((v.map stored).getD (.bool b)).Same (.bool (truthy (v.getD (.bool b)))) ↔
      ∀ w, v = some w → ∃ c, w = .bool c := by
  rw [Json.same_bool_iff]
  cases v with
  | none => exact Iff.intro (fun _ w hw => by cases hw) (fun _ => rfl)
  | some v =>
    rw [Option.map_some, Option.getD_some, Option.getD_some, stored_eq_bool_iff]
    constructor
    · intro h w hw
      cases hw
      exact ⟨_, h⟩
    · intro h
      obtain ⟨c, rfl⟩ := h v rfl
      rfl

/-- An accepted stage parses again, as itself where its fields are kept. -/
theorem parseStage_stored {raw : Value P} {d : StageDefinition P} (h : Accepted raw d) :
    ∃ p, parseStage (stored raw) = .ok p ∧
      (SameStage p d ↔ ∀ fields, raw = .obj fields → StageKept fields) := by
  obtain ⟨fields, stageId, type, accounts, rfl, hid, hne, htype, hacc, rfl⟩ := h
  obtain ⟨ids, hids, hkept⟩ := accountIds_stored hacc
  have hget : ∀ k, Json.get? k (Json.sortFields (Json.rebuildFields storedNumber fields)) =
      (Json.get? k fields).map stored := fun k => Json.get?_rebuild storedNumber k fields
  let p : StageDefinition P :=
    { stageId := .str stageId
      type := .str type
      name := ((Json.get? "name" fields).map stored).getD (.str stageId)
      config := ((Json.get? "config" fields).map stored).getD (.obj [])
      enabled := ((Json.get? "enabled" fields).map stored).getD (.bool true)
      halt := ((Json.get? "halt" fields).map stored).getD (.bool false)
      accounts := ids }
  refine ⟨p, ?_, ?_⟩
  · show parseStage (.obj (Json.sortFields (Json.rebuildFields storedNumber fields))) = _
    unfold parseStage
    simp only [hget, hid, htype, Option.map_some, hids]
    rfl
  · constructor
    · intro hsame fields' heq
      cases heq
      exact
        { name := (name_same_iff hne).1 hsame.name
          config := config_same_iff.1 hsame.config
          enabled := flag_same_iff.1 hsame.enabled
          halt := flag_same_iff.1 hsame.halt
          accounts := hkept.1 hsame.accounts }
    · intro hall
      have hstage := hall fields rfl
      exact
        { stageId := Json.Same.refl _
          type := Json.Same.refl _
          name := (name_same_iff hne).2 hstage.name
          config := config_same_iff.2 hstage.config
          enabled := flag_same_iff.2 hstage.enabled
          halt := flag_same_iff.2 hstage.halt
          accounts := hkept.2 hstage.accounts }

theorem parseStages_stored {raws : List (Value P)} {ds : List (StageDefinition P)}
    (h : List.Forall₂ Accepted raws ds) :
    ∃ ps, (raws.map stored).mapM parseStage = .ok ps ∧
      (List.Forall₂ SameStage ps ds ↔ ∀ fields, .obj fields ∈ raws → StageKept fields) := by
  induction h with
  | nil => exact ⟨[], rfl, by simp⟩
  | @cons raw d raws ds hd _ ih =>
    obtain ⟨p, hp, hsame⟩ := parseStage_stored hd
    obtain ⟨ps, hps, hrest⟩ := ih
    refine ⟨p :: ps, ?_, ?_⟩
    · rw [mapM_ok_iff] at hps ⊢
      rw [List.map_cons, List.map_cons, List.map_cons, hp, hps]
    · rw [List.forall₂_cons, hsame, hrest]
      simp only [List.mem_cons, forall_and, or_imp, eq_comm]

/-! ### Storing and reading back -/

/-- Stored as the next revision, the document is what the current definition is parsed
from, and its stages are the definitions. -/
def ReadsBack (r : Revisions P) (document : Fields P) (ds : List (StageDefinition P)) : Prop :=
  ∃ r' p, r.append (.obj document) none = .ok r' ∧ r'.current = .ok (some p) ∧
    List.Forall₂ SameStage p.stages ds

/-- Postgres takes the document, and no stage has anything the readers differ on. -/
def DocumentKept (document : Fields P) : Prop :=
  storable (P := P) (.obj document) = true ∧
    ∀ stages, Json.get? "stages" document = some (.arr stages) →
      ∀ fields, .obj fields ∈ stages → StageKept fields

/-- A validated document parses again when it is read back. -/
theorem parseDocument_stored {document : Fields P} {ds : List (StageDefinition P)}
    (h : validateDocument document = .ok ds) (revision : ℕ) :
    ∃ ps, parseDocument revision (stored (P := P) (.obj document)) = .ok
        { revision := revision
          enabled := ((Json.get? "enabled" document).map stored).getD (.bool true)
          stages := ps } ∧
      (List.Forall₂ SameStage ps ds ↔
        ∀ stages, Json.get? "stages" document = some (.arr stages) →
          ∀ fields, .obj fields ∈ stages → StageKept fields) := by
  obtain ⟨stages, hstages, hall⟩ := validateDocument_ok h
  obtain ⟨ps, hps, hsame⟩ := parseStages_stored hall
  have hget : ∀ k, Json.get? k (Json.sortFields (Json.rebuildFields storedNumber document)) =
      (Json.get? k document).map stored := fun k => Json.get?_rebuild storedNumber k document
  have hitems : iterate (stored (P := P) (.arr stages)) = .ok (stages.map stored) := by
    show Except.ok (Json.rebuildItems storedNumber stages) = _
    rw [Json.rebuildItems_eq_map]
    rfl
  refine ⟨ps, ?_, ?_⟩
  · show parseDocument revision
      (.obj (Json.sortFields (Json.rebuildFields storedNumber document))) = _
    unfold parseDocument
    simp only [hget, hstages, Option.map_some, Option.getD_some, hitems]
    show (do
      let stages ← (stages.map stored).mapM parseStage
      pure _) = _
    rw [hps]
    rfl
  · rw [hsame]
    constructor
    · intro hkept stages' heq
      rw [hstages] at heq
      cases heq
      exact hkept
    · intro hkept
      exact hkept stages hstages

theorem append_ok {r r' : Revisions P} {document : Value P} {base : Option ℕ}
    (h : r.append document base = .ok r') :
    storable document = true ∧ r' = (r.latest + 1, stored document) :: r := by
  unfold Revisions.append at h
  cases base with
  | none =>
    by_cases hs : storable document = true
    · rw [if_pos hs] at h
      cases h
      exact ⟨hs, rfl⟩
    · rw [if_neg hs] at h
      cases h
  | some expected =>
    dsimp only at h
    by_cases hstale : r.latest ≠ expected
    · rw [if_pos hstale] at h
      cases h
    rw [if_neg hstale] at h
    by_cases hs : storable document = true
    · rw [if_pos hs] at h
      cases h
      exact ⟨hs, rfl⟩
    · rw [if_neg hs] at h
      cases h

theorem current_cons {r : Revisions P} {revision : ℕ} {document : Value P}
    {p : PipelineDefinition P} (h : parseDocument revision document = .ok p) :
    Revisions.current ((revision, document) :: r) = .ok (some p) := by
  show (do
    let definition ← parseDocument revision document
    pure (some definition)) = _
  rw [h]
  rfl

theorem readsBack_iff {document : Fields P} {ds : List (StageDefinition P)}
    (h : validateDocument document = .ok ds) (r : Revisions P) :
    ReadsBack r document ds ↔ DocumentKept document := by
  obtain ⟨ps, hps, hsame⟩ := parseDocument_stored h (r.latest + 1)
  have hcurrent := current_cons (r := r) hps
  constructor
  · rintro ⟨r', p, happend, hp, hall⟩
    obtain ⟨hs, rfl⟩ := append_ok happend
    rw [hcurrent] at hp
    cases hp
    exact ⟨hs, hsame.1 hall⟩
  · rintro ⟨hs, hkept⟩
    refine ⟨(r.latest + 1, stored (.obj document)) :: r, _, ?_, hcurrent, hsame.2 hkept⟩
    show (if storable (P := P) (.obj document) = true then _ else _) = _
    rw [if_pos hs]

/-! ### Writing a definition -/

theorem hexDigit?_hexChar (d : Fin 16) : hexDigit? (hexChar d) = some d := by
  revert d
  decide

theorem hexChar_ne (d : Fin 16) :
    hexChar d ≠ '-' ∧ hexChar d ≠ 'u' ∧ hexChar d ≠ '\x7b' ∧ hexChar d ≠ '\x7d' := by
  revert d
  decide

theorem removeAll_of_not_mem {c : Char} {pat l : List Char} (h : c ∉ l) :
    removeAll (c :: pat) 0 l = l := by
  induction l with
  | nil => rfl
  | cons x l ih =>
    have hx : c ≠ x := fun heq => h (by simp [heq])
    have hl : c ∉ l := fun hmem => h (by simp [hmem])
    unfold removeAll
    have hpre : (c :: pat).isPrefixOf (x :: l) = false := by
      simp [List.isPrefixOf, hx]
    rw [hpre, if_neg Bool.false_ne_true, ih hl]

theorem dropWhile_of_forall {p : Char → Bool} {l : List Char} (h : ∀ c ∈ l, p c = false) :
    l.dropWhile p = l := by
  cases l with
  | nil => rfl
  | cons c l => rw [List.dropWhile_cons_of_neg (by simp [h c])]

theorem stripBraces_of_forall {l : List Char}
    (h : ∀ c ∈ l, decide (c = '\x7b' ∨ c = '\x7d') = false) : stripBraces l = l := by
  unfold stripBraces
  dsimp only
  rw [dropWhile_of_forall h, dropWhile_of_forall, List.reverse_reverse]
  intro c hc
  exact h c (List.mem_reverse.1 hc)

theorem mem_text {u : Uuid} {c : Char} (h : c ∈ u.text.toList) :
    c = '-' ∨ ∃ d, c = hexChar d := by
  unfold Uuid.text at h
  have hhex : ∀ x ∈ u.digits.map hexChar, ∃ d, x = hexChar d := by
    intro x hx
    obtain ⟨d, -, rfl⟩ := List.mem_map.1 hx
    exact ⟨d, rfl⟩
  simp only [String.toList_ofList, List.mem_append, List.mem_cons] at h
  rcases h with h | h | h | h | h | h | h | h | h
  · exact Or.inr (hhex c (List.mem_of_mem_take h))
  · exact Or.inl h
  · exact Or.inr (hhex c (List.mem_of_mem_drop (List.mem_of_mem_take h)))
  · exact Or.inl h
  · exact Or.inr (hhex c (List.mem_of_mem_drop (List.mem_of_mem_take h)))
  · exact Or.inl h
  · exact Or.inr (hhex c (List.mem_of_mem_drop (List.mem_of_mem_take h)))
  · exact Or.inl h
  · exact Or.inr (hhex c (List.mem_of_mem_drop h))

theorem filter_hyphens (u : Uuid) :
    u.text.toList.filter (fun c => decide (c ≠ '-')) = u.digits.map hexChar := by
  have hkeep : ∀ l : List (Fin 16),
      (l.map hexChar).filter (fun c => decide (c ≠ '-')) = l.map hexChar := by
    intro l
    refine List.filter_eq_self.2 fun c hc => ?_
    obtain ⟨d, -, rfl⟩ := List.mem_map.1 hc
    simpa using (hexChar_ne d).1
  unfold Uuid.text
  simp only [String.toList_ofList, ← List.map_take, ← List.map_drop]
  rw [List.filter_append, List.filter_cons_of_neg (by simp), List.filter_append,
    List.filter_cons_of_neg (by simp), List.filter_append, List.filter_cons_of_neg (by simp),
    List.filter_append, List.filter_cons_of_neg (by simp)]
  simp only [hkeep, ← List.map_append]
  congr 1
  have h₁ : u.digits.drop 12 = (u.digits.drop 8).drop 4 := by rw [List.drop_drop]
  have h₂ : u.digits.drop 16 = (u.digits.drop 12).drop 4 := by rw [List.drop_drop]
  have h₃ : u.digits.drop 20 = (u.digits.drop 16).drop 4 := by rw [List.drop_drop]
  rw [h₃, List.take_append_drop, h₂, List.take_append_drop, h₁, List.take_append_drop,
    List.take_append_drop]

theorem mapM_hexDigit? (l : List (Fin 16)) : (l.map hexChar).mapM hexDigit? = some l := by
  induction l with
  | nil => rfl
  | cons d l ih =>
    rw [List.map_cons, List.mapM_cons, hexDigit?_hexChar, ih]
    rfl

theorem uuidOfText_text (u : Uuid) : uuidOfText u.text = some u := by
  have hu : 'u' ∉ u.text.toList := by
    intro hmem
    rcases mem_text hmem with h | ⟨d, h⟩
    · exact absurd h (by decide)
    · exact (hexChar_ne d).2.1 h.symm
  have hbrace : ∀ c ∈ u.text.toList, decide (c = '\x7b' ∨ c = '\x7d') = false := by
    intro c hc
    rcases mem_text hc with rfl | ⟨d, rfl⟩
    · decide
    · simpa using (hexChar_ne d).2.2
  unfold uuidOfText
  have hurn : removeAll "urn:".toList 0 u.text.toList = u.text.toList := removeAll_of_not_mem hu
  have huuid : removeAll "uuid:".toList 0 u.text.toList = u.text.toList :=
    removeAll_of_not_mem hu
  dsimp only
  rw [hurn, huuid, stripBraces_of_forall hbrace, filter_hyphens, mapM_hexDigit?]
  dsimp only
  rw [dif_pos u.length_eq]

/-- The config is a mapping, and no accounts is not an empty tuple. -/
def Writable (s : StageDefinition P) : Prop :=
  (∃ fields, s.config = .obj fields) ∧ s.accounts ≠ some []

theorem uuidOf_text (u : Uuid) : uuidOf (P := P) (.str u.text) = .ok u := by
  simp only [uuidOf, uuidOfText_text]

theorem accountIds_texts (us : List Uuid) (h : us ≠ []) :
    accountIds (P := P) (some (.arr (us.map fun u => .str u.text))) = .ok (some us) := by
  refine (accountIds_truthy ?_ rfl).2 ⟨us, rfl, ?_⟩
  · cases us with
    | nil => exact absurd rfl h
    | cons u us => rfl
  · simp only [List.map_map, Function.comp_def, uuidOf_text]

def accountsValue (accounts : Option (List Uuid)) : Value P :=
  match accounts with
  | some (a :: rest) => .arr ((a :: rest).map fun u => .str u.text)
  | _ => .null

theorem accountIds_accountsValue (accounts : Option (List Uuid)) :
    accountIds (P := P) (some (accountsValue accounts)) =
      .ok (if accounts = some [] then none else accounts) := by
  cases accounts with
  | none => rfl
  | some us =>
    cases us with
    | nil => rfl
    | cons u us =>
      rw [if_neg (by simp)]
      exact accountIds_texts (u :: us) (by simp)

theorem parseStage_written {s : StageDefinition P} {config : Fields P}
    (h : pyDict s.config = some config) :
    ∃ v, stageToDocument s = .ok v ∧ parseStage v = .ok
      { s with
        config := .obj config
        accounts := if s.accounts = some [] then none else s.accounts } := by
  refine ⟨.obj
    [("stage_id", s.stageId), ("type", s.type), ("name", s.name), ("config", .obj config),
      ("enabled", s.enabled), ("halt", s.halt), ("accounts", accountsValue s.accounts)], ?_, ?_⟩
  · unfold stageToDocument
    rw [h]
    rfl
  · unfold parseStage
    simp only [Json.get?, String.reduceEq, if_true, if_false, accountIds_accountsValue,
      Option.getD_some]
    rfl

theorem parseStage_stageToDocument_iff (s : StageDefinition P) :
    (∃ v, stageToDocument s = .ok v ∧ parseStage v = .ok s) ↔ Writable s := by
  constructor
  · rintro ⟨v, hv, hp⟩
    cases hc : pyDict s.config with
    | none =>
      unfold stageToDocument at hv
      rw [hc] at hv
      cases hv
    | some config =>
      obtain ⟨v', hv', hp'⟩ := parseStage_written hc
      rw [hv] at hv'
      cases hv'
      rw [hp] at hp'
      injection hp' with heq
      have hconfig : s.config = .obj config := congrArg StageDefinition.config heq
      have hacc : s.accounts = if s.accounts = some [] then none else s.accounts :=
        congrArg StageDefinition.accounts heq
      refine ⟨⟨config, hconfig⟩, fun hempty => ?_⟩
      rw [if_pos hempty, hempty] at hacc
      cases hacc
  · rintro ⟨⟨fields, hfields⟩, hacc⟩
    have hc : pyDict s.config = some fields := by
      rw [hfields]
      rfl
    obtain ⟨v, hv, hp⟩ := parseStage_written hc
    refine ⟨v, hv, ?_⟩
    rw [hp, if_neg hacc, ← hfields]

theorem parseStages_stageToDocument_iff (l : List (StageDefinition P)) :
    (∃ vs, l.mapM stageToDocument = .ok vs ∧ vs.mapM parseStage = .ok l) ↔
      ∀ s ∈ l, Writable s := by
  simp only [mapM_ok_iff]
  induction l with
  | nil => exact Iff.intro (fun _ s hs => by cases hs) (fun _ => ⟨[], rfl, rfl⟩)
  | cons s l ih =>
    rw [List.forall_mem_cons, ← parseStage_stageToDocument_iff, ← ih]
    constructor
    · rintro ⟨vs, hvs, hps⟩
      cases vs with
      | nil => cases hvs
      | cons v vs =>
        rw [List.map_cons, List.map_cons] at hvs hps
        injection hvs with hv hvs
        injection hps with hp hps
        exact ⟨⟨v, hv, hp⟩, vs, hvs, hps⟩
    · rintro ⟨⟨v, hv, hp⟩, vs, hvs, hps⟩
      exact ⟨v :: vs, by rw [List.map_cons, List.map_cons, hv, hvs],
        by rw [List.map_cons, List.map_cons, hp, hps]⟩

/-- Written and parsed again, the definition is what it was. -/
def RoundTrips (definition : PipelineDefinition P) : Prop :=
  ∃ document, definitionToDocument definition = .ok document ∧
    parseDocument definition.revision document = .ok definition

theorem roundTrips_iff (definition : PipelineDefinition P) :
    RoundTrips definition ↔ ∀ s ∈ definition.stages, Writable s := by
  rw [← parseStages_stageToDocument_iff]
  have hparse : ∀ vs : List (Value P), parseDocument definition.revision
      (.obj [("enabled", definition.enabled), ("stages", .arr vs)]) = (do
        let stages ← vs.mapM parseStage
        pure { definition with stages := stages }) := by
    intro vs
    rfl
  constructor
  · rintro ⟨document, hd, hp⟩
    unfold definitionToDocument at hd
    cases hvs : definition.stages.mapM stageToDocument with
    | error e =>
      rw [hvs] at hd
      cases hd
    | ok vs =>
      rw [hvs] at hd
      cases hd
      rw [hparse] at hp
      refine ⟨vs, rfl, ?_⟩
      cases hps : vs.mapM parseStage with
      | error e =>
        rw [hps] at hp
        cases hp
      | ok ps =>
        rw [hps] at hp
        injection hp with heq
        have hstages : ps = definition.stages := congrArg PipelineDefinition.stages heq
        rw [hstages]
  · rintro ⟨vs, hvs, hps⟩
    refine ⟨.obj [("enabled", definition.enabled), ("stages", .arr vs)], ?_, ?_⟩
    · unfold definitionToDocument
      rw [hvs]
      rfl
    · rw [hparse, hps]
      rfl

/-- What validation accepts is read back as validated exactly when the document is kept, and a
definition written and parsed again is itself exactly when its stages are writable. -/
theorem stored_is_validated_iff (P : Platform) :
    (∀ (r : Revisions P) (document : Fields P) (ds : List (StageDefinition P)),
      validateDocument document = .ok ds → (ReadsBack r document ds ↔ DocumentKept document)) ∧
    ∀ definition : PipelineDefinition P,
      RoundTrips definition ↔ ∀ s ∈ definition.stages, Writable s := by
  constructor
  · intro r document ds h
    exact readsBack_iff h r
  · exact roundTrips_iff

/-! ### A config that is null -/

def wholeNumbers : Platform where
  Number := ℤ
  decEq := inferInstance
  isZero n := decide (n = 0)
  jsonb := some
  isZero_of_jsonb := fun n m h => by cases h; rfl
  str _ := ""
  repr s := s
  webhookSpec _ := false
  exc _ _ := ""

def nullStage : Fields wholeNumbers :=
  [("stage_id", .str "o"), ("type", .str "orders"), ("config", .null)]

def nullConfig : Fields wholeNumbers := [("stages", .arr [.obj nullStage])]

def parsedNullStage : StageDefinition wholeNumbers where
  stageId := .str "o"
  type := .str "orders"
  name := .str "o"
  config := .null
  enabled := .bool true
  halt := .bool false
  accounts := none

/-- The null config is validated as the empty one and stored. What is read back holds
`None`, which no run can build a stage from. -/
theorem null_config_read_back :
    validateDocument nullConfig = .ok [checkedDefinition nullStage "o" "orders" none] ∧
      parseDocument 1 (stored (P := wholeNumbers) (.obj nullConfig)) =
        .ok { revision := 1, enabled := .bool true, stages := [parsedNullStage] } ∧
      ¬ ReadsBack [] nullConfig [checkedDefinition nullStage "o" "orders" none] ∧
      (buildStage (checkedDefinition nullStage "o" "orders" none)).isOk = true ∧
      (buildStage parsedNullStage).isOk = false := by
  have hparse : parseDocument 1 (stored (P := wholeNumbers) (.obj nullConfig)) =
      .ok { revision := 1, enabled := .bool true, stages := [parsedNullStage] } := rfl
  refine ⟨rfl, hparse, ?_, rfl, rfl⟩
  rintro ⟨r', p, happend, hcurrent, hall⟩
  have hr : r' = [(1, stored (.obj nullConfig))] := by
    injection happend with h
    exact h.symm
  subst hr
  change (do
    let definition ← parseDocument 1 (stored (P := wholeNumbers) (.obj nullConfig))
    pure (some definition)) = _ at hcurrent
  rw [hparse] at hcurrent
  cases hcurrent
  have hconfig := (List.forall₂_cons.1 hall).1.config
  simp [parsedNullStage, checkedDefinition, nullStage, Json.Same, Json.canonical, Json.rebuild,
    Json.get?, truthy] at hconfig

def ordersStage : Fields wholeNumbers :=
  [("stage_id", .str "o"), ("type", .str "orders"), ("config", .obj [])]

theorem ordersStage_kept : StageKept ordersStage where
  name v hv := by cases hv
  config v hv := by
    cases hv
    exact Or.inl rfl
  enabled v hv := by cases hv
  halt v hv := by cases hv
  accounts entries hv := by cases hv

theorem written_config_reads_back :
    ReadsBack (P := wholeNumbers) [] [("stages", .arr [.obj ordersStage])]
      [checkedDefinition ordersStage "o" "orders" none] := by
  refine ((stored_is_validated_iff wholeNumbers).1 [] _ _ rfl).2 ⟨rfl, ?_⟩
  intro stages hstages fields hmem
  cases hstages
  cases List.mem_singleton.1 hmem
  exact ordersStage_kept

end MailVerdict.Analysis.StoredDocuments
