import MailVerdict.Model.RuleAssistant
import MailVerdict.Analysis.ConditionFaults

/-!
# What an accepted edit can be

Whatever the edits did to the text, the checks on what came back hold the change within its remit:
the stages that are no rules are the current ones in their order (`others_of_parseStages`), ids are
distinct, and a rule no change names is Python-equal to the current one of its id and has the place
it had among the stages both lists share. A denied effect that stands in a rule stood there before,
either because the change that wrote the rule was checked for it or because the rule is equal to its
predecessor.

`_rule_changes` finds nothing exactly when the lists are equal (`ruleChanges_eq_nil_iff`): the rules
are at the places they had, the others in the order they had, so each stage is where it was.
-/

namespace MailVerdict.Analysis.RuleAssistant

open MailVerdict.Computation Failing
open Model.PipelineDocument Model.RuleConditions
open Model.RuleAssistant

/-! ## Lists -/

section Lists

universe u

variable {α β : Type u}

theorem eq_of_map_eq {f : α → β} {l m s : List α}
    (hinj : ∀ a ∈ s, ∀ b ∈ s, f a = f b → a = b) (hl : ∀ a ∈ l, a ∈ s) (hm : ∀ a ∈ m, a ∈ s)
    (h : l.map f = m.map f) : l = m := by
  induction l generalizing m with
  | nil => exact (List.map_eq_nil_iff.1 h.symm).symm
  | cons a l ih =>
    cases m with
    | nil => cases h
    | cons b m =>
      obtain ⟨hab, hrest⟩ := List.cons.inj h
      rw [hinj a (hl a List.mem_cons_self) b (hm b List.mem_cons_self) hab,
        ih (fun a ha => hl a (List.mem_cons_of_mem _ ha))
          (fun a ha => hm a (List.mem_cons_of_mem _ ha)) hrest]

theorem eq_of_idxOf_head [DecidableEq α] {a b : α} {l m : List α}
    (h : (a :: l).idxOf a = (b :: m).idxOf a) : a = b := by
  rw [List.idxOf_cons_self] at h
  by_contra hne
  rw [List.idxOf_cons_ne m (Ne.symm hne)] at h
  cases h

/-- Two lists of the same members, without duplicates, that agree on the places of some and on the
order of the rest are the same list. -/
theorem eq_of_places [DecidableEq α] {p : α → Bool} {l m : List α} (hl : l.Nodup) (hm : m.Nodup)
    (hmem : ∀ a, a ∈ l ↔ a ∈ m) (hplace : ∀ a ∈ l, p a = true → l.idxOf a = m.idxOf a)
    (hrest : l.filter (fun a => !p a) = m.filter fun a => !p a) : l = m := by
  induction l generalizing m with
  | nil => exact (List.eq_nil_iff_forall_not_mem.2 fun a ha => by cases (hmem a).2 ha).symm
  | cons a l ih =>
    cases m with
    | nil => cases (hmem a).1 List.mem_cons_self
    | cons b m =>
      obtain ⟨hal, hl'⟩ := List.nodup_cons.1 hl
      obtain ⟨hbm, hm'⟩ := List.nodup_cons.1 hm
      have hab : a = b := by
        cases ha : p a with
        | true => exact eq_of_idxOf_head (hplace a List.mem_cons_self ha)
        | false =>
          cases hb : p b with
          | true =>
            have hsame := hplace b ((hmem b).2 List.mem_cons_self) hb
            exact (eq_of_idxOf_head hsame.symm).symm
          | false =>
            rw [List.filter_cons_of_pos (by simp [ha]),
              List.filter_cons_of_pos (by simp [hb])] at hrest
            exact (List.cons.inj hrest).1
      subst hab
      congr 1
      refine ih hl' hm' (fun c => ?_) (fun c hc hpc => ?_) ?_
      · have hc := hmem c
        rw [List.mem_cons, List.mem_cons] at hc
        by_cases hca : c = a
        · subst hca
          exact iff_of_false hal hbm
        · simpa only [hca, false_or] using hc
      · have hca : a ≠ c := fun heq => hal (heq ▸ hc)
        have hplaced := hplace c (List.mem_cons_of_mem a hc) hpc
        rw [List.idxOf_cons_ne l hca, List.idxOf_cons_ne m hca] at hplaced
        exact Nat.succ.inj hplaced
      · cases ha : p a with
        | true =>
          rw [List.filter_cons_of_neg (by simp [ha]),
            List.filter_cons_of_neg (by simp [ha])] at hrest
          exact hrest
        | false =>
          rw [List.filter_cons_of_pos (by simp [ha]),
            List.filter_cons_of_pos (by simp [ha])] at hrest
          exact (List.cons.inj hrest).2

theorem exists_of_forall₂ {r : α → β → Prop} {l : List α} {m : List β} (h : List.Forall₂ r l m)
    {b : β} (hb : b ∈ m) : ∃ a ∈ l, r a b := by
  induction h with
  | nil => cases hb
  | cons hab _ ih =>
    rcases List.mem_cons.1 hb with rfl | hb
    · exact ⟨_, List.mem_cons_self, hab⟩
    · obtain ⟨a, ha, hr⟩ := ih hb
      exact ⟨a, List.mem_cons_of_mem _ ha, hr⟩

theorem forall₂_of_map_eq {γ : Type u} {f : α → γ} {r : α → α → Prop} {l m : List α}
    (h : l.map f = m.map f) (hr : ∀ a ∈ l, ∀ b ∈ m, f a = f b → r a b) : List.Forall₂ r l m := by
  induction l generalizing m with
  | nil =>
    rw [List.map_eq_nil_iff.1 h.symm]
    exact List.Forall₂.nil
  | cons a l ih =>
    cases m with
    | nil => cases h
    | cons b m =>
      obtain ⟨hab, hrest⟩ := List.cons.inj h
      exact List.Forall₂.cons (hr a List.mem_cons_self b List.mem_cons_self hab)
        (ih hrest fun a ha b hb => hr a (List.mem_cons_of_mem _ ha) b
          (List.mem_cons_of_mem _ hb))

end Lists

variable {P : Platform} {R : Services P} {scene : Scene P} {candidate : Candidate P}

/-! ## Stages -/

/-- A stage list as `definition_to_document` gives it of a validated pipeline: every stage has its
id and its type, and no id stands twice. -/
structure Identified (stages : List (Fields P)) : Prop where
  ids : ∀ s ∈ stages, ∃ id, stageIdOf s = some id
  types : ∀ s ∈ stages, ∃ type, textOf (Json.get? "type" s) = some type
  distinct : (stages.map stageIdOf).Nodup

theorem textOf_eq_some {v : Option (Value P)} {s : String} : textOf v = some s ↔ v = some (.str s) := by
  constructor
  · intro h
    unfold textOf at h
    split at h
    · rw [Option.some.inj h]
    · cases h
  · rintro rfl
    rfl

theorem textOf_of_pyEq {a b : Fields P} {k s : String} (h : pyEq R a b = true)
    (hs : textOf (Json.get? k a) = some s) : textOf (Json.get? k b) = some s := by
  obtain ⟨w, hw, hequal⟩ := Json.get?_of_equal h (textOf_eq_some.1 hs)
  rw [hw, Json.equal_str hequal]
  rfl

theorem textOf_of_pyEq' {a b : Fields P} {k s : String} (h : pyEq R a b = true)
    (hs : textOf (Json.get? k b) = some s) : textOf (Json.get? k a) = some s := by
  obtain ⟨w, hw, hequal⟩ := Json.get?_of_equal' h (textOf_eq_some.1 hs)
  rw [hw, Json.eq_of_equal_str hequal]
  rfl

theorem isMatch_iff {s : Fields P} : isMatch s = true ↔ textOf (Json.get? "type" s) = some "match" :=
  decide_eq_true_iff

theorem isMatch_of_pyEq {a b : Fields P} (h : pyEq R a b = true) : isMatch a = isMatch b := by
  rw [Bool.eq_iff_iff, isMatch_iff, isMatch_iff]
  exact ⟨textOf_of_pyEq h, textOf_of_pyEq' h⟩

theorem idsOf_eq {stages : List (Fields P)} (h : ∀ s ∈ stages, ∃ id, stageIdOf s = some id) :
    (idsOf stages).map some = stages.map stageIdOf := by
  induction stages with
  | nil => rfl
  | cons s stages ih =>
    obtain ⟨id, hid⟩ := h s List.mem_cons_self
    have hrest := ih fun s hs => h s (List.mem_cons_of_mem _ hs)
    change ((s :: stages).filterMap stageIdOf).map some = _
    rw [List.filterMap_cons_some hid, List.map_cons, List.map_cons, hid]
    exact congrArg _ hrest

theorem mem_idsOf {stages : List (Fields P)} {id : String} :
    id ∈ idsOf stages ↔ ∃ s ∈ stages, stageIdOf s = some id := List.mem_filterMap

theorem findStage_some {stages : List (Fields P)} {id : Option String} {s : Fields P}
    (h : findStage stages id = some s) : s ∈ stages ∧ stageIdOf s = id := by
  exact ⟨List.mem_of_find?_eq_some h, by simpa using List.find?_some h⟩

theorem findStage_isSome {stages : List (Fields P)} {s : Fields P} (h : s ∈ stages) :
    ∃ s', findStage stages (stageIdOf s) = some s' := by
  rw [← Option.isSome_iff_exists]
  exact List.find?_isSome.2 ⟨s, h, by simp⟩

theorem eq_of_stageIdOf {stages : List (Fields P)} (h : (stages.map stageIdOf).Nodup)
    {a b : Fields P} (ha : a ∈ stages) (hb : b ∈ stages) (hid : stageIdOf a = stageIdOf b) :
    a = b := List.inj_on_of_nodup_map h ha hb hid

/-! ## The list read back -/

theorem checkedRule_ok {raw s : Fields P} (h : checkedRule scene raw = .ok s) :
    isMatch s = true ∧ ∃ id, stageIdOf s = some id := by
  unfold checkedRule at h
  split at h
  · dsimp only at h
    split_ifs at h
    · cases h
    · cases h
    · cases h
    · split at h
      · split at h
        · cases h
        · split at h
          · cases h
          · cases h
            exact ⟨rfl, _, rfl⟩
      · cases h
      · cases h
  · cases h

/-- A stage as the loop leaves it: one that is no rule is a current one, with its id kept; of a rule
no id is. -/
def Restored (scene : Scene P) (p : Fields P × Option String) : Prop :=
  (∃ id, stageIdOf p.1 = some id) ∧
    ((isMatch p.1 = false ∧ p.1 ∈ scene.stages ∧ p.2 = stageIdOf p.1) ∨
      (isMatch p.1 = true ∧ p.2 = none))

theorem restoreStage_ok (hscene : Identified scene.stages) {raw : Fields P}
    {p : Fields P × Option String} (h : restoreStage R scene raw = .ok p) :
    Restored scene p := by
  unfold restoreStage at h
  dsimp only at h
  have hfound : ∀ {s}, ((stageIdOf raw).bind fun id =>
      scene.stages.find? fun s => decide (stageIdOf s = some id)) = some s →
      s ∈ scene.stages ∧ stageIdOf s = stageIdOf raw := by
    intro s hs
    obtain ⟨id, hid, hs⟩ := Option.bind_eq_some_iff.1 hs
    exact ⟨List.mem_of_find?_eq_some hs, by
      rw [hid]
      simpa using List.find?_some hs⟩
  have hrule : ∀ {p}, (checkedRule scene raw).map (fun s => (s, (none : Option String))) = .ok p →
      Restored scene p := by
    intro p hp
    cases hs : checkedRule scene raw with
    | error e => rw [hs] at hp; cases hp
    | ok s =>
      rw [hs] at hp
      cases hp
      obtain ⟨hmatch, hid⟩ := checkedRule_ok hs
      exact ⟨hid, Or.inr ⟨hmatch, rfl⟩⟩
  split_ifs at h with hother
  · split at h
    · rename_i s hs
      obtain ⟨hmem, hid⟩ := hfound hs
      split_ifs at h with hsame
      · cases h
        refine ⟨hscene.ids s hmem, Or.inl ⟨?_, hmem, hid.symm⟩⟩
        cases hmatch : isMatch s with
        | false => rfl
        | true =>
          -- a rule is shown whole, so what came back for it is a rule as well
          have hshown : modelViewOfStage s = s := by rw [modelViewOfStage, if_pos hmatch]
          rw [hshown] at hsame
          have hraw := isMatch_of_pyEq hsame
          rw [hs] at hother
          rw [hraw, hmatch] at hother
          simp [hmatch] at hother
      · cases h
    · cases h
  · rw [Bool.or_eq_true, not_or] at hother
    obtain ⟨-, hnone⟩ := hother
    split at h
    · rename_i s hs
      obtain ⟨hmem, hid⟩ := hfound hs
      split_ifs at h with hsame
      · cases h
        refine ⟨hscene.ids s hmem, Or.inr ⟨?_, rfl⟩⟩
        rw [hs] at hnone
        simpa using hnone
      · exact hrule h
    · exact hrule h

theorem otherIds_eq {stages : List (Fields P)} (h : ∀ s ∈ stages, ∃ id, stageIdOf s = some id) :
    (otherIds stages).map some = (stages.filter fun s => !isMatch s).map stageIdOf :=
  idsOf_eq fun s hs => h s (List.mem_filter.1 hs).1

/-- A stage list that was read back: the others are the current ones, every stage has an id of its
own. -/
structure Parsed (before after : List (Fields P)) : Prop where
  ids : ∀ s ∈ after, ∃ id, stageIdOf s = some id
  distinct : (after.map stageIdOf).Nodup
  others : after.filter (fun s => !isMatch s) = before.filter fun s => !isMatch s

theorem keptIds_eq {parsed : List (Fields P × Option String)}
    (h : ∀ p ∈ parsed, Restored scene p) :
    (parsed.filterMap Prod.snd).map some =
      ((parsed.map Prod.fst).filter fun s => !isMatch s).map stageIdOf := by
  induction parsed with
  | nil => rfl
  | cons p parsed ih =>
    have hrest := ih fun q hq => h q (List.mem_cons_of_mem p hq)
    obtain ⟨⟨id, hid⟩, ⟨hother, -, hkept⟩ | ⟨hrule, hnone⟩⟩ := h p List.mem_cons_self
    · rw [List.filterMap_cons_some (hkept.trans hid), List.map_cons, List.map_cons,
        List.filter_cons_of_pos (by rw [hother]; rfl), List.map_cons, hrest, hid]
    · rw [List.filterMap_cons_none hnone, List.map_cons,
        List.filter_cons_of_neg (by rw [hrule]; decide), hrest]

/-- **What reading the list back establishes**, whatever the text was. -/
theorem parseStages_ok (hscene : Identified scene.stages) {text : String}
    {stages : List (Fields P)} (h : parseStages R scene text = .ok stages) :
    Parsed scene.stages stages := by
  unfold parseStages at h
  split at h
  · cases h
  · split at h
    · cases h
    · rename_i raws hraws
      obtain ⟨parsed, hparsed, h⟩ := bind_ok h
      have hloop : ∀ p ∈ parsed, Restored scene p := by
        intro p hp
        have hmem : Except.ok p ∈ raws.map (restoreStage R scene) := by
          rw [mapM_ok_iff.1 hparsed]
          exact List.mem_map_of_mem hp
        obtain ⟨raw, -, hraw⟩ := List.mem_map.1 hmem
        exact restoreStage_ok hscene hraw
      dsimp only at h
      split_ifs at h with hothers
      · cases h
      split at h
      · cases h
      · rename_i hdup
        cases h
        have hids : ∀ s ∈ parsed.map Prod.fst, ∃ id, stageIdOf s = some id := by
          intro s hs
          obtain ⟨p, hp, rfl⟩ := List.mem_map.1 hs
          exact (hloop p hp).1
        refine ⟨hids, ?_, ?_⟩
        · rw [← idsOf_eq hids]
          refine List.Nodup.map (Option.some_injective _) (List.nodup_iff_count_le_one.2 fun i => ?_)
          by_contra hmany
          have hmem : i ∈ (idsOf (parsed.map Prod.fst)).filter fun i =>
              decide (1 < (idsOf (parsed.map Prod.fst)).count i) :=
            List.mem_filter.2 ⟨List.count_pos_iff.1 (by omega), by simpa using hmany⟩
          rw [← List.mem_insertionSort (· ≤ ·)] at hmem
          unfold idsOf at hmem
          rw [hdup] at hmem
          cases hmem
        · refine eq_of_map_eq (f := stageIdOf) (s := scene.stages)
            (fun a ha b hb hab => eq_of_stageIdOf hscene.distinct ha hb hab) ?_ ?_ ?_
          · intro s hs
            obtain ⟨hs, hother⟩ := List.mem_filter.1 hs
            obtain ⟨p, hp, rfl⟩ := List.mem_map.1 hs
            rcases (hloop p hp).2 with ⟨-, hmem, -⟩ | ⟨hrule, -⟩
            · exact hmem
            · rw [hrule] at hother
              cases hother
          · exact fun s hs => (List.mem_filter.1 hs).1
          · rw [← keptIds_eq hloop, ← otherIds_eq hscene.ids, not_not.1 hothers]
  · cases h

/-! ## The changes -/

variable {before after : List (Fields P)}

/-- The place of a stage among those both lists share is the same in both. -/
def SamePlace (before after : List (Fields P)) (s : Fields P) : Prop :=
  (sharedIds before after).idxOf ((stageIdOf s).getD "") =
    (sharedIds after before).idxOf ((stageIdOf s).getD "")

def Unnamed (changes : List (RuleChange P)) (s : Fields P) : Prop :=
  ∀ c ∈ changes, c.stageId ≠ stageIdOf s

theorem changeOf_eq_none_iff {s : Fields P} :
    changeOf R before after s = none ↔ ∃ previous,
      findStage before (stageIdOf s) = some previous ∧ pyEq R previous s = true ∧
        (isMatch s = true → SamePlace before after s) := by
  unfold changeOf SamePlace
  cases hfound : findStage before (stageIdOf s) with
  | none => simp
  | some previous =>
    cases hequal : pyEq R previous s with
    | false => simp [hequal]
    | true =>
      cases hrule : isMatch s with
      | false => simp [hequal]
      | true => simp [hequal]

theorem changeOf_stageId {s : Fields P} {c : RuleChange P} (h : changeOf R before after s = some c) :
    c.after = some s ∧ c.stageId = stageIdOf s ∧ c.before = findStage before (stageIdOf s) := by
  unfold changeOf at h
  split at h
  · rename_i hfound
    cases h
    exact ⟨rfl, rfl, hfound.symm⟩
  · rename_i previous hfound
    dsimp only at h
    split_ifs at h
    · cases h
      exact ⟨rfl, rfl, hfound.symm⟩
    · cases h
      exact ⟨rfl, rfl, hfound.symm⟩

theorem changeOf_moved {s : Fields P} {c : RuleChange P} (h : changeOf R before after s = some c)
    (hmoved : c.kind = .moved) : ∃ previous,
      findStage before (stageIdOf s) = some previous ∧ pyEq R previous s = true := by
  unfold changeOf at h
  split at h
  · cases h
    cases hmoved
  · rename_i previous hfound
    split_ifs at h with hdiffers
    · cases h
      cases hmoved
    · exact ⟨previous, hfound, by simpa using hdiffers⟩

theorem changeOf_mem {s : Fields P} {c : RuleChange P} (hs : s ∈ after)
    (h : changeOf R before after s = some c) : c ∈ ruleChanges R before after :=
  List.mem_append_left _ (List.mem_filterMap.2 ⟨s, hs, h⟩)

theorem previous_of_unnamed {s : Fields P} (hs : s ∈ after)
    (h : Unnamed (ruleChanges R before after) s) : ∃ previous,
      previous ∈ before ∧ stageIdOf previous = stageIdOf s ∧ pyEq R previous s = true ∧
        (isMatch s = true → SamePlace before after s) := by
  have hnone : changeOf R before after s = none := by
    cases hc : changeOf R before after s with
    | none => rfl
    | some c => exact absurd (changeOf_stageId hc).2.1 (h c (changeOf_mem hs hc))
  obtain ⟨previous, hfound, hequal, hplace⟩ := changeOf_eq_none_iff.1 hnone
  obtain ⟨hmem, hid⟩ := findStage_some hfound
  exact ⟨previous, hmem, hid, hequal, hplace⟩

theorem kept_of_unnamed (hbefore : (before.map stageIdOf).Nodup) {s : Fields P} (hs : s ∈ before)
    (h : Unnamed (ruleChanges R before after) s) : ∃ s' ∈ after,
      stageIdOf s' = stageIdOf s ∧ pyEq R s s' = true ∧
        (isMatch s = true → SamePlace before after s) := by
  cases hfound : findStage after (stageIdOf s) with
  | none =>
    have hremoved : (⟨.removed, some s, none⟩ : RuleChange P) ∈ ruleChanges R before after :=
      List.mem_append_right _ (List.mem_map.2 ⟨s, List.mem_filter.2 ⟨hs, by rw [hfound]; rfl⟩, rfl⟩)
    exact absurd rfl (h _ hremoved)
  | some s' =>
    obtain ⟨hs', hid⟩ := findStage_some hfound
    have hunnamed : Unnamed (ruleChanges R before after) s' := fun c hc => hid ▸ h c hc
    obtain ⟨previous, hmem, hprevious, hequal, hplace⟩ := previous_of_unnamed hs' hunnamed
    have hsame : previous = s := eq_of_stageIdOf hbefore hmem hs (hprevious.trans hid)
    subst hsame
    refine ⟨s', hs', hid, hequal, fun hrule => ?_⟩
    have hplaced := hplace (isMatch_of_pyEq hequal ▸ hrule)
    unfold SamePlace at hplaced ⊢
    rw [hid] at hplaced
    exact hplaced

/-! ## No change -/

theorem ids_nodup {stages : List (Fields P)} (hids : ∀ s ∈ stages, ∃ id, stageIdOf s = some id)
    (h : (stages.map stageIdOf).Nodup) : (idsOf stages).Nodup := by
  rw [← idsOf_eq hids] at h
  exact h.of_map some

theorem idsOf_filter {stages : List (Fields P)} {q : String → Bool} {r : Fields P → Bool}
    (h : ∀ s ∈ stages, ∀ id, stageIdOf s = some id → q id = r s) :
    (idsOf stages).filter q = idsOf (stages.filter r) := by
  induction stages with
  | nil => rfl
  | cons s stages ih =>
    have hrest := ih fun s hs => h s (List.mem_cons_of_mem _ hs)
    unfold idsOf at hrest ⊢
    cases hid : stageIdOf s with
    | none =>
      rw [List.filterMap_cons_none hid, hrest, List.filter_cons]
      split
      · rw [List.filterMap_cons_none hid]
      · rfl
    | some id =>
      have hs := h s List.mem_cons_self id hid
      rw [List.filterMap_cons_some hid, List.filter_cons, List.filter_cons, hs, hrest]
      split
      · rw [List.filterMap_cons_some hid]
      · rfl

theorem findStage_of_mem {stages : List (Fields P)} (h : (stages.map stageIdOf).Nodup)
    {s : Fields P} (hs : s ∈ stages) : findStage stages (stageIdOf s) = some s := by
  obtain ⟨s', hfound⟩ := findStage_isSome hs
  obtain ⟨hmem, hid⟩ := findStage_some hfound
  rw [hfound, eq_of_stageIdOf h hmem hs hid]

theorem sharedIds_eq {l m : List (Fields P)} (h : ∀ i ∈ idsOf l, i ∈ idsOf m) :
    sharedIds l m = idsOf l := List.filter_eq_self.2 fun i hi => by simpa using h i hi

/-- Documents without a change between them have the same ids. -/
theorem idsOf_eq_of_nil (hbefore : Identified before) (hafter : Parsed before after)
    (h : ruleChanges R before after = []) : idsOf before = idsOf after := by
  have hunnamed : ∀ s, Unnamed (ruleChanges R before after) s := fun s c hc => by
    rw [h] at hc
    cases hc
  have hmem : ∀ i, i ∈ idsOf before ↔ i ∈ idsOf after := by
    intro i
    rw [mem_idsOf, mem_idsOf]
    constructor
    · rintro ⟨s, hs, hid⟩
      obtain ⟨s', hs', hid', -, -⟩ := kept_of_unnamed hbefore.distinct hs (hunnamed s)
      exact ⟨s', hs', hid'.trans hid⟩
    · rintro ⟨s, hs, hid⟩
      obtain ⟨previous, hmem, hprevious, -, -⟩ := previous_of_unnamed hs (hunnamed s)
      exact ⟨previous, hmem, hprevious.trans hid⟩
  -- the ids of the rules: each is where it was
  let rule : String → Bool := fun i =>
    before.any fun s => isMatch s && decide (stageIdOf s = some i)
  have hrule : ∀ s ∈ before, ∀ i, stageIdOf s = some i → rule i = isMatch s := by
    intro s hs i hid
    rw [Bool.eq_iff_iff, List.any_eq_true]
    constructor
    · rintro ⟨s', hs', hboth⟩
      rw [Bool.and_eq_true, decide_eq_true_eq] at hboth
      rw [← eq_of_stageIdOf hbefore.distinct hs' hs (hboth.2.trans hid.symm)]
      exact hboth.1
    · intro hmatch
      exact ⟨s, hs, by rw [hmatch, hid]; simp⟩
  have hrule' : ∀ s ∈ after, ∀ i, stageIdOf s = some i → rule i = isMatch s := by
    intro s hs i hid
    obtain ⟨previous, hprevious, hsame, hequal, -⟩ := previous_of_unnamed hs (hunnamed s)
    rw [hrule previous hprevious i (hsame.trans hid), isMatch_of_pyEq hequal]
  refine eq_of_places (p := rule) (ids_nodup hbefore.ids hbefore.distinct)
    (ids_nodup hafter.ids hafter.distinct) hmem ?_ ?_
  · intro i hi hpi
    obtain ⟨s, hs, hid⟩ := mem_idsOf.1 hi
    obtain ⟨-, -, -, -, hplace⟩ := kept_of_unnamed hbefore.distinct hs (hunnamed s)
    have hplaced := hplace (by rw [← hrule s hs i hid]; exact hpi)
    unfold SamePlace at hplaced
    rw [sharedIds_eq fun i hi => (hmem i).1 hi, sharedIds_eq fun i hi => (hmem i).2 hi,
      hid] at hplaced
    exact hplaced
  · rw [idsOf_filter (r := fun s => !isMatch s) fun s hs i hid => by rw [hrule s hs i hid],
      idsOf_filter (r := fun s => !isMatch s) fun s hs i hid => by rw [hrule' s hs i hid],
      hafter.others]

def EqualLists (R : Services P) (before after : List (Fields P)) : Prop :=
  Json.equal R.eqNum R.ofBool (.arr (before.map .obj)) (.arr (after.map .obj)) = true

theorem equalLists_iff :
    EqualLists R before after ↔ List.Forall₂ (fun a b => pyEq R a b = true) before after := by
  unfold EqualLists
  rw [Json.equal, Json.equalItems_iff, List.forall₂_map_left_iff, List.forall₂_map_right_iff]
  rfl

theorem stageIdOf_eq_of_pyEq {a b : Fields P} (ha : ∃ id, stageIdOf a = some id)
    (h : pyEq R a b = true) : stageIdOf a = stageIdOf b := by
  obtain ⟨id, hid⟩ := ha
  rw [hid]
  exact (textOf_of_pyEq h hid).symm

theorem stageIds_of_equal {l m : List (Fields P)} (hids : ∀ s ∈ l, ∃ id, stageIdOf s = some id)
    (h : List.Forall₂ (fun a b => pyEq R a b = true) l m) : l.map stageIdOf = m.map stageIdOf := by
  induction h with
  | nil => rfl
  | cons hab _ ih =>
    have hid := stageIdOf_eq_of_pyEq (hids _ List.mem_cons_self) hab
    rw [List.map_cons, List.map_cons, hid, ih fun s hs => hids s (List.mem_cons_of_mem _ hs)]

/-- **No change is found exactly when the lists are equal.** -/
theorem ruleChanges_eq_nil_iff (hbefore : Identified before) (hafter : Parsed before after) :
    ruleChanges R before after = [] ↔ EqualLists R before after := by
  rw [equalLists_iff]
  constructor
  · intro h
    have hids : before.map stageIdOf = after.map stageIdOf := by
      rw [← idsOf_eq hbefore.ids, ← idsOf_eq hafter.ids, idsOf_eq_of_nil hbefore hafter h]
    refine forall₂_of_map_eq hids fun a ha b hb hab => ?_
    have hunnamed : Unnamed (ruleChanges R before after) b :=
      fun c hc => by rw [h] at hc; cases hc
    obtain ⟨previous, hmem, hid, hequal, -⟩ := previous_of_unnamed hb hunnamed
    rw [eq_of_stageIdOf hbefore.distinct ha hmem (hab.trans hid.symm)]
    exact hequal
  · intro h
    have hids : before.map stageIdOf = after.map stageIdOf := stageIds_of_equal hbefore.ids h
    have htexts : idsOf before = idsOf after := by
      refine List.map_injective_iff.2 (Option.some_injective _) ?_
      rw [idsOf_eq hbefore.ids, idsOf_eq hafter.ids, hids]
    have hplace : ∀ s, SamePlace before after s := fun s => by
      unfold SamePlace
      rw [sharedIds_eq fun i hi => htexts ▸ hi, sharedIds_eq fun i hi => htexts ▸ hi, htexts]
    unfold ruleChanges
    rw [List.append_eq_nil_iff, List.map_eq_nil_iff]
    constructor
    · refine List.filterMap_eq_nil_iff.2 fun s hs => ?_
      obtain ⟨previous, hmem, hequal⟩ := exists_of_forall₂ h hs
      have hid := stageIdOf_eq_of_pyEq (hbefore.ids previous hmem) hequal
      refine changeOf_eq_none_iff.2 ⟨previous, ?_, hequal, fun _ => hplace s⟩
      rw [← hid]
      exact findStage_of_mem hbefore.distinct hmem
    · refine List.filter_eq_nil_iff.2 fun s hs => ?_
      have hmem : stageIdOf s ∈ after.map stageIdOf := hids ▸ List.mem_map_of_mem hs
      obtain ⟨s', hs', hid⟩ := List.mem_map.1 hmem
      rw [← hid, findStage_of_mem hafter.distinct hs']
      exact Bool.false_ne_true

/-! ## Denied effects -/

theorem carried_of_pyEq {a b : Fields P} (h : pyEq R a b = true) {effect : Value P}
    (he : effect ∈ effectsOf (some b)) : carried R (effectsOf (some a)) effect = true := by
  unfold effectsOf at he
  rw [Option.getD_some] at he
  split at he
  · rename_i config hconfig
    split at he
    · rename_i effects heffects
      obtain ⟨v, hv, hequal⟩ := Json.get?_of_equal' h hconfig
      obtain ⟨config', rfl, hequal⟩ := Json.equal_of_obj hequal
      obtain ⟨w, hw, hequal⟩ := Json.get?_of_equal' hequal heffects
      obtain ⟨effects', rfl, hall⟩ := Json.equal_of_arr hequal
      obtain ⟨e, hmem, hee⟩ := exists_of_forall₂ hall he
      have hbefore : effectsOf (some a) = effects' := by
        unfold effectsOf
        rw [Option.getD_some]
        simp only [hv, hw]
      rw [hbefore]
      exact List.any_eq_true.2 ⟨e, hmem, hee⟩
    · cases he
  · cases he

theorem carried_of_checkDenied {c : RuleChange P} {s : Fields P} (hs : c.after = some s)
    (h : checkDenied R c = .ok ()) {effect : Value P} (he : effect ∈ effectsOf (some s))
    (hdenied : deniedKeys effect ≠ []) : carried R (effectsOf c.before) effect = true := by
  unfold checkDenied at h
  rw [hs] at h
  dsimp only at h
  split_ifs at h with hnone
  · by_contra hnew
    obtain ⟨k, hk⟩ := List.exists_mem_of_ne_nil _ hdenied
    have hmem : k ∈ introducedDeniedKinds R c.before s := by
      unfold introducedDeniedKinds
      rw [List.mem_insertionSort, List.mem_eraseDups, List.mem_flatMap]
      exact ⟨effect, List.mem_filter.2 ⟨he, by simpa using hnew⟩, hk⟩
    rw [hnone] at hmem
    cases hmem
  · cases h

theorem checkEach_ok {α : Type} {check : α → Except Refusal Unit} {l : List α}
    (h : checkEach check l = .ok ()) : ∀ a ∈ l, check a = .ok () := by
  induction l with
  | nil => exact fun a ha => by cases ha
  | cons a l ih =>
    obtain ⟨u, hfirst, hrest⟩ := bind_ok h
    intro b hb
    rcases List.mem_cons.1 hb with rfl | hb
    · exact hfirst
    · exact ih hrest b hb

/-! ## An accepted change -/

structure Accepted (R : Services P) (scene : Scene P) (candidate : Candidate P) : Prop where
  parsed : ∃ text, parseStages R scene text = .ok candidate.stages
  changes : candidate.changes = ruleChanges R scene.stages candidate.stages
  denied : ∀ c ∈ written candidate.changes, checkDenied R c = .ok ()
  breadth : ∀ c ∈ written candidate.changes, checkBreadth R scene.control c = .ok ()

theorem validate_ok {data : Fields P} {candidate : Candidate P}
    (h : validate R scene data = .ok candidate) : Accepted R scene candidate := by
  obtain ⟨text, -, h⟩ := bind_ok h
  obtain ⟨stages, hstages, h⟩ := bind_ok h
  dsimp only at h
  split at h
  · cases h
  obtain ⟨_, hdenied, h⟩ := bind_ok h
  obtain ⟨definitions, -, h⟩ := bind_ok h
  obtain ⟨_, -, h⟩ := bind_ok h
  obtain ⟨matched, -, h⟩ := bind_ok h
  cases matched with
  | false => cases h
  | true =>
    obtain ⟨_, hbreadth, h⟩ := bind_ok h
    cases h
    exact ⟨⟨text, hstages⟩, rfl, checkEach_ok hdenied, checkEach_ok hbreadth⟩

structure WithinRemit (R : Services P) (before : List (Fields P)) (candidate : Candidate P) :
    Prop where
  others : candidate.stages.filter (fun s => !isMatch s) = before.filter fun s => !isMatch s
  ids : ∀ s ∈ candidate.stages, ∃ id, stageIdOf s = some id
  distinct : (candidate.stages.map stageIdOf).Nodup
  -- a current rule no change names is there, unchanged and in its place, and no rule is new
  kept : ∀ s ∈ before, isMatch s = true → Unnamed candidate.changes s →
    ∃ s' ∈ candidate.stages, stageIdOf s' = stageIdOf s ∧ pyEq R s s' = true ∧
      SamePlace before candidate.stages s
  known : ∀ s ∈ candidate.stages, isMatch s = true → Unnamed candidate.changes s →
    ∃ previous ∈ before, stageIdOf previous = stageIdOf s ∧ pyEq R previous s = true ∧
      SamePlace before candidate.stages s
  denied : ∀ s ∈ candidate.stages, isMatch s = true → ∀ effect ∈ effectsOf (some s),
    deniedKeys effect ≠ [] → ∃ previous ∈ before, stageIdOf previous = stageIdOf s ∧
      carried R (effectsOf (some previous)) effect = true

/-- An accepted edit has no denied effect that the stage did not have. -/
theorem carried_of_accepted (h : Accepted R scene candidate) {s : Fields P}
    (hs : s ∈ candidate.stages) {effect : Value P} (he : effect ∈ effectsOf (some s))
    (hdenied : deniedKeys effect ≠ []) : ∃ previous ∈ scene.stages,
      stageIdOf previous = stageIdOf s ∧ carried R (effectsOf (some previous)) effect = true := by
  cases hc : changeOf R scene.stages candidate.stages s with
  | none =>
    obtain ⟨previous, hfound, hequal, -⟩ := changeOf_eq_none_iff.1 hc
    obtain ⟨hmem, hid⟩ := findStage_some hfound
    exact ⟨previous, hmem, hid, carried_of_pyEq hequal he⟩
  | some c =>
    obtain ⟨hafter, -, hbefore⟩ := changeOf_stageId hc
    have hmem : c ∈ candidate.changes := h.changes ▸ changeOf_mem hs hc
    by_cases hmoved : c.kind = .moved
    · obtain ⟨previous, hfound, hequal⟩ := changeOf_moved hc hmoved
      obtain ⟨hprevious, hid⟩ := findStage_some hfound
      exact ⟨previous, hprevious, hid, carried_of_pyEq hequal he⟩
    · have hwritten : c ∈ written candidate.changes :=
        List.mem_filter.2 ⟨hmem, by simp [hafter, hmoved]⟩
      have hcarried := carried_of_checkDenied hafter (h.denied c hwritten) he hdenied
      rw [hbefore] at hcarried
      cases hfound : findStage scene.stages (stageIdOf s) with
      | none => rw [hfound] at hcarried; cases hcarried
      | some previous =>
        obtain ⟨hprevious, hid⟩ := findStage_some hfound
        exact ⟨previous, hprevious, hid, hfound ▸ hcarried⟩

/-- **Accepted edits stay within the assistant's remit**, whatever the model returned, and the
changes found are none exactly when nothing changed. -/
theorem within_remit (R : Services P) {scene : Scene P} (hscene : Identified scene.stages) :
    (∀ data candidate, validate R scene data = .ok candidate →
      WithinRemit R scene.stages candidate) ∧
    ∀ text stages, parseStages R scene text = .ok stages →
      (ruleChanges R scene.stages stages = [] ↔ EqualLists R scene.stages stages) := by
  refine ⟨fun data candidate h => ?_, fun text stages h =>
    ruleChanges_eq_nil_iff hscene (parseStages_ok hscene h)⟩
  have haccepted := validate_ok h
  obtain ⟨text, htext⟩ := haccepted.parsed
  have hparsed := parseStages_ok hscene htext
  refine ⟨hparsed.others, hparsed.ids, hparsed.distinct, ?_, ?_, ?_⟩
  · intro s hs hrule hunnamed
    rw [haccepted.changes] at hunnamed
    obtain ⟨s', hs', hid, hequal, hplace⟩ := kept_of_unnamed hscene.distinct hs hunnamed
    exact ⟨s', hs', hid, hequal, hplace hrule⟩
  · intro s hs hrule hunnamed
    rw [haccepted.changes] at hunnamed
    obtain ⟨previous, hmem, hid, hequal, hplace⟩ := previous_of_unnamed hs hunnamed
    exact ⟨previous, hmem, hid, hequal, hplace hrule⟩
  · exact fun s hs _ effect he hdenied => carried_of_accepted haccepted hs he hdenied

/-! ## One edit -/

section Receipt

open Analysis.StoredDocuments (wholeNumbers)

def orders : Fields wholeNumbers :=
  [("stage_id", .str "o"), ("type", .str "orders"), ("name", .str "o"), ("config", .obj []),
    ("enabled", .bool true), ("halt", .bool false), ("accounts", .null)]

def rule (subject : String) : Fields wholeNumbers :=
  [("stage_id", .str "r"), ("type", .str "match"), ("name", .str "r"),
    ("config", .obj [("when", .obj [("subject_contains", .str subject)]),
      ("effects", .arr [.obj [("set_flags", .obj [("seen", .bool true)])]])]),
    ("enabled", .bool true), ("halt", .bool false), ("accounts", .null)]

/-- The list of the orders stage, as the model is shown it, up to its last line. -/
def shownOrders : String :=
  "[\n  \x7b\n    \"stage_id\": \"o\",\n    \"type\": \"orders\",\n    \"name\": \"o\"\n  \x7d"

def writtenRule : String :=
  ", \x7b\"stage_id\": \"r\", \"type\": \"match\", \"name\": \"r\", \"config\": \x7b\"when\": " ++
  "\x7b\"subject_contains\": \"receipt\"\x7d, \"effects\": [\x7b\"set_flags\": \x7b\"seen\": true" ++
  "\x7d\x7d]\x7d, \"enabled\": true, \"halt\": false, \"accounts\": null\x7d\n]"

def receiptServices : Services wholeNumbers where
  toTexts := RuleConditions.plainTexts
  eqNum (m n : ℤ) := decide (m = n)
  ofBool b := (b.toNat : ℤ)
  dumps _ := shownOrders ++ "\n]"
  loads text :=
    if text = shownOrders ++ writtenRule then
      .ok (.arr [.obj (modelViewOfStage orders), .obj (rule "receipt")])
    else .error "Expecting value: line 1 column 1 (char 0)"
  unresolved _ _ := []

def mailAbout (subject : String) : MessageView where
  accountId := ⟨List.replicate 32 ⟨0, by decide⟩, rfl⟩
  folder := ⟨"INBOX"⟩
  subject := subject
  fromAddr := "shop@example.org"
  headers := []
  body := ""
  sizeBytes := 100
  tags := []
  attachmentTypes := []
  hasAttachments := false

def receiptScene (control : List MessageView) : Scene wholeNumbers where
  view := mailAbout "Your receipt"
  verdict := none
  enabled := .bool true
  stages := [orders]
  accounts := []
  folderNames := ["INBOX"]
  control := control

def receiptEdits : Fields wholeNumbers :=
  [("edits", .arr [.obj [("old", .str "\n]"), ("new", .str writtenRule)]]), ("message", .str "")]

def receiptCandidate : Candidate wholeNumbers where
  stages := [orders, rule "receipt"]
  changes := [⟨.added, none, some (rule "receipt")⟩]
  message := ""

variable (control : List MessageView)

theorem receiptScene_identified : Identified (receiptScene control).stages where
  ids s hs := ⟨"o", by rw [List.mem_singleton.1 hs]; rfl⟩
  types s hs := ⟨"orders", by rw [List.mem_singleton.1 hs]; rfl⟩
  distinct := List.nodup_singleton _

theorem replaceOnce_append {old new pre tail : List Char}
    (h : ((pre.tails.dropLast).all fun rest => !old.isPrefixOf (rest ++ tail)) = true) :
    replaceOnce old new (pre ++ tail) = pre ++ replaceOnce old new tail := by
  induction pre with
  | nil => rfl
  | cons c pre ih =>
    rw [List.tails_cons, List.dropLast_cons_of_ne_nil (by cases pre <;> simp), List.all_cons,
      Bool.and_eq_true] at h
    have hnot : old.isPrefixOf (c :: (pre ++ tail)) = false := by simpa using h.1
    rw [List.cons_append, replaceOnce, if_neg (by rw [hnot]; exact Bool.false_ne_true), ih h.2,
      List.cons_append]

theorem receiptEdits_applied :
    applyEdits (rulesText receiptServices (receiptScene control).stages) (Json.get? "edits" receiptEdits) =
      .ok (shownOrders ++ writtenRule) := by
  have hcount : countText "\n]".toList (shownOrders ++ "\n]").toList = 1 := by decide +kernel
  have hreplaced : replaceOnce "\n]".toList writtenRule.toList (shownOrders ++ "\n]").toList =
      shownOrders.toList ++ writtenRule.toList := by
    rw [String.toList_append, replaceOnce_append (by decide +kernel)]
    exact congrArg _ (List.append_nil _)
  have htext : rulesText receiptServices (receiptScene control).stages = shownOrders ++ "\n]" := rfl
  rw [htext]
  simp only [receiptEdits, applyEdits, applyEditsFrom, applyEdit, Json.get?, textOf, String.reduceEq,
    if_true, if_false, hcount, hreplaced]
  rw [← String.toList_append, String.ofList_toList]
  rfl

theorem receiptServices_loads :
    receiptServices.loads (shownOrders ++ writtenRule) =
      .ok (.arr [.obj (modelViewOfStage orders), .obj (rule "receipt")]) := by
  simp only [receiptServices, if_true]

theorem receiptEdits_parsed :
    parseStages receiptServices (receiptScene control) (shownOrders ++ writtenRule) =
      .ok [orders, rule "receipt"] := by
  unfold parseStages
  rw [receiptServices_loads]
  rfl

theorem receiptEdits_definitions : ∃ definitions,
    validateDocument [("enabled", .bool true),
      ("stages", .arr ([orders, rule "receipt"].map .obj))] = .ok definitions := ⟨_, rfl⟩

theorem receiptEdits_changes :
    ruleChanges receiptServices [orders] [orders, rule "receipt"] = receiptCandidate.changes := rfl

theorem receiptEdits_matches :
    anyMatches receiptServices (mailAbout "Your receipt") none
      (receiptCandidate.changes.flatMap RuleChange.stages) = .ok true := rfl

theorem receiptEdits_accepted (h : checkEach (checkBreadth receiptServices control)
      (written receiptCandidate.changes) = .ok ()) :
    validate receiptServices (receiptScene control) receiptEdits = .ok receiptCandidate := by
  obtain ⟨definitions, hdefinitions⟩ := receiptEdits_definitions
  have hdocument : checkDocument (receiptScene control) [orders, rule "receipt"] =
      .ok definitions := by
    unfold checkDocument
    rw [show (receiptScene control).enabled = .bool true from rfl, hdefinitions]
  have hdenied : checkEach (checkDenied receiptServices) (written receiptCandidate.changes) =
      .ok () := rfl
  have hfolders : checkFolders receiptServices (receiptScene control) receiptCandidate.changes
      definitions = .ok () := rfl
  unfold validate
  rw [receiptEdits_applied]
  simp only [bind, Except.bind]
  rw [receiptEdits_parsed]
  simp only [receiptScene, receiptEdits_changes]
  simp only [receiptScene] at hdocument hfolders
  simp only [hdenied, hdocument, hfolders, receiptEdits_matches, h, raises, if_true]
  rfl

theorem within_remit_receipt :
    validate receiptServices (receiptScene []) receiptEdits = .ok receiptCandidate ∧
      WithinRemit receiptServices (receiptScene []).stages receiptCandidate :=
  ⟨receiptEdits_accepted [] rfl,
    (within_remit receiptServices (receiptScene_identified [])).1 receiptEdits receiptCandidate
      (receiptEdits_accepted [] rfl)⟩

end Receipt

end MailVerdict.Analysis.RuleAssistant
