import MailVerdict.Analysis.AssistantEdits

/-!
# How much more mail an accepted rule catches

The check compares two counts over the newest mail, what the rule catches and what its previous
version caught, and lets through what differs by at most half of a full sample. A mail the rule no
longer catches makes room for one it did not catch before, and a sample of fewer mails than a full
one, or one of which the previous version caught some, has fewer to gain than half of a full sample.
`breadth_iff` says for which samples the check bounds what every accepted rule catches more; for
the others `broadened` makes a rule that is accepted all the same.
-/

namespace MailVerdict.Analysis.RuleAssistant

open MailVerdict.Computation Failing
open Model.PipelineDocument Model.RuleConditions
open Model.RuleAssistant

variable {P : Platform} {R : Services P} {control : List MessageView} {c : RuleChange P}

def catches (R : Services P) (stage : Option (Fields P)) (view : MessageView) : Bool :=
  match stage with
  | none => false
  | some stage =>
    match stageMatches R stage view none with
    | .ok matched => matched
    | .error _ => false

/-! ## Counts -/

section Counts

variable (R : Services P) (control : List MessageView) (c : RuleChange P)

def newlyCaught : ℕ :=
  control.countP fun v => catches R c.after v && !catches R c.before v

def givenUp : ℕ := control.countP fun v => catches R c.before v && !catches R c.after v

/-- The mails of the sample the previous version, if there was one, did not catch. -/
def uncaught : ℕ := control.countP fun v => !catches R c.before v

/-- What the check looks at: how many more mails the rule catches. -/
def gain : ℤ := control.countP (catches R c.after) - control.countP (catches R c.before)

/-- The rule catches at most half of the sampled mails it did not catch. -/
def AtMostHalf : Prop := 2 * newlyCaught R control c ≤ uncaught R control c

end Counts

theorem gain_eq : gain R control c = newlyCaught R control c - givenUp R control c := by
  unfold gain newlyCaught givenUp
  induction control with
  | nil => rfl
  | cons v control ih =>
    simp only [List.countP_cons]
    cases catches R c.after v <;> cases catches R c.before v <;>
      simp only [Bool.not_true, Bool.not_false, Bool.and_true, Bool.and_false, if_true,
        if_false, Bool.false_eq_true] <;>
      omega

theorem hits_ok {stage : Option (Fields P)} {found : List Bool}
    (h : hits R stage control = .ok found) : found = control.map (catches R stage) := by
  cases stage with
  | none => exact (Except.ok.inj h).symm
  | some stage =>
    have hmaps := mapM_ok_iff.1 (show control.mapM (fun view => stageMatches R stage view none) =
      .ok found from h)
    have hsame : found.map (Except.ok : Bool → Except Raised Bool) =
        (control.map (catches R stage)).map Except.ok := by
      rw [← hmaps, List.map_map]
      refine List.map_congr_left fun v hv => ?_
      have hmem : stageMatches R stage v none ∈ found.map Except.ok := by
        rw [← hmaps]
        exact List.mem_map_of_mem hv
      obtain ⟨b, -, hb⟩ := List.mem_map.1 hmem
      simp only [Function.comp_apply, catches, ← hb]
    exact map_ok_injective hsame

theorem count_hits {stage : Option (Fields P)} {found : List Bool}
    (h : raises (hits R stage control) = .ok found) :
    found.count true = control.countP (catches R stage) := by
  have hfound : hits R stage control = .ok found := by
    cases hh : hits R stage control with
    | error e => rw [hh] at h; cases h
    | ok l => rw [hh] at h; exact congrArg Except.ok (Except.ok.inj h)
  rw [hits_ok hfound, List.count, List.countP_map]
  exact List.countP_congr fun v _ => by simp

theorem gain_le_of_checkBreadth (h : checkBreadth R control c = .ok ()) :
    gain R control c ≤ (controlSize / 2 : ℕ) := by
  unfold checkBreadth at h
  obtain ⟨after, hafter, h⟩ := bind_ok h
  obtain ⟨before, hbefore, h⟩ := bind_ok h
  rw [count_hits hafter, count_hits hbefore] at h
  unfold gain
  by_contra hbroad
  rw [if_pos (not_le.1 hbroad)] at h
  cases h

/-- With a full sample of which the previous version caught nothing, the check looks at what is
newly caught alone, and at half of the sample. -/
theorem atMostHalf_of_full (hgain : gain R control c ≤ (controlSize / 2 : ℕ))
    (hnone : control.countP (catches R c.before) = 0) (hfull : uncaught R control c = controlSize) :
    AtMostHalf R control c := by
  have hgiven : givenUp R control c = 0 := by
    refine List.countP_eq_zero.2 fun v hv => ?_
    have hv := List.countP_eq_zero.1 hnone v hv
    simp [hv]
  rw [gain_eq, hgiven] at hgain
  rw [AtMostHalf, hfull]
  unfold controlSize at hgain ⊢
  omega

/-! ## A rule that is broadened -/

section Broadened

open Analysis.StoredDocuments (wholeNumbers)

/-- The list of one rule, as the model is shown it, up to the text it looks for. -/
def shownHead : String :=
  "[\n  \x7b\n    \"stage_id\": \"r\",\n    " ++ ("\"type\": \"match\",\n    \"name\": " ++
    ("\"r\",\n    \"config\": \x7b\n      " ++ "\"when\": \x7b\n        \"subject_contains\": \""))

def shownTail : String :=
  "\"\n      \x7d,\n      \"effects\": [\n  " ++ ("      \x7b\n          \"set_flags\": \x7b\n  " ++
    ("          \"seen\": true\n          \x7d\n" ++ ("        \x7d\n      ]\n    \x7d,\n    \"enabl" ++
      ("ed\": true,\n    \"halt\": false,\n" ++ "    \"accounts\": null\n  \x7d\n]"))))

def invoiceServices : Services wholeNumbers :=
  { receiptServices with
    dumps := fun _ => shownHead ++ ("invoice" ++ shownTail)
    loads := fun text =>
      if text = shownHead ++ ("receipt" ++ shownTail) then
        .ok (.arr [.obj (rule "receipt")])
      else .error "Expecting value: line 1 column 1 (char 0)" }

def invoiceScene (control : List MessageView) : Scene wholeNumbers :=
  { receiptScene control with stages := [rule "invoice"] }

def invoiceEdits : Fields wholeNumbers :=
  [("edits", .arr [.obj [("old", .str "invoice"), ("new", .str "receipt")]]), ("message", .str "")]

def invoiceChange : RuleChange wholeNumbers :=
  ⟨.changed, some (rule "invoice"), some (rule "receipt")⟩

theorem invoiceEdits_applied (control : List MessageView) :
    applyEdits (rulesText invoiceServices (invoiceScene control).stages)
        (Json.get? "edits" invoiceEdits) = .ok (shownHead ++ ("receipt" ++ shownTail)) := by
  have hcount : countText "invoice".toList (shownHead ++ ("invoice" ++ shownTail)).toList = 1 := by
    unfold shownHead shownTail
    repeat rw [String.toList_append]
    decide +kernel
  have hreplaced : replaceOnce "invoice".toList "receipt".toList
      (shownHead ++ ("invoice" ++ shownTail)).toList =
        shownHead.toList ++ ("receipt" ++ shownTail).toList := by
    unfold shownHead shownTail
    repeat rw [String.toList_append]
    decide +kernel
  have htext : rulesText invoiceServices (invoiceScene control).stages =
      shownHead ++ ("invoice" ++ shownTail) := rfl
  rw [htext]
  simp only [invoiceEdits, applyEdits, applyEditsFrom, applyEdit, Json.get?, textOf,
    String.reduceEq, if_true, if_false, hcount, hreplaced]
  rw [← String.toList_append, String.ofList_toList]
  rfl

theorem invoiceEdits_accepted {control : List MessageView}
    (h : checkEach (checkBreadth invoiceServices control) [invoiceChange] = .ok ()) :
    validate invoiceServices (invoiceScene control) invoiceEdits =
      .ok ⟨[rule "receipt"], [invoiceChange], ""⟩ := by
  have hparsed : parseStages invoiceServices (invoiceScene control)
      (shownHead ++ ("receipt" ++ shownTail)) = .ok [rule "receipt"] := by
    unfold parseStages
    simp only [invoiceServices, if_true]
    rfl
  have hchanges : ruleChanges invoiceServices [rule "invoice"] [rule "receipt"] =
      [invoiceChange] := rfl
  obtain ⟨definitions, hdocument⟩ : ∃ definitions,
      checkDocument (invoiceScene control) [rule "receipt"] = .ok definitions := ⟨_, rfl⟩
  have hdenied : checkEach (checkDenied invoiceServices) (written [invoiceChange]) = .ok () := rfl
  have hfolders : checkFolders invoiceServices (invoiceScene control) [invoiceChange]
      definitions = .ok () := rfl
  have hmatches : anyMatches invoiceServices (mailAbout "Your receipt") none
      ([invoiceChange].flatMap RuleChange.stages) = .ok true := rfl
  unfold validate
  rw [invoiceEdits_applied]
  simp only [bind, Except.bind]
  rw [hparsed]
  simp only [invoiceScene, receiptScene, hchanges]
  simp only [invoiceScene, receiptScene] at hdocument hfolders
  have hwritten : written [invoiceChange] = [invoiceChange] := rfl
  rw [hwritten] at hdenied ⊢
  simp only [hdenied, hdocument, hfolders, hmatches, h, raises, if_true]
  rfl

/-- A sample of which the rule caught the first mails and may come to catch the next ones. -/
def sample (b k m : ℕ) : List MessageView :=
  List.replicate b (mailAbout "Your invoice") ++ List.replicate k (mailAbout "Your receipt") ++
    List.replicate m (mailAbout "Lunch")

section Sample

variable {b k m : ℕ}

theorem mem_sample {v : MessageView} (h : v ∈ sample b k m) :
    v = mailAbout "Your invoice" ∨ v = mailAbout "Your receipt" ∨ v = mailAbout "Lunch" := by
  obtain h | h := List.mem_append.1 h
  · obtain h | h := List.mem_append.1 h
    · exact Or.inl (List.eq_of_mem_replicate h)
    · exact Or.inr (Or.inl (List.eq_of_mem_replicate h))
  · exact Or.inr (Or.inr (List.eq_of_mem_replicate h))

theorem countP_sample (p : MessageView → Bool) :
    (sample b k m).countP p = (if p (mailAbout "Your invoice") then b else 0) +
      (if p (mailAbout "Your receipt") then k else 0) + if p (mailAbout "Lunch") then m else 0 := by
  rw [sample, List.countP_append, List.countP_append, List.countP_replicate,
    List.countP_replicate, List.countP_replicate]

theorem catches_rules :
    [mailAbout "Your invoice", mailAbout "Your receipt", mailAbout "Lunch"].map (fun v =>
      (catches invoiceServices invoiceChange.before v,
        catches invoiceServices invoiceChange.after v)) =
        [(true, false), (false, true), (false, false)] := by decide

theorem counts_sample :
    (sample b k m).countP (catches invoiceServices invoiceChange.before) = b ∧
      (sample b k m).countP (catches invoiceServices invoiceChange.after) = k ∧
      uncaught invoiceServices (sample b k m) invoiceChange = k + m ∧
      newlyCaught invoiceServices (sample b k m) invoiceChange = k := by
  have hrules := catches_rules
  simp only [List.map_cons, List.map_nil, List.cons.injEq, Prod.mk.injEq] at hrules
  obtain ⟨⟨hb, hb'⟩, ⟨hk, hk'⟩, ⟨hm, hm'⟩, -⟩ := hrules
  rw [uncaught, newlyCaught, countP_sample, countP_sample, countP_sample, countP_sample]
  simp [hb, hb', hk, hk', hm, hm']

theorem hits_sample {stage : Fields wholeNumbers}
    (h : ∀ v, v = mailAbout "Your invoice" ∨ v = mailAbout "Your receipt" ∨ v = mailAbout "Lunch" →
      stageMatches invoiceServices stage v none = .ok (catches invoiceServices (some stage) v)) :
    hits invoiceServices (some stage) (sample b k m) =
      .ok ((sample b k m).map (catches invoiceServices (some stage))) := by
  refine mapM_ok_iff.2 ?_
  rw [List.map_map]
  exact List.map_congr_left fun v hv => h v (mem_sample hv)

/-- The check compares the counts, and so accepts the change while at most fifty more are caught. -/
theorem broadened (h : k ≤ b + 50) :
    validate invoiceServices (invoiceScene (sample b k m)) invoiceEdits =
      .ok ⟨[rule "receipt"], [invoiceChange], ""⟩ := by
  have hafter : raises (hits invoiceServices invoiceChange.after (sample b k m)) = _ :=
    congrArg raises (hits_sample (by rintro v (rfl | rfl | rfl) <;> rfl))
  have hbefore : raises (hits invoiceServices invoiceChange.before (sample b k m)) = _ :=
    congrArg raises (hits_sample (by rintro v (rfl | rfl | rfl) <;> rfl))
  have hgained : ¬ (((controlSize / 2 : ℕ) : ℤ) < (k : ℤ) - (b : ℕ)) := by
    unfold controlSize
    omega
  obtain ⟨hb, hk, -⟩ := counts_sample (b := b) (k := k) (m := m)
  have hbreadth : checkBreadth invoiceServices (sample b k m) invoiceChange = .ok () := by
    unfold checkBreadth
    rw [hafter, hbefore]
    simp only [raises, bind, Except.bind]
    rw [count_hits hafter, count_hits hbefore, hb, hk, if_neg hgained]
  refine invoiceEdits_accepted ?_
  simp only [checkEach, hbreadth, bind, Except.bind]

end Sample

end Broadened

/-- **For which samples the check bounds the new catches**: every rule accepted over a sample of
which its previous version caught `b` mails and did not catch `u` catches at most half of these
`u`, exactly if there are none of them, or they are a full sample. -/
theorem breadth_iff {b u : ℕ} (hsize : b + u ≤ controlSize) :
    (∀ (P : Platform) (R : Services P) (scene : Scene P) (data : Fields P)
        (candidate : Candidate P), validate R scene data = .ok candidate →
      ∀ c ∈ written candidate.changes, scene.control.countP (catches R c.before) = b →
        uncaught R scene.control c = u → AtMostHalf R scene.control c) ↔
      u = 0 ∨ u = controlSize := by
  constructor
  · intro h
    by_contra hnot
    rw [not_or] at hnot
    unfold controlSize at hsize hnot
    obtain ⟨hb, -, hu, hnewly⟩ :=
      counts_sample (b := b) (k := min u (b + 50)) (m := u - min u (b + 50))
    have hhalf := h _ _ _ _ _ (broadened (m := u - min u (b + 50)) (Nat.min_le_right u (b + 50)))
      invoiceChange (List.mem_singleton.2 rfl) hb (hu.trans (by omega))
    replace hhalf : AtMostHalf invoiceServices
      (sample b (min u (b + 50)) (u - min u (b + 50))) invoiceChange := hhalf
    rw [AtMostHalf, hnewly, hu] at hhalf
    omega
  · rintro hu P R scene data candidate haccepted c hc hbefore huncaught
    obtain rfl | rfl := hu
    · have hnone : newlyCaught R scene.control c = 0 := by
        refine List.countP_eq_zero.2 fun v hv => ?_
        have hv := List.countP_eq_zero.1 huncaught v hv
        simp only [Bool.and_eq_true, not_and]
        exact fun _ => hv
      rw [AtMostHalf, hnone]
      exact Nat.zero_le _
    · refine atMostHalf_of_full (gain_le_of_checkBreadth ((validate_ok haccepted).breadth c hc))
        ?_ huncaught
      omega

/-- Three of a hundred mails are caught by a rule that caught none of them. -/
theorem breadth_full_sample :
    validate invoiceServices (invoiceScene (sample 0 3 97)) invoiceEdits =
        .ok ⟨[rule "receipt"], [invoiceChange], ""⟩ ∧
      newlyCaught invoiceServices (sample 0 3 97) invoiceChange = 3 ∧
      AtMostHalf invoiceServices (sample 0 3 97) invoiceChange := by
  have haccepted := broadened (b := 0) (k := 3) (m := 97) (by decide)
  have hmem : invoiceChange ∈ written [invoiceChange] := List.mem_singleton.2 rfl
  obtain ⟨hb, -, hu, hnewly⟩ := counts_sample (b := 0) (k := 3) (m := 97)
  have hbounds := (breadth_iff (b := 0) (u := controlSize) (by decide)).2 (Or.inr rfl)
  exact ⟨haccepted, hnewly, hbounds _ invoiceServices (invoiceScene (sample 0 3 97)) invoiceEdits
    ⟨[rule "receipt"], [invoiceChange], ""⟩ haccepted invoiceChange hmem hb hu⟩

/-- A rule that catches the only mail of the sample is accepted; and so is one that gives up the
one mail it caught for the other one. -/
theorem accepted_catches_all :
    (validate receiptServices (receiptScene [mailAbout "Your receipt"]) receiptEdits =
        .ok receiptCandidate ∧
      ¬AtMostHalf receiptServices [mailAbout "Your receipt"]
        ⟨.added, none, some (rule "receipt")⟩) ∧
    validate invoiceServices (invoiceScene (sample 1 1 0)) invoiceEdits =
        .ok ⟨[rule "receipt"], [invoiceChange], ""⟩ ∧
      ¬AtMostHalf invoiceServices (sample 1 1 0) invoiceChange := by
  refine ⟨⟨receiptEdits_accepted _ rfl, ?_⟩, broadened (by decide), ?_⟩
  · unfold AtMostHalf
    decide
  · unfold AtMostHalf
    decide

end MailVerdict.Analysis.RuleAssistant
