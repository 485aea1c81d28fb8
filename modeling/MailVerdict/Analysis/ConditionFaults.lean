import MailVerdict.Model.RuleConditions
import MailVerdict.Computation.ShortCircuit
import MailVerdict.Analysis.StoredDocuments

/-!
# What a condition raises

`validate_document` checks the keys of a `when` tree, not the values under them. The evaluator
reads a tree from the left and only as far as it decides, so it returns exactly when every
condition it comes to has a value of its kind (`evaluateCondition_returns_iff`): a text for a text,
a pattern that compiles or is merely invalid, an object with such a pattern for a header, a number
for a size. A config that is a list of pairs is not looked at by the check of the tree, so what it
holds may also be no condition at all.
-/

namespace MailVerdict.Analysis.RuleConditions

open MailVerdict.Computation ShortCircuit
open Model.PipelineDocument Model.RuleConditions
open Analysis.StoredDocuments

variable {P : Platform}

/-! ## Values of the right kind -/

inductive Kind
  | text
  | pattern
  | header
  | size
  | free
deriving DecidableEq

def kindOf (key : String) : Kind :=
  if key ∈ ["subject_contains", "body_contains", "sender_match", "sender_domain", "folder_is",
    "tag_is"] then .text
  else if key = "subject_matches" ∨ key = "body_matches" then .pattern
  else if key = "header_match" then .header
  else if key = "size_gt" ∨ key = "size_lt" then .size
  else .free

def IsText (v : Value P) : Prop := ∃ s, v = .str s

/-- A text; compiled as a pattern it raises nothing but `re.error`. -/
def IsPattern (T : Texts P) (v : Value P) : Prop :=
  ∃ p, v = .str p ∧ ∀ e, T.compile p ≠ .error (.other e)

def IsNumber (v : Value P) : Prop := (∃ n, v = .num n) ∨ ∃ b, v = .bool b

def IsHeaderPattern (T : Texts P) (v : Value P) : Prop :=
  ∃ fields, v = .obj fields ∧ IsPattern T ((Json.get? "pattern" fields).getD (.str ""))

def Kind.Takes (T : Texts P) (v : Value P) : Kind → Prop
  | .text => IsText v
  | .pattern => IsPattern T v
  | .header => IsHeaderPattern T v
  | .size => IsNumber v
  | .free => True

def Fits (T : Texts P) (key : String) (v : Value P) : Prop := (kindOf key).Takes T v

/-- A condition that is no list of others: of one key with a value of its kind, or an empty object.
What `all` and `any` have instead of a list may be empty. -/
def WellFormed (T : Texts P) : Value P → Prop
  | .obj [] => True
  | .obj [(key, v)] => if key = "all" ∨ key = "any" then v = .str "" ∨ v = .obj [] else Fits T key v
  | _ => False

/-! ## What a condition tells -/

section Meaning

variable (T : Texts P) (ctx : MailContext)

def textOf : Value P → Option String
  | .str s => some s
  | _ => none

def found (text : String) (v : Value P) : Bool :=
  (textOf v).any fun p => match T.compile p with
    | .ok matcher => matcher text
    | .error _ => false

def headerTells : Value P → Bool
  | .obj fields =>
    let header := T.lower (pyStr ((Json.get? "field" fields).getD (.str "")))
    found T ((Json.get? header ctx.rawHeaders).getD "")
      ((Json.get? "pattern" fields).getD (.str ""))
  | _ => false

def sizeTells (size : ℤ) (number : ℤ → P.Number → Bool) (integer : ℤ → ℤ → Bool) : Value P → Bool
  | .num n => number size n
  | .bool b => integer size b.toNat
  | _ => false

def attachmentTells : Value P → Bool
  | .str s => ctx.attachmentTypes.any fun t => isIn (T.lower s) (T.lower t)
  | _ => ctx.hasAttachments

def verdictTells (v : Value P) : Bool :=
  ctx.verdictIsSpam.any fun isSpam => decide (isSpam = decide (textOf v = some "spam"))

/-- What a condition of one key tells of a mail; one with a value of another kind tells nothing. -/
def tells (key : String) (v : Value P) : Bool :=
  if key = "subject_contains" then (textOf v).any fun s => isIn (T.lower s) (T.lower ctx.subject)
  else if key = "body_contains" then (textOf v).any fun s => isIn (T.lower s) (T.lower ctx.bodyText)
  else if key = "subject_matches" then found T ctx.subject v
  else if key = "body_matches" then found T ctx.bodyText v
  else if key = "sender_match" then
    (textOf v).any fun s =>
      if isIn "@" (T.lower s) then decide (T.lower ctx.fromAddr = T.lower s)
      else ('@' :: (T.lower s).toList).isSuffixOf (T.lower ctx.fromAddr).toList
  else if key = "sender_domain" then
    (textOf v).any fun s => ('@' :: (T.lower s).toList).isSuffixOf (T.lower ctx.fromAddr).toList
  else if key = "header_match" then headerTells T ctx v
  else if key = "header_exists" then (Json.get? (T.lower (pyStr v)) ctx.rawHeaders).isSome
  else if key = "size_gt" then
    sizeTells ctx.sizeBytes T.sizeGt (fun size n => decide (n < size)) v
  else if key = "size_lt" then
    sizeTells ctx.sizeBytes T.sizeLt (fun size n => decide (size < n)) v
  else if key = "has_attachment" then attachmentTells T ctx v
  else if key = "folder_is" then (textOf v).any fun s => decide (T.lower ctx.folder = T.lower s)
  else if key = "tag_is" then
    (textOf v).any fun s => ctx.tags.any fun t => decide (T.lower t = T.lower s)
  else if key = "verdict_is" then verdictTells ctx v
  else false

def leafTells : Value P → Bool
  | .obj [(key, v)] => if key = "all" then true else if key = "any" then false else tells T ctx key v
  | _ => false

mutual

def conditionTree : Value P → BoolTree (Value P)
  | .obj [(key, value)] =>
    if key = "all" then
      match value with
      | .arr items => .all (conditionTrees items)
      | value => .leaf (.obj [(key, value)])
    else if key = "any" then
      match value with
      | .arr items => .any (conditionTrees items)
      | value => .leaf (.obj [(key, value)])
    else if key = "not" then .not (conditionTree value)
    else .leaf (.obj [(key, value)])
  | condition => .leaf condition

def conditionTrees : List (Value P) → List (BoolTree (Value P))
  | [] => []
  | item :: items => conditionTree item :: conditionTrees items

end

/-- The leaf `leaf` of a condition is come to: in each `all` above it every earlier member holds of
the mail, in each `any` none does. -/
def ComesTo (condition leaf : Value P) : Prop :=
  Reached (leafTells T ctx) (conditionTree condition) leaf

end Meaning

/-! ## A leaf -/

/-- An evaluation returns exactly under a condition, and then what was told. -/
structure Agrees (r : Except Raised Bool) (told : Bool) (fits : Prop) : Prop where
  returns : (∃ b, r = .ok b) ↔ fits
  told : ∀ b, r = .ok b → told = b

section Leaves

variable {T : Texts P} {ctx : MailContext} {key : String} {v : Value P}

theorem Agrees.ite {c fits : Prop} [Decidable c] {r r' : Except Raised Bool} {told told' : Bool}
    (hpos : c → Agrees r told fits) (hneg : ¬c → Agrees r' told' fits) :
    Agrees (if c then r else r') (if c then told else told') fits := by
  by_cases h : c
  · rw [if_pos h, if_pos h]
    exact hpos h
  · rw [if_neg h, if_neg h]
    exact hneg h

theorem Agrees.of_kind {r : Except Raised Bool} {told : Bool} {k : Kind}
    (h : Agrees r told (k.Takes T v)) (hk : kindOf key = k) : Agrees r told (Fits T key v) := by
  unfold Fits
  rw [hk]
  exact h

theorem agrees_raises {e : Raised} {told : Bool} {fits : Prop} (h : ¬fits) :
    Agrees (.error e) told fits :=
  ⟨iff_of_false (fun ⟨b, hb⟩ => by cases hb) h, fun b hb => by cases hb⟩

theorem agrees_free (b : Bool) : Agrees (.ok b) b (Kind.free.Takes T v) where
  returns := iff_of_true ⟨b, rfl⟩ trivial
  told _ hb := Except.ok.inj hb

theorem agrees_text (g : String → Bool) :
    Agrees ((lower T v).map g) ((textOf v).any fun s => g (T.lower s)) (Kind.text.Takes T v) := by
  cases v with
  | str s => exact ⟨iff_of_true ⟨_, rfl⟩ ⟨s, rfl⟩, fun _ hb => Except.ok.inj hb⟩
  | _ =>
    refine agrees_raises ?_
    rintro ⟨s, hs⟩
    cases hs

theorem agrees_search (text : String) :
    Agrees (search T v text) (found T text v) (Kind.pattern.Takes T v) := by
  cases v with
  | str p =>
    cases hp : T.compile p with
    | ok matcher =>
      have hsearch : search T (.str p) text = .ok (matcher text) := by simp only [search, hp]
      have hfound : found T text (.str p) = matcher text := by
        simp only [found, textOf, Option.any_some, hp]
      rw [hsearch, hfound]
      refine ⟨iff_of_true ⟨_, rfl⟩ ⟨p, rfl, fun e he => ?_⟩, fun b hb => Except.ok.inj hb⟩
      rw [hp] at he
      cases he
    | error fault =>
      have hfound : found T text (.str p) = false := by
        simp only [found, textOf, Option.any_some, hp]
      rw [hfound]
      cases fault with
      | invalid =>
        have hsearch : search T (.str p) text = .ok false := by simp only [search, hp]
        rw [hsearch]
        refine ⟨iff_of_true ⟨_, rfl⟩ ⟨p, rfl, fun e he => ?_⟩, fun b hb => Except.ok.inj hb⟩
        rw [hp] at he
        cases he
      | other e =>
        have hsearch : search T (.str p) text = .error e := by simp only [search, hp]
        rw [hsearch]
        refine agrees_raises ?_
        rintro ⟨p', hp', hnone⟩
        cases hp'
        exact hnone e hp
  | _ =>
    refine agrees_raises ?_
    rintro ⟨s, hs, -⟩
    cases hs

theorem agrees_header :
    Agrees (evalHeaderMatch T ctx v) (headerTells T ctx v) (Kind.header.Takes T v) := by
  cases v with
  | obj fields =>
    obtain ⟨hreturns, htold⟩ := agrees_search (T := T)
      (v := (Json.get? "pattern" fields).getD (.str ""))
      ((Json.get? (T.lower (pyStr ((Json.get? "field" fields).getD (.str "")))) ctx.rawHeaders).getD
        "")
    refine ⟨hreturns.trans ?_, htold⟩
    exact Iff.intro (fun h => ⟨fields, rfl, h⟩) (fun ⟨_, hf, h⟩ => by cases hf; exact h)
  | _ =>
    refine agrees_raises ?_
    rintro ⟨s, hs, -⟩
    cases hs

theorem agrees_size {size : ℤ} {number : ℤ → P.Number → Bool} {integer : ℤ → ℤ → Bool} :
    Agrees (compareSize size number integer v) (sizeTells size number integer v)
      (Kind.size.Takes T v) := by
  cases v with
  | num n => exact ⟨iff_of_true ⟨_, rfl⟩ (Or.inl ⟨n, rfl⟩), fun _ hb => Except.ok.inj hb⟩
  | bool c => exact ⟨iff_of_true ⟨_, rfl⟩ (Or.inr ⟨c, rfl⟩), fun _ hb => Except.ok.inj hb⟩
  | _ =>
    refine agrees_raises ?_
    rintro (⟨n, hn⟩ | ⟨n, hn⟩) <;> cases hn

theorem agrees_attachment :
    Agrees (evalHasAttachment T ctx v) (attachmentTells T ctx v) (Kind.free.Takes T v) := by
  cases v <;> exact agrees_free _

theorem agrees_verdict :
    Agrees (evalVerdictIs ctx v) (verdictTells ctx v) (Kind.free.Takes T v) := by
  unfold evalVerdictIs verdictTells
  cases ctx.verdictIsSpam with
  | none => exact agrees_free _
  | some isSpam =>
    cases v with
    | str s =>
      simp only [textOf, Option.any_some, Option.some.injEq]
      exact agrees_free _
    | _ =>
      exact agrees_free _

/-- A leaf is evaluated as it tells, where its value fits. -/
theorem evaluate_agrees : Agrees (evaluate T ctx key v) (tells T ctx key v) (Fits T key v) := by
  refine .ite (fun h => (agrees_text _).of_kind (by rw [h]; decide)) fun h₁ => ?_
  refine .ite (fun h => (agrees_text _).of_kind (by rw [h]; decide)) fun h₂ => ?_
  refine .ite (fun h => (agrees_search _).of_kind (by rw [h]; decide)) fun h₃ => ?_
  refine .ite (fun h => (agrees_search _).of_kind (by rw [h]; decide)) fun h₄ => ?_
  refine .ite (fun h => (agrees_text _).of_kind (by rw [h]; decide)) fun h₅ => ?_
  refine .ite (fun h => (agrees_text _).of_kind (by rw [h]; decide)) fun h₆ => ?_
  refine .ite (fun h => agrees_header.of_kind (by rw [h]; decide)) fun h₇ => ?_
  refine .ite (fun h => (agrees_free _).of_kind (by rw [h]; decide)) fun h₈ => ?_
  refine .ite (fun h => agrees_size.of_kind (by rw [h]; decide)) fun h₉ => ?_
  refine .ite (fun h => agrees_size.of_kind (by rw [h]; decide)) fun h₁₀ => ?_
  refine .ite (fun h => agrees_attachment.of_kind (by rw [h]; decide)) fun h₁₁ => ?_
  refine .ite (fun h => (agrees_text _).of_kind (by rw [h]; decide)) fun h₁₂ => ?_
  refine .ite (fun h => (agrees_text _).of_kind (by rw [h]; decide)) fun h₁₃ => ?_
  refine .ite (fun h => agrees_verdict.of_kind (by rw [h]; decide)) fun h₁₄ => ?_
  have hkind : kindOf key = .free := by
    unfold kindOf
    rw [if_neg, if_neg, if_neg, if_neg]
    · tauto
    · tauto
    · tauto
    · simp only [List.mem_cons, List.not_mem_nil]
      tauto
  exact (agrees_free _).of_kind hkind

def evaluateLeaf (T : Texts P) (ctx : MailContext) : Value P → Except Raised Bool
  | .obj [(key, v)] =>
    if key = "all" then evaluateNoList true v
    else if key = "any" then evaluateNoList false v
    else evaluate T ctx key v
  | condition => evaluateNoKey condition

theorem agrees_noList (b : Bool) :
    Agrees (evaluateNoList b v) b (v = .str "" ∨ v = .obj []) := by
  cases v with
  | str s =>
    change Agrees (if s = "" then .ok b else .error .attribute) b _
    by_cases hs : s = ""
    · rw [if_pos hs]
      exact ⟨iff_of_true ⟨b, rfl⟩ (Or.inl (by rw [hs])), fun _ hb => Except.ok.inj hb⟩
    · rw [if_neg hs]
      exact agrees_raises (by simpa using hs)
  | obj fields =>
    cases fields with
    | nil => exact ⟨iff_of_true ⟨b, rfl⟩ (Or.inr rfl), fun _ hb => Except.ok.inj hb⟩
    | cons e fields => exact agrees_raises (by simp)
  | _ => exact agrees_raises (by simp)

theorem evaluateNoKey_arr (items : List (Value P)) : ∃ e, evaluateNoKey (.arr items) = .error e := by
  match items with
  | [] => exact ⟨_, rfl⟩
  | a :: _ :: _ => cases a <;> exact ⟨_, rfl⟩
  | [a] =>
    cases a with
    | str key =>
      by_cases hkey : key ∈ ["all", "any", "not"]
      · exact ⟨.type, if_pos hkey⟩
      · exact ⟨.attribute, if_neg hkey⟩
    | _ => exact ⟨_, rfl⟩

theorem evaluateLeaf_agrees (leaf : Value P) :
    Agrees (evaluateLeaf T ctx leaf) (leafTells T ctx leaf) (WellFormed T leaf) := by
  cases leaf with
  | obj fields =>
    match fields with
    | [] => exact ⟨iff_of_true ⟨_, rfl⟩ trivial, fun _ hb => Except.ok.inj hb⟩
    | [(key, v)] =>
      change Agrees
        (if key = "all" then evaluateNoList true v
          else if key = "any" then evaluateNoList false v else evaluate T ctx key v)
        (if key = "all" then true else if key = "any" then false else tells T ctx key v)
        (if key = "all" ∨ key = "any" then v = .str "" ∨ v = .obj [] else Fits T key v)
      by_cases hall : key = "all"
      · rw [if_pos hall, if_pos hall, if_pos (Or.inl hall)]
        exact agrees_noList true
      rw [if_neg hall, if_neg hall]
      by_cases hany : key = "any"
      · rw [if_pos hany, if_pos hany, if_pos (Or.inr hany)]
        exact agrees_noList false
      rw [if_neg hany, if_neg hany, if_neg (by tauto)]
      exact evaluate_agrees
    | _ :: _ :: _ => exact agrees_raises id
  | arr items =>
    obtain ⟨e, he⟩ := evaluateNoKey_arr items
    change Agrees (evaluateNoKey (.arr items)) false False
    rw [he]
    exact agrees_raises id
  | _ => exact agrees_raises id

end Leaves

/-! ## A tree -/

section Conditions

variable (T : Texts P) (ctx : MailContext)

mutual

theorem evaluateCondition_eq :
    ∀ c : Value P, evaluateCondition T ctx c = eval (evaluateLeaf T ctx) (conditionTree c)
  | .obj [(key, value)] => by
      unfold evaluateCondition conditionTree
      by_cases hall : key = "all"
      · rw [if_pos hall, if_pos hall]
        cases value with
        | arr items => exact evaluateAll_eq items
        | _ => simp only [eval, evaluateLeaf, if_pos hall]
      rw [if_neg hall, if_neg hall]
      by_cases hany : key = "any"
      · rw [if_pos hany, if_pos hany]
        cases value with
        | arr items => exact evaluateAny_eq items
        | _ => simp only [eval, evaluateLeaf, if_neg hall, if_pos hany]
      rw [if_neg hany, if_neg hany]
      by_cases hnot : key = "not"
      · rw [if_pos hnot, if_pos hnot, evaluateCondition_eq value]
        rfl
      rw [if_neg hnot, if_neg hnot]
      simp only [eval, evaluateLeaf, if_neg hall, if_neg hany]
  | .obj [] => rfl
  | .obj (_ :: _ :: _) => rfl
  | .null => rfl
  | .bool _ => rfl
  | .num _ => rfl
  | .str _ => rfl
  | .arr _ => rfl

theorem evaluateAll_eq : ∀ items : List (Value P),
    evaluateAll T ctx items = evalAll (evaluateLeaf T ctx) (conditionTrees items)
  | [] => rfl
  | item :: items => by
      rw [evaluateAll, conditionTrees, evalAll, evaluateCondition_eq item, evaluateAll_eq items]
      cases eval (evaluateLeaf T ctx) (conditionTree item) with
      | error e => rfl
      | ok b => cases b <;> rfl

theorem evaluateAny_eq : ∀ items : List (Value P),
    evaluateAny T ctx items = evalAny (evaluateLeaf T ctx) (conditionTrees items)
  | [] => rfl
  | item :: items => by
      rw [evaluateAny, conditionTrees, evalAny, evaluateCondition_eq item, evaluateAny_eq items]
      cases eval (evaluateLeaf T ctx) (conditionTree item) with
      | error e => rfl
      | ok b => cases b <;> rfl

end

/-- **Any value evaluated as a condition.** It returns exactly when each condition it comes to is
one, and then what the tree tells. -/
theorem evaluateCondition_returns_iff (c : Value P) :
    (∃ b, evaluateCondition T ctx c = .ok b) ↔
      ∀ leaf, ComesTo T ctx c leaf → WellFormed T leaf := by
  rw [evaluateCondition_eq]
  refine (eval_ok_iff (fun l b => (evaluateLeaf_agrees l).told b) (conditionTree c)).trans ?_
  exact forall_congr' fun leaf => forall_congr' fun _ => (evaluateLeaf_agrees leaf).returns

end Conditions

/-! ## An accepted document -/

section Documents

/-- What a turn makes of a stage it takes: the definition was built, its id is new, the problems of
its tree are gathered. -/
structure Taken (s s' : Progress P) (d : StageDefinition P) (stageId : String) : Prop where
  definitions : s'.definitions = s.definitions ++ [d]
  id : d.stageId = .str stageId
  type : ∃ type, d.type = .str type
  fresh : stageId ∉ s.seenIds
  seen : s'.seenIds = stageId :: s.seenIds
  built : ∃ stage, buildStage d = .ok stage
  problems : s'.problems = s.problems ++ whenProblems stageId d.config

theorem checkStage_taken {i : ℕ} {raw : Value P} {s s' : Progress P}
    (h : checkStage i raw s = .ok s') :
    (s'.definitions = s.definitions ∧ ∀ id ∈ s.seenIds, id ∈ s'.seenIds) ∨
      ∃ d stageId, Taken s s' d stageId := by
  unfold checkStage at h
  split at h
  · split at h
    · split_ifs at h with hempty hseen
      · exact Or.inl (by cases h; exact ⟨rfl, fun _ => id⟩)
      · exact Or.inl (by cases h; exact ⟨rfl, fun _ => id⟩)
      · split at h
        · split_ifs at h
          · exact Or.inl (by cases h; exact ⟨rfl, fun _ => List.mem_cons_of_mem _⟩)
          · split at h
            · cases h
            · exact Or.inl (by cases h; exact ⟨rfl, fun _ => List.mem_cons_of_mem _⟩)
            · dsimp only at h
              split at h
              · exact Or.inl (by cases h; exact ⟨rfl, fun _ => List.mem_cons_of_mem _⟩)
              · rename_i stage hstage
                cases h
                exact Or.inr ⟨_, _, rfl, rfl, ⟨_, rfl⟩, hseen, rfl, ⟨stage, hstage⟩, rfl⟩
        · exact Or.inl (by cases h; exact ⟨rfl, fun _ => List.mem_cons_of_mem _⟩)
    · exact Or.inl (by cases h; exact ⟨rfl, fun _ => id⟩)
  · exact Or.inl (by cases h; exact ⟨rfl, fun _ => id⟩)

def Checked (d : StageDefinition P) : Prop :=
  (∃ stage, buildStage d = .ok stage) ∧ ∃ stageId, whenProblems stageId d.config = []

theorem checkStages_checked {raws : List (Value P)} {i : ℕ} {s s' : Progress P}
    (h : checkStages i raws s = .ok s') (hnone : s'.problems = []) :
    s.problems = [] ∧ ∀ d ∈ s'.definitions, d ∈ s.definitions ∨ Checked d := by
  induction raws generalizing i s with
  | nil =>
    cases h
    exact ⟨hnone, fun d hd => Or.inl hd⟩
  | cons raw rest ih =>
    unfold checkStages at h
    split at h
    · cases h
    rename_i s₁ hs₁
    obtain ⟨hprob, hrest⟩ := ih h
    have hone : checkStages i [raw] s = .ok s₁ := by
      unfold checkStages
      rw [hs₁]
      rfl
    obtain ⟨hfirst, -⟩ := checkStages_ok hone hprob
    refine ⟨hfirst, fun d hd => ?_⟩
    rcases hrest d hd with hd | hd
    · rcases checkStage_taken hs₁ with ⟨hsame, -⟩ | ⟨d', stageId, htaken⟩
      · exact Or.inl (hsame ▸ hd)
      · rw [htaken.definitions, List.mem_append, List.mem_singleton] at hd
        rcases hd with hd | rfl
        · exact Or.inl hd
        · have hproblems := htaken.problems
          rw [hprob, hfirst, List.nil_append] at hproblems
          exact Or.inr ⟨htaken.built, stageId, hproblems.symm⟩
    · exact Or.inr hd

theorem checked_of_validateDocument {document : Fields P} {ds : List (StageDefinition P)}
    (h : validateDocument document = .ok ds) : ∀ d ∈ ds, Checked d := by
  unfold validateDocument at h
  split at h
  · split at h
    · cases h
    · rename_i s hs
      split_ifs at h with hnone
      cases h
      intro d hd
      rcases (checkStages_checked hs hnone).2 d hd with hnil | hchecked
      · cases hnil
      · exact hchecked
  · cases h

theorem takes_of_buildStage {d : StageDefinition P} {stage : StageType}
    (h : buildStage d = .ok stage) : ∃ config, pyDict d.config = some config ∧
      stage.takes config = true := by
  unfold buildStage at h
  dsimp only at h
  split at h
  · cases h
  · split at h
    · rename_i config hconfig
      split_ifs at h with htakes
      cases h
      exact ⟨config, hconfig, htakes⟩
    · cases h

theorem stageWhen_of_match {d : StageDefinition P} (h : buildStage d = .ok .match_) :
    ∃ when, stageWhen d = some when ∧ ∃ config, pyDict d.config = some config ∧
      (Json.get? "when" config = some (.obj when) ∨
        (Json.get? "when" config = none ∧ when = [])) := by
  obtain ⟨config, hconfig, htakes⟩ := takes_of_buildStage h
  unfold stageWhen
  rw [h, hconfig]
  unfold StageType.takes at htakes
  simp only [Bool.and_eq_true] at htakes
  obtain ⟨hwhen, -⟩ := htakes
  cases hget : Json.get? "when" config with
  | none => exact ⟨[], by simp only [hget], config, rfl, Or.inr ⟨hget, rfl⟩⟩
  | some v =>
    rw [hget] at hwhen
    cases v with
    | obj when => exact ⟨when, by simp only [hget], config, rfl, Or.inl hget⟩
    | _ => cases hwhen

def Known (leaf : Value P) : Prop := ∃ key v, leaf = .obj [(key, v)] ∧ key ∈ knownConditionTypes

mutual

/-- In a valid condition every leaf that is reached is a known one. -/
theorem known_of_valid {stageId : String} {h : Value P → Bool} :
    ∀ c leaf : Value P, validateConditionTree stageId c = [] →
      Reached h (conditionTree c) leaf → Known leaf
  | .obj [(key, value)], leaf, hvalid, hleaf => by
      unfold validateConditionTree at hvalid
      unfold conditionTree at hleaf
      by_cases hlist : key = "all" ∨ key = "any"
      · rw [if_pos hlist] at hvalid
        cases value with
        | arr items =>
          cases items with
          | nil => cases hvalid
          | cons item items =>
            by_cases hall : key = "all"
            · rw [if_pos hall] at hleaf
              exact known_of_valid_all (item :: items) leaf hvalid hleaf
            · rw [if_neg hall, if_pos (hlist.resolve_left hall)] at hleaf
              exact known_of_valid_any (item :: items) leaf hvalid hleaf
        | _ => cases hvalid
      · rw [if_neg hlist] at hvalid
        rw [if_neg fun hall => hlist (Or.inl hall), if_neg fun hany => hlist (Or.inr hany)] at hleaf
        by_cases hnot : key = "not"
        · rw [if_pos hnot] at hvalid hleaf
          exact known_of_valid value leaf hvalid hleaf
        · rw [if_neg hnot] at hvalid hleaf
          by_cases hknown : key ∈ knownConditionTypes
          · exact ⟨key, value, Eq.symm hleaf, hknown⟩
          · rw [if_neg hknown] at hvalid
            cases hvalid
  | .obj [], leaf, hvalid, hleaf => by cases hvalid
  | .obj (e :: e' :: rest), leaf, hvalid, hleaf => by
      unfold validateConditionTree at hvalid
      dsimp only at hvalid
      split at hvalid
      · cases hvalid
      · split at hvalid <;> cases hvalid
  | .null, leaf, hvalid, hleaf => by cases hvalid
  | .bool _, leaf, hvalid, hleaf => by cases hvalid
  | .num _, leaf, hvalid, hleaf => by cases hvalid
  | .str _, leaf, hvalid, hleaf => by cases hvalid
  | .arr _, leaf, hvalid, hleaf => by cases hvalid

theorem known_of_valid_all {stageId : String} {h : Value P → Bool} :
    ∀ (items : List (Value P)) (leaf : Value P), validateConditions stageId items = [] →
      ReachedAll h (conditionTrees items) leaf → Known leaf
  | [], leaf, hvalid, hleaf => hleaf.elim
  | item :: items, leaf, hvalid, hleaf => by
      rw [validateConditions, List.append_eq_nil_iff] at hvalid
      rcases hleaf with hleaf | ⟨-, hleaf⟩
      · exact known_of_valid item leaf hvalid.1 hleaf
      · exact known_of_valid_all items leaf hvalid.2 hleaf

theorem known_of_valid_any {stageId : String} {h : Value P → Bool} :
    ∀ (items : List (Value P)) (leaf : Value P), validateConditions stageId items = [] →
      ReachedAny h (conditionTrees items) leaf → Known leaf
  | [], leaf, hvalid, hleaf => hleaf.elim
  | item :: items, leaf, hvalid, hleaf => by
      rw [validateConditions, List.append_eq_nil_iff] at hvalid
      rcases hleaf with hleaf | ⟨-, hleaf⟩
      · exact known_of_valid item leaf hvalid.1 hleaf
      · exact known_of_valid_any items leaf hvalid.2 hleaf

end

theorem wellFormed_iff_of_known {T : Texts P} {key : String} {v : Value P}
    (h : key ∈ knownConditionTypes) : WellFormed T (.obj [(key, v)]) ↔ Fits T key v := by
  change (if key = "all" ∨ key = "any" then _ else _) ↔ _
  rw [if_neg]
  rintro (rfl | rfl) <;> revert h <;> decide

theorem known_of_checked {d : StageDefinition P} (h : Checked d) {fields when : Fields P}
    (hconfig : d.config = .obj fields) (hwhen : Json.get? "when" fields = some (.obj when))
    (T : Texts P) (ctx : MailContext) {leaf : Value P} (hne : when ≠ [])
    (hleaf : ComesTo T ctx (.obj when) leaf) : Known leaf := by
  obtain ⟨-, stageId, hproblems⟩ := h
  unfold whenProblems at hproblems
  rw [hconfig] at hproblems
  dsimp only at hproblems
  rw [hwhen] at hproblems
  have htruthy : truthy (P := P) (.obj when) = true := by
    cases when with
    | nil => exact absurd rfl hne
    | cons e when => rfl
  dsimp only at hproblems
  rw [if_pos htruthy] at hproblems
  exact known_of_valid _ _ hproblems hleaf

def Returns (r : Except Raised Bool) : Prop := ∃ b, r = .ok b

theorem matchesMessage_returns_iff (T : Texts P) (when : Fields P) (msg : MessageView)
    (verdict : Option VerdictView) : Returns (matchesMessage T when msg verdict) ↔
      ∀ leaf, ComesTo T (mailContext T msg verdict) (.obj when) leaf → WellFormed T leaf := by
  cases when with
  | nil =>
    refine iff_of_true ⟨true, rfl⟩ fun leaf hleaf => ?_
    have hempty : Json.obj [] = leaf := hleaf
    exact hempty ▸ trivial
  | cons e when => exact evaluateCondition_returns_iff T _ _

/-- What is come to in the tree of a stage with an object for its config needs a value of its
kind, and no more. -/
def OnlyValues (T : Texts P) (d : StageDefinition P) (when : Fields P) : Prop :=
  ∀ fields, d.config = .obj fields → ∀ ctx leaf, ComesTo T ctx (.obj when) leaf →
    leaf = .obj [] ∨ ∃ key v, leaf = .obj [(key, v)] ∧ key ∈ knownConditionTypes ∧
      (WellFormed T leaf ↔ Fits T key v)

theorem onlyValues_of_checked {T : Texts P} {d : StageDefinition P} {when : Fields P}
    (h : Checked d) (hwhen : ∃ config, pyDict d.config = some config ∧
      (Json.get? "when" config = some (.obj when) ∨
        (Json.get? "when" config = none ∧ when = []))) : OnlyValues T d when := by
  intro fields hfields ctx leaf hleaf
  obtain ⟨config, hconfig, hget⟩ := hwhen
  rw [hfields] at hconfig
  cases Option.some.inj hconfig
  by_cases hne : when = []
  · subst hne
    exact Or.inl (Eq.symm hleaf)
  · have hsome := hget.resolve_right fun hnone => hne hnone.2
    obtain ⟨key, v, rfl, hknown⟩ := known_of_checked h hfields hsome T ctx hne hleaf
    exact Or.inr ⟨key, v, rfl, hknown, wellFormed_iff_of_known hknown⟩

/-- **When a validated pipeline evaluates.** Every condition tree, and every rule of a document
that was accepted, returns a boolean exactly when each condition it comes to is well formed. -/
theorem validated_returns_iff (T : Texts P) {document : Fields P} {ds : List (StageDefinition P)}
    (h : validateDocument document = .ok ds) :
    (∀ (c : Value P) (ctx : MailContext), Returns (evaluateCondition T ctx c) ↔
      ∀ leaf, ComesTo T ctx c leaf → WellFormed T leaf) ∧
    ∀ d ∈ ds, buildStage d = .ok .match_ → ∃ when, stageWhen d = some when ∧
      OnlyValues T d when ∧
      ∀ msg verdict, Returns (matchesMessage T when msg verdict) ↔
        ∀ leaf, ComesTo T (mailContext T msg verdict) (.obj when) leaf → WellFormed T leaf := by
  refine ⟨fun c ctx => evaluateCondition_returns_iff T ctx c, fun d hd hmatch => ?_⟩
  obtain ⟨when, hwhen, hconfig⟩ := stageWhen_of_match hmatch
  exact ⟨when, hwhen, onlyValues_of_checked (checked_of_validateDocument h d hd) hconfig,
    matchesMessage_returns_iff T when⟩

end Documents

/-! ## A number for a text -/

def plainTexts : Texts wholeNumbers where
  lower s := s
  parseaddr s := ("", s)
  compile p := .ok (isIn p)
  sizeGt size (n : ℤ) := decide (n < size)
  sizeLt size (n : ℤ) := decide (size < n)

def ruleDocument (value : Value wholeNumbers) : Fields wholeNumbers :=
  [("stages", .arr [.obj
    [("stage_id", .str "r"), ("type", .str "match"),
      ("config", .obj [("when", .obj [("subject_contains", value)])])]])]

def ruleStage (value : Value wholeNumbers) : StageDefinition wholeNumbers where
  stageId := .str "r"
  type := .str "match"
  name := .str "r"
  config := .obj [("when", .obj [("subject_contains", value)])]
  enabled := .bool true
  halt := .bool false
  accounts := none

def five : Value wholeNumbers := .num (5 : ℤ)

/-- A rule for a subject that is a number is accepted, and raises on every mail. -/
theorem number_accepted_and_raises :
    validateDocument (ruleDocument five) = .ok [ruleStage five] ∧
      stageWhen (ruleStage five) = some [("subject_contains", five)] ∧
      ∀ msg verdict, matchesMessage plainTexts [("subject_contains", five)] msg verdict =
        .error .attribute :=
  ⟨rfl, rfl, fun _ _ => rfl⟩

theorem validated_returns_invoice :
    validateDocument (ruleDocument (.str "invoice")) = .ok [ruleStage (.str "invoice")] ∧
      ∀ msg verdict, Returns
        (matchesMessage plainTexts [("subject_contains", .str "invoice")] msg verdict) := by
  refine ⟨rfl, fun msg verdict => ?_⟩
  have hvalid : validateDocument (ruleDocument (.str "invoice")) =
      .ok [ruleStage (.str "invoice")] := rfl
  obtain ⟨when, hwhen, -, hiff⟩ := (validated_returns_iff plainTexts hvalid).2
    (ruleStage (.str "invoice")) (List.mem_singleton.2 rfl) rfl
  cases hwhen
  refine (hiff msg verdict).2 fun leaf hleaf => ?_
  have hsame : Json.obj [("subject_contains", Json.str "invoice")] = leaf := hleaf
  rw [← hsame]
  exact (wellFormed_iff_of_known (by decide)).2 ⟨"invoice", rfl⟩

end MailVerdict.Analysis.RuleConditions
