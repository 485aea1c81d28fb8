import MailVerdict.Model.Webhooks
import MailVerdict.Analysis.StoredDocuments

/-!
# What an accepted webhook is

`validate_fields` collects the problems of every field before it looks at the headers; what it
accepts passed each check by itself (`validateFields_ok`), and an accepted spec written out is
accepted again (`validateFields_written`).

Its header names are tokens, but for one thing: the pattern's dollar lets a line feed through at
the end. And only the headers are asked for a reference to a secret; a query parameter of the URL
is not. Without either, an accepted spec neither injects nor overrides a header and holds no
literal credential, and with one it does (`safe_iff`).
-/

namespace MailVerdict.Analysis.Webhooks

open MailVerdict.Computation Computation.TextPatterns
open Model.PipelineDocument (Platform Value Fields dictSet)
open Model.Webhooks

variable {P : Platform}

/-! ## Dictionaries -/

section Dictionaries

theorem dictSet_keys (d : Fields P) (k : String) (v : Value P) :
    (dictSet d k v).map Prod.fst = if k ∈ d.map Prod.fst then d.map Prod.fst
      else d.map Prod.fst ++ [k] := by
  unfold dictSet
  by_cases hk : k ∈ d.map Prod.fst
  · have hany : (d.any fun e => decide (e.1 = k)) = true := by simpa using hk
    rw [if_pos hany, if_pos hk, List.map_map]
    refine List.map_congr_left fun e _ => ?_
    show (if e.1 = k then (k, v) else e).1 = e.1
    split
    · rename_i he
      exact he.symm
    · rfl
  · have hany : ¬ (d.any fun e => decide (e.1 = k)) = true := by simpa using hk
    rw [if_neg hany, if_neg hk, List.map_append]
    rfl

theorem nodup_dictSet {d : Fields P} (h : (d.map Prod.fst).Nodup) (k : String) (v : Value P) :
    ((dictSet d k v).map Prod.fst).Nodup := by
  rw [dictSet_keys]
  split
  · exact h
  · rename_i hk
    rw [List.nodup_append]
    refine ⟨h, List.nodup_singleton k, ?_⟩
    rintro a ha b hb rfl
    exact hk (List.mem_singleton.1 hb ▸ ha)

theorem nodup_dictOf (entries : Fields P) : ((dictOf entries).map Prod.fst).Nodup := by
  have hfold : ∀ (l d : Fields P), (d.map Prod.fst).Nodup →
      ((l.foldl (fun d e => dictSet d e.1 e.2) d).map Prod.fst).Nodup := by
    intro l
    induction l with
    | nil => exact fun d h => h
    | cons e l ih => exact fun d h => ih _ (nodup_dictSet h e.1 e.2)
  exact hfold entries [] List.nodup_nil

theorem dictOf_of_nodup {entries : Fields P} (h : (entries.map Prod.fst).Nodup) :
    dictOf entries = entries := by
  have hfold : ∀ (l d : Fields P), ((d ++ l).map Prod.fst).Nodup →
      l.foldl (fun d e => dictSet d e.1 e.2) d = d ++ l := by
    intro l
    induction l with
    | nil => exact fun d _ => (List.append_nil d).symm
    | cons e l ih =>
      intro d hd
      have hnot : ¬ (d.any fun f => decide (f.1 = e.1)) = true := by
        rw [List.map_append, List.map_cons, List.nodup_append] at hd
        intro hany
        obtain ⟨f, hf, heq⟩ := List.any_eq_true.1 hany
        exact hd.2.2 f.1 (List.mem_map_of_mem hf) e.1 List.mem_cons_self (of_decide_eq_true heq)
      have hset : dictSet d e.1 e.2 = d ++ [e] := by
        unfold dictSet
        rw [if_neg hnot]
      rw [List.foldl_cons, hset, ih, List.append_assoc, List.singleton_append]
      rw [List.append_assoc, List.singleton_append]
      exact hd
  exact hfold entries [] h

end Dictionaries

/-! ## What validation accepts -/

structure Accepted (P : Platform) (netlocError : String → Option String) (spec : WebhookSpec) :
    Prop where
  name : checkName spec.name = none
  url : checkUrl netlocError spec.url = none
  param : ∀ p, spec.receivedAtParam = some p → checkReceivedAtParam p = none
  keys : (spec.headers.map Prod.fst).Nodup
  headers : ∀ h ∈ spec.headers, checkHeader P h.1 h.2 = none

theorem checkText_ok {key s t : String} {check : String → Option String}
    (h : checkText key check s = .ok t) : t = s ∧ check s = none := by
  unfold checkText at h
  split at h
  · cases h
    exact ⟨rfl, by assumption⟩
  · cases h

theorem textField_ok {key t : String} {check : String → Option String} {fields : Fields P}
    (h : textField key check fields = .ok t) : check t = none := by
  unfold textField at h
  split at h
  · cases h
  · obtain ⟨rfl, hcheck⟩ := checkText_ok h
    exact hcheck
  · cases h

theorem headerEntries_ok {fields : Fields P} {l : List (String × String)}
    (h : headerEntries fields = .ok l) : fields = l.map fun e => (e.1, .str e.2) := by
  induction fields generalizing l with
  | nil =>
    cases h
    rfl
  | cons e fields ih =>
    obtain ⟨k, v⟩ := e
    cases v with
    | str s =>
      simp only [headerEntries] at h
      cases hrest : headerEntries fields with
      | error x =>
        rw [hrest] at h
        cases h
      | ok rest =>
        rw [hrest] at h
        cases h
        rw [List.map_cons, ← ih hrest]
    | null | bool | num | arr | obj => cases h

theorem headerEntries_written (l : List (String × String)) :
    headerEntries (P := P) (l.map fun e => (e.1, .str e.2)) = .ok l := by
  induction l with
  | nil => rfl
  | cons e l ih =>
    rw [List.map_cons]
    simp only [headerEntries]
    rw [ih]
    rfl

theorem headersField_ok {fields : Fields P} {l : List (String × String)}
    (h : headersField fields = .ok l) : (l.map Prod.fst).Nodup := by
  unfold headersField at h
  split at h
  · cases h
    exact List.nodup_nil
  · rename_i entries _
    have hkeys := nodup_dictOf entries
    rw [headerEntries_ok h, List.map_map] at hkeys
    exact hkeys
  · cases h

theorem receivedAtParamField_ok {fields : Fields P} {p : Option String}
    (h : receivedAtParamField fields = .ok p) :
    ∀ s, p = some s → checkReceivedAtParam s = none := by
  unfold receivedAtParamField at h
  split at h
  · cases h
    rintro s ⟨⟩
  · cases h
    rintro s ⟨⟩
  · rename_i s _
    cases hs : checkText "received_at_param" checkReceivedAtParam s with
    | error x =>
      rw [hs] at h
      cases h
    | ok t =>
      rw [hs] at h
      cases h
      obtain ⟨rfl, hcheck⟩ := checkText_ok hs
      rintro s ⟨⟩
      exact hcheck
  · cases h

theorem checkHeaders_ok_iff {spec spec' : WebhookSpec} :
    checkHeaders P spec = .ok spec' ↔
      spec' = spec ∧ ∀ h ∈ spec.headers, checkHeader P h.1 h.2 = none := by
  unfold checkHeaders
  cases hfind : spec.headers.findSome? fun h => checkHeader P h.1 h.2 with
  | none =>
    have hall := List.findSome?_eq_none_iff.1 hfind
    constructor
    · rintro ⟨⟩
      exact ⟨rfl, hall⟩
    · rintro ⟨rfl, -⟩
      rfl
  | some text =>
    constructor
    · rintro ⟨⟩
    · rintro ⟨-, hall⟩
      rw [List.findSome?_eq_none_iff.2 hall] at hfind
      cases hfind

section Validation

variable {netlocError : String → Option String} {fields : Fields P} {spec : WebhookSpec}

theorem validateFields_ok (h : validateFields netlocError fields = .ok spec) :
    Accepted P netlocError spec := by
  unfold validateFields at h
  dsimp only at h
  split at h
  · rename_i n u m hs p b hname hurl hmethod hheaders hparam hbody hextra
    obtain ⟨rfl, hall⟩ := checkHeaders_ok_iff.1 h
    exact ⟨textField_ok hname, textField_ok hurl, receivedAtParamField_ok hparam,
      headersField_ok hheaders, hall⟩
  · cases h

theorem modelValidate_ok {value : Value P} (h : modelValidate netlocError value = .ok spec) :
    Accepted P netlocError spec := by
  unfold modelValidate at h
  split at h
  · exact validateFields_ok h
  · cases h

def written (P : Platform) (spec : WebhookSpec) : Fields P :=
  [("name", .str spec.name), ("url", .str spec.url), ("method", .str spec.method.text),
    ("headers", .obj (dictOf (spec.headers.map fun h => (h.1, .str h.2)))),
    ("received_at_param", match spec.receivedAtParam with | none => .null | some s => .str s)]

/-- An accepted webhook is accepted again as it was written. -/
theorem validateFields_written (h : Accepted P netlocError spec) :
    validateFields netlocError (written P spec) = .ok spec := by
  obtain ⟨name, url, method, headers, param⟩ := spec
  have hkeys : ((headers.map fun e => (e.1, (.str e.2 : Value P))).map Prod.fst).Nodup := by
    rw [List.map_map]
    exact h.keys
  have hname : textField "name" checkName (written P ⟨name, url, method, headers, param⟩)
      = .ok name := by
    show checkText "name" checkName name = _
    unfold checkText
    rw [h.name]
  have hurl : textField "url" (checkUrl netlocError)
      (written P ⟨name, url, method, headers, param⟩) = .ok url := by
    show checkText "url" (checkUrl netlocError) url = _
    unfold checkText
    rw [h.url]
  have hmethod : methodField (written P ⟨name, url, method, headers, param⟩) = .ok method := by
    cases method <;> rfl
  have hheaders : headersField (written P ⟨name, url, method, headers, param⟩) = .ok headers := by
    show headerEntries (dictOf (dictOf (headers.map fun e => (e.1, .str e.2)))) = _
    rw [dictOf_of_nodup hkeys, dictOf_of_nodup hkeys, headerEntries_written]
  have hparam : receivedAtParamField (written P ⟨name, url, method, headers, param⟩)
      = .ok param := by
    cases param with
    | none => rfl
    | some s =>
      show (checkText "received_at_param" checkReceivedAtParam s).map some = _
      unfold checkText
      rw [h.param s rfl]
      rfl
  have hbody : bodyField (written P ⟨name, url, method, headers, param⟩) = .ok () := rfl
  have hextra : extras (written P ⟨name, url, method, headers, param⟩) = [] := rfl
  unfold validateFields
  rw [hname, hurl, hmethod, hheaders, hparam, hbody, hextra]
  exact checkHeaders_ok_iff.2 ⟨rfl, h.headers⟩

end Validation

/-! ## Headers that neither inject nor override -/

def Token (name : String) : Prop := name ≠ "" ∧ ∀ c ∈ name.toList, isTokenChar c = true

theorem Token.clean {name : String} (h : Token name) :
    '\r' ∉ name.toList ∧ '\n' ∉ name.toList ∧ ':' ∉ name.toList ∧ ' ' ∉ name.toList := by
  refine ⟨fun hc => ?_, fun hc => ?_, fun hc => ?_, fun hc => ?_⟩
  all_goals
    have hchar := h.2 _ hc
    revert hchar
    decide

def queryParams (query : List Char) : List (String × String) :=
  (query.splitOn '&').map fun param =>
    (String.ofList (cut '=' param).1, String.ofList ((cut '=' param).2.getD []))

/-- A name that suggests a credential stands with a reference to a secret. -/
def ReferencesSecrets (entries : List (String × String)) : Prop :=
  ∀ e ∈ entries, credentialHeader e.1 = true → referencesSecret e.2 = true

instance (entries : List (String × String)) : Decidable (ReferencesSecrets entries) :=
  inferInstanceAs (Decidable (∀ e ∈ entries, _))

/-- A spec that injects no header, overrides none and holds no literal credential. -/
structure Safe (spec : WebhookSpec) : Prop where
  token : ∀ h ∈ spec.headers, Token h.1
  own : ∀ h ∈ spec.headers, lowered h.1 ∉ reservedHeaders
  headerSecrets : ReferencesSecrets spec.headers
  querySecrets : ReferencesSecrets (queryParams (urlsplit spec.url).query)

/-- The headers that are accepted. -/
theorem checkHeader_eq_none_iff {header value : String} :
    checkHeader P header value = none ↔
      headerName header = true ∧ lowered header ∉ reservedHeaders ∧
        ('\r' ∉ value.toList ∧ '\n' ∉ value.toList) ∧
          (credentialHeader header = true → referencesSecret value = true) := by
  unfold checkHeader
  by_cases hname : headerName header = true
  · rw [hname, Bool.not_true, if_neg Bool.false_ne_true]
    by_cases hown : lowered header ∈ reservedHeaders
    · rw [if_pos hown]
      exact iff_of_false (Option.some_ne_none _) fun h => h.2.1 hown
    · rw [if_neg hown]
      by_cases hbreak : '\r' ∈ value.toList ∨ '\n' ∈ value.toList
      · have hcheck : (decide ('\r' ∈ value.toList) || decide ('\n' ∈ value.toList)) = true := by
          simpa using hbreak
        rw [if_pos hcheck]
        refine iff_of_false (Option.some_ne_none _) fun h => ?_
        rcases hbreak with hr | hn
        · exact h.2.2.1.1 hr
        · exact h.2.2.1.2 hn
      · have hcheck : ¬ (decide ('\r' ∈ value.toList) || decide ('\n' ∈ value.toList)) = true := by
          simpa using hbreak
        rw [if_neg hcheck]
        rw [not_or] at hbreak
        cases hcredential : credentialHeader header with
        | false => exact iff_of_true rfl ⟨rfl, hown, hbreak, fun h => by cases h⟩
        | true =>
          cases hsecret : referencesSecret value with
          | true => exact iff_of_true rfl ⟨rfl, hown, hbreak, fun _ => rfl⟩
          | false =>
            refine iff_of_false (Option.some_ne_none _) fun h => ?_
            cases h.2.2.2 rfl
  · have hcheck : (!headerName header) = true := by simpa using hname
    rw [if_pos hcheck]
    exact iff_of_false (Option.some_ne_none _) fun h => hname h.1

theorem token_iff {name : String} (h : headerName name = true) :
    Token name ↔ name.toList.getLast? ≠ some '\n' := by
  constructor
  · intro ht hlast
    exact ht.clean.2.1 (List.mem_of_getLast? hlast)
  · intro hlast
    unfold headerName at h
    rw [closed_of_no_feed hlast] at h
    unfold someOf at h
    rw [Bool.and_eq_true, Bool.not_eq_true'] at h
    refine ⟨?_, List.all_eq_true.1 h.2⟩
    rintro rfl
    exact absurd h.1 (by decide)

/-- **Webhook specs.** An accepted spec neither injects nor overrides a header and holds no literal
credential exactly when no header name ends in a line feed and no query parameter whose name
suggests a credential lacks a reference to a secret. -/
theorem safe_iff (P : Platform) (netlocError : String → Option String) (value : Value P)
    (spec : WebhookSpec) (h : modelValidate netlocError value = .ok spec) :
    Safe spec ↔ (∀ e ∈ spec.headers, e.1.toList.getLast? ≠ some '\n') ∧
      ReferencesSecrets (queryParams (urlsplit spec.url).query) := by
  have haccepted := modelValidate_ok h
  have hcheck := fun e he => checkHeader_eq_none_iff.1 (haccepted.headers e he)
  constructor
  · intro hsafe
    exact ⟨fun e he => (token_iff (hcheck e he).1).1 (hsafe.token e he), hsafe.querySecrets⟩
  · rintro ⟨hfeed, hquery⟩
    exact ⟨fun e he => (token_iff (hcheck e he).1).2 (hfeed e he), fun e he => (hcheck e he).2.1,
      fun e he => (hcheck e he).2.2.2, hquery⟩

/-! ### Accepted, safe and not -/

def canteen : WebhookSpec where
  name := "canteen"
  url := "https://example.com/api/mails"
  method := .post
  headers := [("Authorization", "Bearer \x7b\x7bsecret:CANTEEN_TOKEN\x7d\x7d")]
  receivedAtParam := some "received_at"

def asWritten (spec : WebhookSpec) : Value StoredDocuments.wholeNumbers :=
  .obj (written StoredDocuments.wholeNumbers spec)

theorem safe_canteen : Safe canteen :=
  (safe_iff StoredDocuments.wholeNumbers (fun _ => none) (asWritten canteen) canteen rfl).2
    ⟨by decide, by decide⟩

/-- A header that is `Content-Type` up to the line feed it ends with. -/
def brokenHeader : WebhookSpec := { canteen with headers := [("Content-Type\n", "text/html")] }

def typedToken : WebhookSpec := { canteen with url := "https://example.com/api/mails?token=hunter2" }

/-- Both are accepted and neither is safe. -/
theorem unsafe_accepted :
    (modelValidate (fun _ => none) (asWritten brokenHeader) = .ok brokenHeader ∧
        ¬ Safe brokenHeader) ∧
      (modelValidate (fun _ => none) (asWritten typedToken) = .ok typedToken ∧
        ¬ Safe typedToken) := by
  refine ⟨⟨rfl, fun h => ?_⟩, rfl, fun h => ?_⟩
  · have hfeed := (h.token _ List.mem_cons_self).clean.2.1
    revert hfeed
    decide
  · have hquery := h.querySecrets
    revert hquery
    decide

end MailVerdict.Analysis.Webhooks
