import MailVerdict.Analysis.MailActionRows

/-!
# What undoing an intent restores

The intents `reversalsOf` makes are built from what the client knows: the snapshots
of the rows it showed, and the folders the server listed as sources. The server acts
on whole conversations and marks mail read when it files it. `undo_restores_iff` says
for which messages the two come out even.
-/

namespace MailVerdict.Analysis.MailIntents

open MailVerdict.Computation
open Model.MailActions
open Model.MailIntents
open Analysis.MailActions

variable {r : MailRow} {q : BulkActionRequest} {A : Account} {target : Uuid} {role : Option Role}
  {m : IntentMessage} {action action' : Action} {had : IntentMessage → Bool}

/-! ## The state an intent was applied to -/

/-- Every live message is in a folder of the mail server that its account has. -/
def Placed (accounts : Uuid → Account) (S : Messages) : Prop :=
  ∀ k r, S.find? k = some r → r.expunged = false →
    (accounts r.accountId).ownsFolder r.folderId = true ∧
      (accounts r.accountId).glacierFolder ≠ some r.folderId

structure Matches (a : Uuid) (m : IntentMessage) (r : MailRow) : Prop where
  account : r.accountId = a
  live : r.expunged = false
  folder : m.folderId = none ∨ m.folderId = some r.folderId
  seen : m.isSeen = r.isSeen
  flagged : m.isFlagged = r.isFlagged

/-- The messages of an intent that the server did not skip are as the client saw
them. -/
def Agrees (S : Messages) (i : MailIntent) (skipped : List Uuid) : Prop :=
  ∀ m ∈ i.messages, m.id ∉ skipped → ∃ r, S.find? m.id = some r ∧ Matches i.accountId m r

theorem Agrees.matched {S : Messages} {i : MailIntent} {skipped : List Uuid}
    (h : Agrees S i skipped) (hm : m ∈ i.messages) (hkept : m.id ∉ skipped)
    (hr : S.find? m.id = some r) : Matches i.accountId m r := by
  obtain ⟨r', hr', hmatch⟩ := h m hm hkept
  exact Option.some.inj (hr'.symm.trans hr) ▸ hmatch

def reported (i : MailIntent) (skipped : List Uuid) (sources : List (Uuid × Uuid)) (k : Uuid) :
    Prop :=
  (if sources = [] then k ∈ i.messages.map IntentMessage.id else k ∈ sources.map Prod.fst) ∧
    k ∉ skipped

def intoGlacier (A : Account) (i : MailIntent) : Prop :=
  i.action = .move ∧ i.targetFolderId.isSome = true ∧ A.glacierFolder = i.targetFolderId

instance (A : Account) (i : MailIntent) : Decidable (intoGlacier A i) :=
  inferInstanceAs (Decidable (_ ∧ _))

def effectRow (A : Account) (i : MailIntent) (r : MailRow) : MailRow :=
  if leavesFolder i.action then
    match filing A i.action i.targetFolderId with
    | none => r
    | some (target, role) =>
      if intoGlacier A i then glacierRow A none r else actedRow A i.action target role r
  else setFlag i.action r

/-! ## The guards of a request -/

section Guards

variable {i : MailIntent} {k f : Uuid}

theorem expected_of_lookup (h : (expectedFolderIds i).lookup k = some f) :
    ∃ m ∈ i.messages, m.id = k ∧ m.folderId = some f := by
  have hmem := mem_of_lookup h
  unfold expectedFolderIds at hmem
  split at hmem
  · rw [List.mem_reverse, List.mem_filterMap] at hmem
    obtain ⟨m, hm, heq⟩ := hmem
    obtain ⟨g, hg, hpair⟩ := Option.map_eq_some_iff.1 heq
    cases hpair
    exact ⟨m, hm, rfl, hg⟩
  · cases hmem

theorem lookup_of_expected (hguard : i.reverses.isSome = true)
    (hknown : ∃ m ∈ i.messages, m.id = k ∧ m.folderId = some f)
    (hsame : ∀ m ∈ i.messages, m.id = k → m.folderId = some f) :
    (expectedFolderIds i).lookup k = some f := by
  have hsome : ((expectedFolderIds i).lookup k).isSome = true := by
    obtain ⟨m, hm, hid, hf⟩ := hknown
    rw [lookup_isSome_iff]
    refine ⟨f, ?_⟩
    unfold expectedFolderIds
    rw [hguard, Bool.or_true, if_pos rfl, List.mem_reverse, List.mem_filterMap]
    exact ⟨m, hm, by rw [hf, hid]; rfl⟩
  obtain ⟨g, hg⟩ := Option.isSome_iff_exists.1 hsome
  obtain ⟨m, hm, hid, hf⟩ := expected_of_lookup hg
  have hfolder := hsame m hm hid
  rw [hg, ← hf, hfolder]

theorem lookup_agrees (h : ∀ m ∈ i.messages, m.id = k → m.folderId = none ∨ m.folderId = some f) :
    (expectedFolderIds i).lookup k = none ∨ (expectedFolderIds i).lookup k = some f := by
  cases hlookup : (expectedFolderIds i).lookup k with
  | none => exact Or.inl rfl
  | some g =>
    obtain ⟨m, hm, hid, hg⟩ := expected_of_lookup hlookup
    obtain hnone | hsome := h m hm hid
    · rw [hnone] at hg
      cases hg
    · right
      rw [← hg, hsome]

variable {a : Uuid} {S : Messages}

theorem acts_iff (hexpand : i.expandThreads = false) (hr : S.find? k = some r) :
    actsOn a S (bulkRequest i) k = true ↔
      k ∈ i.messages.map IntentMessage.id ∧ r.accountId = a ∧ r.expunged = false ∧
        ((expectedFolderIds i).lookup k = none ∨
          (expectedFolderIds i).lookup k = some r.folderId) := by
  have hmembers : bulkMembers a S (bulkRequest i) = none := by
    unfold bulkMembers bulkRequest
    rw [hexpand]
    rfl
  rw [actsOn_named hmembers, mem_explicitIds]
  constructor
  · rintro ⟨hnamed, f, hlive, hguard⟩
    obtain ⟨r', hr', hacc, hexp, hf⟩ := liveFolder_eq_some.1 hlive
    rw [hr] at hr'
    cases hr'
    subst hf
    exact ⟨hnamed, hacc, hexp, hguard⟩
  · rintro ⟨hnamed, hacc, hexp, hguard⟩
    exact ⟨hnamed, r.folderId, liveFolder_eq_some.2 ⟨r, hr, hacc, hexp, rfl⟩, hguard⟩

theorem acts_reversal_iff (hexpand : i.expandThreads = false) (hreverses : i.reverses.isSome = true)
    (hfolder : ∀ m ∈ i.messages, m.id = k → m.folderId = some f) (hr : S.find? k = some r) :
    actsOn a S (bulkRequest i) k = true ↔
      k ∈ i.messages.map IntentMessage.id ∧ r.accountId = a ∧ r.expunged = false ∧
        r.folderId = f := by
  rw [acts_iff hexpand hr]
  refine and_congr_right fun hnamed => and_congr_right fun _ => and_congr_right fun _ => ?_
  obtain ⟨m, hm, hid⟩ := List.mem_map.1 hnamed
  rw [lookup_of_expected hreverses ⟨m, hm, hid, hfolder m hm hid⟩ hfolder]
  constructor
  · rintro (hnone | hsome)
    · cases hnone
    · exact (Option.some.inj hsome).symm
  · intro hf
    exact Or.inr (congrArg some hf.symm)

theorem explicit_of_acts (h : actsOn a S q k = true) :
    ∃ x, x ∈ explicitIds a S q := by
  cases hmembers : bulkMembers a S q with
  | none => exact ⟨k, (actsOn_named hmembers).1 h⟩
  | some members =>
    obtain ⟨f, hf⟩ := (actsOn_member hmembers).1 h
    unfold bulkMembers at hmembers
    split at hmembers
    · cases hmembers
      obtain ⟨r, _, _, _, hin, _⟩ := mem_expand.1 hf
      obtain hnamed | hconversation := hin
      · exact ⟨r.id, hnamed⟩
      · unfold inConversationOf at hconversation
        rw [Bool.and_eq_true, List.any_eq_true] at hconversation
        obtain ⟨⟨s, _, hs⟩, _⟩ := hconversation
        simp only [Bool.and_eq_true, decide_eq_true_eq] at hs
        exact ⟨s.id, hs.1.1.1.1⟩
    · cases hmembers

theorem acts_of_explicit (h : k ∈ explicitIds a S q) :
    actsOn a S q k = true := by
  cases hmembers : bulkMembers a S q with
  | none => exact (actsOn_named hmembers).2 h
  | some members =>
    rw [actsOn_member hmembers]
    unfold bulkMembers at hmembers
    split at hmembers
    · cases hmembers
      obtain ⟨_, f, hlive, _⟩ := mem_explicitIds.1 h
      obtain ⟨r, hr, hacc, hexp, hf⟩ := liveFolder_eq_some.1 hlive
      refine ⟨f, mem_expand.2 ⟨r, hr, hacc, hexp, Or.inl ?_, hf⟩⟩
      rw [(KeyedTable.find?_eq_some_iff.1 hr).2]
      exact h
    · cases hmembers

theorem readSkipped_lt {x : Uuid}
    (h : x ∈ explicitIds a S q) : (readSkipped a S q A).length < q.ids.length := by
  obtain ⟨hnamed, f, hlive, hguard⟩ := mem_explicitIds.1 h
  have hdedup := eraseDups_length_le q.ids
  have hfewer : (readSkipped a S q A).length < q.ids.eraseDups.length := by
    unfold readSkipped
    rw [List.length_filter_lt_length_iff_exists]
    refine ⟨x, List.mem_eraseDups.2 hnamed, ?_⟩
    rw [hlive]
    obtain hnone | hsome := hguard
    · rw [hnone]
      simp
    · rw [hsome]
      simp
  omega

theorem bulkSources_found {g : Uuid} (h : (k, g) ∈ (bulkMembers a S q).getD []) :
    ∃ r, S.find? k = some r ∧ r.accountId = a ∧ r.expunged = false ∧ r.folderId = g := by
  unfold bulkMembers at h
  split at h
  · obtain ⟨r, hr, hacc, hexp, _, hf⟩ := mem_expand.1 h
    exact ⟨r, hr, hacc, hexp, hf⟩
  · cases h

end Guards

/-! ## The intent's own request -/

section Forward

variable {accounts : Uuid → Account} {i : MailIntent} {S S1 : Messages} {applied : Bool}
variable {landed : Option Uuid} {skipped : List Uuid} {sources : List (Uuid × Uuid)}

/-- What the server's answer to an intent tells about the table it was applied to and
the one it left. -/
structure Took (accounts : Uuid → Account) (i : MailIntent) (S S1 : Messages) (applied : Bool)
    (landed : Option Uuid) (skipped : List Uuid) (sources : List (Uuid × Uuid)) : Prop where
  row : ∀ k, reported i skipped sources k → ∃ r, S.find? k = some r ∧ r.accountId = i.accountId ∧
    r.expunged = false ∧ S1.find? k = some (effectRow (accounts i.accountId) i r)
  filed : ∀ k, reported i skipped sources k → leavesFolder i.action = true →
    ¬intoGlacier (accounts i.accountId) i → ∃ target role,
      filing (accounts i.accountId) i.action i.targetFolderId = some (target, role) ∧
        (i.action ≠ .move → landed = some target)
  nothing : applied = false → ¬intoGlacier (accounts i.accountId) i →
    ∀ k, ¬reported i skipped sources k
  named : ∀ m ∈ i.messages, m.id ∉ skipped → reported i skipped sources m.id
  listed : ∀ k f, (k, f) ∈ sources → ∃ r, S.find? k = some r ∧ r.folderId = f
  expanded : ∀ k, reported i skipped sources k →
    (sources ≠ [] ↔ i.bulk = true ∧ i.expandThreads = true)

theorem Took.row_of (h : Took accounts i S S1 applied landed skipped sources) {k : Uuid}
    (hk : reported i skipped sources k) (hr : S.find? k = some r) :
    r.accountId = i.accountId ∧ r.expunged = false ∧
      S1.find? k = some (effectRow (accounts i.accountId) i r) := by
  obtain ⟨r', hr', hafter⟩ := h.row k hk
  exact Option.some.inj (hr'.symm.trans hr) ▸ hafter

theorem effectRow_flag (h : leavesFolder i.action = false) :
    effectRow A i = setFlag i.action := by
  funext r
  unfold effectRow
  rw [h]
  rfl

theorem effectRow_glacier (h : intoGlacier A i) :
    effectRow A i = glacierRow A none := by
  funext r
  obtain ⟨target, htarget⟩ := Option.isSome_iff_exists.1 h.2.1
  unfold effectRow filing
  rw [h.1, htarget]
  simp only [leavesFolder, if_true, Option.map_some, if_pos h]

theorem effectRow_filed
    (hleaves : leavesFolder i.action = true)
    (hfiling : filing A i.action i.targetFolderId = some (target, role)) (h : ¬intoGlacier A i) :
    effectRow A i = actedRow A i.action target role := by
  funext r
  unfold effectRow
  rw [hleaves, hfiling]
  simp only [if_true, if_neg h]

theorem plain_target (hfiling : filing A i.action i.targetFolderId = some (target, role))
    (hglacier : ¬intoGlacier A i) : i.action = .move → A.glacierFolder ≠ some target := by
  intro hmove hfolder
  rw [hmove] at hfiling
  obtain ⟨t, ht, hpair⟩ := Option.map_eq_some_iff.1 hfiling
  cases hpair
  apply hglacier
  refine ⟨hmove, ?_, ?_⟩
  · rw [ht]
    rfl
  · rw [ht, hfolder]

theorem bulk_carried {response : BulkActionResponse}
    (hreversible : i.action ≠ .expunge ∧ i.action ≠ .notSpam)
    (h : applyBulkAction accounts i.accountId S (bulkRequest i) = (S1, .ok response))
    (hanswered : ¬(response.success = false ∧ response.affectedCount = 0)) :
    ∃ more, Carried (accounts i.accountId) i.accountId S (bulkRequest i)
        (effectRow (accounts i.accountId) i) more S1 response ∧
      (¬intoGlacier (accounts i.accountId) i → more = [] ∧
        (leavesFolder i.action = true →
          (∃ k, actsOn i.accountId S (bulkRequest i) k = true) → ∃ target role,
            filing (accounts i.accountId) i.action i.targetFolderId = some (target, role) ∧
              response.targetFolderId = some target)) := by
  cases hleaves : leavesFolder i.action with
  | false =>
    obtain ⟨response', hresponse, _, hcarried⟩ :=
      @bulk_flags accounts i.accountId S (bulkRequest i) hleaves
    rw [h] at hresponse hcarried
    cases hresponse
    refine ⟨[], ?_, fun _ => ⟨rfl, fun hfalse => by cases hfalse⟩⟩
    rw [effectRow_flag hleaves]
    exact hcarried
  | true =>
    by_cases hglacier : intoGlacier (accounts i.accountId) i
    · obtain ⟨target, htarget⟩ := Option.isSome_iff_exists.1 hglacier.2.1
      obtain ⟨more, hcarried⟩ := bulk_glacier h hglacier.1 htarget (hglacier.2.2.trans htarget)
      refine ⟨more, ?_, fun hnot => absurd hglacier hnot⟩
      rw [effectRow_glacier hglacier]
      exact hcarried
    · cases hfiling : filing (accounts i.accountId) i.action i.targetFolderId with
      | none =>
        have hnothing := bulk_unfiled h hanswered hleaves hreversible hfiling
        have hstays := h
        unfold applyBulkAction at hstays
        rw [if_pos hnothing] at hstays
        cases hstays
        refine ⟨[], carried_nothing hnothing, fun _ => ⟨rfl, ?_⟩⟩
        rintro _ ⟨k, hk⟩
        rw [actsOn_of_no_guards hnothing k] at hk
        cases hk
      | some x =>
        obtain ⟨target, role⟩ := x
        have hplain := plain_target hfiling hglacier
        obtain ⟨hcarried, hlanded⟩ := bulk_filed h hanswered hfiling hplain
        refine ⟨[], ?_, fun _ => ⟨rfl, fun _ hacts => ⟨target, role, rfl, hlanded hacts⟩⟩⟩
        rw [effectRow_filed hleaves hfiling hglacier]
        exact hcarried

theorem explicit_of_agrees (hagrees : Agrees S i skipped)
    (hm : m ∈ i.messages) (hkept : m.id ∉ skipped) :
    m.id ∈ explicitIds i.accountId S (bulkRequest i) := by
  obtain ⟨r, hr, hmatch⟩ := hagrees m hm hkept
  rw [mem_explicitIds]
  refine ⟨List.mem_map_of_mem hm, r.folderId,
    liveFolder_eq_some.2 ⟨r, hr, hmatch.account, hmatch.live, rfl⟩, ?_⟩
  apply lookup_agrees
  intro m' hm' hid
  rw [← hid] at hr hkept
  exact (hagrees.matched hm' hkept hr).folder

theorem acts_of_reported {more : List Uuid} {g : MailRow → MailRow}
    {response : BulkActionResponse} {k : Uuid} (hagrees : Agrees S i response.skippedIds)
    (hcarried : Carried A i.accountId S (bulkRequest i) g more S1 response)
    (h : reported i response.skippedIds response.sources k) :
    actsOn i.accountId S (bulkRequest i) k = true := by
  obtain ⟨hin, hkept⟩ := h
  rw [hcarried.sources] at hin
  split at hin
  · obtain ⟨m, hm, rfl⟩ := List.mem_map.1 hin
    exact acts_of_explicit (explicit_of_agrees hagrees hm hkept)
  · rename_i hsome
    obtain ⟨x, hx, rfl⟩ := List.mem_map.1 hin
    cases hmembers : bulkMembers i.accountId S (bulkRequest i) with
    | none =>
      rw [hmembers] at hsome
      exact absurd rfl hsome
    | some members =>
      rw [hmembers] at hx
      rw [actsOn_member hmembers]
      exact ⟨x.2, hx⟩

/-- A bulk action takes what its answer says. -/
theorem bulk_took {response : BulkActionResponse}
    (hreversible : i.action ≠ .expunge ∧ i.action ≠ .notSpam) (hbulk : i.bulk = true)
    (h : applyBulkAction accounts i.accountId S (bulkRequest i) = (S1, .ok response))
    (hanswered : ¬(response.success = false ∧ response.affectedCount = 0))
    (hagrees : Agrees S i response.skippedIds) :
    Took accounts i S S1 (decide (response.skippedIds.length < i.messages.length))
      response.targetFolderId response.skippedIds response.sources := by
  obtain ⟨more, hcarried, hplain⟩ := bulk_carried hreversible h hanswered
  constructor
  · intro k hk
    have hacts := acts_of_reported hagrees hcarried hk
    obtain ⟨r, hr, hacc, hexp⟩ := actsOn_found hacts
    refine ⟨r, hr, hacc, hexp, ?_⟩
    rw [hcarried.rows k, hr, Option.map_some, if_pos hacts]
  · intro k hk hleaves hglacier
    have hacts := acts_of_reported hagrees hcarried hk
    obtain ⟨target, role, hfiling, hlanded⟩ := (hplain hglacier).2 hleaves ⟨k, hacts⟩
    exact ⟨target, role, hfiling, fun _ => hlanded⟩
  · intro hnone hglacier k hk
    have hacts := acts_of_reported hagrees hcarried hk
    obtain ⟨x, hx⟩ := explicit_of_acts hacts
    have hfewer := readSkipped_lt (A := accounts i.accountId) hx
    have hskipped := hcarried.skipped
    rw [(hplain hglacier).1, List.append_nil] at hskipped
    have hlength : (bulkRequest i).ids.length = i.messages.length := List.length_map _
    rw [decide_eq_false_iff_not, hskipped] at hnone
    omega
  · intro m hm hkept
    refine ⟨?_, hkept⟩
    split
    · exact List.mem_map_of_mem hm
    · rename_i hsome
      have hacts := acts_of_explicit (explicit_of_agrees hagrees hm hkept)
      rw [hcarried.sources] at hsome ⊢
      cases hmembers : bulkMembers i.accountId S (bulkRequest i) with
      | none =>
        rw [hmembers] at hsome
        exact absurd rfl hsome
      | some members =>
        obtain ⟨f, hf⟩ := (actsOn_member hmembers).1 hacts
        exact List.mem_map_of_mem hf
  · intro k f hf
    rw [hcarried.sources] at hf
    obtain ⟨r, hr, _, _, hfolder⟩ := bulkSources_found hf
    exact ⟨r, hr, hfolder⟩
  · intro k hk
    have hacts := acts_of_reported hagrees hcarried hk
    rw [hcarried.sources]
    cases hmembers : bulkMembers i.accountId S (bulkRequest i) with
    | none =>
      unfold bulkMembers at hmembers
      split at hmembers
      · cases hmembers
      · rename_i hexpand
        have hno : i.expandThreads ≠ true := by
          intro hyes
          apply hexpand
          show (i.expandThreads && decide (i.action ≠ .expunge)) = true
          rw [hyes, decide_eq_true hreversible.1]
          rfl
        simp [hno]
    | some members =>
      obtain ⟨f, hf⟩ := (actsOn_member hmembers).1 hacts
      have hsome : members ≠ [] := List.ne_nil_of_mem hf
      unfold bulkMembers at hmembers
      split at hmembers
      · rename_i hexpand
        have hyes : i.expandThreads = true := by
          rw [Bool.and_eq_true] at hexpand
          exact hexpand.1
        simp [hsome, hbulk, hyes]
      · cases hmembers

theorem actedRow_folder (action : Action) (target : Uuid) (role : Option Role)
    (r : MailRow) : (actedRow A action target role r).folderId = target := by
  unfold actedRow
  split <;> rfl

theorem actedRow_rest (action : Action) (target : Uuid) (role : Option Role) (r : MailRow) :
    (actedRow A action target role r).accountId = r.accountId ∧
      (actedRow A action target role r).expunged = r.expunged ∧
      (actedRow A action target role r).isFlagged = r.isFlagged ∧
      (actedRow A action target role r).isSeen = (r.isSeen || shouldMarkReadOnFile A role) := by
  unfold actedRow
  split <;> exact ⟨rfl, rfl, rfl, rfl⟩

theorem single_row {id : Uuid} {e : Option Uuid} {response : MessageActionResponse}
    (hreversible : i.action ≠ .expunge ∧ i.action ≠ .notSpam)
    (h : applyAndLocate accounts S id ⟨i.action, i.targetFolderId, e⟩ = (S1, .ok response))
    (hsuccess : response.success = true) (hr : S.find? id = some r)
    (hfits : Fits i.accountId e r) :
    S1.find? id = some (effectRow (accounts i.accountId) i r) ∧
      (leavesFolder i.action = true → ¬intoGlacier (accounts i.accountId) i → ∃ target role,
        filing (accounts i.accountId) i.action i.targetFolderId = some (target, role) ∧
          (i.action ≠ .move → response.folderId = some target)) := by
  unfold applyAndLocate at h
  dsimp only at h
  cases hleaves : leavesFolder i.action with
  | false =>
    rw [message_flags hr hfits hleaves] at h
    cases h
    refine ⟨?_, fun hfalse => by cases hfalse⟩
    rw [onMessage_find hr, if_pos rfl, hfits.flags, effectRow_flag hleaves]
  | true =>
    cases hanswer : (applyMessageAction accounts S id ⟨i.action, i.targetFolderId, e⟩).2 with
    | error status =>
      rw [hanswer] at h
      cases h
    | ok answer =>
      rw [hanswer] at h
      dsimp only at h
      by_cases hglacier : intoGlacier (accounts i.accountId) i
      · refine ⟨?_, fun _ hnot => absurd hglacier hnot⟩
        obtain ⟨target, htarget⟩ := Option.isSome_iff_exists.1 hglacier.2.1
        rw [hglacier.1, htarget] at h hanswer
        have hanswered : answer.success = true := by
          split at h
          · cases h
            exact hsuccess
          · cases h
            exact hsuccess
        obtain ⟨rfl, hrow, _⟩ := message_glacier hr hfits hanswer hanswered
          (hglacier.2.2.trans htarget)
        cases h
        rw [effectRow_glacier hglacier]
        exact hrow
      · cases hfiling : filing (accounts i.accountId) i.action i.targetFolderId with
        | none =>
          obtain ⟨status, hstatus⟩ := message_unfiled hr hfits hleaves hreversible hfiling
          rw [hanswer] at hstatus
          cases hstatus
        | some x =>
          obtain ⟨target, role⟩ := x
          have hplain := plain_target hfiling hglacier
          obtain ⟨f, hf, hwrite, hacted⟩ := message_files hr hfits hanswer hfiling hplain
          rw [hwrite] at hanswer h
          cases hanswer
          cases h
          rw [effectRow_filed hleaves hfiling hglacier]
          have hrow : (onMessage S id f hf).find? id
              = some (actedRow (accounts i.accountId) i.action target role r) := by
            rw [onMessage_find hr, if_pos rfl, hacted]
          refine ⟨hrow, fun _ _ => ⟨target, role, rfl, fun _ => ?_⟩⟩
          show ((onMessage S id f hf).find? id).map MailRow.folderId = some target
          rw [hrow, Option.map_some, actedRow_folder]

/-- An action on one mail takes what its answer says. -/
theorem single_took {response : MessageActionResponse}
    (hreversible : i.action ≠ .expunge ∧ i.action ≠ .notSpam) (hbulk : i.bulk = false)
    (hm : i.messages = [m])
    (h : applyAndLocate accounts S m.id
      ⟨i.action, i.targetFolderId, (expectedFolderIds i).lookup m.id⟩ = (S1, .ok response))
    (hsuccess : response.success = true)
    (hagrees : Agrees S i (if response.applied then [] else [m.id])) :
    Took accounts i S S1 response.applied response.folderId
      (if response.applied then [] else [m.id]) [] := by
  have hnamed : ∀ {skipped : List Uuid}, ∀ m ∈ i.messages, m.id ∉ skipped →
      reported i skipped [] m.id := by
    intro skipped m' hm' hkept
    exact ⟨List.mem_map_of_mem hm', hkept⟩
  have hlisted : ∀ k f, (k, f) ∈ ([] : List (Uuid × Uuid)) →
      ∃ r, S.find? k = some r ∧ r.folderId = f := fun _ _ hf => absurd hf List.not_mem_nil
  cases happlied : response.applied with
  | false =>
    rw [happlied] at hagrees
    -- the one message is skipped, so nothing is reported
    have hnone : ∀ k, ¬reported i [m.id] [] k := by
      rintro k ⟨hin, hkept⟩
      rw [if_pos rfl, hm] at hin
      exact hkept hin
    exact ⟨fun k hk => absurd hk (hnone k), fun k hk => absurd hk (hnone k), fun _ _ k => hnone k,
      hnamed, hlisted, fun k hk => absurd hk (hnone k)⟩
  | true =>
    rw [happlied, if_pos rfl] at hagrees
    have hmem : m ∈ i.messages := by
      rw [hm]
      exact List.mem_singleton_self m
    obtain ⟨r, hr, hmatch⟩ := hagrees m hmem List.not_mem_nil
    have hguard : (expectedFolderIds i).lookup m.id = none ∨
        (expectedFolderIds i).lookup m.id = some r.folderId := by
      apply lookup_agrees
      intro m' hm' _
      rw [hm, List.mem_singleton] at hm'
      rw [hm']
      exact hmatch.folder
    have hfits : Fits i.accountId ((expectedFolderIds i).lookup m.id) r :=
      ⟨hmatch.account, hmatch.live, hguard⟩
    generalize (expectedFolderIds i).lookup m.id = e at h hfits
    obtain ⟨hrow, hfolder⟩ := single_row hreversible h hsuccess hr hfits
    have honly : ∀ k, reported i [] [] k → k = m.id := by
      rintro k ⟨hin, _⟩
      rw [if_pos rfl, hm] at hin
      simpa using hin
    constructor
    · intro k hk
      rw [honly k hk]
      exact ⟨r, hr, hmatch.account, hmatch.live, hrow⟩
    · intro k _ hleaves hglacier
      exact hfolder hleaves hglacier
    · intro hfalse
      cases hfalse
    · exact hnamed
    · exact hlisted
    · intro k _
      simp [hbulk]

theorem request_took (hreversible : i.action ≠ .expunge ∧ i.action ≠ .notSpam)
    (hone : i.bulk = false → ∃ m, i.messages = [m]) (hagrees : Agrees S i skipped)
    (h : request accounts S i = (S1, .answered applied landed skipped sources)) :
    Took accounts i S S1 applied landed skipped sources := by
  unfold request at h
  cases hbulk : i.bulk with
  | true =>
    rw [hbulk, if_pos rfl] at h
    cases hresult : applyBulkAction accounts i.accountId S (bulkRequest i) with
    | mk S' answer =>
      rw [hresult] at h
      cases answer with
      | error status => cases h
      | ok response =>
        dsimp only at h
        split at h
        · cases h
        · rename_i hanswered
          cases h
          apply bulk_took hreversible hbulk hresult
          · rintro ⟨hfail, hzero⟩
            apply hanswered
            rw [hfail, hzero]
            rfl
          · exact hagrees
  | false =>
    obtain ⟨m, hm⟩ := hone hbulk
    rw [hbulk, if_neg Bool.false_ne_true, hm] at h
    dsimp only at h
    cases hresult : applyAndLocate accounts S m.id
        ⟨i.action, i.targetFolderId, (expectedFolderIds i).lookup m.id⟩ with
    | mk S' answer =>
      rw [hresult] at h
      cases answer with
      | error status => cases h
      | ok response =>
        dsimp only at h
        split at h
        · cases h
        · rename_i hsuccess
          cases h
          exact single_took hreversible hbulk hm hresult (by simpa using hsuccess) hagrees

end Forward

/-! ## The requests of an undo -/

section Reversal

variable {accounts : Uuid → Account} {S : Messages} {k : Uuid}

theorem request_bulk {j : MailIntent} (h : j.bulk = true) :
    (request accounts S j).1 = (applyBulkAction accounts j.accountId S (bulkRequest j)).1 := by
  unfold request
  rw [h, if_pos rfl]
  dsimp only
  split
  · rfl
  · split <;> rfl

theorem request_flags {j : MailIntent} (hbulk : j.bulk = true)
    (hflag : leavesFolder j.action = false) :
    (request accounts S j).1.find? k = (S.find? k).map fun r =>
      if actsOn j.accountId S (bulkRequest j) k then setFlag j.action r else r := by
  obtain ⟨response, _, _, hcarried⟩ := @bulk_flags accounts j.accountId S (bulkRequest j)
    hflag
  rw [request_bulk hbulk]
  exact hcarried.rows k

variable {original : MailIntent} {now : Time} {newId : ℕ → IntentId} {landed : Uuid}
variable {src : List (Uuid × Uuid)}

/-- Whether a message is one an undo moves back, where the intent left it. -/
def returns (original : MailIntent) (landed : Uuid) (r : MailRow) : Prop :=
  r.accountId = original.accountId ∧ r.expunged = false ∧ r.folderId = landed

instance (original : MailIntent) (landed : Uuid) (r : MailRow) :
    Decidable (returns original landed r) :=
  inferInstanceAs (Decidable (_ ∧ _))

theorem mem_moveBack {x : Uuid × ℕ} :
    m ∈ (moveBack original now newId landed src x).messages ↔
      ∃ k, (k, x.1) ∈ src ∧ returning original landed k = m := by
  show m ∈ (src.filter fun s => decide (s.2 = x.1)).map (fun s => returning original landed s.1)
    ↔ _
  simp only [List.mem_map, List.mem_filter, decide_eq_true_eq]
  constructor
  · rintro ⟨⟨k, f⟩, ⟨hmem, rfl⟩, rfl⟩
    exact ⟨k, hmem, rfl⟩
  · rintro ⟨k, hmem, rfl⟩
    exact ⟨(k, x.1), ⟨hmem, rfl⟩, rfl⟩

theorem moveBack_rows {f : Uuid} {n : ℕ}
    (howned : (accounts original.accountId).ownsFolder f = true)
    (hglacier : (accounts original.accountId).glacierFolder ≠ some f) :
    (request accounts S (moveBack original now newId landed src (f, n))).1.find? k
      = (S.find? k).map fun r =>
          if (k, f) ∈ src ∧ returns original landed r then
            filedRow (accounts original.accountId) f
              ((accounts original.accountId).folderRole f) r
          else r := by
  obtain ⟨response, _, hcarried⟩ := @bulk_move accounts original.accountId S
    (bulkRequest (moveBack original now newId landed src (f, n))) f rfl rfl hglacier howned
  rw [request_bulk rfl]
  refine (hcarried.rows k).trans ?_
  cases hr : S.find? k with
  | none => rfl
  | some r =>
    rw [Option.map_some, Option.map_some]
    have hnamed : k ∈ (moveBack original now newId landed src (f, n)).messages.map
        IntentMessage.id ↔ (k, f) ∈ src := by
      rw [List.mem_map]
      constructor
      · rintro ⟨m, hm, rfl⟩
        obtain ⟨k', hk', rfl⟩ := mem_moveBack.1 hm
        exact hk'
      · intro hmem
        exact ⟨returning original landed k, mem_moveBack.2 ⟨k, hmem, rfl⟩, rfl⟩
    have hfolder : ∀ m ∈ (moveBack original now newId landed src (f, n)).messages, m.id = k →
        m.folderId = some landed := by
      intro m hm _
      obtain ⟨k', _, rfl⟩ := mem_moveBack.1 hm
      rfl
    have hiff : actsOn original.accountId S
        (bulkRequest (moveBack original now newId landed src (f, n))) k = true ↔
          (k, f) ∈ src ∧ returns original landed r := by
      rw [acts_reversal_iff rfl rfl hfolder hr, hnamed]
      rfl
    simp only [hiff]

/-- Each row is filed back by the reversal of its own source folder. -/
theorem moves_rows {home : Uuid → Uuid} (hhome : ∀ k f, (k, f) ∈ src → f = home k)
    (moves : List (Uuid × ℕ)) (hdistinct : (moves.map Prod.fst).Nodup)
    (howned : ∀ f ∈ moves.map Prod.fst, (accounts original.accountId).ownsFolder f = true ∧
      (accounts original.accountId).glacierFolder ≠ some f) :
    (requestAll accounts S (moves.map (moveBack original now newId landed src))).find? k
      = (S.find? k).map fun r =>
          if home k ∈ moves.map Prod.fst ∧ (k, home k) ∈ src ∧ returns original landed r then
            filedRow (accounts original.accountId) (home k)
              ((accounts original.accountId).folderRole (home k)) r
          else r := by
  induction moves generalizing S with
  | nil =>
    show S.find? k = _
    cases S.find? k with
    | none => rfl
    | some r => simp
  | cons x moves ih =>
    obtain ⟨f, n⟩ := x
    rw [List.map_cons, List.nodup_cons] at hdistinct
    have howned_f := howned f (by simp)
    have hrest : ∀ g ∈ moves.map Prod.fst, (accounts original.accountId).ownsFolder g = true ∧
        (accounts original.accountId).glacierFolder ≠ some g := by
      intro g hg
      exact howned g (List.mem_cons_of_mem _ hg)
    show (requestAll accounts (request accounts S (moveBack original now newId landed src
      (f, n))).1 (moves.map (moveBack original now newId landed src))).find? k = _
    rw [ih hdistinct.2 hrest, moveBack_rows howned_f.1 howned_f.2, Option.map_map]
    congr 1
    funext r
    simp only [Function.comp_apply, List.map_cons, List.mem_cons]
    by_cases hfirst : (k, f) ∈ src
    · -- this move is the message's own, so none of the rest names it
      have hf := hhome k f hfirst
      subst hf
      simp [hdistinct.1, hfirst]
    · have hmiss : home k = f → (k, home k) ∉ src := by
        intro hf
        rw [hf]
        exact hfirst
      have hiff : (home k = f ∨ home k ∈ moves.map Prod.fst) ∧ (k, home k) ∈ src ∧
          returns original landed r ↔
            home k ∈ moves.map Prod.fst ∧ (k, home k) ∈ src ∧ returns original landed r := by
        constructor
        · rintro ⟨hf | hlater, hmem, hreturns⟩
          · exact absurd hmem (hmiss hf)
          · exact ⟨hlater, hmem, hreturns⟩
        · rintro ⟨hlater, hmem, hreturns⟩
          exact ⟨Or.inr hlater, hmem, hreturns⟩
      rw [if_neg (fun h : (k, f) ∈ src ∧ returns original landed r => hfirst h.1)]
      simp only [hiff]

def homeAgain (A : Account) (original : MailIntent) (landed home : Uuid) (r : MailRow) : MailRow :=
  if returns original landed r then filedRow A home (A.folderRole home) r else r

def wasUnread (original : MailIntent) (k : Uuid) : Prop :=
  (snapshotOf original k).map IntentMessage.isSeen = some false

instance (original : MailIntent) (k : Uuid) : Decidable (wasUnread original k) :=
  inferInstanceAs (Decidable (_ = _))

def undoneRow (A : Account) (original : MailIntent) (landed home k : Uuid) (r : MailRow) :
    MailRow :=
  let moved := homeAgain A original landed home r
  if wasUnread original k ∧ returns original home moved then setFlag .markUnread moved else moved

theorem mem_unreadAgain :
    m ∈ unreadAgain original landed ↔ ∃ k f, (k, f) ∈ sourcesOf original landed ∧
      wasUnread original k ∧ { returning original landed k with folderId := some f } = m := by
  unfold unreadAgain wasUnread
  simp only [List.mem_map, List.mem_filter, decide_eq_true_eq]
  constructor
  · rintro ⟨⟨k, f⟩, ⟨hmem, hunread⟩, rfl⟩
    exact ⟨k, f, hmem, hunread, rfl⟩
  · rintro ⟨k, f, hmem, hunread, rfl⟩
    exact ⟨(k, f), ⟨hmem, hunread⟩, rfl⟩

theorem unreadAgain_rows {home : Uuid → Uuid} {id : IntentId} {created : Time}
    (hhome : ∀ k f, (k, f) ∈ sourcesOf original landed → f = home k) :
    (request accounts S
        { reversalBase original now id .markUnread (unreadAgain original landed) with
          createdAt := created }).1.find? k
      = (S.find? k).map fun r =>
          if (k, home k) ∈ sourcesOf original landed ∧ wasUnread original k ∧
              returns original (home k) r then
            setFlag .markUnread r
          else r := by
  rw [request_flags rfl rfl]
  cases hr : S.find? k with
  | none => rfl
  | some r =>
    rw [Option.map_some, Option.map_some]
    have hnamed : k ∈ (unreadAgain original landed).map IntentMessage.id ↔
        (k, home k) ∈ sourcesOf original landed ∧ wasUnread original k := by
      rw [List.mem_map]
      constructor
      · rintro ⟨m, hm, rfl⟩
        obtain ⟨k', f, hmem, hunread, rfl⟩ := mem_unreadAgain.1 hm
        have hf := hhome k' f hmem
        rw [hf] at hmem
        exact ⟨hmem, hunread⟩
      · rintro ⟨hmem, hunread⟩
        exact ⟨_, mem_unreadAgain.2 ⟨k, home k, hmem, hunread, rfl⟩, rfl⟩
    have hfolder : ∀ m ∈ unreadAgain original landed, m.id = k → m.folderId = some (home k) := by
      intro m hm hid
      obtain ⟨k', f, hmem', _, rfl⟩ := mem_unreadAgain.1 hm
      have hk : k' = k := hid
      subst hk
      exact congrArg some (hhome k' f hmem')
    have hiff : actsOn original.accountId S (bulkRequest { reversalBase original now id
        .markUnread (unreadAgain original landed) with createdAt := created }) k = true ↔
          (k, home k) ∈ sourcesOf original landed ∧ wasUnread original k ∧
            returns original (home k) r :=
      (acts_reversal_iff rfl rfl hfolder hr).trans ((and_congr_left' hnamed).trans and_assoc)
    exact congrArg some (if_congr hiff rfl rfl)

/-- What the reversals of an intent leave of each row. -/
theorem undo_rows {home : Uuid → Uuid} (happlied : original.notApplied = false)
    (hdone : original.state = .done) (hmoved : original.staysInPlace = false)
    (hleaves : leavesFolder original.action = true) (hlanded : landedOf original = some landed)
    (hhome : ∀ k f, (k, f) ∈ sourcesOf original landed → f = home k)
    (howned : ∀ k f, (k, f) ∈ sourcesOf original landed →
      (accounts original.accountId).ownsFolder f = true ∧
        (accounts original.accountId).glacierFolder ≠ some f) :
    (requestAll accounts S (reversalsOf original now newId)).find? k
      = (S.find? k).map fun r =>
          if (k, home k) ∈ sourcesOf original landed then
            undoneRow (accounts original.accountId) original landed (home k) k r
          else r := by
  have hfolders : (((sourcesOf original landed).map Prod.snd).eraseDups.zipIdx).map Prod.fst
      = ((sourcesOf original landed).map Prod.snd).eraseDups := List.zipIdx_map_fst 0 _
  have hmoves : ∀ T : Messages, (requestAll accounts T
      (((sourcesOf original landed).map Prod.snd).eraseDups.zipIdx.map
        (moveBack original now newId landed (sourcesOf original landed)))).find? k
      = (T.find? k).map fun r =>
          if (k, home k) ∈ sourcesOf original landed then
            homeAgain (accounts original.accountId) original landed (home k) r
          else r := by
    intro T
    rw [moves_rows hhome]
    · congr 1
      funext r
      by_cases hmem : (k, home k) ∈ sourcesOf original landed
      · have hin : home k ∈ ((sourcesOf original landed).map Prod.snd).eraseDups :=
          List.mem_eraseDups.2 (List.mem_map_of_mem hmem)
        rw [hfolders, if_pos hmem]
        unfold homeAgain
        simp only [hin, hmem, true_and]
      · rw [if_neg hmem, if_neg (fun h => hmem h.2.1)]
    · rw [hfolders]
      exact eraseDups_nodup _
    · intro f hf
      rw [hfolders, List.mem_eraseDups] at hf
      obtain ⟨x, hx, rfl⟩ := List.mem_map.1 hf
      exact howned x.1 x.2 hx
  unfold reversalsOf
  rw [happlied, hdone, hmoved, hleaves, hlanded]
  simp only [ne_eq, not_true_eq_false, decide_false, Bool.or_self, Bool.false_eq_true, if_false,
    if_true]
  by_cases hunread : unreadAgain original landed = []
  · rw [if_pos hunread, hmoves]
    congr 1
    funext r
    by_cases hmem : (k, home k) ∈ sourcesOf original landed
    · have hread : ¬wasUnread original k := by
        intro hwas
        have hm := mem_unreadAgain.2 ⟨k, home k, hmem, hwas, rfl⟩
        rw [hunread] at hm
        cases hm
      rw [if_pos hmem, if_pos hmem]
      unfold undoneRow
      simp [hread]
    · rw [if_neg hmem, if_neg hmem]
  · rw [if_neg hunread]
    show (requestAll accounts S (_ ++ _)).find? k = _
    unfold requestAll
    rw [List.foldl_append]
    show (request accounts (requestAll accounts S _) _).1.find? k = _
    rw [unreadAgain_rows hhome, hmoves, Option.map_map]
    congr 1
    funext r
    by_cases hmem : (k, home k) ∈ sourcesOf original landed
    · simp only [Function.comp_apply, hmem, if_true, true_and]
      rfl
    · simp only [Function.comp_apply, hmem, if_false, false_and]

end Reversal

/-! ## Which messages an undo restores -/

structure Restored (before after : MailRow) : Prop where
  folder : after.folderId = before.folderId
  live : after.expunged = before.expunged
  seen : after.isSeen = before.isSeen
  flagged : after.isFlagged = before.isFlagged

section Undo

variable {accounts : Uuid → Account} {i : MailIntent} {S S1 : Messages} {applied : Bool}
variable {landed : Option Uuid} {skipped : List Uuid} {sources : List (Uuid × Uuid)}

def answeredIntent (i : MailIntent) (now : Time) (applied : Bool) (landed : Option Uuid)
    (skipped : List Uuid) (sources : List (Uuid × Uuid)) : MailIntent :=
  mergedForUndo i (settleDone i now applied landed skipped sources)

def afterUndo (accounts : Uuid → Account) (S1 : Messages) (original : MailIntent) (later : Time)
    (newId : ℕ → IntentId) : Messages :=
  requestAll accounts S1 (reversalsOf original later newId)

def named (i : MailIntent) (k : Uuid) : Prop := k ∈ i.messages.map IntentMessage.id

instance (i : MailIntent) (k : Uuid) : Decidable (named i k) :=
  inferInstanceAs (Decidable (_ ∈ _))

def folderKnown (i : MailIntent) (k : Uuid) : Prop :=
  ∃ m ∈ i.messages, m.id = k ∧ m.folderId.isSome = true

instance (i : MailIntent) (k : Uuid) : Decidable (folderKnown i k) :=
  inferInstanceAs (Decidable (∃ m ∈ i.messages, _))

/-- Whether the undo of an intent restores a message it acted on. -/
def restorable (A : Account) (i : MailIntent) (r : MailRow) : Prop :=
  if leavesFolder i.action then
    match filing A i.action i.targetFolderId with
    | none => True
    | some (target, role) =>
      if intoGlacier A i then A.glacierNow r.id ≠ .landed
      else if r.folderId = target then r.isSeen = true ∨ shouldMarkReadOnFile A role = false
      else
        i.staysInPlace = false ∧
          ((i.bulk = true ∧ i.expandThreads = true) ∨ folderKnown i r.id) ∧
          (r.isSeen = true ∨ named i r.id ∨
            (shouldMarkReadOnFile A role = false ∧
              shouldMarkReadOnFile A (A.folderRole r.folderId) = false))
  else setFlag i.action r = r ∨ (i.staysInPlace = false ∧ named i r.id)

theorem restored_setFlag :
    Restored r (setFlag action r) ↔ setFlag action r = r := by
  constructor
  · intro h
    obtain ⟨_, _, hseen, hflagged⟩ := h
    cases r
    cases action <;> simp_all [setFlag]
  · intro h
    rw [h]
    exact ⟨rfl, rfl, rfl, rfl⟩

theorem inverse_had {a : Uuid} (h : inverse action = some (action', had)) (hmatch : Matches a m r) :
    (had m = false → setFlag action r = r) ∧
      (had m = true → setFlag action' (setFlag action r) = r) := by
  obtain ⟨_, _, _, hseen, hflagged⟩ := hmatch
  cases r
  cases action <;> cases h <;> simp_all [setFlag]

theorem inverse_flag (h : inverse action = some (action', had)) : leavesFolder action' = false := by
  cases action <;> cases h <;> rfl

theorem inverse_isSome (h : leavesFolder action = false) :
    ∃ action' had, inverse action = some (action', had) := by
  obtain rfl | rfl | rfl | rfl := flag_cases h
  all_goals exact ⟨_, _, rfl⟩

theorem wasUnread_iff {k : Uuid} (original : MailIntent)
    (hmessages : original.messages = i.messages) (hagrees : Agrees S i skipped)
    (hkept : k ∉ skipped) (hr : S.find? k = some r) :
    wasUnread original k ↔ named i k ∧ r.isSeen = false := by
  unfold wasUnread snapshotOf named
  rw [hmessages]
  cases hfind : i.messages.reverse.find? fun m => decide (m.id = k) with
  | none =>
    have hmiss := List.find?_eq_none.1 hfind
    constructor
    · intro h
      cases h
    · rintro ⟨hnamed, _⟩
      obtain ⟨m, hm, hid⟩ := List.mem_map.1 hnamed
      exact absurd (decide_eq_true hid) (hmiss m (List.mem_reverse.2 hm))
  | some m =>
    have hm := List.mem_reverse.1 (List.mem_of_find?_eq_some hfind)
    have hid : m.id = k := by simpa using List.find?_some hfind
    subst hid
    rw [Option.map_some, (hagrees.matched hm hkept hr).seen, Option.some_inj]
    constructor
    · intro hunread
      exact ⟨List.mem_map_of_mem hm, hunread⟩
    · intro h
      exact h.2

variable {now later : Time} {newId : ℕ → IntentId}

theorem source_reported (htook : Took accounts i S S1 applied landed skipped sources)
    (hagrees : Agrees S i skipped) {k f : Uuid}
    (h : (k, f) ∈ sourcesOf (answeredIntent i now applied landed skipped sources) target) :
    reported i skipped sources k ∧ f ≠ target ∧
      ∃ r, S.find? k = some r ∧ r.folderId = f := by
  unfold sourcesOf at h
  rw [List.mem_filter] at h
  obtain ⟨hin, hkept⟩ := h
  simp only [Bool.and_eq_true, decide_eq_true_eq] at hkept
  have hskip : k ∉ skipped := hkept.1
  by_cases hsources : sources = []
  · have hnamed : (k, f) ∈ i.messages.filterMap
        fun m => m.folderId.map fun f => (m.id, f) := by
      have heq : (answeredIntent i now applied landed skipped sources).sources = [] := hsources
      rw [if_pos heq] at hin
      exact hin
    obtain ⟨m, hm, hpair⟩ := List.mem_filterMap.1 hnamed
    obtain ⟨g, hg, hpair⟩ := Option.map_eq_some_iff.1 hpair
    cases hpair
    obtain ⟨r, hr, hmatch⟩ := hagrees m hm hskip
    refine ⟨htook.named m hm hskip, hkept.2, r, hr, ?_⟩
    obtain hnone | hsome := hmatch.folder
    · rw [hg] at hnone
      cases hnone
    · rw [hg] at hsome
      exact (Option.some.inj hsome).symm
  · have hlisted : (k, f) ∈ sources := by
      have hne : (answeredIntent i now applied landed skipped sources).sources ≠ [] := hsources
      rw [if_neg hne] at hin
      exact hin
    refine ⟨⟨?_, hskip⟩, hkept.2, htook.listed k f hlisted⟩
    rw [if_neg hsources]
    exact List.mem_map_of_mem hlisted

theorem reported_source (htook : Took accounts i S S1 applied landed skipped sources)
    (hagrees : Agrees S i skipped) {target k : Uuid} {r : MailRow} (hr : S.find? k = some r)
    (hk : reported i skipped sources k) :
    (k, r.folderId) ∈ sourcesOf (answeredIntent i now applied landed skipped sources) target ↔
      r.folderId ≠ target ∧ ((i.bulk = true ∧ i.expandThreads = true) ∨ folderKnown i k) := by
  have hexpanded := htook.expanded k hk
  unfold sourcesOf
  rw [List.mem_filter]
  simp only [Bool.and_eq_true, decide_eq_true_eq]
  have hskip : k ∉ (answeredIntent i now applied landed skipped sources).skippedIds := hk.2
  by_cases hsources : sources = []
  · have heq : (answeredIntent i now applied landed skipped sources).sources = [] := hsources
    have hno : ¬(i.bulk = true ∧ i.expandThreads = true) := fun h => hexpanded.2 h hsources
    rw [if_pos heq, List.mem_filterMap]
    constructor
    · rintro ⟨⟨m, hm, hpair⟩, _, hne⟩
      obtain ⟨g, hg, hpair⟩ := Option.map_eq_some_iff.1 hpair
      cases hpair
      exact ⟨hne, Or.inr ⟨m, hm, rfl, by rw [hg]; rfl⟩⟩
    · rintro ⟨hne, hyes | ⟨m, hm, hid, hknown⟩⟩
      · exact absurd hyes hno
      · obtain ⟨g, hg⟩ := Option.isSome_iff_exists.1 hknown
        subst hid
        obtain hnone | hsome := (hagrees.matched hm hk.2 hr).folder
        · rw [hg] at hnone
          cases hnone
        · refine ⟨⟨m, hm, ?_⟩, hskip, hne⟩
          rw [hsome]
          rfl
  · have hyes := hexpanded.1 hsources
    have hne : (answeredIntent i now applied landed skipped sources).sources ≠ [] := hsources
    rw [if_neg hne]
    constructor
    · rintro ⟨_, _, hfolder⟩
      exact ⟨hfolder, Or.inl hyes⟩
    · rintro ⟨hfolder, _⟩
      refine ⟨?_, hskip, hfolder⟩
      show (k, r.folderId) ∈ sources
      obtain ⟨hin, _⟩ := hk
      rw [if_neg hsources] at hin
      obtain ⟨x, hx, rfl⟩ := List.mem_map.1 hin
      obtain ⟨r', hr', hf⟩ := htook.listed x.1 x.2 hx
      rw [hr] at hr'
      cases hr'
      rw [hf]
      exact hx

/-- What an undo is to bring about: each message reported as acted on is as it was, and
no other message is touched. -/
def UndoRestores (S S1 S2 : Messages) (acted : Uuid → Prop) : Prop :=
  (∀ k r, acted k → S.find? k = some r → ∃ r', S2.find? k = some r' ∧ Restored r r') ∧
    ∀ k, ¬acted k → S2.find? k = S1.find? k

theorem undo_nothing (h : ¬(i.staysInPlace = false ∧ applied = true)) :
    afterUndo accounts S1 (answeredIntent i now applied landed skipped sources) later newId
      = S1 := by
  have hnone : reversalsOf (answeredIntent i now applied landed skipped sources) later newId
      = [] := by
    have hcond : (!applied || decide (IntentState.done ≠ IntentState.done) || i.staysInPlace)
        = true := by
      cases hstays : i.staysInPlace with
      | true => simp
      | false =>
        cases happlied : applied with
        | true => exact absurd ⟨hstays, happlied⟩ h
        | false => rfl
    exact if_pos hcond
  unfold afterUndo
  rw [hnone]
  rfl

def flagBack (original : MailIntent) (had : IntentMessage → Bool) : List IntentMessage :=
  original.messages.filter fun m => decide (m.id ∉ original.skippedIds) && had m

def flagUndo (original : MailIntent) (later : Time) (newId : ℕ → IntentId) (action' : Action)
    (had : IntentMessage → Bool) : MailIntent :=
  reversalBase original later (newId 0) action' (flagBack original had)

theorem flag_undo_rows {original : MailIntent}
    {k : Uuid} (happlied : original.notApplied = false) (hdone : original.state = .done)
    (hstays : original.staysInPlace = false) (hflag : leavesFolder original.action = false)
    (hinverse : inverse original.action = some (action', had)) :
    (afterUndo accounts S original later newId).find? k = (S.find? k).map fun r =>
      if actsOn original.accountId S (bulkRequest
          (flagUndo original later newId action' had)) k then
        setFlag action' r
      else r := by
  unfold afterUndo reversalsOf
  rw [happlied, hdone, hstays, hflag, hinverse]
  show (requestAll accounts S (if flagBack original had = [] then [] else
    [flagUndo original later newId action' had])).find? k = _
  by_cases hback : flagBack original had = []
  · rw [if_pos hback]
    show S.find? k = _
    cases hr : S.find? k with
    | none => rfl
    | some r =>
      have hacts := acts_iff (i := flagUndo original later newId action' had)
        (a := original.accountId) rfl hr
      have hnot : ¬actsOn original.accountId S
          (bulkRequest (flagUndo original later newId action' had)) k = true := by
        rw [hacts]
        rintro ⟨hnamed, _⟩
        have hempty : k ∈ (flagBack original had).map IntentMessage.id := hnamed
        rw [hback] at hempty
        cases hempty
      rw [Option.map_some, if_neg hnot]
  · rw [if_neg hback]
    exact request_flags rfl (inverse_flag hinverse)

theorem setFlag_folder (action : Action) (r : MailRow) :
    (setFlag action r).folderId = r.folderId ∧ (setFlag action r).accountId = r.accountId ∧
      (setFlag action r).expunged = r.expunged := by
  cases action <;> exact ⟨rfl, rfl, rfl⟩

theorem mem_flagBack :
    m ∈ flagBack (answeredIntent i now applied landed skipped sources) had ↔
      m ∈ i.messages ∧ m.id ∉ skipped ∧ had m = true := by
  show m ∈ i.messages.filter (fun m => decide (m.id ∉ skipped) && had m) ↔ _
  rw [List.mem_filter, Bool.and_eq_true, decide_eq_true_eq]

theorem flagged_row (htook : Took accounts i S S1 applied landed skipped sources)
    (hflag : leavesFolder i.action = false) {k : Uuid}
    (hk : reported i skipped sources k) (hr : S.find? k = some r) :
    r.accountId = i.accountId ∧ r.expunged = false ∧
      S1.find? k = some (setFlag i.action r) := by
  obtain ⟨hacc, hexp, hafter⟩ := htook.row_of hk hr
  rw [effectRow_flag hflag] at hafter
  exact ⟨hacc, hexp, hafter⟩

theorem flagUndo_guard (hagrees : Agrees S i skipped) {k : Uuid} (hkept : k ∉ skipped)
    (hr : S.find? k = some r) :
    (expectedFolderIds (flagUndo (answeredIntent i now applied landed skipped sources) later
        newId action' had)).lookup k = none ∨
      (expectedFolderIds (flagUndo (answeredIntent i now applied landed skipped sources) later
        newId action' had)).lookup k = some (setFlag i.action r).folderId := by
  apply lookup_agrees
  intro m hm hid
  obtain ⟨hmem, _, _⟩ := mem_flagBack.1 hm
  rw [← hid] at hr hkept
  rw [(setFlag_folder i.action r).1]
  exact (hagrees.matched hmem hkept hr).folder

theorem undo_flag_row (htook : Took accounts i S S1 applied landed skipped sources)
    (hagrees : Agrees S i skipped) (hflag : leavesFolder i.action = false)
    (hmoved : i.staysInPlace = false) (happlied : applied = true) {k : Uuid}
    (hk : reported i skipped sources k) (hr : S.find? k = some r) :
    (afterUndo accounts S1 (answeredIntent i now applied landed skipped sources) later
        newId).find? k
      = some (if named i k then r else setFlag i.action r) := by
  obtain ⟨action', had, hinverse⟩ := inverse_isSome hflag
  obtain ⟨hacc, hexp, hafter⟩ := flagged_row htook hflag hk hr
  obtain ⟨hfolder, haccount, hexpunged⟩ := setFlag_folder i.action r
  have hsettled : (answeredIntent i now applied landed skipped sources).notApplied = false := by
    show (!applied) = false
    rw [happlied]
    rfl
  rw [flag_undo_rows hsettled rfl hmoved hflag hinverse, hafter, Option.map_some]
  congr 1
  have hacts := acts_iff (i := flagUndo (answeredIntent i now applied landed skipped sources)
    later newId action' had) (a := i.accountId) rfl hafter
  split
  · rename_i hact
    obtain ⟨hin, _⟩ := hacts.1 hact
    obtain ⟨m, hm, hid⟩ := List.mem_map.1 hin
    obtain ⟨hmem, hkept, hhad⟩ := mem_flagBack.1 hm
    have hnamed : named i k := List.mem_map.2 ⟨m, hmem, hid⟩
    rw [if_pos hnamed]
    exact (inverse_had hinverse (hagrees.matched hmem hkept (hid ▸ hr))).2 hhad
  · rename_i hact
    split
    · rename_i hnamed
      obtain ⟨m, hmem, hid⟩ := List.mem_map.1 hnamed
      have hkept : m.id ∉ skipped := by
        rw [hid]
        exact hk.2
      apply (inverse_had hinverse (hagrees.matched hmem hkept (hid ▸ hr))).1
      by_contra hhad
      apply hact
      refine hacts.2 ⟨List.mem_map.2 ⟨m, mem_flagBack.2 ⟨hmem, hkept, ?_⟩, hid⟩, ?_, ?_,
        flagUndo_guard hagrees hk.2 hr⟩
      · exact Bool.of_not_eq_false hhad
      · rw [haccount, hacc]
      · rw [hexpunged, hexp]
    · rfl

theorem undo_flag_others (htook : Took accounts i S S1 applied landed skipped sources)
    (hflag : leavesFolder i.action = false) {k : Uuid} (hk : ¬reported i skipped sources k) :
    (afterUndo accounts S1 (answeredIntent i now applied landed skipped sources) later
        newId).find? k = S1.find? k := by
  by_cases hreverses : i.staysInPlace = false ∧ applied = true
  · obtain ⟨action', had, hinverse⟩ := inverse_isSome hflag
    have hsettled : (answeredIntent i now applied landed skipped sources).notApplied = false := by
      show (!applied) = false
      rw [hreverses.2]
      rfl
    rw [flag_undo_rows hsettled rfl hreverses.1 hflag hinverse]
    cases hr : S1.find? k with
    | none => rfl
    | some r =>
      have hacts := acts_iff (i := flagUndo (answeredIntent i now applied landed skipped
        sources) later newId action' had) (a := i.accountId) rfl hr
      rw [Option.map_some, if_neg]
      intro hact
      obtain ⟨hin, _⟩ := hacts.1 hact
      obtain ⟨m, hm, hid⟩ := List.mem_map.1 hin
      obtain ⟨hmem, hkept, _⟩ := mem_flagBack.1 hm
      have hreported := htook.named m hmem hkept
      rw [hid] at hreported
      exact hk hreported
  · rw [undo_nothing hreverses]

def homeOf (S : Messages) (k : Uuid) : Uuid := ((S.find? k).map MailRow.folderId).getD 0

theorem homeOf_eq {k : Uuid} (hr : S.find? k = some r) :
    homeOf S k = r.folderId := by
  unfold homeOf
  rw [hr]
  rfl

theorem undo_leaving (htook : Took accounts i S S1 applied landed skipped sources)
    (hagrees : Agrees S i skipped) (hplaced : Placed accounts S)
    (hleaves : leavesFolder i.action = true)
    (hreverses : i.staysInPlace = false ∧ applied = true) {target : Uuid}
    (hlanded : landedOf (answeredIntent i now applied landed skipped sources) = some target)
    (k : Uuid) :
    (afterUndo accounts S1 (answeredIntent i now applied landed skipped sources) later
        newId).find? k
      = (S1.find? k).map fun r =>
          if (k, homeOf S k)
              ∈ sourcesOf (answeredIntent i now applied landed skipped sources) target then
            undoneRow (accounts i.accountId) (answeredIntent i now applied landed skipped sources)
              target (homeOf S k) k r
          else r := by
  have hsettled : (answeredIntent i now applied landed skipped sources).notApplied = false := by
    show (!applied) = false
    rw [hreverses.2]
    rfl
  refine undo_rows hsettled rfl hreverses.1 hleaves hlanded ?_ ?_
  · intro k f hf
    obtain ⟨_, _, r, hr, hfolder⟩ := source_reported htook hagrees hf
    rw [homeOf_eq hr, hfolder]
  · intro k f hf
    obtain ⟨hk, _, r, hr, hfolder⟩ := source_reported htook hagrees hf
    obtain ⟨hacc, hexp, _⟩ := htook.row_of hk hr
    have hhome := hplaced k r hr hexp
    rw [hacc, hfolder] at hhome
    exact hhome

theorem undo_leaving_others (htook : Took accounts i S S1 applied landed skipped sources)
    (hagrees : Agrees S i skipped) (hplaced : Placed accounts S)
    (hleaves : leavesFolder i.action = true) {k : Uuid} (hk : ¬reported i skipped sources k) :
    (afterUndo accounts S1 (answeredIntent i now applied landed skipped sources) later
        newId).find? k = S1.find? k := by
  by_cases hreverses : i.staysInPlace = false ∧ applied = true
  · cases hlanded : landedOf (answeredIntent i now applied landed skipped sources) with
    | none =>
      have hnone : reversalsOf (answeredIntent i now applied landed skipped sources) later
          newId = [] := by
        unfold reversalsOf
        split
        · rfl
        · have hcond : leavesFolder
              (answeredIntent i now applied landed skipped sources).action = true := hleaves
          rw [if_pos hcond, hlanded]
      unfold afterUndo
      rw [hnone]
      rfl
    | some target =>
      rw [undo_leaving htook hagrees hplaced hleaves hreverses hlanded]
      have hmiss : (k, homeOf S k)
          ∉ sourcesOf (answeredIntent i now applied landed skipped sources) target := by
        intro hmem
        exact hk (source_reported htook hagrees hmem).1
      simp only [hmiss, if_false]
      cases S1.find? k <;> rfl
  · rw [undo_nothing hreverses]

theorem markUnread_unread (h : r.isSeen = false) : setFlag .markUnread r = r := by
  cases r
  cases h
  rfl

theorem undo_glacier_row (htook : Took accounts i S S1 applied landed skipped sources)
    (hagrees : Agrees S i skipped) (hplaced : Placed accounts S)
    (hglacier : intoGlacier (accounts i.accountId) i) {k : Uuid}
    (hk : reported i skipped sources k) (hr : S.find? k = some r) :
    (afterUndo accounts S1 (answeredIntent i now applied landed skipped sources) later
        newId).find? k = some (glacierRow (accounts i.accountId) none r) := by
  obtain ⟨hacc, hexp, hafter⟩ := htook.row_of hk hr
  rw [effectRow_glacier hglacier] at hafter
  by_cases hreverses : i.staysInPlace = false ∧ applied = true
  · obtain ⟨target, htarget⟩ := Option.isSome_iff_exists.1 hglacier.2.1
    have hlanded : landedOf (answeredIntent i now applied landed skipped sources)
        = some target := by
      show (if i.action = .move then i.targetFolderId else landed) = some target
      rw [if_pos hglacier.1, htarget]
    have hleaves : leavesFolder i.action = true := by
      rw [hglacier.1]
      rfl
    rw [undo_leaving htook hagrees hplaced hleaves hreverses hlanded, hafter, Option.map_some]
    congr 1
    split
    · -- no live message is in the glacier's folder, so none is moved back
      have helsewhere : r.folderId ≠ target := by
        intro hfolder
        have hhome := (hplaced k r hr hexp).2
        rw [hacc, hfolder] at hhome
        exact hhome (hglacier.2.2.trans htarget)
      have hstays : homeAgain (accounts i.accountId)
          (answeredIntent i now applied landed skipped sources) target (homeOf S k)
            (glacierRow (accounts i.accountId) none r)
          = glacierRow (accounts i.accountId) none r := by
        unfold homeAgain
        rw [if_neg]
        rintro ⟨_, _, hfolder⟩
        apply helsewhere
        rw [← hfolder]
        unfold glacierRow
        split <;> rfl
      unfold undoneRow
      dsimp only
      rw [hstays]
      split
      · rename_i hunread
        have hseen := ((wasUnread_iff (answeredIntent i now applied landed skipped sources) rfl
          hagrees hk.2 hr).1 hunread.1).2
        apply markUnread_unread
        rw [← hseen]
        unfold glacierRow
        split <;> rfl
      · rfl
    · rfl
  · rw [undo_nothing hreverses]
    exact hafter

theorem undoneRow_restored {original : MailIntent} {k : Uuid} (hacc : r.accountId = original.accountId)
    (hlive : r.expunged = false)
    (hunread : wasUnread original k ↔ named i k ∧ r.isSeen = false) :
    Restored r
        (undoneRow A original target r.folderId k (actedRow A action target role r)) ↔
      (r.isSeen = true ∨ named i k ∨ (shouldMarkReadOnFile A role = false ∧
        shouldMarkReadOnFile A (A.folderRole r.folderId) = false)) := by
  obtain ⟨haccount, hexpunged, hflagged, hseen⟩ :=
    actedRow_rest (A := A) action target role r
  have hmoved : homeAgain A original target r.folderId (actedRow A action target role r)
      = filedRow A r.folderId (A.folderRole r.folderId) (actedRow A action target role r) := by
    unfold homeAgain
    rw [if_pos]
    exact ⟨haccount.trans hacc, hexpunged.trans hlive, actedRow_folder action target role r⟩
  have hback : returns original r.folderId
      (filedRow A r.folderId (A.folderRole r.folderId) (actedRow A action target role r)) :=
    ⟨haccount.trans hacc, hexpunged.trans hlive, rfl⟩
  unfold undoneRow
  dsimp only
  rw [hmoved]
  split
  · rename_i h
    obtain ⟨hnamed, hread⟩ := hunread.1 h.1
    constructor
    · intro _
      exact Or.inr (Or.inl hnamed)
    · intro _
      exact ⟨rfl, hexpunged, hread.symm, hflagged⟩
  · rename_i h
    have hread : r.isSeen = true ∨ ¬named i k := by
      by_contra hnot
      rw [not_or, Bool.not_eq_true, not_not] at hnot
      exact h ⟨hunread.2 ⟨hnot.2, hnot.1⟩, hback⟩
    have hsame : Restored r
        (filedRow A r.folderId (A.folderRole r.folderId) (actedRow A action target role r)) ↔
          ((r.isSeen || shouldMarkReadOnFile A role) ||
            shouldMarkReadOnFile A (A.folderRole r.folderId)) = r.isSeen := by
      rw [← hseen]
      constructor
      · intro hrestored
        exact hrestored.seen
      · intro hkept
        exact ⟨rfl, hexpunged, hkept, hflagged⟩
    rw [hsame]
    cases hr : r.isSeen with
    | true => simp
    | false =>
      rw [hr] at hread
      have hunnamed : ¬named i k := by simpa using hread
      simp [hunnamed]

theorem actedRow_restored :
    Restored r (actedRow A action target role r) ↔
      r.folderId = target ∧ (r.isSeen = true ∨ shouldMarkReadOnFile A role = false) := by
  obtain ⟨_, hexpunged, hflagged, hseen⟩ := actedRow_rest (A := A) action target role r
  have hmark : (r.isSeen || shouldMarkReadOnFile A role) = r.isSeen ↔
      (r.isSeen = true ∨ shouldMarkReadOnFile A role = false) := by
    cases r.isSeen <;> simp
  constructor
  · intro h
    refine ⟨?_, ?_⟩
    · rw [← h.folder, actedRow_folder]
    · rw [← hmark, ← hseen, h.seen]
  · rintro ⟨hfolder, hread⟩
    refine ⟨?_, hexpunged, ?_, hflagged⟩
    · rw [actedRow_folder, hfolder]
    · rw [hseen, hmark.2 hread]

/-- The undo of an intent restores one message it acted on. -/
def RestoresRow (S S2 : Messages) (k : Uuid) : Prop :=
  ∀ r, S.find? k = some r → ∃ r', S2.find? k = some r' ∧ Restored r r'

theorem restoresRow_iff {S2 : Messages} {k : Uuid} {r' : MailRow} (hr : S.find? k = some r)
    (hr' : S2.find? k = some r') : RestoresRow S S2 k ↔ Restored r r' := by
  constructor
  · intro h
    obtain ⟨s, hs, hrestored⟩ := h r hr
    rw [hr'] at hs
    cases hs
    exact hrestored
  · intro h s hs
    rw [hr] at hs
    cases hs
    exact ⟨r', hr', h⟩

theorem restores_flag (htook : Took accounts i S S1 applied landed skipped sources)
    (hagrees : Agrees S i skipped) (hflag : leavesFolder i.action = false) {k : Uuid} (hk : reported i skipped sources k) (hr : S.find? k = some r) :
    RestoresRow S (afterUndo accounts S1
        (answeredIntent i now applied landed skipped sources) later newId) k ↔
      setFlag i.action r = r ∨ (i.staysInPlace = false ∧ named i k) := by
  have happlied : applied = true := by
    have hplain : ¬intoGlacier (accounts i.accountId) i := by
      rintro ⟨hmove, _⟩
      rw [hmove] at hflag
      cases hflag
    by_contra hnot
    exact htook.nothing (by simpa using hnot) hplain k hk
  by_cases hmoved : i.staysInPlace = false
  · rw [restoresRow_iff hr (undo_flag_row htook hagrees hflag hmoved happlied hk hr)]
    split
    · rename_i hnamed
      simp only [hmoved, hnamed, and_self, or_true, iff_true]
      exact ⟨rfl, rfl, rfl, rfl⟩
    · rename_i hnamed
      rw [restored_setFlag]
      simp [hnamed]
  · have hstays : ¬(i.staysInPlace = false ∧ applied = true) := fun h => hmoved h.1
    rw [undo_nothing hstays, restoresRow_iff hr (flagged_row htook hflag hk hr).2.2,
      restored_setFlag]
    simp [hmoved]

theorem restores_glacier (htook : Took accounts i S S1 applied landed skipped sources)
    (hagrees : Agrees S i skipped) (hplaced : Placed accounts S)
    (hglacier : intoGlacier (accounts i.accountId) i) {k : Uuid}
    (hk : reported i skipped sources k) (hr : S.find? k = some r) :
    RestoresRow S (afterUndo accounts S1
        (answeredIntent i now applied landed skipped sources) later newId) k ↔
      (accounts i.accountId).glacierNow r.id ≠ .landed := by
  obtain ⟨_, hexp, _⟩ := htook.row_of hk hr
  rw [restoresRow_iff hr (undo_glacier_row htook hagrees hplaced hglacier hk hr)]
  by_cases hgone : (accounts i.accountId).glacierNow r.id = .landed
  · have hexpunged : glacierRow (accounts i.accountId) none r = { r with expunged := true } := by
      unfold glacierRow
      rw [hgone]
      rfl
    rw [hexpunged]
    constructor
    · intro h
      have hlive := h.live
      rw [hexp] at hlive
      cases hlive
    · intro h
      exact absurd hgone h
  · have hstays : glacierRow (accounts i.accountId) none r = r := by
      unfold glacierRow
      rw [decide_eq_false hgone, Bool.and_false]
      rfl
    rw [hstays]
    constructor
    · intro _
      exact hgone
    · intro _
      exact ⟨rfl, rfl, rfl, rfl⟩

/-- The undo of a filing, row by row: when the row is as before. -/
theorem restores_filed (htook : Took accounts i S S1 applied landed skipped sources)
    (hagrees : Agrees S i skipped) (hplaced : Placed accounts S)
    (hleaves : leavesFolder i.action = true) (hglacier : ¬intoGlacier (accounts i.accountId) i)
    (hfiling : filing (accounts i.accountId) i.action i.targetFolderId = some (target, role))
    {k : Uuid} (hk : reported i skipped sources k) (hr : S.find? k = some r) :
    RestoresRow S (afterUndo accounts S1
        (answeredIntent i now applied landed skipped sources) later newId) k ↔
      if r.folderId = target then
        r.isSeen = true ∨ shouldMarkReadOnFile (accounts i.accountId) role = false
      else
        i.staysInPlace = false ∧
          ((i.bulk = true ∧ i.expandThreads = true) ∨ folderKnown i k) ∧
          (r.isSeen = true ∨ named i k ∨
            (shouldMarkReadOnFile (accounts i.accountId) role = false ∧
              shouldMarkReadOnFile (accounts i.accountId)
                ((accounts i.accountId).folderRole r.folderId) = false)) := by
  obtain ⟨hacc, hexp, hafter⟩ := htook.row_of hk hr
  rw [effectRow_filed hleaves hfiling hglacier] at hafter
  have happlied : applied = true := by
    by_contra hnot
    exact htook.nothing (by simpa using hnot) hglacier k hk
  have hlanded : landedOf (answeredIntent i now applied landed skipped sources)
      = some target := by
    obtain ⟨t, ro, hsame, hother⟩ := htook.filed k hk hleaves hglacier
    rw [hfiling] at hsame
    cases hsame
    show (if i.action = .move then i.targetFolderId else landed) = some target
    by_cases hmove : i.action = .move
    · rw [if_pos hmove]
      rw [hmove] at hfiling
      obtain ⟨t, ht, hpair⟩ := Option.map_eq_some_iff.1 hfiling
      cases hpair
      exact ht
    · rw [if_neg hmove]
      exact hother hmove
  have hsource := @reported_source accounts i S S1 applied landed skipped sources now htook
    hagrees target k r hr hk
  by_cases hmoved : i.staysInPlace = false
  · have hundo := @undo_leaving accounts i S S1 applied landed skipped sources now later newId
      htook hagrees hplaced hleaves ⟨hmoved, happlied⟩ target hlanded k
    rw [hafter, Option.map_some, homeOf_eq hr] at hundo
    rw [restoresRow_iff hr hundo]
    by_cases hlisted : (k, r.folderId)
        ∈ sourcesOf (answeredIntent i now applied landed skipped sources) target
    · obtain ⟨hne, hknown⟩ := hsource.1 hlisted
      have hunread : wasUnread (answeredIntent i now applied landed skipped sources) k ↔
          named i k ∧ r.isSeen = false := wasUnread_iff _ rfl hagrees hk.2 hr
      have haccount : r.accountId
          = (answeredIntent i now applied landed skipped sources).accountId := hacc
      rw [if_pos hlisted, if_neg hne, undoneRow_restored haccount hexp hunread]
      simp only [hmoved, hknown, true_and]
    · rw [if_neg hlisted, actedRow_restored]
      split
      · rename_i hsame
        simp only [hsame, true_and]
      · rename_i hne
        have hunknown : ¬((i.bulk = true ∧ i.expandThreads = true) ∨ folderKnown i k) :=
          fun hknown => hlisted (hsource.2 ⟨hne, hknown⟩)
        simp only [hne, hunknown, false_and, and_false]
  · have hstays : ¬(i.staysInPlace = false ∧ applied = true) := fun h => hmoved h.1
    rw [undo_nothing hstays, restoresRow_iff hr hafter, actedRow_restored]
    split
    · rename_i hsame
      simp only [hsame, true_and]
    · rename_i hne
      constructor
      · intro h
        exact absurd h.1 hne
      · intro h
        exact absurd h.1 hmoved

theorem restores_iff_restorable (htook : Took accounts i S S1 applied landed skipped sources)
    (hagrees : Agrees S i skipped) (hplaced : Placed accounts S) {k : Uuid}
    (hk : reported i skipped sources k) (hr : S.find? k = some r) :
    RestoresRow S (afterUndo accounts S1
        (answeredIntent i now applied landed skipped sources) later newId) k ↔
      restorable (accounts i.accountId) i r := by
  have hid : r.id = k := (KeyedTable.find?_eq_some_iff.1 hr).2
  unfold restorable
  cases hleaves : leavesFolder i.action with
  | false =>
    rw [if_neg Bool.false_ne_true, hid]
    exact restores_flag htook hagrees hleaves hk hr
  | true =>
    rw [if_pos rfl]
    by_cases hglacier : intoGlacier (accounts i.accountId) i
    · obtain ⟨target, htarget⟩ := Option.isSome_iff_exists.1 hglacier.2.1
      have hfiling : filing (accounts i.accountId) i.action i.targetFolderId
          = some (target, (accounts i.accountId).folderRole target) := by
        rw [hglacier.1, htarget]
        rfl
      rw [hfiling]
      dsimp only
      rw [if_pos hglacier]
      exact restores_glacier htook hagrees hplaced hglacier hk hr
    · obtain ⟨target, role, hfiling, _⟩ := htook.filed k hk hleaves hglacier
      rw [hfiling]
      dsimp only
      rw [if_neg hglacier, hid]
      exact restores_filed htook hagrees hplaced hleaves hglacier hfiling hk hr

/-- The undo of an intent that the server applied restores every message it reports as
acted on, and touches no other, if and only if each of them is `restorable`. -/
theorem undo_restores_iff (hplaced : Placed accounts S) (hagrees : Agrees S i skipped)
    (hone : i.bulk = false → ∃ m, i.messages = [m])
    (hreversible : i.action ≠ .expunge ∧ i.action ≠ .notSpam)
    (hanswer : request accounts S i = (S1, .answered applied landed skipped sources)) :
    UndoRestores S S1
        (afterUndo accounts S1 (answeredIntent i now applied landed skipped sources) later newId)
        (reported i skipped sources) ↔
      ∀ k r, reported i skipped sources k → S.find? k = some r →
        restorable (accounts i.accountId) i r := by
  have htook := request_took hreversible hone hagrees hanswer
  constructor
  · rintro ⟨hrestored, _⟩ k r hk hr
    rw [← restores_iff_restorable htook hagrees hplaced hk hr]
    intro s hs
    exact hrestored k s hk hs
  · intro hall
    constructor
    · intro k r hk hr
      exact (restores_iff_restorable htook hagrees hplaced hk hr).2 (hall k r hk hr) r hr
    · intro k hk
      cases hleaves : leavesFolder i.action with
      | false => exact undo_flag_others htook hleaves hk
      | true => exact undo_leaving_others htook hagrees hplaced hleaves hk

end Undo

/-! ## A conversation archived and brought back -/

section Conversation

/-- One account with an inbox, an archive, a trash and a junk folder. -/
def conversationAccount : Account where
  ownsFolder f := decide (f < 10)
  folderRole f := if f = 1 then some .inbox else if f = 2 then some .archive else none
  specialFolder
    | .inbox => some 1
    | .archive => some 2
    | .trash => some 3
    | .junk => some 4
    | .other _ => none
  glacierFolder := some 50
  glacierNow _ := .pending
  maxManualBatch := 100
  markReadOnFile := true
  spamProcessor := true

/-- A conversation of two messages in the inbox; the list shows the second, unread. -/
def conversation (firstSeen : Bool) : Messages where
  rows :=
    [⟨1, 7, 1, some 9, 0, firstSeen, false, false, none⟩,
      ⟨2, 7, 1, some 9, 5, false, false, false, none⟩]
  primaryKey := by simp

/-- An action on the conversation, from the row of its newest message. -/
def conversationIntent (action : Action) : MailIntent where
  id := 100
  accountId := 7
  action := action
  messages := [⟨2, some 1, false, false, some 9, some 10⟩]
  bulk := true
  expandThreads := true
  createdAt := 20
  state := .inflight
  attempts := 1
  notBefore := 20
  generation := 0
  updatedAt := 20

theorem conversation_placed (firstSeen : Bool) :
    Placed (fun _ => conversationAccount) (conversation firstSeen) := by
  intro k r hr _
  obtain ⟨hmem, _⟩ := KeyedTable.find?_eq_some_iff.1 hr
  simp only [conversation, List.mem_cons, List.not_mem_nil, or_false] at hmem
  obtain rfl | rfl := hmem
  all_goals
    constructor
    · rfl
    · show some 50 ≠ some 1
      decide

theorem conversation_agrees (firstSeen : Bool) (action : Action) :
    Agrees (conversation firstSeen) (conversationIntent action) [] := by
  intro m hm _
  simp only [conversationIntent, List.mem_singleton] at hm
  subst hm
  exact ⟨_, rfl, rfl, rfl, Or.inr rfl, rfl, rfl⟩

/-- An archived conversation whose other message had been read comes back. -/
theorem archived_conversation_restored :
    UndoRestores (conversation true)
      (request (fun _ => conversationAccount) (conversation true) (conversationIntent .archive)).1
      (afterUndo (fun _ => conversationAccount)
        (request (fun _ => conversationAccount) (conversation true)
          (conversationIntent .archive)).1
        (answeredIntent (conversationIntent .archive) 21 true (some 2) [] [(1, 1), (2, 1)]) 30
        (fun n => 200 + n))
      (reported (conversationIntent .archive) [] [(1, 1), (2, 1)]) := by
  have hanswer : request (fun _ => conversationAccount) (conversation true)
      (conversationIntent .archive)
        = ((request (fun _ => conversationAccount) (conversation true)
            (conversationIntent .archive)).1, .answered true (some 2) [] [(1, 1), (2, 1)]) :=
    Prod.ext rfl rfl
  refine (undo_restores_iff (conversation_placed true) (conversation_agrees true .archive) ?_
    (by decide) hanswer).2 ?_
  · intro hsingle
    cases hsingle
  · intro k r hk hr
    have hin : k = 1 ∨ k = 2 := by
      have hlisted := hk.1
      simpa using hlisted
    obtain rfl | rfl := hin
    · cases hr
      exact ⟨rfl, Or.inl ⟨rfl, rfl⟩, Or.inl rfl⟩
    · cases hr
      exact ⟨rfl, Or.inl ⟨rfl, rfl⟩, Or.inr (Or.inl (by decide))⟩

/-- The other message of a conversation marked read stays read after the undo. -/
theorem conversation_stays_read :
    Placed (fun _ => conversationAccount) (conversation false) ∧
    Agrees (conversation false) (conversationIntent .markRead) [] ∧
    (request (fun _ => conversationAccount) (conversation false)
      (conversationIntent .markRead)).2 = .answered true none [] [(1, 1), (2, 1)] ∧
    ¬UndoRestores (conversation false)
      (request (fun _ => conversationAccount) (conversation false)
        (conversationIntent .markRead)).1
      (afterUndo (fun _ => conversationAccount)
        (request (fun _ => conversationAccount) (conversation false)
          (conversationIntent .markRead)).1
        (answeredIntent (conversationIntent .markRead) 21 true none [] [(1, 1), (2, 1)]) 30
        (fun n => 200 + n))
      (reported (conversationIntent .markRead) [] [(1, 1), (2, 1)]) := by
  refine ⟨conversation_placed false, conversation_agrees false .markRead, rfl, ?_⟩
  rintro ⟨hrestored, _⟩
  have hacted : reported (conversationIntent .markRead) [] [(1, 1), (2, 1)] 1 := by
    unfold reported
    decide
  obtain ⟨r', hr', hsame⟩ := hrestored 1
    ⟨1, 7, 1, some 9, 0, false, false, false, none⟩ hacted rfl
  cases hr'
  cases hsame.seen

end Conversation

end MailVerdict.Analysis.MailIntents
