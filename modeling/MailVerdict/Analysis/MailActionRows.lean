import MailVerdict.Computation.AssocLists
import MailVerdict.Model.MailIntents

/-!
# What an action does to each message

A request of `api/mails.py` reads where its messages are, guards each write to what
it read, and writes. Nothing comes in between here, so every guard holds
(`writeGuards_holds`), and the table after the request is the table before it with
one row rewrite on the messages the request has an entry for.
-/

namespace MailVerdict.Analysis.MailActions

open MailVerdict.Computation
open Model.MailActions
open Model.MailIntents (leavesFolder)

section Bulk

variable {a : Uuid} {S : Messages} {q : BulkActionRequest} {k : Uuid}

theorem liveFolder_eq_some {f : Uuid} :
    liveFolder a S k = some f ↔
      ∃ r, S.find? k = some r ∧ r.accountId = a ∧ r.expunged = false ∧ r.folderId = f := by
  unfold liveFolder
  cases hfind : S.find? k with
  | none => simp
  | some r =>
    dsimp only
    split
    · rename_i hlive
      simp [hlive.1, hlive.2]
    · rename_i hdead
      constructor
      · intro h
        cases h
      · rintro ⟨s, hs, hacc, hexp, _⟩
        cases hs
        exact absurd ⟨hacc, hexp⟩ hdead

theorem mem_explicitIds :
    k ∈ explicitIds a S q ↔
      k ∈ q.ids ∧ ∃ f, liveFolder a S k = some f ∧
        (q.expectedFolderIds.lookup k = none ∨ q.expectedFolderIds.lookup k = some f) := by
  unfold explicitIds
  rw [List.mem_filter, List.mem_eraseDups]
  cases liveFolder a S k with
  | none => simp
  | some f =>
    cases q.expectedFolderIds.lookup k with
    | none => simp
    | some g => simp

/-- A row a write's guard lets through: live, in this account, and in the guarded
folder if there is one. -/
def Fits (a : Uuid) (e : Option Uuid) (r : MailRow) : Prop :=
  r.accountId = a ∧ r.expunged = false ∧ (e = none ∨ e = some r.folderId)

theorem mem_expand {ids : List Uuid} {through : Option Time} {f : Uuid} :
    (k, f) ∈ expandToConversations a S ids through ↔
      ∃ r, S.find? k = some r ∧ r.accountId = a ∧ r.expunged = false ∧
        (r.id ∈ ids ∨ inConversationOf a S ids through r = true) ∧ r.folderId = f := by
  unfold expandToConversations
  simp only [List.mem_map, List.mem_filter, Bool.and_eq_true, Bool.or_eq_true, decide_eq_true_eq,
    Bool.not_eq_true', Prod.mk.injEq]
  constructor
  · rintro ⟨r, ⟨hr, ⟨hacc, hexp⟩, hin⟩, hid, hf⟩
    exact ⟨r, KeyedTable.find?_eq_some_iff.2 ⟨hr, hid⟩, hacc, hexp, hin, hf⟩
  · rintro ⟨r, hr, hacc, hexp, hin, hf⟩
    obtain ⟨hmem, hid⟩ := KeyedTable.find?_eq_some_iff.1 hr
    exact ⟨r, ⟨hmem, ⟨hacc, hexp⟩, hin⟩, hid, hf⟩

theorem writeGuards_holds {e : Option Uuid} (h : (k, e) ∈ writeGuards a S q) :
    ∃ r, S.find? k = some r ∧ Fits a e r := by
  unfold writeGuards at h
  cases hmembers : bulkMembers a S q with
  | none =>
    rw [hmembers] at h
    obtain ⟨id, hid, heq⟩ := List.mem_map.1 h
    cases heq
    obtain ⟨_, f, hlive, _⟩ := mem_explicitIds.1 hid
    obtain ⟨r, hr, hacc, hexp, hf⟩ := liveFolder_eq_some.1 hlive
    refine ⟨r, hr, hacc, hexp, ?_⟩
    split
    · right
      rw [hlive, hf]
    · left
      rfl
  | some members =>
    rw [hmembers] at h
    obtain ⟨m, hm, heq⟩ := List.mem_map.1 h
    cases heq
    unfold bulkMembers at hmembers
    split at hmembers
    · cases hmembers
      obtain ⟨r, hr, hacc, hexp, _, hf⟩ := mem_expand.1 (show (m.1, m.2) ∈ _ from hm)
      refine ⟨r, hr, hacc, hexp, ?_⟩
      split
      · right
        rw [hf]
      · left
        rfl
    · cases hmembers

theorem onMessages_find {expectedOf : List (Uuid × Option Uuid)}
    {f : Option Uuid → MailRow → MailRow} {hf : ∀ e r, (f e r).id = r.id} :
    (onMessages S expectedOf f hf).find? k
      = (S.find? k).map fun r =>
          match expectedOf.lookup k with
          | none => r
          | some e => f e r := by
  unfold onMessages
  rw [KeyedTable.find?_update]
  cases hfind : S.find? k with
  | none => rfl
  | some r =>
    have hid : r.id = k := (KeyedTable.find?_eq_some_iff.1 hfind).2
    rw [Option.map_some, Option.map_some, hid]
    cases expectedOf.lookup k with
    | none => rfl
    | some e => rfl

theorem entriesWhere_none {p : Option Uuid → MailRow → Bool}
    (hp : ∀ e r, Fits a e r → p e r = false) :
    entriesWhere S (writeGuards a S q) p = [] := by
  unfold entriesWhere
  rw [List.map_eq_nil_iff, List.filter_eq_nil_iff]
  rintro ⟨k, e⟩ hmem
  obtain ⟨r, hr, hfits⟩ := writeGuards_holds hmem
  rw [hr]
  simp [hp e r hfits]

theorem entriesWhere_all {p : Option Uuid → MailRow → Bool}
    (hp : ∀ e r, Fits a e r → p e r = true) :
    entriesWhere S (writeGuards a S q) p = (writeGuards a S q).map Prod.fst := by
  unfold entriesWhere
  rw [List.filter_eq_self.2]
  rintro ⟨k, e⟩ hmem
  obtain ⟨r, hr, hfits⟩ := writeGuards_holds hmem
  rw [hr]
  exact hp e r hfits

end Bulk

/-! ## The row rewrites under their guards -/

section Rows

variable {A : Account} {a : Uuid} {e : Option Uuid} {r : MailRow}

theorem Fits.guard (h : Fits a e r) : guardHolds e r = true := by
  obtain ⟨_, hexp, rfl | rfl⟩ := h
  · rfl
  · simp [guardHolds, hexp]

theorem Fits.lands (h : Fits a e r) (target : Uuid) : landsRow target e r = true := by
  have hguard := h.guard
  unfold landsRow
  cases e with
  | none => rfl
  | some f => simp [hguard]

theorem Fits.moves (h : Fits a e r) (target : Uuid) :
    moveRow target e r = { r with folderId := target } := by
  have hguard := h.guard
  unfold moveRow
  cases e with
  | none => rfl
  | some f =>
    have hf : r.folderId = f := by
      simp only [guardHolds, Bool.and_eq_true, decide_eq_true_eq] at hguard
      exact hguard.1
    dsimp only
    split
    · rename_i hsame
      rw [← hsame, ← hf]
    · rfl

/-- A message filed in a folder, and marked read there if the folder's role says
so. -/
def filedRow (A : Account) (target : Uuid) (role : Option Role) (r : MailRow) : MailRow :=
  { r with
    folderId := target
    isSeen := r.isSeen || shouldMarkReadOnFile A role }

theorem Fits.files (h : Fits a e r) (target : Uuid) (role : Option Role) :
    fileRow A target role e r = filedRow A target role r := by
  unfold fileRow filedRow
  rw [h.moves target, h.lands target]
  cases shouldMarkReadOnFile A role <;> simp

theorem Fits.rules (h : Fits a e r) {target : Uuid} (htarget : A.specialFolder .junk = some target) :
    rulingRow A true e r
      = { filedRow A target (some .junk) r with verdictIsSpam := some true } := by
  have hruled : Fits a e { r with verdictIsSpam := some true } := h
  unfold rulingRow rulingRole
  simp only [if_true, htarget]
  rw [hruled.files target (some .junk)]
  rfl

theorem Fits.flags (h : Fits a e r) (action : Action) : flagRow action e r = setFlag action r := by
  unfold flagRow
  rw [if_pos h.guard]

end Rows

/-! ## A bulk action -/

def actsOn (a : Uuid) (S : Messages) (q : BulkActionRequest) (k : Uuid) : Bool :=
  ((writeGuards a S q).lookup k).isSome

section Spec

variable {accounts : Uuid → Account} {a : Uuid} {S : Messages} {q : BulkActionRequest} {k : Uuid}

theorem actsOn_named (h : bulkMembers a S q = none) :
    actsOn a S q k = true ↔ k ∈ explicitIds a S q := by
  unfold actsOn
  rw [lookup_isSome_iff]
  unfold writeGuards
  rw [h]
  simp

theorem actsOn_member {members : List (Uuid × Uuid)} (h : bulkMembers a S q = some members) :
    actsOn a S q k = true ↔ ∃ f, (k, f) ∈ members := by
  unfold actsOn
  rw [lookup_isSome_iff]
  unfold writeGuards
  rw [h]
  simp

theorem actsOn_found (h : actsOn a S q k = true) :
    ∃ r, S.find? k = some r ∧ r.accountId = a ∧ r.expunged = false := by
  obtain ⟨e, he⟩ := lookup_isSome_iff.1 h
  obtain ⟨r, hr, hacc, hexp, _⟩ := writeGuards_holds he
  exact ⟨r, hr, hacc, hexp⟩

theorem onMessages_acts {f : Option Uuid → MailRow → MailRow} {hf : ∀ e r, (f e r).id = r.id}
    {g : MailRow → MailRow} (hg : ∀ e r, Fits a e r → f e r = g r) :
    (onMessages S (writeGuards a S q) f hf).find? k
      = (S.find? k).map fun r => if actsOn a S q k then g r else r := by
  rw [onMessages_find]
  cases hfind : S.find? k with
  | none => rfl
  | some r =>
    rw [Option.map_some, Option.map_some]
    unfold actsOn
    cases hentry : (writeGuards a S q).lookup k with
    | none => rfl
    | some e =>
      obtain ⟨r', hr', hfits⟩ := writeGuards_holds (mem_of_lookup hentry)
      rw [hfind] at hr'
      cases hr'
      show some (f e r) = some (g r)
      rw [hg e r hfits]

/-- The folder a filing action files in, and the role its moves are filed under. -/
def filing (A : Account) (action : Action) (targetFolderId : Option Uuid) :
    Option (Uuid × Option Role) :=
  match action with
  | .move => targetFolderId.map fun t => (t, A.folderRole t)
  | .archive => (A.specialFolder .archive).map fun t => (t, some .archive)
  | .trash => (A.specialFolder .trash).map fun t => (t, some .trash)
  | .spam => (A.specialFolder .junk).map fun t => (t, some .junk)
  | _ => none

/-- A message filed by an action; a ruling records its verdict with it. -/
def actedRow (A : Account) (action : Action) (target : Uuid) (role : Option Role) (r : MailRow) :
    MailRow :=
  if action = .spam then { filedRow A target role r with verdictIsSpam := some true }
  else filedRow A target role r

/-- What a bulk request did and answered: a row rewrite `g` on the messages it acts
on, its sources, and the ids it skipped. -/
structure Carried (A : Account) (a : Uuid) (S : Messages) (q : BulkActionRequest)
    (g : MailRow → MailRow) (more : List Uuid) (S' : Messages) (response : BulkActionResponse) :
    Prop where
  rows : ∀ k, S'.find? k = (S.find? k).map fun r => if actsOn a S q k then g r else r
  skipped : response.skippedIds = readSkipped a S q A ++ more
  sources : response.sources = (bulkMembers a S q).getD []

theorem members_of_no_guards (h : writeGuards a S q = []) : (bulkMembers a S q).getD [] = [] := by
  unfold writeGuards at h
  cases hmembers : bulkMembers a S q with
  | none => rfl
  | some members =>
    rw [hmembers] at h
    exact List.map_eq_nil_iff.1 h

theorem actsOn_of_no_guards (h : writeGuards a S q = []) (k : Uuid) : actsOn a S q k = false := by
  unfold actsOn
  rw [h]
  rfl

theorem carried_nothing {A : Account} {g : MailRow → MailRow} (h : writeGuards a S q = []) :
    Carried A a S q g [] S ⟨true, 0, [], readSkipped a S q A, none⟩ where
  rows k := by
    rw [actsOn_of_no_guards h k]
    cases S.find? k <;> rfl
  skipped := (List.append_nil _).symm
  sources := (members_of_no_guards h).symm

theorem carried_writes {A : Account} {f : Option Uuid → MailRow → MailRow}
    {hf : ∀ e r, (f e r).id = r.id} {g : MailRow → MailRow} (more : List Uuid) {success : Bool}
    {n : ℕ} {target : Option Uuid} (hg : ∀ e r, Fits a e r → f e r = g r) :
    Carried A a S q g more (onMessages S (writeGuards a S q) f hf)
      ⟨success, n, (bulkMembers a S q).getD [], readSkipped a S q A ++ more, target⟩ where
  rows _ := onMessages_acts hg
  skipped := rfl
  sources := rfl

theorem flag_cases {action : Action} (h : leavesFolder action = false) :
    action = .markRead ∨ action = .markUnread ∨ action = .flag ∨ action = .unflag := by
  cases action with
  | markRead | markUnread | flag | unflag => simp
  | move | archive | trash | expunge | spam | notSpam => cases h

theorem bulk_flags (hflag : leavesFolder q.action = false) :
    ∃ response, (applyBulkAction accounts a S q).2 = .ok response ∧ response.success = true ∧
      Carried (accounts a) a S q (setFlag q.action) [] (applyBulkAction accounts a S q).1
        response := by
  unfold applyBulkAction
  by_cases hnothing : writeGuards a S q = []
  · rw [if_pos hnothing]
    exact ⟨_, rfl, rfl, carried_nothing hnothing⟩
  · rw [if_neg hnothing]
    have hrows : ∀ e r, Fits a e r → flagRow q.action e r = setFlag q.action r := by
      intro e r hfits
      exact hfits.flags q.action
    obtain haction | haction | haction | haction := flag_cases hflag
    all_goals
      simp only [haction] at hrows ⊢
      exact ⟨_, rfl, rfl, carried_writes [] hrows⟩

theorem actedRow_of_ne {A : Account} {action : Action} (h : action ≠ .spam) (target : Uuid)
    (role : Option Role) : actedRow A action target role = filedRow A target role := by
  funext r
  unfold actedRow
  rw [if_neg h]

theorem carried_files {A : Account} {target : Uuid} {role : Option Role} {n : ℕ} :
    Carried A a S q (filedRow A target role) []
      (onMessages S (writeGuards a S q) (fileRow A target role) (fileRow_id A target role))
      ⟨true, n, (bulkMembers a S q).getD [], readSkipped a S q A ++
        entriesWhere S (writeGuards a S q) (fun e r => !landsRow target e r), some target⟩ := by
  have hlanded : entriesWhere S (writeGuards a S q) (fun e r => !landsRow target e r) = [] := by
    apply entriesWhere_none
    intro e r hfits
    rw [hfits.lands target]
    rfl
  rw [hlanded]
  apply carried_writes
  intro e r hfits
  exact hfits.files target role

theorem bulk_move {target : Uuid} (haction : q.action = .move)
    (htarget : q.targetFolderId = some target)
    (hglacier : (accounts a).glacierFolder ≠ some target)
    (howned : (accounts a).ownsFolder target = true) :
    ∃ response, (applyBulkAction accounts a S q).2 = .ok response ∧
      Carried (accounts a) a S q (filedRow (accounts a) target ((accounts a).folderRole target)) []
        (applyBulkAction accounts a S q).1 response := by
  unfold applyBulkAction
  by_cases hnothing : writeGuards a S q = []
  · rw [if_pos hnothing]
    exact ⟨_, rfl, carried_nothing hnothing⟩
  · rw [if_neg hnothing]
    simp only [haction, htarget]
    rw [if_neg hglacier, howned]
    exact ⟨_, rfl, carried_files⟩

/-- A filing of several mails that is answered. -/
theorem bulk_filed {S' : Messages} {response : BulkActionResponse} {target : Uuid}
    {role : Option Role} (h : applyBulkAction accounts a S q = (S', .ok response))
    (hanswered : ¬(response.success = false ∧ response.affectedCount = 0))
    (hfiling : filing (accounts a) q.action q.targetFolderId = some (target, role))
    (hglacier : q.action = .move → (accounts a).glacierFolder ≠ some target) :
    Carried (accounts a) a S q (actedRow (accounts a) q.action target role) [] S' response ∧
      ((∃ k, actsOn a S q k = true) → response.targetFolderId = some target) := by
  unfold applyBulkAction at h
  by_cases hnothing : writeGuards a S q = []
  · rw [if_pos hnothing] at h
    cases h
    refine ⟨carried_nothing hnothing, ?_⟩
    rintro ⟨k, hk⟩
    rw [actsOn_of_no_guards hnothing k] at hk
    cases hk
  · rw [if_neg hnothing] at h
    cases haction : q.action with
    | move =>
      simp only [haction] at h hfiling
      rw [actedRow_of_ne (by decide)]
      cases htarget : q.targetFolderId with
      | none =>
        rw [htarget] at hfiling
        cases hfiling
      | some t =>
        rw [htarget] at h hfiling
        cases hfiling
        dsimp only at h
        rw [if_neg (hglacier haction)] at h
        split at h
        · cases h
        · cases h
          exact ⟨carried_files, fun _ => rfl⟩
    | archive | trash =>
      simp only [haction, filing, Option.map_eq_some_iff] at h hfiling
      obtain ⟨t, htarget, hfiled⟩ := hfiling
      rw [htarget] at h
      rw [actedRow_of_ne (by decide)]
      cases hfiled
      cases h
      exact ⟨carried_files, fun _ => rfl⟩
    | spam =>
      simp only [haction] at h hfiling
      cases htarget : (accounts a).specialFolder .junk with
      | none =>
        simp only [filing, htarget] at hfiling
        cases hfiling
      | some t =>
        simp only [filing, htarget] at hfiling
        cases hfiling
        split at h
        · cases h
          exact absurd ⟨rfl, rfl⟩ hanswered
        · have hhoused : entriesWhere S (writeGuards a S q)
              (fun _ r => rulingHomeless (accounts a) (decide True) r) = [] := by
            apply entriesWhere_none
            intro e r _
            simp [rulingHomeless, rulingRole, htarget]
          rw [if_pos hhoused] at h
          cases h
          refine ⟨carried_writes [] ?_, fun _ => htarget⟩
          intro e r hfits
          exact hfits.rules htarget
    | markRead | markUnread | flag | unflag | expunge | notSpam =>
      simp only [haction] at hfiling
      cases hfiling

theorem bulk_unfiled {S' : Messages} {response : BulkActionResponse}
    (h : applyBulkAction accounts a S q = (S', .ok response))
    (hanswered : ¬(response.success = false ∧ response.affectedCount = 0))
    (hleaves : leavesFolder q.action = true)
    (hreversible : q.action ≠ .expunge ∧ q.action ≠ .notSpam)
    (hfiling : filing (accounts a) q.action q.targetFolderId = none) :
    writeGuards a S q = [] := by
  by_contra hsome
  unfold applyBulkAction at h
  rw [if_neg hsome] at h
  cases haction : q.action with
  | move =>
    simp only [haction] at h hfiling
    cases htarget : q.targetFolderId with
    | none =>
      rw [htarget] at h
      cases h
    | some t =>
      rw [htarget] at hfiling
      cases hfiling
  | archive | trash =>
    simp only [haction, filing, Option.map_eq_none_iff] at h hfiling
    rw [hfiling] at h
    cases h
    exact hanswered ⟨rfl, rfl⟩
  | spam =>
    simp only [haction, filing, Option.map_eq_none_iff] at h hfiling
    have hall : entriesWhere S (writeGuards a S q)
        (fun _ r => rulingHomeless (accounts a) (decide True) r)
          = (writeGuards a S q).map Prod.fst := by
      apply entriesWhere_all
      intro e r _
      simp [rulingHomeless, rulingRole, hfiling]
    rw [hall, List.length_map, Nat.sub_self] at h
    split at h
    · cases h
      exact hanswered ⟨rfl, rfl⟩
    · split at h
      · rename_i hnone
        exact hsome (List.map_eq_nil_iff.1 hnone)
      · cases h
        exact hanswered ⟨rfl, rfl⟩
  | expunge => exact hreversible.1 haction
  | notSpam => exact hreversible.2 haction
  | markRead | markUnread | flag | unflag =>
    rw [haction] at hleaves
    cases hleaves

theorem Fits.glacier {A : Account} {e : Option Uuid} {r : MailRow} (h : Fits a e r) :
    glacierRow A e r = glacierRow A none r := by
  have hguard := h.guard
  unfold glacierRow
  rw [hguard]
  rfl

theorem bulk_glacier {S' : Messages} {response : BulkActionResponse} {target : Uuid}
    (h : applyBulkAction accounts a S q = (S', .ok response)) (haction : q.action = .move)
    (htarget : q.targetFolderId = some target)
    (hglacier : (accounts a).glacierFolder = some target) :
    ∃ more, Carried (accounts a) a S q (glacierRow (accounts a) none) more S' response := by
  unfold applyBulkAction at h
  by_cases hnothing : writeGuards a S q = []
  · rw [if_pos hnothing] at h
    cases h
    exact ⟨[], carried_nothing hnothing⟩
  · rw [if_neg hnothing] at h
    simp only [haction, htarget] at h
    rw [if_pos hglacier] at h
    have hrows : ∀ e r, Fits a e r →
        glacierRow (accounts a) e r = glacierRow (accounts a) none r := by
      intro e r hfits
      exact hfits.glacier
    split at h
    · cases h
    · split at h
      · cases h
        exact ⟨_, carried_writes _ hrows⟩
      · cases h
        exact ⟨_, carried_writes _ hrows⟩

end Spec

/-! ## The single-message endpoint -/

section Single

variable {accounts : Uuid → Account} {a : Uuid} {S : Messages} {id : Uuid} {r : MailRow}
variable {action : Action} {targetFolderId e : Option Uuid}

theorem onMessage_find {f : MailRow → MailRow} {hf : ∀ r, (f r).id = r.id}
    (hfind : S.find? id = some r) (k : Uuid) :
    (onMessage S id f hf).find? k = if k = id then some (f r) else S.find? k := by
  have hp : ∀ s : MailRow, decide (s.id = id) = true → s.id = id := fun s => of_decide_eq_true
  unfold onMessage
  split
  · rename_i hk
    subst hk
    have hid : r.id = k := (KeyedTable.find?_eq_some_iff.1 hfind).2
    rw [KeyedTable.find?_update, hfind, Option.map_some, if_pos (decide_eq_true hid)]
  · rename_i hk
    exact KeyedTable.find?_update_of_ne hf hp hk

theorem Fits.proceeds (h : Fits a e r) :
    r.expunged = false ∧ (e.isSome && decide (e ≠ some r.folderId)) = false := by
  obtain ⟨_, hexp, rfl | rfl⟩ := h
  · exact ⟨hexp, rfl⟩
  · exact ⟨hexp, by simp⟩

theorem message_flags (hfind : S.find? id = some r) (hfits : Fits a e r)
    (hflag : leavesFolder action = false) :
    applyMessageAction accounts S id ⟨action, targetFolderId, e⟩
      = (onMessage S id (flagRow action e) (flagRow_id action e), .ok ⟨true, true, none⟩) := by
  obtain ⟨hlive, hmatch⟩ := hfits.proceeds
  unfold applyMessageAction
  rw [hfind]
  dsimp only
  rw [hlive, hmatch]
  obtain haction | haction | haction | haction := flag_cases hflag
  all_goals
    subst haction
    rfl

/-- A filing of one mail that succeeds. -/
theorem message_files {response : MessageActionResponse} {target : Uuid} {role : Option Role}
    (hfind : S.find? id = some r) (hfits : Fits a e r)
    (hok : (applyMessageAction accounts S id ⟨action, targetFolderId, e⟩).2 = .ok response)
    (hfiling : filing (accounts a) action targetFolderId = some (target, role))
    (hglacier : action = .move → (accounts a).glacierFolder ≠ some target) :
    ∃ f hf, applyMessageAction accounts S id ⟨action, targetFolderId, e⟩
        = (onMessage S id f hf, .ok ⟨true, true, none⟩) ∧
      f r = actedRow (accounts a) action target role r := by
  obtain ⟨hlive, hmatch⟩ := hfits.proceeds
  have hlands := hfits.lands target
  have hfiles := hfits.files (A := accounts a) target role
  have hrules : (accounts a).specialFolder .junk = some target → rulingRow (accounts a) true e r
      = { filedRow (accounts a) target (some .junk) r with verdictIsSpam := some true } :=
    hfits.rules
  obtain ⟨rfl, _⟩ := hfits
  unfold applyMessageAction at hok ⊢
  rw [hfind] at hok ⊢
  dsimp only at hok ⊢
  rw [hlive, hmatch] at hok ⊢
  simp only [Bool.false_eq_true, if_false] at hok ⊢
  cases action with
  | move =>
    cases targetFolderId with
    | none => cases hfiling
    | some t =>
      cases hfiling
      dsimp only at hok ⊢
      rw [if_neg (hglacier rfl)] at hok ⊢
      split at hok
      · cases hok
      · rename_i howned
        rw [if_neg howned, if_pos hlands]
        refine ⟨_, fileRow_id _ _ _ _, rfl, ?_⟩
        rw [actedRow_of_ne (by decide)]
        exact hfiles
  | archive | trash =>
    simp only [filing, Option.map_eq_some_iff] at hfiling
    obtain ⟨t, htarget, hfiled⟩ := hfiling
    cases hfiled
    simp only [htarget]
    rw [if_pos hlands]
    refine ⟨_, fileRow_id _ _ _ _, rfl, ?_⟩
    rw [actedRow_of_ne (by decide)]
    exact hfiles
  | spam =>
    cases htarget : (accounts r.accountId).specialFolder .junk with
    | none =>
      simp only [filing, htarget] at hfiling
      cases hfiling
    | some t =>
      simp only [filing, htarget] at hfiling
      cases hfiling
      dsimp only at hok ⊢
      split at hok
      · cases hok
      · rename_i hprocessor
        have hhoused : rulingHomeless (accounts r.accountId) (decide True) r = false := by
          simp [rulingHomeless, rulingRole, htarget]
        simp only [hhoused, Bool.false_eq_true, if_false] at hok ⊢
        rw [if_neg hprocessor]
        refine ⟨_, rulingRow_id _ _ _, rfl, ?_⟩
        exact hrules htarget
  | markRead | markUnread | flag | unflag | expunge | notSpam => cases hfiling

theorem message_unfiled (hfind : S.find? id = some r) (hfits : Fits a e r)
    (hleaves : leavesFolder action = true) (hreversible : action ≠ .expunge ∧ action ≠ .notSpam)
    (hfiling : filing (accounts a) action targetFolderId = none) :
    ∃ status, (applyMessageAction accounts S id ⟨action, targetFolderId, e⟩).2
      = .error status := by
  obtain ⟨hlive, hmatch⟩ := hfits.proceeds
  obtain ⟨rfl, _⟩ := hfits
  unfold applyMessageAction
  rw [hfind]
  dsimp only
  rw [hlive, hmatch]
  simp only [Bool.false_eq_true, if_false]
  cases action with
  | move =>
    cases targetFolderId with
    | none => exact ⟨400, rfl⟩
    | some t => cases hfiling
  | archive | trash =>
    simp only [filing, Option.map_eq_none_iff] at hfiling
    rw [hfiling]
    exact ⟨400, rfl⟩
  | spam =>
    simp only [filing, Option.map_eq_none_iff] at hfiling
    dsimp only
    split
    · exact ⟨503, rfl⟩
    · have hhomeless : rulingHomeless (accounts r.accountId) (decide True) r = true := by
        simp [rulingHomeless, rulingRole, hfiling]
      simp only [hhomeless, if_true]
      exact ⟨400, rfl⟩
  | expunge => exact absurd rfl hreversible.1
  | notSpam => exact absurd rfl hreversible.2
  | markRead | markUnread | flag | unflag => cases hleaves

theorem message_glacier {response : MessageActionResponse} {target : Uuid}
    (hfind : S.find? id = some r) (hfits : Fits a e r)
    (hok : (applyMessageAction accounts S id ⟨.move, some target, e⟩).2 = .ok response)
    (hsuccess : response.success = true)
    (hglacier : (accounts a).glacierFolder = some target) :
    response = ⟨true, true, some target⟩ ∧
      (applyMessageAction accounts S id ⟨.move, some target, e⟩).1.find? id
        = some (glacierRow (accounts a) none r) ∧
      ∀ k, k ≠ id → (applyMessageAction accounts S id ⟨.move, some target, e⟩).1.find? k
        = S.find? k := by
  obtain ⟨hlive, hmatch⟩ := hfits.proceeds
  have hid : r.id = id := (KeyedTable.find?_eq_some_iff.1 hfind).2
  obtain ⟨rfl, _⟩ := hfits
  unfold applyMessageAction at hok ⊢
  rw [hfind] at hok ⊢
  dsimp only at hok ⊢
  rw [hlive, hmatch] at hok ⊢
  simp only [Bool.false_eq_true, if_false, if_pos hglacier] at hok ⊢
  cases houtcome : (accounts r.accountId).glacierNow id with
  | landed =>
    simp only [houtcome] at hok ⊢
    cases hok
    refine ⟨rfl, ?_, ?_⟩
    · rw [onMessage_find hfind, if_pos rfl]
    · intro k hk
      rw [onMessage_find hfind, if_neg hk]
  | pending =>
    simp only [houtcome] at hok ⊢
    cases hok
    have hstays : glacierRow (accounts r.accountId) none r = r := by
      simp [glacierRow, hid, houtcome]
    refine ⟨rfl, ?_, ?_⟩
    · rw [hfind, hstays]
    · intro k _
      trivial
  | refused =>
    simp only [houtcome] at hok
    cases hok
    cases hsuccess

end Single

end MailVerdict.Analysis.MailActions
