import MailVerdict.Model.IntentLedger
import MailVerdict.Analysis.UndoRestores

/-!
# What the ledger knows of what was applied

The same intent is in the ledger and, as it was some time ago, in undo steps and undo
requests. `LedgerOk` says how these agree with each other and with what the server applied
for the intent, and each operation of the ledger and the drainer keeps it, under what that
operation needs. A request that is ready then reverses all that was applied
(`LedgerOk.reversed`), from the intent in the ledger or from its own copy.
-/

namespace MailVerdict.Analysis.IntentCopies

open MailVerdict.Computation Model.MailActions Model.MailIntents
open Model.IntentLedger Analysis.MailIntents

/-! ### What is to be reversed -/

/-- The folder a message was taken from, as the answer lists it or else as the intent
names it. -/
def sourceOf (i : MailIntent) (sources : List (Uuid × Uuid)) (k f : Uuid) : Prop :=
  if sources = [] then ∃ m ∈ i.messages, m.id = k ∧ m.folderId = some f else (k, f) ∈ sources

/-- The messages an answered intent acted on: not skipped, and not already where it files
them, or not already flagged as it flags them. Nothing where it leaves its messages in
place, or where the folder it filed them in is unknown. -/
def ActedOn (i : MailIntent) (landed : Option Uuid) (skipped : List Uuid)
    (sources : List (Uuid × Uuid)) (k : Uuid) : Prop :=
  i.staysInPlace = false ∧
    if leavesFolder i.action then
      ∃ f, landedOf { i with landedFolderId := landed } = some f ∧ reported i skipped sources k ∧
        ¬ sourceOf i sources k f
    else ∃ x, inverse i.action = some x ∧ ∃ m ∈ i.messages, m.id = k ∧ k ∉ skipped ∧ x.2 m = true

/-- Every message a submission acted on is in a reversal of it. -/
def Reversed (reversals : List MailIntent) (x : Submission) : Prop :=
  ∀ applied landed skipped sources, x.outcome = .answered applied landed skipped sources →
    ∀ k, ActedOn x.request landed skipped sources k →
      ∃ r ∈ reversals, r.reverses = some x.request.id ∧ k ∈ r.messages.map IntentMessage.id

/-! ### The copies of the ledger -/

def undoCopies (L : Ledger) : List MailIntent := L.undo.flatMap UndoEntry.intents

def requestCopies (L : Ledger) : List MailIntent := L.undoRequests.flatMap fun r => r.entry.intents

/-- The copies of intents in the undo steps and the undo requests. -/
def copies (L : Ledger) : List MailIntent := undoCopies L ++ requestCopies L

def Named (L : Ledger) (id : IntentId) : Prop := ∃ c ∈ copies L, c.id = id

/-- The answer counts as applied where it acted on something, and says where each message
it moved came from, unless the intent does. -/
def Reversible (x : Submission) : Prop :=
  ∀ applied landed skipped sources, x.outcome = .answered applied landed skipped sources →
    ∀ k, ActedOn x.request landed skipped sources k → applied = true ∧
      (leavesFolder x.request.action = true → ∃ f, sourceOf x.request sources k f)

def denies : Outcome → Bool
  | .answered _ _ _ _ => false
  | .refused => true
  | .error status => decide (classifyFailure (some status) = .terminal) ||
      decide (classifyFailure (some status) = .gone)

/-! ### What a reversal covers -/

structure SameKind (i j : MailIntent) : Prop where
  action : i.action = j.action
  target : i.targetFolderId = j.targetFolderId
  stays : i.staysInPlace = j.staysInPlace

def Carries (i : MailIntent) (x : Submission) : Prop :=
  x.outcome = .answered (!i.notApplied) i.landedFolderId i.skippedIds i.sources

/-- An intent that still names what a submission of it acted on. -/
structure Holds (i : MailIntent) (x : Submission) : Prop where
  kind : SameKind i x.request
  messages : ∀ applied landed skipped sources,
    x.outcome = .answered applied landed skipped sources →
      ∀ m ∈ x.request.messages, m.id ∉ skipped → m ∈ i.messages

theorem SameKind.refl (i : MailIntent) : SameKind i i := ⟨rfl, rfl, rfl⟩

theorem SameKind.trans {i j k : MailIntent} (h : SameKind i j) (h' : SameKind j k) :
    SameKind i k :=
  ⟨h.action.trans h'.action, h.target.trans h'.target, h.stays.trans h'.stays⟩

theorem SameKind.symm {i j : MailIntent} (h : SameKind i j) : SameKind j i :=
  ⟨h.action.symm, h.target.symm, h.stays.symm⟩

theorem Reversed.mono {R R' : List MailIntent} {x : Submission} (h : Reversed R x)
    (hsub : ∀ r ∈ R, r ∈ R') : Reversed R' x := by
  intro applied landed skipped sources hout k hk
  obtain ⟨r, hr, hreverses, hmem⟩ := h applied landed skipped sources hout k hk
  exact ⟨r, hsub r hr, hreverses, hmem⟩

section Reversals

variable {i : MailIntent} {x : Submission} {now : Time} {newId : ℕ → IntentId}

theorem mem_sourcesOf {landed k f : Uuid} {skipped : List Uuid} {sources : List (Uuid × Uuid)}
    (hsources : i.sources = sources) (hskipped : i.skippedIds = skipped) {j : MailIntent}
    (hmessages : ∀ m ∈ j.messages, m.id ∉ skipped → m ∈ i.messages)
    (hsource : sourceOf j sources k f) (hkept : k ∉ skipped) (hne : f ≠ landed) :
    (k, f) ∈ sourcesOf i landed := by
  unfold sourceOf at hsource
  unfold sourcesOf
  rw [hsources, hskipped, List.mem_filter]
  refine ⟨?_, by simp [hkept, hne]⟩
  split at hsource
  · rename_i hnil
    rw [if_pos hnil, List.mem_filterMap]
    obtain ⟨m, hm, rfl, hf⟩ := hsource
    exact ⟨m, hmessages m hm hkept, by rw [hf]; rfl⟩
  · rename_i hlisted
    rw [if_neg hlisted]
    exact hsource

theorem leaving_covered (happlied : i.notApplied = false) (hdone : i.state = .done)
    (hstays : i.staysInPlace = false) (hleaves : leavesFolder i.action = true) {landed k f : Uuid}
    (hlanded : landedOf i = some landed) (hsource : (k, f) ∈ sourcesOf i landed) :
    ∃ r ∈ reversalsOf i now newId, r.reverses = some i.id ∧
      k ∈ r.messages.map IntentMessage.id := by
  have hfolder : f ∈ ((sourcesOf i landed).map Prod.snd).eraseDups :=
    List.mem_eraseDups.2 (List.mem_map.2 ⟨(k, f), hsource, rfl⟩)
  obtain ⟨n, hat⟩ := List.getElem?_of_mem hfolder
  have hn := List.mk_mem_zipIdx_iff_getElem?.2 hat
  have hmove : moveBack i now newId landed (sourcesOf i landed) (f, n) ∈
      reversalsOf i now newId := by
    unfold reversalsOf
    rw [if_neg (by simp [happlied, hdone, hstays]), if_pos hleaves, hlanded]
    dsimp only
    split
    · exact List.mem_map.2 ⟨(f, n), hn, rfl⟩
    · exact List.mem_append_left _ (List.mem_map.2 ⟨(f, n), hn, rfl⟩)
  refine ⟨_, hmove, rfl, List.mem_map.2 ⟨returning i landed k, ?_, rfl⟩⟩
  exact mem_moveBack.2 ⟨k, hsource, rfl⟩

theorem flag_covered (happlied : i.notApplied = false) (hdone : i.state = .done)
    (hstays : i.staysInPlace = false) (hleaves : leavesFolder i.action = false)
    {y : Action × (IntentMessage → Bool)} (hinverse : inverse i.action = some y)
    {m : IntentMessage} (hm : m ∈ i.messages) (hkept : m.id ∉ i.skippedIds) (hhad : y.2 m = true) :
    ∃ r ∈ reversalsOf i now newId, r.reverses = some i.id ∧
      m.id ∈ r.messages.map IntentMessage.id := by
  have hmem : m ∈ i.messages.filter fun m => decide (m.id ∉ i.skippedIds) && y.2 m := by
    rw [List.mem_filter]
    exact ⟨hm, by simp [hkept, hhad]⟩
  refine ⟨reversalBase i now (newId 0) y.1
    (i.messages.filter fun m => decide (m.id ∉ i.skippedIds) && y.2 m), ?_, rfl,
    List.mem_map.2 ⟨m, hmem, rfl⟩⟩
  unfold reversalsOf
  rw [if_neg (by simp [happlied, hdone, hstays]), if_neg (by simp [hleaves]), hinverse]
  dsimp only
  rw [if_neg (List.ne_nil_of_mem hmem)]
  exact List.mem_singleton.2 rfl

theorem reversalsOf_reversed (hdone : i.state = .done) (hcarries : Carries i x)
    (hholds : Holds i x) (hid : i.id = x.request.id) (hreversible : Reversible x) :
    Reversed (reversalsOf i now newId) x := by
  intro applied landed skipped sources hout k hacted
  have hsame := hcarries.symm.trans hout
  injection hsame with happlied hlanded hskipped hsources
  obtain ⟨htrue, hknown⟩ := hreversible applied landed skipped sources hout k hacted
  have hwrote : i.notApplied = false := by
    rw [htrue] at happlied
    simpa using happlied
  obtain ⟨hstays, hmatch⟩ := hacted
  rw [← hholds.kind.stays] at hstays
  rw [← hid]
  cases hleaves : leavesFolder x.request.action with
  | true =>
    rw [if_pos hleaves] at hmatch
    obtain ⟨f, hf, hreported, hnot⟩ := hmatch
    obtain ⟨g, hg⟩ := hknown hleaves
    have hne : g ≠ f := by
      rintro rfl
      exact hnot hg
    refine leaving_covered hwrote hdone hstays (hholds.kind.action ▸ hleaves) ?_
      (mem_sourcesOf hsources hskipped (hholds.messages _ _ _ _ hout) hg hreported.2 hne)
    rw [← hf]
    unfold landedOf
    rw [hholds.kind.action, hholds.kind.target, hlanded]
  | false =>
    rw [if_neg (by simp [hleaves])] at hmatch
    obtain ⟨y, hy, m, hm, rfl, hkept, hhad⟩ := hmatch
    refine flag_covered hwrote hdone hstays (hholds.kind.action ▸ hleaves)
      (hholds.kind.action ▸ hy) (hholds.messages _ _ _ _ hout m hm hkept) ?_ hhad
    rw [hskipped]
    exact hkept

end Reversals

/-! ### The invariant -/

/-- What is known of an intent of the ledger: it names what was applied; if an undo names
it, it is answered or waits for an answer, and an answered one has the answer. -/
structure LiveOk (A : IntentId → Option Submission) (named : Prop) (i : MailIntent) : Prop where
  holds : ∀ x, A i.id = some x → Holds i x
  told : named → ∀ x, A i.id = some x → 0 < i.attempts ∧ i.refused = false
  done : named → i.state = .done → ∀ x, A i.id = some x → Carries i x

/-- What is known of a copy: it names all that the intent does and all that was applied;
an answered copy has the answer. Of an applied intent that has left the ledger the copy is
answered, or the intent was reversed. -/
structure CopyOk (A : IntentId → Option Submission) (R : List MailIntent) (L : Ledger)
    (c : MailIntent) : Prop where
  keeps : ∀ i ∈ L.intents.rows, i.id = c.id → SameKind i c ∧ ∀ m ∈ i.messages, m ∈ c.messages
  holds : ∀ x, A c.id = some x → Holds c x
  done : c.state = .done → ∃ x, A c.id = some x ∧ Carries c x
  absent : (∀ i ∈ L.intents.rows, i.id ≠ c.id) → ∀ x, A c.id = some x →
    c.state = .done ∨ Reversed R x

/-- `next` is the next new key, and `sent` are the intents as they were sent. -/
structure LedgerOk (A : IntentId → Option Submission) (R : List MailIntent) (next : ℕ)
    (sent : List MailIntent) (L : Ledger) : Prop where
  live : ∀ i ∈ L.intents.rows, i.id < next ∧ LiveOk A (Named L i.id) i
  copy : ∀ c ∈ copies L, c.id < next ∧ CopyOk A R L c
  sent : ∀ y ∈ sent, y.id < next ∧ ∀ i ∈ L.intents.rows, i.id = y.id → SameKind i y

theorem mem_undoCopies {L : Ledger} {c : MailIntent} :
    c ∈ undoCopies L ↔ ∃ e ∈ L.undo, c ∈ e.intents := List.mem_flatMap

theorem mem_requestCopies {L : Ledger} {c : MailIntent} :
    c ∈ requestCopies L ↔ ∃ r ∈ L.undoRequests, c ∈ r.entry.intents := List.mem_flatMap

theorem mem_copies {L : Ledger} {c : MailIntent} :
    c ∈ copies L ↔ c ∈ undoCopies L ∨ c ∈ requestCopies L := List.mem_append

theorem mem_pruneUndo {es : List UndoEntry} {now : Time} {e : UndoEntry}
    (h : e ∈ pruneUndo es now) : e ∈ es :=
  List.mem_of_mem_filter (List.mem_of_mem_drop h)

theorem undoCopies_commit {L : Ledger} {now : Time} {c : MailIntent}
    (h : c ∈ undoCopies (commit L now)) : c ∈ undoCopies L := by
  obtain ⟨e, he, hc⟩ := mem_undoCopies.1 h
  exact mem_undoCopies.2 ⟨e, mem_pruneUndo he, hc⟩

theorem copies_commit {L : Ledger} {now : Time} {c : MailIntent}
    (h : c ∈ copies (commit L now)) : c ∈ copies L := by
  obtain hundo | hrequest := mem_copies.1 h
  · exact mem_copies.2 (Or.inl (undoCopies_commit hundo))
  · exact mem_copies.2 (Or.inr hrequest)

section Ledger

variable {A : IntentId → Option Submission} {R R' : List MailIntent} {next next' : ℕ}
  {sent : List MailIntent} {L L' : Ledger} {now : Time} {id : IntentId}
  {patch : MailIntent → MailIntent} {i j c : MailIntent} {named : Prop}

theorem Holds.of_same {x : Submission} (h : Holds i x) (hkind : SameKind j i)
    (hmessages : ∀ m ∈ i.messages, m ∈ j.messages) : Holds j x :=
  ⟨hkind.trans h.kind, fun _ _ _ _ hout m hm hkept =>
    hmessages m (h.messages _ _ _ _ hout m hm hkept)⟩

theorem LiveOk.mono {named' : Prop} (h : LiveOk A named i) (himp : named' → named) :
    LiveOk A named' i :=
  ⟨h.holds, fun hn => h.told (himp hn), fun hn => h.done (himp hn)⟩

theorem LiveOk.of_none (h : A i.id = none) : LiveOk A named i := by
  refine ⟨?_, ?_, ?_⟩
  all_goals
    intros
    simp_all

theorem LiveOk.reopen (h : LiveOk A named i) (hid : j.id = i.id) (hkind : SameKind j i)
    (hmessages : j.messages = i.messages) (hstate : j.state ≠ .done)
    (htold : named → ∀ x, A i.id = some x → 0 < j.attempts ∧ j.refused = false) :
    LiveOk A named j := by
  refine ⟨fun x hx => ?_, fun hn x hx => htold hn x (hid ▸ hx), fun _ hdone => absurd hdone hstate⟩
  rw [hid] at hx
  exact (h.holds x hx).of_same hkind fun m hm => hmessages ▸ hm

/-- **The step rule of the ledger**: its intents and copies are versions of old ones, and
what has left it is answered in its copies, or reversed. -/
theorem LedgerOk.step (h : LedgerOk A R next sent L)
    (hrows : ∀ j ∈ L'.intents.rows, ∃ i ∈ L.intents.rows, i.id = j.id ∧ SameKind j i ∧
      (∀ m ∈ j.messages, m ∈ i.messages) ∧ LiveOk A (Named L i.id) j)
    (hcopies : ∀ c ∈ copies L', ∃ c' ∈ copies L, c'.id = c.id ∧ SameKind c c' ∧
      c.messages = c'.messages ∧ (c.state = .done → ∃ x, A c.id = some x ∧ Carries c x))
    (habsent : ∀ c ∈ copies L', (∀ j ∈ L'.intents.rows, j.id ≠ c.id) → ∀ x, A c.id = some x →
      c.state = .done ∨ Reversed R x) : LedgerOk A R next sent L' := by
  refine ⟨fun j hj => ?_, fun c hc => ?_, fun y hy => ?_⟩
  · obtain ⟨i, hi, hid, -, -, hlive⟩ := hrows j hj
    refine ⟨hid ▸ (h.live i hi).1, hlive.mono fun hnamed => ?_⟩
    obtain ⟨c, hc, hcid⟩ := hnamed
    obtain ⟨c', hc', hcid', -⟩ := hcopies c hc
    exact ⟨c', hc', by rw [hcid', hcid, hid]⟩
  · obtain ⟨c', hc', hcid, hkind, hmessages, hdone⟩ := hcopies c hc
    obtain ⟨hfresh, hold⟩ := h.copy c' hc'
    refine ⟨hcid ▸ hfresh, fun j hj hjid => ?_, fun x hx => ?_, hdone, habsent c hc⟩
    · obtain ⟨i, hi, hid, hjkind, hjmessages, -⟩ := hrows j hj
      obtain ⟨hikind, himessages⟩ := hold.keeps i hi (by rw [hid, hjid, hcid])
      refine ⟨(hjkind.trans hikind).trans hkind.symm, fun m hm => ?_⟩
      rw [hmessages]
      exact himessages m (hjmessages m hm)
    · rw [← hcid] at hx
      refine (hold.holds x hx).of_same hkind fun m hm => ?_
      rw [hmessages]
      exact hm
  · refine ⟨(h.sent y hy).1, fun j hj hjid => ?_⟩
    obtain ⟨i, hi, hid, hkind, -⟩ := hrows j hj
    exact hkind.trans ((h.sent y hy).2 i hi (hid.trans hjid))

theorem LedgerOk.shrink (h : LedgerOk A R next sent L)
    (hrows : ∀ j ∈ L'.intents.rows, j ∈ L.intents.rows) (hcopies : ∀ c ∈ copies L', c ∈ copies L)
    (hgone : ∀ i ∈ L.intents.rows, i ∉ L'.intents.rows → ∀ c ∈ copies L', c.id = i.id →
      ∀ x, A c.id = some x → c.state = .done ∨ Reversed R x) :
    LedgerOk A R next sent L' := by
  refine h.step (fun j hj => ?_) (fun c hc => ?_) fun c hc hnone x hx => ?_
  · exact ⟨j, hrows j hj, rfl, .refl j, fun m hm => hm, (h.live j (hrows j hj)).2⟩
  · exact ⟨c, hcopies c hc, rfl, .refl c, rfl, (h.copy c (hcopies c hc)).2.done⟩
  · by_cases hlive : ∃ i ∈ L.intents.rows, i.id = c.id
    · obtain ⟨i, hi, hid⟩ := hlive
      exact hgone i hi (fun hi' => hnone i hi' hid) c hc hid.symm x hx
    · refine (h.copy c (hcopies c hc)).2.absent (fun i hi hid => hlive ⟨i, hi, hid⟩) x hx

theorem LedgerOk.fewer (h : LedgerOk A R next sent L) (hrows : L'.intents = L.intents)
    (hcopies : ∀ c ∈ copies L', c ∈ copies L) : LedgerOk A R next sent L' := by
  refine h.shrink (fun j hj => hrows ▸ hj) hcopies fun i hi hnot => ?_
  rw [hrows] at hnot
  exact absurd hi hnot

theorem LedgerOk.mono (h : LedgerOk A R next sent L) (hR : ∀ r ∈ R, r ∈ R')
    (hnext : next ≤ next') : LedgerOk A R' next' sent L := by
  refine ⟨fun i hi => ?_, fun c hc => ?_, fun y hy => ?_⟩
  · exact ⟨lt_of_lt_of_le (h.live i hi).1 hnext, (h.live i hi).2⟩
  · obtain ⟨hfresh, hcopy⟩ := h.copy c hc
    refine ⟨lt_of_lt_of_le hfresh hnext, hcopy.keeps, hcopy.holds, hcopy.done, fun hnone x hx => ?_⟩
    obtain hdone | hreversed := hcopy.absent hnone x hx
    · exact Or.inl hdone
    · exact Or.inr (hreversed.mono hR)
  · exact ⟨lt_of_lt_of_le (h.sent y hy).1 hnext, (h.sent y hy).2⟩

theorem copies_dropUndoFor {c : MailIntent} (h : c ∈ copies (dropUndoFor L id)) : c ∈ copies L := by
  obtain hundo | hrequest := mem_copies.1 h
  · obtain ⟨e, he, hc⟩ := mem_undoCopies.1 hundo
    exact mem_copies.2 (Or.inl (mem_undoCopies.2 ⟨e, List.mem_of_mem_filter he, hc⟩))
  · exact mem_copies.2 (Or.inr hrequest)

theorem dropUndoFor_undo (hc : c ∈ undoCopies (dropUndoFor L id)) : c.id ≠ id := by
  obtain ⟨e, he, hmem⟩ := mem_undoCopies.1 hc
  obtain ⟨-, hkept⟩ := List.mem_filter.1 he
  rintro rfl
  rw [Bool.not_eq_true', List.any_eq_false] at hkept
  exact hkept c hmem (by simp)

theorem LedgerOk.undoDropped (h : LedgerOk A R next sent L) (id : IntentId) :
    LedgerOk A R next sent (dropUndoFor L id) :=
  h.fewer rfl fun _ => copies_dropUndoFor

theorem copies_updateIntent (hfind : L.intents.find? id = some i)
    (hc : c ∈ copies (updateIntent L now id patch)) :
    ∃ c' ∈ copies L, c = c' ∨ c' ∈ undoCopies L ∧ c'.id = id ∧ c = carry (patched patch now i) c' := by
  unfold updateIntent at hc
  rw [hfind] at hc
  obtain hundo | hrequest := mem_copies.1 (copies_commit hc)
  · obtain ⟨e, he, hmem⟩ := mem_undoCopies.1 hundo
    obtain ⟨e', he', rfl⟩ := List.mem_map.1 he
    obtain ⟨c', hc', rfl⟩ := List.mem_map.1 hmem
    have hin := mem_undoCopies.2 ⟨e', he', hc'⟩
    refine ⟨c', mem_copies.2 (Or.inl hin), ?_⟩
    split
    · rename_i hid
      exact Or.inr ⟨hin, hid, rfl⟩
    · exact Or.inl rfl
  · exact ⟨c, mem_copies.2 (Or.inr hrequest), Or.inl rfl⟩

theorem mem_updateIntent (hfind : L.intents.find? id = some i) :
    j ∈ (updateIntent L now id patch).intents.rows ↔
      ∃ i' ∈ L.intents.rows, (if i'.id = id then patched patch now i' else i') = j := by
  unfold updateIntent
  rw [hfind]
  show j ∈ (L.intents.update (fun i => decide (i.id = id)) (patched patch now)
    (patched_id patch now)).rows ↔ _
  rw [KeyedTable.mem_update]
  simp only [decide_eq_true_eq]

theorem LedgerOk.update (h : LedgerOk A R next sent L)
    (hkind : ∀ i ∈ L.intents.rows, i.id = id → SameKind (patch i) i ∧
      ∀ m ∈ (patch i).messages, m ∈ i.messages)
    (hlive : ∀ i ∈ L.intents.rows, i.id = id → LiveOk A (Named L id) (patched patch now i))
    (hdone : ∀ i ∈ L.intents.rows, i.id = id → (patch i).state = .done →
      (∃ x, A id = some x ∧ Carries (patched patch now i) x) ∨ ∀ c ∈ undoCopies L, c.id ≠ id) :
    LedgerOk A R next sent (updateIntent L now id patch) := by
  cases hfind : L.intents.find? id with
  | none =>
    unfold updateIntent
    rw [hfind]
    exact h
  | some i =>
    obtain ⟨hi, hid⟩ := KeyedTable.find?_eq_some_iff.1 hfind
    refine h.step (fun j hj => ?_) (fun c hc => ?_) fun c hc hnone x hx => ?_
    · obtain ⟨i', hi', rfl⟩ := (mem_updateIntent hfind).1 hj
      refine ⟨i', hi', ?_⟩
      split
      · rename_i hid'
        obtain ⟨hk, hm⟩ := hkind i' hi' hid'
        exact ⟨rfl, ⟨hk.action, hk.target, hk.stays⟩, hm, hid' ▸ hlive i' hi' hid'⟩
      · exact ⟨rfl, .refl i', fun m hm => hm, (h.live i' hi').2⟩
    · obtain ⟨c', hc', hcase⟩ := copies_updateIntent hfind hc
      refine ⟨c', hc', ?_⟩
      obtain rfl | ⟨hundo, hcid, rfl⟩ := hcase
      · exact ⟨rfl, .refl c, rfl, (h.copy c hc').2.done⟩
      · refine ⟨rfl, ⟨rfl, rfl, rfl⟩, rfl, fun hstate => ?_⟩
        obtain hcarries | hnot := hdone i hi hid hstate
        · show ∃ x, A c'.id = some x ∧ _
          rw [hcid]
          exact hcarries
        · exact absurd hcid (hnot c' hundo)
    · -- whatever has no intent now had none before, and its copy is as it was
      have hbefore : ∀ i' ∈ L.intents.rows, i'.id ≠ c.id := by
        intro i' hi' hsame
        refine hnone _ ((mem_updateIntent hfind).2 ⟨i', hi', rfl⟩) ?_
        split
        · exact hsame
        · exact hsame
      obtain ⟨c', hc', hcase⟩ := copies_updateIntent hfind hc
      obtain rfl | ⟨-, hcid, rfl⟩ := hcase
      · exact (h.copy c hc').2.absent hbefore x hx
      · exact absurd (hid.trans hcid.symm) (hbefore i hi)

theorem LedgerOk.reopen (h : LedgerOk A R next sent L)
    (hpatch : ∀ i, SameKind (patch i) i ∧ (patch i).messages = i.messages)
    (hstate : ∀ i ∈ L.intents.rows, i.id = id → (patch i).state ≠ .done)
    (htold : ∀ i ∈ L.intents.rows, i.id = id → Named L id → ∀ x, A id = some x →
      0 < (patch i).attempts ∧ (patch i).refused = false) :
    LedgerOk A R next sent (updateIntent L now id patch) := by
  refine h.update (fun i _ _ => ⟨(hpatch i).1, fun m hm => ?_⟩) (fun i hi hid => ?_)
    fun i hi hid hdone => absurd hdone (hstate i hi hid)
  · rw [(hpatch i).2] at hm
    exact hm
  · have hold := (h.live i hi).2
    rw [hid] at hold
    obtain ⟨hkind, hmessages⟩ := hpatch i
    refine hold.reopen rfl ⟨hkind.action, hkind.target, hkind.stays⟩ hmessages (hstate i hi hid) ?_
    rw [hid]
    exact htold i hi hid

/-- New intents have fresh ids, which no answer or copy knows. -/
theorem LedgerOk.add (h : LedgerOk A R next sent L) (hnext : next ≤ next')
    (hA : ∀ id, next ≤ id → A id = none) {new : List MailIntent} {entry : Option UndoEntry}
    (hnew : ∀ i ∈ new, next ≤ i.id ∧ i.id < next')
    (hentry : ∀ e ∈ entry, ∀ c ∈ e.intents, c ∈ new ∧ c.state ≠ .done ∧
      ∀ i ∈ new, i.id = c.id → i = c) :
    LedgerOk A R next' sent (addIntents L now new entry) := by
  have hrows : ∀ {j}, j ∈ (addIntents L now new entry).intents.rows → j ∈ L.intents.rows ∨ j ∈ new :=
    fun hj => KeyedTable.mem_insertAll.2 hj
  have hstay : ∀ {j}, j ∈ L.intents.rows → j ∈ (addIntents L now new entry).intents.rows :=
    fun hj => KeyedTable.mem_insertAll.1 hj
  have hcopies : ∀ {c}, c ∈ copies (addIntents L now new entry) →
      c ∈ copies L ∨ ∃ e ∈ entry, c ∈ e.intents := by
    intro c hc
    obtain hundo | hrequest := mem_copies.1 (copies_commit hc)
    · obtain ⟨e, he, hmem⟩ := mem_undoCopies.1 hundo
      obtain hold | hin := List.mem_append.1 he
      · exact Or.inl (mem_copies.2 (Or.inl (mem_undoCopies.2 ⟨e, hold, hmem⟩)))
      · exact Or.inr ⟨e, by simpa using hin, hmem⟩
    · exact Or.inl (mem_copies.2 (Or.inr hrequest))
  -- an old key is below the new ones
  have hold : ∀ {j k}, j ∈ (addIntents L now new entry).intents.rows → j.id = k → k < next →
      j ∈ L.intents.rows := by
    intro j k hj hjk hk
    obtain hin | hin := hrows hj
    · exact hin
    · exact absurd (hjk ▸ (hnew j hin).1) (Nat.not_le.2 hk)
  refine ⟨fun j hj => ?_, fun c hc => ?_, fun y hy => ?_⟩
  · obtain hin | hin := hrows hj
    · obtain ⟨hfresh, hlive⟩ := h.live j hin
      refine ⟨lt_of_lt_of_le hfresh hnext, hlive.mono ?_⟩
      rintro ⟨c, hc, hid⟩
      obtain hc | ⟨e, he, hc⟩ := hcopies hc
      · exact ⟨c, hc, hid⟩
      · have hle := (hnew c (hentry e he c hc).1).1
        rw [hid] at hle
        exact absurd hle (Nat.not_le.2 hfresh)
    · exact ⟨(hnew j hin).2, .of_none (hA j.id (hnew j hin).1)⟩
  · obtain hc | ⟨e, he, hc⟩ := hcopies hc
    · obtain ⟨hfresh, hcopy⟩ := h.copy c hc
      refine ⟨lt_of_lt_of_le hfresh hnext, fun j hj hid => ?_, hcopy.holds, hcopy.done,
        fun hnone => hcopy.absent fun i hi => hnone i (hstay hi)⟩
      exact hcopy.keeps j (hold hj hid hfresh) hid
    · obtain ⟨hin, hstate, hsingle⟩ := hentry e he c hc
      have hnone := hA c.id (hnew c hin).1
      refine ⟨(hnew c hin).2, fun j hj hid => ?_, fun x hx => ?_, fun hdone => absurd hdone hstate,
        fun _ x hx => ?_⟩
      · obtain hjold | hjnew := hrows hj
        · have hlt := (h.live j hjold).1
          rw [hid] at hlt
          exact absurd (hnew c hin).1 (Nat.not_le.2 hlt)
        · rw [hsingle j hjnew hid]
          exact ⟨.refl c, fun m hm => hm⟩
      · rw [hnone] at hx
        cases hx
      · rw [hnone] at hx
        cases hx
  · obtain ⟨hfresh, hkind⟩ := h.sent y hy
    exact ⟨lt_of_lt_of_le hfresh hnext, fun j hj hid => hkind j (hold hj hid hfresh) hid⟩

theorem LedgerOk.request (h : LedgerOk A R next sent L) (hnext : next ≤ next')
    (hrows : L'.intents = L.intents) (hcopies : ∀ c' ∈ copies L', c' ∈ copies L ∨ c' = c)
    (hi : i ∈ L.intents.rows) (hlanded : mayHaveLanded i = true) (hid : c.id = i.id)
    (hkind : SameKind i c) (hstate : c.state = i.state)
    (hkeeps : ∀ m ∈ i.messages, m ∈ c.messages) : LedgerOk A R next' sent L' := by
  simp only [mayHaveLanded, Bool.and_eq_true, decide_eq_true_eq, Bool.not_eq_true'] at hlanded
  obtain ⟨⟨hopen, hattempts⟩, hrefused⟩ := hlanded
  refine ⟨fun j hj => ?_, fun c' hc' => ?_, fun y hy => ?_⟩
  · rw [hrows] at hj
    obtain ⟨hfresh, hlive⟩ := h.live j hj
    refine ⟨lt_of_lt_of_le hfresh hnext, hlive.holds, fun hnamed x hx => ?_,
      fun hnamed hdone x hx => ?_⟩
    · obtain ⟨c', hc', hcid⟩ := hnamed
      obtain hold | rfl := hcopies c' hc'
      · exact hlive.told ⟨c', hold, hcid⟩ x hx
      · rw [L.intents.eq_of_key_eq hj hi (hcid.symm.trans hid)]
        exact ⟨hattempts, hrefused⟩
    · obtain ⟨c', hc', hcid⟩ := hnamed
      obtain hold | rfl := hcopies c' hc'
      · exact hlive.done ⟨c', hold, hcid⟩ hdone x hx
      · rw [L.intents.eq_of_key_eq hj hi (hcid.symm.trans hid)] at hdone
        exact absurd hdone hopen
  · obtain hold | rfl := hcopies c' hc'
    · obtain ⟨hfresh, hcopy⟩ := h.copy c' hold
      refine ⟨lt_of_lt_of_le hfresh hnext, ?_, hcopy.holds, hcopy.done, ?_⟩
      · rw [hrows]
        exact hcopy.keeps
      · rw [hrows]
        exact hcopy.absent
    · obtain ⟨hfresh, hlive⟩ := h.live i hi
      rw [← hid] at hfresh
      refine ⟨lt_of_lt_of_le hfresh hnext, fun j hj hjid => ?_, fun x hx => ?_, fun hdone => ?_,
        fun hnone => ?_⟩
      · rw [hrows] at hj
        rw [L.intents.eq_of_key_eq hj hi (hjid.trans hid)]
        exact ⟨hkind, hkeeps⟩
      · rw [hid] at hx
        exact (hlive.holds x hx).of_same hkind.symm hkeeps
      · exact absurd (hstate.symm.trans hdone) hopen
      · rw [hrows] at hnone
        exact absurd hid.symm (hnone i hi)
  · obtain ⟨hfresh, hsent⟩ := h.sent y hy
    refine ⟨lt_of_lt_of_le hfresh hnext, ?_⟩
    rw [hrows]
    exact hsent

/-- The first application of a request is recorded under its id. -/
theorem LedgerOk.apply (h : LedgerOk A R next sent L) {x : Submission}
    (hnone : A x.request.id = none) (hsent : x.request ∈ sent)
    (hmessages : ∀ i ∈ L.intents.rows, i.id = x.request.id → i.messages = x.request.messages)
    (hwaiting : Named L x.request.id → ∃ i ∈ L.intents.rows,
      i.id = x.request.id ∧ mayHaveLanded i = true) :
    LedgerOk (Function.update A x.request.id (some x)) R next sent L := by
  have hself : ∀ {y}, Function.update A x.request.id (some x) x.request.id = some y → y = x := by
    intro y hy
    rw [Function.update_self] at hy
    exact (Option.some.inj hy).symm
  have hother : ∀ {id}, id ≠ x.request.id → Function.update A x.request.id (some x) id = A id :=
    fun hne => Function.update_of_ne hne (some x) A
  have hlive : ∀ i ∈ L.intents.rows, i.id = x.request.id → Holds i x := by
    intro i hi hid
    refine ⟨(h.sent x.request hsent).2 i hi hid, fun _ _ _ _ _ m hm _ => ?_⟩
    rw [hmessages i hi hid]
    exact hm
  refine ⟨fun i hi => ?_, fun c hc => ?_, h.sent⟩
  · obtain ⟨hfresh, hold⟩ := h.live i hi
    refine ⟨hfresh, ?_⟩
    by_cases hid : i.id = x.request.id
    · have hopen : Named L i.id → mayHaveLanded i = true := by
        intro hnamed
        rw [hid] at hnamed
        obtain ⟨j, hj, hjid, hlanded⟩ := hwaiting hnamed
        rw [L.intents.eq_of_key_eq hi hj (hid.trans hjid.symm)]
        exact hlanded
      simp only [mayHaveLanded, Bool.and_eq_true, decide_eq_true_eq, Bool.not_eq_true'] at hopen
      refine ⟨fun y hy => ?_, fun hnamed _ _ => ⟨(hopen hnamed).1.2, (hopen hnamed).2⟩,
        fun hnamed hdone => absurd hdone (hopen hnamed).1.1⟩
      rw [hid] at hy
      rw [hself hy]
      exact hlive i hi hid
    · refine ⟨fun y hy => hold.holds y ?_, fun hnamed y hy => hold.told hnamed y ?_,
        fun hnamed hdone y hy => hold.done hnamed hdone y ?_⟩
      all_goals
        rw [hother hid] at hy
        exact hy
  · obtain ⟨hfresh, hcopy⟩ := h.copy c hc
    refine ⟨hfresh, ?_⟩
    by_cases hid : c.id = x.request.id
    · obtain ⟨i, hi, hiid, -⟩ := hwaiting ⟨c, hc, hid⟩
      obtain ⟨hkind, hkeeps⟩ := hcopy.keeps i hi (hiid.trans hid.symm)
      refine ⟨hcopy.keeps, fun y hy => ?_, fun hdone => ?_, fun hgone => ?_⟩
      · rw [hid] at hy
        rw [hself hy]
        exact (hlive i hi hiid).of_same hkind.symm hkeeps
      · obtain ⟨y, hy, -⟩ := hcopy.done hdone
        rw [hid, hnone] at hy
        cases hy
      · exact absurd (hiid.trans hid.symm) (hgone i hi)
    · refine ⟨hcopy.keeps, ?_, ?_, ?_⟩
      all_goals rw [hother hid]
      · exact hcopy.holds
      · exact hcopy.done
      · exact hcopy.absent

theorem LedgerOk.sending (h : LedgerOk A R next sent L) (hi : i ∈ L.intents.rows) :
    LedgerOk A R next (sent ++ [i]) L := by
  refine ⟨h.live, h.copy, fun y hy => ?_⟩
  obtain hold | hnew := List.mem_append.1 hy
  · exact h.sent y hold
  · obtain rfl := List.mem_singleton.1 hnew
    refine ⟨(h.live y hi).1, fun j hj hid => ?_⟩
    rw [L.intents.eq_of_key_eq hj hi hid]
    exact .refl y

/-! ### The operations of the drainer -/

theorem LedgerOk.restarted (h : LedgerOk A R next sent L) {resend : Bool}
    (hresend : ∀ i ∈ L.intents.rows, i.id = id → Named L id → ∀ x, A id = some x →
      resend = true) : LedgerOk A R next sent (restartIntent L now id resend) := by
  refine h.reopen (fun i => ⟨⟨rfl, rfl, rfl⟩, rfl⟩) (fun i _ _ hdone => ?_)
    fun i hi hid hnamed x hx => ⟨?_, rfl⟩
  · cases hdone
  · rw [← hid] at hnamed hx
    have htold := (h.live i hi).2.told hnamed x hx
    show 0 < if resend = true then i.attempts else 0
    rw [hid] at hnamed hx
    rw [if_pos (hresend i hi hid hnamed x hx)]
    exact htold.1

theorem LedgerOk.failed (h : LedgerOk A R next sent L) {refused : Bool}
    (hrefused : refused = true → A id = none) :
    LedgerOk A R next sent (settleFailed L now id refused) := by
  have hbase : LedgerOk A R next sent (if refused = true then dropUndoFor L id else L) := by
    split
    · exact h.undoDropped id
    · exact h
  refine hbase.reopen (fun i => ⟨⟨rfl, rfl, rfl⟩, rfl⟩) (fun i _ _ hdone => ?_)
    fun i hi hid hnamed x hx => ?_
  · cases hdone
  · have htold := (hbase.live i hi).2.told
    rw [hid] at htold
    refine ⟨(htold hnamed x hx).1, ?_⟩
    cases hr : refused with
    | true =>
      rw [hrefused hr] at hx
      cases hx
    | false => rfl

theorem LedgerOk.errored (h : LedgerOk A R next sent L) {status : Option HttpError}
    (hdenied : classifyFailure status = .terminal ∨ classifyFailure status = .gone →
      A i.id = none) : LedgerOk A R next sent (settleError L now i status) := by
  unfold settleError
  dsimp only
  split
  · rename_i hgone
    have hnone := hdenied (Or.inr hgone)
    refine (h.undoDropped i.id).update (fun j _ _ => ⟨⟨rfl, rfl, rfl⟩, fun m hm => ?_⟩)
      (fun j _ hid => .of_none (hid ▸ hnone)) fun j _ _ _ => Or.inr fun c hc => dropUndoFor_undo hc
    cases hm
  · split
    · refine h.failed fun hterminal => hdenied (Or.inl ?_)
      simpa using hterminal
    · refine h.reopen (fun j => ⟨⟨rfl, rfl, rfl⟩, rfl⟩) (fun j _ _ hdone => ?_)
        fun j hj hid hnamed x hx => ?_
      · cases hdone
      · rw [← hid] at hnamed
        exact (h.live j hj).2.told hnamed x (hid ▸ hx)

/-- An intent is settled by the answer that was applied, or denied if none was. -/
theorem LedgerOk.settled (h : LedgerOk A R next sent L) {outcome : Outcome}
    (hanswered : ∀ applied landed skipped sources,
      outcome = .answered applied landed skipped sources →
        ∃ x, A i.id = some x ∧ x.outcome = outcome)
    (hdenied : denies outcome = true → A i.id = none) :
    LedgerOk A R next sent (settle L now i outcome) := by
  cases outcome with
  | answered applied landed skipped sources =>
    obtain ⟨x, hx, hout⟩ := hanswered applied landed skipped sources rfl
    have hbase : LedgerOk A R next sent
        (if applied = true then L else dropUndoFor L i.id) := by
      split
      · exact h
      · exact h.undoDropped i.id
    have hcarries : ∀ j, Carries (patched (fun i => settleDone i now applied landed skipped sources)
        now j) x := by
      intro j
      unfold Carries
      rw [hout]
      show _ = Outcome.answered (!!applied) landed skipped sources
      rw [Bool.not_not]
    refine hbase.update (fun j _ _ => ⟨⟨rfl, rfl, rfl⟩, fun m hm => List.mem_of_mem_filter hm⟩)
      (fun j hj hid => ⟨fun y hy => ?_, fun hnamed y hy => ?_, fun _ _ y hy => ?_⟩)
      fun j _ _ _ => Or.inl ⟨x, hx, hcarries j⟩
    · rw [patched_id, hid, hx] at hy
      obtain rfl := Option.some.inj hy
      have hholds := (hbase.live j hj).2.holds x (hid ▸ hx)
      refine ⟨⟨hholds.kind.action, hholds.kind.target, hholds.kind.stays⟩,
        fun a l sk so hsame m hm hkept => ?_⟩
      refine List.mem_filter.2 ⟨hholds.messages a l sk so hsame m hm hkept, ?_⟩
      rw [hout] at hsame
      injection hsame with _ _ hskipped _
      rw [hskipped]
      exact decide_eq_true hkept
    · have htold := (hbase.live j hj).2.told
      rw [hid] at htold
      exact htold hnamed y (hid ▸ hy)
    · rw [patched_id, hid, hx] at hy
      obtain rfl := Option.some.inj hy
      exact hcarries j
  | refused => exact h.failed fun _ => hdenied rfl
  | error status =>
    refine h.errored fun hkind => hdenied ?_
    obtain hterminal | hgone := hkind
    · simp [denies, hterminal]
    · simp [denies, hgone]

theorem LedgerOk.patchEach (h : LedgerOk A R next sent L)
    (hpatch : ∀ i, SameKind (patch i) i ∧ (patch i).messages = i.messages ∧
      (patch i).attempts = i.attempts ∧ (patch i).refused = i.refused ∧
      (i.state ≠ .done → (patch i).state ≠ .done)) (ids : List IntentId)
    (hopen : ∀ i ∈ L.intents.rows, i.id ∈ ids → i.state ≠ .done) :
    LedgerOk A R next sent (ids.foldl (fun L id => updateIntent L now id patch) L) := by
  induction ids generalizing L with
  | nil => exact h
  | cons id ids ih =>
    refine ih (h.reopen (fun i => ⟨(hpatch i).1, (hpatch i).2.1⟩) (fun i hi hid => ?_)
      fun i hi hid hnamed x hx => ?_) fun j hj hmem => ?_
    · exact (hpatch i).2.2.2.2 (hopen i hi (hid ▸ List.mem_cons_self))
    · rw [← hid] at hnamed
      rw [(hpatch i).2.2.1, (hpatch i).2.2.2.1]
      exact (h.live i hi).2.told hnamed x (hid ▸ hx)
    · cases hfind : L.intents.find? id with
      | none =>
        have hsame : updateIntent L now id patch = L := by
          unfold updateIntent
          rw [hfind]
        rw [show (fun L id => updateIntent L now id patch) L id = L from hsame] at hj
        exact hopen j hj (List.mem_cons_of_mem id hmem)
      | some i =>
        obtain ⟨i', hi', rfl⟩ := (mem_updateIntent hfind).1 hj
        split at hmem
        · rename_i hid
          rw [if_pos hid]
          exact (hpatch i').2.2.2.2 (hopen i' hi' (hid ▸ List.mem_cons_self))
        · rename_i hid
          rw [if_neg hid]
          exact hopen i' hi' (List.mem_cons_of_mem id hmem)

theorem LedgerOk.resend (h : LedgerOk A R next sent L) (cs : List MailIntent) :
    LedgerOk A R next sent (resendUnanswered now L cs) := by
  induction cs generalizing L with
  | nil => exact h
  | cons c cs ih =>
    refine ih ?_
    dsimp only
    split
    · exact h
    · split
      · exact h.restarted fun _ _ _ _ _ _ => rfl
      · exact h

theorem resend_mayHaveLanded (cs : List MailIntent) (hi : i ∈ L.intents.rows)
    (hlanded : mayHaveLanded i = true) :
    ∃ j ∈ (resendUnanswered now L cs).intents.rows, j.id = i.id ∧ mayHaveLanded j = true := by
  induction cs generalizing L i with
  | nil => exact ⟨i, hi, rfl, hlanded⟩
  | cons c cs ih =>
    have hnext : ∀ L', (∃ j ∈ L'.intents.rows, j.id = i.id ∧ mayHaveLanded j = true) →
        ∃ j ∈ (resendUnanswered now L' cs).intents.rows, j.id = i.id ∧ mayHaveLanded j = true := by
      rintro L' ⟨j, hj, hid, hjlanded⟩
      obtain ⟨k, hk, hkid, hklanded⟩ := ih hj hjlanded
      exact ⟨k, hk, hkid.trans hid, hklanded⟩
    refine hnext _ ?_
    dsimp only
    split
    · exact ⟨i, hi, rfl, hlanded⟩
    · rename_i live hfind
      split
      · obtain ⟨hlive, hid⟩ := KeyedTable.find?_eq_some_iff.1 hfind
        refine ⟨_, (mem_updateIntent (KeyedTable.find?_eq_some_iff.2 ⟨hlive, rfl⟩)).2
          ⟨i, hi, rfl⟩, ?_⟩
        split
        · refine ⟨rfl, ?_⟩
          simp only [mayHaveLanded, Bool.and_eq_true, decide_eq_true_eq] at hlanded
          simp [mayHaveLanded, patched, restart, hlanded.1.2]
        · exact ⟨rfl, hlanded⟩
      · exact ⟨i, hi, rfl, hlanded⟩

theorem updateIntent_undoRequests : (updateIntent L now id patch).undoRequests = L.undoRequests := by
  unfold updateIntent
  split
  · rfl
  · rfl

theorem resend_undoRequests (cs : List MailIntent) :
    (resendUnanswered now L cs).undoRequests = L.undoRequests := by
  induction cs generalizing L with
  | nil => rfl
  | cons c cs ih =>
    refine ih.trans ?_
    dsimp only
    split
    · rfl
    · split
      · exact updateIntent_undoRequests
      · rfl

/-! ### Carrying out a request -/

theorem reversalsOf_ids {newId : ℕ → IntentId} {r : MailIntent} (hr : r ∈ reversalsOf i now newId) :
    ∃ n, n < (reversalsOf i now newId).length ∧ r.id = newId n := by
  unfold reversalsOf at hr ⊢
  split at hr
  · cases hr
  · rename_i hkept
    rw [if_neg hkept]
    split at hr
    · rename_i hleaves
      rw [if_pos hleaves]
      split at hr
      · cases hr
      · rename_i landed _
        have hmoves : ∀ r ∈ (((sourcesOf i landed).map Prod.snd).eraseDups.zipIdx.map
            (moveBack i now newId landed (sourcesOf i landed))),
            ∃ n, n < ((sourcesOf i landed).map Prod.snd).eraseDups.length ∧ r.id = newId n := by
          intro r hr
          obtain ⟨y, hy, rfl⟩ := List.mem_map.1 hr
          exact ⟨y.2, List.snd_lt_of_mem_zipIdx hy, rfl⟩
        dsimp only at hr ⊢
        split at hr
        · rename_i hnone
          rw [if_pos hnone, List.length_map, List.length_zipIdx]
          exact hmoves r hr
        · rename_i hsome
          rw [if_neg hsome, List.length_append, List.length_map, List.length_zipIdx]
          obtain hmove | hunread := List.mem_append.1 hr
          · obtain ⟨n, hn, hid⟩ := hmoves r hmove
            exact ⟨n, Nat.lt_add_right _ hn, hid⟩
          · obtain rfl := List.mem_singleton.1 hunread
            exact ⟨_, Nat.lt_succ_self _, rfl⟩
    · rename_i hleaves
      rw [if_neg hleaves]
      split at hr
      · cases hr
      · dsimp only at hr ⊢
        split at hr
        · cases hr
        · rename_i hsome
          rw [if_neg hsome]
          obtain rfl := List.mem_singleton.1 hr
          exact ⟨0, Nat.lt_succ_self 0, rfl⟩

theorem reversalsFor_ids {newId : ℕ → IntentId} {r : MailIntent}
    (hr : r ∈ reversalsFor L now newId c) :
    ∃ n, n < (reversalsFor L now newId c).length ∧ r.id = newId n := by
  unfold reversalsFor at hr ⊢
  split at hr
  · exact reversalsOf_ids hr
  · split at hr
    · cases hr
    · rename_i hdone
      rw [if_neg hdone]
      exact reversalsOf_ids hr

theorem reversalsOfAll_ids {r : MailIntent} (cs : List MailIntent)
    (hr : r ∈ reversalsOfAll L now next cs) :
    next ≤ r.id ∧ r.id < next + (reversalsOfAll L now next cs).length := by
  induction cs generalizing next with
  | nil => cases hr
  | cons c cs ih =>
    unfold reversalsOfAll at hr ⊢
    rw [List.length_append]
    obtain hfirst | hrest := List.mem_append.1 hr
    · obtain ⟨n, hn, hid⟩ := reversalsFor_ids hfirst
      rw [hid, ← Nat.add_assoc]
      exact ⟨Nat.le_add_right next n,
        (Nat.add_lt_add_left hn next).trans_le (Nat.le_add_right _ _)⟩
    · obtain ⟨hle, hlt⟩ := ih hrest
      rw [← Nat.add_assoc]
      exact ⟨(Nat.le_add_right _ _).trans hle, hlt⟩

theorem mem_reversalsOfAll {cs : List MailIntent} (hc : c ∈ cs) :
    ∃ newId, ∀ r ∈ reversalsFor L now newId c, r ∈ reversalsOfAll L now next cs := by
  induction cs generalizing next with
  | nil => cases hc
  | cons d cs ih =>
    obtain rfl | hrest := List.mem_cons.1 hc
    · exact ⟨_, fun r hr => List.mem_append_left _ hr⟩
    · obtain ⟨newId, hin⟩ := ih hrest
      exact ⟨newId, fun r hr => List.mem_append_right _ (hin r hr)⟩

/-- A request to undo that is ready reverses each answered intent of its entry. -/
theorem LedgerOk.reversed (h : LedgerOk A R next sent L) {r : UndoRequest}
    (hr : r ∈ L.undoRequests) (hready : undoRequestReady L r = true) (hc : c ∈ r.entry.intents)
    {x : Submission} (hx : A c.id = some x) (hid : x.request.id = c.id) (hreversible : Reversible x) :
    Reversed (R ++ reversalsOfAll L now next' r.entry.intents) x := by
  have hcopy := mem_copies.2 (Or.inr (mem_requestCopies.2 ⟨r, hr, hc⟩))
  obtain ⟨-, hok⟩ := h.copy c hcopy
  obtain ⟨newId, hin⟩ : ∃ newId, ∀ r' ∈ reversalsFor L now newId c,
      r' ∈ reversalsOfAll L now next' r.entry.intents := mem_reversalsOfAll hc
  have hboth : ∀ r' ∈ reversalsFor L now newId c,
      r' ∈ R ++ reversalsOfAll L now next' r.entry.intents :=
    fun r' hr' => List.mem_append_right R (hin r' hr')
  have hanswer := List.all_eq_true.1 hready c hc
  unfold reversalsFor at hboth
  cases hfind : L.intents.find? c.id with
  | none =>
    rw [hfind] at hboth
    have hnone := KeyedTable.find?_eq_none_iff.1 hfind
    obtain hdone | hreversed := hok.absent hnone x hx
    · obtain ⟨y, hy, hcarries⟩ := hok.done hdone
      rw [hx] at hy
      obtain rfl := Option.some.inj hy
      exact (reversalsOf_reversed hdone hcarries (hok.holds x hx) hid.symm hreversible).mono hboth
    · exact hreversed.mono fun r' hr' => List.mem_append_left _ hr'
  | some live =>
    obtain ⟨hlive, hlid⟩ := KeyedTable.find?_eq_some_iff.1 hfind
    have hlok := (h.live live hlive).2
    rw [hlid] at hlok
    obtain ⟨hattempts, hrefused⟩ := hlok.told ⟨c, hcopy, rfl⟩ x (hlid ▸ hx)
    rw [hfind] at hboth
    simp only [hfind] at hanswer
    have hdone : live.state = .done := by
      by_contra hopen
      simp [mayHaveLanded, hopen, hattempts, hrefused] at hanswer
    dsimp only at hboth
    rw [if_neg (by simp [hdone])] at hboth
    have hcarries := hlok.done ⟨c, hcopy, rfl⟩ hdone x (hlid ▸ hx)
    obtain ⟨hkind, -⟩ := hok.keeps live hlive hlid
    have hholds : Holds (mergedForUndo c live) x :=
      (hok.holds x hx).of_same ⟨hkind.action, hkind.target, hkind.stays⟩ fun m hm => hm
    exact (reversalsOf_reversed (i := mergedForUndo c live) hdone hcarries hholds
      (hlid.trans hid.symm) hreversible).mono hboth

/-- An undo adds the reversals of its entry, under ids that are new. -/
theorem LedgerOk.consumed (h : LedgerOk A R next sent L)
    (hA : ∀ id, next ≤ id → A id = none)
    (hserver : ∀ id x, A id = some x → x.request.id = id ∧ Reversible x)
    {r : UndoRequest} (hr : r ∈ L.undoRequests) (hready : undoRequestReady L r = true) :
    LedgerOk A (R ++ reversalsOfAll L now next r.entry.intents)
      (next + (reversalsOfAll L now next r.entry.intents).length) sent
      (consume L now r (reversalsOfAll L now next r.entry.intents)) := by
  have hreversed : ∀ c ∈ r.entry.intents, ∀ x, A c.id = some x →
      Reversed (R ++ reversalsOfAll L now next r.entry.intents) x := fun c hc x hx =>
    h.reversed hr hready hc hx (hserver c.id x hx).1 (hserver c.id x hx).2
  have hmore : LedgerOk A (R ++ reversalsOfAll L now next r.entry.intents) next sent L :=
    h.mono (fun r' hr' => List.mem_append_left _ hr') (Nat.le_refl next)
  have hadded : LedgerOk A (R ++ reversalsOfAll L now next r.entry.intents)
      (next + (reversalsOfAll L now next r.entry.intents).length) sent
      (addIntents L now (reversalsOfAll L now next r.entry.intents) none) :=
    hmore.add (Nat.le_add_right next (reversalsOfAll L now next r.entry.intents).length) hA
      (fun i hi => reversalsOfAll_ids r.entry.intents hi) fun e he => by cases he
  refine hadded.shrink (fun j hj => List.mem_of_mem_filter hj) (fun c hc => ?_)
    fun i hi hgone c hc hid x hx => Or.inr ?_
  · obtain hundo | hrequest := mem_copies.1 hc
    · exact mem_copies.2 (Or.inl (undoCopies_commit hundo))
    · obtain ⟨r', hr', hmem⟩ := mem_requestCopies.1 hrequest
      exact mem_copies.2 (Or.inr (mem_requestCopies.2 ⟨r', List.mem_of_mem_filter hr', hmem⟩))
  · -- what was retired is named by the request
    have hretired : i.id ∈ (r.entry.intents.filter fun c => (L.intents.find? c.id).isSome).map
        MailIntent.id := by
      by_contra hnot
      exact hgone (List.mem_filter.2 ⟨hi, decide_eq_true hnot⟩)
    obtain ⟨c', hc', hcid⟩ := List.mem_map.1 hretired
    refine hreversed c' (List.mem_of_mem_filter hc') x ?_
    rw [hcid, ← hid]
    exact hx

theorem LedgerOk.of_sent {sent' : List MailIntent} (h : LedgerOk A R next sent L)
    (hsent : ∀ y ∈ sent', y ∈ sent) : LedgerOk A R next sent' L :=
  ⟨h.live, h.copy, fun y hy => h.sent y (hsent y hy)⟩

end Ledger

end MailVerdict.Analysis.IntentCopies
