import MailVerdict.Computation.CountAudit
import MailVerdict.Model.EmbeddingCoverage

/-!
# What a ready cutover says

A cutover waits for `outstanding = 0`, which is meant to say that every message in scope
has been tried under the target model: it has a done or failed row of its own, or a row of
its account and durable key is one. `outstanding` is an audit by counts, taken over
different joins, so a row of a message that is gone, a row still pending or a message
shadowed by one stands for a message nobody has tried (`gone_message_hides_untried`).

Such rows and shadows are the surplus of the audit, and `ready_means_tried_iff` says how much of
it `outstanding = 0` can bear: none.
-/

namespace MailVerdict.Analysis.EmbeddingReadiness

open MailVerdict.Computation
open Model.Glacier (Uuid Time Platform Message GlacierMessage)
open Model.EmbeddingCoverage

variable {P : Platform}

/-- What can be in scope: a live message, or a visible glacier row. -/
abbrev ScopeItem (P : Platform) := Message ⊕ GlacierMessage P

def tried (e : MessageEmbedding) : Bool := decide (e.status = .done ∨ e.status = .failed)

/-- A tried row that is the item's own, by the hint, or has its account and durable key. -/
def settles (e : MessageEmbedding) : ScopeItem P → Bool
  | .inl m =>
    tried e && decide (e.accountId = m.accountId) &&
      (decide (e.messageId = some m.id) || decide (e.msgKey = m.msgKey P))
  | .inr g => tried e && decide (e.accountId = g.accountId) && decide (e.msgKey = g.msgKey)

variable (db : Database P) (model : String) (accountId : Option Uuid)

def scopeItems : List (ScopeItem P) :=
  (db.scope accountId).map Sum.inl ++ (db.glacierScope accountId).map Sum.inr

def Tried (x : ScopeItem P) : Prop :=
  ∃ e ∈ db.embeddings.rows, e.model = model ∧ settles e x = true

/-- The counts of `status` as an audit: rows for items, and shadows for covers. -/
def audit : CountAudit (ScopeItem P) MessageEmbedding where
  items := scopeItems db accountId
  rows := db.counted model accountId
  settled x := (db.counted model accountId).any fun e => settles e x
  covered := Sum.elim (db.isShadowed model) fun _ => false
  settles e := (scopeItems db accountId).any (settles e)

/-- Rows of the model that settle nothing in scope, messages shadowed by an untried row,
and the rows beyond one for each message only a row settles. -/
def surplus : ℤ := (audit db model accountId).surplus

variable {db model accountId}

theorem onAccount_scopeItem {x : ScopeItem P} (hx : x ∈ scopeItems db accountId)
    {e : MessageEmbedding} (he : settles e x = true) : onAccount accountId e.accountId = true := by
  rcases List.mem_append.1 hx with hx | hx
  · obtain ⟨m, hm, rfl⟩ := List.mem_map.1 hx
    have hacc : e.accountId = m.accountId := by
      simp only [settles, Bool.and_eq_true, decide_eq_true_eq] at he
      exact he.1.2
    have hscope := (List.mem_filter.1 hm).2
    simp only [Bool.and_eq_true] at hscope
    rw [hacc]
    exact hscope.2
  · obtain ⟨g, hg, rfl⟩ := List.mem_map.1 hx
    have hacc : e.accountId = g.accountId := by
      simp only [settles, Bool.and_eq_true, decide_eq_true_eq] at he
      exact he.1.2
    have hscope := (List.mem_filter.1 hg).2
    simp only [Bool.and_eq_true] at hscope
    rw [hacc]
    exact hscope.2

theorem settled_iff {x : ScopeItem P} (hx : x ∈ scopeItems db accountId) :
    (audit db model accountId).settled x = true ↔ Tried db model x := by
  show (db.counted model accountId).any (fun e => settles e x) = true ↔ _
  rw [List.any_eq_true]
  constructor
  · rintro ⟨e, he, hs⟩
    obtain ⟨hmem, hcount⟩ := List.mem_filter.1 he
    simp only [Bool.and_eq_true, decide_eq_true_eq] at hcount
    exact ⟨e, hmem, hcount.1, hs⟩
  · rintro ⟨e, hmem, hmodel, hs⟩
    refine ⟨e, List.mem_filter.2 ⟨hmem, ?_⟩, hs⟩
    simp only [Bool.and_eq_true, decide_eq_true_eq]
    exact ⟨hmodel, onAccount_scopeItem hx hs⟩

theorem length_by_status (l : List MessageEmbedding) :
    l.length =
      l.countP (fun e => decide (e.status = .done)) +
        l.countP (fun e => decide (e.status = .pending ∨ e.status = .claimed)) +
        l.countP (fun e => decide (e.status = .failed)) := by
  induction l with
  | nil => rfl
  | cons e l ih =>
    simp only [List.length_cons, List.countP_cons]
    rw [ih]
    cases e.status <;> simp <;> omega

theorem audit_rows : (audit db model accountId).rows.length =
    (db.status model accountId).encoded + (db.status model accountId).pending +
      (db.status model accountId).failed :=
  length_by_status (db.counted model accountId)

theorem audit_items : (audit db model accountId).items.length =
    (db.status model accountId).inScope := by
  show (scopeItems db accountId).length =
    (db.scope accountId).length + (db.glacierScope accountId).length
  simp [scopeItems]

theorem audit_covered :
    (audit db model accountId).items.countP (audit db model accountId).covered =
      (db.status model accountId).shadowed := by
  show (scopeItems db accountId).countP (Sum.elim (db.isShadowed model) fun _ => false) =
    (db.scope accountId).countP (db.isShadowed model)
  have hglacier : (db.glacierScope accountId).countP
      ((Sum.elim (db.isShadowed model) fun _ => false) ∘ Sum.inr) = 0 :=
    List.countP_eq_zero.2 fun g _ => by simp
  unfold scopeItems
  rw [List.countP_append, List.countP_map, List.countP_map, hglacier, Nat.add_zero]
  rfl

theorem outstanding_eq : (db.status model accountId).outstanding =
    (audit db model accountId).remaining := by
  unfold CountAudit.remaining EmbeddingStatus.outstanding
  rw [audit_rows, audit_items, audit_covered]
  congr 1
  omega

theorem tried_of_surplus_nonpos (hsurplus : surplus db model accountId ≤ 0)
    (h : (db.status model accountId).outstanding = 0) :
    ∀ x ∈ scopeItems db accountId, Tried db model x := by
  rw [outstanding_eq] at h
  exact fun x hx => (settled_iff hx).1 (CountAudit.settled_of_surplus_nonpos _ hsurplus h x hx)

/-! ### A message that is gone -/

def plainPlatform : Platform where
  Digest := List UInt8
  decEq := inferInstance
  sha256 := id
  hexdigest := id
  isoformat := toString

def mail (id : Uuid) (messageId : String) (expungedAt : Option Time) : Message where
  id := id
  accountId := 1
  folderId := 1
  messageId := some messageId
  fromAddr := none
  subject := none
  receivedAt := none
  sizeBytes := none
  imapUid := none
  rawSource := none
  isTruncated := false
  isDraft := false
  attachments := []
  expungedAt := expungedAt

/-- The first message was embedded and then expunged; the second has just come. -/
def goneAndNew : Database plainPlatform where
  folders := ⟨[⟨1, none, true⟩], by decide⟩
  messages := ⟨[mail 1 "<a>" (some 5), mail 2 "<b>" none], by decide⟩
  glacierMessages := KeyedTable.empty
  embeddings := ⟨[⟨1, "<a>", some 1, "new", .done⟩], by decide⟩

/-- The row of the expunged message stands for the one nobody tried, and the cutover is
ready. -/
theorem gone_message_hides_untried :
    (goneAndNew.cutoverReadiness "new" "old").ready = true ∧
      (goneAndNew.status "new" none).outstanding = 0 ∧
      Sum.inl (mail 2 "<b>" none) ∈ scopeItems goneAndNew none ∧
      ¬ Tried goneAndNew "new" (Sum.inl (mail 2 "<b>" none)) := by
  refine ⟨by decide, by decide, by simp [scopeItems]; decide, ?_⟩
  rintro ⟨e, he, -, hs⟩
  have heq : e = ⟨1, "<a>", some 1, "new", .done⟩ := List.mem_singleton.1 he
  subst heq
  exact absurd hs (by decide)

/-- One new message, and rows of messages of other accounts that are gone. -/
def goneAccounts (n : ℕ) : Database plainPlatform where
  folders := ⟨[⟨1, none, true⟩], by decide⟩
  messages := ⟨[mail 1 "<a>" none], by decide⟩
  glacierMessages := KeyedTable.empty
  embeddings := ⟨(List.range n).map fun k => ⟨k + 2, "<a>", none, "new", .done⟩, by
    rw [List.map_map]
    refine List.Nodup.map (fun j k hjk => ?_) List.nodup_range
    simpa [MessageEmbedding.key] using hjk⟩

theorem counted_goneAccounts {n : ℕ} {e : MessageEmbedding}
    (he : e ∈ (goneAccounts n).counted "new" none) : e.accountId ≠ 1 := by
  obtain ⟨k, -, rfl⟩ := List.mem_map.1 (List.mem_filter.1 he).1
  exact Nat.succ_ne_zero k ∘ Nat.succ.inj

theorem length_goneAccounts (n : ℕ) : ((goneAccounts n).counted "new" none).length = n := by
  rw [Database.counted, List.filter_eq_self.2]
  · simp [goneAccounts]
  · intro e he
    obtain ⟨k, -, rfl⟩ := List.mem_map.1 he
    rfl

theorem scope_goneAccounts (n : ℕ) :
    scopeItems (goneAccounts n) none = [Sum.inl (mail 1 "<a>" none)] := rfl

theorem settles_goneAccounts {n : ℕ} {e : MessageEmbedding}
    (he : e ∈ (goneAccounts n).counted "new" none) :
    settles e (Sum.inl (mail 1 "<a>" none) : ScopeItem plainPlatform) = false := by
  have hne : e.accountId ≠ (mail 1 "<a>" none).accountId := counted_goneAccounts he
  rw [settles, decide_eq_false hne, Bool.and_false, Bool.false_and]

theorem isShadowed_goneAccounts (n : ℕ) :
    (goneAccounts n).isShadowed "new" (mail 1 "<a>" none) = false := by
  have hnone : (goneAccounts n).siblingHoldsEmbedding "new" (mail 1 "<a>" none) = false := by
    rw [Database.siblingHoldsEmbedding, List.any_eq_false]
    intro e he
    obtain ⟨k, -, rfl⟩ := List.mem_map.1 he
    simp
  rw [Database.isShadowed, hnone, Bool.and_false]

theorem surplus_goneAccounts (n : ℕ) : surplus (goneAccounts n) "new" none = n := by
  have hrows : ∀ e ∈ (goneAccounts n).counted "new" none,
      (audit (goneAccounts n) "new" none).settles e = false := by
    intro e he
    show (scopeItems (goneAccounts n) none).any (settles e) = false
    rw [scope_goneAccounts, List.any_cons, settles_goneAccounts he]
    rfl
  have hsettled : (audit (goneAccounts n) "new" none).settled (Sum.inl (mail 1 "<a>" none)) =
      false := List.any_eq_false.2 fun e he => by rw [settles_goneAccounts he]; exact Bool.noConfusion
  have hidle : (audit (goneAccounts n) "new" none).idleRows = n := by
    refine Eq.trans (List.countP_eq_length.2 fun e he => ?_) (length_goneAccounts n)
    rw [hrows e he]
    rfl
  have hcount : (audit (goneAccounts n) "new" none).rows.countP
      (audit (goneAccounts n) "new" none).settles = 0 :=
    List.countP_eq_zero.2 fun e he => by rw [hrows e he]; exact Bool.noConfusion
  have hcovers : (audit (goneAccounts n) "new" none).idleCovers = 0 := by
    refine List.countP_eq_zero.2 fun x hx => ?_
    rw [List.mem_singleton.1 hx]
    show ¬ ((goneAccounts n).isShadowed "new" (mail 1 "<a>" none) && _) = true
    rw [isShadowed_goneAccounts, Bool.false_and]
    exact Bool.noConfusion
  have hby : (audit (goneAccounts n) "new" none).settledByRow = 0 := by
    refine List.countP_eq_zero.2 fun x hx => ?_
    rw [List.mem_singleton.1 hx, hsettled, Bool.false_and]
    exact Bool.noConfusion
  rw [surplus, CountAudit.surplus, hidle, hcovers, hcount, hby]
  simp

/-- **How much surplus a ready cutover can bear**: over all databases with a surplus of `n`,
`outstanding = 0` means that every message in scope is tried exactly if `n` is not positive. -/
theorem ready_means_tried_iff (n : ℤ) :
    (∀ (P : Platform) (db : Database P) (model : String) (accountId : Option Uuid),
        surplus db model accountId = n → (db.status model accountId).outstanding = 0 →
          ∀ x ∈ scopeItems db accountId, Tried db model x) ↔ n ≤ 0 := by
  constructor
  · intro h
    by_contra hpos
    obtain ⟨k, rfl⟩ := Int.eq_ofNat_of_zero_le (le_of_not_ge hpos)
    have hzero : ((goneAccounts k).status "new" none).outstanding = 0 := by
      rw [outstanding_eq, CountAudit.remaining_eq_zero_iff]
      have hone : (audit (goneAccounts k) "new" none).unsettled ≤ 1 := List.countP_le_length
      have hsurplus : (audit (goneAccounts k) "new" none).surplus = k := surplus_goneAccounts k
      omega
    -- the one message in scope, for which no row stands
    obtain ⟨e, he, hmodel, hsettles⟩ := h plainPlatform (goneAccounts k) "new" none
      (surplus_goneAccounts k) hzero (Sum.inl (mail 1 "<a>" none)) (List.mem_singleton.2 rfl)
    rw [settles_goneAccounts (List.mem_filter.2 ⟨he, by rw [hmodel]; rfl⟩)] at hsettles
    cases hsettles
  · rintro hn P db model accountId rfl
    exact tried_of_surplus_nonpos hn

end MailVerdict.Analysis.EmbeddingReadiness
