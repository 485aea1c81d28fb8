import MailVerdict.Analysis.HousekeepingParts

/-!
# Each transaction of the orders register, alone

What the register keeps: every mail and file that names an order names one that exists; a
mail whose job placed it is in an order unless a call released it, and so is a file that was
added; and the counters of an order whose files have all been placed are those of its rows.

Within a transaction some of it is owed (`Owing`): the counters of the orders whose rows it
has changed, and a mail between its removal from one order and its insertion into another.
Each statement is followed by what it leaves owing, and each program, run alone, ends with
nothing owed (`kept_program`).
-/

namespace MailVerdict.Analysis.OrderHousekeeping

open MailVerdict.Computation
open Model.OrderHousekeeping

variable {v : Db} {c : Delta} {O O' : Finset Uuid} {G : Finset Gate}

/-- What the register keeps, but for the counters of the orders `O` and the mails `G`. -/
structure Owing (O : Finset Uuid) (G : Finset Gate) (d : Db) : Prop where
  mailOrder : ∀ m ∈ d.mails.rows, d.hasOrder m.orderId = true
  fileOrder : ∀ f ∈ d.files.rows, ∀ o, f.orderId = some o → d.hasOrder o = true
  mail : ∀ g ∈ d.ended, g ∉ d.released → g ∉ G → d.hasMail g = true
  file : ∀ f ∈ d.placed, f ∉ d.removed →
    ∃ r ∈ d.files.rows, r.id = f ∧ r.orderId.isSome = true
  counts : ∀ r ∈ d.orders.rows, r.id ∉ O → (∀ f ∈ d.filesOf r.id, f.attached = true) →
    r.aggregates = d.aggregates r.id

abbrev Kept : Db → Prop := Owing ∅ ∅

theorem Owing.mono {G' : Finset Gate} (h : Owing O G v) (hO : O ⊆ O') (hG : G ⊆ G') :
    Owing O' G' v where
  mailOrder := h.mailOrder
  fileOrder := h.fileOrder
  mail g hended hreleased hg := h.mail g hended hreleased fun hmem => hg (hG hmem)
  file := h.file
  counts r hr ho := h.counts r hr fun hmem => ho (hO hmem)

theorem kept_empty : Kept emptyDb where
  mailOrder := by simp [emptyDb, RowTable.empty]
  fileOrder := by simp [emptyDb, RowTable.empty]
  mail := by simp [emptyDb]
  file := by simp [emptyDb]
  counts := by simp [emptyDb, RowTable.empty]

/-! ## Small facts about writes -/

@[simp] theorem write_nothing (v : Db) : v.write {} = v := by
  simp [Db.write]

@[simp] theorem write_touched (v : Db) (os : Finset Uuid) : v.write { touched := os } = v := by
  simp [Db.write]

/-- The mails and files are the same in both, whatever the orders are. -/
structure SameRows (d d' : Db) : Prop where
  mails : d'.mails = d.mails
  files : d'.files = d.files

theorem SameRows.filesOf {d d' : Db} (h : SameRows d d') (o : Uuid) :
    d'.filesOf o = d.filesOf o := by
  rw [Db.filesOf, Db.filesOf, h.files]

theorem SameRows.mailsOf {d d' : Db} (h : SameRows d d') (o : Uuid) :
    d'.mailsOf o = d.mailsOf o := by
  rw [Db.mailsOf, Db.mailsOf, h.mails]

theorem SameRows.aggregates {d d' : Db} (h : SameRows d d') (o : Uuid) :
    d'.aggregates o = d.aggregates o := by
  rw [Db.aggregates, Db.aggregates, h.mailsOf, h.filesOf]

theorem SameRows.hasMail {d d' : Db} (h : SameRows d d') (g : Gate) :
    d'.hasMail g = d.hasMail g := by
  rw [Db.hasMail, Db.hasMail, h.mails]

theorem sameRows_write (hm : c.mails = .none) (hf : c.files = .none) : SameRows v (v.write c) :=
  ⟨by rw [Db.write, hm, RowTable.view_none], by rw [Db.write, hf, RowTable.view_none]⟩

theorem Owing.putOrder {r : Order} (h : Owing O G v)
    (hr : r.aggregates = v.aggregates r.id) :
    Owing (O.erase r.id) G (v.write { orders := .put r }) := by
  have hsame : SameRows v (v.write { orders := .put r }) := sameRows_write rfl rfl
  have hhas : ∀ x, v.hasOrder x = true → (v.write { orders := .put r }).hasOrder x = true := by
    intro x hx
    obtain ⟨r', hr', rfl⟩ := hasOrder_iff.1 hx
    by_cases hid : r'.id = r.id
    · exact hasOrder_iff.2 ⟨r, RowTable.mem_view_put.2 (Or.inl rfl), hid.symm⟩
    · exact hasOrder_iff.2 ⟨r', RowTable.mem_view_put.2 (Or.inr ⟨hr', hid⟩), rfl⟩
  refine ⟨?_, ?_, ?_, ?_, ?_⟩
  · rw [hsame.mails]
    exact fun m hm => hhas _ (h.mailOrder m hm)
  · rw [hsame.files]
    exact fun f hf x hx => hhas x (h.fileOrder f hf x hx)
  · simpa [Db.write, Db.hasMail] using h.mail
  · simpa [Db.write] using h.file
  · intro r' hr' hO hattached
    rw [hsame.aggregates]
    rw [hsame.filesOf] at hattached
    obtain rfl | ⟨hold, hne⟩ := RowTable.mem_view_put.1 hr'
    · exact hr
    · exact h.counts r' hold (fun hmem => hO (Finset.mem_erase.2 ⟨hne, hmem⟩)) hattached

theorem Owing.counts_write (h : Owing O G v) {U : Finset Use} (hc : Covered U v c)
    (hO : O ⊆ O') (hU : ∀ o, .order o ∈ U → o ∈ O') :
    ∀ r ∈ (v.write c).orders.rows, r.id ∉ O' →
      (∀ f ∈ (v.write c).filesOf r.id, f.attached = true) →
        r.aggregates = (v.write c).aggregates r.id := by
  intro r hr ho hattached
  have hsame : SameOrder r.id v (v.write c) := by
    refine hc.follows (u := .order r.id) fun u' hu' => ?_
    cases u' with
    | order o =>
      rw [clash, decide_eq_false_iff_not]
      rintro rfl
      exact ho (hU _ hu')
    | _ => rfl
  have hfind := hsame.row.trans (RowTable.find?_key hr)
  rw [← hsame.aggregates]
  refine h.counts r (RowTable.find?_eq_some_iff.1 hfind).1 (fun hmem => ho (hO hmem)) ?_
  rw [hsame.files]
  exact hattached

section Statements

variable {o t f : Uuid} {g : Gate} {a : ℕ}

theorem not_mem_of_not_hasOrder (h : Owing O G v) (ho : v.hasOrder o = false) :
    v.mailsOf o = ∅ ∧ v.filesOf o = ∅ := by
  constructor
  · refine Finset.eq_empty_of_forall_notMem fun m hm => ?_
    obtain ⟨hrow, rfl⟩ := mem_mailsOf.1 hm
    rw [h.mailOrder m hrow] at ho
    cases ho
  · refine Finset.eq_empty_of_forall_notMem fun r hr => ?_
    obtain ⟨hrow, horder⟩ := mem_filesOf.1 hr
    rw [h.fileOrder r hrow o horder] at ho
    cases ho

theorem Owing.createOrder (h : Owing O G v) (ho : v.hasOrder o = false) :
    Owing O G (v.write { orders := .put (freshOrder o) }) := by
  obtain ⟨hmails, hfiles⟩ := not_mem_of_not_hasOrder h ho
  refine (h.putOrder (r := freshOrder o) ?_).mono (Finset.erase_subset _ O) subset_rfl
  simp [freshOrder, Db.aggregates, hmails, hfiles]

/-! ## Statements that write one table -/

theorem Owing.writeMails {G' : Finset Gate} {U : Finset Use} (h : Owing O G v)
    (hc : Covered U v c) (hO : O ⊆ O') (hU : ∀ o, .order o ∈ U → o ∈ O')
    (hnone : c.orders = .none ∧ c.files = .none ∧ c.ended = ∅ ∧ c.placed = ∅ ∧ c.removed = ∅)
    (hnew : ∀ m ∈ c.mails.rows.rows, v.hasOrder m.orderId = true)
    (hmail : ∀ g ∈ v.ended, g ∉ v.released → g ∉ c.released → g ∉ G' →
      (v.write c).hasMail g = true) :
    Owing O' G' (v.write c) := by
  obtain ⟨horders, hfiles, hended, hplaced, hremoved⟩ := hnone
  have hhas : ∀ x, (v.write c).hasOrder x = v.hasOrder x := by
    intro x
    rw [Db.hasOrder, Db.hasOrder, Db.write, horders, RowTable.view_none]
  have hsame : (v.write c).files = v.files := by rw [Db.write, hfiles, RowTable.view_none]
  refine ⟨?_, ?_, ?_, ?_, h.counts_write hc hO hU⟩
  · intro m hm
    rw [hhas]
    obtain hm | ⟨hm, -⟩ := RowTable.mem_view.1 hm
    · exact hnew m hm
    · exact h.mailOrder m hm
  · rw [hsame]
    intro f hf o ho
    rw [hhas]
    exact h.fileOrder f hf o ho
  · intro g hg hreleased hdebt
    simp only [Db.write, hended, Finset.union_empty, Finset.mem_union, not_or] at hg hreleased
    exact hmail g hg hreleased.1 hreleased.2 hdebt
  · rw [hsame]
    simpa [Db.write, hplaced, hremoved] using h.file

theorem Owing.writeFiles {U : Finset Use} (h : Owing O G v)
    (hc : Covered U v c) (hO : O ⊆ O') (hU : ∀ o, .order o ∈ U → o ∈ O')
    (hnone : c.orders = .none ∧ c.mails = .none ∧ c.ended = ∅ ∧ c.released = ∅)
    (hnew : ∀ f ∈ c.files.rows.rows, ∀ o, f.orderId = some o → v.hasOrder o = true)
    (hfile : ∀ f ∈ v.placed ∪ c.placed, f ∉ v.removed ∪ c.removed →
      ∃ r ∈ (v.write c).files.rows, r.id = f ∧ r.orderId.isSome = true) :
    Owing O' G (v.write c) := by
  obtain ⟨horders, hmails, hended, hreleased⟩ := hnone
  have hhas : ∀ x, (v.write c).hasOrder x = v.hasOrder x := by
    intro x
    rw [Db.hasOrder, Db.hasOrder, Db.write, horders, RowTable.view_none]
  have hsame : (v.write c).mails = v.mails := by rw [Db.write, hmails, RowTable.view_none]
  refine ⟨?_, ?_, ?_, hfile, h.counts_write hc hO hU⟩
  · rw [hsame]
    intro m hm
    rw [hhas]
    exact h.mailOrder m hm
  · intro f hf o ho
    rw [hhas]
    obtain hf | ⟨hf, -⟩ := RowTable.mem_view.1 hf
    · exact hnew f hf o ho
    · exact h.fileOrder f hf o ho
  · intro g hg hgone hdebt
    rw [Db.hasMail, hsame]
    simp only [Db.write, hended, hreleased, Finset.union_empty] at hg hgone
    exact h.mail g hg hgone hdebt

theorem Owing.attachMail {receivedAt : ℤ} (h : Owing O G v)
    (hrun : runAttachMail v o g receivedAt = some c) :
    Owing (insert o O) (G.erase g) (v.write c) ∧ (v.write c).hasMail g = true := by
  have hcovered := covered_runAttachMail hrun
  rw [runAttachMail] at hrun
  split at hrun
  next hthere =>
    cases hrun
    rw [write_nothing]
    have hmono := h.mono (Finset.subset_insert o O) (subset_refl G)
    refine ⟨⟨hmono.mailOrder, hmono.fileOrder, ?_, hmono.file, hmono.counts⟩, hthere⟩
    intro x hended hreleased hx
    by_cases hxg : x = g
    · exact hxg ▸ hthere
    · exact h.mail x hended hreleased fun hG => hx (Finset.mem_erase.2 ⟨hxg, hG⟩)
  · split at hrun
    next horder =>
      cases hrun
      have hhas : ∀ x, (v.write { mails := .put ⟨g, o, receivedAt⟩, shared := {o} }).hasMail x =
          (decide (x = g) || v.hasMail x) := by
        intro x
        rw [hasMail_write, Writes.keys_put]
        by_cases hx : x = g
        · simp [hx, Writes.put, Writes.putAll, RowTable.isSome_find?, RowTable.single]
        · simp [hx]
      refine ⟨h.writeMails hcovered (Finset.subset_insert o O) (by simp)
        ⟨rfl, rfl, rfl, rfl, rfl⟩ ?_ ?_, by simp [hhas]⟩
      · simpa using horder
      · intro x hended hreleased _ hx
        rw [hhas, Bool.or_eq_true, decide_eq_true_eq]
        by_cases hxg : x = g
        · exact Or.inl hxg
        · exact Or.inr (h.mail x hended hreleased fun hG => hx (Finset.mem_erase.2 ⟨hxg, hG⟩))
    · cases hrun

theorem Owing.moveMails (h : Owing O G v) (hne : o ≠ t) (hrun : runMoveMails v v o t = some c) :
    Owing (insert o (insert t O)) G (v.write c) ∧ (v.write c).mailsOf o = ∅ ∧
      (v.write c).filesOf o = v.filesOf o := by
  have hcovered := covered_runMoveMails hrun
  rw [runMoveMails] at hrun
  split at hrun
  next hnone =>
    cases hrun
    rw [write_nothing]
    refine ⟨h.mono ?_ subset_rfl, ?_, rfl⟩
    · exact (Finset.subset_insert t O).trans (Finset.subset_insert o _)
    · refine Finset.eq_empty_of_forall_notMem fun m hm => ?_
      obtain ⟨hrow, ho⟩ := mem_mailsOf.1 hm
      have hmoved := RowTable.mem_filter (t := v.mails)
        (p := fun m => m.orderId = o ∧ m.gate ∈ v.gatesOf o) |>.2
          ⟨hrow, ho, mem_gatesOf.2 ⟨m, hrow, ho, rfl⟩⟩
      rw [hnone] at hmoved
      exact Finset.notMem_empty m hmoved
  · split at hrun
    next ht =>
      cases hrun
      refine ⟨h.writeMails hcovered ?_ ?_ ⟨rfl, rfl, rfl, rfl, rfl⟩ ?_ ?_, ?_, ?_⟩
      · exact (Finset.subset_insert t O).trans (Finset.subset_insert o _)
      · intro x hx
        simp only [wholeOrder, Finset.mem_union, Finset.mem_singleton, Finset.mem_image] at hx
        obtain hx | (hx | ⟨_, _, hx⟩) | ⟨_, _, hx⟩ := hx <;> cases hx <;> simp
      · intro m hm
        rw [Writes.rows_putAll] at hm
        obtain ⟨m', -, rfl⟩ := RowTable.mem_rewrite.1 hm
        exact ht
      · intro x hended hreleased _ hdebt
        rw [hasMail_write]
        split
        next hk =>
          rw [Writes.keys_putAll] at hk
          exact RowTable.isSome_find?.2 (RowTable.mem_keys.1 hk)
        · exact h.mail x hended hreleased hdebt
      · refine Finset.eq_empty_of_forall_notMem fun m hm => ?_
        obtain ⟨hrow, ho⟩ := mem_mailsOf.1 hm
        obtain hnew | ⟨hold, hkey⟩ := RowTable.mem_view_putAll.1 hrow
        · obtain ⟨m', -, rfl⟩ := RowTable.mem_rewrite.1 hnew
          exact hne ho.symm
        · rw [RowTable.keys_rewrite] at hkey
          refine hkey (RowTable.key_mem_keys (RowTable.mem_filter.2 ⟨hold, ho, ?_⟩))
          exact mem_gatesOf.2 ⟨m, hold, ho, rfl⟩
      · exact congrArg (fun files => files.rows.filter fun f => f.orderId = some o)
          (RowTable.view_none v.files)
    · cases hrun

/-- After the files moved the source has none, and the counters of both orders are owing. -/
theorem Owing.moveFiles (h : Owing O G v) (hne : o ≠ t) (hrun : runMoveFiles v v o t = some c) :
    Owing (insert o (insert t O)) G (v.write c) ∧ (v.write c).filesOf o = ∅ ∧
      (v.write c).mailsOf o = v.mailsOf o := by
  have hcovered := covered_runMoveFiles hrun
  rw [runMoveFiles] at hrun
  split at hrun
  next hnone =>
    cases hrun
    rw [write_nothing]
    refine ⟨h.mono ?_ subset_rfl, ?_, rfl⟩
    · exact (Finset.subset_insert t O).trans (Finset.subset_insert o _)
    · refine Finset.eq_empty_of_forall_notMem fun r hr => ?_
      obtain ⟨hrow, ho⟩ := mem_filesOf.1 hr
      have hmoved := RowTable.mem_filter (t := v.files)
        (p := fun r => r.orderId = some o ∧ r.id ∈ v.fileIdsOf o) |>.2
          ⟨hrow, ho, mem_fileIdsOf.2 ⟨r, hrow, ho, rfl⟩⟩
      rw [hnone] at hmoved
      exact Finset.notMem_empty r hmoved
  · split at hrun
    next ht =>
      cases hrun
      refine ⟨h.writeFiles hcovered ?_ ?_ ⟨rfl, rfl, rfl, rfl⟩ ?_ ?_, ?_, ?_⟩
      · exact (Finset.subset_insert t O).trans (Finset.subset_insert o _)
      · intro x hx
        simp only [wholeOrder, Finset.mem_union, Finset.mem_singleton, Finset.mem_image] at hx
        obtain hx | (hx | ⟨_, _, hx⟩) | ⟨_, _, hx⟩ := hx <;> cases hx <;> simp
      · intro r hr x hx
        rw [Writes.rows_putAll] at hr
        obtain ⟨r', -, rfl⟩ := RowTable.mem_rewrite.1 hr
        cases hx
        exact ht
      · intro f hplaced hremoved
        simp only [Finset.union_empty] at hplaced hremoved
        obtain ⟨r, hr, rfl, hsome⟩ := h.file f hplaced hremoved
        by_cases hmoved : r.orderId = some o ∧ r.id ∈ v.fileIdsOf o
        · refine ⟨{ r with orderId := some t }, RowTable.mem_view_putAll.2 (Or.inl ?_), rfl, rfl⟩
          exact RowTable.mem_rewrite.2 ⟨r, RowTable.mem_filter.2 ⟨hr, hmoved⟩, rfl⟩
        · refine ⟨r, RowTable.mem_view_putAll.2 (Or.inr ⟨hr, fun hk => hmoved ?_⟩), rfl, hsome⟩
          rw [RowTable.keys_rewrite, RowTable.mem_keys] at hk
          obtain ⟨r', hr', hkey⟩ := hk
          obtain ⟨hrow, hwhich⟩ := RowTable.mem_filter.1 hr'
          rw [← v.files.unique r' hrow r hr hkey]
          exact hwhich
      · refine Finset.eq_empty_of_forall_notMem fun r hr => ?_
        obtain ⟨hrow, ho⟩ := mem_filesOf.1 hr
        obtain hnew | ⟨hold, hkey⟩ := RowTable.mem_view_putAll.1 hrow
        · obtain ⟨r', -, rfl⟩ := RowTable.mem_rewrite.1 hnew
          exact hne (Option.some.inj ho).symm
        · rw [RowTable.keys_rewrite] at hkey
          refine hkey (RowTable.key_mem_keys (RowTable.mem_filter.2 ⟨hold, ho, ?_⟩))
          exact mem_fileIdsOf.2 ⟨r, hold, ho, rfl⟩
      · exact congrArg (fun mails => mails.rows.filter fun m => m.orderId = o)
          (RowTable.view_none v.mails)
    · cases hrun

/-- A removed order owes nothing more. -/
theorem Owing.removeOrder (h : Owing O G v) :
    Owing (O.erase o) G (v.write (runRemoveOrder v v o)) := by
  have hcounts := h.counts_write (covered_runRemoveOrder (v := v) (o := o))
    (Finset.subset_insert o O) (by
      intro x hx
      simp only [wholeOrder, Finset.mem_union, Finset.mem_singleton, Finset.mem_image] at hx
      obtain (hx | ⟨_, _, hx⟩) | ⟨_, _, hx⟩ := hx <;> cases hx
      exact Finset.mem_insert_self o O)
  rw [runRemoveOrder] at hcounts ⊢
  split at hcounts
  next ho =>
    rw [if_pos ho]
    have hhas : ∀ {x}, v.hasOrder x = true → x ≠ o → (v.write
        { orders := .delete {o}, mails := .delete (v.gatesOf o), files := .delete (v.fileIdsOf o),
          released := v.gatesOf o, removed := v.fileIdsOf o }).hasOrder x = true := by
      intro x hx hne
      obtain ⟨r, hr, rfl⟩ := hasOrder_iff.1 hx
      exact hasOrder_iff.2 ⟨r, RowTable.mem_view_delete.2 ⟨hr, by simpa using hne⟩, rfl⟩
    refine ⟨?_, ?_, ?_, ?_, ?_⟩
    · intro m hm
      obtain ⟨hrow, hkey⟩ := RowTable.mem_view_delete.1 hm
      refine hhas (h.mailOrder m hrow) ?_
      rintro rfl
      exact hkey (mem_gatesOf.2 ⟨m, hrow, rfl, rfl⟩)
    · intro f hf x hx
      obtain ⟨hrow, hkey⟩ := RowTable.mem_view_delete.1 hf
      refine hhas (h.fileOrder f hrow x hx) ?_
      rintro rfl
      exact hkey (mem_fileIdsOf.2 ⟨f, hrow, hx, rfl⟩)
    · intro g hended hreleased hdebt
      simp only [Db.write, Finset.union_empty, Finset.mem_union, not_or] at hended hreleased
      obtain ⟨m, hm, rfl⟩ := hasMail_iff.1 (h.mail g hended hreleased.1 hdebt)
      exact hasMail_iff.2 ⟨m, RowTable.mem_view_delete.2 ⟨hm, hreleased.2⟩, rfl⟩
    · intro f hplaced hremoved
      simp only [Db.write, Finset.union_empty, Finset.mem_union, not_or] at hplaced hremoved
      obtain ⟨r, hr, rfl, hsome⟩ := h.file f hplaced hremoved.1
      exact ⟨r, RowTable.mem_view_delete.2 ⟨hr, hremoved.2⟩, rfl, hsome⟩
    · intro r hr hO
      have hro : r.id ≠ o := by simpa using (RowTable.mem_view_delete.1 hr).2
      refine hcounts r hr fun hmem => hO (Finset.mem_erase.2 ⟨hro, ?_⟩)
      exact (Finset.mem_insert.1 hmem).resolve_left hro
  next ho =>
    rw [if_neg ho, write_nothing]
    refine ⟨h.mailOrder, h.fileOrder, h.mail, h.file, fun r hr hO => h.counts r hr fun hmem => ?_⟩
    refine hO (Finset.mem_erase.2 ⟨?_, hmem⟩)
    rintro rfl
    simp [hasOrder_iff.2 ⟨r, hr, rfl⟩] at ho

theorem Owing.deleteOrder (h : Owing O G v) (hm : v.mailsOf o = ∅) (hf : v.filesOf o = ∅) :
    Owing (O.erase o) G (v.write (runDeleteOrder v v o)) := by
  have hsame : runDeleteOrder v v o = runRemoveOrder v v o := by
    simp [runRemoveOrder, runDeleteOrder, Db.gatesOf, Db.fileIdsOf, hm, hf]
  rw [hsame]
  exact h.removeOrder

theorem Owing.deleteMail {moveTo : Option Uuid} (h : Owing O G v)
    (hrun : runDeleteMail v v o g moveTo = some c) :
    Owing (insert o O) (if moveTo = none then G else insert g G) (v.write c) := by
  have hcovered := covered_runDeleteMail hrun
  rw [runDeleteMail] at hrun
  split at hrun
  · cases hrun
    refine h.writeMails hcovered (Finset.subset_insert o O) (by simp)
      ⟨rfl, rfl, rfl, rfl, rfl⟩ (by simp) ?_
    intro x hended hreleased hgone hdebt
    have hx : x ≠ g ∧ x ∉ G := by
      split at hdebt
      next hnone => exact ⟨by simpa [hnone] using hgone, hdebt⟩
      · simpa using hdebt
    obtain ⟨m, hm, rfl⟩ := hasMail_iff.1 (h.mail x hended hreleased hx.2)
    exact hasMail_iff.2 ⟨m, RowTable.mem_view_delete.2 ⟨hm, by simpa using hx.1⟩, rfl⟩
  · cases hrun

theorem Owing.deleteFile (h : Owing O G v) (hrun : runDeleteFile v v o f = some c) :
    Owing (insert o O) G (v.write c) := by
  have hcovered := covered_runDeleteFile hrun
  rw [runDeleteFile] at hrun
  split at hrun
  · cases hrun
    refine h.writeFiles hcovered (Finset.subset_insert o O) (by simp)
      ⟨rfl, rfl, rfl, rfl⟩ (by simp) ?_
    intro x hplaced hremoved
    simp only [Finset.union_empty, Finset.mem_union, Finset.mem_singleton, not_or]
      at hplaced hremoved
    obtain ⟨r, hr, rfl, hsome⟩ := h.file x hplaced hremoved.1
    exact ⟨r, RowTable.mem_view_delete.2 ⟨hr, by simpa using hremoved.2⟩, rfl, hsome⟩
  · cases hrun

theorem Owing.deleteMails (h : Owing O G v) :
    Owing (v.ordersOf a ∪ O) G (v.write (runDeleteMails v v a)) := by
  refine h.writeMails covered_runDeleteMails Finset.subset_union_right ?_
    ⟨rfl, rfl, rfl, rfl, rfl⟩ (by simp [runDeleteMails]) ?_
  · intro x hx
    simp only [Finset.mem_union, Finset.mem_singleton, Finset.mem_image] at hx
    obtain hx | ⟨y, hy, hx⟩ := hx <;> cases hx
    exact Finset.mem_union_left O hy
  · intro x hended hreleased hgone hdebt
    obtain ⟨m, hm, rfl⟩ := hasMail_iff.1 (h.mail x hended hreleased hdebt)
    exact hasMail_iff.2 ⟨m, RowTable.mem_view_delete.2 ⟨hm, hgone⟩, rfl⟩

theorem Owing.placeFile (h : Owing O G v) (hfrom : ∀ x ∈ v.orderOfFile f, x = o)
    (hrun : runPlaceFile v o f = some c) : Owing (insert o O) G (v.write c) := by
  have hcovered := covered_runPlaceFile hrun
  rw [runPlaceFile] at hrun
  split at hrun
  · cases hrun
  next r hr =>
    obtain ⟨hmem, rfl⟩ := RowTable.find?_eq_some_iff.1 hr
    split at hrun
    next ho =>
      cases hrun
      refine h.writeFiles hcovered (Finset.subset_insert o O) ?_ ⟨rfl, rfl, rfl, rfl⟩ ?_ ?_
      · intro x hx
        simp only [uses, Finset.mem_union, Finset.mem_insert, Finset.mem_singleton,
          Finset.mem_image, Option.mem_toFinset] at hx
        obtain (hx | hx) | ⟨y, hy, hx⟩ := hx <;> cases hx
        · exact Finset.mem_insert_self o O
        · rw [hfrom _ hy]
          exact Finset.mem_insert_self o O
      · intro r' hr' x hx
        rw [Writes.rows_put, Finset.mem_singleton] at hr'
        rw [hr'] at hx
        cases hx
        exact ho
      · intro x hplaced hremoved
        rw [Finset.union_empty] at hremoved
        obtain hplaced | hplaced := Finset.mem_union.1 hplaced
        · obtain ⟨r', hr', rfl, hsome⟩ := h.file x hplaced hremoved
          by_cases hid : r'.id = r.id
          · exact ⟨_, RowTable.mem_view_put.2 (Or.inl rfl), hid.symm, rfl⟩
          · exact ⟨r', RowTable.mem_view_put.2 (Or.inr ⟨hr', hid⟩), rfl, hsome⟩
        · rw [Finset.mem_singleton] at hplaced
          exact ⟨_, RowTable.mem_view_put.2 (Or.inl rfl), hplaced.symm, rfl⟩
    · cases hrun

theorem Owing.createFile {joined : Option Uuid} {createdAt : ℤ} (h : Owing O G v)
    (hrun : runCreateFile v f joined createdAt = some c) : Owing O G (v.write c) := by
  have hcovered := covered_runCreateFile hrun
  rw [runCreateFile] at hrun
  split at hrun
  next hfresh =>
    obtain ⟨hfresh, horder⟩ := hfresh
    cases hrun
    have hall : Owing (joined.toFinset ∪ O) G (v.write
        { files := .put ⟨f, joined, createdAt, false⟩, placed := if joined = none then ∅ else {f},
          shared := joined.toFinset }) := by
      refine h.writeFiles hcovered Finset.subset_union_right ?_ ⟨rfl, rfl, rfl, rfl⟩ ?_ ?_
      · intro x hx
        simp only [Finset.mem_union, Finset.mem_singleton, Finset.mem_image] at hx
        obtain hx | ⟨y, hy, hx⟩ := hx <;> cases hx
        exact Finset.mem_union_left O hy
      · intro r hr x hx
        rw [Writes.rows_put, Finset.mem_singleton] at hr
        rw [hr] at hx
        have hjoined : joined = some x := hx
        rw [hjoined] at horder
        exact horder
      · intro x hplaced hremoved
        rw [Finset.union_empty] at hremoved
        obtain hplaced | hplaced := Finset.mem_union.1 hplaced
        · obtain ⟨r, hr, rfl, hsome⟩ := h.file x hplaced hremoved
          refine ⟨r, RowTable.mem_view_put.2 (Or.inr ⟨hr, ?_⟩), rfl, hsome⟩
          rw [Option.isNone_iff_eq_none, RowTable.find?_eq_none_iff] at hfresh
          exact hfresh r hr
        · split at hplaced
          · cases hplaced
          next hjoined =>
            rw [Finset.mem_singleton] at hplaced
            exact ⟨_, RowTable.mem_view_put.2 (Or.inl rfl), hplaced.symm,
              Option.isSome_iff_ne_none.2 hjoined⟩
    refine ⟨hall.mailOrder, hall.fileOrder, hall.mail, hall.file, ?_⟩
    intro r hr hO hattached
    refine hall.counts r hr (fun hmem => ?_) hattached
    obtain hmem | hmem := Finset.mem_union.1 hmem
    · have hwaiting := hattached ⟨f, joined, createdAt, false⟩ (mem_filesOf.2
        ⟨RowTable.mem_view_put.2 (Or.inl rfl), Option.mem_toFinset.1 hmem⟩)
      cases hwaiting
    · exact hO hmem
  · cases hrun

theorem Owing.recompute (h : Owing O G v) :
    Owing (O.erase o) G (v.write (runRecompute v v o)) := by
  rw [runRecompute, Bool.and_self]
  split
  · exact h.putOrder (r := ⟨o, v.aggregates o⟩) rfl
  next ho =>
    rw [write_nothing]
    refine ⟨h.mailOrder, h.fileOrder, h.mail, h.file, fun r hr hO => h.counts r hr fun hmem => ?_⟩
    exact hO (Finset.mem_erase.2 ⟨fun hro => ho (hasOrder_iff.2 ⟨r, hr, hro⟩), hmem⟩)

theorem sameRows_recompute : SameRows v (v.write (runRecompute v v o)) := by
  rw [runRecompute]
  split
  · exact sameRows_write rfl rfl
  · rw [write_nothing]
    exact ⟨rfl, rfl⟩

theorem aggregates_recompute :
    ∀ r ∈ (v.write (runRecompute v v o)).orders.rows, r.id = o → r.aggregates = v.aggregates o := by
  rw [runRecompute, Bool.and_self]
  split
  · intro r hr hro
    obtain rfl | ⟨-, hne⟩ := RowTable.mem_view_put.1 hr
    · rfl
    · exact absurd hro hne
  next ho =>
    rw [write_nothing]
    exact fun r hr hro => absurd (hasOrder_iff.2 ⟨r, hr, hro⟩) ho

theorem Owing.endMail (h : Owing O G v) (hthere : v.hasMail g = true) :
    Owing O G (v.write { ended := {g} }) := by
  have hsame : SameRows v (v.write { ended := {g} }) := sameRows_write rfl rfl
  have horders : (v.write { ended := {g} }).orders = v.orders := RowTable.view_none _
  have hhas : ∀ x, (v.write { ended := {g} }).hasOrder x = v.hasOrder x := fun x => by
    rw [Db.hasOrder, Db.hasOrder, horders]
  refine ⟨?_, ?_, ?_, ?_, ?_⟩
  · simpa [hsame.mails, hhas] using h.mailOrder
  · simpa [hsame.files, hhas] using h.fileOrder
  · intro x hended hreleased hdebt
    rw [hsame.hasMail]
    obtain hended | hended := Finset.mem_union.1 hended
    · exact h.mail x hended (fun hr => hreleased (Finset.mem_union_left _ hr)) hdebt
    · rw [Finset.mem_singleton.1 hended]
      exact hthere
  · simpa [Db.write] using h.file
  · intro r hr hO hattached
    rw [horders] at hr
    rw [hsame.filesOf] at hattached
    rw [hsame.aggregates]
    exact h.counts r hr hO hattached

end Statements

/-! ## Programs -/

@[simp] theorem engine_write (v : Db) (c : Delta) : engine.write v c = v.write c := rfl

section Programs

variable {o t f : Uuid} {g : Gate} {a : ℕ} {P Q R : Db → Prop} {rest : List Stmt}

theorem triple_touch (h : discipline.Triple P rest Q) :
    discipline.Triple P (.touch o :: rest) Q := by
  refine Engine.Discipline.Triple.step (fun v c more hv hst => ?_) h
  obtain ⟨rfl | rfl, rfl⟩ := hst
  · exact ⟨rfl, by simpa using hv⟩
  · exact ⟨rfl, by simpa using hv⟩

theorem triple_recompute (hR : ∀ v v', SameRows v v' → R v → R v')
    (h : discipline.Triple (fun v => Owing (O.erase o) G v ∧ R v) rest Q) :
    discipline.Triple (fun v => Owing O G v ∧ R v) (.recompute o :: rest) Q := by
  refine Engine.Discipline.Triple.step (fun v c more hv hst => ?_) h
  cases hst
  exact ⟨rfl, hv.1.recompute, hR _ _ sameRows_recompute hv.2⟩

theorem triple_endMail :
    discipline.Triple (fun v => Kept v ∧ v.hasMail g = true) [.endMail g] Kept := by
  refine Engine.Discipline.Triple.step (fun v c more hv hst => ?_) (.nil fun v hv => hv)
  cases hst
  exact ⟨rfl, hv.1.endMail hv.2⟩

theorem triple_createOrder {R : Db → Prop} (hR : ∀ v v', SameRows v v' → R v → R v')
    (h : discipline.Triple (fun v => Kept v ∧ R v) rest Q) :
    discipline.Triple (fun v => Kept v ∧ R v) (.createOrder o :: rest) Q := by
  refine Engine.Discipline.Triple.step (fun v c more hv hst => ?_) h
  change run v v (.createOrder o) = some (c, more) at hst
  simp only [run] at hst
  split at hst
  · cases hst
  next ho =>
    cases hst
    exact ⟨rfl, hv.1.createOrder (by simpa using ho), hR _ _ (sameRows_write rfl rfl) hv.2⟩

theorem triple_attachTo {receivedAt : ℤ} :
    discipline.Triple Kept (attachTo o g receivedAt) Kept := by
  refine Engine.Discipline.Triple.step (R := fun v => Owing {o} ∅ v ∧ v.hasMail g = true)
    (fun v c more hv hst => ?_) ?_
  · obtain ⟨c', hrun, hst⟩ := Option.map_eq_some_iff.1 hst
    cases hst
    exact ⟨rfl, hv.attachMail hrun⟩
  · refine triple_touch (triple_recompute (fun v v' hsame hv => ?_) ?_)
    · rw [hsame.hasMail]
      exact hv
    · rw [Finset.erase_singleton]
      exact triple_endMail

theorem kept_mailJob {receivedAt : ℤ} {target : Target} :
    discipline.Triple Kept (program (.mailJob g receivedAt target)) Kept := by
  refine Engine.Discipline.Triple.cons fun v c more hv hst => ?_
  cases hst
  rw [List.append_nil]
  rw [engine_write, write_nothing, runCheckMail.eq_def]
  split
  next hthere => exact triple_endMail.weaken (by rintro _ rfl; exact ⟨hv, hthere⟩)
  · cases target with
    | none => exact .nil (by rintro _ rfl; exact hv)
    | new o =>
      have hattach : discipline.Triple (fun v => Kept v ∧ True)
          (attachTo o g receivedAt) Kept := triple_attachTo.weaken fun v hv => hv.1
      exact (triple_createOrder (fun _ _ _ h => h) hattach).weaken
        (by rintro _ rfl; exact ⟨hv, trivial⟩)
    | existing o => exact triple_attachTo.weaken (by rintro _ rfl; exact hv)

theorem triple_findOrder :
    discipline.Triple (fun v => Kept v ∧ ∀ x ∈ v.orderOfFile f, x = o) [.findOrder o f] Kept := by
  refine Engine.Discipline.Triple.cons fun v c more hv hst => ?_
  cases hst
  rw [List.append_nil]
  rw [engine_write, write_nothing]
  split
  · refine Engine.Discipline.Triple.step (R := fun v => Owing {o} ∅ v ∧ True)
      (fun v' c more hv' hst => ?_) ?_
    · subst hv'
      obtain ⟨c', hrun, hst⟩ := Option.map_eq_some_iff.1 hst
      cases hst
      exact ⟨rfl, hv.1.placeFile hv.2 hrun, trivial⟩
    · refine triple_touch (triple_recompute (fun _ _ _ h => h) (.nil fun v hv => ?_))
      rw [Finset.erase_singleton] at hv
      exact hv.1
  · exact .nil (by rintro _ rfl; exact hv.1)

theorem kept_fileJob {target : Target} :
    discipline.Triple Kept (program (.fileJob f target)) Kept := by
  refine Engine.Discipline.Triple.cons fun v c more hv hst => ?_
  obtain ⟨todo, hrun, hst⟩ := Option.map_eq_some_iff.1 hst
  cases hst
  rw [List.append_nil]
  have hplaced : ∀ o, v.orderOfFile f = some o →
      discipline.Triple (fun x => x = v) [.findOrder o f] Kept := fun o ho =>
    triple_findOrder.weaken (by rintro _ rfl; exact ⟨hv, fun x hx => Option.some.inj (hx ▸ ho)⟩)
  rw [engine_write, write_nothing]
  rw [runReadFile.eq_def] at hrun
  split at hrun
  · cases hrun
    exact .nil (by rintro _ rfl; exact hv)
  · cases hrun
    exact .nil (by rintro _ rfl; exact hv)
  next o createdAt hrow =>
    cases hrun
    exact hplaced o (by rw [Db.orderOfFile, hrow]; rfl)
  next createdAt hrow =>
    have hnone : ∀ x o, x ∈ v.orderOfFile f → x = o := by
      intro x o hx
      rw [Db.orderOfFile, hrow] at hx
      cases hx
    cases target with
    | none => cases hrun
    | new o =>
      cases hrun
      refine (triple_createOrder (R := fun v => ∀ x ∈ v.orderOfFile f, x = o) ?_
        triple_findOrder).weaken (by rintro _ rfl; exact ⟨hv, fun x hx => hnone x o hx⟩)
      intro v v' hsame hv
      rw [Db.orderOfFile, hsame.files]
      exact hv
    | existing o =>
      cases hrun
      exact triple_findOrder.weaken (by rintro _ rfl; exact ⟨hv, fun x hx => hnone x o hx⟩)

theorem kept_writeJob : discipline.Triple Kept (program (.writeJob o)) Kept :=
  triple_touch (.nil fun _ hv => hv)

theorem triple_requireOrder (h : discipline.Triple P rest Q) :
    discipline.Triple P (.requireOrder o :: rest) Q := by
  refine Engine.Discipline.Triple.step (fun v c more hv hst => ?_) h
  change run v v (.requireOrder o) = some (c, more) at hst
  simp only [run] at hst
  split at hst
  · cases hst
    rw [engine_write, write_nothing]
    exact ⟨rfl, hv⟩
  · cases hst

theorem kept_mergeOrder : discipline.Triple Kept (program (.mergeOrder o t)) Kept := by
  rw [program]
  split
  · exact .nil fun _ hv => hv
  next hne =>
    refine triple_requireOrder (triple_requireOrder ?_)
    refine Engine.Discipline.Triple.step (R := fun v => Owing {o, t} ∅ v ∧ v.mailsOf o = ∅)
      (fun v c more hv hst => ?_) ?_
    · obtain ⟨c', hrun, hst⟩ := Option.map_eq_some_iff.1 hst
      cases hst
      obtain ⟨howing, hmails, -⟩ := hv.moveMails hne hrun
      exact ⟨rfl, howing, hmails⟩
    refine Engine.Discipline.Triple.step
      (R := fun v => Owing {o, t} ∅ v ∧ v.mailsOf o = ∅ ∧ v.filesOf o = ∅)
      (fun v c more hv hst => ?_) ?_
    · obtain ⟨c', hrun, hst⟩ := Option.map_eq_some_iff.1 hst
      cases hst
      obtain ⟨howing, hfiles, hmails⟩ := hv.1.moveFiles hne hrun
      refine ⟨rfl, howing.mono (by simp) subset_rfl, hmails.trans hv.2, hfiles⟩
    refine Engine.Discipline.Triple.step (R := fun v => Owing {t} ∅ v ∧ True)
      (fun v c more hv hst => ?_) ?_
    · obtain ⟨howing, hmails, hfiles⟩ := hv
      cases hst
      refine ⟨rfl, (howing.deleteOrder hmails hfiles).mono ?_ subset_rfl, trivial⟩
      rw [Finset.erase_insert_eq_erase]
      exact Finset.erase_subset o {t}
    · refine triple_recompute (fun _ _ _ h => h) (triple_touch (.nil fun v hv => ?_))
      rw [Finset.erase_singleton] at hv
      exact hv.1

theorem triple_settle (h : discipline.Triple (Owing (O.erase o) G) rest Q) :
    discipline.Triple (Owing O G) (.settle o :: rest) Q := by
  refine Engine.Discipline.Triple.cons fun v c more hv hst => ?_
  cases hst
  have hpaid := hv.recompute (o := o)
  rw [engine_write]
  split
  · refine Engine.Discipline.Triple.cons fun v' c more hv' hst => ?_
    subst hv'
    cases hst
    rw [engine_write, write_nothing, runDeleteIfEmpty]
    split
    · exact h.weaken (by rintro _ rfl; exact hpaid)
    next r hr =>
      obtain ⟨hmem, hro⟩ := RowTable.find?_eq_some_iff.1 hr
      split
      next hzero =>
        rw [aggregates_recompute r hmem hro] at hzero
        have hmails : (v.write (runRecompute v v o)).mailsOf o = ∅ := by
          rw [sameRows_recompute.mailsOf]
          exact Finset.card_eq_zero.1 hzero.1
        have hfiles : (v.write (runRecompute v v o)).filesOf o = ∅ := by
          rw [sameRows_recompute.filesOf]
          exact Finset.card_eq_zero.1 hzero.2
        refine Engine.Discipline.Triple.step (R := Owing (O.erase o) G)
          (fun v' c more hv' hst => ?_) h
        subst hv'
        cases hst
        exact ⟨rfl, (hpaid.deleteOrder hmails hfiles).mono (Finset.erase_subset _ _) subset_rfl⟩
      · exact h.weaken (by rintro _ rfl; exact hpaid)
  · exact triple_touch (h.weaken (by rintro _ rfl; exact hpaid))

theorem triple_settle_last : discipline.Triple (Owing {o} ∅) [.settle o] Kept := by
  refine triple_settle (.nil fun v hv => ?_)
  rw [Finset.erase_singleton] at hv
  exact hv

theorem kept_detachMail {moveTo : Option Uuid} :
    discipline.Triple Kept (program (.detachMail o g moveTo)) Kept := by
  refine Engine.Discipline.Triple.cons fun v c more hv hst => ?_
  obtain ⟨todo, hrun, hst⟩ := Option.map_eq_some_iff.1 hst
  cases hst
  rw [List.append_nil, engine_write, write_nothing]
  rw [runReadMail] at hrun
  split at hrun
  · cases hrun
  · split at hrun
    · cases hrun
      cases moveTo with
      | none =>
        refine Engine.Discipline.Triple.step (R := Owing {o} ∅) ?_ triple_settle_last
        rintro _ c more rfl hstep
        obtain ⟨c', hdelete, hstep⟩ := Option.map_eq_some_iff.1 hstep
        cases hstep
        exact ⟨rfl, hv.deleteMail hdelete⟩
      | some t =>
        refine triple_requireOrder ?_
        refine Engine.Discipline.Triple.step (R := Owing {o} {g}) ?_ ?_
        · rintro _ c more rfl hstep
          obtain ⟨c', hdelete, hstep⟩ := Option.map_eq_some_iff.1 hstep
          cases hstep
          exact ⟨rfl, hv.deleteMail hdelete⟩
        refine Engine.Discipline.Triple.step (R := fun v => Owing {t, o} ∅ v ∧ True) ?_ ?_
        · intro v' c more hv' hstep
          obtain ⟨c', hattach, hstep⟩ := Option.map_eq_some_iff.1 hstep
          cases hstep
          have hattached := (hv'.attachMail hattach).1
          rw [Finset.erase_singleton] at hattached
          exact ⟨rfl, hattached, trivial⟩
        refine triple_recompute (fun _ _ _ h => h) (triple_touch ?_)
        refine triple_settle_last.weaken fun v hv => hv.1.mono ?_ subset_rfl
        rw [Finset.erase_insert_eq_erase]
        exact Finset.erase_subset t {o}
    · cases hrun

theorem kept_deleteFile : discipline.Triple Kept (program (.deleteFile o f)) Kept := by
  refine Engine.Discipline.Triple.cons fun v c more hv hst => ?_
  obtain ⟨c', hrun, hst⟩ := Option.map_eq_some_iff.1 hst
  cases hst
  exact triple_settle_last.weaken (by rintro _ rfl; exact hv.deleteFile hrun)

theorem kept_deleteOrder : discipline.Triple Kept (program (.deleteOrder o)) Kept := by
  refine Engine.Discipline.Triple.step (fun v c more hv hst => ?_) (.nil fun v hv => hv)
  cases hst
  exact ⟨rfl, hv.removeOrder.mono (Finset.erase_subset o ∅) subset_rfl⟩

theorem triple_settle_all (os : List Uuid) (hO : O ⊆ os.toFinset) :
    discipline.Triple (Owing O ∅) (os.map Stmt.settle) Kept := by
  induction os generalizing O with
  | nil => exact .nil fun v hv => hv.mono hO subset_rfl
  | cons o os ih =>
    refine triple_settle (ih fun x hx => ?_)
    obtain ⟨hne, hx⟩ := Finset.mem_erase.1 hx
    have hmem := hO hx
    rw [List.toFinset_cons] at hmem
    exact (Finset.mem_insert.1 hmem).resolve_left hne

theorem kept_deleteAccount {orders : List Uuid} :
    discipline.Triple Kept (program (.deleteAccount a orders)) Kept := by
  refine Engine.Discipline.Triple.cons fun v c more hv hst => ?_
  obtain ⟨todo, hrun, hst⟩ := Option.map_eq_some_iff.1 hst
  cases hst
  rw [List.append_nil, engine_write, write_nothing]
  rw [runFindOrders] at hrun
  split at hrun
  next horders =>
    cases hrun
    refine Engine.Discipline.Triple.step (R := Owing (v.ordersOf a ∪ ∅) ∅) ?_ ?_
    · rintro _ c more rfl hstep
      cases hstep
      exact ⟨rfl, hv.deleteMails⟩
    · refine triple_settle_all orders ?_
      rw [horders.2, Finset.union_empty]
  · cases hrun

theorem kept_upload {joined : Option Uuid} {createdAt : ℤ} :
    discipline.Triple Kept (program (.upload f joined createdAt)) Kept := by
  have hcreate : discipline.Triple Kept [.createFile f joined createdAt] Kept := by
    refine Engine.Discipline.Triple.step (fun v c more hv hst => ?_) (.nil fun v hv => hv)
    obtain ⟨c', hrun, hst⟩ := Option.map_eq_some_iff.1 hst
    cases hst
    exact ⟨rfl, hv.createFile hrun⟩
  cases joined with
  | none => exact hcreate
  | some o => exact triple_requireOrder hcreate

/-- **Run alone, every transaction leaves the register as it has to be.** -/
theorem kept_program (k : Kind) : discipline.Triple Kept (engine.program k) Kept := by
  cases k with
  | mailJob g receivedAt target => exact kept_mailJob
  | fileJob f target => exact kept_fileJob
  | writeJob o => exact kept_writeJob
  | mergeOrder source target => exact kept_mergeOrder
  | detachMail o g moveTo => exact kept_detachMail
  | deleteFile o f => exact kept_deleteFile
  | deleteOrder o => exact kept_deleteOrder
  | deleteAccount a orders => exact kept_deleteAccount
  | upload f o createdAt => exact kept_upload

end Programs

end MailVerdict.Analysis.OrderHousekeeping
