import MailVerdict.Model.OrderHousekeeping

/-!
# The parts of the orders register

What a statement of the orders register reads is in the parts it uses: the row of an order
with the mails and files that are in it, whether a mail is in any order, the mails of an
account, the row of a file (`Follows`). What it writes is in them too (`Covered`). So the
statements obey a discipline: two transactions whose uses do not clash do not see each
other (`discipline`).
-/

namespace MailVerdict.Analysis.OrderHousekeeping

open MailVerdict.Computation
open Model.OrderHousekeeping

variable {d d' v : Db} {c : Delta}

structure SameOrder (o : Uuid) (d d' : Db) : Prop where
  row : d.orders.find? o = d'.orders.find? o
  mails : d.mailsOf o = d'.mailsOf o
  files : d.filesOf o = d'.filesOf o

def Follows : Use → Db → Db → Prop
  | .order o, d, d' => SameOrder o d d'
  | .gate g, d, d' => d.hasMail g = d'.hasMail g
  | .account a, d, d' => d.mailsBy a = d'.mailsBy a
  | .file f, d, d' => d.files.find? f = d'.files.find? f

theorem Follows.refl (u : Use) (d : Db) : Follows u d d := by
  cases u with
  | order o => exact ⟨rfl, rfl, rfl⟩
  | gate g => exact rfl
  | account a => exact rfl
  | file f => exact rfl

theorem Follows.trans {u : Use} {d'' : Db} (h : Follows u d d') (h' : Follows u d' d'') :
    Follows u d d'' := by
  cases u with
  | order o => exact ⟨h.row.trans h'.row, h.mails.trans h'.mails, h.files.trans h'.files⟩
  | gate g => exact Eq.trans h h'
  | account a => exact Eq.trans h h'
  | file f => exact Eq.trans h h'

/-! ## What a part tells -/

namespace SameOrder

variable {o : Uuid}

theorem hasOrder (h : SameOrder o d d') : d.hasOrder o = d'.hasOrder o := by
  rw [Db.hasOrder, Db.hasOrder, h.row]

theorem aggregates (h : SameOrder o d d') : d.aggregates o = d'.aggregates o := by
  rw [Db.aggregates, Db.aggregates, h.mails, h.files]

theorem gatesOf (h : SameOrder o d d') : d.gatesOf o = d'.gatesOf o := by
  rw [Db.gatesOf, Db.gatesOf, h.mails]

theorem fileIdsOf (h : SameOrder o d d') : d.fileIdsOf o = d'.fileIdsOf o := by
  rw [Db.fileIdsOf, Db.fileIdsOf, h.files]

theorem wholeOrder (h : SameOrder o d d') :
    Model.OrderHousekeeping.wholeOrder d o = Model.OrderHousekeeping.wholeOrder d' o := by
  rw [Model.OrderHousekeeping.wholeOrder, Model.OrderHousekeeping.wholeOrder, h.gatesOf,
    h.fileIdsOf]

end SameOrder

theorem mem_mailsOf {o : Uuid} {m : OrderMail} :
    m ∈ d.mailsOf o ↔ m ∈ d.mails.rows ∧ m.orderId = o := Finset.mem_filter

theorem mem_filesOf {o : Uuid} {f : OrderFile} :
    f ∈ d.filesOf o ↔ f ∈ d.files.rows ∧ f.orderId = some o := Finset.mem_filter

theorem mem_mailsBy {a : ℕ} {m : OrderMail} :
    m ∈ d.mailsBy a ↔ m ∈ d.mails.rows ∧ m.gate.1 = a := Finset.mem_filter

theorem mem_gatesOf {o : Uuid} {g : Gate} :
    g ∈ d.gatesOf o ↔ ∃ m ∈ d.mails.rows, m.orderId = o ∧ m.gate = g := by
  simp only [Db.gatesOf, Finset.mem_image, mem_mailsOf, and_assoc]

theorem mem_fileIdsOf {o f : Uuid} :
    f ∈ d.fileIdsOf o ↔ ∃ r ∈ d.files.rows, r.orderId = some o ∧ r.id = f := by
  simp only [Db.fileIdsOf, Finset.mem_image, mem_filesOf, and_assoc]

theorem hasMail_iff {g : Gate} : d.hasMail g = true ↔ ∃ m ∈ d.mails.rows, m.gate = g :=
  RowTable.isSome_find?

theorem hasOrder_iff {o : Uuid} : d.hasOrder o = true ↔ ∃ r ∈ d.orders.rows, r.id = o :=
  RowTable.isSome_find?

/-! ## Writes of one database made in another -/

theorem mailsOf_write (d : Db) (c : Delta) (o : Uuid) : (d.write c).mailsOf o =
    (d.mailsOf o).filter (fun m => m.gate ∉ c.mails.keys) ∪
      c.mails.rows.rows.filter fun m => m.orderId = o :=
  RowTable.filter_rows_view _

theorem filesOf_write (d : Db) (c : Delta) (o : Uuid) : (d.write c).filesOf o =
    (d.filesOf o).filter (fun f => f.id ∉ c.files.keys) ∪
      c.files.rows.rows.filter fun f => f.orderId = some o :=
  RowTable.filter_rows_view _

theorem mailsBy_write (d : Db) (c : Delta) (a : ℕ) : (d.write c).mailsBy a =
    (d.mailsBy a).filter (fun m => m.gate ∉ c.mails.keys) ∪
      c.mails.rows.rows.filter fun m => m.gate.1 = a :=
  RowTable.filter_rows_view _

theorem hasMail_write (d : Db) (c : Delta) (g : Gate) : (d.write c).hasMail g =
    if g ∈ c.mails.keys then (c.mails.rows.find? g).isSome else d.hasMail g := by
  rw [Db.hasMail, Db.write, RowTable.find?_view]
  split <;> rfl

theorem find?_orders_write (d : Db) (c : Delta) (o : Uuid) : (d.write c).orders.find? o =
    if o ∈ c.orders.keys then c.orders.rows.find? o else d.orders.find? o :=
  RowTable.find?_view

theorem find?_files_write (d : Db) (c : Delta) (f : Uuid) : (d.write c).files.find? f =
    if f ∈ c.files.keys then c.files.rows.find? f else d.files.find? f :=
  RowTable.find?_view

theorem Follows.write {u : Use} (h : Follows u d d') (c : Delta) :
    Follows u (d.write c) (d'.write c) := by
  cases u with
  | order o =>
    refine ⟨?_, ?_, ?_⟩
    · rw [find?_orders_write, find?_orders_write, h.row]
    · rw [mailsOf_write, mailsOf_write, h.mails]
    · rw [filesOf_write, filesOf_write, h.files]
  | gate g =>
    have hgate : d.hasMail g = d'.hasMail g := h
    change (d.write c).hasMail g = (d'.write c).hasMail g
    rw [hasMail_write, hasMail_write, hgate]
  | account a =>
    have haccount : d.mailsBy a = d'.mailsBy a := h
    change (d.write c).mailsBy a = (d'.write c).mailsBy a
    rw [mailsBy_write, mailsBy_write, haccount]
  | file f =>
    have hfile : d.files.find? f = d'.files.find? f := h
    change (d.write c).files.find? f = (d'.write c).files.find? f
    rw [find?_files_write, find?_files_write, hfile]

/-! ## What is written is in the parts that are used -/

/-- All that a statement writes of the register is in the parts `U`: the rows it puts and
those they replace. -/
structure Covered (U : Finset Use) (v : Db) (c : Delta) : Prop where
  orders : ∀ o ∈ c.orders.keys, .order o ∈ U
  gates : ∀ g ∈ c.mails.keys, .gate g ∈ U ∨ .account g.1 ∈ U
  oldMails : ∀ m ∈ v.mails.rows, m.gate ∈ c.mails.keys → .order m.orderId ∈ U
  newMails : ∀ m ∈ c.mails.rows.rows, .order m.orderId ∈ U
  files : ∀ f ∈ c.files.keys, .file f ∈ U
  oldFiles : ∀ f ∈ v.files.rows, f.id ∈ c.files.keys → ∀ o, f.orderId = some o → .order o ∈ U
  newFiles : ∀ f ∈ c.files.rows.rows, ∀ o, f.orderId = some o → .order o ∈ U

theorem clash_self (u : Use) : clash u u = true := by
  cases u <;> simp [clash]

theorem clash_symm (u u' : Use) : clash u u' = clash u' u := by
  cases u <;> cases u' <;> simp [clash, eq_comm]

section Covered

variable {U : Finset Use}

theorem filter_union_eq {R : Type} [DecidableEq R] {rows new : Finset R} {p q : R → Prop}
    [DecidablePred p] [DecidablePred q] (hold : ∀ r ∈ rows, p r) (hnew : ∀ r ∈ new, ¬ q r) :
    rows.filter p ∪ new.filter q = rows := by
  rw [Finset.filter_true_of_mem hold, Finset.filter_false_of_mem hnew, Finset.union_empty]

theorem Covered.follows (h : Covered U v c) {u : Use}
    (hfree : ∀ u' ∈ U, clash u u' = false) : Follows u v (v.write c) := by
  have hnot : u ∉ U := by
    intro hu
    have hself := hfree u hu
    rw [clash_self] at hself
    cases hself
  cases u with
  | order o =>
    refine ⟨?_, ?_, ?_⟩
    · rw [find?_orders_write, if_neg fun hk => hnot (h.orders o hk)]
    · rw [mailsOf_write]
      refine (filter_union_eq ?_ ?_).symm
      · intro m hm hk
        obtain ⟨hrow, rfl⟩ := mem_mailsOf.1 hm
        exact hnot (h.oldMails m hrow hk)
      · rintro m hm rfl
        exact hnot (h.newMails m hm)
    · rw [filesOf_write]
      refine (filter_union_eq ?_ ?_).symm
      · intro f hf hk
        obtain ⟨hrow, ho⟩ := mem_filesOf.1 hf
        exact hnot (h.oldFiles f hrow hk o ho)
      · intro f hf ho
        exact hnot (h.newFiles f hf o ho)
  | gate g =>
    change v.hasMail g = (v.write c).hasMail g
    rw [hasMail_write, if_neg]
    intro hk
    obtain hgate | haccount := h.gates g hk
    · exact hnot hgate
    · simpa [clash] using hfree _ haccount
  | account a =>
    -- A mail of the account that is written clashes with the account.
    have hkey : ∀ g ∈ c.mails.keys, g.1 ≠ a := by
      rintro g hk rfl
      obtain hgate | haccount := h.gates g hk
      · simpa [clash] using hfree _ hgate
      · exact hnot haccount
    change v.mailsBy a = (v.write c).mailsBy a
    rw [mailsBy_write]
    refine (filter_union_eq ?_ ?_).symm
    · intro m hm hk
      exact hkey _ hk (mem_mailsBy.1 hm).2
    · intro m hm ha
      exact hkey _ (Finset.mem_union_right _ (RowTable.key_mem_keys hm)) ha
  | file f =>
    change v.files.find? f = (v.write c).files.find? f
    rw [find?_files_write, if_neg fun hk => hnot (h.files f hk)]

theorem covered_of_none (ho : c.orders = .none) (hm : c.mails = .none) (hf : c.files = .none) :
    Covered U v c := by
  constructor <;> simp [ho, hm, hf]

theorem covered_orders (hm : c.mails = .none) (hf : c.files = .none)
    (ho : ∀ o ∈ c.orders.keys, .order o ∈ U) : Covered U v c where
  orders := ho
  gates := by simp [hm]
  oldMails := by simp [hm]
  newMails := by simp [hm]
  files := by simp [hf]
  oldFiles := by simp [hf]
  newFiles := by simp [hf]

theorem covered_mails (ho : c.orders = .none) (hf : c.files = .none)
    (hg : ∀ g ∈ c.mails.keys, .gate g ∈ U ∨ .account g.1 ∈ U)
    (hold : ∀ m ∈ v.mails.rows, m.gate ∈ c.mails.keys → .order m.orderId ∈ U)
    (hnew : ∀ m ∈ c.mails.rows.rows, .order m.orderId ∈ U) : Covered U v c where
  orders := by simp [ho]
  gates := hg
  oldMails := hold
  newMails := hnew
  files := by simp [hf]
  oldFiles := by simp [hf]
  newFiles := by simp [hf]

theorem covered_files (ho : c.orders = .none) (hm : c.mails = .none)
    (hkey : ∀ f ∈ c.files.keys, .file f ∈ U)
    (hold : ∀ f ∈ v.files.rows, f.id ∈ c.files.keys → ∀ o, f.orderId = some o → .order o ∈ U)
    (hnew : ∀ f ∈ c.files.rows.rows, ∀ o, f.orderId = some o → .order o ∈ U) :
    Covered U v c where
  orders := by simp [ho]
  gates := by simp [hm]
  oldMails := by simp [hm]
  newMails := by simp [hm]
  files := hkey
  oldFiles := hold
  newFiles := hnew

end Covered

/-! ## Statement by statement -/

section Statements

variable {o t f : Uuid} {g : Gate} {a : ℕ}

theorem order_mem_wholeOrder (d : Db) (o : Uuid) : .order o ∈ wholeOrder d o := by
  simp [wholeOrder]

theorem gate_mem_wholeOrder (h : g ∈ d.gatesOf o) : .gate g ∈ wholeOrder d o := by
  simp only [wholeOrder, Finset.mem_union, Finset.mem_image]
  exact Or.inl (Or.inr ⟨g, h, rfl⟩)

theorem file_mem_wholeOrder (h : f ∈ d.fileIdsOf o) : .file f ∈ wholeOrder d o := by
  simp only [wholeOrder, Finset.mem_union, Finset.mem_image]
  exact Or.inr ⟨f, h, rfl⟩

theorem covered_runRecompute (snap : Db) : Covered {.order o} v (runRecompute snap v o) := by
  rw [runRecompute]
  split
  · refine covered_orders rfl rfl ?_
    simp
  · exact covered_of_none rfl rfl rfl

theorem covered_runAttachMail {receivedAt : ℤ} (h : runAttachMail v o g receivedAt = some c) :
    Covered {.order o, .gate g} v c := by
  rw [runAttachMail] at h
  split at h
  · cases h
    exact covered_of_none rfl rfl rfl
  next hnone =>
    split at h
    · cases h
      refine covered_mails rfl rfl ?_ ?_ ?_
      · simp
      · intro m hm hk
        rw [Writes.keys_put, Finset.mem_singleton] at hk
        exact absurd (hasMail_iff.2 ⟨m, hm, hk⟩) hnone
      · simp
    · cases h

theorem covered_runPlaceFile (h : runPlaceFile v o f = some c) :
    Covered (uses v (.placeFile o f)) v c := by
  rw [runPlaceFile] at h
  split at h
  · cases h
  next r hr =>
    obtain ⟨hmem, rfl⟩ := RowTable.find?_eq_some_iff.1 hr
    split at h
    · cases h
      refine covered_files rfl rfl ?_ ?_ ?_
      · simp [uses]
      · intro r' hr' hk o' ho'
        rw [Writes.keys_put, Finset.mem_singleton] at hk
        rw [v.files.unique r' hr' r hmem hk] at ho'
        simp [uses, Db.orderOfFile, hr, ho']
      · simp [uses]
    · cases h

theorem covered_runMoveMails (h : runMoveMails v v o t = some c) :
    Covered ({.order t} ∪ wholeOrder v o) v c := by
  rw [runMoveMails] at h
  split at h
  · cases h
    exact covered_of_none rfl rfl rfl
  · split at h
    · cases h
      refine covered_mails rfl rfl ?_ ?_ ?_
      · intro g hg
        rw [Writes.keys_putAll, RowTable.keys_rewrite, RowTable.mem_keys] at hg
        obtain ⟨m, hm, rfl⟩ := hg
        exact Or.inl (Finset.mem_union_right _
          (gate_mem_wholeOrder (RowTable.mem_filter.1 hm).2.2))
      · intro m hm hk
        rw [Writes.keys_putAll, RowTable.keys_rewrite, RowTable.mem_keys] at hk
        obtain ⟨m', hm', hkey⟩ := hk
        obtain ⟨hrow, hsource, -⟩ := RowTable.mem_filter.1 hm'
        rw [← v.mails.unique m' hrow m hm hkey, hsource]
        exact Finset.mem_union_right _ (order_mem_wholeOrder v o)
      · intro m hm
        rw [Writes.rows_putAll] at hm
        obtain ⟨m', -, rfl⟩ := RowTable.mem_rewrite.1 hm
        exact Finset.mem_union_left _ (Finset.mem_singleton_self _)
    · cases h

theorem covered_runMoveFiles (h : runMoveFiles v v o t = some c) :
    Covered ({.order t} ∪ wholeOrder v o) v c := by
  rw [runMoveFiles] at h
  split at h
  · cases h
    exact covered_of_none rfl rfl rfl
  · split at h
    · cases h
      refine covered_files rfl rfl ?_ ?_ ?_
      · intro f hf
        rw [Writes.keys_putAll, RowTable.keys_rewrite, RowTable.mem_keys] at hf
        obtain ⟨r, hr, rfl⟩ := hf
        exact Finset.mem_union_right _ (file_mem_wholeOrder (RowTable.mem_filter.1 hr).2.2)
      · intro r hr hk o' ho'
        rw [Writes.keys_putAll, RowTable.keys_rewrite, RowTable.mem_keys] at hk
        obtain ⟨r', hr', hkey⟩ := hk
        obtain ⟨hrow, hsource, -⟩ := RowTable.mem_filter.1 hr'
        rw [v.files.unique r' hrow r hr hkey, ho', Option.some.injEq] at hsource
        rw [hsource]
        exact Finset.mem_union_right _ (order_mem_wholeOrder v o)
      · intro r hr o' ho'
        rw [Writes.rows_putAll] at hr
        obtain ⟨r', -, rfl⟩ := RowTable.mem_rewrite.1 hr
        cases ho'
        exact Finset.mem_union_left _ (Finset.mem_singleton_self _)
    · cases h

theorem covered_cascade (ho : c.orders = .delete {o}) (hm : c.mails = .delete (v.gatesOf o))
    (hf : c.files = .delete (v.fileIdsOf o)) : Covered (wholeOrder v o) v c where
  orders := by simp [ho, order_mem_wholeOrder]
  gates g hg := Or.inl (gate_mem_wholeOrder (by simpa [hm] using hg))
  oldMails m hmem hk := by
    rw [hm, Writes.keys_delete, mem_gatesOf] at hk
    obtain ⟨m', hm', rfl, hkey⟩ := hk
    rw [← v.mails.unique m' hm' m hmem hkey]
    exact order_mem_wholeOrder v _
  newMails := by simp [hm]
  files f hmem := file_mem_wholeOrder (by simpa [hf] using hmem)
  oldFiles f hmem hk o' ho' := by
    rw [hf, Writes.keys_delete, mem_fileIdsOf] at hk
    obtain ⟨f', hf', horder, hkey⟩ := hk
    rw [v.files.unique f' hf' f hmem hkey, ho', Option.some.injEq] at horder
    rw [horder]
    exact order_mem_wholeOrder v o
  newFiles := by simp [hf]

theorem covered_runDeleteOrder : Covered (wholeOrder v o) v (runDeleteOrder v v o) := by
  rw [runDeleteOrder]
  split
  · exact covered_cascade rfl rfl rfl
  · exact covered_of_none rfl rfl rfl

theorem covered_runRemoveOrder : Covered (wholeOrder v o) v (runRemoveOrder v v o) := by
  rw [runRemoveOrder]
  split
  · exact covered_cascade rfl rfl rfl
  · exact covered_of_none rfl rfl rfl

theorem covered_runDeleteMail {moveTo : Option Uuid} (h : runDeleteMail v v o g moveTo = some c) :
    Covered {.order o, .gate g} v c := by
  rw [runDeleteMail] at h
  split at h
  next hthere =>
    cases h
    rw [Bool.and_eq_true, decide_eq_true_eq, mem_gatesOf] at hthere
    obtain ⟨-, m, hm, rfl, rfl⟩ := hthere
    refine covered_mails rfl rfl ?_ ?_ ?_
    · simp
    · intro m' hm' hk
      rw [Writes.keys_delete, Finset.mem_singleton] at hk
      rw [v.mails.unique m' hm' m hm hk]
      simp
    · simp
  · cases h

theorem covered_runDeleteFile (h : runDeleteFile v v o f = some c) :
    Covered {.order o, .file f} v c := by
  rw [runDeleteFile] at h
  split at h
  next hthere =>
    cases h
    obtain ⟨r, hr, horder, rfl⟩ := mem_fileIdsOf.1 hthere.1
    refine covered_files rfl rfl ?_ ?_ ?_
    · simp
    · intro r' hr' hk o' ho'
      rw [Writes.keys_delete, Finset.mem_singleton] at hk
      rw [v.files.unique r' hr' r hr hk, horder] at ho'
      simpa using ho'.symm
    · simp
  · cases h

theorem covered_runDeleteMails :
    Covered ({.account a} ∪ (v.ordersOf a).image Use.order) v (runDeleteMails v v a) := by
  rw [runDeleteMails, Finset.inter_self]
  refine covered_mails rfl rfl ?_ ?_ ?_
  · intro g hg
    rw [Writes.keys_delete, Finset.mem_image] at hg
    obtain ⟨m, hm, rfl⟩ := hg
    rw [(mem_mailsBy.1 hm).2]
    exact Or.inr (Finset.mem_union_left _ (Finset.mem_singleton_self _))
  · intro m hm hk
    rw [Writes.keys_delete, Finset.mem_image] at hk
    obtain ⟨m', hm', hkey⟩ := hk
    have hby : m ∈ v.mailsBy a := v.mails.unique m' (mem_mailsBy.1 hm').1 m hm hkey ▸ hm'
    refine Finset.mem_union_right _ (Finset.mem_image.2 ⟨_, ?_, rfl⟩)
    exact Finset.mem_image.2 ⟨m, hby, rfl⟩
  · simp

theorem covered_runCreateFile {joined : Option Uuid} {createdAt : ℤ}
    (h : runCreateFile v f joined createdAt = some c) :
    Covered ({.file f} ∪ joined.toFinset.image Use.order) v c := by
  rw [runCreateFile] at h
  split at h
  next hfresh =>
    cases h
    refine covered_files rfl rfl ?_ ?_ ?_
    · simp
    · intro r hr hk
      rw [Writes.keys_put, Finset.mem_singleton] at hk
      rw [Option.isNone_iff_eq_none, RowTable.find?_eq_none_iff] at hfresh
      exact absurd hk (hfresh.1 r hr)
    · simp
  · cases h

/-- **What a statement writes is in the parts it uses.** -/
theorem covered_run {st : Stmt} {more : List Stmt} (h : run v v st = some (c, more)) :
    Covered (uses v st) v c := by
  have hmap : ∀ {r : Option Delta} {k : Delta → List Stmt}, r.map (fun x => (x, k x)) = some (c, more) →
      r = some c := by
    rintro (_ | x) k hr
    · cases hr
    · cases hr
      rfl
  have hempty : ∀ {r : Option (List Stmt)}, r.map (fun x => (({} : Delta), x)) = some (c, more) →
      c = {} := by
    rintro (_ | x) hr
    · cases hr
    · cases hr
      rfl
  cases st with
  | attachMail o g receivedAt => exact covered_runAttachMail (hmap h)
  | placeFile o f => exact covered_runPlaceFile (hmap h)
  | moveMails source target => exact covered_runMoveMails (hmap h)
  | moveFiles source target => exact covered_runMoveFiles (hmap h)
  | deleteMail o g moveTo => exact covered_runDeleteMail (hmap h)
  | deleteFile o f => exact covered_runDeleteFile (hmap h)
  | createFile f o createdAt => exact covered_runCreateFile (hmap h)
  | readFile f target | readMail o g moveTo
  | findOrders a orders => exact hempty h ▸ covered_of_none rfl rfl rfl
  | recompute o | settle o =>
    cases h
    exact covered_runRecompute v
  | deleteOrder o =>
    cases h
    exact covered_runDeleteOrder
  | removeOrder o =>
    cases h
    exact covered_runRemoveOrder
  | deleteMails a =>
    cases h
    exact covered_runDeleteMails
  | createOrder o =>
    simp only [run] at h
    split at h
    · cases h
    · cases h
      refine covered_orders rfl rfl ?_
      simp [uses, freshOrder]
  | requireOrder o =>
    simp only [run] at h
    split at h
    · cases h
      exact covered_of_none rfl rfl rfl
    · cases h
  | touch o =>
    cases h
    rw [runTouch]
    split <;> exact covered_of_none rfl rfl rfl
  | checkMail g receivedAt target | endMail g | findOrder o f | deleteIfEmpty o =>
    cases h
    exact covered_of_none rfl rfl rfl

/-! ## What is read is in the parts that are used -/

theorem runRecompute_eq (h : SameOrder o d d') (h' : SameOrder o d' v) :
    runRecompute d d' o = runRecompute v v o := by
  rw [runRecompute, runRecompute, h.hasOrder, h.aggregates, h'.hasOrder, h'.aggregates]

theorem remaining_eq (h : SameOrder o d d') (h' : SameOrder o d' v) :
    remaining d d' o = remaining v v o := by
  rw [remaining, remaining, h.hasOrder, h.aggregates, h'.hasOrder, h'.aggregates]

theorem runDeleteOrder_eq (h : SameOrder o d d') (h' : SameOrder o d' v) :
    runDeleteOrder d d' o = runDeleteOrder v v o := by
  rw [runDeleteOrder, runDeleteOrder, h.hasOrder, h'.hasOrder, h'.gatesOf, h'.fileIdsOf]

theorem runMoveMails_eq (h : SameOrder o d d') (h' : SameOrder o d' v)
    (ht : d'.hasOrder t = v.hasOrder t) : runMoveMails d d' o t = runMoveMails v v o t := by
  have hmoved : (d'.mails.filter fun m => m.orderId = o ∧ m.gate ∈ d.gatesOf o) =
      v.mails.filter fun m => m.orderId = o ∧ m.gate ∈ v.gatesOf o := by
    refine RowTable.ext ?_
    change d'.mails.rows.filter _ = v.mails.rows.filter _
    rw [← Finset.filter_filter, ← Finset.filter_filter, h.gatesOf, h'.gatesOf]
    exact congrArg _ h'.mails
  rw [runMoveMails, runMoveMails, hmoved, ht]

theorem runMoveFiles_eq (h : SameOrder o d d') (h' : SameOrder o d' v)
    (ht : d'.hasOrder t = v.hasOrder t) : runMoveFiles d d' o t = runMoveFiles v v o t := by
  have hmoved : (d'.files.filter fun r => r.orderId = some o ∧ r.id ∈ d.fileIdsOf o) =
      v.files.filter fun r => r.orderId = some o ∧ r.id ∈ v.fileIdsOf o := by
    refine RowTable.ext ?_
    change d'.files.rows.filter _ = v.files.rows.filter _
    rw [← Finset.filter_filter, ← Finset.filter_filter, h.fileIdsOf, h'.fileIdsOf]
    exact congrArg _ h'.files
  rw [runMoveFiles, runMoveFiles, hmoved, ht]

theorem runReadMail_eq {moveTo : Option Uuid} (h : SameOrder o d d') :
    runReadMail d o g moveTo = runReadMail d' o g moveTo := by
  have hrow : ∀ {a b : Db} {m : OrderMail}, SameOrder o a b → a.mails.find? g = some m →
      m.orderId = o → b.mails.find? g = some m := by
    intro a b m hab hm ho
    obtain ⟨hmem, hg⟩ := RowTable.find?_eq_some_iff.1 hm
    have hin : m ∈ b.mailsOf o := hab.mails ▸ mem_mailsOf.2 ⟨hmem, ho⟩
    exact RowTable.find?_eq_some_iff.2 ⟨(mem_mailsOf.1 hin).1, hg⟩
  have hback : SameOrder o d' d := ⟨h.row.symm, h.mails.symm, h.files.symm⟩
  rw [runReadMail, runReadMail]
  cases hd : d.mails.find? g with
  | none =>
    cases hd' : d'.mails.find? g with
    | none => rfl
    | some m' =>
      by_cases ho : m'.orderId = o
      · rw [hrow hback hd' ho] at hd
        cases hd
      · simp [ho]
  | some m =>
    by_cases ho : m.orderId = o
    · rw [hrow h hd ho]
    · cases hd' : d'.mails.find? g with
      | none => simp [ho]
      | some m' =>
        by_cases ho' : m'.orderId = o
        · rw [hrow hback hd' ho'] at hd
          cases hd
          exact absurd ho' ho
        · simp [ho, ho']

theorem ordersOf_eq (h : d.mailsBy a = d'.mailsBy a) : d.ordersOf a = d'.ordersOf a := by
  rw [Db.ordersOf, Db.ordersOf, h]

/-- **What a statement does is read off the parts it uses.** A touched row is only locked. -/
theorem run_eq {st : Stmt} (h : ∀ u ∈ uses d st, Follows u d d' ∧ Follows u d' v)
    (htouch : ∀ o, st ≠ .touch o) : run d d' st = run v v st := by
  have horder : ∀ o, .order o ∈ uses d st → SameOrder o d d' ∧ SameOrder o d' v :=
    fun o ho => h _ ho
  have hgate : ∀ g, .gate g ∈ uses d st → d.hasMail g = d'.hasMail g ∧
      d'.hasMail g = v.hasMail g := fun g hg => h _ hg
  have hfile : ∀ f, .file f ∈ uses d st → d.files.find? f = d'.files.find? f ∧
      d'.files.find? f = v.files.find? f := fun f hf => h _ hf
  have haccount : ∀ a, .account a ∈ uses d st → d.mailsBy a = d'.mailsBy a ∧
      d'.mailsBy a = v.mailsBy a := fun a ha => h _ ha
  cases st with
  | checkMail g receivedAt target =>
    obtain ⟨h₁, h₂⟩ := hgate g (by simp [uses])
    simp only [run, runCheckMail, h₁, h₂]
  | createOrder o =>
    simp only [run, (horder o (by simp [uses])).2.hasOrder]
  | attachMail o g receivedAt =>
    simp only [run, runAttachMail, (horder o (by simp [uses])).2.hasOrder,
      (hgate g (by simp [uses])).2]
  | touch o => exact absurd rfl (htouch o)
  | recompute o =>
    obtain ⟨h₁, h₂⟩ := horder o (by simp [uses])
    simp only [run, runRecompute_eq h₁ h₂]
  | endMail g => rfl
  | readFile f target =>
    obtain ⟨h₁, h₂⟩ := hfile f (by simp [uses])
    simp only [run, runReadFile, h₁, h₂]
  | findOrder o f | requireOrder o =>
    obtain ⟨h₁, h₂⟩ := horder o (by simp [uses])
    simp only [run, h₁.hasOrder, h₂.hasOrder]
  | placeFile o f =>
    simp only [run, runPlaceFile, (horder o (by simp [uses])).2.hasOrder,
      (hfile f (by simp [uses])).2]
  | moveMails source target =>
    obtain ⟨h₁, h₂⟩ := horder source
      (Finset.mem_union_right _ (order_mem_wholeOrder d source))
    simp only [run, runMoveMails_eq h₁ h₂ (horder target (by simp [uses])).2.hasOrder]
  | moveFiles source target =>
    obtain ⟨h₁, h₂⟩ := horder source
      (Finset.mem_union_right _ (order_mem_wholeOrder d source))
    simp only [run, runMoveFiles_eq h₁ h₂ (horder target (by simp [uses])).2.hasOrder]
  | deleteOrder o =>
    obtain ⟨h₁, h₂⟩ := horder o (order_mem_wholeOrder d o)
    simp only [run, runDeleteOrder_eq h₁ h₂]
  | readMail o g moveTo =>
    obtain ⟨h₁, h₂⟩ := horder o (by simp [uses])
    simp only [run, runReadMail_eq h₁, runReadMail_eq h₂]
  | deleteMail o g moveTo =>
    obtain ⟨h₁, h₂⟩ := hgate g (by simp [uses])
    simp only [run, runDeleteMail, h₁, h₂, (horder o (by simp [uses])).2.gatesOf]
  | settle o =>
    obtain ⟨h₁, h₂⟩ := horder o (by simp [uses])
    simp only [run, runSettle, runRecompute_eq h₁ h₂, remaining_eq h₁ h₂]
  | deleteIfEmpty o =>
    obtain ⟨h₁, h₂⟩ := horder o (by simp [uses])
    simp only [run, runDeleteIfEmpty, h₁.row, h₂.row]
  | deleteFile o f =>
    obtain ⟨h₁, h₂⟩ := horder o (by simp [uses])
    simp only [run, runDeleteFile, h₁.fileIdsOf, h₂.fileIdsOf]
  | removeOrder o =>
    obtain ⟨h₁, h₂⟩ := horder o (order_mem_wholeOrder d o)
    simp only [run, runRemoveOrder, h₁.hasOrder, h₂.hasOrder, h₂.gatesOf, h₂.fileIdsOf]
  | findOrders a orders =>
    obtain ⟨h₁, h₂⟩ := haccount a (by simp [uses])
    simp only [run, runFindOrders, ordersOf_eq h₁, ordersOf_eq h₂]
  | deleteMails a =>
    obtain ⟨h₁, h₂⟩ := haccount a (by simp [uses])
    simp only [run, runDeleteMails, h₁, h₂]
  | createFile f joined createdAt =>
    have hjoined : joined.all d'.hasOrder = joined.all v.hasOrder := by
      cases joined with
      | none => rfl
      | some o => exact (horder o (by simp [uses])).2.hasOrder
    simp only [run, runCreateFile, (hfile f (by simp [uses])).2, hjoined]

theorem uses_eq {st : Stmt} (h : ∀ u ∈ uses d st, Follows u d d') : uses d' st = uses d st := by
  have hwhole : ∀ o, .order o ∈ uses d st → wholeOrder d' o = wholeOrder d o :=
    fun o ho => (SameOrder.wholeOrder (h (.order o) ho)).symm
  have haccount : ∀ a, .account a ∈ uses d st → d'.ordersOf a = d.ordersOf a :=
    fun a ha => (ordersOf_eq (h (.account a) ha)).symm
  cases st with
  | moveMails source target | moveFiles source target =>
    simp only [uses, hwhole source (Finset.mem_union_right _ (order_mem_wholeOrder d source))]
  | deleteOrder o | removeOrder o => exact hwhole o (order_mem_wholeOrder d o)
  | findOrders a orders | deleteMails a => simp only [uses, haccount a (by simp [uses])]
  | placeFile o f =>
    have hrow : d.files.find? f = d'.files.find? f := h (.file f) (by simp [uses])
    simp only [uses, Db.orderOfFile, hrow]
  | _ => rfl

end Statements

/-! ## The discipline -/

/-- What a statement does to a register that no one else changes. -/
def Alone (v : Db) : Stmt → Delta → List Stmt → Prop
  | .touch o, c, more => (c = {} ∨ c = { touched := {o} }) ∧ more = []
  | st, c, more => run v v st = some (c, more)

theorem alone_of_run {st : Stmt} {more : List Stmt}
    (h : ∀ u ∈ uses d st, Follows u d d' ∧ Follows u d' v)
    (hrun : run d d' st = some (c, more)) : Alone v st c more := by
  cases st with
  | touch o =>
    cases hrun
    refine ⟨?_, rfl⟩
    rw [runTouch]
    split
    · exact Or.inr rfl
    · exact Or.inl rfl
  | _ =>
    rw [run_eq h (fun o => by simp)] at hrun
    exact hrun

theorem covered_alone {st : Stmt} {more : List Stmt} (h : Alone v st c more) :
    Covered (uses v st) v c := by
  cases st with
  | touch o =>
    obtain ⟨rfl | rfl, -⟩ := h <;> exact covered_of_none rfl rfl rfl
  | _ => exact covered_run h

/-- **The statements of the register keep to the parts they use.** -/
def discipline : engine.Discipline clash fun _ _ => true where
  follows := Follows
  spec := Alone
  clash_symm := clash_symm
  refl := Follows.refl
  trans _ _ _ _ h h' := h.trans h'
  follows_write _ _ _ c h := h.write c
  follows_outside _ _ e := e.elim
  uses_of_follows _ _ _ h := uses_eq h
  sound _ _ _ _ _ _ h _ hrun := alone_of_run h hrun
  frame _ _ _ _ _ h hfree := (covered_alone h).follows hfree

end MailVerdict.Analysis.OrderHousekeeping
