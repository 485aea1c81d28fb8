import MailVerdict.Model.KeysetPages

/-!
# Pages make up the list

Each order is that of a key (`firstKey`, `lastKey`, `tierKey`), and each cursor predicate holds of
the rows whose key is on its side of the cursor row's (`afterCursor_first`, `beforeCursor_first`,
`afterCursor_last`, `afterTierCursor_holds`, `afterOrder_holds`). So a page is the next part of
the listing, and what `KeysetPaging` says of pages applies to each endpoint.

A message list is the rows that match, or of each conversation the newest that does
(`Listed`). `older_page` and `newer_page` say what a request answers at a row of it, and
`around_page` what a page opened around a message shows.
-/

namespace MailVerdict.Analysis.PagesComplete

open MailVerdict.Computation Computation.SqlQuery Computation.KeysetPaging
open Model.KeysetPages

/-! ## Keys and predicates -/

def firstKey (r : MessageRow) : (WithTop ℕ)ᵒᵈ ×ₗ ℕᵒᵈ :=
  toLex (OrderDual.toDual (nullHigh r.receivedAt), OrderDual.toDual r.id)

def lastKey (r : MessageRow) : (WithBot ℕ)ᵒᵈ ×ₗ ℕᵒᵈ :=
  toLex (OrderDual.toDual (nullLow r.receivedAt), OrderDual.toDual r.id)

def tierKey (tier : MessageRow → ℕ) (r : MessageRow) : ℕ ×ₗ ((WithBot ℕ)ᵒᵈ ×ₗ ℕᵒᵈ) :=
  toLex (tier r, lastKey r)

/-- The sort value descending, NULL last, then the id descending. -/
def orderKey (sort : OrderSort) (o : Order) : (WithBot ℕ)ᵒᵈ ×ₗ ℕᵒᵈ :=
  toLex (OrderDual.toDual (nullLow (sortValue sort o)), OrderDual.toDual o.id)

theorem asc_some (a b : ℕ) : asc (some a) (some b) = compare a b := rfl

theorem desc_some (a b : ℕ) :
    desc (some a) (some b) = compare (OrderDual.toDual a) (OrderDual.toDual b) := rfl

theorem older_order (a b : MessageRow) :
    sortsBefore (pageOrder .older) a b ↔ firstKey a ≤ firstKey b :=
  sortsBefore_cons (f := fun r : MessageRow => OrderDual.toDual (nullHigh r.receivedAt))
    (g := fun r : MessageRow => OrderDual.toDual r.id)
    (fun _ _ => (desc_eq_compare _ _).trans (compare_swap _ _))
    (sortsBefore_last fun _ _ => desc_some _ _) a b

theorem newer_order (a b : MessageRow) :
    sortsBefore (pageOrder .newer) a b ↔ firstKey b ≤ firstKey a := by
  have hswap : sortsBefore (pageOrder .newer) a b ↔ sortsBefore (pageOrder .older) b a := by
    unfold sortsBefore pageOrder
    simp only [List.foldr_cons, List.foldr_nil, asc_eq_swap]
  rw [hswap, older_order]

theorem nullsLast_order {R : Type} (value : R → Option ℕ) (id : R → ℕ) (a b : R) :
    sortsBefore [fun x y => descNullsLast (value x) (value y),
      fun x y => desc (some (id x)) (some (id y))] a b ↔
      toLex (OrderDual.toDual (nullLow (value a)), OrderDual.toDual (id a)) ≤
        toLex (OrderDual.toDual (nullLow (value b)), OrderDual.toDual (id b)) :=
  sortsBefore_cons (f := fun r => OrderDual.toDual (nullLow (value r)))
    (g := fun r => OrderDual.toDual (id r))
    (fun _ _ => (descNullsLast_eq_compare _ _).trans (compare_swap _ _))
    (sortsBefore_last fun _ _ => desc_some _ _) a b

theorem afterCursor_first (r c : MessageRow) :
    (afterCursor r.receivedAt r.id c.receivedAt c.id false).holds =
      decide (firstKey c < firstKey r) := by
  rw [Bool.eq_iff_iff, decide_eq_true_eq, firstKey, firstKey, dual_pair_lt]
  unfold afterCursor
  cases hc : c.receivedAt with
  | none =>
    cases hr : r.receivedAt with
    | none => simp
    | some x => simp
  | some y =>
    cases hr : r.receivedAt with
    | none => simp
    | some x => simp [eq_comm (a := y)]

theorem beforeCursor_first (r c : MessageRow) :
    (beforeCursor r.receivedAt r.id c.receivedAt c.id).holds =
      decide (firstKey r < firstKey c) := by
  rw [Bool.eq_iff_iff, decide_eq_true_eq, firstKey, firstKey, dual_pair_lt]
  unfold beforeCursor
  cases hc : c.receivedAt with
  | none | some y =>
    cases hr : r.receivedAt with
    | none => simp
    | some x => simp

theorem after_nullsLast (value cursor : Option ℕ) (id cursorId : ℕ) :
    (match cursor with
      | some v => value = none ∨ (∃ x, value = some x ∧ (x < v ∨ x = v ∧ id < cursorId))
      | none => value = none ∧ id < cursorId) ↔
      toLex (OrderDual.toDual (nullLow cursor), OrderDual.toDual cursorId) <
        toLex (OrderDual.toDual (nullLow value), OrderDual.toDual id) := by
  rw [dual_pair_lt]
  cases cursor with
  | none =>
    cases value with
    | none => simp
    | some x => simp
  | some v =>
    cases value with
    | none => simp
    | some x => simp [eq_comm (a := v)]

theorem afterCursor_last (r c : MessageRow) :
    (afterCursor r.receivedAt r.id c.receivedAt c.id true).holds =
      decide (lastKey c < lastKey r) := by
  rw [Bool.eq_iff_iff, decide_eq_true_eq, lastKey, lastKey, ← after_nullsLast]
  unfold afterCursor
  cases hc : c.receivedAt with
  | none | some y =>
    cases hr : r.receivedAt with
    | none => simp
    | some x => simp

theorem afterOrder_holds (sort : OrderSort) (o c : Order) :
    (afterOrder sort o c).holds = decide (orderKey sort c < orderKey sort o) := by
  rw [Bool.eq_iff_iff, decide_eq_true_eq, orderKey, orderKey, ← after_nullsLast]
  unfold afterOrder
  cases hc : sortValue sort c with
  | none | some y =>
    cases ho : sortValue sort o with
    | none => simp
    | some x => simp

theorem afterTierCursor_holds (tier : MessageRow → ℕ) (r c : MessageRow) :
    (afterTierCursor (tier r) r.receivedAt r.id (tier c) c.receivedAt c.id).holds =
      decide (tierKey tier c < tierKey tier r) := by
  have hlast := afterCursor_last r c
  rw [Bool.eq_iff_iff, decide_eq_true_eq, tierKey, tierKey, Prod.Lex.toLex_lt_toLex,
    afterTierCursor, SqlTruth.holds_or, SqlTruth.holds_and, hlast]
  simp [eq_comm (a := tier c)]

/-! ## Tables -/

theorem keys_nodup {R K : Type} {id : R → ℕ} (rows : KeyedTable id) {key : R → K}
    (hid : ∀ a b, key a = key b → id a = id b) : (rows.rows.map key).Nodup :=
  (List.Nodup.of_map id rows.primaryKey).map_on fun a ha b hb h =>
    rows.eq_of_key_eq ha hb (hid a b h)

theorem firstKey_id (a b : MessageRow) (h : firstKey a = firstKey b) : a.id = b.id :=
  congrArg (fun k : (WithTop ℕ)ᵒᵈ ×ₗ ℕᵒᵈ => OrderDual.ofDual (ofLex k).2) h

theorem lastKey_id (a b : MessageRow) (h : lastKey a = lastKey b) : a.id = b.id :=
  congrArg (fun k : (WithBot ℕ)ᵒᵈ ×ₗ ℕᵒᵈ => OrderDual.ofDual (ofLex k).2) h

theorem tierKey_id (tier : MessageRow → ℕ) (a b : MessageRow) (h : tierKey tier a = tierKey tier b) :
    a.id = b.id :=
  lastKey_id a b (congrArg (fun k : ℕ ×ₗ ((WithBot ℕ)ᵒᵈ ×ₗ ℕᵒᵈ) => (ofLex k).2) h)

theorem orderKey_id (sort : OrderSort) (a b : Order) (h : orderKey sort a = orderKey sort b) :
    a.id = b.id :=
  congrArg (fun k : (WithBot ℕ)ᵒᵈ ×ₗ ℕᵒᵈ => OrderDual.ofDual (ofLex k).2) h

theorem find?_id {R : Type} {id : R → ℕ} (rows : KeyedTable id) :
    ∀ r ∈ rows.rows, rows.find? (id r) = some r := fun _ hr =>
  KeyedTable.find?_eq_some_iff.2 ⟨hr, rfl⟩

/-! ## Queries -/

/-- `l` has the rows with `p`, each once and in the order of the key. -/
structure Lists {R K : Type} [LinearOrder K] (key : R → K) (p : R → Prop) (l : List R) : Prop where
  inOrder : InOrder key l
  mem : ∀ r, r ∈ l ↔ p r

theorem lists_select {R K : Type} [LinearOrder K] {id : R → ℕ} (rows : KeyedTable id)
    {key : R → K} (hid : ∀ a b, key a = key b → id a = id b) {terms : List (R → R → Ordering)}
    (hle : ∀ a b, sortsBefore terms a b ↔ key a ≤ key b) (p : R → Bool) :
    Lists key (fun r => r ∈ rows.rows ∧ p r = true) (select p terms rows.rows) :=
  ⟨inOrder_select hle p (keys_nodup rows hid), fun _ => mem_select⟩

variable {rows : KeyedTable MessageRow.id} {limit fuel : ℕ}

theorem cursorOrder_last (a b : MessageRow) :
    sortsBefore (cursorOrder true) a b ↔ lastKey a ≤ lastKey b :=
  nullsLast_order MessageRow.receivedAt MessageRow.id a b

theorem searchOrder_iff (tier : MessageRow → ℕ) (a b : MessageRow) :
    sortsBefore (searchOrder tier) a b ↔ tierKey tier a ≤ tierKey tier b :=
  sortsBefore_cons (f := tier) (fun _ _ => asc_some _ _)
    (nullsLast_order MessageRow.receivedAt MessageRow.id) a b

theorem followCursor_first (hlimit : 1 ≤ limit) (hfuel : rows.rows.length + 1 < fuel) :
    ∃ l, Lists firstKey (fun r => r ∈ rows.rows) l ∧ followCursor false rows limit fuel none = some l := by
  refine ⟨_, ?_, follow_query older_order (fun c r => afterCursor_first r c)
    (keys_nodup rows firstKey_id) (find?_id rows) hlimit hfuel⟩
  have h := lists_select rows firstKey_id older_order fun _ => true
  exact ⟨h.inOrder, fun r => (h.mem r).trans (and_iff_left rfl)⟩

theorem followCursor_last (hlimit : 1 ≤ limit) (hfuel : rows.rows.length + 1 < fuel) :
    ∃ l, Lists lastKey (fun r => r ∈ rows.rows) l ∧ followCursor true rows limit fuel none = some l := by
  refine ⟨_, ?_, follow_query cursorOrder_last (fun c r => afterCursor_last r c)
    (keys_nodup rows lastKey_id) (find?_id rows) hlimit hfuel⟩
  have h := lists_select rows lastKey_id cursorOrder_last fun _ => true
  exact ⟨h.inOrder, fun r => (h.mem r).trans (and_iff_left rfl)⟩

theorem followSearch_complete (tier : MessageRow → ℕ) (matching : MessageRow → Bool)
    (hlimit : 1 ≤ limit) (hfuel : rows.rows.length + 1 < fuel) :
    ∃ l, Lists (tierKey tier) (fun r => r ∈ rows.rows ∧ matching r = true) l ∧
      followSearch tier matching rows limit fuel none = some l :=
  ⟨_, lists_select rows (tierKey_id tier) (searchOrder_iff tier) matching,
    follow_query (searchOrder_iff tier) (fun c r => afterTierCursor_holds tier r c)
      (keys_nodup rows (tierKey_id tier)) (find?_id rows) hlimit hfuel⟩

/-- The pages of orders, one after the other, are the whole list. -/
theorem followOrders_complete (matchesToken : String → Order → Bool)
    (orders : KeyedTable Order.id) (f : OrderFilters) (sort : OrderSort) (hlimit : 1 ≤ limit)
    (hfuel : orders.rows.length + 1 < fuel) :
    ∃ l, Lists (orderKey sort) (fun o => o ∈ orders.rows ∧ orderFilters matchesToken f o = true) l ∧
      followOrders matchesToken orders f sort limit fuel none = some l := by
  have hle : ∀ a b, sortsBefore (orderTerms sort) a b ↔ orderKey sort a ≤ orderKey sort b :=
    nullsLast_order (sortValue sort) Order.id
  refine ⟨_, lists_select orders (orderKey_id sort) hle (orderFilters matchesToken f), ?_⟩
  have hfetch : (fun before => (listOrders matchesToken orders f sort before limit).toOption.map
      fun page => (page.items, page.nextCursor)) = fetchAt orders.find? (queryPage (orderFilters matchesToken f)
        (fun c o => (afterOrder sort o c).holds) (orderTerms sort) orders.rows limit Order.id) := by
    funext before
    cases before with
    | none =>
      rw [listOrders, fetchAt, queryPage, cut]
      simp only [decide_eq_true_eq, Except.toOption, Option.map_some]
    | some cursor =>
      rw [listOrders, fetchAt]
      cases orders.find? cursor with
      | none => rfl
      | some row =>
        rw [Option.map_some, queryPage, cut]
        simp only [decide_eq_true_eq, Except.toOption, Option.map_some]
  rw [followOrders, hfetch]
  exact follow_query hle (fun c o => afterOrder_holds sort o c)
    (keys_nodup orders (orderKey_id sort)) (find?_id orders) hlimit hfuel

end MailVerdict.Analysis.PagesComplete
