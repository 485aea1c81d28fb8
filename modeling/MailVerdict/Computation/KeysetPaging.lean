import MailVerdict.Computation.SqlQuery

/-!
# Paging by a cursor

A listing is the rows of a query in strict order of a key (`InOrder`). The rows after a cursor
are the ones of greater key, so they are what is left of the listing behind the cursor's row
(`filter_after`), and those before it are what is left in front (`filter_before`). A reader asks
for a page, is told the cursor of the next one, and goes on until there is none (`follow`). If
each page is the next part of what is still to come, the pages make up all of it
(`follow_eq`).
-/

namespace MailVerdict.Computation.KeysetPaging

open MailVerdict.Computation

universe u v w

variable {R : Type u} {K : Type v} {C : Type w}

/-! ## Listings -/

section Listing

variable [LinearOrder K] {key : R → K}

def InOrder (key : R → K) (l : List R) : Prop := l.Pairwise fun a b => key a < key b

variable {l m : List R}

theorem InOrder.nodup (h : InOrder key l) : l.Nodup := h.imp fun hlt heq => (heq ▸ hlt).false

theorem InOrder.eq_of_key (h : InOrder key l) {a b : R} (ha : a ∈ l) (hb : b ∈ l)
    (heq : key a = key b) : a = b :=
  have hkeys : (l.map key).Nodup := List.pairwise_map.2 (h.imp ne_of_lt)
  List.inj_on_of_nodup_map hkeys ha hb heq

theorem InOrder.eq_of_mem_iff (hl : InOrder key l) (hm : InOrder key m)
    (h : ∀ r, r ∈ l ↔ r ∈ m) : l = m := by
  have hperm : l.Perm m := (List.perm_ext_iff_of_nodup hl.nodup hm.nodup).2 h
  exact hperm.eq_of_pairwise (fun a b _ _ hab hba => absurd hab hba.asymm) hl hm

theorem inOrder_insertionSort {le : R → R → Prop} [DecidableRel le]
    (hle : ∀ a b, le a b ↔ key a ≤ key b) {rows : List R} (hdistinct : (rows.map key).Nodup) :
    InOrder key (rows.insertionSort le) := by
  have htotal : Std.Total le := ⟨fun a b => by
    rw [hle, hle]
    exact le_total _ _⟩
  have htrans : IsTrans R le := ⟨fun a b c hab hbc => by
    rw [hle] at *
    exact hab.trans hbc⟩
  have hsorted := List.pairwise_insertionSort le rows
  have hnodup : ((rows.insertionSort le).map key).Nodup :=
    ((List.perm_insertionSort le rows).map key).nodup_iff.2 hdistinct
  have hne : (rows.insertionSort le).Pairwise fun a b => key a ≠ key b := List.pairwise_map.1 hnodup
  exact (hsorted.and hne).imp fun ⟨hab, hab'⟩ => lt_of_le_of_ne ((hle _ _).1 hab) hab'

theorem insertionSort_swap {ge : R → R → Prop} [DecidableRel ge]
    (hge : ∀ a b, ge a b ↔ key b ≤ key a) {rows : List R} (hl : InOrder key l)
    (hmem : ∀ r, r ∈ l ↔ r ∈ rows) (hdistinct : (rows.map key).Nodup) :
    rows.insertionSort ge = l.reverse := by
  have hdual : InOrder (fun r => OrderDual.toDual (key r)) (rows.insertionSort ge) :=
    inOrder_insertionSort hge hdistinct
  refine hdual.eq_of_mem_iff ?_ fun r => ?_
  · exact List.pairwise_reverse.2 hl
  · rw [List.mem_insertionSort, List.mem_reverse, hmem]

theorem select_and {terms : List (R → R → Ordering)}
    (hle : ∀ a b, SqlQuery.sortsBefore terms a b ↔ key a ≤ key b) (p q : R → Bool)
    (rows : List R) :
    SqlQuery.select (fun r => p r && q r) terms rows = (SqlQuery.select p terms rows).filter q := by
  have htotal : Std.Total (SqlQuery.sortsBefore terms) := ⟨fun a b => by
    rw [hle, hle]
    exact le_total _ _⟩
  have htrans : IsTrans R (SqlQuery.sortsBefore terms) := ⟨fun a b c hab hbc => by
    rw [hle] at *
    exact hab.trans hbc⟩
  have hfilter : rows.filter (fun r => p r && q r) = (rows.filter p).filter q := by
    rw [List.filter_filter]
    exact List.filter_congr fun r _ => Bool.and_comm _ _
  rw [SqlQuery.select, SqlQuery.select, hfilter]
  exact (SortedQueue.filter_insertionSort q (rows.filter p)).symm

theorem inOrder_select {terms : List (R → R → Ordering)}
    (hle : ∀ a b, SqlQuery.sortsBefore terms a b ↔ key a ≤ key b) (p : R → Bool) {rows : List R}
    (hdistinct : (rows.map key).Nodup) : InOrder key (SqlQuery.select p terms rows) :=
  inOrder_insertionSort hle (hdistinct.sublist (List.filter_sublist.map key))

theorem mem_select {terms : List (R → R → Ordering)} {p : R → Bool} {rows : List R} {r : R} :
    r ∈ SqlQuery.select p terms rows ↔ r ∈ rows ∧ p r = true := by
  rw [SqlQuery.select, List.mem_insertionSort, List.mem_filter]

variable {pre post : List R} {c : R}

theorem filter_after (h : InOrder key (pre ++ c :: post)) :
    (pre ++ c :: post).filter (fun r => decide (key c < key r)) = post := by
  obtain ⟨-, hpost, hacross⟩ := List.pairwise_append.1 h
  obtain ⟨hafter, -⟩ := List.pairwise_cons.1 hpost
  rw [List.filter_append, List.filter_cons, if_neg (by simp), List.filter_eq_nil_iff.2,
    List.nil_append, List.filter_eq_self.2]
  · intro r hr
    exact decide_eq_true (hafter r hr)
  · intro r hr
    simpa using (hacross r hr c List.mem_cons_self).le

theorem filter_before (h : InOrder key (pre ++ c :: post)) :
    (pre ++ c :: post).filter (fun r => decide (key r < key c)) = pre := by
  obtain ⟨-, hpost, hacross⟩ := List.pairwise_append.1 h
  obtain ⟨hafter, -⟩ := List.pairwise_cons.1 hpost
  rw [List.filter_append, List.filter_cons, if_neg (by simp), List.filter_eq_self.2,
    List.filter_eq_nil_iff.2, List.append_nil]
  · intro r hr
    simpa using (hafter r hr).le
  · intro r hr
    exact decide_eq_true (hacross r hr c List.mem_cons_self)

theorem select_after {terms : List (R → R → Ordering)}
    (hle : ∀ a b, SqlQuery.sortsBefore terms a b ↔ key a ≤ key b) {p past : R → Bool}
    {rows : List R} (hdistinct : (rows.map key).Nodup)
    (hpast : ∀ r, past r = decide (key c < key r))
    (hsplit : SqlQuery.select p terms rows = pre ++ c :: post) :
    SqlQuery.select (fun r => p r && past r) terms rows = post := by
  have horder := inOrder_select hle p hdistinct
  rw [select_and hle, funext hpast, hsplit]
  rw [hsplit] at horder
  exact filter_after horder

end Listing

/-! ## Following cursors -/

/-- A page of at most `limit` of the rows found, and the cursor of the next where more were. -/
def cut (limit : ℕ) (i : R → C) (found : List R) : List R × Option C :=
  (found.take limit, if limit < found.length then (found.take limit).getLast?.map i else none)

/-- What a reader has in the end who asks for a page, then for the one its cursor names, and puts
each to what it has. None where a page was refused or `fuel` pages were not all. -/
def follow (join : List R → List R → List R) (fetch : Option C → Option (List R × Option C)) :
    ℕ → Option C → Option (List R)
  | 0, _ => none
  | fuel + 1, c =>
    (fetch c).bind fun page =>
      match page.2 with
      | none => some page.1
      | some next => (follow join fetch fuel (some next)).map (join page.1)

/-- **The rule of paging.** What is still to come at a cursor is the page fetched there and what is
still to come at the next cursor, or there is no next cursor and it is the page alone. -/
theorem follow_eq {join : List R → List R → List R}
    {fetch : Option C → Option (List R × Option C)} (ToCome : Option C → List R → Prop)
    (hfetch : ∀ c l, ToCome c l →
      fetch c = some (l, none) ∨
      ∃ page rest next, fetch c = some (page, some next) ∧ l = join page rest ∧
        ToCome (some next) rest ∧ rest.length < l.length)
    {fuel : ℕ} {c : Option C} {l : List R} (h : ToCome c l) (hfuel : l.length < fuel) :
    follow join fetch fuel c = some l := by
  induction fuel generalizing c l with
  | zero => omega
  | succ fuel ih =>
    rw [follow]
    obtain hall | ⟨page, rest, next, hpage, rfl, hrest, hlt⟩ := hfetch c l h
    · rw [hall]
      rfl
    · rw [hpage, Option.bind_some]
      dsimp only
      rw [ih hrest (by omega), Option.map_some]

theorem follow_reverse {fetch : Option C → Option (List R × Option C)} {fuel : ℕ} {c : Option C}
    {l : List R} (h : follow (fun page rest => page ++ rest) fetch fuel c = some l) :
    follow (fun page rest => rest ++ page)
      (fun c => (fetch c).map fun page => (page.1.reverse, page.2)) fuel c = some l.reverse := by
  induction fuel generalizing c l with
  | zero => cases h
  | succ fuel ih =>
    rw [follow] at h ⊢
    obtain ⟨⟨page, next⟩, hpage, h⟩ := Option.bind_eq_some_iff.1 h
    rw [hpage, Option.map_some, Option.bind_some]
    cases next with
    | none =>
      cases h
      rfl
    | some next =>
      obtain ⟨rest, hrest, rfl⟩ := Option.map_eq_some_iff.1 h
      dsimp only
      rw [ih hrest, Option.map_some, List.reverse_append]

theorem cut_take {limit : ℕ} (hlimit : 1 ≤ limit) (i : R → C) (l : List R) :
    cut limit i (l.take (limit + 1)) = (l, none) ∨
    ∃ init r rest, cut limit i (l.take (limit + 1)) = (init ++ [r], some (i r)) ∧
      l = init ++ r :: rest := by
  have htake : (l.take (limit + 1)).take limit = l.take limit := by
    rw [List.take_take, Nat.min_eq_left (Nat.le_succ limit)]
  have hlength : (l.take (limit + 1)).length = min (limit + 1) l.length := List.length_take
  by_cases hmore : limit < l.length
  · obtain ⟨init, r, hinit⟩ : ∃ init r, l.take limit = init ++ [r] := by
      have hne : l.take limit ≠ [] := by
        intro hnil
        have hzero := congrArg List.length hnil
        rw [List.length_take, List.length_nil] at hzero
        omega
      exact ⟨_, _, (List.dropLast_append_getLast hne).symm⟩
    refine Or.inr ⟨init, r, l.drop limit, ?_, ?_⟩
    · rw [cut, htake, if_pos (by omega), hinit, List.getLast?_concat]
      rfl
    · calc l = l.take limit ++ l.drop limit := (List.take_append_drop limit l).symm
        _ = init ++ r :: l.drop limit := by rw [hinit, List.append_assoc, List.singleton_append]
  · refine Or.inl ?_
    rw [cut, htake, if_neg (by omega), List.take_of_length_le (Nat.le_of_not_lt hmore)]

/-- **Pages of a listing make up the listing.** Each page holds the first rows behind its
cursor's. -/
theorem follow_listing {l : List R} {limit : ℕ} (hlimit : 1 ≤ limit) {i : R → C}
    {fetch : Option C → Option (List R × Option C)}
    (hcursor : ∀ pre r post, l = pre ++ r :: post →
      fetch (some (i r)) = some (cut limit i (post.take (limit + 1))))
    {fuel : ℕ} (hfuel : l.length < fuel) {pre post : List R} {r : R}
    (hsplit : l = pre ++ r :: post) :
    follow (fun page rest => page ++ rest) fetch fuel (some (i r)) = some post := by
  refine follow_eq (fun c rest => ∃ pre r, c = some (i r) ∧ l = pre ++ r :: rest)
    (fun c rest hrest => ?_) ⟨pre, r, rfl, hsplit⟩ ?_
  · obtain ⟨pre, r, rfl, hsplit⟩ := hrest
    rw [hcursor pre r rest hsplit]
    obtain hall | ⟨init, last, rest', hcut, rfl⟩ := cut_take hlimit i rest
    · exact Or.inl (congrArg some hall)
    · refine Or.inr ⟨init ++ [last], rest', i last, congrArg some hcut, ?_, ?_, ?_⟩
      · rw [List.append_assoc, List.singleton_append]
      · exact ⟨pre ++ r :: init, last, rfl, by rw [hsplit, List.append_assoc, List.cons_append]⟩
      · rw [List.length_append, List.length_cons]
        omega
  · have hlength := congrArg List.length hsplit
    rw [List.length_append, List.length_cons] at hlength
    omega

theorem follow_whole {l : List R} {limit : ℕ} (hlimit : 1 ≤ limit) {i : R → C}
    {fetch : Option C → Option (List R × Option C)}
    (hfirst : fetch none = some (cut limit i (l.take (limit + 1))))
    (hcursor : ∀ pre r post, l = pre ++ r :: post →
      fetch (some (i r)) = some (cut limit i (post.take (limit + 1))))
    {fuel : ℕ} (hfuel : l.length < fuel) :
    follow (fun page rest => page ++ rest) fetch (fuel + 1) none = some l := by
  rw [follow, hfirst, Option.bind_some]
  obtain hall | ⟨init, last, rest, hcut, hl⟩ := cut_take hlimit i l
  · rw [hall]
  · rw [hcut]
    dsimp only
    rw [follow_listing hlimit hcursor hfuel hl, Option.map_some, hl, List.append_assoc,
      List.singleton_append]

/-! ## A query page by page -/

/-- The page at a cursor, which is looked up first. -/
def fetchAt (find : C → Option R) (page : Option R → List R × Option C) :
    Option C → Option (List R × Option C)
  | none => some (page none)
  | some c => (find c).map fun r => page (some r)

def queryPage (p : R → Bool) (past : R → R → Bool) (terms : List (R → R → Ordering))
    (rows : List R) (limit : ℕ) (i : R → C) (cursor : Option R) : List R × Option C :=
  cut limit i ((SqlQuery.select (fun r => p r && cursor.all fun c => past c r) terms rows).take
    (limit + 1))

/-- **The pages of a query make up its rows**, each once and in order. -/
theorem follow_query [LinearOrder K] {key : R → K} {terms : List (R → R → Ordering)}
    (hle : ∀ a b, SqlQuery.sortsBefore terms a b ↔ key a ≤ key b) {p : R → Bool}
    {past : R → R → Bool} (hpast : ∀ c r, past c r = decide (key c < key r)) {rows : List R}
    (hdistinct : (rows.map key).Nodup) {find : C → Option R} {i : R → C}
    (hfind : ∀ r ∈ rows, find (i r) = some r) {limit : ℕ} (hlimit : 1 ≤ limit) {fuel : ℕ}
    (hfuel : rows.length + 1 < fuel) :
    follow (fun page rest => page ++ rest)
      (fetchAt find (queryPage p past terms rows limit i)) fuel none =
      some (SqlQuery.select p terms rows) := by
  have hlength : (SqlQuery.select p terms rows).length ≤ rows.length := by
    rw [SqlQuery.select, List.length_insertionSort]
    exact List.length_filter_le _ _
  obtain ⟨fuel, rfl⟩ : ∃ n, fuel = n + 1 := ⟨fuel - 1, by omega⟩
  refine follow_whole (i := i) hlimit ?_ (fun pre r post hsplit => ?_) (by omega)
  · rw [fetchAt, queryPage]
    simp only [Option.all_none, Bool.and_true]
  · have hr : r ∈ rows := (mem_select.1 (hsplit ▸ List.mem_append_right _ List.mem_cons_self)).1
    rw [fetchAt, hfind r hr, Option.map_some, queryPage]
    simp only [Option.all_some]
    rw [select_after hle hdistinct (fun x => hpast r x) hsplit]

end MailVerdict.Computation.KeysetPaging
