import MailVerdict.Analysis.PagesComplete

/-!
# The pages of a message list

A message list has a row for each message that matches, or for each conversation the newest of it
that does (`Listed`). Flat and threaded pages are the same query over those rows (`listPage_eq`).
At a row of the list a page of older rows is the next of what follows it (`older_page`) and a
page of newer ones, turned round, the next of what precedes it (`newer_page`), so following the
cursors either way comes to the end (`followOlder_eq`, `followNewer_eq`). A page around a message
takes some of both (`around_window`).
-/

namespace MailVerdict.Analysis.MessagePages

open MailVerdict.Computation Computation.SqlQuery Computation.KeysetPaging
open Model.KeysetPages Analysis.PagesComplete

variable (e : Entity) (f : ListFilters) (threaded : Bool)

/-- A row of the list: it matches, and in a threaded list no matching row of its conversation is
newer. -/
def Listed (r : MessageRow) : Prop :=
  r ∈ e.rows.rows ∧ listFilters e f r = true ∧
    (threaded = true → ∀ x ∈ e.rows.rows, listFilters e f x = true → x.threadId = r.threadId →
      firstKey r ≤ firstKey x)

def summary (r : MessageRow) : Summary :=
  (r, if threaded then some (threadStats e f r.threadId) else none)

def candidates : List MessageRow :=
  if threaded then latestPerThread e f else e.rows.rows.filter (listFilters e f)

def listing : List Summary :=
  (select (fun _ => true) (pageOrder .older) (candidates e f threaded)).map (summary e f threaded)

variable {e f threaded}

theorem listPage_eq (cursor : Option MessageRow) (limit : ℕ) (paging : Paging) :
    listPage threaded e f cursor limit paging =
      ((select (pastCursor paging cursor) (pageOrder paging) (candidates e f threaded)).take
        (limit + 1)).map (summary e f threaded) := by
  cases threaded with
  | true => rfl
  | false =>
    have hfilter : e.rows.rows.filter (fun r => listFilters e f r && pastCursor paging cursor r) =
        (e.rows.rows.filter (listFilters e f)).filter (pastCursor paging cursor) := by
      rw [List.filter_filter]
      exact List.filter_congr fun r _ => Bool.and_comm _ _
    unfold listPage
    rw [if_neg Bool.false_ne_true, listMessagesFlatPage, select, select, hfilter]
    rfl

/-! ## The rows of the list -/

theorem thread_order (a b : MessageRow) :
    sortsBefore threadOrder a b ↔ toLex (a.threadId, firstKey a) ≤ toLex (b.threadId, firstKey b) :=
  sortsBefore_cons (f := MessageRow.threadId) (fun _ _ => asc_some _ _) older_order a b

theorem mem_latestPerThread {r : MessageRow} : r ∈ latestPerThread e f ↔ Listed e f true r := by
  have horder : InOrder (fun r : MessageRow => toLex (r.threadId, firstKey r))
      (select (listFilters e f) threadOrder e.rows.rows) :=
    inOrder_select thread_order _ (keys_nodup e.rows fun a b h =>
      firstKey_id a b (congrArg (fun k : ℕ ×ₗ ((WithTop ℕ)ᵒᵈ ×ₗ ℕᵒᵈ) => (ofLex k).2) h))
  rw [latestPerThread, mem_distinctOn]
  constructor
  · rintro ⟨before, after, hsplit, hbefore⟩
    have hmem := mem_select.1 (hsplit ▸ List.mem_append_right before List.mem_cons_self)
    refine ⟨hmem.1, hmem.2, fun _ x hx hmatch hthread => ?_⟩
    have hxmem : x ∈ select (listFilters e f) threadOrder e.rows.rows := mem_select.2 ⟨hx, hmatch⟩
    rw [hsplit] at hxmem horder
    obtain hx | hx := List.mem_append.1 hxmem
    · exact absurd hthread (hbefore x hx)
    · obtain rfl | hx := List.mem_cons.1 hx
      · exact le_rfl
      · -- behind it in the order by conversation, so older
        have hlt := (List.pairwise_cons.1 (List.pairwise_append.1 horder).2.1).1 x hx
        rw [Prod.Lex.toLex_lt_toLex] at hlt
        obtain hlt | ⟨-, hlt⟩ := hlt
        · exact absurd hthread hlt.ne'
        · exact hlt.le
  · rintro ⟨hr, hmatch, hnewest⟩
    obtain ⟨before, after, hsplit⟩ := List.append_of_mem (mem_select.2 ⟨hr, hmatch⟩)
    refine ⟨before, after, hsplit, fun x hx hthread => ?_⟩
    have hxmem := mem_select.1 (hsplit ▸ List.mem_append_left (r :: after) hx)
    rw [hsplit] at horder
    have hlt := (List.pairwise_append.1 horder).2.2 x hx r List.mem_cons_self
    rw [Prod.Lex.toLex_lt_toLex] at hlt
    obtain hlt | ⟨-, hlt⟩ := hlt
    · exact absurd hthread hlt.ne
    · exact absurd (hnewest rfl x hxmem.1 hxmem.2 hthread) (not_le.2 hlt)

theorem mem_candidates {r : MessageRow} : r ∈ candidates e f threaded ↔ Listed e f threaded r := by
  cases threaded with
  | true => exact mem_latestPerThread
  | false =>
    rw [candidates, if_neg Bool.false_ne_true, List.mem_filter, Listed]
    simp

theorem candidates_nodup : ((candidates e f threaded).map firstKey).Nodup := by
  have hall := keys_nodup e.rows firstKey_id
  cases threaded with
  | false => exact hall.sublist (List.filter_sublist.map firstKey)
  | true =>
    have hselect := (((List.perm_insertionSort (sortsBefore threadOrder) _).map
      firstKey).nodup_iff).2 (hall.sublist ((List.filter_sublist (p := listFilters e f)).map firstKey))
    exact hselect.sublist ((distinctOn_sublist MessageRow.threadId _).map firstKey)

theorem lists_candidates : Lists firstKey (Listed e f threaded)
    (select (fun _ => true) (pageOrder .older) (candidates e f threaded)) :=
  ⟨inOrder_select older_order _ candidates_nodup, fun _ =>
    mem_select.trans ((and_iff_left rfl).trans mem_candidates)⟩

theorem listing_split {pre post : List Summary} {s : Summary}
    (h : listing e f threaded = pre ++ s :: post) :
    ∃ pre' post', select (fun _ => true) (pageOrder .older) (candidates e f threaded) =
        pre' ++ s.1 :: post' ∧
      pre = pre'.map (summary e f threaded) ∧ s = summary e f threaded s.1 ∧
      post = post'.map (summary e f threaded) := by
  obtain ⟨pre', rest, hsplit, rfl, hrest⟩ := List.map_eq_append_iff.1 h
  obtain ⟨r, post', rfl, rfl, rfl⟩ := List.map_eq_cons_iff.1 hrest
  exact ⟨pre', post', hsplit, rfl, rfl, rfl⟩

theorem listing_length : (listing e f threaded).length ≤ e.rows.rows.length := by
  rw [listing, List.length_map, select, List.length_insertionSort]
  refine (List.length_filter_le _ _).trans ?_
  cases threaded with
  | false => exact List.length_filter_le _ _
  | true =>
    refine (distinctOn_sublist MessageRow.threadId _).length_le.trans ?_
    rw [select, List.length_insertionSort]
    exact List.length_filter_le _ _

/-! ## One page -/

variable {pre post : List Summary} {s : Summary} {limit : ℕ}

theorem first_page : listPage threaded e f none limit .older =
    (listing e f threaded).take (limit + 1) := by
  rw [listPage_eq, listing, List.map_take]
  rfl

theorem older_page (h : listing e f threaded = pre ++ s :: post) :
    listPage threaded e f (some s.1) limit .older = post.take (limit + 1) := by
  obtain ⟨pre', post', hsplit, rfl, -, rfl⟩ := listing_split h
  have hpast : ∀ r, pastCursor .older (some s.1) r = decide (firstKey s.1 < firstKey r) := fun r =>
    afterCursor_first r s.1
  have hselect := select_after older_order candidates_nodup hpast hsplit
  simp only [Bool.true_and] at hselect
  rw [listPage_eq, hselect, List.map_take]

theorem newer_page (h : listing e f threaded = pre ++ s :: post) :
    listPage threaded e f (some s.1) limit .newer = pre.reverse.take (limit + 1) := by
  obtain ⟨pre', post', hsplit, rfl, -, rfl⟩ := listing_split h
  have horder : InOrder firstKey (select (fun _ => true) (pageOrder .older)
      (candidates e f threaded)) := lists_candidates.inOrder
  have hbefore : pre' = (select (fun _ => true) (pageOrder .older)
      (candidates e f threaded)).filter fun r => decide (firstKey r < firstKey s.1) := by
    rw [hsplit] at horder ⊢
    exact (filter_before horder).symm
  have hpre : InOrder firstKey pre' := by
    rw [hbefore]
    exact horder.filter _
  have hmem : ∀ r, r ∈ pre' ↔
      r ∈ (candidates e f threaded).filter (pastCursor .newer (some s.1)) := fun r => by
    have hpast : pastCursor .newer (some s.1) r = decide (firstKey r < firstKey s.1) :=
      beforeCursor_first r s.1
    rw [hbefore, List.mem_filter, mem_select, List.mem_filter, hpast]
    exact and_congr_left fun _ => and_iff_left rfl
  have hselect : select (pastCursor .newer (some s.1)) (pageOrder .newer)
      (candidates e f threaded) = pre'.reverse :=
    insertionSort_swap newer_order hpre hmem
      (candidates_nodup.sublist (List.filter_sublist.map firstKey))
  rw [listPage_eq, hselect, ← List.map_reverse, List.map_take]

theorem find?_listed (h : listing e f threaded = pre ++ s :: post) :
    e.rows.find? s.1.id = some s.1 := by
  obtain ⟨pre', post', hsplit, -⟩ := listing_split h
  have hmem : s.1 ∈ select (fun _ => true) (pageOrder .older) (candidates e f threaded) :=
    hsplit ▸ List.mem_append_right _ List.mem_cons_self
  exact find?_id e.rows s.1 (mem_candidates.1 (mem_select.1 hmem).1).1

theorem read_older (cursor : Option Uuid) (row : Option MessageRow)
    (hrow : cursor.map e.rows.find? = row.map some) :
    (readMessagePage e f threaded cursor none none limit).toOption.map
        (fun page => (page.messages, page.nextCursor)) =
      some (cut limit (fun m => m.1.id) (listPage threaded e f row limit .older)) := by
  cases cursor with
  | none =>
    cases row with
    | some row => cases hrow
    | none =>
      rw [readMessagePage, cut]
      simp only [Option.isSome_none, Option.or_none, response, Except.toOption,
        Option.map_some, decide_eq_true_eq, Bool.false_eq_true, if_false]
  | some cursor =>
    cases row with
    | none => cases hrow
    | some row =>
      rw [Option.map_some, Option.map_some, Option.some.injEq] at hrow
      rw [readMessagePage, cut]
      simp only [Option.isSome_none, Option.none_or, response, Except.toOption, hrow,
        Option.map_some, decide_eq_true_eq, Bool.false_eq_true, if_false]

theorem read_newer (cursor : Uuid) {row : MessageRow} (hrow : e.rows.find? cursor = some row) :
    (readMessagePage e f threaded none (some cursor) none limit).toOption.map
        (fun page => (page.messages.reverse, page.prevCursor)) =
      some (cut limit (fun m => m.1.id) (listPage threaded e f (some row) limit .newer)) := by
  rw [readMessagePage, cut]
  simp only [Option.isSome_some, Option.some_or, response, Except.toOption, hrow, Option.map_some,
    decide_eq_true_eq, if_true, List.reverse_reverse, List.head?_reverse]

/-! ## Following the cursors -/

variable {fuel : ℕ}

theorem followOlder_all (hlimit : 1 ≤ limit) (hfuel : e.rows.rows.length + 1 < fuel) :
    followOlder e f threaded limit fuel none = some (listing e f threaded) := by
  obtain ⟨fuel, rfl⟩ : ∃ n, fuel = n + 1 := ⟨fuel - 1, by omega⟩
  have hlength : (listing e f threaded).length ≤ e.rows.rows.length := listing_length
  refine follow_whole (i := fun m : Summary => m.1.id) hlimit ?_ (fun pre s post h => ?_) (by omega)
  · rw [read_older none none rfl, first_page]
  · rw [read_older (some s.1.id) (some s.1) (congrArg some (find?_listed h)), older_page h]

theorem followOlder_eq (hlimit : 1 ≤ limit) (hfuel : e.rows.rows.length + 1 < fuel)
    (h : listing e f threaded = pre ++ s :: post) :
    followOlder e f threaded limit fuel (some s.1.id) = some post := by
  have hlength : (listing e f threaded).length ≤ e.rows.rows.length := listing_length
  refine follow_listing (i := fun m : Summary => m.1.id) hlimit (fun pre s post h => ?_) (by omega) h
  rw [read_older (some s.1.id) (some s.1) (congrArg some (find?_listed h)), older_page h]

/-- Following the pages upwards from a mail finds all before it. -/
theorem followNewer_eq (hlimit : 1 ≤ limit) (hfuel : e.rows.rows.length + 1 < fuel)
    (h : listing e f threaded = pre ++ s :: post) :
    followNewer e f threaded limit fuel (some s.1.id) = some pre := by
  have hlength : (listing e f threaded).length ≤ e.rows.rows.length := listing_length
  have hreversed : follow (fun page rest => page ++ rest) (fun after =>
      (readMessagePage e f threaded none after none limit).toOption.map
        fun page => (page.messages.reverse, page.prevCursor)) fuel (some s.1.id) =
      some pre.reverse := by
    have hsplit : (listing e f threaded).reverse = post.reverse ++ s :: pre.reverse := by
      rw [h, List.reverse_append, List.reverse_cons, List.append_assoc, List.singleton_append]
    refine follow_listing (i := fun m : Summary => m.1.id) hlimit (fun pre s post h => ?_) ?_ hsplit
    · have h' : listing e f threaded = post.reverse ++ s :: pre.reverse := by
        have hreverse := congrArg List.reverse h
        rw [List.reverse_reverse, List.reverse_append, List.reverse_cons, List.append_assoc,
          List.singleton_append] at hreverse
        exact hreverse
      rw [read_newer s.1.id (find?_listed h'), newer_page h', List.reverse_reverse]
    · rw [List.length_reverse]
      omega
  have hfollow := follow_reverse hreversed
  rw [List.reverse_reverse] at hfollow
  have hfetch : (fun c => ((readMessagePage e f threaded none c none limit).toOption.map
      fun page => (page.messages.reverse, page.prevCursor)).map
        fun page => (page.1.reverse, page.2)) =
      fun after => (readMessagePage e f threaded none after none limit).toOption.map
        fun page => (page.messages, page.prevCursor) := by
    funext after
    rw [Option.map_map]
    refine congrArg (fun g => Option.map g _) (funext fun page => ?_)
    rw [Function.comp_apply, List.reverse_reverse]
  rw [hfetch] at hfollow
  exact hfollow

/-! ## A page around a message -/

/-- The message a page is opened around stands for a row of the list: it is the row, or in a
threaded list a live message of the account in the row's conversation. -/
def StandsFor (e : Entity) (f : ListFilters) (threaded : Bool) (around : Uuid) (r : MessageRow) :
    Prop :=
  if threaded then
    ∃ x ∈ e.rows.rows, x.id = around ∧ listFilters e ⟨f.accountId, none, none, none, none⟩ x = true ∧
      x.threadId = r.threadId
  else r.id = around

theorem head?_of_newest {l : List MessageRow} {r : MessageRow} (h : InOrder firstKey l)
    (hr : r ∈ l) (hnewest : ∀ x ∈ l, firstKey r ≤ firstKey x) : l.head? = some r := by
  cases l with
  | nil => cases hr
  | cons x l =>
    obtain rfl | hr := List.mem_cons.1 hr
    · rfl
    · have hlt := (List.pairwise_cons.1 h).1 r hr
      exact absurd (hnewest x List.mem_cons_self) (not_le.2 hlt)

/-- A page around a mail opens at the row that stands for it. -/
theorem resolve_eq (h : listing e f threaded = pre ++ s :: post) {around : Uuid}
    (haround : StandsFor e f threaded around s.1) :
    (if threaded then resolveAroundThreaded e f around else resolveAroundFlat e f around) =
      some s := by
  obtain ⟨pre', post', hsplit, -, hs, -⟩ := listing_split h
  have hmem : s.1 ∈ select (fun _ => true) (pageOrder .older) (candidates e f threaded) :=
    hsplit ▸ List.mem_append_right _ List.mem_cons_self
  obtain ⟨hrow, hmatch, hnewest⟩ := mem_candidates.1 (mem_select.1 hmem).1
  cases threaded with
  | false =>
    have hid : s.1.id = around := haround
    rw [if_neg Bool.false_ne_true, resolveAroundFlat, ← hid, find?_id e.rows s.1 hrow,
      Option.filter_some, if_pos hmatch, Option.map_some, hs]
    rfl
  | true =>
    obtain ⟨x, hx, rfl, haccount, hthread⟩ :
        ∃ x ∈ e.rows.rows, x.id = around ∧
          listFilters e ⟨f.accountId, none, none, none, none⟩ x = true ∧
          x.threadId = s.1.threadId := haround
    have horder : InOrder firstKey (select
        (fun y => listFilters e f y && decide (y.threadId = x.threadId)) (pageOrder .older)
        e.rows.rows) := inOrder_select older_order _ (keys_nodup e.rows firstKey_id)
    have hhead := head?_of_newest horder (r := s.1)
      (mem_select.2 ⟨hrow, by rw [hmatch, hthread, decide_eq_true rfl]; rfl⟩) fun y hy => by
        obtain ⟨hyrow, hy⟩ := mem_select.1 hy
        rw [Bool.and_eq_true, decide_eq_true_eq] at hy
        exact hnewest rfl y hyrow hy.1 (hy.2.trans hthread)
    rw [if_pos rfl, resolveAroundThreaded, find?_id e.rows x hx, Option.filter_some,
      if_pos haccount, Option.bind_some, hhead, Option.map_some, hthread, hs]
    rfl

/-- A page is a window of the list that holds a row of it, and its cursors go on where it ends. -/
structure Window (e : Entity) (f : ListFilters) (threaded : Bool) (limit fuel : ℕ) (s : Summary)
    (page : MessageListResponse) : Prop where
  shown : s ∈ page.messages
  within : ∃ above below, listing e f threaded = above ++ page.messages ++ below ∧
    (match page.prevCursor with
      | some cursor => followNewer e f threaded limit fuel (some cursor) = some above
      | none => above = []) ∧
    match page.nextCursor with
      | some cursor => followOlder e f threaded limit fuel (some cursor) = some below
      | none => below = []

theorem next_of_window (hlimit : 1 ≤ limit) (hfuel : e.rows.rows.length + 1 < fuel)
    {above window below : List Summary} (h : listing e f threaded = above ++ window ++ below)
    (hne : window ≠ []) {more : Bool} (hmore : more = false → below = []) :
    match if more then window.getLast?.map fun m => m.1.id else none with
      | some cursor => followOlder e f threaded limit fuel (some cursor) = some below
      | none => below = [] := by
  cases more with
  | false => exact hmore rfl
  | true =>
    have hlast := List.dropLast_append_getLast hne
    rw [if_pos rfl, List.getLast?_eq_some_getLast hne, Option.map_some]
    have hsplit : listing e f threaded =
        (above ++ window.dropLast) ++ window.getLast hne :: below := by
      rw [h]
      conv_lhs => rw [← hlast]
      simp only [List.append_assoc, List.singleton_append]
    exact followOlder_eq hlimit hfuel hsplit

theorem prev_of_window (hlimit : 1 ≤ limit) (hfuel : e.rows.rows.length + 1 < fuel)
    {above window below : List Summary} (h : listing e f threaded = above ++ window ++ below)
    (hne : window ≠ []) {more : Bool} (hmore : more = false → above = []) :
    match if more then window.head?.map fun m => m.1.id else none with
      | some cursor => followNewer e f threaded limit fuel (some cursor) = some above
      | none => above = [] := by
  cases more with
  | false => exact hmore rfl
  | true =>
    cases window with
    | nil => exact absurd rfl hne
    | cons m window =>
      rw [if_pos rfl, List.head?_cons, Option.map_some]
      have hsplit : listing e f threaded = above ++ m :: (window ++ below) := by
        rw [h, List.append_assoc, List.cons_append]
      exact followNewer_eq hlimit hfuel hsplit

/-- **A page around a message is a window of the list.** -/
theorem around_window (hlimit : 1 ≤ limit) (hfuel : e.rows.rows.length + 1 < fuel)
    (h : listing e f threaded = pre ++ s :: post) {around : Uuid}
    (haround : StandsFor e f threaded around s.1) :
    ∃ page, readMessagePage e f threaded none none (some around) limit = .ok page ∧
      Window e f threaded limit fuel s page := by
  have hread : readMessagePage e f threaded none none (some around) limit =
      listMessagesAround e f threaded around limit := rfl
  rw [hread, listMessagesAround, resolve_eq h haround]
  dsimp only
  rw [older_page h, newer_page h]
  generalize (limit - 1) / 2 = halfOlder
  generalize limit - 1 - halfOlder = halfNewer
  have htake : ∀ (l : List Summary) (n : ℕ), (l.take (n + 1)).take n = l.take n := fun l n => by
    rw [List.take_take, Nat.min_eq_left (Nat.le_succ n)]
  have hmore : ∀ (l : List Summary) (n : ℕ), decide (n < (l.take (n + 1)).length) = false →
      l.drop n = [] := fun l n hle => by
    rw [decide_eq_false_iff_not, List.length_take] at hle
    exact List.drop_eq_nil_of_le (by omega)
  rw [htake, htake]
  have hpre : pre = (pre.reverse.drop halfNewer).reverse ++ (pre.reverse.take halfNewer).reverse := by
    rw [← List.reverse_append, List.take_append_drop, List.reverse_reverse]
  have hsplit : listing e f threaded = (pre.reverse.drop halfNewer).reverse ++
      ((pre.reverse.take halfNewer).reverse ++ s :: post.take halfOlder) ++
      post.drop halfOlder := by
    calc listing e f threaded = pre ++ s :: post := h
      _ = (pre.reverse.drop halfNewer).reverse ++ (pre.reverse.take halfNewer).reverse ++
          s :: (post.take halfOlder ++ post.drop halfOlder) := by
            rw [← hpre, List.take_append_drop]
      _ = _ := by simp only [List.append_assoc, List.cons_append]
  have hne : (pre.reverse.take halfNewer).reverse ++ s :: post.take halfOlder ≠ [] := by simp
  refine ⟨_, rfl, List.mem_append_right _ List.mem_cons_self, _, _, hsplit, ?_, ?_⟩
  · exact prev_of_window hlimit hfuel hsplit hne fun hnone => by
      rw [hmore _ _ hnone, List.reverse_nil]
  · exact next_of_window hlimit hfuel hsplit hne (hmore _ _)

/-! ## All lists -/

/-- **Keyset paging is complete**, by either order of a nullable time, by search's tiers, in a
message list and in the list of orders: the pages make up all rows that match, each once and in
order; from a row on they make up what is behind it or in front of it, and a page around a message
is a window its cursors continue. -/
theorem pages_complete (limit fuel : ℕ) (hlimit : 1 ≤ limit) :
    (∀ rows : KeyedTable MessageRow.id, rows.rows.length + 1 < fuel →
      (∃ l, Lists firstKey (fun r => r ∈ rows.rows) l ∧
        followCursor false rows limit fuel none = some l) ∧
      ∃ l, Lists lastKey (fun r => r ∈ rows.rows) l ∧
        followCursor true rows limit fuel none = some l) ∧
    (∀ (tier : MessageRow → ℕ) (matching : MessageRow → Bool) (rows : KeyedTable MessageRow.id),
      rows.rows.length + 1 < fuel →
      ∃ l, Lists (tierKey tier) (fun r => r ∈ rows.rows ∧ matching r = true) l ∧
        followSearch tier matching rows limit fuel none = some l) ∧
    (∀ (e : Entity) (f : ListFilters) (threaded : Bool), e.rows.rows.length + 1 < fuel →
      ∃ l, Lists firstKey (Listed e f threaded) l ∧
        listing e f threaded = l.map (summary e f threaded) ∧
        followOlder e f threaded limit fuel none = some (listing e f threaded) ∧
        ∀ pre s post, listing e f threaded = pre ++ s :: post →
          followOlder e f threaded limit fuel (some s.1.id) = some post ∧
          followNewer e f threaded limit fuel (some s.1.id) = some pre ∧
          ∀ around, StandsFor e f threaded around s.1 →
            ∃ page, readMessagePage e f threaded none none (some around) limit = .ok page ∧
              Window e f threaded limit fuel s page) ∧
    ∀ (matchesToken : String → Order → Bool) (orders : KeyedTable Order.id) (f : OrderFilters)
      (sort : OrderSort), orders.rows.length + 1 < fuel →
      ∃ l, Lists (orderKey sort)
          (fun o => o ∈ orders.rows ∧ orderFilters matchesToken f o = true) l ∧
        followOrders matchesToken orders f sort limit fuel none = some l := by
  refine ⟨fun rows hfuel => ⟨followCursor_first hlimit hfuel, followCursor_last hlimit hfuel⟩,
    fun tier matching rows hfuel => followSearch_complete tier matching hlimit hfuel,
    fun e f threaded hfuel => ?_,
    fun matchesToken orders f sort hfuel =>
      followOrders_complete matchesToken orders f sort hlimit hfuel⟩
  refine ⟨_, lists_candidates, rfl, followOlder_all hlimit hfuel, fun pre s post h => ?_⟩
  exact ⟨followOlder_eq hlimit hfuel h, followNewer_eq hlimit hfuel h, fun around haround =>
    around_window hlimit hfuel h haround⟩

/-- Messages of two conversations, two of them of one time and two without one. -/
def fewMessages : Entity where
  rows := ⟨[⟨1, 9, 3, 7, true, some 5, none, none⟩, ⟨2, 9, 3, 8, false, none, none, none⟩,
    ⟨3, 9, 3, 7, false, some 5, none, none⟩, ⟨4, 9, 3, 8, true, none, none, none⟩,
    ⟨5, 9, 3, 7, true, some 2, none, none⟩], by decide⟩
  glacier := false

def everyMessage : ListFilters := ⟨some 9, some 3, none, none, none⟩

theorem pages_complete_fewMessages :
    (followOlder fewMessages everyMessage false 1 7 none).map
        (fun l => l.map fun m => m.1.id) = some [4, 2, 3, 1, 5] ∧
      followOlder fewMessages everyMessage false 1 7 none =
        some (listing fewMessages everyMessage false) := by
  refine ⟨by decide +kernel, ?_⟩
  obtain ⟨-, -, hlists, -⟩ := pages_complete 1 7 le_rfl
  obtain ⟨-, -, -, hall, -⟩ := hlists fewMessages everyMessage false (by decide)
  exact hall

end MailVerdict.Analysis.MessagePages
