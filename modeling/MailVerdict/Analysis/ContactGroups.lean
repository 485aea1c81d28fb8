import Mathlib.Algebra.BigOperators.Group.List.Basic
import Mathlib.Algebra.Ring.Int.Defs
import Mathlib.Data.List.Perm.Subperm
import Mathlib.Order.WithBot
import MailVerdict.Computation.OffsetListings
import MailVerdict.Model.ContactPages

/-!
# Contact pages and the counts of groups

Following the cursor shows each contact once exactly when none is tied with another row under the
`ORDER BY`. The count of a category is that of its texts on all lines of a card, the list goes by
the values of the first line; the count of a group card is that of its members, the list has the
cards found.
-/

namespace MailVerdict.Analysis.ContactGroups

open Computation.OffsetListings
open Model.Identifiers Model.ContactPages

/-! ### Paging -/

section Paging

variable {upper lower : Text → Text} {scope : Scope} {answer : ℕ → List DavObject}
variable {limit N : ℕ} {p : Page}

/-- In the queries made, the listings show what `o` shows. -/
def Slices (upper lower : Text → Text) (scope : Scope) (answer : ℕ → List DavObject) (limit : ℕ)
    (o : List DavObject) : Prop :=
  ∀ n a k, k ≤ limit → (limit = 1 → n = a) →
    (((answer n).drop a).take k).filter (scope.shows upper lower) =
      ((o.drop a).take k).filter (scope.shows upper lower)

/-- What reading on from `p` to `p'` comes to. -/
structure Filled (upper lower : Text → Text) (scope : Scope) (answer : ℕ → List DavObject)
    (limit N : ℕ) (p p' : Page) : Prop where
  more : p'.hasMore = decide (p'.scanned < N)
  onward : p.scanned ≤ p'.scanned
  progress : p.contacts.length < limit → p'.hasMore = true → p.scanned < p'.scanned
  contents : ∀ o, Slices upper lower scope answer limit o → (limit = 1 → p.queries = p.scanned) →
    p'.contacts = p.contacts ++
      ((o.drop p.scanned).take (p'.scanned - p.scanned)).filter (scope.shows upper lower) ∧
    (limit = 1 → p'.hasMore = true → p'.queries = p'.scanned)

theorem searchContacts_more (rows : List DavObject) (limit offset : ℕ) :
    (searchContacts rows limit offset).2 = decide (offset + limit < rows.length) ∧
      (searchContacts rows limit offset).1 = (rows.drop offset).take limit := by
  simp only [searchContacts, List.length_take, List.length_drop, List.take_take]
  refine ⟨decide_eq_decide.2 ?_, by rw [Nat.min_eq_left (Nat.le_succ _)]⟩
  omega

theorem filter_slice_add (keep : DavObject → Bool) {a b c : ℕ} (hab : a ≤ b) (hbc : b ≤ c)
    (o : List DavObject) : ((o.drop a).take (c - a)).filter keep =
      ((o.drop a).take (b - a)).filter keep ++ ((o.drop b).take (c - b)).filter keep := by
  rw [← List.filter_append, show c - a = (b - a) + (c - b) by omega, List.take_add, List.drop_drop,
    show a + (b - a) = b by omega]

/-- The rounds fill the page, or read every row there is. -/
theorem refill_filled (hlen : ∀ n, (answer n).length = N) {rounds : ℕ} (hrounds : 0 < rounds)
    (hleft : N < p.scanned + rounds) (hsize : p.contacts.length ≤ limit)
    (hmore : p.contacts.length = limit → p.hasMore = decide (p.scanned < N)) :
    Filled upper lower scope answer limit N p (refill upper lower scope answer limit rounds p) := by
  induction rounds generalizing p with
  | zero => cases hrounds
  | succ rounds ih =>
    rw [refill]
    split
    · rename_i hshort
      obtain ⟨htrue, hrows⟩ := searchContacts_more (answer p.queries)
        (limit - p.contacts.length) p.scanned
      set k := limit - p.contacts.length with hk
      set m := min k (N - p.scanned) with hm
      have hread : ((answer p.queries).drop p.scanned).take k =
          ((answer p.queries).drop p.scanned).take m := by
        rw [List.take_eq_take_min, List.length_drop, hlen]
      have hlength : (((answer p.queries).drop p.scanned).take m).length = m := by
        rw [List.length_take, List.length_drop, hlen]
        omega
      have hkeep := List.length_filter_le (scope.shows upper lower)
        (((answer p.queries).drop p.scanned).take m)
      simp only [hrows, htrue, hlen, hread]
      have hcontents : ∀ o, Slices upper lower scope answer limit o →
          (limit = 1 → p.queries = p.scanned) →
          (((answer p.queries).drop p.scanned).take m).filter (scope.shows upper lower) =
            ((o.drop p.scanned).take (p.scanned + m - p.scanned)).filter
              (scope.shows upper lower) := by
        intro o ho hnum
        rw [show p.scanned + m - p.scanned = m by omega]
        exact ho _ _ m (by omega) hnum
      split
      · rename_i hnone
        rw [hnone, List.length_nil] at hlength
        refine ⟨by simp only [decide_eq_decide]; omega, le_rfl, fun _ h => ?_, fun o _ _ =>
          ⟨by simp, fun _ h => ?_⟩⟩
        all_goals
          simp only [decide_eq_true_eq] at h
          omega
      · rename_i hsome
        have hpos := List.length_pos_iff.2 hsome
        split
        · rename_i hnext
          rw [decide_eq_true_eq] at hnext
          have hrest := ih (p := ⟨p.contacts ++ (((answer p.queries).drop p.scanned).take m).filter
              (scope.shows upper lower), true, p.scanned + m, p.queries + 1⟩)
            (by omega) (by simp only; omega) (by simp only [List.length_append]; omega)
            (fun _ => (decide_eq_true (show p.scanned + m < N by omega)).symm)
          have honward : p.scanned + m ≤ _ := hrest.onward
          have hadd := filter_slice_add (scope.shows upper lower)
            (b := p.scanned + m) (Nat.le_add_right p.scanned m) honward
          rw [hlength]
          simp only [hnext, decide_true]
          refine ⟨hrest.more, le_trans (Nat.le_add_right _ _) honward, fun _ _ =>
            lt_of_lt_of_le (by omega) honward, fun o ho hnum => ?_⟩
          obtain ⟨hall, hone⟩ := hrest.contents o ho fun h => by
            have hq := hnum h
            simp only
            omega
          refine ⟨?_, hone⟩
          refine hall.trans ?_
          rw [hadd o, ← List.append_assoc]
          exact congrArg (fun l => p.contacts ++ l ++ _) (hcontents o ho hnum)
        · rename_i hlast
          rw [decide_eq_true_eq] at hlast
          simp only [hlength, hlast, decide_false]
          refine ⟨(decide_eq_false (show ¬ p.scanned + m < N by omega)).symm, by simp,
            fun _ h => by simp at h, fun o ho hnum => ⟨?_, fun _ h => by simp at h⟩⟩
          rw [hcontents o ho hnum]
    · rename_i hfull
      have heq : p.contacts.length = limit := by omega
      exact ⟨hmore heq, le_rfl, fun h => absurd h hfull, fun o ho hnum =>
        ⟨by simp, fun h _ => hnum h⟩⟩

theorem listContacts_filled (hlen : ∀ n, (answer n).length = N) (hlimit : 1 ≤ limit)
    (cursor query : ℕ) : Filled upper lower scope answer limit N ⟨[], false, cursor, query⟩
      (listContacts upper lower scope answer limit cursor query) :=
  refill_filled hlen (by omega) (by simp only [hlen]; omega) (by simp)
    (by simp only [List.length_nil]; omega)

theorem followed_eq (hlen : ∀ n, (answer n).length = N) (hlimit : 1 ≤ limit) {o : List DavObject}
    (ho : o.length = N) (hslices : Slices upper lower scope answer limit o) {pages cursor query : ℕ}
    (hpages : N < cursor + pages) (hcursor : cursor ≤ N) (hnum : limit = 1 → query = cursor) :
    followed upper lower scope answer limit pages cursor query =
      (o.drop cursor).filter (scope.shows upper lower) := by
  induction pages generalizing cursor query with
  | zero => omega
  | succ pages ih =>
    have hfilled : Filled upper lower scope answer limit N ⟨[], false, cursor, query⟩
        (listContacts upper lower scope answer limit cursor query) :=
      listContacts_filled hlen hlimit cursor query
    obtain ⟨hall, hone⟩ := hfilled.contents o hslices hnum
    simp only [followed]
    set page := listContacts upper lower scope answer limit cursor query
    have honward : cursor ≤ page.scanned := hfilled.onward
    have hsplit := filter_slice_add (scope.shows upper lower) honward (c := max N page.scanned)
      (by omega) o
    have hdrop : ∀ a, (o.drop a).take (max N page.scanned - a) = o.drop a := fun a =>
      List.take_of_length_le (by rw [List.length_drop]; omega)
    rw [hdrop, hdrop] at hsplit
    rw [hall, hsplit]
    refine congrArg₂ (· ++ ·) rfl ?_
    by_cases hmore : page.hasMore = true
    · rw [if_pos hmore]
      have hless : page.scanned < N := by simpa [hfilled.more] using hmore
      have hprogress : cursor < page.scanned := hfilled.progress (by simp only [List.length_nil]; omega) hmore
      exact ih (by omega) (by omega) fun h => hone h hmore
    · rw [if_neg hmore]
      have hend : N ≤ page.scanned := by simpa [hfilled.more] using hmore
      rw [List.drop_eq_nil_of_le (by omega), List.filter_nil]

/-- The key of `ORDER BY summary`, as the collation compares; without a summary last. -/
def sortKey {κ : Type} (collate : Text → κ) (o : DavObject) : WithTop κ := o.summary.map collate

variable {κ : Type} [LinearOrder κ]

/-- **Following the cursor shows each matching contact once**, for every page size and however
the database orders rows that tie. -/
def Complete (upper lower : Text → Text) (collate : Text → κ) (scope : Scope)
    (rows : List DavObject) : Prop :=
  ∀ limit answer, 1 ≤ limit → limit ≤ 200 → (∀ n, Listing (sortKey collate) rows (answer n)) →
    (followed upper lower scope answer limit (rows.length + 1) 0 0).Perm
      (rows.filter (scope.shows upper lower))

/-- No contact to show is tied with another row. -/
def Untied (upper lower : Text → Text) (collate : Text → κ) (scope : Scope)
    (rows : List DavObject) : Prop :=
  ∀ a ∈ rows, scope.shows upper lower a = true →
    ∀ b ∈ rows, sortKey collate b = sortKey collate a → b = a

theorem length_answer {collate : Text → κ} {rows : List DavObject}
    (h : ∀ n, Listing (sortKey collate) rows (answer n)) (n : ℕ) :
    (answer n).length = rows.length := (h n).perm.length_eq

/-- Paging is complete exactly where no contact to show ties with another row. -/
theorem complete_iff {collate : Text → κ} {rows : List DavObject} (hnodup : rows.Nodup) :
    Complete upper lower collate scope rows ↔ Untied upper lower collate scope rows := by
  constructor
  · intro h a ha hshow b hb hkey
    by_contra hne
    obtain ⟨l, r, hab, hba⟩ := exists_swapped ha hb (Ne.symm hne) hkey.symm
    let answer : ℕ → List DavObject := fun n =>
      if n = l.length then l ++ a :: b :: r else l ++ b :: a :: r
    have hanswer : ∀ n, Listing (sortKey collate) rows (answer n) := fun n => by
      by_cases hn : n = l.length
      · simpa [answer, hn] using hab
      · simpa [answer, hn] using hba
    -- read one row at a time, the answers show `a` at both places
    have hslices : Slices upper lower scope answer 1 (l ++ a :: a :: r) := by
      intro n i k hk hn
      obtain rfl := hn rfl
      obtain rfl | rfl : k = 0 ∨ k = 1 := by omega
      · simp
      · rw [List.take_one, List.take_one, List.head?_drop, List.head?_drop]
        by_cases hi : n = l.length
        · simp [answer, hi]
        · rcases Nat.lt_or_ge n l.length with hlt | hge
          · simp [answer, hi, List.getElem?_append_left hlt]
          · obtain ⟨j, rfl⟩ : ∃ j, n = l.length + 1 + j := ⟨n - (l.length + 1), by omega⟩
            have hj : l.length + 1 + j - l.length = j + 1 := by omega
            simp [answer, hi, List.getElem?_append_right hge, hj]
    have hfollowed : followed upper lower scope answer 1 (rows.length + 1) 0 0 =
        ((l ++ a :: a :: r).drop 0).filter (scope.shows upper lower) :=
      followed_eq (length_answer hanswer) le_rfl (by simpa using hab.perm.length_eq) hslices
        (by omega) (by omega) fun _ => rfl
    have hperm := h 1 answer le_rfl (by omega) hanswer
    rw [hfollowed, List.drop_zero] at hperm
    have htwice := (hperm.nodup_iff).2 (hnodup.filter _)
    simp [hshow, List.nodup_append] at htwice
  · intro h limit answer hlimit _ hanswer
    rw [followed_eq (length_answer hanswer) hlimit (length_answer hanswer 0) (fun n a k _ _ =>
      (hanswer n).filter_slice (hanswer 0) h a k) (by omega) (by omega) fun _ => rfl,
      List.drop_zero]
    exact (hanswer 0).perm.filter _

end Paging

/-! ### Counts -/

section Counts

variable {upper lower : Text → Text} {ilike : Text → DavObject → Bool} {names : List Text}
variable {found : List (Text × ℕ)} {objects rows : List DavObject} {addressbookId : Option ℕ}

/-- The entries are the names with how often each was met. -/
structure Tally (found : List (Text × ℕ)) (names : List Text) : Prop where
  once : (found.map Prod.fst).Nodup
  counts : ∀ name n, (name, n) ∈ found ↔ n = names.count name ∧ name ∈ names

theorem mem_bump {name : Text} (h : (found.map Prod.fst).Nodup) (m : Text) (k : ℕ) :
    (m, k) ∈ bump name found ↔ (m ≠ name ∧ (m, k) ∈ found) ∨
      (m = name ∧ ((∃ j, (name, j) ∈ found ∧ k = j + 1) ∨ name ∉ found.map Prod.fst ∧ k = 1)) := by
  induction found with
  | nil => simp [bump]
  | cons e found ih =>
    obtain ⟨n, count⟩ := e
    rw [List.map_cons, List.nodup_cons] at h
    by_cases hn : n = name
    · subst hn
      have hnot : ∀ j, (n, j) ∉ found := fun j hj =>
        h.1 (List.mem_map.2 ⟨(n, j), hj, rfl⟩)
      simp only [bump, if_true, List.mem_cons, Prod.mk.injEq]
      grind
    · simp only [bump, if_neg hn, List.mem_cons, ih h.2, Prod.mk.injEq]
      grind

theorem keys_bump (found : List (Text × ℕ)) (name : Text) :
    (bump name found).map Prod.fst = found.map Prod.fst ∨
      name ∉ found.map Prod.fst ∧ (bump name found).map Prod.fst = found.map Prod.fst ++ [name] := by
  induction found with
  | nil => exact .inr ⟨by simp, rfl⟩
  | cons e found ih =>
    obtain ⟨n, count⟩ := e
    by_cases hn : n = name
    · exact .inl (by simp [bump, hn])
    · rcases ih with ih | ⟨hnot, ih⟩
      · exact .inl (by simp [bump, hn, ih])
      · exact .inr ⟨by simpa [Ne.symm hn] using hnot, by simp [bump, hn, ih]⟩

theorem Tally.bump (h : Tally found names) (name : Text) :
    Tally (bump name found) (names ++ [name]) where
  once := by
    rcases keys_bump found name with hkeys | ⟨hnot, hkeys⟩
    · exact hkeys ▸ h.once
    · rw [hkeys, List.nodup_append]
      exact ⟨h.once, by simp, fun a ha b hb hab => hnot (by simp_all)⟩
  counts m k := by
    have hkey : name ∈ found.map Prod.fst ↔ name ∈ names := by
      rw [List.mem_map]
      exact ⟨fun ⟨e, he, hn⟩ => hn ▸ ((h.counts e.1 e.2).1 he).2,
        fun hn => ⟨(name, _), (h.counts name _).2 ⟨rfl, hn⟩, rfl⟩⟩
    rw [mem_bump h.once, hkey]
    simp only [h.counts, List.count_append, List.mem_append, List.mem_singleton]
    by_cases hm : m = name
    · subst hm
      by_cases hin : m ∈ names
      · simp [hin]
      · simp [hin, List.count_eq_zero_of_not_mem hin]
    · simp [hm, Ne.symm hm]

theorem Tally.foldl (h : Tally found names) (more : List Text) :
    Tally (more.foldl (fun found name => Model.ContactPages.bump name found) found)
      (names ++ more) := by
  induction more generalizing found names with
  | nil => simpa using h
  | cons name more ih => simpa using ih (h.bump name)

/-- The texts between the commas of all people's CATEGORIES lines. -/
def namesOf (upper lower : Text → Text) (rows : List DavObject) : List Text :=
  (rows.filter fun o => !isGroup upper lower o.data).flatMap fun o => detectCategories upper o.data

def cardsOf (upper lower : Text → Text) (rows : List DavObject) : List (ℕ × ℕ) :=
  (rows.filter fun o => isGroup upper lower o.data).map fun o =>
    (o.id, (detectGroupMembers upper lower o.data).length)

theorem foldl_scanCard (upper lower : Text → Text) (rows : List DavObject)
    (h : Tally found names) (cards : List (ℕ × ℕ)) :
    Tally (rows.foldl (scanCard upper lower) (found, cards)).1 (names ++ namesOf upper lower rows) ∧
      (rows.foldl (scanCard upper lower) (found, cards)).2 = cards ++ cardsOf upper lower rows := by
  induction rows generalizing found names cards with
  | nil => simpa [namesOf, cardsOf] using h
  | cons o rows ih =>
    by_cases hgroup : isGroup upper lower o.data = true
    · simpa [scanCard, namesOf, cardsOf, hgroup] using ih h
        (cards ++ [(o.id, (detectGroupMembers upper lower o.data).length)])
    · simpa [scanCard, namesOf, cardsOf, hgroup] using ih (h.foldl (detectCategories upper o.data))
        cards

def scanRows (objects : List DavObject) (addressbookId : Option ℕ) : List DavObject :=
  objects.filter fun o => o.isAddressbook && !o.deleted &&
    (match addressbookId with | none => true | some id => decide (o.collectionId = id))

def listed (upper lower : Text → Text) (ilike : Text → DavObject → Bool) (objects : List DavObject)
    (addressbookId : Option ℕ) (q : Option Text) (group : Option Group) : List DavObject :=
  match scopeOf upper lower objects addressbookId q group with
  | none => []
  | some scope => (objects.filter (scope.selects ilike)).filter (scope.shows upper lower)

theorem mem_contactGroups (group : Group) (n : ℕ) :
    (group, n) ∈ contactGroups upper lower objects addressbookId ↔
      (∃ name, group = .category name ∧ name ∈ namesOf upper lower (scanRows objects addressbookId) ∧
        n = (namesOf upper lower (scanRows objects addressbookId)).count name) ∨
      ∃ o ∈ scanRows objects addressbookId, isGroup upper lower o.data = true ∧
        group = .groupCard o.id ∧ n = (detectGroupMembers upper lower o.data).length := by
  obtain ⟨htally, hcards⟩ := foldl_scanCard upper lower (scanRows objects addressbookId)
    (show Tally [] [] from ⟨by simp, by simp⟩) []
  rw [List.nil_append] at htally hcards
  have hgroups : contactGroups upper lower objects addressbookId =
      (scanGroups upper lower (scanRows objects addressbookId)).1.map
        (fun e => (Group.category e.1, e.2)) ++
      (scanGroups upper lower (scanRows objects addressbookId)).2.map
        fun e => (Group.groupCard e.1, e.2) := rfl
  rw [hgroups, List.mem_append, List.mem_map, List.mem_map, scanGroups, hcards]
  constructor
  · rintro (⟨⟨name, k⟩, he, heq⟩ | ⟨⟨id, k⟩, he, heq⟩)
    · obtain ⟨rfl, rfl⟩ := Prod.mk.inj heq
      obtain ⟨hk, hin⟩ := (htally.counts name k).1 he
      exact .inl ⟨name, rfl, hin, hk⟩
    · obtain ⟨rfl, rfl⟩ := Prod.mk.inj heq
      obtain ⟨o, ho, hpair⟩ := List.mem_map.1 he
      obtain ⟨rfl, rfl⟩ := Prod.mk.inj hpair
      exact .inr ⟨o, (List.mem_filter.1 ho).1, (List.mem_filter.1 ho).2, rfl, rfl⟩
  · rintro (⟨name, rfl, hin, rfl⟩ | ⟨o, ho, hgroup, rfl, rfl⟩)
    · exact .inl ⟨(name, _), (htally.counts _ _).2 ⟨rfl, hin⟩, rfl⟩
    · exact .inr ⟨(o.id, _), List.mem_map.2 ⟨o, List.mem_filter.2 ⟨ho, hgroup⟩, rfl⟩, rfl⟩

theorem listed_category (name : Text) :
    listed upper lower ilike objects addressbookId none (some (.category name)) =
      (scanRows objects addressbookId).filter fun o =>
        !isGroup upper lower o.data && (categories upper o.data).contains name := by
  have hselects : ∀ o, (Scope.selects ilike ⟨addressbookId.map ([·]), none, none, some name⟩ o) =
      (o.isAddressbook && !o.deleted &&
        (match addressbookId with | none => true | some id => decide (o.collectionId = id))) := by
    intro o
    cases addressbookId <;> simp [Scope.selects]
  simp only [listed, scopeOf]
  rw [List.filter_congr fun o _ => hselects o]
  rfl

/-- A category is met once on a card whose first line has it, and on no other. -/
def ReadAlike (upper : Text → Text) (name data : Text) : Prop :=
  (detectCategories upper data).count name =
    if (categories upper data).contains name then 1 else 0

/-- How many times more a card is counted under a category than listed. -/
def surplus (upper : Text → Text) (name data : Text) : ℤ :=
  (detectCategories upper data).count name - if (categories upper data).contains name then 1 else 0

theorem surplus_eq_zero_iff {name data : Text} :
    surplus upper name data = 0 ↔ ReadAlike upper name data := by
  unfold surplus ReadAlike
  split
  · omega
  · omega

def people (upper lower : Text → Text) (rows : List DavObject) : List DavObject :=
  rows.filter fun o => !isGroup upper lower o.data

/-- **What the count of a category is off by** is the surplus of its cards together. -/
theorem count_namesOf (name : Text) (rows : List DavObject) :
    ((namesOf upper lower rows).count name : ℤ) = (rows.filter fun o =>
        !isGroup upper lower o.data && (categories upper o.data).contains name).length +
      ((people upper lower rows).map fun o => surplus upper name o.data).sum := by
  induction rows with
  | nil => rfl
  | cons o rows ih =>
    rw [namesOf, people] at ih ⊢
    cases hgroup : isGroup upper lower o.data with
    | true => simpa [hgroup] using ih
    | false =>
      by_cases hin : name ∈ categories upper o.data
      · simp [hgroup, hin, ih, surplus]
        omega
      · simp [hgroup, hin, ih, surplus]
        omega

def someone (id : ℕ) (data : Text) : DavObject := ⟨id, 0, true, false, none, none, data⟩

/-- **The count of a category is that of its list in one book** exactly when its cards, some counted
more often than listed and some less, make up for each other. -/
theorem category_count_iff (name : Text) {n : ℕ}
    (h : (.category name, n) ∈ contactGroups upper lower objects addressbookId) :
    (listed upper lower ilike objects addressbookId none (some (.category name))).length = n ↔
      ((people upper lower (scanRows objects addressbookId)).map fun o =>
        surplus upper name o.data).sum = 0 := by
  obtain ⟨m, heq, -, rfl⟩ | ⟨o, -, -, heq, -⟩ := (mem_contactGroups _ _).1 h
  · obtain rfl := Group.category.inj heq
    have hcount : ((namesOf upper lower _).count name : ℤ) = _ :=
      count_namesOf name (scanRows objects addressbookId)
    rw [listed_category]
    omega
  · cases heq

/-- **The counts of categories are those of the lists, in every address book of such cards,
exactly when every card reads alike every category that one of them offers.** -/
theorem category_counts_iff (cards : Set Text) :
    (∀ objects addressbookId, (objects.map DavObject.id).Nodup → (∀ o ∈ objects, o.data ∈ cards) →
      ∀ name n, (.category name, n) ∈ contactGroups upper lower objects addressbookId →
        (listed upper lower ilike objects addressbookId none (some (.category name))).length = n) ↔
    ∀ c ∈ cards, ∀ d ∈ cards, isGroup upper lower c = false → isGroup upper lower d = false →
      ∀ name ∈ detectCategories upper d, ReadAlike upper name c := by
  constructor
  · intro h c hc d hd hpc hpd name hname
    have hone := h [someone 0 d] none (by simp) (by simpa [someone] using hd) name _
      ((mem_contactGroups _ _).2 (.inl ⟨name, rfl, by
        simpa [scanRows, namesOf, someone, hpd] using hname, rfl⟩))
    have htwo := h [someone 0 d, someone 1 c] none (by simp [someone])
      (by simp [someone, hc, hd]) name _ ((mem_contactGroups _ _).2 (.inl ⟨name, rfl, by
        simp [scanRows, namesOf, someone, hpd, hpc, hname], rfl⟩))
    rw [listed_category] at hone htwo
    simp only [ReadAlike]
    by_cases hin : name ∈ categories upper c <;> by_cases hin' : name ∈ categories upper d <;>
      simp [scanRows, namesOf, someone, hpc, hpd, hin, hin'] at hone htwo ⊢ <;> omega
  · intro h objects addressbookId _ hcards name n hmem
    obtain ⟨_, heq, hin, rfl⟩ | ⟨o, -, -, heq, -⟩ := (mem_contactGroups _ _).1 hmem
    · obtain rfl := Group.category.inj heq
      obtain ⟨d, hd, hname⟩ := List.mem_flatMap.1 hin
      obtain ⟨hd, hpd⟩ := List.mem_filter.1 hd
      have hin : ∀ o ∈ scanRows objects addressbookId, o.data ∈ cards := fun o ho =>
        hcards o (List.mem_filter.1 ho).1
      rw [category_count_iff _ hmem]
      refine List.sum_eq_zero fun x hx => ?_
      obtain ⟨o, ho, rfl⟩ := List.mem_map.1 hx
      obtain ⟨ho, hpo⟩ := List.mem_filter.1 ho
      exact surplus_eq_zero_iff.2
        (h _ (hin o ho) _ (hin d hd) (by simpa using hpo) (by simpa using hpd) _ hname)
    · cases heq

/-- Ids are unique, and uids within an address book, as CardDAV has it. -/
structure AddressBooks (objects : List DavObject) : Prop where
  ids : (objects.map DavObject.id).Nodup
  uids : ∀ a ∈ objects, ∀ b ∈ objects, a.collectionId = b.collectionId → a.uid = b.uid →
    a.uid ≠ none → a = b

/-- **The count of a group card is that of its list exactly when each member is named once and is
a contact of the card's address book.** -/
theorem group_card_count_iff (hbooks : AddressBooks objects) {card : DavObject}
    (hcard : card ∈ scanRows objects addressbookId) :
    (listed upper lower ilike objects addressbookId none (some (.groupCard card.id))).length =
        (detectGroupMembers upper lower card.data).length ↔
      (detectGroupMembers upper lower card.data).Nodup ∧
        ∀ uid ∈ detectGroupMembers upper lower card.data, ∃ o ∈ objects, o.isAddressbook = true ∧
          o.deleted = false ∧ o.collectionId = card.collectionId ∧ o.uid = some uid ∧
          isGroup upper lower o.data = false := by
  set members := detectGroupMembers upper lower card.data with hmembers
  obtain ⟨hin, hcard⟩ := List.mem_filter.1 hcard
  simp only [Bool.and_eq_true, Bool.not_eq_true'] at hcard
  have hfind : objects.find? (fun o => decide (o.id = card.id)) = some card := by
    obtain ⟨l, r, hlr⟩ := List.append_of_mem hin
    refine List.find?_eq_some_iff_append.2 ⟨by simp, l, r, hlr, fun a ha => ?_⟩
    have hids := hbooks.ids
    rw [hlr, List.map_append, List.map_cons, List.nodup_append] at hids
    simpa using hids.2.2 _ (List.mem_map_of_mem ha) _ List.mem_cons_self
  have hbook : addressbookId.getD card.collectionId = card.collectionId := by
    cases haddress : addressbookId with
    | none => rfl
    | some id => simpa [haddress, eq_comm] using hcard.2
  let here : DavObject → Prop := fun o => o.isAddressbook = true ∧ o.deleted = false ∧
    o.collectionId = card.collectionId ∧ (∃ uid ∈ members, o.uid = some uid) ∧
    isGroup upper lower o.data = false
  obtain ⟨l, hl, hmem, hnodup⟩ : ∃ l, listed upper lower ilike objects addressbookId none
      (some (.groupCard card.id)) = l ∧ (∀ o, o ∈ l ↔ o ∈ objects ∧ here o) ∧ l.Nodup := by
    refine ⟨_, rfl, fun o => ?_, ?_⟩
    · by_cases hnone : members = []
      · simp [listed, scopeOf, hfind, hcard.1.2, ← hmembers, hnone, here]
      · simp only [listed, scopeOf, hfind, hcard.1.2, ← hmembers, hnone, hbook, Bool.false_eq_true,
          or_self, if_false, List.mem_filter, Scope.selects, Scope.shows, here]
        cases o.uid with
        | none => simp
        | some uid =>
          simp
          tauto
    · rw [listed]
      split
      · exact List.nodup_nil
      · exact (hbooks.ids.of_map.filter _).filter _
  rw [hl]
  -- the uids of the list are members, each met once
  have huids : (l.map DavObject.uid).Nodup := by
    refine hnodup.map_on fun a ha b hb hab => ?_
    obtain ⟨hain, -, -, hac, ⟨uid, -, hau⟩, -⟩ := (hmem a).1 ha
    obtain ⟨hbin, -, -, hbc, -⟩ := (hmem b).1 hb
    exact hbooks.uids a hain b hbin (hac.trans hbc.symm) hab (by simp [hau])
  have hsub : l.map DavObject.uid ⊆ members.map some := by
    intro u hu
    obtain ⟨o, ho, rfl⟩ := List.mem_map.1 hu
    obtain ⟨-, -, -, -, ⟨uid, huid, hou⟩, -⟩ := (hmem o).1 ho
    exact hou ▸ List.mem_map_of_mem huid
  constructor
  · intro hlen
    have hperm := (List.subperm_of_subset huids hsub).perm_of_length_le (by simp [hlen])
    refine ⟨(hperm.nodup_iff.1 huids).of_map, fun uid huid => ?_⟩
    obtain ⟨o, ho, hou⟩ := List.mem_map.1 (hperm.mem_iff.2 (List.mem_map_of_mem huid))
    obtain ⟨hoin, hadd, hdel, hoc, -, hgroup⟩ := (hmem o).1 ho
    exact ⟨o, hoin, hadd, hdel, hoc, hou, hgroup⟩
  · rintro ⟨honce, hthere⟩
    have hsub' : members.map some ⊆ l.map DavObject.uid := by
      intro u hu
      obtain ⟨uid, huid, rfl⟩ := List.mem_map.1 hu
      obtain ⟨o, ho, hadd, hdel, hoc, hou, hgroup⟩ := hthere uid huid
      exact List.mem_map.2 ⟨o, (hmem o).2 ⟨ho, hadd, hdel, hoc, ⟨uid, huid, hou⟩, hgroup⟩, hou⟩
    have hle := (List.subperm_of_subset huids hsub).length_le
    have hge := (List.subperm_of_subset (honce.map (Option.some_injective _)) hsub').length_le
    simp only [List.length_map] at hle hge
    omega

end Counts

/-- **Pages and counts agree with the address book exactly so far**: the pages when no contact is
tied, the end of the list always, the counts of categories and of group cards as above. -/
theorem contacts_agree_iff {κ : Type} [LinearOrder κ] (upper lower : Text → Text)
    (ilike : Text → DavObject → Bool) (collate : Text → κ) :
    (∀ objects addressbookId q group scope, (objects.map DavObject.id).Nodup →
      scopeOf upper lower objects addressbookId q group = some scope →
      (Complete upper lower collate scope (objects.filter (scope.selects ilike)) ↔
        Untied upper lower collate scope (objects.filter (scope.selects ilike)))) ∧
    (∀ scope rows answer limit cursor query, 1 ≤ limit →
      (∀ n, Listing (sortKey collate) rows (answer n)) →
      ((listContacts upper lower scope answer limit cursor query).hasMore = true ↔
        (listContacts upper lower scope answer limit cursor query).scanned < rows.length)) ∧
    (∀ objects addressbookId name n,
      (.category name, n) ∈ contactGroups upper lower objects addressbookId →
      ((listed upper lower ilike objects addressbookId none (some (.category name))).length = n ↔
        ((people upper lower (scanRows objects addressbookId)).map fun o =>
          surplus upper name o.data).sum = 0)) ∧
    (∀ cards : Set Text,
      (∀ objects addressbookId, (objects.map DavObject.id).Nodup →
        (∀ o ∈ objects, o.data ∈ cards) →
        ∀ name n, (.category name, n) ∈ contactGroups upper lower objects addressbookId →
          (listed upper lower ilike objects addressbookId none
            (some (.category name))).length = n) ↔
      ∀ c ∈ cards, ∀ d ∈ cards, isGroup upper lower c = false → isGroup upper lower d = false →
        ∀ name ∈ detectCategories upper d, ReadAlike upper name c) ∧
    ∀ objects addressbookId card n, AddressBooks objects →
      card ∈ scanRows objects addressbookId →
      (.groupCard card.id, n) ∈ contactGroups upper lower objects addressbookId →
      ((listed upper lower ilike objects addressbookId none (some (.groupCard card.id))).length = n ↔
        (detectGroupMembers upper lower card.data).Nodup ∧
          ∀ uid ∈ detectGroupMembers upper lower card.data, ∃ o ∈ objects,
            o.isAddressbook = true ∧ o.deleted = false ∧ o.collectionId = card.collectionId ∧
            o.uid = some uid ∧ isGroup upper lower o.data = false) := by
  refine ⟨fun objects _ _ _ scope hids _ => complete_iff (hids.of_map.filter _),
    fun scope rows answer limit cursor query hlimit hanswer => ?_,
    fun _ _ name _ => category_count_iff name, category_counts_iff,
    fun objects addressbookId card n hbooks hcard hmem => ?_⟩
  · rw [(listContacts_filled (length_answer hanswer) hlimit cursor query).more, decide_eq_true_eq]
  · obtain ⟨name, heq, -⟩ | ⟨o, ho, -, heq, rfl⟩ := (mem_contactGroups _ _).1 hmem
    · cases heq
    · have hsame : card = o := List.inj_on_of_nodup_map hbooks.ids (List.mem_filter.1 hcard).1
        (List.mem_filter.1 ho).1 (Group.groupCard.inj heq)
      rw [← hsame]
      exact group_card_count_iff hbooks hcard

/-- Of two contacts without a name one may be shown twice and the other never. -/
theorem nameless_contacts_missed : ¬ ∀ (scope : Scope) (rows : List DavObject), rows.Nodup →
    Complete id id List.length scope rows := by
  intro h
  have hcomplete := h ⟨none, none, none, none⟩ [someone 0 "FN:".toList, someone 1 "FN:".toList]
    (by decide)
  have hsame := (complete_iff (by decide)).1 hcomplete (someone 0 "FN:".toList) (by simp) (by decide)
    (someone 1 "FN:".toList) (by simp) rfl
  exact absurd hsame (by decide)

end MailVerdict.Analysis.ContactGroups
