import Mathlib.Data.Set.Card
import MailVerdict.Model.CalendarLayout

/-!
# Packing a calendar

Lanes and columns are tracks of `Computation.IntervalTracks`, so neither overlaps and neither is
more than needed (`packed`). An event is widened to the edge of the day
only where no column further right is open meanwhile.
-/

namespace MailVerdict.Analysis.CalendarPacking

open Computation.IntervalTracks
open Model.CalendarLayout

theorem pairwise_mergeSort_key {ι κ : Type} [LinearOrder κ] (key : ι → κ) (items : List ι) :
    (items.mergeSort fun a b => decide (key a ≤ key b)).Pairwise fun a b => key a ≤ key b := by
  have h : (items.mergeSort fun a b => decide (key a ≤ key b)).Pairwise
      fun a b => decide (key a ≤ key b) = true := List.pairwise_mergeSort
    (fun a b c hab hbc => decide_eq_true ((of_decide_eq_true hab).trans (of_decide_eq_true hbc)))
    (fun a b => by simpa using le_total (key a) (key b)) items
  exact h.imp of_decide_eq_true

/-! ## Lanes -/

theorem clearing_lane : Clearing SpanningItem.startCol SpanningItem.endCol laneClears where
  mono hs h := decide_eq_true ((of_decide_eq_true h).trans_le hs)
  anti he h := decide_eq_true (he.trans_lt (of_decide_eq_true h))
  proper x := decide_eq_false (not_lt.2 x.le)

theorem sorted_spans (items : List SpanningItem) :
    (sortSpans items).Pairwise fun a b => a.startCol ≤ b.startCol :=
  (pairwise_mergeSort_key (fun a : SpanningItem =>
    toLex (a.startCol, -(a.endCol - a.startCol))) items).imp fun h => Prod.Lex.monotone_fst _ _ h

def SpanningItem.on (col : ℤ) (x : SpanningItem) : Bool :=
  decide (x.startCol ≤ col) && decide (col ≤ x.endCol)

theorem openAt_lane (col : ℤ) :
    openAt SpanningItem.startCol SpanningItem.endCol laneClears col = SpanningItem.on col := by
  funext x
  rw [openAt, laneClears, SpanningItem.on, ← decide_not]
  exact congrArg (decide _ && ·) (decide_eq_decide.2 not_lt)

/-- Each span gets one lane, overlapping spans get different lanes, and as many lanes are used as
spans ever share a column. -/
structure LanesPacked (items : List SpanningItem) : Prop where
  once : ((assignLanes items).map LanedItem.item).Perm items
  apart : (assignLanes items).Pairwise fun p q => p.item.startCol ≤ q.item.endCol →
    q.item.startCol ≤ p.item.endCol → p.lane ≠ q.lane
  fewest : ∃ k, (∀ c, c < k ↔ ∃ p ∈ assignLanes items, p.lane = c) ∧
    IsGreatest {n | ∃ col, n = items.countP (SpanningItem.on col)} k

theorem lanes_packed (items : List SpanningItem) : LanesPacked items := by
  have htracks := tracks_assign clearing_lane (sorted_spans items)
  have hperm : (sortSpans items).Perm items := List.mergeSort_perm _ _
  refine ⟨?_, ?_, (assign SpanningItem.startCol SpanningItem.endCol laneClears []
    (sortSpans items)).2.length, fun c => ?_, ?_⟩
  · have hitems := assign_fst SpanningItem.startCol SpanningItem.endCol laneClears []
      (sortSpans items)
    rw [assignLanes, List.map_map]
    exact (List.Perm.of_eq hitems).trans hperm
  · rw [assignLanes, List.pairwise_map]
    exact htracks.ne_of_overlap.imp fun h hpq hqp =>
      h ⟨decide_eq_false (not_lt.2 hqp), decide_eq_false (not_lt.2 hpq)⟩
  · constructor
    · intro hc
      obtain ⟨x, hx, -⟩ := htracks.held c _ (List.getElem?_eq_getElem hc)
      exact ⟨_, List.mem_map.2 ⟨_, hx, rfl⟩, rfl⟩
    · rintro ⟨p, hp, rfl⟩
      obtain ⟨a, ha, rfl⟩ := List.mem_map.1 hp
      exact htracks.bound a ha
  · have hgreatest := isGreatest_tracks clearing_lane (sorted_spans items)
    simpa only [openAt_lane, hperm.countP_eq] using hgreatest

/-! ## Columns -/

theorem clearing_column : Clearing Timed.start Timed.finish columnClears where
  mono hs h := decide_eq_true ((of_decide_eq_true h).trans hs)
  anti he h := decide_eq_true (he.trans (of_decide_eq_true h))
  proper x := decide_eq_false (not_le.2 x.1.lt)

def Overlaps (x y : Timed) : Prop := x.start < y.finish ∧ y.start < x.finish

def Linked (items : List Timed) : Timed → Timed → Prop :=
  Relation.ReflTransGen fun x y => x ∈ items ∧ y ∈ items ∧ Overlaps x y

theorem overlap_iff {x y : Timed} :
    Overlap Timed.start Timed.finish columnClears x y ↔ Overlaps x y := by
  simp only [Overlap, columnClears, decide_eq_false_iff_not, not_le, Overlaps]
  exact and_comm

theorem linked_eq (items : List Timed) :
    Linked items = Connected Timed.start Timed.finish columnClears items := by
  simp only [Linked, Connected, overlap_iff]

def running (items : List Timed) (x : Timed) (t : ℚ) : Set Timed :=
  {y | y ∈ items ∧ Linked items x y ∧ y.start ≤ t ∧ t < y.finish}

variable {items : List TimedItem} {cluster : List Timed} {x : Timed} {p q : PackedItem}

theorem sorted_timed (items : List Timed) :
    (sortTimed items).Pairwise fun a b => a.start ≤ b.start :=
  (pairwise_mergeSort_key (fun a : Timed => toLex (a.start, a.finish)) items).imp
    fun h => Prod.Lex.monotone_fst _ _ h

theorem sortTimed_perm (items : List Timed) : (sortTimed items).Perm items :=
  List.mergeSort_perm _ _

theorem flatten_clusters (sorted : List Timed) : (clusters sorted).flatten = sorted := by
  cases sorted with
  | nil => rfl
  | cons first rest => exact flatten_clustersFrom _ _ _ [first] first.finish rest

theorem clusters_spec {sorted : List Timed}
    (hsorted : sorted.Pairwise fun a b => a.start ≤ b.start) :
    (∀ cluster ∈ clusters sorted, ∀ x ∈ cluster, ∀ y ∈ cluster,
      Connected Timed.start Timed.finish columnClears cluster x y) ∧
    (clusters sorted).Pairwise fun c d =>
      ∀ x ∈ c, ∀ y ∈ d, columnClears x.finish y.start = true := by
  cases sorted with
  | nil => exact ⟨by simp [clusters], List.Pairwise.nil⟩
  | cons first rest =>
    obtain ⟨hlinked, hclear⟩ := clustersFrom_spec clearing_column
      (gathered_singleton first) hsorted
    exact ⟨fun c hc => (hlinked c hc).2, hclear⟩

theorem cut (items : List TimedItem) :
    (clusters (sortTimed items.zipIdx)).flatten.Perm items.zipIdx := by
  rw [flatten_clusters]
  exact sortTimed_perm _

theorem cluster_sorted (h : cluster ∈ clusters (sortTimed items.zipIdx)) :
    cluster.Pairwise fun a b => a.start ≤ b.start := by
  have hsub := List.sublist_flatten_of_mem h
  rw [flatten_clusters] at hsub
  exact (sorted_timed _).sublist hsub

theorem cluster_nodup (h : cluster ∈ clusters (sortTimed items.zipIdx)) :
    (cluster.map Prod.snd).Nodup := by
  have hall : ((clusters (sortTimed items.zipIdx)).flatten.map Prod.snd).Nodup := by
    rw [((cut items).map Prod.snd).nodup_iff, List.zipIdx_map_snd]
    exact List.nodup_range'
  exact hall.sublist ((List.sublist_flatten_of_mem h).map _)

theorem mem_cluster_iff (h : cluster ∈ clusters (sortTimed items.zipIdx)) (hx : x ∈ cluster)
    {y : Timed} : y ∈ cluster ↔ y ∈ items.zipIdx ∧ Linked items.zipIdx x y := by
  obtain ⟨hlinked, hclear⟩ := clusters_spec (sorted_timed items.zipIdx)
  have hmem : ∀ z, z ∈ (clusters (sortTimed items.zipIdx)).flatten ↔ z ∈ items.zipIdx :=
    fun z => (cut items).mem_iff
  constructor
  · intro hy
    refine ⟨(hmem y).1 (List.mem_flatten.2 ⟨cluster, h, hy⟩), ?_⟩
    rw [linked_eq]
    exact (hlinked cluster h x hx y hy).mono fun z hz =>
      (hmem z).1 (List.mem_flatten.2 ⟨cluster, h, hz⟩)
  · rintro ⟨-, hlink⟩
    rw [linked_eq] at hlink
    exact mem_of_connected hclear h hx (hlink.mono fun z hz => (hmem z).2 hz)

theorem mem_packColumns :
    p ∈ packColumns items ↔
      ∃ cluster ∈ clusters (sortTimed items.zipIdx), p ∈ packCluster cluster :=
  List.mem_flatMap

theorem item_mem (hp : p ∈ packCluster cluster) : p.item ∈ cluster := by
  obtain ⟨a, ha, rfl⟩ := List.mem_map.1 hp
  have hmem := List.mem_map_of_mem (f := Prod.fst) ha
  rwa [assign_fst] at hmem

theorem columns_eq (hp : p ∈ packCluster cluster) (hq : q ∈ packCluster cluster) :
    p.columns = q.columns := by
  obtain ⟨a, -, rfl⟩ := List.mem_map.1 hp
  obtain ⟨b, -, rfl⟩ := List.mem_map.1 hq
  rfl

theorem ncard_running (h : cluster ∈ clusters (sortTimed items.zipIdx)) (hx : x ∈ cluster)
    (t : ℚ) : (running items.zipIdx x t).ncard =
      cluster.countP (openAt Timed.start Timed.finish columnClears t) := by
  classical
  have heq : running items.zipIdx x t =
      ((cluster.filter (openAt Timed.start Timed.finish columnClears t)).toFinset : Set Timed) := by
    ext y
    rw [running, Set.mem_ofPred_eq, Finset.mem_coe, List.mem_toFinset, List.mem_filter, openAt_iff,
      mem_cluster_iff h hx, and_assoc, columnClears, decide_eq_false_iff_not, not_le]
  rw [heq, Set.ncard_coe_finset, List.toFinset_card_of_nodup, List.countP_eq_length_filter]
  exact (cluster_nodup h).of_map.filter _

theorem columnOf_eq {assigned : List (Timed × ℕ)} {c : ℕ}
    (hnodup : (assigned.map fun a => a.1.2).Nodup) (h : (x, c) ∈ assigned) :
    columnOf assigned x = c := by
  induction assigned with
  | nil => exact absurd h List.not_mem_nil
  | cons a assigned ih =>
    obtain ⟨hout, hrest⟩ := List.nodup_cons.1 hnodup
    unfold columnOf
    rcases List.mem_cons.1 h with rfl | h
    · rw [List.find?_cons_of_pos (by simp)]
      rfl
    · have hne : ¬ (a.1.2 == x.2) = true := fun heq =>
        hout (List.mem_map.2 ⟨(x, c), h, (beq_iff_eq.1 heq).symm⟩)
      rw [List.find?_cons_of_neg (p := fun a : Timed × ℕ => a.1.2 == x.2) hne]
      exact ih hrest h

theorem edge_le (hnodup : (cluster.map Prod.snd).Nodup) (hp : p ∈ packCluster cluster)
    (hq : q ∈ packCluster cluster) (hne : p.item.2 ≠ q.item.2) (hover : Overlaps p.item q.item)
    (hlt : p.column < q.column) : p.left + p.width ≤ q.left := by
  obtain ⟨a, ha, rfl⟩ := List.mem_map.1 hp
  obtain ⟨b, hb, rfl⟩ := List.mem_map.1 hq
  set placed := assign Timed.start Timed.finish columnClears [] cluster with hplaced
  have hrefs : (placed.1.map fun a => a.1.2).Nodup := by
    have hmap : (placed.1.map fun a => a.1.2) = (placed.1.map Prod.fst).map Prod.snd :=
      (List.map_map).symm
    rwa [hmap, hplaced, assign_fst]
  have hstays : isExpandable cluster placed.1 a.1 a.2 = false := by
    rw [isExpandable, Bool.not_eq_false', List.any_eq_true]
    refine ⟨b.1, item_mem hq, ?_⟩
    rw [columnOf_eq hrefs hb]
    simp only [Bool.and_eq_true, bne_iff_ne, decide_eq_true_eq]
    exact ⟨⟨⟨hne.symm, hlt⟩, hover.2⟩, hover.1⟩
  simp only [PackedItem.left, PackedItem.width, hstays, Bool.false_eq_true, if_false]
  have hstep : (a.2 : ℚ) + 1 ≤ b.2 := by exact_mod_cast hlt
  have hsum : (a.2 : ℚ) / placed.2.length * 100 + 100 / placed.2.length =
      (a.2 + 1) / placed.2.length * 100 := by ring
  rw [hsum]
  exact mul_le_mul_of_nonneg_right (div_le_div_of_nonneg_right hstep (Nat.cast_nonneg _))
    (by norm_num)

/-- Two packed items keep apart: in their columns, and as they are drawn. -/
def Apart (p q : PackedItem) : Prop :=
  Overlaps p.item q.item → p.column ≠ q.column ∧
    (p.left + p.width ≤ q.left ∨ q.left + q.width ≤ p.left)

theorem cluster_apart (h : cluster ∈ clusters (sortTimed items.zipIdx)) :
    (packCluster cluster).Pairwise Apart := by
  have htracks := tracks_assign clearing_column (cluster_sorted h)
  have hrefs : (packCluster cluster).Pairwise fun p q => p.item.2 ≠ q.item.2 := by
    have hnodup := cluster_nodup h
    rw [← assign_fst Timed.start Timed.finish columnClears [] cluster, List.map_map] at hnodup
    rw [packCluster, List.pairwise_map]
    exact List.pairwise_map.1 hnodup
  have hcolumns : (packCluster cluster).Pairwise fun p q =>
      Overlaps p.item q.item → p.column ≠ q.column := by
    rw [packCluster, List.pairwise_map]
    exact htracks.ne_of_overlap.imp fun h hover => h (overlap_iff.2 hover)
  refine (hrefs.and hcolumns).imp_of_mem fun {p q} hp hq ⟨hne, hcol⟩ hover => ?_
  refine ⟨hcol hover, ?_⟩
  rcases Nat.lt_or_gt_of_ne (hcol hover) with hlt | hgt
  · exact .inl (edge_le (cluster_nodup h) hp hq hne hover hlt)
  · exact .inr (edge_le (cluster_nodup h) hq hp hne.symm ⟨hover.2, hover.1⟩ hgt)

/-- Each item is packed once, left of the last column. Overlapping items have different columns and
do not touch as they are drawn. The items of one chain of overlaps have the same number of columns,
which is how many of them ever run together. -/
structure ColumnsPacked (items : List TimedItem) : Prop where
  once : ((packColumns items).map PackedItem.item).Perm items.zipIdx
  lt : ∀ p ∈ packColumns items, p.column < p.columns
  apart : (packColumns items).Pairwise Apart
  shared : ∀ p ∈ packColumns items, ∀ q ∈ packColumns items,
    Linked items.zipIdx p.item q.item → p.columns = q.columns
  fewest : ∀ p ∈ packColumns items,
    IsGreatest {n | ∃ t, n = (running items.zipIdx p.item t).ncard} p.columns

theorem columns_packed (items : List TimedItem) : ColumnsPacked items := by
  refine ⟨?_, ?_, ?_, ?_, ?_⟩
  · have hmap : (packColumns items).map PackedItem.item =
        (clusters (sortTimed items.zipIdx)).flatten := by
      rw [packColumns, List.map_flatMap, List.flatten_eq_flatMap]
      refine congrArg (List.flatMap · _) (funext fun cluster => ?_)
      rw [packCluster, List.map_map]
      exact assign_fst _ _ _ _ _
    rw [hmap]
    exact cut items
  · intro p hp
    obtain ⟨cluster, hcluster, hp⟩ := mem_packColumns.1 hp
    obtain ⟨a, ha, rfl⟩ := List.mem_map.1 hp
    exact (tracks_assign clearing_column (cluster_sorted hcluster)).bound a ha
  · refine List.pairwise_flatMap.2 ⟨fun cluster h => cluster_apart h, ?_⟩
    refine (clusters_spec (sorted_timed _)).2.imp fun hclear p hp q hq hover => ?_
    have hover' := (overlap_iff.2 hover).1
    rw [hclear _ (item_mem hp) _ (item_mem hq)] at hover'
    exact absurd hover'.symm Bool.false_ne_true
  · intro p hp q hq hlink
    obtain ⟨cluster, hcluster, hp⟩ := mem_packColumns.1 hp
    obtain ⟨cluster', hcluster', hq⟩ := mem_packColumns.1 hq
    have hmem : q.item ∈ cluster := (mem_cluster_iff hcluster (item_mem hp)).2
      ⟨((mem_cluster_iff hcluster' (item_mem hq)).1 (item_mem hq)).1, hlink⟩
    have hsame : cluster = cluster' := by
      by_contra hne
      have hdisjoint := List.Pairwise.forall_of_forall_of_flip
        (R := fun c d : List Timed => c = d ∨ ∀ x ∈ c, x ∉ d) (fun _ _ => .inl rfl)
        ((clusters_spec (sorted_timed items.zipIdx)).2.imp fun hclear => .inr fun x hx hx' => by
          have hself := hclear x hx x hx'
          exact Bool.false_ne_true ((clearing_column.proper x).symm.trans hself))
        ((clusters_spec (sorted_timed items.zipIdx)).2.imp fun hclear => .inr fun x hx hx' => by
          have hself := hclear x hx' x hx
          exact Bool.false_ne_true ((clearing_column.proper x).symm.trans hself))
        hcluster hcluster'
      exact hdisjoint.resolve_left hne _ hmem (item_mem hq)
    subst hsame
    exact columns_eq hp hq
  · intro p hp
    obtain ⟨cluster, hcluster, hp⟩ := mem_packColumns.1 hp
    have hgreatest := isGreatest_tracks clearing_column (cluster_sorted hcluster)
    simp only [ncard_running hcluster (item_mem hp)]
    obtain ⟨a, -, rfl⟩ := List.mem_map.1 hp
    exact hgreatest

/-- **Packing never overlaps and wastes nothing**, in the columns of a day and in the lanes of a
week. -/
theorem packed (items : List TimedItem) (spans : List SpanningItem) :
    ColumnsPacked items ∧ LanesPacked spans := ⟨columns_packed items, lanes_packed spans⟩

end MailVerdict.Analysis.CalendarPacking
