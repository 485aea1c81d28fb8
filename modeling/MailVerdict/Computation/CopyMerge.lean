import Mathlib.Data.Finset.Union
import Mathlib.Data.List.Sort

/-!
# Merging copies of a set of records

Several parties hold copies of the same records. Of the copies of one record, those with its
key, the one of the highest rank wins (`Best`); a record whose key is among the gone ones of
some party is dropped. The parties merge their copies two at a time, in any order and
grouping (`Folding`), and each merge is sorted.

A merge looks at what is left of earlier merges only, not at the copies themselves. That is
enough, since what is left covers them (`Covers`): the merge of two holdings that cover some
copies holds the best of all these copies (`mem_merge_iff`). So what a folding with at least
one merge holds depends on the copies alone (`Folding.eval_eq`), provided that two copies of
one record that have the same rank are equal.
-/

namespace MailVerdict.Computation.CopyMerge

universe u v w

variable {α : Type u} {K : Type v} {R : Type w} [DecidableEq K] [LinearOrder R]

/-! ## The best copies -/

section Best

variable (key : α → K) (rank : α → R)

/-- A copy that no copy of the same record outranks. -/
structure Best (l : List α) (r : α) : Prop where
  mem : r ∈ l
  above : ∀ q ∈ l, key q = key r → rank q ≤ rank r

/-- Two copies of one record that have the same rank are equal. -/
def Consistent (l : List α) : Prop :=
  ∀ a ∈ l, ∀ b ∈ l, key a = key b → rank a = rank b → a = b

/-- A copy is held unless one of its record is that it does not outrank. -/
def put (held : List α) (a : α) : List α :=
  match held.find? fun x => decide (key x = key a) with
  | none => held ++ [a]
  | some h =>
    if rank h < rank a then held.map fun x => if key x = key a then a else x else held

def collect (l : List α) : List α := l.foldl (put key rank) []

/-- What is held of some copies: one of each record, and none that is outranked. -/
structure Holds (l held : List α) : Prop where
  nodup : (held.map key).Nodup
  mem : ∀ r ∈ held, r ∈ l
  above : ∀ q ∈ l, ∃ r ∈ held, key r = key q ∧ rank q ≤ rank r

variable {key rank} {l held : List α}

theorem Holds.put (h : Holds key rank l held) (a : α) :
    Holds key rank (l ++ [a]) (put key rank held a) := by
  unfold CopyMerge.put
  cases hfind : held.find? fun x => decide (key x = key a) with
  | none =>
    have hnew : ∀ x ∈ held, key x ≠ key a := by simpa using hfind
    refine ⟨?_, fun r hr => ?_, fun q hq => ?_⟩
    · rw [List.map_append, List.nodup_append]
      refine ⟨h.nodup, List.nodup_singleton _, ?_⟩
      rintro _ hk _ hk' rfl
      obtain ⟨x, hx, hxk⟩ := List.mem_map.1 hk
      rw [List.map_singleton, List.mem_singleton] at hk'
      exact hnew x hx (hxk.trans hk')
    · obtain hr | hr := List.mem_append.1 hr
      · exact List.mem_append_left _ (h.mem r hr)
      · exact List.mem_append_right _ hr
    · obtain hq | hq := List.mem_append.1 hq
      · obtain ⟨r, hr, hkey, hle⟩ := h.above q hq
        exact ⟨r, List.mem_append_left _ hr, hkey, hle⟩
      · obtain rfl := List.mem_singleton.1 hq
        exact ⟨q, List.mem_append_right _ (List.mem_singleton.2 rfl), rfl, le_rfl⟩
  | some x =>
    have hx : x ∈ held := List.mem_of_find?_eq_some hfind
    have hxa : key x = key a := by simpa using List.find?_some hfind
    dsimp only
    split
    · next hlt =>
      have hkeys : (held.map fun y => if key y = key a then a else y).map key = held.map key := by
        rw [List.map_map]
        refine List.map_congr_left fun y _ => ?_
        simp only [Function.comp_apply]
        split
        · next hy => exact hy.symm
        · rfl
      have ha : a ∈ held.map fun y => if key y = key a then a else y :=
        List.mem_map.2 ⟨x, hx, if_pos hxa⟩
      refine ⟨by rw [hkeys]; exact h.nodup, fun r hr => ?_, fun q hq => ?_⟩
      · obtain ⟨y, hy, rfl⟩ := List.mem_map.1 hr
        split
        · exact List.mem_append_right _ (List.mem_singleton.2 rfl)
        · exact List.mem_append_left _ (h.mem y hy)
      · obtain hq | hq := List.mem_append.1 hq
        · obtain ⟨r, hr, hkey, hle⟩ := h.above q hq
          by_cases hra : key r = key a
          · have hrx : r = x := List.inj_on_of_nodup_map h.nodup hr hx (hra.trans hxa.symm)
            exact ⟨a, ha, hra.symm.trans hkey, hle.trans (hrx ▸ hlt.le)⟩
          · exact ⟨r, List.mem_map.2 ⟨r, hr, if_neg hra⟩, hkey, hle⟩
        · obtain rfl := List.mem_singleton.1 hq
          exact ⟨q, ha, rfl, le_rfl⟩
    · next hle =>
      refine ⟨h.nodup, fun r hr => List.mem_append_left _ (h.mem r hr), fun q hq => ?_⟩
      obtain hq | hq := List.mem_append.1 hq
      · exact h.above q hq
      · obtain rfl := List.mem_singleton.1 hq
        exact ⟨x, hx, hxa, not_lt.1 hle⟩

theorem Holds.foldl (h : Holds key rank l held) (m : List α) :
    Holds key rank (l ++ m) (m.foldl (CopyMerge.put key rank) held) := by
  induction m generalizing l held with
  | nil => simpa using h
  | cons a m ih => simpa using ih (h.put a)

theorem holds_collect (l : List α) : Holds key rank l (collect key rank l) := by
  have hempty : Holds key rank ([] : List α) [] := ⟨List.nodup_nil, nofun, nofun⟩
  simpa [collect] using hempty.foldl l

/-- **What is collected is the best of each record.** -/
theorem mem_collect_iff (hconsistent : Consistent key rank l) {r : α} :
    r ∈ collect key rank l ↔ Best key rank l r := by
  have h : Holds key rank l (collect key rank l) := holds_collect l
  constructor
  · intro hr
    refine ⟨h.mem r hr, fun q hq hkey => ?_⟩
    obtain ⟨r', hr', hkey', hle⟩ := h.above q hq
    rwa [List.inj_on_of_nodup_map h.nodup hr hr' (hkey.symm.trans hkey'.symm)]
  · rintro ⟨hr, habove⟩
    obtain ⟨r', hr', hkey, hle⟩ := h.above r hr
    have hsame := habove r' (h.mem r' hr') hkey
    rwa [hconsistent r hr r' (h.mem r' hr') hkey.symm (le_antisymm hle hsame)]

end Best

/-! ## Holdings that cover copies -/

section Covers

variable {key : α → K} {rank : α → R}

/-- Of every copy whose key is not gone a copy of the same record is held that it does not
outrank. -/
structure Covers (key : α → K) (rank : α → R) (gone : Finset K) (all held : List α) : Prop where
  mem : ∀ r ∈ held, r ∈ all
  above : ∀ q ∈ all, key q ∉ gone → ∃ r ∈ held, key r = key q ∧ rank q ≤ rank r

omit [DecidableEq K] in
theorem Covers.refl (gone : Finset K) (l : List α) : Covers key rank gone l l :=
  ⟨fun _ hr => hr, fun q hq _ => ⟨q, hq, rfl, le_rfl⟩⟩

variable {gone gone' : Finset K} {all all' held held' : List α}

theorem Covers.append (h : Covers key rank gone all held) (h' : Covers key rank gone' all' held') :
    Covers key rank (gone ∪ gone') (all ++ all') (held ++ held') where
  mem r hr := by
    obtain hr | hr := List.mem_append.1 hr
    · exact List.mem_append_left _ (h.mem r hr)
    · exact List.mem_append_right _ (h'.mem r hr)
  above q hq hgone := by
    rw [Finset.mem_union, not_or] at hgone
    obtain hq | hq := List.mem_append.1 hq
    · obtain ⟨r, hr, hkey, hle⟩ := h.above q hq hgone.1
      exact ⟨r, List.mem_append_left _ hr, hkey, hle⟩
    · obtain ⟨r, hr, hkey, hle⟩ := h'.above q hq hgone.2
      exact ⟨r, List.mem_append_right _ hr, hkey, hle⟩

/-- **The merge of what is held is the best of what it covers.** -/
theorem mem_merge_iff (h : Covers key rank gone all held) (hconsistent : Consistent key rank all)
    {r : α} : r ∈ collect key rank (held.filter fun a => decide (key a ∉ gone)) ↔
      key r ∉ gone ∧ Best key rank all r := by
  have hsub : ∀ a ∈ held.filter fun a => decide (key a ∉ gone), a ∈ all := fun a ha =>
    h.mem a (List.mem_filter.1 ha).1
  rw [mem_collect_iff fun a ha b hb => hconsistent a (hsub a ha) b (hsub b hb)]
  constructor
  · rintro ⟨hr, habove⟩
    have hgone : key r ∉ gone := of_decide_eq_true (List.mem_filter.1 hr).2
    refine ⟨hgone, hsub r hr, fun q hq hkey => ?_⟩
    obtain ⟨q', hq', hkey', hle⟩ := h.above q hq (hkey ▸ hgone)
    have hheld : q' ∈ held.filter fun a => decide (key a ∉ gone) :=
      List.mem_filter.2 ⟨hq', by rw [hkey', hkey]; exact decide_eq_true hgone⟩
    exact hle.trans (habove q' hheld (hkey'.trans hkey))
  · rintro ⟨hgone, hr, habove⟩
    obtain ⟨r', hr', hkey, hle⟩ := h.above r hr hgone
    have hsame : r = r' :=
      hconsistent r hr r' (h.mem r' hr') hkey.symm (le_antisymm hle (habove r' (h.mem r' hr') hkey))
    refine ⟨List.mem_filter.2 ⟨hsame ▸ hr', decide_eq_true hgone⟩, fun q hq hkey => ?_⟩
    exact habove q (hsub q hq) hkey

end Covers

/-! ## Foldings -/

/-- What one party has: its copies, and the keys it knows to be gone. -/
structure Copy (α : Type u) (K : Type v) where
  items : List α
  gone : Finset K

inductive Folding (α : Type u) (K : Type v)
  | copy (c : Copy α K)
  | merge (l r : Folding α K)

namespace Folding

def copies : Folding α K → List (Copy α K)
  | .copy c => [c]
  | .merge l r => l.copies ++ r.copies

omit [DecidableEq K] in
theorem copies_length_pos (f : Folding α K) : 0 < f.copies.length := by
  induction f with
  | copy c => exact Nat.one_pos
  | merge l r hl hr =>
    rw [copies, List.length_append]
    omega

/-- Every item of the copies, and every key that is gone for one of them. -/
def all (f : Folding α K) : List α := f.copies.flatMap Copy.items

def allGone : Folding α K → Finset K
  | .copy c => c.gone
  | .merge l r => l.allGone ∪ r.allGone

theorem mem_allGone {f : Folding α K} {k : K} : k ∈ f.allGone ↔ ∃ c ∈ f.copies, k ∈ c.gone := by
  induction f with
  | copy c => simp [allGone, copies]
  | merge l r hl hr =>
    rw [allGone, Finset.mem_union, hl, hr, copies]
    constructor
    · rintro (⟨c, hc, hk⟩ | ⟨c, hc, hk⟩)
      · exact ⟨c, List.mem_append_left _ hc, hk⟩
      · exact ⟨c, List.mem_append_right _ hc, hk⟩
    · rintro ⟨c, hc, hk⟩
      obtain hc | hc := List.mem_append.1 hc
      · exact Or.inl ⟨c, hc, hk⟩
      · exact Or.inr ⟨c, hc, hk⟩

omit [DecidableEq K] in
theorem mem_all {f : Folding α K} {a : α} : a ∈ f.all ↔ ∃ c ∈ f.copies, a ∈ c.items :=
  List.mem_flatMap

variable (key : α → K) (rank : α → R) (le : α → α → Prop) [DecidableRel le]

def mergeItems (gone : Finset K) (a b : List α) : List α :=
  (collect key rank ((a ++ b).filter fun x => decide (key x ∉ gone))).insertionSort le

def eval : Folding α K → Copy α K
  | .copy c => c
  | .merge l r =>
    ⟨mergeItems key rank le (l.eval.gone ∪ r.eval.gone) l.eval.items r.eval.items,
      l.eval.gone ∪ r.eval.gone⟩

variable {key rank le} {f g a b : Folding α K}

theorem gone_eval : (f.eval key rank le).gone = f.allGone := by
  induction f with
  | copy c => rfl
  | merge l r hl hr => rw [eval, allGone, hl, hr]

omit [DecidableEq K] in
theorem all_merge : (merge a b).all = a.all ++ b.all := by
  simp [all, copies]

/-- **Every folding covers its copies**, and one with a merge holds the best of them. -/
theorem covers_eval (hconsistent : Consistent key rank f.all) :
    Covers key rank f.allGone f.all (f.eval key rank le).items := by
  induction f with
  | copy c =>
    have hall : (copy c).all = c.items := by simp [all, copies]
    rw [hall]
    exact Covers.refl _ _
  | merge l r hl hr =>
    have hleft : Consistent key rank l.all := fun x hx y hy =>
      hconsistent x (by rw [all_merge]; exact List.mem_append_left _ hx) y
        (by rw [all_merge]; exact List.mem_append_left _ hy)
    have hright : Consistent key rank r.all := fun x hx y hy =>
      hconsistent x (by rw [all_merge]; exact List.mem_append_right _ hx) y
        (by rw [all_merge]; exact List.mem_append_right _ hy)
    have happend := (hl hleft).append (hr hright)
    rw [all_merge] at hconsistent ⊢
    rw [eval, mergeItems, gone_eval, gone_eval]
    have hmem := fun x => mem_merge_iff happend hconsistent (r := x)
    refine ⟨fun x hx => ?_, fun q hq hgone => ?_⟩
    · exact ((hmem x).1 ((List.mem_insertionSort le).1 hx)).2.mem
    · obtain ⟨x, hx, hkey, hle⟩ := happend.above q hq hgone
      have hheld : x ∈ (l.eval key rank le).items ++ (r.eval key rank le).items := hx
      let kept := ((l.eval key rank le).items ++ (r.eval key rank le).items).filter fun z =>
        decide (key z ∉ l.allGone ∪ r.allGone)
      have hbest : Holds key rank kept (collect key rank kept) := holds_collect kept
      obtain ⟨y, hy, hykey, hyle⟩ := hbest.above x
        (List.mem_filter.2 ⟨hheld, by rw [hkey]; exact decide_eq_true hgone⟩)
      exact ⟨y, (List.mem_insertionSort le).2 hy, hykey.trans hkey, hle.trans hyle⟩

theorem mem_eval_merge (hconsistent : Consistent key rank (merge a b).all) {r : α} :
    r ∈ ((merge a b).eval key rank le).items ↔
      key r ∉ (merge a b).allGone ∧ Best key rank (merge a b).all r := by
  have hleft : Consistent key rank a.all := fun x hx y hy =>
    hconsistent x (by rw [all_merge]; exact List.mem_append_left _ hx) y
      (by rw [all_merge]; exact List.mem_append_left _ hy)
  have hright : Consistent key rank b.all := fun x hx y hy =>
    hconsistent x (by rw [all_merge]; exact List.mem_append_right _ hx) y
      (by rw [all_merge]; exact List.mem_append_right _ hy)
  have hcovers : ∀ f : Folding α K, Consistent key rank f.all →
      Covers key rank f.allGone f.all (f.eval key rank le).items := fun _ hf => covers_eval hf
  have happend := (hcovers a hleft).append (hcovers b hright)
  rw [all_merge] at hconsistent ⊢
  rw [eval, mergeItems, List.mem_insertionSort, gone_eval, gone_eval]
  exact mem_merge_iff happend hconsistent

theorem exists_mem_eval_merge (hconsistent : Consistent key rank (merge a b).all) {q : α}
    (hq : q ∈ (merge a b).all) (hgone : key q ∉ (merge a b).allGone) :
    ∃ r ∈ ((merge a b).eval key rank le).items, key r = key q := by
  have hcovers : Covers key rank (merge a b).allGone (merge a b).all
      ((merge a b).eval key rank le).items := covers_eval hconsistent
  obtain ⟨r, hr, hkey, -⟩ := hcovers.above q hq hgone
  exact ⟨r, hr, hkey⟩

theorem nodup_eval_merge : (((merge a b).eval key rank le).items.map key).Nodup :=
  ((List.perm_insertionSort le _).map key).nodup_iff.2 (holds_collect _).nodup

variable [Std.Total le] [IsTrans α le]

theorem sorted_eval_merge : ((merge a b).eval key rank le).items.Pairwise le :=
  List.pairwise_insertionSort le _

/-- **Order and grouping do not matter**: foldings of the same copies, each with a merge, come
to the same. -/
theorem eval_eq {a' b' : Folding α K} (hanti : ∀ x y, le x y → le y x → key x = key y)
    (hcopies : ∀ c, c ∈ (merge a b).copies ↔ c ∈ (merge a' b').copies)
    (hconsistent : Consistent key rank (merge a b).all) :
    (merge a b).eval key rank le = (merge a' b').eval key rank le := by
  have hall : ∀ x, x ∈ (merge a b).all ↔ x ∈ (merge a' b').all := fun x => by
    simp only [mem_all, hcopies]
  have hgone : (merge a b).allGone = (merge a' b').allGone := by
    ext k
    simp only [mem_allGone, hcopies]
  have hconsistent' : Consistent key rank (merge a' b').all := fun x hx y hy =>
    hconsistent x ((hall x).2 hx) y ((hall y).2 hy)
  have hmem : ∀ r, r ∈ ((merge a b).eval key rank le).items ↔
      r ∈ ((merge a' b').eval key rank le).items := fun r => by
    rw [mem_eval_merge hconsistent, mem_eval_merge hconsistent', hgone]
    constructor
    · rintro ⟨hnot, hbest⟩
      exact ⟨hnot, (hall r).1 hbest.mem, fun q hq => hbest.above q ((hall q).2 hq)⟩
    · rintro ⟨hnot, hbest⟩
      exact ⟨hnot, (hall r).2 hbest.mem, fun q hq => hbest.above q ((hall q).1 hq)⟩
  have hperm : ((merge a b).eval key rank le).items.Perm
      ((merge a' b').eval key rank le).items :=
    (List.perm_ext_iff_of_nodup nodup_eval_merge.of_map nodup_eval_merge.of_map).2 hmem
  have hitems : ((merge a b).eval key rank le).items = ((merge a' b').eval key rank le).items := by
    refine hperm.eq_of_pairwise (fun x y hx hy hxy hyx => ?_) sorted_eval_merge sorted_eval_merge
    exact List.inj_on_of_nodup_map nodup_eval_merge hx ((hmem y).2 hy) (hanti x y hxy hyx)
  have hsets : ((merge a b).eval key rank le).gone = ((merge a' b').eval key rank le).gone := by
    rw [gone_eval, gone_eval, hgone]
  cases hleft : (merge a b).eval key rank le
  cases hright : (merge a' b').eval key rank le
  rw [hleft, hright] at hitems hsets
  simp only at hitems hsets
  rw [hitems, hsets]

end Folding

end MailVerdict.Computation.CopyMerge
