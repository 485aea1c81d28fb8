import Mathlib.Data.List.Nodup
import Mathlib.Data.List.Perm.Subperm
import Mathlib.Order.Lattice
import Mathlib.Order.Bounds.Defs

/-!
# Intervals on tracks

Items that start and finish are put on tracks in order of their starts, each on the first track
whose last item clears its start, else on a new one (`assign`). `clears` says whether a finish
leaves room for a start: `≤` for intervals without their ends, `<` for intervals with them.

Items on one track are clear of each other, and as many tracks are used as items are ever open
together (`Tracks`, kept by `Tracks.assign`). A sweep cuts the items into the components of
overlap (`clustersFrom`).
-/

namespace MailVerdict.Computation.IntervalTracks

universe u v

variable {ι : Type u} {α : Type v}

section Definitions

variable (start finish : ι → α) (clears : α → α → Bool)

/-- The last finishes of the tracks after an item, and the item's track. -/
def place (ends : List α) (x : ι) : List α × ℕ :=
  match ends.findIdx? fun e => clears e (start x) with
  | none => (ends ++ [finish x], ends.length)
  | some i => (ends.set i (finish x), i)

/-- The items with their tracks, and the last finishes of the tracks. -/
def assign (ends : List α) : List ι → List (ι × ℕ) × List α
  | [] => ([], ends)
  | x :: xs =>
    let placed := place start finish clears ends x
    let others := assign placed.1 xs
    ((x, placed.2) :: others.1, others.2)

def Overlap (x y : ι) : Prop :=
  clears (finish x) (start y) = false ∧ clears (finish y) (start x) = false

def Connected (items : List ι) : ι → ι → Prop :=
  Relation.ReflTransGen fun x y => x ∈ items ∧ y ∈ items ∧ Overlap start finish clears x y

/-- Items by start, cut where one starts that everything before it clears. -/
def clustersFrom [Max α] (current : List ι) (latest : α) : List ι → List (List ι)
  | [] => [current]
  | x :: xs =>
    if clears latest (start x) then current :: clustersFrom [x] (finish x) xs
    else clustersFrom (current ++ [x]) (max latest (finish x)) xs

variable [LinearOrder α]

def openAt (t : α) (x : ι) : Bool := decide (start x ≤ t) && !clears (finish x) t

/-- What is cleared stays cleared; no item clears its own start; what a later finish clears an
earlier one does. -/
structure Clearing : Prop where
  mono : ∀ {e s s'}, s ≤ s' → clears e s = true → clears e s' = true
  anti : ∀ {e e' s}, e ≤ e' → clears e' s = true → clears e s = true
  proper : ∀ x, clears (finish x) (start x) = false

/-- **Where a partition stands**: every track ends with one of its items, what the last item of a
track clears the others do, and there was a moment with an item open on every track. -/
structure Tracks (done : List (ι × ℕ)) (ends : List α) : Prop where
  held : ∀ c e, ends[c]? = some e → ∃ x, (x, c) ∈ done ∧ finish x = e
  bound : ∀ p ∈ done, p.2 < ends.length
  cleared : ∀ p ∈ done, ∀ e s, ends[p.2]? = some e → (∀ q ∈ done, start q.1 ≤ s) →
    clears e s = true → clears (finish p.1) s = true
  apart : done.Pairwise fun p q => p.2 = q.2 → clears (finish p.1) (start q.1) = true
  reached : ends = [] ∨ ∃ t, ends.length ≤ done.countP fun p => openAt start finish clears t p.1

/-- What is being gathered: linked items, the latest of them finishing at `latest`. -/
structure Gathered (current : List ι) (latest : α) : Prop where
  connected : ∀ x ∈ current, ∀ y ∈ current, Connected start finish clears current x y
  last : ∃ x ∈ current, finish x = latest
  most : ∀ x ∈ current, finish x ≤ latest

end Definitions

variable {start finish : ι → α} {clears : α → α → Bool}

variable (start finish clears) in
theorem assign_fst (ends : List α) (xs : List ι) :
    (assign start finish clears ends xs).1.map Prod.fst = xs := by
  induction xs generalizing ends with
  | nil => rfl
  | cons x xs ih => rw [assign, List.map_cons, ih]

theorem Overlap.symm {x y : ι} (h : Overlap start finish clears x y) :
    Overlap start finish clears y x := ⟨h.2, h.1⟩

theorem Connected.symm {items : List ι} {x y : ι}
    (h : Connected start finish clears items x y) : Connected start finish clears items y x := by
  induction h with
  | refl => exact Relation.ReflTransGen.refl
  | tail _ hlink ih => exact Relation.ReflTransGen.head ⟨hlink.2.1, hlink.1, hlink.2.2.symm⟩ ih

theorem Connected.mono {items items' : List ι} {x y : ι} (hsub : ∀ z ∈ items, z ∈ items')
    (h : Connected start finish clears items x y) : Connected start finish clears items' x y :=
  Relation.ReflTransGen.mono (fun _ _ h => ⟨hsub _ h.1, hsub _ h.2.1, h.2.2⟩) _ _ h

variable [LinearOrder α] {done : List (ι × ℕ)} {ends : List α} {x : ι}

theorem openAt_iff {t : α} :
    openAt start finish clears t x = true ↔ start x ≤ t ∧ clears (finish x) t = false := by
  simp [openAt]

theorem Tracks.length_le_open (h : Tracks start finish clears done ends)
    (hstart : ∀ p ∈ done, start p.1 ≤ start x)
    (hfull : ∀ e ∈ ends, clears e (start x) = false) :
    ends.length ≤ done.countP fun p => openAt start finish clears (start x) p.1 := by
  have hsub : List.range ends.length ⊆
      (done.filter fun p => openAt start finish clears (start x) p.1).map Prod.snd := by
    intro c hc
    obtain ⟨y, hy, hfin⟩ := h.held c _ (List.getElem?_eq_getElem (List.mem_range.1 hc))
    refine List.mem_map.2 ⟨(y, c), List.mem_filter.2 ⟨hy, openAt_iff.2 ⟨hstart _ hy, ?_⟩⟩, rfl⟩
    rw [hfin]
    exact hfull _ (List.getElem_mem _)
  have hle := (List.subperm_of_subset List.nodup_range hsub).length_le
  rwa [List.length_range, List.length_map, ← List.countP_eq_length_filter] at hle

/-- **One item is placed.** -/
theorem Tracks.place (hc : Clearing start finish clears) (h : Tracks start finish clears done ends)
    (hstart : ∀ p ∈ done, start p.1 ≤ start x) :
    Tracks start finish clears (done ++ [(x, (place start finish clears ends x).2)])
      (place start finish clears ends x).1 := by
  unfold IntervalTracks.place
  cases hfree : ends.findIdx? fun e => clears e (start x) with
  | none =>
    have hfull : ∀ e ∈ ends, clears e (start x) = false := List.findIdx?_eq_none_iff.1 hfree
    have hold : ∀ p ∈ done, (ends ++ [finish x])[p.2]? = ends[p.2]? := fun p hp =>
      List.getElem?_append_left (h.bound p hp)
    refine ⟨?_, ?_, ?_, ?_, .inr ⟨start x, ?_⟩⟩
    · intro c e he
      rcases Nat.lt_or_ge c ends.length with hlt | hge
      · rw [List.getElem?_append_left hlt] at he
        obtain ⟨y, hy, hfin⟩ := h.held c e he
        exact ⟨y, List.mem_append_left _ hy, hfin⟩
      · rw [List.getElem?_append_right hge, List.getElem?_singleton] at he
        split at he
        · rename_i hzero
          have hlen : c = ends.length := by omega
          exact ⟨x, by simp [hlen], Option.some.inj he⟩
        · cases he
    · intro p hp
      rw [List.length_append, List.length_singleton]
      rcases List.mem_append.1 hp with hp | hp
      · exact Nat.lt_succ_of_lt (h.bound p hp)
      · rw [List.mem_singleton.1 hp]
        exact Nat.lt_succ_self _
    · intro p hp e s he hs hclear
      rcases List.mem_append.1 hp with hp | hp
      · rw [hold p hp] at he
        exact h.cleared p hp e s he (fun q hq => hs q (List.mem_append_left _ hq)) hclear
      · obtain rfl := List.mem_singleton.1 hp
        rw [List.getElem?_concat_length] at he
        rwa [Option.some.inj he]
    · refine List.pairwise_append.2 ⟨h.apart, List.pairwise_singleton _ _, ?_⟩
      intro p hp q hq hsame
      obtain rfl := List.mem_singleton.1 hq
      exact absurd hsame (h.bound p hp).ne
    · have hopen : openAt start finish clears (start x) x = true :=
        openAt_iff.2 ⟨le_rfl, hc.proper x⟩
      rw [List.length_append, List.length_singleton, List.countP_append]
      exact Nat.add_le_add (h.length_le_open hstart hfull) (by simp [hopen])
  | some i =>
    obtain ⟨hi, hclear, -⟩ := List.findIdx?_eq_some_iff_getElem.1 hfree
    -- the items of the track are over when the new one starts
    have hover : ∀ p ∈ done, p.2 = i → clears (finish p.1) (start x) = true := by
      intro p hp hpi
      refine h.cleared p hp ends[i] (start x) ?_ hstart hclear
      rw [hpi, List.getElem?_eq_getElem hi]
    refine ⟨?_, ?_, ?_, ?_, .inr ?_⟩
    · intro c e he
      by_cases hci : i = c
      · rw [List.getElem?_set, if_pos hci, if_pos hi] at he
        exact ⟨x, by simp [hci], Option.some.inj he⟩
      · rw [List.getElem?_set_ne hci] at he
        obtain ⟨y, hy, hfin⟩ := h.held c e he
        exact ⟨y, List.mem_append_left _ hy, hfin⟩
    · intro p hp
      rw [List.length_set]
      rcases List.mem_append.1 hp with hp | hp
      · exact h.bound p hp
      · rwa [List.mem_singleton.1 hp]
    · intro p hp e s he hs hclear'
      have hxs : start x ≤ s := hs (x, i) (by simp)
      rcases List.mem_append.1 hp with hp | hp
      · by_cases hpi : i = p.2
        · exact hc.mono hxs (hover p hp hpi.symm)
        · rw [List.getElem?_set_ne hpi] at he
          exact h.cleared p hp e s he (fun q hq => hs q (List.mem_append_left _ hq)) hclear'
      · obtain rfl := List.mem_singleton.1 hp
        rw [List.getElem?_set_self hi] at he
        rwa [Option.some.inj he]
    · refine List.pairwise_append.2 ⟨h.apart, List.pairwise_singleton _ _, ?_⟩
      intro p hp q hq hsame
      obtain rfl := List.mem_singleton.1 hq
      exact hover p hp hsame
    · rcases h.reached with rfl | ⟨t, ht⟩
      · exact absurd hi (Nat.not_lt_zero i)
      · refine ⟨t, ?_⟩
        rw [List.length_set, List.countP_append]
        exact ht.trans (Nat.le_add_right _ _)

/-- **All items are placed**, in order of their starts. -/
theorem Tracks.assign (hc : Clearing start finish clears) {xs : List ι}
    (hsorted : xs.Pairwise fun x y => start x ≤ start y)
    (h : Tracks start finish clears done ends)
    (hstart : ∀ p ∈ done, ∀ x ∈ xs, start p.1 ≤ start x) :
    Tracks start finish clears (done ++ (assign start finish clears ends xs).1)
      (assign start finish clears ends xs).2 := by
  induction xs generalizing done ends with
  | nil =>
    rw [IntervalTracks.assign, List.append_nil]
    exact h
  | cons x xs ih =>
    obtain ⟨hfirst, hrest⟩ := List.pairwise_cons.1 hsorted
    have hplaced := h.place hc fun p hp => hstart p hp x List.mem_cons_self
    have hnext := ih hrest hplaced fun p hp y hy => by
      rcases List.mem_append.1 hp with hp | hp
      · exact hstart p hp y (List.mem_cons_of_mem _ hy)
      · rw [List.mem_singleton.1 hp]
        exact hfirst y hy
    rw [List.append_assoc, List.singleton_append] at hnext
    exact hnext

theorem tracks_assign (hc : Clearing start finish clears) {xs : List ι}
    (hsorted : xs.Pairwise fun x y => start x ≤ start y) :
    Tracks start finish clears (assign start finish clears [] xs).1
      (assign start finish clears [] xs).2 :=
  Tracks.assign hc hsorted
    ⟨by simp, by simp, by simp, List.Pairwise.nil, .inl rfl⟩ (by simp)

theorem Tracks.ne_of_overlap (h : Tracks start finish clears done ends) :
    done.Pairwise fun p q => Overlap start finish clears p.1 q.1 → p.2 ≠ q.2 :=
  h.apart.imp fun hapart hover hsame =>
    Bool.false_ne_true (hover.1.symm.trans (hapart hsame))

theorem Tracks.open_le_length (hc : Clearing start finish clears)
    (h : Tracks start finish clears done ends) (t : α) :
    (done.countP fun p => openAt start finish clears t p.1) ≤ ends.length := by
  rw [List.countP_eq_length_filter]
  set now := done.filter fun p => openAt start finish clears t p.1 with hnow
  have hnodup : (now.map Prod.snd).Nodup := by
    rw [List.Nodup, List.pairwise_map]
    refine (h.apart.sublist List.filter_sublist).imp_of_mem fun {p q} hp hq hapart hsame => ?_
    have hpopen := (openAt_iff.1 (List.mem_filter.1 hp).2).2
    have hqstart := (openAt_iff.1 (List.mem_filter.1 hq).2).1
    exact Bool.false_ne_true (hpopen.symm.trans (hc.mono hqstart (hapart hsame)))
  have hsub : now.map Prod.snd ⊆ List.range ends.length := by
    intro c hmem
    obtain ⟨p, hp, rfl⟩ := List.mem_map.1 hmem
    exact List.mem_range.2 (h.bound p (List.mem_filter.1 hp).1)
  have hle := (List.subperm_of_subset hnodup hsub).length_le
  rwa [List.length_map, List.length_range] at hle

/-- **As many tracks as items are ever open together.** -/
theorem isGreatest_tracks [Nonempty α] (hc : Clearing start finish clears) {xs : List ι}
    (hsorted : xs.Pairwise fun x y => start x ≤ start y) :
    IsGreatest {n | ∃ t, n = xs.countP (openAt start finish clears t)}
      (assign start finish clears [] xs).2.length := by
  have h := tracks_assign hc hsorted
  have hcount : ∀ t, ((assign start finish clears [] xs).1.countP fun p =>
      openAt start finish clears t p.1) = xs.countP (openAt start finish clears t) := by
    intro t
    conv_rhs => rw [← assign_fst start finish clears [] xs]
    rw [List.countP_map]
    rfl
  have hmost : ∀ t, xs.countP (openAt start finish clears t) ≤
      (assign start finish clears [] xs).2.length := fun t =>
    (hcount t).symm.trans_le (h.open_le_length hc t)
  constructor
  · rcases h.reached with hnil | ⟨t, ht⟩
    · obtain ⟨t⟩ := ‹Nonempty α›
      refine ⟨t, le_antisymm ?_ (hmost t)⟩
      rw [hnil]
      exact Nat.zero_le _
    · exact ⟨t, le_antisymm (ht.trans_eq (hcount t)) (hmost t)⟩
  · rintro n ⟨t, rfl⟩
    exact hmost t

/-! ## Clusters -/

variable (start finish clears) in
theorem flatten_clustersFrom (current : List ι) (latest : α) (xs : List ι) :
    (clustersFrom start finish clears current latest xs).flatten = current ++ xs := by
  induction xs generalizing current latest with
  | nil => simp [clustersFrom]
  | cons x xs ih =>
    rw [clustersFrom]
    split
    · rw [List.flatten_cons, ih, List.singleton_append]
    · rw [ih, List.append_assoc, List.singleton_append]

theorem gathered_singleton (x : ι) :
    Gathered start finish clears [x] (finish x) := by
  refine ⟨fun y hy z hz => ?_, ⟨x, List.mem_singleton_self x, rfl⟩, fun y hy => ?_⟩
  · rw [List.mem_singleton.1 hy, List.mem_singleton.1 hz]
    exact Relation.ReflTransGen.refl
  · rw [List.mem_singleton.1 hy]

theorem Gathered.add (hc : Clearing start finish clears) {current : List ι} {latest : α}
    (h : Gathered start finish clears current latest)
    (hstart : ∀ y ∈ current, start y ≤ start x) (hover : clears latest (start x) = false) :
    Gathered start finish clears (current ++ [x])
      (max latest (finish x)) := by
  obtain ⟨m, hm, hfin⟩ := h.last
  have hmem : ∀ z ∈ current, z ∈ current ++ [x] := fun z hz => List.mem_append_left _ hz
  have hx : x ∈ current ++ [x] := by simp
  have hlink : Overlap start finish clears m x := by
    refine ⟨hfin ▸ hover, Bool.eq_false_iff.2 fun hclear => ?_⟩
    exact Bool.false_ne_true ((hc.proper x).symm.trans (hc.mono (hstart m hm) hclear))
  have htox : ∀ y ∈ current ++ [x], Connected start finish clears (current ++ [x]) y x := by
    intro y hy
    rcases List.mem_append.1 hy with hy | hy
    · exact ((h.connected y hy m hm).mono hmem).tail ⟨hmem m hm, hx, hlink⟩
    · rw [List.mem_singleton.1 hy]
      exact Relation.ReflTransGen.refl
  refine ⟨fun y hy z hz => (htox y hy).trans (htox z hz).symm, ?_, fun y hy => ?_⟩
  · rcases le_total latest (finish x) with hle | hle
    · exact ⟨x, hx, (max_eq_right hle).symm⟩
    · exact ⟨m, hmem m hm, hfin.trans (max_eq_left hle).symm⟩
  · rcases List.mem_append.1 hy with hy | hy
    · exact (h.most y hy).trans (le_max_left _ _)
    · rw [List.mem_singleton.1 hy]
      exact le_max_right _ _

/-- **The clusters are linked in themselves and clear of each other.** -/
theorem clustersFrom_spec (hc : Clearing start finish clears) {current : List ι} {latest : α}
    {xs : List ι} (h : Gathered start finish clears current latest)
    (hsorted : (current ++ xs).Pairwise fun x y => start x ≤ start y) :
    (∀ cluster ∈ clustersFrom start finish clears current latest xs, cluster ≠ [] ∧
      ∀ x ∈ cluster, ∀ y ∈ cluster, Connected start finish clears cluster x y) ∧
    (clustersFrom start finish clears current latest xs).Pairwise fun c d =>
      ∀ x ∈ c, ∀ y ∈ d, clears (finish x) (start y) = true := by
  have hne : ∀ {current latest}, Gathered start finish clears
      current latest → current ≠ [] := by
    rintro current latest h rfl
    obtain ⟨x, hx, -⟩ := h.last
    exact absurd hx List.not_mem_nil
  induction xs generalizing current latest with
  | nil =>
    rw [clustersFrom]
    exact ⟨fun cluster hmem => by
      rw [List.mem_singleton.1 hmem]
      exact ⟨hne h, h.connected⟩, List.pairwise_singleton _ _⟩
  | cons x xs ih =>
    obtain ⟨-, hxs, hcross⟩ := List.pairwise_append.1 hsorted
    rw [clustersFrom]
    split
    · rename_i hclear
      obtain ⟨hlinked, hclusters⟩ := ih (gathered_singleton x) hxs
      refine ⟨?_, List.pairwise_cons.2 ⟨?_, hclusters⟩⟩
      · rintro cluster (_ | ⟨_, hmem⟩)
        · exact ⟨hne h, h.connected⟩
        · exact hlinked cluster hmem
      · intro d hd y hy z hz
        have hz' : z ∈ x :: xs := by
          rw [← List.singleton_append,
            ← flatten_clustersFrom start finish clears [x] (finish x)]
          exact List.mem_flatten.2 ⟨d, hd, hz⟩
        have hxz : start x ≤ start z := by
          rcases List.mem_cons.1 hz' with rfl | hz'
          · exact le_rfl
          · exact List.rel_of_pairwise_cons hxs hz'
        exact hc.mono hxz (hc.anti (h.most y hy) hclear)
    · rename_i hover
      refine ih (h.add hc (fun y hy => hcross y hy x List.mem_cons_self)
        (Bool.eq_false_iff.2 hover)) ?_
      rwa [List.append_assoc, List.singleton_append]

omit [LinearOrder α] in
theorem mem_of_connected {clusters : List (List ι)} {cluster : List ι}
    (happart : clusters.Pairwise fun c d => ∀ x ∈ c, ∀ y ∈ d, clears (finish x) (start y) = true)
    (hcluster : cluster ∈ clusters) {y : ι} (hx : x ∈ cluster)
    (h : Connected start finish clears clusters.flatten x y) : y ∈ cluster := by
  induction h with
  | refl => exact hx
  | tail _ hlink ih =>
    obtain ⟨-, hz, hover⟩ := hlink
    obtain ⟨d, hd, hzd⟩ := List.mem_flatten.1 hz
    by_contra hout
    have hne : cluster ≠ d := fun heq => hout (heq ▸ hzd)
    have hsym := List.Pairwise.forall_of_forall_of_flip (R := fun c d => c = d ∨
        (∀ x ∈ c, ∀ y ∈ d, clears (finish x) (start y) = true) ∨
          ∀ x ∈ d, ∀ y ∈ c, clears (finish x) (start y) = true)
      (fun _ _ => .inl rfl) (happart.imp fun h => .inr (.inl h))
      (happart.imp fun h => .inr (.inr h)) hcluster hd
    rcases hsym.resolve_left hne with hclear | hclear
    · exact Bool.false_ne_true (hover.1.symm.trans (hclear _ ih _ hzd))
    · exact Bool.false_ne_true (hover.2.symm.trans (hclear _ hzd _ ih))

end MailVerdict.Computation.IntervalTracks
