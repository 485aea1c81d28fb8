import Mathlib.Data.List.Nodup

/-!
# Tables with a primary key

A table is a list of rows no two of which have the same key. The statements that
write one are `update` (a row rewrite that keeps keys), `insert` (of a key the
table does not have) and `erase`; each keeps the key unique, so a row is
determined by its key (`eq_of_key_eq`) in whatever table they build.
-/

namespace MailVerdict.Computation

universe u v

structure KeyedTable {R : Type u} {K : Type v} (key : R → K) where
  rows : List R
  primaryKey : (rows.map key).Nodup

namespace KeyedTable

variable {R : Type u} {K : Type v} {key : R → K}

def empty : KeyedTable key := ⟨[], List.nodup_nil⟩

/-- `UPDATE … SET f WHERE p`. -/
def update (t : KeyedTable key) (p : R → Bool) (f : R → R) (hf : ∀ r, key (f r) = key r) :
    KeyedTable key where
  rows := t.rows.map fun r => if p r then f r else r
  primaryKey := by
    have hkeys : (t.rows.map fun r => if p r then f r else r).map key = t.rows.map key := by
      rw [List.map_map]
      refine List.map_congr_left fun r _ => ?_
      simp only [Function.comp_apply]
      split <;> simp [hf]
    rw [hkeys]
    exact t.primaryKey

/-- `INSERT` of a row whose key no row has. -/
def insert (t : KeyedTable key) (r : R) (h : key r ∉ t.rows.map key) : KeyedTable key where
  rows := t.rows ++ [r]
  primaryKey := by
    rw [List.map_append, List.nodup_append]
    refine ⟨t.primaryKey, by simp, ?_⟩
    intro a ha b hb
    simp only [List.map_cons, List.map_nil, List.mem_singleton] at hb
    rintro rfl
    exact h (hb ▸ ha)

/-- The table seen through some of its columns, the key among them. -/
def view {S : Type u} {key' : S → K} (t : KeyedTable key) (f : R → S)
    (hf : ∀ r, key' (f r) = key r) : KeyedTable key' where
  rows := t.rows.map f
  primaryKey := by
    rw [List.map_map, show key' ∘ f = key from funext hf]
    exact t.primaryKey

section Lookup

variable [DecidableEq K]

/-- `SELECT … WHERE key = k`. -/
def find? (t : KeyedTable key) (k : K) : Option R := t.rows.find? fun r => decide (key r = k)

/-- `DELETE … WHERE key = k`. -/
def erase (t : KeyedTable key) (k : K) : KeyedTable key where
  rows := t.rows.filter fun r => decide (key r ≠ k)
  primaryKey := t.primaryKey.sublist (List.filter_sublist.map key)

theorem mem_erase {t : KeyedTable key} {k : K} {r : R} :
    r ∈ (t.erase k).rows ↔ r ∈ t.rows ∧ key r ≠ k := by
  simp [erase]

/-- `INSERT … ON CONFLICT DO NOTHING` of several rows. -/
def insertAll (t : KeyedTable key) (rs : List R) : KeyedTable key :=
  rs.foldl (fun t r => if h : key r ∈ t.rows.map key then t else t.insert r h) t

/-- `INSERT … ON CONFLICT DO UPDATE`: the row takes the place of the one with its key. -/
def put (t : KeyedTable key) (r : R) : KeyedTable key :=
  if h : key r ∈ t.rows.map key then
    t.update (fun _ => true) (fun r' => if key r' = key r then r else r') fun r' => by
      split
      · rename_i hsame
        exact hsame.symm
      · rfl
  else t.insert r h

end Lookup

/-- `DELETE … WHERE NOT p`. -/
def filter (t : KeyedTable key) (p : R → Bool) : KeyedTable key where
  rows := t.rows.filter p
  primaryKey := t.primaryKey.sublist (List.filter_sublist.map key)

theorem mem_filter {t : KeyedTable key} {p : R → Bool} {r : R} :
    r ∈ (t.filter p).rows ↔ r ∈ t.rows ∧ p r = true := List.mem_filter

theorem mem_update {t : KeyedTable key} {p : R → Bool} {f : R → R}
    {hf : ∀ r, key (f r) = key r} {r : R} :
    r ∈ (t.update p f hf).rows ↔ ∃ r' ∈ t.rows, (if p r' then f r' else r') = r := by
  simp [update]

theorem keys_update (t : KeyedTable key) (p : R → Bool) {f : R → R}
    (hf : ∀ r, key (f r) = key r) : (t.update p f hf).rows.map key = t.rows.map key := by
  rw [update, List.map_map]
  refine List.map_congr_left fun r _ => ?_
  simp only [Function.comp_apply]
  split
  · exact hf r
  · rfl

theorem mem_of_eq_update {t u : KeyedTable key} {p : R → Bool} {f : R → R}
    (hf : ∀ r, key (f r) = key r) (h : u = t.update p f hf) {r : R} :
    r ∈ u.rows ↔ ∃ r' ∈ t.rows, (if p r' then f r' else r') = r := by
  rw [h, mem_update]

theorem exists_key_of_mem_update {t u : KeyedTable key} {p : R → Bool} {f : R → R}
    (hf : ∀ r, key (f r) = key r) (h : u = t.update p f hf) {r : R} (hr : r ∈ u.rows) :
    ∃ r' ∈ t.rows, key r' = key r := by
  obtain ⟨r', hr', rfl⟩ := (mem_of_eq_update hf h).1 hr
  refine ⟨r', hr', ?_⟩
  split
  · exact (hf r').symm
  · rfl

theorem mem_update_of {t : KeyedTable key} {p : R → Bool} {f : R → R}
    (hf : ∀ r, key (f r) = key r) {r : R} (hr : r ∈ t.rows) (hp : p r = true) :
    f r ∈ (t.update p f hf).rows :=
  mem_update.2 ⟨r, hr, by rw [if_pos hp]⟩

theorem mem_insert {t : KeyedTable key} {n r : R} (h : key n ∉ t.rows.map key) :
    r ∈ (t.insert n h).rows ↔ r ∈ t.rows ∨ r = n := by
  simp [insert]

theorem mem_put [DecidableEq K] {t : KeyedTable key} {n r : R} :
    r ∈ (t.put n).rows ↔ r = n ∨ (r ∈ t.rows ∧ key r ≠ key n) := by
  unfold put
  split
  · rename_i hkey
    rw [mem_update]
    constructor
    · rintro ⟨r', hr', rfl⟩
      rw [if_pos rfl]
      by_cases hsame : key r' = key n
      · exact Or.inl (if_pos hsame)
      · rw [if_neg hsame]
        exact Or.inr ⟨hr', hsame⟩
    · rintro (rfl | ⟨hr, hne⟩)
      · obtain ⟨r', hr', hsame⟩ := List.mem_map.1 hkey
        exact ⟨r', hr', by rw [if_pos rfl, if_pos hsame]⟩
      · exact ⟨r, hr, by rw [if_pos rfl, if_neg hne]⟩
  · rename_i hkey
    rw [mem_insert]
    constructor
    · rintro (hr | rfl)
      · exact Or.inr ⟨hr, fun hsame => hkey (hsame ▸ List.mem_map_of_mem hr)⟩
      · exact Or.inl rfl
    · rintro (rfl | ⟨hr, -⟩)
      · exact Or.inr rfl
      · exact Or.inl hr

theorem mem_insertAll [DecidableEq K] {t : KeyedTable key} {rs : List R} {r : R} :
    (r ∈ t.rows → r ∈ (t.insertAll rs).rows) ∧
      (r ∈ (t.insertAll rs).rows → r ∈ t.rows ∨ r ∈ rs) := by
  induction rs generalizing t with
  | nil => exact ⟨id, Or.inl⟩
  | cons n rs ih =>
    by_cases hpresent : key n ∈ t.rows.map key
    · have hcons : t.insertAll (n :: rs) = t.insertAll rs := by
        simp only [insertAll, List.foldl_cons, dif_pos hpresent]
      rw [hcons]
      refine ⟨ih.1, fun h => ?_⟩
      obtain hold | hnew := ih.2 h
      · exact Or.inl hold
      · exact Or.inr (List.mem_cons_of_mem n hnew)
    · have hcons : t.insertAll (n :: rs) = (t.insert n hpresent).insertAll rs := by
        simp only [insertAll, List.foldl_cons, dif_neg hpresent]
      rw [hcons]
      refine ⟨fun h => ih.1 ((mem_insert hpresent).2 (Or.inl h)), fun h => ?_⟩
      obtain hold | hnew := ih.2 h
      · obtain hold | rfl := (mem_insert hpresent).1 hold
        · exact Or.inl hold
        · exact Or.inr List.mem_cons_self
      · exact Or.inr (List.mem_cons_of_mem n hnew)

theorem eq_of_key_eq (t : KeyedTable key) {a b : R} (ha : a ∈ t.rows) (hb : b ∈ t.rows)
    (h : key a = key b) : a = b :=
  List.inj_on_of_nodup_map t.primaryKey ha hb h

theorem filter_key_eq [DecidableEq K] (t : KeyedTable key) {r : R} (hr : r ∈ t.rows) :
    t.rows.filter (fun s => decide (key s = key r)) = [r] := by
  have hnodup : t.rows.Nodup := List.Nodup.of_map key t.primaryKey
  have hperm : (t.rows.filter fun s => decide (key s = key r)).Perm [r] := by
    rw [List.perm_ext_iff_of_nodup (hnodup.filter _) (List.nodup_singleton r)]
    intro s
    rw [List.mem_filter, decide_eq_true_eq, List.mem_singleton]
    constructor
    · rintro ⟨hs, hkey⟩
      exact t.eq_of_key_eq hs hr hkey
    · rintro rfl
      exact ⟨hr, rfl⟩
  exact List.perm_singleton.1 hperm

theorem length_filter_le_one (t : KeyedTable key) {p : R → Bool}
    (h : ∀ a ∈ t.rows, ∀ b ∈ t.rows, p a = true → p b = true → key a = key b) :
    (t.rows.filter p).length ≤ 1 := by
  have hnodup : (t.rows.filter p).Nodup := (List.Nodup.of_map _ t.primaryKey).filter _
  rcases hrows : t.rows.filter p with _ | ⟨a, _ | ⟨b, rest⟩⟩
  · exact Nat.zero_le 1
  · exact Nat.le_refl 1
  · have ha : a ∈ t.rows.filter p := hrows ▸ List.mem_cons_self
    have hb : b ∈ t.rows.filter p := hrows ▸ List.mem_cons_of_mem _ List.mem_cons_self
    rw [List.mem_filter] at ha hb
    have hsame := t.eq_of_key_eq ha.1 hb.1 (h a ha.1 b hb.1 ha.2 hb.2)
    rw [hrows, hsame] at hnodup
    exact absurd List.mem_cons_self (List.nodup_cons.1 hnodup).1

theorem find?_eq_some_iff [DecidableEq K] {t : KeyedTable key} {k : K} {r : R} :
    t.find? k = some r ↔ r ∈ t.rows ∧ key r = k := by
  constructor
  · intro h
    refine ⟨List.mem_of_find?_eq_some h, ?_⟩
    simpa using List.find?_some h
  · rintro ⟨hr, rfl⟩
    cases hfind : t.find? (key r) with
    | none =>
      have hnone := List.find?_eq_none.1 hfind r hr
      simp at hnone
    | some r' =>
      have hkey : key r' = key r := by simpa using List.find?_some hfind
      rw [t.eq_of_key_eq (List.mem_of_find?_eq_some hfind) hr hkey]

theorem find?_eq_none_iff [DecidableEq K] {t : KeyedTable key} {k : K} :
    t.find? k = none ↔ ∀ r ∈ t.rows, key r ≠ k := by
  simp [find?, List.find?_eq_none]

section Update

variable [DecidableEq K] {t : KeyedTable key} {p : R → Bool} {f : R → R}

theorem find?_update (hf : ∀ r, key (f r) = key r) (k : K) :
    (t.update p f hf).find? k = (t.find? k).map fun r => if p r then f r else r := by
  cases hfind : t.find? k with
  | none =>
    rw [find?_eq_none_iff] at hfind
    rw [Option.map_none, find?_eq_none_iff]
    intro r hr
    obtain ⟨r', hr', rfl⟩ := mem_update.1 hr
    have hkey := hfind r' hr'
    split
    · rw [hf]
      exact hkey
    · exact hkey
  | some r =>
    obtain ⟨hr, hk⟩ := find?_eq_some_iff.1 hfind
    rw [Option.map_some, find?_eq_some_iff]
    refine ⟨mem_update.2 ⟨r, hr, rfl⟩, ?_⟩
    split
    · rw [hf]
      exact hk
    · exact hk

theorem countP_ne_zero_iff {k : K} {r : R} (hp : ∀ s, p s = true → key s = k)
    (hr : t.find? k = some r) : t.rows.countP p ≠ 0 ↔ p r = true := by
  obtain ⟨hmem, hk⟩ := find?_eq_some_iff.1 hr
  constructor
  · intro hcount
    obtain ⟨s, hs, hps⟩ := List.countP_pos_iff.1 (Nat.pos_of_ne_zero hcount)
    have hsame : s = r := t.eq_of_key_eq hs hmem ((hp s hps).trans hk.symm)
    rw [← hsame]
    exact hps
  · intro hpr
    have hpos := List.countP_pos_iff.2 ⟨r, hmem, hpr⟩
    omega

theorem find?_update_of_ne {k k' : K} (hf : ∀ r, key (f r) = key r)
    (hp : ∀ s, p s = true → key s = k) (hne : k' ≠ k) :
    (t.update p f hf).find? k' = t.find? k' := by
  rw [find?_update]
  cases hfind : t.find? k' with
  | none => rfl
  | some r =>
    have hkey : key r = k' := (find?_eq_some_iff.1 hfind).2
    have hmiss : p r ≠ true := by
      intro hpr
      exact hne (hkey.symm.trans (hp r hpr))
    rw [Option.map_some, if_neg hmiss]

end Update

end KeyedTable

end MailVerdict.Computation
