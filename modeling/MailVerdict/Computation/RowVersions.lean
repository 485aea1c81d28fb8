import Mathlib.Data.Finset.Union

/-!
# Tables and the row versions a statement writes

A `RowTable` is a finite set of rows no two of which have the same key. What a statement
writes of it is a `Writes`: rows it puts, each under its key, and keys it deletes. The table
with the writes (`RowTable.view`) has a row when it was put, or was there under a key that
was not written (`mem_view`).
-/

namespace MailVerdict.Computation

universe u v

@[ext] structure RowTable {R : Type u} {K : Type v} (key : R → K) where
  rows : Finset R
  unique : ∀ a ∈ rows, ∀ b ∈ rows, key a = key b → a = b

/-- The rows a statement puts, and the keys it deletes. -/
@[ext] structure Writes {R : Type u} {K : Type v} (key : R → K) where
  rows : RowTable key
  gone : Finset K

variable {R : Type u} {K : Type v} {key : R → K}

namespace RowTable

def empty : RowTable key := ⟨∅, by simp⟩

def single (r : R) : RowTable key := ⟨{r}, by simp⟩

/-- The rows that satisfy `p`. -/
def filter (t : RowTable key) (p : R → Prop) [DecidablePred p] : RowTable key where
  rows := t.rows.filter p
  unique a ha b hb h :=
    t.unique a (Finset.mem_filter.1 ha).1 b (Finset.mem_filter.1 hb).1 h

theorem mem_filter {t : RowTable key} {p : R → Prop} [DecidablePred p] {r : R} :
    r ∈ (t.filter p).rows ↔ r ∈ t.rows ∧ p r := Finset.mem_filter

section Keys

variable [DecidableEq K]

def keys (t : RowTable key) : Finset K := t.rows.image key

theorem mem_keys {t : RowTable key} {k : K} : k ∈ t.keys ↔ ∃ r ∈ t.rows, key r = k :=
  Finset.mem_image

theorem key_mem_keys {t : RowTable key} {r : R} (h : r ∈ t.rows) : key r ∈ t.keys :=
  mem_keys.2 ⟨r, h, rfl⟩

def find? (t : RowTable key) (k : K) : Option R :=
  if h : ∃ r ∈ t.rows, key r = k then
    some (t.rows.choose (fun r => key r = k) (by
      obtain ⟨r, hr, hk⟩ := h
      exact ⟨r, ⟨hr, hk⟩, fun s hs => t.unique s hs.1 r hr (hs.2.trans hk.symm)⟩))
  else none

theorem find?_eq_some_iff {t : RowTable key} {k : K} {r : R} :
    t.find? k = some r ↔ r ∈ t.rows ∧ key r = k := by
  rw [find?]
  split
  next h =>
    have hunique : ∃! r, r ∈ t.rows ∧ key r = k := by
      obtain ⟨r, hr, hk⟩ := h
      exact ⟨r, ⟨hr, hk⟩, fun s hs => t.unique s hs.1 r hr (hs.2.trans hk.symm)⟩
    have hchosen := t.rows.choose_spec (fun r => key r = k) hunique
    rw [Option.some.injEq]
    constructor
    · rintro rfl
      exact hchosen
    · rintro ⟨hr, hk⟩
      exact t.unique _ hchosen.1 r hr (hchosen.2.trans hk.symm)
  next h =>
    constructor
    · rintro ⟨⟩
    · rintro ⟨hr, hk⟩
      exact absurd ⟨r, hr, hk⟩ h

theorem find?_eq_none_iff {t : RowTable key} {k : K} :
    t.find? k = none ↔ ∀ r ∈ t.rows, key r ≠ k := by
  constructor
  · intro h r hr hk
    rw [find?_eq_some_iff.2 ⟨hr, hk⟩] at h
    cases h
  · intro h
    cases hfind : t.find? k with
    | none => rfl
    | some r =>
      obtain ⟨hr, hk⟩ := find?_eq_some_iff.1 hfind
      exact absurd hk (h r hr)

theorem find?_key {t : RowTable key} {r : R} (h : r ∈ t.rows) : t.find? (key r) = some r :=
  find?_eq_some_iff.2 ⟨h, rfl⟩

theorem isSome_find? {t : RowTable key} {k : K} : (t.find? k).isSome ↔ ∃ r ∈ t.rows, key r = k := by
  simp only [Option.isSome_iff_exists, find?_eq_some_iff]

end Keys

variable [DecidableEq R]

def rewrite (t : RowTable key) (f : R → R) (hf : ∀ r, key (f r) = key r) : RowTable key where
  rows := t.rows.image f
  unique a ha b hb h := by
    obtain ⟨r, hr, rfl⟩ := Finset.mem_image.1 ha
    obtain ⟨s, hs, rfl⟩ := Finset.mem_image.1 hb
    rw [hf, hf] at h
    rw [t.unique r hr s hs h]

theorem mem_rewrite {t : RowTable key} {f : R → R} {hf : ∀ r, key (f r) = key r} {r : R} :
    r ∈ (t.rewrite f hf).rows ↔ ∃ s ∈ t.rows, f s = r := Finset.mem_image

variable [DecidableEq K]

theorem keys_rewrite (t : RowTable key) (f : R → R) (hf : ∀ r, key (f r) = key r) :
    (t.rewrite f hf).keys = t.keys := by
  ext k
  simp only [mem_keys, mem_rewrite]
  constructor
  · rintro ⟨_, ⟨s, hs, rfl⟩, rfl⟩
    exact ⟨s, hs, (hf s).symm⟩
  · rintro ⟨s, hs, rfl⟩
    exact ⟨f s, ⟨s, hs, rfl⟩, hf s⟩

end RowTable

namespace Writes

def none : Writes key := ⟨RowTable.empty, ∅⟩

def putAll (rs : RowTable key) : Writes key := ⟨rs, ∅⟩

def put (r : R) : Writes key := putAll (RowTable.single r)

def delete (ks : Finset K) : Writes key := ⟨RowTable.empty, ks⟩

@[simp] theorem rows_none : (none : Writes key).rows.rows = ∅ := rfl

@[simp] theorem rows_putAll (rs : RowTable key) : (putAll rs).rows = rs := rfl

@[simp] theorem rows_put (r : R) : (put r : Writes key).rows.rows = {r} := rfl

@[simp] theorem rows_delete (ks : Finset K) : (delete ks : Writes key).rows.rows = ∅ := rfl

section Keys

variable [DecidableEq K]

/-- Every key that is written: put or deleted. -/
def keys (w : Writes key) : Finset K := w.gone ∪ w.rows.keys

@[simp] theorem keys_none : (none : Writes key).keys = ∅ := rfl

@[simp] theorem keys_putAll (rs : RowTable key) : (putAll rs).keys = rs.keys :=
  Finset.empty_union _

@[simp] theorem keys_put (r : R) : (put r : Writes key).keys = {key r} := by
  rw [put, keys_putAll, RowTable.keys, RowTable.single, Finset.image_singleton]

@[simp] theorem keys_delete (ks : Finset K) : (delete ks : Writes key).keys = ks :=
  Finset.union_empty _

end Keys

end Writes

namespace RowTable

variable [DecidableEq R] [DecidableEq K] {t : RowTable key} {w : Writes key} {r : R} {k : K}

def view (t : RowTable key) (w : Writes key) : RowTable key where
  rows := t.rows.filter (fun r => key r ∉ w.keys) ∪ w.rows.rows
  unique a ha b hb h := by
    have hnew : ∀ c ∈ w.rows.rows, key c ∈ w.keys := fun c hc =>
      Finset.mem_union_right _ (key_mem_keys hc)
    rw [Finset.mem_union, Finset.mem_filter] at ha hb
    obtain ⟨ha, hakey⟩ | ha := ha <;> obtain ⟨hb, hbkey⟩ | hb := hb
    · exact t.unique a ha b hb h
    · exact absurd (h ▸ hnew b hb) hakey
    · exact absurd (h ▸ hnew a ha) hbkey
    · exact w.rows.unique a ha b hb h

theorem mem_view : r ∈ (t.view w).rows ↔ r ∈ w.rows.rows ∨ r ∈ t.rows ∧ key r ∉ w.keys := by
  rw [view, Finset.mem_union, Finset.mem_filter, or_comm]

theorem filter_rows_view (p : R → Prop) [DecidablePred p] :
    (t.view w).rows.filter p =
      (t.rows.filter p).filter (fun r => key r ∉ w.keys) ∪ w.rows.rows.filter p := by
  rw [view, Finset.filter_union, Finset.filter_comm]

theorem find?_view : (t.view w).find? k =
    if k ∈ w.keys then w.rows.find? k else t.find? k := by
  have hput : ∀ r ∈ w.rows.rows, key r ∈ w.keys := fun r hr =>
    Finset.mem_union_right _ (key_mem_keys hr)
  ext r
  rw [find?_eq_some_iff, mem_view]
  split
  next hk =>
    rw [find?_eq_some_iff]
    constructor
    · rintro ⟨hr | ⟨-, hkey⟩, rfl⟩
      · exact ⟨hr, rfl⟩
      · exact absurd hk hkey
    · rintro ⟨hr, rfl⟩
      exact ⟨Or.inl hr, rfl⟩
  next hk =>
    rw [find?_eq_some_iff]
    constructor
    · rintro ⟨hr | ⟨hr, -⟩, rfl⟩
      · exact absurd (hput r hr) hk
      · exact ⟨hr, rfl⟩
    · rintro ⟨hr, rfl⟩
      exact ⟨Or.inr ⟨hr, hk⟩, rfl⟩

@[simp] theorem view_none (t : RowTable key) : t.view .none = t := by
  refine RowTable.ext (Finset.ext fun r => ?_)
  simp [mem_view]

theorem mem_view_putAll {rs : RowTable key} :
    r ∈ (t.view (.putAll rs)).rows ↔ r ∈ rs.rows ∨ r ∈ t.rows ∧ key r ∉ rs.keys := by
  rw [mem_view, Writes.keys_putAll, Writes.rows_putAll]

theorem mem_view_put {n : R} :
    r ∈ (t.view (.put n)).rows ↔ r = n ∨ r ∈ t.rows ∧ key r ≠ key n := by
  rw [mem_view, Writes.keys_put, Writes.rows_put, Finset.mem_singleton, Finset.mem_singleton]

theorem mem_view_delete {ks : Finset K} :
    r ∈ (t.view (.delete ks)).rows ↔ r ∈ t.rows ∧ key r ∉ ks := by
  rw [mem_view, Writes.keys_delete, Writes.rows_delete]
  simp

end RowTable

end MailVerdict.Computation
