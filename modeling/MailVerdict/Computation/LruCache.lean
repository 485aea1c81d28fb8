import Mathlib.Data.List.Nodup

/-!
# A bounded least-recently-used cache

Keys with their values, the one used longest ago first. A hit moves its key to the end, a
put adds one there and drops keys from the front while there are too many. Whatever is
known of every entry is known after either (`mem_touched`, `mem_put`): an entry is an old
one, or the one just put.
-/

namespace MailVerdict.Computation

universe u v

/-- At most `maxEntries` keys, each once, oldest first. -/
structure LruCache (K : Type u) (V : Type v) where
  maxEntries : ℕ
  entries : List (K × V)
  nodup : (entries.map Prod.fst).Nodup
  bounded : entries.length ≤ maxEntries

namespace LruCache

variable {K : Type u} {V : Type v}

def empty (maxEntries : ℕ) : LruCache K V := ⟨maxEntries, [], List.nodup_nil, Nat.zero_le _⟩

/-- Drop the oldest entry while there are more than `n`. -/
def evict (n : ℕ) : List (K × V) → List (K × V)
  | [] => []
  | e :: l => if n < (e :: l).length then evict n l else e :: l

theorem evict_suffix (n : ℕ) (l : List (K × V)) : evict n l <:+ l := by
  induction l with
  | nil => exact List.suffix_rfl
  | cons e l ih =>
    unfold evict
    split
    · exact ih.trans (List.suffix_cons e l)
    · exact List.suffix_rfl

theorem length_evict_le (n : ℕ) (l : List (K × V)) : (evict n l).length ≤ n := by
  induction l with
  | nil => exact Nat.zero_le n
  | cons e l ih =>
    unfold evict
    split
    · exact ih
    · omega

variable [DecidableEq K]

/-- The key with this value, now the most recent. -/
def moveToEnd (k : K) (v : V) (l : List (K × V)) : List (K × V) :=
  l.filter (fun e => decide (e.1 ≠ k)) ++ [(k, v)]

theorem mem_moveToEnd {k : K} {v : V} {l : List (K × V)} {e : K × V} :
    e ∈ moveToEnd k v l ↔ (e ∈ l ∧ e.1 ≠ k) ∨ e = (k, v) := by
  unfold moveToEnd
  rw [List.mem_append, List.mem_filter, List.mem_singleton, decide_eq_true_iff]

theorem nodup_moveToEnd {k : K} {v : V} {l : List (K × V)} (h : (l.map Prod.fst).Nodup) :
    ((moveToEnd k v l).map Prod.fst).Nodup := by
  unfold moveToEnd
  rw [List.map_append, List.nodup_append]
  refine ⟨h.sublist (List.filter_sublist.map Prod.fst), List.nodup_singleton k, ?_⟩
  intro a ha b hb hab
  obtain ⟨e, he, hea⟩ := List.mem_map.1 ha
  have hne : e.1 ≠ k := decide_eq_true_iff.1 (List.mem_filter.1 he).2
  rw [List.map_cons, List.map_nil, List.mem_singleton] at hb
  exact hne (hea.trans (hab.trans hb))

variable (c : LruCache K V)

def find? (k : K) : Option V := (c.entries.find? fun e => decide (e.1 = k)).map Prod.snd

variable {c} {k : K} {v : V}

theorem mem_of_find? (h : c.find? k = some v) : (k, v) ∈ c.entries := by
  obtain ⟨e, he, rfl⟩ := Option.map_eq_some_iff.1 h
  have hkey : e.1 = k := by
    have htest := List.find?_some he
    exact decide_eq_true_iff.1 htest
  rw [← hkey]
  exact List.mem_of_find?_eq_some he

theorem length_moveToEnd_le (h : c.find? k = some v) :
    (moveToEnd k v c.entries).length ≤ c.maxEntries := by
  have hlt : (c.entries.filter fun e => decide (e.1 ≠ k)).length < c.entries.length := by
    rw [List.length_filter_lt_length_iff_exists]
    exact ⟨(k, v), mem_of_find? h, by simp⟩
  unfold moveToEnd
  rw [List.length_append, List.length_singleton]
  have hbounded := c.bounded
  omega

variable (c) (k) (v)

def touched : LruCache K V :=
  match h : c.find? k with
  | none => c
  | some v =>
    { maxEntries := c.maxEntries
      entries := moveToEnd k v c.entries
      nodup := nodup_moveToEnd c.nodup
      bounded := length_moveToEnd_le h }

/-- The key is the most recent, and the oldest ones go while there are too many. -/
def put : LruCache K V where
  maxEntries := c.maxEntries
  entries := evict c.maxEntries (moveToEnd k v c.entries)
  nodup := (nodup_moveToEnd c.nodup).sublist ((evict_suffix _ _).sublist.map Prod.fst)
  bounded := length_evict_le _ _

variable {c} {k} {v}

theorem mem_touched {e : K × V} (h : e ∈ (c.touched k).entries) : e ∈ c.entries := by
  unfold touched at h
  split at h
  · exact h
  · rename_i v hv
    rcases mem_moveToEnd.1 h with he | rfl
    · exact he.1
    · exact mem_of_find? hv

theorem mem_put {e : K × V} (h : e ∈ (c.put k v).entries) : e ∈ c.entries ∨ e = (k, v) := by
  have hmem := (evict_suffix _ _).subset h
  rcases mem_moveToEnd.1 hmem with he | he
  · exact .inl he.1
  · exact .inr he

end LruCache

end MailVerdict.Computation
