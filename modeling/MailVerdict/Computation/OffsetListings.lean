import Mathlib.Data.List.Sort

/-!
# Listings with ties

A query sorted by a key may list the rows of one key in any order, another one each time. A row
alone with its key stands at one place in all listings (`filter_slice`); two rows of one key may
change places (`exists_swapped`).
-/

namespace MailVerdict.Computation.OffsetListings

universe u v

variable {α : Type u} {κ : Type v} [LinearOrder κ] {key : α → κ} {rows o o' : List α}

structure Listing (key : α → κ) (rows o : List α) : Prop where
  perm : o.Perm rows
  sorted : o.Pairwise fun a b => key a ≤ key b

theorem Listing.keys_eq (h : Listing key rows o) (h' : Listing key rows o') :
    o.map key = o'.map key :=
  ((h.perm.trans h'.perm.symm).map key).eq_of_pairwise (fun _ _ _ _ => le_antisymm)
    (List.pairwise_map.2 h.sorted) (List.pairwise_map.2 h'.sorted)

theorem Listing.filter_slice {keep : α → Bool} (h : Listing key rows o) (h' : Listing key rows o')
    (halone : ∀ a ∈ rows, keep a = true → ∀ b ∈ rows, key b = key a → b = a) (m n : ℕ) :
    ((o.drop m).take n).filter keep = ((o'.drop m).take n).filter keep := by
  have hmask : o.map (fun a => if keep a then some a else none) =
      o'.map fun a => if keep a then some a else none := by
    have hlen := congrArg List.length (h.keys_eq h')
    refine List.ext_getElem (by simpa using hlen) fun i hi hi' => ?_
    simp only [List.length_map] at hi hi'
    have hkey : key o[i] = key o'[i] := by
      have hget := congrArg (fun l => l[i]?) (h.keys_eq h')
      simpa [hi, hi'] using hget
    have hin := h.perm.mem_iff.1 (List.getElem_mem hi)
    have hin' := h'.perm.mem_iff.1 (List.getElem_mem hi')
    simp only [List.getElem_map]
    by_cases ha : keep o[i] = true
    · rw [halone _ hin ha _ hin' hkey.symm]
    · by_cases hb : keep o'[i] = true
      · rw [halone _ hin' hb _ hin hkey]
      · rw [if_neg ha, if_neg hb]
  have hfilter : ∀ l : List α, l.filter keep =
      (l.map fun a => if keep a then some a else none).filterMap id := by
    intro l
    induction l with
    | nil => rfl
    | cons a l ih => by_cases ha : keep a = true <;> simp [ha, ih]
  rw [hfilter, hfilter, List.map_take, List.map_take, List.map_drop, List.map_drop, hmask]

theorem exists_swapped [DecidableEq α] {a b : α} (ha : a ∈ rows) (hb : b ∈ rows) (hne : a ≠ b)
    (hkey : key a = key b) : ∃ l r, Listing key rows (l ++ a :: b :: r) ∧
      Listing key rows (l ++ b :: a :: r) := by
  have htotal : Std.Total fun a b : α => key a ≤ key b := ⟨fun a b => le_total (key a) (key b)⟩
  have htrans : IsTrans α fun a b => key a ≤ key b := ⟨fun _ _ _ => le_trans⟩
  let s := ((rows.erase a).erase b).insertionSort fun a b => key a ≤ key b
  have hsorted : s.Pairwise fun a b => key a ≤ key b := List.pairwise_insertionSort _ _
  have hperm : (b :: s).Perm (rows.erase a) :=
    ((List.perm_insertionSort _ _).cons b).trans
      (List.perm_cons_erase ((List.mem_erase_of_ne (Ne.symm hne)).2 hb)).symm
  let l := s.takeWhile fun e => decide (key e < key a)
  let r := s.dropWhile fun e => decide (key e < key a)
  have hs : l ++ r = s := List.takeWhile_append_dropWhile
  rw [← hs, List.pairwise_append] at hsorted
  have hl : ∀ e ∈ l, key e ≤ key a := fun e he =>
    le_of_lt (by simpa using List.all_eq_true.1 List.all_takeWhile e he)
  have hr : ∀ e ∈ r, key a ≤ key e := by
    intro e he
    have hhead := List.head?_dropWhile_not (fun e => decide (key e < key a)) s
    cases hcase : r with
    | nil => simp [hcase] at he
    | cons c t =>
      have hc : key a ≤ key c := by
        rw [show s.dropWhile _ = c :: t from hcase] at hhead
        simpa using hhead
      have htail := hsorted.2.1
      rw [hcase] at htail he
      rcases List.mem_cons.1 he with rfl | he
      · exact hc
      · exact hc.trans (List.rel_of_pairwise_cons htail he)
  have hlist : ∀ {c d : α}, key c = key a → key d = key a → (c :: d :: s).Perm rows →
      Listing key rows (l ++ c :: d :: r) := by
    intro c d hc hd hrows
    refine ⟨?_, ?_⟩
    · refine List.Perm.trans ?_ (hs ▸ hrows)
      exact List.perm_middle.trans (List.perm_middle.cons c)
    · rw [List.pairwise_append]
      refine ⟨hsorted.1, ?_, fun e he f hf => ?_⟩
      · simp only [List.pairwise_cons, List.mem_cons]
        exact ⟨fun e he => by rcases he with rfl | he <;> [rw [hc, hd]; exact hc ▸ hr e he],
          fun e he => hd ▸ hr e he, hsorted.2.1⟩
      · rcases List.mem_cons.1 hf with rfl | hf
        · exact hc ▸ hl e he
        · rcases List.mem_cons.1 hf with rfl | hf
          · exact hd ▸ hl e he
          · exact (hl e he).trans (hr f hf)
  have hrows : (a :: b :: s).Perm rows := (hperm.cons a).trans (List.perm_cons_erase ha).symm
  exact ⟨l, r, hlist rfl hkey.symm hrows, hlist hkey.symm rfl ((List.Perm.swap a b s).trans hrows)⟩

end MailVerdict.Computation.OffsetListings
