import MailVerdict.Computation.TextLines
import MailVerdict.Model.CodeMarkers

/-!
# Code markers and the text they stand in

The markers are woven into the lines of the text: each before the line of the first glyph that
follows its code, or after the last line. Back to front every insert but those at the end finds
its position as it was; the end of the text moves with the first marker put there, so a second
one goes before it, which is right where the text ends with a line feed and otherwise joins the
marker to the last line. Markers of one place keep the order of the list they came in.
-/

namespace MailVerdict.Analysis

open MailVerdict.Computation
open Model.CodeMarkers

variable {line rest : List Char}

namespace MarkedText

/-! ## Lines and positions -/

/-- Where the i-th of some lines begins, each ended by a line feed. -/
def startOf : List TextLine → ℕ → ℕ
  | _, 0 => 0
  | [], _ + 1 => 0
  | line :: lines, i + 1 => line.length + 1 + startOf lines i

/-- Where a line of the text begins; past the last one, where the text ends. -/
def linePosition (text : List Char) (i : ℕ) : ℕ := min (startOf (textLines text) i) text.length

def lineOf (text : List Char) (index : ℕ) : ℕ := (text.take index).count '\n'

theorem linePosition_zero (text : List Char) : linePosition text 0 = 0 := by
  unfold linePosition
  cases textLines text <;> exact Nat.zero_min _

theorem linePosition_line (h : '\n' ∉ line) (i : ℕ) :
    linePosition (line ++ '\n' :: rest) (i + 1) = line.length + 1 + linePosition rest i := by
  unfold linePosition
  rw [textLines_line h, startOf, List.length_append, List.length_cons]
  omega

theorem linePosition_last (h : '\n' ∉ line) (hne : line ≠ []) :
    linePosition line 1 = line.length := by
  unfold linePosition
  rw [textLines_last h hne]
  simp [startOf]

theorem linePosition_strictMono (text : List Char) :
    ∀ i j, i < j → j ≤ (textLines text).length → linePosition text i < linePosition text j := by
  induction text using lines_induction with
  | hnil =>
    intro i j hij hj
    exact absurd hj (by simp; omega)
  | hlast line hline hne =>
    intro i j hij hj
    rw [textLines_last hline hne, List.length_singleton] at hj
    obtain ⟨rfl, rfl⟩ : i = 0 ∧ j = 1 := by omega
    rw [linePosition_zero, linePosition_last hline hne]
    exact List.length_pos_iff.2 hne
  | hline line rest hline ih =>
    intro i j hij hj
    rw [textLines_line hline, List.length_cons] at hj
    cases j with
    | zero => exact absurd hij (Nat.not_lt_zero i)
    | succ j =>
      rw [linePosition_line hline]
      cases i with
      | zero =>
        rw [linePosition_zero]
        omega
      | succ i =>
        rw [linePosition_line hline]
        have := ih i j (Nat.lt_of_succ_lt_succ hij) (Nat.le_of_succ_le_succ hj)
        omega

theorem takeWhile_append_cons {p : Char → Bool} (xs ys : List Char) {y : Char} (hy : p y = false) :
    (xs ++ y :: ys).takeWhile p = xs.takeWhile p := by
  induction xs with
  | nil => simp [hy]
  | cons x xs ih =>
    rw [List.cons_append, List.takeWhile_cons, List.takeWhile_cons, ih]

theorem lineStart_of_not_mem (h : '\n' ∉ line) (index : ℕ) :
    lineStart line index = 0 := by
  have hall : ((line.take index).reverse.takeWhile fun c => decide (c ≠ '\n')) =
      (line.take index).reverse := by
    refine List.takeWhile_eq_self_iff.2 fun c hc => ?_
    have hmem := List.mem_of_mem_take (List.mem_reverse.1 hc)
    exact decide_eq_true fun heq => h (heq ▸ hmem)
  rw [lineStart, hall, List.length_reverse, Nat.sub_self]

theorem take_line (index : ℕ) : (line ++ '\n' :: rest).take (line.length + 1 + index) =
    line ++ '\n' :: rest.take index := by
  rw [List.take_append, List.take_of_length_le (by omega)]
  have : line.length + 1 + index - line.length = index + 1 := by omega
  rw [this, List.take_succ_cons]

theorem lineStart_line (index : ℕ) :
    lineStart (line ++ '\n' :: rest) (line.length + 1 + index) =
      line.length + 1 + lineStart rest index := by
  have hwhile := takeWhile_append_cons (p := fun c => decide (c ≠ '\n'))
    (rest.take index).reverse line.reverse (y := '\n') (by simp)
  have hle := (List.takeWhile_sublist (fun c => decide (c ≠ '\n'))
    (l := (rest.take index).reverse)).length_le
  rw [List.length_reverse] at hle
  dsimp only [lineStart]
  rw [take_line, List.reverse_append, List.reverse_cons, List.append_assoc, List.singleton_append,
    hwhile, List.length_append, List.length_cons]
  omega

theorem lineOf_line (h : '\n' ∉ line) (index : ℕ) :
    lineOf (line ++ '\n' :: rest) (line.length + 1 + index) = 1 + lineOf rest index := by
  rw [lineOf, take_line, List.count_append, List.count_eq_zero.2 h, List.count_cons_self, lineOf]
  omega

theorem lineOf_of_not_mem (h : '\n' ∉ line) (index : ℕ) :
    lineOf line index = 0 :=
  List.count_eq_zero.2 fun hmem => h (List.mem_of_mem_take hmem)

/-- **A character's line**: what the backward search finds is where the character's line
begins. -/
theorem lineStart_eq (text : List Char) : ∀ index < text.length,
    lineOf text index < (textLines text).length ∧
      lineStart text index = linePosition text (lineOf text index) := by
  induction text using lines_induction with
  | hnil => exact fun index h => absurd h (Nat.not_lt_zero index)
  | hlast line hline hne =>
    intro index _
    rw [lineOf_of_not_mem hline, textLines_last hline hne, lineStart_of_not_mem hline,
      linePosition_zero]
    exact ⟨Nat.zero_lt_one, rfl⟩
  | hline line rest hline ih =>
    intro index hindex
    rw [textLines_line hline, List.length_cons]
    by_cases hfirst : index ≤ line.length
    · have htake : (line ++ '\n' :: rest).take index = line.take index :=
        List.take_append_of_le_length hfirst
      have hzero : lineOf (line ++ '\n' :: rest) index = 0 := by
        rw [lineOf, htake]
        exact lineOf_of_not_mem hline index
      have hstart : lineStart (line ++ '\n' :: rest) index = 0 := by
        have := lineStart_of_not_mem hline index
        unfold lineStart at this ⊢
        rwa [htake]
      rw [hzero, hstart, linePosition_zero]
      exact ⟨Nat.zero_lt_succ _, rfl⟩
    · obtain ⟨k, rfl⟩ := Nat.exists_eq_add_of_lt (Nat.lt_of_not_le hfirst)
      have hk : line.length + k + 1 = line.length + 1 + k := by omega
      rw [hk, List.length_append, List.length_cons] at *
      obtain ⟨hlt, heq⟩ := ih k (by omega)
      rw [lineOf_line hline, lineStart_line, heq, Nat.add_comm 1, linePosition_line hline]
      exact ⟨Nat.succ_lt_succ hlt, rfl⟩

/-! ## Inserting back to front -/

def insertAll (text : List Char) (ins : List (ℕ × TextLine)) : List Char :=
  ins.foldr (fun i text => insertOne text i.1 i.2) text

theorem insertAll_append (text : List Char) (ins ins' : List (ℕ × TextLine)) :
    insertAll text (ins ++ ins') = insertAll (insertAll text ins') ins := List.foldr_append

def IsLine (m : TextLine) : Prop := m ≠ [] ∧ '\n' ∉ m

theorem textLines_insertOne_zero (text : List Char) {m : TextLine} (hm : IsLine m) :
    textLines (insertOne text 0 m) = m :: textLines text := by
  cases text with
  | nil => exact textLines_last hm.2 hm.1
  | cons c text =>
    have hpos : 0 < (c :: text).length := Nat.zero_lt_succ _
    rw [insertOne, if_pos hpos, List.take_zero, List.nil_append, List.drop_zero]
    exact textLines_line hm.2

theorem textLines_insertAll_zero (text : List Char) {ms : List TextLine}
    (hms : ∀ m ∈ ms, IsLine m) :
    textLines (insertAll text (ms.map fun m => (0, m))) = ms ++ textLines text := by
  induction ms with
  | nil => rfl
  | cons m ms ih =>
    obtain ⟨hm, hms⟩ := List.forall_mem_cons.1 hms
    rw [List.map_cons, insertAll, List.foldr_cons, textLines_insertOne_zero _ hm]
    exact congrArg (m :: ·) (ih hms)

theorem insertOne_line (line rest : List Char) (position : ℕ) (m : TextLine) :
    insertOne (line ++ '\n' :: rest) (line.length + 1 + position) m =
      line ++ '\n' :: insertOne rest position m := by
  by_cases h : position < rest.length
  · have hlt : line.length + 1 + position < (line ++ '\n' :: rest).length := by
      rw [List.length_append, List.length_cons]
      omega
    have hpos : line.length + 1 + position - line.length = position + 1 := by omega
    rw [insertOne, if_pos hlt, insertOne, if_pos h, List.take_append, List.drop_append,
      List.take_of_length_le (by omega), List.drop_of_length_le (by omega), hpos,
      List.take_succ_cons, List.drop_succ_cons]
    simp
  · have hge : ¬ line.length + 1 + position < (line ++ '\n' :: rest).length := by
      rw [List.length_append, List.length_cons]
      omega
    rw [insertOne, if_neg hge, insertOne, if_neg h]
    cases rest with
    | nil => simp
    | cons c rest => simp [List.getLast?_append]

theorem insertAll_line (line rest : List Char) (ins : List (ℕ × TextLine)) :
    insertAll (line ++ '\n' :: rest) (ins.map fun i => (line.length + 1 + i.1, i.2)) =
      line ++ '\n' :: insertAll rest ins := by
  induction ins with
  | nil => rfl
  | cons i ins ih =>
    have h : insertAll (line ++ '\n' :: rest)
        ((i :: ins).map fun i => (line.length + 1 + i.1, i.2)) =
        insertOne (insertAll (line ++ '\n' :: rest)
          (ins.map fun i => (line.length + 1 + i.1, i.2))) (line.length + 1 + i.1) i.2 := rfl
    rw [h, ih, insertOne_line]
    rfl

def groupInserts (text : List Char) (groups : ℕ → List TextLine) : List (ℕ × TextLine) :=
  (List.range ((textLines text).length + 1)).flatMap fun i =>
    (groups i).map fun m => (linePosition text i, m)

theorem groupInserts_line (h : '\n' ∉ line) (groups : ℕ → List TextLine) :
    groupInserts (line ++ '\n' :: rest) groups = (groups 0).map (fun m => (0, m)) ++
      (groupInserts rest fun i => groups (i + 1)).map fun i => (line.length + 1 + i.1, i.2) := by
  unfold groupInserts
  rw [textLines_line h, List.length_cons, List.range_succ_eq_map, List.flatMap_cons,
    linePosition_zero, List.map_flatMap, List.flatMap_map]
  refine congrArg _ (congrArg (fun f => List.flatMap f _) (funext fun i => ?_))
  rw [linePosition_line h, List.map_map]
  rfl

theorem groupInserts_last (h : '\n' ∉ line) (hne : line ≠ []) (groups : ℕ → List TextLine) :
    groupInserts line groups = (groups 0).map (fun m => (0, m)) ++
      (groups 1).map fun m => (line.length, m) := by
  unfold groupInserts
  rw [textLines_last h hne, List.length_singleton]
  have hrange : List.range (1 + 1) = [0, 1] := rfl
  rw [hrange, List.flatMap_cons, List.flatMap_cons, List.flatMap_nil, List.append_nil,
    linePosition_zero, linePosition_last h hne]

/-- **Markers in their places**: where the text ends with a line feed, or at most one marker goes
to its end, the groups are woven into the lines. -/
theorem textLines_insertAll (text : List Char) {groups : ℕ → List TextLine}
    (hgroups : ∀ i, ∀ m ∈ groups i, IsLine m)
    (hend : Ended text ∨ (groups (textLines text).length).length ≤ 1) :
    textLines (insertAll text (groupInserts text groups)) = weave groups (textLines text) := by
  induction text using lines_induction generalizing groups with
  | hnil =>
    have h : groupInserts [] groups = (groups 0).map fun m => (0, m) := by
      simp [groupInserts, linePosition]
    rw [h, textLines_insertAll_zero _ (hgroups 0), textLines_nil, List.append_nil]
    rfl
  | hlast line hline hne =>
    have hsmall : (groups 1).length ≤ 1 := by
      rcases hend with hend | hend
      · exact absurd hend (not_ended_last hline hne)
      · rwa [textLines_last hline hne, List.length_singleton] at hend
    rw [groupInserts_last hline hne, insertAll_append, textLines_insertAll_zero _ (hgroups 0),
      textLines_last hline hne]
    refine congrArg (groups 0 ++ ·) ?_
    match hg : groups 1, hsmall with
    | [], _ =>
      simp only [List.map_nil, insertAll, List.foldr_nil]
      rw [textLines_last hline hne, weave, hg]
    | [m], _ =>
      have hm := hgroups 1 m (hg ▸ List.mem_cons_self)
      have hins : insertAll line (([m] : List TextLine).map fun m => (line.length, m)) =
          line ++ '\n' :: m := by
        have hlast : line.getLast? ≠ some '\n' := fun h => hline (List.mem_of_getLast? h)
        simp [insertAll, insertOne, hne, hlast]
      rw [hins, textLines_line hline, textLines_last hm.2 hm.1, weave, hg]
  | hline line rest hline ih =>
    have hend' : Ended rest ∨ (groups ((textLines rest).length + 1)).length ≤ 1 := by
      rw [ended_line, textLines_line hline, List.length_cons] at hend
      exact hend
    rw [groupInserts_line hline, insertAll_append, insertAll_line,
      textLines_insertAll_zero _ (hgroups 0), textLines_line hline, textLines_line hline,
      ih (fun i => hgroups (i + 1)) hend']
    rfl

theorem insertAll_end (line : List Char) (hline : '\n' ∉ line) (hne : line ≠ [])
    (m m' : TextLine) (ms : List TextLine) :
    ∃ after, insertAll line ((m :: m' :: ms).map fun m => (line.length, m)) =
      line ++ m ++ '\n' :: after := by
  have hlonger : ∀ ms : List TextLine, ms ≠ [] →
      ∃ after, insertAll line (ms.map fun m => (line.length, m)) = line ++ after ∧ after ≠ [] := by
    intro ms hms
    induction ms with
    | nil => exact absurd rfl hms
    | cons m ms ih =>
      have hstep : insertAll line ((m :: ms).map fun m => (line.length, m)) =
          insertOne (insertAll line (ms.map fun m => (line.length, m))) line.length m := rfl
      rw [hstep]
      by_cases hnil : ms = []
      · have hlast : line.getLast? ≠ some '\n' := fun h => hline (List.mem_of_getLast? h)
        refine ⟨'\n' :: m, ?_, List.cons_ne_nil _ _⟩
        simp [hnil, insertAll, insertOne, hne, hlast]
      · obtain ⟨after, hafter, hne'⟩ := ih hnil
        have hlt : line.length < (line ++ after).length := by
          rw [List.length_append]
          have := List.length_pos_iff.2 hne'
          omega
        refine ⟨m ++ '\n' :: after, ?_, by simp⟩
        rw [hafter, insertOne, if_pos hlt]
        simp
  obtain ⟨after, hafter, hne'⟩ := hlonger (m' :: ms) (List.cons_ne_nil _ _)
  have hlt : line.length < (line ++ after).length := by
    rw [List.length_append]
    have := List.length_pos_iff.2 hne'
    omega
  have hstep : insertAll line ((m :: m' :: ms).map fun m => (line.length, m)) =
      insertOne (insertAll line ((m' :: ms).map fun m => (line.length, m))) line.length m := rfl
  refine ⟨after, ?_⟩
  rw [hstep, hafter, insertOne, if_pos hlt]
  simp

/-- **The joined marker**: two markers at the end of a text that does not end with a line feed
are not woven into its lines, in whatever order. -/
theorem textLines_insertAll_ne (text : List Char) {groups groups' : ℕ → List TextLine}
    (hgroups : ∀ i, ∀ m ∈ groups i, IsLine m) (hlen : ∀ i, (groups i).length = (groups' i).length)
    (hend : ¬ Ended text) (htwo : 2 ≤ (groups (textLines text).length).length) :
    textLines (insertAll text (groupInserts text groups)) ≠ weave groups' (textLines text) := by
  induction text using lines_induction generalizing groups groups' with
  | hnil => exact absurd (.inl rfl) hend
  | hlast line hline hne =>
    rw [textLines_last hline hne, List.length_singleton] at htwo
    match hg : groups 1, htwo with
    | m :: m' :: ms, _ =>
      have hm := hgroups 1 m (hg ▸ List.mem_cons_self)
      obtain ⟨after, hafter⟩ := insertAll_end line hline hne m m' ms
      rw [groupInserts_last hline hne, insertAll_append, hg, hafter,
        textLines_insertAll_zero _ (hgroups 0), textLines_last hline hne,
        textLines_line (by simp [hline, hm.2])]
      intro heq
      obtain ⟨-, heq⟩ := List.append_inj heq (hlen 0)
      have hjoined := (List.cons.inj heq).1
      exact hm.1 (List.append_right_eq_self.1 hjoined)
  | hline line rest hline ih =>
    rw [textLines_line hline, List.length_cons] at htwo
    rw [groupInserts_line hline, insertAll_append, insertAll_line,
      textLines_insertAll_zero _ (hgroups 0), textLines_line hline, textLines_line hline]
    intro heq
    obtain ⟨-, heq⟩ := List.append_inj heq (hlen 0)
    exact ih (fun i => hgroups (i + 1)) (fun i => hlen (i + 1))
      (fun h => hend (ended_line.2 h)) htwo (List.cons.inj heq).2

/-! ## The order of the inserts -/

theorem linePosition_length (text : List Char) :
    linePosition text (textLines text).length = text.length := by
  induction text using lines_induction with
  | hnil => rfl
  | hlast line hline hne =>
    rw [textLines_last hline hne]
    exact linePosition_last hline hne
  | hline line rest hline ih =>
    rw [textLines_line hline, List.length_cons, linePosition_line hline, ih, List.length_append,
      List.length_cons]
    omega

theorem linePosition_inj {text : List Char} {i j : ℕ} (hi : i ≤ (textLines text).length)
    (hj : j ≤ (textLines text).length) (h : linePosition text i = linePosition text j) :
    i = j := by
  rcases Nat.lt_trichotomy i j with hlt | heq | hgt
  · exact absurd h (Nat.ne_of_lt (linePosition_strictMono text i j hlt hj))
  · exact heq
  · exact absurd h.symm (Nat.ne_of_lt (linePosition_strictMono text j i hgt hi))

theorem notAfter_total (i j : Insert) : i.notAfter j ∨ j.notAfter i := by
  unfold Insert.notAfter
  omega

theorem notAfter_trans {i j k : Insert} (h : i.notAfter j) (h' : j.notAfter k) :
    i.notAfter k := by
  unfold Insert.notAfter at *
  omega

theorem insertionSort_eq_reverse {ins asc : List Insert} (hdiff : (ins.map Insert.order).Nodup)
    (hperm : asc.Perm ins) (hasc : asc.Pairwise Insert.notAfter) :
    (ins.insertionSort fun i j => j.notAfter i) = asc.reverse := by
  have hsort := List.perm_insertionSort (fun i j : Insert => j.notAfter i) ins
  have : Std.Total (fun i j : Insert => j.notAfter i) := ⟨fun i j => notAfter_total j i⟩
  have : IsTrans Insert (fun i j : Insert => j.notAfter i) :=
    ⟨fun _ _ _ h h' => notAfter_trans h' h⟩
  refine List.Perm.eq_of_pairwise (fun i j hi hj h h' => ?_)
    (List.pairwise_insertionSort (fun i j : Insert => j.notAfter i) ins)
    (List.pairwise_reverse.2 hasc) (hsort.trans (hperm.symm.trans asc.reverse_perm.symm))
  have hi' := hsort.mem_iff.1 hi
  have hj' := hperm.mem_iff.1 (List.mem_reverse.1 hj)
  refine List.inj_on_of_nodup_map hdiff hi' hj' ?_
  unfold Insert.notAfter at h h'
  omega

theorem flatMap_filter_perm {α : Type} (f : α → ℕ) (h : ℕ → ℕ) (n : ℕ)
    (hinj : ∀ i < n, ∀ j < n, h i = h j → i = j) (l : List α) (hl : ∀ x ∈ l, ∃ i < n, f x = h i) :
    ((List.range n).flatMap fun i => l.filter fun x => decide (f x = h i)).Perm l := by
  induction n generalizing l with
  | zero =>
    cases l with
    | nil => exact .refl _
    | cons x l =>
      obtain ⟨i, hi, -⟩ := hl x List.mem_cons_self
      exact absurd hi (Nat.not_lt_zero i)
  | succ n ih =>
    rw [List.range_succ, List.flatMap_append, List.flatMap_singleton]
    have hrest := ih (fun i hi j hj => hinj i (by omega) j (by omega))
      (l.filter fun x => !decide (f x = h n)) (fun x hx => by
        rw [List.mem_filter] at hx
        obtain ⟨i, hi, hfi⟩ := hl x hx.1
        refine ⟨i, ?_, hfi⟩
        have hne : i ≠ n := by
          rintro rfl
          simp [hfi] at hx
        omega)
    have hsame : ((List.range n).flatMap fun i => l.filter fun x => decide (f x = h i)) =
        (List.range n).flatMap fun i =>
          (l.filter fun x => !decide (f x = h n)).filter fun x => decide (f x = h i) := by
      refine List.flatMap_congr fun i hi => ?_
      rw [List.filter_filter]
      refine List.filter_congr fun x _ => ?_
      have hne : h i ≠ h n := fun heq => by
        have := hinj i (by have := List.mem_range.1 hi; omega) n (by omega) heq
        exact absurd (List.mem_range.1 hi) (by omega)
      by_cases hx : f x = h i
      · simp [hx, hne]
      · simp [hx]
    rw [hsame]
    exact (hrest.append_right _).trans
      ((List.perm_append_comm).trans (List.filter_append_perm _ l))

/-! ## The codes of a document -/

section
variable {F : Type}

theorem isLine_marker (c : PlacedCode F) : IsLine c.placed.marker := by
  refine ⟨by simp [PlacedCode.placed, marker], ?_⟩
  have hdigits : ∀ n, '\n' ∉ Nat.toDigits 10 n := by
    intro n hmem
    have := Nat.isDigit_of_mem_toDigits (by decide) (by decide) hmem
    exact absurd this (by decide)
  have hshown : '\n' ∉ shownPayload c.code.payload c.code.text := by
    have hbytes : '\n' ∉ Nat.toDigits 10 c.code.payload.length ++ [' ', 'b', 'y', 't', 'e', 's'] := by
      rw [List.mem_append, not_or]
      exact ⟨hdigits _, by decide⟩
    unfold shownPayload
    cases ht : c.code.text with
    | none => exact hbytes
    | some t =>
      have htext := c.code.text_line t ht
      dsimp only
      split
      · simp [htext]
      · exact hbytes
  have hindex := hdigits c.code.index
  have hformat := c.code.format_line
  simp [PlacedCode.placed, marker, hindex, hformat, hshown]

theorem index_of_marker {c d : PlacedCode F} (h : c.placed.marker = d.placed.marker) :
    c.code.index = d.code.index := by
  have hdigits : ∀ n, ∀ x ∈ Nat.toDigits 10 n, decide (x ≠ ' ') = true := by
    intro n x hmem
    have := Nat.isDigit_of_mem_toDigits (by decide) (by decide) hmem
    refine decide_eq_true fun heq => ?_
    rw [heq] at this
    exact absurd this (by decide)
  have hread : ∀ e : PlacedCode F, ((e.placed.marker.drop 7).takeWhile fun x =>
      decide (x ≠ ' ')) = Nat.toDigits 10 e.code.index := by
    intro e
    have hshape : ∃ rest, e.placed.marker.drop 7 = Nat.toDigits 10 e.code.index ++ ' ' :: rest := by
      refine ⟨e.code.format ++ ' ' :: shownPayload e.code.payload e.code.text ++ [']'], ?_⟩
      simp [PlacedCode.placed, marker]
    obtain ⟨rest, hrest⟩ := hshape
    rw [hrest, takeWhile_append_cons _ _ (by decide), List.takeWhile_eq_self_iff.2 (hdigits _)]
  have hsame := congrArg (fun m => Nat.ofDigitChars 10 ((List.drop 7 m).takeWhile fun x =>
    decide (x ≠ ' ')) 0) h
  simp only [hread, Nat.ofDigitChars_ten_toDigits] at hsame
  exact hsame

end

section
variable {F : Type} [LinearOrder F] (row : F → ℤ)

/-- The line a code's marker belongs before: that of the first anchor that follows the code in
reading order, or past the last line. -/
def place (text : List Char) (anchors : List (Anchor F)) (p : Placed F) : ℕ :=
  match firstOf row (later row anchors p) with
  | some a => lineOf text a.index
  | none => (textLines text).length

theorem mem_of_firstOf {anchors : List (Anchor F)} {a : Anchor F}
    (h : firstOf row anchors = some a) : a ∈ anchors := by
  cases anchors with
  | nil => exact absurd h.symm (Option.some_ne_none a)
  | cons b bs =>
    have hfold : ∀ (l : List (Anchor F)) (m : Anchor F),
        l.foldl (fun m b => if keyBefore (b.key row) (m.key row) then b else m) m ∈ m :: l := by
      intro l
      induction l with
      | nil => exact fun m => List.mem_singleton_self m
      | cons c l ih =>
        intro m
        rw [List.foldl_cons]
        split
        · exact List.mem_cons_of_mem _ (ih c)
        · rcases List.mem_cons.1 (ih m) with hm | hm
          · exact List.mem_cons.2 (.inl hm)
          · exact List.mem_cons_of_mem _ (List.mem_cons_of_mem _ hm)
    rw [firstOf, Option.some.injEq] at h
    exact h ▸ hfold bs b

theorem insertAt_eq {text : List Char} {anchors : List (Anchor F)}
    (hanchors : ∀ a ∈ anchors, a.index < text.length) (p : Placed F) :
    place row text anchors p ≤ (textLines text).length ∧
      insertAt row text anchors p = linePosition text (place row text anchors p) := by
  unfold place insertAt
  cases h : firstOf row (later row anchors p) with
  | none => exact ⟨Nat.le_refl _, (linePosition_length text).symm⟩
  | some a =>
    have hmem := (List.mem_filter.1 (mem_of_firstOf row h)).1
    obtain ⟨hlt, heq⟩ := lineStart_eq text a.index (hanchors a hmem)
    exact ⟨Nat.le_of_lt hlt, heq⟩

def groupOf (text : List Char) (anchors : List (Anchor F)) (placed : List (Placed F)) (i : ℕ) :
    List (Placed F) :=
  placed.filter fun p => decide (place row text anchors p = i)

theorem inserts_orders (text : List Char) (anchors : List (Anchor F)) (placed : List (Placed F)) :
    (inserts row text anchors placed).map Insert.order = List.range placed.length := by
  unfold inserts
  rw [List.map_map]
  exact (List.range_eq_range' ▸ List.zipIdx_map_snd 0 placed)

theorem inserts_filter {text : List Char} {anchors : List (Anchor F)}
    (hanchors : ∀ a ∈ anchors, a.index < text.length) (placed : List (Placed F)) {i : ℕ}
    (hi : i ≤ (textLines text).length) :
    ((inserts row text anchors placed).filter fun x =>
        decide (x.position = linePosition text i)).map (fun x => (x.position, x.marker)) =
      (groupOf row text anchors placed i).map fun p => (linePosition text i, p.marker) := by
  have hplaced : groupOf row text anchors placed i =
      (placed.zipIdx.filter fun p => decide (place row text anchors p.1 = i)).map Prod.fst := by
    have h := List.filter_map (f := Prod.fst)
      (p := fun p => decide (place row text anchors p = i)) (l := placed.zipIdx)
    rw [List.zipIdx_map_fst] at h
    exact h
  rw [hplaced, inserts, List.filter_map, List.map_map, List.map_map]
  have hfilter : placed.zipIdx.filter ((fun x : Insert =>
        decide (x.position = linePosition text i)) ∘ fun p =>
          (⟨insertAt row text anchors p.1, p.2, p.1.marker⟩ : Insert)) =
      placed.zipIdx.filter fun p => decide (place row text anchors p.1 = i) := by
    refine List.filter_congr fun p _ => ?_
    obtain ⟨hle, heq⟩ := insertAt_eq row hanchors p.1
    refine decide_eq_decide.2 ⟨fun h => ?_, fun h => ?_⟩
    · exact linePosition_inj hle hi (heq.symm.trans h)
    · exact heq.trans (congrArg (linePosition text) h)
  rw [hfilter]
  refine List.map_congr_left fun p hp => ?_
  have hpi := of_decide_eq_true (List.mem_filter.1 hp).2
  have heq := (insertAt_eq row hanchors p.1).2
  rw [hpi] at heq
  exact congrArg (fun n => (n, p.1.marker)) heq

/-- **Back to front**: the markers are inserted group by group. -/
theorem insertMarkers_eq {text : List Char} {anchors : List (Anchor F)}
    (hanchors : ∀ a ∈ anchors, a.index < text.length) (placed : List (Placed F)) :
    insertMarkers row text anchors placed = insertAll text
      (groupInserts text fun i => (groupOf row text anchors placed i).map Placed.marker) := by
  set ins := inserts row text anchors placed with hins
  set asc := (List.range ((textLines text).length + 1)).flatMap fun i =>
    ins.filter fun x => decide (x.position = linePosition text i) with hasc
  have hpos : ∀ x ∈ ins, ∃ i < (textLines text).length + 1, x.position = linePosition text i := by
    intro x hx
    obtain ⟨p, -, rfl⟩ := List.mem_map.1 hx
    obtain ⟨hle, heq⟩ := insertAt_eq row hanchors p.1
    exact ⟨_, Nat.lt_succ_of_le hle, heq⟩
  have hperm : asc.Perm ins := flatMap_filter_perm _ _ _
    (fun i hi j hj => linePosition_inj (Nat.le_of_lt_succ hi) (Nat.le_of_lt_succ hj)) ins hpos
  have horders : ins.Pairwise fun x y => x.order < y.order := by
    have h : (ins.map Insert.order).Pairwise (· < ·) := by
      rw [hins, inserts_orders]
      exact List.pairwise_lt_range
    exact List.pairwise_map.1 h
  have hsorted : asc.Pairwise Insert.notAfter := by
    refine List.pairwise_flatMap.2 ⟨fun i _ => ?_, ?_⟩
    · refine List.pairwise_filter.2 (horders.imp fun {x y} hlt hx hy => ?_)
      refine .inr ⟨?_, Nat.le_of_lt hlt⟩
      rw [of_decide_eq_true hx, of_decide_eq_true hy]
    · refine List.pairwise_lt_range.imp_of_mem fun {i j} _ hj hlt x hx y hy => .inl ?_
      rw [of_decide_eq_true (List.mem_filter.1 hx).2, of_decide_eq_true (List.mem_filter.1 hy).2]
      exact linePosition_strictMono text i j hlt (Nat.le_of_lt_succ (List.mem_range.1 hj))
  have hdiff : (ins.map Insert.order).Nodup := by
    rw [hins, inserts_orders]
    exact List.nodup_range
  have hgroups : (asc.map fun x => (x.position, x.marker)) =
      groupInserts text fun i => (groupOf row text anchors placed i).map Placed.marker := by
    rw [hasc, List.map_flatMap, groupInserts]
    refine List.flatMap_congr fun i hi => ?_
    rw [hins, inserts_filter row hanchors placed (Nat.le_of_lt_succ (List.mem_range.1 hi)),
      List.map_map]
    rfl
  rw [insertMarkers, insertionSort_eq_reverse hdiff hperm hsorted, List.foldl_reverse, ← hgroups,
    insertAll, List.foldr_map]

/-! ## Markers left intact -/

/-- **What the markers should make of a text**: the lines of the text with the markers of each
place, once each and in their codes' reading order, before the line of the place or after the
last line. -/
def Intact (text : List Char) (anchors : List (Anchor F)) (placed : List (Placed F))
    (result : List Char) : Prop :=
  ∃ marks : ℕ → List (Placed F),
    (∀ i, (marks i).Perm (groupOf row text anchors placed i)) ∧
    (∀ i, (marks i).Pairwise fun p q => keyBefore (q.key row) (p.key row) = false) ∧
    textLines result = weave (fun i => (marks i).map Placed.marker) (textLines text)

/-- The text ends with a line feed, or at most one code follows every anchor. -/
def Separated (text : List Char) (anchors : List (Anchor F)) (placed : List (Placed F)) : Prop :=
  Ended text ∨ (placed.filter fun p => (later row anchors p).isEmpty).length ≤ 1

def InOrder (text : List Char) (anchors : List (Anchor F)) (placed : List (Placed F)) : Prop :=
  placed.Pairwise fun p q => place row text anchors p = place row text anchors q →
    keyBefore (q.key row) (p.key row) = false

instance (text : List Char) (anchors : List (Anchor F)) (placed : List (Placed F)) :
    Decidable (Separated row text anchors placed) := by
  unfold Separated
  infer_instance

instance (text : List Char) (anchors : List (Anchor F)) (placed : List (Placed F)) :
    Decidable (InOrder row text anchors placed) := by
  unfold InOrder
  infer_instance

variable {row}
variable {text : List Char} {anchors : List (Anchor F)} {placed : List (Placed F)}

theorem groupOf_last (hanchors : ∀ a ∈ anchors, a.index < text.length) :
    groupOf row text anchors placed (textLines text).length =
      placed.filter fun p => (later row anchors p).isEmpty := by
  refine List.filter_congr fun p _ => ?_
  unfold place
  cases hl : later row anchors p with
  | nil => simp [firstOf]
  | cons b bs =>
    cases h : firstOf row (b :: bs) with
    | none => exact absurd h (Option.some_ne_none _)
    | some a =>
      have hmem : a ∈ later row anchors p := hl ▸ mem_of_firstOf row h
      have hlt := (lineStart_eq text a.index (hanchors a (List.mem_filter.1 hmem).1)).1
      simpa using Nat.ne_of_lt hlt

theorem textLines_insertMarkers (hanchors : ∀ a ∈ anchors, a.index < text.length)
    (hlines : ∀ p ∈ placed, IsLine p.marker) (hsep : Separated row text anchors placed) :
    textLines (insertMarkers row text anchors placed) =
      weave (fun i => (groupOf row text anchors placed i).map Placed.marker) (textLines text) := by
  rw [insertMarkers_eq row hanchors]
  refine textLines_insertAll text (fun i m hm => ?_) ?_
  · obtain ⟨p, hp, rfl⟩ := List.mem_map.1 hm
    exact hlines p (List.mem_filter.1 hp).1
  · rw [List.length_map, groupOf_last hanchors]
    exact hsep

theorem intact_of_inOrder (hanchors : ∀ a ∈ anchors, a.index < text.length)
    (hlines : ∀ p ∈ placed, IsLine p.marker) (hsep : Separated row text anchors placed)
    (horder : InOrder row text anchors placed) :
    Intact row text anchors placed (insertMarkers row text anchors placed) := by
  refine ⟨groupOf row text anchors placed, fun i => .refl _, fun i => ?_,
    textLines_insertMarkers hanchors hlines hsep⟩
  refine List.pairwise_filter.2 (horder.imp fun {p q} h hp hq => h ?_)
  exact (of_decide_eq_true hp).trans (of_decide_eq_true hq).symm

theorem separated_of_intact (hanchors : ∀ a ∈ anchors, a.index < text.length)
    (hlines : ∀ p ∈ placed, IsLine p.marker)
    (h : Intact row text anchors placed (insertMarkers row text anchors placed)) :
    Separated row text anchors placed := by
  obtain ⟨marks, hperm, -, hlinesEq⟩ := h
  by_contra hsep
  obtain ⟨hended, hmany⟩ := not_or.1 hsep
  rw [insertMarkers_eq row hanchors] at hlinesEq
  refine textLines_insertAll_ne text (fun i m hm => ?_) (fun i => ?_) hended ?_ hlinesEq
  · obtain ⟨p, hp, rfl⟩ := List.mem_map.1 hm
    exact hlines p (List.mem_filter.1 hp).1
  · rw [List.length_map, List.length_map, (hperm i).length_eq]
  · rw [List.length_map, groupOf_last hanchors]
    omega

theorem eq_of_map_eq {α β : Type} {f : α → β} {l l' : List α}
    (hinj : ∀ x ∈ l, ∀ y ∈ l', f x = f y → x = y) (h : l.map f = l'.map f) : l = l' := by
  induction l generalizing l' with
  | nil => exact (List.map_eq_nil_iff.1 h.symm).symm
  | cons x l ih =>
    obtain ⟨y, l', rfl, hxy, hrest⟩ := List.map_eq_cons_iff.1 h.symm
    rw [hinj x List.mem_cons_self y List.mem_cons_self hxy.symm,
      ih (fun a ha b hb => hinj a (List.mem_cons_of_mem _ ha) b (List.mem_cons_of_mem _ hb))
        hrest.symm]

/-- Markers that stand intact stand in order. -/
theorem inOrder_of_intact (hanchors : ∀ a ∈ anchors, a.index < text.length)
    (hlines : ∀ p ∈ placed, IsLine p.marker) (hdiff : (placed.map Placed.marker).Nodup)
    (h : Intact row text anchors placed (insertMarkers row text anchors placed)) :
    InOrder row text anchors placed := by
  have hsep := separated_of_intact hanchors hlines h
  obtain ⟨marks, hperm, hsorted, hweave⟩ := h
  rw [textLines_insertMarkers hanchors hlines hsep] at hweave
  have hgroups := weave_inj (fun i => by
    rw [List.length_map, List.length_map, (hperm i).length_eq]) hweave
  have hinj : ∀ p ∈ placed, ∀ q ∈ placed, p.marker = q.marker → p = q :=
    fun p hp q hq => List.inj_on_of_nodup_map hdiff hp hq
  have hgroup : ∀ i ≤ (textLines text).length,
      (groupOf row text anchors placed i).Pairwise fun p q =>
        keyBefore (q.key row) (p.key row) = false := by
    intro i hi
    have heq : groupOf row text anchors placed i = marks i := by
      refine eq_of_map_eq (fun p hp q hq => hinj p ?_ q ?_) (hgroups i hi)
      · exact (List.mem_filter.1 hp).1
      · exact (List.mem_filter.1 ((hperm i).mem_iff.1 hq)).1
    rw [heq]
    exact hsorted i
  refine List.pairwise_iff_forall_sublist.2 fun {p q} hsub hplace => ?_
  have hle := (insertAt_eq row hanchors p).1
  have hpair : [p, q].Sublist (groupOf row text anchors placed (place row text anchors p)) := by
    have h := hsub.filter fun x => decide (place row text anchors x = place row text anchors p)
    simpa [groupOf, hplace] using h
  exact List.pairwise_iff_forall_sublist.1 (hgroup _ hle) hpair

/-- **Code markers in a text**: the markers of codes with different numbers are woven into its
lines in reading order exactly where it ends with a line feed or at most one code follows every
anchor, and codes of one place are listed in reading order. -/
theorem insert_markers_intact_iff (codes : List (PlacedCode F))
    (hanchors : ∀ a ∈ anchors, a.index < text.length)
    (hnumbers : (codes.map fun c => c.code.index).Nodup) :
    Intact row text anchors (codes.map PlacedCode.placed)
        (insertMarkers row text anchors (codes.map PlacedCode.placed)) ↔
      Separated row text anchors (codes.map PlacedCode.placed) ∧
        InOrder row text anchors (codes.map PlacedCode.placed) := by
  have hlines : ∀ p ∈ codes.map PlacedCode.placed, IsLine p.marker := by
    intro p hp
    obtain ⟨c, -, rfl⟩ := List.mem_map.1 hp
    exact isLine_marker c
  have hdiff : ((codes.map PlacedCode.placed).map Placed.marker).Nodup := by
    rw [List.map_map]
    refine List.Nodup.map_on (fun c hc d hd h => ?_) hnumbers.of_map
    exact List.inj_on_of_nodup_map hnumbers hc hd (index_of_marker h)
  constructor
  · intro h
    exact ⟨separated_of_intact hanchors hlines h, inOrder_of_intact hanchors hlines hdiff h⟩
  · rintro ⟨hsep, horder⟩
    exact intact_of_inOrder hanchors hlines hsep horder

end

def qrCode (index : ℕ) : Barcode where
  index := index
  format := ['Q', 'R']
  payload := [65]
  text := some ['A']
  format_line := by decide
  text_line := by decide

def pointRow (top : ℤ) : ℤ := top / 6

theorem insert_markers_intact_page :
    Intact pointRow ['H', 'i', '\n'] [⟨0, 0, 0⟩]
      ([⟨qrCode 1, -60, 0⟩, ⟨qrCode 2, 600, 0⟩, ⟨qrCode 3, 600, 9⟩].map PlacedCode.placed)
      (insertMarkers pointRow ['H', 'i', '\n'] [⟨0, 0, 0⟩]
        ([⟨qrCode 1, -60, 0⟩, ⟨qrCode 2, 600, 0⟩, ⟨qrCode 3, 600, 9⟩].map PlacedCode.placed)) :=
  (insert_markers_intact_iff _ (by decide) (by decide)).2 ⟨.inl (.inr rfl), by decide⟩

/-- Two codes below a line without a line feed. -/
theorem insert_markers_joins_line :
    ¬ Intact pointRow ['H', 'i'] [⟨0, 0, 0⟩]
      ([⟨qrCode 1, 600, 0⟩, ⟨qrCode 2, 600, 9⟩].map PlacedCode.placed)
      (insertMarkers pointRow ['H', 'i'] [⟨0, 0, 0⟩]
        ([⟨qrCode 1, 600, 0⟩, ⟨qrCode 2, 600, 9⟩].map PlacedCode.placed)) := by
  intro h
  have hlines : ∀ p ∈ [(⟨qrCode 1, 600, 0⟩ : PlacedCode ℤ), ⟨qrCode 2, 600, 9⟩].map
      PlacedCode.placed, IsLine p.marker := by
    intro p hp
    obtain ⟨c, -, rfl⟩ := List.mem_map.1 hp
    exact isLine_marker c
  exact absurd (separated_of_intact (by decide) hlines h) (by decide)

end MarkedText

end MailVerdict.Analysis
