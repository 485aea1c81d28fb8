import MailVerdict.Model.LineDiff

/-!
# A line diff replays

The rows are read over the first text's lines: a context or removed row must show the next
line, a gap stands for as many lines as it says. `Shows` says of a run of rows what it reads
and what it gives, and which lines of each side it accounts for; runs of rows compose, so the
diff is followed opcode by opcode inside a group and group by group across the gaps.
-/

namespace MailVerdict.Analysis

open MailVerdict.Computation
open Computation.EditScript
open Model.LineDiff

variable {i j i' j' : ℕ} {old new : List Line}

namespace DiffReplay

def rowText (r : DiffRow) : Line := r.segments.flatMap DiffSegment.text

/-- Read the rows over the first text's lines, giving the second's. -/
def replay : List DiffRow → List Line → Option (List Line)
  | [], [] => some []
  | [], _ :: _ => none
  | r :: rs, lines =>
    match r.op, lines with
    | .context, line :: rest =>
      if rowText r = line then (replay rs rest).map (line :: ·) else none
    | .removed, line :: rest => if rowText r = line then replay rs rest else none
    | .context, [] => none
    | .removed, [] => none
    | .added, lines => (replay rs lines).map (rowText r :: ·)
    | .gap, lines =>
      if r.skipped ≤ lines.length then
        (replay rs (lines.drop r.skipped)).map (lines.take r.skipped ++ ·)
      else none

/-- The rows that show a line of the first text, and those that show one of the second. -/
def onFirst (op : DiffOp) : Bool := decide (op = .context) || decide (op = .removed)

def onSecond (op : DiffOp) : Bool := decide (op = .context) || decide (op = .added)

def accounts (shows : DiffOp → Bool) : List DiffRow → List Line → Bool
  | [], lines => lines.isEmpty
  | r :: rs, lines =>
    if r.op = .gap then
      decide (r.skipped ≤ lines.length) && accounts shows rs (lines.drop r.skipped)
    else if shows r.op then
      match lines with
      | line :: rest => decide (rowText r = line) && accounts shows rs rest
      | [] => false
    else accounts shows rs lines

/-- What a run of rows reads of the first text and gives of the second, whatever follows. -/
structure Shows (rows : List DiffRow) (olds news : List Line) : Prop where
  reads : ∀ rs rest, replay (rows ++ rs) (olds ++ rest) = (replay rs rest).map (news ++ ·)
  first : ∀ rs rest, accounts onFirst (rows ++ rs) (olds ++ rest) = accounts onFirst rs rest
  second : ∀ rs rest, accounts onSecond (rows ++ rs) (news ++ rest) = accounts onSecond rs rest

namespace Shows

theorem nil : Shows [] [] [] where
  reads := fun rs rest => by cases h : replay rs rest <;> simp [h]
  first := fun _ _ => rfl
  second := fun _ _ => rfl

theorem append {rows rows' : List DiffRow} {olds olds' news news' : List Line}
    (h : Shows rows olds news) (h' : Shows rows' olds' news') :
    Shows (rows ++ rows') (olds ++ olds') (news ++ news') where
  reads := by
    intro rs rest
    rw [List.append_assoc, List.append_assoc, h.reads, h'.reads, Option.map_map]
    refine congrArg (fun f => Option.map f (replay rs rest)) (funext fun ls => ?_)
    exact (List.append_assoc news news' ls).symm
  first := by
    intro rs rest
    rw [List.append_assoc, List.append_assoc, h.first, h'.first]
  second := by
    intro rs rest
    rw [List.append_assoc, List.append_assoc, h.second, h'.second]

theorem ofContext {r : DiffRow} {line : Line} (hop : r.op = .context) (ht : rowText r = line) :
    Shows [r] [line] [line] := by
  constructor <;> intro rs rest <;> simp [replay, accounts, onFirst, onSecond, hop, ht]

theorem ofRemoved {r : DiffRow} {line : Line} (hop : r.op = .removed) (ht : rowText r = line) :
    Shows [r] [line] [] := by
  constructor <;> intro rs rest <;> simp [replay, accounts, onFirst, onSecond, hop, ht]

theorem ofAdded {r : DiffRow} {line : Line} (hop : r.op = .added) (ht : rowText r = line) :
    Shows [r] [] [line] := by
  constructor <;> intro rs rest <;> simp [replay, accounts, onFirst, onSecond, hop, ht]

theorem ofGap (lines : List Line) : Shows [gap lines.length] lines lines := by
  constructor <;> intro rs rest <;> simp [replay, accounts, gap]

end Shows

/-! ## Marked lines -/

def segmentsText (segments : List DiffSegment) : List Char := segments.flatMap DiffSegment.text

theorem segmentsText_addSegment (changed : Bool) (text : List Char) (segments : List DiffSegment) :
    segmentsText (addSegment changed text segments) = segmentsText segments ++ text := by
  unfold addSegment
  by_cases ht : text = []
  · rw [if_pos ht, ht, List.append_nil]
  · rw [if_neg ht]
    rcases List.eq_nil_or_concat segments with rfl | ⟨init, last, rfl⟩
    · simp [segmentsText]
    · rw [List.concat_eq_append, List.getLast?_concat, List.dropLast_concat]
      simp only [segmentsText]
      split <;> simp

theorem segmentsText_foldl {old new : Line} (codes : List Opcode)
    (h : Leads old new codes i j i' j') (acc : List DiffSegment × List DiffSegment) :
    let res := codes.foldl (fun acc c =>
      (addSegment (decide (c.tag ≠ .equal)) (slice old c.i1 c.i2) acc.1,
        addSegment (decide (c.tag ≠ .equal)) (slice new c.j1 c.j2) acc.2)) acc
    i ≤ i' ∧ j ≤ j' ∧ segmentsText res.1 = segmentsText acc.1 ++ slice old i i' ∧
      segmentsText res.2 = segmentsText acc.2 ++ slice new j j' := by
  induction codes generalizing i j acc with
  | nil =>
    obtain ⟨rfl, rfl⟩ := h
    simp [slice_self]
  | cons c cs ih =>
    obtain ⟨rfl, rfl, hf, hrest⟩ := h
    obtain ⟨hi, hj, hold, hnew⟩ := ih hrest
      (addSegment (decide (c.tag ≠ .equal)) (slice old c.i1 c.i2) acc.1,
        addSegment (decide (c.tag ≠ .equal)) (slice new c.j1 c.j2) acc.2)
    refine ⟨Nat.le_trans hf.first hi, Nat.le_trans hf.second hj, ?_, ?_⟩
    · rw [List.foldl_cons, hold, segmentsText_addSegment, List.append_assoc,
        slice_append hf.first hi]
    · rw [List.foldl_cons, hnew, segmentsText_addSegment, List.append_assoc,
        slice_append hf.second hj]

section
variable (lineMatcher : SequenceMatcher Line) (charMatcher : SequenceMatcher Char)

theorem segmentsText_inlinePair {old new : Line} {pair : List DiffSegment × List DiffSegment}
    (h : inlinePair charMatcher old new = some pair) :
    segmentsText pair.1 = old ∧ segmentsText pair.2 = new := by
  rw [inlinePair] at h
  by_cases hr : ratioBelow old new (charMatcher.opcodes old new) = true
  · simp [hr] at h
  · simp only [hr, Bool.false_eq_true, if_false] at h
    obtain ⟨-, -, hold, hnew⟩ :=
      segmentsText_foldl _ (charMatcher.valid old new) ([], [])
    rw [slice_zero_length] at hold hnew
    rw [← Option.some.inj h]
    exact ⟨hold, hnew⟩

def Marks (lines : List Line) (pairs : List (Option (List DiffSegment))) : Prop :=
  ∀ p ∈ lines.zip pairs, ∀ segments ∈ p.2, segmentsText segments = p.1

theorem marks_nil (lines : List Line) : Marks lines [] := by
  intro p hp
  simp at hp

theorem marks_replace (olds news : List Line) :
    Marks olds ((List.zipWith (inlinePair charMatcher) olds news).map fun p => p.map Prod.fst) ∧
      Marks news ((List.zipWith (inlinePair charMatcher) olds news).map fun p => p.map Prod.snd) := by
  induction olds generalizing news with
  | nil => constructor <;> intro p hp <;> simp at hp
  | cons old olds ih =>
    cases news with
    | nil => constructor <;> intro p hp <;> simp at hp
    | cons new news =>
      obtain ⟨hold, hnew⟩ := ih news
      simp only [List.zipWith_cons_cons, List.map_cons, Marks, List.zip_cons_cons,
        List.forall_mem_cons]
      refine ⟨⟨fun segments hs => ?_, hold⟩, ⟨fun segments hs => ?_, hnew⟩⟩
      · obtain ⟨pair, hpair, rfl⟩ := Option.map_eq_some_iff.1 hs
        exact (segmentsText_inlinePair charMatcher hpair).1
      · obtain ⟨pair, hpair, rfl⟩ := Option.map_eq_some_iff.1 hs
        exact (segmentsText_inlinePair charMatcher hpair).2

theorem rowText_row (op : DiffOp) (line : Line) : rowText (row op line) = line :=
  List.append_nil line

theorem markedRows_induction {op : DiffOp} {P : List DiffRow → List Line → Prop}
    (hnil : P [] []) (hcons : ∀ r line rows lines, r.op = op → rowText r = line →
      P rows lines → P (r :: rows) (line :: lines))
    (lines : List Line) (pairs : List (Option (List DiffSegment))) (h : Marks lines pairs) :
    P (markedRows op lines pairs) lines := by
  induction lines generalizing pairs with
  | nil => exact hnil
  | cons line lines ih =>
    match pairs, h with
    | [], h => exact hcons _ _ _ _ rfl (rowText_row op line) (ih [] (marks_nil lines))
    | none :: pairs, h =>
      have hrest : Marks lines pairs := (List.forall_mem_cons.1 h).2
      exact hcons _ _ _ _ rfl (rowText_row op line) (ih pairs hrest)
    | some segments :: pairs, h =>
      obtain ⟨hhead, hrest⟩ := List.forall_mem_cons.1 h
      exact hcons _ _ _ _ rfl (hhead segments rfl) (ih pairs hrest)

theorem shows_removed (lines : List Line) (pairs : List (Option (List DiffSegment)))
    (h : Marks lines pairs) : Shows (markedRows .removed lines pairs) lines [] := by
  refine markedRows_induction (P := fun rows lines => Shows rows lines []) .nil ?_ lines pairs h
  intro r line rows lines hop ht hrows
  exact (Shows.ofRemoved hop ht).append hrows

theorem shows_added (lines : List Line) (pairs : List (Option (List DiffSegment)))
    (h : Marks lines pairs) : Shows (markedRows .added lines pairs) [] lines := by
  refine markedRows_induction (P := fun rows lines => Shows rows [] lines) .nil ?_ lines pairs h
  intro r line rows lines hop ht hrows
  exact (Shows.ofAdded hop ht).append hrows

theorem shows_replaceRows (olds news : List Line) :
    Shows (replaceRows charMatcher olds news) olds news := by
  obtain ⟨hold, hnew⟩ := marks_replace charMatcher olds news
  have h := (shows_removed olds _ hold).append (shows_added news _ hnew)
  rwa [List.append_nil, List.nil_append] at h

/-! ## Plain rows -/

theorem markedRows_nil (op : DiffOp) (lines : List Line) :
    markedRows op lines [] = lines.map (row op) := by
  induction lines with
  | nil => rfl
  | cons line lines ih => rw [markedRows, ih, List.map_cons]

theorem shows_context (lines : List Line) : Shows (lines.map (row .context)) lines lines := by
  induction lines with
  | nil => exact .nil
  | cons line lines ih => exact (Shows.ofContext rfl (rowText_row _ line)).append ih

/-- **One opcode**: its rows read its stretch of the first text and give its stretch of the
second. -/
theorem shows_opcodeRows {c : Opcode} (h : c.Fits old new) :
    Shows (opcodeRows charMatcher old new c) (slice old c.i1 c.i2) (slice new c.j1 c.j2) := by
  have htag := h.tagged
  unfold Opcode.Tagged at htag
  unfold opcodeRows
  cases ht : c.tag with
  | equal =>
    simp only [ht] at htag ⊢
    rw [← htag]
    exact shows_context _
  | delete =>
    simp only [ht] at htag ⊢
    rw [htag, slice_self, ← markedRows_nil]
    exact shows_removed _ _ (marks_nil _)
  | insert =>
    simp only [ht] at htag ⊢
    rw [htag, slice_self, ← markedRows_nil]
    exact shows_added _ _ (marks_nil _)
  | replace =>
    exact shows_replaceRows charMatcher _ _

/-- **One group**: opcode by opcode. -/
theorem shows_group (g : List Opcode) (h : Leads old new g i j i' j') :
    i ≤ i' ∧ j ≤ j' ∧ Shows (g.flatMap (opcodeRows charMatcher old new)) (slice old i i')
      (slice new j j') := by
  induction g generalizing i j with
  | nil =>
    obtain ⟨rfl, rfl⟩ := h
    rw [slice_self, slice_self]
    exact ⟨Nat.le_refl i, Nat.le_refl j, .nil⟩
  | cons c cs ih =>
    obtain ⟨rfl, rfl, hf, hrest⟩ := h
    obtain ⟨hi, hj, hrows⟩ := ih hrest
    refine ⟨Nat.le_trans hf.first hi, Nat.le_trans hf.second hj, ?_⟩
    have hrows := (shows_opcodeRows charMatcher hf).append hrows
    rwa [slice_append hf.first hi, slice_append hf.second hj] at hrows

theorem leads_getLast (c : Opcode) (cs : List Opcode) (h : Leads old new (c :: cs) i j i' j') :
    ((c :: cs).getLast?.map Opcode.i2) = some i' := by
  induction cs generalizing c i j with
  | nil =>
    obtain ⟨-, -, -, rfl, -⟩ := h
    rfl
  | cons d ds ih =>
    obtain ⟨-, -, -, hrest⟩ := h
    rw [List.getLast?_cons_cons]
    exact ih d hrest

theorem shows_gap (h : EqualRun old new i j i' j') :
    Shows (if i < i' then [gap (i' - i)] else []) (slice old i i') (slice new j j') := by
  by_cases hlt : i < i'
  · rw [if_pos hlt, ← h.same, ← length_slice h.inFirst]
    exact .ofGap _
  · have hi : i' = i := Nat.le_antisymm (Nat.not_lt.1 hlt) h.first
    rw [if_neg hlt, ← h.same, hi, slice_self]
    exact .nil

/-- **The loop over the groups**: the rows from a group on read the rest of the first text and
give the rest of the second. -/
theorem shows_groupRows (groups : List (List Opcode))
    (h : Spans old new groups i j old.length new.length) :
    Shows (groupRows charMatcher old new groups i) (slice old i old.length)
      (slice new j new.length) := by
  induction groups generalizing i j with
  | nil => exact shows_gap h
  | cons g gs ih =>
    obtain ⟨c, cs, k, m, rfl, hrun, hg, hrest⟩ := h
    obtain ⟨hk, hm, hrows⟩ := shows_group charMatcher (c :: cs) hg
    have hend := hg.le hrun.inFirst hrun.inSecond
    have hall := ((shows_gap hrun).append hrows).append (ih hrest)
    rw [slice_append hrun.first hk, slice_append (Nat.le_trans hrun.first hk) hend.1,
      slice_append hrun.second hm, slice_append (Nat.le_trans hrun.second hm) hend.2] at hall
    rw [groupRows, leads_getLast c cs hg]
    exact hall

/-- **A line diff replays**: read over the lines of the first text its rows give the lines of
the second, and they account for every line of either side once and in order, each row by
what its segments say put together. -/
theorem line_diff_replays (before after : Option (List Char))
    (h : splitlines (before.getD []) ≠ splitlines (after.getD [])) :
    replay (lineDiff lineMatcher charMatcher before after) (splitlines (before.getD [])) =
        some (splitlines (after.getD [])) ∧
      accounts onFirst (lineDiff lineMatcher charMatcher before after)
        (splitlines (before.getD [])) = true ∧
      accounts onSecond (lineDiff lineMatcher charMatcher before after)
        (splitlines (after.getD [])) = true := by
  have hspan := spans_groupedOpcodes contextLines
    (lineMatcher.valid (splitlines (before.getD [])) (splitlines (after.getD [])))
  have hrows := shows_groupRows charMatcher _ hspan
  rw [slice_zero_length, slice_zero_length] at hrows
  have hreads := hrows.reads [] []
  have hfirst := hrows.first [] []
  have hsecond := hrows.second [] []
  simp only [List.append_nil] at hreads hfirst hsecond
  rw [lineDiff, if_neg h]
  refine ⟨?_, hfirst, hsecond⟩
  rw [hreads]
  simp [replay]

end

def prefixLength {α : Type} [DecidableEq α] : List α → List α → ℕ
  | x :: xs, y :: ys => if x = y then prefixLength xs ys + 1 else 0
  | _, _ => 0

theorem prefixLength_spec {α : Type} [DecidableEq α] (a b : List α) :
    EqualRun a b 0 0 (prefixLength a b) (prefixLength a b) := by
  refine ⟨Nat.zero_le _, Nat.zero_le _, ?_, ?_, ?_⟩ <;> fun_induction prefixLength a b <;>
    simp_all [slice]

/-- What is left of two lists once their common start is taken off. -/
def restOpcodes (n m k : ℕ) : List Opcode :=
  if k < n ∧ k < m then [⟨.replace, k, n, k, m⟩]
  else if k < n then [⟨.delete, k, n, k, m⟩]
  else if k < m then [⟨.insert, k, n, k, m⟩]
  else []

/-- The script that keeps the common start and replaces the rest. -/
def prefixOpcodes {α : Type} [DecidableEq α] (a b : List α) : List Opcode :=
  let k := prefixLength a b
  (if 0 < k then [⟨.equal, 0, k, 0, k⟩] else []) ++ restOpcodes a.length b.length k

theorem leads_restOpcodes {α : Type} {a b : List α} {k : ℕ} (ha : k ≤ a.length)
    (hb : k ≤ b.length) : Leads a b (restOpcodes a.length b.length k) k k a.length b.length := by
  have hfits : ∀ tag, (Opcode.mk tag k a.length k b.length).Tagged a b →
      Leads a b [⟨tag, k, a.length, k, b.length⟩] k k a.length b.length :=
    fun tag ht => leads_singleton _ ⟨ha, hb, Nat.le_refl _, Nat.le_refl _, ht⟩
  unfold restOpcodes
  split
  · exact hfits .replace trivial
  · split
    · exact hfits .delete (by simp only [Opcode.Tagged]; omega)
    · split
      · exact hfits .insert (by simp only [Opcode.Tagged]; omega)
      · exact ⟨by omega, by omega⟩

theorem valid_prefixOpcodes {α : Type} [DecidableEq α] (a b : List α) :
    Valid a b (prefixOpcodes a b) := by
  have hrun := prefixLength_spec a b
  refine (leads_append _ _ _ _ _ _).2
    ⟨prefixLength a b, prefixLength a b, ?_, leads_restOpcodes hrun.inFirst hrun.inSecond⟩
  split
  · exact leads_singleton _ hrun.fits
  · exact ⟨by omega, by omega⟩

def prefixMatcher (α : Type) [DecidableEq α] : SequenceMatcher α where
  opcodes := prefixOpcodes
  valid := valid_prefixOpcodes

theorem line_diff_replays_one_change :
    replay (lineDiff (prefixMatcher Line) (prefixMatcher Char) (some ['a', '\n', 'x'])
        (some ['a', '\n', 'y'])) [['a'], ['x']] = some [['a'], ['y']] :=
  (line_diff_replays (prefixMatcher Line) (prefixMatcher Char) (some ['a', '\n', 'x'])
    (some ['a', '\n', 'y']) (by decide)).1

end DiffReplay

end MailVerdict.Analysis
