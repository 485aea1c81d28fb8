import Mathlib.Data.List.Basic

/-!
# Folded lines

A line that is a further one continues the line before it. The lines of a text are taken apart
into blocks, a first line with the further lines below it; the lines of blocks give the blocks
back. Then the physical lines of a text, whose ends may be written in two ways, and what joins
them again.
-/

namespace MailVerdict.Computation

/-- A first line and the further lines that continue it. -/
structure Block (β : Type) where
  first : β
  further : List β

namespace Block

variable {β : Type}

def lines (block : Block β) : List β := block.first :: block.further

/-- The block is no continuation, and what is below its first line is. -/
def Regular (isFurther : β → Bool) (block : Block β) : Prop :=
  isFurther block.first = false ∧ ∀ line ∈ block.further, isFurther line = true

end Block

section
variable {β : Type} (isFurther : β → Bool)

/-- The blocks of the lines that come below a first line and the further ones read after it. -/
def blocksFrom (first : β) (further : List β) : List β → List (Block β)
  | [] => [⟨first, further⟩]
  | line :: lines =>
    if isFurther line then blocksFrom first (further ++ [line]) lines
    else ⟨first, further⟩ :: blocksFrom line [] lines

variable {isFurther}

theorem blocksFrom_lines (first : β) (further lines : List β) :
    (blocksFrom isFurther first further lines).flatMap Block.lines =
      first :: (further ++ lines) := by
  induction lines generalizing first further with
  | nil => simp [blocksFrom, Block.lines]
  | cons line lines ih =>
    rw [blocksFrom]
    by_cases hline : isFurther line = true
    · rw [if_pos hline, ih, List.append_assoc, List.singleton_append]
    · rw [if_neg hline, List.flatMap_cons, ih]
      rfl

theorem blocksFrom_further {first : β} {further more lines : List β}
    (hmore : ∀ line ∈ more, isFurther line = true) :
    blocksFrom isFurther first further (more ++ lines) =
      blocksFrom isFurther first (further ++ more) lines := by
  induction more generalizing further with
  | nil => rw [List.nil_append, List.append_nil]
  | cons line more ih =>
    rw [List.cons_append, blocksFrom, if_pos (hmore line List.mem_cons_self),
      ih fun l hl => hmore l (List.mem_cons_of_mem _ hl), List.append_assoc,
      List.singleton_append]

theorem blocksFrom_flatMap {first : β} {further : List β} {blocks : List (Block β)}
    (hblocks : ∀ block ∈ blocks, block.Regular isFurther) :
    blocksFrom isFurther first further (blocks.flatMap Block.lines) =
      ⟨first, further⟩ :: blocks := by
  induction blocks generalizing first further with
  | nil => rfl
  | cons block blocks ih =>
    obtain ⟨hfirst, hfurther⟩ := hblocks block List.mem_cons_self
    rw [List.flatMap_cons, Block.lines, List.cons_append, blocksFrom,
      if_neg (by rw [hfirst]; exact Bool.false_ne_true), blocksFrom_further hfurther,
      List.nil_append, ih fun b hb => hblocks b (List.mem_cons_of_mem _ hb)]

variable (isFurther) in
theorem blocksFrom_regular (first : β) (further : List β) (lines : List β)
    (hfurther : ∀ line ∈ further, isFurther line = true) :
    ∃ more blocks, blocksFrom isFurther first further lines = ⟨first, more⟩ :: blocks ∧
      (∀ line ∈ more, isFurther line = true) ∧ ∀ block ∈ blocks, block.Regular isFurther := by
  induction lines generalizing first further with
  | nil => exact ⟨further, [], rfl, hfurther, by simp⟩
  | cons line lines ih =>
    rw [blocksFrom]
    by_cases hline : isFurther line = true
    · rw [if_pos hline]
      refine ih first (further ++ [line]) fun l hl => ?_
      rcases List.mem_append.1 hl with hl | hl
      · exact hfurther l hl
      · rw [List.mem_singleton.1 hl]
        exact hline
    · obtain ⟨more, blocks, heq, hmore, hblocks⟩ :=
        ih line [] (by simp)
      rw [if_neg hline, heq]
      refine ⟨further, _, rfl, hfurther, ?_⟩
      rintro block (_ | ⟨_, hmem⟩)
      · exact ⟨Bool.eq_false_iff.2 hline, hmore⟩
      · exact hblocks block hmem

end

/-! ## Physical lines -/

/-- `text.replace("\r\n", "\n")`. -/
def lineFeeds : List Char → List Char
  | [] => []
  | [c] => [c]
  | c :: d :: rest =>
    if c = '\r' ∧ d = '\n' then '\n' :: lineFeeds rest else c :: lineFeeds (d :: rest)

/-- `text.replace("\r\n", "\n").split("\n")`. -/
def physicalLines (text : List Char) : List (List Char) := (lineFeeds text).splitOn '\n'

theorem lineFeeds_cons {c : Char} {rest : List Char} (h : rest.head? ≠ some '\n') :
    lineFeeds (c :: rest) = c :: lineFeeds rest := by
  cases rest with
  | nil => rfl
  | cons d rest =>
    have hd : d ≠ '\n' := fun heq => h (by rw [heq]; rfl)
    rw [lineFeeds, if_neg fun hand => hd hand.2]

theorem lineFeeds_of_not_mem {line : List Char} (h : '\n' ∉ line) : lineFeeds line = line := by
  induction line with
  | nil => rfl
  | cons c line ih =>
    obtain ⟨hc, hline⟩ := not_or.1 (fun hor => h (List.mem_cons.2 hor))
    rw [lineFeeds_cons fun heq => hline (List.mem_of_mem_head? heq), ih hline]

theorem lineFeeds_line {line rest : List Char} (h : '\n' ∉ line) :
    lineFeeds (line ++ '\r' :: '\n' :: rest) = line ++ '\n' :: lineFeeds rest := by
  induction line with
  | nil => rw [List.nil_append, lineFeeds, if_pos ⟨rfl, rfl⟩, List.nil_append]
  | cons c line ih =>
    obtain ⟨hc, hline⟩ := not_or.1 (fun hor => h (List.mem_cons.2 hor))
    have hhead : (line ++ '\r' :: '\n' :: rest).head? ≠ some '\n' := by
      cases line with
      | nil => simp
      | cons d line =>
        intro heq
        exact hline (Option.some.inj heq ▸ List.mem_cons_self)
    rw [List.cons_append, lineFeeds_cons hhead, ih hline, List.cons_append]

theorem lineFeeds_intercalate {lines : List (List Char)} (h : ∀ line ∈ lines, '\n' ∉ line) :
    lineFeeds (['\r', '\n'].intercalate lines) = ['\n'].intercalate lines := by
  induction lines with
  | nil => rfl
  | cons line lines ih =>
    have hline := h line List.mem_cons_self
    cases lines with
    | nil => simpa using lineFeeds_of_not_mem hline
    | cons next lines =>
      have hrest := ih fun l hl => h l (List.mem_cons_of_mem _ hl)
      rw [List.intercalate_cons_of_ne_nil (List.cons_ne_nil _ _),
        List.intercalate_cons_of_ne_nil (List.cons_ne_nil _ _), List.append_assoc,
        List.append_assoc, List.cons_append, List.cons_append, List.nil_append,
        lineFeeds_line hline, hrest, List.singleton_append]

theorem physicalLines_intercalate {lines : List (List Char)} (h : ∀ line ∈ lines, '\n' ∉ line)
    (hne : lines ≠ []) : physicalLines (['\r', '\n'].intercalate lines) = lines := by
  rw [physicalLines, lineFeeds_intercalate h, List.splitOn_intercalate '\n' h hne]

theorem not_mem_of_mem_splitOn {text line : List Char} (h : line ∈ text.splitOn '\n') :
    '\n' ∉ line := by
  induction text generalizing line with
  | nil =>
    rw [List.splitOn_nil, List.mem_singleton] at h
    rw [h]
    exact List.not_mem_nil
  | cons c text ih =>
    rw [List.splitOn_cons_eq_if_modifyHead] at h
    by_cases hc : c = '\n'
    · rw [if_pos (beq_iff_eq.2 hc)] at h
      rcases List.mem_cons.1 h with rfl | hmem
      · exact List.not_mem_nil
      · exact ih hmem
    · rw [if_neg fun heq => hc (beq_iff_eq.1 heq)] at h
      obtain ⟨head, tail, heq⟩ := List.exists_cons_of_ne_nil (List.splitOn_ne_nil '\n' text)
      rw [heq, List.modifyHead_cons] at h
      rcases List.mem_cons.1 h with rfl | hmem
      · rintro (_ | ⟨_, hmem⟩)
        · exact hc rfl
        · exact ih (heq ▸ List.mem_cons_self) hmem
      · exact ih (heq ▸ List.mem_cons_of_mem _ hmem)

theorem physicalLines_ne_nil (text : List Char) : physicalLines text ≠ [] :=
  List.splitOn_ne_nil _ _

theorem not_mem_of_mem_physicalLines {text line : List Char} (h : line ∈ physicalLines text) :
    '\n' ∉ line :=
  not_mem_of_mem_splitOn h

end MailVerdict.Computation
