import MailVerdict.Model.CardPhotos

/-!
# The lines of a contact card

What the card without its photo unfolds to. The unfolding and the removal of the photo are both
read off the blocks of a card: a physical line and the continuations below it.
-/

namespace MailVerdict.Analysis.CardLines

open MailVerdict.Computation Computation.TextPatterns Model.Identifiers
  Model.CardPhotos

/-! ## Blocks -/

def blocks (data : Text) : List (Block Text) :=
  match physicalLines data with
  | [] => []
  | first :: rest => blocksFrom isContinuation first [] rest

def unfolded (block : Block Text) : Text :=
  block.first ++ (block.further.map List.tail).flatten

theorem flush_append (lines pending : List Text) (last : Text) :
    flush (lines ++ [last]) pending = lines ++ [last ++ pending.flatten] := by
  unfold flush
  cases pending with
  | nil => simp
  | cons t pending => simp

theorem fold_unfoldStep (rest lines further : List Text) (first : Text) :
    let state := rest.foldl unfoldStep (lines ++ [first], further.map List.tail)
    flush state.1 state.2 =
      lines ++ (blocksFrom isContinuation first further rest).map unfolded := by
  induction rest generalizing lines first further with
  | nil => exact flush_append lines _ first
  | cons raw rest ih =>
    rw [List.foldl_cons, blocksFrom]
    by_cases hraw : isContinuation raw = true
    · have hstep : unfoldStep (lines ++ [first], further.map List.tail) raw =
          (lines ++ [first], (further ++ [raw]).map List.tail) := by
        simp [unfoldStep, hraw]
      rw [hstep, if_pos hraw]
      exact ih lines (further ++ [raw]) first
    · have hstep : unfoldStep (lines ++ [first], further.map List.tail) raw =
          ((lines ++ [unfolded ⟨first, further⟩]) ++ [raw], [].map List.tail) := by
        simp [unfoldStep, hraw, flush_append, unfolded]
      rw [hstep, if_neg hraw, List.map_cons]
      exact (ih (lines ++ [unfolded ⟨first, further⟩]) [] raw).trans
        (by rw [List.append_assoc, List.singleton_append])

theorem unfoldLines_eq (data : Text) : unfoldLines data = (blocks data).map unfolded := by
  obtain ⟨first, rest, heq⟩ := List.exists_cons_of_ne_nil (physicalLines_ne_nil data)
  rw [unfoldLines, blocks, heq, List.foldl_cons]
  have hfirst : unfoldStep ([], []) first = ([] ++ [first], [].map List.tail) := by
    simp [unfoldStep, flush]
  rw [hfirst]
  exact fold_unfoldStep rest [] [] first

section
variable (upper : Text → Text)

def dropped (block : Block Text) : Bool := !isContinuation block.first && isPhoto upper block.first

theorem fold_dropStep (rest further pre : List Text) (first : Text) :
    (rest.foldl (dropStep upper)
      (pre ++ (if dropped upper ⟨first, further⟩ then [] else first :: further),
        dropped upper ⟨first, further⟩)).1 =
      pre ++ ((blocksFrom isContinuation first further rest).filter
        fun block => !dropped upper block).flatMap Block.lines := by
  induction rest generalizing first further pre with
  | nil =>
    by_cases hdrop : dropped upper ⟨first, further⟩ = true
    · simp [blocksFrom, hdrop]
    · simp [blocksFrom, hdrop, Block.lines]
  | cons raw rest ih =>
    rw [List.foldl_cons, blocksFrom]
    by_cases hraw : isContinuation raw = true
    · rw [if_pos hraw]
      have hstep : dropStep upper
          (pre ++ (if dropped upper ⟨first, further⟩ then [] else first :: further),
            dropped upper ⟨first, further⟩) raw =
          (pre ++ (if dropped upper ⟨first, further ++ [raw]⟩ then []
            else first :: (further ++ [raw])), dropped upper ⟨first, further ++ [raw]⟩) := by
        have hsame : dropped upper ⟨first, further ++ [raw]⟩ =
            dropped upper ⟨first, further⟩ := rfl
        rw [dropStep, if_pos hraw, hsame]
        by_cases hdrop : dropped upper ⟨first, further⟩ = true
        · simp [hdrop]
        · simp [hdrop]
      rw [hstep]
      exact ih (further ++ [raw]) pre first
    · rw [if_neg hraw]
      have hstep : dropStep upper
          (pre ++ (if dropped upper ⟨first, further⟩ then [] else first :: further),
            dropped upper ⟨first, further⟩) raw =
          ((pre ++ (if dropped upper ⟨first, further⟩ then [] else first :: further)) ++
            (if dropped upper ⟨raw, []⟩ then [] else raw :: []), dropped upper ⟨raw, []⟩) := by
        have hphoto : dropped upper ⟨raw, []⟩ = isPhoto upper raw := by
          simp [dropped, hraw]
        rw [dropStep, if_neg hraw, hphoto]
        by_cases hdrop : isPhoto upper raw = true
        · simp [hdrop]
        · simp [hdrop]
      rw [hstep, ih [] _ raw]
      by_cases hdrop : dropped upper ⟨first, further⟩ = true
      · simp [hdrop]
      · simp [hdrop, Block.lines]

def kept (data : Text) : List (Block Text) :=
  (blocks data).filter fun block => !dropped upper block

theorem withoutPhoto_eq (data : Text) :
    withoutPhoto upper data = ['\r', '\n'].intercalate ((kept upper data).flatMap Block.lines) := by
  obtain ⟨first, rest, heq⟩ := List.exists_cons_of_ne_nil (physicalLines_ne_nil data)
  rw [withoutPhoto, kept, blocks, heq, List.foldl_cons]
  have hfirst : dropStep upper ([], false) first =
      ([] ++ (if dropped upper ⟨first, []⟩ then [] else first :: []),
        dropped upper ⟨first, []⟩) := by
    by_cases hcont : isContinuation first = true
    · simp [dropStep, dropped, hcont]
    · by_cases hdrop : isPhoto upper first = true
      · simp [dropStep, dropped, hcont, hdrop]
      · simp [dropStep, dropped, hcont, hdrop]
  rw [hfirst]
  exact congrArg _ (fold_dropStep upper rest [] [] first)

theorem not_mem_of_kept {data line : Text} {block : Block Text} (hblock : block ∈ kept upper data)
    (hline : line ∈ block.lines) : '\n' ∉ line := by
  obtain ⟨first, rest, heq⟩ := List.exists_cons_of_ne_nil (physicalLines_ne_nil data)
  refine not_mem_of_mem_physicalLines (?_ : line ∈ physicalLines data)
  have hmem : line ∈ (blocks data).flatMap Block.lines :=
    List.mem_flatMap.2 ⟨block, (List.mem_filter.1 hblock).1, hline⟩
  simpa only [blocks, heq, blocksFrom_lines, List.nil_append] using hmem

theorem blocks_withoutPhoto {data : Text} (hne : kept upper data ≠ []) :
    blocks (withoutPhoto upper data) = kept upper data := by
  obtain ⟨block, others, hkept⟩ := List.exists_cons_of_ne_nil hne
  have hlines : physicalLines (withoutPhoto upper data) =
      block.first :: (block.further ++ others.flatMap Block.lines) := by
    rw [withoutPhoto_eq, physicalLines_intercalate, hkept]
    · rfl
    · intro line hline
      obtain ⟨b, hb, hmem⟩ := List.mem_flatMap.1 hline
      exact not_mem_of_kept upper hb hmem
    · rw [hkept]
      exact List.cons_ne_nil _ _
  have hregular : (∀ line ∈ block.further, isContinuation line = true) ∧
      ∀ b ∈ others, b.Regular isContinuation := by
    obtain ⟨first, rest, heq⟩ := List.exists_cons_of_ne_nil (physicalLines_ne_nil data)
    obtain ⟨more, bs, hblocks, hmore, hbs⟩ := blocksFrom_regular isContinuation first []
      rest (by simp)
    rw [kept, blocks, heq] at hkept
    simp only [hblocks, List.filter_cons] at hkept
    by_cases hfirst : (!dropped upper ⟨first, more⟩) = true
    · rw [if_pos hfirst] at hkept
      obtain ⟨rfl, rfl⟩ := List.cons.inj hkept
      exact ⟨hmore, fun b hb => hbs b (List.mem_filter.1 hb).1⟩
    · rw [if_neg hfirst] at hkept
      have hmem : ∀ b ∈ block :: others, b ∈ bs :=
        fun b hb => (List.mem_filter.1 (hkept ▸ hb)).1
      exact ⟨(hbs block (hmem block List.mem_cons_self)).2,
        fun b hb => hbs b (hmem b (List.mem_cons_of_mem _ hb))⟩
  rw [blocks, hlines, hkept]
  exact (blocksFrom_further hregular.1).trans (blocksFrom_flatMap hregular.2)

/-! ## PHOTO lines -/

theorem splitContentLine_colon {head : Text} (value : Text) (h : ':' ∉ head) :
    splitContentLine upper (head ++ ':' :: value) = some {
      name := upper
        (((head.splitOn ';').headD []).reverse.takeWhile fun c => decide (c ≠ '.')).reverse
      params := ((head.splitOn ';').tail.map (splitParam upper)).reverse
      value := value } := by
  have hpos : ∀ c ∈ head, decide (c ≠ ':') = true :=
    fun c hc => decide_eq_true fun heq => h (heq ▸ hc)
  have htake : (head ++ ':' :: value).takeWhile (fun c => decide (c ≠ ':')) = head := by
    rw [List.takeWhile_append_of_pos hpos, List.takeWhile_cons_of_neg (by simp), List.append_nil]
  have hdrop : (head ++ ':' :: value).dropWhile (fun c => decide (c ≠ ':')) = ':' :: value := by
    rw [List.dropWhile_append_of_pos hpos, List.dropWhile_cons_of_neg (by simp)]
  rw [splitContentLine, hdrop, htake]

theorem isPhoto_append {start : Text} (more : Text) (h : ':' ∈ start) :
    isPhoto upper (start ++ more) = isPhoto upper start := by
  obtain ⟨head, value, rfl, hhead⟩ := List.eq_append_cons_of_mem h
  rw [isPhoto, isPhoto, List.append_assoc, List.cons_append, splitContentLine_colon upper _ hhead,
    splitContentLine_colon upper _ hhead]

theorem colon_of_isPhoto {line : Text} (h : isPhoto upper line = true) : ':' ∈ line := by
  by_contra hnot
  have hdrop : line.dropWhile (fun c => decide (c ≠ ':')) = [] :=
    List.dropWhile_eq_nil_iff.2 fun c hc => decide_eq_true fun heq => hnot (heq ▸ hc)
  rw [isPhoto, splitContentLine, hdrop] at h
  exact Bool.false_ne_true h

/-- Every PHOTO line of the card has its colon on its first physical line, and does not open the
card with a blank. -/
def ColonsShown (data : Text) : Prop :=
  ∀ block ∈ blocks data, isPhoto upper (unfolded block) = true →
    ':' ∈ block.first ∧ isContinuation block.first = false

/-- **The card without its photo** unfolds to the card's lines but the PHOTO lines. -/
theorem unfoldLines_withoutPhoto {data : Text} (hshown : ColonsShown upper data)
    (hother : ∃ line ∈ unfoldLines data, isPhoto upper line = false) :
    unfoldLines (withoutPhoto upper data) =
      (unfoldLines data).filter fun line => !isPhoto upper line := by
  have hdropped : ∀ block ∈ blocks data,
      dropped upper block = isPhoto upper (unfolded block) := by
    intro block hblock
    by_cases hphoto : isPhoto upper (unfolded block) = true
    · obtain ⟨hcolon, hcont⟩ := hshown block hblock hphoto
      rw [unfolded, isPhoto_append upper _ hcolon] at hphoto
      rw [dropped, unfolded, isPhoto_append upper _ hcolon, hphoto, hcont]
      rfl
    · rw [Bool.eq_false_iff.2 hphoto]
      by_contra hdrop
      obtain ⟨-, hfirst⟩ := Bool.and_eq_true_iff.1 (Bool.not_eq_false _ ▸ hdrop)
      refine hphoto ?_
      rw [unfolded, isPhoto_append upper _ (colon_of_isPhoto upper hfirst)]
      exact hfirst
  have hkept : kept upper data =
      (blocks data).filter fun block => !isPhoto upper (unfolded block) :=
    List.filter_congr fun block hblock => by rw [hdropped block hblock]
  have hne : kept upper data ≠ [] := by
    obtain ⟨line, hline, hnot⟩ := hother
    rw [unfoldLines_eq] at hline
    obtain ⟨block, hblock, rfl⟩ := List.mem_map.1 hline
    refine List.ne_nil_of_mem (a := block) ?_
    rw [hkept]
    exact List.mem_filter.2 ⟨hblock, by rw [hnot]; rfl⟩
  calc unfoldLines (withoutPhoto upper data)
      = (kept upper data).map unfolded := by rw [unfoldLines_eq, blocks_withoutPhoto upper hne]
    _ = ((blocks data).map unfolded).filter fun line => !isPhoto upper line := by
        rw [hkept, List.filter_map]
        rfl
    _ = (unfoldLines data).filter fun line => !isPhoto upper line := by rw [unfoldLines_eq]

end

end MailVerdict.Analysis.CardLines
