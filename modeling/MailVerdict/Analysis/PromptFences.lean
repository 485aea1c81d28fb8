import MailVerdict.Model.OrderPrompts

/-!
# Prompt fences

Every angle bracket and every line break of a prompt is one the builder wrote, and every value
that was put in through `_json_field` is read back from the prompt. A value put in that way has no
bracket and no break, whatever it is; a value put in as it is has what it has. So the fences hold
exactly where the values put in as they are have no bracket and no break: those of a candidate are
an order's merchant, subject, status, numbers and reasons.
-/

namespace MailVerdict.Analysis

open Computation.JsonLiteral
open Model.Identifiers (Text strip)
open Model.OrderPrompts
open Model.WriteAssembly (PromptDocument PromptMail)

namespace PromptFences

def isAngle (c : Char) : Bool := c == '<' || c == '>'

def isBreak (c : Char) : Bool := c == '\n' || c == '\r'

def Clean (text : Text) : Prop := ∀ c ∈ text, isAngle c = false ∧ isBreak c = false

/-! ## Values through `_json_field` -/

theorem replaceChar_append (c : Char) (new text text' : Text) :
    replaceChar c new (text ++ text') = replaceChar c new text ++ replaceChar c new text' :=
  List.flatMap_append

theorem replaceChar_eq_self {c : Char} {new text : Text} (h : c ∉ text) :
    replaceChar c new text = text := by
  unfold replaceChar
  induction text with
  | nil => rfl
  | cons d text ih =>
    rw [List.mem_cons, not_or] at h
    rw [List.flatMap_cons, if_neg (Ne.symm h.1), ih h.2]
    rfl

theorem escapeDelimiterBreakout_append (text text' : Text) :
    escapeDelimiterBreakout (text ++ text') =
      escapeDelimiterBreakout text ++ escapeDelimiterBreakout text' := by
  unfold escapeDelimiterBreakout
  rw [replaceChar_append, replaceChar_append]

def fieldChar (c : Char) : Text := escapeDelimiterBreakout (escapeChar c)

theorem jsonField_eq (value : Text) :
    jsonField value = '\x22' :: (value.flatMap fieldChar ++ ['\x22']) := by
  have hbody : escapeDelimiterBreakout (value.flatMap escapeChar) = value.flatMap fieldChar := by
    induction value with
    | nil => rfl
    | cons c value ih =>
      rw [List.flatMap_cons, escapeDelimiterBreakout_append, ih]
      rfl
  have hquote : escapeDelimiterBreakout ['\x22'] = ['\x22'] := by decide
  unfold jsonField dumps
  rw [List.cons_append, ← List.singleton_append, escapeDelimiterBreakout_append,
    escapeDelimiterBreakout_append, hquote, hbody]
  rfl

theorem clean_digitChar : ∀ n < 16, Clean [Nat.digitChar n] := by
  have hall : ∀ n < 16, isAngle (Nat.digitChar n) = false ∧ isBreak (Nat.digitChar n) = false := by
    decide
  intro n hn c hc
  rw [List.mem_singleton.1 hc]
  exact hall n hn

theorem clean_of_all {code : Text} (h : (code.all fun c => !isAngle c && !isBreak c) = true) :
    Clean code := by
  intro c hc
  have hone := List.all_eq_true.1 h c hc
  simpa using hone

theorem escapeChar_cases (c : Char) :
    (isAngle c = true ∧ escapeChar c = [c]) ∨ Clean (escapeChar c) := by
  unfold escapeChar
  iterate 7
    split
    · exact .inr (clean_of_all (by decide))
  split
  · rename_i hcontrol
    right
    intro d hd
    have hhigh := clean_digitChar (c.toNat / 16) (by omega)
    have hlow := clean_digitChar (c.toNat % 16) (by omega)
    have hprefix : Clean ['\\', 'u', '0', '0'] := clean_of_all (by decide)
    simp only [List.mem_cons, List.not_mem_nil, or_false] at hd
    rcases hd with rfl | rfl | rfl | rfl | rfl | rfl
    · exact hprefix _ (by simp)
    · exact hprefix _ (by simp)
    · exact hprefix _ (by simp)
    · exact hprefix _ (by simp)
    · exact hhigh _ (List.mem_singleton_self _)
    · exact hlow _ (List.mem_singleton_self _)
  · rename_i _ _ hfeed hreturn _ _ _ _
    by_cases hangle : isAngle c = true
    · exact .inl ⟨hangle, rfl⟩
    · right
      intro d hd
      rw [List.mem_singleton.1 hd]
      exact ⟨Bool.eq_false_iff.2 hangle, by simp [isBreak, hfeed, hreturn]⟩

theorem angle_not_mem {text : Text} (h : Clean text) : '<' ∉ text ∧ '>' ∉ text :=
  ⟨fun hm => absurd (h _ hm).1 (by decide), fun hm => absurd (h _ hm).1 (by decide)⟩

theorem escapeDelimiterBreakout_clean {text : Text} (h : Clean text) :
    escapeDelimiterBreakout text = text := by
  unfold escapeDelimiterBreakout
  rw [replaceChar_eq_self (angle_not_mem h).1, replaceChar_eq_self (angle_not_mem h).2]

theorem angle_cases {c : Char} (h : isAngle c = true) : c = '<' ∨ c = '>' := by
  simpa [isAngle] using h

/-- **A character of a value** has no bracket and no break, and is read back. -/
theorem fieldChar_spec (c : Char) : Clean (fieldChar c) ∧ ReadsAs (fieldChar c) c := by
  unfold fieldChar
  rcases escapeChar_cases c with ⟨hangle, hself⟩ | hclean
  · rw [hself]
    rcases angle_cases hangle with rfl | rfl
    · exact ⟨clean_of_all (by decide), readsAs_escape fun rest => rfl⟩
    · exact ⟨clean_of_all (by decide), readsAs_escape fun rest => rfl⟩
  · rw [escapeDelimiterBreakout_clean hclean]
    exact ⟨hclean, readsAs_escapeChar c⟩

theorem clean_append {text text' : Text} : Clean (text ++ text') ↔ Clean text ∧ Clean text' :=
  List.forall_mem_append

theorem clean_cons {c : Char} {text : Text} :
    Clean (c :: text) ↔ (isAngle c = false ∧ isBreak c = false) ∧ Clean text :=
  List.forall_mem_cons

theorem clean_jsonField (value : Text) : Clean (jsonField value) := by
  rw [jsonField_eq, clean_cons, clean_append]
  refine ⟨by decide, fun d hd => ?_, ?_⟩
  · obtain ⟨c, -, hc⟩ := List.mem_flatMap.1 hd
    exact (fieldChar_spec c).1 d hc
  · rw [clean_cons]
    exact ⟨by decide, fun _ h => absurd h List.not_mem_nil⟩

/-- **A value is read back** from where it stands. -/
theorem readLiteral_jsonField (value rest : Text) :
    readLiteral (jsonField value ++ rest) = some (value.map Char.toNat, rest) := by
  rw [jsonField_eq, List.cons_append, List.append_assoc]
  exact readLiteral_encoded (fun c => (fieldChar_spec c).2) value rest

/-! ## Pieces -/

def skeleton (pieces : List Piece) : Text :=
  pieces.flatMap fun piece =>
    match piece with
    | .own text => text.toList
    | _ => []

/-- **The fences of a prompt**: brackets and breaks are the builder's, and every value through
`_json_field` is read back from where it stands. -/
structure Fenced (pieces : List Piece) (prompt : Text) : Prop where
  text : prompt = render pieces
  angles : prompt.filter isAngle = (skeleton pieces).filter isAngle
  breaks : prompt.filter isBreak = (skeleton pieces).filter isBreak
  fields : ∀ before value after, pieces = before ++ .json value :: after →
    prompt = render before ++ jsonField value ++ render after ∧
      readLiteral (jsonField value ++ render after) = some (value.map Char.toNat, render after)

/-- The values put in as they are have no bracket and no break. -/
def RawClean (pieces : List Piece) : Prop := ∀ text, .raw text ∈ pieces → Clean text

def Piece.ownText : Piece → Text
  | .own text => text.toList
  | _ => []

theorem render_cons (piece : Piece) (pieces : List Piece) :
    render (piece :: pieces) = piece.text ++ render pieces := List.flatMap_cons

theorem skeleton_cons (piece : Piece) (pieces : List Piece) :
    skeleton (piece :: pieces) = Piece.ownText piece ++ skeleton pieces := by
  unfold skeleton
  rw [List.flatMap_cons]
  cases piece <;> rfl

theorem length_filter_skeleton_le (p : Char → Bool) (pieces : List Piece) :
    ((skeleton pieces).filter p).length ≤ ((render pieces).filter p).length := by
  induction pieces with
  | nil => exact Nat.le_refl _
  | cons piece pieces ih =>
    rw [render_cons, skeleton_cons, List.filter_append, List.filter_append, List.length_append,
      List.length_append]
    refine Nat.add_le_add ?_ ih
    cases piece with
    | own text => exact Nat.le_refl _
    | raw text => exact Nat.zero_le _
    | json value => exact Nat.zero_le _

/-- A mark of the prompt that no raw text holds is in the skeleton alone. -/
theorem filter_render_iff {p : Char → Bool}
    (hjson : ∀ value, (jsonField value).filter p = []) (pieces : List Piece) :
    (render pieces).filter p = (skeleton pieces).filter p ↔
      ∀ text, .raw text ∈ pieces → text.filter p = [] := by
  induction pieces with
  | nil => exact iff_of_true rfl fun text h => absurd h List.not_mem_nil
  | cons piece pieces ih =>
    have hle := length_filter_skeleton_le p pieces
    rw [render_cons, skeleton_cons, List.filter_append, List.filter_append]
    cases piece with
    | own text =>
      simp only [Piece.text, Piece.ownText, List.append_cancel_left_eq, ih, List.mem_cons,
        reduceCtorEq, false_or]
    | json value =>
      simp only [Piece.text, Piece.ownText, hjson, List.nil_append, List.filter_nil, ih,
        List.mem_cons, reduceCtorEq, false_or]
    | raw text =>
      simp only [Piece.text, Piece.ownText, List.filter_nil, List.nil_append]
      constructor
      · intro h
        -- The skeleton has no more of them than the rest, so the value has none.
        have hnil : text.filter p = [] := by
          have hlen := congrArg List.length h
          rw [List.length_append] at hlen
          exact List.eq_nil_of_length_eq_zero (by omega)
        rw [hnil, List.nil_append] at h
        intro t ht
        rcases List.mem_cons.1 ht with heq | ht
        · rw [Piece.raw.inj heq, hnil]
        · exact ih.1 h t ht
      · intro h
        rw [h text List.mem_cons_self, List.nil_append]
        exact ih.2 fun t ht => h t (List.mem_cons_of_mem _ ht)

theorem filter_eq_nil_of_clean {text : Text} (h : Clean text) :
    text.filter isAngle = [] ∧ text.filter isBreak = [] := by
  refine ⟨List.filter_eq_nil_iff.2 fun c hc => ?_, List.filter_eq_nil_iff.2 fun c hc => ?_⟩
  · rw [(h c hc).1]
    exact Bool.false_ne_true
  · rw [(h c hc).2]
    exact Bool.false_ne_true

/-- **The fences hold** exactly where the values put in as they are have no bracket and no break. -/
theorem fenced_iff {pieces : List Piece} {prompt : Text} (hprompt : prompt = render pieces) :
    Fenced pieces prompt ↔ RawClean pieces := by
  have hangles := filter_render_iff (p := isAngle)
    (fun value => (filter_eq_nil_of_clean (clean_jsonField value)).1) pieces
  have hbreaks := filter_render_iff (p := isBreak)
    (fun value => (filter_eq_nil_of_clean (clean_jsonField value)).2) pieces
  constructor
  · intro h text ht c hc
    have ha := hangles.1 (hprompt ▸ h.angles) text ht
    have hb := hbreaks.1 (hprompt ▸ h.breaks) text ht
    exact ⟨Bool.eq_false_iff.2 (List.filter_eq_nil_iff.1 ha c hc),
      Bool.eq_false_iff.2 (List.filter_eq_nil_iff.1 hb c hc)⟩
  · intro h
    refine ⟨hprompt, ?_, ?_, fun before value after heq => ⟨?_, readLiteral_jsonField value _⟩⟩
    · rw [hprompt]
      exact hangles.2 fun text ht => (filter_eq_nil_of_clean (h text ht)).1
    · rw [hprompt]
      exact hbreaks.2 fun text ht => (filter_eq_nil_of_clean (h text ht)).2
    · rw [hprompt, heq]
      simp [render, Piece.text]

/-! ## The values put in as they are -/

@[simp] theorem rawClean_nil : RawClean [] := fun _ h => absurd h List.not_mem_nil

@[simp] theorem rawClean_own {text : String} {pieces : List Piece} :
    RawClean (.own text :: pieces) ↔ RawClean pieces := by
  simp [RawClean]

@[simp] theorem rawClean_json {value : Text} {pieces : List Piece} :
    RawClean (.json value :: pieces) ↔ RawClean pieces := by
  simp [RawClean]

@[simp] theorem rawClean_raw {text : Text} {pieces : List Piece} :
    RawClean (.raw text :: pieces) ↔ Clean text ∧ RawClean pieces := by
  simp [RawClean]

@[simp] theorem rawClean_append {pieces pieces' : List Piece} :
    RawClean (pieces ++ pieces') ↔ RawClean pieces ∧ RawClean pieces' := by
  unfold RawClean
  simp only [List.mem_append]
  exact ⟨fun h => ⟨fun t ht => h t (.inl ht), fun t ht => h t (.inr ht)⟩,
    fun h t ht => ht.elim (h.1 t) (h.2 t)⟩

theorem rawClean_flatMap {α : Type} {f : α → List Piece} {l : List α} :
    RawClean (l.flatMap f) ↔ ∀ x ∈ l, RawClean (f x) := by
  induction l with
  | nil => simp
  | cons x l ih => rw [List.flatMap_cons, rawClean_append, ih, List.forall_mem_cons]

theorem rawClean_joined {sep : String} {parts : List (List Piece)} :
    RawClean (joined sep parts) ↔ ∀ part ∈ parts, RawClean part := by
  induction parts with
  | nil => simp [joined]
  | cons part parts ih =>
    rw [List.forall_mem_cons]
    cases parts with
    | nil => simp [joined]
    | cons part' parts =>
      change RawClean (part ++ .own sep :: joined sep (part' :: parts)) ↔ _
      rw [rawClean_append, rawClean_own, ih]

theorem clean_of_isDigit {text : Text} (h : ∀ c ∈ text, c.isDigit = true) : Clean text := by
  intro c hc
  have hd := h c hc
  constructor
  · refine Bool.eq_false_iff.2 fun ha => ?_
    rcases angle_cases ha with rfl | rfl
    · exact absurd hd (by decide)
    · exact absurd hd (by decide)
  · refine Bool.eq_false_iff.2 fun hb => ?_
    simp only [isBreak, Bool.or_eq_true, beq_iff_eq] at hb
    rcases hb with rfl | rfl
    · exact absurd hd (by decide)
    · exact absurd hd (by decide)

@[simp] theorem clean_toDigits (n : ℕ) : Clean (Nat.toDigits 10 n) :=
  clean_of_isDigit fun _ hc => Nat.isDigit_of_mem_toDigits (by decide) (by decide) hc

theorem clean_twoDigits (n : ℕ) : Clean (twoDigits n) := by
  unfold twoDigits
  rw [← List.singleton_append, clean_append]
  exact ⟨clean_digitChar _ (by omega), clean_digitChar _ (by omega)⟩

@[simp] theorem clean_strftime (t : Minute) : Clean (strftime t) := by
  unfold strftime
  simp only [clean_append, clean_cons, clean_toDigits, clean_twoDigits, true_and, and_true]
  have hnil : Clean [] := fun _ h => absurd h List.not_mem_nil
  simp [hnil, isAngle, isBreak]

/-! ## The prompts -/

def CleanDocument (d : PromptDocument) : Prop := Clean d.method ∧ Clean d.added

structure CleanCandidate (c : Candidate) : Prop where
  merchant : Clean c.merchant
  subject : Clean c.subject
  status : Clean c.status
  numbers : ∀ n ∈ c.numbers, Clean n.1 ∧ Clean n.2
  reasons : ∀ reason ∈ c.reasons, Clean reason

theorem rawClean_documentBlock {tag : String} {d : PromptDocument} :
    RawClean (documentBlock tag d) ↔ CleanDocument d := by
  have hadded : RawClean (if d.added = [] then [] else [.own " added=", .raw d.added]) ↔
      Clean d.added := by
    split
    · rename_i h
      rw [h]
      exact iff_of_true rawClean_nil fun _ hc => absurd hc List.not_mem_nil
    · simp
  have hpages : RawClean (pagesPieces d.pageCount) := by
    unfold pagesPieces
    split
    · split <;> simp
    · simp
  unfold documentBlock CleanDocument
  simp [hadded, hpages]

theorem rawClean_attachmentBlocks {documents : List PromptDocument} :
    RawClean (attachmentBlocks documents) ↔ ∀ d ∈ documents, CleanDocument d := by
  unfold attachmentBlocks
  rw [rawClean_flatMap]
  simp [rawClean_documentBlock]

theorem rawClean_mailDay (day : Option Minute) : RawClean (mailDay day) := by
  cases day <;> simp [mailDay]

theorem rawClean_formatCandidateBlock {handle : Text} (hhandle : Clean handle) {c : Candidate} :
    RawClean (formatCandidateBlock handle c) ↔ CleanCandidate c := by
  have hnumbers : RawClean (if c.numbers = [] then [.own "none"]
      else joined ", " (c.numbers.map fun n => [.raw n.1, .own " ", .raw n.2])) ↔
      ∀ n ∈ c.numbers, Clean n.1 ∧ Clean n.2 := by
    split
    · rename_i h
      simp [h]
    · rw [rawClean_joined, List.forall_mem_map]
      simp
  have hreasons : RawClean (joined "; " (c.reasons.map fun reason => [.raw reason])) ↔
      ∀ reason ∈ c.reasons, Clean reason := by
    rw [rawClean_joined, List.forall_mem_map]
    simp
  have hmails : ∀ part ∈ c.latestMails.map candidateMailLine, RawClean part := by
    intro part hpart
    obtain ⟨mail, -, rfl⟩ := List.mem_map.1 hpart
    simp [candidateMailLine]
  unfold formatCandidateBlock
  rw [rawClean_joined, List.forall_mem_append, and_iff_left hmails]
  simp only [List.forall_mem_cons, rawClean_own, rawClean_raw, rawClean_json, rawClean_append,
    rawClean_nil, rawClean_mailDay, hnumbers, hreasons, hhandle, clean_toDigits, true_and,
    and_true, List.not_mem_nil, false_implies, implies_true]
  exact ⟨fun h => ⟨h.1.1, h.1.2.1, h.1.2.2, h.2.1, h.2.2⟩,
    fun h => ⟨⟨h.merchant, h.subject, h.status⟩, h.numbers, h.reasons⟩⟩

theorem clean_handle (n : ℕ) : Clean ('C' :: Nat.toDigits 10 n) := by
  rw [clean_cons]
  exact ⟨by decide, clean_toDigits n⟩

theorem rawClean_candidateBlocks {candidates : List Candidate} :
    RawClean (candidateBlocks candidates) ↔ ∀ c ∈ candidates, CleanCandidate c := by
  unfold candidateBlocks
  split
  · rename_i h
    simp [h]
  · rw [rawClean_joined]
    constructor
    · intro h c hc
      obtain ⟨i, hi, heq⟩ := List.getElem_of_mem hc
      have hmem : (c, 1 + i) ∈ candidates.zipIdx 1 :=
        List.mk_add_mem_zipIdx_iff_getElem?.2 (by rw [List.getElem?_eq_getElem hi, heq])
      exact (rawClean_formatCandidateBlock (clean_handle _)).1
        (h _ (List.mem_map.2 ⟨_, hmem, rfl⟩))
    · intro h part hpart
      obtain ⟨⟨c, i⟩, hc, rfl⟩ := List.mem_map.1 hpart
      exact (rawClean_formatCandidateBlock (clean_handle i)).2 (h c (List.fst_mem_of_mem_zipIdx hc))

/-! ## The ends of a prompt -/

structure Bracketed (text : Text) : Prop where
  first : ∃ rest, text = '<' :: rest
  last : ∃ init, text = init ++ ['>']

theorem render_append (pieces pieces' : List Piece) :
    render (pieces ++ pieces') = render pieces ++ render pieces' := List.flatMap_append

theorem strip_feed {text : Text} (h : text = [] ∨ Bracketed text) :
    strip (text ++ ['
']) = text := by
  have hfeed : Computation.TextPatterns.isSpace '
' = true := by decide
  have hopen : ¬ Computation.TextPatterns.isSpace '<' = true := by decide
  have hclose : ¬ Computation.TextPatterns.isSpace '>' = true := by decide
  rcases h with rfl | ⟨⟨rest, hfirst⟩, ⟨init, hlast⟩⟩
  · rfl
  · have hleft : (text ++ ['
']).dropWhile Computation.TextPatterns.isSpace = text ++ ['
'] := by
      rw [hfirst, List.cons_append, List.dropWhile_cons_of_neg hopen]
    unfold strip
    rw [hleft, List.reverse_append, List.reverse_singleton, List.singleton_append,
      List.dropWhile_cons_of_pos hfeed, hlast, List.reverse_append, List.reverse_singleton,
      List.singleton_append, List.dropWhile_cons_of_neg hclose, List.reverse_cons,
      List.reverse_reverse]

theorem renderPrompt_eq {pieces : List Piece} (h : render pieces = [] ∨ Bracketed (render pieces)) :
    renderPrompt pieces = render pieces := by
  unfold renderPrompt
  rw [render_append]
  exact strip_feed h

theorem bracketed_joined {sep : String} {parts : List (List Piece)} (hne : parts ≠ [])
    (h : ∀ part ∈ parts, Bracketed (render part)) : Bracketed (render (joined sep parts)) := by
  induction parts with
  | nil => exact absurd rfl hne
  | cons part parts ih =>
    obtain ⟨hpart, hparts⟩ := List.forall_mem_cons.1 h
    cases parts with
    | nil => exact hpart
    | cons part' parts =>
      obtain ⟨rest, hrest⟩ := hpart.first
      obtain ⟨init, hinit⟩ := (ih (by simp) hparts).last
      change Bracketed (render (part ++ .own sep :: joined sep (part' :: parts)))
      rw [render_append, render_cons]
      refine ⟨⟨rest ++ (sep.toList ++ render (joined sep (part' :: parts))), ?_⟩,
        ⟨render part ++ (sep.toList ++ init), ?_⟩⟩
      · rw [hrest]
        rfl
      · rw [hinit, List.append_assoc, List.append_assoc]
        rfl

theorem bracketed_of_ends {pieces : List Piece} {s t : String}
    (hfirst : pieces.head? = some (.own s)) (hlast : ∃ front, pieces = front ++ [.own t])
    (hs : ∃ rest, s.toList = '<' :: rest) (ht : ∃ init, t.toList = init ++ ['>']) :
    Bracketed (render pieces) := by
  constructor
  · obtain ⟨rest, hrest⟩ := hs
    obtain ⟨tail, htail⟩ := List.head?_eq_some_iff.1 hfirst
    rw [htail, render_cons, Piece.text, hrest]
    exact ⟨_, rfl⟩
  · obtain ⟨init, hinit⟩ := ht
    obtain ⟨front, hfront⟩ := hlast
    rw [hfront, render_append, render_cons, Piece.text, hinit]
    refine ⟨render front ++ init, ?_⟩
    simp [render]

theorem bracketed_documentBlock (tag : String) (d : PromptDocument) :
    Bracketed (render (documentBlock tag d)) := by
  refine bracketed_of_ends (s := "<" ++ tag ++ " n=\"") (t := "\n</" ++ tag ++ ">") rfl ?_ ?_ ?_
  · exact ⟨_, (List.append_assoc _ [_, _] [_]).symm⟩
  · rw [String.toList_append, String.toList_append]
    exact ⟨_, rfl⟩
  · rw [String.toList_append]
    exact ⟨_, rfl⟩

theorem bracketed_currentText (current : CurrentText) :
    Bracketed (render (currentTextPieces current)) :=
  bracketed_of_ends rfl ⟨(currentTextPieces current).dropLast, rfl⟩ ⟨_, rfl⟩
    ⟨"\n</current_text".toList, by decide⟩

theorem bracketed_writeMail (i : ℕ) (m : PromptMail MailHeader) :
    Bracketed (render (writeMailPieces i m)) :=
  bracketed_of_ends rfl ⟨_, rfl⟩ ⟨_, rfl⟩ ⟨"\n</mail".toList, by decide⟩

theorem bracketed_decide {newMail : List Piece} {s : String}
    (hfirst : newMail.head? = some (.own s)) (hs : ∃ rest, s.toList = '<' :: rest)
    (candidates : List Candidate) : Bracketed (render (decideTemplate newMail candidates)) := by
  refine bracketed_of_ends ?_ ⟨_, rfl⟩ hs ⟨"\n</candidates".toList, by decide⟩
  obtain ⟨tail, htail⟩ := List.head?_eq_some_iff.1 hfirst
  rw [decideTemplate, htail]
  rfl

theorem render_writeUser (current : Option CurrentText) (mails : List (PromptMail MailHeader))
    (files : List PromptDocument) :
    render (writeUserPieces current mails files) = [] ∨
      Bracketed (render (writeUserPieces current mails files)) := by
  unfold writeUserPieces
  by_cases hne : current.toList.map currentTextPieces ++
      ((mails.zipIdx 1).map fun m => writeMailPieces m.2 m.1) ++ files.map (documentBlock "file") = []
  · rw [hne]
    exact .inl rfl
  · refine .inr (bracketed_joined hne fun part hpart => ?_)
    rw [List.mem_append, List.mem_append, List.mem_map, List.mem_map, List.mem_map] at hpart
    rcases hpart with (⟨c, -, rfl⟩ | ⟨m, -, rfl⟩) | ⟨d, -, rfl⟩
    · exact bracketed_currentText c
    · exact bracketed_writeMail m.2 m.1
    · exact bracketed_documentBlock "file" d

/-! ## The fences of the three prompts -/

theorem fenced_decideUser_iff (mail : NewMail) (candidates : List Candidate) :
    Fenced (decideUserPieces mail candidates) (buildDecideUserPrompt mail candidates) ↔
      (Clean mail.receivedAt ∧ ∀ d ∈ mail.documents, CleanDocument d) ∧
        ∀ c ∈ candidates, CleanCandidate c := by
  refine (fenced_iff (renderPrompt_eq (.inr (bracketed_decide rfl ⟨_, rfl⟩ candidates)))).trans ?_
  unfold decideTemplate newMailPieces
  simp [rawClean_attachmentBlocks, rawClean_candidateBlocks, and_assoc]

theorem fenced_decideFile_iff (addedAt : Text) (documents : List PromptDocument)
    (candidates : List Candidate) :
    Fenced (decideFilePieces addedAt documents candidates)
        (buildDecideFilePrompt addedAt documents candidates) ↔
      (Clean addedAt ∧ ∀ d ∈ documents, CleanDocument d) ∧ ∀ c ∈ candidates, CleanCandidate c := by
  refine (fenced_iff (renderPrompt_eq (.inr (bracketed_decide rfl ⟨_, rfl⟩ candidates)))).trans ?_
  unfold decideTemplate
  simp [rawClean_attachmentBlocks, rawClean_candidateBlocks, and_assoc]

theorem rawClean_writeMail {i : ℕ} {m : PromptMail MailHeader} :
    RawClean (writeMailPieces i m) ↔
      Clean m.mail.rest.receivedAt ∧ ∀ d ∈ m.documents, CleanDocument d := by
  unfold writeMailPieces
  simp [rawClean_attachmentBlocks]

/-- The writing prompt is fenced exactly when its raw fields are clean. -/
theorem fenced_writeUser_iff (current : Option CurrentText) (mails : List (PromptMail MailHeader))
    (files : List PromptDocument) :
    Fenced (writeUserPieces current mails files) (buildWriteUserPrompt current mails files) ↔
      (∀ m ∈ mails, Clean m.mail.rest.receivedAt ∧ ∀ d ∈ m.documents, CleanDocument d) ∧
        ∀ d ∈ files, CleanDocument d := by
  have hmails : (∀ part ∈ (mails.zipIdx 1).map fun m => writeMailPieces m.2 m.1, RawClean part) ↔
      ∀ m ∈ mails, Clean m.mail.rest.receivedAt ∧ ∀ d ∈ m.documents, CleanDocument d := by
    constructor
    · intro h m hm
      obtain ⟨i, hi, heq⟩ := List.getElem_of_mem hm
      have hmem : (m, 1 + i) ∈ mails.zipIdx 1 :=
        List.mk_add_mem_zipIdx_iff_getElem?.2 (by rw [List.getElem?_eq_getElem hi, heq])
      exact rawClean_writeMail.1 (h _ (List.mem_map.2 ⟨_, hmem, rfl⟩))
    · intro h part hpart
      obtain ⟨⟨m, i⟩, hm, rfl⟩ := List.mem_map.1 hpart
      exact rawClean_writeMail.2 (h m (List.fst_mem_of_mem_zipIdx hm))
  have hcurrent : ∀ part ∈ current.toList.map currentTextPieces, RawClean part := by
    intro part hpart
    obtain ⟨c, -, rfl⟩ := List.mem_map.1 hpart
    simp [currentTextPieces]
  have hfiles : (∀ part ∈ files.map (documentBlock "file"), RawClean part) ↔
      ∀ d ∈ files, CleanDocument d := by
    rw [List.forall_mem_map]
    simp [rawClean_documentBlock]
  refine (fenced_iff (renderPrompt_eq (render_writeUser current mails files))).trans ?_
  unfold writeUserPieces
  rw [rawClean_joined, List.forall_mem_append, List.forall_mem_append, hmails, hfiles,
    and_iff_right hcurrent]

/-- **The fences of the user prompts hold** exactly where what is put in as it is, times, methods
and days, and most of a candidate, has no bracket and no break. -/
theorem prompts_fenced_iff (mail : NewMail) (addedAt : Text) (documents : List PromptDocument)
    (candidates : List Candidate) (current : Option CurrentText)
    (mails : List (PromptMail MailHeader)) (files : List PromptDocument) :
    (Fenced (decideUserPieces mail candidates) (buildDecideUserPrompt mail candidates) ↔
      (Clean mail.receivedAt ∧ ∀ d ∈ mail.documents, CleanDocument d) ∧
        ∀ c ∈ candidates, CleanCandidate c) ∧
    (Fenced (decideFilePieces addedAt documents candidates)
        (buildDecideFilePrompt addedAt documents candidates) ↔
      (Clean addedAt ∧ ∀ d ∈ documents, CleanDocument d) ∧ ∀ c ∈ candidates, CleanCandidate c) ∧
    (Fenced (writeUserPieces current mails files) (buildWriteUserPrompt current mails files) ↔
      (∀ m ∈ mails, Clean m.mail.rest.receivedAt ∧ ∀ d ∈ m.documents, CleanDocument d) ∧
        ∀ d ∈ files, CleanDocument d) :=
  ⟨fenced_decideUser_iff mail candidates, fenced_decideFile_iff addedAt documents candidates,
    fenced_writeUser_iff current mails files⟩

def closingCandidate : Candidate :=
  ⟨[], "</candidates>".toList, [], true, [], 1, none, none, [], [], []⟩

theorem candidate_subject_closes_fence :
    ¬ Fenced (decideUserPieces ⟨[], [], [], [], [], [], []⟩ [closingCandidate])
      (buildDecideUserPrompt ⟨[], [], [], [], [], [], []⟩ [closingCandidate]) := by
  intro h
  have hclean := ((fenced_decideUser_iff _ _).1 h).2 closingCandidate (List.mem_singleton_self _)
  exact absurd (hclean.subject '<' (by decide)).1 (by decide)

end PromptFences

end MailVerdict.Analysis
