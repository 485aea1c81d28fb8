import MailVerdict.Computation.JsonLiteral
import MailVerdict.Computation.JsonTree

/-!
# JSON texts

`json.dumps` of a value with the separators `,` and `:` and no spaces, and the reader of a text.
The numbers are integers: a fraction or a power is not read. What is written is read back, in
front of anything that does not carry a number on.
-/

namespace MailVerdict.Computation.JsonText

open JsonLiteral

/-! ### Writing -/

def intText (n : ℤ) : List Char :=
  if n < 0 then '-' :: Nat.toDigits 10 n.natAbs else Nat.toDigits 10 n.natAbs

mutual

def dumpsValue : Json ℤ → List Char
  | .null => ['n', 'u', 'l', 'l']
  | .bool true => ['t', 'r', 'u', 'e']
  | .bool false => ['f', 'a', 'l', 's', 'e']
  | .num n => intText n
  | .str s => dumps s.toList
  | .arr [] => ['[', ']']
  | .arr (j :: l) => '[' :: (dumpsValue j ++ (dumpsMore l ++ [']']))
  | .obj [] => ['\x7b', '\x7d']
  | .obj ((k, v) :: l) =>
    '\x7b' :: (dumps k.toList ++ ':' :: (dumpsValue v ++ (dumpsMoreFields l ++ ['\x7d'])))

def dumpsMore : List (Json ℤ) → List Char
  | [] => []
  | j :: l => ',' :: (dumpsValue j ++ dumpsMore l)

def dumpsMoreFields : List (String × Json ℤ) → List Char
  | [] => []
  | (k, v) :: l => ',' :: (dumps k.toList ++ ':' :: (dumpsValue v ++ dumpsMoreFields l))

end

/-! ### Reading -/

def isWhite (c : Char) : Bool := c == ' ' || c == '\t' || c == '\n' || c == '\r'

def skip (text : List Char) : List Char := text.dropWhile isWhite

/-- The characters of code points; a lone half of a pair is none. -/
def chars (codes : List ℕ) : Option (List Char) :=
  codes.mapM fun n => if n.isValidChar then some (Char.ofNat n) else none

def readText (text : List Char) : Option (String × List Char) :=
  (readString text).bind fun r => (chars r.1).map fun cs => (String.ofList cs, r.2)

def goesOn (text : List Char) : Bool :=
  text.head?.any fun c => c.isDigit || c == '.' || c == 'e' || c == 'E'

/-- A natural number without a zero in front. -/
def readDigits (text : List Char) : Option (ℕ × List Char) :=
  let ds := text.takeWhile Char.isDigit
  if ds = [] ∨ (ds.head? = some '0' ∧ ds ≠ ['0']) ∨ goesOn (text.drop ds.length) then none
  else some (Nat.ofDigitChars 10 ds 0, text.drop ds.length)

def readNumber (text : List Char) : Option (Json ℤ × List Char) :=
  if text.head? = some '-' then
    (readDigits text.tail).map fun r => (.num (-(r.1 : ℤ)), r.2)
  else (readDigits text).map fun r => (.num (r.1 : ℤ), r.2)

/-- A key, its colon, and what is before the value. -/
def readKey (text : List Char) : Option (String × List Char) :=
  if text.head? = some '\x22' then
    (readText text.tail).bind fun r =>
      if (skip r.2).head? = some ':' then some (r.1, skip (skip r.2).tail) else none
  else none

mutual

/-- A value at the start of a text; the first argument bounds the depth and the items. -/
def readValue : ℕ → List Char → Option (Json ℤ × List Char)
  | 0, _ => none
  | _ + 1, [] => none
  | fuel + 1, c :: rest =>
    if c = '\x22' then (readText rest).map fun r => (.str r.1, r.2)
    else if c = '[' then
      if (skip rest).head? = some ']' then some (.arr [], (skip rest).tail)
      else
        (readValue fuel (skip rest)).bind fun r =>
          (readMore fuel r.2).map fun more => (.arr (r.1 :: more.1), more.2)
    else if c = '\x7b' then
      if (skip rest).head? = some '\x7d' then some (.obj [], (skip rest).tail)
      else
        (readKey (skip rest)).bind fun key =>
          (readValue fuel key.2).bind fun r =>
            (readMoreFields fuel r.2).map fun more => (.obj ((key.1, r.1) :: more.1), more.2)
    else if ['n', 'u', 'l', 'l'].isPrefixOf (c :: rest) then some (.null, rest.drop 3)
    else if ['t', 'r', 'u', 'e'].isPrefixOf (c :: rest) then some (.bool true, rest.drop 3)
    else if ['f', 'a', 'l', 's', 'e'].isPrefixOf (c :: rest) then some (.bool false, rest.drop 4)
    else readNumber (c :: rest)

def readMore : ℕ → List Char → Option (List (Json ℤ) × List Char)
  | 0, _ => none
  | fuel + 1, text =>
    if (skip text).head? = some ']' then some ([], (skip text).tail)
    else if (skip text).head? = some ',' then
      (readValue fuel (skip (skip text).tail)).bind fun r =>
        (readMore fuel r.2).map fun more => (r.1 :: more.1, more.2)
    else none

def readMoreFields : ℕ → List Char → Option (List (String × Json ℤ) × List Char)
  | 0, _ => none
  | fuel + 1, text =>
    if (skip text).head? = some '\x7d' then some ([], (skip text).tail)
    else if (skip text).head? = some ',' then
      (readKey (skip (skip text).tail)).bind fun key =>
        (readValue fuel key.2).bind fun r =>
          (readMoreFields fuel r.2).map fun more => ((key.1, r.1) :: more.1, more.2)
    else none

end

/-- `json.loads` of a text. -/
def loads (text : List Char) : Option (Json ℤ) :=
  (readValue (skip text).length (skip text)).bind fun r => if skip r.2 = [] then some r.1 else none

/-! ### Strings and numbers -/

theorem chars_map (value : List Char) : chars (value.map Char.toNat) = some value := by
  unfold chars
  induction value with
  | nil => rfl
  | cons c value ih =>
    have hvalid : c.toNat.isValidChar := c.valid
    rw [List.map_cons, List.mapM_cons, if_pos hvalid, ih, Char.ofNat_toNat]
    rfl

theorem dumps_append (s : String) (rest : List Char) :
    ∃ body, dumps s.toList ++ rest = '\x22' :: body ∧ readText body = some (s, rest) := by
  refine ⟨s.toList.flatMap escapeChar ++ '\x22' :: rest, ?_, ?_⟩
  · simp [dumps]
  · have hread : readString (s.toList.flatMap escapeChar ++ '\x22' :: rest) =
        some (s.toList.map Char.toNat, rest) :=
      readLiteral_encoded readsAs_escapeChar s.toList rest
    rw [readText, hread, Option.bind_some, chars_map, Option.map_some, String.ofList_toList]

theorem head_toDigits {n : ℕ} (h : (Nat.toDigits 10 n).head? = some '0') : n = 0 := by
  induction n using Nat.strongRecOn with
  | ind n ih =>
    by_cases hn : n < 10
    · have hsmall : ∀ m < 10, (Nat.toDigits 10 m).head? = some '0' → m = 0 := by decide
      exact hsmall n hn h
    · have hpos : 0 < n / 10 := Nat.div_pos (Nat.le_of_not_lt hn) (by decide)
      have hsplit := Nat.toDigits_append_toDigits (b := 10) (n := n / 10) (d := n % 10)
        (by decide) hpos (Nat.mod_lt n (by decide))
      rw [Nat.div_add_mod] at hsplit
      have hne : Nat.toDigits 10 (n / 10) ≠ [] :=
        List.ne_nil_of_length_pos Nat.length_toDigits_pos
      rw [← hsplit, List.head?_append_of_ne_nil _ hne] at h
      have hzero := ih (n / 10) (Nat.div_lt_self (by omega) (by decide)) h
      omega

theorem readDigits_toDigits (n : ℕ) {rest : List Char} (h : goesOn rest = false) :
    readDigits (Nat.toDigits 10 n ++ rest) = some (n, rest) := by
  have hdigit : ∀ c ∈ Nat.toDigits 10 n, c.isDigit = true := fun c hc =>
    Nat.isDigit_of_mem_toDigits (by decide) (by decide) hc
  have hne : Nat.toDigits 10 n ≠ [] := List.ne_nil_of_length_pos Nat.length_toDigits_pos
  have htake : (Nat.toDigits 10 n ++ rest).takeWhile Char.isDigit = Nat.toDigits 10 n := by
    rw [List.takeWhile_append_of_pos hdigit]
    cases rest with
    | nil => rw [List.takeWhile_nil, List.append_nil]
    | cons c rest =>
      have hc : ¬ c.isDigit = true := by
        intro hd
        simp [goesOn, hd] at h
      rw [List.takeWhile_cons_of_neg hc, List.append_nil]
  unfold readDigits
  simp only [htake, List.drop_left]
  rw [if_neg, Nat.ofDigitChars_toDigits (by decide) (by decide)]
  rintro (hnil | ⟨hzero, hlong⟩ | hgoes)
  · exact hne hnil
  · rw [head_toDigits hzero] at hlong
    exact hlong (by decide)
  · rw [h] at hgoes
    exact Bool.false_ne_true hgoes

theorem intText_head (n : ℤ) :
    ∃ c t, intText n = c :: t ∧ (c = '-' ∨ c.isDigit = true) := by
  unfold intText
  split
  · exact ⟨_, _, rfl, .inl rfl⟩
  · cases hd : Nat.toDigits 10 n.natAbs with
    | nil => exact absurd hd (List.ne_nil_of_length_pos Nat.length_toDigits_pos)
    | cons c t =>
      refine ⟨c, t, rfl, .inr ?_⟩
      exact Nat.isDigit_of_mem_toDigits (b := 10) (n := n.natAbs) (by decide) (by decide)
        (hd ▸ List.mem_cons_self)

theorem readNumber_intText (n : ℤ) {rest : List Char} (h : goesOn rest = false) :
    readNumber (intText n ++ rest) = some (.num n, rest) := by
  unfold readNumber intText
  by_cases hneg : n < 0
  · rw [if_pos hneg, List.cons_append, List.head?_cons, if_pos rfl, List.tail_cons,
      readDigits_toDigits _ h]
    simp only [Option.map_some, Option.some.injEq, Prod.mk.injEq, Json.num.injEq, and_true]
    omega
  · rw [if_neg hneg]
    have hhead : (Nat.toDigits 10 n.natAbs ++ rest).head? ≠ some '-' := by
      have hne : Nat.toDigits 10 n.natAbs ≠ [] :=
        List.ne_nil_of_length_pos Nat.length_toDigits_pos
      rw [List.head?_append_of_ne_nil _ hne]
      intro hminus
      have hd := Nat.isDigit_of_mem_toDigits (by decide) (by decide)
        (List.mem_of_mem_head? (Option.mem_def.2 hminus))
      exact absurd hd (by decide)
    rw [if_neg hhead, readDigits_toDigits _ h]
    simp only [Option.map_some, Option.some.injEq, Prod.mk.injEq, Json.num.injEq, and_true]
    omega

/-! ### Values -/

theorem skip_cons {c : Char} (h : isWhite c = false) (rest : List Char) :
    skip (c :: rest) = c :: rest := by
  rw [skip, List.dropWhile_cons_of_neg (by rw [h]; exact Bool.false_ne_true)]

theorem not_white_of_isDigit {c : Char} (h : c.isDigit = true) : isWhite c = false := by
  refine Bool.eq_false_iff.2 fun hw => ?_
  simp only [isWhite, Bool.or_eq_true, beq_iff_eq] at hw
  rcases hw with ((rfl | rfl) | rfl) | rfl <;> exact absurd h (by decide)

theorem dumpsValue_head (v : Json ℤ) :
    ∃ c t, dumpsValue v = c :: t ∧ isWhite c = false ∧ c ≠ ']' := by
  cases v with
  | null | str s => exact ⟨_, _, rfl, by decide, by decide⟩
  | bool b => cases b <;> exact ⟨_, _, rfl, by decide, by decide⟩
  | num n =>
    obtain ⟨c, t, ht, hc⟩ := intText_head n
    rcases hc with rfl | hc
    · exact ⟨_, _, ht, by decide, by decide⟩
    · refine ⟨c, t, ht, not_white_of_isDigit hc, ?_⟩
      rintro rfl
      exact absurd hc (by decide)
  | arr items => cases items <;> exact ⟨_, _, rfl, by decide, by decide⟩
  | obj fields => cases fields <;> exact ⟨_, _, rfl, by decide, by decide⟩

theorem goesOn_cons {c : Char} (h : (c.isDigit || c == '.' || c == 'e' || c == 'E') = false)
    (rest : List Char) : goesOn (c :: rest) = false := h

theorem goesOn_dumpsMore (l : List (Json ℤ)) (rest : List Char) :
    goesOn (dumpsMore l ++ ']' :: rest) = false := by
  cases l <;> exact goesOn_cons (by decide) _

theorem goesOn_dumpsMoreFields (l : List (String × Json ℤ)) (rest : List Char) :
    goesOn (dumpsMoreFields l ++ '\x7d' :: rest) = false := by
  cases l <;> exact goesOn_cons (by decide) _

theorem readKey_dumps (k : String) {body : List Char} (hbody : ∃ c t, body = c :: t ∧
    isWhite c = false) : readKey (dumps k.toList ++ ':' :: body) = some (k, body) := by
  obtain ⟨inner, htext, hread⟩ := dumps_append k (':' :: body)
  obtain ⟨c, t, rfl, hc⟩ := hbody
  rw [htext, readKey, List.head?_cons, if_pos rfl, List.tail_cons, hread, Option.bind_some,
    skip_cons (by decide), List.head?_cons, if_pos rfl, List.tail_cons, skip_cons hc]

theorem readValue_number {fuel : ℕ} (n : ℤ) {rest : List Char} (h : goesOn rest = false) :
    readValue (fuel + 1) (intText n ++ rest) = some (.num n, rest) := by
  obtain ⟨c, t, ht, hc⟩ := intText_head n
  have hnot : ∀ d : Char, d ≠ '-' → d.isDigit = false → c ≠ d := by
    rintro d hminus hdigit rfl
    rcases hc with rfl | hc
    · exact hminus rfl
    · rw [hdigit] at hc
      exact Bool.false_ne_true hc
  have hword : ∀ (d : Char) (word : List Char), d ≠ '-' → d.isDigit = false →
      ¬ (d :: word).isPrefixOf (c :: (t ++ rest)) = true := by
    intro d word hminus hdigit hpre
    rw [List.isPrefixOf_iff_prefix, List.cons_prefix_cons] at hpre
    exact hnot d hminus hdigit hpre.1.symm
  have hnumber := readNumber_intText n h
  rw [ht, List.cons_append] at hnumber ⊢
  rw [readValue, if_neg (hnot _ (by decide) (by decide)), if_neg (hnot _ (by decide) (by decide)),
    if_neg (hnot _ (by decide) (by decide)), if_neg (hword _ _ (by decide) (by decide)),
    if_neg (hword _ _ (by decide) (by decide)), if_neg (hword _ _ (by decide) (by decide)), hnumber]

/-- **What is written is read back**: values, and what follows the first item or entry. -/
theorem readValue_dumpsValue (fuel : ℕ) :
    (∀ v rest, (dumpsValue v).length ≤ fuel → goesOn rest = false →
      readValue fuel (dumpsValue v ++ rest) = some (v, rest)) ∧
    (∀ l rest, (dumpsMore l).length < fuel →
      readMore fuel (dumpsMore l ++ ']' :: rest) = some (l, rest)) ∧
    (∀ l rest, (dumpsMoreFields l).length < fuel →
      readMoreFields fuel (dumpsMoreFields l ++ '\x7d' :: rest) = some (l, rest)) := by
  induction fuel with
  | zero =>
    refine ⟨fun v rest h _ => ?_, fun l rest h => absurd h (Nat.not_lt_zero _),
      fun l rest h => absurd h (Nat.not_lt_zero _)⟩
    obtain ⟨c, t, ht, -⟩ := dumpsValue_head v
    rw [ht] at h
    exact absurd h (by simp)
  | succ fuel ih =>
    obtain ⟨ihv, ihm, ihf⟩ := ih
    refine ⟨fun v rest hlen hgoes => ?_, fun l rest hlen => ?_, fun l rest hlen => ?_⟩
    · cases v with
      | null =>
        simp [dumpsValue, readValue]
      | bool b =>
        cases b <;> simp [dumpsValue, readValue]
      | num n => exact readValue_number n hgoes
      | str s =>
        obtain ⟨inner, htext, hread⟩ := dumps_append s rest
        rw [dumpsValue, htext, readValue, if_pos rfl, hread]
        rfl
      | arr items =>
        cases items with
        | nil => simp [dumpsValue, readValue, skip_cons (c := ']') (by decide)]
        | cons j l =>
          obtain ⟨c, t, ht, hwhite, hclose⟩ := dumpsValue_head j
          have hlenj : (dumpsValue j).length ≤ fuel ∧ (dumpsMore l).length < fuel := by
            simp only [dumpsValue, List.length_cons, List.length_append, ht] at hlen ⊢
            omega
          have hskip : skip (dumpsValue j ++ (dumpsMore l ++ ']' :: rest)) =
              dumpsValue j ++ (dumpsMore l ++ ']' :: rest) := by
            rw [ht, List.cons_append, skip_cons hwhite]
          have hhead : (dumpsValue j ++ (dumpsMore l ++ ']' :: rest)).head? ≠ some ']' := by
            rw [ht, List.cons_append, List.head?_cons]
            exact fun h => hclose (Option.some.inj h)
          have hform : dumpsValue (.arr (j :: l)) ++ rest =
              '[' :: (dumpsValue j ++ (dumpsMore l ++ ']' :: rest)) := by
            simp [dumpsValue]
          rw [hform, readValue, if_neg (by decide), if_pos rfl, hskip, if_neg hhead,
            ihv j _ hlenj.1 (goesOn_dumpsMore l rest), Option.bind_some,
            ihm l rest hlenj.2]
          rfl
      | obj fields =>
        cases fields with
        | nil => simp [dumpsValue, readValue, skip_cons (c := '\x7d') (by decide)]
        | cons e l =>
          obtain ⟨k, v⟩ := e
          obtain ⟨c, t, ht, hwhite, -⟩ := dumpsValue_head v
          have hlenv : (dumpsValue v).length ≤ fuel ∧ (dumpsMoreFields l).length < fuel := by
            simp only [dumpsValue, List.length_cons, List.length_append, ht] at hlen ⊢
            omega
          have hform : dumpsValue (.obj ((k, v) :: l)) ++ rest = '\x7b' ::
              (dumps k.toList ++ ':' :: (dumpsValue v ++
                (dumpsMoreFields l ++ '\x7d' :: rest))) := by
            simp [dumpsValue]
          have hquote : ∀ body, skip (dumps k.toList ++ body) = dumps k.toList ++ body :=
            fun body => skip_cons (by decide) _
          have hhead : ∀ body, (dumps k.toList ++ body).head? ≠ some '\x7d' :=
            fun body h => absurd (Option.some.inj h) (by decide)
          rw [hform, readValue, if_neg (by decide), if_neg (by decide), if_pos rfl, hquote,
            if_neg (hhead _), readKey_dumps k ⟨c, _, by rw [ht]; rfl, hwhite⟩,
            Option.bind_some, ihv v _ hlenv.1 (goesOn_dumpsMoreFields l rest),
            Option.bind_some, ihf l rest hlenv.2]
          rfl
    · cases l with
      | nil =>
        rw [dumpsMore, List.nil_append, readMore, skip_cons (by decide), List.head?_cons,
          if_pos rfl]
        rfl
      | cons j l =>
        obtain ⟨c, t, ht, hwhite, -⟩ := dumpsValue_head j
        have hlenj : (dumpsValue j).length ≤ fuel ∧ (dumpsMore l).length < fuel := by
          simp only [dumpsMore, List.length_cons, List.length_append, ht] at hlen ⊢
          omega
        have hform : dumpsMore (j :: l) ++ ']' :: rest =
            ',' :: (dumpsValue j ++ (dumpsMore l ++ ']' :: rest)) := by
          simp [dumpsMore]
        have hskip : skip (dumpsValue j ++ (dumpsMore l ++ ']' :: rest)) =
            dumpsValue j ++ (dumpsMore l ++ ']' :: rest) := by
          rw [ht, List.cons_append, skip_cons hwhite]
        rw [hform, readMore, skip_cons (by decide), List.head?_cons, if_neg (by decide),
          if_pos rfl, List.tail_cons, hskip, ihv j _ hlenj.1 (goesOn_dumpsMore l rest),
          Option.bind_some, ihm l rest hlenj.2]
        rfl
    · cases l with
      | nil =>
        rw [dumpsMoreFields, List.nil_append, readMoreFields, skip_cons (by decide),
          List.head?_cons, if_pos rfl]
        rfl
      | cons e l =>
        obtain ⟨k, v⟩ := e
        obtain ⟨c, t, ht, hwhite, -⟩ := dumpsValue_head v
        have hlenv : (dumpsValue v).length ≤ fuel ∧ (dumpsMoreFields l).length < fuel := by
          simp only [dumpsMoreFields, List.length_cons, List.length_append, ht] at hlen ⊢
          omega
        have hform : dumpsMoreFields ((k, v) :: l) ++ '\x7d' :: rest = ',' ::
            (dumps k.toList ++ ':' :: (dumpsValue v ++
              (dumpsMoreFields l ++ '\x7d' :: rest))) := by
          simp [dumpsMoreFields]
        have hquote : ∀ body, skip (dumps k.toList ++ body) = dumps k.toList ++ body :=
          fun body => skip_cons (by decide) _
        rw [hform, readMoreFields, skip_cons (by decide), List.head?_cons, if_neg (by decide),
          if_pos rfl, List.tail_cons, hquote,
          readKey_dumps k ⟨c, _, by rw [ht]; rfl, hwhite⟩, Option.bind_some,
          ihv v _ hlenv.1 (goesOn_dumpsMoreFields l rest), Option.bind_some, ihf l rest hlenv.2]
        rfl

/-- **Round trip** of a text. -/
theorem loads_dumpsValue (v : Json ℤ) : loads (dumpsValue v) = some v := by
  obtain ⟨c, t, ht, hwhite, -⟩ := dumpsValue_head v
  have hskip : skip (dumpsValue v) = dumpsValue v := by rw [ht, skip_cons hwhite]
  have hread := (readValue_dumpsValue (dumpsValue v).length).1 v [] (Nat.le_refl _) rfl
  rw [List.append_nil] at hread
  rw [loads, hskip, hread, Option.bind_some]
  exact if_pos rfl

/-! ### The last entry -/

theorem dumpsMoreFields_concat (l : List (String × Json ℤ)) (k : String) (v : Json ℤ) :
    dumpsMoreFields (l ++ [(k, v)]) =
      dumpsMoreFields l ++ ',' :: (dumps k.toList ++ ':' :: dumpsValue v) := by
  induction l with
  | nil => simp [dumpsMoreFields]
  | cons e l ih =>
    obtain ⟨k', v'⟩ := e
    rw [List.cons_append, dumpsMoreFields, dumpsMoreFields, ih]
    simp

theorem dumpsValue_concat (e : String × Json ℤ) (l : List (String × Json ℤ)) (k : String) :
    ∃ front, ∀ v, dumpsValue (.obj (e :: (l ++ [(k, v)]))) =
      front ++ (dumpsValue v ++ ['\x7d']) := by
  obtain ⟨k', v'⟩ := e
  refine ⟨'\x7b' :: (dumps k'.toList ++ ':' :: (dumpsValue v' ++ (dumpsMoreFields l ++
    ',' :: (dumps k.toList ++ [':'])))), fun v => ?_⟩
  rw [dumpsValue, dumpsMoreFields_concat]
  simp

end MailVerdict.Computation.JsonText
