import Mathlib.Data.List.Pairwise
import MailVerdict.Computation.AssocLists
import MailVerdict.Model.OrderFacts

/-!
# What a rewrite keeps of an order's facts

A fact of the call is stored under a key: its normalised number, its barcode, or what it
displays. A row of the number or the barcode is restated, otherwise a row is added; so a row the
order had is at the end what the facts of the call with its key made of it, one after the
other. `Progress` says this of the loop, and which rows the stated ids are, in the call's order.

Everything promised of a rewrite holds but one thing: a row the user stated is restated like any
other, and a code fact of the user goes with its barcode.
-/

namespace MailVerdict.Analysis

open Model.Identifiers
open Model.OrderFacts

variable {facts : List OrderFact} {stated : List Uuid}

namespace RewrittenFacts

/-! ## Rows and their keys -/

inductive RowKey
  | number (valueNorm : Text)
  | barcode (key : BarcodeKey)
  | display (kind : DisplayKind) (value : Text)
deriving DecidableEq

/-- The row is stored under the key; a display key is that of a row the call stated. -/
def Has : RowKey → OrderFact → Prop
  | .number n, f => f.valueNorm = some n
  | .barcode b, f => f.barcode = some b
  | .display k v, f => f.kind = .display k ∧ f.value = v ∧ f.source = .ai

structure Tidy (f : OrderFact) : Prop where
  number : f.valueNorm.isSome = true ↔ ∃ k, f.kind = .identifier k
  barcode : f.barcode.isSome = true → f.kind = .code

/-- What the schema keeps of an order's rows: ids, numbers and barcodes are distinct. -/
structure WellFormed (s : Store) : Prop where
  ids : (s.facts.map OrderFact.id).Nodup
  fresh : ∀ f ∈ s.facts, f.id < s.nextId
  numbers : (s.facts.filterMap OrderFact.valueNorm).Nodup
  barcodes : (s.facts.filterMap OrderFact.barcode).Nodup
  tidy : ∀ f ∈ s.facts, Tidy f

theorem Tidy.kind_of_number {f : OrderFact} (h : Tidy f) {n : Text} (hn : f.valueNorm = some n) :
    ∃ k, f.kind = .identifier k := h.number.1 (by rw [hn]; rfl)

theorem Tidy.kind_of_barcode {f : OrderFact} (h : Tidy f) {b : BarcodeKey}
    (hb : f.barcode = some b) : f.kind = .code := h.barcode (by rw [hb]; rfl)

theorem has_unique {f : OrderFact} (hf : Tidy f) {k l : RowKey} (h : Has k f) (h' : Has l f) :
    k = l := by
  have hnumber : ∀ n, f.valueNorm = some n → ∃ i, f.kind = .identifier i :=
    fun _ => hf.kind_of_number
  have hbarcode : ∀ b, f.barcode = some b → f.kind = .code := fun _ => hf.kind_of_barcode
  cases k <;> cases l <;> simp only [Has] at h h'
  case number.number | barcode.barcode => simpa using h.symm.trans h'
  case display.display =>
    have hkind := h.1.symm.trans h'.1
    simp_all
  all_goals grind

theorem eq_of_filterMap_nodup {α β : Type} {g : α → Option β} {l : List α}
    (h : (l.filterMap g).Nodup) {x y : α} (hx : x ∈ l) (hy : y ∈ l) {b : β} (hgx : g x = some b)
    (hgy : g y = some b) : x = y := by
  have hsymm : Std.Symm fun x y => ∀ b, g x = some b → ∀ c, g y = some c → b ≠ c :=
    ⟨fun _ _ h b hb c hc => (h c hc b hb).symm⟩
  by_contra hne
  exact (List.pairwise_filterMap.1 h).forall hx hy hne b hgx b hgy rfl

theorem WellFormed.has_inj {s : Store} (hs : WellFormed s) {f g : OrderFact} (hf : f ∈ s.facts)
    (hg : g ∈ s.facts) {key : RowKey} (hkey : ∀ k v, key ≠ .display k v) (h : Has key f)
    (h' : Has key g) : f = g := by
  cases key with
  | number n => exact eq_of_filterMap_nodup hs.numbers hf hg h h'
  | barcode b => exact eq_of_filterMap_nodup hs.barcodes hf hg h h'
  | display k v => exact absurd rfl (hkey k v)

/-! ## Upserts -/

theorem upsert_cases (s : Store) (hit : OrderFact → Bool) (update : OrderFact → OrderFact)
    (new : OrderFact) :
    (∃ held ∈ s.facts, hit held = true ∧ upsert s hit update new =
      ({ s with facts := s.facts.map fun f => if hit f then update f else f }, held.id)) ∨
    ((∀ f ∈ s.facts, hit f = false) ∧
      upsert s hit update new = (⟨s.facts ++ [new], s.nextId + 1⟩, new.id)) := by
  unfold upsert
  cases h : s.facts.find? hit with
  | some held => exact .inl ⟨held, List.mem_of_find?_eq_some h, List.find?_some h, rfl⟩
  | none =>
    exact .inr ⟨fun f hf => Bool.eq_false_iff.2 (List.find?_eq_none.1 h f hf), rfl⟩

/-- A new row keeps the store well formed where its number and barcode are new. -/
theorem WellFormed.add {s : Store} (hs : WellFormed s) {new : OrderFact}
    (hid : new.id = s.nextId) (htidy : Tidy new)
    (hnumber : ∀ n, new.valueNorm = some n → ∀ f ∈ s.facts, f.valueNorm ≠ some n)
    (hbarcode : ∀ b, new.barcode = some b → ∀ f ∈ s.facts, f.barcode ≠ some b) :
    WellFormed ⟨s.facts ++ [new], s.nextId + 1⟩ where
  ids := by
    rw [List.map_append, List.map_singleton, ← List.concat_eq_append]
    refine hs.ids.concat fun hmem => ?_
    obtain ⟨f, hf, heq⟩ := List.mem_map.1 hmem
    exact absurd (hs.fresh f hf) (by rw [heq, hid]; exact Nat.lt_irrefl _)
  fresh := by
    intro f hf
    rcases List.mem_append.1 hf with hf | hf
    · exact Nat.lt_succ_of_lt (hs.fresh f hf)
    · rw [List.mem_singleton.1 hf, hid]
      exact Nat.lt_succ_self _
  numbers := by
    rw [List.filterMap_append]
    cases hn : new.valueNorm with
    | none => simpa [hn] using hs.numbers
    | some n =>
      rw [List.filterMap_cons_some hn, List.filterMap_nil, ← List.concat_eq_append]
      refine hs.numbers.concat fun hmem => ?_
      obtain ⟨f, hf, heq⟩ := List.mem_filterMap.1 hmem
      exact hnumber n hn f hf heq
  barcodes := by
    rw [List.filterMap_append]
    cases hb : new.barcode with
    | none => simpa [hb] using hs.barcodes
    | some b =>
      rw [List.filterMap_cons_some hb, List.filterMap_nil, ← List.concat_eq_append]
      refine hs.barcodes.concat fun hmem => ?_
      obtain ⟨f, hf, heq⟩ := List.mem_filterMap.1 hmem
      exact hbarcode b hb f hf heq
  tidy := by
    intro f hf
    rcases List.mem_append.1 hf with hf | hf
    · exact hs.tidy f hf
    · exact List.mem_singleton.1 hf ▸ htidy

theorem WellFormed.rewrite {s : Store} (hs : WellFormed s) {g : OrderFact → OrderFact}
    (hid : ∀ f, (g f).id = f.id) (hnumber : ∀ f, (g f).valueNorm = f.valueNorm)
    (hbarcode : ∀ f, (g f).barcode = f.barcode) (htidy : ∀ f, Tidy f → Tidy (g f)) :
    WellFormed { s with facts := s.facts.map g } where
  ids := by
    have h : (s.facts.map g).map OrderFact.id = s.facts.map OrderFact.id := by
      rw [List.map_map]
      exact List.map_congr_left fun f _ => hid f
    exact h ▸ hs.ids
  fresh := by
    intro f hf
    obtain ⟨f₀, hf₀, rfl⟩ := List.mem_map.1 hf
    rw [hid]
    exact hs.fresh f₀ hf₀
  numbers := by
    have h : (s.facts.map g).filterMap OrderFact.valueNorm =
        s.facts.filterMap OrderFact.valueNorm := by
      rw [List.filterMap_map]
      exact congrArg (fun p => s.facts.filterMap p) (funext hnumber)
    exact h ▸ hs.numbers
  barcodes := by
    have h : (s.facts.map g).filterMap OrderFact.barcode =
        s.facts.filterMap OrderFact.barcode := by
      rw [List.filterMap_map]
      exact congrArg (fun p => s.facts.filterMap p) (funext hbarcode)
    exact h ▸ hs.barcodes
  tidy := by
    intro f hf
    obtain ⟨f₀, hf₀, rfl⟩ := List.mem_map.1 hf
    exact htidy f₀ (hs.tidy f₀ hf₀)

theorem WellFormed.filter {s : Store} (hs : WellFormed s) (p : OrderFact → Bool) :
    WellFormed { s with facts := s.facts.filter p } where
  ids := hs.ids.sublist (List.filter_sublist.map OrderFact.id)
  fresh := fun f hf => hs.fresh f (List.mem_filter.1 hf).1
  numbers := hs.numbers.sublist (List.filter_sublist.filterMap OrderFact.valueNorm)
  barcodes := hs.barcodes.sublist (List.filter_sublist.filterMap OrderFact.barcode)
  tidy := fun f hf => hs.tidy f (List.mem_filter.1 hf).1

/-! ## One fact of the call -/

section
variable (upper : Char → Text) (isDate : Text → Bool) (env : Surroundings)
  (codeMap : List (Text × BarcodeKey))

def keyOf (p : WrittenFact) : Option RowKey :=
  match shownKind upper p with
  | some kind => if p.label = [] then none else some (.display kind p.value)
  | none =>
    match p.kind with
    | .identifier _ => (storedNumber upper env p).map .number
    | _ => (storedBarcode env codeMap p).map .barcode

def displayOf (p : WrittenFact) : Option (DisplayKind × Text) :=
  match keyOf upper env codeMap p with
  | some (.display k v) => some (k, v)
  | _ => none

def hits (p : WrittenFact) (f : OrderFact) : Bool :=
  match keyOf upper env codeMap p with
  | some (.number n) => decide (f.valueNorm = some n)
  | some (.barcode b) => decide (f.barcode = some b)
  | _ => false

def rewritten (p : WrittenFact) (f : OrderFact) : OrderFact :=
  match p.kind with
  | .identifier kind =>
    { f with
      kind := .identifier kind
      label := shownLabel kind p.label
      carrier := shownCarrier kind p }
  | _ =>
    { f with
      label := if p.label = [] then defaultCodeLabel else p.label
      value := p.value
      source := .ai }

def restate (p : WrittenFact) (f : OrderFact) : OrderFact :=
  if hits upper env codeMap p f then rewritten p f else f

variable {upper isDate env codeMap}

theorem hits_iff (p : WrittenFact) (f : OrderFact) :
    hits upper env codeMap p f = true ↔
      ∃ key, keyOf upper env codeMap p = some key ∧ (∀ k v, key ≠ .display k v) ∧ Has key f := by
  unfold hits
  cases h : keyOf upper env codeMap p with
  | none => simp
  | some key => cases key <;> simp [Has]

theorem hits_of_key {p : WrittenFact} {key : RowKey} (hkey : keyOf upper env codeMap p = some key)
    (hne : ∀ k v, key ≠ .display k v) (f : OrderFact) :
    hits upper env codeMap p f = true ↔ Has key f := by
  rw [hits_iff]
  refine ⟨fun ⟨key', hkey', _, hhas⟩ => ?_, fun h => ⟨key, hkey, hne, h⟩⟩
  exact Option.some.inj (hkey'.symm.trans hkey) ▸ hhas

/-- What a fact is that has a key, by the kind of the key. -/
theorem keyOf_cases {p : WrittenFact} {key : RowKey}
    (h : keyOf upper env codeMap p = some key) :
    match key with
    | .number n => ∃ kind, p.kind = .identifier kind ∧ storedNumber upper env p = some n
    | .barcode b => p.kind = .code ∧ storedBarcode env codeMap p = some b
    | .display k v => shownKind upper p = some k ∧ p.label ≠ [] ∧ p.value = v := by
  unfold keyOf at h
  cases hs : shownKind upper p with
  | some kind =>
    simp only [hs] at h
    split at h
    · cases h
    · rename_i hl
      cases h
      exact ⟨rfl, hl, rfl⟩
  | none =>
    simp only [hs] at h
    cases hk : p.kind with
    | identifier kind =>
      simp only [hk, Option.map_eq_some_iff] at h
      obtain ⟨n, hn, rfl⟩ := h
      exact ⟨kind, rfl, hn⟩
    | display kind =>
      unfold shownKind at hs
      simp [hk] at hs
    | code =>
      simp only [hk, Option.map_eq_some_iff] at h
      obtain ⟨b, hb, rfl⟩ := h
      exact ⟨rfl, hb⟩

theorem mem_barcodes_of_storedBarcode {p : WrittenFact} {b : BarcodeKey}
    (h : storedBarcode env codeMap p = some b) : b ∈ env.barcodes.map Prod.fst := by
  obtain ⟨-, hany⟩ := Option.filter_eq_some_iff.1 h
  obtain ⟨x, hx, heq⟩ := List.any_eq_true.1 hany
  exact List.mem_map.2 ⟨x, hx, of_decide_eq_true heq⟩

theorem kinds_of_hits {p : WrittenFact} {f : OrderFact} (hf : Tidy f)
    (h : hits upper env codeMap p f = true) :
    (∃ i j, f.kind = .identifier i ∧ p.kind = .identifier j) ∨
      (f.kind = .code ∧ p.kind = .code) := by
  obtain ⟨key, hkey, hne, hhas⟩ := (hits_iff p f).1 h
  cases key with
  | number n =>
    obtain ⟨j, hj, -⟩ := keyOf_cases hkey
    obtain ⟨i, hi⟩ := hf.kind_of_number hhas
    exact .inl ⟨i, j, hi, hj⟩
  | barcode b => exact .inr ⟨hf.kind_of_barcode hhas, (keyOf_cases hkey).1⟩
  | display k v => exact absurd rfl (hne k v)

section
variable (p : WrittenFact) (f : OrderFact)

@[simp] theorem rewritten_id : (rewritten p f).id = f.id := by
  unfold rewritten
  cases p.kind <;> rfl

@[simp] theorem rewritten_valueNorm : (rewritten p f).valueNorm = f.valueNorm := by
  unfold rewritten
  cases p.kind <;> rfl

@[simp] theorem rewritten_barcode : (rewritten p f).barcode = f.barcode := by
  unfold rewritten
  cases p.kind <;> rfl

theorem restate_of_not_hits (h : hits upper env codeMap p f = false) :
    restate upper env codeMap p f = f := by
  rw [restate, h]
  rfl

@[simp] theorem restate_id : (restate upper env codeMap p f).id = f.id := by
  unfold restate
  split
  · exact rewritten_id p f
  · rfl

@[simp] theorem restate_valueNorm :
    (restate upper env codeMap p f).valueNorm = f.valueNorm := by
  unfold restate
  split
  · exact rewritten_valueNorm p f
  · rfl

@[simp] theorem restate_barcode : (restate upper env codeMap p f).barcode = f.barcode := by
  unfold restate
  split
  · exact rewritten_barcode p f
  · rfl

end

variable (upper env codeMap) in
theorem restate_kind (p : WrittenFact) {f : OrderFact} (hf : Tidy f) :
    Tidy (restate upper env codeMap p f) ∧
      ((∃ k, (restate upper env codeMap p f).kind = .identifier k) ↔ ∃ k, f.kind = .identifier k) ∧
      ((restate upper env codeMap p f).kind = .code ↔ f.kind = .code) ∧
      ∀ d, (restate upper env codeMap p f).kind = .display d ↔ f.kind = .display d := by
  have hnumber := hf.number
  have hbarcode := hf.barcode
  by_cases hh : hits upper env codeMap p f = true
  · rcases kinds_of_hits hf hh with ⟨i, j, hi, hj⟩ | ⟨hi, hj⟩
    · have hk : (restate upper env codeMap p f).kind = .identifier j := by
        rw [restate, if_pos hh, rewritten, hj]
      refine ⟨⟨?_, ?_⟩, ?_⟩
      · rw [restate_valueNorm, hnumber, hi, hk]
        simp
      · rw [restate_barcode]
        exact fun hb => absurd (hi.symm.trans (hbarcode hb)) (by simp)
      · simp [hi, hk]
    · have hk : (restate upper env codeMap p f).kind = .code := by
        rw [restate, if_pos hh, rewritten, hj]
        exact hi
      refine ⟨⟨?_, fun _ => hk⟩, ?_⟩
      · rw [restate_valueNorm, hnumber, hi, hk]
      · simp [hi, hk]
  · rw [restate_of_not_hits p f (Bool.eq_false_iff.2 hh)]
    exact ⟨hf, Iff.rfl, Iff.rfl, fun d => Iff.rfl⟩

/-- **What one fact of the call does**: nothing, restating the row of its key, adding a row of
a key the order has not, or a display fact it has not shown. -/
inductive Written (upper : Char → Text) (env : Surroundings) (codeMap : List (Text × BarcodeKey))
    (w : Writing) (p : WrittenFact) : Writing → Prop
  | skip (hskip : ∀ key, keyOf upper env codeMap p = some key →
      ∃ k v, key = .display k v ∧ (k, v) ∈ w.seenDisplay) : Written upper env codeMap w p w
  | restate {key : RowKey} {held : OrderFact} (hkey : keyOf upper env codeMap p = some key)
      (hne : ∀ k v, key ≠ .display k v) (hheld : held ∈ w.store.facts) (hhas : Has key held) :
      Written upper env codeMap w p
        { w with
          store := { w.store with facts := w.store.facts.map (restate upper env codeMap p) }
          stated := w.stated ++ [held.id] }
  | add {key : RowKey} {new : OrderFact} (hkey : keyOf upper env codeMap p = some key)
      (hne : ∀ k v, key ≠ .display k v) (hnone : ∀ f ∈ w.store.facts, ¬ Has key f)
      (hid : new.id = w.store.nextId) (htidy : Tidy new) (hhas : Has key new)
      (hsource : new.source = .ai) :
      Written upper env codeMap w p
        { w with
          store := ⟨w.store.facts ++ [new], w.store.nextId + 1⟩
          stated := w.stated ++ [new.id] }
  | display {k : DisplayKind} {v : Text} {new : OrderFact}
      (hkey : keyOf upper env codeMap p = some (.display k v)) (hnew : (k, v) ∉ w.seenDisplay)
      (hid : new.id = w.store.nextId) (htidy : Tidy new) (hhas : Has (.display k v) new)
      (hlabel : new.label = p.label) :
      Written upper env codeMap w p
        { store := ⟨w.store.facts ++ [new], w.store.nextId + 1⟩
          stated := w.stated ++ [new.id]
          seenDisplay := w.seenDisplay ++ [(k, v)] }

theorem written_upsert {w : Writing} {p : WrittenFact} {key : RowKey}
    (hkey : keyOf upper env codeMap p = some key) (hne : ∀ k v, key ≠ .display k v)
    (new : OrderFact) (hid : new.id = w.store.nextId) (htidy : Tidy new) (hhas : Has key new)
    (hsource : new.source = .ai) :
    Written upper env codeMap w p
      { w with
        store := (upsert w.store (hits upper env codeMap p) (rewritten p) new).1
        stated := w.stated ++ [(upsert w.store (hits upper env codeMap p) (rewritten p) new).2] } := by
  rcases upsert_cases w.store (hits upper env codeMap p) (rewritten p) new with
    ⟨held, hheld, hhit, heq⟩ | ⟨hnone, heq⟩
  · rw [heq]
    exact .restate hkey hne hheld ((hits_of_key hkey hne held).1 hhit)
  · rw [heq]
    refine .add hkey hne (fun f hf hhas => ?_) hid htidy hhas hsource
    exact Bool.eq_false_iff.1 (hnone f hf) ((hits_of_key hkey hne f).2 hhas)

variable (upper isDate env codeMap) in
theorem writeFact_cases (w : Writing) (p : WrittenFact) :
    Written upper env codeMap w p (writeFact upper isDate env codeMap w p) := by
  cases hs : shownKind upper p with
  | some kind =>
    by_cases hl : p.label = []
    · have hwrite : writeFact upper isDate env codeMap w p = w := by simp [writeFact, hs, hl]
      rw [hwrite]
      exact .skip fun key hkey => by simp [keyOf, hs, hl] at hkey
    · have hkey : keyOf upper env codeMap p = some (.display kind p.value) := by
        simp [keyOf, hs, hl]
      by_cases hseen : (kind, p.value) ∈ w.seenDisplay
      · have hwrite : writeFact upper isDate env codeMap w p = w := by simp [writeFact, hs, hseen]
        rw [hwrite]
        exact .skip fun key hk =>
          ⟨kind, p.value, Option.some.inj (hk.symm.trans hkey), hseen⟩
      · have hany : (w.seenDisplay.any fun d => decide (d = (kind, p.value))) = false := by
          refine List.any_eq_false.2 fun d hd heq => hseen ?_
          exact of_decide_eq_true heq ▸ hd
        simp only [writeFact, hs, hany, Bool.false_or, decide_eq_true_eq, if_neg hl]
        exact .display hkey hseen rfl ⟨by simp, by simp⟩ ⟨rfl, rfl, rfl⟩ rfl
  | none =>
    cases hk : p.kind with
    | display kind => simp [shownKind, hk] at hs
    | identifier kind =>
      cases hn : storedNumber upper env p with
      | none =>
        have hwrite : writeFact upper isDate env codeMap w p = w := by
          simp [writeFact, hs, hk, hn]
        rw [hwrite]
        exact .skip fun key hkey => by simp [keyOf, hs, hk, hn] at hkey
      | some n =>
        have hkey : keyOf upper env codeMap p = some (.number n) := by
          simp [keyOf, hs, hk, hn]
        have hhits : hits upper env codeMap p = fun f => decide (f.valueNorm = some n) := by
          funext f
          simp [hits, hkey]
        have hnew := written_upsert (w := w) hkey (by simp)
          (identifierRow env w.store kind p.value n p.label (shownCarrier kind p)) rfl
          ⟨by simp [identifierRow], by simp [identifierRow]⟩ rfl rfl
        have hupd : rewritten p = fun f => { f with
            kind := .identifier kind
            label := shownLabel kind p.label
            carrier := shownCarrier kind p } := by
          funext f
          rw [rewritten, hk]
        rw [hhits, hupd] at hnew
        simp only [writeFact, hs, hk, hn, upsertIdentifierFact]
        exact hnew
    | code =>
      cases hb : storedBarcode env codeMap p with
      | none =>
        have hwrite : writeFact upper isDate env codeMap w p = w := by
          simp [writeFact, hs, hk, hb]
        rw [hwrite]
        exact .skip fun key hkey => by simp [keyOf, hs, hk, hb] at hkey
      | some b =>
        have hkey : keyOf upper env codeMap p = some (.barcode b) := by
          simp [keyOf, hs, hk, hb]
        have hhits : hits upper env codeMap p = fun f => decide (f.barcode = some b) := by
          funext f
          simp [hits, hkey]
        have hnew := written_upsert (w := w) hkey (by simp)
          (codeRow env w.store b (if p.label = [] then defaultCodeLabel else p.label)
            p.value .ai) rfl ⟨by simp [codeRow], by simp [codeRow]⟩ rfl rfl
        have hupd : rewritten p = fun f => { f with
            label := if p.label = [] then defaultCodeLabel else p.label
            value := p.value
            source := .ai } := by
          funext f
          rw [rewritten, hk]
        rw [hhits, hupd] at hnew
        simp only [writeFact, hs, hk, hb, upsertCodeFact]
        exact hnew

/-! ## The loop over the call's facts -/

def displayed (f : OrderFact) : Option (DisplayKind × Text) :=
  match f.kind with
  | .display k => some (k, f.value)
  | _ => none

variable (upper env codeMap) in
theorem displayed_restate (p : WrittenFact) {f : OrderFact} (hf : Tidy f) :
    displayed (restate upper env codeMap p f) = displayed f := by
  by_cases hh : hits upper env codeMap p f = true
  · rw [restate, if_pos hh, rewritten]
    rcases kinds_of_hits hf hh with ⟨i, j, hi, hj⟩ | ⟨hi, hj⟩
    · simp [displayed, hi, hj]
    · simp [displayed, hi, hj]
  · rw [restate_of_not_hits p f (Bool.eq_false_iff.2 hh)]

theorem restate_source (p : WrittenFact) {f : OrderFact} (h : f.source = .ai) :
    (restate upper env codeMap p f).source = .ai := by
  unfold restate
  split
  · unfold rewritten
    cases p.kind <;> first | exact h | rfl
  · exact h

theorem has_restate (p : WrittenFact) {f : OrderFact} (hf : Tidy f) {key : RowKey}
    (h : Has key f) : Has key (restate upper env codeMap p f) := by
  cases key with
  | number n => exact (restate_valueNorm p f).trans h
  | barcode b => exact (restate_barcode p f).trans h
  | display k v =>
    have hd := displayed_restate upper env codeMap p hf
    have hshown : displayed f = some (k, v) := by simp [displayed, h.1, h.2.1]
    rw [hshown] at hd
    unfold displayed at hd
    cases hk : (restate upper env codeMap p f).kind with
    | display k' =>
      simp only [hk, Option.some.injEq, Prod.mk.injEq] at hd
      exact ⟨hk.trans (congrArg FactKind.display hd.1), hd.2, restate_source p h.2.2⟩
    | identifier k' => simp [hk] at hd
    | code => simp [hk] at hd

def restateAll (upper : Char → Text) (env : Surroundings) (codeMap : List (Text × BarcodeKey))
    (ps : List WrittenFact) (f : OrderFact) : OrderFact :=
  ps.foldl (fun f p => restate upper env codeMap p f) f

structure Added (upper : Char → Text) (env : Surroundings) (codeMap : List (Text × BarcodeKey))
    (ps : List WrittenFact) (added : List OrderFact) : Prop where
  source : ∀ f ∈ added, f.source = .ai
  keys : ∀ f ∈ added, ∃ key ∈ ps.filterMap (keyOf upper env codeMap), Has key f
  displays : added.filterMap displayed = (ps.filterMap (displayOf upper env codeMap)).eraseDups
  labels : ∀ f ∈ added, ∀ d, displayed f = some d →
    ∃ p ∈ ps, displayOf upper env codeMap p = some d ∧ f.label = p.label

structure Progress (upper : Char → Text) (env : Surroundings)
    (codeMap : List (Text × BarcodeKey)) (start : List OrderFact) (ps : List WrittenFact)
    (w : Writing) : Prop where
  wellFormed : WellFormed w.store
  rows : ∃ added, w.store.facts = start.map (restateAll upper env codeMap ps) ++ added ∧
    Added upper env codeMap ps added
  seen : w.seenDisplay = (ps.filterMap (displayOf upper env codeMap)).eraseDups
  stated : List.Forall₂ (fun id key => ∃ f ∈ w.store.facts, f.id = id ∧ Has key f)
    w.stated.eraseDups (ps.filterMap (keyOf upper env codeMap)).eraseDups

theorem eraseDups_concat_of_mem {α : Type} [BEq α] [LawfulBEq α] {l : List α} {x : α}
    (h : x ∈ l) : (l ++ [x]).eraseDups = l.eraseDups := by
  rw [List.eraseDups_append]
  simp [List.removeAll, h]

theorem eraseDups_concat_of_not_mem {α : Type} [BEq α] [LawfulBEq α] {l : List α} {x : α}
    (h : x ∉ l) : (l ++ [x]).eraseDups = l.eraseDups ++ [x] := by
  rw [List.eraseDups_append]
  simp [List.removeAll, h, List.eraseDups_cons]

theorem exists_left_of_forall₂ {α β : Type} {R : α → β → Prop} {l : List α} {m : List β}
    (h : List.Forall₂ R l m) : ∀ y ∈ m, ∃ x ∈ l, R x y := by
  induction h with
  | nil => exact fun y hy => absurd hy List.not_mem_nil
  | cons hxy _ ih =>
    intro z hz
    rcases List.mem_cons.1 hz with rfl | hz
    · exact ⟨_, List.mem_cons_self, hxy⟩
    · obtain ⟨x, hx, hr⟩ := ih z hz
      exact ⟨x, List.mem_cons_of_mem _ hx, hr⟩

theorem exists_right_of_forall₂ {α β : Type} {R : α → β → Prop} {l : List α} {m : List β}
    (h : List.Forall₂ R l m) : ∀ x ∈ l, ∃ y ∈ m, R x y :=
  exists_left_of_forall₂ (R := fun y x => R x y) h.flip

theorem restate_of_display {p : WrittenFact}
    (h : ∀ key, keyOf upper env codeMap p = some key → ∃ k v, key = .display k v)
    (f : OrderFact) : restate upper env codeMap p f = f := by
  refine restate_of_not_hits p f (Bool.eq_false_iff.2 fun hh => ?_)
  obtain ⟨key, hkey, hne, -⟩ := (hits_iff p f).1 hh
  obtain ⟨k, v, rfl⟩ := h key hkey
  exact hne k v rfl

theorem restate_of_not_has {p : WrittenFact} {key : RowKey}
    (hkey : keyOf upper env codeMap p = some key) {f : OrderFact} (h : ¬ Has key f) :
    restate upper env codeMap p f = f := by
  refine restate_of_not_hits p f (Bool.eq_false_iff.2 fun hh => ?_)
  obtain ⟨key', hkey', -, hhas⟩ := (hits_iff p f).1 hh
  exact h (Option.some.inj (hkey.symm.trans hkey') ▸ hhas)

theorem restate_of_displayed (p : WrittenFact) {f : OrderFact} (hf : Tidy f)
    {d : DisplayKind × Text} (hd : displayed f = some d) : restate upper env codeMap p f = f := by
  refine restate_of_not_hits p f (Bool.eq_false_iff.2 fun hh => ?_)
  rcases kinds_of_hits hf hh with ⟨i, j, hi, -⟩ | ⟨hi, -⟩
  · simp [displayed, hi] at hd
  · simp [displayed, hi] at hd

theorem displayed_of_has {f : OrderFact} (hf : Tidy f) {key : RowKey}
    (hkey : ∀ k v, key ≠ .display k v) (h : Has key f) : displayed f = none := by
  unfold displayed
  cases key with
  | number n =>
    obtain ⟨k, hk⟩ := hf.kind_of_number h
    rw [hk]
  | barcode b => rw [hf.kind_of_barcode h]
  | display k v => exact absurd rfl (hkey k v)

theorem displayOf_of_key {p : WrittenFact} {key : RowKey}
    (hkey : keyOf upper env codeMap p = some key) (hne : ∀ k v, key ≠ .display k v) :
    displayOf upper env codeMap p = none := by
  unfold displayOf
  rw [hkey]
  cases key with
  | display k v => exact absurd rfl (hne k v)
  | number n => rfl
  | barcode b => rfl

theorem filterMap_concat {α β : Type} (g : α → Option β) (l : List α) (x : α) :
    (l ++ [x]).filterMap g = l.filterMap g ++ (g x).toList := by
  rw [List.filterMap_append]
  cases h : g x <;> simp [h]

theorem restateAll_concat (ps : List WrittenFact) (p : WrittenFact) (f : OrderFact) :
    restateAll upper env codeMap (ps ++ [p]) f =
      restate upper env codeMap p (restateAll upper env codeMap ps f) := by
  simp [restateAll, List.foldl_append]

theorem stated_mono {facts' : List OrderFact} {ids : List Uuid} {keys : List RowKey}
    (h : List.Forall₂ (fun id key => ∃ f ∈ facts, f.id = id ∧ Has key f) ids keys)
    (hkeep : ∀ f ∈ facts, ∃ g ∈ facts', g.id = f.id ∧ ∀ key, Has key f → Has key g) :
    List.Forall₂ (fun id key => ∃ f ∈ facts', f.id = id ∧ Has key f) ids keys := by
  refine h.imp fun id key ⟨f, hf, hid, hhas⟩ => ?_
  obtain ⟨g, hg, hgid, hkeys⟩ := hkeep f hf
  exact ⟨g, hg, hgid.trans hid, hkeys key hhas⟩

theorem stated_add {ids : List Uuid} {keys : List RowKey}
    (h : List.Forall₂ (fun id key => ∃ f ∈ facts, f.id = id ∧ Has key f) ids.eraseDups
      keys.eraseDups) {id : Uuid} {key : RowKey} (hnew : ∃ f ∈ facts, f.id = id ∧ Has key f)
    (hsame : key ∈ keys ↔ id ∈ ids) :
    List.Forall₂ (fun id key => ∃ f ∈ facts, f.id = id ∧ Has key f) (ids ++ [id]).eraseDups
      (keys ++ [key]).eraseDups := by
  by_cases hmem : key ∈ keys
  · rw [eraseDups_concat_of_mem hmem, eraseDups_concat_of_mem (hsame.1 hmem)]
    exact h
  · rw [eraseDups_concat_of_not_mem hmem,
      eraseDups_concat_of_not_mem fun hid => hmem (hsame.2 hid)]
    exact List.rel_append h (.cons hnew .nil)

theorem displayOf_eq_some {p : WrittenFact} {d : DisplayKind × Text} :
    displayOf upper env codeMap p = some d ↔
      keyOf upper env codeMap p = some (.display d.1 d.2) := by
  unfold displayOf
  cases keyOf upper env codeMap p with
  | none => simp
  | some key => cases key <;> simp [Prod.ext_iff]

theorem mem_displays_iff {ps : List WrittenFact} {k : DisplayKind} {v : Text} :
    (k, v) ∈ ps.filterMap (displayOf upper env codeMap) ↔
      RowKey.display k v ∈ ps.filterMap (keyOf upper env codeMap) := by
  rw [List.mem_filterMap, List.mem_filterMap]
  exact exists_congr fun p => and_congr_right fun _ => displayOf_eq_some

theorem progress_start {s : Store} (hs : WellFormed s) :
    Progress upper env codeMap s.facts [] ⟨s, [], []⟩ where
  wellFormed := hs
  rows := by
    refine ⟨[], ?_, ?_, ?_, rfl, ?_⟩
    · rw [List.append_nil]
      exact (List.map_id' s.facts).symm
    · exact fun f hf => absurd hf List.not_mem_nil
    · exact fun f hf => absurd hf List.not_mem_nil
    · exact fun f hf => absurd hf List.not_mem_nil
  seen := rfl
  stated := .nil

section
variable {start : List OrderFact} {ps : List WrittenFact} {w : Writing}

theorem keys_concat {p : WrittenFact} {f : OrderFact}
    (h : ∃ key ∈ ps.filterMap (keyOf upper env codeMap), Has key f) :
    ∃ key ∈ (ps ++ [p]).filterMap (keyOf upper env codeMap), Has key f := by
  obtain ⟨key, hkey, hhas⟩ := h
  refine ⟨key, ?_, hhas⟩
  rw [List.filterMap_append]
  exact List.mem_append_left _ hkey

/-- A fact without a key, or shown before, changes nothing. -/
theorem progress_skip (h : Progress upper env codeMap start ps w) {p : WrittenFact}
    (hskip : ∀ key, keyOf upper env codeMap p = some key →
      ∃ k v, key = .display k v ∧ (k, v) ∈ w.seenDisplay) :
    Progress upper env codeMap start (ps ++ [p]) w := by
  have hid := restate_of_display fun key hkey => by
    obtain ⟨k, v, heq, -⟩ := hskip key hkey
    exact ⟨k, v, heq⟩
  obtain ⟨added, hrows, hadded⟩ := h.rows
  have hsame : ((ps ++ [p]).filterMap (displayOf upper env codeMap)).eraseDups =
        (ps.filterMap (displayOf upper env codeMap)).eraseDups ∧
      ((ps ++ [p]).filterMap (keyOf upper env codeMap)).eraseDups =
        (ps.filterMap (keyOf upper env codeMap)).eraseDups := by
    rw [filterMap_concat, filterMap_concat]
    cases hkey : keyOf upper env codeMap p with
    | none => simp [displayOf, hkey]
    | some key =>
      obtain ⟨k, v, rfl, hmem⟩ := hskip key hkey
      rw [h.seen, List.mem_eraseDups] at hmem
      have hdisp : displayOf upper env codeMap p = some (k, v) := by rw [displayOf, hkey]
      rw [hdisp]
      exact ⟨eraseDups_concat_of_mem hmem, eraseDups_concat_of_mem (mem_displays_iff.1 hmem)⟩
  refine ⟨h.wellFormed, ⟨added, ?_, hadded.source, ?_, ?_, ?_⟩, ?_, ?_⟩
  · rw [hrows]
    refine congrArg (· ++ added) (List.map_congr_left fun f _ => ?_)
    rw [restateAll_concat, hid]
  · exact fun f hf => keys_concat (hadded.keys f hf)
  · rw [hadded.displays, hsame.1]
  · intro f hf d hd
    obtain ⟨q, hq, hrest⟩ := hadded.labels f hf d hd
    exact ⟨q, List.mem_append_left _ hq, hrest⟩
  · rw [h.seen, hsame.1]
  · rw [hsame.2]
    exact h.stated

/-- A fact whose row is there restates it in place. -/
theorem progress_restate (h : Progress upper env codeMap start ps w) {p : WrittenFact}
    {key : RowKey} {held : OrderFact} (hkey : keyOf upper env codeMap p = some key)
    (hne : ∀ k v, key ≠ .display k v) (hheld : held ∈ w.store.facts) (hhas : Has key held) :
    Progress upper env codeMap start (ps ++ [p])
      { w with
        store := { w.store with facts := w.store.facts.map (restate upper env codeMap p) }
        stated := w.stated ++ [held.id] } := by
  obtain ⟨added, hrows, hadded⟩ := h.rows
  have htidy := h.wellFormed.tidy
  have haddedTidy : ∀ f ∈ added, Tidy f := fun f hf =>
    htidy f (hrows ▸ List.mem_append_right _ hf)
  have hdisp := displayOf_of_key hkey hne
  have hdisplays : (ps ++ [p]).filterMap (displayOf upper env codeMap) =
      ps.filterMap (displayOf upper env codeMap) := by
    rw [filterMap_concat, hdisp, Option.toList_none, List.append_nil]
  refine ⟨?_, ⟨added.map (restate upper env codeMap p), ?_, ?_, ?_, ?_, ?_⟩, ?_, ?_⟩
  · exact h.wellFormed.rewrite (restate_id p) (restate_valueNorm p) (restate_barcode p)
      fun f hf => (restate_kind _ _ _ p hf).1
  · rw [hrows, List.map_append, List.map_map]
    refine congrArg (· ++ _) (List.map_congr_left fun f _ => ?_)
    rw [restateAll_concat, Function.comp_apply]
  · intro f hf
    obtain ⟨f₀, hf₀, rfl⟩ := List.mem_map.1 hf
    exact restate_source p (hadded.source f₀ hf₀)
  · intro f hf
    obtain ⟨f₀, hf₀, rfl⟩ := List.mem_map.1 hf
    obtain ⟨key', hkey', hhas'⟩ := hadded.keys f₀ hf₀
    exact keys_concat ⟨key', hkey', has_restate p (haddedTidy f₀ hf₀) hhas'⟩
  · rw [hdisplays, ← hadded.displays, List.filterMap_map]
    refine List.filterMap_congr fun f hf => ?_
    exact displayed_restate _ _ _ p (haddedTidy f hf)
  · intro f hf d hd
    obtain ⟨f₀, hf₀, rfl⟩ := List.mem_map.1 hf
    rw [displayed_restate _ _ _ p (haddedTidy f₀ hf₀)] at hd
    rw [restate_of_displayed p (haddedTidy f₀ hf₀) hd]
    obtain ⟨q, hq, hrest⟩ := hadded.labels f₀ hf₀ d hd
    exact ⟨q, List.mem_append_left _ hq, hrest⟩
  · rw [hdisplays]
    exact h.seen
  · rw [filterMap_concat, hkey, Option.toList_some]
    refine stated_add (stated_mono h.stated fun f hf => ?_) ?_ ?_
    · exact ⟨_, List.mem_map_of_mem hf, restate_id p f, fun key => has_restate p (htidy f hf)⟩
    · exact ⟨_, List.mem_map_of_mem hheld, restate_id p held, has_restate p (htidy held hheld) hhas⟩
    · -- A row has one number or barcode, and one row has it.
      constructor
      · intro hmem
        obtain ⟨id, hid, f, hf, hfid, hfhas⟩ :=
          exists_left_of_forall₂ h.stated key (List.mem_eraseDups.2 hmem)
        have hsame := h.wellFormed.has_inj hf hheld hne hfhas hhas
        rw [← hsame, hfid]
        exact List.mem_eraseDups.1 hid
      · intro hmem
        obtain ⟨key', hkey', f, hf, hfid, hfhas⟩ :=
          exists_right_of_forall₂ h.stated held.id (List.mem_eraseDups.2 hmem)
        have hsame : f = held := List.inj_on_of_nodup_map h.wellFormed.ids hf hheld hfid
        rw [has_unique (htidy held hheld) hhas (hsame ▸ hfhas)]
        exact List.mem_eraseDups.1 hkey'

/-- A fact whose row is not there yet adds one. -/
theorem progress_add (h : Progress upper env codeMap start ps w) {p : WrittenFact} {key : RowKey}
    {new : OrderFact} {seen : List (DisplayKind × Text)}
    (hkey : keyOf upper env codeMap p = some key)
    (hfresh : key ∉ ps.filterMap (keyOf upper env codeMap))
    (hnone : (∀ k v, key ≠ .display k v) → ∀ f ∈ w.store.facts, ¬ Has key f)
    (hid : new.id = w.store.nextId) (htidy : Tidy new) (hhas : Has key new)
    (hsource : new.source = .ai)
    (hlabel : ∀ k v, key = .display k v → new.label = p.label)
    (hseen : seen = w.seenDisplay ++ (displayed new).toList) :
    Progress upper env codeMap start (ps ++ [p])
      { store := ⟨w.store.facts ++ [new], w.store.nextId + 1⟩
        stated := w.stated ++ [new.id]
        seenDisplay := seen } := by
  obtain ⟨added, hrows, hadded⟩ := h.rows
  have hsame : ∀ f ∈ w.store.facts, restate upper env codeMap p f = f := by
    intro f hf
    by_cases hdisp : ∃ k v, key = .display k v
    · obtain ⟨k, v, rfl⟩ := hdisp
      exact restate_of_display (fun key' hk => ⟨k, v, Option.some.inj (hk.symm.trans hkey)⟩) f
    · refine restate_of_not_has hkey (hnone (fun k v heq => hdisp ⟨k, v, heq⟩) f hf)
  have hdisp : displayOf upper env codeMap p = displayed new := by
    cases key with
    | display k v =>
      rw [displayOf, hkey, displayed, hhas.1]
      exact congrArg (fun v => some (k, v)) hhas.2.1.symm
    | number n | barcode b =>
      rw [displayOf_of_key hkey (by simp), displayed_of_has htidy (by simp) hhas]
  have hdisplays : ((ps ++ [p]).filterMap (displayOf upper env codeMap)).eraseDups =
      (ps.filterMap (displayOf upper env codeMap)).eraseDups ++ (displayed new).toList := by
    rw [filterMap_concat, hdisp]
    cases hd : displayed new with
    | none => simp
    | some d =>
      rw [Option.toList_some]
      refine eraseDups_concat_of_not_mem fun hmem => hfresh ?_
      obtain ⟨k, v⟩ := d
      have hk : key = .display k v := by
        rw [hd, displayOf, hkey] at hdisp
        cases key <;> simp_all
      exact hk ▸ mem_displays_iff.1 hmem
  refine ⟨?_, ⟨added ++ [new], ?_, ?_, ?_, ?_, ?_⟩, ?_, ?_⟩
  · refine h.wellFormed.add hid htidy (fun n hn f hf hfn => ?_) fun b hb f hf hfb => ?_
    · have hk := has_unique htidy hhas (l := .number n) hn
      exact hnone (by simp [hk]) f hf (hk ▸ hfn)
    · have hk := has_unique htidy hhas (l := .barcode b) hb
      exact hnone (by simp [hk]) f hf (hk ▸ hfb)
  · rw [← List.append_assoc]
    refine congrArg (· ++ [new]) (hrows.trans (congrArg (· ++ added) ?_))
    refine List.map_congr_left fun f hf => ?_
    rw [restateAll_concat, hsame _ (hrows ▸ List.mem_append_left _ (List.mem_map_of_mem hf))]
  · intro f hf
    rcases List.mem_append.1 hf with hf | hf
    · exact hadded.source f hf
    · exact List.mem_singleton.1 hf ▸ hsource
  · intro f hf
    rcases List.mem_append.1 hf with hf | hf
    · exact keys_concat (hadded.keys f hf)
    · refine ⟨key, ?_, List.mem_singleton.1 hf ▸ hhas⟩
      exact List.mem_filterMap.2 ⟨p, List.mem_append_right _ (List.mem_singleton_self p), hkey⟩
  · rw [hdisplays, filterMap_concat, hadded.displays]
  · intro f hf d hd
    rcases List.mem_append.1 hf with hf | hf
    · obtain ⟨q, hq, hrest⟩ := hadded.labels f hf d hd
      exact ⟨q, List.mem_append_left _ hq, hrest⟩
    · rw [List.mem_singleton.1 hf] at hd ⊢
      refine ⟨p, List.mem_append_right _ (List.mem_singleton_self p), hdisp.trans hd, ?_⟩
      obtain ⟨k, v⟩ := d
      refine hlabel k v ?_
      rw [hd, displayOf, hkey] at hdisp
      cases key <;> simp_all
  · rw [hseen, hdisplays, h.seen]
  · rw [filterMap_concat, hkey, Option.toList_some]
    refine stated_add (stated_mono h.stated fun f hf => ?_) ?_ ?_
    · exact ⟨f, List.mem_append_left _ hf, rfl, fun _ h => h⟩
    · exact ⟨new, List.mem_append_right _ (List.mem_singleton_self new), rfl, hhas⟩
    · refine ⟨fun hmem => absurd hmem hfresh, fun hmem => ?_⟩
      obtain ⟨key', -, f, hf, hfid, -⟩ :=
        exists_right_of_forall₂ h.stated new.id (List.mem_eraseDups.2 hmem)
      have hlt := h.wellFormed.fresh f hf
      rw [hfid, hid] at hlt
      exact absurd hlt (Nat.lt_irrefl _)

variable (upper isDate env codeMap) in
/-- **The step lemma** of the loop. -/
theorem progress_step (h : Progress upper env codeMap start ps w) (p : WrittenFact) :
    Progress upper env codeMap start (ps ++ [p]) (writeFact upper isDate env codeMap w p) := by
  have hwritten := writeFact_cases upper isDate env codeMap w p
  generalize writeFact upper isDate env codeMap w p = w' at hwritten ⊢
  cases hwritten with
  | skip hskip => exact progress_skip h hskip
  | restate hkey hne hheld hhas => exact progress_restate h hkey hne hheld hhas
  | @add key new hkey hne hnone hid htidy hhas hsource =>
    refine progress_add h hkey (fun hmem => ?_) (fun _ => hnone) hid htidy hhas hsource
      (fun k v hk => absurd hk (hne k v)) ?_
    · obtain ⟨id, -, f, hf, -, hfhas⟩ :=
        exists_left_of_forall₂ h.stated key (List.mem_eraseDups.2 hmem)
      exact hnone f hf hfhas
    · rw [displayed_of_has htidy hne hhas, Option.toList_none, List.append_nil]
  | @display k v new hkey hnew hid htidy hhas hlabel =>
    refine progress_add h hkey (fun hmem => hnew ?_) (fun hne => absurd rfl (hne k v)) hid htidy
      hhas hhas.2.2 (fun _ _ _ => hlabel) ?_
    · rw [h.seen, List.mem_eraseDups]
      exact mem_displays_iff.2 hmem
    · have hd : displayed new = some (k, v) := by
        rw [displayed, hhas.1, ← hhas.2.1]
      rw [hd, Option.toList_some]

variable (upper isDate env codeMap) in
/-- **The loop**: what it has come to once every fact of the call is done. -/
theorem progress_writeFacts {s : Store} (hs : WellFormed s) (ps : List WrittenFact) :
    Progress upper env codeMap (s.facts.filter fun f => !replaced f) ps
      (writeFacts upper isDate env codeMap s ps) := by
  have hloop : ∀ (rest done : List WrittenFact) (w : Writing),
      Progress upper env codeMap (s.facts.filter fun f => !replaced f) done w →
      Progress upper env codeMap (s.facts.filter fun f => !replaced f) (done ++ rest)
        (rest.foldl (writeFact upper isDate env codeMap) w) := by
    intro rest
    induction rest with
    | nil =>
      intro done w h
      rwa [List.append_nil]
    | cons p rest ih =>
      intro done w h
      have hnext := ih (done ++ [p]) _ (progress_step upper isDate env codeMap h p)
      rwa [List.append_assoc, List.singleton_append] at hnext
  exact hloop ps [] _ (progress_start (hs.filter fun f => !replaced f))

end

/-! ## The code facts -/

theorem missing_loop (keys : List BarcodeKey) (hkeys : keys.Nodup) (label : BarcodeKey → Text)
    {s : Store} (hs : WellFormed s) (hnone : ∀ key ∈ keys, ∀ f ∈ s.facts, f.barcode ≠ some key) :
    ∃ added, (keys.foldl (fun s key =>
        (upsertCodeFact env s key defaultCodeLabel (label key) .code).1) s).facts =
          s.facts ++ added ∧
      WellFormed (keys.foldl (fun s key =>
        (upsertCodeFact env s key defaultCodeLabel (label key) .code).1) s) ∧
      (∀ f ∈ added, f.kind = .code ∧ f.source = .code) ∧ added.map OrderFact.barcode = keys.map some := by
  induction keys generalizing s with
  | nil =>
    exact ⟨[], (List.append_nil _).symm, hs, fun f hf => absurd hf List.not_mem_nil, rfl⟩
  | cons key keys ih =>
    obtain ⟨hnot, hkeys⟩ := List.nodup_cons.1 hkeys
    obtain ⟨hkey, hrest⟩ := List.forall_mem_cons.1 hnone
    set new := codeRow env s key defaultCodeLabel (label key) .code with hnew
    have hstep : (upsertCodeFact env s key defaultCodeLabel (label key) .code).1 =
        ⟨s.facts ++ [new], s.nextId + 1⟩ := by
      unfold upsertCodeFact
      rcases upsert_cases s (fun f => decide (f.barcode = some key))
        (fun f => { f with label := defaultCodeLabel, value := label key, source := .code })
        new with ⟨held, hheld, hhit, -⟩ | ⟨-, heq⟩
      · exact absurd (of_decide_eq_true hhit) (hkey held hheld)
      · rw [heq]
    have hwf : WellFormed ⟨s.facts ++ [new], s.nextId + 1⟩ := by
      refine hs.add rfl ⟨by simp [hnew, codeRow], by simp [hnew, codeRow]⟩ (fun n hn => ?_)
        fun b hb f hf hfb => ?_
      · simp [hnew, codeRow] at hn
      · have hb' : key = b := by simpa [hnew, codeRow] using hb
        exact hkey f hf (hb' ▸ hfb)
    obtain ⟨added, hfacts, hwf', hkind, hbarcode⟩ := ih hkeys hwf fun k hk f hf => by
      rcases List.mem_append.1 hf with hf | hf
      · exact hrest k hk f hf
      · rw [List.mem_singleton.1 hf]
        simp only [hnew, codeRow, ne_eq, Option.some.injEq]
        rintro rfl
        exact hnot hk
    rw [List.foldl_cons, hstep]
    refine ⟨new :: added, ?_, hwf', ?_, ?_⟩
    · rw [hfacts, List.append_assoc, List.singleton_append]
    · exact List.forall_mem_cons.2 ⟨⟨rfl, rfl⟩, hkind⟩
    · rw [List.map_cons, List.map_cons, hbarcode]
      rfl

theorem mem_missingBarcodes {key : BarcodeKey} :
    key ∈ missingBarcodes env facts ↔ key ∈ env.barcodes.map Prod.fst ∧
      ∀ f ∈ facts, f.kind = .code → f.barcode ≠ some key := by
  unfold missingBarcodes
  rw [List.mem_filter, List.mem_insertionSort, List.mem_eraseDups, Bool.not_eq_true',
    Bool.eq_false_iff, ne_eq, List.any_eq_true]
  refine and_congr_right fun _ => ?_
  simp

theorem nodup_missingBarcodes (facts : List OrderFact) : (missingBarcodes env facts).Nodup := by
  refine List.Nodup.filter _ ?_
  exact (List.perm_insertionSort _ _).nodup_iff.2
    (Computation.eraseDups_nodup (env.barcodes.map Prod.fst))

variable (env) in
/-- **What reconciling does**: the rows whose barcode is gone go, the missing ones come. -/
theorem reconcileCodeFacts_spec {s : Store} (hs : WellFormed s) :
    ∃ added, (reconcileCodeFacts env s).facts = s.facts.filter (fun f => !stale env f) ++ added ∧
      WellFormed (reconcileCodeFacts env s) ∧ (∀ f ∈ added, f.kind = .code ∧ f.source = .code) ∧
      added.map OrderFact.barcode = (missingBarcodes env s.facts).map some := by
  refine missing_loop (missingBarcodes env s.facts) (nodup_missingBarcodes _)
    (fun key => clean ((shownOf env key).getD []) maxValueChars)
    (hs.filter fun f => !stale env f) fun key hkey f hf hbarcode => ?_
  have hmem := (List.mem_filter.1 hf).1
  exact (mem_missingBarcodes.1 hkey).2 f hmem ((hs.tidy f hmem).kind_of_barcode hbarcode) hbarcode

theorem stale_eq_false_iff {f : OrderFact} :
    stale env f = false ↔
      (f.kind = .code → ∃ key ∈ env.barcodes.map Prod.fst, f.barcode = some key) := by
  unfold stale
  cases f.barcode with
  | none => simp
  | some key => simp

variable (env) in
/-- **One code fact for each barcode.** -/
theorem codes_perm {s : Store} (hs : WellFormed s) :
    (((reconcileCodeFacts env s).facts.filter fun f => decide (f.kind = .code)).map
      OrderFact.barcode).Perm ((env.barcodes.map Prod.fst).eraseDups.map some) := by
  obtain ⟨added, hfacts, hwf, hkind, hbarcode⟩ := reconcileCodeFacts_spec env hs
  have hhave : ∀ f ∈ (reconcileCodeFacts env s).facts, f.kind = .code →
      ∃ key ∈ env.barcodes.map Prod.fst, f.barcode = some key := by
    intro f hf hcode
    rw [hfacts, List.mem_append, List.mem_filter, Bool.not_eq_true'] at hf
    rcases hf with ⟨-, hstale⟩ | hf
    · exact stale_eq_false_iff.1 hstale hcode
    · have hmem := List.mem_map_of_mem (f := OrderFact.barcode) hf
      rw [hbarcode, List.mem_map] at hmem
      obtain ⟨key, hkey, heq⟩ := hmem
      exact ⟨key, (mem_missingBarcodes.1 hkey).1, heq.symm⟩
  have hnodup : (((reconcileCodeFacts env s).facts.filter fun f => decide (f.kind = .code)).map
      OrderFact.barcode).Nodup := by
    refine List.Nodup.map_on (fun f hf g hg heq => ?_)
      ((List.Nodup.of_map _ hwf.ids).filter _)
    rw [List.mem_filter, decide_eq_true_eq] at hf hg
    obtain ⟨key, -, hkey⟩ := hhave f hf.1 hf.2
    exact eq_of_filterMap_nodup hwf.barcodes hf.1 hg.1 hkey (heq ▸ hkey)
  refine (List.perm_ext_iff_of_nodup hnodup
    ((Computation.eraseDups_nodup _).map (Option.some_injective _))).2 fun b => ?_
  constructor
  · intro hb
    obtain ⟨f, hf, rfl⟩ := List.mem_map.1 hb
    rw [List.mem_filter, decide_eq_true_eq] at hf
    obtain ⟨key, hmem, hkey⟩ := hhave f hf.1 hf.2
    exact hkey ▸ List.mem_map_of_mem (List.mem_eraseDups.2 hmem)
  · intro hb
    obtain ⟨key, hkey, rfl⟩ := List.mem_map.1 hb
    rw [List.mem_eraseDups] at hkey
    by_cases hheld : ∃ f ∈ s.facts, f.kind = .code ∧ f.barcode = some key
    · obtain ⟨f, hf, hcode, hfb⟩ := hheld
      have hkeep : stale env f = false := stale_eq_false_iff.2 fun _ => ⟨key, hkey, hfb⟩
      refine List.mem_map.2 ⟨f, List.mem_filter.2 ⟨?_, decide_eq_true hcode⟩, hfb⟩
      rw [hfacts]
      exact List.mem_append_left _ (List.mem_filter.2 ⟨hf, by rw [hkeep]; rfl⟩)
    · have hmissing : key ∈ missingBarcodes env s.facts :=
        mem_missingBarcodes.2 ⟨hkey, fun f hf hcode hfb => hheld ⟨f, hf, hcode, hfb⟩⟩
      have hmem : some key ∈ added.map OrderFact.barcode :=
        hbarcode ▸ List.mem_map_of_mem hmissing
      obtain ⟨f, hf, hfb⟩ := List.mem_map.1 hmem
      refine List.mem_map.2 ⟨f, List.mem_filter.2 ⟨?_, decide_eq_true (hkind f hf).1⟩, hfb⟩
      rw [hfacts]
      exact List.mem_append_right _ hf

/-! ## Positions -/

theorem nodup_ordering {s : Store} (hs : WellFormed s) (stated : List Uuid) :
    (ordering s.facts stated).Nodup := by
  refine List.nodup_append.2 ⟨Computation.eraseDups_nodup stated, ?_, ?_⟩
  · have hperm := ((List.perm_insertionSort restBefore
      (s.facts.filter fun f => decide (f.id ∉ stated))).map OrderFact.id)
    exact hperm.nodup_iff.2 (hs.ids.sublist (List.filter_sublist.map OrderFact.id))
  · intro a ha b hb heq
    obtain ⟨f, hf, hfb⟩ := List.mem_map.1 hb
    rw [List.mem_insertionSort, List.mem_filter, decide_eq_true_eq] at hf
    rw [hfb, ← heq] at hf
    exact hf.2 (List.mem_eraseDups.1 ha)

theorem mem_ordering {s : Store} (hstated : ∀ id ∈ stated, ∃ f ∈ s.facts, f.id = id) (id : Uuid) :
    id ∈ ordering s.facts stated ↔ id ∈ s.facts.map OrderFact.id := by
  unfold ordering
  rw [List.mem_append, List.mem_eraseDups, List.mem_map, List.mem_map]
  constructor
  · rintro (hid | ⟨f, hf, hfid⟩)
    · exact hstated id hid
    · rw [List.mem_insertionSort, List.mem_filter] at hf
      exact ⟨f, hf.1, hfid⟩
  · rintro ⟨f, hf, hfid⟩
    by_cases hid : id ∈ stated
    · exact .inl hid
    · refine .inr ⟨f, ?_, hfid⟩
      rw [List.mem_insertionSort, List.mem_filter, decide_eq_true_eq, hfid]
      exact ⟨hf, hid⟩

def placedAt (order : List Uuid) (f : OrderFact) : OrderFact :=
  { f with position := order.idxOf f.id }

theorem orderFacts_eq {s : Store} (hstated : ∀ id ∈ stated, ∃ f ∈ s.facts, f.id = id) :
    (orderFacts s stated).facts = s.facts.map (placedAt (ordering s.facts stated)) := by
  refine List.map_congr_left fun f hf => ?_
  rw [if_pos ((mem_ordering hstated f.id).2 (List.mem_map_of_mem hf))]
  rfl

/-- **Positions**: a permutation of those of a list, the stated rows first. -/
theorem positions_perm {s : Store} (hs : WellFormed s)
    (hstated : ∀ id ∈ stated, ∃ f ∈ s.facts, f.id = id) :
    ((orderFacts s stated).facts.map OrderFact.position).Perm
      (List.range (orderFacts s stated).facts.length) := by
  have hnodup := nodup_ordering hs stated
  have hperm : (s.facts.map OrderFact.id).Perm (ordering s.facts stated) :=
    (List.perm_ext_iff_of_nodup hs.ids hnodup).2 fun id => (mem_ordering hstated id).symm
  have hrange : (ordering s.facts stated).map (fun id => (ordering s.facts stated).idxOf id) =
      List.range (ordering s.facts stated).length := by
    refine List.ext_getElem (by simp) fun i h h' => ?_
    rw [List.getElem_map, List.getElem_range]
    exact hnodup.idxOf_getElem i (by simpa using h)
  have hlen := hperm.length_eq
  rw [List.length_map] at hlen
  rw [orderFacts_eq hstated, List.map_map, List.length_map, hlen, ← hrange]
  have h := hperm.map fun id => (ordering s.facts stated).idxOf id
  rwa [List.map_map] at h

theorem idxOf_stated {i : ℕ} {id : Uuid}
    (h : stated.eraseDups[i]? = some id) : (ordering facts stated).idxOf id = i := by
  obtain ⟨hi, heq⟩ := List.getElem?_eq_some_iff.1 h
  have hmem : id ∈ stated.eraseDups := heq ▸ List.getElem_mem hi
  unfold ordering
  rw [List.idxOf_append_of_mem hmem, ← heq]
  exact (Computation.eraseDups_nodup stated).idxOf_getElem i hi

/-! ## What is left of a row -/

theorem restateAll_keeps {P : OrderFact → Prop}
    (hP : ∀ p g, P g → P (restate upper env codeMap p g)) (ps : List WrittenFact) {f : OrderFact}
    (h : P f) : P (restateAll upper env codeMap ps f) := by
  induction ps generalizing f with
  | nil => exact h
  | cons p ps ih => exact ih (hP p f h)

theorem restateAll_of_not_hits {ps : List WrittenFact} {f : OrderFact}
    (h : ∀ p ∈ ps, hits upper env codeMap p f = false) :
    restateAll upper env codeMap ps f = f := by
  induction ps with
  | nil => rfl
  | cons p ps ih =>
    obtain ⟨hp, hps⟩ := List.forall_mem_cons.1 h
    have hrest := ih hps
    unfold restateAll at hrest ⊢
    rw [List.foldl_cons, restate_of_not_hits p f hp, hrest]

theorem restate_position (p : WrittenFact) (f : OrderFact) :
    (restate upper env codeMap p f).position = f.position := by
  unfold restate
  split
  · unfold rewritten
    cases p.kind <;> rfl
  · rfl

theorem restate_value (p : WrittenFact) {f : OrderFact} (hf : Tidy f)
    (hk : ∃ k, f.kind = .identifier k) : (restate upper env codeMap p f).value = f.value := by
  by_cases hh : hits upper env codeMap p f = true
  · rcases kinds_of_hits hf hh with ⟨i, j, -, hj⟩ | ⟨hi, -⟩
    · rw [restate, if_pos hh, rewritten, hj]
    · obtain ⟨k, hk⟩ := hk
      exact absurd (hk.symm.trans hi) (by simp)
  · rw [restate_of_not_hits p f (Bool.eq_false_iff.2 hh)]

variable (upper env codeMap) in
theorem restateAll_identifier (ps : List WrittenFact) {f : OrderFact} (hf : Tidy f)
    (hk : ∃ k, f.kind = .identifier k) :
    (restateAll upper env codeMap ps f).id = f.id ∧
      (∃ k, (restateAll upper env codeMap ps f).kind = .identifier k) ∧
      (restateAll upper env codeMap ps f).value = f.value ∧
      (restateAll upper env codeMap ps f).valueNorm = f.valueNorm := by
  have hkeeps : Tidy (restateAll upper env codeMap ps f) ∧
      (restateAll upper env codeMap ps f).id = f.id ∧
      (∃ k, (restateAll upper env codeMap ps f).kind = .identifier k) ∧
      (restateAll upper env codeMap ps f).value = f.value ∧
      (restateAll upper env codeMap ps f).valueNorm = f.valueNorm := by
    refine restateAll_keeps (P := fun g => Tidy g ∧ g.id = f.id ∧ (∃ k, g.kind = .identifier k) ∧
      g.value = f.value ∧ g.valueNorm = f.valueNorm) ?_ ps ⟨hf, rfl, hk, rfl, rfl⟩
    rintro p g ⟨hg, hid, hgk, hvalue, hnorm⟩
    obtain ⟨htidy, hkind, -⟩ := restate_kind upper env codeMap p hg
    exact ⟨htidy, (restate_id p g).trans hid, hkind.2 hgk, (restate_value p hg hgk).trans hvalue,
      (restate_valueNorm p g).trans hnorm⟩
  exact hkeeps.2

variable (upper env codeMap) in
theorem restateAll_position (ps : List WrittenFact) (f : OrderFact) :
    (restateAll upper env codeMap ps f).position = f.position :=
  restateAll_keeps (P := fun g => g.position = f.position)
    (fun p g h => (restate_position p g).trans h) ps rfl

theorem restateAll_id (ps : List WrittenFact) (f : OrderFact) :
    (restateAll upper env codeMap ps f).id = f.id :=
  restateAll_keeps (P := fun g => g.id = f.id) (fun p g h => (restate_id p g).trans h) ps rfl

theorem has_restateAll (ps : List WrittenFact) {f : OrderFact} (hf : Tidy f) {key : RowKey}
    (h : Has key f) : Has key (restateAll upper env codeMap ps f) := by
  have hkeeps : Tidy (restateAll upper env codeMap ps f) ∧
      Has key (restateAll upper env codeMap ps f) :=
    restateAll_keeps (P := fun g => Tidy g ∧ Has key g)
      (fun p g hg => ⟨(restate_kind _ _ _ p hg.1).1, has_restate p hg.1 hg.2⟩) ps ⟨hf, h⟩
  exact hkeeps.2

variable (upper env codeMap) in
theorem replaced_restateAll (ps : List WrittenFact) {f : OrderFact} (hf : Tidy f)
    (h : replaced f = false) : replaced (restateAll upper env codeMap ps f) = false := by
  by_cases hd : ∃ d, f.kind = .display d
  · have hnone : ∀ p ∈ ps, hits upper env codeMap p f = false := by
      intro p _
      refine Bool.eq_false_iff.2 fun hh => ?_
      obtain ⟨d, hd⟩ := hd
      rcases kinds_of_hits hf hh with ⟨i, j, hi, -⟩ | ⟨hi, -⟩
      · exact absurd (hd.symm.trans hi) (by simp)
      · exact absurd (hd.symm.trans hi) (by simp)
    rw [restateAll_of_not_hits hnone]
    exact h
  · have hkeeps : Tidy (restateAll upper env codeMap ps f) ∧
        ∀ d, (restateAll upper env codeMap ps f).kind ≠ .display d := by
      refine restateAll_keeps (P := fun g => Tidy g ∧ ∀ d, g.kind ≠ .display d) ?_ ps
        ⟨hf, fun d h => hd ⟨d, h⟩⟩
      rintro p g ⟨hg, hgd⟩
      obtain ⟨htidy, -, -, hdisp⟩ :=
        restate_kind upper env codeMap p hg
      exact ⟨htidy, fun d h => hgd d ((hdisp d).1 h)⟩
    unfold replaced
    cases hk : (restateAll upper env codeMap ps f).kind with
    | display d => exact absurd hk (hkeeps.2 d)
    | identifier k => rfl
    | code => rfl

/-! ## The rows of the user -/

def States (p : WrittenFact) (f : OrderFact) : Prop :=
  ∃ kind, p.kind = .identifier kind ∧ f.kind = .identifier kind ∧
    f.label = shownLabel kind p.label ∧ f.carrier = shownCarrier kind p

/-- No fact of the call touches the row: its barcode is there and not referred to, and the last
fact of its number states it as it is. -/
structure Untouched (upper : Char → Text) (env : Surroundings)
    (codeMap : List (Text × BarcodeKey)) (ps : List WrittenFact) (f : OrderFact) : Prop where
  barcodeThere : stale env f = false
  barcode : ∀ b, f.barcode = some b → ∀ p ∈ ps, keyOf upper env codeMap p ≠ some (.barcode b)
  number : ∀ n, f.valueNorm = some n → ∀ p,
    (ps.filter fun p => decide (keyOf upper env codeMap p = some (.number n))).getLast? = some p →
      States p f

theorem restateAll_number {n : Text} {f : OrderFact} (hf : Tidy f) (hn : f.valueNorm = some n)
    (ps : List WrittenFact) :
    restateAll upper env codeMap ps f =
      ((ps.filter fun p => decide (keyOf upper env codeMap p = some (.number n))).getLast?).elim f
        fun p => rewritten p f := by
  induction ps using List.reverseRecOn with
  | nil => rfl
  | append_singleton ps p ih =>
    rw [restateAll_concat, List.filter_append]
    have hnorm : (restateAll upper env codeMap ps f).valueNorm = some n :=
      restateAll_keeps (P := fun g => g.valueNorm = some n)
        (fun p g h => (restate_valueNorm p g).trans h) ps hn
    by_cases hkey : keyOf upper env codeMap p = some (.number n)
    · have hhit : hits upper env codeMap p (restateAll upper env codeMap ps f) = true :=
        (hits_iff p _).2 ⟨.number n, hkey, by simp, hnorm⟩
      obtain ⟨kind, hkind, -⟩ := keyOf_cases hkey
      have hone : ([p].filter fun p =>
          decide (keyOf upper env codeMap p = some (.number n))) = [p] := by simp [hkey]
      rw [restate, hhit, if_pos rfl, hone, List.getLast?_append_of_ne_nil _ (by simp),
        List.getLast?_singleton, Option.elim_some, ih]
      -- Two restatements of an identifier come to the last one.
      cases hlast : (ps.filter fun p =>
          decide (keyOf upper env codeMap p = some (.number n))).getLast? with
      | none => rfl
      | some q =>
        have hq := List.mem_of_getLast? hlast
        rw [List.mem_filter, decide_eq_true_eq] at hq
        obtain ⟨kind', hkind', -⟩ := keyOf_cases hq.2
        rw [Option.elim_some]
        simp [rewritten, hkind, hkind']
    · have hhit : hits upper env codeMap p (restateAll upper env codeMap ps f) = false := by
        refine Bool.eq_false_iff.2 fun hh => ?_
        obtain ⟨key, hk, -, hhas⟩ := (hits_iff p _).1 hh
        have htidy : Tidy (restateAll upper env codeMap ps f) :=
          restateAll_keeps (P := Tidy) (fun p g hg => (restate_kind _ _ _ p hg).1) ps hf
        exact hkey (has_unique htidy hhas (l := .number n) hnorm ▸ hk)
      have hnone : ([p].filter fun p =>
          decide (keyOf upper env codeMap p = some (.number n))) = [] := by simp [hkey]
      rw [restate_of_not_hits p _ hhit, hnone, List.append_nil, ih]

theorem rewritten_eq_iff {p : WrittenFact} (hp : ∃ kind, p.kind = .identifier kind)
    (f : OrderFact) : rewritten p f = f ↔ States p f := by
  obtain ⟨kind, hkind⟩ := hp
  have heq : rewritten p f = { f with
      kind := .identifier kind
      label := shownLabel kind p.label
      carrier := shownCarrier kind p } := by
    rw [rewritten, hkind]
  rw [heq]
  constructor
  · intro h
    refine ⟨kind, hkind, ?_, ?_, ?_⟩
    · exact (congrArg OrderFact.kind h).symm
    · exact (congrArg OrderFact.label h).symm
    · exact (congrArg OrderFact.carrier h).symm
  · rintro ⟨kind', hkind', hk, hl, hc⟩
    obtain rfl : kind = kind' := by simpa using hkind.symm.trans hkind'
    rw [← hk, ← hl, ← hc]

/-- **What the call makes of a row of the user**: nothing, exactly where it is untouched. -/
theorem restateAll_eq_iff (ps : List WrittenFact) {f : OrderFact} (hf : Tidy f)
    (huser : f.source = .user) :
    (restateAll upper env codeMap ps f = f ∧ stale env f = false) ↔
      Untouched upper env codeMap ps f := by
  constructor
  · rintro ⟨heq, hstale⟩
    refine ⟨hstale, fun b hb p hp hkey => ?_, fun n hn p hlast => ?_⟩
    · -- A referred code fact is an `ai` one from then on.
      obtain ⟨before, after, rfl⟩ := List.append_of_mem hp
      have hbarcode : (restateAll upper env codeMap before f).barcode = some b :=
        restateAll_keeps (P := fun g => g.barcode = some b)
          (fun p g h => (restate_barcode p g).trans h) before hb
      have hhit : hits upper env codeMap p (restateAll upper env codeMap before f) = true :=
        (hits_iff p _).2 ⟨.barcode b, hkey, by simp, hbarcode⟩
      have hstep : (restate upper env codeMap p
          (restateAll upper env codeMap before f)).source = .ai := by
        rw [restate, hhit, if_pos rfl, rewritten, (keyOf_cases hkey).1]
      have hai : (restateAll upper env codeMap (before ++ p :: after) f).source = .ai := by
        have hsplit : restateAll upper env codeMap (before ++ p :: after) f =
            restateAll upper env codeMap after
              (restate upper env codeMap p (restateAll upper env codeMap before f)) := by
          simp [restateAll]
        rw [hsplit]
        exact restateAll_keeps (P := fun g => g.source = .ai) (fun p g h => restate_source p h)
          after hstep
      rw [heq, huser] at hai
      exact absurd hai (by decide)
    · have hmem := List.mem_of_getLast? hlast
      rw [List.mem_filter, decide_eq_true_eq] at hmem
      obtain ⟨kind, hkind, -⟩ := keyOf_cases hmem.2
      rw [restateAll_number hf hn, hlast] at heq
      exact (rewritten_eq_iff ⟨kind, hkind⟩ f).1 heq
  · intro h
    refine ⟨?_, h.barcodeThere⟩
    by_cases hn : ∃ n, f.valueNorm = some n
    · obtain ⟨n, hn⟩ := hn
      rw [restateAll_number hf hn]
      cases hlast : (ps.filter fun p =>
          decide (keyOf upper env codeMap p = some (.number n))).getLast? with
      | none => rfl
      | some p =>
        have hstates := h.number n hn p hlast
        obtain ⟨kind, hkind, -⟩ := id hstates
        exact (rewritten_eq_iff ⟨kind, hkind⟩ f).2 hstates
    · refine restateAll_of_not_hits fun p hp => Bool.eq_false_iff.2 fun hh => ?_
      obtain ⟨key, hkey, hne, hhas⟩ := (hits_iff p f).1 hh
      cases key with
      | number n => exact hn ⟨n, hhas⟩
      | barcode b => exact h.barcode b hhas p hp hkey
      | display k v => exact hne k v rfl

/-! ## The whole rewrite -/

def SameRow (f g : OrderFact) : Prop := { g with position := f.position } = f

/-- **What a rewrite keeps**, from the rows `s` to the rows `t`. -/
structure Kept (upper : Char → Text) (env : Surroundings) (codeMap : List (Text × BarcodeKey))
    (s : Store) (ps : List WrittenFact) (t : Store) : Prop where
  identifiers : ∀ f ∈ s.facts, (∃ k, f.kind = .identifier k) → ∃ g ∈ t.facts, g.id = f.id ∧
    (∃ k, g.kind = .identifier k) ∧ g.value = f.value ∧ g.valueNorm = f.valueNorm
  codes : ((t.facts.filter fun f => decide (f.kind = .code)).map OrderFact.barcode).Perm
    ((env.barcodes.map Prod.fst).eraseDups.map some)
  displays : ((t.facts.filter replaced).filterMap displayed).Perm
    (ps.filterMap (displayOf upper env codeMap)).eraseDups
  labels : ∀ g ∈ t.facts, replaced g = true → g.label ≠ []
  positions : (t.facts.map OrderFact.position).Perm (List.range t.facts.length)
  stated : ∃ rows, List.Forall₂ (fun g key => g ∈ t.facts ∧ Has key g) rows
      (ps.filterMap (keyOf upper env codeMap)).eraseDups ∧
    rows.map OrderFact.position = List.range rows.length ∧ rows.length ≤ maxFacts ∧
    ∀ g ∈ t.facts, g ∉ rows → (∃ f ∈ s.facts, SameRow f g) ∨ g.source = .code

theorem keyOf_kept {ps : List WrittenFact} {key : RowKey}
    (hkey : key ∈ ps.filterMap (keyOf upper env codeMap)) {f : OrderFact} (hf : Tidy f)
    (h : Has key f) : stale env f = false := by
  obtain ⟨p, -, hp⟩ := List.mem_filterMap.1 hkey
  refine stale_eq_false_iff.2 fun hcode => ?_
  cases key with
  | number n =>
    obtain ⟨k, hk⟩ := hf.kind_of_number h
    exact absurd (hk.symm.trans hcode) (by simp)
  | barcode b => exact ⟨b, mem_barcodes_of_storedBarcode (keyOf_cases hp).2, h⟩
  | display k v => exact absurd (h.1.symm.trans hcode) (by simp)

theorem exists_rows {ids : List Uuid} {keys : List RowKey}
    (h : List.Forall₂ (fun id key => ∃ f ∈ facts, f.id = id ∧ Has key f) ids keys) :
    ∃ rows, List.Forall₂ (fun f key => f ∈ facts ∧ Has key f) rows keys ∧
      rows.map OrderFact.id = ids := by
  induction h with
  | nil => exact ⟨[], .nil, rfl⟩
  | cons hrow _ ih =>
    obtain ⟨f, hf, hid, hhas⟩ := hrow
    obtain ⟨rows, hrows, hids⟩ := ih
    exact ⟨f :: rows, .cons ⟨hf, hhas⟩ hrows, by rw [List.map_cons, hid, hids]⟩

section
variable {s : Store} {ps : List WrittenFact} {w : Writing}

theorem Progress.has_inj (h : Progress upper env codeMap (s.facts.filter fun f => !replaced f) ps w)
    (hs : WellFormed s) {key : RowKey} {f g : OrderFact} (hf : f ∈ w.store.facts)
    (hg : g ∈ w.store.facts) (hkf : Has key f) (hkg : Has key g) : f = g := by
  cases key with
  | number n | barcode b => exact h.wellFormed.has_inj hf hg (by simp) hkf hkg
  | display k v =>
    obtain ⟨added, hrows, hadded⟩ := h.rows
    have hmem : ∀ x ∈ w.store.facts, Has (.display k v) x → x ∈ added := by
      intro x hx hkx
      rw [hrows, List.mem_append] at hx
      refine hx.resolve_left fun hx => ?_
      obtain ⟨x₀, hx₀, rfl⟩ := List.mem_map.1 hx
      rw [List.mem_filter, Bool.not_eq_true'] at hx₀
      have hkept := replaced_restateAll upper env codeMap ps
        (hs.tidy x₀ hx₀.1) hx₀.2
      simp [replaced, hkx.1, hkx.2.2] at hkept
    have hnodup : (added.filterMap displayed).Nodup := by
      rw [hadded.displays]
      exact Computation.eraseDups_nodup _
    have hshown : ∀ x, Has (.display k v) x → displayed x = some (k, v) := by
      intro x hx
      rw [displayed, hx.1, ← hx.2.1]
    exact eq_of_filterMap_nodup hnodup (hmem f hf hkf) (hmem g hg hkg) (hshown f hkf)
      (hshown g hkg)

theorem Progress.unstated
    (h : Progress upper env codeMap (s.facts.filter fun f => !replaced f) ps w)
    (hs : WellFormed s) {f : OrderFact} (hf : f ∈ w.store.facts)
    (hno : ∀ key ∈ ps.filterMap (keyOf upper env codeMap), ¬ Has key f) : f ∈ s.facts := by
  obtain ⟨added, hrows, hadded⟩ := h.rows
  rw [hrows, List.mem_append] at hf
  rcases hf with hf | hf
  · obtain ⟨f₀, hf₀, rfl⟩ := List.mem_map.1 hf
    have hmem := (List.mem_filter.1 hf₀).1
    rw [restateAll_of_not_hits fun p hp => Bool.eq_false_iff.2 fun hh => ?_]
    · exact hmem
    · obtain ⟨key, hkey, -, hhas⟩ := (hits_iff p f₀).1 hh
      exact hno key (List.mem_filterMap.2 ⟨p, hp, hkey⟩) (has_restateAll ps (hs.tidy f₀ hmem) hhas)
  · obtain ⟨key, hkey, hhas⟩ := hadded.keys f hf
    exact absurd hhas (hno key hkey)

end

theorem mem_reconciled {s : Store} (hs : WellFormed s) {f : OrderFact} (hf : f ∈ s.facts)
    (h : stale env f = false) : f ∈ (reconcileCodeFacts env s).facts := by
  obtain ⟨added, hfacts, -⟩ := reconcileCodeFacts_spec env hs
  rw [hfacts]
  exact List.mem_append_left _ (List.mem_filter.2 ⟨hf, by rw [h]; rfl⟩)

theorem of_mem_reconciled {s : Store} (hs : WellFormed s) {f : OrderFact}
    (hf : f ∈ (reconcileCodeFacts env s).facts) :
    (f ∈ s.facts ∧ stale env f = false) ∨ (f.kind = .code ∧ f.source = .code) := by
  obtain ⟨added, hfacts, -, hcode, -⟩ := reconcileCodeFacts_spec env hs
  rw [hfacts, List.mem_append, List.mem_filter, Bool.not_eq_true'] at hf
  exact hf.imp id fun hf => hcode f hf

variable (env) in
theorem filter_replaced_reconciled {s : Store} (hs : WellFormed s) :
    (reconcileCodeFacts env s).facts.filter replaced = s.facts.filter replaced := by
  obtain ⟨added, hfacts, -, hcode, -⟩ := reconcileCodeFacts_spec env hs
  rw [hfacts, List.filter_append, List.filter_filter]
  have hnone : added.filter replaced = [] := by
    refine List.filter_eq_nil_iff.2 fun f hf => ?_
    simp [replaced, (hcode f hf).1]
  rw [hnone, List.append_nil]
  refine List.filter_congr fun f _ => ?_
  cases hr : replaced f with
  | false => rfl
  | true =>
    have hkind : f.kind ≠ .code := by
      intro hk
      simp [replaced, hk] at hr
    have hkeep : stale env f = false := stale_eq_false_iff.2 fun hk => absurd hk hkind
    rw [hkeep]
    rfl

section
variable (isDate)

theorem stated_mem {s : Store} (hs : WellFormed s) (ps : List WrittenFact) :
    ∀ id ∈ (writeFacts upper isDate env codeMap s ps).stated,
      ∃ f ∈ (reconcileCodeFacts env (writeFacts upper isDate env codeMap s ps).store).facts,
        f.id = id := by
  have h := progress_writeFacts upper isDate env codeMap hs ps
  intro id hid
  obtain ⟨key, hkey, f, hf, hfid, hhas⟩ :=
    exists_right_of_forall₂ h.stated id (List.mem_eraseDups.2 hid)
  exact ⟨f, mem_reconciled h.wellFormed hf
    (keyOf_kept (List.mem_eraseDups.1 hkey) (h.wellFormed.tidy f hf) hhas), hfid⟩

theorem applyWrittenFacts_facts {s : Store} (hs : WellFormed s) (ps : List WrittenFact) :
    (applyWrittenFacts upper isDate env codeMap s ps).facts =
      (reconcileCodeFacts env (writeFacts upper isDate env codeMap s ps).store).facts.map
        (placedAt (ordering
          (reconcileCodeFacts env (writeFacts upper isDate env codeMap s ps).store).facts
          (writeFacts upper isDate env codeMap s ps).stated)) :=
  orderFacts_eq (stated_mem isDate hs ps)

variable (upper env codeMap) in
theorem placed_of_kept {s : Store} (hs : WellFormed s) (ps : List WrittenFact) {f : OrderFact}
    (hf : f ∈ s.facts) (hkept : replaced f = false)
    (hthere : stale env (restateAll upper env codeMap ps f) = false) :
    ∃ i, { restateAll upper env codeMap ps f with position := i } ∈
      (applyWrittenFacts upper isDate env codeMap s ps).facts := by
  have h := progress_writeFacts upper isDate env codeMap hs ps
  obtain ⟨added, hrows, -⟩ := h.rows
  have hmem : restateAll upper env codeMap ps f ∈
      (writeFacts upper isDate env codeMap s ps).store.facts := by
    rw [hrows]
    refine List.mem_append_left _ (List.mem_map_of_mem (List.mem_filter.2 ⟨hf, ?_⟩))
    rw [hkept]
    rfl
  rw [applyWrittenFacts_facts isDate hs ps]
  exact ⟨_, List.mem_map_of_mem (mem_reconciled h.wellFormed hmem hthere)⟩

/-- **A row of the user stays as it is** exactly where no fact of the call touches it. -/
theorem user_kept_iff {s : Store} (hs : WellFormed s) (ps : List WrittenFact) {f : OrderFact}
    (hf : f ∈ s.facts) (huser : f.source = .user) :
    (∃ g ∈ (applyWrittenFacts upper isDate env codeMap s ps).facts, SameRow f g) ↔
      Untouched upper env codeMap ps f := by
  have h := progress_writeFacts upper isDate env codeMap hs ps
  have hkept : replaced f = false := by
    unfold replaced
    rw [huser]
    simp
  rw [← restateAll_eq_iff ps (hs.tidy f hf) huser]
  constructor
  · rintro ⟨g, hg, hsame⟩
    rw [applyWrittenFacts_facts isDate hs ps] at hg
    obtain ⟨f', hf', rfl⟩ := List.mem_map.1 hg
    unfold SameRow placedAt at hsame
    have hid : f'.id = f.id := by rw [← hsame]
    have hsource : f'.source = .user := by rw [← huser, ← hsame]
    rcases of_mem_reconciled h.wellFormed hf' with ⟨hmem, hthere⟩ | ⟨-, hcode⟩
    · obtain ⟨added, hrows, hadded⟩ := h.rows
      rw [hrows, List.mem_append] at hmem
      rcases hmem with hmem | hmem
      · obtain ⟨f₀, hf₀, rfl⟩ := List.mem_map.1 hmem
        rw [restateAll_id] at hid
        have hf₀ : f₀ = f :=
          List.inj_on_of_nodup_map hs.ids (List.mem_filter.1 hf₀).1 hf hid
        rw [hf₀] at hsame hthere
        have heq : restateAll upper env codeMap ps f = f := by
          refine Eq.trans ?_ hsame
          rw [← restateAll_position upper env codeMap ps f]
        exact ⟨heq, heq ▸ hthere⟩
      · rw [hadded.source f' hmem] at hsource
        exact absurd hsource (by decide)
    · rw [hcode] at hsource
      exact absurd hsource (by decide)
  · rintro ⟨heq, hthere⟩
    obtain ⟨i, hmem⟩ := placed_of_kept upper isDate env codeMap hs ps
      hf hkept (heq.symm ▸ hthere)
    rw [heq] at hmem
    exact ⟨_, hmem, rfl⟩

end

theorem displays_eq {s : Store} (hs : WellFormed s) (ps : List WrittenFact) :
    ((applyWrittenFacts upper isDate env codeMap s ps).facts.filter replaced).filterMap displayed =
      (ps.filterMap (displayOf upper env codeMap)).eraseDups := by
  have h := progress_writeFacts upper isDate env codeMap hs ps
  obtain ⟨added, hrows, hadded⟩ := h.rows
  rw [applyWrittenFacts_facts isDate hs ps, List.filter_map, List.filterMap_map]
  change ((reconcileCodeFacts env _).facts.filter replaced).filterMap displayed = _
  rw [filter_replaced_reconciled _ h.wellFormed, hrows, List.filter_append, ← hadded.displays]
  have hnone : ((s.facts.filter fun f => !replaced f).map
      (restateAll upper env codeMap ps)).filter replaced = [] := by
    refine List.filter_eq_nil_iff.2 fun f hf => ?_
    obtain ⟨f₀, hf₀, rfl⟩ := List.mem_map.1 hf
    rw [List.mem_filter, Bool.not_eq_true'] at hf₀
    rw [replaced_restateAll _ _ _ ps (hs.tidy f₀ hf₀.1) hf₀.2]
    exact Bool.false_ne_true
  rw [hnone, List.nil_append, List.filterMap_filter]
  refine List.filterMap_congr fun f hf => ?_
  unfold replaced displayed
  rw [hadded.source f hf]
  cases f.kind <;> rfl

theorem label_ne_nil {s : Store} (hs : WellFormed s) (ps : List WrittenFact) {g : OrderFact}
    (hg : g ∈ (applyWrittenFacts upper isDate env codeMap s ps).facts)
    (hr : replaced g = true) : g.label ≠ [] := by
  have h := progress_writeFacts upper isDate env codeMap hs ps
  obtain ⟨added, hrows, hadded⟩ := h.rows
  rw [applyWrittenFacts_facts isDate hs ps] at hg
  obtain ⟨f, hf, rfl⟩ := List.mem_map.1 hg
  have hf' : f ∈ (writeFacts upper isDate env codeMap s ps).store.facts.filter replaced := by
    rw [← filter_replaced_reconciled env h.wellFormed]
    exact List.mem_filter.2 ⟨hf, hr⟩
  obtain ⟨hmem, hrf⟩ := List.mem_filter.1 hf'
  rw [hrows, List.mem_append] at hmem
  rcases hmem with hmem | hmem
  · obtain ⟨f₀, hf₀, rfl⟩ := List.mem_map.1 hmem
    rw [List.mem_filter, Bool.not_eq_true'] at hf₀
    rw [replaced_restateAll _ _ _ ps (hs.tidy f₀ hf₀.1) hf₀.2] at hrf
    exact absurd hrf Bool.false_ne_true
  · have hd : ∃ d, displayed f = some d := by
      unfold replaced at hrf
      unfold displayed
      cases hk : f.kind with
      | display k => exact ⟨_, rfl⟩
      | identifier k => simp [hk] at hrf
      | code => simp [hk] at hrf
    obtain ⟨d, hd⟩ := hd
    obtain ⟨p, -, hp, hlabel⟩ := hadded.labels f hmem d hd
    exact fun hnil => (keyOf_cases (displayOf_eq_some.1 hp)).2.1 (hlabel ▸ hnil)

/-- The rows the model stated, in the order it stated them. -/
theorem stated_rows {s : Store} (hs : WellFormed s) {ps : List WrittenFact}
    (hps : ps.length ≤ maxFacts) :
    ∃ rows, List.Forall₂ (fun g key => g ∈ (applyWrittenFacts upper isDate env codeMap s ps).facts ∧
        Has key g) rows (ps.filterMap (keyOf upper env codeMap)).eraseDups ∧
      rows.map OrderFact.position = List.range rows.length ∧ rows.length ≤ maxFacts ∧
      ∀ g ∈ (applyWrittenFacts upper isDate env codeMap s ps).facts, g ∉ rows →
        (∃ f ∈ s.facts, SameRow f g) ∨ g.source = .code := by
  have h := progress_writeFacts upper isDate env codeMap hs ps
  obtain ⟨rows, hrows, hids⟩ := exists_rows h.stated
  set r := (reconcileCodeFacts env (writeFacts upper isDate env codeMap s ps).store).facts
  set order := ordering r (writeFacts upper isDate env codeMap s ps).stated with horder
  have hfacts : (applyWrittenFacts upper isDate env codeMap s ps).facts = r.map (placedAt order) :=
    applyWrittenFacts_facts isDate hs ps
  have hkeys : ∀ f ∈ rows, ∃ key ∈ ps.filterMap (keyOf upper env codeMap), Has key f ∧
      f ∈ (writeFacts upper isDate env codeMap s ps).store.facts := by
    intro f hf
    obtain ⟨key, hkey, hmem, hhas⟩ := exists_right_of_forall₂ hrows f hf
    exact ⟨key, List.mem_eraseDups.1 hkey, hhas, hmem⟩
  refine ⟨rows.map (placedAt order), ?_, ?_, ?_, ?_⟩
  · rw [List.forall₂_map_left_iff]
    have hboth := (List.forall₂_and_left (p := fun f => f ∈ rows) rows _).2 ⟨fun f hf => hf, hrows⟩
    refine hboth.imp fun f key ⟨hf, hmem, hhas⟩ => ⟨?_, ?_⟩
    · obtain ⟨key', hkey', hhas', -⟩ := hkeys f hf
      rw [hfacts]
      exact List.mem_map_of_mem (mem_reconciled h.wellFormed hmem
        (keyOf_kept hkey' (h.wellFormed.tidy f hmem) hhas'))
    · cases key with
      | number n => exact hhas
      | barcode b => exact hhas
      | display k v => exact hhas
  · -- Row `i` is that of stated id `i`.
    rw [List.map_map, List.length_map]
    refine List.ext_getElem (by simp) fun i hi hi' => ?_
    rw [List.getElem_map, List.getElem_range, Function.comp_apply]
    refine idxOf_stated ?_
    rw [← hids, List.getElem?_map, List.getElem?_eq_getElem (by simpa using hi)]
    rfl
  · rw [List.length_map, hrows.length_eq]
    calc (ps.filterMap (keyOf upper env codeMap)).eraseDups.length
        ≤ (ps.filterMap (keyOf upper env codeMap)).length := Computation.eraseDups_length_le _
      _ ≤ ps.length := List.length_filterMap_le _ _
      _ ≤ maxFacts := hps
  · intro g hg hnot
    rw [hfacts] at hg
    obtain ⟨f, hf, rfl⟩ := List.mem_map.1 hg
    rcases of_mem_reconciled h.wellFormed hf with ⟨hmem, -⟩ | ⟨-, hcode⟩
    · left
      refine ⟨f, h.unstated hs hmem fun key hkey hhas => hnot ?_, rfl⟩
      obtain ⟨f', hf', hmem', hhas'⟩ :=
        exists_left_of_forall₂ hrows key (List.mem_eraseDups.2 hkey)
      rw [h.has_inj hs hmem hmem' hhas hhas']
      exact List.mem_map_of_mem hf'
    · exact .inr hcode

/-- **Everything else is kept**, of any order and any call. -/
theorem kept_applyWrittenFacts {s : Store} (hs : WellFormed s) {ps : List WrittenFact}
    (hps : ps.length ≤ maxFacts) :
    Kept upper env codeMap s ps (applyWrittenFacts upper isDate env codeMap s ps) where
  identifiers := by
    intro f hf hk
    obtain ⟨hid, hkind, hvalue, hnorm⟩ :=
      restateAll_identifier upper env codeMap ps (hs.tidy f hf) hk
    have hkept : replaced f = false := by
      obtain ⟨k, hk⟩ := hk
      unfold replaced
      rw [hk]
      rfl
    have hthere : stale env (restateAll upper env codeMap ps f) = false := by
      obtain ⟨k, hkind⟩ := hkind
      exact stale_eq_false_iff.2 fun hcode => absurd (hkind.symm.trans hcode) (by simp)
    obtain ⟨i, hmem⟩ := placed_of_kept upper isDate env codeMap hs ps hf hkept hthere
    exact ⟨_, hmem, hid, hkind, hvalue, hnorm⟩
  codes := by
    have h := progress_writeFacts upper isDate env codeMap hs ps
    have hperm := codes_perm env h.wellFormed
    rw [applyWrittenFacts_facts isDate hs ps, List.filter_map, List.map_map]
    exact hperm
  displays := List.Perm.of_eq (displays_eq hs ps)
  labels := fun g hg hr => label_ne_nil hs ps hg hr
  positions := by
    have h := progress_writeFacts upper isDate env codeMap hs ps
    obtain ⟨added, -, hwf, -⟩ := reconcileCodeFacts_spec env h.wellFormed
    exact positions_perm hwf (stated_mem isDate hs ps)
  stated := stated_rows hs hps

theorem length_parseWrittenFacts (raw : List RawFact) :
    (parseWrittenFacts raw).length ≤ maxFacts := List.length_take_le _ _

/-- **What a rewrite keeps**: identifiers, a code for each barcode, the call's display facts, and a
row of the user exactly where no fact of the call is stored in it and no barcode of it is gone. -/
theorem apply_written_facts_keeps (upper : Char → Text) (isDate : Text → Bool)
    (env : Surroundings) (codeMap : List (Text × BarcodeKey)) (s : Store) (hs : WellFormed s)
    (raw : List RawFact) :
    Kept upper env codeMap s (parseWrittenFacts raw)
        (applyWrittenFacts upper isDate env codeMap s (parseWrittenFacts raw)) ∧
      ∀ f ∈ s.facts, f.source = .user →
        ((∃ g ∈ (applyWrittenFacts upper isDate env codeMap s (parseWrittenFacts raw)).facts,
          SameRow f g) ↔ Untouched upper env codeMap (parseWrittenFacts raw) f) :=
  ⟨kept_applyWrittenFacts hs (length_parseWrittenFacts raw),
    fun _ hf huser => user_kept_iff isDate hs _ hf huser⟩

end

/-! ## A row of the user under a call -/

def userStore : Store :=
  ⟨[⟨0, .identifier .orderNumber, ['M', 'i', 'n', 'e'], ['1', '2', '3', '4', '5'],
    some ['1', '2', '3', '4', '5'], none, none, none, 0, .user, 0⟩], 1⟩

def relabelled : List RawFact :=
  [⟨.identifier .orderNumber, ['N', 'o'], ['1', '2', '3', '4', '5'], [], []⟩]

def noSurroundings : Surroundings := ⟨[], [], 0⟩

theorem wellFormed_userStore : WellFormed userStore where
  ids := by decide
  fresh := by decide
  numbers := by decide
  barcodes := by decide
  tidy := by
    intro f hf
    obtain rfl := List.mem_singleton.1 hf
    exact ⟨by simp, by simp⟩

theorem apply_written_facts_keeps_user_order :
    WellFormed userStore ∧
      Kept (fun c => [c.toUpper]) noSurroundings [] userStore (parseWrittenFacts relabelled)
        (applyWrittenFacts (fun c => [c.toUpper]) (fun _ => false) noSurroundings [] userStore
          (parseWrittenFacts relabelled)) ∧
      ∀ f ∈ userStore.facts, f.source = .user →
        ((∃ g ∈ (applyWrittenFacts (fun c => [c.toUpper]) (fun _ => false) noSurroundings []
            userStore (parseWrittenFacts relabelled)).facts, SameRow f g) ↔
          Untouched (fun c => [c.toUpper]) noSurroundings [] (parseWrittenFacts relabelled) f) :=
  ⟨wellFormed_userStore, apply_written_facts_keeps (fun c => [c.toUpper]) (fun _ => false)
    noSurroundings [] userStore wellFormed_userStore relabelled⟩

/-- The row of the user takes the call's label. -/
theorem apply_written_facts_relabels_user_row :
    WellFormed userStore ∧ ∃ f ∈ userStore.facts, f.source = .user ∧
      ¬ ∃ g ∈ (applyWrittenFacts (fun c => [c.toUpper]) (fun _ => false) noSurroundings []
        userStore (parseWrittenFacts relabelled)).facts, SameRow f g := by
  refine ⟨wellFormed_userStore, userStore.facts.head (by decide), by decide, by decide, ?_⟩
  unfold SameRow
  decide

end RewrittenFacts

end MailVerdict.Analysis
