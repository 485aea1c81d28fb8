import MailVerdict.Model.SettingsUpdates

/-!
# Whether updates of the settings are kept

An update writes the whole row as it read it, with its own keys put in. What another call
has stored in the row meanwhile is gone, unless it is in the keys the update names itself;
the row is `Fitting` when nothing is. The cache is assigned from an earlier read, which may
be out of date by then, and an import that fails after its first category has stored that
much. In runs in which none of this happens the stored data is what the calls that returned
make of it one after another, and in the end the cache shows it (`updates_are_kept`).
-/

namespace MailVerdict.Analysis.SettingsKept

open MailVerdict.Computation
open Model.SettingsUpdates

variable {defaults : String → Data}

def mergeAll (row : Option Data) (ds : List Data) : Option Data :=
  ds.foldl (fun row d => some (d ∪ row.getD ∅)) row

theorem mergeAll_concat (row : Option Data) (ds : List Data) (d : Data) :
    mergeAll row (ds ++ [d]) = some (d ∪ (mergeAll row ds).getD ∅) := by
  simp [mergeAll]

/-- An upsert is about to do to the row what merging its data into it does: outside the keys it
names the row holds what was read; where nothing is written because the merged row compares equal,
it is the merged row. A first insert collides only for a call that has stored nothing. -/
def Fitting (s : State) (n : ℕ) (category : String) (data : Data) : Option Data → Prop
  | some existing => ∃ current ∈ s.rows.lookup category,
      if equal (data ∪ existing) existing then data ∪ current = current
      else data ∪ existing = data ∪ current
  | none => category ∈ s.rows → ∀ e ∈ s.log, e.1 ≠ n

instance (s : State) (n : ℕ) (category : String) (data : Data) (existing : Option Data) :
    Decidable (Fitting s n category data existing) := by
  cases existing <;> unfold Fitting <;> infer_instance

def Covered : Kind → List String
  | .update category => [category]
  | .bulkImport => settingCategories

def WriteFits (s : State) (n : ℕ) (k : Call) : Prop :=
  match k.phase, k.todo with
  | .holding existing, (category, data) :: _ => Fitting s n category data existing
  | _, _ => True

instance (s : State) (n : ℕ) (k : Call) : Decidable (WriteFits s n k) := by
  unfold WriteFits
  split <;> infer_instance

/-- The condition on the end of a call: what it read is still what is stored. -/
def Current (s : State) (k : Call) : Prop :=
  match k.phase with
  | .refreshing rows => ∀ c ∈ Covered k.kind, rows.lookup c = s.rows.lookup c
  | _ => True

instance (s : State) (k : Call) : Decidable (Current s k) := by
  unfold Current
  split <;> infer_instance

/-- Writes fit the row, what was read back is still stored, and no statement fails in a call
that has stored something. -/
def Undisturbed (s : State) : Label → Prop
  | .write n => ∀ k ∈ s.calls[n]?, WriteFits s n k
  | .assign n => ∀ k ∈ s.calls[n]?, Current s k
  | .fail n _ => ∀ e ∈ s.log, e.1 ≠ n
  | _ => True

instance (s : State) (l : Label) : Decidable (Undisturbed s l) := by
  cases l <;> unfold Undisturbed <;> infer_instance

abbrev Log := List (ℕ × String × Data)

def Stored (log : Log) (n : ℕ) (c : String) : Prop := ∃ d, (n, c, d) ∈ log

def dataOf (log : Log) (c : String) : List Data :=
  (log.filter fun e => decide (e.2.1 = c)).map fun e => e.2.2

theorem dataOf_concat_self (log : Log) (n : ℕ) (c : String) (d : Data) :
    dataOf (log ++ [(n, c, d)]) c = dataOf log c ++ [d] := by
  simp [dataOf]

theorem dataOf_concat_of_ne (log : Log) (n : ℕ) {c x : String} (d : Data) (h : x ≠ c) :
    dataOf (log ++ [(n, c, d)]) x = dataOf log x := by
  simp [dataOf, Ne.symm h]

def Active (k : Call) : Prop :=
  match k.phase with
  | .ready | .holding _ | .refreshing _ => True
  | .returned | .raised _ => False

instance (k : Call) : Decidable (Active k) := by
  unfold Active
  split <;> infer_instance

def Shows (defaults : String → Data) (s : State) (c : String) : Prop :=
  s.cache.lookup c = some ((s.rows.lookup c).getD ∅ ∪ defaults c)

/-! ### The invariant -/

structure CallOk (log : Log) (n : ℕ) (k : Call) : Prop where
  distinct : (k.entries.map Prod.fst).Nodup
  covered : ∀ e ∈ k.entries, e.1 ∈ Covered k.kind
  progress : ∃ stored, k.entries = stored ++ k.todo ∧ ∀ c d, (n, c, d) ∈ log ↔ (c, d) ∈ stored
  refreshing : ∀ rows, k.phase = .refreshing rows → k.todo = []
  returned : k.phase = .returned → k.todo = []
  raised : ∀ error, k.phase = .raised error → ∀ e ∈ log, e.1 ≠ n

structure Inv (defaults : String → Data) (s : State) : Prop where
  rows : ∀ c, s.rows.lookup c = mergeAll (s.before.lookup c) (dataOf s.log c)
  nodup : (s.log.map fun e => (e.1, e.2.1)).Nodup
  bound : ∀ e ∈ s.log, e.1 < s.calls.length
  calls : ∀ n k, s.calls[n]? = some k → CallOk s.log n k
  cache : ∀ c ∈ settingCategories, Shows defaults s c ∨
    ∃ n k, s.calls[n]? = some k ∧ Active k ∧ Stored s.log n c

variable {s t : State} {n : ℕ} {k k' : Call} {l : Label} {log log' : Log}

theorem getElem?_setCall {m : ℕ} (hn : s.calls[n]? = some k) :
    (s.setCall n k').calls[m]? = if n = m then some k' else s.calls[m]? := by
  obtain ⟨hlt, -⟩ := List.getElem?_eq_some_iff.1 hn
  rw [State.setCall, List.getElem?_set, if_pos hlt]

theorem length_setCall : (s.setCall n k').calls.length = s.calls.length := List.length_set

theorem Inv.setCall (h : Inv defaults s) (hn : s.calls[n]? = some k) (hok : CallOk s.log n k')
    (hactive : Active k → Active k' ∨ ∀ e ∈ s.log, e.1 ≠ n) :
    Inv defaults (s.setCall n k') where
  rows := h.rows
  nodup := h.nodup
  bound e he := by
    rw [length_setCall]
    exact h.bound e he
  calls m j hm := by
    rw [getElem?_setCall hn] at hm
    split at hm
    · next heq =>
      subst heq
      cases hm
      exact hok
    · exact h.calls m j hm
  cache c hc := by
    obtain hshows | ⟨m, j, hm, hj, hstored⟩ := h.cache c hc
    · exact Or.inl hshows
    · refine Or.inr ?_
      by_cases heq : n = m
      · subst heq
        rw [hn] at hm
        cases hm
        obtain hk | hnone := hactive hj
        · exact ⟨n, k', by rw [getElem?_setCall hn, if_pos rfl], hk, hstored⟩
        · obtain ⟨d, hd⟩ := hstored
          exact absurd rfl (hnone _ hd)
      · exact ⟨m, j, by rw [getElem?_setCall hn, if_neg heq, hm], hj, hstored⟩

theorem Inv.append (h : Inv defaults s) (hok : CallOk s.log s.calls.length k) :
    Inv defaults { s with calls := s.calls ++ [k] } where
  rows := h.rows
  nodup := h.nodup
  bound e he := by
    rw [List.length_append]
    exact (h.bound e he).trans_le (Nat.le_add_right _ _)
  calls m j hm := by
    obtain hlt | hge := lt_or_ge m s.calls.length
    · exact h.calls m j (by rwa [List.getElem?_append_left hlt] at hm)
    · rw [List.getElem?_append_right hge] at hm
      obtain ⟨hzero, hj⟩ := List.getElem?_eq_some_iff.1 hm
      simp only [List.length_singleton, Nat.lt_one_iff] at hzero
      have hm' : m = s.calls.length := by
        exact le_antisymm (Nat.sub_eq_zero_iff_le.1 hzero) hge
      subst hm'
      simp only [Nat.sub_self, List.getElem_cons_zero] at hj
      subst hj
      exact hok
  cache c hc := by
    obtain hshows | ⟨m, j, hm, hj, hstored⟩ := h.cache c hc
    · exact Or.inl hshows
    · obtain ⟨hlt, -⟩ := List.getElem?_eq_some_iff.1 hm
      exact Or.inr ⟨m, j, by rwa [List.getElem?_append_left hlt], hj, hstored⟩

theorem CallOk.rest (h : CallOk log n k) {c : String} {d : Data} {rest : List (String × Data)}
    (htodo : k.todo = (c, d) :: rest) :
    (∀ d', (n, c, d') ∉ log) ∧
      CallOk (log ++ [(n, c, d)]) n { k with todo := rest, phase := .ready } := by
  obtain ⟨stored, hentries, hlog⟩ := h.progress
  rw [htodo] at hentries
  refine ⟨fun d' hd' => ?_, h.distinct, h.covered, ⟨stored ++ [(c, d)], ?_, ?_⟩, nofun, nofun,
    nofun⟩
  · have hdistinct := h.distinct
    rw [hentries, List.map_append, List.nodup_append] at hdistinct
    exact hdistinct.2.2 c (List.mem_map.2 ⟨(c, d'), (hlog c d').1 hd', rfl⟩) c
      List.mem_cons_self rfl
  · rw [hentries, List.append_assoc, List.singleton_append]
  · intro c' d'
    rw [List.mem_append, List.mem_append, hlog c' d', List.mem_singleton, List.mem_singleton]
    simp

theorem CallOk.congr (h : CallOk log n k) (hlog : ∀ c d, (n, c, d) ∈ log' ↔ (n, c, d) ∈ log) :
    CallOk log' n k where
  distinct := h.distinct
  covered := h.covered
  progress := by
    obtain ⟨stored, hentries, hstored⟩ := h.progress
    exact ⟨stored, hentries, fun c d => (hlog c d).trans (hstored c d)⟩
  refreshing := h.refreshing
  returned := h.returned
  raised error hphase e he := by
    rintro rfl
    exact h.raised error hphase _ ((hlog e.2.1 e.2.2).1 he) rfl

/-! ### A write -/

theorem lookup_upsert {category : String} {data : Data} {existing : Option Data} {rows : Table}
    (hfits : Fitting s n category data existing)
    (hupsert : s.upsert category existing data = some rows) (c : String) :
    rows.lookup c =
      if c = category then some (data ∪ (s.rows.lookup c).getD ∅) else s.rows.lookup c := by
  unfold State.upsert at hupsert
  cases existing with
  | some existing =>
    obtain ⟨current, hcurrent, hif⟩ := hfits
    have hrow : s.rows.lookup category = some current := hcurrent
    dsimp only at hupsert
    split at hupsert
    · next hequal =>
      rw [if_pos hequal] at hif
      cases hupsert
      split
      · next hc => rw [hc, hrow, Option.getD_some, hif]
      · rfl
    · next hequal =>
      rw [if_neg hequal] at hif
      cases hupsert
      split
      · next hc => rw [hc, Finmap.lookup_insert, hrow, Option.getD_some, hif]
      · next hc => exact Finmap.lookup_insert_of_ne _ hc
  | none =>
    dsimp only at hupsert
    split at hupsert
    · cases hupsert
    · next hnew =>
      cases hupsert
      split
      · next hc =>
        rw [hc, Finmap.lookup_insert, Finmap.lookup_eq_none.2 hnew, Option.getD_none,
          Finmap.union_empty]
      · next hc => exact Finmap.lookup_insert_of_ne _ hc

/-- **A write that fits.** -/
theorem Inv.write (h : Inv defaults s) (hn : s.calls[n]? = some k) {existing : Option Data}
    (hphase : k.phase = .holding existing) {c : String} {d : Data} {rest : List (String × Data)}
    (htodo : k.todo = (c, d) :: rest) (hfits : Fitting s n c d existing) :
    Inv defaults (s.write n k c d rest existing) := by
  have hok := h.calls n k hn
  unfold State.write
  split
  · next hcollides =>
    -- a collision: the row is there, and the call has stored nothing
    have hnothing : ∀ e ∈ s.log, e.1 ≠ n := by
      unfold State.upsert at hcollides
      cases existing with
      | some existing =>
        dsimp only at hcollides
        split at hcollides <;> cases hcollides
      | none =>
        dsimp only at hcollides
        split at hcollides
        · next hrow => exact hfits hrow
        · cases hcollides
    refine h.setCall hn ⟨hok.distinct, hok.covered, hok.progress, nofun, nofun, ?_⟩
      fun _ => Or.inr hnothing
    exact fun _ _ => hnothing
  · next rows hupsert =>
    obtain ⟨hnew, hnext⟩ := hok.rest htodo
    have hrows := lookup_upsert hfits hupsert
    have hget : ∀ m, (s.setCall n { k with todo := rest, phase := .ready }).calls[m]? =
        if n = m then some { k with todo := rest, phase := .ready } else s.calls[m]? :=
      fun m => getElem?_setCall hn
    refine ⟨fun x => ?_, ?_, fun e he => ?_, fun m j hm => ?_, fun x hx => ?_⟩
    · change rows.lookup x = mergeAll (s.before.lookup x) (dataOf (s.log ++ [(n, c, d)]) x)
      rw [hrows x]
      by_cases hx : x = c
      · subst hx
        rw [if_pos rfl, dataOf_concat_self, mergeAll_concat, ← h.rows x]
      · rw [if_neg hx, dataOf_concat_of_ne _ _ _ hx, h.rows x]
    · change ((s.log ++ [(n, c, d)]).map _).Nodup
      rw [List.map_append, List.nodup_append]
      refine ⟨h.nodup, List.nodup_singleton _, ?_⟩
      rintro _ ha _ hb rfl
      obtain ⟨e, he, heq⟩ := List.mem_map.1 ha
      simp only [List.map_singleton, List.mem_singleton] at hb
      rw [hb] at heq
      obtain ⟨rfl, rfl⟩ := Prod.mk.inj heq
      exact hnew e.2.2 he
    · change e.1 < (s.setCall n _).calls.length
      rw [length_setCall]
      obtain he | he := List.mem_append.1 he
      · exact h.bound e he
      · rw [List.mem_singleton.1 he]
        exact (List.getElem?_eq_some_iff.1 hn).1
    · change (s.setCall n _).calls[m]? = some j at hm
      rw [hget] at hm
      split at hm
      · next heq =>
        subst heq
        cases hm
        exact hnext
      · next hne =>
        refine (h.calls m j hm).congr fun c' d' => ?_
        change (m, c', d') ∈ s.log ++ [(n, c, d)] ↔ _
        rw [List.mem_append, List.mem_singleton, or_iff_left]
        intro heq
        exact hne (Prod.mk.inj heq).1.symm
    · by_cases hxc : x = c
      · subst hxc
        refine Or.inr ⟨n, { k with todo := rest, phase := .ready }, ?_, trivial, d, ?_⟩
        · exact (hget n).trans (if_pos rfl)
        · exact List.mem_append_right _ (List.mem_singleton.2 rfl)
      · obtain hshows | ⟨m, j, hm, hj, d', hstored⟩ := h.cache x hx
        · refine Or.inl ?_
          change s.cache.lookup x = some ((rows.lookup x).getD ∅ ∪ defaults x)
          rw [hrows x, if_neg hxc]
          exact hshows
        · refine Or.inr ?_
          have hlog : (m, x, d') ∈ s.log ++ [(n, c, d)] := List.mem_append_left _ hstored
          by_cases heq : n = m
          · subst heq
            exact ⟨n, _, (hget n).trans (if_pos rfl), trivial, d', hlog⟩
          · exact ⟨m, j, (hget m).trans ((if_neg heq).trans hm), hj, d', hlog⟩

/-! ### The end of a call -/

theorem lookup_foldl_insert (f : String → Data) (cats : List String) (cache : Table) (c : String) :
    (cats.foldl (fun cache cat => cache.insert cat (f cat)) cache).lookup c =
      if c ∈ cats then some (f c) else cache.lookup c := by
  induction cats generalizing cache with
  | nil => rfl
  | cons cat cats ih =>
    rw [List.foldl_cons, ih]
    by_cases hmem : c ∈ cats
    · rw [if_pos hmem, if_pos (List.mem_cons_of_mem cat hmem)]
    · by_cases hcat : c = cat
      · subst hcat
        rw [if_neg hmem, if_pos List.mem_cons_self, Finmap.lookup_insert]
      · rw [if_neg hmem, if_neg (by simp [hcat, hmem]), Finmap.lookup_insert_of_ne _ hcat]

theorem lookup_loaded (rows : Table) {c : String} (hc : c ∈ settingCategories) :
    (loaded defaults rows).lookup c = some ((rows.lookup c).getD ∅ ∪ defaults c) := by
  rw [loaded, lookup_foldl_insert (fun cat => (rows.lookup cat).getD ∅ ∪ defaults cat), if_pos hc]

/-- **The end of a call** that has read what is stored. -/
theorem Inv.assign (h : Inv defaults s) (hn : s.calls[n]? = some k) {rows : Table}
    (hphase : k.phase = .refreshing rows)
    (hcurrent : ∀ c ∈ Covered k.kind, rows.lookup c = s.rows.lookup c) :
    Inv defaults (s.assign defaults n k rows) := by
  have hok := h.calls n k hn
  have htodo := hok.refreshing rows hphase
  -- what the call puts in the cache, and what it leaves there
  have hcache : ∀ c ∈ settingCategories, Shows defaults (s.assign defaults n k rows) c ∨
      c ∉ Covered k.kind ∧ (s.assign defaults n k rows).cache.lookup c = s.cache.lookup c := by
    intro c hc
    unfold Shows State.assign
    cases hkind : k.kind with
    | update category =>
      rw [hkind] at hcurrent
      by_cases hcat : c = category
      · subst hcat
        refine Or.inl ?_
        rw [Finmap.lookup_insert, hcurrent c (List.mem_singleton.2 rfl)]
        rfl
      · exact Or.inr ⟨fun hmem => hcat (List.mem_singleton.1 hmem),
          Finmap.lookup_insert_of_ne _ hcat⟩
    | bulkImport =>
      rw [hkind] at hcurrent
      refine Or.inl ?_
      rw [lookup_loaded rows hc, hcurrent c hc]
      rfl
  have hget : ∀ m, (s.assign defaults n k rows).calls[m]? =
      if n = m then some { k with phase := .returned } else s.calls[m]? :=
    fun m => getElem?_setCall hn
  refine ⟨h.rows, h.nodup, fun e he => ?_, fun m j hm => ?_, fun c hc => ?_⟩
  · change e.1 < (s.setCall n _).calls.length
    rw [length_setCall]
    exact h.bound e he
  · rw [hget] at hm
    split at hm
    · next heq =>
      subst heq
      cases hm
      exact ⟨hok.distinct, hok.covered, hok.progress, nofun, fun _ => htodo, nofun⟩
    · exact h.calls m j hm
  · obtain hshows | ⟨hnot, hsame⟩ := hcache c hc
    · exact Or.inl hshows
    · obtain hshows | ⟨m, j, hm, hj, d, hstored⟩ := h.cache c hc
      · refine Or.inl ?_
        unfold Shows at hshows ⊢
        rw [hsame]
        exact hshows
      · refine Or.inr ⟨m, j, ?_, hj, d, hstored⟩
        rw [hget, if_neg, hm]
        rintro rfl
        -- what the call has stored it has put in the cache
        obtain ⟨stored, hentries, hlog⟩ := hok.progress
        have hentry : (c, d) ∈ k.entries := by
          rw [hentries]
          exact List.mem_append_left _ ((hlog c d).1 hstored)
        exact hnot (hok.covered _ hentry)

/-! ### New calls -/

theorem callOk_raised (kind : Kind) (error : String) (hlog : ∀ e ∈ log, e.1 ≠ n) :
    CallOk log n ⟨kind, [], [], .raised error⟩ where
  distinct := List.nodup_nil
  covered := nofun
  progress := ⟨[], rfl, fun _ _ => ⟨fun h => absurd rfl (hlog _ h), nofun⟩⟩
  refreshing := nofun
  returned := nofun
  raised _ _ := hlog

theorem callOk_ready {kind : Kind} {entries : List (String × Data)}
    (hdistinct : (entries.map Prod.fst).Nodup) (hcovered : ∀ e ∈ entries, e.1 ∈ Covered kind)
    (hlog : ∀ e ∈ log, e.1 ≠ n) : CallOk log n ⟨kind, entries, entries, .ready⟩ where
  distinct := hdistinct
  covered := hcovered
  progress := ⟨[], rfl, fun _ _ => ⟨fun h => absurd rfl (hlog _ h), nofun⟩⟩
  refreshing := nofun
  returned := nofun
  raised := nofun

theorem callOk_update (category : String) (data : List (String × Value))
    (hlog : ∀ e ∈ log, e.1 ≠ n) : CallOk log n (updateCall defaults category data) := by
  unfold updateCall
  split
  · exact callOk_raised _ _ hlog
  · refine callOk_ready (List.nodup_singleton _) (fun e he => ?_) hlog
    rw [List.mem_singleton.1 he]
    exact List.mem_singleton.2 rfl

theorem map_fst_mapM {f : String × List (String × Value) → Except String Data}
    {settings : List (String × List (String × Value))} {entries : List (String × Data)}
    (h : settings.mapM (fun e => (f e).map (e.1, ·)) = .ok entries) :
    entries.map Prod.fst = settings.map Prod.fst := by
  induction settings generalizing entries with
  | nil =>
    cases h
    rfl
  | cons e settings ih =>
    rw [List.mapM_cons] at h
    cases hf : f e with
    | error error =>
      rw [hf] at h
      cases h
    | ok data =>
      rw [hf] at h
      cases hrest : settings.mapM fun e => (f e).map (e.1, ·) with
      | error error =>
        simp only [hrest] at h
        cases h
      | ok rest =>
        simp only [hrest] at h
        cases h
        rw [List.map_cons, List.map_cons, ih hrest]

theorem callOk_import {settings : List (String × List (String × Value))}
    (hdistinct : (settings.map Prod.fst).Nodup) (hlog : ∀ e ∈ log, e.1 ≠ n) :
    CallOk log n (importCall defaults settings) := by
  unfold importCall
  dsimp only
  split
  · exact callOk_raised _ _ hlog
  · next entries hentries =>
    have hfst := map_fst_mapM hentries
    refine callOk_ready ?_ (fun e he => ?_) hlog
    · rw [hfst]
      exact hdistinct.sublist (List.filter_sublist.map Prod.fst)
    · have hmem : e.1 ∈ entries.map Prod.fst := List.mem_map_of_mem he
      rw [hfst] at hmem
      obtain ⟨e', he', heq⟩ := List.mem_map.1 hmem
      rw [← heq]
      exact of_decide_eq_true (List.mem_filter.1 he').2

/-! ### The system -/

/-- An undisturbed step keeps each row at the merge of what was written to it. -/
theorem inv_step (h : Inv defaults s) (hquiet : Undisturbed s l)
    (hstep : step defaults s l = some t) : Inv defaults t := by
  have hnew : ∀ e ∈ s.log, e.1 ≠ s.calls.length := fun e he => (h.bound e he).ne
  cases l with
  | update category data =>
    obtain ⟨-, heq⟩ := Option.ite_none_right_eq_some.1 hstep
    cases heq
    exact h.append (callOk_update category data hnew)
  | bulkImport settings =>
    obtain ⟨hdistinct, heq⟩ := Option.ite_none_right_eq_some.1 hstep
    cases heq
    exact h.append (callOk_import hdistinct hnew)
  | read n =>
    obtain ⟨k, hn, hstep⟩ := Option.bind_eq_some_iff.1 hstep
    have hok := h.calls n k hn
    split at hstep
    · cases hstep
      exact h.setCall hn ⟨hok.distinct, hok.covered, hok.progress, fun _ => Phase.noConfusion,
        Phase.noConfusion, fun _ => Phase.noConfusion⟩ fun _ => Or.inl trivial
    · cases hstep
  | write n =>
    obtain ⟨k, hn, hstep⟩ := Option.bind_eq_some_iff.1 hstep
    have hfits := hquiet k hn
    unfold WriteFits at hfits
    split at hstep
    · next existing category data rest hphase htodo =>
      rw [hphase, htodo] at hfits
      cases hstep
      exact h.write hn hphase htodo hfits
    · cases hstep
  | refresh n =>
    obtain ⟨k, hn, hstep⟩ := Option.bind_eq_some_iff.1 hstep
    have hok := h.calls n k hn
    split at hstep
    · next hphase htodo =>
      cases hstep
      exact h.setCall hn ⟨hok.distinct, hok.covered, hok.progress, fun _ _ => htodo,
        Phase.noConfusion, fun _ => Phase.noConfusion⟩ fun _ => Or.inl trivial
    · cases hstep
  | assign n =>
    obtain ⟨k, hn, hstep⟩ := Option.bind_eq_some_iff.1 hstep
    have hcurrent := hquiet k hn
    unfold Current at hcurrent
    split at hstep
    · next rows hphase =>
      rw [hphase] at hcurrent
      cases hstep
      exact h.assign hn hphase hcurrent
    · cases hstep
  | fail n error =>
    obtain ⟨k, hn, hstep⟩ := Option.bind_eq_some_iff.1 hstep
    have hok := h.calls n k hn
    have hraised : Inv defaults (s.setCall n { k with phase := .raised error }) :=
      h.setCall hn ⟨hok.distinct, hok.covered, hok.progress, fun _ => Phase.noConfusion,
        Phase.noConfusion, fun _ _ => hquiet⟩ fun _ => Or.inr hquiet
    split at hstep
    · cases hstep
      exact hraised
    · cases hstep
      exact hraised
    · cases hstep

theorem inv_reachable (h : (system defaults).Reachable Undisturbed s) : Inv defaults s := by
  refine h.invariant ?_ fun s l t hinv hquiet hstep => inv_step hinv hquiet hstep
  rintro s ⟨hcalls, hlog, hbefore, hcache⟩
  refine ⟨fun c => ?_, ?_, ?_, ?_, fun c hc => Or.inl ?_⟩
  · rw [hlog, hbefore]
    rfl
  · simp [hlog]
  · simp [hlog]
  · simp [hcalls]
  · rw [Shows, hcache]
    exact lookup_loaded s.rows hc

def Ended (s : State) : Prop := ∀ k ∈ s.calls, ¬ Active k

instance (s : State) : Decidable (Ended s) := inferInstanceAs (Decidable (∀ k ∈ s.calls, _))

/-- **Updates are kept**: the data of a category is what the calls make of it one after another,
each once: all that returned, of those under way the ones that have stored their part, and none
that raised. When all have ended, the cache shows it. -/
theorem updates_are_kept (h : (system defaults).Reachable Undisturbed s) :
    (∀ c, ∃ order : List (ℕ × Data), (order.map Prod.fst).Nodup ∧
      s.rows.lookup c = mergeAll (s.before.lookup c) (order.map Prod.snd) ∧
      (∀ n d, (n, d) ∈ order → ∃ k, s.calls[n]? = some k ∧ (c, d) ∈ k.entries ∧
        ∀ error, k.phase ≠ .raised error) ∧
      ∀ n k d, s.calls[n]? = some k → k.phase = .returned → (c, d) ∈ k.entries →
        (n, d) ∈ order) ∧
    (Ended s → ∀ c ∈ settingCategories, Shows defaults s c) := by
  have hinv := inv_reachable h
  refine ⟨fun c => ⟨(s.log.filter fun e => decide (e.2.1 = c)).map fun e => (e.1, e.2.2),
    ?_, ?_, fun n d hmem => ?_, fun n k d hn hreturned hentry => ?_⟩, fun hended c hc => ?_⟩
  · rw [List.map_map]
    refine List.Nodup.of_map (fun n : ℕ => (n, c)) ?_
    rw [List.map_map]
    have hsame : (s.log.filter fun e => decide (e.2.1 = c)).map
        ((fun n : ℕ => (n, c)) ∘ Prod.fst ∘ fun e => (e.1, e.2.2)) =
        (s.log.filter fun e => decide (e.2.1 = c)).map fun e => (e.1, e.2.1) := by
      refine List.map_congr_left fun e he => ?_
      have hc : e.2.1 = c := of_decide_eq_true (List.mem_filter.1 he).2
      simp [hc]
    rw [hsame]
    exact hinv.nodup.sublist (List.filter_sublist.map _)
  · rw [hinv.rows c, List.map_map]
    rfl
  · obtain ⟨e, he, heq⟩ := List.mem_map.1 hmem
    obtain ⟨he, hc⟩ := List.mem_filter.1 he
    have hc : e.2.1 = c := of_decide_eq_true hc
    obtain ⟨rfl, rfl⟩ := Prod.mk.inj heq
    obtain ⟨k, hk⟩ := Option.isSome_iff_exists.1
      ((List.getElem?_eq_some_iff (l := s.calls) (i := e.1)).2 ⟨hinv.bound e he, rfl⟩ ▸ rfl :
        (s.calls[e.1]?).isSome)
    have hok := hinv.calls e.1 k hk
    obtain ⟨stored, hentries, hlog⟩ := hok.progress
    refine ⟨k, hk, ?_, fun error hraised => hok.raised error hraised e he rfl⟩
    rw [hentries]
    exact List.mem_append_left _ ((hlog c e.2.2).1 (hc ▸ he))
  · have hok := hinv.calls n k hn
    obtain ⟨stored, hentries, hlog⟩ := hok.progress
    rw [hok.returned hreturned, List.append_nil] at hentries
    rw [hentries] at hentry
    exact List.mem_map.2 ⟨(n, c, d),
      List.mem_filter.2 ⟨(hlog c d).2 hentry, decide_eq_true rfl⟩, rfl⟩
  · obtain hshows | ⟨n, k, hn, hactive, -⟩ := hinv.cache c hc
    · exact hshows
    · exact absurd hactive (hended k (List.mem_of_getElem? hn))

/-! ### Runs -/

def mailDefaults (category : String) : Data :=
  if category = "mail" then
    ofItems [("notify_wait_seconds", .number .float 120), ("bell_badge_counts_new_mail", .number .bool 1)]
  else ∅

def mailRow : Table := Finmap.singleton "mail" (ofItems [("bell_badge_counts_new_mail", .number .bool 1)])

def service : State where
  rows := mailRow
  cache := loaded mailDefaults mailRow
  calls := []
  before := mailRow
  log := []

/-- An update and an import of two categories, and an update of a wrong type between. -/
def keptRun : List Label :=
  [.update "mail" [("notify_wait_seconds", .number .int 60)], .read 0,
    .bulkImport [("calendar", [("default_reminder_minutes", .number .int 5)]),
      ("mail", [("bell_badge_counts_new_mail", .number .bool 0)])],
    .write 0, .read 1, .write 1, .update "mail" [("notify_wait_seconds", .text "soon")],
    .read 1, .write 1, .refresh 0, .refresh 1, .assign 0, .assign 1]

theorem overlapping_updates_are_kept : ∃ s : State,
    s.rows.lookup "mail" = some (ofItems [("notify_wait_seconds", .number .float 60),
      ("bell_badge_counts_new_mail", .number .bool 0)]) ∧
    ∀ c ∈ settingCategories, Shows mailDefaults s c := by
  have hmeets : (system mailDefaults).execMeets Undisturbed service keptRun = true := by
    decide +kernel
  have hrun : ((system mailDefaults).exec service keptRun).any (fun s =>
      decide (Ended s ∧
        s.rows.lookup "mail" = some (ofItems [("notify_wait_seconds", .number .float 60),
          ("bell_badge_counts_new_mail", .number .bool 0)]))) = true := by
    decide +kernel
  obtain ⟨s, hexec, hafter⟩ := (Option.any_eq_true _ _).1 hrun
  obtain ⟨hended, hrow⟩ := of_decide_eq_true hafter
  have h := updates_are_kept (TransitionSystem.reachable_of_exec _ ⟨rfl, rfl, rfl, rfl⟩ hmeets hexec)
  exact ⟨s, hrow, h.2 hended⟩

/-- Two updates of different keys, each of which has read the row before the other wrote it:
both return, and the key of the first is not stored. -/
theorem update_is_lost : ∃ s : State,
    (system mailDefaults).Reachable TransitionSystem.anyStep s ∧
      (∀ k ∈ s.calls, k.phase = .returned) ∧
      ∃ k ∈ s.calls, ("mail", ofItems [("notify_wait_seconds", .number .float 60)]) ∈ k.entries ∧
        (s.rows.lookup "mail").bind (Finmap.lookup "notify_wait_seconds") = none := by
  have hrun : ((system mailDefaults).exec service
      [.update "mail" [("notify_wait_seconds", .number .int 60)],
        .update "mail" [("mark_read_on_file_to_archive_or_junk", .number .bool 0)],
        .read 0, .read 1, .write 0, .write 1, .refresh 0, .refresh 1, .assign 0, .assign 1]).any
      (fun s => decide ((∀ k ∈ s.calls, k.phase = .returned) ∧
        ∃ k ∈ s.calls, ("mail", ofItems [("notify_wait_seconds", .number .float 60)]) ∈ k.entries ∧
          (s.rows.lookup "mail").bind (Finmap.lookup "notify_wait_seconds") = none)) = true := by
    decide +kernel
  obtain ⟨s, hexec, hafter⟩ := (Option.any_eq_true _ _).1 hrun
  exact ⟨s, TransitionSystem.reachable_of_exec_any _ ⟨rfl, rfl, rfl, rfl⟩ hexec,
    of_decide_eq_true hafter⟩

end MailVerdict.Analysis.SettingsKept
