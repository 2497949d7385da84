import Telemetry.Proofs.Metric.Text
import Telemetry.Proofs.Service.Query
import Telemetry.Proofs.Store.Listing
import Telemetry.Proofs.Text.Order

/-!
# What a page says of a store

A name can be any text, also one that looks like a row or an entity. Written as a cell it has no angle
bracket, so that a cell ends at the next bracket whatever the name is, and the text of a value has none
either. A page can therefore be taken apart again into its rows, and a row into its name and value: a
page tells which metrics there are and what is shown of them.
-/

namespace Telemetry.Service

/-! ### Cells -/

/-- What stands for a character in a page. -/
def entities : List (List Char) :=
  ["&lt;".toList, "&gt;".toList, "&amp;".toList, "&quot;".toList]

def unescape : List Char → List Char
  | [] => []
  | '&' :: 'l' :: 't' :: ';' :: cs => '<' :: unescape cs
  | '&' :: 'g' :: 't' :: ';' :: cs => '>' :: unescape cs
  | '&' :: 'a' :: 'm' :: 'p' :: ';' :: cs => '&' :: unescape cs
  | '&' :: 'q' :: 'u' :: 'o' :: 't' :: ';' :: cs => '"' :: unescape cs
  | c :: cs => c :: unescape cs

theorem escapeChar_cases (c : Char) :
    (c = '<' ∧ escapeChar c = ['&', 'l', 't', ';']) ∨
      (c = '>' ∧ escapeChar c = ['&', 'g', 't', ';']) ∨
      (c = '&' ∧ escapeChar c = ['&', 'a', 'm', 'p', ';']) ∨
      (c = '"' ∧ escapeChar c = ['&', 'q', 'u', 'o', 't', ';']) ∨
      (c ≠ '<' ∧ c ≠ '>' ∧ c ≠ '&' ∧ c ≠ '"') ∧ escapeChar c = [c] := by
  by_cases hless : c = '<'
  · subst hless
    exact .inl ⟨rfl, rfl⟩
  by_cases hgreater : c = '>'
  · subst hgreater
    exact .inr (.inl ⟨rfl, rfl⟩)
  by_cases hand : c = '&'
  · subst hand
    exact .inr (.inr (.inl ⟨rfl, rfl⟩))
  by_cases hquote : c = '"'
  · subst hquote
    exact .inr (.inr (.inr (.inl ⟨rfl, rfl⟩)))
  refine .inr (.inr (.inr (.inr ⟨⟨hless, hgreater, hand, hquote⟩, ?_⟩)))
  rw [escapeChar, if_neg hless, if_neg hgreater, if_neg hand, if_neg hquote]

theorem unescape_escapeChar (c : Char) (cs : List Char) :
    unescape (escapeChar c ++ cs) = c :: unescape cs := by
  rcases escapeChar_cases c with ⟨rfl, h⟩ | ⟨rfl, h⟩ | ⟨rfl, h⟩ | ⟨rfl, h⟩ | ⟨⟨-, -, hand, -⟩, h⟩ <;>
    rw [h]
  · rfl
  · rfl
  · rfl
  · rfl
  · simp [unescape, hand]

theorem unescape_escape (name : String) : unescape (escape name) = name.toList := by
  unfold escape
  induction name.toList with
  | nil => rfl
  | cons c cs ih => rw [List.flatMap_cons, unescape_escapeChar, ih]

theorem escape_inj {name other : String} (h : escape name = escape other) : name = other := by
  rw [← String.toList_inj, ← unescape_escape, h, unescape_escape]

/-- What stands in a cell: no bracket, no quote, and an ampersand only as the start of an entity. -/
structure IsCell (cell : List Char) : Prop where
  less : '<' ∉ cell
  greater : '>' ∉ cell
  quote : '"' ∉ cell
  ampersand {after : List Char} (h : '&' :: after <:+ cell) :
    ∃ entity ∈ entities, entity <+: '&' :: after

theorem suffix_of_notMem {c : Char} {after left right : List Char} (hnot : c ∉ left)
    (h : c :: after <:+ left ++ right) : c :: after <:+ right := by
  induction left with
  | nil => exact h
  | cons d left ih =>
    rw [List.mem_cons, not_or] at hnot
    rcases List.suffix_cons_iff.1 h with heq | hrest
    · exact absurd (List.cons.inj heq).1 hnot.1
    · exact ih hnot.2 hrest

variable {cell tail : List Char}

theorem IsCell.entity_append (h : IsCell cell) (hmem : '&' :: tail ∈ entities)
    (htail : ∀ special ∈ ['<', '>', '"', '&'], special ∉ tail) : IsCell ('&' :: tail ++ cell) := by
  simp only [List.forall_mem_cons, List.not_mem_nil, false_imp_iff, implies_true, and_true] at htail
  obtain ⟨hless, hgreater, hquote, hand⟩ := htail
  refine ⟨?_, ?_, ?_, fun {after} hafter => ?_⟩
  · simp [hless, h.less]
  · simp [hgreater, h.greater]
  · simp [hquote, h.quote]
  · rcases List.suffix_cons_iff.1 hafter with heq | hrest
    · exact ⟨_, hmem, heq ▸ List.prefix_append ('&' :: tail) cell⟩
    · exact h.ampersand (suffix_of_notMem hand hrest)

theorem IsCell.cons (h : IsCell cell) {c : Char} (hless : c ≠ '<') (hgreater : c ≠ '>')
    (hand : c ≠ '&') (hquote : c ≠ '"') : IsCell (c :: cell) where
  less := List.not_mem_cons_of_ne_of_not_mem hless.symm h.less
  greater := List.not_mem_cons_of_ne_of_not_mem hgreater.symm h.greater
  quote := List.not_mem_cons_of_ne_of_not_mem hquote.symm h.quote
  ampersand hafter := by
    rcases List.suffix_cons_iff.1 hafter with heq | hrest
    · exact absurd (List.cons.inj heq).1.symm hand
    · exact h.ampersand hrest

theorem isCell_escape (name : String) : IsCell (escape name) := by
  unfold escape
  induction name.toList with
  | nil => exact ⟨List.not_mem_nil, List.not_mem_nil, List.not_mem_nil, by simp⟩
  | cons c cs ih =>
    rw [List.flatMap_cons]
    rcases escapeChar_cases c with
      ⟨-, hc⟩ | ⟨-, hc⟩ | ⟨-, hc⟩ | ⟨-, hc⟩ | ⟨⟨hless, hgreater, hand, hquote⟩, hc⟩ <;> rw [hc]
    · exact ih.entity_append (by simp [entities]) (by simp)
    · exact ih.entity_append (by simp [entities]) (by simp)
    · exact ih.entity_append (by simp [entities]) (by simp)
    · exact ih.entity_append (by simp [entities]) (by simp)
    · exact ih.cons hless hgreater hand hquote

/-! ### Rows -/

def shown (record : Record) : String × String := (record.name, record.value.text)

theorem less_notMem_text (value : Value) : '<' ∉ value.text.toList := by
  have hdigits (n : Nat) : ∀ c ∈ Number.Layout.digitsOf n, c ≠ '<' := by
    rintro c hc rfl
    cases Json.Numeral.isDigit_digitsOf hc
  suffices hall : ∀ c ∈ value.text.toList, c ≠ '<' from fun hmem => hall _ hmem rfl
  cases value with
  | counter n =>
    rw [Value.text, String.toList_ofList, integerText]
    split
    · exact List.forall_mem_cons.2 ⟨by decide, hdigits _⟩
    · exact hdigits _
  | gauge x =>
    rw [Value.text, String.toList_ofList]
    cases x with
    | nan => simp [gaugeText]
    | infinite negative => cases negative <;> simp [gaugeText]
    | finite negative m =>
      have hpositional (digits : Nat) (point : Int) :
          ∀ c ∈ gaugeLayout.positionalText (Number.Layout.digitsOf digits) point, c ≠ '<' :=
        Json.Numeral.forall_positionalText gaugeLayout point (hdigits digits) (by decide) (by decide)
      change ∀ c ∈ gaugeLayout.finiteText negative m, c ≠ '<'
      rw [Number.Layout.finiteText, Number.Layout.magnitudeText_eq rfl, List.forall_mem_append]
      refine ⟨?_, hpositional _ _⟩
      cases negative <;> simp

/-- The brackets of a row stand at the ends of what it shows. -/
theorem pageRow_append (record : Record) (rest : List Char) :
    pageRow record ++ rest = "<tr><td>".toList ++ (escape record.name ++ '<' ::
      ("/td><td>".toList ++ (record.value.text.toList ++ '<' :: ("/td></tr>".toList ++ rest)))) := by
  unfold pageRow
  generalize escape record.name = cell
  simp

/-- A text before the first of its brackets is determined by the whole. -/
theorem append_cons_inj {c : Char} {left left' right right' : List Char} (h : c ∉ left)
    (h' : c ∉ left') (heq : left ++ c :: right = left' ++ c :: right') :
    left = left' ∧ right = right' := by
  induction left generalizing left' with
  | nil =>
    cases left' with
    | nil => exact ⟨rfl, (List.cons.inj heq).2⟩
    | cons d left' =>
      rw [List.nil_append, List.cons_append, List.cons.injEq] at heq
      exact absurd (heq.1 ▸ List.mem_cons_self) h'
  | cons d left ih =>
    cases left' with
    | nil =>
      rw [List.nil_append, List.cons_append, List.cons.injEq] at heq
      exact absurd (heq.1 ▸ List.mem_cons_self) h
    | cons d' left' =>
      rw [List.cons_append, List.cons_append, List.cons.injEq] at heq
      obtain ⟨rfl, hrest⟩ := heq
      obtain ⟨rfl, rfl⟩ := ih (fun hc => h (List.mem_cons_of_mem d hc))
        (fun hc => h' (List.mem_cons_of_mem d hc)) hrest
      exact ⟨rfl, rfl⟩

theorem pageRow_inj {left right : Record} {rest rest' : List Char}
    (h : pageRow left ++ rest = pageRow right ++ rest') : shown left = shown right ∧ rest = rest' := by
  rw [pageRow_append, pageRow_append, List.append_cancel_left_eq] at h
  obtain ⟨hname, htail⟩ := append_cons_inj (isCell_escape left.name).less
    (isCell_escape right.name).less h
  rw [List.append_cancel_left_eq] at htail
  obtain ⟨htext, hrest⟩ := append_cons_inj (less_notMem_text left.value)
    (less_notMem_text right.value) htail
  exact ⟨Prod.ext (escape_inj hname) (String.toList_inj.1 htext), List.append_cancel_left hrest⟩

/-- The rows end where the end of the page begins. -/
theorem rows_inj {left right : List Record}
    (h : left.flatMap pageRow ++ pageEnd = right.flatMap pageRow ++ pageEnd) :
    left.map shown = right.map shown := by
  have hend (record : Record) (rest : List Char) : pageRow record ++ rest ≠ pageEnd := by
    intro heq
    have hsecond := congrArg (fun cs => cs[1]?) heq
    rw [pageRow_append] at hsecond
    cases hsecond
  induction left generalizing right with
  | nil =>
    cases right with
    | nil => rfl
    | cons record right =>
      rw [List.flatMap_cons, List.append_assoc] at h
      exact absurd h.symm (hend record _)
  | cons record left ih =>
    cases right with
    | nil =>
      rw [List.flatMap_cons, List.append_assoc] at h
      exact absurd h (hend record _)
    | cons record' right =>
      rw [List.flatMap_cons, List.flatMap_cons, List.append_assoc, List.append_assoc] at h
      obtain ⟨hshown, hrest⟩ := pageRow_inj h
      rw [List.map_cons, List.map_cons, hshown, ih hrest]

/-! ### Pages -/

/-- Names that are all different are in strictly ascending order once they are sorted. -/
theorem sortByName_ascends {records : List Record} (hdistinct : (records.map Record.name).Nodup) :
    (sortByName records).Pairwise fun a b => a.name < b.name := by
  have hnames : ((sortByName records).map Record.name).Nodup :=
    ((List.mergeSort_perm _ _).map Record.name).nodup_iff.2 hdistinct
  refine (pairwise_sortByName records).imp₂ (fun a b hle hne => ?_) (List.pairwise_map.1 hnames)
  exact String.not_le.1 fun hge => hne (String.le_antisymm hle hge)

theorem find?_sortByName {records : List Record} (hdistinct : (records.map Record.name).Nodup)
    (name : String) : (sortByName records).find? (fun record => record.name == name)
      = records.find? fun record => record.name == name := by
  have hlists := Contents.lists_ofRecords hdistinct
  have hsorted : (Contents.ofRecords records).Lists (sortByName records) :=
    ⟨((List.mergeSort_perm _ _).map Record.name).nodup_iff.2 hdistinct, fun record =>
      List.mem_mergeSort.trans (hlists.2 record)⟩
  rw [← hsorted.record?, hlists.record?]

/-- The text of a page with one row for each metric that a look-up finds, in the order of the bytes of
the names. -/
def IsPageOf {σ : Type} [Repository σ] (world : World σ) (text : String) : Prop :=
  ∃ records : List Record,
    text = String.ofList (pageStart ++ records.flatMap pageRow ++ pageEnd) ∧
    (records.Pairwise fun a b => Bytes.ofString a.name < Bytes.ofString b.name) ∧
    ∀ name, Repository.get name world
      = (.ok (records.find? fun record => record.name == name), world)

/-- What a look-up shows under a name. -/
def shownUnder {σ : Type} [Repository σ] (name : String) (world : World σ) :
    Except Failure (Option String) :=
  (Repository.get name world).1.map (Option.map fun record => record.value.text)

theorem isPageOf_indexPage {σ : Type} [Repository σ] {world : World σ} {records : List Record}
    (h : Repository.Listed world records) (hdistinct : (records.map Record.name).Nodup) :
    ∃ text, indexPage world = (.ok text, world) ∧ IsPageOf world text := by
  have hpage : indexPage world = (.ok (String.ofList (page records)), world) := by
    rw [indexPage, Action.bind_apply, h.getAll]
    rfl
  refine ⟨_, hpage, sortByName records, rfl, ?_, fun name => ?_⟩
  · exact (sortByName_ascends hdistinct).imp Bytes.ofString_lt
  · rw [h.get, find?_sortByName hdistinct]

theorem shownUnder_eq {σ : Type} [Repository σ] {world : World σ} {records : List Record}
    (h : ∀ name, Repository.get name world
      = (.ok (records.find? fun record => record.name == name), world)) (name : String) :
    shownUnder name world
      = .ok (((records.map shown).find? fun row => row.1 == name).map Prod.snd) := by
  rw [shownUnder, h, List.find?_map, Option.map_map]
  rfl

/-- Of rows with different names, the one that is found under a name is the one of this name. -/
theorem mem_iff_find? {rows : List (String × String)} (hdistinct : (rows.map Prod.fst).Nodup)
    (row : String × String) :
    row ∈ rows ↔ (rows.find? fun other => other.1 == row.1).map Prod.snd = some row.2 := by
  rw [Option.map_eq_some_iff]
  constructor
  · intro hmem
    have hsome : (rows.find? fun other => other.1 == row.1).isSome :=
      List.find?_isSome.2 ⟨row, hmem, by simp⟩
    obtain ⟨other, hother⟩ := Option.isSome_iff_exists.1 hsome
    have hname : other.1 = row.1 := by simpa using List.find?_some hother
    have hsame := List.inj_on_of_nodup_map hdistinct (List.mem_of_find?_eq_some hother) hmem hname
    exact ⟨other, hother, congrArg Prod.snd hsame⟩
  · rintro ⟨other, hother, htext⟩
    have hname : other.1 = row.1 := by simpa using List.find?_some hother
    exact Prod.ext hname htext ▸ List.mem_of_find?_eq_some hother

/-- Rows in strictly ascending order are determined by what is found among them. -/
theorem rows_eq_of_find? {rows rows' : List (String × String)}
    (h : rows.Pairwise fun a b => Bytes.ofString a.1 < Bytes.ofString b.1)
    (h' : rows'.Pairwise fun a b => Bytes.ofString a.1 < Bytes.ofString b.1)
    (hsame : ∀ name, (rows.find? fun row => row.1 == name).map Prod.snd
      = (rows'.find? fun row => row.1 == name).map Prod.snd) : rows = rows' := by
  have hdistinct {rows : List (String × String)}
      (h : rows.Pairwise fun a b => Bytes.ofString a.1 < Bytes.ofString b.1) :
      (rows.map Prod.fst).Nodup := by
    refine List.pairwise_map.2 (h.imp fun {a b} hlt hname => ?_)
    rw [hname] at hlt
    exact List.lt_irrefl _ hlt
  have hperm : rows.Perm rows' := by
    rw [List.perm_ext_iff_of_nodup (hdistinct h).of_map (hdistinct h').of_map]
    intro row
    rw [mem_iff_find? (hdistinct h), mem_iff_find? (hdistinct h'), hsame]
  exact hperm.eq_of_pairwise (fun a b _ _ hab hba => absurd hba (List.lt_asymm hab)) h h'

theorem rows_congr {records records' : List Record} (h : records.map shown = records'.map shown) :
    records.flatMap pageRow = records'.flatMap pageRow := by
  have hrow (records : List Record) : records.flatMap pageRow = (records.map shown).flatMap
      fun row => "<tr><td>".toList ++ escape row.1 ++ "</td><td>".toList ++ row.2.toList
        ++ "</td></tr>".toList := by
    rw [List.flatMap_map]
    rfl
  rw [hrow, hrow, h]

/-- Two pages are the same exactly when the same is shown under every name. -/
theorem IsPageOf.eq_iff {σ τ : Type} [Repository σ] [Repository τ] {world : World σ}
    {other : World τ} {text text' : String} (h : IsPageOf world text) (h' : IsPageOf other text') :
    text = text' ↔ ∀ name, shownUnder name world = shownUnder name other := by
  obtain ⟨records, rfl, hascends, hfound⟩ := h
  obtain ⟨records', rfl, hascends', hfound'⟩ := h'
  simp only [shownUnder_eq hfound, shownUnder_eq hfound', Except.ok.injEq]
  constructor
  · intro heq name
    have hcs := String.ofList_injective heq
    rw [List.append_assoc, List.append_assoc, List.append_cancel_left_eq] at hcs
    rw [rows_inj hcs]
  · intro hsame
    have hrows : records.map shown = records'.map shown :=
      rows_eq_of_find? (List.pairwise_map.2 hascends) (List.pairwise_map.2 hascends') hsame
    rw [rows_congr hrows]

/-- **The page shows what is stored.** Of every store, whatever the names are, the page has one row for
each metric, unless the store is a database that cannot be read, and then the failure is that of reading
it. A cell cannot be taken for anything but text, and its entities give back the name. So two stores have
the same page exactly when they show the same under every name. -/
theorem page_shows_what_is_stored :
    (∀ world : World Store, world.store.HasDistinctNames →
      (∃ text, indexPage world = (.ok text, world) ∧ IsPageOf world text) ∨
        ∃ part failure after, world.store = .sql part ∧
          Repository.getAll world = (.error failure, after) ∧
          indexPage world = (.error failure, after)) ∧
    (∀ name, IsCell (escape name) ∧ unescape (escape name) = name.toList) ∧
    ∀ world other : World Store, ∀ text text', world.store.HasDistinctNames →
      other.store.HasDistinctNames → indexPage world = (.ok text, world) →
      indexPage other = (.ok text', other) →
      (text = text' ↔ ∀ name, shownUnder name world = shownUnder name other) := by
  have hpage (world : World Store) (h : world.store.HasDistinctNames) :
      (∃ text, indexPage world = (.ok text, world) ∧ IsPageOf world text) ∨
        ∃ part failure after, world.store = .sql part ∧
          Repository.getAll world = (.error failure, after) ∧
          indexPage world = (.error failure, after) := by
    obtain ⟨records, hlisted, hdistinct⟩ | ⟨part, failure, after, hstore, hall⟩ :=
      Store.getAll_cases world h
    · exact .inl (isPageOf_indexPage hlisted hdistinct)
    · refine .inr ⟨part, failure, after, hstore, hall, ?_⟩
      rw [indexPage, Action.bind_apply, hall]
  refine ⟨hpage, fun name => ⟨isCell_escape name, unescape_escape name⟩, ?_⟩
  intro world other text text' hworld hother htext htext'
  have hshows {world : World Store} {text : String} (h : world.store.HasDistinctNames)
      (htext : indexPage world = (.ok text, world)) : IsPageOf world text := by
    obtain ⟨found, hfound, hshows⟩ | ⟨part, failure, after, -, -, hfails⟩ := hpage world h
    · cases htext.symm.trans hfound
      exact hshows
    · cases htext.symm.trans hfails
  exact (hshows hworld htext).eq_iff (hshows hother htext')

/-- A name that would make two rows of one, and the two metrics that it pretends to be. -/
theorem page_shows_what_is_stored_injected :
    let host : Host := ⟨[], Counters.empty, 0⟩
    let sly : World Store :=
      ⟨.memory ⟨[⟨"a</td><td>1</td></tr><tr><td>b", .counter 2⟩]⟩, host⟩
    let honest : World Store := ⟨.memory ⟨[⟨"b", .counter 2⟩, ⟨"a", .counter 1⟩]⟩, host⟩
    sly.store.HasDistinctNames ∧ honest.store.HasDistinctNames ∧
      ∃ text text', indexPage sly = (.ok text, sly) ∧ IsPageOf sly text ∧
        indexPage honest = (.ok text', honest) ∧ IsPageOf honest text' ∧ text ≠ text' := by
  intro host sly honest
  have hsly : sly.store.HasDistinctNames := List.nodup_singleton _
  have hhonest : honest.store.HasDistinctNames := by
    change ["b", "a"].Nodup
    decide
  obtain ⟨text, htext, hshows⟩ | ⟨part, -, -, hstore, -⟩ := page_shows_what_is_stored.1 sly hsly
  · obtain ⟨text', htext', hshows'⟩ | ⟨part, -, -, hstore, -⟩ :=
      page_shows_what_is_stored.1 honest hhonest
    · refine ⟨hsly, hhonest, text, text', htext, hshows, htext', hshows', fun heq => ?_⟩
      have hsame := (page_shows_what_is_stored.2.2 sly honest text text' hsly hhonest htext htext').1
        heq "a"
      have hnone : shownUnder "a" sly = .ok none := by rfl
      have hone : shownUnder "a" honest = .ok (some "1") := by rfl
      rw [hnone, hone] at hsame
      cases hsame
    · cases hstore
  · cases hstore

end Telemetry.Service
