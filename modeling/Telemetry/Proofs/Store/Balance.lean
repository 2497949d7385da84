import Telemetry.Proofs.Store.Contents

/-!
# What the entries of a name come to

The value under a name is determined by the entries that were written there: a counter holds the
exact sum of its entries, a gauge the number of the last one, and the kind is that of the first. The
invariant is said of one name at a time, so a write leaves it alone for every other name. Where the
entries find something stored already, that counts as the first of them.
-/

namespace Telemetry

open Number

/-- What an entry adds to a counter. -/
def Value.amount : Value → Int
  | .counter n => n.toInt
  | .gauge _ => 0

def total : List Record → Int
  | [] => 0
  | entry :: entries => entry.value.amount + total entries

def entriesOf (name : String) (entries : List Record) : List Record :=
  entries.filter fun entry => entry.name == name

/-- A stored value is what the entries of its name come to. -/
def Value.Balances (value : Value) (entries : List Record) : Prop :=
  match value with
  | .counter n => n.toInt = total entries ∧
    -0x8000000000000000 ≤ total entries ∧ total entries < 0x8000000000000000
  | .gauge x => x.isFinite = true ∧
    ∃ last y, entries.getLast? = some last ∧ last.value = .gauge y ∧ x.plain = y.plain

/-- A record is what the entries of its name come to. -/
structure Record.Balances (record : Record) (entries : List Record) : Prop where
  named : record.name ≠ ""
  first : entries.head?.map Record.kind = some record.kind
  kinds : ∀ entry ∈ entries, entry.kind = record.kind
  value : record.value.Balances entries

/-! ### Appending an entry -/

theorem total_append (entries more : List Record) :
    total (entries ++ more) = total entries + total more := by
  induction entries with
  | nil => exact (Int.zero_add _).symm
  | cons entry entries ih => rw [List.cons_append, total, total, ih, Int.add_assoc]

theorem total_singleton (entry : Record) : total [entry] = entry.value.amount := Int.add_zero _

theorem entriesOf_append (name : String) (entries more : List Record) :
    entriesOf name (entries ++ more) = entriesOf name entries ++ entriesOf name more :=
  List.filter_append ..

theorem entriesOf_append_self (entries : List Record) (entry : Record) :
    entriesOf entry.name (entries ++ [entry]) = entriesOf entry.name entries ++ [entry] := by
  simp [entriesOf]

theorem entriesOf_append_of_ne {name : String} (entries : List Record) {entry : Record}
    (hne : name ≠ entry.name) : entriesOf name (entries ++ [entry]) = entriesOf name entries := by
  simp [entriesOf, Ne.symm hne]

theorem Value.balances_gauge_append {m : Medium} {entry : Record} {y : Binary64}
    (hvalue : entry.value = .gauge y) (hfinite : y.isFinite = true) (entries : List Record) :
    (Value.gauge (m.keep y)).Balances (entries ++ [entry]) := by
  refine ⟨(m.isFinite_keep y).trans hfinite, entry, y, ?_, hvalue, m.plain_keep y⟩
  exact List.getLast?_concat

theorem Value.balances_counter {n : Int64} {entries : List Record} (h : n.toInt = total entries) :
    (Value.counter n).Balances entries := by
  have hlow := n.le_toInt
  have hhigh := n.toInt_lt
  rw [h] at hlow hhigh
  exact ⟨h, hlow, hhigh⟩

namespace Record.Balances

variable {m : Medium} {entry : Record} {value : Value} {entries : List Record}

/-- The first entry of a name makes its record. -/
theorem create (hnamed : entry.name ≠ "") (hfinite : entry.value.isFinite = true)
    (hnext : m.next entry none = .ok value) : (⟨entry.name, value⟩ : Record).Balances [entry] := by
  obtain ⟨_, rfl⟩ := Medium.next_none_ok hnext
  have hkind : (⟨entry.name, m.kept entry.value⟩ : Record).kind = entry.kind :=
    m.kind_kept entry.value
  refine ⟨hnamed, ?_, fun other hmem => ?_, ?_⟩
  · rw [hkind]
    rfl
  · rw [List.mem_singleton.1 hmem, hkind]
  · obtain ⟨name, written⟩ := entry
    cases written with
    | gauge y => exact Value.balances_gauge_append (m := m) rfl hfinite []
    | counter n => exact Value.balances_counter (total_singleton ⟨name, .counter n⟩).symm

/-- A further entry of a name is added to its counter, or replaces its gauge. -/
theorem observe {stored : Value} (h : (⟨entry.name, stored⟩ : Record).Balances entries)
    (hfinite : entry.value.isFinite = true) (hnext : m.next entry (some stored) = .ok value) :
    (⟨entry.name, value⟩ : Record).Balances (entries ++ [entry]) := by
  obtain ⟨hstored, hvalue⟩ := Medium.kind_next hnext
  have hkind : (⟨entry.name, value⟩ : Record).kind = (⟨entry.name, stored⟩ : Record).kind := hvalue
  refine ⟨h.named, ?_, fun other hmem => ?_, ?_⟩
  · rw [hkind, List.head?_append, Option.map_or, h.first]
    rfl
  · rw [hkind]
    rcases List.mem_append.1 hmem with hmem | hmem
    · exact h.kinds other hmem
    · rw [List.mem_singleton.1 hmem]
      exact hstored.symm
  · rcases Medium.next_ok hnext with ⟨n, delta, sum, rfl, hentry, rfl, hsum⟩ | ⟨x, y, rfl, hentry, rfl⟩
    · apply Value.balances_counter
      rw [total_append, total_singleton, hentry, hsum, h.value.1]
      rfl
    · rw [hentry] at hfinite
      exact Value.balances_gauge_append hentry hfinite entries

end Record.Balances

namespace Contents

/-- A name is stored exactly when it has entries, as the record that they come to. -/
def Balances (c : Contents) (entries : List Record) : Prop :=
  ∀ name, match c.record? name with
    | none => entriesOf name entries = []
    | some record => record.Balances (entriesOf name entries)

theorem balances_empty : empty.Balances [] := fun _ => rfl

variable {m : Medium} {c after : Contents} {entries : List Record}

theorem Balances.write (h : c.Balances entries) {record : Record} (hnamed : record.name ≠ "")
    (hfinite : record.value.isFinite = true) (hwrite : c.write m record = (.ok (), after)) :
    after.Balances (entries ++ [record]) := by
  obtain ⟨value, hnext, rfl⟩ := write_ok_iff.1 hwrite
  intro name
  have hname := h name
  by_cases hsame : name = record.name
  · subst hsame
    rw [entriesOf_append_self]
    simp only [record?, set_self, Option.map_some]
    cases hstored : c record.name with
    | none =>
      simp only [record?, hstored, Option.map_none] at hname
      rw [hstored] at hnext
      rw [hname]
      exact .create hnamed hfinite hnext
    | some stored =>
      simp only [record?, hstored, Option.map_some] at hname
      rw [hstored] at hnext
      exact hname.observe hfinite hnext
  · rw [entriesOf_append_of_ne entries hsame]
    simp only [record?, set_of_ne _ _ hsame]
    exact hname

theorem Balances.enterAll (h : c.Balances entries) {records : List Record}
    (hrecords : ∀ record ∈ records, record.name ≠ "" ∧ record.value.isFinite = true)
    (henter : c.enterAll m (records.map .ok) = (.ok (), after)) :
    after.Balances (entries ++ records) := by
  induction records generalizing c entries with
  | nil =>
    cases henter
    rw [List.append_nil]
    exact h
  | cons record records ih =>
    obtain ⟨hnamed, hfinite⟩ := hrecords record List.mem_cons_self
    simp only [List.map_cons, Contents.enterAll, enter] at henter
    rcases hwrite : c.write m record with ⟨failure | ⟨⟨⟩⟩, middle⟩
    · rw [hwrite] at henter
      cases henter
    · rw [hwrite] at henter
      have hrest := ih (h.write hnamed hfinite hwrite)
        (fun other hmem => hrecords other (List.mem_cons_of_mem _ hmem)) henter
      rw [List.append_assoc] at hrest
      exact hrest

/-- Entries that are not all written are written up to one that the contents refuse then. -/
theorem enterAll_error {records : List Record} {failure : Failure}
    (henter : c.enterAll m (records.map .ok) = (.error failure, after)) :
    ∃ done entry rest, records = done ++ entry :: rest ∧
      c.enterAll m (done.map .ok) = (.ok (), after) ∧
      m.next entry (after entry.name) = .error failure := by
  induction records generalizing c with
  | nil => cases henter
  | cons record records ih =>
    simp only [List.map_cons, Contents.enterAll, enter] at henter
    rcases hwrite : c.write m record with ⟨refused | ⟨⟨⟩⟩, middle⟩
    · rw [hwrite] at henter
      cases henter
      obtain ⟨hnext, rfl⟩ := write_error_iff.1 hwrite
      exact ⟨[], record, records, rfl, rfl, hnext⟩
    · rw [hwrite] at henter
      obtain ⟨done, entry, rest, rfl, hdone, hnext⟩ := ih henter
      refine ⟨record :: done, entry, rest, rfl, ?_, hnext⟩
      simp only [List.map_cons, Contents.enterAll, enter, hwrite]
      exact hdone

/-- What comes after a refused entry does not matter. -/
theorem enterAll_stops {done : List Record} {entry : Record} {failure : Failure}
    (hdone : c.enterAll m (done.map .ok) = (.ok (), after))
    (hnext : m.next entry (after entry.name) = .error failure) (rest : List Record) :
    c.enterAll m ((done ++ entry :: rest).map .ok) = (.error failure, after) := by
  induction done generalizing c with
  | nil =>
    cases hdone
    have hwrite : after.write m entry = (.error failure, after) := write_error_iff.2 ⟨hnext, rfl⟩
    simp only [List.nil_append, List.map_cons, Contents.enterAll, enter, hwrite]
  | cons record done ih =>
    simp only [List.cons_append, List.map_cons, Contents.enterAll, enter] at hdone ⊢
    rcases hwrite : c.write m record with ⟨refused | ⟨⟨⟩⟩, middle⟩ <;> rw [hwrite] at hdone
    · cases hdone
    · exact ih hdone

end Contents

/-! ### Entries after what was stored before -/

/-- What is stored under a name after entries of this name were written: what was stored before if there
are none; else a counter of all that was counted, or a gauge with the number of the last one. -/
def Accrues (before : Option Record) (entries : List Record) (after : Option Record) : Prop :=
  match entries.getLast? with
  | none => after = before
  | some last => ∃ record, after = some record ∧ record.name = last.name ∧
    (∀ entry ∈ before.toList ++ entries, entry.kind = record.kind) ∧
    match record.value with
    | .counter n => n.toInt = total (before.toList ++ entries)
    | .gauge x => ∃ y, last.value = .gauge y ∧ x.plain = y.plain

namespace Accrues

variable {m : Medium} {before : Option Record} {entries : List Record} {entry stored : Record}

theorem absent (h : Accrues before entries none) : before = none ∧ entries = [] := by
  unfold Accrues at h
  split at h
  · rename_i hlast
    exact ⟨h.symm, List.getLast?_eq_none_iff.1 hlast⟩
  · obtain ⟨record, hrecord, -⟩ := h
    cases hrecord

theorem present (h : Accrues before entries (some stored)) :
    (∀ other ∈ before.toList ++ entries, other.kind = stored.kind) ∧
      ∀ n, stored.value = .counter n → n.toInt = total (before.toList ++ entries) := by
  unfold Accrues at h
  split at h
  · rename_i hlast
    rw [List.getLast?_eq_none_iff.1 hlast, ← h, Option.toList_some, List.append_nil]
    refine ⟨fun other hmem => by rw [List.mem_singleton.1 hmem], fun n hvalue => ?_⟩
    rw [total_singleton, hvalue]
    rfl
  · obtain ⟨record, hrecord, -, hkinds, hvalue⟩ := h
    cases hrecord
    refine ⟨hkinds, fun n hcounter => ?_⟩
    rw [hcounter] at hvalue
    exact hvalue

/-- A further entry is added to what is stored, or replaces it. -/
theorem observe {found : Option Value} {value : Value}
    (h : Accrues before entries (found.map (Record.mk entry.name)))
    (hnext : m.next entry found = .ok value) :
    Accrues before (entries ++ [entry]) (some ⟨entry.name, value⟩) := by
  rw [Accrues, List.getLast?_concat]
  refine ⟨⟨entry.name, value⟩, rfl, rfl, ?_⟩
  rw [← List.append_assoc, total_append, total_singleton]
  cases found with
  | none =>
    obtain ⟨rfl, rfl⟩ := absent h
    obtain ⟨-, rfl⟩ := Medium.next_none_ok hnext
    obtain ⟨name, value⟩ := entry
    refine ⟨fun other hmem => ?_, ?_⟩
    · rw [List.mem_singleton.1 hmem]
      exact (m.kind_kept value).symm
    · cases value with
      | gauge y => exact ⟨y, rfl, m.plain_keep y⟩
      | counter n => exact (Int.zero_add _).symm
  | some old =>
    obtain ⟨hkinds, htotal⟩ := present h
    obtain ⟨hold, hvalue⟩ := Medium.kind_next hnext
    refine ⟨fun other hmem => ?_, ?_⟩
    · rcases List.mem_append.1 hmem with hmem | hmem
      · exact (hkinds other hmem).trans hvalue.symm
      · rw [List.mem_singleton.1 hmem]
        exact hold.symm.trans hvalue.symm
    · rcases Medium.next_ok hnext with ⟨n, delta, sum, rfl, hentry, rfl, hsum⟩
        | ⟨x, y, rfl, hentry, rfl⟩
      · rw [hentry, ← htotal n rfl]
        exact hsum
      · exact ⟨y, hentry, m.plain_keep y⟩

theorem enterAll {c after : Contents} {name : String} (h : Accrues before entries (c.record? name))
    {records : List Record} (henter : c.enterAll m (records.map .ok) = (.ok (), after)) :
    Accrues before (entries ++ entriesOf name records) (after.record? name) := by
  induction records generalizing c entries with
  | nil =>
    cases henter
    rw [entriesOf, List.filter_nil, List.append_nil]
    exact h
  | cons record records ih =>
    simp only [List.map_cons, Contents.enterAll, Contents.enter] at henter
    rcases hwrite : c.write m record with ⟨failure | ⟨⟨⟩⟩, middle⟩ <;> rw [hwrite] at henter
    · cases henter
    · obtain ⟨value, hnext, rfl⟩ := Contents.write_ok_iff.1 hwrite
      by_cases hname : record.name = name
      · subst hname
        have hmiddle : (c.set record.name value).record? record.name = some ⟨record.name, value⟩ := by
          rw [Contents.record?, Contents.set_self, Option.map_some]
        have hrest := ih (hmiddle ▸ h.observe hnext) henter
        rw [List.append_assoc] at hrest
        rw [entriesOf, List.filter_cons_of_pos (by simp)]
        exact hrest
      · have hmiddle : (c.set record.name value).record? name = c.record? name := by
          rw [Contents.record?, Contents.set_of_ne _ _ (Ne.symm hname), Contents.record?]
        rw [entriesOf, List.filter_cons_of_neg (by simpa using hname)]
        exact ih (hmiddle ▸ h) henter

end Accrues

theorem Contents.records_of_enterAll {m : Medium} {c after : Contents}
    {entries : List (Except Failure Record)} (h : c.enterAll m entries = (.ok (), after)) :
    ∃ records : List Record, entries = records.map .ok := by
  induction entries generalizing c with
  | nil => exact ⟨[], rfl⟩
  | cons entry entries ih =>
    rw [enterAll] at h
    cases entry with
    | error failure => cases h
    | ok record =>
      rw [enter] at h
      rcases hwrite : c.write m record with ⟨failure | ⟨⟨⟩⟩, middle⟩ <;> rw [hwrite] at h
      · cases h
      · obtain ⟨records, rfl⟩ := ih h
        exact ⟨record :: records, rfl⟩

end Telemetry
