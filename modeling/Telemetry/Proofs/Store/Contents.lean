import Telemetry.Store.Repository

/-!
# What a store holds

A store is seen through its contents: the value under each name. Everything that a request can do to
a store is one of two changes of contents, writing a record or writing the entries of a batch, and
the stores differ only in three choices: which names they refuse, which of the two zeros they keep,
and whether a batch that is refused leaves its first entries behind. The rest of the theory knows a
store only through `Repository.Faithful`, which says that the operations of a repository are these
changes.
-/

namespace Telemetry

open Number

namespace Number.Binary64

/-- The number without the sign of a zero. Two finite numbers are numerically equal when they agree
up to this sign. -/
def plain : Binary64 → Binary64
  | .finite negative m => .finite (negative && m.significand ≠ 0) m
  | x => x

@[simp] theorem plain_plain (x : Binary64) : x.plain.plain = x.plain := by
  cases x with
  | nan => rfl
  | infinite negative => rfl
  | finite negative m => cases negative <;> simp [plain]

@[simp] theorem isFinite_plain (x : Binary64) : x.plain.isFinite = x.isFinite := by
  cases x <;> rfl

def negativeZero : Binary64 := .finite true Magnitude64.zero

/-- Only the negative zero loses its sign. -/
theorem plain_eq_self_iff {x : Binary64} : x.plain = x ↔ x ≠ negativeZero := by
  cases x with
  | nan => simp [plain, negativeZero]
  | infinite negative => simp [plain, negativeZero]
  | finite negative m =>
    cases negative with
    | false => simp [plain, negativeZero]
    | true =>
      have hzero : m.significand = 0 ↔ m = Magnitude64.zero := by
        constructor
        · intro hsignificand
          obtain ⟨significand, shift, hcanonical⟩ := m
          change significand = 0 at hsignificand
          subst hsignificand
          have hshift : shift = 0 := hcanonical.2.2.resolve_right (by decide)
          subst hshift
          rfl
        · rintro rfl
          rfl
      simp [plain, negativeZero, hzero]

end Number.Binary64

theorem Sample.toRecord_ok {sample : Sample} {record : Record} (h : sample.toRecord = .ok record) :
    record.name = sample.id ∧ record.name ≠ "" ∧ record.kind = sample.kind ∧
      record.value.isFinite = true := by
  obtain ⟨id, kind, delta, value⟩ := sample
  unfold toRecord at h
  split at h
  · cases h
  · rename_i hname
    cases kind with
    | counter =>
      cases delta with
      | none => cases value <;> cases h
      | some delta =>
        cases h
        exact ⟨rfl, hname, rfl, rfl⟩
    | gauge =>
      cases value with
      | none => cases delta <;> cases h
      | some x =>
        have hcontent : (⟨id, .gauge, delta, some x⟩ : Sample).content = (finiteGauge x).map .gauge := by
          cases delta <;> rfl
        rw [hcontent, finiteGauge] at h
        split at h
        · rename_i hfinite
          cases h
          exact ⟨rfl, hname, rfl, hfinite⟩
        · cases h

/-- The record has a name and a finite value. -/
structure Record.WellFormed (record : Record) : Prop where
  named : record.name ≠ ""
  finite : record.value.isFinite = true

theorem Record.wellFormed_of_sample {sample : Sample} {record : Record}
    (h : sample.toRecord = .ok record) : record.WellFormed := by
  obtain ⟨-, hname, -, hfinite⟩ := Sample.toRecord_ok h
  exact ⟨hname, hfinite⟩

theorem fitsInt64_iff {n : Int} :
    fitsInt64 n = true ↔ -0x8000000000000000 ≤ n ∧ n < 0x8000000000000000 := by
  simp [fitsInt64]

theorem toInt_addExact? {a b sum : Int64} (h : addExact? a b = some sum) :
    sum.toInt = a.toInt + b.toInt := by
  unfold addExact? at h
  split at h
  · rename_i hfits
    obtain ⟨hlow, hhigh⟩ := fitsInt64_iff.1 hfits
    rw [← Option.some.inj h, Int64.toInt_ofInt_of_le hlow hhigh]
  · cases h

theorem fitsInt64_of_addExact? {a b : Int64} (h : addExact? a b = none) :
    fitsInt64 (a.toInt + b.toInt) = false := by
  unfold addExact? at h
  split at h
  · cases h
  · rename_i hfits
    exact Bool.eq_false_iff.2 hfits

/-- The choices of a kind of store. -/
structure Medium where
  /-- Why a metric of this name cannot be created, if it cannot. -/
  refusal : String → Option Failure
  /-- The number that is kept in the place of one that is written. -/
  keep : Binary64 → Binary64
  /-- Whether a batch that is refused leaves nothing behind. -/
  transactional : Bool
  plain_keep : ∀ x, (keep x).plain = x.plain

namespace Medium

/-- The value that is kept in the place of one that is written. -/
def kept (m : Medium) : Value → Value
  | .gauge x => .gauge (m.keep x)
  | .counter n => .counter n

/-- The value under a name after a record was written there. -/
def next (m : Medium) (record : Record) : Option Value → Except Failure Value
  | none => match m.refusal record.name with
    | some failure => .error failure
    | none => .ok (m.kept record.value)
  | some stored =>
    ((⟨record.name, stored⟩ : Record).apply record.value).map fun after => m.kept after.value

@[simp] theorem kind_kept (m : Medium) (value : Value) : (m.kept value).kind = value.kind := by
  cases value <;> rfl

theorem isFinite_keep (m : Medium) (x : Binary64) : (m.keep x).isFinite = x.isFinite := by
  rw [← Binary64.isFinite_plain, m.plain_keep, Binary64.isFinite_plain]

/-- An observation is taken by a counter when the exact sum is a signed 64-bit integer, and by a
gauge always. -/
theorem next_ok {m : Medium} {record : Record} {stored value : Value}
    (h : m.next record (some stored) = .ok value) :
    (∃ n delta sum, stored = .counter n ∧ record.value = .counter delta ∧ value = .counter sum ∧
        sum.toInt = n.toInt + delta.toInt) ∨
      ∃ x y, stored = .gauge x ∧ record.value = .gauge y ∧ value = .gauge (m.keep y) := by
  obtain ⟨name, incoming⟩ := record
  cases stored with
  | gauge x =>
    cases incoming with
    | gauge y => exact .inr ⟨x, y, rfl, rfl, (Except.ok.inj h).symm⟩
    | counter delta => cases h
  | counter n =>
    cases incoming with
    | gauge y => cases h
    | counter delta =>
      simp only [next, Record.apply] at h
      cases hsum : addExact? n delta with
      | none => simp [hsum, Except.map] at h
      | some sum =>
        simp only [hsum, Except.map, kept, Except.ok.injEq] at h
        exact .inl ⟨n, delta, sum, rfl, rfl, h.symm, toInt_addExact? hsum⟩

/-- An observation of a stored metric is refused for its kind or for an exact sum that is no signed
64-bit integer, and for nothing else. -/
theorem next_error {m : Medium} {record : Record} {stored : Value} {failure : Failure}
    (h : m.next record (some stored) = .error failure) :
    (stored.kind ≠ record.kind ∧
        failure = .kindMismatch record.name stored.kind record.kind) ∨
      ∃ n delta, stored = .counter n ∧ record.value = .counter delta ∧
        fitsInt64 (n.toInt + delta.toInt) = false ∧ failure = .counterOverflow record.name := by
  obtain ⟨name, incoming⟩ := record
  cases stored with
  | gauge x =>
    cases incoming with
    | gauge y => cases h
    | counter delta => exact .inl ⟨by simp [Record.kind, Value.kind], (Except.error.inj h).symm⟩
  | counter n =>
    cases incoming with
    | gauge y => exact .inl ⟨by simp [Record.kind, Value.kind], (Except.error.inj h).symm⟩
    | counter delta =>
      simp only [next, Record.apply] at h
      cases hsum : addExact? n delta with
      | none =>
        simp only [hsum, Except.map, Except.error.injEq] at h
        exact .inr ⟨n, delta, rfl, rfl, fitsInt64_of_addExact? hsum, h.symm⟩
      | some sum => simp [hsum, Except.map] at h

theorem next_mismatch (m : Medium) {record : Record} {stored : Value}
    (hkind : stored.kind ≠ record.kind) :
    m.next record (some stored) = .error (.kindMismatch record.name stored.kind record.kind) := by
  obtain ⟨name, incoming⟩ := record
  cases stored <;> cases incoming <;> first | rfl | exact absurd rfl hkind

theorem kind_next {m : Medium} {record : Record} {stored value : Value}
    (h : m.next record (some stored) = .ok value) :
    stored.kind = record.kind ∧ value.kind = stored.kind := by
  rcases next_ok h with ⟨n, delta, sum, rfl, hrecord, rfl, _⟩ | ⟨x, y, rfl, hrecord, rfl⟩
  · exact ⟨by rw [Record.kind, hrecord]; rfl, rfl⟩
  · exact ⟨by rw [Record.kind, hrecord]; rfl, rfl⟩

theorem next_none_ok {m : Medium} {record : Record} {value : Value}
    (h : m.next record none = .ok value) :
    m.refusal record.name = none ∧ value = m.kept record.value := by
  simp only [next] at h
  split at h
  · cases h
  · rename_i hrefusal
    exact ⟨hrefusal, (Except.ok.inj h).symm⟩

theorem next_none_error {m : Medium} {record : Record} {failure : Failure}
    (h : m.next record none = .error failure) : m.refusal record.name = some failure := by
  simp only [next] at h
  split at h
  · rename_i hrefusal
    exact hrefusal.trans (congrArg some (Except.error.inj h))
  · cases h

end Medium

/-- The value under each name. -/
def Contents := String → Option Value

namespace Contents

def empty : Contents := fun _ => none

def set (c : Contents) (name : String) (value : Value) : Contents := fun other =>
  if other = name then some value else c other

@[simp] theorem set_self (c : Contents) (name : String) (value : Value) :
    c.set name value name = some value := if_pos rfl

theorem set_of_ne (c : Contents) {name other : String} (value : Value) (hne : other ≠ name) :
    c.set name value other = c other := if_neg hne

def record? (c : Contents) (name : String) : Option Record := (c name).map (Record.mk name)

def ofRecords (records : List Record) : Contents := fun name =>
  (records.find? fun record => record.name == name).map Record.value

/-- The contents are the records of a list, which has one for each name. -/
def Lists (c : Contents) (records : List Record) : Prop :=
  (records.map Record.name).Nodup ∧ ∀ record, record ∈ records ↔ c record.name = some record.value

theorem find?_name {records : List Record} {name : String} {record : Record}
    (hfind : (records.find? fun record => record.name == name) = some record) :
    record ∈ records ∧ record.name = name :=
  ⟨List.mem_of_find?_eq_some hfind, by simpa using List.find?_some hfind⟩

theorem record?_ofRecords (records : List Record) (name : String) :
    (ofRecords records).record? name = records.find? fun record => record.name == name := by
  unfold record? ofRecords
  cases hfind : records.find? fun record => record.name == name with
  | none => rfl
  | some record =>
    obtain ⟨_, rfl⟩ := find?_name hfind
    rfl

theorem lists_ofRecords {records : List Record} (hdistinct : (records.map Record.name).Nodup) :
    (ofRecords records).Lists records := by
  refine ⟨hdistinct, fun record => ?_⟩
  induction records with
  | nil => simp [ofRecords]
  | cons first rest ih =>
    rw [List.map_cons, List.nodup_cons] at hdistinct
    by_cases hname : first.name = record.name
    · have habsent : record ∉ rest := fun hmem =>
        hdistinct.1 (hname ▸ List.mem_map_of_mem hmem)
      simp only [List.mem_cons, habsent, or_false, ofRecords, List.find?_cons, hname, beq_self_eq_true,
        Option.map_some, Option.some.injEq]
      constructor
      · rintro rfl
        rfl
      · intro hvalue
        cases first
        cases record
        simp_all
    · have hne : record ≠ first := fun heq => hname (heq ▸ rfl)
      simp only [List.mem_cons, hne, false_or, ih hdistinct.2, ofRecords, List.find?_cons,
        beq_eq_false_iff_ne.2 hname]

/-- Two lists of the same contents differ only in their order. -/
theorem Lists.perm {c : Contents} {left right : List Record} (hleft : c.Lists left)
    (hright : c.Lists right) : left.Perm right := by
  have nodup {records : List Record} (h : c.Lists records) : records.Nodup :=
    List.Pairwise.of_map Record.name (fun _ _ hne heq => hne (congrArg Record.name heq)) h.1
  rw [List.perm_ext_iff_of_nodup (nodup hleft) (nodup hright)]
  intro record
  rw [hleft.2, hright.2]

theorem Lists.unique {left right : Contents} {records : List Record} (hleft : left.Lists records)
    (hright : right.Lists records) : left = right := by
  funext name
  apply Option.ext
  intro value
  rw [← hleft.2 ⟨name, value⟩, ← hright.2 ⟨name, value⟩]

theorem Lists.record? {c : Contents} {records : List Record} (h : c.Lists records) (name : String) :
    c.record? name = records.find? fun record => record.name == name := by
  rw [h.unique (lists_ofRecords h.1), record?_ofRecords]

/-! ### Changes of contents -/

/-- Writes a record: a new name gets its value, and a value that is there takes the observation. -/
def write (m : Medium) (c : Contents) (record : Record) : Except Failure Unit × Contents :=
  match m.next record (c record.name) with
  | .ok value => (.ok (), c.set record.name value)
  | .error failure => (.error failure, c)

def enter (m : Medium) (c : Contents) : Except Failure Record → Except Failure Unit × Contents
  | .ok record => c.write m record
  | .error failure => (.error failure, c)

/-- Writes entries up to the first one that is refused. -/
def enterAll (m : Medium) (c : Contents) :
    List (Except Failure Record) → Except Failure Unit × Contents
  | [] => (.ok (), c)
  | entry :: entries => match c.enter m entry with
    | (.ok (), after) => enterAll m after entries
    | (.error failure, after) => (.error failure, after)

/-- Writes a batch, of which a transactional store keeps all or nothing. -/
def enterBatch (m : Medium) (c : Contents) (entries : List (Except Failure Record)) :
    Except Failure Unit × Contents :=
  match c.enterAll m entries with
  | (.ok (), after) => (.ok (), after)
  | (.error failure, after) => (.error failure, if m.transactional then c else after)

theorem write_ok_iff {m : Medium} {c after : Contents} {record : Record} :
    c.write m record = (.ok (), after) ↔
      ∃ value, m.next record (c record.name) = .ok value ∧ after = c.set record.name value := by
  rw [write]
  cases m.next record (c record.name) with
  | error failure => simp
  | ok value => simp [eq_comm]

theorem write_error_iff {m : Medium} {c after : Contents} {record : Record} {failure : Failure} :
    c.write m record = (.error failure, after) ↔
      m.next record (c record.name) = .error failure ∧ after = c := by
  rw [write]
  cases m.next record (c record.name) with
  | error failure' => simp [eq_comm]
  | ok value => simp

theorem write_mismatch (m : Medium) {c : Contents} {record : Record} {stored : Value}
    (hstored : c record.name = some stored) (hkind : stored.kind ≠ record.kind) :
    c.write m record = (.error (.kindMismatch record.name stored.kind record.kind), c) := by
  rw [write_error_iff, hstored]
  exact ⟨Medium.next_mismatch m hkind, rfl⟩

theorem write_of_ne {m : Medium} {c : Contents} {record : Record} {name : String}
    (hne : name ≠ record.name) : (c.write m record).2 name = c name := by
  rw [write]
  cases m.next record (c record.name) with
  | error failure => rfl
  | ok value => exact set_of_ne c value hne

/-- What a write does depends on what is stored under its name. -/
theorem write_congr {m : Medium} {c c' : Contents} {record : Record}
    (h : c record.name = c' record.name) :
    (c.write m record).1 = (c'.write m record).1 ∧
      (c.write m record).2 record.name = (c'.write m record).2 record.name := by
  rw [write, write, h]
  cases m.next record (c' record.name) with
  | error failure => exact ⟨rfl, h⟩
  | ok value =>
    refine ⟨rfl, ?_⟩
    show c.set record.name value record.name = c'.set record.name value record.name
    rw [set_self, set_self]

/-- A change that is refused changes nothing. -/
theorem enter_error {m : Medium} {c after : Contents} {entry : Except Failure Record}
    {failure : Failure} (h : c.enter m entry = (.error failure, after)) : after = c := by
  cases entry with
  | error _ => exact (Prod.mk.inj h).2.symm
  | ok record => exact (write_error_iff.1 h).2

end Contents

/-- An outcome and the store after it are those expected of the contents. -/
def Settles {σ : Type} (shows : σ → Contents → Prop) (actual : Except Failure Unit × World σ)
    (expected : Except Failure Unit × Contents) : Prop :=
  actual.1 = expected.1 ∧ shows actual.2.store expected.2

/-- Something was done as expected, or refused as expected. -/
theorem Settles.cases {σ : Type} {shows : σ → Contents → Prop}
    {actual : Except Failure Unit × World σ} {expected : Except Failure Unit × Contents}
    (h : Settles shows actual expected) :
    (∃ world c, actual = (.ok (), world) ∧ expected = (.ok (), c) ∧ shows world.store c) ∨
      ∃ failure world c, actual = (.error failure, world) ∧ expected = (.error failure, c) ∧
        shows world.store c := by
  obtain ⟨result, world⟩ := actual
  obtain ⟨_, c⟩ := expected
  obtain ⟨rfl, hshows⟩ := h
  cases result with
  | error failure => exact .inr ⟨failure, world, c, rfl, rfl, hshows⟩
  | ok done => exact .inl ⟨world, c, rfl, rfl, hshows⟩

/-- The operations of a repository are those of its contents. -/
structure Repository.Faithful (σ : Type) [Repository σ] (m : Medium) where
  /-- The store is in good order and has these contents. -/
  Shows : σ → Contents → Prop
  get {w : World σ} {c : Contents} (h : Shows w.store c) (name : String) :
    Repository.get name w = (.ok (c.record? name), w)
  getAll {w : World σ} {c : Contents} (h : Shows w.store c) :
    ∃ records, Repository.getAll w = (.ok records, w) ∧ c.Lists records
  write {w : World σ} {c : Contents} (h : Shows w.store c) (record : Record)
    (hfinite : record.value.isFinite = true) :
    Settles Shows (Repository.write record.name record.value (c.record? record.name) w)
      (c.write m record)
  batch {w : World σ} {c : Contents} (h : Shows w.store c) (samples : List Sample) :
    Settles Shows (Repository.batch samples w) (c.enterBatch m (samples.map Sample.toRecord))

/-- To apply a sample is to write its record, if it has one. -/
theorem Repository.Faithful.upsert {σ : Type} [Repository σ] {m : Medium}
    (faithful : Repository.Faithful σ m) {w : World σ} {c : Contents} (h : faithful.Shows w.store c)
    (sample : Sample) :
    Settles faithful.Shows (Repository.upsert sample w) (c.enter m sample.toRecord) := by
  rw [Repository.upsert, Action.bind_apply, Action.ofResult_apply]
  cases hrecord : sample.toRecord with
  | error failure => exact ⟨rfl, h⟩
  | ok record =>
    simp only [Action.bind_apply, faithful.get h]
    exact faithful.write h record (Sample.toRecord_ok hrecord).2.2.2

end Telemetry
