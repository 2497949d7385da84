import Telemetry.Proofs.Metric.Sample
import Telemetry.Proofs.Store.Memory

/-!
# Reading a snapshot file

The lines of a snapshot file are documents with a line end after each, and their reader takes blanks
as nothing. Whatever the records are, their lines are read as the samples that were written, one by
one and to the end, and records of different names that a store can hold are restored in their order,
each gauge as its reader assembles it.
-/

namespace Telemetry

open Json

namespace Json

theorem skipSpace_line (rest : Bytes) : skipSpace (10 :: rest) = skipSpace rest := rfl

namespace Reader

variable {α β : Type} {reader : Reader α} {write : β → List Char} {back : β → α}

/-- The reader passes over the blanks before a value. -/
def SkipsSpace (reader : Reader α) : Prop := ∀ bytes, reader.run (skipSpace bytes) = reader.run bytes

theorem skipsSpace_form {σ : Type} (form : Form σ) : form.reader.SkipsSpace := by
  intro bytes
  change runFirst _ (skipSpace bytes) = runFirst _ bytes
  rw [runFirst, runFirst, skipSpace_skipSpace]

/-! ### One document after the other -/

section Stream

variable {bytes rest : Bytes} {a : α}

theorem streamAfter_append (reader : Reader α) (acc before : List α) (bytes : Bytes) :
    reader.streamAfter (acc ++ before) bytes
      = (before.reverse ++ (reader.streamAfter acc bytes).1, (reader.streamAfter acc bytes).2) := by
  fun_induction streamAfter reader acc bytes with
  | case1 acc bytes hblank =>
    rw [streamAfter, if_pos hblank, List.reverse_append]
  | case2 acc bytes hsome e hrun =>
    rw [streamAfter, if_neg hsome]
    split
    · rename_i heq
      cases hrun.symm.trans heq
      rw [List.reverse_append]
    · rename_i heq
      cases hrun.symm.trans heq
  | case3 acc bytes hsome a rest hrun _ ih =>
    rw [streamAfter, if_neg hsome]
    split
    · rename_i heq
      cases hrun.symm.trans heq
    · rename_i heq
      cases hrun.symm.trans heq
      exact ih

theorem stream_blank (h : skipSpace bytes = []) : reader.stream bytes = ([], none) := by
  rw [stream, streamAfter, h]
  rfl

theorem stream_malformed {e : Error} (hsome : skipSpace bytes ≠ []) (hrun : reader.run bytes = .error e) :
    reader.stream bytes = ([], some e) := by
  rw [stream, streamAfter, if_neg (by simpa using hsome)]
  split
  · rename_i heq
    cases hrun.symm.trans heq
    rfl
  · rename_i heq
    cases hrun.symm.trans heq

theorem stream_next (hsome : skipSpace bytes ≠ []) (hrun : reader.run bytes = .ok (a, rest)) :
    reader.stream bytes = (a :: (reader.stream rest).1, (reader.stream rest).2) := by
  rw [stream, streamAfter, if_neg (by simpa using hsome)]
  split
  · rename_i heq
    cases hrun.symm.trans heq
  · rename_i heq
    cases hrun.symm.trans heq
    exact streamAfter_append reader [] [a] rest

end Stream

/-! ### Lines -/

def lines (texts : List (List Char)) : Bytes := texts.flatMap fun text => Bytes.encode text ++ [10]

theorem stream_of_lines (hskips : reader.SkipsSpace)
    (hreads : ∀ x, reader.Reads (write x) (back x))
    (hstart : ∀ x, ∃ b more, Bytes.encode (write x) = b :: more ∧ isSpace b = false)
    (xs : List β) {bytes : Bytes} (hbytes : skipSpace bytes = lines (xs.map write)) :
    reader.stream bytes = (xs.map back, none) := by
  induction xs generalizing bytes with
  | nil => exact stream_blank hbytes
  | cons x xs ih =>
    obtain ⟨b, more, hencode, hspace⟩ := hstart x
    have hrest : lines ((x :: xs).map write)
        = Bytes.encode (write x) ++ 10 :: lines (xs.map write) := by
      simp [lines]
    have hread : reader.run bytes = .ok (back x, 10 :: lines (xs.map write)) := by
      rw [← hskips, hbytes, hrest]
      refine hreads x _ ?_
      rintro b ⟨⟩
      decide
    have hsome : skipSpace bytes ≠ [] := by
      rw [hbytes, hrest, hencode]
      exact List.cons_ne_nil b _
    have hnext : skipSpace (10 :: lines (xs.map write)) = lines (xs.map write) := by
      rw [skipSpace_line]
      cases xs with
      | nil => rfl
      | cons y ys =>
        obtain ⟨c, others, hy, hc⟩ := hstart y
        rw [List.map_cons, lines, List.flatMap_cons, hy, List.cons_append, List.cons_append,
          skipSpace_cons hc]
    rw [stream_next hsome hread, ih hnext, List.map_cons]

theorem stream_lines (hskips : reader.SkipsSpace) (hreads : ∀ x, reader.Reads (write x) (back x))
    (hstart : ∀ x, ∃ b more, Bytes.encode (write x) = b :: more ∧ isSpace b = false) (xs : List β) :
    reader.stream (lines (xs.map write)) = (xs.map back, none) := by
  refine stream_of_lines hskips hreads hstart xs ?_
  cases xs with
  | nil => rfl
  | cons x xs =>
    obtain ⟨b, more, hencode, hspace⟩ := hstart x
    rw [List.map_cons, lines, List.flatMap_cons, hencode, List.cons_append, List.cons_append,
      skipSpace_cons hspace]

end Reader

end Json

namespace Sample

theorem skipsSpace_reader : reader.SkipsSpace := Reader.skipsSpace_form form

end Sample

namespace MemoryStore

/-- The store has one record for each name, and all of them are well-formed. -/
structure Sound (store : MemoryStore) : Prop where
  distinct : (store.records.map Record.name).Nodup
  wellFormed : ∀ record ∈ store.records, record.WellFormed

theorem sound_empty : empty.Sound := ⟨List.nodup_nil, fun _ hmem => nomatch hmem⟩

variable {store : MemoryStore}

theorem mem_put {record other : Record} (hmem : other ∈ (store.put record).records) :
    other = record ∨ other ∈ store.records := by
  rw [put] at hmem
  split at hmem
  · obtain ⟨stored, hstored, heq⟩ := List.mem_map.1 hmem
    split at heq
    · exact .inl heq.symm
    · exact .inr (heq ▸ hstored)
  · rcases List.mem_append.1 hmem with hstored | hnew
    · exact .inr hstored
    · exact .inl (List.mem_singleton.1 hnew)

theorem Sound.put (h : store.Sound) {record : Record} (hrecord : record.WellFormed) :
    (store.put record).Sound := by
  refine ⟨nodup_put record h.distinct, fun other hmem => ?_⟩
  rcases mem_put hmem with rfl | hstored
  · exact hrecord
  · exact h.wellFormed other hstored

theorem Sound.foldl_put (h : store.Sound) {records : List Record}
    (hrecords : ∀ record ∈ records, record.WellFormed) :
    (records.foldl MemoryStore.put store).Sound := by
  induction records generalizing store with
  | nil => exact h
  | cons record records ih =>
    exact ih (h.put (hrecords record List.mem_cons_self)) fun other hmem =>
      hrecords other (List.mem_cons_of_mem _ hmem)

theorem foldl_put_new {records : List Record}
    (hdistinct : ((store.records ++ records).map Record.name).Nodup) :
    records.foldl MemoryStore.put store = ⟨store.records ++ records⟩ := by
  induction records generalizing store with
  | nil => rw [List.append_nil]; rfl
  | cons record records ih =>
    have hput : store.put record = ⟨store.records ++ [record]⟩ := by
      rw [MemoryStore.put, if_neg]
      intro hany
      obtain ⟨other, hmem, hname⟩ := List.any_eq_true.1 hany
      rw [List.map_append, List.nodup_append] at hdistinct
      exact hdistinct.2.2 other.name (List.mem_map_of_mem hmem) record.name
        (List.mem_map_of_mem List.mem_cons_self) (by simpa using hname)
    rw [List.foldl_cons, hput, ih]
    · rw [List.append_assoc, List.singleton_append]
    · rwa [List.append_assoc, List.singleton_append]

end MemoryStore

namespace Snapshot

theorem encode_eq_lines (records : List Record) :
    encode records = Reader.lines (records.map fun record => (Sample.ofRecord record).write) := by
  rw [encode, Reader.lines, List.flatMap_map]
  simp only [Sample.toBytes_eq]

theorem stream_encode (records : List Record) :
    Sample.reader.stream (encode records)
      = (records.map fun record => (Sample.ofRecord record).reread, none) := by
  rw [encode_eq_lines]
  exact Reader.stream_lines Sample.skipsSpace_reader
    (fun record => Sample.reads_sample (Sample.ofRecord record)) (fun _ => ⟨123, _, rfl, rfl⟩) records

theorem toRecords_reread {records : List Record} (h : ∀ record ∈ records, record.WellFormed) :
    toRecords (records.map fun record => (Sample.ofRecord record).reread)
      = (records.map Record.reread, none) := by
  induction records with
  | nil => rfl
  | cons record records ih =>
    obtain ⟨hname, hfinite⟩ := h record List.mem_cons_self
    rw [List.map_cons, toRecords, Sample.toRecord_reread hname hfinite]
    dsimp only
    rw [ih fun other hmem => h other (List.mem_cons_of_mem _ hmem), List.map_cons]

theorem decode_encode {records : List Record} (h : ∀ record ∈ records, record.WellFormed) :
    decode (encode records) = .ok (records.map Record.reread) := by
  rw [decode, stream_encode]
  dsimp only
  rw [toRecords_reread h]

/-- A sound store is restored from its own file. -/
theorem restore_encode {store : MemoryStore} (h : store.Sound) :
    restore (encode store.records) = .ok ⟨store.records.map Record.reread⟩ := by
  have hdistinct : ((MemoryStore.empty.records ++ store.records.map Record.reread).map
      Record.name).Nodup := by
    rw [MemoryStore.empty, List.nil_append, List.map_map]
    exact h.distinct
  rw [restore, decode_encode h.wellFormed, Except.map, MemoryStore.foldl_put_new hdistinct]
  rfl

/-- The bytes describe the records and nothing else: they are the documents of the records, with a line
end after each, these documents are read back as they were written, and the records are restored from
them if a store can hold them. -/
structure Describes (bytes : Bytes) (records : List Record) : Prop where
  lines : bytes = Reader.lines (records.map fun record => (Sample.ofRecord record).write)
  samples : Sample.reader.stream bytes
    = (records.map fun record => (Sample.ofRecord record).reread, none)
  decoded (h : ∀ record ∈ records, record.WellFormed) :
    decode bytes = .ok (records.map Record.reread)

theorem describes_encode (records : List Record) : Describes (encode records) records :=
  ⟨encode_eq_lines records, stream_encode records, decode_encode⟩

theorem wellFormed_of_toRecords (samples : List Sample) :
    ∀ record ∈ (toRecords samples).1, record.WellFormed := by
  induction samples with
  | nil => exact fun _ hmem => nomatch hmem
  | cons sample samples ih =>
    rw [toRecords]
    split
    · exact fun _ hmem => nomatch hmem
    · rename_i record hrecord
      rintro other (_ | ⟨_, hmem⟩)
      · exact Record.wellFormed_of_sample hrecord
      · exact ih other hmem

/-- Whatever a file held, a store that could be restored from it is sound. -/
theorem sound_of_restore {bytes : Bytes} {store : MemoryStore} (h : restore bytes = .ok store) :
    store.Sound := by
  rw [restore] at h
  cases hdecode : decode bytes with
  | error failure =>
    rw [hdecode] at h
    cases h
  | ok records =>
    rw [hdecode] at h
    cases h
    refine MemoryStore.sound_empty.foldl_put ?_
    rw [decode] at hdecode
    dsimp only at hdecode
    split at hdecode
    · cases hdecode
    · cases hdecode
    · rename_i hrecords _
      cases hdecode
      intro record hmem
      refine wellFormed_of_toRecords (Sample.reader.stream bytes).1 record ?_
      rw [hrecords]
      exact hmem

end Snapshot

end Telemetry
