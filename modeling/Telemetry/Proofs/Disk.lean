import Telemetry.Disk

/-!
# A file stays where it is

What is written to a file changes neither where paths lead nor what is under other places. A path that
has led to a file once leads to the same file after any number of writes, and opening it changes
nothing.
-/

namespace Telemetry.Disk

variable {disk : Disk} {place other : Place} {entry : Entry} {path : String}

theorem entry?_ne_nil (hplace : place ≠ []) :
    disk.entry? place = (disk.find? fun (p, _) => p == place).map Prod.snd := by
  cases place with
  | nil => exact absurd rfl hplace
  | cons name names => rfl

theorem ne_nil_of_entry (hentry : disk.entry? place = some entry) (hfile : entry ≠ .directory) :
    place ≠ [] := by
  rintro rfl
  exact hfile (Option.some.inj hentry).symm

theorem find?_replace (hne : other ≠ place) :
    ((disk.map fun (p, e) => if p == place then (p, entry) else (p, e)).find?
        fun (p, _) => p == other) = disk.find? fun (p, _) => p == other := by
  induction disk with
  | nil => rfl
  | cons first rest ih =>
    obtain ⟨p, e⟩ := first
    rw [List.map_cons, List.find?_cons, List.find?_cons, ih]
    by_cases hp : p = place
    · subst hp
      have hother : (p == other) = false := beq_eq_false_iff_ne.2 (Ne.symm hne)
      simp [hother]
    · simp [hp]

theorem entry?_put_of_ne (hne : other ≠ place) (entry : Entry) :
    entry? (disk.put place entry) other = disk.entry? other := by
  cases other with
  | nil => rfl
  | cons name names =>
    rw [entry?_ne_nil (List.cons_ne_nil _ _), entry?_ne_nil (List.cons_ne_nil _ _), put]
    split
    · rw [find?_replace hne]
    · rw [List.find?_append]
      simp [Ne.symm hne]

theorem entry?_put (hplace : place ≠ []) (entry : Entry) :
    entry? (disk.put place entry) place = some entry := by
  rw [entry?_ne_nil hplace, put]
  split
  · rename_i hany
    induction disk with
    | nil => cases hany
    | cons first rest ih =>
      obtain ⟨p, e⟩ := first
      by_cases hp : p = place
      · simp [hp]
      · have hrest : (rest.any fun (p, _) => p == place) = true := by simpa [hp] using hany
        simpa [hp] using ih hrest
  · rename_i hany
    have hnone : (disk.find? fun (p, _) => p == place) = none := by
      rw [List.find?_eq_none]
      exact fun stored hmem hstored => hany (List.any_eq_true.2 ⟨stored, hmem, hstored⟩)
    rw [List.find?_append, hnone]
    simp

theorem bytesAt_put (hplace : place ≠ []) (content : Bytes) :
    (disk.put place (.file content)).bytesAt place = content := by
  rw [bytesAt, entry?_put hplace]

/-! ### Where paths lead -/

/-- Whatever is a directory on the one disk is one on the other. -/
def Directories (disk disk' : Disk) : Prop :=
  ∀ place, disk.entry? place = some .directory → disk'.entry? place = some .directory

theorem directories_put (hplace : disk.entry? place ≠ some .directory) (entry : Entry) :
    Directories disk (disk.put place entry) := by
  intro other hother
  have hne : other ≠ place := by
    rintro rfl
    exact hplace hother
  rw [entry?_put_of_ne hne, hother]

variable {disk' : Disk}

/-- A walk that arrives has only gone through directories. -/
theorem Directories.walk (h : Directories disk disk') {names : List String} {here : Place}
    (hwalk : disk.walk here names = .ok place) : disk'.walk here names = .ok place := by
  induction names generalizing here with
  | nil => exact hwalk
  | cons name names ih =>
    unfold Disk.walk at hwalk ⊢
    split at hwalk
    · cases hwalk
    · rename_i hhere
      rw [if_neg (Classical.not_not.2 (h here (Classical.not_not.1 hhere)))]
      split at hwalk
      · rename_i hstay
        rw [if_pos hstay]
        exact ih hwalk
      · rename_i hmove
        rw [if_neg hmove]
        split at hwalk
        · rename_i hup
          rw [if_pos hup]
          split at hwalk
          · cases hwalk
          · rename_i hbelow
            rw [if_neg hbelow]
            exact ih hwalk
        · rename_i hdown
          rw [if_neg hdown]
          split at hwalk
          · cases hwalk
          · rename_i hlength
            rw [if_neg hlength]
            exact ih hwalk

theorem Directories.resolve (h : Directories disk disk')
    (hresolve : disk.resolve path = .ok place) : disk'.resolve path = .ok place := by
  unfold Disk.resolve at hresolve ⊢
  split at hresolve
  · cases hresolve
  · rename_i hnull
    rw [if_neg hnull]
    split at hresolve
    · cases hresolve
    · rename_i hempty
      rw [if_neg hempty]
      split at hresolve
      · cases hresolve
      · rename_i hlength
        rw [if_neg hlength]
        split at hresolve
        · cases hresolve
        · rename_i hroot
          rw [if_neg hroot]
          exact h.walk hresolve

/-- The path leads to a place where there is something else than a directory. -/
structure HasFile (disk : Disk) (path : String) (place : Place) : Prop where
  noSlash : withoutSlash? path = none
  resolves : disk.resolve path = .ok place
  entry : ∃ entry, disk.entry? place = some entry ∧ entry ≠ .directory

theorem HasFile.place_ne_nil (h : disk.HasFile path place) : place ≠ [] := by
  obtain ⟨entry, hentry, hfile⟩ := h.entry
  exact ne_nil_of_entry hentry hfile

theorem HasFile.create (h : disk.HasFile path place) : disk.create path = .ok (place, disk) := by
  obtain ⟨entry, hentry, hfile⟩ := h.entry
  rw [Disk.create, h.noSlash]
  dsimp only
  rw [h.resolves]
  dsimp only
  rw [hentry]
  cases entry with
  | directory => exact absurd rfl hfile
  | file content => rfl
  | database db => rfl

theorem HasFile.read (h : disk.HasFile path place) {content : Bytes}
    (hcontent : disk.entry? place = some (.file content)) : disk.read path = .ok content := by
  rw [Disk.read, h.resolves]
  dsimp only
  rw [hcontent]

theorem HasFile.put (h : disk.HasFile path place) {entry : Entry} (hfile : entry ≠ .directory) :
    (disk.put place entry).HasFile path place := by
  obtain ⟨stored, hstored, hne⟩ := h.entry
  have hplace : disk.entry? place ≠ some .directory := by
    rw [hstored]
    exact fun heq => hne (Option.some.inj heq)
  exact ⟨h.noSlash, (directories_put hplace entry).resolve h.resolves, entry,
    entry?_put h.place_ne_nil entry, hfile⟩

theorem hasFile_of_create {after : Disk} (h : disk.create path = .ok (place, after)) :
    after.HasFile path place := by
  unfold create at h
  split at h
  · rename_i shorter _
    cases hshorter : disk.resolve shorter <;> rw [hshorter] at h <;> cases h
  · rename_i hslash
    split at h
    · cases h
    · rename_i found hresolve
      split at h
      · cases h
      · rename_i stored hfile hstored
        cases h
        exact ⟨hslash, hresolve, stored, hstored, fun heq => hfile (heq ▸ rfl)⟩
      · rename_i hnone
        cases h
        have hplace : disk.entry? place ≠ some .directory := by
          rw [hnone]
          exact Option.some_ne_none _ ∘ Eq.symm
        have hne : place ≠ [] := by
          rintro rfl
          cases hnone
        exact ⟨hslash, (directories_put hplace _).resolve hresolve, .file [],
          entry?_put hne _, fun heq => nomatch heq⟩

/-- Opening a file changes nothing that is there. -/
theorem entry?_create {after : Disk} (h : disk.create path = .ok (place, after))
    (hentry : disk.entry? other = some entry) : after.entry? other = some entry := by
  unfold create at h
  split at h
  · rename_i shorter _
    cases hshorter : disk.resolve shorter <;> rw [hshorter] at h <;> cases h
  · split at h
    · cases h
    · split at h
      · cases h
      · cases h
        exact hentry
      · rename_i hnone
        cases h
        have hne : other ≠ place := by
          rintro rfl
          cases hnone.symm.trans hentry
        rw [entry?_put_of_ne hne, hentry]

end Telemetry.Disk
