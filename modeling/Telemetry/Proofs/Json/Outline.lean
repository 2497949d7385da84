import Mathlib.Data.List.Nodup
import Mathlib.Logic.Function.Basic
import Telemetry.Proofs.Json.Skipping

/-!
# What a document holds, before it is read

An object is a list of members and a list is a list of values, whatever is wanted of them. A form
reads each of its fields at the place where this outline has it, under one of the names of the field
or at its place, and every other member is as if it were not there. What relates the places that were
read to the record is kept by one field at a time.
-/

namespace Telemetry.Json

/-- The members that remain in an open object, each with the bytes that begin with its value, and the
bytes after the closing brace. The first member needs no comma. -/
inductive Members : Bool → Bytes → List (String × Bytes) → Bytes → Prop
  | close {first : Bool} {bytes rest : Bytes} (hnext : nextMember first bytes = .ok (none, rest)) :
      Members first bytes [] rest
  | more {first : Bool} {bytes colon value after rest : Bytes} {name : String}
      {members : List (String × Bytes)} (hnext : nextMember first bytes = .ok (some name, colon))
      (hcolon : readColon colon = .ok value) (hvalue : skipValue value = .ok after)
      (hrest : Members false after members rest) :
      Members first bytes ((name, value) :: members) rest

/-- The same for the values that remain in an open list. -/
inductive Elements : Bool → Bytes → List Bytes → Bytes → Prop
  | close {first : Bool} {bytes bracket rest : Bytes}
      (hnext : nextElement first bytes = .ok (false, bracket)) (hend : endList bracket = .ok rest) :
      Elements first bytes [] rest
  | more {first : Bool} {bytes value after rest : Bytes} {elements : List Bytes}
      (hnext : nextElement first bytes = .ok (true, value)) (hvalue : skipValue value = .ok after)
      (hrest : Elements false after elements rest) :
      Elements first bytes (value :: elements) rest

theorem Members.unique {first : Bool} {bytes rest rest' : Bytes}
    {members members' : List (String × Bytes)} (h : Members first bytes members rest)
    (h' : Members first bytes members' rest') : members = members' ∧ rest = rest' := by
  induction h generalizing members' with
  | close hnext =>
    cases h' with
    | close hnext' =>
      cases hnext.symm.trans hnext'
      exact ⟨rfl, rfl⟩
    | more hnext' => cases hnext.symm.trans hnext'
  | more hnext hcolon hvalue _ ih =>
    cases h' with
    | close hnext' => cases hnext.symm.trans hnext'
    | more hnext' hcolon' hvalue' hrest' =>
      cases hnext.symm.trans hnext'
      cases hcolon.symm.trans hcolon'
      cases hvalue.symm.trans hvalue'
      obtain ⟨rfl, rfl⟩ := ih hrest'
      exact ⟨rfl, rfl⟩

theorem Elements.unique {first : Bool} {bytes rest rest' : Bytes} {elements elements' : List Bytes}
    (h : Elements first bytes elements rest) (h' : Elements first bytes elements' rest') :
    elements = elements' ∧ rest = rest' := by
  induction h generalizing elements' with
  | close hnext hend =>
    cases h' with
    | close hnext' hend' =>
      cases hnext.symm.trans hnext'
      cases hend.symm.trans hend'
      exact ⟨rfl, rfl⟩
    | more hnext' => cases hnext.symm.trans hnext'
  | more hnext hvalue _ ih =>
    cases h' with
    | close hnext' => cases hnext.symm.trans hnext'
    | more hnext' hvalue' hrest' =>
      cases hnext.symm.trans hnext'
      cases hvalue.symm.trans hvalue'
      obtain ⟨rfl, rfl⟩ := ih hrest'
      exact ⟨rfl, rfl⟩

/-- What a document holds: members with their values, or values alone. -/
inductive Outline where
  | object (members : List (String × Bytes))
  | list (elements : List Bytes)

/-- The value under one of the names, or at the place if there are no names. -/
def Outline.value (names : List String) (place : Nat) : Outline → Option Bytes
  | .object members => (members.find? fun member => names.contains member.1).map Prod.snd
  | .list elements => elements[place]?

/-- The outline of a document, around which only blanks may stand. -/
inductive IsOutline (bytes : Bytes) : Outline → Prop
  | object {inside rest : Bytes} {members : List (String × Bytes)}
      (hbrace : skipSpace bytes = 123 :: inside) (hmembers : Members true inside members rest)
      (hrest : skipSpace rest = []) : IsOutline bytes (.object members)
  | list {inside rest : Bytes} {elements : List Bytes}
      (hbracket : skipSpace bytes = 91 :: inside) (helements : Elements true inside elements rest)
      (hrest : skipSpace rest = []) : IsOutline bytes (.list elements)

theorem IsOutline.unique {bytes : Bytes} {outline outline' : Outline} (h : IsOutline bytes outline)
    (h' : IsOutline bytes outline') : outline = outline' := by
  cases h with
  | object hbrace hmembers =>
    cases h' with
    | object hbrace' hmembers' =>
      cases hbrace.symm.trans hbrace'
      rw [(hmembers.unique hmembers').1]
    | list hbracket' => cases hbrace.symm.trans hbracket'
  | list hbracket helements =>
    cases h' with
    | object hbrace' => cases hbracket.symm.trans hbrace'
    | list hbracket' helements' =>
      cases hbracket.symm.trans hbracket'
      rw [(helements.unique helements').1]

/-! ### What a form takes from an outline -/

namespace Form

variable {σ : Type} {form : Form σ} {P : (String → Option Bytes) → σ → Prop}
  {held : String → Option Bytes} {s s' : σ} {bytes rest : Bytes} {first : Bool}

/-- The values that stand for fields, under the names of the fields. -/
def assigned (form : Form σ) : Outline → List (String × Bytes)
  | .object members => members.filterMap fun member =>
      (form.field? member.1).map fun field => (field.name, member.2)
  | .list elements => (form.fields.map Field.name).zip elements

/-- An invariant between the values that were read, under the names of their fields, and the record:
each field that takes a value keeps it. -/
structure Keeps (form : Form σ) (P : (String → Option Bytes) → σ → Prop) : Prop where
  start : P (fun _ => none) form.start
  change : ∀ field ∈ form.fields, ∀ {value rest : Bytes} {change : σ → σ},
    field.change.run value = .ok (change, rest) → ∀ {held : String → Option Bytes} {s : σ},
      P held s → P (Function.update held field.name (some value)) (change s)

/-- Values found behind one that was read are as good as found before it. -/
theorem lookup_update {found : List (String × Bytes)} {name : String} {value : Bytes}
    (hnew : name ∉ found.map Prod.fst) :
    (fun other => (found.lookup other).or (Function.update held name (some value) other))
      = fun other => (((name, value) :: found).lookup other).or (held other) := by
  funext other
  rw [List.lookup_cons]
  by_cases heq : other = name
  · subst heq
    have hnone : found.lookup other = none := by
      refine List.lookup_eq_none_iff.2 fun pair hpair => ?_
      have hne : other ≠ pair.1 := by
        rintro rfl
        exact hnew (List.mem_map_of_mem hpair)
      simpa using hne
    rw [hnone, Function.update_self, beq_self_eq_true]
    rfl
  · rw [Function.update_of_ne heq, beq_false_of_ne heq]

theorem readMembers_outline (hskips : ∀ field ∈ form.fields, field.change.Skips)
    (hkeeps : form.Keeps P) {given given' : List String} (hheld : P held s)
    (h : form.readMembers first given s bytes = .ok ((given', s'), rest)) :
    ∃ members, Members first bytes members rest ∧
      (∀ name ∈ (form.assigned (.object members)).map Prod.fst, name ∉ given) ∧
      P (fun name => ((form.assigned (.object members)).lookup name).or (held name)) s' := by
  fun_induction readMembers form first given s bytes generalizing held with
  | case1 => cases h
  | case2 _ _ _ _ _ hnext =>
    cases h
    exact ⟨[], .close hnext, fun _ hmem => absurd hmem List.not_mem_nil, hheld⟩
  | case3 => cases h
  | case4 => cases h
  | case5 first given s bytes name colon hnext _ hfield value hcolon after hvalue _ _ ih =>
    obtain ⟨members, hmembers, hnew, hread⟩ := ih hheld h
    have hassigned : form.assigned (.object ((name, value) :: members))
        = form.assigned (.object members) := by
      rw [assigned, List.filterMap_cons_none (by rw [hfield, Option.map_none]), assigned]
    refine ⟨(name, value) :: members, .more hnext hcolon hvalue hmembers, ?_, ?_⟩
    · rwa [hassigned]
    · rwa [hassigned]
  | case6 => cases h
  | case7 => cases h
  | case8 => cases h
  | case9 first given s bytes name colon hnext _ field hfield hgiven value hcolon change after hchange
      _ _ ih =>
    have hmem := List.mem_of_find?_eq_some hfield
    obtain ⟨members, hmembers, hnew, hread⟩ := ih (hkeeps.change field hmem hchange hheld) h
    have hassigned : form.assigned (.object ((name, value) :: members))
        = (field.name, value) :: form.assigned (.object members) := by
      rw [assigned, List.filterMap_cons_some (by rw [hfield, Option.map_some]), assigned]
    -- the rest is read with this field among those given, so it is not given again
    have hfirst : field.name ∉ (form.assigned (.object members)).map Prod.fst :=
      fun hname => hnew _ hname List.mem_cons_self
    refine ⟨(name, value) :: members,
      .more hnext hcolon (hskips field hmem hchange) hmembers, ?_, ?_⟩
    · rw [hassigned, List.map_cons, List.forall_mem_cons]
      exact ⟨fun hname => hgiven (List.contains_iff_mem.2 hname),
        fun other hother hname => hnew other hother (List.mem_cons_of_mem _ hname)⟩
    · rwa [hassigned, ← lookup_update hfirst]

theorem nextElement_bracket (first : Bool) (tail : Bytes) :
    nextElement first (93 :: tail) = .ok (false, 93 :: tail) := rfl

theorem bracket_of_nextElement {bracket : Bytes}
    (h : nextElement first bytes = .ok (false, bracket)) : ∃ tail, bracket = 93 :: tail := by
  unfold nextElement at h
  split at h
  · cases h
  · rename_i b tail _
    split at h
    · rename_i hb
      cases h
      exact ⟨tail, by rw [hb]⟩
    · split at h
      · cases h
      · split at h
        · split at h
          · cases h
          · split at h <;> cases h
        · cases h

/-- At the closing bracket no field takes a value. -/
theorem readPositions_bracket {fields : List (Field σ)} {index : Nat} {tail : Bytes}
    (h : form.readPositions fields index first s (93 :: tail) = .ok (s', rest)) :
    s' = s ∧ rest = 93 :: tail := by
  induction fields generalizing index with
  | nil =>
    cases h
    exact ⟨rfl, rfl⟩
  | cons field fields ih =>
    rw [readPositions, nextElement_bracket] at h
    dsimp only at h
    split at h
    · cases h
    · exact ih h

theorem bracket_of_endList (h : endList bytes = .ok rest) :
    ∃ bracket, nextElement first bytes = .ok (false, bracket) ∧ endList bracket = .ok rest := by
  unfold endList at h
  split at h
  · cases h
  · rename_i b tail hspace
    split at h
    · rename_i hb
      cases h
      subst hb
      refine ⟨93 :: rest, ?_, rfl⟩
      rw [nextElement, hspace]
      rfl
    · split at h
      · split at h <;> cases h
      · cases h

theorem readPositions_outline (hskips : ∀ field ∈ form.fields, field.change.Skips)
    (hkeeps : form.Keeps P) {fields : List (Field σ)} (hfields : ∀ field ∈ fields, field ∈ form.fields)
    (hnames : (fields.map Field.name).Nodup) {index : Nat} {bracket : Bytes} (hheld : P held s)
    (h : form.readPositions fields index first s bytes = .ok (s', bracket))
    (hend : endList bracket = .ok rest) :
    ∃ elements, Elements first bytes elements rest ∧
      P (fun name => (((fields.map Field.name).zip elements).lookup name).or (held name)) s' := by
  induction fields generalizing index first s bytes held with
  | nil =>
    cases h
    obtain ⟨bracket, hnext, hend⟩ := bracket_of_endList hend
    exact ⟨[], .close hnext hend, hheld⟩
  | cons field fields ih =>
    rw [List.map_cons, List.nodup_cons] at hnames
    rw [readPositions] at h
    split at h
    · cases h
    · rename_i closed hnext
      split at h
      · cases h
      · obtain ⟨tail, rfl⟩ := bracket_of_nextElement hnext
        obtain ⟨rfl, rfl⟩ := readPositions_bracket h
        exact ⟨[], .close hnext hend, hheld⟩
    · rename_i value hnext
      split at h
      · cases h
      · rename_i change after hchange
        have hmem := hfields field List.mem_cons_self
        obtain ⟨elements, helements, hread⟩ :=
          ih (fun other hother => hfields other (List.mem_cons_of_mem _ hother)) hnames.2
            (hkeeps.change field hmem hchange hheld) h
        have hnew : field.name ∉ ((fields.map Field.name).zip elements).map Prod.fst := by
          intro hname
          obtain ⟨⟨other, element⟩, hpair, rfl⟩ := List.mem_map.1 hname
          exact hnames.1 (List.of_mem_zip hpair).1
        refine ⟨value :: elements, .more hnext (hskips field hmem hchange) helements, ?_⟩
        rw [List.map_cons, List.zip_cons_cons, ← lookup_update hnew]
        exact hread

def names (form : Form σ) : List String :=
  form.fields.flatMap fun field => field.name :: field.aliases

theorem nodup_map_name (h : form.names.Nodup) : (form.fields.map Field.name).Nodup := by
  refine List.Pairwise.map _ (fun field other hdisjoint heq => ?_) (List.nodup_flatMap.1 h).2
  exact hdisjoint List.mem_cons_self (heq ▸ List.mem_cons_self)

theorem eq_of_mem_names (h : form.names.Nodup) {field other : Field σ} (hfield : field ∈ form.fields)
    (hother : other ∈ form.fields) {name : String} (hname : name ∈ field.name :: field.aliases)
    (hname' : name ∈ other.name :: other.aliases) : field = other := by
  by_contra hne
  have hsymm : Std.Symm (Function.onFun List.Disjoint
      fun field : Field σ => field.name :: field.aliases) := ⟨fun _ _ h => List.disjoint_symm h⟩
  exact (List.nodup_flatMap.1 h).2.forall hfield hother hne hname hname'

theorem field?_eq_some_iff (h : form.names.Nodup) {field : Field σ} (hfield : field ∈ form.fields)
    {name : String} : form.field? name = some field ↔ name ∈ field.name :: field.aliases := by
  have hmeans (other : Field σ) : (other.name == name || other.aliases.contains name) = true ↔
      name ∈ other.name :: other.aliases := by
    rw [Bool.or_eq_true, beq_iff_eq, List.contains_iff_mem, List.mem_cons, eq_comm]
  constructor
  · intro hfind
    rw [field?] at hfind
    have hsome := List.find?_some hfind
    exact (hmeans field).1 hsome
  · intro hname
    cases hfind : form.field? name with
    | none => exact absurd ((hmeans field).2 hname) (List.find?_eq_none.1 hfind field hfield)
    | some other =>
      rw [field?] at hfind
      have hsome := List.find?_some hfind
      have hother := (hmeans other).1 hsome
      rw [eq_of_mem_names h hfield (List.mem_of_find?_eq_some hfind) hname hother]

theorem lookup_zip {names : List String} (hnodup : names.Nodup) {place : Nat} {name : String}
    (hname : names[place]? = some name) (elements : List Bytes) :
    (names.zip elements).lookup name = elements[place]? := by
  induction names generalizing place elements with
  | nil => cases hname
  | cons first names ih =>
    rw [List.nodup_cons] at hnodup
    cases elements with
    | nil => rfl
    | cons element elements =>
      rw [List.zip_cons_cons, List.lookup_cons]
      cases place with
      | zero =>
        cases hname
        rw [beq_self_eq_true]
        rfl
      | succ place =>
        have hne : name ≠ first := by
          rintro rfl
          exact hnodup.1 (List.mem_of_getElem? hname)
        rw [beq_false_of_ne hne]
        exact ih hnodup.2 hname elements

theorem lookup_assigned (h : form.names.Nodup) {place : Nat} {field : Field σ}
    (hfield : form.fields[place]? = some field) (outline : Outline) :
    (form.assigned outline).lookup field.name
      = outline.value (field.name :: field.aliases) place := by
  have hmem := List.mem_of_getElem? hfield
  cases outline with
  | object members =>
    induction members with
    | nil => rfl
    | cons member members ih =>
      rw [assigned] at ih ⊢
      rw [Outline.value] at ih ⊢
      by_cases hname : member.1 ∈ field.name :: field.aliases
      · rw [List.filterMap_cons_some (by rw [(field?_eq_some_iff h hmem).2 hname, Option.map_some]),
          List.lookup_cons_self, List.find?_cons, List.contains_iff_mem.2 hname]
        rfl
      · have hother : (field.name :: field.aliases).contains member.1 = false := by
          rwa [← Bool.not_eq_true, List.contains_iff_mem]
        rw [List.find?_cons, hother, ← ih]
        cases hfind : form.field? member.1 with
        | none => rw [List.filterMap_cons_none (by rw [hfind, Option.map_none])]
        | some other =>
          have hne : field.name ≠ other.name := by
            intro heq
            have hother := List.mem_of_find?_eq_some hfind
            have hsame := eq_of_mem_names h hmem hother List.mem_cons_self
              (heq ▸ List.mem_cons_self)
            subst hsame
            exact hname ((field?_eq_some_iff h hmem).1 hfind)
          rw [List.filterMap_cons_some (by rw [hfind, Option.map_some]), List.lookup_cons,
            beq_false_of_ne hne]
  | list elements =>
    refine lookup_zip (nodup_map_name h) ?_ elements
    rw [List.getElem?_map, hfield, Option.map_some]

theorem readObject_outline (hskips : ∀ field ∈ form.fields, field.change.Skips)
    (hkeeps : form.Keeps P) (h : form.readObject bytes = .ok (s, rest)) :
    ∃ members, Members true bytes members rest ∧
      P (fun name => (form.assigned (.object members)).lookup name) s := by
  unfold readObject at h
  split at h
  · cases h
  · rename_i given read after hread
    split at h
    · cases h
    · cases h
      obtain ⟨members, hmembers, -, hP⟩ := readMembers_outline hskips hkeeps hkeeps.start hread
      simp only [Option.or_none] at hP
      exact ⟨members, hmembers, hP⟩

theorem readList_outline (hskips : ∀ field ∈ form.fields, field.change.Skips)
    (hkeeps : form.Keeps P) (hnames : form.names.Nodup)
    (h : form.readList bytes = .ok (s, rest)) :
    ∃ elements, Elements true bytes elements rest ∧
      P (fun name => (form.assigned (.list elements)).lookup name) s := by
  unfold readList at h
  split at h
  · cases h
  · rename_i read bracket hread
    split at h
    · cases h
    · rename_i after hend
      cases h
      obtain ⟨elements, helements, hP⟩ := readPositions_outline hskips hkeeps
        (fun _ hmem => hmem) (nodup_map_name hnames) hkeeps.start hread hend
      simp only [Option.or_none] at hP
      exact ⟨elements, helements, hP⟩

theorem reader_cases (h : form.reader.run bytes = .ok (s, rest)) :
    (∃ inside, skipSpace bytes = 91 :: inside ∧ form.readList inside = .ok (s, rest)) ∨
      ∃ inside, skipSpace bytes = 123 :: inside ∧ form.readObject inside = .ok (s, rest) := by
  change Reader.runFirst _ bytes = _ at h
  unfold Reader.runFirst at h
  split at h
  · cases h
  · rename_i b tail hspace
    dsimp only at h
    split at h
    · rename_i hb
      exact .inl ⟨tail, hb ▸ hspace, h⟩
    · split at h
      · rename_i hb
        exact .inr ⟨tail, hb ▸ hspace, h⟩
      · cases h

/-- A document that is read has an outline, and what is kept between the values and the record holds
of the values that the outline has for the fields. -/
theorem document_outline (hskips : ∀ field ∈ form.fields, field.change.Skips)
    (hkeeps : form.Keeps P) (hnames : form.names.Nodup) (h : form.reader.document bytes = .ok s) :
    ∃ outline, IsOutline bytes outline ∧ P (fun name => (form.assigned outline).lookup name) s := by
  unfold Reader.document at h
  split at h
  · cases h
  · rename_i read rest hread
    split at h
    · rename_i hblank
      cases h
      have hrest := List.isEmpty_iff.1 hblank
      rcases reader_cases hread with ⟨inside, hbracket, hlist⟩ | ⟨inside, hbrace, hobject⟩
      · obtain ⟨elements, helements, hP⟩ := readList_outline hskips hkeeps hnames hlist
        exact ⟨.list elements, .list hbracket helements hrest, hP⟩
      · obtain ⟨members, hmembers, hP⟩ := readObject_outline hskips hkeeps hobject
        exact ⟨.object members, .object hbrace hmembers hrest, hP⟩
    · cases h

end Form

end Telemetry.Json
