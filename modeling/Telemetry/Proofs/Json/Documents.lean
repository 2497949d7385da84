import Telemetry.Proofs.Json.Extent
import Telemetry.Proofs.Json.Fields

/-!
# The end of a document

An object or a list ends with its closing byte, and all that is read before this byte, numbers among
it, has something left behind it. So where a document ends does not depend on what follows it, whatever
is inside: members in any order, unknown ones of any depth, or the values alone.
-/

namespace Telemetry.Json

/-- What is read stays the same when more bytes follow, if what was left is as it should be. -/
def GoesOn {α : Type} (left : Bytes → Prop) (read : Bytes → Result α) : Prop :=
  ∀ ⦃bytes rest : Bytes⦄ ⦃a : α⦄, read bytes = .ok (a, rest) → left rest →
    ∀ more, read (bytes ++ more) = .ok (a, rest ++ more)

/-- What is read ends by itself. -/
abbrev EndsItself {α : Type} (read : Bytes → Result α) : Prop := GoesOn (fun _ => True) read

/-- What is read ends at the latest where something is left. -/
abbrev EndsBefore {α : Type} (read : Bytes → Result α) : Prop := GoesOn (· ≠ []) read

theorem EndsItself.goesOn {α : Type} {read : Bytes → Result α} (h : EndsItself read)
    {left : Bytes → Prop} : GoesOn left read := fun _ _ _ hread _ => h hread trivial

section Choices

variable {α : Type} {left : Bytes → Prop} {read read' : Bytes → Result α}

theorem goesOn_ite {c : Prop} [Decidable c] (h : GoesOn left read) (h' : GoesOn left read') :
    GoesOn left fun bytes => if c then read bytes else read' bytes := by
  by_cases hc : c
  · simpa only [if_pos hc] using h
  · simpa only [if_neg hc] using h'

theorem goesOn_error (fault : Bytes → Error) :
    GoesOn left fun bytes => (.error (fault bytes) : Result α) := by
  intro bytes rest a h
  cases h

/-- A reader that only tells what it leaves, with a value that does not depend on it. -/
theorem goesOn_const {skip : Bytes → Except Error Bytes} (a : α)
    (h : ∀ {bytes rest : Bytes}, skip bytes = .ok rest → left rest →
      ∀ more, skip (bytes ++ more) = .ok (rest ++ more)) :
    GoesOn left fun bytes => (skip bytes).map fun rest => (a, rest) := by
  intro bytes rest b hread hleft more
  obtain ⟨after, hafter, hparts⟩ := Numeral.map_ok hread
  obtain ⟨rfl, rfl⟩ := Prod.mk.inj hparts
  dsimp only
  rw [h hafter hleft]
  rfl

end Choices

/-! ### Values that are passed over -/

theorem skipStart_cons (b : UInt8) (rest : Bytes) :
    skipStart (b :: rest) =
      if b = 110 then (readWord nullTail rest).map fun rest => (none, rest)
      else if b = 116 then (readWord trueTail rest).map fun rest => (none, rest)
      else if b = 102 then (readWord falseTail rest).map fun rest => (none, rest)
      else if b = 34 then (skipString rest).map fun rest => (none, rest)
      else if b = 91 then .ok (some .list, rest)
      else if b = 123 then .ok (some .object, rest)
      else if b = 45 || Numeral.isDigit b then
        ((Numeral.skip (b :: rest)).mapError NumeralError.toError).map fun rest => (none, rest)
      else .error .expectedValue := by
  unfold skipStart
  dsimp only
  split <;> simp_all

theorem mapError_ok {α ε δ : Type} {f : ε → δ} {result : Except ε α} {a : α}
    (h : result.mapError f = .ok a) : result = .ok a := by
  cases result with
  | error e => cases h
  | ok b =>
    cases h
    rfl

theorem endsBefore_skipStart : EndsBefore skipStart := by
  intro bytes rest opened h hrest more
  cases bytes with
  | nil => cases h
  | cons b bytes =>
    have hopens (frame : Frame) : EndsBefore fun bytes => .ok (some frame, bytes) := by
      rintro bytes rest opened ⟨⟩ _ more
      rfl
    have hnumber : EndsBefore fun bytes =>
        ((Numeral.skip (b :: bytes)).mapError NumeralError.toError).map
          fun rest => ((none : Option Frame), rest) := by
      refine goesOn_const none fun hskip hrest more => ?_
      have hskip' := Numeral.skip_append (mapError_ok hskip) hrest more
      rw [List.cons_append] at hskip'
      rw [hskip']
      rfl
    have hword (word : Bytes) : EndsBefore fun bytes =>
        (readWord word bytes).map fun rest => ((none : Option Frame), rest) :=
      goesOn_const none fun hread _ => readWord_append hread
    have hstring : EndsBefore fun bytes =>
        (skipString bytes).map fun rest => ((none : Option Frame), rest) :=
      goesOn_const none fun hread _ => skipString_append hread
    have hfirst : EndsBefore fun bytes => skipStart (b :: bytes) := by
      simp only [skipStart_cons]
      exact goesOn_ite (hword nullTail) <| goesOn_ite (hword trueTail) <|
        goesOn_ite (hword falseTail) <| goesOn_ite hstring <| goesOn_ite (hopens .list) <|
        goesOn_ite (hopens .object) <| goesOn_ite hnumber <| goesOn_error fun _ => .expectedValue
    exact hfirst h hrest more

theorem closeFrames_append {comma : Bool} {frames left : List Frame} {bytes rest : Bytes}
    (h : closeFrames comma frames bytes = .ok (left, rest)) (more : Bytes) :
    closeFrames comma frames (bytes ++ more) = .ok (left, rest ++ more) := by
  induction frames generalizing comma bytes with
  | nil =>
    cases h
    rfl
  | cons frame outer ih =>
    unfold closeFrames at h ⊢
    split at h
    · cases h
    · rename_i b tail hspace
      rw [skipSpace_append hspace]
      dsimp only
      split at h
      · cases h
        rw [if_pos ‹_›]
      · rw [if_neg ‹_›]
        split at h
        · rw [if_pos ‹_›]
          exact ih h
        · rw [if_neg ‹_›]
          split at h
          · cases h
          · cases h
            rw [if_neg ‹_›]
            rfl

theorem skipName_append {bytes rest : Bytes} (h : skipName bytes = .ok rest) (more : Bytes) :
    skipName (bytes ++ more) = .ok (rest ++ more) := by
  unfold skipName at h ⊢
  split at h
  · cases h
  · rename_i b tail hspace
    rw [skipSpace_append hspace]
    dsimp only
    split at h
    · cases h
    · rw [if_neg ‹_›]
      split at h
      · cases h
      · rename_i after hname
        rw [skipString_append hname]
        dsimp only
        split at h
        · cases h
        · rename_i c value hcolon
          rw [skipSpace_append hcolon]
          dsimp only
          split at h
          · cases h
            rw [if_pos ‹_›]
          · cases h

theorem endsBefore_skipSpace_skipStart : EndsBefore (skipStart ∘ skipSpace) := by
  intro bytes rest opened h hrest more
  have hnext := endsBefore_skipStart h hrest more
  rw [Function.comp_apply] at h ⊢
  cases hspace : skipSpace bytes with
  | nil =>
    rw [hspace] at h
    cases h
  | cons b tail =>
    rw [hspace, List.cons_append] at hnext
    rw [skipSpace_append hspace, hnext]

/-- What is done after the start of a value: as many frames are closed as end here, and if one stays
open, the name of a member or nothing is passed over before its next value. -/
theorem skipValues_eq {frames : List Frame} {bytes rest : Bytes} {opened : Option Frame}
    (h : skipStart (skipSpace bytes) = .ok (opened, rest)) :
    skipValues frames bytes =
      match closeFrames opened.isNone (opened.toList ++ frames) rest with
      | .error e => .error e
      | .ok ([], after) => .ok after
      | .ok (.list :: outer, after) => skipValues (.list :: outer) after
      | .ok (.object :: outer, after) => match skipName after with
        | .error e => .error e
        | .ok value => skipValues (.object :: outer) value := by
  rw [skipValues]
  split
  · rename_i heq
    cases h.symm.trans heq
  · rename_i heq
    cases h.symm.trans heq
    cases opened
    all_goals
      dsimp only [Option.toList, List.cons_append, List.nil_append]
      split <;> rename_i hclose <;> rw [hclose]
      split <;> rename_i hname <;> dsimp only <;> rw [hname]

/-- Whatever frame is open, something is left for its end. -/
theorem skipValues_append {frames : List Frame} {bytes rest : Bytes}
    (h : skipValues frames bytes = .ok rest) (hrest : rest ≠ []) (more : Bytes) :
    skipValues frames (bytes ++ more) = .ok (rest ++ more) := by
  fun_induction skipValues frames bytes with
  | case1 => cases h
  | case2 => cases h
  | case3 frames bytes opened after hstart opening behind hclose =>
    cases h
    have hopening : opening = opened.toList ++ frames := by cases opened <;> rfl
    have hafter := Numeral.ne_nil_of_length_le hrest (closeFrames_length hclose)
    rw [skipValues_eq (endsBefore_skipSpace_skipStart hstart hafter more), ← hopening,
      closeFrames_append hclose]
  | case4 frames bytes opened after hstart opening outer behind hclose _ _ _ ih =>
    have hopening : opening = opened.toList ++ frames := by cases opened <;> rfl
    have hbehind := Numeral.ne_nil_of_length_le hrest (Nat.le_of_lt (skipValues_length h))
    have hafter := Numeral.ne_nil_of_length_le hbehind (closeFrames_length hclose)
    rw [skipValues_eq (endsBefore_skipSpace_skipStart hstart hafter more), ← hopening,
      closeFrames_append hclose]
    exact ih h
  | case5 => cases h
  | case6 frames bytes opened after hstart opening outer behind hclose value hname _ _ _ _ ih =>
    have hopening : opening = opened.toList ++ frames := by cases opened <;> rfl
    have hvalue := Numeral.ne_nil_of_length_le hrest (Nat.le_of_lt (skipValues_length h))
    have hbehind := Numeral.ne_nil_of_length_le hvalue (Nat.le_of_lt (skipName_length hname))
    have hafter := Numeral.ne_nil_of_length_le hbehind (closeFrames_length hclose)
    rw [skipValues_eq (endsBefore_skipSpace_skipStart hstart hafter more), ← hopening,
      closeFrames_append hclose]
    dsimp only
    rw [skipName_append hname]
    exact ih h

/-! ### Single values -/

namespace Reader

variable {α β : Type} {left : Bytes → Prop} {reader : Reader α}

/-- What is read behind the first byte settles it: the blanks before this byte are the same. -/
theorem goesOn_runFirst {read : UInt8 → Bytes → Result α} (h : ∀ b, GoesOn left (read b)) :
    GoesOn left (runFirst read) := by
  intro bytes rest a hread hleft more
  unfold runFirst at hread ⊢
  split at hread
  · cases hread
  · rename_i b tail hspace
    rw [skipSpace_append hspace]
    exact h b hread hleft more

theorem goesOn_filterMap (h : GoesOn left reader.run) (f : α → Except Error β) :
    GoesOn left (reader.filterMap f).run := by
  intro bytes rest b hread hleft more
  unfold filterMap at hread ⊢
  dsimp only at hread ⊢
  split at hread
  · cases hread
  · rename_i a after hrun
    split at hread
    · cases hread
    · rename_i hf
      obtain ⟨rfl, rfl⟩ := Prod.mk.inj (Except.ok.inj hread)
      rw [h hrun hleft more]
      dsimp only
      rw [hf]

theorem goesOn_map (h : GoesOn left reader.run) (f : α → β) : GoesOn left (reader.map f).run :=
  goesOn_filterMap h _

theorem endsItself_text (expected : String) : EndsItself (text expected).run :=
  goesOn_runFirst fun _ => goesOn_ite (fun _ _ _ hread _ => readString_append hread) (goesOn_error _)

theorem endsBefore_numeral (expected : String) : EndsBefore (numeral expected).run := by
  refine goesOn_runFirst fun b => goesOn_ite ?_ (goesOn_error _)
  intro bytes rest n hread hrest more
  dsimp only
  rw [← List.cons_append, Numeral.read_append (mapError_ok hread) hrest]
  rfl

theorem endsBefore_int64 : EndsBefore int64.run := goesOn_filterMap (endsBefore_numeral _) _

theorem endsBefore_float : EndsBefore float.run := goesOn_map (endsBefore_numeral _) _

theorem wordResult_append {a b : α} {word bytes rest : Bytes}
    (h : wordResult a word bytes = .ok (b, rest)) (more : Bytes) :
    wordResult a word (bytes ++ more) = .ok (b, rest ++ more) := by
  unfold wordResult at h ⊢
  split at h
  · cases h
  · rename_i hword
    cases h
    rw [readWord_append hword]

theorem endsItself_unit : EndsItself unit.run :=
  goesOn_runFirst fun _ => goesOn_ite (fun _ _ _ hread _ => wordResult_append hread) (goesOn_error _)

theorem goesOn_optional (h : GoesOn left reader.run) : GoesOn left reader.optional.run := by
  intro bytes rest a hread hleft more
  change runOptional reader _ = _ at hread ⊢
  unfold runOptional at hread ⊢
  split at hread
  · have hlength := (reader.map some).shrinks hread
    cases hlength
  · rename_i b tail hspace
    rw [skipSpace_append hspace]
    dsimp only
    split at hread
    · rw [if_pos ‹_›]
      exact wordResult_append hread more
    · rw [if_neg ‹_›, ← List.cons_append]
      exact goesOn_map h some hread hleft more

end Reader

/-! ### Records -/

theorem nextElement_append {first another : Bool} {bytes rest : Bytes}
    (h : nextElement first bytes = .ok (another, rest)) (more : Bytes) :
    nextElement first (bytes ++ more) = .ok (another, rest ++ more) := by
  unfold nextElement at h ⊢
  split at h
  · cases h
  · rename_i b tail hspace
    rw [skipSpace_append hspace]
    dsimp only
    split at h
    · cases h
      rw [if_pos ‹_›]
      rfl
    · rw [if_neg ‹_›]
      split at h
      · cases h
        rw [if_pos ‹_›]
        rfl
      · rw [if_neg ‹_›]
        split at h
        · rw [if_pos ‹_›]
          split at h
          · cases h
          · rename_i c after hnext
            rw [skipSpace_append hnext]
            dsimp only
            split at h
            · cases h
            · cases h
              rw [if_neg ‹_›]
              rfl
        · cases h

theorem endList_append {bytes rest : Bytes} (h : endList bytes = .ok rest) (more : Bytes) :
    endList (bytes ++ more) = .ok (rest ++ more) := by
  unfold endList at h ⊢
  split at h
  · cases h
  · rename_i b tail hspace
    rw [skipSpace_append hspace]
    dsimp only
    split at h
    · cases h
      rw [if_pos ‹_›]
    · split at h
      · split at h <;> cases h
      · cases h

theorem readColon_append {bytes rest : Bytes} (h : readColon bytes = .ok rest) (more : Bytes) :
    readColon (bytes ++ more) = .ok (rest ++ more) := by
  unfold readColon at h ⊢
  split at h
  · cases h
  · rename_i b tail hspace
    rw [skipSpace_append hspace]
    dsimp only
    split at h
    · cases h
      rw [if_pos ‹_›]
    · cases h

theorem nextMember_name_append {bytes rest : Bytes} {name : Option String}
    (h : nextMember.name bytes = .ok (name, rest)) (more : Bytes) :
    nextMember.name (bytes ++ more) = .ok (name, rest ++ more) := by
  unfold nextMember.name at h ⊢
  split at h
  · cases h
  · rename_i hread
    cases h
    rw [readString_append hread]

theorem nextMember_append {first : Bool} {bytes rest : Bytes} {name : Option String}
    (h : nextMember first bytes = .ok (name, rest)) (more : Bytes) :
    nextMember first (bytes ++ more) = .ok (name, rest ++ more) := by
  unfold nextMember at h ⊢
  split at h
  · cases h
  · rename_i b tail hspace
    rw [skipSpace_append hspace]
    dsimp only
    split at h
    · cases h
      rw [if_pos ‹_›]
    · rw [if_neg ‹_›]
      split at h
      · rw [if_pos ‹_›]
        split at h
        · rw [if_pos ‹_›]
          exact nextMember_name_append h more
        · cases h
      · rw [if_neg ‹_›]
        split at h
        · rw [if_pos ‹_›]
          split at h
          · cases h
          · rename_i c after hnext
            rw [skipSpace_append hnext]
            dsimp only
            split at h
            · rw [if_pos ‹_›]
              exact nextMember_name_append h more
            · cases h
        · cases h

namespace Form

variable {σ : Type} {form : Form σ}

/-- The values of all fields end at the latest where something is left. -/
def FieldsEnd (form : Form σ) : Prop := ∀ field ∈ form.fields, EndsBefore field.change.run

theorem FieldsEnd.field? (h : form.FieldsEnd) {name : String} {field : Field σ}
    (hfield : form.field? name = some field) : EndsBefore field.change.run :=
  h field (List.mem_of_find?_eq_some hfield)

theorem ne_nil_of_readMembers {first : Bool} {given : List String} {s : σ} {bytes : Bytes}
    {p : (List String × σ) × Bytes} (h : form.readMembers first given s bytes = .ok p) :
    bytes ≠ [] := by
  rintro rfl
  rw [readMembers_eq] at h
  cases h

/-- Behind each value of an object there is at least the closing brace. -/
theorem FieldsEnd.readMembers (h : form.FieldsEnd) {first : Bool} {given : List String} {s : σ} :
    EndsItself (form.readMembers first given s) := by
  intro bytes rest p hread _ more
  fun_induction Form.readMembers form first given s bytes with
  | case1 => cases hread
  | case2 first given s bytes after hnext =>
    cases hread
    rw [readMembers_eq, nextMember_append hnext]
  | case3 => cases hread
  | case4 => cases hread
  | case5 first given s bytes name rest hnext _ hnone value hcolon after hskip _ _ ih =>
    have hvalue := skipValues_append hskip (ne_nil_of_readMembers hread) more
    rw [readMembers_eq, nextMember_append hnext]
    dsimp only
    rw [hnone]
    dsimp only
    rw [readColon_append hcolon]
    dsimp only
    rw [skipValue, hvalue]
    exact ih hread
  | case6 => cases hread
  | case7 => cases hread
  | case8 => cases hread
  | case9 first given s bytes name rest hnext _ field hfield hnew value hcolon change after hchange
      _ _ ih =>
    have hvalue := h.field? hfield hchange (ne_nil_of_readMembers hread) more
    rw [readMembers_eq, nextMember_append hnext]
    dsimp only
    rw [hfield]
    dsimp only
    rw [if_neg hnew, readColon_append hcolon]
    dsimp only
    rw [hvalue]
    exact ih hread

/-- Behind each value of a list there is at least the closing bracket. -/
theorem readPositions_append {fields : List (Field σ)}
    (h : ∀ field ∈ fields, EndsBefore field.change.run) {index : Nat} {first : Bool} {s t : σ}
    {bytes rest : Bytes} (hread : form.readPositions fields index first s bytes = .ok (t, rest))
    (hrest : rest ≠ []) (more : Bytes) :
    form.readPositions fields index first s (bytes ++ more) = .ok (t, rest ++ more) := by
  induction fields generalizing index first s bytes with
  | nil =>
    cases hread
    rfl
  | cons field fields ih =>
    obtain ⟨hfield, hfields⟩ := List.forall_mem_cons.1 h
    unfold readPositions at hread ⊢
    split at hread
    · cases hread
    · rename_i after hnext
      rw [nextElement_append hnext]
      dsimp only
      split at hread
      · cases hread
      · rw [if_neg ‹_›]
        exact ih hfields hread
    · rename_i value hnext
      rw [nextElement_append hnext]
      dsimp only
      split at hread
      · cases hread
      · rename_i change after hchange
        have hafter := Numeral.ne_nil_of_length_le hrest (readPositions_length hread)
        rw [hfield hchange hafter]
        exact ih hfields hread

theorem FieldsEnd.readObject (h : form.FieldsEnd) : EndsItself form.readObject := by
  intro bytes rest s hread _ more
  unfold Form.readObject at hread ⊢
  split at hread
  · cases hread
  · rename_i given t after hmembers
    rw [h.readMembers hmembers trivial]
    dsimp only
    split at hread
    · cases hread
    · cases hread
      rfl

theorem FieldsEnd.readList (h : form.FieldsEnd) : EndsItself form.readList := by
  intro bytes rest s hread _ more
  unfold Form.readList at hread ⊢
  split at hread
  · cases hread
  · rename_i t after hpositions
    split at hread
    · cases hread
    · rename_i hend
      cases hread
      have hafter : after ≠ [] := by
        rintro rfl
        cases hend
      rw [readPositions_append h hpositions hafter]
      dsimp only
      rw [endList_append hend]

/-- A record ends by itself, in whichever form it is written. -/
theorem FieldsEnd.reader (h : form.FieldsEnd) : EndsItself form.reader.run :=
  Reader.goesOn_runFirst fun _ => goesOn_ite h.readList (goesOn_ite h.readObject (goesOn_error _))

end Form

end Telemetry.Json
