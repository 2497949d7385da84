import Telemetry.Proofs.Service.Update
import Telemetry.Service.Page

/-!
# What a query sees of a store

The requests that only read are answered from the contents of a store and leave it alone. The page of
all metrics is made of the records in no particular order, and shows the same for every order, since
a name has one record and the rows are sorted by name.
-/

namespace Telemetry

namespace Service

theorem pairwise_sortByName (records : List Record) :
    (sortByName records).Pairwise fun a b => a.name ≤ b.name := by
  refine List.Pairwise.imp of_decide_eq_true (List.pairwise_mergeSort ?_ ?_ records)
  · intro a b c hab hbc
    exact decide_eq_true (String.le_trans (of_decide_eq_true hab) (of_decide_eq_true hbc))
  · intro a b
    rcases String.le_total a.name b.name with hle | hle <;> simp [hle]

theorem sortByName_eq_of_perm {left right : List Record} (hperm : left.Perm right)
    (hdistinct : (left.map Record.name).Nodup) : sortByName left = sortByName right := by
  have hsame : (sortByName left).Perm (sortByName right) :=
    (List.mergeSort_perm _ _).trans (hperm.trans (List.mergeSort_perm _ _).symm)
  refine hsame.eq_of_pairwise (fun a b ha hb hab hba => ?_) (pairwise_sortByName left)
    (pairwise_sortByName right)
  have hname : a.name = b.name := String.le_antisymm hab hba
  have ha' : a ∈ left := List.mem_mergeSort.1 ha
  have hb' : b ∈ left := hperm.mem_iff.2 (List.mem_mergeSort.1 hb)
  have hlists := Contents.lists_ofRecords hdistinct
  have hvalue := (hlists.2 a).1 ha'
  rw [hname, (hlists.2 b).1 hb', Option.some.injEq] at hvalue
  cases a
  cases b
  simp_all

theorem page_eq_of_perm {left right : List Record} (hperm : left.Perm right)
    (hdistinct : (left.map Record.name).Nodup) : page left = page right := by
  unfold page
  rw [sortByName_eq_of_perm hperm hdistinct]

inductive Query where
  | one (query : Sample)
  | text (kind name : String)
  | page

namespace Query

variable {σ : Type} [Repository σ]

def perform : Query → Action σ Answer
  | .one query => do
    let shown ← lookup query
    pure (.shown shown)
  | .text kind name => do
    let text ← lookupText kind name
    pure (.text text)
  | .page => do
    let text ← indexPage
    pure (.text text)

def found (c : Contents) (kind : Kind) (name : String) : Except Failure Record := do
  requireName name
  match c.record? name with
  | some record => if record.kind = kind then pure record else throw (.metricNotFound name)
  | none => throw (.metricNotFound name)

variable {m : Medium} (faithful : Repository.Faithful σ m) {world : World σ} {c : Contents}

theorem find_apply (h : faithful.Shows world.store c) (kind : Kind) (name : String) :
    find kind name world = (found c kind name, world) := by
  unfold find found
  rw [Action.bind_apply, Action.ofResult_apply]
  cases requireName name with
  | error failure => rfl
  | ok done =>
    simp only [Action.bind_apply, faithful.get h]
    cases c.record? name with
    | none => rfl
    | some record =>
      dsimp only
      by_cases hkind : record.kind = kind
      · rw [if_pos hkind]
        exact congrArg (·, world) (if_pos hkind).symm
      · rw [if_neg hkind]
        exact congrArg (·, world) (if_neg hkind).symm

theorem perform_one (h : faithful.Shows world.store c) (query : Sample) :
    (one query).perform world
      = ((found c query.kind query.id).map fun record => .shown (Sample.ofRecord record), world) := by
  simp only [perform, lookup, Action.bind_apply, find_apply faithful h]
  cases found c query.kind query.id <;> rfl

theorem perform_text (h : faithful.Shows world.store c) (kind name : String) :
    (text kind name).perform world
      = ((do
          let record ← found c (← Kind.ofName kind) name
          pure (.text record.value.text)), world) := by
  simp only [perform, lookupText, Action.bind_apply, Action.ofResult_apply]
  cases Kind.ofName kind with
  | error failure => rfl
  | ok kind =>
    simp only [find_apply faithful h, bind, Except.bind]
    cases found c kind name <;> rfl

theorem perform_page (h : faithful.Shows world.store c) :
    ∃ records, c.Lists records ∧
      Query.page.perform world = (.ok (.text (String.ofList (Service.page records))), world) := by
  obtain ⟨records, hgetAll, hlists⟩ := faithful.getAll h
  refine ⟨records, hlists, ?_⟩
  simp only [perform, indexPage, Action.bind_apply, hgetAll]
  rfl

theorem perform_world (h : faithful.Shows world.store c) (query : Query) :
    (query.perform world).2 = world := by
  cases query with
  | one query => rw [perform_one faithful h]
  | text kind name => rw [perform_text faithful h]
  | page =>
    obtain ⟨records, _, hperform⟩ := perform_page faithful h
    rw [hperform]

theorem perform_agrees {τ : Type} [Repository τ] {m' : Medium} (other : Repository.Faithful τ m')
    {world' : World τ} (h : faithful.Shows world.store c) (h' : other.Shows world'.store c)
    (query : Query) : (query.perform world).1 = (query.perform world').1 := by
  cases query with
  | one query => rw [perform_one faithful h, perform_one other h']
  | text kind name => rw [perform_text faithful h, perform_text other h']
  | page =>
    obtain ⟨records, hlists, hperform⟩ := perform_page faithful h
    obtain ⟨records', hlists', hperform'⟩ := perform_page other h'
    rw [hperform, hperform', page_eq_of_perm (hlists.perm hlists') hlists.1]

end Query

end Service

end Telemetry
