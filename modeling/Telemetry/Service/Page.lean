import Telemetry.Store.Repository

/-!
# The page of all metrics

A table with a row for each metric, in the order of the names. The characters that mean something in
a page are replaced by entities, so that no name can add to the page anything but its own text.
-/

namespace Telemetry.Service

def escapeChar (c : Char) : List Char :=
  if c = '<' then "&lt;".toList
  else if c = '>' then "&gt;".toList
  else if c = '&' then "&amp;".toList
  else if c = '"' then "&quot;".toList
  else [c]

def escape (text : String) : List Char := text.toList.flatMap escapeChar

def pageStart : List Char := "<html><body><table border=\"1\">".toList

def pageEnd : List Char := "</table></body></html>".toList

def pageRow (record : Record) : List Char :=
  "<tr><td>".toList ++ escape record.name ++ "</td><td>".toList ++ record.value.text.toList
    ++ "</td></tr>".toList

def sortByName (records : List Record) : List Record :=
  records.mergeSort fun a b => decide (a.name ≤ b.name)

def page (records : List Record) : List Char :=
  pageStart ++ (sortByName records).flatMap pageRow ++ pageEnd

/-- The page of all metrics of a repository. -/
def indexPage {σ : Type} [Repository σ] : Action σ String := do
  let records ← Repository.getAll
  pure (String.ofList (page records))

end Telemetry.Service
