import SqlAnalysis.Analysis.Cause

/-!
Counts of validations: how many succeeded, and how many failed for causes of each code.
-/

namespace SqlAnalysis

structure Metrics where
  succeeded : Nat := 0
  failures : Table Code Nat := {}

namespace Metrics

instance : Inhabited Metrics := ⟨{}⟩

variable (m : Metrics)

def observe : Option Code → Metrics
  | none => { m with succeeded := m.succeeded + 1 }
  | some c => { m with failures := m.failures.insert c ((m.failures.get? c).getD 0 + 1) }

def failed : Nat := Number.total (m.failures.entries.map Prod.snd)

def total : Nat := m.succeeded + m.failed

def errorSeries : List (String × Nat) :=
  (m.failures.entries.map fun (c, n) => (c.toText, n)).mergeSort fun a b => decide (a.1 ≤ b.1)

def resultSeries : List (String × Nat) :=
  [("error", m.failed), ("ok", m.succeeded)].filter fun s => s.2 != 0

/-- A family of counts as monitoring systems read it; without counts it is left out. -/
def familyText (name help label : String) (series : List (String × Nat)) : String :=
  if series.isEmpty then ""
  else
    "# HELP " ++ name ++ " " ++ help ++ "\n# TYPE " ++ name ++ " counter\n" ++
      Text.join "" (series.map fun (value, n) =>
        name ++ "\x7b" ++ label ++ "=\"" ++ value ++ "\"\x7d " ++ Number.natText n ++ "\n")

def toText : String :=
  familyText "sqlsem_validation_errors_total" "Number of failed validations, by error code." "code"
      m.errorSeries ++
    familyText "sqlsem_validations_total" "Number of statements validated, by result." "result"
      m.resultSeries

end Metrics

end SqlAnalysis
