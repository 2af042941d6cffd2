import ProtoSchema.Naming
import ProtoSchema.Schema

/-! # The linter

A linter is a choice of rules and a least confidence.  The rules are applied one after the other in
their own order, whatever the order in which they were chosen, and problems below the least
confidence are dropped.  A threshold that is no number lets nothing through.
-/

namespace ProtoSchema

structure Linter where
  rules : List Rule := Rule.all
  minConfidence : Float := 0.0

namespace Linter

/-- The linter with `rules` and no others. -/
def withRules (l : Linter) (rules : List Rule) : Linter :=
  { l with rules := Rule.all.filter (· ∈ rules) }

def withMinConfidence (l : Linter) (min : Float) : Linter := { l with minConfidence := min }

/-- Whether a problem is sure enough to be reported. -/
def keeps (l : Linter) (p : Problem) : Bool := l.minConfidence ≤ p.confidence.toFloat

/-- The problems of a file, rule by rule. -/
def lintTree (l : Linter) (f : File) : List Problem :=
  (l.rules.flatMap (·.problems f)).filter l.keeps

/-- The problems of the file `name` with content `bytes`. -/
def lint (l : Linter) (name : String) (bytes : ByteArray) :
    Logged (Except ParseError (List Problem)) := do
  match ← parseBytes bytes (some name) with
  | .error e => return .error e
  | .ok f =>
    let problems := l.lintTree f
    Logged.write [⟨.debug, .lint, s!"{name}: {problems.length} problems"⟩]
    return .ok problems

/-- The problems of the file at `path`. -/
def lintFile (l : Linter) (read : String → Except ReadError ByteArray) (path : String) :
    Logged (Except FileError (List Problem)) :=
  withFile read path l.lint

end Linter

end ProtoSchema
