/-!
# Faults of documents

A text may fail to be a document in two ways. When it has several faults, the one that is met first
counts.
-/

namespace SchemaModules.Toml

/-- Why a text is no document. -/
inductive Fault
  /-- It breaks a rule of the format. -/
  | malformed
  /-- A key of it has too many parts. -/
  | longKey
  deriving Repr, DecidableEq

/-- The wording of the fault. -/
def Fault.message : Fault → String
  | .malformed => "TOML parse error"
  | .longKey => "recursion limit\n"

/-- What is there, or the fault of there being nothing. -/
def orMalformed {α : Type} : Option α → Except Fault α
  | some a => .ok a
  | none => .error .malformed

/-- All of the results, or the fault of the first that has one. -/
def collect {α : Type} : List (Except Fault α) → Except Fault (List α)
  | [] => .ok []
  | .error fault :: _ => .error fault
  | .ok a :: rest => (collect rest).map fun as => a :: as

/-- Results without a fault are all collected. -/
theorem collect_map_ok {α : Type} (as : List α) : collect (as.map Except.ok) = .ok as := by
  induction as with
  | nil => rfl
  | cons a as ih => simp [collect, ih, Except.map]

end SchemaModules.Toml
