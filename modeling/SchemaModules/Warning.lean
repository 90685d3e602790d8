import SchemaModules.Json.Value

/-!
# Warnings

What a run reports without failing. Each kind of warning is a rule with a name.
-/

namespace SchemaModules

/-- Something in the source or the configuration that is likely to be a mistake. -/
inductive Warning
  /-- An alias refers to an entity that does not exist, and goes to the `fallback` module. -/
  | unresolvedAlias (name entity fallback : String)
  /-- A bucket lists an entity that the bucket `kept` lists before it. -/
  | duplicateMember (entity kept ignored : String)
  /-- A bucket lists an entity that the source does not declare. -/
  | unknownMember (bucket entity : String)
  /-- Modules import each other in a circle. -/
  | importCycle (modules : List String)
  deriving Repr, DecidableEq

namespace Warning

/-- The name of the rule, as reports for people show it. -/
def rule : Warning → String
  | .unresolvedAlias .. => "unresolved-alias-reference"
  | .duplicateMember .. => "duplicate-bucket-member"
  | .unknownMember .. => "unknown-bucket-member"
  | .importCycle .. => "import-cycle"

/-- The wording of a warning. A circle is shown with its first module again at the end. -/
def message : Warning → String
  | .unresolvedAlias name entity fallback =>
    s!"alias `{name}` references unknown entity `{entity}`; placed in `{fallback}`"
  | .duplicateMember entity kept ignored =>
    s!"entity `{entity}` listed in buckets `{kept}` and `{ignored}`; keeping `{kept}`"
  | .unknownMember bucket entity =>
    s!"bucket `{bucket}` lists `{entity}`, which the source does not declare"
  | .importCycle modules =>
    "modules import each other: " ++ " -> ".intercalate (modules ++ modules.head?.toList)

/-- The warning as a report for programs holds it. -/
def toJson : Warning → Json.Value
  | .unresolvedAlias name entity fallback =>
    .object [("rule", .string "unresolved_alias_reference"), ("alias", .string name),
      ("entity", .string entity), ("fallback", .string fallback)]
  | .duplicateMember entity kept ignored =>
    .object [("rule", .string "duplicate_bucket_member"), ("entity", .string entity),
      ("kept", .string kept), ("ignored", .string ignored)]
  | .unknownMember bucket entity =>
    .object [("rule", .string "unknown_bucket_member"), ("bucket", .string bucket),
      ("entity", .string entity)]
  | .importCycle modules =>
    .object [("rule", .string "import_cycle"), ("modules", .strings modules)]

end Warning

end SchemaModules
