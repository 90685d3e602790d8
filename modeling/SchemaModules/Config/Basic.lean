/-!
# Configuration

A configuration lists the *buckets* into which entities are sorted, and says how the output is named. A
bucket becomes a module of the same name. Entities that no bucket lists go to the default bucket, which
need not be among those that are listed.
-/

namespace SchemaModules

/-- A module to be and the entities that it is to hold. -/
structure Bucket where
  /-- The name of the module. -/
  name : String
  /-- The names of its entities. -/
  entities : List String := []
  deriving Repr, DecidableEq

/-- The layout and the naming of the output. -/
structure Config where
  /-- The bucket for what no other bucket claims. -/
  defaultBucket : String
  /-- The extension of the output files, perhaps with dots before it. -/
  extension : String
  /-- The name of the index file, without its extension. -/
  indexName : String
  /-- Whether comments move along with the declaration below them. -/
  keepLeadingComments : Bool
  /-- The text at the top of every module file. -/
  header : String
  /-- The buckets, in order. -/
  buckets : List Bucket
  deriving Repr, DecidableEq

namespace Config

/-- The configuration that holds when none is given. -/
def standard : Config where
  defaultBucket := "assets"
  extension := "ts"
  indexName := "index"
  keepLeadingComments := true
  header := "import \x7b int, mysqlEnum, mysqlTable, text, timestamp, varchar, decimal, boolean, " ++
    "json, bigint \x7d from \"drizzle-orm/mysql-core\";"
  buckets := [
    ⟨"users", ["users", "verificationDocuments", "trustScoreHistory", "peerReviews",
      "relationships", "contactHandles", "userFlags", "notifications"]⟩,
    ⟨"matching", ["intents", "matches", "transactionCriteria", "transactionMatches",
      "verificationProofs"]⟩,
    ⟨"deals", ["deals", "dealParticipants", "dealRooms", "dealRoomAccess", "documents",
      "documentSignatures", "ndaTemplates", "escrowAccounts", "payouts", "wireInstructions",
      "spvs", "capTableEntries", "capitalCommitments", "capitalCalls", "capitalCallResponses",
      "lpProfiles"]⟩,
    ⟨"compliance", ["complianceChecks", "auditLog", "auditLogs", "complianceChecklists"]⟩]

/-- The modules, in order: the buckets, and after them the default bucket if it is not one of them. -/
def moduleOrder (c : Config) : List String :=
  let names := c.buckets.map Bucket.name
  if names.contains c.defaultBucket then names else names ++ [c.defaultBucket]

/-- The extension of the output files without the dots before it. -/
def fileExtension (c : Config) : String :=
  String.ofList (c.extension.toList.dropWhile fun d => d = '.')

/-- Every listing of an entity in a bucket, as the bucket's name and the entity's, in reading order. -/
def listings (c : Config) : List (String × String) :=
  c.buckets.flatMap fun b => b.entities.map fun e => (b.name, e)

end Config

end SchemaModules
