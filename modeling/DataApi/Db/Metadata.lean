/-
`db::metadata`: the per-session JSON blob with its ETag.
-/
import DataApi.Server

namespace DataApi

open Relational ReadCommitted Handler

namespace Json

/-- The value at a top-level key. A JSON text that repeats a key means the
last of its values. -/
def get (fs : List (String × Json)) (k : String) : Option Json :=
  fs.foldl (fun v f => if f.1 = k then some f.2 else v) none

/-- `Map::insert`; the order of the keys says nothing. -/
def insert (fs : List (String × Json)) (f : String × Json) : List (String × Json) :=
  fs.filter (fun x => x.1 ≠ f.1) ++ [f]

end Json

namespace Metadata

def byId (sessionId : Uuid) (m : MetadataBlob) : Bool := m.sessionId = sessionId

def freshRow (sessionId : Uuid) (blob : Json) (etag : ETag) (env : Env) : MetadataBlob :=
  { sessionId := sessionId, blob := blob, etag := etag, updatedAt := env.now }

def overwrite (blob : Json) (etag : ETag) (env : Env) (m : MetadataBlob) : MetadataBlob :=
  { m with blob := blob, etag := etag, updatedAt := env.now }

/-- `INSERT … ON CONFLICT (session_id) DO UPDATE`. -/
def upsertSql (sessionId : Uuid) (blob : Json) (etag : ETag) : Sql := .insert fun env _ =>
  .ok [(.metadata (freshRow sessionId blob etag env),
    .doUpdate (fun | .pk _ => true | _ => false) (metadataT.setter (overwrite blob etag env)))]

def replace (sessionId : Uuid) (blob : Json) : Handler MetadataBlob := do
  let etag ← newEtag
  fetchOne .pool metadataT (upsertSql sessionId blob etag)

def mergeShallow (base patch : Json) : Except AppError Json := do
  let baseObj ← match base with
    | .obj fs => pure fs
    | .null => pure []
    | _ => throw (.badRequest "existing metadata blob is not an object — cannot shallow-merge")
  match patch with
  | .obj fs => return .obj (fs.foldl Json.insert baseObj)
  | _ => throw (.badRequest "patch body must be a JSON object")

def lockSql (sessionId : Uuid) : Sql := metadataT.forUpdate (byId sessionId)

/-- The blob to merge into and its ETag; a missing row counts as `{}` under
an ETag of its own. -/
def current : Option MetadataBlob → Handler (Json × ETag)
  | some r => return (r.blob, r.etag)
  | none => return (.obj [], ← newEtag)

def shallowMerge (sessionId : Uuid) (expected : Option ETag) (patch : Json) : Handler MetadataBlob := do
  begin
  let existing ← fetchOptional .tx metadataT (lockSql sessionId)
  let (base, currentEtag) ← current existing
  refuseIf (expected.any (· ≠ currentEtag)) (.preconditionFailed currentEtag)
  let merged ← ofResult (mergeShallow base patch)
  let etag ← newEtag
  let row ← fetchOne .tx metadataT (upsertSql sessionId merged etag)
  commit
  return row

/-- The DELETE of `delete_cascade`. -/
def deleteSql (sessionId : Uuid) : Sql := metadataT.delete (byId sessionId)

end Metadata
end DataApi
