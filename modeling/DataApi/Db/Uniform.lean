/-
`db::uniform` and `db::mute_ranges`: segments, beats and scenes through one
set of functions, and the mute ranges.
-/
import DataApi.Server
import Mathlib.Data.List.Sort

namespace DataApi

open Relational ReadCommitted Handler

namespace Uniform

/-- Outward-facing row. -/
structure UniformRow where
  id : Uuid
  sessionId : Uuid
  clientId : String
  pseudoId : Option PseudoId
  startMs : Int
  endMs : Int
  text : Option String
  title : Option String
  summary : Option String
  confidence : Option F64
  flags : Json
  original : Option Json
  etag : ETag
  authorService : String
  authorUserPseudoId : Option PseudoId
  createdAt : Timestamp
  updatedAt : Timestamp

structure CreateInput where
  clientId : String
  startMs : Int
  endMs : Int
  pseudoId : Option PseudoId := none
  text : Option String := none
  title : Option String := none
  summary : Option String := none
  confidence : Option F64 := none
  flags : Option Json := none
  original : Option Json := none
  authorUserPseudoId : Option PseudoId := none

structure BulkResult where
  inserted : List UniformRow
  deduplicatedClientIds : List String

structure PatchInput where
  text : Option String := none
  title : Option String := none
  summary : Option String := none
  confidence : Option (Option F64) := none
  startMs : Option Int := none
  endMs : Option Int := none
  flags : Option Json := none
  authorUserPseudoId : Option PseudoId := none

def validateInput (rt : ResourceTable) (i : CreateInput) : Except AppError Unit := do
  match rt.shape with
  | .segment =>
    if i.text.isNone then throw (.badRequest s!"segments require `text` (client_id={i.clientId})")
  | .titleSummary =>
    if i.title.isNone then
      throw (.badRequest s!"{rt.resourceType} rows require `title` (client_id={i.clientId})")
  if i.endMs < i.startMs then throw (.badRequest s!"end_ms < start_ms (client_id={i.clientId})")

def validateInputs (rt : ResourceTable) (inputs : List CreateInput) : Except AppError Unit :=
  inputs.forM (validateInput rt)

/-- An optional pseudonym column. -/
def parsePseudo : Option String → Except AppError (Option PseudoId)
  | none => .ok none
  | some s => match PseudoId.new s with
    | .ok p => .ok (some p)
    | .error e => .error e.toAppError

/-- A raw row as a `UniformRow`. -/
def rowFromPg (r : UniformPgRow) : Except AppError UniformRow := do
  let pseudoId ← parsePseudo (match r.columns with | .segment p _ _ => p | .titleSummary _ _ => none)
  let author ← parsePseudo r.authorUserPseudoId
  return {
    id := r.id, sessionId := r.sessionId, clientId := r.clientId, pseudoId := pseudoId
    startMs := r.startMs, endMs := r.endMs
    text := match r.columns with | .segment _ t _ => some t | .titleSummary _ _ => none
    title := match r.columns with | .segment _ _ _ => none | .titleSummary t _ => some t
    summary := match r.columns with | .segment _ _ _ => none | .titleSummary _ s => some s
    confidence := match r.columns with | .segment _ _ c => c | .titleSummary _ _ => none
    flags := r.flags, original := r.original, etag := ⟨r.etag⟩, authorService := r.authorService
    authorUserPseudoId := author, createdAt := r.createdAt, updatedAt := r.updatedAt }

def existingSql (rt : ResourceTable) (sessionId : Uuid) (submitted : List String) : Sql :=
  (uniformT rt).select fun r => r.sessionId = sessionId && submitted.contains r.clientId

def freshColumns (rt : ResourceTable) (inp : CreateInput) : TextColumns :=
  match rt.shape with
  | .segment => .segment (inp.pseudoId.map (·.raw)) (inp.text.getD "") inp.confidence
  | .titleSummary => .titleSummary (inp.title.getD "") (inp.summary.getD "")

def freshRow (rt : ResourceTable) (sessionId : Uuid) (authorService : String) (inp : CreateInput)
    (etag : ETag) (env : Env) : UniformPgRow :=
  { id := env.uuid 0, sessionId := sessionId, clientId := inp.clientId, startMs := inp.startMs
    endMs := inp.endMs, columns := freshColumns rt inp, flags := inp.flags.getD (.obj [])
    original := inp.original, etag := etag.raw, authorService := authorService
    authorUserPseudoId := inp.authorUserPseudoId.map (·.raw), createdAt := env.now, updatedAt := env.now }

def insertRowSql (rt : ResourceTable) (sessionId : Uuid) (authorService : String) (inp : CreateInput)
    (etag : ETag) : Sql :=
  (uniformT rt).insert fun env _ => .ok (freshRow rt sessionId authorService inp etag env)

def insertRowInTx (rt : ResourceTable) (sessionId : Uuid) (authorService : String) (inp : CreateInput)
    (etag : ETag) : Handler UniformRow := do
  ofResult (rowFromPg (← fetchOne .tx (uniformT rt) (insertRowSql rt sessionId authorService inp etag)))

/-- The loop over the rows to insert: a fresh ETag for each. -/
def insertRows (rt : ResourceTable) (sessionId : Uuid) (authorService : String) :
    List CreateInput → Handler (List UniformRow)
  | [] => return []
  | inp :: rest => do
    let etag ← newEtag
    let row ← insertRowInTx rt sessionId authorService inp etag
    return row :: (← insertRows rt sessionId authorService rest)

def bulkInsert (rt : ResourceTable) (sessionId : Uuid) (authorService : String)
    (inputs : List CreateInput) : Handler BulkResult :=
  if inputs.isEmpty then pure { inserted := [], deduplicatedClientIds := [] }
  else do
    ofResult (validateInputs rt inputs)
    begin
    let submitted := inputs.map (·.clientId)
    let existingRows ← fetchAll .tx (uniformT rt) (existingSql rt sessionId submitted)
    let existing := existingRows.map (·.clientId)
    let toInsert := inputs.filter fun i => !existing.contains i.clientId
    let inserted ← insertRows rt sessionId authorService toInsert
    commit
    return { inserted := inserted, deduplicatedClientIds := existing }

def byId (id : Uuid) (r : UniformPgRow) : Bool := r.id = id

def notFound (rt : ResourceTable) (id : Uuid) : AppError := .notFound s!"{rt.resourceType} {id.text} not found"

/-- `fetch_optional` and `ok_or_else`. -/
def found (via : Via) (rt : ResourceTable) (id : Uuid) (s : Sql) : Handler UniformPgRow := do
  match ← fetchOptional via (uniformT rt) s with
  | some r => return r
  | none => throw (notFound rt id)

def applyPatch (rt : ResourceTable) (p : PatchInput) (existing : UniformRow) : UniformRow :=
  let out := { existing with
    startMs := p.startMs.getD existing.startMs
    endMs := p.endMs.getD existing.endMs
    flags := p.flags.getD existing.flags }
  match rt.shape with
  | .segment => { out with text := p.text.or existing.text, confidence := p.confidence.getD existing.confidence }
  | .titleSummary => { out with title := p.title.or existing.title, summary := p.summary.or existing.summary }

/-- The SET clause of `patch`. -/
def setPatched (patched : UniformRow) (author : Option PseudoId) (etag : ETag) (env : Env) (r : UniformPgRow) :
    UniformPgRow :=
  { r with
    startMs := patched.startMs
    endMs := patched.endMs
    columns := match r.columns with
      | .segment p _ _ => .segment p (patched.text.getD "") patched.confidence
      | .titleSummary _ _ => .titleSummary (patched.title.getD "") (patched.summary.getD "")
    flags := patched.flags
    etag := etag.raw
    authorUserPseudoId := (author.map (·.raw)).or r.authorUserPseudoId
    updatedAt := env.now }

def lockSql (rt : ResourceTable) (id : Uuid) : Sql := (uniformT rt).forUpdate (byId id)

def updateSql (rt : ResourceTable) (id : Uuid) (patched : UniformRow) (author : Option PseudoId)
    (etag : ETag) : Sql :=
  (uniformT rt).update (byId id) (setPatched patched author etag)

def patch (rt : ResourceTable) (id : Uuid) (expectedEtag : Option ETag) (patch : PatchInput) :
    Handler UniformRow := do
  begin
  let existing ← found .tx rt id (lockSql rt id)
  let existingRow ← ofResult (rowFromPg existing)
  refuseIf (expectedEtag.any (· ≠ existingRow.etag)) (.preconditionFailed existingRow.etag)
  let etag ← newEtag
  let patched := applyPatch rt patch existingRow
  let pgRow ← fetchOne .tx (uniformT rt) (updateSql rt id patched patch.authorUserPseudoId etag)
  let out ← ofResult (rowFromPg pgRow)
  commit
  return out

/-- The `pseudo_id` column; beats and scenes have none. -/
def pseudoColumn : TextColumns → Option String
  | .segment p _ _ => p
  | .titleSummary _ _ => none

/-- The columns of a table, as the migration names them. -/
def columns (rt : ResourceTable) : List String :=
  ["id", "session_id", "client_id", "start_ms", "end_ms", "flags", "original", "etag", "author_service",
    "author_user_pseudo_id", "created_at", "updated_at"] ++
  match rt.shape with
  | .segment => ["pseudo_id", "text", "confidence"]
  | .titleSummary => ["title", "summary"]

/-- A statement that names columns: the server refuses one the table lacks,
before it looks at any row. -/
def naming (rt : ResourceTable) (named : List String) (s : Sql) : Except (DbError Key Uniq) Sql :=
  if named.all (columns rt).contains then .ok s else .error .failure

/-- One template for the three tables; an absent filter is a NULL test. -/
def listSql (rt : ResourceTable) (sessionId : Uuid) (pseudoId : Option PseudoId) (sinceMs : Option Int) :
    Except (DbError Key Uniq) Sql :=
  naming rt ["session_id", "pseudo_id", "start_ms", "id"] <| (uniformT rt).select fun r =>
    r.sessionId = sessionId && pseudoId.all (fun p => pseudoColumn r.columns = some p.raw) &&
      sinceMs.all fun t => t ≤ r.startMs

/-- `ORDER BY start_ms ASC, id ASC`. -/
def InOrder (r r' : UniformPgRow) : Prop := r.startMs < r'.startMs ∨ r.startMs = r'.startMs ∧ r.id ≤ r'.id

instance : DecidableRel InOrder := fun _ _ => inferInstanceAs (Decidable (_ ∨ _))

def listBySession (rt : ResourceTable) (sessionId : Uuid) (pseudoId : Option PseudoId) (sinceMs : Option Int) :
    Handler (List UniformRow) := do
  let sql ← ofDb (listSql rt sessionId pseudoId sinceMs)
  let rows ← fetchAll .pool (uniformT rt) sql
  ofResult ((rows.insertionSort InOrder).mapM rowFromPg)

def deleteSql (rt : ResourceTable) (id : Uuid) : Sql := (uniformT rt).delete (byId id)

def delete (rt : ResourceTable) (id : Uuid) : Handler UniformRow := do
  ofResult (rowFromPg (← found .pool rt id (deleteSql rt id)))

def deleteAllForSessionSql (rt : ResourceTable) (sessionId : Uuid) : Sql :=
  (uniformT rt).delete fun r => r.sessionId = sessionId

def deleteAllForSession (rt : ResourceTable) (sessionId : Uuid) : Handler Nat :=
  execute .tx (deleteAllForSessionSql rt sessionId)

def deleteForParticipantSegmentsSql (sessionId : Uuid) (pseudoId : PseudoId) : Sql :=
  (uniformT .segments).delete fun r =>
    r.sessionId = sessionId && pseudoColumn r.columns = some pseudoId.raw

def deleteForParticipantSegments (sessionId : Uuid) (pseudoId : PseudoId) : Handler Nat :=
  execute .tx (deleteForParticipantSegmentsSql sessionId pseudoId)

end Uniform

/-! ## `db::mute_ranges` -/

namespace MuteRanges

structure CreateMuteRange where
  startOffsetMs : Int
  endOffsetMs : Int
  reason : Option String

def freshRow (sessionId : Uuid) (pseudoId : PseudoId) (input : CreateMuteRange) (env : Env) : MuteRange :=
  { id := env.uuid 0, sessionId := sessionId, pseudoId := pseudoId, startOffsetMs := input.startOffsetMs
    endOffsetMs := input.endOffsetMs, reason := input.reason, createdAt := env.now }

def createSql (sessionId : Uuid) (pseudoId : PseudoId) (input : CreateMuteRange) : Sql :=
  mutesT.insert fun env _ => .ok (freshRow sessionId pseudoId input env)

def create (sessionId : Uuid) (pseudoId : PseudoId) (input : CreateMuteRange) : Handler MuteRange := do
  refuseIf (input.endOffsetMs < input.startOffsetMs) (.badRequest "end_offset_ms < start_offset_ms")
  fetchOne .pool mutesT (createSql sessionId pseudoId input)

def listSql (sessionId : Uuid) (pseudoId : PseudoId) : Sql :=
  mutesT.select fun m => m.sessionId = sessionId && m.pseudoId = pseudoId

/-- `ORDER BY start_offset_ms ASC`, as the server reads it. -/
def list (order : List MuteRange → List MuteRange) (sessionId : Uuid) (pseudoId : PseudoId) : Handler (List MuteRange) := do
  return order (← fetchAll .pool mutesT (listSql sessionId pseudoId))

def deleteOneSql (sessionId : Uuid) (pseudoId : PseudoId) (rangeId : Uuid) : Sql :=
  mutesT.delete fun m => m.id = rangeId && m.sessionId = sessionId && m.pseudoId = pseudoId

def deleteOne (sessionId : Uuid) (pseudoId : PseudoId) (rangeId : Uuid) : Handler MuteRange := do
  match ← fetchOptional .pool mutesT (deleteOneSql sessionId pseudoId rangeId) with
  | some m => return m
  | none => throw (.notFound s!"mute range {rangeId.text} not found")

def deleteForSessionSql (sessionId : Uuid) : Sql := mutesT.delete fun m => m.sessionId = sessionId

def deleteForSession (sessionId : Uuid) : Handler Nat := execute .tx (deleteForSessionSql sessionId)

def deleteForParticipantSql (sessionId : Uuid) (pseudoId : PseudoId) : Sql :=
  mutesT.delete fun m => m.sessionId = sessionId && m.pseudoId = pseudoId

def deleteForParticipant (sessionId : Uuid) (pseudoId : PseudoId) : Handler Nat :=
  execute .tx (deleteForParticipantSql sessionId pseudoId)

end MuteRanges
end DataApi
