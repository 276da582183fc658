/-
Request bodies: what the `Deserialize` instances read from JSON, and the
requests that come of it. What the extractor refuses is answered before the
handler runs.
-/
import DataApi.Serial

namespace DataApi

open Relational ReadCommitted Resumption Handler

/-- What the `Json` extractor refuses: data that does not read as the type, and
text that goes on after it. -/
inductive JsonRejection
  | dataError (message : String)
  | syntaxError (message : String)

/-- 422 Unprocessable Entity and 400 Bad Request. -/
def JsonRejection.status : JsonRejection → Nat
  | .dataError _ => 422
  | .syntaxError _ => 400

/-! ## Values -/

abbrev Reader (α : Type) : Type := Json → Except JsonRejection α

namespace Reader

variable {α : Type}

/-- `Option<T>`: null is `None`. -/
def opt (read : Reader α) : Reader (Option α)
  | .null => .ok none
  | v => some <$> read v

/-- `Vec<T>`. -/
def vec (read : Reader α) : Reader (List α)
  | .arr xs => xs.mapM read
  | _ => .error (.dataError "expected a sequence")

def string : Reader String
  | .str s => .ok s
  | _ => .error (.dataError "expected a string")

def flag : Reader Bool
  | .bool b => .ok b
  | _ => .error (.dataError "expected a boolean")

/-- A signed integer of `bits` bits. -/
def int (bits : Nat) : Reader Int
  | .int n => if -2 ^ (bits - 1) ≤ n ∧ n < 2 ^ (bits - 1) then .ok n else .error (.dataError "integer out of range")
  | _ => .error (.dataError "expected an integer")

/-- `serde_json::Value`. -/
def value : Reader Json := .ok

def pseudoId : Reader PseudoId := fun v => do
  ((PseudoId.deserialize (← string v)).mapError fun _ => .dataError "invalid pseudo_id format: expected 24 hex chars")

/-- The derived instance of a unit variant: its name, or an object of it. -/
def status : Reader SessionStatus
  | .str s | .obj [(s, .null)] => (SessionStatus.fromStr s).mapError fun _ => .dataError "unknown variant"
  | _ => .error (.dataError "expected a variant")

/-- `deserialize_optional_optional`. -/
def optionalOptional (read : Reader α) : Reader (Option (Option α)) := fun v => some <$> opt read v

end Reader

/-- The readers that are other libraries': instants, UUIDs, and how a number
becomes an `f64`. -/
structure Readers where
  time : Reader Timestamp
  uuid : Reader Uuid
  f64 : Reader F64

/-- One more character of a hyphenated UUID. -/
def Sample.hexStep (n : Nat) (c : Char) : Nat :=
  if c = '-' then n else 16 * n + (if c.isDigit then c.toNat - '0'.toNat else c.toNat - 'a'.toNat + 10)

/-- For samples: instants as numbers, floats as bits, and UUIDs in the
hyphenated form. -/
def Sample.readers : Readers where
  time | .int t => .ok t | _ => .error (.dataError "expected an instant")
  uuid
    | .str s =>
      let u : Uuid := .ofNat 128 (s.toList.foldl hexStep 0)
      if Uuid.text u = s then .ok u else .error (.dataError "UUID parsing failed")
    | _ => .error (.dataError "expected a UUID")
  f64 | .float x => .ok x | _ => .error (.dataError "expected a number")

/-! ## Structs -/

abbrev Fields := List (String × Json)

namespace Fields

variable {α : Type}

/-- A field with a default; a key given twice is refused. -/
def getD (fs : Fields) (key : String) (read : Reader α) (d : α) : Except JsonRejection α :=
  match fs.filter fun f => f.1 = key with
  | [] => .ok d
  | [f] => read f.2
  | _ => .error (.dataError s!"duplicate field {key}")

/-- A field that must be given. -/
def get (fs : Fields) (key : String) (read : Reader α) : Except JsonRejection α :=
  match fs.filter fun f => f.1 = key with
  | [] => .error (.dataError s!"missing field {key}")
  | [f] => read f.2
  | _ => .error (.dataError s!"duplicate field {key}")

/-- The fields of a struct in order, and which have `#[serde(default)]`. -/
abbrev Shape := List (String × Bool)

/-- The elements of an array, as fields. -/
def ofSeq (shape : Shape) (xs : List Json) : Fields := (shape.map Prod.fst).zip xs

/-- A struct: a map of its fields, or a sequence of them in order, where those
with a default may be left out at the end. -/
def reader (shape : Shape) (read : Fields → Except JsonRejection α) : Reader α
  | .obj fs => read fs
  | .arr xs => do
    let a ← read (ofSeq shape xs)
    if (shape.drop xs.length).any fun f => !f.2 then .error (.dataError "invalid length")
    else if shape.length < xs.length then .error (.syntaxError "trailing characters")
    else .ok a
  | _ => .error (.dataError "expected a map")

end Fields

open Reader

/-! ## Bodies

Each has its fields as the source lists them, what a map of them reads as, and
its instance. -/

def SessionRoutes.PatchSession.shape : Fields.Shape :=
  [("status", false), ("ended_at", true), ("participant_count", true)]

def SessionRoutes.PatchSession.deserialize (rd : Readers) (fs : Fields) : Except JsonRejection SessionRoutes.PatchSession := do
  return {
    status := ← fs.getD "status" (opt Reader.status) none
    endedAt := ← fs.getD "ended_at" (optionalOptional rd.time) none
    participantCount := ← fs.getD "participant_count" (optionalOptional (int 32)) none }

def SessionRoutes.PatchSession.reader (rd : Readers) : Reader SessionRoutes.PatchSession :=
  Fields.reader shape (deserialize rd)

def Uniform.PatchInput.shape : Fields.Shape :=
  ["text", "title", "summary", "confidence", "start_ms", "end_ms", "flags", "author_user_pseudo_id"].map (·, true)

/-- Every field has the plain `Option` instance; so has each of the two in
`confidence`. -/
def Uniform.PatchInput.deserialize (rd : Readers) (fs : Fields) : Except JsonRejection Uniform.PatchInput := do
  return {
    text := ← fs.getD "text" (opt string) none
    title := ← fs.getD "title" (opt string) none
    summary := ← fs.getD "summary" (opt string) none
    confidence := ← fs.getD "confidence" (opt (opt rd.f64)) none
    startMs := ← fs.getD "start_ms" (opt (int 64)) none
    endMs := ← fs.getD "end_ms" (opt (int 64)) none
    flags := ← fs.getD "flags" (opt value) none
    authorUserPseudoId := ← fs.getD "author_user_pseudo_id" (opt Reader.pseudoId) none }

def Uniform.PatchInput.reader (rd : Readers) : Reader Uniform.PatchInput := Fields.reader shape (deserialize rd)

def Uniform.CreateInput.shape : Fields.Shape :=
  ["client_id", "start_ms", "end_ms"].map (·, false) ++
    ["pseudo_id", "text", "title", "summary", "confidence", "flags", "original", "author_user_pseudo_id"].map (·, true)

def Uniform.CreateInput.deserialize (rd : Readers) (fs : Fields) : Except JsonRejection Uniform.CreateInput := do
  return {
    clientId := ← fs.get "client_id" string
    startMs := ← fs.get "start_ms" (int 64)
    endMs := ← fs.get "end_ms" (int 64)
    pseudoId := ← fs.getD "pseudo_id" (opt Reader.pseudoId) none
    text := ← fs.getD "text" (opt string) none
    title := ← fs.getD "title" (opt string) none
    summary := ← fs.getD "summary" (opt string) none
    confidence := ← fs.getD "confidence" (opt rd.f64) none
    flags := ← fs.getD "flags" (opt value) none
    original := ← fs.getD "original" (opt value) none
    authorUserPseudoId := ← fs.getD "author_user_pseudo_id" (opt Reader.pseudoId) none }

def Uniform.CreateInput.reader (rd : Readers) : Reader Uniform.CreateInput := Fields.reader shape (deserialize rd)

def UniformRoutes.BulkRequest.shape : Fields.Shape := ["segments", "beats", "scenes"].map (·, false)

def UniformRoutes.BulkRequest.deserialize (rd : Readers) (fs : Fields) : Except JsonRejection UniformRoutes.BulkRequest := do
  let rows := opt (vec (Uniform.CreateInput.reader rd))
  return {
    segments := ← fs.getD "segments" rows none
    beats := ← fs.getD "beats" rows none
    scenes := ← fs.getD "scenes" rows none }

def UniformRoutes.BulkRequest.reader (rd : Readers) : Reader UniformRoutes.BulkRequest := Fields.reader shape (deserialize rd)

/-- A row in order, without its last fields. -/
example : UniformRoutes.BulkRequest.reader Sample.readers
    (.obj [("segments", .arr [.arr [.str "c2", .int 0, .int 1, .str Sample.speaker, .str "hi"]])]) =
    .ok { segments := some [{ clientId := "c2", startMs := 0, endMs := 1, pseudoId := some ⟨Sample.speaker⟩, text := some "hi" }] } :=
  rfl

def Participants.AddParticipant.shape : Fields.Shape := [("pseudo_id", false), ("mid_session_join", true)]

def Participants.AddParticipant.deserialize (fs : Fields) : Except JsonRejection Participants.AddParticipant := do
  return {
    pseudoId := ← fs.get "pseudo_id" Reader.pseudoId
    midSessionJoin := ← fs.getD "mid_session_join" flag false }

def Participants.AddParticipant.reader : Reader Participants.AddParticipant := Fields.reader shape deserialize

def ParticipantRoutes.batchShape : Fields.Shape := [("participants", false)]

/-- `Batch`. -/
def ParticipantRoutes.deserializeBatch (fs : Fields) : Except JsonRejection (List Participants.AddParticipant) :=
  fs.get "participants" (vec Participants.AddParticipant.reader)

def ParticipantRoutes.readBatch : Reader (List Participants.AddParticipant) := Fields.reader batchShape deserializeBatch

def Users.upsertShape : Fields.Shape := [("pseudo_id", false)]

/-- `UpsertUser`. -/
def Users.deserializeUpsert (fs : Fields) : Except JsonRejection PseudoId := fs.get "pseudo_id" Reader.pseudoId

def Users.readUpsert : Reader PseudoId := Fields.reader upsertShape deserializeUpsert

def ConsentRoutes.CreateTokenRequest.shape : Fields.Shape :=
  ["session_id", "participant_id", "pseudo_id"].map (·, false)

def ConsentRoutes.CreateTokenRequest.deserialize (rd : Readers) (fs : Fields) :
    Except JsonRejection ConsentRoutes.CreateTokenRequest := do
  return {
    sessionId := ← fs.get "session_id" rd.uuid
    participantId := ← fs.get "participant_id" rd.uuid
    pseudoId := ← fs.get "pseudo_id" Reader.pseudoId }

def ConsentRoutes.CreateTokenRequest.reader (rd : Readers) : Reader ConsentRoutes.CreateTokenRequest :=
  Fields.reader shape (deserialize rd)

def UserRoutes.GrantRequest.shape : Fields.Shape :=
  [("shared_secret", false), ("pseudo_id", false), ("is_admin", true)]

def UserRoutes.GrantRequest.deserialize (fs : Fields) : Except JsonRejection UserRoutes.GrantRequest := do
  return {
    sharedSecret := ← fs.get "shared_secret" string
    pseudoId := ← fs.get "pseudo_id" Reader.pseudoId
    isAdmin := ← fs.getD "is_admin" flag true }

def UserRoutes.GrantRequest.reader : Reader UserRoutes.GrantRequest := Fields.reader shape deserialize

/-! ## Requests -/

/-- Requests with a body, before it is read. -/
inductive BodyRequest
  | patchSession (svc : String) (id : Uuid) (body : Json)
  | upsertUser (svc : String) (body : Json)
  | addOne (svc : String) (sessionId : Uuid) (body : Json)
  | addBatch (svc : String) (sessionId : Uuid) (body : Json)
  | createToken (svc : String) (body : Json)
  | grant (body : Json)
  | bulkCreate (rt : ResourceTable) (svc : String) (sessionId : Uuid) (body : Json)
  | patchRow (rt : ResourceTable) (svc : String) (id : Uuid) (headers : HeaderMap) (body : Json)

def BodyRequest.deserialize (rd : Readers) : BodyRequest → Except JsonRejection Request
  | .patchSession svc id body => .patchSession svc id <$> SessionRoutes.PatchSession.reader rd body
  | .upsertUser svc body => .upsertUser svc <$> Users.readUpsert body
  | .addOne svc sid body => .addOne svc sid <$> Participants.AddParticipant.reader body
  | .addBatch svc sid body => .addBatch svc sid <$> ParticipantRoutes.readBatch body
  | .createToken svc body => .createToken svc <$> ConsentRoutes.CreateTokenRequest.reader rd body
  | .grant body => .grant <$> UserRoutes.GrantRequest.reader body
  | .bulkCreate rt svc sid body => .bulkCreate rt svc sid <$> UniformRoutes.BulkRequest.reader rd body
  | .patchRow rt svc id headers body => .patchRow rt svc id headers <$> Uniform.PatchInput.reader rd body

end DataApi
