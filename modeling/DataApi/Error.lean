/-
The application error (`src/error.rs`).
-/
import DataApi.Schema

namespace DataApi

open Relational

inductive AppError
  | notFound (msg : String)
  | badRequest (msg : String)
  | unauthorized (msg : String)
  | forbidden (msg : String)
  | conflict (msg : String)
  | gone (msg : String)
  | payloadTooLarge (msg : String)
  | preconditionFailed (currentEtag : ETag)
  | missingHeader (name : String)
  | invalidPseudoId
  | illegalTransition («from» «to» : String)
  | database (e : DbError Key Uniq)
  | s3 (reason : String) (retryable : Bool)
  | serde (msg : String)
  | internal (msg : String)
  deriving DecidableEq

/-- The status of `into_response`. -/
def AppError.status : AppError → Nat
  | .notFound _ => 404
  | .badRequest _ | .missingHeader _ | .invalidPseudoId | .serde _ => 400
  | .unauthorized _ => 401
  | .forbidden _ => 403
  | .conflict _ | .illegalTransition _ _ => 409
  | .gone _ => 410
  | .payloadTooLarge _ => 413
  | .preconditionFailed _ => 412
  | .database _ | .internal _ => 500
  | .s3 _ _ => 502

/-- `From<PseudoIdError>`. -/
def PseudoIdError.toAppError : PseudoIdError → AppError
  | .invalid => .invalidPseudoId

/-- `From<UnknownStatus>`. -/
def UnknownStatus.toAppError (e : UnknownStatus) : AppError := .badRequest s!"unknown status: {e.status}"

end DataApi
