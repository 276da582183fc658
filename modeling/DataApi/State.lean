/-
The session state machine (`src/state.rs`).
-/
import Mathlib.Data.List.Basic

namespace DataApi

inductive SessionStatus
  | recording
  | uploaded
  | transcribing
  | transcribingFailed
  | transcribed
  | abandoned
  | deleted
  deriving DecidableEq

def SessionStatus.asStr : SessionStatus → String
  | .recording => "recording"
  | .uploaded => "uploaded"
  | .transcribing => "transcribing"
  | .transcribingFailed => "transcribing_failed"
  | .transcribed => "transcribed"
  | .abandoned => "abandoned"
  | .deleted => "deleted"

instance : ToString SessionStatus := ⟨SessionStatus.asStr⟩

structure UnknownStatus where
  status : String

def SessionStatus.fromStr : String → Except UnknownStatus SessionStatus
  | "recording" => .ok .recording
  | "uploaded" => .ok .uploaded
  | "transcribing" => .ok .transcribing
  | "transcribing_failed" => .ok .transcribingFailed
  | "transcribed" => .ok .transcribed
  | "abandoned" => .ok .abandoned
  | "deleted" => .ok .deleted
  | other => .error ⟨other⟩

@[simp] theorem SessionStatus.fromStr_asStr (s : SessionStatus) : fromStr s.asStr = .ok s := by
  cases s <;> rfl

/-- Is the second status a legal transition from the first? -/
def canTransition : SessionStatus → SessionStatus → Bool
  | .recording, .uploaded | .recording, .abandoned | .recording, .deleted => true
  | .uploaded, .transcribing | .uploaded, .abandoned | .uploaded, .deleted => true
  -- The self-transition is the worker-orphan re-claim.
  | .transcribing, .transcribing | .transcribing, .transcribed | .transcribing, .transcribingFailed
  | .transcribing, .deleted => true
  | .transcribingFailed, .transcribing | .transcribingFailed, .deleted => true
  | .transcribed, .deleted => true
  | .abandoned, .deleted => true
  | _, _ => false

/-- `deleted` is reachable from every other status, and terminal. -/
theorem canTransition_deleted (s : SessionStatus) : canTransition s .deleted = true ↔ s ≠ .deleted := by
  cases s <;> decide

theorem canTransition_from_deleted (s : SessionStatus) : canTransition .deleted s = false := by
  cases s <;> rfl

end DataApi
