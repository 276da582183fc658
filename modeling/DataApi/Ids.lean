/-
Strongly-typed IDs (`src/ids.rs`), instants, and JSON values.
-/
import Mathlib.Algebra.Group.Int.Defs
import Mathlib.Algebra.Group.Nat.Defs
import Mathlib.Data.List.Basic

namespace DataApi

abbrev Uuid := BitVec 128

/-- The hyphenated form. -/
def Uuid.text (u : Uuid) : String :=
  let h := (Nat.toDigits 16 u.toNat).leftpad 32 '0'
  let part := fun i n => (h.drop i).take n
  String.ofList (part 0 8 ++ '-' :: part 8 4 ++ '-' :: part 12 4 ++ '-' :: part 16 4 ++ '-' :: part 20 12)

/-- An instant, in microseconds: what `TIMESTAMPTZ` keeps. -/
abbrev Timestamp := Int

abbrev Bytes := List UInt8

/-- An `f64` by its bits; nothing here computes with one. -/
abbrev F64 := UInt64

inductive Json
  | null
  | bool (b : Bool)
  | int (n : Int)
  | float (x : F64)
  | str (s : String)
  | arr (xs : List Json)
  | obj (fs : List (String × Json))

/-- The sentinel for mixed audio. -/
def MIXED_PSEUDO_ID : String := "mixed"

inductive PseudoIdError
  | invalid

/-- A pseudonym as the code carries it. The constructors below validate;
decoding a database column does not. -/
structure PseudoId where
  raw : String
  deriving DecidableEq

/-- `^[0-9a-f]{24}$`. -/
def isValidPseudoId (s : String) : Bool :=
  s.utf8ByteSize == 24 && s.toList.all fun b => b.isDigit || ('a' ≤ b && b ≤ 'f')

namespace PseudoId

def new (raw : String) : Except PseudoIdError PseudoId :=
  if isValidPseudoId raw then .ok ⟨raw⟩ else .error .invalid

def newOrMixed (raw : String) : Except PseudoIdError PseudoId :=
  if raw = MIXED_PSEUDO_ID || isValidPseudoId raw then .ok ⟨raw⟩ else .error .invalid

/-- Both keep the text they are given. -/
theorem new_raw {raw : String} {pid : PseudoId} (h : new raw = .ok pid) : pid.raw = raw := by
  unfold new at h
  split at h
  · exact congrArg PseudoId.raw (Except.ok.inj h).symm
  · cases h

theorem newOrMixed_raw {raw : String} {pid : PseudoId} (h : newOrMixed raw = .ok pid) : pid.raw = raw := by
  unfold newOrMixed at h
  split at h
  · exact congrArg PseudoId.raw (Except.ok.inj h).symm
  · cases h

instance : ToString PseudoId := ⟨PseudoId.raw⟩

/-- The `Deserialize` instance: a body field reads as the audio paths do. -/
def deserialize (raw : String) : Except PseudoIdError PseudoId := newOrMixed raw

end PseudoId

structure ETag where
  raw : String
  deriving DecidableEq

end DataApi
