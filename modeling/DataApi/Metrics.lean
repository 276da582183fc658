/-
The metrics registry (`src/metrics.rs`): counters, gauges, and histograms
with fixed buckets.
-/
import DataApi.Ids
import Mathlib.Data.List.Sort

namespace DataApi

/-! ## Comparing floats -/

namespace F64

def isNaN (x : F64) : Bool := 0x7FF0000000000000 < x.toNat % 2 ^ 63

/-- The order of the numbers is that of their bits, after the sign. -/
def rank (x : F64) : Int := if x.toNat < 2 ^ 63 then (x.toNat : Int) else -(x.toNat % 2 ^ 63 : Nat)

/-- `a <= b`. -/
def le (a b : F64) : Bool := !a.isNaN && !b.isNaN && a.rank ≤ b.rank

theorem le_trans {a b c : F64} (hab : le a b = true) (hbc : le b c = true) : le a c = true := by
  simp only [le, Bool.and_eq_true, Bool.not_eq_true', decide_eq_true_eq] at *
  exact ⟨⟨hab.1.1, hbc.1.2⟩, by omega⟩

end F64

/-- Float arithmetic that only the sum line shows: nanoseconds from seconds,
and their text as seconds. -/
structure FloatOps where
  nanos : F64 → Nat
  secondsText : Nat → String

/-! ## Histograms -/

/-- A bound, and how it prints. -/
structure Upper where
  value : F64
  text : String
  deriving DecidableEq

structure Histogram where
  bucketsUpper : List Upper
  bucketsCount : List Nat
  sumNanos : Nat
  count : Nat

namespace Histogram

def DEFAULT_UPPERS : List Upper :=
  [⟨0x3F747AE147AE147B, "0.005"⟩, ⟨0x3F847AE147AE147B, "0.01"⟩, ⟨0x3F9999999999999A, "0.025"⟩,
   ⟨0x3FA999999999999A, "0.05"⟩, ⟨0x3FB999999999999A, "0.1"⟩, ⟨0x3FD0000000000000, "0.25"⟩,
   ⟨0x3FE0000000000000, "0.5"⟩, ⟨0x3FF0000000000000, "1"⟩, ⟨0x4004000000000000, "2.5"⟩,
   ⟨0x4014000000000000, "5"⟩, ⟨0x4024000000000000, "10"⟩]

def new (uppers : List Upper) : Histogram :=
  { bucketsUpper := uppers, bucketsCount := uppers.map fun _ => 0, sumNanos := 0, count := 0 }

/-- The counters are `u64`. -/
def observe (ops : FloatOps) (h : Histogram) (seconds : F64) : Histogram :=
  { h with
    sumNanos := (h.sumNanos + ops.nanos seconds) % 2 ^ 64
    count := (h.count + 1) % 2 ^ 64
    bucketsCount := List.zipWith
      (fun u c => if seconds.le u.value then (c + 1) % 2 ^ 64 else c) h.bucketsUpper h.bucketsCount }

/-- The loop of `render`: `cumulative` after each bucket. -/
def cumulate : Nat → List Nat → List Nat
  | _, [] => []
  | cumulative, c :: cs => (cumulative + c) % 2 ^ 64 :: cumulate ((cumulative + c) % 2 ^ 64) cs

end Histogram

/-! ## The registry -/

/-- A line of the exposition format. -/
inductive Sample
  | type (name kind : String)
  | value (name : String) (v : Int)
  | bucket (name le : String) (v : Nat)
  | sum (name seconds : String)
  | count (name : String) (v : Nat)
  deriving DecidableEq

def Sample.text : Sample → String
  | .type name kind => s!"# TYPE {name} {kind}\n"
  | .value name v => s!"{name} {v}\n"
  | .bucket name le v => name ++ "_bucket\x7ble=\"" ++ le ++ "\"\x7d " ++ toString v ++ "\n"
  | .sum name seconds => s!"{name}_sum {seconds}\n"
  | .count name v => s!"{name}_count {v}\n"

/-- Each map is in the order of its names. -/
structure Metrics where
  counters : List (String × Nat) := []
  gauges : List (String × Int) := []
  histograms : List (String × Histogram) := []

namespace Metrics

/-- The entry is changed, or made and changed. -/
def update {α : Type} (name : String) (fresh : α) (f : α → α) (m : List (String × α)) : List (String × α) :=
  if m.any fun e => e.1 = name then m.map fun e => if e.1 = name then (e.1, f e.2) else e
  else m.orderedInsert (fun a b => a.1 ≤ b.1) (name, f fresh)

def incCounter (m : Metrics) (name : String) («by» : Nat) : Metrics :=
  { m with counters := update name 0 (fun c => (c + «by») % 2 ^ 64) m.counters }

def setGauge (m : Metrics) (name : String) (v : Int) : Metrics :=
  { m with gauges := update name 0 (fun _ => v) m.gauges }

def observeHistogram (ops : FloatOps) (m : Metrics) (name : String) (seconds : F64) : Metrics :=
  { m with histograms := update name (.new Histogram.DEFAULT_UPPERS) (·.observe ops seconds) m.histograms }

/-- What a gauge reads; one never set reads 0. -/
def gauge (m : Metrics) (name : String) : Int := (m.gauges.lookup name).getD 0

/-- The lines of one histogram, in their order. -/
def histogramLines (ops : FloatOps) (name : String) (h : Histogram) : List Sample :=
  .type name "histogram" ::
    ((h.bucketsUpper.zip (Histogram.cumulate 0 h.bucketsCount)).map (fun p => .bucket name p.1.text p.2) ++
      [.bucket name "+Inf" h.count, .sum name (ops.secondsText h.sumNanos), .count name h.count])

def lines (ops : FloatOps) (m : Metrics) : List Sample :=
  (m.counters.flatMap fun e => [.type e.1 "counter", .value e.1 e.2]) ++
  (m.gauges.flatMap fun e => [.type e.1 "gauge", .value e.1 e.2]) ++
  m.histograms.flatMap fun e => histogramLines ops e.1 e.2

def render (ops : FloatOps) (m : Metrics) : String := String.join ((m.lines ops).map Sample.text)

end Metrics
end DataApi
