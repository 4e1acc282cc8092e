import CoherentMemory.Decimal.Fixed
import CoherentMemory.Overflow

/-!
# Profiles

A profile counts, for each sequencer, its requests, its misses and the cycles
that its misses took. The counters are 64-bit words and wrap around. Totals over
all sequencers do not: a total that leaves 64 bits is an overflow. `report` is
the summary that is printed after a run.
-/

namespace CoherentMemory

/-- The counters of a sequencer. -/
structure Counters where
  requests : UInt64 := 0
  misses : UInt64 := 0
  missLatency : UInt64 := 0
deriving DecidableEq, Repr

/-- The counters of all sequencers. -/
structure Profile where
  sequencers : Array Counters
deriving DecidableEq, Repr

/-- What a sequencer records. -/
inductive Sample where
  | request (sequencer : Nat)
  | miss (sequencer : Nat) (latency : UInt64)
deriving DecidableEq, Repr

namespace Profile

/-- Counters at zero for a number of sequencers. -/
def start (sequencers : Nat) : Profile :=
  ⟨Array.replicate sequencers {}⟩

/-- Counts a sample. Samples of sequencers that do not exist are ignored. -/
def record (p : Profile) : Sample → Profile
  | .request i => ⟨p.sequencers.modify i fun c => { c with requests := c.requests + 1 }⟩
  | .miss i latency =>
    ⟨p.sequencers.modify i fun c =>
      { c with misses := c.misses + 1, missLatency := c.missLatency + latency }⟩

/-- The counters of a sequencer. -/
def counters? (p : Profile) (i : Nat) : Option Counters :=
  p.sequencers[i]?

/-- The sum of two words, if it fits. -/
def addWords (a b : UInt64) : Except Overflow UInt64 :=
  (checkedAdd a.toNat b.toNat).map UInt64.ofNat

/-- The sums of two sequencers' counters. -/
def addCounters (a b : Counters) : Except Overflow Counters := do
  let requests ← addWords a.requests b.requests
  let misses ← addWords a.misses b.misses
  let missLatency ← addWords a.missLatency b.missLatency
  return ⟨requests, misses, missLatency⟩

/-- The counters summed over all sequencers. -/
def totals (p : Profile) : Except Overflow Counters :=
  p.sequencers.toList.foldlM addCounters {}

/-! ## The report -/

/-- The average latency of a miss. -/
def averageLatency (c : Counters) : Float :=
  if c.misses = 0 then 0.0 else c.missLatency.toFloat / c.misses.toFloat

/-- The percentage of requests that miss. -/
def missRate (c : Counters) : Float :=
  if c.requests = 0 then 0.0 else c.misses.toFloat / c.requests.toFloat * 100.0

/-- A text with blanks after it, up to a width. -/
def padded (width : Nat) (s : String) : String :=
  s ++ String.ofList (List.replicate (width - s.length) ' ')

def places (x : Float) : String :=
  String.ofList (Decimal.fixedText x)

/-- The line of one sequencer. -/
def sequencerLine (i : Nat) (c : Counters) : String :=
  "  seq" ++ padded 4 (toString i) ++ " requests: " ++ padded 10 (toString c.requests) ++
    " | misses: " ++ padded 10 (toString c.misses) ++
    " | avg_latency: " ++ places (averageLatency c)

def doubleRule : String := String.ofList (List.replicate 58 '=')
def singleRule : String := String.ofList (List.replicate 58 '-')

/-- The lines of a report; `hostTime` is the line about the time of the run. -/
def reportWith (p : Profile) (hostTime : String) (t : Counters) : List String :=
  ["", doubleRule, "RUBY MEMORY SYSTEM STATISTICS", doubleRule, hostTime,
    "sequencers               " ++ toString p.sequencers.size,
    "requests                 " ++ toString t.requests,
    "misses                   " ++ toString t.misses,
    "miss_rate                " ++ places (missRate t) ++ "%",
    "avg_miss_latency         " ++ places (averageLatency t),
    singleRule, "PER SEQUENCER"] ++
    p.sequencers.toList.mapIdx sequencerLine ++ [doubleRule]

/-- The lines of a report, if the totals fit. -/
def report (p : Profile) (hostTime : String) : Except Overflow (List String) :=
  p.totals.map (p.reportWith hostTime)

@[simp] theorem size_start (n : Nat) : (start n).sequencers.size = n :=
  Array.size_replicate

@[simp] theorem size_record (p : Profile) (s : Sample) :
    (p.record s).sequencers.size = p.sequencers.size := by
  cases s <;> exact Array.size_modify

end Profile

end CoherentMemory
