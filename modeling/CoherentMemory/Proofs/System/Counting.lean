import CoherentMemory.Proofs.Success
import CoherentMemory.System.Profile

/-!
# Counting

What a profile says after any number of samples. The counters of a sequencer are the
numbers of its requests and misses and the sum of its latencies, each modulo `2 ^ 64`
(`Counters.Tally`), and no sample of another sequencer changes them; one more sample keeps
this (`Profile.Counts.record`), so it holds after every run (`Profile.Counts.recordAll`).
Numbers and sums do not depend on an order, so neither do the counters.

The totals are sums of counters that do not wrap. They are exact, or there are none
(`totals_eq_ok`): a counter whose sum over all sequencers leaves 64 bits is an overflow
(`totals_eq_error`), although no counter by itself ever is.
-/

namespace CoherentMemory

/-- The sequencer that a sample is of. -/
def Sample.sequencer : Sample → Nat
  | .request i => i
  | .miss i _ => i

/-- The latency of a miss of the sequencer `i`. -/
def Sample.latencyOf? (i : Nat) : Sample → Option Nat
  | .request _ => none
  | .miss j latency => if j = i then some latency.toNat else none

/-- The latencies of the misses of the sequencer `i`, in their order. -/
def missLatencies (i : Nat) (samples : List Sample) : List Nat :=
  samples.filterMap (Sample.latencyOf? i)

/-- The counters after one more sample. -/
def Counters.count (c : Counters) : Sample → Counters
  | .request _ => { c with requests := c.requests + 1 }
  | .miss _ latency =>
    { c with misses := c.misses + 1, missLatency := c.missLatency + latency }

/-- What the counters of the sequencer `i` say after some samples. -/
structure Counters.Tally (c : Counters) (i : Nat) (samples : List Sample) : Prop where
  requests_eq : c.requests.toNat = samples.count (.request i) % 2 ^ 64
  misses_eq : c.misses.toNat = (missLatencies i samples).length % 2 ^ 64
  missLatency_eq : c.missLatency.toNat = (missLatencies i samples).sum % 2 ^ 64

/-! ## The counters of a sequencer -/

namespace Counters

variable {c c' : Counters} {i : Nat} {samples samples' : List Sample}

theorem tally_nil (i : Nat) : ({} : Counters).Tally i [] :=
  ⟨rfl, rfl, rfl⟩

/-- A request is one more, and no more misses. -/
theorem Tally.request (h : c.Tally i samples) :
    (c.count (.request i)).Tally i (samples ++ [.request i]) := by
  have hl : missLatencies i (samples ++ [.request i]) = missLatencies i samples := by
    simp [missLatencies, Sample.latencyOf?]
  refine ⟨?_, ?_, ?_⟩
  · have hc := h.requests_eq
    show (c.requests + 1).toNat = _
    rw [UInt64.toNat_add, List.count_append, List.count_singleton_self]
    show (c.requests.toNat + 1) % _ = _
    omega
  · rw [hl]
    exact h.misses_eq
  · rw [hl]
    exact h.missLatency_eq

/-- A miss is one more, and its latency is added. -/
theorem Tally.miss (h : c.Tally i samples) (latency : UInt64) :
    (c.count (.miss i latency)).Tally i (samples ++ [.miss i latency]) := by
  have hl : missLatencies i (samples ++ [.miss i latency]) =
      missLatencies i samples ++ [latency.toNat] := by
    simp [missLatencies, Sample.latencyOf?]
  refine ⟨?_, ?_, ?_⟩
  · have hcount : [Sample.miss i latency].count (.request i) = 0 := by simp
    rw [List.count_append, hcount]
    exact h.requests_eq
  · have hc := h.misses_eq
    show (c.misses + 1).toNat = _
    rw [hl, UInt64.toNat_add, List.length_append, List.length_singleton]
    show (c.misses.toNat + 1) % _ = _
    omega
  · have hc := h.missLatency_eq
    show (c.missLatency + latency).toNat = _
    rw [hl, UInt64.toNat_add, List.sum_append, List.sum_singleton]
    omega

theorem Tally.count (h : c.Tally i samples) {s : Sample} (hs : s.sequencer = i) :
    (c.count s).Tally i (samples ++ [s]) := by
  subst hs
  cases s with
  | request j => exact h.request
  | miss j latency => exact h.miss latency

/-- Samples of other sequencers do not count. -/
theorem Tally.of_ne (h : c.Tally i samples) {s : Sample} (hs : s.sequencer ≠ i) :
    c.Tally i (samples ++ [s]) := by
  have hcount : [s].count (.request i) = 0 := by
    refine List.count_eq_zero_of_not_mem fun hm => hs ?_
    rw [← List.mem_singleton.mp hm]
    rfl
  have hl : missLatencies i (samples ++ [s]) = missLatencies i samples := by
    have hnone : s.latencyOf? i = none := by
      cases s with
      | request j => rfl
      | miss j latency => exact if_neg hs
    simp [missLatencies, hnone]
  refine ⟨?_, ?_, ?_⟩
  · rw [List.count_append, hcount]
    exact h.requests_eq
  · rw [hl]
    exact h.misses_eq
  · rw [hl]
    exact h.missLatency_eq

/-- Counters do not depend on the order of the samples. -/
theorem Tally.perm (h : c.Tally i samples) (hs : samples.Perm samples') : c.Tally i samples' := by
  have hl : (missLatencies i samples).Perm (missLatencies i samples') := hs.filterMap _
  refine ⟨?_, ?_, ?_⟩
  · rw [← hs.count_eq]
    exact h.requests_eq
  · rw [← hl.length_eq]
    exact h.misses_eq
  · rw [← hl.sum_eq]
    exact h.missLatency_eq

theorem ext_toNat (hr : c.requests.toNat = c'.requests.toNat)
    (hm : c.misses.toNat = c'.misses.toNat)
    (hl : c.missLatency.toNat = c'.missLatency.toNat) : c = c' := by
  cases c
  cases c'
  rw [Counters.mk.injEq]
  exact ⟨UInt64.toNat_inj.mp hr, UInt64.toNat_inj.mp hm, UInt64.toNat_inj.mp hl⟩

theorem exists_toNat {x y z : Nat} (hx : x < 2 ^ 64) (hy : y < 2 ^ 64) (hz : z < 2 ^ 64) :
    ∃ c : Counters, c.requests.toNat = x ∧ c.misses.toNat = y ∧ c.missLatency.toNat = z :=
  ⟨⟨.ofNat x, .ofNat y, .ofNat z⟩, UInt64.toNat_ofNat_of_lt' hx, UInt64.toNat_ofNat_of_lt' hy,
    UInt64.toNat_ofNat_of_lt' hz⟩

theorem Tally.unique (h : c.Tally i samples) (h' : c'.Tally i samples) : c = c' :=
  ext_toNat (h.requests_eq.trans h'.requests_eq.symm) (h.misses_eq.trans h'.misses_eq.symm)
    (h.missLatency_eq.trans h'.missLatency_eq.symm)

end Counters

namespace Profile

/-! ## The counters of all sequencers -/

/-- Counts samples one after the other. -/
def recordAll (p : Profile) (samples : List Sample) : Profile :=
  samples.foldl record p

/-- What holds of a profile of `n` sequencers after some samples. -/
structure Counts (p : Profile) (n : Nat) (samples : List Sample) : Prop where
  size_eq : p.sequencers.size = n
  tally : ∀ {i c}, p.counters? i = some c → c.Tally i samples

variable {p q : Profile} {n i : Nat} {s : Sample} {c : Counters} {samples samples' : List Sample}

theorem counters?_eq_none_iff : p.counters? i = none ↔ p.sequencers.size ≤ i :=
  Array.getElem?_eq_none_iff

theorem ext_counters? (h : ∀ i, p.counters? i = q.counters? i) : p = q := by
  cases p
  cases q
  exact congrArg Profile.mk (Array.ext_getElem? h)

/-- A sample is counted at its sequencer and changes no other counters. -/
theorem counters?_record (p : Profile) (s : Sample) (i : Nat) : (p.record s).counters? i =
    if s.sequencer = i then (p.counters? i).map (·.count s) else p.counters? i := by
  cases s with
  | request j => exact Array.getElem?_modify
  | miss j latency => exact Array.getElem?_modify

/-- Samples of sequencers that do not exist change nothing. -/
theorem record_of_size_le (h : p.sequencers.size ≤ s.sequencer) : p.record s = p := by
  refine ext_counters? fun i => ?_
  by_cases e : s.sequencer = i
  · have hnone : p.counters? i = none := counters?_eq_none_iff.mpr (e ▸ h)
    rw [counters?_record, if_pos e, hnone]
    rfl
  · rw [counters?_record, if_neg e]

theorem counts_start (n : Nat) : (start n).Counts n [] := by
  refine ⟨size_start n, fun {i c} h => ?_⟩
  rw [counters?, start, Array.getElem?_replicate] at h
  split at h
  · cases h
    exact Counters.tally_nil i
  · cases h

/-- One more sample is counted at its sequencer. -/
theorem Counts.record (h : p.Counts n samples) (s : Sample) :
    (p.record s).Counts n (samples ++ [s]) := by
  refine ⟨(size_record p s).trans h.size_eq, fun {i c} hc => ?_⟩
  rw [counters?_record] at hc
  split at hc
  · rename_i hs
    obtain ⟨b, hb, rfl⟩ := Option.map_eq_some_iff.mp hc
    exact (h.tally hb).count hs
  · rename_i hs
    exact (h.tally hc).of_ne hs

theorem Counts.recordAll (h : p.Counts n samples) (more : List Sample) :
    (p.recordAll more).Counts n (samples ++ more) := by
  induction more generalizing p samples with
  | nil =>
    rw [List.append_nil]
    exact h
  | cons s more ih =>
    have hall := ih (h.record s)
    rwa [List.append_assoc] at hall

theorem counts_recordAll (n : Nat) (samples : List Sample) :
    ((start n).recordAll samples).Counts n samples :=
  (counts_start n).recordAll samples

/-- There is one profile for each number of sequencers and samples in some order. -/
theorem Counts.eq_of_perm (hp : p.Counts n samples) (hq : q.Counts n samples')
    (h : samples.Perm samples') : p = q := by
  refine ext_counters? fun i => ?_
  cases hi : p.counters? i with
  | none =>
    rw [counters?_eq_none_iff, hp.size_eq, ← hq.size_eq] at hi
    exact (counters?_eq_none_iff.mpr hi).symm
  | some c =>
    cases hi' : q.counters? i with
    | none =>
      rw [counters?_eq_none_iff, hq.size_eq, ← hp.size_eq, ← counters?_eq_none_iff, hi] at hi'
      cases hi'
    | some c' => exact congrArg some (((hp.tally hi).perm h).unique (hq.tally hi'))

/-! ## Totals -/

/-- The sum of one of the counters over all sequencers, beyond 64 bits too. -/
def total (p : Profile) (counter : Counters → UInt64) : Nat :=
  (p.sequencers.toList.map fun c => (counter c).toNat).sum

/-- The sum of every counter over all sequencers fits in 64 bits. -/
def TotalsFit (p : Profile) : Prop :=
  p.total Counters.requests < 2 ^ 64 ∧ p.total Counters.misses < 2 ^ 64 ∧
    p.total Counters.missLatency < 2 ^ 64

theorem addWords_eq_ok {a b x : UInt64} : addWords a b = .ok x ↔ x.toNat = a.toNat + b.toNat := by
  rw [addWords, map_eq_ok]
  constructor
  · rintro ⟨k, hk, rfl⟩
    obtain ⟨rfl, hlt⟩ := checkedAdd_eq_ok.mp hk
    exact UInt64.toNat_ofNat_of_lt' hlt
  · intro h
    have hlt := x.toNat_lt
    refine ⟨a.toNat + b.toNat, checkedAdd_eq_ok.mpr ⟨rfl, by omega⟩, ?_⟩
    rw [← h, UInt64.ofNat_toNat]

theorem eq_addition_of_addWords {a b : UInt64} {e : Overflow} (h : addWords a b = .error e) :
    e = .addition := by
  unfold addWords checkedAdd at h
  split at h
  · cases h
  · cases h
    rfl

theorem addCounters_eq_ok {a b c : Counters} : addCounters a b = .ok c ↔
    c.requests.toNat = a.requests.toNat + b.requests.toNat ∧
      c.misses.toNat = a.misses.toNat + b.misses.toNat ∧
        c.missLatency.toNat = a.missLatency.toNat + b.missLatency.toNat := by
  constructor
  · intro h
    obtain ⟨x, hx, h⟩ := bind_eq_ok.mp h
    obtain ⟨y, hy, h⟩ := bind_eq_ok.mp h
    obtain ⟨z, hz, h⟩ := bind_eq_ok.mp h
    cases h
    exact ⟨addWords_eq_ok.mp hx, addWords_eq_ok.mp hy, addWords_eq_ok.mp hz⟩
  · rintro ⟨hx, hy, hz⟩
    rw [addCounters, addWords_eq_ok.mpr hx, addWords_eq_ok.mpr hy, addWords_eq_ok.mpr hz]
    rfl

theorem eq_addition_of_addCounters {a b : Counters} {e : Overflow}
    (h : addCounters a b = .error e) : e = .addition := by
  rcases bind_eq_error.mp h with h | ⟨_, -, h⟩
  · exact eq_addition_of_addWords h
  rcases bind_eq_error.mp h with h | ⟨_, -, h⟩
  · exact eq_addition_of_addWords h
  rcases bind_eq_error.mp h with h | ⟨_, -, h⟩
  · exact eq_addition_of_addWords h
  · cases h

/-- The sum of some counters, begun at other ones. -/
theorem foldlM_addCounters_eq_ok {a c : Counters} {cs : List Counters} :
    cs.foldlM addCounters a = .ok c ↔
      c.requests.toNat = a.requests.toNat + (cs.map (·.requests.toNat)).sum ∧
        c.misses.toNat = a.misses.toNat + (cs.map (·.misses.toNat)).sum ∧
          c.missLatency.toNat = a.missLatency.toNat + (cs.map (·.missLatency.toNat)).sum := by
  induction cs generalizing a with
  | nil =>
    constructor
    · intro h
      cases h
      exact ⟨rfl, rfl, rfl⟩
    · rintro ⟨hx, hy, hz⟩
      exact congrArg Except.ok (Counters.ext_toNat hx.symm hy.symm hz.symm)
  | cons b cs ih =>
    simp only [List.foldlM_cons, List.map_cons, List.sum_cons]
    constructor
    · intro h
      obtain ⟨d, hd, h⟩ := bind_eq_ok.mp h
      obtain ⟨hx, hy, hz⟩ := ih.mp h
      obtain ⟨hx', hy', hz'⟩ := addCounters_eq_ok.mp hd
      omega
    · rintro ⟨hx, hy, hz⟩
      have hcx := c.requests.toNat_lt
      have hcy := c.misses.toNat_lt
      have hcz := c.missLatency.toNat_lt
      -- the sum of the first counters is below that of all
      obtain ⟨d, hd⟩ : ∃ d, addCounters a b = .ok d := by
        simp only [addCounters_eq_ok]
        exact Counters.exists_toNat (by omega) (by omega) (by omega)
      obtain ⟨hx', hy', hz'⟩ := addCounters_eq_ok.mp hd
      rw [hd]
      exact ih.mpr ⟨by omega, by omega, by omega⟩

/-- The totals are the exact sums. -/
theorem totals_eq_ok : p.totals = .ok c ↔ c.requests.toNat = p.total Counters.requests ∧
    c.misses.toNat = p.total Counters.misses ∧
      c.missLatency.toNat = p.total Counters.missLatency := by
  rw [totals, foldlM_addCounters_eq_ok]
  simp only [total, UInt64.toNat_zero, Nat.zero_add]

theorem exists_totals_iff : (∃ c, p.totals = .ok c) ↔ p.TotalsFit := by
  constructor
  · rintro ⟨c, h⟩
    obtain ⟨hx, hy, hz⟩ := totals_eq_ok.mp h
    exact ⟨hx ▸ c.requests.toNat_lt, hy ▸ c.misses.toNat_lt, hz ▸ c.missLatency.toNat_lt⟩
  · rintro ⟨hx, hy, hz⟩
    obtain ⟨c, hc⟩ := Counters.exists_toNat hx hy hz
    exact ⟨c, totals_eq_ok.mpr hc⟩

theorem eq_addition_of_foldlM {a : Counters} {cs : List Counters} {e : Overflow}
    (h : cs.foldlM addCounters a = .error e) : e = .addition := by
  induction cs generalizing a with
  | nil => cases h
  | cons b cs ih =>
    rw [List.foldlM_cons] at h
    rcases bind_eq_error.mp h with h | ⟨_, -, h⟩
    · exact eq_addition_of_addCounters h
    · exact ih h

/-- Where a sum leaves 64 bits there are no totals. -/
theorem totals_eq_error (h : ¬p.TotalsFit) : p.totals = .error .addition := by
  cases ht : p.totals with
  | ok c => exact absurd (exists_totals_iff.mp ⟨c, ht⟩) h
  | error e => rw [eq_addition_of_foldlM ht]

/-! ## Runs -/

/-- After any samples the counters of each sequencer are the numbers of its requests and
misses and the sum of its latencies, modulo `2 ^ 64`. There are no others, and samples of
others change nothing. The order of the samples does not matter. The totals are the exact
sums of the counters, if these fit. -/
theorem recordAll_counters (n : Nat) (samples : List Sample) :
    let p := (start n).recordAll samples
    (∀ i < n, ∃ c, p.counters? i = some c ∧ c.Tally i samples) ∧
    (∀ i, n ≤ i → p.counters? i = none) ∧
    (∀ s : Sample, n ≤ s.sequencer → p.record s = p) ∧
    (∀ samples', samples.Perm samples' → (start n).recordAll samples' = p) ∧
    (p.TotalsFit → ∃ c, p.totals = .ok c ∧ c.requests.toNat = p.total Counters.requests ∧
      c.misses.toNat = p.total Counters.misses ∧
        c.missLatency.toNat = p.total Counters.missLatency) := by
  intro p
  have hp : p.Counts n samples := counts_recordAll n samples
  refine ⟨fun i hi => ?_, fun i hi => ?_, fun s hs => ?_, fun samples' hs => ?_, fun hfit => ?_⟩
  · have hlt : i < p.sequencers.size := hp.size_eq.symm ▸ hi
    have hc : p.counters? i = some p.sequencers[i] := Array.getElem?_eq_getElem hlt
    exact ⟨_, hc, hp.tally hc⟩
  · exact counters?_eq_none_iff.mpr (hp.size_eq.symm ▸ hi)
  · exact record_of_size_le (hp.size_eq.symm ▸ hs)
  · exact (counts_recordAll n samples').eq_of_perm hp hs.symm
  · obtain ⟨c, hc⟩ := exists_totals_iff.mpr hfit
    exact ⟨c, hc, totals_eq_ok.mp hc⟩

/-- Samples of three sequencers, the last of which there may not be. The latencies of the
first leave 64 bits. -/
def mixedSamples : List Sample :=
  [.miss 0 0xFFFFFFFFFFFFFFFF, .request 2, .request 1, .miss 0 3, .miss 2 7]

/-- The latency counter of the first of two sequencers wraps, in either order. -/
theorem recordAll_counters_mixed :
    ((start 2).recordAll mixedSamples).counters? 0 = some ⟨0, 2, 2⟩ ∧
      ((start 2).recordAll mixedSamples).counters? 2 = none ∧
      ((start 2).recordAll mixedSamples).record (.miss 2 7) = (start 2).recordAll mixedSamples ∧
      (start 2).recordAll mixedSamples.reverse = (start 2).recordAll mixedSamples ∧
      ((start 2).recordAll mixedSamples).totals = .ok ⟨1, 2, 2⟩ := by
  obtain ⟨hcounters, hnone, hsame, hperm, htotals⟩ := recordAll_counters 2 mixedSamples
  refine ⟨?_, hnone 2 (by decide), hsame (.miss 2 7) (by decide),
    hperm _ (List.reverse_perm _).symm, ?_⟩
  · obtain ⟨c, hc, htally⟩ := hcounters 0 (by decide)
    have hmixed : (⟨0, 2, 2⟩ : Counters).Tally 0 mixedSamples := ⟨by decide, by decide, by decide⟩
    rw [hc, htally.unique hmixed]
  · obtain ⟨c, hc, hr, hm, hl⟩ := htotals ⟨by decide, by decide, by decide⟩
    have e : c = ⟨1, 2, 2⟩ := Counters.ext_toNat hr hm hl
    rw [hc, e]

/-- After any samples there are totals, and a report of them, exactly if the sums of the
counters fit in 64 bits, and then they are these sums. Otherwise both overflow. -/
theorem totals_outcome (n : Nat) (samples : List Sample) :
    let p := (start n).recordAll samples
    (p.TotalsFit → ∃ c, p.totals = .ok c ∧
      c.requests.toNat = p.total Counters.requests % 2 ^ 64 ∧
      c.misses.toNat = p.total Counters.misses % 2 ^ 64 ∧
      c.missLatency.toNat = p.total Counters.missLatency % 2 ^ 64 ∧
      ∀ hostTime, p.report hostTime = .ok (p.reportWith hostTime c)) ∧
    (¬p.TotalsFit → p.totals = .error .addition ∧
      ∀ hostTime, p.report hostTime = .error .addition) := by
  intro p
  constructor
  · intro hfit
    obtain ⟨c, hc⟩ := exists_totals_iff.mpr hfit
    obtain ⟨hr, hm, hl⟩ := totals_eq_ok.mp hc
    obtain ⟨hrlt, hmlt, hllt⟩ := hfit
    refine ⟨c, hc, ?_, ?_, ?_, fun hostTime => ?_⟩
    · rw [hr, Nat.mod_eq_of_lt hrlt]
    · rw [hm, Nat.mod_eq_of_lt hmlt]
    · rw [hl, Nat.mod_eq_of_lt hllt]
    · rw [report, hc]
      rfl
  · intro hfit
    have ht : p.totals = .error .addition := totals_eq_error hfit
    refine ⟨ht, fun hostTime => ?_⟩
    rw [report, ht]
    rfl

/-- The totals of the mixed samples can be reported. -/
theorem totals_outcome_mixed : ((start 2).recordAll mixedSamples).TotalsFit ∧
    ∃ c, ((start 2).recordAll mixedSamples).totals = .ok c ∧ c.missLatency.toNat = 2 := by
  have hfit : ((start 2).recordAll mixedSamples).TotalsFit := ⟨by decide, by decide, by decide⟩
  obtain ⟨c, hc, -, -, hl, -⟩ := (totals_outcome 2 mixedSamples).1 hfit
  exact ⟨hfit, c, hc, hl⟩

/-- A miss of each of two sequencers. -/
def twoMisses : List Sample :=
  [.miss 0 0xFFFFFFFFFFFFFFFF, .miss 1 1]

/-- The latencies of both misses are counted as they are, but their sum leaves 64 bits by
one: modulo `2 ^ 64` it is zero, and there are no totals and no report. -/
theorem totals_overflow :
    ((start 2).recordAll twoMisses).counters? 0 = some ⟨0, 1, 0xFFFFFFFFFFFFFFFF⟩ ∧
      ((start 2).recordAll twoMisses).counters? 1 = some ⟨0, 1, 1⟩ ∧
      ((start 2).recordAll twoMisses).total Counters.missLatency % 2 ^ 64 = 0 ∧
      ((start 2).recordAll twoMisses).totals = .error .addition ∧
      ((start 2).recordAll twoMisses).report "host_seconds" = .error .addition :=
  ⟨rfl, rfl, rfl, rfl, rfl⟩

end Profile

end CoherentMemory
