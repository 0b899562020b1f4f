import DbosScheduler.Bench.Recording
import DbosScheduler.Lib.Chunks

namespace DbosScheduler.Bench
open Chunks

structure Statistics (α : Type) where
  count : Nat
  average : α
  stddev : α
  min : α
  max : α
  P50 : α
  P90 : α
  P95 : α
  P99 : α
  deriving Repr, DecidableEq

-- The arithmetic on double, which only goes into these two values.
structure Arithmetic (α : Type) where
  average : List α → α
  stddev : List α → α → α

variable {α : Type} [LinearOrder α]

-- The percentile positions, with exact factors: (int)(count * 0.9) and so on. The arrays
-- have 2^26 entries, so that the cast keeps every position.
def p50 (count : Nat) : Nat := count / 2
def p90 (count : Nat) : Nat := count * 9 / 10
def p95 (count : Nat) : Nat := count * 95 / 100
def p99 (count : Nat) : Nat := count * 99 / 100

-- The statistics of an interval that has been sorted. `none` is a read past its end.
def statsOf (ops : Arithmetic α) (sorted : List α) : Option (Statistics α) := do
  let average := ops.average sorted
  let min ← sorted[0]?
  let max ← sorted[sorted.length - 1]?
  let P50 ← sorted[p50 sorted.length]?
  let P90 ← sorted[p90 sorted.length]?
  let P95 ← sorted[p95 sorted.length]?
  let P99 ← sorted[p99 sorted.length]?
  return ⟨sorted.length,average,ops.stddev sorted average,min,max,P50,P90,P95,P99⟩

-- The percentile positions stay inside the interval, in order.
theorem positions (filled : 0 < n) : p50 n ≤ p90 n ∧ p90 n ≤ p95 n ∧ p95 n ≤ p99 n ∧ p99 n ≤ n - 1 ∧ p99 n < n := by
  unfold p50 p90 p95 p99
  omega

-- What is reported about the samples of one interval, in whatever order they came.
structure Quantiles (samples : List α) (stats : Statistics α) : Prop where
  count : stats.count = samples.length
  inside : p50 samples.length < samples.length ∧ p90 samples.length < samples.length ∧
    p95 samples.length < samples.length ∧ p99 samples.length < samples.length
  ordered : stats.min ≤ stats.P50 ∧ stats.P50 ≤ stats.P90 ∧ stats.P90 ≤ stats.P95 ∧ stats.P95 ≤ stats.P99 ∧ stats.P99 ≤ stats.max
  extremes : ∀ x ∈ samples, stats.min ≤ x ∧ x ≤ stats.max
  half : samples.length ≤ 2 * samples.countP fun x => decide (x ≤ stats.P50)
  ninety : 90 * samples.length ≤ 100 * samples.countP fun x => decide (x ≤ stats.P90)
  ninetyFive : 95 * samples.length ≤ 100 * samples.countP fun x => decide (x ≤ stats.P95)
  ninetyNine : 99 * samples.length ≤ 100 * samples.countP fun x => decide (x ≤ stats.P99)

theorem sorted_extremes {samples : List α} (low : (samples.insertionSort (· ≤ ·))[0]? = some least)
    (high : (samples.insertionSort (· ≤ ·))[samples.length - 1]? = some greatest) :
    ∀ x ∈ samples, least ≤ x ∧ x ≤ greatest := by
  intro x member
  obtain ⟨i,found⟩ := List.mem_iff_getElem?.mp ((List.mem_insertionSort (· ≤ ·)).mpr member)
  obtain ⟨inside,_⟩ := List.getElem?_eq_some_iff.mp found
  rw [List.length_insertionSort] at inside
  exact ⟨rank_mono low found (Nat.zero_le i),rank_mono found high (by omega)⟩

theorem statsOf_quantiles (ops : Arithmetic α) {samples : List α} (filled : samples ≠ []) :
    ∃ stats, statsOf ops (samples.insertionSort (· ≤ ·)) = some stats ∧ Quantiles samples stats := by
  have size : 0 < samples.length := List.length_pos_iff.mpr filled
  obtain ⟨first,second,third,fourth,inside⟩ := positions size
  obtain ⟨min,low⟩ := rank_some samples size
  obtain ⟨max,high⟩ := rank_some samples (show samples.length - 1 < samples.length by omega)
  obtain ⟨P50,at50⟩ := rank_some samples (show p50 samples.length < samples.length by omega)
  obtain ⟨P90,at90⟩ := rank_some samples (show p90 samples.length < samples.length by omega)
  obtain ⟨P95,at95⟩ := rank_some samples (show p95 samples.length < samples.length by omega)
  obtain ⟨P99,at99⟩ := rank_some samples inside
  have half := rank_covers at50
  have ninety := rank_covers at90
  have ninetyFive := rank_covers at95
  have ninetyNine := rank_covers at99
  unfold p50 at half
  unfold p90 at ninety
  unfold p95 at ninetyFive
  unfold p99 at ninetyNine
  let sorted := samples.insertionSort (· ≤ ·)
  refine ⟨⟨samples.length,ops.average sorted,ops.stddev sorted (ops.average sorted),min,max,P50,P90,P95,P99⟩,?_,rfl,
    ⟨by omega,by omega,by omega,inside⟩,?_,sorted_extremes low high,?_,?_,?_,?_⟩
  · simp only [statsOf,List.length_insertionSort,low,high,at50,at90,at95,at99]
    rfl
  · exact ⟨rank_mono low at50 (Nat.zero_le _),rank_mono at50 at90 first,rank_mono at90 at95 second,
      rank_mono at95 at99 third,rank_mono at99 high fourth⟩
  all_goals dsimp only
  all_goals omega

variable [Zero α]

-- memset(&stats, 0, sizeof(stats))
def noStats : Statistics α := ⟨0,0,0,0,0,0,0,0,0⟩

-- rawData is a position in the array of all latencies, and the part from there on is
-- sorted in place. `none` is an access outside the array.
def computeStats (ops : Arithmetic α) (latencies : List α) (rawData count : Nat) : Option (Statistics α × List α) :=
  if count = 0 then some (noStats,latencies) else
  if rawData + count ≤ latencies.length then do
    let sorted := ((latencies.drop rawData).take count).insertionSort (· ≤ ·)
    let stats ← statsOf ops sorted
    return (stats,latencies.take rawData ++ sorted ++ latencies.drop (rawData + count))
  else none

-- One line of the output file. The duration and the throughput are quotients of what
-- stands here.
structure Line (α : Type) where
  timeStampUsec : UInt64
  durationUsec : UInt64
  stats : Statistics α

structure Report (α : Type) where
  printed : List (Statistics α)
  lines : List (Line α)
  totalEntries : UInt32
  latencies : List α

-- for (size_t i = 1; i < totalIntervals; ++i), over the marks behind the current one.
def eachInterval (ops : Arithmetic α) : List α → UInt32 × UInt64 → List (UInt32 × UInt64) → Option (Report α)
  | latencies,current,[] => some ⟨[],[],current.1,latencies⟩
  | latencies,current,next :: rest => do
    let computed ← computeStats ops latencies current.1.toNat (next.1 - current.1).toNat
    let report ← eachInterval ops computed.2 next rest
    return {report with
      printed:=computed.1 :: report.printed
      lines:=⟨next.2,next.2 - current.2,computed.1⟩ :: report.lines}

-- "Duplicate the first stats, set duration to 0. Easier for plotting."
def duplicateFirst (timeStampUsec : UInt64) : List (Line α) → List (Line α)
  | [] => []
  | line :: lines => ⟨timeStampUsec,0,line.stats⟩ :: line :: lines

-- `opened` is whether the output file could be opened.
def processResults (ops : Arithmetic α) (opened : Bool) (latencies : List α) (marks : Marks) : Option (Bool × Report α) :=
  if opened then
    match marks.indices.zip marks.timeStampsUsec with
    | [] => none
    | first :: rest => do
      let report ← eachInterval ops latencies first rest
      return (true,{report with lines:=duplicateFirst first.2 report.lines})
  else some (false,⟨[],[],0,latencies⟩)

-- What the loop comes to: the array is cut at the marks, and every piece is sorted and
-- summed up by itself.
def summary (ops : Arithmetic α) (samples : List α) : Statistics α :=
  (statsOf ops (samples.insertionSort (· ≤ ·))).getD noStats

theorem summary_quantiles (ops : Arithmetic α) {samples : List α} (filled : samples ≠ []) :
    Quantiles samples (summary ops samples) := by
  obtain ⟨stats,computed,quantiles⟩ := statsOf_quantiles ops filled
  rwa [summary,computed]

theorem summary_count (ops : Arithmetic α) (samples : List α) : (summary ops samples).count = samples.length := by
  cases samples with
  | nil => rfl
  | cons x samples => exact (summary_quantiles ops (List.cons_ne_nil x samples)).count

theorem computeStats_some (ops : Arithmetic α) {latencies : List α} {rawData count : Nat}
    (within : rawData + count ≤ latencies.length) :
    computeStats ops latencies rawData count = some (summary ops ((latencies.drop rawData).take count),
      latencies.take rawData ++ ((latencies.drop rawData).take count).insertionSort (· ≤ ·) ++
        latencies.drop (rawData + count)) := by
  by_cases empty : count = 0
  · subst empty
    simp [computeStats,summary,statsOf]
  · have filled : (latencies.drop rawData).take count ≠ [] := by
      rw [← List.length_pos_iff,List.length_take,List.length_drop]
      omega
    obtain ⟨stats,computed,_⟩ := statsOf_quantiles ops filled
    simp [computeStats,empty,within,computed,summary]

theorem eachInterval_some (ops : Arithmetic α) (latencies : List α) (current : UInt32 × UInt64)
    (rest : List (UInt32 × UInt64)) (ascending : (current.1.toNat :: rest.map fun mark => mark.1.toNat).Pairwise (· ≤ ·))
    (within : current.1.toNat + (steps current.1.toNat (rest.map fun mark => mark.1.toNat)).sum ≤ latencies.length) :
    ∃ report, eachInterval ops latencies current rest = some report ∧
      report.printed = (chunks (steps current.1.toNat (rest.map fun mark => mark.1.toNat))
        (latencies.drop current.1.toNat)).map (summary ops) ∧
      report.latencies = latencies.take current.1.toNat ++
        ((chunks (steps current.1.toNat (rest.map fun mark => mark.1.toNat))
          (latencies.drop current.1.toNat)).map (List.insertionSort (· ≤ ·))).flatten ++
        latencies.drop (current.1.toNat + (steps current.1.toNat (rest.map fun mark => mark.1.toNat)).sum) := by
  induction rest generalizing latencies current with
  | nil =>
    refine ⟨_,rfl,rfl,?_⟩
    simp [steps,chunks]
  | cons next rest ih =>
    obtain ⟨above,later⟩ := List.pairwise_cons.mp ascending
    have forward : current.1.toNat ≤ next.1.toNat := above _ List.mem_cons_self
    have count : (next.1 - current.1).toNat = next.1.toNat - current.1.toNat :=
      UInt32.toNat_sub_of_le _ _ (UInt32.le_iff_toNat_le.mpr forward)
    have reach : current.1.toNat + (next.1.toNat - current.1.toNat) = next.1.toNat := by omega
    rw [List.map_cons,steps,List.sum_cons] at within
    have here : current.1.toNat + (next.1.toNat - current.1.toNat) ≤ latencies.length := by omega
    have computed := computeStats_some ops here
    rw [reach] at computed
    generalize arranged : ((latencies.drop current.1.toNat).take (next.1.toNat - current.1.toNat)).insertionSort (· ≤ ·) =
      sorted at computed
    have size : (latencies.take current.1.toNat ++ sorted).length = next.1.toNat := by
      rw [← arranged,List.length_append,List.length_insertionSort,List.length_take,List.length_take,List.length_drop]
      omega
    have front : (latencies.take current.1.toNat ++ sorted ++ latencies.drop next.1.toNat).take next.1.toNat =
        latencies.take current.1.toNat ++ sorted := List.take_left' size
    have back : (latencies.take current.1.toNat ++ sorted ++ latencies.drop next.1.toNat).drop next.1.toNat =
        latencies.drop next.1.toNat := List.drop_left' size
    have whole : next.1.toNat + (steps next.1.toNat (rest.map fun mark => mark.1.toNat)).sum ≤
        (latencies.take current.1.toNat ++ sorted ++ latencies.drop next.1.toNat).length := by
      rw [List.length_append,size,List.length_drop]
      omega
    obtain ⟨report,ran,printed,after⟩ := ih _ next later whole
    rw [back] at printed
    rw [front,back,← List.drop_drop,back,List.drop_drop] at after
    refine ⟨_,by rw [eachInterval,count,computed,Option.bind_eq_bind,Option.bind_some,ran]; rfl,?_,?_⟩
    · rw [List.map_cons,steps,chunks,List.map_cons,List.drop_drop,reach]
      exact congrArg (List.cons _) printed
    · rw [List.map_cons,steps,chunks,List.map_cons,List.flatten_cons,List.drop_drop,reach,List.sum_cons,← Nat.add_assoc,reach,
        arranged,← List.append_assoc]
      exact after

-- One interval, and the loop over the others.
theorem eachInterval_cons {ops : Arithmetic α} (ran : eachInterval ops latencies current (next :: rest) = some report) :
    ∃ (computed : Statistics α × List α) (behind : Report α), eachInterval ops computed.2 next rest = some behind ∧ report = {behind with
      printed:=computed.1 :: behind.printed
      lines:=⟨next.2,next.2 - current.2,computed.1⟩ :: behind.lines} := by
  obtain ⟨computed,_,within⟩ := Option.bind_eq_some_iff.mp ran
  obtain ⟨behind,later,returned⟩ := Option.bind_eq_some_iff.mp within
  exact ⟨computed,behind,later,(Option.some.inj returned).symm⟩

theorem eachInterval_lines {ops : Arithmetic α} (ran : eachInterval ops latencies current rest = some report) :
    report.lines.map Line.stats = report.printed := by
  induction rest generalizing latencies current report with
  | nil =>
    cases ran
    rfl
  | cons next rest ih =>
    obtain ⟨computed,behind,later,rfl⟩ := eachInterval_cons ran
    rw [List.map_cons,ih later]

theorem eachInterval_total {ops : Arithmetic α} (ran : eachInterval ops latencies current rest = some report)
    (ends : ((current :: rest).map Prod.fst).getLast? = some last) : report.totalEntries = last := by
  induction rest generalizing latencies current report with
  | nil =>
    cases ran
    cases ends
    rfl
  | cons next rest ih =>
    obtain ⟨computed,behind,later,rfl⟩ := eachInterval_cons ran
    rw [List.map_cons,List.map_cons,List.getLast?_cons_cons] at ends
    have reached : behind.totalEntries = last := ih later ends
    exact reached

omit [LinearOrder α] [Zero α] in
theorem duplicateFirst_stats (timeStampUsec : UInt64) (lines : List (Line α)) :
    (duplicateFirst timeStampUsec lines).map Line.stats = (lines.map Line.stats).take 1 ++ lines.map Line.stats := by
  cases lines with
  | nil => rfl
  | cons line lines => rfl

-- How many samples each interval has, by the indices at its two ends.
def Marks.sizes (marks : Marks) : List Nat := steps 0 (marks.indices.tail.map UInt32.toNat)

-- A vector of indices that starts at 0, does not go down, and stops at `last`.
structure Marks.Rising (marks : Marks) (last : UInt32) : Prop where
  starts : marks.indices.head? = some 0
  ascending : marks.indices.Pairwise (· ≤ ·)
  ends : marks.indices.getLast? = some last

theorem rising_split (rising : Marks.Rising marks last) :
    marks.indices.map UInt32.toNat = 0 :: marks.indices.tail.map UInt32.toNat := by
  obtain ⟨rest,split⟩ := List.head?_eq_some_iff.mp rising.starts
  rw [split]
  rfl

theorem rising_ascending (rising : Marks.Rising marks last) : (marks.indices.map UInt32.toNat).Pairwise (· ≤ ·) := by
  rw [List.pairwise_map]
  exact rising.ascending.imp fun below => UInt32.le_iff_toNat_le.mp below

theorem sizes_sum (rising : Marks.Rising marks last) : marks.sizes.sum = last.toNat := by
  have ascending := rising_ascending rising
  have final : (marks.indices.map UInt32.toNat)[(marks.indices.tail.map UInt32.toNat).length]? = some last.toNat := by
    rw [List.getElem?_map,List.length_map,List.length_tail,← List.getLast?_eq_getElem?,rising.ends]
    rfl
  rw [rising_split rising] at ascending final
  have reached := steps_take ascending final
  rwa [Nat.zero_add,List.take_of_length_le (by rw [steps_length])] at reached

theorem processResults_some (ops : Arithmetic α) {latencies : List α} (rising : Marks.Rising marks last)
    (within : last.toNat ≤ latencies.length) :
    ∃ report, processResults ops true latencies marks = some (true,report) ∧
      report.printed = (chunks marks.sizes latencies).map (summary ops) ∧
      report.lines.map Line.stats = report.printed.take 1 ++ report.printed ∧ report.totalEntries = last ∧
      report.latencies = ((chunks marks.sizes latencies).map (List.insertionSort (· ≤ ·))).flatten ++ latencies.drop last.toNat := by
  have total := sizes_sum rising
  have ascending := rising_ascending rising
  obtain ⟨starts,_,ends⟩ := rising
  obtain ⟨indices,times,paired⟩ := marks
  obtain ⟨rest,rfl⟩ := List.head?_eq_some_iff.mp starts
  obtain ⟨first,later,rfl⟩ := List.exists_cons_of_length_pos (Nat.lt_of_lt_of_eq (Nat.succ_pos rest.length) paired)
  have equal : rest.length = later.length := Nat.succ.inj paired
  have indexed : (rest.zip later).map (fun mark => mark.1.toNat) = rest.map UInt32.toNat := by
    rw [show (fun mark : UInt32 × UInt64 => mark.1.toNat) = UInt32.toNat ∘ Prod.fst from rfl,← List.map_map,
      List.map_fst_zip (Nat.le_of_eq equal)]
  have size : (steps 0 (rest.map UInt32.toNat)).sum = last.toNat := total
  have ran := eachInterval_some ops latencies (0,first) (rest.zip later)
  rw [indexed,show (((0 : UInt32),first)).1.toNat = 0 from rfl,size,Nat.zero_add] at ran
  obtain ⟨report,done,printed,after⟩ := ran ascending within
  refine ⟨{report with lines:=duplicateFirst first report.lines},?_,printed,?_,?_,?_⟩
  · simp [processResults,done]
  · rw [duplicateFirst_stats,eachInterval_lines done]
  · apply eachInterval_total done
    rwa [List.map_cons,List.map_fst_zip (Nat.le_of_eq equal)]
  · rwa [List.take_zero,List.nil_append] at after

-- The i-th interval reaches from entry low up to, but without, entry high.
structure Marks.Interval (marks : Marks) (i low high : Nat) : Prop where
  lower : (marks.indices.map UInt32.toNat)[i]? = some low
  upper : (marks.indices.map UInt32.toNat)[i + 1]? = some high

def segment (latencies : List α) (low high : Nat) : List α := (latencies.drop low).take (high - low)

omit [LinearOrder α] [Zero α] in
theorem interval_piece (rising : Marks.Rising marks last) (interval : marks.Interval i low high) (latencies : List α) :
    (chunks marks.sizes latencies)[i]? = some (segment latencies low high) := by
  have ascending := rising_ascending rising
  obtain ⟨lower,upper⟩ := interval
  rw [rising_split rising] at lower upper ascending
  have start : 0 + (marks.sizes.take i).sum = low := steps_take ascending lower
  obtain ⟨inside,size⟩ : ∃ inside : i < marks.sizes.length, marks.sizes[i] = high - low :=
    List.getElem?_eq_some_iff.mp (steps_get lower upper)
  rw [chunks_get inside,size,← start,Nat.zero_add]
  rfl

omit [LinearOrder α] [Zero α] in
theorem interval_size {latencies : List α} (rising : Marks.Rising marks last) (within : last.toNat ≤ latencies.length)
    (interval : marks.Interval i low high) : (segment latencies low high).length = high - low := by
  have lengths := chunks_lengths (Nat.le_trans (Nat.le_of_eq (sizes_sum rising)) within)
  have piece := interval_piece rising interval latencies
  obtain ⟨lower,upper⟩ := interval
  rw [rising_split rising] at lower upper
  have size : marks.sizes[i]? = some (high - low) := steps_get lower upper
  rw [← lengths,List.getElem?_map,piece] at size
  exact Option.some.inj size

-- What processResults owes its caller, for the samples below the last index.
structure Accounted (ops : Arithmetic α) (latencies : List α) (marks : Marks) (last : Nat) (report : Report α) : Prop where
  above : report.latencies.drop last = latencies.drop last
  below : (report.latencies.take last).Perm (latencies.take last)
  reads : ∀ other : List α, last ≤ other.length → other.take last = latencies.take last →
    ∃ same, processResults ops true other marks = some (true,same) ∧ same.printed = report.printed ∧
      same.latencies.take last = report.latencies.take last
  once : ∀ j < last, ∃! i, ∃ low high, marks.Interval i low high ∧ low ≤ j ∧ j < high
  total : (report.printed.map Statistics.count).sum = last
  written : report.lines.map Line.stats = report.printed.take 1 ++ report.printed
  each : ∀ i low high, marks.Interval i low high → ∃ stats, report.printed[i]? = some stats ∧ stats.count = high - low ∧
    segment report.latencies low high = (segment latencies low high).insertionSort (· ≤ ·) ∧
    (low < high → Quantiles (segment latencies low high) stats)

theorem interval_once (rising : Marks.Rising marks last) (below : j < last.toNat) :
    ∃! i, ∃ low high, marks.Interval i low high ∧ low ≤ j ∧ j < high := by
  have starts : (marks.indices.map UInt32.toNat).head? = some 0 := by rw [rising_split rising,List.head?_cons]
  have ends : (marks.indices.map UInt32.toNat).getLast? = some last.toNat := by
    rw [List.getLast?_map,rising.ends]
    rfl
  obtain ⟨i,⟨low,high,lower,upper,begins,stops⟩,only⟩ :=
    between_unique (rising_ascending rising) starts ends (Nat.zero_le j) below
  refine ⟨i,⟨low,high,⟨lower,upper⟩,begins,stops⟩,?_⟩
  rintro k ⟨low,high,⟨lower,upper⟩,begins,stops⟩
  exact only k ⟨low,high,lower,upper,begins,stops⟩

theorem summaries_total (ops : Arithmetic α) (rising : Marks.Rising marks last) {latencies : List α}
    (within : last.toNat ≤ latencies.length) :
    (((chunks marks.sizes latencies).map (summary ops)).map Statistics.count).sum = last.toNat := by
  have total := sizes_sum rising
  have lengths := chunks_lengths (Nat.le_trans (Nat.le_of_eq total) within)
  have counts : (chunks marks.sizes latencies).map (Statistics.count ∘ summary ops) = marks.sizes := by
    refine Eq.trans (List.map_congr_left fun piece _ => ?_) lengths
    exact summary_count ops piece
  rw [List.map_map,counts,total]

omit [Zero α] in
theorem sorted_sizes (rising : Marks.Rising marks last) {latencies : List α} (within : last.toNat ≤ latencies.length) :
    ((chunks marks.sizes latencies).map (List.insertionSort (· ≤ ·))).map List.length = marks.sizes := by
  have lengths := chunks_lengths (Nat.le_trans (Nat.le_of_eq (sizes_sum rising)) within)
  rw [List.map_map]
  refine Eq.trans (List.map_congr_left fun piece _ => ?_) lengths
  exact List.length_insertionSort (· ≤ ·) piece

theorem latencies_accounted (ops : Arithmetic α) {latencies : List α} (rising : Marks.Rising marks last)
    (within : last.toNat ≤ latencies.length) :
    ∃ report, processResults ops true latencies marks = some (true,report) ∧ report.totalEntries = last ∧
      Accounted ops latencies marks last.toNat report := by
  have total := sizes_sum rising
  have sizes := sorted_sizes rising within
  obtain ⟨report,ran,printed,written,entries,after⟩ := processResults_some ops rising within
  have front : ((chunks marks.sizes latencies).map (List.insertionSort (· ≤ ·))).flatten.length = last.toNat := by
    rw [List.length_flatten,sizes,total]
  have rejoined := chunks_rejoin ((chunks marks.sizes latencies).map (List.insertionSort (· ≤ ·))) (latencies.drop last.toNat)
  rw [sizes,← after] at rejoined
  refine ⟨report,ran,entries,?_,?_,?_,fun j below => interval_once rising below,?_,written,?_⟩
  · rw [after,List.drop_left' front]
  · rw [after,List.take_left' front,← total,← chunks_flatten]
    exact flatten_perm (List.perm_insertionSort (· ≤ ·)) _
  · intro other enough agree
    obtain ⟨same,again,alike,_,_,left⟩ := processResults_some ops rising enough
    have cut : chunks marks.sizes other = chunks marks.sizes latencies := by
      rw [← chunks_take,← chunks_take marks.sizes latencies,total,agree]
    refine ⟨same,again,?_,?_⟩
    · rw [alike,printed,cut]
    · rw [left,after,cut,List.take_left' front,List.take_left' front]
  · rw [printed]
    exact summaries_total ops rising within
  · intro i low high interval
    have piece := interval_piece rising interval latencies
    have size := interval_size rising within interval
    have moved := interval_piece rising interval report.latencies
    have count := summary_count ops (segment latencies low high)
    rw [rejoined,List.getElem?_map,piece] at moved
    refine ⟨summary ops (segment latencies low high),?_,?_,?_,?_⟩
    · rw [printed,List.getElem?_map,piece]
      rfl
    · rw [count,size]
    · exact (Option.some.inj moved).symm
    · intro below
      apply summary_quantiles
      rw [← List.length_pos_iff,size]
      omega

-- Averages and deviations of whole numbers, for an example with an empty interval.
def wholeNumbers : Arithmetic Nat where
  average := fun xs => xs.sum / xs.length
  stddev := fun xs average => Nat.sqrt ((xs.map fun x => (x - average + (average - x)) * (x - average + (average - x))).sum / xs.length)

def threeIntervals : Marks := ⟨[0,3,3,5],[1000,2000,3000,4000],rfl⟩

theorem latencies_accounted_example : threeIntervals.Rising 5 ∧
    ∃ report, processResults wholeNumbers true [5,1,4,9,2,7] threeIntervals = some (true,report) ∧ report.totalEntries = 5 ∧
      Accounted wholeNumbers [5,1,4,9,2,7] threeIntervals 5 report := by
  have rising : threeIntervals.Rising 5 := ⟨rfl,by decide,rfl⟩
  exact ⟨rising,latencies_accounted wholeNumbers rising (by decide)⟩

end DbosScheduler.Bench
