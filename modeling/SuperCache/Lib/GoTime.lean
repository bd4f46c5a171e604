import SuperCache.Lib.Bytes

/-! # Instants and durations

Go's `time.Time` as a number of nanoseconds since its zero value, January 1 of
year 1, so that `IsZero` is equality with `0`.  Durations are `int64`
nanoseconds: products wrap and `time.Until` saturates.
-/

namespace SuperCache.Lib

abbrev Time := Int

def unixToInternal : Int := 62135596800

/-- `time.Unix(seconds, 0)`. -/
def timeUnix (seconds : Int) : Time :=
  wrap64 (seconds + unixToInternal) * 1000000000

/-- `time.UnixMilli(ms)`; the sub-second part is never negative. -/
def timeUnixMilli (ms : Int) : Time :=
  wrap64 (ms / 1000 + unixToInternal) * 1000000000 + ms % 1000 * 1000000

/-- `t.UnixMilli()`. -/
def unixMilli (instant : Time) : Int :=
  wrap64 (wrap64 (instant / 1000000000 - unixToInternal) * 1000
    + instant % 1000000000 / 1000000)

/-- `time.Duration(n) * time.Second`. -/
def seconds (n : Int) : Int :=
  wrap64 (n * 1000000000)

/-- `time.Duration(n) * time.Millisecond`. -/
def milliseconds (n : Int) : Int :=
  wrap64 (n * 1000000)

/-- `time.Until(t)` at the instant `now`: the difference, saturated. -/
def untilTime (now instant : Time) : Int :=
  max minInt64 (min maxInt64 (instant - now))

theorem untilTime_pos {now instant : Time} (later : now < instant) : 0 < untilTime now instant := by
  have ahead : (0 : Int) < instant - now := Int.sub_pos.mpr later
  unfold untilTime minInt64 maxInt64
  omega

/-- `d.Milliseconds()`, truncated towards zero. -/
def inMilliseconds (duration : Int) : Int :=
  duration.tdiv 1000000

/-- `d / time.Second`, truncated towards zero. -/
def inSeconds (duration : Int) : Int :=
  duration.tdiv 1000000000

theorem inMilliseconds_untilTime {now instant : Time} (ahead : now ≤ instant) :
    inMilliseconds (untilTime now instant) = min ((instant - now) / 1000000) 9223372036854 := by
  have gap : (0 : Int) ≤ instant - now := Int.sub_nonneg.mpr ahead
  unfold untilTime inMilliseconds minInt64 maxInt64
  generalize (instant - now : Int) = left at gap ⊢
  rw [Int.tdiv_eq_ediv_of_nonneg (by omega)]
  omega

theorem inMilliseconds_nonpos {duration : Int} (past : duration ≤ 0) :
    inMilliseconds duration ≤ 0 := by
  unfold inMilliseconds
  have mirrored : 0 ≤ (-duration).tdiv 1000000 := Int.tdiv_nonneg (by omega) (by omega)
  rw [Int.neg_tdiv] at mirrored
  omega

theorem untilTime_nonpos {now instant : Time} (past : instant ≤ now) : untilTime now instant ≤ 0 := by
  have behind := Int.sub_nonpos_of_le past
  unfold untilTime minInt64 maxInt64
  omega

theorem milliseconds_eq {n : Int} (lower : 0 ≤ n) (upper : n ≤ 9223372036854) :
    milliseconds n = n * 1000000 := by
  unfold milliseconds
  refine wrap64_eq_self ⟨?_, ?_⟩
  · unfold minInt64
    omega
  · unfold maxInt64
    omega

end SuperCache.Lib
