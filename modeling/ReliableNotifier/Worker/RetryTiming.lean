import ReliableNotifier.Api.Canonical
import ReliableNotifier.Library.GoInt

/-! # When the next attempt is due

`Worker.nextAttemptAt` over the bytes of a `Retry-After` header and over `int64`. No header and
no generation makes its arithmetic overflow, and the delay is between nothing and an hour. A
number of seconds is taken as it is, up to an hour, as long as an `int64` can hold it; a
larger one is not read as a number, and the backoff decides.
-/

namespace ReliableNotifier.Raw

open GoInt GoStrings Json

/-- The jitter of a worker that finds this reading on its clock. -/
def clockJitter (unixNano : Int) (maximum : Duration) : Duration :=
  if maximum ≤ 0 then 0 else unixNano.tmod maximum

/-- `strconv.ParseInt` in base ten and 64 bits. -/
def parseInt : Bytes → Option Int
  | 43 :: digits => (natural digits).bind fun n => if n < 2 ^ 63 then some (n : Int) else none
  | raw => parseInt64 raw

section Timing

variable (result : Int → Option Int) (parseTime : Bytes → Option GoTime)

/-- `parseRetryAfter`. The product is made of a result of `int64` arithmetic, and the difference of two times stops at
the bounds of a `Duration`. -/
def parseRetryAfter (now : GoTime) (raw : Bytes) : Option (Duration × Bool) := do
  let raw := trimSpace raw
  if raw = [] then return (0, false)
  else match parseInt raw with
    | some seconds =>
      if seconds < 0 then return (0, false)
      else if 3600 < seconds then return (hour, true)
      else do
        let delay ← result (seconds * second)
        return (delay, true)
    | none =>
      match parseTime raw with
      | none => return (0, false)
      | some date =>
        if date ≤ now then return (0, false)
        else if hour < saturate (date - now) then return (hour, true)
        else return (saturate (date - now), true)

/-- `nextAttemptAt`. There is no result if an operation has none. -/
def nextAttemptAt (jitter : Duration → Duration) (now : GoTime) (generation : Int) (retryAfter : Bytes) :
    Option GoTime := do
  let (delay, ok) ← parseRetryAfter result parseTime now retryAfter
  if ok then return now + delay
  else do
    let exponent := if 12 < generation then 12 else generation
    let factor ← shiftLeft result 1 exponent
    let maximum ← result (second * factor)
    let maximum := if hour < maximum then hour else maximum
    return now + jitter maximum

end Timing

/-! ## Without overflow -/

/-- The delay that a header asks for, in unbounded arithmetic. -/
def delayOf (parseTime : Bytes → Option GoTime) (now : GoTime) (raw : Bytes) : Option Duration :=
  if trimSpace raw = [] then none
  else match parseInt (trimSpace raw) with
    | some seconds => if seconds < 0 then none else some (min seconds 3600 * second)
    | none => (parseTime (trimSpace raw)).bind fun date => if date ≤ now then none else some (min (date - now) hour)

/-- The longest delay of the backoff. -/
def backoff (generation : Nat) : Duration := min (second * 2 ^ min generation 12) hour

variable {result : Int → Option Int} {parseTime : Bytes → Option GoTime} {jitter : Duration → Duration}
  {now : GoTime} {raw : Bytes}

theorem parseRetryAfter_eq (h : Keeps result) :
    parseRetryAfter result parseTime now raw =
      some ((delayOf parseTime now raw).elim (0, false) fun delay => (delay, true)) := by
  unfold parseRetryAfter delayOf
  dsimp only
  split
  · rfl
  · split
    · rename_i seconds _
      split
      · rfl
      · split
        · rename_i hLong
          rw [min_eq_right (Int.le_of_lt hLong)]
          rfl
        · rename_i hSign hShort
          have hFits : InRange (seconds * second) := by
            constructor <;> simp only [second] <;> omega
          rw [min_eq_left (Int.not_lt.mp hShort), h _ hFits]
          rfl
    · cases parseTime (trimSpace raw) with
      | none => rfl
      | some date =>
        by_cases hPast : date ≤ now
        · simp [hPast]
        · have hAhead : 0 ≤ date - now := Int.sub_nonneg_of_le (Int.le_of_lt (Int.not_le.mp hPast))
          have hMin : min (saturate (date - now)) hour = min (date - now) hour := min_saturate hAhead (by decide)
          simp only [hPast, if_false, Option.bind_some, ← hMin]
          split
          · rename_i hLong
            rw [min_eq_right (Int.le_of_lt hLong)]
            rfl
          · rename_i hShort
            rw [min_eq_left (Int.not_lt.mp hShort)]
            rfl

theorem backoff_fits {generation : Nat} :
    InRange (1 * 2 ^ min generation 12) ∧ InRange (second * (1 * 2 ^ min generation 12)) := by
  have hPow : (2 : Int) ^ min generation 12 ≤ 2 ^ 12 :=
    pow_le_pow_right₀ (by decide) (Nat.min_le_right _ _)
  have hPos : (0 : Int) < 2 ^ min generation 12 := pow_pos (by decide) _
  simp only [InRange, second]
  omega

/-- A header that asks for a delay is all that counts. -/
theorem nextAttemptAt_of_delay (h : Keeps result) {delay : Duration} (hDelay : delayOf parseTime now raw = some delay)
    (generation : Int) : nextAttemptAt result parseTime jitter now generation raw = some (now + delay) := by
  rw [nextAttemptAt, parseRetryAfter_eq h, hDelay]
  rfl

theorem nextAttemptAt_eq (h : Keeps result) (generation : Nat) :
    nextAttemptAt result parseTime jitter now generation raw =
      some ((delayOf parseTime now raw).elim (now + jitter (backoff generation)) fun delay => now + delay) := by
  cases hDelay : delayOf parseTime now raw with
  | some delay => exact nextAttemptAt_of_delay h hDelay generation
  | none =>
    have hExponent : (if (12 : Int) < generation then 12 else (generation : Int)) = (min generation 12 : Nat) := by
      split <;> omega
    have hMaximum : (if hour < second * (1 * 2 ^ min generation 12) then hour
        else second * (1 * 2 ^ min generation 12)) = backoff generation := by
      rw [backoff, one_mul]
      exact (min_def_lt _ _).symm.trans (min_comm _ _)
    rw [nextAttemptAt, parseRetryAfter_eq h, hDelay]
    simp only [Option.elim_none, Option.bind_eq_bind, Option.bind_some, hExponent, shiftLeft_eq h backoff_fits.1,
      h _ backoff_fits.2, hMaximum]
    rfl

/-! ## Bounds -/

/-- The header asks for a delay: it is a number of seconds that is not negative, or a date to come. -/
def Usable (parseTime : Bytes → Option GoTime) (now : GoTime) (raw : Bytes) : Prop :=
  trimSpace raw ≠ [] ∧
    ((∃ seconds, parseInt (trimSpace raw) = some seconds ∧ 0 ≤ seconds) ∨
      parseInt (trimSpace raw) = none ∧ ∃ date, parseTime (trimSpace raw) = some date ∧ now < date)

theorem usable_iff : Usable parseTime now raw ↔ ∃ delay, delayOf parseTime now raw = some delay := by
  unfold Usable delayOf
  split
  · simp [*]
  · split <;> simp [*, Option.bind_eq_some_iff]

theorem delayOf_bounds {delay : Duration} (h : delayOf parseTime now raw = some delay) : 0 ≤ delay ∧ delay ≤ hour := by
  unfold delayOf at h
  split at h
  · cases h
  · split at h
    · split at h
      · cases h
      · cases h
        rename_i hSign
        exact ⟨Int.mul_nonneg (le_min (Int.not_lt.mp hSign) (by decide)) (by decide),
          Int.mul_le_mul_of_nonneg_right (min_le_right _ _) (by decide)⟩
    · obtain ⟨date, _, hDate⟩ := Option.bind_eq_some_iff.mp h
      split at hDate
      · cases hDate
      · cases hDate
        rename_i hAhead
        exact ⟨le_min (Int.sub_nonneg_of_le (Int.le_of_lt (Int.not_le.mp hAhead))) (by decide), min_le_right _ _⟩

theorem backoff_eq (generation : Nat) : backoff generation = min (2 ^ generation) 3600 * second := by
  have hPower : min ((2 : Int) ^ min generation 12) 3600 = min (2 ^ generation) 3600 := by
    rcases Nat.le_total generation 12 with hSmall | hLarge
    · rw [Nat.min_eq_left hSmall]
    · have hPow : (2 : Int) ^ 12 ≤ 2 ^ generation := pow_le_pow_right₀ (by decide) hLarge
      rw [Nat.min_eq_right hLarge, min_eq_right (by decide), min_eq_right (Int.le_trans (by decide) hPow)]
  rw [← hPower, backoff, hour, Int.mul_comm second, min_mul_of_nonneg _ _ (by decide)]

theorem backoff_pos (generation : Nat) : 0 < backoff generation := by
  rw [backoff_eq]
  exact Int.mul_pos (lt_min (pow_pos (by decide) generation) (by decide)) (by decide)

theorem clockJitter_bounds {unixNano : Int} (h : 0 ≤ unixNano) (maximum : Duration) (hMaximum : 0 < maximum) :
    0 ≤ clockJitter unixNano maximum ∧ clockJitter unixNano maximum < maximum := by
  rw [clockJitter, if_neg (Int.not_le.mpr hMaximum)]
  exact ⟨Int.tmod_nonneg _ h, Int.tmod_lt_of_pos _ hMaximum⟩

/-- The next attempt is due within an hour, nothing overflows on the way, and a header that asks for nothing leaves the
delay to the backoff. -/
theorem nextAttemptAt_bounded {generation : Int} (hGeneration : 0 ≤ generation ∧ generation < 2 ^ 63)
    (hJitter : ∀ maximum, 0 < maximum → 0 ≤ jitter maximum ∧ jitter maximum < maximum) :
    ∃ next, nextAttemptAt wrapping parseTime jitter now generation raw = some next ∧
      nextAttemptAt checked parseTime jitter now generation raw = some next ∧
      now ≤ next ∧ next ≤ now + hour ∧
      (¬Usable parseTime now raw → next < now + min (2 ^ generation.toNat) 3600 * second) := by
  obtain ⟨n, rfl⟩ := Int.eq_ofNat_of_zero_le hGeneration.1
  refine ⟨_, nextAttemptAt_eq keeps_wrapping n, nextAttemptAt_eq keeps_checked n, ?_⟩
  rw [usable_iff]
  cases hDelay : delayOf parseTime now raw with
  | some delay =>
    obtain ⟨hLow, hHigh⟩ := delayOf_bounds hDelay
    exact ⟨Int.le_add_of_nonneg_right hLow, Int.add_le_add_left hHigh now, fun hNone => absurd ⟨delay, rfl⟩ hNone⟩
  | none =>
    obtain ⟨hLow, hHigh⟩ := hJitter (backoff n) (backoff_pos n)
    have hHour : jitter (backoff n) ≤ hour := Int.le_trans (Int.le_of_lt hHigh) (min_le_right _ _)
    refine ⟨Int.le_add_of_nonneg_right hLow, Int.add_le_add_left hHour now, fun _ => ?_⟩
    rw [Int.toNat_natCast, ← backoff_eq]
    exact Int.add_lt_add_left hHigh now

/-- A negative number is left aside, and the clock decides within the sixteen seconds of generation four. -/
theorem nextAttemptAt_bounded_negative :
    ∃ next, nextAttemptAt wrapping (fun _ => none) (clockJitter 1753315200123456789) 0 4 [32, 45, 53] = some next ∧
      0 ≤ next ∧ next < 16 * second := by
  have hUnusable : ¬Usable (fun _ => none) 0 [32, 45, 53] := by
    have hNone : delayOf (fun _ => none) 0 [32, 45, 53] = none := by decide +kernel
    simp [usable_iff, hNone]
  obtain ⟨next, hNext, _, hLow, _, hHigh⟩ := @nextAttemptAt_bounded (fun _ => none) (clockJitter 1753315200123456789) 0
    [32, 45, 53] 4 (by decide) (clockJitter_bounds (by decide))
  exact ⟨next, hNext, hLow, (hHigh hUnusable).trans_eq (by decide)⟩

/-! ## Numbers of seconds -/

/-- The header is this number in decimal, perhaps with zeros in front and white space around it. -/
def Writes (raw : Bytes) (n : Nat) : Prop :=
  ∃ front digits back, (∀ c ∈ front ++ back, ReliableNotifier.isSpace c = true) ∧ Digits digits ∧
    Json.decimal digits = n ∧ raw = utf8 front ++ digits ++ utf8 back

/-- The number decides alone, and an hour at most. -/
def Precise (parseTime : Bytes → Option GoTime) (now : GoTime) (raw : Bytes) (n : Nat) : Prop :=
  ∀ jitter generation, InRange generation →
    nextAttemptAt wrapping parseTime jitter now generation raw = some (now + min (n : Int) 3600 * second)

theorem isDigit_bounds {c : UInt8} (h : NumberState.isDigit c = true) : 48 ≤ c.toNat ∧ c.toNat ≤ 57 := by
  simp only [NumberState.isDigit, Bool.and_eq_true, decide_eq_true_eq, UInt8.le_iff_toNat_le] at h
  exact h

theorem trimSpace_of_writes {front back : List Char} {digits : Bytes}
    (hSpace : ∀ c ∈ front ++ back, ReliableNotifier.isSpace c = true) (hDigits : Digits digits) :
    trimSpace (utf8 front ++ digits ++ utf8 back) = digits := by
  have hText : utf8 (digits.map fun c => .ofNat c.toNat) = digits := by
    refine utf8_ascii fun c hc => UInt8.lt_iff_toNat_lt.mpr ?_
    exact Nat.lt_of_le_of_lt (isDigit_bounds (hDigits.2 c hc)).2 (by decide)
  have hKept (c : Char) (hc : c ∈ digits.map fun c => Char.ofNat c.toNat) : ReliableNotifier.isSpace c = false := by
    obtain ⟨b, hb, rfl⟩ := List.mem_map.mp hc
    obtain ⟨hLow, hHigh⟩ := isDigit_bounds (hDigits.2 b hb)
    refine isSpace_graphic ?_
    rw [toNat_ofNat (by omega)]
    omega
  obtain ⟨hFront, hBack⟩ := List.forall_mem_append.mp hSpace
  have hTrim := trimFunc_utf8_append hFront hBack hKept fun hEmpty => hDigits.1 (List.map_eq_nil_iff.mp hEmpty)
  rwa [utf8_append, utf8_append, hText] at hTrim

theorem parseInt_digits {digits : Bytes} (h : Digits digits) :
    parseInt digits = if Json.decimal digits < 2 ^ 63 then some (Json.decimal digits : Int) else none := by
  have hNatural := natural_eq_some_iff.mpr ⟨h, rfl⟩
  unfold parseInt
  split
  · exact absurd (h.2 43 List.mem_cons_self) (by decide)
  · unfold parseInt64
    split
    · exact absurd h Digits.ne_minus
    · rw [hNatural, Option.bind_some]

theorem delayOf_of_writes {n : Nat} (hRaw : Writes raw n) (hSmall : n < 2 ^ 63) :
    delayOf parseTime now raw = some (min (n : Int) 3600 * second) := by
  obtain ⟨front, digits, back, hSpace, hDigits, rfl, rfl⟩ := hRaw
  rw [delayOf, trimSpace_of_writes hSpace hDigits, if_neg hDigits.1, parseInt_digits hDigits, if_pos hSmall]
  exact if_neg (Int.not_lt.mpr (Int.natCast_nonneg _))

theorem delayOf_of_oversized (hDates : ∀ digits, Digits digits → parseTime digits = none) {n : Nat}
    (hRaw : Writes raw n) (hLarge : ¬n < 2 ^ 63) : delayOf parseTime now raw = none := by
  obtain ⟨front, digits, back, hSpace, hDigits, rfl, rfl⟩ := hRaw
  rw [delayOf, trimSpace_of_writes hSpace hDigits, if_neg hDigits.1, parseInt_digits hDigits, if_neg hLarge]
  exact Option.bind_eq_none_iff.mpr fun date hDate => absurd (hDate.symm.trans (hDates digits hDigits)) nofun

theorem precise_of_writes {n : Nat} (hRaw : Writes raw n) (hSmall : n < 2 ^ 63) : Precise parseTime now raw n := by
  intro jitter generation _
  exact nextAttemptAt_of_delay keeps_wrapping (delayOf_of_writes hRaw hSmall) generation

/-- A number of seconds takes precedence and is capped at an hour if and only if an `int64` holds it, and a larger one
then never makes the next attempt earlier. -/
theorem numeric_retryAfter_iff (hDates : ∀ digits, Digits digits → parseTime digits = none) {n : Nat}
    (hRaw : Writes raw n) :
    (Precise parseTime now raw n ↔ n < 2 ^ 63) ∧
      ∀ raw' m, Writes raw' m → n ≤ m → m < 2 ^ 63 → ∀ jitter jitter' generation generation',
        InRange generation → InRange generation' →
        ∃ next next', nextAttemptAt wrapping parseTime jitter now generation raw = some next ∧
          nextAttemptAt wrapping parseTime jitter' now generation' raw' = some next' ∧ next ≤ next' := by
  refine ⟨⟨fun hPrecise => ?_, precise_of_writes hRaw⟩, ?_⟩
  · by_contra hLarge
    -- a jitter of zero makes the next attempt due at once
    have hNext := hPrecise (fun _ => 0) (0 : Nat) (by decide)
    rw [nextAttemptAt_eq keeps_wrapping, delayOf_of_oversized hDates hRaw hLarge, Option.elim_none] at hNext
    have hSame : now + 0 = now + min (n : Int) 3600 * second := Option.some.inj hNext
    rw [min_eq_right (by omega), Int.add_right_inj] at hSame
    exact absurd hSame (by decide)
  · intro raw' m hRaw' hLess hSmall jitter jitter' generation generation' hRange hRange'
    refine ⟨_, _, precise_of_writes hRaw (Nat.lt_of_le_of_lt hLess hSmall) jitter generation hRange,
      precise_of_writes hRaw' hSmall jitter' generation' hRange', Int.add_le_add_left ?_ now⟩
    exact Int.mul_le_mul_of_nonneg_right (min_le_min_right _ (Int.ofNat_le.mpr hLess)) (by decide)

theorem writes_appendInt (n : Nat) : Writes (appendInt n) n := by
  refine ⟨[], appendInt n, [], List.forall_mem_nil _, ?_, ?_, (List.append_nil _).symm⟩
  · exact digits_toDigits n
  · exact decimal_toDigits n

/-- Two hours become one, whatever the generation and the jitter are. -/
theorem numeric_retryAfter_iff_hours :
    Writes (appendInt 7200) 7200 ∧ Precise (fun _ => none) 0 (appendInt 7200) 7200 :=
  ⟨writes_appendInt 7200,
    (numeric_retryAfter_iff (fun _ _ => rfl) (writes_appendInt 7200)).1.mpr (by decide)⟩

/-- The first number that no `int64` holds is passed over. The next attempt is then due earlier than for a second. -/
theorem oversized_retryAfter_ignored :
    Writes (appendInt 9223372036854775808) 9223372036854775808 ∧
      ¬Precise (fun _ => none) 0 (appendInt 9223372036854775808) 9223372036854775808 ∧
      nextAttemptAt wrapping (fun _ => none) (fun _ => 0) 0 1 (appendInt 9223372036854775808) = some 0 ∧
      nextAttemptAt wrapping (fun _ => none) (fun _ => 0) 0 1 (appendInt 1) = some second := by
  have hNext : nextAttemptAt wrapping (fun _ => none) (fun _ => 0) 0 1 (appendInt 9223372036854775808) = some 0 := by
    decide +kernel
  refine ⟨writes_appendInt 9223372036854775808, fun hPrecise => ?_, hNext, by decide +kernel⟩
  have hHour := hPrecise (fun _ => 0) 1 (by decide)
  exact absurd (hNext.symm.trans hHour) (by decide)

/-! ## On texts -/

theorem isDigit_high {c : UInt8} (hc : 0x80 ≤ c) : NumberState.isDigit c = false := by
  have hHigh : 0x80 ≤ c.toNat := UInt8.le_iff_toNat_le.mp hc
  refine Bool.eq_false_iff.mpr fun hDigit => ?_
  have hLow := (isDigit_bounds hDigit).2
  omega

theorem all_isDigit_encodeRune (c : Char) :
    (encodeRune c.toNat).all NumberState.isDigit = ('0' ≤ c && c ≤ '9') := by
  rw [(encodeRune_all (fun _ hc => isDigit_high hc) c).2.2, Bool.eq_iff_iff]
  simp only [NumberState.isDigit, Bool.and_eq_true, decide_eq_true_eq, UInt8.le_iff_toNat_le, UInt8.toNat_ofNat']
  change c.toNat < 128 ∧ 48 ≤ c.toNat % 256 ∧ c.toNat % 256 ≤ 57 ↔ 48 ≤ c.toNat ∧ c.toNat ≤ 57
  omega

theorem digits_utf8_iff {text : List Char} :
    Digits (utf8 text) ↔ text ≠ [] ∧ ∀ c ∈ text, ('0' ≤ c && c ≤ '9') = true := by
  have hEmpty : utf8 text = [] ↔ text = [] := ⟨fun h => utf8_injective h, fun h => h ▸ rfl⟩
  have hAll : (∀ b ∈ utf8 text, NumberState.isDigit b = true) ↔
      ∀ c ∈ text, (encodeRune c.toNat).all NumberState.isDigit = true := by
    simp only [utf8, List.mem_flatMap, List.all_eq_true]
    constructor
    · intro h c hc b hb
      exact h b ⟨c, hc, hb⟩
    · rintro h b ⟨c, hc, hb⟩
      exact h c hc b hb
  simp only [Digits, ne_eq, hEmpty, hAll, all_isDigit_encodeRune]

theorem decimal_utf8 {text : List Char} (h : ∀ c ∈ text, ('0' ≤ c && c ≤ '9') = true) :
    Json.decimal (utf8 text) = text.foldl (fun n c => 10 * n + (c.toNat - 48)) 0 := by
  rw [Json.decimal]
  generalize 0 = n
  induction text generalizing n with
  | nil => rfl
  | cons c rest ih =>
    obtain ⟨hDigit, hRest⟩ := List.forall_mem_cons.mp h
    have hBound : c.toNat ≤ 57 := of_decide_eq_true (Bool.and_eq_true_iff.mp hDigit).2
    have hValue : (UInt8.ofNat c.toNat).toNat = c.toNat :=
      UInt8.toNat_ofNat_of_lt (Nat.lt_of_le_of_lt hBound (by decide))
    rw [utf8, List.flatMap_cons, encodeRune_ascii (by omega), List.singleton_append, List.foldl_cons, List.foldl_cons,
      hValue, ← utf8, ih hRest]

theorem natural_utf8 (text : List Char) : natural (utf8 text) = ReliableNotifier.decimal text := by
  unfold natural ReliableNotifier.decimal
  by_cases hDigits : Digits (utf8 text)
  · obtain ⟨hSome, hAll⟩ := digits_utf8_iff.mp hDigits
    rw [if_pos hDigits, decimal_utf8 hAll, if_pos]
    simp [hSome, List.all_eq_true.mpr hAll]
  · rw [if_neg hDigits, if_neg]
    simpa [digits_utf8_iff] using hDigits

theorem parseInt_utf8 (text : List Char) : parseInt (utf8 text) = ReliableNotifier.parseInt text := by
  unfold ReliableNotifier.parseInt
  split
  · rename_i digits
    change parseInt (45 :: utf8 digits) = _
    rw [← natural_utf8]
    rfl
  · rename_i digits
    change parseInt (43 :: utf8 digits) = _
    rw [← natural_utf8]
    rfl
  · rename_i hMinus hPlus
    rw [← natural_utf8, parseInt]
    · refine parseInt64.eq_2 _ fun digits hText => ?_
      obtain ⟨more, rfl⟩ := exists_of_utf8_eq_cons (by decide) hText
      exact hMinus more rfl
    · intro digits hText
      obtain ⟨more, rfl⟩ := exists_of_utf8_eq_cons (by decide) hText
      exact hPlus more rfl

section Texts

variable {parseDate : String → Option GoTime} (hDates : ∀ s, parseTime (encode s) = parseDate s)
include hDates

theorem delayOf_encode (s : String) :
    delayOf parseTime now (encode s) = ReliableNotifier.parseRetryAfter parseDate now s := by
  have hEmpty : encode (trimmed s) = [] ↔ ReliableNotifier.trimSpace s.toList = [] := by
    rw [encode, trimmed, String.toList_ofList]
    exact ⟨fun h => utf8_injective h, fun h => h ▸ rfl⟩
  have hParse : parseInt (encode (trimmed s)) = ReliableNotifier.parseInt (ReliableNotifier.trimSpace s.toList) := by
    rw [encode, trimmed, String.toList_ofList, parseInt_utf8]
  rw [delayOf, ReliableNotifier.parseRetryAfter, trimSpace_encode, hParse, hDates]
  simp only [hEmpty]
  cases ReliableNotifier.parseInt (ReliableNotifier.trimSpace s.toList) with
  | none => rfl
  | some seconds =>
    have hCapped : (if 3600 < seconds then some hour else some (seconds * second)) =
        some (min seconds 3600 * second) := by
      split
      · rename_i hLong
        rw [min_eq_right (Int.le_of_lt hLong), hour]
      · rename_i hShort
        rw [min_eq_left (Int.not_lt.mp hShort)]
    simp only [hCapped]

/-- On texts the function over bytes and `int64` is the function over texts and integers. -/
theorem nextAttemptAt_encode (generation : Nat) (s : String) :
    nextAttemptAt wrapping parseTime jitter now generation (encode s) =
      some (ReliableNotifier.nextAttemptAt parseDate jitter now generation s) := by
  rw [nextAttemptAt_eq keeps_wrapping, delayOf_encode hDates, ReliableNotifier.nextAttemptAt]
  cases ReliableNotifier.parseRetryAfter parseDate now s <;> rfl

end Texts

end ReliableNotifier.Raw
