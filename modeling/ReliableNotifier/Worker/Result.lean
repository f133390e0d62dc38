import ReliableNotifier.Store.Operation

/-! # What a worker makes of a supplier response

The result of a send is classified against the destination version and turned into
the completion to commit. The worker's clock, its jitter and `http.ParseTime` are
parameters.
-/

namespace ReliableNotifier

/-- `outbound.Result`. -/
structure Result where
  statusCode : Int
  retryAfter : String
  deriving DecidableEq

/-- What `Worker.Process` asks of an error of the sender. -/
structure SendError where
  isPermanent : Bool
  isDeadlineExceeded : Bool
  deriving DecidableEq

def isSuccess (status : Int) (configured : Slice Int) : Bool :=
  if elements configured = [] then 200 ≤ status && status < 300
  else (elements configured).any fun expected => status = expected

def classify (status : Int) (sendErr : Option SendError) (destination : DestinationVersion) : ResultClass :=
  match sendErr with
  | some err => if err.isPermanent then .permanentFailure else .retryableFailure
  | none =>
    if isSuccess status destination.successStatuses then .succeeded
    else if (elements destination.retryStatuses).any fun configured => status = configured then .retryableFailure
    else if status = 408 || status = 425 || status = 429 || 500 ≤ status then .retryableFailure
    else .permanentFailure

def resultErrorCategory (status : Int) (err : Option SendError) : String :=
  match err with
  | some err => if err.isDeadlineExceeded then "timeout" else "network_or_request_error"
  | none => "http_" ++ toString status

def second : Duration := 1000000000

def hour : Duration := 3600 * second

/-- `unicode.IsSpace`. -/
def isSpace (c : Char) : Bool :=
  [0x09, 0x0A, 0x0B, 0x0C, 0x0D, 0x20, 0x85, 0xA0, 0x1680, 0x2028, 0x2029, 0x202F, 0x205F, 0x3000].contains c.toNat ||
  (0x2000 ≤ c.toNat && c.toNat ≤ 0x200A)

def trimSpace (raw : List Char) : List Char :=
  ((raw.dropWhile isSpace).reverse.dropWhile isSpace).reverse

def decimal (digits : List Char) : Option Nat :=
  if digits ≠ [] && digits.all fun c => '0' ≤ c && c ≤ '9' then
    some (digits.foldl (fun n c => 10 * n + (c.toNat - 48)) 0)
  else none

/-- `strconv.ParseInt(raw, 10, 64)`. -/
def parseInt (raw : List Char) : Option Int :=
  match raw with
  | '-' :: digits => (decimal digits).bind fun n => if n ≤ 2 ^ 63 then some (-n) else none
  | '+' :: digits => (decimal digits).bind fun n => if n < 2 ^ 63 then some n else none
  | digits => (decimal digits).bind fun n => if n < 2 ^ 63 then some n else none

def parseRetryAfter (parseTime : String → Option GoTime) (now : GoTime) (raw : String) : Option Duration :=
  let trimmed := trimSpace raw.toList
  if trimmed = [] then none
  else match parseInt trimmed with
    | some seconds =>
      if seconds < 0 then none
      else if 3600 < seconds then some hour
      else some (seconds * second)
    | none => (parseTime (String.ofList trimmed)).bind fun date =>
      if date ≤ now then none else some (min (date - now) hour)

def nextAttemptAt (parseTime : String → Option GoTime) (jitter : Duration → Duration) (now : GoTime)
    (generation : Nat) (retryAfter : String) : GoTime :=
  match parseRetryAfter parseTime now retryAfter with
  | some delay => now + delay
  | none => now + jitter (min (second * 2 ^ min generation 12) hour)

/-- The attempt a worker reports. An absent status code is reported as NULL. -/
def Delivery.attempt (task : Delivery) (startedAt finishedAt : GoTime) (result : Result)
    (errorCategory : String) : AttemptResult where
  deliveryID := task.id
  generation := task.generation
  leaseOwner := task.leaseOwner.getD ""
  leaseToken := task.leaseToken.getD 0
  responseStatus := if result.statusCode ≠ 0 then some result.statusCode else none
  errorCategory := errorCategory
  startedAt := startedAt
  finishedAt := finishedAt

/-- The completion that `Worker.Process` commits after a send. -/
def settle (parseTime : String → Option GoTime) (jitter : Duration → Duration) (task : Delivery)
    (destination : DestinationVersion) (startedAt finishedAt : GoTime) (result : Result)
    (err : Option SendError) : Completion × AttemptResult :=
  match classify result.statusCode err destination with
  | .succeeded => (.success, task.attempt startedAt finishedAt result "")
  | .permanentFailure =>
    (.permanent, task.attempt startedAt finishedAt result (resultErrorCategory result.statusCode err))
  | .retryableFailure =>
    let next := nextAttemptAt parseTime jitter finishedAt task.generation result.retryAfter
    if next < task.retryDeadline then
      (.retry next, task.attempt startedAt finishedAt result (resultErrorCategory result.statusCode err))
    else (.permanent, task.attempt startedAt finishedAt result "retry_deadline_exhausted")

section Settled

variable {parseTime : String → Option GoTime} {jitter : Duration → Duration} {task : Delivery}
  {destination : DestinationVersion} {startedAt finishedAt : GoTime} {result : Result} {err : Option SendError}

theorem classify_succeeded_iff {status : Int} :
    classify status err destination = .succeeded ↔
      err = none ∧ isSuccess status destination.successStatuses = true := by
  rcases err with _ | err
  · simp only [classify, true_and]
    split
    · simpa
    · rename_i hFailed
      refine iff_of_false ?_ hFailed
      split
      · simp
      · split <;> simp
  · simp only [classify, reduceCtorEq, false_and, iff_false]
    split <;> simp

/-- Whatever is committed is reported under the claim of the task. -/
theorem settle_lease :
    (settle parseTime jitter task destination startedAt finishedAt result err).2.deliveryID = task.id ∧
      (settle parseTime jitter task destination startedAt finishedAt result err).2.generation = task.generation ∧
      (settle parseTime jitter task destination startedAt finishedAt result err).2.leaseToken =
        task.leaseToken.getD 0 ∧
      (settle parseTime jitter task destination startedAt finishedAt result err).2.responseStatus =
        (if result.statusCode ≠ 0 then some result.statusCode else none) := by
  unfold settle
  split
  · exact ⟨rfl, rfl, rfl, rfl⟩
  · exact ⟨rfl, rfl, rfl, rfl⟩
  · dsimp only
    split <;> exact ⟨rfl, rfl, rfl, rfl⟩

theorem settle_times :
    (settle parseTime jitter task destination startedAt finishedAt result err).2.startedAt = startedAt ∧
      (settle parseTime jitter task destination startedAt finishedAt result err).2.finishedAt = finishedAt := by
  unfold settle
  split
  · exact ⟨rfl, rfl⟩
  · exact ⟨rfl, rfl⟩
  · dsimp only
    split <;> exact ⟨rfl, rfl⟩

theorem settle_success_iff :
    (settle parseTime jitter task destination startedAt finishedAt result err).1 = .success ↔
      err = none ∧ isSuccess result.statusCode destination.successStatuses = true := by
  rw [← classify_succeeded_iff]
  unfold settle
  split
  · simp_all
  · simp_all
  · dsimp only
    split <;> simp_all

end Settled

end ReliableNotifier
