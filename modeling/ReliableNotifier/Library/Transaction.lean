import ReliableNotifier.Library.Run

/-! # Transactions of a client

A session sees the committed state and, inside a transaction, a copy on which the statements
work. Any call can fail to get through, or be served with its reply lost. A program whose
statements perform a function on the copy and whose last call is a commit, framed by a begin
and a deferred rollback, performs that function on the committed state or leaves it alone. It
fails although it has performed the function only if the reply to its commit is lost.
-/

namespace Transaction

variable {σ α β ε ε' : Type}

structure Session (σ : Type) where
  stored : σ
  working : Option σ
  calls : Nat

def Session.counted (session : Session σ) : Session σ := { session with calls := session.calls + 1 }

def Session.ended (session : Session σ) : Session σ := { session with working := none, calls := session.calls + 1 }

/-- What becomes of a call: it is answered, it does not get through, or it is served and the client
does not hear of it. -/
inductive Fate (ε : Type) where
  | answered
  | down (err : ε)
  | unheard (err : ε)

/-- The fates of the calls, by their number, and the answer to a statement in a transaction that has
failed. -/
structure Server (ε : Type) where
  fate : Nat → Fate ε
  aborted : ε

/-- Every call is answered. -/
def Server.Up (server : Server ε) : Prop := ∀ n, server.fate n = .answered

/-- A program of the client returns or fails, and leaves its session in some state either way. -/
def Client (ε σ α : Type) := Session σ → Except ε α × Session σ

namespace Client

protected def pure (value : α) : Client ε σ α := fun session => (.ok value, session)

protected def bind (first : Client ε σ α) (rest : α → Client ε σ β) : Client ε σ β := fun session =>
  match first session with
  | (.ok value, next) => rest value next
  | (.error err, next) => (.error err, next)

instance : Monad (Client ε σ) where
  pure := Client.pure
  bind := Client.bind

def fail (err : ε) : Client ε σ α := fun session => (.error err, session)

def lift (result : Except ε α) : Client ε σ α := fun session => (result, session)

def check (condition : Bool) (err : ε) : Client ε σ Unit := lift (Checked.ensure condition err)

/-- `fmt.Errorf` with the error of a call inside. -/
def wrap (text : ε → ε') (body : Client ε σ α) : Client ε' σ α := fun session =>
  ((body session).1.mapError text, (body session).2)

/-- A call of the server. One that fails ends the transaction it is in, and so does the loss of the
connection that the reply should have come over. -/
def call (server : Server ε) (serve : Session σ → Except ε (α × Session σ)) : Client ε σ α := fun session =>
  match server.fate session.calls with
  | .down err => (.error err, session.ended)
  | .answered =>
    match serve session.counted with
    | .ok (value, next) => (.ok value, next)
    | .error err => (.error err, session.ended)
  | .unheard err =>
    match serve session.counted with
    | .ok (_, next) => (.error err, { next with working := none })
    | .error _ => (.error err, session.ended)

def begin (server : Server ε) : Client ε σ Unit :=
  call server fun session => .ok ((), { session with working := some session.stored })

def run (server : Server ε) (statement : σ → Except ε (α × σ)) : Client ε σ α :=
  call server fun session =>
    match session.working with
    | some s => (fun result => (result.1, { session with working := some result.2 })) <$> statement s
    | none => .error server.aborted

def exec (server : Server ε) (statement : σ → Except ε σ) : Client ε σ Unit :=
  run server fun s => (fun next => ((), next)) <$> statement s

def query (server : Server ε) (select : σ → Except ε α) : Client ε σ α :=
  run server fun s => (fun value => (value, s)) <$> select s

/-- The commit checks what was deferred to it. -/
def commit (server : Server ε) (deferred : σ → Except ε Unit) : Client ε σ Unit :=
  call server fun session =>
    match session.working with
    | some s => (fun _ => ((), { session with stored := s, working := none })) <$> deferred s
    | none => .error server.aborted

/-- A statement outside of any transaction that only reads. -/
def read (server : Server ε) (select : σ → Except ε α) : Client ε σ α :=
  call server fun session => (fun value => (value, session)) <$> select session.stored

/-- `defer tx.Rollback`. -/
def rollbackAfter (body : Client ε σ α) : Client ε σ α := fun session =>
  ((body session).1, { (body session).2 with working := none })

theorem bind_of_ok {first : Client ε σ α} {rest : α → Client ε σ β} {session next : Session σ} {value : α}
    (h : first session = (.ok value, next)) : (first >>= rest) session = rest value next := by
  change Client.bind first rest session = _
  rw [Client.bind, h]

theorem bind_of_error {first : Client ε σ α} {rest : α → Client ε σ β} {session next : Session σ} {err : ε}
    (h : first session = (.error err, next)) : (first >>= rest) session = (.error err, next) := by
  change Client.bind first rest session = _
  rw [Client.bind, h]

theorem wrap_of_ok {text : ε → ε'} {body : Client ε σ α} {session next : Session σ} {value : α}
    (h : body session = (.ok value, next)) : wrap text body session = (.ok value, next) := by
  rw [wrap, h]
  rfl

theorem wrap_of_error {text : ε → ε'} {body : Client ε σ α} {session next : Session σ} {err : ε}
    (h : body session = (.error err, next)) : wrap text body session = (.error (text err), next) := by
  rw [wrap, h]
  rfl

theorem call_cases (server : Server ε) (serve : Session σ → Except ε (α × Session σ)) (session : Session σ) :
    (∃ err, (server.Up → serve session.counted = .error err) ∧
      call server serve session = (.error err, session.ended)) ∨
    (∃ err value next, server.fate session.calls = .unheard err ∧ serve session.counted = .ok (value, next) ∧
      call server serve session = (.error err, { next with working := none })) ∨
    ∃ value next, serve session.counted = .ok (value, next) ∧ call server serve session = (.ok value, next) := by
  unfold call
  cases hFate : server.fate session.calls with
  | down err =>
    refine .inl ⟨err, fun hUp => ?_, rfl⟩
    cases hFate.symm.trans (hUp _)
  | answered =>
    rcases serve session.counted with err | ⟨value, next⟩
    · exact .inl ⟨err, fun _ => rfl, rfl⟩
    · exact .inr (.inr ⟨value, next, rfl, rfl⟩)
  | unheard err =>
    rcases serve session.counted with _ | ⟨value, next⟩
    · refine .inl ⟨err, fun hUp => ?_, rfl⟩
      cases hFate.symm.trans (hUp _)
    · exact .inr (.inl ⟨err, value, next, rfl, rfl, rfl⟩)

end Client

open Client

def transaction (server : Server ε) (onBegin : ε → ε') (body : Client ε' σ α) : Client ε' σ α := do
  wrap onBegin (begin server)
  rollbackAfter body

theorem Server.not_up {server : Server ε} {n : Nat} {err : ε} (h : server.fate n = .unheard err) : ¬server.Up := by
  intro hUp
  cases h.symm.trans (hUp n)

theorem read_cases (server : Server ε) (select : σ → Except ε α) (session : Session σ) :
    (∃ err next, (server.Up → select session.stored = .error err) ∧
      Client.read server select session = (.error err, next)) ∨
    ∃ value, select session.stored = .ok value ∧ Client.read server select session = (.ok value, session.counted) := by
  rcases call_cases server (fun session => (fun value => (value, session)) <$> select session.stored) session with
    ⟨err, hErr, hCall⟩ | ⟨err, _, _, hFate, _, hCall⟩ | ⟨value, next, hServe, hCall⟩
  · exact .inl ⟨err, _, fun hUp => Checked.map_error_iff.mp (hErr hUp), hCall⟩
  · exact .inl ⟨err, _, fun hUp => absurd hUp (Server.not_up hFate), hCall⟩
  · obtain ⟨_, hSelect, hPair⟩ := Checked.map_ok_iff.mp hServe
    cases hPair
    exact .inr ⟨value, hSelect, hCall⟩

/-! ## What a program performs -/

/-- Inside a transaction the program fails, or does to the copy what `f` does. Either way it leaves the committed
state alone. -/
def Performs (server : Server ε) (body : Client ε' σ α) (f : σ → Except ε' (α × σ)) : Prop :=
  ∀ session s, session.working = some s →
    (∃ err next, body session = (.error err, next) ∧ next.stored = session.stored ∧
      (server.Up → f s = .error err)) ∨
    ∃ value next copy, body session = (.ok value, next) ∧ next.stored = session.stored ∧
      next.working = some copy ∧ f s = .ok (value, copy)

/-- Inside a transaction the program fails and leaves the committed state alone, or commits what `f` does to the
copy. In the second case it fails as well if the reply to the commit is lost, with an error in `lost`. -/
def Commits (server : Server ε) (lost : ε' → Prop) (body : Client ε' σ α) (f : σ → Except ε' (α × σ)) : Prop :=
  ∀ session s, session.working = some s →
    (∃ err next, body session = (.error err, next) ∧ next.stored = session.stored ∧
      (server.Up → f s = .error err)) ∨
    (∃ err value next, body session = (.error err, next) ∧ lost err ∧ ¬server.Up ∧
      f s = .ok (value, next.stored)) ∨
    ∃ value next, body session = (.ok value, next) ∧ f s = .ok (value, next.stored)

variable {server : Server ε}

namespace Performs

variable {body : Client ε' σ α} {f : σ → Except ε' (α × σ)}

theorem lift (result : Except ε' α) :
    Performs server (Client.lift result : Client ε' σ α) fun s => (fun value => (value, s)) <$> result := by
  intro session s hWorking
  cases result with
  | error err => exact .inl ⟨err, session, rfl, rfl, fun _ => rfl⟩
  | ok value => exact .inr ⟨value, session, s, rfl, rfl, hWorking, rfl⟩

theorem wrap {ε'' : Type} (text : ε' → ε'') (hBody : Performs server body f) :
    Performs server (Client.wrap text body) fun s => (f s).mapError text := by
  intro session s hWorking
  beta_reduce
  rcases hBody session s hWorking with
    ⟨err, next, hOut, hStored, hRefused⟩ | ⟨value, next, copy, hOut, hStored, hCopy, hf⟩
  · refine .inl ⟨text err, next, wrap_of_error hOut, hStored, fun hUp => ?_⟩
    rw [hRefused hUp]
    rfl
  · refine .inr ⟨value, next, copy, wrap_of_ok hOut, hStored, hCopy, ?_⟩
    rw [hf]
    rfl

theorem run (server : Server ε) (statement : σ → Except ε (α × σ)) :
    Performs server (Client.run server statement) statement := by
  intro session s hWorking
  rcases call_cases server _ session with
    ⟨err, hErr, hCall⟩ | ⟨err, value, next, hFate, hServe, hCall⟩ | ⟨value, next, hServe, hCall⟩
  · rw [Session.counted, hWorking] at hErr
    exact .inl ⟨err, session.ended, hCall, rfl, fun hUp => Checked.map_error_iff.mp (hErr hUp)⟩
  -- the copy that the statement has worked on is gone with the connection
  · rw [Session.counted, hWorking] at hServe
    obtain ⟨_, _, hPair⟩ := Checked.map_ok_iff.mp hServe
    cases hPair
    exact .inl ⟨err, _, hCall, rfl, fun hUp => absurd hUp (Server.not_up hFate)⟩
  · rw [Session.counted, hWorking] at hServe
    obtain ⟨⟨answer, copy⟩, hStatement, hPair⟩ := Checked.map_ok_iff.mp hServe
    cases hPair
    exact .inr ⟨answer, _, copy, hCall, rfl, rfl, hStatement⟩

end Performs

namespace Commits

variable {lost : ε' → Prop}

theorem congr {body : Client ε' σ α} {f g : σ → Except ε' (α × σ)} (h : Commits server lost body f)
    (hSame : ∀ s, f s = g s) : Commits server lost body g := by
  rwa [← funext hSame]

theorem commit {text : ε → ε'} (deferred : σ → Except ε Unit) (value : α)
    (hLost : ∀ n err, server.fate n = .unheard err → lost (text err)) :
    Commits server lost (Client.wrap text (Client.commit server deferred) >>= fun _ => pure value)
      fun s => (fun _ => (value, s)) <$> (deferred s).mapError text := by
  intro session s hWorking
  beta_reduce
  rcases call_cases server _ session with
    ⟨err, hErr, hCall⟩ | ⟨err, _, next, hFate, hServe, hCall⟩ | ⟨_, next, hServe, hCall⟩
  · refine .inl ⟨text err, session.ended, bind_of_error (wrap_of_error hCall), rfl, fun hUp => ?_⟩
    rw [Session.counted, hWorking] at hErr
    rw [Checked.map_error_iff.mp (hErr hUp)]
    rfl
  · rw [Session.counted, hWorking] at hServe
    obtain ⟨_, hDeferred, hPair⟩ := Checked.map_ok_iff.mp hServe
    cases hPair
    refine .inr (.inl ⟨text err, value, _, bind_of_error (wrap_of_error hCall), hLost _ _ hFate,
      Server.not_up hFate, ?_⟩)
    rw [hDeferred]
    rfl
  · rw [Session.counted, hWorking] at hServe
    obtain ⟨_, hDeferred, hPair⟩ := Checked.map_ok_iff.mp hServe
    cases hPair
    refine .inr (.inr ⟨value, _, bind_of_ok (wrap_of_ok hCall), ?_⟩)
    rw [hDeferred]
    rfl

theorem bind {first : Client ε' σ α} {f : σ → Except ε' (α × σ)} {rest : α → Client ε' σ β}
    {g : α → σ → Except ε' (β × σ)} (hFirst : Performs server first f)
    (hRest : ∀ value, Commits server lost (rest value) (g value)) :
    Commits server lost (first >>= rest) fun s => f s >>= fun result => g result.1 result.2 := by
  intro session s hWorking
  beta_reduce
  rcases hFirst session s hWorking with
    ⟨err, next, hOut, hStored, hRefused⟩ | ⟨value, next, copy, hOut, hStored, hCopy, hf⟩
  · refine .inl ⟨err, next, bind_of_error hOut, hStored, fun hUp => ?_⟩
    rw [hRefused hUp]
    rfl
  -- the rest runs in the same transaction, so what it has to leave alone is what was there before the first step
  · rw [bind_of_ok hOut, hf, ← hStored]
    exact hRest value next copy hCopy

theorem exec_bind {text : ε → ε'} {statement : σ → Except ε σ} {rest : Client ε' σ β} {g : σ → Except ε' (β × σ)}
    (hRest : Commits server lost rest g) :
    Commits server lost (Client.wrap text (Client.exec server statement) >>= fun _ => rest)
      fun s => (statement s).mapError text >>= g :=
  (bind ((Performs.run server _).wrap text) fun _ => hRest).congr fun s => by cases statement s <;> rfl

theorem query_bind {text : ε → ε'} {select : σ → Except ε α} {rest : α → Client ε' σ β}
    {g : α → σ → Except ε' (β × σ)} (hRest : ∀ value, Commits server lost (rest value) (g value)) :
    Commits server lost (Client.wrap text (Client.query server select) >>= rest)
      fun s => (select s).mapError text >>= fun value => g value s :=
  (bind ((Performs.run server _).wrap text) hRest).congr fun s => by cases select s <;> rfl

theorem lift_bind {result : Except ε' α} {rest : α → Client ε' σ β} {g : α → σ → Except ε' (β × σ)}
    (hRest : ∀ value, Commits server lost (rest value) (g value)) :
    Commits server lost (Client.lift result >>= rest) fun s => result >>= fun value => g value s :=
  (bind (.lift result) hRest).congr fun s => by cases result <;> rfl

theorem check_bind {condition : Bool} {err : ε'} {rest : Client ε' σ β} {g : σ → Except ε' (β × σ)}
    (hRest : Commits server lost rest g) :
    Commits server lost (Client.check condition err >>= fun _ => rest)
      fun s => Checked.ensure condition err >>= fun _ => g s := lift_bind fun _ => hRest

end Commits

theorem begin_cases (server : Server ε) (session : Session σ) :
    (∃ err next, ¬server.Up ∧ begin server session = (.error err, next) ∧ next.stored = session.stored) ∨
    begin server session = (.ok (), { session.counted with working := some session.stored }) := by
  unfold begin
  rcases call_cases server (fun session => .ok ((), { session with working := some session.stored })) session with
    ⟨err, hErr, hCall⟩ | ⟨err, _, next, hFate, hServe, hCall⟩ | ⟨value, next, hServe, hCall⟩
  · refine .inl ⟨err, _, fun hUp => ?_, hCall, rfl⟩
    cases hErr hUp
  · cases hServe
    exact .inl ⟨err, _, Server.not_up hFate, hCall, rfl⟩
  · cases hServe
    exact .inr hCall

/-- A transaction does to the committed state what its body commits, or leaves that alone. Where every call is
answered it fails only as the function of its statements does. -/
theorem transaction_cases {lost : ε' → Prop} {body : Client ε' σ α} {f : σ → Except ε' (α × σ)}
    (h : Commits server lost body f) (onBegin : ε → ε') (session : Session σ) :
    (∃ err next, transaction server onBegin body session = (.error err, next) ∧ next.stored = session.stored ∧
      (server.Up → f session.stored = .error err)) ∨
    (∃ err value next, transaction server onBegin body session = (.error err, next) ∧ lost err ∧ ¬server.Up ∧
      f session.stored = .ok (value, next.stored)) ∨
    ∃ value next, transaction server onBegin body session = (.ok value, next) ∧
      f session.stored = .ok (value, next.stored) := by
  rcases begin_cases server session with ⟨err, next, hDown, hBegin, hStored⟩ | hBegin
  · exact .inl ⟨onBegin err, next, bind_of_error (wrap_of_error hBegin), hStored, fun hUp => absurd hUp hDown⟩
  · have hFrame : transaction server onBegin body session =
        rollbackAfter body { session.counted with working := some session.stored } := bind_of_ok (wrap_of_ok hBegin)
    rw [hFrame, rollbackAfter]
    rcases h { session.counted with working := some session.stored } session.stored rfl with
      ⟨err, next, hOut, hStored, hRefused⟩ | ⟨err, value, next, hOut, hLost, hDown, hf⟩ | ⟨value, next, hOut, hf⟩
    · rw [hOut]
      exact .inl ⟨err, _, rfl, hStored, hRefused⟩
    · rw [hOut]
      exact .inr (.inl ⟨err, value, _, rfl, hLost, hDown, hf⟩)
    · rw [hOut]
      exact .inr (.inr ⟨value, _, rfl, hf⟩)

end Transaction
