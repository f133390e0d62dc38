import ReliableNotifier.Library.Resource
import ReliableNotifier.Rabbit.Topology
import ReliableNotifier.Wire.Signal

/-! # Connections and channels

`NewRabbitBroker`, `NewRabbitConsumer` and their `Close`, with the AMQP handles that they
open, use and close. The handles carry the number of the attempt that opened them. An
attempt that fails leaves nothing open.
-/

namespace ReliableNotifier.Runtime

open Amqp (Declaration)
open Resource Session

/-- A broker of signals has a connection and a channel, and so has a consumer besides the broker that it defers to. -/
inductive Role where
  | broker
  | consumer
  deriving DecidableEq

inductive Kind where
  | connection
  | channel
  deriving DecidableEq

structure Handle where
  attempt : Nat
  role : Role
  kind : Kind
  deriving DecidableEq

inductive Use where
  | declare (d : Declaration)
  | confirm
  | qos
  | consume
  | publish (signal : Signal)
  | defer (signal : Wire.Signal)
  | ack
  | nack (requeue : Bool)
  deriving DecidableEq

abbrev Trace := List (Event Handle Use)

/-- The handles of a role, in the order in which they are closed. -/
def Role.handles (role : Role) (n : Nat) : List Handle := [⟨n, role, .channel⟩, ⟨n, role, .connection⟩]

/-- The replies of the broker to the calls of one attempt. -/
structure Replies where
  dial : Role → Except String Unit
  channel : Role → Except String Unit
  declare : Declaration → Except String Unit
  confirm : Except String Unit
  qos : Except String Unit
  consume : Except String Unit

/-- The broker answers every call. -/
def Replies.willing : Replies := ⟨fun _ => .ok (), fun _ => .ok (), fun _ => .ok (), .ok (), .ok (), .ok ()⟩

/-- `RabbitBroker.Close`. An error of the first call does not keep it from the second one. -/
def closeBroker (n : Nat) : Trace → Trace := release (Role.handles .broker n)

/-- A consumer defers to a broker of its own. -/
def consumerHandles (n : Nat) : List Handle := Role.handles .broker n ++ Role.handles .consumer n

/-- `RabbitConsumer.Close` -/
def closeConsumer (n : Nat) : Trace → Trace := release (consumerHandles n)

def declareTopology (replies : Replies) (n : Nat) : Session Handle Use Unit :=
  Dispatch.declareTopology.forM fun step =>
    use step.1 (replies.declare step.2) ⟨n, .broker, .channel⟩ (.declare step.2)

def newRabbitBroker (replies : Replies) (n : Nat) : Session Handle Use Unit := do
  acquire "connect RabbitMQ" (replies.dial .broker) ⟨n, .broker, .connection⟩
  guarded [⟨n, .broker, .connection⟩] <|
    acquire "open RabbitMQ channel" (replies.channel .broker) ⟨n, .broker, .channel⟩
  guarded (Role.handles .broker n) do
    declareTopology replies n
    use "enable RabbitMQ publisher confirms" replies.confirm ⟨n, .broker, .channel⟩ .confirm

def newRabbitConsumer (replies : Replies) (n : Nat) : Session Handle Use Unit := do
  wrapped "create RabbitMQ deferral publisher" (newRabbitBroker replies n)
  guarded (Role.handles .broker n) <|
    acquire "connect RabbitMQ Worker" (replies.dial .consumer) ⟨n, .consumer, .connection⟩
  guarded (Role.handles .broker n ++ [⟨n, .consumer, .connection⟩]) <|
    acquire "open RabbitMQ Worker channel" (replies.channel .consumer) ⟨n, .consumer, .channel⟩
  guarded (consumerHandles n) do
    use "set Worker prefetch" replies.qos ⟨n, .consumer, .channel⟩ .qos
    use "consume dispatch queue" replies.consume ⟨n, .consumer, .channel⟩ .consume

/-! ## What an attempt leaves open -/

variable {n n' : Nat} {trace : Trace} {pool live : List Handle}

/-- No handle of an attempt from `n` on was opened yet. -/
abbrev Standing (n : Nat) : List Handle → List Handle → Trace → Prop := Stands fun h : Handle => h.attempt < n

theorem Standing.fresh (h : Standing n [] live trace) (hPool : ∀ h ∈ pool, h.attempt = n) :
    Standing (n + 1) pool live trace := by
  refine ⟨h.balance, fun x hMem hOpened => ?_, fun x hOpened => (h.opened x hOpened).trans (Nat.lt_succ_self n)⟩
  exact absurd (hPool x hMem) (h.opened x hOpened).ne

theorem acquire_triple {text : String} {reply : Except String Unit} {role : Role} {kind : Kind}
    (hNew : ⟨n, role, kind⟩ ∉ pool) :
    Triple (Standing (n + 1) (⟨n, role, kind⟩ :: pool) live) (acquire text reply ⟨n, role, kind⟩)
      (Standing (n + 1) pool (⟨n, role, kind⟩ :: live)) (Standing (n + 1) pool live) :=
  Triple.acquire (Nat.lt_succ_self n) hNew

theorem newRabbitBroker_triple (replies : Replies) (hPool : ∀ h ∈ pool, h.role = .consumer) :
    Triple (Standing (n + 1) (⟨n, .broker, .connection⟩ :: ⟨n, .broker, .channel⟩ :: pool) [])
      (newRabbitBroker replies n) (Standing (n + 1) pool (Role.handles .broker n)) (Standing (n + 1) [] []) := by
  have hNew : ⟨n, .broker, .channel⟩ ∉ pool := fun hMem => Role.noConfusion (hPool _ hMem)
  have hConnection : ⟨n, .broker, .connection⟩ ∉ ⟨n, .broker, .channel⟩ :: pool := by
    intro hMem
    rcases List.mem_cons.mp hMem with hSame | hRest
    · cases hSame
    · exact Role.noConfusion (hPool _ hRest)
  have hConnect : Triple (Standing (n + 1) (_ :: ⟨n, .broker, .channel⟩ :: pool) [])
      (acquire "connect RabbitMQ" (replies.dial .broker) ⟨n, .broker, .connection⟩)
      (Standing (n + 1) (⟨n, .broker, .channel⟩ :: pool) [⟨n, .broker, .connection⟩]) (Standing (n + 1) [] []) :=
    (acquire_triple hConnection).conseq (fun _ => id) fun _ => Stands.weaken
  have hChannel : Triple _ (guarded [⟨n, .broker, .connection⟩]
      (acquire "open RabbitMQ channel" (replies.channel .broker) ⟨n, .broker, .channel⟩))
      (Standing (n + 1) pool (Role.handles .broker n)) (Standing (n + 1) [] []) :=
    (acquire_triple hNew).closing (.refl _) (List.nodup_singleton _)
  have hTopology : Triple _ (declareTopology replies n) (Standing (n + 1) pool (Role.handles .broker n))
      (Standing (n + 1) pool (Role.handles .broker n)) :=
    .forM _ fun _ _ => .use List.mem_cons_self
  exact hConnect.seq (hChannel.seq ((hTopology.seq (.use List.mem_cons_self)).closing (.refl _)
    (by simp [Role.handles])))

/-- A consumer that was not made leaves no connection behind, and one that was holds two of them. -/
theorem newRabbitConsumer_triple (replies : Replies) :
    Triple (Standing (n + 1) ((Role.handles .broker n).reverse ++ (Role.handles .consumer n).reverse) [])
      (newRabbitConsumer replies n) (Standing (n + 1) [] (consumerHandles n)) (Standing (n + 1) [] []) := by
  have hBroker : Triple _ (newRabbitBroker replies n)
      (Standing (n + 1) [⟨n, .consumer, .connection⟩, ⟨n, .consumer, .channel⟩] (Role.handles .broker n))
      (Standing (n + 1) [] []) :=
    newRabbitBroker_triple replies (by simp)
  have hConnect : Triple _ (guarded (Role.handles .broker n)
      (acquire "connect RabbitMQ Worker" (replies.dial .consumer) ⟨n, .consumer, .connection⟩))
      (Standing (n + 1) [⟨n, .consumer, .channel⟩] (⟨n, .consumer, .connection⟩ :: Role.handles .broker n))
      (Standing (n + 1) [] []) :=
    (acquire_triple (by simp)).closing (.refl _) (by simp [Role.handles])
  have hLast : (Role.handles .broker n ++ [(⟨n, .consumer, .connection⟩ : Handle)]).Perm
      (⟨n, .consumer, .connection⟩ :: Role.handles .broker n) := List.perm_append_singleton _ _
  have hChannel : Triple _ (guarded (Role.handles .broker n ++ [⟨n, .consumer, .connection⟩])
      (acquire "open RabbitMQ Worker channel" (replies.channel .consumer) ⟨n, .consumer, .channel⟩))
      (Standing (n + 1) [] (Role.handles .consumer n ++ Role.handles .broker n)) (Standing (n + 1) [] []) :=
    (acquire_triple List.not_mem_nil).closing hLast.symm (by simp [Role.handles])
  have hUse {text : String} {reply : Except String Unit} {what : Use} :
      Triple _ (use text reply ⟨n, .consumer, .channel⟩ what)
        (Standing (n + 1) [] (Role.handles .consumer n ++ Role.handles .broker n))
        (Standing (n + 1) [] (Role.handles .consumer n ++ Role.handles .broker n)) :=
    .use List.mem_cons_self
  have hHandles : (Role.handles .consumer n ++ Role.handles .broker n).Perm (consumerHandles n) :=
    List.perm_append_comm
  have hAll : Triple _ (newRabbitConsumer replies n)
      (Standing (n + 1) [] (Role.handles .consumer n ++ Role.handles .broker n)) (Standing (n + 1) [] []) :=
    hBroker.wrapped.seq (hConnect.seq (hChannel.seq ((hUse.seq hUse).closing hHandles
      (by simp [consumerHandles, Role.handles]))))
  exact hAll.conseq (fun _ h => ⟨h.balance.perm hHandles, h.unopened, h.opened⟩) fun _ => id

theorem Standing.closeBroker (h : Standing n [] (Role.handles .broker n') trace) :
    Standing n [] [] (closeBroker n' trace) :=
  Stands.release h (.refl _) (by simp [Role.handles])

theorem Standing.closeConsumer (h : Standing n [] (consumerHandles n') trace) :
    Standing n [] [] (closeConsumer n' trace) :=
  Stands.release h (.refl _) (by simp [consumerHandles, Role.handles])

end ReliableNotifier.Runtime
