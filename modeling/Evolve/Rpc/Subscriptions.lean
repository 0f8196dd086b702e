import Mathlib
import Evolve.Lib.History
import Evolve.Rpc.LogStreams

/-! Subscriptions of the WebSocket server.  A request registers a subscription, waits for the
handshake and then starts a task that streams events to the client.  Nothing but an explicit call
removes a registration. -/

namespace Evolve.PubSub

open Machine Eth ChainIndex Grpc History

/-! ### The manager -/

inductive SubscriptionKind where
  | newHeads
  | logs
  | newPendingTransactions
  | syncing
deriving DecidableEq

structure Subscription where
  id : UInt64
  kind : SubscriptionKind
  params : Option LogSubscriptionParams

/-- The counter and the registered subscriptions; the channels of the manager are left to the
events that the streams receive. -/
structure SubscriptionManager where
  nextId : UInt64
  subscriptions : Relational.Table Subscription.id

variable (m : SubscriptionManager)

namespace SubscriptionManager

def new : SubscriptionManager := ⟨1, .empty⟩

def subscribe (kind : SubscriptionKind) (params : Option LogSubscriptionParams) :
    Subscription × SubscriptionManager :=
  let subscription : Subscription := ⟨m.nextId, kind, params⟩
  (subscription, ⟨m.nextId + 1, m.subscriptions.upsert subscription⟩)

def unsubscribe (id : UInt64) : Bool × SubscriptionManager :=
  ((m.subscriptions.find id).isSome,
    { m with subscriptions := m.subscriptions.delete fun subscription => subscription.id = id })

def get (id : UInt64) : Option Subscription := m.subscriptions.find id

def subscriptionCount : Nat := m.subscriptions.rows.length

end SubscriptionManager

/-! ### Requests -/

structure ErrorObject where
  code : Int
  message : String

def parseKind : String → Option SubscriptionKind
  | "newHeads" => some .newHeads
  | "logs" => some .logs
  | "newPendingTransactions" => some .newPendingTransactions
  | "syncing" => some .syncing
  | _ => none

/-- The parameters of a request for logs; those of other requests are not read. -/
def parseParams (kind : SubscriptionKind) (params : Option (Except String LogSubscriptionParams)) :
    Except ErrorObject (Option LogSubscriptionParams) :=
  if kind = .logs then
    match params with
    | none => .ok none
    | some (.ok params) => .ok (some params)
    | some (.error e) => .error ⟨-32602, "Invalid log filter params: " ++ e⟩
  else .ok none

/-- A request up to the handshake; the parameters come as the JSON library has read them. -/
def subscribe (kind : String) (params : Option (Except String LogSubscriptionParams)) :
    Except ErrorObject (Subscription × SubscriptionManager) := do
  let some subscriptionKind := parseKind kind
    | throw ⟨-32602, "Unknown subscription type: " ++ String.ofList (kind.toList.take 64)⟩
  let logParams ← parseParams subscriptionKind params
  return m.subscribe subscriptionKind logParams

/-! ### Streams -/

/-- Events that are published; only logs are looked into. -/
inductive SubscriptionEvent where
  | newHead
  | log (log : RpcLog)
  | pendingTransaction (hash : B256)
  | syncStatus

/-- What wakes up a stream: the client has closed, an event has arrived (with what comes of sending
it on), events were missed, or the channel is closed. -/
inductive Wakeup where
  | sinkClosed
  | received (event : SubscriptionEvent) (sent : Bool)
  | lagged (n : UInt64)
  | channelClosed

/-- One turn of a stream's loop: whether there is a next one. -/
def streamTurn (passes : SubscriptionEvent → Bool) : Wakeup → Bool
  | .sinkClosed => false
  | .received event sent => if passes event then sent else true
  | .lagged _ => true
  | .channelClosed => false

def streamNewHeads : Wakeup → Bool := streamTurn fun _ => true

def streamLogs (filter : Option LogSubscriptionParams) : Wakeup → Bool :=
  streamTurn fun
    | .log log => logMatchesFilter log filter
    | _ => true

def streamPendingTransactions : Wakeup → Bool := streamTurn fun _ => true

def streamSyncStatus : Wakeup → Bool := streamTurn fun _ => true

def Subscription.goesOn (subscription : Subscription) : Wakeup → Bool :=
  match subscription.kind with
  | .newHeads => streamNewHeads
  | .logs => streamLogs subscription.params
  | .newPendingTransactions => streamPendingTransactions
  | .syncing => streamSyncStatus

/-! ### Histories -/

/-- The manager, the requests that wait for their handshake, and the streams that are running. -/
structure Server where
  manager : SubscriptionManager
  pending : List Subscription
  streams : List Subscription

inductive Event where
  | request (kind : String) (params : Option (Except String LogSubscriptionParams))
  | accepted (i : Nat)
  | failed (i : Nat)
  | wakeup (i : Nat) (wakeup : Wakeup)
  | unsubscribe (id : UInt64)

namespace Server

def new : Server := ⟨.new, [], []⟩

def step (s : Server) : Event → Server
  | .request kind params =>
    match subscribe s.manager kind params with
    | .ok (subscription, manager) => { s with manager, pending := s.pending ++ [subscription] }
    | .error _ => s
  | .accepted i =>
    match s.pending[i]? with
    | some subscription =>
      { s with pending := s.pending.eraseIdx i, streams := s.streams ++ [subscription] }
    | none => s
  -- The error of the handshake is returned; the registration stays.
  | .failed i => { s with pending := s.pending.eraseIdx i }
  | .wakeup i wakeup =>
    match s.streams[i]? with
    | some subscription =>
      -- The task ends with its loop.
      if subscription.goesOn wakeup then s else { s with streams := s.streams.eraseIdx i }
    | none => s
  | .unsubscribe id => { s with manager := (s.manager.unsubscribe id).2 }

/-- The subscriptions whose handshake is pending or whose stream is running. -/
def live (s : Server) : List Subscription := s.pending ++ s.streams

/-- The subscription whose handshake fails or whose stream ends. -/
def ending (s : Server) : Event → Option Subscription
  | .failed i => s.pending[i]?
  | .wakeup i wakeup => s.streams[i]?.filter fun subscription => !subscription.goesOn wakeup
  | _ => none

/-- There are no more registrations than live subscriptions, and none is left of a subscription
that is not live any more. -/
structure Balanced (s : Server) : Prop where
  count : s.manager.subscriptionCount ≤ s.live.length
  removed : ∀ id, (s.manager.get id).isSome → ∃ subscription ∈ s.live, subscription.id = id

/-- If the event ends a subscription, its registration has been removed before, or (after `2 ^ 64`
requests) another live subscription has its number. -/
def RemovedBefore (s : Server) (event : Event) : Prop :=
  ∀ subscription, s.ending event = some subscription →
    s.manager.get subscription.id = none ∨
      1 < s.live.countP fun other => other.id = subscription.id

theorem subscribe_ok {m m' : SubscriptionManager} {kind : String}
    {params : Option (Except String LogSubscriptionParams)} {subscription : Subscription}
    (h : subscribe m kind params = .ok (subscription, m')) :
    m'.subscriptions = m.subscriptions.upsert subscription := by
  unfold subscribe at h
  cases hkind : parseKind kind with
  | none => simp [hkind, throw, throwThe, MonadExceptOf.throw] at h
  | some subscriptionKind =>
    simp only [hkind] at h
    cases hparams : parseParams subscriptionKind params with
    | error e => simp [hparams, bind, Except.bind] at h
    | ok logParams =>
      rw [hparams] at h
      cases h
      rfl

/-- What a step does: it ends a subscription and leaves the registrations alone, or registers a new
one, or changes neither the live subscriptions nor adds to the registrations. -/
theorem step_cases (s : Server) (event : Event) :
    (∃ subscription, s.ending event = some subscription ∧
      (s.step event).manager = s.manager ∧ s.live.Perm (subscription :: (s.step event).live)) ∨
    (s.ending event = none ∧ ∃ subscription,
      (s.step event).manager.subscriptions = s.manager.subscriptions.upsert subscription ∧
        (s.step event).live.Perm (subscription :: s.live)) ∨
    (s.ending event = none ∧ (s.step event).live.Perm s.live ∧
      ∀ id, ((s.step event).manager.get id).isSome → (s.manager.get id).isSome) := by
  cases event with
  | request kind params =>
    cases hrequest : subscribe s.manager kind params with
    | error e =>
      refine .inr (.inr ⟨rfl, ?_⟩)
      simp only [step, hrequest]
      exact ⟨.refl _, fun id h => h⟩
    | ok result =>
      obtain ⟨subscription, manager⟩ := result
      refine .inr (.inl ⟨rfl, subscription, ?_⟩)
      simp only [step, hrequest, live, List.append_assoc, List.singleton_append]
      exact ⟨subscribe_ok hrequest, List.perm_middle⟩
  | accepted i =>
    refine .inr (.inr ⟨rfl, ?_⟩)
    simp only [step]
    split <;> rename_i hi
    · refine ⟨?_, fun id h => h⟩
      have hmoved : (s.pending.eraseIdx i ++ (s.streams ++ [_])).Perm (s.pending ++ s.streams) :=
        (List.append_assoc .. ▸ List.perm_append_singleton _ _).trans
          ((Lists.perm_eraseIdx hi).symm.append_right s.streams)
      exact hmoved
    · exact ⟨.refl _, fun id h => h⟩
  | failed i =>
    cases hi : s.pending[i]? with
    | some subscription =>
      exact .inl ⟨subscription, hi, rfl, (Lists.perm_eraseIdx hi).append_right s.streams⟩
    | none =>
      refine .inr (.inr ⟨hi, ?_, fun id h => h⟩)
      simp only [step, List.eraseIdx_of_length_le (List.getElem?_eq_none_iff.mp hi)]
      exact .refl _
  | wakeup i wakeup =>
    cases hi : s.streams[i]? with
    | some subscription =>
      cases hturn : subscription.goesOn wakeup with
      | true =>
        refine .inr (.inr ⟨by simp [ending, hi, hturn], ?_⟩)
        simp only [step, hi, hturn, if_true]
        exact ⟨.refl _, fun id h => h⟩
      | false =>
        refine .inl ⟨subscription, by simp [ending, hi, hturn], ?_⟩
        simp only [step, hi, hturn, Bool.false_eq_true, if_false]
        exact ⟨trivial, ((Lists.perm_eraseIdx hi).append_left s.pending).trans List.perm_middle⟩
    | none =>
      refine .inr (.inr ⟨by simp [ending, hi], ?_⟩)
      simp only [step, hi]
      exact ⟨.refl _, fun id h => h⟩
  | unsubscribe id =>
    refine .inr (.inr ⟨rfl, .refl _, fun other h => ?_⟩)
    obtain ⟨subscription, hfind⟩ := Option.isSome_iff_exists.mp h
    obtain ⟨hmem, hid⟩ := Relational.Table.find_eq_some_iff.mp hfind
    exact Option.isSome_iff_exists.mpr ⟨subscription,
      Relational.Table.find_eq_some_iff.mpr ⟨(Relational.Table.mem_delete.mp hmem).1, hid⟩⟩

/-- Numbers are registered once, so it is enough that each belongs to a live subscription. -/
theorem balanced_iff {s : Server} : s.Balanced ↔
    ∀ id, (s.manager.get id).isSome → ∃ subscription ∈ s.live, subscription.id = id := by
  refine ⟨Balanced.removed, fun h => ⟨?_, h⟩⟩
  have hsubset : s.manager.subscriptions.rows.map Subscription.id ⊆
      s.live.map Subscription.id := by
    intro id hid
    obtain ⟨subscription, hmem, hid⟩ := List.mem_map.mp hid
    have hfind := Relational.Table.find_eq_some_iff.mpr ⟨hmem, hid⟩
    exact List.mem_map.mpr (h id (Option.isSome_iff_exists.mpr ⟨_, hfind⟩))
  have hcount := (List.subperm_of_subset s.manager.subscriptions.unique hsubset).length_le
  rwa [List.length_map, List.length_map] at hcount

theorem balanced_new : new.Balanced := balanced_iff.mpr fun id h => by
  cases h

theorem isSome_get_upsert {m m' : SubscriptionManager} {subscription : Subscription} {id : UInt64}
    (hm' : m'.subscriptions = m.subscriptions.upsert subscription) (h : (m'.get id).isSome) :
    (m.get id).isSome ∨ subscription.id = id := by
  obtain ⟨found, hfind⟩ := Option.isSome_iff_exists.mp h
  unfold SubscriptionManager.get at hfind
  rw [hm'] at hfind
  obtain ⟨hmem, hid⟩ := Relational.Table.find_eq_some_iff.mp hfind
  rcases Relational.Table.mem_upsert.mp hmem with ⟨hold, -⟩ | rfl
  · exact .inl (Option.isSome_iff_exists.mpr
      ⟨found, Relational.Table.find_eq_some_iff.mpr ⟨hold, hid⟩⟩)
  · exact .inr hid

theorem balanced_step_iff (s : Server) (event : Event) (h : s.Balanced) :
    (s.step event).Balanced ↔ s.RemovedBefore event := by
  rw [balanced_iff]
  rcases s.step_cases event with ⟨subscription, hends, hmanager, hlive⟩ |
    ⟨hgoes, subscription, hmanager, hlive⟩ | ⟨hgoes, hlive, hmanager⟩
  · have hafter : (∃ other ∈ (s.step event).live, other.id = subscription.id) ↔
        1 < s.live.countP fun other => other.id = subscription.id := by
      rw [hlive.countP_eq, List.countP_cons_of_pos (by simp), Nat.lt_add_left_iff_pos,
        List.countP_pos_iff]
      simp
    unfold RemovedBefore
    rw [hends, hmanager]
    constructor
    · rintro hbalanced _ ⟨⟩
      rw [← hafter, or_iff_not_imp_left]
      exact fun hregistered => hbalanced _ (Option.isSome_iff_ne_none.mpr hregistered)
    · intro hremoved id hid
      obtain ⟨other, hother, hsame⟩ := h.removed id hid
      rcases List.mem_cons.mp (hlive.mem_iff.mp hother) with rfl | hstays
      · rcases hremoved other rfl with hnone | htwo
        · rw [hsame] at hnone
          rw [hnone] at hid
          cases hid
        · obtain ⟨another, hanother, hid⟩ := hafter.mpr htwo
          exact ⟨another, hanother, hid.trans hsame⟩
      · exact ⟨other, hstays, hsame⟩
  · have hnothing : s.RemovedBefore event := fun other hother => nomatch hgoes.symm.trans hother
    refine iff_of_true (fun id hid => ?_) hnothing
    rcases isSome_get_upsert hmanager hid with hold | hnew
    · obtain ⟨other, hother, hsame⟩ := h.removed id hold
      exact ⟨other, hlive.mem_iff.mpr (List.mem_cons_of_mem _ hother), hsame⟩
    · exact ⟨subscription, hlive.mem_iff.mpr (List.mem_cons_self ..), hnew⟩
  · have hnothing : s.RemovedBefore event := fun other hother => nomatch hgoes.symm.trans hother
    refine iff_of_true (fun id hid => ?_) hnothing
    obtain ⟨other, hother, hsame⟩ := h.removed id (hmanager id hid)
    exact ⟨other, hlive.mem_iff.mpr hother, hsame⟩

/-- At all times of a history there are no more registrations than live subscriptions and none of an
ended one, if and only if each handshake that fails and each stream that ends finds its registration
removed already. -/
theorem balanced_iff_removedBefore (history : List Event) :
    AtAllTimes step Balanced new history ↔ EveryEvent step RemovedBefore new history :=
  atAllTimes_iff balanced_step_iff balanced_new

/-- A client that is accepted and closes. -/
def closedClient : Server :=
  [.request "newHeads" none, .accepted 0, .wakeup 0 .sinkClosed].foldl step new

/-- A client whose handshake fails. -/
def refusedClient : Server := [.request "newHeads" none, .failed 0].foldl step new

/-- A registration is left of which nothing is live. -/
theorem registration_left :
    closedClient.manager.subscriptionCount = 1 ∧ closedClient.live.length = 0 ∧
      refusedClient.manager.subscriptionCount = 1 ∧ refusedClient.live.length = 0 := by
  decide

end Server

end Evolve.PubSub
