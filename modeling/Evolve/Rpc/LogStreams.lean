import Mathlib
import Evolve.Rpc.Logs

/-! Log filters of gRPC requests.  They reach a log by three ways: converted for `get_logs`, applied
by the log stream itself, and converted for a subscription.  Entries that are not as long as an
address or a hash are left out by all of them. -/

namespace Evolve.Grpc

open Machine Eth Effects ChainIndex

/-! ### Messages -/

namespace Proto

structure H256 where
  data : Bytes

structure Address where
  data : Bytes

/-- A block by its number, or by the number of its tag. -/
inductive BlockId.Id where
  | number (n : UInt64)
  | tag (t : Int32)

structure BlockId where
  id : Option BlockId.Id

structure TopicFilter where
  topics : List H256

structure LogFilter where
  fromBlock : Option BlockId
  toBlock : Option BlockId
  addresses : List Address
  topics : List TopicFilter
  blockHash : Option H256

structure SubscribeLogsRequest where
  addresses : List Address
  topics : List TopicFilter

structure Log where
  address : Option Address
  topics : List H256
  data : Bytes
  blockNumber : Option UInt64
  transactionHash : Option H256
  transactionIndex : Option UInt64
  blockHash : Option H256
  logIndex : Option UInt64
  removed : Bool

end Proto

/-! ### Conversion -/

/-- Bytes of exactly the right length. -/
def fixedOfBytes (n : Nat) (data : Bytes) : Option (FixedBytes n) :=
  if h : data.length = n then some ⟨data, h⟩ else none

def b256ToProto (value : B256) : Proto.H256 := ⟨value.bytes⟩

def protoToB256 (value : Proto.H256) : Option B256 := fixedOfBytes 32 value.data

def addressToProto (value : Address) : Proto.Address := ⟨value.bytes⟩

def protoToAddress (value : Proto.Address) : Option Address := fixedOfBytes 20 value.data

def protoToBlockId (value : Proto.BlockId) : Option BlockNumberOrTag :=
  value.id.map fun
    | .number n => .number n
    | .tag 1 => .tag .latest
    | .tag 2 => .tag .earliest
    | .tag 3 => .tag .pending
    | .tag 4 => .tag .safe
    | .tag 5 => .tag .finalized
    | .tag _ => .tag .latest

def rpcLogToProto (log : RpcLog) : Proto.Log where
  address := some (addressToProto log.address)
  topics := log.topics.map b256ToProto
  data := log.data
  blockNumber := log.blockNumber
  transactionHash := log.transactionHash.map b256ToProto
  transactionIndex := log.transactionIndex
  blockHash := log.blockHash.map b256ToProto
  logIndex := log.logIndex
  removed := log.removed

/-- A filter for a list of entries: none if the list is empty or none of its entries is valid. -/
def filterOfEntries {α β γ : Type} (parse : α → Option β) (single : β → γ)
    (multiple : List β → γ) : List α → Option γ
  | [] => none
  | [entry] => (parse entry).map single
  | entries =>
    if (entries.filterMap parse).isEmpty then none else some (multiple (entries.filterMap parse))

def addressFilter : List Proto.Address → Option FilterAddress :=
  filterOfEntries protoToAddress .single .multiple

def topicFilter (filter : Proto.TopicFilter) : Option FilterTopic :=
  filterOfEntries protoToB256 .single .multiple filter.topics

def protoToLogFilter (filter : Proto.LogFilter) : LogFilter where
  fromBlock := filter.fromBlock.bind protoToBlockId
  toBlock := filter.toBlock.bind protoToBlockId
  address := addressFilter filter.addresses
  topics := if filter.topics.isEmpty then none else some (filter.topics.map topicFilter)
  blockHash := filter.blockHash.bind protoToB256

/-! ### Streams -/

/-- The loop over the topics of a stream, from position `i` on. -/
def streamTopics (log : RpcLog) : Nat → List (List B256) → Bool
  | _, [] => true
  | i, filterTopics :: rest =>
    if filterTopics.isEmpty then streamTopics log (i + 1) rest
    else
      match log.topics[i]? with
      | some logTopic =>
        if filterTopics.contains logTopic then streamTopics log (i + 1) rest else false
      | none => false

/-- What the stream yields for a published log. -/
def subscribeLogs (req : Proto.SubscribeLogsRequest) (log : RpcLog) : Option Proto.Log :=
  let addresses := req.addresses.filterMap protoToAddress
  let topics := req.topics.map fun filter => filter.topics.filterMap protoToB256
  if !addresses.isEmpty && !addresses.contains log.address then none
  else if streamTopics log 0 topics then some (rpcLogToProto log)
  else none

/-! ### Subscriptions -/

inductive LogFilterAddress where
  | single (addr : Address)
  | multiple (addrs : List Address)

inductive LogFilterTopic where
  | single (topic : B256)
  | multiple (topics : List B256)

structure LogSubscriptionParams where
  address : Option LogFilterAddress
  topics : Option (List (Option LogFilterTopic))

def LogFilterAddress.allows (address : Address) : LogFilterAddress → Bool
  | single addr => address = addr
  | multiple addrs => addrs.contains address

def LogFilterTopic.allows (logTopic : Option B256) : LogFilterTopic → Bool
  | single t => logTopic = some t
  | multiple ts => logTopic.any ts.contains

/-- The loop over the topics of a subscription, from position `i` on. -/
def subscriptionTopics (log : RpcLog) : Nat → List (Option LogFilterTopic) → Bool
  | _, [] => true
  | i, none :: rest => subscriptionTopics log (i + 1) rest
  | i, some filter :: rest =>
    if filter.allows log.topics[i]? then subscriptionTopics log (i + 1) rest else false

def logMatchesFilter (log : RpcLog) : Option LogSubscriptionParams → Bool
  | none => true
  | some params =>
    let addressMatches :=
      match params.address with
      | none => true
      | some filter => filter.allows log.address
    if !addressMatches then false
    else
      match params.topics with
      | none => true
      | some filters => subscriptionTopics log 0 filters

def LogFilterAddress.ofFilter : FilterAddress → LogFilterAddress
  | .single addr => single addr
  | .multiple addrs => multiple addrs

def LogFilterTopic.ofFilter : FilterTopic → LogFilterTopic
  | .single topic => single topic
  | .multiple topics => multiple topics

/-- The same filter for a subscription. -/
def LogSubscriptionParams.ofLogFilter (filter : LogFilter) : LogSubscriptionParams where
  address := filter.address.map .ofFilter
  topics := filter.topics.map fun topics => topics.map (Option.map .ofFilter)

/-! ### One verdict -/

/-- The stream with the addresses and topics of a filter. -/
def Proto.LogFilter.request (filter : Proto.LogFilter) : Proto.SubscribeLogsRequest :=
  ⟨filter.addresses, filter.topics⟩

/-- The address is one of the valid ones, if there are any, and so is the topic at each position
that has valid ones. -/
structure Selects (req : Proto.SubscribeLogsRequest) (log : StoredLog) : Prop where
  address : req.addresses.filterMap protoToAddress ≠ [] →
    log.address ∈ req.addresses.filterMap protoToAddress
  topics : ∀ (i : Nat) (filter : Proto.TopicFilter), req.topics[i]? = some filter →
    filter.topics.filterMap protoToB256 ≠ [] →
      ∃ topic ∈ log.topics[i]?, topic ∈ filter.topics.filterMap protoToB256

theorem forall_filterOfEntries {α β γ : Type} {parse : α → Option β} {single : β → γ}
    {multiple : List β → γ} {listed : γ → List β} (hsingle : ∀ b, listed (single b) = [b])
    (hmultiple : ∀ bs, listed (multiple bs) = bs) (entries : List α) (P : List β → Prop) :
    (∀ filter ∈ filterOfEntries parse single multiple entries, P (listed filter)) ↔
      (entries.filterMap parse ≠ [] → P (entries.filterMap parse)) := by
  match entries with
  | [] => simp [filterOfEntries]
  | [entry] =>
    unfold filterOfEntries
    cases hentry : parse entry with
    | none => simp [hentry]
    | some b => simp [hentry, hsingle]
  | first :: second :: rest =>
    unfold filterOfEntries
    by_cases hnone : (first :: second :: rest).filterMap parse = []
    · simp [hnone]
    · simp [hnone, hmultiple]

theorem forall_addressFilter (entries : List Proto.Address) (P : List Address → Prop) :
    (∀ filter ∈ addressFilter entries, P filter.listed) ↔
      (entries.filterMap protoToAddress ≠ [] → P (entries.filterMap protoToAddress)) :=
  forall_filterOfEntries (fun _ => rfl) (fun _ => rfl) entries P

theorem forall_topicFilter (filter : Proto.TopicFilter) (P : List B256 → Prop) :
    (∀ t ∈ topicFilter filter, P t.listed) ↔
      (filter.topics.filterMap protoToB256 ≠ [] → P (filter.topics.filterMap protoToB256)) :=
  forall_filterOfEntries (fun _ => rfl) (fun _ => rfl) filter.topics P

variable {filter : Proto.LogFilter}

theorem matches_protoToLogFilter_iff {log : StoredLog} :
    (protoToLogFilter filter).Matches log ↔ Selects filter.request log := by
  have haddress : (∀ a ∈ (protoToLogFilter filter).address, log.address ∈ a.listed) ↔ _ :=
    forall_addressFilter filter.addresses (log.address ∈ ·)
  have htopics : (∀ topics ∈ (protoToLogFilter filter).topics, ∀ (i : Nat) (t : FilterTopic),
      topics[i]? = some (some t) → ∃ topic ∈ log.topics[i]?, topic ∈ t.listed) ↔
      ∀ (i : Nat) (f : Proto.TopicFilter), filter.topics[i]? = some f →
        ∀ t ∈ topicFilter f, ∃ topic ∈ log.topics[i]?, topic ∈ t.listed := by
    unfold protoToLogFilter
    cases filter.topics with
    | nil => simp
    | cons first rest =>
      simp only [List.isEmpty_cons, Bool.false_eq_true, if_false, Option.mem_some_iff, forall_eq',
        List.getElem?_map, Option.map_eq_some_iff]
      constructor
      · intro h i f hf t ht
        exact h i t ⟨f, hf, ht⟩
      · rintro h i t ⟨f, hf, ht⟩
        exact h i f hf t ht
  constructor
  · intro h
    refine ⟨haddress.mp h.address, fun i f hf => ?_⟩
    exact (forall_topicFilter f fun ts => ∃ topic ∈ log.topics[i]?, topic ∈ ts).mp
      (htopics.mp h.topics i f hf)
  · intro h
    refine ⟨haddress.mpr h.address, htopics.mpr fun i f hf => ?_⟩
    exact (forall_topicFilter f fun ts => ∃ topic ∈ log.topics[i]?, topic ∈ ts).mpr
      (h.topics i f hf)

/-- The log as it is stored. -/
def storedLog (log : RpcLog) : StoredLog := ⟨log.address, log.topics, log.data⟩

theorem subscribeLogs_isSome_iff {req : Proto.SubscribeLogsRequest} {log : RpcLog} :
    (subscribeLogs req log).isSome = true ↔ Selects req (storedLog log) := by
  have hcons : ∀ i filterTopics rest, streamTopics log i (filterTopics :: rest) = true ↔
      (filterTopics ≠ [] → ∃ topic ∈ log.topics[i]?, topic ∈ filterTopics) ∧
        streamTopics log (i + 1) rest = true := by
    intro i filterTopics rest
    cases filterTopics with
    | nil => simp [streamTopics]
    | cons first others =>
      cases hget : log.topics[i]? with
      | none => simp [streamTopics, hget]
      | some topic => simp [streamTopics, hget]
  have hstream : (subscribeLogs req log).isSome = true ↔
      (req.addresses.filterMap protoToAddress ≠ [] →
        log.address ∈ req.addresses.filterMap protoToAddress) ∧
      streamTopics log 0 (req.topics.map fun f => f.topics.filterMap protoToB256) = true := by
    unfold subscribeLogs
    dsimp only
    generalize streamTopics log 0 _ = topicsMatch
    generalize req.addresses.filterMap protoToAddress = addresses
    by_cases hnone : addresses = []
    · cases topicsMatch <;> simp [hnone]
    · by_cases hmem : log.address ∈ addresses
      · cases topicsMatch <;> simp [hmem]
      · simp [hnone, hmem]
  rw [hstream, Lists.loop_iff (fun _ => rfl) hcons]
  simp only [Nat.zero_add, List.getElem?_map, Option.map_eq_some_iff]
  constructor
  · rintro ⟨haddress, htopics⟩
    exact ⟨haddress, fun i f hf => htopics i _ ⟨f, hf, rfl⟩⟩
  · rintro ⟨haddress, htopics⟩
    refine ⟨haddress, ?_⟩
    rintro i _ ⟨f, hf, rfl⟩
    exact htopics i f hf

theorem LogFilterTopic.allows_ofFilter {t : FilterTopic} {logTopic : Option B256} :
    (ofFilter t).allows logTopic = true ↔ ∃ topic ∈ logTopic, topic ∈ t.listed := by
  cases t with
  | single topic =>
    cases logTopic with
    | none => simp [ofFilter, allows]
    | some t => simp [ofFilter, allows, FilterTopic.listed]
  | multiple topics =>
    cases logTopic with
    | none => simp [ofFilter, allows]
    | some t => simp [ofFilter, allows, FilterTopic.listed]

theorem logMatchesFilter_iff {filter : LogFilter} {log : RpcLog} :
    logMatchesFilter log (some (.ofLogFilter filter)) = true ↔ filter.Matches (storedLog log) := by
  have hcons : ∀ i f rest, subscriptionTopics log i (f :: rest) = true ↔
      (∀ t ∈ f, t.allows log.topics[i]? = true) ∧ subscriptionTopics log (i + 1) rest = true := by
    intro i f rest
    cases f with
    | none => simp [subscriptionTopics]
    | some t => simp [subscriptionTopics]
  have haddress : filter.addressMatches (storedLog log) =
      match (LogSubscriptionParams.ofLogFilter filter).address with
      | none => true
      | some f => f.allows log.address := by
    unfold LogFilter.addressMatches LogSubscriptionParams.ofLogFilter
    cases filter.address with
    | none => rfl
    | some f => cases f <;> rfl
  have htopics : (filter.topicsMatch (storedLog log) = true) ↔
      (match (LogSubscriptionParams.ofLogFilter filter).topics with
      | none => true
      | some filters => subscriptionTopics log 0 filters) = true := by
    unfold LogFilter.topicsMatch LogSubscriptionParams.ofLogFilter
    cases filter.topics with
    | none => simp
    | some topics =>
      dsimp only [Option.map_some]
      rw [topicsMatch_iff, Lists.loop_iff (fun _ => rfl) hcons]
      simp only [Nat.zero_add, List.getElem?_map, Option.map_eq_some_iff]
      constructor
      · rintro h i f ⟨topic, htopic, rfl⟩ t ht
        obtain ⟨t', rfl, rfl⟩ := Option.map_eq_some_iff.mp ht
        exact LogFilterTopic.allows_ofFilter.mpr (h i t' htopic)
      · intro h i t ht
        exact LogFilterTopic.allows_ofFilter.mp (h i _ ⟨some t, ht, rfl⟩ _ rfl)
  rw [LogFilter.matches_iff, htopics, haddress]
  unfold logMatchesFilter
  dsimp only
  generalize (match (LogSubscriptionParams.ofLogFilter filter).address with
    | none => true
    | some f => f.allows log.address) = addressMatches
  cases addressMatches with
  | false => simp
  | true => simp

/-- For every filter and every log: `get_logs`, the stream and a subscription agree on whether the
log matches the filter. -/
theorem grpcFilter_verdicts (filter : Proto.LogFilter) (log : RpcLog) :
    ((protoToLogFilter filter).addressMatches (storedLog log) &&
        (protoToLogFilter filter).topicsMatch (storedLog log)) =
      (subscribeLogs filter.request log).isSome ∧
    logMatchesFilter log (some (.ofLogFilter (protoToLogFilter filter))) =
      (subscribeLogs filter.request log).isSome := by
  constructor
  · rw [Bool.eq_iff_iff, Bool.and_eq_true, ← LogFilter.matches_iff, matches_protoToLogFilter_iff,
      subscribeLogs_isSome_iff]
  · rw [Bool.eq_iff_iff, logMatchesFilter_iff, matches_protoToLogFilter_iff,
      subscribeLogs_isSome_iff]

/-! ### Lists without a valid entry -/

/-- The address is among those listed, and so is the topic at each position with a list. -/
structure Listed (filter : Proto.LogFilter) (log : RpcLog) : Prop where
  address : filter.addresses ≠ [] → ∃ a ∈ filter.addresses, a.data = log.address.bytes
  topics : ∀ (i : Nat) (f : Proto.TopicFilter), filter.topics[i]? = some f → f.topics ≠ [] →
    ∃ topic ∈ log.topics[i]?, ∃ t ∈ f.topics, t.data = topic.bytes

/-- Each list that has entries has one of the right length. -/
structure HasValid (filter : Proto.LogFilter) : Prop where
  address : filter.addresses ≠ [] → ∃ a ∈ filter.addresses, a.data.length = 20
  topics : ∀ f ∈ filter.topics, f.topics ≠ [] → ∃ t ∈ f.topics, t.data.length = 32

/-- Some index returns the log for the filter. -/
def Returned (filter : Proto.LogFilter) (log : RpcLog) : Prop :=
  ∃ (index : PersistentChainIndex) (logs : List RpcLog) (index' : PersistentChainIndex),
    getLogs (protoToLogFilter filter) index = .done (.ok logs, index') ∧ log ∈ logs

/-- The stream with the addresses and topics of the filter yields the log. -/
def Streamed (filter : Proto.LogFilter) (log : RpcLog) : Prop :=
  (subscribeLogs filter.request log).isSome = true

theorem fixedOfBytes_eq_some_iff {n : Nat} {data : Bytes} {value : FixedBytes n} :
    fixedOfBytes n data = some value ↔ data = value.bytes := by
  unfold fixedOfBytes
  constructor
  · intro h
    split at h
    · cases h
      rfl
    · cases h
  · rintro rfl
    rw [dif_pos value.length_eq]

theorem mem_filterMap_fixedOfBytes {α : Type} {n : Nat} {data : α → Bytes} {entries : List α}
    {value : FixedBytes n} :
    value ∈ entries.filterMap (fun entry => fixedOfBytes n (data entry)) ↔
      ∃ entry ∈ entries, data entry = value.bytes := by
  rw [List.mem_filterMap]
  exact exists_congr fun entry => and_congr_right fun _ => fixedOfBytes_eq_some_iff

theorem filterMap_fixedOfBytes_ne_nil {α : Type} {n : Nat} {data : α → Bytes} {entries : List α} :
    entries.filterMap (fun entry => fixedOfBytes n (data entry)) ≠ [] ↔
      ∃ entry ∈ entries, (data entry).length = n := by
  constructor
  · intro hne
    obtain ⟨value, hvalue⟩ := List.exists_mem_of_ne_nil _ hne
    obtain ⟨entry, hentry, hdata⟩ := mem_filterMap_fixedOfBytes.mp hvalue
    exact ⟨entry, hentry, hdata ▸ value.length_eq⟩
  · rintro ⟨entry, hentry, hlength⟩
    have hvalue : (⟨data entry, hlength⟩ : FixedBytes n) ∈
        entries.filterMap fun entry => fixedOfBytes n (data entry) :=
      mem_filterMap_fixedOfBytes.mpr ⟨entry, hentry, rfl⟩
    exact List.ne_nil_of_mem hvalue

theorem selects_of_returned {log : RpcLog} (h : Returned filter log) :
    Selects filter.request (storedLog log) := by
  obtain ⟨index, logs, index', hdone, hlog⟩ := h
  obtain ⟨p, rfl, hmatches⟩ := matches_of_getLogs hdone hlog
  obtain ⟨haddress, htopics⟩ := matches_protoToLogFilter_iff.mp hmatches
  exact ⟨haddress, htopics⟩

theorem HasValid.listed (h : HasValid filter) {log : RpcLog}
    (hselects : Selects filter.request (storedLog log)) : Listed filter log := by
  constructor
  · intro hne
    have hvalid := hselects.address (filterMap_fixedOfBytes_ne_nil.mpr (h.address hne))
    exact mem_filterMap_fixedOfBytes.mp hvalid
  · intro i f hf hne
    obtain ⟨topic, htopic, hvalid⟩ := hselects.topics i f hf
      (filterMap_fixedOfBytes_ne_nil.mpr (h.topics f (List.mem_of_getElem? hf) hne))
    exact ⟨topic, htopic, mem_filterMap_fixedOfBytes.mp hvalid⟩

/-- A log that the filter selects: with the first valid address and topics. -/
def selectedLog (filter : Proto.LogFilter) : RpcLog where
  address := (filter.addresses.filterMap protoToAddress).headD (.repeatByte 20 0)
  topics := filter.topics.map fun f => (f.topics.filterMap protoToB256).headD (.repeatByte 32 0)
  data := []
  blockNumber := none
  transactionHash := none
  transactionIndex := none
  blockHash := none
  logIndex := none
  removed := false

theorem selects_selectedLog (filter : Proto.LogFilter) :
    Selects filter.request (storedLog (selectedLog filter)) := by
  refine ⟨fun hne => Lists.headD_mem hne _, fun i f hf hne => ?_⟩
  refine ⟨_, ?_, Lists.headD_mem hne (.repeatByte 32 0)⟩
  have hf : filter.topics[i]? = some f := hf
  show (filter.topics.map _)[i]? = _
  rw [List.getElem?_map, hf]
  rfl

/-- For every filter: the stream yields the logs that the valid entries select, and `get_logs`
returns only such.  A list that has no valid entry selects everything, so all logs are among those
listed if and only if each list with entries has a valid one. -/
theorem grpcFilter_listed_iff (filter : Proto.LogFilter) :
    (∀ log, (Streamed filter log ↔ Selects filter.request (storedLog log)) ∧
      (Returned filter log → Selects filter.request (storedLog log))) ∧
    ((∀ log, Returned filter log ∨ Streamed filter log → Listed filter log) ↔ HasValid filter) := by
  refine ⟨fun log => ⟨subscribeLogs_isSome_iff, selects_of_returned⟩, fun h => ?_, ?_⟩
  · have hlisted := h (selectedLog filter)
      (.inr (subscribeLogs_isSome_iff.mpr (selects_selectedLog filter)))
    constructor
    · intro hne
      obtain ⟨a, ha, hdata⟩ := hlisted.address hne
      exact ⟨a, ha, hdata ▸ FixedBytes.length_eq _⟩
    · intro f hf hne
      obtain ⟨i, hi⟩ := List.mem_iff_getElem?.mp hf
      obtain ⟨topic, -, t, ht, hdata⟩ := hlisted.topics i f hi hne
      exact ⟨t, ht, hdata ▸ topic.length_eq⟩
  · rintro h log (hreturned | hstreamed)
    · exact h.listed (selects_of_returned hreturned)
    · exact h.listed (subscribeLogs_isSome_iff.mp hstreamed)

/-- Logs of a contract, whose address is three bytes long. -/
def malformedFilter : Proto.LogFilter where
  fromBlock := some ⟨some (.number 1)⟩
  toBlock := none
  addresses := [⟨[1, 2, 3]⟩]
  topics := []
  blockHash := none

/-- All logs are returned and streamed. -/
theorem malformedFilter_restricts_nothing :
    (∀ log, Streamed malformedFilter log ∧ ¬ Listed malformedFilter log) ∧
      ∃ log, Returned malformedFilter log := by
  refine ⟨fun log => ⟨rfl, fun hlisted => ?_⟩, ?_⟩
  · obtain ⟨a, ha, hdata⟩ := hlisted.address (List.cons_ne_nil _ _)
    rw [List.mem_singleton.mp ha] at hdata
    have hlength := log.address.length_eq
    rw [← hdata] at hlength
    cases hlength
  · obtain ⟨index', hdone⟩ := (Database.reflects emittingIndex.db).getLogs_done
      (protoToLogFilter malformedFilter) ⟨rfl, ChainCache.obeys_new _ _⟩
    have hanswer : emittingIndex.db.content.answer
        ((IndexReads.latestBlockNumber emittingIndex).getD 0) (protoToLogFilter malformedFilter) =
        .ok [(sampleLog 6).toRpcLog 1 (.repeatByte 32 1) (.repeatByte 32 9) 0 0,
          (sampleLog 7).toRpcLog 1 (.repeatByte 32 1) (.repeatByte 32 9) 0 1] := by
      decide +kernel
    rw [hanswer] at hdone
    exact ⟨_, _, _, _, hdone, List.mem_cons_self ..⟩

end Evolve.Grpc
