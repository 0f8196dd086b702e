import Mathlib
import Evolve.Sdk.Token

/-! The scheduler account, whose functions are for the runtime only: it keeps the accounts that are
called at the beginning and at the end of every block, and calls them. -/

namespace Evolve

open Machine Borsh Effects

instance : Encodable (List AccountId) := ⟨(Encodable.codec : Codec AccountId).list⟩

/-- The messages of the accounts that the scheduler calls. -/
structure DoBeginBlockMsg where
structure DoEndBlockMsg where

instance : InvokableMessage DoBeginBlockMsg where
  codec := Codec.unit.iso (fun _ => ⟨⟩) (fun _ => ()) fun _ => rfl
  functionIdentifier := 4082470537
  functionIdentifierName := "do_begin_block"

instance : InvokableMessage DoEndBlockMsg where
  codec := Codec.unit.iso (fun _ => ⟨⟩) (fun _ => ()) fun _ => rfl
  functionIdentifier := 3775981078
  functionIdentifierName := "do_end_block"

namespace Scheduler

/-! ### Messages -/

structure InitializeMsg where
  beginBlockAccounts : List AccountId
  endBlockAccounts : List AccountId

instance : InvokableMessage InitializeMsg where
  codec := ((Encodable.codec : Codec (List AccountId)).pair Encodable.codec).iso
    (fun p => ⟨p.1, p.2⟩) (fun m => (m.beginBlockAccounts, m.endBlockAccounts)) fun _ => rfl
  functionIdentifier := 1954143245
  functionIdentifierName := "initialize"

structure UpdateBeginBlockersMsg where
  newBeginBlockers : List AccountId

structure UpdateEndBlockersMsg where
  newEndBlockers : List AccountId

instance : InvokableMessage UpdateBeginBlockersMsg where
  codec := (Encodable.codec : Codec (List AccountId)).iso UpdateBeginBlockersMsg.mk
    UpdateBeginBlockersMsg.newBeginBlockers fun _ => rfl
  functionIdentifier := 990799051
  functionIdentifierName := "update_begin_blockers"

instance : InvokableMessage UpdateEndBlockersMsg where
  codec := (Encodable.codec : Codec (List AccountId)).iso UpdateEndBlockersMsg.mk
    UpdateEndBlockersMsg.newEndBlockers fun _ => rfl
  functionIdentifier := 662875863
  functionIdentifierName := "update_end_blockers"

structure ScheduleBeginBlockMsg where
structure ScheduleEndBlockMsg where

instance : InvokableMessage ScheduleBeginBlockMsg where
  codec := Codec.unit.iso (fun _ => ⟨⟩) (fun _ => ()) fun _ => rfl
  functionIdentifier := 1555109274
  functionIdentifierName := "schedule_begin_block"

instance : InvokableMessage ScheduleEndBlockMsg where
  codec := Codec.unit.iso (fun _ => ⟨⟩) (fun _ => ()) fun _ => rfl
  functionIdentifier := 2206009597
  functionIdentifierName := "schedule_end_block"

/-! ### The code -/

def beginBlockAccounts : Item (List AccountId) := ⟨0⟩
def endBlockAccounts : Item (List AccountId) := ⟨1⟩

def initializeAccount (msg : InitializeMsg) : Program Unit := do
  beginBlockAccounts.set () msg.beginBlockAccounts
  endBlockAccounts.set () msg.endBlockAccounts

variable (env : Env)

/-- What only the runtime may do. -/
def asRuntime (p : Program Unit) : Program Unit :=
  if env.sender ≠ runtimeAccountId then Prog.throw errUnauthorized else p

def updateBeginBlockers (msg : UpdateBeginBlockersMsg) : Program Unit :=
  asRuntime env (beginBlockAccounts.set () msg.newBeginBlockers)

def updateEndBlockers (msg : UpdateEndBlockersMsg) : Program Unit :=
  asRuntime env (endBlockAccounts.set () msg.newEndBlockers)

/-- Sends a message to the listed accounts in turn, up to the first that fails. -/
def callAll {Req : Type} [InvokableMessage Req] (accounts : Item (List AccountId)) (request : Req) :
    Program Unit := do
  -- the source panics where no list is stored, before the account is initialised; the model fails
  -- with the error of a missing value
  let list ← (accounts.get env ()).lift
  list.forM fun account => execAccount Unit account request []

def scheduleBeginBlock (_ : ScheduleBeginBlockMsg) : Program Unit :=
  asRuntime env (callAll env beginBlockAccounts DoBeginBlockMsg.mk)

def scheduleEndBlock (_ : ScheduleEndBlockMsg) : Program Unit :=
  asRuntime env (callAll env endBlockAccounts DoEndBlockMsg.mk)

def init (request : InvokeRequest) : Program InvokeResponse :=
  Token.call env request initializeAccount

def execute (request : InvokeRequest) : Program InvokeResponse :=
  if request.function = InvokableMessage.functionIdentifier UpdateBeginBlockersMsg then
    Token.call env request (updateBeginBlockers env)
  else if request.function = InvokableMessage.functionIdentifier UpdateEndBlockersMsg then
    Token.call env request (updateEndBlockers env)
  else if request.function = InvokableMessage.functionIdentifier ScheduleBeginBlockMsg then
    Token.call env request (scheduleBeginBlock env)
  else if request.function = InvokableMessage.functionIdentifier ScheduleEndBlockMsg then
    Token.call env request (scheduleEndBlock env)
  else Prog.throw errUnknownFunction

def query (_ : Env) (_ : InvokeRequest) : QueryProgram InvokeResponse :=
  Prog.throw errUnknownFunction

def code : AccountCode := ⟨init, execute, query⟩

/-! ### Refusal -/

/-- A program that ends with an error before it makes a call. -/
def Refuses {α : Type} (p : Program α) : Prop := ∃ e, p = Prog.throw e

theorem refuses_asRuntime {env : Env} (h : env.sender ≠ runtimeAccountId) (p : Program Unit) :
    Refuses (asRuntime env p) := ⟨errUnauthorized, if_pos h⟩

theorem refuses_call {α : Type} [Encodable α] {env : Env} {request : InvokeRequest}
    {f : α → Program Unit} (hf : ∀ msg, Refuses (f msg)) : Refuses (Token.call env request f) := by
  unfold Token.call
  cases request.get (α := α) with
  | error e => exact ⟨e, rfl⟩
  | ok msg =>
    obtain ⟨e, he⟩ := hf msg
    show Refuses (if env.funds.isEmpty then f msg >>= fun _ => Prog.ofExcept (InvokeResponse.new ())
      else Prog.throw errNotPayable)
    split
    · exact ⟨e, by rw [he]; rfl⟩
    · exact ⟨errNotPayable, rfl⟩

theorem refuses_execute {env : Env} (h : env.sender ≠ runtimeAccountId) (request : InvokeRequest) :
    Refuses (execute env request) := by
  unfold execute
  split
  · exact refuses_call fun msg => refuses_asRuntime h _
  · split
    · exact refuses_call fun msg => refuses_asRuntime h _
    · split
      · exact refuses_call fun msg => refuses_asRuntime h _
      · split
        · exact refuses_call fun msg => refuses_asRuntime h _
        · exact ⟨errUnknownFunction, rfl⟩

end Scheduler

end Evolve
