import Mathlib
import Evolve.Sdk.Collections

/-! The token account: its code, the amounts that a state holds for it, and what adding to an amount
or subtracting from it does to them. -/

namespace Evolve

open Machine Borsh Effects

/-! ### Messages -/

structure FungibleAssetMetadata where
  name : String
  symbol : String
  decimals : UInt8
  iconUrl : String
  description : String

instance : Encodable FungibleAssetMetadata :=
  ⟨(Codec.string.pair (Codec.string.pair (Codec.u8.pair (Codec.string.pair Codec.string)))).iso
    (fun p => ⟨p.1, p.2.1, p.2.2.1, p.2.2.2.1, p.2.2.2.2⟩)
    (fun m => (m.name, m.symbol, m.decimals, m.iconUrl, m.description)) fun _ => rfl⟩

namespace Token

structure InitializeMsg where
  metadata : FungibleAssetMetadata
  balances : List (AccountId × U128)
  supplyManager : Option AccountId

/-- The identifiers of the functions are the first four bytes of the Keccak-256 hashes of their
names. -/
instance : InvokableMessage InitializeMsg where
  codec := ((Encodable.codec : Codec FungibleAssetMetadata).pair
    ((((Encodable.codec : Codec AccountId).pair Codec.u128).list).pair
      (Encodable.codec : Codec (Option AccountId)))).iso
    (fun p => ⟨p.1, p.2.1, p.2.2⟩) (fun m => (m.metadata, m.balances, m.supplyManager)) fun _ => rfl
  functionIdentifier := 1954143245
  functionIdentifierName := "initialize"

structure MintMsg where
  recipient : AccountId
  amount : U128

instance : InvokableMessage MintMsg where
  codec := ((Encodable.codec : Codec AccountId).pair Codec.u128).iso (fun p => ⟨p.1, p.2⟩)
    (fun m => (m.recipient, m.amount)) fun _ => rfl
  functionIdentifier := 3673207749
  functionIdentifierName := "mint"

structure BurnMsg where
  fromAccount : AccountId
  amount : U128

instance : InvokableMessage BurnMsg where
  codec := ((Encodable.codec : Codec AccountId).pair Codec.u128).iso (fun p => ⟨p.1, p.2⟩)
    (fun m => (m.fromAccount, m.amount)) fun _ => rfl
  functionIdentifier := 4097740029
  functionIdentifierName := "burn"

structure GetBalanceMsg where
  account : AccountId

instance : InvokableMessage GetBalanceMsg where
  codec := (Encodable.codec : Codec AccountId).iso GetBalanceMsg.mk GetBalanceMsg.account
    fun _ => rfl
  functionIdentifier := 1000214996
  functionIdentifierName := "get_balance"

structure MetadataMsg where
structure TotalSupplyMsg where

instance : InvokableMessage MetadataMsg where
  codec := Codec.unit.iso (fun _ => ⟨⟩) (fun _ => ()) fun _ => rfl
  functionIdentifier := 2057124355
  functionIdentifierName := "metadata"

instance : InvokableMessage TotalSupplyMsg where
  codec := Codec.unit.iso (fun _ => ⟨⟩) (fun _ => ()) fun _ => rfl
  functionIdentifier := 2975166850
  functionIdentifierName := "total_supply"

/-! ### The code -/

def errNotEnoughBalance : ErrorCode := defineError 0x1
def errUnderflow : ErrorCode := defineError 0x2

def metadata : Item FungibleAssetMetadata := ⟨0⟩
def balances : Map AccountId U128 := ⟨1⟩
def totalSupply : Item U128 := ⟨2⟩
def supplyManager : Item (Option AccountId) := ⟨3⟩

def setBalances (list : List (AccountId × U128)) (total : U128) : Program U128 :=
  list.foldlM (fun total p => do
    balances.set p.1 p.2
    pure (total + p.2)) total

def initializeAccount (msg : InitializeMsg) : Program Unit := do
  metadata.set () msg.metadata
  let total ← setBalances msg.balances 0
  supplyManager.set () msg.supplyManager
  totalSupply.set () total

def add (amount : U128) (stored : Option U128) : SdkResult U128 := .ok (stored.getD 0 + amount)

def sub (e : ErrorCode) (amount : U128) (stored : Option U128) : SdkResult U128 :=
  match checkedSub (stored.getD 0) amount with
  | some rest => .ok rest
  | none => .error e

variable (env : Env)

def mintUnchecked (recipient : AccountId) (amount : U128) : Program Unit := do
  let _ ← balances.update env recipient (add amount)
  let _ ← totalSupply.update env () (add amount)

def burnUnchecked (fromAccount : AccountId) (amount : U128) : Program Unit := do
  let _ ← balances.update env fromAccount (sub errUnderflow amount)
  let _ ← totalSupply.update env () (sub errUnderflow amount)

def asSupplyManager (p : Program Unit) : Program Unit := do
  let manager ← (supplyManager.get env ()).lift
  if manager ≠ some env.sender then Prog.throw errUnauthorized else p

def mint (msg : MintMsg) : Program Unit :=
  asSupplyManager env (mintUnchecked env msg.recipient msg.amount)

def burn (msg : BurnMsg) : Program Unit :=
  asSupplyManager env (burnUnchecked env msg.fromAccount msg.amount)

def transfer (msg : TransferMsg) : Program Unit := do
  let _ ← balances.update env env.sender (sub errNotEnoughBalance msg.amount)
  let _ ← balances.update env msg.toAccount (add msg.amount)

/-- How a function that takes no funds is called: with the decoded message, and an empty answer. -/
def call {α : Type} [Encodable α] (request : InvokeRequest) (f : α → Program Unit) :
    Program InvokeResponse := do
  let msg : α ← Prog.ofExcept request.get
  if env.funds.isEmpty then
    f msg
    Prog.ofExcept (InvokeResponse.new ())
  else Prog.throw errNotPayable

def init (request : InvokeRequest) : Program InvokeResponse :=
  call env request initializeAccount

def execute (request : InvokeRequest) : Program InvokeResponse :=
  if request.function = InvokableMessage.functionIdentifier MintMsg then
    call env request (mint env)
  else if request.function = InvokableMessage.functionIdentifier BurnMsg then
    call env request (burn env)
  else if request.function = InvokableMessage.functionIdentifier TransferMsg then
    call env request (transfer env)
  else Prog.throw errUnknownFunction

def query (request : InvokeRequest) : QueryProgram InvokeResponse :=
  if request.function = InvokableMessage.functionIdentifier MetadataMsg then do
    let _ : MetadataMsg ← Prog.ofExcept request.get
    -- the source panics where no metadata is stored, before the account is initialised; the model
    -- answers with the error of a missing value
    let value ← metadata.get env ()
    Prog.ofExcept (InvokeResponse.new value)
  else if request.function = InvokableMessage.functionIdentifier GetBalanceMsg then do
    let msg : GetBalanceMsg ← Prog.ofExcept request.get
    let value ← balances.mayGet env msg.account
    Prog.ofExcept (InvokeResponse.new value)
  else if request.function = InvokableMessage.functionIdentifier TotalSupplyMsg then do
    let _ : TotalSupplyMsg ← Prog.ofExcept request.get
    let value ← totalSupply.get env ()
    Prog.ofExcept (InvokeResponse.new value)
  else Prog.throw errUnknownFunction

def code : AccountCode := ⟨init, execute, query⟩

/-! ### Balances and supply -/

/-- The amount that `owner` has stored under a key; an absent one is zero. -/
def amount {K : Type} [Encodable K] (m : Map K U128) (owner : AccountId) (w : World) (key : K) :
    U128 :=
  (m.read w.storage owner key).toOption.join.getD 0

def balanceOf (token : AccountId) (w : World) (account : AccountId) : U128 :=
  amount balances token w account

def supplyOf (token : AccountId) (w : World) : U128 := amount totalSupply token w ()

section Amount

variable {K K' V : Type} [Encodable K] [Encodable K'] [Encodable V]
variable {m : Map K U128} {m' : Map K' V} {owner : AccountId} {w w' : World}

theorem amount_eq {key : K} {stored : Option U128}
    (h : m.read w.storage owner key = .ok stored) : amount m owner w key = stored.getD 0 := by
  rw [amount, h]
  rfl

theorem amount_congr (h : w.SameStore w') (key : K) :
    amount m owner w' key = amount m owner w key := by
  rw [amount, amount, m.read_congr h]

theorem amount_writes {key : K} {value : U128} (h : m.Writes owner key value w w') (k : K)
    [Decidable (k = key)] :
    amount m owner w' k = if k = key then value else amount m owner w k := by
  split
  · rename_i hk
    rw [hk, amount_eq h.read]
    rfl
  · rename_i hk
    rw [amount, amount, h.read_other hk]

theorem amount_writes_other {key : K'} {value : V} (h : m'.Writes owner key value w w')
    (hne : m.keyPrefix ≠ m'.keyPrefix) (k : K) : amount m owner w' k = amount m owner w k := by
  rw [amount, amount, h.read_otherPrefix m hne]

variable (host : Host) (fuel : Nat) {frame : Invoker} (hframe : frame.whoami = owner)
include hframe

theorem settles_add (m : Map K U128) (key : K) (x : U128) (w : World) :
    Exec.Settles ((m.update frame.env key (add x)).run (environment host fuel frame))
      (fun _ w' => m.Writes owner key (amount m owner w key + x) w w') w.SameStore w := by
  subst hframe
  refine (m.settles_update host fuel frame key (add x) w).mono ?_
  rintro _ w' ⟨stored, hread, ⟨⟩, hwrites⟩
  rwa [amount_eq hread]

theorem returns_add (m : Map K U128) (key : K) (x : U128) (w : World) :
    Exec.Returns ((m.update frame.env key (add x)).run (environment host fuel frame))
      (fun _ w' => m.Writes owner key (amount m owner w key + x) w w') w :=
  (settles_add host fuel hframe m key x w).returns

theorem settles_sub (m : Map K U128) (key : K) (e : ErrorCode) (x : U128) (w : World) :
    Exec.Settles ((m.update frame.env key (sub e x)).run (environment host fuel frame))
      (fun _ w' => x.toNat ≤ (amount m owner w key).toNat ∧
        m.Writes owner key (amount m owner w key - x) w w') w.SameStore w := by
  subst hframe
  refine (m.settles_update host fuel frame key (sub e x) w).mono ?_
  rintro rest w' ⟨stored, hread, hsub, hwrites⟩
  rw [amount_eq hread]
  unfold sub checkedSub at hsub
  split at hsub
  · rename_i hle
    split at hle
    · cases hle
      cases hsub
      exact ⟨‹_›, hwrites⟩
    · cases hle
  · cases hsub

theorem returns_sub (m : Map K U128) (key : K) (e : ErrorCode) (x : U128) (w : World) :
    Exec.Returns ((m.update frame.env key (sub e x)).run (environment host fuel frame))
      (fun _ w' => x.toNat ≤ (amount m owner w key).toNat ∧
        m.Writes owner key (amount m owner w key - x) w w') w :=
  (settles_sub host fuel hframe m key e x w).returns

end Amount

end Token

end Evolve
