/-
  Memory/Records/Record.lean --- keys, values and byte budgets of the record
  machine (`records/key.rs`, `records/value.rs`, `records/budgets.rs`).

  Keys pair a closed prefix with a free suffix; every prefix fixes a payload
  ceiling and a budget class.  A value stores the revision that wrote it and the
  BLAKE3 digest of its payload; the hash function is not part of the repository
  and is a parameter of everything below.
-/
import Gump.Foundation.OrdMap
import Gump.Foundation.Words
import Mathlib.Data.Prod.Lex
import Mathlib.Data.String.Basic

set_option autoImplicit false

namespace Gump.Memory

open Gump.Foundation

/-- A 32-byte content digest. -/
abbrev Digest : Type := Octets 32

/-- The BLAKE3 hash of a byte string. -/
class Blake3 where
  hash : List UInt8 → Digest

/-- BLAKE3 on the inputs of the worked examples: the empty string, the byte `1`,
and the fence inputs of the first two epochs, each the three little-endian words
epoch, holder and nonce.  Other inputs are not tabulated. -/
@[reducible] def Blake3.knownAnswers : Blake3 where
  hash input :=
    if input = [] then
      ⟨[175, 19, 73, 185, 245, 249, 161, 166, 160, 64, 77, 234, 54, 220, 201, 73, 155, 203,
        37, 201, 173, 193, 18, 183, 204, 154, 147, 202, 228, 31, 50, 98], rfl⟩
    else if input = [1] then
      ⟨[72, 252, 114, 31, 187, 193, 114, 224, 146, 95, 162, 122, 241, 103, 29, 226, 37, 186,
        146, 113, 52, 128, 41, 152, 177, 10, 21, 104, 161, 136, 101, 43], rfl⟩
    else if input = toLeBytes 1 ++ toLeBytes 1 ++ toLeBytes 1 then
      ⟨[207, 223, 220, 136, 20, 104, 10, 244, 15, 7, 74, 74, 233, 184, 255, 169, 159, 156,
        85, 52, 114, 197, 247, 108, 104, 92, 58, 114, 72, 243, 141, 63], rfl⟩
    else if input = toLeBytes 2 ++ toLeBytes 2 ++ toLeBytes 2 then
      ⟨[226, 212, 191, 65, 63, 113, 141, 10, 98, 141, 220, 71, 218, 107, 214, 186, 104, 23,
        241, 67, 205, 9, 23, 14, 130, 88, 64, 234, 164, 119, 63, 126], rfl⟩
    else Octets.fill 32 0

/-! ## Keys -/

/-- Known key prefixes; callers cannot invent others. -/
inductive KeyPrefix where
  | clusterMeta
  | members
  | authorityController
  | names
  | workloadsDesired
  | workloadsHistory
  | executions
  | units
  | placements
  | attempts
  | barriers
  | materializations
  | publication
  | custody
  | operations
  | observations
  | reasons
  deriving DecidableEq, Repr, Inhabited

/-- How the records under a prefix are charged. -/
inductive RecordClass where
  | authoritative
  | leasedCapable
  | history
  deriving DecidableEq, Repr

namespace KeyPrefix

/-- Maximum payload bytes for this prefix. -/
def maxPayload : KeyPrefix → Nat
  | clusterMeta | members => 64 * 1024
  | authorityController => 8 * 1024
  | names => 4 * 1024
  | workloadsDesired => 256 * 1024
  | workloadsHistory => 64 * 1024
  | executions | attempts | operations | observations => 64 * 1024
  | units | placements | publication => 32 * 1024
  | barriers => 256 * 1024
  | materializations | custody => 8 * 1024
  | reasons => 64 * 1024

/-- The path of the prefix. -/
def asStr : KeyPrefix → String
  | clusterMeta => "/cluster/meta"
  | members => "/members"
  | authorityController => "/authority/controller"
  | names => "/names"
  | workloadsDesired => "/workloads/desired"
  | workloadsHistory => "/workloads/history"
  | executions => "/executions"
  | units => "/units"
  | placements => "/placements"
  | attempts => "/attempts"
  | barriers => "/barriers"
  | materializations => "/materializations"
  | publication => "/publication"
  | custody => "/custody"
  | operations => "/operations"
  | observations => "/observations"
  | reasons => "/reasons"

/-- Authoritative live records count against the authoritative budget;
leased-capable prefixes count as leased when a lease is attached. -/
def defaultClass : KeyPrefix → RecordClass
  | workloadsHistory | operations | observations | reasons => .history
  | members | authorityController | placements | attempts | barriers
  | materializations | publication | custody => .leasedCapable
  | clusterMeta | names | workloadsDesired | executions | units => .authoritative

theorem ctorIdx_injective : Function.Injective KeyPrefix.ctorIdx := by
  intro a b h
  cases a <;> cases b <;> first | rfl | (exact absurd h (by decide))

end KeyPrefix

/-- Typed record key: closed prefix and suffix. -/
structure RecordKey where
  keyPrefix : KeyPrefix
  suffix : String
  deriving DecidableEq, Repr, Inhabited

namespace RecordKey

/-- Keys are ordered by prefix in declaration order, then by suffix. -/
instance : LinearOrder RecordKey :=
  LinearOrder.lift' (fun k => toLex (k.keyPrefix.ctorIdx, k.suffix)) (by
    rintro ⟨p, s⟩ ⟨q, t⟩ h
    simp only [EmbeddingLike.apply_eq_iff_eq, Prod.mk.injEq] at h
    rw [KeyPrefix.ctorIdx_injective h.1, h.2])

/-- The text of a key. -/
def display (key : RecordKey) : String :=
  if key.suffix.isEmpty then key.keyPrefix.asStr
  else key.keyPrefix.asStr ++ "/" ++ key.suffix

end RecordKey

/-- Why a key was refused. -/
inductive KeyError where
  | suffixTooLong (len max : Nat)
  | invalidSuffix
  deriving DecidableEq, Repr

/-- The text of a key error. -/
def KeyError.display : KeyError → String
  | .suffixTooLong len max => s!"key suffix length {len} exceeds max {max}"
  | .invalidSuffix => "key suffix contains invalid characters"

/-! ## Values -/

/-- Stored record body with revision and content digest. -/
structure RecordValue where
  revision : Nat
  digest : Digest
  payload : List UInt8
  /-- When set, bytes count toward the leased budget. -/
  leased : Bool
  deriving DecidableEq, Repr

/-- Why a value was refused. -/
inductive ValueError where
  | payloadTooLarge (len max : Nat)
  deriving DecidableEq, Repr

/-- The text of a value error. -/
def ValueError.display : ValueError → String
  | .payloadTooLarge len max => s!"payload length {len} exceeds prefix max {max}"

namespace RecordValue

/-- `RecordValue::new`: the digest is the hash of the payload. -/
def new [Blake3] (revision : Nat) (payload : List UInt8) (leased : Bool) : RecordValue :=
  { revision := revision, digest := Blake3.hash payload, payload := payload, leased := leased }

/-- Bytes charged for the value. -/
def byteLen (value : RecordValue) : Nat := value.payload.length

/-- Refuse payloads above the ceiling of the prefix. -/
def validateSize (value : RecordValue) (keyPrefix : KeyPrefix) : Except ValueError Unit :=
  if value.payload.length > keyPrefix.maxPayload then
    .error (.payloadTooLarge value.payload.length keyPrefix.maxPayload)
  else .ok ()

end RecordValue

/-! ## Budgets -/

/-- Byte ceilings, one for each class. -/
structure MemoryBudgets where
  authoritativeBytes : Nat
  leasedBytes : Nat
  historyBytes : Nat
  deriving DecidableEq, Repr

/-- Initial budgets: 64 MiB authoritative, 32 MiB leased, 32 MiB history. -/
def MemoryBudgets.default : MemoryBudgets :=
  { authoritativeBytes := 64 * 1024 * 1024
    leasedBytes := 32 * 1024 * 1024
    historyBytes := 32 * 1024 * 1024 }

/-- The class a record is charged to. -/
inductive BudgetClass where
  | authoritative
  | leased
  | history
  deriving DecidableEq, Repr

/-- The class name as `Debug` prints it. -/
def BudgetClass.debug : BudgetClass → String
  | .authoritative => "Authoritative"
  | .leased => "Leased"
  | .history => "History"

/-- Why growth was refused. -/
inductive BudgetError where
  | exhausted (budgetClass : BudgetClass) (used additional limit : Nat)
  deriving DecidableEq, Repr

/-- The text of a budget error. -/
def BudgetError.display : BudgetError → String
  | .exhausted budgetClass used additional limit =>
    let name := budgetClass.debug
    s!"{name} budget exhausted: used={used} +{additional} > limit={limit}"

/-- Bytes in use, one counter for each class. -/
structure BudgetUsage where
  authoritativeBytes : Nat
  leasedBytes : Nat
  historyBytes : Nat
  deriving DecidableEq, Repr

namespace BudgetUsage

/-- Nothing in use. -/
def zero : BudgetUsage := ⟨0, 0, 0⟩

/-- The counter of a class. -/
def used (usage : BudgetUsage) : BudgetClass → Nat
  | .authoritative => usage.authoritativeBytes
  | .leased => usage.leasedBytes
  | .history => usage.historyBytes

/-- The ceiling of a class. -/
def limit (budgets : MemoryBudgets) : BudgetClass → Nat
  | .authoritative => budgets.authoritativeBytes
  | .leased => budgets.leasedBytes
  | .history => budgets.historyBytes

/-- Refuse growth past the ceiling of the class. -/
def checkGrow (usage : BudgetUsage) (budgets : MemoryBudgets) (budgetClass : BudgetClass)
    (additional : Nat) : Except BudgetError Unit :=
  let next := saturatingAdd (usage.used budgetClass) additional
  if next > limit budgets budgetClass then
    .error (.exhausted budgetClass (usage.used budgetClass) additional (limit budgets budgetClass))
  else .ok ()

/-- Charge bytes to a class. -/
def add (usage : BudgetUsage) : BudgetClass → Nat → BudgetUsage
  | .authoritative, bytes =>
    { usage with authoritativeBytes := usage.authoritativeBytes + bytes }
  | .leased, bytes => { usage with leasedBytes := usage.leasedBytes + bytes }
  | .history, bytes => { usage with historyBytes := usage.historyBytes + bytes }

/-- Return bytes of a class; the counter stops at zero. -/
def sub (usage : BudgetUsage) : BudgetClass → Nat → BudgetUsage
  | .authoritative, bytes =>
    { usage with authoritativeBytes := usage.authoritativeBytes - bytes }
  | .leased, bytes => { usage with leasedBytes := usage.leasedBytes - bytes }
  | .history, bytes => { usage with historyBytes := usage.historyBytes - bytes }

end BudgetUsage

/-- The budget class of a record under `keyPrefix`. -/
def budgetClass (keyPrefix : KeyPrefix) (leased : Bool) : BudgetClass :=
  match keyPrefix.defaultClass with
  | .history => .history
  | .authoritative => .authoritative
  | .leasedCapable => if leased then .leased else .authoritative

end Gump.Memory
