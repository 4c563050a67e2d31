import Symphony.Storage.KvStore
import Symphony.Sync.CustomTables

/-! How the runes of a transaction flow to its outputs (`custom/runes/indexer.rs`).

The maps of balances and the edicts; what a transaction etches and mints is decided elsewhere. -/

namespace Symphony

open BigEndian (Byte)
open Encdec

abbrev Rune := U128

structure Edict where
  id : RuneId
  amount : U128
  output : U32
  deriving DecidableEq

structure Terms where
  amount : Option U128
  cap : Option U128
  height : Option U64 × Option U64
  offset : Option U64 × Option U64
  deriving DecidableEq

structure Etching where
  divisibility : Option Byte
  premine : Option U128
  rune : Option Rune
  spacers : Option U32
  symbol : Option U32
  terms : Option Terms
  deriving DecidableEq

structure Runestone where
  edicts : List Edict
  etching : Option Etching
  mint : Option RuneId
  pointer : Option U32
  deriving DecidableEq

structure Cenotaph where
  etching : Option Rune
  mint : Option RuneId
  deriving DecidableEq

inductive Artifact where
  | runestone (runestone : Runestone)
  | cenotaph (cenotaph : Cenotaph)
  deriving DecidableEq

def Artifact.mint : Artifact → Option RuneId
  | .runestone stone => stone.mint
  | .cenotaph stone => stone.mint

def RuneId.zero : RuneId := ⟨0, 0⟩

/-- Whether the build checks arithmetic for overflow, as debug builds do; others wrap. -/
structure Build where
  overflowChecks : Bool

namespace Build

def add (build : Build) (first second : U128) : Except Error U128 :=
  if build.overflowChecks ∧ 2 ^ 128 ≤ first.toNat + second.toNat then
    .error (.panicked "attempt to add with overflow")
  else .ok (first + second)

def sub (build : Build) (first second : U128) : Except Error U128 :=
  if build.overflowChecks ∧ first.toNat < second.toNat then
    .error (.panicked "attempt to subtract with overflow")
  else .ok (first - second)

end Build

def smaller (first second : U128) : U128 := if first ≤ second then first else second

abbrev RuneBalances := HashMap RuneId U128

namespace RuneBalances

def credit (build : Build) (balances : RuneBalances) (id : RuneId) (amount : U128) :
    Except Error RuneBalances :=
  match build.add ((balances.lookup id).getD 0) amount with
  | .error failure => .error failure
  | .ok sum => .ok (balances.insert id sum)

def creditAll (build : Build) (balances : RuneBalances) : UtxoRunes → Except Error RuneBalances
  | [] => .ok balances
  | (id, amount) :: runes => match balances.credit build id amount with
      | .error failure => .error failure
      | .ok balances => creditAll build balances runes

end RuneBalances

/-- The balances left to allocate and those allocated to each output. -/
structure RuneLedger where
  unallocated : RuneBalances
  allocated : List RuneBalances

namespace RuneLedger

def allocate (build : Build) (id : RuneId) (amount : U128) (output : Nat) (ledger : RuneLedger) :
    Except Error RuneLedger :=
  if amount = 0 then .ok ledger
  else match build.sub ((ledger.unallocated.lookup id).getD 0) amount with
    | .error failure => .error failure
    | .ok balance => match ledger.allocated[output]? with
        | none => .error (.panicked "index out of bounds")
        | some balances => match RuneBalances.credit build balances id amount with
            | .error failure => .error failure
            | .ok balances => .ok ⟨ledger.unallocated.insert id balance,
                ledger.allocated.set output balances⟩

/-- Divide a balance between outputs; the first ones get the remainder. -/
def divide (build : Build) (id : RuneId) (amount : U128) (remainder : Nat) :
    Nat → List Nat → RuneLedger → Except Error RuneLedger
  | _, [], ledger => .ok ledger
  | place, output :: outputs, ledger =>
      match if place < remainder then build.add amount 1 else .ok amount with
      | .error failure => .error failure
      | .ok share => match ledger.allocate build id share output with
          | .error failure => .error failure
          | .ok ledger => divide build id amount remainder (place + 1) outputs ledger

def distribute (build : Build) (id : RuneId) (amount : U128) :
    List Nat → RuneLedger → Except Error RuneLedger
  | [], ledger => .ok ledger
  | output :: outputs, ledger =>
      match ledger.allocate build id (smaller amount ((ledger.unallocated.lookup id).getD 0)) output with
      | .error failure => .error failure
      | .ok ledger => distribute build id amount outputs ledger

/-- The outputs that are no OP_RETURN, by their places. -/
def destinations (outputs : List TxOut) : List Nat :=
  outputs.zipIdx.filterMap (fun item => if isOpReturn item.1.scriptPubkey then none else some item.2)

def applyEdict (build : Build) (outputs : List TxOut) (etched : Option RuneId) (edict : Edict)
    (ledger : RuneLedger) : Except Error RuneLedger :=
  if outputs.length < edict.output.toNat then
    .error (.panicked "assertion failed: output <= tx.output.len()")
  else match if edict.id = RuneId.zero then etched else some edict.id with
    | none => .ok ledger
    | some id => match ledger.unallocated.lookup id with
        | none => .ok ledger
        | some balance =>
            if edict.output.toNat = outputs.length then
              let eligible := destinations outputs
              let count := BitVec.ofNat 128 eligible.length
              if edict.amount = 0 then
                if eligible.isEmpty then .ok ledger
                else ledger.divide build id (balance / count) (balance % count).toNat 0 eligible
              else ledger.distribute build id edict.amount eligible
            else ledger.allocate build id
              (if edict.amount = 0 then balance else smaller edict.amount balance) edict.output.toNat

def applyEdicts (build : Build) (outputs : List TxOut) (etched : Option RuneId) :
    List Edict → RuneLedger → Except Error RuneLedger
  | [], ledger => .ok ledger
  | edict :: edicts, ledger => match ledger.applyEdict build outputs etched edict with
      | .error failure => .error failure
      | .ok ledger => applyEdicts build outputs etched edicts ledger

/-- The output that gets the leftovers: the pointer's, or the first that is no OP_RETURN. -/
def leftoverOutput (outputs : List TxOut) (pointer : Option U32) : Except Error (Option Nat) :=
  match pointer with
  | some pointer =>
      if pointer.toNat < outputs.length then .ok (some pointer.toNat)
      else .error (.panicked "assertion failed: pointer < tx.output.len()")
  | none => .ok (destinations outputs).head?

/-- Assign what is left, in the order the map is iterated, to one output. -/
def assignLeftovers (build : Build) (vout : Nat) :
    UtxoRunes → List RuneBalances → Except Error (List RuneBalances)
  | [], allocated => .ok allocated
  | (id, balance) :: runes, allocated =>
      if balance = 0 then assignLeftovers build vout runes allocated
      else match allocated[vout]? with
        | none => .error (.panicked "index out of bounds")
        | some balances => match RuneBalances.credit build balances id balance with
            | .error failure => .error failure
            | .ok balances => assignLeftovers build vout runes (allocated.set vout balances)

end RuneLedger

end Symphony
