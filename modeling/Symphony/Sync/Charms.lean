import Symphony.Sync.OwnedIndex

/-! Charms of outputs (`custom/charms/indexer.rs`). -/

namespace Symphony

open BigEndian (Byte)
open Encdec

/-- What `charms_lib` extracts from a transaction: the apps as strings, for each output its charms
by the index of their app, and the outputs beamed to another chain. Its vectors are in memory. -/
structure Spell where
  apps : List (List Byte)
  outs : List (List (U32 × List Byte))
  beamedOuts : Option (List U32)
  apps_lt : ∀ app ∈ apps, app.length < 2 ^ 64
  outs_lt : ∀ charms ∈ outs, charms.length < 2 ^ 64 ∧ ∀ charm ∈ charms, charm.2.length < 2 ^ 64

namespace Spell

def resolve (spell : Spell) (charms : List (U32 × List Byte)) : UtxoCharms :=
  charms.filterMap (fun charm => spell.apps[charm.1.toNat]?.map (fun app => (app, charm.2)))

/-- The charms that are indexed for an output, if any: beamed outputs and outputs without charms
are skipped. -/
def charmsOf (spell : Spell) (charms : List (U32 × List Byte)) (index : Nat) : Option UtxoCharms :=
  if (spell.beamedOuts.getD []).contains (BitVec.ofNat 32 index) then none
  else if charms.isEmpty then none
  else some (spell.resolve charms)

end Spell

structure CharmsIndexer where
  startHeight : U64
  extractAndVerifySpell : Transaction → Option Spell

namespace CharmsIndexer

def scriptTable : OwnedTable := ⟨.charms, 0⟩
def appTable : OwnedTable := ⟨.charms, 1⟩

def appKeys (charms : UtxoCharms) (height : BlockHeight) (ref : TxoRef) : List OwnedUtxoKey :=
  charms.map (fun charm => ⟨charm.1, height, ref⟩)

def consume (utxo : Utxo) (ref : TxoRef) : Script Unit :=
  match utxo.extended.get? .charms with
  | none => .pure ()
  | some raw => do
      let charms ← Script.lift (liftDecoding (decodeAll raw : Except DecodingError UtxoCharms))
      if charms.isEmpty then .pure ()
      else do
        scriptTable.delete ⟨utxo.script, utxo.height, ref⟩
        appTable.deleteAll (appKeys charms utxo.height ref)

/-- Outputs are cleaned up whether or not the transaction has a spell. -/
def consumed (ctx : TxContext) : List TxIn → Script Unit
  | [] => .pure ()
  | input :: inputs =>
      if input.previousOutput = TxoRef.null then consumed ctx inputs
      else match ctx.resolveInput input.previousOutput with
        | none => consumed ctx inputs
        | some utxo => do
            consume utxo input.previousOutput
            consumed ctx inputs

def produce (script : ScriptPubKey) (height : BlockHeight) (ref : TxoRef) (charms : UtxoCharms) :
    Script Unit :=
  .attach ref .charms (encode charms) do
    scriptTable.set ⟨script, height, ref⟩ ()
    appTable.setAll (appKeys charms height ref)

def produced (spell : Spell) (tx : TransactionWithId) (height : BlockHeight) :
    List ((TxOut × List (U32 × List Byte)) × Nat) → Script Unit
  | [] => .pure ()
  | ((output, charms), index) :: outputs => match spell.charmsOf charms index with
      | none => produced spell tx height outputs
      | some utxoCharms => do
          produce output.scriptPubkey height (tx.txoRef index) utxoCharms
          produced spell tx height outputs

def processTx (indexer : CharmsIndexer) : Indexer := fun tx _ ctx =>
  if ctx.point.height < indexer.startHeight then .pure ()
  else do
    consumed ctx tx.tx.input
    match indexer.extractAndVerifySpell tx.tx with
    | none => .pure ()
    | some spell => produced spell tx ctx.point.height (tx.tx.output.zip spell.outs).zipIdx

end CharmsIndexer

end Symphony
