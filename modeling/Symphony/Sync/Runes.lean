import Symphony.Sync.OwnedIndex
import Symphony.Sync.RuneFlow

/-! Runes (`custom/runes/indexer.rs`). -/

namespace Symphony

open BigEndian (Byte)
open Encdec

/-- The order in which a hash map is iterated. -/
structure MapOrder (Key Value : Type) where
  iter : HashMap Key Value → List (Key × Value)
  perm : ∀ map, (iter map).Perm (map.entries.map (fun entry => (entry.1, entry.2)))

inductive Instruction where
  | pushBytes (bytes : List Byte)
  | op

/-- What the indexer uses of the crates `ordinals` and `bitcoin`; a script that does not parse has
an instruction `none`. -/
structure Ordinals where
  decipher : Transaction → Option Artifact
  minimumAtHeight : Network → U32 → Rune
  isReserved : Rune → Bool
  reserved : U64 → U32 → Rune
  commitment : Rune → List Byte
  commitConfirmations : U64
  tapscript : List (List Byte) → Option ScriptPubKey
  instructions : ScriptPubKey → List (Option Instruction)

structure AddressRuneKey where
  script : ScriptPubKey
  runeId : RuneId
  deriving DecidableEq

structure RuneActivity where
  sent : U128
  received : List (U32 × U128)

abbrev RuneActivities := HashMap AddressRuneKey RuneActivity

structure RunesIndexer where
  startHeight : U64
  indexActivity : Bool
  commitmentConfirmations : Option U64
  ordinals : Ordinals
  build : Build
  runeOrder : TransactionWithId → TxContext → Nat → MapOrder RuneId U128
  activityOrder : TransactionWithId → TxContext → MapOrder AddressRuneKey RuneActivity

/-- `Script::is_p2tr`: a version 1 witness program of 32 bytes. -/
def isP2tr (script : ScriptPubKey) : Bool :=
  script.length = 34 && script[0]? = some 0x51 && script[1]? = some 0x20

/-- The runes among the metadata of an output. -/
def runesOf (utxo : Utxo) : Except Error UtxoRunes :=
  match utxo.extended.get? .runes with
  | some raw => liftDecoding (decodeAll raw : Except DecodingError UtxoRunes)
  | none => .ok []

namespace Artifact

def etching : Artifact → Option (Option Rune)
  | .runestone stone => stone.etching.map Etching.rune
  | .cenotaph stone => stone.etching.map some

end Artifact

namespace RunesIndexer

def infoTable : IndexerTable RuneId RuneInfo := ⟨.runes, 0⟩
def nameTable : IndexerTable U128 RuneId := ⟨.runes, 1⟩
def mintsTable : IndexerTable RuneId U128 := ⟨.runes, 2⟩
def utxoTable : OwnedTable := ⟨.runes, 3⟩
def activityTable : IndexerTable RuneActivityByTxKey RuneBalanceChange := ⟨.runes, 4⟩

/-- The balances of the inputs; the outputs they spend are taken off the table. -/
def unallocated (build : Build) (ctx : TxContext) : List TxIn → RuneBalances → Script RuneBalances
  | [], balances => .pure balances
  | input :: inputs, balances =>
      if input.previousOutput = TxoRef.null then unallocated build ctx inputs balances
      else match ctx.resolveInput input.previousOutput with
        | none => .fail (.panicked "todo")
        | some utxo => do
            let runes ← Script.lift (runesOf utxo)
            (if runes.isEmpty then .pure ()
              else utxoTable.delete ⟨utxo.script, utxo.height, input.previousOutput⟩)
            let balances ← Script.lift (balances.creditAll build runes)
            unallocated build ctx inputs balances

/-- The amount of a mint, if the terms of the rune allow it. -/
def mint (id : RuneId) (height : BlockHeight) : Script (Option U128) := do
  let info ← infoTable.get id
  match info.bind RuneInfo.terms with
  | none => .pure none
  | some terms =>
      if terms.startHeight.any (fun start => height < start) then .pure none
      else if terms.endHeight.any (fun stop => stop ≤ height) then .pure none
      else do
        let mints ← mintsTable.get id
        let currentMints := mints.getD 0
        if terms.cap.getD 0 ≤ currentMints then .pure none
        else if currentMints = BitVec.allOnes 128 then .fail (.panicked "mints overflow")
        else do
          mintsTable.set id (currentMints + 1)
          .pure (some (terms.amount.getD 0))

/-- Mint what the artifact asks for, on top of the balances. -/
def creditMint (build : Build) (artifact : Artifact) (height : BlockHeight)
    (balances : RuneBalances) : Script RuneBalances :=
  match artifact.mint with
  | none => .pure balances
  | some id => do
      let minted ← mint id height
      match minted with
      | none => .pure balances
      | some amount => Script.lift (balances.credit build id amount)

/-- Whether a tapscript pushes the commitment for a mature taproot output. -/
def commitsIn (commitment : List Byte) (utxo : Option Utxo) (height required : BlockHeight) :
    List (Option Instruction) → Except Error Bool
  | [] => .ok false
  | none :: _ => .ok false
  | some .op :: rest => commitsIn commitment utxo height required rest
  | some (.pushBytes bytes) :: rest =>
      if bytes ≠ commitment then commitsIn commitment utxo height required rest
      else match utxo with
        | none => .error (.panicked "missing txo resolver in rune commit")
        | some output =>
            if ¬ isP2tr output.script then commitsIn commitment utxo height required rest
            else if height < output.height then .error (.panicked "rune commit underflow")
            else if height - output.height = u64Max then .error (.panicked "rune commit overflow")
            else if required ≤ height - output.height + 1 then .ok true
            else commitsIn commitment utxo height required rest

def txCommitsToRune (indexer : RunesIndexer) (ctx : TxContext) (rune : Rune) :
    List TxIn → Except Error Bool
  | [] => .ok false
  | input :: inputs => match indexer.ordinals.tapscript input.witness with
      | none => indexer.txCommitsToRune ctx rune inputs
      | some tapscript =>
          match commitsIn (indexer.ordinals.commitment rune) (ctx.resolveInput input.previousOutput)
            ctx.point.height
            (indexer.commitmentConfirmations.getD indexer.ordinals.commitConfirmations)
            (indexer.ordinals.instructions tapscript) with
          | .error failure => .error failure
          | .ok true => .ok true
          | .ok false => indexer.txCommitsToRune ctx rune inputs

def etched (indexer : RunesIndexer) (tx : Transaction) (blockIndex : Nat) (ctx : TxContext)
    (artifact : Artifact) : Script (Option (RuneId × Rune)) :=
  if 2 ^ 32 ≤ blockIndex then .fail (.panicked "tx index u32 overflow")
  else match artifact.etching with
    | none => .pure none
    | some name =>
        let id : RuneId := ⟨ctx.point.height, BitVec.ofNat 32 blockIndex⟩
        if 2 ^ 32 ≤ ctx.point.height.toNat then .fail (.panicked "height u32 overflow")
        else match name with
          | none => .pure (some (id, indexer.ordinals.reserved id.block id.tx))
          | some rune =>
              if rune < indexer.ordinals.minimumAtHeight ctx.network (ctx.point.height.setWidth 32)
              then .pure none
              else if indexer.ordinals.isReserved rune then .pure none
              else do
                let known ← nameTable.get rune
                if known.isSome then .pure none
                else do
                  let commits ← Script.lift (indexer.txCommitsToRune ctx rune tx.input)
                  .pure (if commits then some (id, rune) else none)

def foldBounds (pick : U64 → U64 → U64) (relative absolute : Option U64) : Option U64 :=
  match relative, absolute with
  | some first, some second => some (pick first second)
  | some first, none => some first
  | none, other => other

def heightAfter (height offset : U64) : U64 :=
  if height.toNat + offset.toNat < 2 ^ 64 then height + offset else u64Max

def runeTerms (terms : Terms) (height : BlockHeight) : RuneTerms where
  amount := terms.amount
  cap := terms.cap
  startHeight := foldBounds (fun first second => if first ≤ second then second else first)
    (terms.offset.1.map (heightAfter height)) terms.height.1
  endHeight := foldBounds (fun first second => if first ≤ second then first else second)
    (terms.offset.2.map (heightAfter height)) terms.height.2

def runeInfo (artifact : Artifact) (txId : Txid) (rune : Rune) (height : BlockHeight) :
    Except Error RuneInfo :=
  match artifact with
  | .cenotaph _ => .ok ⟨rune, none, none, 0, height, txId, 0, 0⟩
  | .runestone stone => match stone.etching with
      | none => .error (.panicked "called `Option::unwrap()` on a `None` value")
      | some etching => .ok
          { name := rune
            terms := etching.terms.map (fun terms => runeTerms terms height)
            symbol := etching.symbol
            divisibility := etching.divisibility.getD 0
            etchingHeight := height
            etchingTx := txId
            premine := etching.premine.getD 0
            spacers := etching.spacers.getD 0 }

def createRuneEntry (artifact : Artifact) (txId : Txid) (id : RuneId) (rune : Rune)
    (height : BlockHeight) : Script Unit := do
  nameTable.set rune id
  let info ← Script.lift (runeInfo artifact txId rune height)
  infoTable.set id info

/-- What is left to allocate after the edicts; a cenotaph has none. -/
def runEdicts (build : Build) (outputs : List TxOut) (artifact : Artifact) (etched : Option RuneId)
    (balances : RuneBalances) : Except Error RuneLedger :=
  let none : List RuneBalances := List.replicate outputs.length ∅
  match artifact with
  | .cenotaph _ => .ok ⟨balances, none⟩
  | .runestone stone =>
      match etched with
      | .none => RuneLedger.applyEdicts build outputs etched stone.edicts ⟨balances, none⟩
      | some id => match stone.etching with
          | .none => .error (.panicked "called `Option::unwrap()` on a `None` value")
          | some etching => match balances.credit build id (etching.premine.getD 0) with
              | .error failure => .error failure
              | .ok balances =>
                  RuneLedger.applyEdicts build outputs etched stone.edicts ⟨balances, none⟩

/-- The leftovers go to one output; those of a cenotaph are burned. -/
def assignRest (build : Build) (order : MapOrder RuneId U128) (outputs : List TxOut)
    (artifact : Option Artifact) (ledger : RuneLedger) : Except Error (List RuneBalances) :=
  let assign (pointer : Option U32) : Except Error (List RuneBalances) :=
    match RuneLedger.leftoverOutput outputs pointer with
    | .error failure => .error failure
    | .ok none => .ok ledger.allocated
    | .ok (some vout) =>
        RuneLedger.assignLeftovers build vout (order.iter ledger.unallocated) ledger.allocated
  match artifact with
  | some (.cenotaph _) => .ok ledger.allocated
  | some (.runestone stone) => assign stone.pointer
  | none => assign none

/-- What each output is allocated, from the balances of the inputs. -/
def allocated (indexer : RunesIndexer) (tx : TransactionWithId) (blockIndex : Nat) (ctx : TxContext)
    (balances : RuneBalances) : Script (List RuneBalances) := do
  let order := indexer.runeOrder tx ctx tx.tx.output.length
  match indexer.ordinals.decipher tx.tx with
  | none => Script.lift (assignRest indexer.build order tx.tx.output none
      ⟨balances, List.replicate tx.tx.output.length ∅⟩)
  | some artifact => do
      let balances ← creditMint indexer.build artifact ctx.point.height balances
      let rune ← indexer.etched tx.tx blockIndex ctx artifact
      let ledger ← Script.lift
        (runEdicts indexer.build tx.tx.output artifact (rune.map Prod.fst) balances)
      (match rune with
        | none => .pure ()
        | some (id, name) => createRuneEntry artifact tx.txId id name ctx.point.height)
      Script.lift (assignRest indexer.build order tx.tx.output (some artifact) ledger)

end RunesIndexer

namespace RuneActivities

def activityOf (activities : RuneActivities) (key : AddressRuneKey) : RuneActivity :=
  (activities.lookup key).getD ⟨0, []⟩

def sendAll (build : Build) (script : ScriptPubKey) :
    UtxoRunes → RuneActivities → Except Error RuneActivities
  | [], activities => .ok activities
  | (id, amount) :: runes, activities =>
      let activity := activities.activityOf ⟨script, id⟩
      match build.add activity.sent amount with
      | .error failure => .error failure
      | .ok sum => sendAll build script runes (activities.insert ⟨script, id⟩ { activity with sent := sum })

def receiveAll (script : ScriptPubKey) (vout : U32) : UtxoRunes → RuneActivities → RuneActivities
  | [], activities => activities
  | (id, amount) :: runes, activities =>
      let activity := activities.activityOf ⟨script, id⟩
      receiveAll script vout runes
        (activities.insert ⟨script, id⟩ { activity with received := activity.received ++ [(vout, amount)] })

/-- The totals that the inputs send, per script. -/
def collectInputs (build : Build) (ctx : TxContext) :
    List TxIn → RuneActivities → Except Error RuneActivities
  | [], activities => .ok activities
  | input :: inputs, activities =>
      if input.previousOutput = TxoRef.null then collectInputs build ctx inputs activities
      else match ctx.resolveInput input.previousOutput with
        | none => collectInputs build ctx inputs activities
        | some utxo => match runesOf utxo with
            | .error failure => .error failure
            | .ok runes => match sendAll build utxo.script runes activities with
                | .error failure => .error failure
                | .ok activities => collectInputs build ctx inputs activities

def collectInputTotals (build : Build) (ctx : TxContext) (tx : Transaction) :
    Except Error RuneActivities :=
  if tx.isCoinbase then .ok ∅ else collectInputs build ctx tx.input ∅

/-- The records of one script and rune: what it sent, then each output that received some. -/
def changesOf (key : AddressRuneKey) (activity : RuneActivity) : List RuneBalanceChange :=
  (if activity.sent = 0 then [] else [⟨key.runeId, key.script, activity.sent, 0, none⟩]) ++
    activity.received.filterMap (fun received =>
      if received.2 = 0 then none
      else some ⟨key.runeId, key.script, 0, received.2, some received.1⟩)

end RuneActivities

namespace RunesIndexer

def fileOutputs (indexer : RunesIndexer) (tx : TransactionWithId) (ctx : TxContext) :
    List ((TxOut × RuneBalances) × Nat) → RuneActivities → Script RuneActivities
  | [], activities => .pure activities
  | ((output, balances), index) :: outputs, activities =>
      if 2 ^ 32 ≤ index then .fail (.panicked "output index u32 overflow")
      else if balances.entries.isEmpty then indexer.fileOutputs tx ctx outputs activities
      else do
        let runes := (indexer.runeOrder tx ctx index).iter balances
        let data ← Script.lift (allocate (encode runes))
        .attach (tx.txoRef index) .runes data do
          utxoTable.set ⟨output.scriptPubkey, ctx.point.height, tx.txoRef index⟩ ()
          indexer.fileOutputs tx ctx outputs
            (if indexer.indexActivity then
              RuneActivities.receiveAll output.scriptPubkey (BitVec.ofNat 32 index) runes activities
            else activities)

/-- Number the records of a transaction; the counter is raised before a record is written. -/
def logChanges (txId : Txid) : U16 → List RuneBalanceChange → Script Unit
  | _, [] => .pure ()
  | seq, change :: changes =>
      if seq = BitVec.allOnes 16 then .fail (.panicked "seq overflow")
      else do
        activityTable.set ⟨txId, seq⟩ change
        logChanges txId (seq + 1) changes

def processTx (indexer : RunesIndexer) : Indexer := fun tx blockIndex ctx =>
  if ctx.point.height < indexer.startHeight then .pure ()
  else do
    let balances ← unallocated indexer.build ctx tx.tx.input ∅
    let allocated ← indexer.allocated tx blockIndex ctx balances
    let sent ← Script.lift (if indexer.indexActivity
      then RuneActivities.collectInputTotals indexer.build ctx tx.tx else .ok ∅)
    let activities ← indexer.fileOutputs tx ctx (tx.tx.output.zip allocated).zipIdx sent
    if indexer.indexActivity then
      logChanges tx.txId 0 (((indexer.activityOrder tx ctx).iter activities).flatMap
        (fun entry => RuneActivities.changesOf entry.1 entry.2))
    else .pure ()

end RunesIndexer

end Symphony
