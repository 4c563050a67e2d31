import Symphony.Proof.RuneConservation
import Symphony.Proof.TxRule
import Symphony.Sync.RuneTables

/-! What one call of the rune indexer does, all cases in one record, and the rule that turns a
property every call keeps into one of every run. -/

namespace Symphony

open Encdec
open RunesIndexer

def heldRunes (set : UtxoSet) (refs : List TxoRef) : UtxoRunes :=
  refs.flatMap (fun ref => ((set ref).map Utxo.runes).getD [])

def sendRefs (build : Build) (set : UtxoSet) :
    List TxoRef → RuneActivities → Except Error RuneActivities
  | [], activities => .ok activities
  | ref :: refs, activities => match set ref with
      | none => sendRefs build set refs activities
      | some utxo => match RuneActivities.sendAll build utxo.script utxo.runes activities with
          | .error failure => .error failure
          | .ok activities => sendRefs build set refs activities

def mintOf (runes : RuneState) (height : BlockHeight) (artifact : Option Artifact) :
    Option (RuneId × U128) :=
  (artifact.bind Artifact.mint).bind
    (fun id => (runes.mint id height).map (fun amount => (id, amount)))

namespace RuneState

def mintedBy (runes : RuneState) (height : BlockHeight) (artifact : Option Artifact) : RuneState :=
  match artifact.bind Artifact.mint with
  | none => runes
  | some id => runes.minted id height

def entered (runes : RuneState) : Option (RuneId × Rune × RuneInfo) → RuneState
  | none => runes
  | some (id, name, info) => runes.etched id name info

@[simp] theorem names_mintedBy (runes : RuneState) (height : BlockHeight)
    (artifact : Option Artifact) : (runes.mintedBy height artifact).names = runes.names := by
  rw [mintedBy]
  split
  · rfl
  · rw [minted]
    split
    · rfl
    · rfl

@[simp] theorem infos_mintedBy (runes : RuneState) (height : BlockHeight)
    (artifact : Option Artifact) : (runes.mintedBy height artifact).infos = runes.infos := by
  rw [mintedBy]
  split
  · rfl
  · rw [minted]
    split
    · rfl
    · rfl

theorem log_entered (runes : RuneState) (height : BlockHeight) (artifact : Option Artifact)
    (rune : Option (RuneId × Rune × RuneInfo)) :
    ((runes.mintedBy height artifact).entered rune).log = runes.log := by
  have minting : (runes.mintedBy height artifact).log = runes.log := by
    rw [mintedBy]
    split
    · rfl
    · rw [minted]
      split
      · rfl
      · rfl
  cases rune with
  | none => exact minting
  | some rune => exact minting

end RuneState

def recordsOf (order : MapOrder AddressRuneKey RuneActivity) (activities : RuneActivities) :
    List RuneBalanceChange :=
  (order.iter activities).flatMap (fun entry => RuneActivities.changesOf entry.1 entry.2)

def SpentWithRunes (set : UtxoSet) (tx : TransactionWithId) (key : OwnedUtxoKey) : Prop :=
  key.txoRef ∈ tx.spends ∧ ∃ utxo, set key.txoRef = some utxo ∧ utxo.runes ≠ [] ∧
    key = ⟨utxo.script, utxo.height, key.txoRef⟩

/-- What the records of a call are made of: the totals that the inputs send and what the outputs are
allocated, with the orders in which the maps are iterated. -/
structure RuneReceipts (indexer : RunesIndexer) (set : UtxoSet) (tx : TransactionWithId) where
  order : Nat → MapOrder RuneId U128
  activityOrder : MapOrder AddressRuneKey RuneActivity
  allocated : List RuneBalances
  sent : RuneActivities
  sends : indexer.indexActivity → sendRefs indexer.build set tx.spends ∅ = .ok sent

structure RuneCall (indexer : RunesIndexer) (set : UtxoSet) (height : BlockHeight) (blockIndex : Nat)
    (tx : TransactionWithId) (before : RuneState) extends RuneReceipts indexer set tx where
  network : Network
  balances : RuneBalances
  etched : Option (RuneId × Rune × RuneInfo)
  ledger : RuneLedger
  started : ¬ height < indexer.startHeight
  held : ∀ ref ∈ tx.spends, ∃ utxo, set ref = some utxo ∧ runesOf utxo = .ok utxo.runes
  credited : (∅ : RuneBalances).creditAll indexer.build (heldRunes set tx.spends ++
    (mintOf before height (indexer.ordinals.decipher tx.tx)).toList) = .ok balances
  etches : ∀ id name info, etched = some (id, name, info) → ∃ artifact,
    indexer.ordinals.decipher tx.tx = some artifact ∧
      indexer.Etches before.names blockIndex height network artifact id name ∧
        runeInfo artifact tx.txId name height = .ok info
  ran : edictLedger indexer.build tx.tx.output (indexer.ordinals.decipher tx.tx)
    (etched.map Prod.fst) balances = .ok ledger
  assigned : assignRest indexer.build (order tx.tx.output.length) tx.tx.output
    (indexer.ordinals.decipher tx.tx) ledger = .ok allocated
  short : ∀ item ∈ (tx.tx.output.zip allocated).zipIdx, ∀ listed, outputRunes order item = some listed →
    (encode listed : List BigEndian.Byte).length < 2 ^ 63 ∧ item.1.1.scriptPubkey.length < 2 ^ 64
  few : indexer.indexActivity → (recordsOf activityOrder (receiveOutputs true order
    (tx.tx.output.zip allocated).zipIdx sent)).length ≤ 65535

section Call

variable {indexer : RunesIndexer} {set : UtxoSet} {height : BlockHeight} {blockIndex : Nat}
variable {tx : TransactionWithId} {before : RuneState}

namespace RuneReceipts

variable (receipts : RuneReceipts indexer set tx)

def items : List ((TxOut × RuneBalances) × Nat) := (tx.tx.output.zip receipts.allocated).zipIdx

def records : List RuneBalanceChange :=
  if indexer.indexActivity
  then recordsOf receipts.activityOrder
    (receiveOutputs true receipts.order receipts.items receipts.sent)
  else []

end RuneReceipts

namespace RuneCall

variable (call : RuneCall indexer set height blockIndex tx before)

def Files (key : OwnedUtxoKey) : Prop :=
  ∃ item ∈ call.items, (outputRunes call.order item).isSome ∧
    key = ⟨item.1.1.scriptPubkey, height, tx.txoRef item.2⟩

def after : RuneState :=
  { (before.mintedBy height (indexer.ordinals.decipher tx.tx)).entered call.etched with
    filed := fun key => (before.filed key ∧ ¬ SpentWithRunes set tx key) ∨ call.Files key
    log := logged tx.txId 0 call.records before.log }

end RuneCall

end Call

/-- The state of the tables as the stages of a call leave it. -/
structure Allocates (indexer : RunesIndexer) (tx : TransactionWithId) (blockIndex : Nat)
    (ctx : TxContext) (start : RuneBalances) (before : RuneState) (allocated : List RuneBalances)
    (after : RuneState) where
  balances : RuneBalances
  etched : Option (RuneId × Rune × RuneInfo)
  ledger : RuneLedger
  credited : start.creditAll indexer.build
    (mintOf before ctx.point.height (indexer.ordinals.decipher tx.tx)).toList = .ok balances
  etches : ∀ id name info, etched = some (id, name, info) → ∃ artifact,
    indexer.ordinals.decipher tx.tx = some artifact ∧
      indexer.Etches before.names blockIndex ctx.point.height ctx.network artifact id name ∧
        runeInfo artifact tx.txId name ctx.point.height = .ok info
  ran : edictLedger indexer.build tx.tx.output (indexer.ordinals.decipher tx.tx)
    (etched.map Prod.fst) balances = .ok ledger
  assigned : assignRest indexer.build (indexer.runeOrder tx ctx tx.tx.output.length) tx.tx.output
    (indexer.ordinals.decipher tx.tx) ledger = .ok allocated
  result : after = (before.mintedBy ctx.point.height (indexer.ordinals.decipher tx.tx)).entered etched

section Yields

variable {indexer : RunesIndexer} {tx : TransactionWithId} {blockIndex : Nat} {ctx : TxContext}
variable {balances : RuneBalances} {runes : RuneState} {state : TableState}

theorem creditMint_yields (artifact : Artifact) {height : BlockHeight} (build : Build)
    (shown : runes.Shown state.cells) :
    (creditMint build artifact height balances).Yields (fun result after =>
      after.attached = state.attached ∧
      balances.creditAll build (mintOf runes height (some artifact)).toList = Except.ok result ∧
      (runes.mintedBy height (some artifact)).Shown after.cells) state := by
  simp only [creditMint, mintOf, RuneState.mintedBy, Option.bind_some]
  cases artifact.mint with
  | none => exact ⟨rfl, rfl, shown⟩
  | some id =>
      simp only [Script.bind_eq, Option.bind_some]
      apply (mint_yields shown).bind
      rintro _ after ⟨attached, rfl, done⟩
      cases runes.mint id height with
      | none => exact ⟨attached, rfl, done⟩
      | some amount =>
          simp only [Script.yields_lift]
          intro result credited
          refine ⟨attached, ?_, done⟩
          simp only [Option.map_some, Option.toList_some, RuneBalances.creditAll, credited]

theorem allocated_yields (shown : runes.Shown state.cells) :
    (indexer.allocated tx blockIndex ctx balances).Yields (fun result after =>
      after.attached = state.attached ∧ ∃ runes', runes'.Shown after.cells ∧
        Nonempty (Allocates indexer tx blockIndex ctx balances runes result runes')) state := by
  simp only [allocated]
  cases deciphered : indexer.ordinals.decipher tx.tx with
  | none =>
      simp only [Script.yields_lift]
      intro result assigned
      refine ⟨trivial, runes, shown, ⟨balances, none,
        ⟨balances, List.replicate tx.tx.output.length ∅⟩, ?_, ?_, ?_, ?_, ?_⟩⟩
      · rw [deciphered]
        rfl
      · intro _ _ _ impossible
        cases impossible
      · rw [deciphered]
        rfl
      · rw [deciphered]
        exact assigned
      · rw [deciphered]
        rfl
  | some artifact =>
      simp only [Script.bind_eq]
      apply (creditMint_yields artifact indexer.build shown).bind
      rintro credited middle ⟨attached, credits, minted⟩
      apply (etched_yields minted).bind
      rintro rune _ ⟨rfl, etches⟩
      rw [Script.yields_bind, Script.yields_lift]
      intro ledger ran
      rw [RuneState.names_mintedBy] at etches
      cases rune with
      | none =>
          simp only [Script.bind, Script.yields_lift]
          intro result assigned
          refine ⟨attached, _, minted, ⟨credited, none, ledger, ?_, ?_, ?_, ?_, ?_⟩⟩
          · rw [deciphered]
            exact credits
          · intro _ _ _ impossible
            cases impossible
          · rw [deciphered]
            exact ran
          · rw [deciphered]
            exact assigned
          · rw [deciphered]
            rfl
      | some rune =>
          rcases rune with ⟨id, name⟩
          apply (createRuneEntry_yields minted).bind
          rintro _ final ⟨attached', info, entry, done⟩
          rw [Script.yields_lift]
          intro result assigned
          refine ⟨attached'.trans attached, _, done, ⟨credited, some (id, name, info), ledger, ?_, ?_,
            ?_, ?_, ?_⟩⟩
          · rw [deciphered]
            exact credits
          · rintro _ _ _ ⟨⟩
            exact ⟨artifact, deciphered, etches id name rfl, entry⟩
          · rw [deciphered]
            exact ran
          · rw [deciphered]
            exact assigned
          · rw [deciphered]
            rfl

end Yields

theorem spentRunes_eq (resolve : TxoRef → Option Utxo) (inputs : List TxIn) :
    spentRunes resolve inputs =
      heldRunes resolve ((inputs.map TxIn.previousOutput).filter (fun ref => ref ≠ TxoRef.null)) := by
  induction inputs with
  | nil => rfl
  | cons input inputs ih =>
      rw [spentRunes, ih, List.map_cons]
      by_cases null : input.previousOutput = TxoRef.null
      · rw [if_pos null, List.filter_cons_of_neg (by simp [null]), List.nil_append]
      · rw [if_neg null, List.filter_cons_of_pos (by simp [null]), heldRunes, heldRunes,
          List.flatMap_cons]

theorem heldRunes_congr {first second : UtxoSet} {refs : List TxoRef}
    (same : ∀ ref ∈ refs, first ref = second ref) : heldRunes first refs = heldRunes second refs := by
  simp only [heldRunes, List.flatMap_def]
  apply congrArg List.flatten
  apply List.map_congr_left
  intro ref member
  rw [same ref member]

theorem sendRefs_congr {build : Build} {first second : UtxoSet} {refs : List TxoRef}
    {activities : RuneActivities} (same : ∀ ref ∈ refs, first ref = second ref) :
    sendRefs build first refs activities = sendRefs build second refs activities := by
  induction refs generalizing activities with
  | nil => rfl
  | cons ref refs ih =>
      rw [List.forall_mem_cons] at same
      simp only [sendRefs, same.1]
      cases second ref with
      | none => exact ih same.2
      | some utxo =>
          simp only
          cases RuneActivities.sendAll build utxo.script utxo.runes activities with
          | error failure => rfl
          | ok activities => exact ih same.2

theorem collectInputs_eq {build : Build} {ctx : TxContext} {inputs : List TxIn}
    {activities : RuneActivities} (decodes : ∀ input ∈ inputs, input.previousOutput ≠ TxoRef.null →
      ∃ utxo, ctx.resolveInput input.previousOutput = some utxo ∧ runesOf utxo = .ok utxo.runes) :
    RuneActivities.collectInputs build ctx inputs activities = sendRefs build ctx.resolveInput
      ((inputs.map TxIn.previousOutput).filter (fun ref => ref ≠ TxoRef.null)) activities := by
  induction inputs generalizing activities with
  | nil => rfl
  | cons input inputs ih =>
      rw [List.forall_mem_cons] at decodes
      rw [RuneActivities.collectInputs, List.map_cons]
      by_cases null : input.previousOutput = TxoRef.null
      · rw [if_pos null, List.filter_cons_of_neg (by simp [null])]
        exact ih decodes.2
      · rcases decodes.1 null with ⟨utxo, found, decoded⟩
        rw [if_neg null, List.filter_cons_of_pos (by simp [null]), sendRefs, found]
        simp only [decoded]
        cases RuneActivities.sendAll build utxo.script utxo.runes activities with
        | error failure => rfl
        | ok activities => exact ih decodes.2

theorem collectInputTotals_eq {build : Build} {ctx : TxContext} {tx : TransactionWithId}
    (spends : (tx.tx.input.map TxIn.previousOutput).filter (fun ref => ref ≠ TxoRef.null) = tx.spends)
    (decodes : ∀ input ∈ tx.tx.input, input.previousOutput ≠ TxoRef.null →
      ∃ utxo, ctx.resolveInput input.previousOutput = some utxo ∧ runesOf utxo = .ok utxo.runes) :
    RuneActivities.collectInputTotals build ctx tx.tx =
      sendRefs build ctx.resolveInput tx.spends ∅ := by
  rw [RuneActivities.collectInputTotals]
  split
  · rename_i coinbase
    rw [TransactionWithId.spends, if_pos coinbase]
    rfl
  · rw [collectInputs_eq decodes, spends]

theorem logged_nil (txId : Txid) (log : RuneActivityByTxKey → Option RuneBalanceChange) :
    logged txId 0 [] log = log := by
  funext key
  rw [logged, if_neg]
  rintro ⟨_, _, high⟩
  rw [List.length_nil] at high
  omega

namespace RuneState

theorem entered_filed (runes : RuneState) (filed : OwnedUtxoKey → Prop) (height : BlockHeight)
    (artifact : Option Artifact) (rune : Option (RuneId × Rune × RuneInfo)) :
    (mintedBy { runes with filed } height artifact).entered rune =
      { (runes.mintedBy height artifact).entered rune with filed } := by
  have moved : mintedBy { runes with filed } height artifact =
      { runes.mintedBy height artifact with filed } := by
    simp only [mintedBy]
    cases artifact.bind Artifact.mint with
    | none => rfl
    | some id =>
        have same : mint { runes with filed } id height = runes.mint id height := rfl
        simp only [minted, same]
        cases runes.mint id height with
        | none => rfl
        | some amount => rfl
  rw [moved]
  cases rune with
  | none => rfl
  | some rune => rfl

end RuneState

def RuneCall.attachedTo {indexer : RunesIndexer} {set : UtxoSet} {height : BlockHeight}
    {blockIndex : Nat} {tx : TransactionWithId} {before : RuneState}
    (call : RuneCall indexer set height blockIndex tx before) (ref : TxoRef) : Option UtxoRunes :=
  call.items[ref.txoIndex.toNat]?.bind (outputRunes call.order)

/-- What a step of the chain makes of the tables. -/
inductive RuneStep (indexer : RunesIndexer) (set : UtxoSet) (step : IndexedTx) (before : RuneState) :
    RuneState → Prop where
  | idle (early : step.point.height < indexer.startHeight)
      (plain : ∀ ref, ref.txHash = step.txId → (step.attached ref).get? .runes = none) :
      RuneStep indexer set step before before
  | active (call : RuneCall indexer set step.point.height step.blockIndex step.tx before)
      (attached : ∀ ref, ref.txHash = step.txId →
        (step.attached ref).get? .runes = (call.attachedTo ref).map encode) :
      RuneStep indexer set step before call.after

section Whole

variable {indexer : RunesIndexer} {past : List IndexedTx} {tx : TransactionWithId}
variable {resolve : TxoRef → Option Utxo} {state : TableState} {before : RuneState}

theorem Called.held_eq (called : Called .runes past tx resolve state) :
    spentRunes resolve tx.tx.input = heldRunes (unspentAfter past) tx.spends := by
  rw [spentRunes_eq, called.spends_eq]
  exact heldRunes_congr (fun _ spent => called.resolve_eq spent)

theorem Called.collects (called : Called .runes past tx resolve state) (build : Build) (point : Point)
    (network : Network) (decodes : ∀ input ∈ tx.tx.input, input.previousOutput ≠ TxoRef.null →
      ∃ utxo, resolve input.previousOutput = some utxo ∧ runesOf utxo = .ok utxo.runes) :
    RuneActivities.collectInputTotals build ⟨point, network, resolve⟩ tx.tx =
      sendRefs build (unspentAfter past) tx.spends ∅ := by
  rw [collectInputTotals_eq called.spends_eq decodes]
  exact sendRefs_congr (fun _ spent => called.resolve_eq spent)

theorem removal_yields (called : Called .runes past tx resolve state) (shown : before.Shown state.cells)
    (point : Point) (network : Network) :
    (unallocated indexer.build ⟨point, network, resolve⟩ tx.tx.input ∅).Yields (fun balances after =>
      after.attached = state.attached ∧
      (∀ input ∈ tx.tx.input, input.previousOutput ≠ TxoRef.null → ∃ utxo,
        resolve input.previousOutput = some utxo ∧ runesOf utxo = .ok utxo.runes) ∧
      (∅ : RuneBalances).creditAll indexer.build (heldRunes (unspentAfter past) tx.spends) =
        .ok balances ∧
      RuneState.Shown { before with
        filed := fun key => before.filed key ∧ ¬ SpentWithRunes (unspentAfter past) tx key }
        after.cells) state := by
  apply (unallocated_yields shown).mono
  rintro balances after ⟨attached, decodes, credited, done⟩
  refine ⟨attached, decodes, ?_, done.same ?_⟩
  · rw [← credited, ← called.held_eq]
  · intro key
    have spent := @Called.spent_iff _ _ _ _ _ key called
      (fun utxo ref key => utxo.runes ≠ [] ∧ key = ⟨utxo.script, utxo.height, ref⟩) (by
        rintro utxo ref key ⟨_, rfl⟩
        rfl)
    rw [SpentWithRunes, ← spent]
    rfl

theorem Called.held (called : Called .runes past tx resolve state)
    (decodes : ∀ input ∈ tx.tx.input, input.previousOutput ≠ TxoRef.null →
      ∃ utxo, resolve input.previousOutput = some utxo ∧ runesOf utxo = .ok utxo.runes) :
    ∀ ref ∈ tx.spends, ∃ utxo, unspentAfter past ref = some utxo ∧ runesOf utxo = .ok utxo.runes := by
  intro ref spent
  rcases (called.mem_spends ref).mp spent with ⟨input, member, other, rfl⟩
  rw [← called.resolve_eq spent]
  exact decodes input member other

/-- The outputs, each at its own reference. -/
theorem outputs_yields (called : Called .runes past tx resolve state) {ctx : TxContext}
    {allocated : List RuneBalances} {sent : RuneActivities} {runes : RuneState}
    {middle : TableState} (attached : middle.attached = state.attached)
    (shown : runes.Shown middle.cells) :
    (indexer.fileOutputs tx ctx (tx.tx.output.zip allocated).zipIdx sent).Yields
      (fun activities after =>
        activities = receiveOutputs indexer.indexActivity (indexer.runeOrder tx ctx)
          (tx.tx.output.zip allocated).zipIdx sent ∧
        OutputsFiled (indexer.runeOrder tx ctx) tx ctx.point.height
          (tx.tx.output.zip allocated).zipIdx runes middle after ∧
        ∀ ref, ref.txHash = tx.txId → (after.attached ref).get? .runes =
          ((tx.tx.output.zip allocated).zipIdx[ref.txoIndex.toNat]?.bind
            (outputRunes (indexer.runeOrder tx ctx))).map encode) middle := by
  have count : (tx.tx.output.zip allocated).length < 2 ^ 32 := by
    rw [List.length_zip]
    exact lt_of_le_of_lt (Nat.min_le_left _ _) called.valid.small
  have plain (ref : TxoRef) (own : ref.txHash = tx.txId) :
      (middle.attached ref).get? .runes = none := by
    rw [attached]
    exact called.plain ref (by rw [own]; exact called.fresh)
  apply (fileOutputs_yields (TransactionWithId.nodup_txoRefs count) (fun _ _ => plain _ rfl)
    shown).mono
  rintro activities after ⟨received, files⟩
  refine ⟨received, files, ?_⟩
  intro ref own
  exact files.attached_at count own (plain ref own)

theorem records_yields {indexed : Bool} {changes : List RuneBalanceChange} {runes : RuneState}
    (shown : runes.Shown state.cells) :
    (if indexed then logChanges tx.txId 0 changes else .pure ()).Yields (fun _ after =>
      after.attached = state.attached ∧ (indexed → changes.length ≤ 65535) ∧
      RuneState.Shown { runes with
        log := logged tx.txId 0 (if indexed then changes else []) runes.log } after.cells) state := by
  cases indexed with
  | true =>
      apply (logChanges_yields shown).mono
      rintro _ after ⟨attached, few, done⟩
      refine ⟨attached, ?_, done⟩
      intro _
      rw [← Nat.zero_add changes.length]
      exact few
  | false =>
      refine ⟨rfl, (by intro impossible; cases impossible), ?_⟩
      simp only [Bool.false_eq_true, if_false, logged_nil]
      exact shown

theorem active_yields (called : Called .runes past tx resolve state) (shown : before.Shown state.cells)
    (point : Point) (blockIndex : Nat) (network : Network)
    (started : ¬ point.height < indexer.startHeight) :
    (indexer.processTx tx blockIndex ⟨point, network, resolve⟩).Yields (fun _ after =>
      ∃ call : RuneCall indexer (unspentAfter past) point.height blockIndex tx before,
        call.after.Shown after.cells ∧ ∀ ref, ref.txHash = tx.txId →
          (after.attached ref).get? .runes = (call.attachedTo ref).map encode) state := by
  let ctx : TxContext := ⟨point, network, resolve⟩
  simp only [processTx, if_neg started, Script.bind_eq]
  apply (removal_yields called shown point network).bind
  rintro inputs first ⟨attached, decodes, credited, left⟩
  apply (allocated_yields left).bind
  rintro allocated second ⟨attached', entered, shown', ⟨stages⟩⟩
  rw [Script.yields_bind, Script.yields_lift]
  intro sent sends
  apply (outputs_yields called (attached'.trans attached) shown').bind
  rintro activities third ⟨rfl, files, data⟩
  apply (records_yields files.shown).mono
  rintro _ after ⟨last, few, done⟩
  let call : RuneCall indexer (unspentAfter past) point.height blockIndex tx before :=
    { network, allocated, sent, started
      order := indexer.runeOrder tx ctx
      activityOrder := indexer.activityOrder tx ctx
      balances := stages.balances
      etched := stages.etched
      ledger := stages.ledger
      held := called.held decodes
      credited := by
        rw [RuneBalances.creditAll_append, credited]
        exact stages.credited
      etches := stages.etches
      ran := stages.ran
      assigned := stages.assigned
      sends := by
        intro active
        rw [if_pos active, called.collects indexer.build point network decodes] at sends
        exact sends
      short := files.short
      few := by
        intro active
        rw [active] at few
        exact few rfl }
  refine ⟨call, ?_, ?_⟩
  · have entry := stages.result
    rw [RuneState.entered_filed] at entry
    have kept : entered.log = before.log := by
      rw [entry]
      exact RuneState.log_entered before point.height _ stages.etched
    have records : call.records = if indexer.indexActivity then
        recordsOf (indexer.activityOrder tx ctx) (receiveOutputs indexer.indexActivity
          (indexer.runeOrder tx ctx) (tx.tx.output.zip allocated).zipIdx sent) else [] := by
      rw [RuneReceipts.records]
      split
      · rename_i active
        rw [active]
        rfl
      · rfl
    rw [RuneCall.after, records, ← kept]
    rw [entry] at done ⊢
    exact done
  · intro ref own
    rw [last]
    exact data ref own

theorem processTx_yields (called : Called .runes past tx resolve state)
    (shown : before.Shown state.cells) (point : Point) (blockIndex : Nat) (network : Network) :
    (indexer.processTx tx blockIndex ⟨point, network, resolve⟩).Yields (fun _ after =>
      ∃ runes, runes.Shown after.cells ∧ ∀ attached : TxoRef → ExtendedUtxoData,
        (∀ ref, ref.txHash = tx.txId →
          (attached ref).get? .runes = (after.attached ref).get? .runes) →
            RuneStep indexer (unspentAfter past) ⟨point, blockIndex, tx, attached⟩ before runes)
      state := by
  by_cases early : point.height < indexer.startHeight
  · simp only [processTx, if_pos early]
    refine ⟨before, shown, ?_⟩
    intro attached same
    apply RuneStep.idle early
    intro ref own
    rw [same ref own]
    exact called.plain ref (by rw [own]; exact called.fresh)
  · apply (active_yields called shown point blockIndex network early).mono
    rintro _ after ⟨call, done, data⟩
    refine ⟨call.after, done, ?_⟩
    intro attached same
    exact @RuneStep.active indexer _ ⟨point, blockIndex, tx, attached⟩ before call
      (fun ref own => (same ref own).trans (data ref own))

end Whole

end Symphony
