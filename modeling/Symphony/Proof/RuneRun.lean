import Symphony.Proof.RuneCall
import Symphony.Proof.TxPoints
import Symphony.Sync.RuneTotal

/-! The rune tables along a chain: a run of calls, one for each transaction. -/

namespace Symphony

open Encdec
open RunesIndexer
open VersionedLog (Increasing)

namespace RunesIndexer

variable {indexer : RunesIndexer} {tx : TransactionWithId}

/-- What the indexer writes and attaches for a transaction. -/
def footprint (tx : TransactionWithId) : Footprint :=
  .own .runes RuneKey (fun ref => ref.txHash = tx.txId)

theorem unallocated_within (build : Build) (ctx : TxContext) (inputs : List TxIn)
    (balances : RuneBalances) : (unallocated build ctx inputs balances).Within (footprint tx) := by
  induction inputs generalizing balances with
  | nil => trivial
  | cons input inputs ih =>
      simp only [unallocated]
      split
      · exact ih balances
      · split
        · trivial
        · rename_i utxo _
          apply (Script.within_lift _ _).bind
          intro runes
          have removal : (if runes.isEmpty then .pure () else
              utxoTable.delete ⟨utxo.script, utxo.height, input.previousOutput⟩).Within
                (footprint tx) := by
            split
            · trivial
            · exact utxoTable.delete_within _
          apply removal.bind
          intro _
          exact (Script.within_lift _ _).bind ih

theorem mint_within (id : RuneId) (height : BlockHeight) : (mint id height).Within (footprint tx) := by
  apply (infoTable.get_within _ id).bind
  intro info
  split
  · trivial
  · split
    · trivial
    · split
      · trivial
      · apply (mintsTable.get_within _ id).bind
        intro mints
        simp only
        split
        · trivial
        · split
          · trivial
          · exact (mintsTable.set_within (fun _ => .mints id)).bind (fun _ => trivial)

theorem creditMint_within (build : Build) (artifact : Artifact) (height : BlockHeight)
    (balances : RuneBalances) : (creditMint build artifact height balances).Within (footprint tx) := by
  rw [creditMint]
  split
  · trivial
  · apply (mint_within _ _).bind
    intro minted
    cases minted with
    | none => trivial
    | some amount => exact Script.within_lift _ _

theorem etched_within (etching : Transaction) (blockIndex : Nat) (ctx : TxContext)
    (artifact : Artifact) :
    (indexer.etched etching blockIndex ctx artifact).Within (footprint tx) := by
  rw [etched]
  split
  · trivial
  · split
    · trivial
    · simp only
      split
      · trivial
      · split
        · trivial
        · split
          · trivial
          · split
            · trivial
            · apply (nameTable.get_within _ _).bind
              intro known
              split
              · trivial
              · exact (Script.within_lift _ _).bind (fun _ => trivial)

theorem createRuneEntry_within (artifact : Artifact) (txId : Txid) (id : RuneId) (name : Rune)
    (height : BlockHeight) :
    (createRuneEntry artifact txId id name height).Within (footprint tx) := by
  apply (nameTable.set_within (fun _ => .name name)).bind
  intro _
  apply (Script.within_lift _ _).bind
  intro info
  exact infoTable.set_within (fun _ => .info id)

theorem allocated_within (blockIndex : Nat) (ctx : TxContext) (balances : RuneBalances) :
    (indexer.allocated tx blockIndex ctx balances).Within (footprint tx) := by
  rw [allocated]
  split
  · exact Script.within_lift _ _
  · apply (creditMint_within _ _ _ _).bind
    intro credited
    apply (etched_within _ _ _ _).bind
    intro rune
    apply (Script.within_lift _ _).bind
    intro ledger
    cases rune with
    | none => exact Script.within_lift _ _
    | some rune => exact (createRuneEntry_within _ _ _ _ _).bind (fun _ => Script.within_lift _ _)

theorem fileOutputs_within (ctx : TxContext) (items : List ((TxOut × RuneBalances) × Nat))
    (activities : RuneActivities) :
    (indexer.fileOutputs tx ctx items activities).Within (footprint tx) := by
  induction items generalizing activities with
  | nil => trivial
  | cons item items ih =>
      rcases item with ⟨⟨output, balances⟩, index⟩
      rw [fileOutputs]
      split
      · trivial
      · split
        · exact ih activities
        · apply (Script.within_lift _ _).bind
          intro data
          refine ⟨⟨rfl, rfl⟩, ?_⟩
          exact (utxoTable.set_within (fun short => .filed _ (owner_lt short))).bind (fun _ => ih _)

theorem logChanges_within (txId : Txid) (seq : U16) (changes : List RuneBalanceChange) :
    (logChanges txId seq changes).Within (footprint tx) := by
  induction changes generalizing seq with
  | nil => trivial
  | cons change changes ih =>
      rw [logChanges]
      split
      · trivial
      · exact (activityTable.set_within (fun _ => .log ⟨txId, seq⟩)).bind (fun _ => ih (seq + 1))

theorem processTx_within (blockIndex : Nat) (ctx : TxContext) :
    (indexer.processTx tx blockIndex ctx).Within (footprint tx) := by
  rw [processTx]
  split
  · trivial
  · apply (unallocated_within _ _ _ _).bind
    intro balances
    apply (allocated_within _ _ _).bind
    intro allocated
    apply (Script.within_lift _ _).bind
    intro sent
    apply (fileOutputs_within _ _ _).bind
    intro activities
    split
    · exact logChanges_within _ _ _
    · trivial

end RunesIndexer

/-- The tables after a sequence of transactions, newest first. -/
inductive RuneRun (indexer : RunesIndexer) : List IndexedTx → RuneState → Prop where
  | nil : RuneRun indexer [] .empty
  | cons {past : List IndexedTx} {step : IndexedTx} {before after : RuneState}
      (run : RuneRun indexer past before) (ordered : InOrder (step :: past))
      (fresh : step.txId ∉ past.map IndexedTx.txId)
      (valid : ValidTx (liveRefs (unspentAfter past)) step.tx)
      (leads : RuneStep indexer (unspentAfter past) step before after) :
      RuneRun indexer (step :: past) after

namespace RuneRun

variable {indexer : RunesIndexer} {past : List IndexedTx} {runes : RuneState}

theorem distinct (run : RuneRun indexer past runes) : (past.map IndexedTx.txId).Nodup := by
  induction run with
  | nil => exact List.nodup_nil
  | cons _ _ fresh _ _ ih => exact List.nodup_cons.mpr ⟨fresh, ih⟩

end RuneRun

def IndexedTx.runeId (step : IndexedTx) : RuneId :=
  ⟨step.point.height, BitVec.ofNat 32 step.blockIndex⟩

theorem IndexedTx.Before.runeId_ne {first second : IndexedTx} (before : first.Before second)
    (left : first.blockIndex < 2 ^ 32) (right : second.blockIndex < 2 ^ 32) :
    first.runeId ≠ second.runeId := by
  intro same
  have heights := congrArg RuneId.block same
  have places := congrArg (fun id => id.tx.toNat) same
  simp only [runeId, BitVec.toNat_ofNat, Nat.mod_eq_of_lt left, Nat.mod_eq_of_lt right]
    at heights places
  rcases before with below | level
  · rw [heights] at below
    exact absurd below (BitVec.lt_irrefl _)
  · omega

namespace RuneCall

variable {indexer : RunesIndexer} {set : UtxoSet} {height : BlockHeight} {blockIndex : Nat}
variable {tx : TransactionWithId} {before : RuneState}
variable (call : RuneCall indexer set height blockIndex tx before)

theorem infos_after : call.after.infos = match call.etched with
    | none => before.infos
    | some (id, _, info) => Function.update before.infos id (some info) := by
  rw [after]
  cases call.etched with
  | none => exact RuneState.infos_mintedBy before height _
  | some rune => exact congrArg (Function.update · rune.1 (some rune.2.2)) (RuneState.infos_mintedBy _ _ _)

theorem names_after : call.after.names = match call.etched with
    | none => before.names
    | some (id, name, _) => Function.update before.names name (some id) := by
  rw [after]
  cases call.etched with
  | none => exact RuneState.names_mintedBy before height _
  | some rune => exact congrArg (Function.update · rune.2.1 (some rune.1)) (RuneState.names_mintedBy _ _ _)

theorem mints_after : call.after.mints =
    (before.mintedBy height (indexer.ordinals.decipher tx.tx)).mints := by
  rw [after]
  cases call.etched with
  | none => rfl
  | some rune => rfl

end RuneCall

structure Etched (indexer : RunesIndexer) (step : IndexedTx) (id : RuneId) (info : RuneInfo) :
    Prop where
  started : ¬ step.point.height < indexer.startHeight
  index : step.blockIndex < 2 ^ 32
  id_eq : id = step.runeId
  entry : ∃ artifact, indexer.ordinals.decipher step.tx.tx = some artifact ∧
    artifact.etching.isSome ∧ runeInfo artifact step.txId info.name step.point.height = .ok info

theorem runeInfo_name {artifact : Artifact} {txId : Txid} {name : Rune} {height : BlockHeight}
    {info : RuneInfo} (entered : runeInfo artifact txId name height = .ok info) : info.name = name := by
  cases artifact with
  | cenotaph stone =>
      cases entered
      rfl
  | runestone stone =>
      simp only [runeInfo] at entered
      split at entered
      · cases entered
      · cases entered
        rfl

theorem RuneCall.etched_by {indexer : RunesIndexer} {set : UtxoSet} {step : IndexedTx}
    {before : RuneState} (call : RuneCall indexer set step.point.height step.blockIndex step.tx before)
    {id : RuneId} {name : Rune} {info : RuneInfo} (etches : call.etched = some (id, name, info)) :
    Etched indexer step id info ∧ info.name = name := by
  rcases call.etches id name info etches with ⟨artifact, deciphered, rules, entered⟩
  have named := runeInfo_name entered
  refine ⟨⟨call.started, rules.index, rules.id_eq, artifact, deciphered, ?_, ?_⟩, named⟩
  · rcases rules.name with ⟨asked, _⟩ | ⟨asked, _⟩
    · rw [asked]
      rfl
    · rw [asked]
      rfl
  · rw [named]
    exact entered

namespace RuneRun

variable {indexer : RunesIndexer} {past : List IndexedTx} {runes : RuneState}

theorem etched (run : RuneRun indexer past runes) {id : RuneId} {info : RuneInfo}
    (known : runes.infos id = some info) : ∃ step ∈ past, Etched indexer step id info := by
  induction run with
  | nil => cases known
  | @cons past step before after run ordered fresh valid leads ih =>
      cases leads with
      | idle early plain =>
          rcases ih known with ⟨other, member, etched⟩
          exact ⟨other, List.mem_cons_of_mem _ member, etched⟩
      | active call attached =>
          have old (same : before.infos id = some info) :
              ∃ other ∈ step :: past, Etched indexer other id info := by
            rcases ih same with ⟨other, member, etched⟩
            exact ⟨other, List.mem_cons_of_mem _ member, etched⟩
          rw [call.infos_after] at known
          cases etches : call.etched with
          | none =>
              rw [etches] at known
              exact old known
          | some rune =>
              rw [etches] at known
              simp only at known
              by_cases same : id = rune.1
              · rw [same, Function.update_self, Option.some.injEq] at known
                rw [same, ← known]
                exact ⟨step, List.mem_cons_self, (call.etched_by etches).1⟩
              · rw [Function.update_of_ne same] at known
                exact old known

theorem unknown (run : RuneRun indexer past runes) {step : IndexedTx}
    (ordered : InOrder (step :: past)) (index : step.blockIndex < 2 ^ 32) :
    runes.infos step.runeId = none := by
  cases known : runes.infos step.runeId with
  | none => rfl
  | some info =>
      rcases run.etched known with ⟨other, member, etched⟩
      have before := (List.pairwise_cons.mp ordered).1 other member
      exact absurd etched.id_eq.symm (before.runeId_ne etched.index index)

end RuneRun

theorem RuneRun.unknown_etched {indexer : RunesIndexer} {past : List IndexedTx} {before : RuneState}
    {step : IndexedTx} (run : RuneRun indexer past before) (ordered : InOrder (step :: past))
    (call : RuneCall indexer (unspentAfter past) step.point.height step.blockIndex step.tx before)
    (rune : RuneId × Rune × RuneInfo) (etches : call.etched = some rune) :
    before.infos rune.1 = none := by
  rcases rune with ⟨id, name, info⟩
  have etched := (call.etched_by etches).1
  rw [etched.id_eq]
  exact run.unknown ordered etched.index

def RunesGood (indexer : RunesIndexer) (past : List IndexedTx) (cells : RawKey → Cell) : Prop :=
  InOrder past → ∃ runes : RuneState, runes.Shown cells ∧ RuneRun indexer past runes

theorem runes_rule (indexer : RunesIndexer) :
    TxRule .runes indexer.processTx (RunesGood indexer) := by
  constructor
  · intro past cells other same good ordered
    rcases good ordered with ⟨runes, shown, run⟩
    exact ⟨runes, shown.congr same, run⟩
  · intro _
    exact ⟨.empty, RuneState.shown_empty, .nil⟩
  · intro past point blockIndex tx network resolve state good called
    have apart : (indexer.processTx tx blockIndex ⟨point, network, resolve⟩).Yields
        (fun _ after => ∀ ref, ref.txHash ≠ tx.txId →
          (after.attached ref).get? .runes = (state.attached ref).get? .runes) state := by
      have within := @processTx_within indexer tx blockIndex ⟨point, network, resolve⟩
      apply (within.yields Footprint.own_allows state).mono
      intro _ after settled ref other
      rw [settled.attached ref other]
    by_cases ordered : InOrder (⟨point, blockIndex, tx, fun _ => IndexMap.empty⟩ :: past)
    · have parts := List.pairwise_cons.mp ordered
      rcases good parts.2 with ⟨before, shown, run⟩
      apply ((processTx_yields called shown point blockIndex network).and apart).mono
      intro _ after done
      refine ⟨?_, done.2⟩
      intro attached own above
      rcases done.1 with ⟨runes, shown', leads⟩
      exact ⟨runes, shown', .cons run above called.fresh called.valid (leads attached own)⟩
    · apply apart.mono
      intro _ after same
      refine ⟨?_, same⟩
      intro attached _ above
      apply absurd _ ordered
      exact List.pairwise_cons.mpr (List.pairwise_cons.mp above)

/-- Every key of the indexer with a value is one of its tables. -/
abbrev RunesKeyed : List IndexedTx → (RawKey → Cell) → Prop := KeyedBy .runes RuneKey

theorem runesKeyed_rule (indexer : RunesIndexer) : TxRule .runes indexer.processTx RunesKeyed :=
  keyedBy_rule (fun _ blockIndex ctx => processTx_within blockIndex ctx)

theorem Records.runeRun {indexer : RunesIndexer} {history : History} {machine : Machine}
    (records : Records (RunesGood indexer) history machine) (fits : history.blocks.length < 2 ^ 64) :
    ∃ runes : RuneState, runes.Shown machine.stage.db.db.view ∧
      RuneRun indexer (chainTxs history.blocks) runes :=
  records.good (records.numbered.inOrder fits).1

section Midway

variable {indexer : RunesIndexer} {point : TxPoint}

theorem Midway.runeRun (midway : Midway .runes (RunesGood indexer) point) :
    ∃ runes : RuneState, runes.Shown point.task.getRaw ∧ RuneRun indexer point.past runes :=
  midway.holding.good (List.pairwise_cons.mp
    (midway.ordered ⟨default, [], []⟩ (fun _ => IndexMap.empty))).2

theorem Midway.served (midway : Midway .runes (RunesGood indexer) point) :
    Script.Served RuneKey point.task := by
  rcases midway.below with ⟨earlier, ordered, good⟩
  rcases good ordered with ⟨runes, shown, _⟩
  exact served_of_shown shown

end Midway

theorem Midway.runes {indexer : RunesIndexer} {others : Others .runes} {point : TxPoint}
    (midway : Midway .runes (RunesGood indexer) point) :
    ∃ runes : RuneState, runes.Shown point.task.getRaw ∧ RuneRun indexer point.past runes ∧
      ∀ tx ∈ point.rest.head?, ∀ after ctx', runIndexers tx point.blockIndex point.task point.ctx
        (others.with indexer.processTx) = .ok (after, ctx') →
          ∃ next : RuneState, next.Shown after.getRaw ∧ ∀ attached : TxoRef → ExtendedUtxoData,
            (∀ ref, ref.txHash = tx.txId →
              (attached ref).get? .runes = (ctx'.metadataOf ref).get? .runes) →
                RuneStep indexer (unspentAfter point.past)
                  ⟨point.ctx.point, point.blockIndex, tx, attached⟩ runes next := by
  rcases midway.runeRun with ⟨runes, shown, run⟩
  refine ⟨runes, shown, run, ?_⟩
  intro tx head after ctx' ran
  rcases midway.between with ⟨later, between⟩
  rcases List.head?_eq_some_iff.mp head with ⟨rest, same⟩
  rw [same, List.cons_append] at between
  rcases called_among between (midway.next tx head)
    (midway.fresh tx (by rw [same]; exact List.mem_cons_self)) midway.holding.plain ran with
    ⟨network, resolve, state, left, called, before, last, yields⟩
  have started : runes.Shown state.cells :=
    shown.congr (fun key owns => congrArg Except.toOption (before.cells key owns))
  rcases yields _ (processTx_yields called started point.ctx.point point.blockIndex network) with
    ⟨next, done, leads⟩
  refine ⟨next, done.congr (fun key owns => congrArg Except.toOption (last.cells key owns)), ?_⟩
  intro attached own
  apply leads attached
  intro ref hash
  rw [own ref hash]
  exact last.attached ref

def Others.alone (who : TransactionIndexer) : Others who := ⟨[], [], by simp⟩

def spendOrdinals : Ordinals where
  decipher tx := some (.runestone (if tx.input = [⟨TxoRef.null, []⟩]
    then ⟨[], some ⟨none, some 7, none, none, none,
      some ⟨some 5, some 1, (none, none), (none, none)⟩⟩, none, none⟩
    else ⟨[], none, some ⟨1, 0⟩, none⟩))
  minimumAtHeight _ _ := 0
  isReserved rune := 2 ^ 96 ≤ rune.toNat
  reserved block tx := BitVec.ofNat 128 (2 ^ 96 + block.toNat * 2 ^ 32 + tx.toNat)
  commitment _ := []
  commitConfirmations := 6
  tapscript _ := none
  instructions _ := []

def spendRunes : RunesIndexer where
  startHeight := 0
  indexActivity := true
  commitmentConfirmations := none
  ordinals := spendOrdinals
  build := ⟨true⟩
  runeOrder _ _ _ := .entries _ _
  activityOrder _ _ := .entries _ _

def runesMachine : Machine :=
  Machine.bootstrap ((Others.alone .runes).with spendRunes.processTx) (Stage.empty (mainnetConfig 2))

theorem runesMachine_run :
    let machine := Machine.bootstrap ((Others.alone .runes).with spendRunes.processTx)
      (Stage.empty (mainnetConfig 2))
    Increasing (machine.run spendEvents).stage.db.db.log ∧
      machine.uncached.ValidFrom ⟨[], []⟩ spendEvents ∧
        (machine.uncached.history spendEvents).blocks.length + 1 < 2 ^ 64 := by
  decide +kernel

end Symphony
