import Symphony.Proof.RuneBalances
import Symphony.Proof.RuneCompletion
import Symphony.Sync.Overflow

/-! The supply of a rune bounds every sum that is made of its amounts.

A call of the indexer adds up what its inputs hold, what it mints and what it premines; a balance
route adds up what the outputs of a script hold. Both stay within the supply, so that the builds
that check for overflow and those that wrap do the same. -/

namespace Symphony

open Encdec
open Holdings (Within)
open RunesIndexer
open VersionedLog (Increasing)

namespace RunesIndexer

def inBuild (indexer : RunesIndexer) (build : Build) : RunesIndexer := { indexer with build }

section InBuild

variable (indexer : RunesIndexer) (build : Build)

@[simp] theorem build_inBuild : (indexer.inBuild build).build = build := rfl

@[simp] theorem ordinals_inBuild : (indexer.inBuild build).ordinals = indexer.ordinals := rfl

@[simp] theorem startHeight_inBuild :
    (indexer.inBuild build).startHeight = indexer.startHeight := rfl

@[simp] theorem indexActivity_inBuild :
    (indexer.inBuild build).indexActivity = indexer.indexActivity := rfl

@[simp] theorem runeOrder_inBuild : (indexer.inBuild build).runeOrder = indexer.runeOrder := rfl

@[simp] theorem activityOrder_inBuild :
    (indexer.inBuild build).activityOrder = indexer.activityOrder := rfl

@[simp] theorem txCommitsToRune_inBuild (ctx : TxContext) (rune : Rune) (inputs : List TxIn) :
    (indexer.inBuild build).txCommitsToRune ctx rune inputs =
      indexer.txCommitsToRune ctx rune inputs := by
  induction inputs with
  | nil => rfl
  | cons input inputs ih =>
      simp only [txCommitsToRune, ordinals_inBuild, ih]
      rfl

@[simp] theorem etched_inBuild (tx : Transaction) (blockIndex : Nat) (ctx : TxContext)
    (artifact : Artifact) : (indexer.inBuild build).etched tx blockIndex ctx artifact =
      indexer.etched tx blockIndex ctx artifact := by
  simp only [etched, ordinals_inBuild, txCommitsToRune_inBuild]

@[simp] theorem fileOutputs_inBuild (tx : TransactionWithId) (ctx : TxContext)
    (items : List ((TxOut × RuneBalances) × Nat)) (activities : RuneActivities) :
    (indexer.inBuild build).fileOutputs tx ctx items activities =
      indexer.fileOutputs tx ctx items activities := by
  induction items generalizing activities with
  | nil => rfl
  | cons item items ih =>
      simp only [fileOutputs, runeOrder_inBuild, indexActivity_inBuild, ih]
      rfl

end InBuild

end RunesIndexer

section Quiet

variable {indexer : RunesIndexer} {ctx : TxContext}

theorem quiet_mint (id : RuneId) (height : BlockHeight) : (mint id height).Quiet := by
  simp only [mint, Script.bind_eq]
  apply (infoTable.quiet_get id).bind
  intro info
  cases info.bind RuneInfo.terms with
  | none => trivial
  | some terms =>
      simp only
      split
      · trivial
      · split
        · trivial
        · apply (mintsTable.quiet_get id).bind
          intro mints
          split
          · trivial
          · split
            · simp [Script.Quiet, Error.Overflows]
            · exact (mintsTable.quiet_set id _).bind (fun _ => trivial)

theorem inRange_commitsIn {commitment : List BigEndian.Byte} {utxo : Option Utxo}
    {height required : BlockHeight} (instructions : List (Option Instruction)) :
    InRange (commitsIn commitment utxo height required instructions) := by
  induction instructions with
  | nil => exact inRange_ok false
  | cons instruction instructions ih =>
      cases instruction with
      | none => exact inRange_ok false
      | some instruction =>
          cases instruction with
          | op => exact ih
          | pushBytes bytes =>
              simp only [commitsIn]
              split
              · exact ih
              · cases utxo with
                | none => exact inRange_error (by simp [Error.Overflows])
                | some output =>
                    simp only
                    split
                    · exact ih
                    · split
                      · exact inRange_error (by simp [Error.Overflows])
                      · split
                        · exact inRange_error (by simp [Error.Overflows])
                        · split
                          · exact inRange_ok true
                          · exact ih

theorem inRange_txCommitsToRune (rune : Rune) (inputs : List TxIn) :
    InRange (indexer.txCommitsToRune ctx rune inputs) := by
  induction inputs with
  | nil => exact inRange_ok false
  | cons input inputs ih =>
      rw [txCommitsToRune]
      split
      · exact ih
      · rename_i tapscript _
        have first := @inRange_commitsIn (indexer.ordinals.commitment rune)
          (ctx.resolveInput input.previousOutput) ctx.point.height
          (indexer.commitmentConfirmations.getD indexer.ordinals.commitConfirmations)
          (indexer.ordinals.instructions tapscript)
        split
        · rename_i failure failed
          exact inRange_error (first failure failed)
        · exact inRange_ok true
        · exact ih

theorem quiet_etched (tx : Transaction) (blockIndex : Nat) (artifact : Artifact) :
    (indexer.etched tx blockIndex ctx artifact).Quiet := by
  simp only [etched]
  split
  · simp [Script.Quiet, Error.Overflows]
  · cases artifact.etching with
    | none => trivial
    | some name =>
        simp only
        split
        · simp [Script.Quiet, Error.Overflows]
        · cases name with
          | none => trivial
          | some rune =>
              simp only
              split
              · trivial
              · split
                · trivial
                · apply (nameTable.quiet_get rune).bind
                  intro known
                  split
                  · trivial
                  · exact (Script.quiet_lift (inRange_txCommitsToRune rune tx.input)).bind
                      (fun _ => trivial)

theorem quiet_createRuneEntry (artifact : Artifact) (txId : Txid) (id : RuneId) (rune : Rune)
    (height : BlockHeight) : (createRuneEntry artifact txId id rune height).Quiet := by
  have entry : InRange (runeInfo artifact txId rune height) := by
    cases artifact with
    | cenotaph stone => exact inRange_ok _
    | runestone stone =>
        simp only [runeInfo]
        split
        · exact inRange_error (by simp [Error.Overflows])
        · exact inRange_ok _
  apply (nameTable.quiet_set rune id).bind
  intro _
  apply (Script.quiet_lift entry).bind
  intro info
  exact infoTable.quiet_set id info

theorem quiet_fileOutputs {tx : TransactionWithId} (items : List ((TxOut × RuneBalances) × Nat))
    (activities : RuneActivities) : (indexer.fileOutputs tx ctx items activities).Quiet := by
  induction items generalizing activities with
  | nil => trivial
  | cons item items ih =>
      rw [fileOutputs]
      split
      · simp [Script.Quiet, Error.Overflows]
      · split
        · exact ih activities
        · apply (Script.quiet_lift (inRange_allocate _)).bind
          intro data
          exact (utxoTable.quiet_set ⟨item.1.1.scriptPubkey, ctx.point.height, tx.txoRef item.2⟩
            ()).bind (fun _ => ih _)

theorem quiet_logChanges (txId : Txid) (seq : U16) (changes : List RuneBalanceChange) :
    (logChanges txId seq changes).Quiet := by
  induction changes generalizing seq with
  | nil => trivial
  | cons change changes ih =>
      rw [logChanges]
      split
      · simp [Script.Quiet, Error.Overflows]
      · exact (activityTable.quiet_set _ change).bind (fun _ => ih (seq + 1))

end Quiet

section Stages

variable {indexer : RunesIndexer} {tx : TransactionWithId} {blockIndex : Nat} {ctx : TxContext}
variable {balances : RuneBalances} {runes : RuneState} {state : TableState}

theorem unallocated_steady {inputs : List TxIn}
    (resolves : ∀ input ∈ inputs, input.previousOutput ≠ TxoRef.null → ∃ utxo,
      ctx.resolveInput input.previousOutput = some utxo ∧ runesOf utxo = .ok utxo.runes)
    (bounded : ∀ id, RuneBalances.amount balances id +
      amountIn (spentRunes ctx.resolveInput inputs) id < 2 ^ 128) :
    Script.Steady (fun build => unallocated build ctx inputs balances) state := by
  induction inputs generalizing state balances with
  | nil =>
      have quiet : (Script.pure balances).Quiet := trivial
      exact quiet.steady state
  | cons input inputs ih =>
      rw [List.forall_mem_cons] at resolves
      simp only [unallocated, spentRunes] at bounded ⊢
      by_cases null : input.previousOutput = TxoRef.null
      · simp only [if_pos null, List.nil_append] at bounded ⊢
        exact ih resolves.2 bounded
      · rcases resolves.1 null with ⟨utxo, found, decoded⟩
        simp only [if_neg null, found, Option.map_some, Option.getD_some, amountIn_append] at bounded ⊢
        have room (id : RuneId) : RuneBalances.amount balances id + amountIn utxo.runes id < 2 ^ 128 := by
          have whole := bounded id
          omega
        rcases RuneBalances.creditAll_ok room with ⟨middle, credited, amounts, _⟩
        have rest (id : RuneId) : RuneBalances.amount middle id +
            amountIn (spentRunes ctx.resolveInput inputs) id < 2 ^ 128 := by
          rw [amounts, Nat.add_assoc]
          exact bounded id
        have taken : (if utxo.runes.isEmpty = true then Script.pure ()
            else utxoTable.delete ⟨utxo.script, utxo.height, input.previousOutput⟩).Quiet := by
          split
          · trivial
          · exact utxoTable.quiet_delete ⟨utxo.script, utxo.height, input.previousOutput⟩
        simp only [decoded, Script.bind_eq]
        apply Script.steady_lift_bind (fun _ => rfl)
        apply taken.steady_bind
        intro _ later
        exact Script.steady_lift_bind credited (ih resolves.2 rest)

theorem creditMint_steady {artifact : Artifact} {height : BlockHeight}
    (shown : runes.Shown state.cells) (bounded : ∀ id, RuneBalances.amount balances id +
      amountIn (mintOf runes height (some artifact)).toList id < 2 ^ 128) :
    Script.Steady (fun build => creditMint build artifact height balances) state := by
  have quiet : (Script.pure balances).Quiet := trivial
  simp only [creditMint, mintOf, Option.bind_some] at bounded ⊢
  cases asked : artifact.mint with
  | none => exact quiet.steady state
  | some id =>
      simp only [asked, Option.bind_some] at bounded
      simp only [Script.bind_eq]
      apply Script.Steady.bind ⟨true⟩ ((quiet_mint id height).steady state) (mint_yields shown)
      intro outcome after ends
      rw [ends.2.1]
      cases minted : runes.mint id height with
      | none => exact quiet.steady after
      | some amount =>
          have room := bounded id
          simp only [minted, Option.map_some, Option.toList_some, amountIn_cons, amountIn_nil,
            if_true, Nat.add_zero] at room
          rcases RuneBalances.credit_ok room with ⟨credited, success, _⟩
          exact Script.steady_lift success

theorem allocated_steady (shown : runes.Shown state.cells)
    (guaranteed : ∀ artifact ∈ indexer.ordinals.decipher tx.tx, artifact.Guaranteed tx.tx.output)
    (new : blockIndex < 2 ^ 32 → runes.infos ⟨ctx.point.height, BitVec.ofNat 32 blockIndex⟩ = none)
    (bounded : ∀ etched : Option RuneId, (∀ id, etched = some id → runes.infos id = none) → ∀ id,
      RuneBalances.amount balances id +
        amountIn (mintOf runes ctx.point.height (indexer.ordinals.decipher tx.tx)).toList id +
          amountIn (premineOf (indexer.ordinals.decipher tx.tx) etched) id < 2 ^ 128) :
    Script.Steady (fun build => (indexer.inBuild build).allocated tx blockIndex ctx balances)
      state := by
  simp only [allocated, ordinals_inBuild, runeOrder_inBuild, build_inBuild, etched_inBuild,
    Script.bind_eq]
  cases deciphered : indexer.ordinals.decipher tx.tx with
  | none =>
      have nothing : ∀ stone ∈ (none : Option Artifact), stone.Guaranteed tx.tx.output := by
        intro _ impossible
        cases impossible
      rw [deciphered] at bounded
      have fits := bounded none (by simp)
      rcases apportions_ok (indexer.runeOrder tx ctx tx.tx.output.length) nothing (by simp) fits
        (fun id => rfl) with ⟨ledger, given, ran, assigned, _⟩
      obtain rfl := Except.ok.inj (ran indexer.build)
      exact Script.steady_lift assigned
  | some artifact =>
      rw [deciphered] at bounded guaranteed
      have room (id : RuneId) : RuneBalances.amount balances id + amountIn
          (mintOf runes ctx.point.height (some artifact)).toList id < 2 ^ 128 := by
        have whole := bounded none (by simp) id
        omega
      apply (creditMint_steady shown room).bind indexer.build
        (creditMint_yields artifact indexer.build shown)
      rintro credited middle ⟨_, listed, minted⟩
      rcases RuneBalances.creditAll_ok room with ⟨same, success, amounts, _⟩
      obtain rfl : same = credited := Except.ok.inj ((success indexer.build).symm.trans listed)
      simp only [← amounts] at bounded
      apply Script.Steady.bind indexer.build
        ((quiet_etched tx.tx blockIndex artifact).steady middle) (etched_yields minted)
      rintro rune _ ⟨rfl, etches⟩
      have asks : ∀ stone ∈ some artifact, (rune.map Prod.fst).isSome → stone.etching.isSome := by
        rintro _ ⟨⟩ asked
        rw [Option.isSome_map, Option.isSome_iff_exists] at asked
        rcases asked with ⟨⟨id, name⟩, outcome⟩
        exact (etches id name outcome).asks
      have unknown (id : RuneId) (named : rune.map Prod.fst = some id) : runes.infos id = none := by
        rw [Option.map_eq_some_iff] at named
        rcases named with ⟨⟨own, name⟩, outcome, rfl⟩
        have rules := etches own name outcome
        rw [rules.id_eq]
        exact new rules.index
      rcases apportions_ok (indexer.runeOrder tx ctx tx.tx.output.length) guaranteed asks
        (bounded _ unknown) (fun _ => rfl) with ⟨ledger, given, ran, assigned, _⟩
      apply Script.steady_lift_bind ran
      cases rune with
      | none => exact Script.steady_lift assigned
      | some rune =>
          apply (quiet_createRuneEntry artifact tx.txId rune.1 rune.2 ctx.point.height).steady_bind
          intro _ later
          exact Script.steady_lift assigned

end Stages

section Whole

variable {indexer : RunesIndexer} {past : List IndexedTx} {tx : TransactionWithId}
variable {resolve : TxoRef → Option Utxo} {state : TableState} {before : RuneState}
variable {point : Point} {blockIndex : Nat}

/-- Whatever a call adds up is within the supply. -/
theorem processTx_steady (called : Called .runes past tx resolve state)
    (shown : before.Shown state.cells) (run : RuneRun indexer past before)
    (ordered : InOrder (⟨point, blockIndex, tx, fun _ => IndexMap.empty⟩ :: past))
    (guaranteed : indexer.ordinals.Guaranteed) (network : Network) :
    Script.Steady (fun build => (indexer.inBuild build).processTx tx blockIndex
      ⟨point, network, resolve⟩) state := by
  have quiet : (Script.pure ()).Quiet := trivial
  simp only [processTx, startHeight_inBuild, build_inBuild, indexActivity_inBuild,
    activityOrder_inBuild, fileOutputs_inBuild, Script.bind_eq]
  by_cases early : point.height < indexer.startHeight
  · simp only [if_pos early]
    exact quiet.steady state
  · simp only [if_neg early]
    have indexed := run.indexed guaranteed
    have supplied := run.supplied guaranteed
    have inputs : ∀ input ∈ tx.tx.input, input.previousOutput ≠ TxoRef.null → ∃ utxo,
        resolve input.previousOutput = some utxo ∧ runesOf utxo = .ok utxo.runes := by
      intro input member other
      rcases called.resolves indexed member other with ⟨utxo, found, _, decoded⟩
      exact ⟨utxo, found, decoded⟩
    apply (unallocated_steady inputs (called.room supplied)).bind indexer.build
      (removal_yields called shown point network)
    rintro balances first ⟨_, decodes, credited, left⟩
    have fits (etched : Option RuneId) (new : ∀ id, etched = some id → before.infos id = none)
        (id : RuneId) : RuneBalances.amount balances id +
          amountIn (mintOf before point.height (indexer.ordinals.decipher tx.tx)).toList id +
            amountIn (premineOf (indexer.ordinals.decipher tx.tx) etched) id < 2 ^ 128 := by
      rw [supplied.credited_amount called.valid credited]
      exact supplied.brought_lt called.valid new id
    have artifacts : ∀ artifact ∈ indexer.ordinals.decipher tx.tx, artifact.Guaranteed tx.tx.output :=
      fun artifact found => guaranteed.flow tx.tx artifact found
    have unknown : blockIndex < 2 ^ 32 →
        before.infos ⟨point.height, BitVec.ofNat 32 blockIndex⟩ = none := run.unknown ordered
    have stage := @allocated_steady indexer tx blockIndex ⟨point, network, resolve⟩ balances _ first
      left artifacts unknown fits
    apply stage.bind indexer.build (allocated_yields left)
    intro allocated second _
    rcases sendRefs_start (supplied.spends_lt called.valid) with ⟨sent, sends, _⟩
    have collected (build : Build) : (if indexer.indexActivity = true
        then RuneActivities.collectInputTotals build ⟨point, network, resolve⟩ tx.tx else .ok ∅) =
          .ok (if indexer.indexActivity = true then sent else ∅) := by
      split
      · rw [called.collects build point network decodes]
        exact sends build
      · rfl
    apply Script.steady_lift_bind collected
    apply (quiet_fileOutputs _ _).steady_bind
    intro activities third
    by_cases active : indexer.indexActivity = true
    · simp only [active, ↓reduceIte]
      exact (quiet_logChanges tx.txId 0 _).steady third
    · simp only [active]
      exact quiet.steady third

end Whole

/-- At a point the call for the next transaction, once the indexers before it are done. -/
theorem Midway.call_steady {indexer : RunesIndexer} {others : Others .runes} {point : TxPoint}
    (midway : Midway .runes (RunesGood indexer) point) (guaranteed : indexer.ordinals.Guaranteed)
    {tx : TransactionWithId} (head : tx ∈ point.rest.head?) {task : IndexingTask}
    {ctx : IndexingContext} (early : runIndexers tx point.blockIndex point.task point.ctx
      others.before = .ok (task, ctx)) :
    ∃ result, InRange result ∧ ∀ build,
      ((indexer.inBuild build).processTx tx point.blockIndex ctx.toTxContext).run task ctx =
        result := by
  rcases midway.runeRun with ⟨runes, shown, run⟩
  rcases midway.called head early with ⟨called, alike, view⟩
  have tables : runes.Shown task.getRaw :=
    shown.congr (fun key owns => congrArg Except.toOption (alike.cells key owns))
  rw [view]
  rcases processTx_steady called tables run (midway.ordered tx _) guaranteed
    point.ctx.network task ctx rfl with ⟨result, alike, inside⟩
  exact ⟨result, inside, alike⟩

theorem Midway.unspent {who : TransactionIndexer} {Good : List IndexedTx → (RawKey → Cell) → Prop}
    {point : TxPoint} (midway : Midway who Good point) :
    (∀ ref, point.task.get UtxoByTxoRefKV ref =
      .ok (if ref ∈ point.ctx.chainedTxos then none else unspentAfter point.past ref)) ∧
    ∀ ref ∈ point.ctx.chainedTxos, ∀ utxo, unspentAfter point.past ref = some utxo →
      point.ctx.resolveInput ref = some utxo := by
  rcases midway.between with ⟨later, between⟩
  constructor
  · intro ref
    exact between.stores.get ref
  · intro ref chained utxo found
    have live : (unspentAfter point.past ref).isSome := by
      rw [found]
      rfl
    rcases between.awaited ref chained (Or.inl live) with ⟨tx, member, spends⟩
    exact between.resolves tx member ref spends utxo found

/-- Mints stay within the cap of the terms, and what is held within what was premined and minted;
of a rune without an entry there is nothing. -/
def SupplyBounded (info : Option RuneInfo) (mints : Option U128) (held : TxoRef → Nat) : Prop :=
  match info with
  | none => mints = none ∧ Within held 0
  | some info => (mints.getD 0).toNat ≤ info.mintCap.toNat ∧
      Within held (info.premine.toNat + (mints.getD 0).toNat * info.mintAmount.toNat)

/-- The tables of entries and mints bound what the outputs of a set hold of every rune. -/
structure SupplyBounds (set : UtxoSet) (infos : RuneId → Except Error (Option RuneInfo))
    (mints : RuneId → Except Error (Option U128)) : Prop where
  decodes : ∀ ref utxo, set ref = some utxo → runesOf utxo = .ok utxo.runes
  bounded : ∀ id, ∃ info count, infos id = .ok info ∧ mints id = .ok count ∧
    SupplyBounded info count (heldBy set id)

theorem RuneRun.supplyBounds {indexer : RunesIndexer} {past : List IndexedTx} {runes : RuneState}
    (run : RuneRun indexer past runes) (guaranteed : indexer.ordinals.Guaranteed)
    {infos : RuneId → Except Error (Option RuneInfo)} {mints : RuneId → Except Error (Option U128)}
    (entries : ∀ id, infos id = .ok (runes.infos id)) (counts : ∀ id, mints id = .ok (runes.mints id)) :
    SupplyBounds (unspentAfter past) infos mints := by
  have supplied := run.supplied guaranteed
  refine ⟨fun ref utxo found => (run.indexed guaranteed).runesOf_ok found, ?_⟩
  intro id
  refine ⟨_, _, entries id, counts id, ?_⟩
  have within := supplied.within id
  rw [RuneState.supply] at within
  cases known : runes.infos id with
  | none =>
      rw [known] at within
      exact ⟨supplied.issued.unknown id known, within⟩
  | some info =>
      rw [known] at within
      exact ⟨supplied.issued.capped id info known, within⟩

section Routes

open Serve

variable {indexer : RunesIndexer} {reader : Reader} {past : List IndexedTx} {runes : RuneState}
variable {script : ScriptPubKey} {entries : List RuneEntry}

def RouteInRange {α : Type} (answer : Except ServeError α) : Prop :=
  ∀ failure, answer = .error (.symphony failure) → ¬ failure.Overflows

theorem Reader.inRange_get {Key Value : Type} [Encode Key] [Decode Value] (reader : Reader)
    (table : Table Key Value) (key : Key) : InRange (reader.get table key) := by
  apply (reader.db.inRange_get reader.timestamp (table.encodeKey key)).bind
  intro stored _
  cases stored with
  | none => exact inRange_ok _
  | some bytes =>
      apply (inRange_liftDecoding (decodeAll bytes : Except DecodingError Value)).bind
      intro value _
      exact inRange_ok _

theorem RunesIndexed.opReturn_spent (indexed : RunesIndexed past runes)
    (distinct : (past.map IndexedTx.txId).Nodup) {key : OwnedUtxoKey} (filed : runes.filed key)
    (stays : isOpReturn key.owner = true) : unspentAfter past key.txoRef = none := by
  have files : ∃ step ∈ past, runesIndex.files step key := by
    rcases (indexed.filed key).mp filed with ⟨⟨step, member, removes⟩, _⟩ | ⟨step, member, files, _⟩
    · exact ⟨step, member, runesIndex.filed step key removes⟩
    · exact ⟨step, member, files⟩
  rcases files with ⟨step, member, output, placed, own, _⟩
  cases found : unspentAfter past key.txoRef with
  | none => rfl
  | some utxo =>
      rcases unspentAfter_creator found with ⟨other, inside, created, made, _⟩
      have hash : key.txoRef.txHash = step.txId :=
        TransactionWithId.txHash_of_outputAt (by rw [placed]; rfl)
      have ids : other.txId = step.txId := (TransactionWithId.txHash_of_creates made).symm.trans hash
      obtain rfl := IndexedTx.eq_of_txId distinct inside member ids
      rw [TransactionWithId.creates_eq, placed, Option.filter_some, own, stays] at made
      cases made

theorem Records.opReturn_scan {history : History} {machine : Machine}
    (records : Records (RunesGood indexer) history machine)
    (keyed : Records RunesKeyed history machine) (fits : history.blocks.length < 2 ^ 64)
    (guaranteed : indexer.ordinals.Guaranteed) (sees : reader.Sees machine.stage.db.db.view)
    (stays : isOpReturn script = true) (short : script.length < 2 ^ 64) :
    ∀ entry ∈ balancesScan reader script, ∃ key : RuneUtxosByScriptKey, entry = .ok (key, ()) ∧
      reader.get UtxoByTxoRefKV key.txoRef = .ok none := by
  rcases records.runeRun fits with ⟨runes, shown, run⟩
  have table : RunesKeyed (chainTxs history.blocks) machine.stage.db.db.view := keyed.good
  rcases table.ownerScan shown sees short with ⟨keys, scan, _, _, mem⟩
  intro entry member
  rw [scan, List.mem_map] at member
  rcases member with ⟨key, listed, rfl⟩
  rcases (mem key).mp listed with ⟨filed, own, _⟩
  refine ⟨key, rfl, ?_⟩
  rw [sees.get_latest, records.stores.read, ← unspentAfter_chainTxs,
    (run.indexed guaranteed).opReturn_spent run.distinct filed (by rw [own]; exact stays)]

/-- The answers of the two routes that add up balances are the same in every build. -/
structure BalancesInRange (reader : Reader) (script : ScriptPubKey) : Prop where
  all : ∀ includeInfo, ∃ answer, RouteInRange answer ∧
    ∀ build, addressesAllRuneBalances build reader script includeInfo = answer
  specific : ∀ rune, ∃ answer, RouteInRange answer ∧
    ∀ build, addressesSpecificRuneBalance build reader script rune = answer

theorem routeInRange_ok {α : Type} (value : α) : RouteInRange (.ok value : Except ServeError α) := by
  intro failure impossible
  cases impossible

theorem routeInRange_specified (reader : Reader) (rune : RuneIdentifier) :
    RouteInRange (rune.specified reader) := by
  cases rune with
  | id id => exact routeInRange_ok id
  | name name =>
      have read := reader.inRange_get RuneIdByNameKV name
      rw [RuneIdentifier.specified]
      intro failure failed
      split at failed
      · cases failed
      · cases failed
      · rename_i other found
        cases failed
        exact read failure found

theorem specific_inRange (found : ∀ rune id, rune.specified reader = .ok id → ∃ answer,
      RouteInRange answer ∧ ∀ build, addressesSpecificRuneBalance build reader script rune = answer)
    (rune : RuneIdentifier) : ∃ answer, RouteInRange answer ∧
      ∀ build, addressesSpecificRuneBalance build reader script rune = answer := by
  cases specified : rune.specified reader with
  | ok id => exact found rune id specified
  | error failure =>
      have inside := routeInRange_specified reader rune
      rw [specified] at inside
      refine ⟨.error failure, fun other same => inside other (by cases same; rfl), ?_⟩
      intro build
      rw [addressesSpecificRuneBalance, specified]

theorem balancesInRange_missing (missing : ∀ entry ∈ balancesScan reader script,
      ∃ key : RuneUtxosByScriptKey, entry = .ok (key, ()) ∧
        reader.get UtxoByTxoRefKV key.txoRef = .ok none) : BalancesInRange reader script := by
  cases scan : balancesScan reader script with
  | nil =>
      refine ⟨fun includeInfo => ⟨.ok [], routeInRange_ok [], ?_⟩, specific_inRange ?_⟩
      · intro build
        simp only [addressesAllRuneBalances, scan, sumBalances]
        rfl
      · intro rune id specified
        refine ⟨.ok 0, routeInRange_ok 0, ?_⟩
        intro build
        simp only [addressesSpecificRuneBalance, specified, scan, sumBalance]
  | cons entry entries =>
      rw [scan] at missing
      rcases missing entry List.mem_cons_self with ⟨key, rfl, absent⟩
      have fails : runeOutput reader (.ok (key, ())) =
          .error (.unexpectedMissingData (debugTxoRef key.txoRef)) := by
        simp only [runeOutput, getExpectedAt, absent]
      have inside {α : Type} : RouteInRange (.error (.unexpectedMissingData
          (debugTxoRef key.txoRef)) : Except ServeError α) := by simp [RouteInRange]
      refine ⟨fun includeInfo => ⟨_, inside, ?_⟩, specific_inRange ?_⟩
      · intro build
        simp only [addressesAllRuneBalances, scan, sumBalances, fails]
      · intro rune id specified
        refine ⟨_, inside, ?_⟩
        intro build
        simp only [addressesSpecificRuneBalance, specified, scan, sumBalance, fails]

/-- The sums of the other scripts are within the supplies. -/
theorem RuneView.balancesInRange (seen : RuneView reader past runes)
    (plain : isOpReturn script = false) (short : script.length < 2 ^ 64) :
    BalancesInRange reader script := by
  rcases seen.scripts script plain short with ⟨outputs, scripts⟩
  constructor
  · intro includeInfo
    rcases seen.balances_ok scripts includeInfo with ⟨balances, done, _⟩
    exact ⟨.ok balances, routeInRange_ok balances, done⟩
  · apply specific_inRange
    intro rune id specified
    rcases seen.balance_ok scripts specified with ⟨balance, done, _⟩
    exact ⟨.ok balance, routeInRange_ok balance, done⟩

end Routes

/-- After every run of valid blocks, snapshots and rollbacks, and between any two transactions of what
is indexed next, the unspent outputs hold no more of a rune than was premined and minted, and mints
stay within the cap. So neither the call for the next transaction nor a balance route overflows or
underflows: they do the same in every build. -/
theorem rune_supply_bounded (blockHash : Header → BlockHash) (config : Config)
    (indexer : RunesIndexer) (others : Others .runes) (stage : Stage)
    (events : List (Env × ChainEvent)) (guaranteed : indexer.ordinals.Guaranteed)
    (fresh : Stage.new config (StorageHandler.openDb DB.empty) = .ok stage)
    (fed : ∀ event ∈ events, event.2.Valid (HashedBy blockHash))
    (increasing : Increasing ((Machine.bootstrap (others.with indexer.processTx) stage).run
      events).stage.db.db.log)
    (valid : (Machine.bootstrap (others.with indexer.processTx) stage).uncached.ValidFrom ⟨[], []⟩
      events)
    (fits : ((Machine.bootstrap (others.with indexer.processTx) stage).uncached.history
      events).blocks.length + 1 < 2 ^ 64) :
    let machine := Machine.bootstrap (others.with indexer.processTx) stage
    (∀ reader : Reader, reader.Sees (machine.run events).stage.db.db.view →
      (∃ set, (∀ ref, reader.get UtxoByTxoRefKV ref = .ok (set ref)) ∧
        SupplyBounds set (reader.get RuneInfoByIdKV) (reader.get RuneMintsByIdKV)) ∧
      ∀ script, script.length < 2 ^ 64 → BalancesInRange reader script) ∧
    NextPoints (others.with indexer.processTx) config.network (machine.uncached.run events).stage
      (machine.uncached.history events).confirmed (fun point =>
        (∀ ref, point.task.get UtxoByTxoRefKV ref =
          .ok (if ref ∈ point.ctx.chainedTxos then none else unspentAfter point.past ref)) ∧
        (∀ ref ∈ point.ctx.chainedTxos, ∀ utxo, unspentAfter point.past ref = some utxo →
          point.ctx.resolveInput ref = some utxo) ∧
        SupplyBounds (unspentAfter point.past) (point.task.get RuneInfoByIdKV)
          (point.task.get RuneMintsByIdKV) ∧
        ∀ tx ∈ point.rest.head?, ∀ task ctx, runIndexers tx point.blockIndex point.task point.ctx
          others.before = .ok (task, ctx) → ∃ result, InRange result ∧ ∀ build,
            ((indexer.inBuild build).processTx tx point.blockIndex ctx.toTxContext).run task ctx =
              result) := by
  rw [Stage.new_empty, Except.ok.injEq] at fresh
  subst fresh
  intro machine
  have records := (runes_rule indexer).run others (HashedBy blockHash) config events fed valid
    increasing
  have keyed := (runesKeyed_rule indexer).run others (HashedBy blockHash) config events fed valid
    increasing
  constructor
  · intro reader sees
    rcases records.runeView keyed fits guaranteed sees with ⟨runes, seen⟩
    constructor
    · rcases records.runeRun (by omega) with ⟨runes', shown, run⟩
      refine ⟨_, seen.stored, run.supplyBounds guaranteed ?_ ?_⟩
      · intro id
        rw [sees.get_latest]
        exact shown.read_info id
      · intro id
        rw [sees.get_latest]
        exact shown.read_mints id
    · intro script short
      cases plain : isOpReturn script with
      | false => exact seen.balancesInRange plain short
      | true =>
          exact balancesInRange_missing
            (records.opReturn_scan keyed (by omega) guaranteed sees plain short)
  · apply ((runes_rule indexer).points others (HashedBy blockHash) config events fed valid
      increasing).mono
    intro point midway
    refine ⟨midway.unspent.1, midway.unspent.2, ?_, ?_⟩
    · rcases midway.runeRun with ⟨runes, shown, run⟩
      exact run.supplyBounds guaranteed shown.get_info shown.get_mints
    · intro tx head task ctx early
      exact midway.call_steady guaranteed head early

/-- Seven of the rune were premined and five minted: the unspent outputs hold at most twelve. -/
theorem rune_supply_bounded_spend :
    let reader := (runesMachine.run spendEvents).stage.db.reader Timestamp.latest
    ∃ set, (∀ ref, reader.get UtxoByTxoRefKV ref = .ok (set ref)) ∧ Within (heldBy set ⟨1, 0⟩) 12 ∧
      BalancesInRange reader [82] := by
  rcases rune_supply_bounded mainnetHash (mainnetConfig 2) spendRunes (.alone .runes) _ spendEvents
    spendOrdinals_guaranteed (Stage.new_empty _) spendEvents_fed runesMachine_run.1
    runesMachine_run.2.1 runesMachine_run.2.2 with ⟨durable, _⟩
  rcases durable _ (StorageHandler.sees_latest _) with ⟨⟨set, stored, bounds⟩, routes⟩
  rcases bounds.bounded ⟨1, 0⟩ with ⟨info, mints, entry, count, bounded⟩
  have supply : (((Machine.bootstrap ((Others.alone .runes).with spendRunes.processTx)
      (Stage.empty (mainnetConfig 2))).run spendEvents).stage.db.reader Timestamp.latest).get
        RuneInfoByIdKV ⟨1, 0⟩ = .ok (some ⟨BitVec.ofNat 128 (2 ^ 96 + 2 ^ 32), some ⟨some 5, some 1,
          none, none⟩, none, 0, 1, txIdOf 1, 7, 0⟩) := by decide +kernel
  have once : (((Machine.bootstrap ((Others.alone .runes).with spendRunes.processTx)
      (Stage.empty (mainnetConfig 2))).run spendEvents).stage.db.reader Timestamp.latest).get
        RuneMintsByIdKV ⟨1, 0⟩ = .ok (some 1) := by decide +kernel
  rw [supply, Except.ok.injEq] at entry
  rw [once, Except.ok.injEq] at count
  subst entry count
  unfold runesMachine
  exact ⟨set, stored, bounded.2, routes [82] (by decide)⟩

end Symphony
