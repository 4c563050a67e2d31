import Symphony.Proof.CharmResponses

/-! The tables of charms against the UTXO table, and what follows for the routes that read both. -/

namespace Symphony

open BigEndian (Byte)
open CharmsIndexer Encdec Serve
open VersionedLog (Increasing)

/-- The errors of a charm route whose key has no output, or no charms there. -/
def Serve.ServeError.MissingData : ServeError → Prop
  | .unexpectedMissingData _ => True
  | .internal message =>
      message = "missing expected charms data" ∨ message = "missing charms data"
  | _ => False

section Failures

variable {Value : Type} {library : CharmsLibrary Value} {reader : Reader} {failure : ServeError}

theorem not_missingData_internal {message : String} (first : message.toList.head? ≠ some 'm') :
    ¬ (ServeError.internal message).MissingData := by
  intro missing
  cases missing with
  | inl same =>
      rw [same] at first
      exact first rfl
  | inr same =>
      rw [same] at first
      exact first rfl

theorem charmAndValue_error {charm : List Byte × List Byte}
    (failed : charmAndValue library charm = .error failure) : ¬ failure.MissingData := by
  have starts (front rest : String) (other : front.toList.head?.any (fun char => char ≠ 'm')) :
      (front ++ rest).toList.head? ≠ some 'm' := by
    rw [String.toList_append]
    cases letters : front.toList with
    | nil =>
        rw [letters] at other
        cases other
    | cons char chars =>
        rw [letters] at other
        simpa using other
  unfold charmAndValue at failed
  split at failed
  · cases failed
    exact not_missingData_internal (by decide)
  · split at failed
    · cases failed
      exact not_missingData_internal (starts _ _ (by decide))
    · split at failed
      · cases failed
        exact not_missingData_internal (starts _ _ (by decide))
      · cases failed

theorem showCharms_error {charms : UtxoCharms} (failed : showCharms library charms = .error failure) :
    ¬ failure.MissingData := by
  induction charms with
  | nil => cases failed
  | cons charm charms ih =>
      unfold showCharms at failed
      split at failed
      · rename_i inner first
        cases failed
        exact charmAndValue_error first
      · split at failed
        · rename_i inner rest
          cases failed
          exact ih rest
        · cases failed

/-- A listing fails at one of its keys. -/
theorem collectCharmUtxos_error {keys : List OwnedUtxoKey}
    (failed : collectCharmUtxos library reader (fun _ => true)
      (keys.map (fun key => .ok (key, ()))) = .error failure) :
    ∃ key ∈ keys, charmUtxo library reader "missing expected charms data" key = .error failure := by
  induction keys with
  | nil => cases failed
  | cons key keys ih =>
      rw [List.map_cons, collectCharmUtxos] at failed
      split at failed
      · rename_i inner first
        cases failed
        exact ⟨key, List.mem_cons_self, first⟩
      · split at failed
        · rename_i inner rest
          cases failed
          obtain ⟨other, member, own⟩ := ih rest
          exact ⟨other, List.mem_cons_of_mem key member, own⟩
        · cases failed

end Failures

section Moments

variable {Value : Type} {library : CharmsLibrary Value} {reader : Reader} {history : History}
variable {machine : Machine} {indexer : CharmsIndexer} {script : ScriptPubKey} {failure : ServeError}

theorem Records.charmListing_error (records : Records (CharmsGood indexer) history machine)
    (keyed : Records (KeyedBy .charms (OwnedRaw [scriptTable, appTable])) history machine)
    (room : history.blocks.length + 1 < 2 ^ 64) (sees : reader.Sees machine.stage.db.db.view)
    (short : script.length < 2 ^ 64)
    (kept : ∀ height ref, indexer.StaleScript (chainTxs history.blocks) script height ref →
      unspent history.blocks ref ≠ none)
    (failed : addressesAllCharmUtxos library reader script = .error failure) :
    ¬ failure.MissingData := by
  obtain ⟨keys, scan, scanned⟩ := records.charmKeys keyed room sees short
  rw [addressesAllCharmUtxos, scan] at failed
  obtain ⟨key, member, own⟩ := collectCharmUtxos_error failed
  cases ((scanned.mem key).mp member).2 with
  | inl charmed =>
      obtain ⟨utxo, charms, found, _, _, has⟩ := charmed
      rw [charmUtxo_eq (records.stored sees) found has] at own
      cases shown : showCharms library charms with
      | error inner =>
          rw [shown] at own
          cases own
          exact showCharms_error shown
      | ok list =>
          rw [shown] at own
          cases own
  | inr stale => exact absurd stale.2 (kept _ _ stale.1)

theorem LatestCharm.error {set : UtxoSet} {stale : BlockHeight → TxoRef → Prop} {app : List Byte}
    (latest : LatestCharm library set stale app (.error failure))
    (fresh : ∀ height ref, ¬ stale height ref) : ¬ failure.MissingData := by
  generalize result : (Except.error failure : Except ServeError (CharmUtxo Value)) = response at latest
  cases latest with
  | nothing none =>
      cases result
      exact id
  | gone height ref last absent =>
      obtain ⟨utxo, _, found, _⟩ := last.filed.resolve_right (fresh height ref)
      rw [absent] at found
      cases found
  | found height ref utxo charms last unspent has carries =>
      cases shown : showCharms library charms with
      | error inner =>
          rw [shown] at result
          cases result
          exact showCharms_error shown
      | ok list =>
          rw [shown] at result
          cases result

end Moments

/-- After every run of valid blocks, snapshots and rollbacks, a key is in the table of scripts just
when the UTXO table has that output with charms, and in the table of apps just when it has the
output with a charm of the app, unless the output is one whose keys stay. Where none has stayed, or
its output is still there, the routes do not fail for missing data. -/
theorem charms_indices_iff (blockHash : Header → BlockHash) (config : Config)
    (indexer : CharmsIndexer) (others : Others .charms) (stage : Stage)
    (events : List (Env × ChainEvent))
    (fresh : Stage.new config (StorageHandler.openDb DB.empty) = .ok stage)
    (fed : ∀ event ∈ events, event.2.Valid (HashedBy blockHash))
    (increasing : Increasing ((Machine.bootstrap (others.with indexer.processTx) stage).run
      events).stage.db.db.log)
    (valid : (Machine.bootstrap (others.with indexer.processTx) stage).uncached.ValidFrom ⟨[], []⟩
      events)
    (fits : ((Machine.bootstrap (others.with indexer.processTx) stage).uncached.history
      events).blocks.length < 2 ^ 64) :
    let machine := Machine.bootstrap (others.with indexer.processTx) stage
    let reader := (machine.run events).stage.db.reader Timestamp.latest
    let txs := chainTxs (machine.uncached.history events).blocks
    (∀ script height ref, script.length < 2 ^ 64 →
      ((reader.get CharmsUtxosByScriptKV ⟨script, height, ref⟩ = .ok (some ()) ↔
        ∃ utxo charms, reader.get UtxoByTxoRefKV ref = .ok (some utxo) ∧ utxo.script = script ∧
          utxo.height = height ∧ HasCharms utxo charms ∧ charms ≠ []) ↔
        ¬ indexer.StaleScript txs script height ref)) ∧
    (∀ app height ref, app.length < 2 ^ 64 →
      ((reader.get CharmsUtxosByAppKV ⟨app, height, ref⟩ = .ok (some ()) ↔
        ∃ utxo charms, reader.get UtxoByTxoRefKV ref = .ok (some utxo) ∧ utxo.height = height ∧
          HasCharms utxo charms ∧ ∃ charm ∈ charms, charm.1 = app) ↔
        ¬ indexer.StaleApp txs app height ref)) ∧
    ((machine.uncached.history events).blocks.length + 1 < 2 ^ 64 →
      ∀ (Value : Type) (library : CharmsLibrary Value) (charm : String) (failure : ServeError),
        (∀ script, script.length < 2 ^ 64 →
          (∀ height ref, indexer.StaleScript txs script height ref →
            reader.get UtxoByTxoRefKV ref ≠ .ok none) →
          addressesAllCharmUtxos library reader script = .error failure ∨
            addressesSpecificCharmUtxos library reader script charm = .error failure →
          ¬ failure.MissingData) ∧
        ((Utf8.encode (parseCharmPath charm)).length < 2 ^ 64 →
          (∀ height ref, ¬ indexer.StaleApp txs (Utf8.encode (parseCharmPath charm)) height ref) →
          charmLatest library reader charm = .error failure → ¬ failure.MissingData)) := by
  rw [Stage.new_empty, Except.ok.injEq] at fresh
  subst fresh
  have records := (charms_rule indexer).run others (HashedBy blockHash) config events fed valid
    increasing
  have keyed := (charmsKeyed_rule indexer).run others (HashedBy blockHash) config events fed valid
    increasing
  intro machine reader txs
  have sees : reader.Sees (machine.run events).stage.db.db.view := StorageHandler.sees_latest _
  refine ⟨?_, ?_, ?_⟩
  · intro script height ref short
    exact records.charms_script fits short height ref
  · intro app height ref short
    exact records.charms_app fits short height ref
  · intro room Value library charm failure
    constructor
    · intro script short kept failed
      have listing : addressesAllCharmUtxos library reader script = .error failure := by
        cases failed with
        | inl all => exact all
        | inr specific =>
            rw [addressesSpecificCharmUtxos, collectCharmUtxos_filter] at specific
            rw [addressesAllCharmUtxos]
            cases whole : collectCharmUtxos library reader (fun _ => true) (charmsScan reader script) with
            | error inner =>
                rw [whole] at specific
                cases specific
                rfl
            | ok utxos =>
                rw [whole] at specific
                cases specific
      apply records.charmListing_error keyed room sees short _ listing
      intro height ref stale absent
      apply kept height ref stale
      rw [records.stored sees, absent]
    · intro short fresh failed
      have latest := @Records.charmLatest _ library _ _ _ _ records keyed room sees charm short
      rw [failed] at latest
      exact latest.error fresh

def charmsMachine : Machine :=
  Machine.bootstrap ((attachBeside .charms (by decide)).with charmsOfSpends.processTx)
    (Stage.empty (mainnetConfig 2))

theorem charmsMachine_run : Increasing (charmsMachine.run spendEvents).stage.db.db.log ∧
    charmsMachine.uncached.ValidFrom ⟨[], []⟩ spendEvents := by
  decide +kernel

/-- The output of the last transaction is listed under its script and its app. -/
theorem charms_indices_snapshot :
    let reader := (charmsMachine.run spendEvents).stage.db.reader Timestamp.latest
    let txs := chainTxs (charmsMachine.uncached.history spendEvents).blocks
    (reader.get CharmsUtxosByScriptKV ⟨[82], 3, ⟨txIdOf 3, 0⟩⟩ = .ok (some ()) ∧
      reader.get CharmsUtxosByAppKV ⟨[97], 3, ⟨txIdOf 3, 0⟩⟩ = .ok (some ())) ∧
    (∀ script height ref, script.length < 2 ^ 64 →
      ((reader.get CharmsUtxosByScriptKV ⟨script, height, ref⟩ = .ok (some ()) ↔
        ∃ utxo charms, reader.get UtxoByTxoRefKV ref = .ok (some utxo) ∧ utxo.script = script ∧
          utxo.height = height ∧ HasCharms utxo charms ∧ charms ≠ []) ↔
        ¬ charmsOfSpends.StaleScript txs script height ref)) ∧
    (∀ app height ref, app.length < 2 ^ 64 →
      ((reader.get CharmsUtxosByAppKV ⟨app, height, ref⟩ = .ok (some ()) ↔
        ∃ utxo charms, reader.get UtxoByTxoRefKV ref = .ok (some utxo) ∧ utxo.height = height ∧
          HasCharms utxo charms ∧ ∃ charm ∈ charms, charm.1 = app) ↔
        ¬ charmsOfSpends.StaleApp txs app height ref)) ∧
    ((charmsMachine.uncached.history spendEvents).blocks.length + 1 < 2 ^ 64 →
      ∀ (Value : Type) (library : CharmsLibrary Value) (charm : String) (failure : ServeError),
        (∀ script, script.length < 2 ^ 64 →
          (∀ height ref, charmsOfSpends.StaleScript txs script height ref →
            reader.get UtxoByTxoRefKV ref ≠ .ok none) →
          addressesAllCharmUtxos library reader script = .error failure ∨
            addressesSpecificCharmUtxos library reader script charm = .error failure →
          ¬ failure.MissingData) ∧
        ((Utf8.encode (parseCharmPath charm)).length < 2 ^ 64 →
          (∀ height ref,
            ¬ charmsOfSpends.StaleApp txs (Utf8.encode (parseCharmPath charm)) height ref) →
          charmLatest library reader charm = .error failure → ¬ failure.MissingData)) :=
  ⟨by decide +kernel, charms_indices_iff mainnetHash (mainnetConfig 2) charmsOfSpends
    (attachBeside .charms (by decide)) _ spendEvents (Stage.new_empty _) spendEvents_fed
    charmsMachine_run.1 charmsMachine_run.2 (by decide +kernel)⟩

/-- The tables keep a spent output whose only charm had no app, and list an OP_RETURN output. -/
theorem charms_indices_stale :
    let reader := (charmsMachine.run spendEvents).stage.db.reader Timestamp.latest
    (∀ event ∈ spendEvents, event.2.Valid (HashedBy mainnetHash)) ∧
      Increasing (charmsMachine.run spendEvents).stage.db.db.log ∧
      charmsMachine.uncached.ValidFrom ⟨[], []⟩ spendEvents ∧
      (reader.get CharmsUtxosByScriptKV ⟨[82], 2, ⟨txIdOf 2, 0⟩⟩ = .ok (some ()) ∧
        reader.get UtxoByTxoRefKV ⟨txIdOf 2, 0⟩ = .ok none) ∧
      reader.get CharmsUtxosByScriptKV ⟨[opReturn], 1, ⟨txIdOf 1, 1⟩⟩ = .ok (some ()) ∧
      reader.get CharmsUtxosByAppKV ⟨[97], 1, ⟨txIdOf 1, 1⟩⟩ = .ok (some ()) ∧
      reader.get UtxoByTxoRefKV ⟨txIdOf 1, 1⟩ = .ok none :=
  ⟨spendEvents_fed, charmsMachine_run.1, charmsMachine_run.2, by decide +kernel, by decide +kernel,
    by decide +kernel, by decide +kernel⟩

end Symphony
