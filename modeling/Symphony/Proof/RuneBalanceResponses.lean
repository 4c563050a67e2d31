import Symphony.Proof.RuneInfoResponses

/-! The balances that the rune routes respond. -/

namespace Symphony

open Encdec Serve
open VersionedLog (Commit Increasing)

theorem enabledRunesKeyed_rule (indexer : RunesIndexer) :
    TxRule (TransactionIndexerFactory.kind (.runes indexer))
      (TransactionIndexerFactory.createIndexer (.runes indexer)) RunesKeyed := runesKeyed_rule indexer

section Balances

variable {text : RuneText} {reader : Reader} {past : List IndexedTx} {runes : RuneState}
variable {rune : String} {id : RuneId} {outputs : List (RuneUtxosByScriptKey × Utxo)}

theorem RuneView.balanceAt_spent (seen : RuneView reader past runes) {ref : TxoRef}
    (specified : specifiedRune text reader rune = .ok id) (spent : unspentAfter past ref = none) :
    runeBalanceAtUtxo text reader rune ref = .error .notFound := by
  simp only [runeBalanceAtUtxo, specified, seen.stored, spent]

theorem RuneView.balanceAt_ok (seen : RuneView reader past runes) {ref : TxoRef}
    (specified : specifiedRune text reader rune = .ok id)
    (live : (unspentAfter past ref).isSome) :
    ∃ amount, runeBalanceAtUtxo text reader rune ref = .ok amount ∧
      amount.toNat = heldBy (unspentAfter past) id ref := by
  obtain ⟨utxo, found⟩ := Option.isSome_iff_exists.mp live
  simp only [runeBalanceAtUtxo, specified, seen.stored, found, heldBy, Option.map_some,
    Option.getD_some]
  cases attached : utxo.extended.get? .runes with
  | none =>
      refine ⟨0, rfl, ?_⟩
      rw [Utxo.runes, runesOf, attached]
      rfl
  | some raw =>
      obtain ⟨listed, decoded, formed⟩ := seen.indexed.sound ref utxo found raw attached
      simp only [decoded]
      refine ⟨_, rfl, ?_⟩
      rw [runes_of_raw attached decoded, amountIn_firstAmount formed.distinct]
      cases firstAmount id listed with
      | none => rfl
      | some amount => rfl

theorem RuneView.balances_at (seen : RuneView reader past runes)
    (specified : specifiedRune text reader rune = .ok id)
    (scanned : ∀ output ∈ outputs, Scanned reader (unspentAfter past) output.1 output.2) :
    ∃ amounts : List U128, (outputs.map runeUtxo).mapM (fun utxo =>
        runeBalanceAtUtxo text reader rune ⟨utxo.txHash, utxo.outputIndex⟩) = .ok amounts ∧
      (amounts.map BitVec.toNat).sum = amountIn (runesOfAll outputs) id := by
  induction outputs with
  | nil => exact ⟨[], rfl, rfl⟩
  | cons output outputs ih =>
      rw [List.forall_mem_cons] at scanned
      obtain ⟨amounts, rest, sum⟩ := ih scanned.2
      have unspent := scanned.1.unspent
      have live : (unspentAfter past output.1.txoRef).isSome := by
        rw [unspent]
        rfl
      obtain ⟨amount, here, value⟩ := seen.balanceAt_ok specified live
      refine ⟨amount :: amounts, ?_, ?_⟩
      · rw [List.map_cons, List.mapM_cons, rest]
        have own : runeBalanceAtUtxo text reader rune
            ⟨(runeUtxo output).txHash, (runeUtxo output).outputIndex⟩ = .ok amount := here
        rw [own]
        rfl
      · have split : amountIn (runesOfAll (output :: outputs)) id =
            amountIn output.2.runes id + amountIn (runesOfAll outputs) id := amountIn_append
        rw [List.map_cons, List.sum_cons, sum, value, split, heldBy, unspent]
        rfl

end Balances

/-- As long as the database keeps the versions that a request reads: the balance at an output is what
it holds of the rune at the moment the request is served from, and there is none at an output that is
spent by then. The balance of a script is the sum of those at its listed outputs, and the one in the
list of all its balances. -/
theorem rune_balances_served (text : RuneText) (names : Header → Point → Prop) (config : Config)
    (factories : List TransactionIndexerFactory) (indexer : RunesIndexer) (life : Life)
    (storage : StorageHandler) (mempool : Bool) (reader : Reader) (info : Serve.IndexerInfo)
    (later : DB) (rune : String)
    (identifier : RuneIdentifier) (id : RuneId)
    (request : life.Request names config factories storage mempool reader info later)
    (enabled : .runes indexer ∈ factories) (guaranteed : indexer.ordinals.Guaranteed)
    (denoted : Identifies text.fromStr rune identifier)
    (specified : identifier.specified ⟨later, reader.timestamp⟩ = .ok id) :
    let seen : Reader := ⟨later, reader.timestamp⟩
    ∃ past, life.Answers names config factories past storage mempool reader info ∧
      (past.history.blocks.length + 1 < 2 ^ 64 →
        (∀ ref, unspent past.history.blocks ref = none →
          runeBalanceAtUtxo text seen rune ref = .error .notFound) ∧
        (∀ ref, (unspent past.history.blocks ref).isSome →
          ∃ amount, runeBalanceAtUtxo text seen rune ref = .ok amount ∧
            amount.toNat = heldBy (unspent past.history.blocks) id ref) ∧
        ∀ build script includeInfo, isOpReturn script = false → script.length < 2 ^ 64 →
          ∃ utxos amounts balance balances,
            addressesAllRuneUtxos seen script = .ok utxos ∧
            utxos.mapM (fun utxo => runeBalanceAtUtxo text seen rune
              ⟨utxo.txHash, utxo.outputIndex⟩) = .ok amounts ∧
            addressesSpecificRuneBalance build seen script identifier = .ok balance ∧
            addressesAllRuneBalances build seen script includeInfo = .ok balances ∧
            balance.toNat = (amounts.map BitVec.toNat).sum ∧
            balanceFor balances id = balance.toNat) := by
  intro seen
  obtain ⟨past, answers, sound, history, sees⟩ := request.answered
  refine ⟨past, answers, ?_⟩
  intro room
  have records := (enabledRunes_rule indexer).lived request.distinct enabled sound history
  have keyed := (enabledRunesKeyed_rule indexer).lived request.distinct enabled sound history
  obtain ⟨runes, view⟩ := records.runeView keyed room guaranteed sees
  have own := (@specifiedRune_eq text seen rune identifier denoted).trans specified
  rw [← unspentAfter_chainTxs]
  refine ⟨fun ref spent => view.balanceAt_spent own spent, fun ref live => view.balanceAt_ok own live, ?_⟩
  intro build script includeInfo plain short
  obtain ⟨outputs, scripts⟩ := view.scripts script plain short
  obtain ⟨amounts, each, sum⟩ := view.balances_at own scripts.scanned
  obtain ⟨balances, listed, _, entries⟩ := view.balances_ok scripts includeInfo
  obtain ⟨balance, summed, value⟩ := view.balance_ok scripts specified
  refine ⟨outputs.map runeUtxo, amounts, balance, balances, scripts.allUtxos_ok, each, summed build,
    listed build, ?_, ?_⟩
  · rw [value, sum]
  · rw [entries, value]

/-- The rune of block one, by its name, at the output of the snapshot that holds it. -/
theorem rune_balances_served_snapshot :
    ∃ reader info, startReader epochOnly allLife.machine.stage.db true = .ok (reader, info) ∧
      let seen : Reader := ⟨allLife.machine.stage.db.db, reader.timestamp⟩
      runeBalanceAtUtxo ordinalsText seen "CYI•NSIUCHLMYHBTPDQPCK" ⟨txIdOf 3, 0⟩ = .ok 12 ∧
      ∃ past, allLife.Answers BlockOneOnly { mainnetConfig 2 with utxoCache := true } allFactories
          past allLife.machine.stage.db true reader info ∧
        (past.history.blocks.length + 1 < 2 ^ 64 →
          (unspent past.history.blocks ⟨txIdOf 3, 0⟩).isSome →
            (12 : U128).toNat = heldBy (unspent past.history.blocks) ⟨1, 0⟩ ⟨txIdOf 3, 0⟩) := by
  obtain ⟨reader, info, success, kept, moment⟩ := allLife_mempool
  have facts : RuneIdentifier.parse nameNumber "CYI•NSIUCHLMYHBTPDQPCK" =
        .ok (.ok (.name (spendOrdinals.reserved 1 0))) ∧
      (RuneIdentifier.name (spendOrdinals.reserved 1 0)).specified
        ⟨allLife.machine.stage.db.db, reader.timestamp⟩ = .ok ⟨1, 0⟩ ∧
      runeBalanceAtUtxo ordinalsText ⟨allLife.machine.stage.db.db, reader.timestamp⟩ "CYI•NSIUCHLMYHBTPDQPCK"
        ⟨txIdOf 3, 0⟩ = .ok 12 := by
    rw [moment]
    decide +kernel
  obtain ⟨parsed, specified, response⟩ := facts
  refine ⟨reader, info, success, response, ?_⟩
  obtain ⟨past, answers, served⟩ := rune_balances_served ordinalsText BlockOneOnly _ allFactories
    spendRunes allLife _ true reader info _ _ _ ⟨1, 0⟩ (allLife_request success kept)
    (by simp [allFactories]) spendOrdinals_guaranteed (parse_iff.mp parsed) specified
  refine ⟨past, answers, ?_⟩
  intro room live
  obtain ⟨_, held, _⟩ := served room
  obtain ⟨amount, same, value⟩ := held ⟨txIdOf 3, 0⟩ live
  rw [response, Except.ok.injEq] at same
  rw [same]
  exact value

end Symphony
