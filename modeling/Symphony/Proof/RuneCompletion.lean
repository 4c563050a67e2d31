import Symphony.Proof.RuneMovements
import Symphony.Proof.RuneUtxos
import Symphony.Spec.TxWeight

/-! When a call of the rune indexer runs to its end.

Every stage before the records does. The records are numbered in 16 bits, so the call ends if no
more than 65535 of them are made: one for each movement of a rune. -/

namespace Symphony

open Encdec
open RunesIndexer
open VersionedLog (Increasing)

section Stages

variable {indexer : RunesIndexer} {tx : TransactionWithId} {blockIndex : Nat} {ctx : TxContext}
variable {balances : RuneBalances} {runes : RuneState} {state : TableState}

theorem creditMint_completes {artifact : Artifact} {height : BlockHeight} {build : Build}
    (shown : runes.Shown state.cells) (bounded : ∀ id, RuneBalances.amount balances id +
      amountIn (mintOf runes height (some artifact)).toList id < 2 ^ 128) :
    (creditMint build artifact height balances).Completes RuneKey (fun _ _ => True) state := by
  simp only [creditMint, mintOf, Option.bind_some] at bounded ⊢
  cases asked : artifact.mint with
  | none => trivial
  | some id =>
      simp only [asked, Option.bind_some] at bounded
      simp only [Script.bind_eq]
      rw [Script.completes_bind]
      apply (mint_completes shown id height).mono
      intro outcome after ends
      rw [ends.2.1]
      cases minted : runes.mint id height with
      | none => trivial
      | some amount =>
          have room := bounded id
          simp only [minted, Option.map_some, Option.toList_some, amountIn_cons, amountIn_nil,
            if_true, Nat.add_zero] at room
          rcases RuneBalances.credit_ok room with ⟨credited, success, _⟩
          exact Script.completes_lift (success build) trivial

theorem etchOf_isSome {names : Rune → Option RuneId} {tx : Transaction} {artifact : Artifact}
    (etches : (indexer.etchOf names tx blockIndex ctx artifact).isSome) : artifact.etching.isSome := by
  rw [etchOf] at etches
  cases asked : artifact.etching with
  | none =>
      simp only [asked] at etches
      cases etches
  | some name => rfl

theorem etchOf_id {names : Rune → Option RuneId} {tx : Transaction} {artifact : Artifact}
    {rune : RuneId × Rune} (etches : indexer.etchOf names tx blockIndex ctx artifact = some rune) :
    rune.1 = ⟨ctx.point.height, BitVec.ofNat 32 blockIndex⟩ := by
  simp only [etchOf] at etches
  split at etches
  · cases etches
  · cases etches
    rfl
  · split at etches
    · cases etches
    · split at etches
      · cases etches
        rfl
      · cases etches

/-- What the outputs are given is theirs by the shares. -/
structure Apportions (outputs : List TxOut) (artifact : Option Artifact) (etched : Option RuneId)
    (total : RuneId → Nat) (allocated : List RuneBalances) : Prop where
  count : allocated.length = outputs.length
  positive : Positive allocated
  within : ∀ id, allocatedOf allocated id ≤ total id
  shares : ∀ place balances, allocated[place]? = some balances → ∀ id,
    RuneBalances.amount balances id =
      RuneShares.allocation outputs artifact etched total place id

theorem apportions_ok {outputs : List TxOut} {artifact : Option Artifact} {etched : Option RuneId}
    {total : RuneId → Nat} (order : MapOrder RuneId U128)
    (guaranteed : ∀ stone ∈ artifact, stone.Guaranteed outputs)
    (etches : ∀ stone ∈ artifact, etched.isSome → stone.etching.isSome)
    (bounded : ∀ id, total id < 2 ^ 128) (sum : ∀ id, RuneBalances.amount balances id +
      amountIn (premineOf artifact etched) id = total id) :
    ∃ ledger allocated, (∀ build, edictLedger build outputs artifact etched balances = .ok ledger) ∧
      (∀ build, assignRest build order outputs artifact ledger = .ok allocated) ∧
        Apportions outputs artifact etched total allocated := by
  rcases edictLedger_ok guaranteed etches bounded sum with ⟨ledger, ran, balanced, agrees⟩
  rcases assignRest_ok order guaranteed balanced bounded with
    ⟨allocated, assigned, count, positive, sums, given⟩
  refine ⟨ledger, allocated, ran, assigned, count, positive, ?_, ?_⟩
  · intro id
    have whole := balanced.sum id
    rw [sums]
    split
    · omega
    · omega
  · intro place held found id
    exact given _ agrees place held found id

theorem allocated_completes {total : RuneId → Nat} (shown : runes.Shown state.cells)
    (index : blockIndex < 2 ^ 32) (small : ctx.point.height.toNat < 2 ^ 32)
    (commits : ∀ rune, ∃ flag, indexer.txCommitsToRune ctx rune tx.tx.input = .ok flag)
    (guaranteed : ∀ artifact ∈ indexer.ordinals.decipher tx.tx, artifact.Guaranteed tx.tx.output)
    (bounded : ∀ id, total id < 2 ^ 128)
    (sum : ∀ id, RuneBalances.amount balances id +
      amountIn (mintOf runes ctx.point.height (indexer.ordinals.decipher tx.tx)).toList id +
        amountIn (premineOf (indexer.ordinals.decipher tx.tx)
          (indexer.etchedBy runes tx blockIndex ctx)) id = total id) :
    (indexer.allocated tx blockIndex ctx balances).Completes RuneKey
      (fun allocated _ => Apportions tx.tx.output (indexer.ordinals.decipher tx.tx)
        (indexer.etchedBy runes tx blockIndex ctx) total allocated) state := by
  rw [allocated]
  rw [etchedBy] at sum ⊢
  cases deciphered : indexer.ordinals.decipher tx.tx with
  | none =>
      have nothing : ∀ stone ∈ (none : Option Artifact), stone.Guaranteed tx.tx.output := by
        intro _ impossible
        cases impossible
      rw [deciphered] at sum
      rcases apportions_ok (indexer.runeOrder tx ctx tx.tx.output.length) nothing
        (by simp) bounded sum with ⟨ledger, given, ran, assigned, done⟩
      obtain rfl := Except.ok.inj (ran indexer.build)
      exact Script.completes_lift (assigned indexer.build) done
  | some artifact =>
      rw [deciphered] at sum guaranteed
      have room (id : RuneId) : RuneBalances.amount balances id + amountIn
          (mintOf runes ctx.point.height (some artifact)).toList id < 2 ^ 128 := by
        have whole := sum id
        have bound := bounded id
        omega
      simp only [Script.bind_eq, Option.bind_some] at sum ⊢
      apply (creditMint_completes shown room).bind (creditMint_yields artifact indexer.build shown)
      rintro credited middle ⟨_, listed, minted⟩
      rcases RuneBalances.creditAll_ok room with ⟨same, success, amounts, _⟩
      obtain rfl : same = credited := Except.ok.inj ((success indexer.build).symm.trans listed)
      simp only [← amounts] at sum
      rw [Script.completes_bind]
      apply (etched_completes minted index small commits).mono
      rintro rune _ ⟨rfl, outcome⟩
      rw [RuneState.names_mintedBy] at outcome
      rw [← outcome] at sum ⊢
      have asks : rune.isSome → artifact.etching.isSome := by
        intro some
        rw [outcome] at some
        exact etchOf_isSome some
      have etches : ∀ stone ∈ some artifact, (rune.map Prod.fst).isSome → stone.etching.isSome := by
        rintro _ ⟨⟩ some
        rw [Option.isSome_map] at some
        exact asks some
      rcases apportions_ok (indexer.runeOrder tx ctx tx.tx.output.length) guaranteed
        etches bounded sum with ⟨ledger, given, ran, assigned, done⟩
      have running : runEdicts indexer.build tx.tx.output artifact (rune.map Prod.fst) same =
        .ok ledger := ran indexer.build
      rw [running]
      cases rune with
      | none => exact Script.completes_lift (assigned indexer.build) done
      | some rune =>
          simp only [Script.lift, Script.bind]
          rw [Script.completes_bind]
          apply (createRuneEntry_completes (asks rfl)).mono
          intro _ _ _
          exact Script.completes_lift (assigned indexer.build) done

end Stages

section Supply

variable {indexer : RunesIndexer} {past : List IndexedTx} {before : RuneState}
variable {tx : TransactionWithId} {height : BlockHeight} {artifact : Option Artifact}
variable {etched : Option RuneId}

theorem amountIn_premineOf_lt (id : RuneId) : amountIn (premineOf artifact etched) id < 2 ^ 128 := by
  unfold premineOf
  split
  · rename_i stone other
    have bound := ((stone.etching.bind Etching.premine).getD 0).isLt
    rw [amountIn_cons, amountIn_nil]
    split
    · omega
    · omega
  · exact Nat.two_pow_pos 128

theorem amountIn_premineOf_ne {id : RuneId} (other : etched ≠ some id) :
    amountIn (premineOf artifact etched) id = 0 := by
  unfold premineOf
  split
  · rw [amountIn_cons, if_neg, amountIn_nil]
    rintro rfl
    exact other rfl
  · rfl

theorem Supplied.brought_unknown (supplied : Supplied past before)
    (valid : ValidTx (liveRefs (unspentAfter past)) tx) {id : RuneId}
    (unknown : before.infos id = none) :
    broughtBy (unspentAfter past) tx before height artifact etched id =
      amountIn (premineOf artifact etched) id := by
  have none : before.supply id = 0 := by
    rw [RuneState.supply, unknown]
  have minted : (before.mintedBy height artifact).supply id = 0 := by
    rw [RuneState.supply, RuneState.infos_mintedBy, unknown]
  have spent := supplied.spends_le valid id
  have grown := @RuneState.supply_mintedBy before height artifact id
  rw [broughtBy]
  omega

/-- What a transaction has to allocate fits in 128 bits. -/
theorem Supplied.brought_lt (supplied : Supplied past before)
    (valid : ValidTx (liveRefs (unspentAfter past)) tx)
    (new : ∀ id, etched = some id → before.infos id = none) (id : RuneId) :
    broughtBy (unspentAfter past) tx before height artifact etched id < 2 ^ 128 := by
  cases known : before.infos id with
  | none =>
      rw [supplied.brought_unknown valid known]
      exact amountIn_premineOf_lt id
  | some info =>
      have other : etched ≠ some id := by
        intro same
        rw [new id same] at known
        cases known
      have spent := supplied.spends_le valid id
      have grown := @RuneState.supply_mintedBy before height artifact id
      have bound := (@RuneState.Issued.mintedBy before height artifact supplied.issued).supply_lt id
      rw [broughtBy, amountIn_premineOf_ne other]
      omega

theorem RuneRun.mem_of_brought (run : RuneRun indexer past before)
    (guaranteed : indexer.ordinals.Guaranteed) (valid : ValidTx (liveRefs (unspentAfter past)) tx)
    {id : RuneId}
    (brought : 0 < broughtBy (unspentAfter past) tx before height artifact etched id) :
    id ∈ etched.toList ++ past.map IndexedTx.runeId := by
  cases known : before.infos id with
  | some info =>
      rcases run.etched known with ⟨step, member, own⟩
      rw [own.id_eq]
      exact List.mem_append_right _ (List.mem_map_of_mem member)
  | none =>
      rw [(run.supplied guaranteed).brought_unknown valid known] at brought
      have own : etched = some id := by
        by_contra other
        rw [amountIn_premineOf_ne other] at brought
        exact Nat.lt_irrefl 0 brought
      rw [own]
      exact List.mem_append_left _ List.mem_cons_self

theorem length_entries_le {balances : RuneBalances} {ids : List RuneId}
    (named : ∀ id, id ∈ balances → id ∈ ids) : balances.entries.length ≤ ids.length := by
  have keys : balances.keys ⊆ ids := fun id member => named id (AList.mem_keys.mp member)
  have fewer := (List.subperm_of_subset balances.keys_nodup keys).length_le
  rw [AList.keys, List.keys, List.length_map] at fewer
  exact fewer

end Supply

/-- The limits of consensus on a transaction and the chain below it. -/
structure WithinLimits (past : List IndexedTx) (tx : TransactionWithId) (height : BlockHeight)
    (blockIndex : Nat) : Prop where
  light : tx.tx.Light
  earlier : ∀ step ∈ past, step.tx.tx.Light
  few : past.length < 2 ^ 56
  index : blockIndex < 2 ^ 32
  low : height.toNat < 2 ^ 32
  coinbase : ∀ input ∈ tx.tx.input, input.previousOutput = TxoRef.null → input.witness.length ≤ 1

namespace RunesIndexer

def settled (indexer : RunesIndexer) (tx : TransactionWithId) (blockIndex : Nat) (ctx : TxContext) :
    Script RuneActivities := do
  let balances ← unallocated indexer.build ctx tx.tx.input ∅
  let allocated ← indexer.allocated tx blockIndex ctx balances
  let sent ← Script.lift (if indexer.indexActivity
    then RuneActivities.collectInputTotals indexer.build ctx tx.tx else .ok ∅)
  indexer.fileOutputs tx ctx (tx.tx.output.zip allocated).zipIdx sent

end RunesIndexer

namespace RunesIndexer

variable {indexer : RunesIndexer} {tx : TransactionWithId} {blockIndex : Nat} {ctx : TxContext}

theorem processTx_eq (started : ¬ ctx.point.height < indexer.startHeight)
    (active : indexer.indexActivity) : indexer.processTx tx blockIndex ctx =
      (indexer.settled tx blockIndex ctx).bind (fun activities =>
        logChanges tx.txId 0 (recordsOf (indexer.activityOrder tx ctx) activities)) := by
  simp only [processTx, settled, if_neg started, if_pos active, Script.bind_eq, Script.bind_assoc]
  rfl

end RunesIndexer

section Whole

variable {indexer : RunesIndexer} {past : List IndexedTx} {tx : TransactionWithId}
variable {resolve : TxoRef → Option Utxo} {state : TableState} {before : RuneState}
variable {point : Point} {blockIndex : Nat} {network : Network}

theorem WithinLimits.script_lt (limits : WithinLimits past tx point.height blockIndex) {ref : TxoRef}
    {utxo : Utxo} (found : unspentAfter past ref = some utxo) : utxo.script.length < 2 ^ 32 := by
  rcases unspentAfter_creator found with ⟨step, member, output, created, rfl⟩
  have listed : output ∈ step.tx.tx.output := by
    rw [TransactionWithId.creates, if_pos (TransactionWithId.txHash_of_creates created),
      Option.filter_eq_some_iff] at created
    exact List.mem_of_getElem? created.1
  exact (limits.earlier step member).script_lt listed

theorem Called.resolves (called : Called .runes past tx resolve state)
    (indexed : RunesIndexed past before) {input : TxIn} (member : input ∈ tx.tx.input)
    (other : input.previousOutput ≠ TxoRef.null) : ∃ utxo,
      resolve input.previousOutput = some utxo ∧ unspentAfter past input.previousOutput = some utxo ∧
        runesOf utxo = .ok utxo.runes := by
  have spent := (called.mem_spends input.previousOutput).mpr ⟨input, member, other, rfl⟩
  rcases called.resolved _ spent with ⟨utxo, found, unspent⟩
  exact ⟨utxo, found, unspent, indexed.runesOf_ok unspent⟩

theorem WithinLimits.commits_ok (limits : WithinLimits past tx point.height blockIndex)
    (called : Called .runes past tx resolve state) (indexed : RunesIndexed past before)
    (single : ∀ witness, witness.length ≤ 1 → indexer.ordinals.tapscript witness = none)
    (ordered : InOrder (⟨point, blockIndex, tx, fun _ => IndexMap.empty⟩ :: past)) (rune : Rune) :
    ∃ flag, indexer.txCommitsToRune ⟨point, network, resolve⟩ rune tx.tx.input = .ok flag := by
  apply txCommitsToRune_ok rune limits.low
  intro input member shows
  have other : input.previousOutput ≠ TxoRef.null := by
    intro null
    exact shows (single _ (limits.coinbase input member null))
  rcases called.resolves indexed member other with ⟨utxo, found, unspent, _⟩
  rcases unspentAfter_creator unspent with ⟨step, inside, output, _, rfl⟩
  exact ⟨_, found, ((List.pairwise_cons.mp ordered).1 step inside).height_le⟩

theorem Called.room (called : Called .runes past tx resolve state) (supplied : Supplied past before)
    (id : RuneId) : RuneBalances.amount ∅ id +
      amountIn (spentRunes resolve tx.tx.input) id < 2 ^ 128 := by
  rw [RuneBalances.amount_empty, Nat.zero_add, called.held_eq]
  exact supplied.spends_lt called.valid id

theorem Supplied.credited_amount (supplied : Supplied past before)
    (valid : ValidTx (liveRefs (unspentAfter past)) tx) {build : Build} {balances : RuneBalances}
    (credited : (∅ : RuneBalances).creditAll build (heldRunes (unspentAfter past) tx.spends) =
      .ok balances) (id : RuneId) :
    RuneBalances.amount balances id = amountIn (heldRunes (unspentAfter past) tx.spends) id := by
  have room (id : RuneId) : RuneBalances.amount ∅ id +
      amountIn (heldRunes (unspentAfter past) tx.spends) id < 2 ^ 128 := by
    rw [RuneBalances.amount_empty, Nat.zero_add]
    exact supplied.spends_lt valid id
  rcases RuneBalances.creditAll_ok room with ⟨same, success, amounts, _⟩
  obtain rfl : same = balances := Except.ok.inj ((success build).symm.trans credited)
  rw [amounts, RuneBalances.amount_empty, Nat.zero_add]

theorem RuneRun.etched_unknown (run : RuneRun indexer past before)
    (ordered : InOrder (⟨point, blockIndex, tx, fun _ => IndexMap.empty⟩ :: past))
    (index : blockIndex < 2 ^ 32) {id : RuneId}
    (etched : indexer.etchedBy before tx blockIndex ⟨point, network, resolve⟩ = some id) :
    before.infos id = none := by
  rw [etchedBy, Option.map_eq_some_iff] at etched
  rcases etched with ⟨rune, asked, rfl⟩
  rw [Option.bind_eq_some_iff] at asked
  rcases asked with ⟨artifact, _, etches⟩
  rw [etchOf_id etches]
  exact run.unknown ordered index

/-- An output holds no more kinds of runes than were etched. -/
theorem RuneRun.entries_lt (run : RuneRun indexer past before)
    (guaranteed : indexer.ordinals.Guaranteed) (valid : ValidTx (liveRefs (unspentAfter past)) tx)
    (few : past.length < 2 ^ 56) {allocated : List RuneBalances} {balances : RuneBalances}
    (given : Apportions tx.tx.output (indexer.ordinals.decipher tx.tx)
      (indexer.etchedBy before tx blockIndex ⟨point, network, resolve⟩) (broughtBy
        (unspentAfter past) tx before point.height (indexer.ordinals.decipher tx.tx)
          (indexer.etchedBy before tx blockIndex ⟨point, network, resolve⟩)) allocated)
    (inside : balances ∈ allocated) : balances.entries.length < 2 ^ 57 := by
  let etched := indexer.etchedBy before tx blockIndex ⟨point, network, resolve⟩
  have named : ∀ id, id ∈ balances → id ∈ etched.toList ++ past.map IndexedTx.runeId := by
    intro id key
    apply run.mem_of_brought guaranteed valid
    have part := @amount_le_allocatedOf allocated balances id inside
    exact lt_of_lt_of_le (given.positive balances inside id key) (le_trans part (given.within id))
  have fewer := length_entries_le named
  have own : etched.toList.length ≤ 1 := by
    cases etched with
    | none => exact Nat.zero_le 1
    | some id => exact le_rfl
  rw [List.length_append, List.length_map] at fewer
  omega

theorem settled_completes (called : Called .runes past tx resolve state)
    (shown : before.Shown state.cells) (run : RuneRun indexer past before)
    (ordered : InOrder (⟨point, blockIndex, tx, fun _ => IndexMap.empty⟩ :: past))
    (guaranteed : indexer.ordinals.Guaranteed) (active : indexer.indexActivity)
    (single : ∀ witness, witness.length ≤ 1 → indexer.ordinals.tapscript witness = none)
    (limits : WithinLimits past tx point.height blockIndex) :
    (indexer.settled tx blockIndex ⟨point, network, resolve⟩).Completes RuneKey
      (fun activities _ => ∃ receipts : RuneReceipts indexer (unspentAfter past) tx,
        receipts.activityOrder = indexer.activityOrder tx ⟨point, network, resolve⟩ ∧
        receipts.activities = activities ∧
        Apportions tx.tx.output (indexer.ordinals.decipher tx.tx)
          (indexer.etchedBy before tx blockIndex ⟨point, network, resolve⟩) (broughtBy
            (unspentAfter past) tx before point.height (indexer.ordinals.decipher tx.tx)
              (indexer.etchedBy before tx blockIndex ⟨point, network, resolve⟩)) receipts.allocated)
      state := by
  let ctx : TxContext := ⟨point, network, resolve⟩
  have indexed := run.indexed guaranteed
  have supplied := run.supplied guaranteed
  have valid := called.valid
  have new (id : RuneId) (etched : indexer.etchedBy before tx blockIndex ctx = some id) :
      before.infos id = none := run.etched_unknown ordered limits.index etched
  have fits (id : RuneId) := @Supplied.brought_lt past before tx point.height
    (indexer.ordinals.decipher tx.tx) (indexer.etchedBy before tx blockIndex ctx) supplied valid new id
  have inputs : ∀ input ∈ tx.tx.input, input.previousOutput ≠ TxoRef.null → ∃ utxo,
      resolve input.previousOutput = some utxo ∧ runesOf utxo = .ok utxo.runes ∧
        utxo.script.length < 2 ^ 32 := by
    intro input member other
    rcases called.resolves indexed member other with ⟨utxo, found, unspent, decoded⟩
    exact ⟨utxo, found, decoded, limits.script_lt unspent⟩
  rw [settled, Script.bind_eq]
  apply (unallocated_completes inputs (called.room supplied)).bind (removal_yields called shown point network)
  rintro balances first ⟨_, decodes, credited, left⟩
  -- what the inputs hold is what there is to allocate, beside the mint and the premine
  have start (id : RuneId) : RuneBalances.amount balances id +
      amountIn (mintOf before point.height (indexer.ordinals.decipher tx.tx)).toList id +
        amountIn (premineOf (indexer.ordinals.decipher tx.tx)
          (indexer.etchedBy before tx blockIndex ctx)) id =
      broughtBy (unspentAfter past) tx before point.height (indexer.ordinals.decipher tx.tx)
        (indexer.etchedBy before tx blockIndex ctx) id := by
    rw [supplied.credited_amount valid credited, broughtBy]
  have artifacts : ∀ artifact ∈ indexer.ordinals.decipher tx.tx, artifact.Guaranteed tx.tx.output :=
    fun artifact found => guaranteed.flow tx.tx artifact found
  rw [Script.bind_eq, Script.completes_bind]
  apply (allocated_completes left limits.index limits.low
    (limits.commits_ok called indexed single ordered) artifacts fits start).mono
  intro allocated second given
  rcases sendRefs_start (supplied.spends_lt valid) with ⟨sent, sends, _⟩
  have sending : RuneActivities.collectInputTotals indexer.build ctx tx.tx = .ok sent := by
    rw [called.collects indexer.build point network decodes]
    exact sends indexer.build
  rw [Script.bind_eq, Script.completes_bind]
  apply Script.completes_lift (by rw [if_pos active]; exact sending)
  have count : (tx.tx.output.zip allocated).length = tx.tx.output.length := by
    rw [List.length_zip, given.count, Nat.min_self]
  apply (fileOutputs_completes _ _ _).mono
  · intro activities _ result
    refine ⟨⟨indexer.runeOrder tx ctx, indexer.activityOrder tx ctx, allocated, sent,
      fun _ => sends indexer.build⟩, rfl, ?_, given⟩
    rw [active] at result
    exact result.symm
  · intro item member
    have bound := List.snd_lt_of_mem_zipIdx member
    have small := valid.small
    omega
  · intro item member
    have inside := List.fst_mem_of_mem_zipIdx member
    exact limits.light.script_lt (List.of_mem_zip inside).1
  · intro item member
    have inside := (List.of_mem_zip (List.fst_mem_of_mem_zipIdx member)).2
    exact run.entries_lt guaranteed valid limits.few given inside

theorem processTx_ends {task : IndexingTask} {ictx : IndexingContext}
    (called : Called .runes past tx resolve (task.tables ictx)) (shown : before.Shown task.getRaw)
    (served : Script.Served RuneKey task) (run : RuneRun indexer past before)
    (ordered : InOrder (⟨point, blockIndex, tx, fun _ => IndexMap.empty⟩ :: past))
    (guaranteed : indexer.ordinals.Guaranteed) (active : indexer.indexActivity)
    (single : ∀ witness, witness.length ≤ 1 → indexer.ordinals.tapscript witness = none)
    (limits : WithinLimits past tx point.height blockIndex) :
    let ctx : TxContext := ⟨point, network, resolve⟩
    (indexer.FewMovements (unspentAfter past) before tx blockIndex ctx →
      ∃ after ictx', (indexer.processTx tx blockIndex ctx).run task ictx = .ok ((), after, ictx')) ∧
    (¬ indexer.FewMovements (unspentAfter past) before tx blockIndex ctx →
      (indexer.processTx tx blockIndex ctx).run task ictx = .error (.panicked "seq overflow")) := by
  intro ctx
  by_cases early : point.height < indexer.startHeight
  · constructor
    · intro _
      refine ⟨task, ictx, ?_⟩
      have nothing : indexer.processTx tx blockIndex ctx = .pure () := if_pos early
      rw [nothing]
      rfl
    · intro many
      exact absurd (Or.inl early) many
  · have stages := @settled_completes indexer past tx resolve (task.tables ictx) before point
      blockIndex network called shown run ordered guaranteed active single limits
    rcases stages.run served with ⟨activities, middle, inner, ran, receipts, order, rfl, given⟩
    have small := called.valid.small
    have spends := (run.supplied guaranteed).spends_lt called.valid
    have exact := receipts.exactRecords active small spends
    have listed : receipts.records =
        recordsOf (indexer.activityOrder tx ctx) receipts.activities := by
      rw [RuneReceipts.records, if_pos active, order]
      rfl
    have count : (indexer.movements (unspentAfter past) before tx blockIndex ctx).encard =
        (receipts.records.length : ENat) := exact.encard_movements small given.count given.shares
    have scripts : ∀ change ∈ receipts.records, change.script.length < 2 ^ 32 := by
      intro change member
      rcases exact.script_of given.count member with ⟨ref, _, utxo, found, _, script⟩ |
        ⟨index, output, _, placed, _, _, script⟩
      · rw [← script]
        exact limits.script_lt found
      · rw [← script]
        exact limits.light.script_lt (List.mem_of_getElem? placed)
    have later : Script.Served RuneKey middle :=
      served.sameSource (Script.run_within (Script.within_custom _) ran).1.sameSource
    have few : indexer.FewMovements (unspentAfter past) before tx blockIndex ctx ↔
        receipts.records.length ≤ 65535 := by
      rw [FewMovements, count, or_iff_right early]
      exact_mod_cast Iff.rfl
    have rest : (indexer.processTx tx blockIndex ctx).run task ictx =
        (logChanges tx.txId 0 receipts.records).run middle inner := by
      rw [processTx_eq early active, Script.run_bind ran, listed]
    have zero : (0 : U16).toNat = 0 := rfl
    rw [few, rest]
    constructor
    · intro few
      have ends : (logChanges tx.txId 0 receipts.records).Completes RuneKey (fun _ _ => True)
          (middle.tables inner) :=
        logChanges_completes (by rw [zero]; omega) scripts
      rcases ends.run later with ⟨_, after, ictx', done, _⟩
      exact ⟨after, ictx', done⟩
    · intro many
      exact logChanges_overflows later (by rw [zero]; omega) scripts

end Whole

theorem Midway.call_ends {indexer : RunesIndexer} {others : Others .runes} {point : TxPoint}
    (midway : Midway .runes (RunesGood indexer) point) (guaranteed : indexer.ordinals.Guaranteed)
    (single : ∀ witness, witness.length ≤ 1 → indexer.ordinals.tapscript witness = none)
    (active : indexer.indexActivity) {tx : TransactionWithId} (head : tx ∈ point.rest.head?)
    (limits : WithinLimits point.past tx point.ctx.point.height point.blockIndex)
    {task : IndexingTask} {ctx : IndexingContext} (early : runIndexers tx point.blockIndex
      point.task point.ctx others.before = .ok (task, ctx)) :
    ∃ runes : RuneState, runes.Shown point.task.getRaw ∧
      (indexer.FewMovements (unspentAfter point.past) runes tx point.blockIndex
          point.ctx.toTxContext → ∃ after ctx', (indexer.processTx tx point.blockIndex
            ctx.toTxContext).run task ctx = .ok ((), after, ctx')) ∧
      (¬ indexer.FewMovements (unspentAfter point.past) runes tx point.blockIndex
          point.ctx.toTxContext → (indexer.processTx tx point.blockIndex ctx.toTxContext).run task
            ctx = .error (.panicked "seq overflow")) := by
  rcases midway.runeRun with ⟨runes, shown, run⟩
  rcases midway.called head early with ⟨called, alike, view⟩
  have tables : runes.Shown task.getRaw :=
    shown.congr (fun key owns => congrArg Except.toOption (alike.cells key owns))
  have served : Script.Served RuneKey task :=
    midway.served.sameSource (runIndexers_written early).1.sameSource
  rw [view]
  exact ⟨runes, shown, processTx_ends called tables served run (midway.ordered tx _) guaranteed
    active single limits⟩

def premineScript : ScriptPubKey := [opReturn, 0x5d, 6, 2, 1, 6, 0xf0, 0xa2, 4]

def splitScript : ScriptPubKey := [opReturn, 0x5d, 7, 0, 1, 0, 1, 0x81, 0x80, 4]

def wideOrdinals : Ordinals :=
  { spendOrdinals with
    decipher := fun tx =>
      if tx.output.any (fun output => output.scriptPubkey = premineScript)
      then some (.runestone ⟨[], some ⟨none, some 70000, none, none, none, none⟩, none, none⟩)
      else if tx.output.any (fun output => output.scriptPubkey = splitScript) ∧
          65537 ≤ tx.output.length
      then some (.runestone ⟨[⟨⟨1, 0⟩, 1, 65537⟩], none, none, none⟩)
      else none }

def wideRunes : RunesIndexer := { spendRunes with ordinals := wideOrdinals }

def premineOne : TransactionWithId :=
  ⟨txIdOf 1, [⟨TxoRef.null, []⟩], [⟨50, [81]⟩, ⟨0, premineScript⟩]⟩

def premineEvents : List (Env × ChainEvent) :=
  let point : Point := ⟨1, mainnetBlockOne⟩
  [(acceptAt 5, .rollForward point mainnetHeaderOne [premineOne] point)]

def wideMachine : Machine :=
  Machine.bootstrap ((Others.alone .runes).with wideRunes.processTx) (Stage.empty (mainnetConfig 2))

def splitOver (count : Nat) : TransactionWithId :=
  ⟨txIdOf 2, [⟨⟨txIdOf 1, 0⟩, []⟩], ⟨0, splitScript⟩ :: List.replicate count ⟨0, []⟩⟩

theorem wideOrdinals_guaranteed : wideOrdinals.Guaranteed := by
  constructor
  · intro tx artifact deciphered
    simp only [wideOrdinals] at deciphered
    split at deciphered
    · obtain rfl := Option.some.inj deciphered
      exact ⟨by simp, by simp⟩
    · split at deciphered
      · rename_i split
        obtain rfl := Option.some.inj deciphered
        refine ⟨?_, by simp⟩
        intro edict member
        rw [List.mem_singleton.mp member]
        exact split.2
      · cases deciphered
  · intro tx stone etching deciphered asked
    simp only [wideOrdinals] at deciphered
    split at deciphered
    · cases deciphered
      cases asked
      decide
    · split at deciphered
      · cases deciphered
        cases asked
      · cases deciphered

theorem premine_run :
    let last := (wideMachine.uncached.run premineEvents).stage
    let confirmed := (wideMachine.uncached.history premineEvents).confirmed
    last.processedMempool = false ∧ Increasing last.db.db.log ∧ confirmed.length = 1 ∧
      (chainTxs confirmed).map IndexedTx.tx = [premineOne] ∧
        confirmed.flatMap IndexedBlock.txIds = [txIdOf 1] ∧
          (unspentAfter (chainTxs confirmed) ⟨txIdOf 1, 0⟩).map Utxo.runes =
            some [(⟨1, 0⟩, 70000)] := by
  decide +kernel

theorem premine_next {tx : TransactionWithId} (id : tx.txId = txIdOf 2)
    (input : tx.tx.input = [⟨⟨txIdOf 1, 0⟩, []⟩]) (light : tx.tx.Light)
    (small : tx.tx.output.length < 2 ^ 32) :
    let confirmed := (wideMachine.uncached.history premineEvents).confirmed
    ValidOn true confirmed [tx] ∧ WithinLimits (chainTxs confirmed) tx 2 0 := by
  intro confirmed
  rcases premine_run with ⟨_, _, _, txs, ids, runes⟩
  have other : (⟨txIdOf 1, 0⟩ : TxoRef) ≠ TxoRef.null := by decide
  have plain : tx.tx.isCoinbase = false := by
    rw [Transaction.isCoinbase, input]
    exact decide_eq_false other
  have spends : tx.spends = [⟨txIdOf 1, 0⟩] := by
    rw [TransactionWithId.spends, plain, input]
    rfl
  have live : (unspentAfter (chainTxs confirmed) ⟨txIdOf 1, 0⟩).isSome := by
    rw [← Option.isSome_map, runes]
    rfl
  constructor
  · refine ⟨⟨by decide +kernel, by decide +kernel, trivial⟩, ⟨?_, ⟨?_, ?_, small⟩, trivial⟩, ?_⟩
    · rw [plain]
      intro coinbase
      cases coinbase
    · rw [spends]
      exact List.nodup_singleton _
    · intro ref member
      rw [spends, List.mem_singleton] at member
      rw [liveRefs, member, ← unspentAfter_chainTxs]
      exact live
    · rw [List.map_singleton, id, ids]
      decide
  · refine ⟨light, ?_, ?_, by decide, by decide, ?_⟩
    · intro step member
      have own := List.mem_map_of_mem (f := IndexedTx.tx) member
      rw [txs, List.mem_singleton] at own
      rw [own]
      exact ⟨[4], rfl, by decide⟩
    · have count := congrArg List.length txs
      rw [List.length_map] at count
      rw [count]
      decide
    · intro other member null
      rw [input, List.mem_singleton] at member
      rw [member]
      exact Nat.zero_le 1

theorem length_splitOver (count : Nat) : (splitOver count).tx.output.length = count + 1 := by
  rw [splitOver, List.length_cons, List.length_replicate]

theorem weight_splitOver (count : Nat) : (splitOver count).tx.weight [107] =
    4 * (157 + compactSize (count + 1) + (19 + count * 9)) := by
  have outputs : ((splitOver count).tx.output.map TxOut.size).sum = 19 + count * 9 := by
    rw [splitOver, List.map_cons, List.map_replicate, List.sum_cons, List.sum_replicate_nat]
    rfl
  rw [Transaction.weight, Transaction.baseSize, outputs, length_splitOver]
  rfl

theorem destinations_splitOver (count : Nat) :
    (RuneLedger.destinations (splitOver count).tx.output).length = count := by
  rw [RuneLedger.length_destinations, splitOver, List.countP_cons, List.countP_replicate]
  rfl

theorem decipher_splitOver {count : Nat} (enough : 65536 ≤ count) :
    wideRunes.ordinals.decipher (splitOver count).tx =
      some (.runestone ⟨[⟨⟨1, 0⟩, 1, 65537⟩], none, none, none⟩) := by
  have premine : (splitOver count).tx.output.any (fun output =>
      output.scriptPubkey = premineScript) = false := by
    simp [splitOver, splitScript, premineScript]
  have split : (splitOver count).tx.output.any (fun output =>
      output.scriptPubkey = splitScript) = true := by
    simp [splitOver]
  have wide : 65537 ≤ (splitOver count).tx.output.length := by
    rw [length_splitOver]
    omega
  simp only [wideRunes, wideOrdinals, premine, split, wide]
  rfl

theorem splitOver_many (runes : RuneState) (ctx : TxContext) :
    ¬ wideRunes.FewMovements
      (unspentAfter (chainTxs (wideMachine.uncached.history premineEvents).confirmed)) runes
        (splitOver 65536) 0 ctx := by
  have held : amountIn (heldRunes (unspentAfter (chainTxs (wideMachine.uncached.history
      premineEvents).confirmed)) (splitOver 65536).spends) ⟨1, 0⟩ = 70000 := by
    rcases premine_run with ⟨_, _, _, _, _, runes⟩
    have spends : (splitOver 65536).spends = [⟨txIdOf 1, 0⟩] := rfl
    rw [spends, heldRunes, List.flatMap_singleton, runes]
    rfl
  rintro (early | few)
  · exact absurd early (Nat.not_lt_zero _)
  · rw [movements, decipher_splitOver le_rfl] at few
    have one : (1 : U128).toNat = 1 := rfl
    have all : (65537 : U32).toNat = 65537 := rfl
    have least := le_trans (@le_encard_movementsOf _ (splitOver 65536)
      ⟨[⟨⟨1, 0⟩, 1, 65537⟩], none, none, none⟩ ⟨⟨1, 0⟩, 1, 65537⟩ _ _ rfl (by decide) (by decide)
      (by rw [length_splitOver, all]) (by rw [destinations_splitOver, broughtBy, held, one]; omega)) few
    rw [destinations_splitOver] at least
    exact absurd least (by decide)

/-- Between any two transactions of what is indexed next after a run of valid blocks, snapshots and
rollbacks, the call for the next transaction runs to its end if and only if the runes it moves can
be counted in 16 bits; else the counter of its records overflows. -/
theorem activity_log_limit (blockHash : Header → BlockHash) (config : Config)
    (indexer : RunesIndexer) (others : Others .runes) (stage : Stage)
    (events : List (Env × ChainEvent)) (guaranteed : indexer.ordinals.Guaranteed)
    (single : ∀ witness, witness.length ≤ 1 → indexer.ordinals.tapscript witness = none)
    (active : indexer.indexActivity = true)
    (fresh : Stage.new config (StorageHandler.openDb DB.empty) = .ok stage)
    (fed : ∀ event ∈ events, event.2.Valid (HashedBy blockHash))
    (increasing : Increasing ((Machine.bootstrap (others.with indexer.processTx) stage).run
      events).stage.db.db.log)
    (valid : (Machine.bootstrap (others.with indexer.processTx) stage).uncached.ValidFrom ⟨[], []⟩
      events) :
    let machine := Machine.bootstrap (others.with indexer.processTx) stage
    NextPoints (others.with indexer.processTx) config.network (machine.uncached.run events).stage
      (machine.uncached.history events).confirmed (fun point => ∀ tx ∈ point.rest.head?,
        WithinLimits point.past tx point.ctx.point.height point.blockIndex →
        ∀ task ctx, runIndexers tx point.blockIndex point.task point.ctx others.before =
          .ok (task, ctx) →
        ∃ runes : RuneState, runes.Shown point.task.getRaw ∧
          ((∃ after ctx', (indexer.processTx tx point.blockIndex ctx.toTxContext).run task ctx =
              .ok ((), after, ctx')) ↔
            indexer.FewMovements (unspentAfter point.past) runes tx point.blockIndex
              point.ctx.toTxContext) ∧
          (¬ indexer.FewMovements (unspentAfter point.past) runes tx point.blockIndex
              point.ctx.toTxContext →
            (indexer.processTx tx point.blockIndex ctx.toTxContext).run task ctx =
              .error (.panicked "seq overflow"))) := by
  rw [Stage.new_empty, Except.ok.injEq] at fresh
  subst fresh
  intro machine
  apply ((runes_rule indexer).points others (HashedBy blockHash) config events fed valid
    increasing).mono
  intro point midway tx head limits task ctx early
  rcases midway.call_ends guaranteed single active head limits early with
    ⟨runes, shown, ends, overflows⟩
  refine ⟨runes, shown, ⟨?_, ends⟩, overflows⟩
  rintro ⟨after, ctx', done⟩
  by_contra many
  cases done.symm.trans (overflows many)

/-- The premine goes to one output. -/
theorem activity_log_limit_premine :
    let last := (wideMachine.uncached.run premineEvents).stage
    let confirmed := (wideMachine.uncached.history premineEvents).confirmed
    let begun := last.db.beginIndexingTask true
    let tx := spendOne 2 ⟨txIdOf 1, 0⟩
    ∃ ctx runes, IndexingContext.new begun [tx] ⟨2, mainnetBlockOne⟩ (mainnetConfig 2).network none =
        (none, .ok ctx) ∧
      RuneState.Shown runes begun.getRaw ∧
      (∃ after ctx', (wideRunes.processTx tx 0 ctx.toTxContext).run begun ctx =
        .ok ((), after, ctx')) ∧
      wideRunes.FewMovements (unspentAfter (chainTxs confirmed)) runes tx 0 ctx.toTxContext := by
  intro last confirmed begun tx
  rcases premine_run with ⟨settled, increasing, length, _⟩
  have light : tx.tx.Light := ⟨[107], rfl, by decide⟩
  rcases @premine_next tx rfl rfl light (by decide) with ⟨sound, limits⟩
  have points : NextPoints _ _ last confirmed _ := activity_log_limit mainnetHash (mainnetConfig 2)
    wideRunes (.alone .runes) _ premineEvents wideOrdinals_guaranteed (fun _ _ => rfl) rfl
    (Stage.new_empty _) (by decide +kernel) (by decide +kernel) (by decide +kernel)
  rcases @NextPoints.first _ _ _ _ _ ⟨2, mainnetBlockOne⟩ _ points (acceptAt 7) true settled increasing
    (by rw [length]; decide) (by rw [length]; rfl) sound with ⟨ctx, created, at'⟩
  have place := IndexingContext.point_new created
  rcases at' tx rfl (by simp only [place]; exact limits) begun ctx rfl with
    ⟨runes, shown, exact, _⟩
  have done : (((IndexingContext.new begun [tx] ⟨2, mainnetBlockOne⟩ (mainnetConfig 2).network
      none).2.bind (fun ctx => (wideRunes.processTx tx 0 ctx.toTxContext).run begun ctx)).isOk) =
        true := by
    decide +kernel
  rw [created] at done
  have success : ∃ after ctx', (wideRunes.processTx tx 0 ctx.toTxContext).run begun ctx =
      .ok ((), after, ctx') := by
    cases ran : (wideRunes.processTx tx 0 ctx.toTxContext).run begun ctx with
    | error failure =>
        simp only [Except.bind, ran] at done
        cases done
    | ok result => exact ⟨result.2.1, result.2.2, rfl⟩
  exact ⟨ctx, runes, created, shown, success, exact.mp success⟩

/-- A transaction of 2.4 million weight units, two fifths below the limit, ends the indexer. -/
theorem activity_log_overflows :
    let last := (wideMachine.uncached.run premineEvents).stage
    let confirmed := (wideMachine.uncached.history premineEvents).confirmed
    let begun := last.db.beginIndexingTask true
    ∃ ctx, IndexingContext.new begun [splitOver 65536] ⟨2, mainnetBlockOne⟩ (mainnetConfig 2).network none =
        (none, .ok ctx) ∧
      ValidOn true confirmed [splitOver 65536] ∧ WithinLimits (chainTxs confirmed) (splitOver 65536) 2 0 ∧
      (wideRunes.processTx (splitOver 65536) 0 ctx.toTxContext).run begun ctx =
        .error (.panicked "seq overflow") := by
  intro last confirmed begun
  rcases premine_run with ⟨settled, increasing, length, _⟩
  rcases @premine_next (splitOver 65536) rfl rfl ⟨[107], rfl, by rw [weight_splitOver]; decide⟩
    (by rw [length_splitOver]; decide) with ⟨sound, limits⟩
  have points : NextPoints _ _ last confirmed _ := (runes_rule wideRunes).points (.alone .runes)
    (HashedBy mainnetHash) (mainnetConfig 2) premineEvents (by decide +kernel) (by decide +kernel)
    (by decide +kernel)
  rcases @NextPoints.first _ _ _ _ _ ⟨2, mainnetBlockOne⟩ _ points (acceptAt 7) true settled increasing
    (by rw [length]; decide) (by rw [length]; rfl) sound with ⟨ctx, created, midway⟩
  refine ⟨ctx, created, sound, limits, ?_⟩
  have place := IndexingContext.point_new created
  have first : runIndexers (splitOver 65536) 0 begun ctx (Others.alone .runes).before =
    .ok (begun, ctx) := rfl
  rcases midway.call_ends wideOrdinals_guaranteed (fun _ _ => rfl) rfl rfl
    (by simp only [place]; exact limits) first with ⟨runes, _, _, overflows⟩
  exact overflows (splitOver_many runes ctx.toTxContext)

end Symphony
