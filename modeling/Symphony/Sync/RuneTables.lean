import Symphony.Sync.MappedTable
import Symphony.Sync.RuneFlowSpec

/-! What the calls of the rune indexer make of its tables. -/

namespace Symphony

open Encdec

theorem fits_runeId (id : RuneId) : Fits id := ⟨trivial, trivial⟩

theorem fits_runeInfo (info : RuneInfo) : Fits info :=
  ⟨trivial, by intro _ _; exact ⟨by intro _ _; trivial, by intro _ _; trivial, by intro _ _; trivial,
    by intro _ _; trivial⟩, by intro _ _; trivial, trivial, trivial, trivial, trivial, trivial⟩

structure RuneState where
  infos : RuneId → Option RuneInfo
  names : Rune → Option RuneId
  mints : RuneId → Option U128
  filed : OwnedUtxoKey → Prop
  log : RuneActivityByTxKey → Option RuneBalanceChange

namespace RuneState

open RunesIndexer

def empty : RuneState := ⟨fun _ => none, fun _ => none, fun _ => none, fun _ => False, fun _ => none⟩

structure Shown (runes : RuneState) (cells : RawKey → Cell) : Prop where
  infos : Maps cells infoTable runes.infos
  names : Maps cells nameTable runes.names
  mints : Maps cells mintsTable runes.mints
  filed : Lists cells utxoTable runes.filed
  log : Maps cells activityTable runes.log

theorem shown_empty : empty.Shown (fun _ => .ok none) :=
  ⟨fun _ _ => rfl, fun _ _ => rfl, fun _ _ => rfl,
    fun _ _ => ⟨fun impossible => impossible.elim, fun _ => rfl⟩, fun _ _ => rfl⟩

namespace Shown

variable {runes : RuneState} {state : TableState}

theorem congr {cells other : RawKey → Cell} (shown : runes.Shown cells)
    (same : ∀ key, TransactionIndexer.runes.Owns key → (other key).toOption = (cells key).toOption) :
    runes.Shown other :=
  ⟨shown.infos.congr (fun key => same _ (infoTable.owns_raw key)),
    shown.names.congr (fun key => same _ (nameTable.owns_raw key)),
    shown.mints.congr (fun key => same _ (mintsTable.owns_raw key)),
    shown.filed.congr (fun key => same _ (utxoTable.owns_raw key)),
    shown.log.congr (fun key => same _ (activityTable.owns_raw key))⟩

theorem setInfo (shown : runes.Shown state.cells) (id : RuneId) (info : RuneInfo) :
    Shown { runes with infos := Function.update runes.infos id (some info) }
      (state.write (infoTable.raw id) (.ok (some (encode info)))).cells :=
  ⟨shown.infos.set (fits_runeId id) info,
    shown.names.elsewhere (fun key => nameTable.raw_ne infoTable rfl (by decide) key id),
    shown.mints.elsewhere (fun key => mintsTable.raw_ne infoTable rfl (by decide) key id),
    shown.filed.elsewhere (fun key => utxoTable.raw_ne infoTable rfl (by decide) key id),
    shown.log.elsewhere (fun key => activityTable.raw_ne infoTable rfl (by decide) key id)⟩

theorem setName (shown : runes.Shown state.cells) (name : Rune) (id : RuneId) :
    Shown { runes with names := Function.update runes.names name (some id) }
      (state.write (nameTable.raw name) (.ok (some (encode id)))).cells :=
  ⟨shown.infos.elsewhere (fun key => infoTable.raw_ne nameTable rfl (by decide) key name),
    shown.names.set trivial id,
    shown.mints.elsewhere (fun key => mintsTable.raw_ne nameTable rfl (by decide) key name),
    shown.filed.elsewhere (fun key => utxoTable.raw_ne nameTable rfl (by decide) key name),
    shown.log.elsewhere (fun key => activityTable.raw_ne nameTable rfl (by decide) key name)⟩

theorem setMints (shown : runes.Shown state.cells) (id : RuneId) (mints : U128) :
    Shown { runes with mints := Function.update runes.mints id (some mints) }
      (state.write (mintsTable.raw id) (.ok (some (encode mints)))).cells :=
  ⟨shown.infos.elsewhere (fun key => infoTable.raw_ne mintsTable rfl (by decide) key id),
    shown.names.elsewhere (fun key => nameTable.raw_ne mintsTable rfl (by decide) key id),
    shown.mints.set (fits_runeId id) mints,
    shown.filed.elsewhere (fun key => utxoTable.raw_ne mintsTable rfl (by decide) key id),
    shown.log.elsewhere (fun key => activityTable.raw_ne mintsTable rfl (by decide) key id)⟩

theorem setLog (shown : runes.Shown state.cells) (key : RuneActivityByTxKey)
    (change : RuneBalanceChange) :
    Shown { runes with log := Function.update runes.log key (some change) }
      (state.write (activityTable.raw key) (.ok (some (encode change)))).cells :=
  ⟨shown.infos.elsewhere (fun other => infoTable.raw_ne activityTable rfl (by decide) other key),
    shown.names.elsewhere (fun other => nameTable.raw_ne activityTable rfl (by decide) other key),
    shown.mints.elsewhere (fun other => mintsTable.raw_ne activityTable rfl (by decide) other key),
    shown.filed.elsewhere (fun other => utxoTable.raw_ne activityTable rfl (by decide) other key),
    shown.log.set ⟨trivial, trivial⟩ change⟩

theorem moved (shown : runes.Shown state.cells) {key : OwnedUtxoKey} {cell : Cell}
    {filed : OwnedUtxoKey → Prop} (lists : Lists (state.write (utxoTable.raw key) cell).cells utxoTable
      filed) : Shown { runes with filed } (state.write (utxoTable.raw key) cell).cells :=
  ⟨shown.infos.elsewhere (fun other => infoTable.raw_ne utxoTable rfl (by decide) other key),
    shown.names.elsewhere (fun other => nameTable.raw_ne utxoTable rfl (by decide) other key),
    shown.mints.elsewhere (fun other => mintsTable.raw_ne utxoTable rfl (by decide) other key),
    lists,
    shown.log.elsewhere (fun other => activityTable.raw_ne utxoTable rfl (by decide) other key)⟩

theorem same {filed : OwnedUtxoKey → Prop} {cells : RawKey → Cell} (shown : runes.Shown cells)
    (equal : ∀ key, runes.filed key ↔ filed key) : Shown { runes with filed } cells :=
  ⟨shown.infos, shown.names, shown.mints, shown.filed.same equal, shown.log⟩

section Reads

variable {task : IndexingTask} {handler : StorageHandler}

theorem get_info (shown : runes.Shown task.getRaw) (id : RuneId) :
    task.get RuneInfoByIdKV id = .ok (runes.infos id) :=
  shown.infos.get (fits_runeId id) (fun info _ => fits_runeInfo info)

theorem get_name (shown : runes.Shown task.getRaw) (name : Rune) :
    task.get RuneIdByNameKV name = .ok (runes.names name) :=
  shown.names.get trivial (fun id _ => fits_runeId id)

theorem get_mints (shown : runes.Shown task.getRaw) (id : RuneId) :
    task.get RuneMintsByIdKV id = .ok (runes.mints id) :=
  shown.mints.get (fits_runeId id) (fun _ _ => trivial)

theorem read_info (shown : runes.Shown handler.db.view) (id : RuneId) :
    (handler.reader Timestamp.latest).get RuneInfoByIdKV id = .ok (runes.infos id) :=
  shown.infos.read (fits_runeId id) (fun info _ => fits_runeInfo info)

theorem read_name (shown : runes.Shown handler.db.view) (name : Rune) :
    (handler.reader Timestamp.latest).get RuneIdByNameKV name = .ok (runes.names name) :=
  shown.names.read trivial (fun id _ => fits_runeId id)

theorem read_mints (shown : runes.Shown handler.db.view) (id : RuneId) :
    (handler.reader Timestamp.latest).get RuneMintsByIdKV id = .ok (runes.mints id) :=
  shown.mints.read (fits_runeId id) (fun _ _ => trivial)

end Reads

end Shown

def mint (runes : RuneState) (id : RuneId) (height : BlockHeight) : Option U128 :=
  match (runes.infos id).bind RuneInfo.terms with
  | none => none
  | some terms =>
      if terms.startHeight.any (fun start => height < start) then none
      else if terms.endHeight.any (fun stop => stop ≤ height) then none
      else if terms.cap.getD 0 ≤ (runes.mints id).getD 0 then none
      else some (terms.amount.getD 0)

def minted (runes : RuneState) (id : RuneId) (height : BlockHeight) : RuneState :=
  match runes.mint id height with
  | none => runes
  | some _ =>
      { runes with mints := Function.update runes.mints id (some ((runes.mints id).getD 0 + 1)) }

def etched (runes : RuneState) (id : RuneId) (name : Rune) (info : RuneInfo) : RuneState :=
  { runes with
    infos := Function.update runes.infos id (some info)
    names := Function.update runes.names name (some id) }

end RuneState

namespace RunesIndexer

variable {runes : RuneState} {state : TableState} {id : RuneId} {height : BlockHeight}

theorem mint_yields (shown : runes.Shown state.cells) :
    (mint id height).Yields (fun outcome after => after.attached = state.attached ∧
      outcome = runes.mint id height ∧ (runes.minted id height).Shown after.cells) state := by
  simp only [mint, Script.bind_eq, Script.yields_bind,
    shown.infos.yields_get (fits_runeId id) (fun info _ => fits_runeInfo info), RuneState.minted,
    RuneState.mint]
  cases (runes.infos id).bind RuneInfo.terms with
  | none => exact ⟨rfl, rfl, shown⟩
  | some terms =>
      simp only
      split
      · exact ⟨rfl, rfl, shown⟩
      · split
        · exact ⟨rfl, rfl, shown⟩
        · rw [Script.yields_bind, shown.mints.yields_get (fits_runeId id) (fun _ _ => trivial)]
          by_cases capped : terms.cap.getD 0 ≤ (runes.mints id).getD 0
          · simp only [if_pos capped]
            exact ⟨rfl, rfl, shown⟩
          · simp only [if_neg capped]
            by_cases full : (runes.mints id).getD 0 = BitVec.allOnes 128
            · rw [if_pos full]
              trivial
            · rw [if_neg full, Script.yields_bind, IndexerTable.yields_set]
              intro _
              exact ⟨rfl, rfl, shown.setMints id _⟩

structure Etches (indexer : RunesIndexer) (known : Rune → Option RuneId) (blockIndex : Nat)
    (height : BlockHeight) (network : Network) (artifact : Artifact) (id : RuneId) (rune : Rune) :
    Prop where
  index : blockIndex < 2 ^ 32
  low : height.toNat < 2 ^ 32
  id_eq : id = ⟨height, BitVec.ofNat 32 blockIndex⟩
  name : artifact.etching = some none ∧ rune = indexer.ordinals.reserved id.block id.tx ∨
    artifact.etching = some (some rune) ∧ indexer.ordinals.isReserved rune = false ∧
      known rune = none ∧ ¬ rune < indexer.ordinals.minimumAtHeight network (height.setWidth 32)

theorem Etches.asks {indexer : RunesIndexer} {known : Rune → Option RuneId} {blockIndex : Nat}
    {network : Network} {artifact : Artifact} {rune : Rune}
    (etches : indexer.Etches known blockIndex height network artifact id rune) :
    artifact.etching.isSome := by
  rcases etches.name with ⟨asked, _⟩ | ⟨asked, _⟩
  · rw [asked]
    rfl
  · rw [asked]
    rfl

variable {indexer : RunesIndexer} {tx : Transaction} {blockIndex : Nat} {ctx : TxContext}
variable {artifact : Artifact}

theorem etched_yields (shown : runes.Shown state.cells) :
    (indexer.etched tx blockIndex ctx artifact).Yields (fun outcome after => after = state ∧
      ∀ id rune, outcome = some (id, rune) → indexer.Etches runes.names blockIndex ctx.point.height
        ctx.network artifact id rune) state := by
  have nothing : ∀ id rune, (none : Option (RuneId × Rune)) = some (id, rune) →
      indexer.Etches runes.names blockIndex ctx.point.height ctx.network artifact id rune := by
    intro id rune impossible
    cases impossible
  simp only [etched]
  by_cases large : 2 ^ 32 ≤ blockIndex
  · rw [if_pos large]
    trivial
  · rw [if_neg large]
    cases asked : artifact.etching with
    | none => exact ⟨rfl, nothing⟩
    | some name =>
        simp only
        by_cases high : 2 ^ 32 ≤ ctx.point.height.toNat
        · rw [if_pos high]
          trivial
        · rw [if_neg high]
          cases name with
          | none =>
              refine ⟨rfl, ?_⟩
              rintro id rune ⟨⟩
              exact ⟨by omega, by omega, rfl, Or.inl ⟨asked, rfl⟩⟩
          | some rune =>
              simp only
              split
              · exact ⟨rfl, nothing⟩
              · split
                · exact ⟨rfl, nothing⟩
                · rename_i minimum reserved
                  rw [Script.bind_eq, Script.yields_bind,
                    shown.names.yields_get trivial (fun id _ => fits_runeId id)]
                  cases known : runes.names rune with
                  | some other => exact ⟨rfl, nothing⟩
                  | none =>
                      simp only [Option.isSome_none, Bool.false_eq_true, if_false, Script.bind_eq,
                        Script.yields_bind, Script.yields_lift]
                      intro commits _
                      refine ⟨rfl, ?_⟩
                      intro id name etches
                      split at etches
                      · cases etches
                        exact ⟨by omega, by omega, rfl, Or.inr ⟨asked, by simpa using reserved, known,
                          minimum⟩⟩
                      · cases etches

theorem createRuneEntry_yields (shown : runes.Shown state.cells) {txId : Txid} {name : Rune} :
    (createRuneEntry artifact txId id name height).Yields (fun _ after =>
      after.attached = state.attached ∧ ∃ info, runeInfo artifact txId name height = .ok info ∧
        (runes.etched id name info).Shown after.cells) state := by
  simp only [createRuneEntry, Script.bind_eq, Script.yields_bind, IndexerTable.yields_set,
    Script.yields_lift]
  intro _ info entry _
  exact ⟨rfl, info, entry, (shown.setName name id).setInfo id info⟩

end RunesIndexer

def Utxo.runes (utxo : Utxo) : UtxoRunes := (runesOf utxo).toOption.getD []

theorem RuneBalances.creditAll_append (build : Build) (balances : RuneBalances)
    (first second : UtxoRunes) :
    balances.creditAll build (first ++ second) = match balances.creditAll build first with
      | .error failure => .error failure
      | .ok middle => RuneBalances.creditAll build middle second := by
  induction first generalizing balances with
  | nil => rfl
  | cons rune first ih =>
      rcases rune with ⟨id, amount⟩
      rw [List.cons_append, creditAll, creditAll]
      cases balances.credit build id amount with
      | error failure => rfl
      | ok middle => exact ih middle

namespace RunesIndexer

def spentRunes (resolve : TxoRef → Option Utxo) : List TxIn → UtxoRunes
  | [] => []
  | input :: inputs =>
      (if input.previousOutput = TxoRef.null then []
        else ((resolve input.previousOutput).map Utxo.runes).getD []) ++ spentRunes resolve inputs

def RemovedBy (resolve : TxoRef → Option Utxo) (inputs : List TxIn) (key : OwnedUtxoKey) : Prop :=
  ∃ input ∈ inputs, input.previousOutput ≠ TxoRef.null ∧
    ∃ utxo, resolve input.previousOutput = some utxo ∧ utxo.runes ≠ [] ∧
      key = ⟨utxo.script, utxo.height, input.previousOutput⟩

theorem unallocated_yields {runes : RuneState} {state : TableState} {build : Build} {ctx : TxContext}
    {inputs : List TxIn} {balances : RuneBalances} (shown : runes.Shown state.cells) :
    (unallocated build ctx inputs balances).Yields (fun result after =>
      after.attached = state.attached ∧
      (∀ input ∈ inputs, input.previousOutput ≠ TxoRef.null → ∃ utxo,
        ctx.resolveInput input.previousOutput = some utxo ∧ runesOf utxo = .ok utxo.runes) ∧
      balances.creditAll build (spentRunes ctx.resolveInput inputs) = .ok result ∧
      RuneState.Shown { runes with
        filed := fun key => runes.filed key ∧ ¬ RemovedBy ctx.resolveInput inputs key } after.cells)
      state := by
  induction inputs generalizing runes state balances with
  | nil => exact ⟨rfl, by simp, rfl, shown.same (by simp [RemovedBy])⟩
  | cons input inputs ih =>
      simp only [unallocated, spentRunes, List.forall_mem_cons]
      by_cases null : input.previousOutput = TxoRef.null
      · rw [if_pos null, if_pos null]
        apply (ih shown).mono
        intro result after done
        refine ⟨done.1, ⟨fun other => absurd null other, done.2.1⟩, done.2.2.1, ?_⟩
        apply done.2.2.2.same
        intro key
        simp only [RemovedBy, List.exists_mem_cons_iff, null, ne_eq, not_true_eq_false, false_and,
          false_or]
      · rw [if_neg null, if_neg null]
        cases found : ctx.resolveInput input.previousOutput with
        | none => trivial
        | some utxo =>
            simp only [Script.bind_eq]
            rw [Script.yields_bind, Script.yields_lift]
            intro held decoded
            have own : utxo.runes = held := by rw [Utxo.runes, decoded]; rfl
            subst own
            have removal : (if utxo.runes.isEmpty then .pure ()
                else utxoTable.delete ⟨utxo.script, utxo.height, input.previousOutput⟩).Yields
                (fun _ after => after.attached = state.attached ∧ RuneState.Shown { runes with
                  filed := fun key => runes.filed key ∧ ¬ (utxo.runes ≠ [] ∧
                    key = ⟨utxo.script, utxo.height, input.previousOutput⟩) } after.cells) state := by
              by_cases empty : utxo.runes = []
              · rw [empty]
                exact ⟨rfl, shown.same (by simp)⟩
              · rw [if_neg (by simpa using empty), IndexerTable.yields_delete]
                intro short
                refine ⟨rfl, shown.moved ((shown.filed.delete short).same ?_)⟩
                intro key
                simp only [ne_eq, empty, not_false_eq_true, true_and]
            apply removal.bind
            intro _ middle left
            rw [Script.yields_bind, Script.yields_lift]
            intro credited success
            apply (ih left.2).mono
            intro result after done
            refine ⟨done.1.trans left.1, ⟨fun _ => ⟨utxo, rfl, decoded⟩, done.2.1⟩, ?_, ?_⟩
            · rw [Option.map_some, Option.getD_some, RuneBalances.creditAll_append, success]
              exact done.2.2.1
            · apply done.2.2.2.same
              intro key
              simp only [RemovedBy, List.exists_mem_cons_iff, ne_eq, null, not_false_eq_true, true_and,
                found, Option.some.injEq, exists_eq_left', not_or, and_assoc]

def outputRunes (order : Nat → MapOrder RuneId U128) (item : (TxOut × RuneBalances) × Nat) :
    Option UtxoRunes :=
  if item.1.2.entries.isEmpty then none else some ((order item.2).iter item.1.2)

def receiveOutputs (indexActivity : Bool) (order : Nat → MapOrder RuneId U128) :
    List ((TxOut × RuneBalances) × Nat) → RuneActivities → RuneActivities
  | [], activities => activities
  | item :: items, activities => receiveOutputs indexActivity order items
      (match outputRunes order item with
        | none => activities
        | some runes => if indexActivity
          then RuneActivities.receiveAll item.1.1.scriptPubkey (BitVec.ofNat 32 item.2) runes activities
          else activities)

/-- What filing the outputs leaves: the metadata and the key of each. -/
structure OutputsFiled (order : Nat → MapOrder RuneId U128) (tx : TransactionWithId)
    (height : BlockHeight) (items : List ((TxOut × RuneBalances) × Nat)) (runes : RuneState)
    (state after : TableState) : Prop where
  elsewhere : ∀ ref, (∀ item ∈ items, ref ≠ tx.txoRef item.2) →
    after.attached ref = state.attached ref
  attached : ∀ item ∈ items, (after.attached (tx.txoRef item.2)).get? .runes =
    (outputRunes order item).map encode
  short : ∀ item ∈ items, ∀ listed, outputRunes order item = some listed →
    (encode listed : List BigEndian.Byte).length < 2 ^ 63 ∧ item.1.1.scriptPubkey.length < 2 ^ 64
  shown : RuneState.Shown { runes with
    filed := fun key => runes.filed key ∨ ∃ item ∈ items, (outputRunes order item).isSome ∧
      key = ⟨item.1.1.scriptPubkey, height, tx.txoRef item.2⟩ } after.cells

theorem OutputsFiled.attached_at {order : Nat → MapOrder RuneId U128} {tx : TransactionWithId}
    {height : BlockHeight} {outputs : List (TxOut × RuneBalances)} {runes : RuneState}
    {state after : TableState} (files : OutputsFiled order tx height outputs.zipIdx runes state after)
    (short : outputs.length < 2 ^ 32) {ref : TxoRef} (own : ref.txHash = tx.txId)
    (plain : (state.attached ref).get? .runes = none) :
    (after.attached ref).get? .runes =
      (outputs.zipIdx[ref.txoIndex.toNat]?.bind (outputRunes order)).map encode := by
  cases found : outputs[ref.txoIndex.toNat]? with
  | some item =>
      have received := files.attached (item, ref.txoIndex.toNat)
        (List.mem_zipIdx_iff_getElem?.mpr found)
      rw [TransactionWithId.txoRef_txoIndex own] at received
      rw [received, List.getElem?_zipIdx, found, Nat.zero_add]
      rfl
  | none =>
      rw [files.elsewhere ref (TransactionWithId.ne_txoRef short found), plain,
        List.getElem?_zipIdx, found]
      rfl

section Filing

variable {order : Nat → MapOrder RuneId U128} {tx : TransactionWithId} {height : BlockHeight}
variable {item : (TxOut × RuneBalances) × Nat} {items : List ((TxOut × RuneBalances) × Nat)}
variable {runes : RuneState} {state after : TableState}

/-- An output without runes is passed over. -/
theorem OutputsFiled.pass (nothing : outputRunes order item = none)
    (apart : ∀ other ∈ items, tx.txoRef other.2 ≠ tx.txoRef item.2)
    (plain : (state.attached (tx.txoRef item.2)).get? .runes = none)
    (filed : OutputsFiled order tx height items runes state after) :
    OutputsFiled order tx height (item :: items) runes state after := by
  constructor
  · intro ref other
    exact filed.elsewhere ref (fun item member => other item (List.mem_cons_of_mem _ member))
  · rw [List.forall_mem_cons, nothing]
    refine ⟨?_, filed.attached⟩
    rw [filed.elsewhere _ (fun item member => (apart item member).symm), plain]
    rfl
  · rw [List.forall_mem_cons, nothing]
    refine ⟨?_, filed.short⟩
    intro listed impossible
    cases impossible
  · apply filed.shown.same
    intro key
    simp only [List.exists_mem_cons_iff, nothing, Option.isSome_none, Bool.false_eq_true,
      false_and, false_or]

/-- An output with runes is filed before the others. -/
theorem OutputsFiled.file {listed : UtxoRunes} (listing : outputRunes order item = some listed)
    (apart : ∀ other ∈ items, tx.txoRef other.2 ≠ tx.txoRef item.2)
    (bounded : (encode listed : List BigEndian.Byte).length < 2 ^ 63)
    (short : item.1.1.scriptPubkey.length < 2 ^ 64) {raw : RawKey} {cell : Cell}
    (filed : OutputsFiled order tx height items
      { runes with filed := fun key =>
        key = ⟨item.1.1.scriptPubkey, height, tx.txoRef item.2⟩ ∨ runes.filed key }
      ((state.attach (tx.txoRef item.2) .runes (encode listed)).write raw cell) after) :
    OutputsFiled order tx height (item :: items) runes state after := by
  constructor
  · intro ref other
    rw [List.forall_mem_cons] at other
    rw [filed.elsewhere ref other.2, TableState.attached_write,
      TableState.attached_attach_ne _ _ _ _ _ other.1]
  · rw [List.forall_mem_cons, listing]
    refine ⟨?_, filed.attached⟩
    rw [filed.elsewhere _ (fun item member => (apart item member).symm), TableState.attached_write,
      TableState.attached_attach_self, IndexMap.get?_insert_self]
    rfl
  · rw [List.forall_mem_cons, listing]
    refine ⟨?_, filed.short⟩
    rintro _ ⟨⟩
    exact ⟨bounded, short⟩
  · apply filed.shown.same
    intro key
    simp only [List.exists_mem_cons_iff, listing, Option.isSome_some, true_and]
    tauto

end Filing

theorem fileOutputs_yields {indexer : RunesIndexer} {tx : TransactionWithId} {ctx : TxContext}
    {items : List ((TxOut × RuneBalances) × Nat)} {activities : RuneActivities} {runes : RuneState}
    {state : TableState} (distinct : (items.map (fun item => tx.txoRef item.2)).Nodup)
    (plain : ∀ item ∈ items, (state.attached (tx.txoRef item.2)).get? .runes = none)
    (shown : runes.Shown state.cells) :
    (indexer.fileOutputs tx ctx items activities).Yields (fun result after =>
      result = receiveOutputs indexer.indexActivity (indexer.runeOrder tx ctx) items activities ∧
      OutputsFiled (indexer.runeOrder tx ctx) tx ctx.point.height items runes state after) state := by
  induction items generalizing activities runes state with
  | nil => exact ⟨rfl, fun _ _ => rfl, by simp, by simp, shown.same (by simp)⟩
  | cons item items ih =>
      rcases item with ⟨⟨output, balances⟩, index⟩
      simp only [List.map_cons, List.nodup_cons] at distinct
      simp only [List.forall_mem_cons] at plain
      have apart (item : (TxOut × RuneBalances) × Nat) (member : item ∈ items) :
          tx.txoRef item.2 ≠ tx.txoRef index := by
        intro same
        exact distinct.1 (List.mem_map.mpr ⟨item, member, same⟩)
      rw [fileOutputs]
      by_cases large : 2 ^ 32 ≤ index
      · rw [if_pos large]
        trivial
      · rw [if_neg large]
        by_cases empty : balances.entries.isEmpty
        · have nothing : outputRunes (indexer.runeOrder tx ctx) ((output, balances), index) = none :=
            if_pos empty
          rw [if_pos empty, receiveOutputs, nothing]
          apply (ih distinct.2 plain.2 shown).mono
          rintro result after ⟨value, filed⟩
          exact ⟨value, filed.pass nothing apart plain.1⟩
        · rw [if_neg empty]
          have listing : outputRunes (indexer.runeOrder tx ctx) ((output, balances), index) =
              some ((indexer.runeOrder tx ctx index).iter balances) := if_neg empty
          rw [receiveOutputs, listing]
          simp only [Script.bind_eq, Script.yields_bind, Script.yields_lift, Script.Yields,
            IndexerTable.yields_set]
          intro data allocated short
          obtain ⟨bounded, rfl⟩ := IndexingTask.allocate_ok allocated
          have base : runes.Shown (state.attach (tx.txoRef index) .runes
              (encode ((indexer.runeOrder tx ctx index).iter balances))).cells := shown
          apply (ih distinct.2 _ (base.moved (base.filed.set short))).mono
          · rintro result after ⟨value, filed⟩
            exact ⟨value, filed.file listing apart bounded (owner_lt short)⟩
          · intro item member
            rw [TableState.attached_write, TableState.attached_attach_ne _ _ _ _ _ (apart item member)]
            exact plain.2 item member

/-- Numbered records, from a first number on. -/
def logged (txId : Txid) (start : Nat) (changes : List RuneBalanceChange)
    (log : RuneActivityByTxKey → Option RuneBalanceChange) (key : RuneActivityByTxKey) :
    Option RuneBalanceChange :=
  if key.txHash = txId ∧ start ≤ key.seq.toNat ∧ key.seq.toNat < start + changes.length
  then changes[key.seq.toNat - start]? else log key

theorem logged_cons {txId : Txid} {seq : U16} {change : RuneBalanceChange}
    {changes : List RuneBalanceChange} {log : RuneActivityByTxKey → Option RuneBalanceChange} :
    logged txId (seq.toNat + 1) changes (Function.update log ⟨txId, seq⟩ (some change)) =
      logged txId seq.toNat (change :: changes) log := by
  funext key
  rcases key with ⟨txHash, place⟩
  simp only [logged, List.length_cons]
  by_cases own : txHash = txId
  · subst own
    by_cases first : place = seq
    · subst first
      rw [if_neg, if_pos, Function.update_self, Nat.sub_self, List.getElem?_cons_zero]
      · exact ⟨rfl, le_rfl, by omega⟩
      · rintro ⟨_, above, _⟩
        omega
    · have apart : place.toNat ≠ seq.toNat := fun equal => first (BitVec.eq_of_toNat_eq equal)
      by_cases later : seq.toNat < place.toNat ∧ place.toNat < seq.toNat + 1 + changes.length
      · have step : place.toNat - seq.toNat = (place.toNat - (seq.toNat + 1)) + 1 := by omega
        rw [if_pos, if_pos, step, List.getElem?_cons_succ]
        · exact ⟨rfl, by omega, by omega⟩
        · exact ⟨rfl, by omega, by omega⟩
      · rw [if_neg, if_neg, Function.update_of_ne]
        · simp [first]
        · rintro ⟨_, low, high⟩
          omega
        · rintro ⟨_, low, high⟩
          omega
  · rw [if_neg (fun both => own both.1), if_neg (fun both => own both.1), Function.update_of_ne]
    simp [own]

theorem logChanges_yields {txId : Txid} {seq : U16} {changes : List RuneBalanceChange}
    {runes : RuneState} {state : TableState} (shown : runes.Shown state.cells) :
    (logChanges txId seq changes).Yields (fun _ after => after.attached = state.attached ∧
      seq.toNat + changes.length ≤ 65535 ∧
      RuneState.Shown { runes with log := logged txId seq.toNat changes runes.log } after.cells)
      state := by
  induction changes generalizing seq runes state with
  | nil =>
      refine ⟨rfl, ?_, ?_⟩
      · have bound := seq.isLt
        rw [List.length_nil]
        omega
      · have same : logged txId seq.toNat [] runes.log = runes.log := by
          funext key
          rw [logged, if_neg]
          rintro ⟨_, low, high⟩
          rw [List.length_nil] at high
          omega
        rw [same]
        exact shown
  | cons change changes ih =>
      rw [logChanges]
      by_cases last : seq = BitVec.allOnes 16
      · rw [if_pos last]
        trivial
      · rw [if_neg last, Script.bind_eq, Script.yields_bind, IndexerTable.yields_set]
        intro _
        have next : (seq + 1).toNat = seq.toNat + 1 := by
          have bound := seq.isLt
          have below : seq.toNat ≠ 65535 := by
            intro top
            exact last (BitVec.eq_of_toNat_eq (by rw [top]; rfl))
          have one : (1 : U16).toNat = 1 := rfl
          rw [BitVec.toNat_add, one, Nat.mod_eq_of_lt (by omega)]
        apply (ih (shown.setLog ⟨txId, seq⟩ change)).mono
        rintro _ after ⟨attached, few, done⟩
        rw [next] at few done
        refine ⟨attached, by rw [List.length_cons]; omega, ?_⟩
        rw [← logged_cons]
        exact done

end RunesIndexer

end Symphony
