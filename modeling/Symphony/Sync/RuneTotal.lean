import Symphony.Sync.RuneTables
import Symphony.Sync.ScriptTotal

/-! When the calls of the rune indexer run to their end. -/

namespace Symphony

open BigEndian (Byte)
open Encdec

theorem Encdec.VarUInt.length_encode_le (value : Nat) : (VarUInt.encode value).length ≤ 17 := by
  have short := VarUInt.length_data_le value
  rw [VarUInt.encode, List.length_cons]
  omega

/-- The encodings of a type are no longer than a limit. -/
def Sized (α : Type) [Encode α] (limit : Nat) : Prop :=
  ∀ value : α, (encode value : List Byte).length ≤ limit

section Sized

variable {α β : Type}

theorem sized_byte : Sized Byte 1 := fun _ => le_rfl

theorem sized_u16 : Sized U16 2 := by
  intro value
  exact le_of_eq (BigEndian.length_toBytes 2 value.toNat)

theorem sized_u32 : Sized U32 17 := fun value => VarUInt.length_encode_le value.toNat

theorem sized_u64 : Sized U64 17 := fun value => VarUInt.length_encode_le value.toNat

theorem sized_u128 : Sized U128 17 := fun value => VarUInt.length_encode_le value.toNat

theorem sized_vector (length : Nat) : Sized (List.Vector Byte length) length :=
  fun array => le_of_eq array.2

theorem Sized.option [Encode α] {limit : Nat} (sized : Sized α limit) :
    Sized (Option α) (limit + 1) := by
  intro value
  cases value with
  | none => exact Nat.succ_le_succ (Nat.zero_le limit)
  | some inner => exact Nat.succ_le_succ (sized inner)

theorem Sized.pair [Encode α] [Encode β] {first second : Nat} (left : Sized α first)
    (right : Sized β second) : Sized (α × β) (first + second) := by
  intro value
  have parts : (encode value : List Byte) = encode value.1 ++ encode value.2 := rfl
  rw [parts, List.length_append]
  exact Nat.add_le_add (left value.1) (right value.2)

theorem Sized.length_list [Encode α] {limit : Nat} (sized : Sized α limit) (items : List α) :
    (encode items : List Byte).length ≤ 17 + limit * items.length := by
  have count := VarUInt.length_encode_le items.length
  have parts : (encode items : List Byte) = VarUInt.encode items.length ++ items.flatMap encode := rfl
  have body : (items.flatMap encode : List Byte).length ≤ limit * items.length := by
    clear parts count
    induction items with
    | nil => exact Nat.zero_le _
    | cons item items ih =>
        have first := sized item
        rw [List.flatMap_cons, List.length_append, List.length_cons, Nat.mul_succ]
        omega
  rw [parts, List.length_append]
  omega

end Sized

theorem sized_runeId : Sized RuneId 34 := fun id => (sized_u64.pair sized_u32) (RuneId.fields id)

theorem sized_runeTerms : Sized RuneTerms 72 := fun terms =>
  (sized_u128.option.pair (sized_u128.option.pair (sized_u64.option.pair sized_u64.option)))
    (RuneTerms.fields terms)

theorem sized_runeInfo : Sized RuneInfo 192 := fun info =>
  (sized_u128.pair (sized_runeTerms.option.pair (sized_u32.option.pair (sized_byte.pair
    (sized_u64.pair ((sized_vector 32).pair (sized_u128.pair sized_u32))))))) (RuneInfo.fields info)

theorem sized_txoRef : Sized TxoRef 49 := fun ref =>
  ((sized_vector 32).pair sized_u32) (ref.txHash, ref.txoIndex)

theorem sized_logKey : Sized RuneActivityByTxKey 34 := fun key =>
  ((sized_vector 32).pair sized_u16) (RuneActivityByTxKey.fields key)

theorem length_encode_owned (key : OwnedUtxoKey) :
    (encode key : List Byte).length ≤ key.owner.length + 83 := by
  have parts : (encode key : List Byte) = encode key.owner ++ encode (key.producedHeight, key.txoRef) :=
    rfl
  have owner := sized_byte.length_list key.owner
  have rest := sized_u64.pair sized_txoRef (key.producedHeight, key.txoRef)
  rw [parts, List.length_append]
  omega

theorem length_encode_change (change : RuneBalanceChange) :
    (encode change : List Byte).length ≤ change.script.length + 103 := by
  have parts : (encode change : List Byte) = encode change.runeId ++ (encode change.script ++
    encode (change.sent, change.received, change.outputIndex)) := rfl
  have id := sized_runeId change.runeId
  have script := sized_byte.length_list change.script
  have rest := sized_u128.pair (sized_u128.pair sized_u32.option)
    (change.sent, change.received, change.outputIndex)
  rw [parts, List.length_append, List.length_append]
  omega

theorem length_encode_runes (runes : UtxoRunes) :
    (encode runes : List Byte).length ≤ 17 + 51 * runes.length :=
  (sized_runeId.pair sized_u128).length_list runes

theorem IndexerTable.length_raw {Key Value : Type} [Encode Key] (kv : IndexerTable Key Value)
    (key : Key) : (kv.raw key).length = 4 + (encode key : List Byte).length := by
  rw [raw, Table.encodeKey, List.length_append]
  rfl

namespace RunesIndexer

inductive RuneKey : RawKey → Prop where
  | info (id : RuneId) : RuneKey (infoTable.raw id)
  | name (name : Rune) : RuneKey (nameTable.raw name)
  | mints (id : RuneId) : RuneKey (mintsTable.raw id)
  | filed (key : OwnedUtxoKey) (short : key.owner.length < 2 ^ 64) : RuneKey (utxoTable.raw key)
  | log (key : RuneActivityByTxKey) : RuneKey (activityTable.raw key)

theorem served_of_shown {runes : RuneState} {task : IndexingTask}
    (shown : runes.Shown (task.db.get task.readTs)) : Script.Served RuneKey task := by
  intro raw key
  cases key with
  | info id => exact ⟨_, shown.infos id (fits_runeId id)⟩
  | name name => exact ⟨_, shown.names name trivial⟩
  | mints id => exact ⟨_, shown.mints id (fits_runeId id)⟩
  | log key => exact ⟨_, shown.log key ⟨trivial, trivial⟩⟩
  | filed key short =>
      by_cases filed : runes.filed key
      · exact ⟨_, (shown.filed key short).1 filed⟩
      · exact ⟨_, (shown.filed key short).2 filed⟩

variable {runes : RuneState} {state : TableState}

theorem mint_completes (shown : runes.Shown state.cells) (id : RuneId) (height : BlockHeight) :
    (mint id height).Completes RuneKey (fun outcome after => after.attached = state.attached ∧
      outcome = runes.mint id height ∧ (runes.minted id height).Shown after.cells) state := by
  have short : (mintsTable.raw id).length < 2 ^ 63 := by
    have size := sized_runeId id
    rw [IndexerTable.length_raw]
    omega
  have ends : (mint id height).Completes RuneKey (fun _ _ => True) state := by
    simp only [mint, Script.bind_eq]
    rw [Script.completes_bind]
    apply IndexerTable.completes_get (shown.infos.decodes (fits_runeId id)
      (fun info _ => fits_runeInfo info))
    cases (runes.infos id).bind RuneInfo.terms with
    | none => trivial
    | some terms =>
        simp only
        split
        · trivial
        · split
          · trivial
          · rw [Script.completes_bind]
            apply IndexerTable.completes_get (shown.mints.decodes (fits_runeId id) (fun _ _ => trivial))
            by_cases capped : terms.cap.getD 0 ≤ (runes.mints id).getD 0
            · rw [if_pos capped]
              trivial
            · have room : (runes.mints id).getD 0 ≠ BitVec.allOnes 128 := by
                intro full
                rw [full, BitVec.le_def, BitVec.toNat_allOnes] at capped
                have bound := (terms.cap.getD 0).isLt
                omega
              rw [if_neg capped, if_neg room, Script.completes_bind]
              exact IndexerTable.completes_set (.mints id) short (length_encode_u128 _) trivial
  exact (ends.and (mint_yields shown)).mono (fun _ _ both => both.2)

theorem unallocated_completes {build : Build} {ctx : TxContext} {inputs : List TxIn}
    {balances : RuneBalances} {state : TableState}
    (resolves : ∀ input ∈ inputs, input.previousOutput ≠ TxoRef.null → ∃ utxo,
      ctx.resolveInput input.previousOutput = some utxo ∧ runesOf utxo = .ok utxo.runes ∧
        utxo.script.length < 2 ^ 32)
    (bounded : ∀ id, RuneBalances.amount balances id +
      amountIn (spentRunes ctx.resolveInput inputs) id < 2 ^ 128) :
    (unallocated build ctx inputs balances).Completes RuneKey (fun _ _ => True) state := by
  induction inputs generalizing state balances with
  | nil => trivial
  | cons input inputs ih =>
      rw [List.forall_mem_cons] at resolves
      simp only [unallocated, spentRunes] at bounded ⊢
      by_cases null : input.previousOutput = TxoRef.null
      · rw [if_pos null]
        simp only [if_pos null, List.nil_append] at bounded
        exact ih resolves.2 bounded
      · rcases resolves.1 null with ⟨utxo, found, decoded, short⟩
        simp only [if_neg null, found, Option.map_some, Option.getD_some, amountIn_append] at bounded ⊢
        have room (id : RuneId) : RuneBalances.amount balances id + amountIn utxo.runes id < 2 ^ 128 := by
          have whole := bounded id
          omega
        rcases @RuneBalances.creditAll_ok balances utxo.runes room with
          ⟨middle, credited, amounts, _⟩
        have rest (id : RuneId) : RuneBalances.amount middle id +
            amountIn (spentRunes ctx.resolveInput inputs) id < 2 ^ 128 := by
          rw [amounts, Nat.add_assoc]
          exact bounded id
        simp only [decoded, credited, Script.lift, Script.bind_eq, Script.bind]
        by_cases empty : utxo.runes.isEmpty
        · rw [if_pos empty]
          exact ih resolves.2 rest
        · rw [if_neg empty, Script.completes_bind]
          have size := length_encode_owned ⟨utxo.script, utxo.height, input.previousOutput⟩
          apply IndexerTable.completes_delete (.filed _ (lt_trans short (by decide)))
          · rw [IndexerTable.length_raw]
            simp only at size
            omega
          · exact ih resolves.2 rest

def etchOf (indexer : RunesIndexer) (known : Rune → Option RuneId) (tx : Transaction)
    (blockIndex : Nat) (ctx : TxContext) (artifact : Artifact) : Option (RuneId × Rune) :=
  let id : RuneId := ⟨ctx.point.height, BitVec.ofNat 32 blockIndex⟩
  match artifact.etching with
  | none => none
  | some none => some (id, indexer.ordinals.reserved id.block id.tx)
  | some (some rune) =>
      if rune < indexer.ordinals.minimumAtHeight ctx.network (ctx.point.height.setWidth 32) ∨
          indexer.ordinals.isReserved rune ∨ (known rune).isSome then none
      else if (indexer.txCommitsToRune ctx rune tx.input).toOption.getD false then some (id, rune)
      else none

theorem commitsIn_ok {commitment : List Byte} {output : Utxo} {height required : BlockHeight}
    (low : output.height ≤ height) (small : height.toNat < 2 ^ 32)
    (instructions : List (Option Instruction)) :
    ∃ flag, commitsIn commitment (some output) height required instructions = .ok flag := by
  have above : ¬ height < output.height := by
    rw [BitVec.lt_def]
    rw [BitVec.le_def] at low
    omega
  have near : height - output.height ≠ u64Max := by
    intro far
    have value : (height - output.height).toNat = height.toNat - output.height.toNat :=
      BitVec.toNat_sub_of_le low
    have most : u64Max.toNat = 2 ^ 64 - 1 := rfl
    rw [far, most] at value
    omega
  induction instructions with
  | nil => exact ⟨false, rfl⟩
  | cons instruction instructions ih =>
      cases instruction with
      | none => exact ⟨false, rfl⟩
      | some instruction =>
          cases instruction with
          | op => exact ih
          | pushBytes bytes =>
              simp only [commitsIn, if_neg above, if_neg near]
              split
              · exact ih
              · split
                · exact ih
                · split
                  · exact ⟨true, rfl⟩
                  · exact ih

theorem txCommitsToRune_ok {indexer : RunesIndexer} {ctx : TxContext} (rune : Rune)
    {inputs : List TxIn} (small : ctx.point.height.toNat < 2 ^ 32)
    (resolves : ∀ input ∈ inputs, indexer.ordinals.tapscript input.witness ≠ none → ∃ utxo,
      ctx.resolveInput input.previousOutput = some utxo ∧ utxo.height ≤ ctx.point.height) :
    ∃ flag, indexer.txCommitsToRune ctx rune inputs = .ok flag := by
  induction inputs with
  | nil => exact ⟨false, rfl⟩
  | cons input inputs ih =>
      rw [List.forall_mem_cons] at resolves
      rw [txCommitsToRune]
      cases shown : indexer.ordinals.tapscript input.witness with
      | none => exact ih resolves.2
      | some tapscript =>
          rcases resolves.1 (by rw [shown]; exact Option.some_ne_none _) with ⟨utxo, found, low⟩
          rcases @commitsIn_ok (indexer.ordinals.commitment rune) utxo ctx.point.height
            (indexer.commitmentConfirmations.getD indexer.ordinals.commitConfirmations) low small
            (indexer.ordinals.instructions tapscript) with ⟨flag, committed⟩
          simp only [found, committed]
          cases flag with
          | true => exact ⟨true, rfl⟩
          | false => exact ih resolves.2

theorem etched_completes {indexer : RunesIndexer} {tx : Transaction} {blockIndex : Nat}
    {ctx : TxContext} {artifact : Artifact} (shown : runes.Shown state.cells)
    (index : blockIndex < 2 ^ 32) (small : ctx.point.height.toNat < 2 ^ 32)
    (commits : ∀ rune, ∃ flag, indexer.txCommitsToRune ctx rune tx.input = .ok flag) :
    (indexer.etched tx blockIndex ctx artifact).Completes RuneKey (fun outcome after =>
      after = state ∧ outcome = indexer.etchOf runes.names tx blockIndex ctx artifact) state := by
  simp only [etched, etchOf]
  rw [if_neg (by omega)]
  cases artifact.etching with
  | none => exact ⟨rfl, rfl⟩
  | some name =>
      simp only [if_neg (Nat.not_le.mpr small)]
      cases name with
      | none => exact ⟨rfl, rfl⟩
      | some rune =>
          simp only
          by_cases below : rune <
              indexer.ordinals.minimumAtHeight ctx.network (ctx.point.height.setWidth 32)
          · rw [if_pos below, if_pos (.inl below)]
            exact ⟨rfl, rfl⟩
          · by_cases reserved : indexer.ordinals.isReserved rune
            · rw [if_neg below, if_pos reserved, if_pos (.inr (.inl reserved))]
              exact ⟨rfl, rfl⟩
            · rw [if_neg below, if_neg reserved, Script.bind_eq, Script.completes_bind]
              apply IndexerTable.completes_get (shown.names.decodes trivial
                (fun id _ => fits_runeId id))
              by_cases known : (runes.names rune).isSome
              · rw [if_pos known, if_pos (.inr (.inr known))]
                exact ⟨rfl, rfl⟩
              · rcases commits rune with ⟨flag, committed⟩
                rw [if_neg known, if_neg (by tauto), committed]
                exact ⟨rfl, rfl⟩

theorem createRuneEntry_completes {artifact : Artifact} {txId : Txid} {id : RuneId} {name : Rune}
    {height : BlockHeight} {state : TableState} (etching : artifact.etching.isSome) :
    (createRuneEntry artifact txId id name height).Completes RuneKey (fun _ _ => True) state := by
  have entry : ∃ info, runeInfo artifact txId name height = .ok info := by
    cases artifact with
    | cenotaph stone => exact ⟨_, rfl⟩
    | runestone stone =>
        simp only [Artifact.etching, Option.isSome_map] at etching
        rcases Option.isSome_iff_exists.mp etching with ⟨etching, found⟩
        exact ⟨_, by rw [runeInfo, found]⟩
  rcases entry with ⟨info, entry⟩
  have nameSize := sized_u128 name
  have idSize := sized_runeId id
  have infoSize := sized_runeInfo info
  simp only [createRuneEntry, Script.bind_eq, Script.completes_bind, entry]
  apply IndexerTable.completes_set (.name name)
  · rw [IndexerTable.length_raw]
    omega
  · omega
  · apply IndexerTable.completes_set (.info id)
    · rw [IndexerTable.length_raw]
      omega
    · omega
    · trivial

theorem fileOutputs_completes {indexer : RunesIndexer} {tx : TransactionWithId} {ctx : TxContext}
    {items : List ((TxOut × RuneBalances) × Nat)} {activities : RuneActivities} {state : TableState}
    (places : ∀ item ∈ items, item.2 < 2 ^ 32)
    (scripts : ∀ item ∈ items, item.1.1.scriptPubkey.length < 2 ^ 32)
    (lists : ∀ item ∈ items, item.1.2.entries.length < 2 ^ 57) :
    (indexer.fileOutputs tx ctx items activities).Completes RuneKey (fun result _ => result =
      receiveOutputs indexer.indexActivity (indexer.runeOrder tx ctx) items activities) state := by
  induction items generalizing activities state with
  | nil => rfl
  | cons item items ih =>
      rcases item with ⟨⟨output, balances⟩, index⟩
      rw [List.forall_mem_cons] at places scripts lists
      rw [fileOutputs, if_neg (Nat.not_le.mpr places.1), receiveOutputs]
      by_cases empty : balances.entries.isEmpty
      · have nothing : outputRunes (indexer.runeOrder tx ctx) ((output, balances), index) = none :=
          if_pos empty
        rw [if_pos empty, nothing]
        exact ih places.2 scripts.2 lists.2
      · have listing : outputRunes (indexer.runeOrder tx ctx) ((output, balances), index) =
            some ((indexer.runeOrder tx ctx index).iter balances) := if_neg empty
        have count : ((indexer.runeOrder tx ctx index).iter balances).length =
            balances.entries.length := by
          rw [((indexer.runeOrder tx ctx index).perm balances).length_eq, List.length_map]
        have size := length_encode_runes ((indexer.runeOrder tx ctx index).iter balances)
        have fits := lists.1
        simp only at fits
        have room : (encode ((indexer.runeOrder tx ctx index).iter balances) : List Byte).length <
            2 ^ 63 := by
          omega
        have key := length_encode_owned ⟨output.scriptPubkey, ctx.point.height, tx.txoRef index⟩
        have script := scripts.1
        simp only at key script
        rw [if_neg empty, listing]
        simp only [IndexingTask.allocate_short room, Script.lift, Script.bind_eq, Script.bind]
        rw [Script.Completes, Script.completes_bind]
        apply IndexerTable.completes_set (.filed _ (lt_trans script (by decide)))
        · rw [IndexerTable.length_raw]
          omega
        · exact Nat.zero_lt_of_lt (by decide : 0 < 2 ^ 63)
        · exact ih places.2 scripts.2 lists.2

theorem logChanges_completes {txId : Txid} {seq : U16} {changes : List RuneBalanceChange}
    {state : TableState} (few : seq.toNat + changes.length ≤ 65535)
    (scripts : ∀ change ∈ changes, change.script.length < 2 ^ 32) :
    (logChanges txId seq changes).Completes RuneKey (fun _ _ => True) state := by
  induction changes generalizing seq state with
  | nil => trivial
  | cons change changes ih =>
      rw [List.forall_mem_cons] at scripts
      rw [List.length_cons] at few
      have below : seq ≠ BitVec.allOnes 16 := by
        intro last
        rw [last, BitVec.toNat_allOnes] at few
        omega
      have one : (1 : U16).toNat = 1 := rfl
      have next : (seq + 1).toNat = seq.toNat + 1 := by
        rw [BitVec.toNat_add, one, Nat.mod_eq_of_lt (by omega)]
      have key := sized_logKey ⟨txId, seq⟩
      have size := length_encode_change change
      have short := scripts.1
      rw [logChanges, if_neg below, Script.bind_eq, Script.completes_bind]
      apply IndexerTable.completes_set (.log _)
      · rw [IndexerTable.length_raw]
        omega
      · omega
      · exact ih (by rw [next]; omega) scripts.2

theorem logChanges_overflows {txId : Txid} {seq : U16} {changes : List RuneBalanceChange}
    {task : IndexingTask} {ctx : IndexingContext} (served : Script.Served RuneKey task)
    (many : 65535 < seq.toNat + changes.length)
    (scripts : ∀ change ∈ changes, change.script.length < 2 ^ 32) :
    (logChanges txId seq changes).run task ctx = .error (.panicked "seq overflow") := by
  induction changes generalizing seq task with
  | nil =>
      have bound := seq.isLt
      rw [List.length_nil] at many
      omega
  | cons change changes ih =>
      rw [List.forall_mem_cons] at scripts
      rw [List.length_cons] at many
      rw [logChanges]
      by_cases last : seq = BitVec.allOnes 16
      · rw [if_pos last]
        rfl
      · have below : seq.toNat < 65535 := by
          by_contra high
          apply last
          apply BitVec.eq_of_toNat_eq
          rw [BitVec.toNat_allOnes]
          have bound := seq.isLt
          omega
        have one : (1 : U16).toNat = 1 := rfl
        have next : (seq + 1).toNat = seq.toNat + 1 := by
          rw [BitVec.toNat_add, one, Nat.mod_eq_of_lt (by omega)]
        have key := sized_logKey ⟨txId, seq⟩
        have size := length_encode_change change
        have short := scripts.1
        have raw : (activityTable.raw ⟨txId, seq⟩).length < 2 ^ 63 := by
          rw [IndexerTable.length_raw]
          omega
        rcases served _ (.log ⟨txId, seq⟩) with ⟨held, found⟩
        rcases IndexingTask.setRaw_runs raw (show (encode change : List BigEndian.Byte).length <
          2 ^ 63 by omega) found with ⟨middle, step, source⟩
        have ran : (activityTable.set ⟨txId, seq⟩ change).run task ctx = .ok ((), middle, ctx) := by
          have stepped : task.setRaw (activityTable.key ⟨txId, seq⟩).raw (encode change) =
            .ok middle := step
          simp only [IndexerTable.set, Script.run, stepped]
        rw [if_neg last, Script.bind_eq, Script.run_bind ran]
        exact ih (served.sameSource source) (by rw [next]; omega) scripts.2

end RunesIndexer

end Symphony
