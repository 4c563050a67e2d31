import Mathlib.Data.Set.Finite.Basic
import Symphony.Proof.RuneScans
import Symphony.Proof.RuneUtxos

/-! The rune routes of an address against the UTXO set. -/

namespace Symphony

open Encdec
open RunesIndexer
open VersionedLog (Increasing)

structure Scanned (reader : Reader) (set : UtxoSet) (key : RuneUtxosByScriptKey) (utxo : Utxo) :
    Prop where
  reads : Serve.runeOutput reader (.ok (key, ())) = .ok (key, utxo, utxo.runes)
  unspent : set key.txoRef = some utxo
  height : utxo.height = key.producedHeight
  formed : WellFormed utxo.runes

section Routes

open Serve

variable {reader : Reader} {set : UtxoSet} {id : RuneId}
variable {outputs : List (RuneUtxosByScriptKey × Utxo)}

def entriesOf (outputs : List (RuneUtxosByScriptKey × Utxo)) : List RuneEntry :=
  outputs.map (fun output => .ok (output.1, ()))

def runesOfAll (outputs : List (RuneUtxosByScriptKey × Utxo)) : UtxoRunes :=
  outputs.flatMap (fun output => output.2.runes)

def runeUtxo (output : RuneUtxosByScriptKey × Utxo) : RuneUtxo :=
  ⟨output.1.txoRef.txHash, output.1.txoRef.txoIndex, output.1.producedHeight, output.2.satoshis,
    output.2.runes⟩

theorem collectUtxos_eq (wanted : UtxoRunes → Bool)
    (scanned : ∀ output ∈ outputs, Scanned reader set output.1 output.2) :
    collectUtxos reader wanted (entriesOf outputs) =
      .ok ((outputs.filter (fun output => wanted output.2.runes)).map runeUtxo) := by
  induction outputs with
  | nil => rfl
  | cons output outputs ih =>
      rw [List.forall_mem_cons] at scanned
      have rest := ih scanned.2
      rw [entriesOf] at rest
      simp only [entriesOf, List.map_cons, collectUtxos, scanned.1.reads, rest, List.filter_cons]
      split
      · rfl
      · rfl

theorem sumBalances_eq {build : Build} {balances after : RuneBalances}
    (scanned : ∀ output ∈ outputs, Scanned reader set output.1 output.2)
    (credited : balances.creditAll build (runesOfAll outputs) = .ok after) :
    sumBalances build reader (entriesOf outputs) balances = .ok after := by
  induction outputs generalizing balances with
  | nil =>
      cases credited
      rfl
  | cons output outputs ih =>
      rw [List.forall_mem_cons] at scanned
      rw [runesOfAll, List.flatMap_cons, RuneBalances.creditAll_append] at credited
      simp only [entriesOf, List.map_cons, sumBalances, scanned.1.reads]
      cases first : balances.creditAll build output.2.runes with
      | error failure =>
          rw [first] at credited
          cases credited
      | ok middle =>
          rw [first] at credited
          exact ih scanned.2 credited

theorem amountIn_firstAmount {runes : UtxoRunes} (distinct : (runes.map Prod.fst).Nodup) :
    amountIn runes id = ((firstAmount id runes).map BitVec.toNat).getD 0 := by
  rw [firstAmount]
  cases found : runes.find? (fun rune => rune.1 = id) with
  | none =>
      apply amountIn_of_not_mem
      intro member
      rcases List.mem_map.mp member with ⟨rune, inside, rfl⟩
      have different := List.find?_eq_none.mp found rune inside
      simp at different
  | some rune =>
      have same : rune.1 = id := by simpa using List.find?_some found
      have member := List.mem_of_find?_eq_some found
      have entry : (id, rune.2) ∈ runes := by
        rw [← same]
        exact member
      exact amountIn_of_mem distinct entry

theorem sumBalance_eq {balance : U128}
    (scanned : ∀ output ∈ outputs, Scanned reader set output.1 output.2)
    (bounded : balance.toNat + amountIn (runesOfAll outputs) id < 2 ^ 128) :
    ∃ total, (∀ build, sumBalance build reader id (entriesOf outputs) balance = .ok total) ∧
      total.toNat = balance.toNat + amountIn (runesOfAll outputs) id := by
  induction outputs generalizing balance with
  | nil => exact ⟨balance, fun _ => rfl, rfl⟩
  | cons output outputs ih =>
      rw [List.forall_mem_cons] at scanned
      have amount := @amountIn_firstAmount id output.2.runes scanned.1.formed.distinct
      rw [runesOfAll, List.flatMap_cons, amountIn_append] at bounded ⊢
      simp only [entriesOf, List.map_cons, sumBalance, scanned.1.reads]
      cases first : firstAmount id output.2.runes with
      | none =>
          rw [first] at amount
          rw [amount] at bounded ⊢
          have small : balance.toNat + amountIn (runesOfAll outputs) id < 2 ^ 128 := by
            simpa [runesOfAll] using bounded
          have rest := ih scanned.2 small
          simpa [runesOfAll, entriesOf] using rest
      | some quantity =>
          rw [first] at amount
          simp only [Option.map_some, Option.getD_some] at amount
          rw [amount] at bounded ⊢
          have sum : (balance + quantity).toNat = balance.toNat + quantity.toNat := by
            rw [BitVec.toNat_add, Nat.mod_eq_of_lt (by omega)]
          have small : (balance + quantity).toNat + amountIn (runesOfAll outputs) id < 2 ^ 128 := by
            rw [sum, runesOfAll]
            omega
          rcases ih scanned.2 small with ⟨total, done, value⟩
          refine ⟨total, ?_, ?_⟩
          · intro build
            simp only [build.add_ok (show balance.toNat + quantity.toNat < 2 ^ 128 by omega)]
            exact done build
          · rw [value, sum, runesOfAll]
            omega

theorem withInfo_ok {includeInfo : Bool} {balances : UtxoRunes}
    (known : ∀ rune ∈ balances, ∃ info, reader.get RuneInfoByIdKV rune.1 = .ok (some info)) :
    ∃ processed, withInfo reader includeInfo balances = .ok processed ∧
      processed.map (fun balance => (balance.id, balance.amount)) = balances := by
  induction balances with
  | nil => exact ⟨[], rfl, rfl⟩
  | cons rune balances ih =>
      rcases rune with ⟨id, amount⟩
      rw [List.forall_mem_cons] at known
      rcases ih known.2 with ⟨processed, done, same⟩
      rcases known.1 with ⟨info, entry⟩
      have expected : getExpectedAt reader RuneInfoByIdKV debugRuneId id = .ok info := by
        rw [getExpectedAt, entry]
      simp only [withInfo, expected, done]
      cases includeInfo with
      | false => exact ⟨_, rfl, by rw [List.map_cons, same]⟩
      | true => exact ⟨_, rfl, by rw [List.map_cons, same]⟩

def balanceFor (balances : List RuneBalanceWithInfo) (id : RuneId) : Nat :=
  (((balances.find? (fun balance => balance.id = id)).map RuneBalanceWithInfo.amount).getD 0).toNat

theorem balanceFor_eq {balances : List RuneBalanceWithInfo}
    (distinct : (balances.map RuneBalanceWithInfo.id).Nodup) :
    balanceFor balances id =
      amountIn (balances.map (fun balance => (balance.id, balance.amount))) id := by
  have same : firstAmount id (balances.map (fun balance => (balance.id, balance.amount))) =
      (balances.find? (fun balance => balance.id = id)).map RuneBalanceWithInfo.amount := by
    rw [firstAmount, List.find?_map, Option.map_map]
    rfl
  rw [amountIn_firstAmount (by rw [List.map_map]; exact distinct), same, balanceFor]
  cases (balances.find? (fun balance => balance.id = id)).map RuneBalanceWithInfo.amount with
  | none => rfl
  | some amount => rfl

instance : IsTrans (RuneId × U128) (fun first second => RuneId.precedes first.1 second.1) where
  trans := by
    intro first second third left right
    simp only [RuneId.precedes, BitVec.lt_def, BitVec.le_def] at left right ⊢
    rcases left with below | ⟨same, level⟩
    · rcases right with below' | ⟨same', _⟩
      · left
        omega
      · left
        rw [← same']
        exact below
    · rcases right with below' | ⟨same', level'⟩
      · left
        rw [same]
        exact below'
      · right
        exact ⟨same.trans same', by omega⟩

instance : Std.Total (fun first second : RuneId × U128 => RuneId.precedes first.1 second.1) where
  total := by
    intro first second
    simp only [RuneId.precedes, BitVec.lt_def, BitVec.le_def]
    by_cases same : first.1.block = second.1.block
    · rcases Nat.le_total first.1.tx.toNat second.1.tx.toNat with low | high
      · exact Or.inl (Or.inr ⟨same, low⟩)
      · exact Or.inr (Or.inr ⟨same.symm, high⟩)
    · have apart : first.1.block.toNat ≠ second.1.block.toNat :=
        fun equal => same (BitVec.eq_of_toNat_eq equal)
      omega

theorem allRuneBalances_ok {script : ScriptPubKey} {includeInfo : Bool}
    (scan : balancesScan reader script = entriesOf outputs)
    (scanned : ∀ output ∈ outputs, Scanned reader set output.1 output.2)
    (bounded : ∀ id, amountIn (runesOfAll outputs) id < 2 ^ 128)
    (known : ∀ id ∈ (runesOfAll outputs).map Prod.fst,
      ∃ info, reader.get RuneInfoByIdKV id = .ok (some info)) :
    ∃ balances,
      (∀ build, addressesAllRuneBalances build reader script includeInfo = .ok balances) ∧
      balances.Pairwise (fun first second => first.id ≠ second.id ∧ first.id.precedes second.id) ∧
      ∀ id, balanceFor balances id = amountIn (runesOfAll outputs) id := by
  have room (id : RuneId) : RuneBalances.amount ∅ id + amountIn (runesOfAll outputs) id < 2 ^ 128 := by
    rw [RuneBalances.amount_empty, Nat.zero_add]
    exact bounded id
  rcases RuneBalances.creditAll_ok room with ⟨totals, credited, amounts, keys⟩
  have summed (build : Build) := sumBalances_eq scanned (credited build)
  let sorted := (RuneBalances.listed totals).insertionSort
    (fun first second => RuneId.precedes first.1 second.1)
  have perm : sorted.Perm (RuneBalances.listed totals) := List.perm_insertionSort _ _
  have entries : ∀ rune ∈ sorted, ∃ info, reader.get RuneInfoByIdKV rune.1 = .ok (some info) := by
    intro rune member
    apply known
    have listed := RuneBalances.mem_listed.mp (perm.mem_iff.mp member)
    have inside : rune.1 ∈ totals := AList.lookup_isSome.mp (by rw [listed]; rfl)
    exact ((keys rune.1).mp inside).resolve_left (AList.notMem_empty _)
  rcases @withInfo_ok reader includeInfo sorted entries with ⟨balances, done, same⟩
  have ids : balances.map RuneBalanceWithInfo.id = sorted.map Prod.fst := by
    rw [← same, List.map_map]
    rfl
  have distinct : (sorted.map Prod.fst).Nodup :=
    (perm.map Prod.fst).nodup_iff.mpr (RuneBalances.listed_nodup totals)
  have order : sorted.Pairwise (fun first second => RuneId.precedes first.1 second.1) :=
    List.pairwise_insertionSort _ _
  refine ⟨balances, ?_, ?_, ?_⟩
  · intro build
    simp only [addressesAllRuneBalances, scan, summed]
    exact done
  · have both := (List.pairwise_map.mp distinct).and order
    rw [← same, List.pairwise_map] at both
    exact both
  · intro id
    rw [balanceFor_eq (by rw [ids]; exact distinct), same, amountIn_perm perm,
      RuneBalances.amountIn_listed, amounts, RuneBalances.amount_empty, Nat.zero_add]

end Routes

theorem unspentAfter_finite (past : List IndexedTx) :
    {ref | (unspentAfter past ref).isSome}.Finite := by
  induction past with
  | nil => exact Set.finite_empty.subset (fun _ impossible => Bool.noConfusion impossible)
  | cons step past ih =>
      have own := (Set.finite_lt_nat step.tx.tx.output.length).image step.tx.txoRef
      apply (own.union ih).subset
      intro ref live
      obtain ⟨utxo, found⟩ := Option.isSome_iff_exists.mp live
      rcases unspentAfter_cons_cases found with ⟨output, created, _⟩ | ⟨_, before⟩
      · left
        have hash := TransactionWithId.txHash_of_creates created
        rw [TransactionWithId.creates_eq, Option.filter_eq_some_iff, TransactionWithId.outputAt,
          if_pos hash] at created
        exact ⟨ref.txoIndex.toNat, (List.getElem?_eq_some_iff.mp created.1).1,
          TransactionWithId.txoRef_txoIndex hash⟩
      · right
        have kept : (unspentAfter past ref).isSome := by
          rw [before]
          rfl
        exact kept

def OfScript (set : UtxoSet) (script : ScriptPubKey) (refs : Finset TxoRef) : Prop :=
  ∀ ref, ref ∈ refs ↔ ∃ utxo, set ref = some utxo ∧ utxo.script = script

theorem exists_ofScript (past : List IndexedTx) (script : ScriptPubKey) :
    ∃ refs, OfScript (unspentAfter past) script refs := by
  have finite : {ref | ∃ utxo, unspentAfter past ref = some utxo ∧ utxo.script = script}.Finite := by
    apply (unspentAfter_finite past).subset
    rintro ref ⟨utxo, found, _⟩
    have live : (unspentAfter past ref).isSome := by
      rw [found]
      rfl
    exact live
  exact ⟨finite.toFinset, fun ref => by rw [finite.mem_toFinset]; rfl⟩

theorem exists_pairs {α β : Type} {related : α → β → Prop} {keys : List α}
    (each : ∀ key ∈ keys, ∃ value, related key value) :
    ∃ pairs : List (α × β), pairs.map Prod.fst = keys ∧
      ∀ pair ∈ pairs, related pair.1 pair.2 := by
  induction keys with
  | nil => exact ⟨[], rfl, by simp⟩
  | cons key keys ih =>
      rw [List.forall_mem_cons] at each
      rcases each.1 with ⟨value, here⟩
      rcases ih each.2 with ⟨pairs, same, rest⟩
      refine ⟨(key, value) :: pairs, by rw [List.map_cons, same], ?_⟩
      rw [List.forall_mem_cons]
      exact ⟨here, rest⟩

/-- What the routes of a script scan: its unspent outputs with runes, in the order of their heights. -/
structure ScriptView (reader : Reader) (set : UtxoSet) (script : ScriptPubKey)
    (outputs : List (RuneUtxosByScriptKey × Utxo)) : Prop where
  balances : Serve.balancesScan reader script = entriesOf outputs
  utxos : Serve.utxosScan reader script = entriesOf outputs
  scanned : ∀ output ∈ outputs, Scanned reader set output.1 output.2
  ascending : outputs.Pairwise (fun first second => first.1.producedHeight ≤ second.1.producedHeight)
  total : ∀ refs, OfScript set script refs → ∀ id,
    amountIn (runesOfAll outputs) id = ∑ ref ∈ refs, heldBy set id ref

section Views

variable {indexer : RunesIndexer} {history : History} {machine : Machine} {reader : Reader}
variable {past : List IndexedTx} {runes : RuneState} {script : ScriptPubKey}
variable {view : RawKey → Cell}

theorem Reader.Sees.get_latest {Key Value : Type} [Codec Key] [Codec Value] {handler : StorageHandler}
    (sees : reader.Sees handler.db.view) (table : Table Key Value) (key : Key) :
    reader.get table key = (handler.reader Timestamp.latest).get table key := by
  rw [sees.get, handler.sees_latest.get]

theorem amountIn_runesOfAll {set : UtxoSet} {outputs : List (RuneUtxosByScriptKey × Utxo)}
    (unspent : ∀ output ∈ outputs, set output.1.txoRef = some output.2) (id : RuneId) :
    amountIn (runesOfAll outputs) id =
      ((outputs.map Prod.fst).map (fun key => heldBy set id key.txoRef)).sum := by
  induction outputs with
  | nil => rfl
  | cons output outputs ih =>
      rw [List.forall_mem_cons] at unspent
      have held : heldBy set id output.1.txoRef = amountIn output.2.runes id := by
        rw [heldBy, unspent.1]
        rfl
      rw [runesOfAll, List.flatMap_cons, amountIn_append, List.map_cons, List.map_cons, List.sum_cons,
        held]
      exact congrArg _ (ih unspent.2)

theorem heldBy_plain {set : UtxoSet} {ref : TxoRef} {utxo : Utxo} (found : set ref = some utxo)
    (none : utxo.extended.get? .runes = none) (id : RuneId) : heldBy set id ref = 0 := by
  rw [heldBy, found, Option.map_some, Option.getD_some, Utxo.runes, runesOf, none]
  rfl

/-- The keys of a script name each of its outputs with runes once, and the outputs they leave out
hold nothing. -/
theorem sum_ofScript {set : UtxoSet} {keys : List RuneUtxosByScriptKey} {refs : Finset TxoRef}
    (distinct : keys.Nodup) (mem : ∀ key, key ∈ keys ↔ key.owner = script ∧ HoldsRunes set key)
    (exact : OfScript set script refs) (id : RuneId) :
    (keys.map (fun key => heldBy set id key.txoRef)).sum = ∑ ref ∈ refs, heldBy set id ref := by
  have refsDistinct : (keys.map OwnedUtxoKey.txoRef).Nodup := by
    apply distinct.map_on
    intro first left second right equal
    rcases ((mem first).mp left).2 with ⟨utxo, found, owner, height, _⟩
    rcases ((mem second).mp right).2 with ⟨utxo', found', owner', height', _⟩
    rw [← equal, found, Option.some.injEq] at found'
    subst found'
    cases first
    cases second
    simp only at equal owner owner' height height'
    rw [← owner, ← owner', ← height, ← height', equal]
  have listed : (keys.map OwnedUtxoKey.txoRef).toFinset ⊆ refs := by
    intro ref member
    rw [List.mem_toFinset, List.mem_map] at member
    rcases member with ⟨key, inside, rfl⟩
    rcases (mem key).mp inside with ⟨own, utxo, found, owner, _⟩
    exact (exact key.txoRef).mpr ⟨utxo, found, owner.trans own⟩
  rw [← Finset.sum_subset listed, List.sum_toFinset _ refsDistinct, List.map_map]
  · rfl
  · intro ref inside outside
    rcases (exact ref).mp inside with ⟨utxo, found, own⟩
    cases attached : utxo.extended.get? .runes with
    | none => exact heldBy_plain found attached id
    | some raw =>
        exfalso
        apply outside
        rw [List.mem_toFinset, List.mem_map]
        refine ⟨⟨script, utxo.height, ref⟩, (mem _).mpr ⟨rfl, utxo, found, own, rfl, ?_⟩, rfl⟩
        rw [attached]
        rfl

/-- The scans of a script, given the tables that the reader sees. -/
theorem RunesIndexed.scriptView (indexed : RunesIndexed past runes) (run : RuneRun indexer past runes)
    (shown : runes.Shown view) (keyed : RunesKeyed past view) (sees : reader.Sees view)
    (stored : ∀ ref, reader.get UtxoByTxoRefKV ref = .ok (unspentAfter past ref))
    (low : ∀ step ∈ past, step.point.height < u64Max) (plain : isOpReturn script = false)
    (short : script.length < 2 ^ 64) :
    ∃ outputs, ScriptView reader (unspentAfter past) script outputs := by
  rcases keyed.ownerScan shown sees short with ⟨keys, scan, distinct, ascending, mem⟩
  have held (key : RuneUtxosByScriptKey) :
      key ∈ keys ↔ key.owner = script ∧ HoldsRunes (unspentAfter past) key := by
    rw [mem, indexed.filed]
    constructor
    · rintro ⟨filed, own, _⟩
      rw [holds_runes_iff run.distinct (by rw [own]; exact plain)] at filed
      exact ⟨own, filed⟩
    · rintro ⟨own, holds⟩
      refine ⟨?_, own, ?_⟩
      · rw [holds_runes_iff run.distinct (by rw [own]; exact plain)]
        exact holds
      · rcases holds with ⟨utxo, found, _, height, _⟩
        rcases unspentAfter_creator found with ⟨step, member, output, _, rfl⟩
        rw [← height]
        exact low step member
  have each : ∀ key ∈ keys, ∃ utxo, Scanned reader (unspentAfter past) key utxo := by
    intro key member
    rcases ((held key).mp member).2 with ⟨utxo, found, _, height, attached⟩
    obtain ⟨raw, attached⟩ := Option.isSome_iff_exists.mp attached
    rcases indexed.sound _ utxo found raw attached with ⟨listed, decoded, formed⟩
    have own := runes_of_raw attached decoded
    refine ⟨utxo, ?_, found, height, by rw [own]; exact formed⟩
    have expected : Serve.getExpectedAt reader UtxoByTxoRefKV Serve.debugTxoRef key.txoRef =
        .ok utxo := by
      rw [Serve.getExpectedAt, stored, found]
    simp only [Serve.runeOutput, expected, attached, decoded, own]
  rcases exists_pairs each with ⟨outputs, same, scanned⟩
  have entries : keys.map (fun key => (.ok (key, ()) : Serve.RuneEntry)) = entriesOf outputs := by
    rw [← same, List.map_map]
    rfl
  have saturated : heightAfter u64Max 1 = u64Max := by decide
  refine ⟨outputs, by rw [scan, entries], ?_, scanned, ?_, ?_⟩
  · rw [Serve.utxosScan, saturated, ← entries, ← scan]
    rfl
  · rw [← same, List.pairwise_map] at ascending
    exact ascending
  · intro refs exact id
    rw [amountIn_runesOfAll (fun output member => (scanned output member).unspent), same]
    exact sum_ofScript distinct held exact id

theorem amountIn_pos {runes : UtxoRunes} {rune : RuneId × U128} (member : rune ∈ runes)
    (positive : 0 < rune.2.toNat) : 0 < amountIn runes rune.1 := by
  have single : (if rune.1 = rune.1 then rune.2.toNat else 0) ≤ amountIn runes rune.1 :=
    List.single_le_sum (by simp) _
      (List.mem_map_of_mem (f := fun other : RuneId × U128 =>
        if other.1 = rune.1 then other.2.toNat else 0) member)
  rw [if_pos rfl] at single
  omega

namespace ScriptView

variable {set : UtxoSet} {outputs : List (RuneUtxosByScriptKey × Utxo)} {id : RuneId}

/-- What the outputs of a script hold is within the supply. -/
theorem le_supply (scripts : ScriptView reader (unspentAfter past) script outputs)
    (supplied : Supplied past runes) (id : RuneId) :
    amountIn (runesOfAll outputs) id ≤ runes.supply id := by
  rcases exists_ofScript past script with ⟨refs, exact⟩
  rw [scripts.total refs exact]
  exact supplied.within id refs

theorem lt (scripts : ScriptView reader (unspentAfter past) script outputs)
    (supplied : Supplied past runes) (id : RuneId) :
    amountIn (runesOfAll outputs) id < 2 ^ 128 := by
  have held := scripts.le_supply supplied id
  have bound := supplied.issued.supply_lt id
  omega

theorem known (scripts : ScriptView reader (unspentAfter past) script outputs)
    (supplied : Supplied past runes) (member : id ∈ (runesOfAll outputs).map Prod.fst) :
    ∃ info, runes.infos id = some info := by
  rcases List.mem_map.mp member with ⟨rune, inside, rfl⟩
  rcases List.mem_flatMap.mp inside with ⟨output, listed, held⟩
  have positive := amountIn_pos inside ((scripts.scanned output listed).formed.positive rune held)
  have bound := scripts.le_supply supplied rune.1
  cases entry : runes.infos rune.1 with
  | some info => exact ⟨info, rfl⟩
  | none =>
      rw [RuneState.supply, entry] at bound
      simp only at bound
      omega

theorem sum_filter (outputs : List (RuneUtxosByScriptKey × Utxo)) (id : RuneId) :
    ((outputs.filter (fun output => (output.2.runes.map Prod.fst).contains id)).map
      (fun output => amountIn output.2.runes id)).sum = amountIn (runesOfAll outputs) id := by
  induction outputs with
  | nil => rfl
  | cons output outputs ih =>
      rw [runesOfAll, List.flatMap_cons, amountIn_append, List.filter_cons]
      by_cases inside : id ∈ output.2.runes.map Prod.fst
      · rw [if_pos (by simpa using inside), List.map_cons, List.sum_cons, ih, runesOfAll]
      · rw [if_neg (by simpa using inside), amountIn_of_not_mem inside, ih, runesOfAll, Nat.zero_add]

theorem sum_all (outputs : List (RuneUtxosByScriptKey × Utxo)) (id : RuneId) :
    (outputs.map (fun output => amountIn output.2.runes id)).sum =
      amountIn (runesOfAll outputs) id := by
  induction outputs with
  | nil => rfl
  | cons output outputs ih =>
      rw [runesOfAll, List.flatMap_cons, amountIn_append, List.map_cons, List.sum_cons, ih, runesOfAll]

end ScriptView

structure RuneView (reader : Reader) (past : List IndexedTx) (runes : RuneState) : Prop where
  infos : ∀ id, reader.get RuneInfoByIdKV id = .ok (runes.infos id)
  stored : ∀ ref, reader.get UtxoByTxoRefKV ref = .ok (unspentAfter past ref)
  filed : ∀ key : RuneUtxosByScriptKey, key.owner.length < 2 ^ 64 →
    (reader.get RuneUtxosByScriptKV key = .ok (some ()) ↔ runes.filed key)
  distinct : (past.map IndexedTx.txId).Nodup
  indexed : RunesIndexed past runes
  supplied : Supplied past runes
  scripts : ∀ script, isOpReturn script = false → script.length < 2 ^ 64 →
    ∃ outputs, ScriptView reader (unspentAfter past) script outputs

theorem Records.runeView (records : Records (RunesGood indexer) history machine)
    (keyed : Records RunesKeyed history machine) (fits : history.blocks.length + 1 < 2 ^ 64)
    (guaranteed : indexer.ordinals.Guaranteed)
    (sees : reader.Sees machine.stage.db.db.view) :
    ∃ runes, RuneView reader (chainTxs history.blocks) runes := by
  rcases records.runeRun (by omega) with ⟨runes, shown, run⟩
  have indexed := run.indexed guaranteed
  have stored (ref : TxoRef) :
      reader.get UtxoByTxoRefKV ref = .ok (unspentAfter (chainTxs history.blocks) ref) := by
    rw [sees.get_latest, records.stores.read, unspentAfter_chainTxs]
  have low : ∀ step ∈ chainTxs history.blocks, step.point.height < u64Max := by
    intro step member
    have height := (records.numbered.inOrder (by omega)).2 step member
    rw [BitVec.lt_def, u64Max, BitVec.toNat_allOnes]
    omega
  refine ⟨runes, ?_, stored, ?_, run.distinct, indexed, run.supplied guaranteed, ?_⟩
  · intro id
    rw [sees.get_latest]
    exact shown.read_info id
  · intro key short
    rw [sees.get_latest]
    have read := @Lists.read utxoTable _ key machine.stage.db shown.filed short
    exact read
  · intro script plain short
    exact indexed.scriptView run shown keyed.good sees stored low plain short

section Served

open Serve

variable {outputs : List (RuneUtxosByScriptKey × Utxo)}

/-- The balances that the routes add up. -/
theorem RuneView.balances_ok (seen : RuneView reader past runes)
    (scripts : ScriptView reader (unspentAfter past) script outputs) (includeInfo : Bool) :
    ∃ balances,
      (∀ build, addressesAllRuneBalances build reader script includeInfo = .ok balances) ∧
      balances.Pairwise (fun first second => first.id ≠ second.id ∧ first.id.precedes second.id) ∧
      ∀ id, balanceFor balances id = amountIn (runesOfAll outputs) id := by
  apply allRuneBalances_ok scripts.balances scripts.scanned (scripts.lt seen.supplied)
  intro id member
  rcases scripts.known seen.supplied member with ⟨info, entry⟩
  exact ⟨info, by rw [seen.infos, entry]⟩

theorem RuneView.balance_ok (seen : RuneView reader past runes)
    (scripts : ScriptView reader (unspentAfter past) script outputs)
    {rune : RuneIdentifier} {id : RuneId} (specified : rune.specified reader = .ok id) :
    ∃ balance, (∀ build, addressesSpecificRuneBalance build reader script rune = .ok balance) ∧
      balance.toNat = amountIn (runesOfAll outputs) id := by
  have zero : (0 : U128).toNat = 0 := rfl
  have room : (0 : U128).toNat + amountIn (runesOfAll outputs) id < 2 ^ 128 := by
    rw [zero, Nat.zero_add]
    exact scripts.lt seen.supplied id
  rcases @sumBalance_eq reader _ id outputs 0 scripts.scanned room with
    ⟨balance, summed, value⟩
  refine ⟨balance, ?_, by rw [value, zero, Nat.zero_add]⟩
  intro build
  rw [addressesSpecificRuneBalance, specified, scripts.balances]
  exact summed build

theorem ScriptView.allUtxos_ok {set : UtxoSet} (scripts : ScriptView reader set script outputs) :
    addressesAllRuneUtxos reader script = .ok (outputs.map runeUtxo) := by
  rw [addressesAllRuneUtxos, scripts.utxos, collectUtxos_eq _ scripts.scanned]
  simp

theorem ScriptView.utxos_ok {set : UtxoSet} (scripts : ScriptView reader set script outputs)
    {rune : RuneIdentifier} {id : RuneId} (specified : rune.specified reader = .ok id) :
    addressesSpecificRuneUtxos reader script rune = .ok ((outputs.filter
      (fun output => (output.2.runes.map Prod.fst).contains id)).map runeUtxo) := by
  rw [addressesSpecificRuneUtxos, specified, scripts.utxos]
  exact collectUtxos_eq _ scripts.scanned

end Served

end Views

/-- After every run of valid blocks, snapshots and rollbacks the table of outputs with runes is that
of the unspent outputs with runes attached, apart from OP_RETURN scripts; what is attached decodes to
distinct runes with some amount, and so the routes of every other script succeed. -/
theorem rune_utxos_indexed (blockHash : Header → BlockHash) (config : Config)
    (indexer : RunesIndexer) (others : Others .runes) (stage : Stage)
    (events : List (Env × ChainEvent)) (guaranteed : indexer.ordinals.Guaranteed)
    (fresh : Stage.new config (StorageHandler.openDb DB.empty) = .ok stage)
    (fed : ∀ event ∈ events, event.2.Valid (HashedBy blockHash))
    (increasing : Increasing ((Machine.bootstrap (others.with indexer.processTx) stage).run
      events).stage.db.db.log)
    (valid : (Machine.bootstrap (others.with indexer.processTx) stage).uncached.ValidFrom ⟨[], []⟩
      events)
    (fits : ((Machine.bootstrap (others.with indexer.processTx) stage).uncached.history
      events).blocks.length + 1 < 2 ^ 64)
    (reader : Reader) (sees : reader.Sees ((Machine.bootstrap (others.with indexer.processTx)
      stage).run events).stage.db.db.view) :
    (∀ script height ref, isOpReturn script = false → script.length < 2 ^ 64 →
      (reader.get RuneUtxosByScriptKV ⟨script, height, ref⟩ = .ok (some ()) ↔
        ∃ utxo, reader.get UtxoByTxoRefKV ref = .ok (some utxo) ∧ utxo.script = script ∧
          utxo.height = height ∧ (utxo.extended.get? .runes).isSome)) ∧
    (∀ ref utxo raw, reader.get UtxoByTxoRefKV ref = .ok (some utxo) →
      utxo.extended.get? .runes = some raw →
        ∃ listed : UtxoRunes, decodeAll raw = .ok listed ∧ WellFormed listed) ∧
    ∀ build script, isOpReturn script = false → script.length < 2 ^ 64 →
      (∀ includeInfo, ∃ balances,
        Serve.addressesAllRuneBalances build reader script includeInfo = .ok balances) ∧
      (∃ utxos, Serve.addressesAllRuneUtxos reader script = .ok utxos) ∧
      ∀ id, (∃ balance,
          Serve.addressesSpecificRuneBalance build reader script (.id id) = .ok balance) ∧
        ∃ utxos, Serve.addressesSpecificRuneUtxos reader script (.id id) = .ok utxos := by
  rw [Stage.new_empty, Except.ok.injEq] at fresh
  subst fresh
  have records := (runes_rule indexer).run others (HashedBy blockHash) config events fed valid
    increasing
  have keyed := (runesKeyed_rule indexer).run others (HashedBy blockHash) config events fed valid
    increasing
  rcases records.runeView keyed fits guaranteed sees with ⟨runes, seen⟩
  refine ⟨?_, ?_, ?_⟩
  · intro script height ref plain short
    rw [seen.filed _ short, seen.indexed.filed, holds_runes_iff seen.distinct plain, seen.stored]
    simp only [HoldsRunes, Except.ok.injEq]
  · intro ref utxo raw found attached
    rw [seen.stored, Except.ok.injEq] at found
    exact seen.indexed.sound ref utxo found raw attached
  · intro build script plain short
    rcases seen.scripts script plain short with ⟨outputs, scripts⟩
    refine ⟨?_, ⟨_, scripts.allUtxos_ok⟩, ?_⟩
    · intro includeInfo
      rcases seen.balances_ok scripts includeInfo with ⟨balances, done, _⟩
      exact ⟨balances, done build⟩
    · intro id
      rcases seen.balance_ok scripts (show (Serve.RuneIdentifier.id id).specified reader =
        .ok id from rfl) with ⟨balance, done, _⟩
      exact ⟨⟨balance, done build⟩, _, scripts.utxos_ok rfl⟩

/-- The output of the second pseudo block is listed with its runes. -/
theorem rune_utxos_spend :
    let reader := (runesMachine.run spendEvents).stage.db.reader Timestamp.latest
    reader.get RuneUtxosByScriptKV ⟨[82], 3, ⟨txIdOf 3, 0⟩⟩ = .ok (some ()) ∧
    ∃ utxo, reader.get UtxoByTxoRefKV ⟨txIdOf 3, 0⟩ = .ok (some utxo) ∧ utxo.script = [82] ∧
      utxo.height = 3 ∧ (utxo.extended.get? .runes).isSome := by
  rcases rune_utxos_indexed mainnetHash (mainnetConfig 2) spendRunes (.alone .runes) _ spendEvents
    spendOrdinals_guaranteed (Stage.new_empty _) spendEvents_fed runesMachine_run.1
    runesMachine_run.2.1 runesMachine_run.2.2 _ (StorageHandler.sees_latest _) with ⟨iff, _⟩
  have listed := iff [82] 3 ⟨txIdOf 3, 0⟩ (by decide) (by decide)
  unfold runesMachine
  have present : (((Machine.bootstrap ((Others.alone .runes).with spendRunes.processTx)
      (Stage.empty (mainnetConfig 2))).run spendEvents).stage.db.reader Timestamp.latest).get
        RuneUtxosByScriptKV ⟨[82], 3, ⟨txIdOf 3, 0⟩⟩ = .ok (some ()) := by decide +kernel
  exact ⟨present, listed.mp present⟩

/-- After every run of valid blocks, snapshots and rollbacks the rune routes of a script agree: they
show what its unspent outputs hold of each rune. -/
theorem rune_balances_agree (blockHash : Header → BlockHash) (config : Config)
    (indexer : RunesIndexer) (others : Others .runes) (stage : Stage)
    (events : List (Env × ChainEvent)) (guaranteed : indexer.ordinals.Guaranteed)
    (fresh : Stage.new config (StorageHandler.openDb DB.empty) = .ok stage)
    (fed : ∀ event ∈ events, event.2.Valid (HashedBy blockHash))
    (increasing : Increasing ((Machine.bootstrap (others.with indexer.processTx) stage).run
      events).stage.db.db.log)
    (valid : (Machine.bootstrap (others.with indexer.processTx) stage).uncached.ValidFrom ⟨[], []⟩
      events)
    (fits : ((Machine.bootstrap (others.with indexer.processTx) stage).uncached.history
      events).blocks.length + 1 < 2 ^ 64)
    (reader : Reader) (sees : reader.Sees ((Machine.bootstrap (others.with indexer.processTx)
      stage).run events).stage.db.db.view)
    (build : Build) (script : ScriptPubKey) (plain : isOpReturn script = false)
    (short : script.length < 2 ^ 64) (includeInfo : Bool) :
    ∃ set refs balances utxos, (∀ ref, reader.get UtxoByTxoRefKV ref = .ok (set ref)) ∧
      OfScript set script refs ∧
      Serve.addressesAllRuneBalances build reader script includeInfo = .ok balances ∧
      balances.Pairwise (fun first second => first.id ≠ second.id ∧ first.id.precedes second.id) ∧
      Serve.addressesAllRuneUtxos reader script = .ok utxos ∧
      utxos.Pairwise (fun first second => first.height ≤ second.height) ∧
      ∀ rune id, Serve.RuneIdentifier.specified reader rune = .ok id → ∃ balance chosen,
        Serve.addressesSpecificRuneBalance build reader script rune = .ok balance ∧
        Serve.addressesSpecificRuneUtxos reader script rune = .ok chosen ∧
        chosen = utxos.filter (fun utxo => (utxo.runes.map Prod.fst).contains id) ∧
        balanceFor balances id = ∑ ref ∈ refs, heldBy set id ref ∧
        balance.toNat = ∑ ref ∈ refs, heldBy set id ref ∧
        (utxos.map (fun utxo => amountIn utxo.runes id)).sum = ∑ ref ∈ refs, heldBy set id ref ∧
        (chosen.map (fun utxo => amountIn utxo.runes id)).sum =
          ∑ ref ∈ refs, heldBy set id ref := by
  rw [Stage.new_empty, Except.ok.injEq] at fresh
  subst fresh
  have records := (runes_rule indexer).run others (HashedBy blockHash) config events fed valid
    increasing
  have keyed := (runesKeyed_rule indexer).run others (HashedBy blockHash) config events fed valid
    increasing
  rcases records.runeView keyed fits guaranteed sees with ⟨runes, seen⟩
  rcases seen.scripts script plain short with ⟨outputs, scripts⟩
  rcases exists_ofScript (chainTxs _) script with ⟨refs, exact⟩
  rcases seen.balances_ok scripts includeInfo with ⟨balances, done, order, amounts⟩
  refine ⟨_, refs, balances, outputs.map runeUtxo, seen.stored, exact, done build, order,
    scripts.allUtxos_ok, ?_, ?_⟩
  · rw [List.pairwise_map]
    exact scripts.ascending
  · intro rune id specified
    have total := scripts.total refs exact id
    rcases seen.balance_ok scripts specified with ⟨balance, summed, value⟩
    refine ⟨balance, _, summed build, scripts.utxos_ok specified, ?_, ?_, ?_, ?_, ?_⟩
    · rw [List.filter_map]
      rfl
    · rw [amounts, total]
    · rw [value, total]
    · rw [List.map_map, ← total, ← ScriptView.sum_all]
      rfl
    · rw [List.map_map, ← total, ← ScriptView.sum_filter]
      rfl

/-- The one output of the script holds what was premined and minted. -/
theorem rune_balances_spend :
    let reader := (runesMachine.run spendEvents).stage.db.reader Timestamp.latest
    ∃ set refs, (∀ ref, reader.get UtxoByTxoRefKV ref = .ok (set ref)) ∧ OfScript set [82] refs ∧
      Serve.addressesSpecificRuneBalance ⟨true⟩ reader [82] (.id ⟨1, 0⟩) = .ok 12 ∧
      (12 : U128).toNat = ∑ ref ∈ refs, heldBy set ⟨1, 0⟩ ref := by
  rcases rune_balances_agree mainnetHash (mainnetConfig 2) spendRunes (.alone .runes) _ spendEvents
    spendOrdinals_guaranteed (Stage.new_empty _) spendEvents_fed runesMachine_run.1
    runesMachine_run.2.1 runesMachine_run.2.2 _ (StorageHandler.sees_latest _) ⟨true⟩ [82] (by decide)
    (by decide) true with ⟨set, refs, _, _, stored, exact, _, _, _, _, agree⟩
  rcases agree (.id ⟨1, 0⟩) ⟨1, 0⟩ rfl with ⟨balance, _, summed, _, _, _, value, _⟩
  have twelve : Serve.addressesSpecificRuneBalance ⟨true⟩
      (((Machine.bootstrap ((Others.alone .runes).with spendRunes.processTx)
        (Stage.empty (mainnetConfig 2))).run spendEvents).stage.db.reader Timestamp.latest) [82]
          (.id ⟨1, 0⟩) = .ok 12 := by decide +kernel
  rw [twelve, Except.ok.injEq] at summed
  unfold runesMachine
  exact ⟨set, refs, stored, exact, twelve, by rw [summed]; exact value⟩

end Symphony
