import Symphony.Lib.Holdings
import Symphony.Proof.RuneRun
import Symphony.Spec.OutputIndex

/-! The supply of a rune bounds what the unspent outputs hold of it. -/

namespace Symphony

open Encdec
open Holdings (Within)
open RunesIndexer

/-- What the deciphering of transactions guarantees. -/
structure Ordinals.Guaranteed (ordinals : Ordinals) : Prop where
  flow : ∀ tx artifact, ordinals.decipher tx = some artifact → artifact.Guaranteed tx.output
  supply : ∀ tx stone etching, ordinals.decipher tx = some (.runestone stone) →
    stone.etching = some etching → (etching.premine.getD 0).toNat +
      ((etching.terms.bind Terms.cap).getD 0).toNat *
        ((etching.terms.bind Terms.amount).getD 0).toNat < 2 ^ 128

namespace RuneInfo

def mintAmount (info : RuneInfo) : U128 := (info.terms.bind RuneTerms.amount).getD 0

def mintCap (info : RuneInfo) : U128 := (info.terms.bind RuneTerms.cap).getD 0

end RuneInfo

namespace RuneState

def mintsOf (runes : RuneState) (id : RuneId) : U128 := (runes.mints id).getD 0

def supply (runes : RuneState) (id : RuneId) : Nat :=
  match runes.infos id with
  | none => 0
  | some info => info.premine.toNat + (runes.mintsOf id).toNat * info.mintAmount.toNat

structure Issued (runes : RuneState) : Prop where
  unknown : ∀ id, runes.infos id = none → runes.mints id = none
  capped : ∀ id info, runes.infos id = some info → (runes.mintsOf id).toNat ≤ info.mintCap.toNat
  bounded : ∀ id info, runes.infos id = some info →
    info.premine.toNat + info.mintCap.toNat * info.mintAmount.toNat < 2 ^ 128

variable {runes : RuneState} {id : RuneId} {height : BlockHeight} {artifact : Option Artifact}

theorem issued_empty : empty.Issued :=
  ⟨fun _ _ => rfl, fun _ _ impossible => (Option.some_ne_none _ impossible.symm).elim,
    fun _ _ impossible => (Option.some_ne_none _ impossible.symm).elim⟩

theorem Issued.supply_lt (issued : runes.Issued) (id : RuneId) : runes.supply id < 2 ^ 128 := by
  rw [supply]
  cases known : runes.infos id with
  | none => exact Nat.two_pow_pos 128
  | some info =>
      have minted := Nat.mul_le_mul_right info.mintAmount.toNat (issued.capped id info known)
      have bound := issued.bounded id info known
      simp only
      omega

theorem mint_some {amount : U128} (minted : runes.mint id height = some amount) :
    ∃ info, runes.infos id = some info ∧ amount = info.mintAmount ∧
      (runes.mintsOf id).toNat < info.mintCap.toNat := by
  rw [mint] at minted
  cases known : runes.infos id with
  | none =>
      rw [known] at minted
      cases minted
  | some info =>
      rw [known, Option.bind_some] at minted
      cases terms : info.terms with
      | none =>
          rw [terms] at minted
          cases minted
      | some terms' =>
          rw [terms] at minted
          simp only at minted
          split at minted
          · cases minted
          · split at minted
            · cases minted
            · split at minted
              · cases minted
              · rename_i room
                refine ⟨info, rfl, ?_, ?_⟩
                · rw [RuneInfo.mintAmount, terms, Option.bind_some]
                  exact (Option.some.inj minted).symm
                · rw [BitVec.not_le, BitVec.lt_def] at room
                  rw [RuneInfo.mintCap, terms, Option.bind_some]
                  exact room

theorem mintsOf_minted (other : RuneId) :
    ((runes.minted id height).mintsOf other).toNat = (runes.mintsOf other).toNat +
      if other = id ∧ (runes.mint id height).isSome then 1 else 0 := by
  rw [minted]
  cases minted : runes.mint id height with
  | none => simp
  | some amount =>
      rcases mint_some minted with ⟨info, known, _, room⟩
      have one : (1 : U128).toNat = 1 := rfl
      have bound := info.mintCap.isLt
      simp only [mintsOf] at room ⊢
      by_cases same : other = id
      · subst same
        rw [Function.update_self, Option.getD_some, if_pos ⟨rfl, rfl⟩, BitVec.toNat_add, one,
          Nat.mod_eq_of_lt (by omega)]
      · rw [Function.update_of_ne same, if_neg (fun both => same both.1), Nat.add_zero]

theorem infos_minted : (runes.minted id height).infos = runes.infos := by
  rw [minted]
  split
  · rfl
  · rfl

theorem Issued.minted (issued : runes.Issued) : (runes.minted id height).Issued := by
  constructor
  · intro other none
    rw [infos_minted] at none
    rw [RuneState.minted]
    cases minted : runes.mint id height with
    | none => exact issued.unknown other none
    | some amount =>
        rcases mint_some minted with ⟨info, known, _⟩
        have different : other ≠ id := by
          rintro rfl
          rw [none] at known
          cases known
        exact (Function.update_of_ne different _ _).trans (issued.unknown other none)
  · intro other info known
    rw [infos_minted] at known
    rw [mintsOf_minted]
    by_cases grows : other = id ∧ (runes.mint id height).isSome
    · rcases grows with ⟨rfl, success⟩
      obtain ⟨amount, minted⟩ := Option.isSome_iff_exists.mp success
      rcases mint_some minted with ⟨info', known', _, room⟩
      rw [known, Option.some.injEq] at known'
      rw [if_pos ⟨rfl, success⟩, known']
      exact room
    · rw [if_neg grows]
      exact issued.capped other info known
  · intro other info known
    rw [infos_minted] at known
    exact issued.bounded other info known

theorem supply_mintedBy (other : RuneId) :
    (runes.mintedBy height artifact).supply other =
      runes.supply other + amountIn (mintOf runes height artifact).toList other := by
  rw [mintedBy, mintOf]
  cases artifact.bind Artifact.mint with
  | none => rfl
  | some id =>
      simp only [Option.bind_some, supply, infos_minted, mintsOf_minted]
      cases minted : runes.mint id height with
      | none => simp
      | some amount =>
          rcases mint_some minted with ⟨info, known, rfl, _⟩
          simp only [Option.map_some, Option.toList_some, amountIn_cons, amountIn_nil,
            Option.isSome_some, and_true, Nat.add_zero]
          by_cases same : other = id
          · subst same
            simp only [known, if_true, Nat.add_mul, Nat.one_mul, Nat.add_assoc]
          · rw [if_neg same, if_neg (fun equal => same equal.symm)]
            rfl

theorem Issued.mintedBy (issued : runes.Issued) : (runes.mintedBy height artifact).Issued := by
  rw [RuneState.mintedBy]
  split
  · exact issued
  · exact issued.minted

theorem Issued.supply_etched (issued : runes.Issued) (unknown : runes.infos id = none)
    (name : Rune) (info : RuneInfo) (other : RuneId) :
    (runes.etched id name info).supply other =
      runes.supply other + if other = id then info.premine.toNat else 0 := by
  simp only [etched, supply, mintsOf]
  by_cases same : other = id
  · subst same
    rw [Function.update_self, issued.unknown other unknown, unknown, if_pos rfl]
    simp
  · rw [Function.update_of_ne same, if_neg same, Nat.add_zero]

theorem Issued.etched (issued : runes.Issued) (unknown : runes.infos id = none) {name : Rune}
    {info : RuneInfo} (bounded : info.premine.toNat + info.mintCap.toNat * info.mintAmount.toNat <
      2 ^ 128) : (runes.etched id name info).Issued := by
  constructor
  · intro other none
    by_cases same : other = id
    · subst same
      exact issued.unknown other unknown
    · have old : (Function.update runes.infos id (some info)) other = .none := none
      rw [Function.update_of_ne same] at old
      exact issued.unknown other old
  · intro other info' known
    by_cases same : other = id
    · subst same
      have mints : (runes.etched other name info).mintsOf other = 0 := by
        rw [mintsOf, RuneState.etched, issued.unknown other unknown, Option.getD_none]
      rw [mints]
      exact Nat.zero_le _
    · have old : (Function.update runes.infos id (some info)) other = some info' := known
      rw [Function.update_of_ne same] at old
      exact issued.capped other info' old
  · intro other info' known
    have entry : (Function.update runes.infos id (some info)) other = some info' := known
    by_cases same : other = id
    · rw [same, Function.update_self, Option.some.injEq] at entry
      rw [← entry]
      exact bounded
    · rw [Function.update_of_ne same] at entry
      exact issued.bounded other info' entry

end RuneState

section Flow

variable {indexer : RunesIndexer} {set : UtxoSet} {height : BlockHeight} {blockIndex : Nat}
variable {tx : TransactionWithId} {before : RuneState} {id : RuneId}

theorem amountIn_premineOf {artifact : Artifact} {txId : Txid} {name : Rune} {info : RuneInfo}
    (entered : runeInfo artifact txId name height = .ok info) (other : RuneId) :
    amountIn (premineOf (some artifact) (some id)) other = if other = id then info.premine.toNat else 0 := by
  cases artifact with
  | cenotaph stone =>
      cases entered
      simp [premineOf]
  | runestone stone =>
      simp only [runeInfo] at entered
      split at entered
      · cases entered
      · rename_i etching found
        cases entered
        simp only [premineOf, found, Option.bind_some, amountIn_cons, amountIn_nil, Nat.add_zero]
        by_cases same : other = id
        · rw [if_pos same, if_pos same.symm]
        · rw [if_neg same, if_neg (fun equal => same equal.symm)]

theorem runeInfo_bounded {ordinals : Ordinals} (guaranteed : ordinals.Guaranteed) {tx : Transaction}
    {artifact : Artifact} (deciphered : ordinals.decipher tx = some artifact) {txId : Txid}
    {name : Rune} {info : RuneInfo} (entered : runeInfo artifact txId name height = .ok info) :
    info.premine.toNat + info.mintCap.toNat * info.mintAmount.toNat < 2 ^ 128 := by
  cases artifact with
  | cenotaph stone =>
      cases entered
      exact Nat.two_pow_pos 128
  | runestone stone =>
      simp only [runeInfo] at entered
      split at entered
      · cases entered
      · rename_i etching found
        cases entered
        have bound := guaranteed.supply tx stone etching deciphered found
        rw [RuneInfo.mintCap, RuneInfo.mintAmount]
        cases terms : etching.terms with
        | none =>
            rw [terms] at bound
            exact bound
        | some terms' =>
            rw [terms] at bound
            exact bound

namespace RuneCall

variable (call : RuneCall indexer set height blockIndex tx before)

def total (id : RuneId) : Nat :=
  amountIn (heldRunes set tx.spends) id +
    amountIn (mintOf before height (indexer.ordinals.decipher tx.tx)).toList id +
      amountIn (premineOf (indexer.ordinals.decipher tx.tx) (call.etched.map Prod.fst)) id

theorem supply_after (issued : before.Issued)
    (unknown : ∀ rune, call.etched = some rune → before.infos rune.1 = none) (id : RuneId) :
    call.after.supply id + amountIn (heldRunes set tx.spends) id = before.supply id + call.total id := by
  have same : call.after.supply id =
      ((before.mintedBy height (indexer.ordinals.decipher tx.tx)).entered call.etched).supply id := rfl
  have minted := @RuneState.supply_mintedBy before height (indexer.ordinals.decipher tx.tx) id
  rw [same, total]
  cases etches : call.etched with
  | none =>
      have nothing : amountIn (premineOf (indexer.ordinals.decipher tx.tx)
          (Option.map Prod.fst (none : Option (RuneId × Rune × RuneInfo)))) id = 0 := by
        cases indexer.ordinals.decipher tx.tx with
        | none => rfl
        | some artifact =>
            cases artifact with
            | runestone stone => rfl
            | cenotaph stone => rfl
      rw [nothing, RuneState.entered, minted]
      omega
  | some rune =>
      rcases rune with ⟨fresh, name, info⟩
      rcases call.etches fresh name info etches with ⟨artifact, deciphered, rules, entered⟩
      rw [deciphered] at minted
      have new : (before.mintedBy height (some artifact)).infos fresh = none := by
        rw [RuneState.infos_mintedBy]
        exact unknown _ etches
      rw [deciphered, Option.map_some, amountIn_premineOf entered, RuneState.entered,
        issued.mintedBy.supply_etched new name info, minted]
      simp only
      omega

theorem issued_after (guaranteed : indexer.ordinals.Guaranteed) (issued : before.Issued)
    (unknown : ∀ rune, call.etched = some rune → before.infos rune.1 = none) : call.after.Issued := by
  have whole : ((before.mintedBy height (indexer.ordinals.decipher tx.tx)).entered
      call.etched).Issued := by
    cases etches : call.etched with
    | none => exact issued.mintedBy
    | some rune =>
        rcases rune with ⟨fresh, name, info⟩
        rcases call.etches fresh name info etches with ⟨artifact, deciphered, rules, entered⟩
        apply issued.mintedBy.etched
        · rw [RuneState.infos_mintedBy]
          exact unknown _ etches
        · exact runeInfo_bounded guaranteed deciphered entered
  exact ⟨whole.unknown, whole.capped, whole.bounded⟩

theorem flow (guaranteed : indexer.ordinals.Guaranteed) (bounded : ∀ id, call.total id < 2 ^ 128) :
    call.allocated.length = tx.tx.output.length ∧ Positive call.allocated ∧
      ∀ id, allocatedOf call.allocated id ≤ call.total id := by
  have room (id : RuneId) : RuneBalances.amount ∅ id + amountIn (heldRunes set tx.spends ++
      (mintOf before height (indexer.ordinals.decipher tx.tx)).toList) id < 2 ^ 128 := by
    have bound := bounded id
    rw [total] at bound
    rw [RuneBalances.amount_empty, amountIn_append]
    omega
  rcases RuneBalances.creditAll_ok room with ⟨balances, credited, amounts, _⟩
  obtain rfl : balances = call.balances :=
    Except.ok.inj ((credited indexer.build).symm.trans call.credited)
  have sum (id : RuneId) : RuneBalances.amount call.balances id + amountIn (premineOf
      (indexer.ordinals.decipher tx.tx) (call.etched.map Prod.fst)) id = call.total id := by
    rw [amounts, RuneBalances.amount_empty, Nat.zero_add, amountIn_append, total]
  have etches : ∀ stone ∈ indexer.ordinals.decipher tx.tx, (call.etched.map Prod.fst).isSome →
      stone.etching.isSome := by
    intro stone found some
    rw [Option.isSome_map] at some
    obtain ⟨⟨fresh, name, info⟩, etches⟩ := Option.isSome_iff_exists.mp some
    rcases call.etches fresh name info etches with ⟨artifact, deciphered, rules, _⟩
    rw [Option.mem_def, deciphered, Option.some.injEq] at found
    rw [← found]
    exact rules.asks
  have fits : ∀ stone ∈ indexer.ordinals.decipher tx.tx, stone.Guaranteed tx.tx.output :=
    fun stone found => guaranteed.flow tx.tx stone found
  rcases edictLedger_ok fits etches bounded sum with ⟨ledger, ran, balanced, _⟩
  obtain rfl : ledger = call.ledger := Except.ok.inj ((ran indexer.build).symm.trans call.ran)
  rcases assignRest_ok (call.order tx.tx.output.length) fits balanced bounded with
    ⟨allocated, assigned, length, positive, sums, _⟩
  obtain rfl : allocated = call.allocated :=
    Except.ok.inj ((assigned indexer.build).symm.trans call.assigned)
  refine ⟨length, positive, ?_⟩
  intro id
  have whole := balanced.sum id
  rw [sums]
  split
  · omega
  · omega

end RuneCall

end Flow

def heldBy (set : UtxoSet) (id : RuneId) (ref : TxoRef) : Nat :=
  amountIn (((set ref).map Utxo.runes).getD []) id

theorem amountIn_heldRunes (set : UtxoSet) (refs : List TxoRef) (id : RuneId) :
    amountIn (heldRunes set refs) id = (refs.map (heldBy set id)).sum := by
  induction refs with
  | nil => rfl
  | cons ref refs ih =>
      rw [List.map_cons, List.sum_cons, ← ih, heldRunes, List.flatMap_cons, amountIn_append]
      rfl

theorem fits_utxoRunes {runes : UtxoRunes} (short : (encode runes : List BigEndian.Byte).length < 2 ^ 63) :
    Fits runes := by
  have shorter (runes : UtxoRunes) :
      runes.length ≤ (runes.flatMap (encode : RuneId × U128 → List BigEndian.Byte)).length := by
    induction runes with
    | nil => exact Nat.zero_le _
    | cons rune runes ih =>
        have size : 1 ≤ (encode rune : List BigEndian.Byte).length := by
          have parts : (encode rune : List BigEndian.Byte) =
            encode rune.1 ++ VarUInt.encode rune.2.toNat := rfl
          rw [parts, VarUInt.encode, List.length_append, List.length_cons]
          omega
        rw [List.flatMap_cons, List.length_append, List.length_cons]
        omega
  have count := shorter runes
  have whole : (encode runes : List BigEndian.Byte) =
      encodeLen runes.length ++ runes.flatMap encode := rfl
  rw [whole, List.length_append] at short
  refine ⟨by omega, ?_⟩
  intro rune _
  exact ⟨fits_runeId rune.1, trivial⟩

theorem runesOf_attached {utxo : Utxo} {listed : Option UtxoRunes}
    (data : utxo.extended.get? .runes = listed.map encode)
    (fits : ∀ runes, listed = some runes → Fits runes) : runesOf utxo = .ok (listed.getD []) := by
  rw [runesOf, data]
  cases listed with
  | none => rfl
  | some runes =>
      have decoded := decodeAll_encode runes (fits runes rfl)
      simp only [Option.map_some, decoded]
      rfl

namespace RuneCall

variable {indexer : RunesIndexer} {set : UtxoSet} {height : BlockHeight} {blockIndex : Nat}
variable {tx : TransactionWithId} {before : RuneState}
variable (call : RuneCall indexer set height blockIndex tx before)

theorem attachedTo_item (small : tx.tx.output.length < 2 ^ 32)
    {item : (TxOut × RuneBalances) × Nat} (member : item ∈ call.items) :
    call.attachedTo (tx.txoRef item.2) = outputRunes call.order item := by
  have bounded := List.snd_lt_of_mem_zipIdx member
  rw [List.length_zip] at bounded
  have found : call.items[item.2]? = some item := by
    rw [RuneReceipts.items, List.mem_zipIdx_iff_getElem?] at member
    rw [RuneReceipts.items, List.getElem?_zipIdx, member, Nat.zero_add]
    rfl
  rw [attachedTo, TransactionWithId.txoIndex_txoRef (by omega), found, Option.bind_some]

theorem fits_attachedTo {ref : TxoRef} {listed : UtxoRunes}
    (attached : call.attachedTo ref = some listed) : Fits listed := by
  rw [attachedTo, Option.bind_eq_some_iff] at attached
  rcases attached with ⟨item, found, filed⟩
  exact fits_utxoRunes (call.short item (List.mem_of_getElem? found) listed filed).1

theorem amountIn_outputRunes (item : (TxOut × RuneBalances) × Nat) (id : RuneId) :
    amountIn ((outputRunes call.order item).getD []) id = RuneBalances.amount item.1.2 id := by
  rw [outputRunes]
  split
  · rename_i empty
    rw [List.isEmpty_iff] at empty
    rw [← RuneBalances.amountIn_listed, RuneBalances.listed, empty]
    rfl
  · rw [Option.getD_some, amountIn_perm ((call.order item.2).perm item.1.2)]
    exact RuneBalances.amountIn_listed item.1.2 id

end RuneCall

section Steps

variable {indexer : RunesIndexer} {past : List IndexedTx} {step : IndexedTx}
variable {before : RuneState} {id : RuneId} {ref : TxoRef}

theorem heldBy_fresh (fresh : step.txId ∉ past.map IndexedTx.txId) (own : ref.txHash = step.txId) :
    unspentAfter past ref = none := by
  cases found : unspentAfter past ref with
  | none => rfl
  | some utxo => exact absurd (own ▸ (unspentAfter_some found).1) fresh

theorem heldBy_kept (foreign : step.tx.creates ref = none) :
    heldBy (unspentAfter (step :: past)) id ref =
      if ref ∈ step.tx.spends then 0 else heldBy (unspentAfter past) id ref := by
  rw [heldBy, unspentAfter_cons_foreign foreign]
  split
  · rfl
  · rfl

theorem IndexedTx.runes_utxo (step : IndexedTx) {output : TxOut} {ref : TxoRef}
    (plain : (step.attached ref).get? .runes = none) : (step.utxo output ref).runes = [] := by
  rw [Utxo.runes, runesOf, IndexedTx.utxo, plain]
  rfl

theorem heldBy_item (call : RuneCall indexer (unspentAfter past) step.point.height step.blockIndex
      step.tx before)
    (attached : ∀ ref, ref.txHash = step.txId →
      (step.attached ref).get? .runes = (call.attachedTo ref).map encode)
    (small : step.tx.tx.output.length < 2 ^ 32) (fresh : step.txId ∉ past.map IndexedTx.txId)
    {item : (TxOut × RuneBalances) × Nat} (member : item ∈ call.items) :
    heldBy (unspentAfter (step :: past)) id (step.tx.txoRef item.2) ≤
      RuneBalances.amount item.1.2 id := by
  cases created : step.tx.creates (step.tx.txoRef item.2) with
  | none =>
      rw [heldBy_kept created, heldBy, heldBy_fresh fresh rfl]
      split
      · exact Nat.zero_le _
      · exact Nat.zero_le _
  | some output =>
      have data := attached (step.tx.txoRef item.2) rfl
      have decoded := @runesOf_attached (step.utxo output (step.tx.txoRef item.2)) _ data
        (fun runes found => call.fits_attachedTo found)
      rw [heldBy, unspentAfter_cons_created created, Option.map_some, Option.getD_some, Utxo.runes, decoded,
        call.attachedTo_item small member]
      exact le_of_eq (call.amountIn_outputRunes item id)

end Steps

/-- The supply of every rune is issued within its cap, and the unspent outputs hold no more. -/
structure Supplied (past : List IndexedTx) (runes : RuneState) : Prop where
  issued : runes.Issued
  within : ∀ id, Within (heldBy (unspentAfter past) id) (runes.supply id)

namespace Supplied

variable {indexer : RunesIndexer} {past : List IndexedTx} {step : IndexedTx}
variable {before : RuneState}

theorem spends_le (supplied : Supplied past before) {tx : TransactionWithId}
    (valid : ValidTx (liveRefs (unspentAfter past)) tx) (id : RuneId) :
    amountIn (heldRunes (unspentAfter past) tx.spends) id ≤ before.supply id := by
  rw [amountIn_heldRunes, ← List.sum_toFinset _ valid.distinct]
  exact supplied.within id _

theorem spends_lt (supplied : Supplied past before) {tx : TransactionWithId}
    (valid : ValidTx (liveRefs (unspentAfter past)) tx) (id : RuneId) :
    amountIn (heldRunes (unspentAfter past) tx.spends) id < 2 ^ 128 :=
  lt_of_le_of_lt (supplied.spends_le valid id) (supplied.issued.supply_lt id)

theorem total_lt (supplied : Supplied past before) (guaranteed : indexer.ordinals.Guaranteed)
    (valid : ValidTx (liveRefs (unspentAfter past)) step.tx)
    (call : RuneCall indexer (unspentAfter past) step.point.height step.blockIndex step.tx before)
    (unknown : ∀ rune, call.etched = some rune → before.infos rune.1 = none) (id : RuneId) :
    call.total id < 2 ^ 128 := by
  have after := (call.issued_after guaranteed supplied.issued unknown).supply_lt id
  have sum := call.supply_after supplied.issued unknown id
  have spent := supplied.spends_le valid id
  omega

theorem idle (supplied : Supplied past before)
    (plain : ∀ ref, ref.txHash = step.txId → (step.attached ref).get? .runes = none) :
    Supplied (step :: past) before := by
  refine ⟨supplied.issued, ?_⟩
  intro id
  apply (supplied.within id).mono le_rfl
  intro ref
  cases created : step.tx.creates ref with
  | none =>
      rw [heldBy_kept created]
      split
      · exact Nat.zero_le _
      · exact le_rfl
  | some output =>
      have data := plain ref (TransactionWithId.txHash_of_creates created)
      rw [heldBy, unspentAfter_cons_created created, Option.map_some, Option.getD_some,
        step.runes_utxo data, amountIn_nil]
      exact Nat.zero_le _

theorem active (supplied : Supplied past before) (guaranteed : indexer.ordinals.Guaranteed)
    (fresh : step.txId ∉ past.map IndexedTx.txId)
    (valid : ValidTx (liveRefs (unspentAfter past)) step.tx)
    (call : RuneCall indexer (unspentAfter past) step.point.height step.blockIndex step.tx before)
    (unknown : ∀ rune, call.etched = some rune → before.infos rune.1 = none)
    (attached : ∀ ref, ref.txHash = step.txId →
      (step.attached ref).get? .runes = (call.attachedTo ref).map encode) :
    Supplied (step :: past) call.after := by
  refine ⟨call.issued_after guaranteed supplied.issued unknown, ?_⟩
  intro id
  rcases call.flow guaranteed (supplied.total_lt guaranteed valid call unknown) with
    ⟨count, _, least⟩
  have refs : (call.items.map (fun item => step.tx.txoRef item.2)).Nodup :=
    TransactionWithId.nodup_txoRefs (by
      rw [List.length_zip]
      exact lt_of_le_of_lt (Nat.min_le_left _ _) valid.small)
  have made : ∑ ref ∈ (call.items.map (fun item => step.tx.txoRef item.2)).toFinset,
      heldBy (unspentAfter (step :: past)) id ref ≤ call.total id := by
    have shares : (call.items.map (fun item => RuneBalances.amount item.1.2 id)).sum =
        allocatedOf call.allocated id := by
      have values : call.items.map (fun item => RuneBalances.amount item.1.2 id) =
          call.allocated.map (fun balances => RuneBalances.amount balances id) := by
        calc call.items.map (fun item => RuneBalances.amount item.1.2 id)
            = ((call.items.map Prod.fst).map Prod.snd).map
                (fun balances => RuneBalances.amount balances id) := by
              rw [List.map_map, List.map_map]
              rfl
          _ = call.allocated.map (fun balances => RuneBalances.amount balances id) := by
              rw [RuneReceipts.items, List.zipIdx_map_fst, List.map_snd_zip (le_of_eq count)]
      rw [values, allocatedOf]
    rw [List.sum_toFinset _ refs, List.map_map]
    apply le_trans _ (least id)
    rw [← shares]
    apply List.sum_le_sum
    intro item member
    exact heldBy_item call attached valid.small fresh member
  have sum := call.supply_after supplied.issued unknown id
  have spent : ∑ ref ∈ step.tx.spends.toFinset, heldBy (unspentAfter past) id ref =
      amountIn (heldRunes (unspentAfter past) step.tx.spends) id := by
    rw [List.sum_toFinset _ valid.distinct, amountIn_heldRunes]
  have grown : call.after.supply id = before.supply id + (call.total id -
      amountIn (heldRunes (unspentAfter past) step.tx.spends) id) := by
    have least : amountIn (heldRunes (unspentAfter past) step.tx.spends) id ≤ call.total id := by
      rw [RuneCall.total]
      omega
    omega
  rw [grown]
  apply (supplied.within id).move step.tx.spends.toFinset
    (call.items.map (fun item => step.tx.txoRef item.2)).toFinset
  · intro ref outside
    have foreign : step.tx.creates ref = none := by
      cases created : step.tx.creates ref with
      | none => rfl
      | some output =>
          rw [TransactionWithId.creates_eq, Option.filter_eq_some_iff,
            TransactionWithId.outputAt_iff valid.small] at created
          rcases created.1 with ⟨index, listed, rfl⟩
          exfalso
          apply outside
          have inside : index < call.allocated.length := by
            rw [count]
            exact (List.getElem?_eq_some_iff.mp listed).1
          rw [List.mem_toFinset, List.mem_map]
          refine ⟨((output, call.allocated[index]), index), ?_, rfl⟩
          rw [RuneReceipts.items, List.mem_zipIdx_iff_getElem?, List.getElem?_zip_eq_some]
          exact ⟨listed, List.getElem?_eq_getElem inside⟩
    rw [heldBy_kept foreign]
    simp only [List.mem_toFinset, le_refl]
  · rw [spent]
    omega

end Supplied

/-- Along every run the supply bounds what is held. -/
theorem RuneRun.supplied {indexer : RunesIndexer} {past : List IndexedTx} {runes : RuneState}
    (run : RuneRun indexer past runes) (guaranteed : indexer.ordinals.Guaranteed) :
    Supplied past runes := by
  induction run with
  | nil => exact ⟨RuneState.issued_empty, fun id => Holdings.within_zero (fun _ => rfl)⟩
  | @cons past step before after run ordered fresh valid leads ih =>
      cases leads with
      | idle early plain => exact ih.idle plain
      | active call attached =>
          exact ih.active guaranteed fresh valid call (run.unknown_etched ordered call) attached

theorem spendOrdinals_guaranteed : spendOrdinals.Guaranteed := by
  constructor
  · intro tx artifact deciphered
    obtain rfl := Option.some.inj deciphered
    split
    · exact ⟨by simp, by simp⟩
    · exact ⟨by simp, by simp⟩
  · intro tx stone etching deciphered asked
    have own := Option.some.inj deciphered
    rw [Artifact.runestone.injEq] at own
    rw [← own] at asked
    split at asked
    · cases asked
      decide
    · cases asked

end Symphony
