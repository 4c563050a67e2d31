import Symphony.Proof.AddressResponses
import Symphony.Proof.RuneIdentifiers
import Symphony.Serve.CharmRoutes

/-! What the charm routes respond.

A key that stayed after its output was spent makes the routes that meet it fail. -/

namespace Symphony

open BigEndian (Byte)
open CharmsIndexer Encdec Serve
open VersionedLog (Commit Increasing)

theorem parseUtxoRef_iff {fromStr : String → Option Txid} {text : String} {ref : TxoRef} :
    parseUtxoRef fromStr text = .ok ref ↔ ∃ txid vout, text.toList = txid ++ ':' :: vout ∧
      ':' ∉ txid ∧ fromStr (String.ofList txid) = some ref.txHash ∧ DecimalOf vout ref.txoIndex := by
  have parsed {txid vout : List Char} (split : text.toList.splitOn ':' = [txid, vout]) :
      parseUtxoRef fromStr text = .ok ref ↔
        fromStr (String.ofList txid) = some ref.txHash ∧ DecimalOf vout ref.txoIndex := by
    rw [parseUtxoRef, split]
    simp only
    cases hashed : fromStr (String.ofList txid) with
    | none => simp
    | some txHash =>
        simp only
        rw [← parseUInt_iff]
        cases index : parseUInt 32 vout with
        | error kind => simp
        | ok txoIndex =>
            simp only [Except.ok.injEq, Option.some.injEq]
            constructor
            · intro same
              rw [← same]
              exact ⟨rfl, rfl⟩
            · intro same
              rw [same.1, same.2]
  constructor
  · intro success
    cases splitOn_colon text.toList with
    | inl plain =>
        rw [parseUtxoRef, List.splitOn_eq_singleton plain] at success
        cases success
    | inr colon =>
        cases colon with
        | inl one =>
            obtain ⟨txid, vout, parts, before, after, split⟩ := one
            exact ⟨txid, vout, parts, before, (parsed split).mp success⟩
        | inr more =>
            obtain ⟨_, _, first, second, third, rest, split⟩ := more
            rw [parseUtxoRef, split] at success
            cases success
  · intro well
    obtain ⟨txid, vout, parts, before, hashed, index⟩ := well
    have split : text.toList.splitOn ':' = [txid, vout] := by
      rw [parts, List.splitOn_append_cons_self_of_not_mem before,
        List.splitOn_eq_singleton index.plain]
    exact (parsed split).mpr ⟨hashed, index⟩

theorem parseUtxoRef_display {fromStr : String → Option Txid} {text : String} {ref : TxoRef}
    {txid : List Char} (plain : ':' ∉ txid) (shown : fromStr (String.ofList txid) = some ref.txHash)
    (printed : text.toList = txid ++ ':' :: Nat.toDigits 10 ref.txoIndex.toNat) :
    parseUtxoRef fromStr text = .ok ref :=
  parseUtxoRef_iff.mpr ⟨txid, _, printed, plain, shown, DecimalOf.display ref.txoIndex⟩

/-- An output of the set at the height, with a charm of the app. -/
def CarriesApp (set : UtxoSet) (app : List Byte) (height : BlockHeight) (ref : TxoRef) : Prop :=
  ∃ utxo charms, set ref = some utxo ∧ utxo.height = height ∧ HasCharms utxo charms ∧
    ∃ charm ∈ charms, charm.1 = app

/-- An output of the set with the script and the height that was filed with these charms. -/
def Charmed (set : UtxoSet) (script : ScriptPubKey) (height : BlockHeight) (ref : TxoRef) : Prop :=
  ∃ utxo charms, set ref = some utxo ∧ utxo.script = script ∧ utxo.height = height ∧
    HasCharms utxo charms

namespace CharmsFiled

variable {indexer : CharmsIndexer} {past : List IndexedTx} {cells : RawKey → Cell}
variable {script : ScriptPubKey} {height : BlockHeight} {ref : TxoRef}

theorem unspent_step (filed : CharmsFiled indexer past cells) {step : IndexedTx}
    (member : step ∈ past) {output : TxOut} (named : step.tx.outputAt ref = some output)
    {utxo : Utxo} (found : unspentAfter past ref = some utxo) :
    step.tx.creates ref = some output ∧ utxo = step.utxo output ref := by
  obtain ⟨other, inside, made, created, rfl⟩ := unspentAfter_creator found
  have own := step.tx.txHash_of_outputAt (by rw [named]; rfl)
  have same : other = step := IndexedTx.eq_of_txId filed.distinct inside member
    ((TransactionWithId.txHash_of_creates created).symm.trans own)
  rw [same] at created ⊢
  have listed := created
  rw [TransactionWithId.creates_eq, Option.filter_eq_some_iff, named, Option.some.injEq] at listed
  rw [listed.1]
  exact ⟨created, rfl⟩

theorem app_iff (filed : CharmsFiled indexer past cells) {app : List Byte} :
    indexer.appIndex.Holds past ⟨app, height, ref⟩ ↔
      CarriesApp (unspentAfter past) app height ref ∨ indexer.StaleApp past app height ref := by
  rw [OutputIndex.Holds, filed.live_app, stuck_app]
  apply or_congr_left
  constructor
  · intro live
    obtain ⟨utxo, found, charms, has, member⟩ := live
    obtain ⟨charm, inside, same⟩ := List.mem_map.mp member
    rw [OwnedUtxoKey.mk.injEq] at same
    exact ⟨utxo, charms, found, same.2.1, has, charm, inside, same.1⟩
  · intro carries
    obtain ⟨utxo, charms, found, place, has, charm, inside, own⟩ := carries
    refine ⟨utxo, found, charms, has, List.mem_map.mpr ⟨charm, inside, ?_⟩⟩
    rw [own, place]

theorem stale_app_spent (filed : CharmsFiled indexer past cells) {app : List Byte}
    (stale : indexer.StaleApp past app height ref) : unspentAfter past ref = none := by
  obtain ⟨step, member, _, output, charms, named, unspendable, _⟩ := stale
  cases found : unspentAfter past ref with
  | none => rfl
  | some utxo =>
      have created := (filed.unspent_step member named found).1
      rw [creates_iff named, unspendable] at created
      cases created

theorem script_iff (filed : CharmsFiled indexer past cells) :
    indexer.scriptIndex.Holds past ⟨script, height, ref⟩ ↔
      Charmed (unspentAfter past) script height ref ∨
        indexer.StaleScript past script height ref ∧ unspentAfter past ref = none := by
  rw [OutputIndex.Holds, filed.live_script, stuck_script]
  constructor
  · intro holds
    cases holds with
    | inl live =>
        obtain ⟨utxo, found, charms, has, _, same⟩ := live
        rw [OwnedUtxoKey.mk.injEq] at same
        exact Or.inl ⟨utxo, charms, found, same.1.symm, same.2.1.symm, has⟩
    | inr stale =>
        cases found : unspentAfter past ref with
        | none => exact Or.inr ⟨stale, rfl⟩
        | some utxo =>
            obtain ⟨step, member, place, output, charms, named, own, listed, _⟩ := stale
            obtain ⟨created, same⟩ := filed.unspent_step member named found
            have has := (filed.hasCharms member created charms).mpr listed
            rw [← same] at has
            refine Or.inl ⟨utxo, charms, found, ?_, ?_, has⟩
            · rw [same, ← own]
              rfl
            · rw [same, ← place]
              rfl
  · intro either
    cases either with
    | inr stale => exact Or.inr stale.1
    | inl charmed =>
        obtain ⟨utxo, charms, found, own, place, has⟩ := charmed
        by_cases some : charms = []
        · right
          obtain ⟨step, member, output, created, same⟩ := unspentAfter_creator found
          rw [same] at has own place
          have listed := (filed.hasCharms member created charms).mp has
          have named := created
          rw [TransactionWithId.creates_eq, Option.filter_eq_some_iff] at named
          exact ⟨step, member, place, output, charms, named.1, own, listed, Or.inr some⟩
        · left
          refine ⟨utxo, found, charms, has, some, ?_⟩
          rw [own, place]

end CharmsFiled

section Responses

variable {Value : Type} {library : CharmsLibrary Value} {reader : Reader} {set : UtxoSet}
variable {missing : String} {key : OwnedUtxoKey} {utxo : Utxo} {charms : UtxoCharms}

def charmResponse (key : OwnedUtxoKey) (utxo : Utxo) (shown : List (CharmAndValue Value)) :
    CharmUtxo Value :=
  ⟨key.txoRef.txHash, key.txoRef.txoIndex, key.producedHeight, utxo.satoshis, shown⟩

theorem decodeUtxoCharms_eq (library : CharmsLibrary Value) (has : HasCharms utxo charms) :
    ∃ raw, utxo.extended.get? .charms = some raw ∧
      decodeUtxoCharms library raw = showCharms library charms := by
  obtain ⟨raw, attached, decoded⟩ := has
  refine ⟨raw, attached, ?_⟩
  rw [decodeUtxoCharms, decoded]

theorem charmUtxo_eq (stored : ∀ ref, reader.get UtxoByTxoRefKV ref = .ok (set ref))
    (found : set key.txoRef = some utxo) (has : HasCharms utxo charms) :
    charmUtxo library reader missing key =
      (showCharms library charms).map (charmResponse key utxo) := by
  obtain ⟨raw, attached, same⟩ := decodeUtxoCharms_eq library has
  have expected : getExpectedAt reader UtxoByTxoRefKV debugTxoRef key.txoRef = .ok utxo := by
    rw [getExpectedAt, stored, found]
  simp only [charmUtxo, expected, attached, same]
  cases showCharms library charms with
  | error failure => rfl
  | ok shown => rfl

theorem charmUtxo_missing (stored : ∀ ref, reader.get UtxoByTxoRefKV ref = .ok (set ref))
    (gone : set key.txoRef = none) : charmUtxo library reader missing key =
      .error (.unexpectedMissingData (debugTxoRef key.txoRef)) := by
  have expected : getExpectedAt reader UtxoByTxoRefKV debugTxoRef key.txoRef =
      .error (.unexpectedMissingData (debugTxoRef key.txoRef)) := by
    rw [getExpectedAt, stored, gone]
  simp only [charmUtxo, expected]

theorem charmUtxo_ok {entry : CharmUtxo Value}
    (success : charmUtxo library reader missing key = .ok entry) :
    entry.height = key.producedHeight ∧ (⟨entry.txHash, entry.outputIndex⟩ : TxoRef) = key.txoRef := by
  unfold charmUtxo at success
  split at success
  · cases success
  · split at success
    · cases success
    · split at success
      · cases success
      · rw [← Except.ok.inj success]
        exact ⟨rfl, rfl⟩

theorem collectCharmUtxos_ok {keys : List OwnedUtxoKey} {utxos : List (CharmUtxo Value)}
    (success : collectCharmUtxos library reader (fun _ => true)
      (keys.map (fun key => .ok (key, ()))) = .ok utxos) :
    utxos.map CharmUtxo.height = keys.map OwnedUtxoKey.producedHeight ∧
      utxos.map (fun utxo => ⟨utxo.txHash, utxo.outputIndex⟩) = keys.map OwnedUtxoKey.txoRef ∧
      (∀ key ∈ keys, ∃ entry,
        charmUtxo library reader "missing expected charms data" key = .ok entry) ∧
      ∀ entry, entry ∈ utxos ↔ ∃ key ∈ keys,
        charmUtxo library reader "missing expected charms data" key = .ok entry := by
  induction keys generalizing utxos with
  | nil =>
      cases success
      exact ⟨rfl, rfl, by simp, by simp⟩
  | cons key keys ih =>
      rw [List.map_cons, collectCharmUtxos] at success
      cases first : charmUtxo library reader "missing expected charms data" key with
      | error failure =>
          simp only [first] at success
          cases success
      | ok utxo =>
          cases rest : collectCharmUtxos library reader (fun _ => true)
              (keys.map (fun key => .ok (key, ()))) with
          | error failure =>
              simp only [first, rest] at success
              cases success
          | ok others =>
              simp only [first, rest, if_true, Except.ok.injEq] at success
              subst success
              obtain ⟨heights, refs, each, mem⟩ := ih rest
              obtain ⟨height, ref⟩ := charmUtxo_ok first
              refine ⟨?_, ?_, ?_, ?_⟩
              · rw [List.map_cons, List.map_cons, heights, height]
              · rw [List.map_cons, List.map_cons, refs, ref]
              · exact List.forall_mem_cons.mpr ⟨⟨utxo, first⟩, each⟩
              · intro entry
                rw [List.mem_cons, mem, List.exists_mem_cons_iff, first, Except.ok.injEq]
                exact or_congr_left eq_comm

theorem collectCharmUtxos_of_each {keys : List OwnedUtxoKey}
    (each : ∀ key ∈ keys, ∃ entry,
      charmUtxo library reader "missing expected charms data" key = .ok entry) :
    ∃ utxos, collectCharmUtxos library reader (fun _ => true)
      (keys.map (fun key => .ok (key, ()))) = .ok utxos := by
  induction keys with
  | nil => exact ⟨[], rfl⟩
  | cons key keys ih =>
      rw [List.forall_mem_cons] at each
      obtain ⟨utxo, first⟩ := each.1
      obtain ⟨utxos, rest⟩ := ih each.2
      refine ⟨utxo :: utxos, ?_⟩
      simp only [List.map_cons, collectCharmUtxos, first, rest, if_true]

theorem collectCharmUtxos_filter (wanted : List (CharmAndValue Value) → Bool)
    (entries : List (Except Error (OwnedUtxoKey × Unit))) :
    collectCharmUtxos library reader wanted entries =
      (collectCharmUtxos library reader (fun _ => true) entries).map
        (List.filter (fun utxo => wanted utxo.charms)) := by
  induction entries with
  | nil => rfl
  | cons entry entries ih =>
      cases entry with
      | error failure => rfl
      | ok entry =>
          simp only [collectCharmUtxos, ih]
          cases charmUtxo library reader "missing expected charms data" entry.1 with
          | error failure => rfl
          | ok utxo =>
              cases collectCharmUtxos library reader (fun _ => true) entries with
              | error failure => rfl
              | ok utxos =>
                  simp only [Except.map, if_true, List.filter_cons]

end Responses

/-- The response lists the outputs of the script with charms in the set, each once, in the order of
their heights. -/
structure ListsCharms {Value : Type} (library : CharmsLibrary Value) (set : UtxoSet)
    (script : ScriptPubKey) (utxos : List (CharmUtxo Value)) : Prop where
  ascending : utxos.Pairwise (fun first second => first.height ≤ second.height)
  distinct : (utxos.map (fun utxo => (⟨utxo.txHash, utxo.outputIndex⟩ : TxoRef))).Nodup
  mem : ∀ entry, entry ∈ utxos ↔ ∃ utxo charms, set ⟨entry.txHash, entry.outputIndex⟩ = some utxo ∧
    utxo.script = script ∧ utxo.height = entry.height ∧ utxo.satoshis = entry.satoshis ∧
    HasCharms utxo charms ∧ showCharms library charms = .ok entry.charms

/-- Each key of the script that stayed still has its output, and all charms there can be shown. -/
structure Listable {Value : Type} (library : CharmsLibrary Value) (set : UtxoSet)
    (stale : BlockHeight → TxoRef → Prop) (script : ScriptPubKey) : Prop where
  kept : ∀ height ref, stale height ref → (set ref).isSome
  shown : ∀ ref utxo charms, set ref = some utxo → utxo.script = script → HasCharms utxo charms →
    ∃ shown, showCharms library charms = .ok shown

section Listing

variable {Value : Type} {library : CharmsLibrary Value} {reader : Reader} {set : UtxoSet}
variable {stale : BlockHeight → TxoRef → Prop} {script : ScriptPubKey} {keys : List OwnedUtxoKey}

/-- The keys of a script, as they are scanned: of the outputs with charms in the set, and those that
stayed after their output was spent. -/
structure CharmKeys (set : UtxoSet) (stale : BlockHeight → TxoRef → Prop) (script : ScriptPubKey)
    (keys : List OwnedUtxoKey) : Prop where
  sorted : keys.Pairwise (fun first second => scriptTable.raw first ≤ scriptTable.raw second ∧
    scriptTable.raw first ≠ scriptTable.raw second)
  mem : ∀ key, key ∈ keys ↔ key.owner = script ∧
    (Charmed set script key.producedHeight key.txoRef ∨
      stale key.producedHeight key.txoRef ∧ set key.txoRef = none)

theorem charmUtxo_unspent (stored : ∀ ref, reader.get UtxoByTxoRefKV ref = .ok (set ref))
    {missing : String} {key : OwnedUtxoKey} {entry : CharmUtxo Value}
    (success : charmUtxo library reader missing key = .ok entry) : set key.txoRef ≠ none := by
  intro absent
  rw [charmUtxo_missing stored absent] at success
  cases success

namespace CharmKeys

theorem shows (scanned : CharmKeys set stale script keys)
    (stored : ∀ ref, reader.get UtxoByTxoRefKV ref = .ok (set ref)) {missing : String}
    {key : OwnedUtxoKey} (member : key ∈ keys) {entry : CharmUtxo Value}
    (success : charmUtxo library reader missing key = .ok entry) :
    ∃ utxo charms, set key.txoRef = some utxo ∧ utxo.script = script ∧
      utxo.height = key.producedHeight ∧ utxo.satoshis = entry.satoshis ∧
      HasCharms utxo charms ∧ showCharms library charms = .ok entry.charms := by
  obtain ⟨utxo, charms, found, own, height, has⟩ :=
    ((scanned.mem key).mp member).2.resolve_right
      (fun stale => charmUtxo_unspent stored success stale.2)
  rw [charmUtxo_eq stored found has] at success
  cases shown : showCharms library charms with
  | error failure =>
      rw [shown] at success
      cases success
  | ok list =>
      rw [shown] at success
      rw [← Except.ok.inj success]
      exact ⟨utxo, charms, found, own, height, rfl, has, shown⟩

theorem lists (scanned : CharmKeys set stale script keys)
    (stored : ∀ ref, reader.get UtxoByTxoRefKV ref = .ok (set ref)) {utxos : List (CharmUtxo Value)}
    (success : collectCharmUtxos library reader (fun _ => true)
      (keys.map (fun key => .ok (key, ()))) = .ok utxos) : ListsCharms library set script utxos := by
  obtain ⟨heights, refs, each, entries⟩ := collectCharmUtxos_ok success
  have owned : ∀ key ∈ keys, key.owner = script :=
    fun key member => ((scanned.mem key).mp member).1
  constructor
  · rw [← List.pairwise_map, heights]
    exact heights_ascending owned scanned.sorted
  · rw [refs]
    apply refs_distinct owned scanned.sorted
    intro first left second right same
    obtain ⟨entry, success⟩ := each first left
    obtain ⟨entry', success'⟩ := each second right
    obtain ⟨utxo, _, found, _, height, _⟩ := scanned.shows stored left success
    obtain ⟨utxo', _, found', _, height', _⟩ := scanned.shows stored right success'
    rw [same, found', Option.some.injEq] at found
    rw [← height, ← height', found]
  · intro entry
    rw [entries]
    constructor
    · intro ⟨key, member, success⟩
      obtain ⟨height, ref⟩ := charmUtxo_ok success
      rw [ref, height]
      exact scanned.shows stored member success
    · intro ⟨utxo, charms, found, own, height, satoshis, has, shown⟩
      let key : OwnedUtxoKey := ⟨script, entry.height, ⟨entry.txHash, entry.outputIndex⟩⟩
      refine ⟨key, (scanned.mem key).mpr ⟨rfl, Or.inl ⟨utxo, charms, found, own, height, has⟩⟩, ?_⟩
      rw [charmUtxo_eq stored found has, shown, Except.map, charmResponse, satoshis]

/-- Each key that stayed fails without its output, and any other shows the charms of its output. -/
theorem responds_iff (scanned : CharmKeys set stale script keys)
    (stored : ∀ ref, reader.get UtxoByTxoRefKV ref = .ok (set ref)) :
    (∃ utxos, collectCharmUtxos library reader (fun _ => true)
      (keys.map (fun key => .ok (key, ()))) = .ok utxos) ↔ Listable library set stale script := by
  constructor
  · intro ⟨utxos, success⟩
    have each := (collectCharmUtxos_ok success).2.2.1
    constructor
    · intro height ref stays
      by_contra lost
      have absent := Option.not_isSome_iff_eq_none.mp lost
      obtain ⟨entry, success⟩ := each ⟨script, height, ref⟩
        ((scanned.mem _).mpr ⟨rfl, Or.inr ⟨stays, absent⟩⟩)
      exact charmUtxo_unspent stored success absent
    · intro ref utxo charms found own has
      obtain ⟨entry, success⟩ := each ⟨script, utxo.height, ref⟩
        ((scanned.mem _).mpr ⟨rfl, Or.inl ⟨utxo, charms, found, own, rfl, has⟩⟩)
      rw [charmUtxo_eq stored found has] at success
      cases shown : showCharms library charms with
      | error failure =>
          rw [shown] at success
          cases success
      | ok list => exact ⟨list, rfl⟩
  · intro listable
    apply collectCharmUtxos_of_each
    intro key member
    cases ((scanned.mem key).mp member).2 with
    | inl charmed =>
        obtain ⟨utxo, charms, found, own, height, has⟩ := charmed
        obtain ⟨shown, shows⟩ := listable.shown key.txoRef utxo charms found own has
        exact ⟨charmResponse key utxo shown, by rw [charmUtxo_eq stored found has, shows]; rfl⟩
    | inr stays =>
        have live := listable.kept _ _ stays.1
        rw [stays.2] at live
        cases live

end CharmKeys

end Listing

section Moments

variable {Value : Type} {library : CharmsLibrary Value} {reader : Reader} {history : History}
variable {machine : Machine} {indexer : CharmsIndexer} {script : ScriptPubKey}

theorem tables_apart {kv : OwnedTable} (member : kv ∈ [scriptTable, appTable]) :
    ∀ other ∈ [scriptTable, appTable],
      other = kv ∨ other.indexer = kv.indexer ∧ other.table ≠ kv.table := by
  simp only [List.mem_cons, List.not_mem_nil, or_false] at member
  simp only [List.forall_mem_cons, List.not_mem_nil, false_implies, implies_true, and_true]
  cases member with
  | inl script =>
      rw [script]
      exact ⟨Or.inl rfl, Or.inr ⟨rfl, by decide⟩⟩
  | inr app =>
      rw [app]
      exact ⟨Or.inr ⟨rfl, by decide⟩, Or.inl rfl⟩

theorem Records.charmKeys (records : Records (CharmsGood indexer) history machine)
    (keyed : Records (KeyedBy .charms (OwnedRaw [scriptTable, appTable])) history machine)
    (room : history.blocks.length + 1 < 2 ^ 64) (sees : reader.Sees machine.stage.db.db.view)
    (short : script.length < 2 ^ 64) :
    ∃ keys : List OwnedUtxoKey, charmsScan reader script = keys.map (fun key => .ok (key, ())) ∧
      CharmKeys (unspent history.blocks) (indexer.StaleScript (chainTxs history.blocks) script) script
        keys := by
  have filed := records.charmsFiled (by omega)
  have produced (key : OwnedUtxoKey)
      (holds : indexer.scriptIndex.Holds (chainTxs history.blocks) key) :
      ∃ step ∈ chainTxs history.blocks, step.point.height = key.producedHeight := by
    obtain ⟨step, member, _, _, _, _, height, _⟩ := holds.step
    exact ⟨step, member, height.symm⟩
  obtain ⟨keys, scan, sorted, mem⟩ := records.ownedKeys scriptTable keyed (tables_apart (by simp))
    filed.listed.scripts produced room sees short
  refine ⟨keys, scan, sorted, ?_⟩
  intro key
  rw [mem, ← unspentAfter_chainTxs]
  apply and_congr_right
  intro own
  rw [← own]
  exact filed.script_iff

theorem Records.charmListing (records : Records (CharmsGood indexer) history machine)
    (keyed : Records (KeyedBy .charms (OwnedRaw [scriptTable, appTable])) history machine)
    (room : history.blocks.length + 1 < 2 ^ 64) (sees : reader.Sees machine.stage.db.db.view)
    (short : script.length < 2 ^ 64) :
    (∀ utxos, addressesAllCharmUtxos library reader script = .ok utxos →
      ListsCharms library (unspent history.blocks) script utxos) ∧
    ((∃ utxos, addressesAllCharmUtxos library reader script = .ok utxos) ↔
      Listable library (unspent history.blocks)
        (indexer.StaleScript (chainTxs history.blocks) script) script) := by
  obtain ⟨keys, scan, scanned⟩ := records.charmKeys keyed room sees short
  rw [addressesAllCharmUtxos, scan]
  exact ⟨fun _ => scanned.lists (records.stored sees), scanned.responds_iff (records.stored sees)⟩

theorem Records.charmValue (records : Records (CharmsGood indexer) history machine)
    (sees : reader.Sees machine.stage.db.db.view) (charm : String) (ref : TxoRef) {utxo : Utxo}
    {charms : UtxoCharms} {shown : List (CharmAndValue Value)}
    (found : unspent history.blocks ref = some utxo) (has : HasCharms utxo charms)
    (shows : showCharms library charms = .ok shown) :
    charmValueAtUtxo library reader charm ref =
      (shown.find? (fun entry => entry.app = parseCharmPath charm)).elim (.error .notFound) .ok := by
  obtain ⟨raw, attached, same⟩ := decodeUtxoCharms_eq library has
  simp only [charmValueAtUtxo, records.stored sees, found, attached, same, shows]
  cases shown.find? (fun entry => decide (entry.app = parseCharmPath charm)) with
  | none => rfl
  | some entry => rfl

end Moments

/-- The first output is not after the second in the order of the table of apps. -/
def NotAfter (height : BlockHeight) (ref : TxoRef) (height' : BlockHeight) (ref' : TxoRef) : Prop :=
  height < height' ∨ height = height' ∧ encode ref ≤ encode ref'

structure LastOfApp (set : UtxoSet) (stale : BlockHeight → TxoRef → Prop) (app : List Byte)
    (height : BlockHeight) (ref : TxoRef) : Prop where
  filed : CarriesApp set app height ref ∨ stale height ref
  last : ∀ height' ref', CarriesApp set app height' ref' ∨ stale height' ref' →
    NotAfter height' ref' height ref

/-- What is responded for the newest output of an app: nothing if there is none, an error if the last
key has no output, or else the output with all its charms. -/
inductive LatestCharm {Value : Type} (library : CharmsLibrary Value) (set : UtxoSet)
    (stale : BlockHeight → TxoRef → Prop) (app : List Byte) :
    Except ServeError (CharmUtxo Value) → Prop where
  | nothing (none : ∀ height ref, ¬ (CarriesApp set app height ref ∨ stale height ref)) :
      LatestCharm library set stale app (.error .notFound)
  | gone (height : BlockHeight) (ref : TxoRef) (last : LastOfApp set stale app height ref)
      (absent : set ref = none) :
      LatestCharm library set stale app (.error (.unexpectedMissingData (debugTxoRef ref)))
  | found (height : BlockHeight) (ref : TxoRef) (utxo : Utxo) (charms : UtxoCharms)
      (last : LastOfApp set stale app height ref) (unspent : set ref = some utxo)
      (has : HasCharms utxo charms) (carries : ∃ charm ∈ charms, charm.1 = app) :
      LatestCharm library set stale app ((showCharms library charms).map
        (fun shown => ⟨ref.txHash, ref.txoIndex, height, utxo.satoshis, shown⟩))

section Latest

variable {Value : Type} {library : CharmsLibrary Value} {reader : Reader} {history : History}
variable {machine : Machine} {indexer : CharmsIndexer}

theorem notAfter_of_raw {kv : OwnedTable} {first second : OwnedUtxoKey}
    (owned : first.owner = second.owner) (ordered : kv.raw first ≤ kv.raw second) :
    NotAfter first.producedHeight first.txoRef second.producedHeight second.txoRef := by
  have heights := height_le_of_raw owned ordered
  by_cases same : first.producedHeight = second.producedHeight
  · have bytes : kv.toTable.encodeKey first ≤ kv.toTable.encodeKey second := ordered
    rw [encodeKey_owned, encodeKey_owned, owned, same, LexRange.append_le_append_iff,
      LexRange.append_le_append_iff, LexRange.append_le_append_iff] at bytes
    exact Or.inr ⟨same, bytes⟩
  · exact Or.inl (BitVec.lt_of_le_ne heights same)

/-- The keys of an app, as they are scanned. -/
structure AppKeys (set : UtxoSet) (stale : BlockHeight → TxoRef → Prop) (app : List Byte)
    (keys : List OwnedUtxoKey) : Prop where
  sorted : keys.Pairwise (fun first second => appTable.raw first ≤ appTable.raw second ∧
    appTable.raw first ≠ appTable.raw second)
  mem : ∀ key, key ∈ keys ↔ key.owner = app ∧
    (CarriesApp set app key.producedHeight key.txoRef ∨ stale key.producedHeight key.txoRef)

theorem AppKeys.last {set : UtxoSet} {stale : BlockHeight → TxoRef → Prop} {app : List Byte}
    {keys others : List OwnedUtxoKey} {key : OwnedUtxoKey} (scanned : AppKeys set stale app keys)
    (split : keys.reverse = key :: others) :
    LastOfApp set stale app key.producedHeight key.txoRef := by
  have member : key ∈ keys := by
    rw [← List.mem_reverse, split]
    exact List.mem_cons_self
  obtain ⟨own, holds⟩ := (scanned.mem key).mp member
  have descending := List.pairwise_reverse.mpr scanned.sorted
  rw [split, List.pairwise_cons] at descending
  refine ⟨holds, ?_⟩
  intro height ref filed
  have listed := (scanned.mem ⟨app, height, ref⟩).mpr ⟨rfl, filed⟩
  rw [← List.mem_reverse, split, List.mem_cons] at listed
  cases listed with
  | inl same =>
      rw [← same]
      exact Or.inr ⟨rfl, le_refl _⟩
  | inr earlier =>
      exact @notAfter_of_raw appTable ⟨app, height, ref⟩ key own.symm (descending.1 _ earlier).1

theorem Records.appKeys (records : Records (CharmsGood indexer) history machine)
    (keyed : Records (KeyedBy .charms (OwnedRaw [scriptTable, appTable])) history machine)
    (room : history.blocks.length + 1 < 2 ^ 64) (sees : reader.Sees machine.stage.db.db.view)
    {app : List Byte} (short : app.length < 2 ^ 64) :
    ∃ keys : List OwnedUtxoKey,
      reader.iterKvs CharmsUtxosByAppKV (ownerRange CharmsUtxosByAppKV app) false =
        keys.map (fun key => .ok (key, ())) ∧
      AppKeys (unspent history.blocks) (indexer.StaleApp (chainTxs history.blocks) app) app keys := by
  have filed := records.charmsFiled (by omega)
  have produced (key : OwnedUtxoKey)
      (holds : indexer.appIndex.Holds (chainTxs history.blocks) key) :
      ∃ step ∈ chainTxs history.blocks, step.point.height = key.producedHeight := by
    obtain ⟨step, member, charms, _, inside⟩ := holds.step
    obtain ⟨charm, _, same⟩ := List.mem_map.mp inside
    rw [← same]
    exact ⟨step, member, rfl⟩
  obtain ⟨keys, scan, sorted, mem⟩ := records.ownedKeys appTable keyed (tables_apart (by simp))
    filed.listed.apps produced room sees short
  refine ⟨keys, scan, sorted, ?_⟩
  intro key
  rw [mem, ← unspentAfter_chainTxs]
  apply and_congr_right
  intro own
  rw [← own]
  exact filed.app_iff

theorem Records.charmLatest (records : Records (CharmsGood indexer) history machine)
    (keyed : Records (KeyedBy .charms (OwnedRaw [scriptTable, appTable])) history machine)
    (room : history.blocks.length + 1 < 2 ^ 64) (sees : reader.Sees machine.stage.db.db.view)
    (charm : String) (short : (Utf8.encode (parseCharmPath charm)).length < 2 ^ 64) :
    LatestCharm library (unspent history.blocks)
      (indexer.StaleApp (chainTxs history.blocks) (Utf8.encode (parseCharmPath charm)))
      (Utf8.encode (parseCharmPath charm)) (Serve.charmLatest library reader charm) := by
  generalize app_eq : Utf8.encode (parseCharmPath charm) = app at short
  have filed := records.charmsFiled (by omega)
  have stored := records.stored sees
  obtain ⟨keys, scan, scanned⟩ := records.appKeys keyed room sees short
  have backwards : (reader.iterKvs CharmsUtxosByAppKV (ownerRange CharmsUtxosByAppKV app) true) =
      keys.reverse.map (fun key => .ok (key, ())) := by
    rw [Reader.iterKvs_reverse, List.map_reverse]
    exact congrArg List.reverse scan
  rw [Serve.charmLatest, app_eq, backwards]
  cases split : keys.reverse with
  | nil =>
      apply LatestCharm.nothing
      intro height ref holds
      have member := (scanned.mem ⟨app, height, ref⟩).mpr ⟨rfl, holds⟩
      rw [List.reverse_eq_nil_iff.mp split] at member
      cases member
  | cons key others =>
      have last := scanned.last split
      simp only [List.map_cons, List.head?_cons]
      cases found : unspent history.blocks key.txoRef with
      | none =>
          rw [charmUtxo_missing stored found]
          exact LatestCharm.gone key.producedHeight key.txoRef last found
      | some utxo =>
          cases last.filed with
          | inl carries =>
              obtain ⟨utxo', charms, found', _, has, carries⟩ := carries
              rw [found, Option.some.injEq] at found'
              rw [← found'] at has
              rw [charmUtxo_eq stored found has]
              exact LatestCharm.found key.producedHeight key.txoRef utxo charms last found has carries
          | inr stale =>
              have absent := filed.stale_app_spent stale
              rw [unspentAfter_chainTxs, found] at absent
              cases absent

end Latest

section Served

variable (indexer : CharmsIndexer)

theorem charmsKeyed_rule : TxRule (TransactionIndexerFactory.kind (.charms indexer))
    (TransactionIndexerFactory.createIndexer (.charms indexer))
    (KeyedBy .charms (OwnedRaw [scriptTable, appTable])) :=
  keyedBy_rule (fun _ blockIndex ctx => CharmsIndexer.processTx_within blockIndex ctx)

end Served

/-- As long as the database keeps the versions that a request reads: the outputs with charms that an
address is responded with are exactly those of its script that are unspent at the moment the request
is served from, each once and in the order of their heights. It is responded to unless a key stayed
whose output is spent, or a charm can not be shown. The response for one charm leaves out the outputs
without it, and the value at a listed output is the one that is listed. -/
theorem charm_listings_served {Value : Type} (library : CharmsLibrary Value)
    (names : Header → Point → Prop) (config : Config) (factories : List TransactionIndexerFactory)
    (indexer : CharmsIndexer) (life : Life) (storage : StorageHandler) (mempool : Bool)
    (reader : Reader) (info : Serve.IndexerInfo) (later : DB) (script : ScriptPubKey) (charm : String)
    (request : life.Request names config factories storage mempool reader info later)
    (enabled : .charms indexer ∈ factories) (short : script.length < 2 ^ 64) :
    let seen : Reader := ⟨later, reader.timestamp⟩
    let response := addressesAllCharmUtxos library seen script
    ∃ past, life.Answers names config factories past storage mempool reader info ∧
      (past.history.blocks.length + 1 < 2 ^ 64 →
        (∀ utxos, response = .ok utxos →
          ListsCharms library (unspent past.history.blocks) script utxos ∧
          ∀ entry ∈ utxos,
            charmValueAtUtxo library seen charm ⟨entry.txHash, entry.outputIndex⟩ =
              (entry.charms.find? (fun shown => shown.app = parseCharmPath charm)).elim
                (.error .notFound) .ok) ∧
        ((∃ utxos, response = .ok utxos) ↔
          Listable library (unspent past.history.blocks)
            (indexer.StaleScript (chainTxs past.history.blocks) script) script) ∧
        addressesSpecificCharmUtxos library seen script charm =
          response.map (List.filter (fun utxo => ofApp (parseCharmPath charm) utxo.charms))) := by
  intro seen response
  obtain ⟨past, answers, sound, history, sees⟩ := request.answered
  refine ⟨past, answers, ?_⟩
  intro room
  have records := (enabledCharms_rule indexer).lived request.distinct enabled sound history
  have keyed := (charmsKeyed_rule indexer).lived request.distinct enabled sound history
  obtain ⟨lists, responded⟩ := @Records.charmListing _ library _ _ _ _ _ records keyed room sees short
  refine ⟨?_, responded, collectCharmUtxos_filter _ _⟩
  intro utxos success
  have listed := lists utxos success
  refine ⟨listed, ?_⟩
  intro entry member
  obtain ⟨utxo, charms, found, _, _, _, has, shows⟩ := (listed.mem entry).mp member
  exact records.charmValue sees charm _ found has shows

def plainLibrary : CharmsLibrary (List Byte) where
  Data := List Byte
  tryFromBytes := .ok
  toValue := .ok
  debugError _ := ""

/-- Without the mempool the address of the coinbase has its output, with the charm of `a`. -/
theorem charm_listings_served_coinbase :
    ∃ reader info, startReader epochOnly allLife.machine.stage.db false = .ok (reader, info) ∧
      let seen : Reader := ⟨allLife.machine.stage.db.db, reader.timestamp⟩
      let response := addressesAllCharmUtxos plainLibrary seen [81]
      response = .ok [⟨txIdOf 1, 0, 1, 50, [⟨"a", [1]⟩]⟩] ∧
      ∃ past, allLife.Answers BlockOneOnly { mainnetConfig 2 with utxoCache := true } allFactories
          past allLife.machine.stage.db false reader info ∧
        (past.history.blocks.length + 1 < 2 ^ 64 →
          (∀ utxos, response = .ok utxos →
            ListsCharms plainLibrary (unspent past.history.blocks) [81] utxos ∧
            ∀ entry ∈ utxos,
              charmValueAtUtxo plainLibrary seen "a" ⟨entry.txHash, entry.outputIndex⟩ =
                (entry.charms.find? (fun shown => shown.app = parseCharmPath "a")).elim
                  (.error .notFound) .ok) ∧
          ((∃ utxos, response = .ok utxos) ↔
            Listable plainLibrary (unspent past.history.blocks)
              (charmsOfSpends.StaleScript (chainTxs past.history.blocks) [81]) [81]) ∧
          addressesSpecificCharmUtxos plainLibrary seen [81] "a" =
            response.map (List.filter (fun utxo => ofApp (parseCharmPath "a") utxo.charms))) := by
  obtain ⟨reader, info, success, kept, moment⟩ := allLife_confirmed
  have response : addressesAllCharmUtxos plainLibrary ⟨allLife.machine.stage.db.db, reader.timestamp⟩ [81] =
      .ok [⟨txIdOf 1, 0, 1, 50, [⟨"a", [1]⟩]⟩] := by
    rw [moment]
    decide +kernel
  refine ⟨reader, info, success, response, ?_⟩
  exact charm_listings_served plainLibrary BlockOneOnly _ allFactories charmsOfSpends allLife _ false
    reader info _ [81] "a" (allLife_request success kept) (by simp [allFactories]) (by decide)

/-- As long as the database keeps the versions that a request reads, the newest output of an app is the
one whose key comes last at the moment the request is served from. -/
theorem charm_latest_served {Value : Type} (library : CharmsLibrary Value)
    (names : Header → Point → Prop) (config : Config) (factories : List TransactionIndexerFactory)
    (indexer : CharmsIndexer) (life : Life) (storage : StorageHandler) (mempool : Bool)
    (reader : Reader) (info : Serve.IndexerInfo) (later : DB) (charm : String)
    (request : life.Request names config factories storage mempool reader info later)
    (enabled : .charms indexer ∈ factories)
    (short : (Utf8.encode (parseCharmPath charm)).length < 2 ^ 64) :
    let app := Utf8.encode (parseCharmPath charm)
    ∃ past, life.Answers names config factories past storage mempool reader info ∧
      (past.history.blocks.length + 1 < 2 ^ 64 →
        LatestCharm library (unspent past.history.blocks)
          (indexer.StaleApp (chainTxs past.history.blocks) app) app
          (charmLatest library ⟨later, reader.timestamp⟩ charm)) := by
  intro app
  obtain ⟨past, answers, sound, history, sees⟩ := request.answered
  refine ⟨past, answers, ?_⟩
  intro room
  have records := (enabledCharms_rule indexer).lived request.distinct enabled sound history
  have keyed := (charmsKeyed_rule indexer).lived request.distinct enabled sound history
  exact records.charmLatest keyed room sees charm short

/-- With the mempool it is the last output of the snapshot. -/
theorem charm_latest_served_snapshot :
    ∃ reader info, startReader epochOnly allLife.machine.stage.db true = .ok (reader, info) ∧
      let seen : Reader := ⟨allLife.machine.stage.db.db, reader.timestamp⟩
      charmLatest plainLibrary seen "a" = .ok ⟨txIdOf 3, 0, 3, 40, [⟨"a", [1]⟩]⟩ ∧
      let app := Utf8.encode (parseCharmPath "a")
      ∃ past, allLife.Answers BlockOneOnly { mainnetConfig 2 with utxoCache := true } allFactories
          past allLife.machine.stage.db true reader info ∧
        (past.history.blocks.length + 1 < 2 ^ 64 →
          LatestCharm plainLibrary (unspent past.history.blocks)
            (charmsOfSpends.StaleApp (chainTxs past.history.blocks) app) app
            (charmLatest plainLibrary seen "a")) := by
  obtain ⟨reader, info, success, kept, moment⟩ := allLife_mempool
  have response : charmLatest plainLibrary ⟨allLife.machine.stage.db.db, reader.timestamp⟩ "a" =
      .ok ⟨txIdOf 3, 0, 3, 40, [⟨"a", [1]⟩]⟩ := by
    rw [moment]
    decide +kernel
  refine ⟨reader, info, success, response, ?_⟩
  exact charm_latest_served plainLibrary BlockOneOnly _ allFactories charmsOfSpends allLife _ true
    reader info _ "a" (allLife_request success kept) (by simp [allFactories])
    (by decide +kernel)

end Symphony
