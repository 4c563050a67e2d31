import Symphony.Proof.TxRule
import Symphony.Spec.OutputIndex
import Symphony.Sync.Charms

/-! The charms indices against the UTXO set.

An output is filed when its spell names charms for it, and its keys are removed when it is spent
with charms among its metadata. The UTXO set leaves out OP_RETURN outputs, and the metadata is empty
when no charm of the spell has an app; the keys of these outputs stay. -/

namespace Symphony

open Encdec
open VersionedLog (Increasing)

namespace CharmsIndexer

/-- The charms that the indexer files for an output of a step. -/
def charmsAt (indexer : CharmsIndexer) (step : IndexedTx) (ref : TxoRef) : Option UtxoCharms :=
  if step.point.height < indexer.startHeight then none
  else (step.tx.outputAt ref).bind (fun _ => (indexer.extractAndVerifySpell step.tx.tx).bind
    (fun spell => spell.outs[ref.txoIndex.toNat]?.bind
      (fun charms => spell.charmsOf charms ref.txoIndex.toNat)))

variable {indexer : CharmsIndexer} {step : IndexedTx} {ref : TxoRef} {charms : UtxoCharms}

theorem charmsAt_some (found : indexer.charmsAt step ref = some charms) :
    indexer.startHeight ≤ step.point.height ∧ (step.tx.outputAt ref).isSome ∧ Fits charms := by
  simp only [charmsAt] at found
  split at found
  · cases found
  · rename_i started
    simp only [Option.bind_eq_some_iff] at found
    rcases found with ⟨output, named, spell, _, listed, member, filed⟩
    refine ⟨BitVec.not_lt.mp started, by rw [named]; rfl, ?_⟩
    simp only [Spell.charmsOf] at filed
    split at filed
    · cases filed
    · split at filed
      · cases filed
      · obtain rfl := Option.some.inj filed
        have bounds := spell.outs_lt listed (List.mem_of_getElem? member)
        constructor
        · exact lt_of_le_of_lt (List.length_filterMap_le _ _) bounds.1
        · intro charm inside
          simp only [Spell.resolve, List.mem_filterMap, Option.map_eq_some_iff] at inside
          rcases inside with ⟨named, member, app, found, rfl⟩
          exact ⟨⟨spell.apps_lt app (List.mem_of_getElem? found), by intro _ _; trivial⟩,
            ⟨bounds.2 named member, by intro _ _; trivial⟩⟩

def scriptIndex (indexer : CharmsIndexer) : OutputIndex where
  files step key := ∃ output charms, step.tx.outputAt key.txoRef = some output ∧
    key.owner = output.scriptPubkey ∧ key.producedHeight = step.point.height ∧
      indexer.charmsAt step key.txoRef = some charms
  removes step key := ∃ output charms, step.tx.creates key.txoRef = some output ∧
    key.owner = output.scriptPubkey ∧ key.producedHeight = step.point.height ∧
      indexer.charmsAt step key.txoRef = some charms ∧ charms ≠ []
  own step key files := by
    rcases files with ⟨output, _, named, _⟩
    exact step.tx.txHash_of_outputAt (by rw [named]; rfl)
  filed step key removes := by
    rcases removes with ⟨output, charms, created, owner, height, filed, _⟩
    rw [TransactionWithId.creates_eq, Option.filter_eq_some_iff] at created
    exact ⟨output, charms, created.1, owner, height, filed⟩
  spendable step key removes := by
    rcases removes with ⟨output, _, created, _⟩
    rw [created]
    rfl

def appIndex (indexer : CharmsIndexer) : OutputIndex where
  files step key := ∃ charms, indexer.charmsAt step key.txoRef = some charms ∧
    key ∈ appKeys charms step.point.height key.txoRef
  removes step key := (step.tx.creates key.txoRef).isSome ∧
    ∃ charms, indexer.charmsAt step key.txoRef = some charms ∧
      key ∈ appKeys charms step.point.height key.txoRef
  own step key files := by
    rcases files with ⟨_, found, _⟩
    exact step.tx.txHash_of_outputAt (charmsAt_some found).2.1
  filed step key removes := removes.2
  spendable step key removes := removes.1

end CharmsIndexer

def HasCharms (utxo : Utxo) (charms : UtxoCharms) : Prop :=
  ∃ raw, utxo.extended.get? .charms = some raw ∧ decodeAll raw = .ok charms

def ScriptKey (utxo : Utxo) (ref : TxoRef) (key : OwnedUtxoKey) : Prop :=
  ∃ charms, HasCharms utxo charms ∧ charms ≠ [] ∧ key = ⟨utxo.script, utxo.height, ref⟩

def AppKey (utxo : Utxo) (ref : TxoRef) (key : OwnedUtxoKey) : Prop :=
  ∃ charms, HasCharms utxo charms ∧ key ∈ CharmsIndexer.appKeys charms utxo.height ref

structure CharmsListed (cells : RawKey → Cell) (scripts apps : OwnedUtxoKey → Prop) : Prop where
  scripts : Lists cells CharmsIndexer.scriptTable scripts
  apps : Lists cells CharmsIndexer.appTable apps

namespace CharmsListed

variable {cells : RawKey → Cell} {scripts apps scripts' apps' : OwnedUtxoKey → Prop}

theorem same (listed : CharmsListed cells scripts apps) (script : ∀ key, scripts key ↔ scripts' key)
    (app : ∀ key, apps key ↔ apps' key) : CharmsListed cells scripts' apps' :=
  ⟨listed.scripts.same script, listed.apps.same app⟩

end CharmsListed

namespace CharmsIndexer

theorem tables_apart (first second : OwnedUtxoKey) : scriptTable.raw first ≠ appTable.raw second := by
  intro same
  have tags := Table.tag_eq_of_holds CharmsUtxosByScriptKV CharmsUtxosByAppKV _ rfl
    (Table.holds_encodeKey CharmsUtxosByScriptKV first)
    (by
      rw [show CharmsUtxosByScriptKV.encodeKey first = _ from same]
      exact Table.holds_encodeKey CharmsUtxosByAppKV second)
  exact absurd tags (by decide)

variable {state : TableState} {scripts apps : OwnedUtxoKey → Prop}

theorem consume_yields (utxo : Utxo) (ref : TxoRef) (listed : CharmsListed state.cells scripts apps) :
    (consume utxo ref).Yields (fun _ after => after.attached = state.attached ∧
      CharmsListed after.cells (fun key => scripts key ∧ ¬ ScriptKey utxo ref key)
        (fun key => apps key ∧ ¬ AppKey utxo ref key)) state := by
  simp only [consume]
  cases stored : utxo.extended.get? .charms with
  | none =>
      refine ⟨rfl, listed.same ?_ ?_⟩
      · intro key
        simp [ScriptKey, HasCharms, stored]
      · intro key
        simp [AppKey, HasCharms, stored]
  | some raw =>
      simp only [Script.bind_eq, Script.yields_bind, Script.yields_lift]
      intro charms decoded
      have own (other : UtxoCharms) : HasCharms utxo other ↔ charms = other := by
        simp only [HasCharms, stored, Option.some.injEq, exists_eq_left',
          liftDecoding_ok.mp decoded, Except.ok.injEq]
      cases charms with
      | nil =>
          refine ⟨rfl, listed.same ?_ ?_⟩
          · intro key
            simp [ScriptKey, own]
          · intro key
            simp [AppKey, own, appKeys]
      | cons charm charms =>
          simp only [List.isEmpty_cons, Bool.false_eq_true, if_false, Script.yields_bind,
            IndexerTable.yields_delete]
          intro short
          have moved := listed.apps.onlyIn
            (onlyIn_write scriptTable state ⟨utxo.script, utxo.height, ref⟩ (.ok none)) tables_apart
          apply (OwnedTable.deleteAll_yields moved).mono
          intro _ after done
          have scriptsLeft := (listed.scripts.delete short).onlyIn done.2.1
            (fun first second equal => tables_apart second first equal.symm)
          refine ⟨done.1, scriptsLeft.same ?_, done.2.2.same ?_⟩
          · intro key
            simp [ScriptKey, own]
          · intro key
            simp [AppKey, own]

theorem consumed_yields {ctx : TxContext} {inputs : List TxIn}
    (listed : CharmsListed state.cells scripts apps) :
    (consumed ctx inputs).Yields (fun _ after => after.attached = state.attached ∧
      CharmsListed after.cells
        (fun key => scripts key ∧ ¬ ∃ input ∈ inputs, input.previousOutput ≠ TxoRef.null ∧
          ∃ utxo, ctx.resolveInput input.previousOutput = some utxo ∧
            ScriptKey utxo input.previousOutput key)
        (fun key => apps key ∧ ¬ ∃ input ∈ inputs, input.previousOutput ≠ TxoRef.null ∧
          ∃ utxo, ctx.resolveInput input.previousOutput = some utxo ∧
            AppKey utxo input.previousOutput key)) state := by
  induction inputs generalizing state scripts apps with
  | nil => exact ⟨rfl, listed.same (by simp) (by simp)⟩
  | cons input inputs ih =>
      simp only [consumed, List.exists_mem_cons_iff]
      by_cases null : input.previousOutput = TxoRef.null
      · rw [if_pos null]
        simp only [null, ne_eq, not_true_eq_false, false_and, false_or]
        exact ih listed
      · rw [if_neg null]
        cases found : ctx.resolveInput input.previousOutput with
        | none =>
            simp only [reduceCtorEq, false_and, exists_false, and_false, false_or]
            exact ih listed
        | some utxo =>
            simp only [Option.some.injEq, exists_eq_left', Script.bind_eq]
            apply (consume_yields utxo input.previousOutput listed).bind
            intro _ middle left
            apply (ih left.2).mono
            intro _ after done
            refine ⟨done.1.trans left.1, done.2.same ?_ ?_⟩
            · intro key
              simp only [null, ne_eq, not_false_eq_true, true_and, not_or, and_assoc]
            · intro key
              simp only [null, ne_eq, not_false_eq_true, true_and, not_or, and_assoc]

theorem produce_yields (script : ScriptPubKey) (height : BlockHeight) (ref : TxoRef)
    (charms : UtxoCharms) (listed : CharmsListed state.cells scripts apps) :
    (produce script height ref charms).Yields (fun _ after =>
      (after.attached ref).get? .charms = some (encode charms) ∧
      (∀ other, other ≠ ref → after.attached other = state.attached other) ∧
      CharmsListed after.cells (fun key => scripts key ∨ key = ⟨script, height, ref⟩)
        (fun key => apps key ∨ key ∈ appKeys charms height ref)) state := by
  simp only [produce, Script.Yields, Script.bind_eq, Script.yields_bind, IndexerTable.yields_set]
  intro short
  have only : OnlyIn scriptTable state ((state.attach ref .charms (encode charms)).write
      (scriptTable.raw ⟨script, height, ref⟩) (.ok (some (encode ())))) :=
    onlyIn_write scriptTable _ _ _
  apply (OwnedTable.setAll_yields (Lists.onlyIn listed.apps only tables_apart)).mono
  intro _ after done
  have scriptsLeft := (listed.scripts.set short).onlyIn done.2.1
    (fun first second equal => tables_apart second first equal.symm)
  refine ⟨?_, ?_, scriptsLeft.same ?_, done.2.2⟩
  · rw [done.1, TableState.attached_write, TableState.attached_attach_self,
      IndexMap.get?_insert_self]
  · intro other different
    rw [done.1, TableState.attached_write, TableState.attached_attach_ne _ _ _ _ _ different]
  · intro key
    exact or_comm

theorem produced_yields {spell : Spell} {tx : TransactionWithId} {height : BlockHeight}
    {outputs : List ((TxOut × List (U32 × List BigEndian.Byte)) × Nat)}
    (distinct : (outputs.map (fun item => tx.txoRef item.2)).Nodup)
    (plain : ∀ item ∈ outputs, (state.attached (tx.txoRef item.2)).get? .charms = none)
    (listed : CharmsListed state.cells scripts apps) :
    (produced spell tx height outputs).Yields (fun _ after =>
      (∀ ref, (∀ item ∈ outputs, ref ≠ tx.txoRef item.2) →
        after.attached ref = state.attached ref) ∧
      (∀ item ∈ outputs, (after.attached (tx.txoRef item.2)).get? .charms =
        (spell.charmsOf item.1.2 item.2).map encode) ∧
      CharmsListed after.cells
        (fun key => scripts key ∨ ∃ item ∈ outputs, ∃ charms,
          spell.charmsOf item.1.2 item.2 = some charms ∧
            key = ⟨item.1.1.scriptPubkey, height, tx.txoRef item.2⟩)
        (fun key => apps key ∨ ∃ item ∈ outputs, ∃ charms,
          spell.charmsOf item.1.2 item.2 = some charms ∧
            key ∈ appKeys charms height (tx.txoRef item.2))) state := by
  induction outputs generalizing state scripts apps with
  | nil => exact ⟨fun _ _ => rfl, by simp, listed.same (by simp) (by simp)⟩
  | cons item outputs ih =>
      rcases item with ⟨⟨output, charms⟩, index⟩
      simp only [List.map_cons, List.nodup_cons] at distinct
      simp only [List.forall_mem_cons] at plain
      have apart (item : (TxOut × List (U32 × List BigEndian.Byte)) × Nat)
          (member : item ∈ outputs) : tx.txoRef item.2 ≠ tx.txoRef index := by
        intro same
        exact distinct.1 (List.mem_map.mpr ⟨item, member, same⟩)
      simp only [produced, List.exists_mem_cons_iff, List.forall_mem_cons]
      cases filed : spell.charmsOf charms index with
      | none =>
          apply (ih distinct.2 plain.2 listed).mono
          intro _ after done
          refine ⟨fun ref other => done.1 ref other.2, ⟨?_, done.2.1⟩, done.2.2.same ?_ ?_⟩
          · rw [done.1 _ (fun item member => (apart item member).symm), plain.1]
            rfl
          · simp
          · simp
      | some utxoCharms =>
          simp only [Script.bind_eq]
          apply (produce_yields output.scriptPubkey height (tx.txoRef index) utxoCharms listed).bind
          intro _ middle filing
          have later : ∀ item ∈ outputs,
              (middle.attached (tx.txoRef item.2)).get? .charms = none := by
            intro item member
            rw [filing.2.1 _ (apart item member)]
            exact plain.2 item member
          apply (ih distinct.2 later filing.2.2).mono
          intro _ after done
          refine ⟨?_, ⟨?_, done.2.1⟩, done.2.2.same ?_ ?_⟩
          · intro ref other
            rw [done.1 ref other.2, filing.2.1 ref other.1]
          · rw [done.1 _ (fun item member => (apart item member).symm), filing.1]
            rfl
          · intro key
            simp only [Option.some.injEq, exists_eq_left', or_assoc]
          · intro key
            simp only [Option.some.injEq, exists_eq_left', or_assoc]

section Steps

variable {indexer : CharmsIndexer} {step : IndexedTx} {ref : TxoRef} {charms : UtxoCharms}
variable {spell : Spell} {output : TxOut}

theorem charmsAt_iff (started : ¬ step.point.height < indexer.startHeight)
    (small : step.tx.tx.output.length < 2 ^ 32)
    (extracted : indexer.extractAndVerifySpell step.tx.tx = some spell) :
    (step.tx.outputAt ref = some output ∧ indexer.charmsAt step ref = some charms) ↔
      ∃ item ∈ (step.tx.tx.output.zip spell.outs).zipIdx, ref = step.tx.txoRef item.2 ∧
        item.1.1 = output ∧ spell.charmsOf item.1.2 item.2 = some charms := by
  simp only [charmsAt, if_neg started, extracted, Option.bind_some]
  constructor
  · rintro ⟨named, found⟩
    rw [named, Option.bind_some, Option.bind_eq_some_iff] at found
    rcases found with ⟨listed, member, filed⟩
    rcases (TransactionWithId.outputAt_iff small).mp named with ⟨index, inside, rfl⟩
    have bounded := (List.getElem?_eq_some_iff.mp inside).1
    have place : (step.tx.txoRef index).txoIndex.toNat = index :=
      TransactionWithId.txoIndex_txoRef (by omega)
    rw [place] at member filed
    refine ⟨((output, listed), index), ?_, rfl, rfl, filed⟩
    rw [List.mem_zipIdx_iff_getElem?, List.getElem?_zip_eq_some]
    exact ⟨inside, member⟩
  · rintro ⟨⟨⟨first, listed⟩, index⟩, member, rfl, rfl, filed⟩
    rw [List.mem_zipIdx_iff_getElem?, List.getElem?_zip_eq_some] at member
    have bounded := (List.getElem?_eq_some_iff.mp member.1).1
    have place : (step.tx.txoRef index).txoIndex.toNat = index :=
      TransactionWithId.txoIndex_txoRef (by omega)
    have named : step.tx.outputAt (step.tx.txoRef index) = some first :=
      (TransactionWithId.outputAt_iff small).mpr ⟨index, member.1, rfl⟩
    refine ⟨named, ?_⟩
    rw [named, Option.bind_some, place, member.2, Option.bind_some]
    exact filed

theorem charmsAt_place (started : ¬ step.point.height < indexer.startHeight)
    (extracted : indexer.extractAndVerifySpell step.tx.tx = some spell)
    (own : ref.txHash = step.tx.txId) :
    indexer.charmsAt step ref = (step.tx.tx.output.zip spell.outs)[ref.txoIndex.toNat]?.bind
      (fun item => spell.charmsOf item.2 ref.txoIndex.toNat) := by
  simp only [charmsAt, if_neg started, extracted, Option.bind_some, TransactionWithId.outputAt,
    if_pos own, List.zip, List.getElem?_zipWith]
  cases step.tx.tx.output[ref.txoIndex.toNat]? with
  | none => rfl
  | some output =>
      cases spell.outs[ref.txoIndex.toNat]? with
      | none => rfl
      | some charms => rfl

theorem charmsAt_none (idle : step.point.height < indexer.startHeight ∨
    indexer.extractAndVerifySpell step.tx.tx = none) : indexer.charmsAt step ref = none := by
  simp only [charmsAt]
  split
  · rfl
  · rename_i started
    rw [idle.resolve_left started]
    simp

end Steps

end CharmsIndexer

structure CharmsFiled (indexer : CharmsIndexer) (past : List IndexedTx) (cells : RawKey → Cell) :
    Prop where
  distinct : (past.map IndexedTx.txId).Nodup
  attached : ∀ step ∈ past, ∀ ref, ref.txHash = step.txId →
    (step.attached ref).get? .charms = (indexer.charmsAt step ref).map encode
  listed : CharmsListed cells (indexer.scriptIndex.Holds past) (indexer.appIndex.Holds past)

namespace CharmsFiled

open CharmsIndexer

variable {indexer : CharmsIndexer} {past : List IndexedTx} {cells : RawKey → Cell}
variable {key : OwnedUtxoKey}

theorem hasCharms (filed : CharmsFiled indexer past cells) {step : IndexedTx} {output : TxOut}
    {ref : TxoRef} (member : step ∈ past) (created : step.tx.creates ref = some output)
    (charms : UtxoCharms) :
    HasCharms (step.utxo output ref) charms ↔ indexer.charmsAt step ref = some charms := by
  have attached := filed.attached step member ref (TransactionWithId.txHash_of_creates created)
  simp only [HasCharms, IndexedTx.utxo, attached]
  cases found : indexer.charmsAt step ref with
  | none => simp
  | some listed =>
      have decoded := decodeAll_encode listed (charmsAt_some found).2.2
      simp only [Option.map_some, Option.some.injEq, exists_eq_left', decoded, Except.ok.injEq]

theorem live_script (filed : CharmsFiled indexer past cells) :
    indexer.scriptIndex.Live past key ↔
      ∃ utxo, unspentAfter past key.txoRef = some utxo ∧ ScriptKey utxo key.txoRef key := by
  constructor
  · rintro ⟨⟨step, member, output, charms, created, owner, height, found, some⟩, live⟩
    refine ⟨_, unspentAfter_created filed.distinct member created live, charms,
      (filed.hasCharms member created charms).mpr found, some, ?_⟩
    cases key
    exact OwnedUtxoKey.mk.injEq .. ▸ ⟨owner, height, rfl⟩
  · rintro ⟨utxo, found, charms, has, some, same⟩
    rcases unspentAfter_creator found with ⟨step, member, output, created, rfl⟩
    refine ⟨⟨step, member, output, charms, created, ?_, ?_,
      (filed.hasCharms member created charms).mp has, some⟩, by rw [found]; rfl⟩
    · rw [same]
      rfl
    · rw [same]
      rfl

theorem live_app (filed : CharmsFiled indexer past cells) :
    indexer.appIndex.Live past key ↔
      ∃ utxo, unspentAfter past key.txoRef = some utxo ∧ AppKey utxo key.txoRef key := by
  constructor
  · rintro ⟨⟨step, member, creates, charms, found, inside⟩, live⟩
    obtain ⟨output, created⟩ := Option.isSome_iff_exists.mp creates
    exact ⟨_, unspentAfter_created filed.distinct member created live, charms,
      (filed.hasCharms member created charms).mpr found, inside⟩
  · rintro ⟨utxo, found, charms, has, inside⟩
    rcases unspentAfter_creator found with ⟨step, member, output, created, rfl⟩
    exact ⟨⟨step, member, by rw [created]; rfl, charms,
      (filed.hasCharms member created charms).mp has, inside⟩, by rw [found]; rfl⟩

theorem cons {step : IndexedTx} {after : RawKey → Cell} (filed : CharmsFiled indexer past cells)
    (fresh : step.txId ∉ past.map IndexedTx.txId)
    (attached : ∀ ref, ref.txHash = step.txId →
      (step.attached ref).get? .charms = (indexer.charmsAt step ref).map encode)
    (listed : CharmsListed after
      (fun key => (indexer.scriptIndex.Holds past key ∧
        ¬ (key.txoRef ∈ step.tx.spends ∧ indexer.scriptIndex.Live past key)) ∨
          indexer.scriptIndex.files step key)
      (fun key => (indexer.appIndex.Holds past key ∧
        ¬ (key.txoRef ∈ step.tx.spends ∧ indexer.appIndex.Live past key)) ∨
          indexer.appIndex.files step key)) :
    CharmsFiled indexer (step :: past) after where
  distinct := List.nodup_cons.mpr ⟨fresh, filed.distinct⟩
  attached other member := by
    rcases List.mem_cons.mp member with rfl | old
    · exact attached
    · exact filed.attached other old
  listed := listed.same (fun _ => (OutputIndex.holds_cons filed.distinct fresh).symm)
    (fun _ => (OutputIndex.holds_cons filed.distinct fresh).symm)

theorem no_live (idle : ∀ step ∈ past, step.point.height < indexer.startHeight) :
    ¬ indexer.scriptIndex.Live past key ∧ ¬ indexer.appIndex.Live past key := by
  constructor
  · rintro ⟨⟨step, member, _, _, _, _, _, found, _⟩, _⟩
    rw [charmsAt_none (Or.inl (idle step member))] at found
    cases found
  · rintro ⟨⟨step, member, _, _, found, _⟩, _⟩
    rw [charmsAt_none (Or.inl (idle step member))] at found
    cases found

variable {tx : TransactionWithId} {resolve : TxoRef → Option Utxo} {state : TableState}

theorem removes (filed : CharmsFiled indexer past state.cells)
    (called : Called .charms past tx resolve state) (point : Point) (network : Network) :
    (consumed ⟨point, network, resolve⟩ tx.tx.input).Yields (fun _ after =>
      after.attached = state.attached ∧ CharmsListed after.cells
        (fun key => indexer.scriptIndex.Holds past key ∧
          ¬ (key.txoRef ∈ tx.spends ∧ indexer.scriptIndex.Live past key))
        (fun key => indexer.appIndex.Holds past key ∧
          ¬ (key.txoRef ∈ tx.spends ∧ indexer.appIndex.Live past key))) state := by
  apply (consumed_yields filed.listed).mono
  intro _ after done
  refine ⟨done.1, done.2.same ?_ ?_⟩
  · intro key
    rw [filed.live_script, ← called.spent_iff ScriptKey]
    rintro utxo ref key ⟨_, _, _, rfl⟩
    rfl
  · intro key
    rw [filed.live_app, ← called.spent_iff AppKey]
    rintro utxo ref key ⟨charms, _, member⟩
    rcases List.mem_map.mp member with ⟨charm, _, rfl⟩
    rfl

theorem files_iff {step : IndexedTx} {spell : Spell} (started : ¬ step.point.height < indexer.startHeight)
    (small : step.tx.tx.output.length < 2 ^ 32)
    (extracted : indexer.extractAndVerifySpell step.tx.tx = some spell) :
    ((∃ item ∈ (step.tx.tx.output.zip spell.outs).zipIdx, ∃ charms,
      spell.charmsOf item.1.2 item.2 = some charms ∧
        key = ⟨item.1.1.scriptPubkey, step.point.height, step.tx.txoRef item.2⟩) ↔
          indexer.scriptIndex.files step key) ∧
    ((∃ item ∈ (step.tx.tx.output.zip spell.outs).zipIdx, ∃ charms,
      spell.charmsOf item.1.2 item.2 = some charms ∧
        key ∈ appKeys charms step.point.height (step.tx.txoRef item.2)) ↔
          indexer.appIndex.files step key) := by
  have place (output : TxOut) (charms : UtxoCharms) (ref : TxoRef) :=
    @charmsAt_iff indexer step ref charms spell output started small extracted
  constructor
  · constructor
    · rintro ⟨item, member, charms, filed, rfl⟩
      have found := (place item.1.1 charms (step.tx.txoRef item.2)).mpr ⟨item, member, rfl, rfl, filed⟩
      exact ⟨item.1.1, charms, found.1, rfl, rfl, found.2⟩
    · rintro ⟨output, charms, named, owner, height, found⟩
      rcases (place output charms key.txoRef).mp ⟨named, found⟩ with ⟨item, member, ref, same, filed⟩
      refine ⟨item, member, charms, filed, ?_⟩
      cases key
      exact OwnedUtxoKey.mk.injEq .. ▸ ⟨same ▸ owner, height, ref⟩
  · constructor
    · rintro ⟨item, member, charms, filed, inside⟩
      have found := (place item.1.1 charms (step.tx.txoRef item.2)).mpr ⟨item, member, rfl, rfl, filed⟩
      have ref : key.txoRef = step.tx.txoRef item.2 := by
        rcases List.mem_map.mp inside with ⟨charm, _, rfl⟩
        rfl
      exact ⟨charms, ref ▸ found.2, ref ▸ inside⟩
    · rintro ⟨charms, found, inside⟩
      obtain ⟨output, named⟩ := Option.isSome_iff_exists.mp (charmsAt_some found).2.1
      rcases (place output charms key.txoRef).mp ⟨named, found⟩ with ⟨item, member, ref, _, filed⟩
      exact ⟨item, member, charms, filed, ref ▸ inside⟩

theorem not_files {step : IndexedTx} (nothing : ∀ ref, indexer.charmsAt step ref = none)
    (key : OwnedUtxoKey) : ¬ indexer.scriptIndex.files step key ∧ ¬ indexer.appIndex.files step key := by
  constructor
  · rintro ⟨_, _, _, _, _, found⟩
    rw [nothing] at found
    cases found
  · rintro ⟨_, found, _⟩
    rw [nothing] at found
    cases found

/-- Before the start height nothing is filed and nothing is there to remove. -/
theorem listed_early (filed : CharmsFiled indexer past cells) {step : IndexedTx}
    (monotone : ∀ other ∈ past, other.point.height ≤ step.point.height)
    (early : step.point.height < indexer.startHeight) :
    CharmsListed cells
      (fun key => (indexer.scriptIndex.Holds past key ∧
        ¬ (key.txoRef ∈ step.tx.spends ∧ indexer.scriptIndex.Live past key)) ∨
          indexer.scriptIndex.files step key)
      (fun key => (indexer.appIndex.Holds past key ∧
        ¬ (key.txoRef ∈ step.tx.spends ∧ indexer.appIndex.Live past key)) ∨
          indexer.appIndex.files step key) := by
  have idle (key : OwnedUtxoKey) :=
    @not_files indexer step (fun ref => charmsAt_none (Or.inl early)) key
  have below : ∀ other ∈ past, other.point.height < indexer.startHeight := by
    intro other member
    have height := monotone other member
    rw [BitVec.lt_def] at early ⊢
    rw [BitVec.le_def] at height
    omega
  apply filed.listed.same
  · intro key
    simp only [(no_live below).1, (idle key).1, and_false, not_false_eq_true, and_true, or_false]
  · intro key
    simp only [(no_live below).2, (idle key).2, and_false, not_false_eq_true, and_true, or_false]

/-- The outputs of a spell, filed on top of what the inputs have left. -/
theorem spell_yields {step : IndexedTx} {spell : Spell} {middle : TableState}
    {scripts apps : OwnedUtxoKey → Prop} (started : ¬ step.point.height < indexer.startHeight)
    (short : step.tx.tx.output.length < 2 ^ 32)
    (extracted : indexer.extractAndVerifySpell step.tx.tx = some spell)
    (plain : ∀ ref, ref.txHash = step.tx.txId → (middle.attached ref).get? .charms = none)
    (listed : CharmsListed middle.cells scripts apps) :
    (produced spell step.tx step.point.height (step.tx.tx.output.zip spell.outs).zipIdx).Yields
      (fun _ after =>
        (∀ ref, ref.txHash = step.tx.txId →
          (after.attached ref).get? .charms = (indexer.charmsAt step ref).map encode) ∧
        CharmsListed after.cells (fun key => scripts key ∨ indexer.scriptIndex.files step key)
          (fun key => apps key ∨ indexer.appIndex.files step key)) middle := by
  have small : (step.tx.tx.output.zip spell.outs).length < 2 ^ 32 := by
    rw [List.length_zip]
    exact lt_of_le_of_lt (Nat.min_le_left _ _) short
  have unattached : ∀ item ∈ (step.tx.tx.output.zip spell.outs).zipIdx,
      (middle.attached (step.tx.txoRef item.2)).get? .charms = none := by
    intro item _
    exact plain _ rfl
  apply (produced_yields (TransactionWithId.nodup_txoRefs small) unattached listed).mono
  intro _ after final
  refine ⟨?_, final.2.2.same ?_ ?_⟩
  · intro ref hash
    rw [charmsAt_place started extracted hash]
    cases found : (step.tx.tx.output.zip spell.outs)[ref.txoIndex.toNat]? with
    | some item =>
        have filedHere := final.2.1 (item, ref.txoIndex.toNat)
          (List.mem_zipIdx_iff_getElem?.mpr found)
        rw [TransactionWithId.txoRef_txoIndex hash] at filedHere
        exact filedHere
    | none =>
        rw [final.1 ref (TransactionWithId.ne_txoRef small found), plain ref hash]
        rfl
  · intro key
    rw [(files_iff started short extracted).1]
  · intro key
    rw [(files_iff started short extracted).2]

theorem processTx_yields (filed : CharmsFiled indexer past state.cells)
    (called : Called .charms past tx resolve state) (point : Point) (blockIndex : Nat)
    (network : Network) (monotone : ∀ step ∈ past, step.point.height ≤ point.height)
    (step : IndexedTx) (place : step.point = point) (own : step.tx = tx) :
    (indexer.processTx tx blockIndex ⟨point, network, resolve⟩).Yields (fun _ after =>
      (∀ ref, ref.txHash = tx.txId →
        (after.attached ref).get? .charms = (indexer.charmsAt step ref).map encode) ∧
      CharmsListed after.cells
        (fun key => (indexer.scriptIndex.Holds past key ∧
          ¬ (key.txoRef ∈ tx.spends ∧ indexer.scriptIndex.Live past key)) ∨
            indexer.scriptIndex.files step key)
        (fun key => (indexer.appIndex.Holds past key ∧
          ¬ (key.txoRef ∈ tx.spends ∧ indexer.appIndex.Live past key)) ∨
            indexer.appIndex.files step key)) state := by
  subst place own
  have plain (ref : TxoRef) (hash : ref.txHash = step.tx.txId) :
      (state.attached ref).get? .charms = none :=
    called.plain ref (by rw [hash]; exact called.fresh)
  simp only [processTx]
  by_cases early : step.point.height < indexer.startHeight
  · rw [if_pos early]
    refine ⟨?_, filed.listed_early monotone early⟩
    intro ref hash
    rw [charmsAt_none (Or.inl early), plain ref hash]
    rfl
  · rw [if_neg early]
    simp only [Script.bind_eq]
    apply (filed.removes called step.point network).bind
    intro _ middle done
    cases extracted : indexer.extractAndVerifySpell step.tx.tx with
    | none =>
        have idle (key : OwnedUtxoKey) :=
          @not_files indexer step (fun ref => charmsAt_none (Or.inr extracted)) key
        refine ⟨?_, done.2.same ?_ ?_⟩
        · intro ref hash
          rw [done.1, charmsAt_none (Or.inr extracted), plain ref hash]
          rfl
        · intro key
          simp only [(idle key).1, or_false]
        · intro key
          simp only [(idle key).2, or_false]
    | some spell =>
        apply spell_yields early called.valid.small extracted _ done.2
        intro ref hash
        rw [done.1]
        exact plain ref hash

end CharmsFiled

namespace CharmsIndexer

variable {indexer : CharmsIndexer} {tx : TransactionWithId} {refs : TxoRef → Prop}

/-- What the indexer writes and attaches for a transaction. -/
def footprint (tx : TransactionWithId) : Footprint :=
  .own .charms (OwnedRaw [scriptTable, appTable]) (fun ref => ref.txHash = tx.txId)

theorem consume_within (utxo : Utxo) (ref : TxoRef) : (consume utxo ref).Within (footprint tx) := by
  rw [consume]
  split
  · trivial
  · apply (Script.within_lift _ _).bind
    intro charms
    split
    · trivial
    · exact (scriptTable.delete_within _).bind (fun _ => appTable.deleteAll_within _)

theorem consumed_within (ctx : TxContext) (inputs : List TxIn) :
    (consumed ctx inputs).Within (footprint tx) := by
  induction inputs with
  | nil => trivial
  | cons input inputs ih =>
      rw [consumed]
      split
      · exact ih
      · split
        · exact ih
        · exact (consume_within _ _).bind (fun _ => ih)

theorem produce_within (script : ScriptPubKey) (height : BlockHeight) (index : Nat)
    (charms : UtxoCharms) : (produce script height (tx.txoRef index) charms).Within (footprint tx) := by
  refine ⟨⟨rfl, rfl⟩, ?_⟩
  have inScripts : scriptTable ∈ [scriptTable, appTable] := List.mem_cons_self
  have inApps : appTable ∈ [scriptTable, appTable] := List.mem_cons_of_mem _ List.mem_cons_self
  exact (scriptTable.insert_within inScripts _).bind (fun _ => appTable.setAll_within inApps _)

theorem produced_within (spell : Spell) (height : BlockHeight)
    (outputs : List ((TxOut × List (U32 × List BigEndian.Byte)) × Nat)) :
    (produced spell tx height outputs).Within (footprint tx) := by
  induction outputs with
  | nil => trivial
  | cons item outputs ih =>
      obtain ⟨⟨output, charms⟩, index⟩ := item
      rw [produced]
      split
      · exact ih
      · exact (produce_within _ _ _ _).bind (fun _ => ih)

theorem processTx_within (blockIndex : Nat) (ctx : TxContext) :
    (indexer.processTx tx blockIndex ctx).Within (footprint tx) := by
  rw [processTx]
  split
  · trivial
  · apply (consumed_within ctx tx.tx.input).bind
    intro _
    split
    · trivial
    · exact produced_within _ _ _

end CharmsIndexer

section Rule

open CharmsIndexer CharmsFiled

def CharmsGood (indexer : CharmsIndexer) (past : List IndexedTx) (cells : RawKey → Cell) : Prop :=
  InOrder past → CharmsFiled indexer past cells

theorem charms_rule (indexer : CharmsIndexer) :
    TxRule .charms indexer.processTx (CharmsGood indexer) := by
  constructor
  · intro past cells other same good ordered
    have filed := good ordered
    refine ⟨filed.distinct, filed.attached, filed.listed.scripts.congr ?_, filed.listed.apps.congr ?_⟩
    · intro key
      exact same _ (scriptTable.owns_raw key)
    · intro key
      exact same _ (appTable.owns_raw key)
  · intro _
    refine ⟨List.nodup_nil, by simp, ?_, ?_⟩
    · intro key _
      exact ⟨fun inside => absurd inside OutputIndex.not_holds_nil, fun _ => rfl⟩
    · intro key _
      exact ⟨fun inside => absurd inside OutputIndex.not_holds_nil, fun _ => rfl⟩
  · intro past point blockIndex tx network resolve state good called
    have apart : (indexer.processTx tx blockIndex ⟨point, network, resolve⟩).Yields
        (fun _ after => ∀ ref, ref.txHash ≠ tx.txId →
          (after.attached ref).get? .charms = (state.attached ref).get? .charms) state := by
      have within := @processTx_within indexer tx blockIndex ⟨point, network, resolve⟩
      apply (within.yields Footprint.own_allows state).mono
      intro _ after settled ref other
      rw [settled.attached ref other]
    by_cases ordered : InOrder (⟨point, blockIndex, tx, fun _ => IndexMap.empty⟩ :: past)
    · have parts := List.pairwise_cons.mp ordered
      have monotone : ∀ step ∈ past, step.point.height ≤ point.height :=
        fun step member => (parts.1 step member).height_le
      have filed := good parts.2
      apply ((filed.processTx_yields called point blockIndex network monotone
        ⟨point, blockIndex, tx, fun _ => IndexMap.empty⟩ rfl rfl).and apart).mono
      intro _ after done
      refine ⟨?_, done.2⟩
      intro attached own _
      exact filed.cons called.fresh (fun ref hash => (own ref hash).trans (done.1.1 ref hash)) done.1.2
    · apply apart.mono
      intro _ after same
      refine ⟨?_, same⟩
      intro attached _ above
      apply absurd _ ordered
      exact List.pairwise_cons.mpr (List.pairwise_cons.mp above)

end Rule

namespace CharmsIndexer

variable (indexer : CharmsIndexer) (txs : List IndexedTx)

/-- The reference names an output that is filed at the height under the script, and that the UTXO
set leaves out or that has no charm with an app. -/
def StaleScript (script : ScriptPubKey) (height : BlockHeight) (ref : TxoRef) : Prop :=
  ∃ step ∈ txs, step.point.height = height ∧ ∃ output charms,
    step.tx.outputAt ref = some output ∧ output.scriptPubkey = script ∧
      indexer.charmsAt step ref = some charms ∧ (isOpReturn script = true ∨ charms = [])

/-- The reference names an OP_RETURN output that is filed at the height under the app. -/
def StaleApp (app : List BigEndian.Byte) (height : BlockHeight) (ref : TxoRef) : Prop :=
  ∃ step ∈ txs, step.point.height = height ∧ ∃ output charms,
    step.tx.outputAt ref = some output ∧ isOpReturn output.scriptPubkey = true ∧
      indexer.charmsAt step ref = some charms ∧ ∃ charm ∈ charms, charm.1 = app

variable {indexer txs}

theorem creates_iff {tx : TransactionWithId} {ref : TxoRef} {output : TxOut}
    (named : tx.outputAt ref = some output) :
    tx.creates ref = some output ↔ isOpReturn output.scriptPubkey = false := by
  rw [TransactionWithId.creates_eq, named, Option.filter_eq_some_iff]
  simp

theorem stuck_script {script : ScriptPubKey} {height : BlockHeight} {ref : TxoRef} :
    indexer.scriptIndex.Stuck txs ⟨script, height, ref⟩ ↔ indexer.StaleScript txs script height ref := by
  constructor
  · rintro ⟨step, member, ⟨output, charms, named, owner, place, found⟩, kept⟩
    refine ⟨step, member, place.symm, output, charms, named, owner.symm, found, ?_⟩
    by_contra fine
    rw [not_or] at fine
    apply kept
    refine ⟨output, charms, (creates_iff named).mpr ?_, owner, place, found, fine.2⟩
    rw [← owner]
    exact Bool.eq_false_iff.mpr fine.1
  · rintro ⟨step, member, place, output, charms, named, owner, found, stale⟩
    refine ⟨step, member, ⟨output, charms, named, owner.symm, place.symm, found⟩, ?_⟩
    rintro ⟨other, charms', created, _, _, found', some⟩
    have same := named
    rw [TransactionWithId.creates_eq, Option.filter_eq_some_iff, named, Option.some.injEq] at created
    rcases stale with plain | none
    · rw [← created.1, owner, plain] at created
      cases created.2
    · rw [found, Option.some.injEq] at found'
      exact some (found' ▸ none)

theorem stuck_app {app : List BigEndian.Byte} {height : BlockHeight} {ref : TxoRef} :
    indexer.appIndex.Stuck txs ⟨app, height, ref⟩ ↔ indexer.StaleApp txs app height ref := by
  have inside (charms : UtxoCharms) (step : IndexedTx) :
      (⟨app, height, ref⟩ : OwnedUtxoKey) ∈ appKeys charms step.point.height ref ↔
        step.point.height = height ∧ ∃ charm ∈ charms, charm.1 = app := by
    simp only [appKeys, List.mem_map, OwnedUtxoKey.mk.injEq]
    tauto
  constructor
  · rintro ⟨step, member, ⟨charms, found, filed⟩, kept⟩
    obtain ⟨output, named⟩ := Option.isSome_iff_exists.mp (charmsAt_some found).2.1
    rw [inside] at filed
    refine ⟨step, member, filed.1, output, charms, named, ?_, found, filed.2⟩
    by_contra plain
    apply kept
    refine ⟨?_, charms, found, (inside charms step).mpr filed⟩
    rw [(creates_iff named).mpr (Bool.eq_false_iff.mpr plain)]
    rfl
  · rintro ⟨step, member, place, output, charms, named, plain, found, listed⟩
    refine ⟨step, member, ⟨charms, found, (inside charms step).mpr ⟨place, listed⟩⟩, ?_⟩
    rintro ⟨creates, _⟩
    rw [TransactionWithId.creates_eq, named, Option.filter_some, if_neg (by simp [plain])] at creates
    cases creates

end CharmsIndexer

section Reads

open CharmsIndexer

variable {indexer : CharmsIndexer} {history : History} {machine : Machine}

theorem Records.charmsFiled (records : Records (CharmsGood indexer) history machine)
    (fits : history.blocks.length < 2 ^ 64) :
    CharmsFiled indexer (chainTxs history.blocks) machine.stage.db.db.view :=
  records.good (records.numbered.inOrder fits).1

theorem Records.charms_script (records : Records (CharmsGood indexer) history machine)
    (fits : history.blocks.length < 2 ^ 64) {script : ScriptPubKey} (short : script.length < 2 ^ 64)
    (height : BlockHeight) (ref : TxoRef) :
    ((machine.stage.db.reader Timestamp.latest).get CharmsUtxosByScriptKV ⟨script, height, ref⟩ =
        .ok (some ()) ↔
      ∃ utxo charms, (machine.stage.db.reader Timestamp.latest).get UtxoByTxoRefKV ref =
        .ok (some utxo) ∧ utxo.script = script ∧ utxo.height = height ∧ HasCharms utxo charms ∧
          charms ≠ []) ↔
      ¬ indexer.StaleScript (chainTxs history.blocks) script height ref := by
  have filed := records.charmsFiled fits
  have listed : (machine.stage.db.reader Timestamp.latest).get CharmsUtxosByScriptKV
      ⟨script, height, ref⟩ = .ok (some ()) ↔
        indexer.scriptIndex.Holds (chainTxs history.blocks) ⟨script, height, ref⟩ := by
    have read := @Lists.read scriptTable _ ⟨script, height, ref⟩ machine.stage.db
      filed.listed.scripts short
    exact read
  have held := records.stores.read ref
  rw [← unspentAfter_chainTxs] at held
  rw [listed, held, ← stuck_script, ← OutputIndex.not_stuck_iff filed.distinct, filed.live_script]
  simp only [ScriptKey, OwnedUtxoKey.mk.injEq, Except.ok.injEq, and_true]
  have same (utxo : Utxo) : (∃ charms, HasCharms utxo charms ∧ charms ≠ [] ∧ script = utxo.script ∧
      height = utxo.height) ↔ ∃ charms, utxo.script = script ∧ utxo.height = height ∧
        HasCharms utxo charms ∧ charms ≠ [] := by
    apply exists_congr
    intro charms
    rw [eq_comm, @eq_comm _ height]
    tauto
  simp only [same, exists_and_left]

theorem Records.charms_app (records : Records (CharmsGood indexer) history machine)
    (fits : history.blocks.length < 2 ^ 64) {app : List BigEndian.Byte} (short : app.length < 2 ^ 64)
    (height : BlockHeight) (ref : TxoRef) :
    ((machine.stage.db.reader Timestamp.latest).get CharmsUtxosByAppKV ⟨app, height, ref⟩ =
        .ok (some ()) ↔
      ∃ utxo charms, (machine.stage.db.reader Timestamp.latest).get UtxoByTxoRefKV ref =
        .ok (some utxo) ∧ utxo.height = height ∧ HasCharms utxo charms ∧
          ∃ charm ∈ charms, charm.1 = app) ↔
      ¬ indexer.StaleApp (chainTxs history.blocks) app height ref := by
  have filed := records.charmsFiled fits
  have listed : (machine.stage.db.reader Timestamp.latest).get CharmsUtxosByAppKV
      ⟨app, height, ref⟩ = .ok (some ()) ↔
        indexer.appIndex.Holds (chainTxs history.blocks) ⟨app, height, ref⟩ := by
    have read := @Lists.read appTable _ ⟨app, height, ref⟩ machine.stage.db filed.listed.apps short
    exact read
  have held := records.stores.read ref
  rw [← unspentAfter_chainTxs] at held
  rw [listed, held, ← stuck_app, ← OutputIndex.not_stuck_iff filed.distinct, filed.live_app]
  simp only [AppKey, appKeys, List.mem_map, OwnedUtxoKey.mk.injEq, Except.ok.injEq, and_true]
  have same (utxo : Utxo) : (∃ charms, HasCharms utxo charms ∧ ∃ charm ∈ charms, charm.1 = app ∧
      utxo.height = height) ↔ ∃ charms, utxo.height = height ∧ HasCharms utxo charms ∧
        ∃ charm ∈ charms, charm.1 = app := by
    apply exists_congr
    intro charms
    constructor
    · rintro ⟨has, charm, member, own, place⟩
      exact ⟨place, has, charm, member, own⟩
    · rintro ⟨place, has, charm, member, own⟩
      exact ⟨has, charm, member, own, place⟩
  simp only [same, exists_and_left]

end Reads

/-- Each output of a coinbase carries a charm of the app `a`; the transaction that spends it names
an app that does not exist, the one after that spends this output and names `a` again. -/
def charmsOfSpends : CharmsIndexer where
  startHeight := 0
  extractAndVerifySpell tx := some
    { apps := [[97]]
      outs := if tx.input = [⟨⟨txIdOf 1, 0⟩, []⟩] then [[(5, [1])]] else [[(0, [1])], [(0, [1])]]
      beamedOuts := none
      apps_lt := by decide
      outs_lt := by
        split
        · decide
        · decide }

end Symphony
