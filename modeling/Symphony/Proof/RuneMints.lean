import Symphony.Proof.RuneSupply

/-! Mints follow the terms of the etching.

The terms of an etching are folded into the two heights of its entry; here they are read off the
transaction that etched the rune, and the attempts off those after it. -/

namespace Symphony

open Encdec
open RunesIndexer
open VersionedLog (Increasing)

structure Terms.Admits (terms : Terms) (etching height earlier : Nat) : Prop where
  opened : ∀ offset ∈ terms.offset.1, min (etching + offset.toNat) (2 ^ 64 - 1) ≤ height
  above : ∀ start ∈ terms.height.1, start.toNat ≤ height
  open_ : ∀ offset ∈ terms.offset.2, height < min (etching + offset.toNat) (2 ^ 64 - 1)
  below : ∀ stop ∈ terms.height.2, height < stop.toNat
  capped : earlier < (terms.cap.getD 0).toNat

instance (terms : Terms) (etching height earlier : Nat) :
    Decidable (terms.Admits etching height earlier) :=
  decidable_of_iff
    ((∀ offset ∈ terms.offset.1, min (etching + offset.toNat) (2 ^ 64 - 1) ≤ height) ∧
      (∀ start ∈ terms.height.1, start.toNat ≤ height) ∧
      (∀ offset ∈ terms.offset.2, height < min (etching + offset.toNat) (2 ^ 64 - 1)) ∧
      (∀ stop ∈ terms.height.2, height < stop.toNat) ∧ earlier < (terms.cap.getD 0).toNat)
    ⟨fun ⟨opened, above, open_, below, capped⟩ => ⟨opened, above, open_, below, capped⟩,
      fun admits => ⟨admits.opened, admits.above, admits.open_, admits.below, admits.capped⟩⟩

def Artifact.terms : Artifact → Option Terms
  | .runestone stone => stone.etching.bind Etching.terms
  | .cenotaph _ => none

def mintUnder (terms : Option Terms) (etching height earlier : Nat) : Option U128 :=
  (terms.filter (fun terms => terms.Admits etching height earlier)).map
    (fun terms => terms.amount.getD 0)

/-- How many mints of a rune went through in the transactions after its etching, newest first. -/
def mintCount (ordinals : Ordinals) (terms : Option Terms) (etching : Nat) (id : RuneId) :
    List IndexedTx → Nat
  | [] => 0
  | step :: later =>
      let earlier := mintCount ordinals terms etching id later
      if (ordinals.decipher step.tx.tx).bind Artifact.mint = some id ∧
        (mintUnder terms etching step.point.height.toNat earlier).isSome then earlier + 1 else earlier

section Bounds

variable {height : BlockHeight} {relative absolute : Option U64}

theorem toNat_heightAfter (height offset : U64) :
    (heightAfter height offset).toNat = min (height.toNat + offset.toNat) (2 ^ 64 - 1) := by
  rw [heightAfter]
  split
  · rw [BitVec.toNat_add, Nat.mod_eq_of_lt (by assumption)]
    omega
  · rw [u64Max, BitVec.toNat_allOnes]
    omega

theorem start_reached : (foldBounds (fun first second => if first ≤ second then second else first)
      relative absolute).any (fun start => height < start) = false ↔
    (∀ start ∈ relative, start ≤ height) ∧ ∀ start ∈ absolute, start ≤ height := by
  have later (first second : U64) : (if first ≤ second then second else first) ≤ height ↔
      first ≤ height ∧ second ≤ height := by
    simp only [BitVec.le_def]
    split
    · omega
    · omega
  cases relative with
  | none => cases absolute <;> simp [foldBounds]
  | some first => cases absolute <;> simp [foldBounds, later]

theorem end_ahead : (foldBounds (fun first second => if first ≤ second then first else second)
      relative absolute).any (fun stop => stop ≤ height) = false ↔
    (∀ stop ∈ relative, height < stop) ∧ ∀ stop ∈ absolute, height < stop := by
  have earlier (first second : U64) : height < (if first ≤ second then first else second) ↔
      height < first ∧ height < second := by
    simp only [BitVec.le_def, BitVec.lt_def]
    split
    · omega
    · omega
  cases relative with
  | none => cases absolute <;> simp [foldBounds]
  | some first => cases absolute <;> simp [foldBounds, earlier]

end Bounds

theorem admits_iff (terms : Terms) (etching height : BlockHeight) (mints : U128) :
    terms.Admits etching.toNat height.toNat mints.toNat ↔
      (runeTerms terms etching).startHeight.any (fun start => height < start) = false ∧
      (runeTerms terms etching).endHeight.any (fun stop => stop ≤ height) = false ∧
      ¬ (runeTerms terms etching).cap.getD 0 ≤ mints := by
  simp only [runeTerms, start_reached, end_ahead]
  simp only [Option.forall_mem_map, BitVec.le_def, BitVec.lt_def, toNat_heightAfter, not_le]
  constructor
  · intro admits
    exact ⟨⟨admits.opened, admits.above⟩, ⟨admits.open_, admits.below⟩, admits.capped⟩
  · rintro ⟨⟨opened, above⟩, ⟨open_, below⟩, capped⟩
    exact ⟨opened, above, open_, below, capped⟩

theorem RuneState.mint_entered {runes : RuneState} {id : RuneId} {artifact : Artifact} {txId : Txid}
    {name : Rune} {etching : BlockHeight} {info : RuneInfo} (known : runes.infos id = some info)
    (entered : runeInfo artifact txId name etching = .ok info) (height : BlockHeight) :
    runes.mint id height =
      mintUnder artifact.terms etching.toNat height.toNat (runes.mintsOf id).toNat := by
  have terms : info.terms = artifact.terms.map (fun terms => runeTerms terms etching) := by
    cases artifact with
    | cenotaph stone =>
        cases entered
        rfl
    | runestone stone =>
        simp only [runeInfo] at entered
        split at entered
        · cases entered
        · rename_i etches found
          cases entered
          rw [Artifact.terms, found, Option.bind_some]
  have mints : (runes.mints id).getD 0 = runes.mintsOf id := rfl
  rw [mint, known, Option.bind_some, terms, mintUnder]
  cases artifact.terms with
  | none => rfl
  | some terms =>
      have iff := admits_iff terms etching height (runes.mintsOf id)
      simp only [Option.map_some, Option.filter_some, mints]
      by_cases admits : terms.Admits etching.toNat height.toNat (runes.mintsOf id).toNat
      · rcases iff.mp admits with ⟨start, stop, capped⟩
        rw [if_neg (by rw [start]; exact Bool.false_ne_true),
          if_neg (by rw [stop]; exact Bool.false_ne_true), if_neg capped,
          if_pos (decide_eq_true admits)]
        rfl
      · simp only [decide_eq_false admits, Bool.false_eq_true, if_false, Option.map_none]
        rw [iff, not_and, not_and, not_not] at admits
        split
        · rfl
        · rename_i start
          split
          · rfl
          · rename_i stop
            rw [if_pos (admits (by simpa using start) (by simpa using stop))]

/-- The entry is that of a transaction of the chain, with those after it. -/
structure Entered (ordinals : Ordinals) (past : List IndexedTx) (id : RuneId) (info : RuneInfo)
    (later : List IndexedTx) (etching : IndexedTx) (artifact : Artifact) : Prop where
  place : ∃ earlier, past = later ++ etching :: earlier
  id_eq : id = etching.runeId
  deciphered : ordinals.decipher etching.tx.tx = some artifact
  asked : artifact.etching.isSome
  entry : runeInfo artifact etching.txId info.name etching.point.height = .ok info

structure MintsCounted (ordinals : Ordinals) (past : List IndexedTx) (runes : RuneState) : Prop where
  unknown : ∀ id, runes.infos id = none → runes.mints id = none
  counted : ∀ id info, runes.infos id = some info → ∃ later etching artifact,
    Entered ordinals past id info later etching artifact ∧
      (runes.mintsOf id).toNat =
        mintCount ordinals artifact.terms etching.point.height.toNat id later

section Counts

variable {indexer : RunesIndexer} {past later : List IndexedTx} {step etching : IndexedTx}
variable {before : RuneState} {id : RuneId} {info : RuneInfo} {artifact : Artifact}

theorem Entered.cons (entered : Entered indexer.ordinals past id info later etching artifact) :
    Entered indexer.ordinals (step :: past) id info (step :: later) etching artifact := by
  rcases entered.place with ⟨earlier, split⟩
  exact ⟨⟨earlier, by rw [split, List.cons_append]⟩, entered.id_eq, entered.deciphered, entered.asked,
    entered.entry⟩

theorem Entered.mintsOf_mintedBy (entered : Entered indexer.ordinals past id info later etching artifact)
    (known : before.infos id = some info)
    (count : (before.mintsOf id).toNat =
      mintCount indexer.ordinals artifact.terms etching.point.height.toNat id later) :
    ((before.mintedBy step.point.height (indexer.ordinals.decipher step.tx.tx)).mintsOf id).toNat =
      mintCount indexer.ordinals artifact.terms etching.point.height.toNat id (step :: later) := by
  rw [RuneState.mintedBy, mintCount]
  cases asked : (indexer.ordinals.decipher step.tx.tx).bind Artifact.mint with
  | none =>
      rw [if_neg (fun both => Option.some_ne_none id both.1.symm)]
      exact count
  | some other =>
      simp only [RuneState.mintsOf_minted, Option.some.injEq]
      by_cases same : other = id
      · subst same
        rw [RuneState.mint_entered known entered.entry, count]
        simp only [true_and]
        split
        · rfl
        · rfl
      · rw [if_neg (fun both => same both.1.symm), if_neg (fun both => same both.1), count, Nat.add_zero]

theorem MintsCounted.mints_mintedBy (counts : MintsCounted indexer.ordinals past before)
    (unknown : before.infos id = none) (height : BlockHeight) (asked : Option Artifact) :
    (before.mintedBy height asked).mints id = none := by
  rw [RuneState.mintedBy]
  cases asked.bind Artifact.mint with
  | none => exact counts.unknown id unknown
  | some other =>
      simp only [RuneState.minted]
      cases minted : before.mint other height with
      | none => exact counts.unknown id unknown
      | some amount =>
          rcases RuneState.mint_some minted with ⟨info, known, _⟩
          have different : id ≠ other := by
            rintro rfl
            rw [unknown] at known
            cases known
          exact (Function.update_of_ne different _ _).trans (counts.unknown id unknown)

theorem MintsCounted.active (counts : MintsCounted indexer.ordinals past before)
    (call : RuneCall indexer (unspentAfter past) step.point.height step.blockIndex step.tx before)
    (new : ∀ rune, call.etched = some rune → before.infos rune.1 = none) :
    MintsCounted indexer.ordinals (step :: past) call.after := by
  have infos := call.infos_after
  have mints := call.mints_after
  have old (id : RuneId) (info : RuneInfo) (known : before.infos id = some info) :
      ∃ later etching artifact, Entered indexer.ordinals (step :: past) id info later etching artifact ∧
        (call.after.mintsOf id).toNat =
          mintCount indexer.ordinals artifact.terms etching.point.height.toNat id later := by
    rcases counts.counted id info known with ⟨later, etching, artifact, entered, count⟩
    refine ⟨step :: later, etching, artifact, entered.cons, ?_⟩
    rw [RuneState.mintsOf, mints]
    exact entered.mintsOf_mintedBy known count
  cases etches : call.etched with
  | none =>
      rw [etches] at infos
      constructor
      · intro id unknown
        rw [infos] at unknown
        rw [mints]
        exact counts.mints_mintedBy unknown _ _
      · intro id info known
        rw [infos] at known
        exact old id info known
  | some rune =>
      rcases rune with ⟨id, name, info⟩
      have fresh := new _ etches
      rw [etches] at infos
      simp only at infos fresh
      constructor
      · intro other unknown
        rw [mints]
        apply counts.mints_mintedBy
        rw [infos] at unknown
        by_cases same : other = id
        · rw [same, Function.update_self] at unknown
          cases unknown
        · rw [Function.update_of_ne same] at unknown
          exact unknown
      · intro other info' known
        rw [infos] at known
        by_cases same : other = id
        · subst same
          rw [Function.update_self, Option.some.injEq] at known
          subst known
          rcases call.etched_by etches with ⟨etched, _⟩
          rcases etched.entry with ⟨artifact, deciphered, asked, entry⟩
          refine ⟨[], step, artifact, ⟨⟨past, rfl⟩, etched.id_eq, deciphered, asked, entry⟩, ?_⟩
          rw [RuneState.mintsOf, mints, counts.mints_mintedBy fresh, mintCount]
          rfl
        · rw [Function.update_of_ne same] at known
          exact old other info' known

end Counts

theorem RuneRun.mintsCounted {indexer : RunesIndexer} {past : List IndexedTx} {runes : RuneState}
    (run : RuneRun indexer past runes) : MintsCounted indexer.ordinals past runes := by
  induction run with
  | nil =>
      constructor
      · intro _ _
        rfl
      · intro id info impossible
        cases impossible
  | @cons past step before after run ordered fresh valid leads ih =>
      cases leads with
      | active call attached => exact ih.active call (run.unknown_etched ordered call)
      | idle early plain =>
          -- nothing was etched so far below the start height
          have nothing (id : RuneId) : before.infos id = none := by
            cases known : before.infos id with
            | none => rfl
            | some info =>
                rcases run.etched known with ⟨etching, member, etched⟩
                have above := ((List.pairwise_cons.mp ordered).1 etching member).height_le
                have started := etched.started
                rw [BitVec.lt_def] at early started
                rw [BitVec.le_def] at above
                omega
          constructor
          · exact ih.unknown
          · intro id info known
            rw [nothing id] at known
            cases known

/-- The two entries of a rune: no mints without an entry, else as many as went through since the
transaction that etched it. -/
def CountsMints (ordinals : Ordinals) (past : List IndexedTx) (id : RuneId) (info : Option RuneInfo)
    (mints : Option U128) : Prop :=
  match info with
  | none => mints = none
  | some info => ∃ later etching artifact, Entered ordinals past id info later etching artifact ∧
      (mints.getD 0).toNat = mintCount ordinals artifact.terms etching.point.height.toNat id later

/-- What a mint of a rune yields at the height: nothing without an entry, else what the terms of its
etching allow after the mints that went through. -/
def FollowsTerms (ordinals : Ordinals) (past : List IndexedTx) (id : RuneId) (info : Option RuneInfo)
    (height : BlockHeight) (outcome : Option U128) : Prop :=
  match info with
  | none => outcome = none
  | some info => ∃ later etching artifact, Entered ordinals past id info later etching artifact ∧
      outcome = mintUnder artifact.terms etching.point.height.toNat height.toNat
        (mintCount ordinals artifact.terms etching.point.height.toNat id later)

theorem MintsCounted.counts {ordinals : Ordinals} {past : List IndexedTx} {runes : RuneState}
    (counted : MintsCounted ordinals past runes) (id : RuneId) :
    CountsMints ordinals past id (runes.infos id) (runes.mints id) := by
  cases known : runes.infos id with
  | none => exact counted.unknown id known
  | some info => exact counted.counted id info known

theorem MintsCounted.follows {ordinals : Ordinals} {past : List IndexedTx} {runes : RuneState}
    (counted : MintsCounted ordinals past runes) (id : RuneId) (height : BlockHeight) :
    FollowsTerms ordinals past id (runes.infos id) height (runes.mint id height) := by
  cases known : runes.infos id with
  | none =>
      have nothing : runes.mint id height = none := by
        rw [RuneState.mint, known]
        rfl
      exact nothing
  | some info =>
      rcases counted.counted id info known with ⟨later, etching, artifact, entered, count⟩
      refine ⟨later, etching, artifact, entered, ?_⟩
      rw [RuneState.mint_entered known entered.entry, count]

/-- After every run of valid blocks, snapshots and rollbacks the table of mints counts, for every
rune with an entry, the attempts since its etching that the terms admitted. Between any two
transactions of what is indexed next, an attempt at any height yields what the terms allow after
these, and counts if it yields something. -/
theorem mints_follow_terms (blockHash : Header → BlockHash) (config : Config)
    (indexer : RunesIndexer) (others : Others .runes) (stage : Stage)
    (events : List (Env × ChainEvent))
    (fresh : Stage.new config (StorageHandler.openDb DB.empty) = .ok stage)
    (fed : ∀ event ∈ events, event.2.Valid (HashedBy blockHash))
    (increasing : Increasing ((Machine.bootstrap (others.with indexer.processTx) stage).run
      events).stage.db.db.log)
    (valid : (Machine.bootstrap (others.with indexer.processTx) stage).uncached.ValidFrom ⟨[], []⟩
      events)
    (fits : ((Machine.bootstrap (others.with indexer.processTx) stage).uncached.history
      events).blocks.length < 2 ^ 64) :
    let machine := Machine.bootstrap (others.with indexer.processTx) stage
    let reader := (machine.run events).stage.db.reader Timestamp.latest
    (∀ id, ∃ info mints, reader.get RuneInfoByIdKV id = .ok info ∧
      reader.get RuneMintsByIdKV id = .ok mints ∧
      CountsMints indexer.ordinals (chainTxs (machine.uncached.history events).blocks) id info
        mints) ∧
    NextPoints (others.with indexer.processTx) config.network (machine.uncached.run events).stage
      (machine.uncached.history events).confirmed (fun point => ∀ id, ∃ info mints,
        point.task.get RuneInfoByIdKV id = .ok info ∧
        point.task.get RuneMintsByIdKV id = .ok mints ∧
        CountsMints indexer.ordinals point.past id info mints ∧
        ∀ height, ∃ outcome after ctx',
          (mint id height).run point.task point.ctx = .ok (outcome, after, ctx') ∧
          FollowsTerms indexer.ordinals point.past id info height outcome ∧
          ∃ mints', after.get RuneMintsByIdKV id = .ok mints' ∧
            (mints'.getD 0).toNat = (mints.getD 0).toNat + if outcome.isSome then 1 else 0) := by
  rw [Stage.new_empty, Except.ok.injEq] at fresh
  subst fresh
  intro machine reader
  have records := (runes_rule indexer).run others (HashedBy blockHash) config events fed valid
    increasing
  constructor
  · rcases records.runeRun fits with ⟨runes, shown, run⟩
    intro id
    exact ⟨runes.infos id, runes.mints id, shown.read_info id, shown.read_mints id,
      run.mintsCounted.counts id⟩
  · apply ((runes_rule indexer).points others (HashedBy blockHash) config events fed valid
      increasing).mono
    intro point midway id
    rcases midway.runeRun with ⟨runes, shown, run⟩
    have counted := run.mintsCounted
    refine ⟨runes.infos id, runes.mints id, shown.get_info id, shown.get_mints id, counted.counts id,
      ?_⟩
    intro height
    have tables : runes.Shown (point.task.tables point.ctx).cells := shown
    rcases (mint_completes tables id height).run midway.served with
      ⟨outcome, after, ctx', ran, _, rfl, done⟩
    have done : (runes.minted id height).Shown after.getRaw := done
    refine ⟨_, after, ctx', ran, counted.follows id height, _, done.get_mints id, ?_⟩
    have count := @RuneState.mintsOf_minted runes id height id
    simp only [true_and] at count
    exact count

/-- The first transaction after the etching took the one mint of the rune. -/
theorem mints_follow_terms_spend :
    let reader := (runesMachine.run spendEvents).stage.db.reader Timestamp.latest
    reader.get RuneMintsByIdKV ⟨1, 0⟩ = .ok (some 1) ∧
    ∀ id, ∃ info mints, reader.get RuneInfoByIdKV id = .ok info ∧
      reader.get RuneMintsByIdKV id = .ok mints ∧
      CountsMints spendOrdinals (chainTxs (runesMachine.uncached.history spendEvents).blocks) id info
        mints := by
  rcases mints_follow_terms mainnetHash (mainnetConfig 2) spendRunes (.alone .runes) _
    spendEvents (Stage.new_empty _) spendEvents_fed runesMachine_run.1 runesMachine_run.2.1
    (Nat.lt_of_succ_lt runesMachine_run.2.2) with ⟨counts, _⟩
  unfold runesMachine
  exact ⟨by decide +kernel, counts⟩

end Symphony
