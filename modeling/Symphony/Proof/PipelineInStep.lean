import Symphony.Proof.CrashSafety
import Symphony.Proof.PullChain

/-! The index stage in step with the pull stage.

The index stage executes the events in the order they were emitted in, however late. While its calls
succeed it stands on the chain of the events it has taken, and the next event goes on from there. -/

namespace Symphony

open Encdec
open VersionedLog (Increasing)

/-- An event that goes on from a chain: a block on its top with the transactions its header stands
for, or a way back to one of its points. -/
def ChainEvent.Fits (blockHash : Header → BlockHash) (known : Header → Prop) (body : Header → BlockTxs)
    (genesis : BlockHash) (chain : List Point) : ChainEvent → Prop
  | .rollForward point header txs _ => KnownAt blockHash known header point ∧ txs = body header ∧
      point.height ≠ u64Max ∧ point.height.toNat = chain.length + 1 ∧
      header.prevBlockhash = (chainTop genesis chain).hash
  | .rollBack point => (point ∈ chain ∨ point = ⟨0, genesis⟩) ∧ point.height ≠ u64Max
  | .mempoolBlocks _ blocks => blocks ≠ []

def EachFits (blockHash : Header → BlockHash) (known : Header → Prop) (body : Header → BlockTxs)
    (genesis : BlockHash) : List Point → List ChainEvent → Prop
  | _, [] => True
  | chain, event :: events => event.Fits blockHash known body genesis chain ∧
      EachFits blockHash known body genesis (event.apply chain) events

/-- The node's blocks have the transactions their headers stand for, and leave room above them. -/
structure Peer.Whole (body : Header → BlockTxs) (peer : Peer) : Prop where
  bodies : ∀ block ∈ peer.active, block.txs = body block.header
  room : peer.active.length + 1 < 2 ^ 64

section Fits

variable {blockHash : Header → BlockHash} {known : Header → Prop} {body : Header → BlockTxs}
variable {genesis : BlockHash} {chain : List Point}

theorem eachFits_append {first second : List ChainEvent} :
    EachFits blockHash known body genesis chain (first ++ second) ↔
      EachFits blockHash known body genesis chain first ∧
        EachFits blockHash known body genesis (emittedChain chain first) second := by
  induction first generalizing chain with
  | nil => simp [EachFits, emittedChain]
  | cons event events ih =>
      rw [List.cons_append, EachFits, EachFits, ih, and_assoc]
      rfl

theorem ChainEvent.Fits.valid {event : ChainEvent}
    (fits : event.Fits blockHash known body genesis chain) :
    event.Valid (KnownAt blockHash known) := by
  cases event with
  | rollForward point header txs tip => exact ⟨fits.1, fits.2.2.1⟩
  | rollBack point => exact fits.2
  | mempoolBlocks info blocks => exact fits

variable {stage : PullStage} {peer : Peer}

theorem fits_rollForwards (honest : peer.Honest blockHash stage known) (whole : peer.Whole body)
    {height : BlockHeight} {tip : Point} {blocks : List NodeBlock}
    (page : blocks <+: peer.active.drop height.toNat) :
    EachFits blockHash known body stage.genesisHash (peer.chain blockHash height.toNat)
      (rollForwards blockHash (height + 1) tip blocks).1 := by
  induction blocks generalizing height tip with
  | nil => trivial
  | cons block blocks ih =>
      rcases page with ⟨rest, listed⟩
      have inside : height.toNat < peer.active.length := by
        have lengths := congrArg List.length listed
        rw [List.length_append, List.length_cons, List.length_drop] at lengths
        omega
      rw [List.drop_eq_getElem_cons inside, List.cons_append, List.cons.injEq] at listed
      have room := whole.room
      have one : (1 : U64).toNat = 1 := rfl
      have next : (height + 1).toNat = height.toNat + 1 := by
        rw [BitVec.toNat_add, one, Nat.mod_eq_of_lt (by omega)]
      have point : (⟨1 + BitVec.ofNat 64 height.toNat, blockHash (peer.active[height.toNat]).header⟩ :
          Point) = ⟨height + 1, blockHash block.header⟩ := by
        rw [BitVec.ofNat_toNat, BitVec.setWidth_eq, BitVec.add_comm, ← listed.1]
      have member : block ∈ peer.active := by
        rw [listed.1]
        exact List.getElem_mem inside
      have top := @Peer.chain_hash blockHash stage _ _ inside.le
      have parent := congrArg (fun hashes => hashes[height.toNat]?) honest.linked.parents
      have last : height.toNat < (peer.hashes blockHash stage).length - 1 := by
        rw [Peer.hashes, List.length_cons, List.length_map]
        exact inside
      rw [List.getElem?_map, List.getElem?_eq_getElem inside, List.getElem?_dropLast, if_pos last, top,
        Option.map_some, Option.some.injEq, ← listed.1] at parent
      refine ⟨⟨⟨honest.known block member, rfl⟩, whole.bodies block member, ?_, ?_, parent⟩, ?_⟩
      · intro full
        have number := congrArg BitVec.toNat full
        rw [next, show u64Max.toNat = 2 ^ 64 - 1 from rfl] at number
        omega
      · rw [Peer.length_chain inside.le, next]
      · have grown : peer.chain blockHash (height + 1).toNat =
            ⟨height + 1, blockHash block.header⟩ :: peer.chain blockHash height.toNat := by
          rw [next, Peer.chain_succ inside, point]
        rw [ChainEvent.apply, ← grown]
        apply ih
        rw [next]
        exact ⟨rest, listed.2⟩

theorem fits_rollBackTo {cursor : List Point} {target : Point}
    (inside : target ∈ chain ∨ target = ⟨0, genesis⟩) (low : target.height ≠ u64Max) :
    EachFits blockHash known body genesis chain (rollBackTo cursor target) := by
  rw [rollBackTo]
  split
  · trivial
  · split
    · exact ⟨⟨inside, low⟩, trivial⟩
    · trivial

end Fits

section Fetch

variable {blockHash : Header → BlockHash} {stage : PullStage} {known : Header → Prop}
variable {body : Header → BlockTxs} {origin : List Point} {pipeline next : Pipeline} {peer : Peer}

def Peer.page (stage : PullStage) (peer : Peer) (target : Point) : List NodeBlock :=
  ((peer.active.drop target.height.toNat).take peer.limit).take stage.blockPageSize

theorem Peer.page_prefix (target : Point) :
    peer.page stage target <+: peer.active.drop target.height.toNat :=
  (List.take_prefix _ _).trans (List.take_prefix _ _)

theorem Following.fetched (following : Following blockHash stage known origin pipeline)
    (honest : peer.Honest blockHash stage known)
    (tell : HashesTell (KnownAt blockHash known) stage.genesisHash)
    (away : NotReturned blockHash stage origin pipeline peer)
    (stepped : pipeline.fetch blockHash stage peer = some next) :
    ∃ target : Point, pipeline.worker.cursor.find?
        (fun point => decide (point.hash ∈ peer.hashes blockHash stage)) = some target ∧
      (target ∈ emittedChain origin pipeline.emitted ∨ target = ⟨0, stage.genesisHash⟩) ∧
      ((peer.active.length ≤ target.height.toNat ∧ next = pipeline) ∨
        (target.height.toNat < peer.active.length ∧ ∃ worker,
          next = { pipeline.emit (rollBackTo pipeline.worker.cursor target ++ (rollForwards blockHash
              (target.height + 1) pipeline.worker.tip (peer.page stage target)).1) with
            worker
            seen := pipeline.machine.stage.db.db
            floor := (assignHeights blockHash (target.height + 1) (peer.page stage target)).head?.map
              Point.height })) := by
  rcases following.chosen honest tell away with ⟨target, chosen, member, active, served⟩
  refine ⟨target, chosen, following.inside away member active, ?_⟩
  rcases Pipeline.fetch_ok stepped with ⟨events, worker, success, rest⟩
  by_cases more : target.height.toNat < peer.active.length
  · refine Or.inr ⟨more, worker, ?_⟩
    rcases PullWorker.fetch_cases success with
      ⟨none, _, _⟩ | ⟨first, later, height, headers, found, _, emitted⟩
    · have serves := honest.linked.serves
      have lengths := congrArg List.length (none.symm.trans served)
      rw [List.length_nil, List.length_take, List.length_drop] at lengths
      omega
    · rcases following.parent honest tell away chosen headers more with ⟨parent, height_eq⟩
      rw [found, Option.some.injEq] at height_eq
      have page : (first :: later).take stage.blockPageSize = peer.page stage target := by
        rw [Peer.page, ← served, headers]
      rw [parent, height_eq, page] at emitted
      rcases rest with ⟨none, _⟩ | ⟨_, same⟩
      · rw [headers] at none
        cases none
      · rw [same, emitted, List.filterMap_append, forwardHeight_rollBackTo, forwardHeights,
          List.nil_append, List.head?_map]
  · refine Or.inl ⟨by omega, ?_⟩
    rw [List.drop_of_length_le (by omega), List.take_nil] at served
    rcases PullWorker.fetch_cases success with ⟨_, rfl, rfl⟩ | ⟨first, later, _, headers, _⟩
    · rcases rest with ⟨_, rfl⟩ | ⟨some, _⟩
      · simp only [Pipeline.emit, List.append_nil]
      · exact absurd served some
    · rw [served] at headers
      cases headers

theorem Following.fetched_chain (following : Following blockHash stage known origin pipeline)
    (honest : peer.Honest blockHash stage known)
    (tell : HashesTell (KnownAt blockHash known) stage.genesisHash) {target : Point}
    (listed : target ∈ pipeline.worker.cursor) (active : target.hash ∈ peer.hashes blockHash stage)
    (inside : target ∈ emittedChain origin pipeline.emitted ∨ target = ⟨0, stage.genesisHash⟩)
    (sized : stage.blockPageSize ≠ 0) :
    emittedChain (emittedChain origin pipeline.emitted) (rollBackTo pipeline.worker.cursor target) =
        peer.chain blockHash target.height.toNat ∧
      emittedChain (emittedChain origin pipeline.emitted) (rollBackTo pipeline.worker.cursor target ++
          (rollForwards blockHash (target.height + 1) pipeline.worker.tip (peer.page stage target)).1) =
        peer.chain blockHash (target.height.toNat + (peer.page stage target).length) := by
  have bound := (honest.below tell following.linked inside active).1
  have based : emittedChain (emittedChain origin pipeline.emitted)
      (rollBackTo pipeline.worker.cursor target) = peer.chain blockHash target.height.toNat := by
    rcases honest.rolled tell following.linked inside active listed with ⟨kept, same⟩ | moved
    · rw [kept]
      exact same (following.top sized)
    · exact moved
  refine ⟨based, ?_⟩
  rw [emittedChain_append, based, emittedChain_rollForwards,
    Peer.chain_page bound (Peer.page_prefix target)]

end Fetch

def Life.moved (life : Life) (pipeline : Pipeline) : Move → Life
  | .index env => pipeline.queue.head?.elim life (fun event => life.called env event)
  | .fetch _ => life
  | .template _ _ => life

/-- The index stage stands on the chain of the events it has taken off the queue. -/
structure InStep (blockHash : Header → BlockHash) (stage : PullStage) (known : Header → Prop)
    (body : Header → BlockTxs) (config : Config) (indexers : List Indexer) (origin : List Point)
    (pipeline : Pipeline) (life : Life) : Prop where
  following : Following blockHash stage known origin pipeline
  machine : life.machine = pipeline.machine
  sound : life.Sound (KnownAt blockHash known) config indexers
  fits : EachFits blockHash known body stage.genesisHash origin pipeline.emitted
  taken : ∃ taken, pipeline.emitted = taken ++ pipeline.queue ∧
    life.history.confirmed.map IndexedBlock.point = emittedChain origin taken
  bodies : ∀ content ∈ life.history.chain, ∃ header,
    KnownAt blockHash known header content.1 ∧ content.2 = body header
  seen : ∃ chain, HoldsChain pipeline.seen chain ∧
    Linked (KnownAt blockHash known) stage.genesisHash chain
  floor : ∀ first, pipeline.floor = some first →
    first.toNat ≤ (emittedChain origin pipeline.emitted).length

theorem Life.Sound.holds {names : Header → Point → Prop} {config : Config} {indexers : List Indexer}
    {life : Life} (sound : life.Sound names config indexers) :
    HoldsChain life.machine.stage.db.db (life.history.confirmed.map IndexedBlock.point) ∧
      Linked names config.genesisHash (life.history.confirmed.map IndexedBlock.point) ∧
      life.tip = chainTop config.genesisHash (life.history.confirmed.map IndexedBlock.point) := by
  rcases sound.chronicle UtxosIndexed (utxosIndexed_invariant indexers config.network) with
    ⟨_, chronicle⟩
  have inv := chronicle.chain
  exact ⟨⟨inv.linked.contiguous, inv.tables.hashes⟩, inv.linked, inv.tip⟩

section Step

variable {blockHash : Header → BlockHash} {stage : PullStage} {known : Header → Prop}
variable {body : Header → BlockTxs} {config : Config} {indexers : List Indexer} {origin : List Point}
variable {pipeline next : Pipeline} {life : Life} {peer : Peer}

theorem emittedChain_emit (events : List ChainEvent) :
    emittedChain origin (pipeline.emit events).emitted =
      emittedChain (emittedChain origin pipeline.emitted) events :=
  emittedChain_append _ _ _

/-- Emitting events that fit moves only the end of the queue. -/
theorem InStep.emitted_taken
    (inStep : InStep blockHash stage known body config indexers origin pipeline life)
    (events : List ChainEvent) :
    ∃ taken, (pipeline.emit events).emitted = taken ++ (pipeline.emit events).queue ∧
      life.history.confirmed.map IndexedBlock.point = emittedChain origin taken := by
  rcases inStep.taken with ⟨taken, split, same⟩
  refine ⟨taken, ?_, same⟩
  rw [Pipeline.emit, split, List.append_assoc]

theorem InStep.fetch (inStep : InStep blockHash stage known body config indexers origin pipeline life)
    (genesis : stage.genesisHash = config.genesisHash)
    (tell : HashesTell (KnownAt blockHash known) stage.genesisHash)
    (honest : peer.Honest blockHash stage known) (whole : peer.Whole body)
    (away : NotReturned blockHash stage origin pipeline peer)
    (stepped : pipeline.fetch blockHash stage peer = some next) :
    InStep blockHash stage known body config indexers origin next life := by
  have following := inStep.following.fetch honest tell away stepped
  rcases inStep.following.fetched honest tell away stepped with
    ⟨target, chosen, inside, ⟨_, rfl⟩ | ⟨more, worker, rfl⟩⟩
  · exact inStep
  · have listed := List.mem_of_find?_eq_some chosen
    have active := List.find?_some chosen
    rw [decide_eq_true_eq] at active
    have room := whole.room
    have low : target.height ≠ u64Max := by
      intro full
      have number := congrArg BitVec.toNat full
      rw [show u64Max.toNat = 2 ^ 64 - 1 from rfl] at number
      omega
    rcases inStep.sound.holds with ⟨holds, linked, _⟩
    refine ⟨following, inStep.machine, inStep.sound, ?_, inStep.emitted_taken _, inStep.bodies,
      ⟨life.history.confirmed.map IndexedBlock.point, ?_, ?_⟩, ?_⟩
    · refine eachFits_append.mpr ⟨inStep.fits, eachFits_append.mpr ⟨fits_rollBackTo inside low, ?_⟩⟩
      by_cases empty : peer.page stage target = []
      · rw [empty]
        trivial
      · have sized : stage.blockPageSize ≠ 0 := by
          intro zero
          apply empty
          rw [Peer.page, zero, List.take_zero]
        rw [(inStep.following.fetched_chain honest tell listed active inside sized).1]
        exact fits_rollForwards honest whole (Peer.page_prefix target)
    · rw [← inStep.machine]
      exact holds
    · rw [genesis]
      exact linked
    · intro first found
      rw [Option.map_eq_some_iff] at found
      rcases found with ⟨lowest, head, rfl⟩
      cases page : peer.page stage target with
      | nil =>
          rw [page] at head
          cases head
      | cons block rest =>
          have sized : stage.blockPageSize ≠ 0 := by
            intro zero
            rw [Peer.page, zero, List.take_zero] at page
            cases page
          rw [page, assignHeights, List.head?_cons, Option.some.injEq] at head
          have reached :=
            (inStep.following.fetched_chain honest tell listed active inside sized).2
          have short := (@Peer.page_prefix stage peer target).length_le
          rw [page, List.length_drop, List.length_cons] at short
          have one : (1 : U64).toNat = 1 := rfl
          rw [page] at reached
          rw [emittedChain_emit, reached, Peer.length_chain (by rw [List.length_cons]; omega),
            ← head, BitVec.toNat_add, one, Nat.mod_eq_of_lt (by omega), List.length_cons]
          omega

theorem InStep.template
    (inStep : InStep blockHash stage known body config indexers origin pipeline life)
    (following : Following blockHash stage known origin next) {info : MempoolSnapshotInfo}
    {txs : BlockTxs} (emitted : pipeline.emit [.mempoolBlocks info [txs]] = next) :
    InStep blockHash stage known body config indexers origin next life := by
  subst emitted
  have same : emittedChain origin (pipeline.emit [.mempoolBlocks info [txs]]).emitted =
      emittedChain origin pipeline.emitted := emittedChain_emit _
  refine ⟨following, inStep.machine, inStep.sound, ?_, inStep.emitted_taken _, inStep.bodies,
    inStep.seen, ?_⟩
  · exact eachFits_append.mpr ⟨inStep.fits, List.cons_ne_nil _ _, trivial⟩
  · rw [same]
    exact inStep.floor

theorem ChainEvent.Fits.extend {event : ChainEvent} {chain : List (Point × BlockTxs)}
    (fits : event.Fits blockHash known body stage.genesisHash (chain.map Prod.fst))
    (bodies : ∀ content ∈ chain, ∃ header,
      KnownAt blockHash known header content.1 ∧ content.2 = body header) :
    (event.extend chain).map Prod.fst = event.apply (chain.map Prod.fst) ∧
      ∀ content ∈ event.extend chain, ∃ header,
        KnownAt blockHash known header content.1 ∧ content.2 = body header := by
  cases event with
  | rollForward point header txs tip =>
      have height := fits.2.2.2.1
      rw [List.length_map] at height
      rw [ChainEvent.extend, if_pos height]
      refine ⟨rfl, ?_⟩
      intro content member
      rcases List.mem_cons.mp member with rfl | old
      · exact ⟨header, fits.1, fits.2.1⟩
      · exact bodies content old
  | rollBack point =>
      refine ⟨?_, ?_⟩
      · rw [ChainEvent.extend, ChainEvent.apply, List.dropWhile_map]
        rfl
      · intro content member
        exact bodies content ((List.dropWhile_suffix _).subset member)
  | mempoolBlocks info blocks => exact ⟨rfl, bodies⟩

theorem History.chain_points (history : History) :
    history.chain.map Prod.fst = history.confirmed.map IndexedBlock.point := by
  rw [History.chain, List.map_map]
  rfl

theorem InStep.index (inStep : InStep blockHash stage known body config indexers origin pipeline life)
    {env : Env} {event : ChainEvent} {queue : List ChainEvent} (waiting : pipeline.queue = event :: queue)
    (success : (life.machine.execute env event).2 = .ok ())
    (on : config.utxoCache = true → event.ValidOn life.tip life.history)
    (following : Following blockHash stage known origin
      { pipeline with machine := (pipeline.machine.execute env event).1, queue })
    (increasing : Increasing (life.called env event).log) :
    InStep blockHash stage known body config indexers origin
      { pipeline with machine := (pipeline.machine.execute env event).1, queue }
      (life.called env event) := by
  rcases inStep.taken with ⟨taken, split, same⟩
  have fits := inStep.fits
  rw [split, waiting, eachFits_append] at fits
  have here := fits.2.1
  rw [← same, ← History.chain_points] at here
  have sound := inStep.sound.called here.valid on increasing
  have step := inStep.sound.transparent here.valid on increasing
  rcases inStep.sound.chronicle UtxosIndexed (utxosIndexed_invariant indexers config.network) with
    ⟨_, chronicle⟩
  have recorded : (life.called env event).history.chain = event.extend life.history.chain := by
    apply chronicle.chain_record
    rw [step.1]
    exact success
  rcases here.extend inStep.bodies with ⟨points, bodies⟩
  refine ⟨following, ?_, sound, inStep.fits, ⟨taken ++ [event], ?_, ?_⟩, ?_, inStep.seen, inStep.floor⟩
  · rw [Life.called, inStep.machine]
  · rw [split, waiting, List.append_assoc, List.singleton_append]
  · rw [← History.chain_points, recorded, points, History.chain_points, same, emittedChain_append]
    rfl
  · rw [recorded]
    exact bodies

/-- An index call succeeds, on a block that is valid where it is when there is a cache. -/
def Pipeline.Succeeds (config : Config) (pipeline : Pipeline) (life : Life) : Move → Prop
  | .index env => ∀ event ∈ pipeline.queue.head?, (pipeline.machine.execute env event).2 = .ok () ∧
      (config.utxoCache = true → event.ValidOn life.tip life.history)
  | .fetch _ => True
  | .template _ _ => True

def Pipeline.Smooth (blockHash : Header → BlockHash) (stage : PullStage) (config : Config)
    (pipeline : Pipeline) (life : Life) : List Move → Prop
  | [] => True
  | move :: moves => pipeline.Succeeds config life move ∧
      ∀ next ∈ pipeline.step blockHash stage move,
        next.Smooth blockHash stage config (life.moved pipeline move) moves

instance (config : Config) (pipeline : Pipeline) (life : Life) (move : Move) :
    Decidable (pipeline.Succeeds config life move) :=
  match move with
  | .index _ => inferInstanceAs (Decidable (∀ event ∈ pipeline.queue.head?, _ ∧ _))
  | .fetch _ => inferInstanceAs (Decidable True)
  | .template _ _ => inferInstanceAs (Decidable True)

instance Pipeline.decidableSmooth (blockHash : Header → BlockHash) (stage : PullStage)
    (config : Config) (pipeline : Pipeline) (life : Life) :
    (moves : List Move) → Decidable (pipeline.Smooth blockHash stage config life moves)
  | [] => inferInstanceAs (Decidable True)
  | move :: moves =>
      have (next : Pipeline) := Pipeline.decidableSmooth blockHash stage config next
        (life.moved pipeline move) moves
      inferInstanceAs (Decidable (_ ∧ ∀ next ∈ pipeline.step blockHash stage move, _))

theorem Pipeline.step_log {move : Move} (stepped : pipeline.step blockHash stage move = some next) :
    pipeline.machine.stage.db.db.log <+: next.machine.stage.db.db.log := by
  cases move with
  | fetch peer =>
      rcases Pipeline.fetch_ok stepped with ⟨_, _, _, ⟨_, rfl⟩ | ⟨_, rfl⟩⟩
      · exact List.prefix_rfl
      · exact List.prefix_rfl
  | template info txs =>
      rw [Pipeline.step, Option.some.injEq] at stepped
      rw [← stepped]
      exact List.prefix_rfl
  | index env =>
      rw [Pipeline.step] at stepped
      split at stepped
      · cases stepped
      · rw [Option.some.injEq] at stepped
        rw [← stepped]
        exact Machine.execute_log _ _ _

theorem Pipeline.run_log {moves : List Move}
    (ran : pipeline.run blockHash stage moves = some next) :
    pipeline.machine.stage.db.db.log <+: next.machine.stage.db.db.log := by
  induction moves generalizing pipeline with
  | nil =>
      rw [Pipeline.run, Option.some.injEq] at ran
      rw [ran]
  | cons move moves ih =>
      rw [Pipeline.run] at ran
      cases stepped : pipeline.step blockHash stage move with
      | none =>
          rw [stepped] at ran
          cases ran
      | some between =>
          rw [stepped] at ran
          exact (Pipeline.step_log stepped).trans (ih ran)

/-- Every move keeps the stages in step. -/
theorem InStep.step (inStep : InStep blockHash stage known body config indexers origin pipeline life)
    (genesis : stage.genesisHash = config.genesisHash)
    (tell : HashesTell (KnownAt blockHash known) stage.genesisHash) {move : Move}
    (honest : ∀ peer, move = .fetch peer → peer.Honest blockHash stage known ∧ peer.Whole body)
    (away : ∀ peer, move = .fetch peer → NotReturned blockHash stage origin pipeline peer)
    (smooth : pipeline.Succeeds config life move)
    (stepped : pipeline.step blockHash stage move = some next)
    (increasing : Increasing next.machine.stage.db.db.log) :
    InStep blockHash stage known body config indexers origin next (life.moved pipeline move) := by
  have following := inStep.following.step tell (by
    intro peer asked
    exact (honest peer asked).1) away stepped
  cases move with
  | fetch peer =>
      exact inStep.fetch genesis tell (honest peer rfl).1 (honest peer rfl).2 (away peer rfl) stepped
  | template info txs => exact inStep.template following (Option.some.inj stepped)
  | index env =>
      cases waiting : pipeline.queue with
      | nil =>
          simp only [Pipeline.step, waiting] at stepped
          cases stepped
      | cons event queue =>
          rcases smooth event (by rw [waiting]; rfl) with ⟨success, on⟩
          simp only [Pipeline.step, waiting, Option.some.injEq] at stepped
          subst stepped
          have moved : life.moved pipeline (.index env) = life.called env event := by
            rw [Life.moved, waiting]
            rfl
          rw [moved]
          rw [← inStep.machine] at success increasing
          exact inStep.index waiting success on following increasing

theorem InStep.run {moves later : List Move} {finish : Pipeline}
    (inStep : InStep blockHash stage known body config indexers origin pipeline life)
    (genesis : stage.genesisHash = config.genesisHash)
    (tell : HashesTell (KnownAt blockHash known) stage.genesisHash)
    (honest : ∀ peer, .fetch peer ∈ moves → peer.Honest blockHash stage known ∧ peer.Whole body)
    (away : pipeline.Requests blockHash stage (NotReturned blockHash stage origin) moves)
    (smooth : pipeline.Smooth blockHash stage config life (moves ++ later))
    (ran : pipeline.run blockHash stage moves = some finish)
    (increasing : Increasing finish.machine.stage.db.db.log) :
    ∃ life', InStep blockHash stage known body config indexers origin finish life' ∧
      finish.Smooth blockHash stage config life' later := by
  induction moves generalizing pipeline life with
  | nil =>
      rw [Pipeline.run, Option.some.injEq] at ran
      rw [← ran]
      exact ⟨life, inStep, smooth⟩
  | cons move moves ih =>
      rw [Pipeline.run] at ran
      cases stepped : pipeline.step blockHash stage move with
      | none =>
          rw [stepped] at ran
          cases ran
      | some between =>
          rw [stepped] at ran
          have here := inStep.step genesis tell (by
            intro peer first
            exact honest peer (by rw [first]; exact List.mem_cons_self)) away.1 smooth.1 stepped
            (VersionedLog.increasing_prefix (Pipeline.run_log ran) increasing)
          apply ih here _ (away.2 between stepped) (smooth.2 between stepped) ran
          intro peer later
          exact honest peer (List.mem_cons_of_mem _ later)

theorem InStep.fetches
    (inStep : InStep blockHash stage known body config indexers origin pipeline life)
    (tell : HashesTell (KnownAt blockHash known) stage.genesisHash)
    (honest : peer.Honest blockHash stage known)
    (away : NotReturned blockHash stage origin pipeline peer) :
    ∃ next, pipeline.step blockHash stage (.fetch peer) = some next := by
  rcases inStep.sound.holds with ⟨holds, _, _⟩
  rw [inStep.machine] at holds
  have read : ∃ options, intersectOptions (Reads.of pipeline.machine.stage.db.db) stage.genesisHash =
      .ok options := by
    cases chain : life.history.confirmed.map IndexedBlock.point with
    | nil =>
        rw [chain] at holds
        refine ⟨[⟨0, stage.genesisHash⟩], ?_⟩
        rw [intersectOptions, show lastEntryHeight (Reads.of pipeline.machine.stage.db.db).top = .ok none
          from holds.lastEntryHeight]
    | cons top below =>
        rw [chain] at holds
        rcases holds.intersectOptions stage.genesisHash with ⟨points, read, _⟩
        exact ⟨_, read⟩
  rcases read with ⟨options, read⟩
  have cursor (fetched : List Point) :
      ∃ cursor, nextCursor stage fetched (Reads.of pipeline.machine.stage.db.db) = .ok cursor := by
    simp only [nextCursor, read, orPanic, orElse]
    split
    · cases (fetched.reverse.take 50).getLast? with
      | none => exact ⟨_, rfl⟩
      | some last => exact ⟨_, rfl⟩
    · exact ⟨_, rfl⟩
  have answered : ∃ events worker, pipeline.worker.fetchChainActions blockHash stage peer
      (Reads.of pipeline.machine.stage.db.db) = .ok (events, worker) := by
    cases headers : peer.getNewHeaders blockHash stage (pipeline.worker.cursor.map Point.hash) with
    | nil => exact ⟨[], pipeline.worker, by simp only [PullWorker.fetchChainActions, headers]⟩
    | cons first later =>
        rcases inStep.following.chosen honest tell away with ⟨target, chosen, _, _, served⟩
        have more : target.height.toNat < peer.active.length := by
          by_contra beyond
          rw [headers, List.drop_of_length_le (by omega), List.take_nil] at served
          cases served
        rcases inStep.following.parent honest tell away chosen headers more with ⟨_, found⟩
        rcases cursor (assignHeights blockHash (target.height + 1) ((first :: later).take
          stage.blockPageSize)) with ⟨built, same⟩
        exact ⟨_, _, by simp only [PullWorker.fetchChainActions, headers, found, same]; rfl⟩
  rcases answered with ⟨events, worker, success⟩
  simp only [Pipeline.step, Pipeline.fetch, success]
  split
  · exact ⟨_, rfl⟩
  · exact ⟨_, rfl⟩

/-- A worker that is bootstrapped on the database of a life is in step with it. -/
theorem inStep_start {tip : Point} {worker : PullWorker} (genesis : stage.genesisHash = config.genesisHash)
    (sound : life.Sound (KnownAt blockHash known) config indexers)
    (bodies : ∀ content ∈ life.history.chain, ∃ header,
      KnownAt blockHash known header content.1 ∧ content.2 = body header)
    (booted : PullWorker.bootstrap stage (Reads.of life.machine.stage.db.db) tip = .ok worker) :
    InStep blockHash stage known body config indexers
      (life.history.confirmed.map IndexedBlock.point) (Pipeline.start life.machine worker) life := by
  rcases sound.holds with ⟨holds, linked, _⟩
  rw [← genesis] at linked
  refine ⟨following_start holds linked booted, rfl, sound, trivial, ⟨[], rfl, rfl⟩, bodies,
    ⟨_, holds, linked⟩, ?_⟩
  intro first impossible
  cases impossible

end Step

/-- However the moves of the two stages interleave, while the calls of the index stage succeed and the
nodes are honest and have not gone back, the index stage stands on the chain of the events it has
taken, whatever is still in the queue. The next block of the queue is always the one above its tip,
and no fetch from such a node fails. -/
theorem index_in_step (blockHash : Header → BlockHash) (stage : PullStage) (known : Header → Prop)
    (body : Header → BlockTxs) (config : Config) (indexers : List Indexer) (life : Life) (tip : Point)
    (worker : PullWorker) (moves : List Move) (finish : Pipeline)
    (small : config.maxRollbacks < 2 ^ 64) (genesis : stage.genesisHash = config.genesisHash)
    (tell : HashesTell (KnownAt blockHash known) stage.genesisHash)
    (lived : Life.Lived (KnownAt blockHash known) config indexers life)
    (bodies : ∀ content ∈ life.history.chain, ∃ header,
      KnownAt blockHash known header content.1 ∧ content.2 = body header)
    (booted : PullWorker.bootstrap stage (Reads.of life.machine.stage.db.db) tip = .ok worker)
    (honest : ∀ peer, .fetch peer ∈ moves → peer.Honest blockHash stage known ∧ peer.Whole body)
    (away : (Pipeline.start life.machine worker).Requests blockHash stage
      (NotReturned blockHash stage (life.history.confirmed.map IndexedBlock.point)) moves)
    (smooth : (Pipeline.start life.machine worker).Smooth blockHash stage config life moves)
    (ran : (Pipeline.start life.machine worker).run blockHash stage moves = some finish)
    (increasing : Increasing finish.machine.stage.db.db.log) :
    let origin := life.history.confirmed.map IndexedBlock.point
    (∃ taken, finish.emitted = taken ++ finish.queue ∧
      HoldsChain finish.machine.stage.db.db (emittedChain origin taken) ∧
      finish.machine.stage.lastProcessed = chainTop stage.genesisHash (emittedChain origin taken)) ∧
    (∀ point header txs tip queue, finish.queue = .rollForward point header txs tip :: queue →
      point.height = finish.machine.stage.lastProcessed.height + 1 ∧
        header.prevBlockhash = finish.machine.stage.lastProcessed.hash) ∧
    ∀ peer, peer.Honest blockHash stage known → NotReturned blockHash stage origin finish peer →
      ∃ next, finish.step blockHash stage (.fetch peer) = some next := by
  intro origin
  have sound := lived.sound small (VersionedLog.increasing_prefix (Pipeline.run_log ran) increasing)
  rw [← List.append_nil moves] at smooth
  rcases (inStep_start genesis sound bodies booted).run genesis tell honest away smooth ran
    increasing with ⟨life', inStep, _⟩
  rcases inStep.taken with ⟨taken, split, same⟩
  rcases inStep.sound.holds with ⟨holds, linked, top⟩
  rw [inStep.machine, same] at holds
  rw [Life.tip, inStep.machine, same, ← genesis] at top
  rw [same, ← genesis] at linked
  refine ⟨⟨taken, split, holds, top⟩, ?_, fun peer honest away => inStep.fetches tell honest away⟩
  intro point header txs tip queue waiting
  have fits := inStep.fits
  rw [split, waiting, eachFits_append] at fits
  rcases fits.2.1 with ⟨_, _, low, height, parent⟩
  rw [top]
  refine ⟨?_, parent⟩
  have bound := point.height.isLt
  have one : (1 : U64).toNat = 1 := rfl
  apply BitVec.eq_of_toNat_eq
  rw [BitVec.toNat_add, one, linked.height_top, height, Nat.mod_eq_of_lt (by omega)]

def deepConfig : Config := { byteConfig with maxRollback := some 3 }

def deepLife : Life := Life.after deepConfig [] threeBlockEvents

theorem deepLife_lived : Life.Lived (KnownAt byteHash (· ∈ branchHeaders)) deepConfig [] deepLife :=
  (Life.after_lived rfl (by decide +kernel)).1

theorem deepLife_chain : deepLife.history.confirmed.map IndexedBlock.point = threeChain := by
  decide +kernel

theorem deepLife_holds : HoldsChain deepLife.machine.stage.db.db threeChain := by
  rw [← deepLife_chain]
  exact (deepLife_lived.sound (by decide) (by decide +kernel)).holds.1

theorem deepLife_bodies : ∀ content ∈ deepLife.history.chain, ∃ header,
    KnownAt byteHash (· ∈ branchHeaders) header content.1 ∧ content.2 = [] := by
  have listed : ∀ content ∈ deepLife.history.chain, ∃ header ∈ branchHeaders,
      content.1.hash = byteHash header ∧ content.2 = [] := by decide +kernel
  intro content member
  rcases listed content member with ⟨header, known, hash, empty⟩
  exact ⟨header, ⟨known, hash⟩, empty⟩

theorem branches_whole {peer : Peer} (one : peer = firstBranch ∨ peer = secondBranch) :
    peer.Whole (fun _ => []) := by
  rcases one with rfl | rfl
  · exact ⟨by decide +kernel, by decide⟩
  · exact ⟨by decide +kernel, by decide⟩

def leaveBranch : List Move :=
  [.fetch secondBranch, .index (acceptAt 11), .index (acceptAt 13)]

theorem leaveBranch_away : (Pipeline.start deepLife.machine threeWorker).Requests byteHash onePage
    (NotReturned byteHash onePage threeChain) leaveBranch := by
  refine ⟨?_, ?_⟩
  · intro peer _
    exact notReturned_start deepLife_holds peer
  · intro first _
    refine ⟨by (intro peer impossible; cases impossible), ?_⟩
    intro second _
    exact ⟨by (intro peer impossible; cases impossible), by intro third _; trivial⟩

/-- Once the first block of the other branch is indexed, the table holds two blocks. -/
theorem index_in_step_leave_branch :
    ∃ finish, (Pipeline.start deepLife.machine threeWorker).run byteHash onePage leaveBranch =
        some finish ∧ finish.queue = [] ∧
      ∃ taken, finish.emitted = taken ++ finish.queue ∧
        HoldsChain finish.machine.stage.db.db (emittedChain threeChain taken) ∧
        finish.machine.stage.lastProcessed = chainTop (hashOf 0) (emittedChain threeChain taken) := by
  have drained : ((Pipeline.start deepLife.machine threeWorker).run byteHash onePage leaveBranch).map
      (fun pipeline => pipeline.queue) = some [] := by decide +kernel
  rcases Option.map_eq_some_iff.mp drained with ⟨finish, ran, empty⟩
  have ordered : ∀ finish ∈ (Pipeline.start deepLife.machine threeWorker).run byteHash onePage
      leaveBranch, Increasing finish.machine.stage.db.db.log := by decide +kernel
  have results := index_in_step byteHash onePage (· ∈ branchHeaders) (fun _ => []) deepConfig []
    deepLife ⟨3, hashOf 3⟩ threeWorker leaveBranch finish (by decide) rfl branchHeaders_tell
    deepLife_lived deepLife_bodies (by decide +kernel) (by
      intro peer member
      have one : peer = firstBranch ∨ peer = secondBranch := by
        simpa [leaveBranch] using Or.inr member
      exact ⟨branches_honest one, branches_whole one⟩)
    (by rw [deepLife_chain]; exact leaveBranch_away) (by decide +kernel) ran (ordered finish ran)
  rw [deepLife_chain] at results
  exact ⟨finish, ran, empty, results.1⟩

end Symphony
