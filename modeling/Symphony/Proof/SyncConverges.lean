import Symphony.Proof.PipelineInStep

/-! The pipeline catches up with the node.

Once the node stays on one chain that is at least as high as the emitted one, every fetch takes the
emitted chain a page further along the node's, and the index stage follows when it has taken the
events off the queue. -/

namespace Symphony

open Encdec
open VersionedLog (Increasing)

def Move.isFetch : Move → Bool
  | .fetch _ => true
  | .template _ _ => false
  | .index _ => false

def Peer.contents (blockHash : Header → BlockHash) (peer : Peer) : List (Point × BlockTxs) :=
  ((assignHeights blockHash 1 peer.active).zip (peer.active.map NodeBlock.txs)).reverse

/-- The emitted chain is the node's, as far as the last page or all of it. -/
structure OnNode (blockHash : Header → BlockHash) (origin : List Point) (peer : Peer) (count : Nat)
    (pipeline : Pipeline) : Prop where
  inside : count ≤ peer.active.length
  chain : emittedChain origin pipeline.emitted = peer.chain blockHash count
  paged : count = peer.active.length ∨ pipeline.floor.isSome

/-- How far the fetches of one node have come: before the first the node is at least as high as the
emitted chain, and each takes the chain a page further. -/
def Approaching (blockHash : Header → BlockHash) (stage : PullStage) (origin : List Point) (peer : Peer)
    (fetches : Nat) (pipeline : Pipeline) : Prop :=
  (fetches = 0 ∧ NotReturned blockHash stage origin pipeline peer ∧
    (emittedChain origin pipeline.emitted).length ≤ peer.active.length) ∨
  ∃ count, OnNode blockHash origin peer count pipeline ∧
    min peer.active.length (fetches * min stage.blockPageSize peer.limit) ≤ count

section Node

variable {blockHash : Header → BlockHash} {stage : PullStage} {known : Header → Prop} {peer : Peer}
variable {body : Header → BlockTxs}

theorem Peer.chain_suffix {low high : Nat} (below : low ≤ high) :
    peer.chain blockHash low <:+ peer.chain blockHash high := by
  have inside : peer.active.take low <+: peer.active.take high := by
    rw [← Nat.min_eq_left below, ← List.take_take]
    exact List.take_prefix _ _
  rcases inside with ⟨rest, whole⟩
  rw [Peer.chain, Peer.chain, ← whole, assignHeights_append, List.reverse_append]
  exact List.suffix_append _ _

theorem Peer.length_page (target : Point) :
    (peer.page stage target).length =
      min stage.blockPageSize (min peer.limit (peer.active.length - target.height.toNat)) := by
  rw [Peer.page, List.length_take, List.length_take, List.length_drop]

theorem Peer.Honest.top (honest : peer.Honest blockHash stage known) {count : Nat}
    (inside : count ≤ peer.active.length) :
    (chainTop stage.genesisHash (peer.chain blockHash count)).height.toNat = count ∧
      (chainTop stage.genesisHash (peer.chain blockHash count)).hash ∈ peer.hashes blockHash stage := by
  refine ⟨?_, List.mem_of_getElem? (Peer.chain_hash inside)⟩
  rw [(honest.chain_linked inside).height_top, Peer.length_chain inside]

theorem contents_block {height : BlockHeight} {blocks : List NodeBlock} {content : Point × BlockTxs}
    (member : content ∈ (assignHeights blockHash height blocks).zip (blocks.map NodeBlock.txs)) :
    ∃ block ∈ blocks, content.1.hash = blockHash block.header ∧ content.2 = block.txs := by
  induction blocks generalizing height with
  | nil => cases member
  | cons block blocks ih =>
      rw [assignHeights, List.map_cons, List.zip_cons_cons, List.mem_cons] at member
      rcases member with rfl | later
      · exact ⟨block, List.mem_cons_self, rfl, rfl⟩
      · rcases ih later with ⟨other, inside, same⟩
        exact ⟨other, List.mem_cons_of_mem _ inside, same⟩

theorem pairs_eq {Key Value : Type} {first second : List (Key × Value)}
    (keys : first.map Prod.fst = second.map Prod.fst)
    (values : ∀ one ∈ first, ∀ other ∈ second, one.1 = other.1 → one.2 = other.2) :
    first = second := by
  induction first generalizing second with
  | nil => exact (List.map_eq_nil_iff.mp keys.symm).symm
  | cons one rest ih =>
      cases second with
      | nil => cases keys
      | cons other rest' =>
          rw [List.map_cons, List.map_cons, List.cons.injEq] at keys
          have head := values one List.mem_cons_self other List.mem_cons_self keys.1
          rw [ih keys.2 (by
            intro left here right there
            exact values left (List.mem_cons_of_mem _ here) right (List.mem_cons_of_mem _ there)),
            Prod.ext keys.1 head]

theorem Peer.Honest.contents_eq (honest : peer.Honest blockHash stage known) (whole : peer.Whole body)
    (tell : HashesTell (KnownAt blockHash known) stage.genesisHash) {chain : List (Point × BlockTxs)}
    (points : chain.map Prod.fst = peer.chain blockHash peer.active.length)
    (bodies : ∀ content ∈ chain, ∃ header,
      KnownAt blockHash known header content.1 ∧ content.2 = body header) :
    chain = peer.contents blockHash := by
  apply pairs_eq
  · rw [points, Peer.contents, List.map_reverse, List.map_fst_zip, Peer.chain, List.take_length]
    rw [length_assignHeights, List.length_map]
  · intro content member other listed same
    rcases bodies content member with ⟨header, knownAt, txs⟩
    rcases contents_block (List.mem_reverse.mp listed) with ⟨block, inside, hash, txs'⟩
    have equal : header = block.header := by
      apply tell.same knownAt (⟨honest.known block inside, hash⟩ :
        KnownAt blockHash known block.header other.1)
      rw [same]
    rw [txs, txs', equal, whole.bodies block inside]

end Node

section Fetches

variable {blockHash : Header → BlockHash} {stage : PullStage} {known : Header → Prop}
variable {body : Header → BlockTxs} {config : Config} {indexers : List Indexer} {origin : List Point}
variable {pipeline next : Pipeline} {life : Life} {peer : Peer} {count : Nat}

theorem OnNode.away (onNode : OnNode blockHash origin peer count pipeline)
    (inStep : InStep blockHash stage known body config indexers origin pipeline life)
    (honest : peer.Honest blockHash stage known)
    (tell : HashesTell (KnownAt blockHash known) stage.genesisHash) :
    NotReturned blockHash stage origin pipeline peer := by
  intro point stored below off active
  rcases inStep.seen with ⟨chain, holds, linked⟩
  rcases List.append_of_mem (holds.of_readPoint stored) with ⟨above, rest, split⟩
  have suffix := linked.drop above.length
  rw [split, List.drop_left] at suffix
  rcases honest.part tell suffix active with ⟨bound, same⟩
  have low : point.height.toNat ≤ count := by
    rcases onNode.paged with whole | paged
    · rw [whole]
      exact bound
    · rcases Option.isSome_iff_exists.mp paged with ⟨first, found⟩
      have under := below first found
      have page := inStep.floor first found
      rw [onNode.chain, Peer.length_chain onNode.inside] at page
      rw [BitVec.lt_def] at under
      omega
  apply off
  rw [onNode.chain]
  apply (Peer.chain_suffix low).subset
  rw [← same]
  exact List.mem_cons_self

theorem OnNode.fetch (onNode : OnNode blockHash origin peer count pipeline)
    (inStep : InStep blockHash stage known body config indexers origin pipeline life)
    (honest : peer.Honest blockHash stage known)
    (tell : HashesTell (KnownAt blockHash known) stage.genesisHash) (sized : stage.blockPageSize ≠ 0)
    (stepped : pipeline.fetch blockHash stage peer = some next) :
    OnNode blockHash origin peer
      (min peer.active.length (count + min stage.blockPageSize peer.limit)) next := by
  rcases honest.top onNode.inside with ⟨height, active⟩
  have front := inStep.following.top sized
  rw [onNode.chain] at front
  rcases inStep.following.fetched honest tell (onNode.away inStep honest tell) stepped with
    ⟨target, chosen, inside, moved⟩
  have here : target = chainTop stage.genesisHash (peer.chain blockHash count) := by
    cases cursor : pipeline.worker.cursor with
    | nil =>
        rw [cursor] at front
        cases front
    | cons head rest =>
        rw [cursor, List.head?_cons, Option.some.injEq] at front
        rw [cursor, List.find?_cons_of_pos (by rw [front, decide_eq_true_eq]; exact active),
          Option.some.injEq] at chosen
        rw [← chosen, front]
  have listed := List.mem_of_find?_eq_some chosen
  have serves := honest.linked.serves
  have below := onNode.inside
  rw [← here] at height active
  rcases moved with ⟨high, rfl⟩ | ⟨more, worker, rfl⟩
  · have last : min peer.active.length (count + min stage.blockPageSize peer.limit) = count := by
      omega
    rw [last]
    exact onNode
  · have length := @Peer.length_page stage peer target
    refine ⟨Nat.min_le_left _ _, ?_, Or.inr ?_⟩
    · rw [emittedChain_emit, (inStep.following.fetched_chain honest tell listed active inside sized).2,
        length, height]
      congr 1
      omega
    · cases page : peer.page stage target with
      | nil =>
          rw [page, List.length_nil] at length
          omega
      | cons block rest => rfl

theorem InStep.first_fetch
    (inStep : InStep blockHash stage known body config indexers origin pipeline life)
    (honest : peer.Honest blockHash stage known)
    (tell : HashesTell (KnownAt blockHash known) stage.genesisHash) (sized : stage.blockPageSize ≠ 0)
    (away : NotReturned blockHash stage origin pipeline peer)
    (taller : (emittedChain origin pipeline.emitted).length ≤ peer.active.length)
    (stepped : pipeline.fetch blockHash stage peer = some next) :
    ∃ count, OnNode blockHash origin peer count next ∧
      min peer.active.length (min stage.blockPageSize peer.limit) ≤ count := by
  rcases inStep.following.fetched honest tell away stepped with ⟨target, chosen, inside, moved⟩
  have listed := List.mem_of_find?_eq_some chosen
  have active := List.find?_some chosen
  rw [decide_eq_true_eq] at active
  have serves := honest.linked.serves
  rcases honest.below tell inStep.following.linked inside active with ⟨bound, below, _⟩
  rcases moved with ⟨high, rfl⟩ | ⟨more, worker, rfl⟩
  · have last : target.height.toNat = peer.active.length := Nat.le_antisymm bound high
    rw [last] at below
    have same := (List.dropWhile_suffix (fun other => decide (other ≠ target))).eq_of_length_le
      (show (emittedChain origin next.emitted).length ≤ _ by
        rw [below, Peer.length_chain (Nat.le_refl _)]
        exact taller)
    exact ⟨peer.active.length, ⟨Nat.le_refl _, same.symm.trans below, Or.inl rfl⟩,
      Nat.min_le_left _ _⟩
  · have length := @Peer.length_page stage peer target
    refine ⟨target.height.toNat + (peer.page stage target).length, ⟨by omega, ?_, Or.inr ?_⟩, by omega⟩
    · rw [emittedChain_emit, (inStep.following.fetched_chain honest tell listed active inside sized).2]
    · cases page : peer.page stage target with
      | nil =>
          rw [page, List.length_nil] at length
          omega
      | cons block rest => rfl

theorem Approaching.unmoved {fetches : Nat} {move : Move}
    (approaching : Approaching blockHash stage origin peer fetches pipeline)
    (other : move.isFetch = false) (stepped : pipeline.step blockHash stage move = some next) :
    Approaching blockHash stage origin peer fetches next := by
  have kept : emittedChain origin next.emitted = emittedChain origin pipeline.emitted ∧
      next.seen = pipeline.seen ∧ next.floor = pipeline.floor := by
    cases move with
    | fetch peer => cases other
    | template info txs =>
        rw [Pipeline.step, Option.some.injEq] at stepped
        subst stepped
        exact ⟨emittedChain_emit _, rfl, rfl⟩
    | index env =>
        rw [Pipeline.step] at stepped
        split at stepped
        · cases stepped
        · rw [Option.some.injEq] at stepped
          subst stepped
          exact ⟨rfl, rfl, rfl⟩
  rcases kept with ⟨chain, seen, floor⟩
  rcases approaching with ⟨none, away, taller⟩ | ⟨count, onNode, far⟩
  · refine Or.inl ⟨none, ?_, by rw [chain]; exact taller⟩
    intro point stored below off
    rw [seen] at stored
    rw [chain] at off
    apply away point stored _ off
    intro first found
    exact below first (floor.trans found)
  · exact Or.inr ⟨count, ⟨onNode.inside, by rw [chain]; exact onNode.chain,
      by rw [floor]; exact onNode.paged⟩, far⟩

theorem Approaching.away {fetches : Nat}
    (approaching : Approaching blockHash stage origin peer fetches pipeline)
    (inStep : InStep blockHash stage known body config indexers origin pipeline life)
    (honest : peer.Honest blockHash stage known)
    (tell : HashesTell (KnownAt blockHash known) stage.genesisHash) :
    NotReturned blockHash stage origin pipeline peer := by
  rcases approaching with ⟨_, away, _⟩ | ⟨count, onNode, _⟩
  · exact away
  · exact onNode.away inStep honest tell

theorem Approaching.fetch {fetches : Nat}
    (approaching : Approaching blockHash stage origin peer fetches pipeline)
    (inStep : InStep blockHash stage known body config indexers origin pipeline life)
    (honest : peer.Honest blockHash stage known)
    (tell : HashesTell (KnownAt blockHash known) stage.genesisHash) (sized : stage.blockPageSize ≠ 0)
    (stepped : pipeline.fetch blockHash stage peer = some next) :
    Approaching blockHash stage origin peer (fetches + 1) next := by
  rcases approaching with ⟨rfl, away, taller⟩ | ⟨count, onNode, far⟩
  · rcases inStep.first_fetch honest tell sized away taller stepped with ⟨count, onNode, far⟩
    exact Or.inr ⟨count, onNode, by omega⟩
  · refine Or.inr ⟨_, onNode.fetch inStep honest tell sized stepped, ?_⟩
    rw [Nat.add_mul, Nat.one_mul]
    omega

theorem Approaching.run {moves : List Move} {finish : Pipeline} {fetches : Nat}
    (approaching : Approaching blockHash stage origin peer fetches pipeline)
    (inStep : InStep blockHash stage known body config indexers origin pipeline life)
    (genesis : stage.genesisHash = config.genesisHash)
    (tell : HashesTell (KnownAt blockHash known) stage.genesisHash)
    (honest : peer.Honest blockHash stage known) (whole : peer.Whole body)
    (sized : stage.blockPageSize ≠ 0) (only : ∀ other, .fetch other ∈ moves → other = peer)
    (smooth : pipeline.Smooth blockHash stage config life moves)
    (ran : pipeline.run blockHash stage moves = some finish)
    (increasing : Increasing finish.machine.stage.db.db.log) :
    ∃ life', InStep blockHash stage known body config indexers origin finish life' ∧
      Approaching blockHash stage origin peer (fetches + moves.countP Move.isFetch) finish := by
  induction moves generalizing pipeline life fetches with
  | nil =>
      rw [Pipeline.run, Option.some.injEq] at ran
      rw [← ran]
      exact ⟨life, inStep, approaching⟩
  | cons move moves ih =>
      rw [Pipeline.run] at ran
      cases stepped : pipeline.step blockHash stage move with
      | none =>
          rw [stepped] at ran
          cases ran
      | some between =>
          rw [stepped] at ran
          have asked (other : Peer) (first : move = .fetch other) : other = peer :=
            only other (by rw [first]; exact List.mem_cons_self)
          have here := inStep.step genesis tell (by
              intro other first
              rw [asked other first]
              exact ⟨honest, whole⟩) (by
              intro other first
              rw [asked other first]
              exact approaching.away inStep honest tell) smooth.1 stepped
            (VersionedLog.increasing_prefix (Pipeline.run_log ran) increasing)
          have rest : ∀ other, .fetch other ∈ moves → other = peer := by
            intro other later
            exact only other (List.mem_cons_of_mem _ later)
          cases kind : move.isFetch with
          | false =>
              rw [List.countP_cons_of_neg (by rw [kind]; exact Bool.false_ne_true)]
              exact ih (approaching.unmoved kind stepped) here rest (smooth.2 between stepped) ran
          | true =>
              have fetched : Approaching blockHash stage origin peer (fetches + 1) between := by
                cases move with
                | fetch other =>
                    rw [asked other rfl] at stepped
                    exact approaching.fetch inStep honest tell sized stepped
                | template info txs => cases kind
                | index env => cases kind
              have count : fetches + 1 + moves.countP Move.isFetch =
                  fetches + (move :: moves).countP Move.isFetch := by
                rw [List.countP_cons_of_pos kind]
                omega
              rw [← count]
              exact ih fetched here rest (smooth.2 between stepped) ran

theorem Approaching.arrived {fetches : Nat}
    (approaching : Approaching blockHash stage origin peer fetches pipeline)
    (enough : peer.active.length ≤ fetches * min stage.blockPageSize peer.limit) :
    emittedChain origin pipeline.emitted = peer.chain blockHash peer.active.length := by
  rcases approaching with ⟨rfl, _, taller⟩ | ⟨count, onNode, far⟩
  · have none : peer.active.length = 0 := by omega
    rw [none] at taller ⊢
    rw [List.length_eq_zero_iff.mp (Nat.le_zero.mp taller)]
    rfl
  · have inside := onNode.inside
    have last : count = peer.active.length := by omega
    rw [onNode.chain, last]

end Fetches

/-- Start the pipeline on the database of any life, let its stages run in any order on honest nodes that
have not gone back, while the calls of the index stage succeed, and then let such a node stay on one
chain that is at least as high as the emitted one. Once the fetches are
as many as the node's chain has pages, the emitted chain is the node's. When the index stage has then
taken all events, the table of hashes is the node's chain, the tip is the node's tip, and the data is
what indexing the node's blocks leads to. -/
theorem sync_converges (blockHash : Header → BlockHash) (stage : PullStage) (known : Header → Prop)
    (body : Header → BlockTxs) (config : Config) (indexers : List Indexer) (life : Life) (tip : Point)
    (worker : PullWorker) (before last : List Move) (middle finish : Pipeline) (peer : Peer)
    (small : config.maxRollbacks < 2 ^ 64) (genesis : stage.genesisHash = config.genesisHash)
    (sized : stage.blockPageSize ≠ 0)
    (tell : HashesTell (KnownAt blockHash known) stage.genesisHash)
    (lived : Life.Lived (KnownAt blockHash known) config indexers life)
    (bodies : ∀ content ∈ life.history.chain, ∃ header,
      KnownAt blockHash known header content.1 ∧ content.2 = body header)
    (booted : PullWorker.bootstrap stage (Reads.of life.machine.stage.db.db) tip = .ok worker)
    (honest : ∀ other, .fetch other ∈ before → other.Honest blockHash stage known ∧ other.Whole body)
    (away : (Pipeline.start life.machine worker).Requests blockHash stage
      (NotReturned blockHash stage (life.history.confirmed.map IndexedBlock.point)) before)
    (ran : (Pipeline.start life.machine worker).run blockHash stage before = some middle)
    (smooth : (Pipeline.start life.machine worker).Smooth blockHash stage config life (before ++ last))
    (stays : peer.Honest blockHash stage known ∧ peer.Whole body)
    (returned : NotReturned blockHash stage (life.history.confirmed.map IndexedBlock.point) middle peer)
    (taller : (emittedChain (life.history.confirmed.map IndexedBlock.point) middle.emitted).length ≤
      peer.active.length)
    (only : ∀ other, .fetch other ∈ last → other = peer)
    (enough : peer.active.length ≤
      last.countP Move.isFetch * min stage.blockPageSize peer.limit)
    (ran' : middle.run blockHash stage last = some finish)
    (increasing : Increasing finish.machine.stage.db.db.log) :
    emittedChain (life.history.confirmed.map IndexedBlock.point) finish.emitted =
        peer.chain blockHash peer.active.length ∧
      (finish.queue = [] →
        HoldsChain finish.machine.stage.db.db (peer.chain blockHash peer.active.length) ∧
        finish.machine.stage.lastProcessed =
          chainTop stage.genesisHash (peer.chain blockHash peer.active.length) ∧
        ∃ history : History, history.chain = peer.contents blockHash ∧
          Reflects indexers config.network history finish.machine.stage.db.db.view) := by
  have increasing' := VersionedLog.increasing_prefix (Pipeline.run_log ran') increasing
  have sound := lived.sound small (VersionedLog.increasing_prefix (Pipeline.run_log ran) increasing')
  rcases (inStep_start genesis sound bodies booted).run genesis tell honest away smooth ran
    increasing' with ⟨life', inStep, smooth'⟩
  have start : Approaching blockHash stage (life.history.confirmed.map IndexedBlock.point) peer 0
      middle := Or.inl ⟨rfl, returned, taller⟩
  rcases start.run inStep genesis tell stays.1 stays.2 sized only smooth' ran' increasing with
    ⟨life'', inStep', approaching⟩
  rw [Nat.zero_add] at approaching
  have arrived := approaching.arrived enough
  refine ⟨arrived, ?_⟩
  intro drained
  rcases inStep'.taken with ⟨taken, split, same⟩
  rw [drained, List.append_nil] at split
  rw [← split, arrived] at same
  rcases inStep'.sound.holds with ⟨holds, _, top⟩
  rw [inStep'.machine, same] at holds
  rw [Life.tip, inStep'.machine, same, ← genesis] at top
  rcases inStep'.sound.chronicle _ (reflects_invariant indexers config.network) with ⟨_, chronicle⟩
  have now := chronicle.now
  rw [inStep'.machine] at now
  refine ⟨holds, top, life''.history, ?_, now⟩
  exact stays.1.contents_eq stays.2 tell (life''.history.chain_points.trans same) inStep'.bodies

/-- The node moves to the second branch and stays there: after four fetches of one block each, and
with the queue drained, the table holds that branch. -/
theorem sync_converges_second_branch :
    ∃ finish, (Pipeline.start deepLife.machine threeWorker).run byteHash onePage
        [.fetch secondBranch, .index (acceptAt 11), .fetch secondBranch, .fetch secondBranch,
          .index (acceptAt 13), .index (acceptAt 15), .fetch secondBranch, .index (acceptAt 17)] =
        some finish ∧
      HoldsChain finish.machine.stage.db.db (secondBranch.chain byteHash 4) := by
  have drained : ((Pipeline.start deepLife.machine threeWorker).run byteHash onePage
      [.fetch secondBranch, .index (acceptAt 11), .fetch secondBranch, .fetch secondBranch,
        .index (acceptAt 13), .index (acceptAt 15), .fetch secondBranch, .index (acceptAt 17)]).map
        (fun pipeline => pipeline.queue) = some [] := by decide +kernel
  rcases Option.map_eq_some_iff.mp drained with ⟨finish, ran, empty⟩
  have ordered : ∀ finish ∈ (Pipeline.start deepLife.machine threeWorker).run byteHash onePage
      [.fetch secondBranch, .index (acceptAt 11), .fetch secondBranch, .fetch secondBranch,
        .index (acceptAt 13), .index (acceptAt 15), .fetch secondBranch, .index (acceptAt 17)],
      Increasing finish.machine.stage.db.db.log := by decide +kernel
  have results := sync_converges byteHash onePage (· ∈ branchHeaders) (fun _ => []) deepConfig []
    deepLife ⟨3, hashOf 3⟩ threeWorker [] _ _ finish secondBranch (by decide) rfl (by decide)
    branchHeaders_tell deepLife_lived deepLife_bodies (by decide +kernel)
    (by intro other impossible; cases impossible) trivial rfl (by decide +kernel)
    ⟨branches_honest (Or.inr rfl), branches_whole (Or.inr rfl)⟩
    (by rw [deepLife_chain]; exact notReturned_start deepLife_holds secondBranch)
    (by rw [deepLife_chain]; decide) (by intro other member; simpa using member) (by decide) ran
    (ordered finish ran)
  exact ⟨finish, ran, (results.2 empty).1⟩

end Symphony
