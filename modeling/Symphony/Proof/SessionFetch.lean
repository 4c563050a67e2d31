import Symphony.Proof.SessionAnswers

/-! A fetch over a session with an honest node is the fetch of the pull stage. -/

namespace Symphony

theorem headersFor_eq {node : HonestNode} {peer : Peer} {intersects : List BlockHash} {first : Header}
    {later : List Header} (listed : node.headersFor peer intersects = first :: later) :
    ∃ block blocks, peer.getNewHeaders node.format.blockHash node.stage intersects = block :: blocks ∧
      block.header = first ∧ blocks.map NodeBlock.header = later := by
  rw [HonestNode.headersFor, List.map_eq_cons_iff] at listed
  obtain ⟨block, blocks, found, same, rest⟩ := listed
  exact ⟨block, blocks, found, same, rest⟩

section Pairs

variable (page : List NodeBlock)

theorem zip_headers :
    (page.map NodeBlock.header).zip page = page.map (fun block => (block.header, block)) := by
  have shown := @List.zip_map' _ _ _ NodeBlock.header id page
  rw [List.map_id] at shown
  exact shown

theorem headed :
    (page.map (fun block => (block.header, block))).map
      (fun ((header, block) : Header × NodeBlock) => { block with header }) = page := by
  rw [List.map_map]
  exact List.map_id page

theorem hashesMatch (blockHash : Header → BlockHash) :
    (page.map (fun block => (block.header, block))).all
      (fun ((header, block) : Header × NodeBlock) => blockHash header = blockHash block.header) := by
  rw [List.all_map, List.all_eq_true]
  intro block member
  exact decide_eq_true rfl

end Pairs

theorem processPage_eq {node : HonestNode} {peer : Peer} {worker : PullWorker} {reads : Reads}
    {first : Header} {later : List Header} {blocks : List NodeBlock} (keeps : node.Keeps peer)
    (listed : node.headersFor peer (worker.cursor.map Point.hash) = first :: later)
    (received : (((first :: later).take node.stage.blockPageSize).map node.format.blockHash).map
      node.stored = blocks.map some) :
    worker.processPage node.format.blockHash node.stage reads first
        ((first :: later).take node.stage.blockPageSize) blocks =
      worker.fetchChainActions node.format.blockHash node.stage peer reads := by
  obtain ⟨block, others, found, rfl, rfl⟩ := headersFor_eq listed
  rw [← List.map_cons, ← List.map_take] at received ⊢
  have active : ∀ kept ∈ (block :: others).take node.stage.blockPageSize, kept ∈ peer.active := by
    intro kept member
    have sent := List.mem_of_mem_take member
    rw [← found] at sent
    exact List.mem_of_mem_drop (List.mem_of_mem_take sent)
  have same : blocks = (block :: others).take node.stage.blockPageSize := by
    have stored : (((block :: others).take node.stage.blockPageSize).map NodeBlock.header).map
        (fun header => node.stored (node.format.blockHash header)) =
        ((block :: others).take node.stage.blockPageSize).map some := by
      rw [List.map_map]
      apply List.map_congr_left
      intro kept member
      exact keeps kept (active kept member)
    rw [List.map_map] at received
    have both := received.symm.trans stored
    exact List.map_injective_iff.mpr (Option.some_injective _) both
  subst same
  rw [PullWorker.processPage, PullWorker.fetchChainActions, found]
  simp only [List.length_map, ne_eq, not_true_eq_false, if_false]
  rw [zip_headers, headed, hashesMatch]
  rfl

def Client.request : Client → Option Request
  | .requesting request => some request
  | .awaitingHeaders intersects => some (.newHeaders intersects)
  | .awaitingBlocks hashes _ => some (.blocks hashes)
  | _ => none

def CallResult.request : CallResult → Request
  | .headers intersects _ => .newHeaders intersects
  | .blocks hashes _ _ => .blocks hashes

@[simp] theorem Request.request_refused (request : Request) : request.refused.request = request := by
  cases request with
  | newHeaders intersects => rfl
  | blocks hashes => rfl

@[simp] theorem Request.request_waiting (request : Request) :
    request.waiting.request = some request := by
  cases request with
  | newHeaders intersects => rfl
  | blocks hashes => rfl

theorem Exchange.Step.call_cases {format : BlockFormat} {before after : Exchange} {move : SessionMove}
    {results : List CallResult} (step : Step format before move results after) :
    results = [] ∧ (after.client.request = before.client.request ∨
        ∃ request, move = .call request ∧ after.client.request = some request) ∨
      ∃ result, results = [result] ∧ before.client.request = some result.request ∧
        after.client.request = none := by
  cases step with
  | connected connecting => exact Or.inl ⟨rfl, Or.inl (by rw [connecting]; rfl)⟩
  | @call request idle => exact Or.inl ⟨rfl, Or.inr ⟨request, rfl, rfl⟩⟩
  | submit running requesting =>
      refine Or.inl ⟨rfl, Or.inl ?_⟩
      rw [requesting]
      exact Request.request_waiting _
  | refused stopped requesting =>
      refine Or.inr ⟨_, rfl, ?_, rfl⟩
      rw [requesting, Request.request_refused]
      rfl
  | headers awaiting next => exact Or.inr ⟨_, rfl, by rw [awaiting]; rfl, rfl⟩
  | headersClosed stopped awaiting none => exact Or.inr ⟨_, rfl, by rw [awaiting]; rfl, rfl⟩
  | block awaiting next few => exact Or.inl ⟨rfl, Or.inl (by rw [awaiting]; rfl)⟩
  | checked awaiting taken all => exact Or.inr ⟨_, rfl, by rw [awaiting]; rfl, rfl⟩
  | blocksClosed stopped awaiting none => exact Or.inr ⟨_, rfl, by rw [awaiting]; rfl, rfl⟩
  | stop same stopped requests headers blocks => exact Or.inl ⟨rfl, Or.inl (by rw [same])⟩
  | _ => exact Or.inl ⟨rfl, Or.inl rfl⟩

theorem Talk.Steps.called {node : HonestNode} {talk next : Talk} {move : TalkMove}
    {results : List CallResult} (steps : talk.Steps node move next results) :
    results = [] ∧ (next.session.client.request = talk.session.client.request ∨
        ∃ request, move = .session (.call request) ∧ next.session.client.request = some request) ∨
      ∃ result, results = [result] ∧ talk.session.client.request = some result.request ∧
        next.session.client.request = none := by
  have others (other : ∀ own, move ≠ .session own) :
      results = [] ∧ next.session.client.request = talk.session.client.request := by
    obtain ⟨none, same⟩ := steps.client other
    exact ⟨none, congrArg Client.request same⟩
  cases move with
  | session own =>
      cases steps with
      | session own step =>
          cases (PeerSession.exchange_step step).call_cases with
          | inl quiet =>
              obtain ⟨none, calls⟩ := quiet
              refine Or.inl ⟨none, calls.imp_right ?_⟩
              intro begun
              obtain ⟨request, same, pending⟩ := begun
              exact ⟨request, congrArg _ same, pending⟩
          | inr returned => exact Or.inr returned
  | hear => exact Or.inl ((others nofun).imp_right Or.inl)
  | answer => exact Or.inl ((others nofun).imp_right Or.inl)
  | volunteer message => exact Or.inl ((others nofun).imp_right Or.inl)
  | chain peer => exact Or.inl ((others nofun).imp_right Or.inl)

namespace FetchTalk

variable {node : HonestNode} {worker : PullWorker} {reads : Reads} {peers : List Peer}
variable {state next finish : FetchTalk} {move : TalkMove} {moves : List TalkMove}

/-- What a fetch has got so far. -/
def Fetched (node : HonestNode) (worker : PullWorker) (reads : Reads) (peers : List Peer)
    (stopped : Prop) : Fetch → Prop
  | .askHeaders => True
  | .askBlocks first headers => ∃ peer ∈ peers, ∃ later,
      node.headersFor peer (worker.cursor.map Point.hash) = first :: later ∧
        headers = (first :: later).take node.stage.blockPageSize
  | .ended outcome => stopped ∧ (∃ failure : P2PError, outcome = .error failure.workerError) ∨
      ∃ peer ∈ peers,
        outcome = worker.fetchChainActions node.format.blockHash node.stage peer reads

theorem fetched_resume {stopped : Prop} {fetch : Fetch} {result : CallResult}
    (keeps : ∀ peer ∈ peers, node.Keeps peer) (fetched : Fetched node worker reads peers stopped fetch)
    (own : fetch.request node.format.blockHash worker = some result.request)
    (answered : Answered node peers stopped result) :
    Fetched node worker reads peers stopped
      (fetch.resume node.format.blockHash node.stage worker reads result) := by
  cases fetch with
  | askHeaders =>
      cases result with
      | headers intersects result =>
          rw [Fetch.request, CallResult.request, Option.some.injEq, Request.newHeaders.injEq] at own
          subst own
          cases result with
          | error failure => exact Or.inl ⟨answered.1, failure, rfl⟩
          | ok listed =>
              obtain ⟨peer, member, same⟩ := answered
              cases listed with
              | nil =>
                  refine Or.inr ⟨peer, member, ?_⟩
                  have none := List.map_eq_nil_iff.mp same.symm
                  rw [PullWorker.fetchChainActions, none]
              | cons first later => exact ⟨peer, member, later, same.symm, rfl⟩
      | blocks hashes raw result => cases own
  | askBlocks first headers =>
      cases result with
      | headers intersects result => cases own
      | blocks hashes raw result =>
          rw [Fetch.request, CallResult.request, Option.some.injEq, Request.blocks.injEq] at own
          subst own
          cases result with
          | error failure => exact Or.inl ⟨answered.1, failure, rfl⟩
          | ok blocks =>
              obtain ⟨peer, member, later, listed, rfl⟩ := fetched
              exact Or.inr ⟨peer, member, processPage_eq (keeps peer member) listed answered⟩
  | ended outcome => cases own

/-- The calls are those of the fetch, and what they have returned is of one of these chains. -/
structure Sound (node : HonestNode) (worker : PullWorker) (reads : Reads) (peers : List Peer)
    (state : FetchTalk) : Prop where
  talk : state.talk.Sound node peers
  calls : state.talk.session.client.request = none ∨
    state.talk.session.client.request = state.fetch.request node.format.blockHash worker
  fetched : Fetched node worker reads peers (state.talk.session.handler = .stopped) state.fetch

theorem step_eq (stepped : state.step node worker reads move = some next) :
    state.permits node worker move ∧ ∃ results, state.talk.step node move = some (next.talk, results) ∧
      next.fetch = results.foldl
        (Fetch.resume node.format.blockHash node.stage worker reads) state.fetch := by
  rw [FetchTalk.step, Option.ite_none_right_eq_some, Option.map_eq_some_iff] at stepped
  obtain ⟨permitted, ⟨talk, results⟩, step, rfl⟩ := stepped
  exact ⟨permitted, results, step, rfl⟩

theorem Fetched.mono {stopped later : Prop} {fetch : Fetch}
    (fetched : Fetched node worker reads peers stopped fetch) (lasting : stopped → later) :
    Fetched node worker reads peers later fetch := by
  cases fetch with
  | askHeaders => trivial
  | askBlocks first headers => exact fetched
  | ended outcome => exact fetched.imp_left (fun failed => ⟨lasting failed.1, failed.2⟩)

theorem Sound.step (sound : state.Sound node worker reads peers)
    (stepped : state.step node worker reads move = some next) (chains : move.chains ⊆ peers)
    (keeps : ∀ peer ∈ peers, node.Keeps peer) : next.Sound node worker reads peers := by
  obtain ⟨permitted, results, step, resumed⟩ := step_eq stepped
  have steps := Talk.step_cases step
  obtain ⟨talk, answered⟩ := sound.talk.step steps chains
  have fetched := sound.fetched.mono steps.stopped
  have silent (none : results = []) : next.fetch = state.fetch := by
    rw [resumed, none]
    rfl
  have called := steps.called
  cases called with
  | inl quiet =>
      obtain ⟨none, calls⟩ := quiet
      rw [← silent none] at fetched
      refine ⟨talk, ?_, fetched⟩
      rw [silent none]
      cases calls with
      | inl same =>
          rw [same]
          exact sound.calls
      | inr begun =>
          obtain ⟨request, rfl, same⟩ := begun
          rw [same]
          exact Or.inr (of_decide_eq_true permitted).symm
  | inr returned =>
      obtain ⟨result, rfl, pending, done⟩ := returned
      refine ⟨talk, Or.inl done, ?_⟩
      rw [resumed]
      have own : state.fetch.request node.format.blockHash worker = some result.request := by
        have calls := sound.calls
        rw [pending] at calls
        exact (calls.resolve_left (Option.some_ne_none _)).symm
      exact fetched_resume keeps fetched own (answered result List.mem_cons_self)

theorem run_cons (ran : state.run node worker reads (move :: moves) = some finish) :
    ∃ next, state.step node worker reads move = some next ∧
      next.run node worker reads moves = some finish := by
  rw [FetchTalk.run, List.foldlM_cons] at ran
  exact Option.bind_eq_some_iff.mp ran

theorem Sound.run (sound : state.Sound node worker reads peers)
    (ran : state.run node worker reads moves = some finish)
    (chains : moves.flatMap TalkMove.chains ⊆ peers) (keeps : ∀ peer ∈ peers, node.Keeps peer) :
    finish.Sound node worker reads peers := by
  induction moves generalizing state with
  | nil =>
      cases ran
      exact sound
  | cons move moves ih =>
      obtain ⟨next, stepped, rest⟩ := run_cons ran
      rw [List.flatMap_cons, List.append_subset] at chains
      exact ih (sound.step stepped chains.1 keeps) rest chains.2

theorem run_keeps (ran : state.run node worker reads moves = some finish)
    (keeps : node.Keeps state.talk.peer) : ∀ peer ∈ moves.flatMap TalkMove.chains, node.Keeps peer := by
  induction moves generalizing state with
  | nil => exact List.forall_mem_nil _
  | cons move moves ih =>
      obtain ⟨next, stepped, rest⟩ := run_cons ran
      obtain ⟨permitted, results, step, resumed⟩ := step_eq stepped
      obtain ⟨kept, first⟩ := (Talk.step_cases step).keeps keeps
      rw [List.flatMap_cons, List.forall_mem_append]
      exact ⟨first, ih rest kept⟩

theorem start_sound {node : HonestNode} {worker : PullWorker} {reads : Reads} {peer : Peer}
    {before : List TalkMove} {middle : Talk} {earlier : List CallResult}
    (reached : (Talk.mk .connect peer []).run node before = some (middle, earlier))
    (idle : middle.session.client = .idle) (later : List Peer) :
    (FetchTalk.mk middle .askHeaders).Sound node worker reads (middle.peer :: later) := by
  have start := Talk.connect_sound node peer (peer :: before.flatMap TalkMove.chains) List.mem_cons_self
  have sound := (start.run reached (List.subset_cons_self _ _)).1
  exact ⟨sound.renew idle later, Or.inl (congrArg Client.request idle), trivial⟩

end FetchTalk

/-- A fetch over a session with an honest node, while the node goes from chain to chain and the tasks
of the session take turns: it ends with what the pull stage fetches from one of these chains, or with an
error after the handler has stopped. -/
theorem session_fetch (node : HonestNode) (peer : Peer) (keeps : node.Keeps peer)
    (before moves : List TalkMove) (middle : Talk) (earlier : List CallResult)
    (reached : (Talk.mk .connect peer []).run node before = some (middle, earlier))
    (idle : middle.session.client = .idle) (worker : PullWorker) (reads : Reads) (finish : FetchTalk)
    (run : (FetchTalk.mk middle .askHeaders).run node worker reads moves = some finish)
    (outcome : Except WorkerError (List ChainEvent × PullWorker))
    (ended : finish.fetch = .ended outcome) :
    finish.talk.session.handler = .stopped ∧
        (∃ failure : P2PError, outcome = .error failure.workerError) ∨
      ∃ chain ∈ middle.peer :: moves.flatMap TalkMove.chains,
        outcome = worker.fetchChainActions node.format.blockHash node.stage chain reads := by
  have kept := (Talk.run_keeps reached keeps).1
  have all : ∀ chain ∈ middle.peer :: moves.flatMap TalkMove.chains, node.Keeps chain :=
    List.forall_mem_cons.mpr ⟨kept, FetchTalk.run_keeps run kept⟩
  have start := @FetchTalk.start_sound node worker reads peer before middle earlier reached idle
    (moves.flatMap TalkMove.chains)
  have fetched := (start.run run (List.subset_cons_self _ _) all).fetched
  rw [ended] at fetched
  exact fetched

def genesisWorker : PullWorker := ⟨[⟨0, mainnetGenesis⟩], ⟨0, mainnetGenesis⟩⟩

def oneBlockFetch : Fetch := .ended (.ok
  ([.rollForward ⟨1, mainnetBlockOne⟩ mainnetHeaderOne [coinbaseOne] ⟨1, mainnetBlockOne⟩],
    ⟨[⟨1, mainnetBlockOne⟩, ⟨0, mainnetGenesis⟩, ⟨0, mainnetGenesis⟩], ⟨1, mainnetBlockOne⟩⟩))

theorem session_fetch_block : ∃ middle earlier finish outcome,
    (Talk.mk .connect ⟨[], 2000⟩ []).run oneBlockNode (handshake.map SessionMove.talk) =
      some (middle, earlier) ∧
    middle.session.client = .idle ∧
    (FetchTalk.mk middle .askHeaders).run oneBlockNode genesisWorker (Reads.of DB.empty) oneBlockTalk =
      some finish ∧
    finish.fetch = oneBlockFetch ∧ finish.fetch = .ended outcome ∧
    (finish.talk.session.handler = .stopped ∧
        (∃ failure : P2PError, outcome = .error failure.workerError) ∨
      ∃ chain ∈ middle.peer :: oneBlockTalk.flatMap TalkMove.chains,
        outcome = genesisWorker.fetchChainActions oneBlock.blockHash ⟨mainnetGenesis, 1⟩ chain
          (Reads.of DB.empty)) := by
  have fetches : ((Talk.mk .connect ⟨[], 2000⟩ []).run oneBlockNode
      (handshake.map SessionMove.talk)).map (fun found => (found.1.session.client,
        ((FetchTalk.mk found.1 .askHeaders).run oneBlockNode genesisWorker (Reads.of DB.empty)
          oneBlockTalk).map FetchTalk.fetch)) = some (.idle, some oneBlockFetch) := by
    decide +kernel
  rw [Option.map_eq_some_iff] at fetches
  obtain ⟨⟨middle, earlier⟩, reached, same⟩ := fetches
  rw [Prod.mk.injEq, Option.map_eq_some_iff] at same
  obtain ⟨idle, finish, run, ended⟩ := same
  exact ⟨middle, earlier, finish, _, reached, idle, run, ended, ended,
    session_fetch oneBlockNode ⟨[], 2000⟩ (by decide) (handshake.map SessionMove.talk) oneBlockTalk
      middle earlier reached idle genesisWorker (Reads.of DB.empty) finish run _ ended⟩

end Symphony
