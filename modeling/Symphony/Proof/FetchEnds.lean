import Symphony.Lib.Budget
import Symphony.Proof.FetchBudget

/-! A fetch over a session with an honest node comes to its end. -/

namespace Symphony

def SessionMove.task : SessionMove → Bool
  | .handleRequest => true
  | .handleMessage => true
  | .relay => true
  | .egressRecv => true
  | .writeMessage => true
  | .readMessage => true
  | .ingressSend => true
  | _ => false

namespace PeerSession

variable {format : BlockFormat} {session : PeerSession}

/-- A session in which nothing is on its way but what a call can take. -/
structure Still (session : PeerSession) : Prop where
  selecting : session.handler = .selecting
  requestQueue : session.requestQueue = []
  egressQueue : session.egressQueue = []
  egress : session.egress = none
  ingressQueue : session.ingressQueue = []
  ingress : session.ingress = none
  received : session.received = []

/-- The tasks cannot wait for each other in a circle. -/
theorem still_of_stuck (running : session.handler ≠ .stopped) (headers : session.headersQueue = [])
    (blocks : session.blocksQueue = [])
    (stuck : ∀ move : SessionMove, move.task → session.step format move = none) : session.Still := by
  have egress : session.egress = none := by
    cases held : session.egress with
    | none => rfl
    | some message =>
        have writes := stuck .writeMessage rfl
        simp [PeerSession.step, held, running] at writes
  have egressQueue : session.egressQueue = [] := by
    cases queued : session.egressQueue with
    | nil => rfl
    | cons message egressQueue =>
        have receives := stuck .egressRecv rfl
        simp [PeerSession.step, egress, queued, running] at receives
  have selecting : session.handler = .selecting := by
    have relays := stuck .relay rfl
    rw [PeerSession.step, Option.map_eq_none_iff] at relays
    cases handler : session.handler with
    | selecting => rfl
    | stopped => exact absurd handler running
    | sending message => simp [relay, handler, egressQueue, queueSize] at relays
    | relayingHeaders listed => simp [relay, handler, headers, relaySize] at relays
    | relayingBlock raw => simp [relay, handler, blocks, relaySize] at relays
  have requestQueue : session.requestQueue = [] := by
    cases queued : session.requestQueue with
    | nil => rfl
    | cons request requestQueue =>
        have handles := stuck .handleRequest rfl
        simp [PeerSession.step, selecting, queued] at handles
  have ingressQueue : session.ingressQueue = [] := by
    cases queued : session.ingressQueue with
    | nil => rfl
    | cons message ingressQueue =>
        have handles := stuck .handleMessage rfl
        simp [PeerSession.step, selecting, queued] at handles
  have ingress : session.ingress = none := by
    cases held : session.ingress with
    | none => rfl
    | some message =>
        have sends := stuck .ingressSend rfl
        simp [PeerSession.step, held, running, ingressQueue, queueSize] at sends
  have received : session.received = [] := by
    cases waits : session.received with
    | nil => rfl
    | cons message received =>
        have reads := stuck .readMessage rfl
        simp [PeerSession.step, ingress, waits, running] at reads
  exact ⟨selecting, requestQueue, egressQueue, egress, ingressQueue, ingress, received⟩

theorem Still.exchange (still : session.Still) (taken : session.sent = []) :
    session.exchange = ⟨session.client, false, [], session.headersQueue,
      session.client.collected ++ session.blocksQueue⟩ := by
  simp [PeerSession.exchange, outgoing, incoming, still.selecting, still.requestQueue, still.egressQueue,
    still.egress, still.ingressQueue, still.ingress, still.received, taken, PeerHandler.outgoing,
    PeerHandler.incoming]

theorem recv_headers {intersects : List BlockHash}
    (awaiting : session.client = .awaitingHeaders intersects)
    (stuck : session.step format .recv = none) :
    session.headersQueue = [] ∧ session.handler ≠ .stopped := by
  simp only [PeerSession.step, awaiting, recvHeaders] at stuck
  split at stuck
  · cases stuck
  · rename_i queued
    rw [ite_eq_right_iff] at stuck
    exact ⟨queued, fun stopped => absurd (stuck stopped) (Option.some_ne_none _)⟩

theorem recv_blocks {hashes : List BlockHash} {collected : List RawBlock}
    (awaiting : session.client = .awaitingBlocks hashes collected)
    (stuck : session.step format .recv = none) :
    collected.length ≠ hashes.length ∧ session.blocksQueue = [] ∧ session.handler ≠ .stopped := by
  simp only [PeerSession.step, awaiting, recvBlock] at stuck
  split at stuck
  · cases stuck
  · rename_i few
    split at stuck
    · cases stuck
    · rename_i queued
      rw [ite_eq_right_iff] at stuck
      exact ⟨few, queued, fun stopped => absurd (stuck stopped) (Option.some_ne_none _)⟩

theorem submit_stuck {request : Request} (requesting : session.client = .requesting request)
    (stuck : session.step format (.submit request) = none) :
    session.requestQueue ≠ [] ∧ session.handler ≠ .stopped := by
  rw [PeerSession.step, if_pos requesting] at stuck
  unfold PeerSession.submit at stuck
  split at stuck
  · cases request with
    | newHeaders intersects => cases stuck
    | blocks hashes => cases stuck
  · rename_i running
    refine ⟨?_, running⟩
    intro free
    rw [if_pos (by rw [free]; exact Nat.one_pos)] at stuck
    cases stuck

end PeerSession

section Answers

variable {node : HonestNode} {peers : List Peer} {session : PeerSession} {owed : List DecodedMessage}

theorem Paired.queues (paired : Paired node peers (session.exchange.extend owed))
    (stuck : session.step node.format .recv = none) :
    session.headersQueue = [] ∧ session.blocksQueue = [] := by
  have headersIn (none : (session.exchange.extend owed).headers = []) : session.headersQueue = [] :=
    (List.append_eq_nil_iff.mp (List.append_eq_nil_iff.mp none).1).1
  have blocksIn (none : (session.exchange.extend owed).blocks = []) : session.blocksQueue = [] :=
    (List.append_eq_nil_iff.mp (List.append_eq_nil_iff.mp (List.append_eq_nil_iff.mp none).1).1).2
  cases client : session.client with
  | awaitingHeaders intersects =>
      exact ⟨(PeerSession.recv_headers client stuck).1, blocksIn (paired.headers client).1⟩
  | awaitingBlocks hashes collected =>
      exact ⟨headersIn (paired.blocks client).1, (PeerSession.recv_blocks client stuck).2.1⟩
  | _ =>
      have quiet := paired.quiet (congrArg Client.awaits client)
      exact ⟨headersIn quiet.headers, blocksIn quiet.blocks⟩

theorem length_blocksFor_stored {hashes : List BlockHash}
    (stored : ∀ hash ∈ hashes, (node.stored hash).isSome) :
    (node.blocksFor hashes).length = hashes.length := by
  induction hashes with
  | nil => rfl
  | cons hash hashes ih =>
      rw [List.forall_mem_cons] at stored
      obtain ⟨block, kept⟩ := Option.isSome_iff_exists.mp stored.1
      have first : node.blocksFor (hash :: hashes) = node.encode block :: node.blocksFor hashes := by
        rw [HonestNode.blocksFor, HonestNode.blocksFor, List.filterMap_cons, kept]
        rfl
      rw [first, List.length_cons, List.length_cons, ih stored.2]

theorem Paired.settled {client : Client} {request : Request} {blocks : List RawBlock}
    (paired : Paired node peers ⟨client, false, [], [], blocks⟩) (awaits : client.awaits = some request) :
    request.asks = false ∧ blocks = [] ∨ ∃ peer,
      (node.answers peer request.message).flatMap DecodedMessage.headersOf = [] ∧
        blocks = (node.answers peer request.message).flatMap DecodedMessage.blocksOf := by
  cases paired with
  | inl quiet =>
      have none := quiet.asked rfl
      rw [awaits, Option.toList_some, List.filter_singleton] at none
      cases asks : request.asks with
      | false => exact Or.inl ⟨rfl, quiet.blocks⟩
      | true =>
          rw [asks] at none
          cases none
  | inr answered =>
      obtain ⟨own, same, peer, member, due⟩ := answered
      rw [awaits, Option.some.injEq] at same
      subst same
      obtain ⟨headers, blocks, _⟩ := due.exact rfl
      exact Or.inr ⟨peer, headers.symm, blocks⟩

end Answers

theorem Exchange.Step.connecting {format : BlockFormat} {before after : Exchange} {move : SessionMove}
    {results : List CallResult} (step : Step format before move results after)
    (connecting : after.client = .connecting) : before.client = .connecting := by
  cases step with
  | quiet submitted heard headers blocks => exact connecting
  | stop same stopped requests headers blocks => exact same.symm.trans connecting
  | hear next => exact connecting
  | say running => exact connecting
  | @submit request running requesting =>
      cases request with
      | newHeaders intersects => cases connecting
      | blocks hashes => cases connecting
  | _ => cases connecting

namespace FetchTalk

variable {node : HonestNode} {worker : PullWorker} {reads : Reads} {peers : List Peer}
variable {state next finish : FetchTalk} {move : TalkMove} {moves : List TalkMove}

structure Live (node : HonestNode) (worker : PullWorker) (reads : Reads) (peers : List Peer)
    (state : FetchTalk) : Prop where
  sound : state.Sound node worker reads peers
  connected : state.talk.session.client ≠ .connecting

theorem Live.step (live : state.Live node worker reads peers)
    (stepped : state.step node worker reads move = some next) (chains : move.chains ⊆ peers)
    (keeps : ∀ peer ∈ peers, node.Keeps peer) : next.Live node worker reads peers := by
  refine ⟨live.sound.step stepped chains keeps, ?_⟩
  intro connecting
  apply live.connected
  obtain ⟨talk, fetch⟩ := next
  obtain ⟨permitted, results, step, resumed⟩ := step_eq stepped
  have steps : state.talk.Steps node move talk results := Talk.step_cases step
  cases steps with
  | session own step => exact (PeerSession.exchange_step step).connecting connecting
  | hear silent step => exact (PeerSession.exchange_step step).connecting connecting
  | answer owes step => exact (PeerSession.exchange_step step).connecting connecting
  | volunteer free step => exact (PeerSession.exchange_step step).connecting connecting
  | chain kept => exact connecting

theorem Fetched.stored {stopped : Prop} {first : Header} {headers : List Header}
    (keeps : ∀ peer ∈ peers, node.Keeps peer)
    (fetched : Fetched node worker reads peers stopped (.askBlocks first headers)) :
    ∀ hash ∈ headers.map node.format.blockHash, (node.stored hash).isSome := by
  obtain ⟨peer, member, later, listed, rfl⟩ := fetched
  intro hash shown
  rw [List.mem_map] at shown
  obtain ⟨header, place, rfl⟩ := shown
  have sent := List.mem_of_mem_take place
  rw [← listed, HonestNode.headersFor, List.mem_map] at sent
  obtain ⟨block, found, rfl⟩ := sent
  rw [keeps peer member block (List.mem_of_mem_drop (List.mem_of_mem_take found))]
  rfl

theorem Sound.stored {hashes : List BlockHash} {collected : List RawBlock}
    (sound : state.Sound node worker reads peers) (keeps : ∀ peer ∈ peers, node.Keeps peer)
    (awaiting : state.talk.session.client = .awaitingBlocks hashes collected) :
    ∀ hash ∈ hashes, (node.stored hash).isSome := by
  have calls := sound.calls
  have fetched := sound.fetched
  rw [awaiting] at calls
  have request : some (Request.blocks hashes) = state.fetch.request node.format.blockHash worker :=
    calls.resolve_left (Option.some_ne_none _)
  cases fetch : state.fetch with
  | askHeaders =>
      rw [fetch] at request
      cases request
  | askBlocks first headers =>
      rw [fetch] at request fetched
      cases request
      exact fetched.stored keeps
  | ended outcome =>
      rw [fetch] at request
      cases request

theorem own_stuck {move : SessionMove} (own : move.own)
    (permitted : state.permits node worker (.session move))
    (stuck : state.step node worker reads (.session move) = none) :
    state.talk.session.step node.format move = none := by
  rw [FetchTalk.step, if_pos permitted, Option.map_eq_none_iff, Talk.step, if_pos own,
    Option.map_eq_none_iff] at stuck
  exact stuck

theorem task_stuck {move : SessionMove} (task : move.task)
    (stuck : ∀ move : TalkMove, move.progress → state.step node worker reads move = none) :
    state.talk.session.step node.format move = none := by
  cases move with
  | handleRequest => exact own_stuck rfl rfl (stuck _ rfl)
  | handleMessage => exact own_stuck rfl rfl (stuck _ rfl)
  | relay => exact own_stuck rfl rfl (stuck _ rfl)
  | egressRecv => exact own_stuck rfl rfl (stuck _ rfl)
  | writeMessage => exact own_stuck rfl rfl (stuck _ rfl)
  | readMessage => exact own_stuck rfl rfl (stuck _ rfl)
  | ingressSend => exact own_stuck rfl rfl (stuck _ rfl)
  | _ => cases task

theorem Live.ended_of_stuck (live : state.Live node worker reads peers)
    (keeps : ∀ peer ∈ peers, node.Keeps peer)
    (stuck : ∀ move : TalkMove, move.progress → state.step node worker reads move = none) :
    ∃ outcome, state.fetch = .ended outcome := by
  have silent : state.talk.owed = [] := by
    cases owes : state.talk.owed with
    | nil => rfl
    | cons message owed =>
        have answers := stuck .answer rfl
        simp [FetchTalk.step, permits, Talk.step, owes, PeerSession.step] at answers
  have taken : state.talk.session.sent = [] := by
    cases waits : state.talk.session.sent with
    | nil => rfl
    | cons message sent =>
        have hears := stuck .hear rfl
        simp [FetchTalk.step, permits, Talk.step, silent, waits, PeerSession.step] at hears
  have recv := own_stuck rfl rfl (stuck (.session .recv) rfl)
  have paired := live.sound.talk.paired
  obtain ⟨headers, blocks⟩ := paired.queues recv
  have still (running : state.talk.session.handler ≠ .stopped) : state.talk.session.Still := by
    apply PeerSession.still_of_stuck running headers blocks
    intro move task
    exact task_stuck task stuck
  have settled (running : state.talk.session.handler ≠ .stopped) : Paired node peers
      ⟨state.talk.session.client, false, [], [], state.talk.session.client.collected⟩ := by
    rw [Talk.exchange, silent, Exchange.extend_nil, (still running).exchange taken, headers, blocks,
      List.append_nil] at paired
    exact paired
  cases client : state.talk.session.client with
  | connecting => exact absurd client live.connected
  | idle =>
      cases pending : state.fetch.request node.format.blockHash worker with
      | none =>
          cases fetch : state.fetch with
          | ended outcome => exact ⟨outcome, rfl⟩
          | _ =>
              rw [fetch] at pending
              cases pending
      | some request =>
          have calls := stuck (.session (.call request)) rfl
          simp [FetchTalk.step, permits, pending, Talk.step, SessionMove.own, PeerSession.step,
            client] at calls
  | requesting request =>
      have submits := own_stuck rfl rfl (stuck (.session (.submit request)) rfl)
      obtain ⟨queued, running⟩ := PeerSession.submit_stuck client submits
      exact absurd (still running).requestQueue queued
  | awaitingHeaders intersects =>
      obtain ⟨_, running⟩ := PeerSession.recv_headers client recv
      have answered := settled running
      rw [client] at answered
      cases answered.settled rfl with
      | inl unasked => cases unasked.1
      | inr due =>
          obtain ⟨peer, none, _⟩ := due
          rw [headersDue] at none
          cases none
  | awaitingBlocks hashes collected =>
      obtain ⟨few, _, running⟩ := PeerSession.recv_blocks client recv
      have answered := settled running
      rw [client] at answered
      apply absurd _ few
      cases answered.settled rfl with
      | inl unasked =>
          obtain ⟨asks, none⟩ := unasked
          cases hashes with
          | nil => exact congrArg List.length none
          | cons hash hashes => cases asks
      | inr due =>
          obtain ⟨peer, _, whole⟩ := due
          rw [blocksDue] at whole
          have all := length_blocksFor_stored (live.sound.stored keeps client)
          exact (congrArg List.length whole).trans all

theorem budgeted (keeps : ∀ peer ∈ peers, node.Keeps peer) :
    Budgeted (FetchTalk.step node worker reads) (fun move => move.chains ⊆ peers)
      (fun state => state.Live node worker reads peers) (left node worker)
      (fun move => move.progress.toNat) TalkMove.extra where
  keeps live chains stepped := live.step stepped chains keeps
  pays live _ stepped := live.sound.pays stepped

theorem Live.advances (live : state.Live node worker reads peers)
    (keeps : ∀ peer ∈ peers, node.Keeps peer) :
    (∃ outcome, state.fetch = .ended outcome) ∨
      ∃ move : TalkMove, move.progress ∧ (state.step node worker reads move).isSome := by
  by_cases enabled : ∃ move : TalkMove, move.progress ∧ (state.step node worker reads move).isSome
  · exact Or.inr enabled
  · apply Or.inl
    apply live.ended_of_stuck keeps
    intro move brings
    by_contra some
    exact enabled ⟨move, brings, Option.isSome_iff_ne_none.mpr some⟩

end FetchTalk

theorem TalkMove.progress_pays (move : TalkMove) (brings : move.progress) :
    move.chains = [] ∧ 0 < move.progress.toNat ∧ move.extra = 0 := by
  rw [brings]
  cases move with
  | volunteer message => cases brings
  | chain peer => cases brings
  | _ => exact ⟨rfl, Nat.one_pos, rfl⟩

/-- A fetch over a session with an honest node always comes to its end. However often the node changes
its chain and whenever the handler stops, some move brings the fetch further until it has ended, and each
of them spends some of a bound that only the node raises, with what it sends of its own. -/
theorem session_fetch_ends (node : HonestNode) (peer : Peer) (keeps : node.Keeps peer)
    (before moves : List TalkMove) (middle : Talk) (earlier : List CallResult)
    (reached : (Talk.mk .connect peer []).run node before = some (middle, earlier))
    (idle : middle.session.client = .idle) (worker : PullWorker) (reads : Reads) (finish : FetchTalk)
    (run : (FetchTalk.mk middle .askHeaders).run node worker reads moves = some finish) :
    finish.left node worker + (moves.map (fun move => move.progress.toNat)).sum ≤
        (FetchTalk.mk middle .askHeaders).left node worker + (moves.map TalkMove.extra).sum ∧
      ((∃ outcome, finish.fetch = .ended outcome) ∨
        ∃ move : TalkMove, move.progress ∧ (finish.step node worker reads move).isSome) ∧
      ∃ later last, (∀ move ∈ later, TalkMove.progress move) ∧
        later.length ≤ finish.left node worker ∧ finish.run node worker reads later = some last ∧
        ∃ outcome, last.fetch = .ended outcome := by
  have kept := (Talk.run_keeps reached keeps).1
  have all : ∀ chain ∈ middle.peer :: moves.flatMap TalkMove.chains, node.Keeps chain :=
    List.forall_mem_cons.mpr ⟨kept, FetchTalk.run_keeps run kept⟩
  have start : (FetchTalk.mk middle .askHeaders).Live node worker reads
      (middle.peer :: moves.flatMap TalkMove.chains) :=
    ⟨FetchTalk.start_sound reached idle _, by rw [idle]; exact Client.noConfusion⟩
  have budget := @FetchTalk.budgeted node worker reads _ all
  obtain ⟨live, bound⟩ := budget.run start (fun move member chain place =>
    List.mem_cons_of_mem _ (List.mem_flatMap.mpr ⟨move, member, place⟩)) run
  refine ⟨bound, live.advances all, ?_⟩
  apply budget.completes _ (fun state live => FetchTalk.Live.advances live all) live
  intro move brings
  obtain ⟨chains, spends, earns⟩ := move.progress_pays brings
  exact ⟨chains ▸ List.nil_subset _, spends, earns⟩

theorem session_fetch_ends_block : ∃ middle earlier finish,
    (Talk.mk .connect ⟨[], 2000⟩ []).run oneBlockNode (handshake.map SessionMove.talk) =
      some (middle, earlier) ∧
    middle.session.client = .idle ∧
    (FetchTalk.mk middle .askHeaders).run oneBlockNode genesisWorker (Reads.of DB.empty)
      (oneBlockTalk.take 9) = some finish ∧
    finish.fetch = .askHeaders ∧
    finish.left oneBlockNode genesisWorker +
        ((oneBlockTalk.take 9).map (fun move => move.progress.toNat)).sum ≤
      (FetchTalk.mk middle .askHeaders).left oneBlockNode genesisWorker +
        ((oneBlockTalk.take 9).map TalkMove.extra).sum ∧
    ((∃ outcome, finish.fetch = .ended outcome) ∨ ∃ move : TalkMove, move.progress ∧
      (finish.step oneBlockNode genesisWorker (Reads.of DB.empty) move).isSome) ∧
    ∃ later last, (∀ move ∈ later, TalkMove.progress move) ∧
      later.length ≤ finish.left oneBlockNode genesisWorker ∧
      finish.run oneBlockNode genesisWorker (Reads.of DB.empty) later = some last ∧
      ∃ outcome, last.fetch = .ended outcome := by
  have fetches : ((Talk.mk .connect ⟨[], 2000⟩ []).run oneBlockNode
      (handshake.map SessionMove.talk)).map (fun found => (found.1.session.client,
        ((FetchTalk.mk found.1 .askHeaders).run oneBlockNode genesisWorker (Reads.of DB.empty)
          (oneBlockTalk.take 9)).map FetchTalk.fetch)) = some (.idle, some .askHeaders) := by
    decide +kernel
  rw [Option.map_eq_some_iff] at fetches
  obtain ⟨⟨middle, earlier⟩, reached, same⟩ := fetches
  rw [Prod.mk.injEq, Option.map_eq_some_iff] at same
  obtain ⟨idle, finish, run, asking⟩ := same
  exact ⟨middle, earlier, finish, reached, idle, run, asking,
    session_fetch_ends oneBlockNode ⟨[], 2000⟩ (by decide) (handshake.map SessionMove.talk)
      (oneBlockTalk.take 9) middle earlier reached idle genesisWorker (Reads.of DB.empty) finish run⟩

end Symphony
