import Symphony.Proof.SessionRefines
import Symphony.Spec.HonestNode

/-! What a call over a session returns is the node's answer to it. -/

namespace Symphony

/-- The result of a call to the node while it was on these chains. -/
def Answered (node : HonestNode) (peers : List Peer) (ended : Prop) : CallResult → Prop
  | .headers intersects (.ok listed) => ∃ peer ∈ peers, listed = node.headersFor peer intersects
  | .headers _ (.error failure) =>
      ended ∧ failure ∈ [.egressChannelClosed, .peerChannelClosed "headers"]
  | .blocks hashes _ (.ok listed) => hashes.map node.stored = listed.map some
  | .blocks _ _ (.error failure) => ended ∧ failure ∈ [.panicked, .peerChannelClosed "blocks"]

def Exchange.extend (exchange : Exchange) (owed : List DecodedMessage) : Exchange :=
  { exchange with
    headers := exchange.headers ++
      if exchange.stopped then [] else owed.flatMap DecodedMessage.headersOf
    blocks := exchange.blocks ++
      if exchange.stopped then [] else owed.flatMap DecodedMessage.blocksOf }

def Talk.exchange (talk : Talk) : Exchange := talk.session.exchange.extend talk.owed

theorem Answered.mono {node : HonestNode} {peers : List Peer} {ended later : Prop} {result : CallResult}
    (answered : Answered node peers ended result) (lasting : ended → later) :
    Answered node peers later result := by
  cases result with
  | headers intersects result =>
      cases result with
      | ok listed => exact answered
      | error failure => exact ⟨lasting answered.1, answered.2⟩
  | blocks hashes raw result =>
      cases result with
      | ok listed => exact answered
      | error failure => exact ⟨lasting answered.1, answered.2⟩

def Request.asks : Request → Bool
  | .blocks [] => false
  | _ => true

def Exchange.asked (exchange : Exchange) : List Request := exchange.requests.filter Request.asks

def Client.awaits : Client → Option Request
  | .awaitingHeaders intersects => some (.newHeaders intersects)
  | .awaitingBlocks hashes _ => some (.blocks hashes)
  | _ => none

structure Quiet (exchange : Exchange) (asked : List Request) : Prop where
  headers : exchange.headers = []
  blocks : exchange.blocks = []
  asked : exchange.stopped = false → exchange.asked = asked

/-- These answers are under way; fewer once the session has ended. -/
structure Due (exchange : Exchange) (answers : List DecodedMessage) : Prop where
  headers : exchange.headers <+: answers.flatMap DecodedMessage.headersOf
  blocks : exchange.blocks <+: answers.flatMap DecodedMessage.blocksOf
  exact : exchange.stopped = false →
    exchange.headers = answers.flatMap DecodedMessage.headersOf ∧
    exchange.blocks = answers.flatMap DecodedMessage.blocksOf ∧ exchange.asked = []

/-- What is under way for a call: its request, or its answer from a node on one of the chains. -/
def Paired (node : HonestNode) (peers : List Peer) (exchange : Exchange) : Prop :=
  Quiet exchange (exchange.client.awaits.toList.filter Request.asks) ∨
    ∃ request, exchange.client.awaits = some request ∧
      ∃ peer ∈ peers, Due exchange (node.answers peer request.message)

section Exchanges

variable {node : HonestNode} {peers : List Peer} {before after : Exchange} {move : SessionMove}
variable {results : List CallResult} {asked : List Request}

theorem Quiet.client (quiet : Quiet before asked) (client : Client) :
    Quiet { before with client } asked :=
  ⟨quiet.headers, quiet.blocks, quiet.asked⟩

theorem Quiet.ended {other : List Request} (headers : before.headers = [])
    (blocks : before.blocks = []) (stopped : before.stopped) : Quiet before other := by
  refine ⟨headers, blocks, ?_⟩
  intro running
  rw [stopped] at running
  cases running

theorem Quiet.submit {request : Request} (quiet : Quiet before []) (running : before.stopped = false) :
    Quiet { before with client := request.waiting, requests := before.requests ++ [request] }
      (request.waiting.awaits.toList.filter Request.asks) := by
  refine ⟨quiet.headers, quiet.blocks, fun _ => ?_⟩
  have silent := quiet.asked running
  rw [Exchange.asked] at silent ⊢
  rw [List.filter_append, silent, List.nil_append]
  cases request with
  | newHeaders intersects => rfl
  | blocks hashes => rfl

theorem length_blocksFor (hashes : List BlockHash) :
    (node.blocksFor hashes).length ≤ hashes.length := List.length_filterMap_le _ _

theorem checkBlocks_stored {hashes : List BlockHash}
    (all : (node.blocksFor hashes).length = hashes.length) :
    ∃ listed, checkBlocks node.format hashes (node.blocksFor hashes) = .ok listed ∧
      hashes.map node.stored = listed.map some := by
  induction hashes with
  | nil => exact ⟨[], rfl, rfl⟩
  | cons hash hashes ih =>
      have few := @length_blocksFor node hashes
      cases kept : node.stored hash with
      | none =>
          have none : node.blocksFor (hash :: hashes) = node.blocksFor hashes := by
            rw [HonestNode.blocksFor, HonestNode.blocksFor, List.filterMap_cons, kept]
            rfl
          rw [none, List.length_cons] at all
          omega
      | some block =>
          have first : node.blocksFor (hash :: hashes) = node.encode block :: node.blocksFor hashes := by
            rw [HonestNode.blocksFor, HonestNode.blocksFor, List.filterMap_cons, kept]
            rfl
          rw [first, List.length_cons, List.length_cons] at all
          obtain ⟨listed, checked, same⟩ := ih (Nat.succ.inj all)
          refine ⟨block :: listed, ?_, ?_⟩
          · rw [first, checkBlocks]
            simp only [node.decoded hash block kept, node.hashed hash block kept, if_true]
            rw [checked]
            rfl
          · rw [List.map_cons, kept, same, List.map_cons]

theorem Paired.quiet (paired : Paired node peers before) (none : before.client.awaits = none) :
    Quiet before [] := by
  cases paired with
  | inl quiet =>
      rw [none] at quiet
      exact quiet
  | inr answered =>
      obtain ⟨request, awaits, _⟩ := answered
      rw [none] at awaits
      cases awaits

theorem Quiet.paired (quiet : Quiet before []) (none : before.client.awaits = none) :
    Paired node peers before := by
  apply Or.inl
  rw [none]
  exact quiet

theorem Paired.stop (paired : Paired node peers before) (same : after.client = before.client)
    (stopped : after.stopped) (headers : after.headers <+: before.headers)
    (blocks : after.blocks <+: before.blocks) : Paired node peers after := by
  cases paired with
  | inl quiet =>
      rw [quiet.headers, List.prefix_nil] at headers
      rw [quiet.blocks, List.prefix_nil] at blocks
      exact Or.inl (.ended headers blocks stopped)
  | inr answered =>
      obtain ⟨request, awaits, peer, member, due⟩ := answered
      refine Or.inr ⟨request, same ▸ awaits, peer, member, headers.trans due.headers,
        blocks.trans due.blocks, ?_⟩
      intro running
      rw [stopped] at running
      cases running

theorem Exchange.Step.extend {format : BlockFormat} (step : Step format before move results after)
    (own : move.own) (owed : List DecodedMessage) :
    Step format (before.extend owed) move results (after.extend owed) := by
  cases step with
  | quiet submitted heard headers blocks => exact .quiet submitted heard headers blocks
  | connected connecting => exact .connected connecting
  | call idle => exact .call idle
  | submit running requesting => exact .submit running requesting
  | refused stopped requesting => exact .refused stopped requesting
  | headers awaiting next => exact .headers awaiting (by rw [Exchange.extend, next, List.cons_append])
  | headersClosed stopped awaiting none =>
      exact .headersClosed stopped awaiting (by rw [Exchange.extend, none, if_pos stopped, List.append_nil])
  | block awaiting next few =>
      exact .block awaiting (by rw [Exchange.extend, next, List.append_assoc, List.cons_append]) few
  | checked awaiting taken all =>
      exact .checked awaiting (by rw [Exchange.extend, taken, List.append_assoc]) all
  | @blocksClosed hashes blocks stopped awaiting none =>
      have closed := @blocksClosed format (before.extend owed) hashes blocks stopped awaiting
        (by simp [Exchange.extend, none, stopped])
      have same : ({ before with client := .idle, blocks := [] } : Exchange).extend owed =
          { before.extend owed with client := .idle, blocks := [] } := by
        simp [Exchange.extend, stopped]
      rw [same]
      exact closed
  | stop same stopped requests headers blocks =>
      have only : after.extend owed = after := by
        rw [Exchange.extend, if_pos stopped, if_pos stopped, List.append_nil, List.append_nil]
      rw [only]
      exact .stop same stopped requests (headers.trans (List.prefix_append _ _))
        (blocks.trans (List.prefix_append _ _))
  | hear next => cases own
  | say running => cases own

theorem headersDue {peer : Peer} (request : Request) :
    (node.answers peer request.message).flatMap DecodedMessage.headersOf = match request with
      | .newHeaders intersects => [node.headersFor peer intersects]
      | .blocks _ => [] := by
  cases request with
  | newHeaders intersects => rfl
  | blocks hashes => simp [Request.message, HonestNode.answers, DecodedMessage.headersOf]

theorem blocksDue {peer : Peer} (request : Request) :
    (node.answers peer request.message).flatMap DecodedMessage.blocksOf = match request with
      | .newHeaders _ => []
      | .blocks hashes => node.blocksFor hashes := by
  cases request with
  | newHeaders intersects => rfl
  | blocks hashes => simp [Request.message, HonestNode.answers, DecodedMessage.blocksOf, List.flatMap_map]

theorem Paired.headers {intersects : List BlockHash} (paired : Paired node peers before)
    (awaiting : before.client = .awaitingHeaders intersects) :
    before.blocks = [] ∧ (before.headers ≠ [] → ∃ peer ∈ peers,
      before.headers = [node.headersFor peer intersects] ∧ (before.stopped = false → before.asked = [])) := by
  cases paired with
  | inl quiet => exact ⟨quiet.blocks, fun some => absurd quiet.headers some⟩
  | inr answered =>
      obtain ⟨request, awaits, peer, member, due⟩ := answered
      rw [awaiting, Client.awaits, Option.some.injEq] at awaits
      subst awaits
      have headers := due.headers
      have blocks := due.blocks
      rw [headersDue] at headers
      rw [blocksDue, List.prefix_nil] at blocks
      refine ⟨blocks, ?_⟩
      intro some
      refine ⟨peer, member, headers.eq_of_length_le ?_, fun running => (due.exact running).2.2⟩
      exact List.length_pos_iff.mpr some

theorem Paired.blocks {hashes : List BlockHash} {collected : List RawBlock}
    (paired : Paired node peers before) (awaiting : before.client = .awaitingBlocks hashes collected) :
    before.headers = [] ∧ (before.blocks.length ≥ hashes.length → before.blocks = node.blocksFor hashes ∧
      (before.stopped = false → before.asked = [])) := by
  cases paired with
  | inl quiet =>
      refine ⟨quiet.headers, ?_⟩
      intro all
      rw [quiet.blocks, List.length_nil, ge_iff_le, Nat.le_zero, List.length_eq_zero_iff] at all
      subst all
      have none := quiet.asked
      rw [awaiting] at none
      exact ⟨quiet.blocks, none⟩
  | inr answered =>
      obtain ⟨request, awaits, peer, member, due⟩ := answered
      rw [awaiting, Client.awaits, Option.some.injEq] at awaits
      subst awaits
      have headers := due.headers
      have blocks := due.blocks
      rw [headersDue, List.prefix_nil] at headers
      rw [blocksDue] at blocks
      refine ⟨headers, ?_⟩
      intro all
      exact ⟨blocks.eq_of_length_le ((length_blocksFor hashes).trans all),
        fun running => (due.exact running).2.2⟩

theorem Paired.step (paired : Paired node peers before)
    (step : Exchange.Step node.format before move results after) (own : move.own) :
    Paired node peers after ∧ ∀ result ∈ results, Answered node peers (after.stopped = true) result := by
  cases step with
  | quiet submitted heard headers blocks => exact ⟨paired, List.forall_mem_nil _⟩
  | connected connecting =>
      have quiet := paired.quiet (by rw [connecting]; rfl)
      exact ⟨(quiet.client .idle).paired rfl, List.forall_mem_nil _⟩
  | call idle =>
      have quiet := paired.quiet (by rw [idle]; rfl)
      exact ⟨(quiet.client _).paired rfl, List.forall_mem_nil _⟩
  | submit running requesting =>
      have quiet := paired.quiet (by rw [requesting]; rfl)
      exact ⟨Or.inl (quiet.submit running), List.forall_mem_nil _⟩
  | @refused request stopped requesting =>
      have quiet := paired.quiet (by rw [requesting]; rfl)
      refine ⟨(quiet.client .idle).paired rfl, ?_⟩
      rw [List.forall_mem_singleton]
      cases request with
      | newHeaders intersects => exact ⟨stopped, List.mem_cons_self⟩
      | blocks hashes => exact ⟨stopped, List.mem_cons_self⟩
  | headers awaiting next =>
      obtain ⟨none, answered⟩ := paired.headers awaiting
      obtain ⟨peer, member, one, silent⟩ := answered (by rw [next]; exact List.cons_ne_nil _ _)
      rw [next, List.cons.injEq] at one
      obtain ⟨rfl, rfl⟩ := one
      refine ⟨Quiet.paired ⟨rfl, none, silent⟩ rfl, ?_⟩
      rw [List.forall_mem_singleton]
      exact ⟨peer, member, rfl⟩
  | headersClosed stopped awaiting empty =>
      have quiet : Quiet before [] := .ended empty (paired.headers awaiting).1 stopped
      refine ⟨(quiet.client .idle).paired rfl, ?_⟩
      rw [List.forall_mem_singleton]
      exact ⟨stopped, List.mem_cons_of_mem _ List.mem_cons_self⟩
  | block awaiting next few =>
      refine ⟨?_, List.forall_mem_nil _⟩
      rw [Paired, awaiting] at paired
      cases paired with
      | inl quiet => exact Or.inl (quiet.client _)
      | inr answered =>
          obtain ⟨request, awaits, peer, member, due⟩ := answered
          exact Or.inr ⟨request, awaits, peer, member, due.headers, due.blocks, due.exact⟩
  | @checked hashes blocks rest awaiting taken all =>
      obtain ⟨none, answered⟩ := paired.blocks awaiting
      obtain ⟨whole, silent⟩ := answered (by rw [taken, List.length_append, all]; omega)
      rw [taken] at whole
      have short : rest = [] := by
        have most := @length_blocksFor node hashes
        rw [← whole, List.length_append] at most
        exact List.eq_nil_of_length_eq_zero (by omega)
      subst short
      rw [List.append_nil] at whole
      refine ⟨Quiet.paired ⟨none, rfl, silent⟩ rfl, ?_⟩
      rw [List.forall_mem_singleton]
      subst whole
      obtain ⟨listed, checked, same⟩ := checkBlocks_stored all
      rw [checked]
      exact same
  | blocksClosed stopped awaiting taken =>
      have none := (paired.blocks awaiting).1
      refine ⟨Quiet.paired (.ended none rfl stopped) rfl, ?_⟩
      rw [List.forall_mem_singleton]
      exact ⟨stopped, List.mem_cons_of_mem _ List.mem_cons_self⟩
  | stop same stopped requests headers blocks =>
      exact ⟨paired.stop same stopped headers blocks, List.forall_mem_nil _⟩
  | hear next => cases own
  | say running => cases own

@[simp] theorem Exchange.extend_nil (exchange : Exchange) : exchange.extend [] = exchange := by
  rw [Exchange.extend, List.flatMap_nil, List.flatMap_nil, ite_self, ite_self, List.append_nil,
    List.append_nil]

theorem Exchange.Step.extend_say {format : BlockFormat} {message : DecodedMessage}
    (step : Step format before (.say message) results after) (owed : List DecodedMessage) :
    results = [] ∧ after.extend owed = before.extend (message :: owed) := by
  cases step with
  | quiet submitted heard headers blocks =>
      refine ⟨rfl, ?_⟩
      by_cases stopped : before.stopped = true
      · simp [Exchange.extend, stopped]
      · have noHeaders : message.headersOf = [] := headers.resolve_right stopped
        have noBlocks : message.blocksOf = [] := blocks.resolve_right stopped
        simp [Exchange.extend, noHeaders, noBlocks]
  | say running => simp [Exchange.extend, running]

theorem Paired.request {request : Request} {others : List Request}
    (paired : Paired node peers before) (running : before.stopped = false)
    (next : before.asked = request :: others) :
    before.client.awaits = some request ∧ Quiet before (request :: others) ∧ others = [] := by
  cases paired with
  | inl quiet =>
      have only := quiet.asked running
      cases awaits : before.client.awaits with
      | none =>
          rw [next, awaits] at only
          cases only
      | some own =>
          rw [next, awaits, Option.toList_some, List.filter_singleton] at only
          cases asks : own.asks with
          | false =>
              rw [asks] at only
              cases only
          | true =>
              rw [asks] at only
              obtain ⟨rfl, rfl⟩ := List.cons.inj only
              exact ⟨rfl, ⟨quiet.headers, quiet.blocks, fun _ => next⟩, rfl⟩
  | inr answered =>
      obtain ⟨own, awaits, peer, member, due⟩ := answered
      rw [(due.exact running).2.2] at next
      cases next

theorem extend_silent {answers : List DecodedMessage}
    (headers : answers.flatMap DecodedMessage.headersOf = [])
    (blocks : answers.flatMap DecodedMessage.blocksOf = []) (exchange : Exchange) :
    exchange.extend answers = exchange := by
  simp [Exchange.extend, headers, blocks]

theorem NetworkMessage.asks_cases (node : HonestNode) (peer : Peer) (message : NetworkMessage) :
    (∃ request : Request, message = request.message ∧ request.asks) ∨
      message.requests.filter Request.asks = [] ∧
        ∀ exchange : Exchange, exchange.extend (node.answers peer message) = exchange := by
  cases message with
  | version => exact Or.inr ⟨rfl, extend_silent rfl rfl⟩
  | verack => exact Or.inr ⟨rfl, extend_silent rfl rfl⟩
  | pong nonce => exact Or.inr ⟨rfl, extend_silent rfl rfl⟩
  | getHeaders intersects => exact Or.inl ⟨.newHeaders intersects, rfl, rfl⟩
  | getData hashes =>
      cases hashes with
      | nil => exact Or.inr ⟨rfl, extend_silent rfl rfl⟩
      | cons hash hashes => exact Or.inl ⟨.blocks (hash :: hashes), rfl, rfl⟩

theorem Paired.hear {format : BlockFormat} {message : NetworkMessage} {peer : Peer}
    (paired : Paired node peers before) (member : peer ∈ peers)
    (step : Exchange.Step format before (.hear message) results after) :
    results = [] ∧ Paired node peers (after.extend (node.answers peer message)) := by
  have taken : results = [] ∧ ∃ rest, before.requests = message.requests ++ rest ∧
      after = { before with requests := rest } := by
    cases step with
    | quiet submitted heard headers blocks =>
        have none : message.requests = [] := heard
        exact ⟨rfl, before.requests, by rw [none, List.nil_append], rfl⟩
    | hear next => exact ⟨rfl, _, next, rfl⟩
  obtain ⟨quietly, rest, next, rfl⟩ := taken
  refine ⟨quietly, ?_⟩
  have waits : before.asked = message.requests.filter Request.asks ++ rest.filter Request.asks := by
    rw [Exchange.asked, next, List.filter_append]
  by_cases stopped : before.stopped = true
  · have only : ({ before with requests := rest } : Exchange).extend (node.answers peer message) =
        { before with requests := rest } := by
      simp [Exchange.extend, stopped]
    rw [only]
    exact paired.stop rfl stopped List.prefix_rfl List.prefix_rfl
  · have running : before.stopped = false := Bool.eq_false_iff.mpr stopped
    cases message.asks_cases node peer with
    | inl asks =>
        obtain ⟨request, rfl, asks⟩ := asks
        rw [Request.requests_message, List.filter_singleton, asks] at waits
        obtain ⟨awaits, quiet, answered⟩ := paired.request running waits
        refine Or.inr ⟨request, awaits, peer, member, ?_⟩
        have headers : (({ before with requests := rest } : Exchange).extend
            (node.answers peer request.message)).headers =
              (node.answers peer request.message).flatMap DecodedMessage.headersOf := by
          simp [Exchange.extend, quiet.headers, running]
        have blocks : (({ before with requests := rest } : Exchange).extend
            (node.answers peer request.message)).blocks =
              (node.answers peer request.message).flatMap DecodedMessage.blocksOf := by
          simp [Exchange.extend, quiet.blocks, running]
        exact ⟨headers ▸ List.prefix_rfl, blocks ▸ List.prefix_rfl, fun _ => ⟨headers, blocks, answered⟩⟩
    | inr silent =>
        rw [silent.2]
        rw [silent.1, List.nil_append] at waits
        have same : ({ before with requests := rest } : Exchange).asked = before.asked := waits.symm
        cases paired with
        | inl quiet =>
            exact Or.inl ⟨quiet.headers, quiet.blocks, fun _ => same.trans (quiet.asked running)⟩
        | inr answered =>
            obtain ⟨request, awaits, other, known, due⟩ := answered
            obtain ⟨headers, blocks, answered⟩ := due.exact running
            exact Or.inr ⟨request, awaits, other, known, due.headers, due.blocks,
              fun _ => ⟨headers, blocks, same.trans answered⟩⟩

end Exchanges

theorem DecodedMessage.extend_volunteer {message : DecodedMessage} (none : ¬ message.isAnswer)
    (exchange : Exchange) (owed : List DecodedMessage) :
    exchange.extend (message :: owed) = exchange.extend owed := by
  cases message with
  | headers listed => exact absurd rfl none
  | block raw => exact absurd rfl none
  | _ => rfl

theorem PeerSession.step_stopped {format : BlockFormat} {session next : PeerSession}
    {move : SessionMove} {results : List CallResult}
    (step : session.step format move = some (next, results)) (stopped : session.handler = .stopped) :
    next.handler = .stopped := by
  have lasting := (exchange_step step).transit_headers.lasting
  simpa [exchange, stopped] using lasting

theorem Exchange.Step.hear_client {format : BlockFormat} {before after : Exchange}
    {message : NetworkMessage} {results : List CallResult}
    (step : Step format before (.hear message) results after) :
    results = [] ∧ after.client = before.client := by
  cases step with
  | quiet submitted heard headers blocks => exact ⟨rfl, rfl⟩
  | hear next => exact ⟨rfl, rfl⟩

theorem Exchange.Step.say_client {format : BlockFormat} {before after : Exchange}
    {message : DecodedMessage} {results : List CallResult}
    (step : Step format before (.say message) results after) :
    results = [] ∧ after.client = before.client := by
  cases step with
  | quiet submitted heard headers blocks => exact ⟨rfl, rfl⟩
  | say running => exact ⟨rfl, rfl⟩

namespace Talk

variable {node : HonestNode} {peers : List Peer} {talk next finish : Talk} {move : TalkMove}
variable {moves : List TalkMove} {results : List CallResult}

theorem stopped_iff {talk : Talk} :
    talk.exchange.stopped = true ↔ talk.session.handler = .stopped := by
  simp [Talk.exchange, Exchange.extend, PeerSession.exchange]

/-- What one step of a talk does. -/
inductive Steps (node : HonestNode) (talk : Talk) : TalkMove → Talk → List CallResult → Prop
  | session {move : SessionMove} {session : PeerSession} {results : List CallResult} (own : move.own)
      (step : talk.session.step node.format move = some (session, results)) :
      Steps node talk (.session move) { talk with session } results
  | hear {message : NetworkMessage} {session : PeerSession} {results : List CallResult}
      (silent : talk.owed = [])
      (step : talk.session.step node.format (.hear message) = some (session, results)) :
      Steps node talk .hear { talk with session, owed := node.answers talk.peer message } results
  | answer {message : DecodedMessage} {owed : List DecodedMessage} {session : PeerSession}
      {results : List CallResult} (owes : talk.owed = message :: owed)
      (step : talk.session.step node.format (.say message) = some (session, results)) :
      Steps node talk .answer { talk with session, owed } results
  | volunteer {message : DecodedMessage} {session : PeerSession} {results : List CallResult}
      (free : ¬ message.isAnswer)
      (step : talk.session.step node.format (.say message) = some (session, results)) :
      Steps node talk (.volunteer message) { talk with session } results
  | chain {peer : Peer} (keeps : node.Keeps peer) : Steps node talk (.chain peer) { talk with peer } []

theorem step_cases (stepped : talk.step node move = some (next, results)) :
    Steps node talk move next results := by
  cases move with
  | session move =>
      rw [Talk.step, Option.ite_none_right_eq_some, Option.map_eq_some_iff] at stepped
      obtain ⟨own, ⟨session, returned⟩, step, same⟩ := stepped
      obtain ⟨rfl, rfl⟩ := Prod.mk.inj same
      exact .session own step
  | hear =>
      rw [Talk.step] at stepped
      split at stepped
      · rename_i message sent silent waits
        rw [Option.map_eq_some_iff] at stepped
        obtain ⟨⟨session, returned⟩, step, same⟩ := stepped
        obtain ⟨rfl, rfl⟩ := Prod.mk.inj same
        exact .hear silent step
      · cases stepped
  | answer =>
      rw [Talk.step] at stepped
      split at stepped
      · rename_i message owed owes
        rw [Option.map_eq_some_iff] at stepped
        obtain ⟨⟨session, returned⟩, step, same⟩ := stepped
        obtain ⟨rfl, rfl⟩ := Prod.mk.inj same
        exact .answer owes step
      · cases stepped
  | volunteer message =>
      rw [Talk.step, Option.ite_none_left_eq_some, Option.map_eq_some_iff] at stepped
      obtain ⟨free, ⟨session, returned⟩, step, same⟩ := stepped
      obtain ⟨rfl, rfl⟩ := Prod.mk.inj same
      exact .volunteer free step
  | chain peer =>
      rw [Talk.step, Option.ite_none_right_eq_some, Option.some.injEq, Prod.mk.injEq] at stepped
      obtain ⟨keeps, rfl, rfl⟩ := stepped
      exact .chain keeps

theorem Steps.client (steps : Steps node talk move next results)
    (other : ∀ own, move ≠ .session own) :
    results = [] ∧ next.session.client = talk.session.client := by
  cases steps with
  | session own step => exact absurd rfl (other _)
  | hear silent step => exact (PeerSession.exchange_step step).hear_client
  | answer owes step => exact (PeerSession.exchange_step step).say_client
  | volunteer free step => exact (PeerSession.exchange_step step).say_client
  | chain keeps => exact ⟨rfl, rfl⟩

theorem Steps.keeps (steps : Steps node talk move next results) (keeps : node.Keeps talk.peer) :
    node.Keeps next.peer ∧ ∀ peer ∈ move.chains, node.Keeps peer := by
  cases steps with
  | chain kept => exact ⟨kept, List.forall_mem_singleton.mpr kept⟩
  | _ => exact ⟨keeps, List.forall_mem_nil _⟩

theorem Steps.stopped (steps : Steps node talk move next results)
    (stopped : talk.session.handler = .stopped) : next.session.handler = .stopped := by
  cases steps with
  | session own step => exact PeerSession.step_stopped step stopped
  | hear silent step => exact PeerSession.step_stopped step stopped
  | answer owes step => exact PeerSession.step_stopped step stopped
  | volunteer free step => exact PeerSession.step_stopped step stopped
  | chain keeps => exact stopped

/-- What holds of a talk as long as its node is on these chains. -/
structure Sound (node : HonestNode) (peers : List Peer) (talk : Talk) : Prop where
  paired : Paired node peers talk.exchange
  member : talk.peer ∈ peers

theorem Sound.step (sound : talk.Sound node peers) (steps : Steps node talk move next results)
    (chains : move.chains ⊆ peers) :
    next.Sound node peers ∧
      ∀ result ∈ results, Answered node peers (next.session.handler = .stopped) result := by
  cases steps with
  | session own step =>
      have extended := (PeerSession.exchange_step step).extend own talk.owed
      obtain ⟨paired, answered⟩ := sound.paired.step extended own
      refine ⟨⟨paired, sound.member⟩, ?_⟩
      intro result member
      rw [← stopped_iff]
      exact answered result member
  | hear silent step =>
      have paired := sound.paired
      rw [Talk.exchange, silent, Exchange.extend_nil] at paired
      obtain ⟨rfl, paired⟩ := paired.hear sound.member (PeerSession.exchange_step step)
      exact ⟨⟨paired, sound.member⟩, List.forall_mem_nil _⟩
  | answer owes step =>
      obtain ⟨rfl, kept⟩ := (PeerSession.exchange_step step).extend_say _
      have paired := sound.paired
      rw [Talk.exchange, owes, ← kept] at paired
      exact ⟨⟨paired, sound.member⟩, List.forall_mem_nil _⟩
  | volunteer free step =>
      obtain ⟨rfl, kept⟩ := (PeerSession.exchange_step step).extend_say talk.owed
      have paired := sound.paired
      rw [Talk.exchange, ← DecodedMessage.extend_volunteer free, ← kept] at paired
      exact ⟨⟨paired, sound.member⟩, List.forall_mem_nil _⟩
  | chain keeps => exact ⟨⟨sound.paired, chains List.mem_cons_self⟩, List.forall_mem_nil _⟩

theorem run_cons (ran : talk.run node (move :: moves) = some (finish, results)) :
    ∃ next now later, talk.step node move = some (next, now) ∧
      next.run node moves = some (finish, later) ∧ results = now ++ later := by
  rw [Talk.run] at ran
  cases stepped : talk.step node move with
  | none =>
      rw [stepped] at ran
      cases ran
  | some found =>
      obtain ⟨next, now⟩ := found
      simp only [stepped, Option.map_eq_some_iff] at ran
      obtain ⟨⟨last, later⟩, rest, same⟩ := ran
      obtain ⟨rfl, rfl⟩ := Prod.mk.inj same
      exact ⟨next, now, later, rfl, rest, rfl⟩

theorem Sound.run (sound : talk.Sound node peers) (ran : talk.run node moves = some (finish, results))
    (chains : moves.flatMap TalkMove.chains ⊆ peers) :
    finish.Sound node peers ∧ (talk.session.handler = .stopped → finish.session.handler = .stopped) ∧
      ∀ result ∈ results, Answered node peers (finish.session.handler = .stopped) result := by
  induction moves generalizing talk results with
  | nil =>
      cases ran
      exact ⟨sound, id, List.forall_mem_nil _⟩
  | cons move moves ih =>
      obtain ⟨next, now, later, stepped, rest, rfl⟩ := run_cons ran
      rw [List.flatMap_cons, List.append_subset] at chains
      have steps := step_cases stepped
      obtain ⟨kept, answered⟩ := sound.step steps chains.1
      obtain ⟨finished, lasting, answeredLater⟩ := ih kept rest chains.2
      refine ⟨finished, lasting ∘ steps.stopped, ?_⟩
      intro result member
      cases List.mem_append.mp member with
      | inl first => exact (answered result first).mono lasting
      | inr last => exact answeredLater result last

theorem run_keeps (ran : talk.run node moves = some (finish, results)) (keeps : node.Keeps talk.peer) :
    node.Keeps finish.peer ∧ ∀ peer ∈ moves.flatMap TalkMove.chains, node.Keeps peer := by
  induction moves generalizing talk results with
  | nil =>
      cases ran
      exact ⟨keeps, List.forall_mem_nil _⟩
  | cons move moves ih =>
      obtain ⟨next, now, later, stepped, rest, rfl⟩ := run_cons ran
      obtain ⟨kept, first⟩ := (step_cases stepped).keeps keeps
      obtain ⟨last, others⟩ := ih rest kept
      refine ⟨last, ?_⟩
      rw [List.flatMap_cons, List.forall_mem_append]
      exact ⟨first, others⟩

theorem connect_sound (node : HonestNode) (peer : Peer) (peers : List Peer) (member : peer ∈ peers) :
    (Talk.mk .connect peer []).Sound node peers :=
  ⟨Quiet.paired ⟨rfl, rfl, fun _ => rfl⟩ rfl, member⟩

theorem Sound.renew (sound : talk.Sound node peers) (idle : talk.session.client = .idle)
    (later : List Peer) : talk.Sound node (talk.peer :: later) :=
  ⟨(sound.paired.quiet (congrArg Client.awaits idle)).paired (congrArg Client.awaits idle),
    List.mem_cons_self⟩

end Talk

/-- Whatever the node sends besides, headers and blocks apart, and however the tasks of a session take
turns: what a call returns is the answer to its own request, headers of a chain that the node was on
during the call or the blocks it has asked for. A call fails only if the handler has stopped. -/
theorem session_answers (node : HonestNode) (peer : Peer) (before after : List TalkMove)
    (middle finish : Talk) (earlier results : List CallResult)
    (reached : (Talk.mk .connect peer []).run node before = some (middle, earlier))
    (idle : middle.session.client = .idle)
    (run : middle.run node after = some (finish, results)) :
    ∀ result ∈ results,
      Answered node (middle.peer :: after.flatMap TalkMove.chains)
        (finish.session.handler = .stopped) result := by
  have start := Talk.connect_sound node peer (peer :: before.flatMap TalkMove.chains) List.mem_cons_self
  have sound := (start.run reached (List.subset_cons_self _ _)).1
  have renewed := sound.renew idle (after.flatMap TalkMove.chains)
  exact (renewed.run run (List.subset_cons_self _ _)).2.2

def oneBlockNode : HonestNode where
  format := oneBlock
  stage := ⟨mainnetGenesis, 1⟩
  stored hash := if hash = mainnetBlockOne then some ⟨mainnetHeaderOne, [coinbaseOne]⟩ else none
  encode _ := [1]
  hashed hash block kept := by
    rw [Option.ite_none_right_eq_some, Option.some.injEq] at kept
    obtain ⟨rfl, rfl⟩ := kept
    decide +kernel
  decoded hash block kept := by
    rw [Option.ite_none_right_eq_some, Option.some.injEq] at kept
    obtain ⟨rfl, rfl⟩ := kept
    rfl

def SessionMove.talk : SessionMove → TalkMove
  | .hear _ => .hear
  | .say (.ping nonce) => .volunteer (.ping nonce)
  | .say _ => .answer
  | move => .session move

def oneBlockTalk : List TalkMove :=
  .chain ⟨[⟨mainnetHeaderOne, [coinbaseOne]⟩], 2000⟩ ::
    (callAfterPing (.newHeaders [mainnetGenesis]) (.headers [mainnetHeaderOne]) ++
      callAfterPing (.blocks [mainnetBlockOne]) (.block [1]) ++ [SessionMove.recv]).map SessionMove.talk

theorem session_answers_block : ∃ middle finish earlier results,
    (Talk.mk .connect ⟨[], 2000⟩ []).run oneBlockNode (handshake.map SessionMove.talk) =
      some (middle, earlier) ∧
    middle.session.client = .idle ∧
    middle.run oneBlockNode oneBlockTalk = some (finish, results) ∧
    results = [.headers [mainnetGenesis] (.ok [mainnetHeaderOne]),
      .blocks [mainnetBlockOne] [[1]] (.ok [⟨mainnetHeaderOne, [coinbaseOne]⟩])] ∧
    ∀ result ∈ results,
      Answered oneBlockNode (middle.peer :: oneBlockTalk.flatMap TalkMove.chains)
        (finish.session.handler = .stopped) result := by
  have connected : ((Talk.mk .connect ⟨[], 2000⟩ []).run oneBlockNode
      (handshake.map SessionMove.talk)).map (fun found => (found.1.session.client,
        (found.1.run oneBlockNode oneBlockTalk).map Prod.snd)) =
      some (.idle, some [.headers [mainnetGenesis] (.ok [mainnetHeaderOne]),
        .blocks [mainnetBlockOne] [[1]] (.ok [⟨mainnetHeaderOne, [coinbaseOne]⟩])]) := by
    decide +kernel
  rw [Option.map_eq_some_iff] at connected
  obtain ⟨⟨middle, earlier⟩, reached, same⟩ := connected
  rw [Prod.mk.injEq, Option.map_eq_some_iff] at same
  obtain ⟨idle, ⟨finish, results⟩, run, returned⟩ := same
  exact ⟨middle, finish, earlier, results, reached, idle, run, returned,
    session_answers oneBlockNode ⟨[], 2000⟩ (handshake.map SessionMove.talk) oneBlockTalk middle finish
      earlier results reached idle run⟩

end Symphony
