import Symphony.Proof.PullChain
import Symphony.Sync.PullLoop

/-! The worker loop runs as the pipeline does.

The units of a call that are not sent yet count as the end of the queue. -/

namespace Symphony

inductive PullLoop.Steps (blockHash : Header → BlockHash) (config : PullConfig) (loop : PullLoop) :
    PullMove → PullLoop → Prop where
  | shutdown (idle : loop.phase = .scheduling) :
      Steps blockHash config loop .shutdown { loop with phase := .done }
  | syncing {peer : Peer} {tips : List Point} {tip : Point} (idle : loop.phase = .scheduling)
      (syncs : loop.syncs blockHash config peer = true) :
      Steps blockHash config loop (.schedule peer tips)
        { loop with worker := { loop.worker with tip } }
  | atTip {peer : Peer} {tips : List Point} (idle : loop.phase = .scheduling)
      (synced : loop.syncs blockHash config peer = false) (reached : loop.tipReached = true) :
      Steps blockHash config loop (.schedule peer tips)
        { loop with initialised := true, phase := .waiting [] }
  | behind {peer : Peer} {tips : List Point} {units : List ChainEvent} {worker : PullWorker}
      (idle : loop.phase = .scheduling) (synced : loop.syncs blockHash config peer = false)
      (unreached : loop.tipReached = false)
      (fetched : loop.worker.fetchChainActions blockHash config.toPullStage peer
        (Reads.of loop.machine.stage.db.db) = .ok (units, worker)) :
      Steps blockHash config loop (.schedule peer tips) { loop with
        worker
        initialised := true
        tipReached := units.isEmpty
        phase := if units.isEmpty then .waiting units else .executing units }
  | fetch {peer : Peer} {units events : List ChainEvent} {worker : PullWorker}
      (waiting : loop.phase = .waiting units)
      (fetched : loop.worker.fetchChainActions blockHash config.toPullStage peer
        (Reads.of loop.machine.stage.db.db) = .ok (events, worker)) :
      Steps blockHash config loop (.fetch peer) { loop with
        worker
        phase := if config.mempoolEnabled then .templating (units ++ events)
          else .ofUnits (units ++ events) }
  | template {info : MempoolSnapshotInfo} {txs : BlockTxs} {units : List ChainEvent}
      (templating : loop.phase = .templating units) :
      Steps blockHash config loop (.template info txs)
        { loop with phase := .executing (units ++ [.mempoolBlocks info [txs]]) }
  | send {unit : ChainEvent} {units : List ChainEvent} (executing : loop.phase = .executing (unit :: units))
      (room : loop.queue.length < config.queueSize) :
      Steps blockHash config loop .send
        { loop with queue := loop.queue ++ [unit], phase := .ofUnits units }
  | index {env : Env} {event : ChainEvent} {queue : List ChainEvent}
      (waiting : loop.queue = event :: queue) :
      Steps blockHash config loop (.index env)
        { loop with machine := (loop.machine.execute env event).1, queue }

/-- The loop is at this state of the pipeline, with its units at the end of the queue. -/
structure Refines (loop : PullLoop) (pipeline : Pipeline) : Prop where
  worker : pipeline.worker = loop.worker
  machine : pipeline.machine = loop.machine
  queue : pipeline.queue = loop.queue ++ loop.phase.units

def PullLoop.Awake (loop : PullLoop) : Prop := loop.initialised = true ∨ loop.phase = .done

section Steps

variable {blockHash : Header → BlockHash} {config : PullConfig} {loop next : PullLoop}
variable {pipeline : Pipeline} {peer : Peer} {move : PullMove}

@[simp] theorem PullPhase.units_ofUnits (units : List ChainEvent) :
    (PullPhase.ofUnits units).units = units := by
  cases units <;> rfl

theorem PullLoop.schedule_cases {tips : List Point} (idle : loop.phase = .scheduling)
    (scheduled : loop.schedule blockHash config peer tips = some next) :
    loop.Steps blockHash config (.schedule peer tips) next := by
  rw [schedule] at scheduled
  cases syncing : loop.syncs blockHash config peer with
  | true =>
      rw [syncing, if_pos rfl, Option.map_eq_some_iff] at scheduled
      rcases scheduled with ⟨tip, _, rfl⟩
      exact .syncing idle syncing
  | false =>
      rw [syncing, if_neg Bool.false_ne_true] at scheduled
      cases reached : loop.tipReached with
      | true =>
          rw [if_pos reached, Option.some.injEq] at scheduled
          rw [← scheduled]
          exact .atTip idle syncing reached
      | false =>
          rw [reached, if_neg Bool.false_ne_true] at scheduled
          split at scheduled
          · cases scheduled
          · rename_i units worker fetched
            rw [← Option.some.inj scheduled]
            exact .behind idle syncing reached fetched

theorem PullLoop.step_cases (stepped : loop.step blockHash config move = some next) :
    loop.Steps blockHash config move next := by
  unfold PullLoop.step at stepped
  split at stepped
  · rename_i idle
    rw [← Option.some.inj stepped]
    exact .shutdown idle
  · rename_i idle
    exact PullLoop.schedule_cases idle stepped
  · rename_i waiting
    rw [PullLoop.fetch] at stepped
    split at stepped
    · cases stepped
    · rename_i fetched
      rw [← Option.some.inj stepped]
      exact .fetch waiting fetched
  · rename_i templating
    rw [← Option.some.inj stepped]
    exact .template templating
  · rename_i units executing
    cases units with
    | nil => cases stepped
    | cons unit units =>
        rw [PullLoop.send] at stepped
        split at stepped
        · rename_i room
          rw [← Option.some.inj stepped]
          exact .send executing room
        · cases stepped
  · split at stepped
    · cases stepped
    · rename_i waiting
      rw [← Option.some.inj stepped]
      exact .index waiting
  · cases stepped

theorem Pipeline.run_singleton (move : Move) :
    pipeline.run blockHash config.toPullStage [move] =
      pipeline.step blockHash config.toPullStage move := by
  rw [Pipeline.run]
  cases pipeline.step blockHash config.toPullStage move <;> rfl

theorem Pipeline.run_append (pipeline : Pipeline) (first second : List Move) :
    pipeline.run blockHash config.toPullStage (first ++ second) =
      (pipeline.run blockHash config.toPullStage first).bind
        (fun next => next.run blockHash config.toPullStage second) := by
  induction first generalizing pipeline with
  | nil => rfl
  | cons move moves ih =>
      rw [List.cons_append, Pipeline.run, Pipeline.run]
      cases pipeline.step blockHash config.toPullStage move with
      | none => rfl
      | some next => exact ih next

theorem Pipeline.run_calls {machine : Machine} {moves : List Move} {after : Pipeline}
    (before : ∃ calls, pipeline.machine = machine.run calls ∧
      pipeline.emitted = calls.map Prod.snd ++ pipeline.queue)
    (ran : pipeline.run blockHash config.toPullStage moves = some after) :
    ∃ calls, after.machine = machine.run calls ∧
      after.emitted = calls.map Prod.snd ++ after.queue := by
  induction moves generalizing pipeline with
  | nil =>
      rw [Pipeline.run, Option.some.injEq] at ran
      rw [← ran]
      exact before
  | cons move moves ih =>
      rw [Pipeline.run] at ran
      cases stepped : pipeline.step blockHash config.toPullStage move with
      | none =>
          rw [stepped] at ran
          cases ran
      | some between =>
          rw [stepped] at ran
          apply ih _ ran
          rcases before with ⟨calls, same, split⟩
          cases move with
          | fetch peer =>
              rcases Pipeline.fetch_ok stepped with ⟨events, _, _, ⟨_, rfl⟩ | ⟨_, rfl⟩⟩
              · exact ⟨calls, same, by simp only [Pipeline.emit, split, List.append_assoc]⟩
              · exact ⟨calls, same, by simp only [Pipeline.emit, split, List.append_assoc]⟩
          | template info txs =>
              rw [← Option.some.inj stepped]
              exact ⟨calls, same, by simp only [Pipeline.emit, split, List.append_assoc]⟩
          | index env =>
              rw [Pipeline.step] at stepped
              split at stepped
              · cases stepped
              · rename_i event queue waiting
                rw [← Option.some.inj stepped]
                refine ⟨calls ++ [(env, event)], ?_, ?_⟩
                · rw [Machine.run_append, ← same]
                  rfl
                · rw [split, waiting, List.map_append, List.append_assoc]
                  rfl

theorem Refines.fetch {events : List ChainEvent} {worker : PullWorker}
    (refines : Refines loop pipeline)
    (fetched : loop.worker.fetchChainActions blockHash config.toPullStage peer
      (Reads.of loop.machine.stage.db.db) = .ok (events, worker)) :
    ∃ after, pipeline.run blockHash config.toPullStage [.fetch peer] = some after ∧
      after.worker = worker ∧ after.machine = loop.machine ∧
      after.queue = loop.queue ++ (loop.phase.units ++ events) ∧
      after.emitted = pipeline.emitted ++ events := by
  have queue := refines.queue
  rw [← refines.worker, ← refines.machine] at fetched
  rw [Pipeline.run_singleton]
  simp only [Pipeline.step, Pipeline.fetch, fetched]
  split
  · exact ⟨_, rfl, rfl, refines.machine, by rw [Pipeline.emit, queue, List.append_assoc], rfl⟩
  · exact ⟨_, rfl, rfl, refines.machine, by rw [Pipeline.emit, queue, List.append_assoc], rfl⟩

theorem PullLoop.Awake.synced (awake : loop.Awake) (idle : loop.phase = .scheduling) :
    loop.syncs blockHash config peer = false := by
  rcases awake with already | done
  · rw [PullLoop.syncs, already]
    rfl
  · rw [idle] at done
    cases done

theorem PullLoop.Awake.initialised (awake : loop.Awake) (going : loop.phase ≠ .done) :
    loop.initialised = true := by
  rcases awake with already | done
  · exact already
  · exact absurd done going

theorem Refines.step (refines : Refines loop pipeline) (awake : loop.Awake)
    (stepped : loop.step blockHash config move = some next) :
    next.Awake ∧ ∃ after, pipeline.run blockHash config.toPullStage (loop.asks blockHash config move) =
      some after ∧ Refines next after := by
  have queue := refines.queue
  cases PullLoop.step_cases stepped with
  | shutdown idle =>
      rw [idle] at queue
      exact ⟨Or.inr rfl, pipeline, rfl, refines.worker, refines.machine, queue⟩
  | syncing idle syncs =>
      rw [awake.synced idle] at syncs
      cases syncs
  | atTip idle synced reached =>
      rw [idle] at queue
      refine ⟨Or.inl rfl, pipeline, ?_, refines.worker, refines.machine, queue⟩
      rw [PullLoop.asks, reached, Bool.or_true, if_pos rfl]
      rfl
  | behind idle synced unreached fetched =>
      rename_i units worker
      rcases refines.fetch fetched with ⟨after, asked, worker', machine, queue', _⟩
      refine ⟨Or.inl rfl, after, ?_, worker', machine, ?_⟩
      · rw [PullLoop.asks, synced, unreached, Bool.or_false, if_neg Bool.false_ne_true]
        exact asked
      · rw [queue', idle]
        cases units <;> rfl
  | fetch waiting fetched =>
      rename_i units events worker
      rcases refines.fetch fetched with ⟨after, asked, worker', machine, queue', _⟩
      refine ⟨Or.inl (awake.initialised ?_), after, asked, worker', machine, ?_⟩
      · rw [waiting]
        intro impossible
        cases impossible
      · rw [queue', waiting]
        cases config.mempoolEnabled with
        | false => exact congrArg _ (PullPhase.units_ofUnits _).symm
        | true => rfl
  | template templating =>
      rename_i info txs units
      rw [templating] at queue
      refine ⟨Or.inl (awake.initialised ?_), pipeline.emit [.mempoolBlocks info [txs]], rfl,
        refines.worker, refines.machine, ?_⟩
      · rw [templating]
        intro impossible
        cases impossible
      · rw [Pipeline.emit, queue, List.append_assoc]
        rfl
  | send executing room =>
      rename_i unit units
      rw [executing] at queue
      refine ⟨Or.inl (awake.initialised ?_), pipeline, rfl, refines.worker, refines.machine, ?_⟩
      · rw [executing]
        intro impossible
        cases impossible
      · rw [queue, PullPhase.units_ofUnits, List.append_assoc]
        rfl
  | index waiting =>
      rename_i env event rest
      rw [waiting, List.cons_append] at queue
      refine ⟨awake, { pipeline with
        machine := (pipeline.machine.execute env event).1
        queue := rest ++ loop.phase.units }, ?_, refines.worker, ?_, rfl⟩
      · rw [PullLoop.asks, Pipeline.run_singleton, Pipeline.step, queue]
      · rw [refines.machine]

theorem PullLoop.Steps.room (steps : loop.Steps blockHash config move next)
    (room : loop.queue.length ≤ config.queueSize) : next.queue.length ≤ config.queueSize := by
  cases steps with
  | send executing free =>
      rw [List.length_append, List.length_singleton]
      exact free
  | index waiting =>
      rw [waiting, List.length_cons] at room
      exact Nat.le_of_succ_le room
  | _ => exact room

theorem PullLoop.run_cons {moves : List PullMove} {finish : PullLoop} {asked : List Move}
    (ran : loop.run blockHash config (move :: moves) = some (finish, asked)) :
    ∃ next later, loop.step blockHash config move = some next ∧
      next.run blockHash config moves = some (finish, later) ∧
      asked = loop.asks blockHash config move ++ later := by
  rw [PullLoop.run] at ran
  split at ran
  · cases ran
  · rename_i next stepped
    rw [Option.map_eq_some_iff] at ran
    rcases ran with ⟨⟨finish', later⟩, ran, same⟩
    rw [Prod.mk.injEq] at same
    rw [← same.1, ← same.2]
    exact ⟨next, later, stepped, ran, rfl⟩

theorem PullLoop.run_room {moves : List PullMove} {finish : PullLoop} {asked : List Move}
    (room : loop.queue.length ≤ config.queueSize)
    (ran : loop.run blockHash config moves = some (finish, asked)) :
    finish.queue.length ≤ config.queueSize := by
  induction moves generalizing loop asked with
  | nil =>
      rw [PullLoop.run, Option.some.injEq, Prod.mk.injEq] at ran
      rw [← ran.1]
      exact room
  | cons move moves ih =>
      rcases PullLoop.run_cons ran with ⟨next, later, stepped, rest, _⟩
      exact ih ((PullLoop.step_cases stepped).room room) rest

theorem Refines.run {moves : List PullMove} {finish : PullLoop} {asked : List Move}
    (refines : Refines loop pipeline) (awake : loop.Awake)
    (ran : loop.run blockHash config moves = some (finish, asked)) :
    ∃ after, pipeline.run blockHash config.toPullStage asked = some after ∧ Refines finish after := by
  induction moves generalizing loop pipeline asked with
  | nil =>
      rw [PullLoop.run, Option.some.injEq, Prod.mk.injEq] at ran
      rw [← ran.1, ← ran.2]
      exact ⟨pipeline, rfl, refines⟩
  | cons move moves ih =>
      rcases PullLoop.run_cons ran with ⟨next, later, stepped, rest, rfl⟩
      rcases refines.step awake stepped with ⟨awake', between, here, refines'⟩
      rcases ih refines' awake' rest with ⟨after, there, refines''⟩
      refine ⟨after, ?_, refines''⟩
      rw [Pipeline.run_append, here, Option.bind_some, there]

theorem PullLoop.schedule_awake {tips : List Point}
    (synced : loop.syncs blockHash config peer = false) :
    { loop with initialised := true }.schedule blockHash config peer tips =
        loop.schedule blockHash config peer tips ∧
      { loop with initialised := true }.asks blockHash config (.schedule peer tips) =
        loop.asks blockHash config (.schedule peer tips) := by
  constructor
  · rw [schedule, schedule, synced]
    rfl
  · rw [asks, asks, synced]
    rfl

structure PullLoop.Before (loop : PullLoop) : Prop where
  unreached : loop.tipReached = false
  notWaiting : ∀ units, loop.phase ≠ .waiting units
  notTemplating : ∀ units, loop.phase ≠ .templating units

def ReachesTip (blockHash : Header → BlockHash) (stage : PullStage) (pipeline : Pipeline)
    (asked : List Move) : Prop :=
  ∃ front peer mid after, front ++ [.fetch peer] <+: asked ∧
    (∀ info txs, .template info txs ∉ front) ∧
    pipeline.run blockHash stage front = some mid ∧
    mid.run blockHash stage [.fetch peer] = some after ∧ after.emitted = mid.emitted

theorem ReachesTip.later {asked later : List Move} {between : Pipeline}
    (reaches : ReachesTip blockHash config.toPullStage between later)
    (plain : ∀ info txs, .template info txs ∉ asked)
    (here : pipeline.run blockHash config.toPullStage asked = some between) :
    ReachesTip blockHash config.toPullStage pipeline (asked ++ later) := by
  rcases reaches with ⟨front, peer, mid, after, inside, none, there, fetched, same⟩
  refine ⟨asked ++ front, peer, mid, after, ?_, ?_, ?_, fetched, same⟩
  · rw [List.append_assoc]
    exact (List.prefix_append_right_inj asked).mpr inside
  · intro info txs member
    rcases List.mem_append.mp member with first | second
    · exact plain info txs first
    · exact none info txs second
  · rw [Pipeline.run_append, here, Option.bind_some, there]

theorem Refines.before (refines : Refines loop pipeline) (awake : loop.Awake) (before : loop.Before)
    (stepped : loop.step blockHash config move = some next) :
    (∀ info txs, .template info txs ∉ loop.asks blockHash config move) ∧
      (next.Before ∨
        ReachesTip blockHash config.toPullStage pipeline (loop.asks blockHash config move)) := by
  cases PullLoop.step_cases stepped with
  | shutdown idle =>
      refine ⟨by simp [PullLoop.asks], Or.inl ⟨before.unreached, ?_, ?_⟩⟩
      all_goals
        intro units impossible
        cases impossible
  | syncing idle syncs =>
      rw [awake.synced idle] at syncs
      cases syncs
  | atTip idle synced reached =>
      rw [before.unreached] at reached
      cases reached
  | behind idle synced unreached fetched =>
      rename_i peer tips units worker
      have asks : loop.asks blockHash config (.schedule peer tips) = [.fetch peer] := by
        rw [PullLoop.asks, synced, unreached, Bool.or_false, if_neg Bool.false_ne_true]
      rw [asks]
      refine ⟨by simp, ?_⟩
      cases units with
      | nil =>
          rcases refines.fetch fetched with ⟨after, asked, _, _, _, emitted⟩
          refine Or.inr ⟨[], peer, pipeline, after, List.prefix_rfl, by simp, rfl, asked, ?_⟩
          rw [emitted, List.append_nil]
      | cons unit units =>
          refine Or.inl ⟨rfl, ?_, ?_⟩
          all_goals
            intro units impossible
            cases impossible
  | fetch waiting fetched => exact absurd waiting (before.notWaiting _)
  | template templating => exact absurd templating (before.notTemplating _)
  | send executing room =>
      rename_i unit units
      refine ⟨by simp [PullLoop.asks], Or.inl ⟨before.unreached, ?_, ?_⟩⟩
      all_goals
        intro others impossible
        cases units <;> cases impossible
  | index waiting =>
      exact ⟨by simp [PullLoop.asks], Or.inl ⟨before.unreached, before.notWaiting,
        before.notTemplating⟩⟩

theorem Refines.template_after {moves : List PullMove} {finish : PullLoop} {asked : List Move}
    {info : MempoolSnapshotInfo} {txs : BlockTxs} (refines : Refines loop pipeline)
    (awake : loop.Awake) (before : loop.Before)
    (ran : loop.run blockHash config moves = some (finish, asked))
    (templated : .template info txs ∈ asked) :
    ReachesTip blockHash config.toPullStage pipeline asked := by
  induction moves generalizing loop pipeline asked with
  | nil =>
      rw [PullLoop.run, Option.some.injEq, Prod.mk.injEq] at ran
      rw [← ran.2] at templated
      cases templated
  | cons move moves ih =>
      rcases PullLoop.run_cons ran with ⟨next, later, stepped, rest, rfl⟩
      rcases refines.step awake stepped with ⟨awake', between, here, refines'⟩
      rcases refines.before awake before stepped with ⟨plain, before' | reaches⟩
      · rcases List.mem_append.mp templated with first | second
        · exact absurd first (plain info txs)
        · exact (ih refines' awake' before' rest second).later plain here
      · rcases reaches with ⟨front, peer, mid, after, inside, rest⟩
        exact ⟨front, peer, mid, after, inside.trans (List.prefix_append _ _), rest⟩

/-- A loop that starts asks for nothing while the node is syncing; only its tip changes. -/
theorem PullLoop.start_refines {machine : Machine} {worker : PullWorker} {moves : List PullMove}
    {finish : PullLoop} {asked : List Move}
    (ran : (PullLoop.start machine worker).run blockHash config moves = some (finish, asked)) :
    ∃ tip after, (Pipeline.start machine { worker with tip }).run blockHash config.toPullStage asked =
        some after ∧ Refines finish after ∧
      ∀ info txs, .template info txs ∈ asked → ReachesTip blockHash config.toPullStage
        (Pipeline.start machine { worker with tip }) asked := by
  induction moves generalizing worker asked with
  | nil =>
      rw [PullLoop.run, Option.some.injEq, Prod.mk.injEq] at ran
      rw [← ran.1, ← ran.2]
      refine ⟨worker.tip, _, rfl, ⟨rfl, rfl, rfl⟩, ?_⟩
      intro info txs impossible
      cases impossible
  | cons move moves ih =>
      -- from a loop that is awake the run goes as that of the pipeline
      have woken {loop : PullLoop} (awake : loop.Awake) (before : loop.Before)
          (refines : Refines loop (Pipeline.start machine worker)) {moves : List PullMove}
          {asked : List Move} (ran : loop.run blockHash config moves = some (finish, asked)) :
          ∃ tip after, (Pipeline.start machine { worker with tip }).run blockHash config.toPullStage
              asked = some after ∧ Refines finish after ∧
            ∀ info txs, .template info txs ∈ asked → ReachesTip blockHash config.toPullStage
              (Pipeline.start machine { worker with tip }) asked := by
        rcases refines.run awake ran with ⟨after, there, refines'⟩
        exact ⟨worker.tip, after, there, refines',
          fun info txs templated => refines.template_after awake before ran templated⟩
      rcases PullLoop.run_cons ran with ⟨next, later, stepped, rest, rfl⟩
      cases PullLoop.step_cases stepped with
      | shutdown idle =>
          apply woken (Or.inr rfl) _ ⟨rfl, rfl, rfl⟩ rest
          refine ⟨rfl, ?_, ?_⟩
          all_goals
            intro units impossible
            cases impossible
      | syncing idle syncs =>
          rename_i peer tips tip
          have again : (PullLoop.start machine { worker with tip }).run blockHash config moves =
            some (finish, later) := rest
          rw [PullLoop.asks, syncs, Bool.true_or, if_pos rfl, List.nil_append]
          rcases ih again with ⟨later', after, ran', refines⟩
          exact ⟨later', after, ran', refines⟩
      | atTip idle synced reached => cases reached
      | behind idle synced unreached fetched =>
          rename_i peer tips units worker'
          rcases @PullLoop.schedule_awake _ _ _ _ tips synced with ⟨same, asks⟩
          have again : { PullLoop.start machine worker with initialised := true }.run blockHash config
              (.schedule peer tips :: moves) = some (finish,
                (PullLoop.start machine worker).asks blockHash config (.schedule peer tips) ++
                  later) := by
            have step : { PullLoop.start machine worker with initialised := true }.step blockHash
              config (.schedule peer tips) = _ := same.trans stepped
            rw [PullLoop.run, step]
            simp only [rest, asks, Option.map_some]
          apply woken (Or.inl rfl) _ ⟨rfl, rfl, rfl⟩ again
          refine ⟨rfl, ?_, ?_⟩
          all_goals
            intro units impossible
            cases impossible
      | fetch waiting fetched => cases waiting
      | template templating => cases templating
      | send executing room => cases executing
      | index waiting => cases waiting

theorem PullLoop.template_enabled {moves : List PullMove} {finish : PullLoop} {asked : List Move}
    {info : MempoolSnapshotInfo} {txs : BlockTxs}
    (enabled : ∀ units, loop.phase = .templating units → config.mempoolEnabled = true)
    (ran : loop.run blockHash config moves = some (finish, asked))
    (templated : .template info txs ∈ asked) : config.mempoolEnabled = true := by
  induction moves generalizing loop asked with
  | nil =>
      rw [PullLoop.run, Option.some.injEq, Prod.mk.injEq] at ran
      rw [← ran.2] at templated
      cases templated
  | cons move moves ih =>
      rcases PullLoop.run_cons ran with ⟨next, later, stepped, rest, rfl⟩
      by_cases on : config.mempoolEnabled = true
      · exact on
      · rw [Bool.not_eq_true] at on
        have quiet : (∀ units, next.phase ≠ .templating units) ∧
            .template info txs ∉ loop.asks blockHash config move := by
          cases PullLoop.step_cases stepped with
          | template templating =>
              rw [enabled _ templating] at on
              cases on
          | fetch waiting fetched =>
              refine ⟨?_, by simp [PullLoop.asks]⟩
              intro units templating
              rename_i gathered events worker
              simp only [on, Bool.false_eq_true, if_false, PullPhase.ofUnits] at templating
              split at templating <;> cases templating
          | behind idle synced unreached fetched =>
              rename_i peer tips units worker
              refine ⟨?_, ?_⟩
              · intro others templating
                cases units <;> cases templating
              · rw [PullLoop.asks]
                split <;> simp
          | atTip idle synced reached =>
              refine ⟨by simp, ?_⟩
              rw [PullLoop.asks]
              split <;> simp
          | syncing idle syncs =>
              refine ⟨by simp [idle], ?_⟩
              rw [PullLoop.asks]
              split <;> simp
          | shutdown idle => exact ⟨by simp, by simp [PullLoop.asks]⟩
          | send executing room =>
              rename_i unit units
              refine ⟨?_, by simp [PullLoop.asks]⟩
              intro others templating
              cases units <;> cases templating
          | index waiting =>
              refine ⟨?_, by simp [PullLoop.asks]⟩
              intro units templating
              rw [enabled units templating] at on
              cases on
        rcases List.mem_append.mp templated with first | second
        · exact absurd first quiet.2
        · exact ih (by
            intro units templating
            exact absurd templating (quiet.1 units)) rest second

end Steps

/-- Cut the calls of the worker loop where they wait, let the index stage run in between, and bound
the channel: the loop still runs as the pipeline does on what it has asked for. The index stage has
executed the emitted events one after the other, up to those in the channel and then those still to be
sent; the channel keeps its bound; and a block template is asked for only where the mempool is enabled,
after a fetch that brought nothing. -/
theorem pull_loop_refines (blockHash : Header → BlockHash) (config : PullConfig) (machine : Machine)
    (worker : PullWorker) (moves : List PullMove) (finish : PullLoop) (asked : List Move)
    (ran : (PullLoop.start machine worker).run blockHash config moves = some (finish, asked)) :
    ∃ tip pipeline, (Pipeline.start machine { worker with tip }).run blockHash config.toPullStage
        asked = some pipeline ∧
      pipeline.machine = finish.machine ∧ pipeline.worker = finish.worker ∧
      (∃ calls, finish.machine = machine.run calls ∧
        pipeline.emitted = calls.map Prod.snd ++ (finish.queue ++ finish.phase.units)) ∧
      finish.queue.length ≤ config.queueSize ∧
      ∀ info txs, .template info txs ∈ asked → config.mempoolEnabled = true ∧
        ReachesTip blockHash config.toPullStage (Pipeline.start machine { worker with tip }) asked := by
  rcases PullLoop.start_refines ran with ⟨tip, pipeline, there, refines, reaches⟩
  refine ⟨tip, pipeline, there, refines.machine, refines.worker, ?_, ?_, ?_⟩
  · rw [← refines.queue, ← refines.machine]
    exact Pipeline.run_calls ⟨[], rfl, rfl⟩ there
  · exact PullLoop.run_room (Nat.zero_le _) ran
  · intro info txs templated
    refine ⟨PullLoop.template_enabled ?_ ran templated, reaches info txs templated⟩
    intro units impossible
    cases impossible

/-- One block sent and indexed through a channel for one event, then a fetch that brings nothing and
a block template. -/
def tipMoves : List PullMove :=
  [.schedule firstBranch [], .send, .index (acceptAt 11), .schedule firstBranch [],
    .fetch firstBranch, .template ⟨0, hashOf 4⟩ [], .send]

def Move.isTemplate : Move → Bool
  | .template _ _ => true
  | .fetch _ => false
  | .index _ => false

theorem pull_loop_refines_tip :
    ∃ finish asked, (PullLoop.start threeBlocks threeWorker).run byteHash ⟨onePage, true, 1⟩ tipMoves =
        some (finish, asked) ∧
      ∃ tip pipeline, (Pipeline.start threeBlocks { threeWorker with tip }).run byteHash onePage
          asked = some pipeline ∧
        (∃ calls, finish.machine = threeBlocks.run calls ∧
          pipeline.emitted = calls.map Prod.snd ++ (finish.queue ++ finish.phase.units)) ∧
        ReachesTip byteHash onePage (Pipeline.start threeBlocks { threeWorker with tip }) asked := by
  have templated : ((PullLoop.start threeBlocks threeWorker).run byteHash ⟨onePage, true, 1⟩
      tipMoves).map (fun finished => finished.2.any Move.isTemplate) = some true := by decide +kernel
  rcases Option.map_eq_some_iff.mp templated with ⟨⟨finish, asked⟩, ran, last⟩
  rcases pull_loop_refines byteHash ⟨onePage, true, 1⟩ threeBlocks threeWorker tipMoves finish asked
    ran with ⟨tip, pipeline, there, _, _, calls, _, reaches⟩
  refine ⟨finish, asked, ran, tip, pipeline, there, calls, ?_⟩
  rcases List.any_eq_true.mp last with ⟨move, member, kind⟩
  cases move with
  | template info txs => exact (reaches info txs member).2
  | fetch peer => cases kind
  | index env => cases kind

end Symphony
