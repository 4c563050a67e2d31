import Symphony.Proof.AddressResponses
import Symphony.Proof.RuneBalances
import Symphony.Proof.RuneIdentifiers
import Symphony.Proof.RuneNames
import Symphony.Serve.RuneInfoRoutes

/-! What the rune routes respond. -/

namespace Symphony

open Encdec Serve
open VersionedLog (Commit Increasing)

section Strings

variable {fromStr : String → Option U128} {string : String}

theorem parse_iff {identifier : RuneIdentifier} :
    RuneIdentifier.parse fromStr string = .ok (.ok identifier) ↔
      Identifies fromStr string identifier := by
  obtain plain | ⟨left, right, parts, before, after, split⟩ | ⟨colon, several, _, _, _, _, split⟩ :=
    splitOn_colon string.toList
  · exact (handled_name plain).identified identifier
  · exact (parse_id parts before after split).1 identifier
  · exact (handled_colons colon several split).identified identifier

theorem parse_malformed {failure : ServeError}
    (parsed : RuneIdentifier.parse fromStr string = .ok (.error failure)) :
    ∃ message, failure = .malformedRequest message := by
  rw [RuneIdentifier.parse] at parsed
  split at parsed
  · split at parsed
    · split at parsed
      · cases parsed
      · split at parsed
        · cases parsed
        · cases parsed
    · cases parsed
      exact ⟨_, rfl⟩
  · split at parsed
    · cases parsed
      exact ⟨_, rfl⟩
    · cases parsed

/-- The parser panics on the strings that are not handled, and on no others. -/
theorem parse_panics_iff :
    (∃ panic, RuneIdentifier.parse fromStr string = .error panic) ↔ ¬ Serve.Numbered string := by
  constructor
  · intro ⟨panic, parsed⟩ numbered
    have handled : Handled fromStr string := by
      obtain plain | ⟨left, right, parts, before, after, split⟩ | ⟨colon, several, _, _, _, _, split⟩ :=
        splitOn_colon string.toList
      · exact handled_name plain
      · exact (handled_id_iff parts before after split).mpr numbered
      · exact handled_colons colon several split
    have silent (identifier : RuneIdentifier) : ¬ Identifies fromStr string identifier := by
      intro identifies
      rw [parse_iff.mpr identifies] at parsed
      cases parsed
    obtain ⟨message, refused⟩ := handled.refused silent
    rw [refused] at parsed
    cases parsed
  intro unnumbered
  rw [Serve.Numbered] at unnumbered
  push Not at unnumbered
  obtain ⟨left, right, parts, before, after, missing⟩ := unnumbered
  have split : string.toList.splitOn ':' = [left, right] := by
    rw [parts, List.splitOn_append_cons_self_of_not_mem before, List.splitOn_eq_singleton after]
  have colon : ':' ∈ string.toList := by
    rw [parts]
    simp
  simp only [RuneIdentifier.parse, if_pos colon, split]
  cases first : @unwrapParsed 64 (parseUInt 64 left) with
  | error panic => exact ⟨panic, rfl⟩
  | ok block =>
      have block_is := parseUInt_iff.mp (unwrapParsed_iff.mp first)
      cases second : @unwrapParsed 32 (parseUInt 32 right) with
      | error panic => exact ⟨panic, rfl⟩
      | ok tx => exact absurd (parseUInt_iff.mp (unwrapParsed_iff.mp second)) (missing ⟨block, block_is⟩ tx)

theorem Serve.Identifies.display (id : RuneId) : Identifies fromStr id.display (.id id) := by
  have parts : id.display.toList =
      Nat.toDigits 10 id.block.toNat ++ ':' :: Nat.toDigits 10 id.tx.toNat := by
    rw [RuneId.display]
    simp
  exact .id parts (DecimalOf.display id.block) (DecimalOf.display id.tx)

end Strings

structure RuneEntries (reader : Reader) (runes : RuneState) : Prop where
  info : ∀ id, reader.get RuneInfoByIdKV id = .ok (runes.infos id)
  name : ∀ name, reader.get RuneIdByNameKV name = .ok (runes.names name)
  inverse : ∀ name id, runes.names name = some id ↔
    ∃ info, runes.infos id = some info ∧ info.name = name

def Denotes (fromStr : String → Option U128) (rune : String) (id : RuneId) (info : RuneInfo) : Prop :=
  Identifies fromStr rune (.id id) ∨ Identifies fromStr rune (.name info.name)

section Infos

variable {text : RuneText} {reader : Reader} {runes : RuneState} {rune : String} {id : RuneId}
variable {response : RuneInfoResponse}

theorem specifiedRune_eq {identifier : RuneIdentifier} (denoted : Identifies text.fromStr rune identifier) :
    specifiedRune text reader rune = identifier.specified reader := by
  simp only [specifiedRune, parse_iff.mpr denoted]

theorem specifiedRune_identifies (specified : specifiedRune text reader rune = .ok id) :
    ∃ identifier, Identifies text.fromStr rune identifier ∧ identifier.specified reader = .ok id := by
  cases parsed : RuneIdentifier.parse text.fromStr rune with
  | error panic =>
      simp only [specifiedRune, parsed] at specified
      cases specified
  | ok outcome =>
      cases outcome with
      | error failure =>
          simp only [specifiedRune, parsed] at specified
          cases specified
      | ok identifier =>
          simp only [specifiedRune, parsed] at specified
          exact ⟨identifier, parse_iff.mp parsed, specified⟩

namespace RuneEntries

variable (entries : RuneEntries reader runes)

include entries

theorem specified_name {name : U128} :
    (RuneIdentifier.name name).specified reader = .ok id ↔ runes.names name = some id := by
  rw [RuneIdentifier.specified, entries.name]
  cases runes.names name with
  | none => simp
  | some other => simp

theorem specified_iff {info : RuneInfo} (entry : runes.infos id = some info) :
    specifiedRune text reader rune = .ok id ↔ Denotes text.fromStr rune id info := by
  constructor
  · intro specified
    obtain ⟨identifier, denoted, leads⟩ := specifiedRune_identifies specified
    cases identifier with
    | id given =>
        rw [RuneIdentifier.specified, Except.ok.injEq] at leads
        rw [leads] at denoted
        exact Or.inl denoted
    | name given =>
        obtain ⟨other, found, own⟩ := (entries.inverse given id).mp (entries.specified_name.mp leads)
        rw [entry, Option.some.injEq] at found
        rw [← own, ← found] at denoted
        exact Or.inr denoted
  · intro denoted
    cases denoted with
    | inl denoted => rw [specifiedRune_eq denoted, RuneIdentifier.specified]
    | inr denoted =>
        rw [specifiedRune_eq denoted, entries.specified_name]
        exact (entries.inverse _ id).mpr ⟨info, entry, rfl⟩

theorem id_of_missing (specified : specifiedRune text reader rune = .ok id)
    (missing : runes.infos id = none) : Identifies text.fromStr rune (.id id) := by
  obtain ⟨identifier, denoted, leads⟩ := specifiedRune_identifies specified
  cases identifier with
  | id given =>
      rw [RuneIdentifier.specified, Except.ok.injEq] at leads
      rw [← leads]
      exact denoted
  | name given =>
      obtain ⟨info, found, _⟩ := (entries.inverse given id).mp (entries.specified_name.mp leads)
      rw [missing] at found
      cases found

theorem runeInfo_eq (specified : specifiedRune text reader rune = .ok id) :
    runeInfo text reader rune =
      (runes.infos id).elim (.error .notFound) (fun info => .ok (runeInfoResponse text id info)) := by
  simp only [runeInfo, specified, entries.info]
  cases runes.infos id with
  | none => rfl
  | some info => rfl

theorem runeInfo_iff : runeInfo text reader rune = .ok response ↔ ∃ id info,
    runes.infos id = some info ∧ Denotes text.fromStr rune id info ∧
      response = runeInfoResponse text id info := by
  constructor
  · intro success
    cases specified : specifiedRune text reader rune with
    | error failure =>
        simp only [runeInfo, specified] at success
        cases success
    | ok id =>
        rw [entries.runeInfo_eq specified] at success
        cases entry : runes.infos id with
        | none =>
            rw [entry] at success
            cases success
        | some info =>
            rw [entry, Option.elim, Except.ok.injEq] at success
            exact ⟨id, info, entry, (entries.specified_iff entry).mp specified, success.symm⟩
  · intro ⟨id, info, entry, denoted, same⟩
    rw [entries.runeInfo_eq ((entries.specified_iff entry).mpr denoted), entry, same]
    rfl

theorem runeInfo_notFound : runeInfo text reader rune = .error .notFound ↔
    (∃ identifier, Identifies text.fromStr rune identifier) ∧
      ∀ id info, runes.infos id = some info → ¬ Denotes text.fromStr rune id info := by
  constructor
  · intro failed
    constructor
    · cases parsed : RuneIdentifier.parse text.fromStr rune with
      | error panic =>
          simp only [runeInfo, specifiedRune, parsed] at failed
          cases failed
      | ok outcome =>
          cases outcome with
          | error failure =>
              obtain ⟨message, same⟩ := parse_malformed parsed
              simp only [runeInfo, specifiedRune, parsed, same] at failed
              cases failed
          | ok identifier => exact ⟨identifier, parse_iff.mp parsed⟩
    · intro id info entry denoted
      have success := entries.runeInfo_iff.mpr ⟨id, info, entry, denoted, rfl⟩
      rw [failed] at success
      cases success
  · intro ⟨⟨identifier, denoted⟩, unknown⟩
    cases leads : identifier.specified reader with
    | error failure =>
        cases identifier with
        | id given => cases leads
        | name given =>
            rw [RuneIdentifier.specified, entries.name] at leads
            cases named : runes.names given with
            | none =>
                simp only [named, Except.error.injEq] at leads
                simp only [runeInfo, specifiedRune_eq denoted, RuneIdentifier.specified, entries.name,
                  named]
            | some id =>
                simp only [named] at leads
                cases leads
    | ok id =>
        have specified := (@specifiedRune_eq text reader rune identifier denoted).trans leads
        rw [entries.runeInfo_eq specified]
        cases entry : runes.infos id with
        | none => rfl
        | some info => exact absurd ((entries.specified_iff entry).mp specified) (unknown id info entry)

theorem runeInfo_display (success : runeInfo text reader rune = .ok response) :
    runeInfo text reader response.id.display = .ok response := by
  obtain ⟨id, info, entry, _, same⟩ := entries.runeInfo_iff.mp success
  rw [same]
  exact entries.runeInfo_iff.mpr ⟨id, info, entry, Or.inl (Identifies.display id), rfl⟩

theorem runeInfo_specified (specified : specifiedRune text reader rune = .ok id) :
    runeInfo text reader rune = runeInfo text reader id.display := by
  have own : specifiedRune text reader id.display = .ok id := specifiedRune_eq (.display id)
  rw [entries.runeInfo_eq specified, entries.runeInfo_eq own]

theorem runeInfo_id {other : RuneInfoResponse} {key : String}
    (first : runeInfo text reader rune = .ok response) (second : runeInfo text reader key = .ok other)
    (same : response.id.display = other.id.display) : response = other := by
  have left := entries.runeInfo_display first
  rw [same, entries.runeInfo_display second, Except.ok.injEq] at left
  exact left.symm

end RuneEntries

end Infos

/-- The infos after these strings of a batch. -/
structure Batched (text : RuneText) (reader : Reader) (done : List String) (infos : RuneInfos) :
    Prop where
  found : ∀ key response, infos.lookup key = some (some response) ↔
    key = response.id.display ∧ ∃ rune ∈ done, runeInfo text reader rune = .ok response
  missing : ∀ key, infos.lookup key = some none →
    key ∈ done ∧ ∀ response, runeInfo text reader key ≠ .ok response
  asked : ∀ rune ∈ done, (∀ response, runeInfo text reader rune ≠ .ok response) →
    infos.lookup rune = some none ∨
      ∃ id, Identifies text.fromStr rune (.id id) ∧ infos.lookup id.display = some none

section Batch

variable {text : RuneText} {reader : Reader} {runes : RuneState} {rune : String} {id : RuneId}
variable {done : List String} {infos : RuneInfos} {response : RuneInfoResponse}

theorem Batched.empty : Batched text reader [] ∅ := by
  constructor
  · intro key response
    rw [AList.lookup_empty]
    simp
  · intro key listed
    rw [AList.lookup_empty] at listed
    cases listed
  · intro rune member
    cases member

theorem Batched.unfound (batched : Batched text reader done infos) (entries : RuneEntries reader runes)
    (nothing : ∀ response, runeInfo text reader rune ≠ .ok response) :
    Batched text reader (rune :: done) (infos.insert rune none) := by
  constructor
  · intro key response
    rw [List.exists_mem_cons_iff, or_iff_right (nothing response)]
    by_cases same : key = rune
    · subst same
      rw [AList.lookup_insert]
      constructor
      · intro impossible
        cases impossible
      · intro ⟨place, other, _, success⟩
        have again := entries.runeInfo_display success
        rw [← place] at again
        exact absurd again (nothing response)
    · rw [AList.lookup_insert_ne same]
      exact batched.found key response
  · intro key listed
    by_cases same : key = rune
    · subst same
      exact ⟨List.mem_cons_self, nothing⟩
    · rw [AList.lookup_insert_ne same] at listed
      obtain ⟨member, failed⟩ := batched.missing key listed
      exact ⟨List.mem_cons_of_mem _ member, failed⟩
  · intro other member failed
    have kept {key : String} (listed : infos.lookup key = some none) :
        (infos.insert rune none).lookup key = some none := by
      by_cases same : key = rune
      · rw [same, AList.lookup_insert]
      · rw [AList.lookup_insert_ne same]
        exact listed
    cases List.mem_cons.mp member with
    | inl same =>
        rw [same]
        exact Or.inl (AList.lookup_insert _)
    | inr earlier =>
        cases batched.asked other earlier failed with
        | inl listed => exact Or.inl (kept listed)
        | inr listed =>
            obtain ⟨id, denoted, listed⟩ := listed
            exact Or.inr ⟨id, denoted, kept listed⟩

theorem Batched.responded (batched : Batched text reader done infos)
    (entries : RuneEntries reader runes) (success : runeInfo text reader rune = .ok response)
    (new : response.id.display ∉ infos) : Batched text reader (rune :: done)
      (infos.insert response.id.display (some response)) := by
  have absent : infos.lookup response.id.display = none := AList.lookup_eq_none.mpr new
  constructor
  · intro key other
    rw [List.exists_mem_cons_iff]
    by_cases same : key = response.id.display
    · subst same
      rw [AList.lookup_insert, Option.some.injEq, Option.some.injEq]
      constructor
      · intro equal
        rw [← equal]
        exact ⟨rfl, Or.inl success⟩
      · intro ⟨place, either⟩
        cases either with
        | inl again =>
            rw [success, Except.ok.injEq] at again
            exact again
        | inr earlier =>
            obtain ⟨before, _, again⟩ := earlier
            exact entries.runeInfo_id success again place
    · rw [AList.lookup_insert_ne same, batched.found]
      apply and_congr_right
      intro place
      rw [or_iff_right]
      intro failed
      rw [success, Except.ok.injEq] at failed
      exact same (by rw [place, failed])
  · intro key listed
    by_cases same : key = response.id.display
    · subst same
      rw [AList.lookup_insert, Option.some.injEq] at listed
      cases listed
    · rw [AList.lookup_insert_ne same] at listed
      obtain ⟨member, failed⟩ := batched.missing key listed
      exact ⟨List.mem_cons_of_mem _ member, failed⟩
  · intro other member failed
    have kept {key : String} (listed : infos.lookup key = some none) :
        (infos.insert response.id.display (some response)).lookup key = some none := by
      rw [AList.lookup_insert_ne]
      · exact listed
      · intro same
        rw [same, absent] at listed
        cases listed
    cases List.mem_cons.mp member with
    | inl same =>
        rw [same] at failed
        exact absurd success (failed response)
    | inr earlier =>
        cases batched.asked other earlier failed with
        | inl listed => exact Or.inl (kept listed)
        | inr listed =>
            obtain ⟨id, denoted, listed⟩ := listed
            exact Or.inr ⟨id, denoted, kept listed⟩

theorem Batched.again (batched : Batched text reader done infos) (entries : RuneEntries reader runes)
    (specified : specifiedRune text reader rune = .ok id) (listed : id.display ∈ infos) :
    Batched text reader (rune :: done) infos := by
  have own := entries.runeInfo_specified specified
  have filed {response : RuneInfoResponse} (success : runeInfo text reader rune = .ok response) :
      ∃ before ∈ done, runeInfo text reader before = .ok response := by
    obtain ⟨entry, inside⟩ := Option.isSome_iff_exists.mp (AList.lookup_isSome.mpr listed)
    rw [own] at success
    cases entry with
    | none => exact absurd success ((batched.missing _ inside).2 response)
    | some other =>
        obtain ⟨place, before, member, again⟩ := (batched.found _ other).mp inside
        have shown := entries.runeInfo_display again
        rw [← place, success, Except.ok.injEq] at shown
        rw [shown]
        exact ⟨before, member, again⟩
  constructor
  · intro key response
    rw [batched.found, List.exists_mem_cons_iff]
    apply and_congr_right
    intro _
    exact ⟨Or.inr, fun either => either.elim filed (fun earlier => earlier)⟩
  · intro key nothing
    obtain ⟨member, failed⟩ := batched.missing key nothing
    exact ⟨List.mem_cons_of_mem _ member, failed⟩
  · intro other member failed
    cases List.mem_cons.mp member with
    | inr earlier => exact batched.asked other earlier failed
    | inl same =>
        subst same
        obtain ⟨entry, inside⟩ := Option.isSome_iff_exists.mp (AList.lookup_isSome.mpr listed)
        cases entry with
        | none =>
            cases entry : runes.infos id with
            | none => exact Or.inr ⟨id, entries.id_of_missing specified entry, inside⟩
            | some info =>
                have shown := entries.runeInfo_eq specified
                rw [entry] at shown
                exact absurd shown (failed _)
        | some response =>
            obtain ⟨place, before, _, again⟩ := (batched.found _ response).mp inside
            have shown := entries.runeInfo_display again
            rw [← place, ← own] at shown
            exact absurd shown (failed response)

namespace RuneEntries

variable (entries : RuneEntries reader runes)

include entries

theorem batchRune_some (found : batchRune text reader rune = .ok (some id)) :
    specifiedRune text reader rune = .ok id := by
  cases parsed : RuneIdentifier.parse text.fromStr rune with
  | error panic =>
      simp only [batchRune, parsed] at found
      cases found
  | ok outcome =>
      cases outcome with
      | error failure =>
          simp only [batchRune, parsed] at found
          cases found
      | ok identifier =>
          simp only [specifiedRune, parsed]
          cases identifier with
          | id given =>
              simp only [batchRune, parsed, Except.ok.injEq, Option.some.injEq] at found
              rw [found, RuneIdentifier.specified]
          | name given =>
              simp only [batchRune, parsed, entries.name, Except.ok.injEq] at found
              exact entries.specified_name.mpr found

theorem batchRune_none (nothing : batchRune text reader rune = .ok none) :
    ∀ response, runeInfo text reader rune ≠ .ok response := by
  intro response success
  obtain ⟨id, info, entry, denoted, _⟩ := entries.runeInfo_iff.mp success
  cases denoted with
  | inl denoted =>
      simp only [batchRune, parse_iff.mpr denoted] at nothing
      cases nothing
  | inr denoted =>
      have named := (entries.inverse info.name id).mpr ⟨info, entry, rfl⟩
      simp only [batchRune, parse_iff.mpr denoted, entries.name, named] at nothing
      cases nothing

theorem batchRune_ok : (∃ found, batchRune text reader rune = .ok found) ↔ Serve.Numbered rune := by
  constructor
  · intro ⟨found, success⟩
    by_contra unnumbered
    obtain ⟨panic, parsed⟩ := (@parse_panics_iff text.fromStr rune).mpr unnumbered
    simp only [batchRune, parsed] at success
    cases success
  · intro numbered
    cases parsed : RuneIdentifier.parse text.fromStr rune with
    | error panic => exact absurd numbered (parse_panics_iff.mp ⟨panic, parsed⟩)
    | ok outcome =>
        cases outcome with
        | error failure => exact ⟨none, by simp only [batchRune, parsed]⟩
        | ok identifier =>
            cases identifier with
            | id given => exact ⟨some given, by simp only [batchRune, parsed]⟩
            | name given => exact ⟨runes.names given, by simp only [batchRune, parsed, entries.name]⟩

theorem batched_run {strings : List String} {after : RuneInfos}
    (batched : Batched text reader done infos)
    (success : collectInfos text reader strings infos = .ok after) :
    Batched text reader (strings.reverse ++ done) after := by
  induction strings generalizing done infos with
  | nil =>
      rw [collectInfos, Except.ok.injEq] at success
      rw [← success]
      exact batched
  | cons rune strings ih =>
      rw [List.reverse_cons, List.append_assoc]
      rw [collectInfos] at success
      cases found : batchRune text reader rune with
      | error failure =>
          simp only [found] at success
          cases success
      | ok outcome =>
          cases outcome with
          | none =>
              simp only [found] at success
              exact ih (batched.unfound entries (entries.batchRune_none found)) success
          | some id =>
              have specified := entries.batchRune_some found
              by_cases listed : id.display ∈ infos
              · simp only [found, listed, if_true] at success
                exact ih (batched.again entries specified listed) success
              · have same := @runeInfo_eq text reader runes rune id entries specified
                simp only [found, listed, if_false, entries.info] at success
                cases entry : runes.infos id with
                | none =>
                    simp only [entry] at success
                    rw [entry] at same
                    apply ih (batched.unfound entries _) success
                    intro response impossible
                    rw [same] at impossible
                    cases impossible
                | some info =>
                    simp only [entry] at success
                    rw [entry] at same
                    exact ih (batched.responded entries same listed) success

theorem collectInfos_ok {strings : List String} :
    (∃ after, collectInfos text reader strings infos = .ok after) ↔
      ∀ rune ∈ strings, Serve.Numbered rune := by
  induction strings generalizing infos with
  | nil => simp [collectInfos]
  | cons rune strings ih =>
      rw [List.forall_mem_cons, collectInfos, ← @batchRune_ok text reader runes rune entries]
      cases found : batchRune text reader rune with
      | error failure => simp
      | ok outcome =>
          rw [and_iff_right ⟨outcome, rfl⟩]
          cases outcome with
          | none => exact ih
          | some id =>
              simp only [entries.info]
              split
              · exact ih
              · cases runes.infos id with
                | none => exact ih
                | some info => exact ih

end RuneEntries

theorem Batched.same {strings : List String} (batched : Batched text reader done infos)
    (mem : ∀ rune, rune ∈ done ↔ rune ∈ strings) : Batched text reader strings infos := by
  constructor
  · intro key response
    rw [batched.found]
    simp only [mem]
  · intro key listed
    rw [← mem]
    exact batched.missing key listed
  · intro rune member
    exact batched.asked rune ((mem rune).mpr member)

theorem RuneEntries.batch (entries : RuneEntries reader runes) (order : StringOrder)
    (runeIds : List String) :
    ((∃ infos, runesRuneInfoBatch text order reader runeIds = .ok infos) ↔
      ∀ rune ∈ uniqueIds runeIds, Serve.Numbered rune) ∧
    ∀ infos, runesRuneInfoBatch text order reader runeIds = .ok infos →
      Batched text reader (uniqueIds runeIds) infos := by
  have mem (rune : String) : rune ∈ order.iter (uniqueIds runeIds) ↔ rune ∈ uniqueIds runeIds :=
    (order.perm _).mem_iff
  constructor
  · rw [runesRuneInfoBatch, entries.collectInfos_ok]
    simp only [mem]
  · intro infos success
    have batched := entries.batched_run Batched.empty success
    apply batched.same
    intro rune
    rw [List.append_nil, List.mem_reverse, mem]

end Batch

section Requests

variable {names : Header → Point → Prop} {config : Config}
variable {factories : List TransactionIndexerFactory} {life past : Life} {storage : StorageHandler}
variable {indexer : RunesIndexer} {reader : Reader}

theorem Life.Sound.runeEntries (sound : past.Sound names config (createIndexers factories))
    (distinct : (factories.map TransactionIndexerFactory.kind).Nodup)
    (enabled : .runes indexer ∈ factories) (valid : past.history.Valid)
    (reserves : indexer.ordinals.Reserves) (few : past.history.blocks.length < 2 ^ 64)
    (sees : reader.Sees past.machine.stage.db.db.view) :
    ∃ runes, RuneRun indexer (chainTxs past.history.blocks) runes ∧ RuneEntries reader runes := by
  have records := (enabledRunes_rule indexer).lived distinct enabled sound valid
  obtain ⟨runes, shown, run⟩ := records.runeRun few
  refine ⟨runes, run, ?_, ?_, (run.named reserves).inverse⟩
  · intro id
    rw [sees.get_latest]
    exact shown.read_info id
  · intro name
    rw [sees.get_latest]
    exact shown.read_name name

end Requests

/-- As long as the database keeps the versions that a request reads: the info of a rune is what was
etched by the moment the request is served from, under its id as under its name; anything else that
can be parsed is not found. -/
theorem rune_info_served (text : RuneText) (names : Header → Point → Prop) (config : Config)
    (factories : List TransactionIndexerFactory) (indexer : RunesIndexer) (life : Life)
    (storage : StorageHandler) (mempool : Bool) (reader : Reader) (info : Serve.IndexerInfo)
    (later : DB)
    (request : life.Request names config factories storage mempool reader info later)
    (enabled : .runes indexer ∈ factories) (reserves : indexer.ordinals.Reserves) :
    let seen : Reader := ⟨later, reader.timestamp⟩
    ∃ past, life.Answers names config factories past storage mempool reader info ∧
      (past.history.blocks.length < 2 ^ 64 →
        ∃ runes, RuneRun indexer (chainTxs past.history.blocks) runes ∧
          (∀ rune response, runeInfo text seen rune = .ok response ↔ ∃ id info,
            runes.infos id = some info ∧ Denotes text.fromStr rune id info ∧
              response = runeInfoResponse text id info) ∧
          ∀ rune, runeInfo text seen rune = .error .notFound ↔
            (∃ identifier, Identifies text.fromStr rune identifier) ∧
              ∀ id info, runes.infos id = some info → ¬ Denotes text.fromStr rune id info) := by
  intro seen
  obtain ⟨past, answers, sound, history, sees⟩ := request.answered
  refine ⟨past, answers, ?_⟩
  intro few
  obtain ⟨runes, run, entries⟩ := sound.runeEntries request.distinct enabled history reserves few sees
  refine ⟨runes, run, fun rune response => entries.runeInfo_iff, ?_⟩
  intro rune
  exact entries.runeInfo_notFound

def lettersOf : (fuel : Nat) → (number : Nat) → List Char
  | 0, _ => []
  | fuel + 1, number => if number = 0 then [] else
      lettersOf fuel ((number - 1) / 26) ++ [Char.ofNat ('A'.toNat + (number - 1) % 26)]

def spacedLetters (letters : List Char) (spacers : U32) : List Char :=
  letters.zipIdx.flatMap (fun item =>
    if item.2 + 1 < letters.length ∧ spacers.toNat.testBit item.2 then [item.1, '•'] else [item.1])

def ordinalsText : RuneText where
  fromStr := nameNumber
  display number := String.ofList (lettersOf 28 (number.toNat + 1))
  spaced number spacers := String.ofList (spacedLetters (lettersOf 28 (number.toNat + 1)) spacers)

/-- The rune that the coinbase of block one etched, under its id and under its name. -/
theorem rune_info_served_coinbase :
    ∃ reader info, startReader epochOnly allLife.machine.stage.db true = .ok (reader, info) ∧
      let seen : Reader := ⟨allLife.machine.stage.db.db, reader.timestamp⟩
      (∃ response, runeInfo ordinalsText seen "1:0" = .ok response ∧
        response.name = "CYINSIUCHLMYHBTPDQPCK" ∧ response.premine = 7 ∧
        runeInfo ordinalsText seen "CYI•NSIUCHLMYHBTPDQPCK" = .ok response) ∧
      ∃ past, allLife.Answers BlockOneOnly { mainnetConfig 2 with utxoCache := true } allFactories
          past allLife.machine.stage.db true reader info ∧
        (past.history.blocks.length < 2 ^ 64 →
          ∃ runes, RuneRun spendRunes (chainTxs past.history.blocks) runes ∧
            (∀ rune response, runeInfo ordinalsText seen rune = .ok response ↔ ∃ id info,
              runes.infos id = some info ∧ Denotes ordinalsText.fromStr rune id info ∧
                response = runeInfoResponse ordinalsText id info) ∧
            ∀ rune, runeInfo ordinalsText seen rune = .error .notFound ↔
              (∃ identifier, Identifies ordinalsText.fromStr rune identifier) ∧
                ∀ id info, runes.infos id = some info →
                  ¬ Denotes ordinalsText.fromStr rune id info) := by
  obtain ⟨reader, info, success, kept, moment⟩ := allLife_mempool
  have response : ∃ response,
      runeInfo ordinalsText ⟨allLife.machine.stage.db.db, reader.timestamp⟩ "1:0" = .ok response ∧
      response.name = "CYINSIUCHLMYHBTPDQPCK" ∧ response.premine = 7 ∧
      runeInfo ordinalsText ⟨allLife.machine.stage.db.db, reader.timestamp⟩ "CYI•NSIUCHLMYHBTPDQPCK" =
        .ok response := by
    refine ⟨⟨⟨1, 0⟩, "CYINSIUCHLMYHBTPDQPCK", "CYINSIUCHLMYHBTPDQPCK", none, 0, txIdOf 1, 1,
      some ⟨some 5, some 1, none, none⟩, 7⟩, ?_⟩
    rw [moment]
    decide +kernel
  refine ⟨reader, info, success, response, ?_⟩
  exact rune_info_served ordinalsText BlockOneOnly _ allFactories spendRunes allLife _ true reader
    info _ (allLife_request success kept) (by simp [allFactories]) spendOrdinals_reserves

/-- As long as the database keeps the versions that a request reads, a batch responds what the route
for one rune responds at the same moment, whichever order its strings are taken in: each rune that is
found once, under its id, and null for a string that nothing is found for, unless the id it stands for
has null itself. It fails only if the parser panics on a string. -/
theorem rune_batch_served (text : RuneText) (names : Header → Point → Prop) (config : Config)
    (factories : List TransactionIndexerFactory) (indexer : RunesIndexer) (life : Life)
    (storage : StorageHandler) (mempool : Bool) (reader : Reader) (info : Serve.IndexerInfo)
    (later : DB) (order : StringOrder)
    (runeIds : List String)
    (request : life.Request names config factories storage mempool reader info later)
    (enabled : .runes indexer ∈ factories) (reserves : indexer.ordinals.Reserves) :
    let seen : Reader := ⟨later, reader.timestamp⟩
    ∃ past, life.Answers names config factories past storage mempool reader info ∧
      (past.history.blocks.length < 2 ^ 64 →
        ((∃ infos, runesRuneInfoBatch text order seen runeIds = .ok infos) ↔
          ∀ rune ∈ uniqueIds runeIds, Serve.Numbered rune) ∧
        ∀ infos, runesRuneInfoBatch text order seen runeIds = .ok infos →
          Batched text seen (uniqueIds runeIds) infos) := by
  intro seen
  obtain ⟨past, answers, sound, history, sees⟩ := request.answered
  refine ⟨past, answers, ?_⟩
  intro few
  obtain ⟨runes, _, entries⟩ := sound.runeEntries request.distinct enabled history reserves few sees
  exact entries.batch order runeIds

def forwards : StringOrder := ⟨id, fun _ => List.Perm.refl _⟩

/-- A rune twice, another one that does not exist, and a blank. -/
theorem rune_batch_served_mixed :
    ∃ reader info, startReader epochOnly allLife.machine.stage.db true = .ok (reader, info) ∧
      let seen : Reader := ⟨allLife.machine.stage.db.db, reader.timestamp⟩
      let runeIds := [" CYINSIUCHLMYHBTPDQPCK", "1:0", "01:7", ""]
      (∃ infos, runesRuneInfoBatch ordinalsText forwards seen runeIds = .ok infos ∧
        infos.keys = ["01:7", "1:0"]) ∧
      ∃ past, allLife.Answers BlockOneOnly { mainnetConfig 2 with utxoCache := true } allFactories
          past allLife.machine.stage.db true reader info ∧
        (past.history.blocks.length < 2 ^ 64 →
          ((∃ infos, runesRuneInfoBatch ordinalsText forwards seen runeIds = .ok infos) ↔
            ∀ rune ∈ uniqueIds runeIds, Serve.Numbered rune) ∧
          ∀ infos, runesRuneInfoBatch ordinalsText forwards seen runeIds = .ok infos →
            Batched ordinalsText seen (uniqueIds runeIds) infos) := by
  obtain ⟨reader, info, success, kept, moment⟩ := allLife_mempool
  refine ⟨reader, info, success, ?_, ?_⟩
  · have keys : (runesRuneInfoBatch ordinalsText forwards ⟨allLife.machine.stage.db.db, reader.timestamp⟩
        [" CYINSIUCHLMYHBTPDQPCK", "1:0", "01:7", ""]).map AList.keys = .ok ["01:7", "1:0"] := by
      rw [moment]
      decide +kernel
    cases response : runesRuneInfoBatch ordinalsText forwards
        ⟨allLife.machine.stage.db.db, reader.timestamp⟩ [" CYINSIUCHLMYHBTPDQPCK", "1:0", "01:7", ""] with
    | error failure =>
        rw [response] at keys
        cases keys
    | ok infos =>
        rw [response, Except.map, Except.ok.injEq] at keys
        exact ⟨infos, rfl, keys⟩
  · exact rune_batch_served ordinalsText BlockOneOnly _ allFactories spendRunes allLife _ true reader
      info _ forwards _ (allLife_request success kept) (by simp [allFactories])
      spendOrdinals_reserves

end Symphony
