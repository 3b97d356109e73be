import Harkness.Provider.Content

/-! # The turn of a stream

A well-formed stream is absorbed event by event, and the turn taken from it is determined by its
content. The invariants of any stream at all, refused events included, are kept by each event.
-/

namespace Harkness.Provider

namespace TurnAssembler

variable {ν : Type} (json : JsonReader ν)

/-- A slot once no call accumulates. -/
def close (truncated : Bool) : CallSlot ν → CallSlot ν
  | .opened call => .finalized (finalize json call truncated)
  | .finalized call => .finalized call

theorem mem_openIndices {calls : Std.ExtTreeMap ℕ (CallSlot ν)} {index : ℕ} :
    index ∈ openIndices calls ↔ ∃ call, calls[index]? = some (CallSlot.opened call) := by
  simp only [openIndices, List.mem_filterMap, Prod.exists]
  constructor
  · rintro ⟨key, slot, member, found⟩
    cases slot with
    | opened call =>
      obtain rfl := Option.some.inj found
      exact ⟨call, Std.ExtTreeMap.mem_toList_iff_getElem?_eq_some.mp member⟩
    | finalized call => cases found
  · rintro ⟨call, found⟩
    exact ⟨index, .opened call, Std.ExtTreeMap.mem_toList_iff_getElem?_eq_some.mpr found, rfl⟩

theorem nodup_openIndices (calls : Std.ExtTreeMap ℕ (CallSlot ν)) : (openIndices calls).Nodup := by
  refine List.Pairwise.filterMap _ ?_ (Std.ExtTreeMap.distinct_keys_toList (t := calls))
  rintro ⟨key, slot⟩ ⟨key', slot'⟩ distinct a found a' found'
  cases slot <;> cases slot' <;> simp_all

theorem getElem?_finalizeOpenCalls (truncated : Bool) (assembler : TurnAssembler ν) (index : ℕ) :
    (finalizeOpenCalls json truncated assembler).calls[index]? =
      (assembler.calls[index]?).map (close json truncated) := by
  have rewritten (calls : Std.ExtTreeMap ℕ (CallSlot ν)) (key : ℕ) (slot : CallSlot ν)
      (found : calls[key]? = some slot) (opened : ∃ call, slot = .opened call) (other : ℕ) :
      (finalizeCall json truncated calls key)[other]? =
        if key = other then some (close json truncated slot) else calls[other]? := by
    obtain ⟨call, rfl⟩ := opened
    rw [finalizeCall, found]
    exact Std.ExtTreeMap.getElem?_erase_insert key other _
  have present (key : ℕ) (member : key ∈ openIndices assembler.calls) :
      ∃ slot, assembler.calls[key]? = some slot ∧ ∃ call, slot = CallSlot.opened call := by
    obtain ⟨call, found⟩ := mem_openIndices.mp member
    exact ⟨_, found, call, rfl⟩
  change ((openIndices assembler.calls).foldl (finalizeCall json truncated)
    assembler.calls)[index]? = _
  rw [Std.ExtTreeMap.getElem?_foldl rewritten (nodup_openIndices _) present]
  split_ifs with member
  · rfl
  · rcases found : assembler.calls[index]? with _ | slot
    · rfl
    · cases slot with
      | opened call => exact absurd (mem_openIndices.mpr ⟨call, found⟩) member
      | finalized call => rfl

theorem size_finalizeOpenCalls (truncated : Bool) (assembler : TurnAssembler ν) :
    (finalizeOpenCalls json truncated assembler).calls.size = assembler.calls.size := by
  apply Std.ExtTreeMap.size_eq_of_isSome
  intro key
  rw [getElem?_finalizeOpenCalls, Option.isSome_map]

end TurnAssembler

section Steps

variable {ν : Type} {json : JsonReader ν} {limits : AssemblyLimits} {assembler : TurnAssembler ν}
  {events : List ModelEvent} {event : ModelEvent}

open TurnAssembler

/-- An event that says nothing of a call leaves its slot. -/
theorem slotAt_concat {index : ℕ} (begun : event.begins? = none) (stopped : event.stops? = none)
    (readied : event.readies? ≠ some index) (fragment : event.fragmentAt index = "") :
    slotAt json (events ++ [event]) index = slotAt json events index := by
  have ready : index ∈ Provider.readied (events ++ [event]) ↔ index ∈ Provider.readied events := by
    rw [readied_concat, List.mem_append, Option.mem_toList]
    exact or_iff_left readied
  simp only [slotAt, openedAt_concat begun, stop_concat, stopped, Option.or_none, arguments_concat,
    fragment, String.append_empty, ready]

variable (json) in
theorem slotAt_started {index : ℕ} (known : index ∈ startedIndices events)
    (going : stop events = none) (unready : index ∉ readied events) :
    ∃ call, openedAt events index = some call ∧
      slotAt json events index =
        some (.opened { call with rawArguments := arguments events index }) := by
  rcases found : openedAt events index with _ | call
  · exact absurd known (openedAt_eq_none.mp found)
  · refine ⟨call, rfl, ?_⟩
    simp [slotAt, found, slotOf, going, unready]

theorem startedIndices_concat (quiet : event.begins? = none) :
    startedIndices (events ++ [event]) = startedIndices events := by
  simp [startedIndices, quiet]

/-- The content held after an event that starts no call. -/
theorem Represents.concat {next : TurnAssembler ν} (holds : Represents json limits assembler events)
    (begun : event.begins? = none) (sameLimits : next.limits = assembler.limits)
    (started : next.started = (assembler.started || event.opens))
    (completed : next.completed = (assembler.completed || event.stops?.isSome))
    (text : next.text = assembler.text ++ event.said) (seenIds : next.seenIds = assembler.seenIds)
    (synthesized : next.synthesized = assembler.synthesized)
    (usage : next.usage = event.reports?.elim assembler.usage (mergeReport assembler.usage))
    (stop : next.stop = assembler.stop.or event.stops?)
    (size : next.calls.size = assembler.calls.size)
    (calls : ∀ index : ℕ, next.calls[index]? = slotAt json (events ++ [event]) index)
    (unstarted : ∀ index, index ∉ startedIndices events →
      event.fragmentAt index = "" ∧ event.readies? ≠ some index) :
    Represents json limits next (events ++ [event]) where
  limits := sameLimits.trans holds.limits
  started := by rw [started, holds.started]; simp
  completed := by rw [completed, holds.completed]; simp [Option.isSome_or]
  text := by rw [text, holds.text, spoken_concat]
  seenIds := by rw [seenIds, holds.seenIds]; simp [begun]
  synthesized := by rw [synthesized, holds.synthesized]; simp [begun]
  usage := by rw [usage, holds.usage, usage_concat]
  stop := by rw [stop, holds.stop, stop_concat]
  size := by rw [size, holds.size]; simp [begun]
  calls := calls
  unstarted := by
    intro index
    rw [startedIndices_concat begun]
    intro unknown
    obtain ⟨fragment, ready⟩ := unstarted index unknown
    obtain ⟨empty, unready⟩ := holds.unstarted index unknown
    refine ⟨by rw [arguments_concat, empty, fragment]; rfl, ?_⟩
    rw [readied_concat, List.mem_append, Option.mem_toList]
    exact not_or.mpr ⟨unready, ready⟩

/-- The content held after an event that touches no call. -/
theorem Represents.concat_quiet {next : TurnAssembler ν}
    (holds : Represents json limits assembler events) (begun : event.begins? = none)
    (stopped : event.stops? = none) (readied : event.readies? = none)
    (fragment : ∀ index, event.fragmentAt index = "") (sameLimits : next.limits = assembler.limits)
    (started : next.started = (assembler.started || event.opens))
    (completed : next.completed = assembler.completed)
    (text : next.text = assembler.text ++ event.said) (seenIds : next.seenIds = assembler.seenIds)
    (synthesized : next.synthesized = assembler.synthesized)
    (usage : next.usage = event.reports?.elim assembler.usage (mergeReport assembler.usage))
    (stop : next.stop = assembler.stop) (calls : next.calls = assembler.calls) :
    Represents json limits next (events ++ [event]) := by
  refine holds.concat begun sameLimits started ?_ text seenIds synthesized usage ?_ ?_ ?_ ?_
  · rw [completed, stopped]
    simp
  · rw [stop, stopped, Option.or_none]
  · rw [calls]
  · intro index
    rw [slotAt_concat begun stopped (by simp [readied]) (fragment index), calls, holds.calls]
  · exact fun index _ => ⟨fragment index, by simp [readied]⟩

theorem record_turnStarted {providerRequestId : Option String}
    (holds : Represents json limits assembler events)
    (admissible : Admissible limits events (.turnStarted providerRequestId)) :
    ∃ next, record json (.turnStarted providerRequestId) assembler = (.ok (), next) ∧
      Represents json limits next (events ++ [.turnStarted providerRequestId]) := by
  have unopened : assembler.started = false := holds.started.trans admissible
  refine ⟨{ assembler with started := true, providerRequestId }, ?_,
    holds.concat_quiet rfl rfl rfl (fun _ => rfl) rfl ?_ rfl ?_ rfl rfl rfl rfl rfl⟩
  · change (if assembler.started then _ else _ : Mutation (ProviderError ν) _ Unit) assembler = _
    rw [unopened]
    rfl
  · simp [ModelEvent.opens]
  · simp [ModelEvent.said]

theorem record_textDelta {text : String} (holds : Represents json limits assembler events)
    (admissible : Admissible limits events (.textDelta text)) :
    ∃ next, record json (.textDelta text) assembler = (.ok (), next) ∧
      Represents json limits next (events ++ [.textDelta text]) := by
  have fits : ¬assembler.limits.maxTurnTextBytes <
      assembler.text.utf8ByteSize + text.utf8ByteSize := by
    rw [holds.limits, holds.text]
    exact Nat.not_lt.mpr admissible
  refine ⟨{ assembler with text := assembler.text ++ text }, ?_,
    holds.concat_quiet rfl rfl rfl (fun _ => rfl) rfl ?_ rfl rfl rfl rfl rfl rfl rfl⟩
  · change (if _ then _ else _ : Mutation (ProviderError ν) _ Unit) assembler = _
    rw [if_neg fits]
    rfl
  · simp [ModelEvent.opens]

theorem record_usage {inputTokens outputTokens : Option ℕ} {exact_ : Bool}
    (holds : Represents json limits assembler events) :
    ∃ next, record json (.usage inputTokens outputTokens exact_) assembler = (.ok (), next) ∧
      Represents json limits next (events ++ [.usage inputTokens outputTokens exact_]) := by
  refine ⟨_, rfl, holds.concat_quiet rfl rfl rfl (fun _ => rfl) rfl ?_ rfl ?_ rfl rfl ?_ rfl rfl⟩
  · simp [ModelEvent.opens]
  · simp [ModelEvent.said]
  · rfl

theorem openedAt_concat_started {index : ℕ} {id name : Option String} (other : ℕ)
    (fresh : index ∉ startedIndices events) :
    openedAt (events ++ [.toolCallStarted index id name]) other =
      if index = other then
        some (identify (register (starts events)).seenIds (register (starts events)).synthesized
          index id name)
      else openedAt events other := by
  have begins : starts (events ++ [.toolCallStarted index id name]) =
      starts events ++ [⟨index, id, name⟩] := starts_concat
  rw [openedAt, begins, register_concat]
  change List.find? _ ((register (starts events)).opened ++ [identify _ _ index id name]) = _
  rw [List.find?_append, ← openedAt]
  split_ifs with same
  · subst same
    rw [openedAt_eq_none.mpr fresh]
    simp [identify]
  · simp [identify, same]

theorem record_toolCallStarted {index : ℕ} {id name : Option String}
    (holds : Represents json limits assembler events) (going : stop events = none)
    (admissible : Admissible limits events (.toolCallStarted index id name)) :
    ∃ next, record json (.toolCallStarted index id name) assembler = (.ok (), next) ∧
      Represents json limits next (events ++ [.toolCallStarted index id name]) := by
  obtain ⟨fresh, room⟩ := admissible
  have absent : assembler.calls[index]? = none := by
    rw [holds.calls, slotAt, openedAt_eq_none.mpr fresh]
    rfl
  have unused := Std.ExtTreeMap.contains_eq_false_iff.mpr absent
  have below : ¬assembler.limits.maxToolCalls ≤ assembler.calls.size := by
    rw [holds.limits, holds.size]
    exact Nat.not_le.mpr room
  have begins : starts (events ++ [.toolCallStarted index id name]) =
      starts events ++ [⟨index, id, name⟩] := starts_concat
  apply Exists.intro
  constructor
  · change startCall index id name assembler = _
    change (if _ then _ else _ : Mutation (ProviderError ν) _ Unit) assembler = _
    rw [if_neg (by simp [unused]), if_neg below]
    rfl
  · exact {
      limits := holds.limits
      started := by simpa [ModelEvent.opens] using holds.started
      completed := by simpa [ModelEvent.stops?] using holds.completed
      text := by simpa [ModelEvent.said] using holds.text
      seenIds := by
        rw [begins, register_concat]
        simp only [Register.start, ← holds.seenIds, ← holds.synthesized]
      synthesized := by
        rw [begins, register_concat]
        simp only [Register.start, ← holds.synthesized]
      usage := by simpa [ModelEvent.reports?] using holds.usage
      stop := by simpa [ModelEvent.stops?] using holds.stop
      size := by
        rw [begins, List.length_append, List.length_singleton, ← holds.size]
        change (Std.ExtTreeMap.insert _ _ _).size = _
        simp [Std.ExtTreeMap.size_insert, unused]
      calls := by
        intro other
        change (Std.ExtTreeMap.insert assembler.calls index _)[other]? = _
        rw [Std.ExtTreeMap.getElem?_insert_eq, slotAt, openedAt_concat_started other fresh]
        split_ifs with same
        · subst same
          obtain ⟨empty, unready⟩ := holds.unstarted index fresh
          simp only [Option.map_some, slotOf, arguments_concat, empty, readied_concat, stop_concat,
            going, holds.seenIds, holds.synthesized]
          simp [ModelEvent.fragmentAt, ModelEvent.readies?, ModelEvent.stops?, unready, identify]
        · rw [holds.calls, slotAt]
          simp [ModelEvent.fragmentAt, ModelEvent.readies?, ModelEvent.stops?]
      unstarted := by
        intro other unknown
        have before : other ∉ startedIndices events := by
          intro known
          apply unknown
          rw [startedIndices, begins, List.map_append]
          exact List.mem_append_left _ known
        simpa [ModelEvent.fragmentAt, ModelEvent.readies?] using holds.unstarted other before }

theorem record_toolCallArgumentsDelta {index : ℕ} {fragment : String}
    (holds : Represents json limits assembler events) (going : stop events = none)
    (admissible : Admissible limits events (.toolCallArgumentsDelta index fragment)) :
    ∃ next, record json (.toolCallArgumentsDelta index fragment) assembler = (.ok (), next) ∧
      Represents json limits next (events ++ [.toolCallArgumentsDelta index fragment]) := by
  obtain ⟨known, unready, fits⟩ := admissible
  obtain ⟨call, opened, slot⟩ := slotAt_started json known going unready
  have found := (holds.calls index).trans slot
  refine ⟨{ assembler with
      calls := assembler.calls.insert index
        (.opened { call with rawArguments := arguments events index ++ fragment }) }, ?_,
    holds.concat rfl rfl ?_ ?_ ?_ rfl rfl rfl ?_ ?_ ?_ ?_⟩
  · change extendCall index fragment assembler = _
    rw [extendCall, Mutation.bind_of_ok (m := .read) rfl, found]
    change (if _ then _ else _ : Mutation (ProviderError ν) _ Unit) assembler = _
    rw [if_neg (by rw [holds.limits]; exact Nat.not_lt.mpr fits)]
    rfl
  · simp [ModelEvent.opens]
  · simp [ModelEvent.stops?]
  · simp [ModelEvent.said]
  · simp [ModelEvent.stops?]
  · change (Std.ExtTreeMap.insert _ _ _).size = _
    rw [Std.ExtTreeMap.size_insert, if_pos]
    rw [Std.ExtTreeMap.contains_eq_isSome_getElem?, found]
    rfl
  · intro other
    change (Std.ExtTreeMap.insert assembler.calls index _)[other]? = _
    rw [Std.ExtTreeMap.getElem?_insert_eq]
    split_ifs with same
    · subst same
      rw [slotAt, openedAt_concat rfl, opened]
      simp [slotOf, going, unready, ModelEvent.fragmentAt, ModelEvent.readies?, ModelEvent.stops?]
    · have quiet : (ModelEvent.toolCallArgumentsDelta index fragment).fragmentAt other = "" :=
        if_neg same
      rw [slotAt_concat rfl rfl (by simp [ModelEvent.readies?]) quiet, holds.calls]
  · intro other unknown
    have same : index ≠ other := fun same => unknown (same ▸ known)
    exact ⟨if_neg same, by simp [ModelEvent.readies?]⟩

theorem record_toolCallReady {index : ℕ} (holds : Represents json limits assembler events)
    (going : stop events = none) (admissible : Admissible limits events (.toolCallReady index)) :
    ∃ next, record json (.toolCallReady index) assembler = (.ok (), next) ∧
      Represents json limits next (events ++ [.toolCallReady index]) := by
  obtain ⟨known, unready⟩ := admissible
  obtain ⟨call, opened, slot⟩ := slotAt_started json known going unready
  have found := (holds.calls index).trans slot
  refine ⟨{ assembler with
      calls := (assembler.calls.erase index).insert index (.finalized
        (finalize json { call with rawArguments := arguments events index } false)) }, ?_,
    holds.concat rfl rfl ?_ ?_ ?_ rfl rfl rfl ?_ ?_ ?_ ?_⟩
  · change readyCall json index assembler = _
    rw [readyCall, Mutation.bind_of_ok (m := .read) rfl, found]
    rfl
  · simp [ModelEvent.opens]
  · simp [ModelEvent.stops?]
  · simp [ModelEvent.said]
  · simp [ModelEvent.stops?]
  · apply Std.ExtTreeMap.size_eq_of_isSome
    intro other
    rw [Std.ExtTreeMap.getElem?_erase_insert]
    split_ifs with same
    · rw [← same, found]
      rfl
    · rfl
  · intro other
    rw [Std.ExtTreeMap.getElem?_erase_insert]
    split_ifs with same
    · subst same
      rw [slotAt, openedAt_concat rfl, opened]
      simp [slotOf, ModelEvent.fragmentAt, ModelEvent.readies?]
    · have quiet : (ModelEvent.toolCallReady index).readies? ≠ some other := by
        simpa [ModelEvent.readies?] using same
      rw [slotAt_concat rfl rfl quiet rfl, holds.calls]
  · intro other unknown
    refine ⟨rfl, fun same => unknown ?_⟩
    obtain rfl := Option.some.inj same
    exact known

theorem close_slotAt {reason : StopReason} (index : ℕ) (going : stop events = none) :
    (slotAt json events index).map (close json false) =
      slotAt json (events ++ [.turnCompleted reason]) index := by
  rw [slotAt, slotAt, openedAt_concat rfl, Option.map_map]
  congr 1
  funext call
  by_cases ready : index ∈ readied events <;>
    simp [slotOf, close, ready, going, ModelEvent.fragmentAt, ModelEvent.readies?,
      ModelEvent.stops?]

theorem record_turnCompleted {reason : StopReason} (holds : Represents json limits assembler events)
    (going : stop events = none) :
    ∃ next, record json (.turnCompleted reason) assembler = (.ok (), next) ∧
      Represents json limits next (events ++ [.turnCompleted reason]) := by
  refine ⟨_, rfl, holds.concat rfl rfl ?_ ?_ ?_ rfl rfl rfl ?_ ?_ ?_ ?_⟩
  · simp [ModelEvent.opens, finalizeOpenCalls]
  · simp [ModelEvent.stops?]
  · simp [ModelEvent.said, finalizeOpenCalls]
  · rw [holds.stop, going]
    rfl
  · exact size_finalizeOpenCalls json false assembler
  · intro index
    change (finalizeOpenCalls json false assembler).calls[index]? = _
    rw [getElem?_finalizeOpenCalls, holds.calls, close_slotAt index going]
  · exact fun index _ => ⟨rfl, by simp [ModelEvent.readies?]⟩

/-- An admissible event is recorded, and its content with it. -/
theorem record_admissible (holds : Represents json limits assembler events)
    (going : stop events = none) (admissible : Admissible limits events event) :
    ∃ next, record json event assembler = (.ok (), next) ∧
      Represents json limits next (events ++ [event]) := by
  cases event with
  | turnStarted _ => exact record_turnStarted holds admissible
  | textDelta _ => exact record_textDelta holds admissible
  | toolCallStarted _ _ _ => exact record_toolCallStarted holds going admissible
  | toolCallArgumentsDelta _ _ => exact record_toolCallArgumentsDelta holds going admissible
  | toolCallReady _ => exact record_toolCallReady holds going admissible
  | usage _ _ _ => exact record_usage holds
  | turnCompleted _ => exact record_turnCompleted holds going

end Steps

end Harkness.Provider
