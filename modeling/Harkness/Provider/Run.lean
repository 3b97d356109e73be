import Harkness.Provider.Turn

/-! # Runs of the assembler

A stream is absorbed event by event, a refused event being passed over. After a well-formed stream
the assembler holds its content, so the turn is the content's. After any stream at all, buffers are
within their caps, the calls are in the order of their indices and the identities not marked as
duplicates are distinct.
-/

namespace Harkness.Provider

open TurnAssembler

variable {ν : Type} (json : JsonReader ν) (limits : AssemblyLimits)

/-- The state after a stream. -/
def absorb (assembler : TurnAssembler ν) (events : List ModelEvent) : TurnAssembler ν :=
  events.foldl (fun assembler event => (observe json event assembler).2) assembler

/-- The state a new assembler reaches after a stream. -/
def run (events : List ModelEvent) : TurnAssembler ν := absorb json (.new limits) events

section Completion

variable {json} {limits} {assembler : TurnAssembler ν} {events : List ModelEvent}
  {event : ModelEvent}

/-- States that differ in what they count at most. -/
def SameTurn (left right : TurnAssembler ν) : Prop :=
  ∃ eventCount diagnostics, left = { right with eventCount, diagnostics }

theorem SameTurn.takeTurn {left right : TurnAssembler ν} (same : SameTurn left right)
    (truncated : Bool) :
    TurnAssembler.takeTurn json truncated left = TurnAssembler.takeTurn json truncated right := by
  obtain ⟨eventCount, diagnostics, rfl⟩ := same
  rfl

variable (json) in
theorem observe_completed (event : ModelEvent) (completed : assembler.completed = true) :
    (observe json event assembler).2.completed = true ∧
      SameTurn (observe json event assembler).2 assembler := by
  have ignored : (observe json event assembler).2 = { assembler with
      eventCount := saturatingSucc assembler.eventCount
      diagnostics := { assembler.diagnostics with
        ignoredAfterCompletion :=
          saturatingSucc assembler.diagnostics.ignoredAfterCompletion } } := by
    change ((if assembler.completed then _ else _ :
      Mutation (ProviderError ν) (TurnAssembler ν) Absorbed) _).2 = _
    rw [if_pos completed]
    rfl
  rw [ignored]
  exact ⟨completed, _, _, rfl⟩

variable (json) in
theorem absorb_completed (completed : assembler.completed = true) (events : List ModelEvent) :
    SameTurn (absorb json assembler events) assembler := by
  induction events generalizing assembler with
  | nil => exact ⟨_, _, rfl⟩
  | cons event events ih =>
    obtain ⟨still, _, _, first⟩ := observe_completed json event completed
    obtain ⟨eventCount, diagnostics, last⟩ := ih still
    refine ⟨eventCount, diagnostics, ?_⟩
    change absorb json (observe json event assembler).2 events = _
    rw [last, first]

theorem observe_going (going : assembler.completed = false) :
    (observe json event assembler).2 =
      (record json event { assembler with
        eventCount := saturatingSucc assembler.eventCount }).2 := by
  change ((if assembler.completed then _ else _ :
    Mutation (ProviderError ν) (TurnAssembler ν) Absorbed) _).2 = _
  rw [if_neg (by simp [going])]
  exact Mutation.snd_bind_pure

end Completion

section WellFormed

variable {json} {limits} {assembler : TurnAssembler ν}

theorem represents_new : Represents json limits (.new limits) [] where
  limits := rfl
  started := rfl
  completed := rfl
  text := rfl
  seenIds := rfl
  synthesized := rfl
  usage := rfl
  stop := rfl
  size := rfl
  calls := fun _ => Std.ExtTreeMap.getElem?_empty
  unstarted := fun _ _ => ⟨rfl, List.not_mem_nil⟩

theorem Represents.counted {before : List ModelEvent} {eventCount : ℕ}
    {diagnostics : AssemblyDiagnostics} (holds : Represents json limits assembler before) :
    Represents json limits { assembler with eventCount, diagnostics } before where
  limits := holds.limits
  started := holds.started
  completed := holds.completed
  text := holds.text
  seenIds := holds.seenIds
  synthesized := holds.synthesized
  usage := holds.usage
  stop := holds.stop
  size := holds.size
  calls := holds.calls
  unstarted := holds.unstarted

/-- The content held after the rest of a well-formed stream. -/
theorem represents_absorb {before events : List ModelEvent}
    (holds : Represents json limits assembler before) (going : stop before = none)
    (wellFormed : WellFormedAfter limits before events) :
    Represents json limits (absorb json assembler events) (before ++ heard events) := by
  induction events generalizing assembler before with
  | nil =>
    rw [heard, List.append_nil]
    exact holds
  | cons event events ih =>
    obtain ⟨admissible, rest⟩ := wellFormed
    have incomplete : assembler.completed = false := by rw [holds.completed, going]; rfl
    have counted : Represents json limits
        { assembler with eventCount := saturatingSucc assembler.eventCount } before :=
      holds.counted
    obtain ⟨next, recorded, held⟩ := record_admissible counted going admissible
    have step : (observe json event assembler).2 = next := by
      rw [observe_going incomplete, recorded]
    change Represents json limits (absorb json (observe json event assembler).2 events) _
    rw [step, heard]
    split_ifs with stopped
    · have completed : next.completed = true := by
        rw [held.completed, stop_concat, going, Option.none_or, stopped]
      obtain ⟨eventCount, diagnostics, same⟩ := absorb_completed json completed events
      rw [same]
      exact held.counted
    · have still : stop (before ++ [event]) = none := by
        rw [stop_concat, going, Option.none_or]
        simpa using stopped
      have reached := ih held still (rest.resolve_left stopped)
      rwa [List.append_assoc] at reached

variable (json) in
/-- After a well-formed stream the assembler holds its content. -/
theorem represents_run {events : List ModelEvent} (wellFormed : WellFormed limits events) :
    Represents json limits (run json limits events) (heard events) :=
  represents_absorb represents_new rfl wellFormed

theorem slotAt_eq {left right : List ModelEvent} (same : SameContent left right) (index : ℕ) :
    slotAt json left index = slotAt json right index := by
  have ready : ((stop left).isSome || decide (index ∈ readied left)) =
      ((stop right).isSome || decide (index ∈ readied right)) := by
    rw [← same.stop]
    rcases given : stop left with _ | reason
    · simp [same.readied given index]
    · rfl
  rw [slotAt, slotAt, ready, same.arguments, openedAt, openedAt, same.starts]

/-- States that hold the same content give the same turn. -/
theorem takeTurn_eq {left right : List ModelEvent} {assembler other : TurnAssembler ν}
    (holds : Represents json limits assembler left) (holds' : Represents json limits other right)
    (same : SameContent left right) (truncated : Bool) :
    takeTurn json truncated assembler = takeTurn json truncated other := by
  have calls : (finalizeOpenCalls json truncated assembler).calls =
      (finalizeOpenCalls json truncated other).calls := by
    apply Std.ExtTreeMap.ext_getElem?
    intro index
    rw [getElem?_finalizeOpenCalls, getElem?_finalizeOpenCalls, holds.calls, holds'.calls,
      slotAt_eq same]
  unfold takeTurn
  rw [calls, holds.text, holds'.text, same.spoken, holds.usage, holds'.usage, same.usage,
    holds.stop, holds'.stop, same.stop]

end WellFormed

namespace CallSlot

def index : CallSlot ν → ℕ
  | opened call => call.index
  | finalized call => call.index

def id : CallSlot ν → String
  | opened call => call.id
  | finalized call => call.id

def duplicateOf : CallSlot ν → Option String
  | opened call => call.duplicateOf
  | finalized call => call.duplicateOf

/-- The argument text a slot holds. -/
def buffer : CallSlot ν → String
  | opened call => call.rawArguments
  | finalized (.invalid _ _ _ _ _ rawArguments _) => rawArguments
  | finalized (.ready ..) => ""

/-- A slot for the same call, its arguments within the cap. -/
structure Rewrites (limits : AssemblyLimits) (next slot : CallSlot ν) : Prop where
  index : next.index = slot.index
  id : next.id = slot.id
  duplicateOf : next.duplicateOf = slot.duplicateOf
  buffer : next.buffer.utf8ByteSize ≤ limits.maxToolCallArgumentBytes

end CallSlot

theorem finalize_rewrites {limits : AssemblyLimits} {call : OpenCall} (truncated : Bool)
    (within : call.rawArguments.utf8ByteSize ≤ limits.maxToolCallArgumentBytes) :
    CallSlot.Rewrites limits (.finalized (finalize json call truncated)) (.opened call) := by
  unfold finalize
  by_cases cut : truncated
  · rw [if_pos cut]
    exact ⟨rfl, rfl, rfl, within⟩
  · rw [if_neg cut]
    rcases call.name with _ | named
    · exact ⟨rfl, rfl, rfl, within⟩
    · dsimp only
      rcases (if call.rawArguments.toList.all isWhitespace then .ok json.emptyObject
        else json.fromStr call.rawArguments : Except String ν) with error | arguments
      · exact ⟨rfl, rfl, rfl, within⟩
      · exact ⟨rfl, rfl, rfl, Nat.zero_le _⟩

/-- What holds after any stream: every buffer is within its cap, each slot is its index's, and the
identities not marked as duplicates are distinct. -/
structure Sound (assembler : TurnAssembler ν) : Prop where
  sameLimits : assembler.limits = limits
  text : assembler.text.utf8ByteSize ≤ limits.maxTurnTextBytes
  count : assembler.calls.size ≤ limits.maxToolCalls
  index : ∀ (index : ℕ) slot, assembler.calls[index]? = some slot → slot.index = index
  buffer : ∀ (index : ℕ) slot, assembler.calls[index]? = some slot →
    slot.buffer.utf8ByteSize ≤ limits.maxToolCallArgumentBytes
  seen : ∀ (index : ℕ) slot, assembler.calls[index]? = some slot → slot.id ∈ assembler.seenIds
  distinct : ∀ (index other : ℕ) slot slot', assembler.calls[index]? = some slot →
    assembler.calls[other]? = some slot' → slot.duplicateOf = none → slot'.duplicateOf = none →
      slot.id = slot'.id → index = other

section Sound

variable {json} {limits} {assembler next : TurnAssembler ν}

theorem sound_new : Sound limits (.new limits : TurnAssembler ν) where
  sameLimits := rfl
  text := Nat.zero_le _
  count := Nat.zero_le _
  index := fun _ _ found => nomatch Std.ExtTreeMap.getElem?_empty.symm.trans found
  buffer := fun _ _ found => nomatch Std.ExtTreeMap.getElem?_empty.symm.trans found
  seen := fun _ _ found => nomatch Std.ExtTreeMap.getElem?_empty.symm.trans found
  distinct := fun _ _ _ _ found => nomatch Std.ExtTreeMap.getElem?_empty.symm.trans found

/-- What rewrites slots of calls that started, within the caps, keeps a state sound. -/
theorem Sound.of_slots (sound : Sound limits assembler) (same : next.limits = assembler.limits)
    (text : next.text.utf8ByteSize ≤ limits.maxTurnTextBytes)
    (size : next.calls.size = assembler.calls.size) (seenIds : next.seenIds = assembler.seenIds)
    (slots : ∀ (index : ℕ) slot, next.calls[index]? = some slot →
      ∃ before, assembler.calls[index]? = some before ∧ slot.Rewrites limits before) :
    Sound limits next where
  sameLimits := same.trans sound.sameLimits
  text := text
  count := size ▸ sound.count
  index := by
    intro index slot found
    obtain ⟨before, known, rewrites⟩ := slots index slot found
    exact rewrites.index.trans (sound.index index before known)
  buffer := by
    intro index slot found
    obtain ⟨before, known, rewrites⟩ := slots index slot found
    exact rewrites.buffer
  seen := by
    intro index slot found
    obtain ⟨before, known, rewrites⟩ := slots index slot found
    rw [rewrites.id, seenIds]
    exact sound.seen index before known
  distinct := by
    intro index other slot slot' found found' fresh fresh' same
    obtain ⟨before, known, rewrites⟩ := slots index slot found
    obtain ⟨before', known', rewrites'⟩ := slots other slot' found'
    rw [rewrites.duplicateOf] at fresh
    rw [rewrites'.duplicateOf] at fresh'
    rw [rewrites.id, rewrites'.id] at same
    exact sound.distinct index other before before' known known' fresh fresh' same

theorem Sound.rewrites_self (sound : Sound limits assembler) {index : ℕ} {slot : CallSlot ν}
    (found : assembler.calls[index]? = some slot) : slot.Rewrites limits slot :=
  ⟨rfl, rfl, rfl, sound.buffer index slot found⟩

/-- A change of what is not bounded. -/
theorem Sound.of_eq (sound : Sound limits assembler) (same : next.limits = assembler.limits)
    (text : next.text.utf8ByteSize ≤ limits.maxTurnTextBytes)
    (calls : next.calls = assembler.calls) (seenIds : next.seenIds = assembler.seenIds) :
    Sound limits next := by
  refine sound.of_slots same text (congrArg _ calls) seenIds ?_
  intro index slot found
  rw [calls] at found
  exact ⟨slot, found, sound.rewrites_self found⟩

/-- One slot rewritten. -/
theorem Sound.of_slot (sound : Sound limits assembler) {index : ℕ} {before slot : CallSlot ν}
    (found : assembler.calls[index]? = some before) (rewrites : slot.Rewrites limits before)
    (same : next.limits = assembler.limits) (text : next.text = assembler.text)
    (seenIds : next.seenIds = assembler.seenIds)
    (calls : ∀ other : ℕ, next.calls[other]? =
      if index = other then some slot else assembler.calls[other]?) : Sound limits next := by
  refine sound.of_slots same (text ▸ sound.text) ?_ seenIds ?_
  · apply Std.ExtTreeMap.size_eq_of_isSome
    intro other
    rw [calls]
    split_ifs with here
    · rw [← here, found]
      rfl
    · rfl
  · intro other slot' found'
    rw [calls] at found'
    split_ifs at found' with here
    · obtain rfl := Option.some.inj found'
      exact ⟨before, here ▸ found, rewrites⟩
    · exact ⟨slot', found', sound.rewrites_self found'⟩

/-- A call that repeats an identity is marked. -/
theorem identify_marked {seenIds : List String} {synthesized : ℕ} (index : ℕ)
    (id name : Option String)
    (seen : (identify seenIds synthesized index id name).id ∈ seenIds) :
    (identify seenIds synthesized index id name).duplicateOf ≠ none := by
  have repeated : (identify seenIds synthesized index id name).duplicateOf = some _ := if_pos seen
  rw [repeated]
  exact Option.some_ne_none _

/-- A call started at an unused index; an identity seen before is marked. -/
theorem Sound.of_started (sound : Sound limits assembler) {index : ℕ} {call : OpenCall}
    (absent : assembler.calls.contains index = false)
    (room : assembler.calls.size < limits.maxToolCalls) (placed : call.index = index)
    (empty : call.rawArguments = "")
    (marked : call.id ∈ assembler.seenIds → call.duplicateOf ≠ none)
    (same : next.limits = assembler.limits) (text : next.text = assembler.text)
    (seenIds : next.seenIds = call.id :: assembler.seenIds)
    (calls : next.calls = assembler.calls.insert index (.opened call)) : Sound limits next := by
  have lookup (other : ℕ) : next.calls[other]? =
      if index = other then some (.opened call) else assembler.calls[other]? := by
    rw [calls]
    exact Std.ExtTreeMap.getElem?_insert_eq index other _
  have fresh (slot : CallSlot ν) (other : ℕ) (known : assembler.calls[other]? = some slot)
      (first : call.duplicateOf = none) : call.id ≠ slot.id :=
    fun same => marked (same ▸ sound.seen other slot known) first
  exact {
    sameLimits := same.trans sound.sameLimits
    text := text ▸ sound.text
    count := by
      rw [calls, Std.ExtTreeMap.size_insert, absent]
      exact room
    index := by
      intro other slot found
      rw [lookup] at found
      split_ifs at found with here
      · obtain rfl := Option.some.inj found
        exact placed.trans here
      · exact sound.index other slot found
    buffer := by
      intro other slot found
      rw [lookup] at found
      split_ifs at found with here
      · obtain rfl := Option.some.inj found
        change call.rawArguments.utf8ByteSize ≤ _
        rw [empty]
        exact Nat.zero_le _
      · exact sound.buffer other slot found
    seen := by
      intro other slot found
      rw [seenIds]
      rw [lookup] at found
      split_ifs at found with here
      · obtain rfl := Option.some.inj found
        exact List.mem_cons_self
      · exact List.mem_cons_of_mem _ (sound.seen other slot found)
    distinct := by
      intro other other' slot slot' found found' first first' same
      rw [lookup] at found found'
      split_ifs at found found' with here here' here'
      · exact here.symm.trans here'
      · obtain rfl := Option.some.inj found
        exact absurd same (fresh slot' other' found' first)
      · obtain rfl := Option.some.inj found'
        exact absurd same.symm (fresh slot other found first')
      · exact sound.distinct other other' slot slot' found found' first first' same }

theorem Sound.startCall (sound : Sound limits assembler) (index : ℕ) (id name : Option String) :
    Sound limits (startCall index id name assembler).2 := by
  change Sound limits ((if _ then _ else if _ then _ else _ :
    Mutation (ProviderError ν) (TurnAssembler ν) Unit) assembler).2
  by_cases used : assembler.calls.contains index
  · rw [if_pos used]
    exact sound
  by_cases full : assembler.limits.maxToolCalls ≤ assembler.calls.size
  · rw [if_neg used, if_pos full]
    exact sound
  rw [if_neg used, if_neg full]
  exact sound.of_started (Bool.eq_false_iff.mpr used)
    (sound.sameLimits ▸ Nat.not_le.mp full) rfl rfl (identify_marked index id name) rfl rfl rfl
    rfl

theorem Sound.extendCall (sound : Sound limits assembler) (index : ℕ) (fragment : String) :
    Sound limits (extendCall index fragment assembler).2 := by
  rw [TurnAssembler.extendCall, Mutation.bind_of_ok (m := .read) rfl]
  rcases found : assembler.calls[index]? with _ | call | call
  · exact sound
  · change Sound limits ((if _ then _ else _ :
      Mutation (ProviderError ν) (TurnAssembler ν) Unit) assembler).2
    by_cases over_ : assembler.limits.maxToolCallArgumentBytes <
        call.rawArguments.utf8ByteSize + fragment.utf8ByteSize
    · rw [if_pos over_]
      exact sound
    · rw [if_neg over_]
      have within : (call.rawArguments ++ fragment).utf8ByteSize ≤
          limits.maxToolCallArgumentBytes := by
        rw [String.utf8ByteSize_append, ← sound.sameLimits]
        exact Nat.not_lt.mp over_
      have rewrites : CallSlot.Rewrites limits (ν := ν)
          (.opened { call with rawArguments := call.rawArguments ++ fragment }) (.opened call) :=
        ⟨rfl, rfl, rfl, within⟩
      exact sound.of_slot found rewrites rfl rfl rfl
        fun other => Std.ExtTreeMap.getElem?_insert_eq index other _
  · exact sound

theorem Sound.readyCall (sound : Sound limits assembler) (index : ℕ) :
    Sound limits (readyCall json index assembler).2 := by
  rw [TurnAssembler.readyCall, Mutation.bind_of_ok (m := .read) rfl]
  rcases found : assembler.calls[index]? with _ | call | call
  · exact sound
  · exact sound.of_slot found (finalize_rewrites json false (sound.buffer index _ found)) rfl rfl rfl
      fun other => Std.ExtTreeMap.getElem?_erase_insert index other _
  · exact sound.of_slot found (sound.rewrites_self found) rfl rfl rfl
      fun other => Std.ExtTreeMap.getElem?_erase_insert index other _

/-- Closing calls rewrites their slots. -/
theorem Sound.close (sound : Sound limits assembler) {truncated : Bool} {index : ℕ}
    {slot : CallSlot ν}
    (found : (finalizeOpenCalls json truncated assembler).calls[index]? = some slot) :
    ∃ before, assembler.calls[index]? = some before ∧ slot.Rewrites limits before := by
  rw [getElem?_finalizeOpenCalls, Option.map_eq_some_iff] at found
  obtain ⟨before, known, rfl⟩ := found
  refine ⟨before, known, ?_⟩
  cases before with
  | opened call => exact finalize_rewrites json truncated (sound.buffer index _ known)
  | finalized call => exact sound.rewrites_self known

variable (json) in
theorem Sound.finalizeOpenCalls (sound : Sound limits assembler) (truncated : Bool) :
    Sound limits (finalizeOpenCalls json truncated assembler) :=
  sound.of_slots rfl sound.text (size_finalizeOpenCalls json truncated assembler) rfl
    fun _ _ found => sound.close found

theorem Sound.record (sound : Sound limits assembler) (event : ModelEvent) :
    Sound limits (record json event assembler).2 := by
  cases event with
  | turnStarted providerRequestId =>
    change Sound limits ((if _ then _ else _ :
      Mutation (ProviderError ν) (TurnAssembler ν) Unit) assembler).2
    split_ifs
    · exact sound
    · exact sound.of_eq rfl sound.text rfl rfl
  | textDelta text =>
    change Sound limits ((if _ then _ else _ :
      Mutation (ProviderError ν) (TurnAssembler ν) Unit) assembler).2
    by_cases over_ : assembler.limits.maxTurnTextBytes <
        assembler.text.utf8ByteSize + text.utf8ByteSize
    · rw [if_pos over_]
      exact sound
    · rw [if_neg over_]
      have within : (assembler.text ++ text).utf8ByteSize ≤ limits.maxTurnTextBytes := by
        rw [String.utf8ByteSize_append, ← sound.sameLimits]
        exact Nat.not_lt.mp over_
      exact sound.of_eq rfl within rfl rfl
  | toolCallStarted index id name => exact sound.startCall index id name
  | toolCallArgumentsDelta index fragment => exact sound.extendCall index fragment
  | toolCallReady index => exact sound.readyCall index
  | usage inputTokens outputTokens exact_ => exact sound.of_eq rfl sound.text rfl rfl
  | turnCompleted stop =>
    exact (sound.finalizeOpenCalls json false).of_eq rfl sound.text rfl rfl

theorem Sound.observe (sound : Sound limits assembler) (event : ModelEvent) :
    Sound limits (observe json event assembler).2 := by
  by_cases completed : assembler.completed
  · obtain ⟨-, eventCount, diagnostics, same⟩ :=
      observe_completed json event completed
    rw [same]
    exact sound.of_eq rfl sound.text rfl rfl
  · rw [observe_going (Bool.eq_false_iff.mpr completed)]
    have counted : Sound limits
        { assembler with eventCount := saturatingSucc assembler.eventCount } :=
      sound.of_eq rfl sound.text rfl rfl
    exact counted.record event

theorem sound_run (events : List ModelEvent) : Sound limits (run json limits events) := by
  induction events using List.reverseRecOn with
  | nil => exact sound_new
  | append_singleton events event ih =>
    rw [run, absorb, List.foldl_append]
    exact ih.observe event

variable (json) in
/-- The record a turn has for one index. -/
private theorem closed_rewrites (sound : Sound limits assembler) (truncated : Bool) {index : ℕ}
    {slot : CallSlot ν} (found : assembler.calls[index]? = some slot) :
    CallSlot.Rewrites limits (.finalized (match slot with
      | .finalized call => call
      | .opened call => finalize json call truncated)) slot := by
  cases slot with
  | opened call => exact finalize_rewrites json truncated (sound.buffer index _ found)
  | finalized call => exact sound.rewrites_self found

theorem toolCalls_indices (sound : Sound limits assembler) (truncated : Bool) :
    (takeTurn json truncated assembler).toolCalls.map AssembledToolCall.index =
      (finalizeOpenCalls json truncated assembler).calls.toList.map Prod.fst := by
  have closed := sound.finalizeOpenCalls json truncated
  rw [takeTurn, List.map_map]
  apply List.map_congr_left
  rintro ⟨index, slot⟩ member
  have found := Std.ExtTreeMap.mem_toList_iff_getElem?_eq_some.mp member
  have same := (closed_rewrites json closed truncated found).index
  exact same.trans (closed.index index slot found)

/-- A turn's calls are in the order of their indices. -/
theorem toolCalls_ordered (sound : Sound limits assembler) (truncated : Bool) :
    ((takeTurn json truncated assembler).toolCalls.map AssembledToolCall.index).Pairwise
      (· < ·) := by
  rw [toolCalls_indices sound]
  exact Std.ExtTreeMap.keys_lt

theorem mem_toolCalls_indices (sound : Sound limits assembler) (truncated : Bool) (index : ℕ) :
    index ∈ (takeTurn json truncated assembler).toolCalls.map AssembledToolCall.index ↔
      (assembler.calls[index]?).isSome := by
  rw [toolCalls_indices sound, Std.ExtTreeMap.mem_keys_iff, getElem?_finalizeOpenCalls,
    Option.isSome_map]

/-- The identities of a turn's calls that repeat none are distinct. -/
theorem toolCalls_distinct (sound : Sound limits assembler) (truncated : Bool) :
    (((takeTurn json truncated assembler).toolCalls.filter fun call =>
      call.duplicateOf.isNone).map AssembledToolCall.id).Nodup := by
  have closed := sound.finalizeOpenCalls json truncated
  rw [List.Nodup, List.pairwise_map, List.pairwise_filter, takeTurn, List.pairwise_map]
  refine Std.ExtTreeMap.distinct_keys_toList.imp_of_mem ?_
  rintro ⟨index, slot⟩ ⟨other, slot'⟩ member member' apart first first' same
  have found := Std.ExtTreeMap.mem_toList_iff_getElem?_eq_some.mp member
  have found' := Std.ExtTreeMap.mem_toList_iff_getElem?_eq_some.mp member'
  have record := closed_rewrites json closed truncated found
  have record' := closed_rewrites json closed truncated found'
  refine apart (Nat.compare_eq_eq.mpr (closed.distinct index other slot slot' found found' ?_ ?_ ?_))
  · exact record.duplicateOf.symm.trans (Option.isNone_iff_eq_none.mp first)
  · exact record'.duplicateOf.symm.trans (Option.isNone_iff_eq_none.mp first')
  · exact record.id.symm.trans (same.trans record'.id)

/-- The calls held after a well-formed stream are those that started. -/
theorem Represents.isSome_calls {events : List ModelEvent}
    (holds : Represents json limits assembler events) (index : ℕ) :
    (assembler.calls[index]?).isSome ↔ index ∈ startedIndices events := by
  rw [holds.calls, slotAt, Option.isSome_map, ← not_iff_not, ← openedAt_eq_none]
  simp

theorem absorb_append (events later : List ModelEvent) :
    run json limits (events ++ later) = absorb json (run json limits events) later :=
  List.foldl_append

end Sound

/-- The assembled turn is that of the stream's content, however it is fragmented and interleaved.
Each call that starts is in it once, in the order of the indices; nothing after completion changes
it; no buffer exceeds its cap; and identities that repeat none are distinct. -/
theorem turn_of_content :
    (∀ left right, WellFormed limits left → WellFormed limits right →
      SameContent (heard left) (heard right) →
        (∀ truncated, takeTurn json truncated (run json limits left) =
          takeTurn json truncated (run json limits right)) ∧
        (stop (heard left) ≠ none → ∃ outcome outcome',
          finish json (run json limits left) = .ok outcome ∧
          finish json (run json limits right) = .ok outcome' ∧
          outcome.turn = outcome'.turn ∧ outcome.stop = outcome'.stop ∧
          outcome.usage = outcome'.usage)) ∧
      (∀ events truncated, WellFormed limits events →
        ((takeTurn json truncated (run json limits events)).toolCalls.map
          AssembledToolCall.index).Pairwise (· < ·) ∧
        ∀ index, index ∈ (takeTurn json truncated (run json limits events)).toolCalls.map
          AssembledToolCall.index ↔ index ∈ startedIndices (heard events)) ∧
      (∀ events later truncated, (run json limits events).completed = true →
        takeTurn json truncated (run json limits (events ++ later)) =
          takeTurn json truncated (run json limits events)) ∧
      (∀ events, (run json limits events).text.utf8ByteSize ≤ limits.maxTurnTextBytes ∧
        (run json limits events).calls.size ≤ limits.maxToolCalls ∧
        ∀ (index : ℕ) slot, (run json limits events).calls[index]? = some slot →
          slot.buffer.utf8ByteSize ≤ limits.maxToolCallArgumentBytes) ∧
      ∀ events truncated, (((takeTurn json truncated (run json limits events)).toolCalls.filter
        fun call => call.duplicateOf.isNone).map AssembledToolCall.id).Nodup := by
  refine ⟨fun left right leftFormed rightFormed same => ⟨?_, ?_⟩, ?_, ?_, ?_, ?_⟩
  · exact takeTurn_eq (represents_run json leftFormed) (represents_run json rightFormed) same
  · intro stopped
    have holds := represents_run json leftFormed
    have holds' := represents_run json rightFormed
    have completed : (run json limits left).completed = true := by
      rw [holds.completed]
      exact Option.isSome_iff_ne_none.mpr stopped
    have completed' : (run json limits right).completed = true := by
      rw [holds'.completed, ← same.stop]
      exact Option.isSome_iff_ne_none.mpr stopped
    refine ⟨_, _, if_pos completed, if_pos completed', takeTurn_eq holds holds' same false, ?_, ?_⟩
    · change (run json limits left).stop.getD _ = (run json limits right).stop.getD _
      rw [holds.stop, holds'.stop, same.stop]
    · change (run json limits left).usage = (run json limits right).usage
      rw [holds.usage, holds'.usage, same.usage]
  · intro events truncated wellFormed
    refine ⟨toolCalls_ordered (sound_run events) truncated, fun index => ?_⟩
    rw [mem_toolCalls_indices (sound_run events)]
    exact (represents_run json wellFormed).isSome_calls index
  · intro events later truncated completed
    rw [absorb_append]
    exact (absorb_completed json completed later).takeTurn truncated
  · intro events
    have sound : Sound limits (run json limits events) := sound_run events
    exact ⟨sound.text, sound.count, sound.buffer⟩
  · exact fun events truncated => toolCalls_distinct (sound_run events) truncated

/-- JSON texts taken as they are. -/
def verbatim : JsonReader String := ⟨.ok, "\x7b\x7d"⟩

/-- One turn as two streams: in fragments with the calls interleaved, and call by call. -/
theorem turn_of_content_sample :
    let left : List ModelEvent := [.turnStarted (some "r"), .textDelta "He",
      .toolCallStarted 1 none (some "grep"), .toolCallStarted 0 (some "a") (some "read"),
      .toolCallArgumentsDelta 1 "[", .toolCallArgumentsDelta 0 "12", .textDelta "llo",
      .toolCallArgumentsDelta 1 "]", .toolCallReady 1, .turnCompleted .toolUse, .textDelta "late"]
    let right : List ModelEvent := [.toolCallStarted 1 none (some "grep"),
      .toolCallArgumentsDelta 1 "[]", .toolCallStarted 0 (some "a") (some "read"),
      .toolCallArgumentsDelta 0 "1", .toolCallArgumentsDelta 0 "2", .textDelta "Hello",
      .turnCompleted .toolUse]
    takeTurn verbatim false (run verbatim .default left) =
      takeTurn verbatim false (run verbatim .default right) := by
  refine ((turn_of_content verbatim .default).1 _ _ (by decide) (by decide) ?_).1
    false
  refine ⟨by decide, by decide, fun index => ?_, by decide,
    by decide, fun given => nomatch given⟩
  by_cases one : 1 = index
  · subst one
    decide
  by_cases zero : 0 = index
  · subst zero
    decide
  simp [heard, arguments, ModelEvent.stops?, ModelEvent.fragmentAt, one, zero]

/-- A turn's calls are not in the order they start, and the usage reported is part of a turn. -/
theorem turn_not_of_fragments :
    ¬((∀ events, WellFormed .default events →
        (takeTurn verbatim false (run verbatim .default events)).toolCalls.map
          AssembledToolCall.index = startedIndices (heard events)) ∨
      ∀ left right, WellFormed .default left → WellFormed .default right →
        spoken (heard left) = spoken (heard right) → starts (heard left) = starts (heard right) →
        (∀ index, arguments (heard left) index = arguments (heard right) index) →
          takeTurn verbatim false (run verbatim .default left) =
            takeTurn verbatim false (run verbatim .default right)) := by
  rintro (ordered | equal)
  · have order := ordered [.toolCallStarted 1 (some "b") (some "grep"),
      .toolCallStarted 0 (some "a") (some "read"), .turnCompleted .toolUse] (by decide)
    revert order
    decide
  · have same := equal [.turnCompleted .endTurn] [.usage (some 1) none true, .turnCompleted .endTurn]
      (by decide) (by decide) (by decide) (by decide)
      (fun _ => rfl)
    revert same
    decide

end Harkness.Provider
