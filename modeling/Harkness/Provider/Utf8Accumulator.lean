import Harkness.Provider.Assembler
import Harkness.ToMathlib.Utf8Strict

/-! # Text from a stream of bytes

An endpoint cuts its response wherever its transport flushes. The accumulator releases the characters
its bytes complete and holds the beginning of the next one; bytes that begin no character poison it.
-/

namespace Harkness.Provider

open Utf8 (encode fromUtf8 Opens Broken LongestValid)
open String (utf8Len)

variable {ν : Type}

/-- Bytes a character can occupy while it waits for the rest of them. -/
def maxPendingUtf8Bytes : ℕ := 3

structure Utf8Accumulator where
  pending : List UInt8
  poisoned : Bool
deriving DecidableEq

namespace Utf8Accumulator

def new : Utf8Accumulator := ⟨[], false⟩

/-- The refusal a poisoned accumulator answers with. -/
def poisonedError : ProviderError ν := .malformedResponse (ErrorDetail.new
  "the stream carried bytes that are not UTF-8, and it is not resynchronized")

/-- Absorbs bytes and returns every character they completed. -/
def push (accumulator : Utf8Accumulator) (bytes : List UInt8) :
    Except (ProviderError ν) (List Char) × Utf8Accumulator :=
  if accumulator.poisoned then (.error poisonedError, accumulator)
  else
    let pending := accumulator.pending ++ bytes
    match fromUtf8 pending with
    | .ok text => (.ok text, { accumulator with pending := [] })
    | .error ⟨boundary, none⟩ =>
      -- The bytes before the boundary are a text, by `Utf8.fromUtf8_take`.
      let complete := (fromUtf8 (pending.take boundary)).toOption.getD []
      (.ok complete, { accumulator with pending := pending.drop boundary })
    | .error ⟨offset, some _⟩ =>
      (.error (.malformedResponse (ErrorDetail.new
        ("the provider sent bytes that are not UTF-8 at offset " ++ toString offset))), ⟨[], true⟩)

/-- Ends the stream. -/
def finish (accumulator : Utf8Accumulator) : Except (ProviderError ν) Unit :=
  if accumulator.poisoned then .error poisonedError
  else if accumulator.pending = [] then .ok ()
  else .error (.malformedResponse (ErrorDetail.new
    ("the stream ended with " ++ toString accumulator.pending.length ++
      " bytes of an incomplete UTF-8 character")))

/-- Pushes chunks in turn, whatever the answers. -/
def pushAll (accumulator : Utf8Accumulator) :
    List (List UInt8) → List (Except (ProviderError ν) (List Char)) × Utf8Accumulator
  | [] => ([], accumulator)
  | bytes :: chunks =>
    let pushed := accumulator.push bytes
    let behind := pushed.2.pushAll chunks
    (pushed.1 :: behind.1, behind.2)

end Utf8Accumulator

/-- The text released by some answers. -/
def released (answers : List (Except (ProviderError ν) (List Char))) : List Char :=
  answers.flatMap fun answer => answer.toOption.getD []

/-- The answers of a run that releases some pieces and then refuses. -/
def answers (pieces : List (List Char)) (errors : List (ProviderError ν)) :
    List (Except (ProviderError ν) (List Char)) := pieces.map .ok ++ errors.map .error

/-- What an accumulator holds of the bytes it was given, of which it has released a text. -/
inductive Utf8Accumulator.Holds (received : List UInt8) (text : List Char) : Utf8Accumulator → Prop
  | sound {pending : List UInt8} (same : received = encode text ++ pending)
      (begun : pending = [] ∨ Opens pending) : Holds received text ⟨pending, false⟩
  | poisoned {valid : List Char} {tail : List UInt8} (same : received = encode valid ++ tail)
      (broken : Broken tail) (released : text <+: valid) : Holds received text ⟨[], true⟩

namespace Utf8Accumulator

variable {accumulator : Utf8Accumulator} {received : List UInt8} {text : List Char}

theorem holds_new : new.Holds [] [] := .sound rfl (.inl rfl)

theorem Holds.length_pending_le (holds : accumulator.Holds received text) :
    accumulator.pending.length ≤ maxPendingUtf8Bytes := by
  cases holds with
  | sound _ begun =>
    rcases begun with rfl | opens
    · exact Nat.zero_le _
    · exact opens.length_le
  | poisoned => exact Nat.zero_le _

/-- Further bytes change nothing for a poisoned accumulator. -/
theorem Holds.append (holds : accumulator.Holds received text) (poisoned : accumulator.poisoned = true)
    (bytes : List UInt8) : accumulator.Holds (received ++ bytes) text := by
  cases holds with
  | sound => cases poisoned
  | poisoned same broken released =>
    refine .poisoned ?_ (broken.append bytes) released
    rw [same, List.append_assoc]

/-- A push completes characters, or leaves the accumulator poisoned. -/
theorem Holds.push (holds : accumulator.Holds received text) (bytes : List UInt8) :
    (∃ complete next, accumulator.push bytes = ((.ok complete : Except (ProviderError ν) _), next) ∧
        next.poisoned = false ∧ next.Holds (received ++ bytes) (text ++ complete)) ∨
      ∃ error next, accumulator.push bytes = ((.error error : Except (ProviderError ν) _), next) ∧
        next.poisoned = true ∧ next.Holds (received ++ bytes) text := by
  have later := holds.append
  cases holds with
  | poisoned => exact .inr ⟨poisonedError, _, rfl, rfl, later rfl bytes⟩
  | @sound pending same begun =>
    obtain ⟨complete, tail, split, kind⟩ := Utf8.fromUtf8_cases (pending ++ bytes)
    have whole : received ++ bytes = encode (text ++ complete) ++ tail := by
      rw [same, List.append_assoc, split, Utf8.encode_append, List.append_assoc]
    unfold Utf8Accumulator.push
    rw [if_neg Bool.false_ne_true]
    dsimp only
    rcases kind with ⟨rfl, read⟩ | ⟨opens, read⟩ | ⟨broken, length, read⟩
    · exact .inl ⟨complete, ⟨[], false⟩, by rw [read], rfl, .sound whole (.inl rfl)⟩
    · refine .inl ⟨complete, ⟨tail, false⟩, ?_, rfl, .sound whole (.inr opens)⟩
      have rest : (encode complete ++ tail).drop (utf8Len complete) = tail := by
        rw [← Utf8.length_encode, List.drop_left]
      rw [read]
      simp only [split, Utf8.fromUtf8_take, rest]
      rfl
    · exact .inr ⟨_, ⟨[], true⟩, by rw [read], rfl,
        .poisoned whole broken (List.prefix_append text complete)⟩

theorem push_of_poisoned (poisoned : accumulator.poisoned = true) (bytes : List UInt8) :
    accumulator.push bytes = ((.error poisonedError : Except (ProviderError ν) _), accumulator) := if_pos poisoned

theorem pushAll_of_poisoned (poisoned : accumulator.poisoned = true) (chunks : List (List UInt8)) :
    accumulator.pushAll chunks =
      (chunks.map fun _ => (.error poisonedError : Except (ProviderError ν) _), accumulator) := by
  induction chunks with
  | nil => rfl
  | cons bytes chunks ih => simp only [pushAll, push_of_poisoned poisoned, ih, List.map_cons]

/-- The answers of a run are the pieces of the text it releases and, once it is poisoned, refusals. -/
theorem Holds.pushAll (holds : accumulator.Holds received text) (sound : accumulator.poisoned = false)
    (chunks : List (List UInt8)) :
    ∃ (pieces : List (List Char)) (errors : List (ProviderError ν)) (next : Utf8Accumulator),
      accumulator.pushAll chunks = (answers pieces errors, next) ∧
        (next.poisoned = true ↔ errors ≠ []) ∧
        next.Holds (received ++ chunks.flatten) (text ++ pieces.flatten) := by
  induction chunks generalizing accumulator received text with
  | nil => exact ⟨[], [], accumulator, rfl, by simp [sound], by simpa using holds⟩
  | cons bytes chunks ih =>
    rcases holds.push (ν := ν) bytes with ⟨complete, next, step, sound, holds⟩ |
      ⟨error, next, step, poisoned, holds⟩
    · obtain ⟨pieces, errors, last, run, failed, holds⟩ := ih holds sound
      refine ⟨complete :: pieces, errors, last, ?_, failed, by simpa using holds⟩
      simp only [Utf8Accumulator.pushAll, step, run, answers, List.map_cons, List.cons_append]
    · refine ⟨[], error :: chunks.map fun _ => poisonedError, next, ?_, by simp [poisoned], ?_⟩
      · simp only [Utf8Accumulator.pushAll, step, pushAll_of_poisoned poisoned, answers,
          List.map_nil, List.nil_append, List.map_cons, List.map_map]
        rfl
      · have behind := holds.append poisoned chunks.flatten
        simpa using behind

/-- Bytes that are a text leave nothing pending, and all of it is released. -/
theorem Holds.of_encode {whole : List Char} (holds : accumulator.Holds (encode whole) text) :
    accumulator = new ∧ text = whole := by
  cases holds with
  | poisoned same broken => exact absurd (Utf8.eq_of_stuck broken.stuck same).2 broken.ne_nil
  | sound same begun =>
    rcases begun with rfl | opens
    · exact ⟨rfl, (Utf8.eq_of_stuck Utf8.stuck_nil same).1⟩
    · exact absurd (Utf8.eq_of_stuck (Utf8.not_character_of_opens opens) same).2 opens.1

/-- The text released goes no further than the bytes are valid. -/
theorem Holds.released_prefix (holds : accumulator.Holds received text) :
    ∃ longest, LongestValid received longest ∧ text <+: longest := by
  cases holds with
  | poisoned same broken released =>
    exact ⟨_, same ▸ Utf8.longestValid_of_stuck broken.stuck, released⟩
  | sound same begun =>
    refine ⟨text, same ▸ Utf8.longestValid_of_stuck ?_, List.prefix_refl text⟩
    rcases begun with rfl | opens
    · exact Utf8.stuck_nil
    · exact Utf8.not_character_of_opens opens

/-- Only bytes that are a text are finished. -/
theorem Holds.finish_isOk (holds : accumulator.Holds received text)
    (finished : (accumulator.finish (ν := ν)).isOk) : received = encode text := by
  cases holds with
  | poisoned => cases finished
  | @sound pending same begun =>
    by_cases empty : pending = []
    · rw [same, empty, List.append_nil]
    · rw [finish, if_neg Bool.false_ne_true, if_neg empty] at finished
      cases finished

theorem finish_isOk_eq_false (poisoned : accumulator.poisoned = true) :
    (accumulator.finish (ν := ν)).isOk = false := by
  rw [finish, if_pos poisoned]
  rfl

end Utf8Accumulator

section Answers

variable (pieces : List (List Char)) (errors : List (ProviderError ν))

theorem released_answers : released (answers pieces errors) = pieces.flatten := by
  have texts : (pieces.map (.ok : _ → Except (ProviderError ν) _)).flatMap (·.toOption.getD []) =
      pieces.flatten := by
    rw [List.flatMap_map]
    exact List.flatMap_id
  have nothing : (errors.map (.error : _ → Except _ (List Char))).flatMap (·.toOption.getD []) = [] := by
    rw [List.flatMap_map]
    exact List.flatMap_eq_nil_iff.mpr fun _ _ => rfl
  rw [released, answers, List.flatMap_append, texts, nothing, List.append_nil]

/-- No answer is a piece behind one that is a refusal. -/
theorem pairwise_answers :
    (answers pieces errors).Pairwise fun earlier later => ¬earlier.isOk → ¬later.isOk := by
  refine List.pairwise_append.mpr ⟨?_, ?_, ?_⟩
  · refine List.pairwise_map.mpr (List.pairwise_of_forall fun _ _ failed => ?_)
    exact absurd rfl failed
  · exact List.pairwise_map.mpr (List.pairwise_of_forall fun _ _ _ => Bool.false_ne_true)
  · rintro _ first _ _ failed
    obtain ⟨piece, -, rfl⟩ := List.mem_map.mp first
    exact absurd rfl failed

theorem exists_failed_iff : (∃ answer ∈ answers pieces errors, ¬answer.isOk) ↔ errors ≠ [] := by
  constructor
  · rintro ⟨answer, member, failed⟩ rfl
    rw [answers, List.map_nil, List.append_nil] at member
    obtain ⟨piece, -, rfl⟩ := List.mem_map.mp member
    exact failed rfl
  · intro filled
    obtain ⟨error, errors, rfl⟩ := List.exists_cons_of_ne_nil filled
    exact ⟨.error error, List.mem_append_right _ List.mem_cons_self, Bool.false_ne_true⟩

end Answers

open Utf8Accumulator

/-- However a stream is cut, the text of its bytes is released and nothing else. Bytes that are a text are
all released; bytes that are none make a call fail, and every call behind it. -/
theorem pushAll_exact (chunks : List (List UInt8)) :
    let run := new.pushAll (ν := ν) chunks
    (∀ text, chunks.flatten = encode text → (∀ answer ∈ run.1, answer.isOk) ∧ released run.1 = text ∧
        run.2.finish = (.ok () : Except (ProviderError ν) Unit)) ∧
      ((∀ text, chunks.flatten ≠ encode text) →
        ((∃ answer ∈ run.1, ¬answer.isOk) ∨ ¬(run.2.finish (ν := ν)).isOk) ∧
          (∃ longest, LongestValid chunks.flatten longest ∧ released run.1 <+: longest) ∧
          run.1.Pairwise (fun earlier later => ¬earlier.isOk → ¬later.isOk) ∧
          ((∃ answer ∈ run.1, ¬answer.isOk) → ¬(run.2.finish (ν := ν)).isOk)) ∧
      ∀ before, before <+: chunks → (new.pushAll (ν := ν) before).2.pending.length ≤ 3 := by
  obtain ⟨pieces, errors, last, ran, failed, holds⟩ := holds_new.pushAll (ν := ν) rfl chunks
  rw [List.nil_append, List.nil_append] at holds
  intro run
  rw [show run = _ from ran]
  refine ⟨fun text whole => ?_, fun invalid => ⟨?_, ?_, ?_, ?_⟩, fun before _ => ?_⟩
  · rw [whole] at holds
    obtain ⟨rfl, rfl⟩ := holds.of_encode
    have none_ : errors = [] := by
      by_contra filled
      cases failed.mpr filled
    refine ⟨fun answer member => ?_, released_answers pieces errors, rfl⟩
    by_contra refused
    exact (exists_failed_iff pieces errors).mp ⟨answer, member, refused⟩ none_
  · exact .inr fun finished => invalid _ (holds.finish_isOk finished)
  · rw [released_answers]
    exact holds.released_prefix
  · exact pairwise_answers pieces errors
  · intro refused
    rw [finish_isOk_eq_false (failed.mpr ((exists_failed_iff pieces errors).mp refused))]
    exact Bool.false_ne_true
  · obtain ⟨_, _, last, ran, -, holds⟩ := holds_new.pushAll (ν := ν) rfl before
    rw [ran]
    exact holds.length_pending_le

end Harkness.Provider
