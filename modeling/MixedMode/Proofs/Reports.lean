import MixedMode.Proofs.Documents
import MixedMode.Report
/-!
# Reports — what a failed run tells another program

A report is written as one object with six members (`Report.toJson`).  It is read back from its text as it was, whatever
the texts in it are (`Report.readBack_json`), so two failures write the same text just when their reports are the same.
A failure knows the function's index only if it knows the module, and the module just when it knows the convention, so
the line that is printed for people leaves no index out (`RunError.report_survives`).
-/
namespace MixedMode

namespace Json

theorem option?_ofOption_string (o : Option String) : option? string? (ofOption ofString o) = some o := by
  cases o with
  | none => rfl
  | some s => exact congrArg (Option.map some) (string?_ofString s)

theorem option?_ofOption_natural (o : Option Nat) : option? natural? (ofOption ofNat o) = some o := by
  cases o with
  | none => rfl
  | some n => exact congrArg (Option.map some) (natural?_ofNat n)

end Json

namespace Report

/-- A report as it is read by another program: the six members in this order, and no others. -/
def ofJson? : Json → Option Report
  | .object members => do
    match ← Json.named? members with
    | [("phase", phase), ("error_kind", kind), ("message", message), ("module", module), ("function_index", index),
        ("convention", convention)] =>
      return { phase := ← phase.string?, kind := ← kind.string?, message := ← message.string?,
               module := ← module.option? Json.string?, functionIndex := ← index.option? Json.natural?,
               convention := ← convention.option? Json.string? }
    | _ => none
  | _ => none

/-- The report that a text is read as. -/
def readBack (text : String) : Option Report := (Json.parse? text).bind ofJson?

theorem ofJson?_toJson (r : Report) : ofJson? r.toJson = some r := by
  unfold toJson Json.ofFields ofJson?
  dsimp only
  rw [Json.named?_encode]
  simp only [Option.bind_eq_bind, Option.bind_some, Json.string?_ofString, Json.option?_ofOption_string,
    Json.option?_ofOption_natural]
  rfl

theorem sound_toJson (r : Report) : r.toJson.Sound := by
  refine Json.sound_ofFields ?_
  simp [Json.sound_ofString, Json.sound_ofOption, Json.sound_ofNat]

/-- **A report comes back from its text.** -/
theorem readBack_json (r : Report) : readBack r.json = some r := by
  rw [readBack, json, Json.parse?_compact r.sound_toJson, Option.bind_some, ofJson?_toJson]

/-- **Different reports are written differently.** -/
theorem json_injective : Function.Injective json := by
  intro r r' h
  refine Option.some.inj ?_
  calc some r = readBack r.json := (readBack_json r).symm
    _ = readBack r'.json := congrArg readBack h
    _ = some r' := readBack_json r'

end Report

namespace RunError

theorem module?_eq_convention? (e : RunError) : e.module?.isSome = e.convention?.isSome := by
  cases e <;> rfl

/-- A failure that knows the function knows the module. -/
theorem exists_module {e : RunError} {index : Nat} (h : e.functionIndex? = some index) :
    ∃ path, e.module? = some path := by
  cases e with
  | indexOutOfRange path _ _ _ | arityMismatch path _ _ _ _ | runtime path _ _ _ => exact ⟨path, rfl⟩
  | config _ | load _ _ _ | emptyModule _ _ | machine _ => cases h

/-- **The line of a failure that knows the function says which.** -/
theorem line_report {e : RunError} {index : Nat} (h : e.functionIndex? = some index) :
    ∃ path, e.report.module = some path ∧ e.report.functionIndex = some index ∧
      e.report.line = s!"[{e.report.phase}] {e.report.phase} error: {e.report.message} ({path}, function {index})" := by
  obtain ⟨path, hpath⟩ := exists_module h
  refine ⟨path, hpath, h, ?_⟩
  unfold Report.line report
  dsimp only
  rw [hpath, h]
  rfl

/-- **Reports survive being written.**  For every failure the text of its report spells one object, which is read back
as the report: its members in their order, its texts as they were character by character, its index exactly, and what is
absent as absent.  Two failures have the same text just when their reports are equal.  A report that has an index has
a module, and it has a module just when it has a convention.  A failure that knows the index of its function has it in
its report, and the line of the report names the module and the index. -/
theorem report_survives :
    (∀ e : RunError, Json.Spelled e.report.toJson.tokens e.report.json.toList ∧
      Report.readBack e.report.json = some e.report) ∧
    (∀ e e' : RunError, e.report.json = e'.report.json ↔ e.report = e'.report) ∧
    (∀ e : RunError, (e.report.functionIndex.isSome → e.report.module.isSome) ∧
      e.report.module.isSome = e.report.convention.isSome) ∧
    (∀ e : RunError, e.report.functionIndex = e.functionIndex? ∧
      ∀ index, e.functionIndex? = some index →
        ∃ path, e.report.module = some path ∧ e.report.functionIndex = some index ∧ e.report.line =
          s!"[{e.report.phase}] {e.report.phase} error: {e.report.message} ({path}, function {index})") := by
  refine ⟨fun e => ⟨Json.spelled_compact e.report.sound_toJson, e.report.readBack_json⟩,
    fun e e' => Report.json_injective.eq_iff, fun e => ⟨fun h => ?_, ?_⟩, fun e => ⟨rfl, fun index h => line_report h⟩⟩
  · obtain ⟨index, hindex⟩ := Option.isSome_iff_exists.1 h
    exact Option.isSome_iff_exists.2 (exists_module hindex)
  · exact (module?_eq_convention? e).trans (Option.isSome_map ..).symm

example : (load "a\"b\\\x01é" .direct (.notFound "a\"b\\\x01é")).report.json =
    "\x7b\"phase\":\"load\",\"error_kind\":\"ModuleNotFound\",\"message\":\"module not found: a\\\"b\\\\\\u0001é\"," ++
      "\"module\":\"a\\\"b\\\\\\u0001é\",\"function_index\":null,\"convention\":\"direct\"\x7d" := by
  decide +kernel

end RunError
end MixedMode
