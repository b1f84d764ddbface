import LedgerTx.Json.Form
import LedgerTx.Settings

/-!
# JSON forms of settings

A span of time is a closed record of seconds and nanoseconds; a billion of
the latter are carried over, and the seconds must not overflow by that.  The
rates of a fee table are written in the order of the kinds; of a repeated
kind the last rate counts.
-/

namespace LedgerTx

namespace Span

/-- The span of seconds and nanoseconds, of which whole seconds are carried over. -/
def carried? (seconds : UInt64) (nanoseconds : UInt32) : Option Span :=
  let total := seconds.toNat + nanoseconds.toNat / 1000000000
  (Word64.ofNat? total).map fun seconds => ⟨seconds, nanoseconds % 1000000000⟩

end Span

instance : JsonForm Span where
  toJson span :=
    .object [("secs", JsonForm.toJson (PlainWord.mk span.seconds)),
      ("nanos", JsonForm.toJson span.nanoseconds)]
  ofJson? json := do
    match ← json.closedRecord? ["secs", "nanos"] with
    | [seconds, nanoseconds] =>
        Span.carried? (← JsonForm.required? PlainWord seconds).value
          (← JsonForm.required? UInt32 nanoseconds)
    | _ => none

instance : JsonForm FeeRates where
  toJson rates :=
    .object (rates.toList.map fun (kind, rate) =>
      (Coded.name kind, JsonForm.toJson (PlainWord.mk rate)))
  ofJson? json := do
    (← json.members?).foldlM (fun (rates : FeeRates) (name, value) => do
      let kind ← Coded.ofName? name
      let rate ← JsonForm.ofJson? (α := PlainWord) value
      some (rates.insert kind rate.value)) FeeRates.empty

instance : JsonForm FeeStrategy where
  toJson
    | .zero => .string "Zero"
    | .multiplier rate => .object [("Multiplier", JsonForm.toJson (PlainWord.mk rate))]
    | .table fallback rates =>
        .object [("RateTable", .object [("default_rate", JsonForm.toJson (PlainWord.mk fallback)),
          ("rates", JsonForm.toJson rates)])]
  ofJson? json := do
    match ← json.choice? with
    | ("Zero", content) => if Json.isVoid content then some .zero else none
    | ("Multiplier", content) =>
        (JsonForm.required? PlainWord content).map fun rate => .multiplier rate.value
    | ("RateTable", some content) =>
        match ← content.record? ["default_rate", "rates"] with
        | [fallback, rates] =>
            some (.table (← JsonForm.required? PlainWord fallback).value
              (← JsonForm.required? FeeRates rates))
        | _ => none
    | _ => none

instance : JsonForm Settings where
  toJson settings :=
    .object [("network_type", JsonForm.toJson settings.network),
      ("generation_hash", JsonForm.ofOption settings.generation),
      ("deadline_horizon", JsonForm.toJson settings.horizon),
      ("fee_strategy", JsonForm.toJson settings.fees)]
  ofJson? json := do
    match ← json.record? ["network_type", "generation_hash", "deadline_horizon",
        "fee_strategy"] with
    | [network, generation, horizon, fees] =>
        some ⟨← JsonForm.required? Network network,
          ← JsonForm.optional? GenerationHash generation, ← JsonForm.required? Span horizon,
          ← JsonForm.required? FeeStrategy fees⟩
    | _ => none

end LedgerTx
