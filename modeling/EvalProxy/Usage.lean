/-
# Usage of a response

What a chat completion reports about itself: its token counts, why its choices ended, and how many
tools they call.

Main definition: `Usage.ofBody?`.
-/
import EvalProxy.Json.Typed
namespace EvalProxy

/-- What one response used. -/
structure Usage where
  promptTokens : Nat
  completionTokens : Nat
  totalTokens : Nat
  finishReasons : List String
  toolCalls : Nat

namespace Usage

/-- A sum that stops at the largest 64-bit count. -/
def cappedAdd (a b : Nat) : Nat := min (a + b) Json.maxU64

/-- The part of a completion that is read; everything else in it is ignored. -/
def shape : Json.Shape :=
  .record "WireResponse" false
    [Json.defaulted "choices" (.array [])
      (.list (.record "WireChoice" false
        [Json.nullable "finish_reason" .text,
         Json.nullable "message"
          (.record "WireMessage" false [Json.nullable "tool_calls" (.list .any)])])),
     Json.nullable "usage"
      (.record "WireUsage" false
        [Json.nullable "prompt_tokens" .u64, Json.nullable "completion_tokens" .u64,
         Json.nullable "total_tokens" .u64])]

/-- The usage that a completion in normal form reports. Without a total the sum of the parts
counts. -/
def ofCompletion? (v : Json) : Option Usage :=
  let usage := Json.field v "usage"
  if usage.isNull then none
  else
    let tokens (key : String) : Option Nat := Json.asNat? (Json.field usage key)
    let prompt := (tokens "prompt_tokens").getD 0
    let completion := (tokens "completion_tokens").getD 0
    let choices := Json.asArray (Json.field v "choices")
    let calls (choice : Json) : Nat :=
      (Json.asArray (Json.field (Json.field choice "message") "tool_calls")).length
    some
      { promptTokens := prompt
        completionTokens := completion
        totalTokens := (tokens "total_tokens").getD (cappedAdd prompt completion)
        finishReasons := choices.filterMap fun c => (Json.field c "finish_reason").text?
        toolCalls := (choices.map calls).foldl cappedAdd 0 }

/-- The usage that a response body reports, if it is a completion that reports any. -/
def ofBody? (body : Bytes) : Option Usage := do
  let v ← (shape.parseText body).toOption
  ofCompletion? v

end Usage

end EvalProxy
