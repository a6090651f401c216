import Verdix.Lib.Json

/-!
# The answer of the language model

What `OllamaClient.complete` returns for a prompt once a model answer has passed validation.
-/

namespace Verdix

/-- The validated answer of the model; the confidence is the literal of a float. -/
structure VerdictOutput where
  verdictCategory : String
  confidenceScore : String
  reasoning : String
  contributingFacts : List String

/-- `VerdictOutput.model_dump`. -/
def VerdictOutput.modelDump (output : VerdictOutput) : Json :=
  .obj [("verdict_category", .str output.verdictCategory),
    ("confidence_score", .float output.confidenceScore),
    ("reasoning", .str output.reasoning),
    ("contributing_facts", .arr (output.contributingFacts.map .str))]

structure LLMResponse where
  verdictCategory : String
  confidenceScore : String
  reasoning : String
  contributingFacts : List String
  rawOutput : Json
  latencyMs : ℤ
  modelVersion : String
  promptVersion : String
  llmInputs : Json

namespace OllamaClient

/-- `OUTPUT_SCHEMA`. -/
def outputSchema : Json :=
  .obj [("type", .str "object"),
    ("properties", .obj [
      ("verdict_category", .obj [("type", .str "string"),
        ("enum", .arr [.str "likely_fp", .str "suspicious_investigate", .str "likely_tp"])]),
      ("confidence_score", .obj [("type", .str "number")]),
      ("reasoning", .obj [("type", .str "string")]),
      ("contributing_facts", .obj [("type", .str "array"),
        ("items", .obj [("type", .str "string")])])]),
    ("required", .arr [.str "verdict_category", .str "confidence_score", .str "reasoning",
      .str "contributing_facts"])]

/-- `complete(prompt, OUTPUT_SCHEMA)` once the model has answered. -/
def complete (model promptVersion prompt : String) (latencyMs : ℤ) (output : VerdictOutput) :
    LLMResponse where
  verdictCategory := output.verdictCategory
  confidenceScore := output.confidenceScore
  reasoning := output.reasoning
  contributingFacts := output.contributingFacts
  rawOutput := output.modelDump
  latencyMs := latencyMs
  modelVersion := model
  promptVersion := promptVersion
  llmInputs := .obj [("prompt", .str prompt), ("output_schema", outputSchema)]

end OllamaClient

end Verdix
