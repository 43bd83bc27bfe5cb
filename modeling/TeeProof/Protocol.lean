import Mathlib

/-! The protocol families and the field policy registry that both sides load. -/
namespace TeeProof

/-- The supported families; `unknown` is the absence of one. -/
inductive ProtocolFamily where
  | openaiChat
  | openaiResponses
  | anthropicMessages
  | gemini
  | dashscope
  | bedrock
  | cohere
  deriving DecidableEq, Repr

inductive Side where
  | request
  | response
  deriving DecidableEq, Repr

namespace ProtocolFamily

def all : List ProtocolFamily :=
  [openaiChat, openaiResponses, anthropicMessages, gemini, dashscope, bedrock, cohere]

def name : ProtocolFamily → String
  | openaiChat => "openai.chat_completions"
  | openaiResponses => "openai.responses"
  | anthropicMessages => "anthropic.messages"
  | gemini => "google.gemini.generate_content"
  | dashscope => "alibaba.dashscope.generation"
  | bedrock => "aws.bedrock.converse"
  | cohere => "cohere.chat"

/-- `field-policy-registry.json`. -/
def policy : String := "core"

def policyVersion : ProtocolFamily → String
  | openaiChat => "2026-07-29"
  | openaiResponses => "2026-07-29"
  | anthropicMessages => "2026-07-29"
  | gemini => "2026-07-29"
  | dashscope => "2026-07-29"
  | bedrock => "2026-07-29"
  | cohere => "2026-07-29"

end ProtocolFamily

end TeeProof
