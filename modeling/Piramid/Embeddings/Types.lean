-- SUMMARY: What an embedding provider answers, its errors, and which of them another try may not meet.
import Piramid.Compute

/-!
# Embeddings
-/

/-- `error::EmbeddingError`. -/
inductive EmbeddingError where
  | requestFailed (msg : String)
  | apiError (msg : String)
  | invalidResponse (msg : String)
  | configError (msg : String)
  | rateLimitExceeded
  | authenticationFailed (msg : String)
  | providerUnavailable (msg : String)
  | timeout (msg : String)
  | invalidModel (msg : String)
deriving DecidableEq

namespace EmbeddingError

def display : EmbeddingError → String
  | .requestFailed msg => "HTTP request failed: " ++ msg
  | .apiError msg => "API error: " ++ msg
  | .invalidResponse msg => "Invalid response: " ++ msg
  | .configError msg => "Configuration error: " ++ msg
  | .rateLimitExceeded => "Rate limit exceeded"
  | .authenticationFailed msg => "Authentication failed: " ++ msg
  | .providerUnavailable msg => "Provider unavailable: " ++ msg
  | .timeout msg => "Timeout: " ++ msg
  | .invalidModel msg => "Invalid model: " ++ msg

def isRecoverable : EmbeddingError → Bool
  | .requestFailed _ => true
  | .apiError _ => true
  | .invalidResponse _ => true
  | .configError _ => false
  | .rateLimitExceeded => true
  | .authenticationFailed _ => false
  | .providerUnavailable _ => true
  | .timeout _ => true
  | .invalidModel _ => false

end EmbeddingError

/-- `embeddings::EmbeddingResponse`. -/
structure EmbeddingResponse where
  embedding : Vector32
  tokens : Option Nat
  model : String
