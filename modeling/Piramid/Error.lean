-- SUMMARY: The errors the collection layer returns, and the other ways a call can end without a value.
import Mathlib.Tactic.Common

/-!
# Errors

The variants of `PiramidError` that the modelled functions return, with the text
each is displayed as.
-/

inductive StorageError where
  | corruptedData (msg : String)
  | corruptedIndex (msg : String)
  | readFailed (msg : String)
deriving DecidableEq

inductive ServerError where
  | invalidRequest (msg : String)
  | notFound (msg : String)
  | serviceUnavailable (msg : String)
deriving DecidableEq

inductive IndexError where
  | notInitialized
  | searchFailed (msg : String)
deriving DecidableEq

inductive PiramidError where
  | storage (e : StorageError)
  | index (e : IndexError)
  | server (e : ServerError)
  | io (msg : String)
  | serialization (msg : String)
  | json (msg : String)
  | other (msg : String)
deriving DecidableEq

def StorageError.display : StorageError → String
  | .corruptedData msg => "Storage corruption detected: " ++ msg
  | .corruptedIndex msg => "Index file corrupted: " ++ msg
  | .readFailed msg => "Read operation failed: " ++ msg

def IndexError.display : IndexError → String
  | .notInitialized => "Index not initialized"
  | .searchFailed msg => "Search failed: " ++ msg

def ServerError.display : ServerError → String
  | .invalidRequest msg => "Invalid request: " ++ msg
  | .notFound msg => "Resource not found: " ++ msg
  | .serviceUnavailable msg => "Service unavailable: " ++ msg

def PiramidError.display : PiramidError → String
  | .storage e => "Storage error: " ++ e.display
  | .index e => "Index error: " ++ e.display
  | .server e => "Server error: " ++ e.display
  | .io msg => "IO error: " ++ msg
  | .serialization msg => "Serialization error: " ++ msg
  | .json msg => "JSON error: " ++ msg
  | .other msg => msg

/-- How a call ends without a value: an `Err`, a panic, or not at all. -/
inductive Fault where
  | error (e : PiramidError)
  | panic (msg : String)
  | diverge
deriving DecidableEq

/-- `ServerError::InvalidRequest(msg).into()`. -/
def Fault.invalidRequest (msg : String) : Fault := .error (.server (.invalidRequest msg))

/-- `ServerError::ServiceUnavailable(msg).into()`. -/
def Fault.serviceUnavailable (msg : String) : Fault := .error (.server (.serviceUnavailable msg))

/-- `IndexError::SearchFailed(msg).into()`. -/
def Fault.searchFailed (msg : String) : Fault := .error (.index (.searchFailed msg))
