import Mathlib.Logic.Basic

/-!
# Errors of the proxy

The error type that every operation of the proxy returns, and the HTTP status
that it is reported with.
-/

namespace VideoProxy

/-- `ProxyError`. -/
inductive ProxyError
  | cache (message : String)
  | network (message : String)
  | upstreamAuthorizationExpired (sourceId : Option Nat)
  | invalidRange (message : String)
  | request (message : String)
  | storage (message : String)
  | parse (message : String)
  | io (message : String)
  | methodNotAllowed
  deriving DecidableEq

namespace ProxyError

/-- Attach the registered source to an authorization error that names none. -/
def withSourceId (error : ProxyError) (sourceId : Option Nat) : ProxyError :=
  match error with
  | .upstreamAuthorizationExpired none =>
    .upstreamAuthorizationExpired sourceId
  | error => error

/-- Text of an error as its `Display` implementation writes it. -/
def display : ProxyError → String
  | .cache message => "Cache error: " ++ message
  | .network message => "Network error: " ++ message
  | .upstreamAuthorizationExpired _ => "Upstream authorization expired"
  | .invalidRange message => "Invalid range error: " ++ message
  | .request message => "Request error: " ++ message
  | .storage message => "Storage error: " ++ message
  | .parse message => "Parse error: " ++ message
  | .io message => "IO error: " ++ message
  | .methodNotAllowed => "Method not allowed"

end ProxyError

theorem exists_of_except_ok {first : Except ε α} {next : α → Except ε β} {result : β}
    (ended : (first >>= next) = .ok result) :
    ∃ value, first = .ok value ∧ next value = .ok result := by
  cases first with
  | error reason => cases ended
  | ok value => exact ⟨value, rfl, ended⟩

end VideoProxy
