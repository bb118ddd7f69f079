import Shorty.Domain

/-!
# Shorty.Api.Error

The error layer of the HTTP API (`api/error.rs`): what a handler can answer
instead of a result, and the status and body that makes of it.
-/

namespace Shorty

structure FieldError where
  field : String
  issue : String
deriving DecidableEq

/-- The body of every error answer. -/
structure ErrorBody where
  code : String
  message : String
  requestId : Option String
  details : Option (List FieldError)
deriving DecidableEq

inductive AppError where
  | notFound
  | codeTaken
  | versionConflict
  | unavailable
  | validation (message : String) (details : List FieldError)
  | invalidBody (status : Nat) (message : String)
  | rateLimitExceeded (retryAfter : Nat)
  | internal (message : String)
deriving DecidableEq

namespace AppError

/-- The error of the API a store's error turns into. -/
def ofRepoError : RepoError → AppError
  | .notFound _ => .notFound
  | .codeTaken _ => .codeTaken
  | .versionConflict => .versionConflict
  | .unavailable => .unavailable
  | .internal _ => .internal "internal error"

/-- The text shown to the client. -/
def message : AppError → String
  | .notFound => "resource not found"
  | .codeTaken => "code is already taken"
  | .versionConflict => "version conflict"
  | .unavailable => "storage unavailable"
  | .validation message _ => message
  | .invalidBody _ message => message
  | .rateLimitExceeded retryAfter =>
      "rate limit exceeded, retry after " ++ toString retryAfter ++ " seconds"
  | .internal _ => "internal error"

def status : AppError → Nat
  | .notFound => 404
  | .codeTaken => 409
  | .versionConflict => 409
  | .unavailable => 503
  | .validation _ _ => 422
  | .invalidBody status _ => status
  | .rateLimitExceeded _ => 429
  | .internal _ => 500

/-- A store's error is answered as an error. -/
theorem le_status_ofRepoError (e : RepoError) : 400 ≤ (ofRepoError e).status := by
  cases e <;> simp [ofRepoError, status]

/-- The machine-readable code. -/
def code : AppError → String
  | .notFound => "not_found"
  | .codeTaken => "code_taken"
  | .versionConflict => "version_conflict"
  | .unavailable => "unavailable"
  | .validation _ _ => "validation_error"
  | .invalidBody status _ =>
      if status = 413 then "payload_too_large"
      else if status = 415 then "unsupported_media_type"
      else if status = 422 then "validation_error"
      else "bad_request"
  | .rateLimitExceeded _ => "rate_limit_exceeded"
  | .internal _ => "internal"

def details : AppError → Option (List FieldError)
  | .validation _ details => some details
  | _ => none

/-- The headers an error sets besides those of its JSON body. -/
def headers : AppError → List (String × String)
  | .rateLimitExceeded retryAfter => [("retry-after", toString retryAfter)]
  | _ => []

def body (requestId : Option String) (e : AppError) : ErrorBody where
  code := e.code
  message := e.message
  requestId := requestId
  details := e.details

end AppError

end Shorty
