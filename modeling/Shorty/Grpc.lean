import Shorty.Lib.Token
import Shorty.Server

/-!
# Shorty.Grpc

The gRPC service (`grpc/mod.rs`): the unary methods, past authentication, from
the request message to the response message or the status.  It shares the state
of the HTTP API and does not use the cache.
-/

namespace Shorty

namespace Grpc

/-- The status codes the service answers. -/
inductive Code where
  | invalidArgument
  | notFound
  | alreadyExists
  | aborted
  | unavailable
  | internal
  | unauthenticated
deriving DecidableEq

structure Status where
  code : Code
  message : String
deriving DecidableEq

namespace Status

def invalidArgument (message : String) : Status := ⟨.invalidArgument, message⟩

def internal (message : String) : Status := ⟨.internal, message⟩

end Status

/-- A protobuf timestamp. -/
structure Timestamp where
  seconds : Nat
  nanos : Nat
deriving DecidableEq

/-- An instant as a timestamp, and the epoch for one before it. -/
def protobufTimestamp (t : SystemTime) : Timestamp :=
  if 0 ≤ t.ns then ⟨t.secsSinceEpoch, (t.ns % 10 ^ 9).toNat⟩ else ⟨0, 0⟩

/-! ## messages -/

structure GetLinkRequest where
  code : String

structure GetLinkResponse where
  code : String
  targetUrl : String
  createdAt : Timestamp
  updatedAt : Timestamp
  expiresAt : Option Timestamp
  version : Int64
  hits : Nat
deriving DecidableEq

structure CreateLinkRequest where
  targetUrl : String
  customCode : Option String
  ttlSeconds : Option Int

structure CreateLinkResponse where
  code : String
  targetUrl : String
  createdAt : Timestamp
  expiresAt : Option Timestamp
  version : Int64
deriving DecidableEq

structure ListLinksRequest where
  pageSize : Int
  pageToken : Option String

structure ListLinksResponse where
  links : List GetLinkResponse
  nextPageToken : Option String
deriving DecidableEq

namespace GetLinkResponse

def ofLinkStats (stats : LinkStats) : GetLinkResponse where
  code := stats.link.code
  targetUrl := stats.link.targetUrl
  createdAt := protobufTimestamp stats.link.createdAt
  updatedAt := protobufTimestamp stats.link.updatedAt
  expiresAt := stats.link.expiresAt.map protobufTimestamp
  version := stats.link.version
  hits := stats.hits

/-- A listed link is shown without hits. -/
def ofShortLink (link : ShortLink) : GetLinkResponse := ofLinkStats ⟨link, 0⟩

end GetLinkResponse

def CreateLinkResponse.ofLinkStats (stats : LinkStats) : CreateLinkResponse where
  code := stats.link.code
  targetUrl := stats.link.targetUrl
  createdAt := protobufTimestamp stats.link.createdAt
  expiresAt := stats.link.expiresAt.map protobufTimestamp
  version := stats.link.version

def mapRepoError (code : String) : RepoError → Status
  | .notFound _ => ⟨.notFound, "link " ++ code ++ " not found"⟩
  | .codeTaken _ => ⟨.alreadyExists, "code " ++ code ++ " already exists"⟩
  | .versionConflict => ⟨.aborted, "version conflict"⟩
  | .unavailable => ⟨.unavailable, "database unavailable"⟩
  | .internal _ => ⟨.internal, "internal error"⟩

/-! ## methods -/

open Handler

def getLink (req : GetLinkRequest) : Handler Status GetLinkResponse := do
  let stats ← ofExcept (mapRepoError req.code) (← ask (.stats req.code))
  return .ofLinkStats stats

/-- The first eight characters of a version 4 UUID. -/
structure ShortUuid where
  code : String
  length_code : code.length = 8
  hex : ∀ c ∈ code.toList, c ∈ "0123456789abcdef".toList

/-- The custom code of a request; an empty one counts as none. -/
def customCode (req : CreateLinkRequest) : Option String := req.customCode.filter (· ≠ "")

/-- The link is created without an expiry: the time to live of the request is
computed in the source and not used. -/
def createLink (now : SystemTime) (generated : ShortUuid) (req : CreateLinkRequest) :
    Handler Status CreateLinkResponse := do
  if req.targetUrl = "" then fail (.invalidArgument "target_url is required")
  else
    let code := (customCode req).getD generated.code
    ofExcept (mapRepoError code) (← ask (.insert now (.new now code req.targetUrl)))
    let stats ← ofExcept (mapRepoError code) (← ask (.stats code))
    return .ofLinkStats stats

/-- The page size a listing is asked for. -/
def pageSize (size : Int) : Nat := if size ≤ 0 then 20 else (min size 100).toNat

/-- The cursor of a page token, if the token has two parts. -/
def tokenCursor (token : Option String) : Option (String × String) := token.bind (Token.split ':')

/-- The page token of a cursor. -/
def cursorToken (cursor : String × String) : String := Token.join ':' cursor.1 cursor.2

def listLinks (now : SystemTime) (req : ListLinksRequest) : Handler Status ListLinksResponse := do
  let answer ← ask (.list now (pageSize req.pageSize) (tokenCursor req.pageToken))
  let (links, nextCursor) ← ofExcept (fun e => .internal e.message) (← orPanic answer)
  return { links := links.map .ofShortLink, nextPageToken := nextCursor.map cursorToken }

/-- The answer of a listing to a page of the repository. -/
def pageAnswer : Option (Except RepoError ListPage) → Except (Failure Status) ListLinksResponse
  | some (.ok page) => .ok
      { links := page.1.map .ofShortLink, nextPageToken := page.2.map cursorToken }
  | some (.error e) => .error (.error (.internal e.message))
  | none => .error .panicked

theorem run_listLinks {R : Type} [LinkRepository R] (now : SystemTime) (req : ListLinksRequest)
    (s : AppState R) : (listLinks now req).run s =
      (pageAnswer
        (LinkRepository.list now (pageSize req.pageSize) (tokenCursor req.pageToken) s.repo).1,
      { s with
        repo := (LinkRepository.list now (pageSize req.pageSize) (tokenCursor req.pageToken)
          s.repo).2 }) := by
  have hcall : AppState.exec (.list now (pageSize req.pageSize) (tokenCursor req.pageToken)) s =
      s.withRepo (LinkRepository.list now (pageSize req.pageSize) (tokenCursor req.pageToken)
        s.repo) := rfl
  rw [listLinks]
  simp only [run_ask_bind, hcall, AppState.withRepo]
  cases (LinkRepository.list now (pageSize req.pageSize) (tokenCursor req.pageToken) s.repo).1 with
  | none => simp [pageAnswer]
  | some page => cases page <;> simp [pageAnswer]

theorem pageSize_pos (size : Int) : 0 < pageSize size := by
  rw [pageSize]
  split <;> omega

theorem pageSize_le (size : Int) : pageSize size ≤ 100 := by
  rw [pageSize]
  split <;> omega

end Grpc

end Shorty
