import Shorty.Auth
import Shorty.Lib.Base64
import Shorty.Lib.Json

/-!
# Shorty.Api.Handlers

The HTTP handlers (`api/handlers.rs`, `api/stats.rs`), from the extracted request
to the response.  A handler reads the clock a few times within one request; here
a request is handled at one instant, `now`.

`handle` dispatches a request to its handler, and `serve` is the whole answer a
client gets, errors turned into responses.
-/

namespace Shorty

/-- The settings the handlers read. -/
structure Config where
  codeLength : Nat
  maxGenerateAttempts : Nat

/-- The third-party functions the handlers call. -/
structure Crates where
  url : UrlCrate
  base64Encode : ByteArray → String
  base64Decode : String → Option ByteArray
  /-- `serde_json`, at a pair of strings. -/
  jsonToString : String × String → String
  jsonFromStr : String → Option (String × String)

/-- The alphabet of `nanoid!`. -/
def nanoidAlphabet : List Char :=
  "_-0123456789abcdefghijklmnopqrstuvwxyzABCDEFGHIJKLMNOPQRSTUVWXYZ".toList

/-- A code `nanoid!(n)` can draw. -/
structure Nanoid (n : Nat) where
  code : String
  length_code : code.length = n
  alphabet : ∀ c ∈ code.toList, c ∈ nanoidAlphabet

/-! ## responses -/

structure LinkStatsResponse where
  code : String
  totalHits : Nat
  hitsLast60s : Nat
deriving DecidableEq

structure TopLink where
  code : String
  totalHits : Nat
deriving DecidableEq

/-- The body of a response. -/
inductive Body where
  | empty
  | error (body : ErrorBody)
  | link (link : LinkResponse)
  | links (links : ListLinksResponse)
  | linkStats (stats : LinkStatsResponse)
  | topStats (links : List TopLink)
  | authError (code message : String) (requestId : Option String)
  | login (login : Auth.LoginResponse)
  | health (status : String)
  | version (version : String)
  | text (text : String)
deriving DecidableEq

/-- A response: its status, the headers a handler sets, and its body. -/
structure Response where
  status : Nat
  headers : List (String × String)
  body : Body
deriving DecidableEq

/-- Whether a text can be the value of a header: no control characters but the
tab. -/
def isHeaderValue (s : String) : Bool :=
  s.toList.all (fun c => (decide (0x20 ≤ c.toNat) && decide (c.toNat ≠ 0x7f)) || decide (c = '\t'))

namespace Response

def ok (body : Body) : Response := ⟨200, [], body⟩

/-- `(CREATED, [(LOCATION, location)], Json(body))`: the header is put on the response of the
body, and where it has no value the error is the response. -/
def created (location : String) (body : Body) : Response :=
  if isHeaderValue location then ⟨201, [("location", location)], body⟩
  else ⟨500, [], .text "failed to parse header value"⟩

/-- `(TEMPORARY_REDIRECT, [(LOCATION, location)])`: the header is a response of its own, an
error where it has no value, and either gets the status. -/
def temporaryRedirect (location : String) : Response :=
  if isHeaderValue location then ⟨307, [("location", location)], .empty⟩
  else ⟨307, [], .text "failed to parse header value"⟩

/-- Where a response sends its client. -/
def location? (response : Response) : Option String :=
  if response.status = 307 then response.headers.lookup "location" else none

theorem location?_temporaryRedirect (location : String) : (temporaryRedirect location).location? =
    if isHeaderValue location then some location else none := by
  unfold temporaryRedirect
  split <;> rfl

theorem location?_of_status {response : Response} (h : response.status ≠ 307) :
    response.location? = none := if_neg h

def ofError (requestId : Option String) (e : AppError) : Response :=
  ⟨e.status, e.headers, .error (e.body requestId)⟩

def ofAuthError (requestId : Option String) (e : AuthError) : Response :=
  ⟨e.status, [], .authError "auth_error" e.message requestId⟩

end Response

namespace Api

open Handler

/-- `?` on a call of the repository. -/
def ofRepo {α : Type} : Except RepoError α → Handler AppError α := ofExcept AppError.ofRepoError

section Create

variable (config : Config) (now : SystemTime) (targetUrl : String) (expiresAt : Option SystemTime)

def tryInsertLink (code : String) : Handler AppError (Except RepoError Unit) :=
  let link := ShortLink.new now code targetUrl
  ask (.insert now (match expiresAt with
    | some t => link.withExpiresAt t
    | none => link))

def insertLink (code : String) : Handler AppError Unit := do
  ofRepo (← tryInsertLink now targetUrl expiresAt code)

/-- Insert under the first of some codes that is free. -/
def tryCodes : List String → Handler AppError String
  | [] => fail (.internal ("failed to generate a unique code in " ++
      toString config.maxGenerateAttempts ++ " attempts"))
  | code :: codes => do
      match ← tryInsertLink now targetUrl expiresAt code with
      | .ok () => return code
      | .error (.codeTaken _) => tryCodes codes
      | .error other => fail (.ofRepoError other)

/-- The codes one request may draw. -/
def drawn (draw : Nat → Nanoid config.codeLength) : List String :=
  (List.range config.maxGenerateAttempts).map (fun i => (draw i).code)

def generateCode (draw : Nat → Nanoid config.codeLength) : Handler AppError String :=
  tryCodes config now targetUrl expiresAt (drawn config draw)

end Create

variable (config : Config) (crates : Crates) (now : SystemTime)

def createLink (draw : Nat → Nanoid config.codeLength) (req : CreateLinkRequest) :
    Handler AppError Response := do
  let targetUrl ← ofExcept id (parseTargetUrl crates.url req.targetUrl)
  let expiresAt ← ofExcept id (← orPanic (expiresAtFromTtl now req.ttlSeconds))
  let code ← match req.customCode with
    | some code => do
        ofExcept id (validateCustomCode code)
        insertLink now targetUrl.asStr expiresAt code
        pure code
    | none => generateCode config now targetUrl.asStr expiresAt draw
  let stats ← ofRepo (← ask (.stats code))
  return .created ("/api/v1/links/" ++ code) (.link (.ofLinkStats stats))

def updateLink (code : String) (req : UpdateLinkRequest) : Handler AppError Response := do
  let targetUrl ← ofExcept id (parseTargetUrl crates.url req.targetUrl)
  let link ← ofRepo (← ask (.update now code targetUrl.asStr req.version))
  ask (.cacheInvalidate (linkKey code))
  return .ok (.link (.ofShortLink link))

def getLink (code : String) : Handler AppError Response := do
  match ← ask (.cacheGet (linkKey code)) with
  | some cached => return .ok (.link cached)
  | none =>
      let stats ← ofRepo (← ask (.stats code))
      ask (.cacheSet (linkKey code) (.ofLinkStats stats))
      return .ok (.link (.ofLinkStats stats))

/-- `parse::<u64>`: decimal digits after an optional plus sign. -/
def parseU64 (s : String) : Option Nat :=
  let digits := match s.toList with
    | '+' :: rest => rest
    | chars => chars
  if digits ≠ [] ∧ digits.all Char.isDigit then
    let n := digits.foldl (fun n c => n * 10 + (c.toNat - '0'.toNat)) 0
    if n < 2 ^ 64 then some n else none
  else none

/-- The page size a listing is asked for. -/
def listLimit (limit : Option String) : Nat := min ((limit.bind parseU64).getD 20) 100

def decodeCursor (c : String) : Option (String × String) := do
  let decoded ← crates.base64Decode c
  let decodedStr ← String.fromUTF8? decoded
  crates.jsonFromStr decodedStr

def encodeCursor (cursor : String × String) : String :=
  crates.base64Encode (crates.jsonToString cursor).toUTF8

def listLinks (limit cursor : Option String) : Handler AppError Response := do
  let answer ← ask (.list now (listLimit limit) (cursor.bind (decodeCursor crates)))
  let (links, nextCursor) ← ofRepo (← orPanic answer)
  return .ok (.links
    { links := links.map LinkResponse.ofShortLink
      nextCursor := nextCursor.map (encodeCursor crates) })

def redirect (code : String) : Handler AppError Response := do
  let link ← ofRepo (← ask (.get code))
  if link.isExpired now then fail .notFound
  else
    let _ ← ofRepo (← ask (.recordHit now code))
    -- the counter has changed, so the cached response is stale
    ask (.cacheInvalidate (linkKey code))
    return .temporaryRedirect link.targetUrl

def deleteLink (code : String) : Handler AppError Response := do
  ofRepo (← ask (.remove code))
  ask (.cacheInvalidate (linkKey code))
  return ⟨204, [], .empty⟩

/-! ## statistics -/

def getLinkStats (code : String) : Handler AppError Response := do
  let link ← ofRepo (← ask (.get code))
  if link.isExpired now then fail .notFound
  else
    let stats ← ask (.window code)
    return .ok (.linkStats
      { code := code
        totalHits := (stats.map SlidingWindowStats.getTotal).getD 0
        hitsLast60s := (stats.map (SlidingWindowStats.getLast60s · now)).getD 0 })

def getTopStats (limit : Nat) : Handler AppError Response := do
  let top ← ask (.top (min limit 100))
  return .ok (.topStats (top.map (fun p => ⟨p.1, p.2⟩)))

/-! ## requests -/

/-- A request after routing and extraction. -/
inductive Request where
  | createLink (draw : Nat → Nanoid config.codeLength) (req : CreateLinkRequest)
  | updateLink (code : String) (req : UpdateLinkRequest)
  | getLink (code : String)
  | listLinks (limit cursor : Option String)
  | redirect (code : String)
  | deleteLink (code : String)
  | getLinkStats (code : String)
  | getTopStats (limit : Nat)

variable {config}

/-- The handler of a request. -/
def handle : Request config → Handler AppError Response
  | .createLink draw req => createLink config crates now draw req
  | .updateLink code req => updateLink crates now code req
  | .getLink code => getLink code
  | .listLinks limit cursor => listLinks crates now limit cursor
  | .redirect code => redirect now code
  | .deleteLink code => deleteLink code
  | .getLinkStats code => getLinkStats now code
  | .getTopStats limit => getTopStats limit

/-- What the client of a request gets: a response, or a closed connection. -/
def answer (requestId : Option String) : Except (Failure AppError) Response → Option Response
  | .ok response => some response
  | .error (.error e) => some (.ofError requestId e)
  | .error .panicked => none

variable {R : Type} [LinkRepository R]

/-- A request served with nothing in between. -/
def serve (requestId : Option String) (req : Request config) (s : AppState R) :
    Option Response × AppState R :=
  let out := (handle crates now req).run s
  (answer requestId out.1, out.2)

/-- A request, when it arrives and the identifier it is given. -/
structure Arrival (config : Config) where
  now : SystemTime
  requestId : Option String
  req : Request config

/-- The state after a request. -/
def step (s : AppState R) (a : Arrival config) : AppState R :=
  (serve crates a.now a.requestId a.req s).2

/-! ## what no handler touches -/

/-- **Frame**: no handler writes the statistics storage of the endpoints. -/
theorem statsStorage_run {ε α : Type} (h : Handler ε α) (s : AppState R) :
    (h.run s).2.statsStorage = s.statsStorage := by
  apply Handler.run_invariant (P := fun s' => s'.statsStorage = s.statsStorage) ?_ h rfl
  intro c s' hs'
  cases c <;> exact hs'

/-! ## URLs to try things on -/

/-- A URL whose text is its own serialization. -/
def plainUrl (scheme text : String) (hne : 0 < text.length)
    (hv : ∀ c ∈ text.toList, 0x20 < c.toNat ∧ c.toNat < 0x7f) : Url := ⟨scheme, text, hne, hv⟩

/-- A generated code of one character. -/
def letterA : Nanoid 1 where
  code := "a"
  length_code := rfl
  alphabet := by
    have ha : 'a' ∈ nanoidAlphabet := by decide
    simpa using ha

/-- Crates that know one URL. -/
def oneUrl : Crates where
  url := ⟨fun raw =>
    if raw = "https://example.com/" then
      .ok (plainUrl "https" "https://example.com/" (by decide) (by simp))
    else .error "relative URL without a base"⟩
  base64Encode := fun _ => ""
  base64Decode := fun _ => none
  jsonToString := fun _ => ""
  jsonFromStr := fun _ => none

/-- Crates that treat cursors as the real ones do. -/
def cursorCrates : Crates where
  url := oneUrl.url
  base64Encode := Base64.encode
  base64Decode := Base64.decode
  jsonToString := Json.printPair
  jsonFromStr := Json.readPair

end Api

end Shorty
