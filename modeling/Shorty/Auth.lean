import Mathlib.Data.String.Basic
import Shorty.Lib.Token
import Shorty.Server

/-!
# Shorty.Auth

Authentication (`auth/mod.rs`): the tokens `login_handler` issues and the ones
`auth_middleware` lets through.

Signing and checking a token belongs to the `jsonwebtoken` crate, which is a
parameter; what its documentation says of `encode` and `decode` is `Lawful`.
-/

namespace Shorty

inductive AuthError where
  | invalidCredentials
  | missingToken
  | invalidToken
  | tokenExpired
  | forbidden
deriving DecidableEq

namespace AuthError

def message : AuthError → String
  | .invalidCredentials => "invalid credentials"
  | .missingToken => "missing token"
  | .invalidToken => "invalid token"
  | .tokenExpired => "token expired"
  | .forbidden => "forbidden"

def status : AuthError → Nat
  | .invalidCredentials => 401
  | .invalidToken => 401
  | .tokenExpired => 401
  | .missingToken => 401
  | .forbidden => 403

end AuthError

/-- The claims of a token. -/
structure Claims where
  sub : String
  exp : Nat
  iat : Nat
  iss : String
  aud : String
  role : String
deriving DecidableEq

/-- `as usize` of an `i64`. -/
def asUsize (n : Int) : Nat := (n % 2 ^ 64).toNat

/-- The first and last whole second of chrono's range. -/
def chronoSecs (secs : Int) : Bool :=
  decide (-8334601228800 ≤ secs) && decide (secs ≤ 8210266876799)

/-- Claims issued at `now`; `none` where the clock or the expiry is outside the
range of chrono, which panics. -/
def Claims.new (now : SystemTime) (sub role iss aud : String) (ttlSecs : Int) : Option Claims :=
  let issuedAt := now.ns / 10 ^ 9
  if 0 ≤ issuedAt ∧ chronoSecs issuedAt ∧ chronoSecs (issuedAt + ttlSecs) then
    some
      { sub := sub
        exp := asUsize (issuedAt + ttlSecs)
        iat := asUsize issuedAt
        iss := iss
        aud := aud
        role := role }
  else none

/-! ## the `jsonwebtoken` crate -/

inductive Algorithm where
  | HS256 | HS384 | HS512 | ES256 | ES384 | RS256 | RS384 | RS512 | PS256 | PS384 | PS512 | EdDSA
deriving DecidableEq

/-- What `decode` is asked to check. -/
structure Validation where
  algorithm : Algorithm
  validateExp : Bool
  leeway : Nat
  issuer : List String
  audience : List String
  requiredSpecClaims : List String

/-- The registered names among the claims. -/
def Claims.specClaims : List String := ["exp", "iss", "aud", "sub"]

/-- Whether the claims pass the checks at a time, in seconds. -/
structure Validation.Admits (v : Validation) (now : Nat) (claims : Claims) : Prop where
  required : ∀ name ∈ v.requiredSpecClaims, name ∈ Claims.specClaims
  exp : v.validateExp = true → now ≤ claims.exp + v.leeway
  iss : claims.iss ∈ v.issuer
  aud : claims.aud ∈ v.audience

instance (v : Validation) (now : Nat) (claims : Claims) : Decidable (v.Admits now claims) :=
  decidable_of_iff
    ((∀ name ∈ v.requiredSpecClaims, name ∈ Claims.specClaims) ∧
      (v.validateExp = true → now ≤ claims.exp + v.leeway) ∧
      claims.iss ∈ v.issuer ∧ claims.aud ∈ v.audience)
    ⟨fun h => ⟨h.1, h.2.1, h.2.2.1, h.2.2.2⟩, fun h => ⟨h.required, h.exp, h.iss, h.aud⟩⟩

/-- Why `decode` fails, as far as the service looks. -/
inductive JwtError where
  | expiredSignature
  | other

/-- The `jsonwebtoken` crate, with what a token says: the algorithm of its
header, its payload, and whether its signature verifies. -/
structure JwtCrate where
  EncodingKey : Type
  DecodingKey : Type
  encodingKeyFromRsaPem : String → Option EncodingKey
  encodingKeyFromEcPem : String → Option EncodingKey
  decodingKeyFromRsaPem : String → Option DecodingKey
  decodingKeyFromEcPem : String → Option DecodingKey
  encode : Algorithm → Claims → EncodingKey → Option String
  decode : Nat → String → DecodingKey → Validation → Except JwtError Claims
  header : String → Option Algorithm
  payload : String → Option Claims
  verifies : String → DecodingKey → Bool

namespace JwtCrate

/-- `decode` checks what its `Validation` asks for, and a token says what
`encode` was given. -/
structure Lawful (jwt : JwtCrate) : Prop where
  decode_ok_iff : ∀ {now token key v claims}, jwt.decode now token key v = .ok claims ↔
    jwt.header token = some v.algorithm ∧ jwt.verifies token key = true ∧
      jwt.payload token = some claims ∧ v.Admits now claims
  header_encode : ∀ {alg claims key token}, jwt.encode alg claims key = some token →
    jwt.header token = some alg
  payload_encode : ∀ {alg claims key token}, jwt.encode alg claims key = some token →
    jwt.payload token = some claims

/-- A key pair for RS256: one key signs, the other verifies what it signed. -/
structure KeyPair (jwt : JwtCrate) (ek : jwt.EncodingKey) (dk : jwt.DecodingKey) : Prop where
  signs : ∀ claims, ∃ token, jwt.encode .RS256 claims ek = some token
  verifies : ∀ {claims token}, jwt.encode .RS256 claims ek = some token →
    jwt.verifies token dk = true

end JwtCrate

/-! ## configuration and keys -/

structure AuthConfig where
  issuer : String
  audience : String
  accessTokenTtlSecs : Int
  privateKeyPath : String
  publicKeyPath : String
  adminUsername : String
  adminPasswordHash : String
  algorithm : Algorithm

/-- What authentication finds around it: the two crates, the files and the
directory of the build. -/
structure AuthEnv where
  jwt : JwtCrate
  argon2HashPassword : String → String
  /-- Whether a password has a given hash. -/
  verifyPassword : String → String → Bool
  readToString : String → Option String
  manifestDir : String

namespace Auth

variable (env : AuthEnv)

/-- `AuthConfig::default()`. -/
def defaultConfig : AuthConfig where
  issuer := "shorty-service"
  audience := "shorty-api"
  accessTokenTtlSecs := 900
  privateKeyPath := "../keys/jwt_private.pem"
  publicKeyPath := "../keys/jwt_public.pem"
  adminUsername := "admin"
  adminPasswordHash := env.argon2HashPassword "admin"
  algorithm := .RS256

/-- A path, relative to the directory of the build unless it is absolute. -/
def resolvePath (path manifestDir : String) : String :=
  if path.toList.head? = some '/' ∨ path.toList.take 2 = ['~', '/'] then path
  else manifestDir ++ "/" ++ path

def orInvalid {α : Type} : Option α → Except AuthError α
  | some a => .ok a
  | none => .error .invalidToken

def loadKeys (config : AuthConfig) :
    Except AuthError (env.jwt.EncodingKey × env.jwt.DecodingKey) := do
  let privatePem ← orInvalid (env.readToString (resolvePath config.privateKeyPath env.manifestDir))
  let publicPem ← orInvalid (env.readToString (resolvePath config.publicKeyPath env.manifestDir))
  let encodingKey ← orInvalid (match config.algorithm with
    | .RS256 | .RS384 | .RS512 => env.jwt.encodingKeyFromRsaPem privatePem
    | .ES256 | .ES384 => env.jwt.encodingKeyFromEcPem privatePem
    | _ => none)
  let decodingKey ← orInvalid (match config.algorithm with
    | .RS256 | .RS384 | .RS512 => env.jwt.decodingKeyFromRsaPem publicPem
    | .ES256 | .ES384 => env.jwt.decodingKeyFromEcPem publicPem
    | _ => none)
  return (encodingKey, decodingKey)

def createToken (claims : Claims) (key : env.jwt.EncodingKey) : Except AuthError String :=
  let algorithm := (defaultConfig env).algorithm
  orInvalid (env.jwt.encode algorithm claims key)

/-- The checks on a token: those of the default configuration. -/
def validation : Validation :=
  let config := defaultConfig env
  { algorithm := config.algorithm
    validateExp := true
    leeway := 30
    issuer := [config.issuer]
    audience := [config.audience]
    requiredSpecClaims := ["exp", "iss", "aud"] }

def validateToken (now : SystemTime) (token : String) (key : env.jwt.DecodingKey) :
    Except AuthError Claims :=
  match env.jwt.decode now.secsSinceEpoch token key (validation env) with
  | .ok claims => .ok claims
  | .error .expiredSignature => .error .tokenExpired
  | .error .other => .error .invalidToken

structure LoginRequest where
  username : String
  password : String

structure LoginResponse where
  accessToken : String
  tokenType : String
  expiresIn : Int
deriving DecidableEq

/-- An error to answer. -/
def answering {α : Type} : Except AuthError α → Except (Failure AuthError) α
  | .ok a => .ok a
  | .error e => .error (.error e)

/-- A login.  It panics where authentication is disabled. -/
def loginHandler (auth : Option AuthConfig) (now : SystemTime) (req : LoginRequest) :
    Except (Failure AuthError) LoginResponse :=
  match auth with
  | none => .error .panicked
  | some config =>
      if req.username ≠ config.adminUsername then .error (.error .invalidCredentials)
      else if env.verifyPassword req.password config.adminPasswordHash = false then
        .error (.error .invalidCredentials)
      else
        match Claims.new now req.username "admin" config.issuer config.audience
            config.accessTokenTtlSecs with
        | none => .error .panicked
        | some claims => do
            let (encodingKey, _) ← answering (loadKeys env config)
            let token ← answering (createToken env claims encodingKey)
            return { accessToken := token
                     tokenType := "Bearer"
                     expiresIn := config.accessTokenTtlSecs }

/-- The value of a header. -/
abbrev HeaderValue := List UInt8

/-- `to_str`: a value of visible ASCII characters as a text. -/
def headerToStr (value : HeaderValue) : Option String :=
  if value.all (fun b => (decide (32 ≤ b) && decide (b < 127)) || decide (b = 9)) then
    some (String.ofList (value.map (fun b => Char.ofNat b.toNat)))
  else none

/-- Whether a request goes through, given its `Authorization` header where it is
text; the claims go with it. -/
def authMiddleware (auth : Option AuthConfig) (now : SystemTime) (authorization : Option String) :
    Except AuthError (Option Claims) :=
  match auth with
  | none => .ok none
  | some config =>
      match authorization with
      | none => .error .missingToken
      | some header =>
          match Token.stripPrefix "Bearer " header with
          | none => .error .invalidToken
          | some token => do
              let (_, decodingKey) ← loadKeys env config
              let claims ← validateToken env now token decodingKey
              return some claims

end Auth

end Shorty
