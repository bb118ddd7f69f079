import Mathlib.Logic.Encodable.Basic
import Mathlib.Logic.Equiv.List
import Shorty.Auth

/-!
# Shorty.Auth.Acceptance

Which tokens are let through.  The issuing side takes issuer and audience from
the running configuration, the checking side takes them from the default one, so
the two agree exactly when the configuration has the default issuer and audience.
-/

namespace Shorty

namespace Auth

variable {env : AuthEnv} {config : AuthConfig} {now : SystemTime} {authorization : Option String}
  {token : String} {claims : Claims}

/-! ## what is let through -/

/-- A token signed for the configured keys, for an issuer and an audience, and not
expired by more than the leeway. -/
def ValidFor (env : AuthEnv) (config : AuthConfig) (issuer audience : String) (now : SystemTime)
    (token : String) : Prop :=
  ∃ keys claims, loadKeys env config = .ok keys ∧ env.jwt.header token = some .RS256 ∧
    env.jwt.verifies token keys.2 = true ∧ env.jwt.payload token = some claims ∧
    now.secsSinceEpoch ≤ claims.exp + 30 ∧ claims.iss = issuer ∧ claims.aud = audience

/-- A request goes through. -/
def Passes (env : AuthEnv) (config : AuthConfig) (now : SystemTime)
    (authorization : Option String) : Prop :=
  ∃ user, authMiddleware env (some config) now authorization = .ok user

theorem admits_validation_iff {now : Nat} : (validation env).Admits now claims ↔
    now ≤ claims.exp + 30 ∧ claims.iss = (defaultConfig env).issuer ∧
      claims.aud = (defaultConfig env).audience := by
  constructor
  · intro h
    exact ⟨h.exp rfl, List.mem_singleton.mp h.iss, List.mem_singleton.mp h.aud⟩
  · rintro ⟨hexp, hiss, haud⟩
    refine ⟨?_, fun _ => hexp, List.mem_singleton.mpr hiss, List.mem_singleton.mpr haud⟩
    have hrequired : (["exp", "iss", "aud"] : List String) ⊆ Claims.specClaims := by decide
    exact fun _ hname => hrequired hname

theorem validateToken_eq_ok_iff {key : env.jwt.DecodingKey} :
    validateToken env now token key = .ok claims ↔
      env.jwt.decode now.secsSinceEpoch token key (validation env) = .ok claims := by
  rw [validateToken]
  cases env.jwt.decode now.secsSinceEpoch token key (validation env) with
  | ok claims' => simp
  | error e => cases e <;> simp

theorem bearer_injective {token' : String} (h : some ("Bearer " ++ token) = some ("Bearer " ++ token')) :
    token = token' := by
  have hstrip := Token.stripPrefix_eq_some_iff.mpr (Option.some.inj h)
  rw [Token.stripPrefix_eq_some_iff.mpr rfl] at hstrip
  exact Option.some.inj hstrip

theorem authMiddleware_bearer (now : SystemTime) (token : String) :
    authMiddleware env (some config) now (some ("Bearer " ++ token)) =
      (loadKeys env config).bind (fun keys =>
        (validateToken env now token keys.2).bind (fun claims => .ok (some claims))) := by
  have hstrip := Token.stripPrefix_eq_some_iff.mpr (rfl : "Bearer " ++ token = "Bearer " ++ token)
  simp only [authMiddleware, hstrip]
  rfl

theorem authMiddleware_unbearing {header : String}
    (h : ∀ token, header ≠ "Bearer " ++ token) :
    authMiddleware env (some config) now (some header) = .error .invalidToken := by
  have hstrip : Token.stripPrefix "Bearer " header = none := by
    rw [Option.eq_none_iff_forall_ne_some]
    exact fun token htoken => h token (Token.stripPrefix_eq_some_iff.mp htoken)
  simp only [authMiddleware, hstrip]

/-- A bearer goes through when the keys load and its token validates. -/
theorem passes_bearer_iff : Passes env config now (some ("Bearer " ++ token)) ↔
    ∃ keys claims, loadKeys env config = .ok keys ∧
      validateToken env now token keys.2 = .ok claims := by
  rw [Passes, authMiddleware_bearer]
  cases loadKeys env config with
  | error e => simp [Except.bind]
  | ok keys =>
      cases hvalid : validateToken env now token keys.2 with
      | error e => simp [Except.bind, hvalid]
      | ok claims => simp [Except.bind, hvalid]

/-- The middleware lets through the bearers of tokens that validate. -/
theorem passes_iff_validateToken : Passes env config now authorization ↔
    ∃ token, authorization = some ("Bearer " ++ token) ∧ ∃ keys claims,
      loadKeys env config = .ok keys ∧ validateToken env now token keys.2 = .ok claims := by
  cases authorization with
  | none =>
      constructor
      · rintro ⟨_, h⟩
        cases h
      · rintro ⟨_, h, _⟩
        cases h
  | some header =>
      by_cases h : ∃ token, header = "Bearer " ++ token
      · obtain ⟨token, rfl⟩ := h
        rw [passes_bearer_iff]
        constructor
        · exact fun hkeys => ⟨token, rfl, hkeys⟩
        · rintro ⟨token', htoken, hkeys⟩
          rwa [bearer_injective htoken]
      · rw [not_exists] at h
        rw [Passes, authMiddleware_unbearing h]
        constructor
        · rintro ⟨_, h⟩
          cases h
        · rintro ⟨token, htoken, _⟩
          exact absurd (Option.some.inj htoken) (h token)

/-- What the middleware lets through: the bearers of tokens for the default issuer
and audience. -/
theorem passes_iff (law : env.jwt.Lawful) : Passes env config now authorization ↔
    ∃ token, authorization = some ("Bearer " ++ token) ∧
      ValidFor env config (defaultConfig env).issuer (defaultConfig env).audience now token := by
  rw [passes_iff_validateToken]
  constructor
  · rintro ⟨token, hheader, keys, claims, hkeys, hvalid⟩
    obtain ⟨halg, hsig, hpayload, hadmits⟩ :=
      law.decode_ok_iff.mp (validateToken_eq_ok_iff.mp hvalid)
    exact ⟨token, hheader, keys, claims, hkeys, halg, hsig, hpayload,
      admits_validation_iff.mp hadmits⟩
  · rintro ⟨token, hheader, keys, claims, hkeys, halg, hsig, hpayload, hadmits⟩
    refine ⟨token, hheader, keys, claims, hkeys, validateToken_eq_ok_iff.mpr ?_⟩
    exact law.decode_ok_iff.mpr ⟨halg, hsig, hpayload, admits_validation_iff.mpr hadmits⟩

theorem passes_bearer_iff_validFor (law : env.jwt.Lawful) :
    Passes env config now (some ("Bearer " ++ token)) ↔
      ValidFor env config (defaultConfig env).issuer (defaultConfig env).audience now token := by
  rw [passes_iff law]
  constructor
  · rintro ⟨token', hheader, hvalid⟩
    rwa [bearer_injective hheader]
  · exact fun hvalid => ⟨token, rfl, hvalid⟩

/-- What a valid token says of its issuer and audience. -/
theorem payload_of_validFor {issuer audience : String}
    (h : ValidFor env config issuer audience now token)
    (hpayload : env.jwt.payload token = some claims) :
    claims.iss = issuer ∧ claims.aud = audience := by
  obtain ⟨_, claims', _, _, _, hpayload', _, hiss, haud⟩ := h
  rw [hpayload] at hpayload'
  cases hpayload'
  exact ⟨hiss, haud⟩

/-! ## what is issued -/

/-- A number of seconds in the range of a clock is a `usize`. -/
theorem asUsize_of_chronoSecs {n : Int} (h0 : 0 ≤ n) (h : chronoSecs n = true) :
    (asUsize n : Int) = n := by
  rw [chronoSecs, Bool.and_eq_true, decide_eq_true_eq, decide_eq_true_eq] at h
  rw [asUsize]
  omega

theorem claims_new_eq_some {sub role iss aud : String} {ttl : Int}
    (h : Claims.new now sub role iss aud ttl = some claims) :
    claims.iss = iss ∧ claims.aud = aud ∧
      (0 ≤ now.ns / 10 ^ 9 + ttl → (claims.exp : Int) = now.ns / 10 ^ 9 + ttl) := by
  rw [Claims.new] at h
  split at h
  · rename_i hrange
    cases h
    exact ⟨rfl, rfl, fun h0 => asUsize_of_chronoSecs h0 hrange.2.2⟩
  · cases h

/-- A login answers with a token for the configured issuer and audience, signed
with the configured key. -/
theorem loginHandler_eq_ok {req : LoginRequest} {response : LoginResponse}
    (h : loginHandler env (some config) now req = .ok response) :
    ∃ claims keys, Claims.new now req.username "admin" config.issuer config.audience
        config.accessTokenTtlSecs = some claims ∧ loadKeys env config = .ok keys ∧
      env.jwt.encode .RS256 claims keys.1 = some response.accessToken := by
  simp only [loginHandler] at h
  split at h
  · cases h
  · split at h
    · cases h
    · cases hnew : Claims.new now req.username "admin" config.issuer config.audience
          config.accessTokenTtlSecs with
      | none =>
          simp only [hnew] at h
          cases h
      | some claims =>
          simp only [hnew] at h
          cases hkeys : loadKeys env config with
          | error e =>
              rw [hkeys] at h
              cases h
          | ok keys =>
              rw [hkeys] at h
              change (answering (orInvalid (env.jwt.encode .RS256 claims keys.1))).bind
                (fun token => .ok (⟨token, "Bearer", config.accessTokenTtlSecs⟩ : LoginResponse)) =
                  .ok response at h
              cases htoken : env.jwt.encode .RS256 claims keys.1 with
              | none =>
                  rw [htoken] at h
                  cases h
              | some token =>
                  rw [htoken] at h
                  cases h
                  exact ⟨claims, keys, rfl, rfl, htoken⟩

/-! ## the running configuration -/

/-- Tokens are accepted as the running configuration says. -/
structure AcceptsConfigured (env : AuthEnv) (config : AuthConfig) : Prop where
  /-- A request goes through exactly when it bears a token that is valid for the
  configured issuer and audience. -/
  exact : ∀ now authorization, Passes env config now authorization ↔
    ∃ token, authorization = some ("Bearer " ++ token) ∧
      ValidFor env config config.issuer config.audience now token
  /-- What a login issues goes through until it expires. -/
  issued : ∀ issuedAt req response, loginHandler env (some config) issuedAt req = .ok response →
    ∀ now : SystemTime,
      (now.secsSinceEpoch : Int) ≤ issuedAt.ns / 10 ^ 9 + config.accessTokenTtlSecs →
      Passes env config now (some ("Bearer " ++ response.accessToken))
  /-- A token for another issuer or audience does not go through. -/
  foreign : ∀ token claims, env.jwt.payload token = some claims →
    claims.iss ≠ config.issuer ∨ claims.aud ≠ config.audience →
    ∀ now, ¬ Passes env config now (some ("Bearer " ++ token))

section KeyPair

variable (law : env.jwt.Lawful) {keys : env.jwt.EncodingKey × env.jwt.DecodingKey}
  (hkeys : loadKeys env config = .ok keys) (hpair : env.jwt.KeyPair keys.1 keys.2)

include law hkeys hpair

/-- A token signed with the configured key is valid for the issuer and audience it
names until it expires. -/
theorem validFor_of_encode (htoken : env.jwt.encode .RS256 claims keys.1 = some token)
    (hexp : now.secsSinceEpoch ≤ claims.exp + 30) :
    ValidFor env config claims.iss claims.aud now token :=
  ⟨keys, claims, hkeys, law.header_encode htoken, hpair.verifies htoken,
    law.payload_encode htoken, hexp, rfl, rfl⟩

/-- A configuration that lets through what is valid for it has the default issuer
and audience: a token signed for it shows them. -/
theorem eq_default_of_passes
    (h : ∀ now token, ValidFor env config config.issuer config.audience now token →
      Passes env config now (some ("Bearer " ++ token))) :
    config.issuer = (defaultConfig env).issuer ∧
      config.audience = (defaultConfig env).audience := by
  obtain ⟨token, htoken⟩ := hpair.signs ⟨"", 0, 0, config.issuer, config.audience, ""⟩
  have hfresh : SystemTime.UNIX_EPOCH.secsSinceEpoch ≤ 0 + 30 := by decide
  have hvalid := validFor_of_encode law hkeys hpair htoken hfresh
  exact payload_of_validFor ((passes_bearer_iff_validFor law).mp (h _ _ hvalid))
    (law.payload_encode htoken)

/-- Where issuer and audience are the default ones, the token of a login goes
through until it expires. -/
theorem passes_of_loginHandler (hiss : config.issuer = (defaultConfig env).issuer)
    (haud : config.audience = (defaultConfig env).audience) {issuedAt : SystemTime}
    {req : LoginRequest} {response : LoginResponse}
    (hlogin : loginHandler env (some config) issuedAt req = .ok response)
    (hnow : (now.secsSinceEpoch : Int) ≤ issuedAt.ns / 10 ^ 9 + config.accessTokenTtlSecs) :
    Passes env config now (some ("Bearer " ++ response.accessToken)) := by
  obtain ⟨claims, keys', hnew, hkeys', htoken⟩ := loginHandler_eq_ok hlogin
  obtain ⟨hclaimsIss, hclaimsAud, hexp⟩ := claims_new_eq_some hnew
  rw [hkeys] at hkeys'
  cases hkeys'
  have hfresh : now.secsSinceEpoch ≤ claims.exp + 30 := by
    have := hexp (by omega)
    omega
  have hvalid := validFor_of_encode law hkeys hpair htoken hfresh
  rw [hclaimsIss, hclaimsAud, hiss, haud] at hvalid
  exact (passes_bearer_iff_validFor law).mpr hvalid

end KeyPair

/-- **Token acceptance**: under a key pair for RS256, tokens are accepted as the
running configuration says exactly when its issuer and audience are the default
ones. -/
theorem acceptsConfigured_iff (env : AuthEnv) (law : env.jwt.Lawful) (config : AuthConfig)
    (keys : env.jwt.EncodingKey × env.jwt.DecodingKey) (hkeys : loadKeys env config = .ok keys)
    (hpair : env.jwt.KeyPair keys.1 keys.2) :
    AcceptsConfigured env config ↔ config.issuer = (defaultConfig env).issuer ∧
      config.audience = (defaultConfig env).audience := by
  constructor
  · intro h
    refine eq_default_of_passes law hkeys hpair (fun now token hvalid => ?_)
    exact (h.exact now _).mpr ⟨token, rfl, hvalid⟩
  · rintro ⟨hiss, haud⟩
    constructor
    · intro now authorization
      rw [passes_iff law, hiss, haud]
    · intro issuedAt req response hlogin now hnow
      exact passes_of_loginHandler law hkeys hpair hiss haud hlogin hnow
    · intro token claims hpayload hother now hpass
      have hclaims := payload_of_validFor ((passes_bearer_iff_validFor law).mp hpass) hpayload
      rw [hiss, haud] at hother
      rcases hother with hne | hne
      · exact hne hclaims.1
      · exact hne hclaims.2

/-! ## a crate to try things on -/

section Strokes

local instance encodableChar : Encodable Char :=
  .ofLeftInjection Char.toNat (fun n => some (Char.ofNat n)) (fun c => by rw [Char.ofNat_toNat])

local instance encodableString : Encodable String :=
  .ofLeftInjection String.toList (fun l => some (String.ofList l))
    (fun s => by rw [String.ofList_toList])

local instance encodableClaims : Encodable Claims :=
  .ofLeftInjection (fun c => (c.sub, c.exp, c.iat, c.iss, c.aud, c.role))
    (fun (sub, exp, iat, iss, aud, role) => some ⟨sub, exp, iat, iss, aud, role⟩) (fun _ => rfl)

/-- A token of the crate below: a letter for RS256, the claims as a number of
strokes, and a dot for the signature. -/
def strokesToken (claims : Claims) : String :=
  String.ofList ('R' :: (List.replicate (Encodable.encode claims) '|' ++ ['.']))

def strokesHeader (token : String) : Option Algorithm :=
  if token.toList.head? = some 'R' then some .RS256 else none

def strokesPayload (token : String) : Option Claims := Encodable.decode (token.toList.count '|')

def strokesSigned (token : String) : Bool := decide (token.toList.getLast? = some '.')

/-- A crate with one key pair and tokens that can be read off. -/
def strokes : JwtCrate where
  EncodingKey := Unit
  DecodingKey := Unit
  encodingKeyFromRsaPem _ := some ()
  encodingKeyFromEcPem _ := none
  decodingKeyFromRsaPem _ := some ()
  decodingKeyFromEcPem _ := none
  encode alg claims _ := if alg = .RS256 then some (strokesToken claims) else none
  decode now token _ v :=
    if strokesHeader token = some v.algorithm ∧ strokesSigned token = true then
      match strokesPayload token with
      | some claims => if v.Admits now claims then .ok claims else .error .other
      | none => .error .other
    else .error .other
  header := strokesHeader
  payload := strokesPayload
  verifies token _ := strokesSigned token

theorem strokesHeader_token (claims : Claims) : strokesHeader (strokesToken claims) = some .RS256 := by
  simp [strokesHeader, strokesToken]

/-- A token has no characters but these. -/
theorem mem_strokesToken {claims : Claims} {c : Char} (h : c ∈ (strokesToken claims).toList) :
    c = 'R' ∨ c = '|' ∨ c = '.' := by
  rw [strokesToken, String.toList_ofList] at h
  generalize Encodable.encode claims = n at h
  simp only [List.mem_cons, List.mem_append, List.mem_replicate, List.not_mem_nil, or_false] at h
  exact h.imp_right (fun hrest => hrest.imp_left And.right)

theorem strokesPayload_token (claims : Claims) : strokesPayload (strokesToken claims) = some claims := by
  rw [strokesPayload, strokesToken, String.toList_ofList]
  simp [Encodable.encodek]

theorem strokesSigned_token (claims : Claims) : strokesSigned (strokesToken claims) = true := by
  rw [strokesSigned, strokesToken, String.toList_ofList, ← List.cons_append, List.getLast?_concat,
    decide_eq_true_eq]

theorem strokes_encode_eq_some {alg : Algorithm} {claims : Claims} {key : strokes.EncodingKey}
    {token : String} (h : strokes.encode alg claims key = some token) :
    alg = .RS256 ∧ token = strokesToken claims := by
  simp only [strokes] at h
  split at h
  · rename_i halg
    exact ⟨halg, (Option.some.inj h).symm⟩
  · cases h

theorem strokes_lawful : strokes.Lawful where
  decode_ok_iff {now token key v claims} := by
    simp only [strokes]
    split
    · rename_i h
      cases strokesPayload token with
      | none => simp
      | some claims' =>
          by_cases hadmits : v.Admits now claims'
          · simp only [if_pos hadmits, Except.ok.injEq, Option.some.injEq]
            constructor
            · rintro rfl
              exact ⟨h.1, h.2, rfl, hadmits⟩
            · exact fun h => h.2.2.1
          · simp only [if_neg hadmits, Option.some.injEq]
            constructor
            · intro h
              cases h
            · rintro ⟨_, _, rfl, h⟩
              exact absurd h hadmits
    · rename_i h
      constructor
      · intro h
        cases h
      · exact fun h' => absurd ⟨h'.1, h'.2.1⟩ h
  header_encode {alg claims key token} h := by
    obtain ⟨rfl, rfl⟩ := strokes_encode_eq_some h
    simp only [strokes, strokesHeader_token]
  payload_encode {alg claims key token} h := by
    obtain ⟨_, rfl⟩ := strokes_encode_eq_some h
    exact strokesPayload_token claims

theorem strokes_keyPair : strokes.KeyPair () () where
  signs claims := ⟨strokesToken claims, rfl⟩
  verifies {claims token} h := by
    obtain ⟨_, rfl⟩ := strokes_encode_eq_some h
    simp only [strokes, strokesSigned_token]

end Strokes

/-- A server with that crate, readable keys and passwords kept as they are. -/
def strokesEnv : AuthEnv where
  jwt := strokes
  argon2HashPassword password := password
  verifyPassword password hash := decide (password = hash)
  readToString _ := some ""
  manifestDir := "/shorty-server"

/-- The token of these claims is good for their issuer and audience until it expires. -/
theorem validFor_strokesToken (config : AuthConfig) (hrsa : config.algorithm = .RS256)
    (hexp : now.secsSinceEpoch ≤ claims.exp + 30) :
    ValidFor strokesEnv config claims.iss claims.aud now (strokesToken claims) := by
  have hkeys : loadKeys strokesEnv config = .ok ((), ()) := by
    simp only [loadKeys, hrsa]
    rfl
  refine ⟨((), ()), claims, hkeys, ?_, ?_, ?_, hexp, rfl, rfl⟩
  · simp only [strokesEnv, strokes, strokesHeader_token]
  · simp only [strokesEnv, strokes, strokesSigned_token]
  · simp only [strokesEnv, strokes, strokesPayload_token]

/-- The default configuration accepts its own tokens. -/
theorem acceptsConfigured_default : AcceptsConfigured strokesEnv (defaultConfig strokesEnv) :=
  (acceptsConfigured_iff strokesEnv strokes_lawful (defaultConfig strokesEnv) ((), ()) rfl
    strokes_keyPair).mpr ⟨rfl, rfl⟩

/-- A service with an issuer of its own. -/
def renamedIssuer : AuthConfig := { defaultConfig strokesEnv with issuer := "my-shortener" }

/-- With another issuer valid tokens are refused. -/
theorem not_acceptsConfigured_renamedIssuer : ¬ AcceptsConfigured strokesEnv renamedIssuer := by
  intro h
  have hkeys : loadKeys strokesEnv renamedIssuer = .ok ((), ()) := rfl
  have heq := eq_default_of_passes strokes_lawful hkeys strokes_keyPair
    (fun now token hvalid => (h.exact now _).mpr ⟨token, rfl, hvalid⟩)
  have hne : renamedIssuer.issuer ≠ (defaultConfig strokesEnv).issuer := by decide
  exact hne heq.1

end Auth

end Shorty
