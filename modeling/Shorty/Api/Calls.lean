import Shorty.Api.Spec

/-!
# Shorty.Api.Calls

Which calls a request can make on the shared state, whatever it is answered.
-/

namespace Shorty

namespace Api

variable {config : Config}

/-- The calls a request can make. -/
inductive Makes : Request config → Call → Prop where
  | insert (draw : Nat → Nanoid config.codeLength) (req : CreateLinkRequest) (now : SystemTime)
      (link : ShortLink) : Makes (.createLink draw req) (.insert now link)
  | showCreated (draw : Nat → Nanoid config.codeLength) (req : CreateLinkRequest) (code : String) :
      Makes (.createLink draw req) (.stats code)
  | update (code : String) (req : UpdateLinkRequest) (now : SystemTime) (targetUrl : String)
      (version : Int64) : Makes (.updateLink code req) (.update now code targetUrl version)
  | updated (code : String) (req : UpdateLinkRequest) :
      Makes (.updateLink code req) (.cacheInvalidate (linkKey code))
  | cacheGet (code : String) : Makes (.getLink code) (.cacheGet (linkKey code))
  | stats (code : String) : Makes (.getLink code) (.stats code)
  | cacheSet (code : String) (value : LinkResponse) : Makes (.getLink code) (.cacheSet (linkKey code) value)
  | list (limit cursor : Option String) (now : SystemTime) (k : Nat) (c : Option (String × String)) :
      Makes (.listLinks limit cursor) (.list now k c)
  | follow (code : String) : Makes (.redirect code) (.get code)
  | recordHit (code : String) (now : SystemTime) : Makes (.redirect code) (.recordHit now code)
  | followed (code : String) : Makes (.redirect code) (.cacheInvalidate (linkKey code))
  | remove (code : String) : Makes (.deleteLink code) (.remove code)
  | removed (code : String) : Makes (.deleteLink code) (.cacheInvalidate (linkKey code))
  | statsGet (code : String) : Makes (.getLinkStats code) (.get code)
  | window (code : String) : Makes (.getLinkStats code) (.window code)
  | top (limit k : Nat) : Makes (.getTopStats limit) (.top k)

section Only

open Handler

variable (crates : Crates) (now : SystemTime) {P : Call → Prop}

theorem only_ofRepo {α : Type} (x : Except RepoError α) : Only P (ofRepo x) := only_ofExcept _ x

theorem only_tryInsertLink (hinsert : ∀ link, P (.insert now link)) (url : String)
    (expiresAt : Option SystemTime) (code : String) : Only P (tryInsertLink now url expiresAt code) := by
  rw [tryInsertLink_eq]
  exact only_ask (hinsert _)

theorem only_tryCodes (hinsert : ∀ link, P (.insert now link)) (url : String)
    (expiresAt : Option SystemTime) (codes : List String) :
    Only P (tryCodes config now url expiresAt codes) := by
  induction codes with
  | nil => exact only_fail _
  | cons code codes ih =>
      refine only_bind (only_tryInsertLink now hinsert url expiresAt code) (fun out => ?_)
      cases out with
      | ok _ => exact only_pure _
      | error e =>
          cases e with
          | codeTaken _ => exact ih
          | _ => exact only_fail _

theorem only_createLink (draw : Nat → Nanoid config.codeLength) (req : CreateLinkRequest)
    (hinsert : ∀ link, P (.insert now link)) (hstats : ∀ code, P (.stats code)) :
    Only P (createLink config crates now draw req) := by
  refine only_bind (only_ofExcept _ _) (fun url => ?_)
  refine only_bind (only_orPanic _) (fun expiry => ?_)
  refine only_bind (only_ofExcept _ _) (fun expiresAt => ?_)
  have hshow : ∀ code, Only P (showCreated code) := fun code =>
    only_bind (only_ask (hstats code)) (fun _ => only_bind (only_ofRepo _) (fun _ => only_pure _))
  cases req.customCode with
  | none => exact only_bind (only_tryCodes now hinsert _ _ _) hshow
  | some custom =>
      refine only_bind (only_ofExcept _ _) (fun _ => ?_)
      refine only_bind ?_ (fun _ => hshow custom)
      exact only_bind (only_tryInsertLink now hinsert _ _ _) (fun _ => only_ofRepo _)

/-- A request makes the calls `Makes` lists. -/
theorem only_handle (req : Request config) : Only (Makes req) (handle crates now req) := by
  cases req with
  | createLink draw req =>
      exact only_createLink crates now draw req (fun link => .insert draw req now link)
        (fun code => .showCreated draw req code)
  | updateLink code req =>
      refine only_bind (only_ofExcept _ _) (fun url => ?_)
      refine only_bind (only_ask (.update code req now url.asStr req.version)) (fun answer => ?_)
      refine only_bind (only_ofRepo _) (fun link => ?_)
      exact only_bind (only_ask (.updated code req)) (fun _ => only_pure _)
  | getLink code =>
      refine only_bind (only_ask (.cacheGet code)) (fun (found : Option LinkResponse) => ?_)
      cases found with
      | some cached => exact only_pure _
      | none =>
          refine only_bind (only_ask (.stats code)) (fun answer => ?_)
          refine only_bind (only_ofRepo _) (fun stats => ?_)
          exact only_bind (only_ask (.cacheSet code _)) (fun _ => only_pure _)
  | listLinks limit cursor =>
      refine only_bind (only_ask (.list limit cursor now _ _)) (fun answer => ?_)
      refine only_bind (only_orPanic _) (fun page => ?_)
      exact only_bind (only_ofRepo _) (fun _ => only_pure _)
  | redirect code =>
      refine only_bind (only_ask (.follow code)) (fun answer => ?_)
      refine only_bind (only_ofRepo _) (fun link => ?_)
      split
      · exact only_fail _
      · refine only_bind (only_ask (.recordHit code now)) (fun hits => ?_)
        refine only_bind (only_ofRepo _) (fun _ => ?_)
        exact only_bind (only_ask (.followed code)) (fun _ => only_pure _)
  | deleteLink code =>
      refine only_bind (only_ask (.remove code)) (fun answer => ?_)
      refine only_bind (only_ofRepo _) (fun _ => ?_)
      exact only_bind (only_ask (.removed code)) (fun _ => only_pure _)
  | getLinkStats code =>
      refine only_bind (only_ask (.statsGet code)) (fun answer => ?_)
      refine only_bind (only_ofRepo _) (fun link => ?_)
      split
      · exact only_fail _
      · exact only_bind (only_ask (.window code)) (fun _ => only_pure _)
  | getTopStats limit => exact only_bind (only_ask (.top limit _)) (fun _ => only_pure _)

end Only

/-- What is done for a request, a call at a time. -/
def program (crates : Crates) (a : Arrival config) : Proc Call.Resp (Option Response) :=
  answer a.requestId <$> ExceptT.run (handle crates a.now a.req)

/-- **Refinement**: the calls of a request, with nothing in between, serve it. -/
theorem run_program {R : Type} [LinkRepository R] (crates : Crates) (a : Arrival config)
    (s : AppState R) :
    Proc.run AppState.exec (program crates a) s = serve crates a.now a.requestId a.req s := by
  rw [program, Proc.run_map]
  rfl

theorem only_program (crates : Crates) (a : Arrival config) :
    Proc.Only (Makes a.req) (program crates a) :=
  Proc.only_map (only_handle crates a.now a.req)

end Api

end Shorty
